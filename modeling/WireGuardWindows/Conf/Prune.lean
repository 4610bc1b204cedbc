import WireGuardWindows.Conf.Text

/-!
# Pruning of blank lines

`pruneComments` brings a run of comment lines into a normal form and drops nothing
but blank lines on the way.
-/

namespace WireGuardWindows.Conf
open GoStd

def NoDoubleBlank (run : List Str) : Prop := run.IsChain fun a b => ¬ (a = [] ∧ b = [])

def collapseStep (out : List Str) (line : Str) : List Str :=
  if line = [] ∧ out.getLast? = some [] then out else out ++ [line]

structure PrunedRun (run : List Str) (dropLeading dropTrailing : Bool) : Prop where
  noDouble : NoDoubleBlank run
  leading : dropLeading = true → run.head? ≠ some []
  trailing : dropTrailing = true → run.getLast? ≠ some []
  notBlank : run ≠ [[]]

theorem collapseStep_noDouble {out : List Str} (h : NoDoubleBlank out) (line : Str) :
    NoDoubleBlank (collapseStep out line) := by
  rw [collapseStep]
  split_ifs with hl
  · exact h
  · rw [NoDoubleBlank, List.isChain_append]
    refine ⟨h, List.isChain_singleton line, ?_⟩
    intro a ha b hb hab
    have hbl : b = line := by simpa [eq_comm] using hb
    exact hl ⟨hbl ▸ hab.2, hab.1 ▸ ha⟩

theorem collapse_noDouble (run out : List Str) (h : NoDoubleBlank out) :
    NoDoubleBlank (run.foldl collapseStep out) := by
  induction run generalizing out with
  | nil => exact h
  | cons line run ih => exact ih _ (collapseStep_noDouble h line)

theorem collapse_eq {run out : List Str} (h : NoDoubleBlank (out ++ run)) :
    run.foldl collapseStep out = out ++ run := by
  induction run generalizing out with
  | nil => simp
  | cons line run ih =>
    have hstep : collapseStep out line = out ++ [line] := by
      rw [collapseStep, if_neg]
      rintro ⟨rfl, hlast⟩
      rw [NoDoubleBlank, List.isChain_append] at h
      exact h.2.2 [] hlast [] rfl ⟨rfl, rfl⟩
    rw [List.foldl_cons, hstep, ih (by simpa using h)]
    simp

theorem collapse_filter (run out : List Str) :
    (run.foldl collapseStep out).filter (· ≠ []) = (out ++ run).filter (· ≠ []) := by
  induction run generalizing out with
  | nil => simp
  | cons line run ih =>
    rw [List.foldl_cons, ih, collapseStep]
    split_ifs with h
    · simp [h.1]
    · simp

/-- The passes of `pruneComments` after the collapsing loop. -/
def trimRun (out : List Str) (dropLeading dropTrailing : Bool) : List Str :=
  let out := if dropLeading ∧ out.head? = some [] then out.tail else out
  let out := if dropTrailing ∧ out.getLast? = some [] then out.dropLast else out
  if out = [[]] then [] else out

theorem pruneComments_eq (run : List Str) (dl dt : Bool) :
    pruneComments run dl dt = trimRun (run.foldl collapseStep []) dl dt := rfl

theorem NoDoubleBlank.tail_head {out : List Str} (h : NoDoubleBlank out)
    (hd : out.head? = some []) :
    out.tail.head? ≠ some [] := by
  match out, h, hd with
  | [a], _, _ => simp
  | a :: b :: t, h, hd =>
    have ha : a = [] := by simpa using hd
    intro hb
    have hb' : b = [] := by simpa using hb
    exact (List.isChain_cons_cons.mp h).1 ⟨ha, hb'⟩

theorem NoDoubleBlank.dropLast_last {out : List Str} (h : NoDoubleBlank out)
    (hl : out.getLast? = some []) : out.dropLast.getLast? ≠ some [] := by
  obtain ⟨init, rfl⟩ : ∃ init, out = init ++ [[]] := by
    rcases List.eq_nil_or_concat out with rfl | ⟨init, c, rfl⟩
    · simp at hl
    · refine ⟨init, ?_⟩
      rw [List.concat_eq_append] at hl ⊢
      have hc : c = [] := by simpa using hl
      rw [hc]
  rw [List.dropLast_concat]
  intro hi
  rw [NoDoubleBlank, List.isChain_append] at h
  exact h.2.2 [] hi [] rfl ⟨rfl, rfl⟩

theorem trimRun_pruned {out : List Str} (h : NoDoubleBlank out) (dl dt : Bool) :
    PrunedRun (trimRun out dl dt) dl dt := by
  obtain ⟨o₁, ho₁⟩ : ∃ o, o = if dl ∧ out.head? = some [] then out.tail else out := ⟨_, rfl⟩
  obtain ⟨o₂, ho₂⟩ : ∃ o, o = if dt ∧ o₁.getLast? = some [] then o₁.dropLast else o₁ := ⟨_, rfl⟩
  have h₁ : NoDoubleBlank o₁ ∧ (dl = true → o₁.head? ≠ some []) := by
    rw [ho₁]
    split_ifs with hd
    · exact ⟨h.tail, fun _ => h.tail_head hd.2⟩
    · exact ⟨h, fun hdl hh => hd ⟨hdl, hh⟩⟩
  have h₂ : NoDoubleBlank o₂ ∧ (dl = true → o₂.head? ≠ some []) ∧
      (dt = true → o₂.getLast? ≠ some []) := by
    rw [ho₂]
    split_ifs with hd
    · refine ⟨h₁.1.dropLast, ?_, fun _ => h₁.1.dropLast_last hd.2⟩
      intro hdl hh
      apply h₁.2 hdl
      cases o₁ with
      | nil => simp at hh
      | cons a t =>
        cases t with
        | nil => simp at hh
        | cons b t => simpa using hh
    · exact ⟨h₁.1, h₁.2, fun hdt hl => hd ⟨hdt, hl⟩⟩
  have htrim : trimRun out dl dt = if o₂ = [[]] then [] else o₂ := by
    rw [ho₂, ho₁]
    rfl
  rw [htrim]
  split_ifs with hb
  · exact ⟨List.isChain_nil, by simp, by simp, by simp⟩
  · exact ⟨h₂.1, h₂.2.1, h₂.2.2, hb⟩

theorem pruneComments_pruned (run : List Str) (dl dt : Bool) :
    PrunedRun (pruneComments run dl dt) dl dt :=
  trimRun_pruned (collapse_noDouble run [] List.isChain_nil) dl dt

theorem PrunedRun.eq {run : List Str} {dl dt : Bool} (h : PrunedRun run dl dt) :
    pruneComments run dl dt = run := by
  rw [pruneComments_eq, collapse_eq (by simpa using h.noDouble), List.nil_append, trimRun]
  have h1 : ¬ (dl = true ∧ run.head? = some []) := fun hd => h.leading hd.1 hd.2
  have h2 : ¬ (dt = true ∧ run.getLast? = some []) := fun hd => h.trailing hd.1 hd.2
  simp only [h1, h2, h.notBlank, if_false]

theorem trimRun_filter (out : List Str) (dl dt : Bool) :
    (trimRun out dl dt).filter (· ≠ []) = out.filter (· ≠ []) := by
  have htail : ∀ o : List Str, o.head? = some [] → o.tail.filter (· ≠ []) = o.filter (· ≠ []) := by
    intro o ho
    cases o with
    | nil => rfl
    | cons a t =>
      have ha : a = [] := by simpa using ho
      simp [ha]
  have hlast : ∀ o : List Str, o.getLast? = some [] →
      o.dropLast.filter (· ≠ []) = o.filter (· ≠ []) := by
    intro o ho
    rcases List.eq_nil_or_concat o with rfl | ⟨init, c, rfl⟩
    · rfl
    · rw [List.concat_eq_append] at ho ⊢
      have hc : c = [] := by simpa using ho
      simp [hc]
  obtain ⟨o₁, ho₁⟩ : ∃ o, o = if dl ∧ out.head? = some [] then out.tail else out := ⟨_, rfl⟩
  obtain ⟨o₂, ho₂⟩ : ∃ o, o = if dt ∧ o₁.getLast? = some [] then o₁.dropLast else o₁ := ⟨_, rfl⟩
  have h₁ : o₁.filter (· ≠ []) = out.filter (· ≠ []) := by
    rw [ho₁]
    split_ifs with hd
    · exact htail out hd.2
    · rfl
  have h₂ : o₂.filter (· ≠ []) = o₁.filter (· ≠ []) := by
    rw [ho₂]
    split_ifs with hd
    · exact hlast o₁ hd.2
    · rfl
  have htrim : trimRun out dl dt = if o₂ = [[]] then [] else o₂ := by
    rw [ho₂, ho₁]
    rfl
  rw [htrim, ← h₁, ← h₂]
  split_ifs with hb
  · simp [hb]
  · rfl

theorem pruneComments_filter (run : List Str) (dl dt : Bool) :
    (pruneComments run dl dt).filter (· ≠ []) = run.filter (· ≠ []) := by
  rw [pruneComments_eq, trimRun_filter, collapse_filter, List.nil_append]

theorem mem_pruneComments {run : List Str} {dl dt : Bool} {line : Str}
    (h : line ∈ pruneComments run dl dt) : line = [] ∨ line ∈ run := by
  by_cases hl : line = []
  · exact Or.inl hl
  · have hmem : line ∈ (pruneComments run dl dt).filter (· ≠ []) := by simp [h, hl]
    rw [pruneComments_filter] at hmem
    exact Or.inr (List.mem_of_mem_filter hmem)

theorem PrunedRun.cons_blank {run : List Str} (h : PrunedRun run true false) :
    pruneComments ([] :: run) true false = run := by
  have hd : NoDoubleBlank ([] :: run) := by
    rw [NoDoubleBlank, List.isChain_cons]
    refine ⟨?_, h.noDouble⟩
    intro b hb hab
    exact h.leading rfl (hab.2 ▸ hb)
  rw [pruneComments_eq, collapse_eq (by simpa using hd)]
  simp [trimRun, h.notBlank]

theorem PrunedRun.concat_blank {run : List Str} (h : PrunedRun run false true) :
    pruneComments (run ++ [[]]) false true = run := by
  have hd : NoDoubleBlank (run ++ [[]]) := by
    rw [NoDoubleBlank, List.isChain_append]
    refine ⟨h.noDouble, List.isChain_singleton [], ?_⟩
    intro a ha b _ hab
    exact h.trailing rfl (hab.1 ▸ ha)
  rw [pruneComments_eq, collapse_eq (by simpa using hd)]
  simp [trimRun, h.notBlank]

end WireGuardWindows.Conf
