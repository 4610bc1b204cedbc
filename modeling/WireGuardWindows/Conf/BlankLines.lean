import WireGuardWindows.Conf.RoundTrip

/-!
# Blank lines of the written text

Every run of comments is followed by a line that is not blank, except for the last one. So
blank lines can only meet within a run, where `pruneComments` has collapsed them, and at the
blank line before a peer, whose header does not begin with one.
-/

namespace WireGuardWindows.Conf
open GoStd Strings

variable {urlParse : Str → Option URL}

structure Settled (ls : List Str) : Prop where
  noDouble : NoDoubleBlank ls
  last : ls.getLast? ≠ some []

namespace Settled
variable {a b : List Str}

theorem nil : Settled [] := ⟨List.isChain_nil, nofun⟩

theorem append_run (ha : Settled a) (hb : NoDoubleBlank b) : NoDoubleBlank (a ++ b) := by
  rw [NoDoubleBlank, List.isChain_append]
  refine ⟨ha.noDouble, hb, ?_⟩
  intro x hx y hy hblank
  apply ha.last
  rw [← hblank.1]
  exact hx

theorem append (ha : Settled a) (hb : Settled b) : Settled (a ++ b) where
  noDouble := ha.append_run hb.noDouble
  last := by
    rw [List.getLast?_append]
    cases hlast : b.getLast? with
    | none => exact ha.last
    | some line =>
      rw [Option.some_or, ← hlast]
      exact hb.last

theorem flatMap {α : Type} {f : α → List Str} {xs : List α} (h : ∀ x ∈ xs, Settled (f x)) :
    Settled (xs.flatMap f) := by
  induction xs with
  | nil => exact nil
  | cons x xs ih =>
    rw [List.flatMap_cons]
    apply (h x List.mem_cons_self).append
    exact ih fun y hy => h y (List.mem_cons_of_mem x hy)

theorem cons_blank (ha : Settled a) (hne : a ≠ []) (hhead : a.head? ≠ some []) :
    Settled ([] :: a) where
  noDouble := by
    rw [NoDoubleBlank, List.isChain_cons]
    refine ⟨?_, ha.noDouble⟩
    intro y hy hblank
    apply hhead
    rw [← hblank.2]
    exact hy
  last := by
    rw [List.getLast?_cons_of_ne_nil hne]
    exact ha.last

end Settled

theorem writeLine_settled {c : Comments} {line : Str} (h : NoDoubleBlank c.before)
    (hline : line ≠ []) :
    Settled (writeLine c line) := by
  have hne : line ++ suffixText c.suffix ≠ [] := List.append_ne_nil_of_left_ne_nil hline _
  constructor
  · rw [writeLine, NoDoubleBlank, List.isChain_append]
    refine ⟨h, List.isChain_singleton _, ?_⟩
    intro x _ y hy hblank
    apply hne
    rw [← hblank.2]
    exact Option.some.inj hy
  · rw [writeLine, List.getLast?_concat]
    exact fun heq => hne (Option.some.inj heq)

theorem writeLine_head {c : Comments} {line : Str} (h : c.before.head? ≠ some [])
    (hline : line ≠ []) (rest : List Str) :
    (writeLine c line ++ rest).head? ≠ some [] := by
  rw [writeLine]
  cases hbefore : c.before with
  | nil =>
    intro heq
    exact List.append_ne_nil_of_left_ne_nil hline _ (Option.some.inj heq)
  | cons b before =>
    rw [hbefore] at h
    exact h

theorem writeField_settled {c : Comments} (h : NoDoubleBlank c.before) {name : Str}
    (hname : name ≠ []) (field : Option (Bool × Str)) : Settled (writeField c name field) := by
  cases field with
  | none => exact .nil
  | some field =>
    rw [writeField]
    split_ifs
    · exact .nil
    · apply writeLine_settled h
      rw [List.append_assoc]
      exact List.append_ne_nil_of_left_ne_nil hname _

theorem Interface.lines_settled {i : Interface} (h : i.comments.Pruned) : Settled i.lines := by
  apply (writeLine_settled h.1.noDouble (by decide)).append
  apply Settled.flatMap
  intro k _
  exact writeField_settled (h.2 k).noDouble k.keyName.nonempty _

theorem Peer.lines_settled {p : Peer} (h : p.comments.Pruned) : Settled p.lines := by
  rw [Peer.lines, List.append_assoc]
  apply Settled.cons_blank
  · apply (writeLine_settled h.1.noDouble (by decide)).append
    apply Settled.flatMap
    intro k _
    exact writeField_settled (h.2 k).noDouble k.keyName.nonempty _
  · simp [writeLine]
  · exact writeLine_head (h.1.leading rfl) (by decide) _

theorem Config.Canonical.lines_noDouble {c : Config} (h : c.Canonical urlParse) :
    NoDoubleBlank c.lines := by
  refine Settled.append_run ?_ h.trailingPruned.noDouble
  apply (Interface.lines_settled h.interfacePruned).append
  apply Settled.flatMap
  intro p hp
  exact Peer.lines_settled (h.peers p hp).2.1

theorem Config.Canonical.lines_head {c : Config} (h : c.Canonical urlParse) :
    c.lines.head? ≠ some [] := by
  rw [Config.lines, Interface.lines, List.append_assoc, List.append_assoc]
  exact writeLine_head (h.interfacePruned.1.leading rfl) (by decide) _

theorem splitOn_newline_cons (rest : Str) :
    (newline :: rest).splitOn newline = [] :: rest.splitOn newline :=
  List.splitOn_append_cons_self_of_not_mem (a := newline) List.not_mem_nil rest

theorem head_of_splitOn {s : Str} {ls : List Str} (h : s.splitOn newline = ls ++ [[]])
    (hs : [newline] <+: s) :
    ls.head? = some [] := by
  obtain ⟨rest, rfl⟩ := hs
  rw [List.singleton_append, splitOn_newline_cons] at h
  cases ls with
  | nil => exact absurd (List.cons.inj h).2 (List.splitOn_ne_nil newline rest)
  | cons l ls => rw [← (List.cons.inj h).1, List.head?_cons]

theorem infix_of_splitOn {s : Str} {ls : List Str} (h : s.splitOn newline = ls ++ [[]])
    (hs : [newline, newline, newline] <:+: s) : [[], []] <:+: ls := by
  obtain ⟨before, after, rfl⟩ := hs
  rw [List.append_assoc, List.cons_append, List.splitOn_append_cons_self, List.cons_append,
    List.singleton_append, splitOn_newline_cons, splitOn_newline_cons] at h
  rcases List.eq_nil_or_concat (after.splitOn newline) with hnil | ⟨pieces, last, hpieces⟩
  · exact absurd hnil (List.splitOn_ne_nil newline after)
  · rw [hpieces, List.concat_eq_append] at h
    have hls : (before.splitOn newline ++ [[], []] ++ pieces) ++ [last] = ls ++ [[]] := by
      simpa using h
    exact ⟨before.splitOn newline, pieces, (List.append_inj' hls rfl).1⟩

/-- The text of an accepted configuration does not begin with an empty line and has no two of
them in a row. -/
theorem toWgQuick_blankLines {s name : Str} {c : Config} (h : fromWgQuick urlParse s name = .ok c) :
    ¬ [newline] <+: c.toWgQuick ∧ ¬ [newline, newline, newline] <:+: c.toWgQuick := by
  obtain ⟨hcanonical, -⟩ := fromWgQuick_canonical h
  have hsplit := hcanonical.splitOn_toWgQuick
  constructor
  · intro hfirst
    exact hcanonical.lines_head (head_of_splitOn hsplit hfirst)
  · intro htwo
    have hchain := hcanonical.lines_noDouble.infix (infix_of_splitOn hsplit htwo)
    exact (List.isChain_cons_cons.mp hchain).1 ⟨rfl, rfl⟩

theorem toWgQuick_blankLines_sampleText :
    ∃ c, fromWgQuick (fun _ => none) sampleText (str "wg0") = .ok c ∧
      ¬ [newline] <+: c.toWgQuick ∧ ¬ [newline, newline, newline] <:+: c.toWgQuick := by
  obtain ⟨c, hc⟩ := sampleText_parses
  exact ⟨c, hc, toWgQuick_blankLines hc⟩

end WireGuardWindows.Conf
