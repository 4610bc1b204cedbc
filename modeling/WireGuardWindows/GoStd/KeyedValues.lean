import WireGuardWindows.GoStd.Loops

/-!
# Lists of keyed values

Settings that are read in turn, where a later value of a key replaces the earlier ones or is
added to them. What a key contributes is a function of the values of that key alone.
-/

namespace GoStd.KeyedValues
open Loops

variable {K V : Type} [DecidableEq K]

def valuesOf (es : List (K × V)) (k : K) : List V := (es.filter (·.1 = k)).map Prod.snd

theorem valuesOf_concat_self (es : List (K × V)) (k : K) (v : V) :
    valuesOf (es ++ [(k, v)]) k = valuesOf es k ++ [v] := by
  simp [valuesOf]

theorem valuesOf_concat_of_ne (es : List (K × V)) {k k' : K} (h : k' ≠ k) (v : V) :
    valuesOf (es ++ [(k', v)]) k = valuesOf es k := by
  simp [valuesOf, h]

theorem mem_valuesOf {es : List (K × V)} {k : K} {v : V} : v ∈ valuesOf es k ↔ (k, v) ∈ es := by
  simp [valuesOf]

def SameValues (es fs : List (K × V)) : Prop := ∀ k, valuesOf es k = valuesOf fs k

theorem SameValues.symm {es fs : List (K × V)} (h : SameValues es fs) : SameValues fs es :=
  fun k => (h k).symm

theorem SameValues.mem {es fs : List (K × V)} (h : SameValues es fs) {e : K × V} (he : e ∈ es) :
    e ∈ fs := by
  rw [← mem_valuesOf (k := e.1) (v := e.2)] at he ⊢
  rwa [← h]

theorem sameValues_iff {es fs : List (K × V)} :
    SameValues es fs ↔ ∀ e ∈ es ++ fs, valuesOf es e.1 = valuesOf fs e.1 := by
  refine ⟨fun h e _ => h e.1, fun h k => ?_⟩
  by_cases hk : ∃ e ∈ es ++ fs, e.1 = k
  · obtain ⟨e, he, rfl⟩ := hk
    exact h e he
  · have hnone : ∀ gs : List (K × V), (∀ e ∈ gs, e ∈ es ++ fs) → valuesOf gs k = [] := by
      intro gs hgs
      rw [valuesOf, List.map_eq_nil_iff, List.filter_eq_nil_iff]
      intro e he
      simpa using fun heq : e.1 = k => hk ⟨e, hgs e he, heq⟩
    rw [hnone es fun e => List.mem_append_left fs, hnone fs fun e => List.mem_append_right es]

instance [DecidableEq V] (es fs : List (K × V)) : Decidable (SameValues es fs) :=
  decidable_of_iff _ sameValues_iff.symm

theorem forall₂_mem_left {α β : Type} {R : α → β → Prop} {as : List α} {bs : List β}
    (h : List.Forall₂ R as bs) {a : α} (ha : a ∈ as) : ∃ b ∈ bs, R a b := by
  induction h with
  | nil => cases ha
  | @cons a' b as bs hab _ ih =>
    rcases List.mem_cons.mp ha with rfl | ha
    · exact ⟨b, List.mem_cons_self, hab⟩
    · obtain ⟨b', hb', hab'⟩ := ih ha
      exact ⟨b', List.mem_cons_of_mem b hb', hab'⟩

theorem forall₂_mem_right {α β : Type} {R : α → β → Prop} {as : List α} {bs : List β}
    (h : List.Forall₂ R as bs) {b : β} (hb : b ∈ bs) : ∃ a ∈ as, R a b :=
  forall₂_mem_left h.flip hb

section
variable {ε α : Type}

def lastValue (read : V → Except ε α) (default : α) (vs : List V) : Except ε α :=
  match vs.getLast? with
  | none => .ok default
  | some v => read v

theorem lastValue_concat (read : V → Except ε α) (default : α) (vs : List V) (v : V) :
    lastValue read default (vs ++ [v]) = read v := by
  rw [lastValue, List.getLast?_concat]

def allValues (read : V → Except ε (List α)) (vs : List V) : Except ε (List α) :=
  (vs.mapM read).map List.flatten

theorem allValues_concat {read : V → Except ε (List α)} {vs : List V} {as bs : List α} {v : V}
    (has : allValues read vs = .ok as) (hbs : read v = .ok bs) :
    allValues read (vs ++ [v]) = .ok (as ++ bs) := by
  rw [allValues] at has ⊢
  cases hvs : vs.mapM read with
  | error e =>
    rw [hvs] at has
    cases has
  | ok parts =>
    rw [hvs] at has
    cases has
    rw [List.mapM_append, hvs, List.mapM_cons, hbs]
    simp [Except.map, bind, Except.bind, pure, Except.pure]

end

end GoStd.KeyedValues
