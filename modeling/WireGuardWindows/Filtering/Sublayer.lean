import Mathlib.Data.List.Nodup

/-!
# Arbitration in a filtering sublayer

A sublayer holds weighted filters. The matching filter of the highest weight decides.
Inside a filter the conditions on one field are alternatives and different fields must all
be met. Filters that fall into bands of one weight and one action each are read from the
heaviest band down, and then it does not matter which filter of a band is picked.
-/

namespace Filtering

inductive Action
  | permit
  | block
  deriving DecidableEq, Repr

section Conditions
variable {C K : Type*} [DecidableEq K] (field : C → K) (H : C → Prop)

def AllFields (cs : List C) : Prop := ∀ c ∈ cs, ∃ c' ∈ cs, field c' = field c ∧ H c'

instance [DecidablePred H] (cs : List C) : Decidable (AllFields field H cs) :=
  inferInstanceAs (Decidable (∀ c ∈ cs, ∃ c' ∈ cs, field c' = field c ∧ H c'))

variable {field H}

omit [DecidableEq K] in
theorem allFields_append {cs ds : List C} (h : ∀ c ∈ cs, ∀ d ∈ ds, field c ≠ field d) :
    AllFields field H (cs ++ ds) ↔ AllFields field H cs ∧ AllFields field H ds := by
  constructor
  · intro hall
    constructor
    · intro c hc
      obtain ⟨c', hc', hf, hh⟩ := hall c (List.mem_append_left ds hc)
      rcases List.mem_append.mp hc' with hc' | hd
      · exact ⟨c', hc', hf, hh⟩
      · exact absurd hf.symm (h c hc c' hd)
    · intro d hd
      obtain ⟨d', hd', hf, hh⟩ := hall d (List.mem_append_right cs hd)
      rcases List.mem_append.mp hd' with hc | hd'
      · exact absurd hf (h d' hc d hd)
      · exact ⟨d', hd', hf, hh⟩
  · rintro ⟨hcs, hds⟩ c hc
    rcases List.mem_append.mp hc with hc | hd
    · obtain ⟨c', hc', hr⟩ := hcs c hc
      exact ⟨c', List.mem_append_left ds hc', hr⟩
    · obtain ⟨d', hd', hr⟩ := hds c hd
      exact ⟨d', List.mem_append_right cs hd', hr⟩

omit [DecidableEq K] in
theorem allFields_of_same {k : K} {cs : List C} (h : ∀ c ∈ cs, field c = k) (hne : cs ≠ []) :
    AllFields field H cs ↔ ∃ c ∈ cs, H c := by
  constructor
  · intro hall
    obtain ⟨c, hc⟩ := List.exists_mem_of_ne_nil cs hne
    obtain ⟨c', hc', -, hh⟩ := hall c hc
    exact ⟨c', hc', hh⟩
  · rintro ⟨c', hc', hh⟩ c hc
    exact ⟨c', hc', (h c' hc').trans (h c hc).symm, hh⟩

omit [DecidableEq K] in
theorem allFields_of_nodup {cs : List C} (h : (cs.map field).Nodup) :
    AllFields field H cs ↔ ∀ c ∈ cs, H c := by
  constructor
  · intro hall c hc
    obtain ⟨c', hc', hf, hh⟩ := hall c hc
    rwa [← List.inj_on_of_nodup_map h hc' hc hf]
  · intro hall c hc
    exact ⟨c, hc, rfl, hall c hc⟩

end Conditions

section Arbitration
variable {F X : Type*} (weight : F → Nat) (action : F → Action) (M : F → X → Prop)

/-- Some matching filter of the highest weight has the action `a`. -/
def Verdict (fs : List F) (x : X) (a : Action) : Prop :=
  ∃ f ∈ fs, M f x ∧ (∀ g ∈ fs, M g x → weight g ≤ weight f) ∧ action f = a

def Matched (fs : List F) (x : X) : Prop := ∃ f ∈ fs, M f x

instance [∀ f x, Decidable (M f x)] (fs : List F) (x : X) (a : Action) :
    Decidable (Verdict weight action M fs x a) :=
  inferInstanceAs (Decidable (∃ f ∈ fs, M f x ∧ (∀ g ∈ fs, M g x → weight g ≤ weight f) ∧
    action f = a))

variable {weight action M}

theorem verdict_congr {fs gs : List F} (h : ∀ f, f ∈ fs ↔ f ∈ gs) (x : X) (a : Action) :
    Verdict weight action M fs x a ↔ Verdict weight action M gs x a := by
  simp only [Verdict, h]

@[simp]
theorem matched_nil (x : X) : ¬ Matched M [] x := by
  simp [Matched]

@[simp]
theorem matched_cons (f : F) (fs : List F) (x : X) :
    Matched M (f :: fs) x ↔ M f x ∨ Matched M fs x := by
  simp [Matched]

theorem matched_append (fs gs : List F) (x : X) :
    Matched M (fs ++ gs) x ↔ Matched M fs x ∨ Matched M gs x := by
  simp [Matched, or_and_right, exists_or]

theorem verdict_append {fs gs : List F} (h : ∀ f ∈ fs, ∀ g ∈ gs, weight g < weight f) (x : X)
    (a : Action) :
    Verdict weight action M (fs ++ gs) x a ↔
      Verdict weight action M fs x a ∨ ¬ Matched M fs x ∧ Verdict weight action M gs x a := by
  constructor
  · rintro ⟨f, hf, hm, hmax, ha⟩
    rcases List.mem_append.mp hf with hf | hf
    · exact Or.inl ⟨f, hf, hm, fun g hg => hmax g (List.mem_append_left gs hg), ha⟩
    · refine Or.inr ⟨?_, f, hf, hm, fun g hg => hmax g (List.mem_append_right fs hg), ha⟩
      rintro ⟨g, hg, hgm⟩
      exact absurd (hmax g (List.mem_append_left gs hg) hgm) (Nat.not_le.mpr (h g hg f hf))
  · rintro (⟨f, hf, hm, hmax, ha⟩ | ⟨hnone, f, hf, hm, hmax, ha⟩)
    · refine ⟨f, List.mem_append_left gs hf, hm, fun g hg hgm => ?_, ha⟩
      rcases List.mem_append.mp hg with hg | hg
      · exact hmax g hg hgm
      · exact Nat.le_of_lt (h f hf g hg)
    · refine ⟨f, List.mem_append_right fs hf, hm, fun g hg hgm => ?_, ha⟩
      rcases List.mem_append.mp hg with hg | hg
      · exact absurd ⟨g, hg, hgm⟩ hnone
      · exact hmax g hg hgm

structure Band (weight : F → Nat) (action : F → Action) where
  weightOf : Nat
  actionOf : Action
  filters : List F
  uniform : ∀ f ∈ filters, weight f = weightOf ∧ action f = actionOf

theorem Band.verdict (b : Band weight action) (x : X) (a : Action) :
    Verdict weight action M b.filters x a ↔ Matched M b.filters x ∧ b.actionOf = a := by
  constructor
  · rintro ⟨f, hf, hm, -, ha⟩
    exact ⟨⟨f, hf, hm⟩, (b.uniform f hf).2 ▸ ha⟩
  · rintro ⟨⟨f, hf, hm⟩, ha⟩
    refine ⟨f, hf, hm, fun g hg _ => ?_, (b.uniform f hf).2.trans ha⟩
    exact Nat.le_of_eq ((b.uniform g hg).1.trans (b.uniform f hf).1.symm)

/-- The verdict of an ordered rule list: the first band with a match decides. -/
def FirstMatch (M : F → X → Prop) : List (Band weight action) → X → Action → Prop
  | [], _, _ => False
  | b :: bs, x, a => Matched M b.filters x ∧ b.actionOf = a ∨
      ¬ Matched M b.filters x ∧ FirstMatch M bs x a

theorem verdict_bands {bs : List (Band weight action)}
    (h : bs.Pairwise fun b c => c.weightOf < b.weightOf) (x : X) (a : Action) :
    Verdict weight action M (bs.flatMap Band.filters) x a ↔ FirstMatch M bs x a := by
  induction bs with
  | nil => simp [Verdict, FirstMatch]
  | cons b bs ih =>
    obtain ⟨hb, hbs⟩ := List.pairwise_cons.mp h
    have hlt : ∀ f ∈ b.filters, ∀ g ∈ bs.flatMap Band.filters, weight g < weight f := by
      intro f hf g hg
      obtain ⟨c, hc, hg⟩ := List.mem_flatMap.mp hg
      rw [(b.uniform f hf).1, (c.uniform g hg).1]
      exact hb c hc
    rw [List.flatMap_cons, verdict_append hlt, b.verdict, ih hbs, FirstMatch]

end Arbitration

end Filtering
