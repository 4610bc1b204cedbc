import Mathlib.Data.List.Lex
import Mathlib.Data.List.SplitBy
import Mathlib.Data.Sum.Order
import WireGuardWindows.Conf.Name
import WireGuardWindows.GoStd.Loops
import WireGuardWindows.GoStd.Sort

/-!
# The natural order of names

Tokens are compared by a key: numbers by their value, before all texts, and texts byte by
byte. Names are compared as the lists of these keys are, in lexicographic order, so the
comparison is a strict weak order whose classes are the names with the same tokens.
-/

namespace WireGuardWindows.Conf
open GoStd Strings Strconv Unicode

abbrev TokenKey := Lex (Int ⊕ List Nat)

def NaturalSortToken.key (t : NaturalSortToken) : TokenKey :=
  if t.maybeString = [] then Sum.inlₗ t.maybeNumber else Sum.inrₗ (t.maybeString.map UInt8.toNat)

theorem NaturalSortToken.key_number {t : NaturalSortToken} (h : t.maybeString = []) :
    t.key = Sum.inlₗ t.maybeNumber :=
  if_pos h

theorem NaturalSortToken.key_text {t : NaturalSortToken} (h : t.maybeString ≠ []) :
    t.key = Sum.inrₗ (t.maybeString.map UInt8.toNat) := if_neg h

theorem NaturalSortToken.cmp_eq (t u : NaturalSortToken) : t.cmp u = compare t.key u.key := by
  rw [NaturalSortToken.cmp]
  by_cases ht : t.maybeString = []
  · rw [if_pos ht, key_number ht]
    by_cases hu : u.maybeString = []
    · rw [key_number hu]
      rcases lt_trichotomy t.maybeNumber u.maybeNumber with hlt | heq | hgt
      · rw [if_pos (.inr hlt)]
        exact (compare_lt_iff_lt.mpr (Sum.Lex.inl_lt_inl_iff.mpr hlt)).symm
      · rw [heq, if_neg (by simp [hu]), if_neg (lt_irrefl _)]
        exact (compare_eq_iff_eq.mpr rfl).symm
      · rw [if_neg (by simp [hu, hgt.le]), if_pos hgt]
        exact (compare_gt_iff_gt.mpr (Sum.Lex.inl_lt_inl_iff.mpr hgt)).symm
    · rw [key_text hu, if_pos (.inl hu)]
      exact (compare_lt_iff_lt.mpr (Sum.Lex.inl_lt_inr _ _)).symm
  · rw [if_neg ht, key_text ht]
    by_cases hu : u.maybeString = []
    · rw [key_number hu, if_pos (.inl hu)]
      exact (compare_gt_iff_gt.mpr (Sum.Lex.inl_lt_inr _ _)).symm
    · rw [key_text hu]
      rcases lt_trichotomy (t.maybeString.map UInt8.toNat)
        (u.maybeString.map UInt8.toNat) with hlt | heq | hgt
      · have hless : bytesLess t.maybeString u.maybeString = true := decide_eq_true hlt
        rw [if_neg (by simp [hu, bytesLess, hlt.le]), if_pos hless]
        exact (compare_lt_iff_lt.mpr (Sum.Lex.inr_lt_inr_iff.mpr hlt)).symm
      · rw [if_neg (by simp [hu, bytesLess, heq]), if_neg (by simp [bytesLess, heq]), heq]
        exact (compare_eq_iff_eq.mpr rfl).symm
      · rw [if_pos (.inr (decide_eq_true hgt))]
        exact (compare_gt_iff_gt.mpr (Sum.Lex.inr_lt_inr_iff.mpr hgt)).symm

def NaturalSortToken.Proper (t : NaturalSortToken) : Prop := t.maybeString = [] ∨ t.maybeNumber = 0

theorem NaturalSortToken.key_inj {t u : NaturalSortToken} (ht : t.Proper) (hu : u.Proper)
    (h : t.key = u.key) : t = u := by
  obtain ⟨s₁, n₁⟩ := t
  obtain ⟨s₂, n₂⟩ := u
  have hbytes : Function.Injective (List.map UInt8.toNat) := 
    List.map_injective_iff.mpr fun _ _ => UInt8.toNat_inj.mp
  by_cases h₁ : s₁ = []
  · by_cases h₂ : s₂ = []
    · rw [key_number h₁, key_number h₂] at h
      have hnumber : n₁ = n₂ := Sum.inl.inj (toLex.injective h)
      rw [h₁, h₂, hnumber]
    · rw [key_number h₁, key_text h₂] at h
      cases toLex.injective h
  · by_cases h₂ : s₂ = []
    · rw [key_text h₁, key_number h₂] at h
      cases toLex.injective h
    · rw [key_text h₁, key_text h₂] at h
      have hn₁ : n₁ = 0 := ht.resolve_left h₁
      have hn₂ : n₂ = 0 := hu.resolve_left h₂
      have htext : s₁ = s₂ := hbytes (Sum.inr.inj (toLex.injective h))
      rw [hn₁, hn₂, htext]

theorem newNaturalSortString_proper {size : IntSize} {s : Str} {t : NaturalSortToken}
    (h : t ∈ newNaturalSortString size s) : t.Proper := by
  rw [newNaturalSortString, List.mem_map] at h
  obtain ⟨token, -, rfl⟩ := h
  cases atoi size token with
  | ok n => exact .inl rfl
  | error e => exact .inr rfl

/-- The tokens are the longest runs of digits and of other bytes of the lower-cased name with single
spaces: a run of digits that an `int` holds is its number, any other run is itself. -/
theorem newNaturalSortString_runs (size : IntSize) (s : Str) :
    ∃ runs : List Str, runs.flatten = toLower ([0x20].intercalate (fields s)) ∧
      (∀ r ∈ runs, r ≠ [] ∧ ((∀ b ∈ r, isDigit b = true) ∨ ∀ b ∈ r, isDigit b = false)) ∧
      runs.IsChain (fun r r' => ∀ b ∈ r, ∀ b' ∈ r', isDigit b ≠ isDigit b') ∧
      newNaturalSortString size s = runs.map fun r =>
        if (∀ b ∈ r, isDigit b = true) ∧ decimal r < 2 ^ (size.bits - 1) then
          { maybeNumber := decimal r }
        else { maybeString := r } := by
  let runs := (toLower ([0x20].intercalate (fields s))).splitBy fun a b => isDigit a == isDigit b
  have hkind : ∀ r ∈ runs, ∀ b ∈ r, ∀ b' ∈ r, isDigit b = isDigit b' := by
    intro r hr
    have hchain : r.IsChain fun a b => isDigit a = isDigit b :=
      (List.isChain_of_mem_splitBy hr).imp fun _ _ h => eq_of_beq h
    let same : UInt8 → UInt8 → Prop := fun a b => isDigit a = isDigit b
    have : Trans same same same := ⟨Eq.trans⟩
    have : Std.Symm same := ⟨fun _ _ => Eq.symm⟩
    have hpairs : r.Pairwise same := List.IsChain.pairwise hchain
    have hself : ∀ b ∈ r, same b b := fun _ _ => rfl
    exact fun b hb b' hb' => hpairs.forall_of_forall hself hb hb'
  have hruns : ∀ r ∈ runs, r ≠ [] ∧
      ((∀ b ∈ r, isDigit b = true) ∨ ∀ b ∈ r, isDigit b = false) := by
    intro r hr
    obtain ⟨b, t, rfl⟩ := List.exists_cons_of_ne_nil (List.ne_nil_of_mem_splitBy hr)
    refine ⟨List.cons_ne_nil b t, ?_⟩
    cases hb : isDigit b with
    | true => exact .inl fun c hc => (hkind _ hr c hc b List.mem_cons_self).trans hb
    | false => exact .inr fun c hc => (hkind _ hr c hc b List.mem_cons_self).trans hb
  refine ⟨runs, List.flatten_splitBy _ _, hruns, ?_, ?_⟩
  · refine (List.isChain_getLast_head_splitBy _ _).imp_of_mem_imp ?_
    rintro r r' hr hr' ⟨hne, hne', hdiffer⟩ b hb b' hb'
    rw [hkind r hr b hb _ (List.getLast_mem hne), hkind r' hr' b' hb' _ (List.head_mem hne')]
    exact ne_of_beq_false hdiffer
  · refine List.map_congr_left fun r hr => ?_
    obtain ⟨hne, hdigits | htext⟩ := hruns r hr
    · by_cases hlt : decimal r < 2 ^ (size.bits - 1)
      · rw [(atoi_digits hne hdigits).mpr ⟨rfl, hlt⟩, if_pos ⟨hdigits, hlt⟩]
      · rw [if_neg fun h => hlt h.2]
        cases hread : atoi size r with
        | error e => rfl
        | ok n => exact absurd ((atoi_digits hne hdigits).mp hread).2 hlt
    · obtain ⟨b, t, rfl⟩ := List.exists_cons_of_ne_nil hne
      have hnone {c : UInt8} (hc : c ∈ b :: t) (h : isDigit c = true) : False := by
        cases h.symm.trans (htext c hc)
      rw [if_neg fun h => hnone List.mem_cons_self (h.1 b List.mem_cons_self)]
      cases hread : atoi size (b :: t) with
      | error e => rfl
      | ok n =>
        obtain ⟨_, _, digits, heq, rfl, hne, hdigits, -⟩ := atoi_ok_iff.mp hread
        cases heq
        obtain ⟨c, hc⟩ := List.exists_mem_of_ne_nil _ hne
        refine (hnone ?_ (hdigits c hc)).elim
        split_ifs at hc
        · exact List.mem_cons_of_mem b hc
        · exact hc

theorem tokensLess_iff (na nb : List NaturalSortToken) :
    tokensLess na nb = true ↔ na.map NaturalSortToken.key < nb.map NaturalSortToken.key := by
  induction na generalizing nb with
  | nil => cases nb <;> simp [tokensLess]
  | cons a na ih =>
    cases nb with
    | nil => simp [tokensLess]
    | cons b nb =>
      rw [tokensLess, List.map_cons, List.map_cons, List.cons_lt_cons_iff, ← ih,
        NaturalSortToken.cmp_eq]
      rcases lt_trichotomy a.key b.key with hlt | heq | hgt
      · simp [hlt, compare_lt_iff_lt.mpr hlt]
      · simp [heq]
      · simp [hgt.not_gt, hgt.ne', compare_gt_iff_gt.mpr hgt]

def nameKey (size : IntSize) (s : Str) : List TokenKey :=
  (newNaturalSortString size s).map NaturalSortToken.key

theorem nameKey_eq_iff {size : IntSize} {a b : Str} :
    nameKey size a = nameKey size b ↔ newNaturalSortString size a =
      newNaturalSortString size b := by
  refine ⟨fun h => ?_, fun h => congrArg (List.map NaturalSortToken.key) h⟩
  rw [← List.forall₂_eq_eq_eq]
  exact Loops.forall₂_of_map_eq h fun t ht u hu =>
    NaturalSortToken.key_inj (newNaturalSortString_proper ht) (newNaturalSortString_proper hu)

theorem tunnelNameIsLess_byKey (size : IntSize) :
    Sort.ByKey (tunnelNameIsLess size) (nameKey size) := by
  intro a b
  rw [tunnelNameIsLess]
  by_cases heq : a = b
  · simp [heq]
  · rw [if_neg heq]
    exact tokensLess_iff _ _

/-- Names with the same tokens are the only ones that are not ordered, so sorted lists of the same
names have the same tokens at every position. -/
theorem tunnelNameIsLess_strictWeakOrder (size : IntSize) :
    (∀ a, tunnelNameIsLess size a a = false) ∧
    (∀ a b, tunnelNameIsLess size a b = true → tunnelNameIsLess size b a = false) ∧
    (∀ a b c, tunnelNameIsLess size a b = true → tunnelNameIsLess size b c = true →
      tunnelNameIsLess size a c = true) ∧
    (∀ a b, tunnelNameIsLess size a b = false ∧ tunnelNameIsLess size b a = false ↔
      newNaturalSortString size a = newNaturalSortString size b) ∧
    (∀ a b c, tunnelNameIsLess size a b = false ∧ tunnelNameIsLess size b a = false →
      tunnelNameIsLess size b c = false ∧ tunnelNameIsLess size c b = false →
      tunnelNameIsLess size a c = false ∧ tunnelNameIsLess size c a = false) ∧
    ∀ xs ys : List Str, xs.Perm ys → xs.Pairwise (fun a b => tunnelNameIsLess size b a = false) →
      ys.Pairwise (fun a b => tunnelNameIsLess size b a = false) →
      xs.map (newNaturalSortString size) = ys.map (newNaturalSortString size) := by
  have hkey := tunnelNameIsLess_byKey size
  have hincomparable (a b : Str) :
      tunnelNameIsLess size a b = false ∧ tunnelNameIsLess size b a = false ↔
        nameKey size a = nameKey size b := by
    rw [hkey.le_iff, hkey.le_iff]
    exact ⟨fun h => le_antisymm h.2 h.1, fun h => ⟨h.ge, h.le⟩⟩
  refine ⟨fun a => hkey.le_iff.mpr le_rfl, fun a b h => ?_, fun a b c hab hbc => ?_, fun a b => ?_,
    fun a b c hab hbc => ?_, fun xs ys hperm hx hy => ?_⟩
  · exact hkey.le_iff.mpr ((hkey a b).mp h).le
  · exact (hkey a c).mpr (((hkey a b).mp hab).trans ((hkey b c).mp hbc))
  · exact (hincomparable a b).trans nameKey_eq_iff
  · exact (hincomparable a c).mpr (((hincomparable a b).mp hab).trans ((hincomparable b c).mp hbc))
  · have hkeys :=
      Sort.map_key_eq_of_sorted hperm (hx.imp fun h => hkey.le_iff.mp h) (hy.imp fun h =>
        hkey.le_iff.mp h)
    rw [Loops.map_eq_map_iff_forall₂]
    exact Loops.forall₂_of_map_eq hkeys fun _ _ _ _ => nameKey_eq_iff.mp

end WireGuardWindows.Conf
