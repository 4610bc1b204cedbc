import Mathlib.Data.List.Sort

/-!
# The `sort` package

`sort.Slice` is not stable: of its result it is known only that it is a sorted permutation.
Where the comparison is that of a key that tells the elements apart there is only one
(`eq_of_sorted`), so every implementation agrees with the one here.
-/

namespace GoStd.Sort
variable {α κ : Type*} [LinearOrder κ] {less : α → α → Bool} {key : α → κ} {xs ys : List α}

def slice (less : α → α → Bool) (xs : List α) : List α :=
  xs.insertionSort fun a b => less b a = false

def ByKey (less : α → α → Bool) (key : α → κ) : Prop := ∀ a b, less a b = true ↔ key a < key b

theorem slice_perm (less : α → α → Bool) (xs : List α) : (slice less xs).Perm xs :=
  List.perm_insertionSort _ xs

theorem mem_slice {a : α} : a ∈ slice less xs ↔ a ∈ xs := (slice_perm less xs).mem_iff

theorem slice_length (less : α → α → Bool) (xs : List α) : (slice less xs).length = xs.length :=
  (slice_perm less xs).length_eq

theorem ByKey.le_iff (h : ByKey less key) {a b : α} : less b a = false ↔ key a ≤ key b := by
  rw [← Bool.not_eq_true, h, not_lt]

theorem slice_sorted (h : ByKey less key) (xs : List α) :
    (slice less xs).Pairwise fun a b => key a ≤ key b := by
  have htotal : Std.Total fun a b : α => less b a = false :=
    ⟨fun a b => (le_total (key a) (key b)).imp h.le_iff.mpr h.le_iff.mpr⟩
  have htrans : IsTrans α fun a b => less b a = false :=
    ⟨fun a b c hab hbc => h.le_iff.mpr ((h.le_iff.mp hab).trans (h.le_iff.mp hbc))⟩
  have hsorted := List.pairwise_insertionSort (fun a b : α => less b a = false) xs
  exact hsorted.imp fun hab => h.le_iff.mp hab

theorem eq_of_sorted (hkey : ∀ a ∈ xs, ∀ b ∈ ys, key a = key b → a = b) (hperm : xs.Perm ys)
    (hx : xs.Pairwise fun a b => key a ≤ key b) (hy : ys.Pairwise fun a b => key a ≤ key b) :
    xs = ys :=
  hperm.eq_of_pairwise (fun a b ha hb hab hba => hkey a ha b hb (le_antisymm hab hba)) hx hy

theorem map_key_eq_of_sorted (hperm : xs.Perm ys) (hx : xs.Pairwise fun a b => key a ≤ key b)
    (hy : ys.Pairwise fun a b => key a ≤ key b) : xs.map key = ys.map key :=
  (hperm.map key).eq_of_pairwise (fun _ _ _ _ hab hba => le_antisymm hab hba)
    (List.pairwise_map.mpr hx) (List.pairwise_map.mpr hy)

theorem slice_congr (h : ByKey less key) (hkey : ∀ a ∈ xs, ∀ b ∈ xs, key a = key b → a = b)
    (hperm : xs.Perm ys) : slice less xs = slice less ys := by
  have hsorted : (slice less xs).Perm (slice less ys) :=
    ((slice_perm less xs).trans hperm).trans (slice_perm less ys).symm
  refine eq_of_sorted ?_ hsorted (slice_sorted h xs) (slice_sorted h ys)
  intro a ha b hb
  exact hkey a (mem_slice.mp ha) b (hperm.mem_iff.mpr (mem_slice.mp hb))

end GoStd.Sort
