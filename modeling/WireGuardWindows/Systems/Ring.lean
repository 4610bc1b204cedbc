import Mathlib.Data.List.Basic
import Mathlib.Data.Nat.ModEq
import Mathlib.Logic.Function.Basic

/-!
# A ring of slots that is written round and round

A writer fills one slot after the other from some start on and begins again at the first
slot after the last, so a slot holds the last value that was written to it. What a reader
finds is stated through the history of all values written: the most recent ones are at
their places (`Holds.recent`), and a slot that no value has reached is still blank.
-/

namespace Systems.Ring
variable {α : Type*} {size start : Nat} {blank : α} {history : List α} {slots : Nat → α}

theorem slot_ne {k n : Nat} (hk : k < n) (hn : n < k + size) :
    (start + k) % size ≠ (start + n) % size := by
  intro heq
  have hdvd : size ∣ start + n - (start + k) := (Nat.modEq_iff_dvd' (by omega)).mp heq
  have hle : size ≤ start + n - (start + k) := Nat.le_of_dvd (by omega) hdvd
  omega

/-- The slots after `history` was written, from the slot of `start` on. -/
structure Holds (size start : Nat) (blank : α) (history : List α) (slots : Nat → α) : Prop where
  recent : ∀ k (hk : k < history.length), history.length ≤ k + size →
    slots ((start + k) % size) = history[k]
  unused : ∀ k, history.length ≤ k → k < size → slots ((start + k) % size) = blank

theorem holds_nil (size start : Nat) (blank : α) : Holds size start blank [] fun _ => blank where
  recent k hk := absurd hk (Nat.not_lt_zero k)
  unused _ _ _ := rfl

theorem Holds.write (h : Holds size start blank history slots) (x : α) :
    Holds size start blank (history ++ [x])
      (Function.update slots ((start + history.length) % size) x) := by
  constructor
  case recent =>
    intro k hk hround
    rw [List.length_append, List.length_singleton] at hk hround
    rcases Nat.lt_succ_iff_lt_or_eq.mp hk with hlt | rfl
    · rw [Function.update_of_ne (slot_ne hlt (by omega)), List.getElem_append_left hlt]
      exact h.recent k hlt (by omega)
    · rw [Function.update_self, List.getElem_append_right (Nat.le_refl _)]
      simp
  case unused =>
    intro k hk hsize
    rw [List.length_append, List.length_singleton] at hk
    have hne : (start + k) % size ≠ (start + history.length) % size :=
      (slot_ne (by omega) (by omega)).symm
    rw [Function.update_of_ne hne]
    exact h.unused k (by omega) hsize

def Reads (size : Nat) (slots : Nat → α) : Nat → List α → Prop
  | _, [] => True
  | n, x :: xs => slots (n % size) = x ∧ Reads size slots (n + 1) xs

theorem reads_of_getElem {n : Nat} {xs : List α}
    (h : ∀ k (hk : k < xs.length), slots ((n + k) % size) = xs[k]) : Reads size slots n xs := by
  induction xs generalizing n with
  | nil => trivial
  | cons x xs ih =>
    refine ⟨h 0 (Nat.zero_lt_succ _), ih ?_⟩
    intro k hk
    rw [Nat.add_assoc, Nat.add_comm 1 k]
    exact h (k + 1) (Nat.succ_lt_succ hk)

theorem Reads.map_range {n : Nat} {xs : List α} (h : Reads size slots n xs) :
    (List.range xs.length).map (fun l => slots ((n + l) % size)) = xs := by
  induction xs generalizing n with
  | nil => rfl
  | cons x xs ih =>
    rw [List.length_cons, List.range_succ_eq_map, List.map_cons, List.map_map, Nat.add_zero, h.1]
    congr 1
    refine Eq.trans ?_ (ih h.2)
    apply List.map_congr_left
    intro l _
    simp only [Function.comp_apply, Nat.succ_eq_add_one]
    rw [Nat.add_assoc, Nat.add_comm 1 l]

theorem Holds.reads_from (h : Holds size start blank history slots) {k : Nat}
    (hk : history.length ≤ k + size) : Reads size slots (start + k) (history.drop k) := by
  apply reads_of_getElem
  intro l hl
  rw [List.length_drop] at hl
  rw [Nat.add_assoc, List.getElem_drop]
  exact h.recent (k + l) (by omega) (by omega)

theorem Holds.reads_blank (h : Holds size start blank history slots) :
    Reads size slots (start + history.length) (List.replicate (size - history.length) blank) := by
  apply reads_of_getElem
  intro l hl
  rw [List.length_replicate] at hl
  rw [Nat.add_assoc, List.getElem_replicate]
  exact h.unused _ (by omega) (by omega)

theorem Reads.add_size {n : Nat} {xs : List α} (h : Reads size slots n xs) :
    Reads size slots (n + size) xs := by
  induction xs generalizing n with
  | nil => trivial
  | cons x xs ih =>
    refine ⟨by rw [Nat.add_mod_right]; exact h.1, ?_⟩
    rw [Nat.add_right_comm]
    exact ih h.2

theorem Reads.append {n : Nat} {xs ys : List α} (hx : Reads size slots n xs)
    (hy : Reads size slots (n + xs.length) ys) : Reads size slots n (xs ++ ys) := by
  induction xs generalizing n with
  | nil => exact hy
  | cons x xs ih =>
    refine ⟨hx.1, ih hx.2 ?_⟩
    rw [List.length_cons] at hy
    rwa [Nat.add_assoc, Nat.add_comm 1]

/-- A whole round from the place of the writer: first the blank slots, then the values, the
oldest first. -/
theorem Holds.reads_round (h : Holds size start blank history slots) :
    Reads size slots (start + history.length)
      (List.replicate (size - history.length) blank ++ history.drop (history.length - size)) := by
  refine h.reads_blank.append ?_
  rw [List.length_replicate]
  have hplace : start + history.length + (size - history.length) =
      start + (history.length - size) + size := by omega
  rw [hplace]
  exact (h.reads_from (by omega)).add_size

end Systems.Ring
