import Mathlib.Data.List.Basic
import Mathlib.Data.List.TakeDrop

/-!
# Compaction in place

A loop ranges over a slice and moves the elements it keeps to the front of the same array.
The element that is read at index `k` is the original one, since at most `k` elements have
been written before it, all of them below `k`.
-/

namespace GoStd.Compact
variable {α κ : Type*} [DecidableEq κ]

structure State (α κ : Type*) where
  array : List α
  seen : List κ := []
  kept : Nat := 0

def step (key : α → κ) (st : State α κ) (k : Nat) : State α κ :=
  match st.array[k]? with
  | none => st
  | some a =>
    if key a ∈ st.seen then st
    else { array := st.array.set st.kept a, seen := key a :: st.seen, kept := st.kept + 1 }

def compact (key : α → κ) (xs : List α) : List α :=
  let st := (List.range xs.length).foldl (step key) { array := xs }
  st.array.take st.kept

/-- After `done` have been read, with `rest` still to be read. -/
structure Inv (key : α → κ) (done rest : List α) (st : State α κ) : Prop where
  unread : st.array.drop done.length = rest
  room : st.kept ≤ done.length
  length : st.array.length = done.length + rest.length
  seen : ∀ k, k ∈ st.seen ↔ ∃ a ∈ done, key a = k
  kept : ∀ b, b ∈ st.array.take st.kept → b ∈ done
  covered : ∀ a ∈ done, ∃ b ∈ st.array.take st.kept, key b = key a

theorem inv_step {key : α → κ} {done rest : List α} {a : α} {st : State α κ}
    (h : Inv key done (a :: rest) st) :
    Inv key (done ++ [a]) rest (step key st done.length) := by
  have hread : st.array[done.length]? = some a := by
    rw [← List.head?_drop, h.unread]
    rfl
  have hrest : st.array.drop (done.length + 1) = rest := by
    rw [← List.tail_drop, h.unread]
    rfl
  have hlength : st.array.length = (done ++ [a]).length + rest.length := by
    rw [h.length, List.length_append, List.length_cons, List.length_singleton]
    omega
  rw [step, hread]
  dsimp only
  by_cases hseen : key a ∈ st.seen
  · rw [if_pos hseen]
    obtain ⟨a', ha', hkey⟩ := (h.seen (key a)).mp hseen
    refine ⟨by simpa using hrest, Nat.le_trans h.room (by simp), hlength, fun k => ?_,
      fun b hb => ?_, fun x hx => ?_⟩
    · rw [h.seen]
      constructor
      · rintro ⟨x, hx, rfl⟩
        exact ⟨x, List.mem_append_left _ hx, rfl⟩
      · rintro ⟨x, hx, rfl⟩
        rcases List.mem_append.mp hx with hx | hx
        · exact ⟨x, hx, rfl⟩
        · rw [List.mem_singleton.mp hx]
          exact ⟨a', ha', hkey⟩
    · exact List.mem_append_left _ (h.kept b hb)
    · rcases List.mem_append.mp hx with hx | hx
      · exact h.covered x hx
      · rw [List.mem_singleton.mp hx, ← hkey]
        exact h.covered a' ha'
  · rw [if_neg hseen]
    have hlt : st.kept < st.array.length := by
      rw [h.length, List.length_cons]
      have := h.room
      omega
    have hfront : (st.array.set st.kept a).take (st.kept + 1) = st.array.take st.kept ++ [a] := by
      rw [List.take_add_one, List.take_set_of_le (Nat.le_refl _)]
      simp [hlt]
    refine ⟨?_, ?_, ?_, fun k => ?_, fun b hb => ?_, fun x hx => ?_⟩
    · dsimp only
      rw [List.length_append, List.length_singleton, List.drop_set_of_lt (by have := h.room; omega)]
      exact hrest
    · rw [List.length_append, List.length_singleton]
      exact Nat.succ_le_succ h.room
    · rw [List.length_set]
      exact hlength
    · rw [List.mem_cons, h.seen]
      constructor
      · rintro (rfl | ⟨x, hx, rfl⟩)
        · exact ⟨a, by simp, rfl⟩
        · exact ⟨x, List.mem_append_left _ hx, rfl⟩
      · rintro ⟨x, hx, rfl⟩
        rcases List.mem_append.mp hx with hx | hx
        · exact .inr ⟨x, hx, rfl⟩
        · rw [List.mem_singleton.mp hx]
          exact .inl rfl
    · rw [hfront] at hb
      rcases List.mem_append.mp hb with hb | hb
      · exact List.mem_append_left _ (h.kept b hb)
      · exact List.mem_append_right _ hb
    · rw [hfront]
      rcases List.mem_append.mp hx with hx | hx
      · obtain ⟨b, hb, hkey⟩ := h.covered x hx
        exact ⟨b, List.mem_append_left _ hb, hkey⟩
      · exact ⟨a, by simp, by rw [List.mem_singleton.mp hx]⟩

theorem inv_run {key : α → κ} (xs done rest : List α) (heq : xs = done ++ rest) {st : State α κ}
    (h : Inv key done rest st) :
    Inv key xs [] (((List.range' done.length rest.length).foldl (step key) st)) := by
  induction rest generalizing done st with
  | nil =>
    rw [List.append_nil] at heq
    exact heq ▸ h
  | cons a rest ih =>
    rw [List.length_cons, List.range'_succ, List.foldl_cons]
    have hnext :=
      ih (done ++ [a]) (by rw [heq, List.append_assoc, List.singleton_append]) (inv_step h)
    rwa [List.length_append, List.length_singleton] at hnext

theorem inv_compact (key : α → κ) (xs : List α) :
    Inv key xs [] ((List.range xs.length).foldl (step key) { array := xs }) := by
  rw [List.range_eq_range']
  exact inv_run xs [] xs rfl ⟨rfl, Nat.le_refl 0, by simp, by simp, by simp, by simp⟩

theorem mem_of_mem_compact {key : α → κ} {xs : List α} {a : α} (h : a ∈ compact key xs) : a ∈ xs :=
  (inv_compact key xs).kept a h

theorem exists_mem_compact (key : α → κ) {xs : List α} {a : α} (h : a ∈ xs) :
    ∃ b ∈ compact key xs, key b = key a :=
  (inv_compact key xs).covered a h

end GoStd.Compact
