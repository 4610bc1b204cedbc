import Mathlib.Algebra.Order.BigOperators.Group.Finset
import Mathlib.Algebra.BigOperators.Group.Finset.Piecewise

/-!
# Threads and the places they stand at

The threads of a process stand at places `π` of their programs. A lock is held by the threads
that stand between its `Lock` and its `Unlock`, so the holders are read off the places, and that
a lock excludes is a fact about pairs of threads (`Apart`).
-/

namespace Systems

variable {τ π : Type*} {P Q : π → Bool} {pc : τ → π}

def OnlyAt (Q : π → Bool) (pc : τ → π) (t : τ) : Prop := ∀ u, u ≠ t → Q (pc u) = false

/-- No thread is at a place of `P` while another is at a place of `Q`. -/
def Apart (P Q : π → Bool) (pc : τ → π) : Prop := ∀ t, P (pc t) = true → OnlyAt Q pc t

theorem OnlyAt.mono {P Q : π → Bool} {t : τ} (h : OnlyAt Q pc t)
    (hPQ : ∀ p, P p = true → Q p = true) : OnlyAt P pc t := by
  intro u hu
  rw [← Bool.not_eq_true]
  intro hP
  have hQ := hPQ _ hP
  rw [h u hu] at hQ
  cases hQ

variable [DecidableEq τ]

theorem Apart.update (h : Apart P Q pc) {t : τ} {p : π}
    (hP : P p = true → P (pc t) = true ∨ OnlyAt Q pc t)
    (hQ : Q p = true → Q (pc t) = true ∨ OnlyAt P pc t) : Apart P Q (Function.update pc t p) := by
  intro a ha b hba
  by_cases hat : a = t
  · subst hat
    rw [Function.update_self] at ha
    rw [Function.update_of_ne hba]
    exact (hP ha).elim (fun ha => h a ha b hba) fun hfree => hfree b hba
  · rw [Function.update_of_ne hat] at ha
    by_cases hbt : b = t
    · subst hbt
      rw [Function.update_self, ← Bool.not_eq_true]
      intro hb
      rcases hQ hb with hb | hfree
      · rw [h a ha b hba] at hb
        cases hb
      · rw [hfree a hat] at ha
        cases ha
    · rw [Function.update_of_ne hbt]
      exact h a ha b hba

theorem forall_update {Φ : π → Prop} {t : τ} {p : π} (hp : Φ p) (hothers : ∀ u, u ≠ t → Φ (pc u)) :
    ∀ u, Φ (Function.update pc t p u) := by
  intro u
  by_cases hut : u = t
  · rw [hut, Function.update_self]
    exact hp
  · rw [Function.update_of_ne hut]
    exact hothers u hut

theorem sum_update_lt [Fintype τ] (weight : π → Nat) {t : τ} {p : π}
    (h : weight p < weight (pc t)) :
    ∑ u, weight (Function.update pc t p u) < ∑ u, weight (pc u) := by
  apply Finset.sum_lt_sum
  · intro u _
    by_cases hut : u = t
    · rw [hut, Function.update_self]
      exact h.le
    · rw [Function.update_of_ne hut]
  · refine ⟨t, Finset.mem_univ t, ?_⟩
    rw [Function.update_self]
    exact h

end Systems
