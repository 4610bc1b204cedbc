import Mathlib.Algebra.Order.BigOperators.Group.Finset
import WireGuardWindows.Systems.Runs

/-!
# Termination of parties that give each other work

Each party has a measure of the work that it has left. A move of one party may give work to the
others; if it lowers its own measure by more than what it gives away, the sum of the measures
bounds the number of moves.
-/

namespace Systems

/-- Party `k` moves: every party `j` is given at most `charge j`, and `k` pays for all of it. -/
theorem sum_lt_sum_of_charge {ι : Type*} [Fintype ι] [DecidableEq ι] {before after charge : ι → Nat}
    (k : ι) (hother : ∀ j, j ≠ k → after j ≤ before j + charge j)
    (hself : after k + ∑ j, charge j < before k + charge k) : ∑ j, after j < ∑ j, before j := by
  have hrest : ∑ j ∈ Finset.univ.erase k, after j ≤
      ∑ j ∈ Finset.univ.erase k, before j + ∑ j ∈ Finset.univ.erase k, charge j := by
    rw [← Finset.sum_add_distrib]
    exact Finset.sum_le_sum fun j hj => hother j (Finset.ne_of_mem_erase hj)
  have hafter := Finset.add_sum_erase Finset.univ after (Finset.mem_univ k)
  have hbefore := Finset.add_sum_erase Finset.univ before (Finset.mem_univ k)
  have hcharge := Finset.add_sum_erase Finset.univ charge (Finset.mem_univ k)
  omega

end Systems
