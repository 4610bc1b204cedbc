import Mathlib.Data.List.Basic
import Mathlib.Data.Option.Basic

/-!
# Runs of a scheduled system

A concurrent component is a state type together with a partial step function: an action
names the party that moves and the choices made for it, and `none` says that the party
cannot make that move here. A schedule is a list of actions, so a statement about every
schedule is a statement about every interleaving.

A condition on single moves, `C s a`, restricts the schedules to those all of whose moves
meet it in the state they are made in (`Along`).
-/

namespace Systems

variable {σ α : Type*} {step : σ → α → Option σ} {C : σ → α → Prop}

def exec (step : σ → α → Option σ) : σ → List α → Option σ
  | s, [] => some s
  | s, a :: as => (step s a).bind fun t => exec step t as

theorem exec_append (s : σ) (as bs : List α) :
    exec step s (as ++ bs) = (exec step s as).bind fun t => exec step t bs := by
  induction as generalizing s with
  | nil => rfl
  | cons a as ih =>
    rw [List.cons_append, exec, exec, Option.bind_assoc]
    exact congrArg (step s a).bind (funext ih)

/-- Every move of the schedule meets `C` in the state it is made in. -/
def Along (step : σ → α → Option σ) (C : σ → α → Prop) : σ → List α → Prop
  | _, [] => True
  | s, a :: as => C s a ∧ (step s a).elim True fun t => Along step C t as

instance Along.decidable [∀ s a, Decidable (C s a)] :
    (s : σ) → (as : List α) → Decidable (Along step C s as)
  | _, [] => .isTrue trivial
  | s, a :: as =>
    haveI : Decidable ((step s a).elim True fun t => Along step C t as) :=
      match step s a with
      | none => .isTrue trivial
      | some t => Along.decidable t as
    inferInstanceAs (Decidable (_ ∧ _))

theorem along_append {s t : σ} {as bs : List α} (h : Along step C s (as ++ bs))
    (ht : exec step s as = some t) :
    Along step C s as ∧ Along step C t bs := by
  induction as generalizing s with
  | nil =>
    cases ht
    exact ⟨trivial, h⟩
  | cons a as ih =>
    obtain ⟨u, hu, ht⟩ := Option.bind_eq_some_iff.mp ht
    obtain ⟨hc, h⟩ := h
    rw [hu] at h
    obtain ⟨has, hbs⟩ := ih h ht
    refine ⟨⟨hc, ?_⟩, hbs⟩
    rw [hu]
    exact has

/-- Invariant rule for restricted schedules: what every permitted move keeps, every
permitted run keeps. -/
theorem invariant_along {I : σ → Prop}
    (hstep : ∀ s a t, I s → C s a → step s a = some t → I t) {s t : σ} {as : List α}
    (hs : I s) (hC : Along step C s as) (h : exec step s as = some t) : I t := by
  induction as generalizing s with
  | nil =>
    cases h
    exact hs
  | cons a as ih =>
    obtain ⟨u, hu, h⟩ := Option.bind_eq_some_iff.mp h
    obtain ⟨hc, hC⟩ := hC
    rw [hu] at hC
    exact ih (hstep s a u hs hc hu) hC h

theorem along_of_forall {as : List α} (h : ∀ a ∈ as, ∀ s, C s a) (s : σ) : Along step C s as := by
  induction as generalizing s with
  | nil => trivial
  | cons a as ih =>
    refine ⟨h a List.mem_cons_self s, ?_⟩
    cases step s a with
    | none => trivial
    | some t => exact ih (fun b hb => h b (List.mem_cons_of_mem a hb)) t

theorem along_mono {C' : σ → α → Prop} (h : ∀ s a, C s a → C' s a) {s : σ} {as : List α}
    (hC : Along step C s as) :
    Along step C' s as := by
  induction as generalizing s with
  | nil => trivial
  | cons a as ih =>
    obtain ⟨hc, hC⟩ := hC
    refine ⟨h s a hc, ?_⟩
    cases hstep : step s a with
    | none => trivial
    | some t =>
      rw [hstep] at hC
      exact ih hC

theorem along_trivial (s : σ) (as : List α) : Along step (fun _ _ => True) s as :=
  along_of_forall (fun _ _ _ => trivial) s

theorem invariant {I : σ → Prop} (hstep : ∀ s a t, I s → step s a = some t → I t) {s t : σ}
    {as : List α} (hs : I s) (h : exec step s as = some t) : I t :=
  invariant_along (fun s a t hs _ => hstep s a t hs) hs (along_trivial s as) h

/-- Termination rule: a schedule of moves that all lower a measure is no longer than the
measure it starts with. -/
theorem exec_length_le_of_invariant {I : σ → Prop} {μ : σ → Nat} {P : α → Prop}
    (hstep : ∀ s a t, I s → P a → step s a = some t → I t ∧ μ t < μ s) {s t : σ}
    {as : List α} (hs : I s) (hP : ∀ a ∈ as, P a) (h : exec step s as = some t) :
    I t ∧ as.length + μ t ≤ μ s := by
  induction as generalizing s with
  | nil =>
    cases h
    exact ⟨hs, by simp⟩
  | cons a as ih =>
    obtain ⟨u, hu, h⟩ := Option.bind_eq_some_iff.mp h
    obtain ⟨hI, hlt⟩ := hstep s a u hs (hP a List.mem_cons_self) hu
    obtain ⟨ht, hle⟩ := ih hI (fun b hb => hP b (List.mem_cons_of_mem a hb)) h
    refine ⟨ht, ?_⟩
    rw [List.length_cons]
    omega

theorem exec_length_le {μ : σ → Nat} {P : α → Prop}
    (hstep : ∀ s a t, P a → step s a = some t → μ t < μ s) {s t : σ} {as : List α}
    (hP : ∀ a ∈ as, P a) (h : exec step s as = some t) : as.length + μ t ≤ μ s :=
  (exec_length_le_of_invariant (I := fun _ => True)
    (fun s a t _ ha h => ⟨trivial, hstep s a t ha h⟩) trivial hP h).2

end Systems
