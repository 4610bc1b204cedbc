import Mathlib.Logic.Basic

/-!
# Programs that fail half way

A program that changes a state and may fail keeps the state it fails in. `Ends P x Q E` says
what is true after `x` in both cases; the rules follow the way a program is put together.
-/

namespace Systems

variable {σ ε α β : Type}

/-- From a state in `P` the program ends in a result in `Q` or in an error in `E`. -/
def Ends (P : σ → Prop) (x : EStateM ε σ α) (Q : α → σ → Prop) (E : ε → σ → Prop) : Prop :=
  ∀ s, P s → match x s with
    | .ok a t => Q a t
    | .error e t => E e t

def onError (x : EStateM ε σ α) (cleanup : EStateM ε σ Unit) : EStateM ε σ α := fun s =>
  match x s with
  | .ok a t => .ok a t
  | .error e t =>
    match cleanup t with
    | .ok _ u => .error e u
    | .error _ u => .error e u

/-- The result of `x`, or its error as a value; what was changed before the error stays. -/
def attempt (x : EStateM ε σ α) : EStateM ε σ (Except ε α) := fun s =>
  match x s with
  | .ok a t => .ok (.ok a) t
  | .error e t => .ok (.error e) t

namespace Ends

variable {P P' : σ → Prop} {Q Q' : α → σ → Prop} {R : β → σ → Prop} {E E' : ε → σ → Prop}

theorem ok {x : EStateM ε σ α} (h : Ends P x Q E) {s t : σ} {a : α} (hs : P s)
    (hx : x s = .ok a t) : Q a t := by
  have hend := h s hs
  rwa [hx] at hend

theorem error {x : EStateM ε σ α} (h : Ends P x Q E) {s t : σ} {e : ε} (hs : P s)
    (hx : x s = .error e t) :
    E e t := by
  have hend := h s hs
  rwa [hx] at hend

theorem intro {x : EStateM ε σ α} (hok : ∀ s a t, P s → x s = .ok a t → Q a t)
    (herror : ∀ s e t, P s → x s = .error e t → E e t) : Ends P x Q E := by
  intro s hs
  cases hx : x s with
  | ok a t => exact hok s a t hs hx
  | error e t => exact herror s e t hs hx

theorem pure {a : α} (h : ∀ s, P s → Q a s) : Ends P (Pure.pure a : EStateM ε σ α) Q E := h

theorem throw {e : ε} (h : ∀ s, P s → E e s) : Ends P (MonadExcept.throw e : EStateM ε σ α) Q E := h

theorem bind {x : EStateM ε σ α} {f : α → EStateM ε σ β} (hx : Ends P x Q E)
    (hf : ∀ a, Ends (Q a) (f a) R E) : Ends P (x >>= f) R E := by
  intro s hs
  have hxs := hx s hs
  change match EStateM.bind x f s with
    | .ok a t => R a t
    | .error e t => E e t
  rw [EStateM.bind]
  cases hres : x s with
  | ok a t =>
    rw [hres] at hxs
    exact hf a t hxs
  | error e t =>
    rw [hres] at hxs
    exact hxs

theorem get : Ends P (MonadState.get : EStateM ε σ σ) (fun s t => s = t ∧ P t) E :=
  fun _ hs => ⟨rfl, hs⟩

theorem modify {f : σ → σ} {R : σ → Prop} (h : ∀ s, P s → R (f s)) :
    Ends P (modify f : EStateM ε σ PUnit) (fun _ => R) E := h

theorem mono {x : EStateM ε σ α} (h : Ends P x Q E) (hP : ∀ s, P' s → P s)
    (hQ : ∀ a s, Q a s → Q' a s) (hE : ∀ e s, E e s → E' e s) : Ends P' x Q' E' :=
  intro (fun s a t hs hx => hQ a t (h.ok (hP s hs) hx)) (fun s e t hs hx =>
    hE e t (h.error (hP s hs) hx))

theorem and_left {p : Prop} {x : EStateM ε σ α} (h : p → Ends P x Q E) :
    Ends (fun s => p ∧ P s) x Q E :=
  fun s hs => h hs.1 s hs.2

theorem exists_left {γ : Sort*} {P : γ → σ → Prop} {x : EStateM ε σ α} (h : ∀ c, Ends (P c) x Q E) :
    Ends (fun s => ∃ c, P c s) x Q E := by
  rintro s ⟨c, hs⟩
  exact h c s hs

theorem ite {c : Prop} [Decidable c] {x y : EStateM ε σ α} (hx : c → Ends P x Q E)
    (hy : ¬ c → Ends P y Q E) :
    Ends P (if c then x else y) Q E := by
  by_cases h : c
  · rw [if_pos h]
    exact hx h
  · rw [if_neg h]
    exact hy h

theorem forM {l : List α} {f : α → EStateM ε σ PUnit} (h : ∀ a ∈ l, Ends P (f a) (fun _ => P) E) :
    Ends P (l.forM f) (fun _ => P) E := by
  induction l with
  | nil => exact .pure fun s hs => hs
  | cons a l ih =>
    exact (h a List.mem_cons_self).bind fun _ => ih fun b hb => h b (List.mem_cons_of_mem a hb)

/-- The loop rule: `I done` holds when the elements of `done` have been treated. -/
theorem forM_done {l : List α} {f : α → EStateM ε σ PUnit} {I : List α → σ → Prop}
    (h : ∀ done a rest, l = done ++ a :: rest → Ends (I done) (f a) (fun _ => I (done ++ [a])) E) :
    Ends (I []) (l.forM f) (fun _ => I l) E := by
  have hloop (rest done : List α) (heq : l = done ++ rest) : Ends (I done) (rest.forM f)
      (fun _ => I l) E := by
    induction rest generalizing done with
    | nil =>
      rw [heq, List.append_nil]
      exact .pure fun s hs => hs
    | cons a rest ih =>
      exact (h done a rest heq).bind fun _ =>
        ih (done ++ [a]) (by rw [heq, List.append_assoc, List.singleton_append])
  exact hloop l [] rfl

theorem foldlM {l : List α} {f : β → α → EStateM ε σ β}
    (h : ∀ a ∈ l, ∀ b, Ends P (f b a) (fun _ => P) E) (b : β) :
    Ends P (l.foldlM f b) (fun _ => P) E := by
  induction l generalizing b with
  | nil => exact .pure fun s hs => hs
  | cons a l ih =>
    rw [List.foldlM_cons]
    exact (h a List.mem_cons_self b).bind fun b' =>
      ih (fun c hc => h c (List.mem_cons_of_mem a hc)) b'

theorem attempt {x : EStateM ε σ α} (h : Ends P x Q E) {R : Except ε α → σ → Prop}
    (hok : ∀ a s, Q a s → R (.ok a) s) (herror : ∀ e s, E e s → R (.error e) s) :
    Ends P (Systems.attempt x) R E' := by
  intro s hs
  rw [Systems.attempt]
  cases hx : x s with
  | ok a t => exact hok a t (h.ok hs hx)
  | error e t => exact herror e t (h.error hs hx)

theorem onError {x : EStateM ε σ α} {cleanup : EStateM ε σ Unit} {F : ε → σ → Prop}
    (hx : Ends P x Q F) (hcleanup : ∀ e, Ends (F e) cleanup (fun _ => E e) (fun _ => E e)) :
    Ends P (onError x cleanup) Q E := by
  intro s hs
  have hxs := hx s hs
  rw [Systems.onError]
  cases hres : x s with
  | ok a t =>
    rw [hres] at hxs
    exact hxs
  | error e t =>
    rw [hres] at hxs
    have hend := hcleanup e t hxs
    dsimp only
    cases hclean : cleanup t with
    | ok u w =>
      rw [hclean] at hend
      exact hend
    | error e' w =>
      rw [hclean] at hend
      exact hend

end Ends

end Systems
