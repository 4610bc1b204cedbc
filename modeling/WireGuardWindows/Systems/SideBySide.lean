import WireGuardWindows.Systems.Effects

/-!
# Two runs side by side

`Agrees S x y R` compares two programs that change a state and may fail: from states related
by `S` they both fail with the same error or both succeed, with results related by `R`, and
the states are related again. The rules are those of `Ends` for two runs.
-/

namespace Systems

variable {σ τ ε α β γ δ : Type}

def Agrees (S : σ → τ → Prop) (x : EStateM ε σ α) (y : EStateM ε τ β) (R : α → β → Prop) : Prop :=
  ∀ s t, S s t → (∃ a s' b t', x s = .ok a s' ∧ y t = .ok b t' ∧ R a b ∧ S s' t') ∨
    ∃ e s' t', x s = .error e s' ∧ y t = .error e t' ∧ S s' t'

namespace Agrees

variable {S : σ → τ → Prop} {R : α → β → Prop} {Q : γ → δ → Prop}

theorem pure {a : α} {b : β} (h : R a b) :
    Agrees S (Pure.pure a : EStateM ε σ α) (Pure.pure b : EStateM ε τ β) R :=
  fun s t hs => .inl ⟨a, s, b, t, rfl, rfl, h, hs⟩

theorem throw (e : ε) :
    Agrees S (MonadExcept.throw e : EStateM ε σ α) (MonadExcept.throw e : EStateM ε τ β) R :=
  fun s t hs => .inr ⟨e, s, t, rfl, rfl, hs⟩

theorem bind {x : EStateM ε σ α} {y : EStateM ε τ β} {f : α → EStateM ε σ γ} {g : β → EStateM ε τ δ}
    (h : Agrees S x y R) (hfg : ∀ a b, R a b → Agrees S (f a) (g b) Q) :
    Agrees S (x >>= f) (y >>= g) Q := by
  intro s t hs
  change (∃ c s' d t', EStateM.bind x f s = _ ∧ EStateM.bind y g t = _ ∧ _) ∨
    ∃ e s' t', EStateM.bind x f s = _ ∧ EStateM.bind y g t = _ ∧ _
  rw [EStateM.bind, EStateM.bind]
  obtain ⟨a, s', b, t', hx, hy, hab, hs'⟩ | ⟨e, s', t', hx, hy, hs'⟩ := h s t hs
  · rw [hx, hy]
    exact hfg a b hab s' t' hs'
  · rw [hx, hy]
    exact .inr ⟨e, s', t', rfl, rfl, hs'⟩

theorem ite {c : Prop} [Decidable c] {x x' : EStateM ε σ α} {y y' : EStateM ε τ β}
    (h : c → Agrees S x y R) (h' : ¬ c → Agrees S x' y' R) :
    Agrees S (if c then x else x') (if c then y else y') R := by
  by_cases hc : c
  · rw [if_pos hc, if_pos hc]
    exact h hc
  · rw [if_neg hc, if_neg hc]
    exact h' hc

theorem attempt {x : EStateM ε σ α} {y : EStateM ε τ β} (h : Agrees S x y R)
    {A : Except ε α → Except ε β → Prop} (hok : ∀ a b, R a b → A (.ok a) (.ok b))
    (herror : ∀ e, A (.error e) (.error e)) :
    Agrees S (Systems.attempt x) (Systems.attempt y) A := by
  intro s t hs
  rw [Systems.attempt, Systems.attempt]
  obtain ⟨a, s', b, t', hx, hy, hab, hs'⟩ | ⟨e, s', t', hx, hy, hs'⟩ := h s t hs
  · rw [hx, hy]
    exact .inl ⟨.ok a, s', .ok b, t', rfl, rfl, hok a b hab, hs'⟩
  · rw [hx, hy]
    exact .inl ⟨.error e, s', .error e, t', rfl, rfl, herror e, hs'⟩

theorem mono {x : EStateM ε σ α} {y : EStateM ε τ β} {R' : α → β → Prop} (h : Agrees S x y R)
    (hR : ∀ a b, R a b → R' a b) : Agrees S x y R' := by
  intro s t hs
  obtain ⟨a, s', b, t', hx, hy, hab, hs'⟩ | herror := h s t hs
  · exact .inl ⟨a, s', b, t', hx, hy, hR a b hab, hs'⟩
  · exact .inr herror

theorem and_true {x : EStateM ε σ α} {y : EStateM ε τ α} (h : Agrees S x y Eq) :
    Agrees S x y fun a b => a = b ∧ True :=
  h.mono fun _ _ heq => ⟨heq, trivial⟩

theorem mapM {P : α → Prop} {l : List γ} {f : γ → EStateM ε σ α} {g : γ → EStateM ε τ α}
    (h : ∀ c ∈ l, Agrees S (f c) (g c) fun a b => a = b ∧ P a) :
    Agrees S (l.mapM f) (l.mapM g) fun as bs => as = bs ∧ ∀ a ∈ as, P a := by
  induction l with
  | nil => exact .pure ⟨rfl, fun a ha => absurd ha List.not_mem_nil⟩
  | cons c l ih =>
    rw [List.forall_mem_cons] at h
    rw [List.mapM_cons, List.mapM_cons]
    refine h.1.bind ?_
    rintro a _ ⟨rfl, ha⟩
    refine (ih h.2).bind ?_
    rintro as _ ⟨rfl, has⟩
    exact .pure ⟨rfl, List.forall_mem_cons.mpr ⟨ha, has⟩⟩

end Agrees

end Systems
