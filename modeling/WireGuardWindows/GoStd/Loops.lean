import Mathlib

/-!
# Loops that return early on an error

A `for` loop whose body may return an error is a fold in the `Except` monad. The
rules here read such a fold off a successful result: what one iteration preserves,
possibly together with the part of the list already visited, the whole loop does.
-/

namespace GoStd.Loops
variable {ε α : Type*} {β σ : Type}

theorem bind_eq_ok {γ : Type} {x : Except ε γ} {f : γ → Except ε β} {r : β}
    (h : (x >>= f) = .ok r) :
    ∃ a, x = .ok a ∧ f a = .ok r := by
  cases x with
  | error e => cases h
  | ok a => exact ⟨a, rfl, h⟩

theorem ok_of_toOption_map {γ : Type*} {δ : Type*} {x : Except ε γ} {f : γ → δ} {d : δ}
    (h : x.toOption.map f = some d) : ∃ a, x = .ok a ∧ f a = d := by
  cases x with
  | error e => cases h
  | ok a => exact ⟨a, rfl, Option.some.inj h⟩

theorem forM_eq_ok {f : α → Except ε Unit} {l : List α} :
    l.forM f = .ok () ↔ ∀ a ∈ l, f a = .ok () := by
  induction l with
  | nil => exact iff_of_true rfl nofun
  | cons a l ih =>
    have hcons : (a :: l).forM f = (f a >>= fun _ => l.forM f) := rfl
    rw [hcons, List.forall_mem_cons, ← ih]
    constructor
    · intro h
      obtain ⟨u, ha, hl⟩ := bind_eq_ok h
      exact ⟨ha, hl⟩
    · rintro ⟨ha, hl⟩
      rw [ha]
      exact hl

theorem foldlM_invariant {f : σ → α → Except ε σ} (P : σ → Prop) {l : List α} {s s' : σ}
    (hstep : ∀ s a s', a ∈ l → P s → f s a = .ok s' → P s') (hs : P s)
    (h : l.foldlM f s = .ok s') : P s' := by
  induction l generalizing s with
  | nil =>
    cases h
    exact hs
  | cons a l ih =>
    obtain ⟨s₁, h₁, h₂⟩ := bind_eq_ok h
    apply ih (fun s b s' hb => hstep s b s' (List.mem_cons_of_mem a hb)) _ h₂
    exact hstep s a s₁ List.mem_cons_self hs h₁

theorem foldlM_history {f : σ → α → Except ε σ} (P : List α → σ → Prop) {l : List α} {s s' : σ}
    (hstep : ∀ done s a s', P done s → f s a = .ok s' → P (done ++ [a]) s') {done : List α}
    (hs : P done s) (h : l.foldlM f s = .ok s') : P (done ++ l) s' := by
  induction l generalizing s done with
  | nil =>
    cases h
    simpa using hs
  | cons a l ih =>
    obtain ⟨s₁, h₁, h₂⟩ := bind_eq_ok h
    have := ih (hstep done s a s₁ hs h₁) h₂
    simpa using this

theorem mapM_ok {f : α → Except ε β} {g : α → β} {l : List α} (h : ∀ a ∈ l, f a = .ok (g a)) :
    l.mapM f = .ok (l.map g) := by
  induction l with
  | nil => rfl
  | cons a l ih =>
    rw [List.mapM_cons, h a List.mem_cons_self, ih fun b hb => h b (List.mem_cons_of_mem a hb)]
    rfl

theorem mapM_some {γ : Type} {f : α → Option γ} {g : α → γ} {l : List α}
    (h : ∀ a ∈ l, f a = some (g a)) : l.mapM f = some (l.map g) := by
  induction l with
  | nil => rfl
  | cons a l ih =>
    rw [List.mapM_cons, h a List.mem_cons_self, ih fun b hb => h b (List.mem_cons_of_mem a hb)]
    rfl

theorem mapM_map_inverse {γ : Type} {f : α → Except ε γ} {g : γ → α} {l : List γ}
    (h : ∀ a ∈ l, f (g a) = .ok a) : (l.map g).mapM f = .ok l := by
  rw [List.mapM_map]
  exact (mapM_ok (g := id) h).trans (by rw [List.map_id])

theorem exists_forall₂ {R : α → β → Prop} {l : List α} (h : ∀ a ∈ l, ∃ b, R a b) :
    ∃ bs, List.Forall₂ R l bs := by
  induction l with
  | nil => exact ⟨[], .nil⟩
  | cons a l ih =>
    obtain ⟨b, hb⟩ := h a List.mem_cons_self
    obtain ⟨bs, hbs⟩ := ih fun a' ha' => h a' (List.mem_cons_of_mem a ha')
    exact ⟨b :: bs, .cons hb hbs⟩

theorem mapM_forall₂ {f : α → Except ε β} {l : List α} {r : List β} (h : l.mapM f = .ok r) :
    List.Forall₂ (fun a b => f a = .ok b) l r := by
  induction l generalizing r with
  | nil =>
    cases h
    exact .nil
  | cons a l ih =>
    rw [List.mapM_cons] at h
    obtain ⟨b, hb, h⟩ := bind_eq_ok h
    obtain ⟨bs, hbs, h⟩ := bind_eq_ok h
    cases h
    exact .cons hb (ih hbs)

theorem mapM_length {f : α → Except ε β} {l : List α} {r : List β} (h : l.mapM f = .ok r) :
    r.length = l.length := (mapM_forall₂ h).length_eq.symm

theorem exists_left_of_forall₂ {γ : Type*} {R : α → γ → Prop} {l : List α} {r : List γ}
    (h : List.Forall₂ R l r) {b : γ} (hb : b ∈ r) : ∃ a ∈ l, R a b := by
  induction h with
  | nil => cases hb
  | @cons a c l r hac _ ih =>
    rcases List.mem_cons.mp hb with rfl | hb
    · exact ⟨a, List.mem_cons_self, hac⟩
    · obtain ⟨a', ha', hr⟩ := ih hb
      exact ⟨a', List.mem_cons_of_mem a ha', hr⟩

theorem exists_of_mem_mapM {f : α → Except ε β} {l : List α} {r : List β} (h : l.mapM f = .ok r)
    {b : β} (hb : b ∈ r) : ∃ a ∈ l, f a = .ok b :=
  exists_left_of_forall₂ (mapM_forall₂ h) hb

theorem mapM_eq_map {f : α → Except ε β} {g : α → β} {l : List α} {r : List β}
    (hf : ∀ a ∈ l, ∀ b, f a = .ok b → b = g a) (h : l.mapM f = .ok r) : r = l.map g := by
  have hr := mapM_forall₂ h
  clear h
  induction hr with
  | nil => rfl
  | @cons a b l r hab _ ih =>
    rw [List.map_cons, hf a List.mem_cons_self b hab,
      ih fun c hc => hf c (List.mem_cons_of_mem a hc)]

theorem forall₂_of_map_eq {γ δ : Type*} {R : α → γ → Prop} {f : α → δ} {g : γ → δ} {l : List α}
    {m : List γ} (h : l.map f = m.map g) (hR : ∀ a ∈ l, ∀ b ∈ m, f a = g b → R a b) :
    List.Forall₂ R l m := by
  induction l generalizing m with
  | nil =>
    have hm : m = [] := by simpa using h.symm
    rw [hm]
    exact .nil
  | cons a l ih =>
    cases m with
    | nil => cases h
    | cons b m =>
      obtain ⟨hab, hrest⟩ := List.cons_eq_cons.mp h
      refine .cons (hR a List.mem_cons_self b List.mem_cons_self hab) (ih hrest ?_)
      intro a' ha' b' hb'
      exact hR a' (List.mem_cons_of_mem a ha') b' (List.mem_cons_of_mem b hb')

theorem map_eq_map_iff_forall₂ {γ δ : Type*} {f : α → δ} {g : γ → δ} {l : List α} {m : List γ} :
    l.map f = m.map g ↔ List.Forall₂ (fun a b => f a = g b) l m := by
  rw [← List.forall₂_eq_eq_eq, List.forall₂_map_left_iff, List.forall₂_map_right_iff]

theorem foldlM_after {f : σ → α → Except ε σ} {done rest : List α} {a : α} {s t : σ}
    (h : done.foldlM f s = .ok t) :
    (done ++ a :: rest).foldlM f s = f t a >>= fun u => rest.foldlM f u := by
  rw [List.foldlM_append, h]
  rfl

theorem foldlM_failed {f : σ → α → Except ε σ} {done rest : List α} {s : σ} {e : ε}
    (h : done.foldlM f s = .error e) :
    (done ++ rest).foldlM f s = .error e := by
  rw [List.foldlM_append, h]
  rfl

/-- Both runs fail with the same error, or both succeed and the results are related. -/
def Alike {γ δ : Type*} (R : γ → δ → Prop) : Except ε γ → Except ε δ → Prop
  | .ok a, .ok b => R a b
  | .error e, .error e' => e = e'
  | _, _ => False

theorem Alike.cases {γ δ : Type*} {R : γ → δ → Prop} {x : Except ε γ} {y : Except ε δ}
    (h : Alike R x y) :
    (∃ e, x = .error e ∧ y = .error e) ∨ ∃ a b, x = .ok a ∧ y = .ok b ∧ R a b := by
  cases x with
  | error e =>
    cases y with
    | error e' => exact .inl ⟨e, rfl, congrArg Except.error h.symm⟩
    | ok b => cases h
  | ok a =>
    cases y with
    | error e' => cases h
    | ok b => exact .inr ⟨a, b, rfl, rfl, h⟩

theorem Alike.bind {γ δ : Type} {β' : Type} {R : γ → δ → Prop} {Q : β → β' → Prop} {x : Except ε γ}
    {y : Except ε δ} {f : γ → Except ε β} {g : δ → Except ε β'} (h : Alike R x y)
    (hfg : ∀ a b, R a b → Alike Q (f a) (g b)) : Alike Q (x >>= f) (y >>= g) := by
  obtain ⟨e, rfl, rfl⟩ | ⟨a, b, rfl, rfl, hab⟩ := h.cases
  · exact rfl
  · exact hfg a b hab

theorem Alike.mapError {γ δ ε' : Type*} {R : γ → δ → Prop} {x : Except ε γ} {y : Except ε δ}
    {f : ε → ε'} (h : Alike R x y) : Alike R (x.mapError f) (y.mapError f) := by
  obtain ⟨e, rfl, rfl⟩ | ⟨a, b, rfl, rfl, hab⟩ := h.cases
  · exact rfl
  · exact hab

theorem Alike.same {γ : Type*} {R : γ → γ → Prop} (x : Except ε γ) (h : ∀ a, x = .ok a → R a a) :
    Alike R x x := by
  cases x with
  | error e => exact rfl
  | ok a => exact h a rfl

theorem Alike.ite {γ δ : Type*} {R : γ → δ → Prop} {c : Prop} [Decidable c] {x x' : Except ε γ}
    {y y' : Except ε δ} (h : c → Alike R x y) (h' : ¬ c → Alike R x' y') :
    Alike R (if c then x else x') (if c then y else y') := by
  by_cases hc : c
  · rw [if_pos hc, if_pos hc]
    exact h hc
  · rw [if_neg hc, if_neg hc]
    exact h' hc

theorem Alike.set {γ δ β' : Type} {R : γ → δ → Prop} {x : Except ε β'} {f : β' → γ} {g : β' → δ}
    (h : ∀ a, R (f a) (g a)) :
    Alike R (do return f (← x)) (do return g (← x)) := by
  cases x with
  | error e => exact rfl
  | ok a => exact h a

theorem alike_foldlM {f : σ → α → Except ε σ} {R : σ → σ → Prop}
    (hstep : ∀ s s' a, R s s' → Alike R (f s a) (f s' a)) {s s' : σ} (h : R s s') (l : List α) :
    Alike R (l.foldlM f s) (l.foldlM f s') := by
  induction l generalizing s s' with
  | nil => exact h
  | cons a l ih => exact (hstep s s' a h).bind fun _ _ h' => ih h'

end GoStd.Loops
