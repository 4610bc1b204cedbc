import Mathlib.Data.List.AList
import Mathlib.Data.List.Induction

/-!
# Maps

A Go map is an association list with distinct keys. A loop over it visits the pairs in some
order, here that of the list.
-/

namespace GoStd
variable {κ ν : Type*} [DecidableEq κ]

abbrev Map (κ ν : Type*) := AList fun _ : κ => ν

namespace Map

def pairs (m : Map κ ν) : List (κ × ν) := m.entries.map fun e => (e.1, e.2)

theorem mem_pairs {m : Map κ ν} {k : κ} {v : ν} : (k, v) ∈ m.pairs ↔ m.lookup k = some v := by
  have hlookup : m.lookup k = some v ↔ (⟨k, v⟩ : (_ : κ) × ν) ∈ m.entries := AList.mem_lookup_iff
  rw [hlookup, pairs, List.mem_map]
  constructor
  · rintro ⟨e, he, heq⟩
    cases heq
    exact he
  · exact fun h => ⟨⟨k, v⟩, h, rfl⟩

omit [DecidableEq κ] in
theorem pairs_nodup (m : Map κ ν) : (m.pairs.map Prod.fst).Nodup := by
  have hkeys : m.pairs.map Prod.fst = m.keys := by
    rw [pairs, List.map_map]
    rfl
  rw [hkeys]
  exact m.keys_nodup

theorem lookup_pairs [BEq κ] [LawfulBEq κ] (m : Map κ ν) (k : κ) :
    m.pairs.lookup k = m.lookup k := by
  rw [pairs, AList.lookup]
  induction m.entries with
  | nil => rfl
  | cons e entries ih =>
    rw [List.map_cons, List.lookup_cons]
    by_cases hk : k = e.1
    · subst hk
      rw [List.dlookup_cons_eq, beq_self_eq_true]
    · rw [List.dlookup_cons_ne _ _ hk, beq_false_of_ne hk]
      exact ih

omit [DecidableEq κ] in
theorem mem_of_lookup [BEq κ] [LawfulBEq κ] {l : List (κ × ν)} {k : κ} {v : ν}
    (h : l.lookup k = some v) :
    (k, v) ∈ l := by
  induction l with
  | nil => cases h
  | cons e l ih =>
    rw [List.lookup_cons] at h
    by_cases hk : k = e.1
    · subst hk
      rw [beq_self_eq_true] at h
      cases h
      exact List.mem_cons_self
    · rw [beq_false_of_ne hk] at h
      exact List.mem_cons_of_mem _ (ih h)

omit [DecidableEq κ] in
theorem lookup_of_mem [BEq κ] [LawfulBEq κ] {l : List (κ × ν)} (hkeys : (l.map Prod.fst).Nodup)
    {k : κ} {v : ν} (h : (k, v) ∈ l) : l.lookup k = some v := by
  induction l with
  | nil => cases h
  | cons e l ih =>
    rw [List.map_cons, List.nodup_cons] at hkeys
    rw [List.lookup_cons]
    rcases List.mem_cons.mp h with rfl | hl
    · rw [beq_self_eq_true]
    · have hne : k ≠ e.1 := by
        rintro rfl
        exact hkeys.1 (List.mem_map.mpr ⟨_, hl, rfl⟩)
      rw [beq_false_of_ne hne]
      exact ih hkeys.2 hl

def Extends (m m' : Map κ ν) : Prop := ∀ k v, m.lookup k = some v → m'.lookup k = some v

theorem Extends.refl (m : Map κ ν) : Extends m m := fun _ _ h => h

theorem Extends.trans {m₁ m₂ m₃ : Map κ ν} (h₁ : Extends m₁ m₂) (h₂ : Extends m₂ m₃) :
    Extends m₁ m₃ :=
  fun k v h => h₂ k v (h₁ k v h)

theorem Extends.mem {m m' : Map κ ν} (h : Extends m m') {k : κ} (hk : k ∈ m) : k ∈ m' := by
  obtain ⟨v, hv⟩ := Option.isSome_iff_exists.mp (AList.lookup_isSome.mpr hk)
  exact AList.lookup_isSome.mp (by rw [h k v hv, Option.isSome_some])

theorem extends_insert {m : Map κ ν} {k : κ} {v : ν} (h : m.lookup k = none ∨ m.lookup k = some v) :
    Extends m (m.insert k v) := by
  intro k' v' h'
  by_cases hk : k' = k
  · subst hk
    rcases h with h | h
    · rw [h] at h'
      cases h'
    · rw [h] at h'
      rw [AList.lookup_insert, h']
  · rwa [AList.lookup_insert_ne hk]

theorem lookup_insert_eq_some {m : Map κ ν} {k k' : κ} {v v' : ν}
    (h : (m.insert k v).lookup k' = some v') :
    (k' = k ∧ v' = v) ∨ m.lookup k' = some v' := by
  by_cases hk : k' = k
  · subst hk
    rw [AList.lookup_insert] at h
    exact Or.inl ⟨rfl, (Option.some.inj h).symm⟩
  · rw [AList.lookup_insert_ne hk] at h
    exact Or.inr h

def ofList (l : List (κ × ν)) : Map κ ν := l.foldl (fun m e => m.insert e.1 e.2) ∅

theorem ofList_concat (l : List (κ × ν)) (e : κ × ν) :
    ofList (l ++ [e]) = (ofList l).insert e.1 e.2 := by
  rw [ofList, List.foldl_append]
  rfl

theorem lookup_ofList {l : List (κ × ν)} {k : κ} {v : ν} (h : (k, v) ∈ l)
    (honly : ∀ w, (k, w) ∈ l → w = v) :
    (ofList l).lookup k = some v := by
  induction l using List.reverseRecOn with
  | nil => cases h
  | append_singleton l e ih =>
    rw [ofList_concat]
    by_cases hk : k = e.1
    · subst hk
      rw [AList.lookup_insert, honly e.2 (List.mem_append_right _ List.mem_cons_self)]
    · rw [AList.lookup_insert_ne hk]
      have hl : (k, v) ∈ l := by
        refine (List.mem_append.mp h).resolve_right fun he => hk ?_
        rw [← List.mem_singleton.mp he]
      exact ih hl fun w hw => honly w (List.mem_append_left _ hw)

end Map

end GoStd
