import WireGuardWindows.GoStd.Strings

/-!
# Texts of `key=value` lines

Such a text is read line by line and each line is cut at its first `=`. If no key holds a
`=` or a line break and no value a line break, reading gives the fields back that were
written (`read_text`).

Two ways to read more out of the fields follow. A list of slots has one entry per key, with
all the values for that key, and is determined by its fields once the keys are known
(`slotFields_injective`). A sequence of blocks, each opened by a field with one fixed key that
occurs nowhere else, is determined by the concatenation of the blocks (`blocks_injective`).
-/

namespace GoStd.Fields
open Strings

abbrev Field := Str × Str

def line (f : Field) : Str := f.1 ++ equals :: f.2

def text (fs : List Field) : Str := fs.flatMap fun f => line f ++ [newline]

def read (s : Str) : List (Str × Str × Bool) :=
  (s.splitOn newline).dropLast.map fun l => cut l equals

theorem splitOn_lines {ls : List Str} (h : ∀ l ∈ ls, newline ∉ l) :
    (ls.flatMap (· ++ [newline])).splitOn newline = ls ++ [[]] := by
  induction ls with
  | nil => rfl
  | cons l ls ih =>
    rw [List.flatMap_cons, List.append_assoc, List.singleton_append,
      List.splitOn_append_cons_self_of_not_mem (h l List.mem_cons_self),
      ih fun l' hl' => h l' (List.mem_cons_of_mem l hl'), List.cons_append]

structure OneLine (f : Field) : Prop where
  key : newline ∉ f.1
  separator : equals ∉ f.1
  value : newline ∉ f.2

theorem OneLine.line {f : Field} (h : OneLine f) : newline ∉ line f := by
  rw [Fields.line, List.mem_append, List.mem_cons, not_or, not_or]
  exact ⟨h.key, by decide, h.value⟩

theorem splitOn_text {fs : List Field} (h : ∀ f ∈ fs, OneLine f) :
    (text fs).splitOn newline = fs.map line ++ [[]] := by
  have htext : text fs = (fs.map line).flatMap (· ++ [newline]) := by
    rw [text, List.flatMap_map]
  rw [htext]
  apply splitOn_lines
  intro l hl
  obtain ⟨f, hf, rfl⟩ := List.mem_map.mp hl
  exact (h f hf).line

theorem read_text {fs : List Field} (h : ∀ f ∈ fs, OneLine f) :
    read (text fs) = fs.map fun f => (f.1, f.2, true) := by
  rw [read, splitOn_text h, List.dropLast_concat, List.map_map]
  apply List.map_congr_left
  intro f hf
  exact cut_append (h f hf).separator

theorem text_injective {fs gs : List Field} (hf : ∀ f ∈ fs, OneLine f) (hg : ∀ g ∈ gs, OneLine g)
    (h : text fs = text gs) : fs = gs := by
  have hread := congrArg read h
  rw [read_text hf, read_text hg] at hread
  refine List.map_injective_iff.mpr ?_ hread
  intro f g hfg
  exact Prod.ext (congrArg (·.1) hfg) (congrArg (·.2.1) hfg)

def slotFields (slots : List (Str × List Str)) : List Field :=
  slots.flatMap fun slot => slot.2.map (slot.1, ·)

theorem key_mem_of_mem_slotFields {slots : List (Str × List Str)} {f : Field}
    (h : f ∈ slotFields slots) : f.1 ∈ slots.map (·.1) := by
  obtain ⟨slot, hslot, hf⟩ := List.mem_flatMap.mp h
  obtain ⟨v, -, rfl⟩ := List.mem_map.mp hf
  exact List.mem_map_of_mem hslot

theorem slotFields_injective {slots slots' : List (Str × List Str)}
    (hkeys : slots.map (·.1) = slots'.map (·.1)) (hnodup : (slots.map (·.1)).Nodup)
    (h : slotFields slots = slotFields slots') : slots = slots' := by
  induction slots generalizing slots' with
  | nil =>
    have hnil : slots' = [] := by simpa using hkeys.symm
    exact hnil.symm
  | cons slot slots ih =>
    cases slots' with
    | nil => simp at hkeys
    | cons slot' slots' =>
      obtain ⟨k, vs⟩ := slot
      obtain ⟨k', vs'⟩ := slot'
      rw [List.map_cons, List.map_cons, List.cons_eq_cons] at hkeys
      obtain ⟨hk, hkeys⟩ := hkeys
      change k = k' at hk
      subst hk
      obtain ⟨hnotMem, hnodup⟩ := List.nodup_cons.mp hnodup
      -- the values of the first key are those of the fields with this key
      have hfirst : ∀ (vs : List Str) (rest : List (Str × List Str)), k ∉ rest.map (·.1) →
          ((vs.map (k, ·)) ++ slotFields rest).filterMap
            (fun f => if f.1 = k then some f.2 else none) = vs := by
        intro vs rest hrest
        have hnone : (slotFields rest).filterMap
            (fun f => if f.1 = k then some f.2 else none) = [] := by
          rw [List.filterMap_eq_nil_iff]
          intro f hf
          rw [if_neg]
          rintro rfl
          exact hrest (key_mem_of_mem_slotFields hf)
        rw [List.filterMap_append, hnone, List.append_nil, List.filterMap_map]
        simp
      have hvalues := congrArg (List.filterMap (fun f => if f.1 = k then some f.2 else none)) h
      simp only [slotFields, List.flatMap_cons] at hvalues h
      have hvs : vs = vs' := by
        have h₁ := hfirst vs slots hnotMem
        have h₂ := hfirst vs' slots' (hkeys ▸ hnotMem)
        simp only [slotFields] at h₁ h₂
        rw [h₁, h₂] at hvalues
        exact hvalues
      subst hvs
      rw [ih hkeys hnodup (List.append_cancel_left h)]

structure Opens (opener : Str) (block : List Field) : Prop where
  head : ∃ v rest, block = (opener, v) :: rest ∧ ∀ f ∈ rest, f.1 ≠ opener

theorem takeWhile_block {opener : Str} {rest : List Field} {bs : List (List Field)}
    (hrest : ∀ f ∈ rest, f.1 ≠ opener) (hb : ∀ b ∈ bs, Opens opener b) :
    (rest ++ bs.flatten).takeWhile (fun f => decide (f.1 ≠ opener)) = rest := by
  have hnil : bs.flatten.takeWhile (fun f => decide (f.1 ≠ opener)) = [] := by
    cases bs with
    | nil => rfl
    | cons b bs =>
      obtain ⟨v, rest, rfl, -⟩ := (hb b List.mem_cons_self).head
      simp
  rw [List.takeWhile_append_of_pos (by simpa using hrest), hnil, List.append_nil]

theorem blocks_injective {opener : Str} {bs cs : List (List Field)} (hb : ∀ b ∈ bs, Opens opener b)
    (hc : ∀ c ∈ cs, Opens opener c) (h : bs.flatten = cs.flatten) : bs = cs := by
  induction bs generalizing cs with
  | nil =>
    cases cs with
    | nil => rfl
    | cons c cs =>
      obtain ⟨v, rest, rfl, -⟩ := (hc c List.mem_cons_self).head
      cases h
  | cons b bs ih =>
    cases cs with
    | nil =>
      obtain ⟨v, rest, rfl, -⟩ := (hb b List.mem_cons_self).head
      cases h
    | cons c cs =>
      obtain ⟨v, rest, rfl, hrest⟩ := (hb b List.mem_cons_self).head
      obtain ⟨w, rest', rfl, hrest'⟩ := (hc c List.mem_cons_self).head
      have hbs : ∀ b ∈ bs, Opens opener b := fun b hmem => hb b (List.mem_cons_of_mem _ hmem)
      have hcs : ∀ c ∈ cs, Opens opener c := fun c hmem => hc c (List.mem_cons_of_mem _ hmem)
      rw [List.flatten_cons, List.flatten_cons, List.cons_append, List.cons_append,
        List.cons_eq_cons] at h
      obtain ⟨hhead, htail⟩ := h
      have hsame : rest = rest' := by
        rw [← takeWhile_block hrest hbs, htail, takeWhile_block hrest' hcs]
      subst hsame
      rw [hhead, ih hbs hcs (List.append_cancel_left htail)]

end GoStd.Fields
