import Mathlib.Data.List.Basic
import Mathlib.Data.List.Nodup
import Mathlib.Logic.Function.Basic

/-!
# A file system that ignores case

Names with the same key are one file, which keeps the name it was last written under. A
directory is known by the keys of its path; directories without files are not told apart
from those that do not exist.
-/

namespace Systems

variable {ν β : Type*}

structure File (ν β : Type*) where
  name : ν
  contents : β
  deriving DecidableEq

abbrev Tree (ν β : Type*) := List ν → List (File ν β)

namespace Tree

variable [DecidableEq ν] (key : ν → ν) (t : Tree ν β) (dir : List ν)

def entries : List (File ν β) := t (dir.map key)

def read (name : ν) : Option β :=
  ((t.entries key dir).find? fun f => key f.name = key name).map File.contents

def put (file : File ν β) : Tree ν β :=
  Function.update t (dir.map key) ((t.entries key dir).filter
    (fun f => key f.name ≠ key file.name) ++ [file])

def remove (name : ν) : Tree ν β :=
  Function.update t (dir.map key) ((t.entries key dir).filter fun f => key f.name ≠ key name)

def removeAll : Tree ν β := fun d => if dir.map key <+: d then [] else t d

def Distinct : Prop := ∀ d, ((t d).map fun f => key f.name).Nodup

variable {key t dir}

theorem put_of_ne {file : File ν β} {d : List ν} (h : d ≠ dir.map key) :
    t.put key dir file d = t d :=
  Function.update_of_ne h _ _

theorem remove_of_ne {name : ν} {d : List ν} (h : d ≠ dir.map key) :
    t.remove key dir name d = t d :=
  Function.update_of_ne h _ _

theorem removeAll_of_not {d : List ν} (h : ¬ dir.map key <+: d) : t.removeAll key dir d = t d :=
  if_neg h

theorem removeAll_inside {d : List ν} (h : dir.map key <+: d) : t.removeAll key dir d = [] :=
  if_pos h

theorem read_congr {t' : Tree ν β} (h : t' (dir.map key) = t (dir.map key)) (name : ν) :
    t'.read key dir name = t.read key dir name := by
  rw [read, read, entries, entries, h]

theorem read_of_key {name other : ν} (h : key other = key name) :
    t.read key dir other = t.read key dir name := by
  rw [read, read, h]

theorem find_filter_ne {l : List (File ν β)} {name other : ν} (h : key other ≠ key name) :
    (l.filter fun f => key f.name ≠ key name).find? (fun f => key f.name = key other) =
      l.find? fun f => key f.name = key other := by
  induction l with
  | nil => rfl
  | cons f l ih =>
    by_cases hname : key f.name = key name
    · have hother : ¬ key f.name = key other := fun heq => h (heq.symm.trans hname)
      rw [List.filter_cons_of_neg (by simpa using hname), ih,
        List.find?_cons_of_neg (by simpa using hother)]
    · rw [List.filter_cons_of_pos (by simpa using hname), List.find?_cons, List.find?_cons, ih]

theorem find_filter_self {l : List (File ν β)} {name : ν} :
    (l.filter fun f => key f.name ≠ key name).find? (fun f => key f.name = key name) = none := by
  rw [List.find?_eq_none]
  intro f hf
  simpa using (List.mem_filter.mp hf).2

theorem read_put_self (file : File ν β) :
    (t.put key dir file).read key dir file.name = some file.contents := by
  rw [read, entries, put, Function.update_self, List.find?_append, find_filter_self]
  simp

theorem read_put_same {file : File ν β} {name : ν} (h : key name = key file.name) :
    (t.put key dir file).read key dir name = some file.contents := by
  rw [← read_put_self file, read, read, h]

theorem read_put_other {file : File ν β} {name : ν} (h : key name ≠ key file.name) :
    (t.put key dir file).read key dir name = t.read key dir name := by
  have hlast : [file].find? (fun f => key f.name = key name) = none := by simp [Ne.symm h]
  rw [read, entries, put, Function.update_self, List.find?_append, find_filter_ne h, hlast,
    Option.or_none]
  rfl

theorem read_remove_self {name other : ν} (h : key other = key name) :
    (t.remove key dir name).read key dir other = none := by
  rw [read, entries, remove, Function.update_self, h, find_filter_self]
  rfl

theorem read_remove_other {name other : ν} (h : key other ≠ key name) :
    (t.remove key dir name).read key dir other = t.read key dir other := by
  rw [read, entries, remove, Function.update_self, find_filter_ne h]
  rfl

theorem mem_entries_put {file e : File ν β} :
    e ∈ (t.put key dir file).entries key dir ↔
    (e ∈ t.entries key dir ∧ key e.name ≠ key file.name) ∨ e = file := by
  rw [entries, put, Function.update_self, List.mem_append, List.mem_filter, List.mem_singleton,
    decide_eq_true_eq]

theorem mem_entries_remove {name : ν} {e : File ν β} :
    e ∈ (t.remove key dir name).entries key dir ↔ e ∈ t.entries key dir ∧
    key e.name ≠ key name := by
  rw [entries, remove, Function.update_self, List.mem_filter, decide_eq_true_eq]

theorem read_isSome {name : ν} :
    (t.read key dir name).isSome ↔ ∃ f ∈ t.entries key dir, key f.name = key name := by
  rw [read, Option.isSome_map, List.find?_isSome]
  simp only [decide_eq_true_eq]

theorem read_eq_some {name : ν} {contents : β} (h : t.read key dir name = some contents) :
    ∃ f ∈ t.entries key dir, key f.name = key name ∧ f.contents = contents := by
  rw [read, Option.map_eq_some_iff] at h
  obtain ⟨f, hf, hcontents⟩ := h
  exact ⟨f, List.mem_of_find?_eq_some hf, by simpa using List.find?_some hf, hcontents⟩

theorem Distinct.put (h : t.Distinct key) (dir : List ν) (file : File ν β) :
    (t.put key dir file).Distinct key := by
  intro d
  by_cases hd : d = dir.map key
  · subst hd
    rw [Tree.put, Function.update_self, List.map_append, List.nodup_append]
    refine ⟨(h _).sublist (List.filter_sublist.map _), by simp, ?_⟩
    simp only [List.map_cons, List.map_nil, List.mem_singleton, List.mem_map, List.mem_filter,
      decide_eq_true_eq]
    rintro a ⟨f, ⟨-, hne⟩, rfl⟩ b rfl heq
    exact hne heq
  · rw [put_of_ne hd]
    exact h d

theorem Distinct.remove (h : t.Distinct key) (dir : List ν) (name : ν) :
    (t.remove key dir name).Distinct key := by
  intro d
  by_cases hd : d = dir.map key
  · subst hd
    rw [Tree.remove, Function.update_self]
    exact (h _).sublist (List.filter_sublist.map _)
  · rw [remove_of_ne hd]
    exact h d

theorem Distinct.removeAll (h : t.Distinct key) (dir : List ν) :
    (t.removeAll key dir).Distinct key := by
  intro d
  rw [Tree.removeAll]
  split
  · exact List.nodup_nil
  · exact h d

omit [DecidableEq ν] in
theorem Distinct.eq_of_key (h : t.Distinct key) {e f : File ν β} (he : e ∈ t.entries key dir)
    (hf : f ∈ t.entries key dir) (hkey : key e.name = key f.name) : e = f :=
  List.inj_on_of_nodup_map (h _) he hf hkey

theorem Distinct.read_eq (h : t.Distinct key) {e : File ν β} (he : e ∈ t.entries key dir) :
    t.read key dir e.name = some e.contents := by
  obtain ⟨contents, hread⟩ := Option.isSome_iff_exists.mp (read_isSome.mpr ⟨e, he, rfl⟩)
  obtain ⟨f, hf, hkey, rfl⟩ := read_eq_some hread
  rw [hread, h.eq_of_key hf he hkey]

end Tree

end Systems
