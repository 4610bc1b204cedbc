import Mathlib

/-!
# Byte strings and the `strings` package

A Go string is a sequence of bytes, valid UTF-8 or not, so it is a list of
`UInt8` here. Cutting and splitting are at one byte, which is how every caller
uses them. White space is trimmed by whole encodings: a leading or trailing
rune is white space exactly when the string starts or ends with one of the
listed byte sequences, and an invalid byte is never white space.
-/

namespace GoStd

abbrev Str := List UInt8

instance : LawfulBEq Str := inferInstanceAs (LawfulBEq (List UInt8))

def str (s : String) : Str := s.toList.map Char.toUInt8

namespace Strings

def newline : UInt8 := 0x0A
def hash : UInt8 := 0x23
def percent : UInt8 := 0x25
def comma : UInt8 := 0x2C
def hyphen : UInt8 := 0x2D
def dot : UInt8 := 0x2E
def slash : UInt8 := 0x2F
def colon : UInt8 := 0x3A
def equals : UInt8 := 0x3D
def openBracket : UInt8 := 0x5B
def closeBracket : UInt8 := 0x5D

/-- `bytes.Compare` is negative: the bytes are compared as numbers, one after the other. -/
def bytesLess (a b : Str) : Bool := a.map UInt8.toNat < b.map UInt8.toNat

def cut (s : Str) (sep : UInt8) : Str × Str × Bool :=
  match s.dropWhile (· != sep) with
  | [] => (s, [], false)
  | _ :: after => (s.takeWhile (· != sep), after, true)

theorem cut_of_notMem {s : Str} {sep : UInt8} (h : sep ∉ s) : cut s sep = (s, [], false) := by
  have hd : s.dropWhile (· != sep) = [] := by
    rw [List.dropWhile_eq_nil_iff]
    intro b hb
    simpa using fun he : b = sep => h (he ▸ hb)
  simp [cut, hd]

theorem cut_append {a b : Str} {sep : UInt8} (h : sep ∉ a) :
    cut (a ++ sep :: b) sep = (a, b, true) := by
  have ha : ∀ x ∈ a, (x != sep) = true := by
    intro x hx
    simpa using fun he : x = sep => h (he ▸ hx)
  simp [cut, List.dropWhile_append_of_pos ha, List.takeWhile_append_of_pos ha]

theorem cut_cases (s : Str) (sep : UInt8) :
    (sep ∉ s ∧ cut s sep = (s, [], false)) ∨
    ∃ a b, s = a ++ sep :: b ∧ sep ∉ a ∧ cut s sep = (a, b, true) := by
  by_cases h : sep ∈ s
  · obtain ⟨a, b, rfl, ha⟩ := List.eq_append_cons_of_mem h
    exact Or.inr ⟨a, b, rfl, ha, cut_append ha⟩
  · exact Or.inl ⟨h, cut_of_notMem h⟩

theorem cut_isPrefix (s : Str) (sep : UInt8) : (cut s sep).1 <+: s := by
  rcases cut_cases s sep with ⟨-, hc⟩ | ⟨a, b, rfl, -, hc⟩
  · rw [hc]
  · rw [hc]
    exact List.prefix_append a _

theorem cut_append_left {a : Str} {sep : UInt8} (h : sep ∉ a) (s : Str) :
    cut (a ++ s) sep = (a ++ (cut s sep).1, (cut s sep).2) := by
  rcases cut_cases s sep with ⟨hn, hc⟩ | ⟨x, y, hs, hx, hc⟩
  · rw [hc, cut_of_notMem (by simp [h, hn])]
  · rw [hc, hs, ← List.append_assoc, cut_append (by simp [h, hx])]

theorem of_mem_splitOn {s p : Str} {sep : UInt8} (h : p ∈ s.splitOn sep) :
    sep ∉ p ∧ ∀ b ∈ p, b ∈ s := by
  induction hn : s.length using Nat.strong_induction_on generalizing s with
  | _ n ih =>
    rcases cut_cases s sep with ⟨hs, -⟩ | ⟨x, y, rfl, hx, -⟩
    · rw [List.splitOn_eq_singleton hs, List.mem_singleton] at h
      exact ⟨h ▸ hs, fun b hb => h ▸ hb⟩
    · rw [List.splitOn_append_cons_self_of_not_mem hx, List.mem_cons] at h
      rcases h with rfl | h
      · exact ⟨hx, fun b hb => by simp [hb]⟩
      · obtain ⟨hsep, hmem⟩ := ih y.length (by simp [← hn]; omega) h rfl
        exact ⟨hsep, fun b hb => by simp [hmem b hb]⟩

/-- The slices around `strings.LastIndexByte`, if the byte occurs. -/
def cutLast (s : Str) (sep : UInt8) : Option (Str × Str) :=
  match cut s.reverse sep with
  | (b, a, true) => some (a.reverse, b.reverse)
  | _ => none

theorem cutLast_append {a b : Str} {sep : UInt8} (h : sep ∉ b) :
    cutLast (a ++ sep :: b) sep = some (a, b) := by
  have hr : (a ++ sep :: b).reverse = b.reverse ++ sep :: a.reverse := by simp
  have hn : sep ∉ b.reverse := by simpa using h
  simp [cutLast, hr, cut_append hn]

theorem cutLast_eq_some {s a b : Str} {sep : UInt8} (h : cutLast s sep = some (a, b)) :
    s = a ++ sep :: b ∧ sep ∉ b := by
  rcases cut_cases s.reverse sep with ⟨_, hc⟩ | ⟨x, y, hs, hx, hc⟩
  · simp [cutLast, hc] at h
  · simp only [cutLast, hc, Option.some.injEq, Prod.mk.injEq] at h
    obtain ⟨rfl, rfl⟩ := h
    refine ⟨?_, by simpa using hx⟩
    have hr := congrArg List.reverse hs
    simpa using hr

def lastIndexByte (s : Str) (b : UInt8) : Option Nat := (cutLast s b).map fun p => p.1.length

def cutText (sep : Str) : Str → Option (Str × Str)
  | [] => none
  | b :: t =>
    if sep.isPrefixOf (b :: t) then some ([], (b :: t).drop sep.length)
    else (cutText sep t).map fun p => (b :: p.1, p.2)

theorem cutText_append {sep : Str} {b : UInt8} {a : Str} (hb : sep.head? = some b)
    (ha : b ∉ a) (t : Str) :
    cutText sep (a ++ sep ++ t) = some (a, t) := by
  obtain ⟨rest, rfl⟩ : ∃ rest, sep = b :: rest := by
    cases sep with
    | nil => cases hb
    | cons c rest => exact ⟨rest, by rw [Option.some.inj hb]⟩
  induction a with
  | nil =>
    have hp : (b :: rest).isPrefixOf ((b :: rest) ++ t) = true :=
      List.isPrefixOf_iff_prefix.mpr (List.prefix_append _ _)
    rw [List.nil_append, List.cons_append, cutText, ← List.cons_append, if_pos hp, List.drop_left]
  | cons c a ih =>
    rw [List.mem_cons, not_or] at ha
    have hp : ¬ (b :: rest).isPrefixOf (c :: (a ++ (b :: rest) ++ t)) = true := by
      rw [List.isPrefixOf_iff_prefix, List.cons_prefix_cons]
      exact fun h => ha.1 h.1
    rw [List.cons_append, List.cons_append, cutText, if_neg hp, ih ha.2]
    rfl

def trimRight (s : Str) (cutset : List UInt8) : Str := s.rdropWhile (cutset.contains ·)

theorem mem_trimRight {s : Str} {cutset : List UInt8} {b : UInt8} (h : b ∈ trimRight s cutset) :
    b ∈ s :=
  (List.rdropWhile_prefix _ _).subset h

def trimSuffix (s suffix : Str) : Str :=
  if suffix.isSuffixOf s then s.take (s.length - suffix.length) else s

theorem suffix_isSuffixOf (s t : Str) : s.isSuffixOf (t ++ s) = true :=
  List.isSuffixOf_iff_suffix.mpr (List.suffix_append t s)

theorem trimSuffix_append (s suffix : Str) : trimSuffix (s ++ suffix) suffix = s := by
  rw [trimSuffix, if_pos (suffix_isSuffixOf suffix s), List.length_append, Nat.add_sub_cancel,
    List.take_left]

section Words
variable {α : Type*} [DecidableEq α]

def dropWords (ws : List (List α)) : Nat → List α → List α
  | 0, s => s
  | n + 1, s =>
    match ws.find? (·.isPrefixOf s) with
    | some w => dropWords ws n (s.drop w.length)
    | none => s

theorem dropWords_suffix (ws : List (List α)) (n : Nat) (s : List α) : dropWords ws n s <:+ s := by
  induction n generalizing s with
  | zero => exact List.suffix_refl s
  | succ n ih =>
    simp only [dropWords]
    split
    · exact (ih _).trans (List.drop_suffix _ _)
    · exact List.suffix_refl s

theorem dropWords_of_none {ws : List (List α)} {s : List α} (h : ∀ w ∈ ws, ¬ w <+: s) (n : Nat) :
    dropWords ws n s = s := by
  cases n with
  | zero => rfl
  | succ n =>
    have hf : ws.find? (·.isPrefixOf s) = none := by
      simpa [List.find?_eq_none, List.isPrefixOf_iff_prefix] using h
    simp [dropWords, hf]

theorem dropWords_none {ws : List (List α)} (hne : ∀ w ∈ ws, w ≠ []) {n : Nat} {s : List α}
    (hn : s.length ≤ n) : ∀ w ∈ ws, ¬ w <+: dropWords ws n s := by
  induction n generalizing s with
  | zero =>
    intro w hw hp
    obtain rfl : s = [] := List.eq_nil_of_length_eq_zero (by omega)
    exact hne w hw (List.prefix_nil.mp hp)
  | succ n ih =>
    simp only [dropWords]
    split
    · rename_i w hw
      have hmem := List.mem_of_find?_eq_some hw
      have hpos : 0 < w.length := List.length_pos_iff.mpr (hne w hmem)
      exact ih (by simp only [List.length_drop]; omega)
    · rename_i hf
      intro w hw hp
      have := List.find?_eq_none.mp hf w hw
      exact this (List.isPrefixOf_iff_prefix.mpr hp)

def PrefixFree (ws : List (List α)) : Prop := ∀ v ∈ ws, ∀ w ∈ ws, v <+: w → v = w

instance (ws : List (List α)) : Decidable (PrefixFree ws) :=
  inferInstanceAs (Decidable (∀ v ∈ ws, ∀ w ∈ ws, v <+: w → v = w))

theorem dropWords_append {ws : List (List α)} (hf : PrefixFree ws) {w : List α} (hw : w ∈ ws)
    (n : Nat) (s : List α) : dropWords ws (n + 1) (w ++ s) = dropWords ws n s := by
  have hp : w.isPrefixOf (w ++ s) = true := by simp [List.isPrefixOf_iff_prefix]
  obtain ⟨v, hv⟩ : ∃ v, ws.find? (·.isPrefixOf (w ++ s)) = some v := by
    cases h : ws.find? (·.isPrefixOf (w ++ s)) with
    | none => exact absurd hp (by simpa using List.find?_eq_none.mp h w hw)
    | some v => exact ⟨v, rfl⟩
  have hvw : v = w := by
    have hvm := List.mem_of_find?_eq_some hv
    have hvp : v <+: w ++ s := by simpa [List.isPrefixOf_iff_prefix] using List.find?_some hv
    rcases List.prefix_or_prefix_of_prefix hvp (List.prefix_append w s) with h | h
    · exact hf v hvm w hw h
    · exact (hf w hw v hvm h).symm
  simp [dropWords, hv, hvw]

theorem dropWords_flatten {ws : List (List α)} (hf : PrefixFree ws) {l : List (List α)}
    (hl : ∀ w ∈ l, w ∈ ws) (n : Nat) (s : List α) :
    dropWords ws (l.length + n) (l.flatten ++ s) = dropWords ws n s := by
  induction l with
  | nil => rw [List.flatten_nil, List.nil_append, List.length_nil, Nat.zero_add]
  | cons w l ih =>
    rw [List.forall_mem_cons] at hl
    rw [List.flatten_cons, List.append_assoc, List.length_cons, Nat.add_right_comm,
      dropWords_append hf hl.1]
    exact ih hl.2

theorem exists_dropWords (ws : List (List α)) (n : Nat) (s : List α) :
    ∃ l : List (List α), (∀ w ∈ l, w ∈ ws) ∧ s = l.flatten ++ dropWords ws n s := by
  induction n generalizing s with
  | zero => exact ⟨[], nofun, rfl⟩
  | succ n ih =>
    cases hf : ws.find? (·.isPrefixOf s) with
    | none => exact ⟨[], nofun, by simp [dropWords, hf]⟩
    | some w =>
      obtain ⟨t, rfl⟩ : w <+: s := by simpa [List.isPrefixOf_iff_prefix] using List.find?_some hf
      obtain ⟨l, hl, hs⟩ := ih t
      refine ⟨w :: l, List.forall_mem_cons.mpr ⟨List.mem_of_find?_eq_some hf, hl⟩, ?_⟩
      simp only [dropWords, hf, List.drop_left, List.flatten_cons, List.append_assoc]
      rw [← hs]

theorem dropWords_of_le {ws : List (List α)} (hne : ∀ w ∈ ws, w ≠ []) {s : List α} {m n : Nat}
    (hm : s.length ≤ m) (hn : s.length ≤ n) : dropWords ws m s = dropWords ws n s := by
  induction m generalizing s n with
  | zero =>
    obtain rfl : s = [] := List.eq_nil_of_length_eq_zero (by omega)
    rw [dropWords, dropWords_of_none fun w hw hp => hne w hw (List.prefix_nil.mp hp)]
  | succ m ih =>
    cases n with
    | zero =>
      obtain rfl : s = [] := List.eq_nil_of_length_eq_zero (by omega)
      rw [dropWords, dropWords_of_none fun w hw hp => hne w hw (List.prefix_nil.mp hp)]
    | succ n =>
      rw [dropWords, dropWords]
      cases hf : ws.find? (·.isPrefixOf s) with
      | none => rfl
      | some w =>
        have hpos := List.length_pos_iff.mpr (hne w (List.mem_of_find?_eq_some hf))
        exact ih (by rw [List.length_drop]; omega) (by rw [List.length_drop]; omega)

theorem dropWords_append_stop {ws : List (List α)} {b : α} (hb : ∀ w ∈ ws, b ∉ w) {n : Nat}
    {s : List α} (hne : ∀ w ∈ ws, w ≠ []) (hn : s.length ≤ n) (t : List α) (k : Nat) :
    dropWords ws (n + k) (s ++ b :: t) = dropWords ws n s ++ b :: t := by
  have hp : ∀ w ∈ ws, ∀ s : List α, w <+: s ++ b :: t ↔ w <+: s := by
    intro w hw s
    constructor
    · intro h
      rcases List.prefix_or_prefix_of_prefix h (List.prefix_append s (b :: t)) with h' | h'
      · exact h'
      · obtain ⟨u, rfl⟩ := h'
        have hu := (List.prefix_append_right_inj s).mp h
        cases u with
        | nil => simp
        | cons c u =>
          obtain ⟨rfl, -⟩ := List.cons_prefix_cons.mp hu
          exact absurd (by simp) (hb _ hw)
    · exact fun h => h.trans (List.prefix_append _ _)
  induction n generalizing s with
  | zero =>
    obtain rfl : s = [] := List.eq_nil_of_length_eq_zero (by omega)
    apply dropWords_of_none
    intro w hw h
    exact hne w hw (List.prefix_nil.mp ((hp w hw []).mp h))
  | succ n ih =>
    have hfind : ws.find? (·.isPrefixOf (s ++ b :: t)) = ws.find? (·.isPrefixOf s) := by
      apply List.find?_congr
      intro w hw
      rw [Bool.eq_iff_iff, List.isPrefixOf_iff_prefix, List.isPrefixOf_iff_prefix, hp w hw]
    rw [Nat.succ_add, dropWords, dropWords, hfind]
    cases hf : ws.find? (·.isPrefixOf s) with
    | none => rfl
    | some w =>
      have hw := List.mem_of_find?_eq_some hf
      have hws : w <+: s := by
        simpa [List.isPrefixOf_iff_prefix] using List.find?_some hf
      have hpos := List.length_pos_iff.mpr (hne w hw)
      simp only
      rw [List.drop_append_of_le_length hws.length_le]
      exact ih (by simp only [List.length_drop]; omega)

end Words

/-- The encodings of the runes for which `unicode.IsSpace` holds. -/
def spaceRunes : List Str :=
  [[0x09], [0x0A], [0x0B], [0x0C], [0x0D], [0x20], [0xC2, 0x85], [0xC2, 0xA0],
    [0xE1, 0x9A, 0x80], [0xE2, 0x80, 0x80], [0xE2, 0x80, 0x81], [0xE2, 0x80, 0x82],
    [0xE2, 0x80, 0x83], [0xE2, 0x80, 0x84], [0xE2, 0x80, 0x85], [0xE2, 0x80, 0x86],
    [0xE2, 0x80, 0x87], [0xE2, 0x80, 0x88], [0xE2, 0x80, 0x89], [0xE2, 0x80, 0x8A],
    [0xE2, 0x80, 0xA8], [0xE2, 0x80, 0xA9], [0xE2, 0x80, 0xAF], [0xE2, 0x81, 0x9F],
    [0xE3, 0x80, 0x80]]

def trimLeftSpace (s : Str) : Str := dropWords spaceRunes s.length s

def trimRightSpace (s : Str) : Str :=
  (dropWords (spaceRunes.map List.reverse) s.length s.reverse).reverse

def trimSpace (s : Str) : Str := trimRightSpace (trimLeftSpace s)

theorem spaceRunes_ne_nil : ∀ w ∈ spaceRunes, w ≠ [] := by decide

theorem spaceRunes_prefixFree : PrefixFree spaceRunes := by decide

theorem spaceRunes_suffixFree : PrefixFree (spaceRunes.map List.reverse) := by decide

theorem spaceRunes_ascii : ∀ w ∈ spaceRunes, w.length = 1 ∨ ∀ b ∈ w, 0x80 ≤ b := by
  have h : spaceRunes.all (fun w => w.length == 1 || w.all (0x80 ≤ ·)) = true := by decide
  simpa [List.all_eq_true] using h

def NoSpaceLeft (s : Str) : Prop := ∀ w ∈ spaceRunes, ¬ w <+: s

def NoSpaceRight (s : Str) : Prop := ∀ w ∈ spaceRunes, ¬ w <:+ s

def Trimmed (s : Str) : Prop := NoSpaceLeft s ∧ NoSpaceRight s

instance (s : Str) : Decidable (NoSpaceLeft s) :=
  inferInstanceAs (Decidable (∀ w ∈ spaceRunes, ¬ w <+: s))

instance (s : Str) : Decidable (NoSpaceRight s) :=
  inferInstanceAs (Decidable (∀ w ∈ spaceRunes, ¬ w <:+ s))

instance (s : Str) : Decidable (Trimmed s) :=
  inferInstanceAs (Decidable (NoSpaceLeft s ∧ NoSpaceRight s))

theorem trimLeftSpace_suffix (s : Str) : trimLeftSpace s <:+ s := dropWords_suffix _ _ _

theorem trimRightSpace_isPrefix (s : Str) : trimRightSpace s <+: s := by
  rw [← List.reverse_suffix]
  simpa [trimRightSpace] using dropWords_suffix (spaceRunes.map List.reverse) s.length s.reverse

theorem mem_trimSpace {s : Str} {b : UInt8} (h : b ∈ trimSpace s) : b ∈ s :=
  (trimLeftSpace_suffix s).subset ((trimRightSpace_isPrefix _).subset h)

theorem noSpaceLeft_trimLeftSpace (s : Str) : NoSpaceLeft (trimLeftSpace s) :=
  dropWords_none spaceRunes_ne_nil le_rfl

theorem noSpaceRight_trimRightSpace (s : Str) : NoSpaceRight (trimRightSpace s) := by
  intro w hw hs
  have hne : ∀ v ∈ spaceRunes.map List.reverse, v ≠ [] := by decide
  have hn := dropWords_none hne (s := s.reverse) (n := s.length) (by simp) w.reverse
    (List.mem_map_of_mem hw)
  rw [← List.reverse_prefix] at hs
  exact hn (by simpa [trimRightSpace] using hs)

theorem NoSpaceLeft.of_isPrefix {s t : Str} (ht : NoSpaceLeft t) (h : s <+: t) : NoSpaceLeft s :=
  fun w hw hp => ht w hw (hp.trans h)

theorem NoSpaceRight.of_isSuffix {s t : Str} (ht : NoSpaceRight t) (h : s <:+ t) : NoSpaceRight s :=
  fun w hw hp => ht w hw (hp.trans h)

theorem trimSpace_trimmed (s : Str) : Trimmed (trimSpace s) :=
  ⟨(noSpaceLeft_trimLeftSpace s).of_isPrefix (trimRightSpace_isPrefix _),
    noSpaceRight_trimRightSpace _⟩

theorem trimLeftSpace_eq_self {s : Str} (h : NoSpaceLeft s) : trimLeftSpace s = s :=
  dropWords_of_none h _

theorem trimRightSpace_eq_self {s : Str} (h : NoSpaceRight s) : trimRightSpace s = s := by
  have hr : ∀ w ∈ spaceRunes.map List.reverse, ¬ w <+: s.reverse := by
    intro w hw hp
    obtain ⟨v, hv, rfl⟩ := List.mem_map.mp hw
    exact h v hv (List.reverse_prefix.mp hp)
  simp [trimRightSpace, dropWords_of_none hr]

theorem trimSpace_eq_self {s : Str} (h : Trimmed s) : trimSpace s = s := by
  rw [trimSpace, trimLeftSpace_eq_self h.1, trimRightSpace_eq_self h.2]

def Blank (y : Str) : Prop := ∃ l : List Str, (∀ w ∈ l, w ∈ spaceRunes) ∧ y = l.flatten

theorem blank_nil : Blank [] := ⟨[], nofun, rfl⟩

theorem Blank.append {y w : Str} (hy : Blank y) (hw : Blank w) : Blank (y ++ w) := by
  obtain ⟨l, hl, rfl⟩ := hy
  obtain ⟨m, hm, rfl⟩ := hw
  refine ⟨l ++ m, ?_, List.flatten_append.symm⟩
  exact List.forall_mem_append.mpr ⟨hl, hm⟩

theorem blank_of_mem {w : Str} (h : w ∈ spaceRunes) : Blank w := by
  refine ⟨[w], ?_, ?_⟩
  · exact List.forall_mem_singleton.mpr h
  · rw [List.flatten_cons, List.flatten_nil, List.append_nil]

theorem blank_of_bytes {y : Str} (h : ∀ b ∈ y, [b] ∈ spaceRunes) : Blank y := by
  induction y with
  | nil => exact blank_nil
  | cons b y ih =>
    rw [List.forall_mem_cons] at h
    exact (blank_of_mem h.1).append (ih h.2)

theorem trimLeftSpace_of_blank {y : Str} (hy : Blank y) {t : Str} (ht : NoSpaceLeft t) :
    trimLeftSpace (y ++ t) = t := by
  obtain ⟨l, hl, rfl⟩ := hy
  have hlong : dropWords spaceRunes (l.flatten ++ t).length (l.flatten ++ t) =
      dropWords spaceRunes (l.length + (l.flatten ++ t).length) (l.flatten ++ t) :=
    dropWords_of_le spaceRunes_ne_nil le_rfl (Nat.le_add_left _ _)
  rw [trimLeftSpace, hlong, dropWords_flatten spaceRunes_prefixFree hl, dropWords_of_none ht]

theorem trimRightSpace_of_blank {t : Str} (ht : NoSpaceRight t) {w : Str} (hw : Blank w) :
    trimRightSpace (t ++ w) = t := by
  obtain ⟨l, hl, rfl⟩ := hw
  have hne : ∀ v ∈ spaceRunes.map List.reverse, v ≠ [] := by decide
  have hrev : (t ++ l.flatten).reverse = (l.map List.reverse).reverse.flatten ++ t.reverse := by
    rw [List.reverse_append, List.reverse_flatten]
  have hmem : ∀ v ∈ (l.map List.reverse).reverse, v ∈ spaceRunes.map List.reverse := by
    intro v hv
    obtain ⟨u, hu, rfl⟩ := List.mem_map.mp (List.mem_reverse.mp hv)
    exact List.mem_map_of_mem (hl u hu)
  have hnone : ∀ v ∈ spaceRunes.map List.reverse, ¬ v <+: t.reverse := by
    intro v hv
    obtain ⟨u, hu, rfl⟩ := List.mem_map.mp hv
    rw [List.reverse_prefix]
    exact ht u hu
  have hlen : ((l.map List.reverse).reverse.flatten ++ t.reverse).length =
      (t ++ l.flatten).length := by
    rw [← hrev, List.length_reverse]
  rw [trimRightSpace, hrev, ← hlen]
  generalize (l.map List.reverse).reverse = m at hmem
  have hlong : dropWords (spaceRunes.map List.reverse) (m.flatten ++ t.reverse).length
    (m.flatten ++ t.reverse) =
      dropWords (spaceRunes.map List.reverse) (m.length + (m.flatten ++ t.reverse).length)
        (m.flatten ++ t.reverse) :=
    dropWords_of_le hne le_rfl (Nat.le_add_left _ _)
  rw [hlong, dropWords_flatten spaceRunes_suffixFree hmem, dropWords_of_none hnone,
    List.reverse_reverse]

theorem exists_blank_left (s : Str) : ∃ y, Blank y ∧ s = y ++ trimLeftSpace s := by
  obtain ⟨l, hl, hs⟩ := exists_dropWords spaceRunes s.length s
  exact ⟨l.flatten, ⟨l, hl, rfl⟩, hs⟩

theorem exists_blank_right (s : Str) : ∃ w, Blank w ∧ s = trimRightSpace s ++ w := by
  obtain ⟨l, hl, hs⟩ := exists_dropWords (spaceRunes.map List.reverse) s.length s.reverse
  refine ⟨l.flatten.reverse, ⟨(l.map List.reverse).reverse, ?_, List.reverse_flatten⟩, ?_⟩
  · intro v hv
    obtain ⟨u, hu, rfl⟩ := List.mem_map.mp (List.mem_reverse.mp hv)
    obtain ⟨r, hr, rfl⟩ := List.mem_map.mp (hl u hu)
    rwa [List.reverse_reverse]
  · rw [trimRightSpace, ← List.reverse_append, ← hs, List.reverse_reverse]

theorem exists_blanks (s : Str) : ∃ y w, Blank y ∧ Blank w ∧ s = y ++ (trimSpace s ++ w) := by
  obtain ⟨y, hy, hs⟩ := exists_blank_left s
  obtain ⟨w, hw, hs'⟩ := exists_blank_right (trimLeftSpace s)
  refine ⟨y, w, hy, hw, ?_⟩
  rw [trimSpace, ← hs', ← hs]

-- No byte inside the encoding of a space begins another one.
theorem NoSpaceLeft.append_blank {t : Str} (ht : NoSpaceLeft t) (hne : t ≠ []) {w : Str}
    (hw : Blank w) :
    NoSpaceLeft (t ++ w) := by
  intro u hu hp
  rcases List.prefix_or_prefix_of_prefix hp (List.prefix_append t w) with h | ⟨r, rfl⟩
  · exact ht u hu h
  · obtain ⟨l, hl, rfl⟩ := hw
    have hr : r <+: l.flatten := (List.prefix_append_right_inj t).mp hp
    cases r with
    | nil => exact ht _ hu (by rw [List.append_nil])
    | cons b r =>
      have hinner : spaceRunes.all
          (fun u => u.tail.all fun b => spaceRunes.all (·.head? != some b)) = true := by
        decide
      have hb : b ∈ (t ++ b :: r).tail := by
        rw [List.tail_append_of_ne_nil hne]
        exact List.mem_append_right _ List.mem_cons_self
      cases l with
      | nil => exact absurd (List.prefix_nil.mp hr) (List.cons_ne_nil _ _)
      | cons v l =>
        have hv := hl v List.mem_cons_self
        obtain ⟨c, v', rfl⟩ := List.exists_cons_of_ne_nil (spaceRunes_ne_nil v hv)
        rw [List.flatten_cons, List.cons_append, List.cons_prefix_cons] at hr
        have hne' :=
          List.all_eq_true.mp (List.all_eq_true.mp (List.all_eq_true.mp hinner _ hu) b hb) _ hv
        rw [List.head?_cons, hr.1, bne_self_eq_false] at hne'
        cases hne'

-- The front of the encoding of a space neither ends in one nor ends one.
theorem NoSpaceRight.blank_append {t : Str} (ht : NoSpaceRight t) (hne : t ≠ []) {y : Str}
    (hy : Blank y) :
    NoSpaceRight (y ++ t) := by
  intro u hu hs
  rcases List.suffix_or_suffix_of_suffix hs (List.suffix_append y t) with h | ⟨r, rfl⟩
  · exact ht u hu h
  · obtain ⟨l, hl, rfl⟩ := hy
    have hr : r <:+ l.flatten := List.suffix_append_self_iff.mp hs
    have hinner : ∀ u ∈ spaceRunes, ∀ v ∈ spaceRunes, ∀ r ∈ u.inits, r ≠ [] → r ≠ u → ¬ r <:+ v ∧
        ¬ v <:+ r := by
      decide +kernel
    by_cases hnil : r = []
    · exact ht _ hu (by rw [hnil, List.nil_append])
    · have hproper : r ≠ r ++ t := fun h => hne (List.self_eq_append_right.mp h)
      rcases List.eq_nil_or_concat l with rfl | ⟨l', v, rfl⟩
      · exact hnil (List.suffix_nil.mp hr)
      · have hv := hl v (by simp)
        have hlast : v <:+ (l'.concat v).flatten := by simp
        obtain ⟨hno, hno'⟩ :=
          hinner _ hu v hv r ((List.mem_inits _ _).mpr (List.prefix_append r t)) hnil hproper
        rcases List.suffix_or_suffix_of_suffix hr hlast with h | h
        · exact hno h
        · exact hno' h

theorem trimSpace_around {y t w : Str} (hy : Blank y) (hw : Blank w) (ht : Trimmed t) :
    trimSpace (y ++ (t ++ w)) = t := by
  by_cases hne : t = []
  · subst hne
    have hleft : trimLeftSpace (y ++ w ++ []) = [] :=
      trimLeftSpace_of_blank (hy.append hw) (by decide)
    rw [List.append_nil] at hleft
    rw [List.nil_append, trimSpace, hleft]
    decide
  · rw [trimSpace, trimLeftSpace_of_blank hy (ht.1.append_blank hne hw),
      trimRightSpace_of_blank ht.2 hw]

theorem trimRightSpace_around {y t w : Str} (hy : Blank y) (hw : Blank w) (ht : NoSpaceRight t)
    (hne : t ≠ []) :
    trimRightSpace (y ++ (t ++ w)) = y ++ t := by
  rw [← List.append_assoc, trimRightSpace_of_blank (ht.blank_append hne hy) hw]

theorem trimSpace_trimRightSpace_cons (s : Str) :
    trimSpace (trimRightSpace (0x20 :: s)) = trimSpace s := by
  obtain ⟨y, w, hy, hw, hs⟩ := exists_blanks s
  have hy' : Blank (0x20 :: y) := (blank_of_mem (show [0x20] ∈ spaceRunes by decide)).append hy
  have htrim := trimSpace_trimmed s
  generalize trimSpace s = t at hs htrim
  subst hs
  by_cases hne : t = []
  · subst hne
    have hblank : Blank (0x20 :: (y ++ ([] ++ w))) := hy'.append (blank_nil.append hw)
    have hright : trimRightSpace ([] ++ 0x20 :: (y ++ ([] ++ w))) = [] :=
      trimRightSpace_of_blank (by decide) hblank
    rw [List.nil_append] at hright
    rw [hright]
    decide
  · have hright : trimRightSpace (0x20 :: y ++ (t ++ w)) = 0x20 :: y ++ t :=
      trimRightSpace_around hy' hw htrim.2 hne
    have htext : 0x20 :: y ++ t = 0x20 :: y ++ (t ++ []) := by rw [List.append_nil]
    rw [← List.cons_append, hright, htext, trimSpace_around hy' blank_nil htrim]

theorem trimSpace_space_cons {s : Str} (h : Trimmed s) : trimSpace (0x20 :: s) = s := by
  have hblank : Blank [0x20] := blank_of_mem (by decide)
  have htrim := trimSpace_around hblank blank_nil h
  rwa [List.append_nil] at htrim

theorem trimSpace_append_space {s : Str} (h : Trimmed s) : trimSpace (s ++ [0x20]) = s :=
  trimSpace_around blank_nil (blank_of_mem (by decide)) h

/-- A text that does not end in white space still does not after an ASCII byte
and anything before it. -/
theorem NoSpaceRight.append {v : Str} (hv : NoSpaceRight v) (hne : v ≠ []) (x : Str) {b : UInt8}
    (hb : b < 0x80) : NoSpaceRight (x ++ b :: v) := by
  intro w hw hs
  rcases List.suffix_or_suffix_of_suffix hs
      (show v <:+ x ++ b :: v from ⟨x ++ [b], by simp⟩) with h | h
  · exact hv w hw h
  · rcases spaceRunes_ascii w hw with hlen | hall
    · have hl := h.length_le
      have hpos := List.length_pos_iff.mpr hne
      have : v = w := h.eq_of_length (by omega)
      exact hv w hw (this ▸ List.suffix_refl w)
    · obtain ⟨t, rfl⟩ := h
      have ht : t <:+ x ++ [b] := by
        obtain ⟨y, hy⟩ := hs
        refine ⟨y, ?_⟩
        have : (y ++ t) ++ v = (x ++ [b]) ++ v := by simpa using hy
        exact List.append_cancel_right this
      by_cases htn : t = []
      · exact hv _ hw (by simp [htn])
      · have hm : b ∈ t := by
          have hlast := ht.getLast htn
          rw [List.getLast_append_of_ne_nil _ (by simp)] at hlast
          simp only [List.getLast_singleton] at hlast
          exact hlast ▸ List.getLast_mem htn
        exact absurd (hall b (by simp [hm])) (by simpa using hb)

theorem NoSpaceLeft.append {v : Str} (hv : NoSpaceLeft v) (hne : v ≠ []) {b : UInt8}
    (hb : b < 0x80) (y : Str) : NoSpaceLeft (v ++ b :: y) := by
  intro w hw hp
  rcases List.prefix_or_prefix_of_prefix hp (List.prefix_append v (b :: y)) with h | h
  · exact hv w hw h
  · rcases spaceRunes_ascii w hw with hlen | hall
    · have hl := h.length_le
      have hpos := List.length_pos_iff.mpr hne
      have : v = w := h.eq_of_length (by omega)
      exact hv w hw (this ▸ List.prefix_refl w)
    · obtain ⟨t, rfl⟩ := h
      have ht : t <+: b :: y := (List.prefix_append_right_inj v).mp hp
      cases t with
      | nil => exact hv _ hw (by simp)
      | cons c t =>
        obtain ⟨rfl, _⟩ := List.cons_prefix_cons.mp ht
        exact absurd (hall c (by simp)) (by simpa using hb)

theorem noSpaceLeft_cons {b : UInt8} (hb : b < 0x80) (hs : [b] ∉ spaceRunes) (s : Str) :
    NoSpaceLeft (b :: s) := by
  intro w hw hp
  cases w with
  | nil => exact spaceRunes_ne_nil [] hw rfl
  | cons c w =>
    obtain ⟨rfl, _⟩ := List.cons_prefix_cons.mp hp
    rcases spaceRunes_ascii _ hw with hlen | hall
    · obtain rfl : w = [] := List.eq_nil_of_length_eq_zero (by simpa using hlen)
      exact hs hw
    · exact absurd (hall c (by simp)) (by simpa using hb)

theorem noSpaceRight_concat {b : UInt8} (hb : b < 0x80) (hs : [b] ∉ spaceRunes) (s : Str) :
    NoSpaceRight (s ++ [b]) := by
  intro w hw hp
  rcases List.eq_nil_or_concat w with rfl | ⟨v, c, rfl⟩
  · exact spaceRunes_ne_nil [] hw rfl
  · have hc : c = b := by
      have hlast := hp.getLast (by simp)
      simpa using hlast
    subst hc
    rcases spaceRunes_ascii _ hw with hlen | hall
    · obtain rfl : v = [] := List.eq_nil_of_length_eq_zero (by simpa using hlen)
      exact hs (by simpa using hw)
    · exact absurd (hall c (by simp)) (by simpa using hb)

theorem notMem_of_mem_spaceRunes {b : UInt8} (hb : b < 0x80) (hs : [b] ∉ spaceRunes) {w : Str}
    (hw : w ∈ spaceRunes) : b ∉ w := by
  intro hmem
  rcases spaceRunes_ascii w hw with hlen | hall
  · obtain ⟨c, rfl⟩ := List.length_eq_one_iff.mp hlen
    rw [List.mem_singleton] at hmem
    exact hs (hmem ▸ hw)
  · exact absurd (hall b hmem) (by simpa using hb)

theorem trimRightSpace_append {b : UInt8} (hb : b < 0x80) (hs : [b] ∉ spaceRunes) (x r : Str) :
    trimRightSpace (x ++ b :: r) = x ++ b :: trimRightSpace r := by
  have hb' : ∀ w ∈ spaceRunes.map List.reverse, b ∉ w := by
    intro w hw
    obtain ⟨v, hv, rfl⟩ := List.mem_map.mp hw
    simpa using notMem_of_mem_spaceRunes hb hs hv
  have hne : ∀ w ∈ spaceRunes.map List.reverse, w ≠ [] := by decide
  have h := dropWords_append_stop hb' hne (show r.reverse.length ≤ r.length by simp) x.reverse
    (x.length + 1)
  have hrev : (x ++ b :: r).reverse = r.reverse ++ b :: x.reverse := by simp
  have hlen : (x ++ b :: r).length = r.length + (x.length + 1) := by
    simp only [List.length_append, List.length_cons]
    omega
  rw [trimRightSpace, hrev, hlen, h]
  simp [trimRightSpace]

theorem trimLeftSpace_append {b : UInt8} (hb : b < 0x80) (hs : [b] ∉ spaceRunes) (x r : Str) :
    trimLeftSpace (x ++ b :: r) = trimLeftSpace x ++ b :: r := by
  have h := dropWords_append_stop (fun w hw => notMem_of_mem_spaceRunes hb hs hw) spaceRunes_ne_nil
    (le_refl x.length) r (r.length + 1)
  rw [trimLeftSpace, List.length_append, List.length_cons, h, trimLeftSpace]

def fieldsUpTo : Nat → Str → Str → List Str
  | 0, word, _ => [word].filter (· ≠ [])
  | n + 1, word, s =>
    match s with
    | [] => [word].filter (· ≠ [])
    | b :: t =>
      match spaceRunes.find? (·.isPrefixOf s) with
      | some w => [word].filter (· ≠ []) ++ fieldsUpTo n [] (s.drop w.length)
      | none => fieldsUpTo n (word ++ [b]) t

def fields (s : Str) : List Str := fieldsUpTo s.length [] s

end Strings
end GoStd
