import WireGuardWindows.GoStd.Strings

/-!
# Runes and letter case

`range` over a Go string and `strings.Map` decode UTF-8 and turn every invalid
byte into U+FFFD. `strings.ToLower` maps ASCII text bytewise and everything else
rune by rune with the simple lower case mapping of Unicode; `caseRanges` lists that
mapping as runs of runes with one offset. `equalFold` compares with an ASCII text,
as all its callers do.
-/

namespace GoStd.Unicode
open Strings

def runeError : Nat := 0xFFFD

def isTail (b : UInt8) : Bool := 0x80 ≤ b && b ≤ 0xBF

/-- The first rune of `b :: t` and the bytes after it, as `utf8.DecodeRuneInString`
reads them. An invalid encoding is one byte wide. -/
def decodeRune (b : UInt8) (t : Str) : Nat × Str :=
  if b < 0x80 then (b.toNat, t)
  else match t with
    | [] => (runeError, t)
    | c :: t₁ =>
      if 0xC2 ≤ b ∧ b ≤ 0xDF ∧ isTail c then ((b.toNat - 0xC0) * 64 + (c.toNat - 0x80), t₁)
      else match t₁ with
        | [] => (runeError, t)
        | d :: t₂ =>
          if 0xE0 ≤ b ∧ b ≤ 0xEF ∧ isTail c ∧ isTail d ∧ (b = 0xE0 → 0xA0 ≤ c) ∧
              (b = 0xED → c ≤ 0x9F) then
            ((b.toNat - 0xE0) * 4096 + (c.toNat - 0x80) * 64 + (d.toNat - 0x80), t₂)
          else match t₂ with
            | [] => (runeError, t)
            | e :: t₃ =>
              if 0xF0 ≤ b ∧ b ≤ 0xF4 ∧ isTail c ∧ isTail d ∧ isTail e ∧
                  (b = 0xF0 → 0x90 ≤ c) ∧ (b = 0xF4 → c ≤ 0x8F) then
                ((b.toNat - 0xF0) * 262144 + (c.toNat - 0x80) * 4096 +
                  (d.toNat - 0x80) * 64 + (e.toNat - 0x80), t₃)
              else (runeError, t)

def runesUpTo : Nat → Str → List Nat
  | 0, _ => []
  | _ + 1, [] => []
  | n + 1, b :: t => (decodeRune b t).1 :: runesUpTo n (decodeRune b t).2

def runes (s : Str) : List Nat := runesUpTo s.length s

def encodeRune (r : Nat) : Str :=
  if r < 0x80 then [r.toUInt8]
  else if r < 0x800 then [(0xC0 + r / 64).toUInt8, (0x80 + r % 64).toUInt8]
  else if 0x10FFFF < r ∨ 0xD800 ≤ r ∧ r ≤ 0xDFFF then [0xEF, 0xBF, 0xBD]
  else if r < 0x10000 then
    [(0xE0 + r / 4096).toUInt8, (0x80 + r / 64 % 64).toUInt8, (0x80 + r % 64).toUInt8]
  else [(0xF0 + r / 262144).toUInt8, (0x80 + r / 4096 % 64).toUInt8,
    (0x80 + r / 64 % 64).toUInt8, (0x80 + r % 64).toUInt8]

structure CaseRange where
  lo : Nat
  hi : Nat
  stride : Nat
  delta : Int

def CaseRange.covers (e : CaseRange) (r : Nat) : Bool :=
  e.lo ≤ r && r ≤ e.hi && (r - e.lo) % e.stride == 0

def caseRanges : List CaseRange :=
  [⟨0x41, 0x5A, 1, 32⟩, ⟨0xC0, 0xD6, 1, 32⟩, ⟨0xD8, 0xDE, 1, 32⟩, ⟨0x100, 0x12E, 2, 1⟩,
    ⟨0x130, 0x130, 1, -199⟩, ⟨0x132, 0x136, 2, 1⟩, ⟨0x139, 0x147, 2, 1⟩, ⟨0x14A, 0x176, 2, 1⟩,
    ⟨0x178, 0x178, 1, -121⟩, ⟨0x179, 0x17D, 2, 1⟩, ⟨0x181, 0x181, 1, 210⟩, ⟨0x182, 0x184, 2, 1⟩,
    ⟨0x186, 0x186, 1, 206⟩, ⟨0x187, 0x187, 1, 1⟩, ⟨0x189, 0x18A, 1, 205⟩, ⟨0x18B, 0x18B, 1, 1⟩,
    ⟨0x18E, 0x18E, 1, 79⟩, ⟨0x18F, 0x18F, 1, 202⟩, ⟨0x190, 0x190, 1, 203⟩, ⟨0x191, 0x191, 1, 1⟩,
    ⟨0x193, 0x193, 1, 205⟩, ⟨0x194, 0x194, 1, 207⟩, ⟨0x196, 0x196, 1, 211⟩,
    ⟨0x197, 0x197, 1, 209⟩, ⟨0x198, 0x198, 1, 1⟩, ⟨0x19C, 0x19C, 1, 211⟩, ⟨0x19D, 0x19D, 1, 213⟩,
    ⟨0x19F, 0x19F, 1, 214⟩, ⟨0x1A0, 0x1A4, 2, 1⟩, ⟨0x1A6, 0x1A6, 1, 218⟩, ⟨0x1A7, 0x1A7, 1, 1⟩,
    ⟨0x1A9, 0x1A9, 1, 218⟩, ⟨0x1AC, 0x1AC, 1, 1⟩, ⟨0x1AE, 0x1AE, 1, 218⟩, ⟨0x1AF, 0x1AF, 1, 1⟩,
    ⟨0x1B1, 0x1B2, 1, 217⟩, ⟨0x1B3, 0x1B5, 2, 1⟩, ⟨0x1B7, 0x1B7, 1, 219⟩, ⟨0x1B8, 0x1B8, 1, 1⟩,
    ⟨0x1BC, 0x1BC, 1, 1⟩, ⟨0x1C4, 0x1C4, 1, 2⟩, ⟨0x1C5, 0x1C5, 1, 1⟩, ⟨0x1C7, 0x1C7, 1, 2⟩,
    ⟨0x1C8, 0x1C8, 1, 1⟩, ⟨0x1CA, 0x1CA, 1, 2⟩, ⟨0x1CB, 0x1DB, 2, 1⟩, ⟨0x1DE, 0x1EE, 2, 1⟩,
    ⟨0x1F1, 0x1F1, 1, 2⟩, ⟨0x1F2, 0x1F4, 2, 1⟩, ⟨0x1F6, 0x1F6, 1, -97⟩, ⟨0x1F7, 0x1F7, 1, -56⟩,
    ⟨0x1F8, 0x21E, 2, 1⟩, ⟨0x220, 0x220, 1, -130⟩, ⟨0x222, 0x232, 2, 1⟩,
    ⟨0x23A, 0x23A, 1, 10795⟩, ⟨0x23B, 0x23B, 1, 1⟩, ⟨0x23D, 0x23D, 1, -163⟩,
    ⟨0x23E, 0x23E, 1, 10792⟩, ⟨0x241, 0x241, 1, 1⟩, ⟨0x243, 0x243, 1, -195⟩,
    ⟨0x244, 0x244, 1, 69⟩, ⟨0x245, 0x245, 1, 71⟩, ⟨0x246, 0x24E, 2, 1⟩, ⟨0x370, 0x372, 2, 1⟩,
    ⟨0x376, 0x376, 1, 1⟩, ⟨0x37F, 0x37F, 1, 116⟩, ⟨0x386, 0x386, 1, 38⟩, ⟨0x388, 0x38A, 1, 37⟩,
    ⟨0x38C, 0x38C, 1, 64⟩, ⟨0x38E, 0x38F, 1, 63⟩, ⟨0x391, 0x3A1, 1, 32⟩, ⟨0x3A3, 0x3AB, 1, 32⟩,
    ⟨0x3CF, 0x3CF, 1, 8⟩, ⟨0x3D8, 0x3EE, 2, 1⟩, ⟨0x3F4, 0x3F4, 1, -60⟩, ⟨0x3F7, 0x3F7, 1, 1⟩,
    ⟨0x3F9, 0x3F9, 1, -7⟩, ⟨0x3FA, 0x3FA, 1, 1⟩, ⟨0x3FD, 0x3FF, 1, -130⟩, ⟨0x400, 0x40F, 1, 80⟩,
    ⟨0x410, 0x42F, 1, 32⟩, ⟨0x460, 0x480, 2, 1⟩, ⟨0x48A, 0x4BE, 2, 1⟩, ⟨0x4C0, 0x4C0, 1, 15⟩,
    ⟨0x4C1, 0x4CD, 2, 1⟩, ⟨0x4D0, 0x52E, 2, 1⟩, ⟨0x531, 0x556, 1, 48⟩, ⟨0x10A0, 0x10C5, 1, 7264⟩,
    ⟨0x10C7, 0x10C7, 1, 7264⟩, ⟨0x10CD, 0x10CD, 1, 7264⟩, ⟨0x13A0, 0x13EF, 1, 38864⟩,
    ⟨0x13F0, 0x13F5, 1, 8⟩, ⟨0x1C90, 0x1CBA, 1, -3008⟩, ⟨0x1CBD, 0x1CBF, 1, -3008⟩,
    ⟨0x1E00, 0x1E94, 2, 1⟩, ⟨0x1E9E, 0x1E9E, 1, -7615⟩, ⟨0x1EA0, 0x1EFE, 2, 1⟩,
    ⟨0x1F08, 0x1F0F, 1, -8⟩, ⟨0x1F18, 0x1F1D, 1, -8⟩, ⟨0x1F28, 0x1F2F, 1, -8⟩,
    ⟨0x1F38, 0x1F3F, 1, -8⟩, ⟨0x1F48, 0x1F4D, 1, -8⟩, ⟨0x1F59, 0x1F5F, 2, -8⟩,
    ⟨0x1F68, 0x1F6F, 1, -8⟩, ⟨0x1F88, 0x1F8F, 1, -8⟩, ⟨0x1F98, 0x1F9F, 1, -8⟩,
    ⟨0x1FA8, 0x1FAF, 1, -8⟩, ⟨0x1FB8, 0x1FB9, 1, -8⟩, ⟨0x1FBA, 0x1FBB, 1, -74⟩,
    ⟨0x1FBC, 0x1FBC, 1, -9⟩, ⟨0x1FC8, 0x1FCB, 1, -86⟩, ⟨0x1FCC, 0x1FCC, 1, -9⟩,
    ⟨0x1FD8, 0x1FD9, 1, -8⟩, ⟨0x1FDA, 0x1FDB, 1, -100⟩, ⟨0x1FE8, 0x1FE9, 1, -8⟩,
    ⟨0x1FEA, 0x1FEB, 1, -112⟩, ⟨0x1FEC, 0x1FEC, 1, -7⟩, ⟨0x1FF8, 0x1FF9, 1, -128⟩,
    ⟨0x1FFA, 0x1FFB, 1, -126⟩, ⟨0x1FFC, 0x1FFC, 1, -9⟩, ⟨0x2126, 0x2126, 1, -7517⟩,
    ⟨0x212A, 0x212A, 1, -8383⟩, ⟨0x212B, 0x212B, 1, -8262⟩, ⟨0x2132, 0x2132, 1, 28⟩,
    ⟨0x2160, 0x216F, 1, 16⟩, ⟨0x2183, 0x2183, 1, 1⟩, ⟨0x24B6, 0x24CF, 1, 26⟩,
    ⟨0x2C00, 0x2C2F, 1, 48⟩, ⟨0x2C60, 0x2C60, 1, 1⟩, ⟨0x2C62, 0x2C62, 1, -10743⟩,
    ⟨0x2C63, 0x2C63, 1, -3814⟩, ⟨0x2C64, 0x2C64, 1, -10727⟩, ⟨0x2C67, 0x2C6B, 2, 1⟩,
    ⟨0x2C6D, 0x2C6D, 1, -10780⟩, ⟨0x2C6E, 0x2C6E, 1, -10749⟩, ⟨0x2C6F, 0x2C6F, 1, -10783⟩,
    ⟨0x2C70, 0x2C70, 1, -10782⟩, ⟨0x2C72, 0x2C72, 1, 1⟩, ⟨0x2C75, 0x2C75, 1, 1⟩,
    ⟨0x2C7E, 0x2C7F, 1, -10815⟩, ⟨0x2C80, 0x2CE2, 2, 1⟩, ⟨0x2CEB, 0x2CED, 2, 1⟩,
    ⟨0x2CF2, 0x2CF2, 1, 1⟩, ⟨0xA640, 0xA66C, 2, 1⟩, ⟨0xA680, 0xA69A, 2, 1⟩,
    ⟨0xA722, 0xA72E, 2, 1⟩, ⟨0xA732, 0xA76E, 2, 1⟩, ⟨0xA779, 0xA77B, 2, 1⟩,
    ⟨0xA77D, 0xA77D, 1, -35332⟩, ⟨0xA77E, 0xA786, 2, 1⟩, ⟨0xA78B, 0xA78B, 1, 1⟩,
    ⟨0xA78D, 0xA78D, 1, -42280⟩, ⟨0xA790, 0xA792, 2, 1⟩, ⟨0xA796, 0xA7A8, 2, 1⟩,
    ⟨0xA7AA, 0xA7AA, 1, -42308⟩, ⟨0xA7AB, 0xA7AB, 1, -42319⟩, ⟨0xA7AC, 0xA7AC, 1, -42315⟩,
    ⟨0xA7AD, 0xA7AD, 1, -42305⟩, ⟨0xA7AE, 0xA7AE, 1, -42308⟩, ⟨0xA7B0, 0xA7B0, 1, -42258⟩,
    ⟨0xA7B1, 0xA7B1, 1, -42282⟩, ⟨0xA7B2, 0xA7B2, 1, -42261⟩, ⟨0xA7B3, 0xA7B3, 1, 928⟩,
    ⟨0xA7B4, 0xA7C2, 2, 1⟩, ⟨0xA7C4, 0xA7C4, 1, -48⟩, ⟨0xA7C5, 0xA7C5, 1, -42307⟩,
    ⟨0xA7C6, 0xA7C6, 1, -35384⟩, ⟨0xA7C7, 0xA7C9, 2, 1⟩, ⟨0xA7D0, 0xA7D0, 1, 1⟩,
    ⟨0xA7D6, 0xA7D8, 2, 1⟩, ⟨0xA7F5, 0xA7F5, 1, 1⟩, ⟨0xFF21, 0xFF3A, 1, 32⟩,
    ⟨0x10400, 0x10427, 1, 40⟩, ⟨0x104B0, 0x104D3, 1, 40⟩, ⟨0x10570, 0x1057A, 1, 39⟩,
    ⟨0x1057C, 0x1058A, 1, 39⟩, ⟨0x1058C, 0x10592, 1, 39⟩, ⟨0x10594, 0x10595, 1, 39⟩,
    ⟨0x10C80, 0x10CB2, 1, 64⟩, ⟨0x118A0, 0x118BF, 1, 32⟩, ⟨0x16E40, 0x16E5F, 1, 32⟩,
    ⟨0x1E900, 0x1E921, 1, 34⟩]

def lowerRune (r : Nat) : Nat :=
  match caseRanges.find? (·.covers r) with
  | some e => (r + e.delta).toNat
  | none => r

def lowerByte (b : UInt8) : UInt8 := if 0x41 ≤ b ∧ b ≤ 0x5A then b + 0x20 else b

def isASCII (s : Str) : Bool := s.all (· < 0x80)

def toLower (s : Str) : Str :=
  if isASCII s then s.map lowerByte else (runes s).flatMap fun r => encodeRune (lowerRune r)

/-- Simple case folding against an ASCII byte: besides the letter itself only the
Kelvin sign and the long s fold to ASCII. -/
def foldsTo (r : Nat) (c : UInt8) : Bool :=
  (r < 0x80 && lowerByte r.toUInt8 == lowerByte c) || (r == 0x212A && lowerByte c == 0x6B) ||
    (r == 0x17F && lowerByte c == 0x73)

def equalFold (s t : Str) : Bool :=
  (runes s).length == t.length && ((runes s).zip t).all fun p => foldsTo p.1 p.2

theorem decodeRune_ascii {b : UInt8} (hb : b < 0x80) (t : Str) :
    decodeRune b t = (b.toNat, t) := by
  simp [decodeRune, hb]

theorem decodeRune_nonASCII {b : UInt8} (hb : ¬ b < 0x80) (t : Str) :
    0x80 ≤ (decodeRune b t).1 := by
  have he : 0x80 ≤ runeError := by decide
  simp only [decodeRune, hb, if_false]
  split
  · exact he
  · split_ifs with h2
    · have := UInt8.le_iff_toNat_le.mp h2.1
      simp at this ⊢
      omega
    · split
      · exact he
      · split_ifs with h3
        · obtain ⟨h0, h1, hc, hd, hlo, -⟩ := h3
          have hx := UInt8.le_iff_toNat_le.mp h0
          by_cases hb0 : b = 0xE0
          · have := UInt8.le_iff_toNat_le.mp (hlo hb0)
            simp at this ⊢
            omega
          · have hne : b.toNat ≠ 0xE0 := fun h => hb0 (UInt8.toNat_inj.mp h)
            simp at hx ⊢
            omega
        · split
          · exact he
          · split_ifs with h4
            · obtain ⟨h0, h1, hc, hd, hf, hlo, -⟩ := h4
              have hx := UInt8.le_iff_toNat_le.mp h0
              by_cases hb0 : b = 0xF0
              · have := UInt8.le_iff_toNat_le.mp (hlo hb0)
                simp at this ⊢
                omega
              · have hne : b.toNat ≠ 0xF0 := fun h => hb0 (UInt8.toNat_inj.mp h)
                simp at hx ⊢
                omega
            · exact he

theorem lowerRune_nonASCII {r : Nat} (hr : 0x80 ≤ r) :
    0x80 ≤ lowerRune r ∨ lowerRune r = 0x69 ∨ lowerRune r = 0x6B := by
  have htable : caseRanges.all (fun e => decide (e.hi < 0x80) || decide (0x80 ≤ e.lo + e.delta) ||
      (e.lo == e.hi && (e.lo + e.delta == 0x69 || e.lo + e.delta == 0x6B))) = true := by
    decide +kernel
  simp only [lowerRune]
  split
  · rename_i e he
    have hc := List.find?_some he
    have hq := List.all_eq_true.mp htable e (List.mem_of_find?_eq_some he)
    simp only [CaseRange.covers, Bool.and_eq_true, Bool.or_eq_true, decide_eq_true_eq,
      beq_iff_eq] at hc hq
    omega
  · exact Or.inl hr

theorem lowerRune_ascii {b : UInt8} (hb : b < 0x80) : lowerRune b.toNat = (lowerByte b).toNat := by
  have htail : caseRanges.tail.all (fun e => decide (0x80 ≤ e.lo)) = true := by decide
  have hnone : caseRanges.tail.find? (·.covers b.toNat) = none := by
    rw [List.find?_eq_none]
    intro e he
    have hlo := List.all_eq_true.mp htail e he
    have hlt : b.toNat < 0x80 := UInt8.lt_iff_toNat_lt.mp hb
    simp only [decide_eq_true_eq] at hlo
    simp only [CaseRange.covers, Bool.and_eq_true, decide_eq_true_eq]
    omega
  have hsplit : caseRanges = ⟨0x41, 0x5A, 1, 32⟩ :: caseRanges.tail := rfl
  rw [lowerRune, hsplit, List.find?_cons, hnone]
  by_cases hup : 0x41 ≤ b ∧ b ≤ 0x5A
  · have h1 := UInt8.le_iff_toNat_le.mp hup.1
    have h2 := UInt8.le_iff_toNat_le.mp hup.2
    have hc : CaseRange.covers ⟨0x41, 0x5A, 1, 32⟩ b.toNat = true := by
      simp only [CaseRange.covers, Bool.and_eq_true, decide_eq_true_eq, Nat.mod_one,
        beq_self_eq_true, and_true]
      exact ⟨h1, h2⟩
    have hadd : (b + 0x20).toNat = b.toNat + 0x20 := by
      rw [UInt8.toNat_add, Nat.mod_eq_of_lt]
      · rfl
      · exact lt_of_le_of_lt (Nat.add_le_add_right h2 _) (by decide)
    simp only [hc, lowerByte, hup, and_self, if_true, hadd]
    omega
  · have hc : CaseRange.covers ⟨0x41, 0x5A, 1, 32⟩ b.toNat = false := by
      by_contra hcon
      simp only [CaseRange.covers, Bool.not_eq_false, Bool.and_eq_true, decide_eq_true_eq] at hcon
      exact hup ⟨UInt8.le_iff_toNat_le.mpr hcon.1.1, UInt8.le_iff_toNat_le.mpr hcon.1.2⟩
    simp only [hc, lowerByte, hup, if_false]

theorem encodeRune_head {r : Nat} (hr : 0x80 ≤ r) : ∃ c t, encodeRune r = c :: t ∧ ¬ c < 0x80 := by
  have hlead : ∀ n, 0x80 ≤ n → n < 0x100 → ¬ n.toUInt8 < 0x80 := by
    intro n h1 h2 hlt
    have hn := UInt8.lt_iff_toNat_lt.mp hlt
    have h80 : (0x80 : UInt8).toNat = 0x80 := rfl
    simp only [Nat.toUInt8, UInt8.toNat_ofNat', h80] at hn
    omega
  have hr' : ¬ r < 0x80 := by omega
  simp only [encodeRune, hr', if_false]
  split_ifs with h2 hbad h3
  · exact ⟨_, _, rfl, hlead _ (by omega) (by omega)⟩
  · exact ⟨_, _, rfl, by decide⟩
  · exact ⟨_, _, rfl, hlead _ (by omega) (by omega)⟩
  · exact ⟨_, _, rfl, hlead _ (by omega) (by omega)⟩

theorem toLower_of_isASCII {s : Str} (h : isASCII s = true) : toLower s = s.map lowerByte := by
  simp [toLower, h]

theorem toLower_append {s t : Str} (hs : isASCII s = true) (ht : isASCII t = true) :
    toLower (s ++ t) = toLower s ++ toLower t := by
  have happend : isASCII (s ++ t) = true := by
    rw [isASCII, List.all_append, Bool.and_eq_true]; exact ⟨hs, ht⟩
  rw [toLower_of_isASCII happend, toLower_of_isASCII hs, toLower_of_isASCII ht, List.map_append]

theorem runes_of_isASCII {s : Str} (h : isASCII s = true) : runes s = s.map UInt8.toNat := by
  rw [runes]
  induction s with
  | nil => rfl
  | cons b s ih =>
    simp only [isASCII, List.all_cons, Bool.and_eq_true, decide_eq_true_eq] at h
    rw [List.length_cons, runesUpTo, decodeRune_ascii h.1, ih h.2, List.map_cons]

theorem foldsTo_ascii {b : UInt8} (hb : b < 0x80) (c : UInt8) :
    foldsTo b.toNat c = decide (lowerByte b = lowerByte c) := by
  have hlt : b.toNat < 0x80 := UInt8.lt_iff_toNat_lt.mp hb
  have h₁ : (b.toNat == 0x212A) = false := beq_false_of_ne (by omega)
  have h₂ : (b.toNat == 0x17F) = false := beq_false_of_ne (by omega)
  simp [foldsTo, hlt, h₁, h₂, Bool.beq_eq_decide_eq]

theorem equalFold_of_isASCII {s : Str} (h : isASCII s = true) (t : Str) :
    equalFold s t = decide (s.map lowerByte = t.map lowerByte) := by
  rw [equalFold, runes_of_isASCII h]
  induction s generalizing t with
  | nil => cases t <;> simp
  | cons b s ih =>
    simp only [isASCII, List.all_cons, Bool.and_eq_true, decide_eq_true_eq] at h
    cases t with
    | nil => simp
    | cons c t =>
      have ih' := ih h.2 t
      simp only [List.map_cons, List.length_cons, List.zip_cons_cons, List.all_cons,
        foldsTo_ascii h.1, List.cons.injEq] at ih' ⊢
      rw [Bool.decide_and, ← ih']
      cases decide (lowerByte b = lowerByte c) <;> simp

/-- An ASCII text without `i` and `k` at the front of the lower cased string is
there because of ASCII letters: no other rune has a lower case in ASCII. -/
theorem isPrefix_toLower {p s : Str} (hp : ∀ b ∈ p, b < 0x80 ∧ b ≠ 0x69 ∧ b ≠ 0x6B)
    (h : p <+: toLower s) : p <+: s.map lowerByte := by
  by_cases ha : isASCII s = true
  · rwa [toLower_of_isASCII ha] at h
  · simp only [toLower, ha, runes] at h
    clear ha
    generalize s.length = n at h
    induction p generalizing s n with
    | nil => simp
    | cons b p ih =>
      obtain ⟨hb, hi, hk⟩ := hp b (by simp)
      cases n with
      | zero => simp [runesUpTo] at h
      | succ n =>
        cases s with
        | nil => simp [runesUpTo] at h
        | cons c s =>
          simp only [runesUpTo, List.flatMap_cons] at h
          by_cases hc : c < 0x80
          · rw [decodeRune_ascii hc, lowerRune_ascii hc] at h
            have hl : (lowerByte c).toNat < 0x80 := by
              have hall : ∀ n < 0x80, (lowerByte (UInt8.ofNat n)).toNat < 0x80 := by decide +kernel
              simpa using hall c.toNat (UInt8.lt_iff_toNat_lt.mp hc)
            simp only [encodeRune, hl, if_true, List.singleton_append] at h
            obtain ⟨hbc, ht⟩ := List.cons_prefix_cons.mp h
            have hbl : b = lowerByte c := by simpa [Nat.toUInt8] using hbc
            rw [List.map_cons, ← hbl, List.cons_prefix_cons]
            exact ⟨rfl, ih (fun x hx => hp x (by simp [hx])) n ht⟩
          · exfalso
            rcases lowerRune_nonASCII (decodeRune_nonASCII hc s) with hge | hei | hek
            · obtain ⟨x, t, hx, hnx⟩ := encodeRune_head hge
              rw [hx, List.cons_append] at h
              exact hnx ((List.cons_prefix_cons.mp h).1 ▸ hb)
            · rw [hei] at h
              exact hi (List.cons_prefix_cons.mp h).1
            · rw [hek] at h
              exact hk (List.cons_prefix_cons.mp h).1

theorem encodeRune_lowerRune {b : UInt8} (hb : b < 0x80) :
    encodeRune (lowerRune b.toNat) = [lowerByte b] := by
  have hall : ∀ n < 0x80, (lowerByte (UInt8.ofNat n)).toNat < 0x80 := by decide +kernel
  have hl : (lowerByte b).toNat < 0x80 := by simpa using hall b.toNat (UInt8.lt_iff_toNat_lt.mp hb)
  rw [lowerRune_ascii hb, encodeRune, if_pos hl]
  simp [Nat.toUInt8]

theorem isPrefix_toLower_append {p : Str} (hp : ∀ b ∈ p, b < 0x80) (s : Str) :
    p.map lowerByte <+: toLower (p ++ s) := by
  rw [toLower]
  split_ifs with ha
  · rw [List.map_append]
    exact List.prefix_append _ _
  · rw [runes, List.length_append]
    clear ha
    generalize s.length = n
    induction p with
    | nil => exact List.nil_prefix
    | cons b p ih =>
      rw [List.forall_mem_cons] at hp
      rw [List.length_cons, Nat.add_right_comm, List.cons_append, runesUpTo, decodeRune_ascii hp.1,
        List.flatMap_cons, encodeRune_lowerRune hp.1, List.map_cons, List.singleton_append,
        List.cons_prefix_cons]
      exact ⟨rfl, ih hp.2⟩

theorem isTail_ascii {a : UInt8} (ha : a < 0x80) : isTail a = false := by
  rw [isTail, Bool.and_eq_false_iff]
  left
  rw [decide_eq_false_iff_not, UInt8.not_le]
  exact ha

/-- An ASCII byte is never part of the encoding of a rune before it. -/
theorem decodeRune_append {a : UInt8} (ha : a < 0x80) (b : UInt8) (t s : Str) :
    decodeRune b (t ++ a :: s) = ((decodeRune b t).1, (decodeRune b t).2 ++ a :: s) := by
  have htail := isTail_ascii ha
  by_cases hb : b < 0x80
  · rw [decodeRune_ascii hb, decodeRune_ascii hb]
  rcases t with _ | ⟨c, _ | ⟨d, _ | ⟨e, t⟩⟩⟩
  · rcases s with _ | ⟨x, _ | ⟨y, s⟩⟩ <;> simp [decodeRune, hb, htail]
  · rcases s with _ | ⟨x, s⟩ <;> simp [decodeRune, hb, htail] <;> split_ifs <;> rfl
  · simp [decodeRune, hb, htail]
    split_ifs <;> rfl
  · simp only [decodeRune, hb, if_false, List.cons_append]
    split_ifs <;> rfl

theorem decodeRune_length (b : UInt8) (t : Str) : (decodeRune b t).2.length ≤ t.length := by
  by_cases hb : b < 0x80
  · rw [decodeRune_ascii hb]
  · rcases t with _ | ⟨c, _ | ⟨d, _ | ⟨e, t⟩⟩⟩ <;> simp only [decodeRune, hb,
      if_false] <;> (try split_ifs) <;>
      simp only [List.length_cons, List.length_nil] <;> omega

theorem runesUpTo_ascii {s : Str} (hs : isASCII s = true) {n : Nat} (hn : s.length ≤ n) :
    runesUpTo n s = s.map UInt8.toNat := by
  induction s generalizing n with
  | nil => cases n <;> rfl
  | cons b s ih =>
    obtain ⟨n, rfl⟩ :=
      Nat.exists_eq_add_one_of_ne_zero (Nat.ne_of_gt (Nat.lt_of_lt_of_le (Nat.succ_pos _) hn))
    simp only [isASCII, List.all_cons, Bool.and_eq_true, decide_eq_true_eq] at hs
    rw [runesUpTo, decodeRune_ascii hs.1, ih hs.2 (Nat.le_of_succ_le_succ hn), List.map_cons]

theorem runesUpTo_append {a : UInt8} {s : Str} (hs : isASCII (a :: s) = true) {n m : Nat} {t : Str}
    (hn : (t ++ a :: s).length ≤ n) (hm : t.length ≤ m) :
    runesUpTo n (t ++ a :: s) = runesUpTo m t ++ (a :: s).map UInt8.toNat := by
  have ha : a < 0x80 := by
    rw [isASCII, List.all_cons, Bool.and_eq_true, decide_eq_true_eq] at hs
    exact hs.1
  induction n generalizing m t with
  | zero => simp at hn
  | succ n ih =>
    cases t with
    | nil =>
      rw [List.nil_append, runesUpTo_ascii hs hn]
      cases m <;> rfl
    | cons b t =>
      obtain ⟨m, rfl⟩ :=
        Nat.exists_eq_add_one_of_ne_zero (Nat.ne_of_gt (Nat.lt_of_lt_of_le (Nat.succ_pos _) hm))
      have hlen := decodeRune_length b t
      rw [List.cons_append, runesUpTo, decodeRune_append ha, runesUpTo, List.cons_append, ih]
      · rw [List.length_append] at hn ⊢
        rw [List.length_cons] at hn
        omega
      · rw [List.length_cons] at hm
        omega

theorem toLower_append_ascii (s : Str) {t : Str} (ht : isASCII t = true) :
    toLower (s ++ t) = toLower s ++ t.map lowerByte := by
  cases t with
  | nil => rw [List.append_nil, List.map_nil, List.append_nil]
  | cons a t =>
    by_cases hs : isASCII s = true
    · rw [toLower_append hs ht, toLower_of_isASCII ht]
    · have hst : ¬ isASCII (s ++ a :: t) = true := by
        rw [isASCII, List.all_append, Bool.and_eq_true]
        exact fun h => hs h.1
      rw [toLower, toLower, if_neg hst, if_neg hs, runes, runes,
        runesUpTo_append ht (Nat.le_refl _) (Nat.le_refl _), List.flatMap_append, List.flatMap_map,
        ← List.flatMap_pure_eq_map]
      rw [isASCII, List.all_eq_true] at ht
      refine congrArg _ (List.flatMap_congr fun b hb => ?_)
      exact encodeRune_lowerRune (of_decide_eq_true (ht b hb))

end GoStd.Unicode
