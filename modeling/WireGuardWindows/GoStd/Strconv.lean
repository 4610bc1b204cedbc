import WireGuardWindows.GoStd.Strings

/-!
# Decimal numbers of the `strconv` package

`parseUint` and `atoi` reject at the first byte that is not a digit, or as soon as
the value read so far is too large, whichever comes first. The size of `int` is that of the
machine; it only bounds the numbers read (`atoi_ok_iff`).
-/

namespace GoStd.Strconv
open Strings

inductive NumErr
  | invalidSyntax
  | outOfRange
  deriving DecidableEq, Repr

inductive IntSize
  | int32 | int64
  deriving DecidableEq

def IntSize.bits : IntSize → Nat
  | .int32 => 32
  | .int64 => 64

def isDigit (b : UInt8) : Bool := 0x30 ≤ b && b ≤ 0x39

def digitValue (b : UInt8) : Nat := b.toNat - 0x30

def parseUintLoop (maxVal : Nat) : Nat → Str → Except NumErr Nat
  | n, [] => .ok n
  | n, b :: t =>
    if isDigit b then
      if maxVal < n * 10 + digitValue b then .error .outOfRange
      else parseUintLoop maxVal (n * 10 + digitValue b) t
    else .error .invalidSyntax

def parseUint (s : Str) (bitSize : Nat) : Except NumErr Nat :=
  if s = [] then .error .invalidSyntax else parseUintLoop (2 ^ bitSize - 1) 0 s

/-- `strconv.Atoi` is `ParseInt` in base ten: one optional sign, then digits. -/
def atoi (size : IntSize) (s : Str) : Except NumErr Int :=
  match s with
  | [] => .error .invalidSyntax
  | b :: t =>
    let digits := if b = 0x2B ∨ b = 0x2D then t else s
    match parseUint digits size.bits with
    | .error e => .error e
    | .ok un =>
      if b = 0x2D then
        if 2 ^ (size.bits - 1) < un then .error .outOfRange else .ok (-(un : Int))
      else if 2 ^ (size.bits - 1) ≤ un then .error .outOfRange else .ok un

def itoa (n : Nat) : Str := (Nat.toDigits 10 n).map Char.toUInt8

theorem itoa_ne_nil (n : Nat) : itoa n ≠ [] := by
  simp [itoa]

theorem itoa_of_lt {n : Nat} (h : n < 10) : itoa n = [(Nat.digitChar n).toUInt8] := by
  simp [itoa, Nat.toDigits_of_lt_base h]

theorem itoa_of_ge {n : Nat} (h : 10 ≤ n) :
    itoa n = itoa (n / 10) ++ [(Nat.digitChar (n % 10)).toUInt8] := by
  simp [itoa, Nat.toDigits_of_base_le (by decide : 1 < 10) h]

theorem digitChar_isDigit {d : Nat} (h : d < 10) :
    isDigit (Nat.digitChar d).toUInt8 = true ∧ digitValue (Nat.digitChar d).toUInt8 = d := by
  have hall : ∀ d < 10, isDigit (Nat.digitChar d).toUInt8 = true ∧
      digitValue (Nat.digitChar d).toUInt8 = d := by decide
  exact hall d h

theorem isDigit_of_mem_itoa {n : Nat} {b : UInt8} (h : b ∈ itoa n) : isDigit b = true := by
  induction n using Nat.strong_induction_on with
  | _ n ih =>
    by_cases hn : n < 10
    · rw [itoa_of_lt hn, List.mem_singleton] at h
      exact h ▸ (digitChar_isDigit hn).1
    · rw [itoa_of_ge (by omega), List.mem_append, List.mem_singleton] at h
      rcases h with h | h
      · exact ih (n / 10) (by omega) h
      · exact h ▸ (digitChar_isDigit (Nat.mod_lt n (by decide))).1

theorem parseUintLoop_itoa {maxVal n : Nat} (h : n ≤ maxVal) (t : Str) :
    parseUintLoop maxVal 0 (itoa n ++ t) = parseUintLoop maxVal n t := by
  induction n using Nat.strong_induction_on generalizing t with
  | _ n ih =>
    by_cases hn : n < 10
    · obtain ⟨hd, hv⟩ := digitChar_isDigit hn
      simp [itoa_of_lt hn, parseUintLoop, hd, hv, Nat.not_lt.mpr h]
    · obtain ⟨hd, hv⟩ := digitChar_isDigit (Nat.mod_lt n (by decide : 0 < 10))
      have hdiv : n / 10 * 10 + n % 10 = n := by omega
      rw [itoa_of_ge (by omega), List.append_assoc, ih (n / 10) (by omega) (by omega)]
      simp [parseUintLoop, hd, hv, hdiv, Nat.not_lt.mpr h]

theorem parseUint_itoa {n bits : Nat} (h : n < 2 ^ bits) : parseUint (itoa n) bits = .ok n := by
  have hl := parseUintLoop_itoa (show n ≤ 2 ^ bits - 1 by omega) []
  rw [List.append_nil] at hl
  simp [parseUint, itoa_ne_nil, hl, parseUintLoop]

theorem itoa_injective : Function.Injective itoa := by
  intro m n h
  have hbits : ∀ k, k < 2 ^ k := fun k => Nat.lt_two_pow_self
  have hm : parseUint (itoa m) (m + n) = .ok m := parseUint_itoa (lt_of_lt_of_le (hbits m)
    (Nat.pow_le_pow_right (by decide) (Nat.le_add_right m n)))
  have hn : parseUint (itoa n) (m + n) = .ok n := parseUint_itoa (lt_of_lt_of_le (hbits n)
    (Nat.pow_le_pow_right (by decide) (Nat.le_add_left n m)))
  rw [h, hn] at hm
  exact (Except.ok.inj hm).symm

def decimal (digits : Str) : Nat := digits.foldl (fun n b => n * 10 + digitValue b) 0

theorem decimal_concat (o : Str) (c : UInt8) :
    decimal (o ++ [c]) = decimal o * 10 + digitValue c := by
  rw [decimal, List.foldl_append]
  rfl

theorem decimal_append_ge (o u : Str) : decimal o ≤ decimal (o ++ u) := by
  induction u using List.reverseRecOn with
  | nil => rw [List.append_nil]
  | append_singleton u c ih =>
    rw [← List.append_assoc, decimal_concat]
    omega

theorem parseUintLoop_ok_iff {maxVal n m : Nat} {s : Str} (hn : n ≤ maxVal) :
    parseUintLoop maxVal n s = .ok m ↔ (∀ b ∈ s, isDigit b = true) ∧
      s.foldl (fun n b => n * 10 + digitValue b) n = m ∧ m ≤ maxVal := by
  have hmono (t : Str) (k : Nat) : k ≤ t.foldl (fun n b => n * 10 + digitValue b) k := by
    induction t generalizing k with
    | nil => exact le_rfl
    | cons b t ih => exact le_trans (by omega) (ih (k * 10 + digitValue b))
  induction s generalizing n with
  | nil =>
    refine ⟨fun h => ?_, fun h => congrArg Except.ok h.2.1⟩
    cases h
    exact ⟨by simp, rfl, hn⟩
  | cons b t ih =>
    rw [parseUintLoop, List.forall_mem_cons, List.foldl_cons]
    by_cases hdigit : isDigit b = true
    · rw [if_pos hdigit]
      by_cases hlarge : maxVal < n * 10 + digitValue b
      · have hle := hmono t (n * 10 + digitValue b)
        rw [if_pos hlarge]
        exact iff_of_false nofun fun h => by omega
      · rw [if_neg hlarge, and_iff_right hdigit]
        exact ih (Nat.not_lt.mp hlarge)
    · rw [if_neg hdigit]
      exact iff_of_false nofun fun h => hdigit h.1.1

theorem parseUint_ok_iff {s : Str} {bits m : Nat} : parseUint s bits = .ok m ↔
    s ≠ [] ∧ (∀ b ∈ s, isDigit b = true) ∧ decimal s = m ∧ m < 2 ^ bits := by
  rw [parseUint, ← Nat.le_sub_one_iff_lt (Nat.two_pow_pos bits)]
  by_cases hs : s = []
  · rw [if_pos hs]
    exact iff_of_false nofun fun h => h.1 hs
  · rw [if_neg hs, parseUintLoop_ok_iff (Nat.zero_le _), and_iff_right hs, decimal]

theorem atoi_ok_iff {size : IntSize} {s : Str} {n : Int} : atoi size s = .ok n ↔
    ∃ b t digits, s = b :: t ∧ digits = (if b = 0x2B ∨ b = 0x2D then t else s) ∧ digits ≠ [] ∧
      (∀ c ∈ digits, isDigit c = true) ∧
      n = (if b = 0x2D then -(decimal digits : Int) else decimal digits) ∧
      -((2 ^ (size.bits - 1) : Nat) : Int) ≤ n ∧ n < (2 ^ (size.bits - 1) : Nat) := by
  have hpow : 0 < 2 ^ (size.bits - 1) ∧ 2 ^ (size.bits - 1) < 2 ^ size.bits := by
    cases size <;> decide
  cases s with
  | nil => simp [atoi]
  | cons b t =>
    simp only [atoi]
    constructor
    · intro h
      cases hread : parseUint (if b = 0x2B ∨ b = 0x2D then t else b :: t) size.bits with
      | error e => simp [hread] at h
      | ok un =>
        obtain ⟨hne, hdigits, rfl, -⟩ := parseUint_ok_iff.mp hread
        rw [hread] at h
        dsimp only at h
        refine ⟨b, t, _, rfl, rfl, hne, hdigits, ?_⟩
        split_ifs at h ⊢
        all_goals
          obtain rfl := Except.ok.inj h
          omega
    · rintro ⟨b', t', digits, heq, hd, hne, hdigits, hn, hlow, hhigh⟩
      cases heq
      have hlt : decimal digits < 2 ^ size.bits := by split_ifs at hn <;> omega
      rw [← hd, parseUint_ok_iff.mpr ⟨hne, hdigits, rfl, hlt⟩]
      dsimp only
      split_ifs at hn ⊢
      all_goals first | omega | rw [hn]

theorem atoi_digits {size : IntSize} {s : Str} {n : Int} (hne : s ≠ [])
    (h : ∀ b ∈ s, isDigit b = true) :
    atoi size s = .ok n ↔ n = decimal s ∧ decimal s < 2 ^ (size.bits - 1) := by
  obtain ⟨b, t, rfl⟩ := List.exists_cons_of_ne_nil hne
  have hdigit := h b List.mem_cons_self
  have hplus : b ≠ 0x2B := by rintro rfl; exact absurd hdigit (by decide)
  have hminus : b ≠ 0x2D := by rintro rfl; exact absurd hdigit (by decide)
  rw [atoi_ok_iff]
  constructor
  · rintro ⟨b', t', digits, heq, rfl, -, -, hn, -, hhigh⟩
    cases heq
    rw [if_neg (not_or.mpr ⟨hplus, hminus⟩), if_neg hminus] at hn
    exact ⟨hn, by omega⟩
  · rintro ⟨rfl, hlt⟩
    refine ⟨b, t, b :: t, rfl, ?_, hne, h, ?_, by omega, by omega⟩
    · rw [if_neg (not_or.mpr ⟨hplus, hminus⟩)]
    · rw [if_neg hminus]

theorem atoi_itoa {size : IntSize} {n : Nat} (h : n < 2 ^ 31) : atoi size (itoa n) = .ok n := by
  obtain ⟨b, t, hbt⟩ := List.exists_cons_of_ne_nil (itoa_ne_nil n)
  have hd : isDigit b = true := isDigit_of_mem_itoa (n := n) (by simp [hbt])
  have hp : b ≠ 0x2B := by rintro rfl; exact absurd hd (by decide)
  have hm : b ≠ 0x2D := by rintro rfl; exact absurd hd (by decide)
  have hpow : (2 : Nat) ^ 31 ≤ 2 ^ (size.bits - 1) ∧ (2 : Nat) ^ 31 ≤ 2 ^ size.bits := by
    cases size <;> decide
  have hu := parseUint_itoa (show n < 2 ^ size.bits by omega)
  rw [hbt] at hu ⊢
  have hlt : ¬ 2 ^ (size.bits - 1) ≤ n := by omega
  simp only [atoi, hp, hm, or_self, if_false, hu, hlt]

end GoStd.Strconv
