import WireGuardWindows.GoStd.Strings

/-!
# The standard base64 encoding

`decodeString` follows the quantum decoder of `encoding/base64`: line breaks are
skipped anywhere, padding is mandatory and ends the input, and unused low bits of
the last quantum are ignored. An error carries the offset that
`CorruptInputError` reports, so every byte travels with its position.
-/

namespace GoStd.Base64

def encodeStd : Str :=
  str "ABCDEFGHIJKLMNOPQRSTUVWXYZabcdefghijklmnopqrstuvwxyz0123456789+/"

def pad : UInt8 := 0x3D

def encodeDigit (n : Nat) : UInt8 := encodeStd.getD n 0

def decodeMap (b : UInt8) : Option Nat := encodeStd.findIdx? (· == b)

def encodeToString : List UInt8 → Str
  | [] => []
  | [a] => [encodeDigit (a.toNat / 4), encodeDigit (a.toNat % 4 * 16), pad, pad]
  | [a, b] => [encodeDigit (a.toNat / 4), encodeDigit (a.toNat % 4 * 16 + b.toNat / 16),
      encodeDigit (b.toNat % 16 * 4), pad]
  | a :: b :: c :: t => [encodeDigit (a.toNat / 4), encodeDigit (a.toNat % 4 * 16 + b.toNat / 16),
      encodeDigit (b.toNat % 16 * 4 + c.toNat / 64), encodeDigit (c.toNat % 64)] ++
      encodeToString t

def byte0 (x₀ x₁ : Nat) : UInt8 := (x₀ * 4 + x₁ / 16).toUInt8
def byte1 (x₁ x₂ : Nat) : UInt8 := (x₁ % 16 * 16 + x₂ / 4).toUInt8
def byte2 (x₂ x₃ : Nat) : UInt8 := (x₂ % 4 * 64 + x₃).toUInt8

def finish (out : List UInt8) : List (UInt8 × Nat) → Except Nat (List UInt8)
  | [] => .ok out
  | (_, i) :: _ => .error i

def decodeQuanta (len : Nat) : List (UInt8 × Nat) → Except Nat (List UInt8)
  | [] => .ok []
  | (a, ia) :: r₁ =>
    match decodeMap a with
    | none => .error ia
    | some x₀ =>
      match r₁ with
      | [] => .error (len - 1)
      | (b, ib) :: r₂ =>
        match decodeMap b with
        | none => .error ib
        | some x₁ =>
          match r₂ with
          | [] => .error (len - 2)
          | (c, ic) :: r₃ =>
            match decodeMap c with
            | none =>
              if c = pad then
                match r₃ with
                | [] => .error len
                | (d, id) :: r₄ =>
                  if d = pad then finish [byte0 x₀ x₁] r₄ else .error (id - 1)
              else .error ic
            | some x₂ =>
              match r₃ with
              | [] => .error (len - 3)
              | (d, id) :: r₄ =>
                match decodeMap d with
                | none =>
                  if d = pad then finish [byte0 x₀ x₁, byte1 x₁ x₂] r₄ else .error id
                | some x₃ =>
                  (decodeQuanta len r₄).map ([byte0 x₀ x₁, byte1 x₁ x₂, byte2 x₂ x₃] ++ ·)

def decodeString (s : Str) : Except Nat (List UInt8) :=
  decodeQuanta s.length (s.zipIdx.filter fun p => p.1 != 0x0A && p.1 != 0x0D)

theorem decodeMap_encodeDigit {n : Nat} (h : n < 64) : decodeMap (encodeDigit n) = some n := by
  have hall : ∀ n < 64, decodeMap (encodeDigit n) = some n := by decide +kernel
  exact hall n h

theorem decodeMap_pad : decodeMap pad = none := by decide +kernel

theorem toUInt8_eq {a : UInt8} {n : Nat} (h : n = a.toNat) : n.toUInt8 = a := by
  subst h
  simp [Nat.toUInt8]

theorem decodeQuanta_encode (k : List UInt8) (len i : Nat) :
    decodeQuanta len ((encodeToString k).zipIdx i) = .ok k := by
  induction k using encodeToString.induct generalizing i with
  | case1 => rfl
  | case2 a =>
    have ha := a.toNat_lt
    have h0 : byte0 (a.toNat / 4) (a.toNat % 4 * 16) = a := toUInt8_eq (by omega)
    simp only [encodeToString, List.zipIdx_cons, decodeQuanta]
    rw [decodeMap_encodeDigit (by omega), decodeMap_encodeDigit (by omega)]
    simp [decodeMap_pad, finish, h0]
  | case3 a b =>
    have ha := a.toNat_lt
    have hb := b.toNat_lt
    have h0 : byte0 (a.toNat / 4) (a.toNat % 4 * 16 + b.toNat / 16) = a := toUInt8_eq (by omega)
    have h1 : byte1 (a.toNat % 4 * 16 + b.toNat / 16) (b.toNat % 16 * 4) = b :=
      toUInt8_eq (by omega)
    simp only [encodeToString, List.zipIdx_cons, decodeQuanta]
    rw [decodeMap_encodeDigit (by omega), decodeMap_encodeDigit (by omega),
      decodeMap_encodeDigit (by omega)]
    simp [decodeMap_pad, finish, h0, h1]
  | case4 a b c t ih =>
    have ha := a.toNat_lt
    have hb := b.toNat_lt
    have hc := c.toNat_lt
    have h0 : byte0 (a.toNat / 4) (a.toNat % 4 * 16 + b.toNat / 16) = a := toUInt8_eq (by omega)
    have h1 : byte1 (a.toNat % 4 * 16 + b.toNat / 16) (b.toNat % 16 * 4 + c.toNat / 64) = b :=
      toUInt8_eq (by omega)
    have h2 : byte2 (b.toNat % 16 * 4 + c.toNat / 64) (c.toNat % 64) = c := toUInt8_eq (by omega)
    simp only [encodeToString, List.cons_append, List.nil_append, List.zipIdx_cons, decodeQuanta]
    rw [decodeMap_encodeDigit (by omega), decodeMap_encodeDigit (by omega),
      decodeMap_encodeDigit (by omega), decodeMap_encodeDigit (by omega), ih]
    simp [Except.map, h0, h1, h2]

theorem encodeDigit_graphic {n : Nat} (h : n < 64) :
    0x2B ≤ encodeDigit n ∧ encodeDigit n < 0x7B := by
  have hall : ∀ n < 64, 0x2B ≤ encodeDigit n ∧ encodeDigit n < 0x7B := by decide +kernel
  exact hall n h

theorem encodeToString_graphic (k : List UInt8) : ∀ b ∈ encodeToString k, 0x2B ≤ b ∧ b < 0x7B := by
  have hpad : 0x2B ≤ pad ∧ pad < 0x7B := by decide
  induction k using encodeToString.induct with
  | case1 => simp [encodeToString]
  | case2 a =>
    have ha := a.toNat_lt
    intro x hx
    simp only [encodeToString, List.mem_cons, List.not_mem_nil, or_false] at hx
    rcases hx with rfl | rfl | rfl | rfl
    · exact encodeDigit_graphic (by omega)
    · exact encodeDigit_graphic (by omega)
    · exact hpad
    · exact hpad
  | case3 a b =>
    have ha := a.toNat_lt
    have hb := b.toNat_lt
    intro x hx
    simp only [encodeToString, List.mem_cons, List.not_mem_nil, or_false] at hx
    rcases hx with rfl | rfl | rfl | rfl
    · exact encodeDigit_graphic (by omega)
    · exact encodeDigit_graphic (by omega)
    · exact encodeDigit_graphic (by omega)
    · exact hpad
  | case4 a b c t ih =>
    have ha := a.toNat_lt
    have hb := b.toNat_lt
    have hc := c.toNat_lt
    intro x hx
    simp only [encodeToString, List.cons_append, List.nil_append, List.mem_cons] at hx
    rcases hx with rfl | rfl | rfl | rfl | hx
    · exact encodeDigit_graphic (by omega)
    · exact encodeDigit_graphic (by omega)
    · exact encodeDigit_graphic (by omega)
    · exact encodeDigit_graphic (by omega)
    · exact ih x hx

theorem decodeString_encodeToString (k : List UInt8) : decodeString (encodeToString k) = .ok k := by
  have hf : (encodeToString k).zipIdx.filter (fun p => p.1 != 0x0A && p.1 != 0x0D) =
      (encodeToString k).zipIdx := by
    rw [List.filter_eq_self]
    rintro ⟨b, i⟩ hb
    have hg := (encodeToString_graphic k b (List.fst_mem_of_mem_zipIdx hb)).1
    have h1 : b ≠ 0x0A := by rintro rfl; exact absurd hg (by decide)
    have h2 : b ≠ 0x0D := by rintro rfl; exact absurd hg (by decide)
    simp [h1, h2]
  rw [decodeString, hf, decodeQuanta_encode]

end GoStd.Base64
