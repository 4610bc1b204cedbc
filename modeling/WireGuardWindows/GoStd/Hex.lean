import WireGuardWindows.GoStd.NetipText

/-!
# The `encoding/hex` package

Encoding uses lower-case digits; decoding accepts both cases and an even number of digits.
-/

namespace GoStd.Hex

open Netip

def digit (n : Nat) : UInt8 := (Nat.digitChar n).toUInt8

def encodeToString (bs : List UInt8) : Str :=
  bs.flatMap fun b => [digit (b.toNat / 16), digit (b.toNat % 16)]

inductive DecodeError
  | invalidByte (b : UInt8)
  | oddLength
  deriving DecidableEq

def quotedRune (b : UInt8) : String :=
  let hex (n : Nat) : Char := (Nat.digitChar n).toUpper
  let point := String.ofList ['U', '+', '0', '0', hex (b.toNat / 16), hex (b.toNat % 16)]
  let graphic := (0x20 ≤ b ∧ b < 0x7F) ∨ (0xA1 ≤ b ∧ b ≠ 0xAD)
  if graphic then point ++ " '" ++ String.singleton (Char.ofNat b.toNat) ++ "'" else point

example : quotedRune 0x67 = "U+0067 'g'" := by decide

/-- A digit that is no digit is reported before the missing half of the last byte. -/
def decodeString : Str → Except DecodeError (List UInt8)
  | [] => .ok []
  | [a] => match hexValue a with
    | none => .error (.invalidByte a)
    | some _ => .error .oddLength
  | a :: b :: t => match hexValue a, hexValue b with
    | none, _ => .error (.invalidByte a)
    | some _, none => .error (.invalidByte b)
    | some x, some y => do return (x * 16 + y).toUInt8 :: (← decodeString t)

theorem hexValue_digit {n : Nat} (h : n < 16) : hexValue (digit n) = some n := hexValue_digitChar h

theorem decodeString_encodeToString (bs : List UInt8) :
    decodeString (encodeToString bs) = .ok bs := by
  induction bs with
  | nil => rfl
  | cons b bs ih =>
    have hlt := b.toNat_lt
    have hbyte : (b.toNat / 16 * 16 + b.toNat % 16).toUInt8 = b := by
      rw [Nat.div_add_mod']
      exact UInt8.ofNat_toNat
    change decodeString (digit (b.toNat / 16) :: digit (b.toNat % 16) :: encodeToString bs) = _
    rw [decodeString, hexValue_digit (by omega), hexValue_digit (by omega), ih]
    change Except.ok ((b.toNat / 16 * 16 + b.toNat % 16).toUInt8 :: bs) = _
    rw [hbyte]

theorem isHex_of_mem_encodeToString {bs : List UInt8} {b : UInt8} (h : b ∈ encodeToString bs) :
    isHex b = true := by
  obtain ⟨x, -, hb⟩ := List.mem_flatMap.mp h
  have hlt := x.toNat_lt
  have hdigit : ∀ n < 16, isHex (digit n) = true := fun n hn => by
    rw [isHex, hexValue_digit hn]
    rfl
  rcases List.mem_cons.mp hb with rfl | hb
  · exact hdigit _ (by omega)
  · rw [List.mem_singleton.mp hb]
    exact hdigit _ (by omega)

end GoStd.Hex
