import WireGuardWindows.GoStd.Strconv

/-!
# Addresses and prefixes of the `net/netip` package

`Addr.zero` is the invalid zero value. An IPv6 address with an empty zone has no
zone. The text parsers follow the scanning loops of the package, including the
rejected forms: octets with leading zeros, a second `::`, a `::` that stands for
no group, and signs or leading zeros in a prefix length.
-/

namespace GoStd.Netip
open Strings Strconv

inductive Addr
  | zero
  | v4 (a : BitVec 32)
  | v6 (a : BitVec 128) (zone : Str)
  deriving DecidableEq, Repr

namespace Addr

def is4 : Addr → Bool
  | v4 _ => true
  | _ => false

def is6 : Addr → Bool
  | v6 _ _ => true
  | _ => false

def bitLen : Addr → Nat
  | zero => 0
  | v4 _ => 32
  | v6 _ _ => 128

def withoutZone : Addr → Addr
  | v6 a _ => v6 a []
  | ip => ip

def number : Addr → Nat
  | zero => 0
  | v4 a => a.toNat
  | v6 a _ => a.toNat

def zone : Addr → Str
  | v6 _ zone => zone
  | _ => []

def less (ip ip2 : Addr) : Bool :=
  if ip.bitLen ≠ ip2.bitLen then ip.bitLen < ip2.bitLen
  else if ip.number ≠ ip2.number then ip.number < ip2.number
  else ip.is6 && bytesLess ip.zone ip2.zone

end Addr

def octets (a : BitVec 32) : List Nat :=
  [a.toNat / 16777216, a.toNat / 65536 % 256, a.toNat / 256 % 256, a.toNat % 256]

def ofOctets (l : List Nat) : BitVec 32 := BitVec.ofNat 32 (l.foldl (fun acc o => acc * 256 + o) 0)

def groups (a : BitVec 128) : List Nat :=
  [a.toNat / 2 ^ 112, a.toNat / 2 ^ 96 % 65536, a.toNat / 2 ^ 80 % 65536, a.toNat / 2 ^ 64 % 65536,
    a.toNat / 2 ^ 48 % 65536, a.toNat / 2 ^ 32 % 65536, a.toNat / 2 ^ 16 % 65536, a.toNat % 65536]

def ofGroups (l : List Nat) : BitVec 128 :=
  BitVec.ofNat 128 (l.foldl (fun acc g => acc * 65536 + g) 0)

/-- The loop of `parseIPv4Fields`. No digit of the current octet has been read
exactly at the start of the text and right after a dot. -/
def ipv4Loop : Str → List Nat → Nat → Nat → Option (List Nat)
  | [], fields, val, _ => if fields.length < 3 then none else some (fields ++ [val])
  | b :: t, fields, val, digLen =>
    if isDigit b then
      if digLen = 1 ∧ val = 0 then none
      else if 255 < val * 10 + digitValue b then none
      else ipv4Loop t fields (val * 10 + digitValue b) (digLen + 1)
    else if b = dot then
      if digLen = 0 ∨ t = [] then none
      else if fields.length = 3 then none
      else ipv4Loop t (fields ++ [val]) 0 0
    else none

def parseIPv4Fields (s : Str) : Option (List Nat) := ipv4Loop s [] 0 0

def parseIPv4 (s : Str) : Option Addr := (parseIPv4Fields s).map fun f => .v4 (ofOctets f)

def hexValue (b : UInt8) : Option Nat :=
  if 0x30 ≤ b ∧ b ≤ 0x39 then some (b.toNat - 0x30)
  else if 0x61 ≤ b ∧ b ≤ 0x66 then some (b.toNat - 0x61 + 10)
  else if 0x41 ≤ b ∧ b ≤ 0x46 then some (b.toNat - 0x41 + 10)
  else none

def isHex (b : UInt8) : Bool := (hexValue b).isSome

def hexNumber (s : Str) : Nat := s.foldl (fun acc b => acc * 16 + (hexValue b).getD 0) 0

/-- The loop of `parseIPv6`, with room for `n` more groups: the unread text, the
groups read and the position of the ellipsis. -/
def ipv6Loop : Nat → Str → List Nat → Option Nat → Option (Str × List Nat × Option Nat)
  | 0, s, gs, ellipsis => some (s, gs, ellipsis)
  | n + 1, s, gs, ellipsis =>
    let digits := s.takeWhile isHex
    let gs' := gs ++ [hexNumber digits]
    if digits = [] ∨ 4 < digits.length then none
    else match s.dropWhile isHex with
      | [] => some ([], gs', ellipsis)
      | b :: t =>
        if b = dot then
          if ellipsis = none ∧ gs.length ≠ 6 then none
          else if 8 < gs.length + 2 then none
          else match parseIPv4Fields s with
            | some [f₀, f₁, f₂, f₃] => some ([], gs ++ [f₀ * 256 + f₁, f₂ * 256 + f₃], ellipsis)
            | _ => none
        else if b ≠ colon then none
        else match t with
          | [] => none
          | c :: u =>
            if c = colon then
              if ellipsis.isSome then none
              else if u = [] then some ([], gs', some gs'.length)
              else ipv6Loop n u gs' (some gs'.length)
            else ipv6Loop n t gs' ellipsis

def expand (zone : Str) : Option (Str × List Nat × Option Nat) → Option Addr
  | some ([], gs, ellipsis) =>
    if gs.length < 8 then
      match ellipsis with
      | none => none
      | some k =>
        some (.v6 (ofGroups (gs.take k ++ List.replicate (8 - gs.length) 0 ++ gs.drop k)) zone)
    else if ellipsis.isSome then none
    else some (.v6 (ofGroups gs) zone)
  | _ => none

def parseIPv6Body (s zone : Str) : Option Addr :=
  match s with
  | b :: c :: t =>
    if b = colon ∧ c = colon then
      if t = [] then some (.v6 0 zone) else expand zone (ipv6Loop 8 t [] (some 0))
    else expand zone (ipv6Loop 8 s [] none)
  | _ => expand zone (ipv6Loop 8 s [] none)

def parseIPv6 (s : Str) : Option Addr :=
  match cut s percent with
  | (_, [], true) => none
  | (body, zone, _) => parseIPv6Body body zone

def isAddrMark (b : UInt8) : Bool := b == dot || b == colon || b == percent

def parseAddr (s : Str) : Option Addr :=
  match s.find? isAddrMark with
  | some b => if b = dot then parseIPv4 s else if b = colon then parseIPv6 s else none
  | none => none

def string4 (a : BitVec 32) : Str := [dot].intercalate ((octets a).map itoa)

def hexString (n : Nat) : Str := (Nat.toDigits 16 n).map Char.toUInt8

def zeroPrefixLen (gs : List Nat) : Nat := (gs.takeWhile (· == 0)).length

def zeroRun (gs : List Nat) : Option (Nat × Nat) :=
  (List.range 8).foldl (fun best i =>
    let l := zeroPrefixLen (gs.drop i)
    if 2 ≤ l ∧ (best.map (·.2)).getD 0 < l then some (i, l) else best) none

def string6 (a : BitVec 128) : Str :=
  let gs := groups a
  match zeroRun gs with
  | none => [colon].intercalate (gs.map hexString)
  | some (i, l) => [colon].intercalate ((gs.take i).map hexString) ++ [colon, colon] ++
      [colon].intercalate ((gs.drop (i + l)).map hexString)

def is4In6 (a : BitVec 128) : Bool := a.toNat / 2 ^ 32 == 0xFFFF

def zoneSuffix (zone : Str) : Str := if zone = [] then [] else percent :: zone

def Addr.string : Addr → Str
  | .zero => str "invalid IP"
  | .v4 a => string4 a
  | .v6 a zone =>
    (if is4In6 a then str "::ffff:" ++ string4 (a.setWidth 32) else string6 a) ++ zoneSuffix zone

structure Prefix where
  ip : Addr
  bitsPlusOne : Nat
  deriving DecidableEq, Repr

namespace Prefix

def bits (p : Prefix) : Int := p.bitsPlusOne - 1

def isValid (p : Prefix) : Bool := p.bitsPlusOne != 0

def string (p : Prefix) : Str :=
  if p.isValid then p.ip.string ++ slash :: itoa (p.bitsPlusOne - 1) else str "invalid Prefix"

end Prefix

def prefixFrom (ip : Addr) (bits : Int) : Prefix :=
  ⟨ip.withoutZone, if ip ≠ .zero ∧ 0 ≤ bits ∧ bits ≤ ip.bitLen then bits.toNat + 1 else 0⟩

def parsePrefix (s : Str) : Option Prefix :=
  match cutLast s slash with
  | none => none
  | some (addr, bitsStr) =>
    match parseAddr addr with
    | none => none
    | some ip =>
      if ip.withoutZone ≠ ip then none
      else if 1 < bitsStr.length ∧ ¬ (0x31 ≤ bitsStr.headD 0 ∧ bitsStr.headD 0 ≤ 0x39) then none
      else match atoi .int64 bitsStr with
        | .error _ => none
        | .ok bits =>
          if bits < 0 ∨ (ip.bitLen : Int) < bits then none else some (prefixFrom ip bits)

def keepHigh {w : Nat} (a : BitVec w) (n : Nat) : BitVec w := (a >>> (w - n)) <<< (w - n)

def Prefix.masked (p : Prefix) : Prefix :=
  if p.bits < 0 then ⟨.zero, 0⟩
  else match p.ip with
    | .zero => ⟨.zero, 0⟩
    | .v4 a => if 32 < p.bits then ⟨.zero, 0⟩ else prefixFrom (.v4 (keepHigh a p.bits.toNat)) p.bits
    | .v6 a _ =>
      if 128 < p.bits then ⟨.zero, 0⟩ else prefixFrom (.v6 (keepHigh a p.bits.toNat) []) p.bits

end GoStd.Netip
