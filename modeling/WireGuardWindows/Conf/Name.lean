import WireGuardWindows.GoStd.Strconv
import WireGuardWindows.GoStd.Unicode

/-!
# Tunnel names

A valid name is a Windows file name, a service name and an interface name at once.
The regular expression `^[a-zA-Z0-9_=+.-]{1,32}$` is anchored at both ends of the
text, so it accepts exactly the texts of 1 to 32 bytes of its class.

Names are listed in natural order, which compares runs of digits as numbers.
-/

namespace WireGuardWindows.Conf
open GoStd Strings Strconv Unicode

def reservedNames : List Str :=
  ["CON", "PRN", "AUX", "NUL",
    "COM1", "COM2", "COM3", "COM4", "COM5", "COM6", "COM7", "COM8", "COM9",
    "LPT1", "LPT2", "LPT3", "LPT4", "LPT5", "LPT6", "LPT7", "LPT8", "LPT9"].map str

def serviceNameForbidden : Str := str "$"
def netshellDllForbidden : Str := str "\\/:*?\"<>|\t"
def specialChars : Str := str "/\\<>:\"|?*" ++ (List.range 32).map Nat.toUInt8

def isReserved (name : Str) : Bool :=
  reservedNames.any (equalFold (cut name 0x2E).1)

def containsAny (s chars : Str) : Bool := s.any (chars.contains ·)

def hasSpecialChars (name : Str) : Bool :=
  containsAny name specialChars || containsAny name netshellDllForbidden ||
    containsAny name serviceNameForbidden || name.head? == some 0x2E || name.getLast? == some 0x2E

def isNameByte (b : UInt8) : Bool :=
  (0x61 ≤ b && b ≤ 0x7A) || (0x41 ≤ b && b ≤ 0x5A) || (0x30 ≤ b && b ≤ 0x39) ||
    (str "_=+.-").contains b

def tunnelNameIsValid (name : Str) : Bool :=
  !(isReserved name || hasSpecialChars name) &&
    (name.all isNameByte && 1 ≤ name.length && name.length ≤ 32)

def serviceNameOfTunnel (tunnelName : Str) : Option Str :=
  if tunnelNameIsValid tunnelName then some (str "WireGuardWSTunnel$" ++ tunnelName) else none

theorem ascii_of_nameByte {b : UInt8} (h : isNameByte b = true) : b < 0x80 := by
  have hall : ∀ n < 256, isNameByte (UInt8.ofNat n) = true → UInt8.ofNat n < 0x80 := by
    decide +kernel
  have hb := hall b.toNat b.toNat_lt
  rw [UInt8.ofNat_toNat] at hb
  exact hb h

theorem ascii_of_validName {name : Str} (h : tunnelNameIsValid name = true) :
    (∀ b ∈ name, b < 0x80) ∧ name.length < 2 ^ 32 := by
  rw [tunnelNameIsValid, Bool.and_eq_true, Bool.and_eq_true, Bool.and_eq_true] at h
  obtain ⟨-, ⟨hbytes, -⟩, hlength⟩ := h
  refine ⟨fun b hb => ascii_of_nameByte (List.all_eq_true.mp hbytes b hb), ?_⟩
  rw [decide_eq_true_eq] at hlength
  omega

structure NaturalSortToken where
  maybeString : Str := []
  maybeNumber : Int := 0

/-- The tokens of a name; the expression `\d+|\D+` cuts the text into its longest runs. -/
def newNaturalSortString (size : IntSize) (s : Str) : List NaturalSortToken :=
  let s := toLower ([0x20].intercalate (fields s))
  (s.splitBy fun a b => isDigit a == isDigit b).map fun token =>
    match atoi size token with
    | .ok n => { maybeNumber := n }
    | .error _ => { maybeString := token }

def NaturalSortToken.cmp (f1 f2 : NaturalSortToken) : Ordering :=
  if f1.maybeString = [] then
    if f2.maybeString ≠ [] ∨ f1.maybeNumber < f2.maybeNumber then .lt
    else if f2.maybeNumber < f1.maybeNumber then .gt else .eq
  else if f2.maybeString = [] ∨ bytesLess f2.maybeString f1.maybeString then .gt
  else if bytesLess f1.maybeString f2.maybeString then .lt else .eq

def tokensLess : List NaturalSortToken → List NaturalSortToken → Bool
  | _, [] => false
  | [], _ :: _ => true
  | a :: na, b :: nb =>
    match a.cmp b with
    | .lt => true
    | .gt => false
    | .eq => tokensLess na nb

def tunnelNameIsLess (size : IntSize) (a b : Str) : Bool :=
  if a = b then false
  else tokensLess (newNaturalSortString size a) (newNaturalSortString size b)

/-- Runs of digits are compared by their value. -/
example : tunnelNameIsLess .int32 (str "wg9") (str "wg10") = true := by decide +kernel

end WireGuardWindows.Conf
