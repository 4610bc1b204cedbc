import Mathlib.Data.List.Basic
import Mathlib.Tactic.Ring

/-!
# Structures in memory

A buffer is a list of bytes and an address an index into it. A structure is laid out as a
list of fields of fixed sizes, padding included, and read back field by field; reading one
that does not lie inside the buffer as a whole gives nothing. Numbers are little-endian in
memory; the big-endian forms are those of network addresses and ports.
-/

namespace GoStd.Memory

abbrev Bytes (n : Nat) := { bs : List UInt8 // bs.length = n }

def leBytes : Nat → Nat → List UInt8
  | 0, _ => []
  | w + 1, n => n.toUInt8 :: leBytes w (n / 256)

def leNat : List UInt8 → Nat
  | [] => 0
  | b :: bs => b.toNat + 256 * leNat bs

def beBytes (w n : Nat) : List UInt8 := (leBytes w n).reverse

def beNat (bs : List UInt8) : Nat := leNat bs.reverse

@[simp] theorem leBytes_length (w n : Nat) : (leBytes w n).length = w := by
  induction w generalizing n with
  | zero => rfl
  | succ w ih => simp [leBytes, ih]

@[simp] theorem beBytes_length (w n : Nat) : (beBytes w n).length = w := by
  simp [beBytes]

theorem leNat_leBytes {w n : Nat} (h : n < 256 ^ w) : leNat (leBytes w n) = n := by
  induction w generalizing n with
  | zero =>
    have hn : n = 0 := by simpa using h
    rw [hn]
    rfl
  | succ w ih =>
    have hq : n / 256 < 256 ^ w := by
      rw [Nat.div_lt_iff_lt_mul (by decide)]
      exact h.trans_eq (pow_succ 256 w)
    rw [leBytes, leNat, ih hq]
    simp only [Nat.toUInt8, UInt8.toNat_ofNat']
    exact Nat.mod_add_div n 256

theorem beNat_beBytes {w n : Nat} (h : n < 256 ^ w) : beNat (beBytes w n) = n := by
  rw [beNat, beBytes, List.reverse_reverse, leNat_leBytes h]

theorem leNat_lt (bs : List UInt8) : leNat bs < 256 ^ bs.length := by
  induction bs with
  | nil => simp [leNat]
  | cons b bs ih =>
    have hb := b.toNat_lt
    calc leNat (b :: bs) = b.toNat + 256 * leNat bs := rfl
      _ < 256 * (leNat bs + 1) := by omega
      _ ≤ 256 * 256 ^ bs.length := Nat.mul_le_mul_left 256 ih
      _ = 256 ^ (b :: bs).length := by rw [List.length_cons, pow_succ, mul_comm]

theorem leBytes_leNat (bs : List UInt8) : leBytes bs.length (leNat bs) = bs := by
  induction bs with
  | nil => rfl
  | cons b bs ih =>
    have hb := b.toNat_lt
    have hq : (b.toNat + 256 * leNat bs) / 256 = leNat bs := by omega
    have hr : (b.toNat + 256 * leNat bs).toUInt8 = b := by
      apply UInt8.toNat_inj.mp
      simp only [Nat.toUInt8, UInt8.toNat_ofNat']
      omega
    rw [List.length_cons, leNat, leBytes, hq, hr, ih]

theorem toUInt8_leNat_singleton (b : UInt8) : (leNat [b]).toUInt8 = b := by
  simp [leNat, Nat.toUInt8]

theorem toUInt16_leNat_leBytes (n : UInt16) : (leNat (leBytes 2 n.toNat)).toUInt16 = n := by
  rw [leNat_leBytes n.toNat_lt]
  exact UInt16.ofNat_toNat

theorem toUInt32_leNat_leBytes (n : UInt32) : (leNat (leBytes 4 n.toNat)).toUInt32 = n := by
  rw [leNat_leBytes n.toNat_lt]
  exact UInt32.ofNat_toNat

theorem toUInt64_leNat_leBytes (n : UInt64) : (leNat (leBytes 8 n.toNat)).toUInt64 = n := by
  rw [leNat_leBytes n.toNat_lt]
  exact UInt64.ofNat_toNat

def splitFields : List Nat → List UInt8 → List (List UInt8)
  | [], _ => []
  | size :: sizes, bs => bs.take size :: splitFields sizes (bs.drop size)

theorem splitFields_flatten (fields : List (List UInt8)) :
    splitFields (fields.map List.length) fields.flatten = fields := by
  induction fields with
  | nil => rfl
  | cons field fields ih =>
    rw [List.map_cons, List.flatten_cons, splitFields, List.take_left, List.drop_left, ih]

def bytesAt (buffer : List UInt8) (addr size : Nat) : Option (List UInt8) :=
  if addr + size ≤ buffer.length then some ((buffer.drop addr).take size) else none

theorem bytesAt_append (before bytes after : List UInt8) {addr size : Nat}
    (haddr : addr = before.length) (hsize : size = bytes.length) :
    bytesAt (before ++ (bytes ++ after)) addr size = some bytes := by
  subst haddr hsize
  rw [bytesAt, if_pos (by simp), List.drop_left, List.take_left]

theorem le_of_bytesAt {buffer bytes : List UInt8} {addr size : Nat}
    (h : bytesAt buffer addr size = some bytes) : addr + size ≤ buffer.length := by
  rw [bytesAt] at h
  split_ifs at h with hle
  exact hle

/-- How the values of a type are laid out: the sizes of the fields, the fields of a value,
and how they are read. -/
structure Layout (α : Type) where
  sizes : List Nat
  fields : α → List (List UInt8)
  ofFields : List (List UInt8) → Option α
  fields_length : ∀ a, (fields a).map List.length = sizes
  ofFields_fields : ∀ a, ofFields (fields a) = some a

namespace Layout

variable {α : Type} (L : Layout α)

def size : Nat := L.sizes.sum

def bytes (a : α) : List UInt8 := (L.fields a).flatten

def readAt (buffer : List UInt8) (addr : Nat) : Option α :=
  (bytesAt buffer addr L.size).bind fun bs => L.ofFields (splitFields L.sizes bs)

@[simp] theorem bytes_length (a : α) : (L.bytes a).length = L.size := by
  rw [bytes, size, ← L.fields_length a, List.length_flatten]

theorem readAt_append (before after : List UInt8) (a : α) {addr : Nat}
    (haddr : addr = before.length) :
    L.readAt (before ++ (L.bytes a ++ after)) addr = some a := by
  rw [readAt, bytesAt_append before (L.bytes a) after haddr (L.bytes_length a).symm]
  change L.ofFields (splitFields L.sizes (L.fields a).flatten) = some a
  rw [← L.fields_length a, splitFields_flatten, L.ofFields_fields]

theorem le_of_readAt {buffer : List UInt8} {addr : Nat} {a : α}
    (h : L.readAt buffer addr = some a) : addr + L.size ≤ buffer.length := by
  obtain ⟨bs, hbs, -⟩ := Option.bind_eq_some_iff.mp h
  exact le_of_bytesAt hbs

end Layout

end GoStd.Memory
