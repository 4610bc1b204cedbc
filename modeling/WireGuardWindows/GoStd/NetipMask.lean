import Mathlib.Data.BitVec
import WireGuardWindows.GoStd.Netip

/-!
# Masks of prefixes

What masking leaves of an address at the lengths 0 and 1, and the addresses a prefix
contains.
-/

namespace GoStd.Netip

theorem keepHigh_zero {w : Nat} (a : BitVec w) : keepHigh a 0 = 0 := by
  have h : a >>> (w - 0) = 0 := by
    apply BitVec.eq_of_toNat_eq
    simp [BitVec.toNat_ushiftRight, Nat.shiftRight_eq_div_pow, Nat.div_eq_of_lt a.isLt]
  rw [keepHigh, h]
  simp

theorem keepHigh_one {w : Nat} (a : BitVec (w + 1)) :
    keepHigh a 1 = if a.msb then BitVec.twoPow (w + 1) w else 0 := by
  apply BitVec.eq_of_getLsbD_eq
  intro i hi
  cases hm : a.msb
  all_goals
    rw [BitVec.msb_eq_getLsbD_last] at hm
    simp [keepHigh] at *
    grind

theorem keepHigh_one_eq_zero {w : Nat} (a : BitVec (w + 1)) :
    keepHigh a 1 = 0#(w + 1) ↔ a.msb = false := by
  rw [keepHigh_one]
  cases a.msb with
  | false => simp
  | true =>
    simp only [if_true, Bool.true_eq_false, iff_false]
    intro h
    have hbit := congrArg (fun b : BitVec (w + 1) => b.getLsbD w) h
    simp at hbit

theorem keepHigh_one_eq_twoPow {w : Nat} (a : BitVec (w + 1)) :
    keepHigh a 1 = BitVec.twoPow (w + 1) w ↔ a.msb = true := by
  rw [keepHigh_one]
  cases a.msb with
  | true => simp
  | false =>
    simp only [Bool.false_eq_true, if_false, iff_false]
    intro h
    have hbit := congrArg (fun b : BitVec (w + 1) => b.getLsbD w) h
    simp at hbit

theorem masked_eq_v4 (p : Prefix) (b : BitVec 32) {k : Nat} (hk : k ≤ 32) :
    p.masked = prefixFrom (.v4 b) k ↔ ∃ a, p.ip = .v4 a ∧ p.bits = k ∧ keepHigh a k = b := by
  obtain ⟨ip, n⟩ := p
  cases ip with
  | zero => simp [Prefix.masked, prefixFrom, Addr.withoutZone]
  | v4 a =>
    simp only [Prefix.masked, prefixFrom, Addr.withoutZone, Prefix.bits, Addr.bitLen]
    grind
  | v6 a zone =>
    simp only [Prefix.masked, prefixFrom, Addr.withoutZone]
    grind

theorem masked_eq_v6 (p : Prefix) (b : BitVec 128) {k : Nat} (hk : k ≤ 128) :
    p.masked = prefixFrom (.v6 b []) k ↔
      ∃ a zone, p.ip = .v6 a zone ∧ p.bits = k ∧ keepHigh a k = b := by
  obtain ⟨ip, n⟩ := p
  cases ip with
  | zero => simp [Prefix.masked, prefixFrom, Addr.withoutZone]
  | v4 a =>
    simp only [Prefix.masked, prefixFrom, Addr.withoutZone]
    grind
  | v6 a zone =>
    simp only [Prefix.masked, prefixFrom, Addr.withoutZone, Prefix.bits, Addr.bitLen]
    grind

def Prefix.contains (p : Prefix) (ip : Addr) : Bool :=
  if ¬ p.isValid ∨ ip.zone ≠ [] then false
  else match p.ip, ip with
    | .v4 a, .v4 b => (b ^^^ a) >>> (32 - p.bits.toNat) = 0
    | .v6 a _, .v6 b _ => keepHigh (b ^^^ a) p.bits.toNat = 0
    | _, _ => false

theorem contains_v4 (a b : BitVec 32) {k : Nat} (hk : k ≤ 32) :
    (prefixFrom (.v4 a) k).contains (.v4 b) = decide ((b ^^^ a) >>> (32 - k) = 0) := by
  simp [Prefix.contains, prefixFrom, Prefix.isValid, Prefix.bits, Addr.zone, Addr.withoutZone,
    Addr.bitLen, hk]

theorem contains_v6 (a b : BitVec 128) {k : Nat} (hk : k ≤ 128) :
    (prefixFrom (.v6 a []) k).contains (.v6 b []) = decide (keepHigh (b ^^^ a) k = 0) := by
  simp [Prefix.contains, prefixFrom, Prefix.isValid, Prefix.bits, Addr.zone, Addr.withoutZone,
    Addr.bitLen, hk]

theorem ushiftRight_eq_zero_iff {w : Nat} (a : BitVec (w + 1)) :
    a >>> w = 0#(w + 1) ↔ a.msb = false := by
  rw [BitVec.msb_eq_decide, decide_eq_false_iff_not, Nat.not_le, ← BitVec.toNat_inj,
    BitVec.toNat_ushiftRight, Nat.shiftRight_eq_div_pow, BitVec.toNat_ofNat, Nat.zero_mod,
    Nat.div_eq_zero_iff_lt (by positivity)]
  rfl

theorem contains_halves4 (ip : Addr) : (prefixFrom (.v4 0) 0).contains ip =
    ((prefixFrom (.v4 0) 1).contains ip || (prefixFrom (.v4 0x80000000) 1).contains ip) := by
  cases ip with
  | zero => rfl
  | v6 b zone =>
    by_cases hz : zone = [] <;> simp [Prefix.contains, prefixFrom, Addr.withoutZone, Addr.zone, hz]
  | v4 b =>
    have hfull := contains_v4 0 b (Nat.zero_le 32)
    have hlow := contains_v4 0 b (by decide : 1 ≤ 32)
    have hhigh := contains_v4 0x80000000 b (by decide : 1 ≤ 32)
    have htop : (0x80000000#32).msb = true := by decide
    have hzero : b >>> 32 = 0#32 := BitVec.ushiftRight_eq_zero (le_refl 32)
    simp only [Nat.cast_zero, Nat.cast_one, Nat.sub_zero, Nat.reduceSub, BitVec.ofNat_eq_ofNat,
      BitVec.xor_zero, ushiftRight_eq_zero_iff, BitVec.msb_xor] at hfull hlow hhigh ⊢
    rw [hfull, hlow, hhigh]
    cases b.msb <;> simp [hzero, htop]

theorem contains_halves6 (ip : Addr) : (prefixFrom (.v6 0 []) 0).contains ip =
    ((prefixFrom (.v6 0 []) 1).contains ip ||
      (prefixFrom (.v6 0x80000000000000000000000000000000 []) 1).contains ip) := by
  cases ip with
  | zero => rfl
  | v4 b => rfl
  | v6 b zone =>
    by_cases hz : zone = []
    · subst hz
      have htop : (0x80000000000000000000000000000000#128).msb = true := by decide
      have hfull := contains_v6 0 b (Nat.zero_le 128)
      have hlow := contains_v6 0 b (by decide : 1 ≤ 128)
      have hhigh := contains_v6 0x80000000000000000000000000000000 b (by decide : 1 ≤ 128)
      simp only [Nat.cast_zero, Nat.cast_one, BitVec.ofNat_eq_ofNat, BitVec.xor_zero, keepHigh_zero,
        keepHigh_one_eq_zero, BitVec.msb_xor] at hfull hlow hhigh ⊢
      rw [hfull, hlow, hhigh]
      cases b.msb <;> simp [htop]
    · simp [Prefix.contains, Addr.zone, hz]

end GoStd.Netip
