import WireGuardWindows.GoStd.NetipText
import WireGuardWindows.Syntax.Highlighter

/-!
# The bytes of recognised networks and numbers

A span over the text `t` in front of the bytes `r` is `⟨t ++ r, t.length⟩`. The lemmas
say of which bytes a text consists that one of the recognisers accepts.
-/

namespace WireGuardWindows.Syntax.StringSpan
open GoStd Strings Strconv

theorem advance_append (d t r : Str) :
    advance ⟨d ++ (t ++ r), (d ++ t).length⟩ d.length = ⟨t ++ r, t.length⟩ := by
  simp [advance]

theorem byteAt_append (d r : Str) (n : Nat) : byteAt ⟨d ++ r, n⟩ d.length = r.head? := by
  cases r <;> simp [byteAt]

theorem isDecimal_eq (b : UInt8) : isDecimal b = isDigit b := rfl

theorem digitValue_eq {c : UInt8} (h : isDigit c = true) : (c - zero).toNat = digitValue c := by
  simp only [isDigit, Bool.and_eq_true, decide_eq_true_eq, UInt8.le_iff_toNat_le,
    UInt8.reduceToNat] at h
  have hzero : zero ≤ c := UInt8.le_iff_toNat_le.mpr h.1
  rw [UInt8.toNat_sub_of_le _ _ hzero]
  rfl

theorem decimalRun_eq (n : Nat) (t r : Str) (j val : Nat) :
    decimalRun n ⟨t ++ r, t.length⟩ j val =
      some (j + ((t.take n).takeWhile isDigit).length,
        ((t.take n).takeWhile isDigit).foldl (fun val c => val * 10 + digitValue c) val) := by
  induction n generalizing t j val with
  | zero => simp [decimalRun]
  | succ n ih =>
    cases t with
    | nil => simp [decimalRun]
    | cons b t =>
      rw [List.take_succ_cons]
      by_cases hb : isDigit b = true
      · have hstep : decimalRun (n + 1) ⟨b :: t ++ r, (b :: t).length⟩ j val =
            decimalRun n ⟨t ++ r, t.length⟩ (j + 1) (10 * val + (b - zero).toNat) := by
          simp [decimalRun, byteAt, advance, isDecimal_eq, hb]
        rw [hstep, ih, List.takeWhile_cons_of_pos hb, List.length_cons, List.foldl_cons,
          digitValue_eq hb, Nat.mul_comm 10 val, Nat.add_right_comm, Nat.add_assoc j]
      · rw [List.takeWhile_cons_of_neg hb]
        simp [decimalRun, byteAt, isDecimal_eq, hb]

theorem decimalRun_spec {n : Nat} {t r : Str} {j val j' val' : Nat}
    (h : decimalRun n ⟨t ++ r, t.length⟩ j val = some (j', val')) :
    ∃ d t', t = d ++ t' ∧ (∀ b ∈ d, isDecimal b = true) ∧ j' = j + d.length := by
  rw [decimalRun_eq] at h
  obtain ⟨t', ht⟩ := (List.takeWhile_prefix isDigit).trans (List.take_prefix n t)
  exact ⟨_, t', ht.symm, fun b hb => List.mem_takeWhile_imp hb,
    (congrArg Prod.fst (Option.some.inj h)).symm⟩

theorem isHexadecimal_eq (b : UInt8) : isHexadecimal b = Netip.isHex b := by
  have hall : ∀ n < 256, isHexadecimal (UInt8.ofNat n) = Netip.isHex (UInt8.ofNat n) := by
    decide +kernel
  have hb := hall b.toNat b.toNat_lt
  rwa [UInt8.ofNat_toNat] at hb

theorem hexRun_eq (n : Nat) (t r : Str) :
    hexRun n ⟨t ++ r, t.length⟩ = some ((t.take n).takeWhile Netip.isHex).length := by
  induction n generalizing t with
  | zero => rfl
  | succ n ih =>
    cases t with
    | nil => rfl
    | cons b t =>
      rw [List.take_succ_cons]
      by_cases hb : Netip.isHex b = true
      · have hstep : hexRun (n + 1) ⟨b :: t ++ r, (b :: t).length⟩ =
            (hexRun n ⟨t ++ r, t.length⟩).map (· + 1) := by
          simp [hexRun, byteAt, advance, isHexadecimal_eq, hb, Option.map_eq_bind]
        rw [hstep, ih, List.takeWhile_cons_of_pos hb]
        rfl
      · rw [List.takeWhile_cons_of_neg hb]
        simp [hexRun, byteAt, isHexadecimal_eq, hb]

theorem hexRun_spec {n : Nat} {t r : Str} {j : Nat} (h : hexRun n ⟨t ++ r, t.length⟩ = some j) :
    ∃ d t', t = d ++ t' ∧ (∀ b ∈ d, isHexadecimal b = true) ∧ j = d.length := by
  rw [hexRun_eq] at h
  obtain ⟨t', ht⟩ := (List.takeWhile_prefix Netip.isHex).trans (List.take_prefix n t)
  refine ⟨_, t', ht.symm, fun b hb => ?_, (Option.some.inj h).symm⟩
  rw [isHexadecimal_eq]
  exact List.mem_takeWhile_imp hb

theorem indexByte_spec {c : UInt8} {t r : Str} {i : Option Nat}
    (h : indexByte c t.length (t ++ r) = some i) :
    match i with
    | some i => ∃ a b, t = a ++ c :: b ∧ c ∉ a ∧ i = a.length
    | none => c ∉ t := by
  induction t generalizing i with
  | nil =>
    cases h
    simp
  | cons b t ih =>
    by_cases hb : b = c
    · have h' : some (some 0) = some i := by simpa [indexByte, hb] using h
      cases h'
      exact ⟨[], t, by simp [hb]⟩
    · have h' : ∃ k, indexByte c t.length (t ++ r) = some k ∧ k.map (· + 1) = i := by
        simpa [indexByte, hb, Option.bind_eq_some_iff] using h
      obtain ⟨k, hk, rfl⟩ := h'
      have := ih hk
      cases k with
      | none => simpa [Ne.symm hb] using this
      | some k =>
        obtain ⟨x, y, rfl, hx, rfl⟩ := this
        exact ⟨b :: x, y, rfl, by simp [hx, Ne.symm hb], rfl⟩

theorem uintLoop_decimal {t r : Str} {val : Nat} {v : Nat}
    (h : uintLoop 10 decimalDigit t.length (t ++ r) val = some (some v)) :
    ∀ b ∈ t, isDecimal b = true := by
  induction t generalizing val with
  | nil => simp
  | cons b t ih =>
    by_cases hb : isDecimal b = true
    · have h' : uintLoop 10 decimalDigit t.length (t ++ r) (10 * val + (b - zero).toNat) =
          some (some v) := by
        simpa [uintLoop, decimalDigit, hb] using h
      exact List.forall_mem_cons.mpr ⟨hb, ih h'⟩
    · simp [uintLoop, decimalDigit, hb] at h

def isNetByte (b : UInt8) : Bool := isHexadecimal b || b = dot || b = colon || b = slash

theorem isNetByte_of_decimal {b : UInt8} (h : isDecimal b = true) : isNetByte b = true := by
  simp [isNetByte, isHexadecimal, h]

theorem isNetByte_of_hexadecimal {b : UInt8} (h : isHexadecimal b = true) : isNetByte b = true := by
  simp [isNetByte, h]

theorem reject_iff {p : Prop} [Decidable p] {x : Option Bool} :
    (if p then pure false else x) = some true ↔ ¬ p ∧ x = some true := by
  by_cases hp : p
  · rw [if_pos hp]
    exact iff_of_false nofun fun h => h.1 hp
  · rw [if_neg hp]
    exact ⟨fun h => ⟨hp, h⟩, And.right⟩

theorem of_reject {p : Prop} [Decidable p] {x : Option Bool}
    (h : (if p then pure false else x) = some true) : ¬ p ∧ x = some true := reject_iff.mp h

theorem of_accept {p : Prop} [Decidable p] {x : Option Bool}
    (h : (if p then pure true else x) = some true) : p ∨ x = some true := by
  by_cases hp : p
  · exact Or.inl hp
  · exact Or.inr (by rwa [if_neg hp] at h)

theorem ipv4Loop_bytes {n : Nat} {t r : Str} (h : ipv4Loop n ⟨t ++ r, t.length⟩ = some true) :
    ∀ b ∈ t, isNetByte b = true := by
  induction n generalizing t with
  | zero => cases h
  | succ n ih =>
    rw [ipv4Loop] at h
    obtain ⟨-, h⟩ := of_reject h
    obtain ⟨⟨j, val⟩, hrun, h⟩ := Option.bind_eq_some_iff.mp h
    obtain ⟨d, t', rfl, hd, hj⟩ := decimalRun_spec hrun
    obtain rfl : j = d.length := by simpa using hj
    have hdigits : ∀ b ∈ d, isNetByte b = true := fun b hb => isNetByte_of_decimal (hd b hb)
    obtain ⟨-, h⟩ := of_reject h
    obtain ⟨_, -, h⟩ := Option.bind_eq_some_iff.mp h
    obtain ⟨-, h⟩ := of_reject h
    obtain ⟨-, h⟩ := of_reject h
    rcases of_accept h with hend | h
    · have ht' : t' = [] := by simpa using hend.1
      simpa [ht'] using hdigits
    · rw [List.append_assoc, byteAt_append] at h
      obtain ⟨c, hc, h⟩ := Option.bind_eq_some_iff.mp h
      obtain ⟨hdot, hrest⟩ := of_reject h
      have hdot : c = dot := not_not.mp hdot
      cases t' with
      | nil =>
        -- The dot stands behind the span, and nothing is left to read.
        have hzero : advance ⟨d ++ ([] ++ r), (d ++ []).length⟩ (d.length + 1) = ⟨r.drop 1, 0⟩ := by
          simp [advance, List.drop_append]
        rw [hzero] at hrest
        cases n <;> simp [ipv4Loop] at hrest
      | cons b t'' =>
        obtain rfl : b = c := by simpa using hc
        have hadv : advance ⟨d ++ (b :: t'' ++ r), (d ++ b :: t'').length⟩ (d.length + 1) =
            ⟨t'' ++ r, t''.length⟩ := by
          simpa using advance_append (d ++ [b]) t'' r
        rw [hadv] at hrest
        exact List.forall_mem_append.mpr
          ⟨hdigits, List.forall_mem_cons.mpr ⟨by simp [isNetByte, hdot], ih hrest⟩⟩

theorem ipv6Loop_bytes {n i : Nat} {seenColon : Bool} {t r : Str}
    (h : ipv6Loop n i seenColon ⟨t ++ r, t.length⟩ = some true) : ∀ b ∈ t, isNetByte b = true := by
  induction n generalizing t i seenColon with
  | zero => cases h
  | succ n ih =>
    cases t with
    | nil => simp
    | cons b t =>
      rw [ipv6Loop, if_neg (by simp)] at h
      obtain ⟨b', hb', h⟩ := Option.bind_eq_some_iff.mp h
      obtain rfl : b = b' := by simpa [byteAt] using hb'
      by_cases hcolon : b = colon ∧ seenColon = false
      · rw [if_pos hcolon] at h
        rcases of_accept h with hone | h
        · obtain rfl : t = [] := by simpa using hone
          simp [isNetByte, hcolon.1]
        obtain ⟨-, h⟩ := of_reject h
        have hadv : advance ⟨b :: t ++ r, (b :: t).length⟩ 1 = ⟨t ++ r, t.length⟩ := by
          simpa using advance_append [b] t r
        rw [hadv] at h
        exact List.forall_mem_cons.mpr ⟨by simp [isNetByte, hcolon.1], ih h⟩
      · rw [if_neg hcolon] at h
        obtain ⟨j, hrun, h⟩ := Option.bind_eq_some_iff.mp h
        obtain ⟨d, t', htd, hd, rfl⟩ := hexRun_spec hrun
        have hdigits : ∀ b ∈ d, isNetByte b = true := fun b hb => isNetByte_of_hexadecimal (hd b hb)
        rw [htd] at h ⊢
        obtain ⟨-, h⟩ := of_reject h
        rcases of_accept h with hend | h
        · have ht' : t' = [] := by simpa using hend.1
          simpa [ht'] using hdigits
        · obtain ⟨-, h⟩ := of_reject h
          rw [List.append_assoc, byteAt_append] at h
          obtain ⟨c, hc, h⟩ := Option.bind_eq_some_iff.mp h
          by_cases hne : c ≠ colon
          · rw [if_pos hne] at h
            obtain ⟨-, h⟩ := of_reject h
            exact ipv4Loop_bytes (r := r) (by simpa [isValidIPv4] using h)
          · rw [if_neg hne] at h
            have hcolon : c = colon := not_not.mp hne
            cases t' with
            | nil => simpa using hdigits
            | cons b' t'' =>
              obtain rfl : b' = c := by simpa using hc
              have hadv : advance ⟨d ++ (b' :: t'' ++ r), (d ++ b' :: t'').length⟩ (d.length + 1) =
                  ⟨t'' ++ r, t''.length⟩ := by
                simpa using advance_append (d ++ [b']) t'' r
              rw [hadv] at h
              exact List.forall_mem_append.mpr
                ⟨hdigits, List.forall_mem_cons.mpr ⟨by simp [isNetByte, hcolon], ih h⟩⟩

theorem isValidIPv6_bytes {t r : Str} (h : isValidIPv6 ⟨t ++ r, t.length⟩ = some true) :
    ∀ b ∈ t, isNetByte b = true := by
  cases t with
  | nil => simp
  | cons b t =>
    rw [isValidIPv6] at h
    obtain ⟨-, h⟩ := of_reject h
    obtain ⟨first, hfirst, h⟩ := Option.bind_eq_some_iff.mp h
    obtain rfl : b = first := by simpa [byteAt] using hfirst
    obtain ⟨_, -, h⟩ := Option.bind_eq_some_iff.mp h
    obtain ⟨-, h⟩ := of_reject h
    obtain ⟨_, -, h⟩ := Option.bind_eq_some_iff.mp h
    obtain ⟨_, -, h⟩ := Option.bind_eq_some_iff.mp h
    obtain ⟨-, h⟩ := of_reject h
    by_cases hcolon : b = colon
    · have hadv : advance ⟨b :: t ++ r, (b :: t).length⟩ 1 = ⟨t ++ r, t.length⟩ := by
        simpa using advance_append [b] t r
      rw [if_pos hcolon, hadv] at h
      exact List.forall_mem_cons.mpr ⟨by simp [isNetByte, hcolon], ipv6Loop_bytes h⟩
    · have hadv : advance ⟨b :: t ++ r, (b :: t).length⟩ 0 = ⟨b :: t ++ r, (b :: t).length⟩ := by
        simp [advance]
      rw [if_neg hcolon, hadv] at h
      exact ipv6Loop_bytes h

theorem isValidNetwork_bytes {t r : Str} (h : isValidNetwork ⟨t ++ r, t.length⟩ = some true) :
    ∀ b ∈ t, isNetByte b = true := by
  rw [isValidNetwork] at h
  obtain ⟨i, hi, h⟩ := Option.bind_eq_some_iff.mp h
  have hspec := indexByte_spec hi
  cases i with
  | none =>
    obtain ⟨v4, hv4, h⟩ := Option.bind_eq_some_iff.mp h
    split_ifs at h with hv
    · exact ipv4Loop_bytes (hv4.trans (congrArg some hv))
    · exact isValidIPv6_bytes h
  | some i =>
    obtain ⟨a, b, rfl, -, rfl⟩ := hspec
    dsimp only at h
    split_ifs at h
    · cases h
    obtain ⟨val, hval, h⟩ := Option.bind_eq_some_iff.mp h
    have hdrop : (a ++ slash :: b ++ r).drop (a.length + 1) = b ++ r := by
      simp [List.drop_append]
    have hlen : (a ++ slash :: b).length - a.length - 1 = b.length := by simp
    rw [hdrop, hlen] at hval
    cases val with
    | none => cases h
    | some val =>
      have hb := uintLoop_decimal hval
      have ha : ∀ c ∈ a, isNetByte c = true := by
        obtain ⟨v4, hv4, h⟩ := Option.bind_eq_some_iff.mp h
        split_ifs at h with hv
        · refine ipv4Loop_bytes (n := 4) (r := slash :: b ++ r) ?_
          simpa [hv, isValidIPv4] using hv4
        · obtain ⟨v6, hv6, h⟩ := Option.bind_eq_some_iff.mp h
          split_ifs at h with hv'
          · refine isValidIPv6_bytes (r := slash :: b ++ r) ?_
            simpa [hv'] using hv6
          · cases h
      intro c hc
      rcases List.mem_append.mp hc with hc | hc
      · exact ha c hc
      · rcases List.mem_cons.mp hc with rfl | hc
        · rfl
        · exact isNetByte_of_decimal (hb c hc)

theorem isValidIPv4_empty (p : Str) : isValidIPv4 ⟨p, 0⟩ = some false := rfl

theorem isValidIPv6_empty (p : Str) : isValidIPv6 ⟨p, 0⟩ = some false := rfl

theorem isValidNetwork_empty (p : Str) : isValidNetwork ⟨p, 0⟩ = some false := rfl

theorem isValidNetwork_parts {s : StringSpan} {i : Nat} (h : isValidNetwork s = some true)
    (hi : indexByte slash s.len s.s = some (some i)) : i ≠ 0 ∧ s.len - i - 1 ≠ 0 := by
  rw [isValidNetwork, hi] at h
  obtain ⟨hcidr, h⟩ := of_reject h
  refine ⟨?_, fun hz => hcidr (Or.inr hz)⟩
  rintro rfl
  obtain ⟨val, -, h⟩ := Option.bind_eq_some_iff.mp h
  cases val with
  | none => cases h
  | some val =>
    rw [isValidIPv4_empty, isValidIPv6_empty] at h
    cases h

theorem sameLoop_eq (fold : UInt8 → UInt8) {t c : Str} (h : t.length = c.length) (r : Str) :
    sameLoop fold (t ++ r) c = some (decide (t.map fold = c.map fold)) := by
  induction c generalizing t with
  | nil =>
    obtain rfl : t = [] := by simpa using h
    rfl
  | cons b c ih =>
    cases t with
    | nil => simp at h
    | cons a t =>
      have hlen : t.length = c.length := by simpa using h
      by_cases hab : fold a = fold b
      · simp [sameLoop, hab, ih hlen]
      · simp [sameLoop, hab]

theorem isSame_eq (t r c : Str) : isSame ⟨t ++ r, t.length⟩ c = some (decide (t = c)) := by
  unfold isSame
  by_cases h : t.length = c.length
  · rw [if_pos h, sameLoop_eq _ h, List.map_id, List.map_id]
  · have hne : t ≠ c := fun he => h (congrArg List.length he)
    simp [h, hne]

theorem isValidTable_bytes {t r : Str} (h : isValidTable ⟨t ++ r, t.length⟩ = some true) :
    ∀ b ∈ t, isDecimal b = true ∨ isAlphabet b = true := by
  rw [isValidTable, isSame_eq, isSame_eq, isSame_eq] at h
  by_cases h₁ : t = str "off"
  · subst h₁
    decide +kernel
  by_cases h₂ : t = str "auto"
  · subst h₂
    decide +kernel
  by_cases h₃ : t = str "main"
  · subst h₃
    decide +kernel
  have h' : isValidUint ⟨t ++ r, t.length⟩ false 0 (2 ^ 32 - 1) = some true := by
    simpa [h₁, h₂, h₃] using h
  rw [isValidUint] at h'
  obtain ⟨-, h'⟩ := of_reject h'
  obtain ⟨hex, hhex, h'⟩ := Option.bind_eq_some_iff.mp h'
  cases hhex
  obtain ⟨val, hval, h'⟩ := Option.bind_eq_some_iff.mp h'
  cases val with
  | none => cases h'
  | some val => exact fun b hb => Or.inl (uintLoop_decimal hval b hb)

end WireGuardWindows.Syntax.StringSpan
