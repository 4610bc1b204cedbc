import WireGuardWindows.Syntax.Networks

/-!
# Recognised host names

The loop counts digits and dots apart from the rest, so that a name of digits and dots only
is refused. A dot ends its iteration, and the comparison with the byte before it is never
reached.
-/

namespace WireGuardWindows.Syntax.StringSpan
open GoStd Strings

def isHostByte (c : UInt8) : Bool := isDecimal c || isAlphabet c || c == dot || c == hyphen

/-- All conditions on a host name but the one on consecutive dots. -/
structure HostnameShape (t : Str) : Prop where
  ne_nil : t ≠ []
  length_le : t.length ≤ 63
  bytes : ∀ c ∈ t, isHostByte c = true
  head : t.head? ≠ some hyphen ∧ t.head? ≠ some dot
  last : t.getLast? ≠ some hyphen ∧ t.getLast? ≠ some dot
  named : ∃ c ∈ t, isDecimal c = false ∧ c ≠ dot

structure HostnameGrammar (t : Str) : Prop extends HostnameShape t where
  single : ¬ [dot, dot] <:+: t

theorem isDecimal_dot : isDecimal dot = false := by decide

theorem hostnameLoop_eq (t r : Str) (numDigit : Nat) (numEntity : Int) :
    hostnameLoop t.length (t ++ r) numDigit numEntity =
      some (t.all isHostByte && decide ((numDigit + t.countP isDecimal : Int) ≠
        numEntity - t.count dot)) := by
  induction t generalizing numDigit numEntity with
  | nil => simp [hostnameLoop]
  | cons c t ih =>
    have hstep : hostnameLoop (c :: t).length (c :: t ++ r) numDigit numEntity =
        if isDecimal c then hostnameLoop t.length (t ++ r) (numDigit + 1) numEntity
        else if c = dot then hostnameLoop t.length (t ++ r) numDigit (numEntity - 1)
        else if !isAlphabet c && c ≠ hyphen then some false
        else hostnameLoop t.length (t ++ r) numDigit numEntity := rfl
    rw [hstep]
    by_cases hdigit : isDecimal c = true
    · have hdot : c ≠ dot := by
        rintro rfl
        rw [isDecimal_dot] at hdigit
        cases hdigit
      have hsum : ((numDigit + 1 : Nat) + t.countP isDecimal : Int) =
          numDigit + (t.countP isDecimal + 1 : Nat) := by
        push_cast
        ring
      rw [if_pos hdigit, ih, List.all_cons, List.countP_cons_of_pos hdigit,
        List.count_cons_of_ne hdot, hsum]
      simp [isHostByte, hdigit]
    · rw [if_neg hdigit]
      by_cases hdot : c = dot
      · subst hdot
        have hsum : numEntity - 1 - (t.count dot : Int) = numEntity - (t.count dot + 1 : Nat) := by
          push_cast
          ring
        rw [if_pos rfl, ih, List.all_cons, List.countP_cons_of_neg hdigit,
          List.count_cons_self, hsum]
        simp [isHostByte]
      · rw [if_neg hdot, List.all_cons, List.countP_cons_of_neg hdigit, List.count_cons_of_ne hdot]
        by_cases hname : (!isAlphabet c && c ≠ hyphen) = true
        · have hbyte : isHostByte c = false := by
            simp only [Bool.and_eq_true, Bool.not_eq_true', decide_eq_true_eq] at hname
            simp [isHostByte, hdigit, hdot, hname.1, hname.2]
          rw [if_pos hname, hbyte, Bool.false_and, Bool.false_and]
        · have hbyte : isHostByte c = true := by
            rw [Bool.and_eq_true, not_and_or, Bool.not_eq_true', Bool.not_eq_false,
              decide_eq_true_eq, not_not] at hname
            rcases hname with hname | hname
            · simp [isHostByte, hname]
            · simp [isHostByte, hname]
          rw [if_neg hname, hbyte, Bool.true_and, ih]

theorem countP_isDecimal_eq_iff (t : Str) :
    ((t.countP isDecimal : Int) = t.length - t.count dot) ↔ ∀ c ∈ t, isDecimal c =
      true ∨ c = dot := by
  have hsplit : t.countP (fun c => isDecimal c || c == dot) = t.countP isDecimal + t.count dot := by
    induction t with
    | nil => rfl
    | cons c t ih =>
      simp only [List.countP_cons, List.count_cons, ih]
      by_cases hdot : c = dot
      · subst hdot
        rw [isDecimal_dot]
        simp only [beq_self_eq_true, Bool.or_true, if_true, Bool.false_eq_true, if_false]
        omega
      · rw [beq_false_of_ne hdot, Bool.or_false]
        simp only [Bool.false_eq_true, if_false]
        omega
  have hall : t.countP (fun c => isDecimal c || c == dot) = t.length ↔
      ∀ c ∈ t, (isDecimal c || c == dot) = true :=
    List.countP_eq_length
  simp only [Bool.or_eq_true, beq_iff_eq] at hall
  rw [← hall, hsplit]
  omega

theorem isValidHostname_iff (t r : Str) :
    isValidHostname ⟨t ++ r, t.length⟩ = some true ↔ HostnameShape t := by
  rcases List.eq_nil_or_concat' t with rfl | ⟨front, last, hlast⟩
  · exact iff_of_false (by simp [isValidHostname]) fun h => h.ne_nil rfl
  obtain ⟨first, rest, hfirst⟩ := List.exists_cons_of_ne_nil (show t ≠ [] by rw [hlast]; simp)
  have hne : t ≠ [] := by rw [hfirst]; exact List.cons_ne_nil _ _
  have hpos : t.length ≠ 0 := by simpa using hne
  have hat0 : byteAt ⟨t ++ r, t.length⟩ 0 = some first := by rw [hfirst]; rfl
  have hatn : byteAt ⟨t ++ r, t.length⟩ (t.length - 1) = some last := by
    rw [byteAt, List.getElem?_append_left (by omega), ← List.getLast?_eq_getElem?, hlast,
      List.getLast?_concat]
  have hhead : t.head? = some first := by rw [hfirst]; rfl
  have hgetLast : t.getLast? = some last := by rw [hlast, List.getLast?_concat]
  have hloop := hostnameLoop_eq t r 0 t.length
  rw [Nat.cast_zero, zero_add] at hloop
  have hvalid : isValidHostname ⟨t ++ r, t.length⟩ =
      if 63 < t.length ∨ t.length = 0 then pure false
      else if first = hyphen then pure false
      else if last = hyphen then pure false
      else if first = dot ∨ last = dot then pure false
      else some (t.all isHostByte && decide ((t.countP isDecimal : Int) ≠
        t.length - t.count dot)) := by
    rw [isValidHostname, hat0, hatn, hloop]
    rfl
  rw [hvalid, reject_iff, reject_iff, reject_iff, reject_iff]
  simp only [Option.some.injEq, Bool.and_eq_true, List.all_eq_true, decide_eq_true_eq, Ne,
    countP_isDecimal_eq_iff, not_forall, not_or, Bool.not_eq_true, Nat.not_lt, exists_prop]
  constructor
  · rintro ⟨⟨hlen, -⟩, hfh, hlh, ⟨hfd, hld⟩, hbytes, hnamed⟩
    refine ⟨hne, hlen, hbytes, ?_, ?_, hnamed⟩
    · rw [hhead, Ne, Ne, Option.some.injEq, Option.some.injEq]
      exact ⟨hfh, hfd⟩
    · rw [hgetLast, Ne, Ne, Option.some.injEq, Option.some.injEq]
      exact ⟨hlh, hld⟩
  · intro h
    have hf := h.head
    have hl := h.last
    rw [hhead, Ne, Ne, Option.some.injEq, Option.some.injEq] at hf
    rw [hgetLast, Ne, Ne, Option.some.injEq, Option.some.injEq] at hl
    exact ⟨⟨h.length_le, hpos⟩, hf.1, hl.1, ⟨hf.2, hl.2⟩, h.bytes, h.named⟩

theorem hostname_exact_iff (t r : Str) :
    (isValidHostname ⟨t ++ r, t.length⟩ = some true ↔ HostnameGrammar t) ↔
      (HostnameShape t → ¬ [dot, dot] <:+: t) := by
  rw [isValidHostname_iff]
  constructor
  · exact fun h hshape => (h.mp hshape).single
  · exact fun h => ⟨fun hshape => ⟨hshape, h hshape⟩, fun hgrammar => hgrammar.toHostnameShape⟩

theorem hostname_two_dots :
    isValidHostname ⟨str "a..b" ++ [0], 4⟩ = some true ∧ ¬ HostnameGrammar (str "a..b") :=
  ⟨by decide +kernel, fun h => h.single ⟨str "a", str "b", by decide +kernel⟩⟩

end WireGuardWindows.Syntax.StringSpan
