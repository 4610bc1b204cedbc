import WireGuardWindows.Syntax.Lines
import WireGuardWindows.Syntax.Hostnames
import WireGuardWindows.Syntax.Addresses

/-!
# No validator leaves the buffer

A validator has a result on every span that ends before the end of the buffer, so all the
bytes it reads lie between the start of the span and the terminating NUL.
-/

namespace WireGuardWindows.Syntax
open GoStd Strings

theorem isSome_bind {α β : Type} {x : Option α} {f : α → Option β} (hx : x.isSome)
    (hf : ∀ a, x = some a → (f a).isSome) : (x >>= f).isSome := by
  obtain ⟨a, rfl⟩ := Option.isSome_iff_exists.mp hx
  exact hf a rfl

theorem isSome_ite {α : Type} {p : Prop} [Decidable p] {x y : Option α} (hx : p → x.isSome)
    (hy : ¬ p → y.isSome) : (if p then x else y).isSome := by
  by_cases hp : p
  · rw [if_pos hp]
    exact hx hp
  · rw [if_neg hp]
    exact hy hp

namespace StringSpan

def Reads (s : StringSpan) : Prop := s.len < s.s.length

theorem byteAt_isSome {s : StringSpan} (hs : s.Reads) {i : Nat} (hi : i ≤ s.len) :
    (s.byteAt i).isSome := by
  rw [byteAt, isSome_getElem?]
  exact lt_of_le_of_lt hi hs

theorem Reads.shorten {s : StringSpan} (hs : s.Reads) {i : Nat} (hi : i ≤ s.len) :
    Reads ⟨s.s, i⟩ := lt_of_le_of_lt hi hs

theorem Reads.advance {s : StringSpan} (hs : s.Reads) {n : Nat} (hn : n ≤ s.len) :
    (s.advance n).Reads := by
  rw [Reads, StringSpan.advance, List.length_drop]
  exact Nat.sub_lt_sub_right hn hs

theorem Reads.behind {s : StringSpan} (hs : s.Reads) {i : Nat} (hi : i < s.len) :
    Reads ⟨s.s.drop (i + 1), s.len - i - 1⟩ := hs.advance hi

theorem Reads.exists_text {s : StringSpan} (hs : s.Reads) :
    ∃ t r, r ≠ [] ∧ s = ⟨t ++ r, t.length⟩ := by
  refine ⟨s.s.take s.len, s.s.drop s.len, ?_, ?_⟩
  · rw [Ne, List.drop_eq_nil_iff]
    exact not_le.mpr hs
  · rw [List.take_append_drop, List.length_take_of_le hs.le]

theorem sameLoop_isSome (fold : UInt8 → UInt8) {s c : Str} (h : c.length ≤ s.length) :
    (sameLoop fold s c).isSome := by
  induction c generalizing s with
  | nil => rfl
  | cons b c ih =>
    cases s with
    | nil => cases h
    | cons a s => exact isSome_ite (fun _ => ih (Nat.le_of_succ_le_succ h)) fun _ => rfl

theorem allBytes_isSome (p : UInt8 → Bool) {n : Nat} {s : Str} (h : n ≤ s.length) :
    (allBytes p n s).isSome := by
  induction n generalizing s with
  | zero => rfl
  | succ n ih =>
    cases s with
    | nil => cases h
    | cons a s => exact isSome_ite (fun _ => ih (Nat.le_of_succ_le_succ h)) fun _ => rfl

theorem uintLoop_isSome (base : Nat) (digit : UInt8 → Option Nat) {n : Nat} {s : Str}
    (h : n ≤ s.length) (val : Nat) : (uintLoop base digit n s val).isSome := by
  induction n generalizing s val with
  | zero => rfl
  | succ n ih =>
    cases s with
    | nil => cases h
    | cons a s =>
      rw [uintLoop, List.head?_cons, List.tail_cons]
      dsimp only [bind, Option.bind]
      cases digit a with
      | none => rfl
      | some d => exact ih (Nat.le_of_succ_le_succ h) _

theorem indexByte_isSome (c : UInt8) {n : Nat} {p : Str} (h : n ≤ p.length) :
    ∃ i, indexByte c n p = some i ∧ ∀ k ∈ i, k < n := by
  induction n generalizing p with
  | zero => exact ⟨none, rfl, by simp⟩
  | succ n ih =>
    cases p with
    | nil => cases h
    | cons a p =>
      obtain ⟨i, hi, hlt⟩ := ih (Nat.le_of_succ_le_succ h)
      by_cases ha : a = c
      · exact ⟨some 0, if_pos ha, by simp⟩
      · refine ⟨i.map (· + 1), ?_, ?_⟩
        · refine (if_neg ha).trans ?_
          change (indexByte c n p >>= fun j => pure (j.map (· + 1))) = _
          rw [hi]
          rfl
        · intro k hk
          obtain ⟨j, hj, rfl⟩ := Option.map_eq_some_iff.mp hk
          exact Nat.succ_lt_succ (hlt j hj)

theorem isSome_index {α : Type} {c : UInt8} {n : Nat} {p : Str} {f : Option Nat → Option α}
    (h : n ≤ p.length) (hf : ∀ i, (∀ k ∈ i, k < n) → (f i).isSome) :
    (indexByte c n p >>= f).isSome := by
  obtain ⟨i, hi, hlt⟩ := indexByte_isSome c h
  rw [hi]
  exact hf i hlt

theorem hexRun_isSome (n : Nat) {s : StringSpan} (hs : s.Reads) :
    ∃ j, hexRun n s = some j ∧ j ≤ s.len := by
  obtain ⟨t, r, -, rfl⟩ := hs.exists_text
  refine ⟨_, hexRun_eq n t r, ?_⟩
  exact (List.takeWhile_sublist _).length_le.trans (List.length_take_le' n t)

theorem isSame_isSome {s : StringSpan} (hs : s.Reads) (c : Str) : (s.isSame c).isSome :=
  isSome_ite (fun h => sameLoop_isSome _ (h ▸ hs.le)) fun _ => rfl

theorem isCaselessSame_isSome {s : StringSpan} (hs : s.Reads) (c : Str) :
    (s.isCaselessSame c).isSome :=
  isSome_ite (fun h => sameLoop_isSome _ (h ▸ hs.le)) fun _ => rfl

theorem isValidIPv4_isSome {s : StringSpan} (hs : s.Reads) : s.isValidIPv4.isSome := by
  obtain ⟨t, r, hr, rfl⟩ := hs.exists_text
  obtain ⟨b, hb, -⟩ := isValidIPv4_iff (t := t) hr
  rw [hb]
  rfl

-- A group may end at the end of the span with a colon behind it. The loop is left then, as
-- the position is past the end.
theorem ipv6Loop_isSome {n i : Nat} (hn : n + i = 8) (hi : i ≤ 7) (seenColon : Bool)
    {s : StringSpan} (hs : s.len = 0 ∨ s.Reads) : (ipv6Loop n i seenColon s).isSome := by
  induction n generalizing i seenColon s with
  | zero => omega
  | succ n ih =>
    by_cases hempty : s.len = 0
    · rw [ipv6Loop, if_pos hempty]
      rfl
    have hreads := hs.resolve_left hempty
    rw [ipv6Loop, if_neg hempty]
    refine isSome_bind (byteAt_isSome hreads (Nat.zero_le _)) fun a _ => ?_
    refine isSome_ite (fun _ => ?_) fun _ => ?_
    · refine isSome_ite (fun _ => rfl) fun _ => ?_
      refine isSome_ite (fun _ => rfl) fun hseven => ?_
      exact ih (by omega) (by omega) _ (Or.inr (hreads.advance (by omega)))
    · obtain ⟨j, hj, hle⟩ := hexRun_isSome 4 hreads
      rw [hj]
      refine isSome_ite (fun _ => rfl) fun _ => ?_
      refine isSome_ite (fun _ => rfl) fun _ => ?_
      refine isSome_ite (fun _ => rfl) fun hseven => ?_
      refine isSome_bind (byteAt_isSome hreads hle) fun c _ => ?_
      refine isSome_ite (fun _ => ?_) fun _ => ?_
      · exact isSome_ite (fun _ => rfl) fun _ => isValidIPv4_isSome hreads
      · apply ih (by omega) (by omega)
        by_cases hlt : j < s.len
        · exact Or.inr (hreads.advance hlt)
        · exact Or.inl (Nat.sub_eq_zero_of_le (by omega))

theorem isValidIPv6_isSome {s : StringSpan} (hs : s.Reads) : s.isValidIPv6.isSome := by
  rw [isValidIPv6]
  refine isSome_ite (fun _ => rfl) fun hlen => ?_
  refine isSome_bind (byteAt_isSome hs (Nat.zero_le _)) fun first _ => ?_
  have hone : (s.byteAt 1).isSome := byteAt_isSome hs (by omega)
  have hlast : (s.byteAt (s.len - 1)).isSome := byteAt_isSome hs (Nat.sub_le _ _)
  have hprev : (s.byteAt (s.len - 2)).isSome := byteAt_isSome hs (Nat.sub_le _ _)
  refine isSome_bind hone fun b _ => ?_
  refine isSome_ite (fun _ => rfl) fun _ => ?_
  refine isSome_bind hlast fun c _ => ?_
  refine isSome_bind hprev fun d _ => ?_
  refine isSome_ite (fun _ => rfl) fun _ => ?_
  apply ipv6Loop_isSome rfl (Nat.zero_le _)
  apply Or.inr
  apply hs.advance
  split_ifs <;> omega

theorem isValidHostname_isSome {s : StringSpan} (hs : s.Reads) : s.isValidHostname.isSome := by
  rw [isValidHostname]
  refine isSome_ite (fun _ => rfl) fun _ => ?_
  refine isSome_bind (byteAt_isSome hs (Nat.zero_le _)) fun first _ => ?_
  refine isSome_ite (fun _ => rfl) fun _ => ?_
  refine isSome_bind (byteAt_isSome hs (Nat.sub_le _ _)) fun last _ => ?_
  refine isSome_ite (fun _ => rfl) fun _ => ?_
  refine isSome_ite (fun _ => rfl) fun _ => ?_
  obtain ⟨t, r, -, rfl⟩ := hs.exists_text
  rw [hostnameLoop_eq]
  rfl

theorem isValidNetwork_isSome {s : StringSpan} (hs : s.Reads) : s.isValidNetwork.isSome := by
  rw [isValidNetwork]
  refine isSome_index hs.le fun i hlt => ?_
  cases i with
  | none =>
    refine isSome_bind (isValidIPv4_isSome hs) fun b _ => ?_
    exact isSome_ite (fun _ => rfl) fun _ => isValidIPv6_isSome hs
  | some i =>
    have hi := hlt i rfl
    refine isSome_ite (fun _ => rfl) fun _ => ?_
    refine isSome_bind (uintLoop_isSome _ _ (hs.behind hi).le _) fun val _ => ?_
    cases val with
    | none => rfl
    | some val =>
      refine isSome_bind (isValidIPv4_isSome (hs.shorten hi.le)) fun b _ => ?_
      refine isSome_ite (fun _ => rfl) fun _ => ?_
      refine isSome_bind (isValidIPv6_isSome (hs.shorten hi.le)) fun b _ => ?_
      exact isSome_ite (fun _ => rfl) fun _ => rfl

theorem isValidKey_isSome {s : StringSpan} (hs : s.Reads) : s.isValidKey.isSome := by
  rw [isValidKey]
  refine isSome_ite (fun _ => rfl) fun hlen => ?_
  have hlen : s.len = 44 := not_not.mp hlen
  have hlong : 44 < s.s.length := hlen ▸ hs
  refine isSome_bind (byteAt_isSome hs (by omega)) fun a _ => ?_
  refine isSome_ite (fun _ => rfl) fun _ => ?_
  refine isSome_bind (allBytes_isSome _ (by omega)) fun b _ => ?_
  refine isSome_ite (fun _ => rfl) fun _ => ?_
  exact isSome_bind (byteAt_isSome hs (by omega)) fun c _ => rfl

theorem isValidUint_isSome {s : StringSpan} (hs : s.Reads) (supportHex : Bool) (min max : Nat) :
    (s.isValidUint supportHex min max).isSome := by
  rw [isValidUint]
  refine isSome_ite (fun _ => rfl) fun _ => ?_
  have hhex : (if (supportHex && decide (2 < s.len)) = true then (do
      return (← s.byteAt 0) == zero && (← s.byteAt 1) == 0x78)
      else some false : Option Bool).isSome := by
    refine isSome_ite (fun h => ?_) fun _ => rfl
    rw [Bool.and_eq_true, decide_eq_true_eq] at h
    refine isSome_bind (byteAt_isSome hs (Nat.zero_le _)) fun a _ => ?_
    exact isSome_bind (byteAt_isSome hs (by omega)) fun b _ => rfl
  refine isSome_bind hhex fun hex _ => ?_
  have hdrop : s.len - 2 ≤ (s.s.drop 2).length := by
    rw [List.length_drop]
    exact Nat.sub_le_sub_right hs.le 2
  refine isSome_bind (isSome_ite (fun _ => uintLoop_isSome _ _ hdrop _)
    fun _ => uintLoop_isSome _ _ hs.le _) fun val _ => ?_
  cases val <;> rfl

theorem isValidTable_isSome {s : StringSpan} (hs : s.Reads) : s.isValidTable.isSome := by
  rw [isValidTable]
  refine isSome_bind (isSame_isSome hs _) fun a _ => isSome_ite (fun _ => rfl) fun _ => ?_
  refine isSome_bind (isSame_isSome hs _) fun b _ => isSome_ite (fun _ => rfl) fun _ => ?_
  refine isSome_bind (isSame_isSome hs _) fun c _ => isSome_ite (fun _ => rfl) fun _ => ?_
  exact isValidUint_isSome hs _ _ _

theorem isValidPersistentKeepAlive_isSome {s : StringSpan} (hs : s.Reads) :
    s.isValidPersistentKeepAlive.isSome := by
  rw [isValidPersistentKeepAlive]
  refine isSome_bind (isSame_isSome hs _) fun a _ => isSome_ite (fun _ => rfl) fun _ => ?_
  exact isValidUint_isSome hs _ _ _

theorem isValidWSBool_isSome {s : StringSpan} (hs : s.Reads) : s.isValidWSBool.isSome := by
  rw [isValidWSBool]
  refine isSome_bind (isSame_isSome hs _) fun a _ => isSome_ite (fun _ => rfl) fun _ => ?_
  exact isSame_isSome hs _

theorem isValidWSMode_isSome {s : StringSpan} (hs : s.Reads) : s.isValidWSMode.isSome := by
  rw [isValidWSMode]
  refine isSome_bind (isCaselessSame_isSome hs _) fun a _ => isSome_ite (fun _ => rfl) fun _ => ?_
  exact isCaselessSame_isSome hs _

theorem isValidScope_isSome {s : StringSpan} (hs : s.Reads) : s.isValidScope.isSome :=
  isSome_ite (fun _ => rfl) fun _ => allBytes_isSome _ hs.le

-- The host lies between its start and `p`.
theorem bracketLoop_isSome {n : Nat} {p : Str} (hn : n < p.length) (seenScope : Bool)
    {hostspan : StringSpan} (hhost : hostspan.s.length = hostspan.len + p.length) :
    (bracketLoop n p seenScope hostspan).isSome := by
  induction n generalizing p seenScope hostspan with
  | zero => rfl
  | succ n ih =>
    obtain ⟨c, p, rfl⟩ := List.exists_cons_of_length_pos (Nat.zero_lt_of_lt hn)
    have hreads : hostspan.Reads := by
      rw [Reads, hhost, List.length_cons]
      omega
    have hn : n < p.length := Nat.lt_of_succ_lt_succ hn
    rw [bracketLoop]
    refine isSome_bind rfl fun c _ => ?_
    refine isSome_ite (fun _ => ?_) fun _ => isSome_ite (fun _ => ?_) fun _ => ?_
    · refine isSome_ite (fun _ => rfl) fun _ => ?_
      refine isSome_bind (isValidIPv6_isSome hreads) fun b _ => ?_
      refine isSome_ite (fun _ => rfl) fun _ => ?_
      exact ih hn true (Nat.zero_add _).symm
    · refine isSome_bind (isSome_ite (fun _ => isValidScope_isSome hreads)
        fun _ => isValidIPv6_isSome hreads) fun b _ => ?_
      refine isSome_ite (fun _ => rfl) fun _ => ?_
      refine isSome_ite (fun _ => rfl) fun hn0 => ?_
      have hnext : ((c :: p)[1]?).isSome := by
        rw [isSome_getElem?, List.length_cons]
        omega
      refine isSome_bind hnext fun d _ => ?_
      refine isSome_ite (fun _ => rfl) fun _ => ?_
      apply isValidUint_isSome
      change n - 1 < ((c :: p).drop 2).length
      rw [List.length_drop, List.length_cons]
      omega
    · apply ih hn
      change _ = hostspan.len + 1 + p.length
      rw [hhost, List.length_cons]
      omega

theorem isValidEndpoint_isSome {s : StringSpan} (hs : s.Reads) : s.isValidEndpoint.isSome := by
  rw [isValidEndpoint]
  refine isSome_ite (fun _ => rfl) fun hempty => ?_
  refine isSome_bind (byteAt_isSome hs (Nat.zero_le _)) fun a _ => ?_
  refine isSome_ite (fun _ => ?_) fun _ => ?_
  · apply bracketLoop_isSome
    · rw [List.length_drop]
      have := hs
      rw [Reads] at this
      omega
    · exact (Nat.zero_add _).symm
  · refine isSome_index hs.le fun i hlt => ?_
    cases i with
    | none => rfl
    | some i =>
      have hi := hlt i rfl
      refine isSome_bind (isValidUint_isSome (hs.behind hi) _ _ _) fun b _ => ?_
      refine isSome_ite (fun _ => rfl) fun _ => ?_
      refine isSome_bind (isValidIPv4_isSome (hs.shorten hi.le)) fun b _ => ?_
      exact isSome_ite (fun _ => rfl) fun _ => isValidHostname_isSome (hs.shorten hi.le)

theorem isValidWSURL_isSome {s : StringSpan} (hs : s.Reads) : s.isValidWSURL.isSome := by
  have hscheme : ∀ {n : Nat} {c : Str},
      (if n < s.len then isCaselessSame ⟨s.s, n⟩ c else some false).isSome :=
    isSome_ite (fun h => isCaselessSame_isSome (hs.shorten h.le) _) fun _ => rfl
  have hlong : ∀ {n : Nat} {c : Str},
      (if n < s.len then isCaselessSame ⟨s.s, n⟩ c else some false) = some true → n < s.len := by
    intro n c h
    by_contra hn
    rw [if_neg hn] at h
    cases h
  rw [isValidWSURL]
  refine isSome_bind hscheme fun ws hws => ?_
  refine isSome_bind hscheme fun wss hwss => ?_
  refine isSome_ite (fun _ => rfl) fun hnone => ?_
  have hstart : (if ws = true then 5 else 6) ≤ s.len := by
    cases ws with
    | true => exact (hlong hws).le
    | false =>
      cases wss with
      | true => exact (hlong hwss).le
      | false => exact absurd rfl hnone
  have hreads := hs.advance hstart
  refine isSome_index hreads.le fun i hlt => ?_
  cases i with
  | none => exact isValidEndpoint_isSome hreads
  | some i => exact isValidEndpoint_isSome (hreads.shorten (hlt i rfl).le)

theorem lastColon_isSome {s : StringSpan} (hs : s.Reads) {n : Nat} (hn : n ≤ s.len) :
    ∃ i, lastColon s n = some i ∧ i ≤ n - 1 := by
  induction n with
  | zero => exact ⟨0, rfl, le_rfl⟩
  | succ n ih =>
    obtain ⟨a, ha⟩ := Option.isSome_iff_exists.mp (byteAt_isSome hs (Nat.le_of_succ_le hn))
    obtain ⟨i, hi, hle⟩ := ih (Nat.le_of_succ_le hn)
    rw [lastColon, ha]
    by_cases hc : a = colon
    · exact ⟨n, if_pos hc, le_rfl⟩
    · exact ⟨i, (if_neg hc).trans hi, by omega⟩

end StringSpan

theorem lookup_isSome {s : StringSpan} (hs : s.Reads) (names : List (String × Field)) :
    (s.lookup names).isSome := by
  induction names with
  | nil => rfl
  | cons entry names ih =>
    refine isSome_bind (StringSpan.isCaselessSame_isSome hs _) fun a _ => ?_
    exact isSome_ite (fun _ => rfl) fun _ => ih

end WireGuardWindows.Syntax
