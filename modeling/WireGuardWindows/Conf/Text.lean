import WireGuardWindows.GoStd.Loops
import WireGuardWindows.Conf.Writer

/-!
# Reading back the lines that `ToWgQuick` writes

The shapes of comment and value that survive a line of text, and how the parser's
line splitter takes a written line apart again.
-/

namespace WireGuardWindows.Conf
open GoStd Strings Strconv Netip Unicode

/-- A comment as the parser keeps it: from its `#` to its last visible byte. -/
structure IsComment (c : Str) : Prop where
  head : c.head? = some hash
  last : ∀ b ∈ c.getLast?, b ∉ blanks
  oneLine : newline ∉ c

def CommentLine (c : Str) : Prop := c = [] ∨ IsComment c

structure ScriptText (v : Str) : Prop where
  trimmed : Trimmed v
  oneLine : newline ∉ v

structure ValueText (v : Str) : Prop extends ScriptText v where
  noHash : hash ∉ v

structure KeyName (name lower : Str) : Prop where
  trimmed : Trimmed name
  nonempty : name ≠ []
  noHash : hash ∉ name
  noEquals : equals ∉ name
  oneLine : newline ∉ name
  lower_eq : toLower name = lower

theorem InterfaceKey.keyName (k : InterfaceKey) : KeyName k.name k.lower := by
  cases k <;> exact ⟨by decide, by decide, by decide, by decide, by decide, by decide +kernel⟩

theorem PeerKey.keyName (k : PeerKey) : KeyName k.name k.lower := by
  cases k <;> exact ⟨by decide, by decide, by decide, by decide, by decide, by decide +kernel⟩

theorem InterfaceKey.ofLower_lower (k : InterfaceKey) : ofLower k.lower = some k := by
  cases k <;> decide +kernel

theorem PeerKey.ofLower_lower (k : PeerKey) : ofLower k.lower = some k := by
  cases k <;> decide +kernel

theorem trimRight_eq_self {c : Str} (h : ∀ b ∈ c.getLast?, b ∉ blanks) :
    trimRight c blanks = c := by
  rw [trimRight, List.rdropWhile_eq_self_iff]
  intro hne
  simpa using h (c.getLast hne) (by simp [List.getLast?_eq_some_getLast hne])

theorem trimRight_getLast (s : Str) : ∀ b ∈ (trimRight s blanks).getLast?, b ∉ blanks := by
  intro b hb
  have hne : trimRight s blanks ≠ [] := by
    intro h
    simp [h] at hb
  have hlast := List.rdropWhile_last_not (blanks.contains ·) s hne
  rw [List.getLast?_eq_some_getLast hne, Option.mem_some_iff] at hb
  simpa [← hb, trimRight] using hlast

theorem isComment_trimRight {s : Str} (h : newline ∉ s) :
    IsComment (hash :: trimRight s blanks) where
  head := rfl
  last := by
    intro b hb
    rw [List.getLast?_cons, Option.mem_some_iff] at hb
    cases hlast : (trimRight s blanks).getLast? with
    | none =>
      rw [hlast, Option.getD_none] at hb
      subst hb
      decide
    | some c =>
      rw [hlast, Option.getD_some] at hb
      exact hb ▸ trimRight_getLast s c (by simp [hlast])
  oneLine := by
    intro hmem
    rcases List.mem_cons.mp hmem with hmem | hmem
    · exact absurd hmem (by decide)
    · exact h (mem_trimRight hmem)

theorem IsComment.ne_nil {c : Str} (h : IsComment c) : c ≠ [] := by
  intro hc
  have := h.head
  simp [hc] at this

theorem IsComment.exists_eq {c : Str} (h : IsComment c) :
    ∃ t, c = hash :: t ∧ trimRight t blanks = t := by
  cases c with
  | nil => exact absurd rfl h.ne_nil
  | cons b t =>
    have hb : b = hash := by simpa using h.head
    refine ⟨t, by rw [hb], trimRight_eq_self fun x hx => h.last x ?_⟩
    rw [List.getLast?_cons, Option.mem_def.mp hx]
    rfl

theorem IsComment.append {a b : Str} (ha : IsComment a) (hb : IsComment b) :
    IsComment (a ++ 0x20 :: b) where
  head := by
    obtain ⟨t, rfl, -⟩ := ha.exists_eq
    rfl
  last := by
    obtain ⟨t, rfl, -⟩ := hb.exists_eq
    intro x hx
    apply hb.last x
    simpa [List.getLast?_append, List.getLast?_cons] using hx
  oneLine := by
    intro h
    rcases List.mem_append.mp h with h | h
    · exact ha.oneLine h
    · rcases List.mem_cons.mp h with h | h
      · exact absurd h (by decide)
      · exact hb.oneLine h

theorem commentLine_appendSuffix {s c : Str} (hs : CommentLine s) (hc : CommentLine c) :
    CommentLine (Comments.appendSuffix s c) := by
  rw [Comments.appendSuffix]
  split_ifs with h1 h2
  · exact hs
  · exact hc
  · exact Or.inr ((hs.resolve_left h2).append (hc.resolve_left h1))

theorem lexLine_comment_ok {line : Str} (h : newline ∉ line) :
    CommentLine (lexLine line).comment := by
  rcases cut_cases line hash with ⟨-, hc⟩ | ⟨x, y, rfl, -, hc⟩
  · left
    simp [lexLine, hc]
  · right
    have hy : newline ∉ y := fun hmem => h (by simp [hmem])
    simpa [lexLine, hc] using isComment_trimRight hy

theorem lexLine_commentLine {c : Str} (h : CommentLine c) :
    (lexLine c).stripped = [] ∧ (lexLine c).comment = c := by
  rcases h with rfl | h
  · decide
  · obtain ⟨t, rfl, ht⟩ := h.exists_eq
    have hcut : cut (hash :: t) hash = ([], t, true) := cut_append (a := []) (by simp)
    have hnil : trimSpace [] = [] := by decide
    simp [lexLine, hcut, ht, hnil]

theorem lexLine_code {code suffix : Str} (hcode : hash ∉ code) (ht : Trimmed code)
    (hs : CommentLine suffix) :
    lexLine (code ++ suffixText suffix) =
      { comment := suffix
        stripped := code
        key := toLower (trimSpace (cut code equals).1)
        val := (cut code equals).2.1
        hasValue := (cut code equals).2.2 } := by
  rcases hs with rfl | hs
  · simp [lexLine, suffixText, cut_of_notMem hcode, trimSpace_eq_self ht]
  · obtain ⟨t, rfl, hr⟩ := hs.exists_eq
    have hline : code ++ suffixText (hash :: t) = (code ++ [0x20]) ++ hash :: t := by
      simp [suffixText]
    have hcode' : hash ∉ code ++ [0x20] := by
      rw [List.mem_append, not_or]
      exact ⟨hcode, by decide⟩
    simp only [lexLine, hline, cut_append hcode', trimSpace_append_space ht, hr, if_true]

def fieldText (name val : Str) : Str := name ++ str " = " ++ val

theorem fieldText_eq (name val : Str) :
    fieldText name val = name ++ 0x20 :: equals :: 0x20 :: val := by
  have h : str " = " = [0x20, equals, 0x20] := by decide
  rw [fieldText, h, List.append_assoc]
  rfl

section Field
variable {name lower : Str} (hk : KeyName name lower)
include hk

theorem fieldText_noSpaceLeft (val : Str) : NoSpaceLeft (fieldText name val) := by
  rw [fieldText_eq]
  exact hk.trimmed.1.append hk.nonempty (by decide) _

theorem fieldText_trimmed {val : Str} (hv : Trimmed val) (hne : val ≠ []) :
    Trimmed (fieldText name val) := by
  refine ⟨fieldText_noSpaceLeft hk val, ?_⟩
  have h := hv.2.append hne (name ++ [0x20, equals]) (b := 0x20) (by decide)
  simpa [fieldText_eq] using h

theorem cut_fieldText (val : Str) :
    cut (fieldText name val) equals = (name ++ [0x20], 0x20 :: val, true) := by
  have hn : equals ∉ name ++ [0x20] := by
    rw [List.mem_append, not_or]
    exact ⟨hk.noEquals, by decide⟩
  have h := cut_append (b := 0x20 :: val) hn
  simpa [fieldText_eq] using h

theorem hash_notMem_fieldText {val : Str} (hv : hash ∉ val) : hash ∉ fieldText name val := by
  rw [fieldText_eq, List.mem_append, List.mem_cons, List.mem_cons, List.mem_cons, not_or, not_or,
    not_or, not_or]
  exact ⟨hk.noHash, by decide, by decide, by decide, hv⟩

theorem lexLine_field {val suffix : Str} (hv : ValueText val) (hne : val ≠ [])
    (hs : CommentLine suffix) :
    lexLine (fieldText name val ++ suffixText suffix) =
      { comment := suffix, stripped := fieldText name val, key := lower, val := 0x20 :: val,
        hasValue := true } := by
  rw [lexLine_code (hash_notMem_fieldText hk hv.noHash) (fieldText_trimmed hk hv.trimmed hne) hs,
    cut_fieldText hk, trimSpace_append_space hk.trimmed, hk.lower_eq]

theorem lexLine_anyField (val : Str) :
    lexLine (fieldText name val) =
      { comment := if (cut val hash).2.2 then hash :: trimRight (cut val hash).2.1 blanks else []
        stripped := name ++ 0x20 :: equals :: trimRightSpace (0x20 :: (cut val hash).1)
        key := lower
        val := trimRightSpace (0x20 :: (cut val hash).1)
        hasValue := true } := by
  have hhash : hash ∉ name ++ [0x20, equals, 0x20] := by
    simp only [List.mem_append, List.mem_cons, List.not_mem_nil, or_false, not_or]
    exact ⟨hk.noHash, by decide, by decide, by decide⟩
  have hline : fieldText name val = (name ++ [0x20, equals, 0x20]) ++ val := by
    simp [fieldText_eq]
  have hcut := cut_append_left hhash val
  have hstrip : trimSpace (name ++ [0x20, equals, 0x20] ++ (cut val hash).1) =
      (name ++ [0x20]) ++ equals :: trimRightSpace (0x20 :: (cut val hash).1) := by
    have hleft := fieldText_noSpaceLeft hk (cut val hash).1
    have htext : name ++ [0x20, equals, 0x20] ++ (cut val hash).1 =
        fieldText name (cut val hash).1 := by simp [fieldText_eq]
    rw [htext, trimSpace, trimLeftSpace_eq_self hleft, ← htext]
    have h := trimRightSpace_append (b := equals) (by decide) (by decide) (name ++ [0x20])
      (0x20 :: (cut val hash).1)
    simpa using h
  have hn : equals ∉ name ++ [0x20] := by
    rw [List.mem_append, not_or]
    exact ⟨hk.noEquals, by decide⟩
  simp only [lexLine, hline, hcut, hstrip, cut_append hn, trimSpace_append_space hk.trimmed,
    hk.lower_eq]
  simp

/-- The splitter finds the key of a script line although the value may hold a `#`. -/
theorem lexLine_script (val : Str) :
    (lexLine (fieldText name val)).key = lower ∧ (lexLine (fieldText name val)).hasValue = true ∧
      (lexLine (fieldText name val)).stripped ≠ [] := by
  rw [lexLine_anyField hk]
  exact ⟨rfl, rfl, List.append_ne_nil_of_right_ne_nil _ (List.cons_ne_nil _ _)⟩

end Field

end WireGuardWindows.Conf
