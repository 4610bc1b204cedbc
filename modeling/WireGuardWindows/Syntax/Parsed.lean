import WireGuardWindows.Conf.Accepted
import WireGuardWindows.Syntax.Lines

/-!
# Highlighted lines under the parser

The parser trims Unicode white space and folds case by rune; the highlighter trims blanks and
folds ASCII letters. On the lines that the highlighter accepts the two agree on the key, and on
the values that are made of graphic bytes.
-/

namespace WireGuardWindows.Syntax
open GoStd Strings Unicode Highlight Conf Loops

theorem blank_mem_spaceRunes {b : UInt8} (h : isBlank b = true) : [b] ∈ spaceRunes := by
  simp only [isBlank, Bool.or_eq_true, decide_eq_true_eq] at h
  rcases h with rfl | rfl <;> decide

theorem blank_of_isBlank {y : Str} (h : ∀ b ∈ y, isBlank b = true) : Blank y :=
  blank_of_bytes fun b hb => blank_mem_spaceRunes (h b hb)

theorem trimSpace_eq_trimBlanks {s : Str} (h : Trimmed (trimBlanks s)) :
    trimSpace s = trimBlanks s := by
  obtain ⟨y, w, hy, hw, hs, -⟩ := token_feedAll s []
  have htrim := trimSpace_around (blank_of_isBlank hy) (blank_of_isBlank hw) h
  rwa [hs] at htrim

theorem trimSpace_trimRightSpace {v : Str} (h : Trimmed (trimBlanks v)) (hne : trimBlanks v ≠ []) :
    trimSpace (trimRightSpace v) = trimBlanks v := by
  obtain ⟨y, w, hy, hw, hv, -⟩ := token_feedAll v []
  have hright := trimRightSpace_around (blank_of_isBlank hy) (blank_of_isBlank hw) h.2 hne
  rw [hv] at hright
  have htrim := trimSpace_around (blank_of_isBlank hy) blank_nil h
  rwa [List.append_nil, ← hright] at htrim

theorem forall_byte {p : UInt8 → Prop} (h : ∀ n < 256, p (UInt8.ofNat n)) (b : UInt8) : p b := by
  simpa using h b.toNat b.toNat_lt

theorem lower_of_upper {s t : Str} (h : s.map StringSpan.upper = t.map StringSpan.upper) :
    s.map lowerByte = t.map lowerByte := by
  have hbyte : ∀ b, lowerByte (StringSpan.upper b) = lowerByte b := forall_byte (by decide +kernel)
  have hmap : ∀ u : Str, (u.map StringSpan.upper).map lowerByte = u.map lowerByte := by
    intro u
    simp [hbyte]
  rw [← hmap s, h, hmap]

theorem graphic_of_upper {s : Str} (h : Graphic (s.map StringSpan.upper)) : Graphic s := by
  have hbyte : ∀ b, 0x21 ≤ StringSpan.upper b ∧ StringSpan.upper b < 0x7F ∧
      StringSpan.upper b ≠ hash → 0x21 ≤ b ∧ b < 0x7F ∧ b ≠ hash := forall_byte (by decide +kernel)
  intro b hb
  exact hbyte b (h _ (List.mem_map_of_mem hb))

theorem graphic_name {name : String} {f : Field} (h : (name, f) ∈ fieldNames ++ sectionNames) :
    Graphic ((str name).map StringSpan.upper) := by
  have hall : (fieldNames ++ sectionNames).all (fun e => ((str e.1).map StringSpan.upper).all
      fun b => decide (0x21 ≤ b ∧ b < 0x7F ∧ b ≠ hash)) = true := by
    decide +kernel
  intro b hb
  have hname := List.all_eq_true.mp hall _ h
  simpa using List.all_eq_true.mp hname b hb

theorem isASCII_of_graphic {s : Str} (h : Graphic s) : isASCII s = true := by
  rw [isASCII, List.all_eq_true]
  intro b hb
  exact decide_eq_true (UInt8.lt_trans (h b hb).2.1 (by decide))

theorem lexLine_blank {line : Str} (h : trimBlanks (cut line hash).1 = []) :
    (lexLine line).stripped = [] := by
  have htrim : trimSpace (cut line hash).1 = trimBlanks (cut line hash).1 :=
    trimSpace_eq_trimBlanks (by rw [h]; decide)
  rw [lexLine]
  exact htrim.trans h

theorem lexLine_header {line : Str} {name : String} {f : Field} (hname : (name, f) ∈ sectionNames)
    (h : (trimBlanks (cut line hash).1).map StringSpan.upper = (str name).map StringSpan.upper) :
    (lexLine line).key = (str name).map lowerByte ∧ (lexLine line).hasValue = false ∧
      (lexLine line).stripped ≠ [] := by
  have hgraphic : Graphic (trimBlanks (cut line hash).1) :=
    graphic_of_upper (h ▸ graphic_name (List.mem_append_right _ hname))
  have htrim : trimSpace (cut line hash).1 = trimBlanks (cut line hash).1 :=
    trimSpace_eq_trimBlanks hgraphic.valueText.trimmed
  have hequals : equals ∉ trimBlanks (cut line hash).1 := by
    intro hmem
    have hall : sectionNames.all (fun e => !((str e.1).map StringSpan.upper).contains equals) =
        true := by
      decide +kernel
    have hnot : equals ∉ (str name).map StringSpan.upper := by
      simpa using List.all_eq_true.mp hall _ hname
    exact hnot (h ▸ List.mem_map.mpr ⟨equals, hmem, by decide⟩)
  have hne : trimBlanks (cut line hash).1 ≠ [] := by
    intro he
    rw [he] at h
    have hall : sectionNames.all (fun e => !((str e.1).map StringSpan.upper).isEmpty) = true := by
      decide +kernel
    have hempty := List.all_eq_true.mp hall _ hname
    rw [← h] at hempty
    exact absurd hempty (by decide)
  have hlower : toLower (trimSpace (trimBlanks (cut line hash).1)) = (str name).map lowerByte := by
    rw [trimSpace_eq_self hgraphic.valueText.trimmed,
      toLower_of_isASCII (isASCII_of_graphic hgraphic)]
    exact lower_of_upper h
  simp [lexLine, htrim, cut_of_notMem hequals, hlower, hne]

theorem lexLine_key {line k v : Str} {name : String} {f : Field}
    (hcode : (cut line hash).1 = k ++ equals :: v) (hk : equals ∉ k)
    (hname : (name, f) ∈ fieldNames)
    (hkey : (trimBlanks k).map StringSpan.upper = (str name).map StringSpan.upper) :
    (lexLine line).key = (str name).map lowerByte ∧ (lexLine line).hasValue = true ∧
      (lexLine line).val = trimRightSpace v ∧ (lexLine line).stripped ≠ [] := by
  have hgraphic : Graphic (trimBlanks k) :=
    graphic_of_upper (hkey ▸ graphic_name (List.mem_append_left _ hname))
  have hspace : [equals] ∉ spaceRunes := by decide
  have hstrip : trimSpace (cut line hash).1 = trimLeftSpace k ++ equals :: trimRightSpace v := by
    rw [hcode, trimSpace, trimLeftSpace_append (by decide) hspace,
      trimRightSpace_append (by decide) hspace]
  have hk' : equals ∉ trimLeftSpace k := fun hmem => hk ((trimLeftSpace_suffix k).subset hmem)
  have htrim : trimSpace (trimLeftSpace k) = trimBlanks k := by
    rw [trimSpace, trimLeftSpace_eq_self (noSpaceLeft_trimLeftSpace k), ← trimSpace]
    exact trimSpace_eq_trimBlanks hgraphic.valueText.trimmed
  have hlower : toLower (trimBlanks k) = (str name).map lowerByte := by
    rw [toLower_of_isASCII (isASCII_of_graphic hgraphic)]
    exact lower_of_upper hkey
  simp [lexLine, hstrip, cut_append hk', htrim, hlower]

def GraphicByte (b : UInt8) : Prop := 0x21 ≤ b ∧ b < 0x7F

theorem GraphicByte.not_space {b : UInt8} (h : GraphicByte b) : b < 0x80 ∧ [b] ∉ spaceRunes := by
  refine ⟨UInt8.lt_trans h.2 (by decide), ?_⟩
  intro hs
  exact spaceRunes_not_graphic hs (List.mem_singleton_self b) h

theorem trimmed_of_bytes {s : Str} (h : ∀ b ∈ trimBlanks s, isBlank b = true ∨ GraphicByte b) :
    Trimmed (trimBlanks s) := by
  by_cases hne : trimBlanks s = []
  · rw [hne]
    decide
  have hdrop : dropBlanks s ≠ [] := fun he => hne (trimBlanks_eq_nil.mpr he)
  obtain ⟨w, -, hw⟩ := trimBlanks_append s
  constructor
  · have hhead := List.head_dropWhile_not isBlank hdrop
    obtain ⟨b, t, ht⟩ := List.exists_cons_of_ne_nil hne
    have hb : ¬ isBlank b = true := by
      have hbhead : (dropBlanks s).head hdrop = b := by simp [hw, ht]
      rw [← hbhead]
      simpa [dropBlanks] using hhead
    have hg := ((h b (by simp [ht])).resolve_left hb).not_space
    rw [ht]
    exact noSpaceLeft_cons hg.1 hg.2 t
  · obtain ⟨t, b, ht⟩ := (List.eq_nil_or_concat (trimBlanks s)).resolve_left hne
    have hlast := List.rdropWhile_last_not isBlank (dropBlanks s) hne
    have hb : ¬ isBlank b = true := by
      have hblast : (trimBlanks s).getLast hne = b := by simp [ht]
      rw [← hblast]
      exact hlast
    have hg := ((h b (by simp [ht])).resolve_left hb).not_space
    rw [ht, List.concat_eq_append]
    exact noSpaceRight_concat hg.1 hg.2 t

theorem isNetByte_graphic {b : UInt8} (h : StringSpan.isNetByte b = true) : GraphicByte b := by
  have hall : ∀ b, StringSpan.isNetByte b = true → 0x21 ≤ b ∧ b < 0x7F :=
    forall_byte (by decide +kernel)
  exact hall b h

theorem mem_trimBlanks_or {s : Str} {b : UInt8} (h : b ∈ s) :
    isBlank b = true ∨ b ∈ trimBlanks s := by
  obtain ⟨y, w, hy, hw, hs, -⟩ := token_feedAll s []
  rw [← hs] at h
  simp only [List.mem_append] at h
  rcases h with h | h | h
  · exact Or.inl (hy b h)
  · exact Or.inr h
  · exact Or.inl (hw b h)

theorem items_bytes {v : Str} (h : ∀ t ∈ items v, NetText t) :
    ∀ b ∈ v, isBlank b = true ∨ GraphicByte b := by
  have hpiece : ∀ p : Str, NetText (trimBlanks p) → ∀ b ∈ p, isBlank b = true ∨ GraphicByte b :=
    fun p hp b hb => (mem_trimBlanks_or hb).imp_right fun hm => isNetByte_graphic (hp b hm)
  induction hn : v.length using Nat.strong_induction_on generalizing v with
  | _ n ih =>
    subst hn
    rcases cut_cases v comma with ⟨hnot, -⟩ | ⟨a, r, rfl, ha, -⟩
    · rw [items_of_notMem hnot] at h
      exact hpiece v (h _ (List.mem_singleton_self _))
    · rw [items_append ha] at h
      intro b hb
      rcases List.mem_append.mp hb with hb | hb
      · exact hpiece a (h _ List.mem_cons_self) b hb
      rcases List.mem_cons.mp hb with rfl | hb
      · exact Or.inr ⟨by decide, by decide⟩
      · exact ih r.length (by simp; omega) (fun t ht => h t (List.mem_cons_of_mem _ ht)) rfl b hb

theorem items_eq_trimSpace {v : Str} (h : ∀ t ∈ items v, NetText t) :
    (v.splitOn comma).map trimSpace = items v := by
  apply List.map_congr_left
  intro p hp
  apply trimSpace_eq_trimBlanks
  apply trimmed_of_bytes
  intro b hb
  exact Or.inr (isNetByte_graphic (h _ (List.mem_map_of_mem hp) b hb))

theorem splitList_eq_ok {v : Str} {l : List Str} (h : splitList v = .ok l) :
    l = (v.splitOn comma).map trimSpace := by
  apply mapM_eq_map _ h
  intro p hp t ht
  split_ifs at ht
  exact (Except.ok.inj ht).symm

end WireGuardWindows.Syntax
