import WireGuardWindows.Conf.Text

/-!
# Printed values parse back

For every kind of value: the text the writer prints is one that the parser's line
splitter leaves alone, and the parser of that kind reads the value back from it.
-/

namespace WireGuardWindows.Conf
open GoStd Strings Strconv Netip Unicode Loops

def Graphic (v : Str) : Prop := ∀ b ∈ v, 0x21 ≤ b ∧ b < 0x7F ∧ b ≠ hash

instance (v : Str) : Decidable (Graphic v) :=
  inferInstanceAs (Decidable (∀ b ∈ v, 0x21 ≤ b ∧ b < 0x7F ∧ b ≠ hash))

theorem spaceRunes_not_graphic {w : Str} (hw : w ∈ spaceRunes) {b : UInt8} (hb : b ∈ w) :
    ¬ (0x21 ≤ b ∧ b < 0x7F) := by
  have hall : spaceRunes.all (·.all fun b => decide (¬ (0x21 ≤ b ∧ b < 0x7F))) = true := by decide
  exact of_decide_eq_true (List.all_eq_true.mp (List.all_eq_true.mp hall w hw) b hb)

theorem Graphic.valueText {v : Str} (h : Graphic v) : ValueText v := by
  have hword : ∀ w ∈ spaceRunes, ¬ w ⊆ v := by
    intro w hw hsub
    obtain ⟨b, hb⟩ := List.exists_mem_of_ne_nil w (spaceRunes_ne_nil w hw)
    have hg := h b (hsub hb)
    exact spaceRunes_not_graphic hw hb ⟨hg.1, hg.2.1⟩
  have hout : ∀ b, ¬ (0x21 ≤ b ∧ b < 0x7F ∧ b ≠ hash) → b ∉ v := fun b hb hmem => hb (h b hmem)
  exact
    { trimmed := ⟨fun w hw hp => hword w hw hp.subset, fun w hw hp => hword w hw hp.subset⟩
      oneLine := hout newline (by decide)
      noHash := hout hash (by decide) }

theorem graphic_of_digits {v : Str} (h : ∀ b ∈ v, isDigit b = true) : Graphic v := by
  intro b hb
  have hd := h b hb
  simp only [isDigit, Bool.and_eq_true, decide_eq_true_eq] at hd
  refine ⟨UInt8.le_trans (show (0x21 : UInt8) ≤ 0x30 by decide) hd.1,
    UInt8.lt_of_le_of_lt hd.2 (show (0x39 : UInt8) < 0x7F by decide), ?_⟩
  rintro rfl
  exact absurd hd.1 (by decide)

theorem graphic_itoa (n : Nat) : Graphic (itoa n) := graphic_of_digits fun _ => isDigit_of_mem_itoa

theorem graphic_key (k : Key) : Graphic k.string := by
  intro b hb
  obtain ⟨h1, h2⟩ := Base64.encodeToString_graphic k.bytes b hb
  refine ⟨UInt8.le_trans (show (0x21 : UInt8) ≤ 0x2B by decide) h1,
    UInt8.lt_trans h2 (show (0x7B : UInt8) < 0x7F by decide), ?_⟩
  rintro rfl
  exact absurd h1 (by decide)

theorem key_string_ne_nil (k : Key) : k.string ≠ [] := by
  obtain ⟨bytes, hlen⟩ := k
  match bytes, hlen with
  | a :: b :: c :: t, _ => simp [Key.string, Base64.encodeToString]

theorem parseKeyBase64_string (k : Key) : parseKeyBase64 k.string = .ok k := by
  simp [parseKeyBase64, Key.string, Base64.decodeString_encodeToString, k.length_eq]

theorem parseIntBetween_itoa {lo : Int} {n : UInt16} (h : lo ≤ n.toNat) (why : String) :
    parseIntBetween .int64 lo 65535 why (itoa n.toNat) = .ok n := by
  have hn : n.toNat < 65536 := n.toNat_lt
  have hr : ¬ ((n.toNat : Int) < lo ∨ (65535 : Int) < n.toNat) := by omega
  simp only [parseIntBetween, atoi_itoa (show n.toNat < 2 ^ 31 by omega), hr, if_false,
    Int.toNat_natCast, Nat.toUInt16, UInt16.ofNat_toNat]

theorem parsePersistentKeepalive_itoa (n : UInt16) :
    parsePersistentKeepalive (itoa n.toNat) = .ok n := by
  have hoff : itoa n.toNat ≠ str "off" := by
    intro h
    have hmem : (0x6F : UInt8) ∈ itoa n.toNat := by
      rw [h]
      decide
    exact absurd (isDigit_of_mem_itoa hmem) (by decide)
  rw [parsePersistentKeepalive, if_neg hoff]
  exact parseIntBetween_itoa (by omega) _

theorem parseMTU_ge {s : Str} {m : UInt16} (h : parseMTU s = .ok m) : 576 ≤ m.toNat := by
  rw [parseMTU, parseIntBetween] at h
  split at h
  · cases h
  · rename_i m' _
    split_ifs at h with hr
    cases h
    rw [not_or, not_lt, not_lt] at hr
    have hm : m'.toNat < 65536 := by omega
    simp only [Nat.toUInt16, UInt16.toNat_ofNat', Nat.mod_eq_of_lt hm]
    omega

theorem parseWSMillis_itoa (n : UInt32) : parseWSMillis (itoa n.toNat) = .ok n := by
  have hn : n.toNat < 2 ^ 32 := n.toNat_lt
  simp [parseWSMillis, parseUint_itoa hn]

theorem parseWSMode_string {m : WSMode} (h : m ≠ .none) : parseWSMode m.string = .ok m := by
  cases m with
  | none => exact absurd rfl h
  | webSocket => decide +kernel
  | wsTunnel => decide +kernel

theorem parseWSMode_ne_none {s : Str} {m : WSMode} (h : parseWSMode s = .ok m) : m ≠ .none := by
  rw [parseWSMode] at h
  split_ifs at h <;> cases h <;> decide

theorem parseWSBool_text (b : Bool) : parseWSBool (boolText b) = .ok b := by
  cases b <;> decide +kernel

theorem parseTableOff_text (b : Bool) :
    parseTableOff (if b then str "off" else str "auto") = .ok b := by
  cases b <;> decide +kernel

theorem parseIPCidr_parsed {s : Str} {p : Prefix} (h : parseIPCidr s = .ok p) : p.Parsed := by
  rw [parseIPCidr] at h
  split at h
  · rename_i q hq
    cases h
    exact parsePrefix_parsed hq
  · split at h
    · cases h
    · rename_i a ha
      cases h
      have hz : a ≠ .zero := fun hz => parseAddr_ne_zero s (hz ▸ ha)
      have hbits : a.withoutZone.bitLen = a.bitLen := by cases a <;> rfl
      have hzone : a.withoutZone.withoutZone = a.withoutZone := by cases a <;> rfl
      have hz' : a.withoutZone ≠ .zero := by
        cases a <;> simp_all [Addr.withoutZone]
      simp [Prefix.Parsed, prefixFrom, hz, hz', hbits, hzone]

theorem parseIPCidr_string {p : Prefix} (h : p.Parsed) : parseIPCidr p.string = .ok p := by
  simp [parseIPCidr, parsePrefix_string h]

theorem prefix_string_inj {as bs : List Prefix} (ha : ∀ a ∈ as, a.Parsed) (hb : ∀ b ∈ bs, b.Parsed)
    (h : as.map Prefix.string = bs.map Prefix.string) : as = bs := by
  have hread : ∀ ps : List Prefix, (∀ p ∈ ps, p.Parsed) →
      (ps.map Prefix.string).map parseIPCidr = ps.map .ok := by
    intro ps hps
    rw [List.map_map]
    apply List.map_congr_left
    intro p hp
    exact parseIPCidr_string (hps p hp)
  have hparse := congrArg (List.map parseIPCidr) h
  rw [hread as ha, hread bs hb] at hparse
  exact List.map_injective_iff.mpr (fun _ _ => Except.ok.inj) hparse

structure ItemText (v : Str) : Prop extends ValueText v where
  nonempty : v ≠ []
  noComma : comma ∉ v

theorem joinList_eq (i : Str) (rest : List Str) :
    joinList (i :: rest) = [comma].intercalate (i :: rest.map (0x20 :: ·)) := by
  have hsep : str ", " = [comma, 0x20] := by decide
  rw [joinList, hsep]
  induction rest generalizing i with
  | nil => simp
  | cons r rest ih =>
    rw [List.intercalate_cons_cons, ih r, List.map_cons, List.intercalate_cons_cons]
    cases rest <;> simp

theorem splitList_joinList {items : List Str} (hne : items ≠ []) (h : ∀ i ∈ items, ItemText i) :
    splitList (joinList items) = .ok items := by
  obtain ⟨i, rest, rfl⟩ := List.exists_cons_of_ne_nil hne
  have hi := h i (by simp)
  have hrest : ∀ r ∈ rest, ItemText r := fun r hr => h r (by simp [hr])
  have hsplit : (joinList (i :: rest)).splitOn comma = i :: rest.map (0x20 :: ·) := by
    rw [joinList_eq]
    apply List.splitOn_intercalate
    · intro l hl
      rcases List.mem_cons.mp hl with rfl | hl
      · exact hi.noComma
      · obtain ⟨r, hr, rfl⟩ := List.mem_map.mp hl
        rw [List.mem_cons, not_or]
        exact ⟨by decide, (hrest r hr).noComma⟩
    · simp
  have htrim : (i :: rest.map (0x20 :: ·)).map trimSpace = i :: rest := by
    rw [List.map_cons, List.map_map, trimSpace_eq_self hi.trimmed]
    congr 1
    conv_rhs => rw [← List.map_id rest]
    exact List.map_congr_left fun r hr => trimSpace_space_cons (hrest r hr).trimmed
  rw [splitList, hsplit]
  conv_rhs => rw [← htrim]
  apply mapM_ok
  intro p hp
  have hmem : trimSpace p ∈ i :: rest := htrim ▸ List.mem_map_of_mem hp
  rw [if_neg (h _ hmem).nonempty]

theorem splitList_items {val : Str} (hv : ValueText val) {items : List Str}
    (h : splitList val = .ok items) : items ≠ [] ∧ ∀ i ∈ items, ItemText i := by
  constructor
  · intro hn
    have hlen := mapM_length h
    rw [hn] at hlen
    exact List.splitOn_ne_nil comma val (List.eq_nil_of_length_eq_zero hlen.symm)
  · intro i hi
    obtain ⟨p, hp, hpi⟩ := exists_of_mem_mapM h hi
    split_ifs at hpi with hne
    cases hpi
    obtain ⟨hcomma, hmem⟩ := of_mem_splitOn hp
    exact
      { trimmed := trimSpace_trimmed p
        oneLine := fun hb => hv.oneLine (hmem _ (mem_trimSpace hb))
        noHash := fun hb => hv.noHash (hmem _ (mem_trimSpace hb))
        nonempty := hne
        noComma := fun hb => hcomma (mem_trimSpace hb) }

theorem joinList_ne_nil {items : List Str} (hne : items ≠ []) (h : ∀ i ∈ items, ItemText i) :
    joinList items ≠ [] := by
  obtain ⟨i, rest, rfl⟩ := List.exists_cons_of_ne_nil hne
  have hi := (h i (by simp)).nonempty
  rw [joinList_eq]
  cases rest with
  | nil => simpa using hi
  | cons r rest => simp [hi]

theorem joinList_trimmed {items : List Str} (h : ∀ i ∈ items, ItemText i) :
    Trimmed (joinList items) := by
  induction items with
  | nil => decide
  | cons i rest ih =>
    have hi := h i (by simp)
    have hrest : ∀ r ∈ rest, ItemText r := fun r hr => h r (by simp [hr])
    cases rest with
    | nil => simpa [joinList] using hi.trimmed
    | cons r rest =>
      have hjoin : joinList (i :: r :: rest) = i ++ comma :: 0x20 :: joinList (r :: rest) := by
        have hsep : str ", " = [comma, 0x20] := by decide
        simp [joinList, hsep, List.intercalate_cons_cons]
      rw [hjoin]
      constructor
      · exact hi.trimmed.1.append hi.nonempty (by decide) _
      · have hr := (ih hrest).2.append (joinList_ne_nil (by simp) hrest) (i ++ [comma]) (b := 0x20)
          (by decide)
        simpa using hr

theorem joinList_valueText {items : List Str} (h : ∀ i ∈ items, ItemText i) :
    ValueText (joinList items) := by
  have hmem : ∀ b ∈ joinList items, b ∈ str ", " ∨ ∃ i ∈ items, b ∈ i := by
    intro b hb
    cases items with
    | nil => simp [joinList] at hb
    | cons i rest =>
      rw [joinList_eq] at hb
      rcases mem_intercalate hb with rfl | ⟨l, hl, hbl⟩
      · exact Or.inl (by decide)
      · rcases List.mem_cons.mp hl with rfl | hl
        · exact Or.inr ⟨l, by simp, hbl⟩
        · obtain ⟨r, hr, rfl⟩ := List.mem_map.mp hl
          rcases List.mem_cons.mp hbl with rfl | hbr
          · exact Or.inl (by decide)
          · exact Or.inr ⟨r, by simp [hr], hbr⟩
  refine { trimmed := joinList_trimmed h, oneLine := ?_, noHash := ?_ }
  · intro hb
    rcases hmem _ hb with hb | ⟨i, hi, hb⟩
    · exact absurd hb (by decide)
    · exact (h i hi).oneLine hb
  · intro hb
    rcases hmem _ hb with hb | ⟨i, hi, hb⟩
    · exact absurd hb (by decide)
    · exact (h i hi).noHash hb

def IsAddrByte (b : UInt8) : Prop := isHex b = true ∨ b = colon ∨ b = dot ∨ b = slash

theorem IsAddrByte.graphic {b : UInt8} (h : IsAddrByte b) :
    0x21 ≤ b ∧ b < 0x7F ∧ b ≠ hash ∧ b ≠ comma := by
  rcases h with h | rfl | rfl | rfl
  · have hr : 0x30 ≤ b ∧ b ≤ 0x66 := by
      simp only [isHex, hexValue] at h
      split_ifs at h with h1 h2 h3
      · exact ⟨h1.1, UInt8.le_trans h1.2 (by decide)⟩
      · exact ⟨UInt8.le_trans (by decide) h2.1, h2.2⟩
      · exact ⟨UInt8.le_trans (by decide) h3.1, UInt8.le_trans h3.2 (by decide)⟩
      · simp at h
    refine ⟨UInt8.le_trans (by decide) hr.1, UInt8.lt_of_le_of_lt hr.2 (by decide), ?_, ?_⟩
    · rintro rfl
      exact absurd hr.1 (by decide)
    · rintro rfl
      exact absurd hr.1 (by decide)
  all_goals decide

theorem itemText_of_addrBytes {v : Str} (hne : v ≠ []) (h : ∀ b ∈ v, IsAddrByte b) :
    ItemText v := by
  have hg : Graphic v := fun b hb =>
    have := (h b hb).graphic
    ⟨this.1, this.2.1, this.2.2.1⟩
  exact
    { toValueText := hg.valueText
      nonempty := hne
      noComma := fun hb => (h _ hb).graphic.2.2.2 rfl }

theorem addrByte_string4 {a : BitVec 32} {b : UInt8} (h : b ∈ string4 a) : IsAddrByte b := by
  rcases mem_string4 h with h | h
  · exact Or.inl (isHex_of_isDigit h)
  · exact Or.inr (Or.inr (Or.inl h))

theorem addrByte_body6 {a : BitVec 128} {b : UInt8} (h : b ∈ body6 a) : IsAddrByte b := by
  rcases mem_body6 h with h | h | h
  · exact Or.inl h
  · exact Or.inr (Or.inl h)
  · exact Or.inr (Or.inr (Or.inl h))

theorem addrByte_of_parsed {p : Prefix} (h : p.Parsed) : ∀ b ∈ p.string, IsAddrByte b := by
  obtain ⟨hz, hzone, hpos, -⟩ := h
  have hvalid : p.isValid = true := by
    rw [Prefix.isValid, bne_iff_ne]
    omega
  have hip : ∀ b ∈ p.ip.string, IsAddrByte b := by
    intro b hb
    cases hp : p.ip with
    | zero => exact absurd hp hz
    | v4 a => exact addrByte_string4 (a := a) (by simpa [hp, Addr.string] using hb)
    | v6 a zone =>
      rw [hp, Addr.withoutZone, Addr.v6.injEq] at hzone
      rw [hp, string_v6, ← hzone.2, zoneSuffix, if_pos rfl, List.append_nil] at hb
      exact addrByte_body6 hb
  rw [Prefix.string, if_pos hvalid]
  intro b hb
  rcases List.mem_append.mp hb with hb | hb
  · exact hip b hb
  · rcases List.mem_cons.mp hb with hb | hb
    · exact Or.inr (Or.inr (Or.inr hb))
    · exact Or.inl (isHex_of_isDigit (isDigit_of_mem_itoa hb))

theorem itemText_prefix {p : Prefix} (h : p.Parsed) : ItemText p.string := by
  refine itemText_of_addrBytes ?_ (addrByte_of_parsed h)
  intro hnil
  have hparse := parsePrefix_string h
  rw [hnil] at hparse
  cases hparse

theorem parseAddr_zone {s zone : Str} {a : BitVec 128} (h : parseAddr s = some (.v6 a zone)) :
    zone = [] ∨ ∃ u, s = u ++ percent :: zone := by
  have hexpand : ∀ z r, expand z r = some (.v6 a zone) → z = zone := by
    intro z r hr
    revert hr
    fun_cases expand z r <;> simp
  have hbody : ∀ u z, parseIPv6Body u z = some (.v6 a zone) → z = zone := by
    intro u z hu
    revert hu
    fun_cases parseIPv6Body u z
    · simp
    all_goals exact hexpand _ _
  revert h
  fun_cases parseAddr s
  · simp [parseIPv4]
  · intro h
    rw [parseIPv6] at h
    rcases cut_cases s percent with ⟨-, hc⟩ | ⟨u, z, hs, -, hc⟩
    · rw [hc] at h
      exact Or.inl (hbody _ _ h).symm
    · rw [hc] at h
      split at h
      · cases h
      · rename_i heq
        cases heq
        exact Or.inr ⟨u, by rw [hs, hbody _ _ h]⟩
  all_goals simp

theorem itemText_addr {s : Str} {a : Addr} (hs : ItemText s) (h : parseAddr s = some a) :
    ItemText a.string := by
  cases a with
  | zero => exact absurd h (parseAddr_ne_zero s)
  | v4 a => exact itemText_of_addrBytes (List.ne_nil_of_mem (dot_mem_string4 a)) fun _ =>
    addrByte_string4
  | v6 a zone =>
    have hbody := itemText_of_addrBytes (v := body6 a)
      (List.ne_nil_of_mem (List.mem_of_find?_eq_some (by simpa using find_mark_body6 a [])))
      fun _ => addrByte_body6
    rw [string_v6, zoneSuffix]
    split_ifs with hz
    · simpa using hbody
    · obtain ⟨u, rfl⟩ := (parseAddr_zone h).resolve_left hz
      have hout : ∀ b, b ∉ body6 a → b ∉ u ++ percent :: zone → b ∉ body6 a ++ percent :: zone := by
        intro b h1 h2 hmem
        rcases List.mem_append.mp hmem with hmem | hmem
        · exact h1 hmem
        · exact h2 (List.mem_append_right u hmem)
      have hzr : NoSpaceRight zone := hs.trimmed.2.of_isSuffix ⟨u ++ [percent], by simp⟩
      exact
        { trimmed := ⟨hbody.trimmed.1.append hbody.nonempty (by decide) _,
            hzr.append hz _ (by decide)⟩
          oneLine := hout _ hbody.oneLine hs.oneLine
          noHash := hout _ hbody.noHash hs.noHash
          nonempty := by simp
          noComma := hout _ hbody.noComma hs.noComma }

theorem endpointAt_string {host : Str} {port : UInt16} {e : Endpoint}
    (h : endpointAt host port = .ok e) :
    e.port = port ∧ e.string = host ++ colon :: itoa port.toNat := by
  rw [endpointAt] at h
  split_ifs at h with hb hv6
  · cases h
    rw [bracketedIPv6] at hv6
    simp only [Bool.and_eq_true, beq_iff_eq, decide_eq_true_eq, List.contains_iff_mem] at hv6
    obtain ⟨⟨⟨⟨hlen, hhead⟩, hlast⟩, hcolon⟩, -⟩ := hv6
    obtain ⟨t, rfl⟩ : ∃ t, host = openBracket :: t := by
      cases host with
      | nil => simp at hhead
      | cons b t => exact ⟨t, by rw [show b = openBracket by simpa using hhead]⟩
    obtain ⟨inner, rfl⟩ : ∃ inner, t = inner ++ [closeBracket] := by
      rcases List.eq_nil_or_concat t with rfl | ⟨inner, c, rfl⟩
      · simp at hlen
      · have hc : c = closeBracket := by
          simpa [List.getLast?_cons, List.getLast?_append] using hlast
        exact ⟨inner, by rw [hc, List.concat_eq_append]⟩
    have hin : colon ∈ inner := by
      simp only [List.mem_cons, List.mem_append, List.not_mem_nil, or_false] at hcolon
      rcases hcolon with h | h | h
      · exact absurd h (by decide)
      · exact h
      · exact absurd h (by decide)
    have htake : ((openBracket :: (inner ++ [closeBracket])).take
        ((openBracket :: (inner ++ [closeBracket])).length - 1)).drop 1 = inner := by
      simp
    refine ⟨rfl, ?_⟩
    rw [htake, Endpoint.string, if_pos hin]
    simp [openBracket, closeBracket]
  · cases h
    have hcolon : colon ∉ host := fun hmem => hb (Or.inr (Or.inr hmem))
    exact ⟨rfl, if_neg hcolon⟩

theorem parseEndpoint_eq_ok {s : Str} {e : Endpoint} (h : parseEndpoint s = .ok e) :
    ∃ host portStr, s = host ++ colon :: portStr ∧ host ≠ [] ∧ endpointAt host e.port = .ok e := by
  rw [parseEndpoint] at h
  split at h
  · cases h
  · rename_i host portStr hcut
    split_ifs at h with hne
    obtain ⟨port, -, hat⟩ := bind_eq_ok h
    have hport := (endpointAt_string hat).1
    exact ⟨host, portStr, (cutLast_eq_some hcut).1, hne, hport ▸ hat⟩

theorem parseEndpoint_string {s : Str} {e : Endpoint} (h : parseEndpoint s = .ok e) :
    parseEndpoint e.string = .ok e := by
  obtain ⟨host, portStr, -, hne, hat⟩ := parseEndpoint_eq_ok h
  have hcolon : colon ∉ itoa e.port.toNat := fun hmem =>
    absurd (isDigit_of_mem_itoa hmem) (by decide)
  have hport : parsePort (itoa e.port.toNat) = .ok e.port := parseIntBetween_itoa (by omega) _
  rw [(endpointAt_string hat).2, parseEndpoint, cutLast_append hcolon]
  simp only [hne, if_false, hport]
  exact hat

theorem parseEndpoint_host_ne_nil {s : Str} {e : Endpoint} (h : parseEndpoint s = .ok e) :
    e.host ≠ [] := by
  obtain ⟨host, portStr, -, hne, hat⟩ := parseEndpoint_eq_ok h
  intro hnil
  have hlen : e.string = colon :: itoa e.port.toNat := by
    simp [Endpoint.string, hnil]
  rw [(endpointAt_string hat).2] at hlen
  have := congrArg List.length hlen
  simp only [List.length_append, List.length_cons] at this
  exact hne (List.eq_nil_of_length_eq_zero (by omega))

theorem parseEndpoint_valueText {s : Str} {e : Endpoint} (hs : ValueText s)
    (h : parseEndpoint s = .ok e) : ValueText e.string ∧ e.string ≠ [] ∧ e.host ≠ [] := by
  have hhost := parseEndpoint_host_ne_nil h
  obtain ⟨host, portStr, rfl, hne, hat⟩ := parseEndpoint_eq_ok h
  have hstr := (endpointAt_string hat).2
  have hleft : NoSpaceLeft host := hs.trimmed.1.of_isPrefix (List.prefix_append _ _)
  have hitoa := (graphic_itoa e.port.toNat).valueText
  have hout : ∀ b, b ∉ host ++ colon :: portStr → b ∉ itoa e.port.toNat → b ∉ e.string := by
    intro b hb hi hmem
    rw [hstr, List.mem_append, List.mem_cons] at hmem
    rw [List.mem_append, List.mem_cons] at hb
    rcases hmem with hmem | hmem | hmem
    · exact hb (Or.inl hmem)
    · exact hb (Or.inr (Or.inl hmem))
    · exact hi hmem
  have ht : Trimmed e.string := by
    rw [hstr]
    exact ⟨hleft.append hne (by decide) _,
      hitoa.trimmed.2.append (itoa_ne_nil _) _ (by decide)⟩
  exact ⟨⟨⟨ht, hout _ hs.oneLine hitoa.oneLine⟩, hout _ hs.noHash hitoa.noHash⟩,
    by simp [hstr], hhost⟩

theorem lowerByte_eq_colon {b : UInt8} (h : lowerByte b = colon) : b = colon := by
  rw [lowerByte] at h
  split_ifs at h with hup
  · have hall : ∀ n < 0x5B, ¬ n < 0x41 → UInt8.ofNat n + 0x20 ≠ colon := by decide
    exfalso
    apply hall b.toNat
    · exact Nat.lt_succ_of_le (UInt8.le_iff_toNat_le.mp hup.2)
    · exact Nat.not_lt.mpr (UInt8.le_iff_toNat_le.mp hup.1)
    · simpa using h
  · exact h

theorem lowerByte_digit {b : UInt8} (h : isDigit b = true) : lowerByte b = b := by
  simp only [isDigit, Bool.and_eq_true, decide_eq_true_eq] at h
  rw [lowerByte, if_neg]
  intro hup
  exact absurd (UInt8.le_trans hup.1 h.2) (by decide)

/-- A printed endpoint never looks like a URL: its first colon ends the host or
stands inside brackets, and a digit follows the last one. -/
theorem isWSURL_string {s : Str} {e : Endpoint} (h : parseEndpoint s = .ok e) :
    isWSURL e.string = false := by
  have key : ∀ scheme : Str, (∀ b ∈ scheme ++ colon :: [slash, slash],
      b < 0x80 ∧ b ≠ 0x69 ∧ b ≠ 0x6B) → scheme.head? = some 0x77 → colon ∉ scheme →
      ¬ scheme ++ colon :: [slash, slash] <+: toLower e.string := by
    intro scheme hascii hw hcolon hp
    obtain ⟨host, portStr, -, hne, hat⟩ := parseEndpoint_eq_ok h
    obtain ⟨r, hr⟩ := isPrefix_toLower hascii hp
    rw [(endpointAt_string hat).2, List.map_append, List.map_cons,
      show lowerByte colon = colon by decide, List.append_assoc] at hr
    have hhost : colon ∉ host := by
      intro hmem
      rw [endpointAt, if_pos (Or.inr (Or.inr hmem))] at hat
      split_ifs at hat with hv6
      rw [bracketedIPv6] at hv6
      simp only [Bool.and_eq_true, beq_iff_eq, decide_eq_true_eq] at hv6
      have hhead := hv6.1.1.1.2
      cases host with
      | nil => simp at hhead
      | cons b t =>
        have hb : b = openBracket := by simpa using hhead
        cases scheme with
        | nil => simp at hw
        | cons c u =>
          have hc : c = 0x77 := by simpa using hw
          have := congrArg List.head? hr
          simp only [List.cons_append, List.map_cons, List.head?_cons, hb, hc] at this
          exact absurd this (by decide)
    have hlow : colon ∉ host.map lowerByte := by
      intro hmem
      obtain ⟨b, hb, hbl⟩ := List.mem_map.mp hmem
      exact hhost (lowerByte_eq_colon hbl ▸ hb)
    have hcut := congrArg (fun l => (cut l colon).2.1) hr
    simp only [List.cons_append, cut_append hcolon, cut_append hlow] at hcut
    obtain ⟨d, u, hdu⟩ := List.exists_cons_of_ne_nil (itoa_ne_nil e.port.toNat)
    have hd : isDigit d = true := isDigit_of_mem_itoa (n := e.port.toNat) (by simp [hdu])
    rw [hdu, List.map_cons, lowerByte_digit hd] at hcut
    have hslash : slash = d := (List.cons.inj hcut).1
    exact absurd (hslash ▸ hd) (by decide)
  have hws := key (str "ws") (by decide +kernel) (by decide) (by decide)
  have hwss := key (str "wss") (by decide +kernel) (by decide) (by decide)
  have h1 : str "ws" ++ colon :: [slash, slash] = str "ws://" := by decide
  have h2 : str "wss" ++ colon :: [slash, slash] = str "wss://" := by decide
  rw [h1, ← List.isPrefixOf_iff_prefix] at hws
  rw [h2, ← List.isPrefixOf_iff_prefix] at hwss
  simp [isWSURL, hws, hwss]

end WireGuardWindows.Conf
