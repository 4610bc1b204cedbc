import WireGuardWindows.Conf.Accepted
import WireGuardWindows.GoStd.Fields

/-!
# The wg-quick round trip

Parsing the written text rebuilds a canonical configuration key by key. `restrict S`
is the part of a section that the keys in `S` carry: the field lines of a further key
`k` take the parser from `restrict S` to `restrict (k :: S)`.
-/

namespace WireGuardWindows.Conf
open GoStd Strings Strconv Netip Unicode Loops

variable {urlParse : Str → Option URL}

theorem parse_commentLines {bs : List Str} (h : ∀ b ∈ bs, CommentLine b) (st : ParserState) :
    bs.foldlM (parseLine urlParse) st =
      .ok { st with pendingComments := st.pendingComments ++ bs } := by
  induction bs generalizing st with
  | nil => simp [pure, Except.pure]
  | cons b bs ih =>
    obtain ⟨hs, hc⟩ := lexLine_commentLine (h b List.mem_cons_self)
    have hline : parseLine urlParse st b =
        .ok { st with pendingComments := st.pendingComments ++ [b] } := by
      simp [parseLine, hs, hc, pure, Except.pure]
    rw [List.foldlM_cons, hline]
    refine (ih (fun x hx => h x (List.mem_cons_of_mem b hx)) _).trans ?_
    simp

theorem parse_writeLine {c : Comments} (hc : c.Ok) (line : Str) (st : ParserState) :
    (writeLine c line).foldlM (parseLine urlParse) st =
      parseLine urlParse { st with pendingComments := st.pendingComments ++ c.before }
        (line ++ suffixText c.suffix) := by
  rw [writeLine, List.foldlM_append, parse_commentLines hc.before]
  simp only [List.foldlM_cons, List.foldlM_nil, bind_pure]
  rfl

theorem parse_interfaceHeader {suffix : Str} (hs : CommentLine suffix) (st : ParserState) :
    parseLine urlParse st (str "[Interface]" ++ suffixText suffix) = do
      let conf ← st.finishPeer
      return { st with
        conf := interfaceHeader conf st.pendingComments suffix
        state := .inInterfaceSection
        pendingComments := [] } := by
  have hcut : cut (str "[Interface]") equals = (str "[Interface]", [], false) := by decide
  have hkey : toLower (trimSpace (str "[Interface]")) = str "[interface]" := by decide +kernel
  have hne : str "[Interface]" ≠ [] := by decide
  rw [parseLine, lexLine_code (by decide) (by decide) hs, hcut]
  simp [hkey, hne, interfaceHeader]

theorem parse_peerHeader {suffix : Str} (hs : CommentLine suffix) (st : ParserState) :
    parseLine urlParse st (str "[Peer]" ++ suffixText suffix) = do
      let conf ← st.finishPeer
      return { st with
        conf := conf
        state := .inPeerSection (newPeer st.pendingComments suffix) []
        pendingComments := [] } := by
  have hcut : cut (str "[Peer]") equals = (str "[Peer]", [], false) := by decide
  have hkey : toLower (trimSpace (str "[Peer]")) = str "[peer]" := by decide +kernel
  have hne : str "[Peer]" ≠ [] := by decide
  have hni : str "[peer]" ≠ str "[interface]" := by decide
  rw [parseLine, lexLine_code (by decide) (by decide) hs, hcut]
  simp [hkey, hne, hni, newPeer]

structure Writable (lower val suffix : Str) : Prop where
  nonempty : val ≠ []
  script : ScriptText val
  value : lower ∉ scriptKeys → ValueText val
  noSuffix : lower ∈ scriptKeys → suffix = []

theorem lexLine_fieldText {name lower val suffix : Str} (hk : KeyName name lower)
    (hw : Writable lower val suffix) (hs : CommentLine suffix) :
    (lexLine (fieldText name val ++ suffixText suffix)).stripped ≠ [] ∧
      (lexLine (fieldText name val ++ suffixText suffix)).key = lower ∧
      (lexLine (fieldText name val ++ suffixText suffix)).hasValue = true ∧
      valueOf (fieldText name val ++ suffixText suffix)
        (lexLine (fieldText name val ++ suffixText suffix)) = (val, suffix) := by
  by_cases hsc : lower ∈ scriptKeys
  · have hnil := hw.noSuffix hsc
    subst hnil
    obtain ⟨hkey, hval, hne⟩ := lexLine_script hk val
    rw [suffixText, if_pos rfl, List.append_nil]
    refine ⟨hne, hkey, hval, ?_⟩
    rw [valueOf, hkey, if_pos hsc, cut_fieldText hk, trimSpace_space_cons hw.script.trimmed]
  · rw [lexLine_field hk (hw.value hsc) hw.nonempty hs]
    refine ⟨by simp [fieldText_eq], rfl, rfl, ?_⟩
    rw [valueOf, if_neg hsc, trimSpace_space_cons hw.script.trimmed]

theorem parse_interfaceField {k : InterfaceKey} {val suffix : Str}
    (hw : Writable k.lower val suffix) (hs : CommentLine suffix) {st : ParserState}
    (hst : st.state = .inInterfaceSection) :
    parseLine urlParse st (fieldText k.name val ++ suffixText suffix) = do
      let i ← Interface.set
        { st.conf.interface with
          comments := st.conf.interface.comments.attach k st.pendingComments suffix } val k
      return { st with
        conf := { st.conf with interface := i }
        state := .inInterfaceSection
        sawPrivateKey := st.sawPrivateKey || k == .privateKey
        pendingComments := [] } := by
  obtain ⟨hne, hkey, hval, hvo⟩ := lexLine_fieldText k.keyName hw hs
  have hi : k.lower ≠ str "[interface]" := by cases k <;> decide
  have hp : k.lower ≠ str "[peer]" := by cases k <;> decide
  simp only [parseLine, hne, hkey, hval, hvo, hi, hp, hst, false_and, if_false, not_true_eq_false,
    hw.nonempty, ParserState.setKey, InterfaceKey.ofLower_lower]

theorem parse_peerField {k : PeerKey} {val suffix : Str} (hw : Writable k.lower val suffix)
    (hs : CommentLine suffix) {st : ParserState} {p : Peer} {wsKeys : List Str}
    (hst : st.state = .inPeerSection p wsKeys) :
    parseLine urlParse st (fieldText k.name val ++ suffixText suffix) = do
      let p ← Peer.set urlParse
        { p with comments := p.comments.attach k st.pendingComments suffix } val k
      return { st with
        state := .inPeerSection p (wsKeys ++ k.wsKeyName.toList)
        pendingComments := [] } := by
  obtain ⟨hne, hkey, hval, hvo⟩ := lexLine_fieldText k.keyName hw hs
  have hi : k.lower ≠ str "[interface]" := by cases k <;> decide
  have hp : k.lower ≠ str "[peer]" := by cases k <;> decide
  simp only [parseLine, hne, hkey, hval, hvo, hi, hp, hst, false_and, if_false, not_true_eq_false,
    hw.nonempty, ParserState.setKey, PeerKey.ofLower_lower]

section Restrict
variable {K : Type} [DecidableEq K]

def SectionComments.restrict (c : SectionComments K) (S : List K) : SectionComments K where
  header := c.header
  lines k := if k ∈ S then c.lines k else {}

theorem SectionComments.restrict_attach (c : SectionComments K) {S : List K} {k : K} (hk : k ∉ S) :
    (c.restrict S).attach k (c.lines k).before (c.lines k).suffix = c.restrict (k :: S) := by
  have hline : Comments.attach {} (c.lines k).before (c.lines k).suffix = c.lines k := by
    cases hc : c.lines k with
    | mk before suffix =>
      by_cases hs : suffix = [] <;> simp [Comments.attach, Comments.appendSuffix, hs]
  have hlines : Function.update (c.restrict S).lines k (((c.restrict S).lines k).attach
      (c.lines k).before (c.lines k).suffix) = (c.restrict (k :: S)).lines := by
    funext k'
    by_cases hkk : k' = k
    · subst hkk
      simp [SectionComments.restrict, hk, hline]
    · simp [SectionComments.restrict, hkk]
  rw [SectionComments.attach, hlines]
  rfl

theorem SectionComments.restrict_unwritten (c : SectionComments K) (S : List K) {k : K}
    (h : (c.lines k).isEmpty = true) : c.restrict (k :: S) = c.restrict S := by
  have hk : c.lines k = {} := by
    cases hc : c.lines k with
    | mk before suffix =>
      simp only [hc, Comments.isEmpty, Bool.and_eq_true, List.isEmpty_iff] at h
      simp [h.1, h.2]
  have hlines : (c.restrict (k :: S)).lines = (c.restrict S).lines := by
    funext k'
    by_cases hkk : k' = k
    · subst hkk
      simp [SectionComments.restrict, hk]
    · simp [SectionComments.restrict, hkk]
  have hheader : (c.restrict (k :: S)).header = (c.restrict S).header := rfl
  cases hr : c.restrict (k :: S)
  cases hs : c.restrict S
  simp_all

end Restrict

theorem writeField_eq_nil {c : Comments} {name : Str} {f : Option (Bool × Str)}
    (h : writeField c name f = []) :
    f = none ∨ (∃ v, f = some (false, v)) ∧ c.isEmpty = true := by
  cases f with
  | none => exact Or.inl rfl
  | some f =>
    obtain ⟨present, v⟩ := f
    simp only [writeField] at h
    split_ifs at h with he
    · rw [Bool.and_eq_true, Bool.not_eq_true'] at he
      exact Or.inr ⟨⟨v, by rw [he.1]⟩, he.2⟩
    · simp [writeLine] at h

theorem writeField_cases (c : Comments) (name : Str) (field : Option (Bool × Str)) :
    writeField c name field = [] ∨ ∃ present v, field = some (present, v) ∧
      writeField c name field = writeLine c (fieldText name v) ∧
      (present = true ∨ c.isEmpty = false) := by
  rcases field with _ | ⟨present, v⟩
  · exact Or.inl rfl
  · simp only [writeField]
    split_ifs with he
    · exact Or.inl rfl
    · refine Or.inr ⟨present, v, rfl, rfl, ?_⟩
      cases present with
      | true => exact Or.inl rfl
      | false => exact Or.inr (by simpa using he)

theorem prefixes_readBack {l : List Prefix} (hne : l ≠ []) (h : ∀ p ∈ l, p.Parsed) :
    ValueText (joinList (l.map Prefix.string)) ∧ joinList (l.map Prefix.string) ≠ [] ∧
      splitList (joinList (l.map Prefix.string)) = .ok (l.map Prefix.string) ∧
      (l.map Prefix.string).mapM parseIPCidr = .ok l := by
  have hitems : ∀ t ∈ l.map Prefix.string, ItemText t :=
    List.forall_mem_map.mpr fun p hp => itemText_prefix (h p hp)
  have hne' : l.map Prefix.string ≠ [] := by simpa using hne
  exact ⟨joinList_valueText hitems, joinList_ne_nil hne' hitems, splitList_joinList hne' hitems,
    mapM_map_inverse fun p hp => parseIPCidr_string (h p hp)⟩

theorem uint16_eq_zero {n : UInt16} (h : decide (0 < n) = false) : n = 0 := by
  have hn : ¬ 0 < n := of_decide_eq_false h
  rw [UInt16.lt_iff_toNat_lt] at hn
  apply UInt16.toNat_inj.mp
  have h0 : (0 : UInt16).toNat = 0 := rfl
  omega

theorem uint32_eq_zero {n : UInt32} (h : decide (0 < n) = false) : n = 0 := by
  have hn : ¬ 0 < n := of_decide_eq_false h
  rw [UInt32.lt_iff_toNat_lt] at hn
  apply UInt32.toNat_inj.mp
  have h0 : (0 : UInt32).toNat = 0 := rfl
  omega

theorem eq_of_unset {p : Prop} [Decidable p] (h : decide (¬ p) = false) : p :=
  not_not.mp (of_decide_eq_false h)

namespace Interface

def restrict (i : Interface) (S : List InterfaceKey) : Interface where
  privateKey := if .privateKey ∈ S then i.privateKey else Key.zero
  addresses := if .address ∈ S then i.addresses else []
  listenPort := if .listenPort ∈ S then i.listenPort else 0
  mtu := if .mtu ∈ S then i.mtu else 0
  dns := if .dns ∈ S then i.dns else []
  dnsSearch := if .dns ∈ S then i.dnsSearch else []
  preUp := if .preUp ∈ S then i.preUp else []
  postUp := if .postUp ∈ S then i.postUp else []
  preDown := if .preDown ∈ S then i.preDown else []
  postDown := if .postDown ∈ S then i.postDown else []
  tableOff := if .table ∈ S then i.tableOff else false
  comments := i.comments.restrict S

def Unwritten (i : Interface) (k : InterfaceKey) : Prop :=
  writeField (i.comments.lines k) k.name (i.field k) = []

theorem restrict_all {i : Interface} {S : List InterfaceKey} (h : ∀ k, k ∈ S) :
    i.restrict S = i := by
  simp [restrict, SectionComments.restrict, h]

theorem isEmpty_of_unwritten {i : Interface} (hi : i.Ok) {k : InterfaceKey} (h : i.Unwritten k) :
    (i.comments.lines k).isEmpty = true := by
  by_contra hc
  have hset := hi.commented k (by simpa using hc)
  rcases writeField_eq_nil h with hf | ⟨-, he⟩
  · cases k
    case address => exact hset (by simpa [field] using hf)
    case dns => exact hset (by simpa [field] using hf)
    all_goals simp [field] at hf
  · exact hc he

theorem restrict_unwritten {i : Interface} (hi : i.Ok) {k : InterfaceKey} (h : i.Unwritten k)
    (S : List InterfaceKey) : k ≠ .privateKey ∧ i.restrict (k :: S) = i.restrict S := by
  have hdef : k ≠ .privateKey ∧
      { i.restrict (k :: S) with comments := i.comments.restrict S } = i.restrict S := by
    rcases writeField_eq_nil h with hf | ⟨⟨v, hf⟩, -⟩
    · cases k
      case address =>
        have ha : i.addresses = [] := by simpa [field] using hf
        exact ⟨by simp, by simp [restrict, ha]⟩
      case dns =>
        have ha : i.dns = [] ∧ i.dnsSearch = [] := by simpa [field] using hf
        exact ⟨by simp, by simp [restrict, ha]⟩
      all_goals simp [field] at hf
    · refine ⟨?_, ?_⟩
      · rintro rfl
        simp [field] at hf
      · cases k with
        | privateKey => simp [field] at hf
        | address => simp [field] at hf
        | dns => simp [field] at hf
        | listenPort | mtu =>
          have hz := uint16_eq_zero (congrArg Prod.fst (Option.some.inj hf))
          simp [restrict, hz]
        | preUp | postUp | preDown | postDown =>
          have hz := eq_of_unset (congrArg Prod.fst (Option.some.inj hf))
          simp [restrict, hz]
        | table =>
          have hz : i.tableOff = false := congrArg Prod.fst (Option.some.inj hf)
          simp [restrict, hz]
  refine ⟨hdef.1, ?_⟩
  rw [← hdef.2, ← SectionComments.restrict_unwritten i.comments S (isEmpty_of_unwritten hi h)]
  rfl

theorem dns_readBack {i : Interface} (hf : i.FieldOk .dns) :
    (i.dns.map Addr.string ++ i.dnsSearch).filterMap parseAddr = i.dns ∧
      (i.dns.map Addr.string ++ i.dnsSearch).filter (fun d => (parseAddr d).isNone) =
        i.dnsSearch := by
  have hdns : ∀ a ∈ i.dns, parseAddr a.string = some a := fun a ha => parseAddr_string (hf.1 a ha).1
  have h1 : (i.dns.map Addr.string).filterMap parseAddr = i.dns := by
    rw [List.filterMap_map]
    conv_rhs => rw [← List.filterMap_some (l := i.dns)]
    exact List.filterMap_congr fun a ha => hdns a ha
  have h2 : i.dnsSearch.filterMap parseAddr = [] :=
    List.filterMap_eq_nil_iff.mpr fun d hd => (hf.2 d hd).2
  have h3 : (i.dns.map Addr.string).filter (fun d => (parseAddr d).isNone) = [] := by
    rw [List.filter_eq_nil_iff]
    intro d hd
    obtain ⟨a, ha, rfl⟩ := List.mem_map.mp hd
    simp [hdns a ha]
  have h4 : i.dnsSearch.filter (fun d => (parseAddr d).isNone) = i.dnsSearch :=
    List.filter_eq_self.mpr fun d hd => by simp [(hf.2 d hd).2]
  exact ⟨by rw [List.filterMap_append, h1, h2, List.append_nil],
    by rw [List.filter_append, h3, h4, List.nil_append]⟩

theorem writable_of_value {k : InterfaceKey} {v suffix : Str} (hk : k.isScript = false)
    (hv : ValueText v) (hne : v ≠ []) : Writable k.lower v suffix where
  nonempty := hne
  script := hv.toScriptText
  value _ := hv
  noSuffix h := by
    rw [InterfaceKey.lower_mem_scriptKeys] at h
    simp [h] at hk

theorem writable_of_script {i : Interface} (hi : i.Ok) {k : InterfaceKey} {v : Str}
    (hk : k.isScript = true) (hv : ScriptText v) (hne : v ≠ []) :
    Writable k.lower v (i.comments.lines k).suffix where
  nonempty := hne
  script := hv
  value h := absurd ((InterfaceKey.lower_mem_scriptKeys k).mpr hk) h
  noSuffix _ := hi.script k hk

theorem set_written {i : Interface} (hi : i.Ok) {k : InterfaceKey} {S : List InterfaceKey}
    (hk : k ∉ S) {present : Bool} {v : Str} (hfield : i.field k = some (present, v))
    (hset : present = true ∨ i.IsSet k) :
    Writable k.lower v (i.comments.lines k).suffix ∧
      set { i.restrict S with comments := i.comments.restrict (k :: S) } v k =
        .ok (i.restrict (k :: S)) := by
  have hf := hi.fields k
  cases k with
  | privateKey =>
    cases hfield
    refine ⟨writable_of_value rfl (graphic_key _).valueText (key_string_ne_nil _), ?_⟩
    rw [set, parseKeyBase64_string]
    simp [restrict]
  | listenPort =>
    cases hfield
    refine ⟨writable_of_value rfl (graphic_itoa _).valueText (itoa_ne_nil _), ?_⟩
    rw [set, parsePort, parseIntBetween_itoa (by omega)]
    simp [restrict]
  | address =>
    simp only [field] at hfield
    split_ifs at hfield with hn
    cases hfield
    obtain ⟨htext, hne, hsplit, hback⟩ := prefixes_readBack (by simpa using hn) hf
    refine ⟨writable_of_value rfl htext hne, ?_⟩
    simp [set, hsplit, hback, restrict, hk, pure, Except.pure, bind, Except.bind]
  | dns =>
    simp only [field] at hfield
    split_ifs at hfield with hn
    cases hfield
    have hitems : ∀ t ∈ i.dns.map Addr.string ++ i.dnsSearch, ItemText t := by
      intro t ht
      rcases List.mem_append.mp ht with ht | ht
      · obtain ⟨a, ha, rfl⟩ := List.mem_map.mp ht
        exact (hf.1 a ha).2
      · exact (hf.2 t ht).1
    have hne : i.dns.map Addr.string ++ i.dnsSearch ≠ [] := by simpa using hn
    obtain ⟨h1, h2⟩ := dns_readBack hf
    refine ⟨writable_of_value rfl (joinList_valueText hitems) (joinList_ne_nil hne hitems), ?_⟩
    simp only [set, splitList_joinList hne hitems, foldl_addDNS, h1, h2, pure, Except.pure, bind,
      Except.bind]
    simp [restrict, hk]
  | mtu =>
    cases hfield
    have hz : i.mtu ≠ 0 := by
      rcases hset with h | h
      · rintro hz
        simp [hz] at h
      · exact h
    have hge : (576 : Int) ≤ i.mtu.toNat := by
      rcases hf with h | h
      · exact absurd h hz
      · omega
    refine ⟨writable_of_value rfl (graphic_itoa _).valueText (itoa_ne_nil _), ?_⟩
    rw [set, parseMTU, parseIntBetween_itoa hge]
    simp [restrict]
  | preUp | postUp | preDown | postDown =>
    cases hfield
    exact ⟨writable_of_script hi rfl hf (hset.elim of_decide_eq_true id),
      by simp [set, restrict, pure, Except.pure]⟩
  | table =>
    cases hfield
    have hg : Graphic (if i.tableOff then str "off" else str "auto") := by
      cases i.tableOff <;> decide +kernel
    refine ⟨writable_of_value rfl hg.valueText (by cases i.tableOff <;> decide), ?_⟩
    rw [set, parseTableOff_text]
    simp [restrict]

end Interface

theorem Interface.writeField_cases {i : Interface} (hi : i.Ok) (k : InterfaceKey) :
    i.Unwritten k ∨ ∃ v, writeField (i.comments.lines k) k.name (i.field k) =
        writeLine (i.comments.lines k) (fieldText k.name v) ∧
      Writable k.lower v (i.comments.lines k).suffix ∧ ∀ S, k ∉ S →
        set { i.restrict S with comments := i.comments.restrict (k :: S) } v k =
          .ok (i.restrict (k :: S)) := by
  rcases Conf.writeField_cases (i.comments.lines k) k.name (i.field k) with
    hu | ⟨present, v, hfield, hw, hset⟩
  · exact Or.inl hu
  · have hwritten := fun S (hk : k ∉ S) =>
      Interface.set_written hi hk hfield (hset.imp_right (hi.commented k))
    exact Or.inr ⟨v, hw, (hwritten [] (by simp)).1, fun S hk => (hwritten S hk).2⟩

theorem parse_interfaceKey {i : Interface} (hi : i.Ok) {k : InterfaceKey} {S : List InterfaceKey}
    (hk : k ∉ S) {st : ParserState} (hst : st.state = .inInterfaceSection)
    (hif : st.conf.interface = i.restrict S) (hpend : st.pendingComments = []) :
    (writeField (i.comments.lines k) k.name (i.field k)).foldlM (parseLine urlParse) st =
      .ok { st with
        conf := { st.conf with interface := i.restrict (k :: S) }
        sawPrivateKey := st.sawPrivateKey || k == .privateKey } := by
  rcases Interface.writeField_cases hi k with hu | ⟨v, hw, hwr, hval⟩
  · obtain ⟨hne, hr⟩ := Interface.restrict_unwritten hi hu S
    have hsaw : (k == InterfaceKey.privateKey) = false := by simpa using hne
    rw [hu, hr, ← hif, hsaw, Bool.or_false]
    rfl
  · have hst' : ({ st with pendingComments := (i.comments.lines k).before } : ParserState).state =
        .inInterfaceSection := hst
    rw [hw, parse_writeLine (hi.lines k), hpend, List.nil_append,
      parse_interfaceField hwr (hi.lines k).suffix hst']
    simp only [hif]
    rw [show (i.restrict S).comments = i.comments.restrict S from rfl,
      SectionComments.restrict_attach _ hk, hval S hk]
    simp [hst, pure, Except.pure, bind, Except.bind]

theorem parse_interfaceKeys {i : Interface} (hi : i.Ok) {ks S : List InterfaceKey} (hks : ks.Nodup)
    (hdisj : ∀ k ∈ ks, k ∉ S) (st : ParserState) (hst : st.state = .inInterfaceSection)
    (hif : st.conf.interface = i.restrict S) (hpend : st.pendingComments = []) :
    (ks.flatMap fun k => writeField (i.comments.lines k) k.name (i.field k)).foldlM
        (parseLine urlParse) st =
      .ok { st with
        conf := { st.conf with interface := i.restrict (ks.reverse ++ S) }
        sawPrivateKey := st.sawPrivateKey || ks.contains .privateKey } := by
  induction ks generalizing S st with
  | nil => simp [← hif, pure, Except.pure]
  | cons k ks ih =>
    obtain ⟨hk, hks⟩ := List.nodup_cons.mp hks
    rw [List.flatMap_cons, List.foldlM_append,
      parse_interfaceKey hi (hdisj k List.mem_cons_self) hst hif hpend]
    refine (ih hks (S := k :: S) ?_ { st with
        conf := { st.conf with interface := i.restrict (k :: S) }
        sawPrivateKey := st.sawPrivateKey || k == .privateKey } hst rfl hpend).trans ?_
    · intro k' hk' hmem
      rcases List.mem_cons.mp hmem with rfl | hmem
      · exact hk hk'
      · exact hdisj k' (List.mem_cons_of_mem k hk') hmem
    · have hsaw : (k == .privateKey || ks.contains .privateKey) =
          (k :: ks).contains .privateKey := by
        rw [List.contains_cons, Bool.beq_comm]
      simp only [Bool.or_assoc, hsaw, List.reverse_cons, List.append_assoc, List.singleton_append]

namespace Peer

def restrict (p : Peer) (S : List PeerKey) : Peer where
  publicKey := if .publicKey ∈ S then p.publicKey else Key.zero
  presharedKey := if .presharedKey ∈ S then p.presharedKey else Key.zero
  allowedIPs := if .allowedIPs ∈ S then p.allowedIPs else []
  endpoint := if .endpoint ∈ S then p.endpoint else ⟨[], 0⟩
  persistentKeepalive := if .persistentKeepalive ∈ S then p.persistentKeepalive else 0
  wsMode := if .wsMode ∈ S then p.wsMode else .none
  wsURL := if .endpoint ∈ S then p.wsURL else []
  wsTunnelTarget := if .wsTunnelTarget ∈ S then p.wsTunnelTarget else []
  wsBearer := if .wsBearer ∈ S then p.wsBearer else []
  wsMask := if .wsMask ∈ S then p.wsMask else false
  wsTLSCA := if .wsTLSCA ∈ S then p.wsTLSCA else []
  wsTLSCert := if .wsTLSCert ∈ S then p.wsTLSCert else []
  wsTLSKey := if .wsTLSKey ∈ S then p.wsTLSKey else []
  wsTLSInsecure := if .wsTLSInsecure ∈ S then p.wsTLSInsecure else false
  wsPingInterval := if .wsPingInterval ∈ S then p.wsPingInterval else 0
  wsBackoffMin := if .wsBackoffMin ∈ S then p.wsBackoffMin else 0
  wsBackoffMax := if .wsBackoffMax ∈ S then p.wsBackoffMax else 0
  comments := p.comments.restrict S

theorem restrict_all {p : Peer} {wsKeys : List Str} (hp : p.Ok urlParse wsKeys) {S : List PeerKey}
    (h : ∀ k, k ∈ S) : p.restrict S = p := by
  obtain ⟨h1, h2, h3⟩ := hp.counters
  cases p
  simp_all [restrict, SectionComments.restrict]

theorem isEmpty_of_unwritten {p : Peer} {wsKeys : List Str} (hp : p.Ok urlParse wsKeys)
    {k : PeerKey} (h : p.Unwritten k) : (p.comments.lines k).isEmpty = true := by
  by_contra hc
  have hset := hp.commented k (by simpa using hc)
  rcases writeField_eq_nil h with hf | ⟨-, he⟩
  · cases k
    case allowedIPs => exact hset (by simpa [field] using hf)
    case endpoint =>
      simp only [field] at hf
      split_ifs at hf
    all_goals simp [field] at hf
  · exact hc he

theorem restrict_unwritten {p : Peer} {wsKeys : List Str} (hp : p.Ok urlParse wsKeys) {k : PeerKey}
    (h : p.Unwritten k) (S : List PeerKey) : p.restrict (k :: S) = p.restrict S := by
  have hdef : { p.restrict (k :: S) with comments := p.comments.restrict S } = p.restrict S := by
    rcases writeField_eq_nil h with hf | ⟨⟨v, hf⟩, -⟩
    · cases k
      case allowedIPs =>
        have ha : p.allowedIPs = [] := by simpa [field] using hf
        simp [restrict, ha]
      case endpoint =>
        simp only [field] at hf
        split_ifs at hf
      all_goals simp [field] at hf
    · cases k with
      | publicKey => simp [field] at hf
      | allowedIPs => simp [field] at hf
      | presharedKey =>
        have hz : p.presharedKey = Key.zero := by
          simpa [Key.isZero] using congrArg Prod.fst (Option.some.inj hf)
        simp [restrict, hz]
      | endpoint =>
        simp only [field] at hf
        split_ifs at hf with hurl
        · simp at hf
        · rw [not_not] at hurl
          have hhost : p.endpoint.host = [] := by
            simpa [Endpoint.isEmpty] using congrArg Prod.fst (Option.some.inj hf)
          have hz := ((hp.fields .endpoint).1 hurl).resolve_right fun h => h.host hhost
          simp [restrict, hz, hurl]
      | persistentKeepalive =>
        have hz := uint16_eq_zero (congrArg Prod.fst (Option.some.inj hf))
        simp [restrict, hz]
      | wsMode | wsTunnelTarget | wsTLSCA | wsTLSCert | wsTLSKey | wsBearer =>
        have hz := eq_of_unset (congrArg Prod.fst (Option.some.inj hf))
        simp [restrict, hz]
      | wsMask =>
        have hz : p.wsMask = false := congrArg Prod.fst (Option.some.inj hf)
        simp [restrict, hz]
      | wsTLSInsecure =>
        have hz : p.wsTLSInsecure = false := congrArg Prod.fst (Option.some.inj hf)
        simp [restrict, hz]
      | wsPingInterval | wsBackoffMin | wsBackoffMax =>
        have hz := uint32_eq_zero (congrArg Prod.fst (Option.some.inj hf))
        simp [restrict, hz]
  rw [← hdef, ← SectionComments.restrict_unwritten p.comments S (isEmpty_of_unwritten hp h)]
  rfl

theorem writable {k : PeerKey} {v suffix : Str} (hv : ValueText v) (hne : v ≠ []) :
    Writable k.lower v suffix where
  nonempty := hne
  script := hv.toScriptText
  value _ := hv
  noSuffix h := absurd h (PeerKey.lower_notMem_scriptKeys k)

theorem graphic_boolText (b : Bool) : Graphic (boolText b) ∧ boolText b ≠ [] := by
  cases b <;> decide +kernel

theorem set_written {p : Peer} {wsKeys : List Str} (hp : p.Ok urlParse wsKeys) {k : PeerKey}
    {S : List PeerKey} (hk : k ∉ S) {present : Bool} {v : Str}
    (hfield : p.field k = some (present, v)) (hset : present = true ∨ p.IsSet k) :
    Writable k.lower v (p.comments.lines k).suffix ∧
      set urlParse { p.restrict S with comments := p.comments.restrict (k :: S) } v k =
        .ok (p.restrict (k :: S)) := by
  have hf := hp.fields k
  cases k with
  | publicKey | presharedKey =>
    cases hfield
    refine ⟨writable (graphic_key _).valueText (key_string_ne_nil _), ?_⟩
    rw [set, parseKeyBase64_string]
    simp [restrict]
  | allowedIPs =>
    simp only [field] at hfield
    split_ifs at hfield with hn
    cases hfield
    obtain ⟨htext, hne, hsplit, hback⟩ := prefixes_readBack (by simpa using hn) hf
    refine ⟨writable htext hne, ?_⟩
    simp [set, hsplit, hback, restrict, hk, pure, Except.pure, bind, Except.bind]
  | endpoint =>
    simp only [field] at hfield
    split_ifs at hfield with hurl
    · cases hfield
      obtain ⟨hv, hws, hparse⟩ := hf.2 hurl
      refine ⟨writable hv hurl, ?_⟩
      rw [set, if_pos hws, hparse]
      simp [restrict]
    · cases hfield
      rw [not_not] at hurl
      have hhost : p.endpoint.host ≠ [] := by
        rcases hset with h | h | h
        · simpa [Endpoint.isEmpty] using h
        · exact absurd hurl h
        · exact h
      have hplain : p.endpoint.Plain := (hf.1 hurl).resolve_left fun he => hhost (by rw [he])
      have hne : p.endpoint.string ≠ [] := by
        rw [Endpoint.string]
        split_ifs <;> simp
      refine ⟨writable hplain.text hne, ?_⟩
      rw [set, if_neg (by simp [hplain.noURL]), hplain.parse]
      simp [restrict, hurl]
  | persistentKeepalive =>
    cases hfield
    refine ⟨writable (graphic_itoa _).valueText (itoa_ne_nil _), ?_⟩
    rw [set, parsePersistentKeepalive_itoa]
    simp [restrict]
  | wsMode =>
    cases hfield
    have hne : p.wsMode ≠ .none := hset.elim (by simp) id
    have hg : Graphic p.wsMode.string ∧ p.wsMode.string ≠ [] := by
      cases hm : p.wsMode with
      | none => exact absurd hm hne
      | webSocket => decide +kernel
      | wsTunnel => decide +kernel
    refine ⟨writable hg.1.valueText hg.2, ?_⟩
    rw [set, parseWSMode_string hne]
    simp [restrict]
  | wsTunnelTarget =>
    cases hfield
    have hne : p.wsTunnelTarget ≠ [] := hset.elim (by simp) id
    obtain ⟨e, he⟩ := hf.2 hne
    refine ⟨writable hf.1 hne, ?_⟩
    simp [set, he, restrict]
  | wsMask | wsTLSInsecure =>
    cases hfield
    refine ⟨writable (graphic_boolText _).1.valueText (graphic_boolText _).2, ?_⟩
    rw [set, parseWSBool_text]
    simp [restrict]
  | wsTLSCA | wsTLSCert | wsTLSKey | wsBearer =>
    cases hfield
    exact ⟨writable hf (hset.elim of_decide_eq_true id),
      by simp [set, restrict, pure, Except.pure]⟩
  | wsPingInterval | wsBackoffMin | wsBackoffMax =>
    cases hfield
    refine ⟨writable (graphic_itoa _).valueText (itoa_ne_nil _), ?_⟩
    rw [set, parseWSMillis_itoa]
    simp [restrict]

def writtenWSKeys (p : Peer) (ks : List PeerKey) : List Str :=
  ks.flatMap fun k =>
    if writeField (p.comments.lines k) k.name (p.field k) = [] then [] else k.wsKeyName.toList

end Peer

theorem Peer.writeField_cases {p : Peer} {wsKeys : List Str} (hp : p.Ok urlParse wsKeys)
    (k : PeerKey) :
    p.Unwritten k ∨ ∃ v, writeField (p.comments.lines k) k.name (p.field k) =
        writeLine (p.comments.lines k) (fieldText k.name v) ∧
      Writable k.lower v (p.comments.lines k).suffix ∧ ∀ S, k ∉ S →
        set urlParse { p.restrict S with comments := p.comments.restrict (k :: S) } v k =
          .ok (p.restrict (k :: S)) := by
  rcases Conf.writeField_cases (p.comments.lines k) k.name (p.field k) with
    hu | ⟨present, v, hfield, hw, hset⟩
  · exact Or.inl hu
  · have hwritten := fun S (hk : k ∉ S) =>
      Peer.set_written hp hk hfield (hset.imp_right (hp.commented k))
    exact Or.inr ⟨v, hw, (hwritten [] (by simp)).1, fun S hk => (hwritten S hk).2⟩

theorem parse_peerKey {p : Peer} {wsKeys₀ : List Str} (hp : p.Ok urlParse wsKeys₀) {k : PeerKey}
    {S : List PeerKey} (hk : k ∉ S) {st : ParserState} {wsKeys : List Str}
    (hst : st.state = .inPeerSection (p.restrict S) wsKeys) (hpend : st.pendingComments = []) :
    (writeField (p.comments.lines k) k.name (p.field k)).foldlM (parseLine urlParse) st =
      .ok { st with
        state := .inPeerSection (p.restrict (k :: S)) (wsKeys ++ p.writtenWSKeys [k]) } := by
  rcases Peer.writeField_cases hp k with hu | ⟨v, hw, hwr, hval⟩
  · have hnames : p.writtenWSKeys [k] = [] := by
      rw [Peer.writtenWSKeys, List.flatMap_singleton]
      exact if_pos hu
    rw [hu, Peer.restrict_unwritten hp hu S, hnames, List.append_nil, ← hst]
    rfl
  · have hnames : p.writtenWSKeys [k] = k.wsKeyName.toList := by
      rw [Peer.writtenWSKeys, List.flatMap_singleton, if_neg (by simp [hw, writeLine])]
    have hst' : ({ st with pendingComments := (p.comments.lines k).before } : ParserState).state =
        .inPeerSection (p.restrict S) wsKeys := hst
    rw [hnames, hw, parse_writeLine (hp.lines k), hpend, List.nil_append,
      parse_peerField hwr (hp.lines k).suffix hst']
    rw [show (p.restrict S).comments = p.comments.restrict S from rfl,
      SectionComments.restrict_attach _ hk, hval S hk]
    rfl

theorem parse_peerKeys {p : Peer} {wsKeys₀ : List Str} (hp : p.Ok urlParse wsKeys₀)
    {ks S : List PeerKey} (hks : ks.Nodup) (hdisj : ∀ k ∈ ks, k ∉ S) (st : ParserState)
    (wsKeys : List Str) (hst : st.state = .inPeerSection (p.restrict S) wsKeys)
    (hpend : st.pendingComments = []) :
    (ks.flatMap fun k => writeField (p.comments.lines k) k.name (p.field k)).foldlM
        (parseLine urlParse) st =
      .ok { st with
        state := .inPeerSection (p.restrict (ks.reverse ++ S))
          (wsKeys ++ p.writtenWSKeys ks) } := by
  induction ks generalizing S st wsKeys with
  | nil => simp [Peer.writtenWSKeys, ← hst, pure, Except.pure]
  | cons k ks ih =>
    obtain ⟨hk, hks⟩ := List.nodup_cons.mp hks
    rw [List.flatMap_cons, List.foldlM_append,
      parse_peerKey hp (hdisj k List.mem_cons_self) hst hpend]
    refine (ih hks (S := k :: S) ?_ { st with
        state := .inPeerSection (p.restrict (k :: S)) (wsKeys ++ p.writtenWSKeys [k]) } _ rfl
        hpend).trans ?_
    · intro k' hk' hmem
      rcases List.mem_cons.mp hmem with rfl | hmem
      · exact hk hk'
      · exact hdisj k' (List.mem_cons_of_mem k hk') hmem
    · simp [Peer.writtenWSKeys]

theorem validate_wsKeys {p : Peer} {wsKeys wsKeys' : List Str}
    (h : validateWebSocketPeer p wsKeys = .ok ()) (hn : p.wsMode = .none → wsKeys' = []) :
    validateWebSocketPeer p wsKeys' = .ok () := by
  simp only [validateWebSocketPeer] at h ⊢
  split_ifs at h ⊢ with h1 h2 h3 h4 h5 h6
  · exact absurd (hn h6.1) h6.2
  · rfl

theorem validate_none {p : Peer} {wsKeys : List Str} (h : validateWebSocketPeer p wsKeys = .ok ())
    (hm : p.wsMode = .none) : wsKeys = [] := by
  simp only [validateWebSocketPeer] at h
  split_ifs at h with h1 h2 h3 h4 h5 h6
  by_contra hw
  exact h6 ⟨hm, hw⟩

theorem validate_writtenWSKeys {p : Peer} (h : p.Done urlParse) (ks : List PeerKey) :
    validateWebSocketPeer p (p.writtenWSKeys ks) = .ok () := by
  obtain ⟨wsKeys, hok, hval⟩ := h
  apply validate_wsKeys hval
  intro hm
  have hu := hok.websocket (validate_none hval hm)
  rw [Peer.writtenWSKeys, List.flatMap_eq_nil_iff]
  intro k _
  by_cases hk : k.wsKeyName = none
  · simp [hk]
  · exact if_pos (hu k hk)

/-- A peer as the parser holds it before pruning: the blank line above it counts. -/
def Peer.raw (p : Peer) : Peer :=
  { p with
    comments := { p.comments with
      header := { p.comments.header with before := [] :: p.comments.header.before } } }

theorem Peer.raw_done {p : Peer} (h : p.Done urlParse) : p.raw.Done urlParse := by
  obtain ⟨wsKeys, hok, hval⟩ := h
  refine ⟨wsKeys, ?_, hval⟩
  constructor
  · refine ⟨?_, hok.header.suffix⟩
    exact List.forall_mem_cons.mpr ⟨Or.inl rfl, hok.header.before⟩
  · exact hok.lines
  · exact fun k => (Peer.fieldOk_comments p _ k).mpr (hok.fields k)
  · intro k hk
    have := hok.commented k hk
    cases k <;> exact this
  · intro hn k hk
    have := hok.websocket hn k hk
    cases k <;> exact this
  · exact hok.counters

theorem Peer.field_raw (p : Peer) (k : PeerKey) : p.raw.field k = p.field k := by
  cases k <;> rfl

theorem parse_peer {p : Peer} (h : p.Done urlParse) {st : ParserState} {conf : Config}
    (hfin : st.finishPeer = .ok conf) (hpend : st.pendingComments = []) :
    p.lines.foldlM (parseLine urlParse) st =
      .ok { st with
        conf := conf
        state := .inPeerSection p.raw (p.raw.writtenWSKeys PeerKey.all) } := by
  obtain ⟨wsKeys, hok, hval⟩ := h
  obtain ⟨_, hraw, -⟩ := Peer.raw_done ⟨wsKeys, hok, hval⟩
  have hnil : ∀ b ∈ ([[]] : List Str), CommentLine b := by simp [CommentLine]
  have hfields : (PeerKey.all.flatMap fun k => writeField (p.comments.lines k) k.name (p.field k)) =
      PeerKey.all.flatMap fun k => writeField (p.raw.comments.lines k) k.name (p.raw.field k) := by
    simp only [Peer.field_raw]
    rfl
  have hstart : newPeer ([[]] ++ p.comments.header.before) p.comments.header.suffix =
      p.raw.restrict [] := by
    simp [newPeer, Peer.restrict, SectionComments.restrict, Peer.raw]
  have hfin' : ({ st with pendingComments := [[]] ++ p.comments.header.before } :
      ParserState).finishPeer = .ok conf := hfin
  have hheader : (writeLine p.comments.header (str "[Peer]")).foldlM (parseLine urlParse)
      { st with pendingComments := [[]] } =
      .ok { st with
        conf := conf, state := .inPeerSection (p.raw.restrict []) [], pendingComments := [] } := by
    rw [parse_writeLine hok.header, parse_peerHeader hok.header.suffix, hfin', ← hstart]
    rfl
  have hkeys := parse_peerKeys hraw (S := []) (show PeerKey.all.Nodup by decide) (by simp)
    { st with conf := conf, state := .inPeerSection (p.raw.restrict []) [], pendingComments := [] }
    [] rfl rfl
  have hall : p.raw.restrict PeerKey.all.reverse = p.raw :=
    Peer.restrict_all hraw (by simp [PeerKey.mem_all])
  rw [List.append_nil, hall, List.nil_append] at hkeys
  rw [Peer.lines, List.append_assoc, List.foldlM_append, parse_commentLines hnil, hpend,
    List.nil_append]
  simp only [bind, Except.bind]
  rw [List.foldlM_append, hheader, hfields]
  refine hkeys.trans ?_
  simp

theorem parse_peers {ps : List Peer} (h : ∀ p ∈ ps, p.Done urlParse) (st : ParserState)
    (conf : Config) (hfin : st.finishPeer = .ok conf) (hpend : st.pendingComments = []) :
    ∃ st', (ps.flatMap Peer.lines).foldlM (parseLine urlParse) st = .ok st' ∧
      st'.finishPeer = .ok { conf with peers := conf.peers ++ ps.map Peer.raw } ∧
      st'.pendingComments = [] ∧ st'.sawPrivateKey = st.sawPrivateKey := by
  induction ps generalizing st conf with
  | nil => exact ⟨st, rfl, by simpa using hfin, hpend, rfl⟩
  | cons p ps ih =>
    have hp := h p List.mem_cons_self
    have hval := validate_writtenWSKeys (Peer.raw_done hp) PeerKey.all
    obtain ⟨st', hrun, hfin', hpend', hsaw⟩ := ih (fun q hq => h q (List.mem_cons_of_mem p hq))
      { st with conf := conf, state := .inPeerSection p.raw (p.raw.writtenWSKeys PeerKey.all) }
      { conf with peers := conf.peers ++ [p.raw] }
      (by simp [ParserState.finishPeer, hval, pure, Except.pure, bind, Except.bind]) hpend
    refine ⟨st', ?_, by simpa using hfin', hpend', hsaw⟩
    rw [List.flatMap_cons, List.foldlM_append, parse_peer hp hfin hpend]
    exact hrun

theorem parse_interface {i : Interface} (hi : i.Ok) (name : Str) :
    i.lines.foldlM (parseLine urlParse) { conf := { name := name } } =
      .ok { conf := { name := name, interface := i }
            state := .inInterfaceSection
            sawPrivateKey := true } := by
  have hstart : (interfaceHeader { name := name } i.comments.header.before
      i.comments.header.suffix).interface = i.restrict [] := by
    have hattach : Comments.attach {} i.comments.header.before i.comments.header.suffix =
        i.comments.header := by
      cases hc : i.comments.header with
      | mk before suffix =>
        by_cases hs : suffix = [] <;> simp [Comments.attach, Comments.appendSuffix, hs]
    simp [interfaceHeader, Interface.restrict, SectionComments.restrict, hattach]
  have hheader : (writeLine i.comments.header (str "[Interface]")).foldlM (parseLine urlParse)
      { conf := { name := name } } =
      .ok { conf := { name := name, interface := i.restrict [] }
            state := .inInterfaceSection } := by
    rw [parse_writeLine hi.header, parse_interfaceHeader hi.header.suffix, ← hstart]
    rfl
  have hkeys := @parse_interfaceKeys urlParse i hi InterfaceKey.all [] (by decide) (by simp)
    { conf := { name := name, interface := i.restrict [] }, state := .inInterfaceSection } rfl rfl
      rfl
  have hall : i.restrict InterfaceKey.all.reverse = i :=
    Interface.restrict_all (by simp [InterfaceKey.mem_all])
  rw [List.append_nil, hall] at hkeys
  rw [Interface.lines, List.foldlM_append, hheader]
  exact hkeys

theorem newline_notMem_writeLine {c : Comments} (hc : c.Ok) {line : Str} (hl : newline ∉ line) :
    ∀ l ∈ writeLine c line, newline ∉ l := by
  have hcomment : ∀ b, CommentLine b → newline ∉ b := by
    rintro b (rfl | hb)
    · simp
    · exact hb.oneLine
  intro l hmem
  rw [writeLine, List.mem_append, List.mem_singleton] at hmem
  rcases hmem with hmem | rfl
  · exact hcomment l (hc.before l hmem)
  · rw [suffixText]
    split_ifs with hs
    · simpa using hl
    · simp only [List.mem_append, List.mem_cons, not_or]
      exact ⟨hl, by decide, hcomment _ hc.suffix⟩

theorem newline_notMem_fieldText {name lower val : Str} (hk : KeyName name lower)
    (hv : newline ∉ val) : newline ∉ fieldText name val := by
  rw [fieldText_eq]
  simp only [List.mem_append, List.mem_cons, not_or]
  exact ⟨hk.oneLine, by decide, by decide, by decide, hv⟩

theorem Interface.newline_notMem_lines {i : Interface} (hi : i.Ok) :
    ∀ l ∈ i.lines, newline ∉ l := by
  intro l hl
  rcases List.mem_append.mp hl with hl | hl
  · exact newline_notMem_writeLine hi.header (by decide) l hl
  · obtain ⟨k, -, hl⟩ := List.mem_flatMap.mp hl
    rcases Interface.writeField_cases hi k with hu | ⟨v, hw, hwr, -⟩
    · rw [Interface.Unwritten] at hu
      simp [hu] at hl
    · rw [hw] at hl
      exact newline_notMem_writeLine (hi.lines k)
        (newline_notMem_fieldText k.keyName hwr.script.oneLine) l hl

theorem Peer.newline_notMem_lines {p : Peer} (h : p.Done urlParse) :
    ∀ l ∈ p.lines, newline ∉ l := by
  obtain ⟨wsKeys, hp, -⟩ := h
  intro l hl
  rw [Peer.lines, List.mem_append, List.mem_append, List.mem_singleton] at hl
  rcases hl with (rfl | hl) | hl
  · simp
  · exact newline_notMem_writeLine hp.header (by decide) l hl
  · obtain ⟨k, -, hl⟩ := List.mem_flatMap.mp hl
    rcases Peer.writeField_cases hp k with hu | ⟨v, hw, hwr, -⟩
    · rw [Peer.Unwritten] at hu
      simp [hu] at hl
    · rw [hw] at hl
      exact newline_notMem_writeLine (hp.lines k)
        (newline_notMem_fieldText k.keyName hwr.script.oneLine) l hl

theorem Config.Canonical.splitOn_toWgQuick {c : Config} (h : c.Canonical urlParse) :
    c.toWgQuick.splitOn newline = c.lines ++ [[]] := by
  apply Fields.splitOn_lines
  intro l hl
  rw [Config.lines, List.mem_append, List.mem_append] at hl
  rcases hl with (hl | hl) | hl
  · exact Interface.newline_notMem_lines h.interface l hl
  · obtain ⟨p, hp, hl⟩ := List.mem_flatMap.mp hl
    exact Peer.newline_notMem_lines (h.peers p hp).1 l hl
  · rcases h.trailing l hl with rfl | hc
    · simp
    · exact hc.oneLine

theorem SectionComments.Pruned.eq {K : Type} {c : SectionComments K} (h : c.Pruned) :
    pruneSectionComments c = c := by
  have hheader := h.1.eq
  have hlines := fun k => (h.2 k).eq
  simp [pruneSectionComments, hheader, hlines]

theorem Peer.pruned_raw {p : Peer} (h : p.comments.Pruned) :
    { p.raw with comments := pruneSectionComments p.raw.comments } = p := by
  have hheader := h.1.cons_blank
  have hlines := fun k => (h.2 k).eq
  simp [Peer.raw, pruneSectionComments, hheader, hlines]

theorem Config.Canonical.fromWgQuick_toWgQuick {c : Config} (h : c.Canonical urlParse) :
    fromWgQuick urlParse c.toWgQuick c.name = .ok c := by
  have hdone : ∀ p ∈ c.peers, p.Done urlParse := fun p hp => (h.peers p hp).1
  obtain ⟨st, hrun, hfin, hpend, hsaw⟩ := parse_peers hdone
    { conf := { name := c.name, interface := c.interface }
      state := .inInterfaceSection
      sawPrivateKey := true } { name := c.name, interface := c.interface } rfl rfl
  have htrail : ∀ b ∈ c.trailingComments ++ [[]], CommentLine b := by
    exact List.forall_mem_append.mpr ⟨h.trailing, List.forall_mem_singleton.mpr (Or.inl rfl)⟩
  have hlines : (c.toWgQuick.splitOn newline).foldlM (parseLine urlParse)
      { conf := { name := c.name } } =
      .ok { st with pendingComments := c.trailingComments ++ [[]] } := by
    rw [h.splitOn_toWgQuick, Config.lines, List.append_assoc, List.append_assoc,
      List.foldlM_append, parse_interface h.interface]
    simp only [bind, Except.bind]
    rw [List.foldlM_append, hrun]
    simp only [bind, Except.bind]
    rw [parse_commentLines htrail, hpend, List.nil_append]
  have hfin' : ({ st with pendingComments := c.trailingComments ++
    [[]] } : ParserState).finishPeer =
      .ok { name := c.name, interface := c.interface, peers := [] ++ c.peers.map Peer.raw } := hfin
  have hpeers : (c.peers.map Peer.raw).map
      (fun p => { p with comments := pruneSectionComments p.comments }) = c.peers := by
    rw [List.map_map]
    conv_rhs => rw [← List.map_id c.peers]
    exact List.map_congr_left fun p hp => Peer.pruned_raw (h.peers p hp).2.1
  have hpruned : Config.pruned
      { name := c.name, interface := c.interface, peers := [] ++ c.peers.map Peer.raw }
      (c.trailingComments ++ [[]]) = c := by
    simp only [Config.pruned, List.nil_append, hpeers, h.interfacePruned.eq,
      h.trailingPruned.concat_blank, ← h.noFiles]
  have hzero : c.peers.any (·.publicKey.isZero) = false := by
    rw [List.any_eq_false]
    intro p hp
    simp [(h.peers p hp).2.2]
  rw [fromWgQuick, if_neg (by simp [h.name]), hlines]
  simp only [bind, Except.bind, hfin', hpruned]
  rw [hsaw, hzero]
  rfl

/-- Saving what was parsed and parsing it again changes nothing. -/
theorem wgQuick_roundTrip (urlParse : Str → Option URL) {s name : Str} {c : Config}
    (h : fromWgQuick urlParse s name = .ok c) : fromWgQuick urlParse c.toWgQuick name = .ok c := by
  obtain ⟨hc, hname⟩ := fromWgQuick_canonical h
  exact hname ▸ hc.fromWgQuick_toWgQuick

def sampleText : Str :=
  str ("# home\n\n[interface] # if\nPrivateKey=yAnz5TF+lXXJte14tji3zlMNq+hd2rYUIgJBgB3fBmk=\n" ++
    "PreUp = echo # no\nListenPort = 0 # any\n")

theorem sampleText_parses :
    ∃ c, fromWgQuick (fun _ => none) sampleText (str "wg0") = .ok c := by
  have hok : (fromWgQuick (fun _ => none) sampleText (str "wg0")).isOk = true := by decide +kernel
  cases hc : fromWgQuick (fun _ => none) sampleText (str "wg0") with
  | error e => simp [hc, Except.isOk, Except.toBool] at hok
  | ok c => exact ⟨c, rfl⟩

theorem wgQuick_roundTrip_sampleText :
    ∃ c, fromWgQuick (fun _ => none) sampleText (str "wg0") = .ok c ∧
      fromWgQuick (fun _ => none) c.toWgQuick (str "wg0") = .ok c := by
  obtain ⟨c, hc⟩ := sampleText_parses
  exact ⟨c, hc, wgQuick_roundTrip _ hc⟩

end WireGuardWindows.Conf
