import WireGuardWindows.Conf.Prune
import WireGuardWindows.Conf.ReadBack

/-!
# What an accepted configuration looks like

The parser only builds values that a line of text can carry, and it attaches
comments only to keys it has set. `ParserState.Ok` states this for the loop,
`Config.Canonical` for its result.
-/

namespace WireGuardWindows.Conf
open GoStd Strings Strconv Netip Loops

namespace Comments

structure Ok (c : Comments) : Prop where
  before : ∀ b ∈ c.before, CommentLine b
  suffix : CommentLine c.suffix

theorem ok_empty : Ok {} := ⟨by simp, Or.inl rfl⟩

theorem Ok.attach {c : Comments} (h : c.Ok) {pending : List Str} {comment : Str}
    (hp : ∀ b ∈ pending, CommentLine b) (hc : CommentLine comment) :
    (c.attach pending comment).Ok where
  before := by
    exact List.forall_mem_append.mpr ⟨h.before, hp⟩
  suffix := commentLine_appendSuffix h.suffix hc

theorem Ok.pruned {c : Comments} (h : c.Ok) (dl dt : Bool) :
    Ok { c with before := pruneComments c.before dl dt } where
  before := by
    intro b hb
    rcases mem_pruneComments hb with rfl | hb
    · exact Or.inl rfl
    · exact h.before b hb
  suffix := h.suffix

theorem isEmpty_pruned {c : Comments} (h : c.isEmpty = true) (dl dt : Bool) :
    isEmpty { c with before := pruneComments c.before dl dt } = true := by
  simp only [isEmpty, Bool.and_eq_true, List.isEmpty_iff] at h ⊢
  refine ⟨?_, h.2⟩
  rw [h.1]
  cases dl <;> cases dt <;> rfl

end Comments

def InterfaceKey.isScript : InterfaceKey → Bool
  | .preUp | .postUp | .preDown | .postDown => true
  | _ => false

namespace Interface

def FieldOk (i : Interface) : InterfaceKey → Prop
  | .address => ∀ p ∈ i.addresses, p.Parsed
  | .dns => (∀ a ∈ i.dns, a ≠ .zero ∧ ItemText a.string) ∧
      ∀ d ∈ i.dnsSearch, ItemText d ∧ parseAddr d = none
  | .mtu => i.mtu = 0 ∨ 576 ≤ i.mtu.toNat
  | .preUp => ScriptText i.preUp
  | .postUp => ScriptText i.postUp
  | .preDown => ScriptText i.preDown
  | .postDown => ScriptText i.postDown
  | _ => True

def IsSet (i : Interface) : InterfaceKey → Prop
  | .address => i.addresses ≠ []
  | .dns => ¬ (i.dns = [] ∧ i.dnsSearch = [])
  | .mtu => i.mtu ≠ 0
  | .preUp => i.preUp ≠ []
  | .postUp => i.postUp ≠ []
  | .preDown => i.preDown ≠ []
  | .postDown => i.postDown ≠ []
  | _ => True

structure Ok (i : Interface) : Prop where
  header : i.comments.header.Ok
  lines : ∀ k, (i.comments.lines k).Ok
  script : ∀ k, k.isScript = true → (i.comments.lines k).suffix = []
  fields : ∀ k, i.FieldOk k
  commented : ∀ k, (i.comments.lines k).isEmpty = false → i.IsSet k

theorem foldl_addDNS (items : List Str) (i : Interface) :
    items.foldl addDNS i =
      { i with
        dns := i.dns ++ items.filterMap parseAddr
        dnsSearch := i.dnsSearch ++ items.filter fun d => (parseAddr d).isNone } := by
  induction items generalizing i with
  | nil => simp
  | cons d items ih =>
    rw [List.foldl_cons, ih, addDNS]
    cases hd : parseAddr d <;> simp [hd]

theorem set_frame {i i' : Interface} {val : Str} {k k' : InterfaceKey} (hk : k' ≠ k)
    (h : i.set val k = .ok i') : (i'.FieldOk k' ↔ i.FieldOk k') ∧ (i'.IsSet k' ↔ i.IsSet k') := by
  cases k
  case dns =>
    obtain ⟨items, -, h⟩ := bind_eq_ok h
    cases h
    rw [foldl_addDNS]
    cases k' <;> first | exact absurd rfl hk | exact ⟨Iff.rfl, Iff.rfl⟩
  all_goals
    simp only [set] at h
    try obtain ⟨_, -, h⟩ := bind_eq_ok h
    try obtain ⟨_, -, h⟩ := bind_eq_ok h
    cases h
    cases k' <;> first | exact absurd rfl hk | exact ⟨Iff.rfl, Iff.rfl⟩

theorem set_comments {i i' : Interface} {val : Str} {k : InterfaceKey}
    (h : i.set val k = .ok i') : i'.comments = i.comments := by
  cases k
  case dns =>
    obtain ⟨items, -, h⟩ := bind_eq_ok h
    cases h
    rw [foldl_addDNS]
  all_goals
    simp only [set] at h
    try obtain ⟨_, -, h⟩ := bind_eq_ok h
    try obtain ⟨_, -, h⟩ := bind_eq_ok h
    cases h
    rfl

theorem set_tableOff {i i' : Interface} {val : Str} {k : InterfaceKey}
    (h : i.set val k = .ok i') :
    i'.tableOff = if k = .table then decide (val = str "off") else i.tableOff := by
  cases k
  case dns =>
    obtain ⟨items, -, h⟩ := bind_eq_ok h
    cases h
    rw [foldl_addDNS]
    rfl
  case table =>
    obtain ⟨off, hoff, h⟩ := bind_eq_ok h
    cases h
    unfold parseTableOff at hoff
    split_ifs at hoff with h₁ h₂
    · cases hoff
      simp [h₁]
    · cases hoff
      simp [h₁]
    · split at hoff <;> cases hoff
      simp [h₁]
  all_goals
    simp only [set] at h
    try obtain ⟨_, -, h⟩ := bind_eq_ok h
    try obtain ⟨_, -, h⟩ := bind_eq_ok h
    cases h
    rfl

theorem parsed_addresses {val : Str} (hv : ValueText val) {items : List Str} {ps : List Prefix}
    (hitems : splitList val = .ok items) (hps : items.mapM parseIPCidr = .ok ps) :
    ps ≠ [] ∧ ∀ p ∈ ps, p.Parsed := by
  constructor
  · intro hn
    have hlen := mapM_length hps
    rw [hn] at hlen
    exact (splitList_items hv hitems).1 (List.eq_nil_of_length_eq_zero hlen.symm)
  · intro p hp
    obtain ⟨s, -, hs⟩ := exists_of_mem_mapM hps hp
    exact parseIPCidr_parsed hs

theorem set_field {i i' : Interface} {val : Str} {k : InterfaceKey} (hv : ScriptText val)
    (hvt : k.isScript = false → ValueText val) (hne : val ≠ []) (hf : i.FieldOk k)
    (h : i.set val k = .ok i') : i'.FieldOk k ∧ i'.IsSet k := by
  cases k with
  | privateKey => exact ⟨trivial, trivial⟩
  | listenPort => exact ⟨trivial, trivial⟩
  | table => exact ⟨trivial, trivial⟩
  | mtu =>
    obtain ⟨m, hm, h⟩ := bind_eq_ok h
    cases h
    have hge := parseMTU_ge hm
    refine ⟨Or.inr hge, ?_⟩
    rintro hz
    replace hz : m = 0 := hz
    rw [hz] at hge
    exact absurd hge (by decide)
  | address =>
    obtain ⟨items, hitems, h⟩ := bind_eq_ok h
    obtain ⟨ps, hps, h⟩ := bind_eq_ok h
    cases h
    obtain ⟨hn, hparsed⟩ := parsed_addresses (hvt rfl) hitems hps
    refine ⟨?_, by simp [IsSet, hn]⟩
    exact List.forall_mem_append.mpr ⟨hf, hparsed⟩
  | dns =>
    obtain ⟨items, hitems, h⟩ := bind_eq_ok h
    cases h
    obtain ⟨hn, hitem⟩ := splitList_items (hvt rfl) hitems
    rw [foldl_addDNS]
    refine ⟨⟨?_, ?_⟩, ?_⟩
    · intro a ha
      rcases List.mem_append.mp ha with ha | ha
      · exact hf.1 a ha
      · obtain ⟨d, hd, hda⟩ := List.mem_filterMap.mp ha
        exact ⟨fun hz => parseAddr_ne_zero d (hz ▸ hda), itemText_addr (hitem d hd) hda⟩
    · intro d hd
      rcases List.mem_append.mp hd with hd | hd
      · exact hf.2 d hd
      · obtain ⟨hmem, hnone⟩ := List.mem_filter.mp hd
        exact ⟨hitem d hmem, by simpa using hnone⟩
    · obtain ⟨d, rest, rfl⟩ := List.exists_cons_of_ne_nil hn
      cases hd : parseAddr d <;> simp [IsSet, hd]
  | preUp => cases h; exact ⟨hv, hne⟩
  | postUp => cases h; exact ⟨hv, hne⟩
  | preDown => cases h; exact ⟨hv, hne⟩
  | postDown => cases h; exact ⟨hv, hne⟩

theorem fieldOk_comments (i : Interface) (c : SectionComments InterfaceKey) (k : InterfaceKey) :
    FieldOk { i with comments := c } k ↔ i.FieldOk k := by
  cases k <;> exact Iff.rfl

theorem Ok.setKey {i i' : Interface} (hi : i.Ok) {k : InterfaceKey} {val comment : Str}
    {pending : List Str} (hp : ∀ b ∈ pending, CommentLine b) (hc : CommentLine comment)
    (hscript : k.isScript = true → comment = []) (hv : ScriptText val)
    (hvt : k.isScript = false → ValueText val) (hne : val ≠ [])
    (h : set { i with comments := i.comments.attach k pending comment } val k = .ok i') :
    i'.Ok := by
  have hcom := set_comments h
  obtain ⟨hfield, hset⟩ := set_field hv hvt hne ((fieldOk_comments i _ k).mpr (hi.fields k)) h
  have hold : ∀ k', k' ≠ k → (i'.FieldOk k' ↔ i.FieldOk k') ∧ (i'.IsSet k' ↔ i.IsSet k') := by
    intro k' hk'
    have hfr := set_frame hk' h
    cases k' <;> exact hfr
  have hlines : ∀ k', k' ≠ k → i'.comments.lines k' = i.comments.lines k' := by
    intro k' hk'
    rw [hcom]
    exact Function.update_of_ne hk' _ _
  have hline : i'.comments.lines k = (i.comments.lines k).attach pending comment := by
    rw [hcom]
    exact Function.update_self _ _ _
  constructor
  · rw [hcom]
    exact hi.header
  · intro k'
    by_cases hk : k' = k
    · rw [hk, hline]
      exact (hi.lines k).attach hp hc
    · rw [hlines k' hk]
      exact hi.lines k'
  · intro k' hsc
    by_cases hk : k' = k
    · subst hk
      rw [hline, Comments.attach, hscript hsc, Comments.appendSuffix, if_pos rfl]
      exact hi.script k' hsc
    · rw [hlines k' hk]
      exact hi.script k' hsc
  · intro k'
    by_cases hk : k' = k
    · exact hk ▸ hfield
    · exact (hold k' hk).1.mpr (hi.fields k')
  · intro k' hcm
    by_cases hk : k' = k
    · exact hk ▸ hset
    · rw [hlines k' hk] at hcm
      exact (hold k' hk).2.mpr (hi.commented k' hcm)

end Interface

structure Endpoint.Plain (e : Endpoint) : Prop where
  text : ValueText e.string
  host : e.host ≠ []
  parse : parseEndpoint e.string = .ok e
  noURL : isWSURL e.string = false

namespace Peer
variable {urlParse : Str → Option URL}

def FieldOk (urlParse : Str → Option URL) (p : Peer) : PeerKey → Prop
  | .allowedIPs => ∀ a ∈ p.allowedIPs, a.Parsed
  | .endpoint =>
    (p.wsURL = [] → p.endpoint = ⟨[], 0⟩ ∨ p.endpoint.Plain) ∧
      (p.wsURL ≠ [] → ValueText p.wsURL ∧ isWSURL p.wsURL = true ∧
        parseWSURL urlParse p.wsURL = .ok p.endpoint)
  | .wsTunnelTarget => ValueText p.wsTunnelTarget ∧
      (p.wsTunnelTarget ≠ [] → ∃ e, parseEndpoint p.wsTunnelTarget = .ok e)
  | .wsTLSCA => ValueText p.wsTLSCA
  | .wsTLSCert => ValueText p.wsTLSCert
  | .wsTLSKey => ValueText p.wsTLSKey
  | .wsBearer => ValueText p.wsBearer
  | _ => True

def IsSet (p : Peer) : PeerKey → Prop
  | .allowedIPs => p.allowedIPs ≠ []
  | .endpoint => p.wsURL ≠ [] ∨ p.endpoint.host ≠ []
  | .wsMode => p.wsMode ≠ .none
  | .wsTunnelTarget => p.wsTunnelTarget ≠ []
  | .wsTLSCA => p.wsTLSCA ≠ []
  | .wsTLSCert => p.wsTLSCert ≠ []
  | .wsTLSKey => p.wsTLSKey ≠ []
  | .wsBearer => p.wsBearer ≠ []
  | _ => True

def Unwritten (p : Peer) (k : PeerKey) : Prop :=
  writeField (p.comments.lines k) k.name (p.field k) = []

structure Ok (urlParse : Str → Option URL) (p : Peer) (wsKeys : List Str) : Prop where
  header : p.comments.header.Ok
  lines : ∀ k, (p.comments.lines k).Ok
  fields : ∀ k, p.FieldOk urlParse k
  commented : ∀ k, (p.comments.lines k).isEmpty = false → p.IsSet k
  websocket : wsKeys = [] → ∀ k, k.wsKeyName ≠ none → p.Unwritten k
  counters : p.rxBytes = 0 ∧ p.txBytes = 0 ∧ p.lastHandshakeTime = 0

def Done (urlParse : Str → Option URL) (p : Peer) : Prop :=
  ∃ wsKeys, p.Ok urlParse wsKeys ∧ validateWebSocketPeer p wsKeys = .ok ()

theorem set_frame {p p' : Peer} {val : Str} {k k' : PeerKey} (hk : k' ≠ k)
    (h : p.set urlParse val k = .ok p') :
    (p'.FieldOk urlParse k' ↔ p.FieldOk urlParse k') ∧ (p'.IsSet k' ↔ p.IsSet k') ∧
      p'.field k' = p.field k' := by
  cases k
  case endpoint =>
    simp only [set] at h
    split_ifs at h
    all_goals
      obtain ⟨_, -, h⟩ := bind_eq_ok h
      cases h
      cases k' <;> first | exact absurd rfl hk | exact ⟨Iff.rfl, Iff.rfl, rfl⟩
  case wsTunnelTarget =>
    simp only [set] at h
    split at h
    · cases h
    · cases h
      cases k' <;> first | exact absurd rfl hk | exact ⟨Iff.rfl, Iff.rfl, rfl⟩
  all_goals
    simp only [set] at h
    try obtain ⟨_, -, h⟩ := bind_eq_ok h
    try obtain ⟨_, -, h⟩ := bind_eq_ok h
    cases h
    cases k' <;> first | exact absurd rfl hk | exact ⟨Iff.rfl, Iff.rfl, rfl⟩

theorem set_comments {p p' : Peer} {val : Str} {k : PeerKey} (h : p.set urlParse val k = .ok p') :
    p'.comments = p.comments ∧ p'.rxBytes = p.rxBytes ∧ p'.txBytes = p.txBytes ∧
      p'.lastHandshakeTime = p.lastHandshakeTime := by
  cases k
  case endpoint =>
    simp only [set] at h
    split_ifs at h
    all_goals
      obtain ⟨_, -, h⟩ := bind_eq_ok h
      cases h
      exact ⟨rfl, rfl, rfl, rfl⟩
  case wsTunnelTarget =>
    simp only [set] at h
    split at h
    · cases h
    · cases h
      exact ⟨rfl, rfl, rfl, rfl⟩
  all_goals
    simp only [set] at h
    try obtain ⟨_, -, h⟩ := bind_eq_ok h
    try obtain ⟨_, -, h⟩ := bind_eq_ok h
    cases h
    exact ⟨rfl, rfl, rfl, rfl⟩

theorem set_allowedIPs {p p' : Peer} {val : Str} {k : PeerKey} (hk : k ≠ .allowedIPs)
    (h : p.set urlParse val k = .ok p') : p'.allowedIPs = p.allowedIPs := by
  cases k
  case allowedIPs => exact absurd rfl hk
  case endpoint =>
    simp only [set] at h
    split_ifs at h
    all_goals
      obtain ⟨_, -, h⟩ := bind_eq_ok h
      cases h
      rfl
  case wsTunnelTarget =>
    simp only [set] at h
    split at h
    · cases h
    · cases h
      rfl
  all_goals
    simp only [set] at h
    try obtain ⟨_, -, h⟩ := bind_eq_ok h
    cases h
    rfl

theorem set_field {p p' : Peer} {val : Str} {k : PeerKey} (hv : ValueText val) (hne : val ≠ [])
    (hf : p.FieldOk urlParse k) (h : p.set urlParse val k = .ok p') :
    p'.FieldOk urlParse k ∧ p'.IsSet k := by
  cases k with
  | publicKey => exact ⟨trivial, trivial⟩
  | presharedKey => exact ⟨trivial, trivial⟩
  | persistentKeepalive => exact ⟨trivial, trivial⟩
  | wsMask => exact ⟨trivial, trivial⟩
  | wsTLSInsecure => exact ⟨trivial, trivial⟩
  | wsPingInterval => exact ⟨trivial, trivial⟩
  | wsBackoffMin => exact ⟨trivial, trivial⟩
  | wsBackoffMax => exact ⟨trivial, trivial⟩
  | wsMode =>
    obtain ⟨m, hm, h⟩ := bind_eq_ok h
    cases h
    exact ⟨trivial, parseWSMode_ne_none hm⟩
  | allowedIPs =>
    obtain ⟨items, hitems, h⟩ := bind_eq_ok h
    obtain ⟨ps, hps, h⟩ := bind_eq_ok h
    cases h
    obtain ⟨hn, hparsed⟩ := Interface.parsed_addresses hv hitems hps
    refine ⟨?_, by simp [IsSet, hn]⟩
    exact List.forall_mem_append.mpr ⟨hf, hparsed⟩
  | endpoint =>
    simp only [set] at h
    split_ifs at h with hurl
    · obtain ⟨e, he, h⟩ := bind_eq_ok h
      cases h
      exact ⟨⟨fun hn => absurd hn hne, fun _ => ⟨hv, hurl, he⟩⟩, Or.inl hne⟩
    · obtain ⟨e, he, h⟩ := bind_eq_ok h
      cases h
      obtain ⟨htext, -, hhost⟩ := parseEndpoint_valueText hv he
      have hplain : e.Plain := ⟨htext, hhost, parseEndpoint_string he, isWSURL_string he⟩
      exact ⟨⟨fun _ => Or.inr hplain, fun hn => absurd rfl hn⟩, Or.inr hhost⟩
  | wsTunnelTarget =>
    simp only [set] at h
    split at h
    · cases h
    · rename_i e he
      cases h
      exact ⟨⟨hv, fun _ => ⟨e, he⟩⟩, hne⟩
  | wsTLSCA => cases h; exact ⟨hv, hne⟩
  | wsTLSCert => cases h; exact ⟨hv, hne⟩
  | wsTLSKey => cases h; exact ⟨hv, hne⟩
  | wsBearer => cases h; exact ⟨hv, hne⟩

theorem fieldOk_comments (p : Peer) (c : SectionComments PeerKey) (k : PeerKey) :
    FieldOk urlParse { p with comments := c } k ↔ p.FieldOk urlParse k := by
  cases k <;> exact Iff.rfl

theorem Ok.setKey {p p' : Peer} {wsKeys : List Str} (hp : p.Ok urlParse wsKeys) {k : PeerKey}
    {val comment : Str} {pending : List Str} (hpend : ∀ b ∈ pending, CommentLine b)
    (hc : CommentLine comment) (hv : ValueText val) (hne : val ≠ [])
    (h : set urlParse { p with comments := p.comments.attach k pending comment } val k = .ok p') :
    p'.Ok urlParse (wsKeys ++ k.wsKeyName.toList) := by
  obtain ⟨hcom, hcount⟩ := set_comments h
  obtain ⟨hfield, hset⟩ := set_field hv hne ((fieldOk_comments p _ k).mpr (hp.fields k)) h
  have hold : ∀ k', k' ≠ k → (p'.FieldOk urlParse k' ↔ p.FieldOk urlParse k') ∧
      (p'.IsSet k' ↔ p.IsSet k') ∧ p'.field k' = p.field k' := by
    intro k' hk'
    have hfr := set_frame hk' h
    cases k' <;> exact hfr
  have hlines : ∀ k', k' ≠ k → p'.comments.lines k' = p.comments.lines k' := by
    intro k' hk'
    rw [hcom]
    exact Function.update_of_ne hk' _ _
  have hline : p'.comments.lines k = (p.comments.lines k).attach pending comment := by
    rw [hcom]
    exact Function.update_self _ _ _
  constructor
  · rw [hcom]
    exact hp.header
  · intro k'
    by_cases hk : k' = k
    · rw [hk, hline]
      exact (hp.lines k).attach hpend hc
    · rw [hlines k' hk]
      exact hp.lines k'
  · intro k'
    by_cases hk : k' = k
    · exact hk ▸ hfield
    · exact (hold k' hk).1.mpr (hp.fields k')
  · intro k' hcm
    by_cases hk : k' = k
    · exact hk ▸ hset
    · rw [hlines k' hk] at hcm
      exact (hold k' hk).2.1.mpr (hp.commented k' hcm)
  · intro hnil k' hws
    obtain ⟨hnil, hno⟩ := List.append_eq_nil_iff.mp hnil
    have hk : k' ≠ k := by
      intro hk
      rw [hk] at hws
      cases hn : k.wsKeyName with
      | none => exact hws hn
      | some n => simp [hn] at hno
    rw [Unwritten, hlines k' hk, (hold k' hk).2.2]
    exact hp.websocket hnil k' hws
  · rw [hcount.1, hcount.2.1, hcount.2.2]
    exact hp.counters

end Peer

end WireGuardWindows.Conf
