import WireGuardWindows.Conf.Accepted
import WireGuardWindows.Conf.Uapi
import WireGuardWindows.GoStd.Url

/-!
# What the written text determines

A configuration that `FromWgQuick` accepted has no line break in any value, and neither has
an address a host name resolves to, so reading the text of `ToUAPI` line by line gives
exactly the fields that were written. Which default values are left out can be told from the
keys that are missing, so the fields determine every setting.
-/

namespace WireGuardWindows.Conf
open GoStd Strings Strconv Netip Fields

def netURL (s : Str) : Option URL :=
  (Url.parse s).map fun u =>
    { scheme := u.scheme, opaqueData := u.opaqueData, hasUser := u.hasUser, path := u.path,
      rawQuery := u.rawQuery, forceQuery := u.forceQuery, fragment := u.fragment,
      hostname := u.hostname, port := u.port }

inductive Resolved (p : Peer) : Peer → Prop
  | unchanged : Resolved p p
  | resolved {raws : List Driver.RawSockaddrInet} {host : Str} (full : p.endpoint.isEmpty = false)
      (lookup : resolveLoop raws .zero = some host) :
      Resolved p { p with endpoint := { p.endpoint with host := host } }

/-- An accepted configuration, with some of its endpoints resolved. -/
structure Written (c : Config) : Prop where
  source : ∃ text name c₀, fromWgQuick netURL text name = .ok c₀ ∧ c.interface = c₀.interface ∧
    List.Forall₂ Resolved c₀.peers c.peers

theorem forall₂_of_mapM {α β : Type} {f : α → Option β} {l : List α} {m : List β}
    (h : l.mapM f = some m) : List.Forall₂ (fun a b => f a = some b) l m := by
  induction l generalizing m with
  | nil =>
    cases h
    exact .nil
  | cons a l ih =>
    rw [List.mapM_cons] at h
    obtain ⟨b, hb, h⟩ := Option.bind_eq_some_iff.mp h
    obtain ⟨bs, hbs, h⟩ := Option.bind_eq_some_iff.mp h
    cases h
    exact .cons hb (ih hbs)

theorem written_resolveEndpoints {text name : Str} {c₀ c : Config}
    {lookup : Str → List Driver.RawSockaddrInet} (h : fromWgQuick netURL text name = .ok c₀)
    (hresolve : c₀.resolveEndpoints lookup = some c) : Written c := by
  obtain ⟨peers, hpeers, hc⟩ := Option.bind_eq_some_iff.mp hresolve
  cases hc
  refine ⟨text, name, c₀, h, rfl, ?_⟩
  refine (forall₂_of_mapM hpeers).imp fun p q hpq => ?_
  split_ifs at hpq with hempty
  · cases hpq
    exact .unchanged
  · obtain ⟨host, hhost, rfl⟩ := Option.map_eq_some_iff.mp hpq
    exact .resolved (by simpa using hempty) hhost

theorem netURL_oneLine {s : Str} {u : URL} (h : netURL s = some u) :
    newline ∉ u.hostname ∧ newline ∉ u.port := by
  obtain ⟨url, hurl, rfl⟩ := Option.map_eq_some_iff.mp h
  exact Url.parse_oneLine hurl

structure EndpointLine (e : Endpoint) : Prop where
  empty : e.isEmpty = true → e = ⟨[], 0⟩
  oneLine : newline ∉ e.string

theorem itoa_oneLine (n : Nat) : newline ∉ itoa n := fun hmem =>
  absurd (isDigit_of_mem_itoa hmem) (by decide)

theorem hexKey_oneLine (k : Key) : newline ∉ hexKey k := fun hmem =>
  absurd (Hex.isHex_of_mem_encodeToString hmem) (by decide)

theorem endpointLine_of_parse {s : Str} {e : Endpoint} (hs : newline ∉ s)
    (h : parseEndpoint s = .ok e) : EndpointLine e := by
  have hhost := parseEndpoint_host_ne_nil h
  obtain ⟨host, portStr, rfl, -, hat⟩ := parseEndpoint_eq_ok h
  refine ⟨fun hempty => absurd (by simpa [Endpoint.isEmpty] using hempty) hhost, ?_⟩
  rw [(endpointAt_string hat).2, List.mem_append, List.mem_cons, not_or, not_or]
  exact ⟨fun hm => hs (List.mem_append_left _ hm), by decide, itoa_oneLine _⟩

theorem endpointLine_of_parseWSURL {s : Str} {e : Endpoint} (h : parseWSURL netURL s = .ok e) :
    EndpointLine e := by
  unfold parseWSURL at h
  dsimp only at h
  split at h
  · cases h
  rename_i u hu
  obtain ⟨hhost, hport⟩ := netURL_oneLine hu
  split_ifs at h
  all_goals
    split at h
    · cases h
    · rename_i e' he
      cases h
      refine endpointLine_of_parse ?_ he
      have hopen : newline ≠ openBracket := by decide
      have hclose : newline ≠ closeBracket := by decide
      have hcolon : newline ≠ colon := by decide
      simp [hhost, hport, hopen, hclose, hcolon]

theorem addr_oneLine {ip : Addr} (hzone : ∀ a zone, ip = .v6 a zone → newline ∉ zone) :
    newline ∉ ip.string := by
  cases ip with
  | zero => decide
  | v4 a =>
    intro hmem
    exact absurd (addrByte_string4 hmem).graphic.1 (by decide)
  | v6 a zone =>
    rw [string_v6, List.mem_append, not_or]
    constructor
    · intro hmem
      exact absurd (addrByte_body6 hmem).graphic.1 (by decide)
    · have hz := hzone a zone rfl
      unfold zoneSuffix
      split_ifs
      · exact List.not_mem_nil
      · rw [List.mem_cons, not_or]
        exact ⟨by decide, hz⟩

theorem rawAddr_oneLine (raw : Driver.RawSockaddrInet) : newline ∉ raw.addr.string := by
  apply addr_oneLine
  intro a zone hv6
  unfold Driver.RawSockaddrInet.addr at hv6
  split_ifs at hv6
  · split at hv6 <;> cases hv6
  · split at hv6
    · split_ifs at hv6
      · cases hv6
        exact itoa_oneLine _
      · cases hv6
        exact List.not_mem_nil
    · cases hv6

theorem resolveLoop_host {raws : List Driver.RawSockaddrInet} {v6 : Addr} {host : Str}
    (hv6 : newline ∉ v6.string) (h : resolveLoop raws v6 = some host) :
    newline ∉ host ∧ host ≠ [] := by
  induction raws generalizing v6 with
  | nil =>
    rw [resolveLoop] at h
    split_ifs at h with hzero
    cases h
    exact ⟨hv6, string_ne_nil hzero⟩
  | cons raw raws ih =>
    rw [resolveLoop] at h
    split_ifs at h with hfamily h4 h6
    · exact ih hv6 h
    · cases h
      refine ⟨rawAddr_oneLine raw, string_ne_nil ?_⟩
      intro hzero
      rw [hzero] at h4
      cases h4
    · exact ih (rawAddr_oneLine raw) h
    · exact ih hv6 h

theorem endpointLine_of_host {host : Str} (hline : newline ∉ host) (hne : host ≠ [])
    (port : UInt16) :
    EndpointLine ⟨host, port⟩ := by
  refine ⟨fun hempty => absurd (by simpa [Endpoint.isEmpty] using hempty) hne, ?_⟩
  have hport := itoa_oneLine port.toNat
  have hopen : newline ≠ 0x5B := by decide
  have hclose : newline ≠ 0x5D := by decide
  have hcolon : newline ≠ colon := by decide
  unfold Endpoint.string
  split_ifs
  · simp [hline, hport, hopen, hclose, hcolon]
  · simp [hline, hport, hcolon]

structure NoWebSocket (p : Peer) : Prop where
  wsURL : p.wsURL = []
  wsTunnelTarget : p.wsTunnelTarget = []
  wsBearer : p.wsBearer = []
  wsMask : p.wsMask = false
  wsTLSCA : p.wsTLSCA = []
  wsTLSCert : p.wsTLSCert = []
  wsTLSKey : p.wsTLSKey = []
  wsTLSInsecure : p.wsTLSInsecure = false
  wsPingInterval : p.wsPingInterval = 0
  wsBackoffMin : p.wsBackoffMin = 0
  wsBackoffMax : p.wsBackoffMax = 0

structure PeerText (p : Peer) : Prop where
  endpoint : EndpointLine p.endpoint
  wsURL : newline ∉ p.wsURL
  wsTunnelTarget : newline ∉ p.wsTunnelTarget
  wsBearer : newline ∉ p.wsBearer
  wsTLSCA : newline ∉ p.wsTLSCA
  wsTLSCert : newline ∉ p.wsTLSCert
  wsTLSKey : newline ∉ p.wsTLSKey
  allowedIPs : ∀ a ∈ p.allowedIPs, a.Parsed
  plain : p.wsMode = .none → NoWebSocket p

theorem present_of_unwritten {p : Peer} {k : PeerKey} {present : Bool} {value : Str}
    (h : p.Unwritten k) (hfield : p.field k = some (present, value)) : present = false := by
  rw [Peer.Unwritten, hfield, writeField] at h
  split_ifs at h with hp
  · rw [Bool.and_eq_true] at hp
    simpa using hp.1
  · simp [writeLine] at h

theorem noWebSocket_of_done {p : Peer} {wsKeys : List Str} (hok : p.Ok netURL wsKeys)
    (hvalid : validateWebSocketPeer p wsKeys = .ok ()) (hmode : p.wsMode = .none) :
    NoWebSocket p := by
  unfold validateWebSocketPeer at hvalid
  dsimp only at hvalid
  split_ifs at hvalid with h₁ h₂ h₃ h₄ h₅ h₆
  have hkeys : wsKeys = [] := by
    by_contra hne
    exact h₆ ⟨hmode, hne⟩
  have hunset : ∀ k, k.wsKeyName ≠ none → ∀ present value, p.field k = some (present, value) →
      present = false := fun k hk present value hf =>
    present_of_unwritten (hok.websocket hkeys k hk) hf
  constructor
  case wsURL =>
    by_contra hne
    exact h₁ ⟨hne, hmode⟩
  case wsTunnelTarget => simpa using hunset .wsTunnelTarget (by decide) _ _ rfl
  case wsBearer => simpa using hunset .wsBearer (by decide) _ _ rfl
  case wsMask => exact hunset .wsMask (by decide) _ _ rfl
  case wsTLSCA => simpa using hunset .wsTLSCA (by decide) _ _ rfl
  case wsTLSCert => simpa using hunset .wsTLSCert (by decide) _ _ rfl
  case wsTLSKey => simpa using hunset .wsTLSKey (by decide) _ _ rfl
  case wsTLSInsecure => exact hunset .wsTLSInsecure (by decide) _ _ rfl
  case wsPingInterval => simpa using hunset .wsPingInterval (by decide) _ _ rfl
  case wsBackoffMin => simpa using hunset .wsBackoffMin (by decide) _ _ rfl
  case wsBackoffMax => simpa using hunset .wsBackoffMax (by decide) _ _ rfl

theorem peerText_of_done {p : Peer} (h : p.Done netURL) : PeerText p := by
  obtain ⟨wsKeys, hok, hvalid⟩ := h
  have hendpoint := hok.fields .endpoint
  constructor
  case endpoint =>
    by_cases hurl : p.wsURL = []
    · rcases hendpoint.1 hurl with he | he
      · rw [he]
        exact ⟨fun _ => rfl, by decide⟩
      · refine ⟨fun hempty => absurd (by simpa [Endpoint.isEmpty] using hempty) he.host, ?_⟩
        exact he.text.oneLine
    · exact endpointLine_of_parseWSURL (hendpoint.2 hurl).2.2
  case wsURL =>
    by_cases hurl : p.wsURL = []
    · rw [hurl]
      exact List.not_mem_nil
    · exact (hendpoint.2 hurl).1.oneLine
  case wsTunnelTarget => exact (hok.fields .wsTunnelTarget).1.oneLine
  case wsBearer => exact (hok.fields .wsBearer).oneLine
  case wsTLSCA => exact (hok.fields .wsTLSCA).oneLine
  case wsTLSCert => exact (hok.fields .wsTLSCert).oneLine
  case wsTLSKey => exact (hok.fields .wsTLSKey).oneLine
  case allowedIPs => exact hok.fields .allowedIPs
  case plain => exact noWebSocket_of_done hok hvalid

theorem PeerText.resolved {p q : Peer} (hp : PeerText p) (h : Resolved p q) : PeerText q := by
  cases h with
  | unchanged => exact hp
  | resolved full lookup =>
    obtain ⟨hline, hne⟩ := resolveLoop_host (by decide) lookup
    exact { hp with
      endpoint := endpointLine_of_host hline hne p.endpoint.port
      plain := fun hmode => { hp.plain hmode with } }

theorem Written.peerText {c : Config} (h : Written c) {p : Peer} (hp : p ∈ c.peers) :
    PeerText p := by
  obtain ⟨text, name, c₀, hparse, -, hpeers⟩ := h.source
  have hcanonical := (fromWgQuick_canonical hparse).1
  obtain ⟨p₀, hp₀, hresolved⟩ := Loops.exists_left_of_forall₂ hpeers hp
  exact (peerText_of_done (hcanonical.peers p₀ hp₀).1).resolved hresolved

def optional (set : Bool) (value : Str) : List Str := if set then [value] else []

def Peer.slots (p : Peer) : List (Str × List Str) :=
  let ws := p.wsMode ≠ .none
  [(str "transport", [if ws then p.wsMode.string else str "udp"]),
    (str "preshared_key", optional (!p.presharedKey.isZero) (hexKey p.presharedKey)),
    (str "endpoint", optional (!p.endpoint.isEmpty) p.endpoint.string),
    (str "ws_url", optional (ws && p.wsURL ≠ []) p.wsURL),
    (str "wstunnel_target", optional (ws && p.wsTunnelTarget ≠ []) p.wsTunnelTarget),
    (str "ws_bearer", optional (ws && p.wsBearer ≠ []) p.wsBearer),
    (str "ws_mask", optional (ws && p.wsMask) (str "true")),
    (str "ws_tls_ca", optional (ws && p.wsTLSCA ≠ []) p.wsTLSCA),
    (str "ws_tls_cert", optional (ws && p.wsTLSCert ≠ []) p.wsTLSCert),
    (str "ws_tls_key", optional (ws && p.wsTLSKey ≠ []) p.wsTLSKey),
    (str "ws_tls_insecure", optional (ws && p.wsTLSInsecure) (str "true")),
    (str "ws_ping_interval", optional (ws && 0 < p.wsPingInterval) (itoa p.wsPingInterval.toNat)),
    (str "ws_backoff_min", optional (ws && 0 < p.wsBackoffMin) (itoa p.wsBackoffMin.toNat)),
    (str "ws_backoff_max", optional (ws && 0 < p.wsBackoffMax) (itoa p.wsBackoffMax.toNat)),
    (str "persistent_keepalive_interval", [itoa p.persistentKeepalive.toNat]),
    (str "replace_allowed_ips", [str "true"]),
    (str "allowed_ip", p.allowedIPs.map Prefix.string)]

def peerSlotKeys : List Str :=
  ["transport", "preshared_key", "endpoint", "ws_url", "wstunnel_target", "ws_bearer", "ws_mask",
    "ws_tls_ca", "ws_tls_cert", "ws_tls_key", "ws_tls_insecure", "ws_ping_interval",
    "ws_backoff_min", "ws_backoff_max", "persistent_keepalive_interval", "replace_allowed_ips",
    "allowed_ip"].map str

theorem map_optional (set : Bool) (key value : Str) :
    (optional set value).map (key, ·) = if set then [(key, value)] else [] := by
  cases set <;> rfl

theorem settings_eq_slotFields (p : Peer) : p.settings = slotFields p.slots := by
  simp only [Peer.settings, Peer.slots, slotFields, List.flatMap_cons,
    List.flatMap_nil, map_optional, Peer.wsFields]
  by_cases hws : p.wsMode = .none
  · simp [hws]
  · simp [hws]

def Interface.slots (i : Interface) : List (Str × List Str) :=
  [(str "private_key", [hexKey i.privateKey]),
    (str "listen_port", optional (0 < i.listenPort) (itoa i.listenPort.toNat)),
    (str "replace_peers", [str "true"])]

def interfaceSlotKeys : List Str := ["private_key", "listen_port", "replace_peers"].map str

theorem interfaceFields_eq_slotFields (i : Interface) : i.uapiFields = slotFields i.slots := by
  simp [Interface.uapiFields, Interface.slots, slotFields, map_optional]

def uapiKeys : List Str := interfaceSlotKeys ++ str "public_key" :: peerSlotKeys

theorem key_mem_settings {p : Peer} {f : Field} (h : f ∈ p.settings) : f.1 ∈ peerSlotKeys := by
  rw [settings_eq_slotFields] at h
  exact key_mem_of_mem_slotFields h

theorem key_mem_interface {i : Interface} {f : Field} (h : f ∈ i.uapiFields) :
    f.1 ∈ interfaceSlotKeys := by
  rw [interfaceFields_eq_slotFields] at h
  exact key_mem_of_mem_slotFields h

theorem key_mem_uapiKeys {c : Config} {f : Field} (h : f ∈ c.uapiFields) : f.1 ∈ uapiKeys := by
  rw [Config.uapiFields, List.mem_append, List.mem_flatMap] at h
  rw [uapiKeys, List.mem_append, List.mem_cons]
  rcases h with h | ⟨p, -, h⟩
  · exact Or.inl (key_mem_interface h)
  · rcases List.mem_cons.mp h with rfl | h
    · exact Or.inr (Or.inl rfl)
    · exact Or.inr (Or.inr (key_mem_settings h))

theorem uapiKeys_plain : uapiKeys.all (fun k => newline ∉ k ∧ equals ∉ k) = true := by
  decide +kernel

theorem optional_oneLine {value : Str} (h : newline ∉ value) (set : Bool) :
    ∀ v ∈ optional set value, newline ∉ v := by
  intro v hv
  cases set
  · cases hv
  · rwa [List.mem_singleton.mp hv]

theorem slots_oneLine {p : Peer} (hp : PeerText p) :
    ∀ slot ∈ p.slots, ∀ v ∈ slot.2, newline ∉ v := by
  have htrue : newline ∉ str "true" := by decide
  simp only [Peer.slots, List.forall_mem_cons, List.not_mem_nil, false_implies, implies_true,
    and_true]
  refine ⟨?mode, optional_oneLine (hexKey_oneLine _) _, optional_oneLine hp.endpoint.oneLine _,
    optional_oneLine hp.wsURL _, optional_oneLine hp.wsTunnelTarget _,
    optional_oneLine hp.wsBearer _, optional_oneLine htrue _, optional_oneLine hp.wsTLSCA _,
    optional_oneLine hp.wsTLSCert _, optional_oneLine hp.wsTLSKey _, optional_oneLine htrue _,
    optional_oneLine (itoa_oneLine _) _, optional_oneLine (itoa_oneLine _) _,
    optional_oneLine (itoa_oneLine _) _, itoa_oneLine _, htrue, ?allowedIPs⟩
  case mode =>
    cases p.wsMode <;> decide
  case allowedIPs =>
    intro v hv
    obtain ⟨a, ha, rfl⟩ := List.mem_map.mp hv
    have htext := itemText_prefix (hp.allowedIPs a ha)
    exact htext.oneLine

theorem interfaceSlots_oneLine (i : Interface) : ∀ slot ∈ i.slots, ∀ v ∈ slot.2, newline ∉ v := by
  simp only [Interface.slots, List.forall_mem_cons, List.not_mem_nil, false_implies, implies_true,
    and_true]
  exact ⟨hexKey_oneLine _, optional_oneLine (itoa_oneLine _) _, by decide⟩

theorem value_of_mem_slotFields {slots : List (Str × List Str)}
    (h : ∀ slot ∈ slots, ∀ v ∈ slot.2, newline ∉ v) {f : Field} (hf : f ∈ slotFields slots) :
    newline ∉ f.2 := by
  obtain ⟨slot, hslot, hf⟩ := List.mem_flatMap.mp hf
  obtain ⟨v, hv, rfl⟩ := List.mem_map.mp hf
  exact h slot hslot v hv

theorem Written.fields_oneLine {c : Config} (h : Written c) : ∀ f ∈ c.uapiFields, OneLine f := by
  intro f hf
  have hkey := List.all_eq_true.mp uapiKeys_plain f.1 (key_mem_uapiKeys hf)
  rw [decide_eq_true_eq] at hkey
  refine ⟨hkey.1, hkey.2, ?_⟩
  rw [Config.uapiFields, List.mem_append, List.mem_flatMap] at hf
  rcases hf with hf | ⟨p, hp, hf⟩
  · rw [interfaceFields_eq_slotFields] at hf
    exact value_of_mem_slotFields (interfaceSlots_oneLine _) hf
  · rcases List.mem_cons.mp hf with rfl | hf
    · exact hexKey_oneLine _
    · rw [settings_eq_slotFields] at hf
      exact value_of_mem_slotFields (slots_oneLine (h.peerText hp)) hf

theorem optional_inj {a b : Bool} {v w : Str} (h : optional a v = optional b w) :
    a = b ∧ (a = true → v = w) := by
  cases a <;> cases b <;> simp_all [optional]

theorem optional_text_inj {v w : Str} (h : optional (v ≠ []) v = optional (w ≠ []) w) : v = w := by
  obtain ⟨hset, hvalue⟩ := optional_inj h
  by_cases hv : v = []
  · have hw : w = [] := by simpa [hv] using hset
    rw [hv, hw]
  · exact hvalue (by simpa using hv)

theorem optional_itoa_inj {m n : Nat} (h : optional (0 < m) (itoa m) = optional (0 < n) (itoa n)) :
    m = n := by
  obtain ⟨hset, hvalue⟩ := optional_inj h
  by_cases hm : 0 < m
  · exact itoa_injective (hvalue (by simpa using hm))
  · have hn : ¬ 0 < n := by simpa [hm] using hset.symm
    omega

theorem hexKey_injective : Function.Injective hexKey := by
  intro k l h
  have hdecode := congrArg Hex.decodeString h
  rw [hexKey, hexKey, Hex.decodeString_encodeToString, Hex.decodeString_encodeToString] at hdecode
  cases k
  cases l
  cases hdecode
  rfl

theorem optional_key_inj {k l : Key}
    (h : optional (!k.isZero) (hexKey k) = optional (!l.isZero) (hexKey l)) : k = l := by
  obtain ⟨hset, hvalue⟩ := optional_inj h
  by_cases hk : k = Key.zero
  · have hl : l = Key.zero := by simpa [Key.isZero, hk] using hset
    rw [hk, hl]
  · exact hexKey_injective (hvalue (by simpa [Key.isZero] using hk))

def Endpoint.hostText (e : Endpoint) : Str :=
  if colon ∈ e.host then 0x5B :: (e.host ++ [0x5D]) else e.host

theorem endpoint_string_eq (e : Endpoint) :
    e.string = e.hostText ++ colon :: itoa e.port.toNat := by
  unfold Endpoint.string Endpoint.hostText
  split_ifs
  · simp
  · rfl

/-- Brackets stand around a host exactly if a colon is in it. -/
theorem hostText_inj {e f : Endpoint} (h : e.hostText = f.hostText) : e.host = f.host := by
  unfold Endpoint.hostText at h
  split_ifs at h with he hf hf
  · exact List.append_cancel_right (List.cons_injective h)
  · rw [← h] at hf
    exact absurd (List.mem_cons_of_mem _ (List.mem_append_left _ he)) hf
  · rw [h] at he
    exact absurd (List.mem_cons_of_mem _ (List.mem_append_left _ hf)) he
  · exact h

theorem endpoint_string_injective : Function.Injective Endpoint.string := by
  intro e f h
  have hcolon : ∀ n, colon ∉ itoa n := fun n hmem => absurd (isDigit_of_mem_itoa hmem) (by decide)
  have hcut := congrArg (fun s => cutLast s colon) h
  simp only [endpoint_string_eq, cutLast_append (hcolon _), Option.some.injEq,
    Prod.mk.injEq] at hcut
  obtain ⟨hhost, hport⟩ := hcut
  obtain ⟨eh, ep⟩ := e
  obtain ⟨fh, fp⟩ := f
  have hh : eh = fh := hostText_inj hhost
  have hp : ep = fp := UInt16.toNat_inj.mp (itoa_injective hport)
  rw [hh, hp]

theorem optional_endpoint_inj {e f : Endpoint} (he : EndpointLine e) (hf : EndpointLine f)
    (h : optional (!e.isEmpty) e.string = optional (!f.isEmpty) f.string) : e = f := by
  obtain ⟨hset, hvalue⟩ := optional_inj h
  by_cases hempty : e.isEmpty = true
  · have hempty' : f.isEmpty = true := by simpa [hempty] using hset
    rw [he.empty hempty, hf.empty hempty']
  · exact endpoint_string_injective (hvalue (by simpa using hempty))

structure Peer.SameSettings (p q : Peer) : Prop where
  publicKey : p.publicKey = q.publicKey
  presharedKey : p.presharedKey = q.presharedKey
  endpoint : p.endpoint = q.endpoint
  persistentKeepalive : p.persistentKeepalive = q.persistentKeepalive
  allowedIPs : p.allowedIPs = q.allowedIPs
  wsMode : p.wsMode = q.wsMode
  wsURL : p.wsURL = q.wsURL
  wsTunnelTarget : p.wsTunnelTarget = q.wsTunnelTarget
  wsBearer : p.wsBearer = q.wsBearer
  wsMask : p.wsMask = q.wsMask
  wsTLSCA : p.wsTLSCA = q.wsTLSCA
  wsTLSCert : p.wsTLSCert = q.wsTLSCert
  wsTLSKey : p.wsTLSKey = q.wsTLSKey
  wsTLSInsecure : p.wsTLSInsecure = q.wsTLSInsecure
  wsPingInterval : p.wsPingInterval = q.wsPingInterval
  wsBackoffMin : p.wsBackoffMin = q.wsBackoffMin
  wsBackoffMax : p.wsBackoffMax = q.wsBackoffMax

theorem transport_injective {m n : WSMode}
    (h : (if m ≠ .none then m.string else str "udp") = if n ≠ .none then n.string else str "udp") :
    m = n := by
  revert h
  cases m <;> cases n <;> decide

theorem optional_millis_inj {m n : UInt32}
    (h : optional (0 < m) (itoa m.toNat) = optional (0 < n) (itoa n.toNat)) : m = n := by
  simp only [UInt32.lt_iff_toNat_lt] at h
  exact UInt32.toNat_inj.mp (optional_itoa_inj h)

theorem sameSettings_of_slots {p q : Peer} (hp : PeerText p) (hq : PeerText q)
    (hkey : p.publicKey = q.publicKey) (h : p.slots = q.slots) : p.SameSettings q := by
  simp only [Peer.slots, List.cons.injEq, Prod.mk.injEq, true_and, and_true] at h
  obtain ⟨hmode, hpsk, hendpoint, hurl, htarget, hbearer, hmask, hca, hcert, htlskey,
    hinsecure, hping, hmin, hmax, hkeepalive, hallowed⟩ := h
  have hmode := transport_injective hmode
  have hpsk := optional_key_inj hpsk
  have hendpoint := optional_endpoint_inj hp.endpoint hq.endpoint hendpoint
  have hkeepalive := UInt16.toNat_inj.mp (itoa_injective hkeepalive)
  have hallowed := prefix_string_inj hp.allowedIPs hq.allowedIPs hallowed
  by_cases hnone : p.wsMode = .none
  · -- without a transport nothing is written, and nothing is set
    have hp := hp.plain hnone
    have hq := hq.plain (hmode ▸ hnone)
    exact ⟨hkey, hpsk, hendpoint, hkeepalive, hallowed, hmode, hp.wsURL.trans hq.wsURL.symm,
      hp.wsTunnelTarget.trans hq.wsTunnelTarget.symm, hp.wsBearer.trans hq.wsBearer.symm,
      hp.wsMask.trans hq.wsMask.symm, hp.wsTLSCA.trans hq.wsTLSCA.symm,
      hp.wsTLSCert.trans hq.wsTLSCert.symm, hp.wsTLSKey.trans hq.wsTLSKey.symm,
      hp.wsTLSInsecure.trans hq.wsTLSInsecure.symm, hp.wsPingInterval.trans hq.wsPingInterval.symm,
      hp.wsBackoffMin.trans hq.wsBackoffMin.symm, hp.wsBackoffMax.trans hq.wsBackoffMax.symm⟩
  · have hset : ∀ b, (decide (p.wsMode ≠ .none) && b) = b := fun b => by simp [hnone]
    have hset' : ∀ b, (decide (q.wsMode ≠ .none) && b) = b := fun b => by simp [← hmode, hnone]
    rw [hset, hset'] at hurl htarget hbearer hmask hca hcert htlskey hinsecure hping hmin hmax
    exact ⟨hkey, hpsk, hendpoint, hkeepalive, hallowed, hmode, optional_text_inj hurl,
      optional_text_inj htarget, optional_text_inj hbearer, (optional_inj hmask).1,
      optional_text_inj hca, optional_text_inj hcert, optional_text_inj htlskey,
      (optional_inj hinsecure).1, optional_millis_inj hping, optional_millis_inj hmin,
      optional_millis_inj hmax⟩

theorem peer_opens (p : Peer) : Opens (str "public_key") p.uapiFields := by
  have hopener : str "public_key" ∉ peerSlotKeys := by decide +kernel
  refine ⟨hexKey p.publicKey, p.settings, rfl, ?_⟩
  intro f hf heq
  exact hopener (heq ▸ key_mem_settings hf)

theorem interface_not_opener {i : Interface} : ∀ f ∈ i.uapiFields, f.1 ≠ str "public_key" := by
  have hopener : str "public_key" ∉ interfaceSlotKeys := by decide +kernel
  intro f hf heq
  exact hopener (heq ▸ key_mem_interface hf)

theorem sameSettings_of_fields {p q : Peer} (hp : PeerText p) (hq : PeerText q)
    (h : p.uapiFields = q.uapiFields) : p.SameSettings q := by
  obtain ⟨hhead, hsettings⟩ := List.cons_eq_cons.mp h
  have hkey : p.publicKey = q.publicKey := hexKey_injective (congrArg Prod.snd hhead)
  rw [settings_eq_slotFields, settings_eq_slotFields] at hsettings
  have hnodup : peerSlotKeys.Nodup := by decide +kernel
  exact sameSettings_of_slots hp hq hkey (slotFields_injective rfl hnodup hsettings)

theorem fields_split {c c' : Config} (h : c.uapiFields = c'.uapiFields) :
    c.interface.uapiFields = c'.interface.uapiFields ∧
      c.peers.map Peer.uapiFields = c'.peers.map Peer.uapiFields := by
  have hblocks : ∀ c : Config, ∀ b ∈ c.peers.map Peer.uapiFields, Opens (str "public_key") b := by
    intro c b hb
    obtain ⟨p, -, rfl⟩ := List.mem_map.mp hb
    exact peer_opens p
  rw [Config.uapiFields, Config.uapiFields, List.flatMap_def, List.flatMap_def] at h
  have hheader : c.interface.uapiFields = c'.interface.uapiFields := by
    rw [← takeWhile_block interface_not_opener (hblocks c), h,
      takeWhile_block interface_not_opener (hblocks c')]
  rw [hheader] at h
  exact ⟨hheader, blocks_injective (hblocks c) (hblocks c') (List.append_cancel_left h)⟩

theorem interface_inj {i j : Interface} (h : i.uapiFields = j.uapiFields) :
    i.privateKey = j.privateKey ∧ i.listenPort = j.listenPort := by
  have hnodup : interfaceSlotKeys.Nodup := by decide +kernel
  rw [interfaceFields_eq_slotFields, interfaceFields_eq_slotFields] at h
  have hslots : i.slots = j.slots := slotFields_injective rfl hnodup h
  simp only [Interface.slots, List.cons.injEq, Prod.mk.injEq, true_and, and_true] at hslots
  obtain ⟨hkey, hport⟩ := hslots
  simp only [UInt16.lt_iff_toNat_lt] at hport
  exact ⟨hexKey_injective hkey, UInt16.toNat_inj.mp (optional_itoa_inj hport)⟩

theorem publicKeys_fields (c : Config) :
    c.uapiFields.filter (fun f => f.1 = str "public_key") =
      c.peers.map fun p => (str "public_key", hexKey p.publicKey) := by
  have hheader : c.interface.uapiFields.filter (fun f => f.1 = str "public_key") = [] := by
    rw [List.filter_eq_nil_iff]
    intro f hf
    simpa using interface_not_opener f hf
  have hpeer : ∀ p : Peer, p.uapiFields.filter (fun f => f.1 = str "public_key") =
      [(str "public_key", hexKey p.publicKey)] := by
    intro p
    have hopener : str "public_key" ∉ peerSlotKeys := by decide +kernel
    rw [Peer.uapiFields, List.filter_cons_of_pos (by simp), List.filter_eq_nil_iff.mpr]
    intro f hf
    have hne : f.1 ≠ str "public_key" := fun heq => hopener (heq ▸ key_mem_settings hf)
    simpa using hne
  rw [Config.uapiFields, List.filter_append, hheader, List.nil_append, List.filter_flatMap]
  simp only [hpeer]
  exact List.map_eq_flatMap.symm

/-- The lines of the text are the fields that were written, in order, and they determine every
setting. -/
theorem toUAPI_faithful {c : Config} (hc : Written c) :
    read c.toUAPI = c.uapiFields.map (fun f => (f.1, f.2, true)) ∧
      (∀ l ∈ read c.toUAPI, l.1 ∈ uapiKeys) ∧
      ((read c.toUAPI).filter (·.1 = str "public_key")).map (·.2.1) =
        c.peers.map (fun p => hexKey p.publicKey) ∧
      ∀ c', Written c' → c'.toUAPI = c.toUAPI →
        c'.interface.privateKey = c.interface.privateKey ∧
        c'.interface.listenPort = c.interface.listenPort ∧
        List.Forall₂ Peer.SameSettings c'.peers c.peers := by
  have hread : read c.toUAPI = c.uapiFields.map (fun f => (f.1, f.2, true)) :=
    read_text hc.fields_oneLine
  refine ⟨hread, ?keys, ?blocks, ?determined⟩
  case keys =>
    intro l hl
    rw [hread] at hl
    obtain ⟨f, hf, rfl⟩ := List.mem_map.mp hl
    exact key_mem_uapiKeys hf
  case blocks =>
    rw [hread, List.filter_map, List.map_map]
    change (c.uapiFields.filter fun f => f.1 = str "public_key").map Prod.snd = _
    rw [publicKeys_fields, List.map_map]
    rfl
  case determined =>
    intro c' hc' h
    have hfields := text_injective hc'.fields_oneLine hc.fields_oneLine h
    obtain ⟨hheader, hpeers⟩ := fields_split hfields
    obtain ⟨hkey, hport⟩ := interface_inj hheader
    refine ⟨hkey, hport, Loops.forall₂_of_map_eq hpeers ?_⟩
    intro p hp q hq
    exact sameSettings_of_fields (hc'.peerText hp) (hc.peerText hq)

def twoPeersText : Str :=
  str ("[Interface]\nPrivateKey = yAnz5TF+lXXJte14tji3zlMNq+hd2rYUIgJBgB3fBmk=\n" ++
    "[Peer]\nPublicKey = xTIBA5rboUvnH4htodjb6e697QjLERt1NAB4mZqp8Dg=\n" ++
    "Endpoint = wss://vpn.example:443/t\nWSMode = websocket\nWSBearer = public_key=00\n" ++
    "[Peer]\nPublicKey = TrMvSoP4jYQlY6RIzBgbssQqY3vxI2Pi+y71lOWWXX0=\n")

theorem twoPeersText_length :
    (fromWgQuick netURL twoPeersText (str "wg0")).toOption.map (·.peers.length) = some 2 := by
  decide +kernel

theorem toUAPI_faithful_twoPeers :
    ∃ c, Written c ∧ c.peers.length = 2 ∧
      ((read c.toUAPI).filter (·.1 = str "public_key")).map (·.2.1) =
        c.peers.map (fun p => hexKey p.publicKey) := by
  obtain ⟨c, hc, hlength⟩ := Loops.ok_of_toOption_map twoPeersText_length
  have hwritten : Written c :=
    ⟨twoPeersText, str "wg0", c, hc, rfl, List.forall₂_same.mpr fun _ _ => .unchanged⟩
  exact ⟨c, hwritten, hlength, (toUAPI_faithful hwritten).2.2.1⟩

end WireGuardWindows.Conf
