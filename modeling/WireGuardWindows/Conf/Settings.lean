import WireGuardWindows.Conf.Accepted
import WireGuardWindows.GoStd.KeyedValues

/-!
# What the values of a key contribute

A section that is read from settings in turn depends on the values of each key alone: a list
key contributes all its values, any other key its last one. Whether a value is accepted does
not depend on what has been read before it.
-/

namespace WireGuardWindows.Conf
open GoStd Strings Strconv Netip Loops KeyedValues

def networksOf (val : Str) : Except Error (List Prefix) := do (← splitList val).mapM parseIPCidr

structure Interface.Given (i : Interface) (v : InterfaceKey → List Str) : Prop where
  privateKey : lastValue parseKeyBase64 Key.zero (v .privateKey) = .ok i.privateKey
  listenPort : lastValue parsePort 0 (v .listenPort) = .ok i.listenPort
  mtu : lastValue parseMTU 0 (v .mtu) = .ok i.mtu
  addresses : allValues networksOf (v .address) = .ok i.addresses
  dns : ∃ names, allValues splitList (v .dns) = .ok names ∧ i.dns = names.filterMap parseAddr ∧
    i.dnsSearch = names.filter fun n => (parseAddr n).isNone
  preUp : i.preUp = (v .preUp).getLastD []
  postUp : i.postUp = (v .postUp).getLastD []
  preDown : i.preDown = (v .preDown).getLastD []
  postDown : i.postDown = (v .postDown).getLastD []
  tableOff : lastValue parseTableOff false (v .table) = .ok i.tableOff

def endpointOf (urlParse : Str → Option URL) (val : Str) : Except Error (Endpoint × Str) :=
  if isWSURL val then do return (← parseWSURL urlParse val, val)
  else do return (← parseEndpoint val, [])

structure Peer.Given (urlParse : Str → Option URL) (p : Peer) (v : PeerKey → List Str) : Prop where
  publicKey : lastValue parseKeyBase64 Key.zero (v .publicKey) = .ok p.publicKey
  presharedKey : lastValue parseKeyBase64 Key.zero (v .presharedKey) = .ok p.presharedKey
  allowedIPs : allValues networksOf (v .allowedIPs) = .ok p.allowedIPs
  persistentKeepalive :
    lastValue parsePersistentKeepalive 0 (v .persistentKeepalive) = .ok p.persistentKeepalive
  endpoint : lastValue (endpointOf urlParse) (⟨[], 0⟩, []) (v .endpoint) = .ok (p.endpoint, p.wsURL)
  wsMode : lastValue parseWSMode .none (v .wsMode) = .ok p.wsMode
  wsTunnelTarget : p.wsTunnelTarget = (v .wsTunnelTarget).getLastD []
  wsBearer : p.wsBearer = (v .wsBearer).getLastD []
  wsMask : lastValue parseWSBool false (v .wsMask) = .ok p.wsMask
  wsTLSCA : p.wsTLSCA = (v .wsTLSCA).getLastD []
  wsTLSCert : p.wsTLSCert = (v .wsTLSCert).getLastD []
  wsTLSKey : p.wsTLSKey = (v .wsTLSKey).getLastD []
  wsTLSInsecure : lastValue parseWSBool false (v .wsTLSInsecure) = .ok p.wsTLSInsecure
  wsPingInterval : lastValue parseWSMillis 0 (v .wsPingInterval) = .ok p.wsPingInterval
  wsBackoffMin : lastValue parseWSMillis 0 (v .wsBackoffMin) = .ok p.wsBackoffMin
  wsBackoffMax : lastValue parseWSMillis 0 (v .wsBackoffMax) = .ok p.wsBackoffMax
  counters : p.rxBytes = 0 ∧ p.txBytes = 0 ∧ p.lastHandshakeTime = 0

def Interface.withoutComments (i : Interface) : Interface := { i with comments := {} }

def Peer.withoutComments (p : Peer) : Peer := { p with comments := {} }

def Config.withoutComments (c : Config) : Config :=
  { c with
    interface := c.interface.withoutComments
    peers := c.peers.map Peer.withoutComments
    trailingComments := [] }

namespace Interface.Given
variable {i i' : Interface} {v : InterfaceKey → List Str}

theorem empty : Given {} fun _ => [] :=
  ⟨rfl, rfl, rfl, rfl, ⟨[], rfl, rfl, rfl⟩, rfl, rfl, rfl, rfl, rfl⟩

theorem comments (h : i.Given v) (c : SectionComments InterfaceKey) :
    Given { i with comments := c } v :=
  ⟨h.privateKey, h.listenPort, h.mtu, h.addresses, h.dns, h.preUp, h.postUp, h.preDown,
    h.postDown, h.tableOff⟩

theorem unique (h : i.Given v) (h' : i'.Given v) : i.withoutComments = i'.withoutComments := by
  obtain ⟨names, hnames, hdns, hsearch⟩ := h.dns
  obtain ⟨names', hnames', hdns', hsearch'⟩ := h'.dns
  obtain rfl := Except.ok.inj (hnames.symm.trans hnames')
  have hprivate := Except.ok.inj (h.privateKey.symm.trans h'.privateKey)
  have hport := Except.ok.inj (h.listenPort.symm.trans h'.listenPort)
  have hmtu := Except.ok.inj (h.mtu.symm.trans h'.mtu)
  have haddresses := Except.ok.inj (h.addresses.symm.trans h'.addresses)
  have htable := Except.ok.inj (h.tableOff.symm.trans h'.tableOff)
  simp only [withoutComments, hprivate, hport, hmtu, haddresses, htable, hdns, hdns', hsearch,
    hsearch', h.preUp, h'.preUp, h.postUp, h'.postUp, h.preDown, h'.preDown,
    h.postDown, h'.postDown]

theorem set (h : i.Given v) {val : Str} {k : InterfaceKey} (hset : i.set val k = .ok i') :
    i'.Given (Function.update v k (v k ++ [val])) := by
  obtain ⟨names, hnames, hdns, hsearch⟩ := h.dns
  cases k with
  | privateKey | listenPort | mtu | table =>
    obtain ⟨a, ha, hset⟩ := bind_eq_ok hset
    cases hset
    constructor <;> simp [Function.update, lastValue_concat, ha, h.privateKey, h.listenPort, h.mtu,
      h.addresses, h.dns, h.preUp, h.postUp, h.preDown, h.postDown, h.tableOff]
  | preUp | postUp | preDown | postDown =>
    cases hset
    constructor <;> simp [Function.update, h.privateKey, h.listenPort, h.mtu,
      h.addresses, h.dns, h.preUp, h.postUp, h.preDown, h.postDown, h.tableOff]
  | address =>
    obtain ⟨items, hitems, hset⟩ := bind_eq_ok hset
    obtain ⟨networks, hnetworks, hset⟩ := bind_eq_ok hset
    cases hset
    have hval : networksOf val = .ok networks := by
      rw [networksOf, hitems]
      exact hnetworks
    constructor <;> simp [Function.update, allValues_concat h.addresses hval, h.privateKey,
      h.listenPort, h.mtu, h.dns, h.preUp, h.postUp, h.preDown, h.postDown, h.tableOff]
  | dns =>
    obtain ⟨more, hmore, hset⟩ := bind_eq_ok hset
    cases hset
    rw [foldl_addDNS]
    have hall : ∃ all, allValues splitList (v .dns ++ [val]) = .ok all ∧
        i.dns ++ more.filterMap parseAddr = all.filterMap parseAddr ∧
        i.dnsSearch ++ more.filter (fun n => (parseAddr n).isNone) =
          all.filter fun n => (parseAddr n).isNone := by
      refine ⟨names ++ more, allValues_concat hnames hmore, ?_, ?_⟩
      · rw [hdns, List.filterMap_append]
      · rw [hsearch, List.filter_append]
    constructor
    case dns => simpa [Function.update] using hall
    all_goals simp [Function.update, h.privateKey, h.listenPort, h.mtu, h.addresses, h.preUp,
      h.postUp, h.preDown, h.postDown, h.tableOff]

end Interface.Given

theorem Interface.set_isOk (i j : Interface) (val : Str) (k : InterfaceKey) :
    (∃ i', i.set val k = .ok i') → ∃ j', j.set val k = .ok j' := by
  rintro ⟨i', h⟩
  cases k with
  | privateKey | listenPort | mtu | table =>
    obtain ⟨a, ha, -⟩ := bind_eq_ok h
    exact ⟨_, by rw [set, ha]; rfl⟩
  | preUp | postUp | preDown | postDown => exact ⟨_, rfl⟩
  | address =>
    obtain ⟨items, hitems, h⟩ := bind_eq_ok h
    obtain ⟨networks, hnetworks, -⟩ := bind_eq_ok h
    refine ⟨{ j with addresses := j.addresses ++ networks }, ?_⟩
    simp [set, hitems, hnetworks, bind, Except.bind, pure, Except.pure]
  | dns =>
    obtain ⟨items, hitems, -⟩ := bind_eq_ok h
    exact ⟨_, by rw [set, hitems]; rfl⟩

section
variable {urlParse : Str → Option URL} {p p' : Peer}

theorem Peer.set_eq_ok {val : Str} {k : PeerKey} (h : p.set urlParse val k = .ok p') :
    match k with
    | .publicKey => ∃ a, parseKeyBase64 val = .ok a ∧ p' = { p with publicKey := a }
    | .presharedKey => ∃ a, parseKeyBase64 val = .ok a ∧ p' = { p with presharedKey := a }
    | .allowedIPs => ∃ a, networksOf val = .ok a ∧ p' = { p with allowedIPs := p.allowedIPs ++ a }
    | .persistentKeepalive =>
      ∃ a, parsePersistentKeepalive val = .ok a ∧ p' = { p with persistentKeepalive := a }
    | .endpoint =>
      ∃ e, endpointOf urlParse val = .ok e ∧ p' = { p with endpoint := e.1, wsURL := e.2 }
    | .wsMode => ∃ a, parseWSMode val = .ok a ∧ p' = { p with wsMode := a }
    | .wsTunnelTarget => ∃ e, parseEndpoint val = .ok e ∧ p' = { p with wsTunnelTarget := val }
    | .wsBearer => p' = { p with wsBearer := val }
    | .wsMask => ∃ a, parseWSBool val = .ok a ∧ p' = { p with wsMask := a }
    | .wsTLSCA => p' = { p with wsTLSCA := val }
    | .wsTLSCert => p' = { p with wsTLSCert := val }
    | .wsTLSKey => p' = { p with wsTLSKey := val }
    | .wsTLSInsecure => ∃ a, parseWSBool val = .ok a ∧ p' = { p with wsTLSInsecure := a }
    | .wsPingInterval => ∃ a, parseWSMillis val = .ok a ∧ p' = { p with wsPingInterval := a }
    | .wsBackoffMin => ∃ a, parseWSMillis val = .ok a ∧ p' = { p with wsBackoffMin := a }
    | .wsBackoffMax => ∃ a, parseWSMillis val = .ok a ∧ p' = { p with wsBackoffMax := a } := by
  cases k with
  | wsBearer | wsTLSCA | wsTLSCert | wsTLSKey =>
    cases h
    rfl
  | allowedIPs =>
    obtain ⟨items, hitems, h⟩ := bind_eq_ok h
    obtain ⟨networks, hnetworks, h⟩ := bind_eq_ok h
    cases h
    refine ⟨networks, ?_, rfl⟩
    rw [networksOf, hitems]
    exact hnetworks
  | endpoint =>
    rw [set] at h
    split_ifs at h with hws
    · obtain ⟨e, he, h⟩ := bind_eq_ok h
      cases h
      exact ⟨(e, val), by rw [endpointOf, if_pos hws, he]; rfl, rfl⟩
    · obtain ⟨e, he, h⟩ := bind_eq_ok h
      cases h
      exact ⟨(e, []), by rw [endpointOf, if_neg hws, he]; rfl, rfl⟩
  | wsTunnelTarget =>
    rw [set] at h
    cases he : parseEndpoint val with
    | error e =>
      rw [he] at h
      cases h
    | ok e =>
      rw [he] at h
      cases h
      exact ⟨e, rfl, rfl⟩
  | _ =>
    obtain ⟨a, ha, h⟩ := bind_eq_ok h
    cases h
    exact ⟨a, ha, rfl⟩

namespace Peer.Given
variable {v : PeerKey → List Str}

theorem empty : Given urlParse {} fun _ => [] :=
  ⟨rfl, rfl, rfl, rfl, rfl, rfl, rfl, rfl, rfl, rfl, rfl, rfl, rfl, rfl, rfl, rfl, rfl, rfl, rfl⟩

theorem comments (h : p.Given urlParse v) (c : SectionComments PeerKey) :
    Given urlParse { p with comments := c } v :=
  ⟨h.publicKey, h.presharedKey, h.allowedIPs, h.persistentKeepalive, h.endpoint, h.wsMode,
    h.wsTunnelTarget, h.wsBearer, h.wsMask, h.wsTLSCA, h.wsTLSCert, h.wsTLSKey, h.wsTLSInsecure,
    h.wsPingInterval, h.wsBackoffMin, h.wsBackoffMax, h.counters⟩

theorem unique (h : p.Given urlParse v) (h' : p'.Given urlParse v) :
    p.withoutComments = p'.withoutComments := by
  have hpublic := Except.ok.inj (h.publicKey.symm.trans h'.publicKey)
  have hpreshared := Except.ok.inj (h.presharedKey.symm.trans h'.presharedKey)
  have hallowed := Except.ok.inj (h.allowedIPs.symm.trans h'.allowedIPs)
  have hkeepalive := Except.ok.inj (h.persistentKeepalive.symm.trans h'.persistentKeepalive)
  obtain ⟨hendpoint, hurl⟩ := Prod.ext_iff.mp (Except.ok.inj (h.endpoint.symm.trans h'.endpoint))
  have hmode := Except.ok.inj (h.wsMode.symm.trans h'.wsMode)
  have hmask := Except.ok.inj (h.wsMask.symm.trans h'.wsMask)
  have hinsecure := Except.ok.inj (h.wsTLSInsecure.symm.trans h'.wsTLSInsecure)
  have hping := Except.ok.inj (h.wsPingInterval.symm.trans h'.wsPingInterval)
  have hmin := Except.ok.inj (h.wsBackoffMin.symm.trans h'.wsBackoffMin)
  have hmax := Except.ok.inj (h.wsBackoffMax.symm.trans h'.wsBackoffMax)
  dsimp only at hendpoint hurl
  simp only [withoutComments, hpublic, hpreshared, hallowed, hkeepalive, hendpoint, hurl, hmode,
    hmask, hinsecure, hping, hmin, hmax, h.wsTunnelTarget, h'.wsTunnelTarget, h.wsBearer,
    h'.wsBearer, h.wsTLSCA, h'.wsTLSCA, h.wsTLSCert, h'.wsTLSCert, h.wsTLSKey, h'.wsTLSKey,
    h.counters, h'.counters]

theorem set (h : p.Given urlParse v) {val : Str} {k : PeerKey}
    (hset : p.set urlParse val k = .ok p') :
    p'.Given urlParse (Function.update v k (v k ++ [val])) := by
  have hset := Peer.set_eq_ok hset
  cases k with
  | wsBearer | wsTLSCA | wsTLSCert | wsTLSKey =>
    dsimp only at hset
    subst hset
    constructor <;> simp [Function.update, h.publicKey, h.presharedKey, h.allowedIPs,
      h.persistentKeepalive, h.endpoint, h.wsMode, h.wsTunnelTarget, h.wsBearer,
      h.wsMask, h.wsTLSCA, h.wsTLSCert, h.wsTLSKey, h.wsTLSInsecure, h.wsPingInterval,
      h.wsBackoffMin, h.wsBackoffMax, h.counters]
  | allowedIPs =>
    obtain ⟨a, ha, rfl⟩ := hset
    constructor <;> simp [Function.update, allValues_concat h.allowedIPs ha, h.publicKey,
      h.presharedKey, h.persistentKeepalive, h.endpoint, h.wsMode, h.wsTunnelTarget, h.wsBearer,
      h.wsMask, h.wsTLSCA, h.wsTLSCert, h.wsTLSKey, h.wsTLSInsecure, h.wsPingInterval,
      h.wsBackoffMin, h.wsBackoffMax, h.counters]
  | _ =>
    obtain ⟨a, ha, rfl⟩ := hset
    constructor <;> simp [Function.update, lastValue_concat, ha, h.publicKey, h.presharedKey,
      h.allowedIPs, h.persistentKeepalive, h.endpoint, h.wsMode, h.wsTunnelTarget, h.wsBearer,
      h.wsMask, h.wsTLSCA, h.wsTLSCert, h.wsTLSKey, h.wsTLSInsecure, h.wsPingInterval,
      h.wsBackoffMin, h.wsBackoffMax, h.counters]

end Peer.Given

theorem Peer.set_isOk (p q : Peer) (val : Str) (k : PeerKey)
    (h : ∃ p', p.set urlParse val k = .ok p') :
    ∃ q', q.set urlParse val k = .ok q' := by
  obtain ⟨p', h⟩ := h
  have hset := Peer.set_eq_ok h
  cases k with
  | wsBearer | wsTLSCA | wsTLSCert | wsTLSKey => exact ⟨_, rfl⟩
  | allowedIPs =>
    obtain ⟨items, hitems, h⟩ := bind_eq_ok h
    obtain ⟨networks, hnetworks, -⟩ := bind_eq_ok h
    refine ⟨{ q with allowedIPs := q.allowedIPs ++ networks }, ?_⟩
    simp [set, hitems, hnetworks, bind, Except.bind, pure, Except.pure]
  | endpoint =>
    rw [set] at h ⊢
    by_cases hws : isWSURL val = true
    · rw [if_pos hws] at h ⊢
      obtain ⟨e, he, -⟩ := bind_eq_ok h
      exact ⟨_, by rw [he]; rfl⟩
    · rw [if_neg hws] at h ⊢
      obtain ⟨e, he, -⟩ := bind_eq_ok h
      exact ⟨_, by rw [he]; rfl⟩
  | wsTunnelTarget =>
    obtain ⟨a, ha, -⟩ := hset
    exact ⟨_, by rw [set, ha]⟩
  | _ =>
    obtain ⟨a, ha, -⟩ := hset
    exact ⟨_, by rw [set, ha]; rfl⟩

end

end WireGuardWindows.Conf
