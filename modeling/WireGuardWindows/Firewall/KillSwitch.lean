import WireGuardWindows.Firewall.Rules
import WireGuardWindows.GoStd.Loops

/-!
# What the firewall lets through

`enableFirewall` adds the rules one after the other inside a transaction of the filtering
engine, which may refuse any of its calls. What an enabled firewall decides is then read from
the weights: the bands 15, 14, 13, 12 and 0 of the installed filters are an ordered rule list.
-/

namespace WireGuardWindows.Firewall
open GoStd Strings Netip Filtering Loops

structure TokenGroup where
  attributes : Nat
  valid : Bool
  identifierAuthority : Nat
  subAuthorities : List Nat
  sid : Str
  deriving DecidableEq

/-- The platform as one call of `EnableFirewall` finds it: the current process, and which
calls of the engine fail. `addError added f` is the error of adding `f` after `added`. -/
structure Platform where
  appID : Except Error Str
  tokenGroups : Except Error (List TokenGroup)
  securityDescriptorError : Option Error
  sessionError : Option Error
  baseObjectsError : Option Error
  addError : List Filter → Filter → Option Error
  commitError : List Filter → Option Error

-- SE_GROUP_ENABLED | SE_GROUP_ENABLED_BY_DEFAULT | SE_GROUP_OWNER
def serviceGroupAttributes : Nat := 0x4 ||| 0x2 ||| 0x8

def securityNtAuthority : Nat := 5
def errorNoSuchGroup : Error := .errno 1319

def TokenGroup.isService (g : TokenGroup) : Bool :=
  g.attributes = serviceGroupAttributes && (g.valid && g.identifierAuthority =
    securityNtAuthority &&
    6 ≤ g.subAuthorities.length && g.subAuthorities.head? = some 80)

def check (e : Option Error) : Except Error Unit :=
  match e with
  | some e => .error e
  | none => .ok ()

def getCurrentProcessSecurityDescriptor (p : Platform) : Except Error Str := do
  let gs ← p.tokenGroups
  match gs.find? TokenGroup.isService with
  | none => .error errorNoSuchGroup
  | some g =>
    check p.securityDescriptorError
    return g.sid

def install (p : Platform) (fs added : List Filter) : Except Error (List Filter) :=
  fs.foldlM (fun added f => do
    check (p.addError added f)
    return added ++ [f]) added

def objectInstaller (p : Platform) (luid : UInt64) (doNotRestrict : Bool)
    (restrictToDNSServers : List Addr) : Except Error (List Filter) := do
  check p.baseObjectsError
  let appID ← p.appID
  let sid ← getCurrentProcessSecurityDescriptor p
  let fs ← install p (permitWireGuardService 15 appID sid) []
  if doNotRestrict then return fs
  let dns ← (if 0 < restrictToDNSServers.length then blockDNS restrictToDNSServers 15 14
    else pure [])
  let fs ← install p dns fs
  let fs ← install p (permitLoopback 13) fs
  let fs ← install p (permitTunInterface 12 luid) fs
  let fs ← install p (permitDHCPIPv4 12) fs
  let fs ← install p (permitDHCPIPv6 12) fs
  let fs ← install p (permitNdp 12) fs
  install p (blockAll 0) fs

/-- The global session with the filters committed through it. The session is a dynamic one:
closing it removes its filters. -/
abbrev WfpSession := Option (List Filter)

def enableFirewall (p : Platform) (wfpSession : WfpSession) (luid : UInt64) (doNotRestrict : Bool)
    (restrictToDNSServers : List Addr) : Except Error WfpSession := do
  if wfpSession.isSome then throw (.message "The firewall has already been enabled")
  check p.sessionError
  let fs ← objectInstaller p luid doNotRestrict restrictToDNSServers
  check (p.commitError fs)
  return some fs

def disableFirewall (_ : WfpSession) : WfpSession := none

theorem install_ok {p : Platform} {fs added fs' : List Filter} (h : install p fs added = .ok fs') :
    fs' = added ++ fs := by
  induction fs generalizing added with
  | nil =>
    cases h
    simp
  | cons f fs ih =>
    obtain ⟨added', hadd, hrest⟩ := bind_eq_ok h
    obtain ⟨-, -, hpure⟩ := bind_eq_ok hadd
    cases hpure
    rw [ih hrest, List.append_assoc, List.singleton_append]

def allowFilters (servers : List Addr) : List Filter :=
  allowServers layersV4 (servers.filterMap serverV4) 15 ++
    allowServers layersV6 (servers.filterMap serverV6) 15

def denyFilters (servers : List Addr) : List Filter :=
  if 0 < servers.length then onLayers layers 14 denyConditions .block else []

theorem blockDNS_filters {servers : List Addr} {dns : List Filter}
    (h : (if 0 < servers.length then blockDNS servers 15 14 else pure []) = .ok dns) :
    dns = denyFilters servers ++ allowFilters servers := by
  rcases List.eq_nil_or_concat servers with rfl | ⟨l, a, rfl⟩
  · cases h
    rfl
  · rw [if_pos (by simp), blockDNS, if_neg (by decide)] at h
    cases h
    rw [denyFilters, if_pos (by simp), allowFilters, List.append_assoc]

def restrictingFilters (appID sid : Str) (luid : UInt64) (servers : List Addr) : List Filter :=
  permitWireGuardService 15 appID sid ++ (denyFilters servers ++ allowFilters servers) ++
    permitLoopback 13 ++ permitTunInterface 12 luid ++ permitDHCPIPv4 12 ++
    permitDHCPIPv6 12 ++ permitNdp 12 ++ blockAll 0

def Platform.service (p : Platform) : Except Error (Str × Str) := do
  let appID ← p.appID
  let sid ← getCurrentProcessSecurityDescriptor p
  return (appID, sid)

theorem enableFirewall_restricting {p : Platform} {session session' : WfpSession} {luid : UInt64}
    {servers : List Addr} (h : enableFirewall p session luid false servers = .ok session') :
    ∃ appID sid, p.service = .ok (appID, sid) ∧
      session' = some (restrictingFilters appID sid luid servers) := by
  unfold enableFirewall at h
  split at h
  · cases h
  obtain ⟨-, -, h⟩ := bind_eq_ok h
  obtain ⟨-, -, h⟩ := bind_eq_ok h
  obtain ⟨fs, hfs, h⟩ := bind_eq_ok h
  obtain ⟨-, -, h⟩ := bind_eq_ok h
  cases h
  unfold objectInstaller at hfs
  obtain ⟨-, -, hfs⟩ := bind_eq_ok hfs
  obtain ⟨appID, happ, hfs⟩ := bind_eq_ok hfs
  obtain ⟨sid, hsid, hfs⟩ := bind_eq_ok hfs
  obtain ⟨fs₁, h₁, hfs⟩ := bind_eq_ok hfs
  rw [if_neg (by decide)] at hfs
  obtain ⟨dns, hdns, hfs⟩ := bind_eq_ok hfs
  obtain ⟨fs₂, h₂, hfs⟩ := bind_eq_ok hfs
  obtain ⟨fs₃, h₃, hfs⟩ := bind_eq_ok hfs
  obtain ⟨fs₄, h₄, hfs⟩ := bind_eq_ok hfs
  obtain ⟨fs₅, h₅, hfs⟩ := bind_eq_ok hfs
  obtain ⟨fs₆, h₆, hfs⟩ := bind_eq_ok hfs
  obtain ⟨fs₇, h₇, hfs⟩ := bind_eq_ok hfs
  refine ⟨appID, sid, ?_, ?_⟩
  · simp only [Platform.service, happ, hsid]
    rfl
  · rw [install_ok hfs, install_ok h₇, install_ok h₆, install_ok h₅, install_ok h₄, install_ok h₃,
      install_ok h₂, install_ok h₁, blockDNS_filters hdns]
    rfl

namespace Connection

def belongsTo (conn : Connection) (appID sid : Str) : Prop :=
  conn.appID = appID ∧ sid ∈ conn.sids

def isDNS (conn : Connection) : Prop :=
  (conn.protocol = ipprotoUDP ∨ conn.protocol = ipprotoTCP) ∧ conn.remotePort = 53

def isTo (conn : Connection) (server : Addr) : Prop :=
  match conn.ends, server with
  | .v4 _ remote, .v4 a => remote = a
  | .v6 _ remote, .v6 a _ => remote = a
  | _, _ => False

def isLoopback (conn : Connection) : Prop := conn.flags &&& 1 = 1

def isDHCPv4 (conn : Connection) : Prop :=
  conn.protocol = ipprotoUDP ∧ conn.localPort = 68 ∧ conn.remotePort = 67 ∧
    ∃ src dst, conn.ends = .v4 src dst ∧ (conn.direction = .connect → dst = 0xffffffff)

def inLinkLocal (a : BitVec 128) : Prop := inPrefix a 0xfe800000000000000000000000000000 10

/-- A request from a link-local address to one of the two multicast groups, or an answer between
link-local addresses. -/
def isDHCPv6 (conn : Connection) : Prop :=
  conn.protocol = ipprotoUDP ∧ conn.localPort = 546 ∧ conn.remotePort = 547 ∧
    ∃ src dst, conn.ends = .v6 src dst ∧ inLinkLocal src ∧
      match conn.direction with
      | .connect =>
        dst = 0xff020000000000000000000000010002 ∨ dst = 0xff050000000000000000000000010003
      | .accept => inLinkLocal dst

def isNdp (conn : Connection) : Prop :=
  conn.protocol = ipprotoICMPV6 ∧ conn.icmpCode = 0 ∧ ∃ src dst, conn.ends = .v6 src dst ∧
    match conn.direction with
    | .connect => conn.icmpType = 133 ∧ dst = 0xff020000000000000000000000000002 ∨
        conn.icmpType = 135 ∨ conn.icmpType = 136
    | .accept => (conn.icmpType = 134 ∨ conn.icmpType = 137) ∧ inLinkLocal dst ∨
        conn.icmpType = 135 ∨ conn.icmpType = 136

/-- What the kill switch is for. -/
def isAllowed (conn : Connection) (appID sid : Str) (luid : UInt64) (servers : List Addr) : Prop :=
  conn.belongsTo appID sid ∨
    (conn.isDNS ∧ ∃ server ∈ servers, conn.isTo server) ∨
    (¬ (servers ≠ [] ∧ conn.isDNS) ∧
      (conn.isLoopback ∨ conn.interface = luid ∨ conn.isDHCPv4 ∨ conn.isDHCPv6 ∨ conn.isNdp))

theorem layer_mem_layers (conn : Connection) : conn.layer ∈ layers := by
  unfold layer
  split <;> decide

theorem layer_mem_layersV4 (conn : Connection) :
    conn.layer ∈ layersV4 ↔ ∃ src dst, conn.ends = .v4 src dst := by
  unfold layer
  split <;> simp_all [layersV4]

theorem layer_mem_layersV6 (conn : Connection) :
    conn.layer ∈ layersV6 ↔ ∃ src dst, conn.ends = .v6 src dst := by
  unfold layer
  split <;> simp_all [layersV6]

end Connection

section Rules
variable {conn : Connection}

theorem matched_onLayers (ls : List LayerKey) (w : UInt8) (cs : List FilterCondition) (a : Action) :
    Matched Filter.Matches (onLayers ls w cs a) conn ↔
      conn.layer ∈ ls ∧ AllFields FilterCondition.fieldKey (FilterCondition.holds conn ·) cs := by
  simp only [Matched, onLayers, List.mem_map, Filter.Matches]
  constructor
  · rintro ⟨_, ⟨l, hl, rfl⟩, hlayer, hcs⟩
    exact ⟨hlayer ▸ hl, hcs⟩
  · rintro ⟨hl, hcs⟩
    exact ⟨_, ⟨conn.layer, hl, rfl⟩, rfl, hcs⟩

theorem matches_iff {layer : LayerKey} {w : UInt8} {cs : List FilterCondition} {a : Action}
    (h : (cs.map FilterCondition.fieldKey).Nodup) :
    Filter.Matches ⟨layer, w, cs, a⟩ conn ↔ layer = conn.layer ∧ ∀ c ∈ cs, c.holds conn := by
  rw [Filter.Matches, allFields_of_nodup h]

theorem holds_protocol (p : UInt8) :
    (matchEqual .ipProtocol (.uint8 p)).holds conn ↔ conn.protocol = p :=
  decide_eq_true_iff

theorem holds_localPort (h : ¬ conn.isICMP) (n : UInt16) :
    (matchEqual .ipLocalPort (.uint16 n)).holds conn ↔ conn.localPort = n := by
  simp [matchEqual, FilterCondition.holds, Connection.value, FieldValue.matchEqual, h]

theorem holds_remotePort (h : ¬ conn.isICMP) (n : UInt16) :
    (matchEqual .ipRemotePort (.uint16 n)).holds conn ↔ conn.remotePort = n := by
  simp [matchEqual, FilterCondition.holds, Connection.value, FieldValue.matchEqual, h]

theorem holds_icmpType (h : conn.isICMP) (n : UInt16) :
    (matchEqual .icmpType (.uint16 n)).holds conn ↔ conn.icmpType = n := by
  simp [matchEqual, FilterCondition.holds, Connection.value, FieldValue.matchEqual, h]

theorem holds_icmpCode (h : conn.isICMP) (n : UInt16) :
    (matchEqual .icmpCode (.uint16 n)).holds conn ↔ conn.icmpCode = n := by
  simp [matchEqual, FilterCondition.holds, Connection.value, FieldValue.matchEqual, h]

theorem holds_remoteAddress (v : ConditionValue) :
    (matchEqual .ipRemoteAddress v).holds conn ↔ conn.remoteAddress.matchEqual v := Iff.rfl

theorem holds_localAddress (v : ConditionValue) :
    (matchEqual .ipLocalAddress v).holds conn ↔ conn.localAddress.matchEqual v := Iff.rfl

theorem Connection.not_isICMP (h : conn.protocol = ipprotoUDP ∨ conn.protocol = ipprotoTCP) :
    ¬ conn.isICMP := by
  rw [Connection.isICMP]
  rcases h with h | h <;> rw [h] <;> decide

theorem matched_permitWireGuardService (w : UInt8) (appID sid : Str) :
    Matched Filter.Matches (permitWireGuardService w appID sid) conn ↔
    conn.belongsTo appID sid := by
  rw [permitWireGuardService, matched_onLayers, allFields_of_nodup (by simp [matchEqual])]
  simp [conn.layer_mem_layers, matchEqual, FilterCondition.holds, Connection.value,
    FieldValue.matchEqual, Connection.belongsTo]

theorem matched_permitLoopback (w : UInt8) :
    Matched Filter.Matches (permitLoopback w) conn ↔ conn.isLoopback := by
  rw [permitLoopback, matched_onLayers, allFields_of_nodup (by simp)]
  simp [conn.layer_mem_layers, FilterCondition.holds, Connection.value,
    FieldValue.matchFlagsAllSet, Connection.isLoopback, conditionFlagIsLoopback]

theorem matched_permitTunInterface (w : UInt8) (luid : UInt64) :
    Matched Filter.Matches (permitTunInterface w luid) conn ↔ conn.interface = luid := by
  rw [permitTunInterface, matched_onLayers, allFields_of_nodup (by simp)]
  simp [conn.layer_mem_layers, matchEqual, FilterCondition.holds, Connection.value,
    FieldValue.matchEqual]

theorem matched_blockAll (w : UInt8) : Matched Filter.Matches (blockAll w) conn := by
  rw [blockAll, matched_onLayers]
  exact ⟨conn.layer_mem_layers, by simp [AllFields]⟩

theorem matched_permitDHCPIPv4 (w : UInt8) :
    Matched Filter.Matches (permitDHCPIPv4 w) conn ↔ conn.isDHCPv4 := by
  rw [permitDHCPIPv4, matched_cons, matched_cons, matches_iff (by simp [matchEqual]),
    matches_iff (by simp [matchEqual])]
  simp only [List.forall_mem_cons, holds_protocol, holds_remoteAddress]
  by_cases hp : conn.protocol = ipprotoUDP
  · have hi := Connection.not_isICMP (Or.inl hp)
    simp only [hp, holds_localPort hi, holds_remotePort hi, Connection.isDHCPv4, Connection.layer,
      Connection.remoteAddress]
    cases conn.ends <;> cases conn.direction <;> simp [FieldValue.matchEqual]
  · simp [Connection.isDHCPv4, hp]

/-- The request names the multicast groups by two conditions on one field. -/
theorem allFields_dhcpv6Request :
    AllFields FilterCondition.fieldKey (FilterCondition.holds conn ·)
      [matchEqual .ipProtocol (.uint8 ipprotoUDP),
        matchEqual .ipRemoteAddress linkLocalDHCPMulticast,
          matchEqual .ipRemoteAddress siteLocalDHCPMulticast, matchEqual .ipRemotePort
            (.uint16 547),
        matchEqual .ipLocalAddress linkLocal, matchEqual .ipLocalPort (.uint16 546)] ↔
      (matchEqual .ipProtocol (.uint8 ipprotoUDP)).holds conn ∧
        ((matchEqual .ipRemoteAddress linkLocalDHCPMulticast).holds conn ∨
          (matchEqual .ipRemoteAddress siteLocalDHCPMulticast).holds conn) ∧
        (matchEqual .ipRemotePort (.uint16 547)).holds conn ∧
        (matchEqual .ipLocalAddress linkLocal).holds conn ∧
        (matchEqual .ipLocalPort (.uint16 546)).holds conn := by
  change AllFields _ _ ([_] ++ ([_, _] ++ [_, _, _])) ↔ _
  rw [allFields_append (by simp [matchEqual]), allFields_append (by simp [matchEqual]),
    allFields_of_nodup (by simp), allFields_of_same (k := .ipRemoteAddress) (by simp [matchEqual])
      (by simp), allFields_of_nodup (by simp [matchEqual])]
  simp

theorem matched_permitDHCPIPv6 (w : UInt8) :
    Matched Filter.Matches (permitDHCPIPv6 w) conn ↔ conn.isDHCPv6 := by
  rw [permitDHCPIPv6, matched_cons, matched_cons, Filter.Matches, allFields_dhcpv6Request,
    matches_iff (by simp [matchEqual])]
  simp only [List.forall_mem_cons, holds_protocol, holds_remoteAddress, holds_localAddress]
  by_cases hp : conn.protocol = ipprotoUDP
  · have hi := Connection.not_isICMP (Or.inl hp)
    simp only [hp, holds_localPort hi, holds_remotePort hi, Connection.isDHCPv6, Connection.layer,
      Connection.remoteAddress, Connection.localAddress, linkLocal, linkLocalDHCPMulticast,
      siteLocalDHCPMulticast]
    cases conn.ends <;> cases conn.direction <;>
      simp [FieldValue.matchEqual, Connection.inLinkLocal, and_assoc, and_comm, and_left_comm]
  · simp [Connection.isDHCPv6, hp]

theorem matched_permitNdp (w : UInt8) :
    Matched Filter.Matches (permitNdp w) conn ↔ conn.isNdp := by
  simp only [permitNdp, List.map_cons, List.map_nil, matched_cons, icmpv6Conditions,
    List.cons_append, List.nil_append]
  repeat rw [matches_iff (by simp [matchEqual])]
  simp only [List.forall_mem_cons, holds_protocol, holds_remoteAddress]
  by_cases hp : conn.protocol = ipprotoICMPV6
  · have hi : conn.isICMP := Or.inr hp
    simp only [hp, holds_icmpType hi, holds_icmpCode hi, Connection.isNdp, Connection.layer,
      Connection.remoteAddress, linkLocal, linkLocalRouterMulticast]
    cases conn.ends <;> cases conn.direction <;>
      simp [FieldValue.matchEqual, Connection.inLinkLocal]
    all_goals grind
  · simp [Connection.isNdp, hp]

theorem allFields_denyConditions :
    AllFields FilterCondition.fieldKey (FilterCondition.holds conn ·) denyConditions ↔
    conn.isDNS := by
  change AllFields _ _ ([_] ++ [_, _]) ↔ _
  rw [allFields_append (by simp [matchEqual]), allFields_of_nodup (by simp),
    allFields_of_same (k := .ipProtocol) (by simp [matchEqual]) (by simp)]
  simp only [List.forall_mem_singleton, List.exists_mem_cons_iff, holds_protocol, Connection.isDNS]
  by_cases hp : conn.protocol = ipprotoUDP ∨ conn.protocol = ipprotoTCP
  · rw [holds_remotePort (Connection.not_isICMP hp)]
    simp [hp]
  · simp [not_or.mp hp]

theorem matched_allowServers (ls : List LayerKey) {servers : List FilterCondition} (w : UInt8)
    (h : ∀ c ∈ servers, c.fieldKey = .ipRemoteAddress) :
    Matched Filter.Matches (allowServers ls servers w) conn ↔
      conn.layer ∈ ls ∧ conn.isDNS ∧ ∃ c ∈ servers, c.holds conn := by
  by_cases hne : servers = []
  · simp [allowServers, hne]
  · have hlen : denyConditions.length < (denyConditions ++ servers).length := by
      rw [List.length_append]
      have := List.length_pos_iff.mpr hne
      omega
    have hdisj : ∀ c ∈ denyConditions, ∀ d ∈ servers, c.fieldKey ≠ d.fieldKey := by
      intro c hc d hd
      rw [h d hd]
      revert c
      decide
    rw [allowServers, if_pos hlen, matched_onLayers, allFields_append hdisj,
      allFields_denyConditions, allFields_of_same h hne]

theorem exists_server_holds {server : Addr → Option FilterCondition} {servers : List Addr}
    (h : ∀ a, (∃ c, server a = some c ∧ c.holds conn) ↔ conn.isTo a) :
    (∃ c ∈ servers.filterMap server, c.holds conn) ↔ ∃ a ∈ servers, conn.isTo a := by
  simp only [List.mem_filterMap, ← h]
  grind

theorem matched_allowFilters (servers : List Addr) :
    Matched Filter.Matches (allowFilters servers) conn ↔
      conn.isDNS ∧ ∃ a ∈ servers, conn.isTo a := by
  have h4 : ∀ c ∈ servers.filterMap serverV4, c.fieldKey = .ipRemoteAddress := by
    intro c hc
    obtain ⟨a, -, ha⟩ := List.mem_filterMap.mp hc
    cases a <;> cases ha
    rfl
  have h6 : ∀ c ∈ servers.filterMap serverV6, c.fieldKey = .ipRemoteAddress := by
    intro c hc
    obtain ⟨a, -, ha⟩ := List.mem_filterMap.mp hc
    cases a <;> cases ha
    rfl
  rw [allowFilters, matched_append, matched_allowServers _ _ h4, matched_allowServers _ _ h6,
    Connection.layer_mem_layersV4, Connection.layer_mem_layersV6]
  cases he : conn.ends with
  | v4 src dst =>
    have hto : ∀ a, (∃ c, serverV4 a = some c ∧ c.holds conn) ↔ conn.isTo a := by
      intro a
      cases a <;> simp [serverV4, Connection.isTo, he, holds_remoteAddress,
        Connection.remoteAddress, FieldValue.matchEqual]
    rw [exists_server_holds hto]
    simp
  | v6 src dst =>
    have hto : ∀ a, (∃ c, serverV6 a = some c ∧ c.holds conn) ↔ conn.isTo a := by
      intro a
      cases a <;> simp [serverV6, Connection.isTo, he, holds_remoteAddress,
        Connection.remoteAddress, FieldValue.matchEqual]
    rw [exists_server_holds hto]
    simp

end Rules

theorem onLayers_uniform {ls : List LayerKey} {w : UInt8} {cs : List FilterCondition} {a : Action} :
    ∀ f ∈ onLayers ls w cs a, f.weight.toNat = w.toNat ∧ f.action = a := by
  intro f hf
  obtain ⟨l, -, rfl⟩ := List.mem_map.mp hf
  exact ⟨rfl, rfl⟩

theorem allowServers_uniform {ls : List LayerKey} {servers : List FilterCondition} {w : UInt8} :
    ∀ f ∈ allowServers ls servers w, f.weight.toNat = w.toNat ∧ f.action = .permit := by
  dsimp only [allowServers]
  split_ifs
  · exact onLayers_uniform
  · simp

abbrev FilterBand := Band (fun f : Filter => f.weight.toNat) Filter.action

def bandService (appID sid : Str) (servers : List Addr) : FilterBand where
  weightOf := 15
  actionOf := .permit
  filters := permitWireGuardService 15 appID sid ++ allowFilters servers
  uniform := by
    simp only [List.forall_mem_append, allowFilters]
    exact ⟨onLayers_uniform, allowServers_uniform, allowServers_uniform⟩

def bandDNS (servers : List Addr) : FilterBand where
  weightOf := 14
  actionOf := .block
  filters := denyFilters servers
  uniform := by
    unfold denyFilters
    split_ifs
    · exact onLayers_uniform
    · simp

def bandLoopback : FilterBand where
  weightOf := 13
  actionOf := .permit
  filters := permitLoopback 13
  uniform := onLayers_uniform

def bandTunnel (luid : UInt64) : FilterBand where
  weightOf := 12
  actionOf := .permit
  filters := permitTunInterface 12 luid ++ permitDHCPIPv4 12 ++ permitDHCPIPv6 12 ++ permitNdp 12
  uniform := by
    simp only [List.forall_mem_append]
    refine ⟨⟨⟨onLayers_uniform, ?_⟩, ?_⟩, ?_⟩
    · simp [permitDHCPIPv4]
    · simp [permitDHCPIPv6]
    · simp [permitNdp]

def bandBlockAll : FilterBand where
  weightOf := 0
  actionOf := .block
  filters := blockAll 0
  uniform := onLayers_uniform

def bands (appID sid : Str) (luid : UInt64) (servers : List Addr) : List FilterBand :=
  [bandService appID sid servers, bandDNS servers, bandLoopback, bandTunnel luid, bandBlockAll]

theorem mem_restrictingFilters (appID sid : Str) (luid : UInt64) (servers : List Addr)
    (f : Filter) :
    f ∈ restrictingFilters appID sid luid servers ↔
      f ∈ (bands appID sid luid servers).flatMap Band.filters := by
  simp only [restrictingFilters, bands, List.flatMap_cons, List.flatMap_nil, List.mem_append,
    bandService, bandDNS, bandLoopback, bandTunnel, bandBlockAll, List.not_mem_nil]
  tauto

/-- The weights make the filters an ordered rule list, and every filter of a band has the same
action, so the choice among filters of one weight is without effect. -/
theorem decision_iff_firstMatch (appID sid : Str) (luid : UInt64) (servers : List Addr)
    (conn : Connection) (a : Action) :
    Decision (restrictingFilters appID sid luid servers) conn a ↔
      FirstMatch Filter.Matches (bands appID sid luid servers) conn a := by
  rw [Decision, verdict_congr (mem_restrictingFilters appID sid luid servers), verdict_bands]
  simp [bands, bandService, bandDNS, bandLoopback, bandTunnel, bandBlockAll]

theorem matched_denyFilters (servers : List Addr) (conn : Connection) :
    Matched Filter.Matches (denyFilters servers) conn ↔ servers ≠ [] ∧ conn.isDNS := by
  unfold denyFilters
  split_ifs with h
  · rw [matched_onLayers, allFields_denyConditions]
    simp [conn.layer_mem_layers, List.length_pos_iff.mp h]
  · have hnil : servers = [] := by simpa using h
    simp [hnil]

theorem firstMatch_bands (appID sid : Str) (luid : UInt64) (servers : List Addr)
    (conn : Connection) (a : Action) :
    FirstMatch Filter.Matches (bands appID sid luid servers) conn a ↔
      (conn.isAllowed appID sid luid servers ∧ .permit = a ∨
        ¬ conn.isAllowed appID sid luid servers ∧ .block = a) := by
  have hservice : Matched Filter.Matches (bandService appID sid servers).filters conn ↔
      conn.belongsTo appID sid ∨ (conn.isDNS ∧ ∃ server ∈ servers, conn.isTo server) := by
    rw [bandService, matched_append, matched_permitWireGuardService, matched_allowFilters]
  have htunnel : Matched Filter.Matches (bandTunnel luid).filters conn ↔
      conn.interface = luid ∨ conn.isDHCPv4 ∨ conn.isDHCPv6 ∨ conn.isNdp := by
    rw [bandTunnel, matched_append, matched_append, matched_append, matched_permitTunInterface,
      matched_permitDHCPIPv4, matched_permitDHCPIPv6, matched_permitNdp, or_assoc, or_assoc]
  have hdns := matched_denyFilters servers conn
  have hloop : Matched Filter.Matches bandLoopback.filters conn ↔ conn.isLoopback :=
    matched_permitLoopback 13
  have hall : Matched Filter.Matches bandBlockAll.filters conn ↔ True :=
    iff_true_intro (matched_blockAll 0)
  simp only [bands, FirstMatch]
  rw [hservice, htunnel, hloop, hall, show Matched Filter.Matches (bandDNS servers).filters conn ↔ _
    from hdns, Connection.isAllowed, ← or_assoc (a := conn.belongsTo appID sid)]
  -- Only which band matches first is left.
  generalize (conn.belongsTo appID sid ∨ _) = s
  generalize (servers ≠ [] ∧ conn.isDNS) = d
  generalize (conn.interface = luid ∨ _) = t
  simp only [bandService, bandDNS, bandLoopback, bandTunnel, bandBlockAll]
  by_cases hs : s
  · simp [hs]
  · by_cases hd : d
    · simp [hs, hd]
    · by_cases hl : conn.isLoopback
      · simp [hs, hd, hl]
      · simp [hs, hd, hl]

/-- The kill switch is exact: what an enabled, restricting firewall permits is what it is for, and
everything else is blocked. With servers listed, DNS to any other address is blocked wherever it
goes. -/
theorem killSwitch_exact {p : Platform} {session : WfpSession} {fs : List Filter} {luid : UInt64}
    {servers : List Addr} (h : enableFirewall p session luid false servers = .ok (some fs)) :
    ∃ appID sid, p.service = .ok (appID, sid) ∧ ∀ conn : Connection,
      (Decision fs conn .permit ↔ conn.isAllowed appID sid luid servers) ∧
      (Decision fs conn .block ↔ ¬ conn.isAllowed appID sid luid servers) ∧
      (servers ≠ [] → conn.isDNS → (¬ ∃ server ∈ servers, conn.isTo server) →
        ¬ conn.belongsTo appID sid → Decision fs conn .block) := by
  obtain ⟨appID, sid, hservice, hfs⟩ := enableFirewall_restricting h
  cases hfs
  refine ⟨appID, sid, hservice, fun conn => ?_⟩
  have hpermit : Decision (restrictingFilters appID sid luid servers) conn .permit ↔
      conn.isAllowed appID sid luid servers := by
    rw [decision_iff_firstMatch, firstMatch_bands]
    simp
  have hblock : Decision (restrictingFilters appID sid luid servers) conn .block ↔
      ¬ conn.isAllowed appID sid luid servers := by
    rw [decision_iff_firstMatch, firstMatch_bands]
    simp
  refine ⟨hpermit, hblock, fun hne hdns hto hnot => hblock.mpr ?_⟩
  rw [Connection.isAllowed, not_or, not_or]
  exact ⟨hnot, fun hlisted => hto hlisted.2, fun hfree => hfree.1 ⟨hne, hdns⟩⟩

def samplePlatform : Platform where
  appID := .ok (str "wireguard.exe")
  tokenGroups := .ok [⟨7, true, 5, [32, 544], str "admins"⟩,
    ⟨serviceGroupAttributes, true, 5, [80, 1, 2, 3, 4, 5], str "service"⟩]
  securityDescriptorError := none
  sessionError := none
  baseObjectsError := none
  addError _ _ := none
  commitError _ := none

def sampleQuery (server : BitVec 32) : Connection where
  direction := .connect
  ends := .v4 0x0a000002 server
  protocol := ipprotoUDP
  localPort := 50000
  remotePort := 53
  icmpType := 0
  icmpCode := 0
  interface := 7
  flags := 0
  appID := str "svchost.exe"
  sids := []

theorem killSwitch_exact_sampleQuery :
    ∃ fs, enableFirewall samplePlatform none 7 false [.v4 0x0a000001] = .ok (some fs) ∧
      Decision fs (sampleQuery 0x0a000001) .permit ∧
      Decision fs (sampleQuery 0x08080808) .block := by
  refine ⟨_, rfl, ?_⟩
  obtain ⟨appID, sid, hservice, hx⟩ :=
    @killSwitch_exact samplePlatform none _ 7 [.v4 0x0a000001] rfl
  cases hservice
  constructor
  · refine (hx _).1.mpr (Or.inr (Or.inl ⟨⟨Or.inl rfl, rfl⟩, .v4 0x0a000001, ?_, rfl⟩))
    exact List.mem_singleton_self _
  · refine (hx _).2.2 (by decide) ⟨Or.inl rfl, rfl⟩ ?_ ?_
    · simp [sampleQuery, Connection.isTo]
    · simp [sampleQuery, Connection.belongsTo]

inductive Call
  | enable (p : Platform) (luid : UInt64) (doNotRestrict : Bool) (servers : List Addr)
  | disable

def Call.apply (session : WfpSession) : Call → WfpSession
  | .enable p luid doNotRestrict servers =>
    match enableFirewall p session luid doNotRestrict servers with
    | .ok session' => session'
    | .error _ => session
  | .disable => disableFirewall session

theorem enableFirewall_some (p : Platform) (fs : List Filter) (luid : UInt64) (d : Bool)
    (servers : List Addr) :
    enableFirewall p (some fs) luid d servers =
      .error (.message "The firewall has already been enabled") := rfl

/-- After any calls, the filters in force are those of one call that was made with no firewall
enabled; calls made after it did not add to them. -/
theorem session_run (calls : List Call) {fs : List Filter}
    (h : calls.foldl Call.apply none = some fs) :
    ∃ p luid d servers, Call.enable p luid d servers ∈ calls ∧
      enableFirewall p none luid d servers = .ok (some fs) := by
  induction calls using List.reverseRecOn with
  | nil => cases h
  | append_singleton calls call ih =>
    rw [List.foldl_append, List.foldl_cons, List.foldl_nil] at h
    cases hs : calls.foldl Call.apply none with
    | some fs' =>
      cases call with
      | disable => simp [Call.apply, disableFirewall] at h
      | enable p luid d servers =>
        rw [hs, Call.apply, enableFirewall_some] at h
        obtain ⟨p', luid', d', servers', hmem, hen⟩ := ih (hs.trans h)
        exact ⟨p', luid', d', servers', List.mem_append_left _ hmem, hen⟩
    | none =>
      cases call with
      | disable => simp [Call.apply, disableFirewall] at h
      | enable p luid d servers =>
        rw [hs, Call.apply] at h
        cases hen : enableFirewall p none luid d servers with
        | error e => simp [hen] at h
        | ok session =>
          rw [hen] at h
          cases h
          exact ⟨p, luid, d, servers, by simp, hen⟩

end WireGuardWindows.Firewall
