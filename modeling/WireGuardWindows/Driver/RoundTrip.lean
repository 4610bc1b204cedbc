import WireGuardWindows.Driver.Layout
import WireGuardWindows.GoStd.Loops
import WireGuardWindows.GoStd.NetipText

/-!
# Configurations in the layout of the driver

`Config.ToDriverConfiguration` appends an interface record, and for every peer a peer record
followed by its allowed networks, to one buffer. `FromDriverConfiguration` walks that buffer
with pointer arithmetic over the counts stored in it. A record that is not inside the buffer
as a whole ends the walk without a result.
-/

namespace WireGuardWindows.Driver

open GoStd GoStd.Netip GoStd.Memory Conf

def allowedIPOf (a : Prefix) : AllowedIP where
  address := ⟨(asSlice a.ip ++ List.replicate 16 0).take 16, by simp⟩
  addressFamily := if a.ip.is4 then afInet else if a.ip.is6 then afInet6 else 0
  cidr := (a.bits % 256).toNat.toUInt8

def sockaddrOf (e : Endpoint) : Option RawSockaddrInet :=
  if e.isEmpty then none
  else (parseAddr e.host).map fun addr => RawSockaddrInet.empty.setAddrPort addr e.port

def peerFlags (presharedKey endpoint : Bool) : UInt32 :=
  peerHasPublicKey ||| peerHasPersistentKeepalive |||
    (if presharedKey then peerHasPresharedKey else 0) ||| (if endpoint then peerHasEndpoint else 0)

def peerOf (p : Conf.Peer) : Peer where
  flags := peerFlags (!p.presharedKey.isZero) (sockaddrOf p.endpoint).isSome
  publicKey := p.publicKey
  presharedKey := p.presharedKey
  persistentKeepalive := p.persistentKeepalive
  endpoint := (sockaddrOf p.endpoint).getD .empty
  allowedIPsCount := p.allowedIPs.length.toUInt32

def interfaceOf (config : Config) : Interface where
  flags := interfaceHasPrivateKey ||| interfaceHasListenPort
  listenPort := config.interface.listenPort
  privateKey := config.interface.privateKey
  peerCount := config.peers.length.toUInt32

def allowedIPsBytes (as : List Prefix) : List UInt8 :=
  as.flatMap fun a => AllowedIP.layout.bytes (allowedIPOf a)

def peersBytes (peers : List Conf.Peer) : List UInt8 :=
  peers.flatMap fun p => Peer.layout.bytes (peerOf p) ++ allowedIPsBytes p.allowedIPs

def driverBuffer (config : Config) : List UInt8 :=
  Interface.layout.bytes (interfaceOf config) ++ peersBytes config.peers

def preallocation (config : Config) : Nat :=
  config.peers.foldl (fun n p => n + p.allowedIPs.length * AllowedIP.layout.size)
    (Interface.layout.size + config.peers.length * Peer.layout.size)

def toDriverConfiguration (config : Config) : List UInt8 × UInt32 :=
  (driverBuffer config, (driverBuffer config).length.toUInt32)

def firstPeer (interfaze : Nat) : Nat := interfaze + Interface.layout.size

def nextPeer (addr : Nat) (peer : Peer) : Nat :=
  addr + Peer.layout.size + peer.allowedIPsCount.toNat * AllowedIP.layout.size

def firstAllowedIP (peer : Nat) : Nat := peer + Peer.layout.size

def nextAllowedIP (allowedIP : Nat) : Nat := allowedIP + AllowedIP.layout.size

structure Visit where
  addr : Nat
  peer : Peer
  allowedIPs : List (Nat × AllowedIP)

def walkAllowedIPs (buffer : List UInt8) : Nat → Nat → Option (List (Nat × AllowedIP))
  | 0, _ => some []
  | n + 1, addr => do
    let a ← AllowedIP.layout.readAt buffer addr
    let rest ← walkAllowedIPs buffer n (nextAllowedIP addr)
    return (addr, a) :: rest

def walkPeers (buffer : List UInt8) : Nat → Nat → Option (List Visit)
  | 0, _ => some []
  | n + 1, addr => do
    let peer ← Peer.layout.readAt buffer addr
    let allowedIPs ← walkAllowedIPs buffer peer.allowedIPsCount.toNat (firstAllowedIP addr)
    let rest ← walkPeers buffer n (nextPeer addr peer)
    return ⟨addr, peer, allowedIPs⟩ :: rest

def walk (buffer : List UInt8) : Option (Interface × List Visit) := do
  let interfaze ← Interface.layout.readAt buffer 0
  let visits ← walkPeers buffer interfaze.peerCount.toNat (firstPeer 0)
  return (interfaze, visits)

def prefixOf (a : AllowedIP) : Prefix :=
  let ip :=
    if a.addressFamily = afInet then addrFrom4 (a.address.1.take 4)
    else if a.addressFamily = afInet6 then addrFrom16 a.address.1
    else .zero
  prefixFrom ip a.cidr.toNat

/-- Windows file time to nanoseconds since the epoch, in the arithmetic of `uint64`. -/
def handshakeTime (lastHandshake : UInt64) : Int :=
  if lastHandshake = 0 then 0 else ((lastHandshake - 116444736000000000) * 100).toInt64.toInt

def confPeerOf (v : Visit) : Conf.Peer where
  publicKey := if v.peer.flags &&& peerHasPublicKey ≠ 0 then v.peer.publicKey else Key.zero
  presharedKey := if v.peer.flags &&& peerHasPresharedKey ≠ 0 then v.peer.presharedKey else Key.zero
  endpoint :=
    if v.peer.flags &&& peerHasEndpoint ≠ 0 then ⟨v.peer.endpoint.addr.string, v.peer.endpoint.port⟩
    else ⟨[], 0⟩
  persistentKeepalive :=
    if v.peer.flags &&& peerHasPersistentKeepalive ≠ 0 then v.peer.persistentKeepalive else 0
  txBytes := v.peer.txBytes
  rxBytes := v.peer.rxBytes
  lastHandshakeTime := handshakeTime v.peer.lastHandshake
  allowedIPs := v.allowedIPs.map fun a => prefixOf a.2

/-- The configuration made of the records; what the driver does not know is taken from the
existing one. -/
def configOf (existingConfig : Config) (interfaze : Interface) (visits : List Visit) : Config where
  name := existingConfig.name
  interface := {
    addresses := existingConfig.interface.addresses
    dns := existingConfig.interface.dns
    dnsSearch := existingConfig.interface.dnsSearch
    mtu := existingConfig.interface.mtu
    preUp := existingConfig.interface.preUp
    postUp := existingConfig.interface.postUp
    preDown := existingConfig.interface.preDown
    postDown := existingConfig.interface.postDown
    tableOff := existingConfig.interface.tableOff
    privateKey :=
      if interfaze.flags &&& interfaceHasPrivateKey ≠ 0 then interfaze.privateKey else Key.zero
    listenPort :=
      if interfaze.flags &&& interfaceHasListenPort ≠ 0 then interfaze.listenPort else 0 }
  peers := visits.map confPeerOf

def fromDriverConfiguration (buffer : List UInt8) (existingConfig : Config) : Option Config :=
  (walk buffer).map fun (interfaze, visits) => configOf existingConfig interfaze visits

theorem allowedIPsBytes_length (as : List Prefix) :
    (allowedIPsBytes as).length = as.length * AllowedIP.layout.size := by
  simp [allowedIPsBytes, List.length_flatMap]

theorem peersBytes_length (peers : List Conf.Peer) :
    (peersBytes peers).length = (peers.map fun p =>
      Peer.layout.size + p.allowedIPs.length * AllowedIP.layout.size).sum := by
  simp [peersBytes, List.length_flatMap, allowedIPsBytes_length]

theorem preallocation_eq (config : Config) :
    preallocation config = (driverBuffer config).length := by
  have hfold : ∀ (peers : List Conf.Peer) (n : Nat),
      peers.foldl (fun n p => n + p.allowedIPs.length * AllowedIP.layout.size) n =
        n + (peers.map fun p => p.allowedIPs.length * AllowedIP.layout.size).sum := by
    intro peers
    induction peers with
    | nil => simp
    | cons p peers ih =>
      intro n
      rw [List.foldl_cons, ih, List.map_cons, List.sum_cons, Nat.add_assoc]
  rw [preallocation, hfold, driverBuffer, List.length_append, Layout.bytes_length,
    peersBytes_length, List.sum_map_add]
  simp [Nat.add_assoc]

theorem walkAllowedIPs_append (before after : List UInt8) (as : List Prefix) {addr : Nat}
    (haddr : addr = before.length) :
    ∃ visits, walkAllowedIPs (before ++ (allowedIPsBytes as ++ after)) as.length addr =
      some visits ∧
      visits.map (·.2) = as.map allowedIPOf := by
  induction as generalizing before addr with
  | nil => exact ⟨[], rfl, rfl⟩
  | cons a as ih =>
    have hread :=
      AllowedIP.layout.readAt_append before (allowedIPsBytes as ++ after) (allowedIPOf a)
      haddr
    have hbuffer : before ++ (allowedIPsBytes (a :: as) ++ after) =
        before ++ (AllowedIP.layout.bytes (allowedIPOf a) ++ (allowedIPsBytes as ++ after)) := by
      simp [allowedIPsBytes]
    have hassoc : before ++
      (AllowedIP.layout.bytes (allowedIPOf a) ++ (allowedIPsBytes as ++ after)) =
        (before ++ AllowedIP.layout.bytes (allowedIPOf a)) ++ (allowedIPsBytes as ++ after) := by
      simp
    have hnext : nextAllowedIP addr =
        (before ++ AllowedIP.layout.bytes (allowedIPOf a)).length := by
      simp [nextAllowedIP, haddr]
    obtain ⟨visits, hvisits, hmap⟩ := ih _ hnext
    refine ⟨(addr, allowedIPOf a) :: visits, ?_, by simp [hmap]⟩
    rw [hbuffer, List.length_cons, walkAllowedIPs, hread, hassoc, hvisits]
    rfl

theorem toNat_toUInt32_of_lt {n : Nat} (h : n < 2 ^ 32) : n.toUInt32.toNat = n := by
  simp only [Nat.toUInt32, UInt32.toNat_ofNat']
  exact Nat.mod_eq_of_lt h

theorem walkPeers_append (before : List UInt8) (peers : List Conf.Peer) {addr : Nat}
    (haddr : addr = before.length) (hcount : ∀ p ∈ peers, p.allowedIPs.length < 2 ^ 32) :
    ∃ visits, walkPeers (before ++ peersBytes peers) peers.length addr = some visits ∧
      visits.map (fun v => (v.peer, v.allowedIPs.map (·.2))) =
        peers.map fun p => (peerOf p, p.allowedIPs.map allowedIPOf) := by
  induction peers generalizing before addr with
  | nil => exact ⟨[], rfl, rfl⟩
  | cons p peers ih =>
    have hcountp : (peerOf p).allowedIPsCount.toNat = p.allowedIPs.length :=
      toNat_toUInt32_of_lt (hcount p List.mem_cons_self)
    have hbuffer : before ++ peersBytes (p :: peers) =
        before ++ (Peer.layout.bytes (peerOf p) ++
          (allowedIPsBytes p.allowedIPs ++ peersBytes peers)) := by
      simp [peersBytes]
    have hread := Peer.layout.readAt_append before
      (allowedIPsBytes p.allowedIPs ++ peersBytes peers) (peerOf p) haddr
    have hfirst : firstAllowedIP addr = (before ++ Peer.layout.bytes (peerOf p)).length := by
      simp [firstAllowedIP, haddr]
    obtain ⟨ips, hips, hipsMap⟩ := walkAllowedIPs_append _ (peersBytes peers) p.allowedIPs hfirst
    have hnext : nextPeer addr (peerOf p) =
        (before ++ (Peer.layout.bytes (peerOf p) ++ allowedIPsBytes p.allowedIPs)).length := by
      simp [nextPeer, haddr, hcountp, allowedIPsBytes_length, Nat.add_assoc]
    obtain ⟨visits, hvisits, hmap⟩ := ih _ hnext fun q hq => hcount q (List.mem_cons_of_mem p hq)
    refine ⟨⟨addr, peerOf p, ips⟩ :: visits, ?_, by simp [hmap, hipsMap]⟩
    rw [List.append_assoc] at hips
    rw [List.append_assoc, List.append_assoc] at hvisits
    rw [hbuffer, List.length_cons, walkPeers, hread]
    change (walkAllowedIPs _ (peerOf p).allowedIPsCount.toNat _).bind _ = _
    rw [hcountp, hips]
    change (walkPeers _ _ _).bind _ = _
    rw [hvisits]
    rfl

def Visit.Within (size : Nat) (v : Visit) : Prop :=
  v.addr + Peer.layout.size ≤ size ∧ ∀ a ∈ v.allowedIPs, a.1 + AllowedIP.layout.size ≤ size

theorem walkAllowedIPs_within {buffer : List UInt8} {n addr : Nat} {visits : List (Nat × AllowedIP)}
    (h : walkAllowedIPs buffer n addr = some visits) :
    ∀ a ∈ visits, a.1 + AllowedIP.layout.size ≤ buffer.length := by
  induction n generalizing addr visits with
  | zero =>
    cases h
    exact fun _ ha => absurd ha List.not_mem_nil
  | succ n ih =>
    obtain ⟨a, ha, h⟩ := Option.bind_eq_some_iff.mp h
    obtain ⟨rest, hrest, h⟩ := Option.bind_eq_some_iff.mp h
    cases h
    exact List.forall_mem_cons.mpr ⟨AllowedIP.layout.le_of_readAt ha, ih hrest⟩

theorem walkPeers_within {buffer : List UInt8} {n addr : Nat} {visits : List Visit}
    (h : walkPeers buffer n addr = some visits) : ∀ v ∈ visits, v.Within buffer.length := by
  induction n generalizing addr visits with
  | zero =>
    cases h
    exact fun _ hv => absurd hv List.not_mem_nil
  | succ n ih =>
    obtain ⟨peer, hpeer, h⟩ := Option.bind_eq_some_iff.mp h
    obtain ⟨ips, hips, h⟩ := Option.bind_eq_some_iff.mp h
    obtain ⟨rest, hrest, h⟩ := Option.bind_eq_some_iff.mp h
    cases h
    exact List.forall_mem_cons.mpr
      ⟨⟨Peer.layout.le_of_readAt hpeer, walkAllowedIPs_within hips⟩, ih hrest⟩

theorem prefixFrom_bits {a : Prefix} (h : a.Parsed) : prefixFrom a.ip a.bits = a := by
  obtain ⟨hne, hzone, hpos, hle⟩ := h
  obtain ⟨ip, n⟩ := a
  simp only at hne hzone hpos hle
  have hrange : ip ≠ .zero ∧ (0 : Int) ≤ n - 1 ∧ ((n : Int) - 1) ≤ ip.bitLen := by
    refine ⟨hne, ?_, ?_⟩ <;> omega
  change prefixFrom ip ((n : Int) - 1) = _
  rw [prefixFrom, if_pos hrange, hzone]
  congr
  omega

theorem address_allowedIPOf {a : Prefix} (h : a.Parsed) :
    (if (allowedIPOf a).addressFamily = afInet then
        addrFrom4 ((allowedIPOf a).address.1.take 4)
      else if (allowedIPOf a).addressFamily = afInet6 then addrFrom16 (allowedIPOf a).address.1
      else .zero) = a.ip := by
  obtain ⟨hne, hzone, -, -⟩ := h
  cases hip : a.ip with
  | zero => exact absurd hip hne
  | v4 ip =>
    have hlen : (asSlice (.v4 ip)).length = 4 := beBytes_length _ _
    have haddress : (allowedIPOf a).address.1.take 4 = asSlice (.v4 ip) := by
      simp only [allowedIPOf, hip, List.take_take]
      exact List.take_left' hlen
    rw [if_pos (by simp [allowedIPOf, hip, Addr.is4]), haddress, addrFrom4_asSlice]
  | v6 ip zone =>
    have hlen : (asSlice (.v6 ip zone)).length = 16 := beBytes_length _ _
    have haddress : (allowedIPOf a).address.1 = asSlice (.v6 ip zone) := by
      simp only [allowedIPOf, hip]
      exact List.take_left' hlen
    have hfamily : (allowedIPOf a).addressFamily = afInet6 := by
      simp [allowedIPOf, hip, Addr.is4, Addr.is6]
    rw [hip] at hzone
    rw [hfamily, if_neg (by decide), if_pos rfl, haddress, addrFrom16_asSlice]
    exact hzone

theorem prefixOf_allowedIPOf {a : Prefix} (h : a.Parsed) : prefixOf (allowedIPOf a) = a := by
  have hcidr : ((allowedIPOf a).cidr.toNat : Int) = a.bits := by
    have hbits : a.ip.bitLen ≤ 128 := by cases a.ip <;> simp [Addr.bitLen]
    obtain ⟨-, -, hpos, hle⟩ := h
    have hrange : 0 ≤ a.bits ∧ a.bits < 256 := by
      simp only [Prefix.bits]
      omega
    simp only [allowedIPOf, Nat.toUInt8, UInt8.toNat_ofNat']
    omega
  rw [prefixOf, address_allowedIPOf h, hcidr]
  exact prefixFrom_bits h

theorem peerFlags_spec (presharedKey endpoint : Bool) :
    peerFlags presharedKey endpoint &&& peerHasPublicKey ≠ 0 ∧
    peerFlags presharedKey endpoint &&& peerHasPersistentKeepalive ≠ 0 ∧
    (peerFlags presharedKey endpoint &&& peerHasPresharedKey ≠ 0 ↔ presharedKey = true) ∧
    (peerFlags presharedKey endpoint &&& peerHasEndpoint ≠ 0 ↔ endpoint = true) := by
  cases presharedKey <;> cases endpoint <;> decide

/-- An endpoint the driver can hold: none, or a zoneless address in its canonical spelling. -/
def HeldEndpoint (e : Endpoint) : Prop :=
  e = ⟨[], 0⟩ ∨ ∃ ip : Addr, ip ≠ .zero ∧ ip.withoutZone = ip ∧ e.host = ip.string

theorem endpoint_sockaddrOf {e : Endpoint} (h : HeldEndpoint e) :
    (if (sockaddrOf e).isSome = true then
        ⟨((sockaddrOf e).getD .empty).addr.string, ((sockaddrOf e).getD .empty).port⟩
      else ⟨[], 0⟩ : Endpoint) = e := by
  rcases h with rfl | ⟨ip, hne, hzone, hhost⟩
  · rfl
  · have hsome : sockaddrOf e = some (RawSockaddrInet.empty.setAddrPort ip e.port) := by
      have hfull : e.isEmpty = false := by
        simp [Endpoint.isEmpty, hhost, string_ne_nil hne]
      simp [sockaddrOf, hfull, hhost, parseAddr_string hne]
    obtain ⟨haddr, hport⟩ := addr_setAddrPort .empty hne hzone e.port
    rw [hsome]
    simp only [Option.isSome_some, if_true, Option.getD_some, haddr, hport, ← hhost]

def keptOf (p : Conf.Peer) : Key × Key × UInt16 × Endpoint × List Prefix :=
  (p.publicKey, p.presharedKey, p.persistentKeepalive, p.endpoint, p.allowedIPs)

theorem keptOf_confPeerOf {p : Conf.Peer} (hendpoint : HeldEndpoint p.endpoint)
    (hips : ∀ a ∈ p.allowedIPs, a.Parsed) {v : Visit} (hpeer : v.peer = peerOf p)
    (hvips : v.allowedIPs.map (·.2) = p.allowedIPs.map allowedIPOf) :
    keptOf (confPeerOf v) = keptOf p := by
  obtain ⟨hpublic, hkeepalive, hpsk, hend⟩ :=
    peerFlags_spec (!p.presharedKey.isZero) (sockaddrOf p.endpoint).isSome
  have hpublicKey : (confPeerOf v).publicKey = p.publicKey := by
    simp only [confPeerOf, hpeer]
    exact if_pos hpublic
  have hkeep : (confPeerOf v).persistentKeepalive = p.persistentKeepalive := by
    simp only [confPeerOf, hpeer]
    exact if_pos hkeepalive
  have hpresharedKey : (confPeerOf v).presharedKey = p.presharedKey := by
    simp only [confPeerOf, hpeer]
    change (if peerFlags _ _ &&& peerHasPresharedKey ≠ 0 then p.presharedKey else Key.zero) = _
    rw [if_congr hpsk rfl rfl]
    split_ifs with hset
    · rfl
    · -- an absent key is the zero key
      have hzero : p.presharedKey.isZero = true := by simpa using hset
      exact (eq_of_beq hzero).symm
  have hends : (confPeerOf v).endpoint = p.endpoint := by
    simp only [confPeerOf, hpeer]
    refine (if_congr hend rfl rfl).trans ?_
    exact endpoint_sockaddrOf hendpoint
  have hallowed : (confPeerOf v).allowedIPs = p.allowedIPs := by
    change v.allowedIPs.map (prefixOf ∘ (·.2)) = _
    rw [← List.map_map, hvips, List.map_map]
    exact (List.map_congr_left fun a ha => prefixOf_allowedIPOf (hips a ha)).trans (List.map_id _)
  simp only [keptOf, hpublicKey, hpresharedKey, hkeep, hends, hallowed]

theorem count_lt_of_size {config : Config} (hsize : (driverBuffer config).length < 2 ^ 32) :
    config.peers.length < 2 ^ 32 ∧ ∀ p ∈ config.peers, p.allowedIPs.length < 2 ^ 32 := by
  have hpeers : (peersBytes config.peers).length < 2 ^ 32 := by
    rw [driverBuffer, List.length_append] at hsize
    omega
  have hpeerSize : Peer.layout.size = 136 := rfl
  have hipSize : AllowedIP.layout.size = 24 := rfl
  rw [peersBytes_length, hpeerSize, hipSize] at hpeers
  constructor
  · have hle : (config.peers.map fun _ => 1).sum ≤
        (config.peers.map fun p => 136 + p.allowedIPs.length * 24).sum :=
      List.sum_le_sum fun p _ => by omega
    simp only [List.map_const', List.sum_replicate, smul_eq_mul, mul_one] at hle
    omega
  · intro p hp
    have hle := List.single_le_sum (fun _ _ => Nat.zero_le _) _
      (List.mem_map_of_mem (f := fun p : Conf.Peer => 136 + p.allowedIPs.length * 24) hp)
    omega

/-- A configuration written in the layout of the driver and read back keeps its private
key, its port and, peer by peer and in order, the keys, the keepalive interval, the
endpoint and the allowed networks. Every record that is visited lies inside the returned
size, and that is the size that was preallocated. -/
theorem driver_roundTrip (config : Config)
    (hsize : (driverBuffer config).length < 2 ^ 32)
    (hendpoint : ∀ p ∈ config.peers, HeldEndpoint p.endpoint)
    (hips : ∀ p ∈ config.peers, ∀ a ∈ p.allowedIPs, a.Parsed) :
    ∃ interfaze visits read, walk (toDriverConfiguration config).1 = some (interfaze, visits) ∧
      fromDriverConfiguration (toDriverConfiguration config).1 config = some read ∧
      read.interface.privateKey = config.interface.privateKey ∧
      read.interface.listenPort = config.interface.listenPort ∧
      read.peers.map keptOf = config.peers.map keptOf ∧
      Interface.layout.size ≤ (toDriverConfiguration config).2.toNat ∧
      (∀ v ∈ visits, v.Within (toDriverConfiguration config).2.toNat) ∧
      (toDriverConfiguration config).2.toNat = preallocation config := by
  obtain ⟨hpeerCount, hipCount⟩ := count_lt_of_size hsize
  have hlen : (toDriverConfiguration config).2.toNat = (driverBuffer config).length :=
    toNat_toUInt32_of_lt hsize
  have hfirst : firstPeer 0 = (Interface.layout.bytes (interfaceOf config)).length := by
    simp [firstPeer]
  obtain ⟨visits, hvisits, hmap⟩ := walkPeers_append _ config.peers hfirst hipCount
  have hinterface : Interface.layout.readAt (driverBuffer config) 0 = some (interfaceOf config) :=
    Interface.layout.readAt_append [] (peersBytes config.peers) (interfaceOf config) rfl
  have hwalk : walk (driverBuffer config) = some (interfaceOf config, visits) := by
    have hcount : (interfaceOf config).peerCount.toNat = config.peers.length :=
      toNat_toUInt32_of_lt hpeerCount
    rw [walk, hinterface]
    change (walkPeers _ (interfaceOf config).peerCount.toNat _).bind _ = _
    rw [hcount, driverBuffer, hvisits]
    rfl
  have hflags : (interfaceHasPrivateKey ||| interfaceHasListenPort) &&& interfaceHasPrivateKey ≠ 0 ∧
      (interfaceHasPrivateKey ||| interfaceHasListenPort) &&& interfaceHasListenPort ≠ 0 := by
    decide
  refine ⟨interfaceOf config, visits, configOf config (interfaceOf config) visits, hwalk, ?_,
    if_pos hflags.1, if_pos hflags.2, ?_, ?_, ?_, ?_⟩
  · change (walk (driverBuffer config)).map _ = _
    rw [hwalk]
    rfl
  · change (visits.map confPeerOf).map keptOf = _
    rw [List.map_map]
    rw [Loops.map_eq_map_iff_forall₂]
    refine Loops.forall₂_of_map_eq hmap fun v _ p hp hv => ?_
    obtain ⟨hpeer, hvips⟩ := Prod.mk.inj hv
    exact keptOf_confPeerOf (hendpoint p hp) (hips p hp) hpeer hvips
  · rw [hlen]
    simpa using Interface.layout.le_of_readAt hinterface
  · rw [hlen]
    exact walkPeers_within hvisits
  · rw [hlen, preallocation_eq]

def portWithoutHost : Config :=
  { name := str "office", peers := [{ endpoint := ⟨[], 51820⟩ }] }

/-- Such a port is not written, so it is not read back either. -/
theorem driver_roundTrip_portWithoutHost :
    (driverBuffer portWithoutHost).length < 2 ^ 32 ∧
      (∀ p ∈ portWithoutHost.peers, p.endpoint.host = [] ∧ p.allowedIPs = []) ∧
      (fromDriverConfiguration (toDriverConfiguration portWithoutHost).1 portWithoutHost).map
        (fun read => read.peers.map (·.endpoint)) ≠ some
          (portWithoutHost.peers.map (·.endpoint)) := by
  refine ⟨by decide +kernel, by decide, by decide +kernel⟩

def addressedPeer : Config where
  name := str "office"
  interface := { listenPort := 51820 }
  peers := [{
    endpoint := ⟨Addr.string (.v4 0xC0000201#32), 51820⟩
    persistentKeepalive := 25
    allowedIPs := [⟨.v4 0x0A000000#32, 9⟩, ⟨.v6 0#128 [], 1⟩] }]

theorem driver_roundTrip_addressedPeer :
    ∃ read, fromDriverConfiguration (toDriverConfiguration addressedPeer).1 addressedPeer =
      some read ∧
      read.peers.map keptOf = addressedPeer.peers.map keptOf := by
  have hendpoint : ∀ p ∈ addressedPeer.peers, HeldEndpoint p.endpoint := by
    intro p hp
    rw [List.mem_singleton.mp hp]
    exact .inr ⟨.v4 0xC0000201#32, by decide, rfl, rfl⟩
  have hips : ∀ p ∈ addressedPeer.peers, ∀ a ∈ p.allowedIPs, a.Parsed := by
    unfold Prefix.Parsed
    decide
  obtain ⟨-, -, read, -, hread, -, -, hpeers, -⟩ :=
    driver_roundTrip addressedPeer (by decide +kernel) hendpoint hips
  exact ⟨read, hread, hpeers⟩

end WireGuardWindows.Driver
