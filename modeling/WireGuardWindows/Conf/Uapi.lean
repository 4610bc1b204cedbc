import WireGuardWindows.Conf.Values
import WireGuardWindows.Driver.Layout
import WireGuardWindows.GoStd.Fields
import WireGuardWindows.GoStd.Hex

/-!
# The text protocol of the userspace backend

`ToUAPI` writes a configuration as lines `key=value` for `wireguard-go`, and `FromUAPI`
reads the device's report of its running state. A peer starts with its `public_key` line in
both directions. `resolveEndpoints` is what the tunnel service does to a configuration
before it is written, and `redact` what the manager does before an unprivileged session
gets to see it.
-/

namespace WireGuardWindows.Conf
open GoStd Strings Strconv Netip Memory

/-- The loop of `resolveHostnameOnce` over the addresses of the look-up: the first IPv4
address, or else the first IPv6 address. -/
def resolveLoop : List Driver.RawSockaddrInet → Addr → Option Str
  | [], v6 => if v6 = .zero then none else some v6.string
  | raw :: rest, v6 =>
    if raw.family ≠ Driver.afInet ∧ raw.family ≠ Driver.afInet6 then resolveLoop rest v6
    else if raw.addr.is4 then some raw.addr.string
    else if v6 = .zero ∧ raw.addr.is6 then resolveLoop rest raw.addr
    else resolveLoop rest v6

def resolveHostname (lookup : Str → List Driver.RawSockaddrInet) (name : Str) : Option Str :=
  resolveLoop (lookup name) .zero

def Config.resolveEndpoints (lookup : Str → List Driver.RawSockaddrInet) (config : Config) :
    Option Config := do
  let peers ← config.peers.mapM fun p =>
    if p.endpoint.isEmpty then some p
    else (resolveHostname lookup p.endpoint.host).map fun host =>
      { p with endpoint := { p.endpoint with host := host } }
  return { config with peers := peers }

def hexKey (k : Key) : Str := Hex.encodeToString k.bytes

def Peer.wsFields (p : Peer) : List (Str × Str) :=
  (if p.wsURL ≠ [] then [(str "ws_url", p.wsURL)] else []) ++
  (if p.wsTunnelTarget ≠ [] then [(str "wstunnel_target", p.wsTunnelTarget)] else []) ++
  (if p.wsBearer ≠ [] then [(str "ws_bearer", p.wsBearer)] else []) ++
  (if p.wsMask then [(str "ws_mask", str "true")] else []) ++
  (if p.wsTLSCA ≠ [] then [(str "ws_tls_ca", p.wsTLSCA)] else []) ++
  (if p.wsTLSCert ≠ [] then [(str "ws_tls_cert", p.wsTLSCert)] else []) ++
  (if p.wsTLSKey ≠ [] then [(str "ws_tls_key", p.wsTLSKey)] else []) ++
  (if p.wsTLSInsecure then [(str "ws_tls_insecure", str "true")] else []) ++
  (if 0 < p.wsPingInterval then [(str "ws_ping_interval", itoa p.wsPingInterval.toNat)] else []) ++
  (if 0 < p.wsBackoffMin then [(str "ws_backoff_min", itoa p.wsBackoffMin.toNat)] else []) ++
  (if 0 < p.wsBackoffMax then [(str "ws_backoff_max", itoa p.wsBackoffMax.toNat)] else [])

def Peer.settings (p : Peer) : List (Str × Str) :=
  [(str "transport", if p.wsMode ≠ .none then p.wsMode.string else str "udp")] ++
  (if !p.presharedKey.isZero then [(str "preshared_key", hexKey p.presharedKey)] else []) ++
  (if !p.endpoint.isEmpty then [(str "endpoint", p.endpoint.string)] else []) ++
  (if p.wsMode ≠ .none then p.wsFields else []) ++
  [(str "persistent_keepalive_interval", itoa p.persistentKeepalive.toNat),
    (str "replace_allowed_ips", str "true")] ++
  p.allowedIPs.map fun address => (str "allowed_ip", address.string)

def Peer.uapiFields (p : Peer) : List (Str × Str) :=
  (str "public_key", hexKey p.publicKey) :: p.settings

def Interface.uapiFields (i : Interface) : List (Str × Str) :=
  [(str "private_key", hexKey i.privateKey)] ++
  (if 0 < i.listenPort then [(str "listen_port", itoa i.listenPort.toNat)] else []) ++
  [(str "replace_peers", str "true")]

def Config.uapiFields (conf : Config) : List (Str × Str) :=
  conf.interface.uapiFields ++ conf.peers.flatMap Peer.uapiFields

def Config.toUAPI (conf : Config) : Str := Fields.text conf.uapiFields

inductive UAPIError
  | eof
  | err (e : Error)
  deriving DecidableEq

def parseKeyHex (s : Str) : Except Error Key :=
  match Hex.decodeString s with
  | .error (.invalidByte b) =>
    .error (.parseError ("Invalid key: encoding/hex: invalid byte: " ++ Hex.quotedRune b) s)
  | .error .oddLength => .error (.parseError "Invalid key: encoding/hex: odd length hex string" s)
  | .ok k =>
    if h : k.length = keyLength then .ok ⟨k, h⟩
    else .error (.parseError "Keys must decode to exactly 32 bytes" s)

def parseBytesOrStamp (s : Str) : Except Error Nat :=
  match parseUint s 64 with
  | .error err =>
    .error (.parseNumError "Number must be a number between 0 and 2^64-1: " "ParseUint" s err)
  | .ok b => .ok b

def wrap64 (n : Int) : Int := n.bmod (2 ^ 64)

def ignoredInterfaceKeys : List Str :=
  ["fwmark", "ws_listen", "ws_server_tls_cert", "ws_server_tls_key", "ws_server_bearer",
    "ws_trusted_proxies"].map str

def ignoredPeerKeys : List Str :=
  ["transport", "ws_url", "wstunnel_target", "ws_bearer", "ws_mask", "ws_tls_ca", "ws_tls_cert",
    "ws_tls_key", "ws_tls_insecure", "ws_ping_interval", "ws_backoff_min", "ws_backoff_max"].map str

def Interface.setUAPI (i : Interface) (field : Str × Str) : Except Error Interface :=
  let (key, val) := field
  if key = str "private_key" then return { i with privateKey := ← parseKeyHex val }
  else if key = str "listen_port" then return { i with listenPort := ← parsePort val }
  else if key ∈ ignoredInterfaceKeys then return i
  else throw (.parseError "Invalid key for interface section" key)

def Peer.setUAPI (p : Peer) (field : Str × Str) : Except Error Peer :=
  let (key, val) := field
  if key = str "public_key" then return { p with publicKey := ← parseKeyHex val }
  else if key = str "preshared_key" then return { p with presharedKey := ← parseKeyHex val }
  else if key = str "protocol_version" then
    if val ≠ str "1" then throw (.parseError "Protocol version must be 1" val) else return p
  else if key = str "allowed_ip"
    then return { p with allowedIPs := p.allowedIPs ++ [← parseIPCidr val] }
  else if key = str "persistent_keepalive_interval" then
    return { p with persistentKeepalive := ← parsePersistentKeepalive val }
  else if key = str "endpoint" then return { p with endpoint := ← parseEndpoint val }
  else if key = str "tx_bytes" then return { p with txBytes := (← parseBytesOrStamp val).toUInt64 }
  else if key = str "rx_bytes" then return { p with rxBytes := (← parseBytesOrStamp val).toUInt64 }
  else if key = str "last_handshake_time_sec" then do
    let t ← parseBytesOrStamp val
    return { p with
      lastHandshakeTime := wrap64 (p.lastHandshakeTime + wrap64 (wrap64 t * 1000000000)) }
  else if key = str "last_handshake_time_nsec" then do
    let t ← parseBytesOrStamp val
    return { p with lastHandshakeTime := wrap64 (p.lastHandshakeTime + wrap64 t) }
  else if key ∈ ignoredPeerKeys then return p
  else throw (.parseError "Invalid key for peer section" key)

def Peer.withWSOf (peer existing : Peer) : Peer :=
  { peer with
    wsMode := existing.wsMode
    wsURL := existing.wsURL
    wsTunnelTarget := existing.wsTunnelTarget
    wsBearer := existing.wsBearer
    wsMask := existing.wsMask
    wsTLSCA := existing.wsTLSCA
    wsTLSCert := existing.wsTLSCert
    wsTLSKey := existing.wsTLSKey
    wsTLSInsecure := existing.wsTLSInsecure
    wsPingInterval := existing.wsPingInterval
    wsBackoffMin := existing.wsBackoffMin
    wsBackoffMax := existing.wsBackoffMax }

def mergeStored (stored : List Peer) (peer : Peer) : Peer :=
  match stored.find? (·.publicKey = peer.publicKey) with
  | some existing => peer.withWSOf existing
  | none => peer

/-- The state of the loop in `FromUAPI`: `peers` holds the peers that were added, `peer`
the one being read. The parser is in a peer section exactly when there is one. -/
structure UAPIState where
  interface : Interface
  peers : List Peer := []
  peer : Option Peer := none

def UAPIState.addPeer (stored : List Peer) (st : UAPIState) : List Peer :=
  st.peers ++ (st.peer.map (mergeStored stored)).toList

def UAPIState.step (stored : List Peer) (st : UAPIState) (line : Str) : Except Error UAPIState :=
  match cut line equals with
  | (_, _, false) => throw (.parseError "Config key is missing an equals separator" line)
  | (key, val, true) =>
    if key = str "errno" then
      if val ≠ str "0" then throw (.parseError "Error in getting configuration" val) else return st
    else
      let st := if key = str "public_key" then
          { st with peers := st.addPeer stored, peer := some {} } else st
      match st.peer with
      | none => return { st with interface := ← st.interface.setUAPI (key, val) }
      | some peer => return { st with peer := some (← peer.setUAPI (key, val)) }

/-- The loop reads up to an empty line; a report that ends before one is cut off. -/
def uapiLoop (stored : List Peer) : UAPIState → List Str → Except UAPIError UAPIState
  | _, [] => .error .eof
  | _, [_] => .error .eof
  | st, line :: rest =>
    if line.isEmpty then .ok st
    else match st.step stored line with
      | .error e => .error (.err e)
      | .ok st => uapiLoop stored st rest

/-- The position of a key in the stored configuration, or the number of stored peers. -/
def positionOf (stored : List Peer) (key : Key) : Nat :=
  stored.zipIdx.foldl (fun position (p, i) => if p.publicKey = key then i else position)
    stored.length

def sortPeers (stored peers : List Peer) : List Peer :=
  peers.mergeSort fun a b => positionOf stored a.publicKey ≤ positionOf stored b.publicKey

def fromUAPI (report : Str) (existingConfig : Config) : Except UAPIError Config := do
  let interface : Interface :=
    { addresses := existingConfig.interface.addresses
      dns := existingConfig.interface.dns
      dnsSearch := existingConfig.interface.dnsSearch
      mtu := existingConfig.interface.mtu
      preUp := existingConfig.interface.preUp
      postUp := existingConfig.interface.postUp
      preDown := existingConfig.interface.preDown
      postDown := existingConfig.interface.postDown
      tableOff := existingConfig.interface.tableOff }
  let st ← uapiLoop existingConfig.peers { interface } (report.splitOn newline)
  return {
    name := existingConfig.name
    interface := st.interface
    peers := sortPeers existingConfig.peers (st.addPeer existingConfig.peers) }

def positionKey (i : Nat) : Key := ⟨leBytes 8 i ++ List.replicate 24 0, by simp [keyLength]⟩

def Peer.redactAt (i : Nat) (p : Peer) : Peer :=
  { p with publicKey := positionKey i, presharedKey := Key.zero, wsBearer := [], comments := {} }

def Config.redact (conf : Config) : Config :=
  { conf with
    interface := { conf.interface with
      privateKey := Key.zero, comments := {}
      preUp := [], postUp := [], preDown := [], postDown := [] }
    peers := conf.peers.mapIdx Peer.redactAt
    trailingComments := []
    wsTLSFiles := [] }

end WireGuardWindows.Conf
