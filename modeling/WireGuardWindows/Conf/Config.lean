import WireGuardWindows.Conf.Name
import WireGuardWindows.GoStd.Base64
import WireGuardWindows.GoStd.NetipText

/-!
# Configurations

The keys of a section are enumerations, so the map `Lines` from lower-cased keys to
comments is a function that gives an absent key the zero value, as Go's map access
does. `wsTLSFiles` lists a Go map in the order in which a loop visits it.
-/

namespace WireGuardWindows.Conf
open GoStd Strings Strconv Netip

def keyLength : Nat := 32

structure Key where
  bytes : List UInt8
  length_eq : bytes.length = keyLength
  deriving DecidableEq

namespace Key

def zero : Key := ⟨List.replicate keyLength 0, List.length_replicate⟩

def isZero (k : Key) : Bool := k == zero

def string (k : Key) : Str := Base64.encodeToString k.bytes

end Key

structure Endpoint where
  host : Str
  port : UInt16
  deriving DecidableEq

namespace Endpoint

def string (e : Endpoint) : Str :=
  if colon ∈ e.host then (0x5B :: e.host) ++ 0x5D :: colon :: itoa e.port.toNat
  else e.host ++ colon :: itoa e.port.toNat

def isEmpty (e : Endpoint) : Bool := e.host.isEmpty

end Endpoint

inductive WSMode
  | none
  | webSocket
  | wsTunnel
  deriving DecidableEq

def WSMode.string : WSMode → Str
  | .none => []
  | .webSocket => str "websocket"
  | .wsTunnel => str "wstunnel"

structure Comments where
  before : List Str := []
  suffix : Str := []
  deriving DecidableEq

namespace Comments

def isEmpty (c : Comments) : Bool := c.before.isEmpty && c.suffix.isEmpty

end Comments

structure SectionComments (K : Type) where
  header : Comments := {}
  lines : K → Comments := fun _ => {}

instance {K : Type} [Fintype K] [DecidableEq K] : DecidableEq (SectionComments K) := fun a b =>
  decidable_of_iff (a.header = b.header ∧ a.lines = b.lines) (by
    cases a; cases b; simp)

inductive InterfaceKey
  | privateKey | listenPort | address | dns | mtu | preUp | postUp | preDown | postDown | table
  deriving DecidableEq

/-- The keys in the order in which `ToWgQuick` writes them. -/
def InterfaceKey.all : List InterfaceKey :=
  [.privateKey, .listenPort, .address, .dns, .mtu, .preUp, .postUp, .preDown, .postDown, .table]

theorem InterfaceKey.mem_all (k : InterfaceKey) : k ∈ InterfaceKey.all := by
  cases k <;> decide

instance : Fintype InterfaceKey := Fintype.ofList InterfaceKey.all InterfaceKey.mem_all

inductive PeerKey
  | publicKey | presharedKey | allowedIPs | endpoint | persistentKeepalive | wsMode
  | wsTunnelTarget | wsMask | wsTLSCA | wsTLSCert | wsTLSKey | wsTLSInsecure
  | wsPingInterval | wsBackoffMin | wsBackoffMax | wsBearer
  deriving DecidableEq

def PeerKey.all : List PeerKey :=
  [.publicKey, .presharedKey, .allowedIPs, .endpoint, .persistentKeepalive, .wsMode,
    .wsTunnelTarget, .wsMask, .wsTLSCA, .wsTLSCert, .wsTLSKey, .wsTLSInsecure,
    .wsPingInterval, .wsBackoffMin, .wsBackoffMax, .wsBearer]

theorem PeerKey.mem_all (k : PeerKey) : k ∈ PeerKey.all := by
  cases k <;> decide

instance : Fintype PeerKey := Fintype.ofList PeerKey.all PeerKey.mem_all

structure Interface where
  privateKey : Key := Key.zero
  addresses : List Prefix := []
  listenPort : UInt16 := 0
  mtu : UInt16 := 0
  dns : List Addr := []
  dnsSearch : List Str := []
  preUp : Str := []
  postUp : Str := []
  preDown : Str := []
  postDown : Str := []
  tableOff : Bool := false
  comments : SectionComments InterfaceKey := {}
  deriving DecidableEq

structure Peer where
  publicKey : Key := Key.zero
  presharedKey : Key := Key.zero
  allowedIPs : List Prefix := []
  endpoint : Endpoint := ⟨[], 0⟩
  persistentKeepalive : UInt16 := 0
  wsMode : WSMode := .none
  wsURL : Str := []
  wsTunnelTarget : Str := []
  wsBearer : Str := []
  wsMask : Bool := false
  wsTLSCA : Str := []
  wsTLSCert : Str := []
  wsTLSKey : Str := []
  wsTLSInsecure : Bool := false
  wsPingInterval : UInt32 := 0
  wsBackoffMin : UInt32 := 0
  wsBackoffMax : UInt32 := 0
  rxBytes : UInt64 := 0
  txBytes : UInt64 := 0
  lastHandshakeTime : Int := 0
  comments : SectionComments PeerKey := {}
  deriving DecidableEq

structure Config where
  name : Str
  interface : Interface := {}
  peers : List Peer := []
  wsTLSFiles : List (Str × List UInt8) := []
  trailingComments : List Str := []
  deriving DecidableEq

namespace Config

def hasWebSocketPeers (conf : Config) : Bool := conf.peers.any (·.wsMode != .none)

end Config

end WireGuardWindows.Conf
