import WireGuardWindows.Filtering.Sublayer
import WireGuardWindows.GoStd.Netip

/-!
# The filters of the firewall

The rules of `rules.go` as the lists of filters they add, in order. Provider and sublayer
keys, display texts and filter flags have no part in the arbitration inside the sublayer and
are left out. A condition whose value has another type than the field it reads does not hold.
-/

namespace WireGuardWindows.Firewall
open GoStd Netip Filtering

inductive LayerKey
  | aleAuthConnectV4
  | aleAuthRecvAcceptV4
  | aleAuthConnectV6
  | aleAuthRecvAcceptV6
  deriving DecidableEq, Repr

inductive FieldKey
  | ipLocalInterface
  | aleAppID
  | aleUserID
  | flags
  | ipProtocol
  | ipLocalPort
  | ipRemotePort
  | ipRemoteAddress
  | ipLocalAddress
  deriving DecidableEq, Repr

-- The platform reads the ICMP type and code through the keys of the two ports.
abbrev FieldKey.icmpType : FieldKey := .ipLocalPort
abbrev FieldKey.icmpCode : FieldKey := .ipRemotePort

inductive MatchType
  | equal
  | flagsAllSet
  deriving DecidableEq, Repr

/-- The value of a condition; a security descriptor is given by the one SID it grants access. -/
inductive ConditionValue
  | uint8 (v : UInt8)
  | uint16 (v : UInt16)
  | uint32 (v : BitVec 32)
  | uint64 (v : UInt64)
  | byteArray16 (v : BitVec 128)
  | v6AddrMask (addr : BitVec 128) (prefixLength : Nat)
  | byteBlob (v : Str)
  | securityDescriptor (sid : Str)
  deriving DecidableEq, Repr

/-- The value of a field of a connection attempt; a user is given by the SIDs of the token. -/
inductive FieldValue
  | uint8 (v : UInt8)
  | uint16 (v : UInt16)
  | uint32 (v : BitVec 32)
  | uint64 (v : UInt64)
  | byteArray16 (v : BitVec 128)
  | byteBlob (v : Str)
  | token (sids : List Str)

structure FilterCondition where
  fieldKey : FieldKey
  matchType : MatchType
  conditionValue : ConditionValue
  deriving DecidableEq, Repr

structure Filter where
  layerKey : LayerKey
  weight : UInt8
  filterCondition : List FilterCondition
  action : Action
  deriving DecidableEq, Repr

def ipprotoICMP : UInt8 := 1
def ipprotoICMPV6 : UInt8 := 58
def ipprotoTCP : UInt8 := 6
def ipprotoUDP : UInt8 := 17
def conditionFlagIsLoopback : BitVec 32 := 1

inductive Direction
  | connect
  | accept
  deriving DecidableEq, Repr

inductive Ends
  | v4 (localAddr remoteAddr : BitVec 32)
  | v6 (localAddr remoteAddr : BitVec 128)
  deriving DecidableEq, Repr

structure Connection where
  direction : Direction
  ends : Ends
  protocol : UInt8
  localPort : UInt16
  remotePort : UInt16
  icmpType : UInt16
  icmpCode : UInt16
  interface : UInt64
  flags : BitVec 32
  appID : Str
  sids : List Str
  deriving DecidableEq, Repr

namespace Connection

def layer (conn : Connection) : LayerKey :=
  match conn.direction, conn.ends with
  | .connect, .v4 _ _ => .aleAuthConnectV4
  | .accept, .v4 _ _ => .aleAuthRecvAcceptV4
  | .connect, .v6 _ _ => .aleAuthConnectV6
  | .accept, .v6 _ _ => .aleAuthRecvAcceptV6

def isICMP (conn : Connection) : Prop :=
  conn.protocol = ipprotoICMP ∨ conn.protocol = ipprotoICMPV6

instance (conn : Connection) : Decidable conn.isICMP :=
  inferInstanceAs (Decidable (_ ∨ _))

def localAddress (conn : Connection) : FieldValue :=
  match conn.ends with
  | .v4 a _ => .uint32 a
  | .v6 a _ => .byteArray16 a

def remoteAddress (conn : Connection) : FieldValue :=
  match conn.ends with
  | .v4 _ a => .uint32 a
  | .v6 _ a => .byteArray16 a

def value (conn : Connection) : FieldKey → FieldValue
  | .ipLocalInterface => .uint64 conn.interface
  | .aleAppID => .byteBlob conn.appID
  | .aleUserID => .token conn.sids
  | .flags => .uint32 conn.flags
  | .ipProtocol => .uint8 conn.protocol
  | .ipLocalPort => .uint16 (if conn.isICMP then conn.icmpType else conn.localPort)
  | .ipRemotePort => .uint16 (if conn.isICMP then conn.icmpCode else conn.remotePort)
  | .ipRemoteAddress => conn.remoteAddress
  | .ipLocalAddress => conn.localAddress

end Connection

def inPrefix (a addr : BitVec 128) (prefixLength : Nat) : Prop :=
  a >>> (128 - prefixLength) = addr >>> (128 - prefixLength)

instance (a addr : BitVec 128) (n : Nat) : Decidable (inPrefix a addr n) :=
  inferInstanceAs (Decidable (_ = _))

def FieldValue.matchEqual : FieldValue → ConditionValue → Bool
  | .uint8 a, .uint8 b => a = b
  | .uint16 a, .uint16 b => a = b
  | .uint32 a, .uint32 b => a = b
  | .uint64 a, .uint64 b => a = b
  | .byteArray16 a, .byteArray16 b => a = b
  | .byteArray16 a, .v6AddrMask addr n => inPrefix a addr n
  | .byteBlob a, .byteBlob b => a = b
  | .token sids, .securityDescriptor sid => sid ∈ sids
  | _, _ => false

def FieldValue.matchFlagsAllSet : FieldValue → ConditionValue → Bool
  | .uint32 a, .uint32 b => a &&& b = b
  | _, _ => false

def FilterCondition.holds (conn : Connection) (c : FilterCondition) : Bool :=
  match c.matchType with
  | .equal => (conn.value c.fieldKey).matchEqual c.conditionValue
  | .flagsAllSet => (conn.value c.fieldKey).matchFlagsAllSet c.conditionValue

def Filter.Matches (f : Filter) (conn : Connection) : Prop :=
  f.layerKey = conn.layer ∧
    AllFields FilterCondition.fieldKey (FilterCondition.holds conn ·) f.filterCondition

instance (f : Filter) (conn : Connection) : Decidable (f.Matches conn) :=
  inferInstanceAs (Decidable (_ ∧ _))

abbrev Decision (fs : List Filter) (conn : Connection) (a : Action) : Prop :=
  Verdict (fun f : Filter => f.weight.toNat) Filter.action Filter.Matches fs conn a

def matchEqual (key : FieldKey) (v : ConditionValue) : FilterCondition := ⟨key, .equal, v⟩

def layersV4 : List LayerKey := [.aleAuthConnectV4, .aleAuthRecvAcceptV4]
def layersV6 : List LayerKey := [.aleAuthConnectV6, .aleAuthRecvAcceptV6]
def layers : List LayerKey := layersV4 ++ layersV6

def onLayers (ls : List LayerKey) (weight : UInt8) (conditions : List FilterCondition)
    (action : Action) : List Filter :=
  ls.map fun layer => ⟨layer, weight, conditions, action⟩

def linkLocal : ConditionValue := .v6AddrMask 0xfe800000000000000000000000000000 10
def linkLocalDHCPMulticast : ConditionValue := .byteArray16 0xff020000000000000000000000010002
def siteLocalDHCPMulticast : ConditionValue := .byteArray16 0xff050000000000000000000000010003
def linkLocalRouterMulticast : ConditionValue := .byteArray16 0xff020000000000000000000000000002

def permitTunInterface (weight : UInt8) (ifLUID : UInt64) : List Filter :=
  onLayers layers weight [matchEqual .ipLocalInterface (.uint64 ifLUID)] .permit

/-- The two conditions are the executable and the service SID of the current process. -/
def permitWireGuardService (weight : UInt8) (appID sid : Str) : List Filter :=
  onLayers layers weight
    [matchEqual .aleAppID (.byteBlob appID), matchEqual .aleUserID (.securityDescriptor sid)]
    .permit

def permitLoopback (weight : UInt8) : List Filter :=
  onLayers layers weight [⟨.flags, .flagsAllSet, .uint32 conditionFlagIsLoopback⟩] .permit

def permitDHCPIPv4 (weight : UInt8) : List Filter :=
  [⟨.aleAuthConnectV4, weight,
    [matchEqual .ipProtocol (.uint8 ipprotoUDP), matchEqual .ipLocalPort (.uint16 68),
      matchEqual .ipRemotePort (.uint16 67), matchEqual .ipRemoteAddress (.uint32 0xffffffff)],
    .permit⟩,
   ⟨.aleAuthRecvAcceptV4, weight,
    [matchEqual .ipProtocol (.uint8 ipprotoUDP), matchEqual .ipLocalPort (.uint16 68),
      matchEqual .ipRemotePort (.uint16 67)],
    .permit⟩]

def permitDHCPIPv6 (weight : UInt8) : List Filter :=
  [⟨.aleAuthConnectV6, weight,
    [matchEqual .ipProtocol (.uint8 ipprotoUDP),
      matchEqual .ipRemoteAddress linkLocalDHCPMulticast,
      matchEqual .ipRemoteAddress siteLocalDHCPMulticast, matchEqual .ipRemotePort (.uint16 547),
      matchEqual .ipLocalAddress linkLocal, matchEqual .ipLocalPort (.uint16 546)],
    .permit⟩,
   ⟨.aleAuthRecvAcceptV6, weight,
    [matchEqual .ipProtocol (.uint8 ipprotoUDP), matchEqual .ipRemoteAddress linkLocal,
      matchEqual .ipRemotePort (.uint16 547), matchEqual .ipLocalAddress linkLocal,
      matchEqual .ipLocalPort (.uint16 546)],
    .permit⟩]

def icmpv6Conditions (type : UInt16) : List FilterCondition :=
  [matchEqual .ipProtocol (.uint8 ipprotoICMPV6), matchEqual .icmpType (.uint16 type),
    matchEqual .icmpCode (.uint16 0)]

def permitNdp (weight : UInt8) : List Filter :=
  let defs : List (List FilterCondition × LayerKey) :=
    [(icmpv6Conditions 133 ++ [matchEqual .ipRemoteAddress linkLocalRouterMulticast],
        .aleAuthConnectV6),
      (icmpv6Conditions 134 ++ [matchEqual .ipRemoteAddress linkLocal], .aleAuthRecvAcceptV6),
      (icmpv6Conditions 135, .aleAuthConnectV6), (icmpv6Conditions 135, .aleAuthRecvAcceptV6),
      (icmpv6Conditions 136, .aleAuthConnectV6), (icmpv6Conditions 136, .aleAuthRecvAcceptV6),
      (icmpv6Conditions 137 ++ [matchEqual .ipRemoteAddress linkLocal], .aleAuthRecvAcceptV6)]
  defs.map fun d => ⟨d.2, weight, d.1, .permit⟩

def blockAll (weight : UInt8) : List Filter := onLayers layers weight [] .block

def denyConditions : List FilterCondition :=
  [matchEqual .ipRemotePort (.uint16 53), matchEqual .ipProtocol (.uint8 ipprotoUDP),
    matchEqual .ipProtocol (.uint8 ipprotoTCP)]

-- `Is4` and `Is6` select the servers; `As16` drops the zone of an address.
def serverV4 : Addr → Option FilterCondition
  | .v4 a => some (matchEqual .ipRemoteAddress (.uint32 a))
  | _ => none

def serverV6 : Addr → Option FilterCondition
  | .v6 a _ => some (matchEqual .ipRemoteAddress (.byteArray16 a))
  | _ => none

def allowServers (ls : List LayerKey) (servers : List FilterCondition) (weightAllow : UInt8) :
    List Filter :=
  let allowConditions := denyConditions ++ servers
  if denyConditions.length < allowConditions.length then
    onLayers ls weightAllow allowConditions .permit
  else []

inductive Error
  | message (text : String)
  | errno (code : Nat)
  deriving DecidableEq, Repr

def blockDNS (except : List Addr) (weightAllow weightDeny : UInt8) : Except Error (List Filter) :=
  if weightAllow ≤ weightDeny then 
    .error (.message "The allow weight must be greater than the deny weight")
  else .ok (onLayers layers weightDeny denyConditions .block ++
    allowServers layersV4 (except.filterMap serverV4) weightAllow ++
    allowServers layersV6 (except.filterMap serverV6) weightAllow)

end WireGuardWindows.Firewall
