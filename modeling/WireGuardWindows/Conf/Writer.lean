import WireGuardWindows.Conf.Parser

/-!
# `ToWgQuick`

Every line the writer puts out ends in a line feed. A field gives whether it differs
from its default and its text; the list fields are skipped altogether when empty.
-/

namespace WireGuardWindows.Conf
open GoStd Strings Strconv Netip

namespace InterfaceKey

def name : InterfaceKey → Str
  | .privateKey => str "PrivateKey"
  | .listenPort => str "ListenPort"
  | .address => str "Address"
  | .dns => str "DNS"
  | .mtu => str "MTU"
  | .preUp => str "PreUp"
  | .postUp => str "PostUp"
  | .preDown => str "PreDown"
  | .postDown => str "PostDown"
  | .table => str "Table"

end InterfaceKey

namespace PeerKey

def name : PeerKey → Str
  | .publicKey => str "PublicKey"
  | .presharedKey => str "PresharedKey"
  | .allowedIPs => str "AllowedIPs"
  | .endpoint => str "Endpoint"
  | .persistentKeepalive => str "PersistentKeepalive"
  | .wsMode => str "WSMode"
  | .wsTunnelTarget => str "WSTunnelTarget"
  | .wsMask => str "WSMask"
  | .wsTLSCA => str "WSTLSCA"
  | .wsTLSCert => str "WSTLSCert"
  | .wsTLSKey => str "WSTLSKey"
  | .wsTLSInsecure => str "WSTLSInsecure"
  | .wsPingInterval => str "WSPingInterval"
  | .wsBackoffMin => str "WSBackoffMin"
  | .wsBackoffMax => str "WSBackoffMax"
  | .wsBearer => str "WSBearer"

end PeerKey

def joinList (items : List Str) : Str := (str ", ").intercalate items

def boolText (b : Bool) : Str := if b then str "true" else str "false"

def Interface.field (i : Interface) : InterfaceKey → Option (Bool × Str)
  | .privateKey => some (true, i.privateKey.string)
  | .listenPort => some (0 < i.listenPort, itoa i.listenPort.toNat)
  | .address =>
    if i.addresses = [] then none else some (true, joinList (i.addresses.map Prefix.string))
  | .dns =>
    if i.dns = [] ∧ i.dnsSearch = [] then none
    else some (true, joinList (i.dns.map Addr.string ++ i.dnsSearch))
  | .mtu => some (0 < i.mtu, itoa i.mtu.toNat)
  | .preUp => some (i.preUp ≠ [], i.preUp)
  | .postUp => some (i.postUp ≠ [], i.postUp)
  | .preDown => some (i.preDown ≠ [], i.preDown)
  | .postDown => some (i.postDown ≠ [], i.postDown)
  | .table => some (i.tableOff, if i.tableOff then str "off" else str "auto")

def Peer.field (p : Peer) : PeerKey → Option (Bool × Str)
  | .publicKey => some (true, p.publicKey.string)
  | .presharedKey => some (!p.presharedKey.isZero, p.presharedKey.string)
  | .allowedIPs =>
    if p.allowedIPs = [] then none else some (true, joinList (p.allowedIPs.map Prefix.string))
  | .endpoint =>
    if p.wsURL ≠ [] then some (true, p.wsURL) else some (!p.endpoint.isEmpty, p.endpoint.string)
  | .persistentKeepalive => some (0 < p.persistentKeepalive, itoa p.persistentKeepalive.toNat)
  | .wsMode => some (p.wsMode ≠ .none, p.wsMode.string)
  | .wsTunnelTarget => some (p.wsTunnelTarget ≠ [], p.wsTunnelTarget)
  | .wsMask => some (p.wsMask, boolText p.wsMask)
  | .wsTLSCA => some (p.wsTLSCA ≠ [], p.wsTLSCA)
  | .wsTLSCert => some (p.wsTLSCert ≠ [], p.wsTLSCert)
  | .wsTLSKey => some (p.wsTLSKey ≠ [], p.wsTLSKey)
  | .wsTLSInsecure => some (p.wsTLSInsecure, boolText p.wsTLSInsecure)
  | .wsPingInterval => some (0 < p.wsPingInterval, itoa p.wsPingInterval.toNat)
  | .wsBackoffMin => some (0 < p.wsBackoffMin, itoa p.wsBackoffMin.toNat)
  | .wsBackoffMax => some (0 < p.wsBackoffMax, itoa p.wsBackoffMax.toNat)
  | .wsBearer => some (p.wsBearer ≠ [], p.wsBearer)

def suffixText (suffix : Str) : Str := if suffix = [] then [] else 0x20 :: suffix

def writeLine (c : Comments) (line : Str) : List Str := c.before ++ [line ++ suffixText c.suffix]

def writeField (c : Comments) (name : Str) : Option (Bool × Str) → List Str
  | none => []
  | some (present, value) =>
    if !present && c.isEmpty then [] else writeLine c (name ++ str " = " ++ value)

def Interface.lines (i : Interface) : List Str :=
  writeLine i.comments.header (str "[Interface]") ++
    InterfaceKey.all.flatMap fun k => writeField (i.comments.lines k) k.name (i.field k)

def Peer.lines (p : Peer) : List Str :=
  [[]] ++ writeLine p.comments.header (str "[Peer]") ++
    PeerKey.all.flatMap fun k => writeField (p.comments.lines k) k.name (p.field k)

def Config.lines (conf : Config) : List Str :=
  conf.interface.lines ++ conf.peers.flatMap Peer.lines ++ conf.trailingComments

def Config.toWgQuick (conf : Config) : Str := conf.lines.flatMap (· ++ [newline])

end WireGuardWindows.Conf
