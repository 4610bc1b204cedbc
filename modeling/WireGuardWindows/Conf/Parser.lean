import WireGuardWindows.Conf.Values

/-!
# `FromWgQuick`

The loop over the lines is `parseLine` folded over the text. A peer is under
construction exactly while the loop is in a peer section, so the source's `peer` and
`peerWSKeys` are arguments of that section state. A key is looked up in its section
before its comments are attached; the source attaches them first, and an unknown key
ends the parse either way.
-/

namespace WireGuardWindows.Conf
open GoStd Strings Strconv Netip Unicode

def blanks : List UInt8 := str " \t\r"

namespace InterfaceKey

def lower : InterfaceKey → Str
  | .privateKey => str "privatekey"
  | .listenPort => str "listenport"
  | .address => str "address"
  | .dns => str "dns"
  | .mtu => str "mtu"
  | .preUp => str "preup"
  | .postUp => str "postup"
  | .preDown => str "predown"
  | .postDown => str "postdown"
  | .table => str "table"

def ofLower (key : Str) : Option InterfaceKey := all.find? (·.lower == key)

end InterfaceKey

namespace PeerKey

def lower : PeerKey → Str
  | .publicKey => str "publickey"
  | .presharedKey => str "presharedkey"
  | .allowedIPs => str "allowedips"
  | .persistentKeepalive => str "persistentkeepalive"
  | .endpoint => str "endpoint"
  | .wsMode => str "wsmode"
  | .wsTunnelTarget => str "wstunneltarget"
  | .wsBearer => str "wsbearer"
  | .wsMask => str "wsmask"
  | .wsTLSCA => str "wstlsca"
  | .wsTLSCert => str "wstlscert"
  | .wsTLSKey => str "wstlskey"
  | .wsTLSInsecure => str "wstlsinsecure"
  | .wsPingInterval => str "wspinginterval"
  | .wsBackoffMin => str "wsbackoffmin"
  | .wsBackoffMax => str "wsbackoffmax"

def ofLower (key : Str) : Option PeerKey := all.find? (·.lower == key)

/-- The canonical names that the parser records in `peerWSKeys`. -/
def wsKeyName : PeerKey → Option Str
  | .wsTunnelTarget => some (str "WSTunnelTarget")
  | .wsBearer => some (str "WSBearer")
  | .wsMask => some (str "WSMask")
  | .wsTLSCA => some (str "WSTLSCA")
  | .wsTLSCert => some (str "WSTLSCert")
  | .wsTLSKey => some (str "WSTLSKey")
  | .wsTLSInsecure => some (str "WSTLSInsecure")
  | .wsPingInterval => some (str "WSPingInterval")
  | .wsBackoffMin => some (str "WSBackoffMin")
  | .wsBackoffMax => some (str "WSBackoffMax")
  | _ => none

end PeerKey

namespace Comments

def appendSuffix (suffix comment : Str) : Str :=
  if comment = [] then suffix
  else if suffix = [] then comment
  else suffix ++ 0x20 :: comment

def attach (c : Comments) (pending : List Str) (comment : Str) : Comments :=
  ⟨c.before ++ pending, appendSuffix c.suffix comment⟩

end Comments

def SectionComments.attach {K : Type} [DecidableEq K] (c : SectionComments K) (key : K)
    (pending : List Str) (comment : Str) : SectionComments K :=
  { c with lines := Function.update c.lines key ((c.lines key).attach pending comment) }

def Interface.addDNS (i : Interface) (address : Str) : Interface :=
  match parseAddr address with
  | none => { i with dnsSearch := i.dnsSearch ++ [address] }
  | some a => { i with dns := i.dns ++ [a] }

def Interface.set (i : Interface) (val : Str) : InterfaceKey → Except Error Interface
  | .privateKey => do return { i with privateKey := ← parseKeyBase64 val }
  | .listenPort => do return { i with listenPort := ← parsePort val }
  | .mtu => do return { i with mtu := ← parseMTU val }
  | .address => do
    let addresses ← (← splitList val).mapM parseIPCidr
    return { i with addresses := i.addresses ++ addresses }
  | .dns => do return (← splitList val).foldl Interface.addDNS i
  | .preUp => return { i with preUp := val }
  | .postUp => return { i with postUp := val }
  | .preDown => return { i with preDown := val }
  | .postDown => return { i with postDown := val }
  | .table => do return { i with tableOff := ← parseTableOff val }

def Peer.set (urlParse : Str → Option URL) (p : Peer) (val : Str) : PeerKey → Except Error Peer
  | .publicKey => do return { p with publicKey := ← parseKeyBase64 val }
  | .presharedKey => do return { p with presharedKey := ← parseKeyBase64 val }
  | .allowedIPs => do
    let addresses ← (← splitList val).mapM parseIPCidr
    return { p with allowedIPs := p.allowedIPs ++ addresses }
  | .persistentKeepalive => do
    return { p with persistentKeepalive := ← parsePersistentKeepalive val }
  | .endpoint =>
    if isWSURL val then do return { p with endpoint := ← parseWSURL urlParse val, wsURL := val }
    else do return { p with endpoint := ← parseEndpoint val, wsURL := [] }
  | .wsMode => do return { p with wsMode := ← parseWSMode val }
  | .wsTunnelTarget =>
    match parseEndpoint val with
    | .error _ => .error (.parseError "Invalid WSTunnelTarget" val)
    | .ok _ => .ok { p with wsTunnelTarget := val }
  | .wsBearer => return { p with wsBearer := val }
  | .wsMask => do return { p with wsMask := ← parseWSBool val }
  | .wsTLSCA => return { p with wsTLSCA := val }
  | .wsTLSCert => return { p with wsTLSCert := val }
  | .wsTLSKey => return { p with wsTLSKey := val }
  | .wsTLSInsecure => do return { p with wsTLSInsecure := ← parseWSBool val }
  | .wsPingInterval => do return { p with wsPingInterval := ← parseWSMillis val }
  | .wsBackoffMin => do return { p with wsBackoffMin := ← parseWSMillis val }
  | .wsBackoffMax => do return { p with wsBackoffMax := ← parseWSMillis val }

def validateWebSocketPeer (p : Peer) (wsKeys : List Str) : Except Error Unit :=
  let isWSTunnel := p.wsMode = .wsTunnel
  if p.wsURL ≠ [] ∧ p.wsMode = .none then
    .error (.parseError "A WebSocket endpoint requires WSMode" (redactWSURL p.wsURL))
  else if p.wsURL = [] ∧ p.wsMode ≠ .none ∧ ¬ p.endpoint.isEmpty then
    .error (.parseError "WSMode requires a ws:// or wss:// endpoint" p.endpoint.string)
  else if isWSTunnel ∧ p.wsURL = [] then
    .error (.parseError "WSMode = wstunnel requires a ws:// or wss:// endpoint" p.wsMode.string)
  else if isWSTunnel ∧ p.wsTunnelTarget = [] then
    .error (.parseError "WSMode = wstunnel requires WSTunnelTarget" p.wsMode.string)
  else if p.wsTunnelTarget ≠ [] ∧ ¬ isWSTunnel then
    .error (.parseError "WSTunnelTarget requires WSMode = wstunnel" p.wsTunnelTarget)
  else if p.wsMode = .none ∧ wsKeys ≠ [] then
    .error (.parseError "WebSocket settings require WSMode" (wsKeys.headD []))
  else .ok ()

inductive Section
  | notInASection
  | inInterfaceSection
  | inPeerSection (peer : Peer) (peerWSKeys : List Str)

structure ParserState where
  conf : Config
  state : Section := .notInASection
  sawPrivateKey : Bool := false
  pendingComments : List Str := []

def ParserState.finishPeer (st : ParserState) : Except Error Config :=
  match st.state with
  | .inPeerSection peer peerWSKeys => do
    validateWebSocketPeer peer peerWSKeys
    return { st.conf with peers := st.conf.peers ++ [peer] }
  | _ => return st.conf

/-- The parts of a line: `code` and comment around the first `#`, and the code cut
at its first `=`. -/
structure Line where
  comment : Str
  stripped : Str
  key : Str
  val : Str
  hasValue : Bool

def lexLine (line : Str) : Line :=
  let (code, after, hasComment) := cut line hash
  let stripped := trimSpace code
  let (key, val, hasValue) := cut stripped equals
  { comment := if hasComment then hash :: trimRight after blanks else []
    stripped := stripped
    key := toLower (trimSpace key)
    val := val
    hasValue := hasValue }

def scriptKeys : List Str := ["preup", "postup", "predown", "postdown"].map str

def valueOf (line : Str) (l : Line) : Str × Str :=
  if l.key ∈ scriptKeys then (trimSpace (cut line equals).2.1, []) else (trimSpace l.val, l.comment)

def ParserState.setKey (urlParse : Str → Option URL) (st : ParserState) (key val comment : Str) :
    Except Error ParserState :=
  match st.state with
  | .notInASection => return st
  | .inInterfaceSection =>
    match InterfaceKey.ofLower key with
    | none => .error (.parseError "Invalid key for [Interface] section" key)
    | some k => do
      let i := st.conf.interface
      let i ← Interface.set { i with comments := i.comments.attach k st.pendingComments comment }
        val k
      return { st with
        conf := { st.conf with interface := i }
        sawPrivateKey := st.sawPrivateKey || k == .privateKey
        pendingComments := [] }
  | .inPeerSection p wsKeys =>
    match PeerKey.ofLower key with
    | none => .error (.parseError "Invalid key for [Peer] section" key)
    | some k => do
      let p ← Peer.set urlParse
        { p with comments := p.comments.attach k st.pendingComments comment } val k
      return { st with
        state := .inPeerSection p (wsKeys ++ k.wsKeyName.toList)
        pendingComments := [] }

def parseLine (urlParse : Str → Option URL) (st : ParserState) (line : Str) :
    Except Error ParserState :=
  let l := lexLine line
  if l.stripped = [] then
    return { st with pendingComments := st.pendingComments ++ [l.comment] }
  else if l.key = str "[interface]" ∧ ¬ l.hasValue then do
    let conf ← st.finishPeer
    let c := conf.interface.comments
    let c := { c with header := c.header.attach st.pendingComments l.comment }
    return { st with
      conf := { conf with interface := { conf.interface with comments := c } }
      state := .inInterfaceSection
      pendingComments := [] }
  else if l.key = str "[peer]" ∧ ¬ l.hasValue then do
    let conf ← st.finishPeer
    return { st with
      conf := conf
      state := .inPeerSection
        { comments := { header := ⟨st.pendingComments, l.comment⟩ } } []
      pendingComments := [] }
  else match st.state with
    | .notInASection => .error (.parseError "Line must occur in a section" l.stripped)
    | _ =>
      if ¬ l.hasValue then
        .error (.parseError "Config key is missing an equals separator" l.stripped)
      else
        let (val, comment) := valueOf line l
        if val = [] then .error (.parseError "Key must have a value" l.stripped)
        else st.setKey urlParse l.key val comment

def pruneComments (run : List Str) (dropLeading dropTrailing : Bool) : List Str :=
  let out := run.foldl
    (fun out line => if line = [] ∧ out.getLast? = some [] then out else out ++ [line]) []
  let out := if dropLeading ∧ out.head? = some [] then out.tail else out
  let out := if dropTrailing ∧ out.getLast? = some [] then out.dropLast else out
  if out = [[]] then [] else out

def pruneSectionComments {K : Type} (s : SectionComments K) : SectionComments K where
  header := { s.header with before := pruneComments s.header.before true false }
  lines key := { s.lines key with before := pruneComments (s.lines key).before false false }

def Config.pruned (conf : Config) (pendingComments : List Str) : Config :=
  { conf with
    trailingComments := pruneComments pendingComments false true
    interface := { conf.interface with comments := pruneSectionComments conf.interface.comments }
    peers := conf.peers.map fun p => { p with comments := pruneSectionComments p.comments } }

def fromWgQuick (urlParse : Str → Option URL) (s name : Str) : Except Error Config :=
  if ¬ tunnelNameIsValid name then .error (.parseError "Tunnel name is not valid" name)
  else do
    let st ← (s.splitOn newline).foldlM (parseLine urlParse) { conf := { name := name } }
    let conf ← st.finishPeer
    let conf := conf.pruned st.pendingComments
    if ¬ st.sawPrivateKey then
      .error (.parseError "An interface must have a private key" (str "[none specified]"))
    else if conf.peers.any (·.publicKey.isZero) then
      .error (.parseError "All peers must have public keys" (str "[none specified]"))
    else return conf

/-- `decoders` are the Unicode decoders that are tried in turn on a text that does
not parse as it stands. -/
def fromWgQuickWithUnknownEncoding (urlParse : Str → Option URL)
    (decoders : List (Str → Option Str)) (s name : Str) : Except Error Config :=
  match fromWgQuick urlParse s name with
  | .ok c => .ok c
  | .error firstErr =>
    match decoders.findSome? fun decode => do
      (fromWgQuick urlParse (← decode s) name).toOption with
    | some c => .ok c
    | none => .error firstErr

end WireGuardWindows.Conf
