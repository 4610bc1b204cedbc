import WireGuardWindows.Conf.Config

/-!
# Values of the configuration text

The parsers of the single values of `conf/parser.go`. Messages are the English keys
that the source passes to its translation table. `net/url` appears as the function
`urlParse`, of which only the parts that `parseWSURL` looks at are kept.
-/

namespace WireGuardWindows.Conf
open GoStd Strings Strconv Netip Unicode

inductive Error
  | parseError (why : String) (offender : Str)
  | numError (func : String) (num : Str) (err : NumErr)
  /-- `why` ends with the text of the `NumError` of `func` for the offender. -/
  | parseNumError (why func : String) (offender : Str) (err : NumErr)
  deriving DecidableEq

def parseIPCidr (s : Str) : Except Error Prefix :=
  match parsePrefix s with
  | some ipcidr => .ok ipcidr
  | none =>
    match parseAddr s with
    | none => .error (.parseError "Invalid IP address: " s)
    | some addr => .ok (prefixFrom addr addr.bitLen)

def parseIntBetween (size : IntSize) (lo hi : Int) (why : String) (s : Str) :
    Except Error UInt16 :=
  match atoi size s with
  | .error err => .error (.numError "Atoi" s err)
  | .ok m => if m < lo ∨ hi < m then .error (.parseError why s) else .ok m.toNat.toUInt16

/-- A build for 32 bits accepts the same numbers; it calls some of the others out of range. -/
theorem parseIntBetween_size (size : IntSize) {lo hi : Int} (hlo : -2 ^ 31 ≤ lo) (hhi : hi < 2 ^ 31)
    (why : String) (s : Str) : (parseIntBetween size lo hi why s).toOption =
      (parseIntBetween .int64 lo hi why s).toOption := by
  have hiff (n : Int) (hn : lo ≤ n ∧ n ≤ hi) : atoi size s = .ok n ↔ atoi .int64 s = .ok n := by
    have hrange (size : IntSize) : -((2 ^ (size.bits - 1) : Nat) : Int) ≤ n ∧
        n < (2 ^ (size.bits - 1) : Nat) := by
      cases size <;> simp only [IntSize.bits] <;> omega
    simp only [atoi_ok_iff, hrange, and_true]
  have hread (size : IntSize) (v : UInt16) : (parseIntBetween size lo hi why s).toOption = some v ↔
      ∃ n, (lo ≤ n ∧ n ≤ hi) ∧ atoi size s = .ok n ∧ n.toNat.toUInt16 = v := by
    rw [parseIntBetween]
    cases atoi size s with
    | error e => simp [Except.toOption]
    | ok n =>
      by_cases hout : n < lo ∨ hi < n
      · simp only [if_pos hout, Except.toOption, Except.ok.injEq]
        refine ⟨fun h => (by cases h), ?_⟩
        rintro ⟨m, hm, rfl, -⟩
        omega
      · simp only [if_neg hout, Except.toOption, Option.some.injEq, Except.ok.injEq]
        refine ⟨fun h => ⟨n, by omega, rfl, h⟩, ?_⟩
        rintro ⟨m, -, rfl, h⟩
        exact h
  ext v
  rw [hread size, hread .int64]
  refine exists_congr fun n => and_congr_right fun hn => ?_
  rw [hiff n hn]

def parseMTU (s : Str) : Except Error UInt16 := parseIntBetween .int64 576 65535 "Invalid MTU" s

def parsePort (s : Str) : Except Error UInt16 := parseIntBetween .int64 0 65535 "Invalid port" s

def parsePersistentKeepalive (s : Str) : Except Error UInt16 :=
  if s = str "off" then .ok 0 else parseIntBetween .int64 0 65535 "Invalid persistent keepalive" s

/-- A host written in brackets: an IPv6 address, up to its last `%` if that does
not stand right behind the bracket. -/
def bracketedIPv6 (host : Str) : Bool :=
  decide (3 < host.length) && host.head? == some openBracket && host.getLast? == some
    closeBracket &&
    host.contains colon &&
    (let stop := match lastIndexByte host percent with
      | some i => if 1 < i then i else host.length - 1
      | none => host.length - 1
    match parseAddr ((host.take stop).drop 1) with
    | some maybeV6 => maybeV6.is6
    | none => false)

/-- The end of `parseEndpoint`: host and port have been read. -/
def endpointAt (host : Str) (port : UInt16) : Except Error Endpoint :=
  if host.head? = some openBracket ∨ host.getLast? = some closeBracket ∨ colon ∈ host then
    if bracketedIPv6 host then .ok ⟨(host.take (host.length - 1)).drop 1, port⟩
    else .error (.parseError "Brackets must contain an IPv6 address" host)
  else .ok ⟨host, port⟩

def parseEndpoint (s : Str) : Except Error Endpoint :=
  match cutLast s colon with
  | none => .error (.parseError "Missing port from endpoint" s)
  | some (host, portStr) =>
    if host = [] then .error (.parseError "Invalid endpoint host" host)
    else do endpointAt host (← parsePort portStr)

def isWSURL (s : Str) : Bool :=
  (str "ws://").isPrefixOf (toLower s) || (str "wss://").isPrefixOf (toLower s)

def redactWSURL (s : Str) : Str :=
  match cutText (str "://") s with
  | none => str "xxxxx"
  | some (scheme, rest) =>
    let afterUserinfo := match cutLast rest 0x40 with
      | some (_, t) => t
      | none => rest
    match cut afterUserinfo slash with
    | (_, path, true) => scheme ++ str "://xxxxx" ++ slash :: path
    | _ => scheme ++ str "://xxxxx"

structure URL where
  scheme : Str
  opaqueData : Str
  hasUser : Bool
  path : Str
  rawQuery : Str
  forceQuery : Bool
  fragment : Str
  hostname : Str
  port : Str

def parseWSURL (urlParse : Str → Option URL) (s : Str) : Except Error Endpoint :=
  let invalid := Error.parseError "Invalid WebSocket endpoint URL" (redactWSURL s)
  match urlParse s with
  | none => .error invalid
  | some u =>
    if (u.scheme ≠ str "ws" ∧ u.scheme ≠ str "wss") ∨ u.opaqueData ≠ [] then .error invalid
    else if u.hasUser then
      .error (.parseError "WebSocket endpoint URL must not contain a user name or password"
        (redactWSURL s))
    else if u.path = [] ∧ (u.rawQuery ≠ [] ∨ u.forceQuery ∨ u.fragment ≠ []) then
      .error (.parseError "WebSocket endpoint URL query or fragment requires a path"
        (redactWSURL s))
    else if u.hostname = [] ∨ u.port = [] then .error invalid
    else
      let host := if colon ∈ u.hostname then openBracket :: u.hostname ++ [closeBracket]
        else u.hostname
      match parseEndpoint (host ++ colon :: u.port) with
      | .error _ => .error invalid
      | .ok e => .ok e

def parseWSMode (s : Str) : Except Error WSMode :=
  if toLower s = str "websocket" then .ok .webSocket
  else if toLower s = str "wstunnel" then .ok .wsTunnel
  else .error (.parseError "Invalid WebSocket mode" s)

def parseWSBool (s : Str) : Except Error Bool :=
  if s = str "true" then .ok true
  else if s = str "false" then .ok false
  else .error (.parseError "Value must be true or false" s)

def parseWSMillis (s : Str) : Except Error UInt32 :=
  match parseUint s 32 with
  | .error _ => .error (.parseError "Invalid millisecond count" s)
  | .ok m => .ok m.toUInt32

def parseTableOff (s : Str) : Except Error Bool :=
  if s = str "off" then .ok true
  else if s = str "auto" ∨ s = str "main" then .ok false
  else match parseUint s 32 with
    | .error err => .error (.numError "ParseUint" s err)
    | .ok _ => .ok false

def parseKeyBase64 (s : Str) : Except Error Key :=
  match Base64.decodeString s with
  | .error offset =>
    .error (.parseError s!"Invalid key: illegal base64 data at input byte {offset}" s)
  | .ok k =>
    if h : k.length = keyLength then .ok ⟨k, h⟩
    else .error (.parseError "Keys must decode to exactly 32 bytes" s)

def splitList (s : Str) : Except Error (List Str) :=
  (s.splitOn comma).mapM fun split =>
    if trimSpace split = [] then .error (.parseError "Two commas in a row" s)
    else .ok (trimSpace split)

end WireGuardWindows.Conf
