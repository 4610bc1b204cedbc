import WireGuardWindows.GoStd.Strings

/-!
# The highlighter of the configuration editor

A pointer into the text is the list of bytes from there to the end of the buffer, the
terminating NUL included. Reading past the buffer has no result, so a function that returns
`none` has left the buffer. Loops over a span run along that list.
-/

namespace WireGuardWindows.Syntax
open GoStd Strings

inductive Highlight
  | highlightSection
  | highlightField
  | highlightPrivateKey
  | highlightPublicKey
  | highlightPresharedKey
  | highlightIP
  | highlightCidr
  | highlightHost
  | highlightPort
  | highlightMTU
  | highlightKeepalive
  | highlightComment
  | highlightDelimiter
  | highlightTable
  | highlightCmd
  | highlightError
  deriving DecidableEq, Repr

open Highlight

def validateHighlight (isValid : Bool) (t : Highlight) : Highlight :=
  if isValid then t else highlightError

structure HighlightSpan where
  t : Highlight
  s : Nat
  len : Nat
  deriving DecidableEq, Repr

def isDecimal (c : UInt8) : Bool := 0x30 ≤ c && c ≤ 0x39

def isHexadecimal (c : UInt8) : Bool := isDecimal c || (0x61 ≤ c ||| 32 && c ||| 32 ≤ 0x66)

def isAlphabet (c : UInt8) : Bool := 0x61 ≤ c ||| 32 && c ||| 32 ≤ 0x7A

def zero : UInt8 := 0x30

def isBlank (c : UInt8) : Bool := c = 0x20 || c = 0x09

structure StringSpan where
  s : Str
  len : Nat
  deriving DecidableEq, Repr

namespace StringSpan

def byteAt (s : StringSpan) (i : Nat) : Option UInt8 := s.s[i]?

def advance (s : StringSpan) (n : Nat) : StringSpan := ⟨s.s.drop n, s.len - n⟩

def sameLoop (fold : UInt8 → UInt8) : Str → Str → Option Bool
  | _, [] => some true
  | s, b :: c => do
    let a ← s.head?
    if fold a = fold b then sameLoop fold s.tail c else some false

def isSame (s : StringSpan) (c : Str) : Option Bool :=
  if s.len = c.length then sameLoop id s.s c else some false

def upper (a : UInt8) : UInt8 := if a - 0x61 < 26 then a &&& 95 else a

def isCaselessSame (s : StringSpan) (c : Str) : Option Bool :=
  if s.len = c.length then sameLoop upper s.s c else some false

def allBytes (p : UInt8 → Bool) : Nat → Str → Option Bool
  | 0, _ => some true
  | n + 1, s => do
    let a ← s.head?
    if p a then allBytes p n s.tail else some false

def keyEnds : List UInt8 := str "AEIMQUYcgkosw480"

def isValidKey (s : StringSpan) : Option Bool := do
  if s.len ≠ 44 then return false
  if (← s.byteAt 43) ≠ equals then return false
  if !(← allBytes (fun c => isDecimal c || isAlphabet c || c = 0x2F || c = 0x2B) 42 s.s) then
    return false
  return keyEnds.contains (← s.byteAt 42)

-- A dot ends the iteration, so the test for two dots in a row at its end is never true.
def hostnameLoop : Nat → Str → Nat → Int → Option Bool
  | 0, _, numDigit, numEntity => some ((numDigit : Int) ≠ numEntity)
  | n + 1, s, numDigit, numEntity => do
    let c ← s.head?
    if isDecimal c then hostnameLoop n s.tail (numDigit + 1) numEntity
    else if c = dot then hostnameLoop n s.tail numDigit (numEntity - 1)
    else if !isAlphabet c && c ≠ hyphen then some false
    else hostnameLoop n s.tail numDigit numEntity

def isValidHostname (s : StringSpan) : Option Bool := do
  if 63 < s.len ∨ s.len = 0 then return false
  let first ← s.byteAt 0
  if first = hyphen then return false
  let last ← s.byteAt (s.len - 1)
  if last = hyphen then return false
  if first = dot ∨ last = dot then return false
  hostnameLoop s.len s.s 0 s.len

def decimalRun : Nat → StringSpan → Nat → Nat → Option (Nat × Nat)
  | 0, _, j, val => some (j, val)
  | n + 1, s, j, val =>
    if s.len = 0 then some (j, val)
    else do
      let c ← s.byteAt 0
      if isDecimal c then decimalRun n (s.advance 1) (j + 1) (10 * val + (c - zero).toNat)
      else some (j, val)

/-- The loop over the octets, of which `n` are to come. -/
def ipv4Loop : Nat → StringSpan → Option Bool
  | 0, _ => some false
  | n + 1, s =>
    if s.len = 0 then some false
    else do
      let (j, val) ← decimalRun 3 s 0 0
      if j = 0 then return false
      if 1 < j ∧ (← s.byteAt 0) = zero then return false
      if 255 < val then return false
      if j = s.len ∧ n = 0 then return true
      if (← s.byteAt j) ≠ dot then return false
      ipv4Loop n (s.advance (j + 1))

def isValidIPv4 (s : StringSpan) : Option Bool := ipv4Loop 4 s

def hexRun : Nat → StringSpan → Option Nat
  | 0, _ => some 0
  | n + 1, s =>
    if s.len = 0 then some 0
    else do
      let c ← s.byteAt 0
      if isHexadecimal c then return (← hexRun n (s.advance 1)) + 1
      else some 0

/-- The loop over the groups from number `i` on. It is left at number 7, so eight rounds are
enough. -/
def ipv6Loop : Nat → Nat → Bool → StringSpan → Option Bool
  | 0, _, _, _ => none
  | n + 1, i, seenColon, s =>
    if s.len = 0 then some true
    else do
      if (← s.byteAt 0) = colon ∧ seenColon = false then
        if s.len = 1 then return true
        if i = 7 then return false
        ipv6Loop n (i + 1) true (s.advance 1)
      else
        let j ← hexRun 4 s
        if j = 0 then return false
        if j = s.len ∧ (seenColon ∨ i = 7) then return true
        if i = 7 then return false
        let c ← s.byteAt j
        if c ≠ colon then
          if c ≠ dot ∨ (i < 6 ∧ seenColon = false) then return false
          isValidIPv4 s
        else ipv6Loop n (i + 1) seenColon (s.advance (j + 1))

def isValidIPv6 (s : StringSpan) : Option Bool := do
  if s.len < 2 then return false
  let first ← s.byteAt 0
  if first = colon ∧ (← s.byteAt 1) ≠ colon then return false
  if (← s.byteAt (s.len - 1)) = colon ∧ (← s.byteAt (s.len - 2)) ≠ colon then return false
  ipv6Loop 8 0 false (s.advance (if first = colon then 1 else 0))

def uintLoop (base : Nat) (digit : UInt8 → Option Nat) : Nat → Str → Nat → Option (Option Nat)
  | 0, _, val => some (some val)
  | n + 1, s, val => do
    let c ← s.head?
    match digit c with
    | none => some none
    | some d => uintLoop base digit n s.tail (base * val + d)

def decimalDigit (c : UInt8) : Option Nat := if isDecimal c then some (c - zero).toNat else none

def hexDigit (c : UInt8) : Option Nat :=
  if c - zero < 10 then some (c - zero).toNat
  else if (c ||| 32) - 0x61 < 6 then some ((c ||| 32) - 0x61 + 10).toNat
  else none

def isValidUint (s : StringSpan) (supportHex : Bool) (min max : Nat) : Option Bool := do
  if 10 < s.len ∨ s.len = 0 then return false
  let hex ← (if supportHex && 2 < s.len then do
      return (← s.byteAt 0) == zero && (← s.byteAt 1) == 0x78
    else some false)
  let val ← (if hex then uintLoop 16 hexDigit (s.len - 2) (s.s.drop 2) 0
    else uintLoop 10 decimalDigit s.len s.s 0)
  match val with
  | none => return false
  | some val => return val ≤ max && min ≤ val

def isValidPort (s : StringSpan) : Option Bool := s.isValidUint false 0 65535

def isValidMTU (s : StringSpan) : Option Bool := s.isValidUint false 576 65535

def isValidTable (s : StringSpan) : Option Bool := do
  if ← s.isSame (str "off") then return true
  if ← s.isSame (str "auto") then return true
  if ← s.isSame (str "main") then return true
  s.isValidUint false 0 (2 ^ 32 - 1)

def isValidPersistentKeepAlive (s : StringSpan) : Option Bool := do
  if ← s.isSame (str "off") then return true
  s.isValidUint false 0 65535

def isValidPrePostUpDown (s : StringSpan) : Bool := s.len ≠ 0

def isValidScope (s : StringSpan) : Option Bool :=
  if 64 < s.len ∨ s.len = 0 then some false
  else allBytes (fun c => isAlphabet c || isDecimal c || (str "_=+.-").contains c) s.len s.s

def bracketLoop : Nat → Str → Bool → StringSpan → Option Bool
  | 0, _, _, _ => some false
  | n + 1, p, seenScope, hostspan => do
    let c ← p.head?
    if c = percent then
      if seenScope then return false
      if !(← hostspan.isValidIPv6) then return false
      bracketLoop n p.tail true ⟨p.tail, 0⟩
    else if c = closeBracket then
      if !(← (if seenScope then hostspan.isValidScope else hostspan.isValidIPv6)) then return false
      if n = 0 then return false
      if (← p[1]?) ≠ colon then return false
      isValidPort ⟨p.drop 2, n - 1⟩
    else bracketLoop n p.tail seenScope ⟨hostspan.s, hostspan.len + 1⟩

def indexByte (c : UInt8) : Nat → Str → Option (Option Nat)
  | 0, _ => some none
  | n + 1, p => do
    if (← p.head?) = c then return some 0
    return (← indexByte c n p.tail).map (· + 1)

def isValidEndpoint (s : StringSpan) : Option Bool := do
  if s.len = 0 then return false
  if (← s.byteAt 0) = openBracket then
    bracketLoop (s.len - 1) (s.s.drop 1) false ⟨s.s.drop 1, 0⟩
  else
    match ← indexByte colon s.len s.s with
    | none => return false
    | some i =>
      if !(← isValidPort ⟨s.s.drop (i + 1), s.len - i - 1⟩) then return false
      if ← isValidIPv4 ⟨s.s, i⟩ then return true
      isValidHostname ⟨s.s, i⟩

def isValidWSMode (s : StringSpan) : Option Bool := do
  if ← s.isCaselessSame (str "websocket") then return true
  s.isCaselessSame (str "wstunnel")

def isValidWSBool (s : StringSpan) : Option Bool := do
  if ← s.isSame (str "true") then return true
  s.isSame (str "false")

def isValidWSMillis (s : StringSpan) : Option Bool := s.isValidUint false 0 (2 ^ 32 - 1)

def isValidWSURL (s : StringSpan) : Option Bool := do
  let ws ← (if 5 < s.len then isCaselessSame ⟨s.s, 5⟩ (str "ws://") else some false)
  let wss ← (if 6 < s.len then isCaselessSame ⟨s.s, 6⟩ (str "wss://") else some false)
  if !ws && !wss then return false
  let authority := s.advance (if ws then 5 else 6)
  match ← indexByte slash authority.len authority.s with
  | some authorityLen => isValidEndpoint ⟨authority.s, authorityLen⟩
  | none => isValidEndpoint authority

def isValidNetwork (s : StringSpan) : Option Bool := do
  match ← indexByte slash s.len s.s with
  | some i =>
    let ip : StringSpan := ⟨s.s, i⟩
    let cidr : StringSpan := ⟨s.s.drop (i + 1), s.len - i - 1⟩
    if 3 < cidr.len ∨ cidr.len = 0 then return false
    match ← uintLoop 10 decimalDigit cidr.len cidr.s 0 with
    | none => return false
    | some cidrval =>
      if ← ip.isValidIPv4 then return cidrval ≤ 32
      if ← ip.isValidIPv6 then return cidrval ≤ 128
      return false
  | none =>
    if ← s.isValidIPv4 then return true
    s.isValidIPv6

end StringSpan

inductive Field
  | interfaceSection
  | privateKey
  | listenPort
  | address
  | dns
  | mtu
  | table
  | preUp
  | postUp
  | preDown
  | postDown
  | peerSection
  | publicKey
  | presharedKey
  | allowedIPs
  | endpoint
  | persistentKeepalive
  | wsMode
  | wsTunnelTarget
  | wsBearer
  | wsMask
  | wsTLSCA
  | wsTLSCert
  | wsTLSKey
  | wsTLSInsecure
  | wsPingInterval
  | wsBackoffMin
  | wsBackoffMax
  | invalid
  deriving DecidableEq, Repr

-- The source compares positions in the enumeration.
def sectionForField : Field → Field
  | .privateKey | .listenPort | .address | .dns | .mtu | .table | .preUp | .postUp | .preDown
  | .postDown => .interfaceSection
  | .interfaceSection | .peerSection | .invalid => .invalid
  | _ => .peerSection

def fieldNames : List (String × Field) :=
  [("PrivateKey", .privateKey), ("ListenPort", .listenPort), ("Address", .address), ("DNS", .dns),
    ("MTU", .mtu), ("Table", .table), ("PublicKey", .publicKey), ("PresharedKey", .presharedKey),
    ("AllowedIPs", .allowedIPs), ("Endpoint", .endpoint),
    ("PersistentKeepalive", .persistentKeepalive), ("PreUp", .preUp), ("PostUp", .postUp),
    ("PreDown", .preDown), ("PostDown", .postDown), ("WSMode", .wsMode),
    ("WSTunnelTarget", .wsTunnelTarget), ("WSBearer", .wsBearer), ("WSMask", .wsMask),
    ("WSTLSCA", .wsTLSCA), ("WSTLSCert", .wsTLSCert), ("WSTLSKey", .wsTLSKey),
    ("WSTLSInsecure", .wsTLSInsecure), ("WSPingInterval", .wsPingInterval),
    ("WSBackoffMin", .wsBackoffMin), ("WSBackoffMax", .wsBackoffMax)]

def sectionNames : List (String × Field) :=
  [("[Peer]", .peerSection), ("[Interface]", .interfaceSection)]

def StringSpan.lookup (s : StringSpan) : List (String × Field) → Option Field
  | [] => some .invalid
  | (name, f) :: names => do
    if ← s.isCaselessSame (str name) then return f
    s.lookup names

def StringSpan.field (s : StringSpan) : Option Field := s.lookup fieldNames

def StringSpan.sectionType (s : StringSpan) : Option Field := s.lookup sectionNames

abbrev HighlightSpanArray := List HighlightSpan

/-- `o` points to the start of the text, so the difference of the two pointers is the offset. -/
def HighlightSpanArray.append (o : Str) (hsa : HighlightSpanArray) (s : StringSpan)
    (t : Highlight) :
    HighlightSpanArray :=
  if s.len = 0 then hsa else hsa ++ [⟨t, o.length - s.s.length, s.len⟩]

open HighlightSpanArray

def highlightMultivalueValue (o : Str) (hsa : HighlightSpanArray) (s : StringSpan) :
    Field → Option HighlightSpanArray
  | .dns => do
    if ← s.isValidIPv4 then return append o hsa s highlightIP
    if ← s.isValidIPv6 then return append o hsa s highlightIP
    if ← s.isValidHostname then return append o hsa s highlightHost
    return append o hsa s highlightError
  | .address | .allowedIPs => do
    if !(← s.isValidNetwork) then return append o hsa s highlightError
    match ← StringSpan.indexByte slash s.len s.s with
    | none => return append o hsa s highlightIP
    | some i =>
      let hsa := append o hsa ⟨s.s, i⟩ highlightIP
      let hsa := append o hsa ⟨s.s.drop i, 1⟩ highlightDelimiter
      return append o hsa ⟨s.s.drop (i + 1), s.len - i - 1⟩ highlightCidr
  | _ => some (append o hsa s highlightError)

/-- The span that grows while a token is read, and its length without blanks at the end. -/
structure Cursor where
  currentSpan : StringSpan
  lenAtLastSpace : Nat
  deriving DecidableEq, Repr

def Cursor.feed (c : Cursor) (p : Str) (b : UInt8) : Cursor :=
  let span := c.currentSpan
  if isBlank b then
    if p.length = span.s.length ∧ span.len = 0 then ⟨⟨span.s.drop 1, 0⟩, c.lenAtLastSpace⟩
    else ⟨⟨span.s, span.len + 1⟩, c.lenAtLastSpace⟩
  else ⟨⟨span.s, span.len + 1⟩, span.len + 1⟩

def Cursor.token (c : Cursor) : StringSpan := ⟨c.currentSpan.s, c.lenAtLastSpace⟩

def Cursor.start (p : Str) : Cursor := ⟨⟨p, 0⟩, 0⟩

def multivalueLoop (o : Str) (f : Field) :
    Nat → Str → HighlightSpanArray → Cursor → Option (HighlightSpanArray × Cursor)
  | 0, _, hsa, cur => some (hsa, cur)
  | n + 1, p, hsa, cur => do
    let b ← p.head?
    if b = comma then
      let hsa ← highlightMultivalueValue o hsa cur.token f
      multivalueLoop o f n p.tail (append o hsa ⟨p, 1⟩ highlightDelimiter) (Cursor.start p.tail)
    else multivalueLoop o f n p.tail hsa (cur.feed p b)

def highlightMultivalue (o : Str) (hsa : HighlightSpanArray) (s : StringSpan) (f : Field) :
    Option HighlightSpanArray := do
  let (hsa, cur) ← multivalueLoop o f s.len s.s hsa (Cursor.start s.s)
  if cur.lenAtLastSpace ≠ 0 then highlightMultivalueValue o hsa cur.token f
  else
    let last ← hsa.getLast?
    if last.t = highlightDelimiter then return hsa.dropLast ++ [{ last with t := highlightError }]
    return hsa

/-- The index of the last colon among `n` bytes, or zero. -/
def lastColon (s : StringSpan) : Nat → Option Nat
  | 0 => some 0
  | n + 1 => do if (← s.byteAt n) = colon then return n else lastColon s n

def highlightValue (o : Str) (hsa : HighlightSpanArray) (s : StringSpan) :
    Field → Option HighlightSpanArray
  | .privateKey => do return append o hsa s (validateHighlight (← s.isValidKey) highlightPrivateKey)
  | .publicKey => do return append o hsa s (validateHighlight (← s.isValidKey) highlightPublicKey)
  | .presharedKey => do
    return append o hsa s (validateHighlight (← s.isValidKey) highlightPresharedKey)
  | .mtu => do return append o hsa s (validateHighlight (← s.isValidMTU) highlightMTU)
  | .table => do return append o hsa s (validateHighlight (← s.isValidTable) highlightTable)
  | .preUp | .postUp | .preDown | .postDown =>
    some (append o hsa s (validateHighlight s.isValidPrePostUpDown highlightCmd))
  | .listenPort => do return append o hsa s (validateHighlight (← s.isValidPort) highlightPort)
  | .persistentKeepalive => do
    return append o hsa s (validateHighlight (← s.isValidPersistentKeepAlive) highlightKeepalive)
  | .endpoint => do
    if ← s.isValidWSURL then return append o hsa s highlightHost
    if !(← s.isValidEndpoint) then return append o hsa s highlightError
    let i ← lastColon s s.len
    let hsa := append o hsa ⟨s.s, i⟩ highlightHost
    let hsa := append o hsa ⟨s.s.drop i, 1⟩ highlightDelimiter
    return append o hsa ⟨s.s.drop (i + 1), s.len - i - 1⟩ highlightPort
  | .address => highlightMultivalue o hsa s .address
  | .dns => highlightMultivalue o hsa s .dns
  | .allowedIPs => highlightMultivalue o hsa s .allowedIPs
  | .wsMode => do return append o hsa s (validateHighlight (← s.isValidWSMode) highlightHost)
  | .wsTunnelTarget => do
    return append o hsa s (validateHighlight (← s.isValidEndpoint) highlightHost)
  | .wsBearer | .wsTLSCA | .wsTLSCert | .wsTLSKey =>
    some (append o hsa s (validateHighlight (s.len ≠ 0) highlightHost))
  | .wsMask | .wsTLSInsecure => do
    return append o hsa s (validateHighlight (← s.isValidWSBool) highlightHost)
  | .wsPingInterval | .wsBackoffMin | .wsBackoffMax => do
    return append o hsa s (validateHighlight (← s.isValidWSMillis) highlightKeepalive)
  | .interfaceSection | .peerSection | .invalid => some (append o hsa s highlightError)

inductive On
  | onNone
  | onKey
  | onValue
  | onComment
  | onSection
  deriving DecidableEq, Repr

structure HighlightState where
  ret : HighlightSpanArray
  cursor : Cursor
  currentSection : Field
  currentField : Field
  state : On
  equalsLocation : Str

def HighlightState.flush (o : Str) (st : HighlightState) : Option HighlightState :=
  match st.state with
  | .onNone => some st
  | .onKey => some { st with ret := append o st.ret st.cursor.token highlightError }
  | .onValue =>
    if st.cursor.currentSpan.len ≠ 0 then do
      let ret := append o st.ret ⟨st.equalsLocation, 1⟩ highlightDelimiter
      return { st with ret := ← highlightValue o ret st.cursor.token st.currentField }
    else some { st with ret := append o st.ret ⟨st.equalsLocation, 1⟩ highlightError }
  | .onSection => do
    let currentSection ← st.cursor.token.sectionType
    let t := validateHighlight (currentSection ≠ .invalid) highlightSection
    return { st with
      ret := append o st.ret st.cursor.token t
      currentSection := currentSection }
  | .onComment => some { st with ret := append o st.ret st.cursor.currentSpan highlightComment }

def HighlightState.step (o p : Str) (st : HighlightState) (b : UInt8) : Option HighlightState :=
  if b = newline ∨ st.state ≠ .onComment ∧ b = hash then do
    let st ← st.flush o
    if b = hash then
      return { st with cursor := ⟨⟨p, 1⟩, 0⟩, currentField := .invalid, state := .onComment }
    else return { st with cursor := .start p.tail, currentField := .invalid, state := .onNone }
  else if st.state = .onComment then
    let span := st.cursor.currentSpan
    some { st with cursor := ⟨⟨span.s, span.len + 1⟩, st.cursor.lenAtLastSpace⟩ }
  else if isBlank b then some { st with cursor := st.cursor.feed p b }
  else if b = equals ∧ st.state = .onKey then do
    let key := st.cursor.token
    let currentField ← key.field
    let sec := sectionForField currentField
    let t := if sec = .invalid ∨ currentField = .invalid ∨ sec ≠ st.currentSection
      then highlightError else highlightField
    return { st with
      ret := append o st.ret key t
      cursor := ⟨⟨p.tail, 0⟩, st.cursor.lenAtLastSpace⟩
      currentField := currentField
      state := .onValue
      equalsLocation := p }
  else
    let state := if st.state = .onNone then if b = openBracket then .onSection else .onKey
      else st.state
    some { st with cursor := st.cursor.feed p b, state := state }

def HighlightState.run (o : Str) : Str → Str → HighlightState → Option HighlightState
  | [], _, st => some st
  | b :: bs, q, st => do
    let st ← st.step o (b :: bs ++ q) b
    HighlightState.run o bs q st

def HighlightState.init (o : Str) : HighlightState where
  ret := []
  cursor := .start o
  currentSection := .invalid
  currentField := .invalid
  state := .onNone
  equalsLocation := o

def highlightConfig (config : Str) : Option (List HighlightSpan) := do
  let o := config ++ [0]
  let st ← HighlightState.run o config [0] (.init o)
  return (← st.flush o).ret

end WireGuardWindows.Syntax
