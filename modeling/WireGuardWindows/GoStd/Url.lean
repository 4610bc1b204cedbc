import WireGuardWindows.GoStd.NetipText
import WireGuardWindows.GoStd.Unicode

/-!
# The `net/url` package

`Parse`, with the host and port of the result taken apart as `Hostname` and `Port` do. Only
whether an escape is accepted differs between the parts of a URL: in a host and in the zone
of an address few bytes may stand for themselves and fewer may be escaped. A host in
brackets must be an IPv6 address, and outside brackets a colon starts the port.
-/

namespace GoStd.Url
open Strings Strconv Netip Unicode

def question : UInt8 := 0x3F
def atSign : UInt8 := 0x40

/-- The modes `unescape` distinguishes; paths, fragments and user names are alike to it. -/
inductive Mode
  | host
  | zone
  | other
  deriving DecidableEq

def isAlpha (b : UInt8) : Bool := (0x61 ≤ b && b ≤ 0x7A) || (0x41 ≤ b && b ≤ 0x5A)

def hostBytes : Str := str "!$&'()*+,;=:[]<>\"-_.~"

def shouldEscape (b : UInt8) : Bool := !(isAlpha b || isDigit b || hostBytes.contains b)

def unescape (mode : Mode) : Str → Option Str
  | [] => some []
  | b :: t =>
    if b = percent then
      match t with
      | x :: y :: rest =>
        match hexValue x, hexValue y with
        | some hi, some lo =>
          -- an escaped percent sign is accepted everywhere
          let isPercent := x = 0x32 ∧ y = 0x35
          let v := (hi * 16 + lo).toUInt8
          if mode = .host ∧ hi < 8 ∧ ¬ isPercent then none
          else if mode = .zone ∧ ¬ isPercent ∧ v ≠ 0x20 ∧ shouldEscape v then none
          else (unescape mode rest).map (v :: ·)
        | _, _ => none
      | _ => none
    else if mode ≠ .other ∧ b < 0x80 ∧ shouldEscape b then none
    else (unescape mode t).map (b :: ·)

def validOptionalPort : Str → Bool
  | [] => true
  | b :: digits => b == colon && digits.all isDigit

def unescapeLiteral (name : Str) : Option Str :=
  match cutText (str "%25") name with
  | some (address, zone) => do
    return (← unescape .host address) ++ (← unescape .zone (str "%25" ++ zone))
  | none => unescape .host name

def parseHost (host : Str) : Option Str :=
  match cutLast host openBracket with
  | some (before, literal) =>
    if before ≠ [] then none
    else match cutLast literal closeBracket with
      | none => none
      | some (name, colonPort) =>
        if !validOptionalPort colonPort then none
        else do
          let port ← unescape .host colonPort
          let name ← unescapeLiteral name
          match parseAddr name with
          | some (.v6 _ _) => some (openBracket :: name ++ closeBracket :: port)
          | _ => none
  | none =>
    match cut host colon with
    | (_, port, true) => if port.all isDigit then unescape .host host else none
    | _ => unescape .host host

def validUserinfo (s : Str) : Bool :=
  s.all fun b => isAlpha b || isDigit b || (str "-._:~!$&'()*+,;=%@").contains b

def parseAuthority (authority : Str) : Option (Bool × Str) :=
  match cutLast authority atSign with
  | none => (parseHost authority).map (false, ·)
  | some (userinfo, host) => do
    let host ← parseHost host
    if !validUserinfo userinfo then none
    else
      let _ ← unescape .other (cut userinfo colon).1
      let _ ← unescape .other (cut userinfo colon).2.1
      return (true, host)

def isSchemeByte (b : UInt8) : Bool := isAlpha b || isDigit b || (str "+-.").contains b

def getScheme (rawURL : Str) : Option (Str × Str) :=
  match rawURL.dropWhile isSchemeByte with
  | b :: rest =>
    if b = colon then
      match rawURL.takeWhile isSchemeByte with
      | [] => none
      | c :: scheme => if isAlpha c then some (c :: scheme, rest) else some ([], rawURL)
    else some ([], rawURL)
  | [] => some ([], rawURL)

structure URL where
  scheme : Str := []
  opaqueData : Str := []
  hasUser : Bool := false
  host : Str := []
  path : Str := []
  rawQuery : Str := []
  forceQuery : Bool := false
  fragment : Str := []

def isControl (b : UInt8) : Bool := b < 0x20 || b == 0x7F

/-- `parse`, for a URL that did not come with a request. -/
def parseBody (rawURL : Str) : Option URL :=
  if rawURL.any isControl then none
  else if rawURL = str "*" then some { path := str "*" }
  else do
    let (scheme, rest) ← getScheme rawURL
    let scheme := toLower scheme
    let forceQuery := rest.getLast? = some question ∧ rest.count question = 1
    let rawQuery := if forceQuery then [] else (cut rest question).2.1
    let rest := (cut rest question).1
    let url : URL := { scheme, rawQuery, forceQuery }
    if rest.head? ≠ some slash ∧ scheme ≠ [] then return { url with opaqueData := rest }
    else if rest.head? ≠ some slash ∧ colon ∈ (cut rest slash).1 then none
    else if (scheme ≠ [] ∨ ¬ (str "///").isPrefixOf rest) ∧ (str "//").isPrefixOf rest then
      let (hasUser, host) ← parseAuthority ((rest.drop 2).takeWhile (· ≠ slash))
      let path ← unescape .other ((rest.drop 2).dropWhile (· ≠ slash))
      return { url with hasUser, host, path }
    else return { url with path := ← unescape .other rest }

def parse (rawURL : Str) : Option URL := do
  let url ← parseBody (cut rawURL hash).1
  return { url with fragment := ← unescape .other (cut rawURL hash).2.1 }

def splitHostPort (host : Str) : Str × Str :=
  let (name, port) := match cutLast host colon with
    | some (name, port) => if port.all isDigit then (name, port) else (host, [])
    | none => (host, [])
  if name.head? = some openBracket ∧ name.getLast? = some closeBracket then
    ((name.drop 1).dropLast, port)
  else (name, port)

def URL.hostname (u : URL) : Str := (splitHostPort u.host).1

def URL.port (u : URL) : Str := (splitHostPort u.host).2

theorem hexValue_lt {b : UInt8} {n : Nat} (h : hexValue b = some n) : n < 16 := by
  have hall : ((List.range 256).map Nat.toUInt8).all (fun b =>
      (hexValue b).all (fun n => decide (n < 16))) = true := by decide +kernel
  have hmem : b ∈ (List.range 256).map Nat.toUInt8 :=
    List.mem_map.mpr ⟨b.toNat, List.mem_range.mpr b.toNat_lt, UInt8.ofNat_toNat⟩
  have hb := List.all_eq_true.mp hall b hmem
  rw [h] at hb
  simpa using hb

theorem unescaped_ne_newline {mode : Mode} (hmode : mode ≠ .other) {x y : UInt8} {hi lo : Nat}
    (hx : hexValue x = some hi) (hy : hexValue y = some lo)
    (hhost : ¬ (mode = .host ∧ hi < 8 ∧ ¬ (x = 0x32 ∧ y = 0x35)))
    (hzone : ¬ (mode = .zone ∧ ¬ (x = 0x32 ∧ y = 0x35) ∧ (hi * 16 + lo).toUInt8 ≠ 0x20 ∧
      shouldEscape (hi * 16 + lo).toUInt8 = true)) : (hi * 16 + lo).toUInt8 ≠ newline := by
  intro hv
  have hlo := hexValue_lt hy
  have hhi := hexValue_lt hx
  have hnat : hi * 16 + lo = 10 := by
    have := congrArg UInt8.toNat hv
    simp only [Nat.toUInt8, UInt8.toNat_ofNat', newline] at this
    change (hi * 16 + lo) % 256 = 10 at this
    omega
  have hpercent : ¬ (x = 0x32 ∧ y = 0x35) := by
    rintro ⟨rfl, rfl⟩
    have hx' : hexValue 0x32 = some 2 := by decide
    rw [hx'] at hx
    cases hx
    omega
  cases mode with
  | host => exact hhost ⟨rfl, by omega, hpercent⟩
  | zone =>
    apply hzone
    rw [hv]
    exact ⟨rfl, hpercent, by decide, by decide⟩
  | other => exact hmode rfl

theorem unescape_oneLine {mode : Mode} (hmode : mode ≠ .other) {s t : Str}
    (h : unescape mode s = some t) : newline ∉ t := by
  fun_induction unescape mode s generalizing t with
  | case1 =>
    cases h
    exact List.not_mem_nil
  | case2 => cases h
  | case3 => cases h
  | case4 =>
    rename_i x y rest hi lo hy hx isPercent v hhost hzone ih
    obtain ⟨t', ht', rfl⟩ := Option.map_eq_some_iff.mp h
    rw [List.mem_cons, not_or]
    exact ⟨(unescaped_ne_newline hmode hx hy hhost hzone).symm, ih ht'⟩
  | case5 => cases h
  | case6 => cases h
  | case7 => cases h
  | case8 b t hpercent hplain ih =>
    obtain ⟨t', ht', rfl⟩ := Option.map_eq_some_iff.mp h
    rw [List.mem_cons, not_or]
    refine ⟨?_, ih ht'⟩
    rintro rfl
    exact hplain ⟨hmode, by decide, by decide⟩

theorem parseHost_oneLine {s host : Str} (h : parseHost s = some host) : newline ∉ host := by
  have hunescape : ∀ {mode : Mode} {s t : Str}, mode ≠ .other → unescape mode s = some t →
      newline ∉ t := fun hmode ht => unescape_oneLine hmode ht
  unfold parseHost at h
  split at h
  · split_ifs at h
    split at h
    · cases h
    split_ifs at h
    obtain ⟨port, hport, h⟩ := Option.bind_eq_some_iff.mp h
    obtain ⟨name, hname, h⟩ := Option.bind_eq_some_iff.mp h
    have hline : newline ∉ name := by
      unfold unescapeLiteral at hname
      split at hname
      · obtain ⟨address, haddress, hname⟩ := Option.bind_eq_some_iff.mp hname
        obtain ⟨zone, hzone, hname⟩ := Option.bind_eq_some_iff.mp hname
        cases hname
        rw [List.mem_append, not_or]
        exact ⟨hunescape (by decide) haddress, hunescape (by decide) hzone⟩
      · exact hunescape (by decide) hname
    split at h
    · cases h
      have hportLine : newline ∉ port := hunescape (by decide) hport
      have hopen : newline ≠ openBracket := by decide
      have hclose : newline ≠ closeBracket := by decide
      simp only [List.cons_append, List.mem_cons, List.mem_append, not_or]
      exact ⟨hopen, hline, hclose, hportLine⟩
    · cases h
  · split at h
    · split_ifs at h
      exact hunescape (by decide) h
    · exact hunescape (by decide) h

theorem splitHostPort_oneLine {host : Str} (h : newline ∉ host) :
    newline ∉ (splitHostPort host).1 ∧ newline ∉ (splitHostPort host).2 := by
  have hcut : ∀ name port, (match cutLast host colon with
      | some (name, port) => if port.all isDigit then (name, port) else (host, [])
      | none => (host, [])) = (name, port) → newline ∉ name ∧ newline ∉ port := by
    intro name port hp
    split at hp
    · rename_i name' port' hsome
      obtain ⟨hhost, -⟩ := cutLast_eq_some hsome
      split_ifs at hp
      · cases hp
        rw [hhost] at h
        exact ⟨fun hm => h (List.mem_append_left _ hm),
          fun hm => h (List.mem_append_right _ (List.mem_cons_of_mem _ hm))⟩
      · cases hp
        exact ⟨h, List.not_mem_nil⟩
    · cases hp
      exact ⟨h, List.not_mem_nil⟩
  unfold splitHostPort
  generalize hp : (match cutLast host colon with
      | some (name, port) => if port.all isDigit then (name, port) else (host, [])
      | none => (host, [])) = p
  obtain ⟨name, port⟩ := p
  obtain ⟨hname, hport⟩ := hcut name port hp
  dsimp only
  split_ifs
  · exact ⟨fun hm => hname (List.mem_of_mem_drop (List.dropLast_subset _ hm)), hport⟩
  · exact ⟨hname, hport⟩

theorem parseAuthority_oneLine {s host : Str} {hasUser : Bool}
    (h : parseAuthority s = some (hasUser, host)) : newline ∉ host := by
  unfold parseAuthority at h
  split at h
  · obtain ⟨host', hhost, h⟩ := Option.map_eq_some_iff.mp h
    cases h
    exact parseHost_oneLine hhost
  · obtain ⟨host', hhost, h⟩ := Option.bind_eq_some_iff.mp h
    split_ifs at h
    obtain ⟨_, -, h⟩ := Option.bind_eq_some_iff.mp h
    obtain ⟨_, -, h⟩ := Option.bind_eq_some_iff.mp h
    cases h
    exact parseHost_oneLine hhost

theorem parseBody_oneLine {s : Str} {u : URL} (h : parseBody s = some u) : newline ∉ u.host := by
  unfold parseBody at h
  split_ifs at h
  · cases h
    exact List.not_mem_nil
  obtain ⟨⟨scheme, rest⟩, -, h⟩ := Option.bind_eq_some_iff.mp h
  dsimp only at h
  generalize (if rest.getLast? = some question ∧ rest.count question = 1 then ([] : Str)
    else (cut rest question).2.1) = rawQuery at h
  -- a URL without an authority has no host
  split_ifs at h
  · cases h
    exact List.not_mem_nil
  · obtain ⟨⟨hasUser, host⟩, hhost, h⟩ := Option.bind_eq_some_iff.mp h
    obtain ⟨path, -, h⟩ := Option.bind_eq_some_iff.mp h
    cases h
    exact parseAuthority_oneLine hhost
  · obtain ⟨path, -, h⟩ := Option.bind_eq_some_iff.mp h
    cases h
    exact List.not_mem_nil

theorem parse_oneLine {s : Str} {u : URL} (h : parse s = some u) :
    newline ∉ u.hostname ∧ newline ∉ u.port := by
  obtain ⟨url, hurl, h⟩ := Option.bind_eq_some_iff.mp h
  obtain ⟨fragment, -, h⟩ := Option.bind_eq_some_iff.mp h
  cases h
  have hhost := parseBody_oneLine hurl
  exact splitHostPort_oneLine hhost

example : (parse (str "wss://[fe80::1%25eth0]:443/ws?q#f")).map
    (fun u => (u.scheme, u.hostname, u.port)) =
    some (str "wss", str "fe80::1%eth0", str "443") := by decide +kernel

end GoStd.Url
