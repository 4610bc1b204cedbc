import WireGuardWindows.Conf.Bearer

/-!
# User information of endpoint URLs in error texts

An error about the URL of a peer quotes the URL without what stands between `://` and the
first slash behind the last `@`. The quoted URL is what the parser took for the value, and
that ends at the first `#` of the line: with a `#` in the user information the `@` is gone
before the URL is redacted.
-/

namespace WireGuardWindows.Conf
open GoStd Strings Unicode Loops

variable {urlParse : Str → Option URL} {scheme U R : Str}

def atSign : UInt8 := 0x40

def afterUserinfo (rest : Str) : Str :=
  match cutLast rest atSign with
  | some (_, t) => t
  | none => rest

def pathText (s : Str) : Str :=
  match cut s slash with
  | (_, path, true) => slash :: path
  | _ => []

theorem pathText_suffix (s : Str) :
    pathText s <:+ s ∧ (pathText s = [] ∨ (pathText s).head? = some slash) := by
  rw [pathText]
  rcases cut_cases s slash with ⟨-, hc⟩ | ⟨a, b, rfl, -, hc⟩
  · rw [hc]
    exact ⟨List.nil_suffix, Or.inl rfl⟩
  · rw [hc]
    exact ⟨List.suffix_append a _, Or.inr rfl⟩

theorem redactWSURL_append (h : colon ∉ scheme) (rest : Str) :
    redactWSURL (scheme ++ str "://" ++ rest) = scheme ++ str "://xxxxx" ++ pathText
      (afterUserinfo rest) := by
  have hcut := cutText_append (show (str "://").head? = some colon by decide) h rest
  simp only [redactWSURL, hcut]
  change (match cut (afterUserinfo rest) slash with
    | (_, path, true) => scheme ++ str "://xxxxx" ++ slash :: path
    | _ => scheme ++ str "://xxxxx") = _
  rw [pathText]
  rcases cut_cases (afterUserinfo rest) slash with ⟨-, hc⟩ | ⟨a, b, -, -, hc⟩
  · rw [hc, List.append_nil]
  · rw [hc]

theorem parseWSURL_error {s : Str} {e : Error} (h : parseWSURL urlParse s = .error e) :
    ∃ why, e = .parseError why (redactWSURL s) := by
  simp only [parseWSURL] at h
  cases hu : urlParse s with
  | none =>
    rw [hu] at h
    cases h
    exact ⟨_, rfl⟩
  | some u =>
    simp only [hu] at h
    split_ifs at h
    · cases h; exact ⟨_, rfl⟩
    · cases h; exact ⟨_, rfl⟩
    · cases h; exact ⟨_, rfl⟩
    · cases h; exact ⟨_, rfl⟩
    · split at h
      · cases h; exact ⟨_, rfl⟩
      · cases h
    · split at h
      · cases h; exact ⟨_, rfl⟩
      · cases h

def WSScheme (scheme : Str) : Prop :=
  scheme.map lowerByte = str "ws" ∨ scheme.map lowerByte = str "wss"

instance (scheme : Str) : Decidable (WSScheme scheme) :=
  inferInstanceAs (Decidable (scheme.map lowerByte = str "ws" ∨ scheme.map lowerByte = str "wss"))

def urlText (scheme U R : Str) : Str := scheme ++ str "://" ++ (U ++ atSign :: R)

def urlLine (scheme U R : Str) : Str := fieldText PeerKey.endpoint.name (urlText scheme U R)

theorem WSScheme.bytes (h : WSScheme scheme) :
    ∀ b ∈ scheme, lowerByte b = 0x77 ∨ lowerByte b = 0x73 := by
  intro b hb
  have hmem : lowerByte b ∈ scheme.map lowerByte := List.mem_map_of_mem hb
  have hws : ∀ c ∈ str "ws", c = 0x77 ∨ c = 0x73 := by decide +kernel
  have hwss : ∀ c ∈ str "wss", c = 0x77 ∨ c = 0x73 := by decide +kernel
  rcases h with h | h
  · exact hws _ (h ▸ hmem)
  · exact hwss _ (h ▸ hmem)

theorem schemeByte {b : UInt8} (h : lowerByte b = 0x77 ∨ lowerByte b = 0x73) :
    b < 0x80 ∧ [b] ∉ spaceRunes ∧ b ≠ hash ∧ b ≠ colon := by
  have hall : ∀ n < 256, lowerByte (UInt8.ofNat n) = 0x77 ∨ lowerByte (UInt8.ofNat n) = 0x73 →
      UInt8.ofNat n < 0x80 ∧ [UInt8.ofNat n] ∉ spaceRunes ∧ UInt8.ofNat n ≠ hash ∧
      UInt8.ofNat n ≠ colon := by
    decide +kernel
  have hb := hall b.toNat b.toNat_lt
  rw [UInt8.ofNat_toNat] at hb
  exact hb h

theorem WSScheme.noSpaceLeft (h : WSScheme scheme) (rest : Str) : NoSpaceLeft (scheme ++ rest) := by
  cases scheme with
  | nil => rcases h with h | h <;> exact absurd h (by decide)
  | cons b t =>
    obtain ⟨hb, hs, -⟩ := schemeByte (h.bytes b List.mem_cons_self)
    exact noSpaceLeft_cons hb hs (t ++ rest)

theorem WSScheme.noColon (h : WSScheme scheme) : colon ∉ scheme :=
  fun hmem => (schemeByte (h.bytes colon hmem)).2.2.2 rfl

theorem WSScheme.noHash (h : WSScheme scheme) : hash ∉ scheme ++ str "://" := by
  intro hmem
  rcases List.mem_append.mp hmem with hmem | hmem
  · exact (schemeByte (h.bytes hash hmem)).2.2.1 rfl
  · exact absurd hmem (by decide)

theorem WSScheme.isWSURL (h : WSScheme scheme) (rest : Str) :
    isWSURL (scheme ++ str "://" ++ rest) = true := by
  have hascii : ∀ b ∈ scheme ++ str "://", b < 0x80 := by
    intro b hb
    rcases List.mem_append.mp hb with hb | hb
    · exact (schemeByte (h.bytes b hb)).1
    · have hall : ∀ c ∈ str "://", c < 0x80 := by decide +kernel
      exact hall b hb
  have hlower := isPrefix_toLower_append hascii rest
  have hsep : (str "://").map lowerByte = str "://" := by decide
  rw [List.map_append, hsep] at hlower
  rw [Conf.isWSURL, Bool.or_eq_true, List.isPrefixOf_iff_prefix, List.isPrefixOf_iff_prefix]
  rcases h with h | h
  · rw [h] at hlower
    exact Or.inl hlower
  · rw [h] at hlower
    exact Or.inr hlower

def keptRest (U R : Str) : Str :=
  if hash ∈ U then trimRightSpace (cut U hash).1 else U ++ atSign :: trimRightSpace (cut R hash).1

theorem trimSpace_urlText (h : WSScheme scheme) (U R : Str) :
    trimSpace (cut (urlText scheme U R) hash).1 = scheme ++ str "://" ++ keptRest U R := by
  have hcut : (cut (urlText scheme U R) hash).1 = scheme ++ str "://" ++
      (cut (U ++ atSign :: R) hash).1 :=
    congrArg Prod.fst (cut_append_left h.noHash _)
  have hright : ∀ Y : Str, trimSpace (scheme ++ str "://" ++ Y) = scheme ++ str "://" ++
      trimRightSpace Y := by
    intro Y
    have htext : ∀ Y : Str, scheme ++ str "://" ++ Y = (scheme ++ str ":/") ++ slash :: Y := by
      intro Y
      have hsep : str "://" = str ":/" ++ [slash] := by decide
      rw [hsep, ← List.append_assoc, List.append_assoc _ [slash], List.singleton_append]
    have hleft : NoSpaceLeft (scheme ++ str "://" ++ Y) := by
      rw [List.append_assoc]
      exact h.noSpaceLeft _
    rw [trimSpace, trimLeftSpace_eq_self hleft, htext,
      trimRightSpace_append (by decide) (by decide), htext]
  rw [hcut, hright, keptRest]
  split_ifs with hmem
  · obtain ⟨a, b, rfl, ha⟩ := List.eq_append_cons_of_mem hmem
    have hassoc : a ++ hash :: b ++ atSign :: R = a ++ hash :: (b ++ atSign :: R) :=
      List.append_assoc _ _ _
    rw [hassoc, cut_append ha, cut_append ha]
  · have hat : (cut (atSign :: R) hash).1 = atSign :: (cut R hash).1 :=
      congrArg Prod.fst (cut_append_left (show hash ∉ [atSign] by decide) R)
    rw [cut_append_left hmem, hat, trimRightSpace_append (by decide) (by decide)]

def isHeader (line : Str) : Bool :=
  ((lexLine line).key == str "[interface]" || (lexLine line).key == str "[peer]") &&
    !(lexLine line).hasValue

/-- The error that the parse of the lines ends in is one about the URL of this line: it
comes up at the line, or the peer is finished without another `Endpoint` and its check
of the URL fails. -/
inductive Raised (urlParse : Str → Option URL) (name : Str) (pre : List Str) (line : Str)
    (post : List Str) :
    Error → Prop
  | atLine {st : ParserState} {e : Error}
    (hpre : pre.foldlM (parseLine urlParse) { conf := { name := name } } = .ok st)
    (hst : st.state.isPeer = true) (hline : parseLine urlParse st line = .error e) :
    Raised urlParse name pre line post e
  | atFinish {st st' : ParserState} {body rest : List Str} {off : Str} (hpost : post = body ++ rest)
    (hpre : pre.foldlM (parseLine urlParse) { conf := { name := name } } = .ok st)
    (hst : st.state.isPeer = true)
    (hbody : ∀ l ∈ body, isHeader l = false ∧ (lexLine l).key ≠ PeerKey.endpoint.lower)
    (hrun : (line :: body).foldlM (parseLine urlParse) st = .ok st')
    (hend : ∀ l ∈ rest.head?, isHeader l = true)
    (hfin : st'.finishPeer = .error (.parseError "A WebSocket endpoint requires WSMode" off)) :
    Raised urlParse name pre line post (.parseError "A WebSocket endpoint requires WSMode" off)

theorem exists_of_isPeer {s : Section} (h : s.isPeer = true) :
    ∃ p wsKeys, s = .inPeerSection p wsKeys := by
  cases s with
  | notInASection => cases h
  | inInterfaceSection => cases h
  | inPeerSection p wsKeys => exact ⟨p, wsKeys, rfl⟩

theorem parseLine_urlLine (h : WSScheme scheme) {st : ParserState} {p : Peer} {wsKeys : List Str}
    (hst : st.state = .inPeerSection p wsKeys) :
    ∃ comment, parseLine urlParse st (urlLine scheme U R) = do
      let e ← parseWSURL urlParse (scheme ++ str "://" ++ keptRest U R)
      return { st with
        state := .inPeerSection { p with
          comments := p.comments.attach .endpoint st.pendingComments comment
          endpoint := e
          wsURL := scheme ++ str "://" ++ keptRest U R } wsKeys
        pendingComments := [] } := by
  have hlex := lexLine_anyField PeerKey.endpoint.keyName (urlText scheme U R)
  obtain ⟨hkey, hval, hblank⟩ := lexLine_script PeerKey.endpoint.keyName (urlText scheme U R)
  have hline : KeyLine (urlLine scheme U R) := ⟨hblank, fun h => h.2 hval, fun h => h.2 hval⟩
  have hscript : PeerKey.endpoint.lower ∉ scriptKeys := by decide
  have hvalue : (valueOf (urlLine scheme U R) (lexLine (urlLine scheme U R))).1 =
      scheme ++ str "://" ++ keptRest U R := by
    rw [valueOf, urlLine, hlex, if_neg hscript, trimSpace_trimRightSpace_cons, trimSpace_urlText h]
  have hne : scheme ++ str "://" ++ keptRest U R ≠ [] := by
    rw [List.append_assoc]
    exact List.append_ne_nil_of_right_ne_nil _ (List.append_ne_nil_of_left_ne_nil (by decide) _)
  have hin : st.state ≠ .notInASection := by
    rw [hst]
    intro heq
    cases heq
  have hof := PeerKey.endpoint.ofLower_lower
  refine ⟨(valueOf (urlLine scheme U R) (lexLine (urlLine scheme U R))).2, ?_⟩
  have hkey' : (lexLine (urlLine scheme U R)).key = PeerKey.endpoint.lower := hkey
  have hval' : (lexLine (urlLine scheme U R)).hasValue = true := hval
  rw [parseLine_inside hline hin, hvalue, if_neg hne, if_neg (not_not.mpr hval'),
    ParserState.setKey, hst]
  simp only [hkey', hof, Peer.set, if_pos (h.isWSURL (keptRest U R))]
  cases parseWSURL urlParse (scheme ++ str "://" ++ keptRest U R) with
  | error e => rfl
  | ok e =>
    have hkeys : wsKeys ++ PeerKey.endpoint.wsKeyName.toList = wsKeys := List.append_nil wsKeys
    change Except.ok _ = Except.ok _
    rw [hkeys]

theorem set_wsURL {p p' : Peer} {val : Str} {k : PeerKey} (hk : k ≠ .endpoint)
    (h : Peer.set urlParse p val k = .ok p') : p'.wsURL = p.wsURL := by
  cases k with
  | endpoint => exact absurd rfl hk
  | wsBearer | wsTLSCA | wsTLSCert | wsTLSKey =>
    cases h
    rfl
  | allowedIPs =>
    obtain ⟨texts, -, h⟩ := bind_eq_ok h
    obtain ⟨ips, -, h⟩ := bind_eq_ok h
    cases h
    rfl
  | wsTunnelTarget =>
    simp only [Peer.set] at h
    cases hp : parseEndpoint val with
    | error e => rw [hp] at h; cases h
    | ok e =>
      rw [hp] at h
      cases h
      rfl
  | _ =>
    obtain ⟨x, -, h⟩ := bind_eq_ok h
    cases h
    rfl

def HasURL (url : Str) (st : ParserState) : Prop :=
  ∃ p wsKeys, st.state = .inPeerSection p wsKeys ∧ p.wsURL = url

theorem HasURL.step {url line : Str} {st st' : ParserState} (h : HasURL url st)
    (hline : isHeader line = false ∧ (lexLine line).key ≠ PeerKey.endpoint.lower)
    (hstep : ParseStep urlParse st line st') : HasURL url st' := by
  obtain ⟨p, wsKeys, hst, hurl⟩ := h
  cases hstep with
  | blank hs => exact ⟨p, wsKeys, hst, hurl⟩
  | interface hs hkey hval hfin | peer hs hkey hval hfin =>
    have hheader := hline.1
    rw [isHeader, hkey, hval] at hheader
    exact absurd hheader (by decide)
  | interfaceKey hs hval hstate hk hne hset =>
    rw [hst] at hstate
    cases hstate
  | @peerKey q q' keys k hs hval hstate hk hne hset =>
    rw [hst] at hstate
    cases hstate
    have hne' : k ≠ .endpoint := by
      rintro rfl
      exact hline.2 (PeerKey.lower_of_ofLower hk).symm
    exact ⟨q', _, rfl, (set_wsURL hne' hset).trans hurl⟩

theorem finishPeer_requiresWSMode {st : ParserState} {url off : Str} (h : HasURL url st)
    (hfin : st.finishPeer = .error (.parseError "A WebSocket endpoint requires WSMode" off)) :
    off = redactWSURL url := by
  obtain ⟨p, wsKeys, hst, rfl⟩ := h
  rw [ParserState.finishPeer, hst] at hfin
  have hvalid : validateWebSocketPeer p wsKeys =
      .error (.parseError "A WebSocket endpoint requires WSMode" off) := by
    cases hv : validateWebSocketPeer p wsKeys with
    | error e =>
      simp only [hv] at hfin
      exact congrArg Except.error (Except.error.inj hfin)
    | ok u =>
      simp only [hv] at hfin
      cases hfin
  simp only [validateWebSocketPeer] at hvalid
  split_ifs at hvalid
  · cases hvalid
    rfl
  all_goals simp at hvalid

def shownUserinfo (U : Str) : Str := pathText (afterUserinfo (trimRightSpace (cut U hash).1))

/-- The offender shows the scheme and at most a piece of `R` that begins with a slash. -/
def Redacted (scheme R : Str) : Error → Prop
  | .parseError _ off => ∃ t, t <:+: R ∧ (t = [] ∨ t.head? = some slash) ∧
  off = scheme ++ str "://xxxxx" ++ t
  | .numError _ _ _ | .parseNumError _ _ _ _ => False

theorem Raised.offender (h : WSScheme scheme) {name : Str} {pre post : List Str} {e : Error}
    (he : Raised urlParse name pre (urlLine scheme U R) post e) :
    ∃ why, e = .parseError why (redactWSURL (scheme ++ str "://" ++ keptRest U R)) := by
  cases he with
  | @atLine st _ hpre hst hline =>
    obtain ⟨p, wsKeys, hst⟩ := exists_of_isPeer hst
    obtain ⟨comment, hparse⟩ := @parseLine_urlLine urlParse scheme U R h st p wsKeys hst
    rw [hparse] at hline
    cases hurl : parseWSURL urlParse (scheme ++ str "://" ++ keptRest U R) with
    | error e' =>
      rw [hurl] at hline
      cases hline
      exact parseWSURL_error hurl
    | ok e' =>
      rw [hurl] at hline
      cases hline
  | @atFinish st st' body rest off hpost hpre hst hbody hrun hend hfin =>
    obtain ⟨p, wsKeys, hst⟩ := exists_of_isPeer hst
    obtain ⟨comment, hparse⟩ := @parseLine_urlLine urlParse scheme U R h st p wsKeys hst
    obtain ⟨st₁, hfirst, hrun⟩ := bind_eq_ok hrun
    rw [hparse] at hfirst
    obtain ⟨e', -, hfirst⟩ := bind_eq_ok hfirst
    cases hfirst
    refine ⟨_, congrArg _ (finishPeer_requiresWSMode ?_ hfin)⟩
    refine foldlM_invariant (HasURL _) ?_ ⟨_, _, rfl, rfl⟩ hrun
    intro s line s' hmem hs hstep
    exact hs.step (hbody line hmem) (parseLine_step hstep)

theorem newline_notMem_urlLine (h : WSScheme scheme) (hU : newline ∉ U) (hR : newline ∉ R) :
    newline ∉ urlLine scheme U R := by
  have hkey := PeerKey.endpoint.keyName.oneLine
  have hscheme : newline ∉ scheme := by
    intro hmem
    exact absurd (h.bytes newline hmem) (by decide)
  rw [urlLine, fieldText_eq, urlText]
  simp only [List.mem_append, List.mem_cons]
  rintro (h | h | h | h | (h | h) | h | h | h)
  · exact hkey h
  · exact absurd h (by decide)
  · exact absurd h (by decide)
  · exact absurd h (by decide)
  · exact hscheme h
  · exact absurd h (by decide)
  · exact hU h
  · exact absurd h (by decide)
  · exact hR h

/-- In a section of its own the line always leads to an error about its URL: without
`WSMode` the check at the end of the section fails at the latest. -/
theorem exists_raised (urlParse : Str → Option URL) (h : WSScheme scheme) (hU : newline ∉ U)
    (hR : newline ∉ R) :
    ∃ e, fromWgQuick urlParse (textOf ([str "[Peer]"] ++ urlLine scheme U R :: []))
      (str "tun") = .error e ∧
      Raised urlParse (str "tun") [str "[Peer]"] (urlLine scheme U R) [] e := by
  have hsplit : (textOf ([str "[Peer]"] ++ urlLine scheme U R :: [])).splitOn newline =
      [str "[Peer]"] ++ urlLine scheme U R :: [] := by
    refine splitOn_textOf ?_ (List.cons_ne_nil _ _)
    rw [List.forall_mem_append, List.forall_mem_singleton, List.forall_mem_singleton]
    exact ⟨by decide, newline_notMem_urlLine h hU hR⟩
  obtain ⟨st, p, hpre, hst, hmode⟩ : ∃ st p,
      [str "[Peer]"].foldlM (parseLine urlParse) { conf := { name := str "tun" } } = .ok st ∧
        st.state = .inPeerSection p [] ∧ p.wsMode = .none := ⟨_, _, rfl, rfl, rfl⟩
  have hpeer : st.state.isPeer = true := by rw [hst]; rfl
  have hname : tunnelNameIsValid (str "tun") = true := by decide
  obtain ⟨comment, hparse⟩ := @parseLine_urlLine urlParse scheme U R h st p [] hst
  have hrun : fromWgQuick urlParse (textOf ([str "[Peer]"] ++ urlLine scheme U R :: []))
    (str "tun") =
      (parseLine urlParse st (urlLine scheme U R) >>= fun st => do
        let conf ← st.finishPeer
        let conf := conf.pruned st.pendingComments
        if ¬ st.sawPrivateKey then
          .error (.parseError "An interface must have a private key" (str "[none specified]"))
        else if conf.peers.any (·.publicKey.isZero) then
          .error (.parseError "All peers must have public keys" (str "[none specified]"))
        else return conf) := by
    rw [fromWgQuick, if_neg (not_not.mpr hname), hsplit, foldlM_after hpre]
    cases parseLine urlParse st (urlLine scheme U R) with
    | error e => rfl
    | ok st => rfl
  cases hurl : parseWSURL urlParse (scheme ++ str "://" ++ keptRest U R) with
  | error e =>
    rw [hurl] at hparse
    refine ⟨e, ?_, .atLine hpre hpeer hparse⟩
    rw [hrun, hparse]
    rfl
  | ok e =>
    rw [hurl] at hparse
    have hne : scheme ++ str "://" ++ keptRest U R ≠ [] := by
      rw [List.append_assoc]
      exact List.append_ne_nil_of_right_ne_nil _ (List.append_ne_nil_of_left_ne_nil (by decide) _)
    have hline := hparse
    obtain ⟨st₁, hst₁⟩ : ∃ st₁, parseLine urlParse st (urlLine scheme U R) = .ok st₁ := ⟨_, hparse⟩
    have hfin : st₁.finishPeer = .error (.parseError "A WebSocket endpoint requires WSMode"
        (redactWSURL (scheme ++ str "://" ++ keptRest U R))) := by
      rw [hst₁] at hline
      cases hline
      rw [ParserState.finishPeer]
      simp only [validateWebSocketPeer, hmode, and_true, ne_eq, hne, not_false_eq_true, if_true]
      rfl
    refine ⟨_, ?_, @Raised.atFinish _ _ _ _ _ st st₁ [] [] _ rfl hpre hpeer ?_ ?_ ?_ hfin⟩
    · rw [hrun, hst₁]
      change (st₁.finishPeer >>= _) = _
      rw [hfin]
      rfl
    · intro l hl
      cases hl
    · rw [List.foldlM_cons, hst₁]
      rfl
    · intro l hl
      cases hl

/-- Nothing of the user information is revealed unless it contains a `#` and, before that, a
slash that is not followed by an `@`. -/
theorem url_errors_redacted_iff (urlParse : Str → Option URL) (h : WSScheme scheme)
    (hU : newline ∉ U) (hR : newline ∉ R) (hat : atSign ∉ R) :
    (∀ name pre post e, (∀ l ∈ pre ++ post, newline ∉ l) →
      fromWgQuick urlParse (textOf (pre ++ urlLine scheme U R :: post)) name = .error e →
      Raised urlParse name pre (urlLine scheme U R) post e → Redacted scheme R e) ↔
      (hash ∈ U → shownUserinfo U <:+: R) := by
  constructor
  · intro hall hhash
    obtain ⟨e, hrun, hraised⟩ := exists_raised urlParse h hU hR
    have hred := hall _ _ _ e (by decide) hrun hraised
    obtain ⟨why, rfl⟩ := hraised.offender h
    obtain ⟨t, ht, -, heq⟩ := hred
    rw [redactWSURL_append h.noColon, List.append_cancel_left_eq, keptRest, if_pos hhash] at heq
    rwa [shownUserinfo, heq]
  · intro hcond name pre post e _ _ hraised
    obtain ⟨why, rfl⟩ := hraised.offender h
    refine ⟨pathText (afterUserinfo (keptRest U R)), ?_, (pathText_suffix _).2,
      redactWSURL_append h.noColon _⟩
    by_cases hhash : hash ∈ U
    · rw [keptRest, if_pos hhash]
      exact hcond hhash
    · have hkept : trimRightSpace (cut R hash).1 <+: R :=
        (trimRightSpace_isPrefix _).trans (cut_isPrefix R hash)
      have hafter : afterUserinfo (U ++ atSign :: trimRightSpace (cut R hash).1) =
          trimRightSpace (cut R hash).1 := by
        rw [afterUserinfo, cutLast_append fun hmem => hat (hkept.subset hmem)]
      rw [keptRest, if_neg hhash, hafter]
      exact (pathText_suffix _).1.isInfix.trans hkept.isInfix

theorem url_errors_redacted_iff_slashes :
    ∃ e, fromWgQuick (fun _ => none)
        (textOf ([str "[Peer]"] ++ urlLine (str "WSS") (str "user:p/w?@x")
          (str "host:80/path") :: [])) (str "tun") =
        .error e ∧ Redacted (str "WSS") (str "host:80/path") e := by
  have hscheme : WSScheme (str "WSS") := by decide
  obtain ⟨e, hrun, hraised⟩ := exists_raised (fun _ => none) hscheme
    (show newline ∉ str "user:p/w?@x" by decide) (show newline ∉ str "host:80/path" by decide)
  refine ⟨e, hrun, ?_⟩
  exact (url_errors_redacted_iff (fun _ => none) hscheme (by decide) (by decide) (by decide)).mpr
    (fun hmem => absurd hmem (by decide)) _ _ _ e (by decide) hrun hraised

def withoutPort (s : Str) : Option URL :=
  if s = str "ws://u/secret" then
    some ⟨str "ws", [], false, str "/secret", [], false, [], str "u", []⟩
  else none

theorem url_error_shows_userinfo :
    fromWgQuick withoutPort (str "[Peer]\nEndpoint = ws://u/secret#pass@host:80/x") (str "tun") =
        .error (.parseError "Invalid WebSocket endpoint URL" (str "ws://xxxxx/secret")) ∧
      ¬ Redacted (str "ws") (str "host:80/x")
        (.parseError "Invalid WebSocket endpoint URL" (str "ws://xxxxx/secret")) := by
  constructor
  · decide +kernel
  · rintro ⟨t, ht, -, heq⟩
    have hsplit : str "ws://xxxxx/secret" = str "ws" ++ str "://xxxxx" ++ str "/secret" := by decide
    rw [hsplit, List.append_cancel_left_eq] at heq
    subst heq
    exact absurd ht (by decide)

end WireGuardWindows.Conf
