import WireGuardWindows.Conf.Accepted

/-!
# WebSocket settings of accepted peers

What `validateWebSocketPeer` checks at the end of a section, together with what the loop
has kept until then, makes the WebSocket fields of a peer consistent. A text with a
WebSocket setting of any peer has a WebSocket peer.
-/

namespace WireGuardWindows.Conf
open GoStd Strings Loops

variable {urlParse : Str → Option URL}

structure Peer.NoWebSocket (p : Peer) : Prop where
  wsMode : p.wsMode = .none
  wsURL : p.wsURL = []
  wsTunnelTarget : p.wsTunnelTarget = []
  wsBearer : p.wsBearer = []
  wsMask : p.wsMask = false
  wsTLSCA : p.wsTLSCA = []
  wsTLSCert : p.wsTLSCert = []
  wsTLSKey : p.wsTLSKey = []
  wsTLSInsecure : p.wsTLSInsecure = false
  wsPingInterval : p.wsPingInterval = 0
  wsBackoffMin : p.wsBackoffMin = 0
  wsBackoffMax : p.wsBackoffMax = 0

structure Peer.WebSocketWellFormed (urlParse : Str → Option URL) (p : Peer) : Prop where
  url : p.wsURL ≠ [] → p.wsMode ≠ .none ∧ parseWSURL urlParse p.wsURL = .ok p.endpoint
  endpoint : p.wsMode ≠ .none → p.endpoint.isEmpty = false → p.wsURL ≠ []
  tunnel : p.wsMode = .wsTunnel ↔ p.wsTunnelTarget ≠ []
  tunnelURL : p.wsMode = .wsTunnel → p.wsURL ≠ []
  none : p.wsMode = .none → p.NoWebSocket

theorem validateWebSocketPeer_ok {p : Peer} {wsKeys : List Str}
    (h : validateWebSocketPeer p wsKeys = .ok ()) :
    (p.wsURL ≠ [] → p.wsMode ≠ .none) ∧
      (p.wsMode ≠ .none → p.endpoint.isEmpty = false → p.wsURL ≠ []) ∧
      (p.wsMode = .wsTunnel → p.wsURL ≠ []) ∧ (p.wsMode = .wsTunnel ↔ p.wsTunnelTarget ≠ []) ∧
      (p.wsMode = .none → wsKeys = []) := by
  rw [validateWebSocketPeer] at h
  grind

theorem Peer.Unwritten.absent {p : Peer} {k : PeerKey} (h : p.Unwritten k)
    {present : Bool} {value : Str} (hfield : p.field k = some (present, value)) :
    present = false := by
  rw [Peer.Unwritten, hfield, writeField] at h
  split_ifs at h with habsent
  · rw [Bool.and_eq_true] at habsent
    simpa using habsent.1
  · simp [writeLine] at h

theorem Peer.Ok.noWebSocket {p : Peer} (h : p.Ok urlParse []) (hmode : p.wsMode = .none)
    (hurl : p.wsURL = []) : p.NoWebSocket := by
  have hunwritten (k : PeerKey) (hk : k.wsKeyName ≠ .none) : p.Unwritten k := h.websocket rfl k hk
  have hzero (n : UInt32) (hn : decide (0 < n) = false) : n = 0 := by
    have hle := of_decide_eq_false hn
    grind
  constructor
  · exact hmode
  · exact hurl
  · simpa using (hunwritten .wsTunnelTarget (by decide)).absent rfl
  · simpa using (hunwritten .wsBearer (by decide)).absent rfl
  · exact (hunwritten .wsMask (by decide)).absent rfl
  · simpa using (hunwritten .wsTLSCA (by decide)).absent rfl
  · simpa using (hunwritten .wsTLSCert (by decide)).absent rfl
  · simpa using (hunwritten .wsTLSKey (by decide)).absent rfl
  · exact (hunwritten .wsTLSInsecure (by decide)).absent rfl
  · exact hzero _ ((hunwritten .wsPingInterval (by decide)).absent rfl)
  · exact hzero _ ((hunwritten .wsBackoffMin (by decide)).absent rfl)
  · exact hzero _ ((hunwritten .wsBackoffMax (by decide)).absent rfl)

theorem Peer.Done.webSocketWellFormed {p : Peer} (h : p.Done urlParse) :
    p.WebSocketWellFormed urlParse := by
  obtain ⟨wsKeys, hok, hvalid⟩ := h
  obtain ⟨hurl, hendpoint, htunnelURL, htunnel, hkeys⟩ := validateWebSocketPeer_ok hvalid
  refine ⟨fun hne => ⟨hurl hne, ((hok.fields .endpoint).2 hne).2.2⟩, hendpoint, htunnel,
    htunnelURL, ?_⟩
  intro hnone
  rw [hkeys hnone] at hok
  apply hok.noWebSocket hnone
  by_contra hne
  exact hurl hne hnone

def PeerKey.isWebSocket (k : PeerKey) : Bool := k == .wsMode || k.wsKeyName.isSome

def WebSocketLine (line : Str) : Prop :=
  (lexLine line).stripped ≠ [] ∧ (lexLine line).hasValue = true ∧
    ∃ k, PeerKey.ofLower (lexLine line).key = some k ∧ k.isWebSocket = true

/-- A WebSocket setting has been read: of a finished peer, which then has a mode, or of
the current one. -/
def ParserState.SawWebSocket (st : ParserState) : Prop :=
  st.conf.hasWebSocketPeers = true ∨
    ∃ p wsKeys, st.state = .inPeerSection p wsKeys ∧ (p.wsMode ≠ .none ∨ wsKeys ≠ [])

theorem ParserState.SawWebSocket.finishPeer {st : ParserState} {conf : Config} (h : st.SawWebSocket)
    (hfin : st.finishPeer = .ok conf) : conf.hasWebSocketPeers = true := by
  rw [ParserState.finishPeer] at hfin
  split at hfin
  · rename_i peer wsKeys hstate
    obtain ⟨u, hvalid, hfin⟩ := bind_eq_ok hfin
    cases hfin
    obtain ⟨-, -, -, -, hkeys⟩ := validateWebSocketPeer_ok hvalid
    rw [Config.hasWebSocketPeers, List.any_append, Bool.or_eq_true]
    rcases h with h | ⟨p, ws, hst, h⟩
    · exact .inl h
    · rw [hstate] at hst
      cases hst
      have hmode : peer.wsMode ≠ .none := fun hnone => h.elim (· hnone) (· (hkeys hnone))
      exact .inr (by simpa using hmode)
  · rename_i hstate
    cases hfin
    rcases h with h | ⟨p, ws, hst, -⟩
    · exact h
    · exact absurd hst (hstate p ws)

theorem Peer.set_wsMode {p p' : Peer} {val : Str} {k : PeerKey} (h : p.set urlParse val k = .ok p')
    (hws : k = .wsMode ∨ p.wsMode ≠ .none) : p'.wsMode ≠ .none := by
  have hkeep (hk : k ≠ .wsMode) : p.wsMode ≠ .none := hws.resolve_left hk
  cases k
  case wsMode =>
    obtain ⟨mode, hmode, h⟩ := bind_eq_ok h
    cases h
    exact parseWSMode_ne_none hmode
  case endpoint =>
    simp only [set] at h
    split_ifs at h
    all_goals
      obtain ⟨e, -, h⟩ := bind_eq_ok h
      cases h
      exact hkeep (by decide)
  case wsTunnelTarget =>
    simp only [set] at h
    split at h
    · cases h
    · cases h
      exact hkeep (by decide)
  case allowedIPs =>
    obtain ⟨l, -, h⟩ := bind_eq_ok h
    obtain ⟨addresses, -, h⟩ := bind_eq_ok h
    cases h
    exact hkeep (by decide)
  case wsBearer | wsTLSCA | wsTLSCert | wsTLSKey =>
    cases h
    exact hkeep (by decide)
  all_goals
    obtain ⟨v, -, h⟩ := bind_eq_ok h
    cases h
    exact hkeep (by decide)

theorem interfaceKey_not_webSocket {key : Str} {k : InterfaceKey} {k' : PeerKey}
    (h : InterfaceKey.ofLower key = some k) (h' : PeerKey.ofLower key = some k') : False := by
  have hdistinct : ∀ k ∈ InterfaceKey.all, ∀ k' ∈ PeerKey.all, k.lower ≠ k'.lower := by
    decide +kernel
  apply hdistinct k k.mem_all k' k'.mem_all
  rw [InterfaceKey.lower_of_ofLower h, PeerKey.lower_of_ofLower h']

theorem ParserState.SawWebSocket.step {st st' : ParserState} {line : Str}
    (h : st.SawWebSocket ∨ WebSocketLine line) (hstep : ParseStep urlParse st line st') :
    st'.SawWebSocket := by
  cases hstep with
  | blank hs =>
    rcases h with h | ⟨hne, -⟩
    · exact h
    · exact absurd hs hne
  | interface hs hkey hval hfin =>
    rcases h with h | ⟨-, hvalue, -⟩
    · have hpeers := h.finishPeer hfin
      exact .inl hpeers
    · rw [hval] at hvalue
      cases hvalue
  | peer hs hkey hval hfin =>
    rcases h with h | ⟨-, hvalue, -⟩
    · exact .inl (h.finishPeer hfin)
    · rw [hval] at hvalue
      cases hvalue
  | interfaceKey hs hval hstate hk hne hset =>
    rcases h with (h | ⟨p, ws, hst, -⟩) | ⟨-, -, k', hk', -⟩
    · exact .inl h
    · rw [hstate] at hst
      cases hst
    · exact (interfaceKey_not_webSocket hk hk').elim
  | @peerKey p p' wsKeys k hs hval hstate hk hne hset =>
    have hcurrent (hws : k = .wsMode ∨ p.wsMode ≠ .none) : p'.wsMode ≠ .none :=
      Peer.set_wsMode hset hws
    rcases h with (h | ⟨q, ws, hst, h⟩) | ⟨-, -, k', hk', hws⟩
    · exact .inl h
    · rw [hstate] at hst
      cases hst
      refine .inr ⟨p', _, rfl, ?_⟩
      rcases h with h | h
      · exact .inl (hcurrent (.inr h))
      · exact .inr (by simp [h])
    · cases hk.symm.trans hk'
      refine .inr ⟨p', _, rfl, ?_⟩
      rw [PeerKey.isWebSocket, Bool.or_eq_true, beq_iff_eq, Option.isSome_iff_exists] at hws
      rcases hws with hmode | ⟨n, hn⟩
      · exact .inl (hcurrent (.inl hmode))
      · exact .inr (by simp [hn])

theorem ParserState.SawWebSocket.run {s : Str} {st st' : ParserState}
    (h : (s.splitOn newline).foldlM (parseLine urlParse) st = .ok st')
    (hline : ∃ line ∈ s.splitOn newline, WebSocketLine line) : st'.SawWebSocket := by
  obtain ⟨line, hline, hws⟩ := hline
  have hhistory : (∃ line ∈ [] ++ s.splitOn newline, WebSocketLine line) → st'.SawWebSocket := by
    have hstart : (∃ line ∈ ([] : List Str), WebSocketLine line) → st.SawWebSocket := by simp
    refine foldlM_history (fun done st => (∃ line ∈ done, WebSocketLine line) → st.SawWebSocket)
      ?_ hstart h
    rintro done st line st' hdone hstep ⟨l, hl, hws⟩
    apply ParserState.SawWebSocket.step _ (parseLine_step hstep)
    rcases List.mem_append.mp hl with hl | hl
    · exact .inl (hdone ⟨l, hl, hws⟩)
    · rw [List.mem_singleton] at hl
      exact .inr (hl ▸ hws)
  exact hhistory ⟨line, hline, hws⟩

theorem fromWgQuick_webSocket {s name : Str} {c : Config}
    (h : fromWgQuick urlParse s name = .ok c) :
    (∀ p ∈ c.peers, p.WebSocketWellFormed urlParse) ∧
      (c.hasWebSocketPeers = false → (∀ p ∈ c.peers, p.NoWebSocket) ∧
        ∀ line ∈ s.splitOn newline, ¬ WebSocketLine line) := by
  have hwell : ∀ p ∈ c.peers, p.WebSocketWellFormed urlParse := fun p hp =>
    ((fromWgQuick_canonical h).1.peers p hp).1.webSocketWellFormed
  refine ⟨hwell, fun hno => ⟨?_, ?_⟩⟩
  · intro p hp
    have hmode := List.any_eq_false.mp hno p hp
    exact (hwell p hp).none (by simpa using hmode)
  · intro line hline hws
    obtain ⟨-, st, conf, hst, hfin, rfl, -⟩ := fromWgQuick_eq_ok h
    have hsaw := (ParserState.SawWebSocket.run hst ⟨line, hline, hws⟩).finishPeer hfin
    have hpruned : (conf.pruned st.pendingComments).hasWebSocketPeers = conf.hasWebSocketPeers := by
      simp [Config.pruned, Config.hasWebSocketPeers, Function.comp_def]
    rw [hpruned, hsaw] at hno
    cases hno

def wstunnelText : Str :=
  str ("[Interface]\nPrivateKey = yAnz5TF+lXXJte14tji3zlMNq+hd2rYUIgJBgB3fBmk=\n[Peer]\n" ++
    "PublicKey = xTIBA5rboUvnH4htodjb6e697QjLERt1NAB4mZqp8Dg=\nEndpoint = wss://h:443/\n" ++
    "WSMode = wstunnel\nWSTunnelTarget = 10.0.0.1:51820")

def wstunnelURL : URL := ⟨str "wss", [], false, str "/", [], false, [], str "h", str "443"⟩

theorem fromWgQuick_webSocket_wstunnel :
    ∃ c, fromWgQuick (fun _ => some wstunnelURL) wstunnelText (str "wg0") = .ok c ∧
      c.hasWebSocketPeers = true ∧ ∀ p ∈ c.peers, p.WebSocketWellFormed
        (fun _ => some wstunnelURL) := by
  have hread : ((fromWgQuick (fun _ => some wstunnelURL) wstunnelText (str "wg0")).toOption.map
      Config.hasWebSocketPeers) = some true := by
    decide +kernel
  cases hc : fromWgQuick (fun _ => some wstunnelURL) wstunnelText (str "wg0") with
  | error e => simp [hc, Except.toOption] at hread
  | ok c =>
    rw [hc] at hread
    exact ⟨c, rfl, Option.some.inj hread, (fromWgQuick_webSocket hc).1⟩

end WireGuardWindows.Conf
