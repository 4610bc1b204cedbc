import WireGuardWindows.Conf.Accepted
import WireGuardWindows.Conf.Text
import WireGuardWindows.GoStd.Loops

/-!
# The bearer token in error texts

Two texts that differ in the value of one `WSBearer` line are parsed side by side. From that
line on the two states differ in the bearer of one peer, which no check looks at. Before
the first section it is otherwise: there the error quotes the line.
-/

namespace WireGuardWindows.Conf
open GoStd Strings Unicode Loops

def bearerLine (v : Str) : Str := fieldText PeerKey.wsBearer.name v

structure BearerText (v : Str) : Prop where
  noHash : hash ∉ v
  oneLine : newline ∉ v
  nonempty : trimSpace v ≠ []

def isPeerHeader (line : Str) : Bool :=
  (lexLine line).key == str "[peer]" && !(lexLine line).hasValue

def peerIndex (lines : List Str) : Nat := lines.countP isPeerHeader - 1

def Peer.withBearer (b : Str) (p : Peer) : Peer := { p with wsBearer := b }

def Config.withBearer (i : Nat) (b : Str) (c : Config) : Config :=
  { c with peers := c.peers.modify i (Peer.withBearer b) }

def Section.withBearer (b : Str) : Section → Section
  | .inPeerSection p wsKeys => .inPeerSection (p.withBearer b) wsKeys
  | s => s

def ParserState.withBearer (i : Nat) (b : Str) (st : ParserState) : ParserState :=
  { st with
    conf := st.conf.withBearer i b
    state := if st.conf.peers.length = i then st.state.withBearer b else st.state }

def Section.isPeer : Section → Bool
  | .inPeerSection _ _ => true
  | _ => false

def ParserState.begun (st : ParserState) : Nat :=
  st.conf.peers.length + if st.state.isPeer then 1 else 0

def DifferAt (i : Nat) (st st' : ParserState) : Prop := i < st.begun ∧ ∃ b, st' = st.withBearer i b

variable {urlParse : Str → Option URL} {i : Nat}

structure KeyLine (line : Str) : Prop where
  nonblank : (lexLine line).stripped ≠ []
  noInterface : ¬ ((lexLine line).key = str "[interface]" ∧ ¬ (lexLine line).hasValue = true)
  noPeer : ¬ ((lexLine line).key = str "[peer]" ∧ ¬ (lexLine line).hasValue = true)

theorem parseLine_outside {st : ParserState} {line : Str} (h : KeyLine line)
    (hst : st.state = .notInASection) :
    parseLine urlParse st line = .error
      (.parseError "Line must occur in a section" (lexLine line).stripped) := by
  simp only [parseLine]
  rw [if_neg h.nonblank, if_neg h.noInterface, if_neg h.noPeer, hst]

theorem parseLine_inside {st : ParserState} {line : Str} (h : KeyLine line)
    (hst : st.state ≠ .notInASection) :
    parseLine urlParse st line =
      if ¬ (lexLine line).hasValue then
        .error (.parseError "Config key is missing an equals separator" (lexLine line).stripped)
      else if (valueOf line (lexLine line)).1 = [] then
        .error (.parseError "Key must have a value" (lexLine line).stripped)
      else st.setKey urlParse (lexLine line).key (valueOf line (lexLine line)).1
        (valueOf line (lexLine line)).2 := by
  simp only [parseLine]
  rw [if_neg h.nonblank, if_neg h.noInterface, if_neg h.noPeer]

theorem validateWebSocketPeer_withBearer (p : Peer) (b : Str) (wsKeys : List Str) :
    validateWebSocketPeer (p.withBearer b) wsKeys = validateWebSocketPeer p wsKeys := rfl

theorem modify_append_last {α : Type} (l : List α) (a : α) (i : Nat) (f : α → α) :
    (l ++ [a]).modify i f = l.modify i f ++ [if l.length = i then f a else a] := by
  induction l generalizing i with
  | nil => cases i <;> simp
  | cons b l ih =>
    cases i with
    | zero => simp
    | succ i => simp [ih]

theorem finishPeer_withBearer (st : ParserState) (b : Str) :
    (st.withBearer i b).finishPeer = st.finishPeer.map (Config.withBearer i b) := by
  obtain ⟨conf, state, saw, pending⟩ := st
  cases state with
  | notInASection | inInterfaceSection =>
    simp only [ParserState.withBearer, ParserState.finishPeer, Section.withBearer, ite_self]
    rfl
  | inPeerSection p wsKeys =>
    have hpeers : ({ conf with peers := conf.peers ++ [p] } : Config).withBearer i b =
        { conf.withBearer i b with
          peers := (conf.withBearer i b).peers ++
            [if conf.peers.length = i then p.withBearer b else p] } := by
      rw [Config.withBearer, modify_append_last]
      rfl
    by_cases hi : conf.peers.length = i
    · simp only [ParserState.withBearer, ParserState.finishPeer, Section.withBearer, if_pos hi,
        validateWebSocketPeer_withBearer] at hpeers ⊢
      cases validateWebSocketPeer p wsKeys with
      | error e => rfl
      | ok u => exact congrArg Except.ok hpeers.symm
    · simp only [ParserState.withBearer, ParserState.finishPeer, Section.withBearer,
        if_neg hi] at hpeers ⊢
      cases validateWebSocketPeer p wsKeys with
      | error e => rfl
      | ok u => exact congrArg Except.ok hpeers.symm

theorem finishPeer_length {st : ParserState} {conf : Config} (h : st.finishPeer = .ok conf) :
    conf.peers.length = st.begun := by
  obtain ⟨c, state, saw, pending⟩ := st
  cases state with
  | notInASection => cases h; rfl
  | inInterfaceSection => cases h; rfl
  | inPeerSection p wsKeys =>
    obtain ⟨u, -, h⟩ := bind_eq_ok h
    cases h
    exact List.length_append

theorem alike_finishPeer {st : ParserState} (b : Str) :
    Alike (fun c c' => st.finishPeer = .ok c ∧ c' = c.withBearer i b) st.finishPeer
      (st.withBearer i b).finishPeer := by
  rw [finishPeer_withBearer]
  cases st.finishPeer with
  | error e => exact rfl
  | ok c => exact ⟨rfl, rfl⟩

theorem alike_set (p : Peer) (b val : Str) (k : PeerKey) :
    Alike (fun q q' => ∃ b', q' = Peer.withBearer b' q) (Peer.set urlParse p val k)
      (Peer.set urlParse (p.withBearer b) val k) := by
  cases k with
  | wsBearer => exact ⟨val, rfl⟩
  | wsTLSCA | wsTLSCert | wsTLSKey => exact ⟨b, rfl⟩
  | endpoint =>
    simp only [Peer.set]
    split_ifs
    · cases parseWSURL urlParse val with
      | error e => exact rfl
      | ok e => exact ⟨b, rfl⟩
    · cases parseEndpoint val with
      | error e => exact rfl
      | ok e => exact ⟨b, rfl⟩
  | wsTunnelTarget =>
    simp only [Peer.set]
    cases parseEndpoint val with
    | error e => exact rfl
    | ok e => exact ⟨b, rfl⟩
  | allowedIPs =>
    refine (Alike.same (R := Eq) (splitList val) fun _ _ => rfl).bind ?_
    rintro texts _ rfl
    refine (Alike.same (R := Eq) (texts.mapM parseIPCidr) fun _ _ => rfl).bind ?_
    rintro ips _ rfl
    exact ⟨b, rfl⟩
  | _ =>
    refine (Alike.same (R := Eq) _ fun _ _ => rfl).bind ?_
    rintro x _ rfl
    exact ⟨b, rfl⟩

theorem withBearer_outside {st : ParserState} {b : Str} :
    (st.withBearer i b).state = .notInASection ↔ st.state = .notInASection := by
  have hstate : (st.withBearer i b).state = if st.conf.peers.length = i then st.state.withBearer b
    else st.state := rfl
  rw [hstate]
  cases st.state with
  | notInASection => simp [Section.withBearer]
  | inInterfaceSection => simp [Section.withBearer]
  | inPeerSection p wsKeys => split_ifs <;> simp [Section.withBearer]

theorem DifferAt.setKey {st st' : ParserState} (h : DifferAt i st st') (key val comment : Str) :
    Alike (DifferAt i) (st.setKey urlParse key val comment)
      (st'.setKey urlParse key val comment) := by
  obtain ⟨hi, b, rfl⟩ := h
  obtain ⟨conf, state, saw, pending⟩ := st
  cases state with
  | notInASection =>
    simp only [ParserState.setKey, ParserState.withBearer, Section.withBearer, ite_self]
    refine ⟨hi, b, ?_⟩
    simp only [ParserState.withBearer, Section.withBearer, ite_self]
  | inInterfaceSection =>
    simp only [ParserState.setKey, ParserState.withBearer, Section.withBearer, ite_self]
    cases InterfaceKey.ofLower key with
    | none => exact rfl
    | some k =>
      refine (Alike.same (R := Eq) _ fun _ _ => rfl).bind ?_
      rintro interface _ rfl
      refine ⟨hi, b, ?_⟩
      simp only [ParserState.withBearer, Section.withBearer, ite_self]
      rfl
  | inPeerSection p wsKeys =>
    by_cases hlast : conf.peers.length = i
    · simp only [ParserState.setKey, ParserState.withBearer, Section.withBearer, if_pos hlast]
      cases PeerKey.ofLower key with
      | none => exact rfl
      | some k =>
        refine (alike_set _ b val k).bind ?_
        rintro q _ ⟨b', rfl⟩
        refine ⟨hi, b', ?_⟩
        have hpeers : conf.peers.modify i (Peer.withBearer b') =
            conf.peers.modify i (Peer.withBearer b) := by
          rw [List.modify_eq_self hlast.le, List.modify_eq_self hlast.le]
        simp only [ParserState.withBearer, Section.withBearer, if_pos hlast,
          Config.withBearer, hpeers]
    · simp only [ParserState.setKey, ParserState.withBearer, if_neg hlast]
      cases PeerKey.ofLower key with
      | none => exact rfl
      | some k =>
        refine (Alike.same (R := Eq) _ fun _ _ => rfl).bind ?_
        rintro q _ rfl
        refine ⟨hi, b, ?_⟩
        simp only [ParserState.withBearer, if_neg hlast]

theorem DifferAt.parseLine {st st' : ParserState} (h : DifferAt i st st') (line : Str) :
    Alike (DifferAt i) (parseLine urlParse st line) (parseLine urlParse st' line) := by
  have hkey := @DifferAt.setKey urlParse i st st' h
  obtain ⟨hi, b, rfl⟩ := h
  have hfinish : Alike _ st.finishPeer (st.withBearer i b).finishPeer := alike_finishPeer b
  by_cases hline : KeyLine line
  · by_cases hst : st.state = .notInASection
    · rw [parseLine_outside hline hst, parseLine_outside hline (withBearer_outside.mpr hst)]
      exact rfl
    · rw [parseLine_inside hline hst, parseLine_inside hline fun h => hst (withBearer_outside.mp h)]
      split_ifs
      · exact rfl
      · exact hkey _ _ _
      · exact rfl
  simp only [Conf.parseLine]
  by_cases hblank : (lexLine line).stripped = []
  · rw [if_pos hblank, if_pos hblank]
    exact ⟨hi, b, rfl⟩
  rw [if_neg hblank, if_neg hblank]
  by_cases hinterface : (lexLine line).key = str "[interface]" ∧ ¬ (lexLine line).hasValue = true
  · rw [if_pos hinterface, if_pos hinterface]
    refine hfinish.bind ?_
    rintro conf _ ⟨hconf, rfl⟩
    have hlt : i < conf.peers.length := (finishPeer_length hconf).symm ▸ hi
    refine ⟨hlt, b, ?_⟩
    simp only [ParserState.withBearer, Section.withBearer, ite_self]
    rfl
  rw [if_neg hinterface, if_neg hinterface]
  by_cases hpeer : (lexLine line).key = str "[peer]" ∧ ¬ (lexLine line).hasValue = true
  · rw [if_pos hpeer, if_pos hpeer]
    refine hfinish.bind ?_
    rintro conf _ ⟨hconf, rfl⟩
    have hlt : i < conf.peers.length := (finishPeer_length hconf).symm ▸ hi
    refine ⟨Nat.lt_succ_of_lt hlt, b, ?_⟩
    simp only [ParserState.withBearer, if_neg hlt.ne']
  exact absurd ⟨hblank, hinterface, hpeer⟩ hline

theorem isPeerHeader_of_blank {line : Str} (h : (lexLine line).stripped = []) :
    isPeerHeader line = false := by
  have hstrip : (lexLine line).stripped = trimSpace (cut line hash).1 := rfl
  have hkey : (lexLine line).key =
    toLower (trimSpace (cut (trimSpace (cut line hash).1) equals).1) := rfl
  rw [hstrip] at h
  rw [isPeerHeader, hkey, h, Bool.and_eq_false_iff]
  exact Or.inl (by decide)

theorem parseLine_ok {st st' : ParserState} {line : Str} (h : ParseStep urlParse st line st') :
    st'.begun = st.begun + (if isPeerHeader line then 1 else 0) ∧
      (st'.state = .notInASection ↔ st.state = .notInASection ∧ (lexLine line).stripped = []) := by
  cases h with
  | blank hs =>
    rw [isPeerHeader_of_blank hs]
    exact ⟨rfl, fun h => ⟨h, hs⟩, And.left⟩
  | interface hs hkey hval hfin =>
    have hheader : isPeerHeader line = false := by rw [isPeerHeader, hkey]; rfl
    have hlength := finishPeer_length hfin
    rw [hheader]
    exact ⟨hlength, iff_of_false nofun fun h => hs h.2⟩
  | peer hs hkey hval hfin =>
    have hheader : isPeerHeader line = true := by rw [isPeerHeader, hkey, hval]; rfl
    have hlength := finishPeer_length hfin
    rw [hheader]
    exact ⟨congrArg (· + 1) hlength, iff_of_false nofun fun h => hs h.2⟩
  | interfaceKey hs hval hstate hk hne hset | peerKey hs hval hstate hk hne hset =>
    have hheader : isPeerHeader line = false := by
      rw [isPeerHeader, hval, Bool.not_true, Bool.and_false]
    rw [hheader]
    refine ⟨?_, iff_of_false nofun fun h => hs h.2⟩
    rw [ParserState.begun, ParserState.begun, hstate]
    rfl

def Position (lines : List Str) (st : ParserState) : Prop :=
  st.begun = lines.countP isPeerHeader ∧
    (st.state = .notInASection ↔ ∀ line ∈ lines, (lexLine line).stripped = [])

theorem Position.step {lines : List Str} {st st' : ParserState} {line : Str} (h : Position lines st)
    (hstep : parseLine urlParse st line = .ok st') : Position (lines ++ [line]) st' := by
  obtain ⟨hbegun, hstate⟩ := parseLine_ok (parseLine_step hstep)
  constructor
  · rw [hbegun, h.1, List.countP_append, List.countP_singleton]
  · rw [hstate, h.2, List.forall_mem_append, List.forall_mem_singleton]

theorem position_initial (name : Str) : Position [] { conf := { name := name } } :=
  ⟨rfl, iff_of_true rfl nofun⟩

theorem position_parseLines {st : ParserState} {name : Str} {lines : List Str}
    (h : lines.foldlM (parseLine urlParse) { conf := { name := name } } = .ok st) :
    Position lines st :=
  foldlM_history Position (fun _ _ _ _ hs hstep => hs.step hstep) (position_initial name) h

theorem map_modify_comm {α β : Type} {f : α → α} {f' : β → β} {g : α → β}
    (h : ∀ a, g (f a) = f' (g a)) (l : List α) (i : Nat) :
    (l.modify i f).map g = (l.map g).modify i f' := by
  induction l generalizing i with
  | nil => cases i <;> rfl
  | cons a l ih =>
    cases i with
    | zero => simp [h]
    | succ i => simp [ih]

theorem pruned_withBearer (c : Config) (b : Str) (pending : List Str) :
    (c.withBearer i b).pruned pending = (c.pruned pending).withBearer i b := by
  have hpeers : (c.peers.modify i (Peer.withBearer b)).map
      (fun p : Peer => { p with comments := pruneSectionComments p.comments }) =
      (c.peers.map fun p : Peer => { p with comments := pruneSectionComments p.comments }).modify i
        (Peer.withBearer b) := by
    apply map_modify_comm
    intro p
    rfl
  rw [Config.pruned, Config.withBearer, hpeers]
  rfl

theorem anyZero_withBearer (c : Config) (b : Str) :
    (c.withBearer i b).peers.any (·.publicKey.isZero) = c.peers.any (·.publicKey.isZero) := by
  have hkeys : (c.peers.modify i (Peer.withBearer b)).map Peer.publicKey =
      (c.peers.map Peer.publicKey).modify i id := by
    apply map_modify_comm
    intro p
    rfl
  have hany : ∀ ps : List Peer, ps.any (·.publicKey.isZero) =
      (ps.map Peer.publicKey).any Key.isZero := by
    intro ps
    rw [List.any_map]
    rfl
  rw [hany, hany, Config.withBearer, hkeys, List.modify_id]

theorem alike_fromWgQuick {name s s' : Str}
    (h : Alike (DifferAt i) ((s.splitOn newline).foldlM (parseLine urlParse)
      { conf := { name := name } }) ((s'.splitOn newline).foldlM (parseLine urlParse)
      { conf := { name := name } })) :
    Alike (fun c c' => ∃ b, c' = Config.withBearer i b c) (fromWgQuick urlParse s name)
      (fromWgQuick urlParse s' name) := by
  rw [fromWgQuick, fromWgQuick]
  by_cases hname : tunnelNameIsValid name = true
  · rw [if_neg (not_not.mpr hname), if_neg (not_not.mpr hname)]
    refine h.bind ?_
    rintro st _ ⟨-, b, rfl⟩
    refine (alike_finishPeer b).bind ?_
    rintro conf _ ⟨-, rfl⟩
    have hsaw : (st.withBearer i b).sawPrivateKey = st.sawPrivateKey := rfl
    have hpending : (st.withBearer i b).pendingComments = st.pendingComments := rfl
    simp only [hsaw, hpending, pruned_withBearer, anyZero_withBearer]
    split_ifs
    · exact rfl
    · exact ⟨b, rfl⟩
    · exact rfl
  · rw [if_pos hname, if_pos hname]
    exact rfl

theorem keyLine_bearerLine (v : Str) : KeyLine (bearerLine v) := by
  obtain ⟨hkey, hval, hne⟩ := lexLine_script PeerKey.wsBearer.keyName v
  refine ⟨hne, ?_, ?_⟩
  · exact fun h => h.2 hval
  · exact fun h => h.2 hval

theorem parseLine_bearerLine {st : ParserState} {v : Str} (hv : BearerText v)
    (hst : st.state ≠ .notInASection) :
    parseLine urlParse st (bearerLine v) = st.setKey urlParse PeerKey.wsBearer.lower
      (trimSpace v) [] := by
  have hlex := lexLine_anyField PeerKey.wsBearer.keyName v
  rw [cut_of_notMem hv.noHash] at hlex
  have hscript : PeerKey.wsBearer.lower ∉ scriptKeys := by decide
  have hvalue : valueOf (bearerLine v) (lexLine (bearerLine v)) = (trimSpace v, []) := by
    rw [valueOf, bearerLine, hlex, if_neg hscript, trimSpace_trimRightSpace_cons]
    rfl
  rw [parseLine_inside (keyLine_bearerLine v) hst, hvalue, if_neg hv.nonempty, bearerLine, hlex]
  rfl

/-- Inside a section both lines fail in the same way, or the states differ from here on in the
bearer of the peer whose section it is. -/
theorem alike_bearerLine {st : ParserState} {v v' : Str} (hv : BearerText v) (hv' : BearerText v')
    (hst : st.state ≠ .notInASection) :
    Alike (DifferAt (st.begun - 1)) (parseLine urlParse st (bearerLine v))
      (parseLine urlParse st (bearerLine v')) := by
  rw [parseLine_bearerLine hv hst, parseLine_bearerLine hv' hst, ParserState.setKey,
    ParserState.setKey]
  cases hs : st.state with
  | notInASection => exact absurd hs hst
  | inInterfaceSection => exact rfl
  | inPeerSection p wsKeys =>
    have hkey : PeerKey.ofLower PeerKey.wsBearer.lower = some .wsBearer := by decide
    have hbegun : st.begun = st.conf.peers.length + 1 := by rw [ParserState.begun, hs]; rfl
    rw [hbegun, Nat.add_sub_cancel]
    simp only [hkey]
    refine ⟨Nat.lt_succ_self _, trimSpace v', ?_⟩
    simp only [ParserState.withBearer, Config.withBearer, if_pos, Section.withBearer,
      Peer.withBearer, List.modify_eq_self le_rfl]

def textOf (lines : List Str) : Str := [newline].intercalate lines

theorem splitOn_textOf {lines : List Str} (h : ∀ line ∈ lines, newline ∉ line) (hne : lines ≠ []) :
    (textOf lines).splitOn newline = lines := List.splitOn_intercalate newline h hne

theorem newline_notMem_bearerLine {v : Str} (hv : BearerText v) : newline ∉ bearerLine v := by
  rw [bearerLine, fieldText_eq, List.mem_append, List.mem_cons, List.mem_cons, List.mem_cons]
  have hkey := PeerKey.wsBearer.keyName.oneLine
  rintro (h | h | h | h | h)
  · exact hkey h
  · exact absurd h (by decide)
  · exact absurd h (by decide)
  · exact absurd h (by decide)
  · exact hv.oneLine h

theorem parseLines_blank {lines : List Str} (h : ∀ line ∈ lines, (lexLine line).stripped = [])
    (st : ParserState) :
    ∃ st', lines.foldlM (parseLine urlParse) st = .ok st' ∧ st'.state = st.state := by
  induction lines generalizing st with
  | nil => exact ⟨st, rfl, rfl⟩
  | cons line lines ih =>
    rw [List.forall_mem_cons] at h
    obtain ⟨st', hrun, hstate⟩ :=
      ih h.2 { st with pendingComments := st.pendingComments ++ [(lexLine line).comment] }
    refine ⟨st', ?_, hstate⟩
    rw [List.foldlM_cons, parseLine]
    dsimp only
    rw [if_pos h.1]
    exact hrun

/-- The line is quoted exactly where it is the first line with any content. -/
theorem bearer_hidden_iff (urlParse : Str → Option URL) (name : Str) {pre post : List Str}
    (hpre : ∀ line ∈ pre, newline ∉ line) (hpost : ∀ line ∈ post, newline ∉ line) :
    (∀ v v', BearerText v → BearerText v' →
      Alike (fun c c' => ∃ b, c' = Config.withBearer (peerIndex pre) b c)
        (fromWgQuick urlParse (textOf (pre ++ bearerLine v :: post)) name)
        (fromWgQuick urlParse (textOf (pre ++ bearerLine v' :: post)) name)) ↔
      (tunnelNameIsValid name = true → ∃ line ∈ pre, (lexLine line).stripped ≠ []) := by
  have hsplit : ∀ {v}, BearerText v →
      (textOf (pre ++ bearerLine v :: post)).splitOn newline = pre ++ bearerLine v :: post := by
    intro v hv
    refine splitOn_textOf ?_ (List.append_ne_nil_of_right_ne_nil _ (List.cons_ne_nil _ _))
    rw [List.forall_mem_append, List.forall_mem_cons]
    exact ⟨hpre, newline_notMem_bearerLine hv, hpost⟩
  constructor
  · intro halike hname
    by_contra hno
    have hblank : ∀ line ∈ pre, (lexLine line).stripped = [] := by
      intro line hline
      by_contra hne
      exact hno ⟨line, hline, hne⟩
    obtain ⟨st, hrun, hstate⟩ := @parseLines_blank urlParse pre hblank { conf := { name := name } }
    have herror : ∀ {v}, BearerText v →
      fromWgQuick urlParse (textOf (pre ++ bearerLine v :: post)) name =
        .error (.parseError "Line must occur in a section" (lexLine (bearerLine v)).stripped) := by
      intro v hv
      rw [fromWgQuick, if_neg (not_not.mpr hname), hsplit hv, foldlM_after hrun,
        parseLine_outside (keyLine_bearerLine v) hstate]
      rfl
    have ha : BearerText (str "a") := ⟨by decide, by decide, by decide⟩
    have hb : BearerText (str "b") := ⟨by decide, by decide, by decide⟩
    have hsame := halike _ _ ha hb
    rw [herror ha, herror hb] at hsame
    have hne : (lexLine (bearerLine (str "a"))).stripped ≠
      (lexLine (bearerLine (str "b"))).stripped := by decide
    exact hne (Error.parseError.inj hsame).2
  · intro hcond v v' hv hv'
    by_cases hname : tunnelNameIsValid name = true
    · obtain ⟨line, hline, hne⟩ := hcond hname
      refine alike_fromWgQuick ?_
      rw [hsplit hv, hsplit hv']
      cases hrun : pre.foldlM (parseLine urlParse) { conf := { name := name } } with
      | error e =>
        rw [foldlM_failed hrun, foldlM_failed hrun]
        exact rfl
      | ok st =>
        rw [foldlM_after hrun, foldlM_after hrun]
        obtain ⟨hbegun, hstate⟩ := position_parseLines hrun
        have hin : st.state ≠ .notInASection := fun hs => hne (hstate.mp hs line hline)
        have hbearer := @alike_bearerLine urlParse st v v' hv hv' hin
        rw [hbegun] at hbearer
        exact hbearer.bind fun s s' h => alike_foldlM (fun _ _ line h => h.parseLine line) h post
    · rw [fromWgQuick, fromWgQuick, if_pos hname, if_pos hname]
      exact rfl

theorem bearer_hidden_iff_inPeer :
    Alike (fun c c' => ∃ b, c' = Config.withBearer (peerIndex [str "[Peer]"]) b c)
      (fromWgQuick (fun _ =>
        none) (textOf ([str "[Peer]"] ++ bearerLine (str "secret") :: [])) (str "tun"))
      (fromWgQuick (fun _ => none) (textOf ([str "[Peer]"] ++ bearerLine (str "other") :: []))
        (str "tun")) :=
  (bearer_hidden_iff (fun _ => none) (str "tun") (by decide) (by decide)).mpr
    (fun _ => ⟨str "[Peer]", by decide, by decide⟩) _ _ ⟨by decide, by decide, by decide⟩
    ⟨by decide, by decide, by decide⟩

theorem bearer_quoted_outside :
    fromWgQuick (fun _ => none) (str "WSBearer = secret") (str "tun") =
        .error (.parseError "Line must occur in a section" (str "WSBearer = secret")) ∧
      fromWgQuick (fun _ => none) (str "WSBearer = other") (str "tun") =
        .error (.parseError "Line must occur in a section" (str "WSBearer = other")) := by
  decide +kernel

end WireGuardWindows.Conf
