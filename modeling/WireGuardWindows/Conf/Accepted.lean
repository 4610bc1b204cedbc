import WireGuardWindows.Conf.Canonical

/-!
# Every accepted configuration is canonical

`ParseStep` lists what the loop of `FromWgQuick` does with a line it accepts. The
invariant `ParserState.Ok` is proved along it, and `Config.Canonical` follows for the
configuration that is returned.
-/

namespace WireGuardWindows.Conf
open GoStd Strings Strconv Netip Unicode Loops

variable {urlParse : Str → Option URL}

def interfaceHeader (conf : Config) (pending : List Str) (comment : Str) : Config :=
  { conf with
    interface := { conf.interface with
      comments := { conf.interface.comments with
        header := conf.interface.comments.header.attach pending comment } } }

def newPeer (pending : List Str) (comment : Str) : Peer :=
  { comments := { header := ⟨pending, comment⟩ } }

inductive ParseStep (urlParse : Str → Option URL) (st : ParserState) (line : Str) :
    ParserState → Prop
  | blank (hs : (lexLine line).stripped = []) :
    ParseStep urlParse st line
      { st with pendingComments := st.pendingComments ++ [(lexLine line).comment] }
  | interface {conf : Config} (hs : (lexLine line).stripped ≠ [])
    (hkey : (lexLine line).key = str "[interface]") (hval : (lexLine line).hasValue = false)
    (hfin : st.finishPeer = .ok conf) :
    ParseStep urlParse st line
      { st with
        conf := interfaceHeader conf st.pendingComments (lexLine line).comment
        state := .inInterfaceSection
        pendingComments := [] }
  | peer {conf : Config} (hs : (lexLine line).stripped ≠ [])
    (hkey : (lexLine line).key = str "[peer]") (hval : (lexLine line).hasValue = false)
    (hfin : st.finishPeer = .ok conf) :
    ParseStep urlParse st line
      { st with
        conf := conf
        state := .inPeerSection (newPeer st.pendingComments (lexLine line).comment) []
        pendingComments := [] }
  | interfaceKey {k : InterfaceKey} {i : Interface} (hs : (lexLine line).stripped ≠ [])
    (hval : (lexLine line).hasValue = true) (hstate : st.state = .inInterfaceSection)
    (hk : InterfaceKey.ofLower (lexLine line).key = some k)
    (hne : (valueOf line (lexLine line)).1 ≠ [])
    (hset : Interface.set
      { st.conf.interface with
        comments := st.conf.interface.comments.attach k st.pendingComments
          (valueOf line (lexLine line)).2 }
      (valueOf line (lexLine line)).1 k = .ok i) :
    ParseStep urlParse st line
      { st with
        conf := { st.conf with interface := i }
        state := .inInterfaceSection
        sawPrivateKey := st.sawPrivateKey || k == .privateKey
        pendingComments := [] }
  | peerKey {p p' : Peer} {wsKeys : List Str} {k : PeerKey} (hs : (lexLine line).stripped ≠ [])
    (hval : (lexLine line).hasValue = true) (hstate : st.state = .inPeerSection p wsKeys)
    (hk : PeerKey.ofLower (lexLine line).key = some k)
    (hne : (valueOf line (lexLine line)).1 ≠ [])
    (hset : Peer.set urlParse
      { p with
        comments := p.comments.attach k st.pendingComments (valueOf line (lexLine line)).2 }
      (valueOf line (lexLine line)).1 k = .ok p') :
    ParseStep urlParse st line
      { st with
        state := .inPeerSection p' (wsKeys ++ k.wsKeyName.toList)
        pendingComments := [] }

theorem parseLine_step {st st' : ParserState} {line : Str}
    (h : parseLine urlParse st line = .ok st') : ParseStep urlParse st line st' := by
  simp only [parseLine] at h
  by_cases hs : (lexLine line).stripped = []
  · rw [if_pos hs] at h
    cases h
    exact .blank hs
  rw [if_neg hs] at h
  by_cases hi : (lexLine line).key = str "[interface]" ∧ ¬ (lexLine line).hasValue = true
  · rw [if_pos hi] at h
    obtain ⟨conf, hfin, h⟩ := bind_eq_ok h
    cases h
    exact .interface hs hi.1 (by simpa using hi.2) hfin
  rw [if_neg hi] at h
  by_cases hp : (lexLine line).key = str "[peer]" ∧ ¬ (lexLine line).hasValue = true
  · rw [if_pos hp] at h
    obtain ⟨conf, hfin, h⟩ := bind_eq_ok h
    cases h
    exact .peer hs hp.1 (by simpa using hp.2) hfin
  rw [if_neg hp] at h
  have hkey : (lexLine line).hasValue = true ∧ (valueOf line (lexLine line)).1 ≠ [] ∧
      st.setKey urlParse (lexLine line).key (valueOf line (lexLine line)).1
        (valueOf line (lexLine line)).2 = .ok st' ∧ st.state ≠ .notInASection := by
    split at h
    · cases h
    · rename_i hsec
      split_ifs at h with hval hne
      exact ⟨hval, hne, h, hsec⟩
  obtain ⟨hval, hne, h, hsec⟩ := hkey
  rw [ParserState.setKey] at h
  cases hstate : st.state with
  | notInASection => exact absurd hstate hsec
  | inInterfaceSection =>
    rw [hstate] at h
    dsimp only at h
    split at h
    · cases h
    · rename_i k hk
      obtain ⟨i, hset, h⟩ := bind_eq_ok h
      cases h
      exact .interfaceKey hs hval hstate hk hne hset
  | inPeerSection p wsKeys =>
    rw [hstate] at h
    dsimp only at h
    split at h
    · cases h
    · rename_i k hk
      obtain ⟨p', hset, h⟩ := bind_eq_ok h
      cases h
      exact .peerKey hs hval hstate hk hne hset

theorem InterfaceKey.lower_of_ofLower {key : Str} {k : InterfaceKey} (h : ofLower key = some k) :
    k.lower = key := by
  simpa using List.find?_some h

theorem PeerKey.lower_of_ofLower {key : Str} {k : PeerKey} (h : ofLower key = some k) :
    k.lower = key := by
  simpa using List.find?_some h

theorem InterfaceKey.lower_mem_scriptKeys (k : InterfaceKey) :
    k.lower ∈ scriptKeys ↔ k.isScript = true := by
  cases k <;> decide +kernel

theorem PeerKey.lower_notMem_scriptKeys (k : PeerKey) : k.lower ∉ scriptKeys := by
  cases k <;> decide +kernel

theorem mem_cut {s : Str} {sep b : UInt8} (h : b ∈ (cut s sep).2.1) : b ∈ s := by
  rcases cut_cases s sep with ⟨-, hc⟩ | ⟨x, y, rfl, -, hc⟩
  · simp [hc] at h
  · rw [hc] at h
    simp [h]

theorem mem_cut_fst {s : Str} {sep b : UInt8} (h : b ∈ (cut s sep).1) : b ∈ s ∧ b ≠ sep := by
  rcases cut_cases s sep with ⟨hs, hc⟩ | ⟨x, y, rfl, hx, hc⟩
  · rw [hc] at h
    exact ⟨h, fun he => hs (he ▸ h)⟩
  · rw [hc] at h
    exact ⟨by simp [h], fun he => hx (he ▸ h)⟩

theorem mem_lexLine_val {line : Str} {b : UInt8} (h : b ∈ (lexLine line).val) :
    b ∈ line ∧ b ≠ hash :=
  mem_cut_fst (mem_trimSpace (mem_cut h))

theorem valueOf_text {line : Str} (h : newline ∉ line) :
    ScriptText (valueOf line (lexLine line)).1 ∧
      ((lexLine line).key ∉ scriptKeys → ValueText (valueOf line (lexLine line)).1) ∧
      CommentLine (valueOf line (lexLine line)).2 ∧
      ((lexLine line).key ∈ scriptKeys → (valueOf line (lexLine line)).2 = []) := by
  rw [valueOf]
  split_ifs with hs
  · have hv : ScriptText (trimSpace (cut line equals).2.1) :=
      ⟨trimSpace_trimmed _, fun hb => h (mem_cut (mem_trimSpace hb))⟩
    exact ⟨hv, fun hn => absurd hs hn, Or.inl rfl, fun _ => rfl⟩
  · have hv : ValueText (trimSpace (lexLine line).val) :=
      { trimmed := trimSpace_trimmed _
        oneLine := fun hb => h (mem_lexLine_val (mem_trimSpace hb)).1
        noHash := fun hb => (mem_lexLine_val (mem_trimSpace hb)).2 rfl }
    exact ⟨hv.toScriptText, fun _ => hv, lexLine_comment_ok h, fun hn => absurd hn hs⟩

structure ParserState.Ok (urlParse : Str → Option URL) (name : Str) (st : ParserState) : Prop where
  name_eq : st.conf.name = name
  noFiles : st.conf.wsTLSFiles = []
  interface : st.conf.interface.Ok
  peers : ∀ p ∈ st.conf.peers, p.Done urlParse
  current : ∀ p wsKeys, st.state = .inPeerSection p wsKeys → p.Ok urlParse wsKeys
  pending : ∀ b ∈ st.pendingComments, CommentLine b

theorem interface_ok_empty : Interface.Ok {} where
  header := Comments.ok_empty
  lines _ := Comments.ok_empty
  script _ _ := rfl
  fields k := by
    have hs : ScriptText [] := ⟨by decide, by decide⟩
    cases k <;> simp [Interface.FieldOk, hs]
  commented k h := by simp [Comments.isEmpty] at h

theorem newPeer_ok {pending : List Str} {comment : Str} (hp : ∀ b ∈ pending, CommentLine b)
    (hc : CommentLine comment) : (newPeer pending comment).Ok urlParse [] where
  header := ⟨hp, hc⟩
  lines _ := Comments.ok_empty
  fields k := by
    have hv : ValueText [] := ⟨⟨by decide, by decide⟩, by decide⟩
    cases k <;> simp [Peer.FieldOk, newPeer, hv]
  commented k h := by simp [newPeer, Comments.isEmpty] at h
  websocket _ k hk := by cases k <;> first | exact absurd rfl hk | rfl
  counters := ⟨rfl, rfl, rfl⟩

theorem ParserState.Ok.finishPeer {name : Str} {st : ParserState} (h : st.Ok urlParse name)
    {conf : Config} (hfin : st.finishPeer = .ok conf) :
    conf.name = name ∧ conf.wsTLSFiles = [] ∧ conf.interface = st.conf.interface ∧
      ∀ p ∈ conf.peers, p.Done urlParse := by
  rw [ParserState.finishPeer] at hfin
  split at hfin
  · rename_i peer wsKeys hstate
    obtain ⟨u, hval, hfin⟩ := bind_eq_ok hfin
    cases hfin
    refine ⟨h.name_eq, h.noFiles, rfl, ?_⟩
    exact List.forall_mem_append.mpr
      ⟨h.peers, List.forall_mem_singleton.mpr ⟨wsKeys, h.current peer wsKeys hstate, hval⟩⟩
  · cases hfin
    exact ⟨h.name_eq, h.noFiles, rfl, h.peers⟩

theorem ParserState.Ok.step {name : Str} {st st' : ParserState} {line : Str}
    (h : st.Ok urlParse name) (hline : newline ∉ line) (hstep : ParseStep urlParse st line st') :
    st'.Ok urlParse name := by
  have hcom := lexLine_comment_ok hline
  obtain ⟨hscript, hvalue, hvcom, hnocom⟩ := valueOf_text hline
  cases hstep with
  | blank hs =>
    refine ⟨h.name_eq, h.noFiles, h.interface, h.peers, h.current, ?_⟩
    exact List.forall_mem_append.mpr ⟨h.pending, List.forall_mem_singleton.mpr hcom⟩
  | interface hs hkey hval hfin =>
    obtain ⟨hname, hfiles, hif, hpeers⟩ := h.finishPeer hfin
    refine ⟨hname, hfiles, ?_, hpeers, by simp, by simp⟩
    have hi := h.interface
    rw [← hif] at hi
    have hf := Interface.fieldOk_comments
    exact ⟨hi.header.attach h.pending hcom, hi.lines, hi.script,
      fun k => (hf _ _ k).mpr (hi.fields k), fun k hk => by
        have := hi.commented k hk
        cases k <;> exact this⟩
  | peer hs hkey hval hfin =>
    obtain ⟨hname, hfiles, hif, hpeers⟩ := h.finishPeer hfin
    refine ⟨hname, hfiles, hif ▸ h.interface, hpeers, ?_, by simp⟩
    intro p wsKeys hst
    cases hst
    exact newPeer_ok h.pending hcom
  | @interfaceKey k i hs hval hstate hk hne hset =>
    have hlow := InterfaceKey.lower_of_ofLower hk
    have hiff := InterfaceKey.lower_mem_scriptKeys k
    rw [hlow] at hiff
    refine ⟨h.name_eq, h.noFiles, ?_, h.peers, ?_, by simp⟩
    · apply h.interface.setKey h.pending hvcom (fun hsc => hnocom (hiff.mpr hsc)) hscript _ hne hset
      intro hsc
      exact hvalue fun hmem => by simp [hiff.mp hmem] at hsc
    · intro p wsKeys hst
      cases hst
  | @peerKey p p' wsKeys k hs hval hstate hk hne hset =>
    have hlow := PeerKey.lower_of_ofLower hk
    have hns := PeerKey.lower_notMem_scriptKeys k
    rw [hlow] at hns
    refine ⟨h.name_eq, h.noFiles, h.interface, h.peers, ?_, by simp⟩
    intro q ws hst
    cases hst
    exact (h.current p wsKeys hstate).setKey h.pending hvcom (hvalue hns) hne hset

theorem ParserState.Ok.run {name s : Str} {st : ParserState}
    (h : (s.splitOn newline).foldlM (parseLine urlParse) { conf := { name := name } } = .ok st) :
    st.Ok urlParse name := by
  apply foldlM_invariant (ParserState.Ok urlParse name) _ _ h
  · intro st line st' hline hst hstep
    exact hst.step (of_mem_splitOn hline).1 (parseLine_step hstep)
  · exact ⟨rfl, rfl, interface_ok_empty, by simp, by simp, by simp⟩

def SectionComments.Pruned {K : Type} (c : SectionComments K) : Prop :=
  PrunedRun c.header.before true false ∧ ∀ k, PrunedRun (c.lines k).before false false

theorem pruneSectionComments_pruned {K : Type} (c : SectionComments K) :
    (pruneSectionComments c).Pruned :=
  ⟨pruneComments_pruned _ _ _, fun _ => pruneComments_pruned _ _ _⟩

structure Config.Canonical (urlParse : Str → Option URL) (c : Config) : Prop where
  name : tunnelNameIsValid c.name = true
  noFiles : c.wsTLSFiles = []
  interface : c.interface.Ok
  interfacePruned : c.interface.comments.Pruned
  peers : ∀ p ∈ c.peers, p.Done urlParse ∧ p.comments.Pruned ∧ p.publicKey.isZero = false
  trailing : ∀ b ∈ c.trailingComments, CommentLine b
  trailingPruned : PrunedRun c.trailingComments false true

theorem Interface.Ok.pruned {i : Interface} (h : i.Ok) :
    Interface.Ok { i with comments := pruneSectionComments i.comments } where
  header := h.header.pruned _ _
  lines k := (h.lines k).pruned _ _
  script := h.script
  fields k := (Interface.fieldOk_comments i _ k).mpr (h.fields k)
  commented k hk := by
    have hc : (i.comments.lines k).isEmpty = false := by
      cases he : (i.comments.lines k).isEmpty with
      | false => rfl
      | true =>
        exact absurd (Comments.isEmpty_pruned he false false) (by rw [Bool.not_eq_true]; exact hk)
    have := h.commented k hc
    cases k <;> exact this

theorem Peer.Unwritten.pruned {p : Peer} {k : PeerKey} (h : p.Unwritten k) :
    Peer.Unwritten { p with comments := pruneSectionComments p.comments } k := by
  have hfield : Peer.field { p with comments := pruneSectionComments p.comments } k =
      p.field k := by
    cases k <;> rfl
  rw [Peer.Unwritten, hfield]
  rw [Peer.Unwritten] at h
  cases hf : p.field k with
  | none => rfl
  | some f =>
    obtain ⟨present, value⟩ := f
    rw [hf] at h
    simp only [writeField] at h ⊢
    split_ifs at h with he
    · rw [Bool.and_eq_true] at he
      rw [if_pos]
      rw [Bool.and_eq_true]
      exact ⟨he.1, Comments.isEmpty_pruned he.2 false false⟩
    · simp [writeLine] at h

theorem Peer.Done.pruned {p : Peer} (h : p.Done urlParse) :
    Peer.Done urlParse { p with comments := pruneSectionComments p.comments } := by
  obtain ⟨wsKeys, hok, hval⟩ := h
  refine ⟨wsKeys, ?_, hval⟩
  constructor
  · exact hok.header.pruned _ _
  · exact fun k => (hok.lines k).pruned _ _
  · exact fun k => (Peer.fieldOk_comments p _ k).mpr (hok.fields k)
  · intro k hk
    have hc : (p.comments.lines k).isEmpty = false := by
      cases he : (p.comments.lines k).isEmpty with
      | false => rfl
      | true =>
        exact absurd (Comments.isEmpty_pruned he false false) (by rw [Bool.not_eq_true]; exact hk)
    have := hok.commented k hc
    cases k <;> exact this
  · exact fun hn k hk => (hok.websocket hn k hk).pruned
  · exact hok.counters

theorem fromWgQuick_eq_ok {s name : Str} {c : Config} (h : fromWgQuick urlParse s name = .ok c) :
    tunnelNameIsValid name = true ∧ ∃ st conf,
      (s.splitOn newline).foldlM (parseLine urlParse) { conf := { name := name } } = .ok st ∧
      st.finishPeer = .ok conf ∧ c = conf.pruned st.pendingComments ∧ st.sawPrivateKey = true ∧
      c.peers.any (·.publicKey.isZero) = false := by
  rw [fromWgQuick] at h
  split_ifs at h with hn
  obtain ⟨st, hst, h⟩ := bind_eq_ok h
  obtain ⟨conf, hconf, h⟩ := bind_eq_ok h
  dsimp only at h
  split_ifs at h with hsaw hzero
  cases h
  exact ⟨hn, st, conf, hst, hconf, rfl, by simpa using hsaw, by simpa using hzero⟩

theorem fromWgQuick_canonical {s name : Str} {c : Config}
    (h : fromWgQuick urlParse s name = .ok c) : c.Canonical urlParse ∧ c.name = name := by
  obtain ⟨hn, st, conf, hst, hconf, rfl, -, hzero⟩ := fromWgQuick_eq_ok h
  have hok := ParserState.Ok.run hst
  obtain ⟨hname, hfiles, hif, hpeers⟩ := hok.finishPeer hconf
  refine ⟨⟨?_, hfiles, ?_, pruneSectionComments_pruned _, ?_, ?_, pruneComments_pruned _ _ _⟩,
    hname⟩
  · exact hname.symm ▸ hn
  · exact (hif ▸ hok.interface).pruned
  · intro p hp
    obtain ⟨q, hq, rfl⟩ := List.mem_map.mp hp
    refine ⟨(hpeers q hq).pruned, pruneSectionComments_pruned _, ?_⟩
    have hz := List.any_eq_false.mp hzero _ hp
    simpa using hz
  · intro b hb
    rcases mem_pruneComments hb with rfl | hb
    · exact Or.inl rfl
    · exact hok.pending b hb

def Config.withName (name : Str) (conf : Config) : Config := { conf with name := name }

def ParserState.withName (name : Str) (st : ParserState) : ParserState :=
  { st with conf := st.conf.withName name }

theorem ParserState.finishPeer_withName (name : Str) (st : ParserState) :
    (st.withName name).finishPeer = st.finishPeer.map (Config.withName name) := by
  obtain ⟨conf, state, saw, pending⟩ := st
  cases state with
  | notInASection | inInterfaceSection => rfl
  | inPeerSection peer wsKeys =>
    simp only [finishPeer, withName]
    cases validateWebSocketPeer peer wsKeys <;> rfl

theorem ParserState.setKey_withName (name : Str) (st : ParserState) (key val comment : Str) :
    (st.withName name).setKey urlParse key val comment =
      (st.setKey urlParse key val comment).map (ParserState.withName name) := by
  obtain ⟨conf, state, saw, pending⟩ := st
  cases state with
  | notInASection => rfl
  | inInterfaceSection =>
    simp only [setKey, withName, Config.withName]
    cases InterfaceKey.ofLower key with
    | none => rfl
    | some k =>
      dsimp only
      cases Interface.set { conf.interface with
        comments := conf.interface.comments.attach k pending comment } val k <;> rfl
  | inPeerSection p wsKeys =>
    simp only [setKey, withName, Config.withName]
    cases PeerKey.ofLower key with
    | none => rfl
    | some k =>
      dsimp only
      cases Peer.set urlParse { p with
        comments := p.comments.attach k pending comment } val k <;> rfl

theorem parseLine_withName (name : Str) (st : ParserState) (line : Str) :
    parseLine urlParse (st.withName name) line = (parseLine urlParse st line).map
      (ParserState.withName name) := by
  have hfin := st.finishPeer_withName name
  simp only [parseLine]
  by_cases hs : (lexLine line).stripped = []
  · rw [if_pos hs, if_pos hs]
    rfl
  rw [if_neg hs, if_neg hs]
  by_cases hi : (lexLine line).key = str "[interface]" ∧ ¬ (lexLine line).hasValue = true
  · rw [if_pos hi, if_pos hi, hfin]
    cases st.finishPeer <;> rfl
  rw [if_neg hi, if_neg hi]
  by_cases hp : (lexLine line).key = str "[peer]" ∧ ¬ (lexLine line).hasValue = true
  · rw [if_pos hp, if_pos hp, hfin]
    cases st.finishPeer <;> rfl
  rw [if_neg hp, if_neg hp]
  have hkey := @ParserState.setKey_withName urlParse name st (lexLine line).key
    (valueOf line (lexLine line)).1 (valueOf line (lexLine line)).2
  rw [hkey]
  obtain ⟨conf, state, saw, pending⟩ := st
  cases state with
  | notInASection => rfl
  | inInterfaceSection | inPeerSection p wsKeys =>
    dsimp only [ParserState.withName]
    split_ifs <;> rfl

theorem parseLines_withName (name : Str) (lines : List Str) (st : ParserState) :
    lines.foldlM (parseLine urlParse) (st.withName name) =
      (lines.foldlM (parseLine urlParse) st).map (ParserState.withName name) := by
  induction lines generalizing st with
  | nil => rfl
  | cons line lines ih =>
    rw [List.foldlM_cons, List.foldlM_cons, parseLine_withName]
    cases parseLine urlParse st line with
    | error e => rfl
    | ok st' => exact ih st'

theorem fromWgQuick_withName {s name name' : Str} (hname : tunnelNameIsValid name = true)
    (hname' : tunnelNameIsValid name' = true) :
    fromWgQuick urlParse s name' = (fromWgQuick urlParse s name).map (Config.withName name') := by
  have hrun := @parseLines_withName urlParse name' (s.splitOn newline) { conf := { name := name } }
  rw [fromWgQuick, fromWgQuick, if_neg (not_not.mpr hname), if_neg (not_not.mpr hname')]
  rw [show ({ conf := { name := name' } } : ParserState) =
    ParserState.withName name' { conf := { name := name } } from rfl, hrun]
  cases hst : (s.splitOn newline).foldlM (parseLine urlParse) { conf := { name := name } } with
  | error e => rfl
  | ok st =>
    have hfin := st.finishPeer_withName name'
    simp only [Except.map, bind, Except.bind] at hfin ⊢
    rw [hfin]
    cases st.finishPeer with
    | error e => rfl
    | ok conf =>
      dsimp only [ParserState.withName]
      by_cases hsaw : ¬ st.sawPrivateKey = true
      · rw [if_pos hsaw]
        exact if_pos hsaw
      · rw [if_neg hsaw]
        refine (if_neg hsaw).trans ?_
        by_cases hzero : (conf.pruned st.pendingComments).peers.any (·.publicKey.isZero) = true
        · rw [if_pos hzero]
          exact if_pos hzero
        · rw [if_neg hzero]
          exact if_neg hzero

end WireGuardWindows.Conf
