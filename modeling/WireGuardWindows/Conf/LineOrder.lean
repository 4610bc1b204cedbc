import WireGuardWindows.Conf.Settings

/-!
# The order of the lines

An outline of a text lists its settings, those of all interface sections together and those of
each peer section apart. The parser's state is matched with the outline of the lines it has
read; a text with an error has an outline that no state matches.
-/

namespace WireGuardWindows.Conf
open GoStd Strings Strconv Netip Loops KeyedValues

/-- The key of a line in lower case, and its value if the line has an equals sign. -/
abbrev Setting := Str × Option Str

def settingOf (line : Str) : Setting :=
  let l := lexLine line
  (l.key, if l.hasValue then some (valueOf line l).1 else none)

inductive OutlinePlace
  | outside
  | interface
  | peer (settings : List Setting)

structure Outline where
  outside : List Str := []
  interface : List Setting := []
  finished : List (List Setting) := []
  place : OutlinePlace := .outside

namespace Outline

def peers (ol : Outline) : List (List Setting) :=
  match ol.place with
  | .peer es => ol.finished ++ [es]
  | _ => ol.finished

def step (ol : Outline) (line : Str) : Outline :=
  let l := lexLine line
  if l.stripped = [] then ol
  else if l.key = str "[interface]" ∧ ¬ l.hasValue then
    { ol with finished := ol.peers, place := .interface }
  else if l.key = str "[peer]" ∧ ¬ l.hasValue then
    { ol with finished := ol.peers, place := .peer [] }
  else match ol.place with
    | .outside => { ol with outside := ol.outside ++ [line] }
    | .interface => { ol with interface := ol.interface ++ [settingOf line] }
    | .peer es => { ol with place := .peer (es ++ [settingOf line]) }

end Outline

def outline (s : Str) : Outline := (s.splitOn newline).foldl Outline.step {}

/-- Both texts consist of sections, and these have the same values for every key. -/
structure SameSections (s s' : Str) : Prop where
  left : (outline s).outside = []
  right : (outline s').outside = []
  interface : SameValues (outline s).interface (outline s').interface
  peers : List.Forall₂ SameValues (outline s).peers (outline s').peers

def valuesGiven {K : Type} (lower : K → Str) (es : List Setting) (k : K) : List Str :=
  (valuesOf es (lower k)).reduceOption

section
variable {K : Type} {lower : K → Str}

theorem valuesGiven_concat [DecidableEq K] (hinj : Function.Injective lower) (es : List Setting)
    (k : K) (val : Str) :
    valuesGiven lower (es ++ [(lower k, some val)]) =
      Function.update (valuesGiven lower es) k (valuesGiven lower es k ++ [val]) := by
  funext k'
  by_cases hk : k' = k
  · subst hk
    rw [Function.update_self, valuesGiven, valuesOf_concat_self, List.reduceOption_append]
    rfl
  · rw [Function.update_of_ne hk, valuesGiven, valuesOf_concat_of_ne]
    · rfl
    · exact fun h => hk (hinj h.symm)

theorem SameValues.given {es fs : List Setting} (h : SameValues es fs) :
    valuesGiven lower es = valuesGiven lower fs := by
  funext k
  rw [valuesGiven, h, valuesGiven]

end

theorem InterfaceKey.lower_injective : Function.Injective InterfaceKey.lower :=
  fun a b h =>
    Option.some.inj (a.ofLower_lower.symm.trans ((congrArg ofLower h).trans b.ofLower_lower))

theorem PeerKey.lower_injective : Function.Injective PeerKey.lower :=
  fun a b h =>
    Option.some.inj (a.ofLower_lower.symm.trans ((congrArg ofLower h).trans b.ofLower_lower))

def InterfaceSettingOk (e : Setting) : Prop :=
  ∃ k val i, InterfaceKey.ofLower e.1 = some k ∧ e.2 = some val ∧ val ≠ [] ∧
    Interface.set {} val k = .ok i

def PeerSettingOk (urlParse : Str → Option URL) (e : Setting) : Prop :=
  ∃ k val p, PeerKey.ofLower e.1 = some k ∧ e.2 = some val ∧ val ≠ [] ∧
    Peer.set urlParse {} val k = .ok p

def wsKeysOf (es : List Setting) : List Str :=
  es.flatMap fun e => ((PeerKey.ofLower e.1).bind PeerKey.wsKeyName).toList

structure PeerDone (urlParse : Str → Option URL) (p : Peer) (es : List Setting) : Prop where
  settings : ∀ e ∈ es, PeerSettingOk urlParse e
  given : p.Given urlParse (valuesGiven PeerKey.lower es)
  valid : validateWebSocketPeer p (wsKeysOf es) = .ok ()

variable {urlParse : Str → Option URL}

theorem validateWebSocketPeer_congr {p q : Peer} {wsKeys wsKeys' : List Str}
    (hp : p.withoutComments = q.withoutComments) (hkeys : wsKeys = [] ↔ wsKeys' = [])
    (h : validateWebSocketPeer p wsKeys = .ok ()) : validateWebSocketPeer q wsKeys' = .ok () := by
  change validateWebSocketPeer p.withoutComments wsKeys = .ok () at h
  change validateWebSocketPeer q.withoutComments wsKeys' = .ok ()
  rw [hp] at h
  unfold validateWebSocketPeer at h ⊢
  dsimp only at h ⊢
  split_ifs at h ⊢ with _ _ _ _ _ hnew hold
  · exact absurd ⟨hnew.1, fun hnil => hnew.2 (hkeys.mp hnil)⟩ hold
  · rfl

theorem wsKeysOf_eq_nil {es fs : List Setting} (h : SameValues es fs) :
    wsKeysOf es = [] ↔ wsKeysOf fs = [] := by
  simp only [wsKeysOf, List.flatMap_eq_nil_iff]
  exact ⟨fun hes e he => hes e (h.symm.mem he), fun hfs e he => hfs e (h.mem he)⟩

theorem PeerDone.congr {p : Peer} {es fs : List Setting} (h : PeerDone urlParse p es)
    (hsame : SameValues es fs) : PeerDone urlParse p fs where
  settings e he := h.settings e (hsame.symm.mem he)
  given := by
    rw [← SameValues.given hsame]
    exact h.given
  valid := validateWebSocketPeer_congr rfl (wsKeysOf_eq_nil hsame) h.valid

structure Outline.Accepted (urlParse : Str → Option URL) (ol : Outline) : Prop where
  outside : ol.outside = []
  interface : ∀ e ∈ ol.interface, InterfaceSettingOk e
  finished : ∀ es ∈ ol.finished, ∃ p, PeerDone urlParse p es
  current : ∀ es, ol.place = .peer es → ∀ e ∈ es, PeerSettingOk urlParse e

def PlaceMatches (urlParse : Str → Option URL) : Section → OutlinePlace → Prop
  | .notInASection, .outside => True
  | .inInterfaceSection, .interface => True
  | .inPeerSection p wsKeys, .peer es =>
    p.Given urlParse (valuesGiven PeerKey.lower es) ∧ wsKeys = wsKeysOf es
  | _, _ => False

structure Outline.Matches (urlParse : Str → Option URL) (name : Str) (ol : Outline)
    (st : ParserState) : Prop where
  accepted : ol.Accepted urlParse
  place : PlaceMatches urlParse st.state ol.place
  conf : st.conf = { name := name, interface := st.conf.interface, peers := st.conf.peers }
  interface : st.conf.interface.Given (valuesGiven InterfaceKey.lower ol.interface)
  peers : List.Forall₂ (PeerDone urlParse) st.conf.peers ol.finished
  sawPrivateKey : st.sawPrivateKey = true ↔
    ∃ val, (InterfaceKey.privateKey.lower, val) ∈ ol.interface

def Outline.Follows (urlParse : Str → Option URL) (name : Str) (ol : Outline) :
    Except Error ParserState → Prop
  | .ok st => ol.Matches urlParse name st
  | .error _ => ¬ ol.Accepted urlParse

namespace Outline
variable {name : Str} {ol : Outline} {st : ParserState}

theorem peers_of_peer {es : List Setting} (h : ol.place = .peer es) :
    ol.peers = ol.finished ++ [es] := by
  rw [peers, h]

theorem peers_of_not_peer (h : ∀ es, ol.place ≠ .peer es) : ol.peers = ol.finished := by
  rw [peers]
  split
  · rename_i es hes
    exact absurd hes (h es)
  · rfl

def Closed (urlParse : Str → Option URL) (ol : Outline) : Prop :=
  ol.outside = [] ∧ (∀ e ∈ ol.interface, InterfaceSettingOk e) ∧
    ∀ es ∈ ol.peers, ∃ p, PeerDone urlParse p es

theorem Closed.accepted (h : ol.Closed urlParse) : ol.Accepted urlParse where
  outside := h.1
  interface := h.2.1
  finished es hes := by
    apply h.2.2
    rw [peers]
    split
    · exact List.mem_append_left _ hes
    · exact hes
  current es hplace := by
    obtain ⟨p, hp⟩ := h.2.2 es (by rw [peers_of_peer hplace]; simp)
    exact hp.settings

theorem accepted_of_step {line : Str} (h : (ol.step line).Accepted urlParse) :
    ol.Accepted urlParse := by
  rw [step] at h
  split_ifs at h
  · exact h
  · exact Closed.accepted ⟨h.outside, h.interface, h.finished⟩
  · exact Closed.accepted ⟨h.outside, h.interface, h.finished⟩
  · cases hplace : ol.place with
    | outside =>
      rw [hplace] at h
      exact absurd h.outside (by simp)
    | interface =>
      rw [hplace] at h
      exact ⟨h.outside, fun e he => h.interface e (List.mem_append_left _ he), h.finished,
        fun es hes => by cases hplace.symm.trans hes⟩
    | peer es =>
      rw [hplace] at h
      refine ⟨h.outside, h.interface, h.finished, ?_⟩
      intro es' hes' e he
      cases hplace.symm.trans hes'
      exact h.current _ rfl e (List.mem_append_left _ he)

theorem Matches.not_peer (h : ol.Matches urlParse name st)
    (hst : ∀ p wsKeys, st.state ≠ .inPeerSection p wsKeys) :
    ∀ es, ol.place ≠ .peer es := by
  intro es hes
  have hplace := h.place
  rw [hes] at hplace
  cases hstate : st.state with
  | notInASection | inInterfaceSection =>
    rw [hstate] at hplace
    exact hplace
  | inPeerSection p wsKeys => exact hst p wsKeys hstate

theorem Matches.peer (h : ol.Matches urlParse name st) {p : Peer} {wsKeys : List Str}
    (hst : st.state = .inPeerSection p wsKeys) :
    ∃ es, ol.place = .peer es ∧ p.Given urlParse (valuesGiven PeerKey.lower es) ∧
      wsKeys = wsKeysOf es := by
  have hplace := h.place
  rw [hst] at hplace
  cases hol : ol.place with
  | outside | interface =>
    rw [hol] at hplace
    exact hplace.elim
  | peer es =>
    rw [hol] at hplace
    exact ⟨es, rfl, hplace⟩

def Finishes (urlParse : Str → Option URL) (name : Str) (ol : Outline) (st : ParserState) :
    Except Error Config → Prop
  | .ok conf => ol.Closed urlParse ∧ conf.interface = st.conf.interface ∧
      conf = { name := name, interface := conf.interface, peers := conf.peers } ∧
      List.Forall₂ (PeerDone urlParse) conf.peers ol.peers
  | .error _ => ¬ ol.Closed urlParse

theorem Matches.closed (h : ol.Matches urlParse name st)
    (hpeers : ∀ es, ol.place = .peer es → ∃ p, PeerDone urlParse p es) : ol.Closed urlParse := by
  refine ⟨h.accepted.outside, h.accepted.interface, ?_⟩
  intro es hes
  rw [Outline.peers] at hes
  split at hes
  · rename_i es' hplace
    rcases List.mem_append.mp hes with hes | hes
    · exact h.accepted.finished es hes
    · rw [List.mem_singleton.mp hes]
      exact hpeers es' hplace
  · exact h.accepted.finished es hes

theorem Matches.finishPeer (h : ol.Matches urlParse name st) :
    ol.Finishes urlParse name st st.finishPeer := by
  rw [ParserState.finishPeer]
  split
  · rename_i p wsKeys hst
    obtain ⟨es, hplace, hgiven, rfl⟩ := h.peer hst
    cases hvalid : validateWebSocketPeer p (wsKeysOf es) with
    | error e =>
      -- Any peer with these settings differs from this one by comments alone.
      intro hclosed
      obtain ⟨q, hq⟩ := hclosed.2.2 es (by rw [peers_of_peer hplace]; simp)
      have hsame := hq.given.unique hgiven
      rw [validateWebSocketPeer_congr hsame Iff.rfl hq.valid] at hvalid
      cases hvalid
    | ok u =>
      have hdone : PeerDone urlParse p es := ⟨h.accepted.current es hplace, hgiven, hvalid⟩
      refine ⟨h.closed ?_, rfl, ?_, ?_⟩
      · intro es' hes'
        cases hplace.symm.trans hes'
        exact ⟨p, hdone⟩
      · rw [h.conf]
      · rw [peers_of_peer hplace]
        exact List.rel_append h.peers (.cons hdone .nil)
  · rename_i hst
    have hnot := h.not_peer hst
    refine ⟨h.closed fun es hes => absurd hes (hnot es), rfl, h.conf, ?_⟩
    rw [peers_of_not_peer hnot]
    exact h.peers

theorem Matches.interfaceSetting (h : ol.Matches urlParse name st)
    (hst : st.state = .inInterfaceSection) (hplace : ol.place = .interface) (key comment : Str)
    {val : Str} (hne : val ≠ []) :
    Follows urlParse name { ol with interface := ol.interface ++ [(key, some val)] }
      (st.setKey urlParse key val comment) := by
  have hok : Accepted urlParse { ol with interface := ol.interface ++ [(key, some val)] } →
      InterfaceSettingOk (key, some val) :=
    fun hacc => hacc.interface _ (by simp)
  rw [ParserState.setKey, hst]
  dsimp only
  cases hk : InterfaceKey.ofLower key with
  | none =>
    intro hacc
    obtain ⟨k, _, _, hk', -⟩ := hok hacc
    cases hk.symm.trans hk'
  | some k =>
    obtain rfl := InterfaceKey.lower_of_ofLower hk
    dsimp only
    cases hset : Interface.set { st.conf.interface with
        comments := st.conf.interface.comments.attach k st.pendingComments comment } val k with
    | error e =>
      intro hacc
      obtain ⟨k', val', i, hk', hval', -, hi⟩ := hok hacc
      obtain rfl := Option.some.inj (hk.symm.trans hk')
      obtain rfl := Option.some.inj hval'
      obtain ⟨i', hi'⟩ := Interface.set_isOk _ _ _ _ ⟨i, hi⟩
      cases hset.symm.trans hi'
    | ok i =>
      obtain ⟨i', hi'⟩ := Interface.set_isOk _ {} _ _ ⟨i, hset⟩
      refine ⟨⟨h.accepted.outside, ?_, h.accepted.finished, h.accepted.current⟩, ?_, ?_,
        ?_, h.peers, ?_⟩
      · exact List.forall_mem_append.mpr
          ⟨h.accepted.interface, List.forall_mem_singleton.mpr ⟨k, val, i', hk, rfl, hne, hi'⟩⟩
      · rw [hplace]
        trivial
      · dsimp only
        rw [h.conf]
      · rw [valuesGiven_concat InterfaceKey.lower_injective]
        exact (h.interface.comments _).set hset
      · have hlower : k = .privateKey ↔ k.lower = InterfaceKey.privateKey.lower :=
          InterfaceKey.lower_injective.eq_iff.symm
        simp only [Bool.or_eq_true, h.sawPrivateKey, beq_iff_eq, hlower, List.mem_append,
          List.mem_singleton, Prod.mk.injEq, exists_or, exists_and_left, exists_eq, and_true]
        rw [eq_comm (a := k.lower)]

theorem Matches.peerSetting (h : ol.Matches urlParse name st) {p : Peer} {wsKeys : List Str}
    (hst : st.state = .inPeerSection p wsKeys) {es : List Setting} (hplace : ol.place = .peer es)
    (key comment : Str) {val : Str} (hne : val ≠ []) :
    Follows urlParse name { ol with place := .peer (es ++ [(key, some val)]) }
      (st.setKey urlParse key val comment) := by
  obtain ⟨es', hplace', hgiven, rfl⟩ := h.peer hst
  cases hplace.symm.trans hplace'
  have hok : Accepted urlParse { ol with place := .peer (es ++ [(key, some val)]) } →
      PeerSettingOk urlParse (key, some val) :=
    fun hacc => hacc.current _ rfl _ (by simp)
  rw [ParserState.setKey, hst]
  dsimp only
  cases hk : PeerKey.ofLower key with
  | none =>
    intro hacc
    obtain ⟨k, _, _, hk', -⟩ := hok hacc
    cases hk.symm.trans hk'
  | some k =>
    obtain rfl := PeerKey.lower_of_ofLower hk
    dsimp only
    cases hset : Peer.set urlParse { p with
        comments := p.comments.attach k st.pendingComments comment } val k with
    | error e =>
      intro hacc
      obtain ⟨k', val', q, hk', hval', -, hq⟩ := hok hacc
      obtain rfl := Option.some.inj (hk.symm.trans hk')
      obtain rfl := Option.some.inj hval'
      obtain ⟨q', hq'⟩ := Peer.set_isOk _ _ _ _ ⟨q, hq⟩
      cases hset.symm.trans hq'
    | ok p' =>
      obtain ⟨q', hq'⟩ := Peer.set_isOk _ {} _ _ ⟨p', hset⟩
      refine ⟨⟨h.accepted.outside, h.accepted.interface, h.accepted.finished, ?_⟩, ⟨?_, ?_⟩, h.conf,
        h.interface, h.peers, h.sawPrivateKey⟩
      · intro fs hfs e he
        cases hfs
        exact List.forall_mem_append.mpr ⟨h.accepted.current es hplace,
          List.forall_mem_singleton.mpr ⟨k, val, q', hk, rfl, hne, hq'⟩⟩ e he
      · rw [valuesGiven_concat PeerKey.lower_injective]
        exact (hgiven.comments _).set hset
      · rw [wsKeysOf, wsKeysOf, List.flatMap_append, List.flatMap_singleton, hk]
        rfl

theorem follows_setting {line : Str}
    (hbad : ol.Accepted urlParse → ∃ val, (settingOf line).2 = some val ∧ val ≠ [])
    (hgood : ∀ val, settingOf line = ((lexLine line).key, some val) → val ≠ [] →
      ol.Follows urlParse name
        (st.setKey urlParse (lexLine line).key val (valueOf line (lexLine line)).2)) :
    ol.Follows urlParse name (if ¬ (lexLine line).hasValue = true then
      .error (.parseError "Config key is missing an equals separator" (lexLine line).stripped)
    else if (valueOf line (lexLine line)).1 = [] then
      .error (.parseError "Key must have a value" (lexLine line).stripped)
    else st.setKey urlParse (lexLine line).key (valueOf line (lexLine line)).1
      (valueOf line (lexLine line)).2) := by
  by_cases hval : (lexLine line).hasValue = true
  · have hsetting : settingOf line =
        ((lexLine line).key, some (valueOf line (lexLine line)).1) := by
      simp [settingOf, hval]
    rw [if_neg (not_not.mpr hval)]
    by_cases hne : (valueOf line (lexLine line)).1 = []
    · rw [if_pos hne]
      intro hacc
      obtain ⟨val, hsome, hval'⟩ := hbad hacc
      rw [hsetting] at hsome
      exact hval' ((Option.some.inj hsome).symm.trans hne)
    · rw [if_neg hne]
      exact hgood _ hsetting hne
  · rw [if_pos hval]
    intro hacc
    obtain ⟨val, hsome, -⟩ := hbad hacc
    simp [settingOf, hval] at hsome

theorem Matches.step (h : ol.Matches urlParse name st) (line : Str) :
    Follows urlParse name (ol.step line) (parseLine urlParse st line) := by
  rw [parseLine, Outline.step]
  by_cases hs : (lexLine line).stripped = []
  · rw [if_pos hs, if_pos hs]
    exact ⟨h.accepted, h.place, h.conf, h.interface, h.peers, h.sawPrivateKey⟩
  rw [if_neg hs, if_neg hs]
  have hfin := h.finishPeer
  by_cases hi : (lexLine line).key = str "[interface]" ∧ ¬ (lexLine line).hasValue = true
  · rw [if_pos hi, if_pos hi]
    cases hconf : st.finishPeer with
    | error e =>
      rw [hconf] at hfin
      exact fun hacc => hfin ⟨hacc.outside, hacc.interface, hacc.finished⟩
    | ok conf =>
      rw [hconf] at hfin
      obtain ⟨hclosed, hif, hname, hpeers⟩ := hfin
      refine ⟨⟨hclosed.1, hclosed.2.1, hclosed.2.2, ?_⟩, trivial, ?_, ?_, hpeers, h.sawPrivateKey⟩
      · intro es hes
        cases hes
      · dsimp only
        rw [hname]
      · dsimp only
        rw [hif]
        exact h.interface.comments _
  rw [if_neg hi, if_neg hi]
  by_cases hp : (lexLine line).key = str "[peer]" ∧ ¬ (lexLine line).hasValue = true
  · rw [if_pos hp, if_pos hp]
    cases hconf : st.finishPeer with
    | error e =>
      rw [hconf] at hfin
      exact fun hacc => hfin ⟨hacc.outside, hacc.interface, hacc.finished⟩
    | ok conf =>
      rw [hconf] at hfin
      obtain ⟨hclosed, hif, hname, hpeers⟩ := hfin
      refine ⟨⟨hclosed.1, hclosed.2.1, hclosed.2.2, ?_⟩, ⟨?_, rfl⟩, hname, ?_, hpeers,
        h.sawPrivateKey⟩
      · intro es hes
        cases hes
        simp
      · exact Peer.Given.empty.comments _
      · rw [hif]
        exact h.interface
  rw [if_neg hp, if_neg hp]
  have hplace := h.place
  cases hst : st.state with
  | notInASection =>
    rw [hst] at hplace
    cases hol : ol.place with
    | outside => exact fun hacc => by simpa using hacc.outside
    | interface | peer es =>
      rw [hol] at hplace
      exact hplace.elim
  | inInterfaceSection =>
    rw [hst] at hplace
    cases hol : ol.place with
    | outside | peer es =>
      rw [hol] at hplace
      exact hplace.elim
    | interface =>
      dsimp only
      apply follows_setting
      · intro hacc
        obtain ⟨_, val, _, -, hval, hne, -⟩ := hacc.interface (settingOf line) (by simp)
        exact ⟨val, hval, hne⟩
      · intro val hval hne
        have hset := h.interfaceSetting hst hol (lexLine line).key
          (valueOf line (lexLine line)).2 hne
        rw [hol, ← hval] at hset
        exact hset
  | inPeerSection p wsKeys =>
    obtain ⟨es, hol, -, -⟩ := h.peer hst
    rw [hol]
    dsimp only
    apply follows_setting
    · intro hacc
      obtain ⟨_, val, _, -, hval, hne, -⟩ := hacc.current _ rfl (settingOf line) (by simp)
      exact ⟨val, hval, hne⟩
    · intro val hval hne
      rw [hval]
      exact h.peerSetting hst hol _ _ hne

theorem Follows.run {res : Except Error ParserState} (h : ol.Follows urlParse name res)
    (lines : List Str) :
    (lines.foldl Outline.step ol).Follows urlParse name
      (res >>= lines.foldlM (parseLine urlParse)) := by
  induction lines generalizing ol res with
  | nil =>
    cases res with
    | error e => exact h
    | ok st => exact h
  | cons line lines ih =>
    cases res with
    | error e =>
      have hstep : (ol.step line).Follows urlParse name (.error e) :=
        fun hacc => h (accepted_of_step hacc)
      exact ih hstep
    | ok st => exact ih (Matches.step h line)

end Outline

theorem PeerDone.comments {p : Peer} {es : List Setting} (h : PeerDone urlParse p es)
    (c : SectionComments PeerKey) : PeerDone urlParse { p with comments := c } es :=
  ⟨h.settings, h.given.comments c, h.valid⟩

structure Outline.Describes (urlParse : Str → Option URL) (name : Str) (ol : Outline) (c : Config) :
    Prop where
  interface : c.interface.Given (valuesGiven InterfaceKey.lower ol.interface)
  peers : List.Forall₂ (fun p es => p.Given urlParse (valuesGiven PeerKey.lower es))
    c.peers ol.peers
  others : c.name = name ∧ c.wsTLSFiles = []

structure Outline.Final (urlParse : Str → Option URL) (ol : Outline) : Prop where
  outside : ol.outside = []
  interface : ∀ e ∈ ol.interface, InterfaceSettingOk e
  privateKey : ∃ val, (InterfaceKey.privateKey.lower, val) ∈ ol.interface
  peers : ∀ es ∈ ol.peers, ∃ p, PeerDone urlParse p es ∧ p.publicKey.isZero = false

def Outline.Decides (urlParse : Str → Option URL) (name : Str) (ol : Outline) :
    Except Error Config → Prop
  | .ok c => tunnelNameIsValid name = true ∧ ol.Final urlParse ∧ ol.Describes urlParse name c
  | .error _ => ¬ (tunnelNameIsValid name = true ∧ ol.Final urlParse)

theorem Outline.Final.closed {ol : Outline} (h : ol.Final urlParse) : ol.Closed urlParse :=
  ⟨h.outside, h.interface, fun es hes => (h.peers es hes).imp fun _ hp => hp.1⟩

theorem Outline.Matches.init (name : Str) :
    Outline.Matches urlParse name {} { conf := { name := name } } where
  accepted := ⟨rfl, by simp, by simp, nofun⟩
  place := trivial
  conf := rfl
  interface := Interface.Given.empty
  peers := .nil
  sawPrivateKey := by simp

theorem Outline.Matches.decides {name : Str} {ol : Outline} {st : ParserState}
    (h : ol.Matches urlParse name st) (hname : tunnelNameIsValid name = true) :
    ol.Decides urlParse name (do
      let conf ← st.finishPeer
      let conf := conf.pruned st.pendingComments
      if ¬ st.sawPrivateKey then
        .error (.parseError "An interface must have a private key" (str "[none specified]"))
      else if conf.peers.any (·.publicKey.isZero) then
        .error (.parseError "All peers must have public keys" (str "[none specified]"))
      else return conf) := by
  have hfin := h.finishPeer
  cases hconf : st.finishPeer with
  | error e =>
    rw [hconf] at hfin
    exact fun hfinal => hfin hfinal.2.closed
  | ok conf =>
    rw [hconf] at hfin
    obtain ⟨hclosed, hif, hothers, hpeers⟩ := hfin
    change ol.Decides urlParse name (if ¬ st.sawPrivateKey = true then _
      else if (conf.pruned st.pendingComments).peers.any (·.publicKey.isZero) = true then _
      else .ok (conf.pruned st.pendingComments))
    have hdone : List.Forall₂ (PeerDone urlParse) (conf.pruned st.pendingComments).peers ol.peers :=
      List.forall₂_map_left_iff.mpr (hpeers.imp fun p es hp => hp.comments _)
    by_cases hsaw : st.sawPrivateKey = true
    · rw [if_neg (not_not.mpr hsaw)]
      by_cases hzero : (conf.pruned st.pendingComments).peers.any (·.publicKey.isZero) = true
      · rw [if_pos hzero]
        rintro ⟨-, hfinal⟩
        obtain ⟨p, hp, hpzero⟩ := List.any_eq_true.mp hzero
        obtain ⟨es, hes, hpdone⟩ := forall₂_mem_left hdone hp
        obtain ⟨q, hq, hqzero⟩ := hfinal.peers es hes
        have hkey := Except.ok.inj (hpdone.given.publicKey.symm.trans hq.given.publicKey)
        rw [hkey, hqzero] at hpzero
        cases hpzero
      · rw [if_neg hzero]
        refine ⟨hname, ⟨hclosed.1, hclosed.2.1, h.sawPrivateKey.mp hsaw, ?_⟩, ?_, ?_, ?_⟩
        · intro es hes
          obtain ⟨p, hp, hpdone⟩ := forall₂_mem_right hdone hes
          have hnone := List.any_eq_false.mp (Bool.eq_false_iff.mpr hzero) p hp
          exact ⟨p, hpdone, Bool.eq_false_iff.mpr hnone⟩
        · have hgiven := h.interface
          rw [← hif] at hgiven
          exact hgiven.comments _
        · exact hdone.imp fun p es hp => hp.given
        · rw [hothers]
          exact ⟨rfl, rfl⟩
    · rw [if_pos hsaw]
      exact fun hfinal => hsaw (h.sawPrivateKey.mpr hfinal.2.privateKey)

theorem fromWgQuick_decides (s name : Str) :
    (outline s).Decides urlParse name (fromWgQuick urlParse s name) := by
  have hinit : Outline.Follows urlParse name {} (.ok { conf := { name := name } }) :=
    Outline.Matches.init name
  have hrun : (outline s).Follows urlParse name
      ((s.splitOn newline).foldlM (parseLine urlParse) { conf := { name := name } }) :=
    hinit.run (s.splitOn newline)
  rw [fromWgQuick]
  by_cases hname : tunnelNameIsValid name = true
  · rw [if_neg (not_not.mpr hname)]
    cases hst : (s.splitOn newline).foldlM (parseLine urlParse) { conf := { name := name } } with
    | error e =>
      rw [hst] at hrun
      exact fun h => hrun h.2.closed.accepted
    | ok st =>
      rw [hst] at hrun
      exact hrun.decides hname
  · rw [if_pos hname]
    exact fun h => hname h.1

theorem Outline.Final.congr {s s' : Str} (hsame : SameSections s s')
    (h : (outline s).Final urlParse) : (outline s').Final urlParse where
  outside := hsame.right
  interface e he := h.interface e (hsame.interface.symm.mem he)
  privateKey := h.privateKey.imp fun _ hval => hsame.interface.mem hval
  peers fs hfs := by
    obtain ⟨es, hes, hvalues⟩ := forall₂_mem_right hsame.peers hfs
    exact (h.peers es hes).imp fun p hp => ⟨hp.1.congr hvalues, hp.2⟩

theorem SameSections.symm {s s' : Str} (h : SameSections s s') : SameSections s' s :=
  ⟨h.right, h.left, h.interface.symm, h.peers.flip.imp fun _ _ hv => SameValues.symm hv⟩

theorem peers_unique {ps qs : List Peer} {ess fss : List (List Setting)}
    (hsame : List.Forall₂ SameValues ess fss)
    (hps : List.Forall₂ (fun p es => p.Given urlParse (valuesGiven PeerKey.lower es)) ps ess)
    (hqs : List.Forall₂ (fun q fs => q.Given urlParse (valuesGiven PeerKey.lower fs)) qs fss) :
    ps.map Peer.withoutComments = qs.map Peer.withoutComments := by
  induction hsame generalizing ps qs with
  | nil =>
    cases hps
    cases hqs
    rfl
  | cons hv _ ih =>
    cases hps with
    | cons hp hps =>
      cases hqs with
      | cons hq hqs =>
        rw [← SameValues.given hv] at hq
        rw [List.map_cons, List.map_cons, hp.unique hq, ih hps hqs]

theorem Outline.Describes.unique {name s s' : Str} {c c' : Config} (hsame : SameSections s s')
    (h : (outline s).Describes urlParse name c) (h' : (outline s').Describes urlParse name c') :
    c.withoutComments = c'.withoutComments := by
  have hinterface : c.interface.withoutComments = c'.interface.withoutComments := by
    apply h.interface.unique
    rw [SameValues.given hsame.interface]
    exact h'.interface
  have hpeers := peers_unique hsame.peers h.peers h'.peers
  rw [Config.withoutComments, Config.withoutComments, hinterface, hpeers, h.others.1, h'.others.1,
    h.others.2, h'.others.2]

theorem fromWgQuick_lineOrder (name : Str) :
    (∀ s s', SameSections s s' →
      (fromWgQuick urlParse s name).toOption.map Config.withoutComments =
        (fromWgQuick urlParse s' name).toOption.map Config.withoutComments) ∧
    ∀ s c, fromWgQuick urlParse s name = .ok c →
      c.interface.Given (valuesGiven InterfaceKey.lower (outline s).interface) ∧
      List.Forall₂ (fun p es => p.Given urlParse (valuesGiven PeerKey.lower es)) c.peers
        (outline s).peers := by
  constructor
  · intro s s' hsame
    have hs := @fromWgQuick_decides urlParse s name
    have hs' := @fromWgQuick_decides urlParse s' name
    cases h : fromWgQuick urlParse s name with
    | error e =>
      cases h' : fromWgQuick urlParse s' name with
      | error e' => rfl
      | ok c' =>
        rw [h] at hs
        rw [h'] at hs'
        exact absurd ⟨hs'.1, hs'.2.1.congr hsame.symm⟩ hs
    | ok c =>
      rw [h] at hs
      cases h' : fromWgQuick urlParse s' name with
      | error e' =>
        rw [h'] at hs'
        exact absurd ⟨hs.1, hs.2.1.congr hsame⟩ hs'
      | ok c' =>
        rw [h'] at hs'
        exact congrArg some (hs.2.2.unique hsame hs'.2.2)
  · intro s c h
    have hs := @fromWgQuick_decides urlParse s name
    rw [h] at hs
    exact ⟨hs.2.2.interface, hs.2.2.peers⟩

def orderedText : Str :=
  str "[Interface]\nPrivateKey=yAnz5TF+lXXJte14tji3zlMNq+hd2rYUIgJBgB3fBmk=\n" ++
  str "MTU=1280\nMTU=1400\n" ++
  str "[Peer]\nPublicKey=xTIBA5rboUvnH4htodjb6e697QjLERt1NAB4mZqp8Dg=\n" ++
  str "AllowedIPs=10.0.0.0/8\nAllowedIPs=10.1.0.0/16\nPersistentKeepalive=25"

def shuffledText : Str :=
  str "[Interface]\nMTU=1280\n[interface]\nMTU=1400\n" ++
  str "PrivateKey=yAnz5TF+lXXJte14tji3zlMNq+hd2rYUIgJBgB3fBmk=\n" ++
  str "[Peer]\nAllowedIPs=10.0.0.0/8\nPersistentKeepalive=25\nAllowedIPs=10.1.0.0/16\n" ++
  str "PublicKey=xTIBA5rboUvnH4htodjb6e697QjLERt1NAB4mZqp8Dg="

theorem sameSections_shuffled : SameSections orderedText shuffledText :=
  ⟨by decide +kernel, by decide +kernel, by decide +kernel, by decide +kernel⟩

theorem orderedText_parses : (fromWgQuick (fun _ => none) orderedText (str "wg")).toOption.map
    (fun c => (c.interface.mtu, c.peers.map (·.allowedIPs.length))) = some (1400, [2]) := by
  decide +kernel

theorem fromWgQuick_lineOrder_shuffled :
    SameSections orderedText shuffledText ∧
    (fromWgQuick (fun _ => none) orderedText (str "wg")).toOption.map Config.withoutComments =
      (fromWgQuick (fun _ => none) shuffledText (str "wg")).toOption.map Config.withoutComments ∧
    ∃ c, fromWgQuick (fun _ => none) orderedText (str "wg") = .ok c ∧
      c.interface.Given (valuesGiven InterfaceKey.lower (outline orderedText).interface) ∧
      List.Forall₂ (fun p es => p.Given (fun _ => none) (valuesGiven PeerKey.lower es)) c.peers
        (outline orderedText).peers := by
  obtain ⟨c, hc, -⟩ := ok_of_toOption_map orderedText_parses
  refine ⟨sameSections_shuffled, ?_, c, hc, ?_⟩
  · exact (fromWgQuick_lineOrder (str "wg")).1 orderedText shuffledText sameSections_shuffled
  · exact (fromWgQuick_lineOrder (str "wg")).2 orderedText c hc

end WireGuardWindows.Conf
