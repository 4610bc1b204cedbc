import WireGuardWindows.Conf.RoundTrip

/-!
# No comment is lost

`scan` reads a text for its comments alone: for every line the section it stands in,
what it is (nothing but a comment, a section header, or a key) and its comment. The
parser is related to the scan of the same lines; the writer's text is then scanned too.
-/

namespace WireGuardWindows.Conf
open GoStd Strings Unicode Loops

variable {urlParse : Str → Option URL}

inductive Place
  | outside
  | interface
  | peer (index : Nat)
  deriving DecidableEq

inductive Item
  | alone
  | header
  | key (name : Str)
  deriving DecidableEq

structure Entry where
  place : Place
  item : Item
  comment : Str
  deriving DecidableEq

structure Scan where
  place : Place := .outside
  peers : Nat := 0
  entries : List Entry := []

def Scan.step (sc : Scan) (line : Str) : Scan :=
  let l := lexLine line
  if l.stripped = [] then { sc with entries := sc.entries ++ [⟨sc.place, .alone, l.comment⟩] }
  else if l.key = str "[interface]" ∧ ¬ l.hasValue then
    { sc with place := .interface, entries := sc.entries ++ [⟨.interface, .header, l.comment⟩] }
  else if l.key = str "[peer]" ∧ ¬ l.hasValue then
    { place := .peer sc.peers
      peers := sc.peers + 1
      entries := sc.entries ++ [⟨.peer sc.peers, .header, l.comment⟩] }
  else { sc with entries := sc.entries ++ [⟨sc.place, .key l.key, l.comment⟩] }

def scan (s : Str) : Scan := (s.splitOn newline).foldl Scan.step {}

def commentsAt (es : List Entry) (place : Place) (item : Item) : List Str :=
  (es.filter fun e => e.place = place ∧ e.item = item).map Entry.comment

def commentsAlone (es : List Entry) : List Str :=
  (es.filter fun e => e.item = .alone).map Entry.comment

def Item.IsScript : Item → Prop
  | .key name => name ∈ scriptKeys
  | _ => False

theorem intercalate_concat (sep : UInt8) (l : Str) (ls : List Str) (c : Str) :
    [sep].intercalate (l :: ls ++ [c]) = [sep].intercalate (l :: ls) ++ sep :: c := by
  induction ls generalizing l with
  | nil => simp [List.intercalate_cons_cons]
  | cons m ls ih =>
    rw [List.cons_append, List.cons_append, List.intercalate_cons_cons, List.intercalate_cons_cons,
      ← List.cons_append, ih m]
    simp

theorem foldl_appendSuffix (cs : List Str) :
    cs.foldl Comments.appendSuffix [] = [0x20].intercalate (cs.filter (· ≠ [])) := by
  induction cs using List.reverseRecOn with
  | nil => rfl
  | append_singleton cs c ih =>
    rw [List.foldl_append, List.foldl_cons, List.foldl_nil, ih, List.filter_append]
    by_cases hc : c = []
    · simp [Comments.appendSuffix, hc]
    · have hjoin : ∀ ls : List Str, (∀ l ∈ ls, l ≠ []) →
          Comments.appendSuffix ([0x20].intercalate ls) c = [0x20].intercalate (ls ++ [c]) := by
        intro ls hls
        cases ls with
        | nil => simp [Comments.appendSuffix, hc]
        | cons l ls =>
          have hl := hls l List.mem_cons_self
          have hne : [0x20].intercalate (l :: ls) ≠ [] := by
            cases ls <;> simp [hl]
          rw [Comments.appendSuffix, if_neg hc, if_neg hne, intercalate_concat]
      have hsingle : [c].filter (· ≠ []) = [c] := by simp [hc]
      rw [hsingle, hjoin _ (by simp)]

section Befores
variable {K : Type} [DecidableEq K]

def SectionComments.befores (c : SectionComments K) (ks : List K) : List Str :=
  c.header.before ++ ks.flatMap fun k => (c.lines k).before

theorem count_flatMap_attach (c : SectionComments K) (k : K) (pending : List Str) (comment t : Str)
    {ks : List K} (hks : ks.Nodup) :
    (ks.flatMap fun k' => ((c.attach k pending comment).lines k').before).count t =
      (ks.flatMap fun k' => (c.lines k').before).count t + if k ∈ ks
        then pending.count t else 0 := by
  induction ks with
  | nil => simp
  | cons k' ks ih =>
    obtain ⟨hk', hks⟩ := List.nodup_cons.mp hks
    rw [List.flatMap_cons, List.flatMap_cons, List.count_append, List.count_append, ih hks]
    by_cases hkk : k' = k
    · subst hkk
      simp [SectionComments.attach, Comments.attach, hk']
      omega
    · have hline : (c.attach k pending comment).lines k' = c.lines k' :=
        Function.update_of_ne hkk _ _
      have hmem : k ∈ k' :: ks ↔ k ∈ ks := by simp [Ne.symm hkk]
      rw [hline]
      simp only [hmem]
      omega

theorem SectionComments.count_befores_attach (c : SectionComments K) {k : K} (pending : List Str)
    (comment t : Str) {ks : List K} (hks : ks.Nodup) (hk : k ∈ ks) :
    ((c.attach k pending comment).befores ks).count t =
      (c.befores ks).count t + pending.count t := by
  rw [SectionComments.befores, SectionComments.befores, List.count_append, List.count_append,
    count_flatMap_attach c k pending comment t hks, if_pos hk]
  change c.header.before.count t + _ = _
  omega

end Befores

def commentLines (ic : SectionComments InterfaceKey) (pcs : List (SectionComments PeerKey)) :
    List Str :=
  ic.befores InterfaceKey.all ++ pcs.flatMap (·.befores PeerKey.all)

def SectionComments.suffixOf {K : Type} (c : SectionComments K) (ofLower : Str → Option K) :
    Item → Str
  | .alone => []
  | .header => c.header.suffix
  | .key name =>
    match ofLower name with
    | some k => (c.lines k).suffix
    | none => []

def suffixAt (ic : SectionComments InterfaceKey) (pcs : List (SectionComments PeerKey)) :
    Place → Item → Str
  | .outside, _ => []
  | .interface, item => ic.suffixOf InterfaceKey.ofLower item
  | .peer n, item =>
    match pcs[n]? with
    | some pc => pc.suffixOf PeerKey.ofLower item
    | none => []

def ParserState.peerComments (st : ParserState) : List (SectionComments PeerKey) :=
  match st.state with
  | .inPeerSection p _ => st.conf.peers.map Peer.comments ++ [p.comments]
  | _ => st.conf.peers.map Peer.comments

def ParserState.place (st : ParserState) : Place :=
  match st.state with
  | .notInASection => .outside
  | .inInterfaceSection => .interface
  | .inPeerSection _ _ => .peer st.conf.peers.length

/-- The scan of the lines read so far accounts for every comment the parser holds. -/
structure Follows (sc : Scan) (st : ParserState) : Prop where
  place : sc.place = st.place
  peers : sc.peers = st.peerComments.length
  suffix : ∀ place item, item ≠ .alone → ¬ item.IsScript →
    (commentsAt sc.entries place item).foldl Comments.appendSuffix [] =
      suffixAt st.conf.interface.comments st.peerComments place item
  alone : ∀ t, (commentsAlone sc.entries).count t =
    (st.pendingComments ++ commentLines st.conf.interface.comments st.peerComments).count t

theorem finishPeer_comments {st : ParserState} {conf : Config} (h : st.finishPeer = .ok conf) :
    conf.interface = st.conf.interface ∧ conf.peers.map Peer.comments = st.peerComments := by
  rw [ParserState.finishPeer] at h
  rw [ParserState.peerComments]
  cases hstate : st.state with
  | inPeerSection p wsKeys =>
    rw [hstate] at h
    obtain ⟨_, -, h⟩ := bind_eq_ok h
    cases h
    exact ⟨rfl, List.map_append⟩
  | notInASection | inInterfaceSection =>
    rw [hstate] at h
    cases h
    exact ⟨rfl, rfl⟩

theorem commentsAt_concat (es : List Entry) (e : Entry) (place : Place) (item : Item) :
    commentsAt (es ++ [e]) place item =
      commentsAt es place item ++ if e.place = place ∧ e.item = item then [e.comment] else [] := by
  rw [commentsAt, List.filter_append, List.map_append]
  by_cases h : e.place = place ∧ e.item = item <;> simp [commentsAt, h]

theorem commentsAlone_concat (es : List Entry) (e : Entry) :
    commentsAlone (es ++ [e]) =
      commentsAlone es ++ if e.item = .alone then [e.comment] else [] := by
  rw [commentsAlone, List.filter_append, List.map_append]
  by_cases h : e.item = .alone <;> simp [commentsAlone, h]

theorem foldl_concat_if (cs : List Str) (c : Str) (p : Prop) [Decidable p] :
    (cs ++ if p then [c] else []).foldl Comments.appendSuffix [] =
      if p then Comments.appendSuffix (cs.foldl Comments.appendSuffix []) c
      else cs.foldl Comments.appendSuffix [] := by
  split_ifs <;> simp

theorem appendSuffix_nil (c : Str) : Comments.appendSuffix [] c = c := by
  by_cases h : c = [] <;> simp [Comments.appendSuffix, h]

theorem suffixOf_attach {K : Type} [DecidableEq K] {ofLower : Str → Option K} {lower : K → Str}
    (hlower : ∀ name k, ofLower name = some k → lower k = name) (c : SectionComments K) {k : K}
    {key : Str} (hk : ofLower key = some k) (pending : List Str) (comment : Str) (item : Item) :
    (c.attach k pending comment).suffixOf ofLower item =
      if .key key = item then Comments.appendSuffix (c.suffixOf ofLower item) comment
      else c.suffixOf ofLower item := by
  cases item with
  | alone => rfl
  | header => rfl
  | key name =>
    by_cases hn : key = name
    · subst hn
      simp [SectionComments.suffixOf, hk, SectionComments.attach, Comments.attach]
    · rw [if_neg (by simpa using hn)]
      simp only [SectionComments.suffixOf]
      cases hk' : ofLower name with
      | none => rfl
      | some k' =>
        have hne : k' ≠ k := by
          rintro rfl
          exact hn ((hlower key k' hk).symm.trans (hlower name k' hk'))
        simp [SectionComments.attach, hne]

theorem valueOf_comment {line : Str} {l : Line} (h : l.key ∉ scriptKeys) :
    (valueOf line l).2 = l.comment := by
  rw [valueOf, if_neg h]

theorem scanStep_key {sc : Scan} {line : Str} (hs : (lexLine line).stripped ≠ [])
    (hval : (lexLine line).hasValue = true) :
    sc.step line = { sc with
      entries := sc.entries ++ [⟨sc.place, .key (lexLine line).key, (lexLine line).comment⟩] } := by
  simp [Scan.step, hs, hval]

theorem Follows.blank {sc : Scan} {st : ParserState} {line : Str} (h : Follows sc st)
    (hs : (lexLine line).stripped = []) :
    Follows (sc.step line)
      { st with pendingComments := st.pendingComments ++ [(lexLine line).comment] } := by
  have hstep : sc.step line =
      { sc with entries := sc.entries ++ [⟨sc.place, .alone, (lexLine line).comment⟩] } := by
    simp [Scan.step, hs]
  rw [hstep]
  refine ⟨h.place, h.peers, ?_, ?_⟩
  · intro place item hitem hscript
    dsimp only
    rw [commentsAt_concat, foldl_concat_if, if_neg (fun he => hitem he.2.symm)]
    exact h.suffix place item hitem hscript
  · intro t
    have hcount := h.alone t
    dsimp only
    rw [commentsAlone_concat, if_pos rfl]
    change _ = (st.pendingComments ++ [(lexLine line).comment] ++
      commentLines st.conf.interface.comments st.peerComments).count t
    simp only [List.count_append] at hcount ⊢
    omega

theorem Follows.interfaceHeader {sc : Scan} {st : ParserState} {line : Str} {conf : Config}
    (h : Follows sc st) (hs : (lexLine line).stripped ≠ [])
    (hkey : (lexLine line).key = str "[interface]") (hval : (lexLine line).hasValue = false)
    (hfin : st.finishPeer = .ok conf) :
    Follows (sc.step line)
      { st with
        conf := interfaceHeader conf st.pendingComments (lexLine line).comment
        state := .inInterfaceSection
        pendingComments := [] } := by
  obtain ⟨hif, hpc⟩ := finishPeer_comments hfin
  have hstep : sc.step line =
      { sc with
        place := .interface
        entries := sc.entries ++ [⟨.interface, .header, (lexLine line).comment⟩] } := by
    simp [Scan.step, hs, hkey, hval]
  rw [hstep]
  refine ⟨rfl, h.peers.trans (by rw [← hpc]; rfl), ?_, ?_⟩
  · intro place item hitem hscript
    dsimp only
    rw [commentsAt_concat, foldl_concat_if, h.suffix place item hitem hscript]
    change _ = suffixAt
      { conf.interface.comments with
        header := conf.interface.comments.header.attach st.pendingComments (lexLine line).comment }
      (conf.peers.map Peer.comments) place item
    rw [hpc, hif]
    cases place with
    | outside => simp [suffixAt]
    | peer n => simp [suffixAt]
    | interface =>
      cases item <;> simp [suffixAt, SectionComments.suffixOf, Comments.attach]
  · intro t
    have hcount := h.alone t
    dsimp only
    rw [commentsAlone_concat, if_neg (by simp), List.append_nil, hcount]
    change _ = (commentLines
      { conf.interface.comments with
        header := conf.interface.comments.header.attach st.pendingComments (lexLine line).comment }
      (conf.peers.map Peer.comments)).count t
    rw [hpc, hif]
    simp only [commentLines, SectionComments.befores, Comments.attach, List.count_append]
    omega

theorem befores_newPeer (pending : List Str) (comment : Str) :
    (newPeer pending comment).comments.befores PeerKey.all = pending := by
  simp [newPeer, SectionComments.befores]

theorem suffixOf_newPeer (pending : List Str) (comment : Str) (item : Item)
    (hitem : item ≠ .alone) :
    (newPeer pending comment).comments.suffixOf PeerKey.ofLower item =
      if .header = item then comment else [] := by
  cases item with
  | alone => exact absurd rfl hitem
  | header => rfl
  | key name =>
    rw [if_neg (by simp)]
    simp only [SectionComments.suffixOf, newPeer]
    split <;> rfl

theorem Follows.peerHeader {sc : Scan} {st : ParserState} {line : Str} {conf : Config}
    (h : Follows sc st) (hs : (lexLine line).stripped ≠ [])
    (hkey : (lexLine line).key = str "[peer]") (hval : (lexLine line).hasValue = false)
    (hfin : st.finishPeer = .ok conf) :
    Follows (sc.step line)
      { st with
        conf := conf
        state := .inPeerSection (newPeer st.pendingComments (lexLine line).comment) []
        pendingComments := [] } := by
  obtain ⟨hif, hpc⟩ := finishPeer_comments hfin
  have hne : str "[peer]" ≠ str "[interface]" := by decide
  have hlen : conf.peers.length = sc.peers := by
    rw [h.peers, ← hpc, List.length_map]
  have hstep : sc.step line =
      { place := .peer sc.peers
        peers := sc.peers + 1
        entries := sc.entries ++ [⟨.peer sc.peers, .header, (lexLine line).comment⟩] } := by
    simp [Scan.step, hs, hkey, hval, hne]
  rw [hstep]
  refine ⟨by simp [ParserState.place, hlen], ?_, ?_, ?_⟩
  · simp [ParserState.peerComments, hlen]
  · intro place item hitem hscript
    dsimp only
    rw [commentsAt_concat, foldl_concat_if, h.suffix place item hitem hscript]
    change _ = suffixAt conf.interface.comments (conf.peers.map Peer.comments ++
      [(newPeer st.pendingComments (lexLine line).comment).comments]) place item
    rw [hpc, hif]
    have hn : st.peerComments.length = sc.peers := h.peers.symm
    cases place with
    | outside => simp [suffixAt]
    | interface => simp [suffixAt]
    | peer n =>
      simp only [suffixAt]
      rcases Nat.lt_trichotomy n sc.peers with hlt | heq | hgt
      · have hget : (st.peerComments ++ [(newPeer st.pendingComments
            (lexLine line).comment).comments])[n]? = st.peerComments[n]? :=
          List.getElem?_append_left (by omega)
        rw [hget, if_neg (by simp; omega)]
      · subst heq
        have hget : (st.peerComments ++ [(newPeer st.pendingComments
            (lexLine line).comment).comments])[sc.peers]? =
            some (newPeer st.pendingComments (lexLine line).comment).comments := by
          rw [← hn]
          simp
        have hnone : st.peerComments[sc.peers]? = none := by simp [hn]
        rw [hget, hnone]
        simp only [true_and, appendSuffix_nil]
        exact (suffixOf_newPeer _ _ item hitem).symm
      · have hget : (st.peerComments ++ [(newPeer st.pendingComments
            (lexLine line).comment).comments])[n]? = none := by
          rw [List.getElem?_eq_none_iff, List.length_append, List.length_singleton]
          omega
        have hnone : st.peerComments[n]? = none := by
          rw [List.getElem?_eq_none_iff]
          omega
        rw [hget, hnone, if_neg (by simp; omega)]
  · intro t
    have hcount := h.alone t
    dsimp only
    rw [commentsAlone_concat, if_neg (by simp), List.append_nil, hcount]
    change _ = (commentLines conf.interface.comments (conf.peers.map Peer.comments ++
      [(newPeer st.pendingComments (lexLine line).comment).comments])).count t
    rw [hpc, hif]
    simp only [commentLines, List.count_append, List.flatMap_append, List.flatMap_singleton,
      befores_newPeer]
    omega

theorem Follows.interfaceKey {sc : Scan} {st : ParserState} {line : Str} {k : InterfaceKey}
    {i : Interface} (h : Follows sc st) (hs : (lexLine line).stripped ≠ [])
    (hval : (lexLine line).hasValue = true) (hstate : st.state = .inInterfaceSection)
    (hk : InterfaceKey.ofLower (lexLine line).key = some k)
    (hcom : i.comments = st.conf.interface.comments.attach k st.pendingComments
      (valueOf line (lexLine line)).2) (saw : Bool) :
    Follows (sc.step line)
      { st with
        conf := { st.conf with interface := i }
        state := .inInterfaceSection
        sawPrivateKey := saw
        pendingComments := [] } := by
  have hplace : sc.place = .interface := by rw [h.place, ParserState.place, hstate]
  have hpc : st.peerComments = st.conf.peers.map Peer.comments := by
    rw [ParserState.peerComments, hstate]
  rw [scanStep_key hs hval]
  refine ⟨hplace, h.peers.trans (by rw [hpc]; rfl), ?_, ?_⟩
  · intro place item hitem hscript
    dsimp only
    rw [commentsAt_concat, foldl_concat_if, h.suffix place item hitem hscript, hplace]
    change _ = suffixAt i.comments (st.conf.peers.map Peer.comments) place item
    rw [hcom, hpc]
    cases place with
    | outside => simp [suffixAt]
    | peer n => simp [suffixAt]
    | interface =>
      simp only [suffixAt, true_and]
      rw [suffixOf_attach (fun _ _ => InterfaceKey.lower_of_ofLower) _ hk]
      by_cases hit : .key (lexLine line).key = item
      · subst hit
        rw [if_pos rfl, if_pos rfl, valueOf_comment hscript]
      · rw [if_neg hit, if_neg hit]
  · intro t
    have hcount := h.alone t
    dsimp only
    rw [commentsAlone_concat, if_neg (by simp), List.append_nil, hcount]
    change _ = (commentLines i.comments (st.conf.peers.map Peer.comments)).count t
    rw [hcom, ← hpc]
    have hb := st.conf.interface.comments.count_befores_attach st.pendingComments
      (valueOf line (lexLine line)).2 t (show InterfaceKey.all.Nodup by decide)
      (InterfaceKey.mem_all k)
    simp only [commentLines, List.count_append, hb]
    omega

theorem Follows.peerKey {sc : Scan} {st : ParserState} {line : Str} {k : PeerKey}
    {p p' : Peer} {wsKeys : List Str} (h : Follows sc st) (hs : (lexLine line).stripped ≠ [])
    (hval : (lexLine line).hasValue = true) (hstate : st.state = .inPeerSection p wsKeys)
    (hk : PeerKey.ofLower (lexLine line).key = some k)
    (hcom : p'.comments = p.comments.attach k st.pendingComments (valueOf line (lexLine line)).2)
    (wsKeys' : List Str) :
    Follows (sc.step line)
      { st with state := .inPeerSection p' wsKeys', pendingComments := [] } := by
  have hplace : sc.place = .peer st.conf.peers.length := by
    rw [h.place, ParserState.place, hstate]
  have hpc : st.peerComments = st.conf.peers.map Peer.comments ++ [p.comments] := by
    rw [ParserState.peerComments, hstate]
  rw [scanStep_key hs hval]
  refine ⟨hplace, h.peers.trans (by rw [hpc]; simp [ParserState.peerComments]), ?_, ?_⟩
  · intro place item hitem hscript
    dsimp only
    rw [commentsAt_concat, foldl_concat_if, h.suffix place item hitem hscript, hplace]
    change _ = suffixAt st.conf.interface.comments
      (st.conf.peers.map Peer.comments ++ [p'.comments]) place item
    rw [hpc]
    cases place with
    | outside => simp [suffixAt]
    | interface => simp [suffixAt]
    | peer n =>
      simp only [suffixAt]
      rcases Nat.lt_trichotomy n st.conf.peers.length with hlt | heq | hgt
      · have hget : ∀ c, (st.conf.peers.map Peer.comments ++ [c])[n]? =
            (st.conf.peers.map Peer.comments)[n]? :=
          fun c => List.getElem?_append_left (by simpa using hlt)
        rw [hget, hget, if_neg (by simp; omega)]
      · subst heq
        have hget : ∀ c, (st.conf.peers.map Peer.comments ++ [c])[st.conf.peers.length]? =
            some c := by
          intro c
          rw [List.getElem?_append_right (by simp)]
          simp
        rw [hget, hget]
        simp only [true_and]
        rw [hcom, suffixOf_attach (fun _ _ => PeerKey.lower_of_ofLower) _ hk]
        by_cases hit : .key (lexLine line).key = item
        · subst hit
          rw [if_pos rfl, if_pos rfl, valueOf_comment hscript]
        · rw [if_neg hit, if_neg hit]
      · have hget : ∀ c, (st.conf.peers.map Peer.comments ++ [c])[n]? = none := by
          intro c
          rw [List.getElem?_eq_none_iff, List.length_append, List.length_map, List.length_singleton]
          omega
        rw [hget, hget, if_neg (by simp; omega)]
  · intro t
    have hcount := h.alone t
    dsimp only
    rw [commentsAlone_concat, if_neg (by simp), List.append_nil, hcount]
    change _ = (commentLines st.conf.interface.comments
      (st.conf.peers.map Peer.comments ++ [p'.comments])).count t
    rw [hcom, hpc]
    have hb := p.comments.count_befores_attach st.pendingComments
      (valueOf line (lexLine line)).2 t (show PeerKey.all.Nodup by decide) (PeerKey.mem_all k)
    simp only [commentLines, List.count_append, List.flatMap_append, List.flatMap_singleton, hb]
    omega

theorem Follows.step {sc : Scan} {st st' : ParserState} {line : Str} (h : Follows sc st)
    (hstep : ParseStep urlParse st line st') : Follows (sc.step line) st' := by
  cases hstep with
  | blank hs => exact h.blank hs
  | interface hs hkey hval hfin => exact h.interfaceHeader hs hkey hval hfin
  | peer hs hkey hval hfin => exact h.peerHeader hs hkey hval hfin
  | interfaceKey hs hval hstate hk hne hset =>
    exact h.interfaceKey hs hval hstate hk (Interface.set_comments hset) _
  | peerKey hs hval hstate hk hne hset =>
    exact h.peerKey hs hval hstate hk (Peer.set_comments hset).1 _

theorem Follows.run {s name : Str} {st : ParserState}
    (h : (s.splitOn newline).foldlM (parseLine urlParse) { conf := { name := name } } = .ok st) :
    Follows (scan s) st := by
  have hstart : Follows {} { conf := { name := name } } := by
    refine ⟨rfl, rfl, ?_, fun t => rfl⟩
    intro place item hitem hscript
    cases place <;> cases item <;>
      simp [commentsAt, suffixAt, SectionComments.suffixOf, ParserState.peerComments]
    all_goals split <;> rfl
  have hrun : Follows (([] ++ s.splitOn newline).foldl Scan.step {}) st := by
    refine foldlM_history (fun done st => Follows (done.foldl Scan.step {}) st) ?_ hstart h
    intro done st line st' hst hstep
    rw [List.foldl_append]
    exact hst.step (parseLine_step hstep)
  exact hrun

theorem count_pruneComments (run : List Str) (dl dt : Bool) {t : Str} (ht : t ≠ []) :
    (pruneComments run dl dt).count t = run.count t := by
  have hfilter : ∀ l : List Str, l.count t = (l.filter (· ≠ [])).count t := by
    intro l
    rw [List.count_filter (by simpa using ht)]
  rw [hfilter, pruneComments_filter, ← hfilter]

theorem count_befores_pruned {K : Type} (c : SectionComments K) (ks : List K) {t : Str}
    (ht : t ≠ []) : ((pruneSectionComments c).befores ks).count t = (c.befores ks).count t := by
  have hlines : (ks.flatMap fun k => ((pruneSectionComments c).lines k).before).count t =
      (ks.flatMap fun k => (c.lines k).before).count t := by
    rw [List.count_flatMap, List.count_flatMap]
    exact congrArg _ (List.map_congr_left fun _ _ => count_pruneComments _ _ _ ht)
  rw [SectionComments.befores, SectionComments.befores, List.count_append,
    List.count_append, hlines]
  congr 1
  exact count_pruneComments _ _ _ ht

theorem suffixAt_pruned (ic : SectionComments InterfaceKey) (pcs : List (SectionComments PeerKey))
    (place : Place) (item : Item) :
    suffixAt (pruneSectionComments ic) (pcs.map pruneSectionComments) place item =
      suffixAt ic pcs place item := by
  have hof : ∀ {K : Type} (c : SectionComments K) (ofLower : Str → Option K),
      (pruneSectionComments c).suffixOf ofLower item = c.suffixOf ofLower item := by
    intro K c ofLower
    cases item with
    | alone => rfl
    | header => rfl
    | key name =>
      simp only [SectionComments.suffixOf]
      split <;> rfl
  cases place with
  | outside => rfl
  | interface => exact hof ic _
  | peer n =>
    simp only [suffixAt, List.getElem?_map]
    cases pcs[n]? with
    | none => rfl
    | some pc => exact hof pc _

theorem fromWgQuick_comments {s name : Str} {c : Config} (h : fromWgQuick urlParse s name = .ok c) :
    (∀ place item, item ≠ .alone → ¬ item.IsScript →
      (commentsAt (scan s).entries place item).foldl Comments.appendSuffix [] =
        suffixAt c.interface.comments (c.peers.map Peer.comments) place item) ∧
    ∀ t, t ≠ [] → (commentsAlone (scan s).entries).count t =
      (c.trailingComments ++
        commentLines c.interface.comments (c.peers.map Peer.comments)).count t := by
  obtain ⟨-, st, conf, hst, hconf, rfl, -, -⟩ := fromWgQuick_eq_ok h
  have hf := Follows.run hst
  obtain ⟨hif, hpc⟩ := finishPeer_comments hconf
  have hpeers : (conf.pruned st.pendingComments).peers.map Peer.comments =
      st.peerComments.map pruneSectionComments := by
    rw [← hpc]
    simp [Config.pruned]
  have hint : (conf.pruned st.pendingComments).interface.comments =
      pruneSectionComments st.conf.interface.comments := by rw [← hif]; rfl
  rw [hpeers, hint]
  constructor
  · intro place item hitem hscript
    rw [suffixAt_pruned]
    exact hf.suffix place item hitem hscript
  · intro t ht
    have hflat : ∀ pcs : List (SectionComments PeerKey),
        ((pcs.map pruneSectionComments).flatMap (·.befores PeerKey.all)).count t =
          (pcs.flatMap (·.befores PeerKey.all)).count t := by
      intro pcs
      rw [List.count_flatMap, List.count_flatMap, List.map_map]
      exact congrArg _ (List.map_congr_left fun _ _ => count_befores_pruned _ _ ht)
    rw [hf.alone t]
    simp only [commentLines, List.count_append, hflat, count_befores_pruned _ _ ht]
    congr 1
    exact (count_pruneComments _ _ _ ht).symm

theorem count_commentLines_le {c : Config} (h : c.Canonical urlParse) (t : Str) :
    (c.trailingComments ++ commentLines c.interface.comments (c.peers.map Peer.comments)).count t ≤
      c.lines.count t := by
  have hwrite : ∀ (c : Comments) (line : Str), c.before.count t ≤ (writeLine c line).count t := by
    intro c line
    rw [writeLine, List.count_append]
    omega
  have hfield : ∀ (c : Comments) (name : Str) (f : Option (Bool × Str)),
      (writeField c name f = [] → c.isEmpty = true) →
      c.before.count t ≤ (writeField c name f).count t := by
    intro c name f hempty
    rcases writeField_cases c name f with hn | ⟨present, v, -, hw, -⟩
    · have he := hempty hn
      simp only [Comments.isEmpty, Bool.and_eq_true, List.isEmpty_iff] at he
      simp [he.1]
    · rw [hw]
      exact hwrite _ _
  have hflat : ∀ {K : Type} (ks : List K) (f g : K → List Str),
      (∀ k ∈ ks, (f k).count t ≤ (g k).count t) →
      (ks.flatMap f).count t ≤ (ks.flatMap g).count t := by
    intro K ks f g hfg
    rw [List.count_flatMap, List.count_flatMap]
    exact List.sum_le_sum hfg
  have hif : (c.interface.comments.befores InterfaceKey.all).count t ≤
      c.interface.lines.count t := by
    rw [SectionComments.befores, Interface.lines, List.count_append, List.count_append]
    refine Nat.add_le_add (hwrite _ _) (hflat _ _ _ fun k _ => hfield _ _ _ fun hu => ?_)
    exact Interface.isEmpty_of_unwritten h.interface hu
  have hpeers : ((c.peers.map Peer.comments).flatMap (·.befores PeerKey.all)).count t ≤
      (c.peers.flatMap Peer.lines).count t := by
    rw [List.flatMap_map]
    apply hflat
    intro p hp
    obtain ⟨wsKeys, hok, -⟩ := (h.peers p hp).1
    rw [SectionComments.befores, Peer.lines, List.count_append, List.count_append,
      List.count_append]
    have h1 := hwrite p.comments.header (str "[Peer]")
    have h2 := hflat PeerKey.all (fun k => (p.comments.lines k).before) _
      fun k _ => hfield (p.comments.lines k) k.name (p.field k) fun hu =>
        Peer.isEmpty_of_unwritten hok hu
    omega
  rw [Config.lines, commentLines, List.count_append, List.count_append, List.count_append,
    List.count_append]
  omega

def marks (es : List Entry) : List (Place × Item) :=
  (es.filter fun e => e.item ≠ .alone).map fun e => (e.place, e.item)

theorem marks_append (es fs : List Entry) : marks (es ++ fs) = marks es ++ marks fs := by
  simp [marks]

theorem length_commentsAt (es : List Entry) (place : Place) {item : Item} (hitem : item ≠ .alone) :
    (commentsAt es place item).length = (marks es).count (place, item) := by
  induction es with
  | nil => rfl
  | cons e es ih =>
    have h1 : commentsAt (e :: es) place item =
        (if e.place = place ∧ e.item = item then [e.comment] else []) ++
          commentsAt es place item := by
      by_cases h : e.place = place ∧ e.item = item <;> simp [commentsAt, h]
    have h2 : marks (e :: es) =
        (if e.item ≠ .alone then [(e.place, e.item)] else []) ++ marks es := by
      by_cases h : e.item = .alone <;> simp [marks, h]
    rw [h1, h2, List.length_append, List.count_append, ih]
    congr 1
    by_cases h : e.place = place ∧ e.item = item
    · have hne : e.item ≠ .alone := h.2 ▸ hitem
      simp [h, hitem]
    · by_cases hne : e.item = .alone
      · have hne' : Item.alone ≠ item := hitem.symm
        simp [hne, hne']
      · have hpair : (e.place, e.item) ≠ (place, item) := fun he => h (by simpa using he)
        simp [h, hne, hpair]

def blockMarks (place : Place) (names : List Str) : List (Place × Item) :=
  (place, .header) :: names.map fun n => (place, .key n)

theorem blockMarks_nodup (place : Place) {names : List Str} (h : names.Nodup) :
    (blockMarks place names).Nodup := by
  rw [blockMarks, List.nodup_cons]
  refine ⟨by simp, h.map ?_⟩
  intro a b hab
  simpa using hab

theorem place_of_mem_blockMarks {place : Place} {names : List Str} {m : Place × Item}
    (h : m ∈ blockMarks place names) : m.1 = place := by
  rcases List.mem_cons.mp h with rfl | h
  · rfl
  · obtain ⟨n, -, rfl⟩ := List.mem_map.mp h
    rfl

theorem scan_commentLines {bs : List Str} (h : ∀ b ∈ bs, CommentLine b) (sc : Scan) :
    ∃ es, bs.foldl Scan.step sc = { sc with entries := sc.entries ++ es } ∧ marks es = [] := by
  induction bs generalizing sc with
  | nil => exact ⟨[], by simp, rfl⟩
  | cons b bs ih =>
    have hs := (lexLine_commentLine (h b List.mem_cons_self)).1
    obtain ⟨es, hes, hm⟩ := ih (fun x hx => h x (List.mem_cons_of_mem b hx)) (sc.step b)
    refine ⟨⟨sc.place, .alone, (lexLine b).comment⟩ :: es, ?_, by simpa [marks] using hm⟩
    rw [List.foldl_cons, hes]
    simp [Scan.step, hs]

theorem scan_writeField {c : Comments} (hc : c.Ok) {name lower v : Str} (hk : KeyName name lower)
    (hw : Writable lower v c.suffix) (sc : Scan) :
    ∃ es, (writeLine c (fieldText name v)).foldl Scan.step sc =
        { sc with entries := sc.entries ++ es } ∧ marks es = [(sc.place, .key lower)] := by
  obtain ⟨es, hes, hm⟩ := scan_commentLines hc.before sc
  obtain ⟨hne, hkey, hval, -⟩ := lexLine_fieldText hk hw hc.suffix
  refine ⟨es ++ [⟨sc.place, .key lower,
    (lexLine (fieldText name v ++ suffixText c.suffix)).comment⟩], ?_, ?_⟩
  · rw [writeLine, List.foldl_append, hes, List.foldl_cons, List.foldl_nil, scanStep_key hne hval,
      hkey]
    simp
  · rw [marks_append, hm]
    rfl

theorem scan_fields {K : Type} {c : K → Comments} {name lower : K → Str}
    {f : K → Option (Bool × Str)} (hc : ∀ k, (c k).Ok) (hk : ∀ k, KeyName (name k) (lower k))
    (hf : ∀ k, writeField (c k) (name k) (f k) = [] ∨ ∃ v, writeField (c k) (name k) (f k) =
      writeLine (c k) (fieldText (name k) v) ∧ Writable (lower k) v (c k).suffix)
    (ks : List K) (sc : Scan) :
    ∃ es, (ks.flatMap fun k => writeField (c k) (name k) (f k)).foldl Scan.step sc =
        { sc with entries := sc.entries ++ es } ∧
      (marks es).Sublist (ks.map fun k => (sc.place, .key (lower k))) := by
  induction ks generalizing sc with
  | nil => exact ⟨[], by simp, by simp [marks]⟩
  | cons k ks ih =>
    rcases hf k with hu | ⟨v, hw, hwr⟩
    · obtain ⟨es, hes, hm⟩ := ih sc
      exact ⟨es, by rw [List.flatMap_cons, hu, List.nil_append, hes], hm.cons _⟩
    · obtain ⟨es, hes, hm⟩ := scan_writeField (hc k) (hk k) hwr sc
      obtain ⟨fs, hfs, hms⟩ := ih { sc with entries := sc.entries ++ es }
      refine ⟨es ++ fs, ?_, ?_⟩
      · rw [List.flatMap_cons, List.foldl_append, hw, hes, hfs]
        simp
      · rw [marks_append, hm, List.map_cons, List.singleton_append]
        exact hms.cons_cons _

theorem scan_interface {i : Interface} (hi : i.Ok) :
    ∃ es, i.lines.foldl Scan.step {} = { place := .interface, peers := 0, entries := es } ∧
      (marks es).Sublist (blockMarks .interface (InterfaceKey.all.map InterfaceKey.lower)) := by
  obtain ⟨es, hes, hm⟩ := scan_commentLines hi.header.before {}
  have hline : lexLine (str "[Interface]" ++ suffixText i.comments.header.suffix) = _ :=
    lexLine_code (by decide) (by decide) hi.header.suffix
  have hcut : cut (str "[Interface]") equals = (str "[Interface]", [], false) := by decide
  have hkey : toLower (trimSpace (str "[Interface]")) = str "[interface]" := by decide +kernel
  have hne : str "[Interface]" ≠ [] := by decide
  have hheader : (writeLine i.comments.header (str "[Interface]")).foldl Scan.step {} =
      ⟨.interface, 0, es ++ [⟨.interface, .header, i.comments.header.suffix⟩]⟩ := by
    rw [writeLine, List.foldl_append, hes, List.foldl_cons, List.foldl_nil, Scan.step, hline, hcut]
    simp [hkey, hne]
  obtain ⟨fs, hfs, hms⟩ := scan_fields hi.lines InterfaceKey.keyName
    (fun k => (Interface.writeField_cases hi k).imp_right fun h => h.imp fun v hv => ⟨hv.1, hv.2.1⟩)
    InterfaceKey.all ⟨.interface, 0, es ++ [⟨.interface, .header, i.comments.header.suffix⟩]⟩
  refine ⟨es ++ [⟨.interface, .header, i.comments.header.suffix⟩] ++ fs, ?_, ?_⟩
  · rw [Interface.lines, List.foldl_append, hheader, hfs]
  · rw [marks_append, marks_append, hm, blockMarks, List.map_map, List.nil_append]
    exact hms.cons_cons _

theorem scan_peer {p : Peer} (hp : p.Done urlParse) (sc : Scan) :
    ∃ es, p.lines.foldl Scan.step sc =
        { place := .peer sc.peers, peers := sc.peers + 1, entries := sc.entries ++ es } ∧
      (marks es).Sublist (blockMarks (.peer sc.peers) (PeerKey.all.map PeerKey.lower)) := by
  obtain ⟨wsKeys, hok, -⟩ := hp
  have hbefore : ∀ b ∈ [[]] ++ p.comments.header.before, CommentLine b := by
    exact List.forall_mem_append.mpr
      ⟨List.forall_mem_singleton.mpr (Or.inl rfl), hok.header.before⟩
  obtain ⟨es, hes, hm⟩ := scan_commentLines hbefore sc
  have hline : lexLine (str "[Peer]" ++ suffixText p.comments.header.suffix) = _ :=
    lexLine_code (by decide) (by decide) hok.header.suffix
  have hcut : cut (str "[Peer]") equals = (str "[Peer]", [], false) := by decide
  have hkey : toLower (trimSpace (str "[Peer]")) = str "[peer]" := by decide +kernel
  have hne : str "[Peer]" ≠ [] := by decide
  have hni : str "[peer]" ≠ str "[interface]" := by decide
  have hheader : ([[]] ++ writeLine p.comments.header (str "[Peer]")).foldl Scan.step sc =
      ⟨.peer sc.peers, sc.peers + 1,
        sc.entries ++ es ++ [⟨.peer sc.peers, .header, p.comments.header.suffix⟩]⟩ := by
    rw [writeLine, ← List.append_assoc, List.foldl_append, hes, List.foldl_cons, List.foldl_nil,
      Scan.step, hline, hcut]
    simp [hkey, hne, hni]
  obtain ⟨fs, hfs, hms⟩ := scan_fields hok.lines PeerKey.keyName
    (fun k => (Peer.writeField_cases hok k).imp_right fun h => h.imp fun v hv => ⟨hv.1, hv.2.1⟩)
    PeerKey.all ⟨.peer sc.peers, sc.peers + 1,
      sc.entries ++ es ++ [⟨.peer sc.peers, .header, p.comments.header.suffix⟩]⟩
  refine ⟨es ++ [⟨.peer sc.peers, .header, p.comments.header.suffix⟩] ++ fs, ?_, ?_⟩
  · rw [Peer.lines, List.foldl_append, hheader, hfs]
    simp
  · rw [marks_append, marks_append, hm, blockMarks, List.map_map, List.nil_append]
    exact hms.cons_cons _

theorem scan_peers {ps : List Peer} (h : ∀ p ∈ ps, p.Done urlParse) (sc : Scan) :
    ∃ place es, (ps.flatMap Peer.lines).foldl Scan.step sc =
        { place := place, peers := sc.peers + ps.length, entries := sc.entries ++ es } ∧
      (marks es).Sublist ((List.range' sc.peers ps.length).flatMap fun n =>
        blockMarks (.peer n) (PeerKey.all.map PeerKey.lower)) := by
  induction ps generalizing sc with
  | nil => exact ⟨sc.place, [], by simp, by simp [marks]⟩
  | cons p ps ih =>
    obtain ⟨es, hes, hm⟩ := scan_peer (h p List.mem_cons_self) sc
    obtain ⟨place, fs, hfs, hms⟩ := ih (fun q hq => h q (List.mem_cons_of_mem p hq))
      { place := .peer sc.peers, peers := sc.peers + 1, entries := sc.entries ++ es }
    refine ⟨place, es ++ fs, ?_, ?_⟩
    · rw [List.flatMap_cons, List.foldl_append, hes, hfs, List.length_cons]
      simp [Nat.add_right_comm, Nat.add_assoc]
    · rw [List.length_cons, List.range'_succ, List.flatMap_cons, marks_append]
      exact hm.append hms

theorem marks_toWgQuick_nodup {c : Config} (h : c.Canonical urlParse) :
    (marks (scan c.toWgQuick).entries).Nodup := by
  obtain ⟨es, hes, hm⟩ := scan_interface h.interface
  obtain ⟨place, fs, hfs, hms⟩ := scan_peers (fun p hp => (h.peers p hp).1)
    { place := .interface, peers := 0, entries := es }
  have htrail : ∀ b ∈ c.trailingComments ++ [[]], CommentLine b := by
    exact List.forall_mem_append.mpr ⟨h.trailing, List.forall_mem_singleton.mpr (Or.inl rfl)⟩
  obtain ⟨gs, hgs, hmg⟩ := scan_commentLines htrail
    { place := place, peers := 0 + c.peers.length, entries := es ++ fs }
  have hscan : (scan c.toWgQuick).entries = es ++ fs ++ gs := by
    rw [scan, h.splitOn_toWgQuick, Config.lines, List.append_assoc, List.append_assoc,
      List.foldl_append, hes, List.foldl_append, hfs, hgs]
  have hkeys : (PeerKey.all.map PeerKey.lower).Nodup := by decide +kernel
  rw [hscan, marks_append, marks_append, hmg, List.append_nil]
  apply (hm.append hms).nodup
  apply List.Nodup.append (blockMarks_nodup _ (by decide +kernel))
  · rw [List.nodup_flatMap]
    refine ⟨fun n _ => blockMarks_nodup _ hkeys, ?_⟩
    apply List.Nodup.pairwise_of_forall_ne List.nodup_range'
    intro a _ b _ hab m hma hmb
    have hplace := (place_of_mem_blockMarks hma).symm.trans (place_of_mem_blockMarks hmb)
    exact hab (by simpa using hplace)
  · intro m hma hmb
    obtain ⟨n, -, hmb⟩ := List.mem_flatMap.mp hmb
    exact absurd ((place_of_mem_blockMarks hma).symm.trans (place_of_mem_blockMarks hmb)) (by simp)

/-- Every comment that stands alone is a line of the output at least as often as of the input, and
the comments after a header or a key, joined in input order, are the comment after that header or
key in the output. -/
theorem comments_survive {s name : Str} {c : Config} (h : fromWgQuick urlParse s name = .ok c) :
    (∀ t, t ≠ [] →
      (commentsAlone (scan s).entries).count t ≤ (c.toWgQuick.splitOn newline).count t) ∧
    ∀ place item, item ≠ .alone → ¬ item.IsScript →
      (commentsAt (scan s).entries place item).filter (· ≠ []) ≠ [] →
      commentsAt (scan c.toWgQuick).entries place item =
        [[0x20].intercalate ((commentsAt (scan s).entries place item).filter (· ≠ []))] := by
  have hcan := (fromWgQuick_canonical h).1
  obtain ⟨hsuffix, halone⟩ := fromWgQuick_comments h
  constructor
  · intro t ht
    have hlines := count_commentLines_le hcan t
    rw [halone t ht, hcan.splitOn_toWgQuick, @List.count_append _ _ _ c.lines]
    omega
  · intro place item hitem hscript hne
    -- The output parses to the same configuration, so both texts join to the same suffix.
    have hout := (fromWgQuick_comments hcan.fromWgQuick_toWgQuick).1 place item hitem hscript
    rw [← hsuffix place item hitem hscript, foldl_appendSuffix, foldl_appendSuffix] at hout
    have hlen : (commentsAt (scan c.toWgQuick).entries place item).length ≤ 1 := by
      rw [length_commentsAt _ _ hitem]
      exact List.nodup_iff_count_le_one.mp (marks_toWgQuick_nodup hcan) _
    have hjoin : [0x20].intercalate ((commentsAt (scan s).entries place item).filter (· ≠ [])) ≠
        [] := by
      cases hl : (commentsAt (scan s).entries place item).filter (· ≠ []) with
      | nil => exact absurd hl hne
      | cons a l =>
        have ha : a ≠ [] := by
          have hmem := hl ▸ List.mem_cons_self (a := a) (l := l)
          simpa using (List.mem_filter.mp hmem).2
        cases l <;> simp [ha]
    rw [← hout] at hjoin ⊢
    cases hl : commentsAt (scan c.toWgQuick).entries place item with
    | nil => simp [hl] at hjoin
    | cons a l =>
      have hnil : l = [] := by simpa [hl] using hlen
      subst hnil
      by_cases ha : a = []
      · simp [hl, ha] at hjoin
      · simp [ha]

theorem comments_survive_sampleText :
    ∃ c, fromWgQuick (fun _ => none) sampleText (str "wg0") = .ok c ∧
      commentsAt (scan c.toWgQuick).entries .interface .header = [str "# if"] ∧
      commentsAt (scan c.toWgQuick).entries .interface (.key (str "listenport")) =
        [str "# any"] := by
  obtain ⟨c, hc⟩ := sampleText_parses
  have hheader : (commentsAt (scan sampleText).entries .interface .header).filter (· ≠ []) =
      [str "# if"] := by decide +kernel
  have hport : (commentsAt (scan sampleText).entries .interface
      (.key (str "listenport"))).filter (· ≠ []) = [str "# any"] := by decide +kernel
  obtain ⟨-, hs⟩ := comments_survive hc
  refine ⟨c, hc, ?_, ?_⟩
  · rw [hs .interface .header (by decide) (fun h => h) (by rw [hheader]; decide), hheader]
    rfl
  · have hscript : ¬ (Item.key (str "listenport")).IsScript := by
      unfold Item.IsScript
      decide
    rw [hs .interface _ (by decide) hscript (by rw [hport]; decide), hport]
    rfl

end WireGuardWindows.Conf
