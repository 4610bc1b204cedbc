import WireGuardWindows.Conf.Intersects
import WireGuardWindows.Conf.UapiReport
import WireGuardWindows.Driver.RoundTrip

/-!
# What a configuration keeps secret

`Redact` takes the secrets out of a configuration before an operator gets to see it. Here two
configurations are the same but for their secrets, and what the manager computes from them
and from the reports of the running tunnels is shown to be the same but for the secrets.
-/

namespace WireGuardWindows.Conf
open GoStd Strings Fields Loops

def Interface.withoutSecrets (i : Interface) : Interface :=
  { i with
    privateKey := Key.zero, preUp := [], postUp := [], preDown := [], postDown := []
    comments := {} }

def Peer.withoutSecrets (p : Peer) : Peer :=
  { p with presharedKey := Key.zero, wsBearer := [], comments := {} }

/-- The keys of the peers are public; they are what `Redact` finds them by. -/
def Config.withoutSecrets (c : Config) : Config :=
  { c with
    interface := c.interface.withoutSecrets, peers := c.peers.map Peer.withoutSecrets
    trailingComments := [], wsTLSFiles := [] }

theorem redact_withoutSecrets (c : Config) : c.withoutSecrets.redact = c.redact := by
  have hpeers : (c.peers.map Peer.withoutSecrets).mapIdx Peer.redactAt =
      c.peers.mapIdx Peer.redactAt := by
    apply List.ext_getElem
    · simp
    · intro i hi hi'
      simp [Peer.redactAt, Peer.withoutSecrets]
  simp only [Config.redact, Config.withoutSecrets, Interface.withoutSecrets, hpeers]

def Config.AtPositions (c : Config) : Prop :=
  c.peers.map (·.publicKey) = (List.range c.peers.length).map positionKey

theorem redact_atPositions (c : Config) : c.redact.AtPositions := by
  rw [Config.AtPositions, redact_keys, Config.redact, List.length_mapIdx]

abbrev SameButSecrets (c c' : Config) : Prop := c.withoutSecrets = c'.withoutSecrets

section
variable {c c' : Config} (h : SameButSecrets c c')
include h

theorem SameButSecrets.name : c.name = c'.name :=
  (congrArg Config.name h : c.withoutSecrets.name = c'.withoutSecrets.name)

theorem SameButSecrets.interface : c.interface.withoutSecrets = c'.interface.withoutSecrets :=
  (congrArg Config.interface h : c.withoutSecrets.interface = c'.withoutSecrets.interface)

theorem SameButSecrets.peers : c.peers.map Peer.withoutSecrets = c'.peers.map Peer.withoutSecrets :=
  (congrArg Config.peers h : c.withoutSecrets.peers = c'.withoutSecrets.peers)

theorem SameButSecrets.redact : c.redact = c'.redact := by
  rw [← redact_withoutSecrets c, h, redact_withoutSecrets]

end

theorem hasWebSocketPeers_withoutSecrets (c : Config) :
    c.withoutSecrets.hasWebSocketPeers = c.hasWebSocketPeers := by
  rw [Config.hasWebSocketPeers, Config.withoutSecrets, List.any_map]
  rfl

theorem intersectsWith_withoutSecrets (c d : Config) :
    c.withoutSecrets.intersectsWith d.withoutSecrets = c.intersectsWith d := by
  have hroutes : c.withoutSecrets.allRoutes = c.allRoutes := by
    rw [Config.allRoutes, Config.withoutSecrets, List.foldl_map]
    rfl
  rw [Config.intersectsWith, hroutes, Config.withoutSecrets, List.any_map]
  rfl

theorem Peer.sameButSecrets_iff {p q : Peer} :
    p.withoutSecrets = q.withoutSecrets ↔ ∃ key bearer comments,
      q = { p with presharedKey := key, wsBearer := bearer, comments := comments } := by
  constructor
  · intro h
    refine ⟨q.presharedKey, q.wsBearer, q.comments, ?_⟩
    cases p
    cases q
    simp only [Peer.withoutSecrets, Peer.mk.injEq] at h ⊢
    tauto
  · rintro ⟨key, bearer, comments, rfl⟩
    rfl

theorem Interface.sameButSecrets_iff {i j : Interface} :
    i.withoutSecrets = j.withoutSecrets ↔ ∃ key preUp postUp preDown postDown comments,
      j = { i with
        privateKey := key, preUp := preUp, postUp := postUp, preDown := preDown
        postDown := postDown, comments := comments } := by
  constructor
  · intro h
    refine ⟨j.privateKey, j.preUp, j.postUp, j.preDown, j.postDown, j.comments, ?_⟩
    cases i
    cases j
    simp only [Interface.withoutSecrets, Interface.mk.injEq] at h ⊢
    tauto
  · rintro ⟨key, preUp, postUp, preDown, postDown, comments, rfl⟩
    rfl

theorem Peer.setUAPI_alike {p q : Peer} (h : p.withoutSecrets = q.withoutSecrets) (f : Field) :
    Alike (fun p q => p.withoutSecrets = q.withoutSecrets) (p.setUAPI f) (q.setUAPI f) := by
  obtain ⟨key, bearer, comments, rfl⟩ := Peer.sameButSecrets_iff.mp h
  rw [Peer.setUAPI, Peer.setUAPI]
  refine .ite (fun _ => .set fun _ => rfl) fun _ => .ite (fun _ => .set fun _ => rfl) fun _ => ?_
  refine .ite (fun _ => .ite (fun _ => rfl) fun _ => rfl) fun _ => ?_
  refine .ite (fun _ => .set fun _ => rfl) fun _ => .ite (fun _ => .set fun _ => rfl) fun _ => ?_
  refine .ite (fun _ => .set fun _ => rfl) fun _ => .ite (fun _ => .set fun _ => rfl) fun _ => ?_
  refine .ite (fun _ => .set fun _ => rfl) fun _ => .ite (fun _ => .set fun _ => rfl) fun _ => ?_
  exact .ite (fun _ => .set fun _ => rfl) fun _ => .ite (fun _ => rfl) fun _ => rfl

theorem Interface.setUAPI_alike {i j : Interface} (h : i.withoutSecrets = j.withoutSecrets)
    (f : Field) :
    Alike (fun i j => i.withoutSecrets = j.withoutSecrets) (i.setUAPI f) (j.setUAPI f) := by
  obtain ⟨key, preUp, postUp, preDown, postDown, comments, rfl⟩ := Interface.sameButSecrets_iff.mp h
  rw [Interface.setUAPI, Interface.setUAPI]
  exact .ite (fun _ => .set fun _ => rfl) fun _ => .ite (fun _ => .set fun _ => rfl) fun _ =>
    .ite (fun _ => rfl) fun _ => rfl

inductive SameField : Field → Field → Prop
  | same (f : Field) : SameField f f
  | secret {key v v' : Str} {k k' : Key}
      (hkey : key = str "private_key" ∨ key = str "preshared_key")
      (hv : parseKeyHex v = .ok k) (hv' : parseKeyHex v' = .ok k') :
      SameField (key, v) (key, v')

theorem Peer.setUAPI_same {p q : Peer} (h : p.withoutSecrets = q.withoutSecrets) {f g : Field}
    (hfg : SameField f g) :
    Alike (fun p q => p.withoutSecrets = q.withoutSecrets) (p.setUAPI f) (q.setUAPI g) := by
  cases hfg with
  | same => exact setUAPI_alike h f
  | @secret key v v' k k' hkey hv hv' =>
    obtain ⟨key, bearer, comments, rfl⟩ := Peer.sameButSecrets_iff.mp h
    rcases hkey with rfl | rfl
    · exact rfl
    · have hset : ∀ (p : Peer) {v : Str} {k : Key}, parseKeyHex v = .ok k →
          p.setUAPI (str "preshared_key", v) = .ok { p with presharedKey := k } := by
        intro p v k hv
        change (do return { p with presharedKey := ← parseKeyHex v } : Except Error Peer) = _
        rw [hv]
        rfl
      rw [hset _ hv, hset _ hv']
      exact rfl

theorem Interface.setUAPI_same {i j : Interface} (h : i.withoutSecrets = j.withoutSecrets)
    {f g : Field} (hfg : SameField f g) :
    Alike (fun i j => i.withoutSecrets = j.withoutSecrets) (i.setUAPI f) (j.setUAPI g) := by
  cases hfg with
  | same => exact setUAPI_alike h f
  | @secret key v v' k k' hkey hv hv' =>
    obtain ⟨key, preUp, postUp, preDown, postDown, comments, rfl⟩ :=
      Interface.sameButSecrets_iff.mp h
    rcases hkey with rfl | rfl
    · have hset : ∀ (i : Interface) {v : Str} {k : Key}, parseKeyHex v = .ok k →
          i.setUAPI (str "private_key", v) = .ok { i with privateKey := k } := by
        intro i v k hv
        change (do return { i with privateKey := ← parseKeyHex v } : Except Error Interface) = _
        rw [hv]
        rfl
      rw [hset _ hv, hset _ hv']
      exact rfl
    · exact rfl

abbrev SamePeers (ps qs : List Peer) : Prop :=
  ps.map Peer.withoutSecrets = qs.map Peer.withoutSecrets

structure SameState (st st' : UAPIState) : Prop where
  interface : st.interface.withoutSecrets = st'.interface.withoutSecrets
  peers : SamePeers st.peers st'.peers
  peer : st.peer.map Peer.withoutSecrets = st'.peer.map Peer.withoutSecrets

theorem withoutSecrets_mergeStored (stored : List Peer) (p : Peer) :
    (mergeStored stored p).withoutSecrets =
      mergeStored (stored.map Peer.withoutSecrets) p.withoutSecrets := by
  have hfind : (stored.map Peer.withoutSecrets).find? (·.publicKey = p.withoutSecrets.publicKey) =
      (stored.find? (·.publicKey = p.publicKey)).map Peer.withoutSecrets := List.find?_map
  rw [mergeStored, mergeStored, hfind]
  cases stored.find? (·.publicKey = p.publicKey) with
  | none => rfl
  | some existing => rfl

theorem map_addPeer (stored : List Peer) (st : UAPIState) :
    (st.addPeer stored).map Peer.withoutSecrets =
    st.peers.map Peer.withoutSecrets ++
      ((st.peer.map Peer.withoutSecrets).map
        (mergeStored (stored.map Peer.withoutSecrets))).toList := by
  rw [UAPIState.addPeer, List.map_append]
  cases st.peer with
  | none => rfl
  | some p => simp [withoutSecrets_mergeStored]

section
variable {stored stored' : List Peer} (hstored : SamePeers stored stored') {st st' : UAPIState}
include hstored

theorem SameState.addPeer (h : SameState st st') :
    SamePeers (st.addPeer stored) (st'.addPeer stored') := by
  rw [SamePeers, map_addPeer, map_addPeer, h.peers, h.peer, hstored]

theorem SameState.opened (h : SameState st st') (key : Str) :
    SameState (st.opened stored key) (st'.opened stored' key) := by
  rw [UAPIState.opened, UAPIState.opened]
  by_cases hkey : key = str "public_key"
  · rw [if_pos hkey, if_pos hkey]
    exact ⟨h.interface, h.addPeer hstored, rfl⟩
  · rw [if_neg hkey, if_neg hkey]
    exact h

omit hstored in
theorem SameState.set (h : SameState st st') {f g : Field} (hfg : SameField f g) :
    Alike SameState (st.set f) (st'.set g) := by
  obtain ⟨i, ps, p⟩ := st
  obtain ⟨i', ps', p'⟩ := st'
  obtain ⟨hinterface, hpeers, hpeer⟩ := h
  cases p with
  | none =>
    cases p' with
    | none => exact (Interface.setUAPI_same hinterface hfg).bind fun _ _ hset => ⟨hset, hpeers, rfl⟩
    | some p' => cases hpeer
  | some p =>
    cases p' with
    | none => cases hpeer
    | some p' =>
      exact (Peer.setUAPI_same (Option.some.inj hpeer) hfg).bind fun _ _ hset =>
        ⟨hinterface, hpeers, congrArg some hset⟩

theorem SameState.take (h : SameState st st') {f g : Field} (hfg : SameField f g) :
    Alike SameState (st.take stored f) (st'.take stored' g) := by
  have hset : ∀ {f g : Field}, SameField f g → f.1 = g.1 →
      Alike SameState ((st.opened stored f.1).set f) ((st'.opened stored' g.1).set g) := by
    intro f g hfg hkey
    rw [← hkey]
    exact (h.opened hstored f.1).set hfg
  cases hfg with
  | same => exact .ite (fun _ => .ite (fun _ => rfl) fun _ => h) fun _ => hset (.same f) rfl
  | @secret key v v' k k' hkey hv hv' =>
    have herrno : key ≠ str "errno" := by
      rcases hkey with rfl | rfl <;> decide
    rw [UAPIState.take, UAPIState.take, if_neg herrno, if_neg herrno]
    exact hset (.secret hkey hv hv') rfl

def SameLine (l l' : Str) : Prop :=
  l = l' ∨ ∃ f g, SameField f g ∧ equals ∉ f.1 ∧ l = line f ∧ l' = line g

omit hstored in
theorem SameLine.isEmpty {l l' : Str} (hl : SameLine l l') : l.isEmpty = l'.isEmpty := by
  rcases hl with rfl | ⟨f, g, -, -, rfl, rfl⟩
  · rfl
  · rw [line, line, List.isEmpty_eq_false_iff.mpr (by simp),
      List.isEmpty_eq_false_iff.mpr (by simp)]

theorem SameState.step (h : SameState st st') {l l' : Str} (hl : SameLine l l') :
    Alike SameState (st.step stored l) (st'.step stored' l') := by
  rcases hl with rfl | ⟨f, g, hfg, hf, rfl, rfl⟩
  · rcases hcut : cut l equals with ⟨key, val, found⟩
    cases found with
    | false =>
      rw [UAPIState.step, UAPIState.step, hcut]
      exact rfl
    | true =>
      rw [step_of_cut hcut, step_of_cut hcut]
      exact h.take hstored (.same (key, val))
  · have hg : equals ∉ g.1 := by
      cases hfg <;> exact hf
    rw [step_line hf, step_line hg]
    exact h.take hstored hfg

theorem uapiLoop_same {lines lines' : List Str} (hlines : List.Forall₂ SameLine lines lines')
    (h : SameState st st') :
    Alike SameState (uapiLoop stored st lines) (uapiLoop stored' st' lines') := by
  induction hlines generalizing st st' with
  | nil => exact rfl
  | @cons l l' rest rest' hl hrest ih =>
    by_cases hne : rest = []
    · subst hne
      obtain rfl := List.forall₂_nil_left_iff.mp hrest
      exact rfl
    · have hne' : rest' ≠ [] := by
        rintro rfl
        exact hne (List.forall₂_nil_right_iff.mp hrest)
      rw [uapiLoop_cons hne, uapiLoop_cons hne', hl.isEmpty]
      refine .ite (fun _ => h) fun _ => ?_
      exact (h.step hstored hl).mapError.bind fun _ _ hnext => ih hnext

end

theorem positionOf_withoutSecrets (stored : List Peer) (key : Key) :
    positionOf (stored.map Peer.withoutSecrets) key = positionOf stored key := by
  rw [positionOf, positionOf, List.zipIdx_map, List.foldl_map, List.length_map]
  rfl

theorem map_sortPeers (stored peers : List Peer) :
    (sortPeers stored peers).map Peer.withoutSecrets =
      sortPeers (stored.map Peer.withoutSecrets) (peers.map Peer.withoutSecrets) := by
  apply List.map_mergeSort
  intro p _ q _
  rw [positionOf_withoutSecrets, positionOf_withoutSecrets]
  rfl

theorem fromUAPI_same {report report' : Str}
    (hreport : List.Forall₂ SameLine (report.splitOn newline) (report'.splitOn newline))
    {stored stored' : Config} (h : SameButSecrets stored stored') :
    Alike SameButSecrets (fromUAPI report stored) (fromUAPI report' stored') := by
  have hpeers : SamePeers stored.peers stored'.peers := h.peers
  have hkept : stored.interface.kept.withoutSecrets = stored'.interface.kept.withoutSecrets := by
    obtain ⟨key, preUp, postUp, preDown, postDown, comments, heq⟩ :=
      Interface.sameButSecrets_iff.mp h.interface
    rw [heq]
    rfl
  have hinitial : SameState { interface := stored.interface.kept }
      { interface := stored'.interface.kept } := ⟨hkept, rfl, rfl⟩
  have hloop := uapiLoop_same hpeers hreport hinitial
  rw [fromUAPI, fromUAPI]
  refine hloop.bind fun st st' hst => ?_
  have hsorted : SamePeers (sortPeers stored.peers (st.addPeer stored.peers))
      (sortPeers stored'.peers (st'.addPeer stored'.peers)) := by
    rw [SamePeers, map_sortPeers, map_sortPeers, hpeers, hst.addPeer hpeers]
  change Config.withoutSecrets _ = Config.withoutSecrets _
  rw [Config.withoutSecrets, Config.withoutSecrets, hst.interface, hsorted, h.name]

structure SameWalk (r r' : Driver.Interface × List Driver.Visit) : Prop where
  interface : ∃ key, r'.1 = { r.1 with privateKey := key }
  visits : List.Forall₂ (fun v v' : Driver.Visit =>
    ∃ key, v' = { v with peer := { v.peer with presharedKey := key } }) r.2 r'.2

theorem configOf_same {r r' : Driver.Interface × List Driver.Visit} (hr : SameWalk r r')
    {stored stored' : Config} (h : SameButSecrets stored stored') :
    SameButSecrets (Driver.configOf stored r.1 r.2) (Driver.configOf stored' r'.1 r'.2) := by
  obtain ⟨key, hkey⟩ := hr.interface
  obtain ⟨_, preUp, postUp, preDown, postDown, comments, hinterface⟩ :=
    Interface.sameButSecrets_iff.mp h.interface
  have hpeers : SamePeers (r.2.map Driver.confPeerOf) (r'.2.map Driver.confPeerOf) := by
    rw [SamePeers, List.map_map, List.map_map, map_eq_map_iff_forall₂]
    refine hr.visits.imp ?_
    rintro v v' ⟨key, rfl⟩
    rfl
  change Config.withoutSecrets _ = Config.withoutSecrets _
  rw [Config.withoutSecrets, Config.withoutSecrets]
  simp only [Driver.configOf]
  rw [hpeers, h.name, hinterface, hkey]
  rfl

end WireGuardWindows.Conf
