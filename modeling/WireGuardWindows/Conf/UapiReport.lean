import Mathlib.Data.List.Perm.Basic
import WireGuardWindows.Conf.Uapi
import WireGuardWindows.GoStd.Loops
import WireGuardWindows.GoStd.Sort

/-!
# The report of a userspace device

The device reports its peers in the order of a map of Go, which is another one each time.
`FromUAPI` reads the report line by line into one peer at a time, and sorts at the end. A `Report`
is such a text by its parts; reading it is reading the interface and each peer alone
(`fromUAPI_text`), so that the order of the peers is left to the sort.
-/

namespace WireGuardWindows.Conf
open GoStd Strings Fields Loops

/-- The lines of the interface, and those of every peer from its `public_key` to the next. -/
structure Report where
  interface : List Field
  peers : List (List Field)
  oneLine : ∀ f ∈ interface ++ peers.flatten, OneLine f
  head : ∀ f ∈ interface, f.1 ≠ str "public_key"
  opens : ∀ b ∈ peers, Opens (str "public_key") b
  noErrno : ∀ f ∈ interface ++ peers.flatten, f.1 ≠ str "errno"

def Report.fields (r : Report) : List Field :=
  r.interface ++ r.peers.flatten ++ [(str "errno", str "0")]

def Report.text (r : Report) : Str := Fields.text r.fields ++ [newline]

def Interface.kept (i : Interface) : Interface :=
  { addresses := i.addresses, dns := i.dns, dnsSearch := i.dnsSearch, mtu := i.mtu,
    preUp := i.preUp, postUp := i.postUp, preDown := i.preDown, postDown := i.postDown,
    tableOff := i.tableOff }

def Peer.ofFields (block : List Field) : Except Error Peer := block.foldlM Peer.setUAPI {}

def UAPIState.opened (stored : List Peer) (st : UAPIState) (key : Str) : UAPIState :=
  if key = str "public_key" then { st with peers := st.addPeer stored, peer := some {} } else st

def UAPIState.set (st : UAPIState) (f : Field) : Except Error UAPIState :=
  match st.peer with
  | none => return { st with interface := ← st.interface.setUAPI f }
  | some peer => return { st with peer := some (← peer.setUAPI f) }

theorem UAPIState.set_interface {i i' : Interface} {f : Field} (h : i.setUAPI f = .ok i')
    (peers : List Peer) :
    UAPIState.set ⟨i, peers, none⟩ f = .ok ⟨i', peers, none⟩ := by
  simp only [UAPIState.set, h]
  rfl

theorem UAPIState.set_peer {p p' : Peer} {f : Field} (h : p.setUAPI f = .ok p') (i : Interface)
    (peers : List Peer) :
    UAPIState.set ⟨i, peers, some p⟩ f = .ok ⟨i, peers, some p'⟩ := by
  simp only [UAPIState.set, h]
  rfl

def UAPIState.take (stored : List Peer) (st : UAPIState) (f : Field) : Except Error UAPIState :=
  if f.1 = str "errno" then
    if f.2 ≠ str "0" then throw (.parseError "Error in getting configuration" f.2) else return st
  else (st.opened stored f.1).set f

variable {stored : List Peer} {st : UAPIState}

theorem step_of_cut {l key val : Str} (h : cut l equals = (key, val, true)) :
    st.step stored l = st.take stored (key, val) := by
  rw [UAPIState.step, h]
  rfl

theorem step_line {f : Field} (hf : equals ∉ f.1) : st.step stored (line f) = st.take stored f :=
  step_of_cut (cut_append hf)

theorem uapiLoop_cons {l : Str} {rest : List Str} (hrest : rest ≠ []) :
    uapiLoop stored st (l :: rest) =
    if l.isEmpty then .ok st else (st.step stored l).mapError .err >>= fun st =>
      uapiLoop stored st rest := by
  obtain ⟨next, rest, rfl⟩ := List.exists_cons_of_ne_nil hrest
  rw [uapiLoop]
  · cases st.step stored l <;> rfl
  · simp

theorem uapiLoop_fields {fs : List Field} (hfs : ∀ f ∈ fs, OneLine f) {rest : List Str}
    (hrest : rest ≠ []) {st' : UAPIState} (h : fs.foldlM (UAPIState.take stored) st = .ok st') :
    uapiLoop stored st (fs.map line ++ rest) = uapiLoop stored st' rest := by
  induction fs generalizing st with
  | nil =>
    cases h
    rfl
  | cons f fs ih =>
    obtain ⟨st₁, hfirst, hothers⟩ := bind_eq_ok h
    have hline : (line f).isEmpty = false := by simp [line]
    rw [List.map_cons, List.cons_append, uapiLoop_cons (by simp [hrest]), hline,
      step_line (hfs f List.mem_cons_self).separator, hfirst]
    exact ih (fun f' hf' => hfs f' (List.mem_cons_of_mem f hf')) hothers

variable (stored st)

theorem take_settings {α : Type} {set : α → Field → Except Error α} (state : α → UAPIState)
    (hset : ∀ {a f b}, set a f = .ok b → (state a).set f = .ok (state b)) {fs : List Field}
    (hopen : ∀ f ∈ fs, f.1 ≠ str "public_key") (herrno : ∀ f ∈ fs, f.1 ≠ str "errno") {a b : α}
    (h : fs.foldlM set a = .ok b) :
    fs.foldlM (UAPIState.take stored) (state a) = .ok (state b) := by
  induction fs generalizing a with
  | nil =>
    cases h
    rfl
  | cons f fs ih =>
    obtain ⟨c, hfirst, hothers⟩ := bind_eq_ok h
    rw [List.forall_mem_cons] at hopen herrno
    rw [List.foldlM_cons, UAPIState.take, if_neg herrno.1, UAPIState.opened, if_neg hopen.1,
      hset hfirst]
    exact ih hopen.2 herrno.2 hothers

theorem take_block {b : List Field} (hopens : Opens (str "public_key") b)
    (herrno : ∀ f ∈ b, f.1 ≠ str "errno") {p : Peer} (h : Peer.ofFields b = .ok p) :
    b.foldlM (UAPIState.take stored) st = .ok { st with
      peers := st.addPeer stored, peer := some p } := by
  obtain ⟨v, rest, rfl, hrest⟩ := hopens.head
  obtain ⟨p₁, hfirst, hothers⟩ := bind_eq_ok h
  have htake : st.take stored (str "public_key", v) = .ok { st with
      peers := st.addPeer stored, peer := some p₁ } := by
    rw [UAPIState.take, if_neg (herrno _ List.mem_cons_self), UAPIState.opened, if_pos rfl]
    exact UAPIState.set_peer hfirst _ _
  rw [List.foldlM_cons, htake]
  exact take_settings stored (fun q => { st with peers := st.addPeer stored, peer := some q })
    (fun h => UAPIState.set_peer h _ _) hrest
    (fun f hf => herrno f (List.mem_cons_of_mem _ hf)) hothers

theorem take_blocks {bs : List (List Field)} (hopens : ∀ b ∈ bs, Opens (str "public_key") b)
    (herrno : ∀ f ∈ bs.flatten, f.1 ≠ str "errno") {ps : List Peer}
    (h : List.Forall₂ (fun b p => Peer.ofFields b = .ok p) bs ps) :
    ∃ st', bs.flatten.foldlM (UAPIState.take stored) st = .ok st' ∧ st'.interface = st.interface ∧
      st'.addPeer stored = st.addPeer stored ++ ps.map (mergeStored stored) := by
  induction h generalizing st with
  | nil => exact ⟨st, rfl, rfl, by simp⟩
  | @cons b p bs ps hp hps ih =>
    rw [List.flatten_cons] at herrno ⊢
    have hblock :=
      take_block stored st (hopens b List.mem_cons_self) (fun f hf =>
        herrno f (List.mem_append_left _ hf)) hp
    obtain ⟨st', hothers, hinterface, hpeers⟩ :=
      ih { st with peers := st.addPeer stored, peer := some p }
      (fun b' hb' => hopens b' (List.mem_cons_of_mem b hb')) fun f hf =>
        herrno f (List.mem_append_right _ hf)
    refine ⟨st', ?_, hinterface, ?_⟩
    · rw [List.foldlM_append, hblock]
      exact hothers
    · rw [hpeers, UAPIState.addPeer]
      simp

theorem Report.fields_oneLine (r : Report) : ∀ f ∈ r.fields, OneLine f := by
  exact List.forall_mem_append.mpr
    ⟨r.oneLine, List.forall_mem_singleton.mpr ⟨by decide, by decide, by decide⟩⟩

theorem splitOn_report (r : Report) : r.text.splitOn newline = r.fields.map line ++ [[], []] := by
  have hlines : r.text = (r.fields.map line ++ [[]]).flatMap (· ++ [newline]) := by
    simp [Report.text, Fields.text, List.flatMap_append, List.flatMap_map]
  rw [hlines, splitOn_lines]
  · simp
  · intro l hl
    rcases List.mem_append.mp hl with hl | hl
    · obtain ⟨f, hf, rfl⟩ := List.mem_map.mp hl
      exact (r.fields_oneLine f hf).line
    · rw [List.mem_singleton.mp hl]
      exact List.not_mem_nil

theorem fromUAPI_text {r : Report} {config : Config} {interface : Interface}
    (hinterface : r.interface.foldlM Interface.setUAPI config.interface.kept = .ok interface)
    {ps : List Peer} (hpeers : List.Forall₂ (fun b p => Peer.ofFields b = .ok p) r.peers ps) :
    fromUAPI r.text config =
      .ok {
        name := config.name
        interface := interface
        peers := sortPeers config.peers (ps.map (mergeStored config.peers)) } := by
  have hhead :=
    take_settings config.peers (⟨·, [], none⟩) (fun h => UAPIState.set_interface h []) r.head
      (fun f hf => r.noErrno f (List.mem_append_left _ hf)) hinterface
  obtain ⟨st, hblocks, hsame, hread⟩ := take_blocks config.peers { interface := interface } r.opens
    (fun f hf => r.noErrno f (List.mem_append_right _ hf)) hpeers
  have hfields : r.fields.foldlM (UAPIState.take config.peers)
      { interface := config.interface.kept } = .ok st := by
    rw [Report.fields, List.foldlM_append, List.foldlM_append, hhead]
    change (r.peers.flatten.foldlM (UAPIState.take config.peers) { interface := interface } >>= _) =
      _
    rw [hblocks]
    rfl
  have hloop : uapiLoop config.peers { interface := config.interface.kept }
      (r.text.splitOn newline) = .ok st := by
    rw [splitOn_report, uapiLoop_fields r.fields_oneLine (by simp) hfields]
    rfl
  rw [fromUAPI]
  change (uapiLoop config.peers { interface := config.interface.kept } (r.text.splitOn newline) >>=
    _) = _
  have hread : st.addPeer config.peers = ps.map (mergeStored config.peers) := hread
  have hsame : st.interface = interface := hsame
  rw [hloop, ← hread, ← hsame]
  rfl

section
variable {stored : List Peer}

abbrev DistinctKeys (peers : List Peer) : Prop := (peers.map (·.publicKey)).Nodup

theorem foldl_unchanged {α β : Type*} {f : β → α → β} {l : List α} (h : ∀ a ∈ l, ∀ b, f b a = b)
    (b : β) : l.foldl f b = b := by
  induction l with
  | nil => rfl
  | cons a l ih =>
    rw [List.foldl_cons, h a List.mem_cons_self b]
    exact ih fun a' ha' => h a' (List.mem_cons_of_mem a ha')

theorem positionOf_append {before after : List Peer} {p : Peer}
    (hdistinct : DistinctKeys (before ++ p :: after)) :
    positionOf (before ++ p :: after) p.publicKey = before.length := by
  have hafter : p.publicKey ∉ after.map (·.publicKey) := by
    rw [DistinctKeys, List.map_append, List.map_cons] at hdistinct
    exact (List.nodup_cons.mp (List.nodup_append.mp hdistinct).2.1).1
  rw [positionOf, List.zipIdx_append, List.foldl_append, List.zipIdx_cons, List.foldl_cons,
    foldl_unchanged]
  · exact (if_pos rfl).trans (Nat.zero_add _)
  · rintro ⟨q, i⟩ hq position
    apply if_neg
    intro heq
    exact hafter (heq ▸ List.mem_map_of_mem (List.fst_mem_of_mem_zipIdx hq))

theorem positionOf_getElem (hdistinct : DistinctKeys stored) {i : Nat} (hi : i < stored.length) :
    positionOf stored stored[i].publicKey = i := by
  have hsplit : stored.take i ++ stored[i] :: stored.drop (i + 1) = stored := by
    rw [List.cons_getElem_drop_succ, List.take_append_drop]
  have hposition := positionOf_append (hsplit.symm ▸ hdistinct)
  rwa [hsplit, List.length_take_of_le hi.le] at hposition

theorem positionOf_injective (hdistinct : DistinctKeys stored) {a b : Key}
    (ha : a ∈ stored.map (·.publicKey)) (hb : b ∈ stored.map (·.publicKey))
    (h : positionOf stored a = positionOf stored b) : a = b := by
  obtain ⟨p, hp, rfl⟩ := List.mem_map.mp ha
  obtain ⟨q, hq, rfl⟩ := List.mem_map.mp hb
  obtain ⟨i, hi, rfl⟩ := List.getElem_of_mem hp
  obtain ⟨j, hj, rfl⟩ := List.getElem_of_mem hq
  rw [positionOf_getElem hdistinct hi, positionOf_getElem hdistinct hj] at h
  subst h
  rfl

theorem stored_sorted (hdistinct : DistinctKeys stored) :
    stored.Pairwise fun p q => positionOf stored p.publicKey ≤ positionOf stored q.publicKey := by
  rw [List.pairwise_iff_getElem]
  intro i j hi hj hij
  rw [positionOf_getElem hdistinct hi, positionOf_getElem hdistinct hj]
  exact hij.le

theorem sortPeers_perm (stored peers : List Peer) : (sortPeers stored peers).Perm peers :=
  List.mergeSort_perm peers _

theorem sortPeers_sorted (stored peers : List Peer) :
    (sortPeers stored peers).Pairwise fun p q => positionOf stored p.publicKey ≤
      positionOf stored q.publicKey := by
  have hsorted : (sortPeers stored peers).Pairwise fun p q =>
      decide (positionOf stored p.publicKey ≤ positionOf stored q.publicKey) = true := by
    apply List.pairwise_mergeSort
    · intro p q r hpq hqr
      rw [decide_eq_true_eq] at hpq hqr ⊢
      exact hpq.trans hqr
    · intro p q
      rw [Bool.or_eq_true, decide_eq_true_eq, decide_eq_true_eq]
      exact le_total _ _
  exact hsorted.imp fun h => of_decide_eq_true h

variable {peers : List Peer} (hdistinct : DistinctKeys stored)
  (hkeys : (peers.map (·.publicKey)).Perm (stored.map (·.publicKey)))
include hdistinct hkeys

theorem sortPeers_keys : (sortPeers stored peers).map (·.publicKey) = stored.map (·.publicKey) := by
  have hperm := ((sortPeers_perm stored peers).map (·.publicKey)).trans hkeys
  apply GoStd.Sort.eq_of_sorted _ hperm (List.pairwise_map.mpr (sortPeers_sorted stored peers))
    (List.pairwise_map.mpr (stored_sorted hdistinct))
  intro a ha b hb hab
  exact positionOf_injective hdistinct (hperm.mem_iff.mp ha) hb hab

theorem sortPeers_congr {peers' : List Peer} (hperm : peers'.Perm peers) :
    sortPeers stored peers' = sortPeers stored peers := by
  have hsame : (sortPeers stored peers').Perm (sortPeers stored peers) :=
    ((sortPeers_perm stored peers').trans hperm).trans (sortPeers_perm stored peers).symm
  apply GoStd.Sort.eq_of_sorted _ hsame (sortPeers_sorted stored peers')
    (sortPeers_sorted stored peers)
  intro p hp q hq hpq
  have hp : p ∈ peers := (sortPeers_perm stored peers).mem_iff.mp (hsame.mem_iff.mp hp)
  have hq : q ∈ peers := (sortPeers_perm stored peers).mem_iff.mp hq
  have hkey : p.publicKey = q.publicKey :=
    positionOf_injective hdistinct (hkeys.mem_iff.mp (List.mem_map_of_mem hp))
      (hkeys.mem_iff.mp (List.mem_map_of_mem hq)) hpq
  exact List.inj_on_of_nodup_map (hkeys.nodup_iff.mpr hdistinct) hp hq hkey

end

theorem publicKey_mergeStored (stored : List Peer) (p : Peer) :
    (mergeStored stored p).publicKey = p.publicKey := by
  rw [mergeStored]
  split <;> rfl

theorem mergeStored_eq {stored : List Peer} (hdistinct : DistinctKeys stored) {s p : Peer}
    (hs : s ∈ stored) (hkey : p.publicKey = s.publicKey) :
    mergeStored stored p = p.withWSOf s := by
  rw [mergeStored]
  cases hfind : stored.find? (·.publicKey = p.publicKey) with
  | none =>
    have hne := List.find?_eq_none.mp hfind s hs
    simp [hkey] at hne
  | some s' =>
    have hfound := List.find?_some hfind
    rw [decide_eq_true_eq] at hfound
    rw [List.inj_on_of_nodup_map hdistinct (List.mem_of_find?_eq_some hfind) hs (hfound.trans hkey)]

theorem redact_keys (c : Config) :
    c.redact.peers.map (·.publicKey) = (List.range c.peers.length).map positionKey := by
  apply List.ext_getElem
  · simp [Config.redact]
  · intro i hi hi'
    simp [Config.redact, Peer.redactAt]

def firstPeer : List Field :=
  [(str "public_key", hexKey (positionKey 1)), (str "rx_bytes", str "7")]

def secondPeer : List Field :=
  [(str "public_key", hexKey (positionKey 2)), (str "endpoint", str "192.0.2.1:51820")]

instance (f : Field) : Decidable (OneLine f) :=
  decidable_of_iff (newline ∉ f.1 ∧ equals ∉ f.1 ∧ newline ∉ f.2) ⟨fun h => ⟨h.1, h.2.1, h.2.2⟩,
  fun h => ⟨h.key, h.separator, h.value⟩⟩

def twoPeers (peers : List (List Field))
    (h : peers = [firstPeer, secondPeer] ∨ peers = [secondPeer, firstPeer]) : Report where
  interface := [(str "listen_port", str "51820")]
  peers := peers
  oneLine := by rcases h with rfl | rfl <;> decide
  head := by decide
  opens := by
    have hfirst : Opens (str "public_key") firstPeer := ⟨_, _, rfl, by decide⟩
    have hsecond : Opens (str "public_key") secondPeer := ⟨_, _, rfl, by decide⟩
    rcases h with rfl | rfl <;> simp [hfirst, hsecond]
  noErrno := by rcases h with rfl | rfl <;> decide

end WireGuardWindows.Conf
