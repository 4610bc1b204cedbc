import WireGuardWindows.Tunnel.RouteFollow

/-!
# What a monitor has before it

The steps that a monitor takes by itself are counted beforehand. An update deletes routes only
when it finds another gateway than the recorded one, which it then records, so that every family
does it once; what is added notifies nobody. Besides the count: a family that is incomplete is
looked after as long as the monitor runs, and a monitor that cannot take a step has nothing left
to do.
-/

namespace WireGuardWindows.Tunnel.RouteMonitor
open GoStd Netip Conf Systems

def Position.On : Position → AddressFamily → Prop
  | .next, _ => False
  | .deleting i _ _, j => i = j
  | .adding i _, j => i = j

def Monitor.Mending (m : Monitor) (i : AddressFamily) : Prop :=
  m.Pending i ∨ ∃ removing todo pos moved failed, m.work =
    some ⟨removing, todo, pos, moved, failed⟩ ∧ pos.On i

/-- Not between `newDefaultRouteMonitor` and the end of `start`. -/
def Stage.steady : Stage → Bool
  | .absent | .started | .unregisterRoute | .waitRoute | .unregisterInterface | .waitInterface
  | .stopTimer | .remove
  | .removing | .destroyed => true
  | _ => false

def Act.Usual (a : Act) : Prop := a.Succeeds ∧ ∀ config ourLUID, a ≠ .new config ourLUID

structure Monitor.Mends (m : Monitor) : Prop where
  steady : m.stage.steady = true
  mending : m.stage = .started → ∀ i, (m.families i).incomplete = true → m.Mending i
  nodup : ∀ i, (m.families i).owned.Nodup
  removal : m.stage = .removing → m.work ≠ none

section
variable {cur : AddressFamily → DefaultGateway} {present : Route → Bool} {m m' : Monitor} {a : Act}
  {effect : Effect}

theorem Monitor.Mends.notices (hm : m.Mends) {notices : List Notice} (h : m.notices ⊆ notices) :
    { m with notices := notices }.Mends where
  steady := hm.steady
  mending hstage i hi :=
    (hm.mending hstage i hi).imp_left (pending_of_notices fun _ _ hmem => h hmem)
  nodup := hm.nodup
  removal := hm.removal

theorem Monitor.Mends.of_update (hm : m.Mends) {todo pos moved failed todo' pos' moved' failed'}
    (hw : m.work = some ⟨false, todo, pos, moved, failed⟩)
    (hw' : m'.work = some ⟨false, todo', pos', moved', failed'⟩)
    (hrest : ∃ families work, m' = { m with families := families, work := work })
    (hincomplete : ∀ i, (m'.families i).incomplete = true → (m.families i).incomplete =
      true ∨ pos'.On i)
    (htodo : ∀ i, i ∈ todo ∨ pos.On i → (m'.families i).incomplete = true → i ∈ todo' ∨ pos'.On i)
    (hnodup : ∀ i, (m'.families i).owned.Nodup) : m'.Mends := by
  obtain ⟨families, work, rfl⟩ := hrest
  refine ⟨hm.steady, fun hstage i hi => ?_, hnodup, fun _ h => by cases hw'.symm.trans h⟩
  -- what the update has not come to, and what it is at
  have hbusy (h : i ∈ todo' ∨ pos'.On i) :
      { m with families := families, work := work }.Mending i :=
    h.imp (Monitor.pending_of_todo hw') fun h => ⟨_, _, _, _, _, hw', h⟩
  rcases hincomplete i hi with hold | hon
  · rcases hm.mending hstage i hold with h | ⟨_, _, _, _, _, h, hon⟩
    · rcases h.of_work { m with families := families, work := work } hw
        ⟨rfl, rfl, rfl, rfl⟩ with h | hi'
      · exact .inl h
      · exact hbusy (htodo i (.inl hi') hi)
    · cases hw.symm.trans h
      exact hbusy (htodo i (.inr hon) hi)
  · exact hbusy (.inr hon)

theorem Monitor.Mends.of_stage (stage : Stage) (hstage : m'.stage = stage)
    (hsteady : stage.steady = true ∧ stage ≠ .started) (hnodup : ∀ i, (m'.families i).owned.Nodup)
    (hremoval : stage = .removing → m'.work ≠ none) : m'.Mends := by
  subst hstage
  exact ⟨hsteady.1, fun h => absurd h hsteady.2, hnodup, hremoval⟩

theorem Monitor.Mends.of_event (hm : m.Mends) (hstage : m'.stage = m.stage)
    (hwork : m'.work = none → m.work = none)
    (hnodup : ∀ i, (m'.families i).owned = (m.families i).owned)
    (hmending : m.stage = .started → ∀ i, (m'.families i).incomplete = true →
      ((m.families i).incomplete = true → m.Mending i) → m'.Mending i) : m'.Mends where
  steady := hstage ▸ hm.steady
  mending h i hi := by
    rw [hstage] at h
    exact hmending h i hi (hm.mending h i)
  nodup i := hnodup i ▸ hm.nodup i
  removal h hidle := hm.removal (hstage ▸ h) (hwork hidle)

theorem nodup_setFamily {i : AddressFamily} {f : DefaultRouteFamily} {w : Work}
    (hm : ∀ j, (m.families j).owned.Nodup) (h : f.owned.Nodup) (j : AddressFamily) :
    (((m.setFamily i f).working w).families j).owned.Nodup := by
  rw [Monitor.working, setFamily_families]
  split_ifs
  · exact h
  · exact hm j

theorem Monitor.Mends.elim {P : Prop} (hm : m.Mends) {stage : Stage} (hstage : m.stage = stage)
    (h : stage.steady = false) : P := by
  subst hstage
  cases h.symm.trans hm.steady

theorem Monitor.Mends.updating (hm : m.Mends) (hcontrol : m.Control) {todo pos moved failed}
    (hw : m.work = some ⟨false, todo, pos, moved, failed⟩) : m.stage = .started := by
  rcases hcontrol.updating _ _ _ _ hw with h | h
  · exact hm.elim h rfl
  · exact h

theorem Monitor.Mends.removing (hm : m.Mends) (hcontrol : m.Control) {todo pos moved failed}
    (hw : m.work = some ⟨true, todo, pos, moved, failed⟩) : m.stage = .removing := by
  rcases hcontrol.removing _ _ _ _ hw with h | h
  · exact hm.elim h rfl
  · exact h

theorem Monitor.Mends.lookup {i todo moved failed pos} (hm : m.Mends)
    (hw : m.work = some ⟨false, i :: todo, .next, moved, failed⟩) {f : DefaultRouteFamily}
    (hnodup : f.owned.Nodup) (hpos : pos.On i) {moved' : Bool} :
    ((m.setFamily i f).working ⟨false, todo, pos, moved', failed⟩).Mends := by
  refine hm.of_update hw rfl ⟨_, _, rfl⟩ (fun j => ?_) (fun j hj _ => ?_)
    (nodup_setFamily hm.nodup hnodup)
  · rw [Monitor.working, setFamily_families]
    split_ifs with hj
    · exact fun _ => .inr (hj ▸ hpos)
    · exact .inl
  · rcases hj with hj | hj
    · rcases List.mem_cons.mp hj with rfl | hj
      · exact .inr hpos
      · exact .inl hj
    · cases hj

/-- A step of an update in the family it is at. -/
theorem Monitor.Mends.goOn {i todo pos moved failed pos'} (hm : m.Mends)
    (hw : m.work = some ⟨false, todo, pos, moved, failed⟩) {f : DefaultRouteFamily}
    (hnodup : f.owned.Nodup) (hpos : ∀ j, pos.On j → j = i)
    (hpos' : f.incomplete = true → pos'.On i) {moved' : Bool} :
    ((m.setFamily i f).working ⟨false, todo, pos', moved', failed⟩).Mends := by
  refine hm.of_update hw rfl ⟨_, _, rfl⟩ (fun j => ?_) (fun j hj => ?_)
    (nodup_setFamily hm.nodup hnodup)
  all_goals rw [Monitor.working, setFamily_families]
  · split_ifs with hji
    · exact fun h => .inr (hji ▸ hpos' h)
    · exact .inl
  · split_ifs with hji
    · exact fun h => .inr (hji ▸ hpos' h)
    · exact fun _ => .inl (hj.resolve_right fun h => hji (hpos j h))

theorem Monitor.Mends.moves (hm : m.Mends) (hfollows : Follows cur m)
    (h : Moves cur present m a m' effect) (husual : a.Usual) : m'.Mends := by
  have hremoving {todo pos moved failed} :=
    @Monitor.Mends.removing m hm hfollows.control todo pos moved failed
  cases h with
  | lookupError hw | addFails hw => cases husual.1
  | @lookupSame i todo moved failed hw hgateway hcomplete =>
    refine hm.of_update hw rfl ⟨_, _, rfl⟩ (fun j => .inl) (fun j hj hincomplete => ?_) hm.nodup
    rcases hj with hj | hj
    · rcases List.mem_cons.mp hj with rfl | hj
      · cases hcomplete.symm.trans hincomplete
      · exact .inl hj
    · cases hj
  | lookupMoved hw | lookupAgain hw =>
    refine hm.lookup hw ?_ ?_
    · exact hm.nodup _
    · exact rfl
  | @deleteRoute removing todo i previous left moved failed host succeeds hw =>
    cases removing with
    | false => exact hm.of_update hw rfl ⟨_, _, rfl⟩ (fun j => .inl) (fun j hj _ => hj) hm.nodup
    | true => exact .of_stage .removing (hremoving hw) (by decide) hm.nodup fun _ h => by cases h
  | addExists _ hw | addSkipped hw =>
    obtain rfl := hfollows.control.adding hw
    exact hm.of_update hw rfl ⟨_, _, rfl⟩ (fun j => .inl) (fun j hj _ => hj) hm.nodup
  | added hw =>
    obtain rfl := hfollows.control.adding hw
    refine hm.goOn hw ?_ (fun j h => h.symm) fun _ => ?_
    · exact (hm.nodup _).insert
    · exact rfl
  | addedAll hw =>
    obtain rfl := hfollows.control.adding hw
    refine hm.goOn hw ?_ (fun j h => h.symm) fun h => ?_
    · exact hm.nodup _
    · cases h
  | deletedAll hw =>
    refine hm.goOn hw ?_ (fun j h => h.symm) fun _ => ?_
    · exact List.nodup_nil
    · exact rfl
  | removeNext hw =>
    exact .of_stage .removing (hremoving hw) (by decide) hm.nodup fun _ h => by cases h
  | removedAll hw =>
    exact .of_stage .removing (hremoving hw) (by decide) (nodup_setFamily hm.nodup List.nodup_nil)
      fun _ h => by cases h
  | removed binds hw hstage =>
    exact .of_stage .destroyed rfl (by decide) hm.nodup fun h => by cases h
  | @updated removing moved failed binds hw hconstructing hremoved =>
    refine ⟨hm.steady, fun hstage i hi => ?_, hm.nodup, fun hstage => absurd hstage hremoved⟩
    rcases hm.mending hstage i hi with h | ⟨_, _, _, _, _, h, hon⟩
    · exact .inl (Or.resolve_right (h.of_work _ hw ⟨rfl, rfl, rfl, rfl⟩) List.not_mem_nil)
    · cases hw.symm.trans h
      cases hon
  | @hostDeleted destination i late hmem hw =>
    refine hm.of_event rfl id (fun j => ?_) fun _ _ _ _ =>
      .inl (.inl (List.mem_append_right _ List.mem_cons_self))
    dsimp only
    rw [setFamily_families]
    split_ifs with hj
    · rw [hj]
    · rfl
  | otherDeleted late hmem hw =>
    refine hm.of_event rfl id (fun _ => rfl) fun _ i hi hmending => ?_
    exact (hmending hi).imp_left (pending_of_notices fun _ hnotice hmem =>
      (List.mem_erase_of_ne (hnotice _)).mpr hmem)
  | bump late =>
    obtain ⟨hfamilies, hwork⟩ := bump_frame late { m with notices := m.notices.erase _ }
    exact hm.of_event (bump_stage late _).1 (fun h => hwork.symm.trans h)
      (fun i => by rw [hfamilies]) fun _ i _ _ => .inl (pending_of_bump late _ i)
  | fire =>
    exact hm.of_event rfl id (fun _ => rfl) fun _ _ _ _ =>
      .inl (.inr (.inr (.inr (.inl (Nat.succ_ne_zero _)))))
  | burst =>
    exact hm.of_event rfl id (fun _ => rfl) fun _ _ _ _ =>
      .inl (.inr (.inr (.inr (.inr (.inl (Nat.succ_ne_zero _))))))
  | update =>
    exact hm.of_event rfl (fun h => by cases h) (fun _ => rfl) fun _ i _ _ =>
      .inl (Monitor.pending_of_todo rfl (by cases i <;> decide))
  | updateVoid hupdates hw hcallbacks =>
    refine hm.of_event rfl id (fun _ => rfl) fun hstage => ?_
    cases hcallbacks.symm.trans (hfollows.callbacks hstage)
  | new config ourLUID => exact absurd rfl (husual.2 config ourLUID)
  | unregisterRoute => exact .of_stage .waitRoute rfl (by decide) hm.nodup fun h => by cases h
  | routeWaited => exact .of_stage .unregisterInterface rfl (by decide) hm.nodup fun h => by cases h
  | unregisterInterface =>
    exact .of_stage .waitInterface rfl (by decide) hm.nodup fun h => by cases h
  | interfaceWaited | destroyUnstarted =>
    exact .of_stage .stopTimer rfl (by decide) hm.nodup fun h => by cases h
  | stopTimer => exact .of_stage .remove rfl (by decide) hm.nodup fun h => by cases h
  | remove => exact .of_stage .removing rfl (by decide) hm.nodup fun _ h => by cases h
  | destroyStarted => exact .of_stage .unregisterRoute rfl (by decide) hm.nodup fun h => by cases h
  | _ => exact hm.elim (by assumption) rfl

end

def Stage.destroying : Stage → Option Nat
  | .unregisterRoute => some 5
  | .waitRoute => some 4
  | .unregisterInterface => some 3
  | .waitInterface => some 2
  | .stopTimer => some 1
  | .remove => some 0
  | _ => none

namespace Monitor

def hostCount (m : Monitor) (i : AddressFamily) : Nat := (m.families i).hosts.length

def hostCounts (m : Monitor) : Nat := m.hostCount .inet + m.hostCount .inet6

def positionWeight (m : Monitor) : Position → Nat
  | .next => 0
  | .deleting i _ _ => m.hostCount i + 2
  | .adding _ left => left.length + 1

def workWeight (m : Monitor) : Option Work → Nat
  | none => 0
  | some w => 1 + (w.todo.map fun i => m.hostCount i + 3).sum + m.positionWeight w.pos

def noticeWeight (m : Monitor) : Notice → Nat
  | .deleted _ => m.hostCounts + 12
  | _ => m.hostCounts + 11

def stageWeight (m : Monitor) : Nat :=
  m.stage.destroying.elim 0 fun steps => m.hostCounts + 8 + steps

def effort (m : Monitor) : Nat :=
  (m.notices.map m.noticeWeight).sum + (if m.timer then m.hostCounts + 10 else 0) +
    m.fired * (m.hostCounts + 9) +
    m.updates * (m.hostCounts + 8) + m.workWeight m.work + m.stageWeight

def leftToDelete (m : Monitor) : Nat :=
  match m.work with
  | some ⟨_, _, .deleting _ _ left, _, _⟩ => left.length
  | _ => 0

/-- The routes that will be deleted because their gateway is not the default gateway any more. -/
def stale (cur : AddressFamily → DefaultGateway) (m : Monitor) (i : AddressFamily) : Nat :=
  if (m.families i).gateway = cur i then 0 else m.hostCount i

def deletions (cur : AddressFamily → DefaultGateway) (m : Monitor) : Nat :=
  match m.stage with
  | .started => m.stale cur .inet + m.stale cur .inet6 + m.leftToDelete
  | .removing => (m.work.elim 0 fun w => (w.todo.map m.hostCount).sum) + m.leftToDelete
  | stage => if stage.destroying.isSome then m.hostCounts else 0

end Monitor

section
variable {cur : AddressFamily → DefaultGateway} {present : Route → Bool} {m m' : Monitor} {a : Act}
  {effect : Effect}

/-- One step costs one unit of work, or one deletion, which is worth more. -/
def Cheaper (cur : AddressFamily → DefaultGateway) (m m' : Monitor) (effect : Effect) : Prop :=
  (m'.deletions cur ≤ m.deletions cur ∧ m'.effort < m.effort ∧ ∀ r, effect ≠ .delete r) ∨
    (m'.deletions cur < m.deletions cur ∧ m'.effort ≤ m.effort)

theorem hostCount_eq (h : ∀ i, (m'.families i).hosts = (m.families i).hosts) :
    m'.hostCount = m.hostCount :=
  funext fun i => congrArg List.length (h i)

theorem hostCounts_eq (h : ∀ i, (m'.families i).hosts = (m.families i).hosts) :
    m'.hostCounts = m.hostCounts := by
  rw [Monitor.hostCounts, Monitor.hostCounts, hostCount_eq h]

theorem noticeWeight_eq (h : ∀ i, (m'.families i).hosts = (m.families i).hosts) :
    m'.noticeWeight = m.noticeWeight := by
  funext notice
  cases notice <;> simp only [Monitor.noticeWeight, hostCounts_eq h]

theorem positionWeight_eq (h : ∀ i, (m'.families i).hosts = (m.families i).hosts) :
    m'.positionWeight = m.positionWeight := by
  funext pos
  cases pos <;> simp only [Monitor.positionWeight, hostCount_eq h]

theorem workWeight_eq (h : ∀ i, (m'.families i).hosts = (m.families i).hosts) (w : Option Work) :
    m'.workWeight w = m.workWeight w := by
  cases w with
  | none => rfl
  | some w => simp only [Monitor.workWeight, hostCount_eq h, positionWeight_eq h]

theorem stageWeight_eq (h : ∀ i, (m'.families i).hosts = (m.families i).hosts)
    (hstage : m'.stage = m.stage) :
    m'.stageWeight = m.stageWeight := by
  rw [Monitor.stageWeight, Monitor.stageWeight, hstage, hostCounts_eq h]

theorem effort_of_work (h : ∀ i, (m'.families i).hosts = (m.families i).hosts)
    (hrest : ∃ families work, m' = { m with families := families, work := work }) :
    m'.effort + m.workWeight m.work = m.effort + m.workWeight m'.work := by
  have hstage : m'.stage = m.stage := by
    obtain ⟨families, work, rfl⟩ := hrest
    rfl
  have hsame : m'.notices = m.notices ∧ m'.timer = m.timer ∧ m'.fired = m.fired ∧
      m'.updates = m.updates := by
    obtain ⟨families, work, rfl⟩ := hrest
    exact ⟨rfl, rfl, rfl, rfl⟩
  simp only [Monitor.effort, noticeWeight_eq h, hostCounts_eq h, workWeight_eq h,
    stageWeight_eq h hstage, hsame]
  omega

theorem length_owned_le (hm : m.WF) (hnodup : ∀ i, (m.families i).owned.Nodup)
    {removing todo moved failed} (hw : m.work = some ⟨removing, todo, .next, moved, failed⟩)
    (i : AddressFamily) :
    (m.families i).owned.length ≤ m.hostCount i := by
  have hsub : (m.families i).owned ⊆ (m.families i).hosts := by
    intro host hhost
    refine hm.held i host ?_
    rw [holding_next hw]
    exact hhost
  exact ((hnodup i).subperm hsub).length_le

theorem deletions_started (h : m.stage = .started) :
    m.deletions cur = m.stale cur .inet + m.stale cur .inet6 + m.leftToDelete := by
  rw [Monitor.deletions, h]

theorem deletions_removing {removing todo pos moved failed} (h : m.stage = .removing)
    (hw : m.work = some ⟨removing, todo, pos, moved, failed⟩) :
    m.deletions cur = (todo.map m.hostCount).sum + m.leftToDelete := by
  rw [Monitor.deletions, h, hw]
  rfl

theorem deletions_destroying {steps : Nat} (h : m.stage.destroying = some steps) :
    m.deletions cur = m.hostCounts := by
  rw [Monitor.deletions]
  cases hstage : m.stage with rw [hstage] at h
  | started => cases h
  | removing => cases h
  | _ => exact if_pos (by rw [h]; rfl)

theorem leftToDelete_deleting {removing todo i previous left moved failed}
    (hw : m.work = some ⟨removing, todo, .deleting i previous left, moved, failed⟩) :
    m.leftToDelete = left.length := by
  rw [Monitor.leftToDelete, hw]

theorem leftToDelete_of_idle (hw : m.work = none) : m.leftToDelete = 0 := by
  rw [Monitor.leftToDelete, hw]

theorem leftToDelete_of_next {removing todo moved failed}
    (hw : m.work = some ⟨removing, todo, .next, moved, failed⟩) :
    m.leftToDelete = 0 := by
  rw [Monitor.leftToDelete, hw]

theorem leftToDelete_of_adding {removing todo i left moved failed}
    (hw : m.work = some ⟨removing, todo, .adding i left, moved, failed⟩) : m.leftToDelete = 0 := by
  rw [Monitor.leftToDelete, hw]

theorem deletions_le_of_started (hstage : m.stage = .started) (hstage' : m'.stage = m.stage)
    (h : m'.stale cur .inet + m'.stale cur .inet6 + m'.leftToDelete ≤
      m.stale cur .inet + m.stale cur .inet6 + m.leftToDelete) :
        m'.deletions cur ≤ m.deletions cur := by
  rw [deletions_started hstage, deletions_started (hstage'.trans hstage)]
  exact h

theorem deletions_le_of_update (hstage : m.stage = .started) (hstage' : m'.stage = m.stage)
    (hstale : ∀ i, m'.stale cur i = m.stale cur i) (hleft : m'.leftToDelete ≤ m.leftToDelete) :
    m'.deletions cur ≤ m.deletions cur := by
  refine deletions_le_of_started hstage hstage' ?_
  rw [hstale .inet, hstale .inet6]
  omega

theorem stale_setFamily {i : AddressFamily} {f : DefaultRouteFamily} {w : Work}
    (h : f.hosts = (m.families i).hosts) (j : AddressFamily) :
    ((m.setFamily i f).working w).stale cur j =
      if j = i then (if f.gateway = cur i then 0 else m.hostCount i) else m.stale cur j := by
  by_cases hj : j = i
  · subst hj
    rw [if_pos rfl, Monitor.stale, Monitor.hostCount, Monitor.working, setFamily_self, h,
      Monitor.hostCount]
  · rw [if_neg hj, Monitor.stale, Monitor.stale, Monitor.hostCount, Monitor.working,
      setFamily_other m f hj, Monitor.hostCount]

theorem stale_eq (h : ∀ i, (m'.families i).hosts = (m.families i).hosts)
    (hgateway : ∀ i, (m'.families i).gateway = (m.families i).gateway) (i : AddressFamily) :
    m'.stale cur i = m.stale cur i := by
  rw [Monitor.stale, Monitor.stale, hgateway i, hostCount_eq h]

theorem deletions_eq (h : ∀ i, (m'.families i).hosts = (m.families i).hosts)
    (hgateway : ∀ i, (m'.families i).gateway = (m.families i).gateway) (hstage : m'.stage = m.stage)
    (hwork : m'.work = m.work) : m'.deletions cur = m.deletions cur := by
  simp only [Monitor.deletions, Monitor.leftToDelete, hstage, hwork, stale_eq h hgateway,
    hostCounts_eq h, hostCount_eq h]

theorem Cheaper.of_work (h : ∀ i, (m'.families i).hosts = (m.families i).hosts)
    (hrest : ∃ families work, m' = { m with families := families, work := work })
    (hdeletions : m'.deletions cur ≤ m.deletions cur)
    (hweight : m.workWeight m'.work < m.workWeight m.work) (heffect : ∀ r, effect ≠ .delete r) :
    Cheaper cur m m' effect := by
  have heffort := effort_of_work h hrest
  exact .inl ⟨hdeletions, by omega, heffect⟩

theorem Cheaper.lookup (hm : m.WF) (hmends : m.Mends) (hcontrol : m.Control) (found : Bool)
    (hfound : found = true) (h : Moves cur present m (.lookup found) m' effect) :
    Cheaper cur m m' effect := by
  have hstarted {todo pos moved failed} :=
    @Monitor.Mends.updating m hmends hcontrol todo pos moved failed
  cases h with
  | lookupError hw => cases hfound
  | @lookupSame i todo moved failed hw =>
    refine .of_work (fun _ => rfl) ⟨_, _, rfl⟩
      (deletions_le_of_update (hstarted hw) rfl (fun _ => rfl) ?_) ?_
      fun _ h => by cases h
    · rw [leftToDelete_of_next rfl]
      exact Nat.zero_le _
    · rw [hw]
      simp only [Monitor.working, Monitor.workWeight, List.map_cons, List.sum_cons]
      omega
  | @lookupMoved i todo moved failed hw hgateway =>
    refine .of_work (setFamily_hosts rfl) ⟨_, _, rfl⟩ ?_ ?_ fun _ h => by cases h
    · have howned := length_owned_le hm hmends.nodup hw i
      have hstale : m.stale cur i = m.hostCount i := if_neg hgateway
      refine deletions_le_of_started (hstarted hw) rfl ?_
      rw [stale_setFamily (by rfl), stale_setFamily (by rfl), leftToDelete_of_next hw,
        leftToDelete_deleting rfl]
      cases i with
      | inet =>
        rw [if_pos rfl, if_pos rfl, if_neg (by decide), hstale]
        omega
      | inet6 =>
        rw [if_neg (by decide), if_pos rfl, if_pos rfl, hstale]
        omega
    · rw [hw]
      simp only [Monitor.working, Monitor.workWeight, Monitor.positionWeight, List.map_cons,
        List.sum_cons]
      omega
  | @lookupAgain i todo moved failed hw hgateway =>
    refine .of_work (setFamily_hosts rfl) ⟨_, _, rfl⟩
      (deletions_le_of_update (hstarted hw) rfl (fun j => ?_) ?_) ?_
      fun _ h => by cases h
    · rw [stale_setFamily (by rfl), if_pos rfl]
      split_ifs with hj
      · rw [hj, Monitor.stale, if_pos hgateway]
      · rfl
    · rw [leftToDelete_of_adding rfl]
      exact Nat.zero_le _
    · rw [hw]
      simp only [Monitor.working, Monitor.workWeight, Monitor.positionWeight, List.map_cons,
        List.sum_cons, Monitor.hostCount]
      omega

theorem Cheaper.deleteRoute (hm : m.Mends) (hcontrol : m.Control) {host : Prefix} {succeeds : Bool}
    (h : Moves cur present m (.deleteRoute host succeeds) m' effect) : Cheaper cur m m' effect := by
  cases h with
  | @deleteRoute removing todo i previous left moved failed _ _ hw hhost =>
    have hshorter : (left.filter (· ≠ host)).length < left.length :=
      List.length_filter_lt_length_iff_exists.mpr ⟨host, hhost, by simp⟩
    refine .inr ⟨?_, ?_⟩
    · cases removing with
      | false =>
        have hstage := hm.updating hcontrol hw
        have hstale (j : AddressFamily) : (m.working ⟨false, todo,
          .deleting i previous (left.filter (· ≠ host)), moved,
            failed⟩).stale cur j = m.stale cur j := rfl
        rw [deletions_started hstage, deletions_started (by exact hstage), hstale, hstale,
          leftToDelete_deleting rfl, leftToDelete_deleting hw]
        omega
      | true =>
        have hstage := hm.removing hcontrol hw
        rw [deletions_removing hstage hw, deletions_removing (by exact hstage) rfl,
          leftToDelete_deleting rfl, leftToDelete_deleting hw]
        exact Nat.add_lt_add_left hshorter _
    · have heffort :=
        @effort_of_work m (m.working ⟨removing, todo, .deleting i previous (left.filter (· ≠ host)),
        moved, failed⟩) (fun _ => rfl) ⟨_, _, rfl⟩
      have hweight : m.workWeight (m.working ⟨removing, todo,
          .deleting i previous (left.filter (· ≠ host)), moved, failed⟩).work =
          m.workWeight m.work := by
        rw [hw]
        rfl
      omega

theorem Cheaper.of_adding (hm : m.Mends) (hcontrol : m.Control) {removing todo i left moved failed}
    (hw : m.work = some ⟨removing, todo, .adding i left, moved, failed⟩)
    (h : ∀ i, (m'.families i).hosts = (m.families i).hosts)
    (hgateway : ∀ i, (m'.families i).gateway = (m.families i).gateway)
    (hrest : ∃ families work, m' = { m with families := families, work := work })
    (hleft : m'.leftToDelete = 0) (hweight : m.workWeight m'.work < m.workWeight m.work)
    (heffect : ∀ r, effect ≠ .delete r) : Cheaper cur m m' effect := by
  obtain rfl := hcontrol.adding hw
  have hstage := hm.updating hcontrol hw
  refine .of_work h hrest (deletions_le_of_update hstage ?_ (stale_eq h hgateway) ?_)
    hweight heffect
  · obtain ⟨families, work, rfl⟩ := hrest
    rfl
  · rw [hleft]
    exact Nat.zero_le _

theorem Cheaper.addRoute (hm : m.Mends) (hcontrol : m.Control) {fails : Bool}
    (hfails : fails = false) (h : Moves cur present m (.addRoute fails) m' effect) :
    Cheaper cur m m' effect := by
  cases h with
  | addExists _ hw =>
    refine .of_adding hm hcontrol hw (fun _ => rfl) (fun _ => rfl) ⟨_, _, rfl⟩
      (leftToDelete_of_adding rfl) ?_
      fun _ h => by cases h
    rw [hw]
    simp [Monitor.working, Monitor.workWeight, Monitor.positionWeight]
  | addFails => cases hfails
  | added hw =>
    refine .of_adding hm hcontrol hw (setFamily_hosts rfl) (setFamily_gateway (by rfl)) ⟨_, _, rfl⟩
      (leftToDelete_of_adding rfl) ?_ fun _ h => by cases h
    rw [hw]
    simp [Monitor.working, Monitor.workWeight, Monitor.positionWeight]

theorem Cheaper.advance (hwf : m.WF) (hm : m.Mends) (hcontrol : m.Control)
    (h : Moves cur present m .advance m' effect) :
    Cheaper cur m m' effect := by
  have hremoving {todo pos moved failed} :=
    @Monitor.Mends.removing m hm hcontrol todo pos moved failed
  cases h with
  | addSkipped hw =>
    refine .of_adding hm hcontrol hw (fun _ => rfl) (fun _ => rfl) ⟨_, _, rfl⟩
      (leftToDelete_of_adding rfl) ?_
      fun _ h => by cases h
    rw [hw]
    simp [Monitor.working, Monitor.workWeight, Monitor.positionWeight]
  | addedAll hw =>
    refine .of_adding hm hcontrol hw (setFamily_hosts rfl) (setFamily_gateway (by rfl)) ⟨_, _, rfl⟩
      (leftToDelete_of_next rfl) ?_ fun _ h => by cases h
    rw [hw]
    simp [Monitor.working, Monitor.workWeight, Monitor.positionWeight]
  | @removeNext i todo moved failed hw =>
    refine .of_work (fun _ => rfl) ⟨_, _, rfl⟩ ?_ ?_ fun _ h => by cases h
    · have howned := length_owned_le hwf hm.nodup hw i
      rw [deletions_removing (hremoving hw) hw, deletions_removing (by exact hremoving hw) rfl,
        leftToDelete_deleting rfl, List.map_cons, List.sum_cons]
      have hsame (w : Work) : (m.working w).hostCount = m.hostCount := rfl
      rw [hsame]
      omega
    · rw [hw]
      simp only [Monitor.working, Monitor.workWeight, Monitor.positionWeight, List.map_cons,
        List.sum_cons]
      omega
  | @removedAll i todo previous moved failed hw =>
    refine .of_work (setFamily_hosts rfl) ⟨_, _, rfl⟩ ?_ ?_ fun _ h => by cases h
    · have hsame :=
        @hostCount_eq m ((m.setFamily i { m.families i with owned := [], gateway := {} }).working
        ⟨true, todo, .next, moved, failed⟩) (setFamily_hosts rfl)
      rw [deletions_removing (hremoving hw) hw, deletions_removing (by exact hremoving hw) rfl,
        leftToDelete_of_next rfl, hsame]
      exact Nat.le_add_right _ _
    · rw [hw]
      simp [Monitor.working, Monitor.workWeight, Monitor.positionWeight]
  | @deletedAll i todo previous moved failed hw =>
    have hstage := hm.updating hcontrol hw
    refine .of_work (setFamily_hosts rfl) ⟨_, _, rfl⟩ (deletions_le_of_update hstage rfl
      (stale_eq (setFamily_hosts rfl) (setFamily_gateway (by rfl))) ?_) ?_ fun _ h => by cases h
    · rw [leftToDelete_of_adding rfl]
      exact Nat.zero_le _
    · rw [hw]
      simp [Monitor.working, Monitor.workWeight, Monitor.positionWeight, Monitor.hostCount]

theorem Cheaper.finish (hm : m.Mends) (hcontrol : m.Control) {binds : AddressFamily → Bool}
    (h : Moves cur present m (.finish binds) m' effect) : Cheaper cur m m' effect := by
  cases h with
  | rejected _ hw hstage | reject _ hw hstage | constructed _ hw hstage => exact hm.elim hstage rfl
  | @removed removing moved failed _ hw hstage =>
    refine .inl ⟨Nat.zero_le _, ?_, fun _ h => by cases h⟩
    have heffort : Monitor.effort { m with work := none, stage := .destroyed } +
        m.workWeight m.work = m.effort := by
      simp only [Monitor.effort, Monitor.stageWeight, hstage]
      rfl
    have hweight : 0 < m.workWeight m.work := by
      rw [hw]
      simp only [Monitor.workWeight]
      omega
    omega
  | @updated removing moved failed _ hw hconstructing hremoving =>
    have hstage : m.stage = .started := by
      cases removing with
      | false => exact hm.updating hcontrol hw
      | true => exact absurd (hm.removing hcontrol hw) hremoving
    refine .inl ⟨?_, ?_, fun _ h => by cases h⟩
    · refine deletions_le_of_update hstage rfl (fun _ => rfl) ?_
      rw [leftToDelete_of_idle rfl]
      exact Nat.zero_le _
    · have heffort : Monitor.effort (Monitor.pinSockets binds
          { m with work := none, rebinds := if moved then m.rebinds + 1 else m.rebinds }) +
            m.workWeight m.work = m.effort := by
        rw [Monitor.effort, Monitor.effort]
        have hidle (n : Monitor) : n.workWeight none = 0 := rfl
        simp only [Monitor.pinSockets, hidle]
        change _ + m.stageWeight + _ = _
        change (m.notices.map m.noticeWeight).sum + (if m.timer then m.hostCounts + 10 else 0) +
          m.fired * (m.hostCounts + 9) + m.updates * (m.hostCounts + 8) + 0 + m.stageWeight +
            m.workWeight m.work = _
        omega
      have hweight : 0 < m.workWeight m.work := by
        rw [hw]
        simp only [Monitor.workWeight]
        omega
      omega

theorem effort_of_event {notices : List Notice} {timer : Bool} {fired updates : Nat}
    {firstBurst : Bool} :
    Monitor.effort { m with
      notices := notices, timer := timer, firstBurst := firstBurst
      fired := fired, updates := updates } =
      (notices.map m.noticeWeight).sum + (if timer then m.hostCounts + 10 else 0) +
        fired * (m.hostCounts + 9) +
        updates * (m.hostCounts + 8) + m.workWeight m.work + m.stageWeight := rfl

theorem bump_cases (late : Bool) (m : Monitor) : ∃ timer firstBurst updates,
    m.bump late = { m with timer := timer, firstBurst := firstBurst, updates := updates } ∧
      (updates = m.updates ∨ updates = m.updates + 1 ∧ timer = false) := by
  rw [Monitor.bump]
  split_ifs
  · exact ⟨_, _, _, rfl, .inr ⟨rfl, rfl⟩⟩
  · exact ⟨_, _, _, rfl, .inl rfl⟩
  · exact ⟨_, _, _, rfl, .inl rfl⟩

theorem noticeWeight_pos (m : Monitor) (notice : Notice) :
    m.hostCounts + 11 ≤ m.noticeWeight notice := by
  cases notice <;> simp [Monitor.noticeWeight]

theorem Cheaper.handle {notice : Notice} {late : Bool}
    (h : Moves cur present m (.handle notice late) m' effect) :
    Cheaper cur m m' effect := by
  cases h with
  | @hostDeleted destination i _ hmem hw =>
    have hhosts : ∀ j, ((m.setFamily i { m.families i with incomplete := true }).families j).hosts =
        (m.families j).hosts :=
      setFamily_hosts rfl
    have herase := List.sum_map_erase m.noticeWeight hmem
    refine .inl ⟨(deletions_eq hhosts (fun j => ?_) rfl rfl).le, ?_, fun _ h => by cases h⟩
    · dsimp only
      rw [setFamily_families]
      split_ifs with hj
      · rw [hj]
      · rfl
    · have heffort :=
        @effort_of_work { m with notices := m.notices.erase (.deleted destination) ++ [.route] }
        { m.setFamily i { m.families i with incomplete := true } with
          notices := m.notices.erase (.deleted destination) ++ [.route] } hhosts ⟨_, _, rfl⟩
      have hbefore : Monitor.effort { m with
          notices := m.notices.erase (.deleted destination) ++ [.route] } + 1 = m.effort := by
        rw [effort_of_event, Monitor.effort, ← herase, List.map_append, List.sum_append]
        simp only [List.map_cons, List.map_nil, List.sum_cons, List.sum_nil, Monitor.noticeWeight]
        omega
      change Monitor.effort _ + m.workWeight m.work = Monitor.effort _ +
        m.workWeight m.work at heffort
      omega
  | @otherDeleted destination _ hmem =>
    have herase := List.sum_map_erase m.noticeWeight hmem
    have hpos := noticeWeight_pos m (.deleted destination)
    refine .inl ⟨le_rfl, ?_, fun _ h => by cases h⟩
    rw [@effort_of_event m, Monitor.effort]
    omega
  | @bump _ _ hmem =>
    have herase := List.sum_map_erase m.noticeWeight hmem
    have hpos := noticeWeight_pos m notice
    obtain ⟨timer, firstBurst, updates, heq, hupdates⟩ :=
      bump_cases late { m with notices := m.notices.erase notice }
    rw [heq]
    refine .inl ⟨le_rfl, ?_, fun _ h => by cases h⟩
    rw [@effort_of_event m, Monitor.effort]
    rcases hupdates with rfl | ⟨rfl, rfl⟩
    · have htimer : (if timer = true then m.hostCounts + 10 else 0) ≤ m.hostCounts + 10 := by
        split_ifs <;> omega
      dsimp only
      omega
    · dsimp only
      rw [Nat.add_mul, if_neg Bool.false_ne_true]
      omega

theorem Cheaper.fire (h : Moves cur present m .fire m' effect) : Cheaper cur m m' effect := by
  cases h with
  | fire htimer =>
    refine .inl ⟨le_rfl, ?_, fun _ h => by cases h⟩
    rw [effort_of_event, Monitor.effort, htimer, if_pos rfl, if_neg Bool.false_ne_true, Nat.add_mul]
    omega

theorem Cheaper.burst (h : Moves cur present m .burst m' effect) : Cheaper cur m m' effect := by
  cases h with
  | burst hfired =>
    obtain ⟨n, hn⟩ := Nat.exists_eq_succ_of_ne_zero hfired
    refine .inl ⟨le_rfl, ?_, fun _ h => by cases h⟩
    rw [effort_of_event, Monitor.effort, hn, Nat.succ_sub_one, Nat.add_mul,
      Nat.succ_mul n (m.hostCounts + 9)]
    omega

theorem Cheaper.update (hcontrol : m.Control) (h : Moves cur present m .update m' effect) :
    Cheaper cur m m' effect := by
  cases h with
  | update hupdates hw hcallbacks =>
    obtain ⟨n, hn⟩ := Nat.exists_eq_succ_of_ne_zero hupdates
    refine .inl ⟨?_, ?_, fun _ h => by cases h⟩
    · refine deletions_le_of_update (hcontrol.callbacks hcallbacks) rfl (fun _ => rfl) ?_
      rw [leftToDelete_of_next rfl]
      exact Nat.zero_le _
    · have heffort := @effort_of_work { m with updates := m.updates - 1 } { m with
        updates := m.updates - 1, work := some {} }
        (fun _ => rfl) ⟨_, _, rfl⟩
      have hidle : Monitor.workWeight { m with updates := m.updates - 1 } m.work = 0 := by
        rw [hw]
        rfl
      have hwork : Monitor.workWeight { m with updates := m.updates - 1 } (some {}) =
          m.hostCounts + 7 := by
        change 1 + (m.hostCount .inet + 3 + (m.hostCount .inet6 + 3 + 0)) + 0 = _
        rw [Monitor.hostCounts]
        omega
      have hbefore : Monitor.effort { m with updates := m.updates - 1 } + (m.hostCounts + 8) =
          m.effort := by
        rw [effort_of_event, Monitor.effort, hn, Nat.succ_sub_one,
          Nat.succ_mul n (m.hostCounts + 8)]
        omega
      dsimp only at heffort
      omega
  | updateVoid hupdates =>
    obtain ⟨n, hn⟩ := Nat.exists_eq_succ_of_ne_zero hupdates
    refine .inl ⟨le_rfl, ?_, fun _ h => by cases h⟩
    rw [effort_of_event, Monitor.effort, hn, Nat.succ_sub_one, Nat.succ_mul n (m.hostCounts + 8)]
    omega

theorem Cheaper.of_stage {steps : Nat} (hstage : m.stage.destroying = some (steps + 1))
    (hstage' : m'.stage.destroying = some steps) (htimer : m'.timer = true → m.timer = true)
    (hsame : m'.families = m.families ∧ m'.work = m.work ∧ m'.notices = m.notices ∧
      m'.fired = m.fired ∧
      m'.updates = m.updates) : Cheaper cur m m' .none := by
  have hhosts (i : AddressFamily) : (m'.families i).hosts = (m.families i).hosts := by rw [hsame.1]
  have htimer : (if m'.timer = true then m.hostCounts + 10 else 0) ≤ if m.timer =
      true then m.hostCounts + 10 else 0 := by
    split_ifs with h h'
    · exact le_rfl
    · exact absurd (htimer h) h'
    · exact Nat.zero_le _
    · exact le_rfl
  have hweight : m'.stageWeight < m.stageWeight := by
    simp only [Monitor.stageWeight, hstage, hstage', hostCounts_eq hhosts, Option.elim_some]
    omega
  refine .inl ⟨?_, ?_, fun _ h => by cases h⟩
  · rw [deletions_destroying hstage, deletions_destroying hstage', hostCounts_eq hhosts]
  · simp only [Monitor.effort, hsame, noticeWeight_eq hhosts, workWeight_eq hhosts,
      hostCounts_eq hhosts]
    omega

theorem Cheaper.proceed (hm : m.Mends) {ok : AddressFamily → Bool}
    (h : Moves cur present m (.proceed ok) m' effect) :
    Cheaper cur m m' effect := by
  cases h with
  | unregisterRoute _ hstage | routeWaited _ hstage | unregisterInterface _ hstage
  | interfaceWaited _ hstage =>
    exact .of_stage (by rw [hstage]; rfl) rfl id ⟨rfl, rfl, rfl, rfl, rfl⟩
  | stopTimer _ hstage =>
    exact .of_stage (by rw [hstage]; rfl) rfl (fun h => by cases h) ⟨rfl, rfl, rfl, rfl, rfl⟩
  | remove _ hstage hw =>
    refine .inl ⟨?_, ?_, fun _ h => by cases h⟩
    · rw [@deletions_destroying cur m 0 (by rw [hstage]; rfl)]
      exact le_rfl
    · have hafter : Monitor.effort { m with
        stage := .removing, work := some { removing := true } } =
          (m.notices.map m.noticeWeight).sum + (if m.timer then m.hostCounts + 10 else 0) +
            m.fired * (m.hostCounts + 9) +
            m.updates * (m.hostCounts + 8) +
              (1 + (m.hostCount .inet + 3 + (m.hostCount .inet6 + 3 + 0)) + 0) + 0 := rfl
      have hweight : m.stageWeight = m.hostCounts + 8 := by
        rw [Monitor.stageWeight, hstage]
        rfl
      rw [hafter, Monitor.effort, hweight, hw]
      simp only [Monitor.hostCounts, Monitor.workWeight]
      omega
  | _ => exact hm.elim (by assumption) rfl

/-- What a monitor does by itself once it has been started, or while it is destroyed. -/
def Act.Internal (a : Act) : Prop := a.Usual ∧ a ≠ .destroy

theorem Cheaper.moves (hwf : m.WF) (hm : m.Mends) (hcontrol : m.Control) (ha : a.Internal)
    (h : Moves cur present m a m' effect) : Cheaper cur m m' effect := by
  obtain ⟨⟨hsucceeds, hnew⟩, hdestroy⟩ := ha
  cases a with
  | lookup found => exact .lookup hwf hm hcontrol found hsucceeds h
  | deleteRoute host succeeds => exact .deleteRoute hm hcontrol h
  | addRoute fails => exact .addRoute hm hcontrol hsucceeds h
  | advance => exact .advance hwf hm hcontrol h
  | finish binds => exact .finish hm hcontrol h
  | handle notice late => exact .handle h
  | fire => exact .fire h
  | burst => exact .burst h
  | update => exact .update hcontrol h
  | new config ourLUID => exact absurd rfl (hnew config ourLUID)
  | proceed ok => exact .proceed hm h
  | destroy => exact absurd rfl hdestroy

theorem internal_of_succeeds (hsucceeds : a.Succeeds)
    (hnew : ∀ config ourLUID, a ≠ .new config ourLUID) (hdestroy : a ≠ .destroy) : a.Internal :=
  ⟨⟨hsucceeds, hnew⟩, hdestroy⟩

theorem Monitor.idle_of_stuck (hstuck : ∀ a, a.Internal → m.step cur present a = none) :
    m.work = none := by
  cases hw : m.work with
  | none => rfl
  | some w =>
    obtain ⟨removing, todo, pos, moved, failed⟩ := w
    have hadvance : m.advance ⟨removing, todo, pos, moved, failed⟩ = none := by
      have h := hstuck .advance (internal_of_succeeds trivial (by simp) (by simp))
      rw [Monitor.step, hw] at h
      exact Option.eq_none_iff_forall_ne_some.mpr fun n hn => by simp [hn] at h
    cases pos with
    | next =>
      cases todo with
      | nil =>
        have h := hstuck (.finish fun _ => true)
          (internal_of_succeeds (fun _ => rfl) (by simp) (by simp))
        rw [Monitor.step, hw] at h
        cases hstage : m.stage <;> cases removing <;> cases failed <;> simp [Monitor.finish,
          hstage] at h
      | cons i todo =>
        cases removing with
        | true => cases hadvance
        | false =>
          have h := hstuck (.lookup true) (internal_of_succeeds rfl (by simp) (by simp))
          rw [Monitor.step, hw] at h
          simp only [Monitor.lookup, Option.bind_eq_bind, Option.bind_some, if_true,
            Bool.false_eq_true, if_false] at h
          split_ifs at h <;> cases h
    | deleting i previous left =>
      cases left with
      | nil =>
        rw [Monitor.advance] at hadvance
        dsimp only at hadvance
        split_ifs at hadvance
      | cons host left =>
        have h := hstuck (.deleteRoute host true)
          (internal_of_succeeds trivial (by simp) (by simp))
        rw [Monitor.step, hw] at h
        simp [Monitor.deleteRoute] at h
    | adding i left =>
      cases left with
      | nil => cases hadvance
      | cons host left =>
        by_cases hluid : (m.families i).gateway.luid = 0
        · rw [Monitor.advance] at hadvance
          dsimp only at hadvance
          rw [if_pos hluid] at hadvance
          cases hadvance
        · have h :=
            hstuck (.addRoute false) (internal_of_succeeds rfl (by simp) (by simp))
          rw [Monitor.step, hw] at h
          simp only [Monitor.addRoute, Option.bind_eq_bind, Option.bind_some, if_neg hluid] at h
          split_ifs at h

theorem Monitor.quiet_of_stuck (hstuck : ∀ a, a.Internal → m.step cur present a = none) :
    m.Quiet := by
  have hw := idle_of_stuck hstuck
  have hnotices : m.notices = [] := by
    cases hnotices : m.notices with
    | nil => rfl
    | cons notice notices =>
      have h := hstuck (.handle notice false)
        (internal_of_succeeds trivial (by simp) (by simp))
      rw [Monitor.step, Monitor.handle, if_neg (by simp [hnotices])] at h
      cases notice with
      | deleted destination => simp [hw] at h
      | route => simp at h
      | interface => simp at h
  have htimer : m.timer = false := by
    have h := hstuck .fire (internal_of_succeeds trivial (by simp) (by simp))
    rw [Monitor.step, Monitor.fire] at h
    split_ifs at h with htimer
    · cases h
    · exact Bool.eq_false_iff.mpr htimer
  have hfired : m.fired = 0 := by
    have h := hstuck .burst (internal_of_succeeds trivial (by simp) (by simp))
    rw [Monitor.step, Monitor.burst] at h
    split_ifs at h with hfired
    · exact hfired
    · cases h
  have hupdates : m.updates = 0 := by
    by_contra hupdates
    have h := hstuck .update (internal_of_succeeds trivial (by simp) (by simp))
    rw [Monitor.step, Monitor.update, if_neg (by simp [hupdates, hw])] at h
    split_ifs at h <;> cases h
  exact ⟨hnotices, htimer, hfired, hupdates, hw⟩

theorem Monitor.Mends.stage_of_stuck (hm : m.Mends)
    (hstuck : ∀ a, a.Internal → m.step cur present a = none) :
    m.stage = .absent ∨ m.stage = .started ∨ m.stage = .destroyed := by
  obtain ⟨hnotices, -, -, -, hw⟩ := Monitor.quiet_of_stuck hstuck
  have h := hstuck (.proceed fun _ => true)
    (internal_of_succeeds trivial (by simp) (by simp))
  rw [Monitor.step, Monitor.proceed] at h
  have hsteady := hm.steady
  have hremoval := hm.removal
  cases hstage : m.stage <;> simp [hstage, hw, hnotices, Stage.steady] at h hsteady hremoval ⊢

theorem Moves.notices (h : Moves cur present m a m' effect)
    (hnew : ∀ config ourLUID, a ≠ .new config ourLUID) {destination : Prefix}
    (hmem : Notice.deleted destination ∈ m.notices) :
    Notice.deleted destination ∈ m'.notices ∨ ∃ late, a = .handle (.deleted destination) late := by
  have herase {other : Prefix} {late : Bool} (ha : a = .handle (.deleted other) late) :
      Notice.deleted destination ∈ m.notices.erase (.deleted other) ∨
      ∃ late, a = .handle (.deleted destination) late := by
    by_cases heq : destination = other
    · exact .inr ⟨late, heq ▸ ha⟩
    · exact .inl ((List.mem_erase_of_ne fun h => heq (Notice.deleted.inj h)).mpr hmem)
  cases h with
  | hostDeleted late => exact (herase rfl).imp_left (List.mem_append_left _)
  | otherDeleted late => exact herase rfl
  | @bump notice late _ hnotice =>
    obtain ⟨timer, firstBurst, updates, heq, -⟩ :=
      bump_cases late { m with notices := m.notices.erase notice }
    rw [heq]
    exact .inl ((List.mem_erase_of_ne fun h => hnotice _ h.symm).mpr hmem)
  | new config ourLUID => exact absurd rfl (hnew config ourLUID)
  | _ => exact .inl hmem

theorem Moves.not_started (h : Moves cur present m a m' effect) (hm : m.Mends)
    (hstage : m.stage ≠ .started) :
    m'.stage ≠ .started := by
  cases h with
  | setCallbacks ok hregistered => exact hm.elim hregistered rfl
  | bump late => rw [(bump_stage late _).1]; exact hstage
  | pin ok hbuilt => exact hm.elim hbuilt rfl
  | _ => first | exact hstage | exact fun h => by cases h

end

end WireGuardWindows.Tunnel.RouteMonitor
