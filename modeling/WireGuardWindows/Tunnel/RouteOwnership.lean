import WireGuardWindows.Tunnel.RouteMonitor

/-!
# Who deletes which host route

A monitor names a route while it has it in `owned`, or is on the way to delete it. What it
deletes it names, and it names only what it added; but an entry may go without the monitor
taking its name out of the map, and come back from someone else.
-/

namespace WireGuardWindows.Tunnel.RouteMonitor
open GoStd Netip Conf Systems

/-- The gateway and the hosts of the routes a monitor will delete: those of `owned`, or what is
left of them in the loop over it. -/
def Monitor.holding (m : Monitor) (i : AddressFamily) : DefaultGateway × List Prefix :=
  match m.work with
  | some ⟨_, _, .deleting j previous left, _, _⟩ =>
    if j = i then (previous, left) else ((m.families i).gateway, (m.families i).owned)
  | _ => ((m.families i).gateway, (m.families i).owned)

def Monitor.Names (m : Monitor) (r : Route) : Prop :=
  ∃ i, ∃ host ∈ (m.holding i).2, (m.holding i).1.route host = r

section
variable {answer : AddressFamily → DefaultGateway} {present : Route → Bool} {m m' : Monitor}
  {a : Act} {effect : Effect}

theorem holding_none (h : m.work = none) (i : AddressFamily) :
    m.holding i = ((m.families i).gateway, (m.families i).owned) := by
  rw [Monitor.holding, h]

theorem holding_next {removing todo moved failed}
    (h : m.work = some ⟨removing, todo, .next, moved, failed⟩) (i : AddressFamily) :
    m.holding i = ((m.families i).gateway, (m.families i).owned) := by
  rw [Monitor.holding, h]

theorem holding_adding {removing todo j left moved failed}
    (h : m.work = some ⟨removing, todo, .adding j left, moved, failed⟩) (i : AddressFamily) :
    m.holding i = ((m.families i).gateway, (m.families i).owned) := by
  rw [Monitor.holding, h]

theorem holding_deleting {removing todo j previous left moved failed}
    (h : m.work = some ⟨removing, todo, .deleting j previous left, moved, failed⟩)
    (i : AddressFamily) :
    m.holding i = if j = i then (previous, left) else
      ((m.families i).gateway, (m.families i).owned) := by
  rw [Monitor.holding, h]

theorem holding_congr (hfamilies : ∀ i, (m'.families i).gateway = (m.families i).gateway ∧
      (m'.families i).owned = (m.families i).owned) (hwork : m'.work = m.work) (i : AddressFamily) :
    m'.holding i = m.holding i := by
  rw [Monitor.holding, Monitor.holding, hwork, (hfamilies i).1, (hfamilies i).2]

theorem setFamily_families (m : Monitor) (i j : AddressFamily) (f : DefaultRouteFamily) :
    (m.setFamily i f).families j = if j = i then f else m.families j :=
  Function.update_apply m.families i f j

inductive HoldingMoves (m m' : Monitor) : Act → Effect → Prop
  | same (a : Act) (h : ∀ i, m'.holding i = m.holding i) : HoldingMoves m m' a .none
  | delete {i : AddressFamily} {previous : DefaultGateway} {left : List Prefix} {host : Prefix}
      (succeeds : Bool) (hhost : host ∈ left) (hbefore : m.holding i = (previous, left))
      (hafter : m'.holding i = (previous, left.filter (· ≠ host)))
      (hother : ∀ j, j ≠ i → m'.holding j = m.holding j) :
    HoldingMoves m m' (.deleteRoute host succeeds)
      (if succeeds then .delete (previous.route host) else .none)
  | add {removing todo i host left moved failed}
      (hw : m.work = some ⟨removing, todo, .adding i (host :: left), moved, failed⟩)
      (hafter : m'.holding i = ((m.holding i).1, (m.holding i).2.insert host))
      (hother : ∀ j, j ≠ i → m'.holding j = m.holding j) :
    HoldingMoves m m' (.addRoute false) (.add ((m.holding i).1.route host))
  | emptied {i : AddressFamily} (hbefore : (m.holding i).2 = []) (hafter : (m'.holding i).2 = [])
      (hother : ∀ j, j ≠ i → m'.holding j = m.holding j) : HoldingMoves m m' .advance .none
  | new (config : Config) (ourLUID : UInt64) (h : ∀ i, (m'.holding i).2 = [])
    (hstage : m.stage = .absent) :
    HoldingMoves m m' (.new config ourLUID) .none

theorem bump_frame (late : Bool) (m : Monitor) :
    (m.bump late).families = m.families ∧ (m.bump late).work = m.work := by
  rw [Monitor.bump]
  split_ifs <;> exact ⟨rfl, rfl⟩

theorem Moves.holding (h : Moves answer present m a m' effect) : HoldingMoves m m' a effect := by
  cases h with
  | lookupError hw | lookupSame hw | reject binds hw =>
    exact .same _ fun j => by rw [holding_next hw, holding_next rfl]; rfl
  | @lookupMoved i todo moved failed hw =>
    refine .same _ fun j => ?_
    rw [holding_next hw, holding_deleting rfl]
    by_cases hj : i = j
    · rw [if_pos hj, hj]
    · rw [if_neg hj, Monitor.working, setFamily_families, if_neg (Ne.symm hj)]
  | @lookupAgain i todo moved failed hw hgateway =>
    refine .same _ fun j => ?_
    rw [holding_next hw, holding_adding rfl, Monitor.working, setFamily_families]
    by_cases hj : j = i
    · rw [if_pos hj, hj, hgateway]
    · rw [if_neg hj]
  | @deleteRoute removing todo i previous left moved failed host succeeds hw hhost =>
    refine .delete succeeds hhost (by rw [holding_deleting hw, if_pos rfl])
      (by rw [holding_deleting rfl, if_pos rfl])
      fun j hj => ?_
    rw [holding_deleting hw, holding_deleting rfl, if_neg (Ne.symm hj), if_neg (Ne.symm hj)]
    rfl
  | addExists fails hw | addSkipped hw =>
    exact .same _ fun j => by rw [holding_adding hw, holding_adding rfl]; rfl
  | addFails hw => exact .same _ fun j => by rw [holding_adding hw, holding_next rfl]; rfl
  | @added removing todo i host left moved failed hw hluid =>
    have hbefore := holding_adding hw
    have hgateway : (m.families i).gateway = (m.holding i).1 := by rw [hbefore]
    rw [hgateway]
    refine .add hw ?_ fun j hj => ?_
    · rw [hbefore, holding_adding rfl, Monitor.working, setFamily_families, if_pos rfl]
    · rw [hbefore, holding_adding rfl, Monitor.working, setFamily_families, if_neg hj]
  | @addedAll removing todo i moved failed hw =>
    refine .same _ fun j => ?_
    rw [holding_adding hw, holding_next rfl, Monitor.working, setFamily_families]
    by_cases hj : j = i
    · rw [if_pos hj, hj]
    · rw [if_neg hj]
  | @removeNext i todo moved failed hw =>
    refine .same _ fun j => ?_
    rw [holding_next hw, holding_deleting rfl]
    by_cases hj : i = j
    · rw [if_pos hj, hj]
    · rw [if_neg hj]
      rfl
  | @removedAll i todo previous moved failed hw =>
    refine .emptied (by rw [holding_deleting hw, if_pos rfl])
      (by rw [holding_next rfl, Monitor.working, setFamily_families, if_pos rfl]) fun j hj => ?_
    rw [holding_deleting hw, holding_next rfl, if_neg (Ne.symm hj), Monitor.working,
      setFamily_families, if_neg hj]
  | @deletedAll i todo previous moved failed hw =>
    refine .emptied (by rw [holding_deleting hw, if_pos rfl])
      (by rw [holding_adding rfl, Monitor.working, setFamily_families, if_pos rfl]) fun j hj => ?_
    rw [holding_deleting hw, holding_adding rfl, if_neg (Ne.symm hj), Monitor.working,
      setFamily_families, if_neg hj]
  | rejected binds hw | constructed binds hw | removed binds hw =>
    exact .same _ fun j => by rw [holding_next hw, holding_none rfl]
  | updated binds hw => exact .same _ fun j => by rw [holding_next hw, holding_none rfl]; rfl
  | @hostDeleted destination i late hmem hw =>
    refine .same _ (holding_congr (fun j => ?_) rfl)
    dsimp only
    rw [setFamily_families]
    by_cases hj : j = i
    · rw [if_pos hj, hj]
      exact ⟨rfl, rfl⟩
    · rw [if_neg hj]
      exact ⟨rfl, rfl⟩
  | bump late =>
    obtain ⟨hfamilies, hwork⟩ := bump_frame late { m with notices := m.notices.erase _ }
    exact .same _ (holding_congr (fun j => by rw [hfamilies]; exact ⟨rfl, rfl⟩) hwork)
  | update hupdates hw | remove ok hstage hw =>
    exact .same _ fun j => by rw [holding_none hw, holding_next rfl]
  | new config ourLUID hstage =>
    exact .new config ourLUID (fun j => by rw [holding_next rfl]; rfl) hstage
  | _ => exact .same _ (holding_congr (fun j => ⟨rfl, rfl⟩) rfl)

theorem HoldingMoves.names_of_names (h : HoldingMoves m m' a effect) {r : Route} (hr : m'.Names r) :
    m.Names r ∨ effect = .add r := by
  obtain ⟨i, host, hhost, hroute⟩ := hr
  cases h with
  | same a h => exact .inl ⟨i, host, h i ▸ hhost, h i ▸ hroute⟩
  | @delete j previous left h succeeds hmem hbefore hafter hother =>
    by_cases hi : i = j
    · rw [hi, hafter] at hhost hroute
      refine .inl ⟨j, host, ?_, ?_⟩
      · rw [hbefore]
        exact (List.mem_filter.mp hhost).1
      · rw [hbefore]
        exact hroute
    · rw [hother i hi] at hhost hroute
      exact .inl ⟨i, host, hhost, hroute⟩
  | @add _ _ j h _ _ _ hw hafter hother =>
    by_cases hi : i = j
    · rw [hi, hafter] at hhost hroute
      rcases List.mem_insert_iff.mp hhost with heq | hhost
      · rw [← hroute, heq]
        exact .inr rfl
      · exact .inl ⟨j, host, hhost, hroute⟩
    · rw [hother i hi] at hhost hroute
      exact .inl ⟨i, host, hhost, hroute⟩
  | @emptied j hbefore hafter hother =>
    by_cases hi : i = j
    · rw [hi, hafter] at hhost
      exact absurd hhost List.not_mem_nil
    · rw [hother i hi] at hhost hroute
      exact .inl ⟨i, host, hhost, hroute⟩
  | new config ourLUID h hstage =>
    rw [h i] at hhost
    exact absurd hhost List.not_mem_nil

theorem HoldingMoves.names_of_delete (h : HoldingMoves m m' a effect) {r : Route}
    (heffect : effect = .delete r) :
    m.Names r := by
  cases h with
  | @delete i previous left host succeeds hhost hbefore =>
    cases succeeds with
    | false => cases heffect
    | true =>
      cases heffect
      refine ⟨i, host, ?_, ?_⟩
      · rw [hbefore]
        exact hhost
      · rw [hbefore]
  | _ => cases heffect

theorem HoldingMoves.names_added (h : HoldingMoves m m' a effect) {r : Route}
    (heffect : effect = .add r) : m'.Names r := by
  cases h with
  | @add _ _ i host _ _ _ hw hafter hrest =>
    cases heffect
    refine ⟨i, host, ?_, ?_⟩
    · rw [hafter]
      exact List.mem_insert_self
    · rw [hafter]
  | delete succeeds => cases succeeds <;> cases heffect
  | _ => cases heffect

def IsHost (i : AddressFamily) (p : Prefix) : Prop := p.ip.is4 = (i == .inet) ∧ p.bits ≠ 0

theorem isHost_prefixFrom {i : AddressFamily} {addr : Addr} (h : addr.is4 = (i == .inet)) :
    IsHost i (prefixFrom addr addr.bitLen) := by
  cases addr with
  | zero => exact ⟨h, by decide⟩
  | v4 a | v6 a zone => exact ⟨h, by simp [prefixFrom, Prefix.bits, Addr.bitLen]⟩

theorem isHost_webSocketServerHosts (config : Config) (i : AddressFamily) :
    ∀ host ∈ webSocketServerHosts config i, IsHost i host := by
  have hloop (peers : List Peer) (hosts : List Prefix) (hhosts : ∀ host ∈ hosts, IsHost i host) :
      ∀ host ∈ peers.foldl (addServerHost i) hosts, IsHost i host := by
    induction peers generalizing hosts with
    | nil => exact hhosts
    | cons peer peers ih =>
      refine ih _ ?_
      rw [addServerHost]
      split_ifs
      · exact hhosts
      · split
        · exact hhosts
        · dsimp only
          split_ifs with hfamily hmem
          · exact hhosts
          · exact hhosts
          · exact List.forall_mem_append.mpr
              ⟨hhosts, List.forall_mem_singleton.mpr (isHost_prefixFrom (not_not.mp hfamily))⟩
  exact hloop config.peers [] fun host hhost => absurd hhost List.not_mem_nil

theorem IsHost.eq {i j : AddressFamily} {p : Prefix} (hi : IsHost i p) (hj : IsHost j p) :
    i = j := by
  have heq := hi.1.symm.trans hj.1
  cases i <;> cases j <;> first | rfl | exact absurd heq (by decide)

structure Monitor.WF (m : Monitor) : Prop where
  hosts : ∀ i, ∀ host ∈ (m.families i).hosts, IsHost i host
  held : ∀ i, ∀ host ∈ (m.holding i).2, host ∈ (m.families i).hosts
  adding : ∀ removing todo i left moved failed, m.work =
    some ⟨removing, todo, .adding i left, moved, failed⟩ →
    left ⊆ (m.families i).hosts

theorem setFamily_hosts {i : AddressFamily} {f : DefaultRouteFamily}
    (h : f.hosts = (m.families i).hosts) (j : AddressFamily) :
    ((m.setFamily i f).families j).hosts = (m.families j).hosts := by
  rw [setFamily_families]
  split_ifs with hj
  · rw [hj, h]
  · rfl

theorem Moves.hosts (h : Moves answer present m a m' effect) :
    (∀ i, (m'.families i).hosts = (m.families i).hosts) ∨
      m.stage = .absent ∧ ∃ config ourLUID, m' = .create config ourLUID := by
  cases h with
  | new config ourLUID hstage => exact .inr ⟨hstage, config, ourLUID, rfl⟩
  | bump late => exact .inl fun j => by rw [(bump_frame late _).1]
  | lookupMoved hw | lookupAgain hw | added hw | addedAll hw | removedAll hw | deletedAll hw
  | hostDeleted late hmem hw => exact .inl (setFamily_hosts rfl)
  | _ => exact .inl fun j => rfl

theorem Monitor.WF.create (config : Config) (ourLUID : UInt64) :
    (Monitor.create config ourLUID).WF where
  hosts := isHost_webSocketServerHosts config
  held i host hhost := by
    rw [holding_next rfl] at hhost
    exact absurd hhost List.not_mem_nil
  adding _ _ _ _ _ _ hw := by cases hw

theorem Monitor.WF.notices (hm : m.WF) (notices : List Notice) : { m with notices := notices }.WF :=
  ⟨hm.hosts, hm.held, hm.adding⟩

theorem Monitor.WF.absent : ({} : Monitor).WF where
  hosts i host hhost := absurd hhost List.not_mem_nil
  held i host hhost := absurd hhost List.not_mem_nil
  adding _ _ _ _ _ _ hw := by cases hw

theorem HoldingMoves.held (h : HoldingMoves m m' a effect) (hm : m.WF) (i : AddressFamily) :
    ∀ host ∈ (m'.holding i).2, host ∈ (m.families i).hosts := by
  intro host hhost
  cases h with
  | same a h => exact hm.held i host (h i ▸ hhost)
  | @delete j previous left h succeeds hmem hbefore hafter hother =>
    by_cases hi : i = j
    · subst hi
      rw [hafter] at hhost
      refine hm.held i host ?_
      rw [hbefore]
      exact (List.mem_filter.mp hhost).1
    · exact hm.held i host (hother i hi ▸ hhost)
  | @add _ _ j h left _ _ hw hafter hother =>
    by_cases hi : i = j
    · subst hi
      rw [hafter] at hhost
      rcases List.mem_insert_iff.mp hhost with rfl | hhost
      · exact hm.adding _ _ i _ _ _ hw List.mem_cons_self
      · exact hm.held i host hhost
    · exact hm.held i host (hother i hi ▸ hhost)
  | @emptied j hbefore hafter hother =>
    by_cases hi : i = j
    · subst hi
      rw [hafter] at hhost
      exact absurd hhost List.not_mem_nil
    · exact hm.held i host (hother i hi ▸ hhost)
  | new config ourLUID h hstage =>
    rw [h i] at hhost
    exact absurd hhost List.not_mem_nil

theorem Moves.adding (h : Moves answer present m a m' effect) (hm : m.WF) :
    ∀ removing todo i left moved failed, m'.work =
      some ⟨removing, todo, .adding i left, moved, failed⟩ →
      left ⊆ (m.families i).hosts := by
  intro removing todo i left moved failed hw'
  cases h with
  | lookupAgain hw | deletedAll hw =>
    cases hw'
    exact List.Subset.refl _
  | addExists fails hw | added hw | addSkipped hw =>
    cases hw'
    exact List.subset_of_cons_subset (hm.adding _ _ _ _ _ _ hw)
  | bump late =>
    rw [(bump_frame late _).2] at hw'
    exact hm.adding _ _ _ _ _ _ hw'
  | hostDeleted late hmem hw =>
    cases hw.symm.trans hw'
  | _ => first | exact hm.adding _ _ _ _ _ _ hw' | cases hw'

theorem Monitor.WF.moves (hm : m.WF) (h : Moves answer present m a m' effect) : m'.WF := by
  rcases h.hosts with hhosts | ⟨-, config, ourLUID, rfl⟩
  · refine ⟨fun i host hhost => hm.hosts i host (hhosts i ▸ hhost), fun i host hhost => ?_, ?_⟩
    · rw [hhosts i]
      exact h.holding.held hm i host hhost
    · intro removing todo i left moved failed hw
      rw [hhosts i]
      exact h.adding hm _ _ i left _ _ hw
  · exact .create config ourLUID

end

def Monitor.nextRoute (m : Monitor) : Option Route :=
  match m.work with
  | some ⟨_, _, .adding i (host :: _), _, _⟩ => some ((m.families i).gateway.route host)
  | _ => none

section
variable {ι : Type} {s t : Sys ι} {k : ι} {r : Route}

theorem names_notices {m : Monitor} (notices : List Notice) :
    { m with notices := notices }.Names r ↔ m.Names r := Iff.rfl

theorem Sys.names_notify (registered : Monitor → Bool) (notice : Notice) (s : Sys ι) :
    ((s.notify registered notice).monitors k).Names r ↔ (s.monitors k).Names r := by
  obtain ⟨notices, h⟩ := s.notify_monitors registered notice k
  rw [h, names_notices]

theorem Sys.names_delete (r' : Route) (s : Sys ι) :
    ((s.delete r').monitors k).Names r ↔ (s.monitors k).Names r := by
  obtain ⟨notices, h⟩ := s.delete_monitors r' k
  rw [h, names_notices]

/-- An entry a monitor names, if it is there, is one that the monitor has added. -/
def NamesOwn (s : Sys ι) : Prop :=
  ∀ k r, (s.monitors k).Names r → ∀ row ∈ s.table, row.route = r → row.addedBy = some k

/-- No one adds a missing entry that a monitor still names, unless it is the one that adds it. -/
def Undisputed (s : Sys ι) : Action ι → Prop
  | .foreignAdd r => ∀ k, ¬ (s.monitors k).Names r
  | .monitor k (.addRoute _) =>
    ∀ r, (s.monitors k).nextRoute = some r → s.Present r ∨ ∀ k', k' ≠ k → ¬ (s.monitors k').Names r
  | _ => True

variable [DecidableEq ι]

theorem Moves.nextRoute_of_add {answer : AddressFamily → DefaultGateway} {present : Route → Bool}
    {m m' : Monitor} {a : Act} (h : Moves answer present m a m' (.add r)) :
    a = .addRoute false ∧ m.nextRoute = some r ∧ present r = false := by
  generalize heffect : Effect.add r = effect at h
  cases h with
  | added hw hluid hpresent =>
    cases heffect
    refine ⟨rfl, ?_, hpresent⟩
    rw [Monitor.nextRoute, hw]
  | deleteRoute succeeds => cases succeeds <;> cases heffect
  | _ => cases heffect

theorem names_of_apply {a : Act} {m' : Monitor} {effect : Effect}
    (hm : HoldingMoves (s.monitors k) m' a effect) {k' : ι}
    (hr : ((Sys.apply k { s with monitors := Function.update s.monitors k m' } effect).monitors
      k').Names r) :
    (s.monitors k').Names r ∨ k' = k ∧ effect = .add r := by
  have hr : ((Function.update s.monitors k m') k').Names r := by
    cases effect with
    | none => exact hr
    | add r' => exact hr
    | delete r' => exact (Sys.names_delete r' _).mp hr
  by_cases hk : k' = k
  · rw [hk, Function.update_self] at hr
    rw [hk]
    exact (hm.names_of_names hr).imp_right fun heffect => ⟨rfl, heffect⟩
  · rw [Function.update_of_ne hk] at hr
    exact .inl hr

theorem NamesOwn.monitor (h : NamesOwn s) {a : Act} (hC : Undisputed s (.monitor k a))
    (hstep : s.step (.monitor k a) = some t) : NamesOwn t := by
  obtain ⟨m', effect, hm, rfl⟩ := Sys.step_monitor hstep
  intro k' r hr row hrow hroute
  have hnames := names_of_apply hm.holding hr
  cases effect with
  | none => exact h k' r (hnames.resolve_right fun hadd => by cases hadd.2) row hrow hroute
  | delete r' =>
    have hrow : row ∈
      (Sys.delete r' { s with monitors := Function.update s.monitors k m' }).table := hrow
    rw [Sys.delete_table] at hrow
    exact h k' r (hnames.resolve_right fun hadd => by cases hadd.2) row (List.mem_filter.mp hrow).1
      hroute
  | add r' =>
    obtain ⟨rfl, hnext, habsent⟩ := hm.nextRoute_of_add
    have habsent : ¬ s.Present r' := of_decide_eq_false habsent
    rcases List.mem_append.mp hrow with hthere | hnew
    · rcases hnames with hold | ⟨-, hadd⟩
      · exact h k' r hold row hthere hroute
      · cases hadd
        exact absurd ⟨row, hthere, hroute⟩ habsent
    · obtain rfl := List.mem_singleton.mp hnew
      by_cases hk : k' = k
      · rw [hk]
      · have hold := hnames.resolve_right fun hadd => hk hadd.1
        cases hroute
        exact absurd hold ((hC r' hnext).resolve_left habsent k' hk)

theorem WF.step (h : ∀ k, (s.monitors k).WF) {a : Action ι} (hstep : s.step a = some t) (k : ι) :
    (t.monitors k).WF := by
  rcases Sys.step_cases hstep k with ⟨notices, heq⟩ | ⟨act, m', effect, notices, -, heq, hm⟩
  · rw [heq]
    exact (h k).notices notices
  · rw [heq]
    exact ((h k).moves hm).notices notices

theorem Monitor.WF.bits_ne_zero {m : Monitor} (hm : m.WF) (hr : m.Names r) :
    r.destination.bits ≠ 0 := by
  obtain ⟨i, host, hhost, rfl⟩ := hr
  exact (hm.hosts i host (hm.held i host hhost)).2

theorem NamesOwn.step (h : NamesOwn s) (hwf : ∀ k, (s.monitors k).WF) {a : Action ι}
    (hC : Undisputed s a) (hstep : s.step a = some t) : NamesOwn t := by
  cases a with
  | monitor k a => exact h.monitor hC hstep
  | setDefaults rows =>
    cases hstep
    intro k r hr row hrow hroute
    have hr : (s.monitors k).Names r := (Sys.names_notify _ _ _).mp hr
    rcases List.mem_append.mp hrow with hold | hnew
    · exact h k r hr row (List.mem_filter.mp hold).1 hroute
    · have hbits := of_decide_eq_true (List.mem_filter.mp hnew).2
      exact absurd (hroute ▸ hbits) ((hwf k).bits_ne_zero hr)
  | setInterfaces net =>
    cases hstep
    intro k r hr row hrow hroute
    exact h k r ((Sys.names_notify _ _ _).mp hr) row hrow hroute
  | foreignAdd r' =>
    obtain ⟨-, hstep⟩ := Option.ite_none_left_eq_some.mp hstep
    cases hstep
    intro k r hr row hrow hroute
    rcases List.mem_append.mp hrow with hthere | hnew
    · exact h k r hr row hthere hroute
    · obtain rfl := List.mem_singleton.mp hnew
      cases hroute
      exact absurd hr (hC k)
  | foreignDelete r' =>
    obtain ⟨-, hstep⟩ := Option.ite_none_left_eq_some.mp hstep
    cases hstep
    intro k r hr row hrow hroute
    rw [Sys.delete_table] at hrow
    exact h k r ((Sys.names_delete r' s).mp hr) row (List.mem_filter.mp hrow).1 hroute

theorem names_of_removed {a : Act} (hstep : s.step (.monitor k a) = some t) {row : ForwardRow ι}
    (hrow : row ∈ s.table) (hgone : row ∉ t.table) : (s.monitors k).Names row.route := by
  obtain ⟨m', effect, hm, rfl⟩ := Sys.step_monitor hstep
  cases effect with
  | none => exact absurd hrow hgone
  | add r' => exact absurd (List.mem_append_left _ hrow) hgone
  | delete r' =>
    rw [Sys.apply, Sys.delete_table, List.mem_filter, not_and, decide_eq_true_eq, not_not] at hgone
    rw [hgone hrow]
    exact hm.holding.names_of_delete rfl

def Sys.initial (table : List (ForwardRow ι)) (net : Interfaces) : Sys ι :=
  ⟨table, net, fun _ => {}⟩

/-- In a run in which no missing entry is added while another monitor names it, the entries that a
monitor deletes are those it has added. -/
theorem monitor_deletes_own (table : List (ForwardRow ι)) (net : Interfaces) {as : List (Action ι)}
    (hC : Along Sys.step Undisputed (Sys.initial table net) as)
    (hrun : exec Sys.step (Sys.initial table net) as = some t) {k : ι} {a : Act} {t' : Sys ι}
    (hstep : t.step (.monitor k a) = some t') :
    ∀ row ∈ t.table, row ∉ t'.table → row.addedBy = some k := by
  have hinitial : (∀ k, ((Sys.initial table net).monitors k).WF) ∧
      NamesOwn (Sys.initial table net) := by
    refine ⟨fun _ => .absent, fun k r hr => ?_⟩
    obtain ⟨i, host, hhost, -⟩ := hr
    exact absurd hhost List.not_mem_nil
  obtain ⟨-, hown⟩ := invariant_along (I := fun s : Sys ι => (∀ k, (s.monitors k).WF) ∧ NamesOwn s)
    (fun s a u hs hc hu => ⟨WF.step hs.1 hu, hs.2.step hs.1 hc hu⟩) hinitial hC hrun
  intro row hrow hgone
  exact hown k _ (names_of_removed hstep hrow hgone) row hrow rfl

end

def serverConfig : Config where
  name := str "wg0"
  peers := [{ wsURL := str "wss://203.0.113.7", endpoint := ⟨str "203.0.113.7", 443⟩ }]

def serverHost : Prefix := ⟨.v4 0xCB007107, 33⟩

def defaultRow (luid : UInt64) : ForwardRow Unit where
  route := ⟨luid, ⟨.v4 0, 1⟩, .v4 0xC0000201⟩
  index := luid.toUInt32

def allUp : Interfaces := ⟨fun _ => some ifOperStatusUp, fun _ _ => some 25⟩

def oneGateway : Sys Unit := Sys.initial [defaultRow 5] allUp

def serverRoute : Route := ⟨5, serverHost, .v4 0xC0000201⟩

def construction : List Act :=
  [.new serverConfig 1, .lookup true, .advance, .addRoute false, .advance, .lookup true,
  .finish fun _ => true]

def destruction : List Act := [.destroy, .proceed fun _ => true, .proceed fun _ => true, .advance]

theorem undisputed_alone (acts : List Act) (s : Sys Unit) :
    Along Sys.step Undisputed s (acts.map (.monitor ())) := by
  refine along_of_forall (fun a ha u => ?_) s
  obtain ⟨act, -, rfl⟩ := List.mem_map.mp ha
  cases act with
  | addRoute fails => exact fun r _ => .inr fun k' hk => absurd (Subsingleton.elim k' ()) hk
  | _ => trivial

def lastDelete (as : List (Action Unit)) :
    Option (List (ForwardRow Unit) × List (ForwardRow Unit)) :=
  (exec Sys.step oneGateway as).bind fun t =>
    (t.step (.monitor () (.deleteRoute serverHost true))).map fun t' => (t.table, t'.table)

theorem lastDelete_eq_some {as : List (Action Unit)} {before after : List (ForwardRow Unit)}
    (h : lastDelete as = some (before, after)) : ∃ t t', exec Sys.step oneGateway as = some t ∧
      t.step (.monitor () (.deleteRoute serverHost true)) = some t' ∧ t.table = before ∧
      t'.table = after := by
  obtain ⟨t, ht, h⟩ := Option.bind_eq_some_iff.mp h
  obtain ⟨t', ht', heq⟩ := Option.map_eq_some_iff.mp h
  cases heq
  exact ⟨t, t', ht, ht', rfl, rfl⟩

theorem monitor_deletes_own_server : ∃ t t',
    Along Sys.step Undisputed oneGateway ((construction ++ destruction).map (.monitor ())) ∧
    exec Sys.step oneGateway ((construction ++ destruction).map (.monitor ())) = some t ∧
    t.step (.monitor () (.deleteRoute serverHost true)) = some t' ∧
    { route := serverRoute, addedBy := some () } ∈ t.table ∧ t'.table = [defaultRow 5] ∧
    ∀ row ∈ t.table, row ∉ t'.table → row.addedBy = some () := by
  obtain ⟨t, t', hrun, hstep, hbefore, hafter⟩ :=
    @lastDelete_eq_some ((construction ++ destruction).map (.monitor ()))
    [defaultRow 5, { route := serverRoute, addedBy := some () }] [defaultRow 5] (by decide +kernel)
  have hC := undisputed_alone (construction ++ destruction) oneGateway
  refine ⟨t, t', hC, hrun, hstep, by simp [hbefore], hafter, ?_⟩
  exact monitor_deletes_own [defaultRow 5] allUp hC hrun hstep

def replacement : List (Action Unit) :=
  construction.map (.monitor ()) ++ [.foreignDelete serverRoute, .foreignAdd serverRoute] ++
    destruction.map (.monitor ())

theorem monitor_deletes_foreign : ∃ t t' row, exec Sys.step oneGateway replacement = some t ∧
    t.step (.monitor () (.deleteRoute serverHost true)) = some t' ∧ row ∈ t.table ∧ row ∉ t'.table ∧
    row.addedBy = none := by
  obtain ⟨t, t', hrun, hstep, hbefore, hafter⟩ :=
    @lastDelete_eq_some replacement [defaultRow 5, { route := serverRoute }] [defaultRow 5]
      (by decide +kernel)
  exact ⟨t, t', { route := serverRoute }, hrun,
    hstep, by simp [hbefore], by rw [hafter]; decide, rfl⟩

end WireGuardWindows.Tunnel.RouteMonitor
