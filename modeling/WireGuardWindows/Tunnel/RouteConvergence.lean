import WireGuardWindows.Tunnel.RouteEffort
import WireGuardWindows.Systems.Termination

/-!
# Several monitors come to rest

Monitors with a host in common disturb each other: the route that one deletes may be the one
that another keeps, and its deletion notifies all of them. After the last change from outside
they take finitely many steps all the same, and where they stop, all routes are in place.
-/

namespace WireGuardWindows.Tunnel.RouteMonitor
open GoStd Netip Conf Systems

section
variable {ι : Type} {s t : Sys ι} {k : ι}

/-- A route to the host need not be there: its deletion has been noticed, or the monitor has not
been started. -/
def Monitor.Excuses (m : Monitor) (host : Prefix) : Prop :=
  Notice.deleted host ∈ m.notices ∨ m.stage ≠ .started

structure Converging (s : Sys ι) (k : ι) : Prop where
  wf : (s.monitors k).WF
  follows : Follows (s.defaultGateway k) (s.monitors k)
  covered : Covered s.Present (s.monitors k).Excuses (s.monitors k)
  mends : (s.monitors k).Mends

theorem Covered.change {m : Monitor} {P P' : Route → Prop} (hm : Covered P m.Excuses m)
    {notices : List Notice} (hnotices : m.notices ⊆ notices)
    (hP : ∀ i, ∀ host ∈ (m.families i).hosts, P ((m.families i).gateway.route host) →
      P' ((m.families i).gateway.route host) ∨ { m with notices := notices }.Excuses host) :
    Covered P' { m with notices := notices }.Excuses { m with notices := notices } := by
  refine hm.of_same (fun _ => ⟨rfl, rfl, rfl⟩) id (.inl rfl) fun i host hhost hcovered => ?_
  rcases hcovered with h | h | h
  · exact hP i host hhost h
  · exact .inr (.inl (hnotices h))
  · exact .inr (.inr h)

namespace Sys

theorem told_delete {r : Route} (hpresent : s.Present r)
    (hcallback : (s.monitors k).routeCallback = true) :
    Notice.deleted r.destination ∈ ((s.delete r).monitors k).notices := by
  rw [delete, if_pos hpresent, notify]
  dsimp only
  rw [if_pos hcallback]
  exact List.mem_append_right _ List.mem_cons_self

end Sys

theorem Covered.delete (hm : Covered s.Present (s.monitors k).Excuses (s.monitors k))
    (hroute : (s.monitors k).stage.listening → (s.monitors k).routeCallback = true) (r : Route) :
    Covered (s.delete r).Present ((s.delete r).monitors k).Excuses ((s.delete r).monitors k) := by
  have htold := fun hpresent hcallback => @Sys.told_delete ι s k r hpresent hcallback
  obtain ⟨notices, heq, hsub⟩ := Sys.notices_delete r s k
  rw [heq] at htold ⊢
  refine hm.change hsub fun i host hhost hpresent => ?_
  by_cases hr : ((s.monitors k).families i).gateway.route host = r
  · right
    by_cases hstage : (s.monitors k).stage = .started
    · subst hr
      exact .inl (htold hpresent (hroute (.inr (.inr hstage))))
    · exact .inr hstage
  · exact .inl (Sys.present_delete.mpr ⟨hpresent, hr⟩)

/-- Calls succeed, and no monitor is created; anything else may happen. -/
def Action.Usual : Action ι → Prop
  | .monitor _ a => a.Usual
  | _ => True

def Action.Internal : Action ι → Prop
  | .monitor _ a => a.Internal
  | _ => False

theorem Action.Internal.usual {a : Action ι} (h : a.Internal) : a.Usual := by
  cases a with
  | monitor k act => exact h.1
  | _ => cases h

def Effect.charge (m : Monitor) : Effect → Nat
  | .delete _ => m.hostCounts + 12
  | _ => 0

theorem effort_notices {m : Monitor} (notices : List Notice) :
    Monitor.effort { m with notices := notices } + (m.notices.map m.noticeWeight).sum =
      m.effort + (notices.map m.noticeWeight).sum := by
  rw [effort_of_event, Monitor.effort]
  omega

theorem effort_apply (k' : ι) (effect : Effect) (s : Sys ι) (k : ι)
    (cur : AddressFamily → DefaultGateway) :
    ((Sys.apply k' s effect).monitors k).effort ≤ (s.monitors k).effort + effect.charge
      (s.monitors k) ∧
      ((Sys.apply k' s effect).monitors k).deletions cur = (s.monitors k).deletions cur := by
  cases effect with
  | none | add r => exact ⟨Nat.le_add_right _ _, rfl⟩
  | delete r =>
    rw [Sys.apply, Sys.delete]
    split_ifs
    · rw [Sys.notify]
      dsimp only
      split_ifs
      · refine ⟨?_, rfl⟩
        have hnotices :=
          @effort_notices (s.monitors k) ((s.monitors k).notices ++ [.deleted r.destination])
        rw [List.map_append, List.sum_append] at hnotices
        simp only [List.map_cons, List.map_nil, List.sum_cons, List.sum_nil,
          Monitor.noticeWeight] at hnotices
        rw [Effect.charge]
        omega
      · exact ⟨Nat.le_add_right _ _, rfl⟩
    · exact ⟨Nat.le_add_right _ _, rfl⟩

theorem charge_of_not_delete {effect : Effect} (h : ∀ r, effect ≠ .delete r) (m : Monitor) :
    effect.charge m = 0 := by
  cases effect with
  | delete r => exact absurd rfl (h r)
  | _ => rfl

def Sys.price [Fintype ι] (s : Sys ι) : Nat := ∑ k, ((s.monitors k).hostCounts + 12)

theorem charge_sum_le [Fintype ι] (s : Sys ι) (effect : Effect) :
    ∑ k, effect.charge (s.monitors k) ≤ s.price := by
  refine Finset.sum_le_sum fun k _ => ?_
  cases effect with
  | delete r => exact le_rfl
  | _ => exact Nat.zero_le _

def Sys.remaining [Fintype ι] (s : Sys ι) : Nat :=
  ∑ k, ((s.monitors k).deletions (s.defaultGateway k) * (s.price + 1) + (s.monitors k).effort)

theorem hostCounts_apply (k' : ι) (effect : Effect) (s : Sys ι) (k : ι) :
    ((Sys.apply k' s effect).monitors k).hostCounts = (s.monitors k).hostCounts := by
  obtain ⟨notices, heq⟩ := Sys.apply_monitors k' effect s k
  rw [heq]
  rfl

variable [DecidableEq ι]

theorem Converging.seen (h : Converging s k) {a : Action ι} : Seen k s a := by
  have hstage {P : Prop} {stage : Stage} := @Monitor.Mends.elim (s.monitors k) P h.mends stage
  cases a with
  | monitor k' act =>
    cases act with
    | update => exact fun _ => ⟨fun h => hstage h rfl, fun h => hstage h rfl⟩
    | _ => trivial
  | setDefaults rows =>
    rintro (h | h | h)
    · exact hstage h rfl
    · exact hstage h rfl
    · exact hstage h rfl
  | setInterfaces net =>
    rintro (h | h | h | h)
    · exact hstage h rfl
    · exact hstage h rfl
    · exact hstage h rfl
    · exact hstage h rfl
  | foreignAdd r => trivial
  | foreignDelete r => trivial

theorem Monitor.Mends.step (h : Converging s k) {a : Action ι} (ha : a.Usual)
    (hstep : s.step a = some t) :
    (t.monitors k).Mends := by
  cases a with
  | monitor k' act =>
    obtain ⟨m', effect, hm, rfl⟩ := Sys.step_monitor hstep
    obtain ⟨notices, heq, hsub⟩ :=
      Sys.notices_apply k' effect { s with monitors := Function.update s.monitors k' m' } k
    dsimp only at heq hsub
    rw [heq]
    by_cases hk : k = k'
    · subst hk
      rw [Function.update_self] at hsub ⊢
      exact (h.mends.moves h.follows hm ha).notices hsub
    · rw [Function.update_of_ne hk] at hsub ⊢
      exact h.mends.notices hsub
  | setDefaults rows =>
    cases hstep
    obtain ⟨notices, heq, hsub, -⟩ := Sys.notices_notify Monitor.routeCallback .route
      { s with table := s.table.filter (fun row => row.route.destination.bits ≠ 0) ++
        rows.filter fun row => row.route.destination.bits = 0 } k
    rw [heq]
    exact h.mends.notices hsub
  | setInterfaces net =>
    cases hstep
    obtain ⟨notices, heq, hsub, -⟩ :=
      Sys.notices_notify Monitor.interfaceCallback .interface { s with net := net } k
    rw [heq]
    exact h.mends.notices hsub
  | foreignAdd r =>
    obtain ⟨-, hstep⟩ := Option.ite_none_left_eq_some.mp hstep
    cases hstep
    exact h.mends
  | foreignDelete r =>
    obtain ⟨-, hstep⟩ := Option.ite_none_left_eq_some.mp hstep
    cases hstep
    obtain ⟨notices, heq, hsub⟩ := Sys.notices_delete r s k
    rw [heq]
    exact h.mends.notices hsub

theorem Covered.own (h : Converging s k) {act : Act} (ha : act.Usual) {m' : Monitor}
    {effect : Effect}
    (hm : Moves (s.defaultGateway k) (fun r => decide (s.Present r)) (s.monitors k) act m' effect) :
    Covered (Sys.apply k { s with monitors := Function.update s.monitors k m' } effect).Present
      ((Sys.apply k { s with monitors := Function.update s.monitors k m' } effect).monitors
        k).Excuses
      ((Sys.apply k { s with monitors := Function.update s.monitors k m' } effect).monitors k) := by
  obtain ⟨notices, heq, hsub⟩ :=
    Sys.notices_apply k effect { s with monitors := Function.update s.monitors k m' } k
  dsimp only at heq hsub
  rw [Function.update_self] at heq hsub
  rw [heq]
  have hcovered :=
    @Covered.moves (s.defaultGateway k) (fun r => decide (s.Present r)) (s.monitors k) m' act effect
    s.Present (Sys.apply k { s with monitors := Function.update s.monitors k m' } effect).Present
    (s.monitors k).Excuses { m' with notices := notices }.Excuses h.covered h.wf
      h.follows.control hm
    (fun r hr => of_decide_eq_true hr) (fun r hr => ?_) (fun r hr => ?_) fun host hhost => ?_
  · exact ⟨hcovered.complete, hcovered.adding, hcovered.busyDeleting, hcovered.busyAdding⟩
  · by_cases hdelete : effect = .delete r
    · exact .inr (.inr hdelete)
    · exact .inl (Sys.present_apply.mpr (.inl ⟨hr, hdelete⟩))
  · exact Sys.present_apply.mpr (.inr hr)
  · rcases hhost with hhost | hhost
    · exact (hm.notices ha.2 hhost).imp_left fun hmem => .inl (hsub hmem)
    · exact .inl (.inr (hm.not_started h.mends hhost))

theorem Covered.step (h : Converging s k) {a : Action ι} (ha : a.Usual)
    (hstep : s.step a = some t) :
    Covered t.Present (t.monitors k).Excuses (t.monitors k) := by
  cases a with
  | monitor k' act =>
    obtain ⟨m', effect, hm, rfl⟩ := Sys.step_monitor hstep
    by_cases hk : k = k'
    · subst hk
      exact Covered.own h ha hm
    · have hself : ({ s with monitors := Function.update s.monitors k' m' } : Sys ι).monitors k =
          s.monitors k :=
        Function.update_of_ne hk _ _
      have hcovered : Covered ({ s with monitors := Function.update s.monitors k' m' } : Sys
        ι).Present
          (({ s with monitors := Function.update s.monitors k' m' } : Sys ι).monitors k).Excuses
          (({ s with monitors := Function.update s.monitors k' m' } : Sys ι).monitors k) := by
        rw [hself]
        exact h.covered
      cases effect with
      | none => exact hcovered
      | add r =>
        exact hcovered.change (List.Subset.refl _) fun i host _ hr =>
          .inl (Sys.present_insert.mpr (.inl hr))
      | delete r =>
        refine hcovered.delete ?_ r
        rw [hself]
        exact h.follows.route
  | setDefaults rows =>
    have hpresent := fun r hbits => @Sys.present_setDefaults ι s t _ rows hstep r hbits
    cases hstep
    obtain ⟨notices, heq, hsub, -⟩ := Sys.notices_notify Monitor.routeCallback .route
      { s with table := s.table.filter (fun row => row.route.destination.bits ≠ 0) ++
        rows.filter fun row => row.route.destination.bits = 0 } k
    rw [heq]
    exact h.covered.change hsub fun i host hhost hr =>
      .inl ((hpresent _ (h.wf.hosts i host hhost).2).mpr hr)
  | setInterfaces net =>
    cases hstep
    obtain ⟨notices, heq, hsub, -⟩ :=
      Sys.notices_notify Monitor.interfaceCallback .interface { s with net := net } k
    rw [heq]
    exact h.covered.change hsub fun i host _ hr => .inl hr
  | foreignAdd r =>
    obtain ⟨-, hstep⟩ := Option.ite_none_left_eq_some.mp hstep
    cases hstep
    exact h.covered.change (List.Subset.refl _) fun i host _ hr =>
      .inl (Sys.present_insert.mpr (.inl hr))
  | foreignDelete r =>
    obtain ⟨-, hstep⟩ := Option.ite_none_left_eq_some.mp hstep
    cases hstep
    exact h.covered.delete h.follows.route r

theorem Converging.step (h : ∀ k, Converging s k) {a : Action ι} (ha : a.Usual)
    (hstep : s.step a = some t) (k : ι) :
    Converging t k where
  wf := WF.step (fun k => (h k).wf) hstep k
  follows := by
    refine Follows.step (fun k => (h k).wf) (h k).follows ?_ (h k).seen hstep
    cases a with
    | monitor k' act => exact fun _ => ha.1
    | _ => trivial
  covered := Covered.step (h k) ha hstep
  mends := Monitor.Mends.step (h k) ha hstep

theorem remaining_lt [Fintype ι] (h : ∀ k, Converging s k) {a : Action ι} (ha : a.Internal)
    (hstep : s.step a = some t) :
    t.remaining < s.remaining := by
  cases a with
  | monitor k act =>
    obtain ⟨m', effect, hm, rfl⟩ := Sys.step_monitor hstep
    have hmends := (h k).mends.moves (h k).follows hm ha.1
    have hhosts : ∀ i, (m'.families i).hosts = ((s.monitors k).families i).hosts := by
      rcases hm.hosts with hhosts | ⟨-, config, ourLUID, rfl⟩
      · exact hhosts
      · exact hmends.elim rfl rfl
    have hluid (j : ι) : (Function.update s.monitors k m' j).ourLUID = (s.monitors j).ourLUID := by
      by_cases hj : j = k
      · subst hj
        rw [Function.update_self]
        rcases hm.ourLUID with hluid | ⟨config, ourLUID, rfl⟩
        · exact hluid
        · exact hmends.elim rfl rfl
      · rw [Function.update_of_ne hj]
    have hgateway (j : ι) := defaultGateway_apply (fun r hr => hm.effect_bits (h k).wf hr) (hluid j)
    have hcounts (j : ι) : (Function.update s.monitors k m' j).hostCounts =
        (s.monitors j).hostCounts := by
      by_cases hj : j = k
      · subst hj
        rw [Function.update_self, hostCounts_eq hhosts]
      · rw [Function.update_of_ne hj]
    have hprice : (Sys.apply k { s with monitors := Function.update s.monitors k m' }
        effect).price = s.price := by
      refine Finset.sum_congr rfl fun j _ => ?_
      rw [hostCounts_apply]
      exact congrArg (· + 12) (hcounts j)
    have hafter (j : ι) :=
      effort_apply k effect { s with monitors := Function.update s.monitors k m' } j
        (s.defaultGateway j)
    have hcharge := charge_sum_le s effect
    refine @sum_lt_sum_of_charge ι _ _ _ _ (fun j => effect.charge (s.monitors j)) k
      (fun j hj => ?_) ?_
    · obtain ⟨heffort, hdeletions⟩ := hafter j
      dsimp only at heffort hdeletions
      rw [Function.update_of_ne hj] at heffort hdeletions
      rw [hgateway j, hprice, hdeletions]
      omega
    · obtain ⟨heffort, hdeletions⟩ := hafter k
      dsimp only at heffort hdeletions
      rw [Function.update_self] at heffort hdeletions
      have hsame : effect.charge m' = effect.charge (s.monitors k) := by
        cases effect with
        | delete r => rw [Effect.charge, Effect.charge, hostCounts_eq hhosts]
        | _ => rfl
      rw [hgateway k, hprice, hdeletions]
      rw [hsame] at heffort
      rcases Cheaper.moves (h k).wf (h k).mends (h k).follows.control ha hm with ⟨hle, hlt,
        hdelete⟩ | ⟨hlt, hle⟩
      · have hmul := Nat.mul_le_mul_right (s.price + 1) hle
        simp only [charge_of_not_delete hdelete] at heffort ⊢
        rw [Finset.sum_const_zero]
        omega
      · have hmul := Nat.mul_le_mul_right (s.price + 1) (Nat.succ_le_of_lt hlt)
        rw [Nat.succ_mul] at hmul
        omega
  | _ => cases ha

/-- Nothing is on its way, and a monitor that has been started has its routes and its sockets
where they belong. -/
structure AtRest (s : Sys ι) (k : ι) : Prop where
  hosts : ∀ i, ∀ host ∈ ((s.monitors k).families i).hosts, IsHost i host
  owned : ∀ i, ((s.monitors k).families i).owned.Nodup ∧
    ((s.monitors k).families i).owned ⊆ ((s.monitors k).families i).hosts
  quiet : (s.monitors k).Quiet
  stage : (s.monitors k).stage = .absent ∨ (s.monitors k).stage = .started ∨
    (s.monitors k).stage = .destroyed
  out : (s.monitors k).stage ≠ .started → (s.monitors k).callbacks = false
  gone : (s.monitors k).stage = .destroyed → ∀ i, ((s.monitors k).families i).owned = []
  listening : (s.monitors k).stage = .started → (s.monitors k).callbacks = true ∧
    (s.monitors k).routeCallback = true ∧ (s.monitors k).interfaceCallback = true
  gateway : (s.monitors k).stage = .started → ∀ i, ((s.monitors k).families i).gateway =
    s.defaultGateway k i ∧
    (s.monitors k).bound i = some (Monitor.socket ((s.monitors k).families i))
  complete : (s.monitors k).stage = .started → ∀ i, ((s.monitors k).families i).incomplete = false ∧
    (((s.monitors k).families i).gateway.luid ≠ 0 → ∀ host ∈ ((s.monitors k).families i).hosts,
      s.Present (((s.monitors k).families i).gateway.route host))

omit [DecidableEq ι] in
theorem AtRest.converging (h : AtRest s k) : Converging s k := by
  have hw := h.quiet.2.2.2.2
  have hcontrol : (s.monitors k).Control := by
    refine .of_idle hw (fun hcallbacks => ?_) fun hgone => ?_
    · by_contra hstage
      cases (h.out hstage).symm.trans hcallbacks
    · rcases hgone with hgone | hfailed
      · exact h.gone hgone
      · rcases h.stage with hstage | hstage | hstage <;> cases hstage.symm.trans hfailed
  refine ⟨⟨h.hosts, fun i host hhost => ?_, fun _ _ _ _ _ _ h => by cases hw.symm.trans h⟩, ?_, ?_,
    ?_⟩
  · rw [holding_none hw] at hhost
    exact (h.owned i).2 hhost
  · rcases h.stage with hstage | hstage | hstage
    · exact .of_stage hcontrol (by rw [hstage]; decide) fun h => by cases hstage.symm.trans h
    · obtain ⟨hcallbacks, hroute, hinterface⟩ := h.listening hstage
      exact .to_stage hcontrol .started hstage (by decide) (fun _ => hcallbacks) (fun _ => hroute)
        (fun _ => hinterface) (fun h => absurd h (by decide))
        (fun _ i => .inl (h.gateway hstage i).1) fun _ i => (h.gateway hstage i).2
    · exact .of_stage hcontrol (by rw [hstage]; decide) fun h => by cases hstage.symm.trans h
  · refine ⟨fun _ i _ hluid host hhost => ?_, fun _ _ _ _ _ _ h => ?_, fun _ _ _ _ _ _ h =>
      ?_, fun _ _ _ _ _ _ h => ?_⟩
    · by_cases hstage : (s.monitors k).stage = .started
      · exact .inl ((h.complete hstage i).2 hluid host hhost)
      · exact .inr (.inr hstage)
    · cases hw.symm.trans h
    · cases hw.symm.trans h
    · cases hw.symm.trans h
  · refine ⟨?_, fun hstage i hi => ?_, fun i => (h.owned i).1, fun hstage => ?_⟩
    · rcases h.stage with hstage | hstage | hstage <;> rw [hstage] <;> rfl
    · cases (h.complete hstage i).1.symm.trans hi
    · rcases h.stage with h | h | h <;> cases h.symm.trans hstage

theorem Sys.step_eq_none {act : Act} (h : s.step (.monitor k act) = none) :
    (s.monitors k).step (s.defaultGateway k) (fun r => decide (s.Present r)) act = none := by
  rw [Sys.step] at h
  exact Option.eq_none_iff_forall_ne_some.mpr fun n hn => by simp [hn] at h

theorem Converging.atRest (h : Converging s k)
    (hstuck : ∀ act : Act, act.Internal → s.step (.monitor k act) = none) :
    AtRest s k := by
  have hstuck := fun act ha => Sys.step_eq_none (hstuck act ha)
  have hquiet := Monitor.quiet_of_stuck hstuck
  have hw := hquiet.2.2.2.2
  have hidle (i : AddressFamily) : ¬ (s.monitors k).Mending i := by
    obtain ⟨hnotices, htimer, hfired, hupdates, -⟩ := hquiet
    rw [Monitor.Mending, Monitor.Pending, hnotices, htimer, hfired, hupdates, hw]
    rintro ((h | h | h | h | h | ⟨_, _, _, _, _, h, -⟩) | ⟨_, _, _, _, _, h, -⟩)
    · exact List.not_mem_nil h
    · exact List.not_mem_nil h
    · exact Bool.false_ne_true h
    · exact h rfl
    · exact h rfl
    · cases h
    · cases h
  exact {
    hosts := h.wf.hosts
    owned := fun i =>
      ⟨h.mends.nodup i, fun host hhost => h.wf.held i host (by rw [holding_none hw]; exact hhost)⟩
    quiet := hquiet
    stage := h.mends.stage_of_stuck hstuck
    out := h.follows.control.not_callbacks
    gone := fun hstage => (h.follows.control.gone (.inl hstage)).2
    listening := fun hstage => ⟨h.follows.callbacks hstage, h.follows.route (.inr (.inr hstage)),
      h.follows.interface (.inr hstage)⟩
    gateway := fun hstage => h.follows.quiet hstage hquiet
    complete := fun hstage i => by
      have hcomplete : ((s.monitors k).families i).incomplete = false :=
        Bool.eq_false_iff.mpr fun hi => hidle i (h.mends.mending hstage i hi)
      refine ⟨hcomplete, fun hluid host hhost => ?_⟩
      have hkeeping : (s.monitors k).Keeping := keeping_of_idle hw (by rw [hstage]; decide)
      rcases h.covered.complete hkeeping i hcomplete hluid host
        hhost with hpresent | hnotice | hstage'
      · exact hpresent
      · rw [hquiet.1] at hnotice
        exact absurd hnotice List.not_mem_nil
      · exact absurd hstage hstage' }

end

def serverGateway : AddressFamily → DefaultGateway
  | .inet => ⟨5, 5, .v4 0xC0000201⟩
  | .inet6 => {}

def serverMonitor (second : Bool) : Monitor where
  ourLUID := if second then 2 else 1
  families i := {
    hosts := if i = .inet then [serverHost] else []
    gateway := serverGateway i
    owned := if i = .inet ∧ second = false then [serverHost] else [] }
  stage := .started
  callbacks := true
  routeCallback := true
  interfaceCallback := true
  bound i := some ((serverGateway i).index, false)

def twoTunnels : Sys Bool where
  table := [{ route := ⟨5, ⟨.v4 0, 1⟩, .v4 0xC0000201⟩, index := 5 },
    { route := serverRoute, addedBy := some false }]
  net := allUp
  monitors := serverMonitor

theorem twoTunnels_atRest (second : Bool) : AtRest twoTunnels second where
  hosts i host hhost := by
    cases i with
    | inet =>
      rw [List.mem_singleton.mp hhost]
      exact ⟨by decide, by decide⟩
    | inet6 => exact absurd hhost List.not_mem_nil
  owned i := by cases i <;> cases second <;> decide
  quiet := ⟨rfl, rfl, rfl, rfl, rfl⟩
  stage := .inr (.inl rfl)
  out h := absurd rfl h
  gone h := by cases h
  listening _ := ⟨rfl, rfl, rfl⟩
  gateway _ i := by cases i <;> cases second <;> decide
  complete _ i := by
    refine ⟨rfl, fun _ host hhost => ?_⟩
    cases i with
    | inet =>
      rw [List.mem_singleton.mp hhost]
      exact ⟨_, List.mem_cons_of_mem _ List.mem_cons_self, rfl⟩
    | inet6 => exact absurd hhost List.not_mem_nil

def firstDestroyed : List (Action Bool) :=
  [.monitor false .destroy] ++ List.replicate 6 (.monitor false (.proceed fun _ => true)) ++
    [.monitor false .advance, .monitor false (.deleteRoute serverHost true)]

end WireGuardWindows.Tunnel.RouteMonitor
