import WireGuardWindows.Tunnel.RouteCoverage

/-!
# What a monitor leaves behind

As long as nobody else changes the routes to its hosts, the entries for them are those that
were there before and those the monitor names. After the removal it names none, and then no
step that is still to come adds one.
-/

namespace WireGuardWindows.Tunnel.RouteMonitor
open GoStd Netip Conf Systems

section
variable {answer : AddressFamily → DefaultGateway} {present : Route → Bool} {m m' : Monitor}
  {a : Act} {effect : Effect} {r : Route}

theorem HoldingMoves.names_kept (h : HoldingMoves m m' a effect) (hstage : m.stage ≠ .absent)
    (hdelete : ∀ host, a ≠ .deleteRoute host false) (hr : m.Names r) :
    m'.Names r ∨ effect = .delete r := by
  obtain ⟨i, host, hhost, hroute⟩ := hr
  have hother (h : m'.holding i = m.holding i) : m'.Names r := ⟨i, host, h ▸ hhost, h ▸ hroute⟩
  cases h with
  | same a h => exact .inl (hother (h i))
  | @delete j previous left deleted succeeds hmem hbefore hafter hrest =>
    by_cases hi : i = j
    · subst hi
      rw [hbefore] at hhost hroute
      by_cases hd : host = deleted
      · cases succeeds with
        | false => exact absurd rfl (hdelete deleted)
        | true =>
          rw [← hroute, hd]
          exact .inr rfl
      · refine .inl ⟨i, host, ?_, ?_⟩
        · rw [hafter]
          exact List.mem_filter.mpr ⟨hhost, decide_eq_true hd⟩
        · rw [hafter]
          exact hroute
    · exact .inl (hother (hrest i hi))
  | @add _ _ j added _ _ _ hw hafter hrest =>
    by_cases hi : i = j
    · subst hi
      refine .inl ⟨i, host, ?_, ?_⟩
      · rw [hafter]
        exact List.mem_insert_of_mem hhost
      · rw [hafter]
        exact hroute
    · exact .inl (hother (hrest i hi))
  | @emptied j hbefore hafter hrest =>
    by_cases hi : i = j
    · subst hi
      rw [hbefore] at hhost
      exact absurd hhost List.not_mem_nil
    · exact .inl (hother (hrest i hi))
  | new config ourLUID h habsent => exact absurd habsent hstage

theorem HoldingMoves.not_names_deleted (h : HoldingMoves m m' a effect) (hm : m.WF)
    (heffect : effect = .delete r) :
    ¬ m'.Names r := by
  cases h with
  | @delete i previous left deleted succeeds hmem hbefore hafter hrest =>
    cases succeeds with
    | false => cases heffect
    | true =>
      cases heffect
      rintro ⟨j, host, hhost, hroute⟩
      have heq : host = deleted := congrArg Route.destination hroute
      subst heq
      by_cases hj : j = i
      · subst hj
        rw [hafter] at hhost
        exact of_decide_eq_true (List.mem_filter.mp hhost).2 rfl
      · rw [hrest j hj] at hhost
        have hdeleted : host ∈ (m.holding i).2 := by
          rw [hbefore]
          exact hmem
        exact hj ((hm.hosts j host (hm.held j host hhost)).eq
          (hm.hosts i host (hm.held i host hdeleted)))
  | _ => cases heffect

theorem HoldingMoves.names_iff (h : HoldingMoves m m' a effect) (hm : m.WF)
    (hstage : m.stage ≠ .absent) (hdelete : ∀ host, a ≠ .deleteRoute host false) :
    m'.Names r ↔ (m.Names r ∧ effect ≠ .delete r) ∨ effect = .add r := by
  constructor
  · intro hr
    refine (h.names_of_names hr).imp_left fun hold => ⟨hold, fun heffect => ?_⟩
    exact h.not_names_deleted hm heffect hr
  · rintro (⟨hold, heffect⟩ | heffect)
    · exact (h.names_kept hstage hdelete hold).resolve_right heffect
    · exact h.names_added heffect

theorem Moves.created (h : Moves answer present m a m' effect) (hm : m.stage ≠ .absent) :
    m'.stage ≠ .absent := by
  cases h with
  | bump late =>
    rw [(bump_stage late _).1]
    exact hm
  | pin ok =>
    dsimp only
    split_ifs <;> decide
  | _ => first | exact hm | (dsimp only [Monitor.create]; decide)

theorem Moves.gone (h : Moves answer present m a m' effect) (hm : m.Control)
    (hgone : m.stage = .destroyed ∨ m.stage = .failed) : m'.stage = m.stage := by
  have hidle := (hm.gone hgone).1
  have hstages (stage : Stage) (h : m.stage = stage) : stage = .destroyed ∨ stage = .failed :=
    h ▸ hgone
  cases h with
  | bump late => exact (bump_stage late _).1
  | rejected binds hw => cases hidle.symm.trans hw
  | constructed binds hw => cases hidle.symm.trans hw
  | removed binds hw => cases hidle.symm.trans hw
  | destroyUnstarted hstage =>
    rcases hstage with h | h
    · exact absurd (hstages _ h) (by decide)
    · exact absurd (hstages _ h) (by decide)
  | _ => first | rfl | exact absurd (hstages _ (by assumption)) (by decide)

end

/-- The routes to the networks of `K` are changed by the monitor alone, and `DeleteRoute`
succeeds. -/
def Untouched (K : Prefix → Prop) (_ : Sys Unit) : Action Unit → Prop
  | .foreignAdd r => ¬ K r.destination
  | .foreignDelete r => ¬ K r.destination
  | .monitor _ (.deleteRoute _ succeeds) => succeeds = true
  | _ => True

def Sys.created (table : List (ForwardRow Unit)) (net : Interfaces) (config : Config)
    (ourLUID : UInt64) : Sys Unit :=
  ⟨table, net, fun _ => .create config ourLUID⟩

/-- The entries for the networks of `K` are those of `base` and those the monitor names. -/
structure Traces (base : Route → Prop) (K : Prefix → Prop) (config : Config) (s : Sys Unit) :
    Prop where
  wf : (s.monitors ()).WF
  control : (s.monitors ()).Control
  covered : Covered s.Present (fun _ => False) (s.monitors ())
  created : (s.monitors ()).stage ≠ .absent
  hosts : ∀ i, ((s.monitors ()).families i).hosts = webSocketServerHosts config i
  entries : ∀ r, K r.destination → r.destination.bits ≠ 0 →
    (s.Present r ↔ base r ∨ (s.monitors ()).Names r)
  fresh : ∀ r, (s.monitors ()).Names r → ¬ base r

section
variable {base : Route → Prop} {K : Prefix → Prop} {config : Config} {s t : Sys Unit}

theorem Traces.frame (h : Traces base K config s)
    (hK : ∀ i, ∀ host ∈ webSocketServerHosts config i, K host)
    (hmonitor : ∃ notices, t.monitors () = { s.monitors () with notices := notices })
    (hpresent : ∀ r, K r.destination → r.destination.bits ≠ 0 → (t.Present r ↔ s.Present r)) :
    Traces base K config t := by
  obtain ⟨notices, heq⟩ := hmonitor
  refine ⟨?_, ?_, ?_, ?_, ?_, ?_, ?_⟩
  all_goals rw [heq]
  · exact h.wf.notices notices
  · exact h.control.of_same rfl rfl rfl fun _ => rfl
  · refine h.covered.of_same (fun _ => ⟨rfl, rfl, rfl⟩) id (.inl rfl) fun i host hhost hc => ?_
    have hhost' : K host := hK i host (h.hosts i ▸ hhost)
    exact hc.imp_left (hpresent _ hhost' (h.wf.hosts i host hhost).2).mpr
  · exact h.created
  · exact h.hosts
  · intro r hr hbits
    rw [hpresent r hr hbits, names_notices]
    exact h.entries r hr hbits
  · exact h.fresh

theorem kept_or_named {before named deleted added : Prop} (h : before → ¬ deleted) :
    ((before ∨ named) ∧ ¬ deleted) ∨ added ↔ before ∨ (named ∧ ¬ deleted) ∨ added := by
  tauto

theorem Traces.monitor (h : Traces base K config s)
    (hK : ∀ i, ∀ host ∈ webSocketServerHosts config i, K host) {a : Act}
    (hC : Untouched K s (.monitor () a)) (hstep : s.step (.monitor () a) = some t) :
    Traces base K config t := by
  obtain ⟨m', effect, hm, rfl⟩ := Sys.step_monitor hstep
  have hdelete (host : Prefix) : a ≠ .deleteRoute host false := by
    rintro rfl
    exact Bool.false_ne_true hC
  have hhosts : ∀ i, (m'.families i).hosts = ((s.monitors ()).families i).hosts :=
    hm.hosts.resolve_right fun hnew => h.created hnew.1
  have hnames (r : Route) := @HoldingMoves.names_iff _ _ _ _ r hm.holding h.wf h.created hdelete
  have hwf := h.wf.moves hm
  have hnew (r : Route) (hr : effect = .add r) : ¬ base r := by
    obtain ⟨i, host, hhost, rfl⟩ := (hnames r).mpr (.inr hr)
    have hhost := hwf.held i host hhost
    have hK : K host := hK i host (h.hosts i ▸ hhosts i ▸ hhost)
    subst hr
    obtain ⟨-, -, habsent⟩ := hm.nextRoute_of_add
    intro hbase
    exact of_decide_eq_false habsent ((h.entries _ hK (hwf.hosts i host hhost).2).mpr (.inl hbase))
  have hold (r : Route) (hr : base r) : effect ≠ .delete r := fun hdeleted =>
    h.fresh r (hm.holding.names_of_delete hdeleted) hr
  obtain ⟨notices, heq⟩ :=
    Sys.apply_monitors () effect { s with monitors := Function.update s.monitors () m' } ()
  dsimp only at heq
  rw [Function.update_self] at heq
  refine ⟨?_, ?_, ?_, ?_, ?_, ?_, ?_⟩
  all_goals rw [heq]
  · exact hwf.notices notices
  · exact (h.control.moves hm).of_same rfl rfl rfl fun _ => rfl
  · refine (h.covered.moves h.wf h.control hm (fun r => of_decide_eq_true)
      (fun r hr => ?_) (fun r hr => ?_) fun host hno => False.elim hno).of_same
      (fun _ => ⟨rfl, rfl, rfl⟩) id (.inl rfl) fun _ _ _ => id
    · by_cases hdeleted : effect = .delete r
      · exact .inr (.inr hdeleted)
      · exact .inl (Sys.present_apply.mpr (.inl ⟨hr, hdeleted⟩))
    · exact Sys.present_apply.mpr (.inr hr)
  · exact hm.created h.created
  · exact fun i => (hhosts i).trans (h.hosts i)
  · intro r hr hbits
    have hentries := h.entries r hr hbits
    have hpresent : (Sys.apply () { s with monitors := Function.update s.monitors () m' }
      effect).Present r ↔
      (s.Present r ∧ effect ≠ .delete r) ∨ effect = .add r := Sys.present_apply
    rw [hpresent, names_notices, hnames, hentries]
    exact kept_or_named (hold r)
  · intro r hr
    rcases (hnames r).mp hr with ⟨hold, -⟩ | hadded
    · exact h.fresh r hold
    · exact hnew r hadded

theorem Traces.step (h : Traces base K config s)
    (hK : ∀ i, ∀ host ∈ webSocketServerHosts config i, K host) {a : Action Unit}
    (hC : Untouched K s a) (hstep : s.step a = some t) : Traces base K config t := by
  cases a with
  | monitor k a => exact h.monitor hK hC hstep
  | setDefaults rows =>
    refine h.frame hK ?_ fun r _ hbits => Sys.present_setDefaults hstep hbits
    cases hstep
    exact Sys.notify_monitors _ _ _ ()
  | setInterfaces net =>
    cases hstep
    exact h.frame hK (Sys.notify_monitors _ _ _ ()) fun _ _ _ => Iff.rfl
  | foreignAdd r' =>
    obtain ⟨-, hstep⟩ := Option.ite_none_left_eq_some.mp hstep
    cases hstep
    refine h.frame hK ⟨_, rfl⟩ fun r hr _ => ?_
    rw [Sys.present_insert, or_iff_left]
    rintro rfl
    exact hC hr
  | foreignDelete r' =>
    obtain ⟨-, hstep⟩ := Option.ite_none_left_eq_some.mp hstep
    cases hstep
    refine h.frame hK (Sys.delete_monitors r' s ()) fun r hr _ => ?_
    rw [Sys.present_delete, and_iff_left]
    rintro rfl
    exact hC hr

theorem create_names (config : Config) (ourLUID : UInt64) (r : Route) :
    ¬ (Monitor.create config ourLUID).Names r := by
  rintro ⟨i, host, hhost, -⟩
  rw [holding_next rfl] at hhost
  exact absurd hhost List.not_mem_nil

theorem traces_created (table : List (ForwardRow Unit)) (net : Interfaces) (config : Config)
    (ourLUID : UInt64) :
    Traces (Sys.created table net config ourLUID).Present K config
      (Sys.created table net config ourLUID) where
  wf := .create config ourLUID
  control := .create config ourLUID
  covered := .create _ _ config ourLUID
  created := by simp [Sys.created, Monitor.create]
  hosts _ := rfl
  entries r _ _ := (or_iff_left (create_names config ourLUID r)).symm
  fresh r hr := absurd hr (create_names config ourLUID r)

theorem stage_gone (hcontrol : (s.monitors ()).Control) {as : List (Action Unit)}
    (hrun : exec Sys.step s as = some t)
    (hgone : (s.monitors ()).stage = .destroyed ∨ (s.monitors ()).stage = .failed) :
    (t.monitors ()).stage = .destroyed ∨ (t.monitors ()).stage = .failed := by
  have hinv := invariant (I := fun u : Sys Unit => (u.monitors ()).Control ∧
    ((u.monitors ()).stage = .destroyed ∨ (u.monitors ()).stage = .failed)) ?_
    ⟨hcontrol, hgone⟩ hrun
  · exact hinv.2
  · rintro u a v ⟨hcontrol, hgone⟩ hstep
    rcases Sys.step_cases hstep () with ⟨notices, heq⟩ | ⟨act, m', effect, notices, -, heq, hm⟩
    · rw [heq]
      exact ⟨hcontrol.of_same rfl rfl rfl fun _ => rfl, hgone⟩
    · rw [heq]
      exact ⟨(hcontrol.moves hm).of_same rfl rfl rfl fun _ =>
        rfl, (hm.gone hcontrol hgone).symm ▸ hgone⟩

theorem Traces.restored (h : Traces base K config s)
    (hgone : (s.monitors ()).stage = .destroyed ∨ (s.monitors ()).stage = .failed) {r : Route}
    (hr : K r.destination) (hbits : r.destination.bits ≠ 0) : s.Present r ↔ base r := by
  obtain ⟨hidle, hempty⟩ := h.control.gone hgone
  rw [h.entries r hr hbits, or_iff_left]
  rintro ⟨i, host, hhost, -⟩
  rw [holding_none hidle, hempty i] at hhost
  exact List.not_mem_nil hhost

theorem Traces.through_gateway (h : Traces base K config s)
    (hK : ∀ i, ∀ host ∈ webSocketServerHosts config i, K host) (hkeeping : (s.monitors ()).Keeping)
    {i : AddressFamily} (hcomplete : ((s.monitors ()).families i).incomplete = false) {r : Route}
    (hr : s.Present r) (hhost : r.destination ∈ webSocketServerHosts config i) :
    base r ∨ ∃ host, r = ((s.monitors ()).families i).gateway.route host := by
  have hhost' := h.hosts i ▸ hhost
  refine ((h.entries r (hK i _ hhost) (h.wf.hosts i _ hhost').2).mp hr).imp_right ?_
  rintro ⟨j, host, hheld, rfl⟩
  obtain rfl : j = i := (h.wf.hosts j host (h.wf.held j host hheld)).eq (h.wf.hosts i host hhost')
  refine ⟨host, ?_⟩
  have hholding : (s.monitors ()).holding j =
      (((s.monitors ()).families j).gateway, ((s.monitors ()).families j).owned) := by
    cases hw : (s.monitors ()).work with
    | none => exact holding_none hw j
    | some w =>
      obtain ⟨removing, todo, pos, moved, failed⟩ := w
      cases pos with
      | next => exact holding_next hw j
      | adding k left => exact holding_adding hw j
      | deleting k previous left =>
        rw [holding_deleting hw, if_neg]
        rintro rfl
        cases removing with
        | true => exact keeping_of_removing hw hkeeping
        | false => cases (h.covered.busyDeleting _ _ _ _ _ _ hw).symm.trans hcomplete
  rw [hholding]

end

/-- A monitor whose hosts nobody else touches leaves the table as it was: at its end, and at any
time after it, the entries are those from before; until then a complete family has all its routes,
through its gateway, and no others. -/
theorem monitor_leaves_no_trace (table : List (ForwardRow Unit)) (net : Interfaces)
    (config : Config) (ourLUID : UInt64) {K : Prefix → Prop}
    (hK : ∀ i, ∀ host ∈ webSocketServerHosts config i, K host) {before after : List (Action Unit)}
    (hC : Along Sys.step (Untouched K) (Sys.created table net config ourLUID) (before ++ after))
    {s t : Sys Unit} (hs : exec Sys.step (Sys.created table net config ourLUID) before = some s)
    (ht : exec Sys.step s after = some t) :
    ((s.monitors ()).stage = .destroyed ∨ (s.monitors ()).stage = .failed →
      ∀ r, K r.destination → r.destination.bits ≠ 0 →
      (t.Present r ↔ ∃ row ∈ table, row.route = r)) ∧
    ((t.monitors ()).Keeping → ∀ i, ((t.monitors ()).families i).incomplete = false →
      ((t.monitors ()).families i).gateway.luid ≠ 0 →
        (∀ host ∈ webSocketServerHosts config i,
          t.Present (((t.monitors ()).families i).gateway.route host)) ∧
        ∀ r, t.Present r → r.destination ∈ webSocketServerHosts config i →
          (∃ row ∈ table, row.route = r) ∨
          ∃ host, r = ((t.monitors ()).families i).gateway.route host) := by
  have hkeeps (u : Sys Unit) (a : Action Unit) (v : Sys Unit)
      (hu : Traces (Sys.created table net config ourLUID).Present K config u) (hc : Untouched K u a)
      (hv : u.step a = some v) : Traces (Sys.created table net config ourLUID).Present K config v :=
        hu.step hK hc hv
  obtain ⟨hbefore, hafter⟩ := along_append hC hs
  have htraces := invariant_along hkeeps (traces_created table net config ourLUID) hbefore hs
  have hlater := invariant_along hkeeps htraces hafter ht
  refine ⟨fun hgone r hr hbits => hlater.restored (stage_gone htraces.control ht hgone) hr hbits,
    ?_⟩
  intro hkeeping i hcomplete hluid
  refine ⟨fun host hhost => ?_, fun r hr hhost =>
    hlater.through_gateway hK hkeeping hcomplete hr hhost⟩
  exact (hlater.covered.complete hkeeping i hcomplete hluid host
    (hlater.hosts i ▸ hhost)).resolve_right id

def removal : List Act :=
  destruction ++ [.deleteRoute serverHost true, .advance, .advance, .advance, .finish fun _ => true]

theorem monitor_leaves_no_trace_server : ∃ s t u,
    exec Sys.step (Sys.created [defaultRow 5] allUp serverConfig 1)
      (construction.tail.map (.monitor ())) = some s ∧
    s.Present serverRoute ∧ exec Sys.step s (removal.map (.monitor ())) = some t ∧
    (t.monitors ()).stage = .destroyed ∧ exec Sys.step t [.setDefaults [defaultRow 7]] = some u ∧
    ∀ r : Route, r.destination.bits ≠ 0 →
      (u.Present r ↔ ∃ row ∈ [defaultRow 5], row.route = r) := by
  have hfacts : ((exec Sys.step (Sys.created [defaultRow 5] allUp serverConfig 1)
    (construction.tail.map (.monitor ()))).bind
      fun s => (exec Sys.step s (removal.map (.monitor ()))).map fun t =>
        (decide (s.Present serverRoute), (t.monitors ()).stage)) =
      some (true, .destroyed) := by
    decide +kernel
  obtain ⟨s, hs, hfacts⟩ := Option.bind_eq_some_iff.mp hfacts
  obtain ⟨t, ht, heq⟩ := Option.map_eq_some_iff.mp hfacts
  rw [Prod.mk.injEq, decide_eq_true_eq] at heq
  have hC : Along Sys.step (Untouched fun _ => True)
    (Sys.created [defaultRow 5] allUp serverConfig 1)
      ((construction.tail.map (.monitor ()) ++ removal.map (.monitor ())) ++
        [.setDefaults [defaultRow 7]]) := by
    refine along_of_forall (fun a ha u => ?_) _
    rw [← List.map_append, List.mem_append, List.mem_singleton] at ha
    obtain ha | rfl := ha
    · obtain ⟨act, hact, rfl⟩ := List.mem_map.mp ha
      cases act with
      | deleteRoute host succeeds =>
        simp [construction, removal, destruction] at hact
        exact hact.2
      | _ => trivial
    · trivial
  have hrun : exec Sys.step (Sys.created [defaultRow 5] allUp serverConfig 1)
      (construction.tail.map (.monitor ()) ++ removal.map (.monitor ())) = some t := by
    rw [exec_append, hs]
    exact ht
  refine ⟨s, t, _, hs, heq.1, ht, heq.2, rfl, fun r hbits => ?_⟩
  have hgone := (monitor_leaves_no_trace [defaultRow 5] allUp serverConfig 1
    (fun _ _ _ => trivial) hC hrun rfl).1 (.inl heq.2)
  exact hgone r trivial hbits

end WireGuardWindows.Tunnel.RouteMonitor
