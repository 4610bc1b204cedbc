import WireGuardWindows.Tunnel.RouteCoverage

/-!
# Following the default route

A monitor reads the default gateways when it is created, and again in every update. After a
change of the default routes an update is on its way, from the callback over the timer to the
mutex (`Pending`). That holds only for a change that a callback is told of, and an update that
finds the callbacks set: `newDefaultRouteMonitor` and `start` leave a time in which neither is
the case.
-/

namespace WireGuardWindows.Tunnel.RouteMonitor
open GoStd Netip Conf Systems

section
variable {ι : Type} {s t : Sys ι}

theorem better_of_bits {net : Interfaces} {family : AddressFamily} {ourLUID : UInt64}
    {best : UInt64 × DefaultGateway} {row : ForwardRow ι} (h : row.route.destination.bits ≠ 0) :
    better net family ourLUID best row = best := by
  rw [better, combinedMetric, if_pos (.inl h)]

theorem findDefaultGateway_defaults (table : List (ForwardRow ι)) (net : Interfaces)
    (family : AddressFamily) (ourLUID : UInt64) :
    findDefaultGateway table net family ourLUID =
      findDefaultGateway (table.filter fun row =>
        row.route.destination.bits = 0) net family ourLUID := by
  have hloop (rows : List (ForwardRow ι)) (best : UInt64 × DefaultGateway) :
      (rows.filter fun row => row.ofFamily family).foldl (better net family ourLUID) best =
        ((rows.filter fun row => row.route.destination.bits = 0).filter fun row =>
          row.ofFamily family).foldl
          (better net family ourLUID) best := by
    induction rows generalizing best with
    | nil => rfl
    | cons row rows ih =>
      by_cases hbits : row.route.destination.bits = 0
      · by_cases hfamily : row.ofFamily family = true
        · simp [hbits, hfamily, ih]
        · simp [hbits, hfamily, ih]
      · by_cases hfamily : row.ofFamily family = true
        · simp [hbits, hfamily, better_of_bits hbits, ih]
        · simp [hbits, hfamily, ih]
  exact congrArg Prod.snd (hloop table _)

theorem defaultGateway_insert {r : Route} (hbits : r.destination.bits ≠ 0)
    (addedBy : Option ι) (k : ι) (family : AddressFamily) :
    (s.insert r addedBy).defaultGateway k family = s.defaultGateway k family := by
  rw [Sys.defaultGateway, Sys.defaultGateway, findDefaultGateway_defaults,
    findDefaultGateway_defaults s.table]
  simp [Sys.insert, List.filter_append, hbits]

theorem delete_net (r : Route) (s : Sys ι) : (s.delete r).net = s.net := by
  rw [Sys.delete]
  split_ifs <;> rfl

theorem defaultGateway_delete {r : Route} (hbits : r.destination.bits ≠ 0) (k : ι)
    (family : AddressFamily) :
    (s.delete r).defaultGateway k family = s.defaultGateway k family := by
  obtain ⟨notices, heq⟩ := s.delete_monitors r k
  rw [Sys.defaultGateway, Sys.defaultGateway, findDefaultGateway_defaults,
    findDefaultGateway_defaults s.table, heq, delete_net, Sys.delete_table, List.filter_filter]
  congr 1
  refine List.filter_congr fun row _ => ?_
  by_cases hdefault : row.route.destination.bits = 0
  · have hne : row.route ≠ r := fun heq => hbits (heq ▸ hdefault)
    simp [hdefault, hne]
  · simp [hdefault]

end

def Stage.listening (stage : Stage) : Prop :=
  stage = .routeRegistered ∨ stage = .registered ∨ stage = .started

instance (stage : Stage) : Decidable stage.listening := inferInstanceAs (Decidable (_ ∨ _ ∨ _))

def Monitor.Pending (m : Monitor) (i : AddressFamily) : Prop :=
  Notice.route ∈ m.notices ∨ Notice.interface ∈ m.notices ∨ m.timer = true ∨ m.fired ≠ 0 ∨
  m.updates ≠ 0 ∨
    ∃ removing todo pos moved failed, m.work = some ⟨removing, todo, pos, moved, failed⟩ ∧ i ∈ todo

/-- `cur` are the default gateways outside the tunnel. -/
structure Follows (cur : AddressFamily → DefaultGateway) (m : Monitor) : Prop where
  control : m.Control
  callbacks : m.stage = .started → m.callbacks = true
  route : m.stage.listening → m.routeCallback = true
  interface : m.stage = .registered ∨ m.stage = .started → m.interfaceCallback = true
  looked : m.stage = .constructing → ∀ todo pos moved failed, m.work =
    some ⟨false, todo, pos, moved, failed⟩ →
    ∀ i, i ∉ todo → (m.families i).gateway = cur i
  settled : m.stage = .built ∨ m.stage = .pinned → ∀ i, (m.families i).gateway = cur i
  pending : m.stage.listening → ∀ i, (m.families i).gateway = cur i ∨ m.Pending i
  bound : m.stage = .pinned ∨ m.stage.listening → m.work = none → ∀ i, m.bound i =
    some (Monitor.socket (m.families i))

section
variable {cur cur' answer : AddressFamily → DefaultGateway} {present : Route → Bool}
  {m m' : Monitor} {a : Act} {effect : Effect}

theorem Monitor.Pending.of_work {i : AddressFamily} (h : m.Pending i) (m' : Monitor)
    {removing todo pos moved failed} (hw : m.work = some ⟨removing, todo, pos, moved, failed⟩)
    (hevents : m'.notices = m.notices ∧ m'.timer = m.timer ∧ m'.fired = m.fired ∧
      m'.updates = m.updates) : m'.Pending i ∨ i ∈ todo := by
  obtain ⟨hnotices, htimer, hfired, hupdates⟩ := hevents
  rw [Monitor.Pending, hnotices, htimer, hfired, hupdates]
  rcases h with h | h | h | h | h | ⟨_, _, _, _, _, h, hi⟩
  · exact .inl (.inl h)
  · exact .inl (.inr (.inl h))
  · exact .inl (.inr (.inr (.inl h)))
  · exact .inl (.inr (.inr (.inr (.inl h))))
  · exact .inl (.inr (.inr (.inr (.inr (.inl h)))))
  · cases hw.symm.trans h
    exact .inr hi

theorem Monitor.pending_of_todo {i : AddressFamily} {removing todo pos moved failed}
    (hw : m.work = some ⟨removing, todo, pos, moved, failed⟩) (hi : i ∈ todo) : m.Pending i :=
  .inr (.inr (.inr (.inr (.inr ⟨_, _, _, _, _, hw, hi⟩))))

theorem Follows.of_stage (hcontrol : m'.Control)
    (hquiet : ¬ m'.stage.listening ∧ m'.stage ≠ .built ∧ m'.stage ≠ .pinned)
    (hlooked : m'.stage = .constructing → ∀ todo pos moved failed,
      m'.work = some ⟨false, todo, pos, moved, failed⟩ → ∀ i, i ∈ todo) : Follows cur m' where
  control := hcontrol
  callbacks h := absurd (.inr (.inr h)) hquiet.1
  route h := absurd h hquiet.1
  interface h := absurd (.inr h) hquiet.1
  looked hstage _ _ _ _ hw i hi := absurd (hlooked hstage _ _ _ _ hw i) hi
  settled h := absurd h (not_or.mpr hquiet.2)
  pending h := absurd h hquiet.1
  bound h := absurd h (not_or.mpr ⟨hquiet.2.2, hquiet.1⟩)

theorem Follows.to_stage (hcontrol : m'.Control) (stage : Stage) (hstage : m'.stage = stage)
    (hne : stage ≠ .constructing) (hcallbacks : stage = .started → m'.callbacks = true)
    (hroute : stage.listening → m'.routeCallback = true)
    (hinterface : stage = .registered ∨ stage = .started → m'.interfaceCallback = true)
    (hsettled : stage = .built ∨ stage = .pinned → ∀ i, (m'.families i).gateway = cur i)
    (hpending : stage.listening → ∀ i, (m'.families i).gateway = cur i ∨ m'.Pending i)
    (hbound : stage = .pinned ∨ stage.listening →
      ∀ i, m'.bound i = some (Monitor.socket (m'.families i))) : Follows cur m' := by
  subst hstage
  exact {
    control := hcontrol
    callbacks := hcallbacks
    route := hroute
    interface := hinterface
    looked := fun h => absurd h hne
    settled := hsettled
    pending := hpending
    bound := fun h _ => hbound h }

theorem Follows.of_update (hm : Follows cur m) (hcontrol : m'.Control)
    {todo pos moved failed todo' pos' moved' failed'}
    (hw : m.work = some ⟨false, todo, pos, moved, failed⟩)
    (hw' : m'.work = some ⟨false, todo', pos', moved', failed'⟩)
    (hrest : ∃ families work, m' = { m with families := families, work := work })
    (hgateway : ∀ i, (m'.families i).gateway = (m.families i).gateway ∨
      (m'.families i).gateway = cur i)
    (htodo : ∀ i ∈ todo, i ∈ todo' ∨ (m'.families i).gateway = cur i) : Follows cur m' := by
  have hkept (i : AddressFamily) (h : (m.families i).gateway = cur i) : (m'.families i).gateway =
      cur i :=
    (hgateway i).elim (fun hsame => hsame.trans h) id
  obtain ⟨families, work, rfl⟩ := hrest
  exact {
    control := hcontrol
    callbacks := hm.callbacks
    route := hm.route
    interface := hm.interface
    looked := fun hstage _ _ _ _ h i hi => by
      cases hw'.symm.trans h
      by_cases hi' : i ∈ todo
      · exact (htodo i hi').resolve_left hi
      · exact hkept i (hm.looked hstage _ _ _ _ hw i hi')
    settled := fun h i => hkept i (hm.settled h i)
    pending := fun h i => by
      rcases hm.pending h i with h | h
      · exact .inl (hkept i h)
      · rcases h.of_work { m with families := families, work := work } hw
          ⟨rfl, rfl, rfl, rfl⟩ with h | hi
        · exact .inr h
        · exact (htodo i hi).symm.imp_right (Monitor.pending_of_todo hw')
    bound := fun _ h => by cases hw'.symm.trans h }

theorem Follows.of_removal (hm : Follows cur m) (hcontrol : m'.Control)
    {todo pos moved failed todo' pos' moved' failed'}
    (hw : m.work = some ⟨true, todo, pos, moved, failed⟩)
    (hw' : m'.work = some ⟨true, todo', pos', moved', failed'⟩) (hstage : m'.stage = m.stage) :
    Follows cur m' := by
  rcases hm.control.removing _ _ _ _ hw with h | h
  · refine .of_stage hcontrol ?_ fun _ _ _ _ _ hwork => by cases hw'.symm.trans hwork
    rw [hstage, h]
    decide
  · refine .of_stage hcontrol ?_ fun hs => ?_
    · rw [hstage, h]
      decide
    · cases h.symm.trans (hstage.symm.trans hs)

theorem Follows.of_event (hm : Follows cur m) (hcontrol : m'.Control) (hstage : m'.stage = m.stage)
    (hcallbacks : m'.callbacks = m.callbacks ∧ m'.routeCallback = m.routeCallback ∧
      m'.interfaceCallback = m.interfaceCallback ∧ m'.bound = m.bound)
    (hfamilies : ∀ i, (m'.families i).gateway = (m.families i).gateway ∧ (m'.families i).blackhole =
      (m.families i).blackhole)
    (hwork : m'.work = m.work ∨ m.stage ≠ .constructing ∧ m'.work ≠ none)
    (hpending : m.stage.listening → ∀ i, m.Pending i → m'.Pending i) : Follows cur m' where
  control := hcontrol
  callbacks h := hcallbacks.1 ▸ hm.callbacks (hstage ▸ h)
  route h := hcallbacks.2.1 ▸ hm.route (hstage ▸ h)
  interface h := hcallbacks.2.2.1 ▸ hm.interface (hstage ▸ h)
  looked h todo pos moved failed hw i hi := by
    rw [(hfamilies i).1]
    rw [hstage] at h
    exact hm.looked h _ _ _ _ (hwork.resolve_right (fun hne => hne.1 h) ▸ hw) i hi
  settled h i := (hfamilies i).1.trans (hm.settled (hstage ▸ h) i)
  pending h i := by
    rw [hstage] at h
    exact (hm.pending h i).imp ((hfamilies i).1.trans) (hpending h i)
  bound h hw i := by
    rw [hstage] at h
    rw [hcallbacks.2.2.2, hm.bound h (hwork.resolve_right (fun hne => hne.2 hw) ▸ hw) i,
      Monitor.socket, Monitor.socket, (hfamilies i).1, (hfamilies i).2]

def Act.Succeeds : Act → Prop
  | .lookup found => found = true
  | .addRoute fails => fails = false
  | .finish binds => ∀ i, binds i = true
  | _ => True

theorem pending_of_bump (late : Bool) (m : Monitor) (i : AddressFamily) :
    (m.bump late).Pending i := by
  rw [Monitor.bump]
  split_ifs
  · exact .inr (.inr (.inr (.inr (.inl (Nat.succ_ne_zero _)))))
  · exact .inr (.inr (.inl rfl))
  · exact .inr (.inr (.inl rfl))

theorem bump_callbacks (late : Bool) (m : Monitor) : (m.bump late).routeCallback = m.routeCallback ∧
    (m.bump late).interfaceCallback = m.interfaceCallback ∧ (m.bump late).bound = m.bound := by
  rw [Monitor.bump]
  split_ifs <;> exact ⟨rfl, rfl, rfl⟩

theorem pending_of_notices {notices : List Notice}
    (h : ∀ notice, (∀ d, notice ≠ .deleted d) → notice ∈ m.notices → notice ∈ notices)
    {i : AddressFamily} (hm : m.Pending i) : { m with notices := notices }.Pending i := by
  rcases hm with hm | hm | hm
  · exact .inl (h _ (fun _ heq => by cases heq) hm)
  · exact .inr (.inl (h _ (fun _ heq => by cases heq) hm))
  · exact .inr (.inr hm)

theorem pinSockets_bound {binds : AddressFamily → Bool} (h : ∀ i, binds i = true) (m : Monitor)
    (i : AddressFamily) :
    (Monitor.pinSockets binds m).bound i = some (Monitor.socket (m.families i)) := by
  simp [Monitor.pinSockets, h]

theorem setFamily_gateway {i : AddressFamily} {f : DefaultRouteFamily} {w : Work}
    (h : f.gateway = (m.families i).gateway) (j : AddressFamily) :
    (((m.setFamily i f).working w).families j).gateway = (m.families j).gateway := by
  rw [Monitor.working, setFamily_families]
  split_ifs with hj
  · rw [hj, h]
  · rfl

theorem follows_create (cur : AddressFamily → DefaultGateway) (config : Config) (ourLUID : UInt64) :
    Follows cur (Monitor.create config ourLUID) := by
  refine .of_stage (.create config ourLUID) (by simp [Monitor.create, Stage.listening])
    fun _ _ _ _ _ h i => ?_
  cases h
  cases i <;> decide

theorem follows_absent (cur : AddressFamily → DefaultGateway) : Follows cur {} :=
  .of_stage (.of_idle rfl (fun h => by cases h) fun _ _ => rfl) (by decide) fun h => by cases h

theorem Follows.lookup {i todo moved failed pos} (hm : Follows cur m)
    (hw : m.work = some ⟨false, i :: todo, .next, moved, failed⟩) {moved' : Bool}
    (hcontrol : ((m.setFamily i { m.families i with gateway := cur i, incomplete := true }).working
      ⟨false, todo, pos, moved', failed⟩).Control) :
    Follows cur ((m.setFamily i { m.families i with
      gateway := cur i, incomplete := true }).working ⟨false, todo, pos, moved', failed⟩) := by
  refine hm.of_update hcontrol hw rfl ⟨_, _, rfl⟩ (fun j => ?_) fun j hj => ?_
  all_goals rw [Monitor.working, setFamily_families]
  · split_ifs with h
    · exact .inr (h ▸ rfl)
    · exact .inl rfl
  · split_ifs with h
    · exact .inr (h ▸ rfl)
    · exact .inl ((List.mem_cons.mp hj).resolve_left h)

theorem Follows.moves (hm : Follows cur m) (h : Moves cur present m a m' effect)
    (hsucceeds : a.Succeeds)
    (hupdate : a = .update → m.stage ≠ .routeRegistered ∧ m.stage ≠ .registered) :
    Follows cur m' := by
  have hcontrol := hm.control.moves h
  cases h with
  | lookupError hw | addFails hw => cases hsucceeds
  | @lookupSame i todo moved failed hw hgateway =>
    refine hm.of_update hcontrol hw rfl ⟨_, _, rfl⟩ (fun j => .inl rfl) fun j hj => ?_
    rcases List.mem_cons.mp hj with rfl | hj
    · exact .inr hgateway
    · exact .inl hj
  | lookupMoved hw | lookupAgain hw => exact hm.lookup hw hcontrol
  | @deleteRoute removing todo i previous left moved failed host succeeds hw =>
    cases removing with
    | false => exact hm.of_update hcontrol hw rfl ⟨_, _, rfl⟩ (fun j => .inl rfl) fun j => .inl
    | true => exact hm.of_removal hcontrol hw rfl rfl
  | addExists _ hw | addSkipped hw =>
    obtain rfl := hm.control.adding hw
    exact hm.of_update hcontrol hw rfl ⟨_, _, rfl⟩ (fun j => .inl rfl) fun j => .inl
  | added hw | addedAll hw =>
    obtain rfl := hm.control.adding hw
    exact hm.of_update hcontrol hw rfl ⟨_, _, rfl⟩ (fun j => .inl (setFamily_gateway (by rfl) j))
      fun j => .inl
  | removeNext hw | removedAll hw => exact hm.of_removal hcontrol hw rfl rfl
  | deletedAll hw =>
    exact hm.of_update hcontrol hw rfl ⟨_, _, rfl⟩ (fun j => .inl (setFamily_gateway (by rfl) j))
      fun j => .inl
  | reject binds hw hstage =>
    refine .of_stage hcontrol ?_ fun _ _ _ _ _ h => by cases h
    rw [Monitor.working, hstage]
    decide
  | constructed binds hw hstage =>
    have hlooked (i : AddressFamily) := hm.looked hstage _ _ _ _ hw i List.not_mem_nil
    exact .to_stage hcontrol .built rfl (by decide) (fun h => by cases h)
      (fun h => absurd h (by decide)) (fun h => absurd h (by decide)) (fun _ => hlooked)
      (fun h => absurd h (by decide)) fun h => absurd h (by decide)
  | @updated removing moved failed binds hw hconstructing hremoving =>
    exact {
      control := hcontrol
      callbacks := hm.callbacks
      route := hm.route
      interface := hm.interface
      looked := fun h => absurd h hconstructing
      settled := hm.settled
      pending := fun h i => (hm.pending h i).imp_right fun h =>
        Or.resolve_right (h.of_work _ hw ⟨rfl, rfl, rfl, rfl⟩) List.not_mem_nil
      bound := fun _ _ i => pinSockets_bound hsucceeds _ i }
  | @hostDeleted destination i late hmem hw =>
    refine hm.of_event hcontrol rfl ⟨rfl, rfl, rfl, rfl⟩ (fun j => ?_) (.inl rfl) fun _ j _ => ?_
    · dsimp only
      rw [setFamily_families]
      split_ifs with hj
      · rw [hj]
        exact ⟨rfl, rfl⟩
      · exact ⟨rfl, rfl⟩
    · exact .inl (List.mem_append_right _ List.mem_cons_self)
  | otherDeleted late hmem hw =>
    refine hm.of_event hcontrol rfl ⟨rfl, rfl, rfl, rfl⟩ (fun j => ⟨rfl, rfl⟩) (.inl rfl)
      fun _ j => ?_
    exact pending_of_notices fun notice hnotice hmem => (List.mem_erase_of_ne (hnotice _)).mpr hmem
  | @bump notice late hmem hnotice =>
    obtain ⟨hfamilies, hwork⟩ := bump_frame late { m with notices := m.notices.erase notice }
    obtain ⟨hstage, hcallbacks⟩ := bump_stage late { m with notices := m.notices.erase notice }
    refine hm.of_event hcontrol hstage ⟨hcallbacks, bump_callbacks late _⟩ (fun j => ?_)
      (.inl hwork) fun _ j _ => pending_of_bump late _ j
    rw [hfamilies]
    exact ⟨rfl, rfl⟩
  | fire htimer =>
    exact hm.of_event hcontrol rfl ⟨rfl, rfl, rfl, rfl⟩ (fun j => ⟨rfl, rfl⟩) (.inl rfl)
      fun _ j _ => .inr (.inr (.inr (.inl (Nat.succ_ne_zero _))))
  | burst hfired =>
    exact hm.of_event hcontrol rfl ⟨rfl, rfl, rfl, rfl⟩ (fun j => ⟨rfl, rfl⟩) (.inl rfl)
      fun _ j _ => .inr (.inr (.inr (.inr (.inl (Nat.succ_ne_zero _)))))
  | update hupdates hw hcallbacks =>
    have hstarted := hm.control.callbacks hcallbacks
    exact hm.of_event hcontrol rfl ⟨rfl, rfl, rfl, rfl⟩ (fun j => ⟨rfl, rfl⟩)
      (.inr ⟨by rw [hstarted]; decide, by simp⟩)
      fun _ j _ => Monitor.pending_of_todo rfl (by cases j <;> decide)
  | updateVoid hupdates hw hcallbacks =>
    obtain ⟨hroute, hregistered⟩ := hupdate rfl
    refine hm.of_event hcontrol rfl ⟨rfl, rfl, rfl, rfl⟩ (fun j => ⟨rfl, rfl⟩) (.inl rfl)
      fun h j _ => ?_
    rcases h with h | h | h
    · exact absurd h hroute
    · exact absurd h hregistered
    · cases hcallbacks.symm.trans (hm.callbacks h)
  | new config ourLUID => exact follows_create cur config ourLUID
  | pin ok hstage hw =>
    by_cases hok : (ok .inet && ok .inet6) = true
    · have hok' : ∀ i, ok i = true := by
        rw [Bool.and_eq_true] at hok
        intro i
        cases i with
        | inet => exact hok.1
        | inet6 => exact hok.2
      exact .to_stage hcontrol .pinned (if_pos hok) (by decide) (fun h => by cases h)
        (fun h => absurd h (by decide)) (fun h => absurd h (by decide))
        (fun _ => hm.settled (.inl hstage)) (fun h => absurd h (by decide))
        fun _ => pinSockets_bound hok' m
    · exact .of_stage hcontrol (by simp [Stage.listening, hok]) fun h => by simp [hok] at h
  | registerRoute ok hstage =>
    obtain ⟨hw, -⟩ := hm.control.serving hstage (by decide)
    exact .to_stage hcontrol .routeRegistered rfl (by decide) (fun h => by cases h) (fun _ => rfl)
      (fun h => absurd h (by decide)) (fun h => absurd h (by decide))
      (fun _ i => .inl (hm.settled (.inr hstage) i)) fun _ => hm.bound (.inl hstage) hw
  | registerInterface ok hstage =>
    obtain ⟨hw, -⟩ := hm.control.serving hstage (by decide)
    have hlistening : m.stage.listening := .inl hstage
    exact .to_stage hcontrol .registered rfl (by decide) (fun h => by cases h)
      (fun _ => hm.route hlistening) (fun _ => rfl) (fun h => absurd h (by decide))
      (fun _ => hm.pending hlistening) fun _ => hm.bound (.inr hlistening) hw
  | setCallbacks ok hstage hw =>
    have hlistening : m.stage.listening := .inr (.inl hstage)
    exact .to_stage hcontrol .started rfl (by decide) (fun _ => rfl) (fun _ => hm.route hlistening)
      (fun _ => hm.interface (.inl hstage)) (fun h => absurd h (by decide))
      (fun _ => hm.pending hlistening) fun _ => hm.bound (.inr hlistening) hw
  | _ => exact .of_stage hcontrol (by simp [Stage.listening]) fun h => by cases h

def Monitor.HasRead (m : Monitor) (i : AddressFamily) : Prop :=
  ∀ removing todo pos moved failed, m.work = some ⟨removing, todo, pos, moved, failed⟩ → i ∉ todo

theorem Follows.change (hm : Follows cur m) {notices : List Notice} (hnotices : m.notices ⊆ notices)
    (hread : m.stage = .constructing ∨ m.stage = .built ∨ m.stage = .pinned → ∀ i, m.HasRead i →
      cur' i = cur i)
    (htold : m.stage.listening → (∀ i, cur' i = cur i) ∨ ∀ i,
      { m with notices := notices }.Pending i) :
    Follows cur' { m with notices := notices } where
  control := hm.control.of_same rfl rfl rfl fun _ => rfl
  callbacks := hm.callbacks
  route := hm.route
  interface := hm.interface
  looked h todo pos moved failed hw i hi := by
    rw [hread (.inl h) i, hm.looked h _ _ _ _ hw i hi]
    intro _ _ _ _ _ hw'
    cases hw.symm.trans hw'
    exact hi
  settled h i := by
    have hidle : m.work = none := by
      rcases h with h | h
      · exact (hm.control.serving h (by decide)).1
      · exact (hm.control.serving h (by decide)).1
    rw [hread (.inr h) i, hm.settled h i]
    intro _ _ _ _ _ hw
    cases hidle.symm.trans hw
  pending h i := by
    rcases htold h with hsame | hpending
    · rw [hsame i]
      exact (hm.pending h i).imp_right (pending_of_notices fun notice _ hmem => hnotices hmem)
    · exact .inr (hpending i)
  bound := hm.bound

end

section
variable {ι : Type} [DecidableEq ι] {s t : Sys ι} {k : ι}

def Assumed (k : ι) (_ : Sys ι) : Action ι → Prop
  | .monitor k' a => k' = k → a.Succeeds
  | _ => True

def SameGateways (k : ι) (s : Sys ι) (a : Action ι) : Prop :=
  ∀ t, s.step a = some t → ∀ i, (s.monitors k).HasRead i → t.defaultGateway k i =
    s.defaultGateway k i

/-- The default gateway does not change between its first lookup and the registration of the
callback that would be told, and no update comes between that and the end of `start`. -/
def Seen (k : ι) (s : Sys ι) : Action ι → Prop
  | .monitor k' .update => k' = k → (s.monitors k).stage ≠ .routeRegistered ∧
  (s.monitors k).stage ≠ .registered
  | .setDefaults rows =>
    (s.monitors k).stage = .constructing ∨ (s.monitors k).stage = .built ∨
    (s.monitors k).stage = .pinned →
      SameGateways k s (.setDefaults rows)
  | .setInterfaces net =>
    ((s.monitors k).stage = .constructing ∨ (s.monitors k).stage = .built ∨
      (s.monitors k).stage = .pinned ∨
      (s.monitors k).stage = .routeRegistered) → SameGateways k s (.setInterfaces net)
  | _ => True

theorem Moves.effect_bits {answer : AddressFamily → DefaultGateway} {present : Route → Bool}
    {m m' : Monitor} {a : Act} {effect : Effect} (h : Moves answer present m a m' effect)
    (hm : m.WF) {r : Route} (hr : effect = .add r ∨ effect = .delete r) :
    r.destination.bits ≠ 0 := by
  rcases hr with hr | hr
  · exact (hm.moves h).bits_ne_zero (h.holding.names_added hr)
  · exact hm.bits_ne_zero (h.holding.names_of_delete hr)

theorem Moves.ourLUID {answer : AddressFamily → DefaultGateway} {present : Route → Bool}
    {m m' : Monitor} {a : Act} {effect : Effect} (h : Moves answer present m a m' effect) :
    m'.ourLUID = m.ourLUID ∨ ∃ config ourLUID, m' = .create config ourLUID := by
  cases h with
  | new config ourLUID => exact .inr ⟨config, ourLUID, rfl⟩
  | bump late =>
    rw [Monitor.bump]
    split_ifs <;> exact .inl rfl
  | _ => exact .inl rfl

theorem defaultGateway_apply {k' : ι} {m' : Monitor} {effect : Effect}
    (hbits : ∀ r, effect = .add r ∨ effect = .delete r → r.destination.bits ≠ 0)
    (hluid : (Function.update s.monitors k' m' k).ourLUID = (s.monitors k).ourLUID) :
    (Sys.apply k' { s with monitors := Function.update s.monitors k' m' } effect).defaultGateway k =
      s.defaultGateway k := by
  funext i
  have hupdated : Sys.defaultGateway { s with monitors := Function.update s.monitors k' m' } k i =
      s.defaultGateway k i := by
    rw [Sys.defaultGateway, Sys.defaultGateway, hluid]
  cases effect with
  | none => exact hupdated
  | add r =>
    rw [Sys.apply, defaultGateway_insert (hbits r (.inl rfl))]
    exact hupdated
  | delete r =>
    rw [Sys.apply, defaultGateway_delete (hbits r (.inr rfl))]
    exact hupdated

theorem Follows.step (hwf : ∀ k, (s.monitors k).WF)
    (h : Follows (s.defaultGateway k) (s.monitors k)) {a : Action ι} (hassumed : Assumed k s a)
    (hseen : Seen k s a) (hstep : s.step a = some t) :
    Follows (t.defaultGateway k) (t.monitors k) := by
  cases a with
  | monitor k' a =>
    obtain ⟨m', effect, hm, rfl⟩ := Sys.step_monitor hstep
    have hbits (r : Route) := @Moves.effect_bits _ _ _ _ _ _ hm (hwf k') r
    obtain ⟨notices, heq, hsub⟩ :=
      Sys.notices_apply k' effect { s with monitors := Function.update s.monitors k' m' } k
    dsimp only at heq hsub
    rw [heq]
    by_cases hk : k = k'
    · subst hk
      rw [Function.update_self] at hsub ⊢
      rcases hm.ourLUID with hluid | ⟨config, ourLUID, rfl⟩
      · rw [defaultGateway_apply hbits (by rw [Function.update_self, hluid])]
        have hupdate (ha : a = .update) : (s.monitors k).stage ≠ .routeRegistered ∧
            (s.monitors k).stage ≠ .registered := by
          subst ha
          exact hseen rfl
        exact (h.moves hm (hassumed rfl) hupdate).change hsub (fun _ _ _ => rfl) fun _ =>
          .inl fun _ => rfl
      · exact (follows_create _ config ourLUID).change hsub (fun _ _ _ => rfl) fun _ =>
          .inl fun _ => rfl
    · rw [Function.update_of_ne hk] at hsub ⊢
      rw [defaultGateway_apply hbits (by rw [Function.update_of_ne hk])]
      exact h.change hsub (fun _ _ _ => rfl) fun _ => .inl fun _ => rfl
  | setDefaults rows =>
    have hsame := fun hstage => hseen hstage t hstep
    cases hstep
    obtain ⟨notices, heq, hsub, hnotice⟩ := Sys.notices_notify Monitor.routeCallback .route
      { s with table := s.table.filter (fun row => row.route.destination.bits ≠ 0) ++
        rows.filter fun row => row.route.destination.bits = 0 } k
    rw [heq]
    exact h.change hsub hsame fun hlistening => .inr fun i => .inl (hnotice (h.route hlistening))
  | setInterfaces net =>
    have hsame := fun hstage => hseen hstage t hstep
    cases hstep
    obtain ⟨notices, heq, hsub, hnotice⟩ :=
      Sys.notices_notify Monitor.interfaceCallback .interface { s with net := net } k
    rw [heq]
    refine h.change hsub (fun hstage => hsame ?_) fun hlistening => ?_
    · rcases hstage with hstage | hstage | hstage
      · exact .inl hstage
      · exact .inr (.inl hstage)
      · exact .inr (.inr (.inl hstage))
    · rcases hlistening with hstage | hstage
      · obtain ⟨hw, -⟩ := h.control.serving hstage (by decide)
        exact .inl fun i => hsame (.inr (.inr (.inr hstage))) i fun _ _ _ _ _ hw' => by
          cases hw.symm.trans hw'
      · exact .inr fun i => .inr (.inl (hnotice (h.interface hstage)))
  | foreignAdd r =>
    obtain ⟨hguard, hstep⟩ := Option.ite_none_left_eq_some.mp hstep
    cases hstep
    rw [show (s.insert r none).defaultGateway k = s.defaultGateway k from
      funext fun i => defaultGateway_insert (not_or.mp hguard).1 none k i]
    exact h
  | foreignDelete r =>
    obtain ⟨hbits, hstep⟩ := Option.ite_none_left_eq_some.mp hstep
    cases hstep
    obtain ⟨notices, heq, hsub⟩ := Sys.notices_delete r s k
    rw [show (s.delete r).defaultGateway k = s.defaultGateway k from
      funext fun i => defaultGateway_delete hbits k i, heq]
    exact h.change hsub (fun _ _ _ => rfl) fun _ => .inl fun _ => rfl

def Monitor.Quiet (m : Monitor) : Prop :=
  m.notices = [] ∧ m.timer = false ∧ m.fired = 0 ∧ m.updates = 0 ∧ m.work = none

theorem Follows.quiet {cur : AddressFamily → DefaultGateway} {m : Monitor} (h : Follows cur m)
    (hstage : m.stage = .started) (hquiet : m.Quiet) (i : AddressFamily) :
    (m.families i).gateway = cur i ∧ m.bound i = some (Monitor.socket (m.families i)) := by
  obtain ⟨hnotices, htimer, hfired, hupdates, hwork⟩ := hquiet
  have hlistening : m.stage.listening := .inr (.inr hstage)
  refine ⟨(h.pending hlistening i).resolve_right ?_, h.bound (.inr hlistening) hwork i⟩
  rw [Monitor.Pending, hnotices, htimer, hfired, hupdates, hwork]
  rintro (h | h | h | h | h | ⟨_, _, _, _, _, h, -⟩)
  · exact List.not_mem_nil h
  · exact List.not_mem_nil h
  · exact Bool.false_ne_true h
  · exact h rfl
  · exact h rfl
  · cases h

/-- In a run in which `Seen` holds at every step, a monitor that has been started and has nothing
pending follows the default route. -/
theorem monitor_follows_default_route (table : List (ForwardRow ι)) (net : Interfaces) (k : ι)
    {as : List (Action ι)}
    (hC : Along Sys.step (fun s a => Assumed k s a ∧ Seen k s a) (Sys.initial table net) as)
    (hrun : exec Sys.step (Sys.initial table net) as = some t)
    (hstage : (t.monitors k).stage = .started) (hquiet : (t.monitors k).Quiet) (i : AddressFamily) :
    ((t.monitors k).families i).gateway = t.defaultGateway k i ∧
      (t.monitors k).bound i = some (Monitor.socket ((t.monitors k).families i)) := by
  have hinitial : (∀ k, ((Sys.initial table net).monitors k).WF) ∧
      Follows ((Sys.initial table net).defaultGateway k) ((Sys.initial table net).monitors k) :=
    ⟨fun _ => .absent, follows_absent _⟩
  obtain ⟨-, hfollows⟩ := invariant_along
    (I := fun s : Sys ι => (∀ k, (s.monitors k).WF) ∧ Follows (s.defaultGateway k) (s.monitors k))
    (fun s a u hs hc hu => ⟨WF.step hs.1 hu, hs.2.step hs.1 hc.1 hc.2 hu⟩) hinitial hC hrun
  exact hfollows.quiet hstage hquiet i

end

def startUp : List Act := List.replicate 4 (.proceed fun _ => true)

def plainConstruction : List Act :=
  [.new { name := str "wg0" } 1, .lookup true, .advance, .advance, .lookup true, .finish fun _ =>
    true]

def plainUpdate : List Act :=
  [.handle .route false, .fire, .burst, .update, .lookup true, .advance, .advance, .lookup true,
  .finish fun _ => true]

def changeAfterStart : List (Action Unit) :=
  (plainConstruction ++ startUp).map (.monitor ()) ++ [.setDefaults [defaultRow 7]] ++
    plainUpdate.map (.monitor ())

def changeBeforeStart : List (Action Unit) :=
  plainConstruction.map (.monitor ()) ++ [.setDefaults [defaultRow 7]] ++ startUp.map (.monitor ())

def outcome (t : Sys Unit) : Stage × Bool × UInt64 × UInt64 :=
  let m := t.monitors ()
  (m.stage, m.notices.isEmpty && !m.timer && m.fired == 0 && m.updates == 0 && m.work.isNone,
    (m.families .inet).gateway.luid, (t.defaultGateway () .inet).luid)

theorem quiet_of_outcome {t : Sys Unit} {stage : Stage} {recorded current : UInt64}
    (h : outcome t = (stage, true, recorded, current)) :
    (t.monitors ()).stage = stage ∧ (t.monitors ()).Quiet ∧
      ((t.monitors ()).families .inet).gateway.luid = recorded ∧
      (t.defaultGateway () .inet).luid = current := by
  simp only [outcome, Prod.mk.injEq, Bool.and_eq_true, List.isEmpty_iff,
    Bool.not_eq_true', beq_iff_eq, Option.isNone_iff_eq_none] at h
  obtain ⟨hstage, ⟨⟨⟨⟨hnotices, htimer⟩, hfired⟩, hupdates⟩, hwork⟩, hrecorded, hcurrent⟩ := h
  exact ⟨hstage, ⟨hnotices, htimer, hfired, hupdates, hwork⟩, hrecorded, hcurrent⟩

def afterStart (s : Sys Unit) : Action Unit → Bool
  | .monitor _ .update => (s.monitors ()).stage = .started
  | .setDefaults _ => (s.monitors ()).stage = .started
  | .setInterfaces _ => false
  | .monitor _ (.lookup found) => found
  | .monitor _ (.addRoute fails) => !fails
  | .monitor _ (.finish binds) => binds .inet && binds .inet6
  | _ => true

theorem assumed_of_afterStart {s : Sys Unit} {a : Action Unit} (h : afterStart s a = true) :
    Assumed () s a ∧ Seen () s a := by
  cases a with
  | setDefaults rows =>
    have hstage : (s.monitors ()).stage = .started := of_decide_eq_true h
    refine ⟨trivial, fun hearly => ?_⟩
    rw [hstage] at hearly
    exact absurd hearly (by decide)
  | setInterfaces net => cases h
  | foreignAdd r => exact ⟨trivial, trivial⟩
  | foreignDelete r => exact ⟨trivial, trivial⟩
  | monitor k act =>
    cases act with
    | update =>
      have hstage : (s.monitors ()).stage = .started := of_decide_eq_true h
      refine ⟨fun _ => trivial, fun _ => ?_⟩
      rw [hstage]
      decide
    | lookup found => exact ⟨fun _ => h, trivial⟩
    | addRoute fails =>
      rw [afterStart, Bool.not_eq_true'] at h
      exact ⟨fun _ => h, trivial⟩
    | finish binds =>
      refine ⟨fun _ i => ?_, trivial⟩
      rw [afterStart, Bool.and_eq_true] at h
      cases i with
      | inet => exact h.1
      | inet6 => exact h.2
    | _ => exact ⟨fun _ => trivial, trivial⟩

theorem monitor_follows_default_route_afterStart :
    ∃ t, exec Sys.step oneGateway changeAfterStart = some t ∧
    (t.monitors ()).stage = .started ∧ (t.monitors ()).Quiet ∧
    (t.defaultGateway () .inet).luid = 7 ∧
    ((t.monitors ()).families .inet).gateway = t.defaultGateway () .inet ∧
    (t.monitors ()).bound .inet = some (Monitor.socket ((t.monitors ()).families .inet)) := by
  have hfacts : (exec Sys.step oneGateway changeAfterStart).map outcome =
    some (.started, true, 7, 7) := by decide +kernel
  obtain ⟨t, hrun, hout⟩ := Option.map_eq_some_iff.mp hfacts
  obtain ⟨hstage, hquiet, -, hcurrent⟩ := quiet_of_outcome hout
  have hchecked : Along Sys.step
    (fun s a => afterStart s a = true) oneGateway changeAfterStart := by decide +kernel
  refine ⟨t, hrun, hstage, hquiet, hcurrent, ?_⟩
  exact monitor_follows_default_route [defaultRow 5] allUp () (along_mono
    (fun _ _ => assumed_of_afterStart) hchecked) hrun hstage hquiet .inet

/-- The monitor goes on with a gateway that is not the default gateway any more. -/
theorem monitor_misses_change : ∃ t, exec Sys.step oneGateway changeBeforeStart = some t ∧
    (t.monitors ()).stage = .started ∧ (t.monitors ()).Quiet ∧
    ((t.monitors ()).families .inet).gateway ≠ t.defaultGateway () .inet := by
  have hfacts : (exec Sys.step oneGateway changeBeforeStart).map outcome =
    some (.started, true, 5, 7) := by decide +kernel
  obtain ⟨t, hrun, hout⟩ := Option.map_eq_some_iff.mp hfacts
  obtain ⟨hstage, hquiet, hrecorded, hcurrent⟩ := quiet_of_outcome hout
  refine ⟨t, hrun, hstage, hquiet, fun heq => ?_⟩
  rw [heq, hcurrent] at hrecorded
  exact absurd hrecorded (by decide)

end WireGuardWindows.Tunnel.RouteMonitor
