import WireGuardWindows.Systems.Runs

/-!
# The interface watcher

`tunnel/interfacewatcher.go` with the part of the service around it: notifications of Windows
run callbacks that take `setupMutex`, `Configure` works off the notifications that came too
early, a setup reports its result on one of two channels while the mutex is held, and the
channels are read only by the loop of the service. Windows calls are single moves that
return; which of them fail is a choice of the schedule. The callbacks for route changes that a
setup registers take none of these locks and are left out.
-/

namespace WireGuardWindows.Tunnel.Watcher
open Systems

inductive Family
  | v4 | v6 | other
  deriving DecidableEq

structure Event where
  isAdd : Bool
  luid : UInt64
  family : Family
  deriving DecidableEq

inductive WatcherError
  | monitorMTUChanges
  | setNetConfig
  /-- Of the watchdog: the interface did not appear. -/
  | createNetworkAdapter
  deriving DecidableEq

inductive Outcome
  | succeeds
  | fails (e : WatcherError)
  deriving DecidableEq

inductive Setup
  | working (family : Family)
  | sendingStarted (family : Family)
  | sendingError (e : WatcherError)
  | returned
  deriving DecidableEq

inductive Watchdog
  | idle | armed
  /-- The timer has fired, and its function has not sent yet. -/
  | fired
  deriving DecidableEq

inductive Service
  | starting
  | lockConfigure
  /-- In `Configure`, with the mutex: the stored events left and the setup of the last one. -/
  | configuring (todo : List Event) (setup : Setup)
  | configured
  | looping
  | ended
  | lockDestroy
  | unregistering
  | lockDestroyAgain
  | destroyed
  deriving DecidableEq

structure State where
  luid : UInt64 := 0
  storedEvents : List Event := []
  started : List Family := []
  errors : List WatcherError := []
  watchdog : Watchdog := .idle
  registered : Bool := true
  /-- Callbacks that wait for the mutex. -/
  waiting : List Event := []
  /-- The callback that has it. -/
  callback : Option Setup := none
  service : Service := .starting
  deriving DecidableEq

def startedCapacity : Nat := 4
def errorsCapacity : Nat := 2

def State.free (s : State) : Bool :=
  s.callback.isNone && match s.service with
    | .configuring _ _ => false
    | _ => true

def Watchdog.stop : Watchdog → Watchdog
  | .armed => .idle
  | w => w

def Setup.begin : Family → Setup
  | .other => .returned
  | family => .working family

def Setup.finish (o : Outcome) : Setup → Option Setup
  | .working family => match o with
    | .succeeds => some (.sendingStarted family)
    | .fails e => some (.sendingError e)
  | _ => none

def State.send (s : State) : Setup → Option State
  | .sendingStarted family =>
    if s.started.length < startedCapacity then some { s with started := s.started ++ [family] }
      else none
  | .sendingError e =>
    if s.errors.length < errorsCapacity then some { s with errors := s.errors ++ [e] } else none
  | _ => none

inductive Action
  | notify (ev : Event)
  | acquire (i : Nat)
  | callbackSetup (o : Outcome)
  | callbackSend
  | callbackReturn
  | callConfigure
  | configureLock (luid : UInt64)
  | configureNext
  | configureSetup (o : Outcome)
  | configureSend
  | configureReturn
  | enterLoop
  | receiveStarted
  | receiveError
  /-- A stop request, or an error of the service itself. -/
  | leave
  | callDestroy
  | destroyLock
  | unregistered
  | destroyLockAgain
  | fire
  | sendFired
  deriving DecidableEq

def State.handle (s : State) (ev : Event) : State :=
  if !ev.isAdd then s
  else if s.luid = 0 then { s with storedEvents := s.storedEvents ++ [ev] }
  else if ev.luid ≠ s.luid then s
  else { s with watchdog := s.watchdog.stop, callback := some (.begin ev.family) }

def step (s : State) : Action → Option State
  | .notify ev => if s.registered then some { s with waiting := s.waiting ++ [ev] } else none
  | .acquire i =>
    if s.free then
      s.waiting[i]?.map fun ev => State.handle { s with waiting := s.waiting.eraseIdx i } ev
    else none
  | .callbackSetup o =>
    s.callback.bind fun setup => (setup.finish o).map fun setup => { s with callback := some setup }
  | .callbackSend =>
    s.callback.bind fun setup => (s.send setup).map fun s => { s with callback := some .returned }
  | .callbackReturn =>
    if s.callback = some .returned then some { s with callback := none } else none
  | .callConfigure =>
    if s.service = .starting then some { s with service := .lockConfigure } else none
  | .configureLock luid =>
    if s.service = .lockConfigure ∧ s.free then
      some { s with luid, watchdog := .armed, service := .configuring s.storedEvents .returned }
    else none
  | .configureNext => match s.service with
    | .configuring (ev :: todo) .returned =>
      if ev.luid = s.luid then
        some { s with watchdog := s.watchdog.stop, service := .configuring todo (.begin ev.family) }
      else some { s with service := .configuring todo .returned }
    | _ => none
  | .configureSetup o => match s.service with
    | .configuring todo setup =>
      (setup.finish o).map fun setup => { s with service := .configuring todo setup }
    | _ => none
  | .configureSend => match s.service with
    | .configuring todo setup =>
      (s.send setup).map fun s => { s with service := .configuring todo .returned }
    | _ => none
  | .configureReturn => match s.service with
    | .configuring [] .returned => some { s with storedEvents := [], service := .configured }
    | _ => none
  | .enterLoop => if s.service = .configured then some { s with service := .looping } else none
  | .receiveStarted =>
    if s.service = .looping ∧ s.started ≠ [] then some { s with started := s.started.tail }
      else none
  | .receiveError =>
    if s.service = .looping ∧ s.errors ≠ [] then
      some { s with errors := s.errors.tail, service := .ended }
    else none
  | .leave =>
    if s.service = .starting ∨ s.service = .configured ∨ s.service = .looping then
      some { s with service := .ended }
    else none
  | .callDestroy => if s.service = .ended then some { s with service := .lockDestroy } else none
  | .destroyLock =>
    if s.service = .lockDestroy ∧ s.free then
      some { s with watchdog := s.watchdog.stop, registered := false, service := .unregistering }
    else none
  | .unregistered =>
    if s.service = .unregistering ∧ s.waiting = [] ∧ s.callback = none then
      some { s with service := .lockDestroyAgain }
    else none
  | .destroyLockAgain =>
    if s.service = .lockDestroyAgain ∧ s.free then some { s with service := .destroyed } else none
  | .fire => if s.watchdog = .armed then some { s with watchdog := .fired } else none
  | .sendFired =>
    if s.watchdog = .fired ∧ s.errors.length < errorsCapacity then
      some { s with watchdog := .idle, errors := s.errors ++ [.createNetworkAdapter] }
    else none

def Action.isOwn : Action → Bool
  | .acquire _ | .callbackSetup _ | .callbackSend | .callbackReturn | .configureLock
    _ | .configureNext
  | .configureSetup _ | .configureSend | .configureReturn | .destroyLock | .unregistered
  | .destroyLockAgain => true
  | _ => false

def State.inConfigure (s : State) : Bool := match s.service with
  | .lockConfigure | .configuring _ _ => true
  | _ => false

def State.inDestroy (s : State) : Bool := match s.service with
  | .lockDestroy | .unregistering | .lockDestroyAgain => true
  | _ => false

/-- The errors that are in the channel or that the watchdog is about to send. -/
def State.pendingErrors (s : State) : Nat :=
  s.errors.length + if s.watchdog = .fired then 1 else 0

def State.HasRoom (s : State) : Outcome → Prop
  | .succeeds => s.started.length < startedCapacity
  | .fails _ => s.pendingErrors < errorsCapacity

/-- A setup ends only when there is room for its result. -/
def Fits (s : State) : Action → Prop
  | .callbackSetup o | .configureSetup o => s.HasRoom o
  | _ => True

instance (s : State) : (o : Outcome) → Decidable (s.HasRoom o)
  | .succeeds => inferInstanceAs (Decidable (_ < _))
  | .fails _ => inferInstanceAs (Decidable (_ < _))

instance (s : State) : (a : Action) → Decidable (Fits s a)
  | .callbackSetup o | .configureSetup o => inferInstanceAs (Decidable (s.HasRoom o))
  | .notify _ | .acquire _ | .callbackSend | .callbackReturn | .callConfigure | .configureLock _
  | .configureNext | .configureSend | .configureReturn | .enterLoop | .receiveStarted
  | .receiveError | .leave | .callDestroy | .destroyLock | .unregistered | .destroyLockAgain | .fire
  | .sendFired => .isTrue trivial

def State.SetupFits (s : State) : Setup → Prop
  | .working _ => s.watchdog ≠ .armed
  | .sendingStarted _ => s.watchdog ≠ .armed ∧ s.started.length < startedCapacity
  | .sendingError _ => s.watchdog ≠ .armed ∧ s.pendingErrors < errorsCapacity
  | .returned => True

def State.NotConfiguring (s : State) : Prop := ∀ todo setup, s.service ≠ .configuring todo setup

/-- At most one setup is under way, in a callback or in `Configure`. -/
inductive Inv (s : State) : Prop
  | callbacks (service : s.NotConfiguring) (fits : ∀ setup, s.callback = some setup →
    s.SetupFits setup)
  | configuring (todo : List Event) (setup : Setup) (service : s.service = .configuring todo setup)
      (callback : s.callback = none) (fits : s.SetupFits setup)

structure Keeps (s t : State) : Prop where
  callback : t.callback = s.callback
  watchdog : t.watchdog = .armed → s.watchdog = .armed
  started : t.started.length ≤ s.started.length
  errors : t.pendingErrors ≤ s.pendingErrors

theorem Keeps.refl_of {s t : State} (hc : t.callback = s.callback) (hw : t.watchdog = s.watchdog)
    (hs : t.started = s.started) (he : t.errors = s.errors) : Keeps s t where
  callback := hc
  watchdog := fun h => hw ▸ h
  started := Nat.le_of_eq (by rw [hs])
  errors := Nat.le_of_eq (by rw [State.pendingErrors, State.pendingErrors, hw, he])

theorem Keeps.fits {s t : State} (h : Keeps s t) {setup : Setup} (hs : s.SetupFits setup) :
    t.SetupFits setup := by
  cases setup with
  | working _ => exact fun hw => hs (h.watchdog hw)
  | sendingStarted _ => exact ⟨fun hw => hs.1 (h.watchdog hw), Nat.lt_of_le_of_lt h.started hs.2⟩
  | sendingError _ => exact ⟨fun hw => hs.1 (h.watchdog hw), Nat.lt_of_le_of_lt h.errors hs.2⟩
  | returned => trivial

theorem stop_ne_armed (w : Watchdog) : w.stop ≠ .armed := by
  cases w <;> decide

theorem keeps_stop (s : State) : Keeps s { s with watchdog := s.watchdog.stop } where
  callback := rfl
  watchdog h := absurd h (stop_ne_armed _)
  started := Nat.le_refl _
  errors := by
    unfold State.pendingErrors
    cases s.watchdog <;> exact Nat.le_refl _

theorem Inv.keep {s t : State} (h : Inv s) (hservice : t.service = s.service) (hk : Keeps s t) :
    Inv t := by
  cases h with
  | callbacks service fits =>
    refine .callbacks (fun todo setup => hservice ▸ service todo setup) fun setup hsetup => ?_
    exact hk.fits (fits setup (hk.callback ▸ hsetup))
  | configuring todo setup service callback fits =>
    exact .configuring todo setup (hservice.trans service) (hk.callback.trans callback)
      (hk.fits fits)

theorem Inv.move {s t : State} (h : Inv s) (hs : s.NotConfiguring) (ht : t.NotConfiguring)
    (hk : Keeps s t) : Inv t := by
  cases h with
  | callbacks service fits =>
    exact .callbacks ht fun setup hsetup => hk.fits (fits setup (hk.callback ▸ hsetup))
  | configuring todo setup service => exact absurd service (hs todo setup)

theorem fits_begin (s : State) (family : Family) (hw : s.watchdog ≠ .armed) :
    s.SetupFits (.begin family) := by
  cases family with
  | v4 => exact hw
  | v6 => exact hw
  | other => trivial

theorem fits_finish {s : State} {setup setup' : Setup} {o : Outcome} (hs : s.SetupFits setup)
    (hroom : s.HasRoom o) (h : setup.finish o = some setup') : s.SetupFits setup' := by
  cases setup with
  | working family =>
    cases o with
    | succeeds =>
      cases h
      exact ⟨hs, hroom⟩
    | fails e =>
      cases h
      exact ⟨hs, hroom⟩
  | sendingStarted _ => cases h
  | sendingError _ => cases h
  | returned => cases h

theorem send_service {s t : State} {setup : Setup} (h : s.send setup = some t) :
    t.service = s.service ∧ t.callback = s.callback := by
  cases setup with
  | working _ => cases h
  | sendingStarted family | sendingError e =>
    simp only [State.send] at h
    split_ifs at h
    cases h
    exact ⟨rfl, rfl⟩
  | returned => cases h

theorem notConfiguring_of_eq {s : State} {service : Service} (h : s.service = service)
    (hne : ∀ todo setup, service ≠ .configuring todo setup) : s.NotConfiguring := by
  intro todo setup
  rw [h]
  exact hne todo setup

theorem notConfiguring_of_free {s : State} (h : s.free = true) :
    s.NotConfiguring ∧ s.callback = none := by
  rw [State.free, Bool.and_eq_true, Option.isNone_iff_eq_none] at h
  refine ⟨fun todo setup hservice => ?_, h.1⟩
  rw [hservice] at h
  cases h.2

theorem Inv.notConfiguring {s : State} (h : Inv s) {setup : Setup} (hc : s.callback = some setup) :
    s.NotConfiguring ∧ s.SetupFits setup := by
  cases h with
  | callbacks service fits => exact ⟨service, fits setup hc⟩
  | configuring todo setup service callback => simp [callback] at hc

theorem Inv.handle {s : State} (h : Inv s) (hfree : s.free = true) (ev : Event) :
    Inv (s.handle ev) := by
  obtain ⟨hservice, hnone⟩ := notConfiguring_of_free hfree
  unfold State.handle
  split_ifs
  · exact h
  · exact h.keep rfl (.refl_of rfl rfl rfl rfl)
  · exact h
  · refine .callbacks hservice fun setup hsetup => ?_
    cases hsetup
    exact fits_begin _ _ (stop_ne_armed _)

theorem Inv.callbackStep {s t : State} (h : Inv s) {a : Action} (hfits : Fits s a)
    (ha : a = .callbackSend ∨ a = .callbackReturn ∨ ∃ o, a = .callbackSetup o)
    (hstep : step s a = some t) : Inv t := by
  rcases ha with rfl | rfl | ⟨o, rfl⟩
  · obtain ⟨setup, hc, hstep⟩ := Option.bind_eq_some_iff.mp hstep
    obtain ⟨u, hsend, rfl⟩ := Option.map_eq_some_iff.mp hstep
    obtain ⟨hservice, -⟩ := h.notConfiguring hc
    refine .callbacks (fun todo setup => ?_) fun setup hsetup => ?_
    · rw [(send_service hsend).1]
      exact hservice todo setup
    · cases hsetup
      trivial
  · simp only [step] at hstep
    split_ifs at hstep with hc
    cases hstep
    refine .callbacks (h.notConfiguring hc).1 fun setup hsetup => ?_
    cases hsetup
  · obtain ⟨setup, hc, hstep⟩ := Option.bind_eq_some_iff.mp hstep
    obtain ⟨setup', hfinish, rfl⟩ := Option.map_eq_some_iff.mp hstep
    obtain ⟨hservice, hsetup⟩ := h.notConfiguring hc
    refine .callbacks hservice fun su hsu => ?_
    cases hsu
    exact fits_finish hsetup hfits hfinish

theorem configuring_of_step {s t : State} {a : Action}
    (ha : a = .configureNext ∨ a = .configureSend ∨ a = .configureReturn ∨ ∃ o,
      a = .configureSetup o)
    (hstep : step s a = some t) : ∃ todo setup, s.service = .configuring todo setup := by
  cases hservice : s.service with
  | configuring todo setup => exact ⟨todo, setup, rfl⟩
  | _ => rcases ha with rfl | rfl | rfl | ⟨o, rfl⟩ <;> simp [step, hservice] at hstep

theorem Inv.configureStep {s t : State} (h : Inv s) {a : Action} (hfits : Fits s a)
    (ha : a = .configureNext ∨ a = .configureSend ∨ a = .configureReturn ∨ ∃ o,
      a = .configureSetup o)
    (hstep : step s a = some t) : Inv t := by
  cases h with
  | callbacks service =>
    obtain ⟨todo, setup, hservice⟩ := configuring_of_step ha hstep
    exact absurd hservice (service todo setup)
  | configuring todo setup service callback fits =>
    rcases ha with rfl | rfl | rfl | ⟨o, rfl⟩ <;> simp only [step, service] at hstep
    · split at hstep
      · rename_i ev rest heq
        cases heq
        split_ifs at hstep
        · cases hstep
          exact .configuring _ _ rfl callback (fits_begin _ _ (stop_ne_armed _))
        · cases hstep
          exact .configuring _ _ rfl callback trivial
      · cases hstep
    · obtain ⟨u, hsend, rfl⟩ := Option.map_eq_some_iff.mp hstep
      exact .configuring _ _ rfl ((send_service hsend).2.trans callback) trivial
    · split at hstep
      · cases hstep
        refine .callbacks (notConfiguring_of_eq rfl (by simp)) fun su hsu => ?_
        exact absurd (callback.symm.trans hsu) (by simp)
      · cases hstep
    · obtain ⟨setup', hfinish, rfl⟩ := Option.map_eq_some_iff.mp hstep
      exact .configuring _ _ rfl callback (fits_finish fits hfits hfinish)

theorem Inv.watchdogStep {s t : State} (h : Inv s) {a : Action} (ha : a = .fire ∨ a = .sendFired)
    (hstep : step s a = some t) : Inv t := by
  rcases ha with rfl | rfl <;> simp only [step] at hstep <;> split_ifs at hstep with hw
  · -- a setup under way has stopped the watchdog
    cases hstep
    have hidle : ∀ setup, s.SetupFits setup →
        State.SetupFits { s with watchdog := .fired } setup := by
      intro setup hs
      cases setup with
      | working _ => exact absurd hw hs
      | sendingStarted _ => exact absurd hw hs.1
      | sendingError _ => exact absurd hw hs.1
      | returned => trivial
    cases h with
    | callbacks service fits => exact .callbacks service fun su hsu => hidle su (fits su hsu)
    | configuring todo setup service callback fits =>
      exact .configuring todo setup service callback (hidle setup fits)
  · cases hstep
    refine h.keep rfl ⟨rfl, fun harmed => (by cases harmed), Nat.le_refl _, ?_⟩
    simp [State.pendingErrors, hw.1]

theorem Inv.step {s t : State} {a : Action} (h : Inv s) (hfits : Fits s a)
    (hstep : step s a = some t) : Inv t := by
  cases a with
  | notify ev =>
    simp only [Watcher.step] at hstep
    split_ifs at hstep
    cases hstep
    exact h.keep rfl (.refl_of rfl rfl rfl rfl)
  | acquire i =>
    simp only [Watcher.step] at hstep
    split_ifs at hstep with hfree
    obtain ⟨ev, -, rfl⟩ := Option.map_eq_some_iff.mp hstep
    have hkeep : Inv { s with waiting := s.waiting.eraseIdx i } :=
      h.keep rfl (.refl_of rfl rfl rfl rfl)
    exact hkeep.handle hfree ev
  | callbackSetup o => exact h.callbackStep hfits (Or.inr (Or.inr ⟨o, rfl⟩)) hstep
  | callbackSend => exact h.callbackStep hfits (Or.inl rfl) hstep
  | callbackReturn => exact h.callbackStep hfits (Or.inr (Or.inl rfl)) hstep
  | configureNext => exact h.configureStep hfits (Or.inl rfl) hstep
  | configureSend => exact h.configureStep hfits (Or.inr (Or.inl rfl)) hstep
  | configureReturn => exact h.configureStep hfits (Or.inr (Or.inr (Or.inl rfl))) hstep
  | configureSetup o => exact h.configureStep hfits (Or.inr (Or.inr (Or.inr ⟨o, rfl⟩))) hstep
  | fire => exact h.watchdogStep (Or.inl rfl) hstep
  | sendFired => exact h.watchdogStep (Or.inr rfl) hstep
  | configureLock luid =>
    simp only [Watcher.step] at hstep
    split_ifs at hstep with hlock
    cases hstep
    exact .configuring _ _ rfl (notConfiguring_of_free hlock.2).2 trivial
  | receiveStarted =>
    simp only [Watcher.step] at hstep
    split_ifs at hstep
    cases hstep
    exact h.keep rfl ⟨rfl, id, by simp, Nat.le_refl _⟩
  | receiveError =>
    simp only [Watcher.step] at hstep
    split_ifs at hstep with hs
    cases hstep
    refine h.move (notConfiguring_of_eq hs.1 (by simp)) (notConfiguring_of_eq rfl (by simp))
      ⟨rfl, id, Nat.le_refl _, ?_⟩
    simp [State.pendingErrors]
  | leave =>
    simp only [Watcher.step] at hstep
    split_ifs at hstep with hs
    cases hstep
    refine h.move ?_ (notConfiguring_of_eq rfl (by simp)) (.refl_of rfl rfl rfl rfl)
    rcases hs with hs | hs | hs <;> exact notConfiguring_of_eq hs (by simp)
  | destroyLock =>
    simp only [Watcher.step] at hstep
    split_ifs at hstep with hs
    cases hstep
    refine h.move (notConfiguring_of_eq hs.1 (by simp)) (notConfiguring_of_eq rfl (by simp)) ?_
    obtain ⟨hc, hw, hst, he⟩ := keeps_stop s
    exact ⟨hc, hw, hst, he⟩
  | callConfigure | enterLoop | callDestroy =>
    simp only [Watcher.step] at hstep
    split_ifs at hstep with hs
    cases hstep
    exact h.move (notConfiguring_of_eq hs (by simp)) (notConfiguring_of_eq rfl (by simp))
      (.refl_of rfl rfl rfl rfl)
  | unregistered | destroyLockAgain =>
    simp only [Watcher.step] at hstep
    split_ifs at hstep with hs
    cases hstep
    exact h.move (notConfiguring_of_eq hs.1 (by simp)) (notConfiguring_of_eq rfl (by simp))
      (.refl_of rfl rfl rfl rfl)

theorem inv_initial : Inv {} := by
  refine .callbacks (notConfiguring_of_eq rfl (by simp)) fun setup hsetup => ?_
  cases hsetup

theorem send_isSome {s : State} {setup : Setup} (h : s.SetupFits setup)
    (hsending : (∃ family, setup = .sendingStarted family) ∨ ∃ e, setup = .sendingError e) :
    ∃ t, s.send setup = some t := by
  rcases hsending with ⟨family, rfl⟩ | ⟨e, rfl⟩
  · exact ⟨_, if_pos h.2⟩
  · have hroom : s.errors.length < errorsCapacity :=
      Nat.lt_of_le_of_lt (Nat.le_add_right _ _) h.2
    exact ⟨_, if_pos hroom⟩

theorem callback_moves {s : State} {setup : Setup} (hc : s.callback = some setup)
    (h : s.SetupFits setup) : ∃ a, a.isOwn = true ∧ (step s a).isSome = true := by
  cases setup with
  | working family =>
    refine ⟨.callbackSetup .succeeds, rfl, ?_⟩
    simp [step, hc, Setup.finish]
  | sendingStarted family =>
    obtain ⟨t, ht⟩ := send_isSome h (Or.inl ⟨family, rfl⟩)
    exact ⟨.callbackSend, rfl, by simp [step, hc, ht]⟩
  | sendingError e =>
    obtain ⟨t, ht⟩ := send_isSome h (Or.inr ⟨e, rfl⟩)
    exact ⟨.callbackSend, rfl, by simp [step, hc, ht]⟩
  | returned => exact ⟨.callbackReturn, rfl, by simp [step, hc]⟩

theorem configure_moves {s : State} {todo : List Event} {setup : Setup}
    (hs : s.service = .configuring todo setup) (h : s.SetupFits setup) :
    ∃ a, a.isOwn = true ∧ (step s a).isSome = true := by
  cases setup with
  | working family =>
    refine ⟨.configureSetup .succeeds, rfl, ?_⟩
    simp [step, hs, Setup.finish]
  | sendingStarted family =>
    obtain ⟨t, ht⟩ := send_isSome h (Or.inl ⟨family, rfl⟩)
    exact ⟨.configureSend, rfl, by simp [step, hs, ht]⟩
  | sendingError e =>
    obtain ⟨t, ht⟩ := send_isSome h (Or.inr ⟨e, rfl⟩)
    exact ⟨.configureSend, rfl, by simp [step, hs, ht]⟩
  | returned =>
    cases todo with
    | nil => exact ⟨.configureReturn, rfl, by simp [step, hs]⟩
    | cons ev todo =>
      refine ⟨.configureNext, rfl, ?_⟩
      simp only [step, hs]
      split_ifs <;> rfl

theorem free_of {s : State} (hs : s.NotConfiguring) (hc : s.callback = none) : s.free = true := by
  unfold State.free
  rw [hc]
  split
  · exact absurd (by assumption) (hs _ _)
  · rfl

/-- While `Configure` or `Destroy` has not returned, it or a callback can go on. -/
theorem Inv.progress {s : State} (h : Inv s) (hs : s.inConfigure = true ∨ s.inDestroy = true) :
    ∃ a, a.isOwn = true ∧ (Watcher.step s a).isSome = true := by
  cases h with
  | configuring todo setup service callback fits => exact configure_moves service fits
  | callbacks service fits =>
    cases hc : s.callback with
    | some setup => exact callback_moves hc (fits setup hc)
    | none =>
      have hfree := free_of service hc
      cases hservice : s.service with
      | lockConfigure => exact ⟨.configureLock 0, rfl, by simp [Watcher.step, hservice, hfree]⟩
      | lockDestroy => exact ⟨.destroyLock, rfl, by simp [Watcher.step, hservice, hfree]⟩
      | lockDestroyAgain => exact ⟨.destroyLockAgain, rfl, by simp [Watcher.step, hservice, hfree]⟩
      | unregistering =>
        cases hwaiting : s.waiting with
        | nil => exact ⟨.unregistered, rfl, by simp [Watcher.step, hservice, hwaiting, hc]⟩
        | cons ev rest => exact ⟨.acquire 0, rfl, by simp [Watcher.step, hfree, hwaiting]⟩
      | configuring todo setup => exact absurd hservice (service todo setup)
      | starting | configured | looping | ended | destroyed =>
        simp [State.inConfigure, State.inDestroy, hservice] at hs

def Setup.work : Setup → Nat
  | .working _ => 3
  | .sendingStarted _ | .sendingError _ => 2
  | .returned => 1

@[simp] theorem returned_work : Setup.returned.work = 1 := rfl

def State.work (s : State) : Nat :=
  10 * s.waiting.length + (s.callback.map Setup.work).getD 0 + match s.service with
    | .lockConfigure => 5 * s.storedEvents.length + 2
    | .configuring todo setup => 5 * todo.length + setup.work
    | .lockDestroy => 3
    | .unregistering => 2
    | .lockDestroyAgain => 1
    | _ => 0

theorem begin_work (family : Family) : (Setup.begin family).work ≤ 3 := by
  cases family <;> decide

theorem finish_work {setup setup' : Setup} {o : Outcome} (h : setup.finish o = some setup') :
    setup'.work < setup.work := by
  cases setup with
  | working family =>
    cases o <;> cases h <;> exact Nat.lt_succ_self 2
  | sendingStarted _ => cases h
  | sendingError _ => cases h
  | returned => cases h

theorem send_work {s t : State} {setup : Setup} (h : s.send setup = some t) :
    setup.work = 2 ∧ t.waiting = s.waiting ∧ t.storedEvents = s.storedEvents := by
  cases setup with
  | working _ => cases h
  | sendingStarted family | sendingError e =>
    simp only [State.send] at h
    split_ifs at h
    cases h
    exact ⟨rfl, rfl, rfl⟩
  | returned => cases h

theorem handle_work {s : State} (hfree : s.free = true) (ev : Event) :
    (s.handle ev).work ≤ s.work + 5 := by
  obtain ⟨-, hnone⟩ := notConfiguring_of_free hfree
  unfold State.handle
  split_ifs
  · omega
  · unfold State.work
    cases s.service <;> simp only [List.length_append, List.length_singleton] <;> omega
  · omega
  · have hwork := begin_work ev.family
    unfold State.work
    simp only [hnone, Option.map_none, Option.map_some, Option.getD_none, Option.getD_some]
    omega

theorem own_work {s t : State} {a : Action} (hown : a.isOwn = true) (hstep : step s a = some t) :
    t.work < s.work := by
  cases a with
  | notify _ | callConfigure | enterLoop | receiveStarted | receiveError | leave | callDestroy
  | fire
  | sendFired => cases hown
  | acquire i =>
    simp only [step] at hstep
    split_ifs at hstep with hfree
    obtain ⟨ev, hev, rfl⟩ := Option.map_eq_some_iff.mp hstep
    have hlt : i < s.waiting.length := (List.getElem?_eq_some_iff.mp hev).1
    have hfree' : State.free { s with waiting := s.waiting.eraseIdx i } = true := hfree
    have hhandle := handle_work hfree' ev
    have herase : State.work { s with waiting := s.waiting.eraseIdx i } + 10 = s.work := by
      simp only [State.work, List.length_eraseIdx, if_pos hlt]
      omega
    omega
  | callbackSetup o =>
    obtain ⟨setup, hc, hstep⟩ := Option.bind_eq_some_iff.mp hstep
    obtain ⟨setup', hfinish, rfl⟩ := Option.map_eq_some_iff.mp hstep
    have hwork := finish_work hfinish
    simp only [State.work, hc, Option.map_some, Option.getD_some]
    omega
  | callbackSend =>
    obtain ⟨setup, hc, hstep⟩ := Option.bind_eq_some_iff.mp hstep
    obtain ⟨u, hsend, rfl⟩ := Option.map_eq_some_iff.mp hstep
    obtain ⟨htwo, hwaiting, hstored⟩ := send_work hsend
    simp only [State.work, hc, Option.map_some, Option.getD_some, htwo, hwaiting, hstored,
      (send_service hsend).1, returned_work]
    omega
  | callbackReturn =>
    simp only [step] at hstep
    split_ifs at hstep with hc
    cases hstep
    simp only [State.work, hc, Option.map_some, Option.map_none, Option.getD_some, Option.getD_none,
      returned_work]
    omega
  | configureLock luid =>
    simp only [step] at hstep
    split_ifs at hstep with hs
    cases hstep
    simp only [State.work, hs.1, returned_work]
    omega
  | configureNext =>
    obtain ⟨todo, setup, hservice⟩ := configuring_of_step (Or.inl rfl) hstep
    simp only [step, hservice] at hstep
    split at hstep
    · rename_i ev rest heq
      cases heq
      have hwork := begin_work ev.family
      split_ifs at hstep <;> cases hstep <;>
        simp only [State.work, hservice, List.length_cons, returned_work] <;> omega
    · cases hstep
  | configureSetup o =>
    obtain ⟨todo, setup, hservice⟩ := configuring_of_step (Or.inr (Or.inr (Or.inr ⟨o, rfl⟩))) hstep
    simp only [step, hservice] at hstep
    obtain ⟨setup', hfinish, rfl⟩ := Option.map_eq_some_iff.mp hstep
    have hwork := finish_work hfinish
    simp only [State.work, hservice]
    omega
  | configureSend =>
    obtain ⟨todo, setup, hservice⟩ := configuring_of_step (Or.inr (Or.inl rfl)) hstep
    simp only [step, hservice] at hstep
    obtain ⟨u, hsend, rfl⟩ := Option.map_eq_some_iff.mp hstep
    obtain ⟨htwo, hwaiting, -⟩ := send_work hsend
    simp only [State.work, hservice, htwo, hwaiting, (send_service hsend).2, returned_work]
    omega
  | configureReturn =>
    obtain ⟨todo, setup, hservice⟩ := configuring_of_step (Or.inr (Or.inr (Or.inl rfl))) hstep
    simp only [step, hservice] at hstep
    split at hstep
    · rename_i heq
      cases heq
      cases hstep
      simp only [State.work, hservice, List.length_nil, returned_work]
      omega
    · cases hstep
  | destroyLock | unregistered | destroyLockAgain =>
    simp only [step] at hstep
    split_ifs at hstep with hs
    cases hstep
    simp only [State.work, hs.1]
    omega

/-- As long as every setup ends while there is room for its result, nothing blocks: from every
state that is reached, the moves of the callbacks, of `Configure` and of `Destroy` come to
an end unless there are new notifications, and when they do, `Configure` and `Destroy` have
returned. -/
theorem watcher_returns {as : List Action} {s : State} (hfits : Along step Fits {} as)
    (h : exec step {} as = some s) {bs : List Action} {t : State} (hown : ∀ b ∈ bs, b.isOwn = true)
    (hfits' : Along step Fits s bs) (h' : exec step s bs = some t) :
    bs.length ≤ s.work ∧
      ((∀ a, a.isOwn = true → step t a = none) → t.inConfigure = false ∧ t.inDestroy = false) := by
  have hs : Inv s := invariant_along (fun _ _ _ hI => hI.step) inv_initial hfits h
  have ht : Inv t := invariant_along (fun _ _ _ hI => hI.step) hs hfits' h'
  constructor
  · have hlength := exec_length_le (fun _ _ _ => own_work) hown h'
    omega
  · intro hstuck
    rw [← Bool.not_eq_true, ← Bool.not_eq_true, ← not_or]
    intro hin
    obtain ⟨a, ha, hmove⟩ := ht.progress hin
    rw [hstuck a ha] at hmove
    cases hmove

theorem step_settled {t : State} (hservice : t.service = .destroyed) (hwaiting : t.waiting = [])
    (hcallback : t.callback = none) {a : Action} (ha : a.isOwn = true) : step t a = none := by
  cases a with
  | notify | callConfigure | enterLoop | receiveStarted | receiveError | leave | callDestroy | fire
  | sendFired => cases ha
  | _ => simp [step, hservice, hwaiting, hcallback]

def added : Event := ⟨true, 7, .v4⟩

def stoppedService : List Action :=
  [.notify added, .acquire 0, .callConfigure, .configureLock 7, .configureNext,
  .configureSetup .succeeds,
    .configureSend, .configureReturn, .enterLoop, .receiveStarted, .leave, .callDestroy,
    .notify added, .destroyLock]

theorem watcher_returns_stoppedService :
    ∃ s t, exec step {} stoppedService = some s ∧ s.inDestroy = true ∧
      exec step s [.acquire 0, .callbackSetup .succeeds, .callbackSend, .callbackReturn,
        .unregistered, .destroyLockAgain] = some t ∧ t.inDestroy = false := by
  refine ⟨_, _, rfl, rfl, rfl, ?_⟩
  refine ((@watcher_returns stoppedService _ (by decide) rfl [.acquire 0, .callbackSetup .succeeds,
    .callbackSend, .callbackReturn, .unregistered, .destroyLockAgain] _ (by decide)
      (by decide) rfl).2 ?_).2
  exact fun a => step_settled rfl rfl rfl

def Blocked (s : State) : Prop :=
  s.service = .configuring [] (.sendingStarted .v4) ∧ startedCapacity ≤ s.started.length ∧
  s.callback = none

theorem Blocked.step {s t : State} {a : Action} (h : Blocked s)
    (hstep : Watcher.step s a = some t) :
    Blocked t := by
  obtain ⟨hservice, hfull, hcallback⟩ := h
  have hnotFree : s.free = false := by simp [State.free, hservice]
  have hsend : s.send (.sendingStarted .v4) = none := if_neg (Nat.not_lt.mpr hfull)
  cases a with
  | notify ev | fire | sendFired =>
    simp only [Watcher.step] at hstep
    split_ifs at hstep
    cases hstep
    exact ⟨hservice, hfull, hcallback⟩
  | _ => simp [Watcher.step, hservice, hcallback, hnotFree, hsend, Setup.finish] at hstep

def fiveEarlyEvents : List Action :=
  List.replicate 5 (.notify added) ++ List.replicate 5 (.acquire 0) ++
    [.callConfigure, .configureLock 7] ++
    (List.replicate 4 [.configureNext, .configureSetup .succeeds, .configureSend]).flatten ++
    [.configureNext, .configureSetup .succeeds]

/-- The fifth setup never gets rid of its result, and `Configure` never returns. -/
theorem configure_blocks_forever :
    ∃ s, exec step {} fiveEarlyEvents = some s ∧
      ∀ as t, exec step s as = some t → t.inConfigure = true := by
  refine ⟨_, rfl, fun as t h => ?_⟩
  have hblocked : Blocked t := by
    refine invariant (fun _ _ _ hb => hb.step) ?_ h
    exact ⟨rfl, by decide, rfl⟩
  rw [State.inConfigure, hblocked.1]

end WireGuardWindows.Tunnel.Watcher
