import WireGuardWindows.Manager.Ipc
import WireGuardWindows.Systems.Runs

/-!
# The tracker of one tunnel service

`trackTunnelService` follows a service until it stops. It learns of status changes in two
ways: `trackService` subscribes to them, and right after subscribing it queries the status
once and calls the same callback directly. The service control manager may deliver
notifications from the moment of the subscription until the subscription is removed, so a
delivery can fall between any two steps of the tracker itself. A call of the callback is
one step, with the answers of the calls into the service control manager it makes.

The polling loop in front of the first check only delays the tracker and is left out, and
so are `service.Delete` and `releaseDriverAdapter`, whose effects the tracker never reads.
-/

namespace WireGuardWindows.Manager

open GoStd Systems

structure ServiceStatus where
  state : UInt32
  win32ExitCode : UInt32 := 0
  serviceSpecificExitCode : UInt32 := 0

inductive ServiceConfig
  | markedForDelete
  | failed
  | startType (t : UInt32)

def serviceDisabled : UInt32 := 4

def ServiceConfig.isDisabled : ServiceConfig → Bool
  | markedForDelete => true
  | failed => false
  | startType t => t == serviceDisabled

inductive TunnelError
  | service (code : UInt32)
  | errno (code : UInt32)
  | monitoring (err : Str)
  deriving DecidableEq

def svcStateToNotifyState (s : UInt32) : UInt32 :=
  if s = 1 then 0x1
  else if s = 2 then 0x2
  else if s = 3 then 0x4
  else if s = 4 then 0x8
  else if s = 5 then 0x10
  else if s = 6 then 0x20
  else if s = 7 then 0x40
  else 0

def notifyStateToTunState (s : UInt32) : TunnelState :=
  if s &&& (0x1 ||| 0x100) ≠ 0 then .stopped
  else if s &&& (0x200 ||| 0x4) ≠ 0 then .stopping
  else if s &&& 0x8 ≠ 0 then .started
  else if s &&& 0x2 ≠ 0 then .starting
  else .unknown

def errorServiceSpecificError : UInt32 := 1066
def errorServiceNeverStarted : UInt32 := 1077

def tunnelErrorOf : Option ServiceStatus → Option TunnelError
  | none => none
  | some status =>
    if status.win32ExitCode = errorServiceSpecificError then
      if status.serviceSpecificExitCode ≠ 0 then some (.service status.serviceSpecificExitCode)
      else none
    else if status.win32ExitCode = 0 ∨ status.win32ExitCode = errorServiceNeverStarted then none
    else some (.errno status.win32ExitCode)

structure TunnelChange where
  state : TunnelState
  err : Option TunnelError := none
  deriving DecidableEq

inductive TrackerPhase
  | created
  | checking
  | subscribing
  | subscribed
  | queried (state : UInt32)
  | waiting
  | leaving
  | ended
  deriving DecidableEq

/-- A run of `trackTunnelService`: `tracked` is its entry in `trackedTunnels`, `once` the
flag of the subscription state, whose setting also ends `done.Wait`. -/
structure Tracker where
  phase : TrackerPhase := .created
  tracked : Option TunnelState := none
  once : Bool := false
  lastState : TunnelState := .unknown
  emitted : List TunnelChange := []

namespace Tracker

def notifyTunnelChange (t : Tracker) (change : TunnelChange) : Tracker :=
  { t with tracked := some change.state, emitted := t.emitted ++ [change] }

def checkForDisabled (t : Tracker) (config : ServiceConfig) : Tracker × Bool :=
  if config.isDisabled then (t.notifyTunnelChange { state := .stopped }, true) else (t, false)

/-- The part of the callback that reports a state other than the last one. -/
def reportState (t : Tracker) (state : TunnelState) (err : Option TunnelError) : Tracker :=
  if state ≠ t.lastState then
    { t.notifyTunnelChange ⟨state, err⟩ with lastState := state }
  else t

/-- The callback `trackTunnelService` passes to `trackService`. -/
def callback (t : Tracker) (status : UInt32) (query : Option ServiceStatus)
    (config : ServiceConfig) : Tracker × Bool :=
  let state := notifyStateToTunState status
  let err := if state = .stopped then tunnelErrorOf query else none
  let t := t.reportState state err
  if state = .unknown then t.checkForDisabled config else (t, state == .stopped)

/-- `serviceSubscriptionCallbackPtr`, once it has found `once` unset. -/
def deliver (t : Tracker) (notification : UInt32) (status query : Option ServiceStatus)
    (config : ServiceConfig) : Tracker :=
  let notification := match notification == 0, status with
    | true, some status => svcStateToNotifyState status.state
    | _, _ => notification
  match t.callback notification query config with
  | (t, true) => { t with once := true }
  | (t, false) => t

end Tracker

inductive TrackerAction
  | register
  | check (config : ServiceConfig)
  | subscribe (err : Option Str) (config : ServiceConfig)
  | query (status : Option ServiceStatus)
  | directCall (query : Option ServiceStatus) (config : ServiceConfig)
  | notification (notification : UInt32) (status query : Option ServiceStatus)
      (config : ServiceConfig)
  | wake
  | unsubscribe

def Tracker.isSubscribed (t : Tracker) : Bool :=
  match t.phase with
  | .subscribed | .queried _ | .waiting | .leaving => true
  | _ => false

def trackerStep (t : Tracker) : TrackerAction → Option Tracker
  | .register =>
    if t.phase ≠ .created then none
    else if t.tracked.isSome then some { t with phase := .ended }
    else some { t with phase := .checking, tracked := some .unknown }
  | .check config =>
    if t.phase ≠ .checking then none
    else match t.checkForDisabled config with
      | (t, true) => some { t with phase := .ended, tracked := none }
      | (t, false) => some { t with phase := .subscribing }
  | .subscribe none _ =>
    if t.phase ≠ .subscribing then none else some { t with phase := .subscribed }
  | .subscribe (some err) config =>
    if t.phase ≠ .subscribing then none
    else match t.checkForDisabled config with
      | (t, true) => some { t with phase := .ended, tracked := none }
      | (t, false) =>
        let t := t.notifyTunnelChange ⟨.stopped, some (.monitoring err)⟩
        some { t with phase := .ended, tracked := none }
  | .query status =>
    if t.phase ≠ .subscribed then none
    else match status with
      | none => some { t with phase := .waiting }
      | some status => some { t with phase := .queried status.state }
  | .directCall query config =>
    match t.phase with
    | .queried state =>
      match t.callback (svcStateToNotifyState state) query config with
      | (t, true) => some { t with phase := .leaving }
      | (t, false) => some { t with phase := .waiting }
    | _ => none
  | .notification notification status query config =>
    if !t.isSubscribed then none
    else if t.once then some t
    else some (t.deliver notification status query config)
  | .wake =>
    if t.phase = .waiting ∧ t.once = true then some { t with phase := .leaving } else none
  | .unsubscribe =>
    if t.phase = .leaving then some { t with phase := .ended, tracked := none } else none

def StoppedIsLast (changes : List TunnelChange) : Prop :=
  ∀ change ∈ changes.dropLast, change.state ≠ .stopped

def NoneStopped (changes : List TunnelChange) : Prop := ∀ change ∈ changes, change.state ≠ .stopped

def EndsStopped (changes : List TunnelChange) : Prop :=
  ∃ before err, changes = before ++ [⟨.stopped, err⟩] ∧ NoneStopped before

theorem NoneStopped.append {changes : List TunnelChange} (h : NoneStopped changes)
    {change : TunnelChange} (hchange : change.state ≠ .stopped) :
    NoneStopped (changes ++ [change]) := by
  exact List.forall_mem_append.mpr ⟨h, List.forall_mem_singleton.mpr hchange⟩

theorem NoneStopped.stoppedIsLast {changes : List TunnelChange} (h : NoneStopped changes) :
    StoppedIsLast changes :=
  fun c hc => h c (List.dropLast_subset changes hc)

theorem EndsStopped.stoppedIsLast {changes : List TunnelChange} (h : EndsStopped changes) :
    StoppedIsLast changes := by
  obtain ⟨before, err, rfl, hbefore⟩ := h
  intro c hc
  rw [List.dropLast_concat] at hc
  exact hbefore c hc

namespace Tracker

variable {t t' : Tracker}

structure Following (t : Tracker) : Prop where
  emitted : NoneStopped t.emitted
  lastState : t.lastState ≠ .stopped

theorem Following.endsStopped (h : t.Following) (err : Option TunnelError) :
    EndsStopped (t.notifyTunnelChange ⟨.stopped, err⟩).emitted :=
  ⟨t.emitted, err, rfl, h.emitted⟩

theorem Following.reportState (h : t.Following) {state : TunnelState} (hstate : state ≠ .stopped)
    (err : Option TunnelError) : (t.reportState state err).Following := by
  unfold Tracker.reportState
  split_ifs with hlast
  · exact ⟨h.emitted.append hstate, hstate⟩
  · exact h

theorem Following.reportStopped (h : t.Following) (err : Option TunnelError) :
    EndsStopped (t.reportState .stopped err).emitted := by
  unfold Tracker.reportState
  rw [if_pos h.lastState.symm]
  exact h.endsStopped err

theorem reportState_frame (t : Tracker) (state : TunnelState) (err : Option TunnelError) :
    (t.reportState state err).phase = t.phase ∧ (t.reportState state err).once = t.once := by
  unfold Tracker.reportState
  split_ifs <;> exact ⟨rfl, rfl⟩

theorem checkForDisabled_frame (t : Tracker) (config : ServiceConfig) :
    (t.checkForDisabled config).1.phase = t.phase ∧
      (t.checkForDisabled config).1.once = t.once := by
  unfold Tracker.checkForDisabled
  split_ifs <;> exact ⟨rfl, rfl⟩

def Reported (t : Tracker) : Bool → Prop
  | true => EndsStopped t.emitted
  | false => t.Following

theorem Following.checkForDisabled (h : t.Following) (config : ServiceConfig) :
    (t.checkForDisabled config).1.Reported (t.checkForDisabled config).2 := by
  unfold Tracker.checkForDisabled
  split_ifs
  · exact h.endsStopped none
  · exact h

theorem Following.callback (h : t.Following) (status : UInt32) (query : Option ServiceStatus)
    (config : ServiceConfig) :
    (t.callback status query config).1.Reported (t.callback status query config).2 := by
  unfold Tracker.callback
  dsimp only
  split_ifs with hunknown hstopped hstopped
  · rw [hunknown] at hstopped
    cases hstopped
  · apply Following.checkForDisabled
    exact h.reportState (by simp [hunknown]) _
  · rw [hstopped]
    exact h.reportStopped _
  · have hfalse : (notifyStateToTunState status == .stopped) = false := by simpa using hstopped
    rw [hfalse]
    exact h.reportState hstopped _

theorem callback_frame (t : Tracker) (status : UInt32) (query : Option ServiceStatus)
    (config : ServiceConfig) :
    (t.callback status query config).1.phase = t.phase ∧
      (t.callback status query config).1.once = t.once := by
  unfold Tracker.callback
  dsimp only
  split
  · rw [(checkForDisabled_frame _ _).1, (checkForDisabled_frame _ _).2]
    exact reportState_frame t _ _
  · exact reportState_frame t _ _

def Finishing (t : Tracker) : Prop := t.once = true ∨ t.phase = .leaving ∨ t.phase = .ended

structure Sound (t : Tracker) : Prop where
  quiet : t.isSubscribed = false → t.phase ≠ .ended → t.once = false ∧ t.emitted = []
  following : ¬ t.Finishing → t.Following
  finished : t.Finishing → t.emitted = [] ∨ EndsStopped t.emitted

theorem Sound.of_following (h : t.Following) (hfin : ¬ t.Finishing) (hsub : t.isSubscribed = true) :
    t.Sound :=
  ⟨fun hs => absurd hsub (by simp [hs]), fun _ => h, fun hf => absurd hf hfin⟩

theorem Sound.of_endsStopped (h : EndsStopped t.emitted) (hfin : t.Finishing)
    (hsub : t.isSubscribed = true ∨ t.phase = .ended) : t.Sound := by
  refine ⟨fun hs he => ?_, fun hf => absurd hfin hf, fun _ => .inr h⟩
  rcases hsub with hsub | hsub
  · rw [hs] at hsub
    cases hsub
  · exact absurd hsub he

theorem Sound.followingOf (h : t.Sound) (hsub : t.isSubscribed = false)
    (hended : t.phase ≠ .ended) :
    t.Following := by
  apply h.following
  rintro (honce | hp | hp)
  · rw [(h.quiet hsub hended).1] at honce
    cases honce
  · simp [isSubscribed, hp] at hsub
  · exact hended hp

theorem Sound.move (h : t.Sound) (hp : t.phase ≠ .leaving ∧ t.phase ≠ .ended)
    {phase : TrackerPhase} (hphase : phase ≠ .leaving ∧ phase ≠ .ended)
    (hsub : t.isSubscribed = true → phase = .waiting ∨ ∃ state, phase = .queried state)
    (tracked : Option TunnelState) : Sound { t with phase := phase, tracked := tracked } := by
  have hfin : Finishing { t with phase := phase, tracked := tracked } ↔ t.Finishing := by
    simp only [Finishing, hp, hphase]
  refine ⟨fun hs _ => ?_, fun hf => ?_, fun hf => h.finished (hfin.mp hf)⟩
  · cases hold : t.isSubscribed with
    | false => exact h.quiet hold hp.2
    | true =>
      rcases hsub hold with rfl | ⟨state, rfl⟩
      · cases hs
      · cases hs
  · obtain ⟨hemitted, hlast⟩ := h.following (hf ∘ hfin.mpr)
    exact ⟨hemitted, hlast⟩

theorem Sound.leave (h : t.Sound) (hfin : t.Finishing) {phase : TrackerPhase}
    (hphase : phase = .leaving ∨ phase = .ended) (tracked : Option TunnelState) :
    Sound { t with phase := phase, tracked := tracked } := by
  refine ⟨fun hs he => ?_, fun hf => absurd (.inr hphase) hf, fun _ => h.finished hfin⟩
  rcases hphase with rfl | rfl
  · cases hs
  · exact absurd rfl he

theorem Sound.directCall (h : t.Sound) (honce : t.once = false) {state : UInt32}
    (hphase : t.phase = .queried state) {query : Option ServiceStatus} {config : ServiceConfig}
    (hstep : trackerStep t (.directCall query config) = some t') : t'.Sound := by
  have hfin : ¬ t.Finishing := by simp [Finishing, honce, hphase]
  have hcall := (h.following hfin).callback (svcStateToNotifyState state) query config
  have hframe := t.callback_frame (svcStateToNotifyState state) query config
  simp only [trackerStep, hphase] at hstep
  generalize t.callback (svcStateToNotifyState state) query config = r at hstep hcall hframe
  obtain ⟨t₁, done⟩ := r
  cases done with
  | true =>
    cases hstep
    exact .of_endsStopped hcall (.inr (.inl rfl)) (.inl rfl)
  | false =>
    cases hstep
    have hset : t₁.once = false := hframe.2.trans honce
    refine .of_following ⟨hcall.emitted, hcall.lastState⟩ ?_ rfl
    simp [Finishing, hset]

theorem Sound.deliver (h : t.Sound) (hsub : t.isSubscribed = true) (hfin : ¬ t.Finishing)
    (notification : UInt32) (status query : Option ServiceStatus) (config : ServiceConfig) :
    (t.deliver notification status query config).Sound := by
  unfold Tracker.deliver
  dsimp only
  generalize (match notification == 0, status with
    | true, some status => svcStateToNotifyState status.state
    | _, _ => notification) = notification'
  have hcall := (h.following hfin).callback notification' query config
  obtain ⟨hphase, honce⟩ := t.callback_frame notification' query config
  generalize t.callback notification' query config = r at hcall hphase honce ⊢
  obtain ⟨t₁, done⟩ := r
  change t₁.phase = t.phase at hphase
  change t₁.once = t.once at honce
  have hsub₁ : t₁.isSubscribed = true := by
    unfold isSubscribed at hsub ⊢
    rw [hphase]
    exact hsub
  cases done with
  | true => exact .of_endsStopped hcall (.inl rfl) (.inl hsub₁)
  | false =>
    refine .of_following hcall ?_ hsub₁
    unfold Finishing at hfin ⊢
    rw [hphase, honce]
    exact hfin

end Tracker

/-- No call of the callback is made after another one has reported the stop: the direct
call only while no notification has, a notification only while the direct call has not. -/
def NoLateCallback (t : Tracker) : TrackerAction → Prop
  | .directCall _ _ => t.once = false
  | .notification .. => t.phase = .leaving → t.once = true
  | _ => True

instance (t : Tracker) (a : TrackerAction) : Decidable (NoLateCallback t a) := by
  cases a <;> unfold NoLateCallback <;> infer_instance

theorem sound_step (t : Tracker) (a : TrackerAction) (t' : Tracker) (hsound : t.Sound)
    (ha : NoLateCallback t a) (h : trackerStep t a = some t') : t'.Sound := by
  cases a with
  | register =>
    simp only [trackerStep] at h
    split_ifs at h with hphase htracked
    all_goals
      have hp : t.phase = .created := not_not.mp hphase
      cases h
    · have hquiet := (hsound.quiet (by simp [Tracker.isSubscribed, hp]) (by simp [hp])).2
      exact ⟨fun _ he => absurd rfl he, fun hf => absurd (.inr (.inr rfl)) hf, fun _ => .inl hquiet⟩
    · exact hsound.move (by simp [hp]) (by simp) (by simp [Tracker.isSubscribed, hp]) _
  | check config =>
    simp only [trackerStep, Tracker.checkForDisabled] at h
    split_ifs at h with hphase hdisabled
    all_goals
      have hp : t.phase = .checking := not_not.mp hphase
      cases h
    · have hf := hsound.followingOf (by simp [Tracker.isSubscribed, hp]) (by simp [hp])
      exact .of_endsStopped (hf.endsStopped none) (.inr (.inr rfl)) (.inr rfl)
    · exact hsound.move (by simp [hp]) (by simp) (by simp [Tracker.isSubscribed, hp]) _
  | subscribe err config =>
    cases err with
    | none =>
      simp only [trackerStep] at h
      split_ifs at h with hphase
      have hp : t.phase = .subscribing := not_not.mp hphase
      cases h
      exact hsound.move (by simp [hp]) (by simp) (by simp [Tracker.isSubscribed, hp]) _
    | some err =>
      simp only [trackerStep, Tracker.checkForDisabled] at h
      split_ifs at h with hphase hdisabled
      all_goals
        have hp : t.phase = .subscribing := not_not.mp hphase
        have hf := hsound.followingOf (by simp [Tracker.isSubscribed, hp]) (by simp [hp])
        cases h
        exact .of_endsStopped (hf.endsStopped _) (.inr (.inr rfl)) (.inr rfl)
  | query status =>
    simp only [trackerStep] at h
    split_ifs at h with hphase
    have hp : t.phase = .subscribed := not_not.mp hphase
    cases status with
    | none =>
      cases h
      exact hsound.move (by simp [hp]) (by simp) (fun _ => .inl rfl) _
    | some status =>
      cases h
      exact hsound.move (by simp [hp]) (by simp) (fun _ => .inr ⟨_, rfl⟩) _
  | directCall query config =>
    cases hp : t.phase with
    | queried state => exact hsound.directCall ha hp h
    | _ => simp [trackerStep, hp] at h
  | notification notification status query config =>
    simp only [trackerStep] at h
    split_ifs at h with hsub honce
    · cases h
      exact hsound
    · cases h
      have hsub' : t.isSubscribed = true := by simpa using hsub
      refine hsound.deliver hsub' ?_ _ _ _ _
      rintro (hset | hp | hp)
      · exact honce hset
      · exact honce (ha hp)
      · simp [Tracker.isSubscribed, hp] at hsub'
  | wake =>
    simp only [trackerStep] at h
    split_ifs at h with hwake
    cases h
    exact hsound.leave (.inl hwake.2) (.inl rfl) _
  | unsubscribe =>
    simp only [trackerStep] at h
    split_ifs at h with hphase
    cases h
    exact hsound.leave (.inr (.inl hphase)) (.inr rfl) _

theorem sound_created (tracked : Option TunnelState) : Tracker.Sound { tracked } :=
  ⟨fun _ _ => ⟨rfl, rfl⟩, fun _ => ⟨fun _ hc => absurd hc List.not_mem_nil, by simp⟩,
    fun _ => .inl rfl⟩

/-- In every run in which no call of the callback follows one that reported the stop,
nothing is emitted after `TunnelStopped`, and a run that has ended and emitted something
has emitted `TunnelStopped` last. -/
theorem tracker_ends_stopped {tracked : Option TunnelState} {as : List TrackerAction} {t : Tracker}
    (hlate : Along trackerStep NoLateCallback { tracked } as)
    (h : exec trackerStep { tracked } as = some t) :
    StoppedIsLast t.emitted ∧
      (t.phase = .ended → t.emitted ≠ [] → t.emitted.getLast?.map (·.state) = some .stopped) := by
  have hsound := invariant_along sound_step (sound_created tracked) hlate h
  by_cases hfin : t.Finishing
  · rcases hsound.finished hfin with hnil | hstopped
    · rw [hnil]
      exact ⟨fun _ hc => absurd hc List.not_mem_nil, fun _ hne => absurd rfl hne⟩
    · refine ⟨hstopped.stoppedIsLast, fun _ _ => ?_⟩
      obtain ⟨before, err, hemitted, -⟩ := hstopped
      simp [hemitted]
  · refine ⟨(hsound.following hfin).emitted.stoppedIsLast, fun hended => ?_⟩
    exact absurd (.inr (.inr hended)) hfin

def trackStoppedService : List TrackerAction :=
  [.register, .check (.startType 2), .subscribe none .failed, .query (some { state := 1 }),
    .directCall (some { state := 1, win32ExitCode := errorServiceNeverStarted }) .failed]

theorem tracker_ends_stopped_service :
    ∃ t, exec trackerStep {} (trackStoppedService ++ [.unsubscribe]) = some t ∧
      t.emitted.getLast?.map (·.state) = some .stopped := by
  refine ⟨_, rfl, ?_⟩
  have hlate : Along trackerStep NoLateCallback { tracked := none }
      (trackStoppedService ++ [.unsubscribe]) := by decide
  exact (tracker_ends_stopped hlate rfl).2 rfl (by decide)

/-- If the service starts before the subscription is removed, the run ends with the tunnel
reported as started, and the tunnel no longer tracked. -/
theorem tracker_started_after_stopped :
    ∃ t, exec trackerStep {} (trackStoppedService ++
        [.notification 0x8 none none .failed, .unsubscribe]) = some t ∧
      t.phase = .ended ∧ t.emitted = [⟨.stopped, none⟩, ⟨.started, none⟩] ∧
      ¬ StoppedIsLast t.emitted := by
  refine ⟨_, rfl, rfl, by decide, fun h => ?_⟩
  exact h ⟨.stopped, none⟩ (by decide) rfl

end WireGuardWindows.Manager
