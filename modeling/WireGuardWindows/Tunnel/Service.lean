import WireGuardWindows.Services.Errors
import WireGuardWindows.Systems.Effects
import WireGuardWindows.Systems.Runs
import WireGuardWindows.Tunnel.InterfaceWatcher
import WireGuardWindows.Conf.Intersects

/-!
# The service of a tunnel

`tunnelService.Execute` acquires the parts of a tunnel one after the other, waits for a reason to
stop, and gives everything back in a deferred function, which runs however it ends. The
answers of the calls are data (`Outside`), and so is what the loop receives. What `Execute` does is
recorded; `Life` says which records make a tunnel that comes up and goes down in order.

Left out are the log, the watchdog of the shutdown, and the reads of versions and pitfalls.
-/

namespace WireGuardWindows.Tunnel.Service
open GoStd Conf Systems Services

inductive Resource
  | tlsFiles | watcher | nativeTun | adapter | device | uapi | routeMonitor
  deriving DecidableEq

inductive Script
  | preUp | postUp | preDown | postDown
  deriving DecidableEq

inductive ServiceState
  | startPending | running | stopPending
  deriving DecidableEq

inductive Effect
  /-- A status for Windows; with `accepts` the service can be stopped. -/
  | status (state : ServiceState) (accepts : Bool)
  | acquire (r : Resource)
  | release (r : Resource)
  /-- A command was started. -/
  | script (which : Script) (command : Str)
  | enableFirewall
  | dropPrivileges
  /-- `watcher.Configure`. -/
  | configure
  /-- The loop that accepts connections to the named pipe. -/
  | serve
  deriving DecidableEq

def Resource.all : List Resource :=
  [.tlsFiles, .watcher, .nativeTun, .adapter, .device, .uapi, .routeMonitor]

theorem Resource.mem_all (r : Resource) : r ∈ Resource.all := by
  cases r <;> decide

def Resource.needs : Resource → List Resource
  | .device => [.nativeTun]
  | .uapi | .routeMonitor => [.device]
  | _ => []

def Resource.isInterface : Resource → Bool
  | .nativeTun | .adapter => true
  | _ => false

structure Life where
  status : ServiceState := .startPending
  held : Resource → Bool := fun _ => false
  firewall : Bool := false
  dropped : Bool := false
  configured : Bool := false

namespace Life

def interface (l : Life) : Bool := l.held .nativeTun || l.held .adapter

def stopping (l : Life) : Bool := l.status = .stopPending

/-- The conditions of a resource besides those it needs all the time: the interface is made once and
with privileges, the device without them and behind the firewall. -/
def mayAcquire (l : Life) : Resource → Bool
  | .tlsFiles => true
  | .watcher => l.held .tlsFiles
  | .nativeTun | .adapter => l.held .watcher && !l.interface && !l.dropped
  | .device => l.dropped && l.firewall
  | .uapi => true
  | .routeMonitor => l.held .uapi

/-- An interface goes after its watcher, which takes the firewall down, and nothing goes before
what needs it. -/
def mayRelease (l : Life) (r : Resource) : Bool :=
  Resource.all.all (fun r' =>
    !(l.held r' && r ∈ r'.needs)) && (!r.isInterface || (!l.firewall && !l.held .watcher))

def may (l : Life) : Effect → Bool
  | .status state accepts => !l.stopping && (state ≠ .startPending || l.status = .startPending) &&
    (!accepts || l.configured)
  | .acquire r => !l.stopping && !l.held r && r.needs.all l.held && l.mayAcquire r
  | .release r => l.stopping && l.held r && l.mayRelease r
  | .script .preUp _ => !l.stopping && l.interface && !l.dropped
  | .script .postUp _ => !l.stopping && l.configured
  | .script .preDown _ => l.stopping && l.configured && l.interface
  | .script .postDown _ => l.stopping && l.configured && Resource.all.all fun r => !l.held r
  | .enableFirewall => !l.stopping && l.interface && l.held .watcher
  | .dropPrivileges => !l.stopping && l.firewall
  | .configure => !l.stopping && l.interface && l.held .watcher && l.dropped
  | .serve => l.held .device && l.held .uapi

def after (l : Life) : Effect → Life
  | .status state _ => { l with status := state }
  | .acquire r => { l with held := Function.update l.held r true }
  | .release r =>
    { l with held := Function.update l.held r false, firewall := l.firewall && r ≠ .watcher }
  | .script _ _ => l
  | .enableFirewall => { l with firewall := true }
  | .dropPrivileges => { l with dropped := true }
  | .configure => { l with configured := true }
  | .serve => l

def step (l : Life) (e : Effect) : Option Life := if l.may e then some (l.after e) else none

end Life

inductive ScriptOutcome
  | notStarted (err : Err)
  | waitFailed (err : Err)
  | exited (code : UInt32)

inductive Control
  | stop | shutdown | interrogate | other

inductive Event
  | deviceClosed
  | control (c : Control)
  | started
  | error (serviceError : Watcher.WatcherError) (err : Err)

/-- The answers of the calls; those given here are the ones of a tunnel that comes up. -/
structure Outside where
  logFile : Except Err Unit := .ok ()
  initGlobalLogger : Except Err Unit := .ok ()
  loadFromPath : Except Err Config
  prepareWSTLSFiles : Except Err Unit := .ok ()
  startedAtBoot : Bool := false
  /-- Windows starts services under a lock. -/
  lockedSCM : Bool := false
  watchInterface : Except Err Unit := .ok ()
  resolveEndpoints : Config → Except Err Config := .ok
  /-- The attempts to make the interface. -/
  create : Nat → Except Err Unit := fun _ => .ok ()
  setLogging : Except Err Unit := .ok ()
  dangerousScriptExecution : Bool := false
  script : Script → ScriptOutcome := fun _ => .exited 0
  enableFirewall : Except Err Unit := .ok ()
  dropAllPrivileges : Except Err Unit := .ok ()
  newMultiplexBind : Except Err Unit := .ok ()
  uapiListen : Except Err Unit := .ok ()
  ipcSet : Except Err Unit := .ok ()
  newDefaultRouteMonitor : Except Err Unit := .ok ()
  up : Except Err Unit := .ok ()
  start : Except Err Unit := .ok ()
  setConfiguration : Except Err Unit := .ok ()
  setAdapterState : Except Err Unit := .ok ()

structure Vars where
  /-- The variables that are not nil. -/
  held : Resource → Bool := fun _ => false
  config : Option Config := none
  serviceState : ServiceState := .startPending
  trace : List Effect := []

abbrev Run := EStateM (Services.Error × Err) Vars

def Vars.emit (v : Vars) (e : Effect) : Vars := { v with trace := v.trace ++ [e] }

def emit (e : Effect) : Run Unit := modify fun v => v.emit e

def Vars.setState (v : Vars) (state : ServiceState) (accepts : Bool) : Vars :=
  { v.emit (.status state accepts) with serviceState := state }

def setState (state : ServiceState) (accepts : Bool) : Run Unit :=
  modify fun v => v.setState state accepts

def orFail {α : Type} (serviceError : Services.Error) : Except Err α → Run α
  | .ok a => pure a
  | .error err => throw (serviceError, err)

def acquire (r : Resource) : Run Unit :=
  modify fun v => { v.emit (.acquire r) with held := Function.update v.held r true }

def errorGenericCommandFailed : UInt32 := 14109

def runScriptCommand (o : Outside) (which : Script) (command : Str) : List Effect × Option Err :=
  if command = [] then ([], none)
  else if !o.dangerousScriptExecution then ([], none)
  else match o.script which with
    | .notStarted err => ([], some err)
    | .waitFailed err => ([.script which command], some err)
    | .exited code =>
      ([.script which command],
        if code = 0 then none else some {
          text := str "generic command failed"
          errno := some errorGenericCommandFailed })

def runUpScript (o : Outside) (which : Script) (command : Str) : Run Unit := do
  (runScriptCommand o which command).1.forM emit
  match (runScriptCommand o which command).2 with
  | none => pure ()
  | some err => throw (.runScript, err)

def createInterface (o : Outside) : Nat → Except Err Unit
  | 0 => o.create 14
  | left + 1 => match o.create (13 - left) with
    | .ok () => .ok ()
    | .error err => if !o.startedAtBoot then .error err else createInterface o left

def bringUpDevice (o : Outside) : Run Unit := do
  orFail .deviceSetConfig o.newMultiplexBind
  acquire .device
  orFail .uapiListen o.uapiListen
  acquire .uapi
  orFail .deviceSetConfig o.ipcSet
  orFail .bindSocketsToDefaultRoutes o.newDefaultRouteMonitor
  acquire .routeMonitor
  orFail .deviceBringUp o.up
  orFail .bindSocketsToDefaultRoutes o.start
  emit .configure
  emit .serve

def bringUpAdapter (o : Outside) : Run Unit := do
  orFail .deviceSetConfig o.setConfiguration
  orFail .deviceBringUp o.setAdapterState
  emit .configure

def bringUpBackend (o : Outside) : Run Unit := do
  let v ← get
  if v.held .nativeTun then bringUpDevice o else bringUpAdapter o

/-- Windows would wait for the service before it starts the driver. -/
def announceAtBoot (o : Outside) : Run Unit :=
  if o.startedAtBoot && o.lockedSCM then setState .running false else pure ()

def within (what : Str) : Except Err Unit → Except Err Unit
  | .ok () => .ok ()
  | .error err => .error { err with text := what ++ str ": " ++ err.text }

def makeInterface (o : Outside) (config : Config) : Run Unit := do
  orFail .createNetworkAdapter (within (str "Error creating adapter") (createInterface o 14))
  if config.hasWebSocketPeers then acquire .nativeTun
  else do
    acquire .adapter
    orFail .createNetworkAdapter (within (str "Error enabling adapter logging") o.setLogging)

def load (o : Outside) : Run Config := do
  orFail .ringloggerOpen o.logFile
  orFail .ringloggerOpen o.initGlobalLogger
  let config ← orFail .loadConfiguration o.loadFromPath
  let config := config.deduplicateNetworkEntries
  modify fun v => { v with config := some config }
  orFail .loadConfiguration o.prepareWSTLSFiles
  acquire .tlsFiles
  return config

def reportState : Run Unit := do
  let v ← get
  emit (.status v.serviceState true)

/-- From the watcher to the loop. -/
def bringUpInterface (o : Outside) (config : Config) : Run Unit := do
  orFail .setNetConfig o.watchInterface
  acquire .watcher
  let config ← orFail .dnsLookup (o.resolveEndpoints config)
  modify fun v => { v with config := some config }
  makeInterface o config
  runUpScript o .preUp config.interface.preUp
  orFail .firewall o.enableFirewall
  emit .enableFirewall
  orFail .dropPrivileges o.dropAllPrivileges
  emit .dropPrivileges
  bringUpBackend o
  runUpScript o .postUp config.interface.postUp
  reportState

def bringUp (o : Outside) : Run Unit := do
  let config ← load o
  announceAtBoot o
  bringUpInterface o config

def serviceErrorOf : Watcher.WatcherError → Services.Error
  | .monitorMTUChanges => .monitorMTUChanges
  | .setNetConfig => .setNetConfig
  | .createNetworkAdapter => .createNetworkAdapter

def reportStarted (started : Bool) : Run Unit :=
  if !started then setState .running true else pure ()

/-- The loop of `Execute`; `false` says that it still waits. -/
def loop : Bool → List Event → Run Bool
  | _, [] => pure false
  | started, .deviceClosed :: events => do
    -- the channel of a device that is nil never becomes ready
    let v ← get
    if v.held .device then pure true else loop started events
  | _, .control .stop :: _ => pure true
  | _, .control .shutdown :: _ => pure true
  | started, .control .interrogate :: events => do
    reportState
    loop started events
  | started, .control .other :: events => loop started events
  | started, .started :: events => do
    reportStarted started
    loop true events
  | _, .error e err :: _ => throw (serviceErrorOf e, err)

def Vars.release (v : Vars) (r : Resource) : Vars := if v.held r then v.emit (.release r) else v

/-- Assumed of `wireguard-go`: `dev.Close` closes the interface that the device was made with. -/
def Vars.closeDevice (v : Vars) : Vars :=
  if v.held .device then (v.emit (.release .device)).emit (.release .nativeTun)
    else v.release .nativeTun

def Vars.closeAll (v : Vars) : Vars :=
  ((((v.release .watcher).release .routeMonitor).release .uapi).closeDevice.release
    .adapter).release .tlsFiles

def Vars.runDownScript (v : Vars) (o : Outside) (which : Script) (command : Config → Str)
    (logErr : Option Err) : Vars × Option Err :=
  match logErr, v.held .adapter || v.held .nativeTun, v.config with
  | none, true, some config =>
    let r := runScriptCommand o which (command config)
    (r.1.foldl Vars.emit v, r.2)
  | _, _, _ => (v, logErr)

/-- The deferred function. -/
def Vars.shutDown (v : Vars) (o : Outside) (logErr : Option Err) : Vars :=
  let v := v.setState .stopPending false
  let down := v.runDownScript o .preDown (fun config => config.interface.preDown) logErr
  (down.1.closeAll.runDownScript o .postDown (fun config => config.interface.postDown) down.2).1

/-- `Execute` without its deferred function. -/
def body (o : Outside) (events : List Event) : EStateM.Result (Services.Error × Err) Vars Bool :=
  (bringUp o >>= fun _ => loop false events) (Vars.emit {} (.status .startPending false))

/-- What `Execute` did, and what it returned, if it did return. -/
def execute (o : Outside) (events : List Event) : Vars × Option (Bool × UInt32) :=
  match body o events with
  | .ok false v => (v, none)
  | .ok true v =>
    (v.shutDown o (combineErrors none .success), some (determineErrorCode none .success))
  | .error (serviceError, err) v =>
    (v.shutDown o (combineErrors (some err) serviceError),
    some (determineErrorCode (some err) serviceError))

def lifeOf (trace : List Effect) : Option Life := exec Life.step {} trace

theorem lifeOf_append {trace : List Effect} {l : Life} (h : lifeOf trace = some l) {e : Effect}
    (hmay : l.may e = true) :
    lifeOf (trace ++ [e]) = some (l.after e) := by
  rw [lifeOf] at h ⊢
  rw [exec_append, h]
  simp [exec, Life.step, hmay]

structure At (l : Life) (v : Vars) : Prop where
  lives : lifeOf v.trace = some l
  held : v.held = l.held
  status : v.serviceState = l.status

def Fails (f : Services.Error × Err) (v : Vars) : Prop :=
  f.1 ≠ .success ∧ ∃ l, At l v ∧ l.stopping = false

section
variable {l : Life}

theorem ends_emit {e : Effect} (hmay : l.may e = true) (hheld : (l.after e).held = l.held)
    (hstatus : (l.after e).status = l.status) :
    Ends (At l) (emit e) (fun _ => At (l.after e)) Fails :=
  .modify fun _ hv => ⟨lifeOf_append hv.lives hmay, hv.held.trans hheld.symm,
  hv.status.trans hstatus.symm⟩

theorem ends_acquire {r : Resource} (hmay : l.may (.acquire r) = true) :
    Ends (At l) (acquire r) (fun _ => At (l.after (.acquire r))) Fails := by
  refine .modify fun v hv => ⟨lifeOf_append hv.lives hmay, ?_, hv.status⟩
  simp only [Life.after, hv.held]

theorem ends_setState {state : ServiceState} {accepts : Bool}
    (hmay : l.may (.status state accepts) = true) :
    Ends (At l) (setState state accepts) (fun _ => At (l.after (.status state accepts))) Fails :=
  .modify fun _ hv => ⟨lifeOf_append hv.lives hmay, hv.held, rfl⟩

theorem ends_orFail {α : Type} {serviceError : Services.Error} (x : Except Err α)
    (herror : serviceError ≠ .success) (hstop : l.stopping = false) :
    Ends (At l) (orFail serviceError x) (fun _ => At l) Fails := by
  cases x with
  | ok a => exact .pure fun _ hv => hv
  | error err => exact .throw fun _ hv => ⟨herror, l, hv, hstop⟩

theorem ends_setConfig (config : Option Config) :
    Ends (At l) (modify fun v => { v with config } : Run PUnit) (fun _ => At l) Fails :=
  .modify fun _ hv => ⟨hv.lives, hv.held, hv.status⟩

end

def stage (status : ServiceState) (held : List Resource) (firewall dropped configured : Bool) :
    Life :=
  ⟨status, fun r => decide (r ∈ held), firewall, dropped, configured⟩

section
variable {status : ServiceState} {held : List Resource} {firewall dropped configured : Bool}

theorem stage_acquire (r : Resource) :
    (stage status held firewall dropped configured).after (.acquire r) = stage status
    (r :: held) firewall dropped configured := by
  simp only [stage, Life.after, Life.mk.injEq, true_and, and_true]
  funext r'
  by_cases hr : r' = r
  · simp [hr]
  · simp [hr]

theorem ends_stage_acquire {r : Resource}
    (hmay : (stage status held firewall dropped configured).may (.acquire r) = true) :
    Ends (At (stage status held firewall dropped configured)) (acquire r)
    (fun _ => At (stage status (r :: held) firewall dropped configured))
      Fails := by
  rw [← stage_acquire]
  exact ends_acquire hmay

theorem stopping_stage (hup : status ≠ .stopPending) :
    (stage status held firewall dropped configured).stopping = false :=
  decide_eq_false hup

theorem runScriptCommand_effects {o : Outside} {which : Script} {command : Str} {e : Effect}
    (he : e ∈ (runScriptCommand o which command).1) :
    e = .script which command := by
  rw [runScriptCommand] at he
  split at he
  · cases he
  · split at he
    · cases he
    · split at he
      · cases he
      · exact List.mem_singleton.mp he
      · exact List.mem_singleton.mp he

theorem may_stage (hup : status ≠ .stopPending) {e : Effect}
    (hmay : (stage .running held firewall dropped configured).may e = true)
    (hno : ∀ state accepts, e ≠ .status state accepts) :
    (stage status held firewall dropped configured).may e = true := by
  cases status with
  | running => exact hmay
  | stopPending => exact absurd rfl hup
  | startPending =>
    cases e with
    | status state accepts => exact absurd rfl (hno state accepts)
    | script which command => cases which <;> exact hmay
    | _ => exact hmay

theorem ends_runUpScript (o : Outside) {which : Script} (command : Str)
    (hup : status ≠ .stopPending)
    (hmay : (stage status held firewall dropped configured).may (.script which command) = true) :
    Ends (At (stage status held firewall dropped configured)) (runUpScript o which command)
      (fun _ => At (stage status held firewall dropped configured)) Fails := by
  have hscript : Ends (At (stage status held firewall dropped configured))
    (emit (.script which command))
      (fun _ => At (stage status held firewall dropped configured)) Fails := ends_emit hmay rfl rfl
  unfold runUpScript
  refine (Ends.forM fun e he => ?_).bind fun _ => ?_
  · rw [runScriptCommand_effects he]
    exact hscript
  · cases (runScriptCommand o which command).2 with
    | none => exact .pure fun _ hv => hv
    | some err => exact .throw fun v hv => ⟨fun heq => (by cases heq), _, hv, stopping_stage hup⟩

theorem ends_load (o : Outside) (hup : status ≠ .stopPending) :
    Ends (At (stage status [] false false false)) (load o)
      (fun _ => At (stage status [.tlsFiles] false false false)) Fails := by
  refine (ends_orFail _ (by decide) (stopping_stage hup)).bind fun _ => ?_
  refine (ends_orFail _ (by decide) (stopping_stage hup)).bind fun _ => ?_
  refine (ends_orFail _ (by decide) (stopping_stage hup)).bind fun config => ?_
  refine (ends_setConfig _).bind fun _ => ?_
  refine (ends_orFail _ (by decide) (stopping_stage hup)).bind fun _ => ?_
  exact (ends_stage_acquire (may_stage hup rfl (by simp))).bind fun _ => .pure fun _ hv => hv

def upHeld (userspace : Bool) : List Resource :=
  if userspace then [.routeMonitor, .uapi, .device, .nativeTun, .watcher, .tlsFiles]
    else [.adapter, .watcher, .tlsFiles]

def interfaceHeld (userspace : Bool) : List Resource :=
  if userspace then [.nativeTun, .watcher, .tlsFiles] else [.adapter, .watcher, .tlsFiles]

theorem ends_makeInterface (o : Outside) (config : Config) (hup : status ≠ .stopPending) :
    Ends (At (stage status [.watcher, .tlsFiles] false false false)) (makeInterface o config)
      (fun _ => At (stage status (interfaceHeld config.hasWebSocketPeers) false false false))
        Fails := by
  refine (ends_orFail _ (by decide) (stopping_stage hup)).bind fun _ =>
    .ite (fun hws => ?_) (fun hws => ?_)
  · rw [hws]
    exact ends_stage_acquire (may_stage hup rfl (by simp))
  · rw [Bool.eq_false_iff.mpr hws]
    exact (ends_stage_acquire (may_stage hup rfl (by simp))).bind fun _ =>
      ends_orFail _ (by decide) (stopping_stage hup)

theorem ends_bringUpDevice (o : Outside) (hup : status ≠ .stopPending) :
    Ends (At (stage status (interfaceHeld true) true true false)) (bringUpDevice o)
      (fun _ => At (stage status (upHeld true) true true true)) Fails := by
  refine (ends_orFail _ (by decide) (stopping_stage hup)).bind fun _ => ?_
  refine (ends_stage_acquire (may_stage hup rfl (by simp))).bind fun _ => ?_
  refine (ends_orFail _ (by decide) (stopping_stage hup)).bind fun _ => ?_
  refine (ends_stage_acquire (may_stage hup rfl (by simp))).bind fun _ => ?_
  refine (ends_orFail _ (by decide) (stopping_stage hup)).bind fun _ => ?_
  refine (ends_orFail _ (by decide) (stopping_stage hup)).bind fun _ => ?_
  refine (ends_stage_acquire (may_stage hup rfl (by simp))).bind fun _ => ?_
  refine (ends_orFail _ (by decide) (stopping_stage hup)).bind fun _ => ?_
  refine (ends_orFail _ (by decide) (stopping_stage hup)).bind fun _ => ?_
  exact (ends_emit (may_stage hup rfl (by simp)) rfl rfl).bind fun _ => ends_emit rfl rfl rfl

theorem ends_bringUpAdapter (o : Outside) (hup : status ≠ .stopPending) :
    Ends (At (stage status (interfaceHeld false) true true false)) (bringUpAdapter o)
      (fun _ => At (stage status (upHeld false) true true true)) Fails := by
  refine (ends_orFail _ (by decide) (stopping_stage hup)).bind fun _ => ?_
  refine (ends_orFail _ (by decide) (stopping_stage hup)).bind fun _ => ?_
  exact ends_emit (may_stage hup rfl (by simp)) rfl rfl

def Up (v : Vars) : Prop := ∃ l, At l v ∧ l.stopping = false ∧ l.configured = true

theorem ends_bringUpBackend (o : Outside) {userspace : Bool} (hup : status ≠ .stopPending) :
    Ends (At (stage status (interfaceHeld userspace) true true false)) (bringUpBackend o)
      (fun _ => At (stage status (upHeld userspace) true true true)) Fails := by
  refine Ends.get.bind fun v => ?_
  rintro t ⟨rfl, hat⟩
  have hheld : v.held .nativeTun = userspace := by
    rw [hat.held]
    cases userspace <;> rfl
  cases userspace with
  | true =>
    rw [if_pos hheld]
    exact ends_bringUpDevice o hup v hat
  | false =>
    rw [if_neg (by simp [hheld])]
    exact ends_bringUpAdapter o hup v hat

theorem ends_reportState {l : Life} (hstop : l.stopping = false)
    (hconfigured : l.configured = true) :
    Ends (At l) reportState (fun _ => At l) Fails := by
  refine Ends.get.bind fun v => ?_
  rintro t ⟨rfl, hat⟩
  have hmay : l.may (.status v.serviceState true) = true := by
    rw [hat.status]
    simp [Life.may, hstop, hconfigured]
  have hsame : l.after (.status v.serviceState true) = l := by
    rw [hat.status]
    rfl
  have hend := ends_emit hmay (by rw [hsame]) (by rw [hsame]) v hat
  rw [hsame] at hend
  exact hend

theorem ends_bringUpInterface (o : Outside) (config : Config) (hup : status ≠ .stopPending) :
    Ends (At (stage status [.tlsFiles] false false false)) (bringUpInterface o config)
      (fun _ => Up) Fails := by
  refine (ends_orFail _ (by decide) (stopping_stage hup)).bind fun _ => ?_
  refine (ends_stage_acquire (may_stage hup rfl (by simp))).bind fun _ => ?_
  refine (ends_orFail _ (by decide) (stopping_stage hup)).bind fun config => ?_
  refine (ends_setConfig _).bind fun _ => ?_
  refine (ends_makeInterface o config hup).bind fun _ => ?_
  generalize config.hasWebSocketPeers = userspace
  refine (ends_runUpScript o _ hup (may_stage hup (by cases userspace <;> rfl) (by simp))).bind
    fun _ => ?_
  refine (ends_orFail _ (by decide) (stopping_stage hup)).bind fun _ => ?_
  refine (ends_emit (may_stage hup (by cases userspace <;> rfl) (by simp)) rfl rfl).bind fun _ => ?_
  refine (ends_orFail _ (by decide) (stopping_stage hup)).bind fun _ => ?_
  refine (ends_emit (may_stage hup rfl (by simp)) rfl rfl).bind fun _ => ?_
  refine (ends_bringUpBackend o hup).bind fun _ => ?_
  refine (ends_runUpScript o _ hup (may_stage hup rfl (by simp))).bind fun _ => ?_
  exact (ends_reportState (stopping_stage hup) rfl).mono (fun _ hv => hv)
    (fun _ _ hv => ⟨_, hv, stopping_stage hup, rfl⟩) fun _ _ hf => hf

theorem ends_bringUp (o : Outside) :
    Ends (At (stage .startPending [] false false false)) (bringUp o) (fun _ => Up) Fails := by
  refine (ends_load o (by decide)).bind fun config => ?_
  have hannounce : Ends (At (stage .startPending [.tlsFiles] false false false)) (announceAtBoot o)
      (fun _ v => ∃ status, status ≠ .stopPending ∧
        At (stage status [.tlsFiles] false false false) v) Fails := by
    refine .ite (fun _ => ?_) (fun _ => .pure fun v hv => ⟨.startPending, by decide, hv⟩)
    exact (ends_setState rfl).mono (fun _ hv => hv) (fun _ _ hv => ⟨.running, by decide, hv⟩)
      fun _ _ hf => hf
  exact hannounce.bind fun _ => .exists_left fun status => .and_left fun hup =>
    ends_bringUpInterface o config hup

theorem Up.ends {α : Type} {x : Run α}
    (h : ∀ l : Life, l.stopping = false → l.configured = true → Ends (At l) x (fun _ => Up) Fails) :
    Ends Up x (fun _ => Up) Fails := by
  rintro v ⟨l, hv, hstop, hconfigured⟩
  exact h l hstop hconfigured v hv

theorem serviceErrorOf_ne (e : Watcher.WatcherError) : serviceErrorOf e ≠ .success := by
  cases e <;> decide

theorem ends_loop (started : Bool) (events : List Event) :
    Ends Up (loop started events) (fun _ => Up) Fails := by
  induction events generalizing started with
  | nil => exact .pure fun _ hv => hv
  | cons event events ih =>
    cases event with
    | deviceClosed =>
      refine Ends.get.bind fun v => ?_
      rintro t ⟨rfl, hv⟩
      by_cases hdevice : v.held .device
      · rw [if_pos hdevice]
        exact hv
      · rw [if_neg hdevice]
        exact ih started v hv
    | control c =>
      cases c with
      | stop => exact .pure fun _ hv => hv
      | shutdown => exact .pure fun _ hv => hv
      | interrogate =>
        refine (Up.ends fun l hstop hconfigured => ?_).bind fun _ => ih started
        exact (ends_reportState hstop hconfigured).mono (fun _ hv => hv)
          (fun _ _ hv => ⟨l, hv, hstop, hconfigured⟩) fun _ _ hf => hf
      | other => exact ih started
    | started =>
      refine Ends.bind ?_ fun _ => ih true
      refine .ite (fun _ => Up.ends fun l hstop hconfigured => ?_) (fun _ => .pure fun _ hv => hv)
      have hmay : l.may (.status .running true) = true := by simp [Life.may, hstop, hconfigured]
      exact (ends_setState hmay).mono (fun _ hv => hv) (fun _ _ hv => ⟨_, hv, rfl, hconfigured⟩)
        fun _ _ hf => hf
    | error e err =>
      refine .throw ?_
      rintro v ⟨l, hv, hstop, -⟩
      exact ⟨serviceErrorOf_ne e, l, hv, hstop⟩

end

/-- What a life never has: a firewall without the watcher that takes it down, or a resource
without those it needs. -/
structure Life.Ok (l : Life) : Prop where
  firewall : l.firewall = true → l.held .watcher = true
  needs : ∀ r, l.held r = true → ∀ n ∈ r.needs, l.held n = true

theorem Life.mayRelease_iff {l : Life} {r : Resource} :
    l.mayRelease r = true ↔ (∀ r', l.held r' = true → r ∉ r'.needs) ∧
    (r.isInterface = true → l.firewall = false ∧ l.held .watcher = false) := by
  simp only [Life.mayRelease, Bool.and_eq_true, List.all_eq_true, Resource.mem_all, true_implies,
    Bool.not_eq_true', Bool.and_eq_false_iff, decide_eq_false_iff_not, Bool.or_eq_true]
  constructor
  · rintro ⟨hneeds, hinterface⟩
    refine ⟨fun r' hr' => (hneeds r').resolve_left (by simp [hr']), fun hr =>
      hinterface.resolve_left (by simp [hr])⟩
  · rintro ⟨hneeds, hinterface⟩
    refine ⟨fun r' => ?_, ?_⟩
    · cases hr' : l.held r' with
      | false => exact .inl rfl
      | true => exact .inr (hneeds r' hr')
    · cases hr : r.isInterface with
      | false => exact .inl rfl
      | true => exact .inr (hinterface hr)

theorem Life.Ok.after {l : Life} (hl : l.Ok) {e : Effect} (hmay : l.may e = true) :
    (l.after e).Ok := by
  cases e with
  | acquire r =>
    simp only [Life.may, Bool.and_eq_true, List.all_eq_true] at hmay
    obtain ⟨⟨-, hneeds⟩, -⟩ := hmay
    have hkeep : ∀ {n}, l.held n = true → Function.update l.held r true n = true := by
      intro n hn
      by_cases hnr : n = r
      · rw [hnr, Function.update_self]
      · rw [Function.update_of_ne hnr, hn]
    refine ⟨fun hfirewall => hkeep (hl.firewall hfirewall), fun r' hr' n hn => hkeep ?_⟩
    by_cases hrr : r' = r
    · subst hrr
      exact hneeds n hn
    · exact hl.needs r' ((Function.update_of_ne hrr _ _).symm.trans hr') n hn
  | release r =>
    simp only [Life.may, Bool.and_eq_true, Life.mayRelease_iff] at hmay
    obtain ⟨-, hneeds, -⟩ := hmay
    have hother : ∀ {n}, Function.update l.held r false n = true → n ≠ r ∧ l.held n = true := by
      intro n hn
      by_cases hnr : n = r
      · rw [hnr, Function.update_self] at hn
        cases hn
      · rw [Function.update_of_ne hnr] at hn
        exact ⟨hnr, hn⟩
    constructor
    · intro hfirewall
      simp only [Life.after, Bool.and_eq_true, decide_eq_true_eq] at hfirewall ⊢
      rw [Function.update_of_ne hfirewall.2.symm]
      exact hl.firewall hfirewall.1
    · intro r' hr' n hn
      have hbefore := (hother hr').2
      have hnr : n ≠ r := by
        rintro rfl
        exact hneeds r' hbefore hn
      exact (Function.update_of_ne hnr _ _).trans (hl.needs r' hbefore n hn)
  | enableFirewall =>
    simp only [Life.may, Bool.and_eq_true] at hmay
    exact ⟨fun _ => hmay.2, hl.needs⟩
  | _ => exact ⟨hl.firewall, hl.needs⟩

theorem ok_of_lifeOf {trace : List Effect} {l : Life} (h : lifeOf trace = some l) : l.Ok := by
  refine invariant (fun l e l' hl hstep => ?_) ⟨?_, ?_⟩ h
  · obtain ⟨hmay, ⟨⟩⟩ := Option.ite_none_right_eq_some.mp hstep
    exact hl.after hmay
  · exact fun h => by cases h
  · exact fun r h => by cases h

def Closable (rs : List Resource) : Prop :=
  rs.Pairwise fun r r' => r ≠ r' ∧ r ∉ r'.needs ∧ (r.isInterface = true → r' ≠ .watcher)

theorem Resource.not_needs_self (r : Resource) : r ∉ r.needs := by
  cases r <;> decide

theorem lives_release {v : Vars} {l : Life} {r : Resource} (hlife : lifeOf v.trace = some l)
    (hheld : v.held r = l.held r) (hstop : l.stopping = true) (hmay : l.mayRelease r = true) :
    lifeOf (v.release r).trace = some (l.after (.release r)) := by
  rw [Vars.release]
  split
  · rename_i hr
    refine lifeOf_append hlife ?_
    simp [Life.may, hstop, hmay, ← hheld, hr]
  · rename_i hr
    have hr : l.held r = false := by rw [← hheld, Bool.eq_false_iff.mpr hr]
    have hsame : l.after (.release r) = l := by
      have hupdate : Function.update l.held r false = l.held := by
        rw [← hr, Function.update_eq_self]
      have hfirewall : (l.firewall && decide (r ≠ .watcher)) = l.firewall := by
        by_cases hw : r = .watcher
        · subst hw
          have hfirewall : l.firewall = false := by
            rw [← Bool.not_eq_true]
            exact fun h => absurd ((ok_of_lifeOf hlife).firewall h) (by simp [hr])
          simp [hfirewall]
        · simp [hw]
      simp only [Life.after, hupdate, hfirewall]
    rw [hsame]
    exact hlife

theorem held_release (v : Vars) (r : Resource) : (v.release r).held = v.held := by
  rw [Vars.release]
  split <;> rfl

theorem lives_close {rs : List Resource} (hrs : Closable rs) {v : Vars} {l : Life}
    (hlife : lifeOf v.trace = some l) (hstop : l.stopping = true)
    (hheld : ∀ r ∈ rs, v.held r = l.held r) (hin : ∀ r, l.held r = true → r ∈ rs) :
    ∃ l', lifeOf (rs.foldl Vars.release v).trace = some l' ∧ l'.stopping = true ∧ l'.configured =
      l.configured ∧ ∀ r, l'.held r = false := by
  induction rs generalizing v l with
  | nil =>
    refine ⟨l, hlife, hstop, rfl, fun r => ?_⟩
    rw [← Bool.not_eq_true]
    exact fun hr => absurd (hin r hr) List.not_mem_nil
  | cons r rs ih =>
    obtain ⟨hr, hrs⟩ := List.pairwise_cons.mp hrs
    have hmay : l.mayRelease r = true := by
      rw [Life.mayRelease_iff]
      refine ⟨fun r' hr' => ?_, fun hinterface => ?_⟩
      · rcases List.mem_cons.mp (hin r' hr') with rfl | hmem
        · exact r'.not_needs_self
        · exact (hr r' hmem).2.1
      · have hwatcher : l.held .watcher = false := by
          rw [← Bool.not_eq_true]
          intro hw
          rcases List.mem_cons.mp (hin .watcher hw) with heq | hmem
          · rw [← heq] at hinterface
            cases hinterface
          · exact (hr .watcher hmem).2.2 hinterface rfl
        refine ⟨?_, hwatcher⟩
        rw [← Bool.not_eq_true]
        exact fun h => absurd ((ok_of_lifeOf hlife).firewall h) (by simp [hwatcher])
    have hnext := lives_release hlife (hheld r List.mem_cons_self) hstop hmay
    refine ih hrs (l := l.after (.release r)) hnext hstop (fun r' hr' => ?_) fun r' hr' => ?_
    · rw [held_release, hheld r' (List.mem_cons_of_mem r hr')]
      exact (Function.update_of_ne (hr r' hr').1.symm _ _).symm
    · change Function.update l.held r false r' = true at hr'
      have hne : r' ≠ r := by
        rintro rfl
        rw [Function.update_self] at hr'
        cases hr'
      rw [Function.update_of_ne hne] at hr'
      exact (List.mem_cons.mp (hin r' hr')).resolve_left hne

def closing : List Resource :=
  [.watcher, .routeMonitor, .uapi, .device, .nativeTun, .adapter, .tlsFiles]

theorem closing_closable : Closable closing := by
  unfold Closable closing
  decide

theorem closeAll_eq {v : Vars} (h : v.held .device = true → v.held .nativeTun = true) :
    v.closeAll = closing.foldl Vars.release v := by
  have hdevice : ∀ w : Vars, w.held = v.held → w.closeDevice =
      (w.release .device).release .nativeTun := by
    intro w hw
    rw [Vars.closeDevice]
    split
    · rename_i hheld
      have hnative : w.held .nativeTun = true := by
        rw [hw] at hheld ⊢
        exact h hheld
      have hfirst : w.release .device = w.emit (.release .device) := by
        rw [Vars.release, if_pos hheld]
      rw [hfirst, Vars.release]
      exact (if_pos hnative).symm
    · rename_i hheld
      have hfirst : w.release .device = w := by rw [Vars.release, if_neg hheld]
      rw [hfirst]
  have hsame : (((v.release .watcher).release .routeMonitor).release .uapi).held = v.held := by
    simp only [held_release]
  rw [Vars.closeAll, hdevice _ hsame]
  rfl

theorem lives_runDownScript {v : Vars} {l : Life} (hlife : lifeOf v.trace = some l) (o : Outside)
    (which : Script) (command : Config → Str) (logErr : Option Err)
    (hmay : logErr = none → (v.held .adapter || v.held .nativeTun) = true → ∀ text,
      l.may (.script which text) = true)
    (hsame : ∀ text, l.after (.script which text) = l) :
    lifeOf (v.runDownScript o which command logErr).1.trace = some l ∧
    (v.runDownScript o which command logErr).1.held = v.held ∧
      ((v.runDownScript o which command logErr).2 = none → logErr = none) := by
  unfold Vars.runDownScript
  split
  · rename_i config hinterface hconfig
    have heffects : ∀ (effects : List Effect) (w : Vars),
      (∀ e ∈ effects, ∃ text, e = .script which text) → lifeOf w.trace = some l →
        lifeOf (effects.foldl Vars.emit w).trace = some l ∧
        (effects.foldl Vars.emit w).held = w.held := by
      intro effects
      induction effects with
      | nil => exact fun w _ hw => ⟨hw, rfl⟩
      | cons e effects ih =>
        intro w he hw
        obtain ⟨text, rfl⟩ := he e List.mem_cons_self
        have hnext := lifeOf_append hw (hmay rfl hinterface text)
        rw [hsame] at hnext
        exact ih (w.emit (.script which text)) (fun e' he' =>
          he e' (List.mem_cons_of_mem _ he')) hnext
    obtain ⟨hend, hheld⟩ := heffects (runScriptCommand o which (command config)).1 v
      (fun e he => ⟨_, runScriptCommand_effects he⟩) hlife
    exact ⟨hend, hheld, fun _ => rfl⟩
  · exact ⟨hlife, rfl, id⟩

/-- The deferred function ends every life, wherever `Execute` was. -/
theorem lives_shutDown {v : Vars} {l : Life} (hv : At l v) (hstop : l.stopping = false)
    (o : Outside) {logErr : Option Err} (hlog : logErr = none → l.configured = true) :
    ∃ l', lifeOf (v.shutDown o logErr).trace = some l' ∧ l'.stopping = true ∧ l'.firewall = false ∧
    ∀ r, l'.held r = false := by
  have hbegin : lifeOf (v.setState .stopPending false).trace =
      some (l.after (.status .stopPending false)) :=
    lifeOf_append hv.lives (by simp [Life.may, hstop])
  have hpreDown :=
    lives_runDownScript hbegin o .preDown (fun config => config.interface.preDown) logErr
    (fun hnone hinterface text => by
      have hinterface : l.interface = true := by
        rw [Life.interface, ← hv.held, Bool.or_comm]
        exact hinterface
      have hmay : (l.after (.status .stopPending false)).may (.script .preDown text) =
          (l.configured && l.interface) := by
        simp [Life.may, Life.stopping, Life.after, Life.interface]
      rw [hmay, hlog hnone, hinterface]
      rfl) fun _ => rfl
  rw [Vars.shutDown]
  generalize (v.setState .stopPending false).runDownScript o .preDown
    (fun config => config.interface.preDown) logErr = down at hpreDown ⊢
  obtain ⟨hdown, hheld, herr⟩ := hpreDown
  have hheld : down.1.held = l.held := hheld.trans hv.held
  have hnative : down.1.held .device = true → down.1.held .nativeTun = true := by
    rw [hheld]
    exact fun hdevice => (ok_of_lifeOf hv.lives).needs .device hdevice .nativeTun (by decide)
  obtain ⟨l', hclosed, hstop', hconfigured, hnone⟩ :=
    lives_close closing_closable hdown (by rfl) (fun r _ => by rw [hheld]; rfl) fun r _ => by
      cases r <;> decide
  rw [← closeAll_eq hnative] at hclosed
  have hpostDown :=
    lives_runDownScript hclosed o .postDown (fun config => config.interface.postDown) down.2
    (fun hnoErr _ text => by
      have hconfigured : l'.configured = true := hconfigured.trans (hlog (herr hnoErr))
      simp [Life.may, hstop', hconfigured, hnone]) fun _ => rfl
  refine ⟨l', hpostDown.1, hstop', ?_, hnone⟩
  rw [← Bool.not_eq_true]
  exact fun h => absurd ((ok_of_lifeOf hclosed).firewall h) (by simp [hnone])

theorem ends_body (o : Outside) (events : List Event) :
    (∀ stop v, body o events = .ok stop v → Up v) ∧ ∀ f v, body o events = .error f v →
    Fails f v := by
  have hbegin : At (stage .startPending [] false false false)
    (Vars.emit {} (.status .startPending false)) := ⟨by rfl, by rfl, rfl⟩
  have hends := (ends_bringUp o).bind fun _ => ends_loop false events
  exact ⟨fun _ _ hres => hends.ok hbegin hres, fun _ _ hres => hends.error hbegin hres⟩

/-- Whatever the calls answer and whatever the loop receives, `Execute` lives the life of a
tunnel: it waits configured, and when it has returned it holds nothing and has left no firewall
behind. -/
theorem execute_lives (o : Outside) (events : List Event) :
    ∃ l, lifeOf (execute o events).1.trace = some l ∧
      ((execute o events).2 = none → l.configured = true ∧ l.stopping = false) ∧
      ((execute o events).2.isSome → l.stopping = true ∧ l.firewall = false ∧ ∀ r,
        l.held r = false) := by
  rw [execute]
  cases hres : body o events with
  | ok stop v =>
    obtain ⟨l, hv, hstop, hconfigured⟩ := (ends_body o events).1 stop v hres
    cases stop with
    | false => exact ⟨l, hv.lives, fun _ => ⟨hconfigured, hstop⟩, fun hsome => by cases hsome⟩
    | true =>
      obtain ⟨l', hlife, hend⟩ := lives_shutDown hv hstop o fun _ => hconfigured
      exact ⟨l', hlife, fun hnone => (by cases hnone), fun _ => hend⟩
  | error f v =>
    obtain ⟨hreason, l, hv, hstop⟩ := (ends_body o events).2 f v hres
    have hlog : combineErrors (some f.2) f.1 ≠ none := by
      rw [combineErrors, if_pos hreason]
      exact Option.some_ne_none _
    obtain ⟨l', hlife, hend⟩ := lives_shutDown hv hstop o fun hnone => absurd hnone hlog
    exact ⟨l', hlife, fun hnone => (by cases hnone), fun _ => hend⟩

/-- The tracker of the manager tells why a tunnel has stopped: that no error happened only when
the loop was left without one, or for a code that it takes for success, and else the code of
Windows or the step that failed. -/
theorem exit_tells_reason {stoppedStatus : Bool × UInt32 → Manager.ServiceStatus}
    (hstatus : StatusOfExit stoppedStatus) {o : Outside} {events : List Event}
    {exit : Bool × UInt32} (h : (execute o events).2 = some exit) :
    (Manager.tunnelErrorOf (some (stoppedStatus exit)) = none ↔
      (∃ v, body o events = .ok true v) ∨ ∃ f v, body o events = .error f v ∧ f.2.swallowed) ∧
    ∀ f v, body o events = .error f v → ¬ f.2.swallowed →
      Manager.tunnelErrorOf (some (stoppedStatus exit)) =
        some (f.2.errno.elim (.service f.1.code) .errno) := by
  rw [execute] at h
  cases hres : body o events with
  | ok stop v =>
    rw [hres] at h
    cases stop with
    | false => cases h
    | true =>
      obtain rfl : (false, 0) = exit := Option.some.inj h
      have hnone := tunnelErrorOf_success hstatus false
      refine ⟨⟨fun _ => .inl ⟨v, rfl⟩, fun _ => hnone⟩, fun f w heq => ?_⟩
      cases heq
  | error f v =>
    rw [hres] at h
    obtain rfl : determineErrorCode (some f.2) f.1 = exit := Option.some.inj h
    obtain ⟨hswallowed, hkept⟩ :=
      tunnelErrorOf_failed hstatus ((ends_body o events).2 f v hres).1 f.2
    refine ⟨⟨fun hnone => .inr ⟨f, v, rfl, ?_⟩, ?_⟩, ?_⟩
    · by_contra hnot
      rw [hkept hnot] at hnone
      cases hnone
    · rintro (⟨w, heq⟩ | ⟨f', w, heq, hf⟩)
      · cases heq
      · cases heq
        exact hswallowed hf
    · intro f' w heq hf
      cases heq
      exact hkept hf

def plainStatus (exit : Bool × UInt32) : Manager.ServiceStatus :=
  if exit.2 = 0 then { state := 1 }
  else if exit.1 then
    { state := 1, win32ExitCode := Manager.errorServiceSpecificError,
      serviceSpecificExitCode := exit.2 }
  else { state := 1, win32ExitCode := exit.2 }

theorem plainStatus_statusOfExit : StatusOfExit plainStatus where
  success _ := rfl
  win32 code h := by simp [plainStatus, h]
  win32_specific code := by
    rw [plainStatus]
    split
    · rfl
    · rfl
  specific code h := by simp [plainStatus, h]

theorem exit_tells_reason_deniedFirewall :
    ∃ o f v exit, body o [] = .error f v ∧ (execute o []).2 = some exit ∧ f.1 = .firewall ∧
      Manager.tunnelErrorOf (some (plainStatus exit)) = some (.errno 5) := by
  let o : Outside :=
    { loadFromPath := .ok { name := str "office" }
      enableFirewall := .error ⟨str "Access is denied.", some 5⟩ }
  have hbody : body o [] = .error (.firewall, ⟨str "Access is denied.", some 5⟩) _ := rfl
  have hexit : (execute o []).2 = some (false, 5) := rfl
  have hreason := (exit_tells_reason plainStatus_statusOfExit hexit).2 _ _ hbody (by decide)
  exact ⟨o, _, _, _, hbody, hexit, rfl, hreason⟩

end WireGuardWindows.Tunnel.Service
