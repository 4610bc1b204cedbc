import WireGuardWindows.Manager.Tracker

/-!
# How a tunnel service says why it stopped

`services/errors.go` turns the error of a service into an exit code, Windows keeps it in the status
of the stopped service, and the tracker of the manager reads it back from there.
-/

namespace WireGuardWindows.Services
open GoStd Manager

inductive Error
  | success | ringloggerOpen | loadConfiguration | createNetworkAdapter | dnsLookup | firewall
  | deviceSetConfig | deviceBringUp | bindSocketsToDefaultRoutes | monitorMTUChanges | setNetConfig
  | determineExecutablePath
  | trackTunnels | enumerateSessions | dropPrivileges | runScript | win32 | uapiListen
  deriving DecidableEq

namespace Error

def code : Error → UInt32
  | success => 0
  | ringloggerOpen => 1
  | loadConfiguration => 2
  | createNetworkAdapter => 3
  | dnsLookup => 4
  | firewall => 5
  | deviceSetConfig => 6
  | deviceBringUp => 7
  | bindSocketsToDefaultRoutes => 8
  | monitorMTUChanges => 9
  | setNetConfig => 10
  | determineExecutablePath => 11
  | trackTunnels => 12
  | enumerateSessions => 13
  | dropPrivileges => 14
  | runScript => 15
  | win32 => 16
  | uapiListen => 17

def text : Error → Str
  | success => str "No error"
  | ringloggerOpen => str "Unable to open log file"
  | determineExecutablePath => str "Unable to determine path of running executable"
  | loadConfiguration => str "Unable to load configuration from path"
  | createNetworkAdapter => str "Unable to create network adapter"
  | dnsLookup => str "Unable to resolve one or more DNS hostname endpoints"
  | firewall => str "Unable to enable firewall rules"
  | deviceSetConfig => str "Unable to set device configuration"
  | deviceBringUp => str "Unable to bring up adapter"
  | bindSocketsToDefaultRoutes => str "Unable to bind sockets to default route"
  | monitorMTUChanges => str "Unable to monitor default route MTU for changes"
  | setNetConfig => str "Unable to configure adapter network settings"
  | trackTunnels => str "Unable to track existing tunnels"
  | enumerateSessions => str "Unable to enumerate current sessions"
  | dropPrivileges => str "Unable to drop privileges"
  | runScript => str "An error occurred while running a configuration script command"
  | win32 => str "An internal Windows error has occurred"
  | uapiListen => str "Unable to listen on named pipe"

theorem code_injective {e e' : Error} (h : e.code = e'.code) : e = e' := by
  revert h
  cases e <;> cases e' <;> decide

end Error

/-- An error of Go: its text, and the `Errno` that `errors.As` finds in its chain. -/
structure Err where
  text : Str
  errno : Option UInt32 := none
  deriving DecidableEq

def determineErrorCode (err : Option Err) (serviceError : Error) : Bool × UInt32 :=
  match err.bind Err.errno with
  | some code => (false, code)
  | none => if serviceError ≠ .success then (true, serviceError.code) else (false, 0)

def combineErrors (err : Option Err) (serviceError : Error) : Option Err :=
  if serviceError ≠ .success then
    match err with
    | some err => some { err with text := serviceError.text ++ str ": " ++ err.text }
    | none => some { text := serviceError.text }
  else err

/-- What is assumed of the service library: how the status of a stopped service holds the two
values that `Execute` has returned. -/
structure StatusOfExit (stoppedStatus : Bool × UInt32 → ServiceStatus) : Prop where
  success : ∀ specific, (stoppedStatus (specific, 0)).win32ExitCode = 0
  win32 : ∀ code, code ≠ 0 → (stoppedStatus (false, code)).win32ExitCode = code
  win32_specific : ∀ code, (stoppedStatus (false, code)).serviceSpecificExitCode = 0
  specific : ∀ code, code ≠ 0 →
    (stoppedStatus (true, code)).win32ExitCode = errorServiceSpecificError ∧
      (stoppedStatus (true, code)).serviceSpecificExitCode = code

/-- The codes of Windows that the tracker takes for a service that stopped without an error. -/
abbrev Err.swallowed (err : Err) : Prop :=
  err.errno = some 0 ∨ err.errno = some errorServiceSpecificError ∨
  err.errno = some errorServiceNeverStarted

section
variable {stoppedStatus : Bool × UInt32 → ServiceStatus} (hstatus : StatusOfExit stoppedStatus)
include hstatus

theorem tunnelErrorOf_service {serviceError : Error} (h : serviceError ≠ .success) :
    tunnelErrorOf (some (stoppedStatus (true, serviceError.code))) =
      some (.service serviceError.code) := by
  have hcode : serviceError.code ≠ 0 := fun heq => h (Error.code_injective heq)
  obtain ⟨hwin32, hspecific⟩ := hstatus.specific _ hcode
  simp only [tunnelErrorOf, hwin32, hspecific, if_true, if_pos hcode]

theorem tunnelErrorOf_success (specific : Bool) :
    tunnelErrorOf (some (stoppedStatus (specific, 0))) = none := by
  simp only [tunnelErrorOf, hstatus.success]
  rfl

theorem tunnelErrorOf_errno (code : UInt32) :
    tunnelErrorOf (some (stoppedStatus (false, code))) =
      if code = 0 ∨ code = errorServiceSpecificError ∨ code = errorServiceNeverStarted then none
      else some (.errno code) := by
  by_cases hzero : code = 0
  · subst hzero
    exact tunnelErrorOf_success hstatus false
  · simp only [tunnelErrorOf, hstatus.win32 code hzero, hstatus.win32_specific]
    by_cases hspecific : code = errorServiceSpecificError
    · simp [hspecific]
    · simp [hzero, hspecific]

theorem tunnelErrorOf_failed {serviceError : Error} (h : serviceError ≠ .success) (err : Err) :
    (err.swallowed →
      tunnelErrorOf (some (stoppedStatus (determineErrorCode (some err) serviceError))) = none) ∧
      (¬ err.swallowed →
        tunnelErrorOf (some (stoppedStatus (determineErrorCode (some err) serviceError))) =
        some (err.errno.elim (.service serviceError.code) .errno)) := by
  obtain ⟨text, errno⟩ := err
  cases errno with
  | none =>
    have hexit : determineErrorCode (some ⟨text, none⟩) serviceError = (true, serviceError.code) :=
      if_pos h
    rw [hexit, tunnelErrorOf_service hstatus h]
    exact ⟨fun hswallowed => by simp [Err.swallowed] at hswallowed, fun _ => rfl⟩
  | some code =>
    have hexit : determineErrorCode (some ⟨text, some code⟩) serviceError = (false, code) := rfl
    rw [hexit, tunnelErrorOf_errno hstatus]
    simp only [Err.swallowed, Option.some.injEq]
    exact ⟨fun hswallowed => if_pos hswallowed, fun hkept => if_neg hkept⟩

end

end WireGuardWindows.Services
