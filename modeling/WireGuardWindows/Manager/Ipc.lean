import WireGuardWindows.Conf.Config

/-!
# What the manager and its clients say to each other

The types of `manager/ipc_client.go` and the values `encoding/gob` carries over the three
pipes of a session. A decoder asks for a value of one type and gets it only if that is
the type of the next value in the stream.
-/

namespace WireGuardWindows.Manager

open GoStd Conf

inductive TunnelState
  | unknown | started | stopped | starting | stopping
  deriving DecidableEq

inductive NotificationType
  | tunnelChange | tunnelsChange | managerStopping | updateFound | updateProgress
  deriving DecidableEq

inductive MethodType
  | storedConfig | runtimeConfig | start | stop | waitForStop | delete | state | globalState
  | create | tunnels | quit | updateState | update
  deriving DecidableEq

inductive UpdateState
  | unknown | foundUpdate | updatesDisabledUnofficialBuild
  deriving DecidableEq

structure Tunnel where
  name : Str := []
  deriving DecidableEq

inductive GobValue
  | methodType (m : MethodType)
  | notificationType (n : NotificationType)
  | string (s : Str)
  | bool (b : Bool)
  | uint64 (n : UInt64)
  | tunnelState (s : TunnelState)
  | updateState (s : UpdateState)
  | config (c : Config)
  | tunnel (t : Tunnel)
  | tunnels (ts : List Tunnel)
  deriving DecidableEq

/-- A Go `error` value, of which only the text travels. -/
abbrev Err := Option Str

def errToString : Err → Str
  | none => []
  | some text => text

/-- How both receivers turn the text back into an `error`: an empty text is `nil`. -/
def errOfString (s : Str) : Err := if s.isEmpty then none else some s

end WireGuardWindows.Manager
