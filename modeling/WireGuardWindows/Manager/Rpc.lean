import WireGuardWindows.Manager.Ipc
import WireGuardWindows.Systems.Rpc

/-!
# The calls of the IPC client and the server loop

The thirteen calls of `manager/ipc_client.go`, each made under `rpcMutex`, and
`ManagerService.ServeConn`, encoder by encoder and decoder by decoder. A method of the
server may return anything its Go type allows, so its outcome is a choice of the schedule.
-/

namespace WireGuardWindows.Manager

open GoStd Conf Systems Systems.Rpc

inductive Call
  | storedConfig (tunnelName : Str)
  | runtimeConfig (tunnelName : Str)
  | start (tunnelName : Str)
  | stop (tunnelName : Str)
  | waitForStop (tunnelName : Str)
  | delete (tunnelName : Str)
  | state (tunnelName : Str)
  | globalState
  | create (config : Config)
  | tunnels
  | quit (stopTunnelsOnQuit : Bool)
  | updateState
  | update
  deriving DecidableEq

def Outcome : Call → Type
  | .storedConfig _ | .runtimeConfig _ => Option Config × Err
  | .start _ | .stop _ | .waitForStop _ | .delete _ => Err
  | .state _ => TunnelState × Err
  | .globalState => TunnelState
  | .create _ => Option Tunnel × Err
  | .tunnels => List Tunnel × Err
  | .quit _ => Bool × Err
  | .updateState => UpdateState
  | .update => Unit

inductive CallResult
  | config (c : Config) (err : Err)
  | err (err : Err)
  | state (tunnelState : TunnelState) (err : Err)
  | tunnel (tunnel : Tunnel) (err : Err)
  | tunnels (tunnels : List Tunnel) (err : Err)
  | alreadyQuit (alreadyQuit : Bool) (err : Err)
  | updateState (updateState : UpdateState) (err : Err)
  deriving DecidableEq

abbrev ClientCall := Client GobValue CallResult

def rpcDecodeError (k : Err → ClientCall) : ClientCall :=
  .decode fun
    | .string s => k (errOfString s)
    | _ => .fail

def decodeConfig (k : Config → ClientCall) : ClientCall :=
  .decode fun
    | .config c => k c
    | _ => .fail

def decodeTunnelState (k : TunnelState → ClientCall) : ClientCall :=
  .decode fun
    | .tunnelState s => k s
    | _ => .fail

def callOnTunnel (method : MethodType) (tunnelName : Str) : ClientCall :=
  .encode (.methodType method) <| .encode (.string tunnelName) <|
    rpcDecodeError fun err => .ret (.err err)

def callForConfig (method : MethodType) (tunnelName : Str) : ClientCall :=
  .encode (.methodType method) <| .encode (.string tunnelName) <|
    decodeConfig fun c => rpcDecodeError fun err => .ret (.config c err)

namespace Tunnel

def storedConfig (t : Tunnel) : ClientCall := callForConfig .storedConfig t.name
def runtimeConfig (t : Tunnel) : ClientCall := callForConfig .runtimeConfig t.name
def start (t : Tunnel) : ClientCall := callOnTunnel .start t.name
def stop (t : Tunnel) : ClientCall := callOnTunnel .stop t.name
def waitForStop (t : Tunnel) : ClientCall := callOnTunnel .waitForStop t.name
def delete (t : Tunnel) : ClientCall := callOnTunnel .delete t.name

def state (t : Tunnel) : ClientCall :=
  .encode (.methodType .state) <| .encode (.string t.name) <|
    decodeTunnelState fun tunnelState => rpcDecodeError fun err => .ret (.state tunnelState err)

end Tunnel

def ipcClientGlobalState : ClientCall :=
  .encode (.methodType .globalState) <|
    decodeTunnelState fun tunnelState => .ret (.state tunnelState none)

def ipcClientNewTunnel (conf : Config) : ClientCall :=
  .encode (.methodType .create) <| .encode (.config conf) <| .decode fun
    | .tunnel tunnel => rpcDecodeError fun err => .ret (.tunnel tunnel err)
    | _ => .fail

def ipcClientTunnels : ClientCall :=
  .encode (.methodType .tunnels) <| .decode fun
    | .tunnels tunnels => rpcDecodeError fun err => .ret (.tunnels tunnels err)
    | _ => .fail

def ipcClientQuit (stopTunnelsOnQuit : Bool) : ClientCall :=
  .encode (.methodType .quit) <| .encode (.bool stopTunnelsOnQuit) <| .decode fun
    | .bool alreadyQuit => rpcDecodeError fun err => .ret (.alreadyQuit alreadyQuit err)
    | _ => .fail

def ipcClientUpdateState : ClientCall :=
  .encode (.methodType .updateState) <| .decode fun
    | .updateState updateState => .ret (.updateState updateState none)
    | _ => .fail

def ipcClientUpdate : ClientCall :=
  .encode (.methodType .update) <| .ret (.err none)

def clientCall : Call → ClientCall
  | .storedConfig name => Tunnel.storedConfig ⟨name⟩
  | .runtimeConfig name => Tunnel.runtimeConfig ⟨name⟩
  | .start name => Tunnel.start ⟨name⟩
  | .stop name => Tunnel.stop ⟨name⟩
  | .waitForStop name => Tunnel.waitForStop ⟨name⟩
  | .delete name => Tunnel.delete ⟨name⟩
  | .state name => Tunnel.state ⟨name⟩
  | .globalState => ipcClientGlobalState
  | .create config => ipcClientNewTunnel config
  | .tunnels => ipcClientTunnels
  | .quit stopTunnelsOnQuit => ipcClientQuit stopTunnelsOnQuit
  | .updateState => ipcClientUpdateState
  | .update => ipcClientUpdate

abbrev ServerLoop := Server GobValue Call Outcome

def decodeTunnelName (k : Str → ServerLoop) : ServerLoop :=
  .decode fun
    | .string tunnelName => k tunnelName
    | _ => .stop

def encodeErr (retErr : Err) : ServerLoop := .encode (.string (errToString retErr)) .loop

def encodeConfig (config : Option Config) (retErr : Err) : ServerLoop :=
  .encode (.config (config.getD { name := [] })) (encodeErr retErr)

/-- The body of the loop in `ServeConn`, after the method type is decoded. -/
def serveConn : GobValue → ServerLoop
  | .methodType .storedConfig => decodeTunnelName fun tunnelName =>
    .invoke (.storedConfig tunnelName) fun (config, retErr) => encodeConfig config retErr
  | .methodType .runtimeConfig => decodeTunnelName fun tunnelName =>
    .invoke (.runtimeConfig tunnelName) fun (config, retErr) => encodeConfig config retErr
  | .methodType .start => decodeTunnelName fun tunnelName =>
    .invoke (.start tunnelName) fun retErr => encodeErr retErr
  | .methodType .stop => decodeTunnelName fun tunnelName =>
    .invoke (.stop tunnelName) fun retErr => encodeErr retErr
  | .methodType .waitForStop => decodeTunnelName fun tunnelName =>
    .invoke (.waitForStop tunnelName) fun retErr => encodeErr retErr
  | .methodType .delete => decodeTunnelName fun tunnelName =>
    .invoke (.delete tunnelName) fun retErr => encodeErr retErr
  | .methodType .state => decodeTunnelName fun tunnelName =>
    .invoke (.state tunnelName) fun (state, retErr) =>
      .encode (.tunnelState state) (encodeErr retErr)
  | .methodType .globalState => .invoke .globalState fun state => .encode (.tunnelState state) .loop
  | .methodType .create => .decode fun
    | .config config => .invoke (.create config) fun (tunnel, retErr) =>
      .encode (.tunnel (tunnel.getD {})) (encodeErr retErr)
    | _ => .stop
  | .methodType .tunnels => .invoke .tunnels fun (tunnels, retErr) =>
    .encode (.tunnels tunnels) (encodeErr retErr)
  | .methodType .quit => .decode fun
    | .bool stopTunnelsOnQuit => .invoke (.quit stopTunnelsOnQuit) fun (alreadyQuit, retErr) =>
      .encode (.bool alreadyQuit) (encodeErr retErr)
    | _ => .stop
  | .methodType .updateState => .invoke .updateState fun updateState =>
    .encode (.updateState updateState) .loop
  | .methodType .update => .invoke .update fun _ => .loop
  | _ => .stop

def Call.request : Call → List GobValue
  | .storedConfig name => [.methodType .storedConfig, .string name]
  | .runtimeConfig name => [.methodType .runtimeConfig, .string name]
  | .start name => [.methodType .start, .string name]
  | .stop name => [.methodType .stop, .string name]
  | .waitForStop name => [.methodType .waitForStop, .string name]
  | .delete name => [.methodType .delete, .string name]
  | .state name => [.methodType .state, .string name]
  | .globalState => [.methodType .globalState]
  | .create config => [.methodType .create, .config config]
  | .tunnels => [.methodType .tunnels]
  | .quit stopTunnelsOnQuit => [.methodType .quit, .bool stopTunnelsOnQuit]
  | .updateState => [.methodType .updateState]
  | .update => [.methodType .update]

def Call.reply : (call : Call) → Outcome call → List GobValue
  | .storedConfig _, (config, err) | .runtimeConfig _, (config, err) =>
    [.config (config.getD { name := [] }), .string (errToString err)]
  | .start _, err | .stop _, err | .waitForStop _, err | .delete _, err =>
    [.string (errToString err)]
  | .state _, (st, err) => [.tunnelState st, .string (errToString err)]
  | .globalState, st => [.tunnelState st]
  | .create _, (tunnel, err) => [.tunnel (tunnel.getD {}), .string (errToString err)]
  | .tunnels, (ts, err) => [.tunnels ts, .string (errToString err)]
  | .quit _, (alreadyQuit, err) => [.bool alreadyQuit, .string (errToString err)]
  | .updateState, st => [.updateState st]
  | .update, _ => []

/-- What a call must return when the method returned `outcome` for it: a `nil` pointer
becomes the zero value, and of an error the text is left. -/
def Call.result : (call : Call) → Outcome call → CallResult
  | .storedConfig _, (config, err) | .runtimeConfig _, (config, err) =>
    .config (config.getD { name := [] }) (received err)
  | .start _, err | .stop _, err | .waitForStop _, err | .delete _, err => .err (received err)
  | .state _, (st, err) => .state st (received err)
  | .globalState, st => .state st none
  | .create _, (tunnel, err) => .tunnel (tunnel.getD {}) (received err)
  | .tunnels, (ts, err) => .tunnels ts (received err)
  | .quit _, (alreadyQuit, err) => .alreadyQuit alreadyQuit (received err)
  | .updateState, st => .updateState st none
  | .update, _ => .err none
where
  received (err : Err) : Err := errOfString (errToString err)

def afterSending : Nat → ClientCall → ClientCall
  | n + 1, .encode _ k => afterSending n k
  | _, p => p

def ipc : Protocol GobValue Call CallResult Outcome where
  client := clientCall
  body := serveConn
  request := Call.request
  await call := afterSending call.request.length (clientCall call)
  reply := Call.reply
  result := Call.result
  client_eq call := by cases call <;> rfl
  await_reply call outcome := by cases call <;> rfl
  body_request call := by cases call <;> rfl

instance (call : Call) : Nonempty (Outcome call) := by
  cases call
  case update => exact ⟨()⟩
  case globalState => exact ⟨TunnelState.unknown⟩
  case updateState => exact ⟨UpdateState.unknown⟩
  case storedConfig | runtimeConfig | create => exact ⟨(none, none)⟩
  case state => exact ⟨(TunnelState.unknown, none)⟩
  case tunnels => exact ⟨([], none)⟩
  case quit => exact ⟨(false, none)⟩
  case start | stop | waitForStop | delete => exact ⟨none⟩

theorem oneWay_iff {call : Call} : ipc.OneWay call ↔ call = .update := by
  constructor
  · rintro ⟨r, hr⟩
    cases call <;> first | rfl | cases hr
  · rintro rfl
    exact ⟨_, rfl⟩

/-- A server that still has to serve `Update` calls is at the head of its loop, or has read
one of them and is about to run it, and what it has not read is whole requests. -/
theorem atBoundary_of_behind {sv : ServerLoop} {todo : List Call} {unread : List GobValue}
    (htodo : ∀ call ∈ todo, call = .update) (h : ipc.Behind sv todo unread) :
    (∀ v ∈ unread, v = .methodType .update) ∧
      (ipc.unroll sv = ipc.head ∨ ∃ k, ipc.unroll sv = .invoke .update k) := by
  cases todo with
  | nil =>
    obtain ⟨rfl, rfl⟩ := h
    exact ⟨fun _ hv => absurd hv List.not_mem_nil, .inl rfl⟩
  | cons call todo =>
    obtain rfl := htodo call List.mem_cons_self
    obtain ⟨rest, ⟨read, hrequest, hsv⟩, rfl⟩ := h
    have hlater : ∀ v ∈ todo.flatMap Call.request, v = .methodType .update := by
      intro v hv
      obtain ⟨call, hcall, hv⟩ := List.mem_flatMap.mp hv
      rw [htodo call (List.mem_cons_of_mem _ hcall)] at hv
      exact List.mem_singleton.mp hv
    have hrest : ∀ v ∈ rest, v = .methodType .update := by
      intro v hv
      have hmem : v ∈ Call.request .update := by
        change v ∈ ipc.request .update
        rw [hrequest]
        exact List.mem_append_right read hv
      exact List.mem_singleton.mp hmem
    refine ⟨fun v hv => (List.mem_append.mp hv).elim (hrest v) (hlater v), ?_⟩
    cases read with
    | nil => exact .inl (by simpa using hsv)
    | cons v read =>
      obtain ⟨rfl, hnil⟩ := List.cons_eq_cons.mp hrequest
      obtain ⟨rfl, -⟩ := List.append_eq_nil_iff.mp hnil.symm
      exact .inr ⟨_, hsv⟩

/-- In every schedule of calls by any number of goroutines, with any outcomes of the
methods: no decoder on either side meets a value of another type than it asks for; the
methods are run for the calls in their order, each with the arguments of its call; every
call that has returned has returned what its own method run returned (`Update` returns
without waiting for it); while no call is in progress nothing is on its way to the client,
and the server is at the head of its loop or about to run an `Update`, with nothing but
whole `Update` requests to read; and as long as anything is left to do one side can go on. -/
theorem rpc_lockstep {as : List (Action Call Outcome)}
    {s : Session GobValue Call CallResult Outcome} (h : exec ipc.step {} as = some s) :
    (s.server ≠ .stop ∧ ∀ caller call p, s.current = some (caller, call, p) → p ≠ .fail) ∧
    s.invoked.map (·.1) <+: s.started.map (·.2) ∧
    (∀ (i caller : Nat) (call : Call) (r : CallResult), s.returned[i]? = some (caller, call, r) →
      s.started[i]? = some (caller, call) ∧
        ((∃ outcome, s.invoked[i]? = some ⟨call, outcome⟩ ∧ r = call.result outcome) ∨
          call = .update ∧ r = .err none)) ∧
    (s.current = none → s.toClient = [] ∧ (∀ v ∈ s.toServer, v = .methodType .update) ∧
      (ipc.unroll s.server = ipc.head ∨ ∃ k, ipc.unroll s.server = .invoke .update k)) ∧
    (Protocol.Quiescent s ∨ ∃ a, Protocol.Action.isBegin a = false ∧ (ipc.step s a).isSome) := by
  have hlock := Protocol.lockstep h
  refine ⟨hlock.no_failure, ?_, fun i caller call r hi => ⟨?_, ?_⟩, fun hnone => ?_, hlock.progress⟩
  · cases hlock.stage with
    | idle todo _ _ _ _ hcalls => exact ⟨todo, hcalls.symm⟩
    | calling caller call unsent todo _ _ _ _ hcalls => exact ⟨todo ++ [call], hcalls.symm⟩
    | answering caller call o p unsent _ _ _ _ hcalls _ => exact ⟨[], by simp [hcalls]⟩
  · have hlt : i < s.returned.length := (List.getElem?_eq_some_iff.mp hi).1
    rw [hlock.calls, List.getElem?_append_left (by simpa using hlt), List.getElem?_map, hi]
    rfl
  · rcases hlock.answers i caller call r hi with hanswer | hret
    · exact .inl hanswer
    · obtain rfl := oneWay_iff.mp ⟨r, hret⟩
      cases hret
      exact .inr ⟨rfl, rfl⟩
  · cases hlock.stage with
    | idle todo _ htoClient honeWay hbehind _ =>
      exact ⟨htoClient, atBoundary_of_behind
        (fun call hc => oneWay_iff.mp (honeWay call hc)) hbehind⟩
    | calling caller call unsent todo hc => simp [hnone] at hc
    | answering caller call o p unsent hc => simp [hnone] at hc

def allStarted : (call : Call) → Outcome call
  | .storedConfig name | .runtimeConfig name => (some { name }, none)
  | .start _ | .stop _ | .waitForStop _ | .delete _ => none
  | .state _ => (.started, none)
  | .globalState => .started
  | .create config => (some ⟨config.name⟩, none)
  | .tunnels => ([], none)
  | .quit _ => (false, none)
  | .updateState => .unknown
  | .update => ()

def updateThenState : List (Action Call Outcome) :=
  [.begin 0 .update, .clientEncode, .clientReturn, .begin 1 (.state (str "office")), .clientEncode,
    .serverDecode, .serverInvoke allStarted, .clientEncode, .serverDecode, .serverDecode,
    .serverInvoke allStarted, .serverEncode, .clientDecode, .serverEncode, .clientDecode,
    .clientReturn]

theorem updateThenState_run : ∃ s, exec ipc.step {} updateThenState = some s ∧
    s.returned[1]? = some (1, .state (str "office"), .state .started none) := ⟨_, rfl, rfl⟩

theorem rpc_lockstep_updateThenState :
    ∃ s, exec ipc.step {} updateThenState = some s ∧ s.server ≠ .stop ∧
      ∃ outcome : Outcome (.state (str "office")),
        s.invoked[1]? = some ⟨.state (str "office"), outcome⟩ ∧
          CallResult.state .started none = Call.result (.state (str "office")) outcome := by
  obtain ⟨s, hs, hlast⟩ := updateThenState_run
  obtain ⟨hfail, -, hreturned, -⟩ := rpc_lockstep hs
  refine ⟨s, hs, hfail.1, ?_⟩
  rcases (hreturned 1 1 (.state (str "office")) (.state .started none) hlast).2 with h | ⟨h, -⟩
  · exact h
  · cases h

end WireGuardWindows.Manager
