import WireGuardWindows.Tunnel.DefaultRoutes
import WireGuardWindows.Systems.Runs

/-!
# The monitor of the default routes

Every tunnel with the userspace backend has a monitor in a process of its own. All monitors
share the routing table with each other and with other programs, and any of their calls may
fall between two calls of another one. A monitor has a thread of the service, callbacks of the
system, a timer and updates; of what they do, that which is done under the mutex of the monitor
is cut into its calls of the system (`Work`), and the rest into steps of its own.

The entries of the table carry who added them. No function of the source reads that.
-/

namespace WireGuardWindows.Tunnel.RouteMonitor
open GoStd Netip Conf

inductive AddressFamily
  | inet | inet6
  deriving DecidableEq

def AddressFamily.family : AddressFamily → Watcher.Family
  | .inet => .v4
  | .inet6 => .v6

def families : List AddressFamily := [.inet, .inet6]

structure DefaultGateway where
  luid : UInt64 := 0
  index : UInt32 := 0
  nextHop : Addr := .zero
  deriving DecidableEq

/-- What `AddRoute` and `DeleteRoute` know an entry by. -/
structure Route where
  luid : UInt64
  destination : Prefix
  nextHop : Addr
  deriving DecidableEq

def DefaultGateway.route (gateway : DefaultGateway) (host : Prefix) : Route :=
  ⟨gateway.luid, host, gateway.nextHop⟩

structure ForwardRow (ι : Type) where
  route : Route
  index : UInt32 := 0
  metric : UInt32 := 0
  /-- The monitor that added it; `none` for other programs. -/
  addedBy : Option ι := none
  deriving DecidableEq

structure Interfaces where
  interface : UInt64 → Option UInt32
  ipInterface : UInt64 → AddressFamily → Option UInt32

def ifOperStatusUp : UInt32 := 1

section
variable {ι : Type}

def ForwardRow.ofFamily (row : ForwardRow ι) (family : AddressFamily) : Bool :=
  row.route.destination.ip.is4 == (family == .inet)

def combinedMetric (net : Interfaces) (family : AddressFamily) (ourLUID : UInt64)
    (row : ForwardRow ι) : Option UInt64 :=
  if row.route.destination.bits ≠ 0 ∨ row.route.luid = ourLUID then none
  else do
    let status ← net.interface row.route.luid
    if status ≠ ifOperStatusUp then none
    else do
      let metric ← net.ipInterface row.route.luid family
      return row.metric.toUInt64 + metric.toUInt64

def better (net : Interfaces) (family : AddressFamily) (ourLUID : UInt64)
    (best : UInt64 × DefaultGateway) (row : ForwardRow ι) : UInt64 × DefaultGateway :=
  match combinedMetric net family ourLUID row with
  | none => best
  | some metric =>
    if metric < best.1 then (metric, ⟨row.route.luid, row.index, row.route.nextHop⟩) else best

def findDefaultGateway (table : List (ForwardRow ι)) (net : Interfaces) (family : AddressFamily)
    (ourLUID : UInt64) :
    DefaultGateway :=
  ((table.filter fun row => row.ofFamily family).foldl (better net family ourLUID)
    (0xFFFFFFFFFFFFFFFF, {})).2

end

def unmap : Addr → Addr
  | .v6 a zone => if is4In6 a then .v4 (a.setWidth 32) else .v6 a zone
  | addr => addr

def addServerHost (family : AddressFamily) (hosts : List Prefix) (peer : Peer) : List Prefix :=
  if peer.wsURL = [] then hosts
  else match parseAddr peer.endpoint.host with
    | none => hosts
    | some addr =>
      let addr := unmap addr
      if addr.is4 ≠ (family == .inet) then hosts
      else
        let host := prefixFrom addr addr.bitLen
        if host ∈ hosts then hosts else hosts ++ [host]

def webSocketServerHosts (config : Config) (family : AddressFamily) : List Prefix :=
  config.peers.foldl (addServerHost family) []

structure DefaultRouteFamily where
  blackhole : Bool := false
  hosts : List Prefix := []
  gateway : DefaultGateway := {}
  owned : List Prefix := []
  incomplete : Bool := false

inductive Position
  | next
  | deleting (family : AddressFamily) (previous : DefaultGateway) (left : List Prefix)
  | adding (family : AddressFamily) (left : List Prefix)

/-- The mutex is held, for `updateLocked` or for `removeHostRoutesLocked`. -/
structure Work where
  removing : Bool := false
  todo : List AddressFamily := families
  pos : Position := .next
  moved : Bool := false
  failed : Bool := false

inductive Stage
  | absent
  | constructing
  /-- `newDefaultRouteMonitor` returned an error. -/
  | failed
  | built
  | pinned
  | routeRegistered
  | registered
  | started
  /-- `start` has unregistered the route callback and waits for it. -/
  | cancelling
  | startFailed
  | unregisterRoute
  | waitRoute
  | unregisterInterface
  | waitInterface
  | stopTimer
  | remove
  | removing
  | destroyed
  deriving DecidableEq

inductive Notice
  /-- A route callback that is about to `bump`. -/
  | route
  | deleted (destination : Prefix)
  | interface
  deriving DecidableEq

def Notice.isRoute : Notice → Bool
  | .interface => false
  | _ => true

structure Monitor where
  ourLUID : UInt64 := 0
  families : AddressFamily → DefaultRouteFamily := fun _ => {}
  callbacks : Bool := false
  work : Option Work := none
  stage : Stage := .absent
  routeCallback : Bool := false
  interfaceCallback : Bool := false
  notices : List Notice := []
  /-- The burst timer is set. -/
  timer : Bool := false
  firstBurst : Bool := false
  /-- Functions of the timer that have not come to `update`. -/
  fired : Nat := 0
  /-- Calls of `update` that wait for the mutex. -/
  updates : Nat := 0
  /-- The interface each socket is bound to, and whether it is a blackhole. -/
  bound : AddressFamily → Option (UInt32 × Bool) := fun _ => none
  rebinds : Nat := 0

inductive Effect
  | none
  | add (route : Route)
  | delete (route : Route)

namespace Monitor

def setFamily (m : Monitor) (family : AddressFamily) (f : DefaultRouteFamily) : Monitor :=
  { m with families := Function.update m.families family f }

def working (m : Monitor) (w : Work) : Monitor := { m with work := some w }

def lookup (answer : AddressFamily → Option DefaultGateway) (m : Monitor) (w : Work) :
    Option Monitor :=
  match w.pos, w.todo with
  | .next, i :: todo =>
    if w.removing then none
    else
      let f := m.families i
      match answer i with
      | none => some (m.working { w with todo := todo, failed := true })
      | some gateway =>
        if gateway = f.gateway ∧ ¬ f.incomplete then some (m.working { w with todo := todo })
        else
          let m := m.setFamily i { f with gateway := gateway, incomplete := true }
          if f.gateway ≠ gateway then
            some (m.working { w with
              todo := todo
              moved := w.moved || !f.hosts.isEmpty
              pos := .deleting i f.gateway f.owned })
          else some (m.working { w with todo := todo, pos := .adding i f.hosts })
  | _, _ => none

/-- `DeleteRoute` for any of the hosts that are left: the map has no order. -/
def deleteRoute (host : Prefix) (m : Monitor) (w : Work) : Option (Monitor × Route) :=
  match w.pos with
  | .deleting i previous left =>
    if host ∈ left then
      some (m.working { w with pos := .deleting i previous (left.filter (· ≠ host)) },
      previous.route host)
    else none
  | _ => none

/-- `AddRoute` for the next host. It fails for an entry that exists, and may fail otherwise. -/
def addRoute (present : Route → Bool) (fails : Bool) (m : Monitor) (w : Work) :
    Option (Monitor × Effect) :=
  match w.pos with
  | .adding i (host :: left) =>
    let f := m.families i
    if f.gateway.luid = 0 then none
    else if present (f.gateway.route host) then some (m.working { w with
      pos := .adding i left }, .none)
    else if fails then some (m.working { w with pos := .next, failed := true }, .none)
    else
      some ((m.setFamily i { f with owned := f.owned.insert host }).working
        { w with pos := .adding i left, moved := true }, .add (f.gateway.route host))
  | _ => none

def advance (m : Monitor) (w : Work) : Option Monitor :=
  match w.pos with
  | .next =>
    match w.todo with
    | [] => none
    | i :: todo =>
      if w.removing then
        some (m.working { w with
          todo := todo, pos := .deleting i (m.families i).gateway (m.families i).owned })
      else none
  | .deleting i _ [] =>
    let f := m.families i
    if w.removing then some ((m.setFamily i { f with owned := [], gateway := {} }).working { w with
      pos := .next })
    else some ((m.setFamily i { f with owned := [] }).working { w with pos := .adding i f.hosts })
  | .deleting _ _ _ => none
  | .adding i [] =>
    some ((m.setFamily i { m.families i with incomplete := false }).working { w with pos := .next })
  | .adding i (_ :: left) =>
    if (m.families i).gateway.luid = 0 then some (m.working { w with pos := .adding i left })
      else none

def socket (f : DefaultRouteFamily) : UInt32 × Bool :=
  (f.gateway.index, f.blackhole && f.gateway.index == 0)

/-- `pinSocketsLocked`; `binds` says which of the calls succeed. -/
def pinSockets (binds : AddressFamily → Bool) (m : Monitor) : Monitor :=
  { m with bound := fun i =>
    if binds .inet && (i = .inet || binds .inet6) then some (socket (m.families i)) else m.bound i }

/-- The end of `updateLocked` or `removeHostRoutesLocked`, and what its caller does until it gives
the mutex back. -/
def finish (binds : AddressFamily → Bool) (m : Monitor) (w : Work) : Option Monitor :=
  match w.pos, w.todo with
  | .next, [] =>
    match m.stage with
    | .constructing =>
      if w.removing then some { m with work := none, stage := .failed }
      else if w.failed then some (m.working { removing := true })
      else some { m with work := none, stage := .built }
    | .removing => some { m with work := none, stage := .destroyed }
    | _ =>
      some (pinSockets binds { m with
        work := none, rebinds := if w.moved then m.rebinds + 1 else m.rebinds })
  | _, _ => none

def hostRouteDeleted (destination : Prefix) (m : Monitor) : Monitor × Bool :=
  match RouteMonitor.families.find? fun i => decide (destination ∈ (m.families i).hosts) with
  | none => (m, false)
  | some i => (m.setFamily i { m.families i with incomplete := true }, true)

/-- `late` is whether the first notification of the burst is more than two seconds old. -/
def bump (late : Bool) (m : Monitor) : Monitor :=
  if ¬ m.firstBurst then { m with timer := true, firstBurst := true }
  else if late then { m with timer := false, firstBurst := false, updates := m.updates + 1 }
  else { m with timer := true }

/-- A step of a callback. `hostRouteDeleted` waits for the mutex. -/
def handle (notice : Notice) (late : Bool) (m : Monitor) : Option Monitor :=
  if notice ∉ m.notices then none
  else
    let rest := { m with notices := m.notices.erase notice }
    match notice with
    | .deleted destination =>
      if m.work.isSome then none
      else
        let r := rest.hostRouteDeleted destination
        some (if r.2 then { r.1 with notices := r.1.notices ++ [.route] } else r.1)
    | _ => some (rest.bump late)

def fire (m : Monitor) : Option Monitor :=
  if m.timer then some { m with timer := false, fired := m.fired + 1 } else none

/-- The function of the timer, up to its call of `update`. -/
def burst (m : Monitor) : Option Monitor :=
  if m.fired = 0 then none else some { m with
    fired := m.fired - 1, firstBurst := false, updates := m.updates + 1 }

def update (m : Monitor) : Option Monitor :=
  if m.updates = 0 ∨ m.work.isSome then none
  else if m.callbacks then some { m with updates := m.updates - 1, work := some {} }
  else some { m with updates := m.updates - 1 }

/-- `newDefaultRouteMonitor` up to the first call of `updateLocked`. -/
def create (config : Config) (ourLUID : UInt64) : Monitor where
  ourLUID := ourLUID
  families i :=
    { blackhole := hasDefaultRoute i.family config, hosts := webSocketServerHosts config i }
  stage := .constructing
  work := some {}

/-- The next step of `start` or of `Destroy`; `ok` says which calls succeed, one of them for a
registration. -/
def proceed (ok : AddressFamily → Bool) (m : Monitor) : Option Monitor :=
  match m.stage with
  | .built =>
    if m.work.isSome then none
    else some { pinSockets ok m with
      stage := if ok .inet && ok .inet6 then .pinned else .startFailed }
  | .pinned =>
    if ok .inet then some { m with stage := .routeRegistered, routeCallback := true }
    else some { m with stage := .startFailed }
  | .routeRegistered =>
    if ok .inet then some { m with stage := .registered, interfaceCallback := true }
    else some { m with stage := .cancelling, routeCallback := false }
  | .cancelling =>
    if m.notices.any Notice.isRoute then none else some { m with stage := .startFailed }
  | .registered =>
    if m.work.isSome then none else some { m with stage := .started, callbacks := true }
  | .unregisterRoute => some { m with stage := .waitRoute, routeCallback := false }
  | .waitRoute =>
    if m.notices.any Notice.isRoute then none else some { m with stage := .unregisterInterface }
  | .unregisterInterface => some { m with stage := .waitInterface, interfaceCallback := false }
  | .waitInterface =>
    if m.notices.all Notice.isRoute then some { m with stage := .stopTimer } else none
  | .stopTimer => some { m with stage := .remove, timer := false }
  | .remove =>
    if m.work.isSome then none else some { m with
      stage := .removing, work := some { removing := true } }
  | _ => none

def destroy (m : Monitor) : Option Monitor :=
  if m.work.isSome then none
  else match m.stage with
    | .built => some { m with stage := .stopTimer }
    | .startFailed => some { m with stage := .stopTimer }
    | .started => some { m with stage := .unregisterRoute, callbacks := false }
    | _ => none

end Monitor

structure Sys (ι : Type) where
  table : List (ForwardRow ι)
  net : Interfaces
  monitors : ι → Monitor

inductive Act
  /-- `found` is whether the table could be read. -/
  | lookup (found : Bool)
  | deleteRoute (host : Prefix) (succeeds : Bool)
  | addRoute (fails : Bool)
  | advance
  | finish (binds : AddressFamily → Bool)
  | handle (notice : Notice) (late : Bool)
  | fire
  | burst
  | update
  | new (config : Config) (ourLUID : UInt64)
  | proceed (ok : AddressFamily → Bool)
  | destroy

inductive Action (ι : Type)
  | monitor (k : ι) (a : Act)
  /-- The default routes change. -/
  | setDefaults (rows : List (ForwardRow ι))
  /-- The status or the metrics of interfaces change. -/
  | setInterfaces (net : Interfaces)
  /-- Another program adds or deletes an entry that is not a default route. -/
  | foreignAdd (route : Route)
  | foreignDelete (route : Route)

def Monitor.step (answer : AddressFamily → DefaultGateway) (present : Route → Bool) (m : Monitor) :
    Act → Option (Monitor × Effect)
  | .lookup found => do
    let m' ← m.lookup (fun i => if found then some (answer i) else none) (← m.work)
    return (m', .none)
  | .deleteRoute host succeeds => do
    let r ← m.deleteRoute host (← m.work)
    return (r.1, if succeeds then .delete r.2 else .none)
  | .addRoute fails => do m.addRoute present fails (← m.work)
  | .advance => do return (← m.advance (← m.work), .none)
  | .finish binds => do return (← m.finish binds (← m.work), .none)
  | .handle notice late => do return (← m.handle notice late, .none)
  | .fire => do return (← m.fire, .none)
  | .burst => do return (← m.burst, .none)
  | .update => do return (← m.update, .none)
  | .new config ourLUID => if m.stage = .absent then some (.create config ourLUID, .none) else none
  | .proceed ok => do return (← m.proceed ok, .none)
  | .destroy => do return (← m.destroy, .none)

namespace Sys
variable {ι : Type}

def Present (s : Sys ι) (r : Route) : Prop := ∃ row ∈ s.table, row.route = r

instance (s : Sys ι) (r : Route) : Decidable (s.Present r) :=
  inferInstanceAs (Decidable (∃ row ∈ s.table, row.route = r))

def defaultGateway (s : Sys ι) (k : ι) (family : AddressFamily) : DefaultGateway :=
  findDefaultGateway s.table s.net family (s.monitors k).ourLUID

def notify (registered : Monitor → Bool) (notice : Notice) (s : Sys ι) : Sys ι :=
  { s with monitors := fun k =>
    if registered (s.monitors k) then { s.monitors k with
      notices := (s.monitors k).notices ++ [notice] } else s.monitors k }

def delete (r : Route) (s : Sys ι) : Sys ι :=
  if s.Present r then
    notify Monitor.routeCallback (.deleted r.destination) { s with
      table := s.table.filter fun row => row.route ≠ r }
  else s

def insert (r : Route) (addedBy : Option ι) (s : Sys ι) : Sys ι :=
  { s with table := s.table ++ [{ route := r, addedBy := addedBy }] }

def apply (k : ι) (s : Sys ι) : Effect → Sys ι
  | .none => s
  | .add r => s.insert r (some k)
  | .delete r => s.delete r

def step [DecidableEq ι] (s : Sys ι) : Action ι → Option (Sys ι)
  | .monitor k a => do
    let r ← (s.monitors k).step (s.defaultGateway k) (fun r => decide (s.Present r)) a
    return apply k { s with monitors := Function.update s.monitors k r.1 } r.2
  | .setDefaults rows =>
    some (notify Monitor.routeCallback .route { s with
      table := s.table.filter (fun row => row.route.destination.bits ≠ 0) ++
        rows.filter fun row => row.route.destination.bits = 0 })
  | .setInterfaces net => some (notify Monitor.interfaceCallback .interface { s with net := net })
  | .foreignAdd r => if r.destination.bits = 0 ∨ s.Present r then none else some (s.insert r none)
  | .foreignDelete r => if r.destination.bits = 0 then none else some (s.delete r)

end Sys

inductive Moves (answer : AddressFamily → DefaultGateway) (present : Route → Bool) (m : Monitor) :
    Act → Monitor → Effect → Prop
  | lookupError {i todo moved failed}
      (hw : m.work = some ⟨false, i :: todo, .next, moved, failed⟩) :
    Moves answer present m (.lookup false) (m.working ⟨false, todo, .next, moved, true⟩) .none
  | lookupSame {i todo moved failed} (hw : m.work = some ⟨false, i :: todo, .next, moved, failed⟩)
      (hgateway : (m.families i).gateway = answer i)
      (hcomplete : (m.families i).incomplete = false) :
    Moves answer present m (.lookup true) (m.working ⟨false, todo, .next, moved, failed⟩) .none
  | lookupMoved {i todo moved failed} (hw : m.work = some ⟨false, i :: todo, .next, moved, failed⟩)
      (hgateway : (m.families i).gateway ≠ answer i) :
    Moves answer present m (.lookup true)
      ((m.setFamily i { m.families i with gateway := answer i, incomplete := true }).working
        ⟨false, todo, .deleting i (m.families i).gateway (m.families i).owned,
          moved || !(m.families i).hosts.isEmpty, failed⟩) .none
  | lookupAgain {i todo moved failed} (hw : m.work = some ⟨false, i :: todo, .next, moved, failed⟩)
      (hgateway : (m.families i).gateway = answer i)
      (hincomplete : (m.families i).incomplete = true) :
    Moves answer present m (.lookup true)
      ((m.setFamily i { m.families i with gateway := answer i, incomplete := true }).working
        ⟨false, todo, .adding i (m.families i).hosts, moved, failed⟩) .none
  | deleteRoute {removing todo i previous left moved failed host} (succeeds : Bool)
      (hw : m.work = some ⟨removing, todo, .deleting i previous left, moved, failed⟩)
      (hhost : host ∈ left) :
    Moves answer present m (.deleteRoute host succeeds)
      (m.working ⟨removing, todo, .deleting i previous (left.filter (· ≠ host)), moved, failed⟩)
      (if succeeds then .delete (previous.route host) else .none)
  | addExists {removing todo i host left moved failed} (fails : Bool)
      (hw : m.work = some ⟨removing, todo, .adding i (host :: left), moved, failed⟩)
      (hluid : (m.families i).gateway.luid ≠ 0)
      (hpresent : present ((m.families i).gateway.route host) = true) :
    Moves answer present m (.addRoute fails)
      (m.working ⟨removing, todo, .adding i left, moved, failed⟩) .none
  | addFails {removing todo i host left moved failed}
      (hw : m.work = some ⟨removing, todo, .adding i (host :: left), moved, failed⟩)
      (hluid : (m.families i).gateway.luid ≠ 0)
      (hpresent : present ((m.families i).gateway.route host) = false) :
    Moves answer present m (.addRoute true) (m.working ⟨removing, todo, .next, moved, true⟩) .none
  | added {removing todo i host left moved failed}
      (hw : m.work = some ⟨removing, todo, .adding i (host :: left), moved, failed⟩)
      (hluid : (m.families i).gateway.luid ≠ 0)
      (hpresent : present ((m.families i).gateway.route host) = false) :
    Moves answer present m (.addRoute false)
      ((m.setFamily i { m.families i with owned := (m.families i).owned.insert host }).working
        ⟨removing, todo, .adding i left, true, failed⟩) (.add ((m.families i).gateway.route host))
  | addSkipped {removing todo i host left moved failed}
      (hw : m.work = some ⟨removing, todo, .adding i (host :: left), moved, failed⟩)
      (hluid : (m.families i).gateway.luid = 0) :
    Moves answer present m .advance
      (m.working ⟨removing, todo, .adding i left, moved, failed⟩) .none
  | addedAll {removing todo i moved failed}
      (hw : m.work = some ⟨removing, todo, .adding i [], moved, failed⟩) :
    Moves answer present m .advance
      ((m.setFamily i { m.families i with incomplete := false }).working
        ⟨removing, todo, .next, moved, failed⟩) .none
  | removeNext {i todo moved failed} (hw : m.work = some ⟨true, i :: todo, .next, moved, failed⟩) :
    Moves answer present m .advance
      (m.working
        ⟨true, todo, .deleting i (m.families i).gateway (m.families i).owned, moved, failed⟩) .none
  | removedAll {i todo previous moved failed}
      (hw : m.work = some ⟨true, todo, .deleting i previous [], moved, failed⟩) :
    Moves answer present m .advance
      ((m.setFamily i { m.families i with owned := [], gateway := {} }).working
        ⟨true, todo, .next, moved, failed⟩) .none
  | deletedAll {i todo previous moved failed}
      (hw : m.work = some ⟨false, todo, .deleting i previous [], moved, failed⟩) :
    Moves answer present m .advance
      ((m.setFamily i { m.families i with owned := [] }).working
        ⟨false, todo, .adding i (m.families i).hosts, moved, failed⟩) .none
  | rejected {moved failed} (binds) (hw : m.work = some ⟨true, [], .next, moved, failed⟩)
      (hstage : m.stage = .constructing) :
    Moves answer present m (.finish binds) { m with work := none, stage := .failed } .none
  | reject {moved} (binds) (hw : m.work = some ⟨false, [], .next, moved, true⟩)
      (hstage : m.stage = .constructing) :
    Moves answer present m (.finish binds) (m.working { removing := true }) .none
  | constructed {moved} (binds) (hw : m.work = some ⟨false, [], .next, moved, false⟩)
      (hstage : m.stage = .constructing) :
    Moves answer present m (.finish binds) { m with work := none, stage := .built } .none
  | removed {removing moved failed} (binds)
      (hw : m.work = some ⟨removing, [], .next, moved, failed⟩) (hstage : m.stage = .removing) :
    Moves answer present m (.finish binds) { m with work := none, stage := .destroyed } .none
  | updated {removing moved failed} (binds)
      (hw : m.work = some ⟨removing, [], .next, moved, failed⟩)
      (hconstructing : m.stage ≠ .constructing) (hremoving : m.stage ≠ .removing) :
    Moves answer present m (.finish binds)
      (Monitor.pinSockets binds { m with
        work := none, rebinds := if moved then m.rebinds + 1 else m.rebinds }) .none
  | hostDeleted {destination i} (late) (hmem : Notice.deleted destination ∈ m.notices)
      (hw : m.work = none) (hhost : destination ∈ (m.families i).hosts) :
    Moves answer present m (.handle (.deleted destination) late)
      { m.setFamily i { m.families i with incomplete := true } with
        notices := m.notices.erase (.deleted destination) ++ [.route] } .none
  | otherDeleted {destination} (late) (hmem : Notice.deleted destination ∈ m.notices)
      (hw : m.work = none) (hhost : ∀ i, destination ∉ (m.families i).hosts) :
    Moves answer present m (.handle (.deleted destination) late)
      { m with notices := m.notices.erase (.deleted destination) } .none
  | bump {notice} (late) (hmem : notice ∈ m.notices)
      (hnotice : ∀ destination, notice ≠ .deleted destination) :
    Moves answer present m (.handle notice late)
      (Monitor.bump late { m with notices := m.notices.erase notice }) .none
  | fire (htimer : m.timer = true) :
    Moves answer present m .fire { m with timer := false, fired := m.fired + 1 } .none
  | burst (hfired : m.fired ≠ 0) :
    Moves answer present m .burst
      { m with fired := m.fired - 1, firstBurst := false, updates := m.updates + 1 } .none
  | update (hupdates : m.updates ≠ 0) (hw : m.work = none) (hcallbacks : m.callbacks = true) :
    Moves answer present m .update { m with updates := m.updates - 1, work := some {} } .none
  | updateVoid (hupdates : m.updates ≠ 0) (hw : m.work = none) (hcallbacks : m.callbacks = false) :
    Moves answer present m .update { m with updates := m.updates - 1 } .none
  | new (config ourLUID) (hstage : m.stage = .absent) :
    Moves answer present m (.new config ourLUID) (.create config ourLUID) .none
  | pin (ok) (hstage : m.stage = .built) (hw : m.work = none) :
    Moves answer present m (.proceed ok)
      { Monitor.pinSockets ok m with
        stage := if ok .inet && ok .inet6 then .pinned else .startFailed } .none
  | registerRoute (ok) (hstage : m.stage = .pinned) :
    Moves answer present m (.proceed ok)
      { m with stage := .routeRegistered, routeCallback := true } .none
  | routeRefused (ok) (hstage : m.stage = .pinned) :
    Moves answer present m (.proceed ok) { m with stage := .startFailed } .none
  | registerInterface (ok) (hstage : m.stage = .routeRegistered) :
    Moves answer present m (.proceed ok)
      { m with stage := .registered, interfaceCallback := true } .none
  | interfaceRefused (ok) (hstage : m.stage = .routeRegistered) :
    Moves answer present m (.proceed ok)
      { m with stage := .cancelling, routeCallback := false } .none
  | cancelled (ok) (hstage : m.stage = .cancelling) :
    Moves answer present m (.proceed ok) { m with stage := .startFailed } .none
  | setCallbacks (ok) (hstage : m.stage = .registered) (hw : m.work = none) :
    Moves answer present m (.proceed ok) { m with stage := .started, callbacks := true } .none
  | unregisterRoute (ok) (hstage : m.stage = .unregisterRoute) :
    Moves answer present m (.proceed ok)
      { m with stage := .waitRoute, routeCallback := false } .none
  | routeWaited (ok) (hstage : m.stage = .waitRoute) :
    Moves answer present m (.proceed ok) { m with stage := .unregisterInterface } .none
  | unregisterInterface (ok) (hstage : m.stage = .unregisterInterface) :
    Moves answer present m (.proceed ok)
      { m with stage := .waitInterface, interfaceCallback := false } .none
  | interfaceWaited (ok) (hstage : m.stage = .waitInterface) :
    Moves answer present m (.proceed ok) { m with stage := .stopTimer } .none
  | stopTimer (ok) (hstage : m.stage = .stopTimer) :
    Moves answer present m (.proceed ok) { m with stage := .remove, timer := false } .none
  | remove (ok) (hstage : m.stage = .remove) (hw : m.work = none) :
    Moves answer present m (.proceed ok)
      { m with stage := .removing, work := some { removing := true } } .none
  | destroyUnstarted (hstage : m.stage = .built ∨ m.stage = .startFailed) (hw : m.work = none) :
    Moves answer present m .destroy { m with stage := .stopTimer } .none
  | destroyStarted (hstage : m.stage = .started) (hw : m.work = none) :
    Moves answer present m .destroy { m with stage := .unregisterRoute, callbacks := false } .none

theorem find_family {p : AddressFamily → Bool} :
    (families.find? p = none ∧ ∀ i, p i = false) ∨ ∃ i, families.find? p = some i ∧ p i = true := by
  cases hinet : p .inet with
  | true => exact .inr ⟨.inet, by simp [families, hinet], hinet⟩
  | false =>
    cases hinet6 : p .inet6 with
    | true => exact .inr ⟨.inet6, by simp [families, hinet, hinet6], hinet6⟩
    | false =>
      refine .inl ⟨by simp [families, hinet, hinet6], fun i => ?_⟩
      cases i with
      | inet => exact hinet
      | inet6 => exact hinet6

section
variable {answer : AddressFamily → DefaultGateway} {present : Route → Bool} {m m' : Monitor}
  {effect : Effect}

theorem moves_lookup {found : Bool} {w : Work} (hw : m.work = some w)
    (h : m.lookup (fun i => if found then some (answer i) else none) w = some m') :
    Moves answer present m (.lookup found) m' .none := by
  obtain ⟨removing, todo, pos, moved, failed⟩ := w
  cases pos with
  | deleting i previous left => cases h
  | adding i left => cases h
  | next =>
    cases todo with
    | nil => cases h
    | cons i todo =>
      cases removing with
      | true => cases h
      | false =>
        cases found with
        | false =>
          cases h
          exact .lookupError hw
        | true =>
          rw [Monitor.lookup] at h
          dsimp only at h
          rw [if_neg Bool.false_ne_true, if_pos rfl] at h
          dsimp only at h
          by_cases hgateway : (m.families i).gateway = answer i
          · rw [if_neg (not_not.mpr hgateway)] at h
            cases hcomplete : (m.families i).incomplete with
            | false =>
              rw [if_pos ⟨hgateway.symm, by simp [hcomplete]⟩] at h
              cases h
              exact .lookupSame hw hgateway hcomplete
            | true =>
              rw [if_neg (by simp [hcomplete])] at h
              cases h
              exact .lookupAgain hw hgateway hcomplete
          · rw [if_neg (fun hc => hgateway hc.1.symm), if_pos hgateway] at h
            cases h
            exact .lookupMoved hw hgateway

theorem moves_addRoute {fails : Bool} {w : Work} (hw : m.work = some w)
    (h : m.addRoute present fails w = some (m', effect)) :
    Moves answer present m (.addRoute fails) m' effect := by
  obtain ⟨removing, todo, pos, moved, failed⟩ := w
  cases pos with
  | next => cases h
  | deleting i previous left => cases h
  | adding i left =>
    cases left with
    | nil => cases h
    | cons host left =>
      rw [Monitor.addRoute] at h
      dsimp only at h
      by_cases hluid : (m.families i).gateway.luid = 0
      · rw [if_pos hluid] at h
        cases h
      · rw [if_neg hluid] at h
        cases hpresent : present ((m.families i).gateway.route host) with
        | true =>
          rw [if_pos hpresent] at h
          cases h
          exact .addExists fails hw hluid hpresent
        | false =>
          rw [if_neg (by simp [hpresent])] at h
          cases fails with
          | true =>
            cases h
            exact .addFails hw hluid hpresent
          | false =>
            cases h
            exact .added hw hluid hpresent

theorem moves_advance {w : Work} (hw : m.work = some w) (h : m.advance w = some m') :
    Moves answer present m .advance m' .none := by
  obtain ⟨removing, todo, pos, moved, failed⟩ := w
  cases pos with
  | next =>
    cases todo with
    | nil => cases h
    | cons i todo =>
      cases removing with
      | false => cases h
      | true =>
        cases h
        exact .removeNext hw
  | deleting i previous left =>
    cases left with
    | cons host left => cases h
    | nil =>
      cases removing with
      | true =>
        cases h
        exact .removedAll hw
      | false =>
        cases h
        exact .deletedAll hw
  | adding i left =>
    cases left with
    | nil =>
      cases h
      exact .addedAll hw
    | cons host left =>
      rw [Monitor.advance] at h
      dsimp only at h
      by_cases hluid : (m.families i).gateway.luid = 0
      · rw [if_pos hluid] at h
        cases h
        exact .addSkipped hw hluid
      · rw [if_neg hluid] at h
        cases h

theorem moves_finish {binds : AddressFamily → Bool} {w : Work} (hw : m.work = some w)
    (h : m.finish binds w = some m') :
    Moves answer present m (.finish binds) m' .none := by
  obtain ⟨removing, todo, pos, moved, failed⟩ := w
  cases pos with
  | deleting i previous left => cases h
  | adding i left => cases h
  | next =>
    cases todo with
    | cons i todo => cases h
    | nil =>
      rw [Monitor.finish] at h
      dsimp only at h
      by_cases hconstructing : m.stage = .constructing
      · rw [hconstructing] at h
        dsimp only at h
        cases removing with
        | true =>
          cases h
          exact .rejected binds hw hconstructing
        | false =>
          cases failed with
          | true =>
            cases h
            exact .reject binds hw hconstructing
          | false =>
            cases h
            exact .constructed binds hw hconstructing
      · by_cases hremoving : m.stage = .removing
        · rw [hremoving] at h
          cases h
          exact .removed binds hw hremoving
        · have hupdate : m' = Monitor.pinSockets binds
              { m with work := none, rebinds := if moved then m.rebinds + 1 else m.rebinds } := by
            split at h
            · exact absurd ‹_› hconstructing
            · exact absurd ‹_› hremoving
            · cases h
              rfl
          rw [hupdate]
          exact .updated binds hw hconstructing hremoving

theorem moves_handle {notice : Notice} {late : Bool} (h : m.handle notice late = some m') :
    Moves answer present m (.handle notice late) m' .none := by
  rw [Monitor.handle] at h
  by_cases hmem : notice ∈ m.notices
  · rw [if_neg (not_not.mpr hmem)] at h
    dsimp only at h
    cases notice with
    | route | interface =>
      cases h
      exact .bump late hmem fun _ heq => by cases heq
    | deleted destination =>
      dsimp only at h
      cases hw : m.work with
      | some w =>
        rw [if_pos (by rw [hw]; rfl)] at h
        cases h
      | none =>
        rw [if_neg (by simp [hw]), Monitor.hostRouteDeleted] at h
        dsimp only at h
        rcases @find_family fun i => decide (destination ∈ (m.families i).hosts) with ⟨hfind,
          hno⟩ | ⟨i, hfind, hi⟩
        · rw [hfind] at h
          cases h
          exact .otherDeleted late hmem hw fun i => of_decide_eq_false (hno i)
        · rw [hfind] at h
          cases h
          exact .hostDeleted late hmem hw (of_decide_eq_true hi)
  · rw [if_pos hmem] at h
    cases h

theorem moves_proceed {ok : AddressFamily → Bool} (h : m.proceed ok = some m') :
    Moves answer present m (.proceed ok) m' .none := by
  rw [Monitor.proceed] at h
  cases hstage : m.stage with rw [hstage] at h
  | built =>
    obtain ⟨hw, heq⟩ := Option.ite_none_left_eq_some.mp h
    cases heq
    exact .pin ok hstage (by simpa using hw)
  | pinned =>
    dsimp only at h
    split at h
    · cases h
      exact .registerRoute ok hstage
    · cases h
      exact .routeRefused ok hstage
  | routeRegistered =>
    dsimp only at h
    split at h
    · cases h
      exact .registerInterface ok hstage
    · cases h
      exact .interfaceRefused ok hstage
  | cancelling =>
    obtain ⟨-, heq⟩ := Option.ite_none_left_eq_some.mp h
    cases heq
    exact .cancelled ok hstage
  | registered =>
    obtain ⟨hw, heq⟩ := Option.ite_none_left_eq_some.mp h
    cases heq
    exact .setCallbacks ok hstage (by simpa using hw)
  | unregisterRoute =>
    cases h
    exact .unregisterRoute ok hstage
  | waitRoute =>
    obtain ⟨-, heq⟩ := Option.ite_none_left_eq_some.mp h
    cases heq
    exact .routeWaited ok hstage
  | unregisterInterface =>
    cases h
    exact .unregisterInterface ok hstage
  | waitInterface =>
    obtain ⟨-, heq⟩ := Option.ite_none_right_eq_some.mp h
    cases heq
    exact .interfaceWaited ok hstage
  | stopTimer =>
    cases h
    exact .stopTimer ok hstage
  | remove =>
    obtain ⟨hw, heq⟩ := Option.ite_none_left_eq_some.mp h
    cases heq
    exact .remove ok hstage (by simpa using hw)
  | _ => cases h

theorem moves_destroy (h : m.destroy = some m') : Moves answer present m .destroy m' .none := by
  obtain ⟨hw, h⟩ := Option.ite_none_left_eq_some.mp h
  have hw : m.work = none := by simpa using hw
  cases hstage : m.stage with rw [hstage] at h
  | built =>
    cases h
    exact .destroyUnstarted (.inl hstage) hw
  | startFailed =>
    cases h
    exact .destroyUnstarted (.inr hstage) hw
  | started =>
    cases h
    exact .destroyStarted hstage hw
  | _ => cases h

theorem moves_of_step {a : Act} (h : m.step answer present a = some (m', effect)) :
    Moves answer present m a m' effect := by
  cases a with
  | lookup found =>
    obtain ⟨w, hw, h⟩ := Option.bind_eq_some_iff.mp h
    obtain ⟨n, hn, h⟩ := Option.bind_eq_some_iff.mp h
    cases h
    exact moves_lookup hw hn
  | deleteRoute host succeeds =>
    obtain ⟨⟨removing, todo, pos, moved, failed⟩, hw, h⟩ := Option.bind_eq_some_iff.mp h
    obtain ⟨r, hr, h⟩ := Option.bind_eq_some_iff.mp h
    cases pos with
    | next => cases hr
    | adding i left => cases hr
    | deleting i previous left =>
      rw [Monitor.deleteRoute] at hr
      dsimp only at hr
      by_cases hhost : host ∈ left
      · rw [if_pos hhost] at hr
        cases hr
        cases h
        exact .deleteRoute succeeds hw hhost
      · rw [if_neg hhost] at hr
        cases hr
  | addRoute fails =>
    obtain ⟨w, hw, h⟩ := Option.bind_eq_some_iff.mp h
    exact moves_addRoute hw h
  | advance =>
    obtain ⟨w, hw, h⟩ := Option.bind_eq_some_iff.mp h
    obtain ⟨n, hn, h⟩ := Option.bind_eq_some_iff.mp h
    cases h
    exact moves_advance hw hn
  | finish binds =>
    obtain ⟨w, hw, h⟩ := Option.bind_eq_some_iff.mp h
    obtain ⟨n, hn, h⟩ := Option.bind_eq_some_iff.mp h
    cases h
    exact moves_finish hw hn
  | handle notice late =>
    obtain ⟨n, hn, h⟩ := Option.bind_eq_some_iff.mp h
    cases h
    exact moves_handle hn
  | fire =>
    obtain ⟨n, hn, h⟩ := Option.bind_eq_some_iff.mp h
    cases h
    obtain ⟨htimer, heq⟩ := Option.ite_none_right_eq_some.mp hn
    cases heq
    exact .fire htimer
  | burst =>
    obtain ⟨n, hn, h⟩ := Option.bind_eq_some_iff.mp h
    cases h
    obtain ⟨hfired, heq⟩ := Option.ite_none_left_eq_some.mp hn
    cases heq
    exact .burst hfired
  | update =>
    obtain ⟨n, hn, h⟩ := Option.bind_eq_some_iff.mp h
    cases h
    obtain ⟨hwait, hn⟩ := Option.ite_none_left_eq_some.mp hn
    rw [not_or, Bool.not_eq_true, Option.isSome_eq_false_iff, Option.isNone_iff_eq_none] at hwait
    cases hcallbacks : m.callbacks with
    | true =>
      rw [if_pos hcallbacks] at hn
      cases hn
      exact .update hwait.1 hwait.2 hcallbacks
    | false =>
      rw [if_neg (by simp [hcallbacks])] at hn
      cases hn
      exact .updateVoid hwait.1 hwait.2 hcallbacks
  | new config ourLUID =>
    obtain ⟨hstage, heq⟩ := Option.ite_none_right_eq_some.mp h
    cases heq
    exact .new config ourLUID hstage
  | proceed ok =>
    obtain ⟨n, hn, h⟩ := Option.bind_eq_some_iff.mp h
    cases h
    exact moves_proceed hn
  | destroy =>
    obtain ⟨n, hn, h⟩ := Option.bind_eq_some_iff.mp h
    cases h
    exact moves_destroy hn

end

namespace Sys
variable {ι : Type} {s t : Sys ι}

theorem step_monitor [DecidableEq ι] {k : ι} {a : Act} (h : s.step (.monitor k a) = some t) :
    ∃ m' effect, Moves (s.defaultGateway k) (fun r => decide (s.Present r))
      (s.monitors k) a m' effect ∧
      t = apply k { s with monitors := Function.update s.monitors k m' } effect := by
  obtain ⟨r, hr, h⟩ := Option.bind_eq_some_iff.mp h
  cases h
  exact ⟨r.1, r.2, moves_of_step hr, rfl⟩

theorem delete_table (r : Route) (s : Sys ι) :
    (s.delete r).table = s.table.filter fun row => row.route ≠ r := by
  rw [delete]
  split_ifs with hpresent
  · rfl
  · refine (List.filter_eq_self.mpr fun row hrow => ?_).symm
    exact decide_eq_true fun heq => hpresent ⟨row, hrow, heq⟩

theorem notify_monitors (registered : Monitor → Bool) (notice : Notice) (s : Sys ι) (k : ι) :
    ∃ notices, (s.notify registered notice).monitors k = { s.monitors k with
      notices := notices } := by
  rw [notify]
  dsimp only
  split_ifs
  · exact ⟨_, rfl⟩
  · exact ⟨_, rfl⟩

theorem delete_monitors (r : Route) (s : Sys ι) (k : ι) :
    ∃ notices, (s.delete r).monitors k = { s.monitors k with notices := notices } := by
  rw [delete]
  split_ifs
  · exact notify_monitors _ _ _ k
  · exact ⟨_, rfl⟩

theorem apply_monitors (k : ι) (effect : Effect) (s : Sys ι) (k' : ι) :
    ∃ notices, (apply k s effect).monitors k' = { s.monitors k' with notices := notices } := by
  cases effect with
  | none => exact ⟨_, rfl⟩
  | add r => exact ⟨_, rfl⟩
  | delete r => exact delete_monitors r s k'

theorem step_cases [DecidableEq ι] {a : Action ι} (h : s.step a = some t) (k : ι) :
    (∃ notices, t.monitors k = { s.monitors k with notices := notices }) ∨
      ∃ act m' effect notices, a = .monitor k act ∧ t.monitors k = { m' with notices := notices } ∧
        Moves (s.defaultGateway k) (fun r => decide (s.Present r))
          (s.monitors k) act m' effect := by
  cases a with
  | monitor k' act =>
    obtain ⟨m', effect, hm, rfl⟩ := step_monitor h
    obtain ⟨notices, heq⟩ :=
      apply_monitors k' effect { s with monitors := Function.update s.monitors k' m' } k
    dsimp only at heq
    by_cases hk : k = k'
    · subst hk
      rw [Function.update_self] at heq
      exact .inr ⟨act, m', effect, notices, rfl, heq, hm⟩
    · rw [Function.update_of_ne hk] at heq
      exact .inl ⟨notices, heq⟩
  | setDefaults rows | setInterfaces net =>
    cases h
    exact .inl (notify_monitors _ _ _ k)
  | foreignAdd r =>
    obtain ⟨-, h⟩ := Option.ite_none_left_eq_some.mp h
    cases h
    exact .inl ⟨_, rfl⟩
  | foreignDelete r =>
    obtain ⟨-, h⟩ := Option.ite_none_left_eq_some.mp h
    cases h
    exact .inl (delete_monitors r s k)

theorem notices_notify (registered : Monitor → Bool) (notice : Notice) (s : Sys ι) (k : ι) :
    ∃ notices, (s.notify registered notice).monitors k = { s.monitors k with notices := notices } ∧
      (s.monitors k).notices ⊆ notices ∧ (registered (s.monitors k) = true → notice ∈ notices) := by
  rw [notify]
  dsimp only
  split_ifs with h
  · exact ⟨_, rfl, List.subset_append_left _ _, fun _ => List.mem_append_right _ List.mem_cons_self⟩
  · exact ⟨_, rfl, List.Subset.refl _, fun h' => absurd h' h⟩

theorem notices_delete (r : Route) (s : Sys ι) (k : ι) :
    ∃ notices, (s.delete r).monitors k = { s.monitors k with notices := notices } ∧
    (s.monitors k).notices ⊆ notices := by
  rw [delete]
  split_ifs
  · obtain ⟨notices, heq, hsub, -⟩ := notices_notify Monitor.routeCallback (.deleted r.destination)
      { s with table := s.table.filter fun row => row.route ≠ r } k
    exact ⟨notices, heq, hsub⟩
  · exact ⟨_, rfl, List.Subset.refl _⟩

theorem notices_apply (k : ι) (effect : Effect) (s : Sys ι) (k' : ι) : ∃ notices,
    (apply k s effect).monitors k' = { s.monitors k' with notices := notices } ∧
    (s.monitors k').notices ⊆ notices := by
  cases effect with
  | none | add r => exact ⟨_, rfl, List.Subset.refl _⟩
  | delete r => exact notices_delete r s k'

theorem present_insert {r r' : Route} {k : Option ι} :
    (s.insert r k).Present r' ↔ s.Present r' ∨ r' = r := by
  constructor
  · rintro ⟨row, hrow, rfl⟩
    rcases List.mem_append.mp hrow with hrow | hrow
    · exact .inl ⟨row, hrow, rfl⟩
    · rw [List.mem_singleton.mp hrow]
      exact .inr rfl
  · rintro (⟨row, hrow, rfl⟩ | rfl)
    · exact ⟨row, List.mem_append_left _ hrow, rfl⟩
    · exact ⟨_, List.mem_append_right _ (List.mem_singleton.mpr rfl), rfl⟩

theorem present_delete {r r' : Route} : (s.delete r).Present r' ↔ s.Present r' ∧ r' ≠ r := by
  rw [Present, delete_table]
  constructor
  · rintro ⟨row, hrow, rfl⟩
    obtain ⟨hrow, hne⟩ := List.mem_filter.mp hrow
    exact ⟨⟨row, hrow, rfl⟩, of_decide_eq_true hne⟩
  · rintro ⟨⟨row, hrow, rfl⟩, hne⟩
    exact ⟨row, List.mem_filter.mpr ⟨hrow, decide_eq_true hne⟩, rfl⟩

theorem present_apply {k : ι} {effect : Effect} {r : Route} :
    (apply k s effect).Present r ↔ (s.Present r ∧ effect ≠ .delete r) ∨ effect = .add r := by
  cases effect with
  | none => simp [apply]
  | add r' =>
    rw [apply, present_insert, Effect.add.injEq]
    simp [eq_comm]
  | delete r' =>
    rw [apply, present_delete]
    simp [eq_comm]

theorem present_setDefaults [DecidableEq ι] {rows : List (ForwardRow ι)}
    (h : s.step (.setDefaults rows) = some t) {r : Route} (hbits : r.destination.bits ≠ 0) :
    t.Present r ↔ s.Present r := by
  cases h
  constructor
  · rintro ⟨row, hrow, rfl⟩
    rcases List.mem_append.mp hrow with hrow | hrow
    · exact ⟨row, (List.mem_filter.mp hrow).1, rfl⟩
    · exact absurd (of_decide_eq_true (List.mem_filter.mp hrow).2) hbits
  · rintro ⟨row, hrow, rfl⟩
    exact ⟨row, List.mem_append_left _ (List.mem_filter.mpr ⟨hrow, decide_eq_true hbits⟩), rfl⟩

end Sys

end WireGuardWindows.Tunnel.RouteMonitor
