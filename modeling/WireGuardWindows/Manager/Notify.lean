import WireGuardWindows.Manager.Ipc
import WireGuardWindows.Systems.Runs

/-!
# Delivery of notifications to the clients

`notifyAll` starts, for every registered client, a goroutine that takes the client's
`eventLock`, writes the encoded notification to its event pipe and releases the lock.
Nothing orders the goroutines of two calls: any goroutine that waits for the lock may get
it next, and the schedule says which one does. The client decodes its pipe in
`InitializeIPCClient` and the tunnel list keeps the last state it was told.
-/

namespace WireGuardWindows.Manager

open GoStd Systems

inductive Notification
  | tunnelChange (name : Str) (state globalState : TunnelState) (err : Str)
  | tunnelsChange
  | managerStopping
  | updateFound (state : UpdateState)
  | updateProgress (activity : Str) (bytesDownloaded bytesTotal : UInt64) (err : Str)
      (complete : Bool)
  deriving DecidableEq

namespace Notification

def encode : Notification → List GobValue
  | tunnelChange name state globalState err =>
    [.notificationType .tunnelChange, .string name, .tunnelState state, .tunnelState globalState,
      .string err]
  | tunnelsChange => [.notificationType .tunnelsChange]
  | managerStopping => [.notificationType .managerStopping]
  | updateFound state => [.notificationType .updateFound, .updateState state]
  | updateProgress activity bytesDownloaded bytesTotal err complete =>
    [.notificationType .updateProgress, .string activity, .uint64 bytesDownloaded,
      .uint64 bytesTotal, .string err, .bool complete]

def adminOnly : Notification → Bool
  | updateProgress .. => true
  | _ => false

end Notification

/-- A `ManagerService` together with the goroutines `notifyAll` started for it. `issued`
records the notifications that were issued to it, `writeFailed` whether a write of one
timed out. -/
structure ManagerService where
  elevated : Bool
  registered : Bool := true
  events : Bool := true
  waiting : List Notification := []
  holder : Option Notification := none
  pipe : List GobValue := []
  issued : List Notification := []
  writeFailed : Bool := false

namespace ManagerService

/-- The loop body of `notifyAll`. -/
def notify (n : Notification) (m : ManagerService) : ManagerService :=
  if m.registered && !(!m.elevated && n.adminOnly) then
    { m with waiting := m.waiting ++ [n], issued := m.issued ++ [n] }
  else m

def lock (i : Nat) (m : ManagerService) : Option ManagerService :=
  match m.holder, m.waiting[i]? with
  | none, some n => some { m with holder := some n, waiting := m.waiting.eraseIdx i }
  | _, _ => none

def write (ok : Bool) (m : ManagerService) : Option ManagerService :=
  match m.holder with
  | none => none
  | some n =>
    if !m.events then some { m with holder := none }
    else if ok then some { m with holder := none, pipe := m.pipe ++ n.encode }
    else some { m with holder := none, writeFailed := true }

/-- The end of the goroutine that `IPCServerListen` starts. -/
def disconnect (m : ManagerService) : Option ManagerService :=
  if m.holder.isNone then some { m with events := false, registered := false } else none

end ManagerService

inductive NotifyAction
  | connect (elevated : Bool)
  | notify (n : Notification)
  | lock (client i : Nat)
  | write (client : Nat) (ok : Bool)
  | disconnect (client : Nat)

def onClient (f : ManagerService → Option ManagerService) (ms : List ManagerService)
    (client : Nat) : Option (List ManagerService) :=
  ms[client]?.bind fun m => (f m).map fun m' => ms.set client m'

def notifyStep (ms : List ManagerService) : NotifyAction → Option (List ManagerService)
  | .connect elevated => some (ms ++ [{ elevated }])
  | .notify n => some (ms.map (ManagerService.notify n))
  | .lock client i => onClient (ManagerService.lock i) ms client
  | .write client ok => onClient (ManagerService.write ok) ms client
  | .disconnect client => onClient ManagerService.disconnect ms client

/-- The decoder loop of `InitializeIPCClient`: the notifications it gets out of the pipe,
up to the first value of an unexpected type. -/
def decodeEvents : List GobValue → List Notification
  | .notificationType .tunnelChange :: .string name :: .tunnelState state ::
      .tunnelState globalState :: .string err :: rest =>
    .tunnelChange name state globalState err :: decodeEvents rest
  | .notificationType .tunnelsChange :: rest => .tunnelsChange :: decodeEvents rest
  | .notificationType .managerStopping :: rest => .managerStopping :: decodeEvents rest
  | .notificationType .updateFound :: .updateState state :: rest =>
    .updateFound state :: decodeEvents rest
  | .notificationType .updateProgress :: .string activity :: .uint64 bytesDownloaded ::
      .uint64 bytesTotal :: .string err :: .bool complete :: rest =>
    .updateProgress activity bytesDownloaded bytesTotal err complete :: decodeEvents rest
  | _ => []

def onTunnelChange (tunnels : List Str) (lastObservedState : Str → Option TunnelState)
    (name : Str) (state : TunnelState) : Str → Option TunnelState :=
  if name ∈ tunnels then fun t => if t = name then some state else lastObservedState t
  else lastObservedState

/-- What one notification does to the list. The client passes no change of a tunnel
without a name and no `TunnelUnknown` on to its callbacks. -/
def observe (tunnels : List Str) (last : Str → Option TunnelState) :
    Notification → Str → Option TunnelState
  | .tunnelChange name state _ _ =>
    if name.isEmpty || state == .unknown then last else onTunnelChange tunnels last name state
  | _ => last

def observed (tunnels : List Str) (ns : List Notification) : Str → Option TunnelState :=
  ns.foldl (observe tunnels) fun _ => none

def lastIssued (ns : List Notification) (tunnel : Str) : Option TunnelState :=
  ns.foldl issue none
where
  issue (last : Option TunnelState) : Notification → Option TunnelState
    | .tunnelChange name state _ _ => if name = tunnel then some state else last
    | _ => last

theorem decodeEvents_encode (n : Notification) (rest : List GobValue) :
    decodeEvents (n.encode ++ rest) = n :: decodeEvents rest := by
  cases n <;> rfl

theorem decodeEvents_flatMap (ns : List Notification) :
    decodeEvents (ns.flatMap Notification.encode) = ns := by
  induction ns with
  | nil => rfl
  | cons n ns ih => rw [List.flatMap_cons, decodeEvents_encode, ih]

theorem observed_append (tunnels : List Str) (ns : List Notification) (n : Notification) :
    observed tunnels (ns ++ [n]) = observe tunnels (observed tunnels ns) n := by
  simp [observed]

theorem lastIssued_append (ns : List Notification) (n : Notification) (tunnel : Str) :
    lastIssued (ns ++ [n]) tunnel = lastIssued.issue tunnel (lastIssued ns tunnel) n := by
  simp [lastIssued]

theorem observe_of_ne {tunnels : List Str} {last : Str → Option TunnelState} {name tunnel : Str}
    (hname : tunnel ≠ name) (state globalState : TunnelState) (err : Str) :
    observe tunnels last (.tunnelChange name state globalState err) tunnel = last tunnel := by
  simp only [observe, onTunnelChange]
  split_ifs <;> first | rfl | simp [hname]

theorem observed_eq_lastIssued {tunnels : List Str} {tunnel : Str} (hmem : tunnel ∈ tunnels)
    (hne : tunnel ≠ []) {ns : List Notification} (h : lastIssued ns tunnel ≠ some .unknown) :
    observed tunnels ns tunnel = lastIssued ns tunnel := by
  induction ns using List.reverseRecOn with
  | nil => rfl
  | append_singleton ns n ih =>
    rw [lastIssued_append] at h ⊢
    rw [observed_append]
    cases n with
    | tunnelChange name state globalState err =>
      by_cases hname : tunnel = name
      · subst hname
        have hstate : state ≠ .unknown := by simpa [lastIssued.issue] using h
        simp [observe, onTunnelChange, lastIssued.issue, hne, hstate, hmem]
      · rw [observe_of_ne hname]
        simp only [lastIssued.issue, if_neg (Ne.symm hname)] at h ⊢
        exact ih h
    | tunnelsChange => exact ih h
    | managerStopping => exact ih h
    | updateFound state => exact ih h
    | updateProgress activity bytesDownloaded bytesTotal err complete => exact ih h

/-- What was written to a connected client, what is being written and what waits is, in
this order, what was issued to it. -/
structure InOrder (m : ManagerService) : Prop where
  open_of_registered : m.registered = true → m.events = true
  delivered : m.registered = true → m.writeFailed = false →
    ∃ written : List Notification, m.pipe = written.flatMap Notification.encode ∧
      m.issued = written ++ m.holder.toList ++ m.waiting

namespace InOrder

variable {m m' : ManagerService}

theorem connect (elevated : Bool) : InOrder { elevated } :=
  ⟨fun _ => rfl, fun _ _ => ⟨[], rfl, rfl⟩⟩

theorem notify (h : InOrder m) (n : Notification) : InOrder (m.notify n) := by
  unfold ManagerService.notify
  split_ifs with hn
  · refine ⟨h.open_of_registered, fun hr hw => ?_⟩
    obtain ⟨written, hpipe, hissued⟩ := h.delivered hr hw
    refine ⟨written, hpipe, ?_⟩
    change m.issued ++ [n] = _
    rw [hissued, List.append_assoc _ _ [n]]
  · exact h

theorem lock (h : InOrder m) (hlock : m.lock 0 = some m') : InOrder m' := by
  simp only [ManagerService.lock] at hlock
  split at hlock
  · rename_i n hholder hfirst
    cases hlock
    refine ⟨h.open_of_registered, fun hr hw => ?_⟩
    obtain ⟨written, hpipe, hissued⟩ := h.delivered hr hw
    refine ⟨written, hpipe, ?_⟩
    cases hwaiting : m.waiting with
    | nil => simp [hwaiting] at hfirst
    | cons n' rest =>
      have hn : n' = n := by simpa [hwaiting] using hfirst
      change m.issued = _
      rw [hissued, hholder, hwaiting, hn]
      simp
  · cases hlock

theorem write (h : InOrder m) {ok : Bool} (hwrite : m.write ok = some m') : InOrder m' := by
  simp only [ManagerService.write] at hwrite
  split at hwrite
  · cases hwrite
  · rename_i n hholder
    split_ifs at hwrite with hclosed hok
    · cases hwrite
      refine ⟨h.open_of_registered, fun hr _ => ?_⟩
      have := h.open_of_registered hr
      simp [this] at hclosed
    · cases hwrite
      refine ⟨h.open_of_registered, fun hr hw => ?_⟩
      obtain ⟨written, hpipe, hissued⟩ := h.delivered hr hw
      refine ⟨written ++ [n], ?_, ?_⟩
      · change m.pipe ++ n.encode = _
        rw [hpipe]
        simp
      · change m.issued = _
        rw [hissued, hholder]
        simp
    · cases hwrite
      exact ⟨h.open_of_registered, fun _ hw => nomatch hw⟩

theorem disconnect (hdisconnect : m.disconnect = some m') : InOrder m' := by
  simp only [ManagerService.disconnect] at hdisconnect
  split_ifs at hdisconnect
  cases hdisconnect
  exact ⟨(nomatch ·), (nomatch ·)⟩

end InOrder

theorem forall_onClient {I : ManagerService → Prop} {f : ManagerService → Option ManagerService}
    {ms ms' : List ManagerService} {client : Nat} (hf : ∀ m m', I m → f m = some m' → I m')
    (hms : ∀ m ∈ ms, I m) (h : onClient f ms client = some ms') : ∀ m ∈ ms', I m := by
  obtain ⟨m, hm, h⟩ := Option.bind_eq_some_iff.mp h
  obtain ⟨m', hm', rfl⟩ := Option.map_eq_some_iff.mp h
  intro x hx
  rcases List.mem_or_eq_of_mem_set hx with hx | rfl
  · exact hms x hx
  · exact hf m x (hms m (List.mem_of_getElem? hm)) hm'

def OldestFirst (_ : List ManagerService) : NotifyAction → Prop
  | .lock _ i => i = 0
  | _ => True

instance (ms : List ManagerService) (a : NotifyAction) : Decidable (OldestFirst ms a) := by
  cases a <;> unfold OldestFirst <;> infer_instance

theorem inOrder_step (ms : List ManagerService) (a : NotifyAction) (ms' : List ManagerService)
    (hms : ∀ m ∈ ms, InOrder m) (ha : OldestFirst ms a) (h : notifyStep ms a = some ms') :
    ∀ m ∈ ms', InOrder m := by
  cases a with
  | connect elevated =>
    cases h
    exact List.forall_mem_append.mpr ⟨hms, List.forall_mem_singleton.mpr (.connect elevated)⟩
  | notify n =>
    cases h
    intro m hm
    obtain ⟨m₀, hm₀, rfl⟩ := List.mem_map.mp hm
    exact (hms m₀ hm₀).notify n
  | lock client i =>
    cases ha
    exact forall_onClient (fun m m' hm hlock => hm.lock hlock) hms h
  | write client ok => exact forall_onClient (fun m m' hm hwrite => hm.write hwrite) hms h
  | disconnect client => exact forall_onClient (fun m m' _ hd => InOrder.disconnect hd) hms h

/-- In every schedule in which the event locks go to the goroutines in the order they were
started, every connected client whose writes succeed gets the notifications in the order
in which they were issued. Once no goroutine is left for it, it has all of them, and its
tunnel list shows for each tunnel the last state issued for it, `TunnelUnknown` apart,
which a client never shows. -/
theorem notifications_in_order {as : List NotifyAction} {ms : List ManagerService}
    (horder : Along notifyStep OldestFirst [] as) (h : exec notifyStep [] as = some ms)
    {m : ManagerService} (hm : m ∈ ms) (hconnected : m.registered = true)
    (hwrites : m.writeFailed = false) :
    decodeEvents m.pipe <+: m.issued ∧
      (m.waiting = [] → m.holder = none → decodeEvents m.pipe = m.issued ∧
        ∀ tunnels : List Str, ∀ tunnel ∈ tunnels, tunnel ≠ [] →
          lastIssued m.issued tunnel ≠ some .unknown →
            observed tunnels (decodeEvents m.pipe) tunnel = lastIssued m.issued tunnel) := by
  have hall := invariant_along (I := fun ms => ∀ m ∈ ms, InOrder m) inOrder_step
    (fun _ hm => absurd hm List.not_mem_nil) horder h
  obtain ⟨written, hpipe, hissued⟩ := (hall m hm).delivered hconnected hwrites
  have hread : decodeEvents m.pipe = written := by rw [hpipe, decodeEvents_flatMap]
  refine ⟨?_, fun hwaiting hholder => ?_⟩
  · rw [hread, hissued, List.append_assoc]
    exact List.prefix_append written _
  · have hfull : decodeEvents m.pipe = m.issued := by
      rw [hread, hissued, hwaiting, hholder]
      simp
    refine ⟨hfull, fun tunnels tunnel hmem hne hlast => ?_⟩
    rw [hfull]
    exact observed_eq_lastIssued hmem hne hlast

def startingThenStarted : List NotifyAction :=
  [.connect true, .notify (.tunnelChange (str "office") .starting .starting []),
    .notify (.tunnelChange (str "office") .started .started [])]

def deliveredInOrder : List NotifyAction :=
  startingThenStarted ++ [.lock 0 0, .write 0 true, .lock 0 0, .write 0 true]

theorem notifications_in_order_started :
    ∃ m, exec notifyStep [] deliveredInOrder = some [m] ∧ decodeEvents m.pipe = m.issued ∧
      observed [str "office"] (decodeEvents m.pipe) (str "office") = some .started := by
  refine ⟨_, rfl, ?_⟩
  have horder : Along notifyStep OldestFirst [] deliveredInOrder := by decide
  obtain ⟨hfull, hshown⟩ :=
    (notifications_in_order horder rfl List.mem_cons_self rfl rfl).2 rfl rfl
  refine ⟨hfull, ?_⟩
  rw [hshown [str "office"] (str "office") (by simp) (by decide) (by decide)]
  decide

/-- With the lock handed out the other way round the client is left with the tunnel shown
as starting, although it has started. -/
theorem notifications_overtaken :
    ∃ m, exec notifyStep [] (startingThenStarted ++
        [.lock 0 1, .write 0 true, .lock 0 0, .write 0 true]) = some [m] ∧
      m.registered = true ∧ m.writeFailed = false ∧ m.waiting = [] ∧ m.holder = none ∧
      ¬ decodeEvents m.pipe <+: m.issued ∧
      lastIssued m.issued (str "office") = some .started ∧
      observed [str "office"] (decodeEvents m.pipe) (str "office") = some .starting := by
  refine ⟨_, rfl, rfl, rfl, rfl, rfl, ?_, ?_, ?_⟩ <;> decide

end WireGuardWindows.Manager
