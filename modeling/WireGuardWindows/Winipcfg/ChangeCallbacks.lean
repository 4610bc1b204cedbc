import WireGuardWindows.Systems.Runs

/-!
# Change callbacks

The handlers of route, interface and unicast address changes in `tunnel/winipcfg` are one
program at three types of rows `ρ`. `Register…ChangeCallback` and `Unregister` take a mutex
for adding and removing and, inside it, a mutex for the map of callbacks. Windows calls the
function `…Changed` on threads of its own; it takes the inner mutex and starts one goroutine for
each callback. `cancelMibChangeNotify2` returns when no call of `…Changed` is left, which is why
`Unregister` gives the inner mutex back before it calls it.

What is done with the inner mutex held is one move, except that `…Changed` starts its
goroutines one by one: one may end before the next is started. A callback `κ` is the pointer that
`Register…ChangeCallback` allocates, so every call of it has a new one.
-/

namespace WireGuardWindows.Winipcfg
open Systems

inductive MibNotificationType
  | parameterNotification | addInstance | deleteInstance | initialNotification
  deriving DecidableEq

/-- What a callback is called with: the copy of the row is made before any mutex is taken. -/
structure Change (ρ : Type) where
  notificationType : MibNotificationType
  row : ρ
  deriving DecidableEq

inductive Call (κ : Type)
  | register (c : κ)
  | unregister (c : κ)
  deriving DecidableEq

inductive Holder (κ : Type)
  | register (c : κ)
  /-- With the inner mutex. -/
  | registering (c : κ)
  | unregister (c : κ)
  /-- With the inner mutex. -/
  | unregistering (c : κ)
  /-- `removeIt` was true, and the inner mutex is given back. -/
  | cancel (c : κ)
  /-- Inside `cancelMibChangeNotify2`. -/
  | cancelling (c : κ)
  deriving DecidableEq

def Holder.inner {κ : Type} : Holder κ → Bool
  | .registering _ | .unregistering _ => true
  | _ => false

def Call.begin {κ : Type} : Call κ → Holder κ
  | .register c => .register c
  | .unregister c => .unregister c

structure Handler (κ ρ : Type) where
  callbacks : List κ := []
  /-- `…ChangeHandle` is not zero. -/
  handle : Bool := false
  /-- Windows calls `…Changed`. -/
  notifying : Bool := false
  /-- Calls that wait for the outer mutex. -/
  waiting : List (Call κ) := []
  holder : Option (Holder κ) := none
  /-- Calls of `…Changed` that wait for the inner mutex. -/
  arrived : List (Change ρ) := []
  /-- The call of `…Changed` that has it, and the callbacks that it has not started. -/
  changed : Option (Change ρ × List κ) := none
  /-- Goroutines: what `wait` counts. -/
  running : List (κ × Change ρ) := []
  /-- Calls of `Unregister` in `wait.Wait()`. -/
  draining : List κ := []
  /-- Callbacks made so far, and how their calls returned. -/
  made : List κ := []
  registered : List κ := []
  failed : List κ := []
  unregistered : List κ := []

namespace Handler

variable {κ ρ : Type}

def free (s : Handler κ ρ) : Bool := s.changed.isNone && !s.holder.any Holder.inner

def counts [DecidableEq κ] (s : Handler κ ρ) (c : κ) : Bool := s.running.any fun r => r.1 = c

end Handler

inductive Action (κ ρ : Type)
  | call (k : Call κ)
  | notify (change : Change ρ)
  | acquire (k : Call κ)
  | lock
  /-- The body of `Register…ChangeCallback`; `ok` is the answer of Windows, if it is asked. -/
  | register (ok : Bool)
  | delete
  | cancel (ok : Bool)
  | cancelled
  | lockChanged (change : Change ρ)
  | start (c : κ) (change : Change ρ)
  | unlockChanged
  | finish (c : κ) (change : Change ρ)
  | waited (c : κ)

namespace Handler

variable {κ ρ : Type} [DecidableEq κ] [DecidableEq ρ]

/-- A callback is unregistered by those that were given it, perhaps more than once. -/
def mayCall (s : Handler κ ρ) : Call κ → Bool
  | .register c => c ∉ s.made
  | .unregister c => c ∈ s.registered

def made' (s : Handler κ ρ) : Call κ → List κ
  | .register c => c :: s.made
  | .unregister _ => s.made

/-- The end of `Unregister`: the outer mutex is given back first, then the goroutines are waited
for. -/
def drain (s : Handler κ ρ) (c : κ) : Handler κ ρ :=
  { s with holder := none, draining := c :: s.draining }

def registerBody (s : Handler κ ρ) (c : κ) (ok : Bool) : Handler κ ρ :=
  if s.handle ∨ ok then
    { s with
      callbacks := c :: s.callbacks, handle := true, notifying := s.notifying || !s.handle
      holder := none, registered := c :: s.registered }
  else { s with holder := none, failed := c :: s.failed }

def deleteBody (s : Handler κ ρ) (c : κ) : Handler κ ρ :=
  let s := { s with callbacks := s.callbacks.erase c }
  if s.callbacks.isEmpty && s.handle then { s with holder := some (.cancel c) } else s.drain c

def step (s : Handler κ ρ) : Action κ ρ → Option (Handler κ ρ)
  | .call k => if s.mayCall k then some { s with waiting := k :: s.waiting, made := s.made' k }
    else none
  | .notify change => if s.notifying then some { s with arrived := change :: s.arrived } else none
  | .acquire k =>
    if s.holder.isNone && k ∈ s.waiting then some { s with
      waiting := s.waiting.erase k, holder := some k.begin }
    else none
  | .lock => match s.holder with
    | some (.register c) => if s.free then some { s with holder := some (.registering c) } else none
    | some (.unregister c) =>
      if s.free then some { s with holder := some (.unregistering c) } else none
    | _ => none
  | .register ok => match s.holder with
    | some (.registering c) => some (s.registerBody c ok)
    | _ => none
  | .delete => match s.holder with
    | some (.unregistering c) => some (s.deleteBody c)
    | _ => none
  | .cancel ok => match s.holder with
    | some (.cancel c) =>
      some (if ok then { s with notifying := false, holder := some (.cancelling c) } else s.drain c)
    | _ => none
  | .cancelled => match s.holder with
    | some (.cancelling c) =>
      if s.arrived.isEmpty && s.changed.isNone then some { s.drain c with
        handle := false } else none
    | _ => none
  | .lockChanged change =>
    if s.free && change ∈ s.arrived then
      some { s with arrived := s.arrived.erase change, changed := some (change, s.callbacks) }
    else none
  | .start c change => match s.changed with
    | some (change', todo) =>
      if change' = change ∧ c ∈ todo then
        some { s with changed := some (change, todo.erase c), running := (c, change) :: s.running }
      else none
    | none => none
  | .unlockChanged => match s.changed with
    | some (_, []) => some { s with changed := none }
    | _ => none
  | .finish c change =>
    if (c, change) ∈ s.running then some { s with running := s.running.erase (c, change) } else none
  | .waited c =>
    if c ∈ s.draining && !s.counts c then
      some { s with draining := s.draining.erase c, unregistered := c :: s.unregistered }
    else none

inductive Moves (s : Handler κ ρ) : Action κ ρ → Handler κ ρ → Prop
  | call {k} (hmay : s.mayCall k = true) :
  Moves s (.call k) { s with waiting := k :: s.waiting, made := s.made' k }
  | notify {change} (hnot : s.notifying = true) : Moves s (.notify change) { s with
    arrived := change :: s.arrived }
  | acquire {k} (hnone : s.holder = none) (hk : k ∈ s.waiting) :
    Moves s (.acquire k) { s with waiting := s.waiting.erase k, holder := some k.begin }
  | lockRegister {c} (hh : s.holder = some (.register c)) (hfree : s.free = true) :
    Moves s .lock { s with holder := some (.registering c) }
  | lockUnregister {c} (hh : s.holder = some (.unregister c)) (hfree : s.free = true) :
    Moves s .lock { s with holder := some (.unregistering c) }
  | register {c ok} (hh : s.holder = some (.registering c)) : Moves s (.register ok)
    (s.registerBody c ok)
  | delete {c} (hh : s.holder = some (.unregistering c)) : Moves s .delete (s.deleteBody c)
  | cancel {c} (hh : s.holder = some (.cancel c)) :
    Moves s (.cancel true) { s with notifying := false, holder := some (.cancelling c) }
  | cancelFailed {c} (hh : s.holder = some (.cancel c)) : Moves s (.cancel false) (s.drain c)
  | cancelled {c} (hh : s.holder = some (.cancelling c)) (harrived : s.arrived = [])
    (hchanged : s.changed = none) :
    Moves s .cancelled { s.drain c with handle := false }
  | lockChanged {change} (hfree : s.free = true) (hi : change ∈ s.arrived) :
    Moves s (.lockChanged change) { s with
      arrived := s.arrived.erase change, changed := some (change, s.callbacks) }
  | start {c change todo} (hchanged : s.changed = some (change, todo)) (hc : c ∈ todo) :
    Moves s (.start c change) { s with
      changed := some (change, todo.erase c), running := (c, change) :: s.running }
  | unlockChanged {change} (hchanged : s.changed = some (change, [])) :
    Moves s .unlockChanged { s with changed := none }
  | finish {c change} (hc : (c, change) ∈ s.running) :
    Moves s (.finish c change) { s with running := s.running.erase (c, change) }
  | waited {c} (hc : c ∈ s.draining) (hno : s.counts c = false) :
    Moves s (.waited c) { s with
      draining := s.draining.erase c, unregistered := c :: s.unregistered }

theorem moves_of_step {s t : Handler κ ρ} {a : Action κ ρ} (h : step s a = some t) :
    Moves s a t := by
  cases a with
  | call k =>
    rw [step, Option.ite_none_right_eq_some] at h
    obtain ⟨hmay, ⟨⟩⟩ := h
    exact .call hmay
  | notify change =>
    rw [step, Option.ite_none_right_eq_some] at h
    obtain ⟨hnot, ⟨⟩⟩ := h
    exact .notify hnot
  | acquire k =>
    rw [step, Option.ite_none_right_eq_some, Bool.and_eq_true, Option.isNone_iff_eq_none,
      decide_eq_true_eq] at h
    obtain ⟨⟨hnone, hk⟩, ⟨⟩⟩ := h
    exact .acquire hnone hk
  | lock =>
    rw [step] at h
    split at h
    · rename_i c hh
      rw [Option.ite_none_right_eq_some] at h
      obtain ⟨hfree, ⟨⟩⟩ := h
      exact .lockRegister hh hfree
    · rename_i c hh
      rw [Option.ite_none_right_eq_some] at h
      obtain ⟨hfree, ⟨⟩⟩ := h
      exact .lockUnregister hh hfree
    · cases h
  | register ok =>
    rw [step] at h
    split at h
    · rename_i c hh
      cases h
      exact .register hh
    · cases h
  | delete =>
    rw [step] at h
    split at h
    · rename_i c hh
      cases h
      exact .delete hh
    · cases h
  | cancel ok =>
    rw [step] at h
    split at h
    · rename_i c hh
      cases ok <;> cases h
      · exact .cancelFailed hh
      · exact .cancel hh
    · cases h
  | cancelled =>
    rw [step] at h
    split at h
    · rename_i c hh
      rw [Option.ite_none_right_eq_some, Bool.and_eq_true, List.isEmpty_iff,
        Option.isNone_iff_eq_none] at h
      obtain ⟨⟨harrived, hchanged⟩, ⟨⟩⟩ := h
      exact .cancelled hh harrived hchanged
    · cases h
  | lockChanged change =>
    rw [step, Option.ite_none_right_eq_some, Bool.and_eq_true, decide_eq_true_eq] at h
    obtain ⟨⟨hfree, hi⟩, ⟨⟩⟩ := h
    exact .lockChanged hfree hi
  | start c change =>
    rw [step] at h
    split at h
    · rename_i todo hchanged
      rw [Option.ite_none_right_eq_some] at h
      obtain ⟨⟨rfl, hc⟩, ⟨⟩⟩ := h
      exact .start hchanged hc
    · cases h
  | unlockChanged =>
    rw [step] at h
    split at h
    · rename_i change hchanged
      cases h
      exact .unlockChanged hchanged
    · cases h
  | finish c change =>
    rw [step, Option.ite_none_right_eq_some] at h
    obtain ⟨hc, ⟨⟩⟩ := h
    exact .finish hc
  | waited c =>
    rw [step, Option.ite_none_right_eq_some] at h
    obtain ⟨hc, ⟨⟩⟩ := h
    simp only [Bool.and_eq_true, decide_eq_true_eq, Bool.not_eq_true'] at hc
    exact .waited hc.1 hc.2

end Handler

variable {κ ρ : Type}

@[simp] def Call.registers : Call κ → List κ
  | .register c => [c]
  | .unregister _ => []

@[simp] def Call.unregisters : Call κ → List κ
  | .register _ => []
  | .unregister c => [c]

@[simp] def Holder.registers : Holder κ → List κ
  | .register c | .registering c => [c]
  | _ => []

@[simp] def Holder.unregisters : Holder κ → List κ
  | .unregister c | .unregistering c => [c]
  | _ => []

@[simp] def Holder.removed : Holder κ → List κ
  | .cancel c | .cancelling c => [c]
  | _ => []

namespace Handler

def registering (s : Handler κ ρ) : List κ :=
  s.waiting.flatMap Call.registers ++ s.holder.toList.flatMap Holder.registers

def unregistering (s : Handler κ ρ) : List κ :=
  s.waiting.flatMap Call.unregisters ++ s.holder.toList.flatMap Holder.unregisters

def removed (s : Handler κ ρ) : List κ :=
  s.holder.toList.flatMap Holder.removed ++ (s.draining ++ s.unregistered)

/-- The lists of callbacks account for each other: every callback ever made is at one place. -/
structure Accounted (s : Handler κ ρ) : Prop where
  fresh : s.made.Nodup
  accounted : (s.registering ++ (s.registered ++ s.failed)).Perm s.made
  pending : ∀ c ∈ s.unregistering, c ∈ s.registered
  removed : ∀ c ∈ s.removed, c ∈ s.registered

theorem Accounted.goesOn {s : Handler κ ρ} (hs : s.Accounted) {k k' : Holder κ}
    (hh : s.holder = some k) (hreg : k'.registers = k.registers)
    (hunreg : k'.unregisters = k.unregisters) (hrem : k'.removed = k.removed) (b : Bool) :
    Accounted { s with notifying := b, holder := some k' } := by
  obtain ⟨hfresh, hacc, hpend, hremoved⟩ := hs
  simp only [registering, unregistering, Handler.removed, hh, Option.toList_some,
    List.flatMap_singleton] at hacc hpend hremoved
  refine ⟨hfresh, ?_, ?_, ?_⟩
  · simpa only [registering, Option.toList_some, List.flatMap_singleton, hreg] using hacc
  · simpa only [unregistering, Option.toList_some, List.flatMap_singleton, hunreg] using hpend
  · simpa only [Handler.removed, Option.toList_some, List.flatMap_singleton, hrem] using hremoved

theorem Accounted.drain {s : Handler κ ρ} (hs : s.Accounted) {c : κ}
    (hh : s.holder = some (.cancel c) ∨ s.holder = some (.cancelling c)) (b : Bool) :
    Accounted { s.drain c with handle := b } := by
  obtain ⟨hfresh, hacc, hpend, hremoved⟩ := hs
  rcases hh with hh | hh
  all_goals
    simp only [registering, unregistering, Handler.removed, hh] at hacc hpend hremoved
    refine ⟨hfresh, ?_, ?_, hremoved⟩
    · simpa [registering, Handler.drain] using hacc
    · simpa [unregistering, Handler.drain] using hpend

theorem Accounted.register {s : Handler κ ρ} (hs : s.Accounted) {c : κ}
    (hh : s.holder = some (.registering c)) (ok : Bool) :
    (s.registerBody c ok).Accounted := by
  obtain ⟨hfresh, hacc, hpend, hremoved⟩ := hs
  simp only [registering, unregistering, Handler.removed, hh, Option.toList_some,
    List.flatMap_singleton, Holder.registers, Holder.unregisters, Holder.removed, List.append_nil,
    List.append_assoc, List.singleton_append] at hacc hpend hremoved
  rw [registerBody]
  split
  · refine ⟨hfresh, by simpa [registering] using hacc, ?_, ?_⟩
    · simpa [unregistering] using fun d k hk hd =>
        Or.inr (hpend d (List.mem_flatMap.mpr ⟨k, hk, hd⟩))
    · exact fun d hd => List.mem_cons_of_mem c (hremoved d hd)
  · refine ⟨hfresh, ?_, by simpa [unregistering] using hpend, hremoved⟩
    have hmove : (s.registered ++ c :: s.failed).Perm (c :: (s.registered ++ s.failed)) :=
      List.perm_middle
    simpa [registering] using (hmove.append_left _).trans hacc

section
variable [DecidableEq κ]

theorem Accounted.delete {s : Handler κ ρ} (hs : s.Accounted) {c : κ}
    (hh : s.holder = some (.unregistering c)) :
    (s.deleteBody c).Accounted := by
  obtain ⟨hfresh, hacc, hpend, hremoved⟩ := hs
  simp only [registering, unregistering, Handler.removed, hh] at hacc hpend hremoved
  have hc : c ∈ s.registered := hpend c (by simp)
  have hpend' : ∀ d ∈ s.waiting.flatMap Call.unregisters, d ∈ s.registered := fun d hd =>
    hpend d (List.mem_append_left _ hd)
  rw [deleteBody]
  split
  · refine ⟨hfresh, by simpa [registering] using hacc, by simpa [unregistering] using hpend',
      fun d hd => ?_⟩
    exact (List.mem_cons.mp hd).elim (fun hd => hd ▸ hc) (hremoved d)
  · refine ⟨hfresh, by simpa [registering, Handler.drain] using hacc,
      by simpa [unregistering, Handler.drain] using hpend', fun d hd => ?_⟩
    exact (List.mem_cons.mp hd).elim (fun hd => hd ▸ hc) (hremoved d)

theorem perm_erase_append {draining unregistered : List κ} {c : κ} (hc : c ∈ draining) :
    (draining.erase c ++ c :: unregistered).Perm (draining ++ unregistered) :=
  List.perm_middle.trans ((List.perm_cons_erase hc).symm.append_right _)

theorem perm_flatMap_erase {α β : Type*} [DecidableEq α] (f : α → List β) {l : List α}
    {x : α} (h : x ∈ l) :
    ((l.erase x).flatMap f ++ f x).Perm (l.flatMap f) :=
  List.perm_append_comm.trans ((List.perm_cons_erase h).symm.flatMap_right f)

theorem Accounted.acquire {s : Handler κ ρ} (hs : s.Accounted) {k : Call κ}
    (hnone : s.holder = none) (hk : k ∈ s.waiting) :
    Accounted { s with waiting := s.waiting.erase k, holder := some k.begin } := by
  obtain ⟨hfresh, hacc, hpend, hremoved⟩ := hs
  have hbegin : k.begin.registers = k.registers ∧ k.begin.unregisters = k.unregisters ∧
      k.begin.removed = [] := by
    cases k <;> exact ⟨rfl, rfl, rfl⟩
  obtain ⟨hreg, hunreg, hrem⟩ := hbegin
  simp only [registering, unregistering, Handler.removed, hnone, Option.toList_none,
    List.flatMap_nil, List.append_nil, List.nil_append] at hacc hpend hremoved
  refine ⟨hfresh, ?_, fun c hc => ?_, ?_⟩
  · simp only [registering, Option.toList_some, List.flatMap_singleton, hreg]
    exact ((perm_flatMap_erase Call.registers hk).append_right _).trans hacc
  · simp only [unregistering, Option.toList_some, List.flatMap_singleton, hunreg] at hc
    exact hpend c ((perm_flatMap_erase Call.unregisters hk).mem_iff.mp hc)
  · simpa only [Handler.removed, Option.toList_some, List.flatMap_singleton, hrem,
      List.nil_append] using hremoved

theorem Accounted.call {s : Handler κ ρ} (hs : s.Accounted) {k : Call κ}
    (hmay : s.mayCall k = true) :
    Accounted { s with waiting := k :: s.waiting, made := s.made' k } := by
  obtain ⟨hfresh, hacc, hpend, hremoved⟩ := hs
  cases k with
  | register c =>
    have hc : c ∉ s.made := by simpa [mayCall] using hmay
    exact ⟨List.nodup_cons.mpr ⟨hc, hfresh⟩, hacc.cons c, hpend, hremoved⟩
  | unregister c =>
    have hc : c ∈ s.registered := by simpa [mayCall] using hmay
    exact ⟨hfresh, hacc, fun d hd => (List.mem_cons.mp hd).elim (fun hd => hd ▸ hc) (hpend d),
      hremoved⟩

variable [DecidableEq ρ]

theorem Accounted.moves {s t : Handler κ ρ} {a : Action κ ρ} (hs : s.Accounted) (h : s.Moves a t) :
    t.Accounted := by
  cases h with
  | call hmay => exact hs.call hmay
  | acquire hnone hk => exact hs.acquire hnone hk
  | lockRegister hh | lockUnregister hh | cancel hh =>
    exact hs.goesOn hh (by rfl) (by rfl) (by rfl) _
  | register hh => exact hs.register hh _
  | delete hh => exact hs.delete hh
  | cancelFailed hh => exact hs.drain (.inl hh) _
  | cancelled hh => exact hs.drain (.inr hh) _
  | @waited c hc =>
    refine ⟨hs.fresh, hs.accounted, hs.pending, fun d hd => hs.removed d ?_⟩
    exact (((perm_erase_append hc).append_left _).mem_iff).mp hd
  | notify | lockChanged | start | unlockChanged | finish =>
    exact ⟨hs.fresh, hs.accounted, hs.pending, hs.removed⟩

end

theorem removed_of_holder {s : Handler κ ρ} {k : Holder κ} (hh : s.holder = some k) :
    s.removed = k.removed ++ (s.draining ++ s.unregistered) := by
  simp [Handler.removed, hh]

theorem Accounted.not_registered {s : Handler κ ρ} (hs : s.Accounted) {c : κ}
    (hc : c ∈ s.registering) : c ∉ s.registered := by
  have hnodup := hs.accounted.nodup_iff.mpr hs.fresh
  exact fun hreg => (List.nodup_append.mp hnodup).2.2 c hc c (List.mem_append_left _ hreg) rfl

structure Mapped (s : Handler κ ρ) : Prop where
  nodup : s.callbacks.Nodup
  gone : ∀ c ∈ s.removed, c ∉ s.callbacks
  kept : ∀ c ∈ s.registered, c ∈ s.callbacks ∨ c ∈ s.removed
  owned : ∀ c ∈ s.callbacks, c ∈ s.registered

theorem Mapped.same {s t : Handler κ ρ} (hs : s.Mapped) (hmap : t.callbacks = s.callbacks)
    (hreg : t.registered = s.registered) (hrem : t.removed.Perm s.removed) : t.Mapped := by
  constructor
  · rw [hmap]
    exact hs.nodup
  · intro c hc
    rw [hmap]
    exact hs.gone c (hrem.mem_iff.mp hc)
  · intro c hc
    rw [hmap, hrem.mem_iff]
    exact hs.kept c (hreg ▸ hc)
  · rw [hmap, hreg]
    exact hs.owned

theorem Mapped.register {s : Handler κ ρ} (hs : s.Mapped) (ha : s.Accounted) {c : κ}
    (hh : s.holder = some (.registering c)) (ok : Bool) : (s.registerBody c ok).Mapped := by
  have hrem : s.removed = s.draining ++ s.unregistered := removed_of_holder hh
  have hc : c ∉ s.registered := ha.not_registered (by simp [registering, hh])
  rw [registerBody]
  split
  · constructor
    · exact List.nodup_cons.mpr ⟨fun hmem => hc (hs.owned c hmem), hs.nodup⟩
    · intro d hd hmem
      change d ∈ s.draining ++ s.unregistered at hd
      rw [← hrem] at hd
      rcases List.mem_cons.mp hmem with rfl | hmem
      · exact hc (ha.removed d hd)
      · exact hs.gone d hd hmem
    · intro d hd
      rcases List.mem_cons.mp hd with rfl | hd
      · exact .inl List.mem_cons_self
      · exact (hs.kept d hd).imp (List.mem_cons_of_mem c) (hrem ▸ id)
    · intro d hd
      rcases List.mem_cons.mp hd with rfl | hd
      · exact List.mem_cons_self
      · exact List.mem_cons_of_mem c (hs.owned d hd)
  · exact hs.same rfl rfl (.of_eq hrem.symm)

section
variable [DecidableEq κ]

theorem removed_deleteBody {s : Handler κ ρ} {c : κ} (hh : s.holder = some (.unregistering c)) :
    (s.deleteBody c).removed = c :: s.removed := by
  rw [removed_of_holder hh, deleteBody]
  split <;> rfl

theorem Mapped.delete {s : Handler κ ρ} (hs : s.Mapped) {c : κ}
    (hh : s.holder = some (.unregistering c)) : (s.deleteBody c).Mapped := by
  have hrem := removed_deleteBody hh
  have hmap : (s.deleteBody c).callbacks = s.callbacks.erase c ∧ (s.deleteBody c).registered =
      s.registered := by
    rw [deleteBody]
    split <;> exact ⟨rfl, rfl⟩
  constructor
  · rw [hmap.1]
    exact hs.nodup.erase c
  · intro d hd
    rw [hmap.1, hs.nodup.mem_erase_iff]
    rw [hrem] at hd
    rintro ⟨hne, hmem⟩
    exact (List.mem_cons.mp hd).elim hne fun hd => hs.gone d hd hmem
  · intro d hd
    rw [hmap.1, hs.nodup.mem_erase_iff, hrem, List.mem_cons]
    rw [hmap.2] at hd
    by_cases hdc : d = c
    · exact .inr (.inl hdc)
    · exact (hs.kept d hd).imp (fun hmem => ⟨hdc, hmem⟩) .inr
  · intro d hd
    rw [hmap.1] at hd
    rw [hmap.2]
    exact hs.owned d (List.mem_of_mem_erase hd)

variable [DecidableEq ρ]

theorem Moves.removed_perm {s t : Handler κ ρ} {a : Action κ ρ} (h : s.Moves a t)
    (ha : a ≠ .delete) : t.removed.Perm s.removed := by
  cases h with
  | @acquire k hnone hk =>
    apply List.Perm.of_eq
    cases k <;> simp [Handler.removed, hnone, Call.begin]
  | lockRegister hh | lockUnregister hh | cancel hh | cancelFailed hh | cancelled hh =>
    exact .of_eq (removed_of_holder hh).symm
  | @register c ok hh =>
    rw [removed_of_holder hh, registerBody]
    split <;> exact .refl _
  | delete hh => exact absurd rfl ha
  | waited hc => exact (perm_erase_append hc).append_left _
  | call | notify | lockChanged | start | unlockChanged | finish => exact .refl _

theorem Moves.removed {s t : Handler κ ρ} {a : Action κ ρ} (h : s.Moves a t) :
    s.removed ⊆ t.removed := by
  by_cases ha : a = .delete
  · subst ha
    cases h with
    | @delete c hh =>
      rw [removed_deleteBody hh]
      exact List.subset_cons_self c _
  · exact (h.removed_perm ha).symm.subset

theorem Mapped.moves {s t : Handler κ ρ} {a : Action κ ρ} (hs : s.Mapped) (ha : s.Accounted)
    (h : s.Moves a t) : t.Mapped := by
  have hperm := h.removed_perm
  cases h with
  | register hh => exact hs.register ha hh _
  | delete hh => exact hs.delete hh
  | _ => exact hs.same rfl rfl (hperm (fun heq => by cases heq))

end

/-- The inner mutex has one holder at most; the one that starts the goroutines sees the map as it
was. -/
structure Exclusive (s : Handler κ ρ) : Prop where
  inner : ∀ k, s.holder = some k → k.inner = true → s.changed = none
  todo : ∀ change todo, s.changed = some (change, todo) → todo.Nodup ∧ ∀ c ∈ todo, c ∈ s.callbacks

theorem free_iff {s : Handler κ ρ} : s.free = true ↔ s.changed = none ∧ ∀ k, s.holder = some k →
    k.inner = false := by
  cases hh : s.holder <;> simp [free, hh]

theorem Exclusive.of_none {s : Handler κ ρ} (h : s.changed = none) : s.Exclusive :=
  ⟨fun _ _ _ => h, fun _ _ htodo => absurd (h.symm.trans htodo) (by simp)⟩

theorem Exclusive.outside {s t : Handler κ ρ} (hs : s.Exclusive)
    (hout : ∀ k, t.holder = some k → k.inner = false) (hchanged : t.changed = s.changed)
    (hmap : t.callbacks = s.callbacks) : t.Exclusive := by
  refine ⟨fun k hk hin => absurd (hout k hk) (by simp [hin]), fun change todo h => ?_⟩
  rw [hmap]
  exact hs.todo change todo (hchanged ▸ h)

theorem Exclusive.moves [DecidableEq κ] [DecidableEq ρ] {s t : Handler κ ρ} {a : Action κ ρ}
    (hs : s.Exclusive) (hm : s.Mapped) (h : s.Moves a t) : t.Exclusive := by
  cases h with
  | call | notify | finish | waited => exact ⟨hs.inner, hs.todo⟩
  | @acquire k =>
    refine hs.outside (fun k' hk' => ?_) rfl rfl
    cases hk'
    cases k <;> rfl
  | lockRegister hh hfree | lockUnregister hh hfree => exact .of_none (free_iff.mp hfree).1
  | @register c ok hh =>
    have hnone := hs.inner _ hh rfl
    rw [registerBody]
    split <;> exact .of_none hnone
  | @delete c hh =>
    have hnone := hs.inner _ hh rfl
    rw [deleteBody]
    split <;> exact .of_none hnone
  | cancel hh =>
    refine hs.outside (fun k hk => ?_) rfl rfl
    cases hk
    rfl
  | cancelFailed hh => exact hs.outside (fun k hk => by cases hk) rfl rfl
  | cancelled hh _ hchanged => exact .of_none hchanged
  | lockChanged hfree =>
    refine ⟨fun k hk hin => ?_, fun change todo h => ?_⟩
    · rw [(free_iff.mp hfree).2 k hk] at hin
      cases hin
    · cases h
      exact ⟨hm.nodup, fun c hc => hc⟩
  | start hchanged hc =>
    obtain ⟨hnodup, hsub⟩ := hs.todo _ _ hchanged
    refine ⟨fun k hk hin => ?_, fun change todo h => ?_⟩
    · exact absurd (hchanged.symm.trans (hs.inner k hk hin)) (by simp)
    · cases h
      exact ⟨hnodup.erase _, fun c hc => hsub c (List.mem_of_mem_erase hc)⟩
  | unlockChanged => exact .of_none rfl

def Silent [DecidableEq κ] (s : Handler κ ρ) : Prop := ∀ c ∈ s.unregistered, s.counts c = false

theorem Silent.moves [DecidableEq κ] [DecidableEq ρ] {s t : Handler κ ρ} {a : Action κ ρ}
    (hs : s.Silent) (hm : s.Mapped) (he : s.Exclusive) (h : s.Moves a t) : t.Silent := by
  cases h with
  | @register c ok hh =>
    rw [registerBody]
    split <;> exact hs
  | @delete c hh =>
    rw [deleteBody]
    split <;> exact hs
  | @start c change todo hchanged hc =>
    intro d hd
    have hne : d ≠ c := by
      rintro rfl
      have hmem := (he.todo change todo hchanged).2 d hc
      exact hm.gone d (List.mem_append_right _ (List.mem_append_right _ hd)) hmem
    simpa [counts, hne.symm] using hs d hd
  | finish =>
    intro d hd
    have hd := hs d hd
    simp only [counts, List.any_eq_false] at hd ⊢
    exact fun r hr => hd r (List.mem_of_mem_erase hr)
  | waited hc hno =>
    exact List.forall_mem_cons.mpr ⟨hno, hs⟩
  | call | notify | acquire | lockRegister | lockUnregister | cancel | cancelFailed | cancelled
  | lockChanged | unlockChanged =>
    exact hs

/-- Windows notifies while there is a callback; when it was told not to, no call of `…Changed` is
left. -/
structure Notified (s : Handler κ ρ) : Prop where
  serving : s.callbacks ≠ [] → s.notifying = true
  handle : s.notifying = true → s.handle = true
  cancel : ∀ c, s.holder = some (.cancel c) → s.callbacks = [] ∧ s.notifying = true
  cancelling : ∀ c, s.holder = some (.cancelling c) → s.callbacks = [] ∧ s.notifying = false
  idle : s.notifying = false → (∀ c, s.holder ≠ some (.cancelling c)) → s.handle = false ∧
    s.arrived = [] ∧ s.changed = none

theorem Notified.outside {s t : Handler κ ρ} (hs : s.Notified) (hmap : t.callbacks = s.callbacks)
    (hnot : t.notifying = s.notifying) (hhandle : t.handle = s.handle)
    (hcancel : ∀ c, t.holder ≠ some (.cancel c))
    (hcancelling : ∀ c, t.holder ≠ some (.cancelling c))
    (hno : ∀ c, s.holder ≠ some (.cancelling c))
    (hleft : s.arrived = [] → s.changed = none → t.arrived = [] ∧ t.changed = none) :
    t.Notified := by
  constructor
  · rw [hmap, hnot]
    exact hs.serving
  · rw [hnot, hhandle]
    exact hs.handle
  · exact fun c hc => absurd hc (hcancel c)
  · exact fun c hc => absurd hc (hcancelling c)
  · intro h _
    obtain ⟨hidle, harrived, hchanged⟩ := hs.idle (hnot ▸ h) hno
    exact ⟨hhandle.trans hidle, hleft harrived hchanged⟩

theorem Notified.notifying {s : Handler κ ρ} (hs : s.Notified) (hhandle : s.handle = true)
    (hno : ∀ c, s.holder ≠ some (.cancelling c)) :
    s.notifying = true := by
  rw [← Bool.not_eq_false]
  intro h
  rw [(hs.idle h hno).1] at hhandle
  cases hhandle

theorem Notified.register {s : Handler κ ρ} (hs : s.Notified) {c : κ}
    (hh : s.holder = some (.registering c)) (ok : Bool) :
    (s.registerBody c ok).Notified := by
  have hno : ∀ d, s.holder ≠ some (.cancelling d) := by simp [hh]
  rw [registerBody]
  split
  · have hnot : (s.notifying || !s.handle) = true := by
      cases hhandle : s.handle with
      | false => simp
      | true => simp [hs.notifying hhandle hno]
    refine ⟨fun _ => hnot, fun _ => rfl, fun d hd => (by cases hd), fun d hd =>
      (by cases hd), fun h => ?_⟩
    exact absurd (hnot.symm.trans h) (by decide)
  · exact hs.outside rfl rfl rfl (by simp) (by simp) hno fun harrived hchanged =>
      ⟨harrived, hchanged⟩

section
variable [DecidableEq κ]

theorem Notified.delete {s : Handler κ ρ} (hs : s.Notified) {c : κ}
    (hh : s.holder = some (.unregistering c)) :
    (s.deleteBody c).Notified := by
  have hno : ∀ d, s.holder ≠ some (.cancelling d) := by simp [hh]
  have hserving : s.callbacks.erase c ≠ [] → s.notifying = true := by
    refine fun hne => hs.serving fun hnil => hne ?_
    rw [hnil]
    rfl
  rw [deleteBody]
  split
  · rename_i hlast
    simp only [Bool.and_eq_true, List.isEmpty_iff] at hlast
    have hnot := hs.notifying hlast.2 hno
    refine ⟨hserving, hs.handle, fun _ _ => ⟨hlast.1, hnot⟩, fun d hd => (by cases hd), fun h => ?_⟩
    exact absurd (hnot.symm.trans h) (by decide)
  · exact ⟨hserving, hs.handle, fun d hd => (by cases hd), fun d hd => (by cases hd), fun h _ =>
      hs.idle h hno⟩

variable [DecidableEq ρ]

theorem Notified.moves {s t : Handler κ ρ} {a : Action κ ρ} (hs : s.Notified) (h : s.Moves a t) :
    t.Notified := by
  cases h with
  | call | finish | waited => exact ⟨hs.serving, hs.handle, hs.cancel, hs.cancelling, hs.idle⟩
  | notify hnot =>
    exact ⟨hs.serving, hs.handle, hs.cancel, hs.cancelling, fun h =>
      absurd (hnot.symm.trans h) (by decide)⟩
  | @acquire k hnone =>
    have hbegin : ∀ c, k.begin ≠ .cancel c ∧ k.begin ≠ .cancelling c := by
      cases k <;> simp [Call.begin]
    refine hs.outside rfl rfl rfl (fun c => ?_) (fun c => ?_) (by simp [hnone])
      fun harrived hchanged => ⟨harrived, hchanged⟩
    · exact fun heq => (hbegin c).1 (Option.some.inj heq)
    · exact fun heq => (hbegin c).2 (Option.some.inj heq)
  | lockRegister hh | lockUnregister hh =>
    exact hs.outside rfl rfl rfl (by simp) (by simp) (by simp [hh]) fun harrived hchanged =>
      ⟨harrived, hchanged⟩
  | register hh => exact hs.register hh _
  | delete hh => exact hs.delete hh
  | @cancel c hh =>
    obtain ⟨hmap, -⟩ := hs.cancel c hh
    refine ⟨fun hne => absurd hmap hne, fun h => (by cases h), fun d hd => (by cases hd), fun _ _ =>
      ⟨hmap, rfl⟩, fun _ hno => ?_⟩
    exact absurd rfl (hno c)
  | cancelFailed hh =>
    exact hs.outside rfl rfl rfl (by simp [drain]) (by simp [drain]) (by simp [hh])
      fun harrived hchanged => ⟨harrived, hchanged⟩
  | @cancelled c hh harrived hchanged =>
    obtain ⟨hmap, hnot⟩ := hs.cancelling c hh
    refine ⟨fun hne => absurd hmap hne, fun h => absurd (hnot.symm.trans h) (by decide), fun d hd =>
      (by cases hd), fun d hd => (by cases hd), fun _ _ => ?_⟩
    exact ⟨rfl, harrived, hchanged⟩
  | @lockChanged change hfree hi =>
    refine ⟨hs.serving, hs.handle, hs.cancel, hs.cancelling, fun h hno => ?_⟩
    rw [(hs.idle h hno).2.1] at hi
    cases hi
  | start hchanged =>
    refine ⟨hs.serving, hs.handle, hs.cancel, hs.cancelling, fun h hno => ?_⟩
    rw [(hs.idle h hno).2.2] at hchanged
    cases hchanged
  | unlockChanged =>
    exact ⟨hs.serving, hs.handle, hs.cancel, hs.cancelling, fun h hno =>
      ⟨(hs.idle h hno).1, (hs.idle h hno).2.1, rfl⟩⟩

structure Sound (s : Handler κ ρ) : Prop where
  accounted : s.Accounted
  mapped : s.Mapped
  exclusive : s.Exclusive
  silent : s.Silent
  notified : s.Notified

omit [DecidableEq ρ] in
theorem Sound.initial : Sound ({} : Handler κ ρ) := by
  refine ⟨⟨.nil, .refl _, ?_, ?_⟩, ⟨.nil, ?_, ?_, ?_⟩, .of_none rfl, ?_, ⟨?_, ?_, ?_, ?_, ?_⟩⟩ <;>
    simp [unregistering, Handler.removed, Silent]

theorem Sound.step {s t : Handler κ ρ} {a : Action κ ρ} (hs : s.Sound)
    (h : Handler.step s a = some t) : t.Sound := by
  have hmoves := moves_of_step h
  exact ⟨hs.accounted.moves hmoves, hs.mapped.moves hs.accounted hmoves,
    hs.exclusive.moves hs.mapped hmoves, hs.silent.moves hs.mapped hs.exclusive hmoves,
    hs.notified.moves hmoves⟩

theorem Sound.run {s t : Handler κ ρ} {as : List (Action κ ρ)} (hs : s.Sound)
    (h : exec Handler.step s as = some t) : t.Sound :=
  invariant (fun _ _ _ hs h => hs.step h) hs h

theorem Moves.unregistered {s t : Handler κ ρ} {a : Action κ ρ} (h : s.Moves a t) :
    s.unregistered ⊆ t.unregistered := by
  cases h with
  | @register c ok =>
    rw [registerBody]
    split <;> exact fun _ hc => hc
  | @delete c =>
    rw [deleteBody]
    split <;> exact fun _ hc => hc
  | waited => exact List.subset_cons_self _ _
  | _ => exact fun _ hc => hc

/-- Once `Unregister` has returned, the callback is in no map and in no goroutine, now and ever. -/
theorem unregistered_callback_never_runs {as bs : List (Action κ ρ)} {s t : Handler κ ρ} {c : κ}
    (hs : exec Handler.step {} as = some s) (hc : c ∈ s.unregistered)
    (ht : exec Handler.step s bs = some t) :
    c ∉ t.callbacks ∧ (∀ change, (c, change) ∉ t.running) ∧ ∀ change, .start c change ∉ bs := by
  have hsound := Sound.initial.run hs
  have hgone : ∀ {u : Handler κ ρ} {bs}, exec Handler.step s bs = some u → c ∉ u.callbacks ∧
      ∀ change, (c, change) ∉ u.running := by
    intro u bs hu
    have hmem : c ∈ u.unregistered :=
      invariant (I := fun u => c ∈ u.unregistered) (fun _ _ _ hmem h =>
        (moves_of_step h).unregistered hmem) hc hu
    have hu := hsound.run hu
    refine ⟨hu.mapped.gone c (List.mem_append_right _ (List.mem_append_right _ hmem)),
      fun change hrun => ?_⟩
    have hsilent := hu.silent c hmem
    simp only [counts, List.any_eq_false, decide_eq_true_eq] at hsilent
    exact hsilent _ hrun rfl
  refine ⟨(hgone ht).1, (hgone ht).2, fun change hmem => ?_⟩
  -- the state right after a start would hold its goroutine
  obtain ⟨before, after, rfl⟩ := List.append_of_mem hmem
  rw [exec_append] at ht
  obtain ⟨u, hu, ht⟩ := Option.bind_eq_some_iff.mp ht
  obtain ⟨v, hv, -⟩ := Option.bind_eq_some_iff.mp ht
  have hrun : (c, change) ∈ v.running := by
    cases moves_of_step hv with
    | start => exact List.mem_cons_self
  have hnext : exec Handler.step s (before ++ [.start c change]) = some v := by
    simp [exec_append, hu, exec, hv]
  exact (hgone hnext).2 change hrun

def registersFirst : List (Action Nat Nat) :=
  [.call (.register 0), .acquire (.register 0), .lock, .register true]

def unregistersFirst (change : Change Nat) : List (Action Nat Nat) :=
  [.notify change, .call (.unregister 0), .acquire (.unregister 0), .lockChanged change,
  .start 0 change, .unlockChanged, .lock,
    .delete, .cancel true, .cancelled, .finish 0 change, .waited 0]

def registersSecond (change : Change Nat) : List (Action Nat Nat) :=
  [.call (.register 1), .acquire (.register 1), .lock, .register true, .notify change,
  .lockChanged change, .start 1 change]

theorem unregistered_callback_never_runs_first : ∃ s t : Handler Nat Nat,
    exec Handler.step {} (registersFirst ++ unregistersFirst ⟨.addInstance, 7⟩) = some s ∧
      exec Handler.step s (registersSecond ⟨.deleteInstance, 7⟩) = some t ∧
        t.running = [(1, ⟨.deleteInstance, 7⟩)] ∧ 0 ∉ t.callbacks := by
  refine ⟨_, _, rfl, rfl, rfl, ?_⟩
  have hs : exec Handler.step {} (registersFirst ++ unregistersFirst ⟨.addInstance, 7⟩) = some _ :=
    rfl
  exact (unregistered_callback_never_runs hs (by decide)
    (rfl : exec Handler.step _ (registersSecond ⟨.deleteInstance, 7⟩) = _)).1

def awaiting (s : Handler κ ρ) (c : κ) : List (Change ρ) :=
  s.arrived ++ match s.changed with
    | some (change, todo) => if c ∈ todo then [change] else []
    | none => []

end

end Handler

section
variable [DecidableEq κ]

def Action.starts (c : κ) : Action κ ρ → List (Change ρ)
  | .start d change => if d = c then [change] else []
  | _ => []

end

def Action.notifies : Action κ ρ → List (Change ρ)
  | .notify change => [change]
  | _ => []

namespace Handler

variable [DecidableEq κ] [DecidableEq ρ]

theorem Moves.awaiting {s t : Handler κ ρ} {a : Action κ ρ} (h : s.Moves a t) (he : s.Exclusive)
    {c : κ} (hc : c ∈ s.callbacks) :
    (a.starts c ++ t.awaiting c).Perm (s.awaiting c ++ a.notifies) := by
  cases h with
  | @notify change =>
    simp only [Action.starts, Action.notifies, Handler.awaiting, List.nil_append, List.cons_append]
    exact (List.perm_append_singleton change _).symm
  | @lockChanged change hfree hi =>
    simp only [Action.starts, Action.notifies, Handler.awaiting, (free_iff.mp hfree).1, if_pos hc,
      List.nil_append, List.append_nil]
    exact (List.perm_append_singleton change _).trans (List.perm_cons_erase hi).symm
  | @start d change todo hchanged hd =>
    have hnodup := (he.todo change todo hchanged).1
    simp only [Action.starts, Action.notifies, Handler.awaiting, hchanged, List.append_nil]
    by_cases hdc : d = c
    · subst hdc
      rw [if_pos rfl, if_pos hd, if_neg (fun hmem => (hnodup.mem_erase_iff.mp hmem).1 rfl),
        List.append_nil]
      exact (List.perm_append_singleton change _).symm
    · rw [if_neg hdc, List.nil_append]
      exact .of_eq (by simp [List.mem_erase_of_ne (Ne.symm hdc)])
  | @unlockChanged change hchanged =>
    simp [Action.starts, Action.notifies, Handler.awaiting, hchanged]
  | @register d ok =>
    rw [registerBody]
    split <;> exact .of_eq (List.append_nil _).symm
  | @delete d =>
    rw [deleteBody]
    split <;> exact .of_eq (List.append_nil _).symm
  | _ => exact .of_eq (List.append_nil _).symm

theorem Moves.registered {s t : Handler κ ρ} {a : Action κ ρ} (h : s.Moves a t) :
    s.registered ⊆ t.registered := by
  cases h with
  | @register c ok =>
    rw [registerBody]
    split
    · exact List.subset_cons_self c _
    · exact fun _ hc => hc
  | @delete c =>
    rw [deleteBody]
    split <;> exact fun _ hc => hc
  | _ => exact fun _ hc => hc

/-- A callback that is in the map at the end was in it ever since it was registered. -/
theorem mem_callbacks_of_later {s t : Handler κ ρ} {as : List (Action κ ρ)} (hs : s.Sound)
    (h : exec Handler.step s as = some t) {c : κ} (hreg : c ∈ s.registered) (hc : c ∈ t.callbacks) :
    c ∈ s.callbacks := by
  refine (hs.mapped.kept c hreg).resolve_right fun hrem => ?_
  have hrem : c ∈ t.removed :=
    invariant (I := fun u => c ∈ u.removed) (fun _ _ _ hmem h =>
      (moves_of_step h).removed hmem) hrem h
  exact (hs.run h).mapped.gone c hrem hc

/-- Every change that Windows notifies while a callback is registered starts it once: what it was
started with and what it is still to be started with are the changes. -/
theorem every_change_starts_once {s t : Handler κ ρ} {hist as : List (Action κ ρ)}
    (hs : exec Handler.step {} hist = some s) (h : exec Handler.step s as = some t) {c : κ}
    (hreg : c ∈ s.registered) (hc : c ∈ t.callbacks) :
    (as.flatMap (Action.starts c) ++ t.awaiting c).Perm
      (s.awaiting c ++ as.flatMap Action.notifies) := by
  have hsound := Sound.initial.run hs
  clear hs
  induction as generalizing s with
  | nil =>
    cases h
    exact .of_eq (List.append_nil _).symm
  | cons a as ih =>
    have hmem := mem_callbacks_of_later hsound h hreg hc
    obtain ⟨u, hu, h⟩ := Option.bind_eq_some_iff.mp h
    have hmoves := moves_of_step hu
    have hrest := ih h (hmoves.registered hreg) (hsound.step hu)
    have hfirst := hmoves.awaiting hsound.exclusive hmem
    rw [List.flatMap_cons, List.flatMap_cons, List.append_assoc, ← List.append_assoc (s.awaiting c)]
    refine (hrest.append_left _).trans ?_
    rw [← List.append_assoc]
    exact hfirst.append_right _

theorem every_change_starts_once_first :
    ∃ s t : Handler Nat Nat, exec Handler.step {} registersFirst = some s ∧
    exec Handler.step s ((unregistersFirst ⟨.addInstance, 7⟩).take 5) = some t ∧
      (((unregistersFirst ⟨.addInstance, 7⟩).take 5).flatMap (Action.starts 0) ++ t.awaiting 0).Perm
        (s.awaiting 0 ++ ((unregistersFirst ⟨.addInstance, 7⟩).take 5).flatMap
          Action.notifies) := by
  refine ⟨_, _, rfl, rfl, ?_⟩
  have hs : exec Handler.step {} registersFirst = some _ := rfl
  exact every_change_starts_once hs (by rfl) (by decide) (by decide)

end Handler

def Action.Internal : Action κ ρ → Prop
  | .call _ | .notify _ => False
  | _ => True

/-- The moves that a call with the outer mutex can still need, with those of its wait. -/
def Holder.weight : Holder κ → Nat
  | .register _ => 4
  | .registering _ => 3
  | .unregister _ => 5
  | .unregistering _ => 4
  | .cancel _ => 3
  | .cancelling _ => 2

namespace Handler

def capacity (s : Handler κ ρ) : Nat :=
  s.callbacks.length + (s.waiting.flatMap Call.registers).length + s.holder.elim 0 fun k =>
    k.registers.length

def changedWeight (s : Handler κ ρ) : Nat := s.changed.elim 0 fun r => 1 + 2 * r.2.length

def effort (s : Handler κ ρ) : Nat :=
  6 * s.waiting.length + s.holder.elim 0 Holder.weight + s.draining.length + s.running.length +
    s.arrived.length * (2 + 2 * s.capacity) + s.changedWeight

structure AtRest (s : Handler κ ρ) : Prop where
  waiting : s.waiting = []
  holder : s.holder = none
  arrived : s.arrived = []
  changed : s.changed = none
  running : s.running = []
  draining : s.draining = []

variable [DecidableEq κ] [DecidableEq ρ]

theorem Moves.capacity {s t : Handler κ ρ} {a : Action κ ρ} (h : s.Moves a t) (ha : a.Internal) :
    t.capacity ≤ s.capacity := by
  cases h with
  | call | notify => exact ha.elim
  | @acquire k hnone hk =>
    have hperm := (perm_flatMap_erase Call.registers hk).length_eq
    have hbegin : k.begin.registers = k.registers := by cases k <;> rfl
    rw [List.length_append] at hperm
    simp only [Handler.capacity, hnone, hbegin, Option.elim_some, Option.elim_none]
    omega
  | @register c ok hh =>
    rw [registerBody]
    split
    · simp only [Handler.capacity, hh, Option.elim_some, Option.elim_none, Holder.registers,
        List.length_cons]
      omega
    · simp [Handler.capacity, hh]
  | @delete c hh =>
    have hle : (s.callbacks.erase c).length ≤ s.callbacks.length := List.length_erase_le
    rw [deleteBody]
    split <;> simpa [Handler.capacity, hh, drain] using hle
  | lockRegister hh | lockUnregister hh | cancel hh => simp [Handler.capacity, hh]
  | cancelFailed hh | cancelled hh => simp [Handler.capacity, hh, drain]
  | lockChanged | start | unlockChanged | finish | waited => exact Nat.le_refl _

theorem Moves.effort {s t : Handler κ ρ} {a : Action κ ρ} (h : s.Moves a t) (ha : a.Internal) :
    t.effort < s.effort := by
  have hcap := h.capacity ha
  have hmul : s.arrived.length * (2 + 2 * t.capacity) ≤ s.arrived.length * (2 + 2 * s.capacity) :=
    Nat.mul_le_mul_left _ (by omega)
  cases h with
  | call | notify => exact ha.elim
  | @acquire k hnone hk =>
    have hlen := (List.perm_cons_erase hk).length_eq
    have hbegin : k.begin.weight ≤ 5 := by cases k <;> simp [Call.begin, Holder.weight]
    simp only [Handler.effort, changedWeight, hnone, Option.elim_some, Option.elim_none,
      List.length_cons] at *
    omega
  | lockRegister hh | lockUnregister hh | cancel hh =>
    simp only [Handler.effort, changedWeight, hh, Option.elim_some, Holder.weight] at *
    omega
  | @register c ok hh =>
    revert hmul
    rw [registerBody]
    split
    all_goals
      intro hmul
      simp only [Handler.effort, changedWeight, hh, Option.elim_some, Option.elim_none,
        Holder.weight] at *
      omega
  | @delete c hh =>
    revert hmul
    rw [deleteBody]
    split
    all_goals
      intro hmul
      simp only [Handler.effort, changedWeight, drain, hh, Option.elim_some, Option.elim_none,
        Holder.weight, List.length_cons] at *
      omega
  | cancelFailed hh | cancelled hh =>
    simp only [Handler.effort, changedWeight, drain, hh, Option.elim_some, Option.elim_none,
      Holder.weight, List.length_cons] at *
    omega
  | @lockChanged change hfree hi =>
    -- the call of `…Changed` pays for its goroutines with its share of the capacity
    have hlen := (List.perm_cons_erase hi).length_eq
    have hle : s.callbacks.length ≤ s.capacity := by
      rw [Handler.capacity]
      omega
    have hshare : s.arrived.length * (2 + 2 * s.capacity) =
        (s.arrived.erase change).length * (2 + 2 * s.capacity) + (2 + 2 * s.capacity) := by
      rw [hlen, List.length_cons, Nat.succ_mul]
    have hsame : Handler.capacity { s with
      arrived := s.arrived.erase change, changed := some (change, s.callbacks) } = s.capacity := rfl
    simp only [Handler.effort, changedWeight, hsame, (free_iff.mp hfree).1, Option.elim_some,
      Option.elim_none]
    omega
  | @start c change todo hchanged hc =>
    have hlen := (List.perm_cons_erase hc).length_eq
    simp only [Handler.effort, changedWeight, hchanged, Option.elim_some, List.length_cons] at *
    omega
  | unlockChanged hchanged =>
    simp only [Handler.effort, changedWeight, hchanged, Option.elim_some, Option.elim_none] at *
    omega
  | finish hc | waited hc =>
    have hlen := (List.perm_cons_erase hc).length_eq
    simp only [Handler.effort, changedWeight, List.length_cons] at *
    omega

/-- Where no move can be made, nothing is left to be done: no two parties wait for each other. -/
theorem atRest_of_stuck {s : Handler κ ρ} (h : ∀ a, a.Internal → step s a = none) : s.AtRest := by
  have hchanged : s.changed = none := by
    cases hch : s.changed with
    | none => rfl
    | some r =>
      obtain ⟨change, todo⟩ := r
      cases todo with
      | nil => exact absurd (h .unlockChanged trivial) (by simp [step, hch])
      | cons c todo => exact absurd (h (.start c change) trivial) (by simp [step, hch])
  have hrunning : s.running = [] := by
    refine List.eq_nil_iff_forall_not_mem.mpr fun r hr => ?_
    exact absurd (h (.finish r.1 r.2) trivial) (by simp [step, hr])
  have hdraining : s.draining = [] := by
    refine List.eq_nil_iff_forall_not_mem.mpr fun c hc => ?_
    exact absurd (h (.waited c) trivial) (by simp [step, counts, hc, hrunning])
  have harrived : (∀ k, s.holder = some k → k.inner = false) → s.arrived = [] := by
    intro hout
    refine List.eq_nil_iff_forall_not_mem.mpr fun change hc => ?_
    exact absurd (h (.lockChanged change) trivial)
      (by simp [step, free_iff.mpr ⟨hchanged, hout⟩, hc])
  have hholder : s.holder = none := by
    cases hh : s.holder with
    | none => rfl
    | some k =>
      cases k with
      | register c | unregister c =>
        have hfree : s.free = true := free_iff.mpr ⟨hchanged, by simp [hh, Holder.inner]⟩
        exact absurd (h .lock trivial) (by simp [step, hh, hfree])
      | registering c => exact absurd (h (.register true) trivial) (by simp [step, hh])
      | unregistering c => exact absurd (h .delete trivial) (by simp [step, hh])
      | cancel c => exact absurd (h (.cancel true) trivial) (by simp [step, hh])
      | cancelling c =>
        have hnil := harrived (by simp [hh, Holder.inner])
        exact absurd (h .cancelled trivial) (by simp [step, hh, hnil, hchanged])
  have hwaiting : s.waiting = [] := by
    refine List.eq_nil_iff_forall_not_mem.mpr fun k hk => ?_
    exact absurd (h (.acquire k) trivial) (by simp [step, hholder, hk])
  exact ⟨hwaiting, hholder, harrived (by simp [hholder]), hchanged, hrunning, hdraining⟩

theorem AtRest.stuck {s : Handler κ ρ} (h : s.AtRest) {a : Action κ ρ} (ha : a.Internal) :
    step s a = none := by
  cases a with
  | call | notify => exact ha.elim
  | _ => simp [step, h.waiting, h.holder, h.arrived, h.changed, h.running, h.draining]

theorem Moves.leaving {s t : Handler κ ρ} {a : Action κ ρ} (h : s.Moves a t) {c : κ}
    (hc : c ∈ s.unregistering ∨ c ∈ s.removed) :
    c ∈ t.unregistering ∨ c ∈ t.removed := by
  have hremoved := h.removed
  refine hc.elim (fun hc => ?_) fun hc => .inr (hremoved hc)
  cases h with
  | @call k =>
    left
    simp only [unregistering, List.flatMap_cons, List.append_assoc]
    exact List.mem_append_right _ hc
  | @acquire k hnone hk =>
    have hbegin : k.begin.unregisters = k.unregisters := by cases k <;> rfl
    left
    simp only [unregistering, hnone, Option.toList_none, List.flatMap_nil, List.append_nil] at hc
    simp only [unregistering, Option.toList_some, List.flatMap_singleton, hbegin]
    exact (perm_flatMap_erase Call.unregisters hk).mem_iff.mpr hc
  | @delete d hh =>
    simp only [unregistering, hh, Option.toList_some, List.flatMap_singleton, Holder.unregisters,
      List.mem_append, List.mem_singleton] at hc
    rcases hc with hc | rfl
    · left
      rw [deleteBody]
      split <;> exact List.mem_append_left _ hc
    · right
      rw [removed_deleteBody hh]
      exact List.mem_cons_self
  | @register d ok hh =>
    simp only [unregistering, hh, Option.toList_some, List.flatMap_singleton, Holder.unregisters,
      List.append_nil] at hc
    left
    rw [registerBody]
    split <;> exact List.mem_append_left _ hc
  | lockRegister hh | lockUnregister hh | cancel hh | cancelFailed hh | cancelled hh =>
    left
    simpa [unregistering, drain, hh] using hc
  | notify | lockChanged | start | unlockChanged | finish | waited => exact .inl hc

theorem Moves.made {s t : Handler κ ρ} {a : Action κ ρ} (h : s.Moves a t) : s.made ⊆ t.made := by
  cases h with
  | @call k =>
    cases k with
    | register c => exact List.subset_cons_self c _
    | unregister c => exact fun _ hc => hc
  | @register c ok =>
    rw [registerBody]
    split <;> exact fun _ hc => hc
  | @delete c =>
    rw [deleteBody]
    split <;> exact fun _ hc => hc
  | _ => exact fun _ hc => hc

/-- Without new calls and notifications the handler comes to rest, whatever the schedule, and then
every call has returned: there is no deadlock between the two mutexes, the cancellation and the
wait. -/
theorem every_call_returns {s t : Handler κ ρ} {hist as : List (Action κ ρ)}
    (hs : exec Handler.step {} hist = some s) (hinternal : ∀ a ∈ as, a.Internal)
    (h : exec Handler.step s as = some t) :
    as.length ≤ s.effort ∧ ((∀ a, a.Internal → Handler.step t a = none) →
      t.AtRest ∧ (∀ c ∈ s.registering, c ∈ t.registered ∨ c ∈ t.failed) ∧
        ∀ c, c ∈ s.unregistering ∨ c ∈ s.removed → c ∈ t.unregistered) := by
  have hsound := Sound.initial.run hs
  have hlength :=
    exec_length_le (μ := effort) (fun _ _ _ ha h => (moves_of_step h).effort ha) hinternal h
  refine ⟨by omega, fun hstuck => ?_⟩
  have hrest := atRest_of_stuck hstuck
  refine ⟨hrest, fun c hc => ?_, fun c hc => ?_⟩
  · have hmade : c ∈ s.made := hsound.accounted.accounted.mem_iff.mp (List.mem_append_left _ hc)
    have hmade : c ∈ t.made :=
      invariant (I := fun u => c ∈ u.made) (fun _ _ _ hmem h => (moves_of_step h).made hmem) hmade h
    have hmem := (hsound.run h).accounted.accounted.mem_iff.mpr hmade
    simpa [registering, hrest.waiting, hrest.holder] using hmem
  · have hmem : c ∈ t.unregistering ∨ c ∈ t.removed :=
      invariant (I := fun u => c ∈ u.unregistering ∨ c ∈ u.removed)
        (fun _ _ _ hmem h => (moves_of_step h).leaving hmem) hc h
    simpa [unregistering, Handler.removed, hrest.waiting, hrest.holder, hrest.draining] using hmem

def pastDeletion : List (Action Nat Nat) :=
  registersFirst ++ (unregistersFirst ⟨.addInstance, 7⟩).take 8 ++ [.call (.register 1)]

def bothReturn : List (Action Nat Nat) :=
  (unregistersFirst ⟨.addInstance, 7⟩).drop 8 ++ [.acquire (.register 1), .lock, .register true]

theorem every_call_returns_first : ∃ s t : Handler Nat Nat,
    exec Handler.step {} pastDeletion = some s ∧ exec Handler.step s bothReturn = some t ∧
      t.AtRest ∧ 0 ∈ t.unregistered ∧ (1 ∈ t.registered ∨ 1 ∈ t.failed) := by
  have hfacts : ((exec Handler.step {} pastDeletion).bind fun s =>
      (exec Handler.step s bothReturn).map fun t => (s.removed, s.registering, t.waiting.isEmpty &&
        t.holder.isNone && t.arrived.isEmpty && t.changed.isNone && t.running.isEmpty &&
        t.draining.isEmpty)) = some ([0], [1], true) := by
    decide +kernel
  obtain ⟨s, hs, hfacts⟩ := Option.bind_eq_some_iff.mp hfacts
  obtain ⟨t, ht, hfacts⟩ := Option.map_eq_some_iff.mp hfacts
  simp only [Prod.mk.injEq, Bool.and_eq_true, List.isEmpty_iff, Option.isNone_iff_eq_none] at hfacts
  obtain ⟨hremoved, hregistering, ⟨⟨⟨⟨hwaiting, hholder⟩, harrived⟩, hchanged⟩, hrunning⟩,
      hdraining⟩ :=
    hfacts
  have hinternal : ∀ a ∈ bothReturn, a.Internal := by
    simp [bothReturn, unregistersFirst, Action.Internal]
  have hrest : t.AtRest := ⟨hwaiting, hholder, harrived, hchanged, hrunning, hdraining⟩
  obtain ⟨-, hregister, hunregister⟩ := (every_call_returns hs hinternal ht).2 fun _ => hrest.stuck
  refine ⟨s, t, hs, ht, hrest, hunregister 0 ?_, hregister 1 ?_⟩
  · simp [hremoved]
  · simp [hregistering]

end Handler

end WireGuardWindows.Winipcfg
