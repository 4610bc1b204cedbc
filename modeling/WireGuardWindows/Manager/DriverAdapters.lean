import WireGuardWindows.Systems.Runs
import WireGuardWindows.Systems.Threads

/-!
# The adapters of the driver

`manager/ipc_driver.go` and its users: requests for the running configuration read it from a
handle of the adapter that is kept open under the name of the tunnel, and the trackers of the
services close it. The map of handles has a mutex for readers and writers, and every handle has a
mutex of its own, which is taken while the map is locked and kept beyond that.

As in Go, a writer that waits for the readers keeps new readers out. A look into the map and
the unlocking after it is one move, since nobody can change the map in between.
-/

namespace WireGuardWindows.Manager.DriverAdapters
open Systems

inductive Purpose
  | find | release
  deriving DecidableEq

/-- Where a thread of the manager is; `h` is a handle. -/
inductive Pc (ν : Type)
  | idle
  /-- In `findDriverAdapter`, at `RLock`. -/
  | rlock (name : ν)
  | reading (name : ν)
  /-- The map is locked for reading, and the mutex of the handle is not. -/
  | foundReading (name : ν) (h : Nat)
  /-- At `Lock` of the map. -/
  | lock (purpose : Purpose) (name : ν)
  /-- In `Lock`: new readers are kept out, and the old ones are waited for. -/
  | pending (purpose : Purpose) (name : ν)
  | writing (purpose : Purpose) (name : ν)
  /-- The map is locked for writing, and the mutex of the handle is not. -/
  | found (purpose : Purpose) (name : ν) (h : Nat)
  /-- In `OpenAdapter`. -/
  | opening (name : ν)
  /-- In `Configuration`, with the mutex of the handle. -/
  | configuration (name : ν) (h : Nat)
  /-- In `Close`, with both. -/
  | closing (name : ν) (h : Nat)
  deriving DecidableEq

namespace Pc

variable {ν : Type}

def reads : Pc ν → Bool
  | .reading _ | .foundReading _ _ => true
  | _ => false

def writes : Pc ν → Bool
  | .writing _ _ | .found _ _ _ | .opening _ | .closing _ _ => true
  | _ => false

def claims : Pc ν → Bool
  | .pending _ _ => true
  | p => p.writes

def holds (h : Nat) : Pc ν → Bool
  | .configuration _ h' | .closing _ h' => h' = h
  | _ => false

end Pc

structure State (τ ν : Type) where
  pc : τ → Pc ν := fun _ => .idle
  driverAdapters : ν → Option Nat := fun _ => none
  /-- The handles are numbered in the order in which they were opened. -/
  opened : Nat := 0
  closed : List Nat := []

inductive Request (ν : Type)
  /-- Of a tunnel without WebSocket peers. -/
  | runtimeConfig (name : ν)
  /-- By a tracker. -/
  | releaseDriverAdapter (name : ν)

inductive Action (τ ν : Type)
  | call (t : τ) (request : Request ν)
  /-- The thread goes on; `ok` is the answer of the driver, if it is asked. -/
  | run (t : τ) (ok : Bool)

def Request.begin {ν : Type} : Request ν → Pc ν
  | .runtimeConfig name => .rlock name
  | .releaseDriverAdapter name => .lock .release name

namespace State

variable {τ ν : Type} [DecidableEq τ]

def goto (s : State τ ν) (t : τ) (p : Pc ν) : State τ ν := { s with pc := Function.update s.pc t p }

variable [Fintype τ] [DecidableEq ν]

def free (s : State τ ν) (t : τ) (q : Pc ν → Bool) : Bool :=
  decide (∀ u, u ≠ t → q (s.pc u) = false)

omit [DecidableEq ν] in
theorem free_iff {s : State τ ν} {t : τ} {q : Pc ν → Bool} : s.free t q = true ↔ OnlyAt q s.pc t :=
  decide_eq_true_iff

def run (s : State τ ν) (t : τ) (ok : Bool) : Option (State τ ν) :=
  match s.pc t with
  | .idle => none
  | .rlock name => if s.free t Pc.claims then some (s.goto t (.reading name)) else none
  | .reading name => match s.driverAdapters name with
    | some h => some (s.goto t (.foundReading name h))
    | none => some (s.goto t (.lock .find name))
  | .foundReading name h =>
    if s.free t (Pc.holds h) then some (s.goto t (.configuration name h)) else none
  | .lock purpose name =>
    if s.free t Pc.claims then some (s.goto t (.pending purpose name)) else none
  | .pending purpose name =>
    if s.free t Pc.reads then some (s.goto t (.writing purpose name)) else none
  | .writing purpose name => match s.driverAdapters name, purpose with
    | some h, _ => some (s.goto t (.found purpose name h))
    | none, .find => some (s.goto t (.opening name))
    | none, .release => some (s.goto t .idle)
  | .found .find name h =>
    if s.free t (Pc.holds h) then some (s.goto t (.configuration name h)) else none
  | .found .release name h =>
    if s.free t (Pc.holds h) then
      some { s.goto t (.closing name h) with
        driverAdapters := Function.update s.driverAdapters name none }
    else none
  | .opening name =>
    if ok then
      some { s.goto t (.configuration name s.opened) with
        driverAdapters := Function.update s.driverAdapters name (some s.opened)
        opened := s.opened + 1 }
    else some (s.goto t .idle)
  | .configuration name _ => some (s.goto t (if ok then .idle else .lock .release name))
  | .closing _ h => some { s.goto t .idle with closed := h :: s.closed }

def step (s : State τ ν) : Action τ ν → Option (State τ ν)
  | .call t request => if s.pc t = .idle then some (s.goto t request.begin) else none
  | .run t ok => s.run t ok

inductive Goes (s : State τ ν) (t : τ) : Bool → State τ ν → Prop
  | rlock {ok name} (hpc : s.pc t = .rlock name) (hfree : OnlyAt Pc.claims s.pc t) :
  Goes s t ok (s.goto t (.reading name))
  | hit {ok name h} (hpc : s.pc t = .reading name) (hmap : s.driverAdapters name = some h) :
    Goes s t ok (s.goto t (.foundReading name h))
  | miss {ok name} (hpc : s.pc t = .reading name) (hmap : s.driverAdapters name = none) : Goes s t
    ok (s.goto t (.lock .find name))
  | useRead {ok name h} (hpc : s.pc t = .foundReading name h) (hfree : OnlyAt (Pc.holds h) s.pc t) :
    Goes s t ok (s.goto t (.configuration name h))
  | lock {ok purpose name} (hpc : s.pc t = .lock purpose name) (hfree : OnlyAt Pc.claims s.pc t) :
    Goes s t ok (s.goto t (.pending purpose name))
  | enter {ok purpose name} (hpc : s.pc t = .pending purpose name)
    (hfree : OnlyAt Pc.reads s.pc t) :
    Goes s t ok (s.goto t (.writing purpose name))
  | found {ok purpose name h} (hpc : s.pc t = .writing purpose name)
      (hmap : s.driverAdapters name = some h) :
    Goes s t ok (s.goto t (.found purpose name h))
  | missing {ok name} (hpc : s.pc t = .writing .find name) (hmap : s.driverAdapters name = none) :
    Goes s t ok (s.goto t (.opening name))
  | nothing {ok name} (hpc : s.pc t = .writing .release name)
      (hmap : s.driverAdapters name = none) : Goes s t ok (s.goto t .idle)
  | useWrite {ok name h} (hpc : s.pc t = .found .find name h) (hfree : OnlyAt (Pc.holds h) s.pc t) :
    Goes s t ok (s.goto t (.configuration name h))
  | delete {ok name h} (hpc : s.pc t = .found .release name h)
    (hfree : OnlyAt (Pc.holds h) s.pc t) :
    Goes s t ok { s.goto t (.closing name h) with
      driverAdapters := Function.update s.driverAdapters name none }
  | opened {name} (hpc : s.pc t = .opening name) :
    Goes s t true { s.goto t (.configuration name s.opened) with
      driverAdapters := Function.update s.driverAdapters name (some s.opened)
      opened := s.opened + 1 }
  | notOpened {name} (hpc : s.pc t = .opening name) : Goes s t false (s.goto t .idle)
  | read {name h} (hpc : s.pc t = .configuration name h) : Goes s t true (s.goto t .idle)
  | notRead {name h} (hpc : s.pc t = .configuration name h) : Goes s t false
    (s.goto t (.lock .release name))
  | close {ok name h} (hpc : s.pc t = .closing name h) : Goes s t ok { s.goto t .idle with
    closed := h :: s.closed }

theorem goes_of_run {s s' : State τ ν} {t : τ} {ok : Bool} (h : s.run t ok = some s') :
    s.Goes t ok s' := by
  rw [run] at h
  cases hpc : s.pc t with
  | idle =>
    rw [hpc] at h
    cases h
  | rlock name =>
    rw [hpc] at h
    obtain ⟨hfree, ⟨⟩⟩ := Option.ite_none_right_eq_some.mp h
    exact .rlock hpc (free_iff.mp hfree)
  | reading name =>
    cases hmap : s.driverAdapters name with
    | none =>
      simp only [hpc, hmap] at h
      cases h
      exact .miss hpc hmap
    | some handle =>
      simp only [hpc, hmap] at h
      cases h
      exact .hit hpc hmap
  | foundReading name handle =>
    rw [hpc] at h
    obtain ⟨hfree, ⟨⟩⟩ := Option.ite_none_right_eq_some.mp h
    exact .useRead hpc (free_iff.mp hfree)
  | lock purpose name =>
    rw [hpc] at h
    obtain ⟨hfree, ⟨⟩⟩ := Option.ite_none_right_eq_some.mp h
    exact .lock hpc (free_iff.mp hfree)
  | pending purpose name =>
    rw [hpc] at h
    obtain ⟨hfree, ⟨⟩⟩ := Option.ite_none_right_eq_some.mp h
    exact .enter hpc (free_iff.mp hfree)
  | writing purpose name =>
    cases hmap : s.driverAdapters name with
    | some handle =>
      simp only [hpc, hmap] at h
      cases h
      exact .found hpc hmap
    | none =>
      cases purpose with
      | find =>
        simp only [hpc, hmap] at h
        cases h
        exact .missing hpc hmap
      | release =>
        simp only [hpc, hmap] at h
        cases h
        exact .nothing hpc hmap
  | found purpose name handle =>
    cases purpose with
    | find =>
      rw [hpc] at h
      obtain ⟨hfree, ⟨⟩⟩ := Option.ite_none_right_eq_some.mp h
      exact .useWrite hpc (free_iff.mp hfree)
    | release =>
      rw [hpc] at h
      obtain ⟨hfree, ⟨⟩⟩ := Option.ite_none_right_eq_some.mp h
      exact .delete hpc (free_iff.mp hfree)
  | opening name =>
    cases ok <;> rw [hpc] at h <;> cases h
    · exact .notOpened hpc
    · exact .opened hpc
  | configuration name handle =>
    cases ok <;> rw [hpc] at h <;> cases h
    · exact .notRead hpc
    · exact .read hpc
  | closing name handle =>
    rw [hpc] at h
    cases h
    exact .close hpc

end State

theorem Pc.claims_of_writes {ν : Type} {p : Pc ν} (h : p.writes = true) : p.claims = true := by
  cases p <;> first | exact h | rfl

structure Excluded {τ ν : Type} (pc : τ → Pc ν) : Prop where
  claims : Apart Pc.claims Pc.claims pc
  readers : Apart Pc.writes Pc.reads pc
  mutex : ∀ h, Apart (Pc.holds h) (Pc.holds h) pc

section
variable {τ ν : Type} [DecidableEq τ] {pc : τ → Pc ν} {t : τ} {p : Pc ν}

theorem Excluded.goto (hs : Excluded pc)
    (hclaims : p.claims = true → (pc t).claims = true ∨ OnlyAt Pc.claims pc t)
    (hwrites : p.writes = true → (pc t).writes = true ∨ OnlyAt Pc.reads pc t)
    (hreads : p.reads = true → (pc t).reads = true ∨ OnlyAt Pc.claims pc t)
    (hholds : ∀ h, p.holds h = true → (pc t).holds h = true ∨ OnlyAt (Pc.holds h) pc t) :
    Excluded (Function.update pc t p) :=
  ⟨hs.claims.update hclaims hclaims,
    hs.readers.update hwrites fun hp => (hreads hp).imp_right fun hfree => hfree.mono fun _ =>
      Pc.claims_of_writes,
    fun h => (hs.mutex h).update (hholds h) (hholds h)⟩

theorem Excluded.leave (hs : Excluded pc) (hclaims : p.claims = false) (hreads : p.reads = false)
    (hholds : ∀ h, p.holds h = false) :
    Excluded (Function.update pc t p) := by
  refine hs.goto (fun h => ?_) (fun h => ?_) (fun h => ?_) (fun handle h => ?_)
  · rw [hclaims] at h
    cases h
  · rw [Pc.claims_of_writes h] at hclaims
    cases hclaims
  · rw [hreads] at h
    cases h
  · rw [hholds] at h
    cases h

theorem Excluded.write (hs : Excluded pc) (hwrites : (pc t).writes = true)
    (hreads : p.reads = false) (hholds : ∀ h, p.holds h = false) :
    Excluded (Function.update pc t p) := by
  refine hs.goto (fun _ => .inl (Pc.claims_of_writes hwrites)) (fun _ => .inl hwrites) (fun h => ?_)
    (fun handle h => ?_)
  · rw [hreads] at h
    cases h
  · rw [hholds] at h
    cases h

theorem Excluded.use (hs : Excluded pc) {h : Nat} (hfree : OnlyAt (Pc.holds h) pc t) (name : ν) :
    Excluded (Function.update pc t (.configuration name h)) := by
  refine hs.goto (fun hclaims => ?_) (fun hwrites => ?_) (fun hreads => ?_)
    (fun handle hholds => ?_)
  · cases hclaims
  · cases hwrites
  · cases hreads
  · obtain rfl := of_decide_eq_true hholds
    exact .inr hfree

end

namespace State

variable {τ ν : Type}

/-- What a thread knows of the map where it stands. -/
def Agrees (s : State τ ν) : Pc ν → Prop
  | .foundReading name h | .found _ name h | .configuration name h => s.driverAdapters name = some h
  | .opening name => s.driverAdapters name = none
  | .closing _ h => h < s.opened ∧ h ∉ s.closed ∧ ∀ name, s.driverAdapters name ≠ some h
  | _ => True

structure Sound (s : State τ ν) : Prop where
  excluded : Excluded s.pc
  agrees : ∀ t, s.Agrees (s.pc t)
  live : ∀ name h, s.driverAdapters name = some h → h < s.opened ∧ h ∉ s.closed
  injective : ∀ name name' h, s.driverAdapters name = some h → s.driverAdapters name' =
    some h → name = name'
  closed_lt : ∀ h ∈ s.closed, h < s.opened
  nodup : s.closed.Nodup
  kept : ∀ h < s.opened, h ∉ s.closed → (∃ name, s.driverAdapters name = some h) ∨
    ∃ t name, s.pc t = .closing name h

theorem Sound.initial : Sound ({} : State τ ν) := by
  refine ⟨⟨?_, ?_, fun h => ?_⟩, fun t => trivial, ?_, ?_, ?_, .nil, ?_⟩
  · exact fun t ht => by cases ht
  · exact fun t ht => by cases ht
  · exact fun t ht => by cases ht
  · exact fun name h hmap => by cases hmap
  · exact fun name name' h hmap => by cases hmap
  · exact fun h hmem => by cases hmem
  · exact fun h hlt => absurd hlt (Nat.not_lt_zero h)

theorem Sound.lt_opened {s : State τ ν} (hs : s.Sound) {t : τ} {h : Nat}
    (hholds : (s.pc t).holds h = true) : h < s.opened := by
  have hagrees := hs.agrees t
  cases hpc : s.pc t with
  | configuration name h' =>
    rw [hpc] at hholds hagrees
    obtain rfl := of_decide_eq_true hholds
    exact (hs.live name h' hagrees).1
  | closing name h' =>
    rw [hpc] at hholds hagrees
    obtain rfl := of_decide_eq_true hholds
    exact hagrees.1
  | _ =>
    rw [hpc] at hholds
    cases hholds

theorem Sound.others {s : State τ ν} (hs : s.Sound) {t : τ} (hwrites : (s.pc t).writes = true)
    {u : τ} (hu : u ≠ t) :
    (∃ name h, s.pc u = .configuration name h) ∨ ∀ s' : State τ ν, s'.Agrees (s.pc u) := by
  have hreads := hs.excluded.readers t hwrites u hu
  have hclaims := hs.excluded.claims t (Pc.claims_of_writes hwrites) u hu
  cases hpc : s.pc u with
  | configuration name h => exact .inl ⟨name, h, rfl⟩
  | idle | rlock | lock | pending => exact .inr fun _ => trivial
  | reading | foundReading =>
    rw [hpc] at hreads
    cases hreads
  | writing | found | opening | closing =>
    rw [hpc] at hclaims
    cases hclaims

variable [DecidableEq τ]

theorem Sound.goto {s : State τ ν} (hs : s.Sound) {t : τ} {p : Pc ν}
    (hexcluded : Excluded (Function.update s.pc t p)) (hagrees : s.Agrees p)
    (hno : ∀ name h, s.pc t ≠ .closing name h) : (s.goto t p).Sound := by
  refine ⟨hexcluded, forall_update hagrees fun u _ => hs.agrees u, hs.live, hs.injective,
    hs.closed_lt, hs.nodup, fun h hlt hopen => ?_⟩
  refine (hs.kept h hlt hopen).imp_right ?_
  rintro ⟨u, name, hu⟩
  refine ⟨u, name, ?_⟩
  have hut : u ≠ t := by
    rintro rfl
    exact hno name h hu
  exact (Function.update_of_ne hut _ _).trans hu

theorem Sound.close {s : State τ ν} (hs : s.Sound) {t : τ} {name : ν} {h : Nat}
    (hpc : s.pc t = .closing name h) :
    Sound { s.goto t .idle with closed := h :: s.closed } := by
  have hagrees := hs.agrees t
  rw [hpc] at hagrees
  obtain ⟨hlt, hopen, hunmapped⟩ := hagrees
  have hholds : (s.pc t).holds h = true := by simp [hpc, Pc.holds]
  refine ⟨hs.excluded.leave rfl rfl fun _ => rfl, forall_update trivial fun u hu =>
    ?_, fun name' h' hmap => ?_, hs.injective, ?_, ?_, ?_⟩
  · have hother := hs.excluded.mutex h t hholds u hu
    have hu' := hs.agrees u
    cases hpcu : s.pc u with
    | closing name' h' =>
      rw [hpcu] at hother hu'
      refine ⟨hu'.1, ?_, hu'.2.2⟩
      rw [List.mem_cons, not_or]
      exact ⟨of_decide_eq_false hother, hu'.2.1⟩
    | _ =>
      rw [hpcu] at hu'
      exact hu'
  · refine ⟨(hs.live name' h' hmap).1, ?_⟩
    rw [List.mem_cons, not_or]
    refine ⟨?_, (hs.live name' h' hmap).2⟩
    rintro rfl
    exact hunmapped name' hmap
  · exact List.forall_mem_cons.mpr ⟨hlt, hs.closed_lt⟩
  · exact List.nodup_cons.mpr ⟨hopen, hs.nodup⟩
  · intro h' hlt' hopen'
    rw [List.mem_cons, not_or] at hopen'
    refine (hs.kept h' hlt' hopen'.2).imp_right ?_
    rintro ⟨u, name', hu⟩
    refine ⟨u, name', ?_⟩
    have hut : u ≠ t := by
      rintro rfl
      rw [hpc] at hu
      cases hu
      exact hopen'.1 rfl
    exact (Function.update_of_ne hut _ _).trans hu

variable [DecidableEq ν]

theorem Sound.delete {s : State τ ν} (hs : s.Sound) {t : τ} {name : ν} {h : Nat}
    (hpc : s.pc t = .found .release name h) (hfree : OnlyAt (Pc.holds h) s.pc t) :
    Sound { s.goto t (.closing name h) with
      driverAdapters := Function.update s.driverAdapters name none } := by
  have hmap : s.driverAdapters name = some h := by
    have hagrees := hs.agrees t
    rw [hpc] at hagrees
    exact hagrees
  have hsome : ∀ {name' h'}, Function.update s.driverAdapters name none name' = some h' →
      s.driverAdapters name' = some h' ∧ name' ≠ name := by
    intro name' h' hmap'
    by_cases hname : name' = name
    · rw [hname, Function.update_self] at hmap'
      cases hmap'
    · rw [Function.update_of_ne hname] at hmap'
      exact ⟨hmap', hname⟩
  refine ⟨hs.excluded.goto ?_ ?_ ?_ ?_, forall_update ?_ fun u hu =>
    ?_, ?_, ?_, hs.closed_lt, hs.nodup, ?_⟩
  · exact fun _ => .inl (by rw [hpc]; rfl)
  · exact fun _ => .inl (by rw [hpc]; rfl)
  · exact fun hreads => by cases hreads
  · intro h' hholds
    obtain rfl := of_decide_eq_true hholds
    exact .inr hfree
  · refine ⟨(hs.live name h hmap).1, (hs.live name h hmap).2, fun name' hmap' => ?_⟩
    obtain ⟨hmap', hname⟩ := hsome hmap'
    exact hname (hs.injective name' name h hmap' hmap)
  · rcases hs.others (by rw [hpc]; rfl) hu with ⟨name', h', hpcu⟩ | hall
    · -- the mutex of the handle that is taken out of the map is held by `t` alone
      have hagrees := hs.agrees u
      have hother := hfree u hu
      rw [hpcu] at hagrees hother ⊢
      have hname : name' ≠ name := by
        rintro rfl
        exact of_decide_eq_false hother (Option.some.inj (hagrees.symm.trans hmap))
      exact (Function.update_of_ne hname _ _).trans hagrees
    · exact hall _
  · exact fun name' h' hmap' => hs.live name' h' (hsome hmap').1
  · exact fun name₁ name₂ h' h₁ h₂ => hs.injective name₁ name₂ h' (hsome h₁).1 (hsome h₂).1
  · intro h' hlt hopen
    by_cases hh : h' = h
    · subst hh
      exact .inr ⟨t, name, Function.update_self _ _ _⟩
    · rcases hs.kept h' hlt hopen with ⟨name', hmap'⟩ | ⟨u, name', hu⟩
      · refine .inl ⟨name', ?_⟩
        have hname : name' ≠ name := by
          rintro rfl
          exact hh (Option.some.inj (hmap'.symm.trans hmap))
        exact (Function.update_of_ne hname _ _).trans hmap'
      · refine .inr ⟨u, name', ?_⟩
        have hut : u ≠ t := by
          rintro rfl
          rw [hpc] at hu
          cases hu
        exact (Function.update_of_ne hut _ _).trans hu

theorem Sound.opened {s : State τ ν} (hs : s.Sound) {t : τ} {name : ν}
    (hpc : s.pc t = .opening name) :
    Sound { s.goto t (.configuration name s.opened) with
      driverAdapters := Function.update s.driverAdapters name (some s.opened)
      opened := s.opened + 1 } := by
  have hmap : s.driverAdapters name = none := by
    have hagrees := hs.agrees t
    rw [hpc] at hagrees
    exact hagrees
  have hsome : ∀ {name' h'}, Function.update s.driverAdapters name (some s.opened) name' = some h' →
      name' = name ∧ h' = s.opened ∨ s.driverAdapters name' = some h' := by
    intro name' h' hmap'
    by_cases hname : name' = name
    · rw [hname, Function.update_self] at hmap'
      exact .inl ⟨hname, (Option.some.inj hmap').symm⟩
    · rw [Function.update_of_ne hname] at hmap'
      exact .inr hmap'
  have hfree : OnlyAt (Pc.holds s.opened) s.pc t := by
    intro u hu
    rw [← Bool.not_eq_true]
    exact fun hholds => Nat.lt_irrefl _ (hs.lt_opened hholds)
  refine ⟨hs.excluded.use hfree name, forall_update (Function.update_self _ _ _) fun u hu =>
    ?_, ?_, ?_, ?_, hs.nodup, ?_⟩
  · rcases hs.others (by rw [hpc]; rfl) hu with ⟨name', h', hpcu⟩ | hall
    · have hagrees := hs.agrees u
      rw [hpcu] at hagrees ⊢
      have hname : name' ≠ name := by
        rintro rfl
        exact absurd (hmap.symm.trans hagrees) (by simp)
      exact (Function.update_of_ne hname _ _).trans hagrees
    · exact hall _
  · intro name' h' hmap'
    rcases hsome hmap' with ⟨-, rfl⟩ | hmap'
    · exact ⟨Nat.lt_succ_self _, fun hmem => Nat.lt_irrefl _ (hs.closed_lt _ hmem)⟩
    · exact ⟨Nat.lt_succ_of_lt (hs.live name' h' hmap').1, (hs.live name' h' hmap').2⟩
  · intro name₁ name₂ h' h₁ h₂
    rcases hsome h₁ with ⟨hname₁, hh₁⟩ | hmap₁ <;> rcases hsome h₂ with ⟨hname₂, hh₂⟩ | hmap₂
    · exact hname₁.trans hname₂.symm
    · exact absurd (hh₁ ▸ (hs.live name₂ h' hmap₂).1) (Nat.lt_irrefl _)
    · exact absurd (hh₂ ▸ (hs.live name₁ h' hmap₁).1) (Nat.lt_irrefl _)
    · exact hs.injective name₁ name₂ h' hmap₁ hmap₂
  · exact fun h' hmem => Nat.lt_succ_of_lt (hs.closed_lt h' hmem)
  · intro h' hlt hopen
    rcases Nat.lt_succ_iff_lt_or_eq.mp hlt with hlt | rfl
    · rcases hs.kept h' hlt hopen with ⟨name', hmap'⟩ | ⟨u, name', hu⟩
      · refine .inl ⟨name', ?_⟩
        have hname : name' ≠ name := by
          rintro rfl
          exact absurd (hmap.symm.trans hmap') (by simp)
        exact (Function.update_of_ne hname _ _).trans hmap'
      · refine .inr ⟨u, name', ?_⟩
        have hut : u ≠ t := by
          rintro rfl
          rw [hpc] at hu
          cases hu
        exact (Function.update_of_ne hut _ _).trans hu
    · exact .inl ⟨name, Function.update_self _ _ _⟩

variable [Fintype τ]

omit [Fintype τ] in
theorem Sound.goes {s s' : State τ ν} {t : τ} {ok : Bool} (hs : s.Sound) (h : s.Goes t ok s') :
    s'.Sound := by
  have hagrees := hs.agrees t
  cases h with
  | rlock hpc hfree =>
    refine hs.goto (hs.excluded.goto (fun h => ?_) (fun h => ?_) (fun _ => .inr hfree) fun _ h =>
      ?_) trivial (by simp [hpc])
    · cases h
    · cases h
    · cases h
  | hit hpc hmap =>
    refine hs.goto (hs.excluded.goto (fun h => ?_) (fun h => ?_) (fun _ => .inl ?_) fun _ h =>
      ?_) hmap (by simp [hpc])
    · cases h
    · cases h
    · rw [hpc]
      rfl
    · cases h
  | useRead hpc hfree | useWrite hpc hfree =>
    rw [hpc] at hagrees
    exact hs.goto (hs.excluded.use hfree _) hagrees (by simp [hpc])
  | lock hpc hfree =>
    refine hs.goto (hs.excluded.goto (fun _ => .inr hfree) (fun h => ?_) (fun h => ?_) fun _ h =>
      ?_) trivial (by simp [hpc])
    · cases h
    · cases h
    · cases h
  | enter hpc hfree =>
    refine hs.goto (hs.excluded.goto (fun _ => .inl ?_) (fun _ => .inr hfree) (fun h =>
      ?_) fun _ h => ?_) trivial (by simp [hpc])
    · rw [hpc]
      rfl
    · cases h
    · cases h
  | found hpc hmap | missing hpc hmap =>
    exact hs.goto (hs.excluded.write (by rw [hpc]; rfl) rfl fun _ => rfl) hmap (by simp [hpc])
  | delete hpc hfree => exact hs.delete hpc hfree
  | opened hpc => exact hs.opened hpc
  | close hpc => exact hs.close hpc
  | miss hpc | nothing hpc | notOpened hpc | read hpc | notRead hpc =>
    exact hs.goto (hs.excluded.leave rfl rfl fun _ => rfl) trivial (by simp [hpc])

theorem Sound.step {s s' : State τ ν} {a : Action τ ν} (hs : s.Sound)
    (h : State.step s a = some s') : s'.Sound := by
  cases a with
  | call t request =>
    obtain ⟨hpc, ⟨⟩⟩ := Option.ite_none_right_eq_some.mp h
    cases request with
    | runtimeConfig name | releaseDriverAdapter name =>
      exact hs.goto (hs.excluded.leave rfl rfl fun _ => rfl) trivial (by simp [hpc])
  | run t ok => exact hs.goes (goes_of_run h)

/-- A configuration is read from a handle that is open and that nobody else reads from or closes;
no handle is closed twice, and one that is open is kept under one name or is about to be closed. -/
theorem handles_safe {s : State τ ν} {as : List (Action τ ν)} (h : exec State.step {} as = some s) :
    (∀ t name h, s.pc t = .configuration name h → h < s.opened ∧ h ∉ s.closed ∧
      s.driverAdapters name = some h ∧
      ∀ u, u ≠ t → ∀ name', s.pc u ≠ .configuration name' h ∧ s.pc u ≠ .closing name' h) ∧
    s.closed.Nodup ∧
    (∀ name name' h, s.driverAdapters name = some h → s.driverAdapters name' = some h →
      name = name') ∧
    ∀ h < s.opened, h ∉ s.closed → (∃ name, s.driverAdapters name = some h) ∨ ∃ t name, s.pc t =
      .closing name h := by
  have hs : s.Sound := invariant (fun _ _ _ hs h => hs.step h) .initial h
  refine ⟨fun t name h hpc => ?_, hs.nodup, hs.injective, hs.kept⟩
  have hmap := hs.agrees t
  rw [hpc] at hmap
  obtain ⟨hlt, hopen⟩ := hs.live name h hmap
  refine ⟨hlt, hopen, hmap, fun u hu name' => ?_⟩
  have hother := hs.excluded.mutex h t (by simp [hpc, Pc.holds]) u hu
  constructor
  · intro hpcu
    simp [hpcu, Pc.holds] at hother
  · intro hpcu
    simp [hpcu, Pc.holds] at hother

def twoRequests : List (Action (Fin 2) Nat) :=
  [.call 0 (.runtimeConfig 7), .call 1 (.runtimeConfig 7), .run 0 true, .run 1 true, .run 0 true,
  .run 1 true, .run 0 true, .run 0 true,
    .run 0 true, .run 0 true, .run 1 true, .run 1 true, .run 1 true]

theorem handles_safe_twoRequests : ∃ s : State (Fin 2) Nat, exec State.step {} twoRequests =
    some s ∧ s.pc 0 = .configuration 7 0 ∧
    s.pc 1 = .found .find 7 0 ∧ 0 ∉ s.closed := by
  refine ⟨_, rfl, rfl, rfl, ?_⟩
  have hs : exec State.step {} twoRequests = some _ := rfl
  exact ((handles_safe hs).1 0 7 0 rfl).2.1

end State

/-- The moves that a thread has left, if every answer of the driver is a failure. -/
def Pc.weight {ν : Type} : Pc ν → Nat
  | .idle => 0
  | .closing _ _ => 1
  | .found .release _ _ => 2
  | .writing .release _ => 3
  | .pending .release _ => 4
  | .lock .release _ => 5
  | .configuration _ _ => 6
  | .opening _ | .found .find _ _ | .foundReading _ _ => 7
  | .writing .find _ => 8
  | .pending .find _ => 9
  | .lock .find _ => 10
  | .reading _ => 11
  | .rlock _ => 12

def Action.Internal {τ ν : Type} : Action τ ν → Prop
  | .call _ _ => False
  | .run _ _ => True

namespace State

variable {τ ν : Type} [DecidableEq τ] [DecidableEq ν] [Fintype τ]

def effort (s : State τ ν) : Nat := ∑ t, (s.pc t).weight

theorem Goes.effort {s s' : State τ ν} {t : τ} {ok : Bool} (h : s.Goes t ok s') :
    s'.effort < s.effort := by
  cases h with
  | @lock _ purpose _ hpc | @enter _ purpose _ hpc | @found _ purpose _ _ hpc =>
    refine sum_update_lt Pc.weight ?_
    rw [hpc]
    cases purpose <;> simp [Pc.weight]
  | rlock hpc | hit hpc | miss hpc | useRead hpc | missing hpc | nothing hpc | useWrite hpc
  | delete hpc | opened hpc | notOpened hpc | read hpc | notRead hpc | close hpc =>
    refine sum_update_lt Pc.weight ?_
    rw [hpc]
    simp [Pc.weight]

/-- Where no thread can go on, none is in a request: who has the mutex of a handle does not wait
for the map. -/
theorem idle_of_stuck {s : State τ ν} (h : ∀ t ok, s.run t ok = none) (t : τ) : s.pc t = .idle := by
  -- the holders of a handle are inside the driver, and the driver answers
  have hholds : ∀ u handle, (s.pc u).holds handle = false := by
    intro u handle
    have hu := h u true
    cases hpc : s.pc u with
    | configuration name h' => simp [run, hpc] at hu
    | closing name h' => simp [run, hpc] at hu
    | _ => rfl
  have hmutex : ∀ u handle, s.free u (Pc.holds handle) = true :=
    fun u handle => free_iff.mpr fun v _ => hholds v handle
  have hreads : ∀ u, (s.pc u).reads = false := by
    intro u
    have hu := h u true
    cases hpc : s.pc u with
    | reading name => cases hmap : s.driverAdapters name <;> simp [run, hpc, hmap] at hu
    | foundReading name handle => simp [run, hpc, hmutex] at hu
    | _ => rfl
  have hclaims : ∀ u, (s.pc u).claims = false := by
    intro u
    have hu := h u true
    have hread : s.free u Pc.reads = true := free_iff.mpr fun v _ => hreads v
    cases hpc : s.pc u with
    | pending purpose name => simp [run, hpc, hread] at hu
    | writing purpose name =>
      cases hmap : s.driverAdapters name <;> cases purpose <;> simp [run, hpc, hmap] at hu
    | found purpose name handle => cases purpose <;> simp [run, hpc, hmutex] at hu
    | opening name => simp [run, hpc] at hu
    | closing name handle => simp [run, hpc] at hu
    | _ => rfl
  have hfree : s.free t Pc.claims = true := free_iff.mpr fun v _ => hclaims v
  have ht := h t true
  have hholds := hholds t
  have hreads := hreads t
  have hclaims := hclaims t
  cases hpc : s.pc t with
  | idle => rfl
  | rlock name => simp [run, hpc, hfree] at ht
  | lock purpose name => simp [run, hpc, hfree] at ht
  | reading | foundReading => simp [hpc, Pc.reads] at hreads
  | pending | writing | found | opening | closing => simp [hpc, Pc.claims, Pc.writes] at hclaims
  | configuration => simp [hpc, Pc.holds] at hholds

/-- Without new requests the threads come to an end whatever the schedule, and then every request
has been answered; the handles that are open are those in the map. -/
theorem every_request_answered {s s' : State τ ν} {hist as : List (Action τ ν)}
    (hs : exec State.step {} hist = some s) (hinternal : ∀ a ∈ as, a.Internal)
    (h : exec State.step s as = some s') :
    as.length ≤ s.effort ∧ ((∀ a, a.Internal → State.step s' a = none) →
      (∀ t, s'.pc t = .idle) ∧
        ∀ h, h < s'.opened ∧ h ∉ s'.closed ↔ ∃ name, s'.driverAdapters name = some h) := by
  have hlower : ∀ (s : State τ ν) (a : Action τ ν) s', a.Internal → State.step s a = some s' →
      s'.effort < s.effort := by
    intro s a s' ha h
    cases a with
    | call => exact ha.elim
    | run t ok => exact (goes_of_run h).effort
  have hlength := exec_length_le hlower hinternal h
  refine ⟨by omega, fun hstuck => ?_⟩
  have hidle := idle_of_stuck fun t ok => hstuck (.run t ok) trivial
  have hsound : s'.Sound := by
    have hsound : s.Sound := invariant (fun _ _ _ hs h => hs.step h) .initial hs
    exact invariant (fun _ _ _ hs h => hs.step h) hsound h
  refine ⟨hidle, fun handle => ⟨fun hopen => ?_, fun hkept => ?_⟩⟩
  · refine (hsound.kept handle hopen.1 hopen.2).resolve_right ?_
    -- nobody is left in `Close`
    rintro ⟨t, name, hpc⟩
    rw [hidle t] at hpc
    cases hpc
  · obtain ⟨name, hmap⟩ := hkept
    exact hsound.live name handle hmap

def secondFails : List (Action (Fin 2) Nat) :=
  [.run 0 true, .run 1 true, .run 1 false, .run 1 true, .run 1 true, .run 1 true,
  .run 1 true, .run 1 true]

theorem every_request_answered_twoRequests :
    ∃ s s' : State (Fin 2) Nat, exec State.step {} twoRequests = some s ∧
    exec State.step s secondFails = some s' ∧ s'.closed = [0] ∧ secondFails.length ≤ s.effort ∧
      ∀ h, h < s'.opened ∧ h ∉ s'.closed ↔ ∃ name, s'.driverAdapters name = some h := by
  refine ⟨_, _, rfl, rfl, rfl, ?_⟩
  have hs : exec State.step {} twoRequests = some _ := rfl
  have hinternal : ∀ a ∈ secondFails, a.Internal := by simp [secondFails, Action.Internal]
  obtain ⟨hlength, hrest⟩ := every_request_answered hs hinternal (by rfl)
  refine ⟨hlength, (hrest fun a ha => ?_).2⟩
  cases a with
  | call => exact ha.elim
  | run t ok =>
    obtain rfl | rfl : t = 0 ∨ t = 1 := by omega
    · rfl
    · rfl

end State

end WireGuardWindows.Manager.DriverAdapters
