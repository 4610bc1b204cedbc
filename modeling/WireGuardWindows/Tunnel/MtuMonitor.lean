import WireGuardWindows.Tunnel.RouteMonitor
import WireGuardWindows.Systems.Threads

/-!
# The monitor of the MTU

`tunnel/mtumonitor.go`: for each address family a monitor follows the interface of the default
route and gives its MTU, less the overhead of the tunnel, to the interface of the tunnel and, for
the userspace backend, to the device. The two monitors have a mutex each, run on the goroutines of
change callbacks, and share the device (`sharedMTUClamper`). Every call of Windows is a move of
its own with an answer that the schedule chooses, so the routes may change between any two of them.
-/

namespace WireGuardWindows.Tunnel.MtuMonitor
open Systems RouteMonitor GoStd.Strconv

section
variable {ι : Type} (net : Interfaces) (family : AddressFamily) (ourLUID : UInt64)

def lower (best : UInt64 × UInt64 × UInt32) (row : ForwardRow ι) : UInt64 × UInt64 × UInt32 :=
  match combinedMetric net family ourLUID row with
  | none => best
  | some metric => if metric < best.1 then (metric, row.route.luid, row.index) else best

def findDefaultLUID (table : List (ForwardRow ι)) : UInt64 × UInt32 :=
  ((table.filter fun row => row.ofFamily family).foldl (lower net family ourLUID)
    (0xFFFFFFFFFFFFFFFF, 0, 0)).2

theorem findDefaultLUID_eq (table : List (ForwardRow ι)) :
    findDefaultLUID net family ourLUID table =
      ((findDefaultGateway table net family ourLUID).luid,
        (findDefaultGateway table net family ourLUID).index) := by
  have hfold : ∀ (rows : List (ForwardRow ι)) (best : UInt64 × DefaultGateway),
      rows.foldl (lower net family ourLUID) (best.1, best.2.luid, best.2.index) =
        ((rows.foldl (better net family ourLUID) best).1,
        (rows.foldl (better net family ourLUID) best).2.luid,
          (rows.foldl (better net family ourLUID) best).2.index) := by
    intro rows
    induction rows with
    | nil => exact fun _ => rfl
    | cons row rows ih =>
      intro best
      rw [List.foldl_cons, List.foldl_cons, ← ih]
      congr 1
      simp only [lower, better]
      cases combinedMetric net family ourLUID row with
      | none => rfl
      | some metric =>
        by_cases hlt : metric < best.1
        · simp only [if_pos hlt]
        · simp only [if_neg hlt]
  have heq := hfold (table.filter fun row => row.ofFamily family) (0xFFFFFFFFFFFFFFFF, {})
  exact congrArg Prod.snd heq

end

def wrap (size : IntSize) (x : Int) : Int := x.bmod (2 ^ size.bits)

def minMTU : AddressFamily → Nat
  | .inet => 576
  | .inet6 => 1280

def nlMTU (size : IntSize) (family : AddressFamily) (mtu : UInt32) : UInt32 :=
  UInt32.ofInt (max (wrap size (wrap size mtu.toNat - 80)) (minMTU family))

theorem wrap_eq (size : IntSize) {x : Int} (hlow : -2 ^ (size.bits - 1) ≤ x)
    (hhigh : x < 2 ^ (size.bits - 1)) : wrap size x = x := by
  cases size <;> simp only [wrap, IntSize.bits] at * <;> apply Int.bmod_eq_of_le <;> omega

/-- Without overflow: on systems of 32 bits, for MTUs that an `int` holds. -/
theorem wrap_sub {size : IntSize} {mtu : UInt32} (h : size = .int64 ∨ mtu.toNat < 2 ^ 31) :
    wrap size (wrap size mtu.toNat - 80) = mtu.toNat - 80 := by
  have hlt := mtu.toNat_lt
  have hbound : (mtu.toNat : Int) < 2 ^ (size.bits - 1) := by
    cases size with
    | int32 =>
      have hlt : mtu.toNat < 2 ^ 31 := h.resolve_left (by simp)
      simp only [IntSize.bits]
      omega
    | int64 =>
      simp only [IntSize.bits]
      omega
  have hpow : (2 : Int) ^ 31 ≤ 2 ^ (size.bits - 1) := by cases size <;> decide
  rw [wrap_eq size (by omega) hbound, wrap_eq size (by omega) (by omega)]

theorem wrap_lt (size : IntSize) (mtu : UInt32) :
    wrap size (wrap size mtu.toNat - 80) < 2 ^ 32 := by
  cases size with
  | int32 =>
    have hwrap := @Int.bmod_lt (wrap .int32 mtu.toNat - 80) (2 ^ 32) (by decide)
    simp only [wrap, IntSize.bits] at hwrap ⊢
    omega
  | int64 =>
    have hlt := mtu.toNat_lt
    rw [wrap_sub (.inl rfl)]
    omega

theorem nlMTU_toNat (size : IntSize) (family : AddressFamily) (mtu : UInt32) :
    ((nlMTU size family mtu).toNat : Int) = max (wrap size (wrap size mtu.toNat - 80))
      (minMTU family) := by
  have hlt := wrap_lt size mtu
  have hmin : minMTU family < 2 ^ 32 := by cases family <;> decide
  rw [nlMTU, UInt32.ofInt, UInt32.toNat_ofNat']
  omega

theorem minMTU_le_nlMTU (size : IntSize) (family : AddressFamily) (mtu : UInt32) :
    minMTU family ≤ (nlMTU size family mtu).toNat := by
  have heq := nlMTU_toNat size family mtu
  omega

/-- What the monitor is for: the MTU of the default route less 80 bytes, and not less than IP
needs. On systems of 32 bits this is so for MTUs that an `int` holds. -/
theorem nlMTU_eq (size : IntSize) (family : AddressFamily) {mtu : UInt32}
    (h : size = .int64 ∨ mtu.toNat < 2 ^ 31) :
    (nlMTU size family mtu).toNat = max (mtu.toNat - 80) (minMTU family) := by
  have heq := nlMTU_toNat size family mtu
  have hmin : 0 < minMTU family := by cases family <;> decide
  rw [wrap_sub h] at heq
  omega

inductive Place
  | find
  /-- Before `lastLUID.Interface()`. -/
  | interface
  /-- Before `ourLUID.IPInterface(family)`. -/
  | ipInterface (mtu : UInt32)
  | set (mtu : UInt32)
  /-- In `ForceMTU`, before the mutex of the device. -/
  | force (mtu : UInt32)
  deriving DecidableEq

structure Monitor where
  lastLUID : UInt64 := 0
  lastIndex : UInt32 := 0xFFFFFFFF
  lastMTU : UInt32 := 0
  /-- Calls of `doIt` that wait for the mutex. -/
  waiting : Nat := 0
  place : Option Place := none

structure State where
  monitors : AddressFamily → Monitor := fun _ => {}
  /-- Of the shared clamper. -/
  mtus : AddressFamily → Int := fun _ => 0
  /-- What the device was told last. -/
  forced : Option Int := none
  /-- What the rows of the tunnel's interface were set to last. -/
  rows : AddressFamily → Option UInt32 := fun _ => none

abbrev Routes := Option (List (ForwardRow Unit) × Interfaces)

inductive Action
  /-- A change of a default route or of the parameters of an interface, or the first call of
  `doIt`. -/
  | change (family : AddressFamily)
  | lock (family : AddressFamily)
  | find (family : AddressFamily) (routes : Routes)
  | interface (family : AddressFamily) (mtu : Option UInt32)
  | ipInterface (family : AddressFamily) (ok : Bool)
  | set (family : AddressFamily) (ok : Bool)
  | force (family : AddressFamily)
  /-- The interface appeared anew: the callbacks were unregistered, and there is a new monitor. -/
  | renew (family : AddressFamily)

def Action.family : Action → AddressFamily
  | .change family | .lock family | .find family _ | .interface family _ | .ipInterface family
    _ | .set family _ | .force family
  | .renew family => family

/-- The loop of `ForceMTU`. -/
def smallest (mtu : Int) (mtus : List Int) : Int :=
  mtus.foldl (fun mtu m => if m > 0 ∧ m < mtu then m else mtu) mtu

namespace State

def update (s : State) (family : AddressFamily) (m : Monitor) : State :=
  { s with monitors := Function.update s.monitors family m }

@[simp] theorem update_monitors (s : State) (family : AddressFamily) (m : Monitor) :
    (s.update family m).monitors family = m :=
  Function.update_self _ _ _

def forceMTU (s : State) (family : AddressFamily) (mtu : Int) : State :=
  let mtus := Function.update s.mtus family mtu
  { s with mtus, forced := some (smallest mtu [mtus .inet, mtus .inet6]) }

variable (size : IntSize) (ourLUID : UInt64) (clamper : Bool)

def step (s : State) (a : Action) : Option State :=
  let m := s.monitors a.family
  match a, m.place with
  | .change family, _ => some (s.update family { m with waiting := m.waiting + 1 })
  | .lock family, none =>
    if m.waiting > 0 then some (s.update family { m with
      waiting := m.waiting - 1, place := some .find }) else none
  | .find family routes, some .find => match routes with
    | none => some (s.update family { m with place := none })
    | some (table, net) =>
      let found := findDefaultLUID net family ourLUID table
      let place := if found.1 ≠ 0 then some .interface else none
      some (s.update family { m with lastLUID := found.1, lastIndex := found.2, place })
  | .interface family mtu, some .interface => match mtu with
    | none => some (s.update family { m with place := none })
    | some mtu =>
      let place := if mtu > 0 ∧ m.lastMTU ≠ mtu then some (.ipInterface mtu) else none
      some (s.update family { m with place })
  | .ipInterface family ok, some (.ipInterface mtu) =>
    some (s.update family { m with place := if ok then some (.set mtu) else none })
  | .set family ok, some (.set mtu) =>
    if ok then
      let s := { s with rows := Function.update s.rows family (some (nlMTU size family mtu)) }
      if clamper then some (s.update family { m with place := some (.force mtu) })
      else some (s.update family { m with lastMTU := mtu, place := none })
    else some (s.update family { m with place := none })
  | .force family, some (.force mtu) =>
    some ((s.forceMTU family (nlMTU size family mtu).toNat).update family { m with
      lastMTU := mtu, place := none })
  | .renew family, none => if m.waiting = 0 then some (s.update family {}) else none
  | _, _ => none

inductive Moves (s : State) : Action → State → Prop
  | change (family) : Moves s (.change family) (s.update family { s.monitors family with
    waiting := (s.monitors family).waiting + 1 })
  | lock {family} (hplace : (s.monitors family).place = none)
    (hwaiting : (s.monitors family).waiting > 0) :
    Moves s (.lock family)
      (s.update family { s.monitors family with
        waiting := (s.monitors family).waiting - 1, place := some .find })
  | findError {family} (hplace : (s.monitors family).place = some .find) :
    Moves s (.find family none) (s.update family { s.monitors family with place := none })
  | find {family table net} (hplace : (s.monitors family).place = some .find) :
    Moves s (.find family (some (table, net)))
      (s.update family { s.monitors family with
        lastLUID := (findDefaultLUID net family ourLUID table).1
        lastIndex := (findDefaultLUID net family ourLUID table).2
        place := if (findDefaultLUID net family ourLUID table).1 ≠ 0
          then some .interface else none })
  | interfaceError {family} (hplace : (s.monitors family).place = some .interface) :
    Moves s (.interface family none) (s.update family { s.monitors family with place := none })
  | interface {family mtu} (hplace : (s.monitors family).place = some .interface) :
    Moves s (.interface family (some mtu))
      (s.update family { s.monitors family with
        place := if mtu > 0 ∧ (s.monitors family).lastMTU ≠ mtu then some (.ipInterface mtu)
          else none })
  | ipInterface {family mtu} (ok) (hplace : (s.monitors family).place = some (.ipInterface mtu)) :
    Moves s (.ipInterface family ok) (s.update family { s.monitors family with
      place := if ok then some (.set mtu) else none })
  | setError {family mtu} (hplace : (s.monitors family).place = some (.set mtu)) :
    Moves s (.set family false) (s.update family { s.monitors family with place := none })
  | set {family mtu} (hplace : (s.monitors family).place = some (.set mtu))
      (hclamper : clamper = true) :
    Moves s (.set family true)
      (update { s with rows := Function.update s.rows family (some (nlMTU size family mtu)) } family
        { s.monitors family with place := some (.force mtu) })
  | setLast {family mtu} (hplace : (s.monitors family).place = some (.set mtu))
    (hclamper : clamper = false) :
    Moves s (.set family true)
      (update { s with rows := Function.update s.rows family (some (nlMTU size family mtu)) } family
        { s.monitors family with lastMTU := mtu, place := none })
  | force {family mtu} (hplace : (s.monitors family).place = some (.force mtu)) :
    Moves s (.force family)
      ((s.forceMTU family (nlMTU size family mtu).toNat).update family { s.monitors family with
        lastMTU := mtu, place := none })
  | renew {family} (hplace : (s.monitors family).place = none)
    (hwaiting : (s.monitors family).waiting = 0) :
    Moves s (.renew family) (s.update family {})

variable {size ourLUID clamper}

theorem moves_of_step {s t : State} {a : Action} (h : step size ourLUID clamper s a = some t) :
    Moves size ourLUID clamper s a t := by
  unfold step at h
  simp only at h
  split at h
  · cases h
    exact .change _
  · rename_i family hplace
    obtain ⟨hwaiting, ⟨⟩⟩ := Option.ite_none_right_eq_some.mp h
    exact .lock hplace hwaiting
  · rename_i family routes hplace
    split at h <;> cases h
    · exact .findError hplace
    · exact .find hplace
  · rename_i family mtu hplace
    split at h <;> cases h
    · exact .interfaceError hplace
    · exact .interface hplace
  · rename_i family ok mtu hplace
    cases h
    exact .ipInterface ok hplace
  · rename_i family ok mtu hplace
    cases ok <;> cases hclamper : clamper <;> subst hclamper <;> cases h
    · exact .setError hplace
    · exact .setError hplace
    · exact .setLast hplace rfl
    · exact .set hplace rfl
  · rename_i family mtu hplace
    cases h
    exact .force hplace
  · rename_i family hplace
    obtain ⟨hwaiting, ⟨⟩⟩ := Option.ite_none_right_eq_some.mp h
    exact .renew hplace hwaiting
  · cases h

end State

theorem smallest_spec {mtu : Int} (hmtu : 0 < mtu) (mtus : List Int) :
    0 < smallest mtu mtus ∧ smallest mtu mtus ≤ mtu ∧
    (smallest mtu mtus = mtu ∨ smallest mtu mtus ∈ mtus) ∧
      ∀ m ∈ mtus, 0 < m → smallest mtu mtus ≤ m := by
  induction mtus generalizing mtu with
  | nil => exact ⟨hmtu, Int.le_refl _, .inl rfl, fun m hm => by cases hm⟩
  | cons m mtus ih =>
    by_cases hlower : m > 0 ∧ m < mtu
    · have hstep : smallest mtu (m :: mtus) = smallest m mtus := by
        simp only [smallest, List.foldl_cons, if_pos hlower]
      obtain ⟨hpos, hle, hmem, hall⟩ := ih hlower.1
      rw [hstep]
      refine ⟨hpos, by omega, .inr ?_, fun m' hm' hm'pos => ?_⟩
      · rcases hmem with heq | hmem
        · rw [heq]
          exact List.mem_cons_self
        · exact List.mem_cons_of_mem m hmem
      · exact (List.mem_cons.mp hm').elim (fun heq => heq ▸ hle) fun hm' => hall m' hm' hm'pos
    · have hstep : smallest mtu (m :: mtus) = smallest mtu mtus := by
        simp only [smallest, List.foldl_cons, if_neg hlower]
      obtain ⟨hpos, hle, hmem, hall⟩ := ih hmtu
      rw [hstep]
      refine ⟨hpos, hle, hmem.imp_right (List.mem_cons_of_mem m), fun m' hm' hm'pos => ?_⟩
      rcases List.mem_cons.mp hm' with rfl | hm'
      · omega
      · exact hall m' hm' hm'pos

namespace State

structure Shared (s : State) : Prop where
  nonneg : ∀ f, 0 ≤ s.mtus f
  forced : s.forced = none ∧ (∀ f, s.mtus f = 0) ∨
    ∃ f, 0 < s.mtus f ∧ s.forced = some (s.mtus f) ∧ ∀ g, 0 < s.mtus g → s.mtus f ≤ s.mtus g

@[simp] theorem forceMTU_mtus (s : State) (family : AddressFamily) (mtu : Int) :
    (s.forceMTU family mtu).mtus = Function.update s.mtus family mtu := rfl

theorem Shared.forceMTU {s : State} (hs : s.Shared) (family : AddressFamily) {mtu : Int}
    (hmtu : 0 < mtu) : (s.forceMTU family mtu).Shared := by
  obtain ⟨hpos, hle, hmem, hall⟩ := smallest_spec hmtu
    [Function.update s.mtus family mtu .inet, Function.update s.mtus family mtu .inet6]
  have hfind : ∃ f, Function.update s.mtus family mtu f =
      smallest mtu [Function.update s.mtus family mtu .inet,
      Function.update s.mtus family mtu .inet6] := by
    rcases hmem with heq | hmem
    · exact ⟨family, by rw [Function.update_self, heq]⟩
    · simp only [List.mem_cons, List.not_mem_nil, or_false] at hmem
      rcases hmem with heq | heq
      · exact ⟨.inet, heq.symm⟩
      · exact ⟨.inet6, heq.symm⟩
  obtain ⟨f, hf⟩ := hfind
  refine ⟨?_, .inr ⟨f, ?_, ?_, fun g hg => ?_⟩⟩
  · exact @forall_update _ _ s.mtus _ (fun m => 0 ≤ m) family mtu (by omega) fun f _ => hs.nonneg f
  · rw [forceMTU_mtus, hf]
    exact hpos
  · exact congrArg some hf.symm
  · rw [forceMTU_mtus, hf]
    refine hall _ ?_ hg
    cases g <;> simp

end State

def Monitor.forces (m : Monitor) : Bool := match m.place with
  | some (.force _) => true
  | _ => false

/-- What was set for a family agrees with what its monitor remembers and what the clamper was told,
except between `Set` and `ForceMTU`. -/
structure Applied (size : IntSize) (clamper : Bool) (f : AddressFamily) (m : Monitor)
    (row : Option UInt32) (mtu : Int) : Prop where
  forcing : ∀ x, m.place = some (.force x) → clamper = true ∧ row = some (nlMTU size f x)
  last : m.forces = false → m.lastMTU ≠ 0 → row = some (nlMTU size f m.lastMTU)
  clamped : clamper = true → m.forces = false → mtu = row.elim 0 fun v => v.toNat
  unclamped : clamper = false → mtu = 0
  known : ∀ v, row = some v → ∃ x, v = nlMTU size f x

namespace Applied

variable {size : IntSize} {clamper : Bool} {f : AddressFamily} {m m' : Monitor}
  {row : Option UInt32} {mtu : Int}

theorem goesOn (h : Applied size clamper f m row mtu) (hm : m.forces = false)
    (hm' : m'.forces = false) (hlast : m'.lastMTU = m.lastMTU ∨ m'.lastMTU = 0) :
    Applied size clamper f m' row mtu := by
  refine ⟨fun x hx => ?_, fun _ hne => ?_, fun hc _ => h.clamped hc hm, h.unclamped, h.known⟩
  · rw [Monitor.forces, hx] at hm'
    cases hm'
  · have hlast := hlast.resolve_right hne
    rw [hlast] at hne ⊢
    exact h.last hm hne

theorem set (h : Applied size true f m row mtu) (x : UInt32) :
    Applied size true f { m with place := some (.force x) } (some (nlMTU size f x)) mtu := by
  refine ⟨fun y hy => ?_, fun hno => ?_, fun _ hno => ?_, h.unclamped, fun v hv =>
    ⟨x, (Option.some.inj hv).symm⟩⟩
  · cases hy
    exact ⟨rfl, rfl⟩
  · cases hno
  · cases hno

theorem setLast (h : Applied size false f m row mtu) (x : UInt32) :
    Applied size false f { m with lastMTU := x, place := none } (some (nlMTU size f x)) mtu := by
  refine ⟨fun y hy => ?_, fun _ _ => rfl, fun hc => ?_, h.unclamped, fun v hv =>
    ⟨x, (Option.some.inj hv).symm⟩⟩
  · cases hy
  · cases hc

theorem force {x : UInt32} (h : Applied size clamper f m row mtu)
    (hplace : m.place = some (.force x)) :
    Applied size clamper f { m with lastMTU := x, place := none } row (nlMTU size f x).toNat := by
  obtain ⟨hclamper, hrow⟩ := h.forcing x hplace
  refine ⟨fun y hy => ?_, fun _ _ => hrow, fun _ _ => ?_, fun hc => ?_, h.known⟩
  · cases hy
  · rw [hrow]
    rfl
  · rw [hclamper] at hc
    cases hc

end Applied

namespace State

variable {size : IntSize} {ourLUID : UInt64} {clamper : Bool}

theorem Moves.others {s t : State} {a : Action} (h : Moves size ourLUID clamper s a t)
    {f : AddressFamily} (hf : f ≠ a.family) :
    t.monitors f = s.monitors f ∧ t.rows f = s.rows f ∧ t.mtus f = s.mtus f := by
  cases h with
  | set | setLast => exact ⟨Function.update_of_ne hf _ _, Function.update_of_ne hf _ _, rfl⟩
  | force => exact ⟨Function.update_of_ne hf _ _, rfl, Function.update_of_ne hf _ _⟩
  | _ => exact ⟨Function.update_of_ne hf _ _, rfl, rfl⟩

def AppliedAt (size : IntSize) (clamper : Bool) (s : State) (f : AddressFamily) : Prop :=
  Applied size clamper f (s.monitors f) (s.rows f) (s.mtus f)

theorem forces_of_place {m : Monitor} {p : Option Place} (hplace : m.place = p)
    (hp : ∀ x, p ≠ some (.force x)) : m.forces = false := by
  rw [Monitor.forces, hplace]
  split
  · exact absurd rfl (hp _)
  · rfl

theorem AppliedAt.update {s : State} {f : AddressFamily} {m : Monitor} {row : Option UInt32}
    {mtu : Int} (hrow : s.rows f = row) (hmtu : s.mtus f = mtu)
    (h : Applied size clamper f m row mtu) : AppliedAt size clamper (s.update f m) f := by
  have hm : (s.update f m).monitors f = m := Function.update_self _ _ _
  subst hrow hmtu
  rw [AppliedAt, hm]
  exact h

theorem Moves.own {s t : State} {a : Action} (h : Moves size ourLUID clamper s a t)
    (hs : AppliedAt size clamper s a.family) :
    AppliedAt size clamper t a.family := by
  cases h with
  | change family => exact .update rfl rfl ⟨hs.forcing, hs.last, hs.clamped, hs.unclamped, hs.known⟩
  | lock hplace | findError hplace | interfaceError hplace | setError hplace =>
    exact .update rfl rfl (hs.goesOn (forces_of_place hplace (by simp)) rfl (.inl rfl))
  | find hplace | interface hplace | ipInterface ok hplace =>
    refine .update rfl rfl (hs.goesOn (forces_of_place hplace (by simp))
      (forces_of_place rfl ?_) (.inl rfl))
    split <;> simp
  | @set family mtu hplace hclamper =>
    subst hclamper
    exact .update (Function.update_self _ _ _) rfl (hs.set mtu)
  | @setLast family mtu hplace hclamper =>
    subst hclamper
    exact .update (Function.update_self _ _ _) rfl (hs.setLast mtu)
  | force hplace => exact .update rfl (Function.update_self _ _ _) (hs.force hplace)
  | renew hplace =>
    exact .update rfl rfl (hs.goesOn (forces_of_place hplace (by simp)) rfl (.inr rfl))

structure Sound (size : IntSize) (clamper : Bool) (s : State) : Prop where
  shared : s.Shared
  applied : ∀ f, AppliedAt size clamper s f

theorem Sound.initial : Sound size clamper {} := by
  refine ⟨⟨fun _ => Int.le_refl 0, .inl ⟨rfl, fun _ => rfl⟩⟩, fun f =>
    ⟨fun x hx => ?_, fun _ hne => ?_, fun _ _ => rfl, fun _ => rfl, fun v hv => ?_⟩⟩
  · cases hx
  · exact absurd rfl hne
  · cases hv

theorem Sound.step {s t : State} {a : Action} (hs : Sound size clamper s)
    (h : State.step size ourLUID clamper s a = some t) : Sound size clamper t := by
  have hmoves := moves_of_step h
  refine ⟨?_, fun f => ?_⟩
  · cases hmoves with
    | @force family mtu hplace =>
      have hmin := minMTU_le_nlMTU size family mtu
      have hpos : 0 < minMTU family := by cases family <;> decide
      have hshared := @Shared.forceMTU s hs.shared family (nlMTU size family mtu).toNat (by omega)
      exact ⟨hshared.nonneg, hshared.forced⟩
    | _ => exact ⟨hs.shared.nonneg, hs.shared.forced⟩
  · by_cases hf : f = a.family
    · subst hf
      exact hmoves.own (hs.applied a.family)
    · obtain ⟨hmonitor, hrow, hmtu⟩ := hmoves.others hf
      have happlied := hs.applied f
      rw [AppliedAt] at happlied ⊢
      rw [hmonitor, hrow, hmtu]
      exact happlied

theorem Sound.forced_eq_none {s : State} (hs : Sound size clamper s) (hclamper : clamper = false) :
    s.forced = none := by
  rcases hs.shared.forced with ⟨hnone, -⟩ | ⟨f, hf, -⟩
  · exact hnone
  · rw [(hs.applied f).unclamped hclamper] at hf
    exact absurd hf (by decide)

/-- The rows of the tunnel's interface never have less than IP needs. Whenever no `doIt` is between
its two settings, the device of the userspace backend was told the smallest MTU of the rows. -/
theorem device_has_smallest_mtu {s : State} {as : List Action}
    (h : exec (State.step size ourLUID clamper) {} as = some s) :
    (∀ f v, s.rows f = some v → minMTU f ≤ v.toNat) ∧ (clamper = false → s.forced = none) ∧
    (clamper = true → (∀ f, (s.monitors f).forces = false) →
      s.forced = none ∧ (∀ f, s.rows f = none) ∨
      ∃ f v, s.rows f = some v ∧ s.forced = some (v.toNat : Int) ∧
        ∀ g w, s.rows g = some w → v.toNat ≤ w.toNat) := by
  have hs : Sound size clamper s := invariant (fun _ _ _ hs h => hs.step h) .initial h
  have hpos : ∀ {f v}, s.rows f = some v → minMTU f ≤ v.toNat := by
    intro f v hv
    obtain ⟨mtu, rfl⟩ := (hs.applied f).known v hv
    exact minMTU_le_nlMTU size f mtu
  refine ⟨fun f v => hpos, hs.forced_eq_none, fun hclamper hno => ?_⟩
  have hmtus : ∀ f, s.mtus f = (s.rows f).elim 0 fun v => v.toNat := fun f =>
    (hs.applied f).clamped hclamper (hno f)
  have hrows : ∀ {f v}, s.rows f = some v → s.mtus f = v.toNat ∧ 0 < s.mtus f := by
    intro f v hv
    have hmin := hpos hv
    have hmin' : 0 < minMTU f := by cases f <;> decide
    have hmtu := hmtus f
    rw [hv] at hmtu
    exact ⟨hmtu, by simp only [Option.elim_some] at hmtu; omega⟩
  rcases hs.shared.forced with ⟨hnone, hzero⟩ | ⟨f, hf, hforced, hleast⟩
  · refine .inl ⟨hnone, fun f => ?_⟩
    cases hrow : s.rows f with
    | none => rfl
    | some v => exact absurd (hrows hrow).2 (by rw [hzero f]; decide)
  · refine .inr ?_
    cases hrow : s.rows f with
    | none =>
      have hmtu := hmtus f
      rw [hrow] at hmtu
      exact absurd hf (by rw [hmtu]; decide)
    | some v =>
      refine ⟨f, v, hrow, by rw [hforced, (hrows hrow).1], fun g w hw => ?_⟩
      have hle := hleast g (hrows hw).2
      rw [(hrows hrow).1, (hrows hw).1] at hle
      omega

def throughFive : List (ForwardRow Unit) :=
  [{ route := ⟨5, ⟨.v4 0, 1⟩, .v4 0xC0000201⟩, index := 3 },
  { route := ⟨5, ⟨.v6 0 [], 1⟩, .v6 1 []⟩, index := 3 }]

def upWithMetric : Interfaces := ⟨fun _ => some ifOperStatusUp, fun _ _ => some 10⟩

def onePass (family : AddressFamily) (mtu : UInt32) : List Action :=
  [.find family (some (throughFive, upWithMetric)), .interface family (some mtu),
  .ipInterface family true, .set family true, .force family]

def bothFamilies : List Action :=
  [.change .inet, .lock .inet] ++ (onePass .inet 1500).take 4 ++ [.change .inet6, .lock .inet6] ++
    onePass .inet6 1400 ++ [.force .inet]

theorem device_has_smallest_mtu_bothFamilies :
    ∃ s : State, exec (State.step .int64 9 true) {} bothFamilies = some s ∧
    s.rows .inet = some 1420 ∧ s.rows .inet6 = some 1320 ∧ s.forced = some 1320 ∧
    minMTU .inet ≤ 1420 := by
  refine ⟨_, rfl, by decide, by decide, by decide, ?_⟩
  have hs : exec (State.step .int64 9 true) {} bothFamilies = some _ := rfl
  exact (device_has_smallest_mtu hs).1 .inet 1420 (by decide)

end State

/-- Windows has settled for the family: its answers stay the same, and none is an error. -/
def Settled (family : AddressFamily) (table : List (ForwardRow Unit)) (net : Interfaces)
    (mtu : UInt32) (_ : State) : Action → Prop
  | .find f routes => f = family → routes = some (table, net)
  | .interface f answer => f = family → answer = some mtu
  | .ipInterface f ok | .set f ok => f = family → ok = true
  | .renew f => f ≠ family
  | .change _ | .lock _ | .force _ => True

def Monitor.Follows (m : Monitor) (found : UInt64 × UInt32) (mtu : UInt32) : Prop :=
  match m.place with
  | some .find => True
  | some .interface => (m.lastLUID, m.lastIndex) = found
  | some (.ipInterface x) | some (.set x) | some (.force x) =>
    (m.lastLUID, m.lastIndex) = found ∧ x = mtu
  | none => (m.lastLUID, m.lastIndex) = found ∧ m.lastMTU = mtu

namespace State

theorem Follows.of_place {m : Monitor} {p : Option Place} {found : UInt64 × UInt32} {mtu : UInt32}
    (hplace : m.place = p) (h : m.Follows found mtu) :
    Monitor.Follows { m with place := p } found mtu := by
  subst hplace
  exact h

theorem Moves.follows {s t : State} {a : Action} (h : Moves size ourLUID clamper s a t)
    {family : AddressFamily} {table : List (ForwardRow Unit)} {net : Interfaces} {mtu : UInt32}
    (hsettled : Settled family table net mtu s a)
    (hroute : (findDefaultLUID net family ourLUID table).1 ≠ 0) (hmtu : 0 < mtu)
    (hs : (s.monitors family).Follows (findDefaultLUID net family ourLUID table) mtu) :
    (t.monitors family).Follows (findDefaultLUID net family ourLUID table) mtu := by
  by_cases hfamily : family = a.family
  · cases h with
    | change f =>
      subst hfamily
      rw [update_monitors]
      exact hs
    | lock hplace =>
      subst hfamily
      rw [update_monitors]
      trivial
    | findError hplace | interfaceError hplace | setError hplace =>
      subst hfamily
      cases hsettled rfl
    | find hplace =>
      subst hfamily
      cases hsettled rfl
      rw [update_monitors, if_pos hroute]
      rfl
    | interface hplace =>
      subst hfamily
      cases hsettled rfl
      have hfound := Follows.of_place hplace hs
      rw [update_monitors]
      by_cases hlast : (s.monitors family).lastMTU = mtu
      · rw [if_neg (by simp [hlast])]
        exact ⟨hfound, hlast⟩
      · rw [if_pos ⟨hmtu, hlast⟩]
        exact ⟨hfound, rfl⟩
    | ipInterface ok hplace =>
      subst hfamily
      cases hsettled rfl
      have hfound := Follows.of_place hplace hs
      rw [update_monitors]
      exact hfound
    | set hplace | setLast hplace | force hplace =>
      subst hfamily
      have hfound := Follows.of_place hplace hs
      rw [update_monitors]
      exact hfound
    | renew =>
      subst hfamily
      exact absurd rfl hsettled
  · rw [(h.others hfamily).1]
    exact hs

/-- Once Windows has settled for a family, one `doIt` is enough: when it has ended, and any
further ones, the row of the tunnel's interface has the MTU of the default route, whatever the
other family does. -/
theorem mtu_follows_route {s t : State} {hist as : List Action}
    (hs : exec (State.step size ourLUID clamper) {} hist = some s) {family : AddressFamily}
    {table : List (ForwardRow Unit)} {net : Interfaces} {mtu : UInt32}
    (hroute : (findDefaultLUID net family ourLUID table).1 ≠ 0) (hmtu : 0 < mtu)
    (hbegin : (s.monitors family).place = some .find)
    (hsettled : Along (State.step size ourLUID clamper) (Settled family table net mtu) s as)
    (h : exec (State.step size ourLUID clamper) s as = some t)
    (hend : (t.monitors family).place = none) :
    t.rows family = some (nlMTU size family mtu) ∧
      ((t.monitors family).lastLUID, (t.monitors family).lastIndex) =
        findDefaultLUID net family ourLUID table := by
  have hsound : Sound size clamper t := by
    have hsound : Sound size clamper s := invariant (fun _ _ _ hs h => hs.step h) .initial hs
    exact invariant (fun _ _ _ hs h => hs.step h) hsound h
  have hfollows : (t.monitors family).Follows (findDefaultLUID net family ourLUID table) mtu := by
    refine invariant_along (I := fun u =>
      (u.monitors family).Follows (findDefaultLUID net family ourLUID table) mtu)
      (fun u a v hu hC hstep => (moves_of_step hstep).follows hC hroute hmtu hu) ?_ hsettled h
    rw [Monitor.Follows, hbegin]
    trivial
  rw [Monitor.Follows, hend] at hfollows
  obtain ⟨hfound, hlast⟩ := hfollows
  refine ⟨?_, hfound⟩
  have hrow :=
    (hsound.applied family).last (forces_of_place hend (by simp))
      (by rw [hlast]; exact (UInt32.ne_of_lt hmtu).symm)
  rw [hrow, hlast]

theorem mtu_follows_route_onePass :
    ∃ s t : State, exec (State.step .int64 9 true) {} [.change .inet, .lock .inet] = some s ∧
    exec (State.step .int64 9 true) s (onePass .inet 1500) = some t ∧ t.rows .inet = some
      (nlMTU .int64 .inet 1500) := by
  refine ⟨_, _, rfl, rfl, ?_⟩
  have hs : exec (State.step .int64 9 true) {} [.change .inet, .lock .inet] = some _ := rfl
  have hsettled : ∀ u,
      Along (State.step .int64 9 true) (Settled .inet throughFive upWithMetric 1500) u
        (onePass .inet 1500) := by
    apply along_of_forall
    simp [onePass, Settled]
  exact (mtu_follows_route hs (by decide) (by decide) rfl (hsettled _) (by rfl) rfl).1

end State

end WireGuardWindows.Tunnel.MtuMonitor
