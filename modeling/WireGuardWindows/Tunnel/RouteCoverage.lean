import WireGuardWindows.Tunnel.RouteOwnership

/-!
# The routes a monitor keeps

While a family is complete, there is a route to each of its hosts through its gateway; while
the hosts are added one by one, those that have had their turn have one. Both are kept by every
step, whatever else is done to the table, as long as that leaves the routes or an excuse for
the ones that are gone.
-/

namespace WireGuardWindows.Tunnel.RouteMonitor
open GoStd Netip Conf Systems

structure Monitor.Control (m : Monitor) : Prop where
  callbacks : m.callbacks = true → m.stage = .started
  updating : ∀ todo pos moved failed, m.work = some ⟨false, todo, pos, moved, failed⟩ →
    m.stage = .constructing ∨ m.stage = .started
  removing : ∀ todo pos moved failed, m.work = some ⟨true, todo, pos, moved, failed⟩ →
    m.stage = .constructing ∨ m.stage = .removing
  deleting : ∀ todo pos moved failed, m.work = some ⟨true, todo, pos, moved, failed⟩ →
    ∀ i left, pos ≠ .adding i left
  emptied : ∀ todo pos moved failed, m.work = some ⟨true, todo, pos, moved, failed⟩ →
    ∀ i, i ∉ todo → (∀ previous left, pos ≠ .deleting i previous left) → (m.families i).owned = []
  gone : m.stage = .destroyed ∨ m.stage = .failed → m.work = none ∧ ∀ i, (m.families i).owned = []

section
variable {answer : AddressFamily → DefaultGateway} {present : Route → Bool} {m m' : Monitor}
  {a : Act} {effect : Effect}

theorem Monitor.Control.idle (hm : m.Control) (hconstructing : m.stage ≠ .constructing)
    (hstarted : m.stage ≠ .started) (hremoving : m.stage ≠ .removing) : m.work = none := by
  cases hw : m.work with
  | none => rfl
  | some w =>
    obtain ⟨removing, todo, pos, moved, failed⟩ := w
    cases removing with
    | false =>
      rcases hm.updating _ _ _ _ hw with h | h
      · exact absurd h hconstructing
      · exact absurd h hstarted
    | true =>
      rcases hm.removing _ _ _ _ hw with h | h
      · exact absurd h hconstructing
      · exact absurd h hremoving

theorem Monitor.Control.of_idle (hw : m.work = none)
    (hcallbacks : m.callbacks = true → m.stage = .started)
    (hgone : m.stage = .destroyed ∨ m.stage = .failed → ∀ i, (m.families i).owned = []) :
    m.Control where
  callbacks := hcallbacks
  updating _ _ _ _ h := by cases hw.symm.trans h
  removing _ _ _ _ h := by cases hw.symm.trans h
  deleting _ _ _ _ h := by cases hw.symm.trans h
  emptied _ _ _ _ h := by cases hw.symm.trans h
  gone h := ⟨hw, hgone h⟩

theorem Monitor.Control.of_update {todo pos moved failed} (hm : m.Control)
    (hw : m.work = some ⟨false, todo, pos, moved, failed⟩) {todo' pos' moved' failed'}
    (hw' : m'.work = some ⟨false, todo', pos', moved', failed'⟩) (hstage : m'.stage = m.stage)
    (hcallbacks : m'.callbacks = m.callbacks) : m'.Control where
  callbacks h := hstage ▸ hm.callbacks (hcallbacks ▸ h)
  updating _ _ _ _ _ := hstage ▸ hm.updating _ _ _ _ hw
  removing _ _ _ _ h := by cases hw'.symm.trans h
  deleting _ _ _ _ h := by cases hw'.symm.trans h
  emptied _ _ _ _ h := by cases hw'.symm.trans h
  gone h := by
    rw [hstage] at h
    cases (hm.gone h).1.symm.trans hw

theorem Monitor.Control.of_removal {todo pos moved failed} (hm : m.Control)
    (hw : m.work = some ⟨true, todo, pos, moved, failed⟩) {todo' pos' moved' failed'}
    (hw' : m'.work = some ⟨true, todo', pos', moved', failed'⟩) (hstage : m'.stage = m.stage)
    (hcallbacks : m'.callbacks = m.callbacks) (hdeleting : ∀ i left, pos' ≠ .adding i left)
    (hemptied : ∀ i, i ∉ todo' → (∀ previous left, pos' ≠ .deleting i previous left) →
      (m'.families i).owned = []) :
    m'.Control where
  callbacks h := hstage ▸ hm.callbacks (hcallbacks ▸ h)
  updating _ _ _ _ h := by cases hw'.symm.trans h
  removing _ _ _ _ _ := hstage ▸ hm.removing _ _ _ _ hw
  deleting _ _ _ _ h := by
    cases hw'.symm.trans h
    exact hdeleting
  emptied _ _ _ _ h := by
    cases hw'.symm.trans h
    exact hemptied
  gone h := by
    rw [hstage] at h
    cases (hm.gone h).1.symm.trans hw

theorem Monitor.Control.of_same (hm : m.Control) (hw : m'.work = m.work)
    (hstage : m'.stage = m.stage) (hcallbacks : m'.callbacks = m.callbacks)
    (howned : ∀ i, (m'.families i).owned = (m.families i).owned) :
    m'.Control where
  callbacks h := hstage ▸ hm.callbacks (hcallbacks ▸ h)
  updating _ _ _ _ h := hstage ▸ hm.updating _ _ _ _ (hw ▸ h)
  removing _ _ _ _ h := hstage ▸ hm.removing _ _ _ _ (hw ▸ h)
  deleting _ _ _ _ h := hm.deleting _ _ _ _ (hw ▸ h)
  emptied _ _ _ _ h i := howned i ▸ hm.emptied _ _ _ _ (hw ▸ h) i
  gone h := by
    obtain ⟨hidle, hempty⟩ := hm.gone (hstage ▸ h)
    exact ⟨hw.trans hidle, fun i => (howned i).trans (hempty i)⟩

theorem Monitor.Control.to_stage (stage : Stage) (hw : m'.work = none) (hstage : m'.stage = stage)
    (hcallbacks : m'.callbacks = false ∨ stage = .started)
    (hgone : stage ≠ .destroyed ∧ stage ≠ .failed) : m'.Control := by
  refine .of_idle hw (fun h => ?_) fun h => ?_
  · rw [hstage]
    exact hcallbacks.resolve_left (by simp [h])
  · rw [hstage] at h
    exact absurd h (not_or.mpr hgone)

theorem Monitor.Control.not_callbacks (hm : m.Control) (h : m.stage ≠ .started) :
    m.callbacks = false :=
  Bool.eq_false_iff.mpr fun hcallbacks => h (hm.callbacks hcallbacks)

theorem Monitor.Control.serving (hm : m.Control) {stage : Stage} (hstage : m.stage = stage)
    (h : stage ≠ .constructing ∧ stage ≠ .started ∧ stage ≠ .removing) :
    m.work = none ∧ m.callbacks = false := by
  subst hstage
  exact ⟨hm.idle h.1 h.2.1 h.2.2, hm.not_callbacks h.2.1⟩

theorem bump_stage (late : Bool) (m : Monitor) :
    (m.bump late).stage = m.stage ∧ (m.bump late).callbacks = m.callbacks := by
  rw [Monitor.bump]
  split_ifs <;> exact ⟨rfl, rfl⟩

theorem Monitor.Control.adding (hm : m.Control) {removing todo i left moved failed}
    (hw : m.work = some ⟨removing, todo, .adding i left, moved, failed⟩) : removing = false := by
  cases removing with
  | false => rfl
  | true => exact absurd rfl (hm.deleting _ _ _ _ hw i left)

theorem Monitor.Control.serve (hm : m.Control) {stage : Stage} (hstage : m.stage = stage)
    (h : stage ≠ .constructing ∧ stage ≠ .started ∧ stage ≠ .removing) (hw : m'.work = m.work)
    (hcallbacks : m'.callbacks = m.callbacks)
    (hgone : m'.stage ≠ .destroyed ∧ m'.stage ≠ .failed) : m'.Control := by
  obtain ⟨hidle, hunset⟩ := hm.serving hstage h
  exact .to_stage m'.stage (hw.trans hidle) rfl (.inl (hcallbacks.trans hunset)) hgone

theorem Monitor.Control.to_removal (hw : m'.work = some { removing := true })
    (hstage : m'.stage = .constructing ∨ m'.stage = .removing) (hcallbacks : m'.callbacks = false) :
    m'.Control where
  callbacks h := by cases hcallbacks.symm.trans h
  updating _ _ _ _ h := by cases hw.symm.trans h
  removing _ _ _ _ _ := hstage
  deleting _ _ _ _ h i left := by
    cases hw.symm.trans h
    exact fun h => by cases h
  emptied _ _ _ _ h i hi := by
    cases hw.symm.trans h
    cases i <;> exact absurd hi (by decide)
  gone h := by rcases hstage with hs | hs <;> rw [hs] at h <;> exact absurd h (by decide)

theorem Monitor.Control.to_update (hw : m'.work = some {})
    (hstage : m'.stage = .constructing ∨ m'.stage = .started)
    (hcallbacks : m'.callbacks = true → m'.stage = .started) : m'.Control where
  callbacks := hcallbacks
  updating _ _ _ _ _ := hstage
  removing _ _ _ _ h := by cases hw.symm.trans h
  deleting _ _ _ _ h := by cases hw.symm.trans h
  emptied _ _ _ _ h := by cases hw.symm.trans h
  gone h := by rcases hstage with hs | hs <;> rw [hs] at h <;> exact absurd h (by decide)

theorem Monitor.Control.create (config : Config) (ourLUID : UInt64) :
    (Monitor.create config ourLUID).Control :=
  .to_update rfl (.inl rfl) fun h => by cases h

theorem Monitor.Control.moves (hm : m.Control) (h : Moves answer present m a m' effect) :
    m'.Control := by
  cases h with
  | lookupError hw | lookupSame hw | lookupMoved hw | lookupAgain hw | deletedAll hw =>
    exact hm.of_update hw rfl rfl rfl
  | addExists _ hw | addFails hw | added hw | addSkipped hw | addedAll hw =>
    obtain rfl := hm.adding hw
    exact hm.of_update hw rfl rfl rfl
  | @deleteRoute removing todo i previous left moved failed host succeeds hw =>
    cases removing with
    | false => exact hm.of_update hw rfl rfl rfl
    | true =>
      refine hm.of_removal hw rfl rfl rfl (fun j left h => by cases h) fun j hj hpos => ?_
      refine hm.emptied _ _ _ _ hw j hj fun previous' left' heq => ?_
      cases heq
      exact hpos _ _ rfl
  | @removeNext i todo moved failed hw =>
    refine hm.of_removal hw rfl rfl rfl (fun j left h => by cases h) fun j hj hpos => ?_
    refine hm.emptied _ _ _ _ hw j (fun hmem => ?_) fun previous left h => by cases h
    rcases List.mem_cons.mp hmem with rfl | hmem
    · exact hpos _ _ rfl
    · exact hj hmem
  | @removedAll i todo previous moved failed hw =>
    refine hm.of_removal hw rfl rfl rfl (fun j left h => by cases h) fun j hj _ => ?_
    rw [Monitor.working, setFamily_families]
    split_ifs with heq
    · rfl
    · refine hm.emptied _ _ _ _ hw j hj fun previous' left' hpos => ?_
      cases hpos
      exact heq rfl
  | rejected binds hw hstage =>
    have hcallbacks := hm.not_callbacks (by rw [hstage]; decide)
    refine .of_idle rfl (fun h => by simp [hcallbacks] at h) fun _ i => ?_
    exact hm.emptied _ _ _ _ hw i List.not_mem_nil fun previous left h => by cases h
  | reject binds hw hstage =>
    exact .to_removal rfl (.inl hstage) (hm.not_callbacks (by rw [hstage]; decide))
  | constructed binds hw hstage =>
    exact .to_stage .built rfl rfl (.inl (hm.not_callbacks (by rw [hstage]; decide))) (by decide)
  | @removed removing moved failed binds hw hstage =>
    have hcallbacks := hm.not_callbacks (by rw [hstage]; decide)
    refine .of_idle rfl (fun h => by simp [hcallbacks] at h) fun _ i => ?_
    cases removing with
    | true => exact hm.emptied _ _ _ _ hw i List.not_mem_nil fun previous left h => by cases h
    | false =>
      have hserving := hm.updating _ _ _ _ hw
      rw [hstage] at hserving
      exact absurd hserving (by decide)
  | @updated removing moved failed binds hw =>
    refine .of_idle rfl hm.callbacks fun h => ?_
    cases (hm.gone h).1.symm.trans hw
  | @hostDeleted destination i late hmem hw =>
    refine hm.of_same rfl rfl rfl fun j => ?_
    dsimp only
    rw [setFamily_families]
    split_ifs with hj
    · rw [hj]
    · rfl
  | bump late =>
    obtain ⟨hfamilies, hwork⟩ := bump_frame late { m with notices := m.notices.erase _ }
    obtain ⟨hstage, hcallbacks⟩ := bump_stage late { m with notices := m.notices.erase _ }
    exact hm.of_same hwork hstage hcallbacks fun j => by rw [hfamilies]
  | update hupdates hw hcallbacks =>
    exact .to_update rfl (.inr (hm.callbacks hcallbacks)) hm.callbacks
  | new config ourLUID => exact .create config ourLUID
  | pin ok hstage hw =>
    refine hm.serve hstage (by decide) rfl rfl ?_
    dsimp only
    split_ifs <;> decide
  | setCallbacks ok hstage hw => exact .to_stage .started hw rfl (.inr rfl) (by decide)
  | remove ok hstage hw => exact .to_removal rfl (.inr rfl) (hm.serving hstage (by decide)).2
  | destroyUnstarted hstage hw =>
    rcases hstage with h | h <;> exact hm.serve h (by decide) rfl rfl (by simp)
  | destroyStarted hstage hw => exact .to_stage .unregisterRoute hw rfl (.inl rfl) (by decide)
  | otherDeleted | fire | burst | updateVoid => exact hm.of_same rfl rfl rfl fun j => rfl
  | _ => exact hm.serve (by assumption) (by decide) rfl rfl (by simp)

def Monitor.Keeping (m : Monitor) : Prop :=
  m.stage ≠ .destroyed ∧ m.stage ≠ .failed ∧ ∀ todo pos moved failed, m.work ≠
    some ⟨true, todo, pos, moved, failed⟩

/-- `P` are the entries of the table; `E` excuses a missing route to a host. -/
structure Covered (P : Route → Prop) (E : Prefix → Prop) (m : Monitor) : Prop where
  complete : m.Keeping → ∀ i, (m.families i).incomplete = false → (m.families i).gateway.luid ≠ 0 →
    ∀ host ∈ (m.families i).hosts, P ((m.families i).gateway.route host) ∨ E host
  adding : ∀ removing todo i left moved failed, m.work =
    some ⟨removing, todo, .adding i left, moved, failed⟩ →
    (m.families i).gateway.luid ≠ 0 →
      ∀ host ∈ (m.families i).hosts, host ∈ left ∨ P ((m.families i).gateway.route host) ∨ E host
  busyDeleting : ∀ todo i previous left moved failed,
    m.work = some ⟨false, todo, .deleting i previous left, moved, failed⟩ →
    (m.families i).incomplete = true
  busyAdding : ∀ removing todo i left moved failed, m.work =
    some ⟨removing, todo, .adding i left, moved, failed⟩ →
    (m.families i).incomplete = true

section
variable {P P' : Route → Prop} {E E' : Prefix → Prop}

theorem Covered.create (P : Route → Prop) (E : Prefix → Prop) (config : Config) (ourLUID : UInt64) :
    Covered P E (Monitor.create config ourLUID) where
  complete _ i _ hluid := absurd rfl hluid
  adding _ _ _ _ _ _ h := by cases h
  busyDeleting _ _ _ _ _ _ h := by cases h
  busyAdding _ _ _ _ _ _ h := by cases h

def DefaultRouteFamily.Same (f g : DefaultRouteFamily) : Prop :=
  g.gateway = f.gateway ∧ g.hosts = f.hosts ∧ g.incomplete = f.incomplete

/-- The step leaves the routes to the hosts of a family, or an excuse for those that are gone. -/
abbrev Kept (P P' : Route → Prop) (E E' : Prefix → Prop) (f : DefaultRouteFamily) : Prop :=
  ∀ host ∈ f.hosts, P (f.gateway.route host) ∨ E host → P' (f.gateway.route host) ∨ E' host

theorem kept_of_step (hP : ∀ r, P r → P' r ∨ E' r.destination ∨ effect = .delete r)
    (hE : ∀ host, E host → E' host ∨ ∃ late, a = .handle (.deleted host) late)
    {f : DefaultRouteFamily}
    (hdelete : ∀ host ∈ f.hosts, effect ≠ .delete (f.gateway.route host))
    (hhandle : ∀ host ∈ f.hosts, ∀ late, a ≠ .handle (.deleted host) late) :
    Kept P P' E E' f := by
  intro host hhost hc
  rcases hc with hc | hc
  · exact (hP _ hc).imp_right fun h => h.resolve_right (hdelete host hhost)
  · refine .inr ((hE host hc).resolve_right fun h => ?_)
    obtain ⟨late, h⟩ := h
    exact hhandle host hhost late h

theorem Covered.of_same (hm : Covered P E m) (hfamilies : ∀ i, (m.families i).Same (m'.families i))
    (hkeeping : m'.Keeping → m.Keeping)
    (hwork : m'.work = m.work ∨ m'.work = none ∨ ∃ removing todo moved failed,
      m'.work = some ⟨removing, todo, .next, moved, failed⟩)
    (hkept : ∀ i, Kept P P' E E' (m.families i)) : Covered P' E' m' where
  complete hk i := by
    obtain ⟨hgateway, hhosts, hincomplete⟩ := hfamilies i
    rw [hgateway, hhosts, hincomplete]
    intro hc hluid host hhost
    exact hkept i host hhost (hm.complete (hkeeping hk) i hc hluid host hhost)
  adding removing todo i left moved failed hw := by
    obtain ⟨hgateway, hhosts, hincomplete⟩ := hfamilies i
    rw [hgateway, hhosts]
    intro hluid host hhost
    rcases hwork with h | h | ⟨_, _, _, _, h⟩
    · exact (hm.adding _ _ _ _ _ _ (h ▸ hw) hluid host hhost).imp_right (hkept i host hhost)
    · cases h.symm.trans hw
    · cases h.symm.trans hw
  busyDeleting todo i previous left moved failed hw := by
    rw [(hfamilies i).2.2]
    rcases hwork with h | h | ⟨_, _, _, _, h⟩
    · exact hm.busyDeleting _ _ _ _ _ _ (h ▸ hw)
    · cases h.symm.trans hw
    · cases h.symm.trans hw
  busyAdding removing todo i left moved failed hw := by
    rw [(hfamilies i).2.2]
    rcases hwork with h | h | ⟨_, _, _, _, h⟩
    · exact hm.busyAdding _ _ _ _ _ _ (h ▸ hw)
    · cases h.symm.trans hw
    · cases h.symm.trans hw

theorem keeping_of_removing {todo pos moved failed}
    (hw : m.work = some ⟨true, todo, pos, moved, failed⟩) : ¬ m.Keeping :=
  fun h => h.2.2 _ _ _ _ hw

theorem keeping_of_work {removing todo pos moved failed todo' pos' moved' failed'}
    (hw : m.work = some ⟨removing, todo, pos, moved, failed⟩)
    (hw' : m'.work = some ⟨removing, todo', pos', moved', failed'⟩) (hstage : m'.stage = m.stage)
    (h : m'.Keeping) : m.Keeping := by
  refine ⟨hstage ▸ h.1, hstage ▸ h.2.1, fun _ _ _ _ hremoving => ?_⟩
  cases hw.symm.trans hremoving
  exact h.2.2 _ _ _ _ hw'

theorem keeping_of_stage {stage : Stage} (hstage : m.stage = stage)
    (h : stage ≠ .destroyed ∧ stage ≠ .failed) (hk : m'.Keeping) (hwork : m'.work = m.work) :
    m.Keeping := by
  subst hstage
  exact ⟨h.1, h.2, hwork ▸ hk.2.2⟩

theorem keeping_of_idle (hw : m.work = none) (hstage : m.stage ≠ .destroyed ∧ m.stage ≠ .failed) :
    m.Keeping :=
  ⟨hstage.1, hstage.2, fun _ _ _ _ h => by cases hw.symm.trans h⟩

section
variable {i : AddressFamily} (hm : Covered P E m)
  (hother : ∀ j, j ≠ i → m'.families j = m.families j) (hkeeping : m'.Keeping → m.Keeping)
  (hkept : ∀ j, j ≠ i → Kept P P' E E' (m.families j))
include hm hother hkeeping hkept

theorem Covered.complete_of_other (hcomplete : (m'.families i).incomplete = false →
      (m'.families i).gateway.luid ≠ 0 →
      ∀ host ∈ (m'.families i).hosts, P' ((m'.families i).gateway.route host) ∨ E' host)
    (hk : m'.Keeping) (j : AddressFamily) (hc : (m'.families j).incomplete = false)
    (hluid : (m'.families j).gateway.luid ≠ 0) :
    ∀ host ∈ (m'.families j).hosts, P' ((m'.families j).gateway.route host) ∨ E' host := by
  by_cases hj : j = i
  · subst hj
    exact hcomplete hc hluid
  · rw [hother j hj] at hc hluid ⊢
    intro host hhost
    exact hkept j hj host hhost (hm.complete (hkeeping hk) j hc hluid host hhost)

theorem Covered.to_next (hw : m'.work = none ∨ ∃ removing todo moved failed,
      m'.work = some ⟨removing, todo, .next, moved, failed⟩)
    (hcomplete : (m'.families i).incomplete = false → (m'.families i).gateway.luid ≠ 0 →
      ∀ host ∈ (m'.families i).hosts, P' ((m'.families i).gateway.route host) ∨ E' host) :
    Covered P' E' m' where
  complete := hm.complete_of_other hother hkeeping hkept hcomplete
  adding _ _ _ _ _ _ h := by rcases hw with hw | ⟨_, _, _, _, hw⟩ <;> cases hw.symm.trans h
  busyDeleting _ _ _ _ _ _ h := by rcases hw with hw | ⟨_, _, _, _, hw⟩ <;> cases hw.symm.trans h
  busyAdding _ _ _ _ _ _ h := by rcases hw with hw | ⟨_, _, _, _, hw⟩ <;> cases hw.symm.trans h

theorem Covered.to_deleting {removing todo previous left moved failed}
    (hw : m'.work = some ⟨removing, todo, .deleting i previous left, moved, failed⟩)
    (hincomplete : (m'.families i).incomplete = true) : Covered P' E' m' where
  complete := hm.complete_of_other hother hkeeping hkept fun hc => by
    cases hincomplete.symm.trans hc
  adding _ _ _ _ _ _ h := by cases hw.symm.trans h
  busyDeleting _ _ _ _ _ _ h := by
    cases hw.symm.trans h
    exact hincomplete
  busyAdding _ _ _ _ _ _ h := by cases hw.symm.trans h

theorem Covered.to_adding {removing todo left moved failed}
    (hw : m'.work = some ⟨removing, todo, .adding i left, moved, failed⟩)
    (hincomplete : (m'.families i).incomplete = true)
    (hadding : (m'.families i).gateway.luid ≠ 0 → ∀ host ∈ (m'.families i).hosts,
      host ∈ left ∨ P' ((m'.families i).gateway.route host) ∨ E' host) : Covered P' E' m' where
  complete := hm.complete_of_other hother hkeeping hkept fun hc => by
    cases hincomplete.symm.trans hc
  adding _ _ _ _ _ _ h := by
    cases hw.symm.trans h
    exact hadding
  busyDeleting _ _ _ _ _ _ h := by cases hw.symm.trans h
  busyAdding _ _ _ _ _ _ h := by
    cases hw.symm.trans h
    exact hincomplete

end

theorem Covered.of_not_keeping (h : ¬ m'.Keeping)
    (hadding : ∀ removing todo i left moved failed,
      m'.work ≠ some ⟨removing, todo, .adding i left, moved, failed⟩)
    (hdeleting : ∀ todo pos moved failed, m'.work ≠ some ⟨false, todo, pos, moved, failed⟩) :
    Covered P' E' m' where
  complete hk := absurd hk h
  adding _ _ _ _ _ _ hw := absurd hw (hadding _ _ _ _ _ _)
  busyDeleting _ _ _ _ _ _ hw := absurd hw (hdeleting _ _ _ _)
  busyAdding _ _ _ _ _ _ hw := absurd hw (hadding _ _ _ _ _ _)

theorem setFamily_self (m : Monitor) (i : AddressFamily) (f : DefaultRouteFamily) :
    (m.setFamily i f).families i = f := by
  rw [setFamily_families, if_pos rfl]

theorem setFamily_other (m : Monitor) {i j : AddressFamily} (f : DefaultRouteFamily) (h : j ≠ i) :
    (m.setFamily i f).families j = m.families j := by
  rw [setFamily_families, if_neg h]

/-- What a monitor deletes for one family is no route to a host of the other. -/
theorem Monitor.WF.route_ne (hm : m.WF) {i j : AddressFamily} (hij : j ≠ i) {host other : Prefix}
    {g g' : DefaultGateway} (hhost : host ∈ (m.families i).hosts)
    (hother : other ∈ (m.families j).hosts) : g'.route other ≠ g.route host := by
  intro heq
  have heq : other = host := congrArg Route.destination heq
  exact hij ((hm.hosts j other hother).eq (heq ▸ hm.hosts i host hhost))

/-- The steps of a monitor keep its routes covered: `P` are the entries before the step and `P'`
those after it. -/
theorem Covered.moves (hm : Covered P E m) (hwf : m.WF) (hcontrol : m.Control)
    (h : Moves answer present m a m' effect) (hpresent : ∀ r, present r = true → P r)
    (hP : ∀ r, P r → P' r ∨ E' r.destination ∨ effect = .delete r)
    (hadd : ∀ r, effect = .add r → P' r)
    (hE : ∀ host, E host → E' host ∨ ∃ late, a = .handle (.deleted host) late) :
    Covered P' E' m' := by
  have hkept (i : AddressFamily) := @kept_of_step a effect P P' E E' hP hE (m.families i)
  have hsame (f : DefaultRouteFamily) : f.Same f := ⟨rfl, rfl, rfl⟩
  cases h with
  | lookupError hw | lookupSame hw | addFails hw =>
    exact hm.of_same (fun _ => hsame _) (keeping_of_work hw rfl rfl) (.inr (.inr ⟨_, _, _, _, rfl⟩))
      fun i => hkept i (by simp) (by simp)
  | lookupMoved hw =>
    refine hm.to_deleting (fun j hj => setFamily_other m _ hj) (keeping_of_work hw rfl rfl)
      (fun j _ => hkept j (by simp) (by simp)) rfl ?_
    rw [Monitor.working, setFamily_self]
  | lookupAgain hw =>
    refine hm.to_adding (fun j hj => setFamily_other m _ hj) (keeping_of_work hw rfl rfl)
      (fun j _ => hkept j (by simp) (by simp)) rfl ?_ ?_
    all_goals rw [Monitor.working, setFamily_self]
    exact fun _ host hhost => .inl hhost
  | @deleteRoute removing todo i previous left moved failed host succeeds hw hhost =>
    have hheld : host ∈ (m.families i).hosts := by
      refine hwf.held i host ?_
      rw [holding_deleting hw, if_pos rfl]
      exact hhost
    cases removing with
    | true =>
      exact .of_not_keeping (keeping_of_removing rfl) (fun _ _ _ _ _ _ h => by cases h)
        fun _ _ _ _ h => by cases h
    | false =>
      refine hm.to_deleting (fun _ _ => rfl) (keeping_of_work hw rfl rfl)
        (fun j hj => hkept j (fun other hother h => ?_) (by simp)) rfl
        (hm.busyDeleting _ _ _ _ _ _ hw)
      cases succeeds with
      | false => cases h
      | true => exact hwf.route_ne hj hheld hother (Effect.delete.inj h).symm
  | addExists fails hw hluid hthere =>
    refine hm.to_adding (fun _ _ => rfl) (keeping_of_work hw rfl rfl)
      (fun j _ => hkept j (by simp) (by simp)) rfl (hm.busyAdding _ _ _ _ _ _ hw)
      fun hluid other hother => ?_
    have hkept := hkept _ (by simp) (by simp) other hother
    rcases hm.adding _ _ _ _ _ _ hw hluid other hother with h | h
    · rcases List.mem_cons.mp h with rfl | h
      · exact .inr (hkept (.inl (hpresent _ hthere)))
      · exact .inl h
    · exact .inr (hkept h)
  | added hw hluid hthere =>
    refine hm.to_adding (fun j hj => setFamily_other m _ hj) (keeping_of_work hw rfl rfl)
      (fun j _ => hkept j (by simp) (by simp)) rfl ?_ ?_
    all_goals rw [Monitor.working, setFamily_self]
    · exact hm.busyAdding _ _ _ _ _ _ hw
    · intro hluid other hother
      rcases hm.adding _ _ _ _ _ _ hw hluid other hother with h | h
      · rcases List.mem_cons.mp h with rfl | h
        · exact .inr (.inl (hadd _ rfl))
        · exact .inl h
      · exact .inr (hkept _ (by simp) (by simp) other hother h)
  | addSkipped hw hluid =>
    exact hm.to_adding (fun _ _ => rfl) (keeping_of_work hw rfl rfl)
      (fun j _ => hkept j (by simp) (by simp)) rfl (hm.busyAdding _ _ _ _ _ _ hw)
      fun h => absurd hluid h
  | addedAll hw =>
    refine hm.to_next (fun j hj => setFamily_other m _ hj) (keeping_of_work hw rfl rfl)
      (fun j _ => hkept j (by simp) (by simp)) (.inr ⟨_, _, _, _, rfl⟩) fun _ => ?_
    rw [Monitor.working, setFamily_self]
    intro hluid other hother
    rcases hm.adding _ _ _ _ _ _ hw hluid other hother with h | h
    · exact absurd h List.not_mem_nil
    · exact hkept _ (by simp) (by simp) other hother h
  | deletedAll hw =>
    refine hm.to_adding (fun j hj => setFamily_other m _ hj) (keeping_of_work hw rfl rfl)
      (fun j _ => hkept j (by simp) (by simp)) rfl ?_ ?_
    all_goals rw [Monitor.working, setFamily_self]
    · exact hm.busyDeleting _ _ _ _ _ _ hw
    · exact fun _ host hhost => .inl hhost
  | removeNext hw | removedAll hw | reject binds hw | remove ok hstage hw =>
    exact .of_not_keeping (keeping_of_removing rfl) (fun _ _ _ _ _ _ h => by cases h)
      fun _ _ _ _ h => by cases h
  | rejected | removed =>
    exact .of_not_keeping (fun h => by simp [Monitor.Keeping] at h)
      (fun _ _ _ _ _ _ h => by cases h) fun _ _ _ _ h => by cases h
  | constructed binds hw hstage =>
    refine hm.of_same (fun _ => hsame _) (fun _ => ?_) (.inr (.inl rfl))
      fun i => hkept i (by simp) (by simp)
    exact ⟨by rw [hstage]; decide, by rw [hstage]; decide,
      fun _ _ _ _ h => by cases hw.symm.trans h⟩
  | updated binds hw hconstructing hremoving =>
    refine hm.of_same (fun _ => hsame _) (fun hk => ⟨hk.1, hk.2.1, fun _ _ _ _ h => ?_⟩)
      (.inr (.inl rfl)) fun i => hkept i (by simp) (by simp)
    exact (hcontrol.removing _ _ _ _ h).elim hconstructing hremoving
  | @hostDeleted destination i late hmem hw hhost =>
    refine hm.to_next (fun j hj => setFamily_other m _ hj)
      (fun hk => keeping_of_idle hw ⟨hk.1, hk.2.1⟩)
      (fun j hj => hkept j (by simp) fun other hother _ h => ?_) (.inl hw) fun hc => ?_
    · cases h
      exact hj ((hwf.hosts j _ hother).eq (hwf.hosts i _ hhost))
    · dsimp only at hc
      rw [setFamily_self] at hc
      cases hc
  | @otherDeleted destination late hmem hw hhost =>
    refine hm.of_same (fun _ => hsame _) (fun hk => keeping_of_idle hw ⟨hk.1, hk.2.1⟩) (.inl rfl)
      fun j => hkept j (by simp) fun other hother _ h => ?_
    cases h
    exact hhost j hother
  | @bump notice late hmem hnotice =>
    obtain ⟨hfamilies, hwork⟩ := bump_frame late { m with notices := m.notices.erase notice }
    obtain ⟨hstage, -⟩ := bump_stage late { m with notices := m.notices.erase notice }
    refine hm.of_same (fun i => ?_) (fun hk => ⟨hstage ▸ hk.1, hstage ▸ hk.2.1, hwork ▸ hk.2.2⟩)
      (.inl hwork) fun j => hkept j (by simp) fun host _ _ h => ?_
    · rw [hfamilies]
      exact hsame _
    · cases h
      exact hnotice host rfl
  | update hupdates hw =>
    exact hm.of_same (fun _ => hsame _) (fun hk => keeping_of_idle hw ⟨hk.1, hk.2.1⟩)
      (.inr (.inr ⟨_, _, _, _, rfl⟩)) fun i => hkept i (by simp) (by simp)
  | new config ourLUID hstage => exact .create P' E' config ourLUID
  | fire | burst | updateVoid =>
    exact hm.of_same (fun _ => hsame _) id (.inl rfl) fun i => hkept i (by simp) (by simp)
  | destroyUnstarted hstage =>
    refine hm.of_same (fun _ => hsame _) (fun hk => ?_) (.inl rfl)
      fun i => hkept i (by simp) (by simp)
    rcases hstage with h | h <;> exact keeping_of_stage h (by decide) hk rfl
  | _ =>
    refine hm.of_same (fun _ => hsame _) (fun hk => ?_) (.inl rfl)
      fun i => hkept i (by simp) (by simp)
    exact keeping_of_stage (by assumption) (by decide) hk rfl

end

end

end WireGuardWindows.Tunnel.RouteMonitor
