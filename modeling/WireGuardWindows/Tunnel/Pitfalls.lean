import WireGuardWindows.Conf.Config
import WireGuardWindows.GoStd.NetipMask
import WireGuardWindows.Tunnel.InterfaceWatcher

/-!
# The warning about weak host sends

`pitfallWeakHostSend` looks for the route of every endpoint and warns about the interface it
would take if the tunnel did not exist. The loop keeps the best route so far, and the data of
the last route that was the best so far and not through the tunnel. That is not the best route
outside the tunnel: it depends on the order of the table.
-/

namespace WireGuardWindows.Tunnel.Pitfalls
open GoStd Netip Conf
open Watcher (Family)

/-- `MibIPforwardRow2`; `address` is that of the destination prefix. -/
structure ForwardRow where
  interfaceLUID : UInt64
  address : Addr
  prefixLength : UInt8
  metric : UInt32

def ForwardRow.destination (r : ForwardRow) : Prefix := prefixFrom r.address r.prefixLength.toNat

def ifOperStatusUp : UInt32 := 1

structure IfRow where
  operStatus : UInt32
  ifAlias : Str

structure IPInterfaceRow where
  metric : UInt32
  forwardingEnabled : Bool
  weakHostSend : Bool

structure Interfaces where
  interface : UInt64 → Option IfRow
  ipInterface : UInt64 → Option IPInterfaceRow

structure EndpointRoute where
  addr : Addr
  name : Str := []
  lowestMetric : UInt32 := 0xFFFFFFFF
  highestCIDR : UInt8 := 0
  weakHostSend : Bool := false
  finalIsOurs : Bool := false

def endpoints (family : Family) (conf : Config) : List EndpointRoute :=
  conf.peers.filterMap fun peer =>
    match parseAddr peer.endpoint.host with
    | none => none
    | some addr =>
      if (addr.is4 ∧ family ≠ .v4) ∨ (addr.is6 ∧ family ≠ .v6) then none else some { addr := addr }

structure RowVars where
  ifrow : Option IfRow := none
  ifacerow : Option IPInterfaceRow := none
  metric : UInt32 := 0

section
variable (net : Interfaces) (ourLUID : UInt64)

def EndpointRoute.improve (e : EndpointRoute) (r : ForwardRow) (metric : UInt32) (ifrow : IfRow)
    (ifacerow : IPInterfaceRow) : EndpointRoute :=
  let e := { e with
    lowestMetric := metric, highestCIDR := r.prefixLength
    finalIsOurs := r.interfaceLUID == ourLUID }
  if e.finalIsOurs then e
  else { e with
    name := ifrow.ifAlias
    weakHostSend := ifacerow.forwardingEnabled || ifacerow.weakHostSend }

/-- `IPInterface` is called once for a row, and again if it failed. -/
def RowVars.fetch (v : RowVars) (r : ForwardRow) : RowVars :=
  match v.ifacerow with
  | some _ => v
  | none => match net.ipInterface r.interfaceLUID with
    | none => v
    | some ifacerow => { v with ifacerow := some ifacerow, metric := r.metric + ifacerow.metric }

def RowVars.visit (r : ForwardRow) (v : RowVars) (e : EndpointRoute) : RowVars × EndpointRoute :=
  if r.prefixLength < e.highestCIDR then (v, e)
  else if ¬ r.destination.contains e.addr then (v, e)
  else match v.ifrow.or (net.interface r.interfaceLUID) with
    | none => (v, e)
    | some ifrow =>
      let v := { v with ifrow := some ifrow }
      if ifrow.operStatus ≠ ifOperStatusUp then (v, e)
      else
        let v := v.fetch net r
        match v.ifacerow with
        | none => (v, e)
        | some ifacerow =>
          if r.prefixLength = e.highestCIDR ∧ e.lowestMetric < v.metric then (v, e)
          else (v, e.improve ourLUID r v.metric ifrow ifacerow)

def visitEndpoints (r : ForwardRow) : RowVars → List EndpointRoute → List EndpointRoute
  | _, [] => []
  | v, e :: es =>
    let (v, e) := v.visit net ourLUID r e
    e :: visitEndpoints r v es

def visitTable (routingTable : List ForwardRow) (es : List EndpointRoute) : List EndpointRoute :=
  routingTable.foldl (fun es r => visitEndpoints net ourLUID r {} es) es

/-- The keys of `problematicInterfaces`, which are the interfaces of the warnings. -/
def problematicInterfaces (family : Family) (conf : Config) (routingTable : List ForwardRow) :
    List Str :=
  ((visitTable net ourLUID routingTable (endpoints family conf)).filter fun e =>
    e.weakHostSend && e.finalIsOurs).map
    EndpointRoute.name

end

structure Offer where
  prefixLength : UInt8
  metric : UInt32
  ours : Bool
  weakHostSend : Bool
  name : Str

section
variable (net : Interfaces) (ourLUID : UInt64)

def offer (addr : Addr) (r : ForwardRow) : Option Offer :=
  if ¬ r.destination.contains addr then none
  else do
    let ifrow ← net.interface r.interfaceLUID
    if ifrow.operStatus ≠ ifOperStatusUp then none
    else do
      let ifacerow ← net.ipInterface r.interfaceLUID
      return {
        prefixLength := r.prefixLength
        metric := r.metric + ifacerow.metric
        ours := r.interfaceLUID == ourLUID
        weakHostSend := ifacerow.forwardingEnabled || ifacerow.weakHostSend
        name := ifrow.ifAlias }

end

def EndpointRoute.accept (e : EndpointRoute) (o : Offer) : EndpointRoute :=
  let e :=
    { e with lowestMetric := o.metric, highestCIDR := o.prefixLength, finalIsOurs := o.ours }
  if o.ours then e else { e with name := o.name, weakHostSend := o.weakHostSend }

def EndpointRoute.take (e : EndpointRoute) (o : Offer) : EndpointRoute :=
  if o.prefixLength < e.highestCIDR ∨
      (o.prefixLength = e.highestCIDR ∧ e.lowestMetric < o.metric) then e
  else e.accept o

structure RowVars.Of (net : Interfaces) (r : ForwardRow) (v : RowVars) : Prop where
  ifrow : v.ifrow = none ∨ v.ifrow = net.interface r.interfaceLUID
  ifacerow : v.ifacerow = none ∨
    ∃ row, v.ifacerow = some row ∧ net.ipInterface r.interfaceLUID = some row ∧
    v.metric = r.metric + row.metric

section
variable {net : Interfaces} {ourLUID : UInt64} {r : ForwardRow} {v : RowVars}

theorem RowVars.Of.or_interface (h : v.Of net r) :
    v.ifrow.or (net.interface r.interfaceLUID) = net.interface r.interfaceLUID := by
  rcases h.ifrow with hnone | hsome
  · rw [hnone, Option.none_or]
  · rw [hsome, Option.or_self]

theorem RowVars.Of.fetch (h : v.Of net r) :
    (v.fetch net r).Of net r ∧ (v.fetch net r).ifacerow = net.ipInterface r.interfaceLUID ∧
      ∀ row, net.ipInterface r.interfaceLUID = some row → (v.fetch net r).metric =
        r.metric + row.metric := by
  rw [RowVars.fetch]
  rcases h.ifacerow with hnone | ⟨row, hrow, hnet, hmetric⟩
  · rw [hnone]
    dsimp only
    cases hnet : net.ipInterface r.interfaceLUID with
    | none => exact ⟨h, hnone, nofun⟩
    | some row =>
      exact ⟨⟨h.ifrow, .inr ⟨row, rfl, hnet, rfl⟩⟩, rfl,
        fun row' heq => by rw [Option.some.inj heq]⟩
  · rw [hrow]
    refine ⟨h, hrow.trans hnet.symm, fun row' heq => ?_⟩
    rw [hmetric, Option.some.inj (hnet.symm.trans heq)]

/-- What a row is to an endpoint does not depend on what was looked up before. -/
theorem RowVars.Of.visit (h : v.Of net r) (e : EndpointRoute) :
    (v.visit net ourLUID r e).1.Of net r ∧
      (v.visit net ourLUID r e).2 = ((offer net ourLUID e.addr r).elim e e.take) := by
  rw [RowVars.visit, h.or_interface, offer]
  by_cases hcontains : r.destination.contains e.addr = true
  · rw [if_neg (not_not.mpr hcontains), if_neg (not_not.mpr hcontains)]
    cases hif : net.interface r.interfaceLUID with
    | none => split_ifs <;> exact ⟨h, rfl⟩
    | some ifrow =>
      have hv : RowVars.Of net r { v with ifrow := some ifrow } := ⟨.inr hif.symm, h.ifacerow⟩
      obtain ⟨hof, hiface, hmetric⟩ := hv.fetch
      dsimp only [bind, Option.bind]
      by_cases hup : ifrow.operStatus ≠ ifOperStatusUp
      · rw [if_pos hup, if_pos hup]
        split_ifs <;> exact ⟨by assumption, rfl⟩
      · rw [if_neg hup, if_neg hup, hiface]
        cases hip : net.ipInterface r.interfaceLUID with
        | none => split_ifs <;> exact ⟨by assumption, rfl⟩
        | some row =>
          dsimp only
          rw [hmetric row hip]
          change _ ∧ _ = e.take _
          rw [EndpointRoute.take]
          by_cases hshort : r.prefixLength < e.highestCIDR
          · rw [if_pos hshort, if_pos (.inl hshort)]
            exact ⟨h, rfl⟩
          · by_cases hworse : r.prefixLength = e.highestCIDR ∧
              e.lowestMetric < r.metric + row.metric
            · rw [if_neg hshort, if_pos hworse, if_pos (.inr hworse)]
              exact ⟨hof, rfl⟩
            · rw [if_neg hshort, if_neg hworse, if_neg (not_or.mpr ⟨hshort, hworse⟩)]
              exact ⟨hof, rfl⟩
  · rw [if_pos hcontains, if_pos hcontains]
    split_ifs <;> exact ⟨h, rfl⟩

theorem visitEndpoints_eq (h : v.Of net r) (es : List EndpointRoute) :
    visitEndpoints net ourLUID r v es = es.map fun e =>
      (offer net ourLUID e.addr r).elim e e.take := by
  induction es generalizing v with
  | nil => rfl
  | cons e es ih =>
    obtain ⟨hof, htake⟩ := h.visit e
    rw [visitEndpoints, List.map_cons, ← htake]
    exact congrArg _ (ih hof)

theorem take_addr (e : EndpointRoute) (o : Offer) : (e.take o).addr = e.addr := by
  rw [EndpointRoute.take, EndpointRoute.accept]
  dsimp only
  split_ifs <;> rfl

theorem visitTable_eq (routingTable : List ForwardRow) (es : List EndpointRoute) :
    visitTable net ourLUID routingTable es =
      es.map fun e =>
        (routingTable.filterMap (offer net ourLUID e.addr)).foldl EndpointRoute.take e := by
  induction routingTable generalizing es with
  | nil => exact (List.map_id es).symm
  | cons r rows ih =>
    have hfresh : RowVars.Of net r {} := ⟨.inl rfl, .inl rfl⟩
    rw [visitTable, List.foldl_cons, visitEndpoints_eq hfresh]
    change visitTable net ourLUID rows _ = _
    rw [ih, List.map_map]
    refine List.map_congr_left fun e _ => ?_
    dsimp only [Function.comp_apply]
    cases hoffer : offer net ourLUID e.addr r with
    | none => rw [List.filterMap_cons_none hoffer, Option.elim_none]
    | some o => rw [List.filterMap_cons_some hoffer, Option.elim_some, take_addr, List.foldl_cons]

end

def rank (prefixLength : UInt8) (metric : UInt32) : Nat :=
  prefixLength.toNat * 2 ^ 32 + (2 ^ 32 - 1 - metric.toNat)

def Offer.rank (o : Offer) : Nat := Pitfalls.rank o.prefixLength o.metric
def EndpointRoute.rank (e : EndpointRoute) : Nat := Pitfalls.rank e.highestCIDR e.lowestMetric

theorem rank_lt_iff {l₁ l₂ : UInt8} {m₁ m₂ : UInt32} :
    rank l₁ m₁ < rank l₂ m₂ ↔ l₁ < l₂ ∨ (l₁ = l₂ ∧ m₂ < m₁) := by
  have h₁ := m₁.toNat_lt
  have h₂ := m₂.toNat_lt
  rw [UInt8.lt_iff_toNat_lt, UInt32.lt_iff_toNat_lt, ← UInt8.toNat_inj, rank, rank]
  omega

theorem rank_start : rank 0 0xFFFFFFFF = 0 := by decide

theorem rank_inj {l₁ l₂ : UInt8} {m₁ m₂ : UInt32} (h : rank l₁ m₁ = rank l₂ m₂) :
    l₁ = l₂ ∧ m₁ = m₂ := by
  have h₁ := m₁.toNat_lt
  have h₂ := m₂.toNat_lt
  rw [← UInt8.toNat_inj, ← UInt32.toNat_inj]
  rw [rank, rank] at h
  omega

section
variable {e : EndpointRoute} {o : Offer}

theorem take_of_lt (h : o.rank < e.rank) : e.take o = e := if_pos (rank_lt_iff.mp h)

theorem take_of_le (h : e.rank ≤ o.rank) : e.take o = e.accept o :=
  if_neg fun hlt => absurd (rank_lt_iff.mpr hlt) (Nat.not_lt.mpr h)

theorem accept_rank (e : EndpointRoute) (o : Offer) : (e.accept o).rank = o.rank := by
  rw [EndpointRoute.accept]
  split_ifs <;> rfl

theorem accept_finalIsOurs (e : EndpointRoute) (o : Offer) : (e.accept o).finalIsOurs = o.ours := by
  rw [EndpointRoute.accept]
  split_ifs <;> rfl

theorem accept_of_ours (h : o.ours = true) :
    (e.accept o).weakHostSend = e.weakHostSend ∧ (e.accept o).name = e.name := by
  rw [EndpointRoute.accept, if_pos h]
  exact ⟨rfl, rfl⟩

theorem accept_of_other (h : o.ours = false) :
    (e.accept o).weakHostSend = o.weakHostSend ∧ (e.accept o).name = o.name := by
  rw [EndpointRoute.accept, if_neg (by simp [h])]
  exact ⟨rfl, rfl⟩

end

/-- The state after the offers of `seen`: that of the best of them, and if the interface to warn
about is a weak one, it is that of one of them. -/
structure Tracks (seen : List Offer) (e : EndpointRoute) : Prop where
  start : seen = [] → e.rank = 0 ∧ e.finalIsOurs = false
  best : seen ≠ [] → ∃ b ∈ seen, e.rank = b.rank ∧ e.finalIsOurs = b.ours ∧
    ∀ o ∈ seen, o.rank ≤ b.rank
  weak : e.weakHostSend = true → ∃ o ∈ seen, o.ours = false ∧ o.weakHostSend = true

theorem Tracks.take {seen : List Offer} {e : EndpointRoute} (h : Tracks seen e) (o : Offer) :
    Tracks (seen ++ [o]) (e.take o) := by
  have hne : seen ++ [o] ≠ [] := by simp
  rcases Nat.lt_or_ge o.rank e.rank with hlt | hge
  · rw [take_of_lt hlt]
    refine ⟨fun hnil => absurd hnil hne, fun _ => ?_, fun hweak => ?_⟩
    · have hseen : seen ≠ [] := fun hnil => by
        rw [(h.start hnil).1] at hlt
        omega
      obtain ⟨b, hb, hrank, hours, hbest⟩ := h.best hseen
      refine ⟨b, List.mem_append_left _ hb, hrank, hours, fun x hx => ?_⟩
      rcases List.mem_append.mp hx with hx | hx
      · exact hbest x hx
      · rw [List.mem_singleton.mp hx, ← hrank]
        exact hlt.le
    · obtain ⟨x, hx, hxs⟩ := h.weak hweak
      exact ⟨x, List.mem_append_left _ hx, hxs⟩
  · rw [take_of_le hge]
    refine ⟨fun hnil => absurd hnil hne, fun _ => ?_, fun hweak => ?_⟩
    · refine ⟨o, by simp, accept_rank e o, accept_finalIsOurs e o, fun x hx => ?_⟩
      rcases List.mem_append.mp hx with hx | hx
      · obtain ⟨b, -, hrank, -, hbest⟩ := h.best (List.ne_nil_of_mem hx)
        exact (hbest x hx).trans (hrank.ge.trans hge)
      · rw [List.mem_singleton.mp hx]
    · cases hours : o.ours with
      | true =>
        rw [(accept_of_ours hours).1] at hweak
        obtain ⟨x, hx, hxs⟩ := h.weak hweak
        exact ⟨x, List.mem_append_left _ hx, hxs⟩
      | false =>
        rw [(accept_of_other hours).1] at hweak
        exact ⟨o, by simp, hours, hweak⟩

theorem Tracks.foldl {seen : List Offer} {e : EndpointRoute} (h : Tracks seen e) (os : List Offer) :
    Tracks (seen ++ os) (os.foldl EndpointRoute.take e) := by
  induction os generalizing seen e with
  | nil => rwa [List.append_nil]
  | cons o os ih =>
    have hnext := ih (h.take o)
    rwa [List.append_assoc, List.singleton_append] at hnext

theorem foldl_ours {os : List Offer} (h : ∀ o ∈ os, o.ours = true) (e : EndpointRoute) :
    (os.foldl EndpointRoute.take e).weakHostSend = e.weakHostSend ∧
    (os.foldl EndpointRoute.take e).name = e.name := by
  induction os generalizing e with
  | nil => exact ⟨rfl, rfl⟩
  | cons o os ih =>
    obtain ⟨hweak, hname⟩ := ih (fun x hx => h x (List.mem_cons_of_mem o hx)) (e.take o)
    rw [List.foldl_cons, hweak, hname]
    rcases Nat.lt_or_ge o.rank e.rank with hlt | hge
    · rw [take_of_lt hlt]
      exact ⟨rfl, rfl⟩
    · rw [take_of_le hge]
      exact accept_of_ours (h o List.mem_cons_self)

theorem foldl_others {os : List Offer} (h : ∀ o ∈ os, o.ours = false) {e : EndpointRoute}
    (he : e.finalIsOurs = true → e.weakHostSend = false) :
    (os.foldl EndpointRoute.take e).finalIsOurs = true →
    (os.foldl EndpointRoute.take e).weakHostSend = false := by
  induction os generalizing e with
  | nil => exact he
  | cons o os ih =>
    refine ih (fun x hx => h x (List.mem_cons_of_mem o hx)) ?_
    rcases Nat.lt_or_ge o.rank e.rank with hlt | hge
    · rwa [take_of_lt hlt]
    · rw [take_of_le hge, accept_finalIsOurs, h o List.mem_cons_self]
      nofun

theorem foldl_worse {os : List Offer} {e : EndpointRoute} (h : ∀ o ∈ os, o.rank < e.rank) :
    os.foldl EndpointRoute.take e = e := by
  induction os with
  | nil => rfl
  | cons o os ih =>
    rw [List.foldl_cons, take_of_lt (h o List.mem_cons_self)]
    exact ih fun x hx => h x (List.mem_cons_of_mem o hx)

section
variable {net : Interfaces} {ourLUID : UInt64} {family : Family} {conf : Config}
  {rows : List ForwardRow}

def offers (net : Interfaces) (ourLUID : UInt64) (rows : List ForwardRow) (addr : Addr) :
    List Offer :=
  rows.filterMap (offer net ourLUID addr)

theorem mem_problematicInterfaces {name : Str} :
    name ∈ problematicInterfaces net ourLUID family conf rows ↔
      ∃ e ∈ endpoints family conf,
        ((offers net ourLUID rows e.addr).foldl EndpointRoute.take e).weakHostSend = true ∧
        ((offers net ourLUID rows e.addr).foldl EndpointRoute.take e).finalIsOurs = true ∧
        ((offers net ourLUID rows e.addr).foldl EndpointRoute.take e).name = name := by
  rw [problematicInterfaces, visitTable_eq]
  simp only [List.mem_map, List.mem_filter, Bool.and_eq_true, offers]
  constructor
  · rintro ⟨_, ⟨⟨e, he, rfl⟩, hweak, hours⟩, hname⟩
    exact ⟨e, he, hweak, hours, hname⟩
  · rintro ⟨e, he, hweak, hours, hname⟩
    exact ⟨_, ⟨⟨e, he, rfl⟩, hweak, hours⟩, hname⟩

theorem tracks_endpoints {e : EndpointRoute} (he : e ∈ endpoints family conf) : Tracks [] e := by
  obtain ⟨peer, -, hpeer⟩ := List.mem_filterMap.mp he
  cases haddr : parseAddr peer.endpoint.host with
  | none => simp [haddr] at hpeer
  | some addr =>
    rw [haddr, Option.ite_none_left_eq_some, Option.some.injEq] at hpeer
    obtain ⟨-, rfl⟩ := hpeer
    exact ⟨fun _ => ⟨rank_start, rfl⟩, fun h => absurd rfl h, nofun⟩

def NoTies (net : Interfaces) (ourLUID : UInt64) (family : Family) (conf : Config)
    (rows : List ForwardRow) : Prop :=
  ∀ e ∈ endpoints family conf, (offers net ourLUID rows e.addr).Pairwise fun o o' =>
    ¬ (o.prefixLength = o'.prefixLength ∧ o.metric = o'.metric)

def NoWeakAlternatives (net : Interfaces) (ourLUID : UInt64) (family : Family) (conf : Config)
    (rows : List ForwardRow) :
    Prop :=
  ∀ e ∈ endpoints family conf, ∀ b ∈ offers net ourLUID rows e.addr, b.ours = true →
    (∀ o ∈ offers net ourLUID rows e.addr, o.rank ≤ b.rank) →
      ∀ o ∈ offers net ourLUID rows e.addr, o.ours = false → o.weakHostSend = false

theorem mem_offers_perm {rows' : List ForwardRow} (h : rows'.Perm rows) {addr : Addr} {o : Offer} :
    o ∈ offers net ourLUID rows' addr ↔ o ∈ offers net ourLUID rows addr := (h.filterMap _).mem_iff

theorem NoWeakAlternatives.perm {rows' : List ForwardRow} (h : rows'.Perm rows)
    (hno : NoWeakAlternatives net ourLUID family conf rows) :
    NoWeakAlternatives net ourLUID family conf rows' := by
  simp only [NoWeakAlternatives, mem_offers_perm h]
  exact hno

theorem NoWeakAlternatives.not_mem (h : NoWeakAlternatives net ourLUID family conf rows)
    (name : Str) :
    name ∉ problematicInterfaces net ourLUID family conf rows := by
  rw [mem_problematicInterfaces]
  rintro ⟨e, he, hweak, hours, -⟩
  have htracks := (tracks_endpoints he).foldl (offers net ourLUID rows e.addr)
  rw [List.nil_append] at htracks
  obtain ⟨o, ho, hother, hsends⟩ := htracks.weak hweak
  obtain ⟨b, hb, -, hbours, hbest⟩ := htracks.best (List.ne_nil_of_mem ho)
  have hnot := h e he b hb (hbours.symm.trans hours) hbest o ho hother
  rw [hsends] at hnot
  exact absurd hnot (by decide)

theorem NoTies.eq (h : NoTies net ourLUID family conf rows) {e : EndpointRoute}
    (he : e ∈ endpoints family conf) {o o' : Offer} (ho : o ∈ offers net ourLUID rows e.addr)
    (ho' : o' ∈ offers net ourLUID rows e.addr) (hrank : o.rank = o'.rank) : o = o' := by
  by_contra hne
  have hsymm : Std.Symm fun o o' : Offer =>
      ¬ (o.prefixLength = o'.prefixLength ∧ o.metric = o'.metric) :=
    ⟨fun a b hab hba => hab ⟨hba.1.symm, hba.2.symm⟩⟩
  exact (h e he).forall ho ho' hne (rank_inj hrank)

theorem mem_offers_filter {p : ForwardRow → Bool} {addr : Addr} {o : Offer}
    (h : o ∈ offers net ourLUID (rows.filter p) addr) :
    ∃ r ∈ rows, p r = true ∧ offer net ourLUID addr r = some o := by
  obtain ⟨r, hr, ho⟩ := List.mem_filterMap.mp h
  obtain ⟨hmem, hp⟩ := List.mem_filter.mp hr
  exact ⟨r, hmem, hp, ho⟩

theorem offer_ours {addr : Addr} {r : ForwardRow} {o : Offer}
    (h : offer net ourLUID addr r = some o) :
    o.ours = (r.interfaceLUID == ourLUID) := by
  rw [offer, Option.ite_none_left_eq_some] at h
  obtain ⟨ifrow, -, h⟩ := Option.bind_eq_some_iff.mp h.2
  rw [Option.ite_none_left_eq_some] at h
  obtain ⟨row, -, h⟩ := Option.bind_eq_some_iff.mp h.2
  rw [← Option.some.inj h]

def isOurs (ourLUID : UInt64) (r : ForwardRow) : Bool := r.interfaceLUID == ourLUID

theorem ours_of_mem {addr : Addr} {o : Offer}
    (h : o ∈ offers net ourLUID (rows.filter (isOurs ourLUID)) addr) :
    o.ours = true := by
  obtain ⟨r, -, hours, ho⟩ := mem_offers_filter h
  rw [offer_ours ho]
  exact hours

theorem other_of_mem {addr : Addr} {o : Offer}
    (h : o ∈ offers net ourLUID (rows.filter fun r => !isOurs ourLUID r) addr) :
    o.ours = false := by
  obtain ⟨r, -, hours, ho⟩ := mem_offers_filter h
  rw [offer_ours ho]
  exact Bool.not_eq_true' _ ▸ hours

def oursFirst (ourLUID : UInt64) (rows : List ForwardRow) : List ForwardRow :=
  rows.filter (isOurs ourLUID) ++ rows.filter fun r => !isOurs ourLUID r

theorem oursFirst_perm : (oursFirst ourLUID rows).Perm rows :=
  List.filter_append_perm (isOurs ourLUID) rows

theorem not_mem_oursFirst (name : Str) :
    name ∉ problematicInterfaces net ourLUID family conf (oursFirst ourLUID rows) := by
  rw [mem_problematicInterfaces]
  rintro ⟨e, he, hweak, hours, -⟩
  rw [offers, oursFirst, List.filterMap_append, List.foldl_append] at hweak hours
  have hfresh : e.weakHostSend = false := by
    by_contra hweak
    obtain ⟨o, ho, -⟩ := (tracks_endpoints he).weak (Bool.not_eq_false _ ▸ hweak)
    exact absurd ho List.not_mem_nil
  have hsilent :=
    foldl_others (fun o ho => other_of_mem ho) (fun _ =>
      (foldl_ours (fun o ho => ours_of_mem ho) e).1.trans hfresh)
    hours
  exact absurd (hsilent.symm.trans hweak) (by decide)

theorem mem_weakFirst {r : ForwardRow} {rest : List ForwardRow} (hperm : (r :: rest).Perm rows)
    (hties : NoTies net ourLUID family conf rows) {e : EndpointRoute}
    (he : e ∈ endpoints family conf) {b o : Offer} (hb : b ∈ offers net ourLUID rows e.addr)
    (hours : b.ours = true) (hbest : ∀ x ∈ offers net ourLUID rows e.addr, x.rank ≤ b.rank)
    (ho : offer net ourLUID e.addr r = some o) (hother : o.ours = false)
    (hweak : o.weakHostSend = true) :
    o.name ∈ problematicInterfaces net ourLUID family conf (r :: oursFirst ourLUID rest) := by
  have hall : (r :: oursFirst ourLUID rest).Perm rows := (oursFirst_perm.cons r).trans hperm
  set own := offers net ourLUID (rest.filter (isOurs ourLUID)) e.addr with hown
  set others := offers net ourLUID (rest.filter fun r => !isOurs ourLUID r) e.addr with hothers
  have hoffers : offers net ourLUID (r :: oursFirst ourLUID rest) e.addr = o :: own ++ others := by
    rw [offers, List.filterMap_cons_some ho, oursFirst, List.filterMap_append]
    rfl
  have hmem : ∀ x ∈ o :: own ++ others, x ∈ offers net ourLUID rows e.addr := fun x hx => by
    rwa [← hoffers, mem_offers_perm hall] at hx
  -- the best offer is one of the tunnel's, so it stands before the others
  have hbown : b ∈ o :: own := by
    rw [← mem_offers_perm hall, hoffers] at hb
    refine (List.mem_append.mp hb).resolve_right fun hlast => ?_
    rw [other_of_mem hlast] at hours
    exact absurd hours (by decide)
  have htracks := (tracks_endpoints he).foldl (o :: own)
  rw [List.nil_append] at htracks
  obtain ⟨b', hb', hrank, hours', hbest'⟩ := htracks.best (List.cons_ne_nil o own)
  have heq : b' = b := by
    have hb'mem := hmem b' (List.mem_append_left _ hb')
    exact hties.eq he hb'mem hb (Nat.le_antisymm (hbest b' hb'mem) (hbest' b hbown))
  rw [heq] at hrank hours'
  have hworse : ∀ x ∈ others, x.rank < ((o :: own).foldl EndpointRoute.take e).rank :=
    fun x hx => by
    have hxmem := hmem x (List.mem_append_right _ hx)
    rw [hrank]
    refine Nat.lt_of_le_of_ne (hbest x hxmem) fun hsame => ?_
    have hxours := other_of_mem hx
    rw [hties.eq he hxmem hb hsame, hours] at hxours
    exact absurd hxours (by decide)
  have hfirst : e.take o = e.accept o :=
    take_of_le (((tracks_endpoints he).start rfl).1 ▸ Nat.zero_le _)
  have hallOurs : ∀ x ∈ own, x.ours = true := fun x hx => ours_of_mem hx
  obtain ⟨hkeptWeak, hkeptName⟩ := foldl_ours hallOurs (e.take o)
  rw [mem_problematicInterfaces]
  refine ⟨e, he, ?_⟩
  rw [hoffers, List.foldl_append, foldl_worse hworse]
  refine ⟨?_, hours'.trans hours, ?_⟩
  · rw [List.foldl_cons, hkeptWeak, hfirst, (accept_of_other hother).1, hweak]
  · rw [List.foldl_cons, hkeptName, hfirst, (accept_of_other hother).2]

/-- The interfaces warned about are the same for every order of the table exactly where no
route that the tunnel beats sends weakly: then there is nothing to warn about. -/
theorem problematicInterfaces_order_iff (hties : NoTies net ourLUID family conf rows) :
    (∀ rows₁ rows₂, rows₁.Perm rows → rows₂.Perm rows → ∀ name,
      name ∈ problematicInterfaces net ourLUID family conf rows₁ ↔
        name ∈ problematicInterfaces net ourLUID family conf rows₂) ↔
      NoWeakAlternatives net ourLUID family conf rows := by
  constructor
  · intro hsame e he b hb hours hbest o ho hother
    by_contra hweak
    obtain ⟨r, hr, hoffer⟩ := List.mem_filterMap.mp ho
    obtain ⟨before, after, rfl⟩ := List.append_of_mem hr
    have hperm : (r :: (before ++ after)).Perm (before ++ r :: after) := List.perm_middle.symm
    have hwarned :=
      mem_weakFirst hperm hties he hb hours hbest hoffer hother (Bool.not_eq_false _ ▸ hweak)
    rw [hsame _ (oursFirst ourLUID (before ++ r :: after)) ((oursFirst_perm.cons r).trans hperm)
      oursFirst_perm] at hwarned
    exact not_mem_oursFirst o.name hwarned
  · intro hno rows₁ rows₂ h₁ h₂ name
    exact iff_of_false ((hno.perm h₁).not_mem name) ((hno.perm h₂).not_mem name)

end

def forwardingNet : Interfaces where
  interface luid := some ⟨ifOperStatusUp, if luid = 1 then str "wg0" else str "Ethernet"⟩
  ipInterface luid := some ⟨5, luid != 1, false⟩

def onePeer : Config :=
  { name := str "wg0", interface := {}, peers := [{ endpoint := ⟨str "192.0.2.1", 51820⟩ }] }
def defaultRow : ForwardRow := ⟨2, .v4 0, 0, 10⟩
def tunnelRow : ForwardRow := ⟨1, .v4 0x80000000, 1, 0⟩

theorem noTies_default_tunnel : NoTies forwardingNet 1 .v4 onePeer [defaultRow, tunnelRow] := by
  unfold NoTies
  decide +kernel

theorem problematicInterfaces_order_iff_default_tunnel :
    NoTies forwardingNet 1 .v4 onePeer [defaultRow, tunnelRow] ∧
      ((∀ rows₁ rows₂, rows₁.Perm [defaultRow, tunnelRow] → rows₂.Perm [defaultRow, tunnelRow] →
        ∀ name, name ∈ problematicInterfaces forwardingNet 1 .v4 onePeer rows₁ ↔
          name ∈ problematicInterfaces forwardingNet 1 .v4 onePeer rows₂) ↔
        NoWeakAlternatives forwardingNet 1 .v4 onePeer [defaultRow, tunnelRow]) :=
  ⟨noTies_default_tunnel, problematicInterfaces_order_iff noTies_default_tunnel⟩

theorem problematicInterfaces_swapped :
    NoTies forwardingNet 1 .v4 onePeer [defaultRow, tunnelRow] ∧
      [tunnelRow, defaultRow].Perm [defaultRow, tunnelRow] ∧
      problematicInterfaces forwardingNet 1 .v4 onePeer [defaultRow, tunnelRow] = [str "Ethernet"] ∧
      problematicInterfaces forwardingNet 1 .v4 onePeer [tunnelRow, defaultRow] = [] :=
  ⟨noTies_default_tunnel, .swap _ _ _, by decide +kernel, by decide +kernel⟩

end WireGuardWindows.Tunnel.Pitfalls
