import WireGuardWindows.Tunnel.AddressConfig
import WireGuardWindows.Conf.Parser
import WireGuardWindows.GoStd.NetipMask

/-!
# Tunnels that route all traffic

`hasDefaultRoute` compares the allowed networks as they are written, `configureInterface`
installs them masked. The two agree on networks without host bits.
-/

namespace WireGuardWindows.Tunnel
open GoStd Netip Conf
open Watcher (Family)

def zeroAddr (family : Family) : Addr := if family = .v4 then ipv4Unspecified else ipv6Unspecified

def halfAddr (family : Family) : Addr :=
  if family = .v4 then .v4 0x80000000 else .v6 0x80000000000000000000000000000000 []

structure Found where
  half0 : Bool
  half1 : Bool
  full : Bool

def Found.see (family : Family) (found : Found) (allowedip : Prefix) : Found :=
  if allowedip = prefixFrom (zeroAddr family) 0 then { found with full := true }
  else if allowedip = prefixFrom (zeroAddr family) 1 then { found with half0 := true }
  else if allowedip = prefixFrom (halfAddr family) 1 then { found with half1 := true }
  else found

def hasDefaultRoute (family : Family) (config : Config) : Bool :=
  let found := config.peers.foldl
    (fun found peer => peer.allowedIPs.foldl (Found.see family) found) ⟨false, false, false⟩
  found.full || (found.half0 && found.half1)

section Networks

def OfFamily : Family → Addr → Prop
  | .v4, .v4 _ => True
  | .v6, .v6 _ _ => True
  | _, _ => False

def topBit : Addr → Bool
  | .zero => false
  | .v4 a => a.msb
  | .v6 a _ => a.msb

/-- Some network covers the family, or two networks cover its halves. -/
def CoversFamily (family : Family) (networks : List Prefix) : Prop :=
  (∃ p ∈ networks, OfFamily family p.ip ∧ p.bits = 0) ∨
    (∃ p ∈ networks, OfFamily family p.ip ∧ p.bits = 1 ∧ topBit p.ip = false) ∧
      ∃ p ∈ networks, OfFamily family p.ip ∧ p.bits = 1 ∧ topBit p.ip = true

def HasRoute (routes : List RouteData) (destination : Prefix) : Prop :=
  ∃ rd ∈ routes, rd.destination = destination

def RoutesAll (family : Family) (routes : List RouteData) : Prop :=
  HasRoute routes (prefixFrom (zeroAddr family) 0) ∨
    HasRoute routes (prefixFrom (zeroAddr family) 1) ∧
      HasRoute routes (prefixFrom (halfAddr family) 1)

theorem ofFamily_v4 (ip : Addr) : OfFamily .v4 ip ↔ ∃ a, ip = .v4 a := by
  cases ip <;> simp [OfFamily]

theorem ofFamily_v6 (ip : Addr) : OfFamily .v6 ip ↔ ∃ a zone, ip = .v6 a zone := by
  cases ip <;> simp [OfFamily]

variable {family : Family}

theorem masked_eq_full (hfamily : family ≠ .other) (p : Prefix) :
    p.masked = prefixFrom (zeroAddr family) 0 ↔ OfFamily family p.ip ∧ p.bits = 0 := by
  cases family with
  | other => exact absurd rfl hfamily
  | v4 =>
    have h := masked_eq_v4 p 0 (Nat.zero_le 32)
    simp only [keepHigh_zero, and_true] at h
    rw [ofFamily_v4, ← exists_and_right]
    exact h
  | v6 =>
    have h := masked_eq_v6 p 0 (Nat.zero_le 128)
    simp only [keepHigh_zero, and_true] at h
    simp only [ofFamily_v6, ← exists_and_right]
    exact h

theorem masked_eq_half0 (hfamily : family ≠ .other) (p : Prefix) :
    p.masked = prefixFrom (zeroAddr family) 1 ↔
      OfFamily family p.ip ∧ p.bits = 1 ∧ topBit p.ip = false := by
  cases family with
  | other => exact absurd rfl hfamily
  | v4 =>
    refine (masked_eq_v4 p 0 (by decide : 1 ≤ 32)).trans ?_
    obtain ⟨ip, n⟩ := p
    cases ip <;> simp [OfFamily, topBit, keepHigh_one_eq_zero]
  | v6 =>
    refine (masked_eq_v6 p 0 (by decide : 1 ≤ 128)).trans ?_
    obtain ⟨ip, n⟩ := p
    cases ip <;> simp [OfFamily, topBit, keepHigh_one_eq_zero]

theorem masked_eq_half1 (hfamily : family ≠ .other) (p : Prefix) :
    p.masked = prefixFrom (halfAddr family) 1 ↔
      OfFamily family p.ip ∧ p.bits = 1 ∧ topBit p.ip = true := by
  cases family with
  | other => exact absurd rfl hfamily
  | v4 =>
    refine (masked_eq_v4 p (BitVec.twoPow 32 31) (by decide : 1 ≤ 32)).trans ?_
    obtain ⟨ip, n⟩ := p
    cases ip <;> simp [OfFamily, topBit, keepHigh_one_eq_twoPow]
  | v6 =>
    refine (masked_eq_v6 p (BitVec.twoPow 128 127) (by decide : 1 ≤ 128)).trans ?_
    obtain ⟨ip, n⟩ := p
    cases ip <;> simp [OfFamily, topBit, keepHigh_one_eq_twoPow]

end Networks

section Config

variable {family : Family}

theorem full_masked (family : Family) :
    (prefixFrom (zeroAddr family) 0).masked = prefixFrom (zeroAddr family) 0 := by
  cases family <;> decide

theorem half0_masked (family : Family) :
    (prefixFrom (zeroAddr family) 1).masked = prefixFrom (zeroAddr family) 1 := by
  cases family <;> decide

theorem half1_masked (family : Family) :
    (prefixFrom (halfAddr family) 1).masked = prefixFrom (halfAddr family) 1 := by
  cases family <;> decide

theorem foldl_see (family : Family) (networks : List Prefix) (found : Found) :
    networks.foldl (Found.see family) found =
      ⟨found.half0 || decide (prefixFrom (zeroAddr family) 1 ∈ networks),
        found.half1 || decide (prefixFrom (halfAddr family) 1 ∈ networks),
        found.full || decide (prefixFrom (zeroAddr family) 0 ∈ networks)⟩ := by
  have hdistinct : prefixFrom (zeroAddr family) 0 ≠ prefixFrom (zeroAddr family) 1 ∧
      prefixFrom (zeroAddr family) 0 ≠ prefixFrom (halfAddr family) 1 ∧
      prefixFrom (zeroAddr family) 1 ≠ prefixFrom (halfAddr family) 1 := by
    cases family <;> decide
  induction networks generalizing found with
  | nil => simp
  | cons p ps ih =>
    rw [List.foldl_cons, ih, Found.see]
    grind

theorem hasDefaultRoute_iff (family : Family) (config : Config) :
    hasDefaultRoute family config = true ↔
      prefixFrom (zeroAddr family) 0 ∈ allowedIPs config ∨
        prefixFrom (zeroAddr family) 1 ∈ allowedIPs config ∧
          prefixFrom (halfAddr family) 1 ∈ allowedIPs config := by
  rw [hasDefaultRoute, ← List.foldl_flatMap, foldl_see]
  simp [allowedIPs]

/-- `hasDefaultRoute` counts the networks without host bits. -/
theorem hasDefaultRoute_iff_covers (hfamily : family ≠ .other) (config : Config) :
    hasDefaultRoute family config = true ↔
      CoversFamily family ((allowedIPs config).filter fun p => p = p.masked) := by
  have hmem (q : Prefix) (hq : q.masked = q) : q ∈ allowedIPs config ↔
      ∃ p ∈ (allowedIPs config).filter (fun p => p = p.masked), p.masked = q := by
    constructor
    · intro h
      exact ⟨q, List.mem_filter.mpr ⟨h, decide_eq_true hq.symm⟩, hq⟩
    · rintro ⟨p, hp, rfl⟩
      obtain ⟨hp, hmasked⟩ := List.mem_filter.mp hp
      rwa [← of_decide_eq_true hmasked]
  rw [hasDefaultRoute_iff, hmem _ (full_masked family), hmem _ (half0_masked family),
    hmem _ (half1_masked family)]
  simp only [masked_eq_full hfamily, masked_eq_half0 hfamily, masked_eq_half1 hfamily, CoversFamily]

theorem ofFamily_of_masked {p : Prefix} (h : OfFamily family p.masked.ip) :
    OfFamily family p.ip := by
  obtain ⟨ip, n⟩ := p
  cases ip with
  | zero =>
    simp only [Prefix.masked] at h
    split at h <;> exact h
  | v4 a =>
    cases family with
    | v4 => trivial
    | v6 | other =>
      simp only [Prefix.masked] at h
      split_ifs at h <;> exact h
  | v6 a zone =>
    cases family with
    | v6 => trivial
    | v4 | other =>
      simp only [Prefix.masked] at h
      split_ifs at h <;> exact h

theorem mem_installedRoutes {conf : Config} {rd : RouteData} :
    rd ∈ installedRoutes family conf ↔ conf.interface.tableOff = false ∧
      OfFamily family rd.destination.ip ∧ ∃ p ∈ allowedIPs conf, routeData p = rd := by
  have hfilter : rd ∈ routesForFamily family (deduplicatedRoutes conf) ↔
      (!(!rd.destination.ip.is4 && family = .v4) && !(!rd.destination.ip.is6 && family = .v6)) =
        true ∧
        ∃ p ∈ allowedIPs conf, routeData p = rd := by
    rw [routesForFamily, List.mem_filter, deduplicatedRoutes, List.mem_dedup,
      List.mem_map, and_comm]
  -- a route of the family comes from a network of the family, so the family has been found
  have hfound (p : Prefix) (hp : p ∈ allowedIPs conf)
    (h : OfFamily family (routeData p).destination.ip) :
      (((allowedIPs conf).any fun p => p.ip.is4) && family = .v4 ||
        ((allowedIPs conf).any fun p => p.ip.is6) && family = .v6) = true := by
    have hip : OfFamily family p.ip := ofFamily_of_masked h
    cases family with
    | v4 =>
      obtain ⟨a, ha⟩ := (ofFamily_v4 p.ip).mp hip
      have hany : ((allowedIPs conf).any fun p => p.ip.is4) = true :=
        List.any_eq_true.mpr ⟨p, hp, by rw [ha]; rfl⟩
      simp [hany]
    | v6 =>
      obtain ⟨a, zone, ha⟩ := (ofFamily_v6 p.ip).mp hip
      have hany : ((allowedIPs conf).any fun p => p.ip.is6) = true :=
        List.any_eq_true.mpr ⟨p, hp, by rw [ha]; rfl⟩
      simp [hany]
    | other => exact absurd hip (by cases p.ip <;> exact id)
  rw [installedRoutes]
  split_ifs with hcond
  · rw [hfilter]
    cases family <;> cases hd : rd.destination.ip <;> simp_all [OfFamily, Addr.is4, Addr.is6]
  · simp only [List.not_mem_nil, false_iff]
    rintro ⟨hoff, hof, p, hp, rfl⟩
    exact hcond (by rw [hoff, hfound p hp hof]; rfl)

theorem hasRoute_installedRoutes {conf : Config} {destination : Prefix}
    (hof : OfFamily family destination.ip) :
    HasRoute (installedRoutes family conf) destination ↔
      conf.interface.tableOff = false ∧ ∃ p ∈ allowedIPs conf, p.masked = destination := by
  constructor
  · rintro ⟨rd, hrd, rfl⟩
    obtain ⟨hoff, -, p, hp, rfl⟩ := mem_installedRoutes.mp hrd
    exact ⟨hoff, p, hp, rfl⟩
  · rintro ⟨hoff, p, hp, rfl⟩
    exact ⟨routeData p, mem_installedRoutes.mpr ⟨hoff, hof, p, hp, rfl⟩, rfl⟩

theorem routesAll_installedRoutes (family : Family) (conf : Config) :
    RoutesAll family (installedRoutes family conf) ↔
      conf.interface.tableOff = false ∧ CoversFamily family (allowedIPs conf) := by
  by_cases hfamily : family = .other
  · subst hfamily
    simp [RoutesAll, HasRoute, mem_installedRoutes, CoversFamily, OfFamily]
  · have hfull : OfFamily family (prefixFrom (zeroAddr family) 0).ip := by
      cases family <;> trivial
    have hhalf0 : OfFamily family (prefixFrom (zeroAddr family) 1).ip := by
      cases family <;> trivial
    have hhalf1 : OfFamily family (prefixFrom (halfAddr family) 1).ip := by
      cases family <;> trivial
    rw [RoutesAll, hasRoute_installedRoutes hfull, hasRoute_installedRoutes hhalf0,
      hasRoute_installedRoutes hhalf1, ← and_and_left, ← and_or_left]
    simp only [masked_eq_full hfamily, masked_eq_half0 hfamily,
      masked_eq_half1 hfamily, CoversFamily]

theorem hasDefaultRoute_sees_iff (family : Family) (conf : Config) :
    (RoutesAll family (installedRoutes family conf) → hasDefaultRoute family conf = true) ↔
      (conf.interface.tableOff = false → CoversFamily family (allowedIPs conf) →
        CoversFamily family ((allowedIPs conf).filter fun p => p = p.masked)) := by
  rw [routesAll_installedRoutes, and_imp]
  by_cases hfamily : family = .other
  · subst hfamily
    simp [CoversFamily, OfFamily]
  · rw [hasDefaultRoute_iff_covers hfamily]

end Config

def hostBitsText : Str :=
  str ("[Interface]\nPrivateKey = yAnz5TF+lXXJte14tji3zlMNq+hd2rYUIgJBgB3fBmk=\n[Peer]\n" ++
    "PublicKey = xTIBA5rboUvnH4htodjb6e697QjLERt1NAB4mZqp8Dg=\nAllowedIPs = 10.0.0.1/0")

theorem hasDefaultRoute_hostBits :
    ∃ conf, fromWgQuick (fun _ => none) hostBitsText (str "wg0") = .ok conf ∧
      ¬ (RoutesAll .v4 (installedRoutes .v4 conf) → hasDefaultRoute .v4 conf = true) := by
  have hroute : ((fromWgQuick (fun _ => none) hostBitsText (str "wg0")).toOption.map fun conf =>
      ((installedRoutes .v4 conf).map RouteData.destination, hasDefaultRoute .v4 conf)) =
        some ([prefixFrom (.v4 0) 0], false) := by
    decide +kernel
  cases hconf : fromWgQuick (fun _ => none) hostBitsText (str "wg0") with
  | error e => simp [hconf, Except.toOption] at hroute
  | ok conf =>
    rw [hconf] at hroute
    obtain ⟨hroutes, hnot⟩ := Prod.mk.inj (Option.some.inj hroute)
    refine ⟨conf, rfl, fun h => ?_⟩
    have hmem : prefixFrom (.v4 0) 0 ∈ (installedRoutes .v4 conf).map RouteData.destination := by
      rw [hroutes]
      exact List.mem_singleton_self _
    have hall : hasDefaultRoute .v4 conf = true := h (.inl (List.mem_map.mp hmem))
    rw [hnot] at hall
    cases hall

end WireGuardWindows.Tunnel
