import WireGuardWindows.Conf.Intersects
import WireGuardWindows.Firewall.KillSwitch
import WireGuardWindows.Tunnel.InterfaceWatcher

/-!
# The routes of a tunnel, and when it restricts traffic
-/

namespace WireGuardWindows.Tunnel
open GoStd Netip Conf
open Watcher (Family)

structure RouteData where
  destination : Prefix
  nextHop : Addr
  metric : UInt32
  deriving DecidableEq

def ipv4Unspecified : Addr := .v4 0
def ipv6Unspecified : Addr := .v6 0 []

def routeData (allowedip : Prefix) : RouteData where
  destination := allowedip.masked
  nextHop :=
    if allowedip.ip.is4 then ipv4Unspecified
    else if allowedip.ip.is6 then ipv6Unspecified
    else .zero
  metric := 0

def allowedIPs (conf : Config) : List Prefix := conf.peers.flatMap Peer.allowedIPs

/-- The keys of the map of routes; Go ranges over them in an unspecified order. -/
def deduplicatedRoutes (conf : Config) : List RouteData := ((allowedIPs conf).map routeData).dedup

/-- The routes that `SetRoutesForFamily` adds after it has flushed the interface. -/
def routesForFamily (family : Family) (routesData : List RouteData) : List RouteData :=
  routesData.filter fun rd =>
    !(!rd.destination.ip.is4 && family = .v4) && !(!rd.destination.ip.is6 && family = .v6)

def installedRoutes (family : Family) (conf : Config) : List RouteData :=
  let foundRoute4 := (allowedIPs conf).any fun p => p.ip.is4
  let foundRoute6 := (allowedIPs conf).any fun p => p.ip.is6
  if !conf.interface.tableOff && ((foundRoute4 && family = .v4) || (foundRoute6 && family = .v6))
    then
    routesForFamily family (deduplicatedRoutes conf)
  else []

/-- A default route, spelled without host bits. -/
def isDefaultRoute (allowedip : Prefix) : Bool :=
  allowedip.bits = 0 && allowedip = allowedip.masked

def doNotRestrict (conf : Config) : Bool :=
  match conf.peers with
  | [peer] => conf.interface.tableOff || !peer.allowedIPs.any isDefaultRoute
  | _ => true

def enableFirewall (p : Firewall.Platform) (session : Firewall.WfpSession) (conf : Config)
    (luid : UInt64) : Except Firewall.Error Firewall.WfpSession :=
  Firewall.enableFirewall p session luid (doNotRestrict conf) conf.interface.dns

theorem destination_mem_routeSet {family : Family} {c : Config} {r : RouteData}
    (h : r ∈ installedRoutes family c) :
    r.destination ∈ c.routeSet := by
  rw [installedRoutes] at h
  split_ifs at h
  · have hroute := (List.mem_filter.mp h).1
    rw [deduplicatedRoutes, List.mem_dedup] at hroute
    obtain ⟨a, ha, rfl⟩ := List.mem_map.mp hroute
    obtain ⟨p, hp, hmem⟩ := List.mem_flatMap.mp ha
    exact .inr ⟨p, hp, a, hmem, rfl⟩
  · cases h

structure SameNetworks (c c' : Config) : Prop where
  addresses : ∀ a, a ∈ c.interface.addresses ↔ a ∈ c'.interface.addresses
  allowed : ∀ a, a ∈ allowedIPs c ↔ a ∈ allowedIPs c'

theorem SameNetworks.routeSet_eq {c c' : Config} (h : SameNetworks c c') :
    c.routeSet = c'.routeSet := by
  have hallowed (c : Config) (r : Prefix) :
      (∃ p ∈ c.peers, ∃ a ∈ p.allowedIPs, r = a.masked) ↔ ∃ a ∈ allowedIPs c, r = a.masked := by
    simp only [allowedIPs, List.mem_flatMap]
    constructor
    · rintro ⟨p, hp, a, ha, hr⟩
      exact ⟨a, ⟨p, hp, ha⟩, hr⟩
    · rintro ⟨a, ⟨p, hp, ha⟩, hr⟩
      exact ⟨p, hp, a, ha, hr⟩
  ext r
  simp only [Config.routeSet, Set.mem_ofPred_eq, hallowed, h.addresses, h.allowed]

/-- `IntersectsWith` asks for a common element of the route sets. -/
theorem intersectsWith_overlap :
    (∀ c d : Config, c.intersectsWith d = true ↔ ∃ r, r ∈ c.routeSet ∧ r ∈ d.routeSet) ∧
    (∀ c d : Config, c.intersectsWith d = d.intersectsWith c) ∧
    (∀ c c' d : Config, SameNetworks c c' →
      c.intersectsWith d = c'.intersectsWith d ∧ d.intersectsWith c = d.intersectsWith c') ∧
    (∀ c d : Config, c.Made → (∀ a ∈ c.interface.addresses, a.isValid = true) →
      c.deduplicateNetworkEntries.intersectsWith d = c.intersectsWith d ∧
        d.intersectsWith c.deduplicateNetworkEntries = d.intersectsWith c) ∧
    ∀ c d : Config, c.intersectsWith d = false → ∀ family family', ∀ r ∈ installedRoutes family c,
      ∀ r' ∈ installedRoutes family' d, r.destination ≠ r'.destination := by
  have hcongr {c c' : Config} (h : c.routeSet = c'.routeSet) (d : Config) :
      c.intersectsWith d = c'.intersectsWith d ∧ d.intersectsWith c = d.intersectsWith c' := by
    constructor
    · rw [Bool.eq_iff_iff, intersectsWith_iff, intersectsWith_iff, h]
    · rw [Bool.eq_iff_iff, intersectsWith_iff, intersectsWith_iff, h]
  refine ⟨intersectsWith_iff, fun c d => ?_, fun c c' d h => hcongr h.routeSet_eq d,
    fun c d hmade hvalid => hcongr (routeSet_deduplicated hmade hvalid) d,
    fun c d h family family' r hr r' hr' heq => ?_⟩
  · rw [Bool.eq_iff_iff, intersectsWith_iff, intersectsWith_iff]
    exact exists_congr fun r => and_comm
  · have hcommon : c.intersectsWith d = true :=
      (intersectsWith_iff c d).mpr ⟨r.destination, destination_mem_routeSet hr,
      heq ▸ destination_mem_routeSet hr'⟩
    rw [h] at hcommon
    cases hcommon

def withAddresses (addresses : List Prefix) : Config :=
  { name := [], interface := { addresses := addresses } }

/-- Two addresses with too many bits have the same text, and the second one is dropped. -/
theorem intersectsWith_deduplicated_differs :
    let c := withAddresses [prefixFrom (.v4 0x0A000001) 33, prefixFrom (.v4 0x0A000002) 33]
    let d := withAddresses [prefixFrom (.v4 0x0A000002) 32]
    c.Made ∧ d.Made ∧ c.intersectsWith d = true ∧ c.deduplicateNetworkEntries.intersectsWith d =
      false := by
  refine ⟨⟨?_, nofun⟩, ⟨?_, nofun⟩, by decide, by decide⟩
  · intro a ha
    rcases List.mem_cons.mp ha with rfl | ha
    · exact ⟨_, _, rfl⟩
    · exact ⟨_, _, List.mem_singleton.mp ha⟩
  · intro a ha
    exact ⟨_, _, List.mem_singleton.mp ha⟩

end WireGuardWindows.Tunnel
