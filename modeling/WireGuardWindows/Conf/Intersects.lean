import Mathlib.Data.Set.Basic
import WireGuardWindows.Conf.Config
import WireGuardWindows.GoStd.Compact
import WireGuardWindows.GoStd.Maps

/-!
# Tunnels that share routes

`IntersectsWith` fills a map from one configuration and looks up the routes of the other.
Both are compared with the set of routes of a configuration, which does not depend on any
order. `DeduplicateNetworkEntries` keeps one entry of each text, and all prefixes that are
not valid have the same text.
-/

namespace WireGuardWindows.Conf
open GoStd Strings Netip

def hostPrefix (a : Prefix) : Prefix := prefixFrom a.ip a.ip.bitLen

def addAddressRoutes (routes : Map Prefix Bool) (a : Prefix) : Map Prefix Bool :=
  (routes.insert (hostPrefix a) true).insert a.masked true

def addAllowedRoutes (routes : Map Prefix Bool) (p : Peer) : Map Prefix Bool :=
  p.allowedIPs.foldl (fun routes a => routes.insert a.masked true) routes

def isRoute (routes : Map Prefix Bool) (r : Prefix) : Bool := (routes.lookup r).getD false

namespace Config

def allRoutes (conf : Config) : Map Prefix Bool :=
  conf.peers.foldl addAllowedRoutes (conf.interface.addresses.foldl addAddressRoutes ∅)

def intersectsWith (conf other : Config) : Bool :=
  let allRoutes := conf.allRoutes
  other.interface.addresses.any (fun a =>
    isRoute allRoutes (hostPrefix a) || isRoute allRoutes a.masked) ||
    other.peers.any fun p => p.allowedIPs.any fun a => isRoute allRoutes a.masked

def deduplicateNetworkEntries (conf : Config) : Config :=
  { conf with
    interface := { conf.interface with
      addresses := Compact.compact Prefix.string conf.interface.addresses
      dns := Compact.compact Addr.string conf.interface.dns }
    peers := conf.peers.map fun peer =>
      { peer with allowedIPs := Compact.compact Prefix.string peer.allowedIPs } }

/-- The host prefix and the network of every address, and the network of every allowed IP. -/
def routeSet (conf : Config) : Set Prefix :=
  { r | (∃ a ∈ conf.interface.addresses, r = hostPrefix a ∨ r = a.masked) ∨
    ∃ p ∈ conf.peers, ∃ a ∈ p.allowedIPs, r = a.masked }

end Config

theorem isRoute_insert {routes : Map Prefix Bool} {r r' : Prefix} :
    isRoute (routes.insert r' true) r = true ↔ r = r' ∨ isRoute routes r = true := by
  by_cases heq : r = r'
  · subst heq
    simp [isRoute, AList.lookup_insert]
  · simp [isRoute, AList.lookup_insert_ne heq, heq]

theorem isRoute_foldl {α : Type} {add : Map Prefix Bool → α → Map Prefix Bool}
    {Adds : α → Prefix → Prop}
    (hadd : ∀ routes a r, isRoute (add routes a) r = true ↔ Adds a r ∨ isRoute routes r = true)
    (xs : List α) (routes : Map Prefix Bool) (r : Prefix) :
    isRoute (xs.foldl add routes) r = true ↔ (∃ a ∈ xs, Adds a r) ∨ isRoute routes r = true := by
  induction xs generalizing routes with
  | nil => simp
  | cons a xs ih =>
    rw [List.foldl_cons, ih, hadd, List.exists_mem_cons_iff, ← or_assoc]
    exact or_congr_left or_comm

theorem isRoute_addAddressRoutes (routes : Map Prefix Bool) (a r : Prefix) :
    isRoute (addAddressRoutes routes a) r = true ↔ (r = hostPrefix a ∨ r = a.masked) ∨
    isRoute routes r = true := by
  rw [addAddressRoutes, isRoute_insert, isRoute_insert, ← or_assoc]
  exact or_congr_left or_comm

theorem isRoute_addAllowedRoutes (routes : Map Prefix Bool) (p : Peer) (r : Prefix) :
    isRoute (addAllowedRoutes routes p) r = true ↔ (∃ a ∈ p.allowedIPs, r = a.masked) ∨
    isRoute routes r = true := by
  have hinsert (routes : Map Prefix Bool) (a r : Prefix) :
      isRoute (routes.insert a.masked true) r = true ↔ r = a.masked ∨ isRoute routes r = true :=
        isRoute_insert
  exact isRoute_foldl hinsert p.allowedIPs routes r

theorem isRoute_allRoutes (c : Config) (r : Prefix) :
    isRoute c.allRoutes r = true ↔ r ∈ c.routeSet := by
  rw [Config.allRoutes, isRoute_foldl isRoute_addAllowedRoutes,
    isRoute_foldl isRoute_addAddressRoutes]
  have hempty : isRoute ∅ r = false := rfl
  simp only [hempty, Bool.false_eq_true, or_false, Config.routeSet, Set.mem_ofPred_eq]
  exact or_comm

theorem intersectsWith_iff (c d : Config) :
    c.intersectsWith d = true ↔ ∃ r, r ∈ c.routeSet ∧ r ∈ d.routeSet := by
  simp only [Config.intersectsWith, Bool.or_eq_true, List.any_eq_true, isRoute_allRoutes]
  constructor
  · rintro (⟨a, ha, h | h⟩ | ⟨p, hp, a, ha, h⟩)
    · exact ⟨_, h, .inl ⟨a, ha, .inl rfl⟩⟩
    · exact ⟨_, h, .inl ⟨a, ha, .inr rfl⟩⟩
    · exact ⟨_, h, .inr ⟨p, hp, a, ha, rfl⟩⟩
  · rintro ⟨r, hc, ⟨a, ha, rfl | rfl⟩ | ⟨p, hp, a, ha, rfl⟩⟩
    · exact .inl ⟨a, ha, .inl hc⟩
    · exact .inl ⟨a, ha, .inr hc⟩
    · exact .inr ⟨p, hp, a, ha, hc⟩

/-- What `netip` makes: also from a number of bits that does not fit the address. -/
def MadePrefix (p : Prefix) : Prop := ∃ ip bits, p = prefixFrom ip bits

structure Config.Made (c : Config) : Prop where
  addresses : ∀ a ∈ c.interface.addresses, MadePrefix a
  allowedIPs : ∀ p ∈ c.peers, ∀ a ∈ p.allowedIPs, MadePrefix a

section
variable {p q : Prefix}

theorem MadePrefix.parsed (h : MadePrefix p) (hvalid : p.isValid = true) : p.Parsed := by
  obtain ⟨ip, bits, rfl⟩ := h
  rw [prefixFrom] at hvalid ⊢
  by_cases hbits : ip ≠ .zero ∧ 0 ≤ bits ∧ bits ≤ ip.bitLen
  · rw [if_pos hbits]
    obtain ⟨hne, hpos, hle⟩ := hbits
    have hlength : ip.withoutZone.bitLen = ip.bitLen := by cases ip <;> rfl
    refine ⟨by cases ip <;> simp_all [Addr.withoutZone], by cases ip <;> rfl, Nat.succ_pos _, ?_⟩
    change bits.toNat + 1 ≤ ip.withoutZone.bitLen + 1
    rw [hlength]
    omega
  · rw [if_neg hbits] at hvalid
    cases hvalid

theorem slash_mem_string (h : p.isValid = true) : slash ∈ p.string := by
  rw [Prefix.string, if_pos h]
  simp

theorem string_of_not_valid (h : ¬ p.isValid = true) : slash ∉ p.string := by
  rw [Prefix.string, if_neg h]
  decide

theorem isValid_of_string_eq (h : p.string = q.string) (hp : p.isValid = true) :
    q.isValid = true := by
  by_contra hq
  exact string_of_not_valid hq (h ▸ slash_mem_string hp)

theorem eq_of_string_eq (hp : MadePrefix p) (hq : MadePrefix q) (hvalid : p.isValid = true)
    (h : p.string = q.string) :
    p = q := by
  have hread := parsePrefix_string (hp.parsed hvalid)
  rw [h, parsePrefix_string (hq.parsed (isValid_of_string_eq h hvalid))] at hread
  exact (Option.some.inj hread).symm

theorem masked_of_not_valid (h : ¬ p.isValid = true) : p.masked = ⟨.zero, 0⟩ := by
  have hbits : p.bits < 0 := by
    simp only [Prefix.isValid, bne_iff_ne, ne_eq, not_not] at h
    simp [Prefix.bits, h]
  rw [Prefix.masked, if_pos hbits]

theorem masked_eq_of_string_eq (hp : MadePrefix p) (hq : MadePrefix q) (h : p.string = q.string) :
    p.masked = q.masked := by
  by_cases hvalid : p.isValid = true
  · rw [eq_of_string_eq hp hq hvalid h]
  · have hno : ¬ q.isValid = true := fun hyes => hvalid (isValid_of_string_eq h.symm hyes)
    rw [masked_of_not_valid hvalid, masked_of_not_valid hno]

end

theorem routeSet_deduplicated {c : Config} (hmade : c.Made)
    (hvalid : ∀ a ∈ c.interface.addresses, a.isValid = true) :
    c.deduplicateNetworkEntries.routeSet = c.routeSet := by
  ext r
  constructor
  · rintro (⟨a, ha, hr⟩ | ⟨q, hq, a, ha, hr⟩)
    · exact .inl ⟨a, Compact.mem_of_mem_compact ha, hr⟩
    · obtain ⟨p, hp, rfl⟩ := List.mem_map.mp hq
      exact .inr ⟨p, hp, a, Compact.mem_of_mem_compact ha, hr⟩
  · rintro (⟨a, ha, hr⟩ | ⟨p, hp, a, ha, rfl⟩)
    · obtain ⟨b, hb, htext⟩ := Compact.exists_mem_compact Prefix.string ha
      have hmem := Compact.mem_of_mem_compact hb
      have heq :=
        eq_of_string_eq (hmade.addresses b hmem) (hmade.addresses a ha) (hvalid b hmem) htext
      exact .inl ⟨b, hb, heq ▸ hr⟩
    · obtain ⟨b, hb, htext⟩ := Compact.exists_mem_compact Prefix.string ha
      have hmem := Compact.mem_of_mem_compact hb
      refine .inr ⟨_, List.mem_map.mpr ⟨p, hp, rfl⟩, b, hb, ?_⟩
      exact (masked_eq_of_string_eq (hmade.allowedIPs p hp b hmem) (hmade.allowedIPs p hp a ha)
        htext).symm

end WireGuardWindows.Conf
