import WireGuardWindows.Conf.ReadBack
import WireGuardWindows.GoStd.Framing
import WireGuardWindows.GoStd.Sort

/-!
# The identity of an adapter

`deterministicGUID` hashes a stream made of the name, the public key and the peers of a
tunnel, with peers and their addresses sorted. Two tunnels hash the same stream exactly if
these agree up to order: sorting forgets the order and nothing else, and the lengths and
numbers in the stream let it be taken apart again.

The curve operation behind `PrivateKey.Public`, the normal form of texts and the hash are
parameters.
-/

namespace WireGuardWindows.Tunnel
open GoStd Strings Netip Memory Framing Conf

def deterministicGUIDLabel : Str := str "Deterministic WireGuard Windows GUID v1 jason@zx2c4.com"
def fixedGUIDLabel : Str := str "Fixed WireGuard Windows GUID v1 jason@zx2c4.com"

def peerLess (p q : Peer) : Bool := bytesLess p.publicKey.bytes q.publicKey.bytes

def allowedIPLess (a b : Prefix) : Bool :=
  if a.ip.bitLen ≠ b.ip.bitLen then a.ip.bitLen < b.ip.bitLen
  else if a.bits ≠ b.bits then a.bits < b.bits
  else a.ip.less b.ip

/-- `none` is the panic on a length that does not fit. -/
def b2Number (i : Nat) : Option (List UInt8) := if 2 ^ 32 - 1 < i then none else some (leBytes 4 i)

section
variable (publicOf : Key → Key) (nfc : Str → Str)

def b2String (s : Str) : Option (List UInt8) := do
  let bytes := nfc s
  let length ← b2Number bytes.length
  return length ++ bytes

def b2Peer (peer : Peer) : Option (List UInt8) := do
  let number ← b2Number peer.allowedIPs.length
  let allowedIPs ← (Sort.slice allowedIPLess peer.allowedIPs).mapM fun ip => b2String nfc ip.string
  return peer.publicKey.bytes ++ number ++ allowedIPs.flatten

/-- All that `deterministicGUID` writes to the hash, one write after the other. -/
def guidInput (useFixedGUID : Bool) (c : Config) : Option (List UInt8) := do
  let name ← b2String nfc c.name
  if useFixedGUID then return fixedGUIDLabel ++ name
  else
    let number ← b2Number c.peers.length
    let peers ← (Sort.slice peerLess c.peers).mapM (b2Peer nfc)
    return deterministicGUIDLabel ++ name ++ (publicOf c.interface.privateKey).bytes ++ number ++
      peers.flatten

def deterministicGUID (sum256 : List UInt8 → List UInt8) (useFixedGUID : Bool) (c : Config) :
    Option (List UInt8) :=
  (guidInput publicOf nfc useFixedGUID c).map fun input => (sum256 input).take 16

end

def keyOrder (k : Key) : List Nat := k.bytes.map UInt8.toNat

theorem map_toNat_injective : Function.Injective (List.map UInt8.toNat) :=
  List.map_injective_iff.mpr fun _ _ => UInt8.toNat_inj.mp

theorem keyOrder_injective : Function.Injective keyOrder := by
  intro k l h
  obtain ⟨kb, hk⟩ := k
  obtain ⟨lb, hl⟩ := l
  have hbytes : kb = lb := map_toNat_injective h
  subst hbytes
  rfl

theorem peerLess_byKey : Sort.ByKey peerLess fun p => keyOrder p.publicKey := by
  intro p q
  rw [peerLess, bytesLess, decide_eq_true_eq]
  rfl

def prefixOrder (p : Prefix) : Nat ×ₗ Int ×ₗ Nat ×ₗ List Nat :=
  toLex (p.ip.bitLen, toLex (p.bits, toLex (p.ip.number, p.ip.zone.map UInt8.toNat)))

theorem zone_of_not_is6 {ip : Addr} (h : ip.is6 = false) : ip.zone = [] := by
  cases ip with
  | zero => rfl
  | v4 a => rfl
  | v6 a zone => cases h

theorem is6_eq_of_bitLen {ip ip2 : Addr} (h : ip.bitLen = ip2.bitLen) : ip.is6 = ip2.is6 := by
  cases ip <;> cases ip2 <;> first | rfl | simp [Addr.bitLen] at h

theorem addrLess_iff {ip ip2 : Addr} (h : ip.bitLen = ip2.bitLen) :
    ip.less ip2 = true ↔
      toLex (ip.number, ip.zone.map UInt8.toNat) < toLex
        (ip2.number, ip2.zone.map UInt8.toNat) := by
  rw [Addr.less, if_neg (not_not.mpr h), Prod.Lex.toLex_lt_toLex]
  split_ifs with hnumber
  · rw [decide_eq_true_eq]
    simp [hnumber]
  · rw [not_not] at hnumber
    simp only [hnumber, lt_irrefl, true_and, false_or, Bool.and_eq_true, bytesLess,
      decide_eq_true_eq]
    constructor
    · exact And.right
    · intro hzone
      refine ⟨?_, hzone⟩
      by_contra hnot
      have h4 : ip.is6 = false := by simpa using hnot
      rw [zone_of_not_is6 h4, zone_of_not_is6 (is6_eq_of_bitLen h ▸ h4)] at hzone
      exact lt_irrefl _ hzone

theorem allowedIPLess_byKey : Sort.ByKey allowedIPLess prefixOrder := by
  intro a b
  rw [allowedIPLess, prefixOrder, prefixOrder, Prod.Lex.toLex_lt_toLex, Prod.Lex.toLex_lt_toLex]
  split_ifs with hlen hbits
  · rw [decide_eq_true_eq]
    simp [hlen]
  · rw [not_not] at hlen
    rw [decide_eq_true_eq]
    simp [hlen, hbits]
  · rw [not_not] at hlen hbits
    rw [addrLess_iff hlen]
    simp [hlen, hbits]

theorem addr_ext {ip ip2 : Addr} (hlen : ip.bitLen = ip2.bitLen) (hnumber : ip.number = ip2.number)
    (hzone : ip.zone = ip2.zone) : ip = ip2 := by
  cases ip <;> cases ip2 <;> try simp [Addr.bitLen] at hlen
  case zero.zero => rfl
  case v4.v4 a b => rw [BitVec.eq_of_toNat_eq (show a.toNat = b.toNat from hnumber)]
  case v6.v6 a z b w =>
    rw [BitVec.eq_of_toNat_eq (show a.toNat = b.toNat from hnumber), show z = w from hzone]

theorem prefixOrder_injective : Function.Injective prefixOrder := by
  intro p q h
  obtain ⟨pip, pbits⟩ := p
  obtain ⟨qip, qbits⟩ := q
  simp only [prefixOrder, EmbeddingLike.apply_eq_iff_eq, Prod.mk.injEq, Prefix.bits] at h
  obtain ⟨hlen, hbits, hnumber, hzone⟩ := h
  have hbits : pbits = qbits := by omega
  rw [addr_ext hlen hnumber (map_toNat_injective hzone), hbits]

structure Identifiable (c : Config) : Prop where
  name : tunnelNameIsValid c.name = true
  distinct : (c.peers.map (·.publicKey)).Nodup
  valid : ∀ p ∈ c.peers, ∀ a ∈ p.allowedIPs, a.Parsed
  peerCount : c.peers.length < 2 ^ 32
  allowedIPCount : ∀ p ∈ c.peers, p.allowedIPs.length < 2 ^ 32
  allowedIPLength : ∀ p ∈ c.peers, ∀ a ∈ p.allowedIPs, a.string.length < 2 ^ 32

def peerView (p : Peer) : Key × List Str :=
  (p.publicKey, (Sort.slice allowedIPLess p.allowedIPs).map Prefix.string)

def peerViews (c : Config) : List (Key × List Str) := (Sort.slice peerLess c.peers).map peerView

def encodeView (v : Key × List Str) : List UInt8 := v.1.bytes ++ counted framed v.2

theorem b2Number_eq {i : Nat} (h : i < 2 ^ 32) : b2Number i = some (leBytes 4 i) :=
  if_neg (by omega)

theorem b2String_eq {nfc : Str → Str} (hnfc : ∀ s, (∀ b ∈ s, b < 0x80) → nfc s = s) {s : Str}
    (hascii : ∀ b ∈ s, b < 0x80) (hlength : s.length < 2 ^ 32) :
    b2String nfc s = some (framed s) := by
  rw [b2String, hnfc s hascii]
  simp only [b2Number_eq hlength]
  rfl

theorem ascii_of_parsed {a : Prefix} (h : a.Parsed) : ∀ b ∈ a.string, b < 0x80 := by
  intro b hb
  exact UInt8.lt_trans (addrByte_of_parsed h b hb).graphic.2.1 (by decide)

section
variable {publicOf : Key → Key} {nfc : Str → Str} (hnfc : ∀ s, (∀ b ∈ s, b < 0x80) → nfc s = s)
  {c c' : Config} (hc : Identifiable c) (hc' : Identifiable c')
include hnfc hc

theorem b2Peer_eq {p : Peer} (hp : p ∈ c.peers) :
    b2Peer nfc p = some (encodeView (peerView p)) := by
  have hstrings : (Sort.slice allowedIPLess p.allowedIPs).mapM (fun ip => b2String nfc ip.string) =
      some ((Sort.slice allowedIPLess p.allowedIPs).map fun ip => framed ip.string) := by
    apply Loops.mapM_some
    intro a ha
    have ha := Sort.mem_slice.mp ha
    exact b2String_eq hnfc (ascii_of_parsed (hc.valid p hp a ha)) (hc.allowedIPLength p hp a ha)
  rw [b2Peer]
  simp only [b2Number_eq (hc.allowedIPCount p hp), hstrings]
  simp [encodeView, peerView, counted, Sort.slice_length, List.flatMap_def, Function.comp_def]

theorem guidInput_eq : guidInput publicOf nfc false c =
    some (deterministicGUIDLabel ++ (framed c.name ++ ((publicOf c.interface.privateKey).bytes ++
      counted encodeView (peerViews c)))) := by
  obtain ⟨hascii, hlength⟩ := ascii_of_validName hc.name
  have hpeers : (Sort.slice peerLess c.peers).mapM (b2Peer nfc) =
      some ((Sort.slice peerLess c.peers).map fun p => encodeView (peerView p)) := by
    apply Loops.mapM_some
    intro p hp
    exact b2Peer_eq hnfc hc (Sort.mem_slice.mp hp)
  rw [guidInput]
  simp only [b2String_eq hnfc hascii hlength, b2Number_eq hc.peerCount, hpeers]
  simp [peerViews, counted, Sort.slice_length, List.flatMap_def, Function.comp_def]

end

def peerIdentity (p : Peer) : Key × Multiset Prefix := (p.publicKey, Multiset.ofList p.allowedIPs)

def identity (publicOf : Key → Key) (c : Config) : Str × Key × Multiset (Key × Multiset Prefix) :=
  (c.name, publicOf c.interface.privateKey, Multiset.ofList (c.peers.map peerIdentity))

theorem peerView_eq_iff {p q : Peer} (hp : ∀ a ∈ p.allowedIPs, a.Parsed)
    (hq : ∀ a ∈ q.allowedIPs, a.Parsed) :
    peerView p = peerView q ↔ peerIdentity p = peerIdentity q := by
  simp only [peerView, peerIdentity, Prod.mk.injEq, Multiset.coe_eq_coe, and_congr_right_iff]
  intro _
  constructor
  · intro hstrings
    have hsorted := prefix_string_inj (fun a ha => hp a (Sort.mem_slice.mp ha))
      (fun a ha => hq a (Sort.mem_slice.mp ha)) hstrings
    have hperm := Sort.slice_perm allowedIPLess q.allowedIPs
    rw [← hsorted] at hperm
    exact (Sort.slice_perm allowedIPLess p.allowedIPs).symm.trans hperm
  · intro hperm
    rw [Sort.slice_congr allowedIPLess_byKey (fun _ _ _ _ h => prefixOrder_injective h) hperm]

theorem selfDelimiting_key : SelfDelimiting (fun _ : Key => True) Key.bytes := by
  refine selfDelimiting_of_length keyLength (fun k _ => k.length_eq) ?_
  intro k l _ _ h
  obtain ⟨kb, hk⟩ := k
  obtain ⟨lb, hl⟩ := l
  subst h
  rfl

theorem selfDelimiting_view : SelfDelimiting
    (fun v : Key × List Str => True ∧ v.2.length < 2 ^ 32 ∧ ∀ s ∈ v.2,
      s.length < 2 ^ 32) encodeView :=
  selfDelimiting_key.pair (selfDelimiting_counted selfDelimiting_framed)

theorem Identifiable.views {c : Config} (hc : Identifiable c) :
    (peerViews c).length < 2 ^ 32 ∧
      ∀ v ∈ peerViews c, True ∧ v.2.length < 2 ^ 32 ∧ ∀ s ∈ v.2, s.length < 2 ^ 32 := by
  constructor
  · rw [peerViews, List.length_map, Sort.slice_length]
    exact hc.peerCount
  · intro v hv
    obtain ⟨p, hp, rfl⟩ := List.mem_map.mp hv
    have hp := Sort.mem_slice.mp hp
    refine ⟨trivial, ?_, ?_⟩
    · rw [peerView, List.length_map, Sort.slice_length]
      exact hc.allowedIPCount p hp
    · intro s hs
      obtain ⟨a, ha, rfl⟩ := List.mem_map.mp hs
      exact hc.allowedIPLength p hp a (Sort.mem_slice.mp ha)

section
variable {c c' : Config} (hc : Identifiable c)
include hc

theorem peerViews_eq_iff (hc' : Identifiable c') :
    peerViews c = peerViews c' ↔
      (Sort.slice peerLess c.peers).map peerIdentity =
        (Sort.slice peerLess c'.peers).map peerIdentity := by
  have hview : ∀ p ∈ Sort.slice peerLess c.peers, ∀ q ∈ Sort.slice peerLess c'.peers,
      (peerView p = peerView q ↔ peerIdentity p = peerIdentity q) := fun p hp q hq =>
    peerView_eq_iff (hc.valid p (Sort.mem_slice.mp hp)) (hc'.valid q (Sort.mem_slice.mp hq))
  constructor
  · intro h
    rw [Loops.map_eq_map_iff_forall₂]
    exact Loops.forall₂_of_map_eq h fun p hp q hq => (hview p hp q hq).mp
  · intro h
    rw [peerViews, peerViews, Loops.map_eq_map_iff_forall₂]
    exact Loops.forall₂_of_map_eq h fun p hp q hq => (hview p hp q hq).mpr

/-- The peers are sorted by their keys, so only their order is lost. -/
theorem sortedIdentities_eq_iff :
    (Sort.slice peerLess c.peers).map peerIdentity =
      (Sort.slice peerLess c'.peers).map peerIdentity ↔
      (c.peers.map peerIdentity).Perm (c'.peers.map peerIdentity) := by
  have hperm : ∀ c : Config,
      ((Sort.slice peerLess c.peers).map peerIdentity).Perm (c.peers.map peerIdentity) :=
    fun c => (Sort.slice_perm peerLess c.peers).map peerIdentity
  constructor
  · intro h
    exact (hperm c).symm.trans (h ▸ hperm c')
  · intro h
    have hsorted : ∀ c : Config, ((Sort.slice peerLess c.peers).map peerIdentity).Pairwise
        fun v w => keyOrder v.1 ≤ keyOrder w.1 := fun c =>
      List.pairwise_map.mpr (Sort.slice_sorted peerLess_byKey c.peers)
    have hboth := ((hperm c).trans h).trans (hperm c').symm
    refine Sort.eq_of_sorted ?_ hboth (hsorted c) (hsorted c')
    -- a key stands for one peer
    intro v hv w hw hkey
    have hv := (hperm c).mem_iff.mp hv
    have hw := (hperm c).mem_iff.mp (hboth.mem_iff.mpr hw)
    have hdistinct : ((c.peers.map peerIdentity).map Prod.fst).Nodup := by
      rw [List.map_map]
      exact hc.distinct
    exact List.inj_on_of_nodup_map hdistinct hv hw (keyOrder_injective hkey)

end

/-- Two tunnels hash the same stream exactly if they agree on the name, the public key and
the peers with their addresses, in any order. -/
theorem guidInput_eq_iff {publicOf : Key → Key} {nfc : Str → Str}
    (hnfc : ∀ s, (∀ b ∈ s, b < 0x80) → nfc s = s) {c c' : Config} (hc : Identifiable c)
    (hc' : Identifiable c') :
    ∃ input input', guidInput publicOf nfc false c = some input ∧
      guidInput publicOf nfc false c' = some input' ∧
      (input = input' ↔ identity publicOf c = identity publicOf c') := by
  refine ⟨_, _, guidInput_eq hnfc hc, guidInput_eq hnfc hc', ?_⟩
  rw [List.append_cancel_left_eq]
  simp only [identity, Prod.mk.injEq, Multiset.coe_eq_coe]
  rw [← sortedIdentities_eq_iff hc, ← peerViews_eq_iff hc hc']
  constructor
  · intro h
    obtain ⟨hname, h⟩ := selfDelimiting_framed _ _ _ _ (ascii_of_validName hc.name).2
      (ascii_of_validName hc'.name).2 h
    obtain ⟨hkey, h⟩ := selfDelimiting_key _ _ _ _ trivial trivial h
    have h : counted encodeView (peerViews c) ++ [] = counted encodeView (peerViews c') ++ [] := by
      rw [List.append_nil, List.append_nil, h]
    obtain ⟨hviews, -⟩ := selfDelimiting_counted selfDelimiting_view _ _ _ _ hc.views hc'.views h
    exact ⟨hname, hkey, hviews⟩
  · rintro ⟨hname, hkey, hviews⟩
    rw [hname, hkey, hviews]

def samplePeer (n : UInt8) (allowedIPs : List Prefix) : Peer :=
  { publicKey := ⟨List.replicate keyLength n, List.length_replicate⟩, allowedIPs }

def sampleRoutes : List Prefix := [⟨.v4 0, 1⟩, ⟨.v6 0 [], 1⟩]

def sampleTunnel : Config :=
  { name := str "home", peers := [samplePeer 1 sampleRoutes, samplePeer 2 []] }

def reorderedTunnel : Config :=
  { name := str "home", peers := [samplePeer 2 [], samplePeer 1 sampleRoutes.reverse] }

theorem guidInput_reordered : ∃ input, guidInput id id false sampleTunnel = some input ∧
    guidInput id id false reorderedTunnel = some input := by
  have hroutes : ∀ a ∈ sampleRoutes, a.Parsed ∧ a.string.length < 2 ^ 32 := by
    simp only [sampleRoutes, List.forall_mem_cons]
    exact ⟨⟨⟨by decide, rfl, by decide, by decide⟩, by decide +kernel⟩,
      ⟨⟨by decide, rfl, by decide, by decide⟩, by decide +kernel⟩, by simp⟩
  have hsample : Identifiable sampleTunnel := by
    refine ⟨by decide +kernel, by decide +kernel, ?_, by decide, by decide, ?_⟩
    · simpa [sampleTunnel, samplePeer] using fun a ha => (hroutes a ha).1
    · simpa [sampleTunnel, samplePeer] using fun a ha => (hroutes a ha).2
  have hreordered : Identifiable reorderedTunnel := by
    refine ⟨by decide +kernel, by decide +kernel, ?_, by decide, by decide, ?_⟩
    · simpa [reorderedTunnel, samplePeer] using fun a ha => (hroutes a ha).1
    · simpa [reorderedTunnel, samplePeer] using fun a ha => (hroutes a ha).2
  have hnfc : ∀ s : Str, (∀ b ∈ s, b < 0x80) → id s = s := fun _ _ => rfl
  obtain ⟨input, input', hinput, hinput', hiff⟩ := guidInput_eq_iff hnfc hsample hreordered
  have hsame : identity id sampleTunnel = identity id reorderedTunnel := by decide +kernel
  exact ⟨input, hinput, by rw [hinput', hiff.mpr hsame]⟩

end WireGuardWindows.Tunnel
