import WireGuardWindows.Conf.Config
import WireGuardWindows.GoStd.Memory

/-!
# The structures of the WireGuardNT configuration

`driver.Interface`, `driver.Peer` and `driver.AllowedIP` as Go lays them out on Windows,
with the padding the alignment of their fields calls for, and the socket address union
inside a peer. Each structure is written as the list of its fields; reading it back splits
its bytes at the same sizes.
-/

namespace WireGuardWindows.Driver

open GoStd GoStd.Netip GoStd.Memory Conf

def afInet : UInt16 := 2
def afInet6 : UInt16 := 23

def asSlice : Addr → List UInt8
  | .zero => []
  | .v4 a => beBytes 4 a.toNat
  | .v6 a _ => beBytes 16 a.toNat

def addrFrom4 (bs : List UInt8) : Addr := .v4 (BitVec.ofNat 32 (beNat bs))

def addrFrom16 (bs : List UInt8) : Addr := .v6 (BitVec.ofNat 128 (beNat bs)) []

def withZone (zone : Str) : Addr → Addr
  | .v6 a _ => .v6 a zone
  | ip => ip

/-- The number whose bytes in memory are those of `i` in network order. -/
def htons (i : UInt16) : UInt16 := (leNat (beBytes 2 i.toNat)).toUInt16

def ntohs (i : UInt16) : UInt16 := (beNat (leBytes 2 i.toNat)).toUInt16

/-- `winipcfg.RawSockaddrInet`. Seen as `RawSockaddrInet4` its data are the port, four
bytes of address and eight bytes of zeros; seen as `RawSockaddrInet6` the port, the flow
information, sixteen bytes of address and the scope. -/
structure RawSockaddrInet where
  family : UInt16
  data : Bytes 26

namespace RawSockaddrInet

def empty : RawSockaddrInet := ⟨0, List.replicate 26 0, rfl⟩

def data4 (port : UInt16) (a : BitVec 32) (data : Bytes 26) : Bytes 26 :=
  ⟨[leBytes 2 (htons port).toNat, beBytes 4 a.toNat, List.replicate 8 0, data.1.drop 14].flatten, by
    simp [data.2]⟩

def data6 (port : UInt16) (a : BitVec 128) (scopeId : UInt32) : Bytes 26 :=
  ⟨[leBytes 2 (htons port).toNat, leBytes 4 0, beBytes 16 a.toNat, leBytes 4 scopeId.toNat].flatten,
    by simp⟩

def scopeOf (zone : Str) : UInt32 :=
  match Strconv.parseUint zone 32 with
  | .ok n => n.toUInt32
  | .error _ => 0

def setAddrPort (raw : RawSockaddrInet) (ip : Addr) (port : UInt16) : RawSockaddrInet :=
  match ip with
  | .v4 a => ⟨afInet, data4 port a raw.data⟩
  | .v6 a zone => ⟨afInet6, data6 port a (if zone = [] then 0 else scopeOf zone)⟩
  | .zero => raw

def addr (raw : RawSockaddrInet) : Addr :=
  if raw.family = afInet then
    match splitFields [2, 4] raw.data.1 with
    | [_, a] => addrFrom4 a
    | _ => .zero
  else if raw.family = afInet6 then
    match splitFields [2, 4, 16, 4] raw.data.1 with
    | [_, _, a, scopeId] =>
      if leNat scopeId ≠ 0 then withZone (Strconv.itoa (leNat scopeId)) (addrFrom16 a)
      else addrFrom16 a
    | _ => .zero
  else .zero

def port (raw : RawSockaddrInet) : UInt16 :=
  if raw.family = afInet ∨ raw.family = afInet6 then ntohs (leNat (raw.data.1.take 2)).toUInt16
  else 0

def layout : Layout RawSockaddrInet where
  sizes := [2, 26]
  fields raw := [leBytes 2 raw.family.toNat, raw.data.1]
  ofFields
    | [family, data] =>
      if h : data.length = 26 then some ⟨(leNat family).toUInt16, data, h⟩ else none
    | _ => none
  fields_length raw := by simp [raw.data.2]
  ofFields_fields raw := by simp [raw.data.2, toUInt16_leNat_leBytes]

end RawSockaddrInet

theorem ntohs_htons (i : UInt16) : ntohs (htons i) = i := by
  have hlt : leNat (beBytes 2 i.toNat) < 65536 := by
    simpa using leNat_lt (beBytes 2 i.toNat)
  have hbytes : leBytes 2 (leNat (beBytes 2 i.toNat)) = beBytes 2 i.toNat := by
    simpa using leBytes_leNat (beBytes 2 i.toNat)
  have hstored : (htons i).toNat = leNat (beBytes 2 i.toNat) := by
    simp only [htons, Nat.toUInt16, UInt16.toNat_ofNat']
    exact Nat.mod_eq_of_lt hlt
  rw [ntohs, hstored, hbytes, beNat_beBytes i.toNat_lt]
  exact UInt16.ofNat_toNat

theorem addrFrom4_asSlice (a : BitVec 32) : addrFrom4 (asSlice (.v4 a)) = .v4 a := by
  have hlt : a.toNat < 256 ^ 4 := a.isLt
  rw [addrFrom4, asSlice, beNat_beBytes hlt, BitVec.ofNat_toNat, BitVec.setWidth_eq]

theorem addrFrom16_asSlice (a : BitVec 128) (zone : Str) :
    addrFrom16 (asSlice (.v6 a zone)) = .v6 a [] := by
  have hlt : a.toNat < 256 ^ 16 := a.isLt
  rw [addrFrom16, asSlice, beNat_beBytes hlt, BitVec.ofNat_toNat, BitVec.setWidth_eq]

theorem splitFields_data4 (port : UInt16) (a : BitVec 32) (data : Bytes 26) :
    splitFields [2, 4] (RawSockaddrInet.data4 port a data).1 =
      [leBytes 2 (htons port).toNat, asSlice (.v4 a)] := by
  have hport : (leBytes 2 (htons port).toNat).length = 2 := leBytes_length _ _
  have haddr : (beBytes 4 a.toNat).length = 4 := beBytes_length _ _
  simp only [RawSockaddrInet.data4, List.flatten_cons, splitFields, asSlice]
  rw [List.take_left' hport, List.drop_left' hport, List.take_left' haddr]

theorem splitFields_data6 (port : UInt16) (a : BitVec 128) (scopeId : UInt32) :
    splitFields [2, 4, 16, 4] (RawSockaddrInet.data6 port a scopeId).1 =
      [leBytes 2 (htons port).toNat, leBytes 4 0, asSlice (.v6 a []), leBytes 4 scopeId.toNat] := by
  have hsizes : ([leBytes 2 (htons port).toNat, leBytes 4 0, beBytes 16 a.toNat,
      leBytes 4 scopeId.toNat].map List.length) = [2, 4, 16, 4] := by simp
  rw [← hsizes]
  exact splitFields_flatten _

theorem port_setAddrPort (raw : RawSockaddrInet) (port : UInt16) {ip : Addr} (hvalid : ip ≠ .zero) :
    (raw.setAddrPort ip port).port = port := by
  have hport (rest : List UInt8) :
      (leNat ((leBytes 2 (htons port).toNat ++ rest).take 2)).toUInt16 = htons port := by
    rw [List.take_left' (leBytes_length 2 _), toUInt16_leNat_leBytes]
  cases ip with
  | zero => exact absurd rfl hvalid
  | v4 a =>
    simp only [RawSockaddrInet.port, RawSockaddrInet.setAddrPort, true_or, if_true,
      RawSockaddrInet.data4, List.flatten_cons]
    rw [hport, ntohs_htons]
  | v6 a zone =>
    simp only [RawSockaddrInet.port, RawSockaddrInet.setAddrPort, or_true, if_true,
      RawSockaddrInet.data6, List.flatten_cons]
    rw [hport, ntohs_htons]

theorem addr_setAddrPort (raw : RawSockaddrInet) {ip : Addr} (hne : ip ≠ .zero)
    (hzone : ip.withoutZone = ip) (port : UInt16) :
    (raw.setAddrPort ip port).addr = ip ∧ (raw.setAddrPort ip port).port = port := by
  refine ⟨?_, port_setAddrPort raw port hne⟩
  cases ip with
  | zero => exact absurd rfl hne
  | v4 a =>
    simp only [RawSockaddrInet.addr, RawSockaddrInet.setAddrPort, splitFields_data4, if_true,
      addrFrom4_asSlice]
  | v6 a zone =>
    have hnil : zone = [] := by
      injection hzone with _ h
      exact h.symm
    subst hnil
    have hfamily : afInet6 ≠ afInet := by decide
    simp only [RawSockaddrInet.addr, RawSockaddrInet.setAddrPort, splitFields_data6, if_true,
      if_neg hfamily, addrFrom16_asSlice]
    simp [leNat, leBytes]

structure AllowedIP where
  address : Bytes 16
  addressFamily : UInt16
  cidr : UInt8
  flags : UInt32 := 0

def AllowedIP.layout : Layout AllowedIP where
  sizes := [16, 2, 1, 1, 4]
  fields a := [a.address.1, leBytes 2 a.addressFamily.toNat, [a.cidr], [0], leBytes 4 a.flags.toNat]
  ofFields
    | [address, family, cidr, _, flags] =>
      if h : address.length = 16 then
        some ⟨⟨address, h⟩, (leNat family).toUInt16, (leNat cidr).toUInt8, (leNat flags).toUInt32⟩
      else none
    | _ => none
  fields_length a := by simp [a.address.2]
  ofFields_fields a := by
    simp [a.address.2, toUInt16_leNat_leBytes, toUInt32_leNat_leBytes, toUInt8_leNat_singleton]

def peerHasPublicKey : UInt32 := 1
def peerHasPresharedKey : UInt32 := 2
def peerHasPersistentKeepalive : UInt32 := 4
def peerHasEndpoint : UInt32 := 8

structure Peer where
  flags : UInt32
  publicKey : Key
  presharedKey : Key
  persistentKeepalive : UInt16
  endpoint : RawSockaddrInet
  txBytes : UInt64 := 0
  rxBytes : UInt64 := 0
  lastHandshake : UInt64 := 0
  allowedIPsCount : UInt32

def keyOfBytes (bs : List UInt8) : Option Key :=
  if h : bs.length = keyLength then some ⟨bs, h⟩ else none

theorem keyOfBytes_bytes (k : Key) : keyOfBytes k.bytes = some k := by
  rw [keyOfBytes, dif_pos k.length_eq]

/-- Four bytes follow the flags and the count, two the keepalive interval. -/
def Peer.layout : Layout Peer where
  sizes := [4, 4, 32, 32, 2, 2, 28, 8, 8, 8, 4, 4]
  fields p := [leBytes 4 p.flags.toNat, leBytes 4 0, p.publicKey.bytes, p.presharedKey.bytes,
    leBytes 2 p.persistentKeepalive.toNat, leBytes 2 0, RawSockaddrInet.layout.bytes p.endpoint,
    leBytes 8 p.txBytes.toNat, leBytes 8 p.rxBytes.toNat, leBytes 8 p.lastHandshake.toNat,
    leBytes 4 p.allowedIPsCount.toNat, leBytes 4 0]
  ofFields
    | [flags, _, publicKey, presharedKey, keepalive, _, endpoint, tx, rx, handshake, count, _] => do
      return {
        flags := (leNat flags).toUInt32
        publicKey := ← keyOfBytes publicKey
        presharedKey := ← keyOfBytes presharedKey
        persistentKeepalive := (leNat keepalive).toUInt16
        endpoint := ← RawSockaddrInet.layout.readAt endpoint 0
        txBytes := (leNat tx).toUInt64
        rxBytes := (leNat rx).toUInt64
        lastHandshake := (leNat handshake).toUInt64
        allowedIPsCount := (leNat count).toUInt32 }
    | _ => none
  fields_length p := by
    simp [p.publicKey.length_eq, p.presharedKey.length_eq, keyLength]
    rfl
  ofFields_fields p := by
    have hendpoint : RawSockaddrInet.layout.readAt (RawSockaddrInet.layout.bytes p.endpoint) 0 =
        some p.endpoint := by
      simpa using RawSockaddrInet.layout.readAt_append [] [] p.endpoint rfl
    simp [keyOfBytes_bytes, hendpoint, toUInt16_leNat_leBytes, toUInt32_leNat_leBytes,
      toUInt64_leNat_leBytes]

def interfaceHasPrivateKey : UInt32 := 2
def interfaceHasListenPort : UInt32 := 4

structure Interface where
  flags : UInt32
  listenPort : UInt16
  privateKey : Key
  publicKey : Key := Key.zero
  peerCount : UInt32

/-- Two bytes of padding precede the count, four follow it. -/
def Interface.layout : Layout Interface where
  sizes := [4, 2, 32, 32, 2, 4, 4]
  fields i := [leBytes 4 i.flags.toNat, leBytes 2 i.listenPort.toNat, i.privateKey.bytes,
    i.publicKey.bytes, leBytes 2 0, leBytes 4 i.peerCount.toNat, leBytes 4 0]
  ofFields
    | [flags, listenPort, privateKey, publicKey, _, peerCount, _] => do
      return {
        flags := (leNat flags).toUInt32
        listenPort := (leNat listenPort).toUInt16
        privateKey := ← keyOfBytes privateKey
        publicKey := ← keyOfBytes publicKey
        peerCount := (leNat peerCount).toUInt32 }
    | _ => none
  fields_length i := by
    simp [i.privateKey.length_eq, i.publicKey.length_eq, keyLength]
  ofFields_fields i := by
    simp [keyOfBytes_bytes, toUInt16_leNat_leBytes, toUInt32_leNat_leBytes]

end WireGuardWindows.Driver
