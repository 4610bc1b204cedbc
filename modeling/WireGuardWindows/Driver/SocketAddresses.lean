import WireGuardWindows.Driver.Layout

/-!
# Socket addresses in reused memory

`SetAddrPort` writes a structure that may hold an earlier address. Its documentation says
that all members other than family, address and port are set to zero. The IPv4 layout ends
before the union does, and nothing is written behind it.
-/

namespace WireGuardWindows.Driver
open GoStd GoStd.Netip GoStd.Memory

namespace RawSockaddrInet

/-- The structure as documented: the address, the port, the scope of a zone, and zeros. -/
def documented (ip : Addr) (port : UInt16) : RawSockaddrInet :=
  match ip with
  | .v4 a =>
    ⟨afInet, [leBytes 2 (htons port).toNat, beBytes 4 a.toNat,
      List.replicate 20 0].flatten, by simp⟩
  | .v6 a zone => ⟨afInet6, data6 port a (if zone = [] then 0 else scopeOf zone)⟩
  | .zero => empty

def tail (raw : RawSockaddrInet) : List UInt8 := raw.data.1.drop 14

end RawSockaddrInet

def ScopeZone (zone : Str) : Prop := zone = [] ∨ ∃ n, 0 < n ∧ n < 2 ^ 32 ∧ zone = Strconv.itoa n

section
variable (raw : RawSockaddrInet) (port : UInt16)

theorem withZone_scope {zone : Str} (h : ScopeZone zone) (a : BitVec 128) :
    let scopeId : UInt32 := if zone = [] then 0 else RawSockaddrInet.scopeOf zone
    (if leNat (leBytes 4 scopeId.toNat) ≠ 0 then
      withZone (Strconv.itoa (leNat (leBytes 4 scopeId.toNat))) (.v6 a []) else .v6 a []) =
        .v6 a zone := by
  intro scopeId
  rw [leNat_leBytes scopeId.toNat_lt]
  rcases h with rfl | ⟨n, hpos, hlt, rfl⟩
  · rfl
  · have hscope : scopeId.toNat = n := by
      have hne := Strconv.itoa_ne_nil n
      simp only [scopeId, if_neg hne, RawSockaddrInet.scopeOf, Strconv.parseUint_itoa hlt,
        Nat.toUInt32, UInt32.toNat_ofNat']
      exact Nat.mod_eq_of_lt hlt
    rw [hscope, if_pos hpos.ne']
    rfl

theorem addr_setAddrPort_zone {ip : Addr} (hvalid : ip ≠ .zero) (hzone : ScopeZone ip.zone) :
    (raw.setAddrPort ip port).addr = ip := by
  cases ip with
  | zero => exact absurd rfl hvalid
  | v4 a => exact (addr_setAddrPort raw hvalid rfl port).1
  | v6 a zone =>
    have hfamily : afInet6 ≠ afInet := by decide
    simp only [RawSockaddrInet.addr, RawSockaddrInet.setAddrPort, if_neg hfamily, if_true,
      splitFields_data6, addrFrom16_asSlice]
    exact withZone_scope hzone a

theorem setAddrPort_v4_eq (a : BitVec 32) :
    raw.setAddrPort (.v4 a) port = .documented (.v4 a) port ↔ raw.tail = List.replicate 12 0 := by
  have hzeros : List.replicate 20 (0 : UInt8) = List.replicate 8 0 ++ List.replicate 12 0 := by
    decide
  simp only [RawSockaddrInet.setAddrPort, RawSockaddrInet.documented, RawSockaddrInet.data4,
    RawSockaddrInet.mk.injEq, Subtype.mk.injEq, List.flatten_cons, List.flatten_nil,
    List.append_nil, true_and, hzeros, List.append_cancel_left_eq, RawSockaddrInet.tail]

end

/-- The address and the port are read back after every setting. The other bytes are those of the
documentation exactly when the address is an IPv6 one or nothing was left behind the IPv4 layout. -/
theorem setAddrPort_documented_iff (raw : RawSockaddrInet) (ip : Addr) (port : UInt16)
    (hvalid : ip ≠ .zero) (hzone : ScopeZone ip.zone) :
    ((raw.setAddrPort ip port).addr = ip ∧ (raw.setAddrPort ip port).port = port ∧
      raw.setAddrPort ip port = .documented ip port) ↔ ip.is6 = true ∨
        raw.tail = List.replicate 12 0 := by
  have haddr := addr_setAddrPort_zone raw port hvalid hzone
  have hport := port_setAddrPort raw port hvalid
  cases ip with
  | zero => exact absurd rfl hvalid
  | v4 a =>
    have hbytes := setAddrPort_v4_eq raw port a
    constructor
    · rintro ⟨-, -, h⟩
      exact .inr (hbytes.mp h)
    · rintro (h | h)
      · cases h
      · exact ⟨haddr, hport, hbytes.mpr h⟩
  | v6 a zone => exact ⟨fun _ => .inl rfl, fun _ => ⟨haddr, hport, rfl⟩⟩

theorem setAddrPort_documented_iff_fresh :
    let ip := Addr.v4 0x7F000001
    (RawSockaddrInet.empty.setAddrPort ip 80).addr = ip ∧
    (RawSockaddrInet.empty.setAddrPort ip 80).port = 80 ∧
      RawSockaddrInet.empty.setAddrPort ip 80 = .documented ip 80 :=
  (setAddrPort_documented_iff .empty (.v4 0x7F000001) 80 (by decide) (.inl rfl)).mpr (.inr rfl)

/-- An IPv4 address set after an IPv6 one: the end of the IPv6 address stays. -/
theorem setAddrPort_leaves_bytes :
    let before := RawSockaddrInet.empty.setAddrPort (.v6 1 []) 443
    before.setAddrPort (.v4 0x7F000001) 80 ≠ .documented (.v4 0x7F000001) 80 ∧
      before.setAddrPort (.v4 0x7F000001) 80 ≠ RawSockaddrInet.empty.setAddrPort
        (.v4 0x7F000001) 80 := by
  intro before
  constructor
  · intro h
    have hbytes := congrArg (fun raw => raw.data.1) h
    exact absurd hbytes (by decide)
  · intro h
    have hbytes := congrArg (fun raw => raw.data.1) h
    exact absurd hbytes (by decide)

end WireGuardWindows.Driver
