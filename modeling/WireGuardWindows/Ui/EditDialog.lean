import WireGuardWindows.Conf.WSTLSSaved
import WireGuardWindows.GoStd.NetipMask
import WireGuardWindows.Tunnel.AddressConfig

/-!
# The edit dialog

Saving reads the text of the editor back and collects its TLS files from those the
configuration had. The checkbox for untunneled traffic rewrites the allowed networks of a
single peer between default routes and their halves.
-/

namespace WireGuardWindows.Ui
open GoStd Strings Netip Conf Loops

variable {urlParse : Str → Option URL} {ε : Type}

inductive SaveError (ε : Type)
  | config (err : Conf.Error)
  | files (err : CollectError (ReadError ε))

def copied (known : List (Str × List UInt8)) (stored : Map Str Str) : List (Str × Str) :=
  stored.pairs.filter fun e => (known.lookup e.1).isNone

/-- `onSaveButtonClicked` once the name has been checked: the new configuration of the dialog
and the copies it discloses. -/
def save (urlParse : Str → Option URL) (disk : Disk ε) (known : List (Str × List UInt8))
    (text newName : Str) :
    Except (SaveError ε) (Config × List (Str × Str)) :=
  match fromWgQuick urlParse text newName with
  | .error err => .error (.config err)
  | .ok cfg =>
    match cfg.collectWSTLSFiles (wsTLSFileReader known disk) with
    | .error err => .error (.files err)
    | .ok (stored, cfg) => .ok (cfg, copied known stored)

theorem save_unchanged {δ : Type} {s name : Str} {config c : Config} {stored : Map Str Str}
    {read : Str → Except δ (List UInt8)} (hparse : fromWgQuick urlParse s name = .ok config)
    (hcollect : config.collectWSTLSFiles read = .ok (stored, c)) (disk : Disk ε) :
    fromWgQuick urlParse c.toWgQuick name = .ok { c with wsTLSFiles := [] } ∧
      (∀ ref ∈ c.wsTLSReferences, (c.wsTLSFiles.lookup (Filepath.toSlash ref)).isSome = true) ∧
      ∃ files, save urlParse disk c.wsTLSFiles c.toWgQuick name = .ok
      ({ c with wsTLSFiles := files }, []) ∧
        files.Perm c.wsTLSFiles := by
  obtain ⟨hcanonical, hname⟩ := fromWgQuick_canonical hparse
  obtain ⟨hcan, hcname, hvalid, hrefs⟩ := collected_canonical hcanonical hcollect
  have hknown : ∀ ref ∈ c.wsTLSReferences, (c.wsTLSFiles.lookup ref).isSome = true := by
    intro ref href
    have hfile := hvalid.references ref href
    rwa [if_pos (hrefs ref href)] at hfile
  have hread : fromWgQuick urlParse c.toWgQuick name = .ok { c with wsTLSFiles := [] } := by
    rw [← hcname.trans hname]
    exact hcan.fromWgQuick_toWgQuick
  refine ⟨hread, ?_, ?_⟩
  · intro ref href
    rw [(wsTLSFileNameIsValid_iff.mp (hrefs ref href)).1.plainName.toSlash]
    exact hknown ref href
  · obtain ⟨stored', files, hagain, hperm, hkept⟩ := collectWSTLSFiles_again hvalid hrefs disk
    have hcopied : copied c.wsTLSFiles stored' = [] := by
      rw [copied, List.filter_eq_nil_iff]
      rintro ⟨ref, n⟩ hpair
      have hmem := (hkept ref n (Map.mem_pairs.mp hpair)).1
      obtain ⟨data, hdata⟩ := Option.isSome_iff_exists.mp (hknown ref hmem)
      simp [hdata]
    refine ⟨files, ?_, hperm⟩
    simp only [save, hread, hagain, hcopied]

def outsideText : Str := wstunnelText ++ str "\nWSTLSCA = C:\\pki\\ca.pem"

theorem save_unchanged_outside :
    ∃ config stored c, fromWgQuick (fun _ => some wstunnelURL) outsideText
      (str "wg0") = .ok config ∧
      config.collectWSTLSFiles (fun _ : Str => (.ok [1] : Except Unit (List UInt8))) =
        .ok (stored, c) ∧
      c.wsTLSFiles = [(str "ca.pem", [1])] ∧
      ∃ files, save (fun _ => some wstunnelURL)
        (⟨fun _ => .error (), fun _ => .error ()⟩ : Disk Unit) c.wsTLSFiles
        c.toWgQuick (str "wg0") = .ok ({ c with wsTLSFiles := files }, []) := by
  have hread : ((fromWgQuick (fun _ => some wstunnelURL) outsideText (str "wg0")).toOption.bind
    fun config =>
      (config.collectWSTLSFiles (fun _ : Str => (.ok [1] : Except Unit (List UInt8)))).toOption.map
        fun r => r.2.wsTLSFiles) = some [(str "ca.pem", [1])] := by
    decide +kernel
  cases hparse : fromWgQuick (fun _ => some wstunnelURL) outsideText (str "wg0") with
  | error e => simp [hparse, Except.toOption] at hread
  | ok config =>
    rw [hparse] at hread
    cases hcollect : config.collectWSTLSFiles (fun _ : Str =>
      (.ok [1] : Except Unit (List UInt8))) with
    | error e => simp [hcollect, Except.toOption] at hread
    | ok r =>
      obtain ⟨stored, c⟩ := r
      have hfiles : c.wsTLSFiles = [(str "ca.pem", [1])] := by
        simpa [hcollect, Except.toOption] using hread
      obtain ⟨-, -, files, hsave, -⟩ := save_unchanged hparse hcollect
        (⟨fun _ => .error (), fun _ => .error ()⟩ : Disk Unit)
      exact ⟨config, stored, c, rfl, hcollect, hfiles, files, hsave⟩

def v400 : Prefix := prefixFrom (.v4 0) 0
def v600000 : Prefix := prefixFrom (.v6 0 []) 0
def v401 : Prefix := prefixFrom (.v4 0) 1
def v600001 : Prefix := prefixFrom (.v6 0 []) 1
def v41281 : Prefix := prefixFrom (.v4 0x80000000) 1
def v680001 : Prefix := prefixFrom (.v6 0x80000000000000000000000000000000 []) 1

structure BlockLoop where
  foundV401 : Bool := false
  foundV41281 : Bool := false
  foundV600001 : Bool := false
  foundV680001 : Bool := false
  newAllowedIPs : List Prefix := []

def BlockLoop.see (st : BlockLoop) (allowedip : Prefix) : BlockLoop :=
  if allowedip = v600001 then { st with foundV600001 := true }
  else if allowedip = v680001 then { st with foundV680001 := true }
  else if allowedip = v401 then { st with foundV401 := true }
  else if allowedip = v41281 then { st with foundV41281 := true }
  else { st with newAllowedIPs := st.newAllowedIPs ++ [allowedip] }

def joinHalves (found0 found1 : Bool) (full half0 half1 : Prefix) : List Prefix :=
  if found0 && found1 then [full] else if found0 then [half0] else if found1 then [half1] else []

def blockAllowedIPs (allowedIPs : List Prefix) : Option (List Prefix) :=
  let st := allowedIPs.foldl BlockLoop.see {}
  if !((st.foundV401 && st.foundV41281) || (st.foundV600001 && st.foundV680001)) then none
  else some (st.newAllowedIPs ++ joinHalves st.foundV401 st.foundV41281 v400 v401 v41281 ++
    joinHalves st.foundV600001 st.foundV680001 v600000 v600001 v680001)

structure UnblockLoop where
  foundV400 : Bool := false
  foundV600000 : Bool := false
  newAllowedIPs : List Prefix := []

def UnblockLoop.see (st : UnblockLoop) (allowedip : Prefix) : UnblockLoop :=
  if allowedip = v600000 then { st with foundV600000 := true }
  else if allowedip = v400 then { st with foundV400 := true }
  else { st with newAllowedIPs := st.newAllowedIPs ++ [allowedip] }

def unblockAllowedIPs (allowedIPs : List Prefix) : Option (List Prefix) :=
  let st := allowedIPs.foldl UnblockLoop.see {}
  if !(st.foundV400 || st.foundV600000) then none
  else some (st.newAllowedIPs ++ (if st.foundV400 then [v401, v41281] else []) ++
    if st.foundV600000 then [v600001, v680001] else [])

/-- The new text; `none` when the text is set to what it was. -/
def onBlockUntunneledTrafficCBCheckedChanged (urlParse : Str → Option URL) (block : Bool)
    (text : Str) :
    Option Str :=
  match fromWgQuick urlParse text (str "temporary") with
  | .error _ => none
  | .ok cfg =>
    match cfg.peers with
    | [peer] =>
      (if block then blockAllowedIPs peer.allowedIPs else unblockAllowedIPs peer.allowedIPs).map
        fun newAllowedIPs =>
          Config.toWgQuick { cfg with peers := [{ peer with allowedIPs := newAllowedIPs }] }
    | _ => none

def replaced (block : Bool) : List Prefix :=
  if block then [v401, v41281, v600001, v680001] else [v400, v600000]

def Covered (networks : List Prefix) (ip : Addr) : Prop := ∃ p ∈ networks, p.contains ip = true

theorem foldl_blockLoop (networks : List Prefix) (st : BlockLoop) :
    networks.foldl BlockLoop.see st =
      ⟨st.foundV401 || decide (v401 ∈ networks), st.foundV41281 || decide (v41281 ∈ networks),
        st.foundV600001 || decide (v600001 ∈ networks), st.foundV680001 || decide
          (v680001 ∈ networks),
        st.newAllowedIPs ++ networks.filter (· ∉ replaced true)⟩ := by
  have hdistinct : (replaced true).Nodup := by decide
  induction networks generalizing st with
  | nil => simp
  | cons p networks ih =>
    rw [List.foldl_cons, ih, BlockLoop.see]
    simp only [replaced] at *
    grind

theorem foldl_unblockLoop (networks : List Prefix) (st : UnblockLoop) :
    networks.foldl UnblockLoop.see st =
      ⟨st.foundV400 || decide (v400 ∈ networks), st.foundV600000 || decide (v600000 ∈ networks),
        st.newAllowedIPs ++ networks.filter (· ∉ replaced false)⟩ := by
  have hdistinct : v400 ≠ v600000 := by decide
  induction networks generalizing st with
  | nil => simp
  | cons p networks ih =>
    rw [List.foldl_cons, ih, UnblockLoop.see]
    simp only [replaced] at *
    grind

theorem covered_replaced {networks added R : List Prefix} {ip : Addr}
    (h : Covered added ip ↔ ∃ p ∈ R, p ∈ networks ∧ p.contains ip = true) :
    Covered (networks.filter (· ∉ R) ++ added) ip ↔ Covered networks ip := by
  have happend : Covered (networks.filter (· ∉ R) ++ added) ip ↔
      (∃ p, (p ∈ networks ∧ p ∉ R) ∧ p.contains ip = true) ∨ Covered added ip := by
    simp only [Covered, List.mem_append, List.mem_filter, decide_eq_true_eq,
      or_and_right, exists_or]
  rw [happend, h]
  constructor
  · rintro (⟨p, ⟨hp, -⟩, hip⟩ | ⟨p, -, hp, hip⟩)
    · exact ⟨p, hp, hip⟩
    · exact ⟨p, hp, hip⟩
  · rintro ⟨p, hp, hip⟩
    by_cases hR : p ∈ R
    · exact .inr ⟨p, hR, hp, hip⟩
    · exact .inl ⟨p, ⟨hp, hR⟩, hip⟩

theorem covered_joinHalves {found0 found1 : Bool} {full half0 half1 : Prefix} {ip : Addr}
    (h : full.contains ip = (half0.contains ip || half1.contains ip)) :
    Covered (joinHalves found0 found1 full half0 half1) ip ↔
      (found0 = true ∧ half0.contains ip = true) ∨ (found1 = true ∧ half1.contains ip = true) := by
  cases found0 <;> cases found1 <;> simp [joinHalves, Covered, h]

theorem covered_append {l₁ l₂ : List Prefix} {ip : Addr} :
    Covered (l₁ ++ l₂) ip ↔ Covered l₁ ip ∨ Covered l₂ ip := by
  simp only [Covered, List.mem_append, or_and_right, exists_or]

structure Toggled (block : Bool) (networks allowed : List Prefix) : Prop where
  kept : ∃ added, allowed = networks.filter (· ∉ replaced block) ++ added ∧
    ∀ p ∈ added, p ∈ replaced true ++ replaced false
  covered : ∀ ip, Covered allowed ip ↔ Covered networks ip
  nonempty : allowed ≠ []
  routes : if block then ∃ p ∈ allowed, p ∈ replaced false else ∀ p ∈ allowed, p ∉ replaced false

theorem v400_contains (ip : Addr) : v400.contains ip = (v401.contains ip || v41281.contains ip) :=
  contains_halves4 ip

theorem v600000_contains (ip : Addr) :
    v600000.contains ip = (v600001.contains ip || v680001.contains ip) :=
  contains_halves6 ip

theorem blockAllowedIPs_toggled {networks allowed : List Prefix}
    (h : blockAllowedIPs networks = some allowed) :
    Toggled true networks allowed := by
  rw [blockAllowedIPs, foldl_blockLoop] at h
  simp only [Bool.false_or, List.nil_append] at h
  split_ifs at h with hfound
  cases h
  rw [List.append_assoc]
  -- one of the families has both halves
  have hroute : ∃ p ∈ joinHalves (v401 ∈ networks) (v41281 ∈ networks) v400 v401 v41281 ++
      joinHalves (v600001 ∈ networks) (v680001 ∈ networks) v600000 v600001 v680001,
      p ∈ replaced false := by
    simp only [Bool.not_eq_true', Bool.not_eq_false, Bool.or_eq_true, Bool.and_eq_true] at hfound
    rcases hfound with ⟨h0, h1⟩ | ⟨h0, h1⟩
    · refine ⟨v400, ?_, by decide⟩
      simp [joinHalves, h0, h1]
    · refine ⟨v600000, ?_, by decide⟩
      simp [joinHalves, h0, h1]
  obtain ⟨route, hmem, hroute⟩ := hroute
  have hmem := List.mem_append_right (networks.filter (· ∉ replaced true)) hmem
  refine ⟨⟨_, rfl, ?_⟩, fun ip => covered_replaced ?_, List.ne_nil_of_mem hmem,
    ⟨route, hmem, hroute⟩⟩
  · intro p hp
    simp only [joinHalves, replaced] at hp ⊢
    grind
  · rw [covered_append, covered_joinHalves (v400_contains ip),
      covered_joinHalves (v600000_contains ip)]
    simp only [replaced, if_true, decide_eq_true_eq, List.exists_mem_cons_iff,
      List.not_mem_nil, false_and, exists_false, or_false, or_assoc]

theorem unblockAllowedIPs_toggled {networks allowed : List Prefix}
    (h : unblockAllowedIPs networks = some allowed) :
    Toggled false networks allowed := by
  rw [unblockAllowedIPs, foldl_unblockLoop] at h
  simp only [Bool.false_or, List.nil_append] at h
  by_cases hfound : (!(decide (v400 ∈ networks) || decide (v600000 ∈ networks))) = true
  · rw [if_pos hfound] at h
    cases h
  rw [if_neg hfound] at h
  cases h
  rw [List.append_assoc]
  have hhalf : v401 ∉ replaced false ∧ v41281 ∉ replaced false ∧ v600001 ∉ replaced false ∧
    v680001 ∉ replaced false := by decide
  refine ⟨⟨_, rfl, ?_⟩, fun ip => covered_replaced ?_, ?_, ?_⟩
  · intro p hp
    simp only [replaced] at hp ⊢
    grind
  · rw [covered_append]
    simp only [replaced, Bool.false_eq_true, if_false, decide_eq_true_eq, List.exists_mem_cons_iff,
      List.not_mem_nil, false_and, exists_false, or_false, v400_contains, v600000_contains]
    by_cases h4 : v400 ∈ networks <;> by_cases h6 : v600000 ∈ networks <;> simp [Covered, h4, h6]
  · simp only [Bool.not_eq_true', Bool.not_eq_false, Bool.or_eq_true] at hfound
    rcases hfound with h | h <;> simp [h]
  · intro p hp
    simp only [List.mem_append, List.mem_filter, decide_eq_true_eq] at hp
    grind

theorem isDefaultRoute_iff {p : Prefix} : Tunnel.isDefaultRoute p = true ↔ p ∈ replaced false := by
  have h4 := masked_eq_v4 p 0 (Nat.zero_le 32)
  have h6 := masked_eq_v6 p 0 (Nat.zero_le 128)
  simp only [keepHigh_zero, and_true] at h4 h6
  rw [Tunnel.isDefaultRoute, Bool.and_eq_true, decide_eq_true_eq, decide_eq_true_eq]
  constructor
  · rintro ⟨hbits, hmasked⟩
    cases hip : p.ip with
    | zero =>
      rw [Prefix.masked, hip, hbits] at hmasked
      rw [hmasked] at hbits
      exact absurd hbits (by decide)
    | v4 a =>
      have heq : p = v400 := hmasked.trans (h4.mpr ⟨a, hip, hbits⟩)
      exact heq ▸ by decide
    | v6 a zone =>
      have heq : p = v600000 := hmasked.trans (h6.mpr ⟨a, zone, hip, hbits⟩)
      exact heq ▸ by decide
  · intro hp
    rcases List.mem_cons.mp hp with rfl | hp
    · decide
    · rw [List.mem_singleton] at hp
      subst hp
      decide

theorem replaced_parsed : ∀ p ∈ replaced true ++ replaced false, p.Parsed := by
  simp only [Prefix.Parsed]
  decide

theorem Toggled.parsed {block : Bool} {networks allowed : List Prefix}
    (h : Toggled block networks allowed) (hnetworks : ∀ p ∈ networks, p.Parsed) :
    ∀ p ∈ allowed, p.Parsed := by
  obtain ⟨added, rfl, hadded⟩ := h.kept
  intro p hp
  rcases List.mem_append.mp hp with hp | hp
  · exact hnetworks p (List.mem_of_mem_filter hp)
  · exact replaced_parsed p (hadded p hp)

theorem canonical_allowedIPs {c : Config} {peer : Peer} {allowed : List Prefix}
    (h : c.Canonical urlParse) (hpeers : c.peers = [peer]) (hallowed : ∀ p ∈ allowed, p.Parsed)
    (hne : allowed ≠ []) :
    Config.Canonical urlParse { c with peers := [{ peer with allowedIPs := allowed }] } := by
  obtain ⟨⟨wsKeys, hok, hvalid⟩, hpruned, hkey⟩ :=
    h.peers peer (hpeers ▸ List.mem_singleton_self peer)
  refine ⟨h.name, h.noFiles, h.interface, h.interfacePruned, ?_, h.trailing, h.trailingPruned⟩
  intro p hp
  cases List.mem_singleton.mp hp
  refine ⟨⟨wsKeys, ⟨hok.header, hok.lines, ?_, ?_, ?_, hok.counters⟩, hvalid⟩, hpruned, hkey⟩
  · intro k
    have hfield := hok.fields k
    cases k
    case allowedIPs => exact hallowed
    all_goals exact hfield
  · intro k hk
    have hset := hok.commented k hk
    cases k
    case allowedIPs => exact hne
    all_goals exact hset
  · intro hnil k hk
    have hunwritten := hok.websocket hnil k hk
    cases k
    case allowedIPs => exact absurd rfl hk
    all_goals exact hunwritten

theorem toggle_keepsRouting {text newText name : Str} {c : Config} {block : Bool}
    (hparse : fromWgQuick urlParse text name = .ok c)
    (htoggle : onBlockUntunneledTrafficCBCheckedChanged urlParse block text = some newText) :
    ∃ peer allowed, c.peers = [peer] ∧
      fromWgQuick urlParse newText name = .ok
      { c with peers := [{ peer with allowedIPs := allowed }] } ∧
      (∀ ip, Covered allowed ip ↔ Covered peer.allowedIPs ip) ∧
      (∃ added, allowed = peer.allowedIPs.filter (· ∉ replaced block) ++ added ∧
        ∀ p ∈ added, p ∈ replaced true ++ replaced false) ∧
      (block = false →
        Tunnel.doNotRestrict { c with peers := [{ peer with allowedIPs := allowed }] } = true) ∧
      (block = true →
        Tunnel.doNotRestrict { c with peers := [{ peer with allowedIPs := allowed }] } =
        c.interface.tableOff) := by
  have hvalid : tunnelNameIsValid (str "temporary") = true := by decide +kernel
  have htemporary :=
    @fromWgQuick_withName urlParse text name (str "temporary") (fromWgQuick_eq_ok hparse).1 hvalid
  obtain ⟨hcanonical, hname⟩ := fromWgQuick_canonical hparse
  rw [hparse] at htemporary
  simp only [onBlockUntunneledTrafficCBCheckedChanged, htemporary, Except.map,
    Config.withName] at htoggle
  split at htoggle
  · rename_i peer hpeers
    obtain ⟨allowed, hallowed, rfl⟩ := Option.map_eq_some_iff.mp htoggle
    have htoggled : Toggled block peer.allowedIPs allowed := by
      cases block with
      | true => exact blockAllowedIPs_toggled hallowed
      | false => exact unblockAllowedIPs_toggled hallowed
    have hok := (hcanonical.peers peer (hpeers ▸ List.mem_singleton_self peer)).1
    have hparsed : ∀ p ∈ peer.allowedIPs, p.Parsed := by
      obtain ⟨wsKeys, hok, -⟩ := hok
      exact hok.fields .allowedIPs
    have hnew := canonical_allowedIPs hcanonical hpeers (htoggled.parsed hparsed) htoggled.nonempty
    refine ⟨peer, allowed, hpeers, ?_, htoggled.covered, htoggled.kept, ?_, ?_⟩
    · rw [← hname]
      exact hnew.fromWgQuick_toWgQuick
    · rintro rfl
      have hnone : allowed.any Tunnel.isDefaultRoute = false := by
        rw [List.any_eq_false]
        exact fun p hp hroute => htoggled.routes p hp (isDefaultRoute_iff.mp hroute)
      simp [Tunnel.doNotRestrict, hnone]
    · rintro rfl
      obtain ⟨p, hp, hroute⟩ := htoggled.routes
      have hsome : allowed.any Tunnel.isDefaultRoute = true :=
        List.any_eq_true.mpr ⟨p, hp, isDefaultRoute_iff.mpr hroute⟩
      simp [Tunnel.doNotRestrict, hsome]
  · cases htoggle

def fullTunnelText : Str :=
  str ("[Interface]\nPrivateKey = yAnz5TF+lXXJte14tji3zlMNq+hd2rYUIgJBgB3fBmk=\n[Peer]\n" ++
    "PublicKey = xTIBA5rboUvnH4htodjb6e697QjLERt1NAB4mZqp8Dg=\n" ++
    "AllowedIPs = 0.0.0.0/0, 10.0.0.0/8, ::/0")

theorem toggle_keepsRouting_fullTunnel :
    ∃ newText c peer allowed,
      onBlockUntunneledTrafficCBCheckedChanged (fun _ => none) false fullTunnelText = some newText ∧
      fromWgQuick (fun _ => none) fullTunnelText (str "wg0") = .ok c ∧ c.peers = [peer] ∧
      fromWgQuick (fun _ => none) newText (str "wg0") =
        .ok { c with peers := [{ peer with allowedIPs := allowed }] } ∧
      Tunnel.doNotRestrict { c with peers := [{ peer with allowedIPs := allowed }] } = true := by
  have hread : (fromWgQuick (fun _ => none) fullTunnelText (str "wg0")).toOption.isSome = true := by
    decide +kernel
  have htoggle : (onBlockUntunneledTrafficCBCheckedChanged
      (fun _ => none) false fullTunnelText).isSome = true := by
    decide +kernel
  obtain ⟨newText, hnew⟩ := Option.isSome_iff_exists.mp htoggle
  cases hparse : fromWgQuick (fun _ => none) fullTunnelText (str "wg0") with
  | error e => simp [hparse, Except.toOption] at hread
  | ok c =>
    obtain ⟨peer, allowed, hpeers, hback, -, -, hopen, -⟩ := toggle_keepsRouting hparse hnew
    exact ⟨newText, c, peer, allowed, hnew, rfl, hpeers, hback, hopen rfl⟩

end WireGuardWindows.Ui
