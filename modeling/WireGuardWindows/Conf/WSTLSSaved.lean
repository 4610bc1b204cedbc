import WireGuardWindows.Conf.RoundTrip
import WireGuardWindows.Conf.WebSocketPeers
import WireGuardWindows.Conf.WSTLSStored

/-!
# Collected configurations

A configuration that was parsed and collected is written and read back like a parsed one,
since stored names are plain text, and is collected again from its own files.
-/

namespace WireGuardWindows.Conf
open GoStd Strings Unicode

variable {urlParse : Str → Option URL} {ε : Type}

theorem GoodName.valueText {s : Str} (h : GoodName s) : ValueText s := by
  have hspace : ∀ w ∈ spaceRunes, ∃ b ∈ w, isFileNameByte b = false := by decide +kernel
  have hnot (w : Str) (hw : w ∈ spaceRunes) (hsub : w ⊆ s) : False := by
    obtain ⟨b, hb, hno⟩ := hspace w hw
    rw [h.bytes b (hsub hb)] at hno
    cases hno
  refine ⟨⟨⟨fun w hw hp => hnot w hw hp.subset, fun w hw hp => hnot w hw hp.subset⟩, ?_⟩, ?_⟩
  · intro hmem
    exact absurd (h.bytes _ hmem) (by decide)
  · intro hmem
    exact absurd (h.bytes _ hmem) (by decide)

section Renaming

variable {stored : Map Str Str} (hstored : ∀ {r n}, stored.lookup r = some n → GoodName n)
include hstored

theorem valueText_renameReference {r : Str} (h : ValueText r) :
    ValueText (renameReference stored r) := by
  rw [renameReference]
  split_ifs with hr
  · exact hr ▸ h
  · cases hlookup : stored.lookup r with
    | none => exact h
    | some n => exact (hstored hlookup).valueText

theorem Peer.Ok.renameReferences {p : Peer} {wsKeys : List Str} (h : p.Ok urlParse wsKeys) :
    (p.renameReferences stored).Ok urlParse wsKeys := by
  have hne := @renameReference_ne_nil stored fun hr => (hstored hr).ne_nil
  constructor
  · exact h.header
  · exact h.lines
  · intro k
    have hfield := h.fields k
    cases k
    case wsTLSCA | wsTLSCert | wsTLSKey => exact valueText_renameReference hstored hfield
    all_goals exact hfield
  · intro k hk
    have hset := h.commented k hk
    cases k
    case wsTLSCA | wsTLSCert | wsTLSKey => exact (hne _).mpr hset
    all_goals exact hset
  · -- without WebSocket keys there is no reference to rename
    rintro rfl k hk
    have hnil (k' : PeerKey) (hk' : k'.wsKeyName ≠ none) {r : Str} (hr : p.field k' =
      some (decide (r ≠ []), r)) :
        renameReference stored r = r := by
      have habsent := (h.websocket rfl k' hk').absent hr
      rw [decide_eq_false_iff_not, not_not] at habsent
      rw [habsent, renameReference, if_pos rfl]
    have hsame : p.renameReferences stored = p := by
      rw [Peer.renameReferences, hnil .wsTLSCA (by decide) rfl, hnil .wsTLSCert (by decide) rfl,
        hnil .wsTLSKey (by decide) rfl]
    rw [hsame]
    exact h.websocket rfl k hk
  · exact h.counters

theorem Config.Canonical.renameReferences {c : Config} (h : c.Canonical urlParse) :
    Config.Canonical urlParse { c with peers := c.peers.map (Peer.renameReferences stored) } := by
  refine ⟨h.name, h.noFiles, h.interface, h.interfacePruned, ?_, h.trailing, h.trailingPruned⟩
  intro p hp
  obtain ⟨q, hq, rfl⟩ := List.mem_map.mp hp
  obtain ⟨⟨wsKeys, hok, hvalid⟩, hpruned, hkey⟩ := h.peers q hq
  exact ⟨⟨wsKeys, hok.renameReferences hstored, hvalid⟩, hpruned, hkey⟩

end Renaming

theorem GoodName.plainName {name : Str} (h : GoodName name) : Filepath.PlainName name := by
  intro b hb
  have hbyte := h.bytes b hb
  constructor
  · by_contra hsep
    rw [Bool.not_eq_false, Filepath.isPathSeparator, Bool.or_eq_true, beq_iff_eq,
      beq_iff_eq] at hsep
    rcases hsep with rfl | rfl
    · exact absurd hbyte (by decide)
    · exact absurd hbyte (by decide)
  · rintro rfl
    exact absurd hbyte (by decide)

theorem wsTLSFileReader_known {known : List (Str × List UInt8)} {disk : Disk ε} {name : Str}
    {data : List UInt8} (h : GoodName name) (hlookup : known.lookup name = some data) :
    wsTLSFileReader known disk name = .ok data := by
  rw [wsTLSFileReader, h.plainName.toSlash, hlookup]

theorem collected_canonical {config c : Config} {stored : Map Str Str}
    {read : Str → Except ε (List UInt8)} (hconfig : config.Canonical urlParse)
    (h : config.collectWSTLSFiles read = .ok (stored, c)) :
    Config.Canonical urlParse { c with wsTLSFiles := [] } ∧ c.name = config.name ∧
    ValidWSTLSFiles c ∧
      ∀ ref ∈ c.wsTLSReferences, wsTLSFileNameIsValid ref = true := by
  have hread : Contents read fun _ _ => True := ⟨fun _ => trivial, fun _ _ _ _ => trivial⟩
  obtain ⟨hvalid, hrenamed, hrefs, -, -, hname⟩ := collectWSTLSFiles_spec hread h
  have hgood : ∀ {r n}, stored.lookup r = some n → GoodName n :=
    fun hr => (wsTLSFileNameIsValid_iff.mp (hname hr)).1
  rw [hrenamed]
  refine ⟨?_, rfl, hrenamed ▸ validateWSTLSFiles_eq_ok.mp hvalid, ?_⟩
  · have hcan := hconfig.renameReferences hgood
    rw [← hconfig.noFiles]
    exact hcan
  · intro ref href
    obtain ⟨r, hr, rfl⟩ := (mem_renamed_references fun hr => (hgood hr).ne_nil).mp href
    obtain ⟨name, data, hlookup, hok, -⟩ := hrefs r hr
    rw [renameReference, if_neg (ne_nil_of_mem_wsTLSReferences hr), hlookup]
    exact hok

theorem collectWSTLSFiles_again {c : Config} (hvalid : ValidWSTLSFiles c)
    (hrefs : ∀ ref ∈ c.wsTLSReferences, wsTLSFileNameIsValid ref = true) (disk : Disk ε) :
    ∃ stored files, Config.collectWSTLSFiles (wsTLSFileReader c.wsTLSFiles disk)
    { c with wsTLSFiles := [] } =
        .ok (stored, { c with wsTLSFiles := files }) ∧ files.Perm c.wsTLSFiles ∧
      ∀ ref name, stored.lookup ref = some name → ref ∈ c.wsTLSReferences ∧ name = ref := by
  have hfile (ref : Str) (href : ref ∈ c.wsTLSReferences) :
      ∃ data, c.wsTLSFiles.lookup ref = some data ∧ (ref, data) ∈ c.wsTLSFiles ∧
        wsTLSFileReader c.wsTLSFiles disk ref = .ok data := by
    have hknown := hvalid.references ref href
    rw [if_pos (hrefs ref href)] at hknown
    obtain ⟨data, hdata⟩ := Option.isSome_iff_exists.mp hknown
    exact ⟨data, hdata, Map.mem_of_lookup hdata,
      wsTLSFileReader_known (wsTLSFileNameIsValid_iff.mp (hrefs ref href)).1 hdata⟩
  have hkeys : (c.wsTLSFiles.map Prod.fst).Nodup := by
    apply List.Nodup.of_map toLower
    rw [List.map_map]
    exact hvalid.distinct
  have hstored : StoredReferences (wsTLSFileReader c.wsTLSFiles disk) c.wsTLSReferences := by
    refine ⟨hrefs, ?_, ?_⟩
    · intro r₁ hr₁ r₂ hr₂ heq
      obtain ⟨d₁, -, hmem₁, -⟩ := hfile r₁ hr₁
      obtain ⟨d₂, -, hmem₂, -⟩ := hfile r₂ hr₂
      exact congrArg Prod.fst (List.inj_on_of_nodup_map hvalid.distinct hmem₁ hmem₂ heq)
    · intro ref href
      obtain ⟨data, -, hmem, hread⟩ := hfile ref href
      exact ⟨data, hread, (hvalid.files _ hmem).2.2⟩
  have hcount : c.wsTLSStoredFileNames.length ≤ maxWSTLSFiles := by
    have hsub : c.wsTLSStoredFileNames ⊆ c.wsTLSFiles.map Prod.fst := by
      intro name hname
      obtain ⟨data, -, hmem, -⟩ := hfile name (mem_wsTLSStoredFileNames.mp hname).1
      exact List.mem_map.mpr ⟨_, hmem, rfl⟩
    have hle := ((wsTLSStoredFileNames_nodup c).subperm hsub).length_le
    rw [List.length_map] at hle
    exact hle.trans hvalid.count
  have hcollect :=
    @collectWSTLSFiles_stored _ (wsTLSFileReader c.wsTLSFiles disk) { c with wsTLSFiles := [] }
    hstored hcount
  obtain ⟨stored, files, hcollect, hnodup, hmem, hkept⟩ := hcollect
  refine ⟨stored, files, hcollect, ?_, hkept⟩
  refine (List.perm_ext_iff_of_nodup hnodup.of_map hkeys.of_map).mpr ?_
  rintro ⟨name, data⟩
  rw [hmem]
  constructor
  · rintro ⟨hname, hread⟩
    obtain ⟨d, -, hd, hread'⟩ := hfile name (mem_wsTLSStoredFileNames.mp hname).1
    rw [hread, Except.ok.injEq] at hread'
    exact hread' ▸ hd
  · intro h
    obtain ⟨hok, href, -⟩ := hvalid.files _ h
    exact ⟨mem_wsTLSStoredFileNames.mpr ⟨href, hok⟩,
      wsTLSFileReader_known (wsTLSFileNameIsValid_iff.mp hok).1 (Map.lookup_of_mem hkeys h)⟩

end WireGuardWindows.Conf
