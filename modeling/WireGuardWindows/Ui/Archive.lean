import WireGuardWindows.GoStd.Path
import WireGuardWindows.Manager.Requests

/-!
# Archives of tunnels

The export writes `name.conf` for every tunnel and its TLS files as `name/file`. The import
takes every entry whose extension is `.conf` for a configuration, wherever it stands in the
archive, and looks the TLS files of a configuration up in the folder of its name. So
importing an export restores the tunnels unless the name of a stored TLS file ends in `.conf`.

What opening a selected file gives is part of the input; `ε` are the errors of the system.
-/

namespace WireGuardWindows.Ui
open GoStd Strings Strconv Unicode Systems Loops Conf Manager

variable {ε : Type}

abbrev Entry := Str × List UInt8

inductive ExportError
  | storedConfig (err : StoreError)
  | missing (file tunnel : Str)

def fileEntry (cfg : Config) (tunnelName name : Str) : Except ExportError Entry :=
  match cfg.wsTLSFiles.lookup name with
  | none => .error (.missing name tunnelName)
  | some data => .ok (tunnelName ++ slash :: name, data)

section
variable (dpapi : Dpapi) (urlParse : Str → Option URL) (decoders : List (Str → Option Str))
  (elevatedToken : Nat) (files : Files)

def exportTunnel (tunnelName : Str) : Except ExportError (List Entry) := do
  let cfg ← (answer (ManagerService.storedConfig dpapi urlParse decoders elevatedToken tunnelName)
    files).mapError .storedConfig
  let entries ← cfg.wsTLSStoredFileNames.mapM (fileEntry cfg tunnelName)
  return (tunnelName ++ str ".conf", cfg.toWgQuick) :: entries

def exportTunnels (tunnels : List Str) : Except ExportError (List Entry) := do
  return (← tunnels.mapM (exportTunnel dpapi urlParse decoders elevatedToken files)).flatten

end

structure ZipFile (ε : Type) where
  name : Str
  uncompressedSize : Nat
  content : Except ε (List UInt8)

def ZipFile.written (e : Entry) : ZipFile ε := ⟨e.1, e.2.length, .ok e.2⟩

def wsTLSZipFileReader (disk : Disk ε) (files : Map Str (ZipFile ε)) (confPath ref : Str) :
    Except (ReadError ε) (List UInt8) :=
  let dir := GoStd.Path.dir confPath
  let name := trimSuffix (GoStd.Path.base confPath) (GoStd.Path.ext confPath)
  if Filepath.isAbs ref then wsTLSFileReader [] disk ref
  else
    let rel := Filepath.toSlash ref
    let candidates := [GoStd.Path.join [dir, name, rel], GoStd.Path.join [dir, rel]]
    match candidates.findSome? fun candidate => files.lookup candidate with
    | none => .error .notInArchive
    | some f =>
      if maxWSTLSFileSize < f.uncompressedSize then .error .tooLarge
      else match f.content with
        | .error err => .error (.os err)
        | .ok content =>
          let data := content.take (maxWSTLSFileSize + 1)
          if maxWSTLSFileSize < data.length then .error .tooLarge else .ok data

structure UnparsedConfig (ε : Type) where
  name : Str
  config : Str
  readWSTLSFile : Str → Except (ReadError ε) (List UInt8)

inductive Selected (ε : Type)
  | conf (path : Str) (text : Except ε Str)
  (readWSTLSFile : Str → Except (ReadError ε) (List UInt8))
  | zip (files : Except ε (List (ZipFile ε)))
  | other

structure Extracted (ε : Type) where
  unparsedConfigs : List (UnparsedConfig ε) := []
  lastErr : Option ε := none

def configNameOf (path : Str) : Str := trimSuffix (Filepath.base path) (Filepath.ext path)

def isConfFile (path : Str) : Bool := toLower (Filepath.ext path) == str ".conf"

def Extracted.add (st : Extracted ε) (path : Str) (text : Except ε Str)
    (readWSTLSFile : Str → Except (ReadError ε) (List UInt8)) : Extracted ε :=
  match text with
  | .error err => { st with lastErr := some err }
  | .ok text =>
    { st with unparsedConfigs := st.unparsedConfigs ++ [⟨configNameOf path, text, readWSTLSFile⟩] }

def Extracted.file (disk : Disk ε) (zipFiles : Map Str (ZipFile ε)) (st : Extracted ε)
    (f : ZipFile ε) :
    Extracted ε :=
  if isConfFile f.name then st.add f.name f.content (wsTLSZipFileReader disk zipFiles f.name)
    else st

def Extracted.select (disk : Disk ε) (st : Extracted ε) : Selected ε → Extracted ε
  | .conf path text readWSTLSFile => st.add path text readWSTLSFile
  | .zip (.error err) => { st with lastErr := some err }
  | .zip (.ok files) =>
    files.foldl (Extracted.file disk (Map.ofList (files.map fun f => (f.name, f)))) st
  | .other => st

inductive ImportError (ε : Type)
  | os (err : ε)
  | noConfigurationFiles
  | nameExists (name : Str)
  | config (err : Error)
  | collect (err : CollectError (ReadError ε))
  | newTunnel (err : StoreError)

section
variable (dpapi : Dpapi) (urlParse : Str → Option URL) (decoders : List (Str → Option Str))
  (elevatedToken : Nat)

def collectConfig (unparsed : UnparsedConfig ε) :
    Except (ImportError ε) (Map Str Str × Config) := do
  let config ← (fromWgQuickWithUnknownEncoding urlParse decoders unparsed.config
    unparsed.name).mapError .config
  (config.collectWSTLSFiles unparsed.readWSTLSFile).mapError .collect

def importConfig (unparsed : UnparsedConfig ε) :
    Store (Except (ImportError ε) (Map Str Str × Config)) :=
  match collectConfig urlParse decoders unparsed with
  | .error err => return .error err
  | .ok (stored, config) => do
    match ← attempt (create dpapi elevatedToken config) with
    | .error err => return .error (.newTunnel err)
    | .ok _ => return .ok (stored, config)

structure Importing (ε : Type) where
  existingLowerTunnels : List Str
  created : List Config := []
  copiedWSTLSFiles : List Str := []
  lastErr : Option (ImportError ε) := none

def copiedLine (tunnel : Str) (copy : Str × Str) : Str :=
  tunnel ++ str ": " ++ copy.1 ++ [0x20, 0xE2, 0x86, 0x92, 0x20] ++ copy.2

def Importing.add (st : Importing ε) (name : Str) (stored : Map Str Str) (config : Config) :
    Importing ε :=
  { st with
    existingLowerTunnels := toLower name :: st.existingLowerTunnels
    created := st.created ++ [config]
    copiedWSTLSFiles := st.copiedWSTLSFiles ++ stored.pairs.map (copiedLine name) }

def Importing.step (st : Importing ε) (unparsed : UnparsedConfig ε) : Store (Importing ε) :=
  if toLower unparsed.name ∈ st.existingLowerTunnels then
    return { st with lastErr := some (.nameExists unparsed.name) }
  else do
    match ← importConfig dpapi urlParse decoders elevatedToken unparsed with
    | .error err => return { st with lastErr := some err }
    | .ok (stored, config) => return st.add unparsed.name stored config

inductive Message (ε : Type)
  | couldNotImport (err : ImportError ε)
  | couldNotEnumerate (err : ε)
  | unableToImport (err : Option (ImportError ε))
  | imported (count : Nat)
  | importedOf (count total : Nat)
  | copied (files : List Str)

def Message.isError : Message ε → Bool
  | .imported _ | .copied _ => false
  | .couldNotImport _ | .couldNotEnumerate _ | .unableToImport _ | .importedOf _ _ => true

structure Report (ε : Type) where
  unparsed : List Str := []
  created : List Config := []
  messages : List (Message ε) := []

def countMessages (m n : Nat) (lastErr : Option (ImportError ε)) : List (Message ε) :=
  if n = 1 then if m = n then [] else [.unableToImport lastErr]
  else if m = n then [.imported m] else [.importedOf m n]

def Importing.report (st : Importing ε) (unparsed : List Str) : Report ε where
  unparsed := unparsed
  created := st.created
  messages := countMessages st.created.length unparsed.length st.lastErr ++
    if st.copiedWSTLSFiles = [] then []
    else [.copied (Sort.slice bytesLess st.copiedWSTLSFiles)]

def importConfigs (unparsed : List (UnparsedConfig ε)) (existing : List Str) :
    Store (Report ε) := do
  let st ← unparsed.foldlM (Importing.step dpapi urlParse decoders elevatedToken)
    { existingLowerTunnels := existing.map toLower }
  return st.report (unparsed.map (·.name))

def importFiles (size : IntSize) (disk : Disk ε) (tunnels : Except ε (List Str))
    (selected : List (Selected ε)) : Store (Report ε) :=
  let extracted := selected.foldl (Extracted.select disk) {}
  match extracted.lastErr with
  | some err => return { messages := [.couldNotImport (.os err)] }
  | none =>
    if extracted.unparsedConfigs = [] then
      return { messages := [.couldNotImport .noConfigurationFiles] }
    else
      -- in reverse order, so that the first one is selected
      let unparsed := Sort.slice (fun a b => tunnelNameIsLess size b.name a.name)
        extracted.unparsedConfigs
      match tunnels with
      | .error err =>
        return { unparsed := unparsed.map (·.name), messages := [.couldNotEnumerate err] }
      | .ok existing =>
        importConfigs dpapi urlParse decoders elevatedToken unparsed existing

end

structure PathElement (name : Str) : Prop where
  plain : Filepath.PlainName name
  element : GoStd.Path.PlainName name

theorem element_of_tunnelName {name : Str} (h : tunnelNameIsValid name = true) :
    PathElement name := by
  simp only [tunnelNameIsValid, hasSpecialChars, Bool.and_eq_true, Bool.not_eq_true',
    Bool.or_eq_false_iff, beq_eq_false_iff_ne, List.all_eq_true, decide_eq_true_eq] at h
  obtain ⟨⟨-, ⟨-, hhead⟩, -⟩, ⟨hbytes, hlength⟩, -⟩ := h
  have hplain := Filepath.plainName_of_bytes hbytes (by decide) (by decide) (by decide)
  refine ⟨hplain, GoStd.Path.plainName_of_head hplain.slash_notMem ?_ hhead⟩
  exact List.ne_nil_of_length_pos hlength

theorem element_of_fileName {name : Str} (h : wsTLSFileNameIsValid name = true) :
    PathElement name := by
  obtain ⟨hgood, -⟩ := wsTLSFileNameIsValid_iff.mp h
  have hplain := Filepath.plainName_of_bytes hgood.bytes (by decide) (by decide) (by decide)
  exact ⟨hplain, GoStd.Path.plainName_of_head hplain.slash_notMem hgood.ne_nil hgood.head⟩

theorem ext_conf (name : Str) : Filepath.ext (name ++ str ".conf") = str ".conf" :=
  Filepath.ext_append (by decide +kernel) (by decide +kernel)

theorem isConfFile_conf (name : Str) : isConfFile (name ++ str ".conf") = true := by
  rw [isConfFile, ext_conf]
  decide

theorem isConfFile_slash {name file : Str} (h : PathElement file) :
    isConfFile (name ++ slash :: file) = isConfFile file := by
  rw [isConfFile, Filepath.ext_slash_append h.plain, isConfFile]

theorem PathElement.conf_plain {name : Str} (h : PathElement name) :
    Filepath.PlainName (name ++ str ".conf") := by
  have hconf : ∀ b ∈ str ".conf", Filepath.isPathSeparator b = false ∧ b ≠ colon := by
    decide +kernel
  intro b hb
  exact (List.mem_append.mp hb).elim (h.plain b) (hconf b)

theorem PathElement.configNameOf_conf {name : Str} (h : PathElement name) :
    configNameOf (name ++ str ".conf") = name := by
  have hne : name ++ str ".conf" ≠ [] := List.append_ne_nil_of_left_ne_nil h.element.ne_nil _
  rw [configNameOf, h.conf_plain.base hne, ext_conf, trimSuffix_append]

theorem wsTLSZipFileReader_written {disk : Disk ε} {archive : Map Str (ZipFile ε)}
    {name ref path : Str} {data : List UInt8} (hname : PathElement name) (href : PathElement ref)
    (hdata : data.length ≤ maxWSTLSFileSize)
    (hlookup : archive.lookup (name ++ slash :: ref) = some (.written (path, data))) :
    wsTLSZipFileReader disk archive (name ++ str ".conf") ref = .ok data := by
  have hslash := hname.conf_plain.slash_notMem
  have hne : name ++ str ".conf" ≠ [] := List.append_ne_nil_of_left_ne_nil hname.element.ne_nil _
  have hext : GoStd.Path.ext (name ++ str ".conf") = str ".conf" :=
    GoStd.Path.ext_append hname.plain.slash_notMem (by decide) (by decide)
  have hjoin : GoStd.Path.join [[dot], name, ref] = name ++ slash :: ref := by
    rw [GoStd.Path.join_dot (by simp [hname.element, href.element]) (List.cons_ne_nil _ _)]
    simp [List.intercalate]
  rw [wsTLSZipFileReader, GoStd.Path.dir_of_notMem hslash, GoStd.Path.base_of_notMem hslash hne,
    hext, trimSuffix_append, href.plain.isAbs, href.plain.toSlash]
  simp only [hjoin, Bool.false_eq_true, if_false, List.findSome?_cons, hlookup, ZipFile.written,
    Nat.not_lt.mpr hdata, List.take_of_length_le (Nat.le_succ_of_le hdata)]


def unparsedOf (disk : Disk ε) (archive : Map Str (ZipFile ε)) (e : Entry) : UnparsedConfig ε :=
  ⟨configNameOf e.1, e.2, wsTLSZipFileReader disk archive e.1⟩

def confEntries (entries : List Entry) : List Entry := entries.filter (isConfFile ·.1)

theorem confEntries_append (entries entries' : List Entry) :
    confEntries (entries ++ entries') = confEntries entries ++ confEntries entries' :=
  List.filter_append entries entries'

theorem foldl_file (disk : Disk ε) (archive : Map Str (ZipFile ε)) (entries : List Entry)
    (st : Extracted ε) :
    (entries.map ZipFile.written).foldl (Extracted.file disk archive) st =
      { st with unparsedConfigs := st.unparsedConfigs ++
          (confEntries entries).map (unparsedOf disk archive) } := by
  induction entries generalizing st with
  | nil => simp [confEntries]
  | cons e entries ih =>
    rw [List.map_cons, List.foldl_cons, ih, Extracted.file, ZipFile.written, confEntries,
      confEntries]
    dsimp only
    by_cases hconf : isConfFile e.1 = true
    · rw [if_pos hconf, List.filter_cons, if_pos hconf, Extracted.add, List.map_cons,
        List.append_assoc]
      rfl
    · rw [if_neg hconf, List.filter_cons, if_neg hconf]

def archiveOf (entries : List Entry) : Map Str (ZipFile ε) :=
  Map.ofList ((entries.map ZipFile.written).map fun f => (f.name, f))

theorem extracted_zip (disk : Disk ε) (entries : List Entry) :
    [Selected.zip (.ok (entries.map ZipFile.written))].foldl (Extracted.select disk) {} =
      { unparsedConfigs :=
          (confEntries entries).map (unparsedOf disk (archiveOf entries)) } :=
  foldl_file disk (archiveOf entries) entries {}

theorem archiveOf_lookup {entries : List Entry} {e : Entry} (h : e ∈ entries)
    (honly : ∀ e' ∈ entries, e'.1 = e.1 → e' = e) :
    (archiveOf entries : Map Str (ZipFile ε)).lookup e.1 = some (.written e) := by
  apply Map.lookup_ofList
  · exact List.mem_map.mpr ⟨.written e, List.mem_map_of_mem h, rfl⟩
  · intro f hf
    obtain ⟨g, hg, heq⟩ := List.mem_map.mp hf
    obtain ⟨e', he', rfl⟩ := List.mem_map.mp hg
    obtain ⟨hname, rfl⟩ := Prod.ext_iff.mp heq
    rw [honly e' he' hname]

section
variable (dpapi : Dpapi) (urlParse : Str → Option URL) (files : Files)

structure Stored (c : Config) : Prop where
  accepted : ∃ text, fromWgQuick urlParse text c.name = .ok { c with wsTLSFiles := [] }
  references : ∀ ref ∈ c.wsTLSReferences, wsTLSFileNameIsValid ref = true
  valid : ValidWSTLSFiles c
  held : Holds dpapi files c

end

def fileEntries (c : Config) : List Entry :=
  c.wsTLSStoredFileNames.map fun name =>
    (c.name ++ slash :: name, (c.wsTLSFiles.lookup name).getD [])

def exported (c : Config) : List Entry := (c.name ++ str ".conf", c.toWgQuick) :: fileEntries c

section
variable {dpapi : Dpapi} {urlParse : Str → Option URL} {decoders : List (Str → Option Str)}
  {elevatedToken : Nat} {files : Files} {c : Config} {cs : List Config}

theorem Stored.canonical (h : Stored dpapi urlParse files c) :
    Config.Canonical urlParse { c with wsTLSFiles := [] } := by
  obtain ⟨text, haccepted⟩ := h.accepted
  exact (fromWgQuick_canonical haccepted).1

theorem exportTunnel_stored (h : Stored dpapi urlParse files c) (helevated : elevatedToken ≠ 0) :
    exportTunnel dpapi urlParse decoders elevatedToken files c.name = .ok (exported c) := by
  obtain ⟨hconfig, stored, hstored, hperm⟩ :=
    @Holds.loaded dpapi urlParse decoders c files h.held h.canonical h.valid
  have hnodup : (stored.map Prod.fst).Nodup := (hperm.map Prod.fst).nodup_iff.mpr h.valid.nodup
  have hentries : c.wsTLSStoredFileNames.mapM (fileEntry { c with wsTLSFiles := stored } c.name) =
      .ok (fileEntries c) := by
    apply mapM_ok
    intro name hname
    obtain ⟨data, hdata⟩ := h.valid.stored hname
    rw [fileEntry, Map.lookup_of_mem hnodup (hperm.mem_iff.mpr (Map.mem_of_lookup hdata)), hdata]
    rfl
  rw [exportTunnel, storedConfig_elevated helevated hconfig hstored]
  exact congrArg (fun entries : Except ExportError (List Entry) => entries >>= fun entries =>
    .ok ((c.name ++ str ".conf", c.toWgQuick) :: entries)) hentries

theorem exportTunnels_stored (h : ∀ c ∈ cs, Stored dpapi urlParse files c)
    (helevated : elevatedToken ≠ 0) :
    exportTunnels dpapi urlParse decoders elevatedToken files (cs.map (·.name)) =
      .ok (cs.flatMap exported) := by
  have hall : (cs.map (·.name)).mapM (exportTunnel dpapi urlParse decoders elevatedToken files) =
      .ok (cs.map exported) := by
    rw [List.mapM_map]
    exact mapM_ok fun c hc => exportTunnel_stored (h c hc) helevated
  rw [exportTunnels, hall]
  rfl

theorem Stored.element (h : Stored dpapi urlParse files c) : PathElement c.name :=
  element_of_tunnelName h.canonical.name

theorem mem_fileEntries {e : Entry} :
    e ∈ fileEntries c ↔ ∃ name ∈ c.wsTLSStoredFileNames,
      e = (c.name ++ slash :: name, (c.wsTLSFiles.lookup name).getD []) := by
  simp only [fileEntries, List.mem_map, eq_comm]

/-- Names of tunnels and of TLS files hold no slash, so the path tells them apart. -/
theorem exported_only (h : ∀ c ∈ cs, Stored dpapi urlParse files c)
    (hnames : (cs.map (toLower ·.name)).Nodup) (hc : c ∈ cs) {ref : Str} {e : Entry}
    (he : e ∈ cs.flatMap exported) (hpath : e.1 = c.name ++ slash :: ref) :
    e = (c.name ++ slash :: ref, (c.wsTLSFiles.lookup ref).getD []) := by
  obtain ⟨d, hd, he⟩ := List.mem_flatMap.mp he
  rcases List.mem_cons.mp he with rfl | he
  · dsimp only at hpath
    have hslash : slash ∈ d.name ++ str ".conf" := by
      rw [hpath]
      exact List.mem_append_right _ List.mem_cons_self
    exact absurd hslash (h d hd).element.conf_plain.slash_notMem
  · obtain ⟨name, hname, rfl⟩ := mem_fileEntries.mp he
    have helement := element_of_fileName (mem_wsTLSStoredFileNames.mp hname).2
    obtain ⟨hsame, -, rfl⟩ := (List.append_cons_inj_of_notMem
      (h d hd).element.plain.slash_notMem helement.plain.slash_notMem).mp hpath
    obtain rfl := List.inj_on_of_nodup_map hnames hd hc (congrArg toLower hsame)
    rfl

theorem exported_lookup (h : ∀ c ∈ cs, Stored dpapi urlParse files c)
    (hnames : (cs.map (toLower ·.name)).Nodup) (hc : c ∈ cs) {ref : Str} {data : List UInt8}
    (href : ref ∈ c.wsTLSStoredFileNames) (hdata : c.wsTLSFiles.lookup ref = some data) :
    (archiveOf (cs.flatMap exported) : Map Str (ZipFile ε)).lookup (c.name ++ slash :: ref) =
      some (.written (c.name ++ slash :: ref, data)) := by
  have hentry : (c.name ++ slash :: ref, data) ∈ cs.flatMap exported := by
    refine List.mem_flatMap.mpr ⟨c, hc, List.mem_cons_of_mem _ (mem_fileEntries.mpr ?_)⟩
    exact ⟨ref, href, by rw [hdata, Option.getD_some]⟩
  refine archiveOf_lookup hentry fun e he hpath => ?_
  rw [exported_only h hnames hc he hpath, hdata, Option.getD_some]

theorem Stored.collects (h : Stored dpapi urlParse files c)
    {read : Str → Except (ReadError ε) (List UInt8)}
    (hread : ∀ ref ∈ c.wsTLSStoredFileNames, ∀ data, c.wsTLSFiles.lookup ref = some data →
      read ref = .ok data) :
    ∃ stored contents, collectConfig urlParse decoders ⟨c.name, c.toWgQuick, read⟩ =
        .ok (stored, { c with wsTLSFiles := contents }) ∧
      contents.Perm c.wsTLSFiles ∧ ValidWSTLSFiles { c with wsTLSFiles := contents } := by
  let parsed : Config := { c with wsTLSFiles := [] }
  have hparsed : fromWgQuick urlParse c.toWgQuick c.name = .ok parsed :=
    h.canonical.fromWgQuick_toWgQuick
  have hstored (ref : Str) (href : ref ∈ c.wsTLSReferences) : ref ∈ c.wsTLSStoredFileNames :=
    mem_wsTLSStoredFileNames.mpr ⟨href, h.references ref href⟩
  have hsize {ref : Str} {data : List UInt8} (hdata : c.wsTLSFiles.lookup ref = some data) :
      data.length ≤ maxWSTLSFileSize := (h.valid.files _ (Map.mem_of_lookup hdata)).2.2
  have hreferences : StoredReferences read parsed.wsTLSReferences := by
    refine ⟨h.references, fun r₁ hr₁ r₂ hr₂ heq => ?_, fun ref href => ?_⟩
    · obtain ⟨d₁, hd₁⟩ := h.valid.stored (hstored r₁ hr₁)
      obtain ⟨d₂, hd₂⟩ := h.valid.stored (hstored r₂ hr₂)
      exact congrArg Prod.fst (List.inj_on_of_nodup_map h.valid.distinct
        (Map.mem_of_lookup hd₁) (Map.mem_of_lookup hd₂) heq)
    · obtain ⟨data, hdata⟩ := h.valid.stored (hstored ref href)
      exact ⟨data, hread ref (hstored ref href) data hdata, hsize hdata⟩
  have hcount : parsed.wsTLSStoredFileNames.length ≤ maxWSTLSFiles := by
    have hsub : c.wsTLSStoredFileNames ⊆ c.wsTLSFiles.map Prod.fst := by
      intro name hname
      obtain ⟨data, hdata⟩ := h.valid.stored hname
      exact List.mem_map.mpr ⟨_, Map.mem_of_lookup hdata, rfl⟩
    have hle := ((wsTLSStoredFileNames_nodup c).subperm hsub).length_le
    rw [List.length_map] at hle
    exact hle.trans h.valid.count
  obtain ⟨stored, contents, hcollect, hnodup, hmem, -⟩ :=
    collectWSTLSFiles_stored hreferences hcount
  obtain ⟨-, -, hvalid, -⟩ := collected_canonical h.canonical hcollect
  refine ⟨stored, contents, ?_, h.valid.perm hnodup fun name data => ?_, hvalid⟩
  · rw [collectConfig, fromWgQuickWithUnknownEncoding, hparsed]
    change (parsed.collectWSTLSFiles read).mapError ImportError.collect = _
    rw [hcollect]
    rfl
  · rw [hmem]
    refine and_congr_right fun hname => ?_
    obtain ⟨d, hd⟩ := h.valid.stored hname
    rw [hread name hname d hd, hd, Except.ok.injEq, Option.some.injEq]

structure Imports (urlParse : Str → Option URL) (decoders : List (Str → Option Str))
    (u : UnparsedConfig ε) (r : Map Str Str × Config) : Prop where
  collected : collectConfig urlParse decoders u = .ok r
  valid : ValidWSTLSFiles r.2
  name : r.2.name = u.name
  nameIsValid : tunnelNameIsValid u.name = true

theorem Imports.step {u : UnparsedConfig ε} {r : Map Str Str × Config} {st : Importing ε}
    (h : Imports urlParse decoders u r) (helevated : elevatedToken ≠ 0)
    (hdistinct : files.Distinct toLower) (hnew : toLower u.name ∉ st.existingLowerTunnels) :
    ∃ files', Gives (st.step dpapi urlParse decoders elevatedToken u) files
        (st.add u.name r.1 r.2) files' ∧
      files'.Distinct toLower ∧ Holds dpapi files' r.2 ∧ Others files u.name files' := by
  have hname : tunnelNameIsValid r.2.name = true := h.name ▸ h.nameIsValid
  obtain ⟨files', hcreate, hdistinct'⟩ := @create_gives dpapi elevatedToken r.2 files helevated
    h.valid hname hdistinct
  obtain ⟨-, hholds, hothers⟩ := (create_holds files r.2).ok rfl hcreate.ok
  refine ⟨files', ?_, hdistinct', hholds, h.name ▸ hothers⟩
  have himport : Gives (importConfig dpapi urlParse decoders elevatedToken u) files (.ok r)
      files' := by
    rw [importConfig, h.collected]
    exact hcreate.attempt.bind (Gives.pure _ files')
  rw [Importing.step, if_neg hnew]
  exact himport.bind (Gives.pure _ files')

/-- What a run over configurations that can all be created leaves. -/
structure Ran (dpapi : Dpapi) (files files' : Files) (us : List (UnparsedConfig ε))
    (rs : List (Map Str Str × Config)) (st st' : Importing ε) : Prop where
  created : st'.created = st.created ++ rs.map Prod.snd
  lastErr : st'.lastErr = st.lastErr
  held : ∀ r ∈ rs, Holds dpapi files' r.2
  others : ∀ m, tunnelNameIsValid m = true → toLower m ∉ us.map (toLower ·.name) →
    SameTunnel files files' m

theorem imports_run {us : List (UnparsedConfig ε)} {rs : List (Map Str Str × Config)}
    (h : List.Forall₂ (Imports urlParse decoders) us rs) (helevated : elevatedToken ≠ 0)
    (hdistinct : files.Distinct toLower) (hnames : (us.map (toLower ·.name)).Nodup)
    {st : Importing ε} (hnew : ∀ u ∈ us, toLower u.name ∉ st.existingLowerTunnels) :
    ∃ st' files', Gives (us.foldlM (Importing.step dpapi urlParse decoders elevatedToken) st) files
        st' files' ∧ Ran dpapi files files' us rs st st' := by
  induction h generalizing files st with
  | nil =>
    refine ⟨st, files, Gives.pure st files, (List.append_nil _).symm, rfl, ?_, ?_⟩
    · exact fun r hr => absurd hr List.not_mem_nil
    · exact fun m _ _ => SameTunnel.refl files m
  | @cons u r us rs hu _ ih =>
    rw [List.map_cons, List.nodup_cons] at hnames
    rw [List.forall_mem_cons] at hnew
    obtain ⟨files₁, hstep, hdistinct₁, hholds, hothers⟩ :=
      @Imports.step ε dpapi urlParse decoders elevatedToken files u r st hu helevated hdistinct
        hnew.1
    have hnew₁ : ∀ v ∈ us, toLower v.name ∉ (st.add u.name r.1 r.2).existingLowerTunnels := by
      intro v hv hmem
      rcases List.mem_cons.mp hmem with heq | hmem
      · exact hnames.1 (heq ▸ List.mem_map.mpr ⟨v, hv, rfl⟩)
      · exact hnew.2 v hv hmem
    obtain ⟨st', files', hrun, hran⟩ := ih hdistinct₁ hnames.2 hnew₁
    refine ⟨st', files', ?_, ?_, hran.lastErr, ?_, ?_⟩
    · rw [List.foldlM_cons]
      exact hstep.bind hrun
    · rw [hran.created, List.map_cons, List.append_cons]
      rfl
    · refine List.forall_mem_cons.mpr ⟨hholds.same ?_, hran.held⟩
      exact hu.name ▸ hran.others u.name hu.nameIsValid hnames.1
    · intro m hm hother
      rw [List.map_cons, List.mem_cons, not_or] at hother
      exact (hothers m hm hother.1).trans (hran.others m hm hother.2)

theorem confEntries_exported (c : Config) :
    confEntries (exported c) =
      (c.name ++ str ".conf", c.toWgQuick) :: confEntries (fileEntries c) := by
  rw [exported, confEntries, List.filter_cons, if_pos (isConfFile_conf c.name), confEntries]

theorem length_confEntries (cs : List Config) :
    (confEntries (cs.flatMap exported)).length =
      cs.length + (confEntries (cs.flatMap fileEntries)).length := by
  induction cs with
  | nil => rfl
  | cons c cs ih =>
    rw [List.flatMap_cons, List.flatMap_cons, confEntries_append, confEntries_append,
      List.length_append, List.length_append, ih, confEntries_exported, List.length_cons,
      List.length_cons]
    omega

theorem confEntries_eq (h : confEntries (cs.flatMap fileEntries) = []) :
    confEntries (cs.flatMap exported) =
      cs.map fun c => (c.name ++ str ".conf", c.toWgQuick) := by
  induction cs with
  | nil => rfl
  | cons c cs ih =>
    rw [List.flatMap_cons, confEntries_append, List.append_eq_nil_iff] at h
    rw [List.flatMap_cons, confEntries_append, ih h.2, confEntries_exported, h.1]
    rfl

theorem noConfFile_iff (h : ∀ c ∈ cs, Stored dpapi urlParse files c) :
    confEntries (cs.flatMap fileEntries) = [] ↔
      ∀ c ∈ cs, ∀ ref ∈ c.wsTLSReferences, isConfFile ref = false := by
  rw [confEntries, List.filter_eq_nil_iff]
  constructor
  · intro hnone c hc ref href
    have hvalid := (h c hc).references ref href
    have hentry := hnone _ (List.mem_flatMap.mpr ⟨c, hc, mem_fileEntries.mpr
      ⟨ref, mem_wsTLSStoredFileNames.mpr ⟨href, hvalid⟩, rfl⟩⟩)
    rwa [isConfFile_slash (element_of_fileName hvalid), Bool.not_eq_true] at hentry
  · intro hnone e he
    obtain ⟨c, hc, he⟩ := List.mem_flatMap.mp he
    obtain ⟨name, hname, rfl⟩ := mem_fileEntries.mp he
    obtain ⟨href, hvalid⟩ := mem_wsTLSStoredFileNames.mp hname
    rw [isConfFile_slash (element_of_fileName hvalid), hnone c hc name href]
    decide

structure Restored (dpapi : Dpapi) (cs : List Config) (dest dest' : Files) (report : Report ε) :
    Prop where
  extracted : report.unparsed.Perm (cs.map (·.name))
  created : ∃ imported, imported.Perm report.created ∧ List.Forall₂
    (fun c i => i = { c with wsTLSFiles := i.wsTLSFiles } ∧ i.wsTLSFiles.Perm c.wsTLSFiles) cs
    imported
  held : ∀ c ∈ report.created, Holds dpapi dest' c
  others : ∀ m, tunnelNameIsValid m = true → toLower m ∉ cs.map (toLower ·.name) →
    SameTunnel dest dest' m
  noError : ∀ m ∈ report.messages, m.isError = false

def importArchive (dpapi : Dpapi) (urlParse : Str → Option URL)
    (decoders : List (Str → Option Str)) (elevatedToken : Nat) (size : IntSize) (disk : Disk ε)
    (entries : List Entry) : Store (Report ε) :=
  importFiles dpapi urlParse decoders elevatedToken size disk (.ok [])
    [.zip (.ok (entries.map ZipFile.written))]

section
variable {size : IntSize} {disk : Disk ε} {entries : List Entry} {us : List (UnparsedConfig ε)}

theorem importArchive_eq
    (hus : (confEntries entries).map (unparsedOf disk (archiveOf entries)) = us) :
    importArchive dpapi urlParse decoders elevatedToken size disk entries =
      if us = [] then return { messages := [.couldNotImport .noConfigurationFiles] }
      else importConfigs dpapi urlParse decoders elevatedToken
        (Sort.slice (fun a b => tunnelNameIsLess size b.name a.name) us) [] := by
  rw [importArchive, importFiles, extracted_zip, hus]

theorem importArchive_extracts
    (hus : (confEntries entries).map (unparsedOf disk (archiveOf entries)) = us) :
    Ends (fun _ => True) (importArchive dpapi urlParse decoders elevatedToken size disk entries)
      (fun report _ => (us = [] → ∃ m ∈ report.messages, m.isError = true) ∧
        (us ≠ [] → report.unparsed.length = us.length))
      (fun _ _ => True) := by
  rw [importArchive_eq hus]
  refine .ite (fun hnone => .pure fun _ _ => ⟨fun _ => ?_, fun hsome => absurd hnone hsome⟩)
    fun hsome => ?_
  · exact ⟨_, List.mem_cons_self, rfl⟩
  · have hany {α : Type} (x : Store α) : Ends (fun _ => True) x (fun _ _ => True) fun _ _ => True :=
      .intro (fun _ _ _ _ _ => trivial) fun _ _ _ _ _ => trivial
    refine (hany _).bind fun st => .pure fun _ _ => ⟨fun hnone => absurd hnone hsome, fun _ => ?_⟩
    change (List.map _ _).length = _
    rw [List.length_map, (Sort.slice_perm _ _).length_eq]

theorem report_noError {st : Importing ε} {unparsed : List Str}
    (h : st.created.length = unparsed.length) :
    ∀ m ∈ (st.report unparsed).messages, m.isError = false := by
  intro m hm
  rw [Importing.report, h, countMessages, if_pos rfl, if_pos rfl] at hm
  rcases List.mem_append.mp hm with hm | hm
  · split_ifs at hm
    · cases hm
    · rw [List.mem_singleton.mp hm]
      rfl
  · split_ifs at hm
    · cases hm
    · rw [List.mem_singleton.mp hm]
      rfl

theorem importArchive_imports
    (hus : (confEntries entries).map (unparsedOf disk (archiveOf entries)) = us)
    {rs : List (Map Str Str × Config)} (hne : us ≠ [])
    (h : List.Forall₂ (Imports urlParse decoders) us rs) (helevated : elevatedToken ≠ 0)
    (hdistinct : files.Distinct toLower) (hnames : (us.map (toLower ·.name)).Nodup) :
    ∃ report files', Gives
        (importArchive dpapi urlParse decoders elevatedToken size disk entries) files
          report files' ∧
      report.unparsed.Perm (us.map (·.name)) ∧ report.created.Perm (rs.map Prod.snd) ∧
      (∀ c ∈ report.created, Holds dpapi files' c) ∧
      (∀ m, tunnelNameIsValid m = true → toLower m ∉ us.map (toLower ·.name) →
        SameTunnel files files' m) ∧
      ∀ m ∈ report.messages, m.isError = false := by
  let sorted := Sort.slice (fun a b : UnparsedConfig ε => tunnelNameIsLess size b.name a.name) us
  have hperm : sorted.Perm us := Sort.slice_perm _ us
  obtain ⟨rs', hall, hrs⟩ := List.perm_comp_forall₂ hperm h
  obtain ⟨st, files', hrun, hran⟩ := @imports_run ε dpapi urlParse decoders elevatedToken files
    sorted rs' hall helevated hdistinct ((hperm.map _).nodup_iff.mpr hnames)
    { existingLowerTunnels := [] } fun _ _ => List.not_mem_nil
  have hcreated : st.created = rs'.map Prod.snd := hran.created
  have hlength : st.created.length = (sorted.map (·.name)).length := by
    rw [hcreated, List.length_map, List.length_map, hall.length_eq]
  refine ⟨st.report (sorted.map (·.name)), files', ?_, ?_, ?_, ?_, ?_, ?_⟩
  · rw [importArchive_eq hus, if_neg hne]
    exact hrun.bind (Gives.pure _ files')
  · exact hperm.map _
  · rw [Importing.report, hcreated]
    exact hrs.map Prod.snd
  · intro c hc
    rw [Importing.report, hcreated] at hc
    obtain ⟨r, hr, rfl⟩ := List.mem_map.mp hc
    exact hran.held r hr
  · intro m hm hother
    exact hran.others m hm fun hmem => hother ((hperm.map _).mem_iff.mp hmem)
  · exact report_noError hlength

end

/-- The configuration of a tunnel as the import of the whole export reads it. -/
def unparsedIn (disk : Disk ε) (cs : List Config) (c : Config) : UnparsedConfig ε :=
  ⟨c.name, c.toWgQuick,
    wsTLSZipFileReader disk (archiveOf (cs.flatMap exported)) (c.name ++ str ".conf")⟩

theorem confEntries_unparsed (disk : Disk ε) (h : ∀ c ∈ cs, Stored dpapi urlParse files c)
    (hnone : confEntries (cs.flatMap fileEntries) = []) :
    (confEntries (cs.flatMap exported)).map (unparsedOf disk (archiveOf (cs.flatMap exported))) =
      cs.map (unparsedIn disk cs) := by
  rw [confEntries_eq hnone, List.map_map]
  refine List.map_congr_left fun c hc => ?_
  change UnparsedConfig.mk (configNameOf _) _ _ = _
  rw [(h c hc).element.configNameOf_conf, unparsedIn]

/-- The import of the export yields the tunnel again, with the same TLS files. -/
structure Yields (urlParse : Str → Option URL) (decoders : List (Str → Option Str))
    (u : UnparsedConfig ε) (c : Config) (r : Map Str Str × Config) : Prop where
  imports : Imports urlParse decoders u r
  config : r.2 = { c with wsTLSFiles := r.2.wsTLSFiles }
  contents : r.2.wsTLSFiles.Perm c.wsTLSFiles

theorem Stored.yields (disk : Disk ε) (h : ∀ c ∈ cs, Stored dpapi urlParse files c)
    (hnames : (cs.map (toLower ·.name)).Nodup) (hc : c ∈ cs) :
    ∃ r, Yields urlParse decoders (unparsedIn disk cs c) c r := by
  have hread : ∀ ref ∈ c.wsTLSStoredFileNames, ∀ data, c.wsTLSFiles.lookup ref = some data →
      (unparsedIn disk cs c).readWSTLSFile ref = .ok data := by
    intro ref href data hdata
    refine wsTLSZipFileReader_written (h c hc).element
      (element_of_fileName (mem_wsTLSStoredFileNames.mp href).2) ?_
      (exported_lookup h hnames hc href hdata)
    exact ((h c hc).valid.files _ (Map.mem_of_lookup hdata)).2.2
  obtain ⟨stored, contents, hcollect, hperm, hvalid⟩ := (h c hc).collects hread
  exact ⟨(stored, { c with wsTLSFiles := contents }),
    ⟨hcollect, hvalid, rfl, (h c hc).canonical.name⟩, rfl, hperm⟩

/-- An export is restored exactly when it has a tunnel and no TLS file is named `*.conf`. -/
theorem export_import_iff {size : IntSize} {disk : Disk ε} {dest : Files}
    (hstored : ∀ c ∈ cs, Stored dpapi urlParse files c)
    (hnames : (cs.map (toLower ·.name)).Nodup) (helevated : elevatedToken ≠ 0)
    (hdistinct : dest.Distinct toLower) :
    ∃ entries, exportTunnels dpapi urlParse decoders elevatedToken files (cs.map (·.name)) =
        .ok entries ∧
      ((∃ report dest', Gives
          (importArchive dpapi urlParse decoders elevatedToken size disk entries) dest
            report dest' ∧
        Restored dpapi cs dest dest' report) ↔
      cs ≠ [] ∧ ∀ c ∈ cs, ∀ ref ∈ c.wsTLSReferences, isConfFile ref = false) := by
  refine ⟨_, exportTunnels_stored hstored helevated, ?_⟩
  rw [← noConfFile_iff hstored]
  constructor
  · rintro ⟨report, dest', himport, hrestored⟩
    obtain ⟨hnone, hsome⟩ := (importArchive_extracts rfl).ok trivial himport.ok
    have hconf : confEntries (cs.flatMap exported) ≠ [] := by
      intro hempty
      obtain ⟨m, hm, herror⟩ := hnone (by rw [hempty, List.map_nil])
      exact Bool.false_ne_true ((hrestored.noError m hm).symm.trans herror)
    have hlength := hsome fun hempty => hconf (List.map_eq_nil_iff.mp hempty)
    rw [hrestored.extracted.length_eq, List.length_map, List.length_map, length_confEntries,
      Nat.left_eq_add, List.length_eq_zero_iff] at hlength
    refine ⟨?_, hlength⟩
    rintro rfl
    exact hconf rfl
  · rintro ⟨hne, hnone⟩
    have hus := confEntries_unparsed disk hstored hnone
    obtain ⟨rs, hrs⟩ := exists_forall₂ fun c hc =>
      @Stored.yields ε dpapi urlParse decoders files c cs disk hstored hnames hc
    have himports : List.Forall₂ (Imports urlParse decoders) (cs.map (unparsedIn disk cs)) rs :=
      List.forall₂_map_left_iff.mpr (hrs.imp fun _ _ h => h.imports)
    obtain ⟨report, dest', himport, hunparsed, hcreated, hheld, hothers, hnoError⟩ :=
      @importArchive_imports ε dpapi urlParse decoders elevatedToken dest size disk _ _ hus rs
        (fun hempty => hne (List.map_eq_nil_iff.mp hempty)) himports helevated hdistinct
        (by rwa [List.map_map])
    rw [List.map_map] at hunparsed hothers
    refine ⟨report, dest', himport, hunparsed, ⟨rs.map Prod.snd, hcreated.symm, ?_⟩, hheld,
      hothers, hnoError⟩
    exact List.forall₂_map_right_iff.mpr (hrs.imp fun _ _ h => ⟨h.config, h.contents⟩)

theorem Stored.same {files' : Files} (h : Stored dpapi urlParse files c)
    (hsame : SameTunnel files files' c.name) : Stored dpapi urlParse files' c :=
  ⟨h.accepted, h.references, h.valid, h.held.same hsame⟩

theorem stored_of_collected (h : Collected urlParse c) (hheld : Holds dpapi files c) :
    Stored dpapi urlParse files c := by
  obtain ⟨hcanonical, hvalid, hrefs⟩ := h.canonical
  exact ⟨⟨c.toWgQuick, hcanonical.fromWgQuick_toWgQuick⟩, hrefs, hvalid, hheld⟩

theorem exists_stored (h : ∀ c ∈ cs, Collected urlParse c)
    (hnames : (cs.map (toLower ·.name)).Nodup) :
    ∃ files : Files, files.Distinct toLower ∧ ∀ c ∈ cs, Stored dpapi urlParse files c := by
  induction cs with
  | nil => exact ⟨fun _ => [], fun _ => List.nodup_nil, fun c hc => absurd hc List.not_mem_nil⟩
  | cons c cs ih =>
    rw [List.forall_mem_cons] at h
    rw [List.map_cons, List.nodup_cons] at hnames
    obtain ⟨files, hdistinct, hstored⟩ := ih h.2 hnames.2
    obtain ⟨hcanonical, hvalid, -⟩ := h.1.canonical
    obtain ⟨files', hcreate, hdistinct'⟩ := @create_gives dpapi 1 c files (by decide) hvalid
      hcanonical.name hdistinct
    obtain ⟨-, hholds, hothers⟩ := (create_holds files c).ok rfl hcreate.ok
    refine ⟨files', hdistinct', List.forall_mem_cons.mpr ⟨stored_of_collected h.1 hholds, ?_⟩⟩
    intro d hd
    refine (hstored d hd).same (hothers d.name (hstored d hd).canonical.name fun heq => ?_)
    exact hnames.1 (heq ▸ List.mem_map.mpr ⟨d, hd, rfl⟩)

end

def noDisk : Disk Unit := ⟨fun _ => .error (), fun _ => .error ()⟩

theorem export_import_iff_created : ∃ c d files entries report dest',
    c.name = str "wg0" ∧ d.name = str "wg1" ∧ c.wsTLSFiles = [(str "ca.pem", [7])] ∧
    exportTunnels labelled (fun _ => none) [] 1 files [c.name, d.name] = .ok entries ∧
    Gives (importArchive labelled (fun _ => none) [] 1 .int64 noDisk entries) (fun _ => [])
      report dest' ∧
    Restored labelled [c, d] (fun _ => []) dest' report := by
  obtain ⟨c, hc, hname, hfiles⟩ := createdText_collected (str "wg0") (by decide)
  obtain ⟨d, hd, hname', hfiles'⟩ := createdText_collected (str "wg1") (by decide)
  have hcollected : ∀ c' ∈ [c, d], Collected (fun _ => none) c' := by simp [hc, hd]
  have hnames : ([c, d].map (toLower ·.name)).Nodup := by
    rw [List.map_cons, List.map_cons, hname, hname']
    decide
  obtain ⟨files, -, hstored⟩ := @exists_stored labelled (fun _ => none) [c, d] hcollected hnames
  have hrefs : ∀ c' ∈ [c, d], ∀ ref ∈ c'.wsTLSReferences, isConfFile ref = false := by
    intro c' hc' ref href
    have hknown := (hstored c' hc').valid.references ref href
    have hpem : c'.wsTLSFiles = [(str "ca.pem", [7])] := by
      rcases List.mem_pair.mp hc' with rfl | rfl <;> assumption
    rw [if_pos ((hstored c' hc').references ref href), hpem, List.lookup_cons] at hknown
    by_cases href' : ref = str "ca.pem"
    · rw [href']
      decide +kernel
    · rw [beq_false_of_ne href'] at hknown
      cases hknown
  obtain ⟨entries, hexport, hiff⟩ := @export_import_iff Unit labelled (fun _ => none) [] 1 files
    [c, d] .int64 noDisk (fun _ => []) hstored hnames (by decide) fun _ => List.nodup_nil
  obtain ⟨report, dest', himport, hrestored⟩ := hiff.mpr ⟨List.cons_ne_nil _ _, hrefs⟩
  exact ⟨c, d, files, entries, report, dest', hname, hname', hfiles, hexport, himport, hrestored⟩

def confFileText : Str :=
  str "[Interface]\nPrivateKey=yAnz5TF+lXXJte14tji3zlMNq+hd2rYUIgJBgB3fBmk=\n[Peer]\n" ++
  str "PublicKey=xTIBA5rboUvnH4htodjb6e697QjLERt1NAB4mZqp8Dg=\nWSMode=websocket\nWSTLSCA=ca.conf"

def importsOneOfTwo : EStateM.Result StoreError World (Report Unit) → Bool
  | .ok ⟨[a, b], [c], .importedOf 1 2 :: _⟩ _ =>
    a == str "wg0" && b == str "ca" && c.name == str "wg0"
  | _ => false

theorem of_importsOneOfTwo {r : EStateM.Result StoreError World (Report Unit)}
    (h : importsOneOfTwo r = true) : ∃ report w', r = .ok report w' ∧
      report.unparsed = [str "wg0", str "ca"] ∧ .importedOf 1 2 ∈ report.messages := by
  unfold importsOneOfTwo at h
  split at h
  · rw [Bool.and_eq_true, Bool.and_eq_true, beq_iff_eq, beq_iff_eq] at h
    obtain ⟨⟨rfl, rfl⟩, -⟩ := h
    exact ⟨_, _, rfl, rfl, List.mem_cons_self⟩
  · cases h

theorem confFileText_imports : (collectText confFileText (str "wg0") fun _ => .ok [7]).map
    (fun c => c.name == str "wg0" && c.wsTLSFiles == [(str "ca.conf", [7])] &&
      importsOneOfTwo (importArchive labelled (fun _ => none) [] 1 .int64 noDisk (exported c)
        ⟨fun _ => [], [], []⟩)) = some true := by
  decide +kernel

/-- The TLS file `ca.conf` of the tunnel is taken for a second configuration. -/
theorem export_import_confFile : ∃ c files entries report w',
    Stored labelled (fun _ => none) files c ∧
    c.name = str "wg0" ∧ c.wsTLSFiles = [(str "ca.conf", [7])] ∧
    exportTunnels labelled (fun _ => none) [] 1 files [c.name] = .ok entries ∧
    importArchive labelled (fun _ => none) [] 1 .int64 noDisk entries ⟨fun _ => [], [], []⟩ =
      .ok report w' ∧
    report.unparsed = [str "wg0", str "ca"] ∧ .importedOf 1 2 ∈ report.messages := by
  obtain ⟨c, hc, hfacts⟩ := Option.map_eq_some_iff.mp confFileText_imports
  simp only [Bool.and_eq_true, beq_iff_eq] at hfacts
  obtain ⟨⟨hname, hfiles⟩, himports⟩ := hfacts
  obtain ⟨files, -, hstored⟩ := @exists_stored labelled (fun _ => none) [c]
    (by simp [collected_of_collectText hc]) (List.nodup_singleton _)
  have hexport := @exportTunnels_stored labelled (fun _ => none) [] 1 files [c] hstored (by decide)
  rw [List.flatMap_singleton] at hexport
  obtain ⟨report, w', hreport, hunparsed, hmessage⟩ := of_importsOneOfTwo himports
  exact ⟨c, files, exported c, report, w', hstored c List.mem_cons_self, hname, hfiles, hexport,
    hreport, hunparsed, hmessage⟩

end WireGuardWindows.Ui
