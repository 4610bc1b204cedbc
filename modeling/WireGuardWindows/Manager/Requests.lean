import WireGuardWindows.Conf.StoreUpdates
import WireGuardWindows.Conf.Uapi
import WireGuardWindows.Manager.Ipc

/-!
# Requests that change the store

`Create` and `Delete` of the manager, and the editing of a tunnel, which is a `Delete`
followed by a `Create`. What the service manager answers is an input of each request. None
of them is a transaction, so a request that fails is stated with what it leaves.
-/

namespace WireGuardWindows.Manager
open GoStd Strings Unicode Systems Loops Conf

inductive Uninstalled
  | done
  | serviceDoesNotExist
  | fails

section
variable (dpapi : Dpapi) (urlParse : Str → Option URL) (decoders : List (Str → Option Str))
  -- the token of the session, zero for an operator's
  (elevatedToken : Nat)

def stop (uninstalled : Uninstalled) (tunnelName : Str) : Store Unit :=
  match uninstalled with
  | .done => return ()
  | .fails => throw .system
  | .serviceDoesNotExist => fun w =>
    match loadFromName dpapi urlParse decoders tunnelName w with
    | .ok _ w' => .ok () w'
    | .error _ w' => .error .serviceDoesNotExist w'

def delete (uninstalled : Uninstalled) (tunnelName : Str) : Store Unit :=
  if elevatedToken = 0 then throw .accessDenied
  else do
    stop dpapi urlParse decoders uninstalled tunnelName
    deleteName tunnelName

def create (tunnelConfig : Config) : Store Str :=
  if elevatedToken = 0 then throw .accessDenied
  else do
    Store.ofExcept tunnelConfig.validateWSTLSFiles
    saveWSTLSFiles dpapi tunnelConfig.name tunnelConfig.wsTLSFiles
    tunnelConfig.save dpapi true
    return tunnelConfig.name

-- TLS files that cannot be loaded are left out: the export and the start report them
def ManagerService.storedConfig (tunnelName : Str) : Store Config := do
  let conf ← loadFromName dpapi urlParse decoders tunnelName
  if elevatedToken = 0 then return conf.redact
  else match ← attempt (loadWSTLSFiles dpapi conf) with
    | .error _ => return conf
    | .ok conf => return conf

end

def Collected (urlParse : Str → Option URL) (c : Config) : Prop :=
  ∃ (ε : Type) (read : Str → Except ε Bytes) (text name : Str) (parsed : Config)
      (stored : Map Str Str),
    fromWgQuick urlParse text name = .ok parsed ∧ parsed.collectWSTLSFiles read = .ok (stored, c)

section
variable {dpapi : Dpapi} {urlParse : Str → Option URL} {decoders : List (Str → Option Str)}
  {elevatedToken : Nat} {c : Config} {files : Files}

theorem Collected.canonical (h : Collected urlParse c) :
    Config.Canonical urlParse { c with wsTLSFiles := [] } ∧ ValidWSTLSFiles c ∧
      ∀ ref ∈ c.wsTLSReferences, wsTLSFileNameIsValid ref = true := by
  obtain ⟨ε, read, text, name, parsed, stored, hparsed, hcollected⟩ := h
  obtain ⟨hcanonical, -, hvalid, hrefs⟩ :=
    collected_canonical (fromWgQuick_canonical hparsed).1 hcollected
  exact ⟨hcanonical, hvalid, hrefs⟩

theorem storedNames_of_valid (h : ValidWSTLSFiles c) : StoredNames c.wsTLSFiles :=
  ⟨fun f hf => (h.files f hf).1, h.distinct⟩

structure Holds (dpapi : Dpapi) (files : Files) (c : Config) : Prop where
  config : files.read toLower configurationsDirectory (c.name ++ configFileSuffix) =
    some (encryptedConfig dpapi c).contents
  stored : SavedFiles dpapi c.name c.wsTLSFiles files

structure Gone (files : Files) (n : Str) : Prop where
  config : files.read toLower configurationsDirectory (n ++ configFileSuffix) = none
  stored : files.entries toLower (tlsDirectory n) = []

theorem savedFiles_congr {n : Str} {stored : List (Str × Bytes)} {files' : Files}
    (h : SavedFiles dpapi n stored files)
    (hsame : files' ((tlsDirectory n).map toLower) = files ((tlsDirectory n).map toLower)) :
    SavedFiles dpapi n stored files' := by
  refine ⟨fun e he => h.listed e ?_, fun f hf => (Tree.read_congr hsame _).trans (h.contents f hf)⟩
  rwa [Tree.entries, hsame] at he

theorem Holds.same {files' : Files} (h : Holds dpapi files c)
    (hsame : SameTunnel files files' c.name) :
    Holds dpapi files' c :=
  ⟨hsame.config.trans h.config, savedFiles_congr h.stored hsame.stored⟩

theorem Gone.same {n : Str} {files' : Files} (h : Gone files n)
    (hsame : SameTunnel files files' n) : Gone files' n :=
  ⟨hsame.config.trans h.config, hsame.stored.trans h.stored⟩

theorem Holds.tlsFile (h : Holds dpapi files c) (hvalid : ValidWSTLSFiles c)
    (hname : tunnelNameIsValid c.name = true) {f : Str × Bytes} (hf : f ∈ c.wsTLSFiles) :
    Conf.storedTLSFile dpapi files c.name f.1 = .ok f.2 := by
  refine storedTLSFile_eq_ok.mpr ⟨hname, (hvalid.files f hf).1, _, h.stored.contents f hf, ?_⟩
  exact dpapi.unprotect_protect _ _

theorem Holds.loaded (h : Holds dpapi files c)
    (hcanonical : Config.Canonical urlParse { c with wsTLSFiles := [] })
    (hvalid : ValidWSTLSFiles c) :
    answer (loadFromName dpapi urlParse decoders c.name) files = .ok { c with wsTLSFiles := [] } ∧
    ∃ stored, answer (loadWSTLSFiles dpapi { c with wsTLSFiles := [] }) files =
        .ok { c with wsTLSFiles := stored } ∧
      stored.Perm c.wsTLSFiles := by
  rw [(loadFromName_answers c.name).answer_eq, (loadWSTLSFiles_answers _).answer_eq]
  constructor
  · refine storedConfig_eq_ok.mpr ⟨hcanonical.name, _, c.toWgQuick, h.config,
      dpapi.unprotect_protect _ _, ?_⟩
    have hparsed : fromWgQuick urlParse c.toWgQuick c.name = .ok { c with wsTLSFiles := [] } :=
      hcanonical.fromWgQuick_toWgQuick
    rw [fromWgQuickWithUnknownEncoding, hparsed]
  · let stored := c.wsTLSStoredFileNames.map fun name =>
      (name, (c.wsTLSFiles.lookup name).getD [])
    have hload : (c.wsTLSStoredFileNames.mapM fun name => do
        return (name, ← storedTLSFile dpapi files c.name name) : Except StoreError _) =
        .ok stored := by
      apply mapM_ok
      intro name hmem
      obtain ⟨data, hdata⟩ := hvalid.stored hmem
      rw [h.tlsFile hvalid hcanonical.name (Map.mem_of_lookup hdata), hdata]
      rfl
    refine ⟨stored, ?_, hvalid.perm ?_ fun name data => ?_⟩
    · change (c.wsTLSStoredFileNames.mapM _ >>= _) = _
      rw [hload]
      rfl
    · rw [List.map_map]
      exact (wsTLSStoredFileNames_nodup c).map fun a b heq => heq
    · rw [List.mem_map]
      constructor
      · rintro ⟨m, hmem, heq⟩
        obtain ⟨d, hd⟩ := hvalid.stored hmem
        rw [hd, Option.getD_some] at heq
        cases heq
        exact ⟨hmem, hd⟩
      · rintro ⟨hmem, hdata⟩
        exact ⟨name, hmem, by rw [hdata, Option.getD_some]⟩

theorem storedConfig_elevated (helevated : elevatedToken ≠ 0) {n : Str} {config config' : Config}
    (hconfig : answer (loadFromName dpapi urlParse decoders n) files = .ok config)
    (hfiles : answer (loadWSTLSFiles dpapi config) files = .ok config') :
    answer (ManagerService.storedConfig dpapi urlParse decoders elevatedToken n) files =
      .ok config' := by
  have hload := @loadFromName_answers dpapi urlParse decoders files n
  have hstored := (@loadWSTLSFiles_answers dpapi files config).attempt
  rw [hload.answer_eq] at hconfig
  rw [(loadWSTLSFiles_answers config).answer_eq] at hfiles
  rw [hconfig] at hload
  rw [hfiles] at hstored
  refine (hload.after ?_).answer_eq
  rw [if_neg helevated]
  exact hstored.after (Answers.pure config')

theorem loadFromName_ends (base : Files) (n : Str) :
    Ends (fun w => w.files = base) (loadFromName dpapi urlParse decoders n)
      (fun _ w => w.files = base) (fun _ w => w.files = base) := by
  have hsteady : Steady fun w => w.files = base := fun _ _ h => h
  refine .ite (fun _ => .throw fun _ h => h) fun _ => ?_
  have hdirectory : Ends (fun w => w.files = base) tunnelConfigurationsDirectory
      (fun _ w => w.files = base) (fun _ w => w.files = base) :=
    (system_ends hsteady).bind fun _ => .pure fun _ h => h
  refine hdirectory.bind fun dir => ?_
  refine (ofExcept_ends _ _).bind fun name => .and_left fun _ => ?_
  refine ((readFile_ends hsteady dir (n ++ configFileSuffix)).mono (fun _ h => h)
    (fun _ _ h => h.2) fun _ _ h => h).bind fun bytes => ?_
  have hparse (text : Str) : Ends (fun w => w.files = base)
      (Store.ofExcept (fromWgQuickWithUnknownEncoding urlParse decoders text name))
      (fun _ w => w.files = base) (fun _ w => w.files = base) :=
        (ofExcept_ends _ _).mono (fun _ h => h) (fun _ _ h => h.2) fun _ _ h => h
  have hdecrypt :=
    (decrypt_ends hsteady dpapi bytes name).mono (fun _ h => h) (fun _ _ h => h.2) fun _ _ h => h
  exact .ite (fun _ => hdecrypt.bind hparse) fun _ => hparse bytes

theorem stop_ends (base : Files) (uninstalled : Uninstalled) (n : Str) :
    Ends (fun w => w.files = base) (stop dpapi urlParse decoders uninstalled n)
      (fun _ w => w.files = base) (fun _ w => w.files = base) := by
  cases uninstalled with
  | done => exact .pure fun _ h => h
  | fails => exact .throw fun _ h => h
  | serviceDoesNotExist =>
    intro w hw
    have hload := @loadFromName_ends dpapi urlParse decoders base n w hw
    rw [stop]
    dsimp only
    cases hres : loadFromName dpapi urlParse decoders n w with
    | ok c w' =>
      rw [hres] at hload
      exact hload
    | error e w' =>
      rw [hres] at hload
      exact hload

theorem delete_ends (base : Files) (uninstalled : Uninstalled) (n : Str) :
    Ends (fun w => w.files = base) (delete dpapi urlParse decoders elevatedToken uninstalled n)
      (fun _ w => tunnelNameIsValid n = true ∧
        Within (base.remove toLower configurationsDirectory (n ++ configFileSuffix)) n w.files ∧
        w.files ((tlsDirectory n).map toLower) = [])
      (fun _ w => w.files = base ∨ (tunnelNameIsValid n = true ∧
        Within (base.remove toLower configurationsDirectory (n ++ configFileSuffix)) n
          w.files)) := by
  refine .ite (fun _ => .throw fun _ h => .inl h) fun _ => ?_
  exact ((stop_ends base uninstalled n).mono (fun _ h => h) (fun _ _ h => h) fun _ _ h =>
    .inl h).bind fun _ =>
    deleteName_ends base n

/-- A `Create` that fails may have replaced the TLS files, and left a temporary file. -/
structure Unfinished (dpapi : Dpapi) (c : Config) (base files : Files) : Prop where
  left : ∃ before, Replacing dpapi c.name c.wsTLSFiles base before ∧
    (files = before ∨ ∃ temp : TempFile,
    files = before.put toLower configurationsDirectory temp.file)

theorem create_ends (base : Files) (c : Config) :
    Ends (fun w => w.files = base) (create dpapi elevatedToken c)
      (fun _ w => ValidWSTLSFiles c ∧ tunnelNameIsValid c.name = true ∧
        ∃ before, Replacing dpapi c.name c.wsTLSFiles base before ∧
        SavedFiles dpapi c.name c.wsTLSFiles before ∧
          w.files = before.put toLower configurationsDirectory (encryptedConfig dpapi c))
      (fun _ w => Unfinished dpapi c base w.files) := by
  have hunchanged (w : World) (hw : w.files = base) : Unfinished dpapi c base w.files :=
    ⟨base, Replacing.refl _ _ _ _, .inl hw⟩
  refine .ite (fun _ => .throw hunchanged) fun _ => ?_
  refine ((ofExcept_ends _ _).mono (fun _ h => h) (fun _ _ h => h) fun _ w h =>
    hunchanged w h).bind fun _ =>
    .and_left fun hvalid => ?_
  have hvalid := validateWSTLSFiles_eq_ok.mp hvalid
  refine ((saveWSTLSFiles_ends (storedNames_of_valid hvalid)).mono (fun _ h => h) (fun _ _ h => h)
    fun _ w h => ⟨w.files, h, .inl rfl⟩).bind fun _ => ?_
  have hsave := @save_ends dpapi
    (fun files => Replacing dpapi c.name c.wsTLSFiles base files ∧
      SavedFiles dpapi c.name c.wsTLSFiles files) c true
  refine (hsave.mono (fun _ h => h) ?_ ?_).bind fun _ => .pure fun _ h => h
  · rintro _ w ⟨hname, before, ⟨hreplacing, hsaved⟩, -, hput⟩
    exact ⟨hvalid, hname, before, hreplacing, hsaved, hput⟩
  · rintro _ w (⟨hreplacing, -⟩ | ⟨before, temp, ⟨hreplacing, -⟩, hput⟩)
    · exact ⟨w.files, hreplacing, .inl rfl⟩
    · exact ⟨before, hreplacing, .inr ⟨temp, hput⟩⟩

theorem create_gives (helevated : elevatedToken ≠ 0) (hvalid : ValidWSTLSFiles c)
    (hname : tunnelNameIsValid c.name = true) (hdistinct : files.Distinct toLower) :
    ∃ files', Gives (create dpapi elevatedToken c) files c.name files' ∧
      files'.Distinct toLower := by
  obtain ⟨files₁, hsaved, hdistinct₁⟩ := @saveWSTLSFiles_gives dpapi c.name c.wsTLSFiles files
    (storedNames_of_valid hvalid) hname hdistinct
  rw [create, if_neg helevated, validateWSTLSFiles_eq_ok.mpr hvalid]
  have hsave := (@save_gives dpapi c hname files₁).bind (f := fun _ => pure c.name)
    (Gives.pure c.name _)
  exact ⟨_, (Gives.pure () files).bind (hsaved.bind hsave), hdistinct₁.put _ _⟩

theorem delete_done (helevated : elevatedToken ≠ 0) {n : Str} (hname : tunnelNameIsValid n = true) :
    delete dpapi urlParse decoders elevatedToken .done n =
      (tunnelConfigurationsDirectory >>= fun dir => Store.remove dir (n ++ configFileSuffix)) >>=
        fun _ => deleteWSTLSFiles n := by
  rw [delete, if_neg helevated, deleteName_eq hname]
  rfl

theorem delete_gives (helevated : elevatedToken ≠ 0) {n : Str} (hname : tunnelNameIsValid n = true)
    {contents : Bytes}
    (hread : files.read toLower configurationsDirectory (n ++ configFileSuffix) = some contents) :
    ∃ files', Gives (delete dpapi urlParse decoders elevatedToken .done n) files () files' := by
  rw [delete_done helevated hname]
  exact ⟨_, (removeConfig_gives hread).bind (deleteWSTLSFiles_gives hname _)⟩

def Others (base : Files) (n : Str) (files : Files) : Prop :=
  ∀ m, tunnelNameIsValid m = true → toLower m ≠ toLower n → SameTunnel base files m

theorem Others.put {before : Files} (h : Others files c.name before) {file : File Str Bytes}
    (hfile : ∀ m, tunnelNameIsValid m = true → toLower m ≠ toLower c.name →
      toLower (m ++ configFileSuffix) ≠ toLower file.name) :
    Others files c.name (before.put toLower configurationsDirectory file) :=
  fun m hm hne => (h m hm hne).trans (SameTunnel.put (hfile m hm hne))

theorem Unfinished.others {base : Files} (h : Unfinished dpapi c base files) :
    Others base c.name files := by
  obtain ⟨before, hreplacing, hfiles⟩ := h.left
  have hbefore : Others base c.name before := fun m _ hne => hreplacing.within.sameTunnel hne
  rcases hfiles with rfl | ⟨temp, rfl⟩
  · exact hbefore
  · exact hbefore.put fun m hm _ => configFile_temp_ne m temp

theorem create_holds (base : Files) (c : Config) :
    Ends (fun w => w.files = base) (create dpapi elevatedToken c)
      (fun _ w => tunnelNameIsValid c.name = true ∧ Holds dpapi w.files c ∧
        Others base c.name w.files)
      (fun _ w => Unfinished dpapi c base w.files) := by
  refine (create_ends base c).mono (fun _ h => h) ?_ fun _ _ h => h
  rintro _ w ⟨-, hname, before, hreplacing, hsaved, hput⟩
  have hbefore : Others base c.name before := fun m _ hne => hreplacing.within.sameTunnel hne
  rw [hput]
  refine ⟨hname, ⟨Tree.read_put_self (encryptedConfig dpapi c), ?_⟩, hbefore.put fun m hm hne heq =>
    ?_⟩
  · exact savedFiles_congr hsaved (Tree.put_of_ne (tls_ne_configurations c.name))
  · exact hne (toLower_configFile_inj.mp heq)

theorem Within.others {base : Files} {n : Str}
    (h : Within (base.remove toLower configurationsDirectory (n ++ configFileSuffix)) n files) :
    Others base n files := by
  intro m hm hne
  have hconfig : toLower (m ++ configFileSuffix) ≠ toLower (n ++ configFileSuffix) :=
    fun heq => hne (toLower_configFile_inj.mp heq)
  exact (SameTunnel.remove hconfig).trans (h.sameTunnel hne)

theorem delete_gone (base : Files) (uninstalled : Uninstalled) (n : Str) :
    Ends (fun w => w.files = base) (delete dpapi urlParse decoders elevatedToken uninstalled n)
      (fun _ w => tunnelNameIsValid n = true ∧ Gone w.files n ∧ Others base n w.files)
      (fun _ w => Others base n w.files) := by
  refine (delete_ends base uninstalled n).mono (fun _ h => h) ?_ ?_
  · rintro _ w ⟨hname, hwithin, hempty⟩
    refine ⟨hname, ⟨?_, hempty⟩, Within.others hwithin⟩
    rw [hwithin.configs]
    exact Tree.read_remove_self rfl
  · rintro _ w (hsame | ⟨hname, hwithin⟩)
    · exact fun m _ _ => hsame ▸ SameTunnel.refl base m
    · exact Within.others hwithin

end

inductive Request
  | create (tunnelConfig : Config)
  | delete (uninstalled : Uninstalled) (tunnelName : Str)

namespace Request

def name : Request → Str
  | .create c => c.name
  | .delete _ n => n

def serve (dpapi : Dpapi) (urlParse : Str → Option URL) (decoders : List (Str → Option Str))
    (elevatedToken : Nat) :
    Request → Store Unit
  | .create c => do
    let _ ← Manager.create dpapi elevatedToken c
    return ()
  | .delete uninstalled n => Manager.delete dpapi urlParse decoders elevatedToken uninstalled n

def Done (dpapi : Dpapi) (files : Files) : Request → Prop
  | .create c => Holds dpapi files c
  | .delete _ n => Gone files n

section
variable {dpapi : Dpapi} {urlParse : Str → Option URL} {decoders : List (Str → Option Str)}
  {elevatedToken : Nat}

theorem serve_ends (base : Files) (r : Request) :
    Ends (fun w => w.files = base) (r.serve dpapi urlParse decoders elevatedToken)
      (fun _ w => tunnelNameIsValid r.name = true ∧ r.Done dpapi w.files ∧
        Others base r.name w.files)
      (fun _ w => Others base r.name w.files) := by
  cases r with
  | create c =>
    exact ((create_holds base c).mono (fun _ h => h) (fun _ _ h => h) fun _ w h =>
      h.others).bind fun _ => .pure fun _ h => h
  | delete uninstalled n => exact delete_gone base uninstalled n

theorem Done.same {r : Request} {files files' : Files} (h : r.Done dpapi files)
    (hsame : SameTunnel files files' r.name) :
    r.Done dpapi files' := by
  cases r with
  | create c => exact Holds.same h hsame
  | delete uninstalled n => exact Gone.same h hsame

theorem serve_keeps {P : Files → Prop} {m : Str}
    (hP : ∀ files files', SameTunnel files files' m → P files → P files')
    (hm : tunnelNameIsValid m = true) {r : Request} (hne : toLower m ≠ toLower r.name) :
    Ends (fun w => P w.files) (r.serve dpapi urlParse decoders elevatedToken) (fun _ w => P w.files)
      (fun _ w => P w.files) := by
  intro w hw
  have hserve := (@serve_ends dpapi urlParse decoders elevatedToken w.files r).mono (fun _ h => h)
    (fun _ v h => hP _ _ (h.2.2 m hm hne) hw) fun _ v h => hP _ _ (h m hm hne) hw
  exact hserve w rfl

theorem run_keeps {P : Files → Prop} {m : Str}
    (hP : ∀ files files', SameTunnel files files' m → P files → P files')
    (hm : tunnelNameIsValid m = true) {requests : List Request}
    (hne : ∀ r ∈ requests, toLower m ≠ toLower r.name) :
    Ends (fun w => P w.files) (requests.forM (serve dpapi urlParse decoders elevatedToken))
      (fun _ w => P w.files) (fun _ w => P w.files) :=
  .forM fun r hr => serve_keeps hP hm (hne r hr)

/-- The last request about a tunnel decides what the store holds of it. -/
theorem run_done {before after : List Request} {r : Request}
    (hlast : ∀ r' ∈ after, toLower r.name ≠ toLower r'.name) :
    Ends (fun _ => True) ((before ++ r :: after).forM (serve dpapi urlParse decoders elevatedToken))
      (fun _ w => r.Done dpapi w.files) (fun _ _ => True) := by
  have hsplit : (before ++ r :: after).forM (serve dpapi urlParse decoders elevatedToken) =
      before.forM (serve dpapi urlParse decoders elevatedToken) >>= fun _ =>
        (r :: after).forM (serve dpapi urlParse decoders elevatedToken) := List.forM_append
  have hany (r' : Request) : Ends (fun _ => True) (r'.serve dpapi urlParse decoders elevatedToken)
      (fun _ w => tunnelNameIsValid r'.name = true ∧ r'.Done dpapi w.files) (fun _ _ => True) :=
    fun w _ => ((serve_ends w.files r').mono (fun _ h => h) (fun _ _ h => ⟨h.1, h.2.1⟩) fun _ _ _ =>
      trivial) w rfl
  rw [hsplit]
  refine Ends.bind (.forM fun r' _ => (hany r').mono (fun _ h => h)
    (fun _ _ _ => trivial) fun _ _ h => h) fun _ => ?_
  refine (hany r).bind fun _ => .and_left fun hname => ?_
  exact (run_keeps (P := fun files => r.Done dpapi files)
    (fun _ _ hsame hdone => hdone.same hsame) hname hlast).mono
    (fun _ h => h) (fun _ _ h => h) fun _ _ _ => trivial

end

end Request

section
variable {dpapi : Dpapi} {urlParse : Str → Option URL} {decoders : List (Str → Option Str)}
  {elevatedToken : Nat}

/-- The store is a map from tunnels to configurations: after any run of requests it holds what
the last request about a tunnel says, and nothing else has changed. -/
theorem requests_store {requests : List Request} {w w' : World}
    (hcreated : ∀ c, .create c ∈ requests → Collected urlParse c)
    (hrun : requests.forM (Request.serve dpapi urlParse decoders elevatedToken) w = .ok () w') :
    (∀ before c after, requests = before ++ .create c :: after →
      (∀ r ∈ after, toLower c.name ≠ toLower r.name) →
        answer (loadFromName dpapi urlParse decoders c.name) w'.files = .ok
        { c with wsTLSFiles := [] } ∧
        ∃ stored, answer (loadWSTLSFiles dpapi { c with wsTLSFiles := [] }) w'.files = .ok
        { c with wsTLSFiles := stored } ∧
          stored.Perm c.wsTLSFiles) ∧
    (∀ before uninstalled n after, requests = before ++ .delete uninstalled n :: after →
      (∀ r ∈ after, toLower n ≠ toLower r.name) → Gone w'.files n) ∧
    ∀ m, (∀ r ∈ requests, toLower m ≠ toLower r.name) →
      answer (loadFromName dpapi urlParse decoders m) w'.files = answer
        (loadFromName dpapi urlParse decoders m) w.files ∧
      answer (loadTunnel dpapi urlParse decoders m) w'.files = answer
        (loadTunnel dpapi urlParse decoders m) w.files := by
  refine ⟨?_, ?_, ?_⟩
  · rintro before c after rfl hlast
    have hdone : Holds dpapi w'.files c := (Request.run_done hlast).ok trivial hrun
    obtain ⟨hcanonical, hvalid, -⟩ := (hcreated c (by simp)).canonical
    exact hdone.loaded hcanonical hvalid
  · rintro before uninstalled n after rfl hlast
    exact (Request.run_done (r := .delete uninstalled n) hlast).ok trivial hrun
  · intro m hother
    by_cases hm : tunnelNameIsValid m = true
    · have hsame : SameTunnel w.files w'.files m :=
        (Request.run_keeps (P := fun files => SameTunnel w.files files m)
          (fun _ _ h h' => h'.trans h) hm hother).ok (SameTunnel.refl _ _) hrun
      exact hsame.answer_eq
    · have hinvalid (files : Files) : storedConfig dpapi urlParse decoders files m =
          .error .tunnelNameIsNotValid :=
        if_pos hm
      rw [(loadFromName_answers m).answer_eq, (loadFromName_answers m).answer_eq,
        (loadTunnel_answers m).answer_eq, (loadTunnel_answers m).answer_eq, hinvalid, hinvalid]
      exact ⟨rfl, rfl⟩

end

def createdText : Str :=
  str "[Interface]\nPrivateKey=yAnz5TF+lXXJte14tji3zlMNq+hd2rYUIgJBgB3fBmk=\n[Peer]\n" ++
  str "PublicKey=xTIBA5rboUvnH4htodjb6e697QjLERt1NAB4mZqp8Dg=\nWSMode=websocket\nWSTLSCA=ca.pem"

def collectText (text name : Str) (read : Str → Except Unit Bytes) : Option Config := do
  let parsed ← (fromWgQuick (fun _ => none) text name).toOption
  let collected ← (parsed.collectWSTLSFiles read).toOption
  return collected.2

theorem collected_of_collectText {text name : Str} {read : Str → Except Unit Bytes} {c : Config}
    (h : collectText text name read = some c) : Collected (fun _ => none) c := by
  rw [collectText] at h
  cases hparsed : fromWgQuick (fun _ => none) text name with
  | error e =>
    rw [hparsed] at h
    cases h
  | ok parsed =>
    rw [hparsed] at h
    cases hcollected : parsed.collectWSTLSFiles read with
    | error e =>
      simp only [Except.toOption, bind, Option.bind, hcollected] at h
      cases h
    | ok r =>
      simp only [Except.toOption, bind, Option.bind, hcollected] at h
      obtain rfl := Option.some.inj h
      exact ⟨Unit, read, text, name, parsed, r.1, hparsed, hcollected⟩

theorem createdText_collected (n : Str) (hn : n ∈ [str "wg0", str "wg1"]) :
    ∃ c, Collected (fun _ => none) c ∧ c.name = n ∧ c.wsTLSFiles = [(str "ca.pem", [7])] := by
  have hfacts : ∀ n ∈ [str "wg0", str "wg1"],
      (collectText createdText n fun _ => .ok [7]).map (fun c => (c.name, c.wsTLSFiles)) =
        some (n, [(str "ca.pem", [7])]) := by
    decide +kernel
  obtain ⟨c, hc, heq⟩ := Option.map_eq_some_iff.mp (hfacts n hn)
  exact ⟨c, collected_of_collectText hc, congrArg Prod.fst heq, congrArg Prod.snd heq⟩

theorem twoTunnels_served {c d : Config} (hc : Collected (fun _ => none) c)
    (hd : Collected (fun _ => none) d) (hne : toLower c.name ≠ toLower d.name) :
    ∃ w', [Request.create c, .create d, .delete .done c.name].forM
      (Request.serve labelled (fun _ => none) [] 1) ⟨fun _ => [], [], []⟩ = .ok () w' := by
  obtain ⟨hcanonical, hvalid, -⟩ := hc.canonical
  obtain ⟨hcanonical', hvalid', -⟩ := hd.canonical
  obtain ⟨files₁, hfirst, hdistinct⟩ := @create_gives labelled 1 c (fun _ => []) (by decide) hvalid
    hcanonical.name (fun _ => List.nodup_nil)
  obtain ⟨files₂, hsecond, -⟩ := @create_gives labelled 1 d files₁ (by decide) hvalid'
    hcanonical'.name hdistinct
  obtain ⟨-, hholds, -⟩ := (create_holds _ c).ok rfl hfirst.ok
  obtain ⟨-, -, hothers⟩ := (create_holds _ d).ok rfl hsecond.ok
  have hkept := hholds.same (hothers c.name hcanonical.name hne)
  obtain ⟨files₃, hdeleted⟩ := @delete_gives labelled (fun _ => none) [] 1 files₂ (by decide)
    c.name hcanonical.name _ hkept.config
  have hserve : Gives ([Request.create c, .create d, .delete .done c.name].forM
      (Request.serve labelled (fun _ => none) [] 1)) (fun _ => []) () files₃ :=
    (hfirst.bind (Gives.pure () files₁)).bind ((hsecond.bind (Gives.pure () files₂)).bind
      (hdeleted.bind (Gives.pure () files₃)))
  exact ⟨_, hserve.ok⟩

theorem requests_store_created : ∃ c d w', Collected (fun _ => none) c ∧
    Collected (fun _ => none) d ∧ c.name = str "wg0" ∧ d.name = str "wg1" ∧
    [Request.create c, .create d, .delete .done (str "wg0")].forM
      (Request.serve labelled (fun _ => none) [] 1) ⟨fun _ => [], [], []⟩ = .ok () w' ∧
    Gone w'.files (str "wg0") ∧
    ∃ stored, answer (loadWSTLSFiles labelled { d with wsTLSFiles := [] }) w'.files =
        .ok { d with wsTLSFiles := stored } ∧ stored.Perm [(str "ca.pem", [7])] := by
  obtain ⟨c, hc, hname, -⟩ := createdText_collected (str "wg0") (by decide)
  obtain ⟨d, hd, hname', hfiles⟩ := createdText_collected (str "wg1") (by decide)
  have hne : toLower (str "wg1") ≠ toLower (str "wg0") := by decide
  obtain ⟨w', hserve⟩ := twoTunnels_served hc hd (hname ▸ hname' ▸ hne.symm)
  rw [hname] at hserve
  have hcreated : ∀ c', .create c' ∈ [Request.create c, .create d, .delete .done (str "wg0")] →
      Collected (fun _ => none) c' := by
    simp [hc, hd]
  obtain ⟨hloads, hgone, -⟩ := requests_store hcreated hserve
  obtain ⟨-, stored, hstored, hperm⟩ := hloads [.create c] d [.delete .done (str "wg0")] rfl (by
    simpa [hname', Request.name] using hne)
  refine ⟨c, d, w', hc, hd, hname, hname', hserve, ?_, stored, hstored, hfiles ▸ hperm⟩
  exact hgone [.create c, .create d] .done (str "wg0") [] rfl fun r hr => absurd hr List.not_mem_nil

end WireGuardWindows.Manager
