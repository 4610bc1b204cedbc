import WireGuardWindows.Conf.Store
import WireGuardWindows.Conf.RoundTrip

/-!
# Stored configurations

The programs that load, save and delete the configuration of a tunnel and its TLS files. A
tunnel is loaded from two places, a file of its own and a directory of its own, so what a
program does to the store is stated for these two. `Gives` is a run in which no call fails:
the number of calls it makes is kept, so that the call behind it can be made to fail.
-/

namespace WireGuardWindows.Conf
open GoStd Strings Unicode Systems Loops

def configFileSuffix : Str := str ".conf.dpapi"
def configFileUnencryptedSuffix : Str := str ".conf"
def configurationsDirectoryName : Str := str "Configurations"

namespace Store

def readDir (dir : List Str) : Store (List Str) := do
  system
  return Sort.slice bytesLess (((← get).files.entries toLower dir).map File.name)

def remove (dir : List Str) (name : Str) : Store Unit := do
  system
  match (← get).files.read toLower dir name with
  | none => throw .notFound
  | some _ => modify fun w => { w with files := w.files.remove toLower dir name }

end Store

def tunnelConfigurationsDirectory : Store (List Str) := do
  Store.system
  return [configurationsDirectoryName]

def configurationsDirectory : List Str := [configurationsDirectoryName]
def tlsDirectory (tunnelName : Str) : List Str := [wsTLSDirectoryName, tunnelName]

/-- `name` is the last element of the path. -/
def nameFromPath (name : Str) : Except Error Str :=
  if ¬ ((configFileSuffix.length < name.length ∧ configFileSuffix.isSuffixOf name) ∨
      (configFileUnencryptedSuffix.length < name.length ∧
        configFileUnencryptedSuffix.isSuffixOf name)) then
    .error (.parseError "Path must end in either .conf.dpapi or .conf" name)
  else
    let name := if configFileSuffix.isSuffixOf name then trimSuffix name configFileSuffix
      else trimSuffix name configFileUnencryptedSuffix
    if ¬ tunnelNameIsValid name then .error (.parseError "Tunnel name is not valid" name)
      else .ok name

def Store.ofExcept {α : Type} : Except Error α → Store α
  | .ok a => return a
  | .error e => throw (.invalid e)

section
variable (dpapi : Dpapi) (urlParse : Str → Option URL) (decoders : List (Str → Option Str))

def loadFromPath (dir : List Str) (file : Str) : Store Config := do
  let name ← Store.ofExcept (nameFromPath file)
  let bytes ← Store.readFile dir file
  let bytes ← if configFileSuffix.isSuffixOf file then decrypt dpapi bytes name else pure bytes
  Store.ofExcept (fromWgQuickWithUnknownEncoding urlParse decoders bytes name)

def loadFromName (name : Str) : Store Config :=
  if ¬ tunnelNameIsValid name then throw .tunnelNameIsNotValid
  else do loadFromPath dpapi urlParse decoders (← tunnelConfigurationsDirectory) (name ++
    configFileSuffix)

def loadWSTLSFiles (config : Config) : Store Config := do
  let files ← config.wsTLSStoredFileNames.mapM fun name => do
    return (name, ← loadWSTLSFile dpapi config.name name)
  return { config with wsTLSFiles := files }

def Config.save (config : Config) (overwrite : Bool) : Store Unit :=
  if ¬ tunnelNameIsValid config.name then throw .tunnelNameIsNotValid
  else do
    let dir ← tunnelConfigurationsDirectory
    let bytes ← encrypt dpapi config.toWgQuick config.name
    Store.writeLockedDownFile dir (config.name ++ configFileSuffix) overwrite bytes

end

def deleteWSTLSFiles (tunnelName : Str) : Store Unit :=
  if ¬ tunnelNameIsValid tunnelName then throw .tunnelNameIsNotValid
  else do
    Store.removeAll (← wsTLSDirectory false [tunnelName])
    removeWSTLSRuntimeFiles tunnelName

def saveWSTLSFile (dpapi : Dpapi) (tunnelName : Str) (dir : List Str) (file : Str × Bytes) :
    Store Unit :=
  if ¬ wsTLSFileNameIsValid file.1
    then throw (.invalid (.parseError "Unexpected stored TLS file" file.1))
  else do
    let encrypted ← encrypt dpapi file.2 (wsTLSDescription tunnelName file.1)
    Store.writeLockedDownFile dir (file.1 ++ wsTLSEncryptedSuffix) true encrypted

/-- An entry of the directory that `SaveWSTLSFiles` keeps. -/
def keepsEntry (files : List (Str × Bytes)) (entry : Str) : Bool :=
  wsTLSEncryptedSuffix.isSuffixOf entry &&
    (files.lookup (trimSuffix entry wsTLSEncryptedSuffix)).isSome

def saveWSTLSFiles (dpapi : Dpapi) (tunnelName : Str) (files : List (Str × Bytes)) : Store Unit :=
  if ¬ tunnelNameIsValid tunnelName then throw .tunnelNameIsNotValid
  else if files = [] then deleteWSTLSFiles tunnelName
  else do
    let dir ← wsTLSDirectory true [tunnelName]
    files.forM (saveWSTLSFile dpapi tunnelName dir)
    let entries ← Store.readDir dir
    entries.forM fun entry => if keepsEntry files entry then return () else Store.remove dir entry

def deleteName (name : Str) : Store Unit :=
  if ¬ tunnelNameIsValid name then throw .tunnelNameIsNotValid
  else do
    let dir ← tunnelConfigurationsDirectory
    Store.remove dir (name ++ configFileSuffix)
    deleteWSTLSFiles name

/-- The program makes `n` calls and removes `m` directories; if none of these fails, it ends in `a`
and has changed the files to `files'`. -/
def Gives {α : Type} (x : Store α) (files : Files) (a : α) (files' : Files) : Prop :=
  ∃ n m, ∀ calls removals, (∀ o ∈ calls.take n, o = .succeeds) →
  (∀ r ∈ removals.take m, r = .succeeds) →
    x ⟨files, calls, removals⟩ = .ok a ⟨files', calls.drop n, removals.drop m⟩

theorem headD_of_take {α : Type} {l : List α} {d : α} (h : ∀ a ∈ l.take 1, a = d) :
    l.headD d = d := by
  cases l with
  | nil => rfl
  | cons a l => exact h a (by simp)

namespace Gives
variable {α β : Type} {files files' files'' : Files}

theorem ok {x : Store α} {a : α} (h : Gives x files a files') :
    x ⟨files, [], []⟩ = .ok a ⟨files', [], []⟩ := by
  obtain ⟨n, m, h⟩ := h
  have hrun := h [] [] (by simp) (by simp)
  rwa [List.drop_nil, List.drop_nil] at hrun

theorem pure (a : α) (files : Files) : Gives (Pure.pure a) files a files :=
  ⟨0, 0, fun _ _ _ _ => rfl⟩

theorem bind {x : Store α} {f : α → Store β} {a : α} {b : β} (hx : Gives x files a files')
    (hf : Gives (f a) files' b files'') : Gives (x >>= f) files b files'' := by
  obtain ⟨n, m, hx⟩ := hx
  obtain ⟨n', m', hf⟩ := hf
  refine ⟨n + n', m + m', fun calls removals hcalls hremovals => ?_⟩
  rw [List.take_add] at hcalls hremovals
  have hfirst := hx calls removals (fun o ho => hcalls o (List.mem_append_left _ ho))
    fun r hr => hremovals r (List.mem_append_left _ hr)
  have hsecond :=
    hf (calls.drop n) (removals.drop m) (fun o ho => hcalls o (List.mem_append_right _ ho))
    fun r hr => hremovals r (List.mem_append_right _ hr)
  change EStateM.bind x f _ = _
  rw [EStateM.bind, hfirst]
  dsimp only
  rw [hsecond, List.drop_drop, List.drop_drop]

theorem attempt {x : Store α} {a : α} (h : Gives x files a files') :
    Gives (Systems.attempt x) files (.ok a) files' := by
  obtain ⟨n, m, h⟩ := h
  refine ⟨n, m, fun calls removals hcalls hremovals => ?_⟩
  rw [Systems.attempt, h calls removals hcalls hremovals]

theorem system (files : Files) : Gives Store.system files () files := by
  refine ⟨1, 0, fun calls removals hcalls _ => ?_⟩
  have hhead := headD_of_take hcalls
  simp only [Store.system, Store.call, Bind.bind, EStateM.bind, hhead]
  rw [List.drop_one]
  rfl

theorem write (dir : List Str) (name : Str) (contents : Bytes) (files : Files) :
    Gives (Store.writeLockedDownFile dir name true contents) files ()
      (files.put toLower dir ⟨name, contents⟩) := by
  refine ⟨1, 0, fun calls removals hcalls _ => ?_⟩
  have hhead := headD_of_take hcalls
  simp only [Store.writeLockedDownFile, Store.call, Bind.bind, EStateM.bind, hhead]
  rw [List.drop_one]
  rfl

theorem remove {dir : List Str} {name : Str} {contents : Bytes}
    (h : files.read toLower dir name = some contents) :
    Gives (Store.remove dir name) files () (files.remove toLower dir name) := by
  refine (Gives.system files).bind ⟨0, 0, fun calls removals _ _ => ?_⟩
  simp only [Bind.bind, EStateM.bind, get, getThe, MonadStateOf.get, EStateM.get, h]
  rfl

theorem readDir (dir : List Str) (files : Files) :
    Gives (Store.readDir dir) files
      (Sort.slice bytesLess ((files.entries toLower dir).map File.name)) files :=
  (Gives.system files).bind ⟨0, 0, fun _ _ _ _ => rfl⟩

theorem removeAll (dir : List Str) (files : Files) :
    Gives (Store.removeAll dir) files () (files.removeAll toLower dir) := by
  refine ⟨0, 1, fun calls removals _ hremovals => ?_⟩
  rw [Store.removeAll, headD_of_take hremovals, List.drop_one]
  rfl

theorem encrypt (dpapi : Dpapi) (data : Bytes) (name : Str) (files : Files) :
    Gives (Conf.encrypt dpapi data name) files (dpapi.protect data name) files :=
  (Gives.system files).bind (Gives.pure _ files)

theorem wsTLSDirectory (create : Bool) (elem : List Str) (files : Files) :
    Gives (Conf.wsTLSDirectory create elem) files (wsTLSDirectoryName :: elem) files := by
  refine (Gives.system files).bind ?_
  cases create with
  | false => exact Gives.pure _ files
  | true => exact (Gives.system files).bind (Gives.pure _ files)

theorem tunnelConfigurationsDirectory (files : Files) :
    Gives Conf.tunnelConfigurationsDirectory files [configurationsDirectoryName] files :=
  (Gives.system files).bind (Gives.pure _ files)

end Gives

def fileContents (files : Files) (dir : List Str) (name : Str) : Except StoreError Bytes :=
  match files.read toLower dir name with
  | none => .error .notFound
  | some contents => .ok contents

def answer {α : Type} (x : Store α) (files : Files) : Except StoreError α :=
  match x ⟨files, [], []⟩ with
  | .ok a _ => .ok a
  | .error e _ => .error e

def resultIn {α : Type} (files : Files) : Except StoreError α → EStateM.Result StoreError World α
  | .ok a => .ok a ⟨files, [], []⟩
  | .error e => .error e ⟨files, [], []⟩

/-- The program only reads the files, and `r` is its answer where no call fails. -/
def Answers {α : Type} (x : Store α) (files : Files) (r : Except StoreError α) : Prop :=
  x ⟨files, [], []⟩ = resultIn files r

namespace Answers
variable {α β : Type} {files : Files}

theorem answer_eq {x : Store α} {r : Except StoreError α} (h : Answers x files r) :
    answer x files = r := by
  rw [answer, h]
  cases r <;> rfl

theorem pure (a : α) : Answers (Pure.pure a) files (.ok a) := rfl

theorem throw (e : StoreError) : Answers (MonadExcept.throw e : Store α) files (.error e) := rfl

theorem bind {x : Store α} {f : α → Store β} {r : Except StoreError α} {g : α → Except StoreError β}
    (hx : Answers x files r) (hf : ∀ a, Answers (f a) files (g a)) :
    Answers (x >>= f) files (r >>= g) := by
  rw [Answers]
  change EStateM.bind x f _ = _
  rw [EStateM.bind, hx]
  cases r with
  | error e => rfl
  | ok a => exact hf a

theorem after {x : Store α} {f : α → Store β} {a : α} {r : Except StoreError β}
    (hx : Answers x files (.ok a)) (hf : Answers (f a) files r) : Answers (x >>= f) files r := by
  rw [Answers]
  change EStateM.bind x f _ = _
  rw [EStateM.bind, hx]
  exact hf

theorem system : Answers Store.system files (.ok ()) := rfl

theorem wsTLSDirectory (elem : List Str) :
    Answers (Conf.wsTLSDirectory false elem) files (.ok (wsTLSDirectoryName :: elem)) := rfl

theorem tunnelConfigurationsDirectory :
    Answers Conf.tunnelConfigurationsDirectory files (.ok [configurationsDirectoryName]) := rfl

theorem readFile (dir : List Str) (name : Str) :
    Answers (Store.readFile dir name) files (fileContents files dir name) := by
  have hread : Store.readFile dir name ⟨files, [], []⟩ = (match files.read toLower dir name with
      | none => MonadExcept.throw .notFound
      | some contents => Pure.pure contents : Store Bytes) ⟨files, [], []⟩ := rfl
  rw [Answers, hread, fileContents]
  cases files.read toLower dir name <;> rfl

theorem ofExcept (r : Except Error α) : Answers (Store.ofExcept r) files (r.mapError .invalid) := by
  cases r <;> rfl

theorem mapM {f : α → Store β} {g : α → Except StoreError β} (hf : ∀ a, Answers (f a) files (g a))
    (l : List α) :
    Answers (l.mapM f) files (l.mapM g) := by
  induction l with
  | nil => exact Answers.pure []
  | cons a l ih =>
    rw [List.mapM_cons, List.mapM_cons]
    exact (hf a).bind fun b => ih.bind fun bs => Answers.pure (b :: bs)

theorem attempt {x : Store α} {r : Except StoreError α} (h : Answers x files r) :
    Answers (Systems.attempt x) files (.ok r) := by
  rw [Answers, Systems.attempt, h]
  cases r <;> rfl

end Answers

section
variable (dpapi : Dpapi) (urlParse : Str → Option URL) (decoders : List (Str → Option Str))
  (files : Files)

def plainText (encrypted : Bytes) (name : Str) : Except StoreError Bytes :=
  match dpapi.unprotect encrypted with
  | none => .error .undecryptable
  | some (plain, outName) => if outName = name then .ok plain else .error .undecryptable

def storedTLSFile (tunnelName fileName : Str) : Except StoreError Bytes :=
  if ¬ tunnelNameIsValid tunnelName ∨ ¬ wsTLSFileNameIsValid fileName
    then .error .fileNameIsNotValid
  else do
    let encrypted ← fileContents files [wsTLSDirectoryName, tunnelName] (fileName ++
      wsTLSEncryptedSuffix)
    plainText dpapi encrypted (wsTLSDescription tunnelName fileName)

def storedConfig (name : Str) : Except StoreError Config :=
  if ¬ tunnelNameIsValid name then .error .tunnelNameIsNotValid
  else do
    let encrypted ← fileContents files [configurationsDirectoryName] (name ++ configFileSuffix)
    let text ← plainText dpapi encrypted name
    (fromWgQuickWithUnknownEncoding urlParse decoders text name).mapError .invalid

def storedWSTLSFiles (config : Config) : Except StoreError Config := do
  let stored ← config.wsTLSStoredFileNames.mapM fun name => do
    return (name, ← storedTLSFile dpapi files config.name name)
  return { config with wsTLSFiles := stored }

def loadTunnel (name : Str) : Store Config := do
  loadWSTLSFiles dpapi (← loadFromName dpapi urlParse decoders name)

def Loads (name : Str) (config : Config) : Prop :=
  answer (loadTunnel dpapi urlParse decoders name) files = .ok config

end

section
variable {dpapi : Dpapi} {urlParse : Str → Option URL} {decoders : List (Str → Option Str)}
  {files : Files}

theorem tunnelName_ne_nil {name : Str} (h : tunnelNameIsValid name = true) : name ≠ [] := by
  rintro rfl
  exact absurd h (by decide +kernel)

theorem nameFromPath_config {name : Str} (h : tunnelNameIsValid name = true) :
    nameFromPath (name ++ configFileSuffix) = .ok name := by
  have hlen : configFileSuffix.length < (name ++ configFileSuffix).length := by
    rw [List.length_append]
    exact Nat.lt_add_of_pos_left (List.length_pos_iff.mpr (tunnelName_ne_nil h))
  rw [nameFromPath, if_neg (not_not.mpr (Or.inl ⟨hlen, suffix_isSuffixOf _ _⟩)),
    if_pos (suffix_isSuffixOf _ _), trimSuffix_append, if_neg (not_not.mpr h)]

theorem decrypt_answers (data : Bytes) (name : Str) :
    Answers (decrypt dpapi data name) files (plainText dpapi data name) := by
  refine Answers.system.after ?_
  rw [plainText]
  cases dpapi.unprotect data with
  | none => exact Answers.throw _
  | some r =>
    obtain ⟨plain, outName⟩ := r
    dsimp only
    by_cases hname : outName = name
    · rw [if_pos hname, if_pos hname]
      exact Answers.pure plain
    · rw [if_neg hname, if_neg hname]
      exact Answers.throw _

theorem loadWSTLSFile_answers (tunnelName fileName : Str) :
    Answers (loadWSTLSFile dpapi tunnelName fileName) files
      (storedTLSFile dpapi files tunnelName fileName) := by
  rw [loadWSTLSFile, storedTLSFile]
  by_cases hvalid : ¬ tunnelNameIsValid tunnelName ∨ ¬ wsTLSFileNameIsValid fileName
  · rw [if_pos hvalid, if_pos hvalid]
    exact Answers.throw _
  · rw [if_neg hvalid, if_neg hvalid]
    refine (Answers.wsTLSDirectory [tunnelName]).after ?_
    exact (Answers.readFile _ _).bind fun encrypted => decrypt_answers encrypted _

theorem loadFromName_answers (name : Str) :
    Answers (loadFromName dpapi urlParse decoders name) files
      (storedConfig dpapi urlParse decoders files name) := by
  rw [loadFromName, storedConfig]
  by_cases hvalid : tunnelNameIsValid name = true
  · rw [if_neg (not_not.mpr hvalid), if_neg (not_not.mpr hvalid)]
    refine Answers.tunnelConfigurationsDirectory.after ?_
    rw [loadFromPath, nameFromPath_config hvalid]
    refine (Answers.pure name).after ((Answers.readFile _ _).bind fun encrypted => ?_)
    rw [if_pos (suffix_isSuffixOf _ _)]
    exact (decrypt_answers encrypted name).bind fun text => Answers.ofExcept _
  · rw [if_pos hvalid, if_pos hvalid]
    exact Answers.throw _

theorem loadWSTLSFiles_answers (config : Config) :
    Answers (loadWSTLSFiles dpapi config) files (storedWSTLSFiles dpapi files config) := by
  refine (Answers.mapM (fun name => ?_) config.wsTLSStoredFileNames).bind fun stored =>
    Answers.pure _
  exact (loadWSTLSFile_answers config.name name).bind fun data => Answers.pure (name, data)

theorem loadTunnel_answers (name : Str) :
    Answers (loadTunnel dpapi urlParse decoders name) files
      (storedConfig dpapi urlParse decoders files name >>= storedWSTLSFiles dpapi files) :=
  (loadFromName_answers name).bind loadWSTLSFiles_answers

theorem loads_iff {name : Str} {config : Config} :
    Loads dpapi urlParse decoders files name config ↔
      ∃ c, storedConfig dpapi urlParse decoders files name = .ok c ∧
      storedWSTLSFiles dpapi files c = .ok config := by
  rw [Loads, (loadTunnel_answers name).answer_eq]
  refine ⟨bind_eq_ok, ?_⟩
  rintro ⟨c, hc, hfiles⟩
  rw [hc]
  exact hfiles

structure SameTunnel (files files' : Files) (name : Str) : Prop where
  config : files'.read toLower configurationsDirectory (name ++ configFileSuffix) =
    files.read toLower configurationsDirectory (name ++ configFileSuffix)
  stored : files' ((tlsDirectory name).map toLower) = files ((tlsDirectory name).map toLower)

theorem SameTunnel.storedTLSFile {files' : Files} {name : Str} (h : SameTunnel files files' name)
    (fileName : Str) :
    storedTLSFile dpapi files' name fileName = storedTLSFile dpapi files name fileName := by
  rw [Conf.storedTLSFile, Conf.storedTLSFile]
  have hread : files'.read toLower [wsTLSDirectoryName, name] (fileName ++ wsTLSEncryptedSuffix) =
    files.read toLower [wsTLSDirectoryName, name] (fileName ++ wsTLSEncryptedSuffix) :=
      Tree.read_congr h.stored _
  rw [fileContents, fileContents, hread]

theorem fromWgQuickWithUnknownEncoding_canonical {text name : Str} {c : Config}
    (h : fromWgQuickWithUnknownEncoding urlParse decoders text name = .ok c) :
    c.Canonical urlParse ∧ c.name = name := by
  rw [fromWgQuickWithUnknownEncoding] at h
  cases hfirst : fromWgQuick urlParse text name with
  | ok c' =>
    rw [hfirst] at h
    cases h
    exact fromWgQuick_canonical hfirst
  | error e =>
    rw [hfirst] at h
    dsimp only at h
    split at h
    · rename_i c' hdecoded
      cases h
      obtain ⟨decode, -, hdecoded⟩ := List.exists_of_findSome?_eq_some hdecoded
      obtain ⟨decoded, -, hparsed⟩ := Option.bind_eq_some_iff.mp hdecoded
      cases hc : fromWgQuick urlParse decoded name with
      | ok c' =>
        rw [hc] at hparsed
        cases hparsed
        exact fromWgQuick_canonical hc
      | error e =>
        rw [hc] at hparsed
        cases hparsed
    · cases h

theorem fileContents_eq_ok {dir : List Str} {name : Str} {contents : Bytes} :
    fileContents files dir name = .ok contents ↔ files.read toLower dir name = some contents := by
  rw [fileContents]
  cases files.read toLower dir name <;> simp

theorem plainText_eq_ok {encrypted plain : Bytes} {name : Str} :
    plainText dpapi encrypted name = .ok plain ↔ dpapi.unprotect encrypted = some
      (plain, name) := by
  rw [plainText]
  cases dpapi.unprotect encrypted with
  | none => simp
  | some r =>
    obtain ⟨p, outName⟩ := r
    by_cases hname : outName = name
    · simp [hname]
    · simp [hname]

theorem mapError_eq_ok {α ε ε' : Type} {f : ε → ε'} {r : Except ε α} {a : α} :
    r.mapError f = .ok a ↔ r = .ok a := by
  cases r <;> simp [Except.mapError]

theorem storedConfig_eq_ok {name : Str} {c : Config} :
    storedConfig dpapi urlParse decoders files name = .ok c ↔ tunnelNameIsValid name = true ∧
    ∃ encrypted text,
      files.read toLower [configurationsDirectoryName] (name ++ configFileSuffix) = some encrypted ∧
      dpapi.unprotect encrypted = some (text, name) ∧
      fromWgQuickWithUnknownEncoding urlParse decoders text name = .ok c := by
  rw [storedConfig]
  constructor
  · intro h
    split_ifs at h with hvalid
    obtain ⟨encrypted, hread, h⟩ := bind_eq_ok h
    obtain ⟨text, htext, h⟩ := bind_eq_ok h
    exact ⟨hvalid, encrypted, text, fileContents_eq_ok.mp hread, plainText_eq_ok.mp htext,
      mapError_eq_ok.mp h⟩
  · rintro ⟨hvalid, encrypted, text, hread, htext, hparsed⟩
    rw [if_neg (not_not.mpr hvalid), fileContents_eq_ok.mpr hread]
    change (plainText dpapi encrypted name >>= _) = _
    rw [plainText_eq_ok.mpr htext]
    exact mapError_eq_ok.mpr hparsed

theorem storedTLSFile_eq_ok {tunnelName fileName : Str} {data : Bytes} :
    storedTLSFile dpapi files tunnelName fileName = .ok data ↔
      tunnelNameIsValid tunnelName = true ∧ storedContent dpapi files tunnelName fileName data := by
  rw [storedTLSFile]
  constructor
  · intro h
    split_ifs at h with hvalid
    rw [not_or, not_not, not_not] at hvalid
    obtain ⟨encrypted, hread, h⟩ := bind_eq_ok h
    exact ⟨hvalid.1, hvalid.2, encrypted, fileContents_eq_ok.mp hread, plainText_eq_ok.mp h⟩
  · rintro ⟨hname, hvalid, encrypted, hread, hplain⟩
    rw [if_neg (by simp [hname, hvalid]), fileContents_eq_ok.mpr hread]
    exact plainText_eq_ok.mpr hplain

theorem storedConfig_name {name : Str} {c : Config}
    (h : storedConfig dpapi urlParse decoders files name = .ok c) :
    c.name = name := by
  obtain ⟨-, encrypted, text, -, -, hparsed⟩ := storedConfig_eq_ok.mp h
  exact (fromWgQuickWithUnknownEncoding_canonical hparsed).2

theorem storedConfig_congr {files' : Files} {name : Str}
    (h : files'.read toLower configurationsDirectory (name ++ configFileSuffix) =
      files.read toLower configurationsDirectory (name ++ configFileSuffix)) :
    storedConfig dpapi urlParse decoders files' name =
      storedConfig dpapi urlParse decoders files name := by
  rw [configurationsDirectory] at h
  rw [storedConfig, storedConfig, fileContents, fileContents, h]

theorem SameTunnel.storedWSTLSFiles {files' : Files} {c : Config}
    (h : SameTunnel files files' c.name) :
    storedWSTLSFiles dpapi files' c = storedWSTLSFiles dpapi files c := by
  simp only [Conf.storedWSTLSFiles, h.storedTLSFile]

theorem SameTunnel.answer_eq {files' : Files} {name : Str} (h : SameTunnel files files' name) :
    answer (loadFromName dpapi urlParse decoders name) files' =
        answer (loadFromName dpapi urlParse decoders name) files ∧
      answer (loadTunnel dpapi urlParse decoders name) files' =
        answer (loadTunnel dpapi urlParse decoders name) files := by
  rw [(loadFromName_answers name).answer_eq, (loadFromName_answers name).answer_eq,
    (loadTunnel_answers name).answer_eq, (loadTunnel_answers name).answer_eq,
    storedConfig_congr h.config]
  refine ⟨rfl, ?_⟩
  cases hc : Conf.storedConfig dpapi urlParse decoders files name with
  | error e => rfl
  | ok c =>
    obtain rfl := storedConfig_name hc
    exact h.storedWSTLSFiles

end

end WireGuardWindows.Conf
