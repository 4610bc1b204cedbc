import WireGuardWindows.Conf.StoreUpdates

/-!
# Migration of unencrypted configurations

`migrateUnencryptedConfigs` encrypts the `.conf` files of the directory. It goes over the
entries one by one, an error is only logged, and when a file is still open elsewhere a timer
runs it again. What it keeps is a relation between the files before and after (`Migrates`)
that every entry extends, so it holds for any number of runs.
-/

namespace WireGuardWindows.Conf
open GoStd Strings Unicode Systems Loops

structure Attempt where
  /-- Not a regular file, one without `Info`, or one without a permission to read. -/
  skipped : Str → Bool
  /-- Opening it is a sharing violation. -/
  shared : Str → Bool

structure Migration where
  /-- Set when the timer is. -/
  ignoreSharingViolations : Bool := false
  migrated : List Str := []

section
variable (dpapi : Dpapi) (urlParse : Str → Option URL) (decoders : List (Str → Option Str))

def ingest (dir : List Str) (name : Str) : Store Str := do
  let bytes ← Store.readFile dir name
  let config ← Store.ofExcept
    (fromWgQuickWithUnknownEncoding urlParse decoders bytes
      (trimSuffix name configFileUnencryptedSuffix))
  config.save dpapi false
  Store.remove dir name
  let _newPath ← tunnelConfigurationsDirectory
  return config.name

def migrateEntry (attempt : Attempt) (sharingBase : Nat) (dir : List Str) (st : Migration)
    (name : Str) :
    Store Migration :=
  if name.length ≤ configFileUnencryptedSuffix.length ∨
    ¬ configFileUnencryptedSuffix.isSuffixOf name then return st
  else if attempt.skipped name then return st
  else if attempt.shared name then
    if st.ignoreSharingViolations then return st
    else if 0 < sharingBase then return { st with ignoreSharingViolations := true }
    else return st
  else do
    match ← Systems.attempt (ingest dpapi urlParse decoders dir name) with
    | .ok migrated => return { st with migrated := st.migrated ++ [migrated] }
    | .error _ => return st

def migrateListing (attempt : Attempt) (sharingBase : Nat) : Store Migration := do
  let configFileDir ← tunnelConfigurationsDirectory
  let files ← Store.readDir configFileDir
  files.foldlM (migrateEntry dpapi urlParse decoders attempt sharingBase configFileDir) {}

def migrateUnencryptedConfigs (attempt : Attempt) (sharingBase : Nat) : Store Migration := do
  match ← Systems.attempt (migrateListing dpapi urlParse decoders attempt sharingBase) with
  | .ok st => return st
  | .error _ => return {}

/-- The call of `MigrateUnencryptedConfigs` and those of the timers it leaves; `attempts` gives the
answers for each `sharingBase`. -/
def migrateWithRetries (attempts : Nat → Attempt) : Nat → Store Unit
  | 0 => do
    let _ ← migrateUnencryptedConfigs dpapi urlParse decoders (attempts 0) 0
  | sharingBase + 1 => do
    let st ← migrateUnencryptedConfigs dpapi urlParse decoders (attempts (sharingBase + 1))
      (sharingBase + 1)
    if st.ignoreSharingViolations then migrateWithRetries attempts sharingBase else return ()

def Moved (files : Files) (e : File Str Bytes) : Prop :=
  ∃ config, fromWgQuickWithUnknownEncoding urlParse decoders e.contents
    (trimSuffix e.name configFileUnencryptedSuffix) = .ok config ∧
    tunnelNameIsValid config.name = true ∧
    encryptedConfig dpapi config ∈ files.entries toLower configurationsDirectory

structure Migrates (base files : Files) : Prop where
  distinct : files.Distinct toLower
  encrypted : ∀ e ∈ base.entries toLower configurationsDirectory,
    configFileSuffix <:+ toLower e.name →
    e ∈ files.entries toLower configurationsDirectory
  plain : ∀ e ∈ base.entries toLower configurationsDirectory,
    configFileUnencryptedSuffix <:+ toLower e.name →
    e ∈ files.entries toLower configurationsDirectory ∨ Moved dpapi urlParse decoders files e
  /-- No `.conf` file is written, so one that is there is as it was listed. -/
  unwritten : ∀ e ∈ files.entries toLower configurationsDirectory,
    configFileUnencryptedSuffix <:+ toLower e.name →
    e ∈ base.entries toLower configurationsDirectory

end

theorem getLast?_of_suffix {s t : Str} (h : s <:+ t) (hs : s ≠ []) : t.getLast? = s.getLast? := by
  obtain ⟨x, rfl⟩ := h
  exact List.getLast?_append_of_ne_nil x hs

theorem suffix_toLower_config (name : Str) :
    configFileSuffix <:+ toLower (name ++ configFileSuffix) :=
  toLower_configFile name ▸ List.suffix_append _ _

theorem suffix_toLower_unencrypted {name : Str} (h : configFileUnencryptedSuffix <:+ name) :
    configFileUnencryptedSuffix <:+ toLower name := by
  obtain ⟨x, rfl⟩ := h
  rw [toLower_append_ascii x (by decide)]
  exact List.suffix_append _ _

theorem encrypted_ne_plain {a b : Str} (ha : configFileSuffix <:+ a)
    (hb : configFileUnencryptedSuffix <:+ b) : a ≠ b := by
  rintro rfl
  have hlast := (getLast?_of_suffix ha (by decide)).symm.trans (getLast?_of_suffix hb (by decide))
  exact absurd hlast (by decide)

theorem getLast?_toLower_temp (temp : TempFile) :
    (toLower temp.file.name).getLast? = some 0x70 := by
  rw [TempFile.file, randomFileName, toLower_append_ascii _ (by decide),
    List.getLast?_append_of_ne_nil _ (by decide)]
  decide

theorem encrypted_ne_temp {a : Str} (h : configFileSuffix <:+ a) (temp : TempFile) :
    a ≠ toLower temp.file.name := by
  rintro rfl
  exact absurd ((getLast?_toLower_temp temp).symm.trans (getLast?_of_suffix h (by decide)))
    (by decide)

theorem temp_not_plain (temp : TempFile) :
    ¬ configFileUnencryptedSuffix <:+ toLower temp.file.name := by
  intro h
  exact absurd ((getLast?_toLower_temp temp).symm.trans (getLast?_of_suffix h (by decide)))
    (by decide)

section
variable {dpapi : Dpapi} {urlParse : Str → Option URL} {decoders : List (Str → Option Str)}
  {base files : Files}

theorem Moved.of_mem {files' : Files} {e : File Str Bytes}
    (h : Moved dpapi urlParse decoders files e)
    (hkept : ∀ f ∈ files.entries toLower configurationsDirectory,
      configFileSuffix <:+ toLower f.name →
      f ∈ files'.entries toLower configurationsDirectory) :
        Moved dpapi urlParse decoders files' e := by
  obtain ⟨config, hparsed, hvalid, hmem⟩ := h
  exact ⟨config, hparsed, hvalid, hkept _ hmem (suffix_toLower_config config.name)⟩

namespace Migrates

theorem refl (h : base.Distinct toLower) : Migrates dpapi urlParse decoders base base :=
  ⟨h, fun _ he _ => he, fun _ he _ => .inl he, fun _ he _ => he⟩

theorem trans {files' : Files} (h : Migrates dpapi urlParse decoders base files)
    (h' : Migrates dpapi urlParse decoders files files') :
    Migrates dpapi urlParse decoders base files' := by
  refine ⟨h'.distinct, fun e he hs => h'.encrypted e (h.encrypted e he hs) hs, fun e he hs => ?_,
    fun e he hs => h.unwritten e (h'.unwritten e he hs) hs⟩
  rcases h.plain e he hs with hmem | hmoved
  · exact h'.plain e hmem hs
  · exact .inr (hmoved.of_mem h'.encrypted)

theorem put (h : files.Distinct toLower) {file : File Str Bytes}
    (hplain : ¬ configFileUnencryptedSuffix <:+ toLower file.name)
    (hencrypted : ∀ e ∈ files.entries toLower configurationsDirectory,
      configFileSuffix <:+ toLower e.name →
      toLower e.name ≠ toLower file.name) :
    Migrates dpapi urlParse decoders files (files.put toLower configurationsDirectory file) := by
  refine ⟨h.put _ _, fun e he hs => ?_, fun e he hs => .inl ?_, fun e he hs => ?_⟩
  · exact Tree.mem_entries_put.mpr (.inl ⟨he, hencrypted e he hs⟩)
  · exact Tree.mem_entries_put.mpr (.inl ⟨he, fun heq => hplain (heq ▸ hs)⟩)
  · rcases Tree.mem_entries_put.mp he with hold | rfl
    · exact hold.1
    · exact absurd hs hplain

theorem putTemp (h : files.Distinct toLower) (temp : TempFile) :
    Migrates dpapi urlParse decoders files (files.put toLower configurationsDirectory temp.file) :=
  put h (temp_not_plain temp) fun _ _ hs => encrypted_ne_temp hs temp

theorem putConfig (h : files.Distinct toLower) {c : Config}
    (hnew : files.read toLower configurationsDirectory (c.name ++ configFileSuffix) = none) :
    Migrates dpapi urlParse decoders files
      (files.put toLower configurationsDirectory (encryptedConfig dpapi c)) := by
  refine put h (fun hs => encrypted_ne_plain (suffix_toLower_config c.name) hs rfl)
    fun e he _ heq => ?_
  have hread := Tree.read_isSome.mpr ⟨e, he, heq⟩
  rw [encryptedConfig, hnew] at hread
  exact Bool.false_ne_true hread

theorem remove (h : files.Distinct toLower) {e : File Str Bytes}
    (he : e ∈ files.entries toLower configurationsDirectory)
    (hname : configFileUnencryptedSuffix <:+ e.name)
    (hmoved : Moved dpapi urlParse decoders files e) :
    Migrates dpapi urlParse decoders files
      (files.remove toLower configurationsDirectory e.name) := by
  have hencrypted : ∀ f ∈ files.entries toLower configurationsDirectory,
    configFileSuffix <:+ toLower f.name →
      f ∈ (files.remove toLower configurationsDirectory e.name).entries toLower
        configurationsDirectory := fun f hf hs =>
    Tree.mem_entries_remove.mpr ⟨hf, encrypted_ne_plain hs (suffix_toLower_unencrypted hname)⟩
  refine ⟨h.remove _ _, hencrypted, fun f hf hs => ?_, fun f hf _ =>
    (Tree.mem_entries_remove.mp hf).1⟩
  by_cases hkey : toLower f.name = toLower e.name
  · obtain rfl := h.eq_of_key hf he hkey
    exact .inr (hmoved.of_mem hencrypted)
  · exact .inl (Tree.mem_entries_remove.mpr ⟨hf, hkey⟩)

end Migrates

def Waits (dpapi : Dpapi) (urlParse : Str → Option URL) (decoders : List (Str → Option Str))
    (base : Files) (e : File Str Bytes) (files : Files) : Prop :=
  Migrates dpapi urlParse decoders base files ∧ e ∈ files.entries toLower configurationsDirectory

theorem readPlain_ends (hbase : base.Distinct toLower) {e : File Str Bytes}
    (he : e ∈ base.entries toLower configurationsDirectory)
    (hname : configFileUnencryptedSuffix <:+ e.name) :
    Ends (fun w => Migrates dpapi urlParse decoders base w.files)
      (Store.readFile configurationsDirectory e.name) (fun contents w => contents = e.contents ∧
        Waits dpapi urlParse decoders base e w.files)
      (fun _ w => Migrates dpapi urlParse decoders base w.files) := by
  refine (readFile_ends (fun _ _ h => h) configurationsDirectory e.name).mono (fun _ h => h) ?_
    fun _ _ h => h
  rintro contents w ⟨hread, h⟩
  obtain ⟨f, hf, hkey, rfl⟩ := Tree.read_eq_some hread
  have hs : configFileUnencryptedSuffix <:+ toLower f.name :=
    hkey ▸ suffix_toLower_unencrypted hname
  obtain rfl := hbase.eq_of_key (h.unwritten f hf hs) he hkey
  exact ⟨rfl, h, hf⟩

theorem savePlain_ends {e : File Str Bytes} (hname : configFileUnencryptedSuffix <:+ e.name)
    {config : Config}
    (hparsed : fromWgQuickWithUnknownEncoding urlParse decoders e.contents
      (trimSuffix e.name configFileUnencryptedSuffix) =
      .ok config) :
    Ends (fun w => Waits dpapi urlParse decoders base e w.files) (config.save dpapi false)
      (fun _ w => Waits dpapi urlParse decoders base e w.files ∧
        Moved dpapi urlParse decoders w.files e)
      (fun _ w => Migrates dpapi urlParse decoders base w.files) := by
  refine (save_ends (Waits dpapi urlParse decoders base e) config false).mono (fun _ h => h) ?_ ?_
  · rintro - w ⟨hvalid, before, ⟨h, he⟩, hnew, hw⟩
    rw [hw]
    have hne : toLower e.name ≠ toLower (encryptedConfig dpapi config).name := fun heq =>
      encrypted_ne_plain (suffix_toLower_config config.name) (suffix_toLower_unencrypted hname)
        heq.symm
    exact ⟨⟨h.trans (.putConfig h.distinct (hnew rfl)), Tree.mem_entries_put.mpr (.inl ⟨he, hne⟩)⟩,
      config, hparsed, hvalid, Tree.mem_entries_put.mpr (.inr rfl)⟩
  · rintro - w (h | ⟨before, temp, h, hw⟩)
    · exact h.1
    · rw [hw]
      exact h.1.trans (.putTemp h.1.distinct temp)

theorem removePlain_ends {e : File Str Bytes} (hname : configFileUnencryptedSuffix <:+ e.name) :
    Ends (fun w => Waits dpapi urlParse decoders base e w.files ∧
      Moved dpapi urlParse decoders w.files e)
      (Store.remove configurationsDirectory e.name)
      (fun _ w => Migrates dpapi urlParse decoders base w.files)
      (fun _ w => Migrates dpapi urlParse decoders base w.files) := by
  refine (remove_ends (fun _ _ h => h) configurationsDirectory e.name).mono (fun _ h => h) ?_
    fun _ _ h => h.1.1
  rintro - w ⟨files, ⟨⟨h, he⟩, hmoved⟩, -, hw⟩
  rw [hw]
  exact h.trans (.remove h.distinct he hname hmoved)

theorem directory_ends {P : World → Prop} (hP : Steady P) :
    Ends P tunnelConfigurationsDirectory (fun dir w => dir = configurationsDirectory ∧ P w)
      (fun _ => P) :=
  (system_ends hP).bind fun _ => .pure fun _ h => ⟨rfl, h⟩

theorem ingest_ends (hbase : base.Distinct toLower) {e : File Str Bytes}
    (he : e ∈ base.entries toLower configurationsDirectory)
    (hname : configFileUnencryptedSuffix <:+ e.name) :
    Ends (fun w => Migrates dpapi urlParse decoders base w.files)
      (ingest dpapi urlParse decoders configurationsDirectory e.name)
        (fun _ w => Migrates dpapi urlParse decoders base w.files)
      (fun _ w => Migrates dpapi urlParse decoders base w.files) := by
  refine (readPlain_ends hbase he hname).bind fun contents => .and_left ?_
  rintro rfl
  refine ((ofExcept_ends _ _).mono (fun _ h => h) (fun _ _ h => h) fun _ _ h =>
    h.1).bind fun config =>
    .and_left fun hparsed => ?_
  refine (savePlain_ends hname hparsed).bind fun _ => (removePlain_ends hname).bind fun _ => ?_
  exact (directory_ends fun _ _ h => h).bind fun _ => .pure fun _ h => h.2

theorem migrateEntry_ends (hbase : base.Distinct toLower) {e : File Str Bytes}
    (he : e ∈ base.entries toLower configurationsDirectory) (attempt : Attempt) (sharingBase : Nat)
    (st : Migration) :
    Ends (fun w => Migrates dpapi urlParse decoders base w.files)
      (migrateEntry dpapi urlParse decoders attempt sharingBase configurationsDirectory st e.name)
      (fun _ w => Migrates dpapi urlParse decoders base w.files) (fun _ _ => False) := by
  have hreturn (st : Migration) : Ends (fun w => Migrates dpapi urlParse decoders base w.files)
    (pure st : Store Migration)
    (fun _ w => Migrates dpapi urlParse decoders base w.files) (fun _ _ => False) :=
      .pure fun _ h => h
  refine .ite (fun _ => hreturn st) fun hname => .ite (fun _ => hreturn st) fun _ =>
    .ite (fun _ => ?_) fun _ => ?_
  · exact .ite (fun _ => hreturn st) fun _ => .ite (fun _ => hreturn _) fun _ => hreturn st
  · rw [not_or, not_not, List.isSuffixOf_iff_suffix] at hname
    have hingest : Ends (fun w => Migrates dpapi urlParse decoders base w.files)
        (Systems.attempt (ingest dpapi urlParse decoders configurationsDirectory e.name))
        (fun _ w => Migrates dpapi urlParse decoders base w.files) (fun _ _ => False) :=
      (ingest_ends hbase he hname.2).attempt (fun _ _ h => h) fun _ _ h => h
    refine hingest.bind fun result => ?_
    cases result with
    | ok name => exact hreturn _
    | error err => exact hreturn st

theorem migrateListing_ends (hbase : base.Distinct toLower) (attempt : Attempt)
    (sharingBase : Nat) :
    Ends (fun w => w.files = base) (migrateListing dpapi urlParse decoders attempt sharingBase)
      (fun _ w => Migrates dpapi urlParse decoders base w.files) (fun _ w => w.files = base) := by
  have hsteady : Steady fun w => w.files = base := fun _ _ h => h
  refine (directory_ends hsteady).bind fun dir => .and_left ?_
  rintro rfl
  have hlisting : Ends (fun w => w.files = base) (Store.readDir configurationsDirectory)
      (fun listing w => (∀ name ∈ listing, ∃ e ∈ base.entries toLower configurationsDirectory,
      e.name = name) ∧
        Migrates dpapi urlParse decoders base w.files) (fun _ w => w.files = base) := by
    refine (readDir_ends hsteady configurationsDirectory).mono (fun _ h => h) ?_ fun _ _ h => h
    rintro listing w ⟨hlisting, hw⟩
    rw [hw] at hlisting ⊢
    exact ⟨fun name hname => (hlisting name).mp hname, .refl hbase⟩
  refine hlisting.bind fun listing => .and_left fun hlisted => ?_
  refine .foldlM (fun name hname st => ?_) _
  obtain ⟨e, he, rfl⟩ := hlisted name hname
  exact (migrateEntry_ends hbase he attempt sharingBase st).mono (fun _ h => h) (fun _ _ h => h)
    fun _ _ h => False.elim h

theorem migrateUnencryptedConfigs_ends (base : Files) (attempt : Attempt) (sharingBase : Nat) :
    Ends (fun w => Migrates dpapi urlParse decoders base w.files)
      (migrateUnencryptedConfigs dpapi urlParse decoders attempt sharingBase)
      (fun _ w => Migrates dpapi urlParse decoders base w.files) (fun _ _ => False) := by
  intro w hw
  have hrun : Ends (fun v => v.files = w.files)
      (Systems.attempt (migrateListing dpapi urlParse decoders attempt sharingBase))
      (fun _ v => Migrates dpapi urlParse decoders base v.files) (fun _ _ => False) := by
    refine (migrateListing_ends hw.distinct attempt sharingBase).attempt (fun _ _ h => hw.trans h)
      fun _ v hv => ?_
    rw [hv]
    exact hw
  refine hrun.bind (fun result => ?_) w rfl
  cases result <;> exact .pure fun _ h => h

theorem migrateWithRetries_ends (base : Files) (attempts : Nat → Attempt) (sharingBase : Nat) :
    Ends (fun w => Migrates dpapi urlParse decoders base w.files)
      (migrateWithRetries dpapi urlParse decoders attempts sharingBase)
      (fun _ w => Migrates dpapi urlParse decoders base w.files) (fun _ _ => False) := by
  induction sharingBase with
  | zero => exact (migrateUnencryptedConfigs_ends base _ 0).bind fun _ => .pure fun _ h => h
  | succ sharingBase ih =>
    exact (migrateUnencryptedConfigs_ends base _ _).bind fun st => .ite (fun _ => ih) fun _ =>
      .pure fun _ h => h

theorem fromWgQuickWithUnknownEncoding_toWgQuick {c : Config} (h : c.Canonical urlParse) :
    fromWgQuickWithUnknownEncoding urlParse decoders c.toWgQuick c.name = .ok c := by
  rw [fromWgQuickWithUnknownEncoding, h.fromWgQuick_toWgQuick]

/-- The encrypted files are as they were, and a `.conf` file that is not gives its tunnel. -/
structure LosesNothing (dpapi : Dpapi) (urlParse : Str → Option URL)
    (decoders : List (Str → Option Str)) (before after : Files) : Prop where
  encrypted : ∀ e ∈ before.entries toLower configurationsDirectory,
    configFileSuffix <:+ toLower e.name →
    e ∈ after.entries toLower configurationsDirectory
  plain : ∀ e ∈ before.entries toLower configurationsDirectory,
    configFileUnencryptedSuffix <:+ toLower e.name →
    e ∉ after.entries toLower configurationsDirectory →
    let name := trimSuffix e.name configFileUnencryptedSuffix
    (∃ f ∈ after.entries toLower configurationsDirectory, f.name = name ++ configFileSuffix) ∧
      ∃ config, fromWgQuickWithUnknownEncoding urlParse decoders e.contents name = .ok config ∧
        answer (loadFromName dpapi urlParse decoders name) after = .ok config

theorem Moved.loads (hfiles : files.Distinct toLower) {e : File Str Bytes}
    (h : Moved dpapi urlParse decoders files e) :
    (∃ f ∈ files.entries toLower configurationsDirectory,
        f.name = trimSuffix e.name configFileUnencryptedSuffix ++ configFileSuffix) ∧
      ∃ config, fromWgQuickWithUnknownEncoding urlParse decoders e.contents
        (trimSuffix e.name configFileUnencryptedSuffix) =
          .ok config ∧
        answer (loadFromName dpapi urlParse decoders
          (trimSuffix e.name configFileUnencryptedSuffix)) files = .ok config := by
  obtain ⟨config, hparsed, hvalid, hmem⟩ := h
  obtain ⟨hcanonical, hname⟩ := fromWgQuickWithUnknownEncoding_canonical hparsed
  rw [← hname]
  refine ⟨⟨_, hmem, rfl⟩, config, hname ▸ hparsed, ?_⟩
  rw [(loadFromName_answers config.name).answer_eq, storedConfig_eq_ok]
  exact ⟨hvalid, _, config.toWgQuick, hfiles.read_eq hmem, dpapi.unprotect_protect _ _,
    fromWgQuickWithUnknownEncoding_toWgQuick hcanonical⟩

theorem Migrates.losesNothing (h : Migrates dpapi urlParse decoders base files) :
    LosesNothing dpapi urlParse decoders base files :=
  ⟨h.encrypted, fun e he hs hgone => ((h.plain e he hs).resolve_left hgone).loads h.distinct⟩

theorem Ends.losesNothing {α : Type} {x : Store α} {w : World} (hw : w.files.Distinct toLower)
    (h : Ends (fun v => Migrates dpapi urlParse decoders w.files v.files) x
      (fun _ v => Migrates dpapi urlParse decoders w.files v.files) (fun _ _ => False)) :
    ∃ a w', x w = .ok a w' ∧ LosesNothing dpapi urlParse decoders w.files w'.files := by
  cases hx : x w with
  | ok a w' => exact ⟨a, w', rfl, (h.ok (.refl hw) hx).losesNothing⟩
  | error e w' => exact False.elim (h.error (.refl hw) hx)

/-- One run, and a run with those of its timers, at every pattern of failing calls. -/
theorem migrateUnencryptedConfigs_losesNothing {w : World} (hw : w.files.Distinct toLower) :
    (∀ attempt sharingBase, ∃ st w',
      migrateUnencryptedConfigs dpapi urlParse decoders attempt sharingBase w = .ok st w' ∧
      LosesNothing dpapi urlParse decoders w.files w'.files) ∧
    ∀ attempts sharingBase, ∃ w', migrateWithRetries dpapi urlParse decoders attempts sharingBase
      w = .ok () w' ∧
      LosesNothing dpapi urlParse decoders w.files w'.files := by
  refine ⟨fun attempt sharingBase =>
    Ends.losesNothing hw (migrateUnencryptedConfigs_ends w.files attempt sharingBase),
    fun attempts sharingBase => ?_⟩
  obtain ⟨_, w', hrun, hlost⟩ :=
    Ends.losesNothing hw (migrateWithRetries_ends w.files attempts sharingBase)
  exact ⟨w', hrun, hlost⟩

end

def plainFile : File Str Bytes := ⟨str "wg0.conf", sampleText⟩

def plainDirectory : World where
  files dir := if dir = configurationsDirectory.map toLower then [plainFile] else []

theorem plainDirectory_distinct : plainDirectory.files.Distinct toLower := by
  intro dir
  by_cases hdir : dir = configurationsDirectory.map toLower
  · simp [plainDirectory, hdir]
  · simp [plainDirectory, hdir]

def namesAfter {α : Type} : EStateM.Result StoreError World α → List Str
  | .ok _ w => (w.files.entries toLower configurationsDirectory).map File.name
  | .error _ _ => []

theorem migrateUnencryptedConfigs_losesNothing_plainDirectory :
    plainDirectory.files.Distinct toLower ∧ ∃ st w',
      migrateUnencryptedConfigs labelled (fun _ => none) [] ⟨fun _ => false, fun _ =>
        false⟩ 3 plainDirectory = .ok st w' ∧
      (w'.files.entries toLower configurationsDirectory).map File.name = [str "wg0.conf.dpapi"] ∧
      LosesNothing labelled (fun _ => none) [] plainDirectory.files w'.files := by
  obtain ⟨st, w', hrun, hlost⟩ :=
    (@migrateUnencryptedConfigs_losesNothing labelled (fun _ => none) [] plainDirectory
    plainDirectory_distinct).1 ⟨fun _ => false, fun _ => false⟩ 3
  refine ⟨plainDirectory_distinct, st, w', hrun, ?_, hlost⟩
  have hnames : namesAfter (migrateUnencryptedConfigs labelled (fun _ => none) [] ⟨fun _ =>
    false, fun _ => false⟩ 3
      plainDirectory) = [str "wg0.conf.dpapi"] := by
    decide +kernel
  rwa [hrun] at hnames

end WireGuardWindows.Conf
