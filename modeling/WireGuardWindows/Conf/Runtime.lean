import WireGuardWindows.Conf.Store

/-!
# Decrypted TLS files

`PrepareWSTLSFiles` decrypts the stored TLS files of a tunnel into a directory of its own and
rewrites the references to them. The loop keeps `Prepared`; an error leaves `Emptied`.
-/

namespace WireGuardWindows.Conf
open GoStd Strings Unicode Systems

/-- A file below the data directory `root`; the elements are plain names. -/
def pathOf (root : Str) (dir : List Str) (name : Str) : Str :=
  (dir ++ [name]).foldl (fun path elem => path ++ Filepath.backslash :: elem) root

/-- `runtimeDir` and `paths`; the directory is made for the first stored name. -/
structure Preparing where
  runtimeDir : Option (List Str) := none
  paths : Map Str Str := ∅

def Preparing.cleanup (st : Preparing) : Store Unit :=
  match st.runtimeDir with
  | none => return ()
  | some dir => Store.removeAll dir

section
variable (root : Str) (dpapi : Dpapi) (tunnelName : Str)

def Preparing.withDirectory (st : Preparing) : Store (List Str × Preparing) :=
  match st.runtimeDir with
  | some dir => return (dir, st)
  | none => do
    let dir ← wsTLSDirectory true [wsTLSRuntimeDirectoryName, tunnelName]
    return (dir, { st with runtimeDir := some dir })

def decryptInto (dir : List Str) (ref : Str) : Store Str := do
  let data ← loadWSTLSFile dpapi tunnelName ref
  Store.writeLockedDownFile dir ref true data
  return pathOf root dir ref

def Preparing.prepare (st : Preparing) (ref : Str) : Store (Str × Preparing) :=
  if ref = [] ∨ isWSTLSLocalPath ref then return (ref, st)
  else match st.paths.lookup ref with
    | some path => return (path, st)
    | none => do
      let (dir, st) ← st.withDirectory tunnelName
      let path ← onError (decryptInto root dpapi tunnelName dir ref) st.cleanup
      return (path, { st with paths := st.paths.insert ref path })

def Preparing.preparePeer (st : Preparing) (p : Peer) : Store (Peer × Preparing) := do
  let (ca, st) ← st.prepare root dpapi tunnelName p.wsTLSCA
  let (cert, st) ← st.prepare root dpapi tunnelName p.wsTLSCert
  let (key, st) ← st.prepare root dpapi tunnelName p.wsTLSKey
  return ({ p with wsTLSCA := ca, wsTLSCert := cert, wsTLSKey := key }, st)

def Preparing.preparePeers (st : Preparing) : List Peer → Store (List Peer × Preparing)
  | [] => return ([], st)
  | p :: peers => do
    let (p, st) ← st.preparePeer root dpapi tunnelName p
    let (peers, st) ← st.preparePeers peers
    return (p :: peers, st)

end

def Config.checkReferences (fromStore : Bool) (config : Config) : Store Unit :=
  config.wsTLSReferences.forM fun ref =>
    if ¬ isWSTLSLocalPath ref ∧ (¬ fromStore ∨ ¬ wsTLSFileNameIsValid ref) then
      throw (.invalid (.parseError "TLS file must be an absolute local path" ref))
    else return ()

def Config.prepareWSTLSFiles (root : Str) (dpapi : Dpapi) (fromStore : Bool) (config : Config) :
    Store (Config × Store Unit) := do
  config.checkReferences fromStore
  if ¬ fromStore then return (config, return ())
  else
    removeWSTLSRuntimeFiles config.name
    let (peers, st) ← Preparing.preparePeers root dpapi config.name {} config.peers
    return ({ config with peers := peers }, st.cleanup)

def runtimeDirectory (tunnelName : Str) : List Str :=
  [wsTLSDirectoryName, wsTLSRuntimeDirectoryName, tunnelName]

def InRuntime (tunnelName : Str) (dir : List Str) : Prop :=
  (runtimeDirectory tunnelName).map toLower <+: dir

def Emptied (tunnelName : Str) (files : Files) : Prop :=
  ∀ dir, InRuntime tunnelName dir → files dir = []

structure Confined (base : Files) (tunnelName : Str) (w : World) : Prop where
  removals : ∀ r ∈ w.removals, r = .succeeds
  outside : ∀ dir, ¬ InRuntime tunnelName dir → w.files dir = base dir

structure Prepared (root : Str) (dpapi : Dpapi) (base : Files) (tunnelName : Str) (st : Preparing)
    (w : World) : Prop
    extends Confined base tunnelName w where
  fresh : st.runtimeDir = none → st.paths = ∅ ∧ Emptied tunnelName w.files
  directory : ∀ dir, st.runtimeDir = some dir → dir = runtimeDirectory tunnelName
  paths : ∀ {n path}, st.paths.lookup n = some path →
    path = pathOf root (runtimeDirectory tunnelName) n ∧
    ∃ data, storedContent dpapi base tunnelName n data ∧
      w.files.read toLower (runtimeDirectory tunnelName) n = some data

theorem prepared_steady {root : Str} {dpapi : Dpapi} {base : Files} {tunnelName : Str}
    {st : Preparing} :
    Steady (Prepared root dpapi base tunnelName st) :=
  fun _ _ h => ⟨⟨h.removals, h.outside⟩, h.fresh, h.directory, h.paths⟩

/-- A stored file has one description, so two spellings of its name are not both decrypted. -/
theorem storedContent_inj {dpapi : Dpapi} {files : Files} {tunnelName n₁ n₂ : Str} {d₁ d₂ : Bytes}
    (h₁ : storedContent dpapi files tunnelName n₁ d₁)
    (h₂ : storedContent dpapi files tunnelName n₂ d₂) (heq : toLower n₁ = toLower n₂) :
    n₁ = n₂ := by
  obtain ⟨hv₁, e₁, hr₁, hu₁⟩ := h₁
  obtain ⟨hv₂, e₂, hr₂, hu₂⟩ := h₂
  have hascii (n : Str) (hv : wsTLSFileNameIsValid n = true) :
      toLower (n ++ wsTLSEncryptedSuffix) = toLower n ++ toLower wsTLSEncryptedSuffix :=
    toLower_append (wsTLSFileNameIsValid_iff.mp hv).1.isASCII (by decide)
  have hkey : toLower (n₁ ++ wsTLSEncryptedSuffix) = toLower (n₂ ++ wsTLSEncryptedSuffix) := by
    rw [hascii n₁ hv₁, hascii n₂ hv₂, heq]
  rw [Tree.read_of_key hkey, hr₂, Option.some.injEq] at hr₁
  rw [← hr₁, hu₂, Option.some.injEq, Prod.mk.injEq] at hu₁
  simpa [wsTLSDescription] using hu₁.2.symm

theorem not_inRuntime (tunnelName other : Str) :
    ¬ InRuntime tunnelName ([wsTLSDirectoryName, other].map toLower) := by
  intro h
  have hlength := h.length_le
  simp [runtimeDirectory] at hlength

section
variable {root : Str} {dpapi : Dpapi} {base : Files} {tunnelName : Str} {st : Preparing} {w : World}

theorem Confined.stored (h : Confined base tunnelName w) {n : Str} {data : Bytes}
    (hstored : storedContent dpapi w.files tunnelName n data) :
    storedContent dpapi base tunnelName n data := by
  obtain ⟨hvalid, encrypted, hread, hplain⟩ := hstored
  have hsame :=
    Tree.read_congr (h.outside _ (not_inRuntime tunnelName tunnelName)) (n ++ wsTLSEncryptedSuffix)
  exact ⟨hvalid, encrypted, hsame ▸ hread, hplain⟩

theorem Confined.put {files : Files} (h : Confined base tunnelName { w with files := files })
    {file : File Str Bytes}
    (hput : w.files = files.put toLower (runtimeDirectory tunnelName) file) :
    Confined base tunnelName w := by
  refine ⟨h.removals, fun dir hdir => ?_⟩
  rw [hput, Tree.put_of_ne]
  · exact h.outside dir hdir
  · rintro rfl
    exact hdir (List.prefix_refl _)

theorem withDirectory_ends (st : Preparing) :
    Ends (Prepared root dpapi base tunnelName st) (st.withDirectory tunnelName)
      (fun r w => r.1 = runtimeDirectory tunnelName ∧ r.2.runtimeDir =
        some (runtimeDirectory tunnelName) ∧
        r.2.paths = st.paths ∧ Prepared root dpapi base tunnelName r.2 w)
      (fun _ w => Confined base tunnelName w ∧ Emptied tunnelName w.files) := by
  rw [Preparing.withDirectory]
  cases hdir : st.runtimeDir with
  | some dir => exact .pure fun w hw =>
    ⟨hw.directory dir hdir, hw.directory dir hdir ▸ hdir, rfl, hw⟩
  | none =>
    have hmake : Ends (Prepared root dpapi base tunnelName st)
        (wsTLSDirectory true [wsTLSRuntimeDirectoryName, tunnelName])
        (fun dir w => dir = runtimeDirectory tunnelName ∧ Prepared root dpapi base tunnelName st w)
        (fun _ w => Confined base tunnelName w ∧ Emptied tunnelName w.files) :=
      (wsTLSDirectory_ends prepared_steady true _).mono (fun _ h => h) (fun _ _ h => h)
        fun _ w hw => ⟨hw.toConfined, (hw.fresh hdir).2⟩
    refine hmake.bind fun dir => .pure ?_
    rintro w ⟨rfl, hw⟩
    exact ⟨rfl, rfl, rfl, hw.toConfined, nofun, fun d hd => (Option.some.inj hd).symm, hw.paths⟩

theorem decryptInto_ends (hdir : st.runtimeDir = some (runtimeDirectory tunnelName)) {ref : Str}
    (hnew : st.paths.lookup ref = none) :
    Ends (Prepared root dpapi base tunnelName st)
      (decryptInto root dpapi tunnelName (runtimeDirectory tunnelName) ref)
      (fun path w =>
        Prepared root dpapi base tunnelName { st with paths := st.paths.insert ref path } w)
      (fun _ w => Confined base tunnelName w) := by
  have hload := (loadWSTLSFile_ends prepared_steady dpapi tunnelName ref).mono (fun _ h => h)
    (fun _ _ h => h)
    fun _ w (hw : Prepared root dpapi base tunnelName st w) => hw.toConfined
  refine hload.bind fun data => ?_
  have hsteady : Steady fun w => storedContent dpapi w.files tunnelName ref data ∧
      Prepared root dpapi base tunnelName st w :=
    fun w calls hw => ⟨hw.1, prepared_steady w calls hw.2⟩
  have hwrite : Ends
      (fun w => storedContent dpapi w.files tunnelName ref data ∧
        Prepared root dpapi base tunnelName st w)
      (Store.writeLockedDownFile (runtimeDirectory tunnelName) ref true data)
      (fun _ w => ∃ files, (storedContent dpapi files tunnelName ref data ∧
        Prepared root dpapi base tunnelName st { w with files := files }) ∧
          w.files = files.put toLower (runtimeDirectory tunnelName) ⟨ref, data⟩)
      (fun _ w => Confined base tunnelName w) := by
    refine (writeLockedDownFile_ends hsteady _ ref true data).mono (fun _ h => h) ?_ ?_
    · rintro _ w ⟨files, hw, -, hput⟩
      exact ⟨files, hw, hput⟩
    rintro e w (⟨-, hw⟩ | ⟨files, leftover, ⟨-, hw⟩, hput⟩)
    · exact hw.toConfined
    · exact hw.toConfined.put hput
  refine hwrite.bind fun _ => .pure ?_
  rintro w ⟨files, ⟨hstored, hw⟩, hput⟩
  have hcontent := hw.toConfined.stored hstored
  refine ⟨hw.toConfined.put hput, fun h => ?_, hw.directory, ?_⟩
  · rw [hdir] at h
    cases h
  · intro n path hn
    rcases Map.lookup_insert_eq_some hn with ⟨rfl, rfl⟩ | hn
    · exact ⟨rfl, data, hcontent, by rw [hput]; exact Tree.read_put_self _⟩
    · obtain ⟨hpath, d, hd, hread⟩ := hw.paths hn
      refine ⟨hpath, d, hd, ?_⟩
      rw [hput, Tree.read_put_other]
      · exact hread
      · intro heq
        have hsame := storedContent_inj hd hcontent heq
        rw [hsame, hnew] at hn
        cases hn

theorem Confined.removeAll (h : Confined base tunnelName w) :
    ∃ w', Store.removeAll (runtimeDirectory tunnelName) w = .ok () w' ∧
    Confined base tunnelName w' ∧
      Emptied tunnelName w'.files := by
  obtain ⟨w', hremove, hfiles, hremovals⟩ := removeAll_ok h.removals (runtimeDirectory tunnelName)
  refine ⟨w', hremove, ⟨hremovals, fun dir hout => ?_⟩, fun dir hin => ?_⟩
  · rw [hfiles, Tree.removeAll_of_not hout]
    exact h.outside dir hout
  · rw [hfiles, Tree.removeAll_inside hin]

theorem cleanup_ends (hdir : st.runtimeDir = some (runtimeDirectory tunnelName)) :
    Ends (Confined base tunnelName) st.cleanup
      (fun _ w => Confined base tunnelName w ∧ Emptied tunnelName w.files)
      (fun _ w => Confined base tunnelName w ∧ Emptied tunnelName w.files) := by
  intro w hw
  obtain ⟨w', hremove, hempty⟩ := hw.removeAll
  rw [Preparing.cleanup, hdir]
  dsimp only
  rw [hremove]
  exact hempty

def runtimeReference (root tunnelName ref : Str) : Str :=
  if ref = [] ∨ isWSTLSLocalPath ref then ref else pathOf root (runtimeDirectory tunnelName) ref

structure Advanced (root : Str) (dpapi : Dpapi) (base : Files) (tunnelName : Str) (st : Preparing)
    (refs : List Str) (st' : Preparing) (w : World) : Prop where
  prepared : Prepared root dpapi base tunnelName st' w
  kept : Map.Extends st.paths st'.paths
  named : ∀ ref ∈ refs, ref ≠ [] → isWSTLSLocalPath ref = false → ref ∈ st'.paths

theorem Advanced.trans {st₁ st₂ st₃ : Preparing} {refs₁ refs₂ : List Str} {w₁ : World}
    (h₁ : Advanced root dpapi base tunnelName st₁ refs₁ st₂ w₁)
    (h₂ : Advanced root dpapi base tunnelName st₂ refs₂ st₃ w) :
    Advanced root dpapi base tunnelName st₁ (refs₁ ++ refs₂) st₃ w := by
  refine ⟨h₂.prepared, h₁.kept.trans h₂.kept, fun ref href hne hlocal => ?_⟩
  rcases List.mem_append.mp href with href | href
  · exact Map.Extends.mem h₂.kept (h₁.named ref href hne hlocal)
  · exact h₂.named ref href hne hlocal

theorem prepare_ends (st : Preparing) (ref : Str) :
    Ends (Prepared root dpapi base tunnelName st) (st.prepare root dpapi tunnelName ref)
      (fun r w => r.1 = runtimeReference root tunnelName ref ∧
        Advanced root dpapi base tunnelName st [ref] r.2 w)
      (fun _ w => Confined base tunnelName w ∧ Emptied tunnelName w.files) := by
  refine .ite (fun hlocal => .pure fun w hw => ⟨(if_pos hlocal).symm, hw, Map.Extends.refl _, ?_⟩)
    fun hstored => ?_
  · intro r hr hne hno
    cases List.mem_singleton.mp hr
    exact absurd hlocal (by simp [hne, hno])
  have hpath : runtimeReference root tunnelName ref =
    pathOf root (runtimeDirectory tunnelName) ref := if_neg hstored
  cases hlookup : st.paths.lookup ref with
  | some path =>
    refine .pure fun w hw => ⟨?_, hw, Map.Extends.refl _, ?_⟩
    · rw [hpath, (hw.paths hlookup).1]
    · intro r hr _ _
      cases List.mem_singleton.mp hr
      exact AList.lookup_isSome.mp (by rw [hlookup]; rfl)
  | none =>
    refine (withDirectory_ends st).bind fun ⟨dir, st'⟩ => .and_left ?_
    rintro rfl
    refine .and_left fun hdir => .and_left fun hpaths => ?_
    dsimp only at hdir hpaths ⊢
    have hdecrypt : Ends (Prepared root dpapi base tunnelName st')
        (onError (decryptInto root dpapi tunnelName (runtimeDirectory tunnelName) ref) st'.cleanup)
        (fun path w =>
          Prepared root dpapi base tunnelName { st' with paths := st'.paths.insert ref path } w)
        (fun _ w => Confined base tunnelName w ∧ Emptied tunnelName w.files) :=
      (decryptInto_ends hdir (hpaths ▸ hlookup)).onError fun _ => cleanup_ends hdir
    refine hdecrypt.bind fun path => .pure fun w hw => ⟨?_, hw, ?_, ?_⟩
    · rw [hpath]
      exact (hw.paths (AList.lookup_insert _)).1
    · rw [← hpaths]
      exact Map.extends_insert (.inl (hpaths ▸ hlookup))
    · intro r hr _ _
      cases List.mem_singleton.mp hr
      exact (AList.mem_insert _).mpr (.inl rfl)

def Peer.fileReferences (p : Peer) : List Str := [p.wsTLSCA, p.wsTLSCert, p.wsTLSKey]

def Peer.mapReferences (f : Str → Str) (p : Peer) : Peer :=
  { p with wsTLSCA := f p.wsTLSCA, wsTLSCert := f p.wsTLSCert, wsTLSKey := f p.wsTLSKey }

theorem Advanced.after {α : Type} {x : Store (α × Preparing)} {st₀ : Preparing}
    {refs₁ refs₂ : List Str} {a : α} {E : StoreError → World → Prop}
    (h : Ends (Prepared root dpapi base tunnelName st) x
      (fun r w => r.1 = a ∧ Advanced root dpapi base tunnelName st refs₂ r.2 w) E) :
    Ends (Advanced root dpapi base tunnelName st₀ refs₁ st) x
      (fun r w => r.1 = a ∧ Advanced root dpapi base tunnelName st₀ (refs₁ ++ refs₂) r.2 w) E := by
  refine .intro (fun s r t hs hx => ?_) fun s e t hs hx => h.error hs.prepared hx
  obtain ⟨ha, hadvanced⟩ := h.ok hs.prepared hx
  exact ⟨ha, hs.trans hadvanced⟩

theorem preparePeer_ends (st : Preparing) (p : Peer) :
    Ends (Prepared root dpapi base tunnelName st) (st.preparePeer root dpapi tunnelName p)
      (fun r w => r.1 = p.mapReferences (runtimeReference root tunnelName) ∧
        Advanced root dpapi base tunnelName st p.fileReferences r.2 w)
      (fun _ w => Confined base tunnelName w ∧ Emptied tunnelName w.files) := by
  refine (prepare_ends st p.wsTLSCA).bind fun ⟨ca, st₁⟩ => .and_left ?_
  rintro rfl
  refine (Advanced.after (prepare_ends st₁ p.wsTLSCert)).bind fun ⟨cert, st₂⟩ => .and_left ?_
  rintro rfl
  refine (Advanced.after (prepare_ends st₂ p.wsTLSKey)).bind fun ⟨key, st₃⟩ => .and_left ?_
  rintro rfl
  exact .pure fun w hw => ⟨rfl, hw⟩

theorem preparePeers_ends (st : Preparing) (peers : List Peer) :
    Ends (Prepared root dpapi base tunnelName st) (st.preparePeers root dpapi tunnelName peers)
      (fun r w => r.1 = peers.map (Peer.mapReferences (runtimeReference root tunnelName)) ∧
        Advanced root dpapi base tunnelName st (peers.flatMap Peer.fileReferences) r.2 w)
      (fun _ w => Confined base tunnelName w ∧ Emptied tunnelName w.files) := by
  induction peers generalizing st with
  | nil => exact .pure fun w hw => ⟨rfl, hw, Map.Extends.refl _, nofun⟩
  | cons p peers ih =>
    refine (preparePeer_ends st p).bind fun ⟨p', st₁⟩ => .and_left ?_
    rintro rfl
    refine (Advanced.after (ih st₁)).bind fun ⟨rest, st₂⟩ => .and_left ?_
    rintro rfl
    exact .pure fun w hw => ⟨rfl, hw⟩

end

theorem isWSTLSLocalPath_append {path : Str} (h : isWSTLSLocalPath path = true) (rest : Str) :
    isWSTLSLocalPath (path ++ rest) = true := by
  match path, h with
  | drive :: c :: s :: t, h => exact h

theorem isWSTLSLocalPath_pathOf {root : Str} (h : isWSTLSLocalPath root = true) (dir : List Str)
    (name : Str) :
    isWSTLSLocalPath (pathOf root dir name) = true := by
  rw [pathOf]
  generalize dir ++ [name] = elems
  induction elems generalizing root with
  | nil => exact h
  | cons elem elems ih => exact ih (isWSTLSLocalPath_append h _)

def Config.discardRuntimeFiles (config : Config) : Store Unit := do
  config.checkReferences true
  removeWSTLSRuntimeFiles config.name

theorem discardRuntimeFiles_ends {base : Files} (config : Config) :
    Ends (fun w => (∀ r ∈ w.removals, r = .succeeds) ∧ w.files = base) config.discardRuntimeFiles
      (fun _ w => Confined base config.name w ∧ Emptied config.name w.files) (fun _ _ => True) := by
  have hsteady : Steady fun w => (∀ r ∈ w.removals, r = .succeeds) ∧ w.files = base :=
    fun _ _ hw => hw
  have hcheck : Ends (fun w => (∀ r ∈ w.removals, r = .succeeds) ∧ w.files = base)
    (config.checkReferences true)
      (fun _ w => (∀ r ∈ w.removals, r = .succeeds) ∧ w.files = base) (fun _ _ => True) :=
    .forM fun ref _ => .ite (fun _ => .throw fun _ _ => trivial) fun _ => .pure fun _ hw => hw
  refine hcheck.bind fun _ => ?_
  have hroot :=
    (wsTLSDirectory_ends hsteady false [wsTLSRuntimeDirectoryName, config.name]).mono (fun _ h => h)
    (fun _ _ h => h) fun _ _ _ => trivial
  refine hroot.bind fun dir => .and_left ?_
  rintro rfl w ⟨hremovals, rfl⟩
  have hstart : Confined w.files config.name w := ⟨hremovals, fun _ _ => rfl⟩
  obtain ⟨w', hremove, hempty⟩ := hstart.removeAll
  have hremove' : Store.removeAll [wsTLSDirectoryName, wsTLSRuntimeDirectoryName, config.name] w =
    .ok () w' := hremove
  rw [hremove']
  exact hempty

theorem prepareWSTLSFiles_eq (root : Str) (dpapi : Dpapi) (config : Config) (w : World) :
    config.prepareWSTLSFiles root dpapi true w = (do
      config.discardRuntimeFiles
      let r ← Preparing.preparePeers root dpapi config.name {} config.peers
      return ({ config with peers := r.1 }, r.2.cleanup) : Store (Config × Store Unit)) w := by
  simp only [Config.prepareWSTLSFiles, Config.discardRuntimeFiles, bind, EStateM.bind]
  cases config.checkReferences true w <;> rfl

theorem Preparing.cleanup_emptied {root : Str} {dpapi : Dpapi} {base : Files} {tunnelName : Str}
    {st : Preparing} {w : World} (h : Prepared root dpapi base tunnelName st w) :
    ∃ w', st.cleanup w = .ok () w' ∧ Emptied tunnelName w'.files := by
  rw [Preparing.cleanup]
  cases hdir : st.runtimeDir with
  | none => exact ⟨w, rfl, (h.fresh hdir).2⟩
  | some dir =>
    obtain rfl := h.directory dir hdir
    obtain ⟨w', hremove, -, hempty⟩ := h.toConfined.removeAll
    exact ⟨w', hremove, hempty⟩

theorem runtimeReference_isLocal {root : Str} (hroot : isWSTLSLocalPath root = true)
    (tunnelName : Str) {ref : Str} (h : runtimeReference root tunnelName ref ≠ []) :
    isWSTLSLocalPath (runtimeReference root tunnelName ref) = true := by
  rw [runtimeReference] at h ⊢
  split_ifs at h ⊢ with hlocal
  · exact hlocal.resolve_left h
  · exact isWSTLSLocalPath_pathOf hroot _ _

theorem mem_fileReferences {config : Config} {ref : Str} :
    ref ∈ config.wsTLSReferences ↔ ref ∈ config.peers.flatMap Peer.fileReferences ∧ ref ≠ [] := by
  simp only [Config.wsTLSReferences, List.mem_flatMap, Peer.wsTLSReferences, Peer.fileReferences,
    List.mem_filter, decide_eq_true_eq]
  constructor
  · rintro ⟨p, hp, href, hne⟩
    exact ⟨⟨p, hp, href⟩, hne⟩
  · rintro ⟨⟨p, hp, href⟩, hne⟩
    exact ⟨p, hp, href, hne⟩

theorem prepareWSTLSFiles_confined {root : Str} {dpapi : Dpapi} {config : Config} {w : World}
    (hroot : isWSTLSLocalPath root = true) (hremovals : ∀ r ∈ w.removals, r = .succeeds) :
    (∀ e w', config.prepareWSTLSFiles root dpapi true w = .error e w' →
      config.discardRuntimeFiles w = .error e w' ∨ Emptied config.name w'.files) ∧
    ∀ config' cleanup w', config.prepareWSTLSFiles root dpapi true w = .ok (config', cleanup) w' →
      config' = { config with
        peers := config.peers.map (Peer.mapReferences (runtimeReference root config.name)) } ∧
      (∀ ref ∈ config'.wsTLSReferences, isWSTLSLocalPath ref = true) ∧
      (∀ n ∈ config.wsTLSReferences, isWSTLSLocalPath n = false → ∃ data,
        storedContent dpapi w.files config.name n data ∧
          w'.files.read toLower (runtimeDirectory config.name) n = some data) ∧
      (∀ dir, ¬ InRuntime config.name dir → w'.files dir = w.files dir) ∧
      ∃ w'', cleanup w' = .ok () w'' ∧ Emptied config.name w''.files := by
  rw [prepareWSTLSFiles_eq]
  simp only [bind, EStateM.bind]
  cases hdiscard : config.discardRuntimeFiles w with
  | error e w₁ =>
    constructor
    · intro e' w' h
      cases h
      exact .inl rfl
    · intro config' cleanup w' h
      cases h
  | ok u w₁ =>
    obtain ⟨hconfined, hempty⟩ := (discardRuntimeFiles_ends config).ok ⟨hremovals, rfl⟩ hdiscard
    have hinit : Prepared root dpapi w.files config.name {} w₁ := by
      refine ⟨hconfined, fun _ => ⟨rfl, hempty⟩, ?_, ?_⟩
      · intro dir h
        cases h
      · intro n path h
        cases h
    dsimp only
    have hloop := @preparePeers_ends root dpapi w.files config.name {} config.peers
    cases hpeers : Preparing.preparePeers root dpapi config.name {} config.peers w₁ with
    | error e w₂ =>
      constructor
      · intro e' w' h
        cases h
        exact .inr (hloop.error hinit hpeers).2
      · intro config' cleanup w' h
        cases h
    | ok r w₂ =>
      obtain ⟨peers, st⟩ := r
      refine ⟨fun e' w' h => (by cases h), fun config' cleanup w' h => ?_⟩
      cases h
      obtain ⟨rfl, hdone⟩ := hloop.ok hinit hpeers
      refine ⟨rfl, ?_, ?_, hdone.prepared.outside, Preparing.cleanup_emptied hdone.prepared⟩
      · intro ref href
        obtain ⟨href, hne⟩ := mem_fileReferences.mp href
        obtain ⟨p', hp', href⟩ := List.mem_flatMap.mp href
        obtain ⟨p, hp, rfl⟩ := List.mem_map.mp hp'
        have hmapped : (p.mapReferences (runtimeReference root config.name)).fileReferences =
          p.fileReferences.map (runtimeReference root config.name) := rfl
        rw [hmapped] at href
        obtain ⟨r, -, rfl⟩ := List.mem_map.mp href
        exact runtimeReference_isLocal hroot _ hne
      · intro n hn hlocal
        obtain ⟨href, hne⟩ := mem_fileReferences.mp hn
        obtain ⟨path, hpath⟩ := Option.isSome_iff_exists.mp
          (AList.lookup_isSome.mpr (hdone.named n href hne hlocal))
        exact (hdone.prepared.paths hpath).2

def labelled : Dpapi where
  protect data name := List.replicate name.length 1 ++ 0 :: (name ++ data)
  unprotect blob :=
    let n := (blob.takeWhile (· == 1)).length
    some (blob.drop (n + 1 + n), (blob.drop (n + 1)).take n)
  unprotect_protect data name := by
    have hmarks : ((List.replicate name.length (1 : UInt8) ++ 0 :: (name ++ data)).takeWhile
      (· == 1)).length =
        name.length := by
      rw [List.takeWhile_append_of_pos fun b hb => by simp [List.eq_of_mem_replicate hb]]
      simp
    simp only [hmarks]
    congr
    · rw [List.drop_append]
      simp
    · rw [List.drop_append]
      simp

def oneStoredFile : World where
  files := fun dir =>
    if dir = [str "websockettls", str "wg0"]
      then [⟨str "ca.pem.dpapi", labelled.protect [7] (str "wg0/ca.pem")⟩]
    else if dir = [str "websockettls", str "$runtime", str "wg0"] then [⟨str "old.pem", [9]⟩]
    else []

def oneReference : Config := { name := str "wg0", peers := [{ wsTLSCA := str "ca.pem" }] }

theorem prepareWSTLSFiles_confined_oneFile :
    ∃ config' cleanup w', oneReference.prepareWSTLSFiles
    (str "C:\\Data") labelled true oneStoredFile =
        .ok (config', cleanup) w' ∧ (∀ ref ∈ config'.wsTLSReferences, isWSTLSLocalPath ref = true) ∧
      ∃ data, w'.files.read toLower (runtimeDirectory (str "wg0")) (str "ca.pem") = some data := by
  have hruns : (match oneReference.prepareWSTLSFiles (str "C:\\Data") labelled true
    oneStoredFile with
      | .ok _ _ => true
      | .error _ _ => false) = true := by
    decide +kernel
  cases hrun : oneReference.prepareWSTLSFiles (str "C:\\Data") labelled true oneStoredFile with
  | error e w' =>
    rw [hrun] at hruns
    cases hruns
  | ok r w' =>
    obtain ⟨config', cleanup⟩ := r
    have hspec :=
      (@prepareWSTLSFiles_confined (str "C:\\Data") labelled oneReference oneStoredFile
        (by decide) nofun).2
      config' cleanup w' hrun
    obtain ⟨-, hlocal, hfiles, -⟩ := hspec
    obtain ⟨data, -, hread⟩ := hfiles (str "ca.pem") (by decide) (by decide)
    exact ⟨config', cleanup, w', rfl, hlocal, data, hread⟩

end WireGuardWindows.Conf
