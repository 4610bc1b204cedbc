import WireGuardWindows.Conf.WSTLS
import WireGuardWindows.GoStd.Sort

/-!
# Stored TLS files

A configuration whose references are all stored names is collected as it stands: no name is
changed, and the files are those its references name.
-/

namespace WireGuardWindows.Conf
open GoStd Strings Unicode Loops

/-- `seen` and `names` have the same elements, so that the loop needs only one of them. -/
def addStoredName (names : List Str) (ref : Str) : List Str :=
  if wsTLSFileNameIsValid ref ∧ ref ∉ names then names ++ [ref] else names

def Config.wsTLSStoredFileNames (config : Config) : List Str :=
  Sort.slice bytesLess (config.wsTLSReferences.foldl addStoredName [])

structure Disk (ε : Type) where
  stat : Str → Except ε Nat
  readFile : Str → Except ε (List UInt8)

inductive ReadError (ε : Type)
  | notLocal
  | notAbsolute
  | tooLarge
  | notInArchive
  | os (err : ε)

/-- `WSTLSFileReader(known, "")`: there is no directory for relative paths. -/
def wsTLSFileReader {ε : Type} (known : List (Str × List UInt8)) (disk : Disk ε) (ref : Str) :
    Except (ReadError ε) (List UInt8) :=
  match known.lookup (Filepath.toSlash ref) with
  | some data => .ok data
  | none =>
    if Filepath.isAbs ref ∧ ¬ isWSTLSLocalPath ref then .error .notLocal
    else if ¬ Filepath.isAbs ref then .error .notAbsolute
    else match disk.stat ref with
      | .error err => .error (.os err)
      | .ok size =>
        if maxWSTLSFileSize < size then .error .tooLarge else (disk.readFile ref).mapError .os

theorem foldl_addStoredName (refs : List Str) :
    (refs.foldl addStoredName []).Nodup ∧
      ∀ name, name ∈ refs.foldl addStoredName [] ↔ name ∈ refs ∧
      wsTLSFileNameIsValid name = true := by
  induction refs using List.reverseRecOn with
  | nil => exact ⟨List.nodup_nil, fun name => by simp⟩
  | append_singleton refs ref ih =>
    obtain ⟨hnodup, hmem⟩ := ih
    rw [List.foldl_append, List.foldl_cons, List.foldl_nil, addStoredName]
    by_cases hnew : wsTLSFileNameIsValid ref = true ∧ ref ∉ refs.foldl addStoredName []
    · rw [if_pos hnew]
      refine ⟨List.concat_eq_append ▸ hnodup.concat hnew.2, fun name => ?_⟩
      rw [List.mem_append, List.mem_append, hmem, List.mem_singleton, or_and_right]
      refine or_congr_right ⟨fun heq => ⟨heq, heq ▸ hnew.1⟩, And.left⟩
    · rw [if_neg hnew]
      refine ⟨hnodup, fun name => ?_⟩
      rw [hmem, List.mem_append, List.mem_singleton]
      refine ⟨fun h => ⟨Or.inl h.1, h.2⟩, ?_⟩
      rintro ⟨h | rfl, hvalid⟩
      · exact ⟨h, hvalid⟩
      · by_contra hno
        exact hnew ⟨hvalid, fun h => hno ((hmem name).mp h)⟩

theorem mem_wsTLSStoredFileNames {config : Config} {name : Str} :
    name ∈ config.wsTLSStoredFileNames ↔ name ∈ config.wsTLSReferences ∧
    wsTLSFileNameIsValid name = true :=
  Sort.mem_slice.trans ((foldl_addStoredName _).2 name)

theorem wsTLSStoredFileNames_nodup (config : Config) : config.wsTLSStoredFileNames.Nodup :=
  (Sort.slice_perm _ _).nodup_iff.mpr (foldl_addStoredName _).1

theorem ValidWSTLSFiles.nodup {config : Config} (h : ValidWSTLSFiles config) :
    (config.wsTLSFiles.map Prod.fst).Nodup := by
  apply List.Nodup.of_map toLower
  rw [List.map_map]
  exact h.distinct

theorem ValidWSTLSFiles.stored {config : Config} (h : ValidWSTLSFiles config) {name : Str}
    (hname : name ∈ config.wsTLSStoredFileNames) :
    ∃ data, config.wsTLSFiles.lookup name = some data := by
  obtain ⟨href, hok⟩ := mem_wsTLSStoredFileNames.mp hname
  have hknown := h.references name href
  rw [if_pos hok] at hknown
  exact Option.isSome_iff_exists.mp hknown

theorem ValidWSTLSFiles.perm {config : Config} (h : ValidWSTLSFiles config)
    {files : List (Str × List UInt8)} (hnodup : (files.map Prod.fst).Nodup)
    (hmem : ∀ name data, (name, data) ∈ files ↔
      name ∈ config.wsTLSStoredFileNames ∧ config.wsTLSFiles.lookup name = some data) :
    files.Perm config.wsTLSFiles := by
  refine (List.perm_ext_iff_of_nodup hnodup.of_map h.nodup.of_map).mpr ?_
  rintro ⟨name, data⟩
  rw [hmem]
  constructor
  · rintro ⟨-, hlookup⟩
    exact Map.mem_of_lookup hlookup
  · intro hfile
    obtain ⟨hok, href, -⟩ := h.files _ hfile
    exact ⟨mem_wsTLSStoredFileNames.mpr ⟨href, hok⟩, Map.lookup_of_mem h.nodup hfile⟩

theorem spelling_mem {refs : List Str} {lower s : Str}
    (h : (refs.foldl Claimed.claim {}).spellings.lookup lower = some s) : s ∈ refs := by
  induction refs using List.reverseRecOn with
  | nil => cases h
  | append_singleton refs ref ih =>
    rw [List.foldl_append, List.foldl_cons, List.foldl_nil, Claimed.claim] at h
    by_cases hvalid : wsTLSFileNameIsValid ref = true
    · rw [if_pos hvalid] at h
      dsimp only at h
      split_ifs at h with hmem
      · exact List.mem_append_left _ (ih h)
      · rcases Map.lookup_insert_eq_some h with ⟨-, rfl⟩ | h
        · exact List.mem_append_right _ List.mem_cons_self
        · exact List.mem_append_left _ (ih h)
    · rw [if_neg hvalid] at h
      exact List.mem_append_left _ (ih h)

section
variable {ε : Type} {read : Str → Except ε (List UInt8)} {refs : List Str}

structure StoredReferences (read : Str → Except ε (List UInt8)) (refs : List Str) : Prop where
  valid : ∀ ref ∈ refs, wsTLSFileNameIsValid ref = true
  apart : ∀ r₁ ∈ refs, ∀ r₂ ∈ refs, toLower r₁ = toLower r₂ → r₁ = r₂
  readable : ∀ ref ∈ refs, ∃ data, read ref = .ok data ∧ data.length ≤ maxWSTLSFileSize

theorem StoredReferences.claimed (h : StoredReferences read refs) {ref : Str} (href : ref ∈ refs) :
    (refs.foldl Claimed.claim {}).names.lookup ref = some ref := by
  have hof := claimed_of refs
  obtain ⟨name, hname⟩ :=
    Option.isSome_iff_exists.mp (AList.lookup_isSome.mpr (hof.claimed href (h.valid ref href)))
  have hspelled := (hof.names hname).2
  have heq := h.apart name (spelling_mem hspelled) ref href (hof.spelled hspelled).2.1
  rw [hname, heq]

structure Collecting.Kept (read : Str → Except ε (List UInt8)) (refs : List Str) (st : Collecting) :
    Prop where
  names : ∀ ref ∈ refs, st.names.lookup ref = some ref
  files : ∀ {name data}, st.files.lookup name = some data → name ∈ refs ∧ read name = .ok data
  stored : ∀ {ref name}, st.stored.lookup ref = some name → ref ∈ refs ∧ name = ref

theorem Collecting.Kept.store {st : Collecting} (h : st.Kept read refs) {ref : Str}
    (href : ref ∈ refs) :
    Collecting.Kept read refs { st with stored := st.stored.insert ref ref } := by
  refine ⟨h.names, h.files, ?_⟩
  intro r name hr
  rcases Map.lookup_insert_eq_some hr with ⟨rfl, rfl⟩ | hr
  · exact ⟨href, rfl⟩
  · exact h.stored hr

theorem Collecting.Kept.collect {st : Collecting} (h : st.Kept read refs)
    (hrefs : StoredReferences read refs) {ref : Str} (href : ref ≠ [] → ref ∈ refs) :
    ∃ st', st.collect read ref = .ok (ref, st') ∧ st'.Kept read refs ∧
    Map.Extends st.files st'.files ∧
      (ref ≠ [] → ref ∈ st'.files) := by
  by_cases hnil : ref = []
  · refine ⟨st, ?_, h, Map.Extends.refl _, fun hne => absurd hnil hne⟩
    rw [Collecting.collect, if_pos hnil]
  · have hname : st.nameReference ref = some (ref, st) := by
      rw [Collecting.nameReference, h.names ref (href hnil)]
    obtain ⟨data, hdata, hsize⟩ := hrefs.readable ref (href hnil)
    rw [Collecting.collect, if_neg hnil, hname]
    by_cases hmem : ref ∈ st.files
    · refine ⟨{ st with stored := st.stored.insert ref ref }, ?_, h.store (href hnil),
        Map.Extends.refl _, fun _ => hmem⟩
      dsimp only
      rw [Collecting.readReference, if_pos hmem]
      rfl
    · refine ⟨{ st with stored := st.stored.insert ref ref, files := st.files.insert ref data }, ?_,
        ⟨h.names, ?_, (h.store (href hnil)).stored⟩,
        Map.extends_insert (Or.inl (AList.lookup_eq_none.mpr hmem)), fun _ =>
          (AList.mem_insert _).mpr (Or.inl rfl)⟩
      · dsimp only
        rw [Collecting.readReference, if_neg hmem, hdata]
        dsimp only
        rw [if_neg (Nat.not_lt.mpr hsize)]
        rfl
      · intro name d hd
        rcases Map.lookup_insert_eq_some hd with ⟨rfl, rfl⟩ | hd
        · exact ⟨href hnil, hdata⟩
        · exact h.files hd

theorem Collecting.Kept.collectPeer {st : Collecting} (h : st.Kept read refs)
    (hrefs : StoredReferences read refs) {p : Peer} (hp : ∀ ref ∈ p.wsTLSReferences, ref ∈ refs) :
    ∃ st', st.collectPeer read p = .ok (p, st') ∧ st'.Kept read refs ∧
    Map.Extends st.files st'.files ∧
      ∀ ref ∈ p.wsTLSReferences, ref ∈ st'.files := by
  have hmem : ∀ ref ∈ [p.wsTLSCA, p.wsTLSCert, p.wsTLSKey], ref ≠ [] → ref ∈ refs :=
    fun ref href hne => hp ref (List.mem_filter.mpr ⟨href, by simpa using hne⟩)
  simp only [List.forall_mem_cons] at hmem
  obtain ⟨hca, hcert, hkey, -⟩ := hmem
  obtain ⟨st₁, hst₁, h₁, hext₁, hin₁⟩ := h.collect hrefs hca
  obtain ⟨st₂, hst₂, h₂, hext₂, hin₂⟩ := h₁.collect hrefs hcert
  obtain ⟨st₃, hst₃, h₃, hext₃, hin₃⟩ := h₂.collect hrefs hkey
  refine ⟨st₃, ?_, h₃, (hext₁.trans hext₂).trans hext₃, ?_⟩
  · simp only [Collecting.collectPeer, hst₁, hst₂, hst₃, bind, Except.bind, pure, Except.pure]
  · intro ref href
    simp only [Peer.wsTLSReferences, List.mem_filter, List.mem_cons, List.not_mem_nil, or_false,
      decide_eq_true_eq] at href
    obtain ⟨rfl | rfl | rfl, hne⟩ := href
    · exact Map.Extends.mem (hext₂.trans hext₃) (hin₁ hne)
    · exact Map.Extends.mem hext₃ (hin₂ hne)
    · exact hin₃ hne

theorem Collecting.Kept.collectPeers {st : Collecting} (h : st.Kept read refs)
    (hrefs : StoredReferences read refs) {peers : List Peer}
    (hpeers : ∀ ref ∈ peers.flatMap Peer.wsTLSReferences, ref ∈ refs) :
    ∃ st', st.collectPeers read peers = .ok (peers, st') ∧ st'.Kept read refs ∧
    Map.Extends st.files st'.files ∧
      ∀ ref ∈ peers.flatMap Peer.wsTLSReferences, ref ∈ st'.files := by
  induction peers generalizing st with
  | nil => exact ⟨st, rfl, h, Map.Extends.refl _, nofun⟩
  | cons p peers ih =>
    simp only [List.flatMap_cons, List.mem_append] at hpeers ⊢
    obtain ⟨st₁, hst₁, h₁, hext₁, hin₁⟩ :=
      h.collectPeer hrefs fun ref href => hpeers ref (Or.inl href)
    obtain ⟨st₂, hst₂, h₂, hext₂, hin₂⟩ := ih h₁ fun ref href => hpeers ref (Or.inr href)
    refine ⟨st₂, ?_, h₂, hext₁.trans hext₂, ?_⟩
    · simp only [Collecting.collectPeers, hst₁, hst₂, bind, Except.bind, pure, Except.pure]
    · rintro ref (href | href)
      · exact Map.Extends.mem hext₂ (hin₁ ref href)
      · exact hin₂ ref href

end

theorem collectWSTLSFiles_stored {ε : Type} {read : Str → Except ε (List UInt8)} {config : Config}
    (h : StoredReferences read config.wsTLSReferences)
    (hcount : config.wsTLSStoredFileNames.length ≤ maxWSTLSFiles) :
    ∃ stored files, config.collectWSTLSFiles read = .ok
    (stored, { config with wsTLSFiles := files }) ∧
      (files.map Prod.fst).Nodup ∧
      (∀ name data, (name, data) ∈ files ↔ name ∈ config.wsTLSStoredFileNames ∧
        read name = .ok data) ∧
      ∀ ref name, stored.lookup ref = some name → ref ∈ config.wsTLSReferences ∧ name = ref := by
  have hinit : Collecting.Kept read config.wsTLSReferences
      { names := (config.wsTLSReferences.foldl Claimed.claim {}).names
        taken := (config.wsTLSReferences.foldl Claimed.claim {}).taken } :=
          ⟨fun ref href => h.claimed href, nofun, nofun⟩
  have hrefs : ∀ ref ∈ config.peers.flatMap Peer.wsTLSReferences, ref ∈ config.wsTLSReferences :=
    fun _ href => href
  obtain ⟨st, hst, hkept, -, hin⟩ := hinit.collectPeers h hrefs
  have hmem : ∀ name data, (name, data) ∈ st.files.pairs ↔
      name ∈ config.wsTLSStoredFileNames ∧ read name = .ok data := by
    intro name data
    rw [Map.mem_pairs]
    constructor
    · intro hlookup
      obtain ⟨href, hdata⟩ := hkept.files hlookup
      exact ⟨mem_wsTLSStoredFileNames.mpr ⟨href, h.valid name href⟩, hdata⟩
    · rintro ⟨hname, hdata⟩
      obtain ⟨d, hd⟩ := Option.isSome_iff_exists.mp
        (AList.lookup_isSome.mpr (hin name (mem_wsTLSStoredFileNames.mp hname).1))
      have hsame := (hkept.files hd).2.symm.trans hdata
      rw [hd, Except.ok.inj hsame]
  have hlength : st.files.pairs.length ≤ config.wsTLSStoredFileNames.length := by
    have hsub : st.files.pairs.map Prod.fst ⊆ config.wsTLSStoredFileNames := by
      intro name hname
      obtain ⟨⟨_, data⟩, hpair, rfl⟩ := List.mem_map.mp hname
      exact ((hmem _ data).mp hpair).1
    have hle := (st.files.pairs_nodup.subperm hsub).length_le
    rwa [List.length_map] at hle
  refine ⟨st.stored, st.files.pairs, ?_, st.files.pairs_nodup, hmem, fun ref name href =>
    hkept.stored href⟩
  rw [Config.collectWSTLSFiles]
  simp only [hst, bind, Except.bind]
  rw [if_neg (Nat.not_lt.mpr (hlength.trans hcount))]
  rfl

end WireGuardWindows.Conf
