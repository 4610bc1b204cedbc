import WireGuardWindows.Conf.Values
import WireGuardWindows.Conf.WSTLSNames
import WireGuardWindows.GoStd.Loops
import WireGuardWindows.GoStd.Maps

/-!
# TLS files of a configuration

`CollectWSTLSFiles` names the copies in two passes. The first claims the names that are
stored names already, the second gives every other reference a name that is not taken
and rewrites the references in place. On an error its caller drops the configuration, so the
references rewritten until then are not part of the result here.
-/

namespace WireGuardWindows.Conf
open GoStd Strings Strconv Unicode Loops

def maxWSTLSFileSize : Nat := 2 ^ 20
def maxWSTLSFiles : Nat := 64

def isWSTLSLocalPath (path : Str) : Bool :=
  match path with
  | drive :: c :: s :: _ =>
    isAlphabetic drive && c == colon && (s == Filepath.backslash || s == slash)
  | _ => false

def Peer.wsTLSReferences (p : Peer) : List Str :=
  [p.wsTLSCA, p.wsTLSCert, p.wsTLSKey].filter (· ≠ [])

def Config.wsTLSReferences (config : Config) : List Str := config.peers.flatMap Peer.wsTLSReferences

def validateReference (files : List (Str × List UInt8)) (ref : Str) : Except Error Unit :=
  if wsTLSFileNameIsValid ref then
    if (files.lookup ref).isNone then .error (.parseError "Missing contents of stored TLS file" ref)
      else .ok ()
  else if ¬ isWSTLSLocalPath ref then
    .error (.parseError "TLS file must be a stored file name or an absolute local path" ref)
  else .ok ()

def validateFile (referenced : List Str) (lowerNames : List Str) (file : Str × List UInt8) :
    Except Error (List Str) :=
  if toLower file.1 ∈ lowerNames then
    .error (.parseError "Stored TLS file names must differ in more than letter case" file.1)
  else if ¬ wsTLSFileNameIsValid file.1 ∨ file.1 ∉ referenced then
    .error (.parseError "Unexpected stored TLS file" file.1)
  else if maxWSTLSFileSize < file.2.length then .error (.parseError "TLS file is too large" file.1)
  else .ok (toLower file.1 :: lowerNames)

def Config.validateWSTLSFiles (config : Config) : Except Error Unit := do
  config.wsTLSReferences.forM (validateReference config.wsTLSFiles)
  if maxWSTLSFiles < config.wsTLSFiles.length then
    .error (.parseError "Too many TLS files" (itoa config.wsTLSFiles.length))
  else
    let referenced := config.wsTLSReferences.filter wsTLSFileNameIsValid
    let _ ← config.wsTLSFiles.foldlM (validateFile referenced) []
    return ()

theorem validateReference_eq_ok {files : List (Str × List UInt8)} {ref : Str} :
    validateReference files ref = .ok () ↔
      (if wsTLSFileNameIsValid ref then (files.lookup ref).isSome else isWSTLSLocalPath ref) =
        true := by
  rw [validateReference]
  by_cases hvalid : wsTLSFileNameIsValid ref = true
  · rw [if_pos hvalid, if_pos hvalid]
    cases files.lookup ref <;> simp
  · rw [if_neg hvalid, if_neg hvalid]
    cases isWSTLSLocalPath ref <;> simp

theorem validateFile_eq_ok {referenced lowerNames r : List Str} {file : Str × List UInt8} :
    validateFile referenced lowerNames file = .ok r ↔
      (toLower file.1 ∉ lowerNames ∧ wsTLSFileNameIsValid file.1 = true ∧ file.1 ∈ referenced ∧
        file.2.length ≤ maxWSTLSFileSize) ∧ toLower file.1 :: lowerNames = r := by
  rw [validateFile]
  split_ifs with hlower hunexpected hlarge
  · simp [hlower]
  · refine iff_of_false nofun fun h => ?_
    rcases hunexpected with hinvalid | hno
    · exact hinvalid h.1.2.1
    · exact hno h.1.2.2.1
  · refine iff_of_false nofun fun h => ?_
    have hsmall := h.1.2.2.2
    omega
  · rw [not_or, not_not, not_not] at hunexpected
    rw [Except.ok.injEq]
    exact ⟨fun h => ⟨⟨hlower, hunexpected.1, hunexpected.2, Nat.not_lt.mp hlarge⟩, h⟩, And.right⟩

theorem validateFiles_eq_ok {referenced lowerNames : List Str} {files : List (Str × List UInt8)} :
    (∃ r, files.foldlM (validateFile referenced) lowerNames = .ok r) ↔
      ((files.map (toLower ·.1)).Nodup ∧ ∀ file ∈ files, toLower file.1 ∉ lowerNames) ∧
        ∀ file ∈ files, wsTLSFileNameIsValid file.1 = true ∧ file.1 ∈ referenced ∧
          file.2.length ≤ maxWSTLSFileSize := by
  induction files generalizing lowerNames with
  | nil => simp [pure, Except.pure]
  | cons file files ih =>
    have hstep : (∃ r, (file :: files).foldlM (validateFile referenced) lowerNames = .ok r) ↔
        ∃ l, validateFile referenced lowerNames file = .ok l ∧
          ∃ r, files.foldlM (validateFile referenced) l = .ok r := by
      constructor
      · rintro ⟨r, h⟩
        obtain ⟨l, hl, hr⟩ := bind_eq_ok h
        exact ⟨l, hl, r, hr⟩
      · rintro ⟨l, hl, r, hr⟩
        refine ⟨r, ?_⟩
        rw [List.foldlM_cons, hl]
        exact hr
    rw [hstep]
    simp only [validateFile_eq_ok, ih, List.map_cons, List.nodup_cons,
      List.forall_mem_cons, List.mem_map, not_exists, not_and]
    constructor
    · rintro ⟨l, ⟨⟨hlower, hvalid, hmem, hsize⟩, rfl⟩, ⟨hnodup, hnot⟩, hrest⟩
      refine ⟨⟨⟨fun f hf heq => List.ne_of_not_mem_cons (hnot f hf) heq, hnodup⟩, hlower,
        fun f hf => List.not_mem_of_not_mem_cons (hnot f hf)⟩, ⟨hvalid, hmem, hsize⟩, hrest⟩
    · rintro ⟨⟨⟨hnew, hnodup⟩, hlower, hnot⟩, ⟨hvalid, hmem, hsize⟩, hrest⟩
      refine ⟨_, ⟨⟨hlower, hvalid, hmem, hsize⟩, rfl⟩, ⟨hnodup, ?_⟩, hrest⟩
      exact fun f hf => List.not_mem_cons_of_ne_of_not_mem (hnew f hf) (hnot f hf)

structure ValidWSTLSFiles (config : Config) : Prop where
  references : ∀ ref ∈ config.wsTLSReferences,
    (if wsTLSFileNameIsValid ref then (config.wsTLSFiles.lookup ref).isSome else
      isWSTLSLocalPath ref) = true
  count : config.wsTLSFiles.length ≤ maxWSTLSFiles
  distinct : (config.wsTLSFiles.map (toLower ·.1)).Nodup
  files : ∀ file ∈ config.wsTLSFiles, wsTLSFileNameIsValid file.1 = true ∧
    file.1 ∈ config.wsTLSReferences ∧
    file.2.length ≤ maxWSTLSFileSize

theorem validateWSTLSFiles_eq_ok {config : Config} :
    config.validateWSTLSFiles = .ok () ↔ ValidWSTLSFiles config := by
  have hfiles :=
    @validateFiles_eq_ok (config.wsTLSReferences.filter wsTLSFileNameIsValid) [] config.wsTLSFiles
  simp only [List.not_mem_nil, not_false_eq_true, implies_true, and_true, List.mem_filter] at hfiles
  constructor
  · intro h
    obtain ⟨u, hrefs, h⟩ := bind_eq_ok h
    split_ifs at h with hcount
    obtain ⟨r, hr, -⟩ := bind_eq_ok h
    obtain ⟨hdistinct, hvalid⟩ := hfiles.mp ⟨r, hr⟩
    refine ⟨?_, Nat.not_lt.mp hcount, hdistinct, ?_⟩
    · exact fun ref href => validateReference_eq_ok.mp (forM_eq_ok.mp hrefs ref href)
    · intro file hfile
      obtain ⟨h₁, h₂, h₃⟩ := hvalid file hfile
      exact ⟨h₁, h₂.1, h₃⟩
  · intro h
    obtain ⟨r, hr⟩ := hfiles.mpr ⟨h.distinct, fun file hfile => by
      obtain ⟨h₁, h₂, h₃⟩ := h.files file hfile
      exact ⟨h₁, ⟨h₂, h₁⟩, h₃⟩⟩
    have hrefs : config.wsTLSReferences.forM (validateReference config.wsTLSFiles) = .ok () :=
      forM_eq_ok.mpr fun ref href => validateReference_eq_ok.mpr (h.references ref href)
    rw [Config.validateWSTLSFiles, hrefs]
    change (if _ then _ else _) = _
    rw [if_neg (Nat.not_lt.mpr h.count), hr]
    rfl

structure Claimed where
  spellings : Map Str Str := ∅
  names : Map Str Str := ∅
  taken : List Str := []

/-- The first pass: names that differ only in case share the spelling seen first. -/
def Claimed.claim (c : Claimed) (ref : Str) : Claimed :=
  if wsTLSFileNameIsValid ref then
    let lower := toLower ref
    let spellings := if lower ∈ c.spellings then c.spellings else c.spellings.insert lower ref
    { spellings := spellings
      names := c.names.insert ref ((spellings.lookup lower).getD [])
      taken := lower :: c.taken }
  else c

inductive CollectError (ε : Type)
  | unreadable (ref : Str) (err : ε)
  | invalid (err : Error)
  | outOfRange

structure Collecting where
  names : Map Str Str
  taken : List Str
  files : Map Str (List UInt8) := ∅
  stored : Map Str Str := ∅

section
variable {ε : Type} (read : Str → Except ε (List UInt8))

def Collecting.nameReference (st : Collecting) (ref : Str) : Option (Str × Collecting) :=
  match st.names.lookup ref with
  | some name => some (name, st)
  | none => do
    let name ← uniqueWSTLSFileName (sanitizeWSTLSFileName (Filepath.base ref)) st.taken
    return (name, { st with names := st.names.insert ref name, taken := toLower name :: st.taken })

def Collecting.readReference (st : Collecting) (ref name : Str) :
    Except (CollectError ε) Collecting :=
  if name ∈ st.files then .ok st
  else match read ref with
    | .error err => .error (.unreadable ref err)
    | .ok data =>
      if maxWSTLSFileSize < data.length
        then .error (.invalid (.parseError "TLS file is too large" ref))
      else .ok { st with files := st.files.insert name data }

/-- The second pass at one reference, with the value it is rewritten to. -/
def Collecting.collect (st : Collecting) (ref : Str) : Except (CollectError ε) (Str × Collecting) :=
  if ref = [] then .ok (ref, st)
  else match st.nameReference ref with
    | none => .error .outOfRange
    | some (name, st) => do
      let st ← Collecting.readReference read { st with
        stored := st.stored.insert ref name } ref name
      return (name, st)

def Collecting.collectPeer (st : Collecting) (p : Peer) :
    Except (CollectError ε) (Peer × Collecting) := do
  let (ca, st) ← st.collect read p.wsTLSCA
  let (cert, st) ← st.collect read p.wsTLSCert
  let (key, st) ← st.collect read p.wsTLSKey
  return ({ p with wsTLSCA := ca, wsTLSCert := cert, wsTLSKey := key }, st)

def Collecting.collectPeers (st : Collecting) :
    List Peer → Except (CollectError ε) (List Peer × Collecting)
  | [] => .ok ([], st)
  | p :: peers => do
    let (p, st) ← st.collectPeer read p
    let (peers, st) ← st.collectPeers peers
    return (p :: peers, st)

def Config.collectWSTLSFiles (config : Config) :
    Except (CollectError ε) (Map Str Str × Config) := do
  let claimed := config.wsTLSReferences.foldl Claimed.claim {}
  let (peers, st) ← Collecting.collectPeers read { names := claimed.names, taken := claimed.taken }
    config.peers
  if maxWSTLSFiles < st.files.pairs.length then
    .error (.invalid (.parseError "Too many TLS files" (itoa st.files.pairs.length)))
  else return (st.stored, { config with peers := peers, wsTLSFiles := st.files.pairs })

end

structure Assigned (names : Map Str Str) (taken : List Str) : Prop where
  valid : ∀ {r n}, names.lookup r = some n → wsTLSFileNameIsValid n = true ∧ toLower n ∈ taken
  kept : ∀ {r n}, names.lookup r = some n → wsTLSFileNameIsValid r = true → toLower n = toLower r
  apart : ∀ {r₁ r₂ n₁ n₂}, names.lookup r₁ = some n₁ → names.lookup r₂ = some n₂ →
    toLower n₁ = toLower n₂ →
    n₁ = n₂ ∧ (r₁ = r₂ ∨ wsTLSFileNameIsValid r₁ = true ∧ wsTLSFileNameIsValid r₂ = true)

theorem Assigned.fresh {names : Map Str Str} {taken : List Str} (h : Assigned names taken)
    {ref name : Str} (hnew : names.lookup ref = none) (hinvalid : wsTLSFileNameIsValid ref = false)
    (hname : wsTLSFileNameIsValid name = true) (htaken : toLower name ∉ taken) :
    Assigned (names.insert ref name) (toLower name :: taken) where
  valid hr := by
    rcases Map.lookup_insert_eq_some hr with ⟨-, rfl⟩ | hr
    · exact ⟨hname, List.mem_cons_self⟩
    · exact ⟨(h.valid hr).1, List.mem_cons_of_mem _ (h.valid hr).2⟩
  kept hr hvalid := by
    rcases Map.lookup_insert_eq_some hr with ⟨rfl, -⟩ | hr
    · rw [hinvalid] at hvalid
      cases hvalid
    · exact h.kept hr hvalid
  apart h₁ h₂ heq := by
    rcases Map.lookup_insert_eq_some h₁ with ⟨rfl, rfl⟩ | hold₁
    · rcases Map.lookup_insert_eq_some h₂ with ⟨rfl, rfl⟩ | hold₂
      · exact ⟨rfl, Or.inl rfl⟩
      · exact absurd (heq ▸ (h.valid hold₂).2) htaken
    · rcases Map.lookup_insert_eq_some h₂ with ⟨rfl, rfl⟩ | hold₂
      · exact absurd (heq ▸ (h.valid hold₁).2) htaken
      · exact h.apart hold₁ hold₂ heq

structure Claimed.Of (refs : List Str) (c : Claimed) : Prop where
  spelled : ∀ {lower s}, c.spellings.lookup lower = some s →
    wsTLSFileNameIsValid s = true ∧ toLower s = lower ∧ lower ∈ c.taken
  names : ∀ {r n}, c.names.lookup r = some n →
    wsTLSFileNameIsValid r = true ∧ c.spellings.lookup (toLower r) = some n
  claimed : ∀ {r}, r ∈ refs → wsTLSFileNameIsValid r = true → r ∈ c.names

theorem Claimed.Of.claim {refs : List Str} {c : Claimed} (h : c.Of refs) (ref : Str) :
    (c.claim ref).Of (refs ++ [ref]) := by
  by_cases hvalid : wsTLSFileNameIsValid ref = true
  · -- the map of spellings has the lower-cased name, and what it had before
    obtain ⟨spellings, hsp⟩ : ∃ m, m = if toLower ref ∈ c.spellings then c.spellings
      else c.spellings.insert (toLower ref) ref := ⟨_, rfl⟩
    have hclaim : c.claim ref =
      ⟨spellings, c.names.insert ref ((spellings.lookup (toLower ref)).getD []),
      toLower ref :: c.taken⟩ := by rw [Claimed.claim, if_pos hvalid, hsp]
    have hext : Map.Extends c.spellings spellings := by
      rw [hsp]
      split_ifs with hmem
      · exact Map.Extends.refl _
      · exact Map.extends_insert (Or.inl (AList.lookup_eq_none.mpr hmem))
    obtain ⟨s, hs⟩ : ∃ s, spellings.lookup (toLower ref) = some s := by
      rw [← Option.isSome_iff_exists, AList.lookup_isSome, hsp]
      split_ifs with hmem
      · exact hmem
      · exact (AList.mem_insert _).mpr (Or.inl rfl)
    rw [hclaim, hs, Option.getD_some]
    constructor
    · intro lower s' hs'
      have hcases : (lower = toLower ref ∧ s' = ref) ∨ c.spellings.lookup lower = some s' := by
        rw [hsp] at hs'
        split_ifs at hs' with hmem
        · exact Or.inr hs'
        · exact Map.lookup_insert_eq_some hs'
      rcases hcases with ⟨rfl, rfl⟩ | hold
      · exact ⟨hvalid, rfl, List.mem_cons_self⟩
      · obtain ⟨h₁, h₂, h₃⟩ := h.spelled hold
        exact ⟨h₁, h₂, List.mem_cons_of_mem _ h₃⟩
    · intro r n hr
      rcases Map.lookup_insert_eq_some hr with ⟨rfl, rfl⟩ | hr
      · exact ⟨hvalid, hs⟩
      · exact ⟨(h.names hr).1, hext _ _ (h.names hr).2⟩
    · intro r hr hv
      rw [AList.mem_insert]
      rcases List.mem_append.mp hr with hr | hr
      · exact Or.inr (h.claimed hr hv)
      · exact Or.inl (List.mem_singleton.mp hr)
  · rw [Claimed.claim, if_neg hvalid]
    refine ⟨h.spelled, h.names, ?_⟩
    intro r hr hv
    rcases List.mem_append.mp hr with hr | hr
    · exact h.claimed hr hv
    · rw [List.mem_singleton.mp hr] at hv
      exact absurd hv hvalid

theorem claimed_of (refs : List Str) : (refs.foldl Claimed.claim {}).Of refs := by
  induction refs using List.reverseRecOn with
  | nil => exact ⟨nofun, nofun, nofun⟩
  | append_singleton refs ref ih =>
    rw [List.foldl_append]
    exact ih.claim ref

theorem Claimed.Of.assigned {refs : List Str} {c : Claimed} (h : c.Of refs) :
    Assigned c.names c.taken where
  valid hr := by
    obtain ⟨hvalid, heq, hmem⟩ := h.spelled (h.names hr).2
    exact ⟨hvalid, heq ▸ hmem⟩
  kept hr _ := (h.spelled (h.names hr).2).2.1
  apart h₁ h₂ heq := by
    obtain ⟨hv₁, hs₁⟩ := h.names h₁
    obtain ⟨hv₂, hs₂⟩ := h.names h₂
    rw [(h.spelled hs₁).2.1, (h.spelled hs₂).2.1] at heq
    rw [heq, hs₂] at hs₁
    exact ⟨(Option.some.inj hs₁).symm, Or.inr ⟨hv₁, hv₂⟩⟩

section
variable {ε : Type} {read : Str → Except ε (List UInt8)} {refs : List Str}

def CaseBlind (read : Str → Except ε (List UInt8)) : Prop :=
  ∀ r₁ r₂ d, wsTLSFileNameIsValid r₁ = true → wsTLSFileNameIsValid r₂ = true →
  toLower r₁ = toLower r₂ →
    read r₁ = .ok d → read r₂ = .ok d

/-- A relation between references and contents that every file read meets, and that does not
look at the case of a stored name. -/
structure Contents (read : Str → Except ε (List UInt8)) (holds : Str → List UInt8 → Prop) :
    Prop where
  read : ∀ {r d}, read r = .ok d → holds r d
  blind : ∀ {r₁ r₂ d}, wsTLSFileNameIsValid r₁ = true → wsTLSFileNameIsValid r₂ = true →
    toLower r₁ = toLower r₂ → holds r₁ d → holds r₂ d

variable {holds : Str → List UInt8 → Prop}

theorem CaseBlind.contents (hread : CaseBlind read) : Contents read fun r d => read r = .ok d :=
  ⟨id, fun hv₁ hv₂ heq h => hread _ _ _ hv₁ hv₂ heq h⟩

structure Collecting.Inv (holds : Str → List UInt8 → Prop) (refs : List Str) (st : Collecting) :
    Prop where
  assigned : Assigned st.names st.taken
  claimed : ∀ {r}, r ∈ refs → wsTLSFileNameIsValid r = true → r ∈ st.names
  named : ∀ {r n}, st.stored.lookup r = some n → st.names.lookup r = some n ∧ r ∈ refs
  loaded : ∀ {r n}, st.stored.lookup r = some n → ∃ d, st.files.lookup n = some d ∧ holds r d
  files : ∀ {n d}, st.files.lookup n = some d → d.length ≤ maxWSTLSFileSize ∧
    ∃ r, st.stored.lookup r = some n

theorem Collecting.Inv.nameReference {st st' : Collecting} {ref name : Str} (h : st.Inv holds refs)
    (href : ref ∈ refs) (hname : st.nameReference ref = some (name, st')) :
    st'.Inv holds refs ∧ st'.names.lookup ref = some name ∧ st'.stored = st.stored := by
  rw [Collecting.nameReference] at hname
  cases hlookup : st.names.lookup ref with
  | some n =>
    rw [hlookup] at hname
    cases hname
    exact ⟨h, hlookup, rfl⟩
  | none =>
    rw [hlookup] at hname
    obtain ⟨n, hunique, hname⟩ := Option.bind_eq_some_iff.mp hname
    cases hname
    have hinvalid : wsTLSFileNameIsValid ref = false := by
      rw [← Bool.not_eq_true]
      exact fun hvalid => AList.lookup_eq_none.mp hlookup (h.claimed href hvalid)
    obtain ⟨hvalid, hnew⟩ := uniqueWSTLSFileName_spec (wsTLSFileNameIsValid_sanitize _) hunique
    refine ⟨⟨h.assigned.fresh hlookup hinvalid hvalid hnew, ?_, ?_, h.loaded, h.files⟩, ?_, rfl⟩
    · exact fun hr hv => (AList.mem_insert _).mpr (Or.inr (h.claimed hr hv))
    · intro r n' hr
      exact ⟨Map.extends_insert (Or.inl hlookup) _ _ (h.named hr).1, (h.named hr).2⟩
    · exact AList.lookup_insert _

theorem Collecting.Inv.shared {st : Collecting} {ref name : Str} {d : List UInt8}
    (h : st.Inv holds refs) (hread : Contents read holds)
    (hname : st.names.lookup ref = some name) (hd : st.files.lookup name = some d) :
    holds ref d := by
  obtain ⟨-, r, hr⟩ := h.files hd
  obtain ⟨d', hd', hreadr⟩ := h.loaded hr
  rw [hd] at hd'
  obtain rfl := Option.some.inj hd'
  have hnamer := (h.named hr).1
  obtain ⟨-, rfl | ⟨hv, hv'⟩⟩ := h.assigned.apart hnamer hname rfl
  · exact hreadr
  · refine hread.blind hv hv' ?_ hreadr
    rw [← h.assigned.kept hnamer hv, ← h.assigned.kept hname hv']

theorem Collecting.Inv.readReference {st st' : Collecting} {ref name : Str} (h : st.Inv holds refs)
    (hread : Contents read holds)
    (href : ref ∈ refs) (hname : st.names.lookup ref = some name)
    (hst : Collecting.readReference read { st with
      stored := st.stored.insert ref name } ref name = .ok st') :
    st'.Inv holds refs ∧ st'.stored = st.stored.insert ref name := by
  have hnamed : ∀ {r n}, (st.stored.insert ref name).lookup r = some n →
      st.names.lookup r = some n ∧ r ∈ refs := by
    intro r n hr
    rcases Map.lookup_insert_eq_some hr with ⟨rfl, rfl⟩ | hr
    · exact ⟨hname, href⟩
    · exact h.named hr
  have hext : Map.Extends st.stored (st.stored.insert ref name) := by
    refine Map.extends_insert ?_
    cases hold : st.stored.lookup ref with
    | none => exact Or.inl rfl
    | some n => exact Or.inr (((h.named hold).1).symm.trans hname)
  rw [Collecting.readReference] at hst
  split_ifs at hst with hmem
  · cases hst
    refine ⟨⟨h.assigned, h.claimed, hnamed, ?_, ?_⟩, rfl⟩
    · intro r n hr
      rcases Map.lookup_insert_eq_some hr with ⟨rfl, rfl⟩ | hr
      · obtain ⟨d, hd⟩ := Option.isSome_iff_exists.mp (AList.lookup_isSome.mpr hmem)
        exact ⟨d, hd, h.shared hread hname hd⟩
      · exact h.loaded hr
    · intro n d hd
      obtain ⟨hsize, r, hr⟩ := h.files hd
      exact ⟨hsize, r, hext _ _ hr⟩
  · have hnone : st.files.lookup name = none := AList.lookup_eq_none.mpr hmem
    cases hdata : read ref with
    | error err =>
      rw [hdata] at hst
      cases hst
    | ok data =>
      simp only [hdata] at hst
      split_ifs at hst with hlarge
      cases hst
      refine ⟨⟨h.assigned, h.claimed, hnamed, ?_, ?_⟩, rfl⟩
      · intro r n hr
        rcases Map.lookup_insert_eq_some hr with ⟨rfl, rfl⟩ | hr
        · exact ⟨data, AList.lookup_insert _, hread.read hdata⟩
        · obtain ⟨d, hd, hreadr⟩ := h.loaded hr
          exact ⟨d, Map.extends_insert (Or.inl hnone) _ _ hd, hreadr⟩
      · intro n d hd
        rcases Map.lookup_insert_eq_some hd with ⟨rfl, rfl⟩ | hd
        · exact ⟨Nat.not_lt.mp hlarge, ref, AList.lookup_insert _⟩
        · obtain ⟨hsize, r, hr⟩ := h.files hd
          exact ⟨hsize, r, hext _ _ hr⟩

theorem Collecting.Inv.collect {st st' : Collecting} {ref name : Str} (h : st.Inv holds refs)
    (hread : Contents read holds) (href : ref ≠ [] → ref ∈ refs)
    (hst : st.collect read ref = .ok (name, st')) :
    st'.Inv holds refs ∧ Map.Extends st.stored st'.stored ∧
      ((ref = [] ∧ name = []) ∨ (ref ≠ [] ∧ st'.stored.lookup ref = some name)) := by
  rw [Collecting.collect] at hst
  split_ifs at hst with hnil
  · cases hst
    exact ⟨h, Map.Extends.refl _, Or.inl ⟨hnil, hnil⟩⟩
  · cases hname : st.nameReference ref with
    | none =>
      rw [hname] at hst
      cases hst
    | some p =>
      obtain ⟨n, st₁⟩ := p
      rw [hname] at hst
      obtain ⟨st₂, hst₂, hst⟩ := bind_eq_ok hst
      cases hst
      obtain ⟨h₁, hlookup, hsame⟩ := h.nameReference (href hnil) hname
      obtain ⟨h₂, hstored⟩ := h₁.readReference hread (href hnil) hlookup hst₂
      refine ⟨h₂, ?_, Or.inr ⟨hnil, by rw [hstored, AList.lookup_insert]⟩⟩
      rw [hstored, hsame]
      refine Map.extends_insert ?_
      cases hold : st.stored.lookup ref with
      | none => exact Or.inl rfl
      | some n' =>
        rw [← hsame] at hold
        exact Or.inr (((h₁.named hold).1).symm.trans hlookup)

def renameReference (stored : Map Str Str) (ref : Str) : Str :=
  if ref = [] then [] else (stored.lookup ref).getD ref

def Peer.renameReferences (stored : Map Str Str) (p : Peer) : Peer :=
  { p with
    wsTLSCA := renameReference stored p.wsTLSCA
    wsTLSCert := renameReference stored p.wsTLSCert
    wsTLSKey := renameReference stored p.wsTLSKey }

theorem renameReference_of_extends {stored stored' : Map Str Str}
    (hext : Map.Extends stored stored') {ref name : Str}
    (h : (ref = [] ∧ name = []) ∨ (ref ≠ [] ∧ stored.lookup ref = some name)) :
    renameReference stored' ref = name ∧ (ref ≠ [] → ref ∈ stored') := by
  rw [renameReference]
  rcases h with ⟨hnil, rfl⟩ | ⟨hne, hlookup⟩
  · exact ⟨if_pos hnil, fun hne => absurd hnil hne⟩
  · have hlookup' := hext ref name hlookup
    rw [if_neg hne, hlookup']
    exact ⟨rfl, fun _ => AList.lookup_isSome.mp (by rw [hlookup']; rfl)⟩

theorem Collecting.Inv.collectPeer {st st' : Collecting} {p p' : Peer} (h : st.Inv holds refs)
    (hread : Contents read holds) (hrefs : ∀ ref ∈ p.wsTLSReferences, ref ∈ refs)
    (hst : st.collectPeer read p = .ok (p', st')) :
    st'.Inv holds refs ∧ Map.Extends st.stored st'.stored ∧
      ∀ stored, Map.Extends st'.stored stored →
        p' = p.renameReferences stored ∧ ∀ ref ∈ p.wsTLSReferences, ref ∈ stored := by
  have hmem : ∀ ref ∈ [p.wsTLSCA, p.wsTLSCert, p.wsTLSKey], ref ≠ [] → ref ∈ refs :=
    fun ref href hne => hrefs ref (List.mem_filter.mpr ⟨href, by simpa using hne⟩)
  simp only [List.forall_mem_cons] at hmem
  obtain ⟨hca, hcert, hkey, -⟩ := hmem
  obtain ⟨⟨ca, st₁⟩, hst₁, hst⟩ := bind_eq_ok hst
  obtain ⟨⟨cert, st₂⟩, hst₂, hst⟩ := bind_eq_ok hst
  obtain ⟨⟨key, st₃⟩, hst₃, hst⟩ := bind_eq_ok hst
  cases hst
  obtain ⟨h₁, hext₁, hname₁⟩ := h.collect hread hca hst₁
  obtain ⟨h₂, hext₂, hname₂⟩ := h₁.collect hread hcert hst₂
  obtain ⟨h₃, hext₃, hname₃⟩ := h₂.collect hread hkey hst₃
  refine ⟨h₃, (hext₁.trans hext₂).trans hext₃, fun stored hext => ?_⟩
  obtain ⟨heq₁, hin₁⟩ := renameReference_of_extends ((hext₂.trans hext₃).trans hext) hname₁
  obtain ⟨heq₂, hin₂⟩ := renameReference_of_extends (hext₃.trans hext) hname₂
  obtain ⟨heq₃, hin₃⟩ := renameReference_of_extends hext hname₃
  refine ⟨by rw [Peer.renameReferences, heq₁, heq₂, heq₃], ?_⟩
  intro ref href
  simp only [Peer.wsTLSReferences, List.mem_filter, List.mem_cons, List.not_mem_nil, or_false,
    decide_eq_true_eq] at href
  obtain ⟨rfl | rfl | rfl, hne⟩ := href
  · exact hin₁ hne
  · exact hin₂ hne
  · exact hin₃ hne

theorem Collecting.Inv.collectPeers {st st' : Collecting} {peers peers' : List Peer}
    (h : st.Inv holds refs) (hread : Contents read holds)
    (hrefs : ∀ ref ∈ peers.flatMap Peer.wsTLSReferences, ref ∈ refs)
    (hst : st.collectPeers read peers = .ok (peers', st')) :
    st'.Inv holds refs ∧ Map.Extends st.stored st'.stored ∧
      ∀ stored, Map.Extends st'.stored stored →
        peers' = peers.map (Peer.renameReferences stored) ∧
          ∀ ref ∈ peers.flatMap Peer.wsTLSReferences, ref ∈ stored := by
  induction peers generalizing st peers' with
  | nil =>
    cases hst
    exact ⟨h, Map.Extends.refl _, fun stored _ => ⟨rfl, nofun⟩⟩
  | cons p peers ih =>
    simp only [List.flatMap_cons, List.mem_append] at hrefs ⊢
    obtain ⟨⟨p', st₁⟩, hst₁, hst⟩ := bind_eq_ok hst
    obtain ⟨⟨rest, st₂⟩, hst₂, hst⟩ := bind_eq_ok hst
    cases hst
    obtain ⟨h₁, hext₁, hpeer⟩ := h.collectPeer hread (fun ref href => hrefs ref (Or.inl href)) hst₁
    obtain ⟨h₂, hext₂, hrest⟩ := ih h₁ (fun ref href => hrefs ref (Or.inr href)) hst₂
    refine ⟨h₂, hext₁.trans hext₂, fun stored hext => ?_⟩
    obtain ⟨heq, hin⟩ := hpeer stored (hext₂.trans hext)
    obtain ⟨heq', hin'⟩ := hrest stored hext
    refine ⟨by rw [List.map_cons, heq, heq'], ?_⟩
    rintro ref (href | href)
    · exact hin ref href
    · exact hin' ref href

theorem renameReference_ne_nil {stored : Map Str Str}
    (hne : ∀ {r n}, stored.lookup r = some n → n ≠ []) (r : Str) :
    renameReference stored r ≠ [] ↔ r ≠ [] := by
  rw [renameReference]
  split_ifs with hr
  · simp [hr]
  · cases hlookup : stored.lookup r with
    | none => simp
    | some n => simp [hne hlookup, hr]

theorem wsTLSReferences_renameReferences {stored : Map Str Str}
    (hne : ∀ {r n}, stored.lookup r = some n → n ≠ []) (p : Peer) :
    (p.renameReferences stored).wsTLSReferences = p.wsTLSReferences.map
      (renameReference stored) := by
  have hmap : (p.renameReferences stored).wsTLSReferences =
      ([p.wsTLSCA, p.wsTLSCert, p.wsTLSKey].map (renameReference stored)).filter (· ≠ []) := rfl
  rw [hmap, List.filter_map, Peer.wsTLSReferences]
  congr 2
  funext r
  exact decide_eq_decide.mpr (renameReference_ne_nil hne r)

theorem mem_renamed_references {stored : Map Str Str}
    (hne : ∀ {r n}, stored.lookup r = some n → n ≠ []) {config : Config} {ref : Str} :
    ref ∈ (config.peers.map (Peer.renameReferences stored)).flatMap Peer.wsTLSReferences ↔
      ∃ r ∈ config.wsTLSReferences, renameReference stored r = ref := by
  rw [List.flatMap_map, Config.wsTLSReferences]
  simp only [List.mem_flatMap, wsTLSReferences_renameReferences hne, List.mem_map]
  constructor
  · rintro ⟨p, hp, r, hr, heq⟩
    exact ⟨r, ⟨p, hp, hr⟩, heq⟩
  · rintro ⟨r, ⟨p, hp, hr⟩, heq⟩
    exact ⟨p, hp, r, hr, heq⟩

theorem ne_nil_of_mem_wsTLSReferences {config : Config} {ref : Str}
    (h : ref ∈ config.wsTLSReferences) : ref ≠ [] := by
  obtain ⟨p, -, hp⟩ := List.mem_flatMap.mp h
  simpa using (List.mem_filter.mp hp).2

theorem Collecting.Inv.initial {c : Claimed} (h : c.Of refs) :
    Collecting.Inv holds refs { names := c.names, taken := c.taken } :=
  ⟨h.assigned, h.claimed, nofun, nofun, nofun⟩

theorem Collecting.Inv.distinct {st : Collecting} (h : st.Inv holds refs) :
    (st.files.pairs.map (toLower ·.1)).Nodup := by
  have hkeys : st.files.pairs.map (toLower ·.1) = (st.files.pairs.map Prod.fst).map toLower := by
    rw [List.map_map]
    rfl
  rw [hkeys]
  refine List.Nodup.map_on ?_ st.files.pairs_nodup
  intro n₁ hn₁ n₂ hn₂ heq
  obtain ⟨⟨_, d₁⟩, hmem₁, rfl⟩ := List.mem_map.mp hn₁
  obtain ⟨⟨_, d₂⟩, hmem₂, rfl⟩ := List.mem_map.mp hn₂
  obtain ⟨-, r₁, hr₁⟩ := h.files (Map.mem_pairs.mp hmem₁)
  obtain ⟨-, r₂, hr₂⟩ := h.files (Map.mem_pairs.mp hmem₂)
  exact (h.assigned.apart (h.named hr₁).1 (h.named hr₂).1 heq).1

end

theorem collectWSTLSFiles_spec {ε : Type} {read : Str → Except ε (List UInt8)}
    {config config' : Config} {stored : Map Str Str} {holds : Str → List UInt8 → Prop}
    (hread : Contents read holds) (h : config.collectWSTLSFiles read = .ok (stored, config')) :
    config'.validateWSTLSFiles = .ok () ∧
      config' = { config with
        peers := config.peers.map (Peer.renameReferences stored)
        wsTLSFiles := config'.wsTLSFiles } ∧
      (∀ ref ∈ config.wsTLSReferences, ∃ name data, stored.lookup ref = some name ∧
        wsTLSFileNameIsValid name = true ∧ config'.wsTLSFiles.lookup name = some data ∧
        holds ref data ∧
        (wsTLSFileNameIsValid ref = true → toLower name = toLower ref)) ∧
      (∀ r₁ r₂ name, stored.lookup r₁ = some name → stored.lookup r₂ = some name → r₁ ≠ r₂ →
        wsTLSFileNameIsValid r₁ = true ∧ wsTLSFileNameIsValid r₂ = true ∧ toLower r₁ = toLower r₂) ∧
      (config'.wsTLSFiles.map (toLower ·.1)).Nodup ∧
      ∀ {ref name}, stored.lookup ref = some name → wsTLSFileNameIsValid name = true := by
  obtain ⟨⟨peers, st⟩, hst, h⟩ := bind_eq_ok h
  dsimp only at h
  split_ifs at h with hcount
  cases h
  have hinit : Collecting.Inv holds config.wsTLSReferences _ :=
    Collecting.Inv.initial (claimed_of _)
  obtain ⟨hinv, -, hrun⟩ := hinit.collectPeers hread (fun ref href => href) hst
  obtain ⟨rfl, hstored⟩ := hrun st.stored (Map.Extends.refl _)
  have hname : ∀ {r n}, st.stored.lookup r = some n → wsTLSFileNameIsValid n = true :=
    fun hr => (hinv.assigned.valid (hinv.named hr).1).1
  have hrefs : ∀ ref ∈ config.wsTLSReferences, ∃ name data, st.stored.lookup ref = some name ∧
      wsTLSFileNameIsValid name = true ∧ st.files.pairs.lookup name = some data ∧ holds ref data ∧
      (wsTLSFileNameIsValid ref = true → toLower name = toLower ref) := by
    intro ref href
    obtain ⟨name, hlookup⟩ :=
      Option.isSome_iff_exists.mp (AList.lookup_isSome.mpr (hstored ref href))
    obtain ⟨data, hfile, hdata⟩ := hinv.loaded hlookup
    exact ⟨name, data, hlookup, hname hlookup, (Map.lookup_pairs _ _).trans hfile, hdata,
      hinv.assigned.kept (hinv.named hlookup).1⟩
  refine ⟨validateWSTLSFiles_eq_ok.mpr ?_, rfl, hrefs, ?_, hinv.distinct, hname⟩
  · -- the new references are the names in the map
    have hne : ∀ {r n}, st.stored.lookup r = some n → n ≠ [] :=
      fun hr => (wsTLSFileNameIsValid_iff.mp (hname hr)).1.ne_nil
    have hrename : ∀ {r n}, r ∈ config.wsTLSReferences → st.stored.lookup r = some n →
        renameReference st.stored r = n := by
      intro r n hr hlookup
      rw [renameReference, if_neg (ne_nil_of_mem_wsTLSReferences hr), hlookup, Option.getD_some]
    refine ⟨?_, Nat.not_lt.mp hcount, hinv.distinct, ?_⟩
    · intro ref href
      obtain ⟨r, hr, rfl⟩ := (mem_renamed_references hne).mp href
      obtain ⟨name, data, hlookup, hvalid, hfile, -⟩ := hrefs r hr
      rw [hrename hr hlookup, if_pos hvalid, hfile, Option.isSome_some]
    · rintro ⟨name, data⟩ hfile
      obtain ⟨hsize, r, hr⟩ := hinv.files (Map.mem_pairs.mp hfile)
      have hmem := (hinv.named hr).2
      exact ⟨hname hr, (mem_renamed_references hne).mpr ⟨r, hmem, hrename hmem hr⟩, hsize⟩
  · intro r₁ r₂ name h₁ h₂ hne
    obtain ⟨-, heq | ⟨hv₁, hv₂⟩⟩ := hinv.assigned.apart (hinv.named h₁).1 (hinv.named h₂).1 rfl
    · exact absurd heq hne
    · refine ⟨hv₁, hv₂, ?_⟩
      rw [← hinv.assigned.kept (hinv.named h₁).1 hv₁, ← hinv.assigned.kept (hinv.named h₂).1 hv₂]

theorem collectWSTLSFiles_sound {ε : Type} {read : Str → Except ε (List UInt8)}
    {config config' : Config} {stored : Map Str Str} (hread : CaseBlind read)
    (h : config.collectWSTLSFiles read = .ok (stored, config')) :
    config'.validateWSTLSFiles = .ok () ∧
      config' = { config with
        peers := config.peers.map (Peer.renameReferences stored)
        wsTLSFiles := config'.wsTLSFiles } ∧
      (∀ ref ∈ config.wsTLSReferences, ∃ name data, stored.lookup ref = some name ∧
        wsTLSFileNameIsValid name = true ∧ config'.wsTLSFiles.lookup name = some data ∧
        read ref = .ok data ∧
        (wsTLSFileNameIsValid ref = true → toLower name = toLower ref)) ∧
      (∀ r₁ r₂ name, stored.lookup r₁ = some name → stored.lookup r₂ = some name → r₁ ≠ r₂ →
        wsTLSFileNameIsValid r₁ = true ∧ wsTLSFileNameIsValid r₂ = true ∧ toLower r₁ = toLower r₂) ∧
      (config'.wsTLSFiles.map (toLower ·.1)).Nodup := by
  obtain ⟨hvalid, hrenamed, hrefs, hshared, hdistinct, -⟩ := collectWSTLSFiles_spec hread.contents h
  exact ⟨hvalid, hrenamed, hrefs, hshared, hdistinct⟩

def threeFiles : Config :=
  { name := str "tun"
    peers := [{
      wsTLSCA := str "ca.pem"
      wsTLSCert := str "CA.pem"
      wsTLSKey := str "C:\\pki\\ca.pem" }] }

theorem collectWSTLSFiles_sound_threeFiles :
    ∃ stored config', threeFiles.collectWSTLSFiles (ε := Unit)
      (fun ref => .ok [ref.length.toUInt8]) =
        .ok (stored, config') ∧
      stored.lookup (str "C:\\pki\\ca.pem") = some (str "ca-2.pem") ∧
      config'.validateWSTLSFiles = .ok () := by
  obtain ⟨stored, config', h, hlookup⟩ : ∃ stored config',
      threeFiles.collectWSTLSFiles (ε := Unit) (fun ref => .ok [ref.length.toUInt8]) =
        .ok (stored, config') ∧
        stored.lookup (str "C:\\pki\\ca.pem") = some (str "ca-2.pem") := ⟨_, _, rfl, by decide⟩
  refine ⟨stored, config', h, hlookup, (collectWSTLSFiles_sound ?_ h).1⟩
  intro r₁ r₂ d hv₁ hv₂ heq h
  have hlength := congrArg List.length heq
  rw [toLower_of_isASCII (wsTLSFileNameIsValid_iff.mp hv₁).1.isASCII,
    toLower_of_isASCII (wsTLSFileNameIsValid_iff.mp hv₂).1.isASCII, List.length_map,
    List.length_map] at hlength
  dsimp only at h ⊢
  rwa [← hlength]

end WireGuardWindows.Conf
