import WireGuardWindows.Manager.Requests

/-!
# Requests that fail

`Create` replaces the TLS files of a tunnel before its configuration, and editing a tunnel
deletes it before it is created again. What a failure in between leaves is stated for every
point of failure, and a run that fails at the worst point shows that nothing less will do.
-/

namespace WireGuardWindows.Manager
open GoStd Strings Unicode Systems Loops Conf

variable {dpapi : Dpapi} {urlParse : Str → Option URL} {decoders : List (Str → Option Str)}
  {elevatedToken : Nat} {c : Config} {files : Files}

theorem mapM_pairs_eq_ok {ε α β : Type} {g : α → Except ε β} {l : List α} {r : List (α × β)} :
    (l.mapM fun a => do return (a, ← g a)) = .ok r ↔ r.map Prod.fst = l ∧
    ∀ f ∈ r, g f.1 = .ok f.2 := by
  induction l generalizing r with
  | nil =>
    constructor
    · intro h
      cases h
      exact ⟨rfl, fun f hf => absurd hf List.not_mem_nil⟩
    · rintro ⟨hmap, -⟩
      rw [List.map_eq_nil_iff.mp hmap]
      rfl
  | cons a l ih =>
    rw [List.mapM_cons]
    constructor
    · intro h
      obtain ⟨p, hp, h⟩ := bind_eq_ok h
      obtain ⟨b, hb, hp⟩ := bind_eq_ok hp
      obtain ⟨ps, hps, h⟩ := bind_eq_ok h
      cases hp
      cases h
      obtain ⟨hmap, hall⟩ := ih.mp hps
      refine ⟨congrArg (a :: ·) hmap, fun f hf => ?_⟩
      rcases List.mem_cons.mp hf with rfl | hf
      · exact hb
      · exact hall f hf
    · rintro ⟨hmap, hall⟩
      obtain ⟨f, ps, rfl, rfl, hps⟩ := List.map_eq_cons_iff.mp hmap
      have hrest := ih.mpr ⟨hps, fun g hg => hall g (List.mem_cons_of_mem f hg)⟩
      rw [hall f List.mem_cons_self, hrest]
      rfl

theorem loads_iff_stored {m : Str} {old : Config} :
    Loads dpapi urlParse decoders files m old ↔
    ∃ parsed, storedConfig dpapi urlParse decoders files m = .ok parsed ∧
      old = { parsed with wsTLSFiles := old.wsTLSFiles } ∧ old.wsTLSFiles.map Prod.fst =
        parsed.wsTLSStoredFileNames ∧
      ∀ f ∈ old.wsTLSFiles, storedTLSFile dpapi files m f.1 = .ok f.2 := by
  rw [loads_iff]
  constructor
  · rintro ⟨parsed, hparsed, hfiles⟩
    obtain ⟨stored, hstored, hold⟩ := bind_eq_ok hfiles
    cases hold
    obtain ⟨hmap, hall⟩ := mapM_pairs_eq_ok.mp hstored
    rw [storedConfig_name hparsed] at hall
    exact ⟨parsed, hparsed, rfl, hmap, hall⟩
  · rintro ⟨parsed, hparsed, hold, hmap, hall⟩
    refine ⟨parsed, hparsed, ?_⟩
    rw [← storedConfig_name hparsed] at hall
    rw [storedWSTLSFiles, mapM_pairs_eq_ok.mpr ⟨hmap, hall⟩, hold]
    rfl

theorem Loads.name_valid {m : Str} {old : Config} (h : Loads dpapi urlParse decoders files m old) :
    tunnelNameIsValid m = true := by
  obtain ⟨parsed, hparsed, -⟩ := loads_iff_stored.mp h
  exact (storedConfig_eq_ok.mp hparsed).1

theorem Loads.same {m : Str} {old : Config} {files' : Files}
    (h : Loads dpapi urlParse decoders files m old) (hsame : SameTunnel files files' m) :
    Loads dpapi urlParse decoders files' m old :=
  hsame.answer_eq.2.trans h

/-- The first call of the program fails, and it has changed nothing. -/
def FailsFirst {α : Type} (x : Store α) : Prop :=
  ∀ files rest removals, x ⟨files, .fails none :: rest, removals⟩ =
    .error .system ⟨files, rest, removals⟩

theorem FailsFirst.system : FailsFirst Store.system := fun _ _ _ => rfl

theorem FailsFirst.bind {α β : Type} {x : Store α} (h : FailsFirst x) (f : α → Store β) :
    FailsFirst (x >>= f) := by
  intro files rest removals
  change EStateM.bind x f _ = _
  rw [EStateM.bind, h]

theorem Gives.run {α : Type} {x : Store α} {a : α} {files' : Files} (h : Gives x files a files') :
    ∃ calls, ∀ rest, x ⟨files, calls ++ rest, []⟩ = .ok a ⟨files', rest, []⟩ := by
  obtain ⟨n, m, h⟩ := h
  refine ⟨List.replicate n .succeeds, fun rest => ?_⟩
  have hcalls : (List.replicate n Outcome.succeeds ++ rest).take n = List.replicate n .succeeds :=
    List.take_left' List.length_replicate
  rw [h _ _ ?_ ?_, List.drop_left' List.length_replicate, List.drop_nil]
  · intro o ho
    rw [hcalls] at ho
    exact List.eq_of_mem_replicate ho
  · intro r hr
    rw [List.take_nil] at hr
    exact absurd hr List.not_mem_nil

theorem Gives.then_fails {α β : Type} {x : Store α} {f : α → Store β} {a : α} {files' : Files}
    (h : Gives x files a files') (hf : FailsFirst (f a)) :
    ∃ calls, (x >>= f) ⟨files, calls, []⟩ = .error .system ⟨files', [], []⟩ := by
  obtain ⟨calls, hrun⟩ := Gives.run h
  refine ⟨calls ++ [.fails none], ?_⟩
  change EStateM.bind x f _ = _
  rw [EStateM.bind, hrun]
  exact hf _ _ _

/-- The TLS files of the tunnel that is replaced are all created again as they are. -/
def KeepsTLSFiles (dpapi : Dpapi) (urlParse : Str → Option URL) (decoders : List (Str → Option Str))
    (files : Files) (c : Config) : Prop :=
  ∀ m old, Loads dpapi urlParse decoders files m old → toLower m = toLower c.name →
    ∀ f ∈ old.wsTLSFiles, m = c.name ∧ f ∈ c.wsTLSFiles

theorem Unfinished.config {base : Files} (h : Unfinished dpapi c base files) (m : Str) :
    files.read toLower configurationsDirectory (m ++ configFileSuffix) =
      base.read toLower configurationsDirectory (m ++ configFileSuffix) := by
  obtain ⟨before, hreplacing, hfiles⟩ := h.left
  rcases hfiles with rfl | ⟨temp, rfl⟩
  · exact hreplacing.within.configs _
  · rw [Tree.read_put_other (configFile_temp_ne m temp)]
    exact hreplacing.within.configs _

theorem Unfinished.tlsFile {base : Files} (h : Unfinished dpapi c base files) {f : Str × Bytes}
    (hf : f ∈ c.wsTLSFiles) (hloaded : storedTLSFile dpapi base c.name f.1 = .ok f.2) :
    storedTLSFile dpapi files c.name f.1 = .ok f.2 := by
  obtain ⟨before, hreplacing, hfiles⟩ := h.left
  have hread : files.read toLower (tlsDirectory c.name) (f.1 ++ wsTLSEncryptedSuffix) =
      before.read toLower (tlsDirectory c.name) (f.1 ++ wsTLSEncryptedSuffix) := by
    rcases hfiles with rfl | ⟨temp, rfl⟩
    · rfl
    · exact Tree.read_congr (Tree.put_of_ne (tls_ne_configurations c.name)) _
  obtain ⟨hname, hvalid, encrypted, hbase, hplain⟩ := storedTLSFile_eq_ok.mp hloaded
  refine storedTLSFile_eq_ok.mpr ⟨hname, hvalid, ?_⟩
  rcases hreplacing.kept f hf with hkept | hnew
  · exact ⟨encrypted, hread.trans (hkept.trans hbase), hplain⟩
  · exact ⟨_, hread.trans hnew, dpapi.unprotect_protect _ _⟩

theorem Unfinished.loads {base : Files} (h : Unfinished dpapi c base files)
    (hkeeps : KeepsTLSFiles dpapi urlParse decoders base c) {m : Str} {old : Config}
    (hloads : Loads dpapi urlParse decoders base m old) :
    Loads dpapi urlParse decoders files m old := by
  have hm := Loads.name_valid hloads
  by_cases hname : toLower m = toLower c.name
  · obtain ⟨parsed, hparsed, hold, hnames, hstored⟩ := loads_iff_stored.mp hloads
    refine loads_iff_stored.mpr ⟨parsed, (storedConfig_congr (h.config m)).trans hparsed,
      hold, hnames, ?_⟩
    intro f hf
    obtain ⟨rfl, hmem⟩ := hkeeps m old hloads hname f hf
    exact h.tlsFile hmem (hstored f hf)
  · exact Loads.same hloads (h.others m hm hname)

theorem slash_notMem_name {name : Str} (h : tunnelNameIsValid name = true) : slash ∉ name := by
  rw [tunnelNameIsValid, Bool.and_eq_true, Bool.and_eq_true, Bool.and_eq_true] at h
  obtain ⟨-, ⟨hbytes, -⟩, -⟩ := h
  intro hmem
  exact absurd (List.all_eq_true.mp hbytes slash hmem) (by decide)

theorem wsTLSDescription_inj {m n r s : Str} (hm : tunnelNameIsValid m = true)
    (hn : tunnelNameIsValid n = true) (h : wsTLSDescription m r = wsTLSDescription n s) :
    m = n ∧ r = s := by
  have hcut := congrArg (cut · slash) h
  simp only [wsTLSDescription] at hcut
  rw [cut_append (slash_notMem_name hm), cut_append (slash_notMem_name hn)] at hcut
  exact ⟨congrArg Prod.fst hcut, congrArg (·.2.1) hcut⟩

theorem SavedFiles.of_loads (h : SavedFiles dpapi c.name c.wsTLSFiles files)
    (hc : tunnelNameIsValid c.name = true) {m : Str} {old : Config}
    (hloads : Loads dpapi urlParse decoders files m old) (hname : toLower m = toLower c.name)
    {f : Str × Bytes} (hf : f ∈ old.wsTLSFiles) : m = c.name ∧ f ∈ c.wsTLSFiles := by
  obtain ⟨parsed, -, -, -, hstored⟩ := loads_iff_stored.mp hloads
  obtain ⟨hm, hvalid, encrypted, hread, hplain⟩ := storedTLSFile_eq_ok.mp (hstored f hf)
  have hdir : files.read toLower (tlsDirectory c.name) (f.1 ++ wsTLSEncryptedSuffix) =
      some encrypted := by
    rw [← hread, Tree.read, Tree.read, Tree.entries, Tree.entries, ← tlsDirectory_key hname]
    rfl
  obtain ⟨e, he, hkey, -⟩ := Tree.read_eq_some hdir
  obtain ⟨g, hg, hgname⟩ := h.listed e he
  have hcontents := h.contents g hg
  rw [← hgname, Tree.read_of_key hkey, hdir] at hcontents
  rw [Option.some.inj hcontents, encryptedFile, dpapi.unprotect_protect, Option.some.injEq,
    Prod.mk.injEq] at hplain
  obtain ⟨hname, hfile⟩ := wsTLSDescription_inj hc hm hplain.2
  exact ⟨hname.symm, (Prod.ext hfile hplain.1 : g = f) ▸ hg⟩

theorem FailsFirst.save (hname : tunnelNameIsValid c.name = true) (overwrite : Bool) :
    FailsFirst (c.save dpapi overwrite) := by
  rw [Config.save, if_neg (not_not.mpr hname)]
  exact (FailsFirst.system.bind _).bind _

theorem create_stopped (helevated : elevatedToken ≠ 0) (hvalid : ValidWSTLSFiles c)
    (hname : tunnelNameIsValid c.name = true) (hdistinct : files.Distinct toLower) :
    ∃ calls files', create dpapi elevatedToken c ⟨files, calls, []⟩ =
      .error .system ⟨files', [], []⟩ ∧
      SavedFiles dpapi c.name c.wsTLSFiles files' := by
  have hnames := storedNames_of_valid hvalid
  obtain ⟨files', hgives, -⟩ :=
    @saveWSTLSFiles_gives dpapi c.name c.wsTLSFiles files hnames hname hdistinct
  have hsave : FailsFirst (c.save dpapi true >>= fun _ => pure c.name) :=
    (FailsFirst.save hname true).bind _
  obtain ⟨calls, hstopped⟩ :=
    Gives.then_fails (f := fun _ => c.save dpapi true >>= fun _ => pure c.name) hgives hsave
  refine ⟨calls, files', ?_, ?_⟩
  · rw [create, if_neg helevated, validateWSTLSFiles_eq_ok.mpr hvalid]
    exact hstopped
  · exact ((saveWSTLSFiles_ends hnames).ok rfl hgives.ok).2

theorem create_refused {w w' : World} {e : StoreError}
    (h : elevatedToken = 0 ∨ c.validateWSTLSFiles ≠ .ok () ∨ tunnelNameIsValid c.name = false)
    (hfailed : create dpapi elevatedToken c w = .error e w') : w' = w := by
  rw [create] at hfailed
  by_cases helevated : elevatedToken = 0
  · rw [if_pos helevated] at hfailed
    cases hfailed
    rfl
  · rw [if_neg helevated] at hfailed
    cases hvalid : c.validateWSTLSFiles with
    | error e' =>
      rw [hvalid] at hfailed
      cases hfailed
      rfl
    | ok u =>
      have hname : ¬ tunnelNameIsValid c.name = true := by
        rw [(h.resolve_left helevated).resolve_left (not_not.mpr hvalid)]
        exact Bool.false_ne_true
      rw [hvalid, saveWSTLSFiles, if_pos hname] at hfailed
      cases hfailed
      rfl

/-- A `Create` that fails leaves every tunnel as it was, wherever it fails, exactly where it would
have been refused, or the TLS files of the tunnel it replaces are created again as they are. -/
theorem create_failed_iff (hdistinct : files.Distinct toLower) :
    (∀ w e w', w.files = files → create dpapi elevatedToken c w = .error e w' → ∀ m old,
      Loads dpapi urlParse decoders files m old → Loads dpapi urlParse decoders w'.files m old) ↔
      elevatedToken = 0 ∨ c.validateWSTLSFiles ≠ .ok () ∨ tunnelNameIsValid c.name = false ∨
        KeepsTLSFiles dpapi urlParse decoders files c := by
  constructor
  · intro hkept
    by_cases helevated : elevatedToken = 0
    · exact .inl helevated
    by_cases hvalid : c.validateWSTLSFiles = .ok ()
    swap
    · exact .inr (.inl hvalid)
    cases hname : tunnelNameIsValid c.name with
    | false => exact .inr (.inr (.inl rfl))
    | true =>
      refine .inr (.inr (.inr ?_))
      obtain ⟨calls, files', hstopped, hsaved⟩ :=
        @create_stopped dpapi elevatedToken c files helevated (validateWSTLSFiles_eq_ok.mp hvalid)
          hname hdistinct
      intro m old hloads hsame f hf
      exact SavedFiles.of_loads hsaved hname (hkept _ _ _ rfl hstopped m old hloads) hsame hf
  · rintro hcond w e w' rfl hfailed m old hloads
    rcases hcond with helevated | hinvalid | hname | hkeeps
    · exact create_refused (.inl helevated) hfailed ▸ hloads
    · exact create_refused (.inr (.inl hinvalid)) hfailed ▸ hloads
    · exact create_refused (.inr (.inr hname)) hfailed ▸ hloads
    · exact ((create_ends w.files c).error rfl hfailed).loads hkeeps hloads

def LoadsAs (dpapi : Dpapi) (urlParse : Str → Option URL) (decoders : List (Str → Option Str))
    (files : Files) (c : Config) : Prop :=
  ∃ stored, Loads dpapi urlParse decoders files c.name { c with wsTLSFiles := stored } ∧
  stored.Perm c.wsTLSFiles

theorem Holds.loadsAs (h : Holds dpapi files c) (hc : Collected urlParse c) :
    LoadsAs dpapi urlParse decoders files c := by
  obtain ⟨hcanonical, hvalid, -⟩ := hc.canonical
  obtain ⟨hconfig, stored, hstored, hperm⟩ :=
    @Holds.loaded dpapi urlParse decoders c files h hcanonical hvalid
  refine ⟨stored, ?_, hperm⟩
  rw [(loadFromName_answers c.name).answer_eq] at hconfig
  rw [(loadWSTLSFiles_answers _).answer_eq] at hstored
  exact loads_iff.mpr ⟨_, hconfig, hstored⟩

def oneTunnel (c : Config) (f : Str × Bytes) : Files := fun dir =>
  if dir = configurationsDirectory.map toLower then [encryptedConfig labelled c]
  else if dir = (tlsDirectory c.name).map toLower then [encryptedFile labelled c.name f]
  else []

theorem oneTunnel_distinct (c : Config) (f : Str × Bytes) : (oneTunnel c f).Distinct toLower := by
  intro dir
  rw [oneTunnel]
  split_ifs <;> simp

theorem oneTunnel_holds {f : Str × Bytes} (h : c.wsTLSFiles = [f]) :
    Holds labelled (oneTunnel c f) c := by
  have hconfigs : oneTunnel c f (configurationsDirectory.map toLower) =
    [encryptedConfig labelled c] := if_pos rfl
  have htls : oneTunnel c f ((tlsDirectory c.name).map toLower) =
      [encryptedFile labelled c.name f] := by
    rw [oneTunnel, if_neg (tls_ne_configurations c.name), if_pos rfl]
  refine ⟨?_, ?_, ?_⟩
  · rw [Tree.read, Tree.entries, hconfigs]
    simp [encryptedConfig]
  · intro e he
    rw [Tree.entries, htls, List.mem_singleton] at he
    exact ⟨f, by simp [h], by rw [he]; rfl⟩
  · intro g hg
    rw [h, List.mem_singleton] at hg
    rw [hg, Tree.read, Tree.entries, htls]
    simp [encryptedFile]

theorem create_failed_iff_oneTunnel :
    ∃ c, Collected (fun _ => none) c ∧ (oneTunnel c (str "ca.pem", [7])).Distinct toLower ∧
    ((∀ w e w', w.files = oneTunnel c (str "ca.pem", [7]) → create labelled 1 c w =
      .error e w' → ∀ m old, Loads labelled (fun _ => none) []
        (oneTunnel c (str "ca.pem", [7])) m old →
        Loads labelled (fun _ => none) [] w'.files m old) ↔
      1 = 0 ∨ c.validateWSTLSFiles ≠ .ok () ∨ tunnelNameIsValid c.name = false ∨
        KeepsTLSFiles labelled (fun _ => none) [] (oneTunnel c (str "ca.pem", [7])) c) := by
  obtain ⟨c, hc, -, -⟩ := createdText_collected (str "wg0") (by decide)
  exact ⟨c, hc, oneTunnel_distinct c _, create_failed_iff (oneTunnel_distinct c _)⟩

/-- The tunnel is replaced by one without TLS files, and `Save` fails. -/
theorem create_failed_loses : ∃ c calls w' old, Loads labelled (fun _ => none) []
    (oneTunnel c (str "ca.pem", [7])) (str "wg0") old ∧
    create labelled 1 { name := str "wg0" } ⟨oneTunnel c (str "ca.pem", [7]), calls, []⟩ =
      .error .system w' ∧
    ¬ Loads labelled (fun _ => none) [] w'.files (str "wg0") old := by
  obtain ⟨c, hc, hname, hfiles⟩ := createdText_collected (str "wg0") (by decide)
  obtain ⟨stored, hloads, hperm⟩ :=
    @Holds.loadsAs labelled (fun _ => none) [] c _ (oneTunnel_holds hfiles) hc
  have hvalid : ValidWSTLSFiles { name := str "wg0" } :=
    validateWSTLSFiles_eq_ok.mp (by decide +kernel)
  obtain ⟨calls, files', hstopped, hsaved⟩ :=
    @create_stopped labelled 1 { name := str "wg0" } _ (by decide) hvalid
    (by decide +kernel) (oneTunnel_distinct c (str "ca.pem", [7]))
  rw [hname] at hloads
  refine ⟨c, calls, _, _, hloads, hstopped, fun hagain => ?_⟩
  have hmem : (str "ca.pem", [7]) ∈ stored := hperm.mem_iff.mpr (by simp [hfiles])
  exact absurd (SavedFiles.of_loads hsaved (by decide +kernel) hagain rfl hmem).2 List.not_mem_nil

def succeeds {α : Type} (x : Store α) : Store Bool := fun w =>
  match x w with
  | .ok _ w' => .ok true w'
  | .error _ w' => .ok false w'

section
variable (dpapi : Dpapi) (urlParse : Str → Option URL) (decoders : List (Str → Option Str))
  (elevatedToken : Nat)

/-- What `Start` reads from the store: the configuration, and those of the tracked tunnels. -/
def startLoads (tracked : List Str) (tunnelName : Str) : Store Unit := do
  let _ ← loadFromName dpapi urlParse decoders tunnelName
  tracked.forM fun t => do
    let _ ← succeeds (loadFromName dpapi urlParse decoders t)
    return ()

/-- The goroutine of `onEditTunnel`; it gives whether `Delete` and `Create` succeeded. `State` and
`WaitForStop` do not look at the store; `start` is whether the tunnel was running before. -/
def onEditTunnel (start : Bool) (uninstalled : Uninstalled) (tracked : List Str) (tunnelName : Str)
    (config : Config) :
    Store (Bool × Bool) := do
  let deleted ← succeeds (delete dpapi urlParse decoders elevatedToken uninstalled tunnelName)
  let created ← succeeds (create dpapi elevatedToken config)
  if created && start then
    let _ ← succeeds (startLoads dpapi urlParse decoders tracked config.name)
    return (deleted, created)
  else return (deleted, created)

end

theorem succeeds_ends {α : Type} {P : World → Prop} {x : Store α} {Q : α → World → Prop}
    {E : StoreError → World → Prop} {R : Bool → World → Prop} (h : Ends P x Q E)
    (hok : ∀ a w, Q a w → R true w) (herror : ∀ e w, E e w → R false w)
    (F : StoreError → World → Prop) : Ends P (succeeds x) R F := by
  intro w hw
  have hend := h w hw
  rw [succeeds]
  cases hres : x w with
  | ok a w' =>
    rw [hres] at hend
    exact hok a w' hend
  | error e w' =>
    rw [hres] at hend
    exact herror e w' hend

theorem startLoads_ends (base : Files) (tracked : List Str) (n : Str) :
    Ends (fun w => w.files = base) (startLoads dpapi urlParse decoders tracked n)
      (fun _ w => w.files = base) (fun _ w => w.files = base) := by
  refine (loadFromName_ends base n).bind fun _ => .forM fun t _ => ?_
  exact (succeeds_ends (loadFromName_ends base t) (fun _ _ h => h) (fun _ _ h => h) _).bind fun _ =>
    .pure fun _ h => h

theorem Loads.unique {m n : Str} {old old' : Config} (h : Loads dpapi urlParse decoders files m old)
    (h' : Loads dpapi urlParse decoders files n old') (hname : toLower m = toLower n) :
    m = n ∧ old = old' := by
  obtain ⟨parsed, hparsed, -⟩ := loads_iff_stored.mp h
  obtain ⟨parsed', hparsed', -⟩ := loads_iff_stored.mp h'
  obtain ⟨hm, encrypted, text, hread, hplain, -⟩ := storedConfig_eq_ok.mp hparsed
  obtain ⟨hn, encrypted', text', hread', hplain', -⟩ := storedConfig_eq_ok.mp hparsed'
  rw [Tree.read_of_key (toLower_configFile_inj.mpr hname), hread', Option.some.injEq] at hread
  rw [← hread, hplain', Option.some.injEq, Prod.mk.injEq] at hplain
  obtain ⟨-, rfl⟩ := hplain
  exact ⟨rfl, Except.ok.inj (h.symm.trans h')⟩

theorem LoadsAs.keeps (h : LoadsAs dpapi urlParse decoders files c) :
    KeepsTLSFiles dpapi urlParse decoders files c := by
  obtain ⟨stored, hloads, hperm⟩ := h
  intro m old hold hname f hf
  obtain ⟨hm, hsame⟩ := Loads.unique hold hloads hname
  rw [hsame] at hf
  exact ⟨hm, hperm.mem_iff.mp hf⟩

theorem LoadsAs.same {files' : Files} (h : LoadsAs dpapi urlParse decoders files c)
    (hsame : SameTunnel files files' c.name) :
    LoadsAs dpapi urlParse decoders files' c := by
  obtain ⟨stored, hloads, hperm⟩ := h
  exact ⟨stored, Loads.same hloads hsame, hperm⟩

theorem Collected.name_valid (h : Collected urlParse c) : tunnelNameIsValid c.name = true :=
  h.canonical.1.name

theorem create_ok_loadsAs (hc : Collected urlParse c) {w w' : World} {name : Str}
    (h : create dpapi elevatedToken c w = .ok name w') :
    LoadsAs dpapi urlParse decoders w'.files c :=
  ((create_holds w.files c).ok rfl h).2.1.loadsAs hc

theorem create_error_loadsAs {w w' : World} {e : StoreError}
    (h : create dpapi elevatedToken c w = .error e w')
    (hbefore : LoadsAs dpapi urlParse decoders w.files c) :
    LoadsAs dpapi urlParse decoders w'.files c := by
  obtain ⟨stored, hloads, hperm⟩ := hbefore
  have hunfinished := (create_holds w.files c).error rfl h
  exact ⟨stored, hunfinished.loads (LoadsAs.keeps ⟨stored, hloads, hperm⟩) hloads, hperm⟩

theorem FailsFirst.create (helevated : elevatedToken ≠ 0) (hc : Collected urlParse c) :
    FailsFirst (create dpapi elevatedToken c) := by
  obtain ⟨hcanonical, hvalid, -⟩ := hc.canonical
  have hname : ¬ ¬ tunnelNameIsValid c.name = true := not_not.mpr hcanonical.name
  have hsave : FailsFirst (saveWSTLSFiles dpapi c.name c.wsTLSFiles) := by
    rw [saveWSTLSFiles, if_neg hname]
    by_cases hnil : c.wsTLSFiles = []
    · rw [if_pos hnil, deleteWSTLSFiles, if_neg hname]
      exact (FailsFirst.system.bind _).bind _
    · rw [if_neg hnil]
      exact (FailsFirst.system.bind _).bind _
  rw [Manager.create, if_neg helevated, validateWSTLSFiles_eq_ok.mpr hvalid]
  exact hsave.bind _

theorem not_loads_of_removed {t : Str}
    (h : files.read toLower configurationsDirectory (t ++ configFileSuffix) = none) {m : Str}
    (hname : toLower m = toLower t) (old : Config) :
    ¬ Loads dpapi urlParse decoders files m old := by
  intro hloads
  obtain ⟨parsed, hparsed, -⟩ := loads_iff_stored.mp hloads
  obtain ⟨hm, encrypted, text, hread, -⟩ := storedConfig_eq_ok.mp hparsed
  have hnone : files.read toLower configurationsDirectory (m ++ configFileSuffix) = none :=
    (Tree.read_of_key (toLower_configFile_inj.mpr hname)).trans h
  exact absurd (hnone.symm.trans hread) (by simp)

section
variable {t : Str} {old : Config}

theorem succeeds_ok {α : Type} {x : Store α} {a : α} {w w' : World} (h : x w = .ok a w') :
    succeeds x w = .ok true w' := by
  rw [succeeds, h]

theorem succeeds_error {α : Type} {x : Store α} {e : StoreError} {w w' : World}
    (h : x w = .error e w') :
    succeeds x w = .ok false w' := by
  rw [succeeds, h]

/-- `Delete` removes the configuration; it succeeds, or fails when the TLS files are to be
removed. -/
theorem delete_removes (helevated : elevatedToken ≠ 0)
    (hloads : Loads dpapi urlParse decoders files t old) (deleted : Bool) :
    ∃ calls files', (∀ rest, succeeds (delete dpapi urlParse decoders elevatedToken .done t) ⟨files,
      calls ++ rest, []⟩ =
        .ok deleted ⟨files', rest, []⟩) ∧
      files'.read toLower configurationsDirectory (t ++ configFileSuffix) = none ∧
      Others files t files' := by
  have hname := Loads.name_valid hloads
  obtain ⟨parsed, hparsed, -⟩ := loads_iff_stored.mp hloads
  obtain ⟨-, encrypted, -, hread, -⟩ := storedConfig_eq_ok.mp hparsed
  cases deleted with
  | true =>
    obtain ⟨files', hgives⟩ := @delete_gives dpapi urlParse decoders elevatedToken files helevated
      t hname encrypted hread
    obtain ⟨calls, hrun⟩ := Gives.run hgives
    obtain ⟨-, hgone, hothers⟩ := (delete_gone files .done t).ok rfl hgives.ok
    exact ⟨calls, _, fun rest => succeeds_ok (hrun rest), hgone.config, hothers⟩
  | false =>
    have hfails : FailsFirst (deleteWSTLSFiles t) := by
      rw [deleteWSTLSFiles, if_neg (not_not.mpr hname)]
      exact (FailsFirst.system.bind _).bind _
    obtain ⟨calls, hrun⟩ := Gives.run (removeConfig_gives (n := t) hread)
    refine ⟨calls ++ [.fails none], _, fun rest => ?_, Tree.read_remove_self rfl,
      Within.others (Within.refl _ t)⟩
    apply succeeds_error (e := .system)
    rw [delete_done helevated hname, List.append_assoc, List.singleton_append]
    change EStateM.bind _ _ _ = _
    rw [EStateM.bind, hrun]
    exact hfails _ _ _

theorem onEditTunnel_run {uninstalled : Uninstalled} {deleted : Bool} {w w₁ w₂ : World}
    (hdelete : succeeds (delete dpapi urlParse decoders elevatedToken uninstalled t) w =
      .ok deleted w₁)
    (hcreate : succeeds (create dpapi elevatedToken c) w₁ = .ok false w₂) :
    onEditTunnel dpapi urlParse decoders elevatedToken false uninstalled [] t c w = .ok
      (deleted, false) w₂ := by
  rw [onEditTunnel]
  change EStateM.bind _ _ _ = _
  rw [EStateM.bind, hdelete]
  change EStateM.bind _ _ _ = _
  rw [EStateM.bind, hcreate]
  rfl

theorem of_succeeds {α : Type} {x : Store α} {b : Bool} {w w' : World}
    (h : succeeds x w = .ok b w') :
    (∃ a, x w = .ok a w' ∧ b = true) ∨ ∃ e, x w = .error e w' ∧ b = false := by
  rw [succeeds] at h
  cases hx : x w with
  | ok a w₁ =>
    rw [hx] at h
    cases h
    exact .inl ⟨a, rfl, rfl⟩
  | error e w₁ =>
    rw [hx] at h
    cases h
    exact .inr ⟨e, rfl, rfl⟩

theorem bind_ok {α β : Type} {x : Store α} {f : α → Store β} {b : β} {w w' : World}
    (h : (x >>= f) w = .ok b w') :
    ∃ a w₁, x w = .ok a w₁ ∧ f a w₁ = .ok b w' := by
  change EStateM.bind x f w = _ at h
  rw [EStateM.bind] at h
  cases hx : x w with
  | ok a w₁ =>
    rw [hx] at h
    exact ⟨a, w₁, rfl, h⟩
  | error e w₁ =>
    rw [hx] at h
    cases h

theorem onEditTunnel_inv {start : Bool} {uninstalled : Uninstalled} {tracked : List Str}
    {deleted created : Bool} {w w' : World}
    (h : onEditTunnel dpapi urlParse decoders elevatedToken start uninstalled tracked t c w =
      .ok (deleted, created) w') :
    ∃ w₁ w₂, succeeds (delete dpapi urlParse decoders elevatedToken uninstalled t) w =
      .ok deleted w₁ ∧
      succeeds (create dpapi elevatedToken c) w₁ = .ok created w₂ ∧ w'.files = w₂.files := by
  obtain ⟨deleted', w₁, hdelete, h⟩ := bind_ok h
  obtain ⟨created', w₂, hcreate, h⟩ := bind_ok h
  refine ⟨w₁, w₂, ?_⟩
  by_cases hstart : (created' && start) = true
  · rw [if_pos hstart] at h
    obtain ⟨started, w₃, hstarted, h⟩ := bind_ok h
    cases h
    refine ⟨hdelete, hcreate, ?_⟩
    exact (succeeds_ends (R := fun _ w =>
      w.files = w₂.files) (startLoads_ends w₂.files tracked c.name) (fun _ _ h => h)
      (fun _ _ h => h) fun _ _ => True).ok rfl hstarted
  · rw [if_neg hstart] at h
    cases h
    exact ⟨hdelete, hcreate, rfl⟩

/-- Editing a tunnel keeps the old configuration or the new one, for every way to fail that gives
these outcomes of `Delete` and `Create`, exactly where the requests are refused to the session, or
`Create` succeeds, or the new configuration was already stored under another name. -/
theorem onEditTunnel_keeps_iff (hold : Loads dpapi urlParse decoders files t old)
    (hc : Collected urlParse c) (deleted created : Bool) :
    (∀ start uninstalled tracked calls removals w',
      onEditTunnel dpapi urlParse decoders elevatedToken start uninstalled tracked t c ⟨files,
        calls, removals⟩ =
        .ok (deleted, created) w' →
      Loads dpapi urlParse decoders w'.files t old ∨ LoadsAs dpapi urlParse decoders w'.files c) ↔
      elevatedToken = 0 ∨ created = true ∨
        (toLower c.name ≠ toLower t ∧ LoadsAs dpapi urlParse decoders files c) := by
  have hname := Collected.name_valid hc
  constructor
  · intro hkept
    by_cases helevated : elevatedToken = 0
    · exact .inl helevated
    cases created with
    | true => exact .inr (.inl rfl)
    | false =>
      obtain ⟨calls, files', hdelete, hremoved, hothers⟩ :=
        @delete_removes dpapi urlParse decoders elevatedToken files t old helevated hold deleted
      have hcreate : succeeds (create dpapi elevatedToken c) ⟨files', [.fails none], []⟩ =
          .ok false ⟨files', [], []⟩ :=
        succeeds_error (FailsFirst.create helevated hc files' [] [])
      have hlost := hkept false .done [] _ _ _ (onEditTunnel_run (hdelete [.fails none]) hcreate)
      have hnew := hlost.resolve_left (not_loads_of_removed hremoved rfl old)
      have hother : toLower c.name ≠ toLower t := by
        obtain ⟨stored, hloads, -⟩ := hnew
        exact fun heq => not_loads_of_removed hremoved heq _ hloads
      exact .inr (.inr ⟨hother, hnew.same (hothers c.name hname hother).symm⟩)
  · rintro hcond start uninstalled tracked calls removals w' hrun
    obtain ⟨w₁, w₂, hdelete, hcreate, hfiles⟩ := onEditTunnel_inv hrun
    rw [hfiles]
    have hothers : Others files t w₁.files := by
      rcases of_succeeds hdelete with ⟨_, hok, -⟩ | ⟨_, herror, -⟩
      · exact ((delete_gone files uninstalled t).ok rfl hok).2.2
      · exact (delete_gone files uninstalled t).error rfl herror
    rcases of_succeeds hcreate with ⟨_, hok, -⟩ | ⟨_, herror, rfl⟩
    · exact .inr (create_ok_loadsAs hc hok)
    · rcases hcond with helevated | hcreated | ⟨hother, hstored⟩
      · have hunchanged : w₁ = ⟨files, calls, removals⟩ := by
          rw [succeeds, delete, if_pos helevated] at hdelete
          cases hdelete
          rfl
        rw [create_refused (.inl helevated) herror, hunchanged]
        exact .inl hold
      · cases hcreated
      · exact .inr (create_error_loadsAs herror (hstored.same (hothers c.name hname hother)))

end

theorem oneTunnel_loads : ∃ c old, Collected (fun _ => none) c ∧ c.name = str "wg0" ∧
    Loads labelled (fun _ => none) [] (oneTunnel c (str "ca.pem", [7])) (str "wg0") old := by
  obtain ⟨c, hc, hname, hfiles⟩ := createdText_collected (str "wg0") (by decide)
  obtain ⟨stored, hloads, -⟩ :=
    @Holds.loadsAs labelled (fun _ => none) [] c _ (oneTunnel_holds hfiles) hc
  exact ⟨c, _, hc, hname, hname ▸ hloads⟩

theorem onEditTunnel_keeps_iff_oneTunnel : ∃ c old, Collected (fun _ => none) c ∧
    Loads labelled (fun _ => none) [] (oneTunnel c (str "ca.pem", [7])) (str "wg0") old ∧
    ((∀ start uninstalled tracked calls removals w',
      onEditTunnel labelled (fun _ => none) [] 1 start uninstalled tracked (str "wg0") c
          ⟨oneTunnel c (str "ca.pem", [7]), calls, removals⟩ = .ok (true, true) w' →
        Loads labelled (fun _ => none) [] w'.files (str "wg0") old ∨
        LoadsAs labelled (fun _ => none) [] w'.files c) ↔
      1 = 0 ∨ true = true ∨ (toLower c.name ≠ toLower (str "wg0") ∧
        LoadsAs labelled (fun _ => none) [] (oneTunnel c (str "ca.pem", [7])) c)) := by
  obtain ⟨c, old, hc, -, hloads⟩ := oneTunnel_loads
  exact ⟨c, old, hc, hloads, onEditTunnel_keeps_iff hloads hc true true⟩

theorem onEditTunnel_loses : ∃ c old calls w', Collected (fun _ => none) c ∧
    Loads labelled (fun _ => none) [] (oneTunnel c (str "ca.pem", [7])) (str "wg0") old ∧
    onEditTunnel labelled (fun _ => none) [] 1 false .done [] (str "wg0") c
      ⟨oneTunnel c (str "ca.pem", [7]), calls, []⟩ = .ok (true, false) w' ∧
    ¬ Loads labelled (fun _ => none) [] w'.files (str "wg0") old ∧ ¬ LoadsAs labelled
      (fun _ => none) [] w'.files c := by
  obtain ⟨c, old, hc, hname, hloads⟩ := oneTunnel_loads
  obtain ⟨calls, files', hdelete, hremoved, -⟩ :=
    @delete_removes labelled (fun _ => none) [] 1 _ (str "wg0") old (by decide) hloads true
  have hcreate : succeeds (create labelled 1 c) ⟨files', [.fails none], []⟩ =
      .ok false ⟨files', [], []⟩ :=
    succeeds_error (FailsFirst.create (by decide) hc files' [] [])
  have hlost := @not_loads_of_removed labelled (fun _ => none) [] files' (str "wg0") hremoved
  refine ⟨c, old, _, _, hc, hloads, onEditTunnel_run (hdelete [.fails none]) hcreate, ?_, ?_⟩
  · exact hlost rfl old
  · rintro ⟨stored, hagain, -⟩
    exact hlost (congrArg toLower hname) _ hagain

end WireGuardWindows.Manager
