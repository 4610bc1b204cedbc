import WireGuardWindows.Conf.Runtime
import WireGuardWindows.Conf.StoredConfigs
import WireGuardWindows.Conf.WSTLSSaved

/-!
# What the programs of the store change

The programs that replace or delete the TLS files of a tunnel change only the directories of
that tunnel (`Inside`). What is left half way is stated for every point of failure: a file of
the new configuration has its old or its new contents (`Replacing`). After a run to the end
the directory holds exactly the new files (`SavedFiles`).
-/

namespace WireGuardWindows.Conf
open GoStd Strings Unicode Systems Loops

theorem toLower_configFile (name : Str) :
    toLower (name ++ configFileSuffix) = toLower name ++ configFileSuffix :=
  toLower_append_ascii name (by decide)

theorem toLower_configFile_inj {m n : Str} :
    toLower (m ++ configFileSuffix) = toLower (n ++ configFileSuffix) ↔ toLower m = toLower n := by
  rw [toLower_configFile, toLower_configFile, List.append_left_inj]

theorem toLower_tlsFile_inj {r f : Str} :
    toLower (r ++ wsTLSEncryptedSuffix) = toLower (f ++ wsTLSEncryptedSuffix) ↔
    toLower r = toLower f := by
  rw [toLower_append_ascii r (by decide), toLower_append_ascii f (by decide), List.append_left_inj]

theorem toLower_randomFileName_ne {s suffix : Str} (randBytes : Bytes)
    (hsuffix : isASCII suffix = true) (hne : suffix.map lowerByte ≠ [])
    (hlast : (suffix.map lowerByte).getLast? ≠ some 0x70) :
    toLower (s ++ suffix) ≠ toLower (randomFileName randBytes) := by
  intro heq
  have hends := congrArg List.getLast? heq
  rw [toLower_append_ascii s hsuffix, randomFileName, toLower_append_ascii _ (by decide),
    List.getLast?_append_of_ne_nil _ hne, List.getLast?_append_of_ne_nil _ (by decide)] at hends
  exact hlast (hends.trans (by decide))

def Inside (tunnelName : Str) (dir : List Str) : Prop :=
  (tlsDirectory tunnelName).map toLower <+: dir ∨ InRuntime tunnelName dir

def Within (base : Files) (tunnelName : Str) (files : Files) : Prop :=
  ∀ dir, ¬ Inside tunnelName dir → files dir = base dir

section
variable {base files : Files} {n : Str}

theorem not_inside_configurations (n : Str) : ¬ Inside n (configurationsDirectory.map toLower) := by
  rintro (h | h)
  · have hlength := h.length_le
    simp [configurationsDirectory, tlsDirectory] at hlength
  · have hlength := h.length_le
    simp [configurationsDirectory, runtimeDirectory] at hlength

theorem not_inside_tls {m : Str} (h : toLower m ≠ toLower n) :
    ¬ Inside n ((tlsDirectory m).map toLower) := by
  rintro (hbelow | hbelow)
  · have heq := hbelow.eq_of_length (by simp [tlsDirectory])
    simp only [tlsDirectory, List.map_cons, List.map_nil, List.cons.injEq, and_true,
      true_and] at heq
    exact h heq.symm
  · have hlength := hbelow.length_le
    simp [tlsDirectory, runtimeDirectory] at hlength

theorem tlsDirectory_key {m : Str} (h : toLower m = toLower n) :
    (tlsDirectory m).map toLower = (tlsDirectory n).map toLower := by
  simp [tlsDirectory, h]

theorem Within.refl (base : Files) (n : Str) : Within base n base := fun _ _ => rfl

theorem Within.put (h : Within base n files) (file : File Str Bytes) :
    Within base n (files.put toLower (tlsDirectory n) file) := by
  intro d hd
  rw [Tree.put_of_ne]
  · exact h d hd
  · rintro rfl
    exact hd (.inl (List.prefix_refl _))

theorem Within.remove (h : Within base n files) (name : Str) :
    Within base n (files.remove toLower (tlsDirectory n) name) := by
  intro d hd
  rw [Tree.remove_of_ne]
  · exact h d hd
  · rintro rfl
    exact hd (.inl (List.prefix_refl _))

theorem Within.configs (h : Within base n files) (name : Str) :
    files.read toLower configurationsDirectory name =
      base.read toLower configurationsDirectory name :=
  Tree.read_congr (h _ (not_inside_configurations n)) name

theorem Within.sameTunnel (h : Within base n files) {m : Str} (hm : toLower m ≠ toLower n) :
    SameTunnel base files m :=
  ⟨h.configs _, h _ (not_inside_tls hm)⟩

end

theorem ofExcept_ends {α : Type} (P : World → Prop) (r : Except Error α) :
    Ends P (Store.ofExcept r) (fun a w => r = .ok a ∧ P w) (fun _ => P) := by
  cases r with
  | ok a => exact .pure fun _ h => ⟨rfl, h⟩
  | error e => exact .throw fun _ h => h

/-- A removal that fails may have removed some of the files. -/
theorem removeAll_ends (P : Files → Prop) (dir : List Str) :
    Ends (fun w => P w.files) (Store.removeAll dir)
      (fun _ w => ∃ files, P files ∧ w.files = files.removeAll toLower dir)
      (fun _ w => ∃ files, P files ∧ ∀ d, ¬ dir.map toLower <+: d → w.files d = files d) := by
  intro w hw
  rw [Store.removeAll]
  cases w.removals.headD .succeeds with
  | succeeds => exact ⟨w.files, hw, rfl⟩
  | fails kept => exact ⟨w.files, hw, fun d hd => if_neg hd⟩

theorem Within.of_removed {base files files' : Files} {n : Str} {dir : List Str}
    (h : Within base n files) (hdir : ∀ d, dir.map toLower <+: d → Inside n d)
    (hsame : ∀ d, ¬ dir.map toLower <+: d → files' d = files d) :
    Within base n files' :=
  fun d hd => (hsame d fun hbelow => hd (hdir d hbelow)).trans (h d hd)

theorem removeWSTLSRuntimeFiles_ends (base : Files) (n : Str) :
    Ends (fun w => Within base n w.files ∧ w.files ((tlsDirectory n).map toLower) = [])
      (removeWSTLSRuntimeFiles n) (fun _ w => Within base n w.files ∧
        w.files ((tlsDirectory n).map toLower) = [])
      (fun _ w => Within base n w.files) := by
  have hsteady : Steady fun w => Within base n w.files ∧ w.files ((tlsDirectory n).map toLower) =
    [] := fun _ _ h => h
  have hroot :=
    (wsTLSDirectory_ends hsteady false [wsTLSRuntimeDirectoryName, n]).mono (fun _ h => h)
    (fun _ _ h => h) fun _ w h => h.1
  refine hroot.bind fun dir => .and_left ?_
  rintro rfl
  refine (removeAll_ends (fun files => Within base n files ∧
    files ((tlsDirectory n).map toLower) = []) _).mono
    (fun _ h => h) ?_ ?_
  · rintro _ w ⟨files, ⟨hwithin, hempty⟩, heq⟩
    rw [heq]
    refine ⟨hwithin.of_removed (fun d hd => .inr hd) fun d hd => Tree.removeAll_of_not hd, ?_⟩
    rw [Tree.removeAll_of_not]
    · exact hempty
    · exact not_inRuntime n n
  · rintro _ w ⟨files, ⟨hwithin, -⟩, hsame⟩
    exact hwithin.of_removed (fun d hd => .inr hd) hsame

theorem deleteWSTLSFiles_ends (base : Files) (n : Str) :
    Ends (fun w => Within base n w.files) (deleteWSTLSFiles n)
      (fun _ w => Within base n w.files ∧ w.files ((tlsDirectory n).map toLower) = [])
      (fun _ w => Within base n w.files) := by
  refine .ite (fun _ => .throw fun _ h => h) fun _ => ?_
  have hsteady : Steady fun w => Within base n w.files := fun _ _ h => h
  refine (wsTLSDirectory_ends hsteady false [n]).bind fun dir => .and_left ?_
  rintro rfl
  have hremove : Ends (fun w => Within base n w.files) (Store.removeAll (tlsDirectory n))
      (fun _ w => Within base n w.files ∧ w.files ((tlsDirectory n).map toLower) = [])
      (fun _ w => Within base n w.files) := by
    refine (removeAll_ends (Within base n) _).mono (fun _ h => h) ?_ ?_
    · rintro _ w ⟨files, hwithin, heq⟩
      rw [heq]
      exact ⟨hwithin.of_removed (fun d hd => .inl hd) fun d hd => Tree.removeAll_of_not hd,
        Tree.removeAll_inside (List.prefix_refl _)⟩
    · rintro _ w ⟨files, hwithin, hsame⟩
      exact hwithin.of_removed (fun d hd => .inl hd) hsame
  exact hremove.bind fun _ => removeWSTLSRuntimeFiles_ends base n

section
variable (dpapi : Dpapi) (n : Str) (stored : List (Str × Bytes))

def encryptedFile (f : Str × Bytes) : File Str Bytes :=
  ⟨f.1 ++ wsTLSEncryptedSuffix, dpapi.protect f.2 (wsTLSDescription n f.1)⟩

/-- The files are being replaced: each has its old contents or its new ones. -/
structure Replacing (base files : Files) : Prop where
  within : Within base n files
  kept : ∀ f ∈ stored,
    files.read toLower (tlsDirectory n) (f.1 ++ wsTLSEncryptedSuffix) =
        base.read toLower (tlsDirectory n) (f.1 ++ wsTLSEncryptedSuffix) ∨
      files.read toLower (tlsDirectory n) (f.1 ++ wsTLSEncryptedSuffix) =
        some (encryptedFile dpapi n f).contents

structure FileWritten (files : Files) (f : Str × Bytes) : Prop where
  read : files.read toLower (tlsDirectory n) (f.1 ++ wsTLSEncryptedSuffix) =
    some (encryptedFile dpapi n f).contents
  spelled : ∀ e ∈ files.entries toLower (tlsDirectory n),
    toLower e.name = toLower (f.1 ++ wsTLSEncryptedSuffix) → e.name = f.1 ++ wsTLSEncryptedSuffix

structure SavedFiles (files : Files) : Prop where
  listed : ∀ e ∈ files.entries toLower (tlsDirectory n), ∃ f ∈ stored, e.name =
    f.1 ++ wsTLSEncryptedSuffix
  contents : ∀ f ∈ stored,
    files.read toLower (tlsDirectory n) (f.1 ++ wsTLSEncryptedSuffix) =
      some (encryptedFile dpapi n f).contents

structure StoredNames : Prop where
  valid : ∀ f ∈ stored, wsTLSFileNameIsValid f.1 = true
  distinct : (stored.map (toLower ·.1)).Nodup

end

section
variable {dpapi : Dpapi} {n : Str} {stored : List (Str × Bytes)} {base files : Files}

theorem StoredNames.eq_of_key (h : StoredNames stored) {f g : Str × Bytes} (hf : f ∈ stored)
    (hg : g ∈ stored)
    (heq : toLower (f.1 ++ wsTLSEncryptedSuffix) = toLower (g.1 ++ wsTLSEncryptedSuffix)) : f = g :=
  List.inj_on_of_nodup_map h.distinct hf hg (toLower_tlsFile_inj.mp heq)

theorem tlsFile_temp_ne (name : Str) (temp : TempFile) :
    toLower (name ++ wsTLSEncryptedSuffix) ≠ toLower temp.file.name :=
  toLower_randomFileName_ne _ (by decide) (by decide) (by decide)

theorem Replacing.refl (dpapi : Dpapi) (n : Str) (stored : List (Str × Bytes)) (base : Files) :
    Replacing dpapi n stored base base := ⟨Within.refl base n, fun _ _ => .inl rfl⟩

theorem Replacing.put (h : Replacing dpapi n stored base files) (hnames : StoredNames stored)
    {f : Str × Bytes} (hf : f ∈ stored) :
    Replacing dpapi n stored base
      (files.put toLower (tlsDirectory n) (encryptedFile dpapi n f)) := by
  refine ⟨h.within.put _, fun g hg => ?_⟩
  by_cases hkey : toLower (g.1 ++ wsTLSEncryptedSuffix) = toLower (f.1 ++ wsTLSEncryptedSuffix)
  · rw [hnames.eq_of_key hg hf hkey]
    exact .inr (Tree.read_put_self (encryptedFile dpapi n f))
  · rw [Tree.read_put_other hkey]
    exact h.kept g hg

theorem Replacing.putTemp (h : Replacing dpapi n stored base files) (temp : TempFile) :
    Replacing dpapi n stored base (files.put toLower (tlsDirectory n) temp.file) := by
  refine ⟨h.within.put _, fun g hg => ?_⟩
  rw [Tree.read_put_other (tlsFile_temp_ne g.1 temp)]
  exact h.kept g hg

theorem Replacing.remove (h : Replacing dpapi n stored base files) {entry : Str}
    (hentry : ∀ f ∈ stored, toLower (f.1 ++ wsTLSEncryptedSuffix) ≠ toLower entry) :
    Replacing dpapi n stored base (files.remove toLower (tlsDirectory n) entry) := by
  refine ⟨h.within.remove _, fun g hg => ?_⟩
  rw [Tree.read_remove_other (hentry g hg)]
  exact h.kept g hg

theorem FileWritten.put_self (f : Str × Bytes) :
    FileWritten dpapi n (files.put toLower (tlsDirectory n) (encryptedFile dpapi n f)) f := by
  refine ⟨Tree.read_put_self (encryptedFile dpapi n f), fun e he hkey => ?_⟩
  rcases Tree.mem_entries_put.mp he with ⟨-, hne⟩ | rfl
  · exact absurd hkey hne
  · rfl

theorem FileWritten.put_other {f g : Str × Bytes} (h : FileWritten dpapi n files g)
    (hkey : toLower (g.1 ++ wsTLSEncryptedSuffix) ≠ toLower (f.1 ++ wsTLSEncryptedSuffix)) :
    FileWritten dpapi n (files.put toLower (tlsDirectory n) (encryptedFile dpapi n f)) g := by
  refine ⟨(Tree.read_put_other hkey).trans h.read, fun e he heq => ?_⟩
  rcases Tree.mem_entries_put.mp he with ⟨he, -⟩ | rfl
  · exact h.spelled e he heq
  · exact absurd heq.symm hkey

theorem FileWritten.remove {g : Str × Bytes} (h : FileWritten dpapi n files g) {entry : Str}
    (hentry : toLower (g.1 ++ wsTLSEncryptedSuffix) ≠ toLower entry) :
    FileWritten dpapi n (files.remove toLower (tlsDirectory n) entry) g :=
  ⟨(Tree.read_remove_other hentry).trans h.read, fun e he =>
    h.spelled e (Tree.mem_entries_remove.mp he).1⟩

theorem saveWSTLSFile_ends (hnames : StoredNames stored) {done rest : List (Str × Bytes)}
    {f : Str × Bytes} (heq : stored = done ++ f :: rest) :
    Ends (fun w => Replacing dpapi n stored base w.files ∧ ∀ g ∈ done,
      FileWritten dpapi n w.files g)
      (saveWSTLSFile dpapi n (tlsDirectory n) f)
      (fun _ w => Replacing dpapi n stored base w.files ∧ ∀ g ∈ done ++ [f],
        FileWritten dpapi n w.files g)
      (fun _ w => Replacing dpapi n stored base w.files) := by
  have hf : f ∈ stored := by simp [heq]
  have hsteady : Steady fun w => Replacing dpapi n stored base w.files ∧
      ∀ g ∈ done, FileWritten dpapi n w.files g :=
    fun _ _ h => h
  refine .ite (fun hno => absurd (hnames.valid f hf) hno) fun _ => ?_
  have hencrypt : Ends (fun w => Replacing dpapi n stored base w.files ∧ ∀ g ∈ done,
    FileWritten dpapi n w.files g)
      (encrypt dpapi f.2 (wsTLSDescription n f.1))
      (fun encrypted w => encrypted = (encryptedFile dpapi n f).contents ∧
        Replacing dpapi n stored base w.files ∧ ∀ g ∈ done, FileWritten dpapi n w.files g)
      (fun _ w => Replacing dpapi n stored base w.files) :=
    ((system_ends hsteady).mono (fun _ h => h) (fun _ _ h => h) fun _ _ h => h.1).bind fun _ =>
      .pure fun _ h => ⟨rfl, h⟩
  refine hencrypt.bind fun encrypted => .and_left ?_
  rintro rfl
  refine (writeLockedDownFile_ends hsteady _ _ true _).mono (fun _ h => h) ?_ ?_
  · rintro _ w ⟨before, ⟨hreplacing, hwritten⟩, -, hput⟩
    have hput' : w.files = before.put toLower (tlsDirectory n) (encryptedFile dpapi n f) := hput
    rw [hput']
    refine ⟨hreplacing.put hnames hf, fun g hg => ?_⟩
    rcases List.mem_append.mp hg with hdone | hlast
    · refine (hwritten g hdone).put_other fun hkey => ?_
      have hg' : g ∈ stored := by simp [heq, hdone]
      obtain rfl := hnames.eq_of_key hg' hf hkey
      have hnodup := (heq ▸ hnames.distinct).of_map
      exact (List.nodup_append.mp hnodup).2.2 g hdone g List.mem_cons_self rfl
    · rw [List.mem_singleton.mp hlast]
      exact FileWritten.put_self f
  · rintro _ w (⟨hreplacing, -⟩ | ⟨before, leftover, ⟨hreplacing, -⟩, hput⟩)
    · exact hreplacing
    · rw [hput]
      exact hreplacing.putTemp leftover

theorem keepsEntry_iff {entry : Str} :
    keepsEntry stored entry = true ↔ ∃ f ∈ stored, entry = f.1 ++ wsTLSEncryptedSuffix := by
  rw [keepsEntry, Bool.and_eq_true, List.isSuffixOf_iff_suffix]
  constructor
  · rintro ⟨⟨name, rfl⟩, hlookup⟩
    rw [trimSuffix_append] at hlookup
    obtain ⟨data, hdata⟩ := Option.isSome_iff_exists.mp hlookup
    exact ⟨(name, data), Map.mem_of_lookup hdata, rfl⟩
  · rintro ⟨f, hf, rfl⟩
    rw [trimSuffix_append]
    refine ⟨List.suffix_append _ _, ?_⟩
    rw [List.lookup_isSome_iff]
    exact ⟨f, hf, by simp⟩

structure Clearing (dpapi : Dpapi) (n : Str) (stored : List (Str × Bytes)) (base : Files)
    (listing done : List Str) (files : Files) : Prop where
  replacing : Replacing dpapi n stored base files
  written : ∀ f ∈ stored, FileWritten dpapi n files f
  listed : ∀ e ∈ files.entries toLower (tlsDirectory n), e.name ∈ listing
  cleared : ∀ e ∈ files.entries toLower (tlsDirectory n), e.name ∈ done →
    keepsEntry stored e.name = true

theorem remove_ends {P : World → Prop} (hP : Steady P) (dir : List Str) (name : Str) :
    Ends P (Store.remove dir name)
      (fun _ w => ∃ files, P { w with files := files } ∧
        (∃ f ∈ files.entries toLower dir, toLower f.name = toLower name) ∧
        w.files = files.remove toLower dir name) (fun _ => P) := by
  refine (system_ends hP).bind fun _ => ?_
  intro w hw
  simp only [bind, EStateM.bind, get, getThe, MonadStateOf.get, EStateM.get]
  cases hread : w.files.read toLower dir name with
  | none => exact hw
  | some contents => exact ⟨w.files, hw, Tree.read_isSome.mp (by rw [hread]; rfl), rfl⟩

theorem readDir_ends {P : World → Prop} (hP : Steady P) (dir : List Str) :
    Ends P (Store.readDir dir)
      (fun listing w => (∀ name, name ∈ listing ↔ ∃ e ∈ w.files.entries toLower dir,
        e.name = name) ∧ P w) (fun _ => P) := by
  refine (system_ends hP).bind fun _ => ?_
  intro w hw
  refine ⟨fun name => ?_, hw⟩
  rw [Sort.mem_slice, List.mem_map]

theorem clearEntry_ends {listing done : List Str} {entry : Str}
    (hspelled : ∀ f ∈ stored, toLower entry = toLower (f.1 ++ wsTLSEncryptedSuffix) →
      entry = f.1 ++ wsTLSEncryptedSuffix) :
    Ends (fun w => Clearing dpapi n stored base listing done w.files)
      (if keepsEntry stored entry then return () else Store.remove (tlsDirectory n) entry)
      (fun _ w => Clearing dpapi n stored base listing (done ++ [entry]) w.files)
      (fun _ w => Replacing dpapi n stored base w.files) := by
  refine .ite (fun hkept => .pure fun w hw =>
    ⟨hw.replacing, hw.written, hw.listed, fun e he hdone => ?_⟩) fun hother => ?_
  · rcases List.mem_append.mp hdone with hdone | hlast
    · exact hw.cleared e he hdone
    · rw [List.mem_singleton.mp hlast]
      exact hkept
  · have hsteady : Steady fun w => Clearing dpapi n stored base listing done w.files :=
      fun _ _ h => h
    have hkey : ∀ f ∈ stored, toLower (f.1 ++ wsTLSEncryptedSuffix) ≠ toLower entry :=
      fun f hf heq => hother (keepsEntry_iff.mpr ⟨f, hf, hspelled f hf heq.symm⟩)
    refine (remove_ends hsteady _ entry).mono (fun _ h => h) ?_ fun _ w hw => hw.replacing
    rintro _ w ⟨files, hw, -, heq⟩
    rw [heq]
    refine ⟨hw.replacing.remove hkey, fun f hf => (hw.written f hf).remove (hkey f hf), fun e he =>
      ?_, fun e he hdone => ?_⟩
    · exact hw.listed e (Tree.mem_entries_remove.mp he).1
    · obtain ⟨he, hne⟩ := Tree.mem_entries_remove.mp he
      rcases List.mem_append.mp hdone with hdone | hlast
      · exact hw.cleared e he hdone
      · exact absurd (congrArg toLower (List.mem_singleton.mp hlast)) hne

theorem saveWSTLSFiles_ends (hnames : StoredNames stored) :
    Ends (fun w => w.files = base) (saveWSTLSFiles dpapi n stored)
      (fun _ w => Replacing dpapi n stored base w.files ∧ SavedFiles dpapi n stored w.files)
      (fun _ w => Replacing dpapi n stored base w.files) := by
  have hstart : ∀ w : World, w.files = base → Replacing dpapi n stored base w.files := by
    rintro w rfl
    exact Replacing.refl dpapi n stored w.files
  refine .ite (fun _ => .throw hstart) fun _ => .ite (fun hnil => ?_) fun _ => ?_
  · have hreplacing (files : Files) (hwithin : Within base n files) : Replacing dpapi n
        stored base files :=
      ⟨hwithin, fun f hf => absurd hf (hnil ▸ List.not_mem_nil)⟩
    refine (deleteWSTLSFiles_ends base n).mono (fun w hw => (hstart w hw).within) ?_ fun _ w hw =>
      hreplacing _ hw
    rintro _ w ⟨hwithin, hempty⟩
    refine ⟨hreplacing _ hwithin, fun e he => ?_, fun f hf => absurd hf (hnil ▸ List.not_mem_nil)⟩
    rw [Tree.entries, hempty] at he
    exact absurd he List.not_mem_nil
  have hsteady : Steady fun w => Replacing dpapi n stored base w.files := fun _ _ h => h
  have hdirectory :=
    (wsTLSDirectory_ends hsteady true [n]).mono hstart (fun _ _ h => h) fun _ _ h => h
  refine hdirectory.bind fun dir => .and_left ?_
  rintro rfl
  have hwrite :=
    (Ends.forM_done fun done f rest heq =>
      @saveWSTLSFile_ends dpapi n stored base hnames done rest f heq).mono
    (fun w (hw : Replacing dpapi n stored base w.files) =>
      ⟨hw, fun _ hf => absurd hf List.not_mem_nil⟩) (fun _ _ h => h) fun _ _ h => h
  refine hwrite.bind fun _ => ?_
  have hsteady' : Steady fun w => Replacing dpapi n stored base w.files ∧
      ∀ f ∈ stored, FileWritten dpapi n w.files f :=
    fun _ _ h => h
  refine ((readDir_ends hsteady' (tlsDirectory n)).mono (fun _ h => h) (fun _ _ h => h) fun _ _ h =>
    h.1).bind
    fun listing => ?_
  rintro w ⟨hlisting, hreplacing, hwritten⟩
  have hclear := Ends.forM_done (l := listing) fun done entry rest heq =>
    @clearEntry_ends dpapi n stored base listing done entry fun f hf hkey => by
      obtain ⟨e, he, hname⟩ := (hlisting entry).mp (by simp [heq])
      exact hname ▸ (hwritten f hf).spelled e he (hname ▸ hkey)
  refine (hclear.mono (fun _ h => h) ?_ fun _ _ h => h) w
    ⟨hreplacing, hwritten, fun e he => (hlisting e.name).mpr ⟨e, he, rfl⟩,
      fun _ _ hmem => absurd hmem List.not_mem_nil⟩
  rintro _ w' hdone
  refine ⟨hdone.replacing, fun e he => ?_, fun f hf => (hdone.written f hf).read⟩
  exact keepsEntry_iff.mp (hdone.cleared e he (hdone.listed e he))

theorem Gives.forM {α : Type} {f : α → Store PUnit} {P : Files → Prop} {l : List α}
    (h : ∀ a ∈ l, ∀ files, P files → ∃ files', Gives (f a) files () files' ∧ P files')
    (hP : P files) :
    ∃ files', Gives (l.forM f) files () files' ∧ P files' := by
  induction l generalizing files with
  | nil => exact ⟨files, .pure () files, hP⟩
  | cons a l ih =>
    obtain ⟨files₁, hfirst, hP₁⟩ := h a List.mem_cons_self files hP
    obtain ⟨files₂, hrest, hP₂⟩ := ih (fun b hb => h b (List.mem_cons_of_mem a hb)) hP₁
    exact ⟨files₂, hfirst.bind hrest, hP₂⟩

theorem saveWSTLSFile_gives {f : Str × Bytes} (hf : wsTLSFileNameIsValid f.1 = true)
    (files : Files) :
    Gives (saveWSTLSFile dpapi n (tlsDirectory n) f) files ()
      (files.put toLower (tlsDirectory n) (encryptedFile dpapi n f)) := by
  rw [saveWSTLSFile, if_neg (not_not.mpr hf)]
  exact (Gives.encrypt dpapi f.2 _ files).bind (Gives.write _ _ _ files)

theorem clear_gives {listing : List Str} (hkeys : (listing.map toLower).Nodup)
    (hread : ∀ e ∈ listing, (files.read toLower (tlsDirectory n) e).isSome) :
    ∃ files', Gives (listing.forM fun entry =>
      if keepsEntry stored entry then return () else Store.remove (tlsDirectory n) entry)
        files () files' ∧ (files.Distinct toLower → files'.Distinct toLower) := by
  induction listing generalizing files with
  | nil => exact ⟨files, .pure () files, fun h => h⟩
  | cons entry listing ih =>
    rw [List.map_cons, List.nodup_cons] at hkeys
    by_cases hkept : keepsEntry stored entry = true
    · obtain ⟨files', hrest, hdistinct⟩ := ih hkeys.2 fun e he =>
        hread e (List.mem_cons_of_mem entry he)
      refine ⟨files', Gives.bind (a := ()) ?_ hrest, hdistinct⟩
      dsimp only
      rw [if_pos hkept]
      exact .pure () files
    · obtain ⟨contents, hcontents⟩ := Option.isSome_iff_exists.mp (hread entry List.mem_cons_self)
      -- the other entries have other keys, so they are still there
      obtain ⟨files', hrest, hdistinct⟩ := @ih (files.remove toLower (tlsDirectory n) entry) hkeys.2
        fun e he => by
        have hne : toLower e ≠ toLower entry := fun heq => hkeys.1 (heq ▸ List.mem_map_of_mem he)
        rw [Tree.read_remove_other hne]
        exact hread e (List.mem_cons_of_mem entry he)
      refine ⟨files', Gives.bind (a := ()) ?_ hrest, fun h => hdistinct (h.remove _ _)⟩
      dsimp only
      rw [if_neg hkept]
      exact Gives.remove hcontents

theorem deleteWSTLSFiles_gives (hvalid : tunnelNameIsValid n = true) (files : Files) :
    Gives (deleteWSTLSFiles n) files ()
      ((files.removeAll toLower (tlsDirectory n)).removeAll toLower (runtimeDirectory n)) := by
  rw [deleteWSTLSFiles, if_neg (not_not.mpr hvalid)]
  refine (Gives.wsTLSDirectory false [n] files).bind ((Gives.removeAll _ files).bind ?_)
  exact (Gives.wsTLSDirectory false _ _).bind (Gives.removeAll _ _)

theorem saveWSTLSFiles_gives (hnames : StoredNames stored) (hvalid : tunnelNameIsValid n = true)
    (hdistinct : files.Distinct toLower) :
    ∃ files', Gives (saveWSTLSFiles dpapi n stored) files () files' ∧ files'.Distinct toLower := by
  rw [saveWSTLSFiles, if_neg (not_not.mpr hvalid)]
  by_cases hnil : stored = []
  · rw [if_pos hnil]
    exact ⟨_, deleteWSTLSFiles_gives hvalid files, (hdistinct.removeAll _).removeAll _⟩
  · rw [if_neg hnil]
    obtain ⟨files₁, hwritten, hdistinct₁⟩ :=
      @Gives.forM files _ (saveWSTLSFile dpapi n (tlsDirectory n))
      (fun files => files.Distinct toLower) stored (fun f hf before hbefore =>
        ⟨_, saveWSTLSFile_gives (hnames.valid f hf) before, hbefore.put _ _⟩) hdistinct
    have hperm :=
      Sort.slice_perm bytesLess ((files₁.entries toLower (tlsDirectory n)).map File.name)
    have hkeys : ((Sort.slice bytesLess ((files₁.entries toLower (tlsDirectory n)).map
        File.name)).map toLower).Nodup := by
      rw [(hperm.map toLower).nodup_iff, List.map_map]
      exact hdistinct₁ _
    obtain ⟨files₂, hcleared, hdistinct₂⟩ := @clear_gives n stored files₁ _ hkeys fun e he => by
      obtain ⟨f, hf, hname⟩ := List.mem_map.mp (hperm.mem_iff.mp he)
      exact Tree.read_isSome.mpr ⟨f, hf, congrArg toLower hname⟩
    refine ⟨files₂, (Gives.wsTLSDirectory true [n] files).bind ?_, hdistinct₂ hdistinct₁⟩
    exact hwritten.bind ((Gives.readDir _ files₁).bind hcleared)

theorem SameTunnel.refl (files : Files) (m : Str) : SameTunnel files files m := ⟨rfl, rfl⟩

theorem SameTunnel.trans {files' files'' : Files} {m : Str} (h : SameTunnel files files' m)
    (h' : SameTunnel files' files'' m) : SameTunnel files files'' m :=
  ⟨h'.config.trans h.config, h'.stored.trans h.stored⟩

theorem SameTunnel.symm {files' : Files} {m : Str} (h : SameTunnel files files' m) :
    SameTunnel files' files m :=
  ⟨h.config.symm, h.stored.symm⟩

theorem tls_ne_configurations (m : Str) :
    (tlsDirectory m).map toLower ≠ configurationsDirectory.map toLower := by
  intro heq
  simpa [tlsDirectory, configurationsDirectory] using congrArg List.length heq

theorem SameTunnel.put {file : File Str Bytes} {m : Str}
    (h : toLower (m ++ configFileSuffix) ≠ toLower file.name) :
    SameTunnel files (files.put toLower configurationsDirectory file) m :=
  ⟨Tree.read_put_other h, Tree.put_of_ne (tls_ne_configurations m)⟩

theorem SameTunnel.remove {name m : Str} (h : toLower (m ++ configFileSuffix) ≠ toLower name) :
    SameTunnel files (files.remove toLower configurationsDirectory name) m :=
  ⟨Tree.read_remove_other h, Tree.remove_of_ne (tls_ne_configurations m)⟩

theorem configFile_temp_ne (m : Str) (temp : TempFile) :
    toLower (m ++ configFileSuffix) ≠ toLower temp.file.name :=
  toLower_randomFileName_ne _ (by decide) (by decide) (by decide)

def encryptedConfig (dpapi : Dpapi) (c : Config) : File Str Bytes :=
  ⟨c.name ++ configFileSuffix, dpapi.protect c.toWgQuick c.name⟩

theorem save_ends (P : Files → Prop) (c : Config) (overwrite : Bool) :
    Ends (fun w => P w.files) (c.save dpapi overwrite)
      (fun _ w => tunnelNameIsValid c.name = true ∧ ∃ before, P before ∧
        (overwrite = false →
          before.read toLower configurationsDirectory (c.name ++ configFileSuffix) = none) ∧
        w.files = before.put toLower configurationsDirectory (encryptedConfig dpapi c))
      (fun _ w => P w.files ∨ ∃ before, ∃ temp : TempFile, P before ∧
        w.files = before.put toLower configurationsDirectory temp.file) := by
  have hsteady : Steady fun w => P w.files := fun _ _ h => h
  refine .ite (fun _ => .throw fun _ h => .inl h) fun hvalid => ?_
  have hsystem : Ends (fun w => P w.files) Store.system (fun _ w => P w.files)
      (fun _ w => P w.files ∨ ∃ before, ∃ temp : TempFile, P before ∧
        w.files = before.put toLower configurationsDirectory temp.file) :=
    (system_ends hsteady).mono (fun _ h => h) (fun _ _ h => h) fun _ _ h => .inl h
  have hdirectory : Ends (fun w => P w.files) tunnelConfigurationsDirectory
      (fun dir w => dir = configurationsDirectory ∧ P w.files)
      (fun _ w => P w.files ∨ ∃ before, ∃ temp : TempFile, P before ∧
        w.files = before.put toLower configurationsDirectory temp.file) :=
    hsystem.bind fun _ => .pure fun _ h => ⟨rfl, h⟩
  refine hdirectory.bind fun dir => .and_left ?_
  rintro rfl
  have hencrypt : Ends (fun w => P w.files) (encrypt dpapi c.toWgQuick c.name)
      (fun encrypted w => encrypted = dpapi.protect c.toWgQuick c.name ∧ P w.files)
      (fun _ w => P w.files ∨ ∃ before, ∃ temp : TempFile, P before ∧
        w.files = before.put toLower configurationsDirectory temp.file) :=
    hsystem.bind fun _ => .pure fun _ h => ⟨rfl, h⟩
  refine hencrypt.bind fun encrypted => .and_left ?_
  rintro rfl
  exact (writeLockedDownFile_ends hsteady _ _ overwrite _).mono (fun _ h => h)
    (fun _ w h => ⟨not_not.mp hvalid, h⟩) fun _ w h => h

theorem deleteName_ends (base : Files) (n : Str) :
    Ends (fun w => w.files = base) (deleteName n)
      (fun _ w => tunnelNameIsValid n = true ∧
        Within (base.remove toLower configurationsDirectory (n ++ configFileSuffix)) n w.files ∧
        w.files ((tlsDirectory n).map toLower) = [])
      (fun _ w => w.files = base ∨ (tunnelNameIsValid n = true ∧
        Within (base.remove toLower configurationsDirectory (n ++ configFileSuffix)) n
          w.files)) := by
  have hsteady : Steady fun w => w.files = base := fun _ _ h => h
  refine .ite (fun _ => .throw fun _ h => .inl h) fun hvalid => ?_
  have hdirectory : Ends (fun w => w.files = base) tunnelConfigurationsDirectory
      (fun dir w => dir = configurationsDirectory ∧ w.files = base)
      (fun _ w => w.files = base) :=
    (system_ends hsteady).bind fun _ => .pure fun _ h => ⟨rfl, h⟩
  refine (hdirectory.mono (fun _ h => h) (fun _ _ h => h) fun _ _ h => .inl h).bind fun dir =>
    .and_left ?_
  rintro rfl
  refine ((remove_ends hsteady configurationsDirectory (n ++ configFileSuffix)).mono
    (fun _ h => h) ?_ fun _ _ h => .inl h).bind fun _ =>
      ((deleteWSTLSFiles_ends _ n).mono (fun _ h => h)
        (fun _ _ h => ⟨not_not.mp hvalid, h⟩) fun _ _ h => .inr ⟨not_not.mp hvalid, h⟩)
  rintro _ w ⟨before, rfl, -, heq⟩
  rw [heq]
  exact Within.refl _ n

theorem save_gives {c : Config} (hname : tunnelNameIsValid c.name = true) (files : Files) :
    Gives (c.save dpapi true) files ()
      (files.put toLower configurationsDirectory (encryptedConfig dpapi c)) := by
  rw [Config.save, if_neg (not_not.mpr hname)]
  refine (Gives.tunnelConfigurationsDirectory files).bind ?_
  exact (Gives.encrypt dpapi _ _ files).bind (Gives.write _ _ _ files)

theorem removeConfig_gives {contents : Bytes}
    (hread : files.read toLower configurationsDirectory (n ++ configFileSuffix) = some contents) :
    Gives (tunnelConfigurationsDirectory >>= fun dir => Store.remove dir (n ++ configFileSuffix))
      files ()
      (files.remove toLower configurationsDirectory (n ++ configFileSuffix)) :=
  (Gives.tunnelConfigurationsDirectory files).bind (Gives.remove hread)

theorem deleteName_eq (hname : tunnelNameIsValid n = true) :
    deleteName n = (tunnelConfigurationsDirectory >>= fun dir =>
      Store.remove dir (n ++ configFileSuffix)) >>=
      fun _ => deleteWSTLSFiles n := by
  rw [deleteName, if_neg (not_not.mpr hname), bind_assoc]

end

end WireGuardWindows.Conf
