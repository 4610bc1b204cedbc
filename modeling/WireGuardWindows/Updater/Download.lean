import WireGuardWindows.Updater.Release

/-!
# Downloading and running an installer

`downloader.go`. Everything outside is in `Outside`: what the server sends and in which
pieces, how much of each piece the disk takes, and where a call fails. What the hash has
seen and what the file holds are separate lists, because the bytes go to the hash while they
are read and to the file only afterwards.
-/

namespace WireGuardWindows.Updater
open GoStd Strings Loops

structure Stream where
  pieces : List (List UInt8)
  failure : Option String

structure WriteResult where
  n : Nat
  err : Option String

structure Outside where
  alreadyInProgress : Bool
  userToken : Nat
  /-- The error of `elevate.DoAsSystem`, asked only without a user token. -/
  asSystem : Option String
  official : Bool
  /-- The first error of opening the session, the connection and the list. -/
  listFailure : Option String
  list : Stream
  /-- The order in which the entries of a map are visited. -/
  visit : FileList → FileList
  visit_perm : ∀ files, (visit files).Perm files
  tempFileFailure : Option String
  installer : Str → Except String Stream
  /-- The result of each write to the file. -/
  writes : List WriteResult

/-- The reads through an `io.LimitReader`: a piece is cut where the limit is reached, and the
stream ends there. -/
def limited : Nat → List (List UInt8) → List (List UInt8)
  | _, [] => []
  | limit, piece :: rest =>
    if limit = 0 then [] else piece.take limit :: limited (limit - piece.length) rest

def limitedFailure (limit : Nat) (s : Stream) : Option String :=
  if limit ≤ s.pieces.flatten.length then none else s.failure

def readAll (limit : Nat) (s : Stream) : Except String Str :=
  match limitedFailure limit s with
  | some err => throw err
  | none => return (limited limit s.pieces).flatten

structure Copy where
  file : List UInt8 := []
  hashed : List UInt8 := []

/-- `io.Copy` from the tee to the file: each piece is hashed, then written; a short write or
an error ends the loop. -/
def copyLoop : List (List UInt8) → List WriteResult → Copy → Except String Copy
  | [], _, st => .ok st
  | piece :: rest, writes, st =>
    if piece = [] then copyLoop rest writes st
    else match writes with
      | [] => throw "invalid write result"
      | w :: writes =>
        let st : Copy := { file := st.file ++ piece.take w.n, hashed := st.hashed ++ piece }
        match w.err with
        | some err => throw err
        | none =>
          if piece.length < w.n then throw "invalid write result"
          else if w.n ≠ piece.length then throw "short write"
          else copyLoop rest writes st

section
variable (verify : List UInt8 → Str → List UInt8 → Bool) (sum256 : List UInt8 → List UInt8)
  (arch : Arch) (us : Str)

def checkForUpdate (o : Outside) : Except String (Option UpdateFound) := do
  if !o.official then throw "Build is not official, so updates are disabled"
  else match o.listFailure with
    | some err => throw err
    | none =>
      let fileList ← readAll (1024 * 512) o.list
      let files ← readFileList verify fileList
      findCandidate arch us (o.visit files)

def download (o : Outside) : Except String (List UInt8) := do
  match ← checkForUpdate verify arch us o with
  | none => throw "No update was found"
  | some update =>
    match o.tempFileFailure with
    | some err => throw err
    | none =>
      let response ← o.installer update.name
      let copied ← copyLoop (limited (1024 * 1024 * 100) response.pieces) o.writes {}
      match limitedFailure (1024 * 1024 * 100) response with
      | some err => throw err
      | none =>
        if sum256 copied.hashed ≠ update.sum then throw "The downloaded update has the wrong hash"
        else return copied.file

/-- The file that is handed to `runMsi`, if it is reached. -/
def downloadVerifyAndExecute (o : Outside) : Except String (List UInt8) :=
  if o.alreadyInProgress then throw "An update is already in progress"
  else if o.userToken = 0 then
    match o.asSystem with
    | some err => throw err
    | none => download verify sum256 arch us o
  else download verify sum256 arch us o

end

theorem copyLoop_file {pieces : List (List UInt8)} {writes : List WriteResult} {st st' : Copy}
    (hst : st.file = st.hashed) (h : copyLoop pieces writes st = .ok st') :
    st'.file = st'.hashed := by
  induction pieces generalizing writes st with
  | nil =>
    cases h
    exact hst
  | cons piece rest ih =>
    unfold copyLoop at h
    split_ifs at h with hempty
    · exact ih hst h
    · split at h
      · cases h
      · rename_i w writes
        dsimp only at h
        split at h
        · cases h
        · split_ifs at h with hlong hshort
          rw [not_not] at hshort
          refine ih ?_ h
          rw [hshort, List.take_length, hst]

/-- Whatever the server sends: a file that is run is the one whose hash stands in a list
under the release key, under the name of an installer of this architecture and of a version
that is newer than the running one. -/
theorem only_signed_newer_is_run {verify : List UInt8 → Str → List UInt8 → Bool}
    {sum256 : List UInt8 → List UInt8} {arch : Arch} {us : Str} {o : Outside} {file : List UInt8}
    (h : downloadVerifyAndExecute verify sum256 arch us o = .ok file) :
    ∃ list third v, readAll (1024 * 512) o.list = .ok list ∧ Signed verify list third ∧
      Listed third (msiArchPrefix arch ++ v ++ msiSuffix, sum256 file) ∧ Newer us v := by
  have hdownload : download verify sum256 arch us o = .ok file := by
    rw [downloadVerifyAndExecute] at h
    split_ifs at h
    · split at h
      · cases h
      · exact h
    · exact h
  obtain ⟨found, hfound, h⟩ := bind_eq_ok hdownload
  rw [checkForUpdate] at hfound
  split_ifs at hfound
  split at hfound
  · cases hfound
  obtain ⟨list, hlist, hfound⟩ := bind_eq_ok hfound
  obtain ⟨files, hfiles, hfound⟩ := bind_eq_ok hfound
  obtain ⟨third, hsigned, hlisted⟩ := readFileList_signed hfiles
  split at h
  · cases h
  rename_i update
  obtain ⟨hmem, v, hname, hnewer⟩ := findCandidate_newer hfound
  split at h
  · cases h
  obtain ⟨response, -, h⟩ := bind_eq_ok h
  obtain ⟨copied, hcopied, h⟩ := bind_eq_ok h
  split at h
  · cases h
  split_ifs at h with hsum
  cases h
  rw [not_not] at hsum
  refine ⟨list, third, v, hlist, hsigned, ?_, hnewer⟩
  have hentry := hlisted _ ((o.visit_perm files).mem_iff.mp hmem)
  rwa [hname, ← hsum, ← copyLoop_file rfl hcopied] at hentry

def sampleList : Str :=
  let keyID := (publicKeyBytes.toOption.getD []).take 10
  str "untrusted comment: sample\n" ++ Base64.encodeToString (keyID ++ List.replicate 64 0) ++
    newline :: List.replicate 64 0x30 ++ str "  wireguard-amd64-1.10.msi\n"

def sampleOutside : Outside where
  alreadyInProgress := false
  userToken := 1
  asSystem := none
  official := true
  listFailure := none
  list := ⟨[sampleList], none⟩
  visit := id
  visit_perm _ := .refl _
  tempFileFailure := none
  installer _ := .ok ⟨[[1, 2], [3]], none⟩
  writes := [⟨2, none⟩, ⟨1, none⟩]

theorem sample_is_run :
    downloadVerifyAndExecute (fun _ _ _ => true) (fun _ => List.replicate 32 0) .amd64
    versionNumber sampleOutside = .ok [1, 2, 3] := by
  decide +kernel

theorem only_signed_newer_is_run_sample : ∃ third v, Signed (fun _ _ _ => true) sampleList third ∧
    Listed third (msiArchPrefix .amd64 ++ v ++ msiSuffix, List.replicate 32 0) ∧
      Newer versionNumber v := by
  obtain ⟨list, third, v, hlist, hsigned, hlisted, hnewer⟩ := only_signed_newer_is_run sample_is_run
  have hread : readAll (1024 * 512) sampleOutside.list = .ok sampleList := by decide +kernel
  rw [hread] at hlist
  cases hlist
  exact ⟨third, v, hsigned, hlisted, hnewer⟩

end WireGuardWindows.Updater
