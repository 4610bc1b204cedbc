import WireGuardWindows.GoStd.Base64
import WireGuardWindows.GoStd.Hex
import WireGuardWindows.GoStd.Loops

/-!
# The signed list of installers

`signify.go` and `versions.go`: a list of hashes and file names under a signature of the
release key, and the choice of a file from it that is newer than the running version. The
signature scheme is a parameter. A Go map is visited in an order that changes from run to
run, so `findCandidate` gets the entries in the order of the visit.
-/

namespace WireGuardWindows.Updater
open GoStd Strings Strconv Loops

def releasePublicKeyBase64 : Str := str "RWRNqGKtBXftKTKPpBPGDMe8jHLnFQ0EdRy8Wg0apV6vTDFLAODD83G4"

inductive Arch
  | arm | arm64 | amd64 | x86
  deriving DecidableEq

def Arch.string : Arch → Str
  | .arm => str "arm"
  | .arm64 => str "arm64"
  | .amd64 => str "amd64"
  | .x86 => str "x86"

def msiArchPrefix (arch : Arch) : Str := str "wireguard-" ++ arch.string ++ str "-"
def msiSuffix : Str := str ".msi"

abbrev FileList := List (Str × List UInt8)

def FileList.insert (files : FileList) (name : Str) (sum : List UInt8) : FileList :=
  files.filter (·.1 ≠ name) ++ [(name, sum)]

def splitThree (input : Str) : Option (Str × Str × Str) :=
  match cut input newline with
  | (first, rest, true) =>
    match cut rest newline with
    | (second, third, true) => some (first, second, third)
    | _ => none
  | _ => none

def readFileLine (files : FileList) (line : Str) : Except String FileList :=
  match cutText (str "  ") line with
  | none => throw "File hash line has too few components"
  | some (first, second) =>
    match Hex.decodeString first with
    | .error _ => throw "File hash is invalid hex or incorrect number of bytes"
    | .ok maybeHash =>
      if maybeHash.length ≠ 32 then throw "File hash is invalid hex or incorrect number of bytes"
      else return files.insert second maybeHash

def readFileLines (fileLines : List Str) : Except String FileList :=
  let lines := if fileLines.getLast? = some [] then fileLines.dropLast else fileLines
  lines.foldlM readFileLine []

def publicKeyBytes : Except String (List UInt8) :=
  match Base64.decodeString releasePublicKeyBase64 with
  | .error _ => throw "Invalid public key"
  | .ok bytes =>
    if bytes.length ≠ 32 + 10 ∨ bytes.take 2 ≠ str "Ed" then throw "Invalid public key"
      else return bytes

def readSignature (publicKey : List UInt8) (line : Str) : Except String (List UInt8) :=
  match Base64.decodeString line with
  | .error _ => throw "Signature input is not valid base64"
  | .ok bytes =>
    if bytes.length ≠ 64 + 10 ∨ bytes.take 10 ≠ publicKey.take 10 then
      throw "Signature input bytes are incorrect length, type, or keyid"
    else return bytes

def readFileList (verify : List UInt8 → Str → List UInt8 → Bool) (input : Str) :
    Except String FileList := do
  let publicKey ← publicKeyBytes
  match splitThree input with
  | none => throw "Signature input has too few lines"
  | some (first, second, third) =>
    if !(str "untrusted comment: ").isPrefixOf first then
      throw "Signature input is missing untrusted comment"
    else
      let signature ← readSignature publicKey second
      if !verify (publicKey.drop 10) third (signature.drop 10) then throw "Signature is invalid"
      else
        let fileHashes ← readFileLines (third.splitOn newline)
        if fileHashes.isEmpty then throw "No file hashes found in signed input"
        else return fileHashes

def versionNumber : Str := str "1.3.1"

def versionPart : Option Str → Except String Nat
  | none => .ok 0
  | some part =>
    if part = [] then throw "Empty version part"
    else match parseUint part 16 with
      | .error _ => throw "Invalid version integer part"
      | .ok n => .ok n

def versionLoop (candidateParts ourParts : List Str) : List Nat → Except String Bool
  | [] => .ok false
  | i :: rest => do
    let cP ← versionPart candidateParts[i]?
    let oP ← versionPart ourParts[i]?
    if cP = oP then versionLoop candidateParts ourParts rest
    else return oP < cP

def versionNewerThan (us candidate : Str) : Except String Bool :=
  let candidateParts := candidate.splitOn dot
  let ourParts := us.splitOn dot
  if candidateParts.length = 0 ∨ ourParts.length = 0 then throw "Empty version"
  else versionLoop candidateParts ourParts (List.range (max ourParts.length candidateParts.length))

def trimPrefix (s pre : Str) : Str := if pre.isPrefixOf s then s.drop pre.length else s

structure UpdateFound where
  name : Str
  sum : List UInt8

def findCandidate (arch : Arch) (us : Str) : FileList → Except String (Option UpdateFound)
  | [] => .ok none
  | (name, sum) :: rest =>
    if (msiArchPrefix arch).isPrefixOf name && msiSuffix.isSuffixOf name then do
      let version := trimSuffix (trimPrefix name (msiArchPrefix arch)) msiSuffix
      if 128 < version.length then throw "Version length is too long"
      else if ← versionNewerThan us version then return some ⟨name, sum⟩
      else findCandidate arch us rest
    else findCandidate arch us rest

def Listed (third : Str) (f : Str × List UInt8) : Prop :=
  ∃ digits, digits ++ str "  " ++ f.1 ∈ third.splitOn newline ∧ Hex.decodeString digits = .ok f.2

theorem eq_of_cutText {sep s a b : Str} (h : cutText sep s = some (a, b)) : s = a ++ sep ++ b := by
  induction s generalizing a with
  | nil => cases h
  | cons c t ih =>
    rw [cutText] at h
    split_ifs at h with hpre
    · cases h
      obtain ⟨u, hu⟩ := List.isPrefixOf_iff_prefix.mp hpre
      rw [← hu, List.drop_left, List.nil_append]
    · obtain ⟨⟨x, y⟩, hcut, hp⟩ := Option.map_eq_some_iff.mp h
      cases hp
      rw [ih hcut]
      rfl

theorem mem_insert {files : FileList} {name : Str} {sum : List UInt8} {f : Str × List UInt8}
    (h : f ∈ files.insert name sum) : f ∈ files ∨ f = (name, sum) := by
  rcases List.mem_append.mp h with h | h
  · exact Or.inl (List.mem_of_mem_filter h)
  · exact Or.inr (List.mem_singleton.mp h)

theorem readFileLine_listed {files files' : FileList} {line : Str}
    (h : readFileLine files line = .ok files') {f : Str × List UInt8} (hf : f ∈ files') :
    f ∈ files ∨ ∃ digits, line = digits ++ str "  " ++ f.1 ∧ Hex.decodeString digits = .ok f.2 := by
  rw [readFileLine] at h
  split at h
  · cases h
  rename_i first second hcut
  split at h
  · cases h
  rename_i maybeHash hhex
  split_ifs at h
  cases h
  rcases mem_insert hf with hf | rfl
  · exact Or.inl hf
  · exact Or.inr ⟨first, eq_of_cutText hcut, hhex⟩

theorem readFileLines_listed {third : Str} {files : FileList}
    (h : readFileLines (third.splitOn newline) = .ok files) : ∀ f ∈ files, Listed third f := by
  rw [readFileLines] at h
  have hsub : ∀ line ∈ (if (third.splitOn newline).getLast? = some [] then
      (third.splitOn newline).dropLast else third.splitOn newline),
      line ∈ third.splitOn newline := by
    intro line hline
    split_ifs at hline
    · exact List.mem_of_mem_dropLast hline
    · exact hline
  refine foldlM_invariant (fun files => ∀ f ∈ files, Listed third f) ?_ ?_ h
  · intro files line files' hline hfiles hstep f hf
    rcases readFileLine_listed hstep hf with hold | ⟨digits, rfl, hhex⟩
    · exact hfiles f hold
    · exact ⟨digits, hsub _ hline, hhex⟩
  · exact List.forall_mem_nil _

theorem splitThree_eq {input first second third : Str}
    (h : splitThree input = some (first, second, third)) :
    input = first ++ newline :: (second ++ newline :: third) ∧ newline ∉ first ∧
    newline ∉ second := by
  rw [splitThree] at h
  rcases cut_cases input newline with ⟨-, hcut⟩ | ⟨a, rest, rfl, ha, hcut⟩
  · rw [hcut] at h
    cases h
  · rw [hcut] at h
    dsimp only at h
    rcases cut_cases rest newline with ⟨-, hrest⟩ | ⟨b, c, rfl, hb, hrest⟩
    · rw [hrest] at h
      cases h
    · rw [hrest] at h
      cases h
      exact ⟨rfl, ha, hb⟩

structure Signed (verify : List UInt8 → Str → List UInt8 → Bool) (input : Str) (third : Str) :
    Prop where
  verifies : ∃ publicKey first second signature, publicKeyBytes = .ok publicKey ∧
    input = first ++ newline :: (second ++ newline :: third) ∧ newline ∉ first ∧ newline ∉ second ∧
    Base64.decodeString second = .ok signature ∧
    verify (publicKey.drop 10) third (signature.drop 10) = true

theorem readFileList_signed {verify : List UInt8 → Str → List UInt8 → Bool} {input : Str}
    {files : FileList} (h : readFileList verify input = .ok files) :
    ∃ third, Signed verify input third ∧ ∀ f ∈ files, Listed third f := by
  obtain ⟨publicKey, hkey, h⟩ := bind_eq_ok h
  split at h
  · cases h
  rename_i first second third hsplit
  obtain ⟨heq, hfirst, hsecond⟩ := splitThree_eq hsplit
  split_ifs at h with hcomment
  obtain ⟨signature, hsignature, h⟩ := bind_eq_ok h
  split_ifs at h with hverify
  obtain ⟨fileHashes, hlines, h⟩ := bind_eq_ok h
  split_ifs at h
  cases h
  rw [readSignature] at hsignature
  split at hsignature
  · cases hsignature
  rename_i bytes hbytes
  split_ifs at hsignature
  cases hsignature
  exact ⟨third, ⟨publicKey, first, second, signature, hkey, heq, hfirst, hsecond, hbytes,
    by simpa using hverify⟩, readFileLines_listed hlines⟩

inductive Component (parts : List Str) (i : Nat) : Nat → Prop
  | missing (h : parts[i]? = none) : Component parts i 0
  | number {part : Str} {n : Nat} (h : parts[i]? = some part) (hn : parseUint part 16 = .ok n) :
      Component parts i n

def Newer (us candidate : Str) : Prop :=
  ∃ i oP cP, Component (us.splitOn dot) i oP ∧ Component (candidate.splitOn dot) i cP ∧ oP < cP ∧
    cP < 65536 ∧ ∀ j < i, ∃ n, Component (us.splitOn dot) j n ∧
    Component (candidate.splitOn dot) j n

theorem component_of_versionPart {parts : List Str} {i n : Nat}
    (h : versionPart parts[i]? = .ok n) : Component parts i n := by
  cases hpart : parts[i]? with
  | none =>
    rw [hpart] at h
    cases h
    exact .missing hpart
  | some part =>
    rw [hpart, versionPart] at h
    split_ifs at h
    split at h
    · cases h
    · cases h
      exact .number hpart (by assumption)

theorem component_lt {parts : List Str} {i n : Nat} (h : Component parts i n) : n < 65536 := by
  cases h with
  | missing _ => decide
  | number _ hn => exact (parseUint_ok_iff.mp hn).2.2.2

theorem versionLoop_newer {candidateParts ourParts : List Str} {done todo : List Nat}
    (hdone : ∀ j ∈ done, ∃ n, Component ourParts j n ∧ Component candidateParts j n)
    (h : versionLoop candidateParts ourParts todo = .ok true) :
    ∃ before i after, todo = before ++ i :: after ∧
      (∀ j ∈ done ++ before, ∃ n, Component ourParts j n ∧ Component candidateParts j n) ∧
      ∃ oP cP, Component ourParts i oP ∧ Component candidateParts i cP ∧ oP < cP := by
  induction todo generalizing done with
  | nil => cases h
  | cons i rest ih =>
    obtain ⟨cP, hcP, h⟩ := bind_eq_ok h
    obtain ⟨oP, hoP, h⟩ := bind_eq_ok h
    have hc := component_of_versionPart hcP
    have ho := component_of_versionPart hoP
    split_ifs at h with heq
    · have hdone' : ∀ j ∈ done ++ [i], ∃ n, Component ourParts j n ∧
          Component candidateParts j n := by
        exact List.forall_mem_append.mpr ⟨hdone, List.forall_mem_singleton.mpr ⟨oP, ho, heq ▸ hc⟩⟩
      obtain ⟨before, k, after, hrest, hbefore, hk⟩ := ih hdone' h
      refine ⟨i :: before, k, after, by rw [hrest, List.cons_append], ?_, hk⟩
      rwa [List.append_assoc, List.singleton_append] at hbefore
    · have hlt : oP < cP := by simpa [pure, Except.pure] using h
      exact ⟨[], i, rest, rfl, by simpa using hdone, oP, cP, ho, hc, hlt⟩

theorem newer_of_versionNewerThan {us candidate : Str}
    (h : versionNewerThan us candidate = .ok true) :
    Newer us candidate := by
  rw [versionNewerThan] at h
  split_ifs at h
  obtain ⟨before, i, after, hrange, hbefore, oP, cP, ho, hc, hlt⟩ :=
    versionLoop_newer (List.forall_mem_nil _) h
  rw [List.nil_append] at hbefore
  refine ⟨i, oP, cP, ho, hc, hlt, component_lt hc, ?_⟩
  intro j hj
  -- the places before `i` in the range are the smaller ones
  have hi : i = before.length := by
    have hget := congrArg (·[before.length]?) hrange
    have hlen := congrArg List.length hrange
    rw [List.length_range, List.length_append, List.length_cons] at hlen
    simp only [List.getElem?_append_right (Nat.le_refl _), Nat.sub_self,
      List.getElem?_cons_zero] at hget
    rw [List.getElem?_range (by omega)] at hget
    exact (Option.some.inj hget).symm
  have hmem : j ∈ before := by
    have hget := congrArg (·[j]?) hrange
    have hlen := congrArg List.length hrange
    rw [List.length_range, List.length_append, List.length_cons] at hlen
    simp only [List.getElem?_append_left (hi ▸ hj)] at hget
    rw [List.getElem?_range (by omega)] at hget
    exact List.mem_of_getElem? hget.symm
  exact hbefore j hmem

theorem eq_append_of_prefix_of_suffix {pre post name : Str} {b : UInt8} (hlast : b ∉ post)
    (hpre : pre ++ [b] <+: name) (hpost : post <:+ name) : ∃ v, name = pre ++ [b] ++ v ++ post := by
  obtain ⟨t, rfl⟩ := hpre
  obtain ⟨u, hu⟩ := hpost
  rcases List.append_eq_append_iff.mp hu with ⟨a, ha, ht⟩ | ⟨a, ha, ht⟩
  · -- the ending would reach into the beginning
    rcases List.eq_nil_or_concat a with rfl | ⟨a', c, rfl⟩
    · exact ⟨[], by rw [List.append_nil, ht, List.nil_append]⟩
    · rw [List.concat_eq_append, ← List.append_assoc] at ha
      have hc := (List.append_inj' ha rfl).2
      rw [ht, List.concat_eq_append, ← hc] at hlast
      exact absurd (by simp) hlast
  · exact ⟨a, by rw [ht, ← List.append_assoc]⟩

theorem findCandidate_newer {arch : Arch} {us : Str} {files : FileList} {update : UpdateFound}
    (h : findCandidate arch us files = .ok (some update)) :
    (update.name, update.sum) ∈ files ∧
      ∃ v, update.name = msiArchPrefix arch ++ v ++ msiSuffix ∧ Newer us v := by
  induction files with
  | nil => cases h
  | cons f rest ih =>
    obtain ⟨name, sum⟩ := f
    rw [findCandidate] at h
    have hrest : findCandidate arch us rest = .ok (some update) →
        (update.name, update.sum) ∈ (name, sum) :: rest ∧
          ∃ v, update.name = msiArchPrefix arch ++ v ++ msiSuffix ∧ Newer us v :=
      fun h => ⟨List.mem_cons_of_mem _ (ih h).1, (ih h).2⟩
    split_ifs at h with hname
    · rw [Bool.and_eq_true] at hname
      obtain ⟨v, hv⟩ : ∃ v, name = msiArchPrefix arch ++ v ++ msiSuffix :=
        eq_append_of_prefix_of_suffix (by decide) (List.isPrefixOf_iff_prefix.mp hname.1)
          (List.isSuffixOf_iff_suffix.mp hname.2)
      have hversion : trimSuffix (trimPrefix name (msiArchPrefix arch)) msiSuffix = v := by
        rw [trimPrefix, if_pos hname.1, hv, List.append_assoc, List.drop_left, trimSuffix, if_pos]
        · rw [List.length_append, Nat.add_sub_cancel, List.take_left]
        · exact List.isSuffixOf_iff_suffix.mpr (List.suffix_append v msiSuffix)
      rw [hversion] at h
      dsimp only at h
      split_ifs at h
      obtain ⟨newer, hnewer, h⟩ := bind_eq_ok h
      cases newer with
      | true =>
        cases h
        exact ⟨List.mem_cons_self, v, hv, newer_of_versionNewerThan hnewer⟩
      | false => exact hrest h
    · exact hrest h

end WireGuardWindows.Updater
