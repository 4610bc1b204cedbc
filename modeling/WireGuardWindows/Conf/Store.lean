import WireGuardWindows.Conf.WSTLSStored
import WireGuardWindows.GoStd.Hex
import WireGuardWindows.Systems.Effects
import WireGuardWindows.Systems.Files

/-!
# The files of the configuration store

The programs of the store run on the files below the data directory and on the outcomes of
the coming calls of the system, which are part of the input: a statement about every such
list is one about every point of failure. Removing a directory has outcomes of its own. A
write that fails may leave its temporary file.

`CryptUnprotectData` gives the plain text and the description it was encrypted with; all
descriptions here are ASCII, so they are compared as they are.
-/

namespace WireGuardWindows.Conf
open GoStd Strings Unicode Systems

abbrev Bytes := List UInt8
abbrev Files := Tree Str Bytes

def randomFileName (randBytes : Bytes) : Str := Hex.encodeToString randBytes ++ str ".tmp"

structure TempFile where
  randBytes : Bytes
  contents : Bytes
  length_eq : randBytes.length = 32

def TempFile.file (f : TempFile) : File Str Bytes := ⟨randomFileName f.randBytes, f.contents⟩

inductive Outcome
  | succeeds
  | fails (leftover : Option TempFile)

inductive Removal
  | succeeds
  /-- The files that are still there. -/
  | fails (kept : Str → Bool)

structure World where
  files : Files
  calls : List Outcome := []
  removals : List Removal := []

inductive StoreError
  | system
  | notFound
  | exists
  | undecryptable
  | invalid (err : Error)
  | tunnelNameIsNotValid
  | fileNameIsNotValid
  | accessDenied
  | serviceDoesNotExist

abbrev Store (α : Type) := EStateM StoreError World α

/-- The system services that protect data. -/
structure Dpapi where
  protect : Bytes → Str → Bytes
  unprotect : Bytes → Option (Bytes × Str)
  unprotect_protect : ∀ data name, unprotect (protect data name) = some (data, name)

namespace Store

def call : Store Outcome := fun w => .ok (w.calls.headD .succeeds) { w with calls := w.calls.tail }

def system : Store Unit := do
  match ← call with
  | .succeeds => return ()
  | .fails _ => throw .system

def readFile (dir : List Str) (name : Str) : Store Bytes := do
  system
  match (← get).files.read toLower dir name with
  | none => throw .notFound
  | some contents => return contents

def writeLockedDownFile (dir : List Str) (name : Str) (overwrite : Bool) (contents : Bytes) :
    Store Unit := do
  match ← call with
  | .fails none => throw .system
  | .fails (some leftover) => do
    modify fun w => { w with files := w.files.put toLower dir leftover.file }
    throw .system
  | .succeeds =>
    if overwrite ∨ ((← get).files.read toLower dir name).isNone then
      modify fun w => { w with files := w.files.put toLower dir ⟨name, contents⟩ }
    else throw .exists

def removeAll (dir : List Str) : Store Unit := fun w =>
  let w' := { w with removals := w.removals.tail }
  match w.removals.headD .succeeds with
  | .succeeds => .ok () { w' with files := w.files.removeAll toLower dir }
  | .fails kept => .error .system
      { w' with files := fun d =>
        if dir.map toLower <+: d then (w.files d).filter fun f => kept f.name else w.files d }

end Store

section Dpapi
variable (dpapi : Dpapi)

def encrypt (data : Bytes) (name : Str) : Store Bytes := do
  Store.system
  return dpapi.protect data name

def decrypt (data : Bytes) (name : Str) : Store Bytes := do
  Store.system
  match dpapi.unprotect data with
  | none => throw .undecryptable
  | some (plain, outName) => if outName = name then return plain else throw .undecryptable

end Dpapi

def wsTLSDirectoryName : Str := str "WebSocketTLS"
def wsTLSRuntimeDirectoryName : Str := str "$runtime"
def wsTLSEncryptedSuffix : Str := str ".dpapi"

def wsTLSDirectory (create : Bool) (elem : List Str) : Store (List Str) := do
  Store.system
  if create then Store.system
  return wsTLSDirectoryName :: elem

def wsTLSDescription (tunnelName fileName : Str) : Str := tunnelName ++ slash :: fileName

def loadWSTLSFile (dpapi : Dpapi) (tunnelName fileName : Str) : Store Bytes :=
  if ¬ tunnelNameIsValid tunnelName ∨ ¬ wsTLSFileNameIsValid fileName then throw .fileNameIsNotValid
  else do
    let dir ← wsTLSDirectory false [tunnelName]
    let encrypted ← Store.readFile dir (fileName ++ wsTLSEncryptedSuffix)
    decrypt dpapi encrypted (wsTLSDescription tunnelName fileName)

def removeWSTLSRuntimeFiles (tunnelName : Str) : Store Unit := do
  Store.removeAll (← wsTLSDirectory false [wsTLSRuntimeDirectoryName, tunnelName])

section Calls

def Steady (P : World → Prop) : Prop := ∀ w calls, P w → P { w with calls := calls }

variable {P : World → Prop} (hP : Steady P)
include hP

theorem system_ends : Ends P Store.system (fun _ => P) (fun _ => P) := by
  intro w hw
  have hnext := hP w w.calls.tail hw
  simp only [Store.system, Store.call, bind, EStateM.bind]
  cases w.calls.headD .succeeds <;> exact hnext

theorem wsTLSDirectory_ends (create : Bool) (elem : List Str) :
    Ends P (wsTLSDirectory create elem) (fun dir w => dir = wsTLSDirectoryName :: elem ∧ P w)
      (fun _ => P) := by
  refine (system_ends hP).bind fun _ => ?_
  have hreturn : Ends P (Pure.pure (wsTLSDirectoryName :: elem) : Store (List Str))
      (fun dir w => dir = wsTLSDirectoryName :: elem ∧ P w) (fun _ => P) :=
        .pure fun w hw => ⟨rfl, hw⟩
  cases create with
  | false => exact hreturn
  | true => exact (system_ends hP).bind fun _ => hreturn

theorem readFile_ends (dir : List Str) (name : Str) :
    Ends P (Store.readFile dir name) (fun contents w => w.files.read toLower dir name =
      some contents ∧ P w)
      (fun _ => P) := by
  refine (system_ends hP).bind fun _ => ?_
  intro w hw
  simp only [bind, EStateM.bind, get, getThe, MonadStateOf.get, EStateM.get]
  cases hread : w.files.read toLower dir name with
  | none => exact hw
  | some contents => exact ⟨hread, hw⟩

theorem decrypt_ends (dpapi : Dpapi) (data : Bytes) (name : Str) :
    Ends P (decrypt dpapi data name)
      (fun plain w => dpapi.unprotect data = some (plain, name) ∧ P w) (fun _ => P) := by
  refine (system_ends hP).bind fun _ => ?_
  cases hplain : dpapi.unprotect data with
  | none => exact .throw fun w hw => hw
  | some r =>
    obtain ⟨plain, outName⟩ := r
    refine .ite (fun heq => .pure fun w hw => ⟨?_, hw⟩) fun _ => .throw fun w hw => hw
    rw [heq]

def storedContent (dpapi : Dpapi) (files : Files) (tunnelName fileName : Str) (data : Bytes) :
    Prop :=
  wsTLSFileNameIsValid fileName = true ∧
    ∃ encrypted, files.read toLower [wsTLSDirectoryName, tunnelName] (fileName ++
      wsTLSEncryptedSuffix) = some encrypted ∧
      dpapi.unprotect encrypted = some (data, wsTLSDescription tunnelName fileName)

theorem loadWSTLSFile_ends (dpapi : Dpapi) (tunnelName fileName : Str) :
    Ends P (loadWSTLSFile dpapi tunnelName fileName)
      (fun data w => storedContent dpapi w.files tunnelName fileName data ∧ P w) (fun _ => P) := by
  refine .ite (fun _ => .throw fun w hw => hw) fun hvalid => ?_
  rw [not_or, not_not, not_not] at hvalid
  refine (wsTLSDirectory_ends hP false [tunnelName]).bind fun dir => ?_
  have hsteady : Steady fun w => dir = [wsTLSDirectoryName, tunnelName] ∧ P w :=
    fun w calls hw => ⟨hw.1, hP w calls hw.2⟩
  have hread := (readFile_ends hsteady dir (fileName ++ wsTLSEncryptedSuffix)).mono (fun _ h => h)
    (fun _ _ h => h)
    fun _ w hw => hw.2
  refine hread.bind fun encrypted => ?_
  have hsteady' : Steady fun w => w.files.read toLower dir (fileName ++ wsTLSEncryptedSuffix) =
    some encrypted ∧
      dir = [wsTLSDirectoryName, tunnelName] ∧ P w := fun w calls hw => ⟨hw.1, hsteady w calls hw.2⟩
  refine (decrypt_ends hsteady' dpapi encrypted _).mono (fun _ h => h) ?_ fun _ w hw => hw.2.2
  rintro data w ⟨hplain, hread, rfl, hw⟩
  exact ⟨⟨hvalid.2, encrypted, hread, hplain⟩, hw⟩

/-- A write that fails may leave a file in the directory. -/
theorem writeLockedDownFile_ends (dir : List Str) (name : Str) (overwrite : Bool)
    (contents : Bytes) :
    Ends P (Store.writeLockedDownFile dir name overwrite contents)
      (fun _ w => ∃ files, P { w with files := files } ∧
        (overwrite = false → files.read toLower dir name = none) ∧
        w.files = files.put toLower dir ⟨name, contents⟩)
      (fun _ w => P w ∨ ∃ files, ∃ leftover : TempFile,
        P { w with files := files } ∧ w.files = files.put toLower dir leftover.file) := by
  intro w hw
  have hnext := hP w w.calls.tail hw
  simp only [Store.writeLockedDownFile, Store.call, bind, EStateM.bind]
  cases w.calls.headD .succeeds with
  | succeeds =>
    simp only [get, getThe, MonadStateOf.get, EStateM.get, EStateM.bind]
    by_cases hnew : overwrite = true ∨ (w.files.read toLower dir name).isNone = true
    · rw [if_pos hnew]
      refine ⟨w.files, hnext, fun hno => ?_, rfl⟩
      exact Option.isNone_iff_eq_none.mp (hnew.resolve_left (by simp [hno]))
    · rw [if_neg hnew]
      exact .inl hnext
  | fails leftover =>
    cases leftover with
    | none => exact .inl hnext
    | some leftover => exact .inr ⟨w.files, leftover, hnext, rfl⟩

end Calls

theorem removeAll_ok {w : World} (h : ∀ r ∈ w.removals, r = .succeeds) (dir : List Str) :
    ∃ w', Store.removeAll dir w = .ok () w' ∧ w'.files = w.files.removeAll toLower dir ∧
      ∀ r ∈ w'.removals, r = .succeeds := by
  have hhead : w.removals.headD .succeeds = .succeeds := by
    cases hr : w.removals with
    | nil => rfl
    | cons r rs => exact h r (hr ▸ List.mem_cons_self)
  refine ⟨{ w with removals := w.removals.tail, files := w.files.removeAll toLower dir }, ?_, rfl,
    fun r hr => h r (List.mem_of_mem_tail hr)⟩
  rw [Store.removeAll, hhead]

end WireGuardWindows.Conf
