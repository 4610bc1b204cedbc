import WireGuardWindows.GoStd.Unicode

/-!
# The `path/filepath` package on Windows

Both slashes separate. The volume name of a path, which no other element may contain, is
a drive letter, a share or a device.
-/

namespace GoStd.Filepath
open Strings Unicode

def backslash : UInt8 := 0x5C

def isPathSeparator (b : UInt8) : Bool := b == backslash || b == slash

def lastElement (path : Str) : Str := path.rtakeWhile (!isPathSeparator ·)

def ext (path : Str) : Str :=
  match cutLast (lastElement path) dot with
  | some (_, e) => dot :: e
  | none => []

/-- The text begins with the elements of `pre`, in any case. -/
def pathHasPrefixFold (s pre : Str) : Bool :=
  pre.length ≤ s.length &&
    (s.zip pre).all (fun (b, p) =>
      if isPathSeparator p then isPathSeparator b else lowerByte b == lowerByte p) &&
    ((s.drop pre.length).head?.all isPathSeparator)

def uncLen (path : Str) (n : Nat) : Nat :=
  let host := (path.drop n).takeWhile (!isPathSeparator ·)
  let share := (path.drop (n + host.length + 1)).takeWhile (!isPathSeparator ·)
  min path.length (n + host.length + 1 + share.length)

def volumeNameLen (path : Str) : Nat :=
  if path[1]? = some colon then 2
  else if ¬ path.head?.any isPathSeparator then 0
  else if pathHasPrefixFold path (str "\\\\.\\UNC") then uncLen path 8
  else if pathHasPrefixFold path (str "\\\\.") ∨ pathHasPrefixFold path (str "\\\\?") ∨
      pathHasPrefixFold path (str "\\??") then
    min path.length (4 + ((path.drop 4).takeWhile (!isPathSeparator ·)).length)
  else if path[1]?.any isPathSeparator then uncLen path 2
  else 0

def base (path : Str) : Str :=
  if path = [] then [dot]
  else
    let path := path.rdropWhile isPathSeparator
    let element := lastElement (path.drop (volumeNameLen path))
    if element = [] then [backslash] else element

/-- `IsAbs`: a path that begins with two separators, or has one behind its volume name. -/
def isAbs (path : Str) : Bool :=
  if volumeNameLen path = 0 then false
  else if path.head?.any isPathSeparator && path[1]?.any isPathSeparator then true
  else (path.drop (volumeNameLen path)).head?.any isPathSeparator

def toSlash (path : Str) : Str := path.map fun b => if b = backslash then slash else b

def PlainName (s : Str) : Prop := ∀ b ∈ s, isPathSeparator b = false ∧ b ≠ colon

theorem plainName_of_bytes {s : Str} {ok : UInt8 → Bool} (h : ∀ b ∈ s, ok b = true)
    (hbackslash : ok backslash = false) (hslash : ok slash = false) (hcolon : ok colon = false) :
    PlainName s := by
  intro b hb
  have hbyte := h b hb
  constructor
  · by_contra hsep
    rw [Bool.not_eq_false, isPathSeparator, Bool.or_eq_true, beq_iff_eq, beq_iff_eq] at hsep
    rcases hsep with rfl | rfl
    · exact Bool.false_ne_true (hbackslash.symm.trans hbyte)
    · exact Bool.false_ne_true (hslash.symm.trans hbyte)
  · rintro rfl
    exact Bool.false_ne_true (hcolon.symm.trans hbyte)

theorem PlainName.slash_notMem {s : Str} (h : PlainName s) : slash ∉ s :=
  fun hs => absurd (h slash hs).1 (by decide)

theorem lastElement_append {a b : Str} (hb : ∀ c ∈ b, isPathSeparator c = false) :
    lastElement (a ++ b) = lastElement a ++ b := by
  rw [lastElement, lastElement, List.rtakeWhile, List.rtakeWhile, List.reverse_append,
    List.takeWhile_append_of_pos, List.reverse_append, List.reverse_reverse]
  intro c hc
  rw [hb c (List.mem_reverse.mp hc), Bool.not_false]

theorem lastElement_slash (a : Str) : lastElement (a ++ [slash]) = [] :=
  List.rtakeWhile_concat_neg _ _ _ (by decide)

theorem PlainName.lastElement {s : Str} (h : PlainName s) : lastElement s = s := by
  rw [← List.nil_append s, lastElement_append fun b hb => (h b hb).1]
  rfl

theorem ext_append {a e : Str} (hdot : dot ∉ e) (he : ∀ c ∈ e, isPathSeparator c = false) :
    ext (a ++ dot :: e) = dot :: e := by
  have hlast : lastElement (a ++ dot :: e) = lastElement a ++ dot :: e := by
    apply lastElement_append
    exact List.forall_mem_cons.mpr ⟨by decide, he⟩
  rw [ext, hlast, cutLast_append hdot]

theorem ext_slash_append {a s : Str} (hs : PlainName s) : ext (a ++ slash :: s) = ext s := by
  rw [List.append_cons, ext, lastElement_append fun b hb => (hs b hb).1, lastElement_slash,
    List.nil_append, ext, hs.lastElement]

theorem PlainName.volumeNameLen {s : Str} (h : PlainName s) : volumeNameLen s = 0 := by
  have hcolon : s[1]? ≠ some colon := fun hs => (h colon (List.mem_of_getElem? hs)).2 rfl
  have hhead : ¬ (s.head?.any isPathSeparator) = true := by
    intro hs
    obtain ⟨b, hb, hsep⟩ := (Option.any_eq_true _ _).mp hs
    rw [(h b (List.mem_of_mem_head? hb)).1] at hsep
    cases hsep
  rw [Filepath.volumeNameLen, if_neg hcolon, if_pos hhead]

theorem PlainName.isAbs {s : Str} (h : PlainName s) : isAbs s = false := by
  rw [Filepath.isAbs, if_pos h.volumeNameLen]

theorem PlainName.toSlash {s : Str} (h : PlainName s) : toSlash s = s := by
  refine (List.map_congr_left ?_).trans (List.map_id s)
  intro b hb
  refine if_neg ?_
  rintro rfl
  exact absurd (h _ hb).1 (by decide)

theorem PlainName.base {s : Str} (h : PlainName s) (hne : s ≠ []) : base s = s := by
  have hdrop : s.rdropWhile isPathSeparator = s := by
    refine List.rdropWhile_eq_self_iff.mpr fun hs => ?_
    rw [(h _ (List.getLast_mem hs)).1]
    decide
  have hvol : (if Filepath.lastElement (s.drop (Filepath.volumeNameLen s)) = [] then [backslash]
      else Filepath.lastElement (s.drop (Filepath.volumeNameLen s))) = s := by
    rw [h.volumeNameLen, List.drop_zero, h.lastElement, if_neg hne]
  rw [Filepath.base, if_neg hne, hdrop]
  exact hvol

end GoStd.Filepath
