import WireGuardWindows.GoStd.Strings

/-!
# The `path` package

Slash-separated paths. `Clean` keeps the elements of the result on a stack: an element `..`
takes the one before it away, unless there is none to take.
-/

namespace GoStd.Path
open Strings

def dotDot : Str := [dot, dot]

def lastElement (path : Str) : Str := path.rtakeWhile (· != slash)

def splitDir (path : Str) : Str := path.rdropWhile (· != slash)

def ext (path : Str) : Str :=
  match cutLast (lastElement path) dot with
  | some (_, e) => dot :: e
  | none => []

def base (path : Str) : Str :=
  if path = [] then [dot]
  else
    let element := lastElement (path.rdropWhile (· == slash))
    if element = [] then [slash] else element

/-- The stack is kept with its last element first. -/
def cleanStep (rooted : Bool) (stack : List Str) (element : Str) : List Str :=
  if element = [] ∨ element = [dot] then stack
  else if element = dotDot then
    match stack with
    | [] => if rooted then [] else [dotDot]
    | top :: rest => if top = dotDot then dotDot :: stack else rest
  else element :: stack

def clean (path : Str) : Str :=
  if path = [] then [dot]
  else
    let rooted := path.head? == some slash
    let stack := (path.splitOn slash).foldl (cleanStep rooted) []
    let out := (if rooted then [slash] else []) ++ [slash].intercalate stack.reverse
    if out = [] then [dot] else out

def dir (path : Str) : Str := clean (splitDir path)

def join (elements : List Str) : Str :=
  if elements.all (· == []) then [] else clean ([slash].intercalate (elements.dropWhile (· == [])))

structure PlainName (s : Str) : Prop where
  noSlash : slash ∉ s
  ne_nil : s ≠ []
  ne_dot : s ≠ [dot]
  ne_dotDot : s ≠ dotDot

theorem plainName_of_head {s : Str} (hslash : slash ∉ s) (hne : s ≠ [])
    (hhead : s.head? ≠ some dot) : PlainName s where
  noSlash := hslash
  ne_nil := hne
  ne_dot := by
    rintro rfl
    exact hhead rfl
  ne_dotDot := by
    rintro rfl
    exact hhead rfl

theorem lastElement_of_notMem {s : Str} (h : slash ∉ s) : lastElement s = s := by
  refine List.rtakeWhile_eq_self_iff.mpr fun b hb => ?_
  exact bne_iff_ne.mpr fun heq => h (heq ▸ hb)

theorem base_of_notMem {s : Str} (h : slash ∉ s) (hne : s ≠ []) : base s = s := by
  have hdrop : s.rdropWhile (· == slash) = s := by
    refine List.rdropWhile_eq_self_iff.mpr fun hs => ?_
    rw [beq_iff_eq]
    exact fun heq => h (heq ▸ List.getLast_mem hs)
  have hlast : (if lastElement s = [] then [slash] else lastElement s) = s := by
    rw [lastElement_of_notMem h, if_neg hne]
  rw [base, if_neg hne, hdrop]
  exact hlast

theorem dir_of_notMem {s : Str} (h : slash ∉ s) : dir s = [dot] := by
  have hsplit : splitDir s = [] := by
    refine List.rdropWhile_eq_nil_iff.mpr fun b hb => ?_
    exact bne_iff_ne.mpr fun heq => h (heq ▸ hb)
  rw [dir, hsplit]
  rfl

theorem ext_append {a e : Str} (ha : slash ∉ a) (he : slash ∉ e) (hdot : dot ∉ e) :
    ext (a ++ dot :: e) = dot :: e := by
  have hslash : slash ∉ a ++ dot :: e := by
    simp only [List.mem_append, List.mem_cons, not_or]
    exact ⟨ha, by decide, he⟩
  rw [ext, lastElement_of_notMem hslash, cutLast_append hdot]

theorem foldl_cleanStep {elements : List Str} (h : ∀ e ∈ elements, PlainName e) (rooted : Bool)
    (stack : List Str) :
    elements.foldl (cleanStep rooted) stack = elements.reverse ++ stack := by
  induction elements generalizing stack with
  | nil => rfl
  | cons e elements ih =>
    rw [List.forall_mem_cons] at h
    have hstep : cleanStep rooted stack e = e :: stack := by
      rw [cleanStep.eq_def, if_neg (not_or.mpr ⟨h.1.ne_nil, h.1.ne_dot⟩), if_neg h.1.ne_dotDot]
    rw [List.foldl_cons, hstep, ih h.2, List.reverse_cons, List.append_assoc]
    rfl

theorem join_dot {elements : List Str} (h : ∀ e ∈ elements, PlainName e) (hne : elements ≠ []) :
    join ([dot] :: elements) = [slash].intercalate elements := by
  have hsplit : ([slash].intercalate ([dot] :: elements)).splitOn slash = [dot] :: elements := by
    refine List.splitOn_intercalate slash ?_ (List.cons_ne_nil _ _)
    intro e he
    rcases List.mem_cons.mp he with rfl | he
    · decide
    · exact (h e he).noSlash
  obtain ⟨e, rest, rfl⟩ := List.exists_cons_of_ne_nil hne
  have hcons : [slash].intercalate ([dot] :: e :: rest) =
    dot :: ([slash] ++ [slash].intercalate (e :: rest)) := rfl
  have hout : [slash].intercalate (e :: rest) ≠ [] := by
    obtain ⟨b, t, hb⟩ := List.exists_cons_of_ne_nil (h e List.mem_cons_self).ne_nil
    rw [hb]
    cases rest with
    | nil => simp [List.intercalate]
    | cons e' rest => simp [List.intercalate]
  have hfold : ([dot] :: e :: rest).foldl (cleanStep false) [] = (e :: rest).reverse := by
    rw [List.foldl_cons, show cleanStep false [] [dot] = [] from rfl, foldl_cleanStep h,
      List.append_nil]
  have hclean : clean ([slash].intercalate ([dot] :: e :: rest)) =
      [slash].intercalate (e :: rest) := by
    have hrooted : (([slash].intercalate ([dot] :: e :: rest)).head? == some slash) = false := by
      rw [hcons]
      rfl
    rw [clean, if_neg (by rw [hcons]; exact List.cons_ne_nil _ _)]
    simp only [hrooted, hsplit, hfold, List.reverse_reverse, Bool.false_eq_true, if_false,
      List.nil_append, if_neg hout]
  exact hclean

end GoStd.Path
