import WireGuardWindows.Conf.Name
import WireGuardWindows.GoStd.Filepath
import WireGuardWindows.GoStd.Strconv

/-!
# Names of stored TLS files

The names that `CollectWSTLSFiles` gives to copied files are valid and new. A name is
changed at its front, cut, or numbered; none of this makes it a device name, since what
decides that is the text before the first dot.
-/

namespace WireGuardWindows.Conf
open GoStd Strings Strconv Unicode

def wsTLSFileNameFallback : Str := str "ws-tls"
def wsTLSFileNameMaxLen : Nat := 64

def isFileNameStart (b : UInt8) : Bool :=
  (0x61 ≤ b && b ≤ 0x7A) || (0x41 ≤ b && b ≤ 0x5A) || (0x30 ≤ b && b ≤ 0x39) || b ==
    0x5F || b == hyphen

def isFileNameByte (b : UInt8) : Bool := isFileNameStart b || b == dot

/-- The expression `^[a-zA-Z0-9_-][a-zA-Z0-9_.-]{0,63}$`. -/
def allowedWSTLSFileNameFormat : Str → Bool
  | [] => false
  | b :: rest => isFileNameStart b && rest.all isFileNameByte && rest.length ≤ 63

def wsTLSFileNameIsValid (name : Str) : Bool :=
  allowedWSTLSFileNameFormat name && !(name.getLast? == some dot) && !isReserved name

def isAlphabetic (c : UInt8) : Bool := 0x61 ≤ (c ||| 32) && (c ||| 32) ≤ 0x7A

def sanitizeRune (r : Nat) : UInt8 :=
  if r < 0x80 ∧ (isAlphabetic r.toUInt8 ∨ (0x30 ≤ r ∧ r ≤ 0x39) ∨ r = 0x5F ∨ r = 0x2D ∨ r = 0x2E)
    then r.toUInt8
  else 0x5F

def trimDots (s : Str) : Str := (s.dropWhile (· == dot)).rdropWhile (· == dot)

def keptExt (name : Str) : Str :=
  if wsTLSFileNameMaxLen / 2 < (Filepath.ext name).length then [] else Filepath.ext name

def shortenName (name : Str) : Str :=
  if wsTLSFileNameMaxLen < name.length then
    (name.take (wsTLSFileNameMaxLen - (keptExt name).length)).rdropWhile (· == dot) ++ keptExt name
  else name

def sanitizeWSTLSFileName (base : Str) : Str :=
  let name := trimDots ((runes base).map sanitizeRune)
  if name = [] then wsTLSFileNameFallback
  else shortenName (if isReserved name then 0x5F :: name else name)

/-- The candidate with number `i`; `none` is a slice out of bounds, which takes a number
of more than thirty digits. -/
def numberedName (name : Str) (i : Nat) : Option Str :=
  let ext := keptExt name
  let stem := trimSuffix name ext
  let suffix := hyphen :: itoa i
  if stem.length + suffix.length + ext.length ≤ wsTLSFileNameMaxLen
    then some (stem ++ suffix ++ ext)
  else if suffix.length + ext.length ≤ wsTLSFileNameMaxLen then
    some (stem.take (wsTLSFileNameMaxLen - suffix.length - ext.length) ++ suffix ++ ext)
  else none

def uniqueLoop (name : Str) (taken : List Str) : Nat → Nat → Option Str
  | 0, _ => none
  | fuel + 1, i => do
    let candidate ← numberedName name i
    if toLower candidate ∈ taken then uniqueLoop name taken fuel (i + 1) else some candidate

def uniqueWSTLSFileName (name : Str) (taken : List Str) : Option Str :=
  if toLower name ∈ taken then uniqueLoop name taken (taken.length + 1) 2 else some name

theorem isASCII_of_fileNameBytes {s : Str} (h : ∀ b ∈ s, isFileNameByte b = true) :
    isASCII s = true := by
  rw [isASCII, List.all_eq_true]
  intro b hb
  have hbyte := h b hb
  simp only [isFileNameByte, isFileNameStart, Bool.or_eq_true, Bool.and_eq_true, decide_eq_true_eq,
    beq_iff_eq] at hbyte
  rw [decide_eq_true_eq, UInt8.lt_iff_toNat_lt]
  simp only [UInt8.le_iff_toNat_le, UInt8.ext_iff] at hbyte
  have hdot : dot.toNat = 0x2E := rfl
  have hhyphen : hyphen.toNat = 0x2D := rfl
  simp only [hdot, hhyphen, UInt8.reduceToNat] at hbyte ⊢
  omega

theorem isReserved_congr {a b : Str} (h : (cut a dot).1 = (cut b dot).1) :
    isReserved a = isReserved b := by
  have hdot : dot = 0x2E := rfl
  rw [isReserved, isReserved, ← hdot, h]

theorem isReserved_eq_false {name : Str} (hbytes : ∀ b ∈ name, isFileNameByte b = true)
    (h : 4 < (cut name dot).1.length ∨ hyphen ∈ (cut name dot).1 ∨ 0x5F ∈ (cut name dot).1) :
    isReserved name = false := by
  have hdot : dot = 0x2E := rfl
  rw [isReserved, ← hdot, List.any_eq_false]
  intro r hr heq
  have hascii : isASCII (cut name dot).1 = true :=
    isASCII_of_fileNameBytes fun b hb => hbytes b ((cut_isPrefix name dot).subset hb)
  rw [equalFold_of_isASCII hascii, decide_eq_true_eq] at heq
  have hshort : ∀ r ∈ reservedNames, r.length ≤ 4 ∧ hyphen ∉ r.map lowerByte ∧
      0x5F ∉ r.map lowerByte := by
    decide
  obtain ⟨hlen, hno, hno'⟩ := hshort r hr
  have hlength := congrArg List.length heq
  rw [List.length_map, List.length_map] at hlength
  rcases h with h | h | h
  · omega
  · have hmem : lowerByte hyphen ∈ (cut name dot).1.map lowerByte := List.mem_map_of_mem h
    rw [heq] at hmem
    exact hno hmem
  · have hmem : lowerByte 0x5F ∈ (cut name dot).1.map lowerByte := List.mem_map_of_mem h
    rw [heq] at hmem
    exact hno' hmem

structure GoodName (s : Str) : Prop where
  ne_nil : s ≠ []
  bytes : ∀ b ∈ s, isFileNameByte b = true
  head : s.head? ≠ some dot
  last : s.getLast? ≠ some dot
  notReserved : isReserved s = false

theorem isFileNameStart_iff {b : UInt8} :
    isFileNameStart b = true ↔ isFileNameByte b = true ∧ b ≠ dot := by
  have hdot : isFileNameStart dot = false := by decide
  rw [isFileNameByte, Bool.or_eq_true, beq_iff_eq]
  constructor
  · intro h
    refine ⟨Or.inl h, ?_⟩
    rintro rfl
    rw [hdot] at h
    cases h
  · rintro ⟨h | h, hne⟩
    · exact h
    · exact absurd h hne

theorem wsTLSFileNameIsValid_iff {s : Str} :
    wsTLSFileNameIsValid s = true ↔ GoodName s ∧ s.length ≤ wsTLSFileNameMaxLen := by
  cases s with
  | nil => exact iff_of_false (by decide) fun h => h.1.ne_nil rfl
  | cons b rest =>
    simp only [wsTLSFileNameIsValid, allowedWSTLSFileNameFormat, Bool.and_eq_true,
      Bool.not_eq_true', isFileNameStart_iff, List.all_eq_true, decide_eq_true_eq,
      beq_eq_false_iff_ne]
    have hmax : (b :: rest).length ≤ wsTLSFileNameMaxLen ↔ rest.length ≤ 63 := by
      rw [List.length_cons, wsTLSFileNameMaxLen]
      omega
    rw [hmax]
    constructor
    · rintro ⟨⟨⟨⟨⟨hb, hne⟩, hrest⟩, hlen⟩, hlast⟩, hres⟩
      refine ⟨⟨List.cons_ne_nil _ _, ?_, by simpa using hne, hlast, hres⟩, hlen⟩
      exact List.forall_mem_cons.mpr ⟨hb, hrest⟩
    · rintro ⟨hgood, hlen⟩
      obtain ⟨hb, hrest⟩ := List.forall_mem_cons.mp hgood.bytes
      exact ⟨⟨⟨⟨⟨hb, by simpa using hgood.head⟩, hrest⟩, hlen⟩, hgood.last⟩, hgood.notReserved⟩

theorem GoodName.isASCII {s : Str} (h : GoodName s) : Unicode.isASCII s = true :=
  isASCII_of_fileNameBytes h.bytes

theorem isFileNameByte_sanitizeRune (r : Nat) : isFileNameByte (sanitizeRune r) = true := by
  have hall : ∀ r < 0x80, isFileNameByte (sanitizeRune r) = true := by decide +kernel
  by_cases hr : r < 0x80
  · exact hall r hr
  · rw [sanitizeRune, if_neg fun h => hr h.1]
    decide

theorem head_rdropWhile {s : Str} {p : UInt8 → Bool} {b : UInt8} (h : s.head? = some b)
    (hb : p b = false) :
    (s.rdropWhile p).head? = some b := by
  obtain ⟨t, rfl⟩ : ∃ t, s = b :: t := by
    cases s with
    | nil => cases h
    | cons c t => exact ⟨t, by rw [Option.some.inj h]⟩
  obtain ⟨u, hu⟩ := List.rdropWhile_prefix p (b :: t)
  cases hd : (b :: t).rdropWhile p with
  | nil =>
    have hall := List.rdropWhile_eq_nil_iff.mp hd b List.mem_cons_self
    rw [hb] at hall
    cases hall
  | cons c v =>
    rw [hd, List.cons_append, List.cons.injEq] at hu
    rw [List.head?_cons, hu.1]

theorem getLast_rdropWhile (s : Str) : (s.rdropWhile (· == dot)).getLast? ≠ some dot := by
  intro h
  have hne : s.rdropWhile (· == dot) ≠ [] := by
    intro hnil
    rw [hnil] at h
    cases h
  rw [List.getLast?_eq_some_getLast hne] at h
  have hnot := List.rdropWhile_last_not (· == dot) s hne
  rw [Option.some.inj h] at hnot
  exact hnot (by decide)

theorem trimDots_ends {s : Str} (h : trimDots s ≠ []) :
    (trimDots s).head? ≠ some dot ∧ (trimDots s).getLast? ≠ some dot := by
  refine ⟨?_, getLast_rdropWhile _⟩
  have hhead := List.head?_dropWhile_not (· == dot) s
  cases hd : s.dropWhile (· == dot) with
  | nil =>
    rw [trimDots, hd] at h
    exact absurd rfl h
  | cons b t =>
    rw [hd] at hhead
    have hb : (b == dot) = false := hhead
    have hkeep : ((b :: t).rdropWhile (· == dot)).head? = some b := head_rdropWhile rfl hb
    rw [trimDots, hd, hkeep]
    intro heq
    rw [Option.some.inj heq] at hb
    exact absurd hb (by decide)

theorem mem_trimDots {s : Str} {b : UInt8} (h : b ∈ trimDots s) : b ∈ s :=
  (List.dropWhile_sublist _).subset ((List.rdropWhile_prefix _ _).subset h)

theorem goodName_sanitized {base : Str} (h : trimDots ((runes base).map sanitizeRune) ≠ []) :
    GoodName (if isReserved (trimDots ((runes base).map sanitizeRune)) then
      0x5F :: trimDots ((runes base).map sanitizeRune) else trimDots
        ((runes base).map sanitizeRune)) := by
  have hbytes : ∀ b ∈ trimDots ((runes base).map sanitizeRune), isFileNameByte b = true := by
    intro b hb
    obtain ⟨r, -, rfl⟩ := List.mem_map.mp (mem_trimDots hb)
    exact isFileNameByte_sanitizeRune r
  obtain ⟨hhead, hlast⟩ := trimDots_ends h
  generalize trimDots ((runes base).map sanitizeRune) = name at h hbytes hhead hlast
  split_ifs with hres
  · have hbytes' : ∀ b ∈ (0x5F :: name : Str), isFileNameByte b = true :=
      List.forall_mem_cons.mpr ⟨by decide, hbytes⟩
    refine ⟨List.cons_ne_nil _ _, hbytes', fun hd => absurd (Option.some.inj hd) (by decide), ?_,
      ?_⟩
    · rwa [List.getLast?_cons_of_ne_nil h]
    · have hcut : (cut (0x5F :: name) dot).1 = 0x5F :: (cut name dot).1 :=
        congrArg Prod.fst (cut_append_left (show dot ∉ [0x5F] by decide) name)
      exact isReserved_eq_false hbytes' (Or.inr (Or.inr (hcut ▸ List.mem_cons_self)))
  · exact ⟨h, hbytes, hhead, hlast, by simpa using hres⟩

theorem GoodName.lastElement {name : Str} (h : GoodName name) :
    Filepath.lastElement name = name := by
  rw [Filepath.lastElement, List.rtakeWhile_eq_self_iff]
  intro b hb
  have hno : ∀ c, Filepath.isPathSeparator c = true → isFileNameByte c = false := by
    intro c hc
    rw [Filepath.isPathSeparator, Bool.or_eq_true, beq_iff_eq, beq_iff_eq] at hc
    rcases hc with rfl | rfl <;> decide
  rw [Bool.not_eq_true']
  by_contra hsep
  have hbyte := h.bytes b hb
  rw [hno b (by simpa using hsep)] at hbyte
  cases hbyte

theorem GoodName.keptExt {name : Str} (h : GoodName name) :
    (∃ stem, stem ≠ [] ∧ name = stem ++ Conf.keptExt name) ∧ (Conf.keptExt name).length ≤ 32 ∧
      (Conf.keptExt name = [] ∨ ∃ e, Conf.keptExt name = dot :: e ∧ e ≠ [] ∧
        e.getLast? ≠ some dot) := by
  have hnone : ∀ {e : Str}, e = [] → (∃ stem, stem ≠ [] ∧ name = stem ++ e) ∧ e.length ≤ 32 ∧
      (e = [] ∨ ∃ e', e = dot :: e' ∧ e' ≠ [] ∧ e'.getLast? ≠ some dot) := by
    rintro e rfl
    exact ⟨⟨name, h.ne_nil, (List.append_nil name).symm⟩, by decide, Or.inl rfl⟩
  by_cases hlong : wsTLSFileNameMaxLen / 2 < (Filepath.ext name).length
  · rw [Conf.keptExt, if_pos hlong]
    exact hnone rfl
  · rw [Conf.keptExt, if_neg hlong]
    rw [Nat.not_lt] at hlong
    rw [Filepath.ext, h.lastElement] at hlong ⊢
    cases hcut : cutLast name dot with
    | none => exact hnone rfl
    | some p =>
      obtain ⟨stem, e⟩ := p
      rw [hcut] at hlong
      obtain ⟨hname, -⟩ := cutLast_eq_some hcut
      have hlast := h.last
      rw [hname] at hlast
      have he : e ≠ [] := by
        rintro rfl
        simp at hlast
      refine ⟨⟨stem, ?_, hname⟩, hlong, Or.inr ⟨e, rfl, he, ?_⟩⟩
      · rintro rfl
        have hhead := h.head
        rw [hname] at hhead
        exact hhead rfl
      · rw [List.getLast?_append_of_ne_nil _ (List.cons_ne_nil _ _),
          List.getLast?_cons_of_ne_nil he] at hlast
        exact hlast

theorem cut_append_of_head {e : Str} (he : e = [] ∨ e.head? = some dot) (q : Str) :
    (cut (q ++ e) dot).1 = (cut q dot).1 := by
  rcases cut_cases q dot with ⟨hq, hc⟩ | ⟨a, b, rfl, ha, hc⟩
  · rw [cut_append_left hq, hc]
    cases e with
    | nil => exact List.append_nil q
    | cons c t =>
      obtain rfl : c = dot := by simpa using he
      have hcut : cut (dot :: t) dot = ([], t, true) := cut_append (a := []) List.not_mem_nil
      rw [hcut, List.append_nil]
  · rw [hc, List.append_assoc, List.cons_append, cut_append ha]

theorem cut_of_isPrefix {q name : Str} (h : q <+: name) (hdot : dot ∈ q) :
    (cut q dot).1 = (cut name dot).1 := by
  obtain ⟨t, rfl⟩ := h
  obtain ⟨a, b, rfl, ha⟩ := List.eq_append_cons_of_mem hdot
  rw [List.append_assoc, List.cons_append, cut_append ha, cut_append ha]

theorem GoodName.bytes_withExt {name q : Str} (h : GoodName name)
    (hbytes : ∀ b ∈ q, isFileNameByte b = true) :
    ∀ b ∈ q ++ Conf.keptExt name, isFileNameByte b = true := by
  obtain ⟨⟨stem, -, hname⟩, -⟩ := h.keptExt
  exact List.forall_mem_append.mpr
    ⟨hbytes, fun b hb => h.bytes b (hname ▸ List.mem_append_right stem hb)⟩

theorem GoodName.withExt {name q : Str} (h : GoodName name) (hne : q ≠ [])
    (hbytes : ∀ b ∈ q, isFileNameByte b = true) (hhead : q.head? ≠ some dot)
    (hlast : q.getLast? ≠ some dot) (hres : isReserved (q ++ Conf.keptExt name) = false) :
    GoodName (q ++ Conf.keptExt name) := by
  obtain ⟨-, -, hext⟩ := h.keptExt
  refine ⟨List.append_ne_nil_of_left_ne_nil hne _, h.bytes_withExt hbytes, ?_, ?_, hres⟩
  · rwa [List.head?_append_of_ne_nil _ hne]
  · rcases hext with he | ⟨e, he, hne', hlast'⟩
    · rwa [he, List.append_nil]
    · rwa [he, List.getLast?_append_of_ne_nil _ (List.cons_ne_nil _ _),
        List.getLast?_cons_of_ne_nil hne']

theorem GoodName.keptExt_head {name : Str} (h : GoodName name) :
    Conf.keptExt name = [] ∨ (Conf.keptExt name).head? = some dot := by
  rcases h.keptExt.2.2 with he | ⟨e, he, -⟩
  · exact Or.inl he
  · exact Or.inr (he ▸ rfl)

theorem rdropWhile_dot_cases (p : Str) :
    p.rdropWhile (· == dot) = p ∨ ∃ t, p = p.rdropWhile (· == dot) ++ dot :: t := by
  have hsplit : p.rdropWhile (· == dot) ++ p.rtakeWhile (· == dot) = p :=
    List.rdropWhile_append_rtakeWhile
  cases hdots : p.rtakeWhile (· == dot) with
  | nil =>
    rw [hdots, List.append_nil] at hsplit
    exact Or.inl hsplit
  | cons c t =>
    have hmem : c ∈ p.rtakeWhile (· == dot) := hdots ▸ List.mem_cons_self
    have hc := List.mem_rtakeWhile_imp hmem
    rw [hdots, beq_iff_eq.mp hc] at hsplit
    exact Or.inr ⟨t, hsplit.symm⟩

theorem GoodName.notReserved_front {name p : Str} (h : GoodName name) (hp : p <+: name)
    (hlen : 4 < p.length) :
    isReserved (p.rdropWhile (· == dot) ++ Conf.keptExt name) = false := by
  have hqpre : p.rdropWhile (· == dot) <+: name := (List.rdropWhile_prefix _ _).trans hp
  have hcut := cut_append_of_head h.keptExt_head (p.rdropWhile (· == dot))
  by_cases hdot : dot ∈ p.rdropWhile (· == dot)
  · rw [isReserved_congr (hcut.trans (cut_of_isPrefix hqpre hdot))]
    exact h.notReserved
  · -- the front has no dot: it is long, or the cut fell on the first dots of the name
    rw [cut_of_notMem hdot] at hcut
    rcases rdropWhile_dot_cases p with hself | ⟨t, ht⟩
    · refine isReserved_eq_false ?_ (Or.inl ?_)
      · exact h.bytes_withExt fun c hc => h.bytes c (hqpre.subset hc)
      · rwa [hcut, hself]
    · obtain ⟨u, hu⟩ := hp
      have hname : (cut name dot).1 = p.rdropWhile (· == dot) := by
        rw [← hu]
        nth_rewrite 1 [ht]
        rw [List.append_assoc, List.cons_append, cut_append hdot]
      rw [isReserved_congr (hcut.trans hname.symm)]
      exact h.notReserved

theorem GoodName.shortened {name : Str} (h : GoodName name) : GoodName (shortenName name) := by
  rw [shortenName]
  split_ifs with hlong
  · obtain ⟨-, hlen, -⟩ := h.keptExt
    have hplen : 32 ≤ (name.take (wsTLSFileNameMaxLen - (Conf.keptExt name).length)).length := by
      rw [List.length_take, wsTLSFileNameMaxLen]
      rw [wsTLSFileNameMaxLen] at hlong
      omega
    have hfront := List.take_prefix (wsTLSFileNameMaxLen - (Conf.keptExt name).length) name
    generalize name.take (wsTLSFileNameMaxLen - (Conf.keptExt name).length) = p at hplen hfront
    have hpne : p ≠ [] := List.ne_nil_of_length_pos (by omega)
    obtain ⟨b, hb⟩ : ∃ b, p.head? = some b := ⟨_, List.head?_eq_some_head hpne⟩
    have hbhead : name.head? = some b := by
      obtain ⟨t, ht⟩ := hfront
      rw [← ht, List.head?_append_of_ne_nil _ hpne, hb]
    have hbdot : (b == dot) = false := by
      rw [beq_eq_false_iff_ne]
      rintro rfl
      exact h.head hbhead
    have hq : (p.rdropWhile (· == dot)).head? = some b := head_rdropWhile hb hbdot
    refine h.withExt ?_ ?_ ?_ (getLast_rdropWhile p) (h.notReserved_front hfront (by omega))
    · intro hnil
      rw [hnil] at hq
      cases hq
    · exact fun c hc => h.bytes c (hfront.subset ((List.rdropWhile_prefix _ _).subset hc))
    · rw [hq, ← hbhead]
      exact h.head
  · exact h

theorem shortenName_length {name : Str} (h : GoodName name) :
    (shortenName name).length ≤ wsTLSFileNameMaxLen := by
  rw [shortenName]
  split_ifs with hlong
  · obtain ⟨-, hlen, -⟩ := h.keptExt
    have hcut : (List.rdropWhile (· == dot)
      (name.take (wsTLSFileNameMaxLen - (keptExt name).length))).length ≤
        wsTLSFileNameMaxLen - (keptExt name).length :=
      (List.rdropWhile_prefix _ _).length_le.trans (List.length_take_le _ _)
    rw [List.length_append, wsTLSFileNameMaxLen] at *
    omega
  · exact Nat.not_lt.mp hlong

theorem wsTLSFileNameIsValid_sanitize (base : Str) :
    wsTLSFileNameIsValid (sanitizeWSTLSFileName base) = true := by
  by_cases hnil : trimDots ((runes base).map sanitizeRune) = []
  · rw [sanitizeWSTLSFileName, if_pos hnil]
    decide
  · rw [sanitizeWSTLSFileName, if_neg hnil]
    have hgood := goodName_sanitized hnil
    exact wsTLSFileNameIsValid_iff.mpr ⟨hgood.shortened, shortenName_length hgood⟩

theorem isFileNameByte_itoa {n : Nat} {b : UInt8} (h : b ∈ itoa n) :
    isFileNameByte b = true ∧ b ≠ dot ∧ b ≠ hyphen := by
  have hdigit := isDigit_of_mem_itoa h
  refine ⟨?_, ?_, ?_⟩
  · rw [isDigit] at hdigit
    rw [isFileNameByte, isFileNameStart, hdigit, Bool.or_true, Bool.true_or,
      Bool.true_or, Bool.true_or]
  · rintro rfl
    exact absurd hdigit (by decide)
  · rintro rfl
    exact absurd hdigit (by decide)

theorem numberedName_eq_some {name c : Str} {i : Nat} (h : numberedName name i = some c) :
    c.length ≤ wsTLSFileNameMaxLen ∧
      ∃ k, c = (trimSuffix name (keptExt name)).take k ++ hyphen :: itoa i ++ keptExt name := by
  simp only [numberedName] at h
  split_ifs at h with hfits hcut
  · cases h
    refine ⟨by rwa [List.length_append, List.length_append],
      (trimSuffix name (keptExt name)).length, ?_⟩
    rw [List.take_of_length_le le_rfl]
  · cases h
    refine ⟨?_, _, rfl⟩
    rw [List.length_append, List.length_append, List.length_take]
    omega

theorem GoodName.numbered {name : Str} (h : GoodName name) (k i : Nat) :
    GoodName ((trimSuffix name (Conf.keptExt name)).take k ++ hyphen :: itoa i ++
      Conf.keptExt name) := by
  obtain ⟨⟨stem, -, hname⟩, -⟩ := h.keptExt
  have hstem : trimSuffix name (Conf.keptExt name) = stem := by
    nth_rewrite 1 [hname]
    exact trimSuffix_append _ _
  rw [hstem]
  have hfront : stem.take k <+: name :=
    (List.take_prefix k stem).trans (hname ▸ List.prefix_append stem _)
  generalize stem.take k = front at hfront
  have hbytes : ∀ b ∈ front ++ hyphen :: itoa i, isFileNameByte b = true := by
    intro b hb
    rcases List.mem_append.mp hb with hb | hb
    · exact h.bytes b (hfront.subset hb)
    · rcases List.mem_cons.mp hb with rfl | hb
      · decide
      · exact (isFileNameByte_itoa hb).1
  refine h.withExt (List.append_ne_nil_of_right_ne_nil _ (List.cons_ne_nil _ _)) hbytes ?_ ?_ ?_
  · cases front with
    | nil => exact fun hd => absurd (Option.some.inj hd) (by decide)
    | cons b t =>
      obtain ⟨u, hu⟩ := hfront
      rw [List.cons_append, List.head?_cons]
      have hhead := h.head
      rwa [← hu, List.cons_append, List.head?_cons] at hhead
  · rw [List.getLast?_append_of_ne_nil _ (List.cons_ne_nil _ _),
      List.getLast?_cons_of_ne_nil (itoa_ne_nil i)]
    intro hlast
    exact (isFileNameByte_itoa (List.mem_of_getLast? hlast)).2.1 rfl
  · have hcut := cut_append_of_head h.keptExt_head (front ++ hyphen :: itoa i)
    by_cases hdot : dot ∈ front
    · rw [isReserved_congr (b := name)]
      · exact h.notReserved
      · rw [hcut, ← cut_of_isPrefix hfront hdot]
        exact (cut_of_isPrefix (List.prefix_append front _) hdot).symm
    · refine isReserved_eq_false (h.bytes_withExt hbytes) (Or.inr (Or.inl ?_))
      have hnum : dot ∉ hyphen :: itoa i := by
        intro hmem
        rcases List.mem_cons.mp hmem with hmem | hmem
        · exact absurd hmem (by decide)
        · exact (isFileNameByte_itoa hmem).2.1 rfl
      rw [hcut, cut_append_left hdot, cut_of_notMem hnum]
      exact List.mem_append_right _ List.mem_cons_self

theorem uniqueLoop_spec {name c : Str} {taken : List Str} (h : GoodName name) {fuel i : Nat}
    (hc : uniqueLoop name taken fuel i = some c) :
    wsTLSFileNameIsValid c = true ∧ toLower c ∉ taken := by
  induction fuel generalizing i with
  | zero => cases hc
  | succ fuel ih =>
    obtain ⟨candidate, hnum, hc⟩ := Option.bind_eq_some_iff.mp hc
    split_ifs at hc with htaken
    · exact ih hc
    · cases hc
      obtain ⟨hlen, k, rfl⟩ := numberedName_eq_some hnum
      exact ⟨wsTLSFileNameIsValid_iff.mpr ⟨h.numbered k i, hlen⟩, htaken⟩

theorem uniqueWSTLSFileName_spec {name c : Str} {taken : List Str}
    (h : wsTLSFileNameIsValid name = true) (hc : uniqueWSTLSFileName name taken = some c) :
    wsTLSFileNameIsValid c = true ∧ toLower c ∉ taken := by
  rw [uniqueWSTLSFileName] at hc
  split_ifs at hc with htaken
  · exact uniqueLoop_spec (wsTLSFileNameIsValid_iff.mp h).1 hc
  · cases hc
    exact ⟨h, htaken⟩

theorem itoa_length {n k : Nat} (hk : 0 < k) (h : n < 10 ^ k) : (itoa n).length ≤ k := by
  rw [itoa, List.length_map]
  exact Nat.toDigitsCore_length 10 _ n k hk h

theorem map_lowerByte_itoa (n : Nat) : (itoa n).map lowerByte = itoa n := by
  have hdigit : ∀ b ∈ itoa n, lowerByte b = b := by
    intro b hb
    have hle := isDigit_of_mem_itoa hb
    rw [isDigit, Bool.and_eq_true, decide_eq_true_eq, decide_eq_true_eq] at hle
    refine if_neg fun hup => ?_
    exact absurd (UInt8.le_trans hup.1 hle.2) (by decide)
  rw [List.map_congr_left hdigit, List.map_id']

theorem numberedName_ne_none {name : Str} (h : GoodName name) {i : Nat} (hi : i < 10 ^ 30) :
    numberedName name i ≠ none := by
  obtain ⟨-, hext, -⟩ := h.keptExt
  have hsuffix : (hyphen :: itoa i).length ≤ 31 := by
    rw [List.length_cons]
    have hlength := itoa_length (by decide) hi
    omega
  simp only [numberedName]
  split_ifs with hfits hcut
  · exact Option.some_ne_none _
  · exact Option.some_ne_none _
  · rw [wsTLSFileNameMaxLen] at hcut
    omega

theorem numberedName_inj {name c d : Str} (h : GoodName name) {i j : Nat}
    (hc : numberedName name i = some c) (hd : numberedName name j = some d)
    (heq : toLower c = toLower d) : i = j := by
  obtain ⟨-, k, rfl⟩ := numberedName_eq_some hc
  obtain ⟨-, l, rfl⟩ := numberedName_eq_some hd
  rw [toLower_of_isASCII (h.numbered k i).isASCII,
    toLower_of_isASCII (h.numbered l j).isASCII] at heq
  simp only [List.map_append, List.append_left_inj, List.map_cons] at heq
  -- digits have no case, and the last hyphen stands before them
  have hhyphen : lowerByte hyphen = hyphen := by decide
  rw [map_lowerByte_itoa, map_lowerByte_itoa, hhyphen] at heq
  have hno : ∀ n, hyphen ∉ itoa n := fun n hmem => (isFileNameByte_itoa hmem).2.2 rfl
  have hlast := congrArg (cutLast · hyphen) heq
  simp only [cutLast_append (hno i), cutLast_append (hno j), Option.some.injEq,
    Prod.mk.injEq] at hlast
  exact itoa_injective hlast.2

theorem taken_of_uniqueLoop {name : Str} {taken : List Str} (h : GoodName name) {fuel i : Nat}
    (hbound : i + fuel ≤ 10 ^ 30) (hnone : uniqueLoop name taken fuel i = none) :
    ∀ j, i ≤ j → j < i + fuel → ∃ c, numberedName name j = some c ∧ toLower c ∈ taken := by
  induction fuel generalizing i with
  | zero => intro j hij hj; omega
  | succ fuel ih =>
    obtain ⟨c, hc⟩ :=
      Option.ne_none_iff_exists'.mp (numberedName_ne_none h (show i < 10 ^ 30 by omega))
    simp only [uniqueLoop, hc, Option.bind_eq_bind, Option.bind_some] at hnone
    split_ifs at hnone with htaken
    intro j hij hj
    rcases Nat.eq_or_lt_of_le hij with rfl | hlt
    · exact ⟨c, hc, htaken⟩
    · exact ih (by omega) hnone j (by omega) (by omega)

/-- One number more than there are names taken is enough. -/
theorem uniqueWSTLSFileName_ne_none {name : Str} {taken : List Str}
    (h : wsTLSFileNameIsValid name = true) (hbound : taken.length + 3 ≤ 10 ^ 30) :
    uniqueWSTLSFileName name taken ≠ none := by
  rw [uniqueWSTLSFileName]
  split_ifs with htaken
  · have hgood := (wsTLSFileNameIsValid_iff.mp h).1
    intro hnone
    have hall := taken_of_uniqueLoop hgood (by omega) hnone
    set numbers := List.range' 2 (taken.length + 1) with hnumbers
    have hmem : ∀ j ∈ numbers, ∃ c, numberedName name j = some c ∧ toLower c ∈ taken := by
      intro j hj
      obtain ⟨hlo, hhi⟩ := List.mem_range'_1.mp hj
      exact hall j hlo hhi
    have hnodup : (numbers.map fun j => toLower ((numberedName name j).getD [])).Nodup := by
      refine List.Nodup.map_on ?_ List.nodup_range'
      intro i hi j hj heq
      obtain ⟨c, hc, -⟩ := hmem i hi
      obtain ⟨d, hd, -⟩ := hmem j hj
      rw [hc, hd] at heq
      exact numberedName_inj hgood hc hd heq
    have hsubset : (numbers.map fun j => toLower ((numberedName name j).getD [])) ⊆ taken := by
      intro x hx
      obtain ⟨j, hj, rfl⟩ := List.mem_map.mp hx
      obtain ⟨c, hc, hct⟩ := hmem j hj
      rwa [hc]
    have hlength := (hnodup.subperm hsubset).length_le
    rw [List.length_map, hnumbers, List.length_range'] at hlength
    omega
  · exact Option.some_ne_none _

/-- The keys of a Go map from names. Each key is a string header of 16 bytes in a 64-bit
address space, so the number of the loop, an `int`, does not overflow. -/
structure NameMap where
  names : List Str
  fits : 16 * names.length < 2 ^ 64

theorem uniqueWSTLSFileName_sanitize (base : Str) (taken : NameMap) :
    ∃ name, uniqueWSTLSFileName (sanitizeWSTLSFileName base) taken.names = some name ∧
      wsTLSFileNameIsValid name = true ∧ GoodName name ∧ name.length ≤ 64 ∧
      toLower name ∉ taken.names := by
  have hvalid := wsTLSFileNameIsValid_sanitize base
  have hbound : taken.names.length + 3 ≤ 10 ^ 30 := by
    have hfits := taken.fits
    omega
  obtain ⟨name, hname⟩ := Option.ne_none_iff_exists'.mp (uniqueWSTLSFileName_ne_none hvalid hbound)
  obtain ⟨hok, hfree⟩ := uniqueWSTLSFileName_spec hvalid hname
  obtain ⟨hgood, hlength⟩ := wsTLSFileNameIsValid_iff.mp hok
  exact ⟨name, hname, hok, hgood, hlength, hfree⟩

theorem uniqueWSTLSFileName_sanitize_taken :
    ∃ name, uniqueWSTLSFileName (sanitizeWSTLSFileName (str "ca.pem"))
        [str "ca.pem", str "ca-2.pem"] = some name ∧
      wsTLSFileNameIsValid name = true ∧ toLower name ∉ [str "ca.pem", str "ca-2.pem"] := by
  obtain ⟨name, hname, hok, -, -, hfree⟩ :=
    uniqueWSTLSFileName_sanitize (str "ca.pem") ⟨[str "ca.pem", str "ca-2.pem"], by decide⟩
  exact ⟨name, hname, hok, hfree⟩

end WireGuardWindows.Conf
