import WireGuardWindows.Syntax.Tokens

/-!
# What the highlighter makes of a line

The machine runs over bytes. Here its tokens are read line by line: a line without an error
token is blank, a header, or a key with a value, and then a comment.
-/

namespace WireGuardWindows.Syntax
open GoStd Strings Highlight

namespace HighlightState
variable {o : Str}

theorem run_append (xs ys q : Str) (st : HighlightState) :
    run o (xs ++ ys) q st = (run o xs (ys ++ q) st).bind (run o ys q) := by
  induction xs generalizing st with
  | nil => rfl
  | cons b xs ih =>
    simp only [List.cons_append, run, Option.bind_eq_bind, Option.bind_assoc, List.append_assoc]
    congr 1
    funext st'
    exact ih st'

theorem step_feed {st : HighlightState} {p : Str} {b : UInt8} (hc : st.state ≠ .onComment)
    (hn : b ≠ newline) (hh : b ≠ hash) (he : isBlank b = true ∨ st.state ≠ .onNone)
    (hk : ¬ (b = equals ∧ st.state = .onKey)) :
    st.step o p b = some { st with cursor := st.cursor.feed p b } := by
  unfold step
  rw [if_neg (by simp [hn, hh]), if_neg hc]
  by_cases hb : isBlank b = true
  · rw [if_pos hb]
  · have hs : st.state ≠ .onNone := he.resolve_left hb
    rw [if_neg hb, if_neg hk]
    simp [hs]

theorem run_feed {st : HighlightState} {bs q : Str} (hc : st.state ≠ .onComment)
    (hn : newline ∉ bs) (hh : hash ∉ bs) (he : (∀ b ∈ bs, isBlank b = true) ∨ st.state ≠ .onNone)
    (hk : st.state = .onKey → equals ∉ bs) :
    run o bs q st = some { st with cursor := Cursor.feedAll bs q st.cursor } := by
  induction bs generalizing st with
  | nil => rfl
  | cons b bs ih =>
    simp only [List.mem_cons, not_or] at hn hh
    have hstep : st.step o (b :: bs ++ q) b =
        some { st with cursor := st.cursor.feed (b :: bs ++ q) b } := by
      refine step_feed hc (Ne.symm hn.1) (Ne.symm hh.1) ?_ ?_
      · exact he.imp_left fun h => h b List.mem_cons_self
      · rintro ⟨rfl, hkey⟩
        exact hk hkey List.mem_cons_self
    rw [run, hstep]
    refine @ih { st with cursor := st.cursor.feed (b :: bs ++ q) b } hc hn.2 hh.2 ?_ ?_
    · exact he.imp_left fun h c hcm => h c (List.mem_cons_of_mem b hcm)
    · intro hkey hmem
      exact hk hkey (List.mem_cons_of_mem b hmem)

theorem run_comment {st : HighlightState} {bs q : Str} (hc : st.state = .onComment)
    (hn : newline ∉ bs) :
    run o bs q st = some { st with
      cursor := ⟨⟨st.cursor.currentSpan.s, st.cursor.currentSpan.len + bs.length⟩,
        st.cursor.lenAtLastSpace⟩ } := by
  induction bs generalizing st with
  | nil => rfl
  | cons b bs ih =>
    simp only [List.mem_cons, not_or] at hn
    have hstep : st.step o (b :: bs ++ q) b = some { st with
        cursor := ⟨⟨st.cursor.currentSpan.s, st.cursor.currentSpan.len + 1⟩,
          st.cursor.lenAtLastSpace⟩ } := by
      unfold step
      rw [if_neg (by simp [hc, Ne.symm hn.1]), if_pos hc]
    rw [run, hstep]
    refine (@ih { st with
        cursor := ⟨⟨st.cursor.currentSpan.s, st.cursor.currentSpan.len + 1⟩,
          st.cursor.lenAtLastSpace⟩ } hc hn.2).trans ?_
    simp [Nat.add_right_comm, Nat.add_assoc]

theorem run_code {st st' : HighlightState} {bs q : Str} (hc : st.state ≠ .onComment)
    (hh : hash ∉ bs) (h : run o bs q st = some st') : st'.state ≠ .onComment := by
  induction bs generalizing st with
  | nil =>
    cases h
    exact hc
  | cons b bs ih =>
    simp only [List.mem_cons, not_or] at hh
    obtain ⟨st₁, hstep, h⟩ := Option.bind_eq_some_iff.mp h
    refine ih ?_ hh.2 h
    rw [step] at hstep
    split at hstep
    · obtain ⟨st₂, -, hstep⟩ := Option.bind_eq_some_iff.mp hstep
      rw [if_neg (Ne.symm hh.1)] at hstep
      cases hstep
      simp
    split at hstep
    · cases hstep
      exact hc
    split at hstep
    · obtain ⟨f, -, hstep⟩ := Option.bind_eq_some_iff.mp hstep
      cases hstep
      simp
    · cases hstep
      dsimp only
      split_ifs <;> first | exact hc | simp

end HighlightState

section Lines
variable {cfg : Str}

def HasError (ts : List Tok) : Prop := ∃ t, (highlightError, t) ∈ ts

def ValueToks : Field → Str → List Tok → Prop
  | .table, v, ts =>
    ts = [(highlightTable, v)] ∧ ∀ b ∈ v, isDecimal b = true ∨ isAlphabet b = true
  | .allowedIPs, v, ts => ts = multiToks (items v) ∧ ∀ t ∈ items v, NetText t
  | _, _, ts => ∀ t ∈ ts, Plain t.1

inductive CodeToks (code : Str) : List Tok → Prop
  | error {ts : List Tok} (h : HasError ts) : CodeToks code ts
  | blank (h : trimBlanks code = []) : CodeToks code []
  | header {name : String} {f : Field} (hname : (name, f) ∈ sectionNames)
    (h : (trimBlanks code).map StringSpan.upper = (str name).map StringSpan.upper) :
    CodeToks code [(highlightSection, trimBlanks code)]
  | key {k v : Str} {name : String} {f : Field} {ts : List Tok} (hcode : code = k ++ equals :: v)
    (hk : equals ∉ k) (hname : (name, f) ∈ fieldNames)
    (hkey : (trimBlanks k).map StringSpan.upper = (str name).map StringSpan.upper)
    (hv : trimBlanks v ≠ []) (hts : ValueToks f (trimBlanks v) ts) :
    CodeToks code ((highlightField, trimBlanks k) :: (highlightDelimiter, [equals]) :: ts)

theorem hasError_of_span {new : HighlightSpanArray}
    (h : ∃ span ∈ new, span.t = highlightError) : HasError (toks cfg new) := by
  obtain ⟨span, hspan, ht⟩ := h
  refine ⟨((cfg.drop span.s).take span.len), List.mem_map.mpr ⟨span, hspan, ?_⟩⟩
  rw [HighlightSpan.tok, ht]

theorem append_singleton {o : Str} {s : StringSpan} (h : s.len ≠ 0) (hsa : HighlightSpanArray)
    (t : Highlight) :
    HighlightSpanArray.append o hsa s t = hsa ++ [⟨t, o.length - s.s.length, s.len⟩] := by
  rw [HighlightSpanArray.append, if_neg h]

theorem value_toks {v q x : Str} (hv : v ≠ []) (hq : q ≠ []) (ho : cfg ++ [0] = x ++ (v ++ q))
    {f : Field} {hsa hsa' : HighlightSpanArray} {d : HighlightSpan}
    (h : highlightValue (cfg ++ [0]) (hsa ++ [d]) ⟨v ++ q, v.length⟩ f = some hsa') :
    ∃ new, hsa' = hsa ++ new ∧ ((∃ span ∈ new, span.t = highlightError) ∨
      ∃ vals, new = d :: vals ∧ ValueToks f v (toks cfg vals)) := by
  by_cases ht : f = .table
  · subst ht
    rw [highlightValue] at h
    obtain ⟨valid, hvalid, h⟩ := Option.bind_eq_some_iff.mp h
    have hlen : v.length ≠ 0 := by simpa using hv
    have htoks := toks_append ho hv hq [] (validateHighlight valid highlightTable)
    rw [append_singleton hlen, List.nil_append] at htoks
    cases h
    rw [append_singleton hlen, List.append_assoc]
    refine ⟨_, rfl, ?_⟩
    cases valid with
    | false => exact Or.inl ⟨_, List.mem_append_right _ (List.mem_singleton_self _), rfl⟩
    | true => exact Or.inr ⟨_, rfl, htoks, StringSpan.isValidTable_bytes hvalid⟩
  · by_cases hips : f = .allowedIPs
    · subst hips
      exact multivalue_netExt hq ho h
    · obtain ⟨new, rfl, hnew⟩ := value_ext ht h
      refine ⟨new, rfl, hnew.imp_right ?_⟩
      rintro ⟨vals, rfl, hplain⟩
      refine ⟨vals, rfl, ?_⟩
      have hall : ∀ t ∈ toks cfg vals, Plain t.1 := by
        intro t htm
        obtain ⟨span, hspan, rfl⟩ := List.mem_map.mp htm
        exact hplain span hspan
      cases f <;> first | exact hall | exact absurd rfl ht | exact absurd rfl hips

theorem trimBlanks_ne_nil (y t : Str) {b : UInt8} (hb : ¬ isBlank b = true) :
    trimBlanks (y ++ b :: t) ≠ [] := by
  rw [Ne, trimBlanks_eq_nil, dropBlanks, List.dropWhile_eq_nil_iff]
  intro h
  exact hb (h b (by simp))

theorem run_first {o y rest q : Str} {b : UInt8} {st : HighlightState} (hst : st.state = .onNone)
    (hy : ∀ c ∈ y, isBlank c = true) (hb : ¬ isBlank b = true) (hn : newline ∉ y ++ b :: rest)
    (hh : hash ∉ y ++ b :: rest) :
    HighlightState.run o (y ++ b :: rest) q st =
      HighlightState.run o rest q { st with
        cursor := Cursor.feedAll (y ++ [b]) (rest ++ q) st.cursor
        state := if b = openBracket then .onSection else .onKey } := by
  simp only [List.mem_append, List.mem_cons, not_or] at hn hh
  have hblank : HighlightState.run o y (b :: rest ++ q) st =
      some { st with cursor := Cursor.feedAll y (b :: rest ++ q) st.cursor } :=
    HighlightState.run_feed (by simp [hst]) hn.1 hh.1 (Or.inl hy) (by simp [hst])
  have hfeed : Cursor.feedAll (y ++ [b]) (rest ++ q) st.cursor =
      (Cursor.feedAll y (b :: rest ++ q) st.cursor).feed (b :: rest ++ q) b := by
    rw [Cursor.feedAll_append]
    rfl
  rw [HighlightState.run_append, hblank, hfeed]
  simp [HighlightState.run, HighlightState.step, hst, hb, Ne.symm hn.2.1, Ne.symm hh.2.1]

theorem section_toks {code q x : Str} (hq : q ≠ []) (ho : cfg ++ [0] = x ++ (code ++ q))
    (hne : trimBlanks code ≠ []) {st st' : HighlightState} (hst : st.state = .onSection)
    (hcur : st.cursor = Cursor.feedAll code q (.start (code ++ q)))
    (h : st.flush (cfg ++ [0]) = some st') :
    ∃ ts, toks cfg st'.ret = toks cfg st.ret ++ ts ∧ CodeToks code ts := by
  obtain ⟨y, w, -, -, hcode, htok⟩ := token_feedAll code q
  rw [HighlightState.flush, hst, hcur, htok] at h
  obtain ⟨f, hf, h⟩ := Option.bind_eq_some_iff.mp h
  cases h
  refine ⟨_, toks_append (buffer_split hcode ho) hne (by simp [hq]) _ _, ?_⟩
  by_cases hinv : f = .invalid
  · exact .error ⟨trimBlanks code, by simp [validateHighlight, hinv]⟩
  · obtain ⟨name, hname, hmap⟩ := lookup_some hf hinv
    have hvalid : validateHighlight (decide (f ≠ .invalid)) highlightSection =
        highlightSection := by
      simp [validateHighlight, hinv]
    rw [hvalid]
    exact .header hname hmap

theorem keyOnly_toks {code q x : Str} (hq : q ≠ []) (ho : cfg ++ [0] = x ++ (code ++ q))
    (hne : trimBlanks code ≠ []) {st st' : HighlightState} (hst : st.state = .onKey)
    (hcur : st.cursor = Cursor.feedAll code q (.start (code ++ q)))
    (h : st.flush (cfg ++ [0]) = some st') :
    ∃ ts, toks cfg st'.ret = toks cfg st.ret ++ ts ∧ CodeToks code ts := by
  obtain ⟨y, w, -, -, hcode, htok⟩ := token_feedAll code q
  rw [HighlightState.flush, hst, hcur, htok] at h
  cases h
  exact ⟨_, toks_append (buffer_split hcode ho) hne (by simp [hq]) _ _,
    .error ⟨trimBlanks code, by simp⟩⟩

theorem equals_notMem_name {name : String} {f : Field} (h : (name, f) ∈ fieldNames) :
    equals ∉ (str name).map StringSpan.upper := by
  revert h
  have hall : fieldNames.all (fun e => !((str e.1).map StringSpan.upper).contains equals) =
      true := by
    decide +kernel
  intro h
  simpa using List.all_eq_true.mp hall _ h

theorem equals_notMem_key {k : Str} {name : String} {f : Field} (h : (name, f) ∈ fieldNames)
    (hkey : (trimBlanks k).map StringSpan.upper = (str name).map StringSpan.upper) :
    equals ∉ k := by
  intro hmem
  obtain ⟨y, w, hy, hw, hk, -⟩ := token_feedAll k []
  have hnb : ¬ isBlank equals = true := by decide
  have htrim : equals ∈ trimBlanks k := by
    rw [← hk] at hmem
    simp only [List.mem_append] at hmem
    rcases hmem with hmem | hmem | hmem
    · exact absurd (hy _ hmem) hnb
    · exact hmem
    · exact absurd (hw _ hmem) hnb
  have hup : StringSpan.upper equals = equals := by decide
  apply equals_notMem_name h
  rw [← hkey, ← hup]
  exact List.mem_map_of_mem htrim

theorem delimited_toks {v q x : Str} (hq : q ≠ []) (ho : cfg ++ [0] = x ++ equals :: (v ++ q))
    (hn : newline ∉ v) (hh : hash ∉ v) {st st' : HighlightState} {last : Nat}
    (hst : st.state = .onValue) (hcur : st.cursor = ⟨⟨v ++ q, 0⟩, last⟩)
    (heq : st.equalsLocation = equals :: (v ++ q))
    (h : ((HighlightState.run (cfg ++ [0]) v q st).bind
      (HighlightState.flush (cfg ++ [0]))) = some st') :
    ∃ ts, toks cfg st'.ret = toks cfg st.ret ++ ts ∧ (HasError ts ∨ trimBlanks v ≠ [] ∧
      ∃ vals, ts = (highlightDelimiter, [equals]) :: vals ∧
        ValueToks st.currentField (trimBlanks v) vals) := by
  rw [HighlightState.run_feed (by simp [hst]) hn hh (Or.inr (by simp [hst])) (by simp [hst]), hcur,
    Cursor.feedAll_start] at h
  have h' : HighlightState.flush (cfg ++ [0]) _ = _ := h
  rw [HighlightState.flush] at h'
  simp only [hst, heq, Cursor.token] at h'
  by_cases hv : dropBlanks v = []
  · rw [if_neg (by simp [hv])] at h'
    cases h'
    exact ⟨_, toks_append_byte ho (by simp [hq]) _ _, Or.inl ⟨[equals], by simp⟩⟩
  · have hv' : trimBlanks v ≠ [] := fun he => hv (trimBlanks_eq_nil.mp he)
    obtain ⟨w, -, hdrop⟩ := trimBlanks_append v
    obtain ⟨y, -, hy⟩ := dropBlanks_append v
    rw [if_pos (by simpa using hv), if_neg hv, append_singleton one_ne_zero, hdrop,
      List.append_assoc] at h'
    obtain ⟨ret, hret, h'⟩ := Option.bind_eq_some_iff.mp h'
    cases h'
    have ho' : cfg ++ [0] = (x ++ [equals] ++ y) ++ (trimBlanks v ++ (w ++ q)) :=
      buffer_split (by rw [← hdrop, ← hy]) (by simpa using ho)
    obtain ⟨new, rfl, hnew⟩ := value_toks hv' (by simp [hq]) ho' hret
    refine ⟨toks cfg new, toks_concat _ _, ?_⟩
    have hδ := toks_append_byte ho (by simp [hq]) [] highlightDelimiter
    rw [append_singleton one_ne_zero] at hδ
    rcases hnew with hnew | ⟨vals, rfl, hvals⟩
    · exact Or.inl (hasError_of_span hnew)
    · refine Or.inr ⟨hv', toks cfg vals, ?_, hvals⟩
      rw [← List.singleton_append, toks_concat]
      exact congrArg (· ++ toks cfg vals) hδ

theorem keyValue_toks {k v q x : Str} (hq : q ≠ [])
    (ho : cfg ++ [0] = x ++ (k ++ equals :: (v ++ q))) (hne : trimBlanks k ≠ [])
    (hn : newline ∉ v) (hh : hash ∉ v) {st st' : HighlightState} (hst : st.state = .onKey)
    (hcur : st.cursor = Cursor.feedAll k (equals :: (v ++ q)) (.start (k ++ equals :: (v ++ q))))
    (h : ((HighlightState.run (cfg ++ [0]) (equals :: v) q st).bind
      (HighlightState.flush (cfg ++ [0]))) = some st') :
    ∃ ts, toks cfg st'.ret = toks cfg st.ret ++ ts ∧ CodeToks (k ++ equals :: v) ts := by
  obtain ⟨y, w, -, -, hk, htok⟩ := token_feedAll k (equals :: (v ++ q))
  rw [HighlightState.run, Option.bind_eq_bind, Option.bind_assoc] at h
  obtain ⟨st₁, hstep, h⟩ := Option.bind_eq_some_iff.mp h
  rw [HighlightState.step, if_neg (by rw [hst]; decide), if_neg (by rw [hst]; decide),
    if_neg (by decide), if_pos ⟨rfl, hst⟩, hcur, htok] at hstep
  obtain ⟨f, hf, hstep⟩ := Option.bind_eq_some_iff.mp hstep
  obtain rfl := Option.some.inj hstep
  obtain ⟨ts, hts, hval⟩ := delimited_toks hq (x := x ++ k) (by simpa using ho) hn hh rfl rfl rfl h
  rw [toks_append (buffer_split hk ho) hne (by simp), List.append_assoc] at hts
  refine ⟨_, hts, ?_⟩
  rcases hval with ⟨t, ht⟩ | ⟨hv, vals, rfl, hvals⟩
  · exact .error ⟨t, List.mem_append_right _ ht⟩
  · by_cases herr : sectionForField f = .invalid ∨ f = .invalid ∨
        sectionForField f ≠ st.currentSection
    · exact .error ⟨trimBlanks k, by simp [herr]⟩
    · rw [if_neg herr]
      simp only [not_or] at herr
      obtain ⟨name, hname, hkey⟩ := lookup_some hf herr.2.1
      exact .key rfl (equals_notMem_key hname hkey) hname hkey hv hvals

theorem blanks_or_first (s : Str) : (∀ b ∈ s, isBlank b = true) ∨
    ∃ y b rest, s = y ++ b :: rest ∧ (∀ c ∈ y, isBlank c = true) ∧ ¬ isBlank b = true := by
  induction s with
  | nil => exact Or.inl (by simp)
  | cons c s ih =>
    by_cases hc : isBlank c = true
    · rcases ih with ih | ⟨y, b, rest, rfl, hy, hb⟩
      · exact Or.inl (by simpa [hc] using ih)
      · exact Or.inr ⟨c :: y, b, rest, rfl, by simpa [hc] using hy, hb⟩
    · exact Or.inr ⟨[], c, s, rfl, by simp, hc⟩

theorem code_toks {code q x : Str} (hq : q ≠ []) (ho : cfg ++ [0] = x ++ (code ++ q))
    (hn : newline ∉ code) (hh : hash ∉ code) {st st' : HighlightState} (hst : st.state = .onNone)
    (hcur : st.cursor = .start (code ++ q))
    (h : ((HighlightState.run (cfg ++ [0]) code q st).bind
      (HighlightState.flush (cfg ++ [0]))) = some st') :
    ∃ ts, toks cfg st'.ret = toks cfg st.ret ++ ts ∧ CodeToks code ts := by
  rcases blanks_or_first code with hblank | ⟨y, b, rest, rfl, hy, hb⟩
  · rw [HighlightState.run_feed (by simp [hst]) hn hh (Or.inl hblank) (by simp [hst])] at h
    have h' : HighlightState.flush (cfg ++ [0]) _ = _ := h
    rw [HighlightState.flush] at h'
    simp only [hst] at h'
    cases h'
    refine ⟨[], by simp, .blank (trimBlanks_eq_nil.mpr ?_)⟩
    exact List.dropWhile_eq_nil_iff.mpr hblank
  · have hne := trimBlanks_ne_nil y rest hb
    rw [run_first hst hy hb hn hh, hcur] at h
    simp only [List.mem_append, List.mem_cons, not_or] at hn hh
    have hcur' : ∀ r s : Str, Cursor.feedAll r s (Cursor.feedAll (y ++ [b]) (r ++ s)
        (.start (y ++ b :: r ++ s))) =
        Cursor.feedAll (y ++ b :: r) s (.start (y ++ b :: r ++ s)) := by
      intro r s
      rw [← Cursor.feedAll_append]
      simp
    by_cases hsec : b = openBracket
    · simp only [if_pos hsec] at h
      rw [HighlightState.run_feed (by simp) hn.2.2 hh.2.2 (Or.inr (by simp)) (by simp),
        Option.bind_some] at h
      have hres := fun hs hc => section_toks hq ho hne hs hc h
      exact hres rfl (hcur' rest q)
    · simp only [if_neg hsec] at h
      rcases cut_cases rest equals with ⟨hnot, -⟩ | ⟨k, v, rfl, hk, -⟩
      · rw [HighlightState.run_feed (by simp) hn.2.2 hh.2.2 (Or.inr (by simp))
          (fun _ => hnot), Option.bind_some] at h
        have hres := fun hs hc => keyOnly_toks hq ho hne hs hc h
        exact hres rfl (hcur' rest q)
      · simp only [List.mem_append, List.mem_cons, not_or] at hn hh
        rw [HighlightState.run_append, HighlightState.run_feed (by simp) hn.2.2.1 hh.2.2.1
          (Or.inr (by simp)) (fun _ => hk), Option.bind_some] at h
        have hne' := trimBlanks_ne_nil y k hb
        have happ : y ++ b :: (k ++ equals :: v) = (y ++ b :: k) ++ equals :: v := by simp
        have hcurk := hcur' k (equals :: (v ++ q))
        rw [happ] at ho ⊢
        have hres :=
          fun hs hc => keyValue_toks hq (by simpa using ho) hne' hn.2.2.2.2 hh.2.2.2.2 hs hc h
        refine hres rfl ?_
        simpa using hcurk

/-- The tokens of a line: the code, and the comment as one token. -/
def LineToks (line : Str) (ts : List Tok) : Prop :=
  ∃ code, CodeToks (cut line hash).1 code ∧
    (ts = code ∨ ∃ comment, ts = code ++ [(highlightComment, comment)])

theorem line_toks {line q x : Str} (hq : q ≠ []) (ho : cfg ++ [0] = x ++ (line ++ q))
    (hn : newline ∉ line) {st st' : HighlightState} (hst : st.state = .onNone)
    (hcur : st.cursor = .start (line ++ q))
    (h : ((HighlightState.run (cfg ++ [0]) line q st).bind
      (HighlightState.flush (cfg ++ [0]))) = some st') :
    ∃ ts, toks cfg st'.ret = toks cfg st.ret ++ ts ∧ LineToks line ts := by
  rcases cut_cases line hash with ⟨hh, hcut⟩ | ⟨code, comment, rfl, hh, hcut⟩
  · obtain ⟨ts, hts, hcode⟩ := code_toks hq ho hn hh hst hcur h
    exact ⟨ts, hts, ts, by rwa [hcut], Or.inl rfl⟩
  · simp only [List.mem_append, List.mem_cons, not_or] at hn
    rw [HighlightState.run_append, Option.bind_assoc] at h
    obtain ⟨st₁, hrun, h⟩ := Option.bind_eq_some_iff.mp h
    have hst₁ : st₁.state ≠ .onComment := HighlightState.run_code (by simp [hst]) hh hrun
    rw [HighlightState.run, Option.bind_eq_bind, Option.bind_assoc] at h
    obtain ⟨st₃, hstep, h⟩ := Option.bind_eq_some_iff.mp h
    rw [HighlightState.step, if_pos (Or.inr ⟨hst₁, rfl⟩)] at hstep
    obtain ⟨st₂, hflush, hstep⟩ := Option.bind_eq_some_iff.mp hstep
    rw [if_pos rfl] at hstep
    obtain rfl := Option.some.inj hstep
    have hrun₂ : ((HighlightState.run (cfg ++ [0]) code (hash :: comment ++ q) st).bind
        (HighlightState.flush (cfg ++ [0]))) = some st₂ := by
      rw [hrun]
      exact hflush
    obtain ⟨ts, hts, hcode⟩ := code_toks (by simp) (by simpa using ho) hn.1 hh hst
      (by simpa using hcur) hrun₂
    rw [HighlightState.run_comment rfl hn.2.2, Option.bind_some, HighlightState.flush] at h
    have h' := Option.some.inj h
    subst h'
    have htoks := toks_append (x := x ++ code) (t := hash :: comment) (r := q)
      (by simpa using ho) (by simp) hq st₂.ret highlightComment
    refine ⟨ts ++ [(highlightComment, hash :: comment)], ?_, ts, by rwa [hcut], Or.inr ⟨_, rfl⟩⟩
    rw [← List.append_assoc, ← hts, ← htoks]
    simp [Nat.add_comm]

theorem run_toks {text q x : Str} (hq : q ≠ []) (ho : cfg ++ [0] = x ++ (text ++ q))
    {st st' : HighlightState} (hst : st.state = .onNone) (hcur : st.cursor = .start (text ++ q))
    (h : ((HighlightState.run (cfg ++ [0]) text q st).bind
      (HighlightState.flush (cfg ++ [0]))) = some st') :
    ∃ tss, toks cfg st'.ret = toks cfg st.ret ++ tss.flatten ∧
      List.Forall₂ LineToks (text.splitOn newline) tss := by
  induction hlen : text.length using Nat.strong_induction_on generalizing text x st with
  | _ n ih =>
    subst hlen
    rcases cut_cases text newline with ⟨hn, -⟩ | ⟨line, rest, rfl, hn, -⟩
    · obtain ⟨ts, hts, hline⟩ := line_toks hq ho hn hst hcur h
      refine ⟨[ts], by simpa using hts, ?_⟩
      rw [List.splitOn_eq_singleton hn]
      exact .cons hline .nil
    · rw [HighlightState.run_append, Option.bind_assoc] at h
      obtain ⟨st₁, hrun, h⟩ := Option.bind_eq_some_iff.mp h
      rw [HighlightState.run, Option.bind_eq_bind, Option.bind_assoc] at h
      obtain ⟨st₃, hstep, h⟩ := Option.bind_eq_some_iff.mp h
      rw [HighlightState.step, if_pos (Or.inl rfl)] at hstep
      obtain ⟨st₂, hflush, hstep⟩ := Option.bind_eq_some_iff.mp hstep
      rw [if_neg (by decide)] at hstep
      obtain rfl := Option.some.inj hstep
      have hrun₂ : ((HighlightState.run (cfg ++ [0]) line (newline :: rest ++ q) st).bind
          (HighlightState.flush (cfg ++ [0]))) = some st₂ := by
        rw [hrun]
        exact hflush
      obtain ⟨ts, hts, hline⟩ := line_toks (by simp) (by simpa using ho) hn hst
        (by simpa using hcur) hrun₂
      obtain ⟨tss, htss, hlines⟩ := ih rest.length (by simp; omega) (x := x ++ line ++ [newline])
        (by simpa using ho) rfl rfl h rfl
      refine ⟨ts :: tss, ?_, ?_⟩
      · rw [htss, hts]
        simp
      · rw [List.splitOn_append_cons_self_of_not_mem hn]
        exact .cons hline hlines

/-- The highlighter reads a text line by line. -/
theorem highlightConfig_toks {s : Str} {spans : List HighlightSpan}
    (h : highlightConfig s = some spans) :
    ∃ tss, toks s spans = tss.flatten ∧ List.Forall₂ LineToks (s.splitOn newline) tss := by
  obtain ⟨st, hrun, h⟩ := Option.bind_eq_some_iff.mp h
  obtain ⟨st', hflush, h⟩ := Option.bind_eq_some_iff.mp h
  cases h
  have h₂ : ((HighlightState.run (s ++ [0]) s [0] (.init (s ++ [0]))).bind
      (HighlightState.flush (s ++ [0]))) = some st' := by
    rw [hrun]
    exact hflush
  obtain ⟨tss, htss, hlines⟩ := run_toks (by simp) (List.nil_append _).symm rfl rfl h₂
  exact ⟨tss, by simpa [HighlightState.init, toks] using htss, hlines⟩

end Lines

end WireGuardWindows.Syntax
