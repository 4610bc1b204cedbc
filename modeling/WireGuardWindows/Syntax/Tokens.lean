import WireGuardWindows.Syntax.Networks

/-!
# Tokens of the highlighter

A span with its text is a token. The cursor leaves out the blanks around a token. A value
adds tokens behind the delimiter in front of it; those of `AllowedIPs` are given item by item,
of the others it matters only that they are plain.
-/

namespace WireGuardWindows.Syntax
open GoStd Strings Highlight

abbrev Tok := Highlight × Str

def HighlightSpan.tok (cfg : Str) (span : HighlightSpan) : Tok :=
  (span.t, (cfg.drop span.s).take span.len)

def toks (cfg : Str) (hsa : HighlightSpanArray) : List Tok := hsa.map (HighlightSpan.tok cfg)

def dropBlanks (s : Str) : Str := s.dropWhile isBlank

def trimBlanks (s : Str) : Str := (dropBlanks s).rdropWhile isBlank

def Cursor.feedAll : Str → Str → Cursor → Cursor
  | [], _, c => c
  | b :: bs, q, c => Cursor.feedAll bs q (c.feed (b :: bs ++ q) b)

theorem Cursor.feedAll_append (xs ys q : Str) (c : Cursor) :
    Cursor.feedAll (xs ++ ys) q c = Cursor.feedAll ys q (Cursor.feedAll xs (ys ++ q) c) := by
  induction xs generalizing c with
  | nil => rfl
  | cons b xs ih => simp only [List.cons_append, Cursor.feedAll, ih, List.append_assoc]

theorem Cursor.feed_of_pos {c : Cursor} (h : c.currentSpan.len ≠ 0) (p : Str) (b : UInt8) :
    c.feed p b = ⟨⟨c.currentSpan.s, c.currentSpan.len + 1⟩,
      if isBlank b then c.lenAtLastSpace else c.currentSpan.len + 1⟩ := by
  unfold Cursor.feed
  by_cases hb : isBlank b = true <;> simp [hb, h]

theorem Cursor.feedAll_token {t : Str} (ht : t ≠ []) (s bs q : Str) :
    Cursor.feedAll bs q ⟨⟨s, t.length⟩, (t.rdropWhile isBlank).length⟩ =
      ⟨⟨s, (t ++ bs).length⟩, ((t ++ bs).rdropWhile isBlank).length⟩ := by
  induction bs generalizing t with
  | nil => simp [Cursor.feedAll]
  | cons b bs ih =>
    have hlen : t.length ≠ 0 := by simpa using ht
    have hfeed : Cursor.feed ⟨⟨s, t.length⟩, (t.rdropWhile isBlank).length⟩ (b :: bs ++ q) b =
        ⟨⟨s, (t ++ [b]).length⟩, ((t ++ [b]).rdropWhile isBlank).length⟩ := by
      rw [Cursor.feed_of_pos hlen, List.rdropWhile_concat]
      by_cases hb : isBlank b = true <;> simp [hb]
    rw [Cursor.feedAll, hfeed, ih (by simp), List.append_assoc, List.singleton_append]

theorem Cursor.feedAll_start (bs q : Str) (last : Nat) :
    Cursor.feedAll bs q ⟨⟨bs ++ q, 0⟩, last⟩ =
      ⟨⟨dropBlanks bs ++ q, (dropBlanks bs).length⟩,
        if dropBlanks bs = [] then last else (trimBlanks bs).length⟩ := by
  induction bs with
  | nil => simp [Cursor.feedAll, dropBlanks]
  | cons b bs ih =>
    by_cases hb : isBlank b = true
    · have hfeed : Cursor.feed ⟨⟨b :: bs ++ q, 0⟩, last⟩ (b :: bs ++ q) b =
          ⟨⟨bs ++ q, 0⟩, last⟩ := by
        simp [Cursor.feed, hb]
      have hdrop : dropBlanks (b :: bs) = dropBlanks bs := by simp [dropBlanks, hb]
      rw [Cursor.feedAll, hfeed, ih, trimBlanks, trimBlanks, hdrop]
    · have hfeed : Cursor.feed ⟨⟨b :: bs ++ q, 0⟩, last⟩ (b :: bs ++ q) b =
          ⟨⟨b :: bs ++ q, [b].length⟩, ([b].rdropWhile isBlank).length⟩ := by
        have hone : [b].rdropWhile isBlank = [b] := by
          rw [List.rdropWhile_singleton, if_neg hb]
        rw [hone]
        simp [Cursor.feed, hb]
      have hdrop : dropBlanks (b :: bs) = b :: bs := by simp [dropBlanks, hb]
      rw [Cursor.feedAll, hfeed, Cursor.feedAll_token (by simp), trimBlanks, hdrop]
      simp

section Tokens
variable {cfg : Str}

theorem toks_append {x t r : Str} (ho : cfg ++ [0] = x ++ (t ++ r)) (ht : t ≠ []) (hr : r ≠ [])
    (hsa : HighlightSpanArray) (h : Highlight) :
    toks cfg (HighlightSpanArray.append (cfg ++ [0]) hsa ⟨t ++ r, t.length⟩ h) =
      toks cfg hsa ++ [(h, t)] := by
  have hlen : t.length ≠ 0 := by simpa using ht
  obtain ⟨r', z, rfl⟩ : ∃ r' z, r = r' ++ [z] := by
    rcases List.eq_nil_or_concat r with rfl | ⟨r', z, rfl⟩
    · exact absurd rfl hr
    · exact ⟨r', z, by simp⟩
  have hcfg : cfg = x ++ (t ++ r') := by
    have h' : cfg ++ [0] = (x ++ (t ++ r')) ++ [z] := by simpa using ho
    exact (List.append_inj' h' rfl).1
  have hoff : (cfg ++ [0]).length - (t ++ (r' ++ [z])).length = x.length := by
    rw [ho]
    simp
  simp only [HighlightSpanArray.append, if_neg hlen, toks, List.map_append, List.map_cons,
    List.map_nil, HighlightSpan.tok, hoff]
  rw [hcfg]
  simp

theorem toks_append_byte {x r : Str} {c : UInt8} (ho : cfg ++ [0] = x ++ c :: r) (hr : r ≠ [])
    (hsa : HighlightSpanArray) (h : Highlight) :
    toks cfg (HighlightSpanArray.append (cfg ++ [0]) hsa ⟨c :: r, 1⟩ h) =
      toks cfg hsa ++ [(h, [c])] :=
  toks_append (t := [c]) ho (by simp) hr hsa h

theorem isCaselessSame_eq (t r c : Str) :
    StringSpan.isCaselessSame ⟨t ++ r, t.length⟩ c =
      some (decide (t.map StringSpan.upper = c.map StringSpan.upper)) := by
  unfold StringSpan.isCaselessSame
  by_cases h : t.length = c.length
  · rw [if_pos h, StringSpan.sameLoop_eq _ h]
  · have hne : t.map StringSpan.upper ≠ c.map StringSpan.upper := by
      intro he
      exact h (by simpa using congrArg List.length he)
    simp [h, hne]

theorem lookup_some {names : List (String × Field)} {t r : Str} {f : Field}
    (h : StringSpan.lookup ⟨t ++ r, t.length⟩ names = some f) (hf : f ≠ .invalid) :
    ∃ name, (name, f) ∈ names ∧
      t.map StringSpan.upper = (str name).map StringSpan.upper := by
  induction names with
  | nil =>
    cases h
    exact absurd rfl hf
  | cons e names ih =>
    obtain ⟨name, g⟩ := e
    rw [StringSpan.lookup, isCaselessSame_eq] at h
    by_cases ht : t.map StringSpan.upper = (str name).map StringSpan.upper
    · simp only [ht] at h
      cases h
      exact ⟨name, List.mem_cons_self, ht⟩
    · simp only [ht] at h
      obtain ⟨name', hmem, hname⟩ := ih h
      exact ⟨name', List.mem_cons_of_mem _ hmem, hname⟩

theorem toks_concat (hsa new : HighlightSpanArray) :
    toks cfg (hsa ++ new) = toks cfg hsa ++ toks cfg new := List.map_append

theorem trimBlanks_append (s : Str) :
    ∃ w, (∀ b ∈ w, isBlank b = true) ∧ dropBlanks s = trimBlanks s ++ w :=
  ⟨(dropBlanks s).rtakeWhile isBlank, fun _ hb => List.mem_rtakeWhile_imp hb,
    List.rdropWhile_append_rtakeWhile.symm⟩

theorem dropBlanks_append (s : Str) :
    ∃ w, (∀ b ∈ w, isBlank b = true) ∧ s = w ++ dropBlanks s :=
  ⟨s.takeWhile isBlank, fun _ hb => List.mem_takeWhile_imp hb,
    (List.takeWhile_append_dropWhile).symm⟩

theorem trimBlanks_eq_nil {s : Str} : trimBlanks s = [] ↔ dropBlanks s = [] := by
  constructor
  · intro h
    by_contra hne
    have hall := List.rdropWhile_eq_nil_iff.mp h
    have hhead := List.head_dropWhile_not isBlank hne
    exact absurd ((hall _ (List.head_mem hne)).symm.trans hhead) (by decide)
  · intro h
    rw [trimBlanks, h]
    rfl

theorem token_feedAll (s q : Str) :
    ∃ y w, (∀ b ∈ y, isBlank b = true) ∧ (∀ b ∈ w, isBlank b = true) ∧
      y ++ (trimBlanks s ++ w) = s ∧
      (Cursor.feedAll s q (Cursor.start (s ++ q))).token =
        ⟨trimBlanks s ++ (w ++ q), (trimBlanks s).length⟩ := by
  obtain ⟨y, hy, hs⟩ := dropBlanks_append s
  obtain ⟨w, hw, hdrop⟩ := trimBlanks_append s
  refine ⟨y, w, hy, hw, by rw [← hdrop, ← hs], ?_⟩
  rw [Cursor.start, Cursor.feedAll_start, Cursor.token, hdrop, List.append_assoc]
  split_ifs with hnil
  · have ht : trimBlanks s = [] := (List.append_eq_nil_iff.mp hnil).1
    rw [ht]
    rfl
  · rfl

theorem buffer_split {o x s q y t w : Str} (hs : y ++ (t ++ w) = s) (ho : o = x ++ (s ++ q)) :
    o = (x ++ y) ++ (t ++ (w ++ q)) := by
  rw [ho, ← hs]
  simp

def Plain (t : Highlight) : Prop :=
  t ≠ highlightSection ∧ t ≠ highlightField ∧ t ≠ highlightTable

def PlainExt (hsa hsa' : HighlightSpanArray) : Prop :=
  ∃ new, hsa' = hsa ++ new ∧ ∀ span ∈ new, Plain span.t

theorem PlainExt.refl (hsa : HighlightSpanArray) : PlainExt hsa hsa := ⟨[], by simp⟩

theorem PlainExt.trans {h₁ h₂ h₃ : HighlightSpanArray} (h : PlainExt h₁ h₂) (h' : PlainExt h₂ h₃) :
    PlainExt h₁ h₃ := by
  obtain ⟨n₁, rfl, hp₁⟩ := h
  obtain ⟨n₂, rfl, hp₂⟩ := h'
  refine ⟨n₁ ++ n₂, by simp, ?_⟩
  exact List.forall_mem_append.mpr ⟨hp₁, hp₂⟩

theorem plainExt_append (o : Str) (hsa : HighlightSpanArray) (s : StringSpan) {t : Highlight}
    (ht : Plain t) : PlainExt hsa (HighlightSpanArray.append o hsa s t) := by
  unfold HighlightSpanArray.append
  split_ifs
  · exact .refl hsa
  · exact ⟨_, rfl, by simpa using ht⟩

theorem plain_validate (b : Bool) {t : Highlight} (ht : Plain t) :
    Plain (validateHighlight b t) := by
  cases b
  · simp [validateHighlight, Plain]
  · exact ht

theorem multivalueValue_plain {o : Str} {hsa hsa' : HighlightSpanArray} {s : StringSpan} {f : Field}
    (h : highlightMultivalueValue o hsa s f = some hsa') : PlainExt hsa hsa' := by
  have hip : Plain highlightIP := by simp [Plain]
  have hcidr : Plain highlightCidr := by simp [Plain]
  have hdelim : Plain highlightDelimiter := by simp [Plain]
  have hhost : Plain highlightHost := by simp [Plain]
  have herror : Plain highlightError := by simp [Plain]
  have hnetwork : ∀ g, g = Field.address ∨ g = Field.allowedIPs →
      highlightMultivalueValue o hsa s g = some hsa' → PlainExt hsa hsa' := by
    intro g hg h
    have h' : highlightMultivalueValue o hsa s .address = some hsa' := by
      rcases hg with rfl | rfl <;> exact h
    rw [highlightMultivalueValue] at h'
    obtain ⟨valid, -, h'⟩ := Option.bind_eq_some_iff.mp h'
    split at h'
    · cases h'
      exact plainExt_append o hsa s herror
    · obtain ⟨i, -, h'⟩ := Option.bind_eq_some_iff.mp h'
      cases i with
      | none =>
        cases h'
        exact plainExt_append o hsa s hip
      | some i =>
        cases h'
        exact ((plainExt_append o hsa _ hip).trans (plainExt_append o _ _ hdelim)).trans
          (plainExt_append o _ _ hcidr)
  cases f with
  | address => exact hnetwork _ (Or.inl rfl) h
  | allowedIPs => exact hnetwork _ (Or.inr rfl) h
  | dns =>
    rw [highlightMultivalueValue] at h
    obtain ⟨v4, -, h⟩ := Option.bind_eq_some_iff.mp h
    split at h
    · cases h
      exact plainExt_append o hsa s hip
    obtain ⟨v6, -, h⟩ := Option.bind_eq_some_iff.mp h
    split at h
    · cases h
      exact plainExt_append o hsa s hip
    obtain ⟨name, -, h⟩ := Option.bind_eq_some_iff.mp h
    split at h
    · cases h
      exact plainExt_append o hsa s hhost
    · cases h
      exact plainExt_append o hsa s herror
  | _ =>
    cases h
    exact plainExt_append o hsa s herror

theorem multivalueLoop_plain {o : Str} {f : Field} {n : Nat} {p : Str}
    {hsa hsa' : HighlightSpanArray} {cur cur' : Cursor}
    (h : multivalueLoop o f n p hsa cur = some (hsa', cur')) : PlainExt hsa hsa' := by
  induction n generalizing p hsa cur with
  | zero =>
    cases h
    exact .refl _
  | succ n ih =>
    rw [multivalueLoop] at h
    obtain ⟨b, -, h⟩ := Option.bind_eq_some_iff.mp h
    split at h
    · obtain ⟨hsa₁, h₁, h⟩ := Option.bind_eq_some_iff.mp h
      have hdelim := plainExt_append o hsa₁ ⟨p, 1⟩ (t := highlightDelimiter) (by simp [Plain])
      exact ((multivalueValue_plain h₁).trans hdelim).trans (ih h)
    · exact ih h

def itemToks (t : Str) : List Tok :=
  if t = [] then []
  else match cut t slash with
    | (ip, cidr, true) =>
      [(highlightIP, ip), (highlightDelimiter, [slash]), (highlightCidr, cidr)]
    | (ip, _, false) => [(highlightIP, ip)]

def multiToks : List Str → List Tok
  | [] => []
  | [t] => itemToks t
  | t :: ts => itemToks t ++ (highlightDelimiter, [comma]) :: multiToks ts

def NetText (t : Str) : Prop := ∀ b ∈ t, StringSpan.isNetByte b = true

def NetExt (cfg : Str) (hsa hsa' : HighlightSpanArray) (items : List Str) (ts : List Tok) : Prop :=
  ∃ new, hsa' = hsa ++ new ∧ ((∃ span ∈ new, span.t = highlightError) ∨
    toks cfg new = ts ∧ ∀ t ∈ items, NetText t)

theorem item_netExt {x t r : Str} (ho : cfg ++ [0] = x ++ (t ++ r)) (hr : r ≠ [])
    {hsa hsa' : HighlightSpanArray}
    (h : highlightMultivalueValue (cfg ++ [0]) hsa ⟨t ++ r, t.length⟩ .allowedIPs = some hsa') :
    NetExt cfg hsa hsa' [t] (itemToks t) := by
  obtain ⟨new, rfl, -⟩ := multivalueValue_plain h
  refine ⟨new, rfl, ?_⟩
  have hcancel : ∀ {ts}, toks cfg (hsa ++ new) = toks cfg hsa ++ ts → toks cfg new = ts := by
    intro ts hts
    rw [toks_concat] at hts
    exact List.append_cancel_left hts
  rw [highlightMultivalueValue] at h
  obtain ⟨valid, hvalid, h⟩ := Option.bind_eq_some_iff.mp h
  by_cases ht : t = []
  · subst ht
    cases hvalid.symm.trans (StringSpan.isValidNetwork_empty r)
    have hnew : new = [] := by simpa [HighlightSpanArray.append] using h
    exact Or.inr ⟨by rw [hnew]; rfl, by simp [NetText]⟩
  cases valid with
  | false =>
    have hnew : new =
        [⟨highlightError, (cfg ++ [0]).length - (t ++ r).length, t.length⟩] := by
      simpa [HighlightSpanArray.append, ht] using h.symm
    exact Or.inl ⟨_, by rw [hnew]; exact List.mem_singleton_self _, rfl⟩
  | true =>
    have hnet : NetText t := StringSpan.isValidNetwork_bytes hvalid
    refine Or.inr ⟨hcancel ?_, by simpa using hnet⟩
    obtain ⟨i, hi, h⟩ := Option.bind_eq_some_iff.mp h
    have hspec := StringSpan.indexByte_spec hi
    cases i with
    | none =>
      rw [← Option.some.inj h, toks_append ho ht hr, itemToks, if_neg ht, cut_of_notMem hspec]
    | some i =>
      have hparts := StringSpan.isValidNetwork_parts hvalid hi
      obtain ⟨a, b, rfl, hsl, rfl⟩ := hspec
      have ha : a ≠ [] := by simpa using hparts.1
      have hb : b ≠ [] := by
        intro hb
        exact hparts.2 (by simp [hb])
      have hdrop : (a ++ slash :: b ++ r).drop a.length = slash :: (b ++ r) := by simp
      have hdrop' : (a ++ slash :: b ++ r).drop (a.length + 1) = b ++ r := by
        simp [List.drop_append]
      have hlen : (a ++ slash :: b).length - a.length - 1 = b.length := by simp
      have hitem : itemToks (a ++ slash :: b) =
          [(highlightIP, a), (highlightDelimiter, [slash]), (highlightCidr, b)] := by
        rw [itemToks, if_neg ht, cut_append hsl]
      rw [← Option.some.inj h, hdrop, hdrop', hlen, hitem, List.append_assoc a,
        toks_append (x := x ++ a ++ [slash]) (by simpa using ho) hb hr,
        toks_append_byte (x := x ++ a) (by simpa using ho) (by simp [hb]),
        toks_append (x := x) (by simpa using ho) ha (by simp)]
      simp

/-- What a value other than a table adds behind the delimiter `d`, unless it marks an error. -/
def ValueExt (hsa : HighlightSpanArray) (d : HighlightSpan) (hsa' : HighlightSpanArray) : Prop :=
  ∃ new, hsa' = hsa ++ new ∧ ((∃ span ∈ new, span.t = highlightError) ∨
    ∃ vals, new = d :: vals ∧ ∀ span ∈ vals, Plain span.t)

theorem PlainExt.valueExt {hsa hsa' : HighlightSpanArray} {d : HighlightSpan}
    (h : PlainExt (hsa ++ [d]) hsa') : ValueExt hsa d hsa' := by
  obtain ⟨vals, rfl, hp⟩ := h
  exact ⟨d :: vals, by simp, Or.inr ⟨vals, rfl, hp⟩⟩

theorem multivalue_ext {o : Str} {f : Field} {hsa hsa' : HighlightSpanArray} {d : HighlightSpan}
    {s : StringSpan} (h : highlightMultivalue o (hsa ++ [d]) s f = some hsa') :
    ValueExt hsa d hsa' := by
  rw [highlightMultivalue] at h
  obtain ⟨⟨hsa₁, cur⟩, hloop, h⟩ := Option.bind_eq_some_iff.mp h
  have h₁ := multivalueLoop_plain hloop
  dsimp only at h
  split at h
  · exact (h₁.trans (multivalueValue_plain h)).valueExt
  · obtain ⟨last, hlast, h⟩ := Option.bind_eq_some_iff.mp h
    split at h
    · cases h
      obtain ⟨new, rfl, -⟩ := h₁
      refine ⟨(d :: new).dropLast ++ [{ last with t := highlightError }], ?_, Or.inl ?_⟩
      · rw [List.append_assoc, List.singleton_append, List.dropLast_append_of_ne_nil (by simp),
          List.append_assoc]
      · exact ⟨{ last with t := highlightError }, by simp, rfl⟩
    · cases h
      exact h₁.valueExt

theorem multivalueLoop_piece {o : Str} {f : Field} {piece : Str} (hc : comma ∉ piece) (n : Nat)
    (q : Str) (hsa : HighlightSpanArray) (cur : Cursor) :
    multivalueLoop o f (piece.length + n) (piece ++ q) hsa cur =
      multivalueLoop o f n q hsa (Cursor.feedAll piece q cur) := by
  induction piece generalizing cur with
  | nil => simp [Cursor.feedAll]
  | cons b piece ih =>
    simp only [List.mem_cons, not_or] at hc
    have hlen : (b :: piece).length + n = (piece.length + n) + 1 := by
      rw [List.length_cons]
      omega
    rw [hlen, multivalueLoop, Cursor.feedAll, ← ih hc.2]
    simp [Ne.symm hc.1]

theorem multiToks_cons (t : Str) {ts : List Str} (h : ts ≠ []) :
    multiToks (t :: ts) = itemToks t ++ (highlightDelimiter, [comma]) :: multiToks ts := by
  cases ts with
  | nil => exact absurd rfl h
  | cons t' ts => rfl

def items (v : Str) : List Str := (v.splitOn comma).map trimBlanks

theorem items_of_notMem {v : Str} (h : comma ∉ v) : items v = [trimBlanks v] := by
  rw [items, List.splitOn_eq_singleton h]
  rfl

theorem items_append {a : Str} (h : comma ∉ a) (b : Str) :
    items (a ++ comma :: b) = trimBlanks a :: items b := by
  rw [items, List.splitOn_append_cons_self_of_not_mem h]
  rfl

theorem items_ne_nil (v : Str) : items v ≠ [] := by
  simp [items, List.splitOn_ne_nil]

theorem multivalue_netExt {v q : Str} (hq : q ≠ []) {x : Str}
    (ho : cfg ++ [0] = x ++ (v ++ q)) {hsa hsa' : HighlightSpanArray} {d : HighlightSpan}
    (h : highlightMultivalue (cfg ++ [0]) (hsa ++ [d]) ⟨v ++ q, v.length⟩ .allowedIPs = some hsa') :
    ∃ new, hsa' = hsa ++ new ∧ ((∃ span ∈ new, span.t = highlightError) ∨
      ∃ vals, new = d :: vals ∧ toks cfg vals = multiToks (items v) ∧
        ∀ t ∈ items v, NetText t) := by
  induction hn : v.length using Nat.strong_induction_on generalizing v x hsa d with
  | _ n ih =>
    subst hn
    rw [highlightMultivalue] at h
    rcases cut_cases v comma with ⟨hnot, -⟩ | ⟨a, b, rfl, ha, -⟩
    · -- The last item: the loop only moves the cursor.
      have hloop := @multivalueLoop_piece (cfg ++ [0]) .allowedIPs v hnot 0 q (hsa ++ [d])
        (Cursor.start (v ++ q))
      rw [Nat.add_zero] at hloop
      obtain ⟨y, w, -, -, hv, htok⟩ := token_feedAll v q
      rw [items_of_notMem hnot]
      dsimp only at h
      rw [hloop, multivalueLoop] at h
      change (if (Cursor.feedAll v q (Cursor.start (v ++ q))).token.len ≠ 0 then _ else _) = _ at h
      rw [htok] at h
      by_cases hne : trimBlanks v = []
      · rw [if_neg (by simp [hne])] at h
        obtain ⟨last, hlast, h⟩ := Option.bind_eq_some_iff.mp h
        obtain rfl : d = last := by simpa using hlast
        split_ifs at h
        · cases h
          exact ⟨[{ d with t := highlightError }], by simp,
            Or.inl ⟨_, List.mem_singleton_self _, rfl⟩⟩
        · cases h
          refine ⟨[d], rfl, Or.inr ⟨[], rfl, ?_, ?_⟩⟩
          · rw [hne]
            rfl
          · simp [hne, NetText]
      · rw [if_pos (by simpa using hne)] at h
        obtain ⟨new, rfl, hnew⟩ := item_netExt (buffer_split hv ho) (by simp [hq]) h
        refine ⟨d :: new, by simp, ?_⟩
        rcases hnew with ⟨span, hspan, herr⟩ | hnew
        · exact Or.inl ⟨span, List.mem_cons_of_mem d hspan, herr⟩
        · exact Or.inr ⟨new, rfl, hnew⟩
    · -- An item and a comma, and the rest of the value behind that comma.
      obtain ⟨⟨hsa₂, cur⟩, hloop, hfin⟩ := Option.bind_eq_some_iff.mp h
      have hlen : (a ++ comma :: b).length = a.length + (b.length + 1) := by simp
      have happ : a ++ comma :: b ++ q = a ++ (comma :: (b ++ q)) := by simp
      dsimp only at hloop
      rw [hlen, happ, multivalueLoop_piece ha, multivalueLoop] at hloop
      obtain ⟨c, hc, hloop⟩ := Option.bind_eq_some_iff.mp hloop
      obtain rfl : comma = c := by simpa using hc
      rw [if_pos rfl] at hloop
      obtain ⟨hsa₁, h₁, hloop⟩ := Option.bind_eq_some_iff.mp hloop
      obtain ⟨y, w, -, -, hv, htok⟩ := token_feedAll a (comma :: (b ++ q))
      rw [htok] at h₁
      have ho₁ := buffer_split hv (happ ▸ ho)
      have ho₂ : cfg ++ [0] = (x ++ a) ++ comma :: (b ++ q) := by
        rw [ho]
        simp
      obtain ⟨new₁, rfl, hnew₁⟩ := item_netExt ho₁ (by simp) h₁
      have hδ := toks_append_byte ho₂ (by simp [hq]) [] highlightDelimiter
      have happend : ∀ hsa : HighlightSpanArray,
          HighlightSpanArray.append (cfg ++ [0]) hsa ⟨comma :: (b ++ q), 1⟩ highlightDelimiter =
            hsa ++ HighlightSpanArray.append (cfg ++ [0]) [] ⟨comma :: (b ++ q), 1⟩
              highlightDelimiter := by
        intro hsa
        simp [HighlightSpanArray.append]
      obtain ⟨δ, hδ'⟩ : ∃ δ, HighlightSpanArray.append (cfg ++ [0]) [] ⟨comma :: (b ++ q), 1⟩
          highlightDelimiter = [δ] := ⟨_, rfl⟩
      rw [happend, hδ'] at hloop
      rw [hδ'] at hδ
      have hrest : highlightMultivalue (cfg ++ [0]) (hsa ++ [d] ++ new₁ ++ [δ])
          ⟨b ++ q, b.length⟩ .allowedIPs = some hsa' := by
        rw [highlightMultivalue]
        exact Option.bind_eq_some_iff.mpr ⟨(hsa₂, cur), hloop, hfin⟩
      obtain ⟨new₂, rfl, hnew₂⟩ := ih b.length (by rw [hlen]; omega) (x := x ++ a ++ [comma])
        (by rw [ho₂]; simp) hrest rfl
      refine ⟨d :: (new₁ ++ new₂), by simp, ?_⟩
      rw [items_append ha, multiToks_cons _ (items_ne_nil b)]
      rcases hnew₁ with ⟨span, hspan, herr⟩ | ⟨htoks₁, hnet₁⟩
      · exact Or.inl ⟨span, by simp [hspan], herr⟩
      rcases hnew₂ with ⟨span, hspan, herr⟩ | ⟨vals, rfl, htoks₂, hnet₂⟩
      · exact Or.inl ⟨span, by simp [hspan], herr⟩
      refine Or.inr ⟨new₁ ++ δ :: vals, rfl, ?_, ?_⟩
      · rw [← List.singleton_append, toks_concat, toks_concat, htoks₁, hδ, htoks₂]
        rfl
      · exact List.forall_mem_cons.mpr ⟨hnet₁ _ (List.mem_singleton_self _), hnet₂⟩

theorem value_ext {o : Str} {f : Field} (hf : f ≠ .table) {hsa hsa' : HighlightSpanArray}
    {d : HighlightSpan} {s : StringSpan}
    (h : highlightValue o (hsa ++ [d]) s f = some hsa') : ValueExt hsa d hsa' := by
  have hone : ∀ {t : Highlight}, Plain t →
      ValueExt hsa d (HighlightSpanArray.append o (hsa ++ [d]) s t) :=
    fun ht => (plainExt_append o _ s ht).valueExt
  have hvalid : ∀ {x : Option Bool} {t : Highlight}, Plain t →
      (do return HighlightSpanArray.append o (hsa ++ [d]) s (validateHighlight (← x) t)) =
        some hsa' →
      ValueExt hsa d hsa' := by
    intro x t ht h
    obtain ⟨b, -, h⟩ := Option.bind_eq_some_iff.mp h
    cases h
    exact hone (plain_validate b ht)
  cases f with
  | table => exact absurd rfl hf
  | address | dns | allowedIPs => exact multivalue_ext h
  | endpoint =>
    rw [highlightValue] at h
    obtain ⟨ws, -, h⟩ := Option.bind_eq_some_iff.mp h
    split at h
    · cases h
      exact hone (by simp [Plain])
    obtain ⟨valid, -, h⟩ := Option.bind_eq_some_iff.mp h
    split at h
    · cases h
      exact hone (by simp [Plain])
    obtain ⟨i, -, h⟩ := Option.bind_eq_some_iff.mp h
    cases h
    exact (((plainExt_append o _ _ (by simp [Plain])).trans
      (plainExt_append o _ _ (by simp [Plain]))).trans
      (plainExt_append o _ _ (by simp [Plain]))).valueExt
  | preUp | postUp | preDown | postDown | wsBearer | wsTLSCA | wsTLSCert | wsTLSKey =>
    cases h
    exact hone (plain_validate _ (by simp [Plain]))
  | interfaceSection | peerSection | invalid =>
    cases h
    exact hone (by simp [Plain])
  | _ => exact hvalid (by simp [Plain]) h

end Tokens

end WireGuardWindows.Syntax
