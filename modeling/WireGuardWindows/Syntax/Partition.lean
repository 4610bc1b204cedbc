import WireGuardWindows.Syntax.Reads

/-!
# The spans partition the text

The spans of the text read so far tile it: they follow each other, and between them are only
blanks and newlines. Every byte keeps that up, with the token that is being read not yet
tiled. As each function gets a result, no read leaves the buffer.
-/

namespace WireGuardWindows.Syntax
open GoStd Strings Highlight

def isSeparator (b : UInt8) : Bool := isBlank b || b = newline

def HighlightSpan.covers (i : Nat) (span : HighlightSpan) : Bool :=
  span.s ≤ i && i < span.s + span.len

structure SoundPartition (text : Str) (spans : List HighlightSpan) : Prop where
  nonempty : ∀ span ∈ spans, 0 < span.len
  inside : ∀ span ∈ spans, span.s + span.len ≤ text.length
  ordered : spans.Pairwise fun a b => a.s + a.len ≤ b.s
  covered : ∀ i b, text[i]? = some b → isSeparator b = false → spans.countP (·.covers i) = 1

inductive Tiled : Str → HighlightSpanArray → Prop
  | nil : Tiled [] []
  | skip {x : Str} {hsa : HighlightSpanArray} {b : UInt8} (hb : isSeparator b = true)
    (h : Tiled x hsa) : Tiled (x ++ [b]) hsa
  | span {x t : Str} {hsa : HighlightSpanArray} (ht : t ≠ []) (type : Highlight)
    (h : Tiled x hsa) : Tiled (x ++ t) (hsa ++ [⟨type, x.length, t.length⟩])

namespace Tiled

theorem skips {x y : Str} {hsa : HighlightSpanArray} (h : Tiled x hsa)
    (hy : ∀ b ∈ y, isBlank b = true) : Tiled (x ++ y) hsa := by
  induction y using List.reverseRecOn with
  | nil => rwa [List.append_nil]
  | append_singleton y b ih =>
    rw [← List.append_assoc]
    have hb : isSeparator b = true := by
      rw [isSeparator, hy b (by simp), Bool.true_or]
    exact (ih fun c hc => hy c (by simp [hc])).skip hb

theorem append {o x t r : Str} {hsa : HighlightSpanArray} (h : Tiled x hsa)
    (ho : o = x ++ (t ++ r)) (type : Highlight) :
    Tiled (x ++ t) (HighlightSpanArray.append o hsa ⟨t ++ r, t.length⟩ type) := by
  cases t with
  | nil => rwa [List.append_nil]
  | cons b t =>
    have hs : o.length - (b :: t ++ r).length = x.length := by
      rw [ho, List.length_append, Nat.add_sub_cancel]
    rw [append_singleton (Nat.succ_ne_zero _), hs]
    exact h.span (List.cons_ne_nil b t) type

theorem append_byte {o x r : Str} {c : UInt8} {hsa : HighlightSpanArray} (h : Tiled x hsa)
    (ho : o = x ++ c :: r) (type : Highlight) :
    Tiled (x ++ [c]) (HighlightSpanArray.append o hsa ⟨c :: r, 1⟩ type) :=
  append (t := [c]) h ho type

theorem retype {x : Str} {hsa : HighlightSpanArray} {last : HighlightSpan}
    (h : Tiled x (hsa ++ [last])) (type : Highlight) :
    Tiled x (hsa ++ [{ last with t := type }]) := by
  generalize hall : hsa ++ [last] = all at h
  induction h with
  | nil => simp at hall
  | skip hb _ ih => exact (ih hall).skip hb
  | span ht _ h _ =>
    obtain ⟨rfl, hlast⟩ := List.append_inj' hall rfl
    obtain rfl := List.singleton_injective hlast
    exact h.span ht type

variable {x : Str} {hsa : HighlightSpanArray}

theorem inside (h : Tiled x hsa) : ∀ span ∈ hsa, 0 < span.len ∧ span.s + span.len ≤ x.length := by
  induction h with
  | nil => simp
  | skip _ _ ih =>
    intro span hspan
    have hin := ih span hspan
    rw [List.length_append]
    omega
  | span ht _ _ ih =>
    intro span hspan
    rw [List.length_append]
    rcases List.mem_append.mp hspan with hspan | hspan
    · have hin := ih span hspan
      omega
    · obtain rfl := List.mem_singleton.mp hspan
      exact ⟨List.length_pos_iff.mpr ht, le_rfl⟩

theorem ordered (h : Tiled x hsa) : hsa.Pairwise fun a b => a.s + a.len ≤ b.s := by
  induction h with
  | nil => exact List.Pairwise.nil
  | skip _ _ ih => exact ih
  | span _ _ h ih =>
    rw [List.pairwise_append]
    refine ⟨ih, List.pairwise_singleton _ _, ?_⟩
    intro a ha b hb
    obtain rfl := List.mem_singleton.mp hb
    exact (h.inside a ha).2

theorem uncovered (h : Tiled x hsa) {i : Nat} (hi : x.length ≤ i) :
    hsa.countP (HighlightSpan.covers i) = 0 := by
  rw [List.countP_eq_zero]
  intro span hspan hcov
  have hin := h.inside span hspan
  rw [HighlightSpan.covers, Bool.and_eq_true, decide_eq_true_eq, decide_eq_true_eq] at hcov
  omega

theorem covered (h : Tiled x hsa) {i : Nat} {b : UInt8} (hi : x[i]? = some b)
    (hb : isSeparator b = false) : hsa.countP (HighlightSpan.covers i) = 1 := by
  induction h with
  | nil => simp at hi
  | @skip x _ c hc h ih =>
    by_cases hlt : i < x.length
    · exact ih (by rwa [List.getElem?_append_left hlt] at hi)
    · rw [List.getElem?_append_right (not_lt.mp hlt)] at hi
      obtain rfl := List.mem_singleton.mp (List.mem_of_getElem? hi)
      exact absurd (hc.symm.trans hb) (by decide)
  | @span x t _ ht type h ih =>
    rw [List.countP_append, List.countP_singleton]
    by_cases hlt : i < x.length
    · rw [ih (by rwa [List.getElem?_append_left hlt] at hi), if_neg]
      rw [HighlightSpan.covers, Bool.and_eq_true, decide_eq_true_eq]
      exact fun hcov => absurd hcov.1 (not_le.mpr hlt)
    · have hle := not_lt.mp hlt
      have hend : i < (x ++ t).length := (List.getElem?_eq_some_iff.mp hi).1
      rw [h.uncovered hle, if_pos]
      rw [HighlightSpan.covers, Bool.and_eq_true, decide_eq_true_eq, decide_eq_true_eq]
      exact ⟨hle, by rwa [List.length_append] at hend⟩

theorem sound (h : Tiled x hsa) : SoundPartition x hsa where
  nonempty span hspan := (h.inside span hspan).1
  inside span hspan := (h.inside span hspan).2
  ordered := h.ordered
  covered _ _ := h.covered

end Tiled

theorem reads_text (t : Str) {r : Str} (hr : r ≠ []) : StringSpan.Reads ⟨t ++ r, t.length⟩ := by
  rw [StringSpan.Reads, List.length_append]
  exact Nat.lt_add_of_pos_right (List.length_pos_iff.mpr hr)

section
variable {o x t r : Str} {hsa : HighlightSpanArray}

theorem Tiled.parts (h : Tiled x hsa) (ho : o = x ++ (t ++ r)) {i : Nat} (hi : i < t.length)
    (first second third : Highlight) :
    Tiled (x ++ t) (HighlightSpanArray.append o (HighlightSpanArray.append o
      (HighlightSpanArray.append o hsa ⟨t ++ r, i⟩ first) ⟨(t ++ r).drop i, 1⟩ second)
      ⟨(t ++ r).drop (i + 1), t.length - i - 1⟩ third) := by
  obtain ⟨a, c, b, rfl, rfl⟩ : ∃ a c b, t = a ++ c :: b ∧ i = a.length := by
    refine ⟨t.take i, t.get ⟨i, hi⟩, t.drop (i + 1), ?_, ?_⟩
    · rw [List.get_eq_getElem, List.getElem_cons_drop, List.take_append_drop]
    · rw [List.length_take_of_le hi.le]
  have hpre : a ++ c :: b ++ r = a ++ (c :: (b ++ r)) := by simp
  have hdrop : (a ++ c :: b ++ r).drop a.length = c :: (b ++ r) := by rw [hpre, List.drop_left]
  have hdrop' : (a ++ c :: b ++ r).drop (a.length + 1) = b ++ r := by
    rw [← List.drop_drop, hdrop]
    rfl
  have hlen : (a ++ c :: b).length - a.length - 1 = b.length := by simp
  rw [hdrop, hdrop', hlen, hpre]
  have h₁ := h.append (t := a) (r := c :: (b ++ r)) (ho.trans (by rw [hpre])) first
  have h₂ := h₁.append_byte (c := c) (r := b ++ r) (ho.trans (by simp)) second
  have h₃ := h₂.append (t := b) (r := r) (ho.trans (by simp)) third
  simpa using h₃

def Extends (x t : Str) (res : Option HighlightSpanArray) : Prop :=
  ∃ hsa, res = some hsa ∧ Tiled (x ++ t) hsa

theorem Tiled.one (h : Tiled x hsa) (ho : o = x ++ (t ++ r)) (type : Highlight) :
    Extends x t (some (HighlightSpanArray.append o hsa ⟨t ++ r, t.length⟩ type)) :=
  ⟨_, rfl, h.append ho type⟩

theorem extends_bind {α : Type} {v : Option α} (hv : v.isSome) {f : α → Option HighlightSpanArray}
    (hf : ∀ a, v = some a → Extends x t (f a)) : Extends x t (v >>= f) := by
  obtain ⟨a, rfl⟩ := Option.isSome_iff_exists.mp hv
  exact hf a rfl

theorem extends_ite {p : Prop} [Decidable p] {a b : Option HighlightSpanArray}
    (ha : p → Extends x t a) (hb : ¬ p → Extends x t b) : Extends x t (if p then a else b) := by
  by_cases hp : p
  · rw [if_pos hp]
    exact ha hp
  · rw [if_neg hp]
    exact hb hp

theorem multivalueValue_extends (h : Tiled x hsa) (ho : o = x ++ (t ++ r))
    (hr : r ≠ []) (f : Field) :
    Extends x t (highlightMultivalueValue o hsa ⟨t ++ r, t.length⟩ f) := by
  have hreads := reads_text t hr
  have hone := h.one ho
  have hnetwork : ∀ g, g = Field.address ∨ g = Field.allowedIPs →
      Extends x t (highlightMultivalueValue o hsa ⟨t ++ r, t.length⟩ g) := by
    intro g hg
    have hunfold : highlightMultivalueValue o hsa ⟨t ++ r, t.length⟩ g =
        highlightMultivalueValue o hsa ⟨t ++ r, t.length⟩ .address := by
      rcases hg with rfl | rfl <;> rfl
    rw [hunfold, highlightMultivalueValue]
    refine extends_bind (StringSpan.isValidNetwork_isSome hreads) fun valid _ => ?_
    refine extends_ite (fun _ => hone _) fun _ => ?_
    obtain ⟨i, hi, hlt⟩ := StringSpan.indexByte_isSome slash hreads.le
    refine extends_bind (by rw [hi]; rfl) fun k hk => ?_
    obtain rfl := Option.some.inj (hi.symm.trans hk)
    cases i with
    | none => exact hone _
    | some i => exact ⟨_, rfl, h.parts ho (hlt i rfl) _ _ _⟩
  cases f with
  | dns =>
    rw [highlightMultivalueValue]
    refine extends_bind (StringSpan.isValidIPv4_isSome hreads) fun _ _ => ?_
    refine extends_ite (fun _ => hone _) fun _ => ?_
    refine extends_bind (StringSpan.isValidIPv6_isSome hreads) fun _ _ => ?_
    refine extends_ite (fun _ => hone _) fun _ => ?_
    refine extends_bind (StringSpan.isValidHostname_isSome hreads) fun _ _ => ?_
    exact extends_ite (fun _ => hone _) fun _ => hone _
  | address => exact hnetwork _ (Or.inl rfl)
  | allowedIPs => exact hnetwork _ (Or.inr rfl)
  | _ => exact hone _

theorem multivalue_comma {a b q : Str} (ha : comma ∉ a) (f : Field) :
    highlightMultivalue o hsa ⟨a ++ comma :: b ++ q, (a ++ comma :: b).length⟩ f =
      (highlightMultivalueValue o hsa
        (Cursor.feedAll a (comma :: (b ++ q)) (.start (a ++ comma :: (b ++ q)))).token f).bind
        fun hsa => highlightMultivalue o
          (HighlightSpanArray.append o hsa ⟨comma :: (b ++ q), 1⟩ highlightDelimiter)
          ⟨b ++ q, b.length⟩ f := by
  have hlen : (a ++ comma :: b).length = a.length + (b.length + 1) := by simp
  have happ : a ++ comma :: b ++ q = a ++ (comma :: (b ++ q)) := by simp
  have hcomma : ∀ cur, multivalueLoop o f (b.length + 1) (comma :: (b ++ q)) hsa cur =
      (highlightMultivalueValue o hsa cur.token f).bind fun hsa =>
        multivalueLoop o f b.length (b ++ q)
          (HighlightSpanArray.append o hsa ⟨comma :: (b ++ q), 1⟩ highlightDelimiter)
          (Cursor.start (b ++ q)) := by
    intro cur
    simp only [multivalueLoop, List.head?_cons, List.tail_cons, Option.bind_eq_bind,
      Option.bind_some, if_true]
  rw [highlightMultivalue]
  dsimp only
  rw [hlen, happ, multivalueLoop_piece ha, hcomma]
  exact Option.bind_assoc _ _ _

theorem multivalue_last {v q : Str} (hv : comma ∉ v) (f : Field) :
    highlightMultivalue o hsa ⟨v ++ q, v.length⟩ f =
      if (Cursor.feedAll v q (.start (v ++ q))).lenAtLastSpace ≠ 0 then
        highlightMultivalueValue o hsa (Cursor.feedAll v q (.start (v ++ q))).token f
      else do
        let last ← hsa.getLast?
        if last.t = highlightDelimiter then
          return hsa.dropLast ++ [{ last with t := highlightError }]
        return hsa := by
  have hloop := multivalueLoop_piece hv (o := o) (f := f) 0 q hsa (Cursor.start (v ++ q))
  rw [Nat.add_zero] at hloop
  rw [highlightMultivalue]
  dsimp only
  rw [hloop]
  rfl

theorem token_extends {v q : Str} (h : Tiled x hsa) (ho : o = x ++ (v ++ q))
    (hq : q ≠ []) (f : Field) :
    Extends x v
      (highlightMultivalueValue o hsa (Cursor.feedAll v q (.start (v ++ q))).token f) := by
  obtain ⟨y, w, hy, hw, hv, htok⟩ := token_feedAll v q
  have hr : w ++ q ≠ [] := by simp [hq]
  obtain ⟨hsa', hres, htiled⟩ := multivalueValue_extends (h.skips hy) (buffer_split hv ho) hr f
  rw [htok]
  refine ⟨hsa', hres, ?_⟩
  have hall := htiled.skips hw
  rwa [List.append_assoc, List.append_assoc, hv] at hall

-- The last span exists, as a value has its delimiter in front of it.
theorem multivalue_extends {v q : Str} (h : Tiled x hsa) (hne : hsa ≠ []) (ho : o = x ++ (v ++ q))
    (hq : q ≠ []) (f : Field) : Extends x v (highlightMultivalue o hsa ⟨v ++ q, v.length⟩ f) := by
  induction hn : v.length using Nat.strong_induction_on generalizing v x hsa with
  | _ n ih =>
    subst hn
    rcases cut_cases v comma with ⟨hnot, -⟩ | ⟨a, b, rfl, ha, -⟩
    · rw [multivalue_last hnot]
      refine extends_ite (fun _ => token_extends h ho hq f) fun hblank => ?_
      obtain ⟨front, last, rfl⟩ := (List.eq_nil_or_concat' hsa).resolve_left hne
      have hv : ∀ b ∈ v, isBlank b = true := by
        obtain ⟨y, w, hy, hw, hv, htok⟩ := token_feedAll v q
        have hlen : (trimBlanks v).length = 0 := by
          have hlast : (Cursor.feedAll v q (.start (v ++ q))).token.len = 0 := not_not.mp hblank
          rwa [htok] at hlast
        intro b hb
        rw [← hv, List.length_eq_zero_iff.mp hlen, List.nil_append] at hb
        exact (List.mem_append.mp hb).elim (hy b) (hw b)
      rw [List.getLast?_concat, List.dropLast_concat]
      change Extends x v (if last.t = highlightDelimiter then some _ else some _)
      exact extends_ite (fun _ => ⟨_, rfl, (h.retype _).skips hv⟩) fun _ => ⟨_, rfl, h.skips hv⟩
    · have ho' : o = x ++ (a ++ comma :: (b ++ q)) := ho.trans (by simp)
      obtain ⟨hsa₁, h₁, htiled⟩ := token_extends h ho' (List.cons_ne_nil _ _) f
      rw [multivalue_comma ha, h₁]
      have hdelim := htiled.append_byte (c := comma) (r := b ++ q) (ho'.trans (by simp))
        highlightDelimiter
      have hsome : HighlightSpanArray.append o hsa₁ ⟨comma :: (b ++ q), 1⟩ highlightDelimiter ≠
          [] := by
        simp [HighlightSpanArray.append]
      have hrest := ih b.length (by simp; omega) hdelim hsome (ho'.trans (by simp)) rfl
      obtain ⟨hsa₂, h₂, hfin⟩ := hrest
      refine ⟨hsa₂, h₂, ?_⟩
      simpa using hfin

theorem value_extends (h : Tiled x hsa) (hne : hsa ≠ []) (ho : o = x ++ (t ++ r)) (hr : r ≠ [])
    (f : Field) : Extends x t (highlightValue o hsa ⟨t ++ r, t.length⟩ f) := by
  have hreads := reads_text t hr
  have hone := h.one ho
  have hvalid : ∀ {v : Option Bool} (type : Highlight), v.isSome →
      Extends x t (do
        return HighlightSpanArray.append o hsa ⟨t ++ r, t.length⟩ (validateHighlight (← v) type)) :=
    fun type hv => extends_bind hv fun b _ => hone _
  cases f with
  | privateKey | publicKey | presharedKey => exact hvalid _ (StringSpan.isValidKey_isSome hreads)
  | mtu | listenPort | wsPingInterval | wsBackoffMin | wsBackoffMax =>
    exact hvalid _ (StringSpan.isValidUint_isSome hreads _ _ _)
  | table => exact hvalid _ (StringSpan.isValidTable_isSome hreads)
  | persistentKeepalive => exact hvalid _ (StringSpan.isValidPersistentKeepAlive_isSome hreads)
  | endpoint =>
    rw [highlightValue]
    refine extends_bind (StringSpan.isValidWSURL_isSome hreads) fun _ _ => ?_
    refine extends_ite (fun _ => hone _) fun _ => ?_
    refine extends_bind (StringSpan.isValidEndpoint_isSome hreads) fun valid hendpoint => ?_
    refine extends_ite (fun _ => hone _) fun hok => ?_
    -- An endpoint is not empty, so the delimiter lies in the token even if there is no colon.
    have hpos : t.length ≠ 0 := by
      intro hzero
      rw [StringSpan.isValidEndpoint, if_pos hzero] at hendpoint
      cases hendpoint
      exact hok rfl
    obtain ⟨i, hi, hle⟩ := StringSpan.lastColon_isSome hreads le_rfl
    refine extends_bind (by rw [hi]; rfl) fun k hk => ?_
    obtain rfl := Option.some.inj (hi.symm.trans hk)
    exact ⟨_, rfl, h.parts ho (by dsimp only at hle; omega) _ _ _⟩
  | address | dns | allowedIPs => exact multivalue_extends h hne ho hr _
  | wsMode => exact hvalid _ (StringSpan.isValidWSMode_isSome hreads)
  | wsTunnelTarget => exact hvalid _ (StringSpan.isValidEndpoint_isSome hreads)
  | wsMask | wsTLSInsecure => exact hvalid _ (StringSpan.isValidWSBool_isSome hreads)
  | _ => exact hone _

end

namespace HighlightState
variable {o : Str}

/-- What the state says of the text before `p`: the spans tile it up to the token that is being
read, which the cursor has seen. -/
def Covers (o p : Str) (st : HighlightState) : Prop :=
  ∃ x v, Tiled x st.ret ∧ match st.state with
    | .onNone => o = x ++ p ∧ st.cursor = .start p
    | .onKey | .onSection =>
      o = x ++ (v ++ p) ∧ st.cursor = Cursor.feedAll v p (.start (v ++ p))
    | .onValue => o = x ++ equals :: (v ++ p) ∧ st.equalsLocation = equals :: (v ++ p) ∧
      ∃ last, st.cursor = Cursor.feedAll v p ⟨⟨v ++ p, 0⟩, last⟩
    | .onComment => o = x ++ (v ++ p) ∧ st.cursor.currentSpan = ⟨v ++ p, v.length⟩

theorem token_tiled {x v p : Str} {hsa : HighlightSpanArray} (h : Tiled x hsa)
    (ho : o = x ++ (v ++ p)) (type : Highlight) :
    Tiled (x ++ v) (HighlightSpanArray.append o hsa
      (Cursor.feedAll v p (.start (v ++ p))).token type) := by
  obtain ⟨y, w, hy, hw, hv, htok⟩ := token_feedAll v p
  have hall := ((h.skips hy).append (buffer_split hv ho) type).skips hw
  rwa [List.append_assoc, List.append_assoc, hv, ← htok] at hall

theorem flush_covers {p : Str} (hp : p ≠ []) {st : HighlightState} (h : st.Covers o p) :
    ∃ st', st.flush o = some st' ∧ ∃ x, o = x ++ p ∧ Tiled x st'.ret := by
  obtain ⟨x, v, htiled, h⟩ := h
  rw [flush]
  cases hst : st.state with
  | onNone =>
    rw [hst] at h
    exact ⟨st, rfl, x, h.1, htiled⟩
  | onKey =>
    rw [hst] at h
    refine ⟨_, rfl, x ++ v, by rw [h.1, List.append_assoc], ?_⟩
    rw [h.2]
    exact token_tiled htiled h.1 _
  | onSection =>
    rw [hst] at h
    obtain ⟨y, w, -, -, -, htok⟩ := token_feedAll v p
    have hlookup : st.cursor.token.sectionType.isSome := by
      rw [h.2, htok]
      exact lookup_isSome (reads_text _ (by simp [hp])) _
    obtain ⟨sec, hsec⟩ := Option.isSome_iff_exists.mp hlookup
    rw [hsec]
    refine ⟨_, rfl, x ++ v, by rw [h.1, List.append_assoc], ?_⟩
    rw [h.2]
    exact token_tiled htiled h.1 _
  | onComment =>
    rw [hst] at h
    refine ⟨_, rfl, x ++ v, by rw [h.1, List.append_assoc], ?_⟩
    rw [h.2]
    exact htiled.append h.1 _
  | onValue =>
    rw [hst] at h
    obtain ⟨ho, heq, last, hcur⟩ := h
    have hx : o = (x ++ [equals] ++ v) ++ p := ho.trans (by simp)
    have hdelim : ∀ type, Tiled (x ++ [equals])
        (HighlightSpanArray.append o st.ret ⟨st.equalsLocation, 1⟩ type) := by
      intro type
      rw [heq]
      exact htiled.append_byte ho type
    have hstart := Cursor.feedAll_start v p last
    rw [← hcur] at hstart
    dsimp only
    by_cases hblank : dropBlanks v = []
    · rw [if_neg (by simp [hstart, hblank])]
      refine ⟨_, rfl, _, hx, (hdelim _).skips ?_⟩
      exact List.dropWhile_eq_nil_iff.mp hblank
    · -- The first byte of the value has overwritten the length that the key left behind.
      have hcur' : st.cursor = Cursor.feedAll v p (.start (v ++ p)) := by
        rw [hstart, Cursor.start, Cursor.feedAll_start, if_neg hblank, if_neg hblank]
      obtain ⟨y, w, hy, hw, hv, htok⟩ := token_feedAll v p
      have hne : HighlightSpanArray.append o st.ret ⟨st.equalsLocation, 1⟩ highlightDelimiter ≠
          [] := by
        simp [HighlightSpanArray.append]
      have ho' : o = (x ++ [equals]) ++ (v ++ p) := ho.trans (by simp)
      obtain ⟨hsa, hval, hres⟩ := value_extends ((hdelim highlightDelimiter).skips hy) hne
        (buffer_split hv ho') (by simp [hp]) st.currentField
      rw [if_pos (by simp [hstart, hblank]), hcur', htok, hval]
      refine ⟨_, rfl, _, hx, ?_⟩
      have hall := hres.skips hw
      rwa [List.append_assoc, List.append_assoc, hv] at hall

theorem feedAll_concat (v p : Str) (b : UInt8) (c : Cursor) :
    (Cursor.feedAll v (b :: p) c).feed (b :: p) b = Cursor.feedAll (v ++ [b]) p c := by
  rw [Cursor.feedAll_append]
  rfl

theorem covers_feed {p : Str} {b : UInt8} {st : HighlightState} (h : st.Covers o (b :: p))
    (hnone : st.state ≠ .onNone) (hcomment : st.state ≠ .onComment) :
    Covers o p { st with cursor := st.cursor.feed (b :: p) b } := by
  obtain ⟨x, v, htiled, h⟩ := h
  have hmove : v ++ b :: p = v ++ [b] ++ p := by simp
  refine ⟨x, v ++ [b], htiled, ?_⟩
  cases hst : st.state with
  | onNone => exact absurd hst hnone
  | onComment => exact absurd hst hcomment
  | onKey | onSection =>
    rw [hst, hmove] at h
    exact ⟨h.1, by rw [h.2, feedAll_concat]⟩
  | onValue =>
    rw [hst, hmove] at h
    obtain ⟨ho, heq, last, hcur⟩ := h
    exact ⟨ho, heq, last, by rw [hcur, feedAll_concat]⟩

theorem step_covers {p : Str} {b : UInt8} {st : HighlightState} (h : st.Covers o (b :: p)) :
    ∃ st', st.step o (b :: p) b = some st' ∧ st'.Covers o p := by
  rw [step]
  by_cases hend : b = newline ∨ st.state ≠ .onComment ∧ b = hash
  · rw [if_pos hend]
    obtain ⟨st', hflush, x, ho, htiled⟩ := flush_covers (List.cons_ne_nil b p) h
    rw [hflush]
    by_cases hh : b = hash
    · exact ⟨_, if_pos hh, x, [b], htiled, ho, rfl⟩
    · refine ⟨_, if_neg hh, x ++ [b], [], ?_, ?_, rfl⟩
      · have hb : isSeparator b = true := by
          rw [hend.resolve_right fun h => hh h.2]
          decide
        exact htiled.skip hb
      · rw [ho, List.append_assoc]
        rfl
  rw [if_neg hend]
  by_cases hcomment : st.state = .onComment
  · rw [if_pos hcomment]
    obtain ⟨x, v, htiled, h⟩ := h
    rw [hcomment] at h
    refine ⟨_, rfl, x, v ++ [b], htiled, ?_⟩
    dsimp only
    rw [hcomment, h.2, List.length_append, List.append_assoc]
    exact ⟨h.1, rfl⟩
  rw [if_neg hcomment]
  by_cases hblank : isBlank b = true
  · rw [if_pos hblank]
    by_cases hnone : st.state = .onNone
    · obtain ⟨x, v, htiled, h⟩ := h
      rw [hnone] at h
      refine ⟨_, rfl, x ++ [b], v, htiled.skip (by rw [isSeparator, hblank, Bool.true_or]), ?_⟩
      dsimp only
      rw [hnone, h.2, h.1, List.append_assoc]
      refine ⟨rfl, ?_⟩
      rw [Cursor.feed, if_pos hblank]
      exact if_pos ⟨rfl, rfl⟩
    · exact ⟨_, rfl, covers_feed h hnone hcomment⟩
  rw [if_neg hblank]
  by_cases hkey : b = equals ∧ st.state = .onKey
  · rw [if_pos hkey]
    obtain ⟨x, v, htiled, h⟩ := h
    rw [hkey.2] at h
    obtain ⟨y, w, -, -, -, htok⟩ := token_feedAll v (b :: p)
    have hfield : st.cursor.token.field.isSome := by
      rw [h.2, htok]
      exact lookup_isSome (reads_text _ (by simp)) _
    obtain ⟨f, hf⟩ := Option.isSome_iff_exists.mp hfield
    dsimp only
    rw [hf]
    refine ⟨_, rfl, x ++ v, [], ?_, ?_, ?_, _, rfl⟩
    · dsimp only
      rw [h.2]
      exact token_tiled htiled h.1 _
    · rw [h.1, hkey.1, List.append_assoc]
      rfl
    · rw [hkey.1]
      rfl
  rw [if_neg hkey]
  by_cases hnone : st.state = .onNone
  · obtain ⟨x, v, htiled, h⟩ := h
    rw [hnone] at h
    refine ⟨_, rfl, x, [b], htiled, ?_⟩
    dsimp only
    rw [if_pos hnone, h.2]
    by_cases hopen : b = openBracket
    · rw [if_pos hopen]
      exact ⟨h.1, rfl⟩
    · rw [if_neg hopen]
      exact ⟨h.1, rfl⟩
  · refine ⟨_, rfl, ?_⟩
    rw [if_neg hnone]
    exact covers_feed h hnone hcomment

theorem run_covers {bs q : Str} {st : HighlightState} (h : st.Covers o (bs ++ q)) :
    ∃ st', st.run o bs q = some st' ∧ st'.Covers o q := by
  induction bs generalizing st with
  | nil => exact ⟨st, rfl, h⟩
  | cons b bs ih =>
    obtain ⟨st₁, h₁, hcov⟩ := step_covers h
    obtain ⟨st₂, h₂, hcov⟩ := ih hcov
    refine ⟨st₂, ?_, hcov⟩
    rw [run]
    exact Option.bind_eq_some_iff.mpr ⟨st₁, h₁, h₂⟩

end HighlightState

theorem highlightConfig_partition (config : Str) :
    ∃ spans, highlightConfig config = some spans ∧ SoundPartition config spans := by
  have hinit : HighlightState.Covers (config ++ [0]) (config ++ [0]) (.init (config ++ [0])) :=
    ⟨[], [], Tiled.nil, rfl, rfl⟩
  obtain ⟨st, hrun, hcov⟩ := HighlightState.run_covers hinit
  obtain ⟨st', hflush, x, hx, htiled⟩ := HighlightState.flush_covers (List.cons_ne_nil 0 []) hcov
  obtain rfl := List.append_cancel_right hx
  refine ⟨st'.ret, ?_, htiled.sound⟩
  rw [highlightConfig]
  exact Option.bind_eq_some_iff.mpr ⟨st, hrun, Option.bind_eq_some_iff.mpr ⟨st', hflush, rfl⟩⟩

end WireGuardWindows.Syntax
