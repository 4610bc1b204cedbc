import WireGuardWindows.Syntax.Parsed
import WireGuardWindows.Tunnel.AddressConfig

/-!
# The kill-switch indicator of the editor

`evaluateUntunneledBlocking` looks at the spelling of highlighted spans, `doNotRestrict` at the
parsed configuration. Along the lines of a text both are followed side by side: the flags of the
evaluation say which networks are listed word for word, and the peer of the parser holds the
parsed networks.
-/

namespace WireGuardWindows.Syntax
open GoStd Strings Unicode Highlight Conf Loops Tunnel

inductive BlockState
  | inevaluableBlockingUntunneledTraffic
  | blockingUntunneledTraffic
  | notBlockingUntunneledTraffic
  deriving DecidableEq, Repr

structure Evaluation where
  onAllowedIPs : Bool := false
  onTable : Bool := false
  tableOff : Bool := false
  seenPeer : Bool := false
  seen00v6 : Bool := false
  seen00v4 : Bool := false
  seen01v6 : Bool := false
  seen80001v6 : Bool := false
  seen01v4 : Bool := false
  seen1281v4 : Bool := false
  deriving DecidableEq, Repr

def Evaluation.seeNetwork (e : Evaluation) (ip cidr : Str) : Evaluation :=
  if cidr = str "0" then
    if ip = str "0.0.0.0" then { e with seen00v4 := true }
    else if ip = str "::" then { e with seen00v6 := true }
    else e
  else if cidr = str "1" then
    if ip = str "0.0.0.0" then { e with seen01v4 := true }
    else if ip = str "128.0.0.0" then { e with seen1281v4 := true }
    else if ip = str "::" then { e with seen01v6 := true }
    else if ip = str "8000::" then { e with seen80001v6 := true }
    else e
  else e

def Evaluation.step (e : Evaluation) (span : Tok) (after : List Tok) : Option Evaluation :=
  match span.1 with
  | highlightError => none
  | highlightSection =>
    if !equalFold span.2 (str "[Peer]") then some e
    else if e.seenPeer then none
    else some { e with seenPeer := true }
  | highlightField =>
    some { e with
      onAllowedIPs := equalFold span.2 (str "AllowedIPs")
      onTable := equalFold span.2 (str "Table") }
  | highlightTable => some (if e.onTable then { e with tableOff := span.2 = str "off" } else e)
  | highlightIP =>
    if !e.onAllowedIPs || !e.seenPeer then some e
    else match after with
      | (highlightDelimiter, _) :: (highlightCidr, cidr) :: _ =>
        -- A text of another length is no single digit.
        some (e.seeNetwork span.2 cidr)
      | _ => some e
  | _ => some e

def Evaluation.run : Evaluation → List Tok → Option Evaluation
  | e, [] => some e
  | e, span :: after => do (← e.step span after).run after

def Evaluation.state (e : Evaluation) : BlockState :=
  if e.tableOff then .inevaluableBlockingUntunneledTraffic
  else if e.seen00v4 || e.seen00v6 then .blockingUntunneledTraffic
  else if e.seen01v4 && e.seen1281v4 || e.seen01v6 && e.seen80001v6 then
    .notBlockingUntunneledTraffic
  else .inevaluableBlockingUntunneledTraffic

def evaluateUntunneledBlocking (cfg : Str) (spans : List HighlightSpan) : BlockState :=
  match Evaluation.run {} (toks cfg spans) with
  | some e => e.state
  | none => .inevaluableBlockingUntunneledTraffic

namespace Evaluation

theorem run_error {ts : List Tok} (h : HasError ts) (e : Evaluation) : run e ts = none := by
  obtain ⟨t, ht⟩ := h
  induction ts generalizing e with
  | nil => cases ht
  | cons tok ts ih =>
    rw [run, Option.bind_eq_bind, Option.bind_eq_none_iff]
    rcases List.mem_cons.mp ht with rfl | ht
    · intro e' he'
      cases he'
    · exact fun e' _ => ih e' ht

def Fresh (ts : List Tok) : Prop :=
  ∀ t ∈ ts.head?, t.1 ≠ highlightDelimiter ∧ t.1 ≠ highlightCidr

theorem step_append {ys : List Tok} (h : Fresh ys) (e : Evaluation) (t : Tok) (xs : List Tok) :
    step e t (xs ++ ys) = step e t xs := by
  obtain ⟨ty, text⟩ := t
  cases ty with
  | highlightIP =>
    match xs, ys, h with
    | (ta, _) :: (tb, _) :: xs, ys, _ =>
      cases ta with
      | highlightDelimiter => cases tb <;> rfl
      | _ => rfl
    | [(ta, _)], (ty, _) :: ys, h =>
      have hy := (h _ rfl).2
      cases ta with
      | highlightDelimiter => cases ty <;> first | rfl | exact absurd rfl hy
      | _ => rfl
    | [], (ty, _) :: ys, h =>
      have hy := (h _ rfl).1
      cases ty <;> first | rfl | exact absurd rfl hy
    | [_], [], _ => rfl
    | [], [], _ => rfl
  | _ => rfl

theorem run_append {ys : List Tok} (h : Fresh ys) (xs : List Tok) (e : Evaluation) :
    run e (xs ++ ys) = (run e xs).bind (run · ys) := by
  induction xs generalizing e with
  | nil => rfl
  | cons t xs ih =>
    rw [List.cons_append, run, run, step_append h]
    simp only [Option.bind_eq_bind, Option.bind_assoc]
    congr 1
    funext e'
    exact ih e'

def onKey (e : Evaluation) (f : Field) : Evaluation :=
  { e with onAllowedIPs := f = .allowedIPs, onTable := f = .table }

theorem run_plain {ts : List Tok} (h : ∀ t ∈ ts, Plain t.1) (hne : ¬ HasError ts) {e : Evaluation}
    (ha : e.onAllowedIPs = false) : run e ts = some e := by
  induction ts with
  | nil => rfl
  | cons t ts ih =>
    have hne' : ¬ HasError ts := fun ⟨x, hx⟩ => hne ⟨x, List.mem_cons_of_mem t hx⟩
    have ht := h t List.mem_cons_self
    have hstep : e.step t ts = some e := by
      obtain ⟨ty, text⟩ := t
      cases ty with
      | highlightError => exact absurd ⟨text, List.mem_cons_self⟩ hne
      | highlightSection => exact absurd rfl ht.1
      | highlightField => exact absurd rfl ht.2.1
      | highlightTable => exact absurd rfl ht.2.2
      | highlightIP => simp [step, ha]
      | _ => rfl
    rw [run, hstep]
    exact ih (fun t' ht' => h t' (List.mem_cons_of_mem t ht')) hne'

def seeItem (e : Evaluation) (t : Str) : Evaluation :=
  match cut t slash with
  | (ip, cidr, true) => e.seeNetwork ip cidr
  | _ => e

theorem seeNetwork_rest (e : Evaluation) (ip cidr : Str) :
    (e.seeNetwork ip cidr).onAllowedIPs = e.onAllowedIPs ∧
      (e.seeNetwork ip cidr).seenPeer = e.seenPeer ∧
      (e.seeNetwork ip cidr).tableOff = e.tableOff := by
  unfold seeNetwork
  split_ifs <;> exact ⟨rfl, rfl, rfl⟩

theorem seeItem_rest (e : Evaluation) (t : Str) :
    (e.seeItem t).onAllowedIPs = e.onAllowedIPs ∧ (e.seeItem t).seenPeer = e.seenPeer ∧
      (e.seeItem t).tableOff = e.tableOff := by
  unfold seeItem
  split
  · exact seeNetwork_rest e _ _
  · exact ⟨rfl, rfl, rfl⟩

end Evaluation

theorem multiToks_head (ts : List Str) : ∀ t ∈ (multiToks ts).head?, t.1 ≠ highlightCidr := by
  have hitem : ∀ u : Str, ∀ t ∈ (itemToks u).head?, t.1 ≠ highlightCidr := by
    intro u t ht
    unfold itemToks at ht
    split_ifs at ht
    · cases ht
    · split at ht <;> cases ht <;> simp
  match ts with
  | [] => simp [multiToks]
  | [u] => exact hitem u
  | u :: u' :: ts =>
    intro t ht
    rw [multiToks_cons u (by simp)] at ht
    cases hu : itemToks u with
    | nil =>
      rw [hu] at ht
      cases ht
      simp
    | cons a as =>
      rw [hu] at ht
      exact hitem u t (by rw [hu]; exact ht)

namespace Evaluation

theorem run_itemToks {e : Evaluation} (ha : e.onAllowedIPs = true)
    (hp : e.seenPeer = true) (t : Str) {after : List Tok}
    (hafter : ∀ d c r, after = (highlightDelimiter, d) :: (highlightCidr, c) :: r → False) :
    run e (itemToks t ++ after) = run (e.seeItem t) after := by
  unfold itemToks seeItem
  rcases cut_cases t slash with ⟨-, hcut⟩ | ⟨ip, cidr, rfl, -, hcut⟩
  · rw [hcut]
    split_ifs
    · rfl
    · have hstep : e.step (highlightIP, t) after = some e := by
        simp only [step, ha, hp, Bool.not_true, Bool.or_self, Bool.false_eq_true, if_false]
      exact (congrArg (Option.bind · (run · after)) hstep)
  · rw [hcut, if_neg (by simp)]
    have hstep : e.step (highlightIP, ip)
        ((highlightDelimiter, [slash]) :: (highlightCidr, cidr) :: after) =
        some (e.seeNetwork ip cidr) := by
      simp [step, ha, hp]
    exact (congrArg (Option.bind · _) hstep)

theorem run_multiToks {e : Evaluation} (ha : e.onAllowedIPs = true) (hp : e.seenPeer = true)
    (ts : List Str) : run e (multiToks ts) = some (ts.foldl seeItem e) := by
  induction ts generalizing e with
  | nil => rfl
  | cons t ts ih =>
    have hrest := seeItem_rest e t
    have ih' := ih (hrest.1.trans ha) (hrest.2.1.trans hp)
    by_cases hts : ts = []
    · subst hts
      have h := @run_itemToks e ha hp t [] (by simp)
      rwa [List.append_nil] at h
    · rw [multiToks_cons t hts, run_itemToks ha hp t, List.foldl_cons, ← ih']
      · rfl
      · intro d c r hr
        have hhead := multiToks_head ts (highlightCidr, c)
        rw [List.cons.injEq] at hr
        rw [hr.2] at hhead
        exact hhead rfl rfl

end Evaluation

def routes : List (Str × Str × (Evaluation → Bool)) :=
  [(str "0.0.0.0", str "0", (·.seen00v4)), (str "::", str "0", (·.seen00v6)),
    (str "0.0.0.0", str "1", (·.seen01v4)), (str "128.0.0.0", str "1", (·.seen1281v4)),
    (str "::", str "1", (·.seen01v6)), (str "8000::", str "1", (·.seen80001v6))]

theorem seeNetwork_flag {ip cidr : Str} {flag : Evaluation → Bool}
    (h : (ip, cidr, flag) ∈ routes) (e : Evaluation) (ip' cidr' : Str) :
    flag (e.seeNetwork ip' cidr') = (flag e || decide (ip' = ip ∧ cidr' = cidr)) := by
  simp only [routes, List.mem_cons, Prod.mk.injEq, List.not_mem_nil, or_false] at h
  unfold Evaluation.seeNetwork
  rcases h with ⟨rfl, rfl, rfl⟩ | ⟨rfl, rfl, rfl⟩ | ⟨rfl, rfl, rfl⟩ | ⟨rfl, rfl, rfl⟩ |
    ⟨rfl, rfl, rfl⟩ | ⟨rfl, rfl, rfl⟩
  all_goals
    split_ifs <;> simp_all +decide

theorem seeItem_flag {ip cidr : Str} {flag : Evaluation → Bool} (h : (ip, cidr, flag) ∈ routes)
    (e : Evaluation) (t : Str) :
    flag (e.seeItem t) = (flag e || decide (t = ip ++ slash :: cidr)) := by
  have hslash : slash ∉ ip := by
    have hall : routes.all (fun r => !r.1.contains slash) = true := by decide
    simpa using List.all_eq_true.mp hall _ h
  unfold Evaluation.seeItem
  rcases cut_cases t slash with ⟨hnot, hcut⟩ | ⟨ip', cidr', rfl, hip', hcut⟩
  · have hne : t ≠ ip ++ slash :: cidr := by
      intro he
      exact hnot (by simp [he])
    simp [hcut, hne]
  · have hiff : ip' ++ slash :: cidr' = ip ++ slash :: cidr ↔ ip' = ip ∧ cidr' = cidr := by
      constructor
      · intro he
        have hcut' := cut_append hslash (b := cidr)
        rw [← he, hcut] at hcut'
        simpa using hcut'
      · rintro ⟨rfl, rfl⟩
        rfl
    rw [hcut]
    simp only [hiff]
    exact seeNetwork_flag h e ip' cidr'

theorem seeItems_flag {ip cidr : Str} {flag : Evaluation → Bool} (h : (ip, cidr, flag) ∈ routes)
    (ts : List Str) (e : Evaluation) :
    flag (ts.foldl Evaluation.seeItem e) = (flag e || decide (ip ++ slash :: cidr ∈ ts)) := by
  induction ts generalizing e with
  | nil => simp
  | cons t ts ih =>
    rw [List.foldl_cons, ih, seeItem_flag h, Bool.or_assoc, ← Bool.decide_or]
    simp [List.mem_cons, eq_comm]

theorem seeItems_rest (ts : List Str) (e : Evaluation) :
    (ts.foldl Evaluation.seeItem e).seenPeer = e.seenPeer ∧
      (ts.foldl Evaluation.seeItem e).tableOff = e.tableOff := by
  induction ts generalizing e with
  | nil => exact ⟨rfl, rfl⟩
  | cons t ts ih =>
    have hrest := e.seeItem_rest t
    have ih' := ih (e.seeItem t)
    exact ⟨ih'.1.trans hrest.2.1, ih'.2.trans hrest.2.2⟩

theorem lower_name {name : String} {f : Field} (h : (name, f) ∈ fieldNames) :
    ((str name).map lowerByte = str "allowedips" ↔ f = .allowedIPs) ∧
      ((str name).map lowerByte = str "table" ↔ f = .table) := by
  have hall : fieldNames.all (fun e =>
      decide ((str e.1).map lowerByte = str "allowedips") == decide (e.2 = .allowedIPs) &&
      decide ((str e.1).map lowerByte = str "table") == decide (e.2 = .table)) = true := by
    decide +kernel
  have he := List.all_eq_true.mp hall _ h
  simpa using he

theorem equalFold_key {k : Str} {name : String} {f : Field} (h : (name, f) ∈ fieldNames)
    (hkey : (trimBlanks k).map StringSpan.upper = (str name).map StringSpan.upper) :
    equalFold (trimBlanks k) (str "AllowedIPs") = decide (f = .allowedIPs) ∧
      equalFold (trimBlanks k) (str "Table") = decide (f = .table) := by
  have hgraphic : Graphic (trimBlanks k) :=
    graphic_of_upper (hkey ▸ graphic_name (List.mem_append_left _ h))
  have hfold := equalFold_of_isASCII (isASCII_of_graphic hgraphic)
  have hname := lower_name h
  have hips : (str "AllowedIPs").map lowerByte = str "allowedips" := by decide
  have htable : (str "Table").map lowerByte = str "table" := by decide
  rw [hfold, hfold, lower_of_upper hkey, hips, htable]
  simp [hname]

def networkTexts (line : Str) : List Str :=
  if (lexLine line).key = str "allowedips" then
    ((valueOf line (lexLine line)).1.splitOn comma).map trimSpace
  else []

def allowedIPsTexts (s : Str) : List Str := (s.splitOn newline).flatMap networkTexts

def allPeers (st : ParserState) : List Peer :=
  st.conf.peers ++ match st.state with
    | .inPeerSection p _ => [p]
    | _ => []

theorem finishPeer_allPeers {st : ParserState} {conf : Config} (h : st.finishPeer = .ok conf) :
    conf.peers = allPeers st ∧ conf.interface = st.conf.interface := by
  rw [ParserState.finishPeer] at h
  unfold allPeers
  cases hst : st.state with
  | inPeerSection p ws =>
    rw [hst] at h
    obtain ⟨u, -, h⟩ := bind_eq_ok h
    cases h
    exact ⟨rfl, rfl⟩
  | _ =>
    rw [hst] at h
    cases h
    exact ⟨(List.append_nil _).symm, rfl⟩

/-- The evaluation and the parser after the same lines, which list the networks `texts`. -/
structure InStep (e : Evaluation) (st : ParserState) (texts : List Str) : Prop where
  tableOff : e.tableOff = st.conf.interface.tableOff
  noPeer : e.seenPeer = false → allPeers st = [] ∧ texts = []
  peer : e.seenPeer = true → ∃ p, allPeers st = [p] ∧
    List.Forall₂ (fun t q => parseIPCidr t = .ok q) texts p.allowedIPs
  flags : ∀ {ip cidr : Str} {flag : Evaluation → Bool}, (ip, cidr, flag) ∈ routes →
    flag e = decide (ip ++ slash :: cidr ∈ texts)

theorem route_flag {ip cidr : Str} {flag : Evaluation → Bool} (h : (ip, cidr, flag) ∈ routes)
    (e : Evaluation) (a b t p : Bool) :
    flag { e with onAllowedIPs := a, onTable := b, tableOff := t, seenPeer := p } = flag e := by
  simp only [routes, List.mem_cons, Prod.mk.injEq, List.not_mem_nil, or_false] at h
  rcases h with ⟨-, -, rfl⟩ | ⟨-, -, rfl⟩ | ⟨-, -, rfl⟩ | ⟨-, -, rfl⟩ | ⟨-, -,
    rfl⟩ | ⟨-, -, rfl⟩ <;>
    rfl

section Lines
variable {urlParse : Str → Option URL} {e : Evaluation} {st st' : ParserState} {texts : List Str}
  {line : Str}

theorem networkTexts_of_key (h : (lexLine line).key ≠ str "allowedips") : networkTexts line = [] :=
  if_neg h

theorem InStep.blank (hf : InStep e st texts) (hs : (lexLine line).stripped = [])
    (hstep : ParseStep urlParse st line st') : InStep e st' (texts ++ networkTexts line) := by
  have hkey : (lexLine line).key ≠ str "allowedips" := by
    have hnil : trimSpace (cut line hash).1 = [] := hs
    have hlex : (lexLine line).key =
        toLower (trimSpace (cut (trimSpace (cut line hash).1) equals).1) :=
      rfl
    rw [hlex, hnil]
    decide
  rw [networkTexts_of_key hkey, List.append_nil]
  cases hstep with
  | blank => exact ⟨hf.tableOff, hf.noPeer, hf.peer, hf.flags⟩
  | interface h => exact absurd hs h
  | peer h => exact absurd hs h
  | interfaceKey h => exact absurd hs h
  | peerKey h => exact absurd hs h

/-- A header: a second peer makes the evaluation give up. -/
theorem InStep.header {name : String} {f : Field} {t : Str} (hf : InStep e st texts)
    (hname : (name, f) ∈ sectionNames)
    (ht : t.map StringSpan.upper = (str name).map StringSpan.upper)
    (hkey : (lexLine line).key = (str name).map lowerByte) (hval : (lexLine line).hasValue = false)
    (hs : (lexLine line).stripped ≠ []) (hstep : ParseStep urlParse st line st') :
    (∃ e', e.run [(highlightSection, t)] = some e' ∧ InStep e' st' (texts ++ networkTexts line)) ∨
      e.run [(highlightSection, t)] = none ∧ 2 ≤ (allPeers st').length := by
  have hgraphic : Graphic t := graphic_of_upper (ht ▸ graphic_name (List.mem_append_right _ hname))
  have hfold := equalFold_of_isASCII (isASCII_of_graphic hgraphic) (str "[Peer]")
  rw [lower_of_upper ht] at hfold
  have hnames : (name = "[Peer]" ∨ name = "[Interface]") := by
    simp only [sectionNames, List.mem_cons, Prod.mk.injEq, List.not_mem_nil, or_false] at hname
    exact hname.imp And.left And.left
  have hrun : ∀ {e'}, e.step (highlightSection, t) [] = e' →
      e.run [(highlightSection, t)] = e' := by
    intro e' he
    rw [Evaluation.run, he]
    cases e' <;> rfl
  rcases hnames with rfl | rfl
  · have hpeer : equalFold t (str "[Peer]") = true := by simpa using hfold
    have hkey' : (lexLine line).key ≠ str "allowedips" := by rw [hkey]; decide
    rw [networkTexts_of_key hkey', List.append_nil]
    cases hstep with
    | blank h => exact absurd h hs
    | interface _ h => exact absurd (hkey.symm.trans h) (by decide)
    | interfaceKey _ h | peerKey _ h => exact absurd (hval.symm.trans h) (by decide)
    | peer _ _ _ hfin =>
      obtain ⟨hpeers, hif⟩ := finishPeer_allPeers hfin
      have hall : ∀ {p : Peer} {ws : List Str} {saw : Bool},
        allPeers ⟨_, .inPeerSection p ws, saw, []⟩ =
          allPeers st ++ [p] := congrArg (· ++ [_]) hpeers
      cases hseen : e.seenPeer with
      | true =>
        obtain ⟨p, hp, -⟩ := hf.peer hseen
        refine Or.inr ⟨hrun (by simp [Evaluation.step, hpeer, hseen]), ?_⟩
        rw [hall, hp]
        simp
      | false =>
        obtain ⟨hnone, htexts⟩ := hf.noPeer hseen
        refine Or.inl ⟨{ e with seenPeer := true }, hrun (by simp [Evaluation.step, hpeer, hseen]),
          ?_⟩
        refine ⟨?_, by simp, ?_, ?_⟩
        · rw [hif]
          exact hf.tableOff
        · intro _
          refine ⟨newPeer st.pendingComments (lexLine line).comment, ?_, ?_⟩
          · rw [hall, hnone, List.nil_append]
          · rw [htexts]
            exact .nil
        · intro ip cidr flag hr
          rw [← hf.flags hr]
          exact route_flag hr e _ _ _ true
  · have hother : equalFold t (str "[Peer]") = false := by
      rw [hfold]
      decide
    have hkey' : (lexLine line).key ≠ str "allowedips" := by rw [hkey]; decide
    rw [networkTexts_of_key hkey', List.append_nil]
    refine Or.inl ⟨e, hrun (by simp [Evaluation.step, hother]), ?_⟩
    cases hstep with
    | blank h => exact absurd h hs
    | peer _ h => exact absurd (hkey.symm.trans h) (by decide)
    | interfaceKey _ h | peerKey _ h => exact absurd (hval.symm.trans h) (by decide)
    | interface _ _ _ hfin =>
      obtain ⟨hpeers, hif⟩ := finishPeer_allPeers hfin
      have hall : ∀ {pending : List Str} {com : Str} {saw : Bool},
          allPeers ⟨interfaceHeader _ pending com, .inInterfaceSection, saw, []⟩ = allPeers st :=
        (List.append_nil _).trans hpeers
      refine ⟨?_, ?_, ?_, hf.flags⟩
      · simpa [interfaceHeader, hif] using hf.tableOff
      · rw [hall]
        exact hf.noPeer
      · rw [hall]
        exact hf.peer

theorem concat_eq_singleton {l : List Peer} {p q : Peer} (h : l ++ [p] = [q]) : l = [] ∧ p = q := by
  cases l with
  | nil => exact ⟨rfl, List.singleton_inj.mp h⟩
  | cons a l => simp at h

theorem keyStep (hval : (lexLine line).hasValue = true) (hs : (lexLine line).stripped ≠ [])
    (hstep : ParseStep urlParse st line st') :
    (∃ k : InterfaceKey, k.lower = (lexLine line).key ∧ allPeers st' = allPeers st ∧
      st'.conf.interface.tableOff =
        if k = .table then decide ((valueOf line (lexLine line)).1 = str "off")
        else st.conf.interface.tableOff) ∨
    ∃ (k : PeerKey) (p p' : Peer), k.lower = (lexLine line).key ∧
      st'.conf.interface.tableOff = st.conf.interface.tableOff ∧
      allPeers st = st.conf.peers ++ [p] ∧ allPeers st' = st.conf.peers ++ [p'] ∧
      (k ≠ .allowedIPs → p'.allowedIPs = p.allowedIPs) ∧
      (k = .allowedIPs → ∃ ips, p'.allowedIPs = p.allowedIPs ++ ips ∧
        (((valueOf line (lexLine line)).1.splitOn comma).map trimSpace).mapM parseIPCidr =
          .ok ips) := by
  cases hstep with
  | blank h => exact absurd h hs
  | interface _ _ h | peer _ _ h => exact absurd (hval.symm.trans h) (by decide)
  | @interfaceKey k i _ _ hstate hk _ hset =>
    refine Or.inl ⟨k, InterfaceKey.lower_of_ofLower hk, ?_, ?_⟩
    · simp [allPeers, hstate]
    · change i.tableOff = _
      rw [Interface.set_tableOff hset]
  | @peerKey p p' ws k _ _ hstate hk _ hset =>
    refine Or.inr ⟨k, p, p', PeerKey.lower_of_ofLower hk, rfl, ?_, ?_, ?_, ?_⟩
    · simp [allPeers, hstate]
    · simp [allPeers]
    · intro hne
      have hframe := Peer.set_allowedIPs hne hset
      exact hframe
    · rintro rfl
      obtain ⟨l, hl, hset⟩ := bind_eq_ok hset
      obtain ⟨ips, hips, hset⟩ := bind_eq_ok hset
      cases hset
      rw [splitList_eq_ok hl] at hips
      exact ⟨ips, rfl, hips⟩

theorem InStep.congr {e' : Evaluation} (hf : InStep e st texts) (hall : allPeers st' = allPeers st)
    (htable : e'.tableOff = st'.conf.interface.tableOff) (hseen : e'.seenPeer = e.seenPeer)
    (hflags : ∀ {ip cidr : Str} {flag : Evaluation → Bool}, (ip, cidr, flag) ∈ routes →
      flag e' = flag e) : InStep e' st' texts where
  tableOff := htable
  noPeer h := hall ▸ hf.noPeer (hseen ▸ h)
  peer h := hall ▸ hf.peer (hseen ▸ h)
  flags hr := (hflags hr).trans (hf.flags hr)

theorem onKey_flag {ip cidr : Str} {flag : Evaluation → Bool} (h : (ip, cidr, flag) ∈ routes)
    (e : Evaluation) (f : Field) : flag (e.onKey f) = flag e := route_flag h e _ _ _ _

section Key
variable {k v : Str} {name : String} {f : Field} {ts : List Tok}

theorem run_key (hname : (name, f) ∈ fieldNames)
    (hkey : (trimBlanks k).map StringSpan.upper = (str name).map StringSpan.upper) :
    e.run ((highlightField, trimBlanks k) :: (highlightDelimiter, [equals]) :: ts) =
      (e.onKey f).run ts := by
  obtain ⟨hips, htable⟩ := equalFold_key hname hkey
  have hstep : e.step (highlightField, trimBlanks k) ((highlightDelimiter, [equals]) :: ts) =
      some (e.onKey f) := by
    simp only [Evaluation.step, hips, htable, Evaluation.onKey]
  rw [Evaluation.run, hstep]
  rfl

theorem valueOf_plain (hcode : (cut line hash).1 = k ++ equals :: v) (hk : equals ∉ k)
    (hname : (name, f) ∈ fieldNames)
    (hkey : (trimBlanks k).map StringSpan.upper = (str name).map StringSpan.upper)
    (hns : (str name).map lowerByte ∉ scriptKeys) (hv : trimBlanks v ≠ [])
    (htrim : Trimmed (trimBlanks v)) : (valueOf line (lexLine line)).1 = trimBlanks v := by
  obtain ⟨hlkey, -, hlval, -⟩ := lexLine_key hcode hk hname hkey
  rw [valueOf, if_neg (by rwa [hlkey]), hlval]
  exact trimSpace_trimRightSpace htrim hv

theorem lower_notMem_scriptKeys (hname : (name, f) ∈ fieldNames)
    (hf : f = .table ∨ f = .allowedIPs) :
    (str name).map lowerByte ∉ scriptKeys := by
  have hall : fieldNames.all (fun e => !(decide (e.2 = .table) || decide (e.2 = .allowedIPs)) ||
      !scriptKeys.contains ((str e.1).map lowerByte)) = true := by
    decide +kernel
  have he := List.all_eq_true.mp hall _ hname
  rcases hf with rfl | rfl <;> simpa using he

theorem InterfaceKey.eq_table {k : InterfaceKey} : k = .table ↔ k.lower = str "table" := by
  cases k <;> decide +kernel

theorem PeerKey.eq_allowedIPs {k : PeerKey} : k = .allowedIPs ↔ k.lower = str "allowedips" := by
  cases k <;> decide +kernel

theorem InStep.otherKey (hf : InStep e st texts) (hname : (name, f) ∈ fieldNames)
    (hlkey : (lexLine line).key = (str name).map lowerByte) (hval : (lexLine line).hasValue = true)
    (hs : (lexLine line).stripped ≠ []) (hnt : f ≠ .table) (hna : f ≠ .allowedIPs)
    (hstep : ParseStep urlParse st line st') :
    InStep (e.onKey f) st' (texts ++ networkTexts line) := by
  obtain ⟨hips, htable⟩ := lower_name hname
  rw [← hlkey] at hips htable
  rw [networkTexts_of_key (fun h => hna (hips.mp h)), List.append_nil]
  rcases keyStep hval hs hstep with ⟨k, hk, hall, hoff⟩ | ⟨k, p, p', hk, hoff, hall,
    hall', hsame, -⟩
  · rw [if_neg fun h => hnt (htable.mp (hk ▸ InterfaceKey.eq_table.mp h))] at hoff
    exact hf.congr hall (hf.tableOff.trans hoff.symm) rfl fun hr => onKey_flag hr e f
  · have hp := hsame fun h => hna (hips.mp (hk ▸ PeerKey.eq_allowedIPs.mp h))
    refine ⟨hf.tableOff.trans hoff.symm, ?_, ?_, fun hr => (onKey_flag hr e f).trans (hf.flags hr)⟩
    · intro hseen
      have hnone := (hf.noPeer hseen).1
      rw [hall] at hnone
      exact absurd hnone (by simp)
    · intro hseen
      obtain ⟨q, hq, htexts⟩ := hf.peer hseen
      rw [hall] at hq
      obtain ⟨hnil, rfl⟩ := concat_eq_singleton hq
      exact ⟨p', by rw [hall', hnil, List.nil_append], hp ▸ htexts⟩

theorem InStep.table {off : Str} (hf : InStep e st texts) (hname : (name, .table) ∈ fieldNames)
    (hlkey : (lexLine line).key = (str name).map lowerByte) (hval : (lexLine line).hasValue = true)
    (hs : (lexLine line).stripped ≠ []) (hoff : (valueOf line (lexLine line)).1 = off)
    (hstep : ParseStep urlParse st line st') :
    InStep { e.onKey .table with tableOff := off = str "off" } st'
      (texts ++ networkTexts line) := by
  obtain ⟨hips, htable⟩ := lower_name hname
  rw [← hlkey] at hips htable
  have hkey : (lexLine line).key = str "table" := htable.mpr rfl
  rw [networkTexts_of_key (fun h => absurd (hips.mp h) (by decide)), List.append_nil]
  rcases keyStep hval hs hstep with ⟨k, hk, hall, hset⟩ | ⟨k, p, p', hk, -⟩
  · rw [if_pos (InterfaceKey.eq_table.mpr (hk.trans hkey)), hoff] at hset
    exact hf.congr hall hset.symm rfl fun hr => route_flag hr e _ _ _ _
  · have hne : k.lower ≠ str "table" := by cases k <;> decide +kernel
    exact absurd (hk.trans hkey) hne

theorem InStep.allowedIPs {v : Str} (hf : InStep e st texts)
    (hname : (name, .allowedIPs) ∈ fieldNames)
    (hlkey : (lexLine line).key = (str name).map lowerByte) (hval : (lexLine line).hasValue = true)
    (hs : (lexLine line).stripped ≠ []) (hv : (valueOf line (lexLine line)).1 = v)
    (hnet : ∀ t ∈ items v, NetText t) (hstep : ParseStep urlParse st line st') :
    e.seenPeer = true ∧
      InStep ((items v).foldl Evaluation.seeItem (e.onKey .allowedIPs)) st'
        (texts ++ networkTexts line) := by
  have hkey : (lexLine line).key = str "allowedips" := hlkey.trans ((lower_name hname).1.mpr rfl)
  have htexts : networkTexts line = items v := by
    rw [networkTexts, if_pos hkey, hv, items_eq_trimSpace hnet]
  rcases keyStep hval hs hstep with ⟨k, hk, -⟩ | ⟨k, p, p', hk, hoff, hall, hall', -, hset⟩
  · have hne : k.lower ≠ str "allowedips" := by cases k <;> decide +kernel
    exact absurd (hk.trans hkey) hne
  obtain ⟨ips, hips, hparse⟩ := hset (PeerKey.eq_allowedIPs.mpr (hk.trans hkey))
  rw [hv, items_eq_trimSpace hnet] at hparse
  have hseen : e.seenPeer = true := by
    by_contra hno
    have hnone := (hf.noPeer (by simpa using hno)).1
    rw [hall] at hnone
    exact absurd hnone (by simp)
  obtain ⟨hrest, htab⟩ := seeItems_rest (items v) (e.onKey .allowedIPs)
  refine ⟨hseen, htab.trans (hf.tableOff.trans hoff.symm), ?_, ?_, ?_⟩
  · intro hno
    exact absurd (hseen.symm.trans (hrest.symm.trans hno)) (by decide)
  · intro _
    obtain ⟨q, hq, hold⟩ := hf.peer hseen
    rw [hall] at hq
    obtain ⟨hnil, rfl⟩ := concat_eq_singleton hq
    refine ⟨p', by rw [hall', hnil, List.nil_append], ?_⟩
    rw [hips, htexts]
    exact List.rel_append hold (mapM_forall₂ hparse)
  · intro ip cidr flag hr
    rw [seeItems_flag hr, onKey_flag hr, hf.flags hr, htexts, ← Bool.decide_or]
    simp

end Key

theorem InStep.key {k v : Str} {name : String} {f : Field} {vals : List Tok}
    (hf : InStep e st texts) (hcode : (cut line hash).1 = k ++ equals :: v) (hk : equals ∉ k)
    (hname : (name, f) ∈ fieldNames)
    (hkey : (trimBlanks k).map StringSpan.upper = (str name).map StringSpan.upper)
    (hv : trimBlanks v ≠ []) (hvals : ValueToks f (trimBlanks v) vals) (hne : ¬ HasError vals)
    (hstep : ParseStep urlParse st line st') :
    ∃ e', (e.onKey f).run vals = some e' ∧ InStep e' st' (texts ++ networkTexts line) := by
  obtain ⟨hlkey, hval, -, hs⟩ := lexLine_key hcode hk hname hkey
  have hvalue :=
    fun hf htrim => valueOf_plain hcode hk hname hkey (lower_notMem_scriptKeys hname hf) hv htrim
  by_cases htable : f = .table
  · subst htable
    obtain ⟨rfl, hbytes⟩ := hvals
    have htrim : Trimmed (trimBlanks v) := by
      apply trimmed_of_bytes
      intro b hb
      have hall : ∀ b, isDecimal b = true ∨ isAlphabet b = true → 0x21 ≤ b ∧ b < 0x7F :=
        forall_byte (by decide +kernel)
      exact Or.inr (hall b (hbytes b hb))
    exact ⟨_, rfl, hf.table hname hlkey hval hs (hvalue (Or.inl rfl) htrim) hstep⟩
  by_cases hips : f = .allowedIPs
  · subst hips
    obtain ⟨rfl, hnet⟩ := hvals
    have htrim : Trimmed (trimBlanks v) := trimmed_of_bytes (items_bytes hnet)
    obtain ⟨hseen, hin⟩ := hf.allowedIPs hname hlkey hval hs (hvalue (Or.inr rfl) htrim) hnet hstep
    exact ⟨_, Evaluation.run_multiToks (e := e.onKey .allowedIPs) rfl hseen _, hin⟩
  · have hplain : ∀ t ∈ vals, Plain t.1 := by
      cases f <;> first | exact hvals | exact absurd rfl htable | exact absurd rfl hips
    have hoff : (e.onKey f).onAllowedIPs = false := by simp [Evaluation.onKey, hips]
    exact ⟨_, Evaluation.run_plain hplain hne hoff,
      hf.otherKey hname hlkey hval hs htable hips hstep⟩

/-- A line before its comment: the two stay in step, or a second peer has come. -/
theorem InStep.code {ts : List Tok} (hf : InStep e st texts) (hcode : CodeToks (cut line hash).1 ts)
    (hne : ¬ HasError ts) (hstep : ParseStep urlParse st line st') :
    (∃ e', e.run ts = some e' ∧ InStep e' st' (texts ++ networkTexts line)) ∨
      e.run ts = none ∧ 2 ≤ (allPeers st').length := by
  cases hcode with
  | error h => exact absurd h hne
  | blank h => exact Or.inl ⟨e, rfl, hf.blank (lexLine_blank h) hstep⟩
  | header hname h =>
    obtain ⟨hkey, hval, hs⟩ := lexLine_header hname h
    exact hf.header hname h hkey hval hs hstep
  | @key k v name f vals hcode hk hname hkey hv hvals =>
    have hne' : ¬ HasError vals := fun ⟨t, ht⟩ =>
      hne ⟨t, List.mem_cons_of_mem _ (List.mem_cons_of_mem _ ht)⟩
    rw [run_key hname hkey]
    exact Or.inl (hf.key hcode hk hname hkey hv hvals hne' hstep)

theorem InStep.lineToks {ts : List Tok} (hf : InStep e st texts) (hline : LineToks line ts)
    (hne : ¬ HasError ts) (hstep : ParseStep urlParse st line st') :
    (∃ e', e.run ts = some e' ∧ InStep e' st' (texts ++ networkTexts line)) ∨
      e.run ts = none ∧ 2 ≤ (allPeers st').length := by
  obtain ⟨code, hcode, rfl | ⟨comment, rfl⟩⟩ := hline
  · exact hf.code hcode hne hstep
  · have hne' : ¬ HasError code := fun ⟨t, ht⟩ => hne ⟨t, List.mem_append_left _ ht⟩
    have hfresh : Evaluation.Fresh [(highlightComment, comment)] := by simp [Evaluation.Fresh]
    rw [Evaluation.run_append hfresh]
    rcases hf.code hcode hne' hstep with ⟨e', hrun, hin⟩ | ⟨hrun, hlen⟩
    · exact Or.inl ⟨e', by rw [hrun]; rfl, hin⟩
    · exact Or.inr ⟨by rw [hrun]; rfl, hlen⟩

end Lines

theorem allPeers_length_le {urlParse : Str → Option URL} {st st' : ParserState} {line : Str}
    (hstep : ParseStep urlParse st line st') : (allPeers st).length ≤ (allPeers st').length := by
  cases hstep with
  | blank => exact le_rfl
  | interface _ _ _ hfin =>
    rw [← (finishPeer_allPeers hfin).1]
    simp [allPeers, interfaceHeader]
  | peer _ _ _ hfin =>
    rw [← (finishPeer_allPeers hfin).1]
    simp [allPeers]
  | interfaceKey _ _ hstate => simp [allPeers, hstate]
  | peerKey _ _ hstate => simp [allPeers, hstate]

theorem fresh_line {line : Str} {ts rest : List Tok} (hline : LineToks line ts)
    (hne : ¬ HasError ts) (hrest : Evaluation.Fresh rest) : Evaluation.Fresh (ts ++ rest) := by
  obtain ⟨code, hcode, hts⟩ := hline
  have hcode' : code = [] ∨ ∃ t r, code = t :: r ∧ t.1 ≠ highlightDelimiter ∧
      t.1 ≠ highlightCidr := by
    cases hcode with
    | error h =>
      refine absurd h fun ⟨t, ht⟩ => hne ⟨t, ?_⟩
      rcases hts with rfl | ⟨comment, rfl⟩
      · exact ht
      · exact List.mem_append_left _ ht
    | blank => exact Or.inl rfl
    | header | key => exact Or.inr ⟨_, _, rfl, by simp, by simp⟩
  rcases hcode' with rfl | ⟨t, r, rfl, h₁, h₂⟩
  · rcases hts with rfl | ⟨comment, rfl⟩
    · exact hrest
    · simp [Evaluation.Fresh]
  · rcases hts with rfl | ⟨comment, rfl⟩ <;> simp [Evaluation.Fresh, h₁, h₂]

theorem hasError_append {xs ys : List Tok} (h : ¬ HasError (xs ++ ys)) :
    ¬ HasError xs ∧ ¬ HasError ys :=
  ⟨fun ⟨t, ht⟩ => h ⟨t, List.mem_append_left _ ht⟩, fun ⟨t, ht⟩ =>
    h ⟨t, List.mem_append_right _ ht⟩⟩

section Texts
variable {urlParse : Str → Option URL}

theorem fresh_lines {lines : List Str} {tss : List (List Tok)}
    (hl : List.Forall₂ LineToks lines tss) (hne : ¬ HasError tss.flatten) :
    Evaluation.Fresh tss.flatten := by
  induction hl with
  | nil => simp [Evaluation.Fresh]
  | cons hline _ ih =>
    rw [List.flatten_cons] at hne ⊢
    obtain ⟨hne₁, hne₂⟩ := hasError_append hne
    exact fresh_line hline hne₁ (ih hne₂)

theorem allPeers_length_run {lines : List Str} {st st' : ParserState}
    (hp : lines.foldlM (parseLine urlParse) st = .ok st') :
    (allPeers st).length ≤ (allPeers st').length :=
  foldlM_invariant (fun s => (allPeers st).length ≤ (allPeers s).length)
    (fun _ _ _ _ hs hstep => hs.trans (allPeers_length_le (parseLine_step hstep))) le_rfl hp

theorem InStep.run {lines : List Str} {tss : List (List Tok)} {e : Evaluation}
    {st st' : ParserState} {texts : List Str} (hl : List.Forall₂ LineToks lines tss)
    (hne : ¬ HasError tss.flatten) (hf : InStep e st texts)
    (hp : lines.foldlM (parseLine urlParse) st = .ok st') :
    (∃ e', e.run tss.flatten = some e' ∧ InStep e' st' (texts ++ lines.flatMap networkTexts)) ∨
      e.run tss.flatten = none ∧ 2 ≤ (allPeers st').length := by
  induction hl generalizing e st texts with
  | nil =>
    cases hp
    exact Or.inl ⟨e, rfl, by simpa using hf⟩
  | @cons line ts lines tss hline hlines ih =>
    rw [List.flatten_cons] at hne ⊢
    obtain ⟨hne₁, hne₂⟩ := hasError_append hne
    obtain ⟨st₁, hparse, hp⟩ := bind_eq_ok hp
    rw [Evaluation.run_append (fresh_lines hlines hne₂)]
    rcases hf.lineToks hline hne₁ (parseLine_step hparse) with ⟨e₁, hrun, hin⟩ | ⟨hrun, hlen⟩
    · rw [hrun, Option.bind_some]
      have hih := ih hne₂ hin hp
      rwa [List.append_assoc, ← List.flatMap_cons] at hih
    · exact Or.inr ⟨by rw [hrun]; rfl, hlen.trans (allPeers_length_run hp)⟩

theorem inStep_start (name : Str) : InStep {} { conf := { name := name } } [] where
  tableOff := rfl
  noPeer _ := ⟨rfl, rfl⟩
  peer h := absurd h (by decide)
  flags hr := by
    simp only [routes, List.mem_cons, Prod.mk.injEq, List.not_mem_nil, or_false] at hr
    rcases hr with ⟨-, -, rfl⟩ | ⟨-, -, rfl⟩ | ⟨-, -, rfl⟩ | ⟨-, -, rfl⟩ | ⟨-, -,
      rfl⟩ | ⟨-, -, rfl⟩ <;>
      simp

theorem exists_right_of_forall₂ {α β : Type*} {R : α → β → Prop} {l : List α} {r : List β}
    (h : List.Forall₂ R l r) {a : α} (ha : a ∈ l) : ∃ b ∈ r, R a b :=
  exists_left_of_forall₂ h.flip ha

theorem any_isDefaultRoute {texts : List Str} {ips : List Netip.Prefix}
    (h : List.Forall₂ (fun t q => parseIPCidr t = .ok q) texts ips) :
    ips.any isDefaultRoute = true ↔
      ∃ t ∈ texts, ∃ q, parseIPCidr t = .ok q ∧ isDefaultRoute q = true := by
  rw [List.any_eq_true]
  constructor
  · rintro ⟨q, hq, hdef⟩
    obtain ⟨t, ht, hparse⟩ := exists_left_of_forall₂ h hq
    exact ⟨t, ht, q, hparse, hdef⟩
  · rintro ⟨t, ht, q, hparse, hdef⟩
    obtain ⟨q', hq', hparse'⟩ := exists_right_of_forall₂ h ht
    obtain rfl : q = q' := Except.ok.inj (hparse.symm.trans hparse')
    exact ⟨q, hq', hdef⟩

def SpellsDefaultRoute (texts : List Str) : Prop :=
  str "0.0.0.0/0" ∈ texts ∨ str "::/0" ∈ texts

def SpellsHalves (texts : List Str) : Prop :=
  str "0.0.0.0/1" ∈ texts ∧ str "128.0.0.0/1" ∈ texts ∨ str "::/1" ∈ texts ∧ str "8000::/1" ∈ texts

def ListsDefaultRoute (texts : List Str) : Prop :=
  ∃ t ∈ texts, ∃ q, parseIPCidr t = .ok q ∧ isDefaultRoute q = true

theorem SpellsDefaultRoute.lists {texts : List Str} (h : SpellsDefaultRoute texts) :
    ListsDefaultRoute texts := by
  rcases h with h | h
  · exact ⟨_, h, ⟨.v4 0, 1⟩, by decide +kernel, by decide +kernel⟩
  · exact ⟨_, h, ⟨.v6 0 [], 1⟩, by decide +kernel, by decide +kernel⟩

theorem InStep.state {e : Evaluation} {st : ParserState} {texts : List Str}
    (hf : InStep e st texts) :
    (e.state = .blockingUntunneledTraffic ↔
      st.conf.interface.tableOff = false ∧ SpellsDefaultRoute texts) ∧
    (e.state = .notBlockingUntunneledTraffic ↔
      st.conf.interface.tableOff = false ∧ ¬ SpellsDefaultRoute texts ∧ SpellsHalves texts) := by
  have hflag : ∀ (ip cidr : Str) (flag : Evaluation → Bool), (ip, cidr, flag) ∈ routes →
      flag e = decide (ip ++ slash :: cidr ∈ texts) := fun _ _ _ hr => hf.flags hr
  have h₁ : e.seen00v4 = decide (str "0.0.0.0/0" ∈ texts) :=
    hflag (str "0.0.0.0") (str "0") (·.seen00v4) (by simp [routes])
  have h₂ : e.seen00v6 = decide (str "::/0" ∈ texts) :=
    hflag (str "::") (str "0") (·.seen00v6) (by simp [routes])
  have h₃ : e.seen01v4 = decide (str "0.0.0.0/1" ∈ texts) :=
    hflag (str "0.0.0.0") (str "1") (·.seen01v4) (by simp [routes])
  have h₄ : e.seen1281v4 = decide (str "128.0.0.0/1" ∈ texts) :=
    hflag (str "128.0.0.0") (str "1") (·.seen1281v4) (by simp [routes])
  have h₅ : e.seen01v6 = decide (str "::/1" ∈ texts) :=
    hflag (str "::") (str "1") (·.seen01v6) (by simp [routes])
  have h₆ : e.seen80001v6 = decide (str "8000::/1" ∈ texts) :=
    hflag (str "8000::") (str "1") (·.seen80001v6) (by simp [routes])
  have hdef : (e.seen00v4 || e.seen00v6) = true ↔ SpellsDefaultRoute texts := by
    simp [h₁, h₂, SpellsDefaultRoute]
  have hhalves : (e.seen01v4 && e.seen1281v4 || e.seen01v6 && e.seen80001v6) = true ↔
      SpellsHalves texts := by
    simp [h₃, h₄, h₅, h₆, SpellsHalves]
  rw [← hf.tableOff, ← hdef, ← hhalves]
  unfold Evaluation.state
  cases e.tableOff with
  | true => simp
  | false =>
    cases e.seen00v4 || e.seen00v6 with
    | true => simp
    | false => cases e.seen01v4 && e.seen1281v4 || e.seen01v6 && e.seen80001v6 <;> simp

theorem InStep.doNotRestrict {e : Evaluation} {st : ParserState} {texts : List Str}
    (hf : InStep e st texts) {c : Config}
    (hpeers : c.peers = (allPeers st).map fun p =>
      { p with comments := pruneSectionComments p.comments })
    (htable : c.interface.tableOff = st.conf.interface.tableOff)
    (hon : st.conf.interface.tableOff = false) (htexts : texts ≠ []) :
    c.peers.length = 1 ∧ (Tunnel.doNotRestrict c = false ↔ ListsDefaultRoute texts) := by
  have hseen : e.seenPeer = true := by
    by_contra hno
    exact htexts (hf.noPeer (by simpa using hno)).2
  obtain ⟨p, hp, hips⟩ := hf.peer hseen
  rw [hp, List.map_singleton] at hpeers
  refine ⟨by rw [hpeers]; rfl, ?_⟩
  rw [Tunnel.doNotRestrict, hpeers, ListsDefaultRoute, ← any_isDefaultRoute hips, htable, hon]
  simp

/-- The texts on which indicator and firewall part: the networks list a default route under
another spelling, next to the two halves that make the indicator say that nothing is blocked. -/
structure HiddenDefaultRoute (s : Str) (spans : List HighlightSpan) (c : Config) : Prop where
  clean : ∀ span ∈ spans, span.t ≠ highlightError
  onePeer : c.peers.length = 1
  routed : c.interface.tableOff = false
  unspelled : ¬ SpellsDefaultRoute (allowedIPsTexts s)
  halves : SpellsHalves (allowedIPsTexts s)
  listed : ListsDefaultRoute (allowedIPsTexts s)

theorem SpellsHalves.ne_nil {texts : List Str} (h : SpellsHalves texts) : texts ≠ [] := by
  rintro rfl
  simp [SpellsHalves] at h

theorem hasError_toks {s : Str} {spans : List HighlightSpan} :
    HasError (toks s spans) ↔ ∃ span ∈ spans, span.t = highlightError := by
  constructor
  · rintro ⟨t, ht⟩
    obtain ⟨span, hspan, heq⟩ := List.mem_map.mp ht
    exact ⟨span, hspan, congrArg Prod.fst heq⟩
  · exact hasError_of_span

theorem readers_at_end {s name : Str} {c : Config} {spans : List HighlightSpan}
    (h : fromWgQuick urlParse s name = .ok c) (hs : highlightConfig s = some spans)
    (hclean : ∀ span ∈ spans, span.t ≠ highlightError) :
    (evaluateUntunneledBlocking s spans = .inevaluableBlockingUntunneledTraffic ∧
      2 ≤ c.peers.length) ∨
    ∃ e st, evaluateUntunneledBlocking s spans = e.state ∧ InStep e st (allowedIPsTexts s) ∧
      c.peers = (allPeers st).map
      (fun p => { p with comments := pruneSectionComments p.comments }) ∧
      c.interface.tableOff = st.conf.interface.tableOff := by
  obtain ⟨-, st, conf, hfold, hfin, rfl, -, -⟩ := fromWgQuick_eq_ok h
  obtain ⟨tss, htoks, hlines⟩ := highlightConfig_toks hs
  obtain ⟨hpeers, hif⟩ := finishPeer_allPeers hfin
  have hne : ¬ HasError tss.flatten := by
    rw [← htoks, hasError_toks]
    rintro ⟨span, hspan, hterr⟩
    exact hclean span hspan hterr
  rcases InStep.run hlines hne (inStep_start name) hfold with ⟨e, hrun, hin⟩ | ⟨hrun, hlen⟩
  · refine Or.inr ⟨e, st, ?_, hin, ?_, ?_⟩
    · rw [evaluateUntunneledBlocking, htoks, hrun]
    · rw [Config.pruned, hpeers]
    · rw [Config.pruned, hif]
  · refine Or.inl ⟨?_, ?_⟩
    · rw [evaluateUntunneledBlocking, htoks, hrun]
    · simpa [Config.pruned, hpeers] using hlen

/-- Indicator and firewall agree on every accepted text but those. -/
theorem indicator_agrees_iff {s name : Str} {c : Config} {spans : List HighlightSpan}
    (h : fromWgQuick urlParse s name = .ok c) (hs : highlightConfig s = some spans) :
    ((evaluateUntunneledBlocking s spans = .blockingUntunneledTraffic →
        Tunnel.doNotRestrict c = false) ∧
      (evaluateUntunneledBlocking s spans = .notBlockingUntunneledTraffic →
        Tunnel.doNotRestrict c = true)) ↔ ¬ HiddenDefaultRoute s spans c := by
  by_cases hclean : ∀ span ∈ spans, span.t ≠ highlightError
  · rcases readers_at_end h hs hclean with ⟨hstate, hlen⟩ | ⟨e, st, hstate, hin, hpeers, htable⟩
    · have hnot : ¬ HiddenDefaultRoute s spans c := fun hh => by
        have hone := hh.onePeer
        omega
      simp [hstate, hnot]
    · rw [hstate, hin.state.1, hin.state.2]
      constructor
      · rintro ⟨-, hnb⟩ hh
        have hon : st.conf.interface.tableOff = false := htable.symm.trans hh.routed
        obtain ⟨-, hlists⟩ := hin.doNotRestrict hpeers htable hon hh.halves.ne_nil
        have hopen := hnb ⟨hon, hh.unspelled, hh.halves⟩
        rw [hlists.mpr hh.listed] at hopen
        exact absurd hopen (by decide)
      · intro hnot
        constructor
        · rintro ⟨hon, hspell⟩
          have hne : allowedIPsTexts s ≠ [] := by
            rintro hnil
            simp [hnil, SpellsDefaultRoute] at hspell
          exact (hin.doNotRestrict hpeers htable hon hne).2.mpr hspell.lists
        · rintro ⟨hon, hunspelled, hhalves⟩
          obtain ⟨hone, hlists⟩ := hin.doNotRestrict hpeers htable hon hhalves.ne_nil
          by_contra hrestrict
          rw [Bool.not_eq_true] at hrestrict
          exact hnot ⟨hclean, hone, htable.trans hon, hunspelled, hhalves, hlists.mp hrestrict⟩
  · have hnot : ¬ HiddenDefaultRoute s spans c := fun hh => hclean hh.clean
    have hnone : evaluateUntunneledBlocking s spans = .inevaluableBlockingUntunneledTraffic := by
      have herr : HasError (toks s spans) := by
        rw [hasError_toks]
        push Not at hclean
        exact hclean
      rw [evaluateUntunneledBlocking, Evaluation.run_error herr]
    simp [hnone, hnot]

def hiddenRouteText : Str :=
  str ("[Interface]\nPrivateKey = yAnz5TF+lXXJte14tji3zlMNq+hd2rYUIgJBgB3fBmk=\n[Peer]\n" ++
    "PublicKey = xTIBA5rboUvnH4htodjb6e697QjLERt1NAB4mZqp8Dg=\n" ++
    "AllowedIPs = 0.0.0.0/1, 128.0.0.0/1, 0::/0")

theorem hiddenRouteText_read :
    ∃ c spans, fromWgQuick (fun _ => none) hiddenRouteText (str "wg0") = .ok c ∧
      highlightConfig hiddenRouteText = some spans ∧
      evaluateUntunneledBlocking hiddenRouteText spans = .notBlockingUntunneledTraffic ∧
      Tunnel.doNotRestrict c = false := by
  have hparse : ((fromWgQuick (fun _ => none) hiddenRouteText (str "wg0")).toOption.map
      Tunnel.doNotRestrict) = some false := by decide +kernel
  have hlight : ((highlightConfig hiddenRouteText).map
      (evaluateUntunneledBlocking hiddenRouteText)) = some .notBlockingUntunneledTraffic := by
    decide +kernel
  obtain ⟨c, hc, hopen⟩ := Option.map_eq_some_iff.mp hparse
  obtain ⟨spans, hspans, hstate⟩ := Option.map_eq_some_iff.mp hlight
  refine ⟨c, spans, ?_, hspans, hstate, hopen⟩
  cases hok : fromWgQuick (fun _ => none) hiddenRouteText (str "wg0") with
  | error e => simp [hok, Except.toOption] at hc
  | ok c' =>
    rw [hok] at hc
    exact congrArg Except.ok (Option.some.inj hc)

theorem indicator_hiddenRouteText :
    ∃ c spans, fromWgQuick (fun _ => none) hiddenRouteText (str "wg0") = .ok c ∧
      highlightConfig hiddenRouteText = some spans ∧
      ¬ (evaluateUntunneledBlocking hiddenRouteText spans = .notBlockingUntunneledTraffic →
        Tunnel.doNotRestrict c = true) := by
  obtain ⟨c, spans, hc, hspans, hstate, hclosed⟩ := hiddenRouteText_read
  refine ⟨c, spans, hc, hspans, fun h => ?_⟩
  exact absurd (hclosed.symm.trans (h hstate)) (by decide)

theorem indicator_agrees_iff_hiddenRouteText :
    ∃ c spans, fromWgQuick (fun _ => none) hiddenRouteText (str "wg0") = .ok c ∧
      highlightConfig hiddenRouteText = some spans ∧
      HiddenDefaultRoute hiddenRouteText spans c := by
  obtain ⟨c, spans, hc, hspans, hstate, hclosed⟩ := hiddenRouteText_read
  refine ⟨c, spans, hc, hspans, ?_⟩
  by_contra hnot
  have hagree := ((indicator_agrees_iff hc hspans).mpr hnot).2 hstate
  exact absurd (hclosed.symm.trans hagree) (by decide)

end Texts

end WireGuardWindows.Syntax
