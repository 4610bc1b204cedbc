import WireGuardWindows.Syntax.Networks

/-!
# Recognised addresses

The recogniser of IPv4 addresses and `netip.ParseAddr` both accept four octets between dots.
For IPv6 the two loops are followed side by side: the recogniser counts the ellipsis as a
group, the parser does not.
-/

namespace WireGuardWindows.Syntax.StringSpan
open GoStd Strings Strconv

structure Octet (o : Str) : Prop where
  ne_nil : o ≠ []
  digits : ∀ c ∈ o, isDigit c = true
  noZero : o.head? = some zero → o.length = 1
  le : decimal o ≤ 255

theorem digitValue_lt {c : UInt8} (h : isDigit c = true) : digitValue c < 10 := by
  simp only [isDigit, Bool.and_eq_true, decide_eq_true_eq, UInt8.le_iff_toNat_le,
    UInt8.reduceToNat] at h
  rw [digitValue]
  omega

theorem digitValue_eq_zero {c : UInt8} (h : isDigit c = true) : digitValue c = 0 ↔ c = zero := by
  simp only [isDigit, Bool.and_eq_true, decide_eq_true_eq, UInt8.le_iff_toNat_le,
    UInt8.reduceToNat] at h
  have hzero : zero.toNat = 0x30 := rfl
  rw [digitValue, UInt8.ext_iff, hzero]
  omega

theorem Octet.of_append {o u : Str} (h : Octet (o ++ u)) (hne : o ≠ []) : Octet o where
  ne_nil := hne
  digits c hc := h.digits c (List.mem_append_left _ hc)
  noZero hz := by
    have hlen := h.noZero (by rw [List.head?_append_of_ne_nil _ hne, hz])
    have hpos : o.length ≠ 0 := by simpa using hne
    rw [List.length_append] at hlen
    omega
  le := (decimal_append_ge o u).trans h.le

theorem Octet.length_le {o : Str} (h : Octet o) : o.length ≤ 3 := by
  obtain ⟨a, t, rfl⟩ := List.exists_cons_of_ne_nil h.ne_nil
  match t, h with
  | [], _ => exact Nat.le_add_left 1 2
  | [_], _ => exact Nat.le_add_left 2 1
  | [_, _], _ => exact le_rfl
  | b :: c :: d :: t, h =>
    have ha : isDigit a = true := h.digits a List.mem_cons_self
    have hpos : digitValue a ≠ 0 := by
      rw [Ne, digitValue_eq_zero ha]
      rintro rfl
      have hlen := h.noZero rfl
      simp at hlen
    have hge := decimal_append_ge [a, b, c, d] t
    have hle := h.le
    have hval : decimal [a, b, c, d] =
        (((0 * 10 + digitValue a) * 10 + digitValue b) * 10 + digitValue c) * 10 + digitValue d :=
          rfl
    rw [List.cons_append, List.cons_append, List.cons_append, List.singleton_append] at hge
    omega

def IPv4Text (t : Str) : Prop := (t.splitOn dot).length = 4 ∧ ∀ o ∈ t.splitOn dot, Octet o

theorem isDigit_dot : isDigit dot = false := by decide

theorem takeWhile_octet {a tail : Str} (ha : Octet a) (htail : ∀ b ∈ tail.head?, b = dot) :
    ((a ++ tail).take 3).takeWhile isDigit = a := by
  have hrest : (tail.take (3 - a.length)).takeWhile isDigit = [] := by
    cases tail with
    | nil => rw [List.take_nil, List.takeWhile_nil]
    | cons b tail =>
      obtain rfl := htail b rfl
      cases 3 - a.length with
      | zero => rfl
      | succ n => rw [List.take_succ_cons, List.takeWhile_cons_of_neg (by rw [isDigit_dot]; decide)]
  rw [List.take_append, List.take_of_length_le ha.length_le, List.takeWhile_append_of_pos ha.digits,
    hrest, List.append_nil]

theorem ipv4Loop_zero (n : Nat) (p : Str) : ipv4Loop n ⟨p, 0⟩ = some false := by
  cases n <;> rfl

def afterOctet (n : Nat) (r : Str) : Str → Option Bool
  | [] => some (decide (n = 0))
  | b :: u => if b = dot then ipv4Loop n ⟨u ++ r, u.length⟩ else some false

theorem ipv4Loop_round {n : Nat} {d t r : Str} (ht : d ++ t ≠ [])
    (hd : ((d ++ t).take 3).takeWhile isDigit = d) (hr : r ≠ []) :
    (¬ Octet d ∧ ipv4Loop (n + 1) ⟨d ++ t ++ r, (d ++ t).length⟩ = some false) ∨
      (Octet d ∧ ipv4Loop (n + 1) ⟨d ++ t ++ r, (d ++ t).length⟩ = afterOctet n r t) := by
  have hdigits : ∀ c ∈ d, isDigit c = true := fun c hc => by
    rw [← hd] at hc
    exact List.mem_takeWhile_imp hc
  have hlen : (d ++ t).length ≠ 0 := by simpa using ht
  have hrun := decimalRun_eq 3 (d ++ t) r 0 0
  rw [hd, Nat.zero_add] at hrun
  have hhead : byteAt ⟨d ++ t ++ r, (d ++ t).length⟩ 0 = (d ++ t ++ r).head? :=
    List.head?_eq_getElem?.symm
  have hat : byteAt ⟨d ++ t ++ r, (d ++ t).length⟩ d.length = (t ++ r).head? := by
    rw [List.append_assoc]
    exact byteAt_append d (t ++ r) _
  obtain ⟨x, r', rfl⟩ := List.exists_cons_of_ne_nil hr
  obtain ⟨y, hy⟩ : ∃ y, (d ++ t ++ x :: r').head? = some y := by
    obtain ⟨y, u, hyu⟩ := List.exists_cons_of_ne_nil ht
    exact ⟨y, by rw [hyu]; rfl⟩
  have hloop : ipv4Loop (n + 1) ⟨d ++ t ++ x :: r', (d ++ t).length⟩ =
      if d.length = 0 then pure false
      else if 1 < d.length ∧ y = zero then pure false
      else if 255 < decimal d then pure false
      else if d.length = (d ++ t).length ∧ n = 0 then pure true
      else (t ++ x :: r').head?.bind fun c => if c ≠ dot then pure false
        else ipv4Loop n (advance ⟨d ++ t ++ x :: r', (d ++ t).length⟩ (d.length + 1)) := by
    rw [ipv4Loop, if_neg hlen, hrun, hhead, hy, ← hat]
    rfl
  have hzero : d ≠ [] → (d.head? = some zero ↔ y = zero) := by
    intro hne
    rw [List.append_assoc, List.head?_append_of_ne_nil _ hne] at hy
    rw [hy, Option.some.injEq]
  rw [hloop]
  by_cases hoctet : Octet d
  · right
    refine ⟨hoctet, ?_⟩
    have hlead : ¬ (1 < d.length ∧ y = zero) := by
      rintro ⟨hlong, hy0⟩
      have hone := hoctet.noZero ((hzero hoctet.ne_nil).mpr hy0)
      omega
    rw [if_neg (by simpa using hoctet.ne_nil), if_neg hlead, if_neg (Nat.not_lt.mpr hoctet.le)]
    cases t with
    | nil =>
      by_cases hn : n = 0
      · rw [if_pos ⟨by rw [List.append_nil], hn⟩, afterOctet, hn]
        rfl
      · rw [if_neg fun h => hn h.2]
        have hadvance : advance ⟨d ++ [] ++ x :: r', (d ++ []).length⟩ (d.length + 1) =
            ⟨(d ++ [] ++ x :: r').drop (d.length + 1), 0⟩ := by
          simp [advance]
        rw [hadvance, ipv4Loop_zero]
        simp [afterOctet, hn]
    | cons b u =>
      have hadvance : advance ⟨d ++ b :: u ++ x :: r', (d ++ b :: u).length⟩ (d.length + 1) =
          ⟨u ++ x :: r', u.length⟩ := by
        simpa using advance_append (d ++ [b]) u (x :: r')
      rw [if_neg fun h => by simpa using h.1, hadvance, afterOctet]
      by_cases hb : b = dot
      · rw [if_pos hb]
        simp [hb]
      · rw [if_neg hb]
        simp [hb]
  · left
    refine ⟨hoctet, ?_⟩
    by_cases hne : d = []
    · rw [if_pos (by rw [hne]; rfl)]
      rfl
    · rw [if_neg (by simpa using hne)]
      by_cases hlead : 1 < d.length ∧ y = zero
      · rw [if_pos hlead]
        rfl
      · rw [if_neg hlead]
        have hbig : 255 < decimal d := by
          by_contra hle
          refine hoctet ⟨hne, hdigits, fun hz => ?_, Nat.not_lt.mp hle⟩
          have hpos : d.length ≠ 0 := by simpa using hne
          by_contra hlong
          exact hlead ⟨by omega, (hzero hne).mp hz⟩
        rw [if_pos hbig]
        rfl

theorem splitOn_cases (t : Str) :
    (dot ∉ t ∧ t.splitOn dot = [t]) ∨
      ∃ a u, t = a ++ dot :: u ∧ dot ∉ a ∧ t.splitOn dot = a :: u.splitOn dot := by
  by_cases hdot : dot ∈ t
  · obtain ⟨a, u, rfl, ha⟩ := List.eq_append_cons_of_mem hdot
    exact Or.inr ⟨a, u, rfl, ha, List.splitOn_append_cons_self_of_not_mem ha u⟩
  · exact Or.inl ⟨hdot, List.splitOn_eq_singleton hdot⟩

theorem ipv4Loop_iff {n : Nat} {t r : Str} (hr : r ≠ []) :
    ∃ b, ipv4Loop n ⟨t ++ r, t.length⟩ = some b ∧
      (b = true ↔ (t.splitOn dot).length = n ∧ ∀ o ∈ t.splitOn dot, Octet o) := by
  induction n generalizing t with
  | zero =>
    refine ⟨false, rfl, iff_of_false nofun fun h => ?_⟩
    exact List.splitOn_ne_nil dot t (List.length_eq_zero_iff.mp h.1)
  | succ n ih =>
    by_cases ht : t = []
    · subst ht
      refine ⟨false, rfl, iff_of_false nofun fun h => ?_⟩
      exact (h.2 [] (by simp)).ne_nil rfl
    obtain ⟨d, rest, hsplit, hd⟩ : ∃ d rest, t = d ++ rest ∧ (t.take 3).takeWhile isDigit = d := by
      obtain ⟨rest, hrest⟩ := (List.takeWhile_prefix isDigit).trans (List.take_prefix 3 t)
      exact ⟨_, rest, hrest.symm, rfl⟩
    -- what one round reads is the first piece, if that is an octet
    have hfirst : ∀ o ∈ (t.splitOn dot).head?, Octet o → o = d := by
      intro o ho hoctet
      rcases splitOn_cases t with ⟨-, hpieces⟩ | ⟨a, u, htu, -, hpieces⟩
      · rw [hpieces] at ho
        obtain rfl := Option.some.inj ho
        have h : ((t ++ []).take 3).takeWhile isDigit = t := takeWhile_octet hoctet nofun
        rw [List.append_nil, hd] at h
        exact h.symm
      · rw [hpieces] at ho
        obtain rfl := Option.some.inj ho
        have h : ((a ++ dot :: u).take 3).takeWhile isDigit = a :=
          takeWhile_octet hoctet fun b hb => (Option.some.inj hb).symm
        rw [← htu, hd] at h
        exact h.symm
    have hround := @ipv4Loop_round n d rest r (hsplit ▸ ht) (hsplit ▸ hd) hr
    rw [← hsplit] at hround
    rcases hround with ⟨hno, hloop⟩ | ⟨hoctet, hloop⟩
    · refine ⟨false, hloop, iff_of_false nofun fun h => ?_⟩
      obtain ⟨o, os, hos⟩ := List.exists_cons_of_ne_nil (List.splitOn_ne_nil dot t)
      have ho := h.2 o (by rw [hos]; exact List.mem_cons_self)
      exact hno (hfirst o (by rw [hos]; rfl) ho ▸ ho)
    · have hdot : dot ∉ d := fun hmem => by
        have hdigit := hoctet.digits dot hmem
        rw [isDigit_dot] at hdigit
        cases hdigit
      rw [hloop]
      cases rest with
      | nil =>
        rw [List.append_nil] at hsplit
        refine ⟨decide (n = 0), rfl, ?_⟩
        rw [hsplit, List.splitOn_eq_singleton hdot]
        simp [hoctet, eq_comm]
      | cons b u =>
        rw [afterOctet]
        by_cases hb : b = dot
        · rw [if_pos hb]
          obtain ⟨b', hb', hiff⟩ := @ih u
          refine ⟨b', hb', hiff.trans ?_⟩
          rw [hsplit, hb, List.splitOn_append_cons_self_of_not_mem hdot, List.length_cons,
            List.forall_mem_cons, Nat.succ_inj]
          exact and_congr_right fun _ => (and_iff_right hoctet).symm
        · rw [if_neg hb]
          refine ⟨false, rfl, iff_of_false nofun fun h => ?_⟩
          -- the first piece goes on behind the digits
          obtain ⟨o, os, hos⟩ := List.exists_cons_of_ne_nil (List.splitOn_ne_nil dot t)
          have ho := hfirst o (by rw [hos]; rfl) (h.2 o (by rw [hos]; exact List.mem_cons_self))
          subst ho
          rcases splitOn_cases t with ⟨-, hpieces⟩ | ⟨a, w, htw, -, hpieces⟩
          · rw [hpieces] at hos
            have heq := (List.cons.inj hos).1
            rw [hsplit] at heq
            simp at heq
          · rw [hpieces] at hos
            obtain rfl := (List.cons.inj hos).1
            rw [hsplit] at htw
            exact hb (List.cons.inj (List.append_cancel_left htw)).1

theorem isValidIPv4_iff {t r : Str} (hr : r ≠ []) :
    ∃ b, isValidIPv4 ⟨t ++ r, t.length⟩ = some b ∧ (b = true ↔ IPv4Text t) := ipv4Loop_iff hr

theorem octet_singleton {c : UInt8} (h : isDigit c = true) : Octet [c] where
  ne_nil := List.cons_ne_nil _ _
  digits b hb := by rwa [List.mem_singleton.mp hb]
  noZero _ := rfl
  le := by
    have hlt := digitValue_lt h
    have hval : decimal [c] = 0 * 10 + digitValue c := rfl
    omega

theorem netip_step {p : Str} (hp : p = [] ∨ Octet p) {c : UInt8} (hc : c ≠ dot) (rest : Str)
    (fields : List Nat) :
    (Octet (p ++ [c]) ∧ Netip.ipv4Loop (c :: rest) fields (decimal p) p.length =
        Netip.ipv4Loop rest fields (decimal (p ++ [c])) (p ++ [c]).length) ∨
      (¬ Octet (p ++ [c]) ∧ Netip.ipv4Loop (c :: rest) fields (decimal p) p.length = none) := by
  rw [Netip.ipv4Loop, ← decimal_concat, List.length_append, List.length_singleton]
  by_cases hdigit : isDigit c = true
  · rw [if_pos hdigit]
    rcases hp with rfl | hp
    · have hone := octet_singleton hdigit
      rw [List.nil_append]
      refine Or.inl ⟨hone, ?_⟩
      rw [if_neg (by simp), if_neg (Nat.not_lt.mpr hone.le)]
    · have hne : p ++ [c] ≠ [] := by simp
      have hdigits : ∀ b ∈ p ++ [c], isDigit b = true :=
        List.forall_mem_append.mpr ⟨hp.digits, List.forall_mem_singleton.mpr hdigit⟩
      have hhead : (p ++ [c]).head? = p.head? := List.head?_append_of_ne_nil _ hp.ne_nil
      have hlead : (p.length = 1 ∧ decimal p = 0) ↔ p.head? = some zero := by
        constructor
        · rintro ⟨hlen, hval⟩
          obtain ⟨z, rfl⟩ := List.length_eq_one_iff.mp hlen
          have hz : decimal [z] = 0 * 10 + digitValue z := rfl
          rw [List.head?_cons, Option.some.injEq,
            ← digitValue_eq_zero (hp.digits z List.mem_cons_self)]
          omega
        · intro hz
          have hlen := hp.noZero hz
          obtain ⟨z, rfl⟩ := List.length_eq_one_iff.mp hlen
          obtain rfl := Option.some.inj hz
          exact ⟨rfl, rfl⟩
      by_cases hz : p.length = 1 ∧ decimal p = 0
      · refine Or.inr ⟨fun ho => ?_, if_pos hz⟩
        have hlen := ho.noZero (hhead.trans (hlead.mp hz))
        rw [List.length_append, hz.1] at hlen
        cases hlen
      · rw [if_neg hz]
        by_cases hbig : 255 < decimal (p ++ [c])
        · exact Or.inr ⟨fun ho => Nat.not_le.mpr hbig ho.le, if_pos hbig⟩
        · refine Or.inl ⟨⟨hne, hdigits, fun h => ?_, Nat.not_lt.mp hbig⟩, if_neg hbig⟩
          exact absurd (hlead.mpr (hhead.symm.trans h)) hz
  · refine Or.inr ⟨fun ho => hdigit (ho.digits c (by simp)), ?_⟩
    rw [if_neg hdigit, if_neg hc]

theorem netip_piece {a p : Str} (hp : p = [] ∨ Octet p) (ha : dot ∉ a)
    (hne : p ++ a ≠ []) (rest : Str) (fields : List Nat) :
    (Octet (p ++ a) ∧ Netip.ipv4Loop (a ++ rest) fields (decimal p) p.length =
        Netip.ipv4Loop rest fields (decimal (p ++ a)) (p ++ a).length) ∨
      (¬ Octet (p ++ a) ∧ Netip.ipv4Loop (a ++ rest) fields (decimal p) p.length = none) := by
  induction a generalizing p with
  | nil =>
    rw [List.append_nil] at hne ⊢
    exact Or.inl ⟨hp.resolve_left hne, rfl⟩
  | cons c a ih =>
    rw [List.mem_cons, not_or] at ha
    rw [List.cons_append, List.append_cons]
    rcases netip_step hp (Ne.symm ha.1) (a ++ rest) fields with ⟨ho, hstep⟩ | ⟨ho, hstep⟩
    · rw [hstep]
      exact ih (Or.inr ho) ha.2 (by simp)
    · exact Or.inr ⟨fun h => ho (h.of_append (by simp)), hstep⟩

theorem netip_fields {t : Str} (ht : t ≠ []) {fields : List Nat} (hf : fields.length ≤ 3) :
    ((Netip.ipv4Loop t fields 0 0).isSome ↔
      (t.splitOn dot).length + fields.length = 4 ∧ ∀ o ∈ t.splitOn dot, Octet o) := by
  induction hn : t.length using Nat.strong_induction_on generalizing t fields with
  | _ n ih =>
    subst hn
    rcases splitOn_cases t with ⟨hdot, hpieces⟩ | ⟨a, u, rfl, hdot, hpieces⟩
    · rw [hpieces]
      rcases netip_piece (Or.inl rfl) hdot ht [] fields with ⟨ho, hloop⟩ | ⟨ho, hloop⟩
      · rw [List.append_nil] at hloop
        have hval : Netip.ipv4Loop t fields 0 0 =
          Netip.ipv4Loop [] fields (decimal t) t.length := hloop
        rw [hval, Netip.ipv4Loop]
        by_cases hlt : fields.length < 3
        · rw [if_pos hlt]
          refine iff_of_false (by simp) fun h => ?_
          have hlen : 1 + fields.length = 4 := h.1
          omega
        · rw [if_neg hlt]
          refine iff_of_true rfl ⟨?_, by simpa using ho⟩
          rw [List.length_singleton]
          omega
      · rw [List.append_nil] at hloop
        have hval : Netip.ipv4Loop t fields 0 0 = none := hloop
        rw [hval]
        exact iff_of_false (by simp) fun h => ho (h.2 t List.mem_cons_self)
    · rw [hpieces, List.length_cons, List.forall_mem_cons]
      by_cases hempty : a = []
      · subst hempty
        refine iff_of_false ?_ fun h => h.2.1.ne_nil rfl
        rw [List.nil_append, Netip.ipv4Loop, if_neg (by rw [isDigit_dot]; decide), if_pos rfl,
          if_pos (Or.inl rfl)]
        decide
      rcases netip_piece (Or.inl rfl) hdot hempty (dot :: u) fields with ⟨ho, hloop⟩ | ⟨ho, hloop⟩
      · have hval : Netip.ipv4Loop (a ++ dot :: u) fields 0 0 =
            Netip.ipv4Loop (dot :: u) fields (decimal a) a.length := hloop
        rw [hval, Netip.ipv4Loop, if_neg (by rw [isDigit_dot]; decide), if_pos rfl]
        by_cases hu : u = []
        · rw [if_pos (Or.inr hu)]
          refine iff_of_false (by decide) fun h => ?_
          exact (h.2.2 [] (by rw [hu]; simp)).ne_nil rfl
        · rw [if_neg (by simp [hu, hempty])]
          by_cases hfull : fields.length = 3
          · rw [if_pos hfull]
            refine iff_of_false (by decide) fun h => ?_
            have hpos : (u.splitOn dot).length ≠ 0 := by simp
            omega
          · rw [if_neg hfull]
            have hlen : (fields ++ [decimal a]).length = fields.length + 1 := by simp
            have hrec :=
              ih u.length (by simp; omega) hu (show (fields ++ [decimal a]).length ≤
                3 by omega) rfl
            rw [hrec, hlen]
            constructor
            · exact fun h => ⟨by omega, ho, h.2⟩
            · exact fun h => ⟨by omega, h.2.2⟩
      · have hval : Netip.ipv4Loop (a ++ dot :: u) fields 0 0 = none := hloop
        rw [hval]
        exact iff_of_false (by decide) fun h => ho h.2.1

theorem netip_fields_length {t : Str} {fields l : List Nat} {val digLen : Nat}
    (hf : fields.length ≤ 3) (h : Netip.ipv4Loop t fields val digLen = some l) : l.length = 4 := by
  induction t generalizing fields val digLen with
  | nil =>
    rw [Netip.ipv4Loop] at h
    split_ifs at h with hlt
    cases h
    rw [List.length_append, List.length_singleton]
    omega
  | cons b t ih =>
    rw [Netip.ipv4Loop] at h
    split_ifs at h with hdigit hlead hbig hdot hempty hfull
    · exact ih hf h
    · refine ih ?_ h
      rw [List.length_append, List.length_singleton]
      omega

theorem parseIPv4Fields_isSome {t : Str} : (Netip.parseIPv4Fields t).isSome ↔ IPv4Text t := by
  by_cases ht : t = []
  · subst ht
    refine iff_of_false (by decide) fun h => ?_
    exact (h.2 [] (by simp)).ne_nil rfl
  · exact netip_fields ht (Nat.zero_le 3)

theorem IPv4Text.dot_mem {t : Str} (h : IPv4Text t) : dot ∈ t := by
  by_contra hdot
  have hlen := h.1
  rw [List.splitOn_eq_singleton hdot] at hlen
  cases hlen

theorem mem_piece {t : Str} {b : UInt8} (hb : b ∈ t) : b = dot ∨ ∃ o ∈ t.splitOn dot, b ∈ o := by
  induction hn : t.length using Nat.strong_induction_on generalizing t with
  | _ n ih =>
    subst hn
    rcases splitOn_cases t with ⟨-, hpieces⟩ | ⟨a, u, rfl, -, hpieces⟩
    · exact Or.inr ⟨t, by rw [hpieces]; exact List.mem_cons_self, hb⟩
    · rw [hpieces]
      rcases List.mem_append.mp hb with ha | hu
      · exact Or.inr ⟨a, List.mem_cons_self, ha⟩
      · rcases List.mem_cons.mp hu with hdot | hu
        · exact Or.inl hdot
        · rcases ih u.length (by simp; omega) hu rfl with hdot | ⟨o, ho, hbo⟩
          · exact Or.inl hdot
          · exact Or.inr ⟨o, List.mem_cons_of_mem _ ho, hbo⟩

theorem IPv4Text.bytes {t : Str} (h : IPv4Text t) {b : UInt8} (hb : b ∈ t) :
    isDigit b = true ∨ b = dot := by
  rcases mem_piece hb with hdot | ⟨o, ho, hbo⟩
  · exact Or.inr hdot
  · exact Or.inl ((h.2 o ho).digits b hbo)

theorem expand_plain (zone : Str) (gs : List Nat) :
    Netip.expand zone (some ([], gs, none)) =
      if gs.length < 8 then none else some (.v6 (Netip.ofGroups gs) zone) := rfl

theorem expand_ellipsis (zone : Str) (gs : List Nat) (k : Nat) :
    Netip.expand zone (some ([], gs, some k)) =
      if gs.length < 8 then
        some (.v6 (Netip.ofGroups (gs.take k ++ List.replicate (8 - gs.length) 0 ++ gs.drop k))
          zone)
      else none := rfl

theorem expand_unread (zone : Str) {s : Str} (hs : s ≠ []) (gs : List Nat) (ellipsis : Option Nat) :
    Netip.expand zone (some (s, gs, ellipsis)) = none := by
  cases s with
  | nil => exact absurd rfl hs
  | cons b s => rfl

theorem expand_v6 {zone : Str} {x : Option (Str × List Nat × Option Nat)} {a : Netip.Addr}
    (h : Netip.expand zone x = some a) : ∃ n, a = .v6 n zone := by
  rcases x with _ | ⟨_ | ⟨b, s⟩, gs, _ | k⟩
  · cases h
  · rw [expand_plain] at h
    split_ifs at h
    exact ⟨_, (Option.some.inj h).symm⟩
  · rw [expand_ellipsis] at h
    split_ifs at h
    exact ⟨_, (Option.some.inj h).symm⟩
  · cases h
  · cases h

theorem parseIPv6Body_v6 {s zone : Str} {a : Netip.Addr} (h : Netip.parseIPv6Body s zone = some a) :
    ∃ n, a = .v6 n zone := by
  rw [Netip.parseIPv6Body.eq_def] at h
  split at h
  · split_ifs at h
    · exact ⟨0, (Option.some.inj h).symm⟩
    · exact expand_v6 h
    · exact expand_v6 h
  · exact expand_v6 h

theorem parseIPv6_v6 {s : Str} {a : Netip.Addr} (h : Netip.parseIPv6 s = some a) :
    ∃ n zone, a = .v6 n zone := by
  rw [Netip.parseIPv6] at h
  split at h
  · cases h
  · obtain ⟨n, hn⟩ := parseIPv6Body_v6 h
    exact ⟨n, _, hn⟩

theorem parseAddr_v4_iff {t : Str} : (∃ a, Netip.parseAddr t = some (.v4 a)) ↔ IPv4Text t := by
  rw [← parseIPv4Fields_isSome]
  constructor
  · rintro ⟨a, ha⟩
    rw [Netip.parseAddr] at ha
    split at ha
    · split_ifs at ha
      · obtain ⟨f, hf, -⟩ := Option.map_eq_some_iff.mp ha
        rw [hf, Option.isSome_some]
      · obtain ⟨n, zone, hn⟩ := parseIPv6_v6 ha
        cases hn
    · cases ha
  · intro h
    have htext := parseIPv4Fields_isSome.mp h
    obtain ⟨f, hf⟩ := Option.isSome_iff_exists.mp h
    have hmark : t.find? Netip.isAddrMark = some dot := by
      cases hfind : t.find? Netip.isAddrMark with
      | none => exact absurd (List.find?_eq_none.mp hfind dot htext.dot_mem) (by decide)
      | some b =>
        rcases htext.bytes (List.mem_of_find?_eq_some hfind) with hdigit | hdot
        · have hb := List.find?_some hfind
          rw [Netip.isAddrMark, Bool.or_eq_true, Bool.or_eq_true, beq_iff_eq, beq_iff_eq,
            beq_iff_eq] at hb
          rcases hb with (rfl | rfl) | rfl <;> exact absurd hdigit (by decide)
        · rw [hdot]
    refine ⟨Netip.ofOctets f, ?_⟩
    rw [Netip.parseAddr, hmark]
    change (if dot = dot then _ else _) = _
    rw [if_pos rfl, Netip.parseIPv4, hf]
    rfl

/-- What is left to do behind the digits of group number `i`; `whole` is the text from the group
on. -/
def afterGroup (n i : Nat) (seenColon : Bool) (r whole : Str) : Str → Option Bool
  | [] => some (seenColon || decide (i = 7))
  | b :: u =>
    if i = 7 then some false
    else if b = colon then ipv6Loop n (i + 1) seenColon ⟨u ++ r, u.length⟩
    else if b = dot ∧ ¬ (i < 6 ∧ seenColon = false) then isValidIPv4 ⟨whole ++ r, whole.length⟩
    else some false

theorem afterGroup_other {n i : Nat} {seenColon : Bool} {r whole u : Str} {b : UInt8}
    (hcolon : b ≠ colon) (hdot : b ≠ dot) :
    afterGroup n i seenColon r whole (b :: u) = some false := by
  rw [afterGroup, if_neg hcolon, if_neg fun h : b = dot ∧ _ => hdot h.1, ite_self]

theorem ipv6Loop_colon (n i : Nat) (t r : Str) :
    ipv6Loop (n + 1) i false ⟨colon :: t ++ r, (colon :: t).length⟩ =
      if t = [] then some true else if i = 7 then some false else ipv6Loop n
        (i + 1) true ⟨t ++ r, t.length⟩ := by
  have hloop : ipv6Loop (n + 1) i false ⟨colon :: t ++ r, (colon :: t).length⟩ =
      if t.length + 1 = 1 then some true
      else if i = 7 then some false else ipv6Loop n (i + 1) true ⟨t ++ r, t.length⟩ := rfl
  have hone : t.length + 1 = 1 ↔ t = [] := by simp
  rw [hloop]
  simp only [hone]

theorem ipv6Loop_round {n i : Nat} {seenColon : Bool} {d t r : Str} {f : UInt8} (ht : d ++ t ≠ [])
    (hd : ((d ++ t).take 4).takeWhile Netip.isHex = d)
    (hcolon : seenColon = false → (d ++ t).head? ≠ some colon) (hf : f ≠ colon ∧ f ≠ dot) :
    ipv6Loop (n + 1) i seenColon ⟨d ++ t ++ f :: r, (d ++ t).length⟩ =
      if d = [] then some false else afterGroup n i seenColon (f :: r) (d ++ t) t := by
  have hlen : (d ++ t).length ≠ 0 := by simpa using ht
  have hrun := hexRun_eq 4 (d ++ t) (f :: r)
  rw [hd] at hrun
  obtain ⟨y, u, hyu⟩ := List.exists_cons_of_ne_nil ht
  have hhead : byteAt ⟨d ++ t ++ f :: r, (d ++ t).length⟩ 0 = some y := by
    rw [hyu]
    rfl
  have hat : byteAt ⟨d ++ t ++ f :: r, (d ++ t).length⟩ d.length = (t ++ f :: r).head? := by
    rw [List.append_assoc]
    exact byteAt_append d (t ++ f :: r) _
  have hfirst : ¬ (y = colon ∧ seenColon = false) := by
    rintro ⟨rfl, hseen⟩
    exact hcolon hseen (by rw [hyu]; rfl)
  have hloop : ipv6Loop (n + 1) i seenColon ⟨d ++ t ++ f :: r, (d ++ t).length⟩ =
      if d.length = 0 then pure false
      else if d.length = (d ++ t).length ∧ (seenColon ∨ i = 7) then pure true
      else if i = 7 then pure false
      else (t ++ f :: r).head?.bind fun c => if c ≠ colon then
          (if c ≠ dot ∨ (i < 6 ∧ seenColon = false) then pure false
            else isValidIPv4 ⟨d ++ t ++ f :: r, (d ++ t).length⟩)
        else ipv6Loop n (i + 1) seenColon (advance ⟨d ++ t ++ f :: r,
          (d ++ t).length⟩ (d.length + 1)) := by
    rw [ipv6Loop, if_neg hlen, hhead]
    change (if _ then _ else _) = _
    rw [if_neg hfirst, hrun, ← hat]
    rfl
  rw [hloop]
  by_cases hne : d = []
  · rw [if_pos (by rw [hne]; rfl), if_pos hne]
    rfl
  rw [if_neg (by simpa using hne), if_neg hne]
  cases t with
  | nil =>
    rw [afterGroup, List.append_nil]
    by_cases hstop : seenColon = true ∨ i = 7
    · rw [if_pos ⟨rfl, hstop⟩]
      have hdecide : (seenColon || decide (i = 7)) = true := by simpa using hstop
      rw [hdecide]
      rfl
    · rw [if_neg fun h => hstop h.2, if_neg fun h => hstop (Or.inr h), List.nil_append,
        List.head?_cons, Option.bind_some, if_pos hf.1, if_pos (Or.inl hf.2)]
      rw [not_or, Bool.not_eq_true] at hstop
      simp [hstop.1, hstop.2]
  | cons b u =>
    have hadvance : advance ⟨d ++ b :: u ++ f :: r, (d ++ b :: u).length⟩ (d.length + 1) =
        ⟨u ++ f :: r, u.length⟩ := by
      simpa using advance_append (d ++ [b]) u (f :: r)
    rw [if_neg
      fun h => by
        simpa using h.1, afterGroup, hadvance, List.cons_append, List.head?_cons, Option.bind_some]
    by_cases hseven : i = 7
    · rw [if_pos hseven, if_pos hseven]
      rfl
    rw [if_neg hseven, if_neg hseven]
    by_cases hb : b = colon
    · rw [if_neg (not_not.mpr hb), if_pos hb]
    · rw [if_pos hb, if_neg hb]
      by_cases hdot : b = dot ∧ ¬ (i < 6 ∧ seenColon = false)
      · rw [if_pos hdot, if_neg]
        rw [not_or, not_not]
        exact hdot
      · rw [if_neg hdot, if_pos]
        · rfl
        · by_cases hbd : b = dot
          · exact Or.inr (by_contra fun h => hdot ⟨hbd, h⟩)
          · exact Or.inl hbd

def NoLoneColon (t : Str) : Prop := ∀ p x, t = p ++ [x, colon] → x = colon

theorem NoLoneColon.drop {d t : Str} (h : NoLoneColon (d ++ t)) : NoLoneColon t := by
  rintro p x rfl
  exact h (d ++ p) x (by rw [List.append_assoc])

theorem NoLoneColon.tail {b : UInt8} {t : Str} (h : NoLoneColon (b :: t)) : NoLoneColon t :=
  NoLoneColon.drop (show NoLoneColon ([b] ++ t) from h)

theorem NoLoneColon.ne_nil {d t : Str} (h : NoLoneColon (d ++ colon :: t)) (hd : ∀ b ∈ d, b ≠ colon)
    (hne : d ≠ []) :
    t ≠ [] := by
  rintro rfl
  obtain ⟨p, x, rfl⟩ := (List.eq_nil_or_concat' d).resolve_left hne
  refine hd x (by simp) (h p x ?_)
  rw [List.append_assoc]
  rfl

def Accepts (t : Str) (gs : List Nat) (ellipsis : Option Nat) : Prop :=
  (Netip.expand [] (Netip.ipv6Loop (8 - gs.length) t gs ellipsis)).isSome = true

structure Group (d rest : Str) : Prop where
  ne_nil : d ≠ []
  length_le : d.length ≤ 4
  hex : ∀ b ∈ d, Netip.isHex b = true
  ends : ∀ b ∈ rest.head?, Netip.isHex b = false

theorem Group.takeWhile {d rest : Str} (h : Group d rest) :
    (d ++ rest).takeWhile Netip.isHex = d ∧ (d ++ rest).dropWhile Netip.isHex = rest := by
  have hrest : rest.takeWhile Netip.isHex = [] ∧ rest.dropWhile Netip.isHex = rest := by
    cases rest with
    | nil => exact ⟨rfl, rfl⟩
    | cons b rest => simp [h.ends b rfl]
  rw [List.takeWhile_append_of_pos h.hex, List.dropWhile_append_of_pos h.hex, hrest.1, hrest.2,
    List.append_nil]
  exact ⟨rfl, rfl⟩

def afterDigits (gs : List Nat) (ellipsis : Option Nat) (g : Nat) (whole : Str) :
    Str → Option (Str × List Nat × Option Nat)
  | [] => some ([], gs ++ [g], ellipsis)
  | b :: t =>
    if b = dot then
      if ellipsis = none ∧ gs.length ≠ 6 then none
      else if 8 < gs.length + 2 then none
      else match Netip.parseIPv4Fields whole with
        | some [f₀, f₁, f₂, f₃] => some ([], gs ++ [f₀ * 256 + f₁, f₂ * 256 + f₃], ellipsis)
        | _ => none
    else if b ≠ colon then none
    else match t with
      | [] => none
      | c :: u =>
        if c = colon then
          if ellipsis.isSome then none
          else if u = [] then some ([], gs ++ [g], some (gs ++ [g]).length)
          else Netip.ipv6Loop (7 - gs.length) u (gs ++ [g]) (some (gs ++ [g]).length)
        else Netip.ipv6Loop (7 - gs.length) t (gs ++ [g]) ellipsis

theorem accepts_group {d rest : Str} (h : Group d rest) {gs : List Nat} (hk : gs.length ≤ 7)
    {ellipsis : Option Nat} :
    Accepts (d ++ rest) gs ellipsis ↔
      (Netip.expand [] (afterDigits gs ellipsis (Netip.hexNumber d) (d ++ rest) rest)).isSome =
        true := by
  have hn : 8 - gs.length = 7 - gs.length + 1 := by omega
  have hok : ¬ (d = [] ∨ 4 < d.length) := not_or.mpr ⟨h.ne_nil, Nat.not_lt.mpr h.length_le⟩
  rw [Accepts, hn, Netip.ipv6Loop]
  simp only [h.takeWhile.1, h.takeWhile.2, if_neg hok]
  rfl

theorem not_accepts_of_digits {t : Str} {gs : List Nat} {ellipsis : Option Nat} (hk : gs.length ≤ 7)
    (h : t.takeWhile Netip.isHex = [] ∨ 4 < (t.takeWhile Netip.isHex).length) :
    ¬ Accepts t gs ellipsis := by
  have hn : 8 - gs.length = 7 - gs.length + 1 := by omega
  rw [Accepts, hn, Netip.ipv6Loop]
  simp only [if_pos h]
  decide

section
variable {d u : Str} {gs : List Nat} {ellipsis : Option Nat}

theorem accepts_end (h : Group d []) (hk : gs.length ≤ 7) :
    Accepts d gs ellipsis ↔ (gs.length < 7 ↔ ellipsis.isSome = true) := by
  have hgroup : Accepts (d ++ []) gs ellipsis ↔ _ := accepts_group h hk
  rw [List.append_nil] at hgroup
  have hlen : (gs ++ [Netip.hexNumber d]).length = gs.length + 1 := by simp
  rw [hgroup, afterDigits]
  cases ellipsis with
  | none =>
    rw [expand_plain, hlen]
    split_ifs with hlt <;> simp <;> omega
  | some e =>
    rw [expand_ellipsis, hlen]
    split_ifs with hlt <;> simp <;> omega

theorem accepts_dot (h : Group d (dot :: u)) (hk : gs.length ≤ 7) :
    Accepts (d ++ dot :: u) gs ellipsis ↔
      IPv4Text (d ++ dot :: u) ∧ if ellipsis.isSome then gs.length < 6 else gs.length = 6 := by
  rw [accepts_group h hk, afterDigits.eq_def, ← parseIPv4Fields_isSome]
  dsimp only
  rw [if_pos rfl]
  by_cases hplace : ellipsis = none ∧ gs.length ≠ 6
  · rw [if_pos hplace]
    refine iff_of_false (by decide) fun hfalse => ?_
    rw [hplace.1] at hfalse
    exact hplace.2 hfalse.2
  rw [if_neg hplace]
  by_cases hroom : 8 < gs.length + 2
  · rw [if_pos hroom]
    refine iff_of_false (by decide) fun hfalse => ?_
    have hcases := hfalse.2
    split_ifs at hcases <;> omega
  rw [if_neg hroom]
  cases hfields : Netip.parseIPv4Fields (d ++ dot :: u) with
  | none => exact iff_of_false Bool.false_ne_true fun hfalse => by simpa using hfalse.1
  | some l =>
    have hl := netip_fields_length (show ([] : List Nat).length ≤ 3 by decide) hfields
    obtain ⟨f₀, f₁, f₂, f₃, rfl⟩ : ∃ f₀ f₁ f₂ f₃, l = [f₀, f₁, f₂, f₃] := by
      match l, hl with
      | [f₀, f₁, f₂, f₃], _ => exact ⟨f₀, f₁, f₂, f₃, rfl⟩
    dsimp only
    have hlen : (gs ++ [f₀ * 256 + f₁, f₂ * 256 + f₃]).length = gs.length + 2 := by simp
    cases ellipsis with
    | none =>
      have hsix : gs.length = 6 := by simpa using hplace
      rw [expand_plain, hlen, hsix]
      simp
    | some e =>
      rw [expand_ellipsis, hlen]
      by_cases hlt : gs.length < 6
      · rw [if_pos (by omega)]
        simp [hlt]
      · rw [if_neg (by omega)]
        simp [hlt]

theorem not_accepts_other {b : UInt8} (h : Group d (b :: u)) (hk : gs.length ≤ 7) (hdot : b ≠ dot)
    (hcolon : b ≠ colon) :
    ¬ Accepts (d ++ b :: u) gs ellipsis := by
  rw [accepts_group h hk, afterDigits.eq_def]
  dsimp only
  rw [if_neg hdot, if_pos hcolon]
  decide

theorem isHex_colon : Netip.isHex colon = false := by decide

theorem accepts_colon {c : UInt8} (h : Group d (colon :: c :: u)) (hk : gs.length ≤ 7)
    (hc : c ≠ colon) :
    Accepts (d ++ colon :: c :: u) gs ellipsis ↔
    Accepts (c :: u) (gs ++ [Netip.hexNumber d]) ellipsis := by
  have hlen : 8 - (gs ++ [Netip.hexNumber d]).length = 7 - gs.length := by
    rw [List.length_append, List.length_singleton]
    omega
  rw [accepts_group h hk, afterDigits, if_neg (by decide), if_neg (not_not.mpr rfl), Accepts,
    hlen, if_neg hc]

theorem accepts_colons (h : Group d (colon :: colon :: u)) (hk : gs.length ≤ 7) :
    Accepts (d ++ colon :: colon :: u) gs ellipsis ↔
      ellipsis = none ∧ if u = [] then gs.length < 7
        else Accepts u (gs ++ [Netip.hexNumber d]) (some (gs ++ [Netip.hexNumber d]).length) := by
  have hlen : (gs ++ [Netip.hexNumber d]).length = gs.length + 1 := by simp
  have hsub : 8 - (gs ++ [Netip.hexNumber d]).length = 7 - gs.length := by
    rw [hlen]
    omega
  rw [accepts_group h hk, afterDigits, if_neg (by decide), if_neg (not_not.mpr rfl), if_pos rfl]
  cases ellipsis with
  | some e => exact iff_of_false Bool.false_ne_true fun hfalse => by cases hfalse.1
  | none =>
    rw [if_neg (by decide), and_iff_right rfl]
    by_cases hu : u = []
    · rw [if_pos hu, if_pos hu, expand_ellipsis, hlen]
      split_ifs with hlt <;> simp <;> omega
    · rw [if_neg hu, if_neg hu, Accepts, hsub]

theorem not_accepts_lone (h : Group d [colon]) (hk : gs.length ≤ 7) :
    ¬ Accepts (d ++ [colon]) gs ellipsis := by
  rw [accepts_group h hk, afterDigits, if_neg (by decide), if_neg (not_not.mpr rfl)]
  decide

theorem not_accepts_eight {t : Str} (ht : t ≠ []) (hk : gs.length = 8) :
    ¬ Accepts t gs ellipsis := by
  rw [Accepts, hk, Nat.sub_self, Netip.ipv6Loop, expand_unread _ ht]
  decide

end

/-- What the recogniser reads as a group: one of the parser, or the front of a longer one. -/
theorem group_cases (t : Str) :
    t.takeWhile Netip.isHex = [] ∨
      (∃ d rest, t = d ++ rest ∧ (t.take 4).takeWhile Netip.isHex = d ∧ Group d rest) ∨
      (4 < (t.takeWhile Netip.isHex).length ∧
        ∃ d b u, t = d ++ b :: u ∧ (t.take 4).takeWhile Netip.isHex = d ∧ d ≠ [] ∧
        Netip.isHex b = true) := by
  have htake : (t.take 4).takeWhile Netip.isHex = (t.takeWhile Netip.isHex).take 4 :=
    List.take_takeWhile.symm
  have hsplit : t = t.takeWhile Netip.isHex ++ t.dropWhile Netip.isHex :=
    List.takeWhile_append_dropWhile.symm
  have hhex : ∀ b ∈ t.takeWhile Netip.isHex, Netip.isHex b = true :=
    fun b hb => List.mem_takeWhile_imp hb
  have hends : ∀ b ∈ (t.dropWhile Netip.isHex).head?, Netip.isHex b = false := by
    intro b hb
    have hne : t.dropWhile Netip.isHex ≠ [] := by
      rintro hnil
      rw [hnil] at hb
      cases hb
    have hhead := List.head_dropWhile_not Netip.isHex hne
    rw [List.head?_eq_some_head hne] at hb
    rwa [Option.some.inj hb] at hhead
  rw [htake]
  generalize t.takeWhile Netip.isHex = digits at *
  generalize t.dropWhile Netip.isHex = rest at *
  by_cases hnil : digits = []
  · exact Or.inl hnil
  by_cases hlen : digits.length ≤ 4
  · exact Or.inr (Or.inl ⟨digits, rest, hsplit, List.take_of_length_le hlen, hnil,
      hlen, hhex, hends⟩)
  · rw [Nat.not_le] at hlen
    refine Or.inr (Or.inr ⟨hlen, digits.take 4, digits.get ⟨4, hlen⟩, digits.drop 5 ++ rest,
      ?_, rfl, ?_, ?_⟩)
    · rw [hsplit, ← List.cons_append, List.get_eq_getElem, ← List.drop_eq_getElem_cons hlen,
        ← List.append_assoc, List.take_append_drop]
    · intro htk
      have := congrArg List.length htk
      rw [List.length_take, List.length_nil] at this
      omega
    · exact hhex _ (List.get_mem _ _)

theorem not_accepts_full {t : Str} {gs : List Nat} {e : Nat} (hgs : gs.length = 7) :
    ¬ Accepts t gs (some e) := by
  have hk : gs.length ≤ 7 := hgs.le
  rcases group_cases t with hnone | ⟨d, rest, rfl, -, hgroup⟩ | ⟨hlong, -⟩
  · exact not_accepts_of_digits hk (Or.inl hnone)
  · match rest, hgroup with
    | [], hgroup =>
      rw [List.append_nil, accepts_end hgroup hk, hgs]
      simp
    | b :: u, hgroup =>
      by_cases hdot : b = dot
      · subst hdot
        rw [accepts_dot hgroup hk, hgs]
        simp
      by_cases hcolon : b = colon
      · subst hcolon
        match u, hgroup with
        | [], hgroup => exact not_accepts_lone hgroup hk
        | c :: u, hgroup =>
          by_cases hc : c = colon
          · subst hc
            rw [accepts_colons hgroup hk]
            exact fun h => by cases h.1
          · rw [accepts_colon hgroup hk hc]
            exact not_accepts_eight (List.cons_ne_nil _ _) (by simp [hgs])
      · exact not_accepts_other hgroup hk hdot hcolon
  · exact not_accepts_of_digits hk (Or.inr hlong)

theorem colon_notMem_of_hex {d : Str} (h : ∀ b ∈ d, Netip.isHex b = true) : ∀ b ∈ d, b ≠ colon := by
  rintro b hb rfl
  have hhex := h colon hb
  rw [isHex_colon] at hhex
  cases hhex

section
variable {n : Nat} {d u r : Str} {f : UInt8} {gs : List Nat} {ellipsis : Option Nat}

theorem not_accepts_seven {b : UInt8} (h : Group d (b :: u))
    (hi : gs.length + ellipsis.toList.length = 7) :
    ¬ Accepts (d ++ b :: u) gs ellipsis := by
  have hk : gs.length ≤ 7 := by omega
  by_cases hdot : b = dot
  · subst hdot
    rw [accepts_dot h hk]
    rintro ⟨-, hplace⟩
    cases ellipsis <;> simp at hi hplace <;> omega
  by_cases hcolon : b = colon
  · subst hcolon
    match u, h with
    | [], h => exact not_accepts_lone h hk
    | c :: u, h =>
      by_cases hc : c = colon
      · subst hc
        rw [accepts_colons h hk]
        rintro ⟨rfl, hrest⟩
        have hseven : gs.length = 7 := hi
        split_ifs at hrest with hu
        · omega
        · exact not_accepts_eight hu (by simp [hseven]) hrest
      · rw [accepts_colon h hk hc]
        cases ellipsis with
        | none =>
          have hseven : gs.length = 7 := hi
          exact not_accepts_eight (List.cons_ne_nil _ _) (by simp [hseven])
        | some e =>
          have hsix : gs.length + 1 = 7 := hi
          exact not_accepts_full (by simp; omega)
  · exact not_accepts_other h hk hdot hcolon

end

theorem ipv6Loop_iff {fuel : Nat} {t r : Str} {f : UInt8} (hf : f ≠ colon ∧ f ≠ dot) {gs : List Nat}
    {ellipsis : Option Nat} (ht : t ≠ []) (hlone : NoLoneColon t)
    (hcolon : ellipsis.isSome = false → t.head? ≠ some colon)
    (hfuel : fuel + (gs.length + ellipsis.toList.length) = 8)
    (hi : gs.length + ellipsis.toList.length ≤ 7) :
    ∃ b, ipv6Loop fuel (gs.length + ellipsis.toList.length) ellipsis.isSome ⟨t ++ f :: r,
      t.length⟩ = some b ∧
      (b = true ↔ Accepts t gs ellipsis) := by
  induction fuel using Nat.strong_induction_on generalizing t gs ellipsis with
  | _ fuel ih =>
    obtain ⟨n, rfl⟩ : ∃ n, fuel = n + 1 := ⟨fuel - 1, by omega⟩
    have hk : gs.length ≤ 7 := by omega
    rcases group_cases t with hnone | ⟨d, rest, rfl, hd, hgroup⟩ | ⟨hlong, d, b, u,
      rfl, hd, hne, hb⟩
    · have hd : (([] ++ t).take 4).takeWhile Netip.isHex = [] := by
        rw [List.nil_append, ← List.take_takeWhile, hnone]
        rfl
      have hround :=
        @ipv6Loop_round n (gs.length + ellipsis.toList.length) ellipsis.isSome [] t r f
          ht hd hcolon hf
      rw [if_pos rfl] at hround
      exact ⟨false, hround, iff_of_false nofun (not_accepts_of_digits hk (Or.inl hnone))⟩
    · have hround :=
        @ipv6Loop_round n (gs.length + ellipsis.toList.length) ellipsis.isSome d rest r f
          ht hd hcolon hf
      rw [if_neg hgroup.ne_nil] at hround
      rw [hround]
      match rest, hgroup, hlone with
      | [], hgroup, _ =>
        refine ⟨_, rfl, ?_⟩
        rw [List.append_nil, accepts_end hgroup hk]
        cases ellipsis with
        | none =>
          have hle : gs.length ≤ 7 := hk
          simp
          omega
        | some e =>
          have hlt : gs.length + 1 ≤ 7 := hi
          simp
          omega
      | b :: u, hgroup, hlone =>
        by_cases hseven : gs.length + ellipsis.toList.length = 7
        · refine ⟨false, ?_, iff_of_false nofun (not_accepts_seven hgroup hseven)⟩
          rw [afterGroup, if_pos hseven]
        by_cases hdot : b = dot
        · subst hdot
          rw [afterGroup, if_neg hseven, if_neg (by decide), accepts_dot hgroup hk]
          by_cases hplace : gs.length + ellipsis.toList.length < 6 ∧ ellipsis.isSome = false
          · refine ⟨false, if_neg fun h => h.2 hplace, iff_of_false nofun ?_⟩
            rintro ⟨-, hsix⟩
            rw [hplace.2, if_neg Bool.false_ne_true] at hsix
            omega
          · obtain ⟨b, hb, hiff⟩ := isValidIPv4_iff (t := d ++ dot :: u) (List.cons_ne_nil f r)
            refine ⟨b, (if_pos ⟨rfl, hplace⟩).trans hb, hiff.trans (iff_self_and.mpr fun _ => ?_)⟩
            cases ellipsis <;> simp at hplace hseven hi ⊢ <;> omega
        by_cases hbc : b = colon
        · subst hbc
          rw [afterGroup, if_neg hseven, if_pos rfl]
          have hu : u ≠ [] := hlone.ne_nil (colon_notMem_of_hex hgroup.hex) hgroup.ne_nil
          have hrest : NoLoneColon u := by
            rw [List.append_cons] at hlone
            exact hlone.drop
          obtain ⟨c, u, rfl⟩ := List.exists_cons_of_ne_nil hu
          have hlen : (gs ++ [Netip.hexNumber d]).length = gs.length + 1 := by simp
          have hidx : gs.length + ellipsis.toList.length + 1 =
              (gs ++ [Netip.hexNumber d]).length + ellipsis.toList.length := by omega
          by_cases hc : c = colon
          · subst hc
            rw [accepts_colons hgroup hk]
            cases hell : ellipsis with
            | some e =>
              rw [hell] at hidx hfuel hi hseven
              have hnot : ¬ Accepts (colon :: u) (gs ++ [Netip.hexNumber d]) (some e) := by
                refine not_accepts_of_digits (by simp at hi hseven ⊢; omega) (Or.inl ?_)
                rw [List.takeWhile_cons_of_neg (by rw [isHex_colon]; decide)]
              obtain ⟨b, hb, hiff⟩ :=
                @ih n (by omega) (colon :: u) (gs ++ [Netip.hexNumber d]) (some e) hu hrest
                nofun (by omega) (by omega)
              refine ⟨b, by rw [hidx]; exact hb,
                hiff.trans (iff_of_false hnot fun h => by cases h.1)⟩
            | none =>
              rw [hell] at hfuel hi hseven
              have hsix : gs.length ≠ 7 := hseven
              have hn : n + 1 + gs.length = 8 := hfuel
              obtain ⟨m, rfl⟩ : ∃ m, n = m + 1 := ⟨n - 1, by omega⟩
              have hstep := ipv6Loop_colon m (gs.length + 1) u (f :: r)
              rw [and_iff_right rfl]
              by_cases hnil : u = []
              · rw [if_pos hnil] at hstep ⊢
                exact ⟨true, hstep, iff_of_true rfl (by omega)⟩
              rw [if_neg hnil] at hstep ⊢
              by_cases hlast : gs.length + 1 = 7
              · rw [if_pos hlast] at hstep
                exact ⟨false, hstep, iff_of_false nofun (not_accepts_full (by omega))⟩
              · rw [if_neg hlast] at hstep
                have hsucc : gs.length + 1 + 1 = (gs ++ [Netip.hexNumber d]).length +
                  (some (gs ++ [Netip.hexNumber d]).length).toList.length := by simp
                obtain ⟨b, hb, hiff⟩ := @ih m (by omega) u (gs ++ [Netip.hexNumber d])
                  (some (gs ++ [Netip.hexNumber d]).length) hnil hrest.tail nofun
                    (by omega) (by omega)
                refine ⟨b, hstep.trans ?_, hiff⟩
                rw [hsucc]
                exact hb
          · rw [accepts_colon hgroup hk hc, hidx]
            exact ih n (by omega) hu hrest (fun _ h => hc (Option.some.inj h)) (by omega) (by omega)
        · exact ⟨false, afterGroup_other hbc hdot,
            iff_of_false nofun (not_accepts_other hgroup hk hdot hbc)⟩
    · -- five digits in a row
      have hround :=
        @ipv6Loop_round n (gs.length + ellipsis.toList.length) ellipsis.isSome d (b :: u) r f
          ht hd hcolon hf
      have hbc : b ≠ colon := by
        rintro rfl
        rw [isHex_colon] at hb
        cases hb
      have hbd : b ≠ dot := by
        rintro rfl
        exact absurd hb (by decide)
      rw [if_neg hne, afterGroup_other hbc hbd] at hround
      exact ⟨false, hround, iff_of_false nofun (not_accepts_of_digits hk (Or.inr hlong))⟩

theorem NoLoneColon.append {u : Str} (h : NoLoneColon u) (hne : u ≠ [])
    (hcolon : u ≠ [colon]) (w : Str) :
    NoLoneColon (w ++ u) := by
  intro p x heq
  obtain ⟨v, y, rfl⟩ := (List.eq_nil_or_concat' u).resolve_left hne
  have hpx : p ++ [x, colon] = (p ++ [x]) ++ [colon] := by simp
  rw [hpx, ← List.append_assoc] at heq
  obtain ⟨hfront, hlast⟩ := List.append_inj' heq rfl
  obtain rfl : y = colon := List.singleton_inj.mp hlast
  obtain ⟨v', z, rfl⟩ := (List.eq_nil_or_concat' v).resolve_left fun hv =>
    hcolon (by rw [hv, List.nil_append])
  rw [← List.append_assoc] at hfront
  obtain rfl : z = x := List.singleton_inj.mp (List.append_inj' hfront rfl).2
  exact h v' z (by simp)

theorem noLoneColon_of_last {t : Str} (h : t.getLast? ≠ some colon) : NoLoneColon t := by
  rintro p x rfl
  exact absurd (by simp) h

theorem noLoneColon_of_notMem {t : Str} (h : colon ∉ t) : NoLoneColon t :=
  noLoneColon_of_last fun hlast => h (List.mem_of_getLast? hlast)

theorem not_accepts_colon {t : Str} {gs : List Nat} {ellipsis : Option Nat} (hk : gs.length ≤ 7) :
    ¬ Accepts (colon :: t) gs ellipsis := by
  refine not_accepts_of_digits hk (Or.inl ?_)
  rw [List.takeWhile_cons_of_neg (by rw [isHex_colon]; decide)]

theorem noLoneColon_of_accepts {t : Str} {gs : List Nat} {ellipsis : Option Nat}
    (h : Accepts t gs ellipsis) (hk : gs.length ≤ 8) : NoLoneColon t := by
  induction hn : t.length using Nat.strong_induction_on generalizing t gs ellipsis with
  | _ n ih =>
    subst hn
    by_cases height : gs.length = 8
    · have ht : t = [] := by_contra fun ht => not_accepts_eight ht height h
      rw [ht]
      exact noLoneColon_of_notMem List.not_mem_nil
    have hk : gs.length ≤ 7 := by omega
    have hlen : ∀ g, (gs ++ [g]).length ≤ 8 := fun g => by simp; omega
    rcases group_cases t with hnone | ⟨d, rest, rfl, -, hgroup⟩ | ⟨hlong, -⟩
    · exact absurd h (not_accepts_of_digits hk (Or.inl hnone))
    · have hd : colon ∉ d := fun hmem => colon_notMem_of_hex hgroup.hex colon hmem rfl
      match rest, hgroup with
      | [], _ =>
        rw [List.append_nil]
        exact noLoneColon_of_notMem hd
      | b :: u, hgroup =>
        by_cases hdot : b = dot
        · subst hdot
          refine noLoneColon_of_notMem fun hmem => ?_
          rcases ((accepts_dot hgroup hk).mp h).1.bytes hmem with hb | hb <;> revert hb <;> decide
        by_cases hcolon : b = colon
        · subst hcolon
          match u, hgroup with
          | [], hgroup => exact absurd h (not_accepts_lone hgroup hk)
          | c :: u, hgroup =>
            rw [List.append_cons]
            by_cases hc : c = colon
            · subst hc
              have hrest := ((accepts_colons hgroup hk).mp h).2
              rw [List.append_cons]
              by_cases hu : u = []
              · subst hu
                intro p x heq
                rw [List.append_nil, List.append_assoc] at heq
                exact (List.cons.inj (List.append_inj' heq rfl).2).1.symm
              · rw [if_neg hu] at hrest
                have hne : u ≠ [colon] := by
                  rintro rfl
                  by_cases hfull : (gs ++ [Netip.hexNumber d]).length ≤ 7
                  · exact not_accepts_colon hfull hrest
                  · exact not_accepts_eight hu (by have := hlen (Netip.hexNumber d); omega) hrest
                exact (ih u.length (by simp; omega) hrest (hlen _) rfl).append hu hne _
            · have hrest := (accepts_colon hgroup hk hc).mp h
              exact (ih (c :: u).length (by simp; omega) hrest (hlen _) rfl).append
                (List.cons_ne_nil _ _)
                (fun heq => hc (List.cons.inj heq).1) _
        · exact absurd h (not_accepts_other hgroup hk hdot hcolon)
    · exact absurd h (not_accepts_of_digits hk (Or.inr hlong))

theorem nil_length_le (n : Nat) : ([] : List Nat).length ≤ n := Nat.zero_le n

theorem accepts_first {t : Str} (h : Accepts t [] none) :
    ∃ d u, t = d ++ colon :: u ∧ Group d (colon :: u) := by
  have hk := nil_length_le 7
  rcases group_cases t with hnone | ⟨d, rest, rfl, -, hgroup⟩ | ⟨hlong, -⟩
  · exact absurd h (not_accepts_of_digits hk (Or.inl hnone))
  · match rest, hgroup with
    | [], hgroup =>
      rw [List.append_nil, accepts_end hgroup hk] at h
      simp at h
    | b :: u, hgroup =>
      by_cases hdot : b = dot
      · subst hdot
        have hsix := ((accepts_dot hgroup hk).mp h).2
        cases hsix
      by_cases hcolon : b = colon
      · subst hcolon
        exact ⟨d, u, rfl, hgroup⟩
      · exact absurd h (not_accepts_other hgroup hk hdot hcolon)
  · exact absurd h (not_accepts_of_digits hk (Or.inr hlong))

def WholeText (t : Str) : Prop :=
  (∃ u, t = colon :: colon :: u ∧ (u = [] ∨ Accepts u [] (some 0))) ∨ t.head? ≠ some colon ∧
  Accepts t [] none

theorem WholeText.noLoneColon {t : Str} (h : WholeText t) : NoLoneColon t := by
  rcases h with ⟨u, rfl, rfl | hu⟩ | ⟨-, h⟩
  · intro p x heq
    obtain rfl : p = [] := by simpa using congrArg List.length heq
    exact (List.cons.inj heq).1.symm
  · have hne : u ≠ [] := by
      rintro rfl
      exact not_accepts_of_digits (nil_length_le 7) (Or.inl rfl) hu
    have hcolon : u ≠ [colon] := by
      rintro rfl
      exact not_accepts_colon (nil_length_le 7) hu
    exact (noLoneColon_of_accepts hu (nil_length_le 8)).append hne hcolon [colon, colon]
  · exact noLoneColon_of_accepts h (nil_length_le 8)

theorem parseIPv6Body_isSome {t : Str} :
    (Netip.parseIPv6Body t []).isSome = true ↔ WholeText t := by
  have hplain : t.head? ≠ some colon →
      (Netip.parseIPv6Body t [] = Netip.expand [] (Netip.ipv6Loop 8 t [] none)) := by
    intro hhead
    rw [Netip.parseIPv6Body.eq_def]
    split
    · refine if_neg fun h => hhead ?_
      rw [h.1]
      rfl
    · rfl
  by_cases hhead : t.head? = some colon
  · rcases t with _ | ⟨b, _ | ⟨c, u⟩⟩
    · cases hhead
    · obtain rfl := Option.some.inj hhead
      refine iff_of_false (by decide) ?_
      rintro (⟨u, heq, -⟩ | ⟨hno, -⟩)
      · cases heq
      · exact hno rfl
    · obtain rfl := Option.some.inj hhead
      rw [Netip.parseIPv6Body]
      by_cases hc : c = colon
      · subst hc
        rw [if_pos ⟨rfl, rfl⟩]
        by_cases hu : u = []
        · rw [if_pos hu]
          exact iff_of_true rfl (Or.inl ⟨u, rfl, Or.inl hu⟩)
        · rw [if_neg hu]
          constructor
          · exact fun h => Or.inl ⟨u, rfl, Or.inr h⟩
          · rintro (⟨u', heq, h⟩ | ⟨hno, -⟩)
            · obtain rfl := (List.cons.inj (List.cons.inj heq).2).2
              exact h.resolve_left hu
            · exact absurd rfl hno
      · rw [if_neg fun h => hc h.2]
        refine iff_of_false (not_accepts_colon (nil_length_le 7)) ?_
        rintro (⟨u', heq, -⟩ | ⟨hno, -⟩)
        · exact hc (List.cons.inj (List.cons.inj heq).2).1
        · exact hno rfl
  · rw [hplain hhead]
    constructor
    · exact fun h => Or.inr ⟨hhead, h⟩
    · rintro (⟨u, rfl, -⟩ | ⟨-, h⟩)
      · exact absurd rfl hhead
      · exact h

theorem WholeText.two_le {t : Str} (h : WholeText t) : 2 ≤ t.length := by
  rcases h with ⟨u, rfl, -⟩ | ⟨-, h⟩
  · simp
  · obtain ⟨d, u, rfl, hgroup⟩ := accepts_first h
    have hpos : d.length ≠ 0 := by simpa using hgroup.ne_nil
    rw [List.length_append, List.length_cons]
    omega

theorem isValidIPv6_wholeText {t r : Str} {f : UInt8} (hf : f ≠ colon ∧ f ≠ dot) :
    ∃ b, isValidIPv6 ⟨t ++ f :: r, t.length⟩ = some b ∧ (b = true ↔ WholeText t) := by
  by_cases hshort : t.length < 2
  · refine ⟨false, ?_, iff_of_false Bool.false_ne_true fun h => by have := h.two_le; omega⟩
    rw [isValidIPv6, if_pos hshort]
    rfl
  obtain ⟨b, c, u, hfront⟩ : ∃ b c u, t = b :: c :: u := by
    rcases t with _ | ⟨b, _ | ⟨c, u⟩⟩
    · simp at hshort
    · simp at hshort
    · exact ⟨b, c, u, rfl⟩
  obtain ⟨p, x, y, hback⟩ : ∃ p x y, t = p ++ [x, y] := by
    obtain ⟨p', y, rfl⟩ := (List.eq_nil_or_concat' t).resolve_left (by rw [hfront]; simp)
    obtain ⟨p, x, rfl⟩ := (List.eq_nil_or_concat' p').resolve_left (by rintro rfl; simp at hshort)
    exact ⟨p, x, y, by simp⟩
  have hat₀ : byteAt ⟨t ++ f :: r, t.length⟩ 0 = some b := by rw [hfront]; rfl
  have hat₁ : byteAt ⟨t ++ f :: r, t.length⟩ 1 = some c := by rw [hfront]; rfl
  have hlast : byteAt ⟨t ++ f :: r, t.length⟩ (t.length - 1) = some y := by
    rw [hback]
    simp [byteAt]
  have hlast₂ : byteAt ⟨t ++ f :: r, t.length⟩ (t.length - 2) = some x := by
    rw [hback]
    simp [byteAt]
  have hvalid : isValidIPv6 ⟨t ++ f :: r, t.length⟩ =
      if b = colon ∧ c ≠ colon then pure false
      else if y = colon ∧ x ≠ colon then pure false
      else ipv6Loop 8 0 false (advance ⟨t ++ f :: r, t.length⟩ (if b = colon then 1 else 0)) := by
    rw [isValidIPv6, if_neg hshort, hat₀, hat₁, hlast, hlast₂]
    rfl
  rw [hvalid]
  by_cases hopen : b = colon ∧ c ≠ colon
  · refine ⟨false, if_pos hopen, iff_of_false Bool.false_ne_true ?_⟩
    rw [hfront]
    rintro (⟨u', heq, -⟩ | ⟨hno, -⟩)
    · exact hopen.2 (List.cons.inj (List.cons.inj heq).2).1
    · exact hno (by rw [hopen.1]; rfl)
  rw [if_neg hopen]
  by_cases hclose : y = colon ∧ x ≠ colon
  · refine ⟨false, if_pos hclose, iff_of_false Bool.false_ne_true fun h => ?_⟩
    exact hclose.2 (h.noLoneColon p x (by rw [hback, hclose.1]))
  rw [if_neg hclose]
  have hlone : NoLoneColon t := by
    intro p' x' heq
    obtain ⟨-, hxy⟩ := List.append_inj' (hback.symm.trans heq) rfl
    obtain ⟨rfl, hy⟩ := List.cons.inj hxy
    by_contra hx
    exact hclose ⟨List.singleton_inj.mp hy, hx⟩
  by_cases hb : b = colon
  · obtain rfl : c = colon := by_contra fun hc => hopen ⟨hb, hc⟩
    subst hb
    have hadvance : advance ⟨t ++ f :: r, t.length⟩ (if colon = colon then 1 else 0) =
        ⟨colon :: u ++ f :: r, (colon :: u).length⟩ := by
      rw [hfront]
      rfl
    rw [hadvance, ipv6Loop_colon, hfront]
    have hwhole : WholeText (colon :: colon :: u) ↔ u = [] ∨ Accepts u [] (some 0) := by
      constructor
      · rintro (⟨u', heq, h⟩ | ⟨hno, -⟩)
        · rwa [(List.cons.inj (List.cons.inj heq).2).2]
        · exact absurd rfl hno
      · exact fun h => Or.inl ⟨u, rfl, h⟩
    rw [hwhole]
    by_cases hu : u = []
    · exact ⟨true, if_pos hu, iff_of_true rfl (Or.inl hu)⟩
    · rw [if_neg hu, if_neg (by decide), or_iff_right hu]
      rw [hfront] at hlone
      exact @ipv6Loop_iff 7 u r f hf [] (some 0) hu hlone.tail.tail (by simp) rfl (by decide)
  · have hadvance : advance ⟨t ++ f :: r, t.length⟩ (if b = colon then 1 else 0) =
        ⟨t ++ f :: r, t.length⟩ := by
      rw [if_neg hb]
      rfl
    have hhead : t.head? ≠ some colon := by
      rw [hfront]
      exact fun h => hb (Option.some.inj h)
    have hwhole : WholeText t ↔ Accepts t [] none := by
      constructor
      · rintro (⟨u', heq, -⟩ | ⟨-, h⟩)
        · exact absurd (by rw [heq]; rfl) hhead
        · exact h
      · exact fun h => Or.inr ⟨hhead, h⟩
    rw [hadvance, hwhole]
    exact @ipv6Loop_iff 8 t r f hf [] none (by rw [hfront]; simp) hlone
      (fun _ => hhead) rfl (by decide)

theorem WholeText.percent_notMem {t : Str} (h : WholeText t) : percent ∉ t := by
  obtain ⟨b, hb, hiff⟩ := @isValidIPv6_wholeText t [] 0 (by decide)
  rw [hiff.mpr h] at hb
  intro hmem
  exact absurd (isValidIPv6_bytes hb percent hmem) (by decide)

theorem find?_addrMark {d u : Str} (hd : ∀ b ∈ d, Netip.isHex b = true) :
    (d ++ colon :: u).find? Netip.isAddrMark = some colon := by
  have hnone : d.find? Netip.isAddrMark = none := by
    rw [List.find?_eq_none]
    intro b hb hmark
    have hhex := hd b hb
    rw [Netip.isAddrMark, Bool.or_eq_true, Bool.or_eq_true, beq_iff_eq, beq_iff_eq,
      beq_iff_eq] at hmark
    rcases hmark with (rfl | rfl) | rfl <;> exact absurd hhex (by decide)
  rw [List.find?_append, hnone]
  rfl

theorem WholeText.find?_addrMark {t : Str} (h : WholeText t) :
    t.find? Netip.isAddrMark = some colon := by
  rcases h with ⟨u, rfl, -⟩ | ⟨-, h⟩
  · rfl
  · obtain ⟨d, u, rfl, hgroup⟩ := accepts_first h
    exact StringSpan.find?_addrMark hgroup.hex

theorem parseIPv6_of_notMem {t : Str} (h : percent ∉ t) :
    Netip.parseIPv6 t = Netip.parseIPv6Body t [] := by
  rw [Netip.parseIPv6, cut_of_notMem h]

theorem parseAddr_v6_iff {t : Str} : (∃ a, Netip.parseAddr t = some (.v6 a [])) ↔ WholeText t := by
  constructor
  · rintro ⟨a, ha⟩
    rw [Netip.parseAddr] at ha
    split at ha
    · split_ifs at ha
      · obtain ⟨g, -, hg⟩ := Option.map_eq_some_iff.mp ha
        cases hg
      · rw [← parseIPv6Body_isSome]
        rcases cut_cases t percent with ⟨hnot, -⟩ | ⟨x, zone, -, -, hcut⟩
        · rw [parseIPv6_of_notMem hnot] at ha
          rw [ha, Option.isSome_some]
        · -- a zone would be part of the result
          rw [Netip.parseIPv6, hcut] at ha
          cases zone with
          | nil => cases ha
          | cons z zone =>
            obtain ⟨n, hn⟩ := parseIPv6Body_v6 ha
            cases hn
    · cases ha
  · intro h
    obtain ⟨a, ha⟩ := Option.isSome_iff_exists.mp (parseIPv6Body_isSome.mpr h)
    obtain ⟨n, rfl⟩ := parseIPv6Body_v6 ha
    refine ⟨n, ?_⟩
    rw [Netip.parseAddr, h.find?_addrMark]
    change (if colon = dot then _ else if colon = colon then _ else _) = _
    rw [if_neg (by decide), if_pos rfl, parseIPv6_of_notMem h.percent_notMem, ha]

/-- Of the byte `f` behind the span the recogniser of IPv4 addresses needs nothing:
`isValidEndpoint` calls it with a colon there. -/
theorem addresses_exact (t r : Str) (f : UInt8) :
    (isValidIPv4 ⟨t ++ f :: r, t.length⟩ = some true ↔ ∃ a, Netip.parseAddr t = some (.v4 a)) ∧
      (f ≠ colon ∧ f ≠ dot →
        (isValidIPv6 ⟨t ++ f :: r, t.length⟩ = some true ↔ ∃ a, Netip.parseAddr t =
          some (.v6 a []))) := by
  obtain ⟨b₄, hb₄, hiff₄⟩ := isValidIPv4_iff (t := t) (List.cons_ne_nil f r)
  rw [hb₄, Option.some.injEq, hiff₄, parseAddr_v4_iff, parseAddr_v6_iff]
  refine ⟨Iff.rfl, fun hf => ?_⟩
  obtain ⟨b₆, hb₆, hiff₆⟩ := @isValidIPv6_wholeText t r f hf
  rw [hb₆, Option.some.injEq, hiff₆]

theorem addresses_exact_embedded :
    (∃ a, Netip.parseAddr (str "192.0.2.1") = some (.v4 a)) ∧
      ∃ a, Netip.parseAddr (str "2001:db8::192.0.2.1") = some (.v6 a []) :=
  ⟨(addresses_exact (str "192.0.2.1") [] slash).1.mp (by decide +kernel),
    ((addresses_exact (str "2001:db8::192.0.2.1") [] slash).2 (by decide)).mp (by decide +kernel)⟩

end WireGuardWindows.Syntax.StringSpan
