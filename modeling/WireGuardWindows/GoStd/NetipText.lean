import WireGuardWindows.GoStd.Netip

/-!
# Printed addresses and prefixes parse back

The IPv6 printer compresses one run of zero groups; the parser reads the groups
before and after the ellipsis and fills the gap with zeros, so the proof follows
the text in these two halves.
-/

namespace GoStd.Netip
open Strings Strconv

theorem octets_lt (a : BitVec 32) : ∀ o ∈ octets a, o < 256 := by
  have ha := a.isLt
  intro o ho
  simp only [octets, List.mem_cons, List.not_mem_nil, or_false] at ho
  omega

theorem ofOctets_octets (a : BitVec 32) : ofOctets (octets a) = a := by
  have ha := a.isLt
  apply BitVec.eq_of_toNat_eq
  simp only [ofOctets, octets, List.foldl_cons, List.foldl_nil, BitVec.toNat_ofNat]
  omega

theorem groups_lt (a : BitVec 128) : ∀ g ∈ groups a, g < 65536 := by
  have ha := a.isLt
  intro g hg
  simp only [groups, List.mem_cons, List.not_mem_nil, or_false] at hg
  omega

theorem ofGroups_groups (a : BitVec 128) : ofGroups (groups a) = a := by
  have ha := a.isLt
  apply BitVec.eq_of_toNat_eq
  simp only [ofGroups, groups, List.foldl_cons, List.foldl_nil, BitVec.toNat_ofNat]
  omega

theorem dot_not_digit : isDigit dot = false := by decide

theorem ipv4Loop_itoa {v : Nat} (hv : v < 256) (t : Str) (fields : List Nat) :
    ipv4Loop (itoa v ++ t) fields 0 0 = ipv4Loop t fields v (itoa v).length := by
  induction v using Nat.strong_induction_on generalizing t with
  | _ v ih =>
    by_cases h : v < 10
    · obtain ⟨hd, hval⟩ := digitChar_isDigit h
      have hle : ¬ 255 < v := by omega
      simp [itoa_of_lt h, ipv4Loop, hd, hval, hle]
    · obtain ⟨hd, hval⟩ := digitChar_isDigit (Nat.mod_lt v (by decide : 0 < 10))
      have hsum : v / 10 * 10 + v % 10 = v := by omega
      have hnz : ¬ ((itoa (v / 10)).length = 1 ∧ v / 10 = 0) := by omega
      have hle : ¬ 255 < v := by omega
      rw [itoa_of_ge (by omega), List.append_assoc, ih (v / 10) (by omega) (by omega)]
      rw [List.singleton_append, ipv4Loop]
      simp only [hd, hval, hsum, hnz, hle, if_true, if_false, List.length_append,
        List.length_singleton]

theorem ipv4Loop_dot {fields : List Nat} {v n : Nat} {t : Str} (hn : n ≠ 0) (ht : t ≠ [])
    (hf : fields.length ≠ 3) :
    ipv4Loop (dot :: t) fields v n = ipv4Loop t (fields ++ [v]) 0 0 := by
  simp [ipv4Loop, dot_not_digit, hn, ht, hf]

theorem itoa_length_ne (n : Nat) : (itoa n).length ≠ 0 := by
  simpa using itoa_ne_nil n

theorem parseIPv4Fields_string4 (a : BitVec 32) :
    parseIPv4Fields (string4 a) = some (octets a) := by
  have hlt := octets_lt a
  simp only [octets, List.mem_cons, List.not_mem_nil, or_false, forall_eq_or_imp, forall_eq] at hlt
  obtain ⟨h0, h1, h2, h3⟩ := hlt
  have hne : ∀ n t, itoa n ++ t ≠ [] := fun n t => by simp [itoa_ne_nil]
  simp only [parseIPv4Fields, string4, octets, List.map_cons, List.map_nil,
    List.intercalate_cons_cons, List.intercalate_singleton, List.append_assoc,
    List.singleton_append]
  rw [ipv4Loop_itoa h0, ipv4Loop_dot (itoa_length_ne _) (hne _ _) (by simp),
    ipv4Loop_itoa h1, ipv4Loop_dot (itoa_length_ne _) (hne _ _) (by simp),
    ipv4Loop_itoa h2, ipv4Loop_dot (itoa_length_ne _) (by simp [itoa_ne_nil]) (by simp)]
  have hlast := ipv4Loop_itoa h3 [] ([] ++ [a.toNat / 16777216] ++ [a.toNat / 65536 % 256] ++
    [a.toNat / 256 % 256])
  rw [List.append_nil] at hlast
  rw [hlast]
  simp [ipv4Loop]

theorem hexString_ne_nil (n : Nat) : hexString n ≠ [] := by
  simp [hexString]

theorem hexString_of_lt {n : Nat} (h : n < 16) : hexString n = [(Nat.digitChar n).toUInt8] := by
  simp [hexString, Nat.toDigits_of_lt_base h]

theorem hexString_of_ge {n : Nat} (h : 16 ≤ n) :
    hexString n = hexString (n / 16) ++ [(Nat.digitChar (n % 16)).toUInt8] := by
  simp [hexString, Nat.toDigits_of_base_le (by decide : 1 < 16) h]

theorem hexValue_digitChar {d : Nat} (h : d < 16) :
    hexValue (Nat.digitChar d).toUInt8 = some d := by
  have hall : ∀ d < 16, hexValue (Nat.digitChar d).toUInt8 = some d := by decide
  exact hall d h

theorem isHex_of_mem_hexString {n : Nat} {b : UInt8} (h : b ∈ hexString n) : isHex b = true := by
  induction n using Nat.strong_induction_on with
  | _ n ih =>
    by_cases hn : n < 16
    · rw [hexString_of_lt hn, List.mem_singleton] at h
      simp [h, isHex, hexValue_digitChar hn]
    · rw [hexString_of_ge (by omega), List.mem_append, List.mem_singleton] at h
      rcases h with h | h
      · exact ih (n / 16) (by omega) h
      · simp [h, isHex, hexValue_digitChar (Nat.mod_lt n (by decide : 0 < 16))]

theorem hexNumber_hexString (n : Nat) : hexNumber (hexString n) = n := by
  induction n using Nat.strong_induction_on with
  | _ n ih =>
    by_cases hn : n < 16
    · simp [hexString_of_lt hn, hexNumber, hexValue_digitChar hn]
    · have hd := hexValue_digitChar (Nat.mod_lt n (by decide : 0 < 16))
      have hih := ih (n / 16) (by omega)
      rw [hexNumber] at hih
      rw [hexString_of_ge (by omega), hexNumber, List.foldl_append, hih]
      simp only [List.foldl_cons, List.foldl_nil, hd, Option.getD_some]
      omega

theorem hexString_length_le {g : Nat} (h : g < 65536) : ¬ 4 < (hexString g).length := by
  have hl := (Nat.length_toDigits_le_iff (b := 16) (n := g) (k := 4) (by decide) (by decide)).mpr h
  simpa [hexString] using hl

theorem colon_not_hex : isHex colon = false := by decide

theorem dot_not_hex : isHex dot = false := by decide

theorem takeWhile_hexString (g : Nat) {t : Str} (ht : ∀ b ∈ t.head?, isHex b = false) :
    (hexString g ++ t).takeWhile isHex = hexString g ∧ (hexString g ++ t).dropWhile isHex = t := by
  have hall : ∀ b ∈ hexString g, isHex b = true := fun b hb => isHex_of_mem_hexString hb
  have htt : t.takeWhile isHex = [] ∧ t.dropWhile isHex = t := by
    cases t with
    | nil => exact ⟨rfl, rfl⟩
    | cons b t => simp [ht b (by simp)]
  rw [List.takeWhile_append_of_pos hall, List.dropWhile_append_of_pos hall, htt.1, htt.2]
  exact ⟨List.append_nil _, rfl⟩

theorem hexString_join_head (gs : List Nat) (hne : gs ≠ []) :
    ∃ b t, [colon].intercalate (gs.map hexString) = b :: t ∧ b ≠ colon := by
  obtain ⟨g, gs, rfl⟩ := List.exists_cons_of_ne_nil hne
  obtain ⟨b, t, hbt⟩ := List.exists_cons_of_ne_nil (hexString_ne_nil g)
  have hb : b ≠ colon := by
    rintro rfl
    have := isHex_of_mem_hexString (n := g) (b := colon) (by simp [hbt])
    exact absurd this (by decide)
  refine ⟨b, [colon].intercalate (t :: gs.map hexString), ?_, hb⟩
  simp [hbt]

theorem ipv6Loop_last {g : Nat} (hg : g < 65536) (n : Nat) (acc : List Nat) (e : Option Nat) :
    ipv6Loop (n + 1) (hexString g) acc e = some ([], acc ++ [g], e) := by
  obtain ⟨htake, hdrop⟩ := takeWhile_hexString g (t := []) (by simp)
  rw [List.append_nil] at htake hdrop
  simp [ipv6Loop, htake, hdrop, hexString_ne_nil, hexString_length_le hg, hexNumber_hexString]

theorem ipv6Loop_colon {g : Nat} (hg : g < 65536) (n : Nat) (acc : List Nat) (e : Option Nat)
    {b : UInt8} (hb : b ≠ colon) (t : Str) :
    ipv6Loop (n + 1) (hexString g ++ colon :: b :: t) acc e =
      ipv6Loop n (b :: t) (acc ++ [g]) e := by
  obtain ⟨htake, hdrop⟩ := takeWhile_hexString g (t := colon :: b :: t)
    (by simp [colon_not_hex])
  have hcd : colon ≠ dot := by decide
  simp [ipv6Loop, htake, hdrop, hexString_ne_nil, hexString_length_le hg, hexNumber_hexString,
    hcd, hb]

theorem ipv6Loop_ellipsis {g : Nat} (hg : g < 65536) (n : Nat) (acc : List Nat) (t : Str) :
    ipv6Loop (n + 1) (hexString g ++ colon :: colon :: t) acc none =
      if t = [] then some ([], acc ++ [g], some (acc.length + 1))
      else ipv6Loop n t (acc ++ [g]) (some (acc.length + 1)) := by
  obtain ⟨htake, hdrop⟩ := takeWhile_hexString g (t := colon :: colon :: t)
    (by simp [colon_not_hex])
  have hcd : colon ≠ dot := by decide
  simp [ipv6Loop, htake, hdrop, hexString_ne_nil, hexString_length_le hg, hexNumber_hexString, hcd]

theorem ipv6Loop_group {g : Nat} (hg : g < 65536) {gs : List Nat} (hgs : gs ≠ []) (n : Nat)
    (acc : List Nat) (e : Option Nat) (t : Str) :
    ipv6Loop (n + 1) ([colon].intercalate ((g :: gs).map hexString) ++ t) acc e =
      ipv6Loop n ([colon].intercalate (gs.map hexString) ++ t) (acc ++ [g]) e := by
  obtain ⟨b, u, hbu, hb⟩ := hexString_join_head gs hgs
  rw [List.map_cons, List.intercalate_cons_of_ne_nil (by simpa using hgs), hbu, List.append_assoc,
    List.append_assoc, List.singleton_append, List.cons_append, ipv6Loop_colon hg n acc e hb]

theorem ipv6Loop_groups (gs : List Nat) (hne : gs ≠ []) (hlt : ∀ g ∈ gs, g < 65536) {n : Nat}
    (hn : gs.length ≤ n) (acc : List Nat) (e : Option Nat) :
    ipv6Loop n ([colon].intercalate (gs.map hexString)) acc e = some ([], acc ++ gs, e) := by
  induction gs generalizing n acc with
  | nil => exact absurd rfl hne
  | cons g gs ih =>
    obtain ⟨n, rfl⟩ : ∃ m, n = m + 1 := ⟨n - 1, by simp only [List.length_cons] at hn; omega⟩
    obtain ⟨hg, hlt⟩ := List.forall_mem_cons.mp hlt
    by_cases hgs : gs = []
    · subst hgs
      simpa using ipv6Loop_last hg n acc e
    · have hstep := ipv6Loop_group hg hgs n acc e []
      rw [List.append_nil, List.append_nil] at hstep
      rw [hstep, ih hgs hlt (Nat.le_of_succ_le_succ hn), List.append_assoc, List.singleton_append]

theorem ipv6Loop_groups_ellipsis (gs : List Nat) (hne : gs ≠ []) (hlt : ∀ g ∈ gs, g < 65536)
    {n : Nat} (hn : gs.length ≤ n) (acc : List Nat) (t : Str) :
    ipv6Loop n ([colon].intercalate (gs.map hexString) ++ colon :: colon :: t) acc none =
      if t = [] then some ([], acc ++ gs, some (acc ++ gs).length)
      else ipv6Loop (n - gs.length) t (acc ++ gs) (some (acc ++ gs).length) := by
  induction gs generalizing n acc with
  | nil => exact absurd rfl hne
  | cons g gs ih =>
    obtain ⟨n, rfl⟩ : ∃ m, n = m + 1 := ⟨n - 1, by simp only [List.length_cons] at hn; omega⟩
    obtain ⟨hg, hlt⟩ := List.forall_mem_cons.mp hlt
    by_cases hgs : gs = []
    · subst hgs
      simpa using ipv6Loop_ellipsis hg n acc t
    · rw [ipv6Loop_group hg hgs, ih hgs hlt (Nat.le_of_succ_le_succ hn), List.append_assoc,
        List.singleton_append, List.length_cons, Nat.add_sub_add_right]

theorem isHex_of_isDigit {b : UInt8} (h : isDigit b = true) : isHex b = true := by
  simp only [isDigit, Bool.and_eq_true, decide_eq_true_eq] at h
  simp [isHex, hexValue, h]

theorem mem_intercalate {α : Type*} {sep : α} {ls : List (List α)} {b : α}
    (h : b ∈ [sep].intercalate ls) : b = sep ∨ ∃ l ∈ ls, b ∈ l := by
  induction ls with
  | nil => simp at h
  | cons l ls ih =>
    cases ls with
    | nil => exact Or.inr ⟨l, by simp, by simpa using h⟩
    | cons m ls =>
      rw [List.intercalate_cons_cons, List.mem_append, List.mem_append, List.mem_singleton] at h
      rcases h with (h | h) | h
      · exact Or.inr ⟨l, by simp, h⟩
      · exact Or.inl h
      · rcases ih h with h | ⟨k, hk, hb⟩
        · exact Or.inl h
        · exact Or.inr ⟨k, List.mem_cons_of_mem _ hk, hb⟩

theorem mem_string4 {a : BitVec 32} {b : UInt8} (h : b ∈ string4 a) :
    isDigit b = true ∨ b = dot := by
  rcases mem_intercalate h with h | ⟨l, hl, hb⟩
  · exact Or.inr h
  · obtain ⟨o, -, rfl⟩ := List.mem_map.mp hl
    exact Or.inl (isDigit_of_mem_itoa hb)

theorem mem_hexString_join {gs : List Nat} {b : UInt8}
    (h : b ∈ [colon].intercalate (gs.map hexString)) : isHex b = true ∨ b = colon := by
  rcases mem_intercalate h with h | ⟨l, hl, hb⟩
  · exact Or.inr h
  · obtain ⟨o, -, rfl⟩ := List.mem_map.mp hl
    exact Or.inl (isHex_of_mem_hexString hb)

theorem mem_string6 {a : BitVec 128} {b : UInt8} (h : b ∈ string6 a) :
    isHex b = true ∨ b = colon := by
  rw [string6] at h
  split at h
  · exact mem_hexString_join h
  · simp only [List.mem_append, List.mem_cons, List.not_mem_nil, or_false, or_self] at h
    rcases h with (h | h) | h
    · exact mem_hexString_join h
    · exact Or.inr h
    · exact mem_hexString_join h

theorem hex_not_mark {b : UInt8} (h : isHex b = true) : isAddrMark b = false := by
  have hd : b ≠ dot := by rintro rfl; exact absurd h (by decide)
  have hc : b ≠ colon := by rintro rfl; exact absurd h (by decide)
  have hp : b ≠ percent := by rintro rfl; exact absurd h (by decide)
  simp [isAddrMark, hd, hc, hp]

theorem find_mark {s : Str} {m : UInt8} (hm : isAddrMark m = true)
    (hs : ∀ b ∈ s, isHex b = true ∨ b = m) (hmem : m ∈ s) (t : Str) :
    (s ++ t).find? isAddrMark = some m := by
  induction s with
  | nil => simp at hmem
  | cons b s ih =>
    rcases hs b (by simp) with hb | rfl
    · have hne : m ≠ b := by rintro rfl; simp [hex_not_mark hb] at hm
      rw [List.cons_append, List.find?_cons, hex_not_mark hb]
      exact ih (fun c hc => hs c (by simp [hc])) ((List.mem_cons.mp hmem).resolve_left hne)
    · simp [hm]

theorem dot_mem_string4 (a : BitVec 32) : dot ∈ string4 a := by
  simp [string4, octets, List.intercalate_cons_cons]

theorem colon_mem_string6 (a : BitVec 128) : colon ∈ string6 a := by
  rw [string6]
  split
  · simp [groups, List.intercalate_cons_cons]
  · simp

theorem parseAddr_string4 (a : BitVec 32) : parseAddr (string4 a) = some (.v4 a) := by
  have hf := find_mark (m := dot) (by decide)
    (fun b hb => (mem_string4 hb).imp_left isHex_of_isDigit) (dot_mem_string4 a) []
  rw [List.append_nil] at hf
  simp [parseAddr, hf, parseIPv4, parseIPv4Fields_string4, ofOctets_octets]

theorem zeroRun_eq_some {gs : List Nat} {i l : Nat} (h : zeroRun gs = some (i, l)) :
    2 ≤ l ∧ l = zeroPrefixLen (gs.drop i) := by
  have hinv : ∀ (is : List Nat) (best : Option (Nat × Nat)),
      (∀ p ∈ best, 2 ≤ p.2 ∧ p.2 = zeroPrefixLen (gs.drop p.1)) →
      ∀ p ∈ is.foldl (fun best i =>
        let l := zeroPrefixLen (gs.drop i)
        if 2 ≤ l ∧ (best.map (·.2)).getD 0 < l then some (i, l) else best) best,
      2 ≤ p.2 ∧ p.2 = zeroPrefixLen (gs.drop p.1) := by
    intro is
    induction is with
    | nil => exact fun best hbest => hbest
    | cons j is ih =>
      intro best hbest
      apply ih
      dsimp only
      split
      · rename_i hj
        rintro p ⟨⟩
        exact ⟨hj.1, rfl⟩
      · exact hbest
  exact hinv _ none (by simp) (i, l) h

theorem split_zeroRun {gs : List Nat} {i l : Nat} (h : zeroRun gs = some (i, l)) :
    gs = gs.take i ++ List.replicate l 0 ++ gs.drop (i + l) := by
  obtain ⟨-, hl⟩ := zeroRun_eq_some h
  have hrep : (gs.drop i).takeWhile (· == 0) = List.replicate l 0 := by
    rw [List.eq_replicate_iff]
    exact ⟨hl.symm, fun g hg => by simpa using List.mem_takeWhile_imp hg⟩
  have hsplit := List.takeWhile_append_dropWhile (p := fun g : Nat => g == 0) (l := gs.drop i)
  have hdrop : (gs.drop i).dropWhile (· == 0) = gs.drop (i + l) := by
    rw [← List.drop_drop]
    conv_rhs => rw [← hsplit, hrep]
    simp
  rw [hrep, hdrop] at hsplit
  rw [List.append_assoc, hsplit, List.take_append_drop]

theorem expand_ellipsis {u v : List Nat} {l : Nat} (hl : 0 < l) (h : u.length + l + v.length = 8)
    (zone : Str) :
    expand zone (some ([], u ++ v, some u.length)) =
      some (.v6 (ofGroups (u ++ List.replicate l 0 ++ v)) zone) := by
  have hlen : (u ++ v).length < 8 := by rw [List.length_append]; omega
  have hrest : 8 - (u ++ v).length = l := by rw [List.length_append]; omega
  simp only [expand, hlen, if_true, hrest, List.take_left, List.drop_left]

theorem parseIPv6Body_head {b : UInt8} {t : Str} (hb : b ≠ colon) (zone : Str) :
    parseIPv6Body (b :: t) zone = expand zone (ipv6Loop 8 (b :: t) [] none) := by
  cases t <;> simp [parseIPv6Body, hb]

theorem parseIPv6Body_colon {t : Str} (ht : t ≠ []) (zone : Str) :
    parseIPv6Body (colon :: colon :: t) zone = expand zone (ipv6Loop 8 t [] (some 0)) := by
  simp [parseIPv6Body, ht]

theorem hexString_join_ne_nil {gs : List Nat} (h : gs ≠ []) :
    [colon].intercalate (gs.map hexString) ≠ [] := by
  obtain ⟨b, t, hbt, -⟩ := hexString_join_head gs h
  simp [hbt]

theorem parseIPv6Body_ellipsis {u v : List Nat} {l : Nat} (hl : 0 < l)
    (h : u.length + l + v.length = 8) (hu : ∀ g ∈ u, g < 65536) (hv : ∀ g ∈ v, g < 65536)
    (zone : Str) :
    parseIPv6Body ([colon].intercalate (u.map hexString) ++ [colon, colon] ++
      [colon].intercalate (v.map hexString)) zone =
      some (.v6 (ofGroups (u ++ List.replicate l 0 ++ v)) zone) := by
  rw [← expand_ellipsis hl h, List.append_assoc, List.cons_append, List.singleton_append]
  by_cases hun : u = []
  · subst hun
    by_cases hvn : v = []
    · subst hvn
      simp [parseIPv6Body, expand, ofGroups]
    · have hloop := ipv6Loop_groups v hvn hv (n := 8) (by omega) [] (some 0)
      rw [List.map_nil, List.intercalate_nil, List.nil_append,
        parseIPv6Body_colon (hexString_join_ne_nil hvn), hloop]
      rfl
  · obtain ⟨b, t, hbt, hb⟩ := hexString_join_head u hun
    have hloop := ipv6Loop_groups_ellipsis u hun hu (n := 8) (by omega) []
      ([colon].intercalate (v.map hexString))
    rw [hbt, List.cons_append] at hloop ⊢
    rw [parseIPv6Body_head hb, hloop]
    by_cases hvn : v = []
    · simp [hvn]
    · rw [if_neg (hexString_join_ne_nil hvn),
        ipv6Loop_groups v hvn hv (by omega), List.nil_append]

theorem parseIPv6Body_string6 (a : BitVec 128) (zone : Str) :
    parseIPv6Body (string6 a) zone = some (.v6 a zone) := by
  have hlt := groups_lt a
  have hlen : (groups a).length = 8 := rfl
  rw [string6]
  split
  · obtain ⟨b, t, hbt, hb⟩ := hexString_join_head (groups a) (by simp [groups])
    have hloop := ipv6Loop_groups (groups a) (by simp [groups]) hlt (n := 8) hlen.le [] none
    rw [hbt] at hloop ⊢
    rw [parseIPv6Body_head hb, hloop]
    simp [expand, hlen, ofGroups_groups]
  · rename_i i l hrun
    have hsplit := split_zeroRun hrun
    have hl := (zeroRun_eq_some hrun).1
    have hlens := congrArg List.length hsplit
    simp only [List.length_append, List.length_replicate, hlen] at hlens
    rw [parseIPv6Body_ellipsis (l := l) (by omega) (by omega)
      (fun g hg => hlt g (List.mem_of_mem_take hg)) (fun g hg => hlt g (List.mem_of_mem_drop hg)),
      ← hsplit, ofGroups_groups]

theorem takeWhile_itoa (n : Nat) (t : Str) :
    (itoa n ++ dot :: t).takeWhile isHex = itoa n ∧
      (itoa n ++ dot :: t).dropWhile isHex = dot :: t := by
  have hall : ∀ b ∈ itoa n, isHex b = true := fun b hb => isHex_of_isDigit (isDigit_of_mem_itoa hb)
  simp [List.takeWhile_append_of_pos hall, List.dropWhile_append_of_pos hall, dot_not_hex]

theorem ipv6Loop_string4 (a : BitVec 32) (n : Nat) (g : Nat) :
    ipv6Loop (n + 1) (string4 a) [g] (some 0) =
      some ([], [g, a.toNat / 65536, a.toNat % 65536], some 0) := by
  have hhigh : ∀ n : Nat, n / 16777216 * 256 + n / 65536 % 256 = n / 65536 := fun n => by omega
  have hlow : ∀ n : Nat, n / 256 % 256 * 256 + n % 256 = n % 65536 := fun n => by omega
  have hfields := parseIPv4Fields_string4 a
  obtain ⟨t, ht⟩ : ∃ t, string4 a = itoa (a.toNat / 16777216) ++ dot :: t := by
    simp [string4, octets, List.intercalate_cons_cons]
  have ho : a.toNat / 16777216 < 10 ^ 4 := by have := a.isLt; omega
  have hlen := (Nat.length_toDigits_le_iff (b := 10) (k := 4) (by decide) (by decide)).mpr ho
  have hlen' : ¬ 4 < (itoa (a.toNat / 16777216)).length := by simpa [itoa] using hlen
  rw [ht] at hfields ⊢
  obtain ⟨htake, hdrop⟩ := takeWhile_itoa (a.toNat / 16777216) t
  simp [ipv6Loop, htake, hdrop, itoa_ne_nil, hlen', hfields, octets, hhigh, hlow]

theorem ofGroups_is4In6 {a : BitVec 128} (h : is4In6 a = true) :
    ofGroups (List.replicate 5 0 ++
      [0xFFFF, (a.setWidth 32).toNat / 65536, (a.setWidth 32).toNat % 65536]) = a := by
  have hhigh : a.toNat / 2 ^ 32 = 0xFFFF := by simpa [is4In6] using h
  apply BitVec.eq_of_toNat_eq
  simp only [ofGroups, List.replicate, List.cons_append, List.nil_append, List.foldl_cons,
    List.foldl_nil, BitVec.toNat_ofNat, BitVec.toNat_setWidth]
  omega

theorem mappedStart_eq : str "::ffff:" = colon :: colon :: (hexString 0xFFFF ++ [colon]) := by
  decide +kernel

theorem mem_mappedStart : ∀ b ∈ str "::ffff:", isHex b = true ∨ b = colon := by
  decide +kernel

theorem parseIPv6Body_is4In6 {a : BitVec 128} (h : is4In6 a = true) (zone : Str) :
    parseIPv6Body (str "::ffff:" ++ string4 (a.setWidth 32)) zone = some (.v6 a zone) := by
  obtain ⟨b, t, hbt⟩ : ∃ b t, string4 (a.setWidth 32) = b :: t :=
    List.exists_cons_of_ne_nil (List.ne_nil_of_mem (dot_mem_string4 _))
  have hb : b ≠ colon := by
    rintro rfl
    rcases mem_string4 (a := a.setWidth 32) (b := colon) (by simp [hbt]) with h | h
    · exact absurd h (by decide)
    · exact absurd h (by decide)
  have htext : str "::ffff:" ++ string4 (a.setWidth 32) =
      colon :: colon :: (hexString 0xFFFF ++ colon :: b :: t) := by
    rw [hbt, mappedStart_eq]
    simp
  rw [htext, parseIPv6Body_colon (by simp), ipv6Loop_colon (by decide) 7 [] (some 0) hb, ← hbt,
    List.nil_append, ipv6Loop_string4]
  refine (expand_ellipsis (u := []) (l := 5) (by decide) rfl zone).trans ?_
  rw [List.nil_append, ofGroups_is4In6 h]

def body6 (a : BitVec 128) : Str :=
  if is4In6 a then str "::ffff:" ++ string4 (a.setWidth 32) else string6 a

theorem string_v6 (a : BitVec 128) (zone : Str) :
    (Addr.v6 a zone).string = body6 a ++ zoneSuffix zone := rfl

theorem mem_body6 {a : BitVec 128} {b : UInt8} (h : b ∈ body6 a) :
    isHex b = true ∨ b = colon ∨ b = dot := by
  rw [body6] at h
  split at h
  · rcases List.mem_append.mp h with h | h
    · exact (mem_mappedStart b h).imp_right Or.inl
    · exact (mem_string4 h).imp isHex_of_isDigit Or.inr
  · exact (mem_string6 h).imp_right Or.inl

theorem percent_notMem_body6 (a : BitVec 128) : percent ∉ body6 a := by
  intro h
  rcases mem_body6 h with h | h | h <;> exact absurd h (by decide)

theorem find_mark_body6 (a : BitVec 128) (t : Str) :
    (body6 a ++ t).find? isAddrMark = some colon := by
  rw [body6]
  split
  · rw [List.append_assoc]
    exact find_mark (by decide) mem_mappedStart (by simp [mappedStart_eq]) _
  · exact find_mark (by decide) (fun b hb => mem_string6 hb) (colon_mem_string6 a) t

theorem parseIPv6_string (a : BitVec 128) (zone : Str) :
    parseIPv6 (body6 a ++ zoneSuffix zone) = some (.v6 a zone) := by
  have hbody : parseIPv6Body (body6 a) zone = some (.v6 a zone) := by
    rw [body6]
    split
    · exact parseIPv6Body_is4In6 ‹_› zone
    · exact parseIPv6Body_string6 a zone
  have hp := percent_notMem_body6 a
  by_cases hz : zone = []
  · subst hz
    simp [parseIPv6, zoneSuffix, cut_of_notMem hp, hbody]
  · obtain ⟨z, zs, rfl⟩ := List.exists_cons_of_ne_nil hz
    simp [parseIPv6, zoneSuffix, cut_append hp, hbody]

theorem parseAddr_string {ip : Addr} (h : ip ≠ .zero) : parseAddr ip.string = some ip := by
  cases ip with
  | zero => exact absurd rfl h
  | v4 a => exact parseAddr_string4 a
  | v6 a zone =>
    have hcd : colon ≠ dot := by decide
    simp only [string_v6, parseAddr, find_mark_body6, hcd, if_false, if_true]
    exact parseIPv6_string a zone

theorem string_ne_nil {ip : Addr} (h : ip ≠ .zero) : ip.string ≠ [] := by
  intro hnil
  have hparse := parseAddr_string h
  rw [hnil] at hparse
  cases hparse

theorem expand_ne_zero (zone : Str) (r : Option (Str × List Nat × Option Nat)) :
    expand zone r ≠ some .zero := by
  fun_cases expand zone r <;> simp

theorem parseAddr_ne_zero (s : Str) : parseAddr s ≠ some .zero := by
  have h4 : parseIPv4 s ≠ some .zero := by simp [parseIPv4]
  have hbody : ∀ body zone, parseIPv6Body body zone ≠ some .zero := by
    intro body zone
    fun_cases parseIPv6Body body zone
    · simp
    all_goals exact expand_ne_zero _ _
  have h6 : parseIPv6 s ≠ some .zero := by
    rw [parseIPv6]
    split
    · simp
    · exact hbody _ _
  fun_cases parseAddr s
  · exact h4
  · exact h6
  all_goals simp

theorem itoa_head {n : Nat} (h : 0 < n) : ∃ b t, itoa n = b :: t ∧ 0x31 ≤ b ∧ b ≤ 0x39 := by
  induction n using Nat.strong_induction_on with
  | _ n ih =>
    by_cases hn : n < 10
    · have hall : ∀ d < 10, 0 < d → 0x31 ≤ (Nat.digitChar d).toUInt8 ∧
          (Nat.digitChar d).toUInt8 ≤ 0x39 := by decide
      exact ⟨_, _, itoa_of_lt hn, hall n hn h⟩
    · obtain ⟨b, t, hbt, hb⟩ := ih (n / 10) (by omega) (by omega)
      exact ⟨b, t ++ _, by rw [itoa_of_ge (by omega), hbt, List.cons_append], hb⟩

def Prefix.Parsed (p : Prefix) : Prop :=
  p.ip ≠ .zero ∧ p.ip.withoutZone = p.ip ∧ 0 < p.bitsPlusOne ∧ p.bitsPlusOne ≤ p.ip.bitLen + 1

theorem parsePrefix_parsed {s : Str} {p : Prefix} (h : parsePrefix s = some p) : p.Parsed := by
  rw [parsePrefix] at h
  split at h
  · cases h
  split at h
  · cases h
  rename_i ip hip
  have hz : ip ≠ .zero := by
    rintro rfl
    exact absurd hip (parseAddr_ne_zero _)
  split_ifs at h with hzone hlead
  split at h
  · cases h
  split_ifs at h with hbits
  cases h
  rw [not_not] at hzone
  rw [not_or, not_lt, not_lt] at hbits
  simp only [Prefix.Parsed, prefixFrom, hzone, hz, hbits, ne_eq, not_false_eq_true, and_self,
    if_true, true_and]
  omega

theorem parsePrefix_string {p : Prefix} (h : p.Parsed) : parsePrefix p.string = some p := by
  obtain ⟨hz, hzone, hpos, hle⟩ := h
  have hbits : p.ip.bitLen ≤ 128 := by cases p.ip <;> simp [Addr.bitLen]
  have hslash : slash ∉ itoa (p.bitsPlusOne - 1) := fun hmem =>
    absurd (isDigit_of_mem_itoa hmem) (by decide)
  have hvalid : p.isValid = true := by simp [Prefix.isValid]; omega
  have hlead : ¬ (1 < (itoa (p.bitsPlusOne - 1)).length ∧
      ¬ (0x31 ≤ (itoa (p.bitsPlusOne - 1)).headD 0 ∧
        (itoa (p.bitsPlusOne - 1)).headD 0 ≤ 0x39)) := by
    by_cases hzero : p.bitsPlusOne - 1 = 0
    · simp [hzero, itoa_of_lt (by decide : 0 < 10)]
    · obtain ⟨b, t, hbt, hb⟩ := itoa_head (Nat.pos_of_ne_zero hzero)
      simp [hbt, hb]
  have hrange : ¬ (((p.bitsPlusOne - 1 : Nat) : Int) < 0 ∨
      (p.ip.bitLen : Int) < ((p.bitsPlusOne - 1 : Nat) : Int)) := by omega
  rw [Prefix.string, if_pos hvalid]
  simp only [parsePrefix, cutLast_append hslash, parseAddr_string hz, hzone,
    atoi_itoa (show p.bitsPlusOne - 1 < 2 ^ 31 by omega), hlead, hrange, if_false, ne_eq,
    not_true_eq_false]
  rw [not_or, not_lt, not_lt] at hrange
  rw [prefixFrom, hzone, if_pos ⟨hz, hrange⟩, Int.toNat_natCast, Nat.sub_add_cancel hpos]

end GoStd.Netip
