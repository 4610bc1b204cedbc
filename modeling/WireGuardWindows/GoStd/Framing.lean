import WireGuardWindows.GoStd.Memory

/-!
# Streams that can be taken apart again

An encoding is self-delimiting if two streams that begin with encoded values and are equal
begin with the same value and go on with the same rest. Values of a fixed length are, and
so are values behind their length and lists behind the number of their elements.
-/

namespace GoStd.Framing
open Memory
variable {α : Type*}

/-- On the values with `P`, the start of a stream determines the value it encodes. -/
def SelfDelimiting (P : α → Prop) (enc : α → List UInt8) : Prop :=
  ∀ a b s t, P a → P b → enc a ++ s = enc b ++ t → a = b ∧ s = t

theorem selfDelimiting_of_length {P : α → Prop} {enc : α → List UInt8} (n : Nat)
    (hlength : ∀ a, P a → (enc a).length = n) (hinj : ∀ a b, P a → P b → enc a = enc b → a = b) :
    SelfDelimiting P enc := by
  intro a b s t ha hb h
  obtain ⟨henc, hrest⟩ := List.append_inj h ((hlength a ha).trans (hlength b hb).symm)
  exact ⟨hinj a b ha hb henc, hrest⟩

theorem selfDelimiting_number : SelfDelimiting (· < 2 ^ 32) (leBytes 4) := by
  refine selfDelimiting_of_length 4 (fun n _ => leBytes_length 4 n) ?_
  intro m n hm hn h
  rw [← leNat_leBytes (w := 4) hm, h, leNat_leBytes hn]

def framed (bs : List UInt8) : List UInt8 := leBytes 4 bs.length ++ bs

theorem selfDelimiting_framed : SelfDelimiting (fun bs => bs.length < 2 ^ 32) framed := by
  intro a b s t ha hb h
  simp only [framed, List.append_assoc] at h
  obtain ⟨hlength, hrest⟩ := selfDelimiting_number _ _ _ _ ha hb h
  exact List.append_inj hrest hlength

def counted (enc : α → List UInt8) (as : List α) : List UInt8 :=
  leBytes 4 as.length ++ as.flatMap enc

theorem flatMap_inj {P : α → Prop} {enc : α → List UInt8} (henc : SelfDelimiting P enc)
    {as bs : List α} (ha : ∀ a ∈ as, P a) (hb : ∀ b ∈ bs, P b) (hlength : as.length = bs.length)
    {s t : List UInt8} (h : as.flatMap enc ++ s = bs.flatMap enc ++ t) : as = bs ∧ s = t := by
  induction as generalizing bs with
  | nil =>
    obtain rfl : bs = [] := List.eq_nil_of_length_eq_zero hlength.symm
    exact ⟨rfl, h⟩
  | cons a as ih =>
    cases bs with
    | nil => cases hlength
    | cons b bs =>
      rw [List.flatMap_cons, List.flatMap_cons, List.append_assoc, List.append_assoc] at h
      obtain ⟨hab, hrest⟩ := henc a b _ _ (ha a List.mem_cons_self) (hb b List.mem_cons_self) h
      obtain ⟨htail, hst⟩ := ih (fun a' h' => ha a' (List.mem_cons_of_mem a h'))
        (fun b' h' => hb b' (List.mem_cons_of_mem b h')) (Nat.succ.inj hlength) hrest
      exact ⟨by rw [hab, htail], hst⟩

theorem selfDelimiting_counted {P : α → Prop} {enc : α → List UInt8} (henc : SelfDelimiting P enc) :
    SelfDelimiting (fun as : List α => as.length < 2 ^ 32 ∧ ∀ a ∈ as, P a) (counted enc) := by
  intro as bs s t ha hb h
  simp only [counted, List.append_assoc] at h
  obtain ⟨hlength, hrest⟩ := selfDelimiting_number _ _ _ _ ha.1 hb.1 h
  exact flatMap_inj henc ha.2 hb.2 hlength hrest

theorem SelfDelimiting.pair {β : Type*} {P : α → Prop} {Q : β → Prop} {enc : α → List UInt8}
    {enc' : β → List UInt8} (h : SelfDelimiting P enc) (h' : SelfDelimiting Q enc') :
    SelfDelimiting (fun p : α × β => P p.1 ∧ Q p.2) fun p => enc p.1 ++ enc' p.2 := by
  intro p q s t hp hq heq
  simp only [List.append_assoc] at heq
  obtain ⟨hfst, hrest⟩ := h _ _ _ _ hp.1 hq.1 heq
  obtain ⟨hsnd, hst⟩ := h' _ _ _ _ hp.2 hq.2 hrest
  exact ⟨Prod.ext hfst hsnd, hst⟩

end GoStd.Framing
