import WireGuardWindows.Ringlogger.Memory

/-!
# What readers of the log see

A follower that polls before the writers have gone round once sees every line, in order and
once: the slots between its cursor and the counter are exactly those written since its last
poll. The counter may wrap at any time, because the number of slots divides `2 ^ 32`.
-/

namespace WireGuardWindows.Ringlogger
open GoStd Strings Systems.Ring

theorem set_fresh (done : List UInt8) (free : Nat) (b : UInt8) :
    (done ++ List.replicate (free + 1) 0).set done.length b =
      (done ++ [b]) ++ List.replicate free 0 := by
  rw [List.set_append_right _ _ (Nat.le_refl _), Nat.sub_self, List.replicate_succ,
    List.set_cons_zero, List.append_assoc, List.singleton_append]

theorem copyAt_fresh (done src : List UInt8) {free : Nat} (h : src.length ≤ free) :
    copyAt (done ++ List.replicate free 0) done.length src =
      (done ++ src) ++ List.replicate (free - src.length) 0 := by
  have htake : src.take ((done ++ List.replicate free (0 : UInt8)).length - done.length) = src := by
    apply List.take_of_length_le
    simpa using h
  rw [copyAt, htake, List.take_left, List.drop_append, List.drop_of_length_le (by omega),
    List.nil_append, List.drop_replicate]
  congr 2
  omega

def lineText (tag text : Str) : Str :=
  (openBracket :: tag ++ closeBracket :: 0x20 :: text).take (maxLogLineLength - 1)

theorem lineText_eq {tag : Str} (htag : tag.length ≤ maxTagLength) (p : Str) :
    lineText tag p = openBracket :: (tag ++ [closeBracket, 0x20] ++ p.take (508 - tag.length)) := by
  unfold maxTagLength at htag
  have hshape : openBracket :: tag ++ closeBracket :: 0x20 :: p =
      (openBracket :: (tag ++ [closeBracket, 0x20])) ++ p := by simp
  have hlength : (openBracket :: (tag ++ [closeBracket, 0x20])).length = tag.length + 3 := by simp
  rw [lineText, hshape, List.take_append, List.take_of_length_le, hlength, List.cons_append]
  · congr 3
    unfold maxLogLineLength
    omega
  · rw [hlength]
    unfold maxLogLineLength
    omega

theorem text_copied {tag : Str} (htag : tag.length ≤ maxTagLength) (p : Str) :
    (if 3 + p.length + tag.length > maxLogLineLength - 1 then
      p.take (maxLogLineLength - 1 - 3 - tag.length) else p) = p.take (508 - tag.length) := by
  unfold maxTagLength at htag
  unfold maxLogLineLength
  split_ifs with hlong
  · rfl
  · exact (List.take_of_length_le (by omega)).symm

theorem lineBytes_eq {tag : Str} (htag : tag.length ≤ maxTagLength) (p : Str) :
    ∃ n, lineBytes tag p = lineText tag p ++ List.replicate (n + 1) 0 := by
  unfold lineBytes
  simp only [text_copied htag]
  rw [lineText_eq htag]
  unfold maxTagLength at htag
  generalize (if 3 + p.length + tag.length > maxLogLineLength - 1 then maxLogLineLength - 1
    else 3 + p.length + tag.length) = textLen
  have hlen : (p.take (508 - tag.length)).length ≤ 508 - tag.length := List.length_take_le _ _
  generalize p.take (508 - tag.length) = text at hlen
  refine ⟨511 - (3 + tag.length + text.length), ?_⟩
  have hblank : ((List.replicate maxLogLineLength (0 : UInt8)).set textLen 0).set 0 0 =
      [0] ++ List.replicate 511 0 := by
    rw [List.set_replicate_self, List.set_replicate_self]
    rfl
  -- what has been written so far, followed by the zeros that are left
  have htagCopy := copyAt_fresh [0] tag (show tag.length ≤ 511 by omega)
  have hclose := set_fresh ([0] ++ tag) (511 - tag.length - 1) closeBracket
  have hspace := set_fresh ([0] ++ tag ++ [closeBracket]) (511 - tag.length - 2) 0x20
  have htextCopy := copyAt_fresh ([0] ++ tag ++ [closeBracket] ++ [0x20]) text
    (show text.length ≤ 511 - tag.length - 2 by omega)
  rw [show 511 - tag.length - 1 + 1 = 511 - tag.length by omega] at hclose
  rw [show 511 - tag.length - 2 + 1 = 511 - tag.length - 1 by omega] at hspace
  simp only [List.length_append, List.length_singleton] at htagCopy hclose hspace htextCopy
  rw [hblank, htagCopy, hclose, show 2 + tag.length = 1 + tag.length + 1 by omega, hspace,
    show 3 + tag.length = 1 + tag.length + 1 + 1 by omega, htextCopy]
  simp only [List.append_assoc, List.cons_append, List.set_cons_zero, List.nil_append]
  congr 6
  omega

theorem text_of_bytes {line : Str} (hline : 0 ∉ line) (hne : line ≠ []) (ts : Int64) (n : Nat) :
    LogLine.text ⟨ts, line ++ List.replicate (n + 1) 0⟩ = some line := by
  rw [LogLine.text, List.replicate_succ, cut_append hline]
  simp only [if_neg hne]

structure Write where
  logger : Ringlogger
  text : Str
  stamp : Int64

structure Write.Valid (w : Write) : Prop where
  mapped : w.logger.mapped = true
  writable : w.logger.readOnly = false
  tag : 0 ∉ w.logger.tag
  noNul : 0 ∉ w.text
  nonBlank : trimSpace w.text ≠ []
  stamp : w.stamp ≠ 0

def Write.apply (log : LogMem) (w : Write) : LogMem :=
  (w.logger.writeWithTimestamp log w.text w.stamp).1

def Write.logLine (w : Write) : LogLine := ⟨w.stamp, lineBytes w.logger.tag (trimSpace w.text)⟩

def Write.followLine (w : Write) : FollowLine := ⟨lineText w.logger.tag (trimSpace w.text), w.stamp⟩

theorem Write.Valid.text_logLine {w : Write} (hw : w.Valid) :
    w.logLine.text = some w.followLine.line := by
  have htag := w.logger.tag_le hw.writable
  obtain ⟨n, hbytes⟩ := lineBytes_eq htag (trimSpace w.text)
  rw [Write.logLine, hbytes, Write.followLine]
  apply text_of_bytes
  · have htrim : 0 ∉ trimSpace w.text := fun hmem => hw.noNul (mem_trimSpace hmem)
    have hopen : (0 : UInt8) ≠ openBracket := by decide
    have hclose : (0 : UInt8) ≠ closeBracket := by decide
    intro hmem
    have hmem := List.mem_of_mem_take hmem
    simp only [List.cons_append, List.mem_cons, List.mem_append, hopen, hclose, hw.tag, htrim,
      false_or, or_false] at hmem
    exact absurd hmem (by decide)
  · rw [lineText_eq htag]
    exact List.cons_ne_nil _ _

theorem slot_add (i j : UInt32) : slot (i + j) = (i.toNat + j.toNat) % maxLines := by
  rw [slot, UInt32.toNat_add, Nat.mod_mod_of_dvd _ (by decide)]

theorem slot_succ {i : UInt32} {n : Nat} (h : slot i = n % maxLines) :
    slot (i + 1) = (n + 1) % maxLines := by
  rw [slot_add, Nat.add_mod, ← slot, h, ← Nat.add_mod]
  rfl

structure Logged (start : UInt32) (ws : List Write) (log : LogMem) : Prop where
  index : slot log.nextIndex = (start.toNat + ws.length) % maxLines
  slots : Holds maxLines start.toNat .blank (ws.map Write.logLine) log.lines

theorem logged_empty (start : UInt32) : Logged start [] (.empty start) where
  index := rfl
  slots := holds_nil _ _ _

theorem Logged.write {start : UInt32} {ws : List Write} {log : LogMem} (h : Logged start ws log)
    {w : Write} (hw : w.Valid) : Logged start (ws ++ [w]) (w.apply log) := by
  have happly : w.apply log = { nextIndex := log.nextIndex + 1
                                lines := Function.update log.lines (slot log.nextIndex)
                                  w.logLine } := by
    rw [Write.apply, writeWithTimestamp]
    simp only [hw.writable, hw.nonBlank, hw.mapped, Bool.false_eq_true, if_false, Bool.not_true]
    rfl
  rw [happly]
  constructor
  · rw [List.length_append, List.length_singleton, ← Nat.add_assoc]
    exact slot_succ h.index
  · have hslots := h.slots.write w.logLine
    rw [List.length_map, ← h.index] at hslots
    rw [List.map_append]
    exact hslots

theorem Logged.writes {start : UInt32} {ws : List Write} {log : LogMem} (h : Logged start ws log)
    {batch : List Write} (hbatch : ∀ w ∈ batch, w.Valid) :
    Logged start (ws ++ batch) (batch.foldl (fun log w => w.apply log) log) := by
  induction batch generalizing ws log with
  | nil => simpa using h
  | cons w batch ih =>
    have hnext := ih (h.write (hbatch w List.mem_cons_self)) fun v hv =>
      hbatch v (List.mem_cons_of_mem w hv)
    rw [List.append_assoc, List.singleton_append] at hnext
    exact hnext

theorem Write.Valid.followLine_logLine {w : Write} (hw : w.Valid) :
    w.logLine.followLine = some w.followLine := by
  rw [LogLine.followLine, hw.text_logLine]
  rfl

theorem followLoop_lines {log : LogMem} {all : Bool} {i : UInt32} {n : Nat}
    (hi : slot i = n % maxLines) {unread : List Write} (hunread : ∀ w ∈ unread, w.Valid)
    (hslots : Reads maxLines log.lines n (unread.map Write.logLine))
    (hgo : all = true ∨ ∀ k < unread.length, (n + k) % maxLines ≠ slot log.nextIndex) (fuel : Nat)
    (c : UInt32) (acc : List FollowLine) :
    ∃ j, slot j = (n + unread.length) % maxLines ∧
      followLoop log all (unread.length + fuel) i c acc =
        followLoop log all fuel j (if unread = [] then c else UInt32.ofNat (slot j))
          (acc ++ unread.map Write.followLine) := by
  induction unread generalizing i n c acc with
  | nil =>
    refine ⟨i, hi, ?_⟩
    rw [List.length_nil, Nat.zero_add, if_pos rfl, List.map_nil, List.append_nil]
  | cons w unread ih =>
    have hw := hunread w List.mem_cons_self
    obtain ⟨hline, hslots⟩ := hslots
    rw [← hi] at hline
    have hgo' : all = true ∨ ∀ k < unread.length, (n + 1 + k) % maxLines ≠ slot log.nextIndex := by
      refine hgo.imp_right fun hgo k hk => ?_
      rw [Nat.add_assoc, Nat.add_comm 1 k]
      exact hgo (k + 1) (Nat.succ_lt_succ hk)
    obtain ⟨j, hj, hrest⟩ :=
      ih (slot_succ hi) (fun v hv => hunread v (List.mem_cons_of_mem w hv)) hslots
      hgo' (UInt32.ofNat (slot (i + 1))) (acc ++ [w.followLine])
    refine ⟨j, ?_, ?_⟩
    · rw [hj, List.length_cons, Nat.add_assoc, Nat.add_comm 1]
    · have hpass : ¬ (!all ∧ slot i = slot log.nextIndex) := by
        rintro ⟨hall, hend⟩
        rcases hgo with h | h
        · simp [h] at hall
        · exact h 0 (Nat.zero_lt_succ _) (hi ▸ hend)
      have hstamp : w.logLine.timeNs ≠ 0 := hw.stamp
      rw [List.length_cons, show unread.length + 1 + fuel = unread.length + fuel + 1 by omega,
        followLoop, hline, if_neg hpass, if_neg hstamp, hw.followLine_logLine, Option.toList_some,
        hrest, List.append_assoc, List.singleton_append, List.map_cons,
        if_neg (List.cons_ne_nil w unread)]
      split_ifs with hnil
      · rw [hnil, List.length_nil, Nat.add_zero] at hj
        rw [hj, slot_succ hi]
      · rfl

theorem followLoop_blank {log : LogMem} {i : UInt32} {n blanks : Nat} (hi : slot i = n % maxLines)
    (hslots : Reads maxLines log.lines n (List.replicate blanks .blank)) (fuel : Nat) (c : UInt32)
    (acc : List FollowLine) :
    ∃ j, slot j = (n + blanks) % maxLines ∧
      followLoop log true (blanks + fuel) i c acc = followLoop log true fuel j c acc := by
  induction blanks generalizing i n with
  | zero => exact ⟨i, hi, by rw [Nat.zero_add]⟩
  | succ blanks ih =>
    obtain ⟨hline, hslots⟩ := hslots
    rw [← hi] at hline
    obtain ⟨j, hj, hloop⟩ := ih (slot_succ hi) hslots
    refine ⟨j, ?_, ?_⟩
    · rw [hj, Nat.add_assoc, Nat.add_comm 1]
    · have hzero : LogLine.blank.timeNs = 0 := rfl
      rw [show blanks + 1 + fuel = blanks + fuel + 1 by omega, followLoop, hline]
      simp only [Bool.not_true, Bool.false_eq_true, false_and, if_false, hzero, if_true]
      exact hloop

inductive Follows (start : UInt32) : List Write → UInt32 → Prop
  | fresh : Follows start [] cursorAll
  | upTo (seen : List Write) :
      Follows start seen (UInt32.ofNat ((start.toNat + seen.length) % maxLines))

theorem ofNat_slot_toNat (n : Nat) : (UInt32.ofNat (n % maxLines)).toNat = n % maxLines := by
  have hlt : n % maxLines < maxLines := Nat.mod_lt _ (by decide)
  unfold maxLines at hlt ⊢
  rw [UInt32.toNat_ofNat']
  omega

theorem slot_cursor (n : Nat) : slot (UInt32.ofNat (n % maxLines)) = n % maxLines := by
  rw [slot, ofNat_slot_toNat, Nat.mod_mod]

theorem cursor_ne_all (n : Nat) : UInt32.ofNat (n % maxLines) ≠ cursorAll := by
  intro heq
  have hlt : n % maxLines < maxLines := Nat.mod_lt _ (by decide)
  have hval := congrArg UInt32.toNat heq
  rw [ofNat_slot_toNat] at hval
  have hall : cursorAll.toNat = 4294967295 := rfl
  unfold maxLines at hlt hval
  omega

theorem poll_all {start : UInt32} {ws : List Write} {log : LogMem} (h : Logged start ws log)
    (hvalid : ∀ w ∈ ws, w.Valid) (hlen : ws.length ≤ maxLines) :
    ∃ c, followFromCursor log cursorAll = (ws.map Write.followLine, c) ∧ Follows start ws c := by
  have hhistory : (ws.map Write.logLine).length = ws.length := List.length_map _
  have hblank := h.slots.reads_blank
  have hlines := (h.slots.reads_from (k := 0) (by omega)).add_size
  rw [hhistory] at hblank
  rw [List.drop_zero, Nat.add_zero] at hlines
  obtain ⟨i, hi, hskip⟩ := followLoop_blank h.index hblank ws.length cursorAll []
  have hround : start.toNat + ws.length + (maxLines - ws.length) = start.toNat + maxLines := by
    omega
  rw [hround] at hi
  obtain ⟨j, hj, hloop⟩ := followLoop_lines hi hvalid hlines (Or.inl rfl) 0 cursorAll []
  have hfuel : maxLines = maxLines - ws.length + ws.length := by omega
  rw [followFromCursor, if_pos rfl, hfuel, hskip]
  rw [Nat.add_zero] at hloop
  rw [hloop, List.nil_append, followLoop]
  refine ⟨_, rfl, ?_⟩
  split_ifs with hnil
  · rw [hnil]
    exact .fresh
  · rw [hj, Nat.add_right_comm, Nat.add_mod_right]
    exact .upTo ws

theorem poll_cursor {start : UInt32} {seen batch : List Write} {log : LogMem}
    (h : Logged start (seen ++ batch) log) (hvalid : ∀ w ∈ batch, w.Valid)
    (hlen : batch.length < maxLines) :
    ∃ c, followFromCursor log (UInt32.ofNat ((start.toNat + seen.length) % maxLines)) =
      (batch.map Write.followLine, c) ∧ Follows start (seen ++ batch) c := by
  have hlines := h.slots.reads_from (k := seen.length) (by simp; omega)
  rw [List.map_append, List.drop_left' (List.length_map _)] at hlines
  have hend := h.index
  rw [List.length_append, ← Nat.add_assoc] at hend
  have hgo : ∀ k < batch.length, (start.toNat + seen.length + k) % maxLines ≠
      slot log.nextIndex := by
    intro k hk
    rw [hend]
    exact slot_ne hk (by omega)
  have hi := slot_cursor (start.toNat + seen.length)
  obtain ⟨j, hj, hloop⟩ := followLoop_lines hi hvalid hlines (Or.inr hgo)
    (maxLines - batch.length) (UInt32.ofNat ((start.toNat + seen.length) % maxLines)) []
  have hfuel : batch.length + (maxLines - batch.length) = maxLines := by omega
  obtain ⟨fuel, hsucc⟩ : ∃ m, maxLines - batch.length = m + 1 :=
    ⟨maxLines - batch.length - 1, by omega⟩
  have hstop : !false ∧ slot j = slot log.nextIndex := ⟨rfl, hj.trans hend.symm⟩
  rw [hfuel, List.nil_append, hsucc, followLoop, if_pos hstop] at hloop
  rw [followFromCursor, if_neg (cursor_ne_all _), hloop]
  refine ⟨_, rfl, ?_⟩
  split_ifs with hnil
  · rw [hnil, List.append_nil]
    exact .upTo seen
  · rw [hj, Nat.add_assoc, ← List.length_append]
    exact .upTo (seen ++ batch)

def follow : LogMem → UInt32 → List (List Write) → List FollowLine
  | _, _, [] => []
  | log, cursor, batch :: rest =>
    let log := batch.foldl (fun log w => w.apply log) log
    let (followLines, cursor) := followFromCursor log cursor
    followLines ++ follow log cursor rest

theorem follow_lines {start : UInt32} {seen : List Write} {log : LogMem} {c : UInt32}
    (h : Logged start seen log) (hc : Follows start seen c) {batches : List (List Write)}
    (hvalid : ∀ b ∈ batches, ∀ w ∈ b, w.Valid) (hlen : ∀ b ∈ batches, b.length < maxLines) :
    follow log c batches = batches.flatten.map Write.followLine := by
  induction batches generalizing seen log c with
  | nil => rfl
  | cons batch rest ih =>
    have hb := hvalid batch List.mem_cons_self
    have hl := hlen batch List.mem_cons_self
    have hlogged := h.writes hb
    obtain ⟨c', hpoll, hc'⟩ : ∃ c',
      followFromCursor (batch.foldl (fun log w => w.apply log) log) c =
        (batch.map Write.followLine, c') ∧ Follows start (seen ++ batch) c' := by
      cases hc with
      | fresh => exact poll_all hlogged hb (Nat.le_of_lt hl)
      | upTo => exact poll_cursor hlogged hb hl
    have hrest := ih hlogged hc' (fun b hmem => hvalid b (List.mem_cons_of_mem batch hmem))
      fun b hmem => hlen b (List.mem_cons_of_mem batch hmem)
    simp only [follow, hpoll, hrest, List.flatten_cons, List.map_append]

theorem slot_round {start : UInt32} {ws : List Write} {log : LogMem} (h : Logged start ws log)
    {l : Nat} (hl : l < maxLines) :
    slot (log.nextIndex + UInt32.ofNat l) = (start.toNat + ws.length + l) % maxLines := by
  have hval : (UInt32.ofNat l).toNat = l := by
    rw [UInt32.toNat_ofNat']
    unfold maxLines at hl
    omega
  rw [slot_add, hval, Nat.add_mod, ← slot, h.index, ← Nat.add_mod]

def FollowLine.print (format : Int64 → Str) (l : FollowLine) : Str :=
  format l.stamp ++ str ": " ++ l.line ++ [newline]

theorem Write.Valid.print_logLine {w : Write} (hw : w.Valid) (format : Int64 → Str) :
    w.logLine.print format = w.followLine.print format := by
  have hstamp : w.logLine.timeNs ≠ 0 := hw.stamp
  rw [LogLine.print, if_neg hstamp, hw.text_logLine]
  rfl

theorem writeTo_lines {start : UInt32} {ws : List Write} {log : LogMem} (h : Logged start ws log)
    (hvalid : ∀ w ∈ ws, w.Valid) (format : Int64 → Str) :
    writeTo format log =
      (ws.drop (ws.length - maxLines)).flatMap fun w => w.followLine.print format := by
  have hround := h.slots.reads_round.map_range
  have hsize : (List.replicate (maxLines - (ws.map Write.logLine).length) LogLine.blank ++
      (ws.map Write.logLine).drop ((ws.map Write.logLine).length - maxLines)).length =
        maxLines := by
    simp only [List.length_append, List.length_replicate, List.length_drop, List.length_map]
    omega
  rw [hsize, List.length_map, ← List.map_drop] at hround
  have hslots : (List.range maxLines).map
      (fun l => log.lines (slot (log.nextIndex + UInt32.ofNat l))) =
      List.replicate (maxLines - ws.length) LogLine.blank ++
        (ws.drop (ws.length - maxLines)).map Write.logLine := by
    rw [← hround]
    apply List.map_congr_left
    intro l hl
    rw [slot_round h (List.mem_range.mp hl)]
  have hblank : (List.replicate (maxLines - ws.length) LogLine.blank).flatMap
      (LogLine.print format) = [] := by
    rw [List.flatMap_eq_nil_iff]
    intro l hl
    rw [List.eq_of_mem_replicate hl]
    rfl
  rw [writeTo, ← List.flatMap_map, hslots, List.flatMap_append, hblank, List.nil_append,
    List.flatMap_map]
  apply List.flatMap_congr
  intro w hw
  exact (hvalid w (List.mem_of_mem_drop hw)).print_logLine format

/-- A follower that polls in time sees every line once and in order, whatever the counter
starts from, and the whole log is printed from its oldest line on. -/
theorem log_complete (start : UInt32) (format : Int64 → Str) :
    (∀ (first : List Write) (rest : List (List Write)),
      (∀ batch ∈ first :: rest, ∀ w ∈ batch, w.Valid) → first.length ≤ 2048 →
      (∀ batch ∈ rest, batch.length ≤ 2047) →
      follow (.empty start) cursorAll (first :: rest) =
        (first :: rest).flatten.map Write.followLine) ∧
    ∀ ws : List Write, (∀ w ∈ ws, w.Valid) →
      writeTo format (ws.foldl (fun log w => w.apply log) (.empty start)) =
        (ws.drop (ws.length - 2048)).flatMap fun w => w.followLine.print format := by
  constructor
  · intro first rest hvalid hfirst hrest
    have hb := hvalid first List.mem_cons_self
    have hlogged := (logged_empty start).writes hb
    obtain ⟨c, hpoll, hc⟩ := poll_all hlogged hb hfirst
    have hfollow :=
      follow_lines hlogged hc (fun b hmem => hvalid b (List.mem_cons_of_mem first hmem))
      fun b hmem => Nat.lt_succ_of_le (hrest b hmem)
    simp only [follow, List.nil_append] at hpoll ⊢
    rw [hpoll, hfollow, List.flatten_cons, List.map_append]
  · intro ws hvalid
    exact writeTo_lines ((logged_empty start).writes hvalid) hvalid format

def tunnelLog : Ringlogger := ⟨str "TUN", true, false, fun _ => by decide⟩

theorem log_complete_wrapping :
    follow (.empty 0xFFFFFFFF) cursorAll
      [[⟨tunnelLog, str "up\n", 1⟩], [⟨tunnelLog, str "down", 2⟩]] =
      [⟨str "[TUN] up", 1⟩, ⟨str "[TUN] down", 2⟩] := by
  have hup : Write.Valid ⟨tunnelLog, str "up\n", 1⟩ :=
    ⟨rfl, rfl, by decide, by decide, by decide, by decide⟩
  have hdown : Write.Valid ⟨tunnelLog, str "down", 2⟩ :=
    ⟨rfl, rfl, by decide, by decide, by decide, by decide⟩
  have hvalid : ∀ batch ∈ [[⟨tunnelLog, str "up\n", 1⟩], [⟨tunnelLog, str "down", 2⟩]],
      ∀ w ∈ batch, Write.Valid w := by
    simpa using ⟨hup, hdown⟩
  rw [(log_complete 0xFFFFFFFF fun _ => []).1 _ _ hvalid (by decide) (by simp)]
  decide

/-- `NewRinglogger` accepts a tag with a NUL, at which every line of that logger ends. -/
theorem log_tag_with_nul : ∃ logger, newRinglogger [0x41, 0] = some logger ∧
    follow (.empty 0) cursorAll [[⟨logger, str "up", 1⟩]] ≠
      [Write.followLine ⟨logger, str "up", 1⟩] := by
  refine ⟨⟨[0x41, 0], true, false, fun _ => by decide⟩, rfl, ?_⟩
  decide +kernel

end WireGuardWindows.Ringlogger
