/-
  Lexkit.Proofs.SpanLoops — the reads of a span, one character at a time.

  Each read is defined by the piece of the text it delivers. Here each is a loop that reads on and on, and what it comes
  to is decided by where the loop stops: a comment by the first closer behind its opener, a read through a delimiter by
  the delimiter, an identifier by the first character its rules do not take; each also by the end of the text. On the
  way a read through a delimiter holds what it has read so far, and an identifier collects it.

  A loop that finds no closer has moved the cursor to the end of the text, and has held what it read; the read sets the
  cursor back and lets go again before it fails. Blanks in front of an identifier are skipped only where the cursor
  stands before the text or on one. For a scanner on its text the loops end and the outcomes are those of the reads, the
  scanners left behind included (`comment_loop`, `through_loop`, `identifier_loop`).
-/

import Lexkit.Proofs.Loops
import Lexkit.Proofs.Recovery

namespace Lexkit

open Lexkit.Alphabet

namespace Scanner

/-! ## The end of a comment -/

/-- One turn of the search for the end of a comment: on by one character, unless none is left or it starts a
    closer. -/
def commentTurn : Turn Scanner := fun s =>
  match s.read.1 with
  | none => none
  | some c => if c = '*' ∧ s.read.2.next? = some '/' then none else some s.read.2

/-- The comment under the cursor of `s` once the search has stopped at `e`: through the closer, or to the end of
    the text. That is a failure where comments are taken strictly, and the cursor, at the end of the text by then, is
    set back to where it was. -/
def commentFrom (s e : Scanner) : Outcome Text :=
  let upTo (t : Scanner) : Outcome Text :=
    t.deliver .comment s.position (t.text.extract s.position.toNat t.position.toNat) t.cursor
  match e.read.1 with
  | some _ => upTo e.read.2.read.2.read.2
  | none =>
    let t := e.read.2
    if t.strict then (t.moveTo s.position).refuse (.openComment s.position (t.locate s.position)) else upTo t

section
variable {s : Scanner}

theorem read_char_at {i : Nat} (h : i < s.length) : (s.moveTo i).read.1 = s.text[i + 1]? :=
  congrArg current? (read_at h)

theorem commentTurn_stops {i : Nat} (h : i < s.length)
    (hstop : s.text[i + 1]? = none ∨ s.text[i + 1]? = some '*' ∧ s.text[i + 2]? = some '/') :
    commentTurn (s.moveTo i) = none := by
  unfold commentTurn
  rw [read_char_at h, read_at h]
  rcases hstop with hnone | ⟨hstar, hslash⟩
  · rw [hnone]
  · rw [hstar]
    exact if_pos ⟨rfl, hslash⟩

theorem commentTurn_goes {i : Nat} (h : i + 1 < s.length)
    (hgo : ¬ (s.text[i + 1]? = some '*' ∧ s.text[i + 2]? = some '/')) :
    commentTurn (s.moveTo i) = some (s.moveTo (i + 1 : Nat)) := by
  have hlt : i < s.length := by omega
  have hc : s.text[i + 1]? = some s.text[i + 1] := List.getElem?_eq_getElem h
  unfold commentTurn
  rw [read_char_at hlt, read_at hlt, hc]
  rw [hc, Option.some.injEq] at hgo
  exact if_neg hgo

theorem commentTurn_ends {i n : Nat} (hlen : i + n < s.length)
    (hgo : ∀ k < n, ¬ (s.text[i + k + 1]? = some '*' ∧ s.text[i + k + 2]? = some '/'))
    (hstop : s.text[i + n + 1]? = none ∨ s.text[i + n + 1]? = some '*' ∧ s.text[i + n + 2]? = some '/') :
    commentTurn.Ends n (s.moveTo i) (s.moveTo (i + n : Nat)) := by
  apply Turn.ends_of_path (x := fun k => s.moveTo (i + k : Nat))
  · intro k hk
    exact commentTurn_goes (by omega) (hgo k hk)
  · exact commentTurn_stops hlen hstop

theorem commentFrom_closed {i : Nat} (h : i + 2 < s.length) :
    s.commentFrom (s.moveTo i) = s.deliver .comment s.position (s.text.extract s.position.toNat (i + 3))
      (s.moveTo (i + 3 : Nat)).cursor := by
  have h1 : i + 1 < s.length := by omega
  have hread : (s.moveTo i).read.1 = some s.text[i + 1] :=
    (read_char_at (by omega)).trans (List.getElem?_eq_getElem h1)
  unfold commentFrom
  rw [hread, read_at (by omega), read_at h1, read_at h]
  rfl

theorem commentFrom_open {i : Nat} (h : i + 1 = s.length) :
    s.commentFrom (s.moveTo i) =
      if s.strict then s.refuse (.openComment s.position s.location)
      else s.deliver .comment s.position (s.text.extract s.position.toNat s.length) (s.moveTo s.length).cursor := by
  have hread : (s.moveTo i).read.1 = none :=
    (read_char_at (by omega)).trans (List.getElem?_eq_none (Nat.le_of_eq h.symm))
  unfold commentFrom
  rw [hread, read_at (by omega), h]
  rfl

theorem read_of_opener (h : s.looksAt Comment.opener = true) :
    s.position.toNat + 2 ≤ s.length ∧ s.read.2 = s.moveTo (s.position.toNat + 1 : Nat) := by
  have h0 := nonneg_of_opener h
  have hopener : Comment.opener.isPrefixOf s.rest = true := looksAt_eq_isPrefixOf h0 _ ▸ h
  have hlen : 2 ≤ s.rest.length := (List.isPrefixOf_iff_prefix.mp hopener).length_le
  have hnext : s.position + 1 = (s.position.toNat + 1 : Nat) := by omega
  rw [length_rest] at hlen
  exact ⟨by omega, by rw [read_eq_moveTo (by omega), hnext]⟩

/-- Behind an opener with a closer the search stops in front of the closer. -/
theorem comment_loop_closed (h : s.looksAt Comment.opener = true) {k : Nat}
    (hk : Text.indexOf? Comment.closer (s.rest.drop 2) = some k) :
    ∃ n e, commentTurn.Ends n s.read.2 e ∧ s.comment = s.commentFrom e := by
  have h0 := nonneg_of_opener h
  obtain ⟨⟨-, hstar, hslash⟩, hleast⟩ := Comment.isLeast_closer (drop_rest s 2 ▸ hk)
  have hj : s.position.toNat + 2 + k = s.position.toNat + 1 + k + 1 := by omega
  rw [hj] at hstar hslash hleast
  have hin : s.position.toNat + 1 + k + 2 < s.length := (List.getElem?_eq_some_iff.mp hslash).1
  rw [(read_of_opener h).2]
  refine ⟨k, _, commentTurn_ends (by omega) ?_ (Or.inr ⟨hstar, hslash⟩), ?_⟩
  · intro m hm hc
    have hle := hleast ⟨by omega, hc⟩
    omega
  · have hend : s.position + ((2 + (k + 2) : Nat) : Int) = (s.position.toNat + 1 + k + 3 : Nat) := by omega
    have hspan : s.text.extract s.position.toNat (s.position.toNat + 1 + k + 3) = s.rest.take (2 + (k + 2)) := by
      rw [List.extract_eq_take_drop, rest]
      congr 1
      omega
    rw [comment_closed h hk, commentFrom_closed hin, hspan, hend]
    rfl

/-- Behind one without, it stops on the last character. -/
theorem comment_loop_open (h : s.looksAt Comment.opener = true)
    (hk : Text.indexOf? Comment.closer (s.rest.drop 2) = none) :
    ∃ n e, commentTurn.Ends n s.read.2 e ∧ s.comment = s.commentFrom e := by
  obtain ⟨hlen, hread⟩ := read_of_opener h
  have hno := Set.eq_empty_iff_forall_notMem.mp (Comment.no_closer (drop_rest s 2 ▸ hk))
  have hend : s.position.toNat + 1 + (s.length - (s.position.toNat + 2)) + 1 = s.length := by omega
  rw [hread]
  refine ⟨s.length - (s.position.toNat + 2), _, commentTurn_ends (by omega) ?_ (Or.inl ?_), ?_⟩
  · intro m _ hc
    exact hno (s.position.toNat + 1 + m + 1) ⟨by omega, hc⟩
  · exact List.getElem?_eq_none (Nat.le_of_eq hend.symm)
  · have hspan : s.text.extract s.position.toNat s.length = s.rest := by
      rw [List.extract_eq_take_drop, rest]
      exact List.take_of_length_le (Nat.le_of_eq List.length_drop)
    rw [comment_open h hk, commentFrom_open hend, hspan]
    rfl

/-- The search behind an opener ends, and where it ends decides the comment. -/
theorem comment_loop (h : s.looksAt Comment.opener = true) :
    ∃ n e, commentTurn.Ends n s.read.2 e ∧ s.comment = s.commentFrom e := by
  cases hk : Text.indexOf? Comment.closer (s.rest.drop 2) with
  | some k => exact comment_loop_closed h hk
  | none => exact comment_loop_open h hk

end

/-! ## Reading through a delimiter -/

/-- More is held. -/
def holding (t : Text) (s : Scanner) : Scanner := { s with cursor := s.cursor.hold t }

/-- One turn of a read through `d`: on by one character, which is held, unless none is left or it is `d`. -/
def throughTurn (d : Char) : Turn Scanner := fun s =>
  match s.read.1 with
  | none => none
  | some c => if c = d then none else some (s.read.2.holding [c])

/-- The read through `d` behind the cursor of `s` once its loop has stopped at `e`: with the delimiter, all that is held
    is delivered; without one, the cursor is set back to where it was and nothing is held. -/
def throughFrom (s : Scanner) (d : Char) (e : Scanner) : Outcome Text :=
  match e.read.1 with
  | some c =>
    let t := e.read.2.holding [c]
    t.deliver .delimited (s.position + 1) t.held t.cursor
  | none =>
    let t := (e.read.2.moveTo s.position).letGo
    t.refuse (.openSpan s.position (t.locate s.position) d)

section
variable {s : Scanner} {d : Char}

/-- The scanner when `k` characters behind the cursor have been read and are held. -/
def readSoFar (s : Scanner) (k : Nat) : Scanner := { s with cursor := ⟨s.position + k, s.ahead.take k⟩ }

theorem readSoFar_zero (s : Scanner) : s.readSoFar 0 = s.letGo := by
  simp [readSoFar, letGo, position]

theorem length_ahead (s : Scanner) : s.ahead.length = s.length - (s.position + 1).toNat := List.length_drop

/-- A read gives the next character ahead. -/
theorem read_readSoFar (h : s.OnText) {k : Nat} {c : Char} (hc : s.ahead[k]? = some c) :
    (s.readSoFar k).read.1 = some c ∧ (s.readSoFar k).read.2.holding [c] = s.readSoFar (k + 1) := by
  have hlo := h.1
  have hk : k < s.ahead.length := (List.getElem?_eq_some_iff.mp hc).1
  rw [length_ahead] at hk
  have hlt : s.position + k < s.length := by omega
  have hread : (s.readSoFar k).read.2 = (s.readSoFar k).moveTo (s.position + k + 1) := read_eq_moveTo hlt
  have htake : s.ahead.take (k + 1) = s.ahead.take k ++ [c] := by rw [List.take_add_one, hc]; rfl
  constructor
  · show (s.readSoFar k).read.2.current? = some c
    have hplace : (s.position + k + 1).toNat = (s.position + 1).toNat + k := by omega
    have h0 : 0 ≤ s.position + k + 1 := by omega
    rw [hread, ← hc, ahead, List.getElem?_drop, ← hplace]
    exact if_pos h0
  · have hnext : s.position + (k + 1 : Nat) = s.position + k + 1 := by omega
    rw [hread]
    simp only [readSoFar, htake, hnext]
    rfl

/-- Behind the last one there is none to read, and all is as it was when the cursor is set back and nothing held. -/
theorem read_readSoFar_end (h : s.OnText) :
    (s.readSoFar s.ahead.length).read.1 = none ∧
      ((s.readSoFar s.ahead.length).read.2.moveTo s.position).letGo = s.letGo := by
  obtain ⟨hlo, hhi⟩ := h
  have hread : (s.readSoFar s.ahead.length).read.2 = (s.readSoFar s.ahead.length).moveTo s.length := by
    have hpos : (s.readSoFar s.ahead.length).position = s.position + s.ahead.length := rfl
    have hlen := length_ahead s
    by_cases hlt : s.position < s.length
    · have hnext : s.position + s.ahead.length + 1 = s.length := by omega
      have hroom : (s.readSoFar s.ahead.length).position < s.length := by omega
      rw [read_eq_moveTo hroom, hpos, hnext]
    · have hfull : ¬ (s.readSoFar s.ahead.length).position < s.length := by omega
      rw [read_eq_self hfull]
      exact (moveTo_self (by omega)).symm
  rw [hread]
  refine ⟨?_, rfl⟩
  show (s.readSoFar s.ahead.length).read.2.current? = none
  rw [hread]
  exact List.getElem?_eq_none (Nat.le_refl _)

theorem throughTurn_goes (h : s.OnText) {k : Nat} {c : Char} (hc : s.ahead[k]? = some c) (hd : c ≠ d) :
    throughTurn d (s.readSoFar k) = some (s.readSoFar (k + 1)) := by
  obtain ⟨hread, hheld⟩ := read_readSoFar h hc
  unfold throughTurn
  rw [hread, ← hheld]
  exact if_neg hd

/-- With a delimiter ahead the loop stops in front of the first. -/
theorem through_loop_closed (h : s.OnText) {v rest : Text} (hv : s.ahead = v ++ d :: rest) (hd : d ∉ v) :
    ∃ n e, (throughTurn d).Ends n s.letGo e ∧ s.readThrough d = s.throughFrom d e := by
  have hstop : s.ahead[v.length]? = some d := by simp [hv]
  obtain ⟨hread, hheld⟩ := read_readSoFar h hstop
  refine ⟨v.length, s.readSoFar v.length, ?_, ?_⟩
  · rw [← readSoFar_zero]
    apply Turn.ends_of_path (x := s.readSoFar)
    · intro k hk
      have hc : s.ahead[k]? = some v[k] := by rw [hv, List.getElem?_append_left hk, List.getElem?_eq_getElem hk]
      exact throughTurn_goes h hc fun he => hd (he ▸ List.getElem_mem hk)
    · unfold throughTurn
      rw [hread]
      exact if_pos rfl
  · have hsplit : s.ahead = (v ++ [d]) ++ rest := by simp [hv]
    have hspan : s.ahead.take (v.length + 1) = v ++ [d] := by rw [hsplit, List.take_left' (by simp)]
    have hthrough : Text.through? d (s.text.drop (s.position + 1).toNat) = some (v ++ [d]) := by
      rw [← ahead, hv, Text.through?_append hd]
    unfold readThrough throughFrom
    rw [hthrough, hread]
    simp only [hheld]
    simp only [readSoFar, hspan, List.length_append, List.length_singleton]
    rfl

/-- With none, it stops at the end of the text. -/
theorem through_loop_open (h : s.OnText) (hd : d ∉ s.ahead) :
    ∃ n e, (throughTurn d).Ends n s.letGo e ∧ s.readThrough d = s.throughFrom d e := by
  obtain ⟨hread, hback⟩ := read_readSoFar_end h
  refine ⟨s.ahead.length, s.readSoFar s.ahead.length, ?_, ?_⟩
  · rw [← readSoFar_zero]
    apply Turn.ends_of_path (x := s.readSoFar)
    · intro k hk
      exact throughTurn_goes h (List.getElem?_eq_getElem hk) fun he => hd (he ▸ List.getElem_mem hk)
    · unfold throughTurn
      rw [hread]
  · have hthrough : Text.through? d (s.text.drop (s.position + 1).toNat) = none := by
      cases ht : Text.through? d (s.text.drop (s.position + 1).toNat) with
      | none => rfl
      | some span =>
        obtain ⟨v, rest, hahead, -⟩ := Text.eq_of_through? ht
        exact absurd (show d ∈ s.ahead by rw [ahead, hahead]; simp) hd
    unfold readThrough throughFrom
    rw [hthrough, hread]
    simp only [hback]
    rfl

/-- The loop of a read through a delimiter ends, and where it ends decides the read. -/
theorem through_loop (h : s.OnText) (d : Char) :
    ∃ n e, (throughTurn d).Ends n s.letGo e ∧ s.readThrough d = s.throughFrom d e := by
  by_cases hd : d ∈ s.ahead
  · obtain ⟨v, rest, hv, hfirst⟩ := List.eq_append_cons_of_mem hd
    exact through_loop_closed h hv hfirst
  · exact through_loop_open h hd

end

/-! ## Identifiers -/

/-- One turn of an identifier: past the character under the cursor, which is collected, if the rules take it. -/
def wordTurn : Turn (Text × Scanner) := fun r =>
  if !r.2.atEnd && r.2.current?.any r.2.rules.continues then some (r.1 ++ r.2.current?.toList, r.2.read.2) else none

section
variable {s : Scanner}

/-- Blanks are skipped from before the text, or where one stands under the cursor; elsewhere there are none to skip. -/
theorem skipBlanks_if_needed (h : s.OnText) :
    (if s.position = -1 ∨ s.current?.any isBlank = true then s.skipBlanks.2 else s) = s.skipBlanks.2 := by
  split
  · rfl
  · rename_i hno
    obtain ⟨hpos, hblank⟩ := not_or.mp hno
    have h0 : 0 ≤ s.position := by
      have := h.1
      omega
    have hrun : s.rest.takeWhile isBlank = [] := by
      rw [current?_eq_head h0] at hblank
      cases hr : s.rest with
      | nil => rfl
      | cons c r => exact List.takeWhile_cons_of_neg (by simpa [hr] using hblank)
    rw [skipBlanks, skipWhile_moves, hrun]
    exact (moveTo_self (by simp; omega)).symm

theorem wordTurn_goes {i : Nat} {c : Char} (hc : s.text[i]? = some c) (hrule : s.rules.continues c = true) (word : Text) :
    wordTurn (word, s.moveTo i) = some (word ++ [c], s.moveTo (i + 1 : Nat)) := by
  have hin : i < s.length := (List.getElem?_eq_some_iff.mp hc).1
  have hend : ¬ s.length ≤ i := by omega
  have hrules : (s.moveTo i).rules = s.rules := rfl
  unfold wordTurn
  simp [current?_at, atEnd_at, read_at hin, hc, hend, hrules, hrule]

theorem wordTurn_stops {i : Nat} (hstop : s.text[i]?.any s.rules.continues = false) (word : Text) :
    wordTurn (word, s.moveTo i) = none := by
  have hrules : (s.moveTo i).rules = s.rules := rfl
  unfold wordTurn
  simp [current?_at, hrules, hstop]

/-- The loop collects the run of characters that the rules take. -/
theorem word_loop (h0 : 0 ≤ s.position) :
    let run := s.rest.takeWhile s.rules.continues
    wordTurn.Ends run.length ([], s) (run, s.moveTo (s.position + run.length)) := by
  intro run
  obtain ⟨i, hi⟩ := Int.eq_ofNat_of_zero_le h0
  have hrest : s.rest = s.text.drop i := by rw [rest, hi, Int.toNat_natCast]
  have hinit : run <+: s.rest := List.takeWhile_prefix _
  -- the state after `k` turns
  let x : Nat → Text × Scanner := fun k => (run.take k, s.moveTo (i + k : Nat))
  have hstart : ([], s) = x 0 := by rw [show x 0 = ([], s.moveTo i) from rfl, moveTo_self hi]
  have hend : (run, s.moveTo (s.position + run.length)) = x run.length := by
    show _ = (run.take run.length, _)
    rw [List.take_length, hi, Int.natCast_add]
  rw [hstart, hend]
  apply Turn.ends_of_path (x := x)
  · intro k hk
    have hc : s.text[i + k]? = some run[k] := by
      rw [← List.getElem?_drop, ← hrest, ← List.getElem?_eq_getElem hk]
      exact (List.prefix_iff_getElem?.mp hinit k hk).trans (List.getElem?_eq_getElem hk).symm
    have hrule : s.rules.continues run[k] = true := List.mem_takeWhile_imp (List.getElem_mem hk)
    have htake : run.take (k + 1) = run.take k ++ [run[k]] := by
      rw [List.take_add_one, List.getElem?_eq_getElem hk]
      rfl
    simp only [x, wordTurn_goes hc hrule, htake, Nat.add_assoc]
  · have hleast := Text.isLeast_run s.text s.rules.continues i
    rw [← hrest] at hleast
    exact wordTurn_stops ((Option.any_eq_false _ _).mpr hleast.1.2) _

/-- The identifier at the cursor, blanks in front of it skipped: none where nothing opens one, otherwise what the loop
    has collected when it stops. -/
theorem identifier_loop (h : s.OnText) :
    let t := if s.position = -1 ∨ s.current?.any isBlank = true then s.skipBlanks.2 else s
    (t.current?.any t.rules.starts = false → s.identifier = t.answer []) ∧
    (t.current?.any t.rules.starts = true → ∃ n e, wordTurn.Ends n ([], t) e ∧
      s.identifier = e.2.deliver .identifier t.position e.1 e.2.cursor) := by
  intro t
  have ht : t = s.skipBlanks.2 := skipBlanks_if_needed h
  have h0 : 0 ≤ t.position := ht ▸ skipWhile_nonneg isBlank s
  have hword : s.identifier = if t.current?.any t.rules.starts then
      t.deliver .identifier t.position (t.rest.takeWhile t.rules.continues)
        { t.cursor with position := t.position + (t.rest.takeWhile t.rules.continues).length }
    else t.answer [] := by
    rw [ht]
    rfl
  rw [hword]
  constructor
  · intro hno
    rw [if_neg (Bool.eq_false_iff.mp hno)]
  · intro hyes
    rw [if_pos hyes]
    exact ⟨_, _, word_loop h0, rfl⟩

end

/-! ## Every run -/

/-- After any history on a text, the reads of a span are what their loops come to: these end, and where they end decides
    outcome and scanner. -/
theorem spans_are_loops (t : Text) (source : Option String) (o : Options) (s : Scanner)
    (h : start (.text t) source o = .ok s) (history : List Action) :
    let u := s.after history
    (u.looksAt Comment.opener = true → ∃ n e, commentTurn.Ends n u.read.2 e ∧ u.comment = u.commentFrom e) ∧
    (∀ d, ∃ n e, (throughTurn d).Ends n u.letGo e ∧ u.readThrough d = u.throughFrom d e) ∧
    let v := if u.position = -1 ∨ u.current?.any isBlank = true then u.skipBlanks.2 else u
    (v.current?.any v.rules.starts = false → u.identifier = v.answer []) ∧
    (v.current?.any v.rules.starts = true → ∃ n e, wordTurn.Ends n ([], v) e ∧
      u.identifier = e.2.deliver .identifier v.position e.1 e.2.cursor) := by
  intro u
  have hon : u.OnText := (after_inside (start_inside h) history).onText
  exact ⟨comment_loop, through_loop hon, identifier_loop hon⟩

end Scanner

end Lexkit
