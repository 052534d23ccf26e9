/-
  Lexkit.Proofs.Motion — where a move leaves the cursor, said of the text from the cursor on. Skips,
  comments and identifiers end at an index of the text (`moveTo`) and change nothing else; a read is one
  step on, a putting back one step back. No other move goes back (`Onward`).
-/

import Lexkit.Scan.Span
import Lexkit.Proofs.Occurrence

namespace Lexkit.Scanner

open Lexkit.Alphabet

/-! ## A fresh scanner -/

theorem start_ok {t : Text} {source : Option String} {o : Options} {s : Scanner}
    (h : start (.text t) source o = .ok s) :
    t ≠ [] ∧ s = { o with text := t, source := nameOr "<string>" source } := by
  cases t with
  | nil => cases h
  | cons c t => cases h; exact ⟨List.cons_ne_nil _ _, rfl⟩

/-! ## The text from the cursor on -/

@[simp] theorem moveTo_position (s : Scanner) (p : Int) : (s.moveTo p).position = p := rfl
@[simp] theorem moveTo_length (s : Scanner) (p : Int) : (s.moveTo p).length = s.length := rfl
@[simp] theorem moveTo_moveTo (s : Scanner) (p q : Int) : (s.moveTo p).moveTo q = s.moveTo q := rfl
@[simp] theorem moveTo_locate (s : Scanner) (p q : Int) : (s.moveTo p).locate q = s.locate q := rfl

theorem moveTo_self {s : Scanner} {p : Int} (h : s.position = p) : s.moveTo p = s := by
  subst h; rfl

theorem rest_moveTo_ofNat (s : Scanner) (i : Nat) : (s.moveTo i).rest = s.text.drop i := rfl

theorem drop_rest (s : Scanner) (n : Nat) : s.rest.drop n = s.text.drop (s.position.toNat + n) := by
  rw [rest, List.drop_drop]

theorem rest_moveTo_add {s : Scanner} (h : 0 ≤ s.position) (n : Nat) : (s.moveTo (s.position + n)).rest = s.rest.drop n := by
  have ht : (s.position + n).toNat = s.position.toNat + n := by omega
  rw [drop_rest, rest_moveTo, ht]

theorem length_rest (s : Scanner) : s.rest.length = s.length - s.position.toNat := by
  simp [rest, length]

theorem current?_eq_head {s : Scanner} (h : 0 ≤ s.position) : s.current? = s.rest.head? := by
  rw [current?, Text.nth?, if_pos h, rest, List.head?_drop]

theorem next?_eq_head {s : Scanner} (h : 0 ≤ s.position) : s.next? = s.rest.tail.head? := by
  have ht : (s.position + 1).toNat = s.position.toNat + 1 := by omega
  rw [next?, Text.nth?, if_pos (by omega), ht, rest, List.tail_drop, List.head?_drop]

theorem looksAt_eq_isPrefixOf {s : Scanner} (h : 0 ≤ s.position) (w : Text) : s.looksAt w = w.isPrefixOf s.rest := by
  have hn : ¬ s.position < 0 := by omega
  rw [looksAt, window, if_neg hn, Bool.eq_iff_iff, beq_iff_eq, List.isPrefixOf_iff_prefix, List.prefix_iff_eq_take]
  exact eq_comm

/-! ## One character on -/

theorem read_eq_moveTo {s : Scanner} (h : s.position < s.length) : s.read.2 = s.moveTo (s.position + 1) := by
  have hc : s.cursor.position < s.length := h
  simp only [read, Cursor.forward, if_pos hc]
  rfl

theorem read_eq_self {s : Scanner} (h : ¬ s.position < s.length) : s.read.2 = s := by
  have hc : ¬ s.cursor.position < s.length := h
  simp only [read, Cursor.forward, if_neg hc]

theorem le_position_read (s : Scanner) : s.position ≤ s.read.2.position := by
  show s.cursor.position ≤ (s.cursor.forward s.length).position
  unfold Cursor.forward
  split
  · exact Int.le_of_lt (Int.lt_succ _)
  · exact Int.le_refl _

/-- While it stands on the text or at its end, a read drops one character of what is left. -/
theorem rest_read {s : Scanner} (h : 0 ≤ s.position) : s.read.2.rest = s.rest.tail := by
  by_cases hl : s.position < s.length
  · have ht : (s.position + 1).toNat = s.position.toNat + 1 := by omega
    rw [read_eq_moveTo hl, rest_moveTo, ht, rest, List.tail_drop]
  · have hr : s.rest = [] := List.drop_eq_nil_of_le (show s.text.length ≤ s.position.toNat by rw [length] at hl; omega)
    rw [read_eq_self hl, hr]
    rfl

theorem atEnd_eq_isEmpty {s : Scanner} (h : 0 ≤ s.position) : s.atEnd = s.rest.isEmpty := by
  rw [atEnd, Bool.eq_iff_iff, decide_eq_true_eq, List.isEmpty_iff, ← List.length_eq_zero_iff, length_rest]
  omega

/-! ## One character back -/

theorem unread_eq_moveTo {s : Scanner} (h : -1 < s.position) : s.unread = s.moveTo (s.position - 1) := by
  have hc : -1 < s.cursor.position := h
  simp only [unread, Cursor.back, if_pos hc]
  rfl

theorem unread_eq_self {s : Scanner} (h : ¬ -1 < s.position) : s.unread = s := by
  have hc : ¬ -1 < s.cursor.position := h
  simp only [unread, Cursor.back, if_neg hc]

/-! ## Skips -/

theorem skipWhile_moves (p : Char → Bool) (s : Scanner) :
    (s.skipWhile p).2 = s.moveTo (s.position.toNat + (s.rest.takeWhile p).length : Nat) := by
  have hm : max s.position 0 + ((s.rest.takeWhile p).length : Int) =
      ((s.position.toNat + (s.rest.takeWhile p).length : Nat) : Int) := by omega
  rw [skipWhile, hm]

/-- A skip leaves the cursor on the text. -/
theorem skipWhile_nonneg (p : Char → Bool) (s : Scanner) : 0 ≤ (s.skipWhile p).2.position := by
  rw [skipWhile_moves]
  exact Int.natCast_nonneg _

theorem skipWhile_moved (p : Char → Bool) (s : Scanner) :
    (s.skipWhile p).1 = decide (0 < (s.rest.takeWhile p).length) := by
  show (!(s.rest.takeWhile p).isEmpty) = _
  cases s.rest.takeWhile p <;> simp

/-- A skip does not stop inside the run it skips. -/
theorem skipWhile_stops (p : Char → Bool) (s : Scanner) : ∀ c ∈ (s.skipWhile p).2.rest.head?, p c = false := by
  intro c hc
  have hn := List.head?_dropWhile_not p s.rest
  rw [← rest_skipWhile, Option.mem_def.mp hc] at hn
  exact hn

/-- The skip to the end of a line ends at the first character that ends one, or at the end of the text. -/
theorem skipToLineEnd_moves (s : Scanner) :
    s.skipToLineEnd.2 = s.moveTo (s.position.toNat + s.rest.findIdx endsLine : Nat) := by
  have hi : (s.rest.takeWhile fun c => !endsLine c).length = s.rest.findIdx endsLine := by
    rw [List.takeWhile_eq_take_findIdx_not, List.length_take]
    simp only [Bool.not_not]
    exact Nat.min_eq_left List.findIdx_le_length
  rw [skipToLineEnd, skipWhile_moves, hi]

/-! ## Comments -/

theorem looksAt_opener_iff {s : Scanner} :
    s.looksAt Comment.opener = true ↔ s.current? = some '/' ∧ s.next? = some '*' := by
  by_cases h : 0 ≤ s.position
  · rw [looksAt_eq_isPrefixOf h, current?_eq_head h, next?_eq_head h, Comment.opener]
    rcases s.rest with _ | ⟨a, _ | ⟨b, r⟩⟩
    · simp
    · simp
    · simp only [List.isPrefixOf, Bool.and_true, Bool.and_eq_true, beq_iff_eq, List.head?_cons, List.tail_cons,
        Option.some.injEq]
      exact and_congr eq_comm eq_comm
  · have hn : s.position < 0 := by omega
    simp [looksAt, window, hn, Comment.opener, current?, Text.nth?, h]

/-- A comment that closes is the text from its opener through its first closer. -/
theorem comment_closed {s : Scanner} (h : s.looksAt Comment.opener = true) {k : Nat}
    (hk : Text.indexOf? Comment.closer (s.rest.drop 2) = some k) :
    s.comment = ⟨.ok (s.rest.take (2 + (k + 2))), s.moveTo (s.position + (2 + (k + 2) : Nat)),
      s.note .comment s.position (s.rest.take (2 + (k + 2)))⟩ := by
  have hc := looksAt_opener_iff.mp h
  have h0 : 0 ≤ s.position := (head_rest_of_current hc.1).1
  have hp : Comment.opener = s.rest.take 2 :=
    List.prefix_iff_eq_take.mp (List.isPrefixOf_iff_prefix.mp (looksAt_eq_isPrefixOf h0 _ ▸ h))
  have hspan : Comment.opener ++ (s.rest.drop 2).take (k + 2) = s.rest.take (2 + (k + 2)) := by
    rw [hp, ← List.take_add]
  have hfit : k + 2 ≤ (s.rest.drop 2).length := Text.indexOf?_fits hk
  have hlen : (s.rest.take (2 + (k + 2))).length = 2 + (k + 2) := by
    rw [List.length_drop] at hfit
    rw [List.length_take]
    omega
  have hbody : Comment.throughCloser? (s.rest.drop Comment.opener.length) = some ((s.rest.drop 2).take (k + 2)) := by
    show Comment.throughCloser? (s.rest.drop 2) = _
    rw [Comment.throughCloser?_eq_take, hk]
    rfl
  rw [comment, if_pos hc, hbody]
  simp only [hspan, hlen]
  rfl

/-- One that does not is a failure on its opener or, where comments are not taken strictly, all that is left. -/
theorem comment_open {s : Scanner} (h : s.looksAt Comment.opener = true)
    (hk : Text.indexOf? Comment.closer (s.rest.drop 2) = none) :
    s.comment = if s.strict then s.refuse (.openComment s.position s.location)
      else ⟨.ok s.rest, s.moveTo s.length, s.note .comment s.position s.rest⟩ := by
  have hbody : Comment.throughCloser? (s.rest.drop Comment.opener.length) = none := by
    show Comment.throughCloser? (s.rest.drop 2) = _
    rw [Comment.throughCloser?_eq_take, hk]
    rfl
  rw [comment, if_pos (looksAt_opener_iff.mp h), hbody]
  rfl

/-! ## Identifiers -/

/-- On a character that opens an identifier, the identifier is the longest run that goes on with it. -/
theorem identifier_starts {s : Scanner} {c : Char} (hc : s.current? = some c) (hb : isBlank c = false)
    (hs : s.rules.starts c = true) :
    s.identifier = ⟨.ok (s.rest.takeWhile s.rules.continues),
      s.moveTo (s.position + (s.rest.takeWhile s.rules.continues).length),
      s.note .identifier s.position (s.rest.takeWhile s.rules.continues)⟩ := by
  obtain ⟨h0, hr⟩ := head_rest_of_current hc
  obtain ⟨r, hr⟩ := List.head?_eq_some_iff.mp hr
  have ht : s.skipBlanks.2 = s := by
    rw [skipBlanks, skipWhile_moves, hr, List.takeWhile_cons, hb]
    exact moveTo_self (by show s.position = _; simp; omega)
  rw [identifier]
  simp only [ht, hc, Option.any_some, hs, if_true]
  rfl

/-! ## Never back -/

/-- On the same text, at the same place or later. -/
structure Onward (s t : Scanner) : Prop where
  text : t.text = s.text
  position : s.position ≤ t.position

theorem Onward.trans {s t u : Scanner} (h : Onward s t) (k : Onward t u) : Onward s u :=
  ⟨k.text.trans h.text, Int.le_trans h.position k.position⟩

theorem Onward.rest_le {s t : Scanner} (h : Onward s t) : t.rest.length ≤ s.rest.length := by
  have := h.position
  rw [length_rest, length_rest, length, length, h.text]
  omega

theorem read_onward (s : Scanner) : Onward s s.read.2 := ⟨rfl, s.le_position_read⟩

theorem skipWhile_onward (p : Char → Bool) (s : Scanner) : Onward s (s.skipWhile p).2 := by
  rw [skipWhile_moves]
  exact ⟨rfl, by rw [moveTo_position]; omega⟩

theorem readThrough_onward (s : Scanner) (d : Char) : Onward s (s.readThrough d).next := by
  unfold readThrough
  split
  · exact ⟨rfl, Int.le_add_of_nonneg_right (Int.natCast_nonneg _)⟩
  · exact ⟨rfl, Int.le_refl _⟩

theorem quotedBody_onward (s : Scanner) : Onward s s.quotedBody.next := by
  unfold quotedBody
  split
  · split
    · exact readThrough_onward s _
    · exact ⟨rfl, Int.le_refl _⟩
  · exact ⟨rfl, Int.le_refl _⟩

theorem identifier_onward (s : Scanner) : Onward s s.identifier.next := by
  have hb : Onward s s.skipBlanks.2 := skipWhile_onward _ s
  simp only [identifier]
  split
  · exact hb.trans ⟨rfl, Int.le_add_of_nonneg_right (Int.natCast_nonneg _)⟩
  · exact hb

end Lexkit.Scanner
