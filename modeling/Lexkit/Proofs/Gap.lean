/-
  Lexkit.Proofs.Gap — where the trivia between two words end.

  `gapEnd` reads a gap off the text alone, one character or one comment at a time: past a blank, past the
  first closer behind an opener, up to the end of the line behind a line opener. It gives the index where
  the gap ends or, where an open comment is a failure, the index of its opener. It knows no cursor, no
  rounds and no flags.

  One round of the scanner's loop either ends where `gapEnd` ends, fails where `gapEnd` fails, or goes on
  from a later index with the same end (`round_cases`). So the loop ends where `gapEnd` does
  (`trivia_ends_with_gap`), from every state a scanner can be in.
-/

import Lexkit.Proofs.Motion
import Lexkit.Scan.Trivia

namespace Lexkit

open Lexkit.Alphabet

/-- A line that starts with no blank does not end at once. -/
theorem lineLength_pos {c : Char} {t : Text} (h : ¬ isBlank c = true) : 0 < (c :: t).findIdx endsLine := by
  have he : endsLine c = false := by
    simp only [isBlank, Bool.or_eq_true, not_or, Bool.not_eq_true] at h
    simp [endsLine, h]
  rw [List.findIdx_cons, he]
  exact Nat.succ_pos _

/-- A line comment opens at the start of the text. -/
def lineOpens (lineOpener : Option Text) (t : Text) : Bool := lineOpener.any fun o => !o.isEmpty && o.isPrefixOf t

/-- Where a gap that starts with the text ends, the first character having index `i`; the index of its
    opener for a comment that has to close and does not. -/
def gapEnd (lineOpener : Option Text) (strict : Bool) (i : Nat) : Text → Except Nat Nat
  | [] => .ok i
  | c :: t =>
    if isBlank c then gapEnd lineOpener strict (i + 1) t
    else if Comment.opener.isPrefixOf (c :: t) then
      match Text.indexOf? Comment.closer ((c :: t).drop 2) with
      | some k => gapEnd lineOpener strict (i + (2 + (k + 2))) ((c :: t).drop (2 + (k + 2)))
      | none => if strict then .error i else .ok (i + (c :: t).length)
    else if lineOpens lineOpener (c :: t) then
      let line := (c :: t).findIdx endsLine
      gapEnd lineOpener strict (i + line) ((c :: t).drop line)
    else .ok i
termination_by t => t.length
decreasing_by
  · simp
  · rw [List.length_drop, List.length_cons]
    omega
  · rw [List.length_drop, List.length_cons]
    have := lineLength_pos (t := t) ‹¬ isBlank c = true›
    omega

/-! ## One piece of a gap -/

section
variable {lineOpener : Option Text} {strict : Bool} {i : Nat}

theorem gapEnd_blanks (lineOpener : Option Text) (strict : Bool) (i : Nat) (t : Text) :
    gapEnd lineOpener strict i t =
      gapEnd lineOpener strict (i + (t.takeWhile isBlank).length) (t.dropWhile isBlank) := by
  induction t generalizing i with
  | nil => rfl
  | cons c t ih =>
    by_cases h : isBlank c = true
    · rw [gapEnd, if_pos h, ih, List.takeWhile_cons_of_pos h, List.dropWhile_cons_of_pos h, List.length_cons,
        Nat.add_assoc, Nat.add_comm 1]
    · rw [List.takeWhile_cons_of_neg h, List.dropWhile_cons_of_neg h]
      rfl

theorem gapEnd_closed {t : Text} (h : Comment.opener.isPrefixOf t = true) {k : Nat}
    (hk : Text.indexOf? Comment.closer (t.drop 2) = some k) :
    gapEnd lineOpener strict i t = gapEnd lineOpener strict (i + (2 + (k + 2))) (t.drop (2 + (k + 2))) := by
  obtain ⟨r, rfl⟩ : ∃ r, '/' :: '*' :: r = t := List.isPrefixOf_iff_prefix.mp h
  rw [gapEnd, if_neg (by decide), if_pos h, hk]

theorem gapEnd_open {t : Text} (h : Comment.opener.isPrefixOf t = true)
    (hk : Text.indexOf? Comment.closer (t.drop 2) = none) :
    gapEnd lineOpener strict i t = if strict then .error i else .ok (i + t.length) := by
  obtain ⟨r, rfl⟩ : ∃ r, '/' :: '*' :: r = t := List.isPrefixOf_iff_prefix.mp h
  rw [gapEnd, if_neg (by decide), if_pos h, hk]

theorem lineOpens_nil (lineOpener : Option Text) : lineOpens lineOpener [] = false := by
  rcases lineOpener with _ | _ | ⟨c, o⟩ <;> rfl

/-- A gap whose text starts with neither a blank nor a block comment. -/
theorem gapEnd_word {t : Text} (hb : ∀ c ∈ t.head?, isBlank c = false) (hc : Comment.opener.isPrefixOf t = false) :
    gapEnd lineOpener strict i t =
      if lineOpens lineOpener t then
        gapEnd lineOpener strict (i + t.findIdx endsLine) (t.drop (t.findIdx endsLine))
      else .ok i := by
  cases t with
  | nil => rw [gapEnd, lineOpens_nil]; rfl
  | cons c t => rw [gapEnd, hb c rfl, hc]; rfl

end

namespace Scanner

/-! ## One round -/

theorem opensLine_eq_lineOpens {s : Scanner} (h : 0 ≤ s.position) (lineOpener : Option Text) :
    s.opensLine lineOpener = lineOpens lineOpener s.rest := by
  cases lineOpener with
  | none => rfl
  | some o => simp only [opensLine, lineOpens, Option.any_some, looksAt_eq_isPrefixOf h]

/-- Where a block comment opens the gap goes on behind it, or fails on its opener. -/
theorem comment_cases {s : Scanner} (h : s.looksAt Comment.opener = true) (lineOpener : Option Text) :
    (s.comment = s.refuse (.openComment s.position s.location) ∧
      gapEnd lineOpener s.strict s.position.toNat s.rest = .error s.position.toNat) ∨
    (∃ (q : Nat) (span : Text) (log : List Record), s.comment = ⟨.ok span, s.moveTo q, log⟩ ∧ s.position.toNat < q ∧
      gapEnd lineOpener s.strict s.position.toNat s.rest = gapEnd lineOpener s.strict q (s.text.drop q)) := by
  have h0 : 0 ≤ s.position := (head_rest_of_current (looksAt_opener_iff.mp h).1).1
  have hp : Comment.opener.isPrefixOf s.rest = true := looksAt_eq_isPrefixOf h0 _ ▸ h
  have hlen : 2 ≤ s.rest.length := (List.isPrefixOf_iff_prefix.mp hp).length_le
  cases hk : Text.indexOf? Comment.closer (s.rest.drop 2) with
  | some k =>
    have hq : s.position + ((2 + (k + 2) : Nat) : Int) = (s.position.toNat + (2 + (k + 2)) : Nat) := by omega
    have hc := comment_closed h hk
    rw [hq] at hc
    exact Or.inr ⟨_, _, _, hc, by omega, by rw [gapEnd_closed hp hk, drop_rest]⟩
  | none =>
    have hc := comment_open h hk
    rw [gapEnd_open hp hk]
    cases hs : s.strict with
    | true => left; rw [hc, hs]; exact ⟨rfl, rfl⟩
    | false =>
      right
      rw [hs] at hc
      have hend : s.position.toNat + s.rest.length = s.length := by rw [length_rest] at hlen ⊢; omega
      refine ⟨s.length, _, _, hc, by omega, ?_⟩
      rw [hend, length, List.drop_length, gapEnd]
      rfl

/-- Where neither a blank nor a block comment stands and a line comment opens, the gap goes on at the end of
    its line. -/
theorem line_case {s : Scanner} (h0 : 0 ≤ s.position) (hb : ∀ c ∈ s.rest.head?, isBlank c = false)
    (hc : ¬ s.looksAt Comment.opener = true) {lineOpener : Option Text} (ho : s.opensLine lineOpener = true) :
    ∃ q : Nat, s.skipToLineEnd.2 = s.moveTo q ∧ s.position.toNat < q ∧
      gapEnd lineOpener s.strict s.position.toNat s.rest = gapEnd lineOpener s.strict q (s.text.drop q) := by
  have hw : Comment.opener.isPrefixOf s.rest = false := by rw [← looksAt_eq_isPrefixOf h0]; simpa using hc
  have hpos : 0 < s.rest.findIdx endsLine := by
    cases hl : s.rest with
    | nil => exact absurd hl (rest_of_opensLine ho)
    | cons c r =>
      rw [hl] at hb
      exact lineLength_pos (by simp [hb c rfl])
  refine ⟨s.position.toNat + s.rest.findIdx endsLine, s.skipToLineEnd_moves, Nat.lt_add_of_pos_right hpos, ?_⟩
  rw [gapEnd_word hb hw, ← opensLine_eq_lineOpens h0, if_pos ho, drop_rest]

/-- Where nothing of all this stands, the gap ends. -/
theorem word_case {s : Scanner} (h0 : 0 ≤ s.position) (hb : ∀ c ∈ s.rest.head?, isBlank c = false)
    (hc : ¬ s.looksAt Comment.opener = true) {lineOpener : Option Text} (ho : ¬ s.opensLine lineOpener = true) :
    gapEnd lineOpener s.strict s.position.toNat s.rest = .ok s.position.toNat := by
  have hw : Comment.opener.isPrefixOf s.rest = false := by rw [← looksAt_eq_isPrefixOf h0]; simpa using hc
  rw [gapEnd_word hb hw, ← opensLine_eq_lineOpens h0, if_neg ho]

/-- What a round of the loop can come to: the gap ends where it ends, the gap fails where it fails, or the
    gap goes on from a later index. -/
theorem round_cases (lineOpener : Option Text) (s : Scanner) :
    (∃ q : Nat, s.round lineOpener = .done (decide (s.position.toNat < q)) (s.moveTo q) ∧
      gapEnd lineOpener s.strict s.position.toNat s.rest = .ok q) ∨
    (∃ q : Nat, s.round lineOpener = .failed (.openComment q (s.locate q)) (s.moveTo q) ∧
      (s.moveTo q).looksAt Comment.opener = true ∧
      gapEnd lineOpener s.strict s.position.toNat s.rest = .error q) ∨
    (∃ (q : Nat) (log : List Record), s.round lineOpener = .again (s.moveTo q) log ∧ s.position.toNat < q ∧
      gapEnd lineOpener s.strict s.position.toNat s.rest = gapEnd lineOpener s.strict q (s.text.drop q)) := by
  -- all that follows is about the scanner behind the blanks, `t`, on the index `j`
  let j := s.position.toNat + (s.rest.takeWhile isBlank).length
  let t := s.moveTo j
  have ht : s.skipBlanks.2 = t := skipWhile_moves _ s
  have hr : t.rest = s.rest.dropWhile isBlank := by rw [← ht]; exact rest_skipWhile _ s
  have hb : ∀ c ∈ t.rest.head?, isBlank c = false := by rw [← ht]; exact skipWhile_stops _ s
  have hg : gapEnd lineOpener s.strict s.position.toNat s.rest = gapEnd lineOpener t.strict t.position.toNat t.rest := by
    rw [gapEnd_blanks, hr]; rfl
  have h0 : 0 ≤ t.position := Int.natCast_nonneg j
  have hj : s.position.toNat ≤ j := Nat.le_add_right _ _
  rw [hg]
  simp only [round, ht]
  by_cases hc : t.looksAt Comment.opener = true
  · rw [if_pos hc]
    rcases comment_cases hc lineOpener with ⟨hf, he⟩ | ⟨q, span, log, ho, hq, he⟩
    · exact Or.inr (Or.inl ⟨j, by rw [hf]; rfl, hc, he⟩)
    · exact Or.inr (Or.inr ⟨q, log, by rw [ho]; rfl, Nat.lt_of_le_of_lt hj hq, he⟩)
  · rw [if_neg hc]
    by_cases ho : t.opensLine lineOpener = true
    · obtain ⟨q, hl, hq, he⟩ := line_case h0 hb hc ho
      rw [if_pos ho, hl]
      exact Or.inr (Or.inr ⟨q, [], rfl, Nat.lt_of_le_of_lt hj hq, he⟩)
    · have hm : s.skipBlanks.1 = decide (s.position.toNat < j) := by
        rw [skipBlanks, skipWhile_moved, decide_eq_decide]
        exact Nat.lt_add_right_iff_pos.symm
      rw [if_neg ho, hm]
      exact Or.inl ⟨j, rfl, word_case h0 hb hc ho⟩

/-! ## The whole loop -/

theorem le_gapEnd {lineOpener : Option Text} {strict : Bool} {i q : Nat} {t : Text}
    (h : gapEnd lineOpener strict i t = .ok q ∨ gapEnd lineOpener strict i t = .error q) : i ≤ q := by
  fun_induction gapEnd lineOpener strict i t with
  | case1 i => rcases h with h | h <;> cases h; exact Nat.le_refl _
  | case2 i c t hb ih => have := ih h; omega
  | case3 i c t hb hc k hk ih => have := ih h; omega
  | case4 i c t hb hc hk hs => rcases h with h | h <;> cases h; exact Nat.le_refl _
  | case5 i c t hb hc hk hs => rcases h with h | h <;> cases h; exact Nat.le_add_right _ _
  | case6 i c t hb hc ho line ih => have := ih h; omega
  | case7 i c t hb hc ho => rcases h with h | h <;> cases h; exact Nat.le_refl _

theorem gapEnd_le {lineOpener : Option Text} {strict : Bool} {i q : Nat} {t : Text}
    (h : gapEnd lineOpener strict i t = .ok q ∨ gapEnd lineOpener strict i t = .error q) : q ≤ i + t.length := by
  fun_induction gapEnd lineOpener strict i t with
  | case1 i => rcases h with h | h <;> cases h; exact Nat.le_refl _
  | case2 i c t hb ih =>
    have := ih h
    rw [List.length_cons]
    omega
  | case3 i c t hb hc k hk ih =>
    have hfit : k + Comment.closer.length ≤ ((c :: t).drop 2).length := Text.indexOf?_fits hk
    have hlen : 2 ≤ (c :: t).length := (List.isPrefixOf_iff_prefix.mp hc).length_le
    have := ih h
    rw [List.length_drop] at this hfit
    simp only [Comment.closer, List.length_cons, List.length_nil] at hfit hlen this ⊢
    omega
  | case4 i c t hb hc hk hs => rcases h with h | h <;> cases h; exact Nat.le_add_right _ _
  | case5 i c t hb hc hk hs => rcases h with h | h <;> cases h; exact Nat.le_refl _
  | case6 i c t hb hc ho line ih =>
    have hline : line ≤ (c :: t).length := List.findIdx_le_length
    have := ih h
    rw [List.length_drop] at this
    omega
  | case7 i c t hb hc ho => rcases h with h | h <;> cases h; exact Nat.le_add_right _ _

/-- The outcome of skipping, from a cursor at the start of it, a gap that ends or fails as said. -/
def Skips (s : Scanner) (o : Outcome Bool) : Except Nat Nat → Prop
  | .ok q => o.result = .ok (decide (s.position.toNat < q)) ∧ o.next = s.moveTo q
  | .error q => o.result = .error (.openComment q (s.locate q)) ∧ o.next = s.moveTo q ∧
      (s.moveTo q).looksAt Comment.opener = true

/-- Skipping on from a later index of the same gap. -/
theorem Skips.later {s : Scanner} {o : Outcome Bool} {e : Except Nat Nat} {i : Nat} (h : (s.moveTo i).Skips o e)
    (hi : s.position.toNat < i) (he : ∀ q, e = .ok q → i ≤ q) (log : List Record) :
    s.Skips ⟨o.result.map fun _ => true, o.next, log⟩ e := by
  cases e with
  | ok q =>
    obtain ⟨hr, hn⟩ := h
    have hq : s.position.toNat < q := Nat.lt_of_lt_of_le hi (he q rfl)
    exact ⟨by simp [hr, hq, Except.map], hn⟩
  | error q =>
    obtain ⟨hr, hn, hl⟩ := h
    exact ⟨by simp [hr, Except.map], hn, hl⟩

theorem trivia_eq (lineOpener : Option Text) (s : Scanner) :
    s.trivia lineOpener = match s.round lineOpener with
      | .done moved t => t.answer moved
      | .failed f t => t.refuse f
      | .again t log =>
        let more := t.trivia lineOpener
        ⟨more.result.map fun _ => true, more.next, log ++ more.log⟩ := by
  rw [trivia]
  split <;> rename_i h <;> rw [h]

theorem trivia_skips (lineOpener : Option Text) (s : Scanner) :
    s.Skips (s.trivia lineOpener) (gapEnd lineOpener s.strict s.position.toNat s.rest) := by
  -- a round that goes on leaves less text, so the loop is followed by induction on what is left
  generalize hn : s.rest.length = n
  induction n using Nat.strongRecOn generalizing s with
  | _ n ih =>
    rcases round_cases lineOpener s with ⟨q, hr, he⟩ | ⟨q, hr, hl, he⟩ | ⟨q, log, hr, hq, he⟩
    · rw [trivia_eq, hr, he]
      exact ⟨rfl, rfl⟩
    · rw [trivia_eq, hr, he]
      exact ⟨rfl, rfl, hl⟩
    · have hrest := ih _ (hn ▸ round_progress hr) (s.moveTo q) rfl
      rw [trivia_eq, hr, he]
      exact hrest.later hq (fun _ h => le_gapEnd (Or.inl h)) _

theorem trivia_onward (lineOpener : Option Text) (s : Scanner) : Onward s (s.trivia lineOpener).next := by
  have hs := trivia_skips lineOpener s
  cases he : gapEnd lineOpener s.strict s.position.toNat s.rest with
  | ok q =>
    have := le_gapEnd (Or.inl he)
    rw [he] at hs
    rw [hs.2]
    exact ⟨rfl, by rw [moveTo_position]; omega⟩
  | error q =>
    have := le_gapEnd (Or.inr he)
    rw [he] at hs
    rw [hs.2.1]
    exact ⟨rfl, by rw [moveTo_position]; omega⟩

theorem trivia_of_gapEnd {lineOpener : Option Text} {s : Scanner} {q : Nat}
    (h : gapEnd lineOpener s.strict s.position.toNat s.rest = .ok q) :
    (s.trivia lineOpener).result = .ok (decide (s.position.toNat < q)) ∧ (s.trivia lineOpener).next = s.moveTo q := by
  have hs := trivia_skips lineOpener s
  rw [h] at hs
  exact hs

/-- Skipping trivia ends exactly where the gap under the cursor ends, and says whether that is behind the
    place it started from (the cursor, or the first character while it stands before the text). It fails
    exactly when the gap does: on the opener of a comment that never closes, where the cursor is left. -/
theorem trivia_ends_with_gap (s : Scanner) (lineOpener : Option Text) :
    let start := (max s.position 0).toNat
    let o := s.trivia lineOpener
    match gapEnd lineOpener s.strict start (s.text.drop start) with
    | .ok q => o.result = .ok (decide (start < q)) ∧ o.next = s.moveTo q
    | .error q => ∃ f, o.result = .error f ∧ f.unterminated? = some ⟨q, s.locate q, Comment.closer⟩ ∧
        o.next = s.moveTo q ∧ o.next.looksAt Comment.opener = true := by
  intro start o
  have hs : start = s.position.toNat := by show (max s.position 0).toNat = _; omega
  have h : s.Skips o (gapEnd lineOpener s.strict start (s.text.drop start)) := by
    rw [hs]
    exact trivia_skips lineOpener s
  split
  · rename_i q hq
    rw [hq] at h
    exact hs ▸ h
  · rename_i q hq
    rw [hq] at h
    obtain ⟨hr, hn, hl⟩ := h
    exact ⟨_, hr, rfl, hn, hn ▸ hl⟩

end Scanner

end Lexkit
