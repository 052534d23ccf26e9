/-
  Lexkit.Scan.Trivia — skipping everything that stands between two words: blanks, block comments and,
  where the grammar has them, comments from an opener to the end of the line.

  It goes in rounds. A round skips blanks, then a block comment or, if none opens there, a line comment;
  it goes on as long as there was a comment. A block comment is looked for first, so a line-comment
  opener that starts like one never takes effect, nor does an empty one or one that starts with a blank.
  Every round that goes on leaves less text (`round_progress`): a comment has characters, and a line
  comment starts on a character that is no blank, so there is something before the end of its line.

  The answer is whether anything was skipped. A block comment that fails ends it there, with what was
  skipped and logged before kept.
-/

import Lexkit.Scan.Span

namespace Lexkit.Scanner

inductive Round where
  | done (moved : Bool) (s : Scanner)
  | failed (f : Failure) (s : Scanner)
  | again (s : Scanner) (log : List Record)

/-- A line comment opens under the cursor. -/
def opensLine (lineOpener : Option Text) (s : Scanner) : Bool :=
  lineOpener.any fun o => !o.isEmpty && s.looksAt o

def round (lineOpener : Option Text) (s : Scanner) : Round :=
  let blanks := s.skipBlanks
  let t := blanks.2
  if t.looksAt Comment.opener then
    let c := t.comment
    match c.result with
    | .ok _ => .again c.next c.log
    | .error f => .failed f c.next
  else if t.opensLine lineOpener then .again t.skipToLineEnd.2 []
  else .done blanks.1 t

/-! ## Every round that goes on leaves less text -/

theorem rest_of_opensLine {lineOpener : Option Text} {s : Scanner} (h : s.opensLine lineOpener = true) :
    s.rest ≠ [] := by
  intro hr
  cases hl : lineOpener with
  | none => simp [opensLine, hl] at h
  | some o =>
    simp only [opensLine, hl, Option.any_some, Bool.and_eq_true, Bool.not_eq_true', looksAt, window, hr] at h
    cases o with
    | nil => simp at h
    | cons _ _ => simp at h

theorem round_progress {lineOpener : Option Text} {s t : Scanner} {log : List Record}
    (h : s.round lineOpener = .again t log) : t.rest.length < s.rest.length := by
  have hb : s.skipBlanks.2.rest = s.rest.dropWhile Alphabet.isBlank := rest_skipWhile _ s
  have hle : s.skipBlanks.2.rest.length ≤ s.rest.length := by
    rw [hb]; exact (List.dropWhile_sublist _).length_le
  unfold round at h
  simp only at h
  split at h
  · split at h
    · rename_i hc
      cases h
      exact Nat.lt_of_lt_of_le (comment_progress hc) hle
    · cases h
  · split at h
    · rename_i ho
      cases h
      refine Nat.lt_of_lt_of_le ?_ hle
      have hne := rest_of_opensLine ho
      rw [skipToLineEnd, rest_skipWhile]
      cases hr : s.skipBlanks.2.rest with
      | nil => exact absurd hr hne
      | cons c more =>
        have hc : Alphabet.isBlank c = false := by
          have := List.head?_dropWhile_not Alphabet.isBlank s.rest
          rw [← hb, hr] at this
          simpa using this
        have he : Alphabet.endsLine c = false := by
          simp [Alphabet.isBlank] at hc
          simp [Alphabet.endsLine, hc]
        simp only [List.dropWhile_cons, he, Bool.not_false, if_true, List.length_cons]
        exact Nat.lt_succ_of_le (List.dropWhile_sublist _).length_le
    · cases h

def trivia (lineOpener : Option Text) (s : Scanner) : Outcome Bool :=
  match _ : s.round lineOpener with
  | .done moved t => t.answer moved
  | .failed f t => t.refuse f
  | .again t log =>
    let more := t.trivia lineOpener
    ⟨more.result.map fun _ => true, more.next, log ++ more.log⟩
termination_by s.rest.length
decreasing_by exact round_progress ‹_›

end Lexkit.Scanner
