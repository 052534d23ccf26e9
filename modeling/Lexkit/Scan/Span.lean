/-
  Lexkit.Scan.Span — reads that deliver a span of the text.

  A block comment is read from its opener under the cursor through the first closer behind the opener;
  comments do not nest, and the star of the opener is no part of a closer. The cursor ends past the
  closer. A comment that never closes is a failure that leaves the cursor on the opener or, where
  comments are not taken strictly, a comment to the end of the text.

  A delimited read takes what follows the cursor through the next delimiter, leaves the cursor on the
  delimiter and holds the span. When none follows, the cursor stays and nothing is held any more.

  A quoted body is a delimited read for the quotation mark under the cursor, that mark taken off again;
  there are no escapes in it.

  An identifier is the longest run its rules accept, after blanks. When none starts there, it is the
  empty text, and the blanks stay skipped.
-/

import Lexkit.Scan.Outcome
import Lexkit.Scan.Skip

namespace Lexkit.Scanner

def comment (s : Scanner) : Outcome Text :=
  if s.current? = some '/' ∧ s.next? = some '*' then
    match Comment.throughCloser? (s.rest.drop Comment.opener.length) with
    | some body =>
      let span := Comment.opener ++ body
      s.deliver .comment s.position span { s.cursor with position := s.position + span.length }
    | none =>
      if s.strict then s.refuse (.openComment s.position s.location)
      else s.deliver .comment s.position s.rest { s.cursor with position := s.length }
  else s.refuse (.noComment s.location s.current?)

def readThrough (s : Scanner) (d : Char) : Outcome Text :=
  match Text.through? d (s.text.drop (s.position + 1).toNat) with
  | some span => s.deliver .delimited (s.position + 1) span ⟨s.position + span.length, span⟩
  | none => { s with cursor := { s.cursor with held := [] } }.refuse (.openSpan s.position s.location d)

/-- A delimited read for whatever was given as the delimiter. -/
def delimited (s : Scanner) (given : Literal) : Outcome Text :=
  match given.single? with
  | some d => s.readThrough d
  | none => s.refuse (.badDelimiter given)

def quotedBody (s : Scanner) : Outcome Text :=
  match s.current? with
  | some q => if Alphabet.isQuote q then (s.readThrough q).map List.dropLast else s.refuse (.noQuote (some q))
  | none => s.refuse (.noQuote none)

def identifier (s : Scanner) : Outcome Text :=
  let t := s.skipBlanks.2
  if t.current?.any t.rules.starts then
    let run := t.rest.takeWhile t.rules.continues
    t.deliver .identifier t.position run { t.cursor with position := t.position + run.length }
  else t.answer []

/-! ## A comment is progress -/

theorem comment_progress {s : Scanner} {span : Text} (h : s.comment.result = .ok span) :
    s.comment.next.rest.length < s.rest.length := by
  unfold comment at h ⊢
  split
  · rename_i hc
    obtain ⟨h0, hd⟩ := head_rest_of_current hc.1
    have hpos : 0 < s.rest.length := by
      cases hr : s.rest with
      | nil => rw [hr] at hd; cases hd
      | cons _ _ => simp
    have hlen : s.rest.length = s.text.length - s.position.toNat := by simp [rest]
    split
    · rename_i body _
      show (s.text.drop (s.position + ((Comment.opener ++ body).length : Int)).toNat).length < _
      have : 0 < (Comment.opener ++ body).length := by simp [Comment.opener]
      simp only [List.length_drop]
      omega
    · split
      · rename_i hn hs
        simp [hc, hn, hs, refuse] at h
      · show (s.text.drop ((s.length : Int)).toNat).length < _
        simp only [List.length_drop, length]
        omega
  · rename_i hc
    simp [hc, refuse] at h

end Lexkit.Scanner
