/-
  Lexkit.Scan.Failure — why a read gives nothing. Either it was asked for where it makes no sense, a
  mistake of the caller, or the text ends before the span does. An unterminated span says where it
  starts, where that is in the lines, and what would have closed it.
-/

import Lexkit.Lines
import Lexkit.Text.Comment
import Lexkit.Text.Literal

namespace Lexkit

inductive Failure where
  /-- No block comment opens under the cursor. -/
  | noComment (place : Location) (got : Option Char)
  /-- A delimiter is a single character. -/
  | badDelimiter (given : Literal)
  /-- No quotation mark stands under the cursor. -/
  | noQuote (got : Option Char)
  /-- The comment opened at `start` never closes. -/
  | openComment (start : Int) (place : Location)
  /-- No delimiter follows `start`. -/
  | openSpan (start : Int) (place : Location) (delimiter : Char)
  deriving DecidableEq, Repr

/-- What an unterminated span tells. -/
structure Unterminated where
  start : Int
  place : Location
  expected : Text
  deriving DecidableEq, Repr

namespace Failure

/-- None for a mistake of the caller. -/
def unterminated? : Failure → Option Unterminated
  | .openComment start place => some ⟨start, place, Comment.closer⟩
  | .openSpan start place delimiter => some ⟨start, place, [delimiter]⟩
  | _ => none

def message [Printable] (source : String) : Failure → String
  | .noComment place got =>
    "skip_comment called at " ++ source ++ ":" ++ place.render ++ " where there is no comment opener, got " ++
      Text.quoted got.toList
  | .badDelimiter given => "Delimiter has to be a single character, got " ++ given.render
  | .noQuote got => "Expected a quotation mark, got " ++ Text.quoted got.toList
  | .openComment _ place => "Reached end of text in comment starting at " ++ source ++ ":" ++ place.render
  | .openSpan _ place delimiter =>
    "Reached end of text looking for " ++ Text.quoted [delimiter] ++ " after " ++ source ++ ":" ++ place.render

end Failure

end Lexkit
