/-
  Lexkit.Scan.Outcome — what one call on a scanner comes to: a value or a failure, the scanner as it
  is afterwards, and the records it logged. A record names the kind of span consumed, the index where
  it starts and its characters; its line in the log shows source, location, kind and the span quoted.
  Records are made only in debug mode.
-/

import Lexkit.Scan.Failure
import Lexkit.Scan.State

namespace Lexkit

inductive SpanKind where
  | comment
  | delimited
  | identifier
  deriving DecidableEq, Repr

def SpanKind.label : SpanKind → String
  | .comment => "skipped comment"
  | .delimited => "read up to delimiter"
  | .identifier => "identifier"

structure Record where
  kind : SpanKind
  start : Int
  span : Text
  deriving DecidableEq, Repr

structure Outcome (α : Type) where
  result : Except Failure α
  next : Scanner
  log : List Record := []

namespace Outcome

def map {α β : Type} (f : α → β) (o : Outcome α) : Outcome β := ⟨o.result.map f, o.next, o.log⟩

end Outcome

namespace Scanner

/-- The line a record makes in the log. -/
def logLine [Printable] (s : Scanner) (r : Record) : String :=
  s.source ++ ":" ++ (s.locate r.start).render ++ ": " ++ r.kind.label ++ " " ++ r.span.quoted

def note (s : Scanner) (kind : SpanKind) (start : Int) (span : Text) : List Record :=
  if s.debug then [⟨kind, start, span⟩] else []

/-- The span is the answer, the cursor goes to `c`, and the span is noted. -/
def deliver (s : Scanner) (kind : SpanKind) (start : Int) (span : Text) (c : Cursor) : Outcome Text :=
  ⟨.ok span, { s with cursor := c }, s.note kind start span⟩

/-- Nothing moves and nothing is noted. -/
def answer {α : Type} (s : Scanner) (a : α) : Outcome α := ⟨.ok a, s, []⟩

def refuse {α : Type} (s : Scanner) (f : Failure) : Outcome α := ⟨.error f, s, []⟩

end Scanner

end Lexkit
