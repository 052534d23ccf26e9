/-
  Lexkit.Scan.Action — everything a parser can ask of a scanner, as a value, so that a whole history
  can be written down and run. Most actions look or move; three assign how the scanner reads from then
  on. An action that fails leaves the scanner usable, so a run goes on after it.
-/

import Lexkit.Scan.Trivia

namespace Lexkit

inductive Action where
  | read
  | unread
  | restart
  | current
  | next
  | atStart
  | atEnd
  | atLineEnd
  | starts (c : Option Text)
  | continues (c : Option Text)
  | skipToLineEnd
  | skipBlanks
  | skipLineBlanks
  | looksAt (t : Text) (folded : Bool)
  | comment
  | delimited (d : Literal)
  | identifier
  | trivia (lineOpener : Option Text)
  | quotedBody
  /-- The location of an index, or of the cursor. -/
  | locate (p : Option Int)
  | length
  | describe
  | source
  | setDebug (b : Bool)
  | setStrict (b : Bool)
  | setRules (r : Identifier.Rules)
  deriving DecidableEq, Repr

inductive Answer where
  | nothing
  | flag (b : Bool)
  | text (t : Text)
  | place (l : Location)
  | size (n : Nat)
  | description (d : Description)
  deriving DecidableEq, Repr

namespace Scanner

/-- The outcome of a move that cannot fail. -/
def moved (r : Bool × Scanner) : Outcome Answer := r.2.answer (.flag r.1)

def perform (s : Scanner) : Action → Outcome Answer
  | .read => s.read.2.answer (.text s.read.1.toList)
  | .unread => s.unread.answer .nothing
  | .restart => s.restart.answer .nothing
  | .current => s.answer (.text s.current?.toList)
  | .next => s.answer (.text s.next?.toList)
  | .atStart => s.answer (.flag s.atStart)
  | .atEnd => s.answer (.flag s.atEnd)
  | .atLineEnd => s.answer (.flag s.atLineEnd)
  | .starts c => s.answer (.flag (Alphabet.holdsOf s.rules.starts c))
  | .continues c => s.answer (.flag (Alphabet.holdsOf s.rules.continues c))
  | .skipToLineEnd => moved s.skipToLineEnd
  | .skipBlanks => moved s.skipBlanks
  | .skipLineBlanks => moved s.skipLineBlanks
  | .looksAt t folded => s.answer (.flag (if folded then s.looksAtFolded t else s.looksAt t))
  | .comment => s.comment.map .text
  | .delimited d => (s.delimited d).map .text
  | .identifier => s.identifier.map .text
  | .trivia lineOpener => (s.trivia lineOpener).map .flag
  | .quotedBody => s.quotedBody.map .text
  | .locate p => s.answer (.place (s.locate (p.getD s.position)))
  | .length => s.answer (.size s.length)
  | .describe => s.answer (.description s.describe)
  | .source => s.answer (.text s.source.toList)
  | .setDebug b => { s with debug := b }.answer .nothing
  | .setStrict b => { s with strict := b }.answer .nothing
  | .setRules r => { s with rules := r }.answer .nothing

/-- The outcome of every action in turn, failures included. -/
def run (s : Scanner) : List Action → List (Outcome Answer)
  | [] => []
  | a :: more =>
    let o := s.perform a
    o :: o.next.run more

/-- The scanner after a history of actions. -/
def after (s : Scanner) (history : List Action) : Scanner := history.foldl (fun s a => (s.perform a).next) s

end Scanner

end Lexkit
