/-
  Lexkit.Scan.State — a scanner: a text held in memory, a cursor on it, and how it is to be read.

  The cursor stands on the current character. Before the first read it stands before the text, after
  the last one it stands past the end; at both places there is no current character. Reading moves it
  one character on and gives the character it then stands on, so peeking one ahead gives what the next
  read will give. Putting back moves it one character back, as often as wanted.

  A scanner is started on a non-empty text. The source name is used in messages only, and a text that
  came from nowhere in particular is called `<string>`.
-/

import Lexkit.Cursor
import Lexkit.Identifier
import Lexkit.Lines
import Lexkit.Text.Quoted

namespace Lexkit

/-- A name, or the fallback where there is none or it is empty. -/
def nameOr (fallback : String) : Option String → String
  | some n => if n = "" then fallback else n
  | none => fallback

structure Options where
  rules : Identifier.Rules := {}
  /-- An open block comment is a failure rather than a comment to the end of the text. -/
  strict : Bool := true
  /-- Spans are logged as they are consumed. -/
  debug : Bool := false
  deriving DecidableEq, Repr

structure Scanner extends Options where
  text : Text
  source : String
  cursor : Cursor := {}
  deriving DecidableEq, Repr

/-- What a scanner tells of itself. -/
structure Description where
  source : String
  position : Int
  length : Nat
  deriving DecidableEq, Repr

def Description.render [Printable] (d : Description) : String :=
  "Scanner(source_name=" ++ Text.quoted d.source.toList ++ ", position=" ++ Int.repr d.position ++
    ", length=" ++ Nat.repr d.length ++ ")"

/-! ## Starting one -/

/-- The kinds of value that are no text. -/
inductive Shape where
  | nothing
  | flag
  | number
  | bytes
  | list
  | table
  /-- Any other kind, by its name. -/
  | other (name : String)
  deriving DecidableEq, Repr

def Shape.name : Shape → String
  | .nothing => "NoneType"
  | .flag => "bool"
  | .number => "int"
  | .bytes => "bytes"
  | .list => "list"
  | .table => "dict"
  | .other name => name

/-- What a scanner is asked to scan. -/
inductive Subject where
  | text (t : Text)
  | other (s : Shape)
  deriving DecidableEq, Repr

inductive SetupError where
  | notText (s : Shape)
  | emptyText (source : String)
  deriving DecidableEq, Repr

def SetupError.message : SetupError → String
  | .notText s => "Expected text to be a str, got " ++ s.name
  | .emptyText source => "Cannot scan empty text from " ++ source

namespace Scanner

def start (subject : Subject) (source : Option String) (o : Options) : Except SetupError Scanner :=
  match subject with
  | .other s => .error (.notText s)
  | .text [] => .error (.emptyText (nameOr "<string>" source))
  | .text t => .ok { o with text := t, source := nameOr "<string>" source }

/-! ## Looking -/

def position (s : Scanner) : Int := s.cursor.position

def held (s : Scanner) : Text := s.cursor.held

def length (s : Scanner) : Nat := s.text.length

def current? (s : Scanner) : Option Char := s.text.nth? s.position

def next? (s : Scanner) : Option Char := s.text.nth? (s.position + 1)

def atStart (s : Scanner) : Bool := decide (s.position ≤ 0)

def atEnd (s : Scanner) : Bool := decide ((s.length : Int) ≤ s.position)

def atLineEnd (s : Scanner) : Bool := s.current?.any Alphabet.endsLine

/-- The text from the cursor on; all of it while the cursor stands before the text. -/
def rest (s : Scanner) : Text := s.text.drop s.position.toNat

def locate (s : Scanner) (p : Int) : Location := (Lines.of s.text).locate p

def location (s : Scanner) : Location := s.locate s.position

def describe (s : Scanner) : Description := ⟨s.source, s.position, s.length⟩

/-! ## Moving -/

def moveTo (s : Scanner) (p : Int) : Scanner := { s with cursor := { s.cursor with position := p } }

/-- One character on, and the character then current. -/
def read (s : Scanner) : Option Char × Scanner :=
  let t := { s with cursor := s.cursor.forward s.length }
  (t.current?, t)

def unread (s : Scanner) : Scanner := { s with cursor := s.cursor.back }

def restart (s : Scanner) : Scanner := { s with cursor := s.cursor.restart }

end Scanner

end Lexkit
