/-
  Lexkit.Lines — the lines of a text. A line ends at a line feed, or at a carriage return that no
  line feed follows, so the pair of both ends one line, at its line feed.

  `breaks` lists the indices where lines end, in ascending order. The location of an index is found
  from the breaks before it: their number gives the line, the distance to the last of them the
  column. Both count from 1, and column 0 is the place before the first character. Indices past the
  text go on counting columns on the last line.
-/

import Lexkit.Text.Alphabet

namespace Lexkit

structure Location where
  line : Nat
  column : Nat
  deriving DecidableEq, Repr

namespace Location

def render (l : Location) : String := Nat.repr l.line ++ ":" ++ Nat.repr l.column

end Location

structure Lines where
  breaks : List Nat
  deriving DecidableEq, Repr

namespace Lines

/-- Whether a character ends its line, given the one after it. -/
def breaksAt (c : Char) (next : Option Char) : Bool := c == '\n' || (c == '\r' && next != some '\n')

/-- The indices of the characters that end a line, the first character having index `i`. -/
def breaksFrom (i : Nat) : Text → List Nat
  | [] => []
  | c :: rest => if breaksAt c rest.head? then i :: breaksFrom (i + 1) rest else breaksFrom (i + 1) rest

def of (t : Text) : Lines := ⟨breaksFrom 0 t⟩

def count (l : Lines) : Nat := l.breaks.length + 1

/-- The location of an index, whatever its size. -/
def locate (l : Lines) (p : Int) : Location :=
  if p < 0 then ⟨1, 0⟩
  else
    let before := l.breaks.takeWhile (· < p.toNat)
    match before.getLast? with
    | none => ⟨1, p.toNat + 1⟩
    | some b => ⟨before.length + 1, p.toNat - b⟩

end Lines

end Lexkit
