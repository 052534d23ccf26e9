/-
  Lexkit.Cursor — where a scanner stands. The position is the index of the character under the
  cursor: `-1` before anything was read, the length of the text once it is used up. With it goes
  the span that the last delimited read holds.
-/

import Lexkit.Text.Basic

namespace Lexkit

structure Cursor where
  position : Int := -1
  held : Text := []
  deriving DecidableEq, Repr

namespace Cursor

/-- One character on, but never beyond the limit. -/
def forward (limit : Int) (c : Cursor) : Cursor :=
  if c.position < limit then { c with position := c.position + 1 } else c

/-- One character back, but never past the place before the text. -/
def back (c : Cursor) : Cursor :=
  if -1 < c.position then { c with position := c.position - 1 } else c

/-- Before the text again, holding nothing. -/
def restart (_ : Cursor) : Cursor := {}

/-- The span held grows at its end. -/
def hold (t : Text) (c : Cursor) : Cursor := { c with held := c.held ++ t }

end Cursor

end Lexkit
