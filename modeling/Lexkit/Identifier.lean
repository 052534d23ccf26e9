/-
  Lexkit.Identifier — which characters an identifier is made of. Plainly it is a letter or an
  underscore, then letters, digits and underscores. Sigils widen that: a leading sigil is accepted
  anywhere in the identifier, an inner one only after the first character. Sigils are sets: their
  order and repetition mean nothing.
-/

import Lexkit.Text.Alphabet

namespace Lexkit.Identifier

open Lexkit.Alphabet

structure Rules where
  leading : Text := []
  inner : Text := []
  deriving DecidableEq, Repr

namespace Rules

/-- The character may open an identifier. -/
def starts (r : Rules) (c : Char) : Bool := isUnderscore c || isLetter c || r.leading.contains c

/-- The character may follow inside an identifier. -/
def continues (r : Rules) (c : Char) : Bool := r.starts c || isDigit c || r.inner.contains c

/-- What opens an identifier may also follow in it. -/
theorem continues_of_starts {r : Rules} {c : Char} (h : r.starts c = true) : r.continues c = true := by
  simp [continues, h]

end Rules

end Lexkit.Identifier
