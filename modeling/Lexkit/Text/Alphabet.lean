/-
  Lexkit.Text.Alphabet — the classes of characters a scanner tells apart. Only ASCII counts: an
  accented letter is no letter and a full-width digit no digit.

  A class is asked of one character. Asked of a text (`holdsOf`), it holds only of a text that is
  exactly one character long; of the empty text, of a longer one and of none at all it is false.
-/

import Lexkit.Text.Basic

namespace Lexkit.Alphabet

def isBlank (c : Char) : Bool := c == ' ' || c == '\t' || c == '\r' || c == '\n'

/-- The blanks inside a line: a line feed stops them, a carriage return does not. -/
def isLineBlank (c : Char) : Bool := c == ' ' || c == '\t' || c == '\r'

/-- The two characters that can end a line. -/
def endsLine (c : Char) : Bool := c == '\r' || c == '\n'

def isLetter (c : Char) : Bool := decide ('a' ≤ c ∧ c ≤ 'z') || decide ('A' ≤ c ∧ c ≤ 'Z')

def isDigit (c : Char) : Bool := decide ('0' ≤ c ∧ c ≤ '9')

def isUnderscore (c : Char) : Bool := c == '_'

def isAlnum (c : Char) : Bool := isLetter c || isDigit c

def isQuote (c : Char) : Bool := c == '\'' || c == '"' || c == '\x60'

/-- A class asked of what may or may not be a single character. -/
def holdsOf (p : Char → Bool) : Option Text → Bool
  | some [c] => p c
  | _ => false

/-- The code points of a class from `lo` to `hi`, both included, in ascending order. -/
def members (p : Char → Bool) (lo hi : Nat) : List Nat :=
  (List.range' lo (hi + 1 - lo)).filter fun n => (Text.ofCode? n).any p

end Lexkit.Alphabet
