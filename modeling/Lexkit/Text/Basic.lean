/-
  Lexkit.Text.Basic — a text is the list of its characters, so every index, length and column
  counts characters, never bytes and never the two halves of a large code point. A character is a
  Unicode scalar value: no text holds the half of a surrogate pair on its own.

  An index is an integer: `-1` names the place before the first character and the length names
  the place past the last one, and no character stands at either (`nth?`).

  Pieces of a text are cut off by what ends them (`through?`), by what they are made of (`runs`) or by what
  they take up (`within`).
-/

namespace Lexkit

abbrev Text := List Char

namespace Text

/-- The character at an index; there is none before the text or past its end. -/
def nth? (t : Text) (i : Int) : Option Char := if 0 ≤ i then t[i.toNat]? else none

/-- The character of a code point. Surrogates and numbers past the last plane are none. -/
def ofCode? (n : Nat) : Option Char := if h : n.isValidChar then some (Char.ofNatAux n h) else none

/-- The piece that ends with the first `d`. -/
def through? (d : Char) : Text → Option Text
  | [] => none
  | c :: rest => if c = d then some [c] else (through? d rest).map (c :: ·)

/-- The longest runs of characters of a class, in order; what stands between them is dropped. -/
def runs (p : Char → Bool) (t : Text) : List Text := (t.splitBy fun a b => p a == p b).filter fun r => r.all p

/-- What fits into `n` bytes of UTF-8; of a character that does not fit as a whole, the mark for one that is lost. -/
def within : Nat → Text → Text
  | _, [] => []
  | 0, _ => []
  | n + 1, c :: rest => if c.utf8Size ≤ n + 1 then c :: within (n + 1 - c.utf8Size) rest else ['\uFFFD']

/-- The letters `A` to `Z` in lower case, all else as it is; the length is kept. -/
def fold (t : Text) : Text := t.map Char.toLower

end Text

end Lexkit
