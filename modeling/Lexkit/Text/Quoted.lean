/-
  Lexkit.Text.Quoted — a text as it is shown inside a message: on one line, between quotation
  marks, with an escape for every character that could not be read off the page.

  The marks are single ones, or double ones when the text has a single mark and no double one. A
  backslash and the mark in use are escaped with a backslash, tab and the line ends by their
  letters, every other character that cannot be printed by its code point in as few of two, four
  or eight hexadecimal digits as hold it.
-/

import Lexkit.Text.Printable

namespace Lexkit.Text

open Printable

/-- A digit below 16, letters in lower case. -/
def hexDigit (d : Nat) : Char := if d < 10 then Char.ofNat (0x30 + d) else Char.ofNat (0x57 + d)

/-- The last `width` hexadecimal digits of a number, leading zeros kept. -/
def hexDigits : Nat → Nat → Text
  | 0, _ => []
  | width + 1, n => hexDigits width (n / 16) ++ [hexDigit (n % 16)]

/-- A character that cannot be printed, by its code point. -/
def codeEscape (n : Nat) : Text :=
  if n < 0x100 then '\\' :: 'x' :: hexDigits 2 n
  else if n < 0x10000 then '\\' :: 'u' :: hexDigits 4 n
  else '\\' :: 'U' :: hexDigits 8 n

/-- The mark a text is put in. -/
def mark (t : Text) : Char := if t.contains '\'' && !t.contains '"' then '"' else '\''

section
variable [Printable]

/-- One character between marks `q`. -/
def escape (q c : Char) : Text :=
  if c = q ∨ c = '\\' then ['\\', c]
  else if c = '\t' then ['\\', 't']
  else if c = '\n' then ['\\', 'n']
  else if c = '\r' then ['\\', 'r']
  else if isPrintable c then [c]
  else codeEscape c.toNat

def quotedChars (t : Text) : Text := t.mark :: (t.flatMap (escape t.mark) ++ [t.mark])

def quoted (t : Text) : String := String.ofList t.quotedChars

end

end Lexkit.Text
