/-
  Lexkit.Text.Literal — the values a caller may pass where a single character is wanted, and how a
  message shows them. Only a text of exactly one character is one. A value that is none of the plain
  ones shows itself in a form of its own, whatever characters that has.
-/

import Lexkit.Text.Quoted

namespace Lexkit

inductive Literal where
  | absent
  | flag (b : Bool)
  | number (n : Int)
  | text (t : Text)
  /-- Any other value, by the form it shows itself in. -/
  | other (shown : String)
  deriving DecidableEq, Repr

namespace Literal

def single? : Literal → Option Char
  | .text [c] => some c
  | _ => none

def render [Printable] : Literal → String
  | .absent => "None"
  | .flag true => "True"
  | .flag false => "False"
  | .number n => Int.repr n
  | .text t => t.quoted
  | .other shown => shown

end Literal

end Lexkit
