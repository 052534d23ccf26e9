/-
  Lexkit.Text.Comment — block comments: what opens one, what closes one, and where one that was opened
  ends. It ends at the first closer, whatever stands before it, so comments do not nest.
-/

import Lexkit.Text.Basic

namespace Lexkit.Comment

def opener : Text := ['/', '*']

def closer : Text := ['*', '/']

/-- The piece that ends with the first closer. -/
def throughCloser? : Text → Option Text
  | [] => none
  | c :: rest =>
    if closer.isPrefixOf (c :: rest) then some closer else (throughCloser? rest).map (c :: ·)

end Lexkit.Comment
