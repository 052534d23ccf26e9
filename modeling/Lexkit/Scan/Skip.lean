/-
  Lexkit.Scan.Skip — moving over what carries no meaning, and looking at what comes next. A skip
  leaves the cursor on the first character it does not skip, and says whether it skipped any; stepping
  from before the text onto its first character is not skipping. Looking ahead compares the text from
  the cursor on with a given one; before the text only the empty text is seen.
-/

import Lexkit.Scan.State

namespace Lexkit.Scanner

open Lexkit.Alphabet

def skipWhile (p : Char → Bool) (s : Scanner) : Bool × Scanner :=
  let run := s.rest.takeWhile p
  (!run.isEmpty, s.moveTo (max s.position 0 + run.length))

def skipBlanks (s : Scanner) : Bool × Scanner := s.skipWhile isBlank

def skipLineBlanks (s : Scanner) : Bool × Scanner := s.skipWhile isLineBlank

/-- Up to the end of the line, which is not skipped. -/
def skipToLineEnd (s : Scanner) : Bool × Scanner := s.skipWhile fun c => !endsLine c

/-- The next `n` characters, the current one first, or as many as are left. -/
def window (s : Scanner) (n : Nat) : Text := if s.position < 0 then [] else s.rest.take n

def looksAt (s : Scanner) (t : Text) : Bool := s.window t.length == t

/-- As `looksAt`, the case of ASCII letters aside. -/
def looksAtFolded (s : Scanner) (t : Text) : Bool := (s.window t.length).fold == t.fold

/-! ## What a skip leaves -/

theorem rest_moveTo (s : Scanner) (p : Int) : (s.moveTo p).rest = s.text.drop p.toNat := rfl

theorem rest_skipWhile (p : Char → Bool) (s : Scanner) : (s.skipWhile p).2.rest = s.rest.dropWhile p := by
  have h : (max s.position 0 + ((s.rest.takeWhile p).length : Int)).toNat =
      s.position.toNat + (s.rest.takeWhile p).length := by omega
  have hd : s.rest.drop (s.rest.takeWhile p).length = s.rest.dropWhile p := by
    calc s.rest.drop (s.rest.takeWhile p).length
        = (s.rest.takeWhile p ++ s.rest.dropWhile p).drop (s.rest.takeWhile p).length := by
          rw [List.takeWhile_append_dropWhile]
      _ = s.rest.dropWhile p := List.drop_left
  rw [skipWhile, rest_moveTo, h, ← List.drop_drop]
  exact hd

theorem head_rest_of_current {s : Scanner} {c : Char} (h : s.current? = some c) :
    0 ≤ s.position ∧ s.rest.head? = some c := by
  unfold current? Text.nth? at h
  split at h
  · exact ⟨by assumption, by rw [rest, List.head?_drop]; exact h⟩
  · cases h

end Lexkit.Scanner
