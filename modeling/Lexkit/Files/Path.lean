/-
  Lexkit.Files.Path — paths. A path is its components between slashes, from where it starts: empty components and `.`
  mean nothing, `..` is kept, for what it means depends on the directories there are. It starts at the directory one is
  in, or with slashes in front at the root; exactly two in front are a root of their own. Written in normal form the
  components are joined by single slashes behind the root, and a path of nothing is `.`.
-/

import Lexkit.Text.Basic

namespace Lexkit

/-- Where a path starts. -/
inductive Anchor where
  | here
  | root
  | secondRoot
  deriving DecidableEq, Repr

structure Path where
  anchor : Anchor := .here
  parts : List String := []
  deriving DecidableEq, Repr

namespace Path

/-- The anchor that a number of slashes in front stand for. -/
def anchorOf : Nat → Anchor
  | 0 => .here
  | 2 => .secondRoot
  | _ => .root

def ofString (p : String) : Path where
  anchor := anchorOf (p.toList.takeWhile (· == '/')).length
  parts := ((Text.runs (· != '/') p.toList).map String.ofList).filter (· != ".")

def render (p : Path) : String :=
  match p.anchor with
  | .here => if p.parts.isEmpty then "." else "/".intercalate p.parts
  | .root => "/" ++ "/".intercalate p.parts
  | .secondRoot => "//" ++ "/".intercalate p.parts

/-- A path as written, brought into normal form. -/
def normal (p : String) : String := (ofString p).render

end Path

end Lexkit
