/-
  Lexkit.Files.Tree — the files below a directory. A tree lists its files with their bytes and its
  directories; the directories above a file or a listed directory exist too, and so does the root `[]`.

  A path is walked from the root: a component goes down into an existing directory, `..` goes up one.
  The walk never leaves the tree: above the root there is nothing, and nothing lies below a file.

  A host on a tree has it for the directory one is in, and no file anywhere else. Its files can all be
  read; a host with files that cannot, or with links, is no tree.
-/

import Lexkit.Files.Host

namespace Lexkit

/-- The components that lead to a place from the root of a tree. -/
abbrev Place := List String

structure Tree where
  files : List (Place × Bytes) := []
  dirs : List Place := []
  deriving DecidableEq, Repr

namespace Tree

/-- A tree from paths as written. -/
def ofLists (files : List (String × Bytes)) (dirs : List String) : Tree :=
  ⟨files.map fun f => ((Path.ofString f.1).parts, f.2), dirs.map fun d => (Path.ofString d).parts⟩

/-- The directories are the root, those listed, and all that lie above something. -/
def isDir (t : Tree) (p : Place) : Bool :=
  p.isEmpty || t.dirs.any p.isPrefixOf || t.files.any fun f => p.isPrefixOf f.1 && p != f.1

/-- The bytes of the file at a place. A directory is no file. -/
def file? (t : Tree) (p : Place) : Option Bytes := if t.isDir p then none else t.files.lookup p

/-- The place that components lead to from the directory `here`; all but the last are directories. -/
def walk (t : Tree) (here : Place) : List String → Option Place
  | [] => some here
  | c :: more =>
    if t.isDir here then
      if c = ".." then if here.isEmpty then none else t.walk here.dropLast more
      else t.walk (here ++ [c]) more
    else none

/-- The bytes of the file that a path leads to. -/
def read? (t : Tree) (p : Path) : Option Bytes :=
  match p.anchor with
  | .here => (t.walk [] p.parts).bind t.file?
  | .root | .secondRoot => none

def host (t : Tree) : Host where
  isFile p := .ok (t.read? p).isSome
  readBytes p := .ok ((t.read? p).getD [])
  here_no_file := by
    -- the path of nothing leads to the root, which is a directory
    have hroot : t.read? {} = none := by simp [read?, walk, file?, isDir]
    simp [hroot]

end Tree

end Lexkit
