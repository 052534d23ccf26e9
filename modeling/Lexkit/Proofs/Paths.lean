/-
  Lexkit.Proofs.Paths — paths in normal form, and what a path leads to in a tree.

  What is said of the components of a path rests on two equations for the runs of a text: what is in front of a run is
  skipped (`runs_skip`), and a run is taken as a whole (`runs_take`). So words with one separator between each two are
  read back (`runs_intercalate`), and so is a path whose components are such as they are read (`Plain`), whatever it
  starts from (`ofString_render`). A path as written and its normal form are the same path (`ofString_normal`), and two
  of them are the same path if they have the same normal form (`normal_eq_iff`).

  In a tree, a path of components that go down leads to the file that is listed there (`read?_plain`), and a component
  that `..` follows is a detour through a directory (`walk_detour`).
-/

import Lexkit.Files.Tree
import Mathlib.Data.List.Pairwise
import Mathlib.Data.List.SplitBy
import Mathlib.Data.List.TakeWhile

namespace Lexkit

/-! ## The runs of a text -/

namespace Text

variable {p : Char → Bool} {u v w : Text}

/-- A piece of one class, where the next character is not of it, is one of the pieces a text is split into. -/
theorem splitBy_piece {b : Bool} (hne : w ≠ []) (hw : ∀ c ∈ w, p c = b) (hv : ∀ c ∈ v.head?, p c = !b) :
    (w ++ v).splitBy (fun c d => p c == p d) = w :: v.splitBy fun c d => p c == p d := by
  have hchain : w.IsChain fun c d => (p c == p d) = true := by
    apply List.Pairwise.isChain
    apply List.pairwise_of_forall_mem_list
    intro c hc d hd
    rw [hw c hc, hw d hd, beq_self_eq_true]
  rw [List.splitBy_append, List.splitBy_of_isChain hne hchain, List.singleton_append]
  intro c hc d hd
  rw [hw c (List.mem_of_getLast? hc), hv d hd]
  exact Bool.beq_not_self b

/-- What is in front of a run is skipped. -/
theorem runs_skip (hu : ∀ c ∈ u, p c = false) (hv : ∀ c ∈ v.head?, p c = true) : runs p (u ++ v) = runs p v := by
  cases u with
  | nil => rfl
  | cons c u =>
    have hc : (c :: u).all p = false := by rw [List.all_cons, hu c List.mem_cons_self, Bool.false_and]
    rw [runs, splitBy_piece (List.cons_ne_nil c u) hu hv, List.filter_cons_of_neg (by simp [hc])]
    rfl

/-- A run is taken as a whole. -/
theorem runs_take (hne : w ≠ []) (hw : ∀ c ∈ w, p c = true) (hv : ∀ c ∈ v.head?, p c = false) :
    runs p (w ++ v) = w :: runs p v := by
  have hall : w.all p = true := List.all_eq_true.mpr hw
  rw [runs, splitBy_piece hne hw hv, List.filter_cons_of_pos (by simp [hall])]
  rfl

theorem runs_cons_of_not {c : Char} (hc : p c = false) (t : Text) : runs p (c :: t) = runs p t := by
  have hfront : ∀ d ∈ t.takeWhile (!p ·), p d = false := fun d hd => by simpa using List.mem_takeWhile_imp hd
  have hrest : ∀ d ∈ (t.dropWhile (!p ·)).head?, p d = true := by
    intro d hd
    have hnot := List.head?_dropWhile_not (!p ·) t
    rw [Option.mem_def.mp hd] at hnot
    simpa using hnot
  have hsplit : t = t.takeWhile (!p ·) ++ t.dropWhile (!p ·) := List.takeWhile_append_dropWhile.symm
  rw [hsplit, ← List.cons_append, runs_skip hfront hrest, runs_skip (List.forall_mem_cons.mpr ⟨hc, hfront⟩) hrest]

theorem of_mem_runs {t : Text} (h : w ∈ runs p t) : w ≠ [] ∧ ∀ c ∈ w, p c = true := by
  obtain ⟨hsplit, hall⟩ := List.mem_filter.mp h
  exact ⟨List.ne_nil_of_mem_splitBy hsplit, List.all_eq_true.mp hall⟩

theorem head_intercalate {sep : Char} {ws : List Text} (h : ∀ w ∈ ws, w ≠ [] ∧ ∀ c ∈ w, p c = true) :
    ∀ c ∈ (List.intercalate [sep] ws).head?, p c = true := by
  cases ws with
  | nil => simp
  | cons w ws =>
    obtain ⟨⟨hne, hw⟩, -⟩ := List.forall_mem_cons.mp h
    obtain ⟨c, w, rfl⟩ := List.exists_cons_of_ne_nil hne
    cases ws <;> simpa using hw c List.mem_cons_self

/-- Words with one separator between each two are the runs of the text they make. -/
theorem runs_intercalate {sep : Char} (hsep : p sep = false) {ws : List Text}
    (h : ∀ w ∈ ws, w ≠ [] ∧ ∀ c ∈ w, p c = true) : runs p (List.intercalate [sep] ws) = ws := by
  induction ws with
  | nil => rfl
  | cons w ws ih =>
    obtain ⟨⟨hne, hw⟩, hmore⟩ := List.forall_mem_cons.mp h
    cases ws with
    | nil =>
      have hlast : runs p (w ++ []) = w :: runs p [] := runs_take hne hw (by simp)
      rw [List.intercalate_singleton, ← List.append_nil w, hlast, List.append_nil]
      rfl
    | cons x ws =>
      rw [List.intercalate_cons_cons, List.append_assoc, List.singleton_append]
      rw [runs_take hne hw (by simpa using hsep), runs_cons_of_not hsep, ih hmore]

end Text

/-! ## Normal forms -/

namespace Path

/-- The components are as they are read: not empty, no dot, without slashes. -/
def Plain (p : Path) : Prop := ∀ c ∈ p.parts, c ≠ "." ∧ c.toList ≠ [] ∧ ∀ x ∈ c.toList, (x != '/') = true

theorem ofString_plain (p : String) : (ofString p).Plain := by
  intro c hc
  obtain ⟨hc, hdot⟩ := List.mem_filter.mp hc
  obtain ⟨w, hw, rfl⟩ := List.mem_map.mp hc
  obtain ⟨hne, hslash⟩ := Text.of_mem_runs hw
  rw [String.toList_ofList]
  exact ⟨by simpa using hdot, hne, hslash⟩

/-- Slashes in front and plain components joined by single ones. -/
theorem ofString_slashes (n : Nat) {parts : List String} (h : Plain ⟨.here, parts⟩) :
    ofString (String.ofList (List.replicate n '/' ++ List.intercalate ['/'] (parts.map String.toList))) =
      ⟨anchorOf n, parts⟩ := by
  have hwords : ∀ w ∈ parts.map String.toList, w ≠ [] ∧ ∀ x ∈ w, (x != '/') = true :=
    List.forall_mem_map.mpr fun c hc => (h c hc).2
  have hhead : ∀ x ∈ (List.intercalate ['/'] (parts.map String.toList)).head?, (x != '/') = true :=
    Text.head_intercalate hwords
  have hfront : (List.replicate n '/' ++ List.intercalate ['/'] (parts.map String.toList)).takeWhile (· == '/') =
      List.replicate n '/' := by
    rw [List.takeWhile_append_of_pos (by simp)]
    generalize List.intercalate ['/'] (parts.map String.toList) = body at hhead
    cases body with
    | nil => simp
    | cons c body => simp_all
  have hparts : (parts.map String.toList).map String.ofList = parts := by simp
  have hdots : parts.filter (· != ".") = parts := List.filter_eq_self.mpr fun c hc => by simpa using (h c hc).1
  rw [ofString, String.toList_ofList, hfront, List.length_replicate, Text.runs_skip (by simp) hhead,
    Text.runs_intercalate rfl hwords, hparts, hdots]

theorem ofString_render {p : Path} (h : p.Plain) : ofString p.render = p := by
  obtain ⟨anchor, parts⟩ := p
  have hjoin (n : Nat) : String.ofList (List.replicate n '/') ++ "/".intercalate parts =
      String.ofList (List.replicate n '/' ++ List.intercalate ['/'] (parts.map String.toList)) := by
    rw [← String.toList_inj]
    simp
  cases anchor with
  | here =>
    by_cases hnil : parts = []
    · subst hnil
      decide +kernel
    · have hform : render ⟨.here, parts⟩ = "/".intercalate parts := if_neg (by simpa using hnil)
      have hnone : "/".intercalate parts = String.ofList (List.replicate 0 '/') ++ "/".intercalate parts := by simp
      rw [hform, hnone, hjoin]
      exact ofString_slashes 0 h
  | root => exact (congrArg ofString (hjoin 1)).trans (ofString_slashes 1 h)
  | secondRoot => exact (congrArg ofString (hjoin 2)).trans (ofString_slashes 2 h)

/-- A path and its normal form are the same path. -/
theorem ofString_normal (p : String) : ofString (normal p) = ofString p := ofString_render (ofString_plain p)

theorem normal_eq_iff {p q : String} : normal p = normal q ↔ ofString p = ofString q := by
  constructor
  · intro h
    rw [← ofString_normal p, h, ofString_normal]
  · exact congrArg render

/-- Slashes and dots that mean nothing are dropped; two slashes in front mean something else than one or three. -/
example : normal "a//./../b/" = "a/../b" ∧ normal "//a/" = "//a" ∧ normal "///a" = "/a" ∧ normal "./" = "." := by
  decide +kernel

end Path

/-! ## The files of a tree -/

namespace Tree

variable {t : Tree}

/-- Everything above a listed file is a directory. -/
theorem isDir_above {here more : Place} {c : String} {b : Bytes} (h : (here ++ c :: more, b) ∈ t.files) :
    t.isDir here = true := by
  have habove : here.isPrefixOf (here ++ c :: more) = true := List.isPrefixOf_iff_prefix.mpr (List.prefix_append _ _)
  have hproper : here ≠ here ++ c :: more := fun he => by simpa using congrArg List.length he
  have hany : (t.files.any fun f => here.isPrefixOf f.1 && here != f.1) = true :=
    List.any_eq_true.mpr ⟨_, h, by simp [habove, hproper]⟩
  rw [isDir, hany, Bool.or_true]

theorem mem_files_of_file? {p : Place} {b : Bytes} (h : t.file? p = some b) : (p, b) ∈ t.files := by
  unfold file? at h
  split at h
  · cases h
  · obtain ⟨before, behind, hfiles, -⟩ := List.lookup_eq_some_iff.mp h
    rw [hfiles]
    exact List.mem_append_right before List.mem_cons_self

/-- Components that never go up lead to the place they spell, if a file is there. -/
theorem walk_plain {here : Place} {p : List String} (hup : ".." ∉ p) :
    (t.walk here p).bind t.file? = t.file? (here ++ p) := by
  induction p generalizing here with
  | nil => rw [walk, Option.bind_some, List.append_nil]
  | cons c more ih =>
    rw [List.mem_cons, not_or] at hup
    have hc : c ≠ ".." := fun he => hup.1 he.symm
    rw [walk]
    by_cases hd : t.isDir here = true
    · rw [if_pos hd, if_neg hc, ih hup.2, List.append_assoc, List.singleton_append]
    · rw [if_neg hd, Option.bind_none]
      -- a file further down would make a directory of the place
      cases hf : t.file? (here ++ c :: more) with
      | none => rfl
      | some b => exact absurd (isDir_above (mem_files_of_file? hf)) hd

/-- A path of plain components leads to the file that is listed there, unless that is a directory. -/
theorem read?_plain {p : Path} (hanchor : p.anchor = .here) (hup : ".." ∉ p.parts) : t.read? p = t.file? p.parts := by
  rw [read?, hanchor]
  exact walk_plain hup

/-- Down into a directory and up again leads nowhere else. -/
theorem walk_detour {here : Place} {c : String} {more : List String} (hc : c ≠ "..") (hhere : t.isDir here = true)
    (hd : t.isDir (here ++ [c]) = true) : t.walk here (c :: ".." :: more) = t.walk here more := by
  rw [walk, if_pos hhere, if_neg hc, walk, if_pos hd, if_pos rfl, List.dropLast_concat]
  exact if_neg (by simp)

end Tree

end Lexkit
