/-
  Lexkit.Proofs.Lookahead — looking ahead, character by character, and without regard to case.

  Looking at a word compares it with as many characters from the cursor on; before the text only the empty word is
  seen, and a word that does not fit before the end is not (`looksAt_iff`). Looking at it without regard to case is
  plain looking on the folded text for the folded word, since folding goes character by character and keeps every
  index where it is (`looksAtFolded_eq`). So it depends on text and word only up to the case of their ASCII letters
  (`folded_look_is_plain`).
-/

import Lexkit.Proofs.Motion
import Mathlib.Data.List.Forall2

namespace Lexkit

/-! ## Case -/

/-- `d` is `c`, perhaps in the other case. Only the letters of ASCII have one. -/
def Recased (c d : Char) : Prop := d = c ∨ d = c.toLower ∨ d = c.toUpper

theorem toNat_toLower (c : Char) : c.toLower.toNat = if 65 ≤ c.toNat ∧ c.toNat ≤ 90 then c.toNat + 32 else c.toNat := by
  have hupper : (c.val ≥ 'A'.val ∧ c.val ≤ 'Z'.val) ↔ (65 ≤ c.toNat ∧ c.toNat ≤ 90) := by
    rw [ge_iff_le, UInt32.le_iff_toNat_le, UInt32.le_iff_toNat_le]
    rfl
  unfold Char.toLower
  by_cases h : c.val ≥ 'A'.val ∧ c.val ≤ 'Z'.val
  · have hn := hupper.mp h
    rw [dif_pos h, if_pos hn]
    show (c.val + 32).toNat = c.toNat + 32
    rw [UInt32.toNat_add]
    show (c.toNat + 32) % 2 ^ 32 = _
    omega
  · rw [dif_neg h, if_neg (mt hupper.mpr h)]

theorem toNat_toUpper (c : Char) : c.toUpper.toNat = if 97 ≤ c.toNat ∧ c.toNat ≤ 122 then c.toNat - 32 else c.toNat := by
  have hlower : ('a'.val ≤ c.val ∧ c.val ≤ 'z'.val) ↔ (97 ≤ c.toNat ∧ c.toNat ≤ 122) := by
    rw [UInt32.le_iff_toNat_le, UInt32.le_iff_toNat_le]
    rfl
  unfold Char.toUpper
  by_cases h : 'a'.val ≤ c.val ∧ c.val ≤ 'z'.val
  · have hn := hlower.mp h
    rw [dif_pos h, if_pos hn]
    -- the words wrap around, so 32 is taken off by adding what is 32 short of a full turn
    show (c.val + 0xFFFFFFE0).toNat = c.toNat - 32
    rw [UInt32.toNat_add]
    show (c.toNat + 0xFFFFFFE0) % 2 ^ 32 = _
    omega
  · rw [dif_neg h, if_neg (mt hlower.mpr h)]

/-- Folding a letter from `A` to `Z` adds 32 to its code; nothing else changes. -/
theorem toLower_eq (c : Char) : c.toLower = if 'A' ≤ c ∧ c ≤ 'Z' then Char.ofNat (c.toNat + 32) else c := by
  have hupper : ('A' ≤ c ∧ c ≤ 'Z') ↔ (65 ≤ c.toNat ∧ c.toNat ≤ 90) := by
    rw [Char.le_def, Char.le_def, UInt32.le_iff_toNat_le, UInt32.le_iff_toNat_le]
    rfl
  have hcode := toNat_toLower c
  by_cases h : 'A' ≤ c ∧ c ≤ 'Z'
  · rw [if_pos (hupper.mp h)] at hcode
    rw [if_pos h, ← hcode, Char.ofNat_toNat]
  · rw [if_neg (mt hupper.mpr h)] at hcode
    rw [if_neg h]
    exact Char.toNat_inj.mp hcode

theorem Recased.toLower_eq {c d : Char} (h : Recased c d) : d.toLower = c.toLower := by
  apply Char.toNat_inj.mp
  rcases h with rfl | rfl | rfl
  · rfl
  · rw [toNat_toLower c.toLower, toNat_toLower c]
    split_ifs <;> omega
  · rw [toNat_toLower c.toUpper, toNat_toUpper c, toNat_toLower c]
    split_ifs <;> omega

namespace Text

theorem length_fold (t : Text) : t.fold.length = t.length := List.length_map _

/-- Texts that differ only in case fold to the same. -/
theorem fold_recased {t u : Text} (h : List.Forall₂ Recased t u) : u.fold = t.fold := by
  induction h with
  | nil => rfl
  | cons hc _ ih =>
    show _ :: fold _ = _ :: fold _
    rw [hc.toLower_eq, ih]

end Text

namespace Scanner

/-! ## Looking ahead -/

theorem looksAt_before {s : Scanner} (h : s.position < 0) (w : Text) : s.looksAt w = true ↔ w = [] := by
  rw [looksAt, window, if_pos h, beq_iff_eq]
  exact eq_comm

/-- A word is seen if it is empty, or if it fits behind the cursor and all its characters stand there. -/
theorem looksAt_iff (s : Scanner) (w : Text) :
    s.looksAt w = true ↔ w = [] ∨ (0 ≤ s.position ∧ s.position + w.length ≤ s.length ∧
      ∀ i < w.length, s.text[s.position.toNat + i]? = w[i]?) := by
  by_cases h : 0 ≤ s.position
  · have hchar : ∀ i, s.rest[i]? = s.text[s.position.toNat + i]? := fun i => List.getElem?_drop
    rw [looksAt_eq_isPrefixOf h, List.isPrefixOf_iff_prefix]
    constructor
    · intro hw
      by_cases hnil : w = []
      · exact Or.inl hnil
      · right
        have hpos : 0 < w.length := List.length_pos_iff.mpr hnil
        have hlen := hw.length_le
        rw [length_rest] at hlen
        refine ⟨h, by omega, ?_⟩
        intro i hi
        rw [← hchar, List.prefix_iff_getElem?.mp hw i hi, List.getElem?_eq_getElem hi]
    · rintro (rfl | ⟨-, -, hw⟩)
      · exact List.nil_prefix
      · apply List.prefix_iff_getElem?.mpr
        intro i hi
        rw [hchar, hw i hi, List.getElem?_eq_getElem hi]
  · have hneg : s.position < 0 := by omega
    rw [looksAt_before hneg]
    exact ⟨Or.inl, fun hw => hw.resolve_right fun k => h k.1⟩

/-! ## Without regard to case -/

theorem window_fold {s u : Scanner} (ht : u.text = s.text.fold) (hp : u.position = s.position) (n : Nat) :
    u.window n = (s.window n).fold := by
  unfold window rest
  by_cases h : s.position < 0
  · rw [hp, if_pos h, if_pos h]
    rfl
  · rw [hp, if_neg h, if_neg h, ht, Text.fold, Text.fold, List.map_take, List.map_drop]

/-- Without regard to case, a word is seen exactly if the folded word is seen on the folded text. -/
theorem looksAtFolded_eq {s u : Scanner} (ht : u.text = s.text.fold) (hp : u.position = s.position) (w : Text) :
    s.looksAtFolded w = u.looksAt w.fold := by
  rw [looksAtFolded, looksAt, w.length_fold, window_fold ht hp]

theorem looksAtFolded_iff (s : Scanner) (w : Text) :
    s.looksAtFolded w = true ↔ w = [] ∨ (0 ≤ s.position ∧ s.position + w.length ≤ s.length ∧
      ∀ i < w.length, s.text.fold[s.position.toNat + i]? = w.fold[i]?) := by
  let u : Scanner := { s with text := s.text.fold }
  have hlen : u.length = s.length := s.text.length_fold
  have hnil : w.fold = [] ↔ w = [] := List.map_eq_nil_iff
  rw [looksAtFolded_eq (u := u) rfl rfl, looksAt_iff, hlen, hnil, w.length_fold]
  rfl

theorem looksAtFolded_of_looksAt {s : Scanner} {w : Text} (h : s.looksAt w = true) : s.looksAtFolded w = true := by
  rw [looksAt, beq_iff_eq] at h
  rw [looksAtFolded, h, beq_iff_eq]

/-- The case of ASCII letters, in the text or in the word, makes no difference. -/
theorem looksAtFolded_recased {s u : Scanner} (ht : List.Forall₂ Recased s.text u.text) (hp : u.position = s.position)
    {w v : Text} (hw : List.Forall₂ Recased w v) : u.looksAtFolded v = s.looksAtFolded w := by
  let f : Scanner := { s with text := s.text.fold }
  calc u.looksAtFolded v
      = f.looksAt v.fold := looksAtFolded_eq (u := f) (Text.fold_recased ht).symm hp.symm v
    _ = f.looksAt w.fold := by rw [Text.fold_recased hw]
    _ = s.looksAtFolded w := (looksAtFolded_eq (u := f) rfl rfl w).symm

/-- Folding puts each letter from `A` to `Z` in lower case and leaves all else as it is. Looking at a word without
    regard to case is plain looking for the folded word at the same place of the folded text. So the word is seen
    if it is empty, or if it fits behind the cursor and its characters, folded, are those that stand there, folded;
    it is seen wherever it is seen with regard to case; and whoever changes the case of ASCII letters in the text or
    in the word changes nothing. -/
theorem folded_look_is_plain (s : Scanner) (w : Text) :
    (∀ t : Text, t.fold = t.map fun c => if 'A' ≤ c ∧ c ≤ 'Z' then Char.ofNat (c.toNat + 32) else c) ∧
    (∀ u : Scanner, u.text = s.text.fold → u.position = s.position → s.looksAtFolded w = u.looksAt w.fold) ∧
    (s.looksAtFolded w = true ↔ w = [] ∨ (0 ≤ s.position ∧ s.position + w.length ≤ s.length ∧
      ∀ i < w.length, s.text.fold[s.position.toNat + i]? = w.fold[i]?)) ∧
    (s.looksAt w = true → s.looksAtFolded w = true) ∧
    (∀ (u : Scanner) (v : Text), List.Forall₂ Recased s.text u.text → u.position = s.position →
      List.Forall₂ Recased w v → u.looksAtFolded v = s.looksAtFolded w) := by
  refine ⟨?_, ?_, looksAtFolded_iff s w, looksAtFolded_of_looksAt, ?_⟩
  · intro t
    exact List.map_congr_left fun c _ => toLower_eq c
  · intro u ht hp
    exact looksAtFolded_eq ht hp w
  · intro u v ht hp hw
    exact looksAtFolded_recased ht hp hw

/-- On `Seß`: a letter beyond ASCII has no case here, and is seen as it stands. -/
theorem folded_look_is_plain_sharp :
    let s : Scanner := { text := ['S', 'e', 'ß'], source := "<string>", cursor := { position := 0 } }
    let u : Scanner := { s with text := ['s', 'e', 'ß'] }
    u.looksAt ['s', 'e', 'ß'] = true ∧ s.looksAtFolded ['s', 'E', 'ß'] = u.looksAt ['s', 'e', 'ß'] ∧
    s.looksAt ['S'] = true ∧ s.looksAtFolded ['S'] = true ∧
    u.looksAtFolded ['S', 'E', 'ß'] = s.looksAtFolded ['s', 'E', 'ß'] := by
  intro s u
  obtain ⟨-, hplain, -, -, hcase⟩ := folded_look_is_plain s ['s', 'E', 'ß']
  have htext : List.Forall₂ Recased s.text u.text :=
    .cons (Or.inr (Or.inl rfl)) (.cons (Or.inl rfl) (.cons (Or.inl rfl) .nil))
  have hword : List.Forall₂ Recased ['s', 'E', 'ß'] ['S', 'E', 'ß'] :=
    .cons (Or.inr (Or.inr rfl)) (.cons (Or.inl rfl) (.cons (Or.inl rfl) .nil))
  exact ⟨rfl, hplain u rfl rfl, rfl, (folded_look_is_plain s ['S']).2.2.2.1 rfl, hcase u _ htext rfl hword⟩

end Scanner

end Lexkit
