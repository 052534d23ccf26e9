/-
  Lexkit.Proofs.Reading — looking ahead sees what reading would come to.

  A word is seen from the cursor exactly if what stands there starts with it, each character looked at as it is or
  with its case folded (`sees_iff`). A read drops the first character of what stands there, so reading as often as a
  word is long leads behind the word (`rest_reads`), and a word in two parts is seen if the first part is and, behind
  it, the second (`sees_append`). Read one by one, starting with the current one, the characters spell the word that
  is seen (`sees_iff_spelled`).
-/

import Lexkit.Proofs.Motion
import Lexkit.Scan.Action
import Mathlib.Data.List.Infix

namespace Lexkit

/-- How a character is looked at. -/
def eye (folded : Bool) : Char → Char := if folded then Char.toLower else id

/-- A text starts with two words, one behind the other. -/
theorem Text.append_prefix_iff {a b l : Text} : a ++ b <+: l ↔ a <+: l ∧ b <+: l.drop a.length := by
  constructor
  · rintro ⟨r, rfl⟩
    simp
  · rintro ⟨⟨r, rfl⟩, hb⟩
    rw [List.drop_left] at hb
    exact List.prefix_append_right_inj a |>.mpr hb

namespace Scanner

/-- Looking at the word says that it is there. -/
def Sees (s : Scanner) (folded : Bool) (w : Text) : Prop := (s.perform (.looksAt w folded)).result = .ok (.flag true)

/-- Where `n` reads lead. -/
def reads (s : Scanner) (n : Nat) : Scanner := s.after (List.replicate n .read)

/-- What asking for the current character comes to, and then `n` reads. -/
def spelled (s : Scanner) (n : Nat) : List (Except Failure Answer) :=
  (s.run (.current :: List.replicate n .read)).map (·.result)

variable {s : Scanner} {folded : Bool} {a b w : Text}

/-! ## What is seen -/

theorem sees_iff_window : s.Sees folded w ↔ (s.window w.length).map (eye folded) = w.map (eye folded) := by
  cases folded <;> simp [Sees, perform, answer, looksAt, looksAtFolded, eye, Text.fold]

theorem sees_before (h : s.position < 0) : s.Sees folded w ↔ w = [] := by
  simp [sees_iff_window, window, h, eq_comm]

theorem sees_iff (h : 0 ≤ s.position) : s.Sees folded w ↔ w.map (eye folded) <+: s.rest.map (eye folded) := by
  have hn : ¬ s.position < 0 := by omega
  rw [sees_iff_window, window, if_neg hn, List.prefix_iff_eq_take, List.length_map, ← List.map_take]
  exact eq_comm

/-! ## Where reading leads -/

theorem reads_succ (s : Scanner) (n : Nat) : s.reads (n + 1) = s.read.2.reads n := rfl

theorem rest_reads (h : 0 ≤ s.position) (n : Nat) : 0 ≤ (s.reads n).position ∧ (s.reads n).rest = s.rest.drop n := by
  induction n generalizing s with
  | zero => exact ⟨h, rfl⟩
  | succ n ih =>
    obtain ⟨hpos, hrest⟩ := ih (Int.le_trans h s.le_position_read)
    rw [reads_succ, hrest, rest_read h, ← List.drop_one, List.drop_drop, Nat.add_comm 1 n]
    exact ⟨hpos, rfl⟩

/-- A word in two parts is seen if the first is and, behind it, the second. -/
theorem sees_append : s.Sees folded (a ++ b) ↔ s.Sees folded a ∧ (s.reads a.length).Sees folded b := by
  by_cases h : 0 ≤ s.position
  · obtain ⟨hpos, hrest⟩ := rest_reads h a.length
    rw [sees_iff h, sees_iff h, sees_iff hpos, hrest, List.map_append, List.map_drop, Text.append_prefix_iff,
      List.length_map]
  · have hneg : s.position < 0 := by omega
    rw [sees_before hneg, sees_before hneg]
    cases a with
    | nil => simp [reads, after, sees_before hneg]
    | cons c a => simp

/-! ## What is read -/

/-- The first read gives the character that is current behind it. -/
theorem spelled_succ (s : Scanner) (n : Nat) :
    s.spelled (n + 1) = .ok (.text s.current?.toList) :: s.read.2.spelled n := rfl

theorem current?_toList_eq_iff (h : 0 ≤ s.position) {c : Char} : s.current?.toList = [c] ↔ s.rest.head? = some c := by
  rw [current?_eq_head h]
  cases s.rest <;> simp

/-- Read from the current character on, the text spells the word that it starts with. -/
theorem spelled_iff (h : 0 ≤ s.position) {c : Char} :
    s.spelled w.length = (c :: w).map (fun x => .ok (.text [x])) ↔ c :: w <+: s.rest := by
  induction w generalizing s c with
  | nil =>
    have hone : s.spelled 0 = [.ok (.text s.current?.toList)] := rfl
    simp only [List.length_nil, hone, List.map_cons, List.map_nil, List.cons.injEq, and_true, Except.ok.injEq,
      Answer.text.injEq, current?_toList_eq_iff h]
    cases s.rest <;> simp [eq_comm]
  | cons d w ih =>
    have hread : 0 ≤ s.read.2.position := Int.le_trans h s.le_position_read
    rw [List.length_cons, spelled_succ, List.map_cons, List.cons.injEq, Except.ok.injEq, Answer.text.injEq,
      current?_toList_eq_iff h, ih hread, rest_read h]
    cases s.rest <;> simp [eq_comm]

theorem sees_iff_spelled {c : Char} :
    s.Sees false (c :: w) ↔ s.spelled w.length = (c :: w).map fun x => .ok (.text [x]) := by
  by_cases h : 0 ≤ s.position
  · have hid : eye false = id := rfl
    rw [sees_iff h, spelled_iff h, hid, List.map_id, List.map_id]
  · -- before the text there is no current character to start the word with
    have hneg : s.position < 0 := by omega
    have hnone : s.current? = none := by simp [current?, Text.nth?, h]
    have hfirst : s.spelled w.length = .ok (.text []) :: (s.run (List.replicate w.length .read)).map (·.result) := by
      simp [spelled, run, perform, answer, hnone]
    simp [sees_before hneg, hfirst]

/-- A word in two parts is seen exactly if the first part is seen and, after as many reads as that has characters,
    the second, with or without regard to case. A word that is not empty is seen with regard to case exactly if its
    characters are the current one and those that reading gives then, one after the other. -/
theorem look_is_reading_ahead (s : Scanner) :
    (∀ folded a b, s.Sees folded (a ++ b) ↔
      s.Sees folded a ∧ (s.after (List.replicate a.length .read)).Sees folded b) ∧
    ∀ c w, s.Sees false (c :: w) ↔
      (s.run (.current :: List.replicate w.length .read)).map (·.result) = (c :: w).map fun x => .ok (.text [x]) :=
  ⟨fun _ _ _ => sees_append, fun _ _ => sees_iff_spelled⟩

/-- On `ab` before its last character: the word `b` is seen and read, and nothing but the empty word behind it. -/
example :
    let s : Scanner := { text := ['a', 'b'], source := "<string>", cursor := { position := 1 } }
    (s.perform (.looksAt ['B'] true)).result = .ok (.flag true) ∧
    ((s.after [.read]).perform (.looksAt [] true)).result = .ok (.flag true) ∧
    ((s.after [.read, .read]).perform (.looksAt ['b'] false)).result = .ok (.flag false) := by
  decide

end Scanner

end Lexkit
