/-
  Lexkit.Proofs.LineWalk — two ways to find where lines end. The line breaks of a text are read off the
  whole text at once: every index whose character ends a line, given the one behind it (`breaks_eq_filter`).
  A scanner finds them on its way: it skips to the end of the line, steps over the carriage return of a
  pair, notes where it stands and reads on (`lineEnds`). The walk from any place finds the breaks from there
  on, line by line (`lineEnds_step`, `lineEnds_from`), so from the start it finds them all (`lineEnds_are_breaks`).
-/

import Lexkit.Proofs.Motion
import Mathlib.Data.List.TakeWhile

namespace Lexkit

open Lexkit.Alphabet

/-! ## The breaks of a text -/

namespace Lines

theorem breaksFrom_eq_filter (i : Nat) (t : Text) :
    breaksFrom i t = ((List.range t.length).filter fun k => t[k]?.any (breaksAt · t[k + 1]?)).map (i + ·) := by
  induction t generalizing i with
  | nil => rfl
  | cons c t ih =>
    have hs : ((i + ·) ∘ Nat.succ) = ((i + 1) + ·) := by
      funext k
      show i + (k + 1) = i + 1 + k
      omega
    rw [breaksFrom, ih, List.length_cons, List.range_succ_eq_map, List.filter_cons, List.filter_map,
      List.head?_eq_getElem?]
    simp only [List.getElem?_cons_zero, Option.any_some, List.getElem?_cons_succ, Nat.zero_add]
    split
    · rw [List.map_cons, List.map_map, hs]
      rfl
    · rw [List.map_map, hs]
      rfl

/-- The breaks are the indices whose character ends a line, given the one behind it. -/
theorem breaks_eq_filter (t : Text) :
    (of t).breaks = (List.range t.length).filter fun k => t[k]?.any (breaksAt · t[k + 1]?) := by
  show breaksFrom 0 t = _
  simp [breaksFrom_eq_filter]

/-- In full: a line feed, or a carriage return that no line feed follows. -/
theorem breaks_eq_mask (t : Text) :
    (of t).breaks = (List.range t.length).filter fun k =>
      decide (t[k]? = some '\n' ∨ t[k]? = some '\r' ∧ t[k + 1]? ≠ some '\n') := by
  rw [breaks_eq_filter]
  refine List.filter_congr fun k hk => ?_
  rw [Bool.eq_iff_iff, decide_eq_true_eq, List.getElem?_eq_getElem (List.mem_range.mp hk)]
  simp [breaksAt]

theorem breaks_ascend (t : Text) : (of t).breaks.Pairwise (· < ·) := by
  rw [breaks_eq_filter]
  exact List.pairwise_lt_range.filter _

theorem breaks_inside {t : Text} {b : Nat} (h : b ∈ (of t).breaks) : b < t.length := by
  rw [breaks_eq_filter] at h
  exact List.mem_range.mp (List.mem_filter.mp h).1

/-- Up to the end of the line nothing breaks. -/
theorem breaksFrom_line (i : Nat) (t : Text) :
    breaksFrom i t = breaksFrom (i + t.findIdx endsLine) (t.drop (t.findIdx endsLine)) := by
  induction t generalizing i with
  | nil => rfl
  | cons c t ih =>
    cases h : endsLine c with
    | true => rw [List.findIdx_cons, h]; rfl
    | false =>
      have hb : breaksAt c t.head? = false := by
        simp only [endsLine, Bool.or_eq_false_iff] at h
        simp [breaksAt, h]
      rw [List.findIdx_cons, h, breaksFrom, hb, ih]
      show breaksFrom (i + 1 + _) _ = breaksFrom (i + (_ + 1)) _
      rw [Nat.add_assoc, Nat.add_comm 1]
      rfl

/-- There the line breaks: at once, or one further where a line feed follows a carriage return. -/
theorem breaksFrom_end {c : Char} (h : endsLine c = true) (i : Nat) (t : Text) :
    breaksFrom i (c :: t) =
      if c = '\r' ∧ t.head? = some '\n' then (i + 1) :: breaksFrom (i + 2) t.tail else i :: breaksFrom (i + 1) t := by
  by_cases hp : c = '\r' ∧ t.head? = some '\n'
  · rw [if_pos hp]
    obtain ⟨rfl, hn⟩ := hp
    obtain ⟨r, rfl⟩ := List.head?_eq_some_iff.mp hn
    rfl
  · rw [if_neg hp, breaksFrom]
    have hb : breaksAt c t.head? = true := by
      simp only [endsLine, Bool.or_eq_true, beq_iff_eq] at h
      rcases h with rfl | rfl
      · simpa [breaksAt] using hp
      · rfl
    rw [if_pos hb]

/-- Past every break the line is the last one. -/
theorem locate_end (l : Lines) {n : Nat} (h : ∀ b ∈ l.breaks, b < n) : (l.locate n).line = l.count := by
  have ht : l.breaks.takeWhile (· < n) = l.breaks := List.takeWhile_eq_self_iff.mpr (by simpa using h)
  have hn : ¬ (n : Int) < 0 := by omega
  simp only [locate, if_neg hn, Int.toNat_natCast, ht, count]
  cases hl : l.breaks.getLast? with
  | none => rw [List.getLast?_eq_none_iff.mp hl]; rfl
  | some b => rfl

end Lines

namespace Scanner

/-! ## The walk -/

/-- On the last character of a line's end: the second one, for a carriage return and a line feed. -/
def ontoBreak (s : Scanner) : Scanner :=
  if s.current? = some '\r' ∧ s.next? = some '\n' then s.read.2 else s

/-- Behind the end of a line there is less text. -/
theorem ontoBreak_progress {s : Scanner} (h0 : 0 ≤ s.position) (h : ¬ s.atEnd = true) :
    s.ontoBreak.read.2.rest.length < s.rest.length := by
  have hpos : 0 < s.rest.length := by
    rw [atEnd_eq_isEmpty h0, List.isEmpty_iff] at h
    exact List.length_pos_iff.mpr h
  unfold ontoBreak
  split
  · rw [rest_read (Int.le_trans h0 s.le_position_read), rest_read h0, List.length_tail, List.length_tail]
    omega
  · rw [rest_read h0, List.length_tail]
    omega

/-- Line by line to the end of the text: the indices where lines end, and the scanner there. -/
def lineEnds (s : Scanner) : List Int × Scanner :=
  let t := s.skipToLineEnd.2
  if t.atEnd then ([], t)
  else
    let u := t.ontoBreak
    let walk := u.read.2.lineEnds
    (u.position :: walk.1, walk.2)
termination_by s.rest.length
decreasing_by
  refine Nat.lt_of_lt_of_le (ontoBreak_progress ?_ ‹_›) ?_
  · rw [skipToLineEnd_moves]
    exact Int.natCast_nonneg _
  · rw [skipToLineEnd, rest_skipWhile]
    exact (List.dropWhile_sublist _).length_le

/-- Where a line ends, the walk notes the next break of the text and goes on behind it. -/
theorem ontoBreak_breaks {s : Scanner} {i : Nat} {c : Char} {r : Text} (hp : s.position = i) (hr : s.rest = c :: r)
    (hc : endsLine c = true) :
    ∃ k : Nat, s.ontoBreak = s.moveTo k ∧ i ≤ k ∧ k < s.length ∧
      Lines.breaksFrom i s.rest = k :: Lines.breaksFrom (k + 1) (s.text.drop (k + 1)) := by
  have h0 : 0 ≤ s.position := by omega
  have hi : s.position.toNat = i := by omega
  have hlen : s.rest.length = s.length - i := by rw [length_rest, hi]
  have hdrop : ∀ n, s.text.drop (i + n) = s.rest.drop n := fun n => by rw [drop_rest, hi]
  have hb := Lines.breaksFrom_end hc i r
  rw [← hr] at hb
  have hcond : (s.current? = some '\r' ∧ s.next? = some '\n') ↔ (c = '\r' ∧ r.head? = some '\n') := by
    rw [current?_eq_head h0, next?_eq_head h0, hr, List.head?_cons, List.tail_cons, Option.some.injEq]
  rw [ontoBreak, hb]
  by_cases h : c = '\r' ∧ r.head? = some '\n'
  · obtain ⟨q, hq⟩ := List.head?_eq_some_iff.mp h.2
    have h2 : i + 1 < s.length := by
      rw [hr, hq, List.length_cons, List.length_cons] at hlen
      omega
    rw [if_pos (hcond.mpr h), if_pos h, read_eq_moveTo (by omega), hp]
    refine ⟨i + 1, rfl, Nat.le_succ i, h2, ?_⟩
    rw [Nat.add_assoc, hdrop, hr, hq]
    rfl
  · rw [if_neg (mt hcond.mp h), if_neg h]
    have h1 : i < s.length := by
      rw [hr, List.length_cons] at hlen
      omega
    refine ⟨i, (moveTo_self hp).symm, Nat.le_refl i, h1, ?_⟩
    rw [hdrop, hr]
    rfl

/-- One line of the walk: it ends at the end of the text with no break left, or it notes the next break and
    goes on behind it. -/
theorem lineEnds_step {s : Scanner} (h : s.position ≤ s.length) :
    (s.lineEnds = ([], s.moveTo s.length) ∧ Lines.breaksFrom s.position.toNat s.rest = []) ∨
    (∃ k : Nat, s.position.toNat ≤ k ∧ k < s.length ∧
      s.lineEnds = ((k : Int) :: (s.moveTo (k + 1 : Nat)).lineEnds.1, (s.moveTo (k + 1 : Nat)).lineEnds.2) ∧
      Lines.breaksFrom s.position.toNat s.rest = k :: Lines.breaksFrom (k + 1) (s.text.drop (k + 1))) := by
  -- `t` stands where the line ends, on the index `j`
  let j := s.position.toNat + s.rest.findIdx endsLine
  let t := s.moveTo j
  have ht : s.skipToLineEnd.2 = t := s.skipToLineEnd_moves
  have h0 : 0 ≤ t.position := Int.natCast_nonneg j
  have hb : Lines.breaksFrom s.position.toNat s.rest = Lines.breaksFrom j t.rest := by
    rw [Lines.breaksFrom_line, drop_rest]
    rfl
  rw [lineEnds, hb]
  simp only [ht]
  cases hl : t.rest with
  | nil =>
    have hend : j = s.length := by
      have hle : s.rest.findIdx endsLine ≤ s.rest.length := List.findIdx_le_length
      have hnil : t.rest.length = s.length - j := t.length_rest
      rw [length_rest] at hle
      rw [hl, List.length_nil] at hnil
      omega
    rw [if_pos (by rw [atEnd_eq_isEmpty h0, hl]; rfl), ← hend]
    exact Or.inl ⟨rfl, rfl⟩
  | cons c r =>
    have hc : endsLine c = true := by
      have hs : ∀ c ∈ t.rest.head?, (!endsLine c) = false := by rw [← ht]; exact skipWhile_stops _ s
      simpa using hs c (by rw [hl]; rfl)
    obtain ⟨k, hk, hjk, hkl, hbk⟩ := ontoBreak_breaks (s := t) rfl hl hc
    have hread : t.ontoBreak.read.2 = s.moveTo (k + 1 : Nat) := by
      rw [hk]
      exact read_eq_moveTo (Int.ofNat_lt.mpr hkl)
    rw [if_neg (by rw [atEnd_eq_isEmpty h0, hl]; simp), hread, hk, ← hl]
    exact Or.inr ⟨k, Nat.le_trans (Nat.le_add_right _ _) hjk, hkl, rfl, hbk⟩

/-- From any place on, the walk finds the breaks from there on and ends at the end of the text. -/
theorem lineEnds_from {s : Scanner} (h : s.position ≤ s.length) :
    s.lineEnds = ((Lines.breaksFrom s.position.toNat s.rest).map Int.ofNat, s.moveTo s.length) := by
  generalize hn : s.rest.length = n
  induction n using Nat.strongRecOn generalizing s with
  | _ n ih =>
    rcases lineEnds_step h with ⟨hw, hb⟩ | ⟨k, hsk, hkl, hw, hb⟩
    · rw [hw, hb]
      rfl
    · have hshort : (s.moveTo (k + 1 : Nat)).rest.length < n := by
        rw [length_rest] at hn ⊢
        show s.length - (k + 1) < n
        omega
      have hrest := ih _ hshort (s := s.moveTo (k + 1 : Nat)) (Int.ofNat_le.mpr hkl) rfl
      rw [hw, hb, hrest]
      rfl

/-- The walk over a text from its start ends at the end of the text, on its last line, and notes exactly
    the breaks of the text: the indices of line feeds and of carriage returns that no line feed follows. They
    ascend and lie inside the text, one for each line but the last. -/
theorem lineEnds_are_breaks (t : Text) (source : Option String) (o : Options) (s : Scanner)
    (h : start (.text t) source o = .ok s) :
    s.lineEnds.1 = (Lines.of t).breaks.map Int.ofNat ∧
    (Lines.of t).breaks = ((List.range t.length).filter fun k =>
      decide (t[k]? = some '\n' ∨ t[k]? = some '\r' ∧ t[k + 1]? ≠ some '\n')) ∧
    (Lines.of t).breaks.Pairwise (· < ·) ∧
    (∀ b ∈ (Lines.of t).breaks, b < t.length) ∧ s.lineEnds.1.length + 1 = (Lines.of t).count ∧
    s.lineEnds.2.position = t.length ∧ s.lineEnds.2.location.line = (Lines.of t).count := by
  obtain ⟨-, rfl⟩ := start_ok h
  rw [lineEnds_from (by show (-1 : Int) ≤ _; omega)]
  refine ⟨rfl, Lines.breaks_eq_mask t, Lines.breaks_ascend t, fun b => Lines.breaks_inside, ?_, rfl, ?_⟩
  · rw [List.length_map]
    rfl
  · exact Lines.locate_end _ fun b => Lines.breaks_inside

/-- On a text with a lone carriage return, a pair and a line feed at its end. -/
theorem lineEnds_are_breaks_mixed :
    ∃ s, start (.text ['a', '\r', '\r', '\n', 'b', '\n']) none {} = .ok s ∧ s.lineEnds.1 = [1, 3, 5] ∧
      s.lineEnds.2.location.line = 4 := by
  obtain ⟨h1, -, -, -, -, -, h2⟩ := lineEnds_are_breaks ['a', '\r', '\r', '\n', 'b', '\n'] none {} _ rfl
  exact ⟨_, rfl, h1, h2⟩

end Scanner

end Lexkit
