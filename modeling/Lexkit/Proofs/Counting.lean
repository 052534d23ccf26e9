/-
  Lexkit.Proofs.Counting — a location is what counting the lines gives.

  The location of an index is looked up in the ascending list of breaks: the number of breaks before it
  gives the line, the last of them the column (`locate_of_inserts`). Going one index on adds the index that
  was left to the breaks before, if it is one, and nothing otherwise (`before_succ`). So the location
  counts: it starts at `1:1`, a break starts the next line at its first column, and everything else,
  also past the end of the text, is one column further (`locate_succ`). Each step leads to a later location
  (`locate_lt_succ`), so later indices have later locations (`locate_lt`) and no two share one.
-/

import Lexkit.Proofs.LineWalk
import Mathlib.Algebra.Order.SuccPred
import Mathlib.Data.Int.SuccPred
import Mathlib.Data.Prod.Lex
import Mathlib.Order.Interval.Set.OrdConnected

namespace Lexkit

/-- What locations are ordered by: the line, and in a line the column. -/
def Location.key (l : Location) : Nat ×ₗ Nat := toLex (l.line, l.column)

namespace Lines

/-! ## The breaks before an index -/

/-- The breaks before an index. -/
def before (l : Lines) (p : Nat) : List Nat := l.breaks.takeWhile (· < p)

/-- `k` is where a search from the left puts `p` in among the breaks: behind all smaller ones, before
    every other. -/
structure InsertsAt (l : Lines) (p k : Nat) : Prop where
  inside : k ≤ l.breaks.length
  smaller : ∀ b ∈ l.breaks.take k, b < p
  others : ∀ b ∈ l.breaks.drop k, p ≤ b

theorem lt_of_mem_before {l : Lines} {p b : Nat} (h : b ∈ l.before p) : b < p := by
  simpa using List.mem_takeWhile_imp h

theorem takeWhile_lt_nil {bs : List Nat} {p : Nat} (h : ∀ b ∈ bs, p ≤ b) : bs.takeWhile (· < p) = [] := by
  cases bs with
  | nil => rfl
  | cons b bs =>
    have hb : ¬ b < p := Nat.not_lt.mpr (h b List.mem_cons_self)
    rw [List.takeWhile_cons_of_neg (by simpa using hb)]

/-- In an ascending list the numbers below `p + 1` are those below `p`, and `p` if it is there. -/
theorem takeWhile_lt_succ {bs : List Nat} (h : bs.Pairwise (· < ·)) (p : Nat) :
    bs.takeWhile (· < p + 1) = bs.takeWhile (· < p) ++ if p ∈ bs then [p] else [] := by
  induction bs with
  | nil => rfl
  | cons b bs ih =>
    obtain ⟨hb, hbs⟩ := List.pairwise_cons.mp h
    have hall : ∀ c ∈ b :: bs, b ≤ c := by
      intro c hc
      rcases List.mem_cons.mp hc with rfl | hc
      · exact Nat.le_refl c
      · exact Nat.le_of_lt (hb c hc)
    rcases Nat.lt_trichotomy b p with hlt | rfl | hgt
    · have hm : p ∈ b :: bs ↔ p ∈ bs := by simp [List.mem_cons, Nat.ne_of_gt hlt]
      simp only [List.takeWhile_cons, hlt, Nat.lt_succ_of_lt hlt, decide_true, if_true, ih hbs, hm, List.cons_append]
    · rw [takeWhile_lt_nil hall, List.takeWhile_cons_of_pos (by simp), takeWhile_lt_nil hb,
        if_pos List.mem_cons_self]
      rfl
    · have hm : p ∉ b :: bs := fun hp => Nat.not_le_of_lt hgt (hall p hp)
      rw [takeWhile_lt_nil fun c hc => Nat.le_trans hgt (hall c hc),
        takeWhile_lt_nil fun c hc => Nat.le_trans (Nat.le_of_lt hgt) (hall c hc), if_neg hm]
      rfl

theorem before_succ {l : Lines} (h : l.breaks.Pairwise (· < ·)) (p : Nat) :
    l.before (p + 1) = l.before p ++ if p ∈ l.breaks then [p] else [] := takeWhile_lt_succ h p

/-- An index is a break if a line feed stands there, or a carriage return that no line feed follows. -/
theorem mem_breaks {t : Text} {p : Nat} :
    p ∈ (of t).breaks ↔ t[p]? = some '\n' ∨ t[p]? = some '\r' ∧ t[p + 1]? ≠ some '\n' := by
  rw [breaks_eq_filter, List.mem_filter, List.mem_range]
  cases hc : t[p]? with
  | none => simp
  | some c =>
    have hp : p < t.length := (List.getElem?_eq_some_iff.mp hc).1
    simp [hp, breaksAt]

/-! ## One index on -/

theorem locate_natCast (l : Lines) (p : Nat) :
    l.locate p = match (l.before p).getLast? with
      | none => ⟨1, p + 1⟩
      | some b => ⟨(l.before p).length + 1, p - b⟩ := by
  have hp : ¬ (p : Int) < 0 := by omega
  simp only [locate, if_neg hp, Int.toNat_natCast]
  rfl

theorem locate_line (l : Lines) (p : Nat) : (l.locate p).line = (l.before p).length + 1 := by
  rw [locate_natCast]
  cases hb : (l.before p).getLast? with
  | none => rw [List.getLast?_eq_none_iff.mp hb]; rfl
  | some b => rfl

theorem locate_neg (l : Lines) {p : Int} (h : p < 0) : l.locate p = ⟨1, 0⟩ := by
  rw [locate, if_pos h]

theorem locate_zero (l : Lines) : l.locate 0 = ⟨1, 1⟩ := by
  have hb : l.before 0 = [] := by
    rw [List.eq_nil_iff_forall_not_mem]
    intro b hb
    exact Nat.not_lt_zero b (lt_of_mem_before hb)
  have h := l.locate_natCast 0
  rw [hb] at h
  exact h

/-- The next location: behind a break the next line starts, behind anything else the column goes on. -/
theorem locate_succ {l : Lines} (h : l.breaks.Pairwise (· < ·)) (p : Nat) :
    l.locate (p + 1 : Nat) = if p ∈ l.breaks then ⟨(l.locate p).line + 1, 1⟩
      else ⟨(l.locate p).line, (l.locate p).column + 1⟩ := by
  have hs := before_succ h p
  by_cases hp : p ∈ l.breaks
  · rw [if_pos hp] at hs ⊢
    rw [locate_line, locate_natCast, hs, List.getLast?_concat, List.length_append]
    simp
  · rw [if_neg hp, List.append_nil] at hs
    rw [if_neg hp, locate_natCast, locate_natCast, hs]
    cases hb : (l.before p).getLast? with
    | none => rfl
    | some b =>
      have hlt : b < p := lt_of_mem_before (List.mem_of_getLast? hb)
      simp only [Nat.succ_sub (Nat.le_of_lt hlt)]

/-! ## The search -/

/-- Where a search from the left puts the index in is told by the breaks before it. -/
theorem InsertsAt.take_eq {l : Lines} {p k : Nat} (h : l.InsertsAt p k) : l.breaks.take k = l.before p := by
  have ht : l.before p = (l.breaks.take k ++ l.breaks.drop k).takeWhile (· < p) := by
    rw [List.take_append_drop]
    rfl
  rw [ht, List.takeWhile_append_of_pos (by simpa using h.smaller), takeWhile_lt_nil h.others, List.append_nil]

/-- The location, as a search for the index finds it. -/
theorem locate_of_inserts {l : Lines} {p k : Nat} (h : l.InsertsAt p k) :
    l.locate p = if k = 0 then ⟨1, p + 1⟩ else ⟨k + 1, p - l.breaks.getD (k - 1) 0⟩ := by
  rw [locate_natCast, ← h.take_eq]
  cases k with
  | zero => rfl
  | succ j =>
    have hj : j < l.breaks.length := h.inside
    have hlast : (l.breaks.take (j + 1)).getLast? = some l.breaks[j] := by
      rw [List.take_succ_eq_append_getElem hj, List.getLast?_concat]
    rw [hlast]
    simp [hj]

/-! ## Reading order -/

theorem locate_lt_succ (t : Text) {p : Int} (h : -1 ≤ p) :
    ((of t).locate p).key < ((of t).locate (p + 1)).key := by
  rcases Int.lt_or_le p 0 with hneg | hpos
  · have hp : p + 1 = 0 := by omega
    rw [locate_neg _ hneg, hp, locate_zero]
    exact Prod.Lex.toLex_lt_toLex.mpr (Or.inr ⟨rfl, Nat.zero_lt_one⟩)
  · obtain ⟨n, rfl⟩ := Int.eq_ofNat_of_zero_le hpos
    show _ < ((of t).locate (n + 1 : Nat)).key
    rw [locate_succ (breaks_ascend t)]
    split
    · exact Prod.Lex.toLex_lt_toLex.mpr (Or.inl (Nat.lt_succ_self _))
    · exact Prod.Lex.toLex_lt_toLex.mpr (Or.inr ⟨rfl, Nat.lt_succ_self _⟩)

theorem locate_lt (t : Text) {p q : Int} (hp : -1 ≤ p) (hpq : p < q) :
    ((of t).locate p).key < ((of t).locate q).key := by
  have hmono : StrictMonoOn (fun p => ((of t).locate p).key) (Set.Ici (-1)) :=
    strictMonoOn_of_lt_add_one Set.ordConnected_Ici fun _ _ h _ => locate_lt_succ t h
  exact hmono hp (Int.le_trans hp (Int.le_of_lt hpq)) hpq

theorem locate_inj (t : Text) {p q : Int} (hp : -1 ≤ p) (hq : -1 ≤ q) (h : (of t).locate p = (of t).locate q) :
    p = q := by
  rcases Int.lt_trichotomy p q with hlt | heq | hgt
  · exact absurd (congrArg Location.key h) (ne_of_lt (locate_lt t hp hlt))
  · exact heq
  · exact absurd (congrArg Location.key h) (ne_of_gt (locate_lt t hq hgt))

theorem locate_line_mem (l : Lines) (p : Int) : 1 ≤ (l.locate p).line ∧ (l.locate p).line ≤ l.count := by
  rcases Int.lt_or_le p 0 with hneg | hpos
  · rw [locate_neg l hneg, count]
    exact ⟨Nat.le_refl 1, Nat.le_add_left 1 _⟩
  · obtain ⟨n, rfl⟩ := Int.eq_ofNat_of_zero_le hpos
    have hle : (l.before n).length ≤ l.breaks.length := (List.takeWhile_sublist _).length_le
    show 1 ≤ (l.locate n).line ∧ (l.locate n).line ≤ l.count
    rw [locate_line, count]
    omega

/-- Looking a location up in the breaks gives what counting gives. Before the text it is `1:0`, its first
    character is at `1:1`, and each index leads to the next: behind a line feed, and behind a carriage
    return that no line feed follows, to the first column of the next line, otherwise to the next column,
    on the last line also past the end of the text. So from the place before the text on, later indices have
    later locations and no two share one, and the line is always one of the text's. -/
theorem locate_counts (t : Text) :
    let l := of t
    (∀ p k : Nat, l.InsertsAt p k →
      l.locate p = if k = 0 then ⟨1, p + 1⟩ else ⟨k + 1, p - l.breaks.getD (k - 1) 0⟩) ∧
    (∀ p < 0, l.locate p = ⟨1, 0⟩) ∧ l.locate 0 = ⟨1, 1⟩ ∧
    (∀ p : Nat, l.locate (p + 1 : Nat) =
      if t[p]? = some '\n' ∨ t[p]? = some '\r' ∧ t[p + 1]? ≠ some '\n' then ⟨(l.locate p).line + 1, 1⟩
      else ⟨(l.locate p).line, (l.locate p).column + 1⟩) ∧
    (∀ p : Nat, t.length ≤ p → (l.locate p).line = l.count) ∧
    (∀ p q : Int, -1 ≤ p → p < q → (l.locate p).key < (l.locate q).key) ∧
    (∀ p q : Int, -1 ≤ p → -1 ≤ q → l.locate p = l.locate q → p = q) ∧
    ∀ p : Int, 1 ≤ (l.locate p).line ∧ (l.locate p).line ≤ l.count := by
  intro l
  refine ⟨fun p k => locate_of_inserts, fun p => l.locate_neg, l.locate_zero, ?_, ?_, fun p q => locate_lt t,
    fun p q => locate_inj t, l.locate_line_mem⟩
  · intro p
    rw [locate_succ (breaks_ascend t)]
    exact if_congr mem_breaks rfl rfl
  · intro p hp
    exact l.locate_end fun b hb => Nat.lt_of_lt_of_le (breaks_inside hb) hp

/-- Behind a pair and a lone carriage return, long past the text, and before it. -/
theorem locate_counts_mixed :
    let l := of ['a', '\r', '\n', 'b', '\r', 'c']
    l.InsertsAt 5 2 ∧ l.locate 5 = ⟨3, 1⟩ ∧ (l.locate 1000).line = 3 ∧ l.locate (-7) = ⟨1, 0⟩ ∧
      (l.locate 3).key < (l.locate 4).key := by
  intro l
  obtain ⟨hs, hn, -, -, he, hm, -⟩ := locate_counts ['a', '\r', '\n', 'b', '\r', 'c']
  have hi : l.InsertsAt 5 2 := ⟨by decide, by decide, by decide⟩
  exact ⟨hi, hs 5 2 hi, he 1000 (by decide), hn (-7) (by decide), hm 3 4 (by decide) (by decide)⟩

end Lines

end Lexkit
