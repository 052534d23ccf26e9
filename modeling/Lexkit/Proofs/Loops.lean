/-
  Lexkit.Proofs.Loops — the skips, one character at a time.

  A skip is defined by the whole run it goes over. Here it is a loop: the cursor enters the text if it stands
  before it, then moves on by single reads as long as the character under it is one to skip. A loop is given by
  what one turn of it does (`Turn`): it goes on somewhere, or it stops. The loop goes on once for every character
  of the run and stops with the very answer of the skip, the scanner and the flag alike (`skipWhile_loop`).

  By indices, a skip stops at the first one, from the cursor or the first character on, whose character is none to
  skip, or at the end of the text. Skipping all blanks comes to the same as skipping those of a line and going on
  behind each line feed that stops them (`skips_stop_first`).
-/

import Lexkit.Proofs.Extent

namespace Lexkit

open Lexkit.Alphabet

/-! ## Loops -/

/-- One turn of a loop: where it goes on, or none where it stops. -/
abbrev Turn (σ : Type) := σ → Option σ

namespace Turn

variable {σ : Type}

/-- Where `n` turns in a row lead; none if one of them stops. -/
def times (turn : Turn σ) : Nat → σ → Option σ
  | 0, s => some s
  | n + 1, s => (turn s).bind (times turn n)

/-- From `s` the loop goes on `n` times and stops at `e`. -/
structure Ends (turn : Turn σ) (n : Nat) (s e : σ) : Prop where
  reached : turn.times n s = some e
  stops : turn e = none

variable {turn : Turn σ}

theorem Ends.here {s : σ} (h : turn s = none) : turn.Ends 0 s s := ⟨rfl, h⟩

theorem Ends.more {n : Nat} {s t e : σ} (h : turn s = some t) (k : turn.Ends n t e) : turn.Ends (n + 1) s e :=
  ⟨by rw [times, h]; exact k.reached, k.stops⟩

/-- A loop that is known state by state. -/
theorem ends_of_path {x : Nat → σ} {n : Nat} (go : ∀ k < n, turn (x k) = some (x (k + 1)))
    (stop : turn (x n) = none) : turn.Ends n (x 0) (x n) := by
  induction n generalizing x with
  | zero => exact .here stop
  | succ n ih =>
    have hrest : turn.Ends n (x 1) (x (n + 1)) := ih (x := fun k => x (k + 1)) (fun k hk => go (k + 1) (by omega)) stop
    exact .more (go 0 (by omega)) hrest

/-- What each turn keeps is kept by any number of them. -/
theorem times_keeps {P : σ → Prop} (step : ∀ a b, P a → turn a = some b → P b) {k : Nat} {s v : σ} (hs : P s)
    (h : turn.times k s = some v) : P v := by
  induction k generalizing s with
  | zero => cases h; exact hs
  | succ k ih =>
    obtain ⟨t, ht, hv⟩ := Option.bind_eq_some_iff.mp h
    exact ih (step s t hs ht) hv

/-- A loop with less and less left ends. -/
theorem exists_ends (left : σ → Nat) (step : ∀ a b, turn a = some b → left b < left a) (s : σ) :
    ∃ n e, turn.Ends n s e := by
  generalize hn : left s = n
  induction n using Nat.strongRecOn generalizing s with
  | _ n ih =>
    cases ht : turn s with
    | none => exact ⟨0, s, .here ht⟩
    | some t =>
      obtain ⟨k, e, he⟩ := ih (left t) (hn ▸ step s t ht) t rfl
      exact ⟨k + 1, e, .more ht he⟩

end Turn

namespace Scanner

/-! ## Single characters -/

section
variable {s : Scanner}

/-- On the first character, where the cursor stood before the text. -/
def entered (s : Scanner) : Scanner := if s.position = -1 then s.read.2 else s

theorem entered_eq (h : s.OnText) : s.entered = s.moveTo s.position.toNat := by
  obtain ⟨h0, h1⟩ := h
  unfold entered
  by_cases hp : s.position = -1
  · rw [if_pos hp, read_eq_moveTo (by omega), hp]
    rfl
  · rw [if_neg hp]
    exact (moveTo_self (by omega)).symm

theorem lt_length_of_current {c : Char} (h : s.current? = some c) : s.position < s.length := by
  obtain ⟨h0, hh⟩ := head_rest_of_current h
  obtain ⟨r, hr⟩ := List.head?_eq_some_iff.mp hh
  have hlen := length_rest s
  rw [hr, List.length_cons] at hlen
  omega

theorem current?_at (s : Scanner) (i : Nat) : (s.moveTo i).current? = s.text[i]? := rfl

theorem read_at {i : Nat} (h : i < s.length) : (s.moveTo i).read.2 = s.moveTo (i + 1 : Nat) :=
  read_eq_moveTo (Int.ofNat_lt.mpr h)

theorem atEnd_at (s : Scanner) (i : Nat) : (s.moveTo i).atEnd = decide (s.length ≤ i) := by
  rw [atEnd, decide_eq_decide]
  exact Int.ofNat_le

end

/-! ## The skips as loops -/

/-- One turn of a skip: past the character under the cursor, if it is one to pass, and something was skipped. -/
def skipTurn (passes : Scanner → Bool) : Turn (Bool × Scanner) := fun s =>
  if passes s.2 && !s.2.atEnd then some (true, s.2.read.2) else none

section
variable {s : Scanner} {passes : Scanner → Bool} {p : Char → Bool}

/-- At an index a turn goes on exactly if a character of the class stands there. -/
theorem skipTurn_at (hp : ∀ t c, current? t = some c → passes t = p c) (b : Bool) (s : Scanner) (i : Nat) :
    skipTurn passes (b, s.moveTo i) = if s.text[i]?.any p then some (true, s.moveTo (i + 1 : Nat)) else none := by
  unfold skipTurn
  by_cases hin : i < s.length
  · have hc : s.text[i]? = some s.text[i] := List.getElem?_eq_getElem hin
    have hend : ¬ s.length ≤ i := by omega
    rw [hp _ _ ((current?_at s i).trans hc), atEnd_at, read_at hin, hc]
    simp [hend]
  · have hend : s.length ≤ i := by omega
    rw [atEnd_at, List.getElem?_eq_none hend]
    simp [hend]

/-- The loop over the characters of a class passes the run of them and answers as the skip does. -/
theorem skipWhile_loop (hs : s.OnText) (hp : ∀ t c, current? t = some c → passes t = p c) :
    (skipTurn passes).Ends (s.rest.takeWhile p).length (false, s.entered) (s.skipWhile p) := by
  have hleast := Text.isLeast_run s.text p s.position.toNat
  rw [← rest] at hleast
  generalize hn : (s.rest.takeWhile p).length = n at hleast
  -- the state after `k` turns
  let x : Nat → Bool × Scanner := fun k => (decide (0 < k), s.moveTo (s.position.toNat + k : Nat))
  have hend : s.skipWhile p = x n := by
    apply Prod.ext
    · rw [skipWhile_moved, hn]
    · rw [skipWhile_moves, hn]
  rw [entered_eq hs, hend]
  apply Turn.ends_of_path (x := x)
  · intro k hk
    have hpass : s.text[s.position.toNat + k]?.any p = true := by
      by_contra hno
      rw [Bool.not_eq_true, Option.any_eq_false] at hno
      have hle := hleast.2 (show s.position.toNat + k ∈ _ from ⟨by omega, hno⟩)
      omega
    rw [skipTurn_at hp, if_pos hpass]
    simp only [x, Nat.succ_pos, decide_true, Nat.add_assoc]
  · have hstop : s.text[s.position.toNat + n]?.any p = false := (Option.any_eq_false _ _).mpr hleast.1.2
    rw [skipTurn_at hp, hstop]
    rfl

end

/-! ## Where a skip stops -/

/-- What a skip from `s` comes to if characters that satisfy `stop` are what it stops at: the first of them from
    the cursor or the first character on, or the end of the text, and whether that is further on. -/
def StopsFirst (s : Scanner) (stop : Char → Prop) (r : Bool × Scanner) : Prop :=
  ∃ q : Nat, IsLeast {i : Nat | max s.position 0 ≤ i ∧ (i = s.length ∨ ∃ c ∈ s.text[i]?, stop c)} q ∧
    r.2 = s.moveTo q ∧ (r.1 = true ↔ max s.position 0 < q)

theorem skipWhile_stopsFirst {s : Scanner} (h : s.OnText) {p : Char → Bool} {stop : Char → Prop}
    (hp : ∀ c, p c = false ↔ stop c) : s.StopsFirst stop (s.skipWhile p) := by
  have hleast := Text.isLeast_run s.text p s.position.toNat
  have hlen := run_le h p
  have hmoved := skipWhile_moved p s
  rw [← rest] at hleast
  refine ⟨s.position.toNat + (s.rest.takeWhile p).length, ⟨⟨by omega, ?_⟩, ?_⟩, skipWhile_moves p s, ?_⟩
  · by_cases hin : s.position.toNat + (s.rest.takeWhile p).length < s.length
    · have hc := List.getElem?_eq_getElem hin
      exact Or.inr ⟨_, hc, (hp _).mp (hleast.1.2 _ hc)⟩
    · exact Or.inl (by omega)
  · intro i hi
    obtain ⟨hi0, hi⟩ := hi
    apply hleast.2
    refine ⟨by omega, ?_⟩
    intro c hc
    rcases hi with rfl | ⟨d, hd, hstop⟩
    · rw [length, List.getElem?_eq_none (Nat.le_refl _)] at hc
      cases hc
    · rw [Option.mem_unique hc hd]
      exact (hp d).mpr hstop
  · rw [hmoved, decide_eq_true_eq]
    omega

/-! ## Blanks line by line -/

/-- A turn of skipping blanks line by line: where a line feed stands, past it and the blanks of the next line.
    Something was skipped if it was before, if the read moved on, or if there were blanks. -/
def lineTurn : Turn (Bool × Scanner) := fun s =>
  if s.2.current? = some '\n' then
    let t := s.2.read.2
    some (s.1 || decide (s.2.position < t.position) || t.skipLineBlanks.1, t.skipLineBlanks.2)
  else none

section
variable {s : Scanner}

/-- A skip of some of the characters first makes no difference. -/
theorem skipWhile_of_narrower {p q : Char → Bool} (h : ∀ c, q c = true → p c = true) (s : Scanner) :
    s.skipWhile p = ((s.skipWhile q).1 || ((s.skipWhile q).2.skipWhile p).1, ((s.skipWhile q).2.skipWhile p).2) := by
  have hrun : s.rest.takeWhile p = s.rest.takeWhile q ++ (s.skipWhile q).2.rest.takeWhile p := by
    rw [rest_skipWhile]
    conv_lhs => rw [← List.takeWhile_append_dropWhile (p := q) (l := s.rest)]
    apply List.takeWhile_append_of_pos
    intro c hc
    exact h c (List.mem_takeWhile_imp hc)
  apply Prod.ext
  · simp only [skipWhile_moved, hrun, List.length_append]
    rw [← Bool.decide_or, decide_eq_decide]
    omega
  · simp only [skipWhile_moves, hrun, List.length_append, moveTo_position, Int.toNat_natCast, Nat.add_assoc]
    rfl

/-- Nor does a read over one of them. -/
theorem skipWhile_of_current {p : Char → Bool} {c : Char} (hc : s.current? = some c) (hp : p c = true) :
    s.skipWhile p = (true, (s.read.2.skipWhile p).2) := by
  obtain ⟨h0, hh⟩ := head_rest_of_current hc
  obtain ⟨r, hr⟩ := List.head?_eq_some_iff.mp hh
  have hlt := lt_length_of_current hc
  have hread : (s.moveTo (s.position + 1)).rest = r := by
    rw [← read_eq_moveTo hlt, rest_read h0, hr]
    rfl
  have hrun : s.rest.takeWhile p = c :: r.takeWhile p := by rw [hr, List.takeWhile_cons_of_pos hp]
  have hsucc : s.position.toNat + ((r.takeWhile p).length + 1) = (s.position + 1).toNat + (r.takeWhile p).length := by
    omega
  apply Prod.ext
  · simp [skipWhile_moved, hrun]
  · rw [read_eq_moveTo hlt, skipWhile_moves, skipWhile_moves, hrun, hread, List.length_cons, hsucc]
    rfl

theorem isBlank_of_isLineBlank {c : Char} (h : isLineBlank c = true) : isBlank c = true := by
  simp only [isLineBlank] at h
  simp [isBlank, h]

/-- Where neither a line feed stands nor a blank of a line, there is no blank. -/
theorem skipBlanks_of_neither (h0 : 0 ≤ s.position) (hb : ∀ c ∈ s.rest.head?, isLineBlank c = false)
    (hc : s.current? ≠ some '\n') : s.skipBlanks = (false, s) := by
  have hrun : s.rest.takeWhile isBlank = [] := by
    rw [current?_eq_head h0] at hc
    cases hr : s.rest with
    | nil => rfl
    | cons c r =>
      rw [hr] at hb hc
      have hl := hb c rfl
      have hn : c ≠ '\n' := fun e => hc (by rw [e]; rfl)
      have hno : ¬ isBlank c = true := by
        simp only [isLineBlank] at hl
        simp [isBlank, hl, hn]
      exact List.takeWhile_cons_of_neg hno
  apply Prod.ext
  · rw [skipBlanks, skipWhile_moved, hrun]
    rfl
  · rw [skipBlanks, skipWhile_moves, hrun]
    exact moveTo_self (by rw [List.length_nil]; omega)

/-- From behind the blanks of a line, the turns over line feeds skip all the blanks there are. -/
theorem lineTurn_ends (h0 : 0 ≤ s.position) (hb : ∀ c ∈ s.rest.head?, isLineBlank c = false) (b : Bool) :
    ∃ n, lineTurn.Ends n (b, s) (b || s.skipBlanks.1, s.skipBlanks.2) := by
  -- a turn that goes on has read a line feed, so the induction is on the text that is left
  generalize hn : s.rest.length = n
  induction n using Nat.strongRecOn generalizing s b with
  | _ n ih =>
    by_cases hc : s.current? = some '\n'
    · let t := s.read.2
      let u := t.skipLineBlanks.2
      have hread : t = s.moveTo (s.position + 1) := read_eq_moveTo (lt_length_of_current hc)
      have hmoved : s.position < t.position := by
        rw [hread, moveTo_position]
        omega
      have honward : Onward t u := skipWhile_onward _ t
      have hshort : u.rest.length < n := by
        have hpos : 0 < s.rest.length := by
          have := lt_length_of_current hc
          rw [length_rest]
          omega
        have hle := honward.rest_le
        rw [rest_read h0, List.length_tail] at hle
        omega
      obtain ⟨k, hk⟩ := ih u.rest.length hshort (skipWhile_nonneg _ t) (skipWhile_stops _ t) true rfl
      have hturn : lineTurn (b, s) = some (true, u) := by
        simp only [lineTurn, if_pos hc]
        simp [t, u, hmoved]
      have hrest : u.skipBlanks.2 = t.skipBlanks.2 :=
        (congrArg Prod.snd (skipWhile_of_narrower (fun _ => isBlank_of_isLineBlank) t)).symm
      have hall : s.skipBlanks = (true, t.skipBlanks.2) := skipWhile_of_current hc rfl
      rw [hall, Bool.or_true, ← hrest]
      exact ⟨k + 1, .more hturn hk⟩
    · have hno : s.skipBlanks = (false, s) := skipBlanks_of_neither h0 hb hc
      rw [hno, Bool.or_false]
      exact ⟨0, .here (if_neg hc)⟩

/-- Skipping blanks line by line comes to what skipping them all at once does. -/
theorem skipBlanks_by_lines (s : Scanner) : ∃ n, lineTurn.Ends n s.skipLineBlanks s.skipBlanks := by
  have hall : s.skipBlanks = _ := skipWhile_of_narrower (fun _ => isBlank_of_isLineBlank) s
  rw [hall]
  exact lineTurn_ends (skipWhile_nonneg _ s) (skipWhile_stops _ s) s.skipLineBlanks.1

end

/-- From any state, a skip of blanks ends on the first character that is neither a space, a tab, a carriage return
    nor a line feed, a skip of the blanks of a line on the first that is none of the first three, and a skip to the
    end of the line on the first carriage return or line feed; each ends at the end of the text where there is no
    such character. It has skipped something exactly if it ends behind the cursor, and behind the first character
    where the cursor stood before the text. All blanks are the blanks of a line and, behind each line feed that
    stops them, those of the next. -/
theorem skips_stop_first (t : Text) (source : Option String) (o : Options) (s : Scanner)
    (h : start (.text t) source o = .ok s) (history : List Action) :
    let u := s.after history
    u.StopsFirst (· ∉ [' ', '\t', '\r', '\n']) u.skipBlanks ∧
    u.StopsFirst (· ∉ [' ', '\t', '\r']) u.skipLineBlanks ∧
    u.StopsFirst (· ∈ ['\r', '\n']) u.skipToLineEnd ∧
    ∃ n, lineTurn.Ends n u.skipLineBlanks u.skipBlanks := by
  intro u
  have hon : u.OnText := (after_inside (start_inside h) history).onText
  refine ⟨skipWhile_stopsFirst hon ?_, skipWhile_stopsFirst hon ?_, skipWhile_stopsFirst hon ?_, skipBlanks_by_lines u⟩
  · intro c
    simp [isBlank, and_assoc]
  · intro c
    simp [isLineBlank, and_assoc]
  · intro c
    simp [endsLine, or_iff_not_imp_left]

/-- On a carriage return, a line feed, a tab and a letter: the way onto the first character is no skipping, which
    is all that a skip to the end of the line does here. -/
theorem skips_stop_first_pair :
    ∃ s, start (.text ['\r', '\n', '\t', 'x']) none {} = .ok s ∧
      s.StopsFirst (· ∉ [' ', '\t', '\r', '\n']) (true, s.moveTo 3) ∧
      s.StopsFirst (· ∉ [' ', '\t', '\r']) (true, s.moveTo 1) ∧ s.StopsFirst (· ∈ ['\r', '\n']) (false, s.moveTo 0) ∧
      ∃ n, lineTurn.Ends n (true, s.moveTo 1) (true, s.moveTo 3) :=
  ⟨_, rfl, skips_stop_first ['\r', '\n', '\t', 'x'] none {} _ rfl []⟩

end Scanner

end Lexkit
