/-
  Lexkit.Proofs.Rounds — skipping trivia always ends.

  The skip goes in rounds for as long as a round finds a comment, and nothing counts them. Each round that goes on
  leaves the cursor further on by one character at least (`roundTurn_advances`), so after `k` of them it is `k`
  further on, and there are no more of them than characters left (`trivia_rounds_end`).

  A round is made of loops over single characters, and these end too (`loopsEnd`): the skips by what they skip, the
  search for the end of a comment at the first closer or at the end of the text.
-/

import Lexkit.Proofs.SpanLoops
import Lexkit.Proofs.Unrolled

namespace Lexkit

open Lexkit.Alphabet

namespace Scanner

/-! ## Rounds -/

/-- One turn of skipping trivia is a round. -/
def roundTurn (lineOpener : Option Text) : Turn Scanner := fun s =>
  match s.round lineOpener with
  | .again t _ => some t
  | .done _ _ | .failed _ _ => none

/-- What a round that ends the skip says, if something was skipped before it or not. -/
def Round.verdict (before : Bool) : Round → Except Failure Bool
  | .done moved _ => .ok (before || moved)
  | .failed f _ => .error f
  | .again _ _ => .ok true

/-- The loops inside a round end, each with what the round takes from it. -/
structure LoopsEnd (lineOpener : Option Text) (s : Scanner) : Prop where
  blanks : ∃ n, (skipTurn fun t => t.current?.any isBlank).Ends n (false, s.entered) s.skipBlanks
  comment : let t := s.skipBlanks.2
    t.looksAt Comment.opener = true → ∃ n e, commentTurn.Ends n t.read.2 e ∧ t.comment = t.commentFrom e
  line : let t := s.skipBlanks.2
    t.opensLine lineOpener = true → ∃ n, (skipTurn fun t => !t.atLineEnd).Ends n (false, t.entered) t.skipToLineEnd

section
variable {lineOpener : Option Text} {s : Scanner}

theorem loopsEnd (lineOpener : Option Text) (h : s.OnText) : s.LoopsEnd lineOpener where
  blanks := ⟨_, skipWhile_loop h fun t c hc => by simp [hc]⟩
  comment := comment_loop
  line := fun _ => ⟨_, skipWhile_loop ((skipWhile_roams _ s).onText h) fun t c hc => by simp [atLineEnd, hc]⟩

theorem roundTurn_eq_some {t : Scanner} : roundTurn lineOpener s = some t ↔ ∃ log, s.round lineOpener = .again t log := by
  unfold roundTurn
  cases s.round lineOpener with
  | done moved u => simp
  | failed f u => simp
  | again u log => simp

/-- A round that goes on leaves the cursor on the text, further on. -/
theorem roundTurn_advances {t : Scanner} (h : roundTurn lineOpener s = some t) : max s.position 0 + 1 ≤ t.position := by
  obtain ⟨log, hr⟩ := roundTurn_eq_some.mp h
  rcases round_cases lineOpener s with ⟨q, hq, -⟩ | ⟨q, hq, -⟩ | ⟨q, log', hq, hlt, -⟩
  · rw [hq] at hr
    cases hr
  · rw [hq] at hr
    cases hr
  · rw [hq] at hr
    cases hr
    rw [moveTo_position]
    omega

theorem roundTurn_inside {t : Text} {u : Scanner} (h : Inside t s) (hu : roundTurn lineOpener s = some u) : Inside t u := by
  obtain ⟨log, hr⟩ := roundTurn_eq_some.mp hu
  have hnext := (round_parts lineOpener s).1
  rw [hr] at hnext
  rw [show u = s.after (s.roundParts lineOpener) from hnext]
  exact after_inside h _

/-- After `k` rounds that went on the cursor is `k` characters further on the text. -/
theorem rounds_advance {k : Nat} {v : Scanner} (h : (roundTurn lineOpener).times k s = some v) :
    max s.position 0 + k ≤ max v.position 0 := by
  induction k generalizing s with
  | zero =>
    cases h
    omega
  | succ k ih =>
    obtain ⟨t, ht, hv⟩ := Option.bind_eq_some_iff.mp h
    have hstep := roundTurn_advances ht
    have hrest := ih hv
    omega

/-- The skip comes to what its last round comes to. -/
theorem trivia_of_rounds {n : Nat} {e : Scanner} (h : (roundTurn lineOpener).Ends n s e) :
    (s.trivia lineOpener).result = (e.round lineOpener).verdict (decide (0 < n)) ∧
      (s.trivia lineOpener).next = (e.round lineOpener).next := by
  induction n generalizing s with
  | zero =>
    obtain ⟨hr, hs⟩ := h
    cases hr
    rw [trivia_eq]
    unfold roundTurn at hs
    cases hr : e.round lineOpener with
    | done moved t => exact ⟨rfl, rfl⟩
    | failed f t => exact ⟨rfl, rfl⟩
    | again t log => rw [hr] at hs; cases hs
  | succ n ih =>
    obtain ⟨hr, hs⟩ := h
    obtain ⟨t, ht, hv⟩ := Option.bind_eq_some_iff.mp hr
    obtain ⟨log, hround⟩ := roundTurn_eq_some.mp ht
    obtain ⟨hres, hnext⟩ := ih ⟨hv, hs⟩
    rw [trivia_eq, hround]
    refine ⟨?_, hnext⟩
    simp only [hres]
    cases e.round lineOpener with
    | done moved u => simp [Round.verdict, Except.map]
    | failed f u => rfl
    | again u log => rfl

end

/-- Skipping trivia ends, whatever opens line comments and however block comments are taken. After one round that went
    on, or `k` of them, the cursor stands `k` or more characters behind where it started on the text. So no more than
    one round more is begun than there are characters left, and the last one begun decides the outcome. The loops
    inside each of these rounds end as well. -/
theorem trivia_rounds_end (t : Text) (source : Option String) (o : Options) (s : Scanner)
    (h : start (.text t) source o = .ok s) (history : List Action) (lineOpener : Option Text) :
    let u := s.after history
    (∀ k v, (roundTurn lineOpener).times k u = some v →
      (1 ≤ k → max u.position 0 + k ≤ v.position) ∧ v.LoopsEnd lineOpener) ∧
    ∃ n e, (roundTurn lineOpener).Ends n u e ∧ ((n + 1 : Nat) : Int) ≤ t.length - max u.position 0 + 1 ∧
      (u.trivia lineOpener).result = (e.round lineOpener).verdict (decide (0 < n)) ∧
      (u.trivia lineOpener).next = (e.round lineOpener).next := by
  intro u
  have hin : Inside t u := after_inside (start_inside h) history
  have hkeep : ∀ {k v}, (roundTurn lineOpener).times k u = some v → Inside t v :=
    Turn.times_keeps (fun _ _ => roundTurn_inside) hin
  refine ⟨?_, ?_⟩
  · intro k v hv
    have hadv := rounds_advance hv
    exact ⟨fun hk => by omega, loopsEnd lineOpener (hkeep hv).onText⟩
  · have hless : ∀ a b, roundTurn lineOpener a = some b → b.rest.length < a.rest.length := by
      intro a b hab
      obtain ⟨log, hr⟩ := roundTurn_eq_some.mp hab
      exact round_progress hr
    obtain ⟨n, e, he⟩ := Turn.exists_ends (fun a => a.rest.length) hless u
    refine ⟨n, e, he, ?_, trivia_of_rounds he⟩
    have hon := hin.onText.2
    have hend := (hkeep he.reached).onText.2
    rw [length, hin.text] at hon
    rw [length, (hkeep he.reached).text] at hend
    have hadv := rounds_advance he.reached
    omega

/-- With a slash for the opener and comments not taken strictly, on `/`, a line feed and `/*`: one round skips the
    line, the next a comment that never closes, and there the skip ends. -/
theorem trivia_rounds_end_slash :
    let turn := roundTurn (some ['/'])
    ∃ s, start (.text ['/', '\n', '/', '*']) none { strict := false } = .ok s ∧
      turn.times 2 s = some (s.moveTo 4) ∧ (s.moveTo 4).LoopsEnd (some ['/']) ∧
      ∃ n e, turn.Ends n s e ∧ ((n + 1 : Nat) : Int) ≤ 5 ∧
        (s.trivia (some ['/'])).next = (e.round (some ['/'])).next := by
  intro turn
  obtain ⟨hrounds, n, e, he, hn, -, hnext⟩ :=
    trivia_rounds_end ['/', '\n', '/', '*'] none { strict := false } _ rfl [] (some ['/'])
  exact ⟨_, rfl, rfl, (hrounds 2 _ rfl).2, n, e, he, hn, hnext⟩

end Scanner

end Lexkit
