/-
  Lexkit.Proofs.Unrolled — a skip of trivia is made of simpler actions.

  Each of its rounds skips blanks and then, where one opens, a block comment or the rest of a line
  (`roundParts`). Asked for one by one (`triviaParts`), these actions lead where the skip leads and log what
  it logs, also when the last of them is a comment that fails (`trivia_parts`).

  So a history can be unrolled into one in which no trivia are skipped any more (`unrolled`): it ends on the
  same scanner (`after_unrolled`) and logs the same records (`logged_unrolled`). What is said of the calls of
  an unrolled history is said of the comments inside its trivia too.
-/

import Lexkit.Proofs.Step

namespace Lexkit

def Action.isTrivia : Action → Bool
  | .trivia _ => true
  | _ => false

/-- The actions a skip of trivia is made of. -/
def Action.skipsTrivia : Action → Bool
  | .skipBlanks | .comment | .skipToLineEnd => true
  | _ => false

theorem Action.cases_of_skipsTrivia {a : Action} (h : a.skipsTrivia = true) :
    a = .skipBlanks ∨ a = .comment ∨ a = .skipToLineEnd := by
  cases a with
  | skipBlanks => exact Or.inl rfl
  | comment => exact Or.inr (Or.inl rfl)
  | skipToLineEnd => exact Or.inr (Or.inr rfl)
  | _ => cases h

namespace Scanner

/-- The records a history logs, in order. -/
def logged (s : Scanner) (history : List Action) : List Record := (s.run history).flatMap (·.log)

theorem logged_cons (s : Scanner) (a : Action) (more : List Action) :
    s.logged (a :: more) = (s.perform a).log ++ (s.perform a).next.logged more := by
  simp [logged, run]

theorem after_append (s : Scanner) (first second : List Action) :
    s.after (first ++ second) = (s.after first).after second := List.foldl_append

theorem logged_append (s : Scanner) (first second : List Action) :
    s.logged (first ++ second) = s.logged first ++ (s.after first).logged second := by
  induction first generalizing s with
  | nil => rfl
  | cons a more ih =>
    rw [List.cons_append, logged_cons, logged_cons, ih, List.append_assoc]
    rfl

/-! ## One round -/

def Round.next : Round → Scanner
  | .done _ t | .failed _ t | .again t _ => t

def Round.log : Round → List Record
  | .again _ log => log
  | .done _ _ | .failed _ _ => []

/-- What a round asks for: blanks, and behind them a block comment, a line comment or nothing. -/
def roundParts (lineOpener : Option Text) (s : Scanner) : List Action :=
  if s.skipBlanks.2.looksAt Comment.opener then [.skipBlanks, .comment]
  else if s.skipBlanks.2.opensLine lineOpener then [.skipBlanks, .skipToLineEnd]
  else [.skipBlanks]

theorem round_parts (lineOpener : Option Text) (s : Scanner) :
    (s.round lineOpener).next = s.after (s.roundParts lineOpener) ∧
      (s.round lineOpener).log = s.logged (s.roundParts lineOpener) := by
  simp only [round, roundParts]
  by_cases hc : s.skipBlanks.2.looksAt Comment.opener = true
  · rw [if_pos hc, if_pos hc]
    have hlog : s.logged [.skipBlanks, .comment] = s.skipBlanks.2.comment.log := List.append_nil _
    cases hr : s.skipBlanks.2.comment.result with
    | ok span => exact ⟨rfl, hlog.symm⟩
    | error f =>
      refine ⟨rfl, ?_⟩
      rw [hlog, (comment_failed hr).1]
      rfl
  · rw [if_neg hc, if_neg hc]
    by_cases ho : s.skipBlanks.2.opensLine lineOpener = true
    · rw [if_pos ho, if_pos ho]
      exact ⟨rfl, rfl⟩
    · rw [if_neg ho, if_neg ho]
      exact ⟨rfl, rfl⟩

/-! ## All rounds -/

/-- What a skip of trivia asks for, round by round. -/
def triviaParts (lineOpener : Option Text) (s : Scanner) : List Action :=
  match _ : s.round lineOpener with
  | .again t _ => s.roundParts lineOpener ++ t.triviaParts lineOpener
  | .done _ _ | .failed _ _ => s.roundParts lineOpener
termination_by s.rest.length
decreasing_by exact round_progress ‹_›

theorem trivia_parts (lineOpener : Option Text) (s : Scanner) :
    (s.trivia lineOpener).next = s.after (s.triviaParts lineOpener) ∧
      (s.trivia lineOpener).log = s.logged (s.triviaParts lineOpener) := by
  fun_induction triviaParts lineOpener s with
  | case1 s t log hr ih =>
    have hround := round_parts lineOpener s
    rw [hr] at hround
    rw [trivia_eq, hr, after_append, logged_append, ← hround.1, ← hround.2]
    exact ⟨ih.1, congrArg (log ++ ·) ih.2⟩
  | case2 s moved t hr =>
    have hround := round_parts lineOpener s
    rw [hr] at hround
    rw [trivia_eq, hr]
    exact hround
  | case3 s f t hr =>
    have hround := round_parts lineOpener s
    rw [hr] at hround
    rw [trivia_eq, hr]
    exact hround

theorem mem_roundParts {lineOpener : Option Text} {s : Scanner} : ∀ b ∈ s.roundParts lineOpener, b.skipsTrivia = true := by
  unfold roundParts
  split
  · decide
  · split
    · decide
    · decide

theorem mem_triviaParts {lineOpener : Option Text} {s : Scanner} {b : Action} (h : b ∈ s.triviaParts lineOpener) :
    b.skipsTrivia = true := by
  fun_induction triviaParts lineOpener s with
  | case1 s t log hr ih =>
    rcases List.mem_append.mp h with h | h
    · exact mem_roundParts b h
    · exact ih h
  | case2 s moved t hr => exact mem_roundParts b h
  | case3 s f t hr => exact mem_roundParts b h

/-! ## Whole histories -/

/-- The simpler actions that an action is made of on this scanner; all but a skip of trivia are simple. -/
def parts (s : Scanner) : Action → List Action
  | .trivia lineOpener => s.triviaParts lineOpener
  | a => [a]

/-- A history with every skip of trivia written out. -/
def unrolled (s : Scanner) : List Action → List Action
  | [] => []
  | a :: more => s.parts a ++ (s.perform a).next.unrolled more

theorem perform_parts (s : Scanner) (a : Action) :
    (s.perform a).next = s.after (s.parts a) ∧ (s.perform a).log = s.logged (s.parts a) := by
  cases a with
  | trivia lineOpener => exact trivia_parts lineOpener s
  | _ => exact ⟨rfl, (List.append_nil _).symm⟩

theorem after_unrolled (s : Scanner) (history : List Action) : s.after (s.unrolled history) = s.after history := by
  induction history generalizing s with
  | nil => rfl
  | cons a more ih =>
    show s.after (s.parts a ++ (s.perform a).next.unrolled more) = (s.perform a).next.after more
    rw [after_append, ← (perform_parts s a).1, ih]

theorem logged_unrolled (s : Scanner) (history : List Action) : s.logged (s.unrolled history) = s.logged history := by
  induction history generalizing s with
  | nil => rfl
  | cons a more ih =>
    show s.logged (s.parts a ++ (s.perform a).next.unrolled more) = s.logged (a :: more)
    rw [logged_append, logged_cons, ← (perform_parts s a).1, ← (perform_parts s a).2, ih]

theorem mem_unrolled {s : Scanner} {history : List Action} {b : Action} (h : b ∈ s.unrolled history) :
    (b ∈ history ∧ b.isTrivia = false) ∨ b.skipsTrivia = true := by
  induction history generalizing s with
  | nil => cases h
  | cons a more ih =>
    rcases List.mem_append.mp h with h | h
    · cases a with
      | trivia lineOpener => exact Or.inr (mem_triviaParts h)
      | _ =>
        cases List.mem_singleton.mp h
        exact Or.inl ⟨List.mem_cons_self, rfl⟩
    · rcases ih h with ⟨hb, ht⟩ | hb
      · exact Or.inl ⟨List.mem_cons_of_mem a hb, ht⟩
      · exact Or.inr hb

end Scanner

end Lexkit
