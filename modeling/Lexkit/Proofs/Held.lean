/-
  Lexkit.Proofs.Held — what a scanner holds tells of its past.

  A call may read a span to be held, the delimiter included (`span?`), or make the scanner let go of what it
  holds (`letsGo`): a restart does, and a delimited read or a quoted body that finds no closer. Every other
  call leaves the held span alone, whether it succeeds or fails (`held_cases`).

  So what is held is the span that was read last, if nothing let go of it since, and nothing otherwise
  (`held_is_last_span`).
-/

import Lexkit.Proofs.Step
import Mathlib.Data.List.Induction

namespace Lexkit

namespace Call

/-- The span the call went over, if it is a delimited read or a quoted body that succeeded. -/
def span? (c : Call) : Option Text := c.before.spanRead? c.action

/-- A restart, or a delimited read or quoted body that finds no closer. -/
def letsGo (c : Call) : Bool :=
  match c.outcome.result with
  | .ok _ => c.action == .restart
  | .error f => c.action.readsThrough && f.unterminated?.isSome

/-- What is held after the call. -/
def leaves (held : Text) (c : Call) : Text := c.span?.getD (if c.letsGo then [] else held)

/-! ## One call -/

theorem quiet_of_roams {c : Call} (h : c.action.handlesHeld = false) : c.span? = none ∧ c.letsGo = false := by
  obtain ⟨hr, ht⟩ := Bool.or_eq_false_iff.mp h
  refine ⟨Scanner.spanRead?_roams h, ?_⟩
  unfold letsGo
  split
  · exact hr
  · rw [ht]
    rfl

theorem quiet_of_mistake {c : Call} {f : Failure} (h : c.outcome.result = .error f) (hf : f.unterminated? = none) :
    c.span? = none ∧ c.letsGo = false :=
  ⟨Scanner.spanRead?_failed h, by simp [letsGo, h, hf]⟩

theorem letsGo_of_open {c : Call} (ha : c.action.readsThrough = true) {f : Failure} (h : c.outcome.result = .error f)
    (hf : f.unterminated?.isSome = true) : c.span? = none ∧ c.letsGo = true :=
  ⟨Scanner.spanRead?_failed h, by simp [letsGo, h, ha, hf]⟩

/-- What a call can be: one that leaves the held span alone, one that lets go of it, or one that reads another. -/
theorem held_cases (c : Call) :
    (c.span? = none ∧ c.letsGo = false ∧ c.outcome.next.held = c.before.held) ∨
    (c.span? = none ∧ c.letsGo = true ∧ c.outcome.next.held = []) ∨
    (∃ span, c.span? = some span ∧ c.before.Reads span c.outcome.next) := by
  rcases c.action.held_role with ha | ha | ha
  · obtain ⟨hs, hl⟩ := quiet_of_roams ha
    exact Or.inl ⟨hs, hl, (Scanner.perform_roams c.before ha).held⟩
  · obtain ⟨s, a⟩ := c
    cases ha
    exact Or.inr (Or.inl ⟨rfl, rfl, rfl⟩)
  · rcases c.before.perform_readsThrough ha with ⟨f, ho, hu⟩ | ⟨f, ho, hu⟩ | ⟨span, hs, hr, -⟩
    · obtain ⟨hs, hl⟩ := quiet_of_mistake (congrArg Outcome.result ho) hu
      exact Or.inl ⟨hs, hl, congrArg (·.next.held) ho⟩
    · obtain ⟨hs, hl⟩ := letsGo_of_open ha (congrArg Outcome.result ho) hu
      exact Or.inr (Or.inl ⟨hs, hl, congrArg (·.next.held) ho⟩)
    · exact Or.inr (Or.inr ⟨span, hs, hr⟩)

theorem held_next (c : Call) : c.outcome.next.held = c.leaves c.before.held := by
  rcases c.held_cases with ⟨hs, hl, hh⟩ | ⟨hs, hl, hh⟩ | ⟨span, hs, hr⟩
  · simp [leaves, hs, hl, hh]
  · simp [leaves, hs, hl, hh]
  · simp [leaves, hs, hr.held]

/-! ## Many calls -/

theorem leaves_quiet {calls : List Call} (h : ∀ c ∈ calls, c.span? = none ∧ c.letsGo = false) (held : Text) :
    calls.foldl leaves held = held := by
  induction calls generalizing held with
  | nil => rfl
  | cons c calls ih =>
    obtain ⟨hs, hl⟩ := h c List.mem_cons_self
    have hc : c.leaves held = held := by simp [leaves, hs, hl]
    rw [List.foldl_cons, hc]
    exact ih (fun d hd => h d (List.mem_cons_of_mem c hd)) held

/-- Where every span that was read was let go of later, nothing is held. -/
theorem leaves_nothing {calls : List Call}
    (h : ∀ earlier c later, calls = earlier ++ c :: later → c.span?.isSome = true → ∃ d ∈ later, d.letsGo = true) :
    calls.foldl leaves [] = [] := by
  -- from the end: the last call lets go, or it is as if it had not been made
  induction calls using List.reverseRecOn with
  | nil => rfl
  | append_singleton calls c ih =>
    rw [List.foldl_append]
    show c.leaves (calls.foldl leaves []) = []
    have hs : c.span? = none := by
      cases hs : c.span? with
      | none => rfl
      | some span =>
        obtain ⟨d, hd, -⟩ := h calls c [] rfl (by rw [hs]; rfl)
        cases hd
    cases hl : c.letsGo with
    | true => simp [leaves, hs, hl]
    | false =>
      have hrest : calls.foldl leaves [] = [] := by
        apply ih
        intro earlier e later he hread
        obtain ⟨d, hd, hgo⟩ := h earlier e (later ++ [c]) (by rw [he]; simp) hread
        rcases List.mem_append.mp hd with hd | hd
        · exact ⟨d, hd, hgo⟩
        · rw [List.mem_singleton.mp hd, hl] at hgo
          cases hgo
      simp [leaves, hs, hl, hrest]

end Call

namespace Scanner

theorem held_after (s : Scanner) (history : List Action) :
    (s.after history).held = (s.calls history).foldl Call.leaves s.held := by
  induction history generalizing s with
  | nil => rfl
  | cons a more ih =>
    have hnext : (s.perform a).next.held = (⟨s, a⟩ : Call).leaves s.held := Call.held_next ⟨s, a⟩
    show ((s.perform a).next.after more).held = _
    rw [ih, hnext]
    rfl

/-- After any history, what is held is the whole span of the last delimited read or quoted body that
    succeeded, closer included, if no restart and no open delimited read or quoted body came after it;
    otherwise nothing is held. That span is the text from behind the cursor before the read through the
    cursor after it. No other action changes what is held, nor does a mistake of the caller. -/
theorem held_is_last_span (t : Text) (source : Option String) (o : Options) (s : Scanner)
    (h : start (.text t) source o = .ok s) (history : List Action) :
    let calls := s.calls history
    let held := (s.after history).held
    (∀ earlier c later span, calls = earlier ++ c :: later → c.span? = some span →
      (∀ d ∈ later, d.span? = none ∧ d.letsGo = false) → held = span) ∧
    ((∀ earlier c later, calls = earlier ++ c :: later → c.span?.isSome = true → ∃ d ∈ later, d.letsGo = true) →
      held = []) ∧
    (∀ c ∈ calls, ∀ span, c.span? = some span →
      span = (c.before.text.drop (c.before.position + 1).toNat).take
        (c.outcome.next.position - c.before.position).toNat) ∧
    ∀ c ∈ calls, (c.action.handlesHeld = false ∨ ∃ f, c.outcome.result = .error f ∧ f.unterminated? = none) →
      c.outcome.next.held = c.before.held := by
  intro calls held
  have hheld : held = calls.foldl Call.leaves [] := by
    have hs : s.held = [] := by obtain ⟨-, rfl⟩ := start_ok h; rfl
    rw [← hs]
    exact held_after s history
  refine ⟨?_, ?_, ?_, ?_⟩
  · intro earlier c later span hc hspan hquiet
    rw [hheld, hc, List.foldl_append, List.foldl_cons, Call.leaves_quiet hquiet, Call.leaves, hspan]
    rfl
  · intro hgone
    rw [hheld]
    exact Call.leaves_nothing hgone
  · intro c _ span hspan
    rcases c.held_cases with ⟨hs, -⟩ | ⟨hs, -⟩ | ⟨read, hs, hr⟩
    · rw [hs] at hspan; cases hspan
    · rw [hs] at hspan; cases hspan
    · rw [hs] at hspan
      cases hspan
      have hlen : (c.outcome.next.position - c.before.position).toNat = span.length := by rw [hr.position]; omega
      rw [hlen]
      exact List.prefix_iff_eq_take.mp hr.follows
  · intro c _ hc
    have hquiet : c.span? = none ∧ c.letsGo = false := by
      rcases hc with hc | ⟨f, hf, hu⟩
      · exact Call.quiet_of_roams hc
      · exact Call.quiet_of_mistake hf hu
    rw [Call.held_next, Call.leaves, hquiet.1, hquiet.2]
    rfl

/-- On `a,b`: a span outlives a read, a comment that is none and a delimiter that is none; a restart ends it. -/
theorem held_is_last_span_comma :
    ∃ s, start (.text ['a', ',', 'b']) none {} = .ok s ∧
      (s.after [.delimited (.text [',']), .read, .comment, .delimited .absent]).held = ['a', ','] ∧
      (s.after [.delimited (.text [',']), .restart]).held = [] := by
  have hkept := held_is_last_span ['a', ',', 'b'] none {} _ rfl
    [.delimited (.text [',']), .read, .comment, .delimited .absent]
  have hgone := held_is_last_span ['a', ',', 'b'] none {} _ rfl [.delimited (.text [',']), .restart]
  refine ⟨_, rfl, hkept.1 [] ⟨_, .delimited (.text [','])⟩ _ _ rfl rfl (by decide), hgone.2.1 ?_⟩
  intro earlier c later hc hread
  rcases earlier with _ | ⟨e, _ | ⟨e', more⟩⟩
  · cases hc
    exact ⟨_, List.mem_cons_self, rfl⟩
  · cases hc
    cases hread
  · simp [calls] at hc

end Scanner

end Lexkit
