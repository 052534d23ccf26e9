/-
  Lexkit.Proofs.Recovery — what a failed read of a span leaves behind, from whatever state it was asked
  for in.

  A mistake of the caller (no comment there, no single character as the delimiter, no quotation mark)
  leaves the scanner as it was. So does a comment that never closes. A delimited read or a quoted body
  that never closes lets go of the held span and changes nothing else: the cursor is back where the read
  started, and the failure names that place and the closer that was missing.

  Each read is inverted once (`comment_failed`, `readThrough_failed`, `delimited_failed`,
  `quotedBody_failed`): the whole outcome of a failed call, and which failure it is.
-/

import Lexkit.Scan.Action

namespace Lexkit

/-- The reads of a span that can fail by themselves. -/
def Action.readsSpan : Action → Bool
  | .comment | .delimited _ | .quotedBody => true
  | _ => false

namespace Scanner

/-- The scanner holding nothing. -/
def letGo (s : Scanner) : Scanner := { s with cursor := { s.cursor with held := [] } }

/-! ## The outcome of a failed call -/

theorem map_failed {α β : Type} {g : α → β} {o : Outcome α} {f : Failure} (h : (o.map g).result = .error f) :
    o.result = .error f := by
  cases hr : o.result with
  | ok a => simp [Outcome.map, hr, Except.map] at h
  | error e => simpa [Outcome.map, hr, Except.map] using h

theorem comment_failed {s : Scanner} {f : Failure} (h : s.comment.result = .error f) :
    s.comment = s.refuse f ∧ (f = .noComment s.location s.current? ∨ f = .openComment s.position s.location) := by
  unfold comment at h ⊢
  by_cases hc : s.current? = some '/' ∧ s.next? = some '*'
  · rw [if_pos hc] at h ⊢
    cases hb : Comment.throughCloser? (s.rest.drop Comment.opener.length) with
    | some body => rw [hb] at h; cases h
    | none =>
      rw [hb] at h
      cases hs : s.strict with
      | true => rw [hs] at h; cases h; exact ⟨rfl, Or.inr rfl⟩
      | false => rw [hs] at h; cases h
  · rw [if_neg hc] at h ⊢
    cases h
    exact ⟨rfl, Or.inl rfl⟩

theorem readThrough_failed {s : Scanner} {d : Char} {f : Failure} (h : (s.readThrough d).result = .error f) :
    s.readThrough d = s.letGo.refuse f ∧ f = .openSpan s.position s.location d := by
  unfold readThrough at h ⊢
  cases hb : Text.through? d (s.text.drop (s.position + 1).toNat) with
  | some span => rw [hb] at h; cases h
  | none => rw [hb] at h; cases h; exact ⟨rfl, rfl⟩

theorem delimited_failed {s : Scanner} {given : Literal} {f : Failure} (h : (s.delimited given).result = .error f) :
    (s.delimited given = s.refuse f ∧ f = .badDelimiter given) ∨
    (∃ d, given = .text [d] ∧ s.delimited given = s.letGo.refuse f ∧ f = .openSpan s.position s.location d) := by
  unfold delimited at h ⊢
  cases hd : given.single? with
  | none => rw [hd] at h; cases h; exact Or.inl ⟨rfl, rfl⟩
  | some d =>
    rw [hd] at h
    have hg : given = .text [d] := by
      unfold Literal.single? at hd
      split at hd
      · cases hd; rfl
      · cases hd
    exact Or.inr ⟨d, hg, readThrough_failed h⟩

theorem quotedBody_failed {s : Scanner} {f : Failure} (h : s.quotedBody.result = .error f) :
    (s.quotedBody = s.refuse f ∧ f = .noQuote s.current?) ∨
    (∃ q, s.current? = some q ∧ Alphabet.isQuote q = true ∧ s.quotedBody = s.letGo.refuse f ∧
      f = .openSpan s.position s.location q) := by
  unfold quotedBody at h ⊢
  cases hq : s.current? with
  | none => rw [hq] at h; cases h; exact Or.inl ⟨rfl, rfl⟩
  | some q =>
    rw [hq] at h
    by_cases hm : Alphabet.isQuote q = true
    · simp only [if_pos hm] at h ⊢
      obtain ⟨ho, hf⟩ := readThrough_failed (map_failed h)
      exact Or.inr ⟨q, rfl, hm, by rw [ho]; rfl, hf⟩
    · simp only [if_neg hm] at h ⊢
      cases h
      exact Or.inl ⟨rfl, rfl⟩

/-! ## Every failed call -/

/-- The two things a failed read of a span can come to: a refusal that leaves the scanner as it is, and one
    that lets go of the held span, by a read for the delimiter `d`. -/
theorem span_read_failed {s : Scanner} {a : Action} (ha : a.readsSpan = true) {f : Failure}
    (h : (s.perform a).result = .error f) :
    (s.perform a = s.refuse f ∧ (f.unterminated? = none ∨ a = .comment ∧ f = .openComment s.position s.location)) ∨
    (s.perform a = s.letGo.refuse f ∧ ∃ d, f = .openSpan s.position s.location d ∧
      (a = .delimited (.text [d]) ∨ a = .quotedBody ∧ s.current? = some d ∧ Alphabet.isQuote d = true)) := by
  cases a with
  | comment =>
    obtain ⟨ho, hk⟩ := comment_failed (map_failed h)
    refine Or.inl ⟨congrArg (Outcome.map Answer.text) ho, ?_⟩
    rcases hk with rfl | rfl
    · exact Or.inl rfl
    · exact Or.inr ⟨rfl, rfl⟩
  | delimited given =>
    rcases delimited_failed (map_failed h) with ⟨ho, rfl⟩ | ⟨d, rfl, ho, rfl⟩
    · exact Or.inl ⟨congrArg (Outcome.map Answer.text) ho, Or.inl rfl⟩
    · exact Or.inr ⟨congrArg (Outcome.map Answer.text) ho, d, rfl, Or.inl rfl⟩
  | quotedBody =>
    rcases quotedBody_failed (map_failed h) with ⟨ho, rfl⟩ | ⟨q, hq, hm, ho, rfl⟩
    · exact Or.inl ⟨congrArg (Outcome.map Answer.text) ho, Or.inl rfl⟩
    · exact Or.inr ⟨congrArg (Outcome.map Answer.text) ho, q, rfl, Or.inr ⟨rfl, hq, hm⟩⟩
  | _ => cases ha

/-- A failed read of a span moves nothing, changes no setting and logs nothing. After a mistake of the
    caller the held span is kept. A span that never closes is told by where the read started and by the
    closer it missed; the held span outlives an open comment only. -/
theorem failed_read_restores (s : Scanner) (a : Action) (ha : a.readsSpan = true) (f : Failure)
    (hf : (s.perform a).result = .error f) :
    let o := s.perform a
    o.next.position = s.position ∧ o.next.text = s.text ∧ o.next.source = s.source ∧
    o.next.toOptions = s.toOptions ∧ o.log = [] ∧
    match f.unterminated? with
    | none => o.next.held = s.held
    | some u =>
      u.start = s.position ∧ u.place = s.locate s.position ∧
      match a with
      | .comment => u.expected = Comment.closer ∧ o.next.held = s.held
      | .delimited given => given = .text u.expected ∧ o.next.held = []
      | .quotedBody => ∃ q, s.current? = some q ∧ Alphabet.isQuote q = true ∧ u.expected = [q] ∧ o.next.held = []
      | _ => False := by
  intro o
  rcases span_read_failed ha hf with ⟨ho, hk⟩ | ⟨ho, d, rfl, hk⟩
  · have ho : o = s.refuse f := ho
    rw [ho]
    refine ⟨rfl, rfl, rfl, rfl, rfl, ?_⟩
    rcases hk with hu | ⟨rfl, rfl⟩
    · rw [hu]; exact rfl
    · exact ⟨rfl, rfl, rfl, rfl⟩
  · have ho : o = s.letGo.refuse (.openSpan s.position s.location d) := ho
    rw [ho]
    refine ⟨rfl, rfl, rfl, rfl, rfl, rfl, rfl, ?_⟩
    rcases hk with rfl | ⟨rfl, hd, hm⟩
    · exact ⟨rfl, rfl⟩
    · exact ⟨d, hd, hm, rfl, rfl⟩

/-- On `x'y`, after a read through the mark: no second mark closes the quoted body that opens there. -/
theorem failed_read_restores_open_quote :
    let s := ({ text := ['x', '\'', 'y'], source := "<string>" } : Scanner).after [.delimited (.text ['\''])]
    let o := s.perform .quotedBody
    s.held = ['x', '\''] ∧ o.result = .error (.openSpan 1 ⟨1, 2⟩ '\'') ∧ o.next.position = 1 ∧ o.next.held = [] := by
  intro s o
  have h := failed_read_restores s .quotedBody rfl (.openSpan 1 ⟨1, 2⟩ '\'') rfl
  obtain ⟨hp, -, -, -, -, -, -, q, -, -, -, hh⟩ := h
  exact ⟨rfl, rfl, hp, hh⟩

end Scanner

end Lexkit
