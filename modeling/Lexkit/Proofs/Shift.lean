/-
  Lexkit.Proofs.Shift — a scanner sees only what lies ahead of its cursor.

  Put more text in front of a scanner's text and move its cursor along (`Shifted`): what lies ahead is the
  same (`Shifted.rest`). An action that neither goes back nor asks where in the whole text the cursor is
  looks at nothing else. So on both scanners it comes to the same (`Alike`): the same answer or the same
  failure, its start moved along, and two scanners of which one is again the other shifted. That holds of
  every such action (`perform_alike`), and so of every run of them (`run_alike`).
-/

import Lexkit.Proofs.Gap
import Lexkit.Proofs.Recovery
import Mathlib.Data.List.Forall2

namespace Lexkit

/-- The actions that look ahead only: they do not go back, and do not tell where in the text the cursor is. -/
def Action.looksAhead : Action → Bool
  | .unread | .restart | .atStart | .locate _ | .length | .describe | .source => false
  | _ => true

/-- The same failure, `n` characters further on; its line and column may be others. -/
inductive Failure.Shifted (n : Nat) : Failure → Failure → Prop
  | noComment (p q : Location) (got : Option Char) : Shifted n (.noComment p got) (.noComment q got)
  | badDelimiter (given : Literal) : Shifted n (.badDelimiter given) (.badDelimiter given)
  | noQuote (got : Option Char) : Shifted n (.noQuote got) (.noQuote got)
  | openComment (start : Int) (p q : Location) : Shifted n (.openComment (n + start) p) (.openComment start q)
  | openSpan (start : Int) (p q : Location) (d : Char) : Shifted n (.openSpan (n + start) p d) (.openSpan start q d)

/-- The same answer, or the same failure `n` characters further on. -/
inductive SameResult {α : Type} (n : Nat) : Except Failure α → Except Failure α → Prop
  | ok (a : α) : SameResult n (.ok a) (.ok a)
  | error {f g : Failure} : f.Shifted n g → SameResult n (.error f) (.error g)

/-- `s` is `t` with the text `u` put in front; the names of their sources and the log apart. -/
structure Scanner.Shifted (u : Text) (s t : Scanner) : Prop where
  text : s.text = u ++ t.text
  position : s.position = u.length + t.position
  started : 0 ≤ t.position
  rules : s.rules = t.rules
  strict : s.strict = t.strict
  held : s.held = t.held

/-- What one call comes to on a scanner and on the same scanner with `u` put in front. -/
structure Outcome.Alike {α : Type} (u : Text) (o p : Outcome α) : Prop where
  result : SameResult u.length o.result p.result
  next : Scanner.Shifted u o.next p.next

theorem gapEnd_shift (lineOpener : Option Text) (strict : Bool) (n i : Nat) (t : Text) :
    gapEnd lineOpener strict (n + i) t = ((gapEnd lineOpener strict i t).map (n + ·)).mapError (n + ·) := by
  fun_induction gapEnd lineOpener strict i t with
  | case1 i => rw [gapEnd]; rfl
  | case2 i c t hb ih => rw [gapEnd, if_pos hb, ← ih, Nat.add_assoc]
  | case3 i c t hb hc k hk ih => rw [gapEnd_closed hc hk, ← ih, Nat.add_assoc]
  | case4 i c t hb hc hk hs => rw [gapEnd_open hc hk, if_pos hs]; rfl
  | case5 i c t hb hc hk hs => rw [gapEnd_open hc hk, if_neg hs, Nat.add_assoc]; rfl
  | case6 i c t hb hc ho line ih =>
    rw [gapEnd, if_neg hb, if_neg hc, if_pos ho, ← ih]
    show gapEnd lineOpener strict (n + i + line) _ = _
    rw [Nat.add_assoc]
  | case7 i c t hb hc ho => rw [gapEnd, if_neg hb, if_neg hc, if_neg ho]; rfl

theorem SameResult.map {α β : Type} {n : Nat} {e e' : Except Failure α} (h : SameResult n e e') (f : α → β) :
    SameResult n (e.map f) (e'.map f) := by
  cases h with
  | ok a => exact .ok (f a)
  | error hf => exact .error hf

theorem Outcome.Alike.map {α β : Type} {u : Text} {o p : Outcome α} (h : o.Alike u p) (f : α → β) :
    (o.map f).Alike u (p.map f) := ⟨h.result.map f, h.next⟩

namespace Scanner.Shifted

variable {u : Text} {s t : Scanner}

/-! ## What lies ahead -/

theorem nonneg (h : Shifted u s t) : 0 ≤ s.position := by
  have := h.started
  rw [h.position]
  omega

theorem toNat (h : Shifted u s t) : s.position.toNat = u.length + t.position.toNat := by
  have := h.started
  rw [h.position]
  omega

theorem length (h : Shifted u s t) : s.length = u.length + t.length := by
  rw [Scanner.length, h.text, List.length_append]
  rfl

theorem rest (h : Shifted u s t) : s.rest = t.rest := by
  rw [Scanner.rest, h.text, h.toNat, List.drop_length_add_append]
  rfl

theorem current (h : Shifted u s t) : s.current? = t.current? := by
  rw [current?_eq_head h.nonneg, current?_eq_head h.started, h.rest]

theorem peek (h : Shifted u s t) : s.next? = t.next? := by
  rw [next?_eq_head h.nonneg, next?_eq_head h.started, h.rest]

theorem atEnd (h : Shifted u s t) : s.atEnd = t.atEnd := by
  rw [atEnd_eq_isEmpty h.nonneg, atEnd_eq_isEmpty h.started, h.rest]

theorem window (h : Shifted u s t) (n : Nat) : s.window n = t.window n := by
  have hs := h.nonneg
  have ht := h.started
  rw [Scanner.window, Scanner.window, if_neg (by omega), if_neg (by omega), h.rest]

/-! ## Moves -/

theorem moved (h : Shifted u s t) {p q : Int} (hp : p = u.length + q) (hq : 0 ≤ q) :
    Shifted u (s.moveTo p) (t.moveTo q) :=
  ⟨h.text, hp, hq, h.rules, h.strict, h.held⟩

theorem read (h : Shifted u s t) : Shifted u s.read.2 t.read.2 := by
  have hp := h.position
  have h0 := h.started
  have hl := h.length
  by_cases ht : t.position < t.length
  · rw [read_eq_moveTo ht, read_eq_moveTo (s := s) (by omega)]
    exact h.moved (by omega) (by omega)
  · rw [read_eq_self ht, read_eq_self (s := s) (by omega)]
    exact h

theorem skipWhile (h : Shifted u s t) (p : Char → Bool) : Shifted u (s.skipWhile p).2 (t.skipWhile p).2 := by
  rw [skipWhile_moves, skipWhile_moves, h.rest, h.toNat, Nat.add_assoc]
  exact h.moved (Int.natCast_add _ _) (Int.natCast_nonneg _)

theorem letGo (h : Shifted u s t) : Shifted u s.letGo t.letGo :=
  ⟨h.text, h.position, h.started, h.rules, h.strict, rfl⟩

/-! ## Calls -/

theorem answer_alike {α : Type} (h : Shifted u s t) (a : α) : (s.answer a).Alike u (t.answer a) := ⟨.ok a, h⟩

theorem refuse_alike {α : Type} (h : Shifted u s t) {f g : Failure} (hf : f.Shifted u.length g) :
    (s.refuse f : Outcome α).Alike u (t.refuse g) := ⟨.error hf, h⟩

/-- The same span, delivered to a cursor that was moved along. -/
theorem deliver_alike (h : Shifted u s t) (kind : SpanKind) (i j : Int) (span : Text) {c d : Cursor}
    (hp : c.position = u.length + d.position) (hd : 0 ≤ d.position) (hh : c.held = d.held) :
    (s.deliver kind i span c).Alike u (t.deliver kind j span d) :=
  ⟨.ok span, h.text, hp, hd, h.rules, h.strict, hh⟩

theorem skipWhile_alike (h : Shifted u s t) (p : Char → Bool) :
    (Scanner.moved (s.skipWhile p)).Alike u (Scanner.moved (t.skipWhile p)) := by
  have hf : (s.skipWhile p).1 = (t.skipWhile p).1 := by rw [skipWhile_moved, skipWhile_moved, h.rest]
  rw [Scanner.moved, Scanner.moved, hf]
  exact (h.skipWhile p).answer_alike _

theorem comment_alike (h : Shifted u s t) : s.comment.Alike u t.comment := by
  have hp := h.position
  have h0 := h.started
  rw [comment, comment, h.current, h.peek, h.rest, h.strict]
  split
  · split
    · exact h.deliver_alike _ _ _ _ (by simp only; omega) (by simp only; omega) h.held
    · split
      · exact h.refuse_alike (hp ▸ .openComment _ _ _)
      · exact h.deliver_alike _ _ _ _ (by simp only [h.length]; omega) (by simp only; omega) h.held
  · exact h.refuse_alike (.noComment _ _ _)

theorem readThrough_alike (h : Shifted u s t) (d : Char) : (s.readThrough d).Alike u (t.readThrough d) := by
  have hp := h.position
  have h0 := h.started
  have hs : (s.position + 1).toNat = s.position.toNat + 1 := by have := h.nonneg; omega
  have ht : (t.position + 1).toNat = t.position.toNat + 1 := by omega
  have hahead : s.text.drop (s.position + 1).toNat = t.text.drop (t.position + 1).toNat := by
    rw [hs, ht, ← drop_rest, ← drop_rest, h.rest]
  rw [readThrough, readThrough, hahead]
  split
  · exact h.deliver_alike _ _ _ _ (by simp only; omega) (by simp only; omega) rfl
  · exact h.letGo.refuse_alike (hp ▸ .openSpan _ _ _ _)

theorem delimited_alike (h : Shifted u s t) (given : Literal) :
    (s.delimited given).Alike u (t.delimited given) := by
  unfold delimited
  split
  · exact h.readThrough_alike _
  · exact h.refuse_alike (.badDelimiter given)

theorem quotedBody_alike (h : Shifted u s t) : s.quotedBody.Alike u t.quotedBody := by
  rw [quotedBody, quotedBody, h.current]
  split
  · split
    · exact (h.readThrough_alike _).map _
    · exact h.refuse_alike (.noQuote _)
  · exact h.refuse_alike (.noQuote _)

theorem identifier_alike (h : Shifted u s t) : s.identifier.Alike u t.identifier := by
  have hb : Shifted u s.skipBlanks.2 t.skipBlanks.2 := h.skipWhile _
  have hp := hb.position
  have h0 := hb.started
  simp only [identifier, hb.current, hb.rules, hb.rest]
  split
  · exact hb.deliver_alike _ _ _ _ (by simp only; omega) (by simp only; omega) hb.held
  · exact hb.answer_alike _

theorem trivia_alike (h : Shifted u s t) (lineOpener : Option Text) :
    (s.trivia lineOpener).Alike u (t.trivia lineOpener) := by
  have hs := trivia_skips lineOpener s
  have ht := trivia_skips lineOpener t
  rw [h.strict, h.toNat, h.rest, gapEnd_shift] at hs
  cases he : gapEnd lineOpener t.strict t.position.toNat t.rest with
  | ok q =>
    rw [he] at hs ht
    obtain ⟨hr, hn⟩ := hs
    obtain ⟨hr', hn'⟩ := ht
    have hflag : decide (s.position.toNat < u.length + q) = decide (t.position.toNat < q) := by
      rw [h.toNat, decide_eq_decide]
      omega
    refine ⟨?_, ?_⟩
    · rw [hr, hr', hflag]
      exact .ok _
    · rw [hn, hn']
      exact h.moved (Int.natCast_add _ _) (Int.natCast_nonneg _)
  | error q =>
    rw [he] at hs ht
    obtain ⟨hr, hn, -⟩ := hs
    obtain ⟨hr', hn', -⟩ := ht
    refine ⟨?_, ?_⟩
    · rw [hr, hr', Int.natCast_add]
      exact .error (.openComment _ _ _)
    · rw [hn, hn']
      exact h.moved (Int.natCast_add _ _) (Int.natCast_nonneg _)

end Scanner.Shifted

namespace Scanner

/-! ## Every run -/

/-- An action that looks ahead only comes to the same on both scanners. -/
theorem perform_alike {u : Text} {s t : Scanner} (h : Shifted u s t) {a : Action} (ha : a.looksAhead = true) :
    (s.perform a).Alike u (t.perform a) := by
  cases a with
  | unread | restart | atStart | locate _ | length | describe | source => cases ha
  | read =>
    have hc : s.read.1 = t.read.1 := h.read.current
    simp only [perform, hc]
    exact h.read.answer_alike _
  | current => simp only [perform, h.current]; exact h.answer_alike _
  | next => simp only [perform, h.peek]; exact h.answer_alike _
  | atEnd => simp only [perform, h.atEnd]; exact h.answer_alike _
  | atLineEnd => simp only [perform, Scanner.atLineEnd, h.current]; exact h.answer_alike _
  | starts c | continues c => simp only [perform, h.rules]; exact h.answer_alike _
  | skipToLineEnd | skipBlanks | skipLineBlanks => exact h.skipWhile_alike _
  | looksAt w folded =>
    simp only [perform, Scanner.looksAt, looksAtFolded, h.window]
    exact h.answer_alike _
  | comment => exact h.comment_alike.map _
  | delimited given => exact (h.delimited_alike given).map _
  | identifier => exact h.identifier_alike.map _
  | trivia lineOpener => exact (h.trivia_alike lineOpener).map _
  | quotedBody => exact h.quotedBody_alike.map _
  | setDebug b => exact ⟨.ok _, h.text, h.position, h.started, h.rules, h.strict, h.held⟩
  | setStrict b => exact ⟨.ok _, h.text, h.position, h.started, h.rules, rfl, h.held⟩
  | setRules r => exact ⟨.ok _, h.text, h.position, h.started, rfl, h.strict, h.held⟩

/-- Put any text in front of a scanner's text and move its cursor along: a run of actions that look ahead
    only comes to the same, step by step. The answers are the same, the failures are the same with their
    starts moved along, and after every step the same span is held and the cursor is where it would have
    been, moved along. -/
theorem run_alike (u : Text) (s t : Scanner) (h : Shifted u s t) (actions : List Action)
    (ha : ∀ a ∈ actions, a.looksAhead = true) :
    List.Forall₂ (Outcome.Alike u) (s.run actions) (t.run actions) := by
  induction actions generalizing s t with
  | nil => exact .nil
  | cons a more ih =>
    have hstep := perform_alike h (ha a List.mem_cons_self)
    exact .cons hstep (ih _ _ hstep.next fun b hb => ha b (List.mem_cons_of_mem a hb))

/-- A quoted body and an open comment, on the text alone and behind a line. -/
theorem run_alike_behind_line :
    let u : Text := ['u', '\n']
    let t : Scanner := { text := ['"', 'a', '"', '/', '*'], source := "alone", cursor := ⟨0, []⟩ }
    let s : Scanner := { text := u ++ t.text, source := "behind", debug := true, cursor := ⟨2, []⟩ }
    let actions : List Action := [.quotedBody, .read, .comment]
    Shifted u s t ∧ (∀ a ∈ actions, a.looksAhead = true) ∧
      (t.run actions).map (·.next.position) = [2, 3, 3] ∧
      List.Forall₂ (Outcome.Alike u) (s.run actions) (t.run actions) := by
  intro u t s actions
  have h : Shifted u s t := ⟨rfl, rfl, Int.le_refl 0, rfl, rfl, rfl⟩
  have ha : ∀ a ∈ actions, a.looksAhead = true := by decide
  exact ⟨h, ha, rfl, run_alike u s t h actions ha⟩

end Scanner

end Lexkit
