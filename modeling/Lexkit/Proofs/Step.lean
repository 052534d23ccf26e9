/-
  Lexkit.Proofs.Step — what one action can do to a scanner.

  Only three actions handle the held span: a restart, a delimited read and a quoted body. Every other one
  roams (`perform_roams`): it may put the cursor elsewhere on the text or change how the scanner reads, and
  keeps the rest. The two reads come to one of three things (`perform_readsThrough`): they are refused and
  nothing changes, they find no closer and let go of what was held, or they read the span behind the
  cursor, end on its last character and hold it.

  So a step roams, restarts, lets go or reads (`perform_cases`), and no step leaves the text it is on. Apart
  from the cursor, a step changes only the setting it assigns (`perform_frame`).

  A history is a list of calls, each with the scanner it was made on (`calls`).
-/

import Lexkit.Proofs.Gap
import Lexkit.Proofs.Recovery

namespace Lexkit

namespace Action

/-- The reads through a delimiter. -/
def readsThrough : Action → Bool
  | .delimited _ | .quotedBody => true
  | _ => false

/-- The actions that can change what is held. -/
def handlesHeld (a : Action) : Bool := a == .restart || a.readsThrough

theorem held_role (a : Action) : a.handlesHeld = false ∨ a = .restart ∨ a.readsThrough = true := by
  cases a with
  | restart => exact Or.inr (Or.inl rfl)
  | delimited _ | quotedBody => exact Or.inr (Or.inr rfl)
  | _ => exact Or.inl rfl

/-- What an action makes of the settings: an assignment changes one of them, every other action none. -/
def assign (a : Action) (o : Options) : Options :=
  match a with
  | .setDebug b => { o with debug := b }
  | .setStrict b => { o with strict := b }
  | .setRules r => { o with rules := r }
  | _ => o

theorem assign_debug {a : Action} (h : ∀ b, a ≠ .setDebug b) (o : Options) : (a.assign o).debug = o.debug := by
  cases a with
  | setDebug b => exact absurd rfl (h b)
  | _ => rfl

theorem assign_strict {a : Action} (h : ∀ b, a ≠ .setStrict b) (o : Options) : (a.assign o).strict = o.strict := by
  cases a with
  | setStrict b => exact absurd rfl (h b)
  | _ => rfl

end Action

/-- An action and the scanner it was asked of. -/
structure Call where
  before : Scanner
  action : Action

def Call.outcome (c : Call) : Outcome Answer := c.before.perform c.action

/-- The calls of a history, in order. -/
def Scanner.calls (s : Scanner) : List Action → List Call
  | [] => []
  | a :: more => ⟨s, a⟩ :: (s.perform a).next.calls more

namespace Scanner

/-- The cursor stands before the text, on it or at its end. -/
def OnText (s : Scanner) : Prop := -1 ≤ s.position ∧ s.position ≤ s.length

/-- From `s` to `t` only the cursor moved, without leaving the text, or the settings changed. -/
structure Roams (s t : Scanner) : Prop where
  text : t.text = s.text
  held : t.held = s.held
  onText : s.OnText → t.OnText

/-- From `s` to `t` the span behind the cursor was read: the cursor is on its last character, and it is held. -/
structure Reads (s : Scanner) (span : Text) (t : Scanner) : Prop where
  text : t.text = s.text
  follows : span <+: s.text.drop (s.position + 1).toNat
  position : t.position = s.position + span.length
  held : t.held = span

/-- The span a read through a delimiter went over, delimiter included. A quoted body is told without the
    mark that closes it. -/
def spanRead? (s : Scanner) (a : Action) : Option Text :=
  match a, (s.perform a).result with
  | .delimited _, .ok (.text span) => some span
  | .quotedBody, .ok (.text body) => some (body ++ s.current?.toList)
  | _, _ => none

theorem spanRead?_failed {s : Scanner} {a : Action} {f : Failure} (h : (s.perform a).result = .error f) :
    s.spanRead? a = none := by
  unfold spanRead?
  rw [h]
  cases a <;> rfl

theorem spanRead?_roams {s : Scanner} {a : Action} (h : a.handlesHeld = false) : s.spanRead? a = none := by
  cases a with
  | restart | delimited _ | quotedBody => cases h
  | _ => rfl

theorem calls_actions (s : Scanner) (history : List Action) : (s.calls history).map Call.action = history := by
  induction history generalizing s with
  | nil => rfl
  | cons a more ih => rw [calls, List.map_cons, ih]

/-- What holds of a scanner and is kept by each action of a history holds before each of its calls. -/
theorem calls_keep {P : Scanner → Prop} {history : List Action} {s : Scanner} (hs : P s)
    (h : ∀ a ∈ history, ∀ t, P t → P (t.perform a).next) : ∀ c ∈ s.calls history, P c.before := by
  induction history generalizing s with
  | nil =>
    intro c hc
    cases hc
  | cons a more ih =>
    intro c hc
    rcases List.mem_cons.mp hc with rfl | hc
    · exact hs
    · exact ih (h a List.mem_cons_self s hs) (fun b hb => h b (List.mem_cons_of_mem a hb)) c hc

/-! ## Roaming -/

theorem Roams.refl (s : Scanner) : Roams s s := ⟨rfl, rfl, id⟩

theorem Roams.trans {s t u : Scanner} (h : Roams s t) (k : Roams t u) : Roams s u :=
  ⟨k.text.trans h.text, k.held.trans h.held, fun hs => k.onText (h.onText hs)⟩

theorem moveTo_roams {s : Scanner} {q : Int} (h : s.OnText → -1 ≤ q ∧ q ≤ s.length) : Roams s (s.moveTo q) :=
  ⟨rfl, rfl, h⟩

theorem read_roams (s : Scanner) : Roams s s.read.2 := by
  by_cases h : s.position < s.length
  · rw [read_eq_moveTo h]
    exact moveTo_roams fun hs => ⟨by have := hs.1; omega, h⟩
  · rw [read_eq_self h]
    exact Roams.refl s

theorem unread_roams (s : Scanner) : Roams s s.unread := by
  by_cases h : -1 < s.position
  · rw [unread_eq_moveTo h]
    exact moveTo_roams fun hs => ⟨by omega, by have := hs.2; omega⟩
  · rw [unread_eq_self h]
    exact Roams.refl s

/-- A run from the cursor on ends on the text. -/
theorem run_le {s : Scanner} (h : s.OnText) (p : Char → Bool) :
    s.position.toNat + (s.rest.takeWhile p).length ≤ s.length := by
  have hrun : (s.rest.takeWhile p).length ≤ s.rest.length := (List.takeWhile_sublist p).length_le
  have := h.2
  rw [length_rest] at hrun
  omega

theorem skipWhile_roams (p : Char → Bool) (s : Scanner) : Roams s (s.skipWhile p).2 := by
  rw [skipWhile_moves]
  refine moveTo_roams fun hs => ?_
  have := run_le hs p
  omega

theorem comment_roams (s : Scanner) : Roams s s.comment.next := by
  by_cases h : s.looksAt Comment.opener = true
  · cases hk : Text.indexOf? Comment.closer (s.rest.drop 2) with
    | some k =>
      rw [comment_closed h hk]
      refine moveTo_roams fun hs => ?_
      have h0 : 0 ≤ s.position := (head_rest_of_current (looksAt_opener_iff.mp h).1).1
      have hfit : k + 2 ≤ (s.rest.drop 2).length := Text.indexOf?_fits hk
      rw [List.length_drop, length_rest] at hfit
      omega
    | none =>
      rw [comment_open h hk]
      cases s.strict with
      | true => exact Roams.refl s
      | false => exact moveTo_roams (q := s.length) fun _ => by omega
  · rw [comment, if_neg (mt looksAt_opener_iff.mpr h)]
    exact Roams.refl s

theorem identifier_roams (s : Scanner) : Roams s s.identifier.next := by
  have hb : Roams s s.skipBlanks.2 := skipWhile_roams _ s
  have h0 : 0 ≤ s.skipBlanks.2.position := skipWhile_nonneg _ s
  simp only [identifier]
  generalize s.skipBlanks.2 = t at hb h0
  split
  · exact hb.trans (moveTo_roams fun ht => by have := run_le ht t.rules.continues; omega)
  · exact hb

theorem trivia_roams (lineOpener : Option Text) (s : Scanner) : Roams s (s.trivia lineOpener).next := by
  have hs := trivia_skips lineOpener s
  have hend : ∀ q : Nat, q ≤ s.position.toNat + s.rest.length → Roams s (s.moveTo q) := fun q hq =>
    moveTo_roams fun ht => by
      have := ht.2
      rw [length_rest] at hq
      omega
  cases he : gapEnd lineOpener s.strict s.position.toNat s.rest with
  | ok q =>
    rw [he] at hs
    rw [hs.2]
    exact hend q (gapEnd_le (Or.inl he))
  | error q =>
    rw [he] at hs
    rw [hs.2.1]
    exact hend q (gapEnd_le (Or.inr he))

/-- An action that does not handle the held span roams. -/
theorem perform_roams (s : Scanner) {a : Action} (h : a.handlesHeld = false) : Roams s (s.perform a).next := by
  cases a with
  | read => exact read_roams s
  | unread => exact unread_roams s
  | skipToLineEnd | skipBlanks | skipLineBlanks => exact skipWhile_roams _ s
  | comment => exact comment_roams s
  | identifier => exact identifier_roams s
  | trivia lineOpener => exact trivia_roams lineOpener s
  | setDebug _ | setStrict _ | setRules _ => exact ⟨rfl, rfl, id⟩
  | restart | delimited _ | quotedBody => cases h
  | _ => exact Roams.refl s

/-! ## Reads through a delimiter -/

/-- A read that finds its delimiter gives the span behind the cursor, the delimiter last, and notes it. -/
theorem readThrough_ok {s : Scanner} {d : Char} {span : Text} (h : (s.readThrough d).result = .ok span) :
    s.Reads span (s.readThrough d).next ∧ (s.readThrough d).log = s.note .delimited (s.position + 1) span ∧
      ∃ v, span = v ++ [d] := by
  unfold readThrough at h ⊢
  cases hb : Text.through? d (s.text.drop (s.position + 1).toNat) with
  | none => rw [hb] at h; cases h
  | some found =>
    rw [hb] at h
    cases h
    obtain ⟨v, rest, ht, rfl, -⟩ := Text.eq_of_through? hb
    exact ⟨⟨rfl, ⟨rest, by simp [ht]⟩, rfl, rfl⟩, rfl, v, rfl⟩

theorem delimited_cases (s : Scanner) (given : Literal) :
    (∃ f, s.delimited given = s.refuse f ∧ f.unterminated? = none) ∨
    (∃ f, s.delimited given = s.letGo.refuse f ∧ f.unterminated?.isSome = true) ∨
    (∃ span, (s.delimited given).result = .ok span ∧ s.Reads span (s.delimited given).next ∧ span ≠ [] ∧
      (s.delimited given).log = s.note .delimited (s.position + 1) span) := by
  cases hr : (s.delimited given).result with
  | error f =>
    rcases delimited_failed hr with ⟨ho, rfl⟩ | ⟨d, -, ho, rfl⟩
    · exact Or.inl ⟨_, ho, rfl⟩
    · exact Or.inr (Or.inl ⟨_, ho, rfl⟩)
  | ok span =>
    refine Or.inr (Or.inr ⟨span, rfl, ?_⟩)
    unfold delimited at hr ⊢
    cases hd : given.single? with
    | none => rw [hd] at hr; cases hr
    | some d =>
      rw [hd] at hr
      obtain ⟨hreads, hlog, v, rfl⟩ := readThrough_ok hr
      exact ⟨hreads, List.append_ne_nil_of_right_ne_nil v (List.cons_ne_nil d []), hlog⟩

/-- A quoted body comes without the mark that closes it; the mark is read and held with it. -/
theorem quotedBody_cases (s : Scanner) :
    (∃ f, s.quotedBody = s.refuse f ∧ f.unterminated? = none) ∨
    (∃ f, s.quotedBody = s.letGo.refuse f ∧ f.unterminated?.isSome = true) ∨
    (∃ q body, s.current? = some q ∧ s.quotedBody.result = .ok body ∧ s.Reads (body ++ [q]) s.quotedBody.next ∧
      s.quotedBody.log = s.note .delimited (s.position + 1) (body ++ [q])) := by
  cases hr : s.quotedBody.result with
  | error f =>
    rcases quotedBody_failed hr with ⟨ho, rfl⟩ | ⟨q, -, -, ho, rfl⟩
    · exact Or.inl ⟨_, ho, rfl⟩
    · exact Or.inr (Or.inl ⟨_, ho, rfl⟩)
  | ok body =>
    refine Or.inr (Or.inr ?_)
    unfold quotedBody at hr ⊢
    cases hq : s.current? with
    | none => rw [hq] at hr; cases hr
    | some q =>
      rw [hq] at hr
      by_cases hm : Alphabet.isQuote q = true
      · simp only [if_pos hm] at hr ⊢
        cases hd : (s.readThrough q).result with
        | error f => simp [Outcome.map, hd, Except.map] at hr
        | ok span =>
          obtain ⟨hreads, hlog, v, rfl⟩ := readThrough_ok hd
          have hv : v = body := by simpa [Outcome.map, hd, Except.map] using hr
          subst hv
          exact ⟨q, v, rfl, rfl, hreads, hlog⟩
      · simp only [if_neg hm] at hr
        cases hr

/-- What a read through a delimiter comes to: a refusal that changes nothing, one that lets go of what is
    held, or a span that was read and noted. -/
theorem perform_readsThrough (s : Scanner) {a : Action} (h : a.readsThrough = true) :
    (∃ f, s.perform a = s.refuse f ∧ f.unterminated? = none) ∨
    (∃ f, s.perform a = s.letGo.refuse f ∧ f.unterminated?.isSome = true) ∨
    (∃ span, s.spanRead? a = some span ∧ s.Reads span (s.perform a).next ∧ span ≠ [] ∧
      (s.perform a).log = s.note .delimited (s.position + 1) span) := by
  cases a with
  | delimited given =>
    rcases delimited_cases s given with ⟨f, ho, hu⟩ | ⟨f, ho, hu⟩ | ⟨span, hr, hread⟩
    · exact Or.inl ⟨f, congrArg (Outcome.map Answer.text) ho, hu⟩
    · exact Or.inr (Or.inl ⟨f, congrArg (Outcome.map Answer.text) ho, hu⟩)
    · have hres : (s.perform (.delimited given)).result = .ok (.text span) := congrArg (Except.map Answer.text) hr
      exact Or.inr (Or.inr ⟨span, by unfold spanRead?; rw [hres], hread⟩)
  | quotedBody =>
    rcases quotedBody_cases s with ⟨f, ho, hu⟩ | ⟨f, ho, hu⟩ | ⟨q, body, hq, hr, hreads, hlog⟩
    · exact Or.inl ⟨f, congrArg (Outcome.map Answer.text) ho, hu⟩
    · exact Or.inr (Or.inl ⟨f, congrArg (Outcome.map Answer.text) ho, hu⟩)
    · have hres : (s.perform .quotedBody).result = .ok (.text body) := congrArg (Except.map Answer.text) hr
      exact Or.inr (Or.inr ⟨body ++ [q], by unfold spanRead?; rw [hres, hq]; rfl, hreads, by simp, hlog⟩)
  | _ => cases h

/-! ## Every step -/

theorem perform_cases (s : Scanner) (a : Action) :
    Roams s (s.perform a).next ∨ (s.perform a).next = s.restart ∨ (s.perform a).next = s.letGo ∨
      ∃ span, s.Reads span (s.perform a).next := by
  rcases a.held_role with ha | rfl | ha
  · exact Or.inl (perform_roams s ha)
  · exact Or.inr (Or.inl rfl)
  · rcases perform_readsThrough s ha with ⟨f, ho, -⟩ | ⟨f, ho, -⟩ | ⟨span, -, hr, -⟩
    · rw [ho]
      exact Or.inl (Roams.refl s)
    · rw [ho]
      exact Or.inr (Or.inr (Or.inl rfl))
    · exact Or.inr (Or.inr (Or.inr ⟨span, hr⟩))

/-! ## What a step leaves alone -/

theorem readThrough_frame (s : Scanner) (d : Char) : ∃ c, (s.readThrough d).next = { s with cursor := c } := by
  unfold readThrough
  split
  · exact ⟨_, rfl⟩
  · exact ⟨_, rfl⟩

theorem comment_frame (s : Scanner) : ∃ c, s.comment.next = { s with cursor := c } := by
  unfold comment
  split
  · split
    · exact ⟨_, rfl⟩
    · split
      · exact ⟨_, rfl⟩
      · exact ⟨_, rfl⟩
  · exact ⟨_, rfl⟩

theorem identifier_frame (s : Scanner) : ∃ c, s.identifier.next = { s with cursor := c } := by
  simp only [identifier]
  split
  · exact ⟨_, rfl⟩
  · exact ⟨_, rfl⟩

theorem trivia_frame (lineOpener : Option Text) (s : Scanner) :
    ∃ c, (s.trivia lineOpener).next = { s with cursor := c } := by
  have hs := trivia_skips lineOpener s
  cases he : gapEnd lineOpener s.strict s.position.toNat s.rest with
  | ok q =>
    rw [he] at hs
    exact ⟨_, hs.2⟩
  | error q =>
    rw [he] at hs
    exact ⟨_, hs.2.1⟩

/-- A step moves the cursor and assigns what it assigns; all else it leaves alone. -/
theorem perform_frame (s : Scanner) (a : Action) :
    ∃ c, (s.perform a).next = { a.assign s.toOptions with text := s.text, source := s.source, cursor := c } := by
  cases a with
  | comment => exact comment_frame s
  | identifier => exact identifier_frame s
  | trivia lineOpener => exact trivia_frame lineOpener s
  | delimited given =>
    simp only [perform, delimited]
    split
    · exact readThrough_frame s _
    · exact ⟨_, rfl⟩
  | quotedBody =>
    simp only [perform, quotedBody]
    split
    · split
      · exact readThrough_frame s _
      · exact ⟨_, rfl⟩
    · exact ⟨_, rfl⟩
  | _ => exact ⟨_, rfl⟩

theorem perform_debug (s : Scanner) {a : Action} (h : ∀ b, a ≠ .setDebug b) :
    (s.perform a).next.debug = s.debug := by
  obtain ⟨c, hc⟩ := perform_frame s a
  rw [hc]
  exact Action.assign_debug h s.toOptions

theorem perform_strict (s : Scanner) {a : Action} (h : ∀ b, a ≠ .setStrict b) :
    (s.perform a).next.strict = s.strict := by
  obtain ⟨c, hc⟩ := perform_frame s a
  rw [hc]
  exact Action.assign_strict h s.toOptions

end Scanner

end Lexkit
