/-
  Lexkit.Proofs.Twin — neither debug mode nor the name of the source has a say in what a scanner does.

  Two scanners are twins if they stand at the same place of the same text and read alike (`Twin`). Nothing is
  asked of their debug modes and sources. On twins every action comes to the same and leaves twins
  (`perform_twin`); only an action that tells the source tells it as it is. So the two runs cannot be told
  apart by what they give or by what the scanners show (`runs_indistinct`). What debug mode does change is
  the log, and while it is off nothing is logged (`perform_silent`).
-/

import Lexkit.Proofs.Transcript
import Mathlib.Data.List.Forall2

namespace Lexkit

/-- What a scanner shows of itself. -/
structure View where
  position : Int
  current : Option Char
  next : Option Char
  atStart : Bool
  atEnd : Bool
  atLineEnd : Bool
  held : Text
  location : Location
  deriving DecidableEq, Repr

def Scanner.view (s : Scanner) : View :=
  ⟨s.position, s.current?, s.next?, s.atStart, s.atEnd, s.atLineEnd, s.held, s.location⟩

/-- The actions whose answer tells the source. -/
def Action.tellsSource : Action → Bool
  | .describe | .source => true
  | _ => false

/-- The same action; two that set debug mode may set it differently. -/
def Action.SameButDebug (a b : Action) : Prop := a = b ∨ ∃ x y, a = .setDebug x ∧ b = .setDebug y

/-- The message a failed call comes with. -/
def Call.message? [Printable] (c : Call) : Option String :=
  match c.outcome.result with
  | .ok _ => none
  | .error f => some (f.message c.before.source)

/-- Two calls that come to the same, their logs apart. Where the sources have different names, the messages
    of failures may differ, and what tells the source. -/
structure Call.Indistinct [Printable] (c d : Call) : Prop where
  result : c.action.tellsSource = false ∨ d.before.source = c.before.source → d.outcome.result = c.outcome.result
  message : d.before.source = c.before.source → d.message? = c.message?
  view : d.outcome.next.view = c.outcome.next.view

/-- At the same place of the same text, reading alike. -/
structure Scanner.Twin (s t : Scanner) : Prop where
  text : t.text = s.text
  cursor : t.cursor = s.cursor
  strict : t.strict = s.strict
  starts : t.rules.starts = s.rules.starts
  continues : t.rules.continues = s.rules.continues

/-- Outcomes that only their logs tell apart. -/
structure Outcome.Same {α : Type} (o p : Outcome α) : Prop where
  result : p.result = o.result
  next : Scanner.Twin o.next p.next

theorem Outcome.Same.map {α β : Type} {o p : Outcome α} (h : o.Same p) (f : α → β) : (o.map f).Same (p.map f) :=
  ⟨congrArg (Except.map f) h.result, h.next⟩

namespace Scanner.Twin

variable {s t : Scanner}

/-! ## What twins show -/

theorem position (h : Twin s t) : t.position = s.position := congrArg Cursor.position h.cursor

theorem length (h : Twin s t) : t.length = s.length := congrArg List.length h.text

theorem rest (h : Twin s t) : t.rest = s.rest := by
  rw [Scanner.rest, h.text, h.position]
  rfl

theorem current (h : Twin s t) : t.current? = s.current? := by
  rw [current?, h.text, h.position]
  rfl

theorem peek (h : Twin s t) : t.next? = s.next? := by
  rw [next?, h.text, h.position]
  rfl

theorem locate (h : Twin s t) (p : Int) : t.locate p = s.locate p := by
  rw [Scanner.locate, h.text]
  rfl

theorem location (h : Twin s t) : t.location = s.location := by
  rw [Scanner.location, h.locate, h.position]
  rfl

theorem window (h : Twin s t) (n : Nat) : t.window n = s.window n := by
  rw [Scanner.window, h.position, h.rest]
  rfl

theorem view (h : Twin s t) : t.view = s.view := by
  have hheld : t.held = s.held := congrArg Cursor.held h.cursor
  simp only [Scanner.view, atStart, atEnd, atLineEnd, h.position, h.current, h.peek, h.length, h.location, hheld]

/-! ## Calls on twins -/

/-- Both put the cursor at the same place. -/
theorem moved (h : Twin s t) (c : Cursor) : Twin { s with cursor := c } { t with cursor := c } :=
  ⟨h.text, rfl, h.strict, h.starts, h.continues⟩

theorem answer_same {α : Type} (h : Twin s t) (a : α) : (s.answer a).Same (t.answer a) := ⟨rfl, h⟩

theorem refuse_same {α : Type} (h : Twin s t) (f : Failure) : (s.refuse f : Outcome α).Same (t.refuse f) := ⟨rfl, h⟩

theorem deliver_same (h : Twin s t) (kind : SpanKind) (i : Int) (span : Text) (c : Cursor) :
    (s.deliver kind i span c).Same (t.deliver kind i span c) := ⟨rfl, h.moved c⟩

theorem skipWhile (h : Twin s t) (p : Char → Bool) : Twin (s.skipWhile p).2 (t.skipWhile p).2 := by
  simp only [Scanner.skipWhile, moveTo, h.rest, h.position, h.cursor]
  exact h.moved _

theorem skipWhile_same (h : Twin s t) (p : Char → Bool) :
    (Scanner.moved (s.skipWhile p)).Same (Scanner.moved (t.skipWhile p)) := by
  have hf : (t.skipWhile p).1 = (s.skipWhile p).1 := by rw [skipWhile_moved, skipWhile_moved, h.rest]
  rw [Scanner.moved, Scanner.moved, hf]
  exact (h.skipWhile p).answer_same _

theorem comment_same (h : Twin s t) : s.comment.Same t.comment := by
  simp only [comment, h.current, h.peek, h.rest, h.strict, h.position, h.location, h.length, h.cursor]
  split
  · split
    · exact h.deliver_same _ _ _ _
    · split
      · exact h.refuse_same _
      · exact h.deliver_same _ _ _ _
  · exact h.refuse_same _

theorem readThrough_same (h : Twin s t) (d : Char) : (s.readThrough d).Same (t.readThrough d) := by
  have hahead : t.text.drop (t.position + 1).toNat = s.text.drop (s.position + 1).toNat := by rw [h.text, h.position]
  rw [readThrough, readThrough, hahead, h.position, h.location, h.cursor]
  split
  · exact h.deliver_same _ _ _ _
  · exact (h.moved _).refuse_same _

theorem delimited_same (h : Twin s t) (given : Literal) : (s.delimited given).Same (t.delimited given) := by
  unfold delimited
  split
  · exact h.readThrough_same _
  · exact h.refuse_same _

theorem quotedBody_same (h : Twin s t) : s.quotedBody.Same t.quotedBody := by
  simp only [quotedBody, h.current]
  split
  · split
    · exact (h.readThrough_same _).map _
    · exact h.refuse_same _
  · exact h.refuse_same _

theorem identifier_same (h : Twin s t) : s.identifier.Same t.identifier := by
  have hb : Twin s.skipBlanks.2 t.skipBlanks.2 := h.skipWhile _
  simp only [identifier, hb.current, hb.starts, hb.continues, hb.rest, hb.position, hb.cursor]
  split
  · exact hb.deliver_same _ _ _ _
  · exact hb.answer_same _

/-- Both skip the same gap. -/
theorem trivia_same (h : Twin s t) (lineOpener : Option Text) : (s.trivia lineOpener).Same (t.trivia lineOpener) := by
  have hs := trivia_skips lineOpener s
  have ht := trivia_skips lineOpener t
  rw [h.strict, h.position, h.rest] at ht
  have hmove : ∀ q : Nat, Twin (s.moveTo q) (t.moveTo q) := by
    intro q
    simp only [moveTo, h.cursor]
    exact h.moved _
  cases he : gapEnd lineOpener s.strict s.position.toNat s.rest with
  | ok q =>
    rw [he] at hs ht
    refine ⟨?_, ?_⟩
    · rw [hs.1, ht.1, h.position]
    · rw [hs.2, ht.2]
      exact hmove q
  | error q =>
    rw [he] at hs ht
    refine ⟨?_, ?_⟩
    · rw [hs.1, ht.1, h.locate]
    · rw [hs.2.1, ht.2.1]
      exact hmove q

end Scanner.Twin

namespace Scanner

variable {s t : Scanner}

/-! ## Every step -/

/-- An action comes to the same on twins, unless it tells sources of different names. -/
theorem perform_same (h : Twin s t) {a : Action} (ha : a.tellsSource = false ∨ t.source = s.source) :
    (s.perform a).Same (t.perform a) := by
  cases a with
  | read =>
    have hread : Twin s.read.2 t.read.2 := by
      simp only [read, h.cursor, h.length]
      exact h.moved _
    have hc : t.read.1 = s.read.1 := hread.current
    simp only [perform, hc]
    exact hread.answer_same _
  | unread =>
    have hback : Twin s.unread t.unread := by
      simp only [unread, h.cursor]
      exact h.moved _
    exact hback.answer_same _
  | restart => exact (h.moved {}).answer_same _
  | current => simp only [perform, h.current]; exact h.answer_same _
  | next => simp only [perform, h.peek]; exact h.answer_same _
  | atStart => simp only [perform, atStart, h.position]; exact h.answer_same _
  | atEnd => simp only [perform, atEnd, h.position, h.length]; exact h.answer_same _
  | atLineEnd => simp only [perform, atLineEnd, h.current]; exact h.answer_same _
  | starts c => simp only [perform, h.starts]; exact h.answer_same _
  | continues c => simp only [perform, h.continues]; exact h.answer_same _
  | skipToLineEnd | skipBlanks | skipLineBlanks => exact h.skipWhile_same _
  | looksAt w folded => simp only [perform, looksAt, looksAtFolded, h.window]; exact h.answer_same _
  | comment => exact h.comment_same.map _
  | delimited given => exact (h.delimited_same given).map _
  | identifier => exact h.identifier_same.map _
  | trivia lineOpener => exact (h.trivia_same lineOpener).map _
  | quotedBody => exact h.quotedBody_same.map _
  | locate p => simp only [perform, h.locate, h.position]; exact h.answer_same _
  | length => simp only [perform, h.length]; exact h.answer_same _
  | describe =>
    rcases ha with ha | ha
    · cases ha
    · have hd : t.describe = s.describe := by
        unfold describe
        rw [ha, h.position, h.length]
      simp only [perform, hd]
      exact h.answer_same _
  | source =>
    rcases ha with ha | ha
    · cases ha
    · simp only [perform, ha]
      exact h.answer_same _
  | setDebug b => exact ⟨rfl, h.text, h.cursor, h.strict, h.starts, h.continues⟩
  | setStrict b => exact ⟨rfl, h.text, h.cursor, rfl, h.starts, h.continues⟩
  | setRules r => exact ⟨rfl, h.text, h.cursor, h.strict, rfl, rfl⟩

/-- Twins stay twins, also where debug mode is set differently. -/
theorem perform_twin (h : Twin s t) {a b : Action} (hab : a.SameButDebug b) :
    Twin (s.perform a).next (t.perform b).next := by
  rcases hab with rfl | ⟨x, y, rfl, rfl⟩
  · by_cases ha : a.tellsSource = true
    · cases a with
      | describe | source => exact h
      | _ => cases ha
    · exact (perform_same h (Or.inl (Bool.eq_false_iff.mpr ha))).next
  · exact ⟨h.text, h.cursor, h.strict, h.starts, h.continues⟩

theorem perform_indistinct [Printable] (h : Twin s t) {a b : Action} (hab : a.SameButDebug b) :
    Call.Indistinct ⟨s, a⟩ ⟨t, b⟩ := by
  have hresult : a.tellsSource = false ∨ t.source = s.source → (t.perform b).result = (s.perform a).result := by
    intro ha
    rcases hab with rfl | ⟨x, y, rfl, rfl⟩
    · exact (perform_same h ha).result
    · rfl
  refine ⟨hresult, ?_, (perform_twin h hab).view⟩
  intro hsrc
  simp only [Call.message?, Call.outcome, hresult (Or.inr hsrc), show t.source = s.source from hsrc]

/-! ## Silence -/

theorem log_silent (hs : s.debug = false) {a : Action} (ha : a.isTrivia = false) : (s.perform a).log = [] := by
  rcases Call.delivered_cases ⟨s, a⟩ ha with ⟨-, hlog⟩ | ⟨r, -, hlog, -⟩
  · exact hlog
  · exact hlog.trans (note_silent hs r)

theorem logged_silent {history : List Action} (hs : s.debug = false) (h : ∀ a ∈ history, a.skipsTrivia = true) :
    s.logged history = [] := by
  induction history generalizing s with
  | nil => rfl
  | cons a more ih =>
    have ha : a.isTrivia = false ∧ ∀ b, a ≠ .setDebug b := by
      rcases Action.cases_of_skipsTrivia (h a List.mem_cons_self) with rfl | rfl | rfl <;> exact ⟨rfl, nofun⟩
    have hd : (s.perform a).next.debug = false := (perform_debug s ha.2).trans hs
    rw [logged_cons, log_silent hs ha.1, ih hd fun b hb => h b (List.mem_cons_of_mem a hb)]
    rfl

/-- With debug mode off nothing is logged, not by the comments inside trivia either. -/
theorem perform_silent (hs : s.debug = false) (a : Action) : (s.perform a).log = [] := by
  cases a with
  | trivia lineOpener =>
    have hlog : (s.trivia lineOpener).log = [] := by
      rw [(trivia_parts lineOpener s).2]
      exact logged_silent hs fun b hb => mem_triviaParts hb
    exact hlog
  | _ => exact log_silent hs rfl

/-! ## Every run -/

theorem calls_indistinct [Printable] (h : Twin s t) {actions others : List Action}
    (ha : List.Forall₂ Action.SameButDebug actions others) :
    List.Forall₂ Call.Indistinct (s.calls actions) (t.calls others) := by
  induction ha generalizing s t with
  | nil => exact .nil
  | cons hab _ ih => exact .cons (perform_indistinct h hab) (ih (perform_twin h hab))

/-- Two fresh scanners on the same text, with the same rules and the same strictness, whatever their debug
    modes and the names of their sources, run the same actions; only what debug mode is set to may differ.
    Step by step they give the same result, which for a failure is its kind and all it tells, and show the
    same afterwards; if the sources have the same name, the messages are the same too. Describing the scanner
    and telling its source apart, nothing shows which of the two it is. A step with debug mode off logs nothing. -/
theorem runs_indistinct [Printable] (t : Text) (o : Options) (d₁ d₂ : Bool) (source₁ source₂ : Option String)
    (s₁ s₂ : Scanner)
    (h₁ : start (.text t) source₁ { o with debug := d₁ } = .ok s₁)
    (h₂ : start (.text t) source₂ { o with debug := d₂ } = .ok s₂) (actions₁ actions₂ : List Action)
    (ha : List.Forall₂ Action.SameButDebug actions₁ actions₂) :
    List.Forall₂ Call.Indistinct (s₁.calls actions₁) (s₂.calls actions₂) ∧
    ∀ c ∈ s₁.calls actions₁ ++ s₂.calls actions₂, c.before.debug = false → c.outcome.log = [] := by
  have htwin : Twin s₁ s₂ := by
    obtain ⟨-, rfl⟩ := start_ok h₁
    obtain ⟨-, rfl⟩ := start_ok h₂
    exact ⟨rfl, rfl, rfl, rfl, rfl⟩
  exact ⟨calls_indistinct htwin ha, fun c _ hc => perform_silent hc c.action⟩

/-- On `a/*`: one scanner logs the word and then stops logging, the other has it the other way round; both fail
    on the comment alike. -/
theorem runs_indistinct_crossed :
    ∃ s₁ s₂, start (.text ['a', '/', '*']) (some "f") { debug := true } = .ok s₁ ∧
      start (.text ['a', '/', '*']) none {} = .ok s₂ ∧
      let actions₁ : List Action := [.identifier, .setDebug false, .comment]
      let actions₂ : List Action := [.identifier, .setDebug true, .comment]
      s₁.logged actions₁ = [⟨.identifier, 0, ['a']⟩] ∧ s₂.logged actions₂ = [] ∧
      ((s₂.after [.identifier, .setDebug true]).perform .comment).result = .error (.openComment 1 ⟨1, 2⟩) ∧
      List.Forall₂ Action.SameButDebug actions₁ actions₂ ∧
      List.Forall₂ Call.Indistinct (s₁.calls actions₁) (s₂.calls actions₂) := by
  have hsame : List.Forall₂ Action.SameButDebug [.identifier, .setDebug false, .comment]
      [.identifier, .setDebug true, .comment] :=
    .cons (Or.inl rfl) (.cons (Or.inr ⟨false, true, rfl, rfl⟩) (.cons (Or.inl rfl) .nil))
  obtain ⟨hind, -⟩ := runs_indistinct ['a', '/', '*'] {} true false (some "f") none _ _ rfl rfl _ _ hsame
  exact ⟨_, _, rfl, rfl, by decide, by decide, by decide, hsame, hind⟩

end Scanner

end Lexkit
