/-
  Lexkit.Proofs.Sigils — sigils are sets of single characters.

  What may open or continue an identifier is asked of one character. No text of another length is accepted, though
  it be a piece of the sigils or lie across the border of leading and inner ones (`starts_iff`, `continues_iff`).

  So rules come to the same if their leading sigils are the same characters and all their sigils together are
  (`Same`): order and repetition mean nothing, and a leading sigil may be listed among the inner ones too. Scanners
  that differ in nothing but such rules are twins, and keep differing in nothing else (`perform_agrees`). They log
  the same too (`perform_log`): outside trivia, because they deliver the same spans, and in trivia round by round.
-/

import Lexkit.Proofs.Twin

namespace Lexkit

open Lexkit.Alphabet

namespace Identifier.Rules

variable {r r' : Rules} {c : Char}

/-- The same leading sigils, and the same sigils in all. -/
structure Same (r r' : Rules) : Prop where
  leading : ∀ c, c ∈ r.leading ↔ c ∈ r'.leading
  all : ∀ c, c ∈ r.leading ++ r.inner ↔ c ∈ r'.leading ++ r'.inner

theorem starts_iff : r.starts c = true ↔
    (('a' ≤ c ∧ c ≤ 'z') ∨ ('A' ≤ c ∧ c ≤ 'Z')) ∨ c = '_' ∨ c ∈ r.leading := by
  simp only [starts, isUnderscore, isLetter, Bool.or_eq_true, beq_iff_eq, decide_eq_true_eq, List.contains_iff_mem]
  tauto

theorem continues_iff : r.continues c = true ↔
    (('a' ≤ c ∧ c ≤ 'z') ∨ ('A' ≤ c ∧ c ≤ 'Z')) ∨ ('0' ≤ c ∧ c ≤ '9') ∨ c = '_' ∨ c ∈ r.leading ++ r.inner := by
  simp only [continues, starts_iff, isDigit, Bool.or_eq_true, decide_eq_true_eq, List.contains_iff_mem,
    List.mem_append]
  tauto

theorem Same.refl (r : Rules) : r.Same r := ⟨fun _ => Iff.rfl, fun _ => Iff.rfl⟩

theorem Same.starts (h : r.Same r') : r'.starts = r.starts := by
  funext c
  rw [Bool.eq_iff_iff, starts_iff, starts_iff, h.leading]

theorem Same.continues (h : r.Same r') : r'.continues = r.continues := by
  funext c
  rw [Bool.eq_iff_iff, continues_iff, continues_iff, h.all]

end Identifier.Rules

theorem Alphabet.holdsOf_iff {p : Char → Bool} {w : Option Text} :
    holdsOf p w = true ↔ ∃ c, w = some [c] ∧ p c = true := by
  rcases w with _ | _ | ⟨c, _ | ⟨d, w⟩⟩ <;> simp [holdsOf]

/-- The same action; two that set rules may set rules of the same sigils. -/
def Action.SameButSigils (a b : Action) : Prop :=
  a = b ∨ ∃ r r', Identifier.Rules.Same r r' ∧ a = .setRules r ∧ b = .setRules r'

/-- Settings that differ in nothing but rules of the same sigils stay so. -/
theorem Action.assign_agrees (a : Action) {o o' : Options} (h : o.rules.Same o'.rules)
    (he : o' = { o with rules := o'.rules }) :
    (a.assign o).rules.Same (a.assign o').rules ∧ a.assign o' = { a.assign o with rules := (a.assign o').rules } := by
  rw [he]
  cases a with
  | setRules r => exact ⟨.refl r, rfl⟩
  | _ => exact ⟨h, rfl⟩

/-- Scanners that differ in nothing but rules of the same sigils. -/
structure Scanner.Agrees (s t : Scanner) : Prop where
  sigils : s.rules.Same t.rules
  otherwise : t = { s with rules := t.rules }

/-- Calls that come to the same, told and logged in the same words. -/
structure Call.Agrees [Printable] (c d : Call) : Prop where
  result : d.outcome.result = c.outcome.result
  message : d.message? = c.message?
  log : d.outcome.log = c.outcome.log
  lines : d.lines = c.lines
  next : c.outcome.next.Agrees d.outcome.next

namespace Scanner

variable {s t : Scanner}

/-! ## Logs of twins -/

/-- Twins that come to the same deliver the same. -/
theorem delivered_same (h : Twin s t) {a : Action} (ho : (s.perform a).Same (t.perform a)) :
    Call.delivered? ⟨t, a⟩ = Call.delivered? ⟨s, a⟩ := by
  simp only [Call.delivered?, Call.outcome, Call.span?, spanRead?, ho.result, ho.next.position, h.position, h.current]

theorem log_same (h : Twin s t) (hd : t.debug = s.debug) {a : Action} (ho : (s.perform a).Same (t.perform a))
    (ha : a.isTrivia = false) : (t.perform a).log = (s.perform a).log := by
  have hs : (s.perform a).log = _ := Call.log_eq (c := ⟨s, a⟩) ha
  have ht : (t.perform a).log = _ := Call.log_eq (c := ⟨t, a⟩) ha
  rw [hs, ht, delivered_same h ho, hd]

/-- Rounds that go on alike or end alike. -/
inductive Round.Same : Round → Round → Prop where
  | done (moved : Bool) (s t : Scanner) : Same (.done moved s) (.done moved t)
  | failed (f : Failure) (s t : Scanner) : Same (.failed f s) (.failed f t)
  | again {s t : Scanner} (log : List Record) : Twin s t → t.debug = s.debug → Same (.again s log) (.again t log)

theorem round_same (h : Twin s t) (hd : t.debug = s.debug) (lineOpener : Option Text) :
    (s.round lineOpener).Same (t.round lineOpener) := by
  have hb : Twin s.skipBlanks.2 t.skipBlanks.2 := h.skipWhile _
  have hdb : t.skipBlanks.2.debug = s.skipBlanks.2.debug := hd
  have hmoved : t.skipBlanks.1 = s.skipBlanks.1 := by
    rw [skipBlanks, skipBlanks, skipWhile_moved, skipWhile_moved, h.rest]
  simp only [round, hmoved]
  generalize s.skipBlanks.2 = u at hb hdb
  generalize t.skipBlanks.2 = v at hb hdb
  have hlook : ∀ w, v.looksAt w = u.looksAt w := fun w => by simp only [looksAt, hb.window]
  have hline : v.opensLine lineOpener = u.opensLine lineOpener := by simp only [opensLine, hlook]
  have hc : u.comment.Same v.comment := hb.comment_same
  rw [hlook, hline, hc.result]
  split
  · cases u.comment.result with
    | error f => exact .failed f _ _
    | ok span =>
      have hlog : v.comment.log = u.comment.log := log_same hb hdb (a := .comment) (hc.map _) rfl
      have hdebug : v.comment.next.debug = u.comment.next.debug := by
        obtain ⟨c, hu⟩ := comment_frame u
        obtain ⟨d, hv⟩ := comment_frame v
        rw [hu, hv]
        exact hdb
      rw [hlog]
      exact .again _ hc.next hdebug
  · split
    · exact .again [] (hb.skipWhile _) hdb
    · exact .done _ _ _

theorem trivia_log (h : Twin s t) (hd : t.debug = s.debug) (lineOpener : Option Text) :
    (t.trivia lineOpener).log = (s.trivia lineOpener).log := by
  fun_induction s.trivia lineOpener generalizing t with
  | case1 s _ u hr | case2 s _ u hr =>
    have hround := round_same h hd lineOpener
    rw [hr] at hround
    rw [trivia_eq]
    generalize t.round lineOpener = x at hround
    cases hround
    rfl
  | case3 s u log hr more =>
    rename_i ih
    have hround := round_same h hd lineOpener
    rw [hr] at hround
    rw [trivia_eq]
    generalize t.round lineOpener = x at hround
    cases hround with
    | again log hu hdu => exact congrArg (log ++ ·) (ih hu hdu)

/-- Twins in the same debug mode log the same wherever they come to the same. -/
theorem perform_log (h : Twin s t) (hd : t.debug = s.debug) {a : Action} (ho : (s.perform a).Same (t.perform a)) :
    (t.perform a).log = (s.perform a).log := by
  cases a with
  | trivia lineOpener => exact trivia_log h hd lineOpener
  | _ => exact log_same h hd ho rfl

/-! ## Every step -/

theorem Agrees.twin (h : s.Agrees t) : Twin s t := by
  rw [h.otherwise]
  exact ⟨rfl, rfl, rfl, h.sigils.starts, h.sigils.continues⟩

theorem perform_agrees (h : s.Agrees t) {a b : Action} (hab : a.SameButSigils b) :
    (s.perform a).next.Agrees (t.perform b).next := by
  rcases hab with rfl | ⟨r, r', hr, rfl, rfl⟩
  · obtain ⟨c, hc⟩ := perform_frame s a
    obtain ⟨d, hd⟩ := perform_frame t a
    have hcursor : d = c := by
      have htwin := (perform_twin h.twin (Or.inl (Eq.refl a))).cursor
      rwa [hc, hd] at htwin
    obtain ⟨hsigils, hassign⟩ := Action.assign_agrees a h.sigils (congrArg Scanner.toOptions h.otherwise)
    have htext : t.text = s.text := h.twin.text
    have hsource : t.source = s.source := by rw [h.otherwise]
    rw [hc, hd, hcursor, htext, hsource]
    exact ⟨hsigils, by rw [hassign]⟩
  · exact ⟨hr, by rw [h.otherwise]; rfl⟩

theorem call_agrees [Printable] (h : s.Agrees t) {a b : Action} (hab : a.SameButSigils b) :
    Call.Agrees ⟨s, a⟩ ⟨t, b⟩ := by
  have hsource : t.source = s.source := by rw [h.otherwise]
  have hdebug : t.debug = s.debug := by rw [h.otherwise]
  have hresult : (t.perform b).result = (s.perform a).result ∧ (t.perform b).log = (s.perform a).log := by
    rcases hab with rfl | ⟨r, r', -, rfl, rfl⟩
    · have ho := perform_same h.twin (a := a) (Or.inr hsource)
      exact ⟨ho.result, perform_log h.twin hdebug ho⟩
    · exact ⟨rfl, rfl⟩
  have hline : t.logLine = s.logLine := by
    funext r
    simp only [logLine, hsource, h.twin.locate]
  refine ⟨hresult.1, ?_, hresult.2, ?_, perform_agrees h hab⟩
  · simp only [Call.message?, Call.outcome, hresult.1, hsource]
  · simp only [Call.lines, Call.outcome, hresult.2, hline]

/-! ## Every run -/

theorem calls_agree [Printable] (h : s.Agrees t) {actions others : List Action}
    (ha : List.Forall₂ Action.SameButSigils actions others) :
    List.Forall₂ Call.Agrees (s.calls actions) (t.calls others) := by
  induction ha generalizing s t with
  | nil => exact .nil
  | cons hab _ ih => exact .cons (call_agrees h hab) (ih (perform_agrees h hab))

/-- What rules accept is a text of exactly one character: to open an identifier, a letter of ASCII, an underscore or
    a leading sigil; inside it, also a digit or an inner sigil. Two fresh scanners on the same text that differ only in
    rules with the same leading sigils and the same sigils in all come to the same in every step of every run: result,
    message of a failure, records, their lines in the log, and the scanner left, rules of the same sigils apart. That
    holds also where the run sets rules, and sets different ones of the same sigils. -/
theorem sigils_are_sets [Printable] (r : Identifier.Rules) :
    (∀ w, holdsOf r.starts w = true ↔ ∃ c, w = some [c] ∧
      ((('a' ≤ c ∧ c ≤ 'z') ∨ ('A' ≤ c ∧ c ≤ 'Z')) ∨ c = '_' ∨ c ∈ r.leading)) ∧
    (∀ w, holdsOf r.continues w = true ↔ ∃ c, w = some [c] ∧
      ((('a' ≤ c ∧ c ≤ 'z') ∨ ('A' ≤ c ∧ c ≤ 'Z')) ∨ ('0' ≤ c ∧ c ≤ '9') ∨ c = '_' ∨ c ∈ r.leading ++ r.inner)) ∧
    ∀ r', r.Same r' → ∀ (t : Text) (source : Option String) (o : Options) (s₁ s₂ : Scanner),
      start (.text t) source { o with rules := r } = .ok s₁ → start (.text t) source { o with rules := r' } = .ok s₂ →
      ∀ actions₁ actions₂, List.Forall₂ Action.SameButSigils actions₁ actions₂ →
        List.Forall₂ Call.Agrees (s₁.calls actions₁) (s₂.calls actions₂) := by
  refine ⟨?_, ?_, ?_⟩
  · intro w
    simp only [holdsOf_iff, Identifier.Rules.starts_iff]
  · intro w
    simp only [holdsOf_iff, Identifier.Rules.continues_iff]
  · intro r' hr t source o s₁ s₂ h₁ h₂ actions₁ actions₂ ha
    obtain ⟨-, rfl⟩ := start_ok h₁
    obtain ⟨-, rfl⟩ := start_ok h₂
    exact calls_agree ⟨hr, rfl⟩ ha

/-- Leading `$` and inner `%$`, or leading `$$` and inner `%`: on `$a%` both read the one word and log it. The two
    characters `$%` lie across the border of the sigils and are none. -/
theorem sigils_are_sets_moved :
    let r : Identifier.Rules := { leading := ['$'], inner := ['%', '$'] }
    let r' : Identifier.Rules := { leading := ['$', '$'], inner := ['%'] }
    holdsOf r.continues (some ['$', '%']) = false ∧ r.Same r' ∧
    ∃ s₁ s₂, start (.text ['$', 'a', '%']) none { debug := true, rules := r } = .ok s₁ ∧
      start (.text ['$', 'a', '%']) none { debug := true, rules := r' } = .ok s₂ ∧
      s₁.logged [.identifier] = [⟨.identifier, 0, ['$', 'a', '%']⟩] ∧
      List.Forall₂ Call.Agrees (s₁.calls [.identifier, .setRules r]) (s₂.calls [.identifier, .setRules r']) := by
  intro r r'
  have hsame : r.Same r' := ⟨fun c => by simp [r, r'], fun c => by simp [r, r']; tauto⟩
  obtain ⟨-, hcontinues, hruns⟩ := sigils_are_sets r
  refine ⟨?_, hsame, _, _, rfl, rfl, by decide, ?_⟩
  · rw [Bool.eq_false_iff]
    exact fun h => by simpa using (hcontinues _).mp h
  · exact hruns r' hsame ['$', 'a', '%'] none { debug := true } _ _ rfl rfl _ _
      (.cons (Or.inl rfl) (.cons (Or.inr ⟨r, r', hsame, rfl, rfl⟩) .nil))

end Scanner

end Lexkit
