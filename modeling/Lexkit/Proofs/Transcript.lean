/-
  Lexkit.Proofs.Transcript — the log of a scanner in debug mode is a transcript of what it delivered.

  Three kinds of call deliver a span of the text: comments, reads through a delimiter and identifiers that are
  not empty. What was delivered is told by what the call gave and by where the cursor stood (`delivered?`). It
  is a piece of the text, and it lies ahead of the cursor the call started from (`Delivers`).

  A call that is no skip of trivia logs exactly what it delivered, in debug mode, and nothing otherwise
  (`delivered_cases`). A skip of trivia logs what the comments inside it log. So with debug mode on throughout,
  the log lists the spans that the calls of the unrolled history delivered, in order.

  What stands in the log is said apart from how it is made: which calls consumed a span, of what kind and from which
  index on (`Consumes`, `consumes_iff`), and that each of these has its line, word for word, and no other call has one
  (`Transcribes`). The lines of every history are that transcript (`log_is_transcript`).
-/

import Lexkit.Proofs.Held
import Lexkit.Proofs.Reach
import Lexkit.Proofs.Unrolled
import Mathlib.Data.List.Basic

namespace Lexkit

/-- The index behind the last character of the span. -/
def Record.stop (r : Record) : Int := r.start + r.span.length

/-- How far a span lies ahead of the cursor. A delimited span starts behind the character under the cursor
    and ends with the one that is under it then; the other spans start under the cursor and end before it. -/
def SpanKind.lead : SpanKind → Int
  | .delimited => 1
  | .comment | .identifier => 0

/-- The span a call delivered. It starts under the cursor for a comment, behind the cursor for a read through
    a delimiter, and for an identifier, which may have skipped blanks, as far before the cursor as it is long. -/
def Call.delivered? (c : Call) : Option Record :=
  match c.action, c.outcome.result with
  | .comment, .ok (.text span) => some ⟨.comment, c.before.position, span⟩
  | .identifier, .ok (.text (d :: word)) =>
    some ⟨.identifier, c.outcome.next.position - (d :: word).length, d :: word⟩
  | _, _ => c.span?.map fun span => ⟨.delimited, c.before.position + 1, span⟩

/-- The call consumed a span: what that is called in the log, the index the span starts at, and its characters, as
    the call gave them. A comment starts under the cursor, a read through a delimiter behind it, and an identifier,
    which is not empty, ends before the cursor that it leaves. A quoted body is told with the mark that closes it. -/
inductive Call.Consumes (c : Call) : String → Nat → Text → Prop where
  | comment {k : Nat} {span : Text} : c.action = .comment → c.outcome.result = .ok (.text span) →
      c.before.position = k → Consumes c "skipped comment" k span
  | delimited {d : Literal} {k : Nat} {span : Text} : c.action = .delimited d → c.outcome.result = .ok (.text span) →
      c.before.position + 1 = k → Consumes c "read up to delimiter" k span
  | quotedBody {q : Char} {k : Nat} {body : Text} : c.action = .quotedBody → c.before.current? = some q →
      c.outcome.result = .ok (.text body) → c.before.position + 1 = k →
      Consumes c "read up to delimiter" k (body ++ [q])
  | identifier {k : Nat} {word : Text} : c.action = .identifier → c.outcome.result = .ok (.text word) → word ≠ [] →
      c.outcome.next.position = k + word.length → Consumes c "identifier" k word

/-- The lines a call makes in the log. -/
def Call.lines [Printable] (c : Call) : List String := c.outcome.log.map c.before.logLine

/-- Line by line what the calls on a text consumed: source, line and column of the start, what was consumed and the
    span quoted. -/
inductive Transcribes [Printable] (t : Text) (source : String) : List Call → List String → Prop where
  | nil : Transcribes t source [] []
  | consumed {c : Call} {what : String} {k : Nat} {span : Text} {more : List Call} {lines : List String} :
      c.Consumes what k span → Transcribes t source more lines →
      Transcribes t source (c :: more)
        ((source ++ ":" ++ Nat.repr ((Lines.of t).locate k).line ++ ":" ++ Nat.repr ((Lines.of t).locate k).column ++
          ": " ++ what ++ " " ++ span.quoted) :: lines)
  | silent {c : Call} {more : List Call} {lines : List String} : (∀ what k span, ¬ c.Consumes what k span) →
      Transcribes t source more lines → Transcribes t source (c :: more) lines

namespace Scanner

/-- From `s` to `t` the span of `r` was delivered: a piece of the text ahead of the cursor, up to where the
    cursor is now. -/
structure Delivers (s : Scanner) (r : Record) (t : Scanner) : Prop where
  ahead : s.position + r.kind.lead ≤ r.start
  stop : r.stop = t.position + r.kind.lead
  started : -1 ≤ s.position → 0 ≤ r.start
  piece : r.span <+: s.text.drop r.start.toNat
  nonempty : r.span ≠ []

theorem note_debug {s : Scanner} (h : s.debug = true) (r : Record) : s.note r.kind r.start r.span = [r] := by
  simp [note, h]

theorem note_silent {s : Scanner} (h : s.debug = false) (r : Record) : s.note r.kind r.start r.span = [] := by
  simp [note, h]

/-! ## The calls that deliver -/

/-- A span that starts under the cursor. -/
theorem delivers_here {s t : Scanner} {kind : SpanKind} {span : Text} (hk : kind.lead = 0) (h0 : 0 ≤ s.position)
    (ht : t.position = s.position + span.length) (hp : span <+: s.rest) (hne : span ≠ []) :
    s.Delivers ⟨kind, s.position, span⟩ t := by
  refine ⟨?_, ?_, fun _ => h0, hp, hne⟩
  · simp only [hk]
    omega
  · simp only [Record.stop, hk]
    omega

/-- What is delivered from further on is ahead of the cursor too. -/
theorem Onward.delivers {s t u : Scanner} {r : Record} (h : Onward s t) (hd : t.Delivers r u) : s.Delivers r u := by
  have hp := h.position
  have ha := hd.ahead
  refine ⟨by omega, hd.stop, fun hs => hd.started (by omega), ?_, hd.nonempty⟩
  rw [← h.text]
  exact hd.piece

/-- A comment is refused, or delivered and noted. -/
theorem comment_delivers (s : Scanner) :
    (∃ f, s.comment = s.refuse f) ∨
    ∃ span, s.comment.result = .ok span ∧ s.comment.log = s.note .comment s.position span ∧
      s.Delivers ⟨.comment, s.position, span⟩ s.comment.next := by
  by_cases h : s.looksAt Comment.opener = true
  · obtain ⟨h0, hhead⟩ := head_rest_of_current (looksAt_opener_iff.mp h).1
    have hne : s.rest ≠ [] := by
      intro hnil
      rw [hnil] at hhead
      cases hhead
    cases hk : Text.indexOf? Comment.closer (s.rest.drop 2) with
    | some k =>
      have hfit : k + 2 ≤ (s.rest.drop 2).length := Text.indexOf?_fits hk
      have htake : (s.rest.take (2 + (k + 2))).length = 2 + (k + 2) := by
        rw [List.length_drop] at hfit
        rw [List.length_take]
        omega
      rw [comment_closed h hk]
      refine Or.inr ⟨_, rfl, rfl, delivers_here rfl h0 ?_ (List.take_prefix _ _) (by simp [hne])⟩
      rw [htake]
      rfl
    | none =>
      rw [comment_open h hk]
      cases s.strict with
      | true => exact Or.inl ⟨_, rfl⟩
      | false =>
        refine Or.inr ⟨_, rfl, rfl, delivers_here rfl h0 ?_ (List.prefix_refl _) hne⟩
        have hpos := List.length_pos_iff.mpr hne
        show (s.length : Int) = s.position + s.rest.length
        rw [length_rest] at hpos ⊢
        omega
  · rw [comment, if_neg (mt looksAt_opener_iff.mpr h)]
    exact Or.inl ⟨_, rfl⟩

/-- An identifier is empty, or delivered and noted. -/
theorem identifier_delivers (s : Scanner) :
    (s.identifier.result = .ok [] ∧ s.identifier.log = []) ∨
    ∃ i word, s.identifier.result = .ok word ∧ s.identifier.log = s.note .identifier i word ∧
      s.Delivers ⟨.identifier, i, word⟩ s.identifier.next := by
  -- all that follows is about the scanner behind the blanks, `t`
  have hb : Onward s s.skipBlanks.2 := skipWhile_onward _ s
  have h0 : 0 ≤ s.skipBlanks.2.position := by
    rw [skipBlanks, skipWhile_moves]
    exact Int.natCast_nonneg _
  have hnote : s.skipBlanks.2.note = s.note := rfl
  simp only [identifier]
  rw [← hnote]
  generalize s.skipBlanks.2 = t at hb h0
  split
  · rename_i hs
    have hne : t.rest.takeWhile t.rules.continues ≠ [] := by
      rw [current?_eq_head h0] at hs
      cases hr : t.rest with
      | nil => simp [hr] at hs
      | cons c r =>
        have hc : t.rules.starts c = true := by simpa [hr] using hs
        rw [List.takeWhile_cons_of_pos (Identifier.Rules.continues_of_starts hc)]
        exact List.cons_ne_nil _ _
    exact Or.inr ⟨t.position, _, rfl, rfl, hb.delivers (delivers_here rfl h0 rfl (List.takeWhile_prefix _) hne)⟩
  · exact Or.inl ⟨rfl, rfl⟩

theorem Reads.delivers {s t : Scanner} {span : Text} (h : s.Reads span t) (hne : span ≠ []) :
    s.Delivers ⟨.delimited, s.position + 1, span⟩ t := by
  have hp := h.position
  refine ⟨Int.le_refl _, ?_, fun hs => ?_, h.follows, hne⟩
  · simp only [Record.stop, SpanKind.lead]
    omega
  · show 0 ≤ s.position + 1
    omega

end Scanner

namespace Call

/-- What a read through a delimiter delivers is the span it went over. -/
theorem delivered_readsThrough {c : Call} (h : c.action.readsThrough = true) :
    c.delivered? = c.span?.map fun span => ⟨.delimited, c.before.position + 1, span⟩ := by
  obtain ⟨s, a⟩ := c
  cases a with
  | delimited _ | quotedBody => rfl
  | _ => cases h

/-- A call that is no skip of trivia delivers nothing and logs nothing, or delivers a span and notes it. -/
theorem delivered_cases (c : Call) (h : c.action.isTrivia = false) :
    (c.delivered? = none ∧ c.outcome.log = []) ∨
    ∃ r, c.delivered? = some r ∧ c.outcome.log = c.before.note r.kind r.start r.span ∧
      c.before.Delivers r c.outcome.next := by
  -- the two reads through a delimiter come to the same three things, all others are looked at one by one
  by_cases ht : c.action.readsThrough = true
  · rw [delivered_readsThrough ht]
    rcases c.before.perform_readsThrough ht with ⟨f, ho, -⟩ | ⟨f, ho, -⟩ | ⟨span, hs, hr, hne, hlog⟩
    · have hs : c.span? = none := Scanner.spanRead?_failed (congrArg Outcome.result ho)
      exact Or.inl ⟨by rw [hs]; rfl, congrArg Outcome.log ho⟩
    · have hs : c.span? = none := Scanner.spanRead?_failed (congrArg Outcome.result ho)
      exact Or.inl ⟨by rw [hs]; rfl, congrArg Outcome.log ho⟩
    · have hs : c.span? = some span := hs
      exact Or.inr ⟨⟨.delimited, c.before.position + 1, span⟩, by rw [hs]; rfl, hlog, hr.delivers hne⟩
  · obtain ⟨s, a⟩ := c
    cases a with
    | trivia lineOpener => cases h
    | delimited _ | quotedBody => exact absurd rfl ht
    | comment =>
      rcases s.comment_delivers with ⟨f, ho⟩ | ⟨span, hr, hlog, hd⟩
      · have ho : s.perform .comment = s.refuse f := congrArg (Outcome.map Answer.text) ho
        simp only [delivered?, outcome, ho]
        exact Or.inl ⟨rfl, rfl⟩
      · have hr : (s.perform .comment).result = .ok (.text span) := congrArg (Except.map Answer.text) hr
        simp only [delivered?, outcome, hr]
        exact Or.inr ⟨_, rfl, hlog, hd⟩
    | identifier =>
      rcases s.identifier_delivers with ⟨hr, hlog⟩ | ⟨i, word, hr, hlog, hd⟩
      · have hr : (s.perform .identifier).result = .ok (.text []) := congrArg (Except.map Answer.text) hr
        simp only [delivered?, outcome, hr]
        exact Or.inl ⟨rfl, hlog⟩
      · have hr : (s.perform .identifier).result = .ok (.text word) := congrArg (Except.map Answer.text) hr
        have hstop : i + word.length = s.identifier.next.position + 0 := hd.stop
        have hi : (s.perform .identifier).next.position - word.length = i := by
          show s.identifier.next.position - word.length = i
          omega
        cases word with
        | nil => exact absurd rfl hd.nonempty
        | cons d more =>
          simp only [delivered?, outcome, hr, hi]
          exact Or.inr ⟨_, rfl, hlog, hd⟩
    | _ => exact Or.inl ⟨rfl, rfl⟩

/-- Outside trivia, a call logs what it delivers, in debug mode. -/
theorem log_eq {c : Call} (h : c.action.isTrivia = false) :
    c.outcome.log = if c.before.debug then c.delivered?.toList else [] := by
  rcases c.delivered_cases h with ⟨hn, hlog⟩ | ⟨r, hr, hlog, -⟩
  · simp [hn, hlog]
  · simp [hr, hlog, Scanner.note]

/-- No skip of trivia delivers a span itself; the comments inside it do. -/
theorem delivered_trivia {c : Call} (h : c.action.isTrivia = true) : c.delivered? = none := by
  obtain ⟨s, a⟩ := c
  cases a with
  | trivia lineOpener => rfl
  | _ => cases h

theorem delivers_of_delivered {c : Call} {r : Record} (h : c.delivered? = some r) :
    c.before.Delivers r c.outcome.next := by
  by_cases ht : c.action.isTrivia = true
  · rw [delivered_trivia ht] at h
    cases h
  · rcases c.delivered_cases (Bool.eq_false_iff.mpr ht) with ⟨hn, -⟩ | ⟨r', hs, -, hd⟩
    · rw [hn] at h
      cases h
    · rw [hs] at h
      cases h
      exact hd

/-- A quoted body that succeeded opened with the character under the cursor. -/
theorem opened_of_quotedBody {s : Scanner} {body : Text} (h : (s.perform .quotedBody).result = .ok (.text body)) :
    ∃ q, s.current? = some q := by
  cases hq : s.current? with
  | some q => exact ⟨q, rfl⟩
  | none =>
    have hrefused : s.quotedBody = s.refuse (.noQuote none) := by rw [Scanner.quotedBody, hq]
    have hresult : (s.quotedBody.map Answer.text).result = .ok (.text body) := h
    rw [hrefused] at hresult
    cases hresult

/-- The calls that read a span through a delimiter, and how they tell it. -/
theorem span?_eq_some_iff {c : Call} {span : Text} :
    c.span? = some span ↔
      (∃ d, c.action = .delimited d ∧ c.outcome.result = .ok (.text span)) ∨
      ∃ q body, c.action = .quotedBody ∧ c.before.current? = some q ∧ c.outcome.result = .ok (.text body) ∧
        span = body ++ [q] := by
  obtain ⟨s, a⟩ := c
  simp only [span?, outcome]
  constructor
  · intro h
    unfold Scanner.spanRead? at h
    split at h
    · rename_i hr
      cases h
      exact Or.inl ⟨_, rfl, hr⟩
    · rename_i hr
      cases h
      obtain ⟨q, hq⟩ := opened_of_quotedBody hr
      exact Or.inr ⟨q, _, rfl, hq, hr, by rw [hq]; rfl⟩
    · cases h
  · rintro (⟨d, rfl, hr⟩ | ⟨q, body, rfl, hq, hr, rfl⟩)
    · simp only [Scanner.spanRead?, hr]
    · simp only [Scanner.spanRead?, hr, hq]
      rfl

/-- The calls that consume a span are those that deliver one. -/
theorem consumes_iff {c : Call} {what : String} {k : Nat} {span : Text} :
    c.Consumes what k span ↔ ∃ kind, c.delivered? = some ⟨kind, k, span⟩ ∧ what = kind.label := by
  constructor
  · intro h
    cases h with
    | comment ha hr hk => exact ⟨.comment, by simp only [delivered?, ha, hr, hk], rfl⟩
    | delimited ha hr hk =>
      have hspan := span?_eq_some_iff.mpr (Or.inl ⟨_, ha, hr⟩)
      exact ⟨.delimited, by rw [delivered_readsThrough (ha ▸ rfl), hspan, hk]; rfl, rfl⟩
    | quotedBody ha hq hr hk =>
      have hspan := span?_eq_some_iff.mpr (Or.inr ⟨_, _, ha, hq, hr, rfl⟩)
      exact ⟨.delimited, by rw [delivered_readsThrough (ha ▸ rfl), hspan, hk]; rfl, rfl⟩
    | identifier ha hr hne hk =>
      cases span with
      | nil => exact absurd rfl hne
      | cons d word =>
        have hstart : c.outcome.next.position - ((d :: word).length : Int) = k := by omega
        exact ⟨.identifier, by simp only [delivered?, ha, hr, hstart], rfl⟩
  · intro h
    obtain ⟨kind, hd, rfl⟩ := h
    unfold delivered? at hd
    split at hd
    · rename_i ha hr
      obtain ⟨rfl, hk, rfl⟩ := Record.mk.inj (Option.some.inj hd)
      exact .comment ha hr hk
    · rename_i ha hr
      obtain ⟨rfl, hk, rfl⟩ := Record.mk.inj (Option.some.inj hd)
      exact .identifier ha hr (List.cons_ne_nil _ _) (by omega)
    · obtain ⟨u, hu, hd⟩ := Option.map_eq_some_iff.mp hd
      obtain ⟨rfl, hk, rfl⟩ := Record.mk.inj hd
      rcases span?_eq_some_iff.mp hu with ⟨d, ha, hr⟩ | ⟨q, body, ha, hq, hr, rfl⟩
      · exact .delimited ha hr hk
      · exact .quotedBody ha hq hr hk

/-- In debug mode, outside trivia, a call has a line for what it delivers. -/
theorem lines_eq [Printable] {c : Call} (h : c.action.isTrivia = false) (hd : c.before.debug = true) :
    c.lines = c.delivered?.toList.map c.before.logLine := by
  rw [lines, log_eq h, hd]
  rfl

end Call

namespace Scanner

/-! ## Whole histories -/

theorem run_eq_calls (s : Scanner) (history : List Action) : s.run history = (s.calls history).map Call.outcome := by
  induction history generalizing s with
  | nil => rfl
  | cons a more ih =>
    rw [run, calls, List.map_cons, ih]
    rfl

/-- Debug mode stays on unless it is turned off. -/
theorem perform_stays_debug {s : Scanner} (hs : s.debug = true) {a : Action} (ha : a ≠ .setDebug false) :
    (s.perform a).next.debug = true := by
  by_cases h : ∃ b, a = .setDebug b
  · obtain ⟨b, rfl⟩ := h
    cases b with
    | true => rfl
    | false => exact absurd rfl ha
  · rw [perform_debug s fun b hb => h ⟨b, hb⟩]
    exact hs

/-- In debug mode, a history without trivia logs what its calls deliver. -/
theorem logged_eq_delivered {s : Scanner} (hs : s.debug = true) {history : List Action}
    (h : ∀ a ∈ history, a.isTrivia = false ∧ a ≠ .setDebug false) :
    s.logged history = (s.calls history).filterMap Call.delivered? := by
  induction history generalizing s with
  | nil => rfl
  | cons a more ih =>
    obtain ⟨ht, hd⟩ := h a List.mem_cons_self
    have hrest := ih (perform_stays_debug hs hd) fun b hb => h b (List.mem_cons_of_mem a hb)
    rw [logged_cons, calls, List.filterMap_cons, hrest]
    rcases Call.delivered_cases ⟨s, a⟩ ht with ⟨hn, hlog⟩ | ⟨r, hr, hlog, -⟩
    · have hlog : (s.perform a).log = [] := hlog
      rw [hn, hlog]
      rfl
    · have hlog : (s.perform a).log = s.note r.kind r.start r.span := hlog
      rw [hr, hlog, note_debug hs]
      rfl

/-- No history changes the text or the name of its source. -/
theorem calls_kept (s : Scanner) (history : List Action) :
    ∀ c ∈ s.calls history, c.before.text = s.text ∧ c.before.source = s.source := by
  refine calls_keep (P := fun t => t.text = s.text ∧ t.source = s.source) ⟨rfl, rfl⟩ ?_
  rintro a - t ⟨ht, hsrc⟩
  obtain ⟨cursor, hc⟩ := perform_frame t a
  rw [hc]
  exact ⟨ht, hsrc⟩

/-- A line of the log shows the source and the text, and nothing else of the scanner. -/
theorem calls_logLine [Printable] (s : Scanner) (history : List Action) :
    ∀ c ∈ s.calls history, c.before.logLine = s.logLine := by
  intro c hc
  obtain ⟨ht, hsrc⟩ := calls_kept s history c hc
  funext r
  simp only [logLine, locate, ht, hsrc]

theorem lines_eq_logged [Printable] (s : Scanner) (history : List Action) :
    (s.calls history).flatMap Call.lines = (s.logged history).map s.logLine := by
  have hline : ∀ c ∈ s.calls history, c.lines = c.outcome.log.map s.logLine := by
    intro c hc
    rw [Call.lines, calls_logLine s history c hc]
  rw [List.flatMap_congr hline, logged, run_eq_calls, List.flatMap_map, List.map_flatMap]

theorem logLine_eq [Printable] (s : Scanner) (r : Record) :
    s.logLine r = s.source ++ ":" ++ Nat.repr ((Lines.of s.text).locate r.start).line ++ ":" ++
      Nat.repr ((Lines.of s.text).locate r.start).column ++ ": " ++ r.kind.label ++ " " ++ r.span.quoted := by
  simp only [logLine, locate, Location.render, String.append_assoc]

/-- Calls that each have a line for what they deliver, at an index of the text, are transcribed by their lines. -/
theorem transcribes_of_delivered [Printable] {s : Scanner} {calls : List Call}
    (hlines : ∀ c ∈ calls, c.lines = c.delivered?.toList.map s.logLine)
    (hstart : ∀ c ∈ calls, ∀ r, c.delivered? = some r → 0 ≤ r.start) :
    Transcribes s.text s.source calls (calls.flatMap Call.lines) := by
  induction calls with
  | nil => exact .nil
  | cons c more ih =>
    rw [List.forall_mem_cons] at hlines hstart
    have hmore := ih hlines.2 hstart.2
    rw [List.flatMap_cons, hlines.1]
    cases hd : c.delivered? with
    | none =>
      refine .silent (fun what k span hc => ?_) hmore
      obtain ⟨kind, hk, -⟩ := Call.consumes_iff.mp hc
      rw [hd] at hk
      cases hk
    | some r =>
      obtain ⟨kind, start, span⟩ := r
      obtain ⟨k, rfl⟩ := Int.eq_ofNat_of_zero_le (hstart.1 _ hd)
      have hconsumed : c.Consumes kind.label k span := Call.consumes_iff.mpr ⟨kind, hd, rfl⟩
      rw [Option.toList_some, List.map_singleton, List.singleton_append, logLine_eq]
      exact .consumed hconsumed hmore

/-- With debug mode on throughout, the log of a run is the transcript of what it consumed, in order: one line for every
    comment, also inside skipped trivia and also where these fail later on, one for every read through a delimiter,
    closer included, one for every identifier that is not empty, and no other. Each line shows the source, the line and
    the column of an index of the text, what was consumed, and the piece of the text that starts there and is not
    empty. The calls are those of the history with its skips of trivia written out, as skips of blanks, comments and
    ends of lines that lead where the skip leads. -/
theorem log_is_transcript [Printable] (t : Text) (source : Option String) (o : Options) (s : Scanner)
    (h : start (.text t) source o = .ok s) (hd : o.debug = true) (actions : List Action)
    (ha : .setDebug false ∉ actions) :
    let calls := s.calls (s.unrolled actions)
    Transcribes t s.source calls ((s.calls actions).flatMap Call.lines) ∧
    s.logged actions = calls.filterMap Call.delivered? ∧
    (∀ c ∈ calls, ∀ what k span, c.Consumes what k span → span ≠ [] ∧ span = (t.drop k).take span.length) ∧
    ∀ c ∈ s.calls actions, c.before.after (c.before.parts c.action) = c.outcome.next ∧
      (c.before.parts c.action = [c.action] ∨ c.action.isTrivia = true ∧
        ∀ b ∈ c.before.parts c.action, b = .skipBlanks ∨ b = .comment ∨ b = .skipToLineEnd) := by
  intro calls
  have hin := start_inside h
  have hs : s.debug = true := by
    obtain ⟨-, rfl⟩ := start_ok h
    exact hd
  have hsimple : ∀ a ∈ s.unrolled actions, a.isTrivia = false ∧ a ≠ .setDebug false := by
    intro a hmem
    rcases mem_unrolled hmem with ⟨hin, ht⟩ | hk
    · exact ⟨ht, fun he => ha (he ▸ hin)⟩
    · rcases Action.cases_of_skipsTrivia hk with rfl | rfl | rfl <;> exact ⟨rfl, nofun⟩
  have hlines : ∀ c ∈ calls, c.lines = c.delivered?.toList.map s.logLine := by
    intro c hc
    have hmem : c.action ∈ s.unrolled actions := calls_actions s (s.unrolled actions) ▸ List.mem_map_of_mem hc
    have hdebug : c.before.debug = true :=
      calls_keep (P := fun u => u.debug = true) hs (fun a ha u hu => perform_stays_debug hu (hsimple a ha).2) c hc
    rw [Call.lines_eq (hsimple _ hmem).1 hdebug, calls_logLine s _ c hc]
  have hinside : ∀ c ∈ calls, Inside t c.before := calls_inside hin _
  refine ⟨?_, ?_, ?_, ?_⟩
  · rw [lines_eq_logged, ← logged_unrolled, ← lines_eq_logged, ← hin.text]
    refine transcribes_of_delivered hlines fun c hc r hr => ?_
    exact (Call.delivers_of_delivered hr).started (hinside c hc).onText.1
  · rw [← logged_unrolled]
    exact logged_eq_delivered hs hsimple
  · intro c hc what k span hcons
    obtain ⟨kind, hr, -⟩ := Call.consumes_iff.mp hcons
    have hdel := Call.delivers_of_delivered hr
    have hpiece : span <+: c.before.text.drop k := hdel.piece
    rw [(hinside c hc).text] at hpiece
    exact ⟨hdel.nonempty, List.prefix_iff_eq_take.mp hpiece⟩
  · intro c _
    refine ⟨(perform_parts c.before c.action).1.symm, ?_⟩
    cases hact : c.action with
    | trivia lineOpener => exact Or.inr ⟨rfl, fun b hb => Action.cases_of_skipsTrivia (mem_triviaParts hb)⟩
    | _ => exact Or.inl rfl

/-- On `x=y;/**//*`: a word, a value up to its semicolon, and a comment inside trivia that fail at the next one. -/
theorem log_is_transcript_open_trivia :
    ∃ s, start (.text ['x', '=', 'y', ';', '/', '*', '*', '/', '/', '*']) none { debug := true } = .ok s ∧
      let actions : List Action := [.identifier, .delimited (.text [';']), .read, .trivia none]
      ((s.after [.identifier, .delimited (.text [';']), .read]).trivia none).result = .error (.openComment 8 ⟨1, 9⟩) ∧
      s.logged actions = [⟨.identifier, 0, ['x']⟩, ⟨.delimited, 2, ['y', ';']⟩, ⟨.comment, 4, ['/', '*', '*', '/']⟩] ∧
      Transcribes s.text "<string>" (s.calls (s.unrolled actions))
        ["<string>:1:1: identifier 'x'", "<string>:1:3: read up to delimiter 'y;'",
          "<string>:1:5: skipped comment '/**/'"] := by
  obtain ⟨hlines, hlog, -⟩ := log_is_transcript ['x', '=', 'y', ';', '/', '*', '*', '/', '/', '*'] none { debug := true }
    _ rfl rfl [.identifier, .delimited (.text [';']), .read, .trivia none] (by decide)
  refine ⟨_, rfl, by decide +kernel, hlog.trans (by decide +kernel), ?_⟩
  refine Eq.subst (motive := Transcribes _ _ _) ?_ hlines
  decide +kernel

end Scanner

end Lexkit
