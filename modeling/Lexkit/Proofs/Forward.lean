/-
  Lexkit.Proofs.Forward — on the way forward the end stays reached, and no text is delivered twice.

  Only putting back and restarting take the cursor back; every other action leaves it where it is or moves it
  on (`perform_onward`), failures and assignments included. So does every history without the two
  (`after_onward`), and from the end of the text there is nowhere further to go (`end_holds_forward`).

  What a call delivers lies ahead of the cursor it starts from, and the cursor ends at its end. So of two spans
  delivered on the way forward the later one starts where the earlier one ends or behind (`delivered_ordered`).
  The two ends count differently: a delimited span ends with the character under the cursor, and a comment or
  an identifier may start there.
-/

import Lexkit.Proofs.Transcript

namespace Lexkit

def Action.goesBack : Action → Bool
  | .unread | .restart => true
  | _ => false

namespace SpanKind

theorem lead_nonneg (k : SpanKind) : 0 ≤ k.lead := by
  cases k <;> decide

/-- Only a delimited span before another kind lies further ahead of its cursor than the later span of its own. -/
theorem lead_le {k l : SpanKind} (h : ¬ (k = .delimited ∧ l ≠ .delimited)) : k.lead ≤ l.lead := by
  cases k with
  | comment | identifier => exact l.lead_nonneg
  | delimited =>
    cases l with
    | delimited => exact Int.le_refl _
    | comment | identifier => exact absurd ⟨rfl, nofun⟩ h

end SpanKind

namespace Scanner

/-! ## No step back -/

theorem Onward.refl (s : Scanner) : Onward s s := ⟨rfl, Int.le_refl _⟩

theorem comment_onward (s : Scanner) : Onward s s.comment.next := by
  rcases s.comment_delivers with ⟨f, ho⟩ | ⟨span, -, -, hd⟩
  · rw [ho]
    exact Onward.refl s
  · have hstop : s.position + span.length = s.comment.next.position + 0 := hd.stop
    exact ⟨s.comment_roams.text, by omega⟩

theorem delimited_onward (s : Scanner) (given : Literal) : Onward s (s.delimited given).next := by
  unfold delimited
  split
  · exact readThrough_onward s _
  · exact Onward.refl s

theorem perform_onward (s : Scanner) {a : Action} (h : a.goesBack = false) : Onward s (s.perform a).next := by
  cases a with
  | unread | restart => cases h
  | read => exact read_onward s
  | skipToLineEnd | skipBlanks | skipLineBlanks => exact skipWhile_onward _ s
  | comment => exact comment_onward s
  | delimited given => exact delimited_onward s given
  | identifier => exact identifier_onward s
  | trivia lineOpener => exact trivia_onward lineOpener s
  | quotedBody => exact quotedBody_onward s
  | _ => exact ⟨rfl, Int.le_refl _⟩

theorem after_onward {s : Scanner} {history : List Action} (h : ∀ a ∈ history, a.goesBack = false) :
    Onward s (s.after history) := by
  induction history generalizing s with
  | nil => exact Onward.refl s
  | cons a more ih =>
    have hstep : Onward s (s.perform a).next := perform_onward s (h a List.mem_cons_self)
    exact hstep.trans (ih fun b hb => h b (List.mem_cons_of_mem a hb))

theorem Onward.atEnd {s t : Scanner} (h : Onward s t) (hs : s.atEnd = true) : t.atEnd = true := by
  have hpos := h.position
  have hlen : t.length = s.length := congrArg List.length h.text
  rw [Scanner.atEnd, decide_eq_true_eq] at hs ⊢
  omega

/-- From any state, an action that is neither a putting back nor a restart leaves the cursor where it is or
    further on, whether it succeeds or fails and however the scanner is set to read. So once a run has reached
    the end of the text, it stays there for as long as it neither puts back nor restarts. -/
theorem end_holds_forward (s : Scanner) :
    (∀ a, a.goesBack = false → s.position ≤ (s.perform a).next.position) ∧
    ∀ past ahead, (∀ a ∈ ahead, a.goesBack = false) → (s.after past).atEnd = true →
      (s.after (past ++ ahead)).atEnd = true := by
  refine ⟨fun a ha => (perform_onward s ha).position, ?_⟩
  intro past ahead ha hend
  rw [after_append]
  exact (after_onward ha).atEnd hend

/-- On `/*`: taken to the end as a comment, the text stays used up through failed reads; putting back ends that. -/
theorem end_holds_forward_open_comment :
    ∃ s, start (.text ['/', '*']) none { strict := false } = .ok s ∧
      let past : List Action := [.read, .comment]
      let ahead : List Action := [.setStrict true, .comment, .delimited (.text ['x']), .trivia none, .identifier]
      (s.after past).atEnd = true ∧ (s.after (past ++ ahead)).atEnd = true ∧
      (s.after (past ++ ahead ++ [.unread])).atEnd = false :=
  ⟨_, rfl, rfl, (end_holds_forward _).2 _ _ (by decide) rfl, by decide +kernel⟩

/-! ## Spans in order -/

/-- On the way forward every span that is delivered lies ahead of where the cursor was. -/
theorem delivered_ahead {s : Scanner} {history : List Action} (h : ∀ a ∈ history, a.goesBack = false) :
    ∀ r ∈ (s.calls history).filterMap Call.delivered?, s.position + r.kind.lead ≤ r.start := by
  intro r hr
  obtain ⟨c, hc, hcr⟩ := List.mem_filterMap.mp hr
  have hon : s.position ≤ c.before.position := by
    refine calls_keep (P := fun t => s.position ≤ t.position) (Int.le_refl _) ?_ c hc
    intro a ha t ht
    exact Int.le_trans ht (perform_onward t (h a ha)).position
  have := (Call.delivers_of_delivered hcr).ahead
  omega

theorem delivered_ordered {s : Scanner} {history : List Action} (h : ∀ a ∈ history, a.goesBack = false) :
    ((s.calls history).filterMap Call.delivered?).Pairwise fun earlier later =>
      earlier.stop - earlier.kind.lead + later.kind.lead ≤ later.start := by
  induction history generalizing s with
  | nil => exact .nil
  | cons a more ih =>
    have hmore : ∀ b ∈ more, b.goesBack = false := fun b hb => h b (List.mem_cons_of_mem a hb)
    rw [calls, List.filterMap_cons]
    cases hr : Call.delivered? ⟨s, a⟩ with
    | none => exact ih hmore
    | some r =>
      refine .cons ?_ (ih hmore)
      intro later hl
      have hstop : r.stop = (s.perform a).next.position + r.kind.lead := (Call.delivers_of_delivered hr).stop
      have hahead := delivered_ahead hmore later hl
      omega

/-- A run that never goes back delivers no text twice. Each delivered span is a piece of the text that ends
    where its call left the cursor, a delimited one with the character under it. Of two spans the later one
    starts at the end of the earlier one or behind, the comments inside trivia counted; only the delimiter
    under the cursor may come again, as the first character of a comment or an identifier. -/
theorem deliveries_never_overlap (t : Text) (source : Option String) (o : Options) (s : Scanner)
    (h : start (.text t) source o = .ok s) (actions : List Action) (ha : ∀ a ∈ actions, a.goesBack = false) :
    let calls := s.calls (s.unrolled actions)
    s.after (s.unrolled actions) = s.after actions ∧
    (∀ c ∈ calls, ∀ r, c.delivered? = some r →
      r.stop = c.outcome.next.position + r.kind.lead ∧ r.span = (t.drop r.start.toNat).take r.span.length) ∧
    (calls.filterMap Call.delivered?).Pairwise fun earlier later =>
      (if earlier.kind = .delimited ∧ later.kind ≠ .delimited then earlier.stop - 1 else earlier.stop) ≤ later.start := by
  intro calls
  refine ⟨after_unrolled s actions, ?_, ?_⟩
  · intro c hc r hr
    have hd := Call.delivers_of_delivered hr
    have hin : Inside t c.before := calls_inside (start_inside h) _ c hc
    exact ⟨hd.stop, List.prefix_iff_eq_take.mp (hin.text ▸ hd.piece)⟩
  · have hforward : ∀ a ∈ s.unrolled actions, a.goesBack = false := by
      intro a hmem
      rcases mem_unrolled hmem with ⟨hin, -⟩ | hk
      · exact ha a hin
      · rcases Action.cases_of_skipsTrivia hk with rfl | rfl | rfl <;> rfl
    refine (delivered_ordered hforward).imp ?_
    intro earlier later hle
    by_cases hagain : earlier.kind = .delimited ∧ later.kind ≠ .delimited
    · have he : earlier.kind.lead = 1 := congrArg SpanKind.lead hagain.1
      have hl := later.kind.lead_nonneg
      rw [if_pos hagain]
      omega
    · have hl := SpanKind.lead_le hagain
      rw [if_neg hagain]
      omega

/-- On `a/**/c`: the delimiter of the first read opens the comment behind it, and the word follows the comment. -/
theorem deliveries_never_overlap_slash :
    ∃ s, start (.text ['a', '/', '*', '*', '/', 'c']) none {} = .ok s ∧
      let delivered := (s.calls (s.unrolled [.delimited (.text ['/']), .trivia none, .identifier])).filterMap Call.delivered?
      delivered = [⟨.delimited, 0, ['a', '/']⟩, ⟨.comment, 1, ['/', '*', '*', '/']⟩, ⟨.identifier, 5, ['c']⟩] ∧
      delivered.Pairwise fun earlier later =>
        (if earlier.kind = .delimited ∧ later.kind ≠ .delimited then earlier.stop - 1 else earlier.stop) ≤ later.start := by
  obtain ⟨-, -, hordered⟩ := deliveries_never_overlap ['a', '/', '*', '*', '/', 'c'] none {} _ rfl
    [.delimited (.text ['/']), .trivia none, .identifier] (by decide)
  exact ⟨_, rfl, by decide +kernel, hordered⟩

end Scanner

end Lexkit
