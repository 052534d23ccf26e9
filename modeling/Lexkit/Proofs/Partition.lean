/-
  Lexkit.Proofs.Partition — reads through delimiters cut the text into pieces, none lost and none twice.

  The cursor divides the text into what it has passed, the character under it included (`passed`), and what is
  ahead of it (`ahead`). A read for a delimiter that stands ahead takes the text through the first one and moves
  that much from ahead to passed; where none stands ahead, the cursor keeps its place (`through_cases`). So the
  spans of such reads, put together, are what was passed (`passed_after`), whatever the delimiters and however
  many of the reads fail. A delimiter that is asked for again and again is found as often as it stands ahead
  (`reads_all`).
-/

import Lexkit.Proofs.Held
import Lexkit.Proofs.Reach

namespace Lexkit

/-- The read through the delimiter `d`. -/
def Action.through (d : Char) : Action := .delimited (.text [d])

namespace Scanner

/-- The text up to the cursor, the character under it included. -/
def passed (s : Scanner) : Text := s.text.take (s.position + 1).toNat

/-- The text behind the character under the cursor. -/
def ahead (s : Scanner) : Text := s.text.drop (s.position + 1).toNat

/-- Going over a piece of what is ahead moves it to what is passed. -/
theorem passed_over {s t : Scanner} {span rest : Text} (h : -1 ≤ s.position) (ht : t.text = s.text)
    (hs : s.ahead = span ++ rest) (hp : t.position = s.position + span.length) :
    -1 ≤ t.position ∧ t.passed = s.passed ++ span ∧ t.ahead = rest := by
  have hn : (t.position + 1).toNat = (s.position + 1).toNat + span.length := by omega
  have hd : s.text.drop (s.position + 1).toNat = span ++ rest := hs
  refine ⟨by omega, ?_, ?_⟩
  · rw [passed, passed, ht, hn, List.take_add, hd, List.take_left]
  · rw [ahead, ht, hn, ← List.drop_drop, hd, List.drop_left]

/-! ## One read -/

theorem readThrough_found {s : Scanner} {d : Char} {v rest : Text} (h : s.ahead = v ++ d :: rest) (hv : d ∉ v) :
    s.readThrough d =
      s.deliver .delimited (s.position + 1) (v ++ [d]) ⟨s.position + (v ++ [d]).length, v ++ [d]⟩ := by
  have hfound : Text.through? d (s.text.drop (s.position + 1).toNat) = some (v ++ [d]) := by
    show Text.through? d s.ahead = _
    rw [h]
    exact Text.through?_append hv rest
  rw [readThrough, hfound]

theorem readThrough_missing {s : Scanner} {d : Char} (h : d ∉ s.ahead) :
    s.readThrough d = s.letGo.refuse (.openSpan s.position s.location d) := by
  have hnone : Text.through? d (s.text.drop (s.position + 1).toNat) = none := by
    cases hb : Text.through? d (s.text.drop (s.position + 1).toNat) with
    | none => rfl
    | some span =>
      obtain ⟨v, rest, ht, -, -⟩ := Text.eq_of_through? hb
      have ht : s.ahead = v ++ d :: rest := ht
      exact absurd (by simp [ht]) h
  rw [readThrough, hnone]
  rfl

/-- A read through `d` finds the first `d` ahead and ends on it, or there is none and the cursor stays. -/
theorem through_cases (s : Scanner) (d : Char) :
    let c : Call := ⟨s, .through d⟩
    (∃ v rest, s.ahead = v ++ d :: rest ∧ d ∉ v ∧ c.outcome.result = .ok (.text (v ++ [d])) ∧
      c.span? = some (v ++ [d]) ∧ c.outcome.next.text = s.text ∧
      c.outcome.next.position = s.position + (v ++ [d]).length) ∨
    (d ∉ s.ahead ∧ c.outcome.result = .error (.openSpan s.position s.location d) ∧ c.span? = none ∧
      c.outcome.next = s.letGo) := by
  intro c
  have ho : c.outcome = (s.readThrough d).map .text := rfl
  by_cases hd : d ∈ s.ahead
  · obtain ⟨v, rest, hs, hv⟩ := List.eq_append_cons_of_mem hd
    rw [readThrough_found hs hv] at ho
    have hspan : c.span? = some (v ++ [d]) := by
      show s.spanRead? (.through d) = _
      have hr : (s.perform (.through d)).result = .ok (.text (v ++ [d])) := congrArg Outcome.result ho
      simp only [spanRead?, Action.through] at hr ⊢
      rw [hr]
    refine Or.inl ⟨v, rest, hs, hv, ?_, hspan, ?_, ?_⟩
    all_goals
      rw [ho]
      rfl
  · rw [readThrough_missing hd] at ho
    exact Or.inr ⟨hd, congrArg Outcome.result ho, spanRead?_failed (congrArg Outcome.result ho), congrArg Outcome.next ho⟩

/-! ## Many reads -/

/-- The spans that reads through delimiters give, one behind the other, are what the cursor went over. -/
theorem passed_after {s : Scanner} (h : -1 ≤ s.position) (ds : List Char) :
    (s.after (ds.map .through)).passed =
      s.passed ++ ((s.calls (ds.map .through)).filterMap Call.span?).flatten := by
  induction ds generalizing s with
  | nil => simp [after, calls]
  | cons d ds ih =>
    show ((s.perform (.through d)).next.after (ds.map .through)).passed = _
    rw [List.map_cons, calls, List.filterMap_cons]
    rcases through_cases s d with ⟨v, rest, hs, -, -, hspan, htext, hpos⟩ | ⟨-, -, hspan, hnext⟩
    · have hs : s.ahead = (v ++ [d]) ++ rest := by simp [hs]
      obtain ⟨hstart, hpassed, -⟩ := passed_over h htext hs hpos
      have hstart : -1 ≤ (s.perform (.through d)).next.position := hstart
      rw [ih hstart, hspan, List.flatten_cons, ← List.append_assoc, ← hpassed]
      rfl
    · have hnext : (s.perform (.through d)).next = s.letGo := hnext
      have hstart : -1 ≤ s.letGo.position := h
      rw [hnext, hspan, ih hstart]
      rfl

/-- As many reads through `d` as there are `d` ahead all succeed, and leave none ahead. -/
theorem reads_all {s : Scanner} (h : -1 ≤ s.position) {d : Char} {n : Nat} (hn : s.ahead.count d = n) :
    (∀ c ∈ s.calls (List.replicate n (.through d)), c.span?.isSome = true) ∧
      d ∉ (s.after (List.replicate n (.through d))).ahead := by
  induction n generalizing s with
  | zero =>
    refine ⟨?_, List.count_eq_zero.mp hn⟩
    intro c hc
    cases hc
  | succ n ih =>
    rcases through_cases s d with ⟨v, rest, hs, hv, -, hspan, htext, hpos⟩ | ⟨hnone, -⟩
    · have hrest : rest.count d = n := by
        rw [hs, List.count_append, List.count_eq_zero.mpr hv, List.count_cons_self] at hn
        omega
      have hs : s.ahead = (v ++ [d]) ++ rest := by simp [hs]
      obtain ⟨hstart, -, hahead⟩ := passed_over h htext hs hpos
      obtain ⟨hall, hleft⟩ := ih hstart (hahead ▸ hrest)
      refine ⟨?_, hleft⟩
      intro c hc
      rcases List.mem_cons.mp hc with rfl | hc
      · rw [hspan]
        rfl
      · exact hall c hc
    · rw [List.count_eq_zero.mpr hnone] at hn
      cases hn

/-- Reads through single characters, one after the other on a fresh scanner, cut up the text from its start:
    after every call the spans given so far are the text through the cursor. Each call gives a span that ends
    with its delimiter and has it nowhere else, or finds none and leaves the cursor where it was. A single
    delimiter asked for until it is missing is found as often as it stands in the text, and does not stand
    in what is left. -/
theorem spans_partition_text (t : Text) (source : Option String) (o : Options) (s : Scanner)
    (h : start (.text t) source o = .ok s) :
    (∀ ds : List Char,
      let calls := s.calls (ds.map .through)
      (calls.filterMap Call.span?).flatten = t.take ((s.after (ds.map .through)).position + 1).toNat ∧
      ∀ c ∈ calls, ∃ d ∈ ds, c.action = .through d ∧
        ((∃ span, c.outcome.result = .ok (.text span) ∧ c.span? = some span ∧ span.getLast? = some d ∧
            span.count d = 1) ∨
          (c.outcome.result = .error (.openSpan c.before.position c.before.location d) ∧ c.span? = none ∧
            c.outcome.next.position = c.before.position))) ∧
    ∀ d : Char,
      let reads := List.replicate (t.count d) (Action.through d)
      let u := s.after reads
      (∀ c ∈ s.calls reads, c.span?.isSome = true) ∧
      (u.perform (.through d)).result = .error (.openSpan u.position u.location d) ∧
      d ∉ t.drop (u.position + 1).toNat := by
  have htext : ∀ history, (s.after history).text = t := fun history => (after_inside (start_inside h) history).text
  have hpos : s.position = -1 := by
    obtain ⟨-, rfl⟩ := start_ok h
    rfl
  have hpassed : s.passed = [] := by simp [passed, hpos]
  have hahead : s.ahead = t := by
    have hs : s.text = t := htext []
    simp [ahead, hpos, hs]
  constructor
  · intro ds calls
    constructor
    · have hall := passed_after (Int.le_of_eq hpos.symm) ds
      rw [hpassed, List.nil_append, passed, htext] at hall
      exact hall.symm
    · intro c hc
      have hmem : c.action ∈ ds.map .through := calls_actions s (ds.map .through) ▸ List.mem_map_of_mem hc
      obtain ⟨d, hd, ha⟩ := List.mem_map.mp hmem
      refine ⟨d, hd, ha.symm, ?_⟩
      obtain ⟨u, a⟩ := c
      cases ha
      rcases through_cases u d with ⟨v, rest, -, hv, hr, hspan, -⟩ | ⟨-, hr, hspan, hnext⟩
      · refine Or.inl ⟨v ++ [d], hr, hspan, List.getLast?_concat, ?_⟩
        rw [List.count_append, List.count_eq_zero.mpr hv]
        simp
      · have hkept : (u.perform (.through d)).next.position = u.letGo.position := congrArg Scanner.position hnext
        exact Or.inr ⟨hr, hspan, hkept⟩
  · intro d reads u
    obtain ⟨hall, hleft⟩ := reads_all (Int.le_of_eq hpos.symm) (d := d) (congrArg (List.count d) hahead)
    refine ⟨hall, congrArg Outcome.result (congrArg (Outcome.map Answer.text) (readThrough_missing hleft)), ?_⟩
    rw [← htext reads]
    exact hleft

/-- On `a,b;,`: the middle read finds nothing and the next goes on behind the first; two commas, then no more. -/
theorem spans_partition_text_commas :
    ∃ s, start (.text ['a', ',', 'b', ';', ',']) none {} = .ok s ∧
      let reads : List Action := [',', '.', ';'].map .through
      (s.calls reads).filterMap Call.span? = [['a', ','], ['b', ';']] ∧
      ((s.calls reads).filterMap Call.span?).flatten = ['a', ',', 'b', ';'] ∧
      ((s.after [.through ',', .through ',']).perform (.through ',')).result = .error (.openSpan 4 ⟨1, 5⟩ ',') := by
  obtain ⟨hparts, hsame⟩ := spans_partition_text ['a', ',', 'b', ';', ','] none {} _ rfl
  exact ⟨_, rfl, by decide +kernel, (hparts [',', '.', ';']).1, (hsame ',').2.1⟩

end Scanner

end Lexkit
