/-
  Lexkit.Proofs.Reach — what holds of a scanner whatever was asked of it before.

  A scanner that was started on a text stays on it: the cursor stands before the text, on one of its
  characters or at its end, and what is held is a piece of the text (`Inside`). Each step keeps that
  (`perform_inside`), failed ones and changes of the settings too, so every history does (`after_inside`).
  What a scanner shows of itself then follows from where its cursor stands (`after_stays_inside`).
-/

import Lexkit.Proofs.Step

namespace Lexkit.Scanner

/-- On the text `t`, with the cursor on it, holding a piece of it. -/
structure Inside (t : Text) (s : Scanner) : Prop where
  text : s.text = t
  onText : s.OnText
  held : s.held <:+: t

/-! ## Every history -/

theorem onText_before {s : Scanner} (h : s.position = -1) : s.OnText := ⟨by omega, by omega⟩

theorem start_inside {t : Text} {source : Option String} {o : Options} {s : Scanner}
    (h : start (.text t) source o = .ok s) : Inside t s := by
  obtain ⟨-, rfl⟩ := start_ok h
  exact ⟨rfl, onText_before rfl, List.nil_infix⟩

/-- A span behind the cursor ends on the text. -/
theorem Reads.onText {s t : Scanner} {span : Text} (h : s.Reads span t) (hs : s.OnText) : t.OnText := by
  have hlen := h.follows.length_le
  have hpos := h.position
  obtain ⟨h0, h1⟩ := hs
  unfold length at h1
  rw [List.length_drop] at hlen
  refine ⟨by omega, ?_⟩
  rw [length, h.text]
  omega

/-- A step keeps the scanner inside its text, whatever it comes to. -/
theorem perform_inside {t : Text} {s : Scanner} (h : Inside t s) (a : Action) : Inside t (s.perform a).next := by
  rcases perform_cases s a with hr | hr | hr | ⟨span, hr⟩
  · exact ⟨hr.text.trans h.text, hr.onText h.onText, hr.held ▸ h.held⟩
  · rw [hr]
    exact ⟨h.text, onText_before rfl, List.nil_infix⟩
  · rw [hr]
    exact ⟨h.text, h.onText, List.nil_infix⟩
  · have hspan : span <:+: t := h.text ▸ hr.follows.isInfix.trans (List.drop_suffix _ _).isInfix
    exact ⟨hr.text.trans h.text, hr.onText h.onText, hr.held ▸ hspan⟩

theorem after_inside {t : Text} {s : Scanner} (h : Inside t s) (history : List Action) :
    Inside t (s.after history) := by
  induction history generalizing s with
  | nil => exact h
  | cons a more ih => exact ih (perform_inside h a)

theorem calls_inside {t : Text} {s : Scanner} (h : Inside t s) (history : List Action) :
    ∀ c ∈ s.calls history, Inside t c.before :=
  calls_keep h fun a _ _ hu => perform_inside hu a

/-! ## What the place of the cursor tells -/

theorem current?_eq_none_iff {s : Scanner} (h : s.OnText) :
    s.current? = none ↔ s.position = -1 ∨ s.position = s.length := by
  obtain ⟨h0, h1⟩ := h
  rw [current?, Text.nth?]
  split
  · rw [List.getElem?_eq_none_iff, ← length]
    omega
  · exact iff_of_true rfl (Or.inl (by omega))

theorem read_gives_next {s : Scanner} (h : s.OnText) : s.read.1 = s.next? := by
  show s.read.2.current? = s.next?
  by_cases hl : s.position < s.length
  · rw [read_eq_moveTo hl]
    rfl
  · have hend : s.position = s.length := Int.le_antisymm h.2 (Int.not_lt.mp hl)
    have hn : s.text.length ≤ (s.position + 1).toNat := by rw [hend, length]; omega
    rw [read_eq_self hl, (current?_eq_none_iff h).mpr (Or.inr hend), next?, Text.nth?, if_pos (by omega),
      List.getElem?_eq_none hn]

/-- After any history, failures and changed settings included, a scanner is on the text it was started on.
    The cursor stands from before the text to its end. It is at the end exactly when it says so, there is a
    current character exactly between the two places, no place is both start and end, and a line ends
    only on a character. Peeking gives what the next read gives, and what is held is a piece of the text,
    if only the empty one. -/
theorem after_stays_inside (t : Text) (source : Option String) (o : Options) (s : Scanner)
    (h : start (.text t) source o = .ok s) (history : List Action) :
    let u := s.after history
    u.text = t ∧ -1 ≤ u.position ∧ u.position ≤ t.length ∧ (u.atEnd = true ↔ u.position = t.length) ∧
    (u.current? = none ↔ u.position = -1 ∨ u.position = t.length) ∧ ¬ (u.atStart = true ∧ u.atEnd = true) ∧
    (u.atLineEnd = true → u.position ≠ -1 ∧ u.atEnd = false) ∧
    (u.perform .next).result = (u.perform .read).result ∧ u.held <:+: t := by
  intro u
  obtain ⟨ht, ⟨h0, h1⟩, hh⟩ : Inside t u := after_inside (start_inside h) history
  have hlen : u.length = t.length := congrArg List.length ht
  have hpos : 0 < t.length := List.length_pos_iff.mpr (start_ok h).1
  have hcur := current?_eq_none_iff ⟨h0, h1⟩
  rw [hlen] at h1 hcur
  have hend : u.atEnd = true ↔ u.position = t.length := by
    rw [atEnd, decide_eq_true_eq, hlen]
    omega
  refine ⟨ht, h0, h1, hend, hcur, ?_, ?_, ?_, hh⟩
  · rintro ⟨hs, he⟩
    rw [atStart, decide_eq_true_eq] at hs
    rw [hend] at he
    omega
  · intro hl
    have hsome : u.current? ≠ none := fun hn => by simp [atLineEnd, hn] at hl
    obtain ⟨hne, hne'⟩ := not_or.mp (mt hcur.mpr hsome)
    exact ⟨hne, Bool.eq_false_iff.mpr (mt hend.mp hne')⟩
  · show Except.ok (Answer.text u.next?.toList) = .ok (.text u.read.1.toList)
    rw [read_gives_next ⟨h0, hlen ▸ h1⟩]

/-- On `/*`: a comment and a delimited read fail, then the comment is taken to the end of the text. -/
theorem after_stays_inside_open_comment :
    ∃ s, start (.text ['/', '*']) none {} = .ok s ∧
      let u := s.after [.read, .comment, .delimited (.text ['x']), .setStrict false, .comment]
      u.position = 2 ∧ u.atEnd = true ∧ u.current? = none ∧ ¬ (u.atStart = true ∧ u.atEnd = true) := by
  obtain ⟨-, -, -, he, hc, hb, -⟩ := after_stays_inside ['/', '*'] none {} _ rfl
    [.read, .comment, .delimited (.text ['x']), .setStrict false, .comment]
  exact ⟨_, rfl, rfl, he.mpr rfl, hc.mpr (Or.inr rfl), hb⟩

end Lexkit.Scanner
