/-
  Lexkit.Proofs.Openers — which openers of line comments take effect.

  A round looks for a line comment only behind the blanks and where no block comment opens. So an opener that is
  empty, starts with a blank or starts like a block comment is never found (`opensLine_inert`), and a skip of trivia
  with it is one without any. Every other opener is found on a text that starts with it, where a skip without it
  stays in front (`opener_inert_or_effective`).
-/

import Lexkit.Proofs.Gap

namespace Lexkit

open Lexkit.Alphabet

/-- An opener of line comments that is never found: it is empty, starts with a blank or starts a block comment. -/
def inertOpener (o : Text) : Bool := o.isEmpty || o.head?.any isBlank || Comment.opener.isPrefixOf o

/-! ## Comments that close -/

theorem Text.indexOf?_of_infix {w t : Text} (hw : w ≠ []) (h : w <:+: t) : ∃ k, indexOf? w t = some k := by
  obtain ⟨a, b, rfl⟩ := h
  have hpos : 0 < w.length := List.length_pos_iff.mpr hw
  cases hk : indexOf? w (a ++ w ++ b) with
  | some k => exact ⟨k, rfl⟩
  | none =>
    have hmem : a.length ∈ List.range (a ++ w ++ b).length := by
      simp only [List.mem_range, List.length_append]
      omega
    have hno := List.find?_eq_none.mp hk a.length hmem
    rw [List.append_assoc, List.drop_left, List.isPrefixOf_iff_prefix] at hno
    exact absurd (List.prefix_append w b) hno

/-- Behind every opener of a block comment there is a closer. -/
def Comment.Closing (t : Text) : Prop := ∀ rest, opener ++ rest <:+ t → closer <:+: rest

theorem Comment.Closing.drop {t : Text} (h : Closing t) (n : Nat) : Closing (t.drop n) := by
  intro rest hr
  exact h rest (hr.trans (List.drop_suffix n t))

/-- A gap in such a text ends, however comments are taken. -/
theorem gapEnd_of_closing {t : Text} (h : Comment.Closing t) (lineOpener : Option Text) (strict : Bool) (i : Nat) :
    ∃ q, gapEnd lineOpener strict i t = .ok q := by
  fun_induction gapEnd lineOpener strict i t with
  | case1 i => exact ⟨i, rfl⟩
  | case2 i c t hb ih => exact ih (h.drop 1)
  | case3 i c t hb hc k hk ih => exact ih (h.drop _)
  | case4 i c t hb hc hk hs =>
    obtain ⟨rest, hrest⟩ := List.isPrefixOf_iff_prefix.mp hc
    obtain ⟨k, hsome⟩ := Text.indexOf?_of_infix (by decide) (h rest (hrest ▸ List.suffix_refl _))
    rw [← hrest] at hk
    rw [show (Comment.opener ++ rest).drop 2 = rest from rfl, hsome] at hk
    cases hk
  | case5 i c t hb hc hk hs => exact ⟨_, rfl⟩
  | case6 i c t hb hc ho line ih => exact ih (h.drop _)
  | case7 i c t hb hc ho => exact ⟨i, rfl⟩

/-- Behind any text, a line feed and a closer close what is open. -/
theorem Comment.closing_append (t : Text) : Closing (t ++ ['\n', '*', '/']) := by
  intro rest hr
  rcases List.suffix_or_suffix_of_suffix hr (List.suffix_append t ['\n', '*', '/']) with h | h
  · simp [opener, List.suffix_cons_iff] at h
  · have hin : ['\n', '*', '/'] <:+ rest := by
      simpa [opener, List.suffix_cons_iff] using h
    exact (show closer <:+: ['\n', '*', '/'] from ⟨['\n'], [], rfl⟩).trans hin.isInfix

namespace Scanner

/-! ## Openers that are never found -/

theorem opensLine_inert {o : Text} (h : inertOpener o = true) {s : Scanner} (h0 : 0 ≤ s.position)
    (hb : ∀ c ∈ s.rest.head?, isBlank c = false) (hc : ¬ s.looksAt Comment.opener = true) :
    s.opensLine (some o) = false := by
  rw [opensLine_eq_lineOpens h0, Bool.eq_false_iff]
  intro ho
  simp only [lineOpens, Option.any_some, Bool.and_eq_true, List.isPrefixOf_iff_prefix] at ho
  obtain ⟨hne, hp⟩ := ho
  simp only [inertOpener, Bool.or_eq_true, List.isPrefixOf_iff_prefix] at h
  rcases h with (hnil | hhead) | hopener
  · simp [hnil] at hne
  · -- the opener would stand on a blank
    obtain ⟨c, hhead, hblank⟩ := (Option.any_eq_true _ _).mp hhead
    obtain ⟨r, rfl⟩ := List.head?_eq_some_iff.mp hhead
    obtain ⟨more, hrest⟩ := hp
    have hno := hb c (by rw [← hrest]; rfl)
    rw [hblank] at hno
    cases hno
  · apply hc
    rw [looksAt_eq_isPrefixOf h0, List.isPrefixOf_iff_prefix]
    exact hopener.trans hp

theorem round_inert {o : Text} (h : inertOpener o = true) (s : Scanner) : s.round (some o) = s.round none := by
  unfold round
  by_cases hc : s.skipBlanks.2.looksAt Comment.opener = true
  · simp only [hc, if_true]
  · have hno : s.skipBlanks.2.opensLine (some o) = s.skipBlanks.2.opensLine none :=
      opensLine_inert h (skipWhile_nonneg _ s) (skipWhile_stops _ s) hc
    simp only [hno]

theorem trivia_inert {o : Text} (h : inertOpener o = true) (s : Scanner) : s.trivia (some o) = s.trivia none := by
  generalize hn : s.rest.length = n
  induction n using Nat.strongRecOn generalizing s with
  | _ n ih =>
    rw [trivia_eq, trivia_eq, round_inert h]
    cases hr : s.round none with
    | done moved t => rfl
    | failed f t => rfl
    | again t log => simp only [ih t.rest.length (hn ▸ round_progress hr) t rfl]

/-! ## Openers that are found -/

/-- A text that starts with the opener and in which every block comment closes, so that no skip fails on it. -/
def opening (o : Text) : Text := o ++ ['\n', '*', '/']

section
variable {o : Text}

theorem opening_cons (h : inertOpener o = false) :
    ∃ c r, opening o = c :: r ∧ isBlank c = false ∧ Comment.opener.isPrefixOf (c :: r) = false := by
  cases o with
  | nil => cases h
  | cons c r =>
    obtain ⟨hb, hopener⟩ : isBlank c = false ∧ Comment.opener.isPrefixOf (c :: r) = false := by
      simpa [inertOpener] using h
    refine ⟨c, r ++ ['\n', '*', '/'], rfl, hb, ?_⟩
    -- the line feed is no star, so a block comment that opens in front opens in `o`
    cases r with
    | nil => simp [Comment.opener, List.isPrefixOf]
    | cons d r => simpa [Comment.opener, List.isPrefixOf] using hopener

theorem gapEnd_opening_none (h : inertOpener o = false) (strict : Bool) : gapEnd none strict 0 (opening o) = .ok 0 := by
  obtain ⟨c, r, ho, hb, hc⟩ := opening_cons h
  rw [ho, gapEnd_word (by simpa using hb) hc]
  rfl

theorem gapEnd_opening_some (h : inertOpener o = false) (strict : Bool) :
    ∃ q, gapEnd (some o) strict 0 (opening o) = .ok q ∧ 0 < q := by
  obtain ⟨q, hq⟩ := gapEnd_of_closing (Comment.closing_append o) (some o) strict 0
  refine ⟨q, hq, ?_⟩
  obtain ⟨c, r, ho, hb, hc⟩ := opening_cons h
  have hopens : lineOpens (some o) (c :: r) = true := by
    have hne : o.isEmpty = false := by
      simp only [inertOpener, Bool.or_eq_false_iff] at h
      exact h.1.1
    rw [← ho, lineOpens, Option.any_some, hne, Bool.not_false, Bool.true_and, List.isPrefixOf_iff_prefix]
    exact List.prefix_append o _
  have hline : 0 < (c :: r).findIdx endsLine := lineLength_pos (by simp [hb])
  rw [← opening, ho, gapEnd_word (by simpa using hb) hc, if_pos hopens] at hq
  have hle := le_gapEnd (Or.inl hq)
  omega

end

/-- An opener of line comments that is empty, starts with a blank or starts with the opener of block comments
    changes nothing: from every state, a skip of trivia with it is the skip without any, answer or failure, scanner
    and log. For every other opener there is a text on which a fresh scanner, however it reads, ends elsewhere with
    it than without. -/
theorem opener_inert_or_effective (o : Text) :
    (inertOpener o = true → ∀ s : Scanner, s.trivia (some o) = s.trivia none) ∧
    (inertOpener o = false → ∃ t : Text, ∀ (source : Option String) (options : Options),
      ∃ s, start (.text t) source options = .ok s ∧ (s.trivia none).result = .ok false ∧
        (s.trivia (some o)).result = .ok true ∧
        (s.trivia (some o)).next.position ≠ (s.trivia none).next.position) := by
  refine ⟨trivia_inert, ?_⟩
  intro h
  refine ⟨opening o, ?_⟩
  intro source options
  obtain ⟨c, r, ho, -⟩ := opening_cons h
  let s : Scanner := { options with text := opening o, source := nameOr "<string>" source }
  have hs : start (.text (opening o)) source options = .ok s := by
    simp only [s]
    rw [ho]
    rfl
  obtain ⟨q, hq, hpos⟩ := gapEnd_opening_some h options.strict
  obtain ⟨hnone, hat⟩ := trivia_of_gapEnd (s := s) (gapEnd_opening_none h options.strict)
  obtain ⟨hsome, hbehind⟩ := trivia_of_gapEnd (s := s) hq
  refine ⟨s, hs, hnone, ?_, ?_⟩
  · rw [hsome]
    simp [s, position, hpos]
  · rw [hat, hbehind, moveTo_position, moveTo_position]
    omega

/-- A line comment cannot open with `/*/`, not even where that stands; with `//` it can. -/
theorem opener_inert_or_effective_slashes :
    let s : Scanner := { text := ['/', '*', '/', '*', '/', 'a'], source := "<string>" }
    inertOpener ['/', '*', '/'] = true ∧ s.trivia (some ['/', '*', '/']) = s.trivia none ∧
    inertOpener ['/', '/'] = false ∧
    ∃ t s, start (.text t) none {} = .ok s ∧ (s.trivia none).result = .ok false ∧
      (s.trivia (some ['/', '/'])).next.position ≠ (s.trivia none).next.position := by
  intro s
  obtain ⟨t, ht⟩ := (opener_inert_or_effective ['/', '/']).2 rfl
  obtain ⟨u, hu, hnone, -, hne⟩ := ht none {}
  exact ⟨rfl, (opener_inert_or_effective ['/', '*', '/']).1 rfl s, rfl, t, u, hu, hnone, hne⟩

end Scanner

end Lexkit
