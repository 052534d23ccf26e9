/-
  Lexkit.Proofs.Extent — where the spans that are read start and end, by indices of the text.

  A scanner cuts a span off the text at the cursor. Seen from the whole text, each span ends at the first index of
  some kind: a comment with the first closer that stands at least two behind its opener, a delimited read on the
  first delimiter behind the cursor, a quoted body before the next mark like the one that opens it, an identifier
  at the first character that cannot go on with it, once the blanks before it are passed.
-/

import Lexkit.Proofs.Partition
import Mathlib.Data.List.TakeWhile
import Mathlib.Order.Bounds.Basic

namespace Lexkit

open Lexkit.Alphabet

/-! ## First indices -/

theorem isLeast_from {P : Nat → Prop} {i k : Nat} (hk : P (i + k)) (hmin : ∀ m < k, ¬ P (i + m)) :
    IsLeast {j | i ≤ j ∧ P j} (i + k) := by
  refine ⟨⟨Nat.le_add_right i k, hk⟩, ?_⟩
  intro j hj
  obtain ⟨m, rfl⟩ := Nat.exists_eq_add_of_le hj.1
  by_cases hm : m < k
  · exact absurd hj.2 (hmin m hm)
  · omega

/-- Indices from a place on that may lie before the text. -/
theorem from_toNat (p : Int) (P : Nat → Prop) : {j : Nat | p ≤ j ∧ P j} = {j | p.toNat ≤ j ∧ P j} := by
  simp only [Int.toNat_le]

namespace Text

/-- The piece that the text from `i` on starts with, cut out by its end. -/
theorem extract_of_drop {t v rest : Text} {i j : Nat} (h : t.drop i = v ++ rest) (hj : j = i + v.length) :
    t.extract i j = v := by
  have hlen : j - i = v.length := by omega
  rw [List.extract_eq_take_drop, hlen, h, List.take_left]

/-- What holds of the character behind a piece of the text, or of there being none, and of no character of the
    piece holds first at the index where the piece ends. -/
theorem isLeast_behind {Q : Option Char → Prop} {t v rest : Text} {i : Nat} (h : t.drop i = v ++ rest)
    (hrest : Q rest.head?) (hv : ∀ c ∈ v, ¬ Q (some c)) : IsLeast {j | i ≤ j ∧ Q t[j]?} (i + v.length) := by
  have hget : ∀ m, t[i + m]? = (v ++ rest)[m]? := by
    intro m
    rw [← h, List.getElem?_drop]
  apply isLeast_from
  · rw [hget, List.getElem?_append_right (Nat.le_refl _), Nat.sub_self, ← List.head?_eq_getElem?]
    exact hrest
  · intro m hm
    rw [hget, List.getElem?_append_left hm, List.getElem?_eq_getElem hm]
    exact hv _ (List.getElem_mem hm)

/-- The run of a class that starts at `i` ends at the first index with no character of it. -/
theorem isLeast_run (t : Text) (p : Char → Bool) (i : Nat) :
    IsLeast {j | i ≤ j ∧ ∀ c ∈ t[j]?, p c = false} (i + ((t.drop i).takeWhile p).length) := by
  apply isLeast_behind (Q := fun x => ∀ c ∈ x, p c = false) List.takeWhile_append_dropWhile.symm
  · intro c hc
    have hn := List.head?_dropWhile_not p (t.drop i)
    rw [Option.mem_def.mp hc] at hn
    exact hn
  · intro c hc hno
    have hin : p c = true := List.mem_takeWhile_imp hc
    rw [hno c rfl] at hin
    cases hin

end Text

namespace Comment

theorem closer_prefix_iff {t : Text} {j : Nat} :
    closer <+: t.drop j ↔ t[j]? = some '*' ∧ t[j + 1]? = some '/' := by
  have h0 : t[j]? = (t.drop j)[0]? := by rw [List.getElem?_drop]; rfl
  have h1 : t[j + 1]? = (t.drop j)[1]? := by rw [List.getElem?_drop]
  rw [h0, h1]
  rcases t.drop j with _ | ⟨a, _ | ⟨b, r⟩⟩
  · simp [closer]
  · simp [closer]
  · simp [closer, List.cons_prefix_cons, eq_comm]

/-- The closer found behind `i` is the first from there on. -/
theorem isLeast_closer {t : Text} {i k : Nat} (h : Text.indexOf? closer (t.drop i) = some k) :
    IsLeast {j | i ≤ j ∧ t[j]? = some '*' ∧ t[j + 1]? = some '/'} (i + k) := by
  obtain ⟨-, hk, hmin⟩ := Text.indexOf?_eq_some.mp h
  simp only [List.drop_drop] at hk hmin
  simp only [← closer_prefix_iff]
  exact isLeast_from hk hmin

theorem no_closer {t : Text} {i : Nat} (h : Text.indexOf? closer (t.drop i) = none) :
    {j | i ≤ j ∧ t[j]? = some '*' ∧ t[j + 1]? = some '/'} = ∅ := by
  apply Set.eq_empty_iff_forall_notMem.mpr
  intro j hj
  obtain ⟨hij, hc⟩ := hj
  have hlt : j < t.length := (List.getElem?_eq_some_iff.mp hc.1).1
  obtain ⟨m, rfl⟩ := Nat.exists_eq_add_of_le hij
  have hm : m ∈ List.range (t.drop i).length := by
    rw [List.mem_range, List.length_drop]
    omega
  have hno := List.find?_eq_none.mp h m hm
  rw [List.drop_drop, List.isPrefixOf_iff_prefix, closer_prefix_iff] at hno
  exact hno hc

end Comment

namespace Scanner

/-! ## Comments -/

/-- Where a comment that opens under the cursor could close: the indices of closers, two or more behind it. -/
def closers (s : Scanner) : Set Nat :=
  {j | s.position + 2 ≤ j ∧ s.text[j]? = some '*' ∧ s.text[j + 1]? = some '/'}

section
variable {s : Scanner}

theorem nonneg_of_opener (h : s.looksAt Comment.opener = true) : 0 ≤ s.position :=
  (head_rest_of_current (looksAt_opener_iff.mp h).1).1

theorem closers_eq (h : 0 ≤ s.position) :
    s.closers = {j | s.position.toNat + 2 ≤ j ∧ s.text[j]? = some '*' ∧ s.text[j + 1]? = some '/'} := by
  have hi : (s.position + 2).toNat = s.position.toNat + 2 := by omega
  rw [← hi]
  exact from_toNat _ _

theorem comment_mistake_iff :
    (∃ f, s.comment.result = .error f ∧ f.unterminated? = none) ↔ s.looksAt Comment.opener = false := by
  cases h : s.looksAt Comment.opener with
  | true =>
    cases hk : Text.indexOf? Comment.closer (s.rest.drop 2) with
    | some k => simp [comment_closed h hk]
    | none =>
      rw [comment_open h hk]
      cases s.strict with
      | true => simp [refuse, Failure.unterminated?]
      | false => simp
  | false =>
    have hno : ¬ (s.current? = some '/' ∧ s.next? = some '*') := by
      intro hc
      rw [looksAt_opener_iff.mpr hc] at h
      cases h
    rw [comment, if_neg hno]
    simp [refuse, Failure.unterminated?]

theorem comment_of_closer (h : s.looksAt Comment.opener = true) {j : Nat} (hj : IsLeast s.closers j) :
    s.comment.result = .ok (s.text.extract s.position.toNat (j + 2)) ∧ s.comment.next = s.moveTo (j + 2 : Nat) := by
  have h0 := nonneg_of_opener h
  rw [closers_eq h0] at hj
  cases hk : Text.indexOf? Comment.closer (s.rest.drop 2) with
  | none =>
    rw [Comment.no_closer (drop_rest s 2 ▸ hk)] at hj
    exact absurd hj.1 (Set.notMem_empty j)
  | some k =>
    -- the closer was looked for behind the opener, so `k` counts from two behind the cursor
    have hend : j = s.position.toNat + 2 + k := hj.unique (Comment.isLeast_closer (drop_rest s 2 ▸ hk))
    have hlen : j + 2 - s.position.toNat = 2 + (k + 2) := by omega
    have hpos : s.position + ((2 + (k + 2) : Nat) : Int) = (j + 2 : Nat) := by omega
    rw [comment_closed h hk, List.extract_eq_take_drop, hlen, hpos]
    exact ⟨rfl, rfl⟩

theorem comment_of_no_closer (h : s.looksAt Comment.opener = true) (hnone : s.closers = ∅) :
    if s.strict then s.comment.result = .error (.openComment s.position s.location) ∧ s.comment.next = s
    else s.comment.result = .ok (s.text.drop s.position.toNat) ∧ s.comment.next = s.moveTo s.length := by
  rw [closers_eq (nonneg_of_opener h)] at hnone
  cases hk : Text.indexOf? Comment.closer (s.rest.drop 2) with
  | some k =>
    have hleast := Comment.isLeast_closer (drop_rest s 2 ▸ hk)
    rw [hnone] at hleast
    exact absurd hleast.1 (Set.notMem_empty _)
  | none =>
    rw [comment_open h hk]
    cases s.strict with
    | true => exact ⟨rfl, rfl⟩
    | false => exact ⟨rfl, rfl⟩

end

/-- A comment is asked for in vain exactly where none opens. Where one opens, it is the text from its opener
    through the first closer that stands two or more behind the opener's start, and the cursor ends behind the
    closer, however comments are taken; so the star of the opener closes nothing, and an opener inside opens
    nothing. Where no such closer stands, the comment is a failure or, if comments are not taken strictly, all the
    text that is left. -/
theorem comment_ends_with_first_closer (s : Scanner) :
    ((∃ f, s.comment.result = .error f ∧ f.unterminated? = none) ↔ s.looksAt ['/', '*'] = false) ∧
    (s.looksAt ['/', '*'] = true →
      (∀ j, IsLeast s.closers j →
        s.comment.result = .ok (s.text.extract s.position.toNat (j + 2)) ∧ s.comment.next = s.moveTo (j + 2 : Nat)) ∧
      (s.closers = ∅ →
        if s.strict then s.comment.result = .error (.openComment s.position s.location) ∧ s.comment.next = s
        else s.comment.result = .ok (s.text.drop s.position.toNat) ∧ s.comment.next = s.moveTo s.length)) := by
  refine ⟨comment_mistake_iff, ?_⟩
  intro h
  constructor
  · intro j hj
    exact comment_of_closer h hj
  · intro hnone
    exact comment_of_no_closer h hnone

/-- On `/*/ /* */ */` the comment closes neither with the star that opens it nor at the second closer. -/
theorem comment_ends_with_first_closer_nested :
    let s : Scanner := {
      text := ['/', '*', '/', ' ', '/', '*', ' ', '*', '/', ' ', '*', '/'], source := "<string>", cursor := { position := 0 } }
    s.comment.result = .ok ['/', '*', '/', ' ', '/', '*', ' ', '*', '/'] ∧ s.comment.next.position = 9 := by
  intro s
  have hleast : IsLeast s.closers 7 := by
    refine ⟨⟨by decide, by decide⟩, ?_⟩
    intro j hj
    by_cases hlt : j < 7
    · have hnone : ∀ i < 7, ¬ (s.position + 2 ≤ (i : Nat) ∧ s.text[i]? = some '*' ∧ s.text[i + 1]? = some '/') := by
        decide
      exact absurd hj (hnone j hlt)
    · omega
  obtain ⟨hr, hn⟩ := ((comment_ends_with_first_closer s).2 rfl).1 7 hleast
  exact ⟨hr, congrArg Scanner.position hn⟩

/-! ## Delimited reads -/

section
variable {s : Scanner} {d : Char}

theorem mem_ahead_iff : d ∈ s.ahead ↔ ∃ j : Nat, s.position < j ∧ s.text[j]? = some d := by
  rw [List.mem_iff_getElem?]
  constructor
  · intro h
    obtain ⟨m, hm⟩ := h
    rw [ahead, List.getElem?_drop] at hm
    exact ⟨_, by omega, hm⟩
  · intro h
    obtain ⟨j, hj, hd⟩ := h
    obtain ⟨m, rfl⟩ := Nat.exists_eq_add_of_le (show (s.position + 1).toNat ≤ j by omega)
    exact ⟨m, by rw [ahead, List.getElem?_drop]; exact hd⟩

theorem isLeast_ahead {v rest : Text} (h : s.ahead = v ++ d :: rest) (hv : d ∉ v) :
    IsLeast {j : Nat | s.position < j ∧ s.text[j]? = some d} ((s.position + 1).toNat + v.length) := by
  have hset : {j : Nat | s.position < j ∧ s.text[j]? = some d} =
      {j | (s.position + 1).toNat ≤ j ∧ s.text[j]? = some d} := from_toNat (s.position + 1) _
  rw [hset]
  apply Text.isLeast_behind (Q := fun x => x = some d) h rfl
  intro c hc hcd
  cases hcd
  exact hv hc

theorem readThrough_succeeds_iff :
    (∃ span, (s.readThrough d).result = .ok span) ↔ ∃ j : Nat, s.position < j ∧ s.text[j]? = some d := by
  rw [← mem_ahead_iff]
  by_cases hd : d ∈ s.ahead
  · obtain ⟨v, rest, ha, hv⟩ := List.eq_append_cons_of_mem hd
    rw [readThrough_found ha hv]
    exact iff_of_true ⟨_, rfl⟩ hd
  · rw [readThrough_missing hd]
    exact iff_of_false (by simp [refuse]) hd

theorem readThrough_to_first (h : -1 ≤ s.position) {j : Nat}
    (hj : IsLeast {j : Nat | s.position < j ∧ s.text[j]? = some d} j) :
    let span := s.text.extract (s.position + 1).toNat (j + 1)
    s.readThrough d = s.deliver .delimited (s.position + 1) span ⟨j, span⟩ := by
  obtain ⟨v, rest, ha, hv⟩ := List.eq_append_cons_of_mem (mem_ahead_iff.mpr ⟨j, hj.1⟩)
  obtain rfl := hj.unique (isLeast_ahead ha hv)
  have hpos : s.position + ((v ++ [d]).length : Int) = ((s.position + 1).toNat + v.length : Nat) := by
    rw [List.length_append, List.length_singleton]
    omega
  intro span
  have hsplit : s.text.drop (s.position + 1).toNat = (v ++ [d]) ++ rest := by
    show s.ahead = _
    rw [ha, List.append_cons]
  have hspan : span = v ++ [d] := Text.extract_of_drop hsplit (by simp [Nat.add_assoc])
  rw [hspan, readThrough_found ha hv, hpos]

end

/-! ## Quoted bodies -/

section
variable {s : Scanner} {q : Char}

theorem isQuote_iff : isQuote q = true ↔ q ∈ ['\'', '"', '\x60'] := by
  simp [isQuote, or_assoc]

theorem quotedBody_eq (hq : s.current? = some q) (hm : isQuote q = true) :
    s.quotedBody = (s.readThrough q).map List.dropLast := by
  rw [quotedBody, hq]
  simp only [if_pos hm]

theorem quotedBody_mistake_iff :
    (∃ f, s.quotedBody.result = .error f ∧ f.unterminated? = none) ↔ ∀ q ∈ s.current?, q ∉ ['\'', '"', '\x60'] := by
  cases hq : s.current? with
  | none =>
    rw [quotedBody, hq]
    simp [refuse, Failure.unterminated?]
  | some q =>
    by_cases hm : isQuote q = true
    · have hno : ¬ ∃ f, s.quotedBody.result = .error f ∧ f.unterminated? = none := by
        intro h
        obtain ⟨f, hf, hu⟩ := h
        rw [quotedBody_eq hq hm] at hf
        rw [(readThrough_failed (map_failed hf)).2] at hu
        cases hu
      refine iff_of_false hno ?_
      intro h
      exact h q rfl (isQuote_iff.mp hm)
    · rw [quotedBody, hq]
      simp only [if_neg hm]
      refine iff_of_true ⟨_, rfl, rfl⟩ ?_
      intro c hc
      cases hc
      exact mt isQuote_iff.mpr hm

theorem quotedBody_succeeds_iff (hq : s.current? = some q) (hm : isQuote q = true) :
    (∃ body, s.quotedBody.result = .ok body) ↔ ∃ j : Nat, s.position < j ∧ s.text[j]? = some q := by
  rw [quotedBody_eq hq hm, ← readThrough_succeeds_iff]
  cases hr : (s.readThrough q).result with
  | ok span => simp [Outcome.map, hr, Except.map]
  | error f => simp [Outcome.map, hr, Except.map]

theorem rest_of_current (hq : s.current? = some q) : s.rest = q :: s.ahead := by
  obtain ⟨h0, hhead⟩ := head_rest_of_current hq
  obtain ⟨r, hr⟩ := List.head?_eq_some_iff.mp hhead
  have hi : (s.position + 1).toNat = s.position.toNat + 1 := by omega
  have hahead : s.ahead = s.rest.tail := by rw [ahead, hi, rest, List.tail_drop]
  rw [hahead, hr]
  rfl

/-- A quoted body stands between two marks of one kind and has none of that kind in it. -/
theorem quotedBody_between (hq : s.current? = some q) (hm : isQuote q = true) {body : Text}
    (h : s.quotedBody.result = .ok body) :
    s.text.extract s.position.toNat (s.quotedBody.next.position + 1).toNat = q :: (body ++ [q]) ∧ q ∉ body := by
  have hfound : q ∈ s.ahead := mem_ahead_iff.mpr ((quotedBody_succeeds_iff hq hm).mp ⟨body, h⟩)
  obtain ⟨v, rest, ha, hv⟩ := List.eq_append_cons_of_mem hfound
  have hread : s.quotedBody = (s.deliver .delimited (s.position + 1) (v ++ [q])
      ⟨s.position + (v ++ [q]).length, v ++ [q]⟩).map List.dropLast := by
    rw [quotedBody_eq hq hm, readThrough_found ha hv]
  rw [hread] at h ⊢
  have hbody : v = body := by simpa [Outcome.map, deliver, Except.map] using h
  subst hbody
  refine ⟨?_, hv⟩
  -- the piece starts on the opening mark, one before what the read takes
  have h0 : 0 ≤ s.position := (head_rest_of_current hq).1
  have hsplit : s.text.drop s.position.toNat = (q :: (v ++ [q])) ++ rest := by
    show s.rest = _
    rw [rest_of_current hq, ha, List.append_cons]
    rfl
  apply Text.extract_of_drop hsplit
  show (s.position + ((v ++ [q]).length : Int) + 1).toNat = _
  rw [List.length_cons]
  omega

end

/-- From any state, a read through one character succeeds exactly when that character stands behind the cursor.
    It takes the text behind the cursor through the first such character, holds it and leaves the cursor there. A
    quoted body is asked for in vain exactly where no quotation mark stands under the cursor; where one does, it
    succeeds exactly when the same mark stands behind the cursor, and is the text between the two, which has none
    of that mark. -/
theorem reads_end_with_delimiter (t : Text) (source : Option String) (o : Options) (s : Scanner)
    (h : start (.text t) source o = .ok s) (history : List Action) :
    let u := s.after history
    (∀ d : Char,
      let r := u.delimited (.text [d])
      ((∃ span, r.result = .ok span) ↔ ∃ j : Nat, u.position < j ∧ t[j]? = some d) ∧
      ∀ j, IsLeast {j : Nat | u.position < j ∧ t[j]? = some d} j →
        r.result = .ok (t.extract (u.position + 1).toNat (j + 1)) ∧
        r.next.held = t.extract (u.position + 1).toNat (j + 1) ∧ r.next.position = j) ∧
    ((∃ f, u.quotedBody.result = .error f ∧ f.unterminated? = none) ↔
      ∀ q ∈ u.current?, q ∉ ['\'', '"', '\x60']) ∧
    ∀ q ∈ u.current?, q ∈ ['\'', '"', '\x60'] →
      ((∃ body, u.quotedBody.result = .ok body) ↔ ∃ j : Nat, u.position < j ∧ t[j]? = some q) ∧
      ∀ body, u.quotedBody.result = .ok body →
        t.extract u.position.toNat (u.quotedBody.next.position + 1).toNat = q :: (body ++ [q]) ∧ q ∉ body := by
  intro u
  obtain ⟨rfl, ⟨hpos, -⟩, -⟩ : Inside t u := after_inside (start_inside h) history
  refine ⟨?_, quotedBody_mistake_iff, ?_⟩
  · intro d r
    refine ⟨readThrough_succeeds_iff, ?_⟩
    intro j hj
    have hr : r = u.deliver .delimited (u.position + 1) _ _ := readThrough_to_first hpos hj
    rw [hr]
    exact ⟨rfl, rfl, rfl⟩
  · intro q hq hm
    have hm := isQuote_iff.mpr hm
    refine ⟨quotedBody_succeeds_iff hq hm, ?_⟩
    intro body hb
    exact quotedBody_between hq hm hb

/-- On `a'b'c`, behind the read through the first mark. -/
theorem reads_end_with_delimiter_marks :
    let t : Text := ['a', '\'', 'b', '\'', 'c']
    ∃ s, start (.text t) none {} = .ok s ∧
      let u := s.after [.through '\'']
      u.held = ['a', '\''] ∧ u.quotedBody.result = .ok ['b'] ∧ t.extract 1 4 = ['\'', 'b', '\''] ∧
      (u.delimited (.text ['c'])).result = .ok ['b', '\'', 'c'] ∧ (u.delimited (.text ['c'])).next.position = 4 := by
  intro t
  obtain ⟨hread, -, hquoted⟩ := reads_end_with_delimiter t none {} _ rfl [.through '\'']
  have hlast : IsLeast {j : Nat | (1 : Int) < j ∧ t[j]? = some 'c'} 4 := by
    refine ⟨⟨by decide, rfl⟩, ?_⟩
    intro j hj
    by_cases hlt : j < 4
    · exact absurd hj.2 ((by decide : ∀ i < 4, t[i]? ≠ some 'c') j hlt)
    · omega
  obtain ⟨hr, -, hp⟩ := (hread 'c').2 4 hlast
  exact ⟨_, rfl, rfl, rfl, ((hquoted '\'' rfl (by decide)).2 ['b'] rfl).1, hr, hp⟩

/-! ## Identifiers -/

/-- The index of the first character from the cursor on that is no blank, or of the end of the text. -/
def wordStart (s : Scanner) : Nat := s.position.toNat + (s.rest.takeWhile isBlank).length

section
variable {s : Scanner}

theorem isLeast_wordStart (s : Scanner) :
    IsLeast {i : Nat | s.position ≤ i ∧ ∀ c ∈ s.text[i]?, isBlank c = false} s.wordStart := by
  rw [from_toNat]
  exact Text.isLeast_run s.text isBlank s.position.toNat

theorem wordStart_le (h : s.OnText) : s.wordStart ≤ s.length := run_le h isBlank

/-- The run of characters that may follow in an identifier, from where a word starts. -/
def wordRun (s : Scanner) : Text := (s.text.drop s.wordStart).takeWhile s.rules.continues

def wordEnd (s : Scanner) : Nat := s.wordStart + s.wordRun.length

theorem isLeast_wordEnd (s : Scanner) :
    IsLeast {i | s.wordStart ≤ i ∧ ∀ c ∈ s.text[i]?, s.rules.continues c = false} s.wordEnd :=
  Text.isLeast_run s.text s.rules.continues s.wordStart

theorem wordEnd_le (h : s.OnText) : s.wordEnd ≤ s.length := by
  have hrun : s.wordRun.length ≤ (s.text.drop s.wordStart).length := (List.takeWhile_sublist _).length_le
  have hstart := wordStart_le h
  rw [List.length_drop, ← length] at hrun
  rw [wordEnd]
  omega

theorem wordRun_eq_extract (s : Scanner) : s.wordRun = s.text.extract s.wordStart s.wordEnd :=
  (Text.extract_of_drop List.takeWhile_append_dropWhile.symm rfl).symm

theorem continues_of_mem_wordRun {c : Char} (h : c ∈ s.wordRun) : s.rules.continues c = true :=
  List.mem_takeWhile_imp h

theorem identifier_eq (s : Scanner) :
    s.identifier =
      if s.text[s.wordStart]?.any s.rules.starts then
        ⟨.ok s.wordRun, s.moveTo s.wordEnd, s.note .identifier s.wordStart s.wordRun⟩
      else (s.moveTo s.wordStart).answer [] := by
  have hb : s.skipBlanks.2 = s.moveTo s.wordStart := skipWhile_moves isBlank s
  have hc : (s.moveTo s.wordStart).current? = s.text[s.wordStart]? := by
    rw [current?_eq_head (Int.natCast_nonneg _), rest_moveTo_ofNat, List.head?_drop]
  rw [identifier]
  simp only [hb, hc]
  rfl

theorem head_wordRun {c : Char} (hc : s.text[s.wordStart]? = some c) (hs : s.rules.starts c = true) :
    s.wordRun.head? = some c := by
  rw [← List.head?_drop] at hc
  obtain ⟨r, hr⟩ := List.head?_eq_some_iff.mp hc
  rw [wordRun, hr, List.takeWhile_cons_of_pos (Identifier.Rules.continues_of_starts hs)]
  rfl

/-- Where a word opens with a character that starts an identifier, the identifier is the run from there on. -/
theorem identifier_of_start {c : Char} (hc : s.text[s.wordStart]? = some c) (hs : s.rules.starts c = true) :
    s.identifier.result = .ok s.wordRun ∧ s.identifier.next = s.moveTo s.wordEnd := by
  rw [identifier_eq, hc, Option.any_some, if_pos hs]
  exact ⟨rfl, rfl⟩

theorem identifier_of_none (h : ∀ c ∈ s.text[s.wordStart]?, s.rules.starts c = false) :
    s.identifier.result = .ok [] ∧ s.identifier.next = s.moveTo s.wordStart := by
  have hno : ¬ s.text[s.wordStart]?.any s.rules.starts = true := by
    rw [Option.any_eq_true]
    intro hs
    obtain ⟨c, hc, hs⟩ := hs
    rw [h c hc] at hs
    cases hs
  rw [identifier_eq, if_neg hno]
  exact ⟨rfl, rfl⟩

end

/-- From any state and under any rules, the blanks at the cursor are passed first, up to an index `q`. If the
    character there starts an identifier, the identifier is the text from `q` up to the first character that cannot
    follow in one, so it is as long as can be and not empty, and the cursor ends there. Otherwise it is the empty
    text and the cursor ends at `q`. It never starts with a blank, not even where a blank is a sigil. -/
theorem identifier_is_longest_run (t : Text) (source : Option String) (o : Options) (s : Scanner)
    (h : start (.text t) source o = .ok s) (history : List Action) :
    let u := s.after history
    ∃ q, IsLeast {i : Nat | u.position ≤ i ∧ ∀ c ∈ t[i]?, isBlank c = false} q ∧ q ≤ t.length ∧
    ∃ name, u.identifier.result = .ok name ∧
      (name ≠ [] ↔ ∃ c ∈ t[q]?, u.rules.starts c = true) ∧ (∀ c ∈ name.head?, isBlank c = false) ∧
      ((∃ c ∈ t[q]?, u.rules.starts c = true) →
        ∃ r, IsLeast {i | q ≤ i ∧ ∀ c ∈ t[i]?, u.rules.continues c = false} r ∧ q < r ∧ r ≤ t.length ∧
          name = t.extract q r ∧ (∀ c ∈ name, u.rules.continues c = true) ∧ u.identifier.next = u.moveTo r) ∧
      ((∀ c ∈ t[q]?, u.rules.starts c = false) → name = [] ∧ u.identifier.next = u.moveTo q) := by
  intro u
  obtain ⟨rfl, hon, -⟩ : Inside t u := after_inside (start_inside h) history
  have hleast := isLeast_wordStart u
  refine ⟨u.wordStart, hleast, wordStart_le hon, ?_⟩
  by_cases hs : ∃ c ∈ u.text[u.wordStart]?, u.rules.starts c = true
  · obtain ⟨c, hc, hstart⟩ := hs
    obtain ⟨hr, hn⟩ := identifier_of_start hc hstart
    have hhead := head_wordRun hc hstart
    have hne : u.wordRun ≠ [] := by
      intro hnil
      rw [hnil] at hhead
      cases hhead
    refine ⟨u.wordRun, hr, iff_of_true hne ⟨c, hc, hstart⟩, ?_, ?_, ?_⟩
    · intro x hx
      rw [hhead] at hx
      cases hx
      exact hleast.1.2 c hc
    · intro _
      have hlt : u.wordStart < u.wordEnd := Nat.lt_add_of_pos_right (List.length_pos_iff.mpr hne)
      exact ⟨u.wordEnd, isLeast_wordEnd u, hlt, wordEnd_le hon, wordRun_eq_extract u,
        fun _ => continues_of_mem_wordRun, hn⟩
    · intro hno
      rw [hno c hc] at hstart
      cases hstart
  · have hno : ∀ c ∈ u.text[u.wordStart]?, u.rules.starts c = false := by
      intro c hc
      rw [Bool.eq_false_iff]
      intro hstart
      exact hs ⟨c, hc, hstart⟩
    obtain ⟨hr, hn⟩ := identifier_of_none hno
    exact ⟨[], hr, iff_of_false (by simp) hs, by simp, fun hstart => absurd hstart hs, fun _ => ⟨rfl, hn⟩⟩

/-- On ` $a b`, where the dollar sign and the blank are sigils: the blank in front is passed, the one inside is
    not. -/
theorem identifier_is_longest_run_sigil :
    let t : Text := [' ', '$', 'a', ' ', 'b']
    ∃ s, start (.text t) none { rules := { leading := ['$', ' '] } } = .ok s ∧
      s.identifier.result = .ok ['$', 'a', ' ', 'b'] ∧ s.identifier.next.position = 5 ∧
      IsLeast {i | 1 ≤ i ∧ ∀ c ∈ t[i]?, s.rules.continues c = false} 5 := by
  intro t
  obtain ⟨q, hq, -, name, -, -, -, hrun, -⟩ := identifier_is_longest_run t none
    { rules := { leading := ['$', ' '] } } _ rfl []
  have hfirst : IsLeast {i : Nat | (-1 : Int) ≤ i ∧ ∀ c ∈ t[i]?, isBlank c = false} 1 := by
    refine ⟨⟨by decide, ?_⟩, ?_⟩
    · intro c hc
      cases hc
      rfl
    · intro j hj
      rcases j with _ | j
      · exact absurd (hj.2 ' ' rfl) (by decide)
      · omega
  obtain rfl : q = 1 := hq.unique hfirst
  obtain ⟨r, hr, -, -, -, -, hn⟩ := hrun ⟨'$', rfl, rfl⟩
  have hend : (5 : Int) = r := congrArg Scanner.position hn
  obtain rfl : r = 5 := by omega
  exact ⟨_, rfl, rfl, rfl, hr⟩

end Scanner

end Lexkit
