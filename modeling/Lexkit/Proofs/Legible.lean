/-
  Lexkit.Proofs.Legible — what a line of the log says can be read off it.

  A quoted text is read back character by character (`unescape`): a backslash starts an escape, a letter behind it may
  start the digits of a code, and everything else stands for itself. The reader need not know which marks were used.
  Each escape is read back as the character it was written for (`unescape_escape`), so the whole text is
  (`unquoted_quotedChars`).

  A location is written with digits and a colon, and digits are no colons, so its two numbers can be told apart
  (`render_colon_inj`); no two places from the one before the text on share a location. In a line, the source is
  followed by the location, the kind of the span, whose label no other label starts like, and the quoted span. So lines
  that are equal come from equal records (`logLine_inj`), in whichever histories they were logged (`log_is_legible`).
-/

import Lexkit.Proofs.Counting
import Lexkit.Proofs.Transcript

namespace Lexkit

namespace Text

/-! ## Reading escapes -/

/-- Where a reader of escapes stands: between two characters, behind a backslash, or in a code with `left` digits to
    come and `value` read so far. -/
inductive EscapeState where
  | plain
  | escaped
  | code (left value : Nat)

def hexValue (c : Char) : Nat := if c ≤ '9' then c.toNat - 0x30 else c.toNat - 0x57

/-- The number of digits that a letter behind a backslash promises. -/
def codeWidth? : Char → Option Nat
  | 'x' => some 2
  | 'u' => some 4
  | 'U' => some 8
  | _ => none

/-- What a letter behind a backslash stands for. -/
def letter : Char → Char
  | 't' => '\t'
  | 'n' => '\n'
  | 'r' => '\r'
  | c => c

def unescape : EscapeState → Text → Option Text
  | .plain, [] => some []
  | .plain, c :: r => if c = '\\' then unescape .escaped r else (unescape .plain r).map (c :: ·)
  | .escaped, c :: r =>
    match codeWidth? c with
    | some width => unescape (.code width 0) r
    | none => (unescape .plain r).map (letter c :: ·)
  | .code (left + 1) value, c :: r =>
    let value := value * 16 + hexValue c
    if left = 0 then (unescape .plain r).map (Char.ofNat value :: ·) else unescape (.code left value) r
  | _, _ => none

/-- A quoted text without its marks, read back. -/
def unquoted? (t : Text) : Option Text := unescape .plain t.tail.dropLast

/-! ## Reading back what was written -/

theorem hexValue_hexDigit : ∀ d < 16, hexValue (hexDigit d) = d := by decide

theorem length_hexDigits (width n : Nat) : (hexDigits width n).length = width := by
  induction width generalizing n with
  | zero => rfl
  | succ width ih => simp [hexDigits, ih]

theorem foldl_hexDigits (width n : Nat) :
    (hexDigits width n).foldl (fun v c => v * 16 + hexValue c) 0 = n % 16 ^ width := by
  induction width generalizing n with
  | zero => simp [hexDigits, Nat.mod_one]
  | succ width ih =>
    rw [hexDigits, List.foldl_append, ih, List.foldl_cons, List.foldl_nil,
      hexValue_hexDigit _ (Nat.mod_lt _ (by decide)), Nat.pow_succ, Nat.mul_comm (16 ^ width) 16, Nat.mod_mul]
    omega

/-- As many digits as were promised are read as their value. -/
theorem unescape_code {ds : Text} (h : ds ≠ []) (value : Nat) (rest : Text) :
    unescape (.code ds.length value) (ds ++ rest) =
      (unescape .plain rest).map (Char.ofNat (ds.foldl (fun v c => v * 16 + hexValue c) value) :: ·) := by
  induction ds generalizing value with
  | nil => exact absurd rfl h
  | cons d ds ih =>
    by_cases hds : ds = []
    · simp [hds, unescape]
    · have hleft : ds.length ≠ 0 := by simpa using hds
      simp [unescape, hleft, ih hds]

/-- A letter and the digits it promises are read as the character of the code. -/
theorem unescape_hex {c : Char} {l : Char} {width : Nat} (hl : codeWidth? l = some width) (hw : width ≠ 0)
    (hc : c.toNat < 16 ^ width) (rest : Text) :
    unescape .plain ('\\' :: l :: hexDigits width c.toNat ++ rest) = (unescape .plain rest).map (c :: ·) := by
  have hne : hexDigits width c.toNat ≠ [] := by
    rw [ne_eq, ← List.length_eq_zero_iff, length_hexDigits]
    exact hw
  have hread := unescape_code hne 0 rest
  rw [length_hexDigits, foldl_hexDigits, Nat.mod_eq_of_lt hc, Char.ofNat_toNat] at hread
  simp [unescape, hl, hread]

theorem unescape_codeEscape (c : Char) (rest : Text) :
    unescape .plain (codeEscape c.toNat ++ rest) = (unescape .plain rest).map (c :: ·) := by
  unfold codeEscape
  split_ifs with h2 h4
  · exact unescape_hex (l := 'x') rfl (by decide) h2 rest
  · exact unescape_hex (l := 'u') rfl (by decide) h4 rest
  · -- a character has 32 bits
    exact unescape_hex (l := 'U') rfl (by decide) c.val.toNat_lt rest

theorem mark_cases (t : Text) : t.mark = '\'' ∨ t.mark = '"' := by
  unfold mark
  split
  · exact Or.inr rfl
  · exact Or.inl rfl

section
variable [Printable]

/-- A character is read back from its escape, whichever of the two marks is in use. -/
theorem unescape_escape {q : Char} (hq : q = '\'' ∨ q = '"') (c : Char) (rest : Text) :
    unescape .plain (escape q c ++ rest) = (unescape .plain rest).map (c :: ·) := by
  unfold escape
  split_ifs with hmark ht hn hr hp
  · rcases hmark with rfl | rfl
    · rcases hq with rfl | rfl <;> rfl
    · rfl
  · subst ht; rfl
  · subst hn; rfl
  · subst hr; rfl
  · have hc : c ≠ '\\' := fun he => hmark (Or.inr he)
    simp [unescape, hc]
  · exact unescape_codeEscape c rest

theorem unescape_flatMap {q : Char} (hq : q = '\'' ∨ q = '"') (t : Text) :
    unescape .plain (t.flatMap (escape q)) = some t := by
  induction t with
  | nil => rfl
  | cons c t ih => rw [List.flatMap_cons, unescape_escape hq, ih, Option.map_some]

theorem unquoted_quotedChars (t : Text) : unquoted? t.quotedChars = some t := by
  rw [unquoted?, quotedChars, List.tail_cons, List.dropLast_concat]
  exact unescape_flatMap t.mark_cases t

theorem quotedChars_inj {t u : Text} (h : t.quotedChars = u.quotedChars) : t = u := by
  have hread := congrArg unquoted? h
  rwa [unquoted_quotedChars, unquoted_quotedChars, Option.some_inj] at hread

end

end Text

/-! ## Telling locations apart -/

/-- A colon ends the digits of a number. -/
theorem digits_colon_inj {m n : Nat} {x y : Text}
    (h : Nat.toDigits 10 m ++ ':' :: x = Nat.toDigits 10 n ++ ':' :: y) : m = n ∧ x = y := by
  have hdigits : ∀ k z, (Nat.toDigits 10 k ++ ':' :: z).takeWhile Char.isDigit = Nat.toDigits 10 k := by
    intro k z
    rw [List.takeWhile_append_of_pos fun c hc => Nat.isDigit_of_mem_toDigits (by decide) (by decide) hc,
      List.takeWhile_cons_of_neg (by decide), List.append_nil]
  have hd : Nat.toDigits 10 m = Nat.toDigits 10 n := by
    rw [← hdigits m x, h, hdigits]
  constructor
  · simpa only [Nat.ofDigitChars_ten_toDigits] using congrArg (Nat.ofDigitChars 10 · 0) hd
  · rw [hd] at h
    simpa using h

/-- The colon behind a location shows where it ends. -/
theorem Location.render_colon_inj {l m : Location} {x y : Text}
    (h : l.render.toList ++ ':' :: x = m.render.toList ++ ':' :: y) : l = m ∧ x = y := by
  have hlayout : ∀ (k : Location) z, k.render.toList ++ ':' :: z =
      Nat.toDigits 10 k.line ++ ':' :: (Nat.toDigits 10 k.column ++ ':' :: z) := by
    simp [Location.render, Nat.toList_repr]
  rw [hlayout, hlayout] at h
  obtain ⟨hline, hrest⟩ := digits_colon_inj h
  obtain ⟨hcolumn, hxy⟩ := digits_colon_inj hrest
  cases l
  cases m
  cases hline
  cases hcolumn
  exact ⟨rfl, hxy⟩

theorem Location.render_inj {l m : Location} (h : l.render = m.render) : l = m :=
  (render_colon_inj (x := []) (y := []) (by rw [h])).1

/-! ## Telling lines apart -/

theorem SpanKind.label_inj {k k' : SpanKind} {x y : Text}
    (h : k.label.toList ++ x = k'.label.toList ++ y) : k = k' ∧ x = y := by
  cases k <;> cases k' <;> simp_all [label]

namespace Scanner

/-- Every record names an index of the text. -/
theorem logged_started {t : Text} {s : Scanner} (h : Inside t s) (history : List Action) :
    ∀ r ∈ s.logged history, 0 ≤ r.start := by
  intro r hr
  -- The records of a skip of trivia are those of the comments inside it.
  rw [← logged_unrolled, logged, run_eq_calls, List.flatMap_map] at hr
  obtain ⟨c, hc, hr⟩ := List.mem_flatMap.mp hr
  have hmem : c.action ∈ s.unrolled history := calls_actions s (s.unrolled history) ▸ List.mem_map_of_mem hc
  have hsimple : c.action.isTrivia = false := by
    rcases mem_unrolled hmem with ⟨-, ht⟩ | hk
    · exact ht
    · rcases Action.cases_of_skipsTrivia hk with he | he | he <;> rw [he] <;> rfl
  have hd : c.delivered? = some r := by
    rw [Call.log_eq hsimple] at hr
    split at hr
    · exact Option.mem_toList.mp hr
    · cases hr
  exact (Call.delivers_of_delivered hd).started (calls_inside h _ c hc).onText.1

section
variable [Printable]

/-- In the course of a history the record was logged, and this is its line. -/
def Emits (s : Scanner) (history : List Action) (r : Record) (line : String) : Prop :=
  ∃ c ∈ s.calls history, r ∈ c.outcome.log ∧ c.before.logLine r = line

/-- Over one text and one source, records from the place before the text on have lines of their own. -/
theorem logLine_inj {s s' : Scanner} (ht : s.text = s'.text) (hsrc : s.source = s'.source) {r r' : Record}
    (hr : -1 ≤ r.start) (hr' : -1 ≤ r'.start) (h : s.logLine r = s'.logLine r') : r = r' := by
  have hlayout : ∀ (u : Scanner) q, (u.logLine q).toList = u.source.toList ++ ':' ::
      ((u.locate q.start).render.toList ++ ':' :: ' ' :: (q.kind.label.toList ++ ' ' :: q.span.quotedChars)) := by
    simp [logLine, Text.quoted]
  have hchars := congrArg String.toList h
  rw [hlayout, hlayout, hsrc, List.append_cancel_left_eq, List.cons.injEq] at hchars
  obtain ⟨hplace, hrest⟩ := Location.render_colon_inj hchars.2
  obtain ⟨hkind, hquoted⟩ := SpanKind.label_inj (List.cons.inj hrest).2
  rw [locate, locate, ht] at hplace
  have hstart : r.start = r'.start := Lines.locate_inj _ hr hr' hplace
  have hspan : r.span = r'.span := Text.quotedChars_inj (List.cons.inj hquoted).2
  cases r
  cases r'
  cases hkind
  cases hstart
  cases hspan
  rfl

theorem Emits.logged {s : Scanner} {history : List Action} {r : Record} {line : String}
    (h : s.Emits history r line) : r ∈ s.logged history ∧ s.logLine r = line := by
  obtain ⟨c, hc, hr, hline⟩ := h
  constructor
  · rw [Scanner.logged, run_eq_calls, List.flatMap_map]
    exact List.mem_flatMap.mpr ⟨c, hc, hr⟩
  · rw [← calls_logLine s history c hc]
    exact hline

/-- A text is read back from its quoted form, and a place, from the one before the text on, is told by its location as
    it is printed. Two scanners on one text, under one source name, each with settings and a history of its own, log
    equal lines only for equal records: the same kind of span, from the same index on, with the same characters. -/
theorem log_is_legible (t : Text) :
    (∀ w : Text, Text.unquoted? w.quoted.toList = some w) ∧
    (∀ p q : Int, -1 ≤ p → -1 ≤ q →
      ((Lines.of t).locate p).render = ((Lines.of t).locate q).render → p = q) ∧
    ∀ source₁ source₂ o₁ o₂ s₁ s₂, start (.text t) source₁ o₁ = .ok s₁ → start (.text t) source₂ o₂ = .ok s₂ →
      s₁.source = s₂.source → ∀ history₁ history₂ r₁ r₂ line, s₁.Emits history₁ r₁ line →
      s₂.Emits history₂ r₂ line → r₁ = r₂ := by
  refine ⟨?_, ?_, ?_⟩
  · intro w
    rw [Text.quoted, String.toList_ofList]
    exact Text.unquoted_quotedChars w
  · intro p q hp hq h
    exact Lines.locate_inj t hp hq (Location.render_inj h)
  · intro source₁ source₂ o₁ o₂ s₁ s₂ h₁ h₂ hsrc history₁ history₂ r₁ r₂ line he₁ he₂
    have hin₁ := start_inside h₁
    have hin₂ := start_inside h₂
    have hr₁ := logged_started hin₁ history₁ r₁ he₁.logged.1
    have hr₂ := logged_started hin₂ history₂ r₂ he₂.logged.1
    exact logLine_inj (hin₁.text.trans hin₂.text.symm) hsrc (by omega) (by omega)
      (he₁.logged.2.trans he₂.logged.2.symm)

end

/-- On `'"\` and a bell, read up to the bell: the mark and the backslash are escaped, the bell by its code, and no
    history logs this line for another record. -/
theorem log_is_legible_marks :
    ∃ s, start (.text ['\'', '"', '\\', '\x07']) none { debug := true } = .ok s ∧
      s.Emits [.delimited (.text ['\x07'])] ⟨.delimited, 0, ['\'', '"', '\\', '\x07']⟩
        "<string>:1:1: read up to delimiter '\\'\"\\\\\\x07'" ∧
      ∀ history r, s.Emits history r "<string>:1:1: read up to delimiter '\\'\"\\\\\\x07'" →
        r = ⟨.delimited, 0, ['\'', '"', '\\', '\x07']⟩ := by
  obtain ⟨-, -, hlines⟩ := log_is_legible ['\'', '"', '\\', '\x07']
  refine ⟨_, rfl, ?emitted, fun history r h => hlines none none _ _ _ _ rfl rfl rfl _ _ _ _ _ h ?emitted⟩
  exact ⟨_, List.mem_cons_self, by decide +kernel, by decide +kernel⟩

end Scanner

end Lexkit
