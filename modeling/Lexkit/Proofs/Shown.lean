/-
  Lexkit.Proofs.Shown — what a scanner tells of a text can be put on a page, whatever is in the text.

  A string is shown if every character of it is printable (`Shown`), whichever class of characters that is. No control
  character is printable and none that starts a new line somewhere, so what is shown stands on one line
  (`Shown.one_line`). The fixed words are ASCII from the space to the tilde, which is printable in every class
  (`shown_of_ascii`).

  A quoted text is shown whatever it holds: a printable character stands for itself or behind a backslash, every other
  one is written in letters and digits (`shown_quoted`). Numbers, and so locations, are digits. Messages, lines of the
  log and descriptions are put together from these, from fixed words and from the name of the source. The description
  quotes the name; a line of the log and most messages tell it as it is, and are shown if it is (`shown_logLine`,
  `shown_message`). No history changes the name, so that holds of everything a run tells (`tells_printable_lines`).

  Two things are told as they come: the form of what was given as a delimiter and is no plain value, and the name of a
  kind of value that is no text. A refusal of them is shown only if these are, and takes more than one line if they do
  (`a_delimiter_shows_its_own_line_break`).
-/

import Lexkit.Proofs.Legible
import Lexkit.Proofs.Twin

namespace Lexkit

open Printable

/-- Every character of it is printable. -/
def Shown [Printable] (m : String) : Prop := ∀ c ∈ m.toList, isPrintable c = true

instance [Printable] (m : String) : Decidable (Shown m) := List.decidableBAll (fun c => isPrintable c = true) m.toList

/-- A text in which no character ends a line has no breaks. -/
theorem Lines.breaksFrom_eq_nil {t : Text} (h : ∀ c ∈ t, Alphabet.endsLine c = false) (i : Nat) :
    breaksFrom i t = [] := by
  induction t generalizing i with
  | nil => rfl
  | cons c t ih =>
    have hc : breaksAt c t.head? = false := by
      have := h c List.mem_cons_self
      simp_all [Alphabet.endsLine, breaksAt]
    rw [breaksFrom, hc]
    exact ih (fun d hd => h d (List.mem_cons_of_mem c hd)) (i + 1)

/-- Characters from the space to the tilde only. -/
def isAscii (m : String) : Bool := m.toList.all fun c => decide (0x20 ≤ c.toNat) && decide (c.toNat < 0x7F)

section
variable [Printable]

theorem shown_of_ascii {m : String} (h : isAscii m = true) : Shown m := by
  intro c hc
  have hrange := List.all_eq_true.mp h c hc
  rw [Bool.and_eq_true, decide_eq_true_eq, decide_eq_true_eq] at hrange
  exact ascii hrange.1 hrange.2

@[simp] theorem shown_append {a b : String} : Shown (a ++ b) ↔ Shown a ∧ Shown b := by
  rw [Shown, String.toList_append, List.forall_mem_append]
  exact Iff.rfl

theorem Shown.one_line {m : String} (h : Shown m) : (Lines.of m.toList).count = 1 := by
  have hends : ∀ c ∈ m.toList, Alphabet.endsLine c = false := by
    intro c hc
    have := lineBreak (h c hc)
    simp_all [lineBreaks, Alphabet.endsLine]
  rw [Lines.of, Lines.breaksFrom_eq_nil hends]
  rfl

/-! ## Numbers and locations -/

@[simp] theorem shown_nat (n : Nat) : Shown (Nat.repr n) := by
  intro c hc
  rw [Nat.toList_repr] at hc
  have hdigit : c.isDigit = true := Nat.isDigit_of_mem_toDigits (by decide) (by decide) hc
  simp only [Char.isDigit, Bool.and_eq_true, decide_eq_true_eq, UInt32.le_iff_toNat_le] at hdigit
  obtain ⟨hlo, hhi⟩ := hdigit
  have hlo : 48 ≤ c.toNat := hlo
  have hhi : c.toNat ≤ 57 := hhi
  exact ascii (by omega) (by omega)

@[simp] theorem shown_int (n : Int) : Shown (Int.repr n) := by
  cases n with
  | ofNat n => exact shown_nat n
  | negSucc n => exact shown_append.mpr ⟨shown_of_ascii (by decide), shown_nat _⟩

@[simp] theorem Location.shown_render (l : Location) : Shown l.render := by
  have hcolon : Shown ":" := shown_of_ascii (by decide)
  simp [render, hcolon]

/-! ## Quoted texts -/

namespace Text

theorem isPrintable_hexDigit (d : Nat) (h : d < 16) : isPrintable (hexDigit d) = true := by
  have hrange : ∀ d < 16, 0x20 ≤ (hexDigit d).toNat ∧ (hexDigit d).toNat < 0x7F := by decide
  exact ascii (hrange d h).1 (hrange d h).2

theorem isPrintable_hexDigits (width n : Nat) : ∀ c ∈ hexDigits width n, isPrintable c = true := by
  induction width generalizing n with
  | zero => nofun
  | succ width ih =>
    rw [hexDigits, List.forall_mem_append, List.forall_mem_singleton]
    exact ⟨ih (n / 16), isPrintable_hexDigit _ (Nat.mod_lt _ (by decide))⟩

theorem isPrintable_codeEscape (n : Nat) : ∀ c ∈ codeEscape n, isPrintable c = true := by
  unfold codeEscape
  split_ifs
  all_goals
    rw [List.forall_mem_cons, List.forall_mem_cons]
    exact ⟨ascii (by decide) (by decide), ascii (by decide) (by decide), isPrintable_hexDigits _ n⟩

theorem isPrintable_behind {c : Char} (h : isPrintable c = true) : ∀ d ∈ ['\\', c], isPrintable d = true := by
  rw [List.forall_mem_cons, List.forall_mem_singleton]
  exact ⟨ascii (by decide) (by decide), h⟩

/-- Whatever the character, what is written for it between printable marks is printable. -/
theorem isPrintable_escape {q : Char} (hq : isPrintable q = true) (c : Char) :
    ∀ d ∈ escape q c, isPrintable d = true := by
  unfold escape
  split_ifs with hmark ht hn hr hp
  · rcases hmark with rfl | rfl
    · exact isPrintable_behind hq
    · exact isPrintable_behind (ascii (by decide) (by decide))
  · exact isPrintable_behind (ascii (by decide) (by decide))
  · exact isPrintable_behind (ascii (by decide) (by decide))
  · exact isPrintable_behind (ascii (by decide) (by decide))
  · rwa [List.forall_mem_singleton]
  · exact isPrintable_codeEscape c.toNat

@[simp] theorem shown_quoted (t : Text) : Shown t.quoted := by
  have hq : isPrintable t.mark = true := by
    rcases t.mark_cases with h | h <;> rw [h] <;> exact ascii (by decide) (by decide)
  rw [Shown, quoted, String.toList_ofList, quotedChars, List.forall_mem_cons, List.forall_mem_append,
    List.forall_mem_singleton]
  refine ⟨hq, fun d hd => ?_, hq⟩
  obtain ⟨c, -, hdc⟩ := List.mem_flatMap.mp hd
  exact isPrintable_escape hq c d hdc

end Text

/-! ## Messages -/

/-- A plain value is shown; what is none, if its own form is. -/
theorem Literal.shown_render {l : Literal} (h : ∀ form, l = .other form → Shown form) : Shown l.render := by
  cases l with
  | absent => exact shown_of_ascii (m := "None") (by decide)
  | flag b =>
    cases b with
    | false => exact shown_of_ascii (m := "False") (by decide)
    | true => exact shown_of_ascii (m := "True") (by decide)
  | number n => exact shown_int n
  | text t => exact t.shown_quoted
  | other form => exact h form rfl

@[simp] theorem SpanKind.shown_label (k : SpanKind) : Shown k.label := by
  cases k <;> exact shown_of_ascii (by decide)

theorem Shape.shown_name {s : Shape} (h : ∀ name, s = .other name → Shown name) : Shown s.name := by
  cases s with
  | other name => exact h name rfl
  | _ => exact shown_of_ascii (by decide)

/-- What a scanner that cannot be started says is shown if the name it was to have is, and that of the kind of value it
    was to scan. -/
theorem SetupError.shown_message {subject : Subject} {source : Option String} {o : Options} {e : SetupError}
    (he : Scanner.start subject source o = .error e) (h : Shown (nameOr "<string>" source))
    (hkind : ∀ name, subject = .other (.other name) → Shown name) : Shown e.message := by
  unfold Scanner.start at he
  split at he
  · cases he
    exact shown_append.mpr ⟨shown_of_ascii (by decide +kernel), Shape.shown_name fun name hs => hkind name (hs ▸ rfl)⟩
  · cases he
    exact shown_append.mpr ⟨shown_of_ascii (by decide +kernel), h⟩
  · cases he

/-- Whatever else the failure is about, its message is shown if the name of the source is and, where a delimiter was
    refused, the delimiter. -/
theorem Failure.shown_message {source : String} (h : Shown source) {f : Failure}
    (hgiven : ∀ given, f = .badDelimiter given → Shown given.render) : Shown (f.message source) := by
  unfold message
  split
  case h_2 given => exact shown_append.mpr ⟨shown_of_ascii (by decide +kernel), hgiven given rfl⟩
  all_goals
    -- the name, the location and what is quoted are shown; the words around them are left
    simp only [shown_append, h, Location.shown_render, Text.shown_quoted, and_true]
    and_intros <;> exact shown_of_ascii (by decide +kernel)

end

namespace Scanner

section
variable [Printable]

/-- In a line of the log only the name of the source stands as it is. -/
theorem shown_logLine {s : Scanner} {r : Record} : Shown (s.logLine r) ↔ Shown s.source := by
  have hwords : Shown ":" ∧ Shown ": " ∧ Shown " " :=
    ⟨shown_of_ascii (by decide), shown_of_ascii (by decide), shown_of_ascii (by decide)⟩
  simp [logLine, hwords]

theorem shown_describe (s : Scanner) : Shown s.describe.render := by
  unfold Description.render
  simp only [shown_append, Text.shown_quoted, shown_int, shown_nat, and_true]
  and_intros <;> exact shown_of_ascii (by decide +kernel)

end

/-- Only a delimited read refuses a delimiter, the one it was given. -/
theorem given_of_badDelimiter {s : Scanner} {a : Action} {given : Literal}
    (h : (s.perform a).result = .error (.badDelimiter given)) : a = .delimited given := by
  cases a with
  | delimited d =>
    rcases delimited_failed (map_failed h) with ⟨-, hf⟩ | ⟨_, -, -, hf⟩
    · cases hf
      rfl
    · cases hf
  | comment =>
    rcases (comment_failed (map_failed h)).2 with hf | hf
    · cases hf
    · cases hf
  | quotedBody =>
    rcases quotedBody_failed (map_failed h) with ⟨-, hf⟩ | ⟨_, -, -, -, hf⟩
    · cases hf
    · cases hf
  | trivia lineOpener =>
    have hr := map_failed h
    have hs := trivia_skips lineOpener s
    unfold Skips at hs
    split at hs
    · rw [hs.1] at hr
      cases hr
    · rw [hs.1] at hr
      cases hr
  | identifier =>
    rcases s.identifier_delivers with ⟨hr, -⟩ | ⟨i, word, hr, -⟩
    · rw [map_failed h] at hr
      cases hr
    · rw [map_failed h] at hr
      cases hr
  | _ => cases h

/-- The message of a call that failed is shown, unless it is about a delimiter that shows itself and is not. -/
theorem shown_message [Printable] {c : Call} (h : Shown c.before.source)
    (hd : ∀ form, c.action = .delimited (.other form) → Shown form) : ∀ m ∈ c.message?, Shown m := by
  intro m hm
  unfold Call.message? at hm
  split at hm
  · cases hm
  · rename_i f hf
    cases hm
    refine Failure.shown_message h fun given hgiven => Literal.shown_render fun form hform => ?_
    exact hd form (given_of_badDelimiter (hform ▸ hgiven ▸ hf))

/-- A printable character is no control character and starts no new line, and from the space to the tilde all of ASCII
    is printable; so a string of printable characters stands on one line. What a scanner that cannot be started says is
    such a string if the name of its source is, and the name of the kind of value it was to scan. So are, in every
    history of every scanner, the lines of the log and the messages of the calls that fail, whatever the text holds,
    the rules and the delimiters asked for; only where a value that is not plain is refused as a delimiter it has to
    show itself as such a string. The description of a scanner is one, whatever the name. -/
theorem tells_printable_lines [Printable] :
    (∀ c : Char, (0x20 ≤ c.toNat → c.toNat ≤ 0x7E → isPrintable c = true) ∧
      (isPrintable c = true → isControl c = false ∧ c ∉ lineBreaks)) ∧
    (∀ m : String, Shown m → (Lines.of m.toList).count = 1) ∧
    (∀ subject source o e, start subject source o = .error e → Shown (nameOr "<string>" source) →
      (∀ name, subject = .other (.other name) → Shown name) → Shown e.message) ∧
    ∀ (s : Scanner) (history : List Action),
      (Shown s.source → ∀ c ∈ s.calls history, (∀ line ∈ c.lines, Shown line) ∧
        ((∀ form, c.action = .delimited (.other form) → Shown form) → ∀ m ∈ c.message?, Shown m)) ∧
      Shown (s.after history).describe.render := by
  refine ⟨fun c => ⟨fun h h' => ascii h (by omega), fun h => ⟨control h, lineBreak h⟩⟩, fun m h => h.one_line, ?_, ?_⟩
  · intro subject source o e he h hkind
    exact SetupError.shown_message he h hkind
  · intro s history
    refine ⟨fun h c hc => ?_, shown_describe _⟩
    have hsource : Shown c.before.source := (calls_kept s history c hc).2 ▸ h
    refine ⟨?_, shown_message hsource⟩
    intro line hline
    obtain ⟨r, -, rfl⟩ := List.mem_map.mp hline
    exact shown_logLine.mpr hsource

/-- On a comment that holds an escape character, with a line separator behind it: the log line of the comment and the
    messages of the three calls that fail there spell out the controls they are about. -/
theorem tells_printable_lines_controls :
    ∃ s, start (.text ['/', '*', '\x1b', '*', '/', '\u2028']) (some "a b") { debug := true } = .ok s ∧
      let actions : List Action :=
        [.read, .comment, .comment, .delimited (.text ['\n', '\x7f']), .delimited (.text ['\r'])]
      let calls := s.calls actions
      calls.flatMap Call.lines = ["a b:1:1: skipped comment '/*\\x1b*/'"] ∧
      calls.filterMap Call.message? = [
        "skip_comment called at a b:1:6 where there is no comment opener, got '\\u2028'",
        "Delimiter has to be a single character, got '\\n\\x7f'",
        "Reached end of text looking for '\\r' after a b:1:6"] ∧
      (s.after actions).describe.render = "Scanner(source_name='a b', position=5, length=6)" ∧
      ∀ c ∈ calls, (∀ line ∈ c.lines, Shown line) ∧
        ((∀ form, c.action = .delimited (.other form) → Shown form) → ∀ m ∈ c.message?, Shown m) := by
  obtain ⟨-, -, -, hruns⟩ := tells_printable_lines
  refine ⟨_, rfl, ?_, ?_, ?_, (hruns _ _).1 (by decide)⟩
  · decide +kernel
  · decide +kernel
  · decide +kernel

/-- What shows itself over two lines is refused as a delimiter in a message of two lines, on a scanner with a printable
    name. -/
theorem a_delimiter_shows_its_own_line_break :
    ∃ s, start (.text ['a']) (some "f") {} = .ok s ∧ Shown s.source ∧
      ∃ c ∈ s.calls [.delimited (.other "x\ny")], ∃ m ∈ c.message?,
        m = "Delimiter has to be a single character, got x\ny" ∧ ¬ Shown m ∧ (Lines.of m.toList).count = 2 := by
  refine ⟨_, rfl, by decide, _, List.mem_cons_self, _, rfl, by decide +kernel, by decide +kernel, by decide +kernel⟩

end Scanner

end Lexkit
