/-
  Lexkit.Proofs.Assignments — a small grammar on the scanner, and its way back.

  A list of assignments is written as `name = "value";` for each of them, in any of the three quotation
  marks, with gaps of blanks, block comments and `#` comments wherever two words meet. A gap holds the
  proof that each of its pieces ends where it says: a comment's body no closer, a line comment's no line
  end. An assignment holds the proof that its name is one and that its value is free of its mark.

  Reading goes in rounds over the scanner's own moves (`assignment`, `assignments`). Whatever was written,
  reading gives back, in order, and it ends at the end of the text (`assignments_of_written`). Each move
  hands the cursor over on the first character the next one wants (`gap_reads`, `name_reads`, `quoted_reads`).
-/

import Lexkit.Proofs.Gap

namespace Lexkit.Assignments

open Lexkit.Alphabet

/-! ## Writing -/

/-- One piece of a gap. -/
inductive Filler where
  | blank (c : Char) (blank : isBlank c = true)
  | block (body : Text) (unclosed : ¬ Comment.closer <:+: body)
  | line (body : Text) (inline : ∀ c ∈ body, endsLine c = false) (last : Char) (ends : endsLine last = true)

def Filler.written : Filler → Text
  | .blank c _ => [c]
  | .block body _ => Comment.opener ++ body ++ Comment.closer
  | .line body _ last _ => '#' :: body ++ [last]

abbrev Gap := List Filler

def Gap.written (g : Gap) : Text := g.flatMap Filler.written

structure Assignment where
  first : Char
  more : Text
  mark : Char
  value : Text
  opens : (isLetter first || isUnderscore first) = true
  continues : ∀ c ∈ more, (isLetter c || isDigit c || isUnderscore c) = true
  quotes : isQuote mark = true
  unquoted : mark ∉ value

def Assignment.name (a : Assignment) : Text := a.first :: a.more

/-- An assignment and the gaps it is written with. -/
structure Clause extends Assignment where
  beforeName : Gap
  afterName : Gap
  beforeValue : Gap
  afterValue : Gap

def Clause.written (a : Clause) : Text :=
  a.beforeName.written ++ a.name ++ a.afterName.written ++ ['='] ++ a.beforeValue.written ++
    [a.mark] ++ a.value ++ [a.mark] ++ a.afterValue.written ++ [';']

def written (clauses : List Clause) (last : Gap) : Text := clauses.flatMap Clause.written ++ last.written

/-! ## A written gap -/

/-- Line comments open with a hash. -/
def hash : Option Text := some ['#']

/-- Behind a body without a closer, the first closer is the one that was written. -/
theorem indexOf?_closer {body : Text} (h : ¬ Comment.closer <:+: body) (rest : Text) :
    Text.indexOf? Comment.closer (body ++ (Comment.closer ++ rest)) = some body.length := by
  induction body with
  | nil =>
    show Text.indexOf? Comment.closer ('*' :: '/' :: rest) = some 0
    rw [Text.indexOf?_cons]
    rfl
  | cons c body ih =>
    have hb : ¬ Comment.closer <:+: body := fun hi => h (List.infix_cons hi)
    have hc : ¬ Comment.closer.isPrefixOf (c :: (body ++ (Comment.closer ++ rest))) = true := by
      -- a closer here is one inside the body, or its slash is the star of the written closer
      intro hp
      cases body with
      | nil => simp [Comment.closer] at hp
      | cons d b =>
        simp only [Comment.closer, List.cons_append, List.isPrefixOf, Bool.and_true, Bool.and_eq_true, beq_iff_eq] at hp
        obtain ⟨rfl, rfl⟩ := hp
        exact h ⟨[], b, rfl⟩
    rw [List.cons_append, Text.indexOf?_cons, if_neg hc, ih hb]
    rfl

theorem findIdx_endsLine {body : Text} (h : ∀ c ∈ body, endsLine c = false) {last : Char} (hl : endsLine last = true)
    (rest : Text) : (body ++ last :: rest).findIdx endsLine = body.length := by
  induction body with
  | nil => rw [List.nil_append, List.findIdx_cons, hl]; rfl
  | cons c body ih =>
    rw [List.cons_append, List.findIdx_cons, h c List.mem_cons_self, ih fun d hd => h d (List.mem_cons_of_mem c hd)]
    rfl

/-- A piece of a gap is passed over whole. -/
theorem gapEnd_filler (strict : Bool) (i : Nat) (f : Filler) (rest : Text) :
    gapEnd hash strict i (f.written ++ rest) = gapEnd hash strict (i + f.written.length) rest := by
  cases f with
  | blank c hc =>
    show gapEnd hash strict i (c :: rest) = _
    rw [gapEnd, if_pos hc]
    rfl
  | block body hb =>
    have hw : (Filler.block body hb).written ++ rest = Comment.opener ++ (body ++ (Comment.closer ++ rest)) := by
      simp only [Filler.written, List.append_assoc]
    have hd : (Comment.opener ++ (body ++ (Comment.closer ++ rest))).drop (2 + (body.length + 2)) = rest := by
      rw [← List.drop_drop]
      show (body ++ (Comment.closer ++ rest)).drop (body.length + 2) = rest
      rw [← List.drop_drop, List.drop_left]
      rfl
    have hl : (Filler.block body hb).written.length = 2 + (body.length + 2) := by
      simp only [Filler.written, Comment.opener, Comment.closer, List.length_append, List.length_cons, List.length_nil]
      omega
    have ho : Comment.opener.isPrefixOf (Comment.opener ++ (body ++ (Comment.closer ++ rest))) = true := by simp
    have hk : Text.indexOf? Comment.closer ((Comment.opener ++ (body ++ (Comment.closer ++ rest))).drop 2) =
        some body.length := indexOf?_closer hb rest
    rw [hw, gapEnd_closed ho hk, hd, hl]
  | line body hb last hl =>
    have hw : (Filler.line body hb last hl).written ++ rest = '#' :: (body ++ last :: rest) := by
      simp [Filler.written]
    have hlast : isBlank last = true := by
      simp only [endsLine, Bool.or_eq_true, beq_iff_eq] at hl
      rcases hl with rfl | rfl <;> rfl
    have hi : ('#' :: (body ++ last :: rest)).findIdx endsLine = body.length + 1 := by
      rw [List.findIdx_cons, findIdx_endsLine hb hl]
      rfl
    have hd : ('#' :: (body ++ last :: rest)).drop (body.length + 1) = last :: rest := List.drop_left
    have ho : lineOpens hash ('#' :: (body ++ last :: rest)) = true := rfl
    rw [hw, gapEnd_word (by simp [isBlank]) rfl, if_pos ho, hi, hd, gapEnd, if_pos hlast]
    simp [Filler.written, Nat.add_assoc]

theorem gapEnd_gap (strict : Bool) (i : Nat) (g : Gap) (rest : Text) :
    gapEnd hash strict i (g.written ++ rest) = gapEnd hash strict (i + g.written.length) rest := by
  induction g generalizing i with
  | nil => rfl
  | cons f g ih =>
    have hw : Gap.written (f :: g) = f.written ++ Gap.written g := rfl
    rw [hw, List.append_assoc, gapEnd_filler, ih, List.length_append, Nat.add_assoc]

/-- No gap goes on with the text. -/
def Solid (t : Text) : Prop := ∀ c ∈ t.head?, isBlank c = false ∧ c ≠ '/' ∧ c ≠ '#'

theorem gapEnd_solid {t : Text} (h : Solid t) (strict : Bool) (i : Nat) : gapEnd hash strict i t = .ok i := by
  cases t with
  | nil => rw [gapEnd]
  | cons c t =>
    obtain ⟨hb, hs, hh⟩ := h c rfl
    have hc : Comment.opener.isPrefixOf (c :: t) = false := by
      simp [Comment.opener, List.isPrefixOf, Ne.symm hs]
    have ho : lineOpens hash (c :: t) = false := by
      simp [lineOpens, hash, List.isPrefixOf, Ne.symm hh]
    rw [gapEnd, hb, hc, ho]
    rfl

/-! ## Reading -/

/-- Why reading ends before the text does. -/
inductive Trouble where
  | failed (f : Failure)
  | missing (c : Char)
  deriving DecidableEq, Repr

def taken {α : Type} (o : Outcome α) : Except Trouble (α × Scanner) :=
  match o.result with
  | .ok a => .ok (a, o.next)
  | .error f => .error (.failed f)

/-- Over a gap. -/
def skipGap (s : Scanner) : Except Trouble Scanner := do
  let (_, t) ← taken (s.trivia hash)
  return t

/-- Past the character, which has to be the current one. -/
def past (c : Char) (s : Scanner) : Except Trouble Scanner :=
  if s.current? = some c then .ok s.read.2 else .error (.missing c)

/-- One assignment, the cursor on its name: the name and the value, and the scanner behind the semicolon. -/
def assignment (s : Scanner) : Except Trouble ((Text × Text) × Scanner) := do
  let (name, s) ← taken s.identifier
  let s ← past '=' (← skipGap s)
  let (value, s) ← taken (← skipGap s).quotedBody
  let s ← past ';' (← skipGap s.read.2)
  return ((name, value), s)

theorem bind_ok {ε α β : Type} {x : Except ε α} {f : α → Except ε β} {b : β} (h : (x >>= f) = .ok b) :
    ∃ a, x = .ok a ∧ f a = .ok b := by
  cases x with
  | error e => cases h
  | ok a => exact ⟨a, rfl, h⟩

theorem taken_ok {α : Type} {o : Outcome α} {a : α} {s : Scanner} (h : taken o = .ok (a, s)) : s = o.next := by
  unfold taken at h
  split at h <;> cases h
  rfl

theorem skipGap_onward {s t : Scanner} (h : skipGap s = .ok t) : s.Onward t := by
  obtain ⟨⟨moved, u⟩, hu, h⟩ := bind_ok h
  cases h
  rw [taken_ok hu]
  exact Scanner.trivia_onward hash s

/-- Past a character there is less text. -/
theorem past_progress {c : Char} {s t : Scanner} (h : past c s = .ok t) : t.rest.length < s.rest.length := by
  unfold past at h
  split at h
  · rename_i hc
    cases h
    obtain ⟨h0, hr⟩ := Scanner.head_rest_of_current hc
    obtain ⟨r, hr⟩ := List.head?_eq_some_iff.mp hr
    rw [Scanner.rest_read h0, hr]
    exact Nat.lt_succ_self _
  · cases h

theorem assignment_progress {s t : Scanner} {a : Text × Text} (h : assignment s = .ok (a, t)) :
    t.rest.length < s.rest.length := by
  unfold assignment at h
  obtain ⟨⟨name, s1⟩, h1, h⟩ := bind_ok h
  obtain ⟨s2, h2, h⟩ := bind_ok h
  obtain ⟨s3, h3, h⟩ := bind_ok h
  obtain ⟨s4, h4, h⟩ := bind_ok h
  obtain ⟨⟨value, s5⟩, h5, h⟩ := bind_ok h
  obtain ⟨s6, h6, h⟩ := bind_ok h
  obtain ⟨s7, h7, h⟩ := bind_ok h
  cases h
  have l1 : s1.rest.length ≤ s.rest.length := taken_ok h1 ▸ s.identifier_onward.rest_le
  have l2 := (skipGap_onward h2).rest_le
  have l3 := past_progress h3
  have l4 := (skipGap_onward h4).rest_le
  have l5 : s5.rest.length ≤ s4.rest.length := taken_ok h5 ▸ s4.quotedBody_onward.rest_le
  have l6 := (s5.read_onward.trans (skipGap_onward h6)).rest_le
  have l7 := past_progress h7
  omega

/-- Assignments to the end of the text, and the scanner there. -/
def assignments (s : Scanner) : Except Trouble (List (Text × Text) × Scanner) :=
  match _ : skipGap s with
  | .error e => .error e
  | .ok t =>
    if t.atEnd then .ok ([], t)
    else
      match _ : assignment t with
      | .error e => .error e
      | .ok (a, u) => (assignments u).map fun r => (a :: r.1, r.2)
termination_by s.rest.length
decreasing_by exact Nat.lt_of_lt_of_le (assignment_progress ‹_›) (skipGap_onward ‹_›).rest_le

/-! ## Reading what was written -/

/-- The cursor stands on the text, what is left of it is `t`, and names are plain. -/
structure Faces (s : Scanner) (t : Text) : Prop where
  started : 0 ≤ s.position
  rest : s.rest = t
  plain : s.rules = {}

theorem gap_reads {s : Scanner} {g : Gap} {t : Text} (hr : s.rest = g.written ++ t) (hp : s.rules = {})
    (ht : Solid t) : ∃ u, skipGap s = .ok u ∧ Faces u t := by
  have he : gapEnd hash s.strict s.position.toNat s.rest = .ok (s.position.toNat + g.written.length) := by
    rw [hr, gapEnd_gap, gapEnd_solid ht]
  obtain ⟨hres, hnext⟩ := Scanner.trivia_of_gapEnd he
  have hrest : (s.moveTo (s.position.toNat + g.written.length : Nat)).rest = t := by
    rw [Scanner.rest_moveTo_ofNat, ← Scanner.drop_rest, hr, List.drop_left]
  refine ⟨_, ?_, Int.natCast_nonneg _, hrest, hp⟩
  simp only [skipGap, taken, hres, hnext]
  rfl

theorem Faces.read {s : Scanner} {c : Char} {t : Text} (h : Faces s (c :: t)) : Faces s.read.2 t :=
  ⟨Int.le_trans h.started s.le_position_read, by rw [Scanner.rest_read h.started, h.rest]; rfl, h.plain⟩

theorem past_reads {s : Scanner} {c : Char} {t : Text} (h : Faces s (c :: t)) :
    ∃ u, past c s = .ok u ∧ Faces u t := by
  have hc : s.current? = some c := by rw [Scanner.current?_eq_head h.started, h.rest]; rfl
  exact ⟨s.read.2, by rw [past, if_pos hc], h.read⟩

theorem opens_solid {c : Char} (h : (isLetter c || isUnderscore c) = true) : isBlank c = false ∧ c ≠ '/' ∧ c ≠ '#' := by
  refine ⟨?_, ?_, ?_⟩
  · cases hb : isBlank c with
    | false => rfl
    | true =>
      simp only [isBlank, Bool.or_eq_true, beq_iff_eq] at hb
      rcases hb with ((rfl | rfl) | rfl) | rfl <;> exact absurd h (by decide)
  · rintro rfl
    exact absurd h (by decide)
  · rintro rfl
    exact absurd h (by decide)

theorem plain_starts {c : Char} : Identifier.Rules.starts {} c = (isLetter c || isUnderscore c) := by
  simp [Identifier.Rules.starts, Bool.or_comm]

theorem plain_continues {c : Char} :
    Identifier.Rules.continues {} c = (isLetter c || isDigit c || isUnderscore c) := by
  simp [Identifier.Rules.continues, plain_starts, Bool.or_right_comm]

theorem name_reads {s : Scanner} {a : Assignment} {t : Text} (h : Faces s (a.name ++ t))
    (ht : ∀ c ∈ t.head?, (isLetter c || isDigit c || isUnderscore c) = false) :
    ∃ u, taken s.identifier = .ok (a.name, u) ∧ Faces u t := by
  have hc : s.current? = some a.first := by rw [Scanner.current?_eq_head h.started, h.rest]; rfl
  have hs : s.rules.starts a.first = true := by rw [h.plain, plain_starts, a.opens]
  have hrun : s.rest.takeWhile s.rules.continues = a.name := by
    have hname : ∀ c ∈ a.name, s.rules.continues c = true := by
      intro c hm
      rcases List.mem_cons.mp hm with rfl | hm
      · exact Identifier.Rules.continues_of_starts hs
      · rw [h.plain, plain_continues, a.continues c hm]
    have hend : t.takeWhile s.rules.continues = [] := by
      cases t with
      | nil => rfl
      | cons c t =>
        have hn : s.rules.continues c = false := by rw [h.plain, plain_continues, ht c rfl]
        rw [List.takeWhile_cons, hn]
        rfl
    rw [h.rest, List.takeWhile_append_of_pos hname, hend, List.append_nil]
  have hi := Scanner.identifier_starts hc (opens_solid a.opens).1 hs
  rw [hrun] at hi
  refine ⟨s.moveTo (s.position + a.name.length), by rw [hi]; rfl, ?_, ?_, h.plain⟩
  · have := h.started
    show 0 ≤ s.position + _
    omega
  · rw [Scanner.rest_moveTo_add h.started, h.rest, List.drop_left]

theorem quoted_reads {s : Scanner} {q : Char} {value t : Text} (h : Faces s (q :: (value ++ q :: t)))
    (hq : isQuote q = true) (hv : q ∉ value) : ∃ u, taken s.quotedBody = .ok (value, u) ∧ Faces u (q :: t) := by
  have hc : s.current? = some q := by rw [Scanner.current?_eq_head h.started, h.rest]; rfl
  have hn : (s.position + 1).toNat = s.position.toNat + 1 := by have := h.started; omega
  have hspan : Text.through? q (s.text.drop (s.position + 1).toNat) = some (value ++ [q]) := by
    rw [hn, ← Scanner.drop_rest, h.rest]
    exact Text.through?_append hv t
  let u : Scanner := { s with cursor := ⟨s.position + (value ++ [q]).length, value ++ [q]⟩ }
  have hrest : u.rest = q :: t := by
    have hd : u.rest = s.rest.drop (value ++ [q]).length := Scanner.rest_moveTo_add h.started _
    rw [hd, h.rest, List.length_append]
    exact List.drop_left
  refine ⟨u, ?_, ?_, hrest, h.plain⟩
  · simp only [taken, Scanner.quotedBody, hc, hq, if_true, Scanner.readThrough, hspan, Scanner.deliver, Outcome.map,
      Except.map, List.dropLast_concat]
    rfl
  · have := h.started
    show 0 ≤ s.position + _
    omega

theorem blank_ends_name {c : Char} (h : isBlank c = true) : (isLetter c || isDigit c || isUnderscore c) = false := by
  simp only [isBlank, Bool.or_eq_true, beq_iff_eq] at h
  rcases h with ((rfl | rfl) | rfl) | rfl <;> decide

/-- A name does not go on into a gap, nor, where the gap is empty, into the sign behind it. -/
theorem gap_ends_name (g : Gap) {c : Char} (hc : (isLetter c || isDigit c || isUnderscore c) = false) (t : Text) :
    ∀ d ∈ (g.written ++ c :: t).head?, (isLetter d || isDigit d || isUnderscore d) = false := by
  intro d hd
  cases g with
  | nil => cases hd; exact hc
  | cons f g =>
    cases f with
    | blank b hb => cases hd; exact blank_ends_name hb
    | block body _ => cases hd; decide
    | line body _ last _ => cases hd; decide

theorem solid_cons {c : Char} (h : isBlank c = false ∧ c ≠ '/' ∧ c ≠ '#') (t : Text) : Solid (c :: t) := by
  intro d hd
  cases hd
  exact h

theorem quote_solid {c : Char} (h : isQuote c = true) : isBlank c = false ∧ c ≠ '/' ∧ c ≠ '#' := by
  simp only [isQuote, Bool.or_eq_true, beq_iff_eq] at h
  rcases h with (rfl | rfl) | rfl <;> decide

theorem ok_bind {ε α β : Type} (a : α) (f : α → Except ε β) : (Except.ok a >>= f) = f a := rfl

/-- One round: each move leaves the cursor where the next one starts. -/
theorem assignment_reads {s : Scanner} (a : Clause) {t : Text}
    (h : Faces s (a.name ++ (a.afterName.written ++ '=' :: (a.beforeValue.written ++
      a.mark :: (a.value ++ a.mark :: (a.afterValue.written ++ ';' :: t)))))) :
    ∃ u, assignment s = .ok ((a.name, a.value), u) ∧ Faces u t := by
  obtain ⟨s1, r1, h1⟩ := name_reads h (gap_ends_name _ (by decide) _)
  obtain ⟨s2, r2, h2⟩ := gap_reads h1.rest h1.plain (solid_cons (by decide) _)
  obtain ⟨s3, r3, h3⟩ := past_reads h2
  obtain ⟨s4, r4, h4⟩ := gap_reads h3.rest h3.plain (solid_cons (quote_solid a.quotes) _)
  obtain ⟨s5, r5, h5⟩ := quoted_reads h4 a.quotes a.unquoted
  obtain ⟨s6, r6, h6⟩ := gap_reads h5.read.rest h5.read.plain (solid_cons (by decide) _)
  obtain ⟨s7, r7, h7⟩ := past_reads h6
  refine ⟨s7, ?_, h7⟩
  simp only [assignment, ok_bind, r1, r2, r3, r4, r5, r6, r7]
  rfl

theorem assignments_end {s t : Scanner} (ho : skipGap s = .ok t) (he : t.atEnd = true) : assignments s = .ok ([], t) := by
  rw [assignments]
  split <;> rename_i h <;> rw [ho] at h <;> cases h
  rw [if_pos he]

theorem assignments_round {s t u : Scanner} {a : Text × Text} (ho : skipGap s = .ok t) (he : ¬ t.atEnd = true)
    (ha : assignment t = .ok (a, u)) : assignments s = (assignments u).map fun r => (a :: r.1, r.2) := by
  rw [assignments]
  split <;> rename_i h <;> rw [ho] at h <;> cases h
  rw [if_neg he]
  split <;> rename_i h <;> rw [ha] at h <;> cases h
  rfl

/-- All rounds, by induction on what was written. -/
theorem assignments_read (clauses : List Clause) (last : Gap) {s : Scanner} (hr : s.rest = written clauses last)
    (hp : s.rules = {}) :
    ∃ t, assignments s = .ok (clauses.map fun a => (a.name, a.value), t) ∧ t.atEnd = true := by
  induction clauses generalizing s with
  | nil =>
    have hr : s.rest = last.written ++ [] := by rw [hr, List.append_nil]; rfl
    obtain ⟨t, rt, ht⟩ := gap_reads hr hp (fun c hc => by cases hc)
    have he : t.atEnd = true := by rw [Scanner.atEnd_eq_isEmpty ht.started, ht.rest]; rfl
    exact ⟨t, assignments_end rt he, he⟩
  | cons a clauses ih =>
    have hr : s.rest = a.beforeName.written ++ (a.name ++ (a.afterName.written ++ '=' :: (a.beforeValue.written ++
        a.mark :: (a.value ++ a.mark :: (a.afterValue.written ++ ';' :: written clauses last))))) := by
      rw [hr]
      simp only [written, Clause.written, List.flatMap_cons, List.append_assoc, List.cons_append, List.nil_append]
    obtain ⟨t, rt, ht⟩ := gap_reads hr hp (solid_cons (opens_solid a.opens) _)
    have he : ¬ t.atEnd = true := by rw [Scanner.atEnd_eq_isEmpty ht.started, ht.rest]; simp [Assignment.name]
    obtain ⟨u, ru, hu⟩ := assignment_reads a ht
    obtain ⟨v, rv, hv⟩ := ih hu.rest hu.plain
    refine ⟨v, ?_, hv⟩
    rw [assignments_round rt he ru, rv]
    rfl

/-- Whatever assignments were written, with whatever gaps: a fresh scanner with plain names, strict about
    open comments or not, reads exactly these names and values, in order, and ends at the end of the text. -/
theorem assignments_of_written (clauses : List Clause) (last : Gap) (source : Option String) (strict debug : Bool)
    (h : written clauses last ≠ []) :
    ∃ s t, Scanner.start (.text (written clauses last)) source { strict := strict, debug := debug } = .ok s ∧
      assignments s = .ok (clauses.map fun a => (a.name, a.value), t) ∧ t.atEnd = true := by
  cases hw : written clauses last with
  | nil => exact absurd hw h
  | cons c more =>
    let s : Scanner := { strict := strict, debug := debug, text := c :: more, source := nameOr "<string>" source }
    obtain ⟨t, rt, ht⟩ := assignments_read clauses last (s := s) hw.symm rfl
    exact ⟨s, t, rfl, rt, ht⟩

/-- A name between comments, a value that holds a hash, another mark, a line end and a comment's opener. -/
def commented : Clause where
  first := '_'
  more := ['1']
  mark := '\''
  value := ['#', '"', '\n', '/', '*']
  opens := by decide
  continues := by simp [isDigit]
  quotes := by decide
  unquoted := by decide
  beforeName := [.block ['*', '\'', '/', '*'] (by decide), .line ['/', '*'] (by simp [endsLine]) '\r' (by decide)]
  afterName := []
  beforeValue := [.blank '\t' (by decide), .line [] (by simp) '\n' (by decide)]
  afterValue := [.block [] (by decide)]

theorem assignments_of_written_commented :
    written [commented, commented] [] ≠ [] ∧
    ∃ s t, Scanner.start (.text (written [commented, commented] [])) none { strict := true, debug := false } = .ok s ∧
      assignments s = .ok ([(['_', '1'], ['#', '"', '\n', '/', '*']), (['_', '1'], ['#', '"', '\n', '/', '*'])], t) ∧
      t.atEnd = true :=
  ⟨by decide, assignments_of_written [commented, commented] [] none true false (by decide)⟩

end Lexkit.Assignments
