/-
  Lexkit.Proofs.Lenient — taking comments strictly or leniently makes a difference at an open comment only.

  Two actions can meet an open comment: a comment and a skip of trivia. On a strict scanner they fail then,
  and tell where the comment starts (`leftOpen?`). As long as none has, the lenient scanner (`loosen`) goes
  through the same calls: each comes to the same, logs the same and leaves the same scanner, still lenient
  (`perform_loosen`, `after_loosen`). At the first open comment the lenient scanner goes on to the end of the
  text instead of failing (`lenient_until_open`).
-/

import Lexkit.Proofs.Reach

namespace Lexkit

def Action.setsStrict : Action → Bool
  | .setStrict _ => true
  | _ => false

/-- What a call that met an open comment tells of it. -/
def Call.leftOpen? (c : Call) : Option Unterminated :=
  match c.action, c.outcome.result with
  | .comment, .error f | .trivia _, .error f => f.unterminated?
  | _, _ => none

/-- Only a comment or a skip of trivia leaves one open, by the failure that tells of it. -/
theorem Call.failed_of_leftOpen {c : Call} {u : Unterminated} (h : c.leftOpen? = some u) :
    (c.action = .comment ∨ ∃ lineOpener, c.action = .trivia lineOpener) ∧
      ∃ f, c.outcome.result = .error f ∧ f.unterminated? = some u := by
  unfold leftOpen? at h
  split at h
  · rename_i f ha hr
    exact ⟨Or.inl ha, f, hr, h⟩
  · rename_i lineOpener f ha hr
    exact ⟨Or.inr ⟨lineOpener, ha⟩, f, hr, h⟩
  · cases h

/-- The scanner with comments taken leniently. -/
def Scanner.loosen (s : Scanner) : Scanner := { s with strict := false }

def Outcome.loosen {α : Type} (o : Outcome α) : Outcome α := { o with next := o.next.loosen }

def Scanner.Round.loosen : Round → Round
  | .done moved t => .done moved t.loosen
  | .failed f t => .failed f t.loosen
  | .again t log => .again t.loosen log

/-- Where a gap fails on an open comment, it ends with the text if comments are taken leniently. -/
theorem gapEnd_lenient {lineOpener : Option Text} {i q : Nat} {t : Text}
    (h : gapEnd lineOpener true i t = .error q) : gapEnd lineOpener false i t = .ok (i + t.length) ∧ t ≠ [] := by
  fun_induction gapEnd lineOpener true i t with
  | case1 i => cases h
  | case2 i c t hb ih =>
    have hlen : i + (c :: t).length = i + 1 + t.length := by rw [List.length_cons]; omega
    rw [gapEnd, if_pos hb, (ih h).1, hlen]
    exact ⟨rfl, List.cons_ne_nil c t⟩
  | case3 i c t hb hc k hk ih =>
    have hfit : k + 2 ≤ ((c :: t).drop 2).length := Text.indexOf?_fits hk
    rw [gapEnd_closed hc hk, (ih h).1]
    rw [List.length_drop] at hfit ⊢
    refine ⟨congrArg Except.ok ?_, List.cons_ne_nil c t⟩
    omega
  | case4 i c t hb hc hk =>
    rw [gapEnd_open hc hk]
    exact ⟨rfl, List.cons_ne_nil c t⟩
  | case5 i c t hb hc hk hs => cases h
  | case6 i c t hb hc ho line ih =>
    have hline : line ≤ (c :: t).length := List.findIdx_le_length
    rw [gapEnd, if_neg hb, if_neg hc, if_pos ho, (ih h).1, List.length_drop]
    refine ⟨congrArg Except.ok ?_, List.cons_ne_nil c t⟩
    omega
  | case7 i c t hb hc ho => cases h

namespace Scanner

variable {s : Scanner}

/-! ## One call on both -/

theorem readThrough_loosen (s : Scanner) (d : Char) : s.loosen.readThrough d = (s.readThrough d).loosen := by
  have hahead : s.loosen.text.drop (s.loosen.position + 1).toNat = s.text.drop (s.position + 1).toNat := rfl
  rw [readThrough, readThrough, hahead]
  split
  · rfl
  · rfl

theorem delimited_loosen (s : Scanner) (given : Literal) : s.loosen.delimited given = (s.delimited given).loosen := by
  unfold delimited
  split
  · exact readThrough_loosen s _
  · rfl

theorem quotedBody_loosen (s : Scanner) : s.loosen.quotedBody = s.quotedBody.loosen := by
  have hcur : s.loosen.current? = s.current? := rfl
  rw [quotedBody, quotedBody, hcur]
  split
  · split
    · rw [readThrough_loosen]
      rfl
    · rfl
  · rfl

theorem identifier_loosen (s : Scanner) : s.loosen.identifier = s.identifier.loosen := by
  have hb : s.loosen.skipBlanks.2 = s.skipBlanks.2.loosen := rfl
  simp only [identifier, hb]
  generalize s.skipBlanks.2 = t
  have hstarts : t.loosen.current?.any t.loosen.rules.starts = t.current?.any t.rules.starts := rfl
  rw [hstarts]
  split
  · rfl
  · rfl

/-- A comment is open, and the lenient scanner takes it to the end of the text, or it comes to the same on both. -/
theorem comment_loosen (hs : s.strict = true) :
    (s.comment = s.refuse (.openComment s.position s.location) ∧ 0 ≤ s.position ∧
      s.loosen.comment.result = .ok s.rest ∧ s.loosen.comment.next.position = s.length) ∨
    (s.loosen.comment = s.comment.loosen ∧ ∀ f, s.comment.result = .error f → f.unterminated? = none) := by
  by_cases hc : s.looksAt Comment.opener = true
  · have h0 : 0 ≤ s.position := (head_rest_of_current (looksAt_opener_iff.mp hc).1).1
    have hc' : s.loosen.looksAt Comment.opener = true := hc
    cases hk : Text.indexOf? Comment.closer (s.rest.drop 2) with
    | some k =>
      rw [comment_closed hc hk, comment_closed hc' hk]
      exact Or.inr ⟨rfl, nofun⟩
    | none =>
      rw [comment_open hc hk, comment_open hc' hk, hs]
      exact Or.inl ⟨rfl, h0, rfl, rfl⟩
  · have hno : ¬ (s.current? = some '/' ∧ s.next? = some '*') := mt looksAt_opener_iff.mpr hc
    have hno' : ¬ (s.loosen.current? = some '/' ∧ s.loosen.next? = some '*') := hno
    rw [comment, comment, if_neg hno, if_neg hno']
    refine Or.inr ⟨rfl, ?_⟩
    rintro f ⟨⟩
    rfl

theorem round_loosen (hs : s.strict = true) (lineOpener : Option Text) :
    (∃ f t, s.round lineOpener = .failed f t) ∨ s.loosen.round lineOpener = (s.round lineOpener).loosen := by
  have hb : s.loosen.skipBlanks = (s.skipBlanks.1, s.skipBlanks.2.loosen) := rfl
  have hst : s.skipBlanks.2.strict = true := hs
  simp only [round, hb]
  generalize s.skipBlanks.1 = moved
  generalize s.skipBlanks.2 = t at hst
  by_cases hc : t.looksAt Comment.opener = true
  · have hc' : t.loosen.looksAt Comment.opener = true := hc
    rw [if_pos hc, if_pos hc']
    cases hr : t.comment.result with
    | error f => exact Or.inl ⟨f, _, rfl⟩
    | ok span =>
      rcases comment_loosen hst with ⟨hopen, -⟩ | ⟨hl, -⟩
      · rw [hopen] at hr
        cases hr
      · have hr' : t.loosen.comment.result = .ok span := by rw [hl]; exact hr
        rw [hr', hl]
        exact Or.inr rfl
  · have hc' : ¬ t.loosen.looksAt Comment.opener = true := hc
    rw [if_neg hc, if_neg hc']
    by_cases ho : t.opensLine lineOpener = true
    · have ho' : t.loosen.opensLine lineOpener = true := ho
      rw [if_pos ho, if_pos ho']
      exact Or.inr rfl
    · have ho' : ¬ t.loosen.opensLine lineOpener = true := ho
      rw [if_neg ho, if_neg ho']
      exact Or.inr rfl

theorem strict_of_again {lineOpener : Option Text} {t : Scanner} {log : List Record}
    (h : s.round lineOpener = .again t log) : t.strict = s.strict := by
  rcases round_cases lineOpener s with ⟨q, hq, -⟩ | ⟨q, hq, -⟩ | ⟨q, log', hq, -⟩
  · rw [h] at hq
    cases hq
  · rw [h] at hq
    cases hq
  · rw [h] at hq
    cases hq
    rfl

/-- A skip of trivia that does not fail. -/
theorem trivia_loosen (hs : s.strict = true) {lineOpener : Option Text} {moved : Bool}
    (h : (s.trivia lineOpener).result = .ok moved) : s.loosen.trivia lineOpener = (s.trivia lineOpener).loosen := by
  -- as in the loop itself, by induction on what is left of the text
  generalize hn : s.rest.length = n
  induction n using Nat.strongRecOn generalizing s moved with
  | _ n ih =>
    have hr' := round_loosen hs lineOpener
    rw [trivia_eq] at h
    rw [trivia_eq, trivia_eq lineOpener s]
    cases hr : s.round lineOpener with
    | failed f t =>
      rw [hr] at h
      cases h
    | done m t =>
      rw [hr] at hr'
      rcases hr' with ⟨_, _, hf⟩ | hl
      · cases hf
      · rw [hl]
        rfl
    | again t log =>
      rw [hr] at h hr'
      rcases hr' with ⟨_, _, hf⟩ | hl
      · cases hf
      · have hmore : ∃ b, (t.trivia lineOpener).result = .ok b := by
          cases hm : (t.trivia lineOpener).result with
          | ok b => exact ⟨b, rfl⟩
          | error f => simp [hm, Except.map] at h
        obtain ⟨b, hm⟩ := hmore
        have ht : t.strict = true := (strict_of_again hr).trans hs
        rw [hl]
        simp only [Round.loosen, ih _ (hn ▸ round_progress hr) ht hm rfl]
        rfl

/-- A gap that holds an open comment is skipped to the end of the text. -/
theorem trivia_open_loosen (hs : s.strict = true) {lineOpener : Option Text} {f : Failure}
    (h : (s.trivia lineOpener).result = .error f) :
    (∃ k : Nat, ∃ place, f = .openComment k place) ∧ (s.loosen.trivia lineOpener).result = .ok true ∧
      (s.loosen.trivia lineOpener).next.position = s.length := by
  have hskips := trivia_skips lineOpener s
  rw [hs] at hskips
  cases he : gapEnd lineOpener true s.position.toNat s.rest with
  | ok q =>
    rw [he] at hskips
    rw [hskips.1] at h
    cases h
  | error q =>
    rw [he] at hskips
    rw [hskips.1] at h
    cases h
    obtain ⟨hend, hne⟩ := gapEnd_lenient he
    have hpos := List.length_pos_iff.mpr hne
    have hlen : s.position.toNat + s.rest.length = s.length := by
      rw [length_rest] at hpos ⊢
      omega
    rw [hlen] at hend
    obtain ⟨hres, hnext⟩ := trivia_of_gapEnd (s := s.loosen) hend
    have hflag : decide (s.position.toNat < s.length) = true := decide_eq_true (by omega)
    refine ⟨⟨q, _, rfl⟩, ?_, ?_⟩
    · rw [hres]
      exact congrArg Except.ok hflag
    · rw [hnext]
      rfl

/-! ## Every step -/

/-- A call that leaves no comment open comes to the same on the lenient scanner. -/
theorem perform_loosen (hs : s.strict = true) {a : Action} (ha : a.setsStrict = false)
    (h : (Call.mk s a).leftOpen? = none) : s.loosen.perform a = (s.perform a).loosen := by
  cases a with
  | setStrict b => cases ha
  | comment =>
    rcases comment_loosen hs with ⟨hopen, -⟩ | ⟨hl, -⟩
    · have hr : (s.perform .comment).result = .error (.openComment s.position s.location) :=
        congrArg (fun o => o.result.map Answer.text) hopen
      simp only [Call.leftOpen?, Call.outcome, hr] at h
      cases h
    · exact congrArg (Outcome.map Answer.text) hl
  | trivia lineOpener =>
    cases hm : (s.trivia lineOpener).result with
    | ok moved => exact congrArg (Outcome.map Answer.flag) (trivia_loosen hs hm)
    | error f =>
      have hr : (s.perform (.trivia lineOpener)).result = .error f := congrArg (Except.map Answer.flag) hm
      obtain ⟨⟨k, place, rfl⟩, -⟩ := trivia_open_loosen hs hm
      simp only [Call.leftOpen?, Call.outcome, hr] at h
      cases h
  | delimited given => exact congrArg (Outcome.map Answer.text) (delimited_loosen s given)
  | quotedBody => exact congrArg (Outcome.map Answer.text) (quotedBody_loosen s)
  | identifier => exact congrArg (Outcome.map Answer.text) (identifier_loosen s)
  | _ => rfl

/-- One that leaves a comment open succeeds there, and goes to the end of the text. -/
theorem perform_open_loosen (hs : s.strict = true) {a : Action} {u : Unterminated}
    (h : (Call.mk s a).leftOpen? = some u) :
    ∃ k : Nat, u.start = k ∧ (s.loosen.perform a).next.position = s.length ∧
      (a = .comment ∧ (s.loosen.perform a).result = .ok (.text (s.text.drop k)) ∨
        (∃ lineOpener, a = .trivia lineOpener) ∧ (s.loosen.perform a).result = .ok (.flag true)) := by
  obtain ⟨ha, f, hf, hu⟩ := Call.failed_of_leftOpen h
  rcases ha with rfl | ⟨lineOpener, rfl⟩
  · have hf := map_failed hf
    rcases comment_loosen hs with ⟨hopen, h0, hr, hp⟩ | ⟨-, hno⟩
    · rw [hopen] at hf
      cases hf
      cases hu
      refine ⟨s.position.toNat, by simp only; omega, hp, Or.inl ⟨rfl, ?_⟩⟩
      exact congrArg (Except.map Answer.text) hr
    · rw [hno f hf] at hu
      cases hu
  · obtain ⟨⟨k, place, rfl⟩, hr, hp⟩ := trivia_open_loosen hs (map_failed hf)
    cases hu
    refine ⟨k, rfl, hp, Or.inr ⟨⟨lineOpener, rfl⟩, ?_⟩⟩
    exact congrArg (Except.map Answer.flag) hr

/-! ## Every run -/

theorem after_loosen (hs : s.strict = true) {history : List Action} (ha : ∀ a ∈ history, a.setsStrict = false)
    (h : ∀ c ∈ s.calls history, c.leftOpen? = none) :
    s.loosen.after history = (s.after history).loosen ∧ (s.after history).strict = true := by
  induction history generalizing s with
  | nil => exact ⟨rfl, hs⟩
  | cons a more ih =>
    have hset := ha a List.mem_cons_self
    have hstep := perform_loosen hs hset (h _ List.mem_cons_self)
    have hstrict : (s.perform a).next.strict = true := by
      rw [perform_strict s fun b hb => by rw [hb] at hset; cases hset]
      exact hs
    have hmore := ih hstrict (fun b hb => ha b (List.mem_cons_of_mem a hb)) fun c hc => h c (List.mem_cons_of_mem _ hc)
    have hnext : (s.loosen.perform a).next = (s.perform a).next.loosen := by
      rw [hstep]
      rfl
    show (s.loosen.perform a).next.after more = _ ∧ _
    rw [hnext]
    exact hmore

/-- Two fresh scanners, one strict and one lenient, run the same actions, none of which changes that. At every
    step before which the strict run left no comment open, both come to the same: the same result, the same
    log and the same scanner, strictness aside. The step at which the strict run first fails on an open
    comment succeeds in the lenient one, with the cursor at the end of the text: a comment gives the text
    from where it starts, a skip of trivia says that it skipped. -/
theorem lenient_until_open (t : Text) (source : Option String) (o : Options) (s l : Scanner)
    (hs : start (.text t) source { o with strict := true } = .ok s)
    (hl : start (.text t) source { o with strict := false } = .ok l) (actions : List Action)
    (ha : ∀ a ∈ actions, a.setsStrict = false) :
    ∀ earlier a later, actions = earlier ++ a :: later → (∀ c ∈ s.calls earlier, c.leftOpen? = none) →
      let strict : Call := ⟨s.after earlier, a⟩
      let lenient : Call := ⟨l.after earlier, a⟩
      (strict.leftOpen? = none → lenient.outcome.result = strict.outcome.result ∧
        lenient.outcome.log = strict.outcome.log ∧
        lenient.outcome.next = { strict.outcome.next with strict := false }) ∧
      ∀ u, strict.leftOpen? = some u → ∃ k : Nat, u.start = k ∧ lenient.outcome.next.position = t.length ∧
        (a = .comment ∧ lenient.outcome.result = .ok (.text (t.drop k)) ∨
          (∃ lineOpener, a = .trivia lineOpener) ∧ lenient.outcome.result = .ok (.flag true)) := by
  intro earlier a later hactions hclosed strict lenient
  have hset : ∀ b ∈ earlier ++ a :: later, b.setsStrict = false := hactions ▸ ha
  have hstrict : s.strict = true := by
    obtain ⟨-, rfl⟩ := start_ok hs
    rfl
  have hloosen : l = s.loosen := by
    obtain ⟨-, rfl⟩ := start_ok hs
    obtain ⟨-, rfl⟩ := start_ok hl
    rfl
  obtain ⟨hafter, hkept⟩ := after_loosen hstrict (fun b hb => hset b (List.mem_append_left _ hb)) hclosed
  have houtcome : lenient.outcome = (s.after earlier).loosen.perform a := by
    rw [← hafter, ← hloosen]
    rfl
  have htext : (s.after earlier).text = t := (after_inside (start_inside hs) earlier).text
  rw [houtcome]
  refine ⟨fun hnone => ?_, fun u hu => ?_⟩
  · have ha := hset a (List.mem_append_right _ List.mem_cons_self)
    rw [perform_loosen hkept ha hnone]
    exact ⟨rfl, rfl, rfl⟩
  · have hopen := perform_open_loosen hkept hu
    rw [length, htext] at hopen
    exact hopen

/-- On `x /*`: both read the word, then the strict scanner fails on the comment and the lenient one ends there. -/
theorem lenient_until_open_behind_word :
    ∃ s l, start (.text ['x', ' ', '/', '*']) none {} = .ok s ∧
      start (.text ['x', ' ', '/', '*']) none { strict := false } = .ok l ∧
      (l.perform .identifier).result = (s.perform .identifier).result ∧
      (Call.mk (s.after [.identifier]) (.trivia none)).leftOpen? = some ⟨2, ⟨1, 3⟩, Comment.closer⟩ ∧
      ((l.after [.identifier]).perform (.trivia none)).next.position = 4 ∧
      ((l.after [.identifier]).perform (.trivia none)).result = .ok (.flag true) := by
  have h := lenient_until_open ['x', ' ', '/', '*'] none {} _ _ rfl rfl [.identifier, .trivia none] (by decide)
  have hword := (h [] .identifier [.trivia none] rfl nofun).1 rfl
  have hopen := (h [.identifier] (.trivia none) [] rfl (by decide)).2 ⟨2, ⟨1, 3⟩, Comment.closer⟩ (by decide +kernel)
  obtain ⟨k, -, hend, ⟨ha, -⟩ | ⟨-, hflag⟩⟩ := hopen
  · cases ha
  · exact ⟨_, _, rfl, rfl, hword.1, by decide +kernel, hend, hflag⟩

end Scanner

end Lexkit
