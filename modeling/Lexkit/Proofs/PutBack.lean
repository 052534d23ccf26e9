/-
  Lexkit.Proofs.PutBack — reading and putting back cancel out, as often as wanted.

  The cursor is held at both ends: a read at the end of the text stays there, and a putting back from before the text
  stays there too. Every other read or putting back has room (`HasRoom`), and moves the cursor by exactly one. So where
  every call has room, the cursor ends as many characters on as there were more reads than puttings back, and nothing
  else of the scanner changes (`after_hasRoom`): as many of one as of the other restore it, in whatever order they came.

  Where calls run out of room, their order counts. Reads alone go as far as the end of the text (`reads_moves`), puttings
  back alone as far as the place before it (`unreads_moves`). What reads give is what is ahead of the cursor, character
  by character, and nothing from the end on (`reads_give_ahead`).
-/

import Lexkit.Proofs.Partition
import Lexkit.Proofs.Reading
import Lexkit.Proofs.Unrolled

namespace Lexkit

/-- The call is a read that is not at the end of the text, or a putting back that is not before it. -/
def Call.HasRoom (c : Call) : Prop :=
  (c.action = .read ∧ c.before.atEnd = false) ∨ (c.action = .unread ∧ c.before.position ≠ -1)

instance (c : Call) : Decidable c.HasRoom := inferInstanceAs (Decidable (_ ∨ _))

namespace Scanner

variable {s : Scanner}

theorem onText_moveTo {p : Int} (hlo : -1 ≤ p) (hhi : p ≤ s.length) : (s.moveTo p).OnText := ⟨hlo, hhi⟩

/-! ## One step -/

theorem read_moves (h : s.OnText) : s.read.2 = s.moveTo (min s.length (s.position + 1)) := by
  by_cases hl : s.position < s.length
  · have hto : min (s.length : Int) (s.position + 1) = s.position + 1 := by omega
    rw [read_eq_moveTo hl, hto]
  · have hhi := h.2
    rw [read_eq_self hl, moveTo_self (by omega)]

theorem unread_moves (h : s.OnText) : s.unread = s.moveTo (max (-1) (s.position - 1)) := by
  by_cases hl : -1 < s.position
  · have hto : max (-1) (s.position - 1) = s.position - 1 := by omega
    rw [unread_eq_moveTo hl, hto]
  · have hlo := h.1
    rw [unread_eq_self hl, moveTo_self (by omega)]

/-! ## With room for every step -/

/-- With room, a call moves the cursor by one and changes nothing else. -/
theorem perform_hasRoom {a : Action} (h : s.OnText) (hroom : Call.HasRoom ⟨s, a⟩) :
    (a = .read ∧ s.position < s.length ∧ (s.perform a).next = s.moveTo (s.position + 1)) ∨
    (a = .unread ∧ -1 < s.position ∧ (s.perform a).next = s.moveTo (s.position - 1)) := by
  rcases hroom with ⟨ha, hend⟩ | ⟨ha, hback⟩
  · have ha : a = .read := ha
    have hlt : s.position < s.length := Int.not_le.mp (of_decide_eq_false hend)
    rw [ha]
    exact Or.inl ⟨rfl, hlt, read_eq_moveTo hlt⟩
  · have ha : a = .unread := ha
    have hlt : -1 < s.position := Int.lt_iff_le_and_ne.mpr ⟨h.1, Ne.symm hback⟩
    rw [ha]
    exact Or.inr ⟨rfl, hlt, unread_eq_moveTo hlt⟩

/-- Where every call has room, the cursor ends as far on as reads outnumber puttings back. -/
theorem after_hasRoom (h : s.OnText) {moves : List Action} (hroom : ∀ c ∈ s.calls moves, c.HasRoom) :
    s.after moves = s.moveTo (s.position + moves.count .read - moves.count .unread) := by
  induction moves generalizing s with
  | nil =>
    have hstay : s.after [] = s := rfl
    rw [hstay, moveTo_self (by simp)]
  | cons a more ih =>
    have hnext : s.after (a :: more) = (s.perform a).next.after more := rfl
    have hmore : ∀ c ∈ (s.perform a).next.calls more, c.HasRoom := fun c hc => hroom c (List.mem_cons_of_mem _ hc)
    have hfirst := perform_hasRoom h (hroom _ List.mem_cons_self)
    obtain ⟨hlo, hhi⟩ := h
    rcases hfirst with ⟨rfl, hlt, hstep⟩ | ⟨rfl, hlt, hstep⟩
    · rw [hstep] at hnext hmore
      rw [hnext, ih (onText_moveTo (by omega) (by omega)) hmore, moveTo_moveTo, moveTo_position, List.count_cons_self,
        List.count_cons_of_ne (by decide)]
      congr 1
      omega
    · rw [hstep] at hnext hmore
      rw [hnext, ih (onText_moveTo (by omega) (by omega)) hmore, moveTo_moveTo, moveTo_position, List.count_cons_self,
        List.count_cons_of_ne (by decide)]
      congr 1
      omega

/-! ## As far as there is room -/

theorem reads_moves (h : s.OnText) (n : Nat) : s.reads n = s.moveTo (min s.length (s.position + n)) := by
  induction n generalizing s with
  | zero =>
    have hhi := h.2
    have hstay : s.reads 0 = s := rfl
    rw [hstay, moveTo_self (by omega)]
  | succ n ih =>
    rw [reads_succ, read_moves h]
    obtain ⟨hlo, hhi⟩ := h
    rw [ih (onText_moveTo (by omega) (by omega)), moveTo_moveTo, moveTo_position, moveTo_length]
    congr 1
    omega

theorem unreads_moves (h : s.OnText) (m : Nat) :
    s.after (List.replicate m .unread) = s.moveTo (max (-1) (s.position - m)) := by
  induction m generalizing s with
  | zero =>
    have hlo := h.1
    have hstay : s.after (List.replicate 0 .unread) = s := rfl
    rw [hstay, moveTo_self (by omega)]
  | succ m ih =>
    have hnext : s.after (List.replicate (m + 1) .unread) = s.unread.after (List.replicate m .unread) := rfl
    rw [hnext, unread_moves h]
    obtain ⟨hlo, hhi⟩ := h
    rw [ih (onText_moveTo (by omega) (by omega)), moveTo_moveTo, moveTo_position]
    congr 1
    omega

/-! ## What reads give -/

theorem read_gives_head (h : s.OnText) : s.read.1 = s.ahead.head? := by
  have hlo := h.1
  rw [read_gives_next h, next?, Text.nth?, if_pos (by omega), ahead, List.head?_drop]

theorem ahead_read (h : s.OnText) : s.read.2.ahead = s.ahead.tail := by
  obtain ⟨hlo, hhi⟩ := h
  by_cases hl : s.position < s.length
  · have hnext : (s.position + 1 + 1).toNat = (s.position + 1).toNat + 1 := by omega
    rw [read_eq_moveTo hl, ahead, moveTo_position, hnext, ahead, List.tail_drop]
    rfl
  · have hnil : s.ahead = [] := List.drop_eq_nil_of_le (by rw [← length]; omega)
    rw [read_eq_self hl, hnil]
    rfl

/-- What reads give is what is ahead, one character each, and nothing once that is used up. -/
theorem reads_give_ahead (h : s.OnText) (n : Nat) :
    (s.run (List.replicate n .read)).map (·.result) =
      (s.ahead.take n).map (fun c => .ok (.text [c])) ++ List.replicate (n - s.ahead.length) (.ok (.text [])) := by
  induction n generalizing s with
  | zero => simp [run]
  | succ n ih =>
    have hfirst : (s.run (List.replicate (n + 1) .read)).map (·.result) =
        .ok (.text s.read.1.toList) :: (s.read.2.run (List.replicate n .read)).map (·.result) := rfl
    rw [hfirst, ih ((read_roams s).onText h), read_gives_head h, ahead_read h]
    cases s.ahead with
    | nil => simp [List.replicate_succ]
    | cons c r => simp

/-- Take a scanner after any history. Reads and puttings back in any order, no read at the end of the text and no putting
    back before it, leave the cursor as far on as the reads outnumber the puttings back; with as many of one as of the
    other, the scanner is as it was, in its place and in all else. Made wherever they may be, a number of reads and then
    a number of puttings back leave the cursor where the two numbers lead, held at the end of the text on the way there
    and before the text on the way back. The reads give the characters behind the cursor in order, and nothing once the
    text is used up. -/
theorem put_back_unlimited (t : Text) (source : Option String) (o : Options) (s : Scanner)
    (h : start (.text t) source o = .ok s) (history : List Action) :
    let u := s.after history
    let left := t.drop (u.position + 1).toNat
    (∀ moves, (∀ c ∈ u.calls moves, c.HasRoom) →
      (u.after moves).position = u.position + moves.count .read - moves.count .unread ∧
      (moves.count .read = moves.count .unread → u.after moves = u)) ∧
    ∀ n m : Nat,
      (u.after (List.replicate n .read ++ List.replicate m .unread)).position =
        max (-1) (min (t.length : Int) (u.position + n) - m) ∧
      (u.run (List.replicate n .read)).map (·.result) =
        (left.take n).map (fun c => .ok (.text [c])) ++ List.replicate (n - left.length) (.ok (.text [])) := by
  intro u left
  have hin : Inside t u := after_inside (start_inside h) history
  have hlen : u.length = t.length := congrArg List.length hin.text
  have hleft : u.ahead = left := by rw [ahead, hin.text]
  refine ⟨fun moves hroom => ?_, fun n m => ⟨?_, ?_⟩⟩
  · have hmoved := after_hasRoom hin.onText hroom
    rw [hmoved]
    exact ⟨rfl, fun hbalanced => moveTo_self (by omega)⟩
  · obtain ⟨hlo, hhi⟩ := hin.onText
    have hreads : u.after (List.replicate n .read) = u.moveTo (min u.length (u.position + n)) := reads_moves ⟨hlo, hhi⟩ n
    rw [after_append, hreads, unreads_moves (onText_moveTo (by omega) (by omega)), hlen]
    rfl
  · rw [← hleft]
    exact reads_give_ahead hin.onText n

/-- On `ab`, from its first character: put back once, read to the end and put back twice, the scanner is as it was. Three
    reads give `b` and then nothing, and four puttings back go from the end as far as the place before the text. -/
theorem put_back_unlimited_two :
    ∃ s, start (.text ['a', 'b']) none {} = .ok s ∧
      let u := s.after [.read]
      (∀ c ∈ u.calls [.unread, .read, .read, .read, .unread, .unread], c.HasRoom) ∧
      u.after [.unread, .read, .read, .read, .unread, .unread] = u ∧
      (u.after (List.replicate 3 .read ++ List.replicate 4 .unread)).position = -1 ∧
      (u.run (List.replicate 3 .read)).map (·.result) = [.ok (.text ['b']), .ok (.text []), .ok (.text [])] := by
  obtain ⟨hroom, hheld⟩ := put_back_unlimited ['a', 'b'] none {} _ rfl [.read]
  refine ⟨_, rfl, ?free, (hroom _ ?free).2 rfl, (hheld 3 4).1, (hheld 3 0).2⟩
  decide

end Scanner

end Lexkit
