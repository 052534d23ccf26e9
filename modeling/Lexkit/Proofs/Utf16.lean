/-
  Lexkit.Proofs.Utf16 — loading under UTF-16 accepts well-formed UTF-16 of its byte order and nothing else.

  The code writes a code point of the first plane as one unit, and any other as two, a high surrogate and a low
  one (`units`); a unit is two bytes, in the order chosen (`Order.bytes`). The decoder takes as one character a
  unit that is no surrogate, or a high surrogate and a low one (`Word`), and these are the words of the code
  (`word_iff`), whichever the order.

  With the order left open, a byte order mark in front tells it and is dropped. Without one the order is little,
  and nothing is dropped.
-/

import Lexkit.Proofs.Decoding
import Mathlib.Tactic.SplitIfs

namespace Lexkit.Utf16

/-- A unit as two bytes. -/
def Order.bytes : Order → Nat → Bytes
  | .little, u => [UInt8.ofNat (u % 256), UInt8.ofNat (u / 256)]
  | .big, u => [UInt8.ofNat (u / 256), UInt8.ofNat (u % 256)]

/-- The units of a code point. Past the first plane, what is left of it is split into twice ten bits. -/
def units (n : Nat) : List Nat :=
  if n < 0x10000 then [n] else [0xD800 + (n - 0x10000) / 0x400, 0xDC00 + (n - 0x10000) % 0x400]

/-- The bytes of a code point. -/
def spell (o : Order) (n : Nat) : Bytes := (units n).flatMap o.bytes

/-- A text as it is written in UTF-16 of a byte order. -/
def encode (o : Order) (t : Text) : Bytes := t.flatMap fun c => spell o c.toNat

/-! ## Units -/

variable {o : Order}

theorem unit_lt (o : Order) (a b : UInt8) : o.unit a b < 0x10000 := by
  have ha := a.toNat_lt
  have hb := b.toNat_lt
  cases o with
  | little =>
    simp only [Order.unit]
    omega
  | big =>
    simp only [Order.unit]
    omega

/-- Two bytes make the unit they write. -/
theorem bytes_eq_iff {u : Nat} (h : u < 0x10000) {a b : UInt8} : o.bytes u = [a, b] ↔ o.unit a b = u := by
  have ha := a.toNat_lt
  have hb := b.toNat_lt
  cases o with
  | little =>
    simp only [Order.bytes, Order.unit, List.cons.injEq, and_true]
    rw [byteOfNat_eq_iff (by omega), byteOfNat_eq_iff (by omega)]
    omega
  | big =>
    simp only [Order.bytes, Order.unit, List.cons.injEq, and_true]
    rw [byteOfNat_eq_iff (by omega), byteOfNat_eq_iff (by omega)]
    omega

theorem bytes_unit (o : Order) (a b : UInt8) : o.bytes (o.unit a b) = [a, b] :=
  (bytes_eq_iff (unit_lt o a b)).mpr rfl

theorem unit_of_bytes (o : Order) {u : Nat} (h : u < 0x10000) : ∃ a b, o.bytes u = [a, b] ∧ o.unit a b = u := by
  obtain ⟨a, b, hab⟩ : ∃ a b, o.bytes u = [a, b] := by
    cases o with
    | little | big => exact ⟨_, _, rfl⟩
  exact ⟨a, b, hab, (bytes_eq_iff h).mp hab⟩

theorem isHigh_iff {u : Nat} : isHigh u = true ↔ 0xD800 ≤ u ∧ u < 0xDC00 := by simp [isHigh]

theorem isLow_iff {u : Nat} : isLow u = true ↔ 0xDC00 ≤ u ∧ u < 0xE000 := by simp [isLow]

theorem pair_eq (high low : Nat) : pair high low = 0x10000 + (high - 0xD800) * 0x400 + (low - 0xDC00) := rfl

/-! ## Words -/

/-- The well-formed words and their code points: a unit that is no surrogate, or a pair of surrogates. -/
inductive Word (o : Order) : Nat → Bytes → Prop where
  | single {a b : UInt8} : ¬ isHigh (o.unit a b) = true → ¬ isLow (o.unit a b) = true → Word o (o.unit a b) [a, b]
  | paired {a b c d : UInt8} : isHigh (o.unit a b) = true → isLow (o.unit c d) = true →
      Word o (pair (o.unit a b) (o.unit c d)) [a, b, c, d]

theorem decoder_eq_char_iff {a : UInt8} {r : Bytes} {c : Char} {more : Nat} :
    decoder o a r = .char c more ↔
      ∃ w rest, r = w ++ rest ∧ more = w.length ∧ ∃ n, Word o n (a :: w) ∧ c = Char.ofNat n := by
  constructor
  · intro h
    cases r with
    | nil => simp [decoder] at h
    | cons b r =>
      simp only [decoder] at h
      by_cases hh : isHigh (o.unit a b) = true
      · rw [if_pos hh] at h
        rcases r with _ | ⟨x, _ | ⟨y, r⟩⟩
        · simp [afterHigh] at h
        · simp [afterHigh] at h
        · simp only [afterHigh] at h
          by_cases hl : isLow (o.unit x y) = true
          · rw [if_pos hl] at h
            obtain ⟨rfl, rfl⟩ := Step.char.inj h
            exact ⟨[b, x, y], r, rfl, rfl, _, .paired hh hl, rfl⟩
          · simp [hl] at h
      · rw [if_neg hh] at h
        by_cases hl : isLow (o.unit a b) = true
        · simp [hl] at h
        · rw [if_neg hl] at h
          obtain ⟨rfl, rfl⟩ := Step.char.inj h
          exact ⟨[b], r, rfl, rfl, _, .single hh hl, rfl⟩
  · intro h
    obtain ⟨w, rest, rfl, rfl, n, hword, rfl⟩ := h
    cases hword with
    | single hh hl => simp [decoder, hh, hl]
    | paired hh hl => simp [decoder, afterHigh, hh, hl]

theorem Word.valid {n : Nat} {bs : Bytes} (h : Word o n bs) : n.isValidChar := by
  unfold Nat.isValidChar
  cases h with
  | @single a b hh hl =>
    have hlt := unit_lt o a b
    rw [isHigh_iff] at hh
    rw [isLow_iff] at hl
    omega
  | @paired a b c d hh hl =>
    have hhigh := isHigh_iff.mp hh
    have hlow := isLow_iff.mp hl
    rw [pair_eq]
    omega

theorem Word.spelled {n : Nat} {bs : Bytes} (h : Word o n bs) : spell o n = bs := by
  cases h with
  | @single a b hh hl => simp [spell, units, unit_lt o a b, bytes_unit]
  | @paired a b c d hh hl =>
    have hhigh := isHigh_iff.mp hh
    have hlow := isLow_iff.mp hl
    have hpair := pair_eq (o.unit a b) (o.unit c d)
    have hfirst : 0xD800 + (pair (o.unit a b) (o.unit c d) - 0x10000) / 0x400 = o.unit a b := by omega
    have hsecond : 0xDC00 + (pair (o.unit a b) (o.unit c d) - 0x10000) % 0x400 = o.unit c d := by omega
    rw [spell, units, if_neg (by omega), hfirst, hsecond]
    simp [bytes_unit]

theorem word_spell (o : Order) {n : Nat} (hvalid : n.isValidChar) : Word o n (spell o n) := by
  unfold Nat.isValidChar at hvalid
  by_cases hn : n < 0x10000
  · obtain ⟨a, b, hab, rfl⟩ := unit_of_bytes o hn
    have hspell : spell o (o.unit a b) = [a, b] := by simp [spell, units, hn, hab]
    rw [hspell]
    exact .single (by rw [isHigh_iff]; omega) (by rw [isLow_iff]; omega)
  · obtain ⟨a, b, hab, hfirst⟩ := unit_of_bytes o (u := 0xD800 + (n - 0x10000) / 0x400) (by omega)
    obtain ⟨c, d, hcd, hsecond⟩ := unit_of_bytes o (u := 0xDC00 + (n - 0x10000) % 0x400) (by omega)
    have hspell : spell o n = [a, b, c, d] := by
      rw [spell, units, if_neg hn, List.flatMap_cons, List.flatMap_cons, hab, hcd]
      rfl
    have hpair := pair_eq (o.unit a b) (o.unit c d)
    have hn : n = pair (o.unit a b) (o.unit c d) := by omega
    rw [hspell, hn]
    exact .paired (by rw [isHigh_iff]; omega) (by rw [isLow_iff]; omega)

/-- The words are what the code writes for the code points of characters. -/
theorem word_iff {n : Nat} {bs : Bytes} : Word o n bs ↔ n.isValidChar ∧ spell o n = bs := by
  constructor
  · intro h
    exact ⟨h.valid, h.spelled⟩
  · intro h
    exact h.2 ▸ word_spell o h.1

theorem spell_ne (o : Order) (n : Nat) : spell o n ≠ [] := by
  unfold spell units
  cases o <;> split <;> simp [Order.bytes]

theorem decoder_reads (o : Order) : (decoder o).Reads fun c => spell o c.toNat :=
  Decoder.Reads.of_words decoder_eq_char_iff word_iff (spell_ne o)

/-! ## Loading -/

theorem orderMark_eq (o : Order) : orderMark o = spell o ('\uFEFF').toNat := by
  cases o with
  | little | big => decide

theorem decode_fixed_iff {b : Bytes} {t : Text} : (Encoding.utf16Fixed o).decode b = .ok t ↔ b = encode o t :=
  Encoding.decodeWith_eq_ok_iff.trans (decoder_reads o).run_eq_ok_iff

theorem marked?_orderMark (o : Order) (r : Bytes) : marked? (orderMark o ++ r) = some o := by
  cases o with
  | little | big => rfl

theorem orderMark_prefix_of_marked {b : Bytes} (h : marked? b = some o) : orderMark o <+: b := by
  unfold marked? at h
  split_ifs at h with hl hb
  · cases h
    exact List.isPrefixOf_iff_prefix.mp hl
  · cases h
    exact List.isPrefixOf_iff_prefix.mp hb

/-- With the order left open: a mark and the text in the order it tells, or no mark and the text in little order. -/
theorem decode_open_iff {b : Bytes} {t : Text} :
    Encoding.utf16.decode b = .ok t ↔
      (∃ o, b = orderMark o ++ encode o t) ∨ (∀ o, ¬ orderMark o <+: b) ∧ b = encode .little t := by
  unfold Encoding.decode
  cases hm : marked? b with
  | some o =>
    obtain ⟨r, rfl⟩ := orderMark_prefix_of_marked hm
    have hdrop : (orderMark o ++ r).drop 2 = r := by
      cases o with
      | little | big => rfl
    simp only [Encoding.decodeWith_eq_ok_iff, hdrop, (decoder_reads o).run_eq_ok_iff]
    constructor
    · intro h
      exact Or.inl ⟨o, by rw [h]; rfl⟩
    · intro h
      obtain ⟨p, hp⟩ | ⟨hnone, -⟩ := h
      · have hsame : marked? (orderMark p ++ encode p t) = some o := hp ▸ hm
        rw [marked?_orderMark] at hsame
        cases hsame
        exact List.append_cancel_left hp
      · exact absurd (List.prefix_append _ r) (hnone o)
  | none =>
    have hnone : ∀ o, ¬ orderMark o <+: b := by
      intro o ho
      obtain ⟨r, rfl⟩ := ho
      rw [marked?_orderMark] at hm
      cases hm
    simp only [Encoding.decodeWith_eq_ok_iff, (decoder_reads .little).run_eq_ok_iff]
    constructor
    · intro h
      exact Or.inr ⟨hnone, h⟩
    · intro h
      obtain ⟨o, ho⟩ | ⟨-, h⟩ := h
      · exact absurd ⟨_, ho.symm⟩ (hnone o)
      · exact h

/-- Bytes load as UTF-16 of a fixed byte order exactly when they are the UTF-16 of a text that is not empty, in
    that order, and give that text; a byte order mark in front is a character of it. With the order left open they
    are a mark and the text in the order it tells, or start with no mark and are the text in little order. A mark
    and nothing behind it is an empty source. -/
theorem loads_wellformed_utf16 (host : Host) (s : Source) (b : Bytes)
    (hc : s.contents host = .ok (.raw b)) (hb : b ≠ []) :
    (∀ o t, s.load host (Encoding.orderName o) = .ok t ↔ t ≠ [] ∧ b = encode o t) ∧
    (∀ o t, b = orderMark o ++ encode o t → s.load host (Encoding.orderName o) = .ok ('\uFEFF' :: t)) ∧
    (∀ t, s.load host "utf-16" = .ok t ↔ t ≠ [] ∧
      ((∃ o, b = orderMark o ++ encode o t) ∨ (∀ o, ¬ orderMark o <+: b) ∧ b = encode .little t)) ∧
    ∀ o, b = orderMark o → s.load host "utf-16" = .error (.empty s.name) := by
  have hfixed : ∀ o, Encoding.named? (Encoding.orderName o) = some (.utf16Fixed o) := by
    intro o
    cases o with
    | little | big => decide
  have hopen : Encoding.named? "utf-16" = some .utf16 := by decide
  have hload : ∀ o t, s.load host (Encoding.orderName o) = .ok t ↔ t ≠ [] ∧ b = encode o t := by
    intro o t
    rw [Source.load_eq_ok_iff hc hb (hfixed o), decode_fixed_iff]
  refine ⟨hload, ?_, ?_, ?_⟩
  · intro o t ht
    refine (hload o _).mpr ⟨List.cons_ne_nil _ t, ?_⟩
    rw [ht, orderMark_eq, encode, encode, List.flatMap_cons]
  · intro t
    rw [Source.load_eq_ok_iff hc hb hopen, decode_open_iff]
  · intro o ho
    refine Source.load_empty hc hb hopen (decode_open_iff.mpr (Or.inl ⟨o, ?_⟩))
    rw [ho, encode, List.flatMap_nil, List.append_nil]

/-- The bytes `FE FF D8 3D DE 00`: a mark of big order, and a character past the first plane in it. -/
theorem loads_wellformed_utf16_marked :
    let s : Source := .bytes { elements := [0xFE, 0xFF, 0xD8, 0x3D, 0xDE, 0x00] }
    s.load {} "utf-16" = .ok ['😀'] ∧ s.load {} "utf-16-be" = .ok ['\uFEFF', '😀'] := by
  obtain ⟨-, hmark, hopen, -⟩ := loads_wellformed_utf16 {}
    (.bytes { elements := [0xFE, 0xFF, 0xD8, 0x3D, 0xDE, 0x00] }) [0xFE, 0xFF, 0xD8, 0x3D, 0xDE, 0x00] rfl (by decide)
  exact ⟨(hopen ['😀']).mpr ⟨by decide, Or.inl ⟨.big, by decide⟩⟩, hmark .big ['😀'] (by decide)⟩

end Lexkit.Utf16
