/-
  Lexkit.Proofs.Utf8 — loading under UTF-8 accepts well-formed UTF-8 and nothing else.

  The code is the core library's own (`String.utf8EncodeChar`). What the decoder takes as one character is a first
  byte and as many bytes after it as that one promises, each in its range (`Word`). The ranges are tight: a
  first byte of two bytes stands for 80 at least, and the range of the second byte of a longer word (`second`)
  holds what makes the code point need that many bytes, be no surrogate and lie in the last plane at most. So the
  words taken are the words of the code (`word_iff`), and the decoder reads it.

  The signed form drops one signature in front, which is the word of the byte order mark. So where a text is
  loaded from bytes that carry no signature, it does not start with that mark.
-/

import Lexkit.Proofs.Decoding
import Mathlib.Data.List.Forall2

namespace Lexkit.Utf8

/-- A text as it is written in UTF-8. -/
def encode (t : Text) : Bytes := t.flatMap String.utf8EncodeChar

/-! ## The bytes that follow the first -/

def Within (range : Nat × Nat) (b : UInt8) : Prop := range.1 ≤ b.toNat ∧ b.toNat ≤ range.2

/-- The code point from its first bits and the six bits of each byte after them. -/
def gather (bits : Nat) (w : Bytes) : Nat := w.foldl (fun n b => n * 64 + (b.toNat - 0x80)) bits

theorem gather_nil (bits : Nat) : gather bits [] = bits := rfl

theorem gather_cons (bits : Nat) (b : UInt8) (w : Bytes) :
    gather bits (b :: w) = gather (bits * 64 + (b.toNat - 0x80)) w := by
  simp only [gather, List.foldl_cons]

theorem follow_eq_char_iff {ranges : List (Nat × Nat)} {bits seen : Nat} {bs : Bytes} {c : Char} {more : Nat} :
    follow ranges bits seen bs = .char c more ↔ ∃ w rest, bs = w ++ rest ∧ more = seen + w.length ∧
      List.Forall₂ Within ranges w ∧ c = Char.ofNat (gather bits w) := by
  induction ranges generalizing bits seen bs with
  | nil =>
    simp only [follow, List.forall₂_nil_left_iff]
    constructor
    · intro h
      cases h
      exact ⟨[], bs, rfl, rfl, rfl, rfl⟩
    · rintro ⟨w, rest, -, rfl, rfl, rfl⟩
      rfl
  | cons range ranges ih =>
    cases bs with
    | nil =>
      simp only [follow]
      refine iff_of_false nofun ?_
      rintro ⟨w, rest, hbs, -, hw, -⟩
      obtain ⟨b, w, -, -, rfl⟩ := List.forall₂_cons_left_iff.mp hw
      cases hbs
    | cons b r =>
      simp only [follow]
      by_cases hb : range.1 ≤ b.toNat ∧ b.toNat ≤ range.2
      · rw [if_pos hb, ih]
        constructor
        · rintro ⟨w, rest, rfl, rfl, hw, rfl⟩
          exact ⟨b :: w, rest, rfl, by simp only [List.length_cons]; omega, .cons hb hw, by rw [gather_cons]⟩
        · rintro ⟨w, rest, hbs, rfl, hw, rfl⟩
          obtain ⟨b', w', -, hw', rfl⟩ := List.forall₂_cons_left_iff.mp hw
          cases hbs
          exact ⟨w', rest, rfl, by simp only [List.length_cons]; omega, hw', by rw [gather_cons]⟩
      · rw [if_neg hb]
        refine iff_of_false nofun ?_
        rintro ⟨w, rest, hbs, -, hw, -⟩
        obtain ⟨b', w, hb', -, rfl⟩ := List.forall₂_cons_left_iff.mp hw
        cases hbs
        exact hb hb'

/-! ## Words -/

/-- The range of the byte after the first one, where a word has more than two. -/
def second (b : Nat) : Nat × Nat :=
  if b = 0xE0 then (0xA0, 0xBF)
  else if b = 0xED then (0x80, 0x9F)
  else if b = 0xF0 then (0x90, 0xBF)
  else if b = 0xF4 then (0x80, 0x8F)
  else tail

/-- The well-formed words and their code points, by length. -/
inductive Word : Nat → Bytes → Prop where
  | one {a : UInt8} : a.toNat < 0x80 → Word a.toNat [a]
  | two {a b : UInt8} : 0xC2 ≤ a.toNat → a.toNat < 0xE0 → Within tail b →
      Word (gather (a.toNat - 0xC0) [b]) [a, b]
  | three {a b c : UInt8} : 0xE0 ≤ a.toNat → a.toNat < 0xF0 → Within (second a.toNat) b → Within tail c →
      Word (gather (a.toNat - 0xE0) [b, c]) [a, b, c]
  | four {a b c d : UInt8} : 0xF0 ≤ a.toNat → a.toNat < 0xF5 → Within (second a.toNat) b → Within tail c →
      Within tail d → Word (gather (a.toNat - 0xF0) [b, c, d]) [a, b, c, d]

theorem lead?_eq (b : Nat) :
    lead? b = if b < 0x80 then some ⟨b, []⟩
      else if b < 0xC2 then none
      else if b < 0xE0 then some ⟨b - 0xC0, [tail]⟩
      else if b < 0xF0 then some ⟨b - 0xE0, [second b, tail]⟩
      else if b < 0xF5 then some ⟨b - 0xF0, [second b, tail, tail]⟩
      else none := by
  unfold lead? second
  grind

theorem word_of_lead {b : UInt8} {w : Bytes} {l : Lead} (hl : lead? b.toNat = some l)
    (hw : List.Forall₂ Within l.ranges w) : Word (gather l.bits w) (b :: w) := by
  rw [lead?_eq] at hl
  split_ifs at hl with h1 h0 h2 h3 h4
  all_goals
    obtain rfl := Option.some.inj hl
    simp only [List.forall₂_cons_left_iff, List.forall₂_nil_left_iff] at hw
  · subst hw
    exact .one h1
  · obtain ⟨x, _, hx, rfl, rfl⟩ := hw
    exact .two (by omega) h2 hx
  · obtain ⟨x, _, hx, ⟨y, _, hy, rfl, rfl⟩, rfl⟩ := hw
    exact .three (by omega) h3 hx hy
  · obtain ⟨x, _, hx, ⟨y, _, hy, ⟨z, _, hz, rfl, rfl⟩, rfl⟩, rfl⟩ := hw
    exact .four (by omega) h4 hx hy hz

theorem lead_of_word {n : Nat} {b : UInt8} {w : Bytes} (h : Word n (b :: w)) :
    ∃ l, lead? b.toNat = some l ∧ List.Forall₂ Within l.ranges w ∧ n = gather l.bits w := by
  simp only [lead?_eq]
  cases h with
  | one ha => exact ⟨_, if_pos ha, .nil, rfl⟩
  | two ha ha' hx =>
    rw [if_neg (by omega), if_neg (by omega), if_pos ha']
    exact ⟨_, rfl, .cons hx .nil, rfl⟩
  | three ha ha' hx hy =>
    rw [if_neg (by omega), if_neg (by omega), if_neg (by omega), if_pos ha']
    exact ⟨_, rfl, .cons hx (.cons hy .nil), rfl⟩
  | four ha ha' hx hy hz =>
    rw [if_neg (by omega), if_neg (by omega), if_neg (by omega), if_neg (by omega), if_pos ha']
    exact ⟨_, rfl, .cons hx (.cons hy (.cons hz .nil)), rfl⟩

theorem decoder_eq_char_iff {b : UInt8} {r : Bytes} {c : Char} {more : Nat} :
    decoder b r = .char c more ↔
      ∃ w rest, r = w ++ rest ∧ more = w.length ∧ ∃ n, Word n (b :: w) ∧ c = Char.ofNat n := by
  unfold decoder
  cases hl : lead? b.toNat with
  | none =>
    refine iff_of_false nofun ?_
    rintro ⟨w, rest, -, -, n, hword, -⟩
    obtain ⟨l, hl', -⟩ := lead_of_word hword
    rw [hl] at hl'
    cases hl'
  | some l =>
    simp only [follow_eq_char_iff, Nat.zero_add]
    constructor
    · rintro ⟨w, rest, hr, hmore, hw, hc⟩
      exact ⟨w, rest, hr, hmore, _, word_of_lead hl hw, hc⟩
    · rintro ⟨w, rest, hr, hmore, n, hword, rfl⟩
      obtain ⟨l', hl', hw, rfl⟩ := lead_of_word hword
      rw [hl] at hl'
      cases hl'
      exact ⟨w, rest, hr, hmore, hw, rfl⟩

/-! ## The words of the code -/

/-- The bytes the code writes for a code point. -/
def spell (n : Nat) : Bytes :=
  if n ≤ 0x7F then [UInt8.ofNat n]
  else if n ≤ 0x7FF then [UInt8.ofNat (n / 64 % 32 + 0xC0), UInt8.ofNat (n % 64 + 0x80)]
  else if n ≤ 0xFFFF then
    [UInt8.ofNat (n / 4096 % 16 + 0xE0), UInt8.ofNat (n / 64 % 64 + 0x80), UInt8.ofNat (n % 64 + 0x80)]
  else
    [UInt8.ofNat (n / 262144 % 8 + 0xF0), UInt8.ofNat (n / 4096 % 64 + 0x80), UInt8.ofNat (n / 64 % 64 + 0x80),
     UInt8.ofNat (n % 64 + 0x80)]

theorem spelled_two {n : Nat} (h : n ≤ 0x7FF) {a b : UInt8} :
    [UInt8.ofNat (n / 64 % 32 + 0xC0), UInt8.ofNat (n % 64 + 0x80)] = [a, b] ↔
      0xC0 ≤ a.toNat ∧ a.toNat < 0xE0 ∧ Within tail b ∧ n = gather (a.toNat - 0xC0) [b] := by
  simp only [List.cons.injEq, and_true, gather_cons, gather_nil, Within, tail]
  rw [byteOfNat_eq_iff (by omega), byteOfNat_eq_iff (by omega)]
  omega

theorem spelled_three {n : Nat} (h : n ≤ 0xFFFF) {a b c : UInt8} :
    [UInt8.ofNat (n / 4096 % 16 + 0xE0), UInt8.ofNat (n / 64 % 64 + 0x80), UInt8.ofNat (n % 64 + 0x80)] = [a, b, c] ↔
      0xE0 ≤ a.toNat ∧ a.toNat < 0xF0 ∧ Within tail b ∧ Within tail c ∧ n = gather (a.toNat - 0xE0) [b, c] := by
  simp only [List.cons.injEq, and_true, gather_cons, gather_nil, Within, tail]
  rw [byteOfNat_eq_iff (by omega), byteOfNat_eq_iff (by omega), byteOfNat_eq_iff (by omega)]
  omega

theorem spelled_four {n : Nat} (h : n ≤ 0x1FFFFF) {a b c d : UInt8} :
    [UInt8.ofNat (n / 262144 % 8 + 0xF0), UInt8.ofNat (n / 4096 % 64 + 0x80), UInt8.ofNat (n / 64 % 64 + 0x80),
        UInt8.ofNat (n % 64 + 0x80)] = [a, b, c, d] ↔
      0xF0 ≤ a.toNat ∧ a.toNat < 0xF8 ∧ Within tail b ∧ Within tail c ∧ Within tail d ∧
        n = gather (a.toNat - 0xF0) [b, c, d] := by
  simp only [List.cons.injEq, and_true, gather_cons, gather_nil, Within, tail]
  rw [byteOfNat_eq_iff (by omega), byteOfNat_eq_iff (by omega), byteOfNat_eq_iff (by omega), byteOfNat_eq_iff (by omega)]
  omega

/-- In a word of three, the range of the second byte keeps out what two bytes can say, and the surrogates. -/
theorem second_three {a b c : UInt8} (ha : 0xE0 ≤ a.toNat) (ha' : a.toNat < 0xF0) (hc : Within tail c) :
    Within (second a.toNat) b ↔ Within tail b ∧ 0x800 ≤ gather (a.toNat - 0xE0) [b, c] ∧
      (gather (a.toNat - 0xE0) [b, c]).isValidChar := by
  simp only [gather_cons, gather_nil, Within, tail, second, Nat.isValidChar] at hc ⊢
  split_ifs <;> simp only <;> omega

/-- In a word of four, it keeps out what three bytes can say, and with the first byte what lies past the last plane. -/
theorem second_four {a b c d : UInt8} (ha : 0xF0 ≤ a.toNat) (ha' : a.toNat < 0xF8) (hc : Within tail c)
    (hd : Within tail d) :
    a.toNat < 0xF5 ∧ Within (second a.toNat) b ↔ Within tail b ∧ 0x10000 ≤ gather (a.toNat - 0xF0) [b, c, d] ∧
      (gather (a.toNat - 0xF0) [b, c, d]).isValidChar := by
  simp only [gather_cons, gather_nil, Within, tail, second, Nat.isValidChar] at hc hd ⊢
  split_ifs <;> simp only <;> omega

theorem Word.valid {n : Nat} {bs : Bytes} (h : Word n bs) : n.isValidChar := by
  cases h with
  | one ha => exact Or.inl (by omega)
  | two ha ha' hb =>
    simp only [gather_cons, gather_nil, Within, tail] at hb ⊢
    exact Or.inl (by omega)
  | three ha ha' hb hc => exact ((second_three ha ha' hc).mp hb).2.2
  | four ha ha' hb hc hd => exact ((second_four ha (by omega) hc hd).mp ⟨ha', hb⟩).2.2

theorem Word.spelled {n : Nat} {bs : Bytes} (h : Word n bs) : spell n = bs := by
  cases h with
  | one ha => rw [spell, if_pos (by omega), UInt8.ofNat_toNat]
  | two ha ha' hb =>
    generalize hn : gather _ _ = n
    have hn' := hn
    simp only [gather_cons, gather_nil, Within, tail] at hn' hb
    rw [spell, if_neg (by omega), if_pos (by omega)]
    exact (spelled_two (by omega)).mpr ⟨by omega, ha', hb, hn.symm⟩
  | three ha ha' hb hc =>
    obtain ⟨hb, hmin, -⟩ := (second_three ha ha' hc).mp hb
    generalize hn : gather _ _ = n at hmin
    have hn' := hn
    simp only [gather_cons, gather_nil, Within, tail] at hn' hb hc
    rw [spell, if_neg (by omega), if_neg (by omega), if_pos (by omega)]
    exact (spelled_three (by omega)).mpr ⟨ha, ha', hb, hc, hn.symm⟩
  | four ha ha' hb hc hd =>
    obtain ⟨hb, hmin, -⟩ := (second_four ha (by omega) hc hd).mp ⟨ha', hb⟩
    generalize hn : gather _ _ = n at hmin
    have hn' := hn
    simp only [gather_cons, gather_nil, Within, tail] at hn' hb hc hd
    rw [spell, if_neg (by omega), if_neg (by omega), if_neg (by omega)]
    exact (spelled_four (by omega)).mpr ⟨ha, by omega, hb, hc, hd, hn.symm⟩

theorem word_spell {n : Nat} (hvalid : n.isValidChar) : Word n (spell n) := by
  unfold spell
  split_ifs with h1 h2 h3
  · generalize ha : UInt8.ofNat n = a
    obtain rfl := (byteOfNat_eq_iff (by omega)).mp ha
    exact .one (by omega)
  · generalize he : [UInt8.ofNat (n / 64 % 32 + 0xC0), UInt8.ofNat (n % 64 + 0x80)] = bs
    obtain ⟨a, b, rfl⟩ : ∃ a b, bs = [a, b] := ⟨_, _, he.symm⟩
    obtain ⟨ha, ha', hb, hn⟩ := (spelled_two h2).mp he
    rw [hn] at h1 ⊢
    refine .two ?_ ha' hb
    simp only [gather_cons, gather_nil, Within, tail] at h1 hb
    omega
  · generalize he : [_, UInt8.ofNat (n / 64 % 64 + 0x80), _] = bs
    obtain ⟨a, b, c, rfl⟩ : ∃ a b c, bs = [a, b, c] := ⟨_, _, _, he.symm⟩
    obtain ⟨ha, ha', hb, hc, hn⟩ := (spelled_three h3).mp he
    rw [hn] at h2 hvalid ⊢
    exact .three ha ha' ((second_three ha ha' hc).mpr ⟨hb, by omega, hvalid⟩) hc
  · have hmax : n ≤ 0x1FFFFF := by
      unfold Nat.isValidChar at hvalid
      omega
    generalize he : [_, _, UInt8.ofNat (n / 64 % 64 + 0x80), _] = bs
    obtain ⟨a, b, c, d, rfl⟩ : ∃ a b c d, bs = [a, b, c, d] := ⟨_, _, _, _, he.symm⟩
    obtain ⟨ha, ha', hb, hc, hd, hn⟩ := (spelled_four hmax).mp he
    rw [hn] at h3 hvalid ⊢
    obtain ⟨ha', hb⟩ := (second_four ha ha' hc hd).mpr ⟨hb, by omega, hvalid⟩
    exact .four ha ha' hb hc hd

/-- The words are what the code writes for the code points of characters. -/
theorem word_iff {n : Nat} {bs : Bytes} : Word n bs ↔ n.isValidChar ∧ spell n = bs := by
  constructor
  · intro h
    exact ⟨h.valid, h.spelled⟩
  · intro h
    exact h.2 ▸ word_spell h.1

theorem spell_ne (n : Nat) : spell n ≠ [] := by
  unfold spell
  split_ifs <;> exact List.cons_ne_nil _ _

theorem decoder_reads : Decoder.Reads decoder String.utf8EncodeChar :=
  -- the word of a character is the spelling of its code point by definition
  Decoder.Reads.of_words decoder_eq_char_iff word_iff spell_ne

/-! ## Loading -/

theorem signature_eq : signature = String.utf8EncodeChar '\uFEFF' := by decide

theorem decode_plain_iff {b : Bytes} {t : Text} : Encoding.utf8.decode b = .ok t ↔ b = encode t :=
  Encoding.decodeWith_eq_ok_iff.trans decoder_reads.run_eq_ok_iff

theorem unsigned_signature (r : Bytes) : unsigned (signature ++ r) = r := by
  rw [unsigned, if_pos (List.isPrefixOf_iff_prefix.mpr (List.prefix_append _ r)), List.drop_left]

theorem unsigned_eq_self {b : Bytes} (h : ¬ signature <+: b) : unsigned b = b := by
  rw [unsigned, if_neg (mt List.isPrefixOf_iff_prefix.mp h)]

/-- The UTF-8 of a text carries a signature exactly where the text starts with a byte order mark. -/
theorem signature_prefix_iff {t : Text} : signature <+: encode t ↔ t.head? = some '\uFEFF' := by
  constructor
  · intro h
    rw [signature_eq] at h
    exact decoder_reads.head_of_word_prefix h
  · intro h
    obtain ⟨u, rfl⟩ := List.head?_eq_some_iff.mp h
    rw [encode, List.flatMap_cons, ← signature_eq]
    exact List.prefix_append _ _

theorem decode_signed_iff {b : Bytes} {t : Text} :
    Encoding.utf8Signed.decode b = .ok t ↔
      b = signature ++ encode t ∨ b = encode t ∧ t.head? ≠ some '\uFEFF' := by
  have hd : Encoding.utf8Signed.decode b = .ok t ↔ unsigned b = encode t :=
    Encoding.decodeWith_eq_ok_iff.trans decoder_reads.run_eq_ok_iff
  rw [hd]
  by_cases hp : signature <+: b
  · obtain ⟨r, rfl⟩ := hp
    rw [unsigned_signature]
    constructor
    · intro h
      exact Or.inl (by rw [h])
    · intro h
      obtain h | ⟨h, hne⟩ := h
      · exact List.append_cancel_left h
      · exact absurd (signature_prefix_iff.mp (h ▸ List.prefix_append _ r)) hne
  · rw [unsigned_eq_self hp]
    constructor
    · intro h
      exact Or.inr ⟨h, fun hhead => hp (h ▸ signature_prefix_iff.mpr hhead)⟩
    · intro h
      obtain h | ⟨h, -⟩ := h
      · exact absurd ⟨_, h.symm⟩ hp
      · exact h

/-- Bytes load as UTF-8 exactly when they are the UTF-8 of a text that is not empty, and give that text; a byte
    order mark in front is a character of it. Bytes that are the UTF-8 of no text cannot be decoded. Under the
    signed form the bytes are a signature and the UTF-8 of the text, or that UTF-8 alone where the text does not
    start with a byte order mark. -/
theorem loads_wellformed_utf8 (host : Host) (s : Source) (b : Bytes)
    (hc : s.contents host = .ok (.raw b)) (hb : b ≠ []) :
    (∀ t, s.load host "utf-8" = .ok t ↔ t ≠ [] ∧ b = encode t) ∧
    (∀ t, b = signature ++ encode t → s.load host "utf-8" = .ok ('\uFEFF' :: t)) ∧
    ((∀ t, b ≠ encode t) → ∃ cause, s.load host "utf-8" = .error (.undecodable s.name "utf-8" cause)) ∧
    ∀ t, s.load host "utf-8-sig" = .ok t ↔
      t ≠ [] ∧ (b = signature ++ encode t ∨ b = encode t ∧ t.head? ≠ some '\uFEFF') := by
  have hplain : Encoding.named? "utf-8" = some .utf8 := by decide
  have hsigned : Encoding.named? "utf-8-sig" = some .utf8Signed := by decide
  have hload : ∀ t, s.load host "utf-8" = .ok t ↔ t ≠ [] ∧ b = encode t := fun t => by
    rw [Source.load_eq_ok_iff hc hb hplain, decode_plain_iff]
  refine ⟨hload, ?_, ?_, ?_⟩
  · intro t ht
    refine (hload _).mpr ⟨List.cons_ne_nil _ t, ?_⟩
    rw [ht, signature_eq, encode, encode, List.flatMap_cons]
  · intro hnone
    exact Source.load_undecodable hc hb hplain fun t ht => hnone t (decode_plain_iff.mp ht)
  · intro t
    rw [Source.load_eq_ok_iff hc hb hsigned, decode_signed_iff]

/-- The bytes `EF BB BF C3 A9`: the mark is a character of the plain form and a signature of the signed one. -/
theorem loads_wellformed_utf8_marked :
    let s : Source := .bytes { elements := [0xEF, 0xBB, 0xBF, 0xC3, 0xA9] }
    s.load {} "utf-8" = .ok ['\uFEFF', 'é'] ∧ s.load {} "utf-8-sig" = .ok ['é'] := by
  obtain ⟨-, hmark, -, hsigned⟩ := loads_wellformed_utf8 {} (.bytes { elements := [0xEF, 0xBB, 0xBF, 0xC3, 0xA9] })
    [0xEF, 0xBB, 0xBF, 0xC3, 0xA9] rfl (by decide)
  exact ⟨hmark ['é'] (by decide), (hsigned ['é']).mpr ⟨by decide, Or.inl (by decide)⟩⟩

end Lexkit.Utf8
