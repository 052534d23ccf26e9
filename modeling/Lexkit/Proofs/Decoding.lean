/-
  Lexkit.Proofs.Decoding — a decoder against the code it reads, and what loading makes of it.

  A code gives every character a word of bytes, and a text is written by putting its words one behind the other.
  A decoder reads a code (`Reads`) if it takes a character exactly where the word of the character stands, and
  takes the bytes of that word. Such a decoder gives a text exactly for the bytes that write it
  (`run_eq_ok_iff`): no text is written in two ways, and all that writes none is refused.

  Loading the bytes of a source hands them to the decoder its encoding names. It gives the text decoded, unless
  that is empty (`load_eq_ok_iff`), and passes a fault on (`load_undecodable`).
-/

import Lexkit.Files.Source

namespace Lexkit

/-! ## Characters and bytes by their numbers -/

theorem toNat_charOfNat {n : Nat} (h : n.isValidChar) : (Char.ofNat n).toNat = n := by
  rw [Char.ofNat, dif_pos h]
  rfl

theorem byteOfNat_eq_iff {n : Nat} (h : n < 256) {b : UInt8} : UInt8.ofNat n = b ↔ n = b.toNat := by
  rw [← UInt8.toNat_inj, UInt8.toNat_ofNat', Nat.mod_eq_of_lt h]

/-! ## Reading a code -/

namespace Decoder

/-- The decoder takes a character exactly where its word stands, and takes that word. -/
structure Reads (d : Decoder) (code : Char → Bytes) : Prop where
  word_ne : ∀ c, code c ≠ []
  char_iff : ∀ {b : UInt8} {r : Bytes} {c : Char} {more : Nat},
    d b r = .char c more ↔ ∃ w rest, r = w ++ rest ∧ more = w.length ∧ code c = b :: w

variable {d : Decoder} {code : Char → Bytes}

/-- A decoder that takes words and gives the character of their code point reads the code that spells the code
    points of characters, if the words are what that code spells. -/
theorem Reads.of_words {word : Nat → Bytes → Prop} {spell : Nat → Bytes}
    (hd : ∀ {b : UInt8} {r : Bytes} {c : Char} {more : Nat}, d b r = .char c more ↔
      ∃ w rest, r = w ++ rest ∧ more = w.length ∧ ∃ n, word n (b :: w) ∧ c = Char.ofNat n)
    (hw : ∀ {n : Nat} {bs : Bytes}, word n bs ↔ n.isValidChar ∧ spell n = bs) (hne : ∀ n, spell n ≠ []) :
    d.Reads fun c => spell c.toNat where
  word_ne c := hne c.toNat
  char_iff {b r c more} := by
    rw [hd]
    constructor
    · intro h
      obtain ⟨w, rest, hr, hmore, n, hword, hc⟩ := h
      obtain ⟨hv, hn⟩ := hw.mp hword
      exact ⟨w, rest, hr, hmore, by rw [hc, toNat_charOfNat hv, hn]⟩
    · intro h
      obtain ⟨w, rest, hr, hmore, hn⟩ := h
      exact ⟨w, rest, hr, hmore, c.toNat, hw.mpr ⟨c.valid, hn⟩, (Char.ofNat_toNat c).symm⟩

theorem ok_of_map_ok {ε α β : Type} {x : Except ε α} {f : α → β} {b : β} (h : x.map f = .ok b) :
    ∃ a, x = .ok a ∧ f a = b := by
  cases x with
  | error e => cases h
  | ok a => exact ⟨a, rfl, Except.ok.inj h⟩

/-- A word in front is read, and the decoder goes on behind it. -/
theorem Reads.run_word (h : d.Reads code) (i : Nat) (c : Char) (rest : Bytes) :
    ∃ j, d.run i (code c ++ rest) = (d.run j rest).map (c :: ·) := by
  cases hw : code c with
  | nil => exact absurd hw (h.word_ne c)
  | cons b w =>
    have hstep : d b (w ++ rest) = .char c w.length := h.char_iff.mpr ⟨w, rest, rfl, rfl, hw⟩
    refine ⟨i + 1 + w.length, ?_⟩
    rw [List.cons_append, run, hstep]
    simp only [List.drop_left]

/-- What the decoder gives a text for is what writes the text. -/
theorem Reads.run_eq_ok_iff (h : d.Reads code) {i : Nat} {bs : Bytes} {t : Text} :
    d.run i bs = .ok t ↔ bs = t.flatMap code := by
  constructor
  · intro hrun
    -- the decoder's own recursion: a character's word, then what is behind it
    fun_induction d.run i bs generalizing t with
    | case1 i =>
      cases hrun
      rfl
    | case2 i b r c more hstep ih =>
      obtain ⟨w, rest, hr, hmore, hword⟩ := h.char_iff.mp hstep
      have hrest : r.drop more = rest := by rw [hr, hmore, List.drop_left]
      rw [hrest] at hrun ih
      obtain ⟨u, hmap, rfl⟩ := ok_of_map_ok hrun
      rw [List.flatMap_cons, hword, hr, ← ih hmap]
      rfl
    | case3 i b r width reason hstep => cases hrun
  · rintro rfl
    induction t generalizing i with
    | nil =>
      rw [List.flatMap_nil, run]
    | cons c t ih =>
      obtain ⟨j, hj⟩ := h.run_word i c (t.flatMap code)
      rw [List.flatMap_cons, hj, ih]
      rfl

/-- A text whose bytes start with the word of a character starts with that character. -/
theorem Reads.head_of_word_prefix (h : d.Reads code) {c : Char} {t : Text} (hp : code c <+: t.flatMap code) :
    t.head? = some c := by
  obtain ⟨rest, hrest⟩ := hp
  obtain ⟨j, hj⟩ := h.run_word 0 c rest
  have hrun : d.run 0 (t.flatMap code) = .ok t := h.run_eq_ok_iff.mpr rfl
  rw [← hrest, hj] at hrun
  obtain ⟨u, -, rfl⟩ := ok_of_map_ok hrun
  rfl

end Decoder

/-! ## Loading bytes -/

/-- Telling errors in other words changes no success. -/
theorem mapError_eq_ok_iff {ε ε' α : Type} {f : ε → ε'} {x : Except ε α} {a : α} :
    x.mapError f = .ok a ↔ x = .ok a := by
  cases x with
  | ok u =>
    constructor
    · intro h
      cases h
      rfl
    · intro h
      cases h
      rfl
  | error e =>
    constructor
    · intro h
      cases h
    · intro h
      cases h

theorem Encoding.decodeWith_eq_ok_iff {codec : String} {d : Decoder} {i : Nat} {b : Bytes} {t : Text} :
    decodeWith codec d i b = .ok t ↔ d.run i b = .ok t := mapError_eq_ok_iff

namespace Source

variable {host : Host} {s : Source} {b : Bytes} {name encoding : String} {e : Encoding}

theorem hasNul_of_named (he : Encoding.named? encoding = some e) : Encoding.hasNul encoding = false := by
  cases hn : Encoding.hasNul encoding with
  | false => rfl
  | true =>
    rw [Encoding.named?, if_pos hn] at he
    cases he

theorem codec_of_named (he : Encoding.named? encoding = some e) : host.codec encoding = .ok e.codec := by
  rw [Host.codec, he]

/-- Bytes, if there are any, are decoded by what the name stands for. -/
theorem decoded_of_codec {codec : Codec} (hn : Encoding.hasNul encoding = false) (hb : b ≠ [])
    (hc : host.codec encoding = .ok codec) : decoded host name encoding b = decodedBy name encoding b codec := by
  have hne : ¬ b.isEmpty = true := by simpa using hb
  rw [decoded, if_neg (Bool.eq_false_iff.mp hn), if_neg hne, hc]
  rfl

/-- Bytes under the name of an encoding described here are decoded as that, on every host. -/
theorem decoded_named (he : Encoding.named? encoding = some e) (hb : b ≠ []) :
    decoded host name encoding b = (e.decode b).mapError fun u => .undecodable name encoding (.fault u) := by
  rw [decoded_of_codec (hasNul_of_named he) hb (codec_of_named he), Encoding.codec, decodedBy]
  cases hd : e.decode b with
  | ok t => rfl
  | error u => rfl

/-- What they come to must not be empty. -/
theorem load_raw (hc : s.contents host = .ok (.raw b)) (hb : b ≠ []) (he : Encoding.named? encoding = some e) :
    s.load host encoding =
      ((e.decode b).mapError fun u => LoadError.undecodable s.name encoding (.fault u)).bind (nonempty s.name) := by
  rw [load, hc, ← decoded_named he hb]
  rfl

theorem load_eq_ok_iff (hc : s.contents host = .ok (.raw b)) (hb : b ≠ [])
    (he : Encoding.named? encoding = some e) {t : Text} :
    s.load host encoding = .ok t ↔ t ≠ [] ∧ e.decode b = .ok t := by
  rw [load_raw hc hb he]
  cases e.decode b with
  | error f => exact iff_of_false nofun (fun h => nomatch h.2)
  | ok u =>
    show nonempty s.name u = .ok t ↔ _
    constructor
    · intro ht
      cases u with
      | nil => cases ht
      | cons x u =>
        cases ht
        exact ⟨List.cons_ne_nil x u, rfl⟩
    · rintro ⟨hne, ht⟩
      cases ht
      simp [nonempty, hne]

theorem load_undecodable (hc : s.contents host = .ok (.raw b)) (hb : b ≠ [])
    (he : Encoding.named? encoding = some e) (hd : ∀ t, e.decode b ≠ .ok t) :
    ∃ cause, s.load host encoding = .error (.undecodable s.name encoding cause) := by
  rw [load_raw hc hb he]
  cases hr : e.decode b with
  | ok t => exact absurd hr (hd t)
  | error cause => exact ⟨.fault cause, rfl⟩

theorem load_empty (hc : s.contents host = .ok (.raw b)) (hb : b ≠ [])
    (he : Encoding.named? encoding = some e) (hd : e.decode b = .ok []) :
    s.load host encoding = .error (.empty s.name) := by
  rw [load_raw hc hb he, hd]
  rfl

end Source

end Lexkit
