/-
  Lexkit.Proofs.Faults — a decoding fault points at the right bytes.

  A decoder that goes through its bytes in order (`InOrder`) takes a character for good: what follows cannot undo it.
  So the bytes before the first fault are decoded whatever stands behind them (`run_append`), and with any of the
  bytes from the fault on they are not: the place of the fault is the length of the longest prefix that can be
  decoded (`InOrder.points`). That holds for every encoding that counts places from its first byte
  (`decode_points`), with the mark in front counted where the order of bytes is open (`decode_open_points`); the
  signed UTF-8 counts behind its signature.

  In UTF-8 the reason tells whether there is hope. Where the bytes end too early, a word has begun that further bytes
  can complete (`decoder_hopeful`). Any other fault shows in its own bytes and the one behind them, so no bytes
  that start like this can be decoded (`decoder_hopeless`). `decode_hope` says both of whole decodings.
-/

import Lexkit.Proofs.Writes
import Mathlib.Order.Bounds.Defs

namespace Lexkit

/-- The place of the last byte at fault. -/
def DecodeFault.last (f : DecodeFault) : Nat := f.position + f.bytes.length - 1

/-- The fault is where the longest prefix that can be decoded ends, and its bytes are those that stand there. -/
structure DecodeFault.Points (ok : Bytes → Prop) (b : Bytes) (f : DecodeFault) : Prop where
  longest : IsGreatest {n | n ≤ b.length ∧ ok (b.take n)} f.position
  nonempty : 0 < f.bytes.length
  inside : f.position + f.bytes.length ≤ b.length
  bytes : f.bytes = (b.drop f.position).take f.bytes.length

/-- How the places from `p` to `q` are shown: a single one with its byte, several by the first and the last. -/
def places (b : Bytes) (p q : Nat) : String :=
  if p = q then "byte 0x" ++ String.ofList (Text.hexDigits 2 (b.getD p 0).toNat) ++ " in position " ++ Nat.repr p
  else "bytes in position " ++ Nat.repr p ++ "-" ++ Nat.repr q

/-- What the message of a fault shows is the bytes at fault. -/
theorem DecodeFault.Points.message {ok : Bytes → Prop} {b : Bytes} {f : DecodeFault} (h : f.Points ok b)
    (codec : String) : f.message codec =
      "'" ++ codec ++ "' codec can't decode " ++ places b f.position f.last ++ ": " ++ f.reason.text := by
  have hbytes := h.bytes
  have hnonempty := h.nonempty
  unfold DecodeFault.message places last
  rcases hb : f.bytes with _ | ⟨x, _ | ⟨y, bs⟩⟩
  · simp [hb] at hnonempty
  · have hx : b.getD f.position 0 = x := by
      rw [hb] at hbytes
      have hhead := congrArg List.head? hbytes
      simp only [List.head?_cons, List.length_singleton, List.head?_take, List.head?_drop] at hhead
      simpa using congrArg (Option.getD · 0) hhead.symm
    simp only [List.length_singleton, Nat.add_sub_cancel, if_true, hx]
  · simp

theorem FaultReason.text_eq_iff {r : FaultReason} : r.text = "unexpected end of data" ↔ r = .unexpectedEnd := by
  cases r <;> simp [text]

namespace Decoder

/-- A character, once taken, stands whatever follows its bytes, and a fault spans bytes that are there. -/
structure InOrder (d : Decoder) : Prop where
  char_stays : ∀ {b : UInt8} {r : Bytes} {c : Char} {more : Nat}, d b r = .char c more →
    more ≤ r.length ∧ ∀ r', r.take more <+: r' → d b r' = .char c more
  fault_spans : ∀ {b : UInt8} {r : Bytes} {width : Nat} {reason : FaultReason}, d b r = .fault width reason →
    0 < width ∧ width ≤ r.length + 1

variable {d : Decoder} {i : Nat} {b g : Bytes} {t : Text} {f : DecodeFault}

/-! ## Up to the first fault -/

/-- A decoder that reads a code goes through its bytes in order. -/
theorem Reads.inOrder {code : Char → Bytes} (h : d.Reads code)
    (hf : ∀ {b : UInt8} {r : Bytes} {width : Nat} {reason : FaultReason}, d b r = .fault width reason →
      0 < width ∧ width ≤ r.length + 1) : d.InOrder := by
  refine ⟨?_, hf⟩
  intro b r c more hc
  obtain ⟨w, rest, rfl, rfl, hw⟩ := h.char_iff.mp hc
  refine ⟨by simp, ?_⟩
  rintro r' ⟨rest', rfl⟩
  rw [List.take_left]
  exact h.char_iff.mpr ⟨w, rest', rfl, rfl, hw⟩

/-- With bytes cut off at the end, a fault is still one. -/
theorem InOrder.fault_cut (h : d.InOrder) {x : UInt8} {r r' : Bytes} {width : Nat} {reason : FaultReason}
    (hf : d x r = .fault width reason) (hr : r' <+: r) : ∃ w why, d x r' = .fault w why := by
  cases hd : d x r' with
  | fault w why => exact ⟨w, why, rfl⟩
  | char c more =>
    have hc := (h.char_stays hd).2 r ((List.take_prefix more r').trans hr)
    rw [hf] at hc
    cases hc

/-- Bytes that were decoded are decoded whatever follows them. -/
theorem InOrder.run_append (h : d.InOrder) (hg : d.run i g = .ok t) (rest : Bytes) :
    d.run i (g ++ rest) = (d.run (i + g.length) rest).map (t ++ ·) := by
  fun_induction d.run i g generalizing t with
  | case1 i =>
    cases hg
    cases hr : d.run i rest <;> simp [hr, Except.map]
  | case2 i x r c more hstep ih =>
    obtain ⟨u, hu, rfl⟩ := ok_of_map_ok hg
    obtain ⟨hle, hstays⟩ := h.char_stays hstep
    have hhead : d x (r ++ rest) = .char c more :=
      hstays _ ((List.take_prefix more r).trans (List.prefix_append r rest))
    have hplace : i + 1 + more + (r.drop more).length = i + (x :: r).length := by simp; omega
    rw [List.cons_append, run, hhead]
    simp only [List.drop_append_of_le_length hle, ih hu, hplace]
    cases d.run (i + (x :: r).length) rest <;> rfl
  | case3 i x r width reason hstep => cases hg

/-- Where decoding fails, there are bytes that decode and, behind them, one that does not go on. -/
theorem InOrder.run_error (h : d.InOrder) (hf : d.run i b = .error f) :
    ∃ g x r width, b = g ++ x :: r ∧ (∃ t, d.run i g = .ok t) ∧ d x r = .fault width f.reason ∧
      f.position = i + g.length ∧ f.bytes = (x :: r).take width := by
  fun_induction d.run i b with
  | case1 i => cases hf
  | case2 i x r c more hstep ih =>
    have hrest : d.run (i + 1 + more) (r.drop more) = .error f := by
      cases hr : d.run (i + 1 + more) (r.drop more) with
      | ok u => rw [hr] at hf; cases hf
      | error e => rw [hr] at hf; cases hf; rfl
    obtain ⟨g, y, s, width, hb, ⟨u, hu⟩, hy, hpos, hbytes⟩ := ih hrest
    obtain ⟨hle, hstays⟩ := h.char_stays hstep
    have htake : (r.take more).length = more := by simp [hle]
    refine ⟨x :: (r.take more ++ g), y, s, width, ?_, ⟨c :: u, ?_⟩, hy, ?_, hbytes⟩
    · simp [← hb]
    · have hhead : d x (r.take more ++ g) = .char c more := hstays _ (List.prefix_append _ g)
      have hdrop : (r.take more ++ g).drop more = g := by rw [List.drop_append_of_le_length (by omega)]; simp
      rw [run, hhead]
      simp only [hdrop, hu]
      rfl
    · simp [hpos, htake]
      omega
  | case3 i x r width reason hstep =>
    cases hf
    exact ⟨[], x, r, width, rfl, ⟨[], by rw [run]⟩, hstep, rfl, rfl⟩

/-- Behind bytes that decode, a fault is where decoding fails. -/
theorem InOrder.run_fault (h : d.InOrder) (hg : d.run i g = .ok t) {x : UInt8} {r : Bytes} {width : Nat}
    {reason : FaultReason} (hx : d x r = .fault width reason) (u : Text) : d.run i (g ++ x :: r) ≠ .ok u := by
  rw [h.run_append hg, run, hx]
  intro he
  cases he

/-- Behind a mark that is not decoded, the fault points at the right bytes: what counts as decodable is the mark and
    what the decoder takes behind it. -/
theorem InOrder.points (h : d.InOrder) (mark : Bytes) {r : Bytes} (hf : d.run mark.length r = .error f) {ok : Bytes → Prop}
    (hok : ∀ g, g <+: r → (ok (mark ++ g) ↔ ∃ t, d.run mark.length g = .ok t)) : f.Points ok (mark ++ r) := by
  obtain ⟨g, x, r, width, rfl, ⟨t, ht⟩, hx, hpos, hbytes⟩ := h.run_error hf
  obtain ⟨hwidth, hle⟩ := h.fault_spans hx
  have hlen : f.bytes.length = width := by simp [hbytes]; omega
  refine ⟨⟨⟨by simp [hpos], ?_⟩, ?_⟩, by omega, by simp; omega, ?_⟩
  · rw [hpos, List.take_length_add_append, List.take_left]
    exact (hok g (List.prefix_append _ _)).mpr ⟨t, ht⟩
  · rintro n ⟨-, hn⟩
    by_contra hlt
    -- a longer prefix holds the first byte at fault and some of the bytes behind it
    obtain ⟨k, rfl⟩ : ∃ k, n = mark.length + (g.length + (k + 1)) := ⟨n - f.position - 1, by omega⟩
    obtain ⟨w, why, hcut⟩ := h.fault_cut hx (List.take_prefix k r)
    rw [List.take_length_add_append, List.take_length_add_append, List.take_succ_cons] at hn
    have hprefix : g ++ x :: r.take k <+: g ++ x :: r :=
      List.prefix_append_right_inj g |>.mpr (List.cons_prefix_cons.mpr ⟨rfl, List.take_prefix k r⟩)
    obtain ⟨u, hu⟩ := (hok _ hprefix).mp hn
    exact h.run_fault ht hcut u hu
  · rw [hpos, List.drop_length_add_append, List.drop_left, hlen, hbytes]

/-- A decoder of one byte a character goes through its bytes in order. -/
theorem TakesBelow.inOrder {limit : Nat} (h : d.TakesBelow limit)
    (hf : ∀ {b : UInt8} {r : Bytes} {width : Nat} {reason : FaultReason}, d b r = .fault width reason →
      0 < width ∧ width ≤ r.length + 1) : d.InOrder := by
  refine ⟨?_, hf⟩
  intro b r c more hc
  obtain ⟨rfl, hb⟩ := h.mp hc
  exact ⟨Nat.zero_le _, fun r' _ => h.mpr ⟨rfl, hb⟩⟩

end Decoder

namespace Utf8

variable {x : UInt8} {r : Bytes} {width : Nat} {reason : FaultReason}

/-! ## Hope in UTF-8 -/

/-- Every range has a least byte. -/
theorem exists_within {ranges : List (Nat × Nat)} (h : ∀ range ∈ ranges, range.1 ≤ range.2 ∧ range.2 < 256) :
    ∃ w, List.Forall₂ Within ranges w := by
  refine ⟨ranges.map fun range => UInt8.ofNat range.1, List.forall₂_map_right_iff.mpr ?_⟩
  refine List.forall₂_same.mpr fun range hmem => ?_
  obtain ⟨hle, hlt⟩ := h range hmem
  have hlow : (UInt8.ofNat range.1).toNat = range.1 := ((byteOfNat_eq_iff (by omega)).mp rfl).symm
  exact ⟨by omega, by omega⟩

/-- Where the bytes end too early, bytes in the ranges that are left complete the word. -/
theorem follow_hopeful {ranges : List (Nat × Nat)} {bits seen : Nat} {bs : Bytes}
    (hr : ∀ range ∈ ranges, range.1 ≤ range.2 ∧ range.2 < 256)
    (h : follow ranges bits seen bs = .fault width .unexpectedEnd) :
    width = seen + bs.length + 1 ∧
      ∃ more c, follow ranges bits seen (bs ++ more) = .char c (seen + (bs ++ more).length) := by
  induction ranges generalizing bits seen bs with
  | nil => simp [follow] at h
  | cons range ranges ih =>
    cases bs with
    | nil =>
      simp only [follow, Step.fault.injEq, and_true] at h
      obtain ⟨w, hw⟩ := exists_within hr
      exact ⟨by simp [h], w, _, follow_eq_char_iff.mpr ⟨w, [], by simp, by simp, hw, rfl⟩⟩
    | cons b bs =>
      by_cases hb : range.1 ≤ b.toNat ∧ b.toNat ≤ range.2
      · simp only [follow, hb, and_self, if_true] at h
        obtain ⟨hwidth, more, c, hc⟩ := ih (fun x hx => hr x (List.mem_cons_of_mem _ hx)) h
        refine ⟨by simp; omega, more, c, ?_⟩
        simp only [List.cons_append, follow, hb, and_self, if_true, hc, List.length_cons]
        congr 1
        omega
      · simp [follow, hb] at h

theorem follow_spans {ranges : List (Nat × Nat)} {bits seen : Nat} {bs : Bytes}
    (h : follow ranges bits seen bs = .fault width reason) : seen < width ∧ width ≤ seen + bs.length + 1 := by
  induction ranges generalizing bits seen bs with
  | nil => simp [follow] at h
  | cons range ranges ih =>
    cases bs with
    | nil =>
      simp only [follow, Step.fault.injEq] at h
      simp [← h.1]
    | cons b bs =>
      by_cases hb : range.1 ≤ b.toNat ∧ b.toNat ≤ range.2
      · simp only [follow, hb, and_self, if_true] at h
        have := ih h
        rw [List.length_cons]
        omega
      · simp only [follow, hb, if_false, Step.fault.injEq] at h
        simp [← h.1]

/-- Any other fault is there as soon as its bytes and the one behind them are. -/
theorem follow_hopeless {ranges : List (Nat × Nat)} {bits seen : Nat} {bs bs' : Bytes}
    (h : follow ranges bits seen bs = .fault width reason) (hreason : reason ≠ .unexpectedEnd)
    (hp : bs.take (width - seen) <+: bs') : follow ranges bits seen bs' = .fault width reason := by
  induction ranges generalizing bits seen bs bs' with
  | nil => simp [follow] at h
  | cons range ranges ih =>
    have hseen := (follow_spans h).1
    obtain ⟨k, hk⟩ : ∃ k, width - seen = k + 1 := ⟨width - seen - 1, by omega⟩
    cases bs with
    | nil =>
      simp only [follow, Step.fault.injEq] at h
      exact absurd h.2.symm hreason
    | cons b bs =>
      rw [hk, List.take_succ_cons] at hp
      obtain ⟨rest, rfl⟩ := hp
      by_cases hb : range.1 ≤ b.toNat ∧ b.toNat ≤ range.2
      · simp only [List.cons_append, follow, hb, and_self, if_true] at h ⊢
        have hk' : width - (seen + 1) = k := by omega
        exact ih h (hk' ▸ List.prefix_append _ rest)
      · simp only [List.cons_append, follow, hb, if_false] at h ⊢
        exact h

theorem lead?_ranges {b : Nat} {l : Lead} (h : lead? b = some l) :
    ∀ range ∈ l.ranges, range.1 ≤ range.2 ∧ range.2 < 256 := by
  unfold lead? at h
  split_ifs at h <;> obtain rfl := Option.some.inj h <;> simp [tail]

theorem decoder_spans (h : decoder x r = .fault width reason) : 0 < width ∧ width ≤ r.length + 1 := by
  unfold decoder at h
  cases hl : lead? x.toNat with
  | none =>
    simp only [hl, Step.fault.injEq] at h
    omega
  | some l =>
    simp only [hl] at h
    simpa using follow_spans h

theorem decoder_hopeful (h : decoder x r = .fault width .unexpectedEnd) :
    width = r.length + 1 ∧ ∃ more c, decoder x (r ++ more) = .char c (r ++ more).length := by
  unfold decoder at h ⊢
  cases hl : lead? x.toNat with
  | none => simp [hl] at h
  | some l =>
    simp only [hl] at h ⊢
    simpa using follow_hopeful (lead?_ranges hl) h

theorem decoder_hopeless (h : decoder x r = .fault width reason) (hreason : reason ≠ .unexpectedEnd) {r' : Bytes}
    (hp : r.take width <+: r') : decoder x r' = .fault width reason := by
  unfold decoder at h ⊢
  cases hl : lead? x.toNat with
  | none =>
    simp only [hl] at h ⊢
    exact h
  | some l =>
    simp only [hl] at h ⊢
    exact follow_hopeless h hreason hp

theorem decoder_inOrder : decoder.InOrder := decoder_reads.inOrder decoder_spans

/-- The bytes can be completed exactly if they end too early, and then all from the fault on are at fault. Otherwise
    nothing that starts with the bytes at fault and the one behind them can be decoded. -/
theorem run_hope {i : Nat} {b : Bytes} {f : DecodeFault} (hf : decoder.run i b = .error f) :
    (f.reason = .unexpectedEnd →
      f.position + f.bytes.length = i + b.length ∧ ∃ more t, decoder.run i (b ++ more) = .ok t) ∧
    (f.reason ≠ .unexpectedEnd →
      ∀ bs t, b.take (f.position + f.bytes.length + 1 - i) <+: bs → decoder.run i bs ≠ .ok t) := by
  obtain ⟨g, x, r, width, rfl, ⟨t, ht⟩, hx, hpos, hbytes⟩ := decoder_inOrder.run_error hf
  have hlen : f.bytes.length = width := by
    have := (decoder_spans hx).2
    simp [hbytes]
    omega
  constructor
  · intro hreason
    rw [hreason] at hx
    obtain ⟨hwidth, more, c, hc⟩ := decoder_hopeful hx
    refine ⟨by simp; omega, more, t ++ [c], ?_⟩
    have hword : decoder.run (i + g.length) (x :: (r ++ more)) = .ok [c] := by
      rw [Decoder.run, hc]
      simp [Decoder.run, Except.map]
    rw [List.append_assoc, decoder_inOrder.run_append ht, List.cons_append, hword]
    rfl
  · rintro hreason bs u ⟨rest, rfl⟩
    have hcount : f.position + f.bytes.length + 1 - i = g.length + (width + 1) := by omega
    have hfault : decoder x (r.take width ++ rest) = .fault width f.reason :=
      decoder_hopeless hx hreason (List.prefix_append _ rest)
    rw [hcount, List.take_length_add_append, List.take_succ_cons, List.append_assoc, List.cons_append]
    exact decoder_inOrder.run_fault ht hfault u

end Utf8

/-! ## Every encoding -/

theorem Ascii.inOrder : Ascii.decoder.InOrder := by
  refine Ascii.takesBelow.inOrder fun {b r width reason} h => ?_
  unfold decoder at h
  split at h
  · cases h
  · cases h
    simp

theorem Latin1.inOrder : Latin1.decoder.InOrder := Latin1.takesBelow.inOrder fun h => nomatch h

theorem Utf16.decoder_inOrder (o : Utf16.Order) : (Utf16.decoder o).InOrder := by
  refine (Utf16.decoder_reads o).inOrder fun {a r width reason} h => ?_
  rcases r with _ | ⟨b, _ | ⟨c, _ | ⟨d, r⟩⟩⟩ <;> simp only [decoder, afterHigh] at h <;> grind

namespace Encoding

variable {e : Encoding} {b : Bytes} {u : Undecodable}

theorem decodeWith_eq_error {codec : String} {d : Decoder} {i : Nat} (h : decodeWith codec d i b = .error u) :
    ∃ f, d.run i b = .error f ∧ u = ⟨codec, f⟩ := by
  unfold decodeWith at h
  cases hr : d.run i b with
  | ok t => rw [hr] at h; cases h
  | error f => rw [hr] at h; cases h; exact ⟨f, rfl, rfl⟩

theorem decodeWith_points {codec : String} {d : Decoder} (hd : d.InOrder) (h : decodeWith codec d 0 b = .error u) :
    u.fault.Points (fun b => ∃ t, decodeWith codec d 0 b = .ok t) b := by
  obtain ⟨f, hf, rfl⟩ := decodeWith_eq_error h
  exact hd.points [] hf fun g _ => by simp [decodeWith_eq_ok_iff]

theorem decode_marked (o : Utf16.Order) (r : Bytes) :
    Encoding.utf16.decode (Utf16.orderMark o ++ r) = decodeWith (orderName o) (Utf16.decoder o) 2 r := by
  cases o with
  | little | big => rfl

theorem decode_unmarked (h : Utf16.marked? b = none) :
    Encoding.utf16.decode b = decodeWith (orderName .little) (Utf16.decoder .little) 0 b := by
  simp only [decode, h]

/-- Bytes with no mark in front have none in front of any prefix. -/
theorem unmarked_cut {g : Bytes} (h : Utf16.marked? b = none) (hg : g <+: b) : Utf16.marked? g = none := by
  cases hm : Utf16.marked? g with
  | none => rfl
  | some o =>
    obtain ⟨r, rfl⟩ := (Utf16.orderMark_prefix_of_marked hm).trans hg
    rw [Utf16.marked?_orderMark] at h
    cases h

/-- With the order left open, the mark is counted among the places. -/
theorem decode_open_points (h : Encoding.utf16.decode b = .error u) :
    u.fault.Points (fun b => ∃ t, Encoding.utf16.decode b = .ok t) b := by
  cases hm : Utf16.marked? b with
  | none =>
    rw [decode_unmarked hm] at h
    obtain ⟨f, hf, rfl⟩ := decodeWith_eq_error h
    refine (Utf16.decoder_inOrder .little).points [] hf fun g hg => ?_
    rw [List.nil_append, decode_unmarked (unmarked_cut hm hg)]
    simp only [decodeWith_eq_ok_iff, List.length_nil]
  | some o =>
    obtain ⟨r, rfl⟩ := Utf16.orderMark_prefix_of_marked hm
    have htwo : (Utf16.orderMark o).length = 2 := by cases o <;> rfl
    rw [decode_marked] at h
    obtain ⟨f, hf, rfl⟩ := decodeWith_eq_error h
    refine (Utf16.decoder_inOrder o).points _ (htwo.symm ▸ hf) fun g _ => ?_
    simp only [decode_marked, decodeWith_eq_ok_iff, htwo]

/-- Where places are counted from the first byte, a fault points at the right bytes. -/
theorem decode_points (he : e ≠ .utf8Signed) (h : e.decode b = .error u) :
    u.fault.Points (fun b => ∃ t, e.decode b = .ok t) b := by
  cases e with
  | ascii => exact decodeWith_points Ascii.inOrder h
  | latin1 => exact decodeWith_points Latin1.inOrder h
  | utf8 => exact decodeWith_points Utf8.decoder_inOrder h
  | utf8Signed => exact absurd rfl he
  | utf16 => exact decode_open_points h
  | utf16Fixed o => exact decodeWith_points (Utf16.decoder_inOrder o) h

/-- In UTF-8, bytes that end too early can be completed, and no others that fail; see `Utf8.run_hope`. -/
theorem decode_hope (h : Encoding.utf8.decode b = .error u) :
    (u.fault.reason = .unexpectedEnd ↔ ∃ more t, Encoding.utf8.decode (b ++ more) = .ok t) ∧
    (u.fault.reason = .unexpectedEnd → u.fault.last = b.length - 1) ∧
    (u.fault.reason ≠ .unexpectedEnd →
      ∀ bs, b.take (min (u.fault.last + 2) b.length) <+: bs → ¬ ∃ t, Encoding.utf8.decode bs = .ok t) := by
  have hnonempty := (decodeWith_points Utf8.decoder_inOrder h).nonempty
  obtain ⟨f, hf, rfl⟩ := decodeWith_eq_error h
  obtain ⟨hhopeful, hhopeless⟩ := Utf8.run_hope hf
  have hlast : f.last + 2 = f.position + f.bytes.length + 1 - 0 := by
    simp only [DecodeFault.last] at hnonempty ⊢
    omega
  simp only [decode, decodeWith_eq_ok_iff]
  have hnone : f.reason ≠ .unexpectedEnd →
      ∀ bs, b.take (min (f.last + 2) b.length) <+: bs → ¬ ∃ t, Utf8.decoder.run 0 bs = .ok t := by
    rintro hreason bs hbs ⟨t, ht⟩
    rw [← List.take_eq_take_min, hlast] at hbs
    exact hhopeless hreason bs t hbs ht
  refine ⟨⟨fun hreason => (hhopeful hreason).2, ?_⟩, ?_, hnone⟩
  · rintro ⟨more, hmore⟩
    by_contra hreason
    exact hnone hreason _ ((List.take_prefix _ b).trans (List.prefix_append b more)) hmore
  · intro hreason
    have := (hhopeful hreason).1
    omega

end Encoding

namespace Source

variable {host : Host} {name encoding : String} {e : Encoding} {b : Bytes}

/-- The bytes can be decoded. -/
def Decodable (host : Host) (name encoding : String) (b : Bytes) : Prop := ∃ t, decoded host name encoding b = .ok t

theorem decoded_eq (he : Encoding.named? encoding = some e) (b : Bytes) :
    decoded host name encoding b = (e.decode b).mapError fun u => .undecodable name encoding (.fault u) := by
  cases b with
  | nil => simp [decoded, hasNul_of_named he, Encoding.decode_nil, Except.mapError]
  | cons x b => exact decoded_named he (List.cons_ne_nil x b)

theorem decodable_iff (he : Encoding.named? encoding = some e) :
    Decodable host name encoding b ↔ ∃ t, e.decode b = .ok t := by
  unfold Decodable
  rw [decoded_eq he]
  cases e.decode b <;> simp [Except.mapError]

theorem decoded_eq_error (he : Encoding.named? encoding = some e) {err : LoadError}
    (h : decoded host name encoding b = .error err) :
    ∃ cause, err = .undecodable name encoding (.fault cause) ∧ e.decode b = .error cause := by
  rw [decoded_eq he] at h
  cases hd : e.decode b with
  | ok t => rw [hd] at h; cases h
  | error cause => rw [hd] at h; cases h; exact ⟨cause, rfl, rfl⟩

/-- Decoding bytes fails at a fault from place `p` to place `q`, which the message shows. The bytes before `p` are the
    longest prefix that can be decoded, and both places are places of the bytes. In UTF-8 the bytes end too early
    exactly if further bytes complete them to what can be decoded, and then `q` is the last place. Otherwise nothing
    that starts with the bytes through the one behind `q` can be decoded. The signed UTF-8 apart, which counts places
    behind its signature, that holds for all encodings described here, on every host. -/
theorem faults_point_at_bytes (host : Host) (name encoding : String) (e : Encoding)
    (he : Encoding.named? encoding = some e) (hs : e ≠ .utf8Signed) (b : Bytes) (err : LoadError)
    (h : decoded host name encoding b = .error err) :
    ∃ cause : Undecodable, err = .undecodable name encoding (.fault cause) ∧
      let p := cause.fault.position
      let q := cause.fault.last
      let reason := cause.fault.reason.text
      err.message = "Could not decode " ++ name ++ " as " ++ encoding ++ ": " ++
        ("'" ++ cause.codec ++ "' codec can't decode " ++ places b p q ++ ": " ++ reason) ∧
      IsGreatest {n | n ≤ b.length ∧ Decodable host name encoding (b.take n)} p ∧ p ≤ q ∧ q < b.length ∧
      (e = .utf8 →
        (reason = "unexpected end of data" ↔ ∃ more, Decodable host name encoding (b ++ more)) ∧
        (reason = "unexpected end of data" → q = b.length - 1) ∧
        (reason ≠ "unexpected end of data" →
          ∀ bs, b.take (min (q + 2) b.length) <+: bs → ¬ Decodable host name encoding bs)) := by
  obtain ⟨cause, rfl, hd⟩ := decoded_eq_error he h
  have hpoints := Encoding.decode_points hs hd
  have hnonempty := hpoints.nonempty
  have hinside := hpoints.inside
  have hlast : cause.fault.last + 1 = cause.fault.position + cause.fault.bytes.length := by
    unfold DecodeFault.last
    omega
  refine ⟨cause, rfl, ?_, ?_, by omega, by omega, ?_⟩
  · exact congrArg ("Could not decode " ++ name ++ " as " ++ encoding ++ ": " ++ ·) (hpoints.message cause.codec)
  · simpa only [decodable_iff he] using hpoints.longest
  · rintro rfl
    simpa only [decodable_iff he, ne_eq, FaultReason.text_eq_iff] using Encoding.decode_hope hd

/-- On `61 E2 82`: one letter decodes, behind it a word of three has begun, and its third byte would complete it. -/
theorem faults_point_at_bytes_begun :
    let b : Bytes := [0x61, 0xE2, 0x82]
    decoded {} "f" "utf-8" b =
      .error (.undecodable "f" "utf-8" (.fault ⟨"utf-8", 1, [0xE2, 0x82], .unexpectedEnd⟩)) ∧
    IsGreatest {n | n ≤ 3 ∧ Decodable {} "f" "utf-8" (b.take n)} 1 ∧ ∃ more, Decodable {} "f" "utf-8" (b ++ more) := by
  intro b
  have hb : decoded {} "f" "utf-8" b =
      .error (.undecodable "f" "utf-8" (.fault ⟨"utf-8", 1, [0xE2, 0x82], .unexpectedEnd⟩)) := by
    decide +kernel
  obtain ⟨cause, hcause, -, hlongest, -, -, hhope⟩ :=
    faults_point_at_bytes {} "f" "utf-8" .utf8 (by decide) (by decide) b _ hb
  cases hcause
  exact ⟨hb, hlongest, (hhope rfl).1.mp rfl⟩

end Source

end Lexkit
