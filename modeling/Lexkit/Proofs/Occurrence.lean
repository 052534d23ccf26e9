/-
  Lexkit.Proofs.Occurrence — where a word first stands in a text. `indexOf?` tries every index in turn;
  the piece through the first closer (`throughCloser?_eq_take`) ends there.
-/

import Lexkit.Text.Comment

namespace Lexkit

/-- The first index at which `w` stands in `t`. -/
def Text.indexOf? (w t : Text) : Option Nat := (List.range t.length).find? fun i => w.isPrefixOf (t.drop i)

namespace Text

theorem indexOf?_cons (w : Text) (c : Char) (t : Text) :
    indexOf? w (c :: t) = if w.isPrefixOf (c :: t) then some 0 else (indexOf? w t).map (· + 1) := by
  unfold indexOf?
  rw [List.length_cons, List.range_succ_eq_map, List.find?_cons]
  cases h : w.isPrefixOf (c :: t) with
  | true => simp [h]
  | false =>
    simp only [List.drop_zero, h, List.find?_map, Bool.false_eq_true, if_false]
    rfl

/-- The index found is one where the word stands, and it stands at none before. -/
theorem indexOf?_eq_some {w t : Text} {k : Nat} :
    indexOf? w t = some k ↔ k < t.length ∧ w <+: t.drop k ∧ ∀ j < k, ¬ w <+: t.drop j := by
  simp only [indexOf?, List.find?_range_eq_some, List.mem_range, List.isPrefixOf_iff_prefix, Bool.not_eq_true',
    Bool.eq_false_iff, ne_eq]
  exact ⟨fun ⟨a, b, c⟩ => ⟨b, a, c⟩, fun ⟨a, b, c⟩ => ⟨b, a, c⟩⟩

theorem indexOf?_fits {w t : Text} {k : Nat} (h : indexOf? w t = some k) : k + w.length ≤ t.length := by
  obtain ⟨hk, hw, -⟩ := indexOf?_eq_some.mp h
  have := hw.length_le
  rw [List.length_drop] at this
  omega

/-- A piece free of `d` and the `d` behind it. -/
theorem through?_append {d : Char} {v : Text} (h : d ∉ v) (t : Text) : through? d (v ++ d :: t) = some (v ++ [d]) := by
  induction v with
  | nil => simp [through?]
  | cons c v ih =>
    have hc : c ≠ d := fun e => h (e ▸ List.mem_cons_self)
    have hv : d ∉ v := fun m => h (List.mem_cons_of_mem c m)
    rw [List.cons_append, through?, if_neg hc, ih hv]
    rfl

/-- What a piece through `d` is: all before the first `d`, and that `d`. -/
theorem eq_of_through? {d : Char} {t span : Text} (h : through? d t = some span) :
    ∃ v rest, t = v ++ d :: rest ∧ span = v ++ [d] ∧ d ∉ v := by
  induction t generalizing span with
  | nil => cases h
  | cons c t ih =>
    rw [through?] at h
    by_cases hc : c = d
    · rw [if_pos hc] at h
      cases h
      exact ⟨[], t, by rw [hc]; rfl, by rw [hc]; rfl, List.not_mem_nil⟩
    · rw [if_neg hc] at h
      obtain ⟨tail, ht, rfl⟩ := Option.map_eq_some_iff.mp h
      obtain ⟨v, rest, rfl, rfl, hv⟩ := ih ht
      exact ⟨c :: v, rest, rfl, rfl, by simp [hv, Ne.symm hc]⟩

end Text

namespace Comment

/-- The piece through the first closer is cut off right after the index where a closer first stands. -/
theorem throughCloser?_eq_take (t : Text) :
    throughCloser? t = (Text.indexOf? closer t).map fun k => t.take (k + closer.length) := by
  induction t with
  | nil => rfl
  | cons c t ih =>
    rw [throughCloser?, Text.indexOf?_cons, ih]
    by_cases h : closer.isPrefixOf (c :: t) = true
    · have hp : closer = (c :: t).take closer.length :=
        List.prefix_iff_eq_take.mp (List.isPrefixOf_iff_prefix.mp h)
      rw [if_pos h, if_pos h, Option.map_some, Nat.zero_add, ← hp]
    · rw [if_neg h, if_neg h, Option.map_map, Option.map_map]
      rfl

end Comment

end Lexkit
