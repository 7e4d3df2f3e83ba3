/-
Remaining lengths, written and read. The facts here tie the three views of
a length together: its range (`encodedSize`), its groups (`groups`) and the
decoder that takes one byte at a time.

`Decoder.push_eq` says what a byte does to a decoder whose state adds up;
`Decoder.run_groups` that a decoder which reads a written length has read
all of it and nothing else, whatever comes after. That a written length
tells where it ends (`groups_append_inj`) follows from reading it.
-/
import MqttCodec.RemainingLength
import Mathlib.Tactic.Ring

namespace MqttCodec.RemainingLength

/-! ## Groups -/

theorem groups_of_lt {n : Nat} (h : n < 128) : groups n = [n.toUInt8] := by
  rw [groups, if_pos h]

theorem groups_of_le {n : Nat} (h : 128 ≤ n) :
    groups n = (128 + n % 128).toUInt8 :: groups (n / 128) := by
  rw [groups, if_neg (by omega)]

theorem length_groups_pos (n : Nat) : 1 ≤ (groups n).length := by
  rw [groups]; split <;> simp

/-- The number of groups is the number of base-128 digits, of which 0 has one. -/
theorem length_groups_eq_iff {k n : Nat} (h : n < 128 ^ (k + 1)) :
    (groups n).length = k + 1 ↔ k = 0 ∨ 128 ^ k ≤ n := by
  induction k generalizing n with
  | zero => simp [groups_of_lt (by simpa using h)]
  | succ k ih =>
    have hp : 128 ≤ 128 ^ (k + 1) := by
      have := Nat.one_le_two_pow (n := 7 * k)
      rw [Nat.pow_mul] at this
      omega
    by_cases hn : n < 128
    · simp only [groups_of_lt hn, List.length_singleton]
      omega
    · have hd : n / 128 < 128 ^ (k + 1) := by rw [Nat.div_lt_iff_lt_mul (by decide)]; omega
      rw [groups_of_le (by omega), List.length_cons, Nat.add_right_cancel_iff, ih hd]
      have hq : 128 ^ k ≤ n / 128 ↔ 128 ^ (k + 1) ≤ n := by
        rw [Nat.le_div_iff_mul_le (by decide), Nat.pow_succ]
      constructor
      · rintro (rfl | hk)
        · exact .inr (by omega)
        · exact .inr (hq.1 hk)
      · rintro (hk | hk)
        · omega
        · exact .inr (hq.2 hk)

/-- A length that can be written takes as many bytes as it has groups. -/
theorem encodedSize_eq {n : Nat} (h : n ≤ max) : encodedSize n = .ok (groups n).length := by
  have digits {k : Nat} (hk : n < 128 ^ (k + 1)) (hn : k = 0 ∨ 128 ^ k ≤ n) :
      Except.ok (k + 1) = (Except.ok (groups n).length : Except Error Nat) := by
    rw [(length_groups_eq_iff hk).2 hn]
  simp only [max] at h
  unfold encodedSize
  split
  · exact digits (k := 0) (by omega) (.inl rfl)
  split
  · exact digits (k := 1) (by omega) (.inr (by omega))
  split
  · exact digits (k := 2) (by omega) (.inr (by omega))
  split
  · exact digits (k := 3) (by omega) (.inr (by omega))
  · rename_i hmax
    exact absurd h hmax

theorem encodedSize_of_gt {n : Nat} (h : max < n) : encodedSize n = .error .invalidParameter := by
  have hn : 268435455 < n := h
  rw [encodedSize, if_neg (by omega), if_neg (by omega), if_neg (by omega), if_neg (Nat.not_le.2 h)]

theorem encode_of_le {n : Nat} (h : n ≤ max) : encode n = .ok (groups n) := if_pos h

theorem length_groups_le {n : Nat} (h : n ≤ max) : (groups n).length ≤ maxBytes := by
  have hs := encodedSize_eq h
  unfold encodedSize at hs
  repeat' split at hs
  all_goals
    simp only [Except.ok.injEq] at hs
    simp [← hs, maxBytes]

theorem encodedSize_le {n size : Nat} (h : encodedSize n = .ok size) : n ≤ max ∧ size ≤ maxBytes := by
  by_cases hmax : n ≤ max
  · rw [encodedSize_eq hmax] at h
    cases h
    exact ⟨hmax, length_groups_le hmax⟩
  · rw [encodedSize_of_gt (Nat.not_le.1 hmax)] at h
    cases h

/-! ## The decoder -/

namespace Decoder

/-- The state of a decoder adds up: its weight is that of the next group, and the groups so far
stay below it. -/
structure Consistent (d : Decoder) : Prop where
  multiplier_eq : d.multiplier = 128 ^ d.count
  value_lt : d.value < d.multiplier

theorem Consistent.empty : ({} : Decoder).Consistent := ⟨rfl, Nat.zero_lt_one⟩

theorem Consistent.advance {d : Decoder} (h : d.Consistent) (b : UInt8) :
    (d.advance b).Consistent where
  multiplier_eq := by simp only [Decoder.advance, h.multiplier_eq, Nat.pow_succ]
  value_lt := by
    have hb : b.toNat % 128 * d.multiplier ≤ 127 * d.multiplier :=
      Nat.mul_le_mul_right _ (by omega)
    have hv := h.value_lt
    simp only [Decoder.advance]
    omega

/-- The length a decoder would end at this byte is written in as few bytes as it can be exactly
if the byte adds to it. A lone byte may be 0. -/
theorem length_groups_advance {d : Decoder} (h : d.Consistent) {b : UInt8} (hb : b < 128) :
    (groups (d.advance b).value).length = d.count + 1 ↔ d.count = 0 ∨ b ≠ 0 := by
  have ha := h.advance b
  have hlt : (d.advance b).value < 128 ^ (d.count + 1) := ha.multiplier_eq ▸ ha.value_lt
  rw [length_groups_eq_iff hlt]
  have hv := h.value_lt
  rw [h.multiplier_eq] at hv
  refine or_congr_right ?_
  simp only [Decoder.advance, h.multiplier_eq]
  by_cases hz : b = 0
  · subst hz
    simp only [UInt8.toNat_zero, Nat.zero_mod, Nat.zero_mul, Nat.add_zero, ne_eq, not_true, iff_false]
    omega
  · have hpos : 1 ≤ b.toNat % 128 := by
      have h0 : b.toNat ≠ 0 := fun h0 => hz (UInt8.toNat_inj.1 h0)
      have := UInt8.lt_iff_toNat_lt.1 hb
      simp only [UInt8.reduceToNat] at this
      omega
    have := Nat.mul_le_mul_right (128 ^ d.count) hpos
    simp only [ne_eq, hz, not_false_eq_true, iff_true]
    omega

/-- **What one byte does**, as long as there is room for it: it is always counted, and the length
ends unless the byte says that another one follows. -/
theorem push_eq {d : Decoder} (h : d.Consistent) (hc : d.count < maxBytes) (b : UInt8) :
    d.push b =
      (if 128 ≤ b then
        if d.count + 1 = maxBytes then .error .malformedPacket else .ok none
      else if d.count = 0 ∨ b ≠ 0 then .ok (some (d.advance b).value)
      else .error .malformedPacket, d.advance b) := by
  have ha := h.advance b
  have hmax : (d.advance b).value ≤ max := by
    have hle : 128 ^ (d.count + 1) ≤ 128 ^ maxBytes := Nat.pow_le_pow_right (by decide) hc
    have hlt := ha.multiplier_eq ▸ ha.value_lt
    simp only [Decoder.advance, maxBytes, max] at hle hlt ⊢
    omega
  rw [push, if_neg (by omega)]
  by_cases hb : 128 ≤ b
  · simp only [if_pos hb]
    rfl
  · simp only [if_neg hb, encodedSize_eq hmax]
    have hg := length_groups_advance h (UInt8.not_le.1 hb)
    have hcount : (d.advance b).count = d.count + 1 := rfl
    by_cases hm : d.count = 0 ∨ b ≠ 0
    · rw [if_pos hm, hcount, if_pos (hg.2 hm)]
    · rw [if_neg hm, hcount, if_neg (fun he => hm (hg.1 he))]

/-- A byte that ends a length. -/
theorem push_last {d : Decoder} (h : d.Consistent) (hc : d.count < maxBytes) {b : UInt8}
    (hb : b < 128) (hm : d.count = 0 ∨ b ≠ 0) :
    d.push b = (.ok (some (d.advance b).value), d.advance b) := by
  rw [push_eq h hc, if_neg (UInt8.not_le.2 hb), if_pos hm]

/-- A byte after which another is due. -/
theorem push_more {d : Decoder} (h : d.Consistent) (hc : d.count + 1 < maxBytes) {b : UInt8}
    (hb : 128 ≤ b) : d.push b = (.ok none, d.advance b) := by
  rw [push_eq h (by omega), if_pos hb, if_neg (by omega)]

theorem eq_advance_of_push_ok {d d' : Decoder} {b : UInt8} {r : Option Nat}
    (h : d.push b = (.ok r, d')) : d' = d.advance b := by
  unfold push at h
  split at h
  · cases h
  dsimp only at h
  split at h
  · exact (Prod.mk.inj h).2.symm
  · split at h
    · cases h
    · exact (Prod.mk.inj h).2.symm

/-- No length is empty. -/
theorem count_lt_of_run {d : Decoder} {bytes : List UInt8} {n k : Nat}
    (h : d.run bytes = .ok (n, k)) : d.count < k := by
  induction bytes generalizing d with
  | nil => cases h
  | cons b bytes ih =>
    rw [run] at h
    split at h
    · cases h
    · rename_i hpush
      cases h
      rw [eq_advance_of_push_ok hpush]
      exact Nat.lt_succ_self _
    · rename_i hpush
      have hlt := ih h
      rw [eq_advance_of_push_ok hpush] at hlt
      exact Nat.lt_of_succ_lt hlt

/-- **A written length is read back** from any place where a length may go on: the decoder adds it
at its weight and has then seen all its bytes. -/
theorem run_groups {d : Decoder} (h : d.Consistent) {n : Nat}
    (hfit : d.count + (groups n).length ≤ maxBytes) (hmin : d.count = 0 ∨ n ≠ 0) (rest : List UInt8) :
    d.run (groups n ++ rest) = .ok (d.value + n * d.multiplier, d.count + (groups n).length) := by
  induction n using groups.induct generalizing d with
  | case1 n hn =>
    rw [groups_of_lt hn] at hfit ⊢
    have hb : n.toUInt8.toNat = n := by simp; omega
    have hpush := push_last h (b := n.toUInt8) (by simpa [Nat.succ_le_iff] using hfit)
      (by rw [UInt8.lt_iff_toNat_lt, hb]; exact hn)
      (hmin.imp_right fun h0 he => h0 (by rw [← hb, he]; rfl))
    simp only [List.singleton_append, run, hpush]
    simp only [Decoder.advance, hb, Nat.mod_eq_of_lt hn]
    rfl
  | case2 n hn ih =>
    have hn : 128 ≤ n := by omega
    rw [groups_of_le hn] at hfit ⊢
    simp only [List.length_cons] at hfit ⊢
    have hpos := length_groups_pos (n / 128)
    have hb : (128 + n % 128).toUInt8.toNat = 128 + n % 128 := by simp; omega
    have hpush := push_more h (b := (128 + n % 128).toUInt8) (by omega)
      (by rw [UInt8.le_iff_toNat_le, hb]; exact Nat.le_add_right ..)
    simp only [List.cons_append, run, hpush]
    rw [ih (h.advance _) (by simp only [Decoder.advance]; omega) (.inr (by omega))]
    simp only [Decoder.advance, hb, Except.ok.injEq, Prod.mk.injEq]
    refine ⟨?_, by omega⟩
    -- the low group and the rest make up the number
    have hmod : (128 + n % 128) % 128 = n % 128 := by omega
    have hsplit := Nat.mod_add_div n 128
    calc d.value + (128 + n % 128) % 128 * d.multiplier + n / 128 * (d.multiplier * 128)
        = d.value + (n % 128 + 128 * (n / 128)) * d.multiplier := by rw [hmod]; ring
      _ = d.value + n * d.multiplier := by rw [hsplit]

end Decoder

/-- A length is read from the front of its written form. -/
theorem run_groups_append {n : Nat} (h : n ≤ max) (rest : List UInt8) :
    ({} : Decoder).run (groups n ++ rest) = .ok (n, (groups n).length) := by
  have hfit : ({} : Decoder).count + (groups n).length ≤ maxBytes := by
    simpa using length_groups_le h
  rw [Decoder.run_groups .empty hfit (.inl rfl)]
  simp

/-- **Written lengths tell where they end**: no two of them begin alike, whatever follows. -/
theorem groups_append_inj {m n : Nat} (hm : m ≤ max) (hn : n ≤ max) {x y : List UInt8}
    (h : groups m ++ x = groups n ++ y) : m = n ∧ x = y := by
  have he := run_groups_append hm x
  rw [h, run_groups_append hn y] at he
  obtain ⟨rfl, -⟩ : n = m ∧ _ := by simpa using he
  exact ⟨rfl, List.append_cancel_left h⟩

end MqttCodec.RemainingLength
