/-
Only written lengths are read. A decoder that ends a length has read what
writing that length gives, and nothing that comes after it (`groups_of_run`).
So a byte string holds a length exactly if it begins with a written one
(`decode_eq_ok_iff`), and is malformed otherwise (`decode_eq_error_iff`).
-/
import MqttCodec.Proofs.RemainingLength

namespace MqttCodec.RemainingLength

/-! ## Groups -/

/-- A byte that says another one follows, in front of the groups of what follows. A number with
no more groups would not be continued. -/
theorem groups_cons {b : UInt8} (hb : 128 ≤ b) {n : Nat} (hn : n ≠ 0) :
    groups (b.toNat % 128 + 128 * n) = b :: groups n := by
  have hb : 128 ≤ b.toNat := UInt8.le_iff_toNat_le.1 hb
  have hlt : b.toNat < 256 := b.toNat_lt
  have hbyte : (128 + (b.toNat % 128 + 128 * n) % 128).toUInt8 = b := by
    have hsum : 128 + (b.toNat % 128 + 128 * n) % 128 = b.toNat := by omega
    rw [hsum]
    exact UInt8.ofNat_toNat
  have hrest : (b.toNat % 128 + 128 * n) / 128 = n := by omega
  rw [groups_of_le (by omega), hbyte, hrest]

theorem lt_pow_length_groups (n : Nat) : n < 128 ^ (groups n).length := by
  induction n using groups.induct with
  | case1 n hn => simpa [groups_of_lt hn] using hn
  | case2 n hn ih =>
    rw [groups_of_le (Nat.not_lt.1 hn), List.length_cons, Nat.pow_succ]
    omega

theorem length_groups_le_iff {n : Nat} : (groups n).length ≤ maxBytes ↔ n ≤ max := by
  constructor
  · intro h
    have hlt := lt_pow_length_groups n
    have hle : 128 ^ (groups n).length ≤ 128 ^ maxBytes := Nat.pow_le_pow_right (by decide) h
    simp only [maxBytes, max] at hle ⊢
    omega
  · exact length_groups_le

/-! ## What a decoder has read -/

namespace Decoder

variable {d d' : Decoder} {b : UInt8} {e : Error} {n k : Nat} {bytes : List UInt8}

theorem error_of_push (h : d.Consistent) (hpush : d.push b = (.error e, d')) :
    e = .malformedPacket := by
  by_cases hc : d.count < maxBytes
  · rw [push_eq h hc] at hpush
    have he := (Prod.mk.inj hpush).1
    split at he
    · split at he
      · cases he; rfl
      · cases he
    · split at he
      · cases he
      · cases he; rfl
  · rw [push, if_pos (Nat.not_lt.1 hc)] at hpush
    cases hpush
    rfl

/-- A byte that asks for another one is refused only in the last place. -/
theorem full_of_push_error (h : d.Consistent) (hc : d.count < maxBytes)
    (hpush : d.push b = (.error e, d')) (hb : 128 ≤ b) : d.count + 1 = maxBytes := by
  rw [push_eq h hc, if_pos hb] at hpush
  by_cases hfull : d.count + 1 = maxBytes
  · exact hfull
  · rw [if_neg hfull] at hpush
    cases hpush

theorem last_of_push (h : d.Consistent) (hpush : d.push b = (.ok (some n), d')) :
    d.count < maxBytes ∧ b < 128 ∧ (d.count = 0 ∨ b ≠ 0) ∧ n = (d.advance b).value := by
  have hc : d.count < maxBytes := by
    apply Classical.byContradiction
    intro hc
    rw [push, if_pos (Nat.not_lt.1 hc)] at hpush
    cases hpush
  rw [push_eq h hc] at hpush
  have hlast := (Prod.mk.inj hpush).1
  split at hlast
  · split at hlast <;> cases hlast
  · rename_i hb
    split at hlast
    · rename_i hm
      cases hlast
      exact ⟨hc, UInt8.not_le.1 hb, hm, rfl⟩
    · cases hlast

theorem more_of_push (h : d.Consistent) (hpush : d.push b = (.ok none, d')) :
    128 ≤ b ∧ d.count + 1 < maxBytes ∧ d' = d.advance b := by
  have hc := (count_of_push_none hpush).2
  have hadvance := eq_advance_of_push_ok hpush
  rw [push_eq h hc] at hpush
  have hmore := (Prod.mk.inj hpush).1
  split at hmore
  · rename_i hb
    split at hmore
    · cases hmore
    · exact ⟨hb, by omega, hadvance⟩
  · split at hmore <;> cases hmore

/-- **What ends a length is a written length**, at the weight it was read at. Unless it stands
alone it is not 0, since no groups follow without adding to the number. -/
theorem groups_of_run (h : d.Consistent) (hrun : d.run bytes = .ok (n, k)) :
    ∃ m rest, bytes = groups m ++ rest ∧ (d.count = 0 ∨ m ≠ 0) ∧
      n = d.value + m * d.multiplier ∧ k = d.count + (groups m).length ∧ k ≤ maxBytes := by
  induction bytes generalizing d with
  | nil => cases hrun
  | cons b bytes ih =>
    rw [run] at hrun
    split at hrun
    case h_1 => cases hrun
    case h_2 hpush =>
      cases hrun
      obtain ⟨hc, hb, hm, rfl⟩ := last_of_push h hpush
      have hb : b.toNat < 128 := UInt8.lt_iff_toNat_lt.1 hb
      refine ⟨b.toNat, bytes, ?_, hm.imp_right ?_, ?_, ?_, ?_⟩
      · rw [groups_of_lt hb, List.singleton_append]
        exact congrArg (· :: bytes) UInt8.ofNat_toNat.symm
      · exact fun hne h0 => hne (UInt8.toNat_inj.1 h0)
      · rw [Decoder.advance, Nat.mod_eq_of_lt hb]
      · rw [eq_advance_of_push_ok hpush, groups_of_lt hb]
        rfl
      · rw [eq_advance_of_push_ok hpush]
        exact hc
    case h_3 hpush =>
      obtain ⟨hb, -, rfl⟩ := more_of_push h hpush
      obtain ⟨m, rest, rfl, hm, rfl, rfl, hk⟩ := ih (h.advance b) hrun
      have hm : m ≠ 0 := hm.resolve_left (Nat.succ_ne_zero d.count)
      refine ⟨b.toNat % 128 + 128 * m, rest, ?_, .inr (by omega), ?_, ?_, hk⟩
      · rw [groups_cons hb hm, List.cons_append]
      · simp only [Decoder.advance]
        ring
      · rw [groups_cons hb hm, List.length_cons]
        simp only [Decoder.advance]
        omega

theorem error_of_run (h : d.Consistent) (hrun : d.run bytes = .error e) : e = .malformedPacket := by
  induction bytes generalizing d with
  | nil => cases hrun; rfl
  | cons b bytes ih =>
    rw [run] at hrun
    split at hrun
    case h_1 hpush => cases hrun; exact error_of_push h hpush
    case h_2 => cases hrun
    case h_3 hpush =>
      obtain ⟨-, -, rfl⟩ := more_of_push h hpush
      exact ih (h.advance b) hrun

/-- A decoder looks at no more bytes than a length can have. -/
theorem run_take (hc : d.count ≤ maxBytes) (bytes : List UInt8) :
    d.run (bytes.take (maxBytes - d.count)) = d.run bytes := by
  induction bytes generalizing d with
  | nil => rw [List.take_nil]
  | cons b bytes ih =>
    by_cases hfull : maxBytes ≤ d.count
    · rw [Nat.sub_eq_zero_of_le hfull, List.take_zero, run, run, push, if_pos hfull]
    · have hroom : maxBytes - d.count = maxBytes - (d.count + 1) + 1 := by omega
      rw [hroom, List.take_succ_cons, run, run]
      split
      · rfl
      · rfl
      · rename_i hpush
        have hcount := (count_of_push_none hpush).1
        rw [← hcount]
        exact ih (by omega)

end Decoder

/-- How many bytes a reader that may take so many of them takes for a length: those up to the first
that asks for no more. -/
def span (most : Nat) (bytes : List UInt8) : Nat :=
  min most (min bytes.length (bytes.findIdx (· < 128) + 1))

theorem span_cons (most : Nat) (b : UInt8) (bytes : List UInt8) :
    span (most + 1) (b :: bytes) = if b < 128 then 1 else span most bytes + 1 := by
  by_cases hb : b < 128
  · simp [span, hb, List.findIdx_cons]
  · simp [span, hb, List.findIdx_cons, Nat.add_min_add_right]

/-! ## Written lengths at the front of a byte string -/

variable {bytes : List UInt8} {n k : Nat} {e : Error}

theorem run_eq_ok_iff :
    ({} : Decoder).run bytes = .ok (n, k) ↔
      n ≤ max ∧ groups n <+: bytes ∧ k = (groups n).length := by
  constructor
  · intro hrun
    obtain ⟨m, rest, rfl, -, rfl, rfl, hk⟩ := Decoder.groups_of_run .empty hrun
    simp only [Nat.zero_add, Nat.mul_one] at hk ⊢
    exact ⟨length_groups_le_iff.1 hk, List.prefix_append _ _, trivial⟩
  · rintro ⟨hn, ⟨rest, rfl⟩, rfl⟩
    exact run_groups_append hn rest

theorem run_eq_error_iff :
    ({} : Decoder).run bytes = .error e ↔
      e = .malformedPacket ∧ ∀ n ≤ max, ¬ groups n <+: bytes := by
  constructor
  · intro hrun
    refine ⟨Decoder.error_of_run .empty hrun, fun n hn hfront => ?_⟩
    rw [run_eq_ok_iff.2 ⟨hn, hfront, rfl⟩] at hrun
    cases hrun
  · rintro ⟨rfl, hnone⟩
    rcases hrun : ({} : Decoder).run bytes with e | ⟨n, k⟩
    · rw [Decoder.error_of_run .empty hrun]
    · obtain ⟨hn, hfront, -⟩ := run_eq_ok_iff.1 hrun
      exact absurd hfront (hnone n hn)

theorem decode_eq_run (bytes : List UInt8) : decode bytes = ({} : Decoder).run bytes :=
  Decoder.run_take (Nat.zero_le _) bytes

theorem encode_eq_ok_iff {piece : List UInt8} :
    encode n = .ok piece ↔ n ≤ max ∧ piece = groups n := by
  unfold encode
  split
  · rename_i hn
    simp only [Except.ok.injEq, hn, true_and, eq_comm]
  · rename_i hn
    simp only [reduceCtorEq, hn, false_and]

/-- What is read is what was written, as far as it was read. -/
theorem decode_eq_ok_iff :
    decode bytes = .ok (n, k) ↔ n ≤ max ∧ k ≤ bytes.length ∧ encode n = .ok (bytes.take k) := by
  rw [decode_eq_run, run_eq_ok_iff, encode_eq_ok_iff]
  constructor
  · rintro ⟨hn, hfront, rfl⟩
    exact ⟨hn, hfront.length_le, hn, (List.prefix_iff_eq_take.1 hfront).symm⟩
  · rintro ⟨hn, hk, -, htake⟩
    have hlength : k = (groups n).length := by rw [← htake, List.length_take, Nat.min_eq_left hk]
    exact ⟨hn, ⟨bytes.drop k, htake ▸ List.take_append_drop k bytes⟩, hlength⟩

theorem decode_eq_error_iff :
    decode bytes = .error e ↔
      e = .malformedPacket ∧ ¬ ∃ n piece, encode n = .ok piece ∧ piece <+: bytes := by
  rw [decode_eq_run, run_eq_error_iff]
  refine and_congr_right fun _ => ?_
  constructor
  · rintro hnone ⟨n, piece, hencode, hfront⟩
    obtain ⟨hn, rfl⟩ := encode_eq_ok_iff.1 hencode
    exact hnone n hn hfront
  · exact fun hnone n hn hfront => hnone ⟨n, _, encode_of_le hn, hfront⟩

/-- **Writing and reading lengths are inverse to each other.** The lengths up to `max`, and no
others, have a size and a written form of that size, from whose front they are read back
whatever follows. A length is read from a byte string exactly if it begins with the written form,
and where no length was written there is nothing but a malformed packet. -/
theorem decode_inverse :
    (∀ n,
      (n ≤ max ∧ ∃ bytes, encode n = .ok bytes ∧ encodedSize n = .ok bytes.length ∧
        1 ≤ bytes.length ∧ bytes.length ≤ maxBytes ∧
        ∀ rest, decode (bytes ++ rest) = .ok (n, bytes.length)) ∨
      (max < n ∧ encode n = .error .invalidParameter ∧ encodedSize n = .error .invalidParameter)) ∧
    (∀ bytes n k, decode bytes = .ok (n, k) ↔
      n ≤ max ∧ k ≤ bytes.length ∧ encode n = .ok (bytes.take k)) ∧
    ∀ bytes e, decode bytes = .error e ↔
      e = .malformedPacket ∧ ¬ ∃ n piece, encode n = .ok piece ∧ piece <+: bytes := by
  refine ⟨fun n => ?_, fun bytes n k => decode_eq_ok_iff, fun bytes e => decode_eq_error_iff⟩
  rcases Nat.lt_or_ge max n with hn | hn
  · exact .inr ⟨hn, if_neg (Nat.not_le.2 hn), encodedSize_of_gt hn⟩
  · refine .inl ⟨hn, groups n, encode_of_le hn, encodedSize_eq hn, length_groups_pos n,
      length_groups_le hn, fun rest => ?_⟩
    rw [decode_eq_run, run_groups_append hn]

end MqttCodec.RemainingLength
