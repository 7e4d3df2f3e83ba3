/-
A decoder that is fed on, whatever it answers. Nothing ever resets it, so what
it says to a byte depends on all the bytes before, also on those that ended a
length or spoiled one. Still its state is simple: a fresh decoder that was fed
some bytes is in the state of the first four of them (`feed_fresh`), one byte
takes the state of some bytes to that of the bytes with it (`push_seen_take`),
and so `feed_answers` says what it answers to any byte of any run, and that no
number it works with grows beyond 28 bits.
-/
import MqttCodec.Proofs.RemainingLength.Seen

namespace MqttCodec.RemainingLength.Decoder

/-- Feeds bytes to a decoder, one after the other: all that it answers, and the decoder
afterwards. -/
def feed (d : Decoder) : List UInt8 → List (Except Error (Option Nat)) × Decoder
  | [] => ([], d)
  | b :: bytes =>
    let (answer, d) := d.push b
    let (answers, d) := d.feed bytes
    (answer :: answers, d)

variable {d : Decoder} {bytes : List UInt8}

theorem feed_cons (d : Decoder) (b : UInt8) (bytes : List UInt8) :
    d.feed (b :: bytes) = ((d.push b).1 :: ((d.push b).2.feed bytes).1, ((d.push b).2.feed bytes).2) :=
  rfl

theorem feed_append (d : Decoder) (bytes more : List UInt8) :
    d.feed (bytes ++ more) =
      ((d.feed bytes).1 ++ ((d.feed bytes).2.feed more).1, ((d.feed bytes).2.feed more).2) := by
  induction bytes generalizing d with
  | nil => rfl
  | cons b bytes ih => simp only [List.cons_append, feed_cons, ih]

@[simp] theorem length_feed (d : Decoder) (bytes : List UInt8) :
    (d.feed bytes).1.length = bytes.length := by
  induction bytes generalizing d with
  | nil => rfl
  | cons b bytes ih => simp only [feed_cons, List.length_cons, ih]

/-- The answer to a byte is that of the decoder which the bytes before it have left. -/
theorem getElem?_feed (d : Decoder) (before : List UInt8) (b : UInt8) (rest : List UInt8) :
    (d.feed (before ++ b :: rest)).1[before.length]? = some ((d.feed before).2.push b).1 := by
  rw [feed_append, feed_cons, List.getElem?_append_right (by simp)]
  simp

/-! ## One more byte -/

/-- A decoder that has counted all the bytes a length can have takes no other. -/
theorem push_of_full (h : maxBytes ≤ d.count) (b : UInt8) : d.push b = (.error .malformedPacket, d) :=
  if_pos h

theorem count_seen_take (bytes : List UInt8) :
    (seen (bytes.take maxBytes)).count = min bytes.length maxBytes := by
  rw [count_seen, List.length_take, Nat.min_comm]

/-- A decoder moves on from the first four bytes before to the first four bytes with the next. -/
theorem push_seen_take (bytes : List UInt8) (b : UInt8) :
    ((seen (bytes.take maxBytes)).push b).2 = seen ((bytes ++ [b]).take maxBytes) := by
  by_cases h : bytes.length < maxBytes
  · have hnext : (bytes ++ [b]).length ≤ maxBytes := by simpa [Nat.succ_le_iff] using h
    rw [List.take_of_length_le (Nat.le_of_lt h), push_seen h, List.take_of_length_le hnext]
  · have hfull : maxBytes ≤ bytes.length := Nat.not_lt.1 h
    have hcount : maxBytes ≤ (seen (bytes.take maxBytes)).count := by
      rw [count_seen_take]
      omega
    rw [push_of_full hcount, List.take_append_of_le_length hfull]

/-- **What a fresh decoder has become** after any bytes. -/
theorem feed_fresh (bytes : List UInt8) :
    (({} : Decoder).feed bytes).2 = seen (bytes.take maxBytes) := by
  induction bytes using List.reverseRecOn with
  | nil => rfl
  | append_singleton bytes b ih =>
    rw [feed_append]
    change ((({} : Decoder).feed bytes).2.push b).2 = _
    rw [ih, push_seen_take]

/-- What the next byte is answered, whatever came before. -/
theorem answer_push_seen_take (before : List UInt8) (b : UInt8) :
    let answer := ((seen (before.take maxBytes)).push b).1
    (answer = .ok none ↔ 128 ≤ b ∧ before.length + 1 < maxBytes) ∧
    (∀ n, answer = .ok (some n) ↔ before.length < maxBytes ∧ b < 128 ∧ (before = [] ∨ b ≠ 0) ∧
      n = groupSum (before ++ [b])) ∧
    ∀ e, answer = .error e → e = .malformedPacket := by
  by_cases h : before.length < maxBytes
  case neg =>
    have hcount : maxBytes ≤ (seen (before.take maxBytes)).count := by
      rw [count_seen_take]
      omega
    have hnext : ¬ before.length + 1 < maxBytes := by omega
    simp [push_of_full hcount, h, hnext]
  rw [List.take_of_length_le (Nat.le_of_lt h), push_seen h]
  by_cases hb : 128 ≤ b
  · have hnot : ¬ b < 128 := UInt8.not_lt.2 hb
    by_cases hlast : before.length + 1 = maxBytes
    · simp [hb, hnot, hlast]
    · have hnext : before.length + 1 < maxBytes := by omega
      simp [hb, hnot, hlast, hnext]
  · have hlt : b < 128 := UInt8.not_le.1 hb
    by_cases hends : before = [] ∨ b ≠ 0
    · simp only [if_neg hb, if_pos hends]
      simp [hb, hlt, hends, h, eq_comm]
    · simp only [if_neg hb, if_neg hends]
      simp [hb, hends]

/-! ## Any run -/

/-- **Every answer of a decoder that is fed on.** Whatever came before, it has counted the bytes
up to the fourth, its next group has the weight of the count and its value is below that. It
asks for more after each of the first three bytes that says so, and finds the length of all bytes so
far with each of the first four that ends one and adds to it. Any other byte is malformed, never
the caller's mistake, and a fifth one leaves no trace. No number on the way exceeds 2 ^ 28. -/
theorem feed_answers {fresh : Decoder} (hfresh : fresh = {} ∨ fresh = default)
    (before : List UInt8) (b : UInt8) (rest : List UInt8) :
    let d := (fresh.feed before).2
    d.count = min before.length maxBytes ∧ d.multiplier = 128 ^ min before.length maxBytes ∧
    d.value < 128 ^ min before.length maxBytes ∧
    (∃ answer, (fresh.feed (before ++ b :: rest)).1[before.length]? = some answer ∧
      (answer = .ok none ↔ 128 ≤ b ∧ before.length + 1 < maxBytes) ∧
      (∀ n, answer = .ok (some n) ↔ before.length < maxBytes ∧ b < 128 ∧ (before = [] ∨ b ≠ 0) ∧
        n = groupSum (before ++ [b])) ∧
      ∀ e, answer = .error e → e = .malformedPacket) ∧
    (maxBytes ≤ before.length → d.push b = (.error .malformedPacket, d)) ∧
    (before.length < maxBytes →
      d.value + b.toNat % 128 * d.multiplier < 2 ^ 28 ∧ d.multiplier * 128 ≤ 2 ^ 28) := by
  obtain rfl : fresh = {} := hfresh.elim id id
  have hseen := feed_fresh before
  have hcount := count_seen_take before
  have hconsistent := consistent_seen (before.take maxBytes)
  rw [← hseen] at hcount hconsistent
  refine ⟨hcount, hcount ▸ hconsistent.multiplier_eq, ?_, ⟨_, getElem?_feed _ _ _ _, ?_⟩, ?_, ?_⟩
  · rw [← hcount, ← hconsistent.multiplier_eq]
    exact hconsistent.value_lt
  · rw [hseen]
    exact answer_push_seen_take before b
  · intro hfull
    exact push_of_full (by omega) b
  · intro hroom
    -- the sum and the next weight are those of the decoder after this byte
    have hnext := hconsistent.advance b
    have hle : 128 ^ (((({} : Decoder).feed before).2.advance b).count) ≤ 128 ^ maxBytes :=
      Nat.pow_le_pow_right (by decide) (by simp only [advance]; omega)
    have hvalue := hnext.value_lt
    have hweight := hnext.multiplier_eq
    simp only [maxBytes] at hle
    exact ⟨by simp only [advance] at *; omega, by simp only [advance] at *; omega⟩

/-- A decoder that has found a length goes on from it, over a padded one too, until it is full. -/
theorem feed_answers_afterwards :
    (feed default [5, 0x80, 0, 7, 1]).1[3]? = some (.ok (some (5 + 7 * 128 ^ 3))) ∧
    (feed default [5, 0x80, 0, 7]).2.push 1 =
      (.error .malformedPacket, (feed default [5, 0x80, 0, 7]).2) := by
  obtain ⟨-, -, -, ⟨answer, hanswer, -, hfound, -⟩, -⟩ :=
    feed_answers (.inr rfl) [5, 0x80, 0] 7 [1]
  obtain ⟨-, -, -, -, hfull, -⟩ := feed_answers (.inr rfl) [5, 0x80, 0, 7] 1 []
  have hvalue : answer = .ok (some (5 + 7 * 128 ^ 3)) :=
    (hfound _).2 ⟨by decide, by decide, .inr (by decide), by decide⟩
  exact ⟨hvalue ▸ hanswer, hfull (by decide)⟩

end MqttCodec.RemainingLength.Decoder
