/-
The read that decides. The reader of a fixed header learns from each read that
nothing came in, that the transport failed, or a byte (`Arrival`). What it
answers is stated here by those arrivals alone, apart from the machine that
reads: `Awaits` says that a first byte and some bytes of a length have come in
and that another is due, and `Decides` that the answer is settled by so many
reads. Some read always decides (`exists_decides`), and on any transport the
machine stops right after it (`run_of_decides`). `Script.run_receive_decides`
says it for scripts, which show every behaviour of a transport.
-/
import MqttCodec.Proofs.Frame
import MqttCodec.Proofs.RemainingLength.Seen
import MqttCodec.Transport.Script

namespace MqttCodec

/-- What a one-byte read brings. -/
inductive Arrival
  | nothing
  | failure
  | byte (b : UInt8)
  deriving DecidableEq, Repr

/-- What the outcome of a one-byte read means to the reader. -/
def ReadOutcome.arrival {ε : Type} (out : ReadOutcome ε) : Arrival :=
  match out.result with
  | .error _ => .failure
  | .ok 0 => .nothing
  | .ok (_ + 1) => .byte (out.buffer.headD 0)

namespace Framing

section Reads

variable {ε : Type} {out : ReadOutcome ε} {onNothing : Error}

theorem byteRead_eq (onNothing : Error) (out : ReadOutcome ε) :
    byteRead onNothing out =
      match out.arrival with
      | .nothing => .error onNothing
      | .failure => .error .receiveFailed
      | .byte b => .ok b := by
  obtain ⟨_ | n, buffer⟩ := out
  · rfl
  · cases n <;> rfl

theorem byteRead_of_nothing (h : out.arrival = .nothing) :
    byteRead onNothing out = .error onNothing := by
  rw [byteRead_eq, h]

theorem byteRead_of_failure (h : out.arrival = .failure) :
    byteRead onNothing out = .error .receiveFailed := by
  rw [byteRead_eq, h]

theorem byteRead_of_byte {b : UInt8} (h : out.arrival = .byte b) : byteRead onNothing out = .ok b := by
  rw [byteRead_eq, h]

end Reads

/-! ## Which read decides -/

/-- A first byte and these bytes of a length have arrived, and another byte of it is due. -/
inductive Awaits (arrivals : Nat → Arrival) (header : UInt8) : List UInt8 → Prop
  | header : arrivals 0 = .byte header → (PacketKind.ofHeader? header).isSome →
      Awaits arrivals header []
  | more {bytes b} : Awaits arrivals header bytes → bytes.length + 1 < RemainingLength.maxBytes →
      arrivals (bytes.length + 1) = .byte b → 128 ≤ b → Awaits arrivals header (bytes ++ [b])

/-- So many reads settle the answer, and no fewer. -/
inductive Decides (arrivals : Nat → Arrival) : Nat → Except Error Frame → Prop
  | noData : arrivals 0 = .nothing → Decides arrivals 1 (.error .noDataAvailable)
  | headerFailure : arrivals 0 = .failure → Decides arrivals 1 (.error .receiveFailed)
  | foreign {b} : arrivals 0 = .byte b → PacketKind.ofHeader? b = none →
      Decides arrivals 1 (.error .malformedPacket)
  | cutOff {header bytes} : Awaits arrivals header bytes →
      arrivals (bytes.length + 1) = .nothing →
      Decides arrivals (bytes.length + 2) (.error .malformedPacket)
  | lengthFailure {header bytes} : Awaits arrivals header bytes →
      arrivals (bytes.length + 1) = .failure →
      Decides arrivals (bytes.length + 2) (.error .receiveFailed)
  | tooLong {header bytes b} : Awaits arrivals header bytes →
      bytes.length + 1 = RemainingLength.maxBytes →
      arrivals (bytes.length + 1) = .byte b → 128 ≤ b →
      Decides arrivals (bytes.length + 2) (.error .malformedPacket)
  | padded {header bytes} : Awaits arrivals header bytes → bytes ≠ [] →
      arrivals (bytes.length + 1) = .byte 0 →
      Decides arrivals (bytes.length + 2) (.error .malformedPacket)
  | complete {header bytes b} : Awaits arrivals header bytes →
      arrivals (bytes.length + 1) = .byte b → b < 128 → bytes = [] ∨ b ≠ 0 →
      Decides arrivals (bytes.length + 2)
        (.ok { header, length := RemainingLength.groupSum (bytes ++ [b]) })

variable {arrivals : Nat → Arrival} {header b : UInt8} {bytes : List UInt8} {k : Nat}
  {result : Except Error Frame}

theorem Awaits.length_lt (h : Awaits arrivals header bytes) :
    bytes.length < RemainingLength.maxBytes := by
  cases h with
  | header => decide
  | more _ hlength => simpa using hlength

theorem exists_decides_of_awaits (h : Awaits arrivals header bytes) :
    ∃ k result, Decides arrivals k result := by
  -- each byte that leaves the length open brings it closer to its last one
  induction hleft : RemainingLength.maxBytes - bytes.length generalizing bytes with
  | zero =>
    have := h.length_lt
    omega
  | succ left ih =>
    cases harrival : arrivals (bytes.length + 1) with
    | nothing => exact ⟨_, _, .cutOff h harrival⟩
    | failure => exact ⟨_, _, .lengthFailure h harrival⟩
    | byte b =>
      by_cases hb : 128 ≤ b
      · by_cases hlast : bytes.length + 1 = RemainingLength.maxBytes
        · exact ⟨_, _, .tooLong h hlast harrival hb⟩
        · have hmore := h.more (by have := h.length_lt; omega) harrival hb
          exact ih hmore (by simp; omega)
      · by_cases hfinal : bytes = [] ∨ b ≠ 0
        · exact ⟨_, _, .complete h harrival (UInt8.not_le.1 hb) hfinal⟩
        · simp only [not_or, not_not] at hfinal
          exact ⟨_, _, .padded h hfinal.1 (hfinal.2 ▸ harrival)⟩

/-- Some read decides. -/
theorem exists_decides (arrivals : Nat → Arrival) : ∃ k result, Decides arrivals k result := by
  cases harrival : arrivals 0 with
  | nothing => exact ⟨_, _, .noData harrival⟩
  | failure => exact ⟨_, _, .headerFailure harrival⟩
  | byte header =>
    cases hkind : PacketKind.ofHeader? header with
    | none => exact ⟨_, _, .foreign harrival hkind⟩
    | some kind => exact exists_decides_of_awaits (.header harrival (by simp [hkind]))

theorem Decides.bounds (h : Decides arrivals k result) : 1 ≤ k ∧ k ≤ RemainingLength.maxBytes + 1 := by
  cases h with
  | noData | headerFailure | foreign => decide
  | cutOff h | lengthFailure h | tooLong h | padded h | complete h =>
    have := h.length_lt
    omega

/-- The frame that is found has no data yet, and every read but the first brought in a byte of its
length. -/
theorem Decides.of_ok {f : Frame} (h : Decides arrivals k (.ok f)) :
    f.data = [] ∧ RemainingLength.encodedSize f.length = .ok (k - 1) := by
  cases h with
  | complete h _ hb hfinal =>
    exact ⟨rfl, RemainingLength.Decoder.encodedSize_groupSum h.length_lt hb hfinal⟩

theorem Decides.of_noData (h : Decides arrivals k (.error .noDataAvailable)) :
    k = 1 ∧ arrivals 0 = .nothing := by
  cases h with
  | noData h => exact ⟨rfl, h⟩

theorem Decides.error_mem {e : Error} (h : Decides arrivals k (.error e)) :
    e ∈ [Error.noDataAvailable, .receiveFailed, .malformedPacket] := by
  cases h <;> decide

end Framing

/-! ## The machine -/

namespace Transport

variable {σ ε : Type}

/-- The state of a transport after a number of one-byte reads. -/
def after (t : Transport (StateM σ) ε) (s : σ) : Nat → σ
  | 0 => s
  | n + 1 => ((t.read [0]).run (t.after s n)).2

/-- What the one-byte reads of a transport bring, one after the other. -/
def arrivals (t : Transport (StateM σ) ε) (s : σ) (n : Nat) : Arrival :=
  ((t.read [0]).run (t.after s n)).1.arrival

end Transport

namespace Framing

variable {σ ε : Type} {t : Transport (StateM σ) ε} {s : σ} {k : Nat} {header b : UInt8}
  {bytes : List UInt8} {result : Except Error Frame}

open RemainingLength (Decoder)

/-- The machine takes the next read. -/
theorem run_after (m : Framing) (n : Nat) :
    (m.run t).run (t.after s n) =
      match m.step ((t.read [0]).run (t.after s n)).1 with
      | .error e => (.error e, t.after s (n + 1))
      | .ok (.done f) => (.ok f, t.after s (n + 1))
      | .ok (.more next) => (next.run t).run (t.after s (n + 1)) :=
  run_run t m (t.after s n)

/-- While another byte of the length is due, the machine is where the bytes so far take it. -/
theorem run_of_awaits (h : Awaits (t.arrivals s) header bytes) :
    (Frame.receive t).run s =
      ((atLength header (Decoder.seen bytes)).run t).run (t.after s (bytes.length + 1)) := by
  induction h with
  | header harrival hheader =>
    refine (run_after atHeader 0).trans ?_
    rw [step_header (byteRead_of_byte harrival) hheader]
    rfl
  | @more bytes b _ hlength harrival hb ih =>
    have hpush := Decoder.push_seen (Nat.lt_of_succ_lt hlength) b
    rw [if_pos hb, if_neg (Nat.ne_of_lt hlength)] at hpush
    rw [ih, run_after, step_length (byteRead_of_byte harrival) hpush, List.length_append,
      List.length_singleton]

/-- **The machine stops at the read that decides**, and not before. -/
theorem run_of_decides (h : Decides (t.arrivals s) k result) :
    (Frame.receive t).run s = (result, t.after s k) := by
  cases h with
  | noData harrival =>
    refine (run_after atHeader 0).trans ?_
    rw [step, byteRead_of_nothing harrival]
    rfl
  | headerFailure harrival =>
    refine (run_after atHeader 0).trans ?_
    rw [step, byteRead_of_failure harrival]
    rfl
  | foreign harrival hnone =>
    refine (run_after atHeader 0).trans ?_
    rw [step_foreign (byteRead_of_byte harrival) hnone]
  | cutOff h harrival =>
    rw [run_of_awaits h, run_after, step_nothing (byteRead_of_nothing harrival)]
  | lengthFailure h harrival =>
    rw [run_of_awaits h, run_after, step_nothing (byteRead_of_failure harrival)]
  | @tooLong header bytes b h hlast harrival hb =>
    have hpush := Decoder.push_seen h.length_lt b
    rw [if_pos hb, if_pos hlast] at hpush
    rw [run_of_awaits h, run_after, step_error (byteRead_of_byte harrival) hpush]
  | padded h hne harrival =>
    have hpush := Decoder.push_seen h.length_lt 0
    rw [if_neg (by decide), if_neg (by simp [hne])] at hpush
    rw [run_of_awaits h, run_after, step_error (byteRead_of_byte harrival) hpush]
  | @complete header bytes b h harrival hb hfinal =>
    have hpush := Decoder.push_seen h.length_lt b
    rw [if_neg (UInt8.not_le.2 hb), if_pos hfinal] at hpush
    rw [run_of_awaits h, run_after, step_last (byteRead_of_byte harrival) hpush]

end Framing

/-! ## Scripts -/

/-- What a read of a script brings, into a one-byte buffer that held 0. -/
def ScriptedRead.arrival (r : ScriptedRead) : Arrival :=
  if r.returned = 0 then .nothing
  else if r.returned < 0 then .failure
  else .byte (r.stored.getD 0)

namespace Script

open Framing

/-- What the reads of a script bring. Nothing comes in after the last one. -/
def arrivals (s : Script) (i : Nat) : Arrival := (s.reads[i]?).elim .nothing (·.arrival)

/-- A script with some more of its reads made. -/
def advance (s : Script) (k : Nat) : Script := { reads := s.reads.drop k, made := s.made + k }

theorem fill_zero (r : ScriptedRead) : r.fill [0] = [r.stored.getD 0] := by
  cases h : r.stored <;> simp [ScriptedRead.fill, h]

theorem read_eq (s : Script) :
    ((transport.read [0]).run s).1.arrival = s.arrivals 0 ∧ ((transport.read [0]).run s).2 = s.advance 1 := by
  obtain ⟨_ | ⟨r, reads⟩, made⟩ := s
  · exact ⟨rfl, rfl⟩
  · refine ⟨?_, rfl⟩
    have hread : ((transport.read [0]).run ⟨r :: reads, made⟩).1 =
        ⟨if r.returned < 0 then .error ⟨r.returned⟩ else .ok r.returned.toNat, r.fill [0]⟩ := rfl
    rw [hread]
    change _ = r.arrival
    unfold ScriptedRead.arrival
    by_cases hneg : r.returned < 0
    · have hzero : r.returned ≠ 0 := by omega
      simp [ReadOutcome.arrival, hneg, hzero]
    · by_cases hzero : r.returned = 0
      · simp [ReadOutcome.arrival, hzero]
      · obtain ⟨n, hn⟩ : ∃ n, r.returned.toNat = n + 1 := ⟨r.returned.toNat - 1, by omega⟩
        simp [ReadOutcome.arrival, hneg, hzero, hn, fill_zero]

/-- A transport that takes the reads of a script one by one has made as many as were asked of it. -/
theorem after_of_read {ε : Type} {t : Transport (StateM Script) ε}
    (hread : ∀ s, ((t.read [0]).run s).2 = s.advance 1) (s : Script) (k : Nat) :
    t.after s k = s.advance k := by
  induction k with
  | zero => rfl
  | succ k ih =>
    rw [Transport.after, ih, hread]
    simp [advance, Nat.add_assoc]

theorem after_eq (s : Script) (k : Nat) : transport.after s k = s.advance k :=
  after_of_read (fun s => (read_eq s).2) s k

theorem arrivals_eq (s : Script) : transport.arrivals s = s.arrivals := by
  funext i
  rw [Transport.arrivals, after_eq, (read_eq _).1]
  simp [arrivals, advance]

theorem run_receive_of_decides {s : Script} {k : Nat} {result : Except Error Frame}
    (h : Decides s.arrivals k result) : (Frame.receive transport).run s = (result, s.advance k) := by
  rw [← arrivals_eq] at h
  rw [run_of_decides h, after_eq]

/-- **What a reader of fixed headers does on any script.** One number of reads decides, and
one answer goes with it: the reader makes as many reads as that and leaves the others alone. There
are five at most. Data is called missing only if the only read brought none, and a frame that is
found has no data yet and was read in one byte more than its length is written in. -/
theorem run_receive_decides (s : Script) :
    ∃ k result, (Frame.receive transport).run s = (result, s.advance k) ∧
      Decides s.arrivals k result ∧
      (∀ k' result', Decides s.arrivals k' result' → k' = k ∧ result' = result) ∧
      1 ≤ k ∧ k ≤ 5 ∧
      (∀ f, result = .ok f → f.data = [] ∧ RemainingLength.encodedSize f.length = .ok (k - 1)) ∧
      (result = .error .noDataAvailable → k = 1 ∧ s.arrivals 0 = .nothing) ∧
      ∀ e, result = .error e → e ∈ [Error.noDataAvailable, .receiveFailed, .malformedPacket] := by
  obtain ⟨k, result, h⟩ := exists_decides s.arrivals
  have hrun := run_receive_of_decides h
  refine ⟨k, result, hrun, h, ?_, h.bounds.1, h.bounds.2, ?_, ?_, ?_⟩
  · intro k' result' h'
    have hsame := (run_receive_of_decides h').symm.trans hrun
    obtain ⟨hresult, hscript⟩ := Prod.mk.inj hsame
    have hmade : s.made + k' = s.made + k := congrArg Script.made hscript
    exact ⟨by omega, hresult⟩
  · intro f hf
    subst hf
    exact h.of_ok
  · intro hresult
    subst hresult
    exact h.of_noData
  · intro e he
    subst he
    exact h.error_mem

/-- A transport that says it stored more than a byte is believed, and what comes after the header is
left to the next reader. -/
theorem run_receive_decides_overstated :
    let s : Script := { reads := [.ofByte 0x32, ⟨7, some 0x80⟩, .ofByte 2, .ofByte 9] }
    (Frame.receive transport).run s =
      (.ok { header := 0x32, length := 256 }, { reads := [.ofByte 9], made := 3 }) := by
  intro s
  have hheader : Awaits s.arrivals 0x32 [] := .header rfl rfl
  have hawaits : Awaits s.arrivals 0x32 [0x80] := hheader.more (by decide) rfl (by decide)
  have hdecides : Decides s.arrivals 3 (.ok { header := 0x32, length := 256 }) :=
    .complete (b := 2) hawaits rfl (by decide) (.inr (by decide))
  obtain ⟨k, result, hrun, -, hunique, -⟩ := run_receive_decides s
  obtain ⟨rfl, rfl⟩ := hunique 3 _ hdecides
  exact hrun

end Script

end MqttCodec
