/-
A cursor told by its log. Whoever writes at a cursor may go on after a
failure, so a buffer can hold the first part of something whose second part did
not fit. What it holds is still simple: the pieces that have been put, in
order, and nothing else (`runAll_logs`). A call is a list of pieces that are
put one after the other until one does not fit (`Puts`), and a few calls are
refused for what they ask, before their pieces or after the first
(`Call.Allowed`).
-/
import MqttCodec.Proofs.OutputCursor
import Mathlib.Data.List.Infix

namespace MqttCodec.OutputCursor

/-! ## Calls -/

/-- What can be asked of a cursor. -/
inductive Call
  | byte (b : UInt8)
  | number (n : UInt16)
  | slice (data : Bytes)
  | field (data : Bytes)
  | fixedHeader (header : UInt8) (remaining : Nat)

namespace Call

/-- The step that a call stands for. -/
def step : Call → Put Unit
  | byte b => putByte b
  | number n => putUInt16 n
  | slice data => put data
  | field data => putField data
  | fixedHeader header remaining => putFixedHeader header remaining

/-- Whether a call asks for something that has a written form. -/
def Allowed : Call → Prop
  | field data => data.length ≤ Bytes.maxField
  | fixedHeader _ remaining => remaining ≤ RemainingLength.max
  | byte _ | number _ | slice _ => True

instance (call : Call) : Decidable call.Allowed := by
  cases call <;> unfold Allowed <;> infer_instance

/-- The pieces of a call. Of a field that is too long there is none, and of a fixed header whose
remaining length is too large there is the first byte. -/
def pieces : Call → List Bytes
  | byte b => [[b]]
  | number n => [.ofUInt16 n]
  | slice data => [data]
  | field data => if data.length ≤ Bytes.maxField then [.ofUInt16 data.length.toUInt16, data] else []
  | fixedHeader header remaining =>
    if remaining ≤ RemainingLength.max then [[header], RemainingLength.groups remaining] else [[header]]

end Call

/-- Carries out calls, one after the other, whatever becomes of them: what each of them ends with,
and the cursor afterwards. -/
def runAll (c : OutputCursor) : List Call → List (Except Error Unit) × OutputCursor
  | [] => ([], c)
  | call :: calls =>
    let (answer, c) := call.step.run c
    let (answers, c) := c.runAll calls
    (answer :: answers, c)

/-! ## Logs -/

/-- What a call adds to the pieces that have been put into a buffer of some capacity, and what it ends
with. It stops at the first of its pieces that does not fit. -/
inductive Puts (capacity : Nat) (log : List Bytes) (call : Call) :
    Except Error Unit → List Bytes → Prop
  | done : (log ++ call.pieces).flatten.length ≤ capacity → call.Allowed →
      Puts capacity log call (.ok ()) (log ++ call.pieces)
  | refused : (log ++ call.pieces).flatten.length ≤ capacity → ¬ call.Allowed →
      Puts capacity log call (.error .invalidParameter) (log ++ call.pieces)
  | full {before piece after} : call.pieces = before ++ piece :: after →
      (log ++ before).flatten.length ≤ capacity →
      capacity < (log ++ before).flatten.length + piece.length →
      Puts capacity log call (.error .bufferTooSmall) (log ++ before)

/-- What calls add to the pieces that have been put, one call after the other, and what each of them
ends with. -/
inductive Logs (capacity : Nat) :
    List Bytes → List Call → List (Except Error Unit) → List Bytes → Prop
  | nil {log} : Logs capacity log [] [] log
  | cons {log call answer log' calls answers log''} : Puts capacity log call answer log' →
      Logs capacity log' calls answers log'' →
      Logs capacity log (call :: calls) (answer :: answers) log''

/-- A cursor that has put some pieces into a buffer and has left the rest of it alone. -/
structure Follows (buffer : Bytes) (log : List Bytes) (c : OutputCursor) : Prop where
  written_eq : c.written.toList = log.flatten
  room_eq : c.room = buffer.drop log.flatten.length
  fits : log.flatten.length ≤ buffer.length

namespace Follows

variable {buffer : Bytes} {log : List Bytes} {c : OutputCursor}

theorem start (buffer : Bytes) : Follows buffer [] (start buffer) := ⟨rfl, rfl, Nat.zero_le _⟩

theorem size_eq (h : Follows buffer log c) : c.written.size = log.flatten.length := by
  rw [← h.written_eq, Array.length_toList]

theorem length_room (h : Follows buffer log c) :
    c.room.length = buffer.length - log.flatten.length := by
  rw [h.room_eq, List.length_drop]

theorem buffer_eq (h : Follows buffer log c) :
    c.buffer = log.flatten ++ buffer.drop log.flatten.length := by
  rw [OutputCursor.buffer, h.written_eq, h.room_eq]

/-- **One piece** is put whole, if it fits behind the others, or not at all. -/
theorem put_piece (h : Follows buffer log c) (piece : Bytes) :
    (∃ c', (put piece).run c = (.ok (), c') ∧ Follows buffer (log ++ [piece]) c') ∨
    (buffer.length < log.flatten.length + piece.length ∧
      (put piece).run c = (.error .bufferTooSmall, c)) := by
  have hfits := h.fits
  rw [run_put, h.length_room]
  by_cases hp : piece.length ≤ buffer.length - log.flatten.length
  · refine .inl ⟨_, if_pos hp, ?_, ?_, ?_⟩
    · simp [h.written_eq]
    · simp [h.room_eq]
    · simp only [List.flatten_append, List.length_append, List.flatten_singleton]
      omega
  · exact .inr ⟨by omega, if_neg hp⟩

/-- **Several pieces** are put up to the first that does not fit. -/
theorem put_pieces (h : Follows buffer log c) (pieces : List Bytes) :
    (∃ c', (forM pieces put).run c = (.ok (), c') ∧ Follows buffer (log ++ pieces) c') ∨
    ∃ before piece after c', pieces = before ++ piece :: after ∧
      (forM pieces put).run c = (.error .bufferTooSmall, c') ∧
      Follows buffer (log ++ before) c' ∧
      buffer.length < (log ++ before).flatten.length + piece.length := by
  induction pieces generalizing log c with
  | nil => exact .inl ⟨c, rfl, by rwa [List.append_nil]⟩
  | cons piece pieces ih =>
    rw [List.forM_cons, run_bind]
    rcases h.put_piece piece with ⟨c₁, hrun, h₁⟩ | ⟨hfull, hrun⟩
    · rw [hrun]
      rcases ih h₁ with ⟨c', hrun', h'⟩ | ⟨before, piece', after, c', hpieces, hrun', h', hfull⟩
      · exact .inl ⟨c', hrun', by simpa using h'⟩
      · refine .inr ⟨piece :: before, piece', after, c', by rw [hpieces]; rfl, hrun', ?_, ?_⟩
        · simpa using h'
        · simpa using hfull
    · rw [hrun]
      exact .inr ⟨[], piece, pieces, c, rfl, rfl, by rwa [List.append_nil],
        by rwa [List.append_nil]⟩

end Follows

theorem liftM_require (allowed : Prop) [Decidable allowed] (e : Error) :
    (liftM (require allowed e) : Put Unit) = if allowed then pure () else throw e := by
  unfold require
  split <;> rfl

theorem liftM_encode (n : Nat) :
    (liftM (RemainingLength.encode n) : Put Bytes) =
      if n ≤ RemainingLength.max then pure (RemainingLength.groups n) else throw .invalidParameter := by
  unfold RemainingLength.encode
  split <;> rfl

/-- What a call asks for is looked at before the first piece of a field, and after the first byte
of a fixed header. Either way it puts its pieces and then fails if it is not allowed. -/
theorem Call.step_eq (call : Call) :
    call.step =
      forM call.pieces put >>= fun _ => liftM (require call.Allowed .invalidParameter) := by
  rw [liftM_require]
  cases call with
  | byte b => simp [step, pieces, Allowed, putByte]
  | number n => simp [step, pieces, Allowed, putUInt16]
  | slice data => simp [step, pieces, Allowed]
  | field data =>
    by_cases h : data.length ≤ Bytes.maxField <;>
      simp [step, pieces, Allowed, putField, putUInt16, liftM_require, h]
  | fixedHeader header remaining =>
    by_cases h : remaining ≤ RemainingLength.max <;>
      simp [step, pieces, Allowed, putFixedHeader, putByte, liftM_encode, h]

namespace Follows

variable {buffer : Bytes} {log : List Bytes} {c : OutputCursor}

/-- **One call**, whether it succeeds or not. -/
theorem step (h : Follows buffer log c) (call : Call) :
    ∃ log', Puts buffer.length log call (call.step.run c).1 log' ∧
      Follows buffer log' (call.step.run c).2 := by
  rw [call.step_eq, run_bind]
  rcases h.put_pieces call.pieces with ⟨c', hrun, h'⟩ | ⟨_, _, _, c', hpieces, hrun, h', hfull⟩
  · rw [hrun]
    simp only [run_liftM]
    by_cases hallowed : call.Allowed
    · rw [require_of hallowed]
      exact ⟨_, .done h'.fits hallowed, h'⟩
    · rw [require_of_not hallowed]
      exact ⟨_, .refused h'.fits hallowed, h'⟩
  · rw [hrun]
    exact ⟨_, .full hpieces h'.fits hfull, h'⟩

/-- **A whole run.** -/
theorem run (h : Follows buffer log c) (calls : List Call) :
    ∃ log', Logs buffer.length log calls (c.runAll calls).1 log' ∧
      Follows buffer log' (c.runAll calls).2 := by
  induction calls generalizing log c with
  | nil => exact ⟨log, .nil, h⟩
  | cons call calls ih =>
    obtain ⟨_, hputs, h'⟩ := h.step call
    obtain ⟨log'', hlogs, h''⟩ := ih h'
    exact ⟨log'', .cons hputs hlogs, h''⟩

end Follows

/-- A call adds to the log and takes nothing back. -/
theorem Puts.isPrefix {capacity : Nat} {log log' : List Bytes} {call : Call}
    {answer : Except Error Unit} (h : Puts capacity log call answer log') : log <+: log' := by
  cases h <;> exact List.prefix_append _ _

theorem Logs.isPrefix {capacity : Nat} {log log' : List Bytes} {calls : List Call}
    {answers : List (Except Error Unit)} (h : Logs capacity log calls answers log') :
    log <+: log' := by
  induction h with
  | nil => exact List.prefix_rfl
  | cons hputs _ ih => exact hputs.isPrefix.trans ih

theorem runAll_append (c : OutputCursor) (calls more : List Call) :
    (c.runAll (calls ++ more)).2 = ((c.runAll calls).2.runAll more).2 := by
  induction calls generalizing c with
  | nil => rfl
  | cons call calls ih => exact ih _

/-- **What a buffer holds** after any calls, those that failed among them: the pieces that have been
put, in order, and then what it held before. Nothing that has been put is taken back, and the next
piece is put if and only if it fits in what is left. -/
theorem runAll_logs (buffer : Bytes) (calls : List Call) :
    let (answers, c) := (start buffer).runAll calls
    (∃ log, Logs buffer.length [] calls answers log ∧ c.buffer.take c.written.size = log.flatten) ∧
    c.written.size ≤ buffer.length ∧ c.buffer.length = buffer.length ∧
    c.buffer.drop c.written.size = buffer.drop c.written.size ∧
    (∀ more, c.written.size ≤ ((start buffer).runAll (calls ++ more)).2.written.size) ∧
    ∀ piece : Bytes, (put piece).run c =
      if piece.length ≤ buffer.length - c.written.size then
        (.ok (), ⟨c.written ++ piece, c.room.drop piece.length⟩)
      else (.error .bufferTooSmall, c) := by
  obtain ⟨log, hlogs, h⟩ := (Follows.start buffer).run calls
  have hsize := h.size_eq
  have hfits := h.fits
  refine ⟨⟨log, hlogs, ?_⟩, ?_, ?_, ?_, fun more => ?_, fun piece => ?_⟩
  · rw [h.buffer_eq, hsize, List.take_left]
  · rw [hsize]
    exact hfits
  · rw [h.buffer_eq, List.length_append, List.length_drop]
    omega
  · rw [h.buffer_eq, hsize, List.drop_left]
  · obtain ⟨log', hlogs', h'⟩ := h.run more
    rw [runAll_append, hsize, h'.size_eq]
    exact hlogs'.isPrefix.flatten.length_le
  · rw [run_put, h.length_room, hsize]

example :
    let (answers, c) := (start [7, 7, 7, 7]).runAll [.field [1, 2, 3], .byte 9]
    answers = [.error .bufferTooSmall, .ok ()] ∧ c.buffer = [0, 3, 9, 7] := by
  decide

end MqttCodec.OutputCursor
