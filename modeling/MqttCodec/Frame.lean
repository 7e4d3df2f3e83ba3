/-
Frames: a packet's first byte, the number of bytes after its fixed header,
and those bytes, which may be fetched later.

`Framing` is the reading of a fixed header as a machine that takes the
outcome of one read at a time. `Frame.receive` runs it on a transport, one
byte a read, and so never asks for a byte beyond the header, nor reads more
than five times. `Frame.receiveAsync` runs it where every read may have to be
waited for.
-/
import MqttCodec.PacketKind
import MqttCodec.RemainingLength
import MqttCodec.Transport.Async

namespace MqttCodec

/-- A packet as it is received. The data need not be as long as the frame says. -/
structure Frame where
  header : UInt8
  /-- The number of bytes after the fixed header. -/
  length : Nat
  data : Bytes := []
  deriving DecidableEq, Repr

namespace Frame

/-- The kind the first byte announces, if it is a first byte. -/
def kind? (f : Frame) : Option PacketKind := PacketKind.ofHeader? f.header

/-- The bytes after the fixed header, without any that follow the packet. -/
def contents (f : Frame) : Except Error Bytes :=
  if f.length ≤ f.data.length then .ok (f.data.take f.length) else .error .invalidParameter

end Frame

/-- How far the reading of a fixed header has come. -/
inductive Framing
  | atHeader
  | atLength (header : UInt8) (d : RemainingLength.Decoder)
  deriving DecidableEq, Repr

namespace Framing

/-- What one more read makes of a fixed header. -/
inductive Step
  | done (f : Frame)
  | more (next : Framing)
  deriving DecidableEq, Repr

variable {ε : Type}

/-- The byte a one-byte read brought in. `onNothing` is why it fails when there was none. -/
def byteRead (onNothing : Error) (out : ReadOutcome ε) : Except Error UInt8 :=
  match out.result with
  | .error _ => .error .receiveFailed
  | .ok 0 => .error onNothing
  | .ok (_ + 1) => .ok (out.buffer.headD 0)

/-- Takes the outcome of a one-byte read. It is all right if nothing has come in before a packet's
first byte, but no packet may end within its fixed header. -/
def step (s : Framing) (out : ReadOutcome ε) : Except Error Step :=
  match s with
  | atHeader => do
    let header ← byteRead .noDataAvailable out
    require (PacketKind.ofHeader? header).isSome .malformedPacket
    return .more (.atLength header {})
  | atLength header d => do
    match d.push (← byteRead .malformedPacket out) with
    | (.error e, _) => throw e
    | (.ok (some length), _) => return .done { header, length }
    | (.ok none, d) => return .more (.atLength header d)

/-- The most reads that can be needed yet. -/
def readsLeft : Framing → Nat
  | atHeader => RemainingLength.maxBytes + 1
  | atLength _ d => RemainingLength.maxBytes - d.count

theorem readsLeft_of_step {s next : Framing} {out : ReadOutcome ε}
    (h : s.step out = .ok (.more next)) : next.readsLeft < s.readsLeft := by
  cases s with
  | atHeader =>
    simp only [step, bind, Except.bind] at h
    split at h
    · cases h
    · split at h
      · cases h
      · cases h; simp [readsLeft]
  | atLength header d =>
    simp only [step, bind, Except.bind] at h
    split at h
    · cases h
    · split at h
      · cases h
      · cases h
      · rename_i hd
        cases h
        have := RemainingLength.Decoder.count_of_push_none hd
        simp only [readsLeft]
        omega

/-- Reads on, a byte at a time, until the fixed header is complete. -/
def run {m : Type → Type} [Monad m] (t : Transport m ε) (s : Framing) : m (Except Error Frame) := do
  match h : s.step (← t.read [0]) with
  | .error e => return .error e
  | .ok (.done f) => return .ok f
  | .ok (.more next) =>
    have := readsLeft_of_step h
    next.run t
termination_by s.readsLeft

theorem run_eq {m : Type → Type} [Monad m] (t : Transport m ε) (s : Framing) :
    s.run t = t.read [0] >>= fun out =>
      match s.step out with
      | .error e => pure (.error e)
      | .ok (.done f) => pure (.ok f)
      | .ok (.more next) => next.run t := by
  rw [run]
  congr 1
  funext out
  split <;> simp_all

/-- On a transport that answers at once, the machine takes one read after the other. -/
theorem run_run {σ : Type} (t : Transport (StateM σ) ε) (s : Framing) (state : σ) :
    (s.run t).run state =
      match s.step ((t.read [0]).run state).1 with
      | .error e => (.error e, ((t.read [0]).run state).2)
      | .ok (.done f) => (.ok f, ((t.read [0]).run state).2)
      | .ok (.more next) => (next.run t).run ((t.read [0]).run state).2 := by
  rw [run_eq]
  change (fun p : ReadOutcome ε × σ => (match s.step p.1 with
    | .error e => (pure (.error e) : StateM σ (Except Error Frame))
    | .ok (.done f) => pure (.ok f)
    | .ok (.more next) => next.run t).run p.2) ((t.read [0]).run state) = _
  generalize (t.read [0]).run state = p
  dsimp only
  split <;> simp_all <;> rfl

end Framing

/-- Takes the fixed header of the next packet from a transport. The frame has no data yet. -/
def Frame.receive {m : Type → Type} [Monad m] {ε : Type} (t : Transport m ε) :
    m (Except Error Frame) :=
  Framing.run t .atHeader

/-- Takes the fixed header of the next packet from a transport that makes its reader wait, and is
suspended whenever a read is. -/
def Frame.receiveAsync {σ ε : Type} (t : Transport (StateT σ Async) ε) :
    StateT σ Async (Except Error Frame) :=
  Framing.run t .atHeader

end MqttCodec
