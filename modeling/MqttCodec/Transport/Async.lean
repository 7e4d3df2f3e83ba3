/-
Computations that make their caller wait. A computation of this kind is
suspended some number of times, and then its value is there. Waiting it out
turns a transport that suspends its reader into one that answers at once.
-/
import MqttCodec.Transport

namespace MqttCodec

/-- A value, after some number of suspensions. -/
inductive Async (α : Type) : Type
  | ready (a : α)
  | suspended (later : Async α)
  deriving Repr

namespace Async

/-- The value, once all suspensions are over. -/
def wait {α : Type} : Async α → α
  | ready a => a
  | suspended later => later.wait

/-- Goes on with a value as soon as it is there. -/
def andThen {α β : Type} (f : α → Async β) : Async α → Async β
  | ready a => f a
  | suspended later => suspended (later.andThen f)

instance : Monad Async where
  pure := ready
  bind x f := x.andThen f

@[simp] theorem wait_bind {α β : Type} (x : Async α) (f : α → Async β) :
    (x >>= f).wait = (f x.wait).wait := by
  induction x with
  | ready a => rfl
  | suspended later ih => exact ih

end Async

namespace Transport

/-- The transport that waits out every read of another. -/
def blocking {σ ε : Type} (t : Transport (StateT σ Async) ε) : Transport (StateM σ) ε where
  read buffer := fun s => ((t.read buffer).run s).wait

/-- The transport that suspends its reader once before each read of another. -/
def deferred {σ ε : Type} (t : Transport (StateM σ) ε) : Transport (StateT σ Async) ε where
  read buffer := fun s => .suspended (.ready ((t.read buffer).run s))

end Transport

end MqttCodec
