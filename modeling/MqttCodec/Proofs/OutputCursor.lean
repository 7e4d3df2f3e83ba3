/-
What steps write. `Writes step a bytes` says that a step, wherever its bytes
fit, puts exactly these bytes, succeeds with `a` and leaves the rest of the
room as it was. The law of each step follows from those of its parts, so
whoever composes a packet need not look at the buffer.
-/
import MqttCodec.OutputCursor
import MqttCodec.Proofs.RemainingLength

namespace MqttCodec.OutputCursor

/-- Wherever its bytes fit, a step writes them and succeeds with a value. -/
def Writes {α : Type} (step : Put α) (a : α) (bytes : Bytes) : Prop :=
  ∀ c : OutputCursor, bytes.length ≤ c.room.length →
    step.run c = (.ok a, ⟨c.written ++ bytes, c.room.drop bytes.length⟩)

variable {α β : Type}

theorem Writes.pure (a : α) : Writes (pure a : Put α) a [] := by
  intro c _
  change (Except.ok a, c) = _
  simp

theorem Writes.bind {step : Put α} {next : α → Put β} {a : α} {b : β} {xs ys : Bytes}
    (hstep : Writes step a xs) (hnext : Writes (next a) b ys) :
    Writes (step >>= next) b (xs ++ ys) := by
  intro c h
  rw [List.length_append] at h
  rw [run_bind, hstep c (by omega)]
  change (next a).run _ = _
  rw [hnext _ (by simp only [List.length_drop]; omega)]
  have hw : c.written ++ xs ++ ys = c.written ++ (xs ++ ys) := Array.ext' (by simp)
  simp only [hw, List.drop_drop, List.length_append]

theorem Writes.andThen {step : Put Unit} {next : Put β} {b : β} {xs ys : Bytes}
    (hstep : Writes step () xs) (hnext : Writes next b ys) :
    Writes (step >>= fun _ => next) b (xs ++ ys) := hstep.bind hnext

/-- A check that succeeds writes nothing. -/
theorem Writes.liftM {check : Except Error α} {a : α} (h : check = .ok a) :
    Writes (liftM check : Put α) a [] := by
  intro c _
  rw [run_liftM, h]
  simp

/-- Some parts of a packet are there only if a flag says so. -/
theorem Writes.ite {c : Prop} [Decidable c] {step : Put Unit} {bytes : Bytes}
    (h : c → Writes step () bytes) :
    Writes (if c then step else Pure.pure ()) () (if c then bytes else []) := by
  by_cases hc : c
  · rw [if_pos hc, if_pos hc]
    exact h hc
  · rw [if_neg hc, if_neg hc]
    exact Writes.pure ()

theorem Writes.forM_option {step : α → Put Unit} {bytes : α → Bytes} (o : Option α)
    (h : ∀ a ∈ o, Writes (step a) () (bytes a)) : Writes (forM o step) () (o.elim [] bytes) := by
  cases o with
  | none => exact Writes.pure ()
  | some a => exact h a rfl

theorem Writes.forM_list {step : α → Put Unit} {bytes : α → Bytes} (l : List α)
    (h : ∀ a ∈ l, Writes (step a) () (bytes a)) : Writes (forM l step) () (l.flatMap bytes) := by
  induction l with
  | nil => exact Writes.pure ()
  | cons a l ih =>
    rw [List.forM_cons, List.flatMap_cons]
    exact (h a List.mem_cons_self).bind (ih fun b hb => h b (List.mem_cons_of_mem a hb))

/-! ## The steps -/

theorem writes_put (piece : Bytes) : Writes (put piece) () piece := by
  intro c h
  rw [run_put, if_pos h]

theorem writes_putByte (b : UInt8) : Writes (putByte b) () [b] := writes_put [b]

theorem writes_putUInt16 (n : UInt16) : Writes (putUInt16 n) () (.ofUInt16 n) :=
  writes_put (.ofUInt16 n)

theorem writes_putField {data : Bytes} (h : data.length ≤ Bytes.maxField) :
    Writes (putField data) () (.field data) :=
  (Writes.liftM (require_of h)).andThen ((writes_putUInt16 _).andThen (writes_put data))

theorem writes_putFixedHeader (header : UInt8) {n : Nat} (h : n ≤ RemainingLength.max) :
    Writes (putFixedHeader header n) () (header :: RemainingLength.groups n) :=
  (writes_putByte header).bind
    ((Writes.liftM (RemainingLength.encode_of_le h)).bind (writes_put _))

end MqttCodec.OutputCursor
