/-
Steps that may be refused: what follows a step that succeeded, what follows a
check, and where a refusal comes from.
-/
import MqttCodec.Error

namespace MqttCodec

variable {α β : Type}

theorem ok_bind (a : α) (next : α → Except Error β) : (Except.ok a >>= next) = next a := rfl

theorem require_bind {c : Prop} [Decidable c] {e : Error} (next : Unit → Except Error α) :
    (require c e >>= next) = if c then next () else .error e := by
  unfold require
  split <;> rfl

theorem bind_eq_ok_iff {x : Except Error α} {next : α → Except Error β} {b : β} :
    (x >>= next) = .ok b ↔ ∃ a, x = .ok a ∧ next a = .ok b := by
  cases x with
  | error e => exact ⟨nofun, fun ⟨_, h, _⟩ => nomatch h⟩
  | ok a => exact ⟨fun h => ⟨a, rfl, h⟩, fun ⟨_, rfl, h⟩ => h⟩

theorem map_eq_ok_iff {x : Except Error α} {f : α → β} {b : β} :
    x.map f = .ok b ↔ ∃ a, x = .ok a ∧ f a = b := by
  cases x with
  | error e => exact ⟨nofun, fun ⟨_, h, _⟩ => nomatch h⟩
  | ok a => exact ⟨fun h => ⟨a, rfl, Except.ok.inj h⟩, fun ⟨_, rfl, h⟩ => congrArg Except.ok h⟩

theorem require_eq_ok_iff {c : Prop} [Decidable c] {e : Error} {u : Unit} :
    require c e = .ok u ↔ c := by
  unfold require
  split
  · exact ⟨fun _ => ‹c›, fun _ => rfl⟩
  · exact ⟨nofun, fun h => absurd h ‹¬ c›⟩

theorem mapError_eq_ok_iff {x : Except Error α} {f : Error → Error} {a : α} :
    x.mapError f = .ok a ↔ x = .ok a := by
  cases x with
  | error e => exact ⟨nofun, nofun⟩
  | ok b => exact Iff.rfl

/-- Whether a step is refused for one reason only, if at all. -/
def FailsOnlyWith (e : Error) (x : Except Error α) : Prop := ∀ e', x = .error e' → e' = e

namespace FailsOnlyWith

variable {e : Error} {x : Except Error α}

theorem ok (a : α) : FailsOnlyWith e (.ok a) := nofun

theorem error : FailsOnlyWith e (.error e : Except Error α) := fun _ h => (Except.error.inj h).symm

theorem require (c : Prop) [Decidable c] : FailsOnlyWith e (require c e) := by
  unfold MqttCodec.require
  split
  · exact ok ()
  · exact error

theorem mapError : FailsOnlyWith e (x.mapError fun _ => e) := by
  cases x with
  | error _ => exact error
  | ok a => exact ok a

theorem map (f : α → β) (h : FailsOnlyWith e x) : FailsOnlyWith e (x.map f) := by
  cases x with
  | error e' => exact fun _ he => h _ (Except.error.inj he ▸ rfl)
  | ok a => exact ok (f a)

theorem bind {next : α → Except Error β} (h : FailsOnlyWith e x)
    (hnext : ∀ a, FailsOnlyWith e (next a)) : FailsOnlyWith e (x >>= next) := by
  cases x with
  | error e' => exact fun _ he => h _ (Except.error.inj he ▸ rfl)
  | ok a => exact hnext a

/-- A check that is refused for the reason a step is refused for can be made after it. -/
theorem require_bind_comm {c : Prop} [Decidable c] (h : FailsOnlyWith e x)
    (next : α → Except Error β) :
    (MqttCodec.require c e >>= fun _ => x >>= next) =
      x >>= fun a => MqttCodec.require c e >>= fun _ => next a := by
  simp only [require_bind]
  cases x with
  | error e' =>
    obtain rfl := h e' rfl
    exact ite_self _
  | ok a => rfl

/-- A step that does not succeed has failed. -/
theorem eq_error (h : FailsOnlyWith e x) (hx : ¬ ∃ a, x = .ok a) : x = .error e := by
  cases x with
  | error e' => rw [h e' rfl]
  | ok a => exact absurd ⟨a, rfl⟩ hx

end FailsOnlyWith

end MqttCodec
