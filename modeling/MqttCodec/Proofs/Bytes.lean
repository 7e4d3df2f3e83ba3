/-
Written forms that tell where they end. Whoever knows how a number, a field
or a text is written can tell it from whatever comes after it, and so each
part of a packet from the next. The readers know: each takes a written form
from the front of its input, and takes nothing else.
-/
import MqttCodec.Bytes
import MqttCodec.Proofs.Error

namespace MqttCodec.Bytes

/-! ## Readers -/

section Readers

variable {data rest : Bytes}

theorem takeUInt16_eq_ok_iff {n : UInt16} :
    takeUInt16 data = .ok (n, rest) ↔ data = ofUInt16 n ++ rest := by
  constructor
  · intro h
    match data with
    | [] | [_] => cases h
    | hi :: lo :: tail =>
      cases h
      have hhi : hi.toNat < 256 := hi.toNat_lt
      have hlo : lo.toNat < 256 := lo.toNat_lt
      have hsum : (256 * hi.toNat + lo.toNat).toUInt16.toNat = 256 * hi.toNat + lo.toNat := by
        simp
        omega
      have hdiv : (256 * hi.toNat + lo.toNat) / 256 = hi.toNat := by omega
      have hmod : (256 * hi.toNat + lo.toNat) % 256 = lo.toNat := by omega
      rw [ofUInt16, hsum, hdiv, hmod]
      simp
  · rintro rfl
    exact takeUInt16_ofUInt16 n rest

/-- Two bytes are a number. -/
theorem exists_ofUInt16_append (h : 2 ≤ data.length) : ∃ n rest, data = ofUInt16 n ++ rest := by
  match data, h with
  | hi :: lo :: rest, _ => exact ⟨_, rest, takeUInt16_eq_ok_iff.1 rfl⟩

theorem exists_ofUInt16 (h : data.length = 2) : ∃ n, data = ofUInt16 n := by
  obtain ⟨n, rest, rfl⟩ := exists_ofUInt16_append (Nat.le_of_eq h.symm)
  rw [List.length_append, length_ofUInt16] at h
  have hrest : rest = [] := List.length_eq_zero_iff.1 (by omega)
  exact ⟨n, by rw [hrest, List.append_nil]⟩

theorem takeUInt16_failsOnlyWith : FailsOnlyWith .malformedPacket (takeUInt16 data) := by
  unfold takeUInt16
  split
  · exact .ok _
  · exact .error

theorem takeExactly_eq_ok_iff {n : Nat} {piece : Bytes} :
    takeExactly n data = .ok (piece, rest) ↔ data = piece ++ rest ∧ piece.length = n := by
  constructor
  · intro h
    unfold takeExactly at h
    split at h
    · rename_i hn
      cases h
      exact ⟨(List.take_append_drop n data).symm, List.length_take_of_le hn⟩
    · cases h
  · rintro ⟨rfl, rfl⟩
    exact takeExactly_append piece rest

theorem takeExactly_failsOnlyWith {n : Nat} : FailsOnlyWith .malformedPacket (takeExactly n data) := by
  unfold takeExactly
  split
  · exact .ok _
  · exact .error

theorem toText?_eq_some_iff {s : String} : toText? data = some s ↔ data = ofString s := by
  constructor
  · intro h
    unfold toText? String.fromUTF8? at h
    split at h
    · cases h
      rfl
    · cases h
  · rintro rfl
    exact toText?_ofString s

end Readers

/-! ## Written forms -/

theorem ofUInt16_append_inj {m n : UInt16} {x y : Bytes} (h : ofUInt16 m ++ x = ofUInt16 n ++ y) :
    m = n ∧ x = y := by
  have hm := takeUInt16_ofUInt16 m x
  rw [h, takeUInt16_ofUInt16] at hm
  obtain ⟨rfl, rfl⟩ : n = m ∧ y = x := by simpa using hm
  exact ⟨rfl, rfl⟩

theorem ofString_inj {s t : String} (h : ofString s = ofString t) : s = t := by
  have hs := toText?_ofString s
  rw [h, toText?_ofString] at hs
  exact (Option.some.inj hs).symm

theorem field_append_inj {a b : Bytes} (ha : a.length ≤ maxField) (hb : b.length ≤ maxField)
    {x y : Bytes} (h : field a ++ x = field b ++ y) : a = b ∧ x = y := by
  simp only [field, List.append_assoc] at h
  obtain ⟨hlen, h⟩ := ofUInt16_append_inj h
  have hlength : a.length = b.length := by
    have hnat := congrArg UInt16.toNat hlen
    simp only [maxField] at ha hb
    simp at hnat
    omega
  exact List.append_inj h hlength

section Parts

variable {α β : Type} {write : α → Bytes} (view : α → β)

/-- A part that may be missing, when it is known whether it is. -/
theorem elim_append_inj {o o' : Option α} (hsome : o.isSome = o'.isSome)
    (hwrite : ∀ a ∈ o, ∀ b ∈ o', ∀ {x y : Bytes},
      write a ++ x = write b ++ y → view a = view b ∧ x = y)
    {x y : Bytes} (h : o.elim [] write ++ x = o'.elim [] write ++ y) :
    o.map view = o'.map view ∧ x = y := by
  cases o with
  | none =>
    cases o' with
    | none => exact ⟨rfl, h⟩
    | some b => cases hsome
  | some a =>
    cases o' with
    | none => cases hsome
    | some b =>
      obtain ⟨hv, hxy⟩ := hwrite a rfl b rfl h
      exact ⟨congrArg some hv, hxy⟩

/-- Parts that stand one after the other up to the end, none of them empty. -/
theorem map_eq_of_flatMap_eq (hne : ∀ a, write a ≠ []) {l l' : List α}
    (hwrite : ∀ a ∈ l, ∀ b ∈ l', ∀ {x y : Bytes},
      write a ++ x = write b ++ y → view a = view b ∧ x = y)
    (h : l.flatMap write = l'.flatMap write) : l.map view = l'.map view := by
  induction l generalizing l' with
  | nil =>
    cases l' with
    | nil => rfl
    | cons b l' => exact absurd (List.append_eq_nil_iff.1 h.symm).1 (hne b)
  | cons a l ih =>
    cases l' with
    | nil => exact absurd (List.append_eq_nil_iff.1 h).1 (hne a)
    | cons b l' =>
      obtain ⟨hv, hrest⟩ := hwrite a List.mem_cons_self b List.mem_cons_self h
      have htail := ih (fun c hc d hd => hwrite c (List.mem_cons_of_mem a hc) d
        (List.mem_cons_of_mem b hd)) hrest
      rw [List.map_cons, List.map_cons, hv, htail]

end Parts

end MqttCodec.Bytes
