/-
Frames do not depend on how their bytes are fetched. What a reader of fixed
headers answers, and after how many reads, is settled by what the reads bring,
so it is the same over a transport that makes it wait (`Frame.wait_receiveAsync`),
over one that is lent (`Transport.arrivals_within`) and over one that
answers at once. A receive function is believed less: a read that claims more
than the one byte it was asked for counts as failed. `Script.receive_alike`
says both for scripts.
-/
import MqttCodec.Proofs.Frame.Arrivals

namespace MqttCodec

/-! ## Transports that make the reader wait -/

/-- **Waiting changes nothing**: a reader that waits out each of its reads finds what it finds on a
transport where they have been waited out before. -/
theorem Framing.wait_run {σ ε : Type} (t : Transport (StateT σ Async) ε) (m : Framing) (s : σ) :
    ((m.run t).run s).wait = (m.run t.blocking).run s := by
  -- each read leaves fewer reads to be made
  induction hleft : m.readsLeft using Nat.strong_induction_on generalizing m s with
  | h left ih =>
    subst hleft
    have hread : (t.blocking.read [0]).run s = ((t.read [0]).run s).wait := rfl
    rw [run_eq, run_run, hread, StateT.run_bind, Async.wait_bind]
    generalize ((t.read [0]).run s).wait = out
    cases hstep : m.step out.1 with
    | error e => rfl
    | ok step =>
      cases step with
      | done f => rfl
      | more next => exact ih _ (readsLeft_of_step hstep) next out.2 rfl

theorem Frame.wait_receiveAsync {σ ε : Type} (t : Transport (StateT σ Async) ε) (s : σ) :
    ((receiveAsync t).run s).wait = (receive t.blocking).run s :=
  Framing.wait_run t .atHeader s

/-! ## Lent transports -/

namespace Transport

variable {σ ε : Type} (t : Transport (StateM σ) ε) (s : σ)

theorem after_within (ρ : Type) (x : ρ) (n : Nat) :
    (t.within ρ).after (s, x) n = (t.after s n, x) := by
  induction n with
  | zero => rfl
  | succ n ih =>
    rw [after, ih]
    rfl

theorem arrivals_within (ρ : Type) (x : ρ) : (t.within ρ).arrivals (s, x) = t.arrivals s := by
  funext n
  rw [arrivals, after_within]
  rfl

end Transport

/-! ## Reads that fail -/

namespace Framing

variable {arrivals arrivals' : Nat → Arrival} {header : UInt8} {bytes : List UInt8} {k n : Nat}
  {result : Except Error Frame}

theorem Awaits.take (h : Awaits arrivals header bytes) (hn : n ≤ bytes.length) :
    Awaits arrivals header (bytes.take n) := by
  induction h with
  | header harrival hheader =>
    rw [List.take_nil]
    exact .header harrival hheader
  | @more bytes b hbefore hlength harrival hb ih =>
    by_cases hshort : n ≤ bytes.length
    · rw [List.take_append_of_le_length hshort]
      exact ih hshort
    · rw [List.take_of_length_le (by simp; omega)]
      exact .more hbefore hlength harrival hb

theorem Awaits.congr (h : Awaits arrivals header bytes)
    (hsame : ∀ i ≤ bytes.length, arrivals' i = arrivals i) : Awaits arrivals' header bytes := by
  induction h with
  | header harrival hheader => exact .header ((hsame 0 (Nat.le_refl 0)).trans harrival) hheader
  | @more bytes b _ hlength harrival hb ih =>
    rw [List.length_append, List.length_singleton] at hsame
    exact .more (ih fun i hi => hsame i (Nat.le_succ_of_le hi)) hlength
      ((hsame _ (Nat.le_refl _)).trans harrival) hb

/-- What comes in after the read that decides does not matter. -/
theorem Decides.congr (h : Decides arrivals k result) (hsame : ∀ i < k, arrivals' i = arrivals i) :
    Decides arrivals' k result := by
  have hawaits {header : UInt8} {bytes : List UInt8} (h : Awaits arrivals header bytes)
      (hk : k = bytes.length + 2) : Awaits arrivals' header bytes :=
    h.congr fun i hi => hsame i (by omega)
  cases h with
  | noData harrival => exact .noData ((hsame 0 Nat.one_pos).trans harrival)
  | headerFailure harrival => exact .headerFailure ((hsame 0 Nat.one_pos).trans harrival)
  | foreign harrival hnone => exact .foreign ((hsame 0 Nat.one_pos).trans harrival) hnone
  | cutOff h harrival => exact .cutOff (hawaits h rfl) ((hsame _ (by omega)).trans harrival)
  | lengthFailure h harrival =>
    exact .lengthFailure (hawaits h rfl) ((hsame _ (by omega)).trans harrival)
  | tooLong h hlast harrival hb =>
    exact .tooLong (hawaits h rfl) hlast ((hsame _ (by omega)).trans harrival) hb
  | padded h hne harrival => exact .padded (hawaits h rfl) hne ((hsame _ (by omega)).trans harrival)
  | complete h harrival hb hfinal =>
    exact .complete (hawaits h rfl) ((hsame _ (by omega)).trans harrival) hb hfinal

/-- **A read that fails decides**, if the reads before it did not. -/
theorem Decides.failure (h : Decides arrivals k result) (hn : n < k)
    (hsame : ∀ i < n, arrivals' i = arrivals i) (hfailure : arrivals' n = .failure) :
    Decides arrivals' (n + 1) (.error .receiveFailed) := by
  have hawaits {header : UInt8} {bytes : List UInt8} (h : Awaits arrivals header bytes)
      (hk : k = bytes.length + 2) : Decides arrivals' (n + 1) (.error .receiveFailed) := by
    cases n with
    | zero => exact .headerFailure hfailure
    | succ n =>
      have hlength : (bytes.take n).length = n := List.length_take_of_le (by omega)
      have hbefore : Awaits arrivals' header (bytes.take n) :=
        (h.take (by omega)).congr fun i hi => hsame i (by omega)
      have hdecides := Decides.lengthFailure hbefore (by rwa [hlength])
      rwa [hlength] at hdecides
  cases h with
  | noData | headerFailure | foreign =>
    obtain rfl : n = 0 := by omega
    exact .headerFailure hfailure
  | cutOff h | lengthFailure h | tooLong h | padded h | complete h => exact hawaits h rfl

end Framing

/-! ## Scripts -/

/-- A read, or a failed one in its place if it claims more than the one byte it was asked for. -/
def ScriptedRead.checked (failed r : ScriptedRead) : ScriptedRead :=
  if 1 < r.returned then failed else r

namespace Script

open Framing

/-- A script whose reads fail where they claim too much. -/
def checked (failed : ScriptedRead) (s : Script) : Script :=
  { s with reads := s.reads.map failed.checked }

variable {failed : ScriptedRead} {s : Script}

theorem arrival_checked (hfailed : failed.returned < 0) (r : ScriptedRead) :
    (failed.checked r).arrival = if 1 < r.returned then .failure else r.arrival := by
  unfold ScriptedRead.checked
  split
  · have hnot : failed.returned ≠ 0 := by omega
    rw [ScriptedRead.arrival, if_neg hnot, if_pos hfailed]
  · rfl

theorem arrivals_checked (hfailed : failed.returned < 0) (s : Script) (i : Nat) :
    (s.checked failed).arrivals i =
      (s.reads[i]?).elim .nothing fun r => if 1 < r.returned then .failure else r.arrival := by
  rw [arrivals, checked, List.getElem?_map]
  cases s.reads[i]? with
  | none => rfl
  | some r => exact arrival_checked hfailed r

/-- What a receive function is taken to bring. -/
theorem read_ofReceive (hfailed : failed.returned < 0) (s : Script) :
    (((Transport.ofReceive receive).read [0]).run s).1.arrival = (s.checked failed).arrivals 0 ∧
      (((Transport.ofReceive receive).read [0]).run s).2 = s.advance 1 := by
  obtain ⟨_ | ⟨r, reads⟩, made⟩ := s
  · exact ⟨rfl, rfl⟩
  · refine ⟨?_, rfl⟩
    have hread : (((Transport.ofReceive receive).read [0]).run ⟨r :: reads, made⟩).1 =
        ⟨ReceiveError.check 1 r.returned, r.fill [0]⟩ := rfl
    rw [hread, arrivals_checked hfailed]
    change _ = if 1 < r.returned then Arrival.failure else r.arrival
    unfold ReceiveError.check ScriptedRead.arrival
    by_cases hneg : r.returned < 0
    · have hzero : r.returned ≠ 0 := by omega
      simp [ReadOutcome.arrival, hneg, hzero]
    · by_cases hover : 1 < r.returned
      · have hmore : 1 < r.returned.toNat := by omega
        simp [ReadOutcome.arrival, hneg, hover, hmore]
      · obtain hzero | hone : r.returned = 0 ∨ r.returned = 1 := by omega
        · simp [ReadOutcome.arrival, hzero]
        · simp [ReadOutcome.arrival, hone, fill_zero]

theorem after_ofReceive (s : Script) (k : Nat) :
    (Transport.ofReceive receive).after s k = s.advance k := by
  have hfailed : (⟨-1, none⟩ : ScriptedRead).returned < 0 := by decide
  exact after_of_read (fun s => (read_ofReceive hfailed s).2) s k

theorem arrivals_ofReceive (hfailed : failed.returned < 0) (s : Script) :
    (Transport.ofReceive receive).arrivals s = (s.checked failed).arrivals := by
  funext i
  rw [Transport.arrivals, after_ofReceive, (read_ofReceive hfailed _).1]
  simp [arrivals, checked, advance]

theorem run_ofReceive_of_decides (hfailed : failed.returned < 0) {k : Nat}
    {result : Except Error Frame} (h : Decides (s.checked failed).arrivals k result) :
    (Frame.receive (.ofReceive receive)).run s = (result, s.advance k) := by
  rw [← arrivals_ofReceive hfailed] at h
  rw [run_of_decides h, after_ofReceive]

/-- **Every transport frames alike.** A script is read with the same result and in as many reads by a
transport that answers at once, by one that makes its reader wait, however often, and by one that is
lent. Through a receive function it is read as if the reads that claim more than one byte failed:
nothing changes if no such read is made, and the first that is made is the last and a failure. -/
theorem receive_alike {t : Transport (StateT Script Async) ReceiveError} (ht : t.blocking = transport)
    {failed : ScriptedRead} (hfailed : failed.returned < 0) (s : Script) :
    (∃ k result, (Frame.receive transport).run s = (result, s.advance k) ∧
      ((Frame.receiveAsync t).run s).wait = (result, s.advance k) ∧
      (∀ (ρ : Type) (x : ρ),
        (Frame.receive (transport.within ρ)).run (s, x) = (result, (s.advance k, x))) ∧
      ((∀ r ∈ s.reads.take k, r.returned ≤ 1) →
        (Frame.receive (.ofReceive receive)).run s = (result, s.advance k)) ∧
      ∀ j r, j < k → s.reads[j]? = some r → 1 < r.returned →
        (∀ r' ∈ s.reads.take j, r'.returned ≤ 1) →
        (Frame.receive (.ofReceive receive)).run s = (.error .receiveFailed, s.advance (j + 1))) ∧
    ∃ k result, (Frame.receive (.ofReceive receive)).run s = (result, s.advance k) ∧
      (Frame.receive transport).run (s.checked failed) = (result, (s.checked failed).advance k) := by
  have hsame {n : Nat} (h : ∀ r ∈ s.reads.take n, r.returned ≤ 1) :
      ∀ i < n, (s.checked failed).arrivals i = s.arrivals i := by
    intro i hi
    rw [arrivals_checked hfailed, arrivals]
    cases hr : s.reads[i]? with
    | none => rfl
    | some r =>
      have hmem : r ∈ s.reads.take n :=
        List.mem_of_getElem? (i := i) (by rw [List.getElem?_take_of_lt hi, hr])
      exact if_neg (Int.not_lt.2 (h r hmem))
  constructor
  · obtain ⟨k, result, h⟩ := exists_decides s.arrivals
    have hrun := run_receive_of_decides h
    refine ⟨k, result, hrun, ?_, ?_, ?_, ?_⟩
    · rw [← ht] at hrun
      exact (Frame.wait_receiveAsync t s).trans hrun
    · intro ρ x
      have hlent : Decides ((transport.within ρ).arrivals (s, x)) k result := by
        rwa [Transport.arrivals_within, arrivals_eq]
      rw [run_of_decides hlent, Transport.after_within, after_eq]
    · intro hmodest
      exact run_ofReceive_of_decides hfailed (h.congr (hsame hmodest))
    · intro j r hj hr hover hmodest
      have hfailure : (s.checked failed).arrivals j = .failure := by
        rw [arrivals_checked hfailed, hr]
        exact if_pos hover
      exact run_ofReceive_of_decides hfailed (h.failure hj (hsame hmodest) hfailure)
  · obtain ⟨k, result, h⟩ := exists_decides (s.checked failed).arrivals
    exact ⟨k, result, run_ofReceive_of_decides hfailed h, run_receive_of_decides h⟩

/-- A byte that is claimed to be two completes the header for all but the receive function. -/
theorem receive_alike_overstated :
    let s : Script := { reads := [.ofByte 0x30, .ofByte 0x80, ⟨2, some 1⟩, .ofByte 9] }
    ((Frame.receiveAsync transport.deferred).run s).wait =
      (.ok { header := 0x30, length := 128 }, { reads := [.ofByte 9], made := 3 }) ∧
    (Frame.receive (.ofReceive receive)).run s =
      (.error .receiveFailed, { reads := [.ofByte 9], made := 3 }) := by
  intro s
  have hheader : Awaits s.arrivals 0x30 [] := .header rfl rfl
  have hawaits : Awaits s.arrivals 0x30 [0x80] := hheader.more (by decide) rfl (by decide)
  have hdecides : Decides s.arrivals 3 (.ok { header := 0x30, length := 128 }) :=
    .complete (b := 1) hawaits rfl (by decide) (.inr (by decide))
  have hfailed : (⟨-1, none⟩ : ScriptedRead).returned < 0 := by decide
  obtain ⟨⟨k, result, hdirect, hasync, -, -, hover⟩, -⟩ :=
    receive_alike (t := transport.deferred) rfl hfailed s
  have hsame := hdirect.symm.trans (run_receive_of_decides hdecides)
  obtain ⟨rfl, hscript⟩ := Prod.mk.inj hsame
  have hmade : 0 + k = 0 + 3 := congrArg Script.made hscript
  obtain rfl : k = 3 := by omega
  exact ⟨hasync, hover 2 ⟨2, some 1⟩ (by decide) rfl (by decide) (by decide)⟩

end Script

end MqttCodec
