/-
Sending and receiving over a byte queue, in any order. A channel is run
beside the mailbox it stands for, a queue of packets, and the two report the
same whatever is done to them: packets are received once each, in the order
they were sent, and every byte of the queue belongs to one that was not.

That is about packets that one side encodes. Packets from elsewhere may hold
anything after their length, and a receiver that cannot read one is still at
the start of the next.
-/
import MqttCodec.Proofs.Channel.Receiving
import MqttCodec.Proofs.ClientPacket.Unambiguous

namespace MqttCodec

/-- What is done to a channel: a packet is sent by way of a buffer, or the next one received. -/
inductive Action
  | send (p : ClientPacket) (buffer : Bytes)
  | receive

/-- What comes of an action: the bytes that were sent, or the packet that came in and what
it was taken for. -/
inductive Report
  | sent (bytes : Except Error Bytes)
  | received (packet : Except Error (Frame × Except Error ServerPacket))

/-- Takes one action after the other. -/
def runActions {σ : Type} (act : σ → Action → Report × σ) (s : σ) : List Action → List Report × σ
  | [] => ([], s)
  | a :: actions =>
    let (report, s) := act s a
    let (reports, s) := runActions act s actions
    (report :: reports, s)

theorem runActions_cons {σ : Type} (act : σ → Action → Report × σ) (s : σ) (a : Action)
    (actions : List Action) :
    runActions act s (a :: actions) =
      ((act s a).1 :: (runActions act (act s a).2 actions).1, (runActions act (act s a).2 actions).2) :=
  rfl

/-- An action on a channel. The receiver looks at a packet once it has all of it. -/
def Channel.act (c : Channel) : Action → Report × Channel
  | .send p buffer =>
    let (bytes, c) := c.send p buffer
    (.sent bytes, c)
  | .receive =>
    let (frame, c) := c.receive
    (.received (frame.map fun f => (f, ServerPacket.ofFrame f)), c)

/-- The packets that were sent and not yet received, oldest first, each with the bytes it was
encoded in. -/
abbrev Mailbox := List (ClientPacket × Bytes)

/-- What an action on a channel should do. -/
def Mailbox.act (m : Mailbox) : Action → Report × Mailbox
  | .send p buffer =>
    match p.encode buffer with
    | (.ok n, after) => (.sent (.ok (after.take n)), m ++ [(p, after.take n)])
    | (.error e, _) => (.sent (.error e), m)
  | .receive =>
    match m with
    | [] => (.received (.error .noDataAvailable), [])
    | (p, _) :: m => (.received (.ok (.whole p.header p.body, p.takenFor)), m)

namespace Channel

/-- The queue of an open channel holds what is in the mailbox and nothing else. -/
structure Carries (c : Channel) (m : Mailbox) : Prop where
  closed_eq : c.closed = false
  encodes : ∀ x ∈ m, x.1.Encodes x.2
  queue_eq : c.queue = m.flatMap (·.2)

theorem Carries.empty : ({} : Channel).Carries [] where
  closed_eq := rfl
  encodes _ hx := absurd hx List.not_mem_nil
  queue_eq := rfl

/-! ## Steps -/

variable {c : Channel} {m : Mailbox}

theorem Carries.send (h : c.Carries m) (p : ClientPacket) (buffer : Bytes) :
    (c.act (.send p buffer)).1 = (m.act (.send p buffer)).1 ∧
      (c.act (.send p buffer)).2.Carries (m.act (.send p buffer)).2 := by
  rcases hencode : p.encode buffer with ⟨e | n, after⟩
  · simp only [Channel.act, Mailbox.act, Channel.send, hencode]
    exact ⟨trivial, h⟩
  · simp only [Channel.act, Mailbox.act, Channel.send, hencode]
    refine ⟨trivial, h.closed_eq, ?_, ?_⟩
    · intro x hx
      rcases List.mem_append.1 hx with hx | hx
      · exact h.encodes x hx
      · rw [List.mem_singleton.1 hx]
        exact ⟨buffer, n, after, hencode, rfl⟩
    · rw [Channel.push, h.queue_eq, List.flatMap_append, List.flatMap_singleton]

theorem Carries.receive (h : c.Carries m) :
    (c.act .receive).1 = (m.act .receive).1 ∧ (c.act .receive).2.Carries (m.act .receive).2 := by
  cases m with
  | nil =>
    rw [act, receive_nil h.closed_eq h.queue_eq]
    exact ⟨rfl, h.closed_eq, h.encodes, h.queue_eq⟩
  | cons x m =>
    obtain ⟨p, bytes⟩ := x
    have hrest : ∀ x ∈ m, x.1.Encodes x.2 := fun x hx => h.encodes x (List.mem_cons_of_mem _ hx)
    have hfirst : p.Encodes bytes := h.encodes (p, bytes) List.mem_cons_self
    obtain ⟨hs, hid, rfl⟩ := ClientPacket.encodes_iff.1 hfirst
    have hheader : (PacketKind.ofHeader? p.header).isSome := by
      rw [ClientPacket.ofHeader?_header]
      rfl
    -- the wire form of a packet is that of a first byte and a body
    have hqueue : c.queue = Frame.written p.header p.body ++ m.flatMap (·.2) := h.queue_eq
    rw [act, receive_written h.closed_eq hheader hs.2.2 hqueue]
    refine ⟨?_, h.closed_eq, hrest, rfl⟩
    simp only [Except.map, ClientPacket.ofFrame_whole hs hid]
    rfl

theorem Carries.act (h : c.Carries m) (a : Action) :
    (c.act a).1 = (m.act a).1 ∧ (c.act a).2.Carries (m.act a).2 := by
  cases a with
  | send p buffer => exact h.send p buffer
  | receive => exact h.receive

/-! ## Runs -/

theorem Carries.run (h : c.Carries m) (actions : List Action) :
    (runActions Channel.act c actions).1 = (runActions Mailbox.act m actions).1 ∧
      (runActions Channel.act c actions).2.Carries (runActions Mailbox.act m actions).2 := by
  induction actions generalizing c m with
  | nil => exact ⟨rfl, h⟩
  | cons a actions ih =>
    obtain ⟨hreport, hnext⟩ := h.act a
    obtain ⟨hreports, hlast⟩ := ih hnext
    rw [runActions_cons, runActions_cons]
    exact ⟨congrArg₂ List.cons hreport hreports, hlast⟩

/-- **A channel is a mailbox**: whatever is sent and received over an open channel that was empty,
in any order, it reports what the mailbox reports, and its queue holds the packets that are
left in the mailbox, one after the other. -/
theorem run_eq_mailbox (actions : List Action) :
    let channel := runActions Channel.act {} actions
    let mailbox := runActions Mailbox.act [] actions
    channel.1 = mailbox.1 ∧ channel.2.queue = mailbox.2.flatMap (·.2) := by
  intro channel mailbox
  obtain ⟨hreports, hlast⟩ := Carries.empty.run actions
  exact ⟨hreports, hlast.queue_eq⟩

/-- **No body loses the place**: of packets that stand one after the other on the queue, each is
received whole and read for itself, and what comes after them stays. -/
theorem run_receive_written {frames : List (UInt8 × Bytes)}
    (hframes : ∀ f ∈ frames, (PacketKind.ofHeader? f.1).isSome ∧ f.2.length ≤ RemainingLength.max)
    (hopen : c.closed = false) {rest : Bytes}
    (hqueue : c.queue = frames.flatMap (fun f => Frame.written f.1 f.2) ++ rest) :
    let run := runActions Channel.act c (List.replicate frames.length .receive)
    run.1 = frames.map (fun f =>
      .received (.ok (.whole f.1 f.2, ServerPacket.ofFrame (.whole f.1 f.2)))) ∧
      run.2.queue = rest := by
  induction frames generalizing c with
  | nil => exact ⟨rfl, hqueue⟩
  | cons f frames ih =>
    obtain ⟨⟨hheader, hlength⟩, hframes⟩ := List.forall_mem_cons.1 hframes
    rw [List.flatMap_cons, List.append_assoc] at hqueue
    have hact : c.act .receive =
        (.received (.ok (.whole f.1 f.2, ServerPacket.ofFrame (.whole f.1 f.2))),
          { c with
            queue := frames.flatMap (fun f => Frame.written f.1 f.2) ++ rest
            framed := some { header := f.1, length := f.2.length }
            body := f.2 }) := by
      rw [act, receive_written hopen hheader hlength hqueue]
      rfl
    obtain ⟨hreports, hrest⟩ := ih hframes (c := (c.act .receive).2) (by rw [hact]; exact hopen)
      (by rw [hact])
    rw [List.length_cons, List.replicate_succ, runActions_cons]
    refine ⟨?_, hrest⟩
    rw [hreports, List.map_cons, hact]

/-- A refusal, a packet that breaks off, a message and a packet for a server, and one byte more. -/
theorem run_receive_written_mixed :
    let frames : List (UInt8 × Bytes) :=
      [(0x20, [0, 5]), (0x90, [1, 7]), (0x30, [0, 1, 116, 9]), (0xC0, [])]
    let c : Channel := { queue := [0x20, 2, 0, 5, 0x90, 2, 1, 7, 0x30, 4, 0, 1, 116, 9, 0xC0, 0, 42] }
    let run := runActions Channel.act c (List.replicate frames.length .receive)
    run.1 =
        [.received (.ok (.whole 0x20 [0, 5], .error .serverRefused)),
          .received (.ok (.whole 0x90 [1, 7], .error .malformedPacket)),
          .received (.ok (.whole 0x30 [0, 1, 116, 9],
            .ok (.publication { packetId := none, message := { topic := "t", payload := [9] } }))),
          .received (.ok (.whole 0xC0 [], .error .invalidParameter))] ∧
      run.2.queue = [42] := by
  intro frames c run
  have hframes : ∀ f ∈ frames,
      (PacketKind.ofHeader? f.1).isSome ∧ f.2.length ≤ RemainingLength.max := by
    decide
  have hqueue : c.queue = frames.flatMap (fun f => Frame.written f.1 f.2) ++ [42] := by
    simp [frames, c, Frame.written, RemainingLength.groups_of_lt]
  obtain ⟨hreports, hrest⟩ := run_receive_written hframes rfl hqueue
  have hrefused : ServerPacket.ofFrame (.whole 0x20 [0, 5]) = .error .serverRefused := rfl
  have hbroken : ServerPacket.ofFrame (.whole 0x90 [1, 7]) = .error .malformedPacket := rfl
  have hmessage : ServerPacket.ofFrame (.whole 0x30 [0, 1, 116, 9]) =
      .ok (.publication { packetId := none, message := { topic := "t", payload := [9] } }) := rfl
  have hforeign : ServerPacket.ofFrame (.whole 0xC0 []) = .error .invalidParameter := rfl
  refine ⟨hreports.trans ?_, hrest⟩
  simp only [frames, List.map_cons, List.map_nil, hrefused, hbroken, hmessage, hforeign]

end Channel

end MqttCodec
