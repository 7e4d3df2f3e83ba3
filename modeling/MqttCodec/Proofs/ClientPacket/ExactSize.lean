/-
Sizes as they are found on a machine that counts in 64-bit words. Only some of
the sums are looked after: the others would go on with what is left of a
number that has outgrown its word. `CountFault.overflow` says that one has.
`sizeInWords_eq` shows that it never comes to that, however long the fields and
the lists are, and that the answer is that of `size`, where numbers have no
bound. What `size` answers is in `size_exact`.
-/
import MqttCodec.Proofs.ClientPacket.Size

namespace MqttCodec

/-- Why a packet has no size. -/
inductive CountFault
  /-- A sum that nobody looks after has outgrown its word. -/
  | overflow
  | refused (e : Error)
  deriving DecidableEq, Repr

/-! ## Counting in words -/

namespace Words

/-- Adds two words. The sum starts again at 0 if it outgrows its word, and then it is less than
either of them. -/
def add (fault : CountFault) (count n : UInt64) : Except CountFault UInt64 :=
  if count ≤ count + n then .ok (count + n) else .error fault

/-- Adds to a count of bytes and refuses a sum that outgrows its word. -/
def addLength (count n : UInt64) : Except CountFault UInt64 :=
  add (.refused .invalidParameter) count n

def fieldSize (n : UInt64) : Except CountFault UInt64 :=
  if n ≤ Bytes.maxField.toUInt64 then add .overflow 2 n else .error (.refused .invalidParameter)

def addField (count : UInt64) (n : Nat) : Except CountFault UInt64 := do
  addLength count (← fieldSize n.toUInt64)

def ofRemaining (n : UInt64) : Except CountFault PacketSize := do
  let lengthBytes ← (RemainingLength.encodedSize n.toNat).mapError .refused
  let header ← add .overflow 1 lengthBytes.toUInt64
  let total ← addLength n header
  return ⟨n.toNat, total.toNat⟩

end Words

namespace ClientPacket

/-- The name of the client is counted before the topic of its will is looked at. -/
def connectSizeInWords (o : ConnectOptions) (will : Option Message) : Except CountFault PacketSize := do
  (require (o.clientId = "" → o.cleanSession) .invalidParameter).mapError .refused
  (require (o.password.isSome → o.userName.isSome) .invalidParameter).mapError .refused
  let count ← Words.addField connectHeaderSize.toUInt64 o.clientId.utf8ByteSize
  (require (∀ w ∈ will, IsTopicName w.topic) .invalidParameter).mapError .refused
  Words.ofRemaining (← (o.fieldLengths will).tail.foldlM Words.addField count)

def addEntryInWords (extra : Nat) (count : UInt64) (s : Subscription) : Except CountFault UInt64 := do
  (require (s.topicFilter ≠ "") .invalidParameter).mapError .refused
  let filterBytes ← Words.fieldSize s.topicFilter.utf8ByteSize.toUInt64
  Words.addLength count (← Words.addLength filterBytes extra.toUInt64)

def subscriptionListSizeInWords (extra : Nat) (subscriptions : List Subscription) :
    Except CountFault PacketSize := do
  (require (subscriptions ≠ []) .invalidParameter).mapError .refused
  Words.ofRemaining (← subscriptions.foldlM (addEntryInWords extra) packetIdSize.toUInt64)

def publishSizeInWords (m : Message) : Except CountFault PacketSize := do
  (require (IsTopicName m.topic) .invalidParameter).mapError .refused
  (require (m.dup → m.qos.needsPacketId) .invalidParameter).mapError .refused
  let topicBytes ← Words.fieldSize m.topic.utf8ByteSize.toUInt64
  let headerBytes ←
    (if m.qos.needsPacketId then Words.add .overflow topicBytes packetIdSize.toUInt64
      else .ok topicBytes)
  Words.ofRemaining (← Words.addLength headerBytes m.payload.length.toUInt64)

/-- The size of a packet, found in words. -/
def sizeInWords : ClientPacket → Except CountFault PacketSize
  | connect options will => connectSizeInWords options will
  | subscribe subscriptions _ => subscriptionListSizeInWords 1 subscriptions
  | unsubscribe subscriptions _ => subscriptionListSizeInWords 0 subscriptions
  | publish message _ => publishSizeInWords message
  | ack .. => .ok ackSize
  | pingReq => .ok pingReqSize
  | disconnect => .ok disconnectSize

/-- The lengths of everything of its caller's that a packet holds. -/
def lengths : ClientPacket → List Nat
  | publish m _ => [m.topic.utf8ByteSize, m.payload.length]
  | p => p.fieldLengths

end ClientPacket

/-! ## Words follow numbers -/

namespace Words

/-- Words that keep up with numbers: both arrive, with results that belong together, or both
refuse. -/
inductive Follows {α β : Type} (belongs : α → β → Prop) :
    Except CountFault α → Except Error β → Prop
  | ok {a b} : belongs a b → Follows belongs (.ok a) (.ok b)
  | refused (e) : Follows belongs (.error (.refused e)) (.error e)

namespace Follows

variable {α β γ δ : Type} {belongs : α → β → Prop} {belongs' : γ → δ → Prop}
  {w : Except CountFault α} {x : Except Error β}

/-- Words that keep up never outgrow themselves. -/
theorem eq_mapError {w : Except CountFault α} {x : Except Error α} (h : Follows Eq w x) :
    w = x.mapError .refused := by
  cases h with
  | ok hab => rw [hab]; rfl
  | refused e => rfl

theorem of_mapError (x : Except Error α) : Follows Eq (x.mapError .refused) x := by
  cases x with
  | error e => exact .refused e
  | ok a => exact .ok rfl

theorem bind {f : α → Except CountFault γ} {g : β → Except Error δ} (h : Follows belongs w x)
    (hnext : ∀ a b, x = .ok b → belongs a b → Follows belongs' (f a) (g b)) :
    Follows belongs' (w >>= f) (x >>= g) := by
  cases h with
  | ok hab => exact hnext _ _ rfl hab
  | refused e => exact .refused e

theorem foldlM {ι : Type} {f : α → ι → Except CountFault α} {g : β → ι → Except Error β} {l : List ι}
    (hstep : ∀ i ∈ l, ∀ a b, belongs a b → Follows belongs (f a i) (g b i)) {a : α} {b : β}
    (hab : belongs a b) : Follows belongs (l.foldlM f a) (l.foldlM g b) := by
  induction l generalizing a b with
  | nil => exact .ok hab
  | cons i l ih =>
    rw [List.foldlM_cons, List.foldlM_cons]
    refine (hstep i List.mem_cons_self a b hab).bind fun a' b' _ hab' => ?_
    exact ih (fun j hj => hstep j (List.mem_cons_of_mem i hj)) hab'

end Follows

/-- Whether a word holds a number. -/
def Holds (word : UInt64) (n : Nat) : Prop := word.toNat = n

variable {count n : UInt64} {c k : Nat}

theorem holds_toUInt64 (h : k < wordLimit) : Holds k.toUInt64 k := UInt64.toNat_ofNat_of_lt h

/-- A sum that has started again at 0 is less than what it began with. -/
theorem le_add_iff : count ≤ count + n ↔ count.toNat + n.toNat < wordLimit := by
  have hcount := count.toNat_lt
  have hn := n.toNat_lt
  rw [UInt64.le_iff_toNat_le, UInt64.toNat_add, wordLimit, UInt64.size]
  omega

theorem add_follows {fault : CountFault} (hcount : Holds count c) (hn : Holds n k)
    (hfits : c + k < wordLimit) : Follows Holds (add fault count n) (.ok (c + k)) := by
  subst hcount hn
  rw [add, if_pos (le_add_iff.2 hfits)]
  refine .ok ?_
  rw [Holds, UInt64.toNat_add]
  exact Nat.mod_eq_of_lt hfits

theorem addLength_follows (hcount : Holds count c) (hn : Holds n k) :
    Follows Holds (addLength count n) (MqttCodec.addLength c k) := by
  unfold MqttCodec.addLength
  split
  · rename_i hfits
    exact add_follows hcount hn hfits
  · rename_i hnot
    subst hcount hn
    rw [addLength, add, if_neg fun h => hnot (le_add_iff.1 h)]
    exact .refused _

theorem fieldSize_follows (hn : Holds n k) : Follows Holds (fieldSize n) (MqttCodec.fieldSize k) := by
  have hle : n ≤ Bytes.maxField.toUInt64 ↔ k ≤ Bytes.maxField := by
    subst hn
    exact UInt64.le_iff_toNat_le
  unfold fieldSize MqttCodec.fieldSize
  by_cases hk : k ≤ Bytes.maxField
  · rw [if_pos hk, if_pos (hle.2 hk)]
    have hfits : 2 + k < wordLimit := by
      simp only [Bytes.maxField, wordLimit, UInt64.size] at *
      omega
    exact add_follows (rfl : Holds 2 2) hn hfits
  · rw [if_neg hk, if_neg fun h => hk (hle.1 h)]
    exact .refused _

theorem fieldSize_le {bytes : Nat} (h : MqttCodec.fieldSize k = .ok bytes) :
    bytes ≤ 2 + Bytes.maxField := by
  unfold MqttCodec.fieldSize at h
  split at h
  · cases h
    omega
  · cases h

theorem addField_follows (hcount : Holds count c) (hk : k < wordLimit) :
    Follows Holds (addField count k) (MqttCodec.addField c k) :=
  (fieldSize_follows (holds_toUInt64 hk)).bind fun _ _ _ hfield => addLength_follows hcount hfield

theorem ofRemaining_follows (hn : Holds n k) :
    Follows Eq (ofRemaining n) (PacketSize.ofRemaining k) := by
  subst hn
  have hsteps : PacketSize.ofRemaining n.toNat = (do
      let lengthBytes ← RemainingLength.encodedSize n.toNat
      let header ← .ok (1 + lengthBytes)
      let total ← .ok (n.toNat + header)
      .ok ⟨n.toNat, total⟩) := rfl
  rw [hsteps]
  refine (Follows.of_mapError _).bind fun lengthBytes _ hsize heq => ?_
  subst heq
  obtain ⟨hmax, hfour⟩ := RemainingLength.encodedSize_le hsize
  simp only [RemainingLength.maxBytes, RemainingLength.max] at *
  have hone : 1 + lengthBytes < wordLimit := by simp only [wordLimit, UInt64.size]; omega
  have hall : n.toNat + (1 + lengthBytes) < wordLimit := by simp only [wordLimit, UInt64.size]; omega
  refine (add_follows (rfl : Holds 1 1) (holds_toUInt64 (Nat.lt_of_add_left_lt hone)) hone).bind ?_
  intro header _ hok hheader
  cases hok
  refine (add_follows rfl hheader hall).bind fun total _ _ htotal => ?_
  exact .ok (by rw [htotal])

end Words

namespace ClientPacket

open Words (Follows Holds)

theorem addField_failsOnlyWith (count n : Nat) :
    FailsOnlyWith .invalidParameter (addField count n) := by
  rw [addField_eq]
  split
  · exact .ok _
  · exact .error

/-- Since there is one error only, it does not matter when the topic of a will is looked at. -/
theorem connectSize_eq_inOrder (o : ConnectOptions) (will : Option Message) :
    connectSize o will = (do
      require (o.clientId = "" → o.cleanSession) .invalidParameter
      require (o.password.isSome → o.userName.isSome) .invalidParameter
      let count ← addField connectHeaderSize o.clientId.utf8ByteSize
      require (∀ w ∈ will, IsTopicName w.topic) .invalidParameter
      PacketSize.ofRemaining (← (o.fieldLengths will).tail.foldlM addField count)) := by
  simp only [connectSize, ConnectOptions.fieldLengths, List.foldlM_cons, List.tail_cons, bind_assoc,
    FailsOnlyWith.require_bind_comm (addField_failsOnlyWith _ _)]

theorem connectSizeInWords_follows {o : ConnectOptions} {will : Option Message}
    (hfits : ∀ n ∈ o.fieldLengths will, n < wordLimit) :
    Follows Eq (connectSizeInWords o will) (connectSize o will) := by
  obtain ⟨hname, hothers⟩ := List.forall_mem_cons.1 hfits
  rw [connectSize_eq_inOrder]
  refine (Follows.of_mapError _).bind fun _ _ _ _ => ?_
  refine (Follows.of_mapError _).bind fun _ _ _ _ => ?_
  have hstart : Holds connectHeaderSize.toUInt64 connectHeaderSize := rfl
  refine (Words.addField_follows hstart hname).bind fun _ _ _ hcount => ?_
  refine (Follows.of_mapError _).bind fun _ _ _ _ => ?_
  refine (Follows.foldlM (fun n hn _ _ hcount => ?_) hcount).bind fun _ _ _ hsum => ?_
  · exact Words.addField_follows hcount (hothers n hn)
  · exact Words.ofRemaining_follows hsum

theorem addEntryInWords_follows {extra : Nat} (hextra : extra < wordLimit) {s : Subscription}
    (hs : s.topicFilter.utf8ByteSize < wordLimit) {count : UInt64} {c : Nat} (hcount : Holds count c) :
    Follows Holds (addEntryInWords extra count s) (addEntry extra c s) := by
  refine (Follows.of_mapError _).bind fun _ _ _ _ => ?_
  refine (Words.fieldSize_follows (Words.holds_toUInt64 hs)).bind fun _ _ _ hfilter => ?_
  refine (Words.addLength_follows hfilter (Words.holds_toUInt64 hextra)).bind fun _ _ _ hentry => ?_
  exact Words.addLength_follows hcount hentry

theorem subscriptionListSizeInWords_follows {extra : Nat} (hextra : extra < wordLimit)
    {subscriptions : List Subscription}
    (hfits : ∀ s ∈ subscriptions, s.topicFilter.utf8ByteSize < wordLimit) :
    Follows Eq (subscriptionListSizeInWords extra subscriptions)
      (subscriptionListSize extra subscriptions) := by
  refine (Follows.of_mapError _).bind fun _ _ _ _ => ?_
  have hstart : Holds packetIdSize.toUInt64 packetIdSize := rfl
  refine (Follows.foldlM (fun s hs _ _ hcount => ?_) hstart).bind fun _ _ _ hsum => ?_
  · exact addEntryInWords_follows hextra (hfits s hs) hcount
  · exact Words.ofRemaining_follows hsum

theorem publishSizeInWords_follows {m : Message} (htopic : m.topic.utf8ByteSize < wordLimit)
    (hpayload : m.payload.length < wordLimit) :
    Follows Eq (publishSizeInWords m) (publishSize m) := by
  refine (Follows.of_mapError _).bind fun _ _ _ _ => ?_
  refine (Follows.of_mapError _).bind fun _ _ _ _ => ?_
  refine (Words.fieldSize_follows (Words.holds_toUInt64 htopic)).bind fun topicBytes n hsize hbytes => ?_
  have hheader : Follows Holds
      (if m.qos.needsPacketId then Words.add .overflow topicBytes packetIdSize.toUInt64
        else .ok topicBytes)
      (.ok (if m.qos.needsPacketId then n + packetIdSize else n)) := by
    split
    · refine Words.add_follows hbytes rfl ?_
      have hn := Words.fieldSize_le hsize
      simp only [Bytes.maxField, packetIdSize, wordLimit, UInt64.size] at *
      omega
    · exact .ok hbytes
  change Follows Eq _ (Except.ok _ >>= fun count =>
    addLength count m.payload.length >>= PacketSize.ofRemaining)
  refine hheader.bind fun _ _ hok hcount => ?_
  cases hok
  refine (Words.addLength_follows hcount (Words.holds_toUInt64 hpayload)).bind fun _ _ _ hsum => ?_
  exact Words.ofRemaining_follows hsum

/-- Words find what numbers find, and never outgrow themselves on the way. -/
theorem sizeInWords_eq {p : ClientPacket} (hfits : ∀ n ∈ p.lengths, n < wordLimit) :
    p.sizeInWords = p.size.mapError .refused := by
  apply Follows.eq_mapError
  cases p with
  | connect o will => exact connectSizeInWords_follows hfits
  | subscribe subscriptions _ =>
    exact subscriptionListSizeInWords_follows (by decide) (List.forall_mem_map.1 hfits)
  | unsubscribe subscriptions _ =>
    exact subscriptionListSizeInWords_follows (by decide) (List.forall_mem_map.1 hfits)
  | publish m _ =>
    simp only [lengths, List.forall_mem_cons] at hfits
    exact publishSizeInWords_follows hfits.1 hfits.2.1
  | ack | pingReq | disconnect => exact .ok rfl

/-! ## Exact sizes -/

/-- The bytes after a packet's fixed header, by its parts. -/
def exactLength : ClientPacket → Nat
  | connect o will =>
    10 + ((2 + o.clientId.utf8ByteSize) +
      will.elim 0 (fun w => (2 + w.topic.utf8ByteSize) + (2 + w.payload.length)) +
      o.userName.elim 0 (2 + ·.utf8ByteSize) + o.password.elim 0 (2 + ·.utf8ByteSize))
  | subscribe subscriptions _ => 2 + (subscriptions.map (3 + ·.topicFilter.utf8ByteSize)).sum
  | unsubscribe subscriptions _ => 2 + (subscriptions.map (2 + ·.topicFilter.utf8ByteSize)).sum
  | publish m _ =>
    2 + m.topic.utf8ByteSize + (if m.qos = .atMostOnce then 0 else 2) + m.payload.length
  | ack .. => 2
  | pingReq | disconnect => 0

theorem length_body (p : ClientPacket) : p.body.length = p.exactLength := by
  cases p with
  | connect o will =>
    rw [length_body_connect, exactLength, ConnectOptions.fieldLengths]
    cases will <;> cases o.userName <;> cases o.password <;>
      simp [connectHeaderSize, Nat.add_assoc]
  | subscribe subscriptions packetId =>
    refine (length_body_entries _ 1 (fun _ => rfl) subscriptions packetId).trans ?_
    simp only [exactLength, packetIdSize, Nat.add_right_comm 2 _ 1]
  | unsubscribe subscriptions packetId =>
    simp [body, exactLength, List.length_flatMap]
  | publish m packetId =>
    rw [length_body_publish, exactLength]
    cases m.qos <;> simp [QoS.needsPacketId, packetIdSize]
  | ack | pingReq | disconnect => rfl

/-- **Sizes are exact.** A packet that keeps the rules and is not too long has a size, and it is that
of its parts; any other packet is refused. Counting in words finds the same, for words that hold each
of the lengths, whatever they add up to. -/
theorem size_exact (p : ClientPacket) :
    (p.WellFormed ∧ (∀ n ∈ p.fieldLengths, n ≤ Bytes.maxField) ∧
        p.exactLength ≤ RemainingLength.max →
      ∃ lengthBytes, RemainingLength.encodedSize p.exactLength = .ok lengthBytes ∧
        p.size = .ok { remaining := p.exactLength, total := 1 + lengthBytes + p.exactLength }) ∧
    (¬ (p.WellFormed ∧ (∀ n ∈ p.fieldLengths, n ≤ Bytes.maxField) ∧
        p.exactLength ≤ RemainingLength.max) → p.size = .error .invalidParameter) ∧
    ((∀ n ∈ p.lengths, n < wordLimit) → p.sizeInWords = p.size.mapError .refused) := by
  have hsize := p.size_eq
  simp only [sizeIfSendable, Sendable, length_body, length_wire] at hsize
  refine ⟨?_, ?_, sizeInWords_eq⟩
  · intro h
    refine ⟨_, RemainingLength.encodedSize_eq h.2.2, ?_⟩
    rw [hsize, if_pos h, Nat.add_comm]
  · intro h
    rw [hsize, if_neg h]

/-- A message that is acknowledged, found either way. -/
theorem size_exact_publish :
    let p := publish { qos := .atLeastOnce, topic := "a/b", payload := [1, 2] } 7
    p.size = .ok ⟨9, 11⟩ ∧ p.sizeInWords = .ok ⟨9, 11⟩ := by
  intro p
  obtain ⟨hfits, -, hwords⟩ := size_exact p
  obtain ⟨lengthBytes, hbytes, hsize⟩ := hfits (by decide)
  cases hbytes
  exact ⟨hsize, (hwords (by decide)).trans (by rw [hsize]; rfl)⟩

end ClientPacket

end MqttCodec
