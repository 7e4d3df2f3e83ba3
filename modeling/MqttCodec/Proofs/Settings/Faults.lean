/-
Settings with one thing wrong. At each level of the text an object may give a
member twice or lack a required one, and a number may be too large or
malformed; the list of subscriptions may be too long; and something may
follow the settings. Wherever the fault stands, nothing is loaded
(`Settings.load_of_faulty`).
-/
import MqttCodec.Proofs.Json.Faults
import MqttCodec.Proofs.Settings.Rendering
import MqttCodec.Proofs.Settings.Truncation

namespace MqttCodec

open Json Reader

/-- No guarantee is read off a number that is not one of theirs. A number that does not fit into a
byte is refused before it is taken for a smaller one. -/
theorem QoS.reader_stopsAt (n : Nat) : QoS.reader.StopsAt (.FaultyNat 2 n) := by
  intro tokens t rest hform ht hrest q r h
  obtain ⟨a, hread, hlevel⟩ := filterMap_takes_iff.1 h
  obtain ⟨n', hlarge, rfl⟩ | hform := hform
  · obtain ⟨rfl, -⟩ := unsigned_takes_written ht hrest hread
    have hfits : a ≤ 255 := le_of_unsigned_takes hread
    have hlevel : q.level = a.toUInt8 := by
      refine level_of_ofLevel ?_
      cases hof : ofLevel a.toUInt8 with
      | error e =>
        rw [hof] at hlevel
        cases hlevel
      | ok q' =>
        rw [hof] at hlevel
        cases hlevel
        rfl
    have hsmall : q.level.toNat ≤ 2 := by cases q <;> decide
    rw [hlevel, Nat.toUInt8, UInt8.toNat_ofNat_of_lt' (Nat.lt_succ_of_le hfits)] at hsmall
    exact absurd hsmall (Nat.not_le.2 hlarge)
  · exact unsigned_stopsAt_malformed 255 n hform ht hrest hread

namespace ConnectOptions

/-- Whether a member of connection options was given. -/
def Given.Has (g : Given) (k : String) : Prop :=
  (k = "clean_session" ∧ g.cleanSession.isSome) ∨
    (k = "keep_alive_seconds" ∧ g.keepAliveSeconds.isSome) ∨
    (k = "client_identifier" ∧ g.clientId.isSome) ∨
    (k = "user_name" ∧ g.userName.isSome) ∨ (k = "password" ∧ g.password.isSome)

theorem tracks (o : ConnectOptions) : Tracks Given.member {} Given.Has o.fields where
  not_has_empty k := by simp [Given.Has]
  step f hf g t g' r h := by
    simp only [fields, List.mem_cons, List.not_mem_nil, or_false] at hf
    rcases hf with rfl | rfl | rfl | rfl | rfl
    all_goals
      obtain ⟨hfirst, ⟨a, rfl⟩, hread⟩ := once_takes_first h
      exact ⟨by simp [Given.Has, hfirst], fun k => by grind [Given.Has], hread⟩

/-- The ways to write connection options with one thing wrong. -/
def Faulty (o : ConnectOptions) : Form :=
  .FaultyObject o.fields (fun k => .acceptedBy (Given.member k {})) ["client_identifier"]
    (.under "keep_alive_seconds" (.FaultyNat 65535 o.keepAliveSeconds.toNat))

theorem reader_refuses {o : ConnectOptions} (hsafe : ∀ x ∈ o.strings, RawSafe x.toList) :
    reader.Refuses o.Faulty := by
  refine object_refuses (gathers hsafe) o.tracks (fun g k hk hhas => ?_)
    (stopsAt_under fun g => (unsigned_stopsAt_faulty _ _).once _ _)
  obtain rfl := List.mem_singleton.1 hk
  simpa [Given.Has, Given.complete?] using hhas

end ConnectOptions

namespace Will

/-- Whether a member of a will was given. -/
def Given.Has (g : Given) (k : String) : Prop :=
  (k = "topic" ∧ g.topic.isSome) ∨ (k = "message" ∧ g.message.isSome) ∨
    (k = "qos" ∧ g.qos.isSome) ∨ (k = "retain" ∧ g.retain.isSome)

theorem tracks (w : Will) : Tracks Given.member {} Given.Has w.fields where
  not_has_empty k := by simp [Given.Has]
  step f hf g t g' r h := by
    simp only [fields, List.mem_cons, List.not_mem_nil, or_false] at hf
    rcases hf with rfl | rfl | rfl | rfl
    all_goals
      obtain ⟨hfirst, ⟨a, rfl⟩, hread⟩ := once_takes_first h
      exact ⟨by simp [Given.Has, hfirst], fun k => by grind [Given.Has], hread⟩

/-- The ways to write a will with one thing wrong. -/
def Faulty (w : Will) : Form :=
  .FaultyObject w.fields (fun k => .acceptedBy (Given.member k {})) ["topic"]
    (.under "qos" (.FaultyNat 2 w.qos.level.toNat))

theorem reader_refuses {w : Will} (hsafe : ∀ x ∈ w.strings, RawSafe x.toList) :
    reader.Refuses w.Faulty := by
  refine object_refuses (gathers hsafe) w.tracks (fun g k hk hhas => ?_)
    (stopsAt_under fun g => (QoS.reader_stopsAt _).once _ _)
  obtain rfl := List.mem_singleton.1 hk
  simpa [Given.Has, Given.complete?] using hhas

end Will

namespace Subscription

/-- Whether a member of a subscription was given. -/
def Given.Has (g : Given) (k : String) : Prop :=
  (k = "qos" ∧ g.qos.isSome) ∨ (k = "topic_filter" ∧ g.topicFilter.isSome)

theorem tracks (s : Subscription) : Tracks Given.member {} Given.Has s.fields where
  not_has_empty k := by simp [Given.Has]
  step f hf g t g' r h := by
    simp only [fields, List.mem_cons, List.not_mem_nil, or_false] at hf
    rcases hf with rfl | rfl
    all_goals
      obtain ⟨hfirst, ⟨a, rfl⟩, hread⟩ := once_takes_first h
      exact ⟨by simp [Given.Has, hfirst], fun k => by grind [Given.Has], hread⟩

/-- The ways to write a subscription with one thing wrong. -/
def Faulty (s : Subscription) : Form :=
  .FaultyObject s.fields (fun k => .acceptedBy (Given.member k {})) ["topic_filter"]
    (.under "qos" (.FaultyNat 2 s.qos.level.toNat))

theorem reader_refuses {s : Subscription} (hsafe : ∀ x ∈ s.strings, RawSafe x.toList) :
    reader.Refuses s.Faulty := by
  refine object_refuses (gathers hsafe) s.tracks (fun g k hk hhas => ?_)
    (stopsAt_under fun g => (QoS.reader_stopsAt _).once _ _)
  obtain rfl := List.mem_singleton.1 hk
  simpa [Given.Has, Given.complete?] using hhas

end Subscription

namespace Settings

/-- Whether a member of settings was given. -/
def Given.Has (g : Given) (k : String) : Prop :=
  (k = "connect" ∧ g.connect.isSome) ∨ (k = "will" ∧ g.will.isSome) ∨
    (k = "subscriptions" ∧ g.subscriptions.isSome)

theorem tracks (s : Settings) : Tracks Given.member {} Given.Has s.fields where
  not_has_empty k := by simp [Given.Has]
  step f hf g t g' r h := by
    simp only [fields, List.mem_cons, List.not_mem_nil, or_false] at hf
    rcases hf with rfl | rfl | rfl
    all_goals
      obtain ⟨hfirst, ⟨a, rfl⟩, hread⟩ := once_takes_first h
      exact ⟨by simp [Given.Has, hfirst], fun k => by grind [Given.Has], hread⟩

/-- The ways to write a member of settings with one thing wrong in it. The other subscriptions may be
any that are read. -/
inductive FaultyMember (s : Settings) : String → Form
  | connect {tokens : List Text} (h : s.connect.Faulty tokens) : FaultyMember s "connect" tokens
  | will {w : Will} {tokens : List Text} (hw : w ∈ s.will) (h : w.Faulty tokens) :
    FaultyMember s "will" tokens
  | subscriptions {tokens : List Text}
    (h : Form.FaultyList maxSubscriptions (.acceptedBy Subscription.reader)
      (fun part => ∃ x ∈ s.subscriptions, x.Faulty part) tokens) :
    FaultyMember s "subscriptions" tokens

theorem faultyMember_stopsAt {s : Settings} (hsafe : ∀ x ∈ s.strings, RawSafe x.toList) (k : String)
    (g : Given) : (g.member k).StopsAt (s.FaultyMember k) := by
  intro tokens t rest hform
  simp only [strings, List.forall_mem_append, List.mem_flatMap, Option.mem_toList] at hsafe
  obtain ⟨⟨hconnect, hwill⟩, hsubscriptions⟩ := hsafe
  cases hform with
  | connect h => exact (ConnectOptions.reader_refuses hconnect).stopsAt.once _ _ h
  | will hw h =>
    have hrefuses := Will.reader_refuses fun x hx => hwill x ⟨_, hw, hx⟩
    exact (hrefuses.nullable Form.faultyObject_opens (by decide)).stopsAt.once _ _ h
  | subscriptions h =>
    refine (listUpTo_refuses Subscription.reader_beginsWith (by decide) (by decide) ?_ ?_).stopsAt.once _ _ h
    · intro part u rest' hpart
      obtain ⟨x, -, hpart⟩ := hpart
      exact Form.faultyObject_opens hpart
    · intro part u rest' hpart
      obtain ⟨x, hx, hpart⟩ := hpart
      exact Subscription.reader_refuses (fun y hy => hsubscriptions y ⟨x, hx, hy⟩) hpart

/-- The ways to write settings with one thing wrong. -/
def Faulty (s : Settings) : Form :=
  .FaultyObject s.fields (fun k => .acceptedBy (Given.member k {})) ["connect"] s.FaultyMember

theorem reader_refuses {s : Settings} (hsafe : ∀ x ∈ s.strings, RawSafe x.toList) :
    reader.Refuses s.Faulty := by
  refine object_refuses (gathers hsafe) s.tracks (fun g k hk hhas => ?_) (faultyMember_stopsAt hsafe)
  obtain rfl := List.mem_singleton.1 hk
  simpa [Given.Has, Given.complete?] using hhas

/-- Whether a text is a way to write settings down, but for one thing: something in it is wrong, or
more than blanks follows. -/
def RendersFaulty (s : Settings) (t : Text) : Prop :=
  (∃ tokens front back, s.Faulty tokens ∧ Spaced tokens front ∧ (∀ c ∈ back, isBlank c) ∧
    t = front ++ back) ∨
  ∃ t' more, s.Renders t' ∧ (∃ c ∈ more, ¬ isBlank c) ∧ t = t' ++ more

/-- **Settings with one thing wrong are not loaded**, wherever in the text it is. -/
theorem load_of_faulty {s : Settings} (hsafe : ∀ x ∈ s.strings, RawSafe x.toList) {text : String}
    (h : s.RendersFaulty text.toList) : load text = .error .invalidParameter := by
  refine load_eq_error fun s' hload => ?_
  obtain ⟨tokens, front, back, hfaulty, hfront, hback, htext⟩ | ⟨t, more, ht, hmore, htext⟩ := h
  · rw [load_eq_ok_iff, htext] at hload
    obtain ⟨r, hread, -⟩ := ofText?_eq_some_iff.1 hload
    exact reader_refuses hsafe hfaulty hfront (noDigits_of_blank hback) hread
  · have hfront : load (.ofList t) = .ok s :=
      load_eq_ok_iff.2 (ofText?_of_renders hsafe (by rw [String.toList_ofList]; exact ht))
    have hsplit : text = .ofList t ++ .ofList more := by
      rw [← String.toList_inj, htext, String.toList_append, String.toList_ofList, String.toList_ofList]
    rw [hsplit] at hload
    obtain ⟨hblank, -⟩ := (load_append_eq_ok_iff hfront).1 hload
    obtain ⟨c, hc, hnot⟩ := hmore
    exact hnot (hblank c (by rw [String.toList_ofList]; exact hc))

/-- A guarantee that is 0 as a byte, behind all that is required. -/
theorem load_of_faulty_large :
    load ("\x7b\"connect\":\x7b\"client_identifier\":\"a\"\x7d," ++
        " \"subscriptions\":[\x7b\"topic_filter\":\"b\",\"qos\":256\x7d]\x7d\n") =
      .error .invalidParameter := by
  have hconnect : Form.object (ConnectOptions.fields { clientId := "a" }) _ :=
    ⟨[("client_identifier", [Form.quoted ['a']])], {
      nodup := by decide
      known := List.forall_mem_singleton.2 ⟨_, .tail _ (.tail _ (.head _)), rfl, rfl⟩
      complete := by simp [ConnectOptions.fields] }, rfl⟩
  have hchosen : Chosen (Subscription.fields { topicFilter := "b", qos := .exactlyOnce })
      [("topic_filter", [Form.quoted ['b']]), ("qos", [['2']])] := {
    nodup := by decide
    known := List.forall_mem_cons.2 ⟨⟨_, .tail _ (.head _), rfl, rfl⟩,
      List.forall_mem_singleton.2 ⟨_, .head _, rfl, rfl⟩⟩
    complete := by simp [Subscription.fields] }
  have hsubscription : Subscription.Faulty { topicFilter := "b", qos := .exactlyOnce } _ :=
    @Form.FaultyObject.value _ _ _ _ [_] [] "qos" _ _ hchosen ⟨rfl, .inl ⟨256, by decide, rfl⟩⟩
  have hfaulty : Settings.Faulty
      { connect := { clientId := "a" }
        subscriptions := [{ topicFilter := "b", qos := .exactlyOnce }] } _ :=
    @Form.FaultyObject.value _ _ _ _ [("connect", _)] [] "subscriptions" _ _ {
      nodup := (by decide : ["connect", "subscriptions"].Nodup)
      known := List.forall_mem_cons.2 ⟨⟨_, .head _, rfl, hconnect⟩,
        List.forall_mem_singleton.2 ⟨_, .tail _ (.tail _ (.head _)), rfl,
          [_], .cons ⟨_, hchosen, rfl⟩ .nil, rfl⟩⟩
      complete := by simp [fields] }
    (.subscriptions (@Form.FaultyList.element _ _ _ [] [] _ (List.forall_mem_nil _) (List.forall_mem_nil _)
      ⟨_, List.mem_cons_self, hsubscription⟩))
  let gaps : List Text := List.replicate 9 [] ++ [[' ']] ++ List.replicate 13 []
  refine load_of_faulty (by decide)
    (.inl ⟨_, _, ['\n'], hfaulty, @spaced_zipWith gaps _ ?_ ?_, ?_, ?_⟩)
  · decide
  · decide
  · exact List.forall_mem_singleton.2 rfl
  · rw [String.toList_append]
    decide

end Settings

end MqttCodec
