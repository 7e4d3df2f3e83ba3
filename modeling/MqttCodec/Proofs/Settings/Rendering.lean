/-
The ways to write settings down, and that each of them is loaded as the same
settings. The members of every object may come in any order. A member that
has its default value may be left out, and an option that is absent may also
be written as `null`.
-/
import MqttCodec.Proofs.Json.Rendering
import MqttCodec.Proofs.Settings.Loading

namespace MqttCodec

open Json Reader

namespace Json

/-- What a record shows of a member, once its key has been read. -/
def ifRead {α : Type} (keys : List String) (key : String) (a : α) : Option α :=
  if key ∈ keys then some a else none

section IfRead

variable {α : Type} {keys : List String} {key key' : String} {a d : α}

theorem ifRead_of_mem (h : key ∈ keys) : ifRead keys key a = some a := if_pos h

theorem ifRead_of_not_mem (h : key ∉ keys) : ifRead keys key a = none := if_neg h

@[simp] theorem ifRead_self : ifRead (key :: keys) key a = some a := ifRead_of_mem List.mem_cons_self

theorem ifRead_of_ne (h : key ≠ key') : ifRead (key' :: keys) key a = ifRead keys key a := by
  simp [ifRead, h]

theorem getD_ifRead (h : key ∈ keys ∨ a = d) : (ifRead keys key a).getD d = a := by
  unfold ifRead
  split
  · rfl
  · exact (h.resolve_left ‹_›).symm

theorem join_ifRead {o : Option α} (h : key ∈ keys ∨ o = none) : (ifRead keys key o).join = o := by
  unfold ifRead
  split
  · rfl
  · exact (h.resolve_left ‹_›).symm

end IfRead

end Json

theorem QoS.reader_accepts (q : QoS) : QoS.reader.Accepts q (.nat q.level.toNat) := by
  intro tokens t rest hform ht hrest
  have hlimit : q.level.toNat ≤ 255 := Nat.le_of_lt_succ q.level.toNat_lt
  refine filterMap_takes_iff.2 ⟨_, unsigned_accepts hlimit tokens t rest hform ht hrest, ?_⟩
  cases q <;> rfl

namespace ConnectOptions

/-- The members of connection options. -/
def fields (o : ConnectOptions) : List Field :=
  [{ key := "clean_session", form := .bool o.cleanSession, Omissible := o.cleanSession = false },
    { key := "keep_alive_seconds", form := .nat o.keepAliveSeconds.toNat,
      Omissible := o.keepAliveSeconds = 0 },
    { key := "client_identifier", form := .string o.clientId, Omissible := False },
    { key := "user_name", form := .nullable .string o.userName, Omissible := o.userName = none },
    { key := "password", form := .nullable .string o.password, Omissible := o.password = none }]

/-- What is known of connection options by the keys that have been read. -/
def given (o : ConnectOptions) (keys : List String) : Given where
  cleanSession := ifRead keys "clean_session" o.cleanSession
  keepAliveSeconds := ifRead keys "keep_alive_seconds" o.keepAliveSeconds.toNat
  clientId := ifRead keys "client_identifier" o.clientId
  userName := ifRead keys "user_name" o.userName
  password := ifRead keys "password" o.password

/-- The strings in connection options. -/
def strings (o : ConnectOptions) : List String := o.clientId :: (o.userName.toList ++ o.password.toList)

theorem gathers {o : ConnectOptions} (hsafe : ∀ x ∈ o.strings, RawSafe x.toList) :
    Gathers Given.member o.fields o.given := by
  intro f hf keys hnew
  simp only [strings, List.mem_cons, List.mem_append, Option.mem_toList] at hsafe
  have hid : Accepts string o.clientId (.string o.clientId) := string_accepts (hsafe _ (.inl rfl))
  have huser : Accepts (nullable string) o.userName (.nullable .string o.userName) :=
    nullable_accepts string_beginsWith (by decide) fun x hx => string_accepts (hsafe x (.inr (.inl hx)))
  have hpassword : Accepts (nullable string) o.password (.nullable .string o.password) :=
    nullable_accepts string_beginsWith (by decide) fun x hx => string_accepts (hsafe x (.inr (.inr hx)))
  have halive := unsigned_accepts (Nat.le_of_lt_succ o.keepAliveSeconds.toNat_lt)
  simp only [fields, List.mem_cons, List.not_mem_nil, or_false] at hf
  rcases hf with rfl | rfl | rfl | rfl | rfl <;> simp only [Given.member]
  · exact once_accepts (ifRead_of_not_mem hnew) (boolean_accepts _) (by simp [given, ifRead_of_ne])
  · exact once_accepts (ifRead_of_not_mem hnew) halive (by simp [given, ifRead_of_ne])
  · exact once_accepts (ifRead_of_not_mem hnew) hid (by simp [given, ifRead_of_ne])
  · exact once_accepts (ifRead_of_not_mem hnew) huser (by simp [given, ifRead_of_ne])
  · exact once_accepts (ifRead_of_not_mem hnew) hpassword (by simp [given, ifRead_of_ne])

theorem complete?_given {o : ConnectOptions} {keys : List String}
    (h : ∀ f ∈ o.fields, f.key ∈ keys ∨ f.Omissible) : (o.given keys).complete? = some o := by
  simp only [fields, List.forall_mem_cons] at h
  obtain ⟨hclean, halive, hid, huser, hpassword, -⟩ := h
  have halive' : "keep_alive_seconds" ∈ keys ∨ o.keepAliveSeconds.toNat = 0 :=
    halive.imp_right fun hzero => by simp [hzero]
  simp only [given, Given.complete?, getD_ifRead hclean, getD_ifRead halive',
    ifRead_of_mem (hid.resolve_right id), join_ifRead huser, join_ifRead hpassword]
  simp

theorem reader_accepts {o : ConnectOptions} (hsafe : ∀ x ∈ o.strings, RawSafe x.toList) :
    reader.Accepts o (.object o.fields) :=
  object_accepts (gathers hsafe) fun _ => complete?_given

end ConnectOptions

namespace Will

/-- The members of a will. -/
def fields (w : Will) : List Field :=
  [{ key := "topic", form := .string w.topic, Omissible := False },
    { key := "message", form := .string w.message, Omissible := w.message = "" },
    { key := "qos", form := .nat w.qos.level.toNat, Omissible := w.qos = .atMostOnce },
    { key := "retain", form := .bool w.retain, Omissible := w.retain = false }]

/-- What is known of a will by the keys that have been read. -/
def given (w : Will) (keys : List String) : Given where
  topic := ifRead keys "topic" w.topic
  message := ifRead keys "message" w.message
  qos := ifRead keys "qos" w.qos
  retain := ifRead keys "retain" w.retain

/-- The strings in a will. -/
def strings (w : Will) : List String := [w.topic, w.message]

theorem gathers {w : Will} (hsafe : ∀ x ∈ w.strings, RawSafe x.toList) :
    Gathers Given.member w.fields w.given := by
  intro f hf keys hnew
  simp only [strings, List.forall_mem_cons] at hsafe
  have htopic : Accepts string w.topic (.string w.topic) := string_accepts hsafe.1
  have hmessage : Accepts string w.message (.string w.message) := string_accepts hsafe.2.1
  simp only [fields, List.mem_cons, List.not_mem_nil, or_false] at hf
  rcases hf with rfl | rfl | rfl | rfl <;> simp only [Given.member]
  · exact once_accepts (ifRead_of_not_mem hnew) htopic (by simp [given, ifRead_of_ne])
  · exact once_accepts (ifRead_of_not_mem hnew) hmessage (by simp [given, ifRead_of_ne])
  · exact once_accepts (ifRead_of_not_mem hnew) (QoS.reader_accepts _) (by simp [given, ifRead_of_ne])
  · exact once_accepts (ifRead_of_not_mem hnew) (boolean_accepts _) (by simp [given, ifRead_of_ne])

theorem complete?_given {w : Will} {keys : List String}
    (h : ∀ f ∈ w.fields, f.key ∈ keys ∨ f.Omissible) : (w.given keys).complete? = some w := by
  simp only [fields, List.forall_mem_cons] at h
  obtain ⟨htopic, hmessage, hqos, hretain, -⟩ := h
  simp only [given, Given.complete?, ifRead_of_mem (htopic.resolve_right id), getD_ifRead hmessage,
    getD_ifRead hqos, getD_ifRead hretain, Option.map_some]

theorem reader_accepts {w : Will} (hsafe : ∀ x ∈ w.strings, RawSafe x.toList) :
    reader.Accepts w (.object w.fields) :=
  object_accepts (gathers hsafe) fun _ => complete?_given

end Will

namespace Subscription

/-- The members of a subscription. -/
def fields (s : Subscription) : List Field :=
  [{ key := "qos", form := .nat s.qos.level.toNat, Omissible := s.qos = .atMostOnce },
    { key := "topic_filter", form := .string s.topicFilter, Omissible := False }]

/-- What is known of a subscription by the keys that have been read. -/
def given (s : Subscription) (keys : List String) : Given where
  qos := ifRead keys "qos" s.qos
  topicFilter := ifRead keys "topic_filter" s.topicFilter

/-- The strings in a subscription. -/
def strings (s : Subscription) : List String := [s.topicFilter]

theorem gathers {s : Subscription} (hsafe : ∀ x ∈ s.strings, RawSafe x.toList) :
    Gathers Given.member s.fields s.given := by
  intro f hf keys hnew
  have hfilter : Accepts string s.topicFilter (.string s.topicFilter) :=
    string_accepts (hsafe _ List.mem_cons_self)
  simp only [fields, List.mem_cons, List.not_mem_nil, or_false] at hf
  rcases hf with rfl | rfl <;> simp only [Given.member]
  · exact once_accepts (ifRead_of_not_mem hnew) (QoS.reader_accepts _) (by simp [given, ifRead_of_ne])
  · exact once_accepts (ifRead_of_not_mem hnew) hfilter (by simp [given, ifRead_of_ne])

theorem complete?_given {s : Subscription} {keys : List String}
    (h : ∀ f ∈ s.fields, f.key ∈ keys ∨ f.Omissible) : (s.given keys).complete? = some s := by
  simp only [fields, List.forall_mem_cons] at h
  obtain ⟨hqos, hfilter, -⟩ := h
  simp only [given, Given.complete?, getD_ifRead hqos, ifRead_of_mem (hfilter.resolve_right id),
    Option.map_some]

theorem reader_accepts {s : Subscription} (hsafe : ∀ x ∈ s.strings, RawSafe x.toList) :
    reader.Accepts s (.object s.fields) :=
  object_accepts (gathers hsafe) fun _ => complete?_given

end Subscription

namespace Settings

/-- The members of settings. -/
def fields (s : Settings) : List Field :=
  [{ key := "connect", form := .object s.connect.fields, Omissible := False },
    { key := "will", form := .nullable (fun w => .object w.fields) s.will, Omissible := s.will = none },
    { key := "subscriptions", form := .list (s.subscriptions.map fun x => .object x.fields),
      Omissible := s.subscriptions = [] }]

/-- The subscriptions of settings, which are few enough. -/
def subscriptionList (s : Settings) : ListUpTo maxSubscriptions Subscription :=
  ⟨s.subscriptions, s.length_subscriptions⟩

/-- What is known of settings by the keys that have been read. -/
def given (s : Settings) (keys : List String) : Given where
  connect := ifRead keys "connect" s.connect
  will := ifRead keys "will" s.will
  subscriptions := ifRead keys "subscriptions" s.subscriptionList

/-- The strings in settings. -/
def strings (s : Settings) : List String :=
  s.connect.strings ++ s.will.toList.flatMap Will.strings ++ s.subscriptions.flatMap Subscription.strings

theorem gathers {s : Settings} (hsafe : ∀ x ∈ s.strings, RawSafe x.toList) :
    Gathers Given.member s.fields s.given := by
  intro f hf keys hnew
  simp only [strings, List.forall_mem_append, List.mem_flatMap, Option.mem_toList] at hsafe
  obtain ⟨⟨hconnect, hwill⟩, hsubscriptions⟩ := hsafe
  have haccepts : Accepts (nullable Will.reader) s.will (.nullable (fun w => .object w.fields) s.will) :=
    nullable_accepts Will.reader_beginsWith (by decide) fun w hw =>
      Will.reader_accepts fun x hx => hwill x ⟨w, hw, hx⟩
  have haccepts' : Accepts (listUpTo maxSubscriptions Subscription.reader) s.subscriptionList
      (.list (s.subscriptions.map fun x => .object x.fields)) :=
    listUpTo_accepts Subscription.reader_beginsWith (by decide) (by decide) fun a ha =>
      Subscription.reader_accepts fun x hx => hsubscriptions x ⟨a, ha, hx⟩
  simp only [fields, List.mem_cons, List.not_mem_nil, or_false] at hf
  rcases hf with rfl | rfl | rfl <;> simp only [Given.member]
  · exact once_accepts (ifRead_of_not_mem hnew) (ConnectOptions.reader_accepts hconnect)
      (by simp [given, ifRead_of_ne])
  · exact once_accepts (ifRead_of_not_mem hnew) haccepts (by simp [given, ifRead_of_ne])
  · exact once_accepts (ifRead_of_not_mem hnew) haccepts' (by simp [given, ifRead_of_ne])

theorem complete?_given {s : Settings} {keys : List String}
    (h : ∀ f ∈ s.fields, f.key ∈ keys ∨ f.Omissible) : (s.given keys).complete? = some s := by
  simp only [fields, List.forall_mem_cons] at h
  obtain ⟨hconnect, hwill, hsubscriptions, -⟩ := h
  have hlist : "subscriptions" ∈ keys ∨ s.subscriptionList = ⟨[], Nat.zero_le _⟩ :=
    hsubscriptions.imp_right Subtype.ext
  simp only [given, Given.complete?, ifRead_of_mem (hconnect.resolve_right id), join_ifRead hwill,
    getD_ifRead hlist, Option.map_some]
  rfl

theorem reader_accepts {s : Settings} (hsafe : ∀ x ∈ s.strings, RawSafe x.toList) :
    reader.Accepts s (.object s.fields) :=
  object_accepts (gathers hsafe) fun _ => complete?_given

/-- Whether a text is a way to write settings down: an object of their members, with any blanks
between its tokens and around it. -/
def Renders (s : Settings) (t : Text) : Prop :=
  ∃ tokens front back, Form.object s.fields tokens ∧ Spaced tokens front ∧ (∀ c ∈ back, isBlank c) ∧
    t = front ++ back

theorem ofText?_of_renders {s : Settings} (hsafe : ∀ x ∈ s.strings, RawSafe x.toList) {t : Text}
    (h : s.Renders t) : ofText? t = some s := by
  obtain ⟨tokens, front, back, hform, hfront, hback, rfl⟩ := h
  refine ofText?_eq_some_iff.2 ⟨back, ?_, hback⟩
  exact reader_accepts hsafe tokens front back hform hfront (noDigits_of_blank hback)

/-- **Settings are loaded from whatever way they are written**, if their strings can stand between
quotation marks as they are. -/
theorem load_of_renders {s : Settings} (hsafe : ∀ x ∈ s.strings, RawSafe x.toList) {text : String}
    (h : s.Renders text.toList) : load text = .ok s :=
  load_eq_ok_iff.2 (ofText?_of_renders hsafe h)

/-- Members in an order of their own, some left out, one absent, and a quotation mark in a string. -/
theorem load_of_renders_reordered :
    load (" \x7b\"subscriptions\": [\x7b\"topic_filter\":\"a\" ,\"qos\":2\x7d],\n " ++
        "\"connect\":\x7b\"password\":null,\"client_identifier\":\"say \\\"hi\\\"\"\x7d\x7d\t") =
      .ok { connect := { clientId := "say \\\"hi\\\"" },
            subscriptions := [{ topicFilter := "a", qos := .exactlyOnce }] } := by
  have hsubscription : Form.object (Subscription.fields { topicFilter := "a", qos := .exactlyOnce }) _ :=
    ⟨[("topic_filter", [Form.quoted ['a']]), ("qos", [['2']])], {
      nodup := by decide
      known := List.forall_mem_cons.2 ⟨⟨_, .tail _ (.head _), rfl, rfl⟩,
        List.forall_mem_singleton.2 ⟨_, .head _, rfl, rfl⟩⟩
      complete := by simp [Subscription.fields] }, rfl⟩
  have hconnect : Form.object (ConnectOptions.fields { clientId := "say \\\"hi\\\"" }) _ :=
    ⟨[("password", [['n', 'u', 'l', 'l']]),
        ("client_identifier", [Form.quoted "say \\\"hi\\\"".toList])], {
      nodup := by decide
      known := List.forall_mem_cons.2 ⟨⟨_, .tail _ (.tail _ (.tail _ (.tail _ (.head _)))), rfl, rfl⟩,
        List.forall_mem_singleton.2 ⟨_, .tail _ (.tail _ (.head _)), rfl, rfl⟩⟩
      complete := by simp [ConnectOptions.fields] }, rfl⟩
  let gaps : List Text := [[' '], [], [], [' ']] ++ List.replicate 4 [] ++ [[' ']] ++
    List.replicate 6 [] ++ [['\n', ' ']] ++ List.replicate 11 []
  refine load_of_renders (by decide) ⟨_, _, ['\t'], ⟨[("subscriptions", _), ("connect", _)], {
      nodup := (by decide : ["subscriptions", "connect"].Nodup)
      known := List.forall_mem_cons.2
        ⟨⟨_, .tail _ (.tail _ (.head _)), rfl, [_], .cons hsubscription .nil, rfl⟩,
          List.forall_mem_singleton.2 ⟨_, .head _, rfl, hconnect⟩⟩
      complete := by simp [fields] }, rfl⟩, @spaced_zipWith gaps _ ?_ ?_, ?_, ?_⟩
  · decide
  · decide
  · exact List.forall_mem_singleton.2 rfl
  · rw [String.toList_append]
    decide

end Settings

end MqttCodec
