/-
What becomes of settings that are saved and loaded again. Saving escapes
strings and loading takes them as they stand, so the settings come back with
every string escaped: the text saved is a way to write those settings down
(`Settings.renders_toText`). They come back unchanged only if nothing in them
had to be escaped.
-/
import MqttCodec.Proofs.Settings.Rendering
import MqttCodec.Settings.Saving

namespace MqttCodec

open Json

variable {f : String → String}

theorem list_map_eq_self_iff {α : Type} {f : α → α} {l : List α} : l.map f = l ↔ ∀ a ∈ l, f a = a := by
  induction l <;> simp_all

theorem option_map_eq_self_iff {α : Type} {f : α → α} {o : Option α} :
    o.map f = o ↔ ∀ a ∈ o.toList, f a = a := by
  cases o <;> simp

namespace ConnectOptions

/-- Connection options with something done to every string. -/
def mapStrings (f : String → String) (o : ConnectOptions) : ConnectOptions :=
  { o with clientId := f o.clientId, userName := o.userName.map f, password := o.password.map f }

theorem strings_mapStrings (o : ConnectOptions) : (o.mapStrings f).strings = o.strings.map f := by
  simp [strings, mapStrings, Option.toList_map]

theorem mapStrings_eq_self_iff {o : ConnectOptions} : o.mapStrings f = o ↔ ∀ x ∈ o.strings, f x = x := by
  rw [strings, List.forall_mem_cons, List.forall_mem_append, ← option_map_eq_self_iff,
    ← option_map_eq_self_iff]
  cases o
  simp [mapStrings]

theorem toText_writes (o : ConnectOptions) :
    (Form.object (o.mapStrings escapeString).fields).Writes o.toText :=
  object_writes (by simp [fields]) <|
    .cons ⟨rfl, bool_writes _⟩ <| .cons ⟨rfl, nat_writes _⟩ <| .cons ⟨rfl, string_writes _⟩ <|
      .cons ⟨rfl, nullable_writes string_writes _⟩ <| .cons ⟨rfl, nullable_writes string_writes _⟩ .nil

end ConnectOptions

namespace Will

/-- A will with something done to every string. -/
def mapStrings (f : String → String) (w : Will) : Will :=
  { w with topic := f w.topic, message := f w.message }

theorem strings_mapStrings (w : Will) : (w.mapStrings f).strings = w.strings.map f := rfl

theorem mapStrings_eq_self_iff {w : Will} : w.mapStrings f = w ↔ ∀ x ∈ w.strings, f x = x := by
  cases w
  simp [mapStrings, strings]

theorem toText_writes (w : Will) : (Form.object (w.mapStrings escapeString).fields).Writes w.toText :=
  object_writes (by simp [fields]) <|
    .cons ⟨rfl, string_writes _⟩ <| .cons ⟨rfl, string_writes _⟩ <| .cons ⟨rfl, nat_writes _⟩ <|
      .cons ⟨rfl, bool_writes _⟩ .nil

end Will

namespace Subscription

/-- A subscription with something done to its filter. -/
def mapStrings (f : String → String) (s : Subscription) : Subscription :=
  { s with topicFilter := f s.topicFilter }

theorem strings_mapStrings (s : Subscription) : (s.mapStrings f).strings = s.strings.map f := rfl

theorem mapStrings_eq_self_iff {s : Subscription} : s.mapStrings f = s ↔ ∀ x ∈ s.strings, f x = x := by
  cases s
  simp [mapStrings, strings]

theorem toText_writes (s : Subscription) :
    (Form.object (s.mapStrings escapeString).fields).Writes s.toText :=
  object_writes (by simp [fields]) <| .cons ⟨rfl, nat_writes _⟩ <| .cons ⟨rfl, string_writes _⟩ .nil

end Subscription

namespace Settings

/-- Settings with something done to every string. -/
def mapStrings (f : String → String) (s : Settings) : Settings where
  connect := s.connect.mapStrings f
  will := s.will.map (Will.mapStrings f)
  subscriptions := s.subscriptions.map (Subscription.mapStrings f)
  length_subscriptions := by rw [List.length_map]; exact s.length_subscriptions

theorem strings_mapStrings (s : Settings) : (s.mapStrings f).strings = s.strings.map f := by
  simp only [strings, mapStrings, ConnectOptions.strings_mapStrings, Option.toList_map, List.flatMap_map,
    Will.strings_mapStrings, Subscription.strings_mapStrings, List.map_append, List.map_flatMap]

theorem mapStrings_eq_self_iff {s : Settings} : s.mapStrings f = s ↔ ∀ x ∈ s.strings, f x = x := by
  simp only [strings, List.forall_mem_append, List.forall_mem_flatMap,
    ← ConnectOptions.mapStrings_eq_self_iff, ← Will.mapStrings_eq_self_iff, ← Subscription.mapStrings_eq_self_iff]
  rw [← option_map_eq_self_iff, ← list_map_eq_self_iff]
  cases s
  simp [mapStrings, and_assoc]

theorem toText_writes (s : Settings) :
    (Form.object (s.mapStrings escapeString).fields).Writes s.toText := by
  have hwill := @nullable_writes _ _ (Will.mapStrings escapeString) (fun w => .object w.fields) _
    Will.toText_writes s.will
  have hsubscriptions : List.Forall₂ Form.Writes
      ((s.subscriptions.map (Subscription.mapStrings escapeString)).map fun x => .object x.fields)
      (s.subscriptions.map Subscription.toText) := by
    rw [List.map_map, List.forall₂_map_left_iff, List.forall₂_map_right_iff, List.forall₂_same]
    exact fun x _ => x.toText_writes
  exact object_writes (by simp [fields]) <|
    .cons ⟨rfl, s.connect.toText_writes⟩ <| .cons ⟨rfl, hwill⟩ <|
      .cons ⟨rfl, list_writes hsubscriptions⟩ .nil

/-- What is saved is a way to write down the settings with every string escaped. -/
theorem renders_toText (s : Settings) : (s.mapStrings escapeString).Renders s.toText := by
  obtain ⟨tokens, hform, hflatten⟩ := s.toText_writes
  exact ⟨tokens, s.toText, [], hform, hflatten ▸ spaced_flatten tokens, List.forall_mem_nil _,
    (List.append_nil _).symm⟩

theorem toList_of_save {s : Settings} {capacity : Nat} {text : String} (h : s.save capacity = .ok text) :
    text.toList = s.toText := by
  simp only [save] at h
  split at h
  · cases h
    exact String.toList_ofList
  · cases h

variable {s : Settings} {capacity : Nat} {text : String}

/-- **Settings that are saved come back with their strings escaped**, and unchanged exactly if there
was nothing to escape. -/
theorem load_of_save (h : s.save capacity = .ok text) :
    load text = .ok (s.mapStrings escapeString) ∧
      (load text = .ok s ↔ ∀ x ∈ s.strings, ∀ c ∈ x.toList, Plain c) := by
  have hsafe : ∀ x ∈ (s.mapStrings escapeString).strings, RawSafe x.toList := by
    rw [strings_mapStrings, List.forall_mem_map]
    exact fun x _ => rawSafe_escapeString x
  have hload : load text = .ok (s.mapStrings escapeString) := by
    rw [load_eq_ok_iff, toList_of_save h]
    exact ofText?_of_renders hsafe s.renders_toText
  refine ⟨hload, ?_⟩
  rw [hload, Except.ok.injEq, mapStrings_eq_self_iff]
  exact forall₂_congr fun x _ => escapeString_eq_self_iff

/-- What is saved of a client identifier with a quotation mark and then a backslash at its end. -/
theorem load_of_save_quoted :
    load ("\x7b\"connect\":\x7b\"clean_session\":false,\"keep_alive_seconds\":60," ++
        "\"client_identifier\":\"a\\\"\\\\\",\"user_name\":null,\"password\":null\x7d," ++
        "\"will\":null,\"subscriptions\":[]\x7d") =
      .ok { connect := { clientId := "a\\\"\\\\", keepAliveSeconds := 60 } } := by
  have hescaped : mapStrings escapeString { connect := { clientId := "a\"\\", keepAliveSeconds := 60 } } =
      { connect := { clientId := "a\\\"\\\\", keepAliveSeconds := 60 } } := by decide
  rw [← hescaped]
  exact (@load_of_save _ 200 _ (by decide +kernel)).1

end Settings

end MqttCodec
