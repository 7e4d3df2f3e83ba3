/-
The strings of settings that were loaded, and where they stand in the text.
Each of them has a slot (`StringSlot`), and what was read into a record is
seen slot by slot. Every string was found between quotation marks, as it is;
only the message of a will need not stand anywhere, if the will was given
without one (`strings_of_load`).
-/
import Mathlib
import MqttCodec.Proofs.Json.Quotes
import MqttCodec.Proofs.Settings.Loading

namespace MqttCodec

open Json Reader

/-- What a string of settings is for. -/
inductive StringSlot
  | clientId
  | userName
  | password
  | willTopic
  | willMessage
  /-- The filter of the subscription with this index. -/
  | topicFilter (index : Nat)
  deriving DecidableEq, Repr

/-- The index of a subscription whose filter is meant. -/
def StringSlot.filterIndex? : StringSlot → Option Nat
  | topicFilter index => some index
  | _ => none

/-! ## Connection options -/

namespace ConnectOptions

/-- The strings of connection options. -/
def string? (o : ConnectOptions) : View StringSlot
  | .clientId => some o.clientId
  | .userName => o.userName
  | .password => o.password
  | _ => none

def Given.string? (g : Given) : View StringSlot
  | .clientId => g.clientId
  | .userName => g.userName.join
  | .password => g.password.join
  | _ => none

theorem member_addsFound : AddsFound Given.member Given.string? := by
  intro k g t g' r h
  unfold Given.member at h
  split at h
  · refine once_addsFound (finds_nothing boolean) (fun hg a slot => ?_) h
    cases slot <;> simp [Given.string?]
  · refine once_addsFound (finds_nothing (unsigned 65535)) (fun hg a slot => ?_) h
    cases slot <;> simp [Given.string?]
  · refine once_addsFound (string_finds .clientId) (fun hg a slot => ?_) h
    cases slot <;> simp [Given.string?, single, hg]
  · refine once_addsFound (string_finds .userName).nullable (fun hg a slot => ?_) h
    cases slot <;> cases a <;> simp [Given.string?, single, hg]
  · refine once_addsFound (string_finds .password).nullable (fun hg a slot => ?_) h
    cases slot <;> cases a <;> simp [Given.string?, single, hg]
  · exact skip_addsFound h

theorem reader_finds : reader.Finds string? := by
  have hnothing : ∀ slot, Given.string? {} slot = none := fun slot => by cases slot <;> rfl
  refine (object_finds member_addsFound hnothing).filterMap fun g o hcomplete => ?_
  obtain ⟨clientId, hclientId, rfl⟩ := Option.map_eq_some_iff.1 hcomplete
  funext slot
  cases slot <;> simp [string?, Given.string?, hclientId]

end ConnectOptions

/-! ## Wills -/

namespace Will

/-- The strings of a will that were given. -/
def Given.string? (g : Given) : View StringSlot
  | .willTopic => g.topic
  | .willMessage => g.message
  | _ => none

theorem member_addsFound : AddsFound Given.member Given.string? := by
  intro k g t g' r h
  unfold Given.member at h
  split at h
  · refine once_addsFound (string_finds .willTopic) (fun hg a slot => ?_) h
    cases slot <;> simp [Given.string?, single, hg]
  · refine once_addsFound (string_finds .willMessage) (fun hg a slot => ?_) h
    cases slot <;> simp [Given.string?, single, hg]
  · refine once_addsFound (finds_nothing QoS.reader) (fun hg a slot => ?_) h
    cases slot <;> simp [Given.string?]
  · refine once_addsFound (finds_nothing boolean) (fun hg a slot => ?_) h
    cases slot <;> simp [Given.string?]
  · exact skip_addsFound h

theorem given_finds : (object Given.member {}).Finds Given.string? :=
  object_finds member_addsFound fun slot => by cases slot <;> rfl

end Will

/-! ## Subscriptions -/

namespace Subscription

def Given.string? (index : Nat) (g : Given) : View StringSlot := fun slot =>
  if slot = .topicFilter index then g.topicFilter else none

theorem member_addsFound (index : Nat) : AddsFound Given.member (Given.string? index) := by
  intro k g t g' r h
  unfold Given.member at h
  split at h
  · refine once_addsFound (finds_nothing QoS.reader) (fun hg a slot => ?_) h
    simp [Given.string?]
  · refine once_addsFound (string_finds (.topicFilter index)) (fun hg a slot => ?_) h
    by_cases hslot : slot = .topicFilter index <;> simp [Given.string?, single, hg, hslot]
  · exact skip_addsFound h

theorem reader_finds (index : Nat) :
    reader.Finds fun s => single (StringSlot.topicFilter index) s.topicFilter := by
  have hnothing : ∀ slot, Given.string? index {} slot = none := fun slot => by simp [Given.string?]
  refine (object_finds (member_addsFound index) hnothing).filterMap fun g s hcomplete => ?_
  obtain ⟨filter, hfilter, rfl⟩ := Option.map_eq_some_iff.1 hcomplete
  funext slot
  simp [Given.string?, single, hfilter]

/-- The filters of a list of subscriptions, by their slots. -/
def filters (l : List Subscription) : View StringSlot
  | .topicFilter index => l[index]?.map (·.topicFilter)
  | _ => none

theorem shows_filters (l : List Subscription) :
    Shows (labelled StringSlot.topicFilter (·.topicFilter) l 0) (filters l) := by
  refine ⟨?_, fun slot x => ?_⟩
  · rw [labels_labelled]
    exact (List.nodup_range' ..).map fun _ _ h => StringSlot.topicFilter.inj h
  · rw [mem_labelled]
    cases slot <;> simp [filters]

end Subscription

/-! ## Settings -/

namespace Settings

/-- The strings of settings. -/
def string? (s : Settings) : View StringSlot
  | .willTopic => s.will.map (·.topic)
  | .willMessage => s.will.map (·.message)
  | .topicFilter index => Subscription.filters s.subscriptions (.topicFilter index)
  | slot => s.connect.string? slot

/-- The strings of settings so far, when the members of the will are known. -/
def Given.string? (w : Will.Given) (g : Given) : View StringSlot
  | .willTopic => w.string? .willTopic
  | .willMessage => w.string? .willMessage
  | .topicFilter index => g.subscriptions.bind fun l => Subscription.filters l.1 (.topicFilter index)
  | slot => g.connect.bind fun o => o.string? slot

/-- Whether a text gives a will with these members. -/
def GivesWill (t : Text) (w : Will.Given) : Prop :=
  ∃ u r, Gives Given.member {} t "will" u ∧ (object Will.Given.member {}).Takes u w r

/-- Whether a text gives a will and no message for it. -/
def LeavesOutMessage (t : Text) : Prop := ∃ w, GivesWill t w ∧ w.message = none

/-- Whether these are the members from which the will of settings was made so far. -/
def MadeOf (t : Text) (w : Will.Given) : Option Will → Prop
  | none => w = {}
  | some will => w.complete? = some will ∧ GivesWill t w

/-- The indices of the filters that were found, in the order in which they stand. -/
def filterIndices (found : List (StringSlot × String)) : List Nat :=
  (found.map Prod.fst).filterMap StringSlot.filterIndex?

theorem filterIndices_append (found found' : List (StringSlot × String)) :
    filterIndices (found ++ found') = filterIndices found ++ filterIndices found' := by
  rw [filterIndices, List.map_append, List.filterMap_append]
  rfl

theorem filterIndices_eq_nil {found : List (StringSlot × String)} {view : View StringSlot}
    (h : Shows found view) (hview : ∀ index, view (.topicFilter index) = none) :
    filterIndices found = [] := by
  refine List.filterMap_eq_nil_iff.2 fun slot hslot => ?_
  obtain ⟨⟨slot, x⟩, hx, rfl⟩ := List.mem_map.1 hslot
  cases slot with
  | topicFilter index =>
    rw [h.2, hview] at hx
    cases hx
  | _ => rfl

theorem filterIndices_labelled (l : List Subscription) :
    filterIndices (labelled StringSlot.topicFilter (·.topicFilter) l 0) = List.range l.length := by
  rw [filterIndices, labels_labelled, List.filterMap_map, List.range_eq_range']
  exact List.filterMap_some

/-- What was found when the reading of settings has come to `u`. -/
def FoundTo (t : Text) (g : Given) (u : Text) : Prop :=
  ∃ found w, Quotes t found u ∧ Shows found (g.string? w) ∧ MadeOf t w g.will.join ∧
    filterIndices found = List.range (g.subscriptions.elim 0 (·.1.length))

theorem FoundTo.add {t u v r : Text} {g g' : Given} (h : FoundTo t g u) (hu : v <:+ u)
    (hadd : ∀ w, MadeOf t w g.will.join → ∃ new added w', Quotes v new r ∧ Shows new added ∧
      Joins (g.string? w) added (g'.string? w') ∧ MadeOf t w' g'.will.join ∧
      List.range (g.subscriptions.elim 0 (·.1.length)) ++ filterIndices new =
        List.range (g'.subscriptions.elim 0 (·.1.length))) : FoundTo t g' r := by
  obtain ⟨found, w, hquotes, hshows, hmade, hindices⟩ := h
  obtain ⟨new, added, w', hquotes', hshows', hjoins, hmade', hindices'⟩ := hadd w hmade
  refine ⟨found ++ new, w', hquotes.append (hquotes'.of_suffix hu), hshows.append hshows' hjoins,
    hmade', ?_⟩
  rw [filterIndices_append, hindices, hindices']

theorem FoundTo.member {t u v r : Text} {g g' : Given} {k : String} {first : Bool}
    (h : FoundTo t g u) (hpasses : Passes Given.member {} t first g u)
    (hkey : (nextKey first).Takes u (some k) v) (hvalue : (g.member k).Takes v g' r) :
    FoundTo t g' r := by
  have hgives : Gives Given.member {} t k v := ⟨first, g, u, hpasses, hkey⟩
  refine h.add hkey.suffix fun w hw => ?_
  unfold Given.member at hvalue
  split at hvalue
  · obtain ⟨hg, o, ho, rfl⟩ := once_takes_iff.1 hvalue
    obtain ⟨new, hquotes, hshows⟩ := ConnectOptions.reader_finds ho
    refine ⟨new, o.string?, w, hquotes, hshows, fun slot => ?_, hw, ?_⟩
    · cases slot <;> simp [Given.string?, ConnectOptions.string?, hg]
    · rw [filterIndices_eq_nil hshows fun _ => rfl, List.append_nil]
  · obtain ⟨hg, o, ho, rfl⟩ := once_takes_iff.1 hvalue
    have hnone : w = {} := by
      rw [hg] at hw
      exact hw
    subst hnone
    obtain ⟨hnull, rfl⟩ | ⟨-, will, hwill, rfl⟩ := nullable_takes_iff.1 ho
    · have hr : r <:+ v := (List.suffix_append _ r).trans (hnull ▸ skipBlanks_suffix v)
      refine ⟨[], fun _ => none, {}, .nil hr, shows_nil fun _ => rfl, fun slot => ?_, rfl, ?_⟩
      · cases slot <;> simp [Given.string?]
      · exact List.append_nil _
    · obtain ⟨w', hw', hcomplete⟩ := filterMap_takes_iff.1 hwill
      obtain ⟨new, hquotes, hshows⟩ := Will.given_finds hw'
      refine ⟨new, w'.string?, w', hquotes, hshows, fun slot => ?_, ⟨hcomplete, v, r, hgives, hw'⟩, ?_⟩
      · cases slot <;> simp [Given.string?, Will.Given.string?]
      · rw [filterIndices_eq_nil hshows fun _ => rfl, List.append_nil]
  · obtain ⟨hg, l, hl, rfl⟩ := once_takes_iff.1 hvalue
    have hquotes : Quotes _ (labelled StringSlot.topicFilter (·.topicFilter) l.1 0) _ :=
      listUpTo_finds Subscription.reader_finds hl
    refine ⟨_, _, w, hquotes, Subscription.shows_filters l.1, fun slot => ?_, hw, ?_⟩
    · cases slot <;> simp [Given.string?, Subscription.filters, hg]
    · rw [filterIndices_labelled, hg]
      rfl
  · obtain ⟨-, rfl⟩ := skip_takes_iff.1 hvalue
    refine ⟨[], fun _ => none, w, .nil hvalue.suffix, shows_nil fun _ => rfl, fun slot => ?_, hw, ?_⟩
    · exact ⟨.inr rfl, (Option.or_none).symm⟩
    · exact List.append_nil _

theorem foundTo_of_passes {t u : Text} {g : Given} {first : Bool}
    (h : Passes Given.member {} t first g u) : FoundTo t g u := by
  induction h with
  | @start u hbrace =>
    have hu : u <:+ t := (List.suffix_cons _ u).trans (hbrace ▸ skipBlanks_suffix t)
    exact ⟨[], {}, .nil hu, shows_nil fun slot => by cases slot <;> rfl, rfl, rfl⟩
  | member hpasses hkey hvalue ih => exact ih.member hpasses hkey hvalue

theorem Given.of_complete {g : Given} {s : Settings} (h : g.complete? = some s) :
    g.connect = some s.connect ∧ g.will.join = s.will ∧ g.subscriptions.elim [] (·.1) = s.subscriptions := by
  obtain ⟨connect, hconnect, rfl⟩ := Option.map_eq_some_iff.1 h
  refine ⟨hconnect, rfl, ?_⟩
  rcases g with ⟨_, _, _ | l⟩ <;> rfl

/-- What settings show is what was found, but for a message that was left out. -/
theorem string?_of_complete {t : Text} {g : Given} {s : Settings} {w : Will.Given}
    (hcomplete : g.complete? = some s) (hmade : MadeOf t w g.will.join) (slot : StringSlot) :
    s.string? slot = g.string? w slot ∨
      (slot = .willMessage ∧ s.string? slot = some "" ∧ g.string? w slot = none ∧ LeavesOutMessage t) := by
  obtain ⟨hconnect, hwill, hsubscriptions⟩ := Given.of_complete hcomplete
  rw [hwill] at hmade
  cases slot with
  | clientId | userName | password => exact .inl (by simp [string?, Given.string?, hconnect])
  | topicFilter index =>
    rw [string?, ← hsubscriptions]
    refine .inl ?_
    cases hl : g.subscriptions <;> simp [Given.string?, hl, Subscription.filters]
  | willTopic =>
    refine .inl ?_
    rw [string?, Given.string?]
    cases hs : s.will with
    | none =>
      rw [hs] at hmade
      obtain rfl : w = {} := hmade
      rfl
    | some will =>
      rw [hs] at hmade
      obtain ⟨topic, htopic, rfl⟩ := Option.map_eq_some_iff.1 hmade.1
      exact htopic.symm
  | willMessage =>
    rw [string?, Given.string?]
    cases hs : s.will with
    | none =>
      rw [hs] at hmade
      obtain rfl : w = {} := hmade
      exact .inl rfl
    | some will =>
      rw [hs] at hmade
      obtain ⟨hw, hgives⟩ := hmade
      obtain ⟨topic, -, rfl⟩ := Option.map_eq_some_iff.1 hw
      cases hmessage : w.message with
      | none => exact .inr ⟨rfl, rfl, hmessage, w, hgives, hmessage⟩
      | some message => exact .inl hmessage.symm

/-- **Every string of settings stands in the text they were loaded from**, as it is and between
quotation marks of its own: each in its place, none of which overlap, and the filters in the order of
their list. Only the message of a will need not stand there, if the will was given without one; it is
empty then. -/
theorem strings_of_load {text : String} {s : Settings} (h : load text = .ok s) :
    s.subscriptions.length ≤ maxSubscriptions ∧
    ∃ places : List (Place StringSlot),
      (∀ p ∈ places, p.StandsIn text.toList ∧ s.string? p.label = some p.string) ∧
      (∀ slot x, s.string? slot = some x →
        (∃ p ∈ places, p.label = slot ∧ p.string = x) ∨
          (slot = .willMessage ∧ x = "" ∧ LeavesOutMessage text.toList)) ∧
      (places.map Place.label).Nodup ∧
      places.Pairwise (fun p q => p.stop + 1 < q.start) ∧
      (places.map Place.label).filterMap StringSlot.filterIndex? = List.range s.subscriptions.length := by
  refine ⟨s.length_subscriptions, ?_⟩
  obtain ⟨r, htakes, -⟩ := ofText?_eq_some_iff.1 (load_eq_ok_iff.1 h)
  obtain ⟨g, hobject, hcomplete⟩ := filterMap_takes_iff.1 htakes
  obtain ⟨first, u, hpasses, -⟩ := passes_of_object hobject
  obtain ⟨found, w, hquotes, ⟨hnodup, hmem⟩, hmade, hindices⟩ := foundTo_of_passes hpasses
  obtain ⟨places, rfl, hstands, hpairwise⟩ := hquotes.exists_places
  have hshown := string?_of_complete hcomplete hmade
  have hlabels : (places.map fun p => (p.label, p.string)).map Prod.fst = places.map Place.label := by
    rw [List.map_map]
    rfl
  have hlength : s.subscriptions.length = g.subscriptions.elim 0 (·.1.length) := by
    rw [← (Given.of_complete hcomplete).2.2]
    cases g.subscriptions <;> rfl
  refine ⟨places, fun p hp => ⟨hstands p hp, ?_⟩, fun slot x hx => ?_, hlabels ▸ hnodup, hpairwise, ?_⟩
  · have hp := (hmem p.label p.string).1 (List.mem_map_of_mem hp)
    obtain hsame | ⟨-, -, hnone, -⟩ := hshown p.label
    · rw [hsame, hp]
    · rw [hp] at hnone
      cases hnone
  · obtain hsame | ⟨hslot, hempty, -, hleft⟩ := hshown slot
    · rw [hsame, ← hmem] at hx
      obtain ⟨p, hp, heq⟩ := List.mem_map.1 hx
      cases heq
      exact .inl ⟨p, hp, rfl, rfl⟩
    · rw [hempty] at hx
      cases hx
      exact .inr ⟨hslot, rfl, hleft⟩
  · rw [← hlabels, hlength, ← hindices, filterIndices]

/-- A quotation mark in a name, and a will without a message. -/
theorem strings_of_load_quoted :
    let text := "\x7b\"will\":\x7b\"topic\":\"w\"\x7d,\"connect\":\x7b\"client_identifier\":\"a\\\"b\"\x7d\x7d"
    load text = .ok { connect := { clientId := "a\\\"b" }, will := some { topic := "w" } } ∧
      ∃ p : Place StringSlot, p.label = .clientId ∧ p.string = "a\\\"b" ∧ p.StandsIn text.toList := by
  intro text
  have hload : load text = .ok { connect := { clientId := "a\\\"b" }, will := some { topic := "w" } } := by
    simp only [text]
    cbv
  obtain ⟨-, places, hplaces, hstrings, -⟩ := strings_of_load hload
  obtain ⟨p, hp, hlabel, hstring⟩ | ⟨hslot, -⟩ := hstrings .clientId _ rfl
  · exact ⟨hload, p, hlabel, hstring, (hplaces p hp).1⟩
  · cases hslot

end Settings

end MqttCodec
