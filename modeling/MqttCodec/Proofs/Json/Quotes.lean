/-
Where the strings that a reader found stand in the text. They stand there as
they are, each between quotation marks of its own, in the order in which they
were read (`Quotes`), so no two of them share a character
(`Quotes.exists_places`). What is read into a record is seen through the
labels of its strings: `Finds` says that the strings of what a reader takes
are just those it found, and holds of an object if every member adds to the
record what is found in it (`object_finds`).
-/
import Mathlib.Data.List.Nodup
import MqttCodec.Proofs.Json.Skipping
import MqttCodec.Proofs.Json.Strings

namespace MqttCodec.Json

/-- Strings with labels that stand in a text one after the other, each between quotation marks of
its own. Behind the last one there is `r`. -/
inductive Quotes {ι : Type} : Text → List (ι × String) → Text → Prop
  | nil {t r : Text} (h : r <:+ t) : Quotes t [] r
  | cons {t u r : Text} {label : ι} {x : String} {found : List (ι × String)}
    (hquote : ('"' :: (x.toList ++ '"' :: u)) <:+ t) (hsafe : RawSafe x.toList)
    (hrest : Quotes u found r) : Quotes t ((label, x) :: found) r

variable {ι : Type} {t u r : Text} {found found' : List (ι × String)}

namespace Quotes

theorem of_suffix (ht : u <:+ t) (h : Quotes u found r) : Quotes t found r := by
  cases h with
  | nil hr => exact .nil (hr.trans ht)
  | cons hquote hsafe hrest => exact .cons (hquote.trans ht) hsafe hrest

theorem append (h : Quotes t found u) (h' : Quotes u found' r) : Quotes t (found ++ found') r := by
  induction h with
  | nil hu => exact h'.of_suffix hu
  | cons hquote hsafe _ ih => exact .cons hquote hsafe (ih h')

end Quotes

/-! ## Places -/

/-- A string with a label, and where it begins. -/
structure Place (ι : Type) where
  label : ι
  start : Nat
  string : String

namespace Place

/-- Where the quotation mark behind the string stands. -/
def stop (p : Place ι) : Nat := p.start + p.string.toList.length

/-- Whether the string stands there as it is, between quotation marks that its own ones and its
backslashes leave alone. -/
def StandsIn (p : Place ι) (t : Text) : Prop :=
  RawSafe p.string.toList ∧
    ∃ front back, t = front ++ '"' :: (p.string.toList ++ '"' :: back) ∧ p.start = front.length + 1

/-- The same place when something stands before the text. -/
def shift (n : Nat) (p : Place ι) : Place ι := { p with start := p.start + n }

theorem StandsIn.shift {p : Place ι} (h : p.StandsIn t) (front : Text) :
    (p.shift front.length).StandsIn (front ++ t) := by
  obtain ⟨hsafe, front', back, rfl, hstart⟩ := h
  refine ⟨hsafe, front ++ front', back, (List.append_assoc ..).symm, ?_⟩
  change p.start + front.length = (front ++ front').length + 1
  rw [hstart, List.length_append]
  omega

end Place

/-- **Strings that stand one after the other do not overlap**, their quotation marks included. -/
theorem Quotes.exists_places (h : Quotes t found r) :
    ∃ places : List (Place ι), places.map (fun p => (p.label, p.string)) = found ∧
      (∀ p ∈ places, p.StandsIn t) ∧ places.Pairwise fun p q => p.stop + 1 < q.start := by
  induction h with
  | nil => exact ⟨[], rfl, List.forall_mem_nil _, .nil⟩
  | @cons t u r label x found hquote hsafe _ ih =>
    obtain ⟨places, hfound, hstands, hpairwise⟩ := ih
    obtain ⟨front, rfl⟩ := hquote
    -- all that stands before the places found behind this one
    let before : Text := front ++ '"' :: (x.toList ++ ['"'])
    have hbefore : before.length = front.length + 1 + x.toList.length + 1 := by
      simp only [before, List.length_append, List.length_cons, List.length_nil]
      omega
    have ht : front ++ '"' :: (x.toList ++ '"' :: u) = before ++ u := by simp [before]
    refine ⟨⟨label, front.length + 1, x⟩ :: places.map (Place.shift before.length), ?_, ?_, ?_⟩
    · rw [List.map_cons, List.map_map, ← hfound]
      rfl
    · refine List.forall_mem_cons.2 ⟨⟨hsafe, front, u, rfl, rfl⟩, List.forall_mem_map.2 fun p hp => ?_⟩
      rw [ht]
      exact (hstands p hp).shift before
    · refine List.pairwise_cons.2 ⟨List.forall_mem_map.2 fun p hp => ?_, ?_⟩
      · obtain ⟨-, _, _, -, hstart⟩ := hstands p hp
        simp only [Place.stop, Place.shift]
        omega
      · rw [List.pairwise_map]
        refine hpairwise.imp fun h => ?_
        simp only [Place.stop, Place.shift] at h ⊢
        omega

/-! ## Records -/

/-- The strings of a record, by their labels. -/
abbrev View (ι : Type) := ι → Option String

/-- Whether what was found is all that a record shows, once each. -/
def Shows (found : List (ι × String)) (view : View ι) : Prop :=
  (found.map Prod.fst).Nodup ∧ ∀ label x, (label, x) ∈ found ↔ view label = some x

/-- Whether a view shows what two others show, which have no label in common. -/
def Joins (view added all : View ι) : Prop :=
  ∀ label, (view label = none ∨ added label = none) ∧ all label = (view label).or (added label)

/-- The view of one string. -/
def single [DecidableEq ι] (label : ι) (x : String) : View ι := fun label' =>
  if label' = label then some x else none

theorem shows_single [DecidableEq ι] (label : ι) (x : String) : Shows [(label, x)] (single label x) := by
  refine ⟨List.nodup_singleton label, fun label' x' => ?_⟩
  rw [List.mem_singleton, single, Prod.mk.injEq, Option.ite_none_right_eq_some, Option.some.injEq,
    eq_comm (a := x)]

/-- What was found is determined by what it shows, up to its order. -/
theorem Shows.perm {view : View ι} (h : Shows found view) (h' : Shows found' view) : found.Perm found' := by
  obtain ⟨hnodup, hmem⟩ := h
  obtain ⟨hnodup', hmem'⟩ := h'
  refine (List.perm_ext_iff_of_nodup (hnodup.of_map _) (hnodup'.of_map _)).2 fun p => ?_
  rw [hmem, hmem']

theorem shows_nil {view : View ι} (h : ∀ label, view label = none) : Shows [] view :=
  ⟨List.nodup_nil, fun label x => by simp [h]⟩

theorem Shows.append {view added all : View ι} (h : Shows found view) (h' : Shows found' added)
    (hjoins : Joins view added all) : Shows (found ++ found') all := by
  obtain ⟨hnodup, hmem⟩ := h
  obtain ⟨hnodup', hmem'⟩ := h'
  refine ⟨?_, fun label x => ?_⟩
  · rw [List.map_append]
    refine hnodup.append hnodup' fun label hl hl' => ?_
    obtain ⟨⟨label, x⟩, hx, rfl⟩ := List.mem_map.1 hl
    obtain ⟨⟨label', y⟩, hy, heq⟩ := List.mem_map.1 hl'
    obtain rfl : label' = label := heq
    obtain ⟨hnone | hnone, -⟩ := hjoins label'
    · rw [(hmem _ _).1 hx] at hnone
      cases hnone
    · rw [(hmem' _ _).1 hy] at hnone
      cases hnone
  · obtain ⟨hnone | hnone, hall⟩ := hjoins label
    · rw [List.mem_append, hmem, hmem', hall, hnone]
      simp
    · rw [List.mem_append, hmem, hmem', hall, hnone]
      simp

open Reader

section Readers

variable {α β σ : Type} {read : Reader α}

theorem Reader.Takes.suffix {a : α} (h : read.Takes t a r) : r <:+ t := by
  obtain ⟨hr, -⟩ := h
  exact hr.1

/-- Whether the strings of what a reader takes are just those that stand in what was read. -/
def Reader.Finds (read : Reader α) (view : α → View ι) : Prop :=
  ∀ ⦃t : Text⦄ ⦃a : α⦄ ⦃r : Text⦄, read.Takes t a r →
    ∃ found, Quotes t found r ∧ Shows found (view a)

/-- What holds no strings shows none. -/
theorem finds_nothing (read : Reader α) : read.Finds fun _ (_ : ι) => none :=
  fun _ _ _ h => ⟨[], .nil h.suffix, shows_nil fun _ => rfl⟩

theorem string_finds [DecidableEq ι] (label : ι) : Finds string (single label) := by
  intro t x r h
  obtain ⟨u, hu, hclose⟩ := string_takes_iff.1 h
  obtain ⟨rfl, hsafe⟩ := closeString_eq_some_iff.1 hclose
  exact ⟨[(label, x)], .cons (hu ▸ skipBlanks_suffix t) hsafe (.nil List.suffix_rfl), shows_single label x⟩

theorem Reader.Finds.nullable {view : α → View ι} (h : read.Finds view) :
    (nullable read).Finds fun o label => o.bind (view · label) := by
  intro t o r htakes
  obtain ⟨hnull, rfl⟩ | ⟨-, a, ha, rfl⟩ := nullable_takes_iff.1 htakes
  · have hr : r <:+ t := (List.suffix_append _ r).trans (hnull ▸ skipBlanks_suffix t)
    exact ⟨[], .nil hr, shows_nil fun _ => rfl⟩
  · exact h ha

theorem Reader.Finds.filterMap {view : α → View ι} {view' : β → View ι} {f : α → Option β}
    (h : read.Finds view) (hf : ∀ a b, f a = some b → view' b = view a) :
    (read.filterMap f).Finds view' := by
  intro t b r htakes
  obtain ⟨a, ha, hb⟩ := filterMap_takes_iff.1 htakes
  rw [hf a b hb]
  exact h ha

end Readers

/-! ## Objects -/

section Objects

variable {σ : Type} {member : String → σ → Reader σ} {known g : σ} {first : Bool}

/-- Where the reading of an object's members comes to, and what is known there. -/
inductive Passes (member : String → σ → Reader σ) (known : σ) (t : Text) : Bool → σ → Text → Prop
  | start {u : Text} (hbrace : skipBlanks t = '\x7b' :: u) : Passes member known t true known u
  | member {first : Bool} {g g' : σ} {u v w : Text} {k : String} (h : Passes member known t first g u)
    (hkey : (nextKey first).Takes u (some k) v) (hvalue : (member k g).Takes v g' w) :
    Passes member known t false g' w

/-- Whether an object has a member with this key, and its value stands at the front of `u`. -/
def Gives (member : String → σ → Reader σ) (known : σ) (t : Text) (k : String) (u : Text) : Prop :=
  ∃ first g v, Passes member known t first g v ∧ (nextKey first).Takes v (some k) u

theorem passes_of_members {g' : σ} (h : Passes member known t first g u)
    (hrest : (members member first g).Takes u g' r) :
    ∃ first' v, Passes member known t first' g' v ∧ skipBlanks v = '\x7d' :: r := by
  induction hn : u.length using Nat.strongRecOn generalizing first g u with
  | ind n ih =>
    obtain ⟨hbrace, rfl⟩ | ⟨k, v, g₁, w, hkey, hvalue, hrest⟩ := members_takes_iff.1 hrest
    · exact ⟨first, u, h, hbrace⟩
    · have hlt : w.length < n := hn ▸ Nat.lt_trans hvalue.length_lt hkey.length_lt
      exact ih _ hlt (.member h hkey hvalue) hrest rfl

/-- An object is read by passing all its members. -/
theorem passes_of_object (h : (object member known).Takes t g r) :
    ∃ first u, Passes member known t first g u ∧ skipBlanks u = '\x7d' :: r := by
  obtain ⟨u, hbrace, hmembers⟩ := object_takes_iff.1 h
  exact passes_of_members (.start hbrace) hmembers

/-- Whether each member adds to a record the strings that stand in its value, and nothing else. -/
def AddsFound (member : String → σ → Reader σ) (view : σ → View ι) : Prop :=
  ∀ ⦃k : String⦄ ⦃g : σ⦄ ⦃t : Text⦄ ⦃g' : σ⦄ ⦃r : Text⦄, (member k g).Takes t g' r →
    ∃ found added, Quotes t found r ∧ Shows found added ∧ Joins (view g) added (view g')

/-- Wherever the reading has come to, the record shows what was found on the way. -/
theorem Passes.finds {view : σ → View ι} (hmember : AddsFound member view)
    (hknown : ∀ label, view known label = none) (h : Passes member known t first g u) :
    ∃ found, Quotes t found u ∧ Shows found (view g) := by
  induction h with
  | @start u hbrace =>
    exact ⟨[], .nil ((List.suffix_cons _ u).trans (hbrace ▸ skipBlanks_suffix t)), shows_nil hknown⟩
  | member _ hkey hvalue ih =>
    obtain ⟨found, hquotes, hshows⟩ := ih
    obtain ⟨found', added, hquotes', hshows', hjoins⟩ := hmember hvalue
    exact ⟨found ++ found', hquotes.append (hquotes'.of_suffix hkey.suffix), hshows.append hshows' hjoins⟩

theorem object_finds {view : σ → View ι} (hmember : AddsFound member view)
    (hknown : ∀ label, view known label = none) : (object member known).Finds view := by
  intro t g r h
  obtain ⟨first, u, hpasses, hbrace⟩ := passes_of_object h
  obtain ⟨found, hquotes, hshows⟩ := hpasses.finds hmember hknown
  have hr : r <:+ u := (List.suffix_cons _ r).trans (hbrace ▸ skipBlanks_suffix u)
  exact ⟨found, List.append_nil found ▸ hquotes.append (.nil hr), hshows⟩

/-- A member that may be given once adds what is found in its value. -/
theorem once_addsFound {α : Type} {given : Option α} {read : Reader α} {store : α → σ} {view : View ι}
    {viewValue : α → View ι} {viewRecord : σ → View ι} (h : read.Finds viewValue)
    (hstore : given = none → ∀ a, Joins view (viewValue a) (viewRecord (store a)))
    (htakes : (once given read store).Takes t g r) :
    ∃ found added, Quotes t found r ∧ Shows found added ∧ Joins view added (viewRecord g) := by
  obtain ⟨hgiven, a, ha, rfl⟩ := once_takes_iff.1 htakes
  obtain ⟨found, hquotes, hshows⟩ := h ha
  exact ⟨found, viewValue a, hquotes, hshows, hstore hgiven a⟩

/-- Nothing is added by what is passed over. -/
theorem skip_addsFound {view : σ → View ι} (htakes : (skip known).Takes t g r) :
    ∃ found added, Quotes t found r ∧ Shows found added ∧ Joins (view known) added (view g) := by
  obtain ⟨-, rfl⟩ := skip_takes_iff.1 htakes
  refine ⟨[], fun _ => none, .nil htakes.suffix, shows_nil fun _ => rfl, fun label => ?_⟩
  exact ⟨.inr rfl, (Option.or_none).symm⟩

end Objects

/-! ## Lists -/

section Lists

variable {α : Type} {read : Reader α} {most : Nat} {label : Nat → ι} {string : α → String}

/-- The strings of a list, with a label for each index. -/
def labelled (label : Nat → ι) (string : α → String) (l : List α) (start : Nat) : List (ι × String) :=
  (l.zipIdx start).map fun (a, i) => (label i, string a)

theorem labels_labelled (l : List α) (start : Nat) :
    (labelled label string l start).map Prod.fst = (List.range' start l.length).map label := by
  rw [← List.zipIdx_map_snd start l, labelled, List.map_map, List.map_map]
  rfl

theorem mem_labelled {l : List α} {label' : ι} {x : String} :
    (label', x) ∈ labelled label string l 0 ↔ ∃ i, label i = label' ∧ l[i]?.map string = some x := by
  simp only [labelled, List.mem_map, Prod.exists, Prod.mk.injEq, List.mem_zipIdx_iff_getElem?,
    Option.map_eq_some_iff]
  exact ⟨fun ⟨a, i, ha, hlabel, hx⟩ => ⟨i, hlabel, a, ha, hx⟩,
    fun ⟨i, hlabel, a, ha, hx⟩ => ⟨a, i, ha, hlabel, hx⟩⟩

/-- **The elements of a list are found in its order.** -/
theorem elements_finds [DecidableEq ι]
    (hread : ∀ i, read.Finds fun a => single (label i) (string a))
    {fresh : Bool} {known l : ListUpTo most α} (h : (elements read most fresh known).Takes t l r) :
    ∃ more, l.1 = known.1 ++ more ∧ Quotes t (labelled label string more known.1.length) r := by
  induction hn : t.length using Nat.strongRecOn generalizing t fresh known with
  | ind n ih =>
    obtain ⟨hbracket, rfl⟩ | ⟨fresh', u, a, v, hat, ha, hroom, hrest⟩ := elements_takes_iff.1 h
    · exact ⟨[], (List.append_nil _).symm, .nil ((List.suffix_cons _ r).trans (hbracket ▸ skipBlanks_suffix t))⟩
    · have hlt : v.length < n := hn ▸ Nat.lt_of_lt_of_le ha.length_lt hat.suffix.length_le
      obtain ⟨more, hmore, hquotes⟩ := ih _ hlt hrest rfl
      obtain ⟨found, hquotes', hshows⟩ := hread known.1.length ha
      rw [List.perm_singleton.1 (hshows.perm (shows_single _ _))] at hquotes'
      refine ⟨a :: more, by rw [hmore, List.append_assoc]; rfl, ?_⟩
      rw [List.length_append] at hquotes
      exact (hquotes'.of_suffix hat.suffix).append hquotes

theorem listUpTo_finds [DecidableEq ι]
    (hread : ∀ i, read.Finds fun a => single (label i) (string a))
    {l : ListUpTo most α} (h : (listUpTo most read).Takes t l r) :
    Quotes t (labelled label string l.1 0) r := by
  obtain ⟨u, hbracket, helements⟩ := listUpTo_takes_iff.1 h
  obtain ⟨more, hmore, hquotes⟩ := elements_finds hread helements
  rw [hmore]
  exact hquotes.of_suffix ((List.suffix_cons _ u).trans (hbracket ▸ skipBlanks_suffix t))

end Lists

end MqttCodec.Json
