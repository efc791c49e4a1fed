/-
**Which arrays are messages.**

In an array the fields of a message come in the order in which they are declared, behind the name of
its kind.  The lists of levels come last in updates, so they can be left out from the end; a trade
must have all its fields.  Each value has to be one that its field takes, and such values can always
be kept; so an array is a message exactly when the object is one that has its values under the names
of the fields, and it is the same message.

Main definitions:

* `MarketDepth.Slot`, `MarketDepth.Slot.Takes` — the values that a field takes;
* `MarketDepth.Update.slots`, `MarketDepth.Trade.slots`, `MarketDepth.Kind.slots` — the declared
  fields, in order;
* `MarketDepth.Fills` — **values fill the fields in order**;
* `MarketDepth.named` — the members that give each value the name of its field.

Main results:

* `MarketDepth.Update.ofItems_eq_ok_iff`, `MarketDepth.Trade.ofItems_eq_ok_iff` — which arrays are
  updates and trades, and which ones they are;
* `MarketDepth.Update.ofJson_named`, `MarketDepth.Trade.ofJson_named` — so are the objects with
  their values;
* `MarketDepth.Message.ofJson_array` — **an array is a message exactly when its values fill the
  fields of a kind,** and it is the message of the object with these values.
-/

import MarketDepth.Proofs.ObjectForm

set_option relaxedAutoImplicit false
set_option autoImplicit false

namespace MarketDepth

open Json (under Keepable Passable)

/-! ### Fields in order -/

/-- What a field is for. -/
inductive Slot where
  | text
  | natural
  | levels
  /-- A side, in one of its forms. -/
  | side (forms : Aggressor → List Json)

/-- **The values that a field takes.** -/
def Slot.Takes : Slot → Json → Prop
  | text, v => ∃ s, v = .string (some s)
  | natural, v => ∃ n, v = .natural n
  | levels, v => ∃ ls, v = Level.listToJson ls
  | side forms, v => ∃ side, v ∈ forms side

@[simp] theorem Slot.takes_string (s : String) : text.Takes (.string (some s)) :=
  ⟨s, rfl⟩

@[simp] theorem Slot.takes_natural (n : UInt64) : natural.Takes (.natural n) :=
  ⟨n, rfl⟩

@[simp] theorem Slot.takes_listToJson (ls : List Level) : levels.Takes (Level.listToJson ls) :=
  ⟨ls, rfl⟩

/-- The fields of an update in the order in which they are declared. -/
def Update.slots : List (String × Slot) :=
  UpdateFields.keys.zip [.text, .natural, .natural, .levels, .levels]

/-- The fields of a trade in the order in which they are declared. -/
def Trade.slots (forms : Aggressor → List Json) : List (String × Slot) :=
  TradeFields.keys.zip [.text, .natural, .natural, .natural, .side forms]

/-- The fields of a message of a kind. -/
def Kind.slots : Kind → List (String × Slot)
  | .diff | .snapshot => Update.slots
  | .trade => Trade.slots Aggressor.storedForms

/-- How many fields of a message of a kind must be there. -/
def Kind.leastFields : Kind → Nat
  | .diff | .snapshot => 3
  | .trade => 5

/-- **The values fill the fields in order,** or the first `least` of them at least. -/
structure Fills (slots : List (String × Slot)) (least : Nat) (values : List Json) : Prop where
  enough : least ≤ values.length
  noMore : values.length ≤ slots.length
  taken : ∀ pair ∈ slots.zip values, pair.1.2.Takes pair.2

/-- The members that give each value the name of its field. -/
def named (slots : List (String × Slot)) (values : List Json) : List (Option String × Json) :=
  (slots.zip values).map fun (slot, v) => (some slot.1, v)

/-- What a field takes can be kept inside a message. -/
theorem Slot.Takes.storable {slot : Slot} {v : Json} (h : slot.Takes v)
    (hside : ∀ forms, slot = side forms → forms = Aggressor.storedForms) :
    v.storable Message.maxNesting = true := by
  cases slot with
  | text =>
      obtain ⟨s, rfl⟩ := h
      rfl
  | natural =>
      obtain ⟨n, rfl⟩ := h
      rfl
  | levels =>
      obtain ⟨ls, rfl⟩ := h
      exact Level.storable_listToJson ls 124
  | side forms =>
      obtain ⟨side, hform⟩ := h
      rw [hside forms rfl] at hform
      simp only [Aggressor.storedForms, Aggressor.forms, List.cons_append, List.nil_append,
        List.mem_cons, List.not_mem_nil, or_false] at hform
      rcases hform with rfl | rfl | rfl <;> rfl

/-- Values that fill the fields of a message are each taken by one of them. -/
theorem Fills.exists_takes {slots : List (String × Slot)} {least : Nat} {values : List Json}
    (h : Fills slots least values) {v : Json} (hv : v ∈ values) :
    ∃ slot ∈ slots, slot.2.Takes v := by
  obtain ⟨i, hi, rfl⟩ := List.mem_iff_getElem.1 hv
  have hslot : i < slots.length := Nat.lt_of_lt_of_le hi h.noMore
  have hpair : (slots[i], values[i]) ∈ slots.zip values := by
    rw [← List.getElem_zip (h := by rw [List.length_zip]; omega)]
    exact List.getElem_mem _
  exact ⟨slots[i], List.getElem_mem hslot, h.taken _ hpair⟩

/-- A field of a message takes a side in any form that a kept value may have. -/
theorem Kind.side_of_mem_slots {kind : Kind} {slot : String × Slot} (h : slot ∈ kind.slots)
    (forms : Aggressor → List Json) (hslot : slot.2 = .side forms) :
    forms = Aggressor.storedForms := by
  cases kind with
  | trade =>
      simp only [slots, Trade.slots, TradeFields.keys, List.zip_cons_cons, List.zip_nil_right,
        List.mem_cons, List.not_mem_nil, or_false] at h
      rcases h with rfl | rfl | rfl | rfl | rfl
      · cases hslot
      · cases hslot
      · cases hslot
      · cases hslot
      · exact (Slot.side.inj hslot).symm
  | _ =>
      -- no field of an update takes a side
      simp only [slots, Update.slots, UpdateFields.keys, List.zip_cons_cons, List.zip_nil_right,
        List.mem_cons, List.not_mem_nil, or_false] at h
      rcases h with rfl | rfl | rfl | rfl | rfl <;> cases hslot

/-- **Values that fill the fields of a message can be kept.** -/
theorem Fills.storable {kind : Kind} {least : Nat} {values : List Json}
    (h : Fills kind.slots least values) :
    ∀ v ∈ values, v.storable Message.maxNesting = true := by
  intro v hv
  obtain ⟨slot, hslot, htakes⟩ := h.exists_takes hv
  exact htakes.storable (Kind.side_of_mem_slots hslot)

/-- Each named value has the name of a field. -/
theorem passable_named {slots : List (String × Slot)} {keys : List String}
    (hkeys : ∀ slot ∈ slots, slot.1 ∈ keys) (pass : Json → Bool) (values : List Json) :
    Passable keys pass (named slots values) := by
  intro m hm
  obtain ⟨⟨slot, v⟩, hpair, rfl⟩ := List.mem_map.1 hm
  exact ⟨slot.1, rfl, .inl (hkeys slot (List.of_mem_zip hpair).1)⟩

/-! ### Updates -/

/-- The values of the lists of levels, of which empty ones may be left out from the end. -/
def Update.LevelItems (u : Update) (items : List Json) : Prop :=
  items = [] ∧ u.bids = [] ∧ u.asks = [] ∨
    items = [Level.listToJson u.bids] ∧ u.asks = [] ∨
    items = [Level.listToJson u.bids, Level.listToJson u.asks]

/-- **Which arrays are updates, and which updates they are.** -/
theorem Update.ofItems_eq_ok_iff {values : List Json} {u : Update} :
    Update.ofItems values = .ok u ↔ ∃ items,
      values = .string (some u.instrument) :: .natural u.updateId :: .natural u.timestamp :: items ∧
      u.LevelItems items := by
  constructor
  · intro h
    unfold ofItems at h
    split at h
    case h_2 => cases h
    case h_1 instrument updateId timestamp items =>
      -- the lists that are there are the ones that are read
      rcases items with _ | ⟨bids, _ | ⟨asks, _ | ⟨_, _⟩⟩⟩ <;>
        simp only [bind_eq_ok_iff, wellTyped_eq_ok_iff, Json.text?_eq_some_iff,
          Json.natural?_eq_some_iff, Level.listOfJson?_eq_some_iff] at h
      · obtain ⟨_, rfl, _, rfl, _, rfl, _, hlevels, hu⟩ := h
        cases hlevels
        cases hu
        exact ⟨_, rfl, .inl ⟨rfl, rfl, rfl⟩⟩
      · obtain ⟨_, rfl, _, rfl, _, rfl, _, rfl, _, hlevels, hu⟩ := h
        cases hlevels
        cases hu
        exact ⟨_, rfl, .inr (.inl ⟨rfl, rfl⟩)⟩
      · obtain ⟨_, rfl, _, rfl, _, rfl, _, rfl, _, rfl, _, hlevels, hu⟩ := h
        cases hlevels
        cases hu
        exact ⟨_, rfl, .inr (.inr rfl)⟩
      · obtain ⟨_, rfl, _, rfl, _, rfl, _, hlevels, -⟩ := h
        cases hlevels
  · rintro ⟨items, rfl, hitems⟩
    obtain ⟨instrument, updateId, timestamp, bids, asks⟩ := u
    rcases hitems with ⟨rfl, hbids, hasks⟩ | ⟨rfl, hasks⟩ | rfl
    · cases hbids
      cases hasks
      rfl
    · cases hasks
      simp [ofItems, wellTyped, Json.text?, Json.natural?, bind, Except.bind, pure, Except.pure]
    · simp [ofItems, wellTyped, Json.text?, Json.natural?, bind, Except.bind, pure, Except.pure]

/-- Values are an update exactly when they fill its fields, and three of them are enough. -/
theorem Update.exists_ofItems_iff {values : List Json} :
    (∃ u, Update.ofItems values = .ok u) ↔ Fills Update.slots 3 values := by
  constructor
  · rintro ⟨u, hu⟩
    obtain ⟨items, rfl, ⟨rfl, -, -⟩ | ⟨rfl, -⟩ | rfl⟩ := ofItems_eq_ok_iff.1 hu <;>
      constructor <;> simp [slots, UpdateFields.keys]
  · rintro ⟨henough, hmost, htaken⟩
    -- there are three values, or four, or five
    rcases values with _ | ⟨instrument, _ | ⟨updateId, _ | ⟨timestamp, items⟩⟩⟩
    · simp at henough
    · simp at henough
    · simp at henough
    simp only [slots, UpdateFields.keys, List.length_cons, List.zip_cons_cons, List.zip_nil_right,
      List.length_nil, List.mem_cons, forall_eq_or_imp, Slot.Takes] at hmost htaken
    obtain ⟨⟨instrument, rfl⟩, ⟨updateId, rfl⟩, ⟨timestamp, rfl⟩, htaken⟩ := htaken
    rcases items with _ | ⟨bids, _ | ⟨asks, _ | ⟨_, _⟩⟩⟩
    · exact ⟨{ instrument, updateId, timestamp },
        ofItems_eq_ok_iff.2 ⟨[], rfl, .inl ⟨rfl, rfl, rfl⟩⟩⟩
    · simp only [List.zip_cons_cons, List.zip_nil_right, List.mem_cons, forall_eq_or_imp] at htaken
      obtain ⟨⟨bids, rfl⟩, -⟩ := htaken
      exact ⟨{ instrument, updateId, timestamp, bids },
        ofItems_eq_ok_iff.2 ⟨_, rfl, .inr (.inl ⟨rfl, rfl⟩)⟩⟩
    · simp only [List.zip_cons_cons, List.zip_nil_right, List.mem_cons, forall_eq_or_imp] at htaken
      obtain ⟨⟨bids, rfl⟩, ⟨asks, rfl⟩, -⟩ := htaken
      exact ⟨{ instrument, updateId, timestamp, bids, asks },
        ofItems_eq_ok_iff.2 ⟨_, rfl, .inr (.inr rfl)⟩⟩
    · simp only [List.length_cons] at hmost
      omega

/-- The members with the values of an update spell it. -/
theorem Update.spelled_named {values : List Json} {u : Update}
    (h : Update.ofItems values = .ok u) : u.Spelled (named Update.slots values) := by
  obtain ⟨items, rfl, ⟨rfl, hbids, hasks⟩ | ⟨rfl, hasks⟩ | rfl⟩ := ofItems_eq_ok_iff.1 h <;>
    constructor <;> simp_all [named, slots, UpdateFields.keys, Json.under, Level.Spelled]

/-- **Values by name are the update that they are by position.** -/
theorem Update.ofJson_named {values : List Json} {u : Update} (h : Update.ofItems values = .ok u) :
    Update.ofJson (.object (named Update.slots values)) = .ok u :=
  Update.ofJson_object_eq_ok_iff.2 ⟨spelled_named h,
    passable_named (fun _ hslot => (List.of_mem_zip hslot).1) Json.whole values⟩

/-! ### Trades -/

theorem exists_eq_of_length_eq_five {α : Type} {as : List α} (h : as.length = 5) :
    ∃ a b c d e, as = [a, b, c, d, e] := by
  rcases as with _ | ⟨a, _ | ⟨b, _ | ⟨c, _ | ⟨d, _ | ⟨e, _ | ⟨_, _⟩⟩⟩⟩⟩⟩ <;>
    simp only [List.length_cons, List.length_nil] at h
  · omega
  · omega
  · omega
  · omega
  · omega
  · exact ⟨a, b, c, d, e, rfl⟩
  · omega

section Trade

variable {readSide : Json → Except DecodeFault Aggressor} {forms : Aggressor → List Json}
  (hside : ∀ {v side}, readSide v = .ok side ↔ v ∈ forms side)

include hside

/-- **Which arrays are trades, and which trades they are.** -/
theorem Trade.ofItems_eq_ok_iff {values : List Json} {t : Trade} :
    Trade.ofItems readSide values = .ok t ↔ ∃ v ∈ forms t.side,
      values = [.string (some t.instrument), .natural t.timestamp, .natural t.price,
        .natural t.size, v] := by
  constructor
  · intro h
    unfold ofItems at h
    split at h
    case h_2 => cases h
    case h_1 instrument timestamp price size side rest =>
      simp only [bind_eq_ok_iff, wellTyped_eq_ok_iff, Json.text?_eq_some_iff,
        Json.natural?_eq_some_iff] at h
      obtain ⟨_, rfl, _, rfl, _, rfl, _, rfl, s, hs, hrest⟩ := h
      split at hrest
      · cases hrest
        exact ⟨side, hside.1 hs, rfl⟩
      · cases hrest
  · rintro ⟨v, hv, rfl⟩
    have hread : readSide v = .ok t.side := hside.2 hv
    simp [ofItems, wellTyped, Json.text?, Json.natural?, hread, bind, Except.bind, pure,
      Except.pure]

/-- Values are a trade exactly when they fill all its fields. -/
theorem Trade.exists_ofItems_iff {values : List Json} :
    (∃ t, Trade.ofItems readSide values = .ok t) ↔ Fills (Trade.slots forms) 5 values := by
  constructor
  · rintro ⟨t, ht⟩
    obtain ⟨v, hv, rfl⟩ := (ofItems_eq_ok_iff hside).1 ht
    refine ⟨Nat.le_refl 5, Nat.le_refl 5, ?_⟩
    simpa [slots, TradeFields.keys, Slot.Takes] using ⟨t.side, hv⟩
  · rintro ⟨henough, hmost, htaken⟩
    have hlength : values.length = 5 := Nat.le_antisymm hmost henough
    obtain ⟨instrument, timestamp, price, size, v, rfl⟩ := exists_eq_of_length_eq_five hlength
    simp only [slots, TradeFields.keys, List.zip_cons_cons, List.zip_nil_right, List.mem_cons,
      forall_eq_or_imp, Slot.Takes] at htaken
    obtain ⟨⟨instrument, rfl⟩, ⟨timestamp, rfl⟩, ⟨price, rfl⟩, ⟨size, rfl⟩, ⟨side, hform⟩, -⟩ :=
      htaken
    exact ⟨{ instrument, timestamp, price, size, side },
      (ofItems_eq_ok_iff hside).2 ⟨v, hform, rfl⟩⟩

/-- The members with the values of a trade spell it. -/
theorem Trade.spelled_named {values : List Json} {t : Trade}
    (h : Trade.ofItems readSide values = .ok t) :
    t.Spelled (forms t.side) (named (Trade.slots forms) values) := by
  obtain ⟨v, hv, rfl⟩ := (ofItems_eq_ok_iff hside).1 h
  constructor <;> simp_all [named, slots, TradeFields.keys, Json.under]

/-- **Values by name are the trade that they are by position.** -/
theorem Trade.ofJson_named {values : List Json} {t : Trade}
    (h : Trade.ofItems readSide values = .ok t) :
    Trade.ofJsonWith readSide (.object (named (Trade.slots forms) values)) = .ok t :=
  (Trade.ofJsonWith_object_eq_ok_iff hside).2 ⟨spelled_named hside h,
    passable_named (fun _ hslot => (List.of_mem_zip hslot).1) Json.whole values⟩

end Trade

/-! ### Messages -/

theorem exists_map_eq_ok_iff {ε α β : Type} {x : Except ε α} {f : α → β} :
    (∃ b, x.map f = .ok b) ↔ ∃ a, x = .ok a := by
  cases x <;> simp [Except.map]

namespace Message

/-- Values are what a kind of message carries exactly when they fill its fields. -/
theorem exists_payload_iff {kind : Kind} {items : List Json} :
    (∃ m, payload kind (.array items) = .ok m) ↔ Fills kind.slots kind.leastFields items := by
  cases kind with
  | diff => exact exists_map_eq_ok_iff.trans Update.exists_ofItems_iff
  | snapshot => exact exists_map_eq_ok_iff.trans Update.exists_ofItems_iff
  | trade =>
      exact exists_map_eq_ok_iff.trans (Trade.exists_ofItems_iff Aggressor.ofStored_eq_ok_iff)

/-- **By position an array is what the kind in front of the values carries.** -/
theorem ofJson_array_eq_ok_iff {values : List Json} {m : Message} :
    ofJson (.array values) = .ok m ↔ ∃ kind items, values = .string (some kind.name) :: items ∧
      payload kind (.array items) = .ok m := by
  cases values with
  | nil => simp [ofJson]
  | cons tag items =>
      simp only [ofJson, bind_eq_ok_iff, kindOfTag_eq_ok_iff, List.cons.injEq]
      constructor
      · rintro ⟨kind, htag, hm⟩
        split at hm
        · exact ⟨kind, items, ⟨htag, rfl⟩, hm⟩
        · cases hm
      · rintro ⟨kind, _, ⟨htag, rfl⟩, hm⟩
        -- what fills the fields can be kept
        have hstorable : items.all (·.storable maxNesting) = true :=
          List.all_eq_true.2 (exists_payload_iff.1 ⟨m, hm⟩).storable
        exact ⟨kind, htag, by rw [if_pos hstorable, hm]⟩

/-- To the fields of what a message carries its tag is unknown. -/
theorem under_tagged {keys : List String} (htag : "type" ∉ keys) (tag : Json)
    (members : List (Option String × Json)) :
    ∀ key ∈ keys, (under key ((some "type", tag) :: members)).Perm (under key members) := by
  intro key hkey
  have hne : "type" ≠ key := by
    rintro rfl
    exact htag hkey
  rw [Json.under_cons, if_neg hne]

/-- Values that a kind of message carries by position it carries by name. -/
theorem carried_named {kind : Kind} {items : List Json} {m : Message}
    (h : payload kind (.array items) = .ok m) (tag : Json) :
    m.kind = kind ∧ m.Carried ((some "type", tag) :: named kind.slots items) := by
  cases kind with
  | diff =>
      obtain ⟨u, hu, rfl⟩ := map_eq_ok_iff.1 h
      exact ⟨rfl, (Update.spelled_named hu).perm (under_tagged (by decide) tag _)⟩
  | snapshot =>
      obtain ⟨u, hu, rfl⟩ := map_eq_ok_iff.1 h
      exact ⟨rfl, (Update.spelled_named hu).perm (under_tagged (by decide) tag _)⟩
  | trade =>
      obtain ⟨t, ht, rfl⟩ := map_eq_ok_iff.1 h
      exact ⟨rfl, (Trade.spelled_named Aggressor.ofStored_eq_ok_iff ht).perm
        (under_tagged (by decide) tag _)⟩

/-- No field has the key of the tag. -/
theorem under_type_named {kind : Kind} {items : List Json} :
    under "type" (named kind.slots items) = [] := by
  refine List.eq_nil_iff_forall_not_mem.2 fun v hv => ?_
  obtain ⟨⟨slot, _⟩, hpair, hname⟩ := List.mem_map.1 (Json.mem_under_iff.1 hv)
  have hkey : slot.1 = "type" := Option.some.inj (congrArg Prod.fst hname)
  have hslot := (List.of_mem_zip hpair).1
  cases kind <;>
    simp [Kind.slots, Update.slots, Trade.slots, UpdateFields.keys, TradeFields.keys] at hslot <;>
    rcases hslot with rfl | rfl | rfl | rfl | rfl <;> simp at hkey

/-- **Values by name are the message that they are by position.** -/
theorem ofJson_named {kind : Kind} {items : List Json} {m : Message}
    (h : payload kind (.array items) = .ok m) :
    ofJson (.object ((some "type", .string (some kind.name)) :: named kind.slots items)) =
      .ok m := by
  obtain ⟨rfl, hcarried⟩ := carried_named h (.string (some kind.name))
  refine ofJson_eq_ok_iff.2 ⟨?keepable, ?kind, hcarried⟩
  case keepable =>
    intro member hmember
    rcases List.mem_cons.1 hmember with rfl | hmember
    · exact ⟨rfl, rfl⟩
    · obtain ⟨⟨slot, v⟩, hpair, rfl⟩ := List.mem_map.1 hmember
      exact ⟨rfl, (exists_payload_iff.1 ⟨m, h⟩).storable v (List.of_mem_zip hpair).2⟩
  case kind =>
    rw [Json.under_cons, if_pos rfl, under_type_named]

/-! ### Arrays in texts -/

/-- **Which arrays are messages.**  An array is a message if and only if it has the name of a kind
in front and behind it values for the fields of that kind, each in the form of its field: from three
to five of them for a diff or a snapshot, and all five for a trade.  It is then the message of the
object that has these values under the names of the fields.  The same holds of updates and trades on
their own, which have no kind in front, and of the arrays and objects in texts. -/
theorem ofJson_array :
    (∀ values, (∃ m, ofJson (.array values) = .ok m) ↔
      ∃ (kind : Kind) (items : List Json), values = .string (some kind.name) :: items ∧
        Fills kind.slots kind.leastFields items) ∧
    (∀ (kind : Kind) (items : List Json), Fills kind.slots kind.leastFields items →
      ofJson (.array (.string (some kind.name) :: items)) =
        ofJson (.object ((some "type", .string (some kind.name)) :: named kind.slots items))) ∧
    (∀ values, (∃ u, Update.ofJson (.array values) = .ok u) ↔ Fills Update.slots 3 values) ∧
    (∀ values, Fills Update.slots 3 values →
      Update.ofJson (.array values) = Update.ofJson (.object (named Update.slots values))) ∧
    (∀ values, (∃ t, Trade.ofJson (.array values) = .ok t) ↔
      Fills (Trade.slots Aggressor.forms) 5 values) ∧
    (∀ values, Fills (Trade.slots Aggressor.forms) 5 values →
      Trade.ofJson (.array values) =
        Trade.ofJson (.object (named (Trade.slots Aggressor.forms) values))) ∧
    ∀ text v rest, Json.read text.toList = (v, rest) → (Json.skipBlanks rest).isEmpty = true →
      decode text = ofJson v ∧ Update.decode text = Update.ofJson v ∧
        Trade.decode text = Trade.ofJson v := by
  refine ⟨fun values => ?_, fun kind items hfills => ?_, fun _ => Update.exists_ofItems_iff,
    fun values hfills => ?_, fun _ => Trade.exists_ofItems_iff Aggressor.ofJson_eq_ok_iff,
    fun values hfills => ?_, fun text v rest hread hrest => ?_⟩
  · constructor
    · rintro ⟨m, hm⟩
      obtain ⟨kind, items, rfl, hpayload⟩ := ofJson_array_eq_ok_iff.1 hm
      exact ⟨kind, items, rfl, exists_payload_iff.1 ⟨m, hpayload⟩⟩
    · rintro ⟨kind, items, rfl, hfills⟩
      obtain ⟨m, hpayload⟩ := exists_payload_iff.2 hfills
      exact ⟨m, ofJson_array_eq_ok_iff.2 ⟨kind, items, rfl, hpayload⟩⟩
  · obtain ⟨m, hpayload⟩ := exists_payload_iff.2 hfills
    rw [ofJson_array_eq_ok_iff.2 ⟨kind, items, rfl, hpayload⟩, ofJson_named hpayload]
  · obtain ⟨u, hu⟩ := Update.exists_ofItems_iff.2 hfills
    rw [Update.ofJson_named hu, Update.ofJson, hu]
  · obtain ⟨t, ht⟩ := (Trade.exists_ofItems_iff Aggressor.ofJson_eq_ok_iff).2 hfills
    exact ht.trans (Trade.ofJson_named Aggressor.ofJson_eq_ok_iff ht).symm
  · exact ⟨decodeWith_of_read hread hrest, decodeWith_of_read hread hrest,
      decodeWith_of_read hread hrest⟩

/-- A diff without asks and a trade with its side as an object, each as an array in a text. -/
theorem ofJson_array_without_asks :
    let items : List Json :=
      [.string (some "A"), .natural 5, .natural 7, .array [.array [.natural 3, .natural 0]]]
    let u : Update := { instrument := "A", updateId := 5, timestamp := 7, bids := [⟨3, 0⟩] }
    let traded : List Json :=
      [.string (some "A"), .natural 7, .natural 1, .natural 2, .object [(some "sell", .null)]]
    let t : Trade := { instrument := "A", timestamp := 7, price := 1, size := 2, side := .sell }
    let text := "[\"diff\",\"A\",5,7,[[3,0]]]"
    let tradeText := "[\"A\",7,1,2,\x7b\"sell\":null\x7d]"
    Fills Update.slots 3 items ∧ Fills (Trade.slots Aggressor.forms) 5 traded ∧
    Json.read text.toList = (.array (.string (some "diff") :: items), []) ∧
    Json.read tradeText.toList = (.array traded, []) ∧
    decode text = .ok (.diff u) ∧
    ofJson (.object ((some "type", .string (some "diff")) :: named Update.slots items)) =
      .ok (.diff u) ∧
    Update.ofJson (.object (named Update.slots items)) = .ok u ∧
    Trade.decode tradeText = .ok t ∧
    Trade.ofJson (.object (named (Trade.slots Aggressor.forms) traded)) = .ok t := by
  intro items u traded t text tradeText
  have hu : Update.ofJson (.array items) = .ok u := by cbv
  have ht : Trade.ofJson (.array traded) = .ok t := by cbv
  have hm : ofJson (.array (.string (some "diff") :: items)) = .ok (.diff u) := by cbv
  have htext : text = String.ofList (Json.render (.array (.string (some "diff") :: items))) := by
    unfold text items
    cbv
  have htradeText : tradeText = String.ofList (Json.render (.array traded)) := by
    unfold tradeText traded
    cbv
  have hread : Json.read text.toList = (.array (.string (some "diff") :: items), []) := by
    rw [htext, String.toList_ofList]
    exact Json.read_render rfl
  have htradeRead : Json.read tradeText.toList = (.array traded, []) := by
    rw [htradeText, String.toList_ofList]
    exact Json.read_render rfl
  obtain ⟨-, hmessage, hupdates, hupdate, htrades, htrade, hdecode⟩ := ofJson_array
  have hitems : Fills Update.slots 3 items := (hupdates items).1 ⟨u, hu⟩
  have htraded : Fills (Trade.slots Aggressor.forms) 5 traded := (htrades traded).1 ⟨t, ht⟩
  exact ⟨hitems, htraded, hread, htradeRead, (hdecode _ _ [] hread rfl).1.trans hm,
    (hmessage .diff items hitems).symm.trans hm, (hupdate items hitems).symm.trans hu,
    (hdecode _ _ [] htradeRead rfl).2.2.trans ht, (htrade traded htraded).symm.trans ht⟩

end Message

end MarketDepth
