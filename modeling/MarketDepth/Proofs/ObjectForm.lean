/-
**Which objects are messages.**

The members of an object are taken in one after the other, and each is judged by its key and by what
has been met before.  What comes of all of them does not depend on their order: every field is a
matter of the values under its own key alone.  A field that is met twice is refused, so what a
message is read from is one value under each of its keys, or none where a list of levels is left
out; the other members count for nothing, as long as they can be kept.

Main definitions:

* `MarketDepth.Json.under` — the values under a key;
* `MarketDepth.Json.Keepable` — every member has a key, and its value can be kept;
* `MarketDepth.Noted` — what is noted of a field when values are met under its key;
* `MarketDepth.Update.Spelled`, `MarketDepth.Trade.Spelled`, `MarketDepth.Message.Spelled` — **the
  members spell this update, trade or message.**

Main results:

* `MarketDepth.UpdateFields.foldlM_absorb_eq_ok_iff`,
  `MarketDepth.TradeFields.foldlM_absorb_eq_ok_iff` — members are taken in field by field;
* `MarketDepth.Message.ofJson_eq_ok_iff` — **which objects are messages, and which messages they
  are**;
* `MarketDepth.Message.Spelled.perm` — order and unknown members do not matter;
* `MarketDepth.Message.not_trade_alone` — a trade in a message may not be one on its own.
-/

import MarketDepth.Proofs.Encoding

set_option relaxedAutoImplicit false
set_option autoImplicit false

namespace MarketDepth

/-! ### Results that are right -/

theorem bind_eq_ok_iff {ε α β : Type} {x : Except ε α} {f : α → Except ε β} {b : β} :
    x >>= f = .ok b ↔ ∃ a, x = .ok a ∧ f a = .ok b := by
  cases x <;> simp [bind, Except.bind]

theorem map_eq_ok_iff {ε α β : Type} {x : Except ε α} {f : α → β} {b : β} :
    x.map f = .ok b ↔ ∃ a, x = .ok a ∧ f a = b := by
  cases x <;> simp [Except.map]

/-- A fold comes out right as `takes` says, if this is so for the first of its steps. -/
theorem foldlM_eq_ok_iff {ε α β : Type} {step : β → α → Except ε β}
    (takes : β → List α → β → Prop) (nil : ∀ b b', takes b [] b' ↔ b = b')
    (cons : ∀ b a as b', takes b (a :: as) b' ↔ ∃ next, step b a = .ok next ∧ takes next as b')
    {as : List α} {b b' : β} : as.foldlM step b = .ok b' ↔ takes b as b' := by
  induction as generalizing b with
  | nil => simp [nil, pure, Except.pure]
  | cons a as ih =>
      rw [List.foldlM_cons, bind_eq_ok_iff, cons]
      simp only [ih]

theorem wellTyped_eq_ok_iff {α : Type} {o : Option α} {a : α} :
    wellTyped o = .ok a ↔ o = some a := by
  cases o <;> simp [wellTyped]

theorem required_eq_ok_iff {α : Type} {field : String} {o : Option α} {a : α} :
    required field o = .ok a ↔ o = some a := by
  cases o <;> simp [required]

theorem note_eq_ok_iff {α : Type} {field : String} {found after : Option α}
    {value : Except DecodeFault α} :
    note field found value = .ok after ↔ found = none ∧ ∃ a, value = .ok a ∧ after = some a := by
  cases found with
  | none => simp only [note, map_eq_ok_iff, true_and, @eq_comm _ after]
  | some _ => simp [note]

/-- A value is noted if none was, and if it is right. -/
theorem exists_map_note_iff {α β : Type} {field : String} {found : Option α}
    {value : Except DecodeFault α} {set : Option α → β} {p : β → Prop} :
    (∃ next, (note field found value).map set = .ok next ∧ p next) ↔
      found = none ∧ ∃ a, value = .ok a ∧ p (set (some a)) := by
  simp only [map_eq_ok_iff, note_eq_ok_iff]
  constructor
  · rintro ⟨_, ⟨_, ⟨hfound, a, hvalue, rfl⟩, rfl⟩, hp⟩
    exact ⟨hfound, a, hvalue, hp⟩
  · rintro ⟨hfound, a, hvalue, hp⟩
    exact ⟨_, ⟨_, ⟨hfound, a, hvalue, rfl⟩, rfl⟩, hp⟩

/-! ### The members of an object -/

namespace Json

/-- The values of the members with a key, in the order of the members. -/
def under (key : String) (members : List (Option String × Json)) : List Json :=
  (members.filter (·.1 = some key)).map (·.2)

/-- Every member has a key, and its value can be kept inside a message. -/
def Keepable (members : List (Option String × Json)) : Prop :=
  ∀ m ∈ members, m.1.isSome = true ∧ m.2.storable Message.maxNesting = true

/-- Every member has a key, and under an unknown key its value can be passed over. -/
def Passable (keys : List String) (pass : Json → Bool) (members : List (Option String × Json)) :
    Prop :=
  ∀ m ∈ members, ∃ key, m.1 = some key ∧ (key ∈ keys ∨ pass m.2 = true)

@[simp] theorem under_nil (key : String) : under key [] = [] := rfl

theorem under_cons (key key' : String) (v : Json) (members : List (Option String × Json)) :
    under key ((some key', v) :: members) =
      if key' = key then v :: under key members else under key members := by
  by_cases h : key' = key <;> simp [under, h]

theorem mem_under_iff {key : String} {v : Json} {members : List (Option String × Json)} :
    v ∈ under key members ↔ (some key, v) ∈ members := by
  simp [under]

theorem under_perm {members members' : List (Option String × Json)} (h : members'.Perm members)
    (key : String) : (under key members').Perm (under key members) :=
  (h.filter _).map _

/-- Leaving out members with other keys does not matter. -/
theorem under_filter {keys : List String} {key : String} (h : key ∈ keys)
    (members : List (Option String × Json)) :
    under key (members.filter fun m => m.1.any (· ∈ keys)) = under key members := by
  rw [under, under, List.filter_filter]
  refine congrArg _ (List.filter_congr fun m _ => ?_)
  by_cases hm : m.1 = some key <;> simp [hm, h]

theorem Keepable.passable {members : List (Option String × Json)} (h : Keepable members)
    (keys : List String) : Passable keys whole members := by
  intro m hm
  obtain ⟨hkey, hvalue⟩ := h m hm
  obtain ⟨key, hkey⟩ := Option.isSome_iff_exists.1 hkey
  exact ⟨key, hkey, .inr (whole_of_storable m.2 Message.maxNesting hvalue)⟩

theorem passable_cons {keys : List String} {pass : Json → Bool} {m : Option String × Json}
    {members : List (Option String × Json)} :
    Passable keys pass (m :: members) ↔
      (∃ key, m.1 = some key ∧ (key ∈ keys ∨ pass m.2 = true)) ∧ Passable keys pass members := by
  simp [Passable]

section Key

variable {keys : List String} {pass : Json → Bool} {key : String} {v : Json}
  {members : List (Option String × Json)}

theorem passable_cons_of_mem (h : key ∈ keys) :
    Passable keys pass ((some key, v) :: members) ↔ Passable keys pass members := by
  simp [passable_cons, h]

theorem passable_cons_of_not_mem (h : key ∉ keys) :
    Passable keys pass ((some key, v) :: members) ↔
      pass v = true ∧ Passable keys pass members := by
  simp [passable_cons, h]

end Key

end Json

open Json (under Keepable Passable)

/-! ### One field -/

/-- **What is noted of a field** when these values are met under its key, one after the other. -/
inductive Noted {α : Type} (read : Json → Except DecodeFault α) :
    Option α → List Json → Option α → Prop
  | nothing (found : Option α) : Noted read found [] found
  | value {v : Json} {a : α} (h : read v = .ok a) : Noted read none [v] (some a)

namespace Noted

variable {α : Type} {read : Json → Except DecodeFault α} {found after : Option α}

theorem nil_iff : Noted read found [] after ↔ found = after :=
  ⟨fun h => by cases h; rfl, by rintro rfl; exact .nothing _⟩

/-- Nothing may have been noted before a value is. -/
theorem cons_iff {v : Json} {values : List Json} :
    Noted read found (v :: values) after ↔
      found = none ∧ ∃ a, read v = .ok a ∧ Noted read (some a) values after := by
  constructor
  · intro h
    cases h with
    | value h => exact ⟨rfl, _, h, .nothing _⟩
  · rintro ⟨rfl, a, hread, h⟩
    cases h
    exact .value hread

theorem some_iff {values : List Json} {a : α} :
    Noted read none values (some a) ↔ ∃ v, values = [v] ∧ read v = .ok a := by
  constructor
  · intro h
    cases h with
    | value h => exact ⟨_, rfl, h⟩
  · rintro ⟨v, rfl, h⟩
    exact .value h

theorem none_iff {values : List Json} : Noted read none values none ↔ values = [] := by
  constructor
  · intro h
    cases h
    rfl
  · rintro rfl
    exact .nothing none

end Noted

theorem noted_text_iff {values : List Json} {text : String} :
    Noted (fun v => wellTyped v.text?) none values (some text) ↔
      values = [.string (some text)] := by
  simp [Noted.some_iff, wellTyped_eq_ok_iff, Json.text?_eq_some_iff]

theorem noted_natural_iff {values : List Json} {n : UInt64} :
    Noted (fun v => wellTyped v.natural?) none values (some n) ↔ values = [.natural n] := by
  simp [Noted.some_iff, wellTyped_eq_ok_iff, Json.natural?_eq_some_iff]

/-- The values under the key of a list of levels spell it: they may be missing if it is empty. -/
def Level.Spelled (levels : List Level) (values : List Json) : Prop :=
  values = [] ∧ levels = [] ∨ values = [Level.listToJson levels]

/-- A list of levels may be left out. -/
theorem noted_levels_iff {values : List Json} {levels : List Level} :
    (∃ after, Noted (fun v => wellTyped (Level.listOfJson? v)) none values after ∧
        after.getD [] = levels) ↔ Level.Spelled levels values := by
  constructor
  · rintro ⟨_ | levels', h, rfl⟩
    · exact .inl ⟨Noted.none_iff.1 h, rfl⟩
    · obtain ⟨v, rfl, hv⟩ := Noted.some_iff.1 h
      rw [wellTyped_eq_ok_iff, Level.listOfJson?_eq_some_iff] at hv
      exact .inr (by rw [hv]; rfl)
  · rintro (⟨rfl, rfl⟩ | rfl)
    · exact ⟨none, .nothing none, rfl⟩
    · exact ⟨some levels, .value (by rw [Level.listOfJson?_listToJson]; rfl), rfl⟩

/-! ### Updates -/

namespace UpdateFields

/-- The keys of the fields of an update. -/
def keys : List String :=
  ["instrument", "update_id", "timestamp", "bids", "asks"]

/-- **What members make of the fields of an update,** each by the values under its key. -/
def Takes (found : UpdateFields) (members : List (Option String × Json))
    (after : UpdateFields) : Prop :=
  Noted (fun v => wellTyped v.text?) found.instrument (under "instrument" members)
      after.instrument ∧
    Noted (fun v => wellTyped v.natural?) found.updateId (under "update_id" members)
      after.updateId ∧
    Noted (fun v => wellTyped v.natural?) found.timestamp (under "timestamp" members)
      after.timestamp ∧
    Noted (fun v => wellTyped (Level.listOfJson? v)) found.bids (under "bids" members)
      after.bids ∧
    Noted (fun v => wellTyped (Level.listOfJson? v)) found.asks (under "asks" members)
      after.asks ∧
    Passable keys Json.whole members

/-- The first of the members is taken in before the others. -/
theorem takes_cons_iff {found after : UpdateFields} {m : Option String × Json}
    {members : List (Option String × Json)} :
    found.Takes (m :: members) after ↔
      ∃ next, found.absorb m = .ok next ∧ next.Takes members after := by
  obtain ⟨_ | key, v⟩ := m
  · simp [Takes, absorb, Json.passable_cons]
  · by_cases hkey : key ∈ keys
    · -- of the conditions on both sides only those on this field differ
      have hpassable : Passable keys Json.whole ((some key, v) :: members) ↔ _ :=
        Json.passable_cons_of_mem hkey
      simp only [keys, List.mem_cons, List.not_mem_nil, or_false] at hkey
      rcases hkey with rfl | rfl | rfl | rfl | rfl <;>
        simp only [absorb, Takes, hpassable, Json.under_cons, Noted.cons_iff, exists_map_note_iff,
          String.reduceEq, if_true, if_false] <;>
        grind
    · have hpassable : Passable keys Json.whole ((some key, v) :: members) ↔ _ :=
        Json.passable_cons_of_not_mem hkey
      simp only [keys, List.mem_cons, List.not_mem_nil, or_false, not_or] at hkey
      simp only [absorb, Takes, hpassable, Json.under_cons, hkey, if_false]
      cases v.whole <;> simp

theorem foldlM_absorb_eq_ok_iff {found after : UpdateFields}
    {members : List (Option String × Json)} :
    members.foldlM absorb found = .ok after ↔ found.Takes members after := by
  refine foldlM_eq_ok_iff Takes (fun found after => ?_) fun _ _ _ _ => takes_cons_iff
  cases found
  cases after
  simp [Takes, Noted.nil_iff, Passable]

theorem finish_eq_ok_iff {found : UpdateFields} {u : Update} :
    found.finish = .ok u ↔
      found.instrument = some u.instrument ∧ found.updateId = some u.updateId ∧
        found.timestamp = some u.timestamp ∧ found.bids.getD [] = u.bids ∧
        found.asks.getD [] = u.asks := by
  simp only [finish, bind_eq_ok_iff, required_eq_ok_iff, pure, Except.pure, Except.ok.injEq]
  constructor
  · rintro ⟨_, hinstrument, _, hid, _, htimestamp, rfl⟩
    exact ⟨hinstrument, hid, htimestamp, rfl, rfl⟩
  · rintro ⟨hinstrument, hid, htimestamp, hbids, hasks⟩
    exact ⟨_, hinstrument, _, hid, _, htimestamp, by rw [hbids, hasks]⟩

end UpdateFields

/-- **The members spell an update:** each of its fields is there once, in its own form. -/
structure Update.Spelled (u : Update) (members : List (Option String × Json)) : Prop where
  instrument : under "instrument" members = [.string (some u.instrument)]
  updateId : under "update_id" members = [.natural u.updateId]
  timestamp : under "timestamp" members = [.natural u.timestamp]
  bids : Level.Spelled u.bids (under "bids" members)
  asks : Level.Spelled u.asks (under "asks" members)

theorem Update.ofJson_object_eq_ok_iff {members : List (Option String × Json)} {u : Update} :
    Update.ofJson (.object members) = .ok u ↔
      u.Spelled members ∧ Passable UpdateFields.keys Json.whole members := by
  simp only [Update.ofJson, bind_eq_ok_iff, UpdateFields.foldlM_absorb_eq_ok_iff,
    UpdateFields.finish_eq_ok_iff]
  constructor
  · rintro ⟨found, ⟨hi, hu, ht, hb, ha, hpass⟩, hinstrument, hid, htimestamp, hbids, hasks⟩
    rw [hinstrument] at hi
    rw [hid] at hu
    rw [htimestamp] at ht
    exact ⟨⟨noted_text_iff.1 hi, noted_natural_iff.1 hu, noted_natural_iff.1 ht,
      noted_levels_iff.1 ⟨_, hb, hbids⟩, noted_levels_iff.1 ⟨_, ha, hasks⟩⟩, hpass⟩
  · rintro ⟨⟨hi, hu, ht, hb, ha⟩, hpass⟩
    obtain ⟨bids, hb, hbids⟩ := noted_levels_iff.2 hb
    obtain ⟨asks, ha, hasks⟩ := noted_levels_iff.2 ha
    exact ⟨{ instrument := some u.instrument, updateId := some u.updateId,
             timestamp := some u.timestamp, bids, asks },
      ⟨noted_text_iff.2 hi, noted_natural_iff.2 hu, noted_natural_iff.2 ht, hb, ha, hpass⟩,
      rfl, rfl, rfl, hbids, hasks⟩

/-! ### Trades -/

namespace TradeFields

/-- The keys of the fields of a trade. -/
def keys : List String :=
  ["instrument", "timestamp", "price", "size", "side"]

variable {readSide : Json → Except DecodeFault Aggressor}

/-- **What members make of the fields of a trade,** each by the values under its key. -/
def Takes (readSide : Json → Except DecodeFault Aggressor) (found : TradeFields)
    (members : List (Option String × Json)) (after : TradeFields) : Prop :=
  Noted (fun v => wellTyped v.text?) found.instrument (under "instrument" members)
      after.instrument ∧
    Noted (fun v => wellTyped v.natural?) found.timestamp (under "timestamp" members)
      after.timestamp ∧
    Noted (fun v => wellTyped v.natural?) found.price (under "price" members) after.price ∧
    Noted (fun v => wellTyped v.natural?) found.size (under "size" members) after.size ∧
    Noted readSide found.side (under "side" members) after.side ∧
    Passable keys Json.whole members

/-- The first of the members is taken in before the others. -/
theorem takes_cons_iff {found after : TradeFields} {m : Option String × Json}
    {members : List (Option String × Json)} :
    found.Takes readSide (m :: members) after ↔
      ∃ next, found.absorb readSide m = .ok next ∧ next.Takes readSide members after := by
  obtain ⟨_ | key, v⟩ := m
  · simp [Takes, absorb, Json.passable_cons]
  · by_cases hkey : key ∈ keys
    · -- of the conditions on both sides only those on this field differ
      have hpassable : Passable keys Json.whole ((some key, v) :: members) ↔ _ :=
        Json.passable_cons_of_mem hkey
      simp only [keys, List.mem_cons, List.not_mem_nil, or_false] at hkey
      rcases hkey with rfl | rfl | rfl | rfl | rfl <;>
        simp only [absorb, Takes, hpassable, Json.under_cons, Noted.cons_iff, exists_map_note_iff,
          String.reduceEq, if_true, if_false] <;>
        grind
    · have hpassable : Passable keys Json.whole ((some key, v) :: members) ↔ _ :=
        Json.passable_cons_of_not_mem hkey
      simp only [keys, List.mem_cons, List.not_mem_nil, or_false, not_or] at hkey
      simp only [absorb, Takes, hpassable, Json.under_cons, hkey, if_false]
      cases v.whole <;> simp

theorem foldlM_absorb_eq_ok_iff {found after : TradeFields}
    {members : List (Option String × Json)} :
    members.foldlM (absorb readSide) found = .ok after ↔ found.Takes readSide members after := by
  refine foldlM_eq_ok_iff (Takes readSide) (fun found after => ?_) fun _ _ _ _ => takes_cons_iff
  cases found
  cases after
  simp [Takes, Noted.nil_iff, Passable]

theorem finish_eq_ok_iff {found : TradeFields} {t : Trade} :
    found.finish = .ok t ↔
      found.instrument = some t.instrument ∧ found.timestamp = some t.timestamp ∧
        found.price = some t.price ∧ found.size = some t.size ∧ found.side = some t.side := by
  simp only [finish, bind_eq_ok_iff, required_eq_ok_iff, pure, Except.pure, Except.ok.injEq]
  constructor
  · rintro ⟨_, hinstrument, _, htimestamp, _, hprice, _, hsize, _, hside, rfl⟩
    exact ⟨hinstrument, htimestamp, hprice, hsize, hside⟩
  · rintro ⟨hinstrument, htimestamp, hprice, hsize, hside⟩
    exact ⟨_, hinstrument, _, htimestamp, _, hprice, _, hsize, _, hside, rfl⟩

end TradeFields

namespace Aggressor

/-- The forms of a side: its name, or an object with the name as its only key and null under it. -/
def forms (side : Aggressor) : List Json :=
  [.string (some side.name), .object [(some side.name, .null)]]

/-- The forms of a side in a message, where an empty object does for null. -/
def storedForms (side : Aggressor) : List Json :=
  side.forms ++ [.object [(some side.name, .object [])]]

theorem ofJson_eq_ok_iff {v : Json} {side : Aggressor} :
    ofJson v = .ok side ↔ v ∈ side.forms := by
  constructor
  · intro h
    unfold ofJson nameOf at h
    split at h
    · split at h
      case h_1 hname =>
        cases h
        rw [ofName?_eq_some_iff.1 hname]
        exact List.mem_cons_self
      case h_2 => cases h
    · split at h
      case h_1 hname =>
        split at h
        · cases h
          rw [ofName?_eq_some_iff.1 hname]
          exact List.mem_cons_of_mem _ List.mem_cons_self
        · cases h
      case h_2 => cases h
    · cases h
  · intro h
    simp only [forms, List.mem_cons, List.not_mem_nil, or_false] at h
    rcases h with rfl | rfl <;> cases side <;> rfl

theorem ofStored_eq_ok_iff {v : Json} {side : Aggressor} :
    ofStored v = .ok side ↔ v ∈ side.storedForms := by
  constructor
  · intro h
    unfold ofStored at h
    split at h
    case h_1 name =>
      have hname := ofJson_eq_ok_iff.1 h
      simp only [forms, List.mem_cons, List.not_mem_nil, or_false, reduceCtorEq, false_or,
        Json.object.injEq, List.cons.injEq, Prod.mk.injEq, and_true, Option.some.injEq] at hname
      rw [hname]
      exact List.mem_append_right _ (List.mem_singleton_self _)
    case h_2 => exact List.mem_append_left _ (ofJson_eq_ok_iff.1 h)
    case h_3 => cases h
    case h_4 => exact List.mem_append_left _ (ofJson_eq_ok_iff.1 h)
  · intro h
    simp only [storedForms, forms, List.cons_append, List.nil_append, List.mem_cons,
      List.not_mem_nil, or_false] at h
    rcases h with rfl | rfl | rfl <;> cases side <;> rfl

end Aggressor

/-- **The members spell a trade:** each of its fields is there once, the side in one of the given
forms. -/
structure Trade.Spelled (t : Trade) (forms : List Json) (members : List (Option String × Json)) :
    Prop where
  instrument : under "instrument" members = [.string (some t.instrument)]
  timestamp : under "timestamp" members = [.natural t.timestamp]
  price : under "price" members = [.natural t.price]
  size : under "size" members = [.natural t.size]
  side : ∃ v ∈ forms, under "side" members = [v]

theorem Trade.ofJsonWith_object_eq_ok_iff {readSide : Json → Except DecodeFault Aggressor}
    {forms : Aggressor → List Json}
    (hside : ∀ {v side}, readSide v = .ok side ↔ v ∈ forms side)
    {members : List (Option String × Json)} {t : Trade} :
    Trade.ofJsonWith readSide (.object members) = .ok t ↔
      t.Spelled (forms t.side) members ∧ Passable TradeFields.keys Json.whole members := by
  simp only [Trade.ofJsonWith, bind_eq_ok_iff, TradeFields.foldlM_absorb_eq_ok_iff,
    TradeFields.finish_eq_ok_iff]
  constructor
  · rintro ⟨found, ⟨hi, ht, hp, hz, hs, hpass⟩, hinstrument, htimestamp, hprice, hsize, hside'⟩
    rw [hinstrument] at hi
    rw [htimestamp] at ht
    rw [hprice] at hp
    rw [hsize] at hz
    rw [hside'] at hs
    obtain ⟨v, hv, hread⟩ := Noted.some_iff.1 hs
    exact ⟨⟨noted_text_iff.1 hi, noted_natural_iff.1 ht, noted_natural_iff.1 hp,
      noted_natural_iff.1 hz, v, hside.1 hread, hv⟩, hpass⟩
  · rintro ⟨⟨hi, ht, hp, hz, v, hform, hv⟩, hpass⟩
    exact ⟨{ instrument := some t.instrument, timestamp := some t.timestamp,
             price := some t.price, size := some t.size, side := some t.side },
      ⟨noted_text_iff.2 hi, noted_natural_iff.2 ht, noted_natural_iff.2 hp, noted_natural_iff.2 hz,
        Noted.some_iff.2 ⟨v, hv, hside.2 hform⟩, hpass⟩, rfl, rfl, rfl, rfl, rfl⟩

/-! ### Messages -/

namespace Message

theorem kindOfTag_eq_ok_iff {v : Json} {kind : Kind} :
    kindOfTag v = .ok kind ↔ v = .string (some kind.name) := by
  constructor
  · intro h
    unfold kindOfTag at h
    split at h
    · split at h
      case h_1 hname =>
        cases h
        rw [Kind.ofName?_eq_some_iff.1 hname]
      case h_2 => cases h
    · cases h
  · rintro rfl
    cases kind <;> rfl

/-- The first pass looks for the kind alone. -/
theorem foldlM_scanTag_eq_ok_iff {found after : Option Kind}
    {members : List (Option String × Json)} :
    members.foldlM scanTag found = .ok after ↔
      Noted kindOfTag found (under "type" members) after ∧
        Passable ["type"] (·.storable maxNesting) members := by
  refine foldlM_eq_ok_iff (fun found members after =>
    Noted kindOfTag found (under "type" members) after ∧
      Passable ["type"] (·.storable maxNesting) members) ?nil ?cons
  case nil =>
    intro found after
    simp [Noted.nil_iff, Passable]
  case cons =>
    rintro found ⟨_ | key, v⟩ members after
    · simp [scanTag, Json.passable_cons]
    · by_cases hkey : key = "type"
      · subst hkey
        rw [Json.passable_cons_of_mem (List.mem_singleton_self _)]
        simp only [scanTag, if_true, note_eq_ok_iff, Json.under_cons, Noted.cons_iff]
        grind
      · rw [Json.passable_cons_of_not_mem (by simpa using hkey)]
        simp only [scanTag, Json.under_cons, hkey, if_false]
        cases v.storable maxNesting <;> simp

/-- The members spell what the message carries. -/
def Carried (members : List (Option String × Json)) : Message → Prop
  | diff u | snapshot u => u.Spelled members
  | trade t => t.Spelled t.side.storedForms members

/-- **The members spell a message:** its kind once under `type`, and what it carries. -/
structure Spelled (m : Message) (members : List (Option String × Json)) : Prop where
  kind : under "type" members = [.string (some m.kind.name)]
  carried : m.Carried members

/-- A member under `type` that is a string can be kept, too. -/
theorem keepable_iff {members : List (Option String × Json)} {text : String}
    (h : under "type" members = [.string (some text)]) :
    Passable ["type"] (·.storable maxNesting) members ↔ Keepable members := by
  constructor
  · intro hpass m hm
    obtain ⟨key, hkey, htype | hvalue⟩ := hpass m hm
    · -- the one value under `type` is a string
      have hmem : m.2 ∈ under "type" members := by
        rw [Json.mem_under_iff, ← List.mem_singleton.1 htype, ← hkey]
        exact hm
      rw [h, List.mem_singleton] at hmem
      rw [hkey, hmem]
      exact ⟨rfl, rfl⟩
    · exact ⟨by rw [hkey]; rfl, hvalue⟩
  · intro hkeep m hm
    obtain ⟨hkey, hvalue⟩ := hkeep m hm
    obtain ⟨key, hkey⟩ := Option.isSome_iff_exists.1 hkey
    exact ⟨key, hkey, .inr hvalue⟩

theorem payload_object_eq_ok_iff {kind : Kind} {members : List (Option String × Json)}
    (h : Keepable members) {m : Message} :
    payload kind (.object members) = .ok m ↔ kind = m.kind ∧ m.Carried members := by
  have hupdate := h.passable UpdateFields.keys
  have htrade := h.passable TradeFields.keys
  cases kind <;> cases m <;>
    simp [payload, Carried, map_eq_ok_iff, Update.ofJson_object_eq_ok_iff,
      Trade.ofJsonWith_object_eq_ok_iff Aggressor.ofStored_eq_ok_iff, hupdate, htrade]

/-- **Which objects are messages, and which messages they are.** -/
theorem ofJson_eq_ok_iff {members : List (Option String × Json)} {m : Message} :
    ofJson (.object members) = .ok m ↔ Keepable members ∧ m.Spelled members := by
  simp only [ofJson, bind_eq_ok_iff, foldlM_scanTag_eq_ok_iff, required_eq_ok_iff]
  constructor
  · rintro ⟨found, ⟨htag, hpass⟩, kind, rfl, hpayload⟩
    obtain ⟨v, hv, hkind⟩ := Noted.some_iff.1 htag
    rw [kindOfTag_eq_ok_iff] at hkind
    rw [hkind] at hv
    have hkeep := (keepable_iff hv).1 hpass
    obtain ⟨rfl, hcarried⟩ := (payload_object_eq_ok_iff hkeep).1 hpayload
    exact ⟨hkeep, hv, hcarried⟩
  · rintro ⟨hkeep, hkind, hcarried⟩
    exact ⟨some m.kind, ⟨Noted.some_iff.2 ⟨_, hkind, kindOfTag_eq_ok_iff.2 rfl⟩,
      (keepable_iff hkind).2 hkeep⟩, m.kind, rfl,
      (payload_object_eq_ok_iff hkeep).2 ⟨rfl, hcarried⟩⟩

end Message

/-! ### Order and unknown members -/

/-- The keys of the fields of an object that is a message of a kind. -/
def Kind.keys : Kind → List String
  | .diff | .snapshot => "type" :: UpdateFields.keys
  | .trade => "type" :: TradeFields.keys

section Order

variable {members members' : List (Option String × Json)}

/-- A single value stays what it is. -/
theorem eq_singleton_of_perm {values values' : List Json} {v : Json} (h : values'.Perm values)
    (hv : values = [v]) : values' = [v] :=
  List.perm_singleton.1 (hv ▸ h)

theorem Level.Spelled.perm {levels : List Level} {values values' : List Json}
    (hs : Level.Spelled levels values) (h : values'.Perm values) :
    Level.Spelled levels values' := by
  rcases hs with ⟨rfl, hlevels⟩ | hvalues
  · exact .inl ⟨List.perm_nil.1 h, hlevels⟩
  · exact .inr (eq_singleton_of_perm h hvalues)

theorem Update.Spelled.perm {u : Update} (hs : u.Spelled members)
    (h : ∀ key ∈ UpdateFields.keys, (under key members').Perm (under key members)) :
    u.Spelled members' where
  instrument := eq_singleton_of_perm (h _ (by simp [UpdateFields.keys])) hs.instrument
  updateId := eq_singleton_of_perm (h _ (by simp [UpdateFields.keys])) hs.updateId
  timestamp := eq_singleton_of_perm (h _ (by simp [UpdateFields.keys])) hs.timestamp
  bids := hs.bids.perm (h _ (by simp [UpdateFields.keys]))
  asks := hs.asks.perm (h _ (by simp [UpdateFields.keys]))

theorem Trade.Spelled.perm {t : Trade} {forms : List Json} (hs : t.Spelled forms members)
    (h : ∀ key ∈ TradeFields.keys, (under key members').Perm (under key members)) :
    t.Spelled forms members' where
  instrument := eq_singleton_of_perm (h _ (by simp [TradeFields.keys])) hs.instrument
  timestamp := eq_singleton_of_perm (h _ (by simp [TradeFields.keys])) hs.timestamp
  price := eq_singleton_of_perm (h _ (by simp [TradeFields.keys])) hs.price
  size := eq_singleton_of_perm (h _ (by simp [TradeFields.keys])) hs.size
  side := by
    obtain ⟨v, hform, hv⟩ := hs.side
    exact ⟨v, hform, eq_singleton_of_perm (h _ (by simp [TradeFields.keys])) hv⟩

/-- **The order of the members does not matter, nor do members with other keys.** -/
theorem Message.Spelled.perm {m : Message} (hs : m.Spelled members)
    (h : (members'.filter fun member => member.1.any (· ∈ m.kind.keys)).Perm
      (members.filter fun member => member.1.any (· ∈ m.kind.keys))) : m.Spelled members' := by
  have hunder : ∀ key ∈ m.kind.keys, (under key members').Perm (under key members) := by
    intro key hkey
    rw [← Json.under_filter hkey members', ← Json.under_filter hkey members]
    exact Json.under_perm h key
  constructor
  case kind =>
    exact eq_singleton_of_perm (hunder "type" (by cases m <;> exact List.mem_cons_self)) hs.kind
  case carried =>
    have hfields := hs.carried
    cases m with
    | diff u => exact hfields.perm fun key hkey => hunder key (List.mem_cons_of_mem _ hkey)
    | snapshot u => exact hfields.perm fun key hkey => hunder key (List.mem_cons_of_mem _ hkey)
    | trade t => exact hfields.perm fun key hkey => hunder key (List.mem_cons_of_mem _ hkey)

end Order

/-! ### What a message carries, on its own -/

/-- A value in a text is judged as such, if there is nothing behind it. -/
theorem decodeWith_of_read {α : Type} {ofJson : Json → Except DecodeFault α} {text : String}
    {v : Json} {rest : List Char} (hread : Json.read text.toList = (v, rest))
    (hrest : (Json.skipBlanks rest).isEmpty = true) : decodeWith ofJson text = ofJson v := by
  rw [decodeWith, hread]
  simp only [hrest, if_true]
  cases ofJson v <;> rfl

namespace Message

variable {members : List (Option String × Json)}

theorem Spelled.ofJson_update {m : Message} (hkeep : Keepable members) (hs : m.Spelled members)
    {u : Update} (hm : m = .diff u ∨ m = .snapshot u) :
    Update.ofJson (.object members) = .ok u := by
  refine Update.ofJson_object_eq_ok_iff.2 ⟨?_, hkeep.passable _⟩
  rcases hm with rfl | rfl <;> exact hs.carried

/-- A trade on its own may not have an empty object for null in its side. -/
theorem Spelled.ofJson_trade_iff {t : Trade} (hkeep : Keepable members)
    (hs : (Message.trade t).Spelled members) :
    Trade.ofJson (.object members) = .ok t ↔
      under "side" members ≠ [.object [(some t.side.name, .object [])]] := by
  have hfields : t.Spelled t.side.storedForms members := hs.carried
  obtain ⟨v, hform, hv⟩ := hfields.side
  rw [Trade.ofJson, Trade.ofJsonWith_object_eq_ok_iff Aggressor.ofJson_eq_ok_iff, hv]
  constructor
  · rintro ⟨halone, -⟩ hempty
    obtain ⟨v', hform', hv'⟩ := halone.side
    rw [hv, hempty, List.cons.injEq] at hv'
    rw [← hv'.1] at hform'
    simp [Aggressor.forms] at hform'
  · intro hother
    refine ⟨⟨hfields.instrument, hfields.timestamp, hfields.price, hfields.size, v, ?_, hv⟩,
      hkeep.passable _⟩
    rcases List.mem_append.1 hform with hform | hempty
    · exact hform
    · exact absurd (congrArg (fun v => [v]) (List.mem_singleton.1 hempty)) hother

/-- An object in a text is judged as such, if there is nothing behind it. -/
theorem decode_of_read {text : String} {rest : List Char}
    (hread : Json.read text.toList = (.object members, rest))
    (hrest : (Json.skipBlanks rest).isEmpty = true) : decode text = ofJson (.object members) :=
  decodeWith_of_read hread hrest

/-- **Which objects are messages.**  An object is a message if and only if its members can be kept
and spell one: `type` is there once with the name of a kind, each field of that kind is there once
in its form, and lists of levels may be missing.  Since the message is made of these members alone,
it is the same in any order of them and among any others.  On its own what it carries is read from
the same object, unless the side of a trade is written with an empty object for null. -/
theorem ofJson_object (members : List (Option String × Json)) :
    (∀ m, ofJson (.object members) = .ok m ↔ Keepable members ∧ m.Spelled members) ∧
    (∀ m members', ofJson (.object members) = .ok m → Keepable members' →
      (members'.filter fun member => member.1.any (· ∈ m.kind.keys)).Perm
          (members.filter fun member => member.1.any (· ∈ m.kind.keys)) →
        ofJson (.object members') = .ok m) ∧
    (∀ m u, ofJson (.object members) = .ok m → m = .diff u ∨ m = .snapshot u →
      Update.ofJson (.object members) = .ok u) ∧
    (∀ t, ofJson (.object members) = .ok (.trade t) →
      (Trade.ofJson (.object members) = .ok t ↔
        under "side" members ≠ [.object [(some t.side.name, .object [])]])) ∧
    ∀ text rest, Json.read text.toList = (.object members, rest) →
      (Json.skipBlanks rest).isEmpty = true → decode text = ofJson (.object members) := by
  refine ⟨fun m => ofJson_eq_ok_iff, ?_, ?_, ?_, fun text rest => decode_of_read⟩
  · intro m members' hm hkeep hperm
    exact ofJson_eq_ok_iff.2 ⟨hkeep, (ofJson_eq_ok_iff.1 hm).2.perm hperm⟩
  · intro m u hm hu
    obtain ⟨hkeep, hs⟩ := ofJson_eq_ok_iff.1 hm
    exact hs.ofJson_update hkeep hu
  · intro t ht
    obtain ⟨hkeep, hs⟩ := ofJson_eq_ok_iff.1 ht
    exact hs.ofJson_trade_iff hkeep

/-- A diff whose members come in the reverse order among others, and a trade with its side as an
object. -/
theorem ofJson_object_in_reverse :
    let members : List (Option String × Json) :=
      [(some "type", .string (some "diff")), (some "instrument", .string (some "A")),
        (some "update_id", .natural 5), (some "timestamp", .natural 7),
        (some "asks", .array [.array [.natural 3, .natural 0]])]
    let members' := (some "x", .null) :: members.reverse ++ [(some "x", .object [])]
    let text := "\x7b\"type\":\"diff\",\"instrument\":\"A\",\"update_id\":5,\"timestamp\":7," ++
      "\"asks\":[[3,0]]\x7d"
    let u : Update := { instrument := "A", updateId := 5, timestamp := 7, asks := [⟨3, 0⟩] }
    let traded : List (Option String × Json) :=
      [(some "price", .natural 1), (some "side", .object [(some "sell", .null)]),
        (some "size", .natural 2), (some "instrument", .string (some "A")),
        (some "type", .string (some "trade")), (some "timestamp", .natural 7)]
    let t : Trade := { instrument := "A", timestamp := 7, price := 1, size := 2, side := .sell }
    ofJson (.object members) = .ok (.diff u) ∧ Keepable members' ∧
    ofJson (.object members') = .ok (.diff u) ∧ Update.ofJson (.object members) = .ok u ∧
    Json.read text.toList = (.object members, []) ∧ decode text = .ok (.diff u) ∧
    ofJson (.object traded) = .ok (.trade t) ∧ Trade.ofJson (.object traded) = .ok t := by
  intro members members' text u traded t
  have hm : ofJson (.object members) = .ok (.diff u) := by cbv
  have ht : ofJson (.object traded) = .ok (.trade t) := by cbv
  have hkeep : Keepable members' := by
    simp [Keepable, members', members, Json.storable, Json.storableItems, Json.storableMembers,
      maxNesting]
  have hperm : (members'.filter fun member => member.1.any (· ∈ Kind.diff.keys)).Perm
      (members.filter fun member => member.1.any (· ∈ Kind.diff.keys)) :=
    List.reverse_perm members
  have htext : text = String.ofList (Json.render (.object members)) := by
    unfold text members
    cbv
  have hread : Json.read text.toList = (.object members, []) := by
    rw [htext, String.toList_ofList]
    exact Json.read_render rfl
  have hside : under "side" traded ≠ [.object [(some "sell", .object [])]] := by
    simp [under, traded]
  obtain ⟨-, hsame, hupdate, -, hdecode⟩ := ofJson_object members
  obtain ⟨-, -, -, htrade, -⟩ := ofJson_object traded
  exact ⟨hm, hkeep, hsame _ members' hm hkeep hperm, hupdate _ u hm (.inl rfl), hread,
    (hdecode text [] hread rfl).trans hm, ht, (htrade t ht).2 hside⟩

/-- **A side may be written with an empty object for null in a message only:** so the same object
need not be a trade on its own, and the value of its side need not be one that is a side. -/
theorem not_trade_alone :
    ¬ ∀ members, Keepable members → ∀ t, ofJson (.object members) = .ok (.trade t) →
      (∃ v, under "side" members = [v] ∧ Aggressor.ofJson v = .ok t.side) ∧
        Trade.ofJson (.object members) = .ok t := by
  intro hall
  let members : List (Option String × Json) :=
    [(some "type", .string (some "trade")), (some "instrument", .string (some "A")),
      (some "timestamp", .natural 1), (some "price", .natural 1), (some "size", .natural 2),
      (some "side", .object [(some "buy", .object [])])]
  let t : Trade := { instrument := "A", timestamp := 1, price := 1, size := 2, side := .buy }
  have ht : ofJson (.object members) = .ok (.trade t) := by cbv
  have hrefused : Trade.ofJson (.object members) = .error .malformed := by cbv
  have hkeep : Keepable members := (ofJson_eq_ok_iff.1 ht).1
  have halone := (hall members hkeep t ht).2
  rw [hrefused] at halone
  cases halone

end Message

end MarketDepth
