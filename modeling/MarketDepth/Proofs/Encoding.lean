/-
**Messages are decoded from their texts.**

A message is written as an object of fields in a fixed order, and read from an object whose fields
may come in any order; what is written is one of the forms that are read, and it gives back every
field.  This holds of any instrument name and of any levels, however many and in whatever order, and
of all words.  So no two messages have the same text.

Main results:

* `MarketDepth.Level.listOfJson?_eq_some_iff` — the one form of a list of levels;
* `MarketDepth.Update.ofJson_toJson`, `MarketDepth.Trade.ofJson_toJson`,
  `MarketDepth.Message.ofJson_toJson` — objects give back what they were made of;
* `MarketDepth.Message.decode_encode` — **so do texts.**
-/

import MarketDepth.Message.Decode
import MarketDepth.Message.Encode
import MarketDepth.Proofs.ReadBack

set_option relaxedAutoImplicit false
set_option autoImplicit false

namespace MarketDepth

/-! ### Levels -/

namespace Level

theorem ofJson?_eq_some_iff {v : Json} {l : Level} :
    ofJson? v = some l ↔ v = .array [.natural l.price, .natural l.size] := by
  constructor
  · intro h
    unfold ofJson? at h
    split at h
    · cases h
      rfl
    · cases h
  · rintro rfl
    rfl

/-- **A list of levels is an array of pairs,** and no other value is. -/
theorem listOfJson?_eq_some_iff {v : Json} {levels : List Level} :
    listOfJson? v = some levels ↔ v = listToJson levels := by
  have hitems : ∀ (items : List Json) (levels : List Level), items.mapM ofJson? = some levels ↔
      items = levels.map fun l => .array [.natural l.price, .natural l.size] := by
    intro items
    induction items with
    | nil =>
        intro levels
        cases levels <;> simp
    | cons v items ih =>
        intro levels
        cases levels <;>
          simp [List.mapM_cons, Option.bind_eq_some_iff, ofJson?_eq_some_iff, ih]
  cases v with
  | array items => rw [listOfJson?, hitems, listToJson, Json.array.injEq]
  | _ => exact ⟨nofun, nofun⟩

@[simp] theorem listOfJson?_listToJson (levels : List Level) :
    listOfJson? (listToJson levels) = some levels :=
  listOfJson?_eq_some_iff.2 rfl

theorem hasText_listToJson (levels : List Level) : (listToJson levels).hasText = true := by
  rw [listToJson, Json.hasText]
  induction levels with
  | nil => rfl
  | cons l levels ih => rw [List.map_cons, Json.hasTextItems, ih]; rfl

/-- Lists of levels are flat enough to be kept. -/
theorem storable_listToJson (levels : List Level) (depth : Nat) :
    (listToJson levels).storable (depth + 2) = true := by
  rw [listToJson, Json.storable]
  induction levels with
  | nil => rfl
  | cons l levels ih => rw [List.map_cons, Json.storableItems, ih]; rfl

end Level

/-! ### Objects -/

/-- The members of an update give back its fields. -/
theorem Update.foldlM_absorb_members (u : Update) :
    u.members.foldlM UpdateFields.absorb {} =
      .ok { instrument := some u.instrument, updateId := some u.updateId,
            timestamp := some u.timestamp, bids := some u.bids, asks := some u.asks } := by
  simp [members, List.foldlM, UpdateFields.absorb, note, wellTyped, Json.text?, Json.natural?,
    bind, Except.bind, Except.map, pure, Except.pure]

theorem Update.ofJson_toJson (u : Update) : Update.ofJson u.toJson = .ok u := by
  rw [toJson, ofJson, foldlM_absorb_members]
  rfl

/-- The members of a trade give back its fields, with a reader that takes the names of sides. -/
theorem Trade.foldlM_absorb_members (t : Trade) {readSide : Json → Except DecodeFault Aggressor}
    (hside : readSide (.string (some t.side.name)) = .ok t.side) :
    t.members.foldlM (TradeFields.absorb readSide) {} =
      .ok { instrument := some t.instrument, timestamp := some t.timestamp, price := some t.price,
            size := some t.size, side := some t.side } := by
  simp [members, List.foldlM, TradeFields.absorb, note, wellTyped, Json.text?, Json.natural?, hside,
    bind, Except.bind, Except.map, pure, Except.pure]

theorem Aggressor.ofJson_name (side : Aggressor) :
    Aggressor.ofJson (.string (some side.name)) = .ok side := by
  cases side <;> rfl

theorem Trade.ofJson_toJson (t : Trade) : Trade.ofJson t.toJson = .ok t := by
  rw [toJson, ofJson, ofJsonWith, foldlM_absorb_members t (Aggressor.ofJson_name t.side)]
  rfl

namespace Message

/-- The first pass finds the kind. -/
theorem foldlM_scanTag_members (m : Message) :
    ((some "type", .string (some m.kind.name)) :: m.members).foldlM scanTag none =
      .ok (some m.kind) := by
  have hlevels : ∀ levels, (Level.listToJson levels).storable maxNesting = true := fun levels =>
    Level.storable_listToJson levels 124
  cases m <;>
    simp [members, Update.members, Trade.members, List.foldlM, scanTag, note, kindOfTag, hlevels,
      Json.storable, bind, Except.bind, Except.map, pure, Except.pure]

/-- The second pass passes over the kind. -/
theorem payload_toJson (m : Message) : payload m.kind m.toJson = .ok m := by
  have hupdate : ∀ (u : Update) (kind : Kind),
      Update.ofJson (.object ((some "type", .string (some kind.name)) :: u.members)) = .ok u := by
    intro u kind
    rw [Update.ofJson, List.foldlM_cons]
    exact Update.ofJson_toJson u
  cases m with
  | diff u => exact congrArg (Except.map diff) (hupdate u .diff)
  | snapshot u => exact congrArg (Except.map snapshot) (hupdate u .snapshot)
  | trade t =>
      have hside : Aggressor.ofStored (.string (some t.side.name)) = .ok t.side :=
        Aggressor.ofJson_name t.side
      have htrade : Trade.ofJsonWith Aggressor.ofStored (trade t).toJson = .ok t := by
        rw [toJson, Trade.ofJsonWith, List.foldlM_cons]
        exact congrArg (Except.bind · TradeFields.finish) (Trade.foldlM_absorb_members t hside)
      exact congrArg (Except.map trade) htrade

theorem ofJson_toJson (m : Message) : ofJson m.toJson = .ok m := by
  rw [toJson, ofJson, foldlM_scanTag_members]
  exact payload_toJson m

end Message

/-! ### Texts -/

theorem Update.hasTextMembers_members (u : Update) : Json.hasTextMembers u.members = true := by
  simp [members, Json.hasTextMembers, Json.hasText, Level.hasText_listToJson]

theorem Trade.hasTextMembers_members (t : Trade) : Json.hasTextMembers t.members = true := rfl

theorem Message.hasText_toJson (m : Message) : m.toJson.hasText = true := by
  cases m with
  | diff u => exact u.hasTextMembers_members
  | snapshot u => exact u.hasTextMembers_members
  | trade t => rfl

/-- A value that is read back is decoded from its text. -/
theorem decodeWith_render {α : Type} {ofJson : Json → Except DecodeFault α} {v : Json} {a : α}
    (htext : v.hasText = true) (h : ofJson v = .ok a) :
    decodeWith ofJson (String.ofList v.render) = .ok a := by
  rw [decodeWith, String.toList_ofList, Json.read_render htext]
  simp only [h]
  rfl

/-- A function with an inverse on its values is injective, also if the inverse may fail. -/
theorem injective_of_decode {α β : Type} {encode : α → β} {decode : β → Except DecodeFault α}
    (h : ∀ a, decode (encode a) = .ok a) : Function.Injective encode := by
  intro a a' heq
  have ha := h a
  rw [heq, h a'] at ha
  exact (Except.ok.inj ha).symm

/-- **Messages are decoded from their texts,** whatever the instrument is called, and so are updates
and trades on their own; so different ones have different texts. -/
theorem Message.decode_encode :
    (∀ m : Message, Message.decode m.encode = .ok m) ∧
    (∀ u : Update, Update.decode u.encode = .ok u) ∧
    (∀ t : Trade, Trade.decode t.encode = .ok t) ∧
    Function.Injective Message.encode ∧ Function.Injective Update.encode ∧
    Function.Injective Trade.encode := by
  have hmessage : ∀ m : Message, Message.decode m.encode = .ok m := fun m =>
    decodeWith_render m.hasText_toJson m.ofJson_toJson
  have hupdate : ∀ u : Update, Update.decode u.encode = .ok u := fun u =>
    decodeWith_render u.hasTextMembers_members u.ofJson_toJson
  have htrade : ∀ t : Trade, Trade.decode t.encode = .ok t := fun t =>
    decodeWith_render t.hasTextMembers_members t.ofJson_toJson
  exact ⟨hmessage, hupdate, htrade, injective_of_decode hmessage, injective_of_decode hupdate,
    injective_of_decode htrade⟩

example :
    (Message.diff { instrument := "a\"\n\x01é", updateId := 18446744073709551615, timestamp := 0,
                    bids := [⟨7, 0⟩, ⟨7, 10⟩] }).encode =
      "\x7b\"type\":\"diff\",\"instrument\":\"a\\\"\\n\\u0001é\"," ++
        "\"update_id\":18446744073709551615,\"timestamp\":0," ++
        "\"bids\":[[7,0],[7,10]],\"asks\":[]\x7d" := by cbv

end MarketDepth
