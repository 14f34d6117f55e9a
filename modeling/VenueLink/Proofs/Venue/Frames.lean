import VenueLink.Proofs.Document.ReadBack
import VenueLink.Proofs.Number.ReadBack
import VenueLink.Venue.Frame

/-!
# Frames that are read back

A frame is an object of its name and its content. Whatever the content of a request is, as long
as it is a JSON value, the frame is read back from that object (`Frame.read_toJson`), so that no
two frames look alike. The body of a placement is such a content, and from it the placement is
read back with all its parts.

## Main results

* `Frame.read_toJson`: a frame is read back.
* `Order.Placement.read_toJson`: a placement is read back from the body of its frame.
* `Frame.frames_read_back`: both together, for all frames and for those of each operation.
-/

namespace VenueLink

open Document Json

/-- A name of a choice is read as what it names. -/
theorem Reading.choice_string {f : String → Option α} {s : String} {a : α} (h : f s = some a) :
    Reading.choice f (.string s) = .ok a := by
  rw [Reading.choice, h]

/-- What is read has no fault. -/
theorem Fields.faultOf_ok {x : Except Fault α} {a : α} (h : x = .ok a) : faultOf x = none := by
  rw [h]
  rfl

namespace Inquiry

/-- A request is read back from itself. -/
theorem read_toJson (i : Inquiry) (h : i.body.Proper) :
    fields.read (ofJson i.toJson) = .ok i := by
  have hbody : Reading.json (ofJson i.body) = .ok i.body := toJson_ofJson i.body h
  rw [toJson, Fields.read_ofJson]
  · simp only [fields, Fields.build_seq, Fields.build_map]
    rw [Fields.build_field (d := .string i.name) rfl,
      Fields.build_field (d := .string i.version) rfl,
      Fields.build_field (d := ofJson i.body) rfl, hbody]
    rfl
  · simp only [List.forall_mem_cons, List.not_mem_nil, false_implies, implies_true, and_true]
    exact ⟨⟨_, rfl, Fields.faultOf_ok hbody⟩, ⟨_, rfl, rfl⟩, ⟨_, rfl, rfl⟩⟩
  · simp

/-- Inquiries that are written alike are the same. -/
theorem toJson_injective : Function.Injective toJson := by
  rintro ⟨name, version, body⟩ ⟨name', version', body'⟩ heq
  simp only [toJson, Json.object.injEq, List.cons.injEq, Prod.mk.injEq, Json.string.injEq,
    true_and, and_true] at heq
  obtain ⟨rfl, rfl, rfl⟩ := heq
  rfl

/-- An inquiry with a proper body is written in proper JSON. -/
theorem proper_toJson {i : Inquiry} (h : i.body.Proper) : i.toJson.Proper := by
  have hkeys : List.Pairwise (· < ·) ["body", "name", "version"] := by decide
  rw [toJson, Json.Proper]
  exact ⟨hkeys, h, trivial, trivial, trivial⟩

end Inquiry

namespace Order

/-- A side is read back from its name. -/
theorem Side.ofName?_name (s : Side) : ofName? s.name = some s := by
  cases s <;> decide

namespace Placement

/-- A placement is read back from itself. -/
theorem read_toJson (p : Placement) (hlow : Text.minInt64 ≤ p.userBalanceId)
    (hhigh : p.userBalanceId ≤ Text.maxInt64) : fields.read (ofJson p.toJson) = .ok p := by
  have hid : Reading.int64 (.integer p.userBalanceId) = .ok p.userBalanceId := by
    rw [Reading.int64, Reading.integer, if_pos (by simp [hlow, hhigh])]
  have hfamily : Instrument.Family.reading (.string p.family.name) = .ok p.family :=
    Reading.choice_string p.family.ofName?_name
  have hside : Side.reading (.string p.side.name) = .ok p.side :=
    Reading.choice_string p.side.ofName?_name
  have hamount : amountReading (.string p.amount.text) = .ok p.amount := by
    rw [amountReading, Reading.stringWith, Decimal.ofText?_text]
    all_goals simp
  rw [toJson, Fields.read_ofJson]
  · simp only [fields, Fields.build_seq, Fields.build_map]
    rw [Fields.build_field (d := .integer p.userBalanceId) rfl, hid,
      Fields.build_field (d := .string p.family.name) rfl, hfamily,
      Fields.build_field (d := .string p.instrumentId) rfl,
      Fields.build_field (d := .string p.side.name) rfl, hside,
      Fields.build_field (d := .string p.amount.text) rfl, hamount]
    rfl
  · simp only [List.forall_mem_cons, List.not_mem_nil, false_implies, implies_true, and_true]
    exact ⟨⟨_, rfl, Fields.faultOf_ok hamount⟩, ⟨_, rfl, rfl⟩,
      ⟨_, rfl, Fields.faultOf_ok hfamily⟩, ⟨_, rfl, Fields.faultOf_ok hside⟩,
      ⟨_, rfl, Fields.faultOf_ok hid⟩⟩
  · simp

/-- So is a placement. -/
theorem proper_toJson (p : Placement) : p.toJson.Proper := by
  have hkeys : List.Pairwise (· < ·)
      ["amount", "instrument_id", "instrument_type", "side", "user_balance_id"] := by decide
  rw [toJson, Json.Proper]
  exact ⟨hkeys, trivial, trivial, trivial, trivial, trivial, trivial⟩

end Placement

end Order

namespace Frame

/-- So is the kind of a frame. -/
theorem Kind.ofName?_name (k : Kind) : ofName? k.name = some k := by
  cases k <;> decide

/-! ### The parts of a frame -/

/-- What the content of the frame is. -/
def kind : Frame → Kind
  | .handshake _ => .handshake
  | .send _ => .send
  | .subscribe _ => .subscribe

/-- The content of the frame. -/
def content : Frame → Json
  | .handshake token => .string token
  | .send i => i.toJson
  | .subscribe i => i.toJson

/-- The body of the request in the frame is a JSON value. -/
def Proper : Frame → Prop
  | .handshake _ => True
  | .send i => i.body.Proper
  | .subscribe i => i.body.Proper

/-- A frame is its content and the name of its kind. -/
theorem toJson_eq (m : Frame) :
    m.toJson = .object [("msg", m.content), ("name", .string m.kind.name)] := by
  cases m <;> rfl

/-- The content of a proper frame is proper. -/
theorem proper_content {m : Frame} (h : m.Proper) : m.content.Proper := by
  cases m with
  | handshake token => trivial
  | send i => exact Inquiry.proper_toJson h
  | subscribe i => exact Inquiry.proper_toJson h

/-- A frame is read back from its kind and its content. -/
theorem ofParts_content {m : Frame} (h : m.Proper) : ofParts m.kind m.content = .ok m := by
  rw [ofParts, readJson]
  cases m with
  | handshake token => rfl
  | send i =>
    rw [kind, contentReading, content]
    dsimp only
    rw [Inquiry.read_toJson i h]
    rfl
  | subscribe i =>
    rw [kind, contentReading, content]
    dsimp only
    rw [Inquiry.read_toJson i h]
    rfl

/-- A frame is read back. -/
theorem read_toJson {m : Frame} (h : m.Proper) : readJson reading m.toJson = .ok m := by
  have hcontent : Reading.json (ofJson m.content) = .ok m.content :=
    toJson_ofJson _ (proper_content h)
  have hkind : Reading.choice Kind.ofName? (.string m.kind.name) = .ok m.kind :=
    Reading.choice_string m.kind.ofName?_name
  have hparts : (Prod.mk <$> Fields.field "name" (Reading.choice Kind.ofName?)
      <*> Fields.field "msg" Reading.json).read (ofJson m.toJson) =
        .ok (m.kind, m.content) := by
    rw [toJson_eq, Fields.read_ofJson]
    · simp only [Fields.build_seq, Fields.build_map]
      rw [Fields.build_field (d := .string m.kind.name) rfl, hkind,
        Fields.build_field (d := ofJson m.content) rfl, hcontent]
      rfl
    · simp only [List.forall_mem_cons, List.not_mem_nil, false_implies, implies_true, and_true]
      exact ⟨⟨_, rfl, Fields.faultOf_ok hcontent⟩, ⟨_, rfl, Fields.faultOf_ok hkind⟩⟩
    · simp
  have hread : reading (ofJson m.toJson) = .ok m := by
    rw [reading, hparts]
    exact ofParts_content h
  rw [readJson, hread]
  rfl

/-- No two frames look alike. -/
theorem toJson_injective : Function.Injective toJson := by
  intro m m' heq
  rw [toJson_eq, toJson_eq] at heq
  simp only [Json.object.injEq, List.cons.injEq, Prod.mk.injEq, Json.string.injEq, true_and,
    and_true] at heq
  obtain ⟨hcontent, hname⟩ := heq
  have hkind : m.kind = m'.kind :=
    Option.some.inj (by rw [← m.kind.ofName?_name, hname, m'.kind.ofName?_name])
  cases m <;> cases m' <;> cases hkind
  case handshake.handshake => exact congrArg handshake (Json.string.inj hcontent)
  case send.send => exact congrArg send (Inquiry.toJson_injective hcontent)
  case subscribe.subscribe => exact congrArg subscribe (Inquiry.toJson_injective hcontent)

/-! ### The frames of each operation -/

/-- A handshake, or a frame that one of the operations sends. -/
inductive Built : Frame → Prop
  | handshake (token : String) : Built (.handshake token)
  | balances (kinds : List Int) : Built (balances kinds)
  | instruments (family : Instrument.Family) : Built (instruments family)
  | instrumentChanges (family : Instrument.Family) (userGroup : Int) (regulated : Bool) :
    Built (instrumentChanges family userGroup regulated)
  | orderChanges : Built orderChanges
  | placement (p : Order.Placement) : Built p.frame

/-- The filters of a question for instruments are proper. -/
theorem proper_instrumentFilters (family : Instrument.Family) (userGroup : Int)
    (regulated : Bool) : (instrumentFilters family userGroup regulated).Proper := by
  rw [instrumentFilters]
  refine ⟨?_, properFields_iff.mpr fun f hf => ?_⟩
  · rw [Ascending, List.map_append, List.map_append]
    split <;> split <;>
      simp only [List.map_cons, List.map_nil, List.nil_append, List.append_nil,
        List.cons_append] <;> decide
  · rcases List.mem_append.mp hf with hf | hf
    · rcases List.mem_append.mp hf with hf | hf
      · split at hf
        · rw [List.mem_singleton.mp hf]
          trivial
        · cases hf
      · rw [List.mem_singleton.mp hf]
        trivial
    · split at hf
      · cases hf
      · rw [List.mem_singleton.mp hf]
        trivial

/-- A frame that is built is proper. -/
theorem Built.proper {m : Frame} (h : m.Built) : m.Proper := by
  have hsingle : ∀ (key : String) (j : Json), j.Proper → (Json.object [(key, j)]).Proper :=
    fun key j hj => ⟨List.pairwise_singleton _ _, hj, trivial⟩
  cases h with
  | handshake token => trivial
  | balances kinds =>
    refine hsingle _ _ (properItems_iff.mpr fun x hx => ?_)
    obtain ⟨kind, -, rfl⟩ := List.mem_map.mp hx
    trivial
  | instruments family => exact hsingle _ _ trivial
  | instrumentChanges family userGroup regulated =>
    exact hsingle _ _ (proper_instrumentFilters family userGroup regulated)
  | orderChanges => exact hsingle _ _ (hsingle _ _ trivial)
  | placement p => exact p.proper_toJson

/-- **Frames.** Every frame whose content is JSON is read back from its JSON, and so is a
handshake with any token and every frame that an operation sends. As JSON no frame is `null`,
and no two frames are the same. From the body of the frame of a placement the placement is read
back with all its parts, the places of the amount among them, as long as the id of the balance
has 64 bits. -/
theorem frames_read_back :
    (∀ m : Frame, m.Proper → readJson reading m.toJson = .ok m) ∧
      (∀ m : Frame, m.Built → readJson reading m.toJson = .ok m) ∧
      (∀ m : Frame, m.toJson ≠ .null) ∧ Function.Injective toJson ∧
      ∀ p : Order.Placement, Text.minInt64 ≤ p.userBalanceId → p.userBalanceId ≤ Text.maxInt64 →
        ∃ i, p.frame = .send i ∧ readJson Order.Placement.fields.read i.body = .ok p := by
  refine ⟨fun m h => read_toJson h, fun m h => read_toJson h.proper, fun m => ?_,
    toJson_injective, fun p hlow hhigh => ⟨_, rfl, ?_⟩⟩
  · rw [toJson_eq]
    exact nofun
  · rw [readJson, p.read_toJson hlow hhigh]
    rfl

/-- A sale for an amount with two places. -/
def sale : Order.Placement where
  userBalanceId := 42
  family := .digitalOption
  instrumentId := "do1861"
  side := .sell
  amount := ⟨1000, 2, by decide, by decide⟩

/-- The frame of the sale is read back, and the sale from its body. -/
theorem sale_is_read_back :
    sale.amount.text = "10.00" ∧ readJson reading sale.frame.toJson = .ok sale.frame ∧
      ∃ i, sale.frame = .send i ∧ readJson Order.Placement.fields.read i.body = .ok sale := by
  obtain ⟨-, hbuilt, -, -, hplacement⟩ := frames_read_back
  exact ⟨by decide +kernel, hbuilt _ (.placement sale), hplacement sale (by decide) (by decide)⟩

end Frame

end VenueLink
