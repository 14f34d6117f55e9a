import VenueLink.Order.Record
import VenueLink.Proofs.Json.Integers

/-!
# The id of an order in a message

A message carries the id of an order under `id` or `order_id`, as a number or as a text. An
acknowledgement is read with `Order.idIn?`: one of the two fields is picked first, and only then
is its value converted, so a value under `id` that is no id hides one under `order_id`. The
answer to a question for an order is found with `Order.isNamedIn`, which looks at both fields
and compares them as doubles.

## Main results

* `id_is_found_iff`: which id is read, and which messages have one that is not found.
* `names_own_id_iff`: whether a message names the order whose id is read from it.
-/

namespace VenueLink

open Json Double

namespace Json

/-- More fields are looked at only if none of the others is there. -/
theorem payload_append (raw : Json) (keys more : List String) :
    raw.payload (keys ++ more) =
      (((keys.filterMap raw.get?).find? (!·.isNull)).or
        ((more.filterMap raw.get?).find? (!·.isNull))).getD raw := by
  rw [payload, List.filterMap_append, List.find?_append]

end Json

namespace Order

variable {p raw : Json} {k : Int}

/-- The value that the id of an order is read from. -/
def idField? (p : Json) : Option Json :=
  ((p.get? "id").filter (!·.isNull)).orElse fun _ => p.get? "order_id"

/-- The id is read from `id` if that is there, else from `order_id`. -/
theorem idField?_cases (p : Json) :
    (∃ v, p.get? "id" = some v ∧ v.isNull = false ∧ idField? p = some v) ∨
      (∀ v, p.get? "id" = some v → v = null) ∧ idField? p = p.get? "order_id" := by
  rw [idField?]
  cases hid : (p.get? "id").filter (!·.isNull) with
  | some v =>
    obtain ⟨hv, hnot⟩ := Option.filter_eq_some_iff.mp hid
    exact .inl ⟨v, hv, by simpa using hnot, rfl⟩
  | none =>
    refine .inr ⟨fun v hv => ?_, rfl⟩
    have hnull := Option.filter_eq_none_iff.mp hid v hv
    cases v <;> first | rfl | exact absurd rfl hnull

/-- The number of an order is that of the field that is chosen, unless it is zero. -/
theorem idIn?_eq_some_iff :
    idIn? raw = some k ↔
      ∃ v, idField? (raw.payload ["msg", "result", "message"]) = some v ∧ v.asInt? = some k ∧
        k ≠ 0 := by
  change (((idField? _).bind asInt?).filter (· ≠ 0)) = some k ↔ _
  simp only [Option.filter_eq_some_iff, Option.bind_eq_some_iff, decide_eq_true_eq]
  exact ⟨fun ⟨⟨v, hv, hk⟩, hne⟩ => ⟨v, hv, hk, hne⟩, fun ⟨v, hv, hk, hne⟩ => ⟨⟨v, hv, hk⟩, hne⟩⟩

/-- A nonzero id can be read from a field. -/
def Holds (p : Json) (key : String) (k : Int) : Prop :=
  ∃ v, p.get? key = some v ∧ v.asInt? = some k ∧ k ≠ 0

/-- There is an id under `order_id`, and under `id` there is something else. -/
def HidesId (p : Json) : Prop :=
  (∃ v, p.get? "id" = some v ∧ v.isNull = false) ∧ (∀ k, ¬Holds p "id" k) ∧
    ∃ k, Holds p "order_id" k

/-- A number that is hidden is not found. -/
theorem idIn?_of_hidesId (h : HidesId (raw.payload ["msg", "result", "message"])) :
    idIn? raw = none := by
  obtain ⟨⟨v, hv, hnot⟩, hid, -⟩ := h
  rw [Option.eq_none_iff_forall_ne_some]
  intro k hk
  obtain ⟨w, hw, hwk⟩ := idIn?_eq_some_iff.mp hk
  rcases idField?_cases (raw.payload ["msg", "result", "message"]) with ⟨u, hu, -, hfield⟩ |
    ⟨hnull, -⟩
  · exact hid k ⟨w, hu.trans (hfield.symm.trans hw), hwk⟩
  · rw [hnull v hv] at hnot
    cases hnot

/-- The field that is picked is the one that has the id. -/
theorem idField?_iff_of_not_hidesId (h : ¬HidesId p) :
    (∃ v, idField? p = some v ∧ v.asInt? = some k ∧ k ≠ 0) ↔
      Holds p "id" k ∨ (∀ j, ¬Holds p "id" j) ∧ Holds p "order_id" k := by
  rcases idField?_cases p with ⟨v, hv, hnot, hfield⟩ | ⟨hnull, hfield⟩
  · rw [hfield, ← hv]
    exact ⟨.inl, fun hk => hk.resolve_right
      fun ⟨hid, horder⟩ => h ⟨⟨v, hv, hnot⟩, hid, k, horder⟩⟩
  · have hid : ∀ j, ¬Holds p "id" j := by
      rintro j ⟨v, hv, hj, -⟩
      rw [hnull v hv] at hj
      cases hj
    rw [hfield]
    exact ⟨fun hk => .inr ⟨hid, hk⟩, fun hk => (hk.resolve_left (hid k)).2⟩

/-- **The id of an order.** The id of an order is the nonzero integer under `id`, and where
there is none the one under `order_id`, in all messages but those that hide it: they have a
value other than `null` under `id` from which no id can be read, and no id is read from them
although `order_id` has one. -/
theorem id_is_found_iff (raw : Json) :
    let p := raw.payload ["msg", "result", "message"]
    ((∀ k, idIn? raw = some k ↔
      Holds p "id" k ∨ (∀ j, ¬Holds p "id" j) ∧ Holds p "order_id" k) ↔
      ¬HidesId p) ∧ (HidesId p → idIn? raw = none) := by
  intro p
  refine ⟨⟨fun h hhides => ?_, fun hhides k => ?_⟩, idIn?_of_hidesId⟩
  · obtain ⟨k, hk⟩ := hhides.2.2
    cases (idIn?_of_hidesId hhides).symm.trans ((h k).mpr (.inr ⟨hhides.2.1, hk⟩))
  · exact idIn?_eq_some_iff.trans (idField?_iff_of_not_hidesId hhides)

example : idIn? (object [("id", null), ("order_id", string " 42")]) = some 42 := by
    decide +kernel

/-- A zero under `id` hides the id under `order_id`. -/
theorem zero_hides_id :
    let raw := object [("id", integer 0), ("order_id", integer 42)]
    HidesId (raw.payload ["msg", "result", "message"]) ∧ idIn? raw = none ∧
      ¬∀ raw, (idIn? raw).isSome = true ↔ ∃ key ∈ ["id", "order_id"], ∃ k,
        Holds (raw.payload ["msg", "result", "message"]) key k := by
  intro raw
  have horder : Holds (raw.payload ["msg", "result", "message"]) "order_id" 42 :=
    ⟨integer 42, by decide, by decide, by decide⟩
  have hnone : idIn? raw = none := by decide
  refine ⟨⟨⟨integer 0, by decide, by decide⟩, ?_, 42, horder⟩, hnone, fun h => ?_⟩
  · rintro k ⟨v, hv, hk, hne⟩
    have hzero : raw.get? "id" = some (integer 0) := by decide
    obtain rfl := Option.some.inj (hzero.symm.trans hv)
    exact hne (Option.some.inj hk).symm
  · have := (h raw).mpr ⟨"order_id", by decide, 42, horder⟩
    rw [hnone] at this
    cases this

/-! ### Messages that name the order whose id they carry -/

/-- The content of the message is not looked for under `message`: there is nothing, or there is
content under `msg` or `result`. -/
def IsPlain (raw : Json) : Prop :=
  (∀ v, raw.get? "message" = some v → v.isNull = true) ∨
    ∃ key ∈ ["msg", "result"], ∃ v, raw.get? key = some v ∧ v.isNull = false

/-- An acknowledgement and an answer have the same content, unless that is looked for under
`message`. -/
theorem payload_of_isPlain (h : IsPlain raw) :
    raw.payload ["msg", "result", "message"] = raw.payload ["msg", "result"] := by
  rw [show ["msg", "result", "message"] = ["msg", "result"] ++ ["message"] from rfl,
    payload_append, payload]
  rcases h with hnone | ⟨key, hkey, v, hv, hnot⟩
  · have hmore : (["message"].filterMap raw.get?).find? (!·.isNull) = none := by
      rw [List.find?_eq_none]
      intro v hv
      obtain ⟨key, hkey, hget⟩ := List.mem_filterMap.mp hv
      obtain rfl := List.mem_singleton.mp hkey
      simp [hnone v hget]
    rw [hmore, Option.or_none]
  · have hsome : ((["msg", "result"].filterMap raw.get?).find? (!·.isNull)).isSome = true :=
      List.find?_isSome.mpr ⟨v, List.mem_filterMap.mpr ⟨key, hkey, hv⟩, by simp [hnot]⟩
    obtain ⟨w, hw⟩ := Option.isSome_iff_exists.mp hsome
    rw [hw, Option.some_or]

/-- A value is numbered so when it is equal to the number as a double. -/
theorem isNumbered_some_iff {v : Json} :
    isNumbered k (some v) = true ↔ ∃ x, v.asDouble? = some x ∧ x.equals (.ofInt k) = true := by
  rw [isNumbered, Option.bind_some]
  cases v.asDouble? <;> simp

/-- A message names an order under one of two keys. -/
theorem isNamedIn_iff :
    isNamedIn raw k = true ↔ isNumbered k ((raw.payload ["msg", "result"]).get? "id") = true ∨
      isNumbered k ((raw.payload ["msg", "result"]).get? "order_id") = true := by
  rw [isNamedIn, Bool.or_eq_true]

/-- **Acknowledgements and answers.** A message with its content at one of the places where an
answer has it names the order whose id is read from it exactly if the value that the id is read
from has no fraction and is in range, or if `order_id` is the id all the same. -/
theorem names_own_id_iff (hplain : IsPlain raw) (hk : idIn? raw = some k) :
    let p := raw.payload ["msg", "result", "message"]
    ∃ v, idField? p = some v ∧ (v.Representable →
      (isNamedIn raw k = true ↔ v.IsWhole ∨ isNumbered k (p.get? "order_id") = true)) := by
  intro p
  obtain ⟨v, hv, hread, -⟩ := idIn?_eq_some_iff.mp hk
  refine ⟨v, hv, fun hrep => ?_⟩
  have hwhole : isNumbered k (some v) = true ↔ v.IsWhole :=
    isNumbered_some_iff.trans (equals_asInt?_iff hrep hread)
  rw [isNamedIn_iff, ← payload_of_isPlain hplain]
  rcases idField?_cases p with ⟨w, hw, -, hfield⟩ | ⟨hnull, hfield⟩
  · obtain rfl := Option.some.inj (hfield.symm.trans hv)
    rw [hw, hwhole]
  · have hid : ¬isNumbered k (p.get? "id") = true := by
      cases hget : p.get? "id" with
      | none => exact Bool.false_ne_true
      | some w =>
        rw [hnull w hget]
        exact Bool.false_ne_true
    rw [← hfield, hv, hwhole, or_self]
    exact or_iff_right hid

/-- An id that was sent as a text is found again. -/
theorem text_id_is_named :
    let raw := object [("msg", object [("id", string " 42")])]
    IsPlain raw ∧ idIn? raw = some 42 ∧ isNamedIn raw 42 = true := by
  intro raw
  have hplain : IsPlain raw := .inl (by decide)
  have hread : idIn? raw = some 42 := by decide +kernel
  obtain ⟨v, hv, hiff⟩ := names_own_id_iff hplain hread
  have hfield : idField? (raw.payload ["msg", "result", "message"]) = some (string " 42") := by
    decide
  obtain rfl := Option.some.inj (hfield.symm.trans hv)
  have hwritten : (string " 42").writtenInt? = some 42 := by decide
  exact ⟨hplain, hread, (hiff trivial).mpr (.inl (isWhole_of_writtenInt? hwritten (by decide)))⟩

/-- The fraction of an id is cut off when it is read, but not when it is compared; and an id
under `message` is read, but not looked for. -/
theorem fraction_is_not_named :
    let raw := object [("id", double (.finite false 6192449487634432 (-50)))]
    let hidden := object [("message", object [("id", integer 5)])]
    (idIn? raw = some 5 ∧ isNamedIn raw 5 = false) ∧
      (¬IsPlain hidden ∧ idIn? hidden = some 5 ∧ isNamedIn hidden 5 = false) ∧
      ¬∀ raw k, idIn? raw = some k → isNamedIn raw k = true := by
  intro raw hidden
  have hread : idIn? raw = some 5 := by decide +kernel
  have hnamed : isNamedIn raw 5 = false := by decide +kernel
  have hplain : ¬IsPlain hidden := by
    rintro (hnone | ⟨key, hkey, v, hv, -⟩)
    · cases hnone (object [("id", integer 5)]) rfl
    · obtain rfl | rfl := List.mem_pair.mp hkey <;> cases hv
  exact ⟨⟨hread, hnamed⟩, ⟨hplain, by decide +kernel, by decide +kernel⟩,
    fun h => Bool.false_ne_true (hnamed.symm.trans (h raw 5 hread))⟩

end Order

end VenueLink
