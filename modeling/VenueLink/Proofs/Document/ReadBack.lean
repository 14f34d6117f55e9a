import Mathlib.Data.String.Basic
import VenueLink.Document.Reading

/-!
# Values and records that are read back

A JSON value whose objects list their keys in increasing order (`Json.Proper`) is read from
itself as a document, and every value that is read from a document is of that kind. A record is
read from an object that has exactly fields of the record, in any order, as it is built from
their values.

## Main results

* `Document.toJson_ofJson`: a proper value is read back.
* `Document.proper_of_toJson`: what is read is proper.
* `Fields.read_ofJson`: how a record is read from an object.
* `Reading.items_map`: how a list is read.
-/

namespace VenueLink

/-- A value that is kept is one that came out right. -/
theorem toOption_eq_some_iff {ε : Type} {x : Except ε α} {a : α} :
    x.toOption = some a ↔ x = .ok a := by
  cases x <;> simp [Except.toOption]

namespace Json

/-- The keys of some fields increase. -/
def Ascending (fields : List (String × Json)) : Prop :=
  (fields.map Prod.fst).Pairwise (· < ·)

mutual

/-- Every object in the value lists its keys in increasing order. -/
def Proper : Json → Prop
  | array items => ProperItems items
  | object fields => Ascending fields ∧ ProperFields fields
  | _ => True

/-- All items are proper. -/
def ProperItems : List Json → Prop
  | [] => True
  | x :: xs => Proper x ∧ ProperItems xs

/-- The values of all fields are proper. -/
def ProperFields : List (String × Json) → Prop
  | [] => True
  | (_, x) :: xs => Proper x ∧ ProperFields xs

end

/-- No keys are in order. -/
theorem ascending_nil : Ascending [] :=
  List.Pairwise.nil

/-- A key that comes after all others is put at the end. -/
theorem insertField_of_lt {acc : List (String × Json)} {key : String} (h : ∀ f ∈ acc, f.1 < key)
    (value : Json) : insertField key value acc = acc ++ [(key, value)] := by
  induction acc with
  | nil => rfl
  | cons f rest ih =>
    have hlt := h f List.mem_cons_self
    rw [insertField, if_neg hlt.ne', if_neg hlt.asymm,
      ih fun f' hf' => h f' (List.mem_cons_of_mem f hf')]
    rfl

/-- What is there afterwards is new or was there before. -/
theorem mem_insertField {acc : List (String × Json)} {key : String} {value : Json}
    {f : String × Json} (h : f ∈ insertField key value acc) : f = (key, value) ∨ f ∈ acc := by
  induction acc with
  | nil => exact .inl (List.mem_singleton.mp h)
  | cons g rest ih =>
    rw [insertField] at h
    split at h
    · exact (List.mem_cons.mp h).imp_right (List.mem_cons_of_mem g)
    · split at h
      · exact List.mem_cons.mp h
      · rcases List.mem_cons.mp h with rfl | h
        · exact .inr List.mem_cons_self
        · exact (ih h).imp_right (List.mem_cons_of_mem g)

/-- The keys stay in order. -/
theorem ascending_insertField {acc : List (String × Json)} (h : Ascending acc) (key : String)
    (value : Json) : Ascending (insertField key value acc) := by
  induction acc with
  | nil => exact List.pairwise_singleton _ _
  | cons g rest ih =>
    obtain ⟨hg, hrest⟩ := List.pairwise_cons.mp h
    have hafter : ∀ f ∈ rest, g.1 < f.1 := fun f hf => hg f.1 (List.mem_map_of_mem hf)
    rw [insertField]
    split
    next heq => exact heq ▸ h
    next hne =>
      split
      next hlt =>
        refine List.pairwise_cons.mpr ⟨fun k hk => ?_, h⟩
        rcases List.mem_cons.mp hk with rfl | hk
        · exact hlt
        · exact hlt.trans (hg k hk)
      next hge =>
        refine List.pairwise_cons.mpr ⟨fun k hk => ?_, ih hrest⟩
        obtain ⟨f, hf, rfl⟩ := List.mem_map.mp hk
        rcases mem_insertField hf with rfl | hf
        · exact lt_of_le_of_ne (not_lt.mp hge) (Ne.symm hne)
        · exact hafter f hf

/-- Items are proper when each of them is. -/
theorem properItems_iff {items : List Json} : ProperItems items ↔ ∀ x ∈ items, x.Proper := by
  induction items with
  | nil => simp [ProperItems]
  | cons x rest ih => simp [ProperItems, ih]

/-- Fields are proper when each of their values is. -/
theorem properFields_iff {fields : List (String × Json)} :
    ProperFields fields ↔ ∀ f ∈ fields, f.2.Proper := by
  induction fields with
  | nil => simp [ProperFields]
  | cons f rest ih => simp [ProperFields, ih]

end Json

namespace Document

open Json

mutual

/-- A proper value is read back from itself. -/
theorem toJson_ofJson : (j : Json) → j.Proper → toJson (ofJson j) = .ok j
  | .null, _ => rfl
  | .bool _, _ => rfl
  | .integer _, _ => rfl
  | .double _, _ => rfl
  | .string _, _ => rfl
  | .array items, h => by
    rw [Json.Proper] at h
    rw [ofJson, toJson, toItems_ofItems items h]
    rfl
  | .object fields, h => by
    rw [Json.Proper] at h
    rw [ofJson, toJson, toFields_ofFields [] fields h.1 h.2]
    rfl

/-- Proper items come back as they are. -/
theorem toItems_ofItems :
    (items : List Json) → ProperItems items → toItems (ofItems items) = .ok items
  | [], _ => rfl
  | x :: xs, h => by
    rw [ProperItems] at h
    rw [ofItems, toItems, toJson_ofJson x h.1, toItems_ofItems xs h.2]
    rfl

/-- Proper fields come back as they are, after those that are there already. -/
theorem toFields_ofFields : (acc fields : List (String × Json)) → Ascending (acc ++ fields) →
    ProperFields fields → toFields acc (ofFields fields) = .ok (acc ++ fields)
  | acc, [], _, _ => by
    rw [ofFields, toFields, List.append_nil]
  | acc, (k, x) :: xs, hkeys, h => by
    rw [ProperFields] at h
    have hbefore : ∀ f ∈ acc, f.1 < k := by
      rw [Ascending, List.map_append, List.pairwise_append] at hkeys
      exact fun f hf => hkeys.2.2 f.1 (List.mem_map_of_mem hf) k List.mem_cons_self
    have hstep : toFields acc (ofFields ((k, x) :: xs)) =
        toFields (insertField k x acc) (ofFields xs) := by
      rw [ofFields, toFields, toJson_ofJson x h.1]
      rfl
    rw [hstep, insertField_of_lt hbefore, toFields_ofFields _ xs (by simpa using hkeys) h.2,
      List.append_assoc]
    rfl

end

/-- Two readings in a row come out right when each of them does. -/
theorem exists_of_bind_eq_ok {x : Except Fault α} {f : α → Except Fault β} {b : β}
    (h : x >>= f = .ok b) : ∃ a, x = .ok a ∧ f a = .ok b := by
  cases x with
  | error e => cases h
  | ok a => exact ⟨a, rfl, h⟩

mutual

/-- What is read from a document is proper. -/
theorem proper_of_toJson : (d : Document) → {j : Json} → toJson d = .ok j → j.Proper
  | .null, _, h => by cases h; trivial
  | .bool _, _, h => by cases h; trivial
  | .integer _, _, h => by cases h; trivial
  | .double _, _, h => by cases h; trivial
  | .string _, _, h => by cases h; trivial
  | .array items broken, j, h => by
    rw [toJson] at h
    obtain ⟨xs, hxs, h⟩ := exists_of_bind_eq_ok h
    cases broken <;> cases h
    exact proper_of_toItems items hxs
  | .object fields broken, j, h => by
    rw [toJson] at h
    obtain ⟨xs, hxs, h⟩ := exists_of_bind_eq_ok h
    cases broken <;> cases h
    exact proper_of_toFields fields ascending_nil trivial hxs
  | .flawed _ _ _, _, h => by cases h

/-- Items that are read are proper. -/
theorem proper_of_toItems : (ds : List Document) → {xs : List Json} → toItems ds = .ok xs →
    ProperItems xs
  | [], _, h => by cases h; trivial
  | d :: ds, _, h => by
    rw [toItems] at h
    obtain ⟨y, hy, h⟩ := exists_of_bind_eq_ok h
    obtain ⟨ys, hys, h⟩ := exists_of_bind_eq_ok h
    cases h
    exact ⟨proper_of_toJson d hy, proper_of_toItems ds hys⟩

/-- Fields that are read are proper, and their keys in order. -/
theorem proper_of_toFields : (ds : List (Key × Document)) → {acc xs : List (String × Json)} →
    Ascending acc → ProperFields acc → toFields acc ds = .ok xs → Ascending xs ∧ ProperFields xs
  | [], _, _, hkeys, hacc, h => by cases h; exact ⟨hkeys, hacc⟩
  | (.flawed _ _, _) :: _, _, _, _, _, h => by cases h
  | (.named k, d) :: ds, acc, _, hkeys, hacc, h => by
    rw [toFields] at h
    obtain ⟨y, hy, h⟩ := exists_of_bind_eq_ok h
    refine proper_of_toFields ds (ascending_insertField hkeys k y) ?_ h
    rw [properFields_iff] at hacc ⊢
    intro f hf
    rcases mem_insertField hf with rfl | hf
    · exact proper_of_toJson d hy
    · exact hacc f hf

end

end Document

namespace Fields

open Document

/-! ### Records -/

/-- The slots of two readings of fields are those of the first and then those of the second. -/
theorem slots_seq (f : Fields (α → β)) (x : Fields α) :
    (f <*> x).slots = f.slots ++ x.slots := rfl

/-- They are built one after the other. -/
theorem build_seq (f : Fields (α → β)) (x : Fields α) (values : String → Option Document) :
    (f <*> x).build values = f.build values >>= fun g => x.build values >>=
      fun a => .ok (g a) := rfl

/-- A function is applied to what is built. -/
theorem build_map (f : α → β) (x : Fields α) (values : String → Option Document) :
    (f <$> x).build values = x.build values >>= fun a => .ok (f a) := rfl

/-- A field that is there is read. -/
theorem build_field {key : String} {r : Reading α} {values : String → Option Document}
    {d : Document} (h : values key = some d) : (field key r).build values = r d := by
  rw [field, fieldWith]
  dsimp only
  rw [h]

/-- The fields that are met in an object whose keys are those of known fields, each of them
once. -/
theorem collect_ofFields {slots : List Slot} {fields : List (String × Json)}
    (hchecks : ∀ f ∈ fields, ∃ slot, slots.find? (·.key == f.1) = some slot ∧
      slot.check (ofJson f.2) = none)
    (hnodup : (fields.map Prod.fst).Nodup) {found : List (String × Document)}
    (hfound : ∀ f ∈ fields, found.lookup f.1 = none) :
    ∃ found', collect slots found (ofFields fields) = .ok found' ∧
      ∀ key, found'.lookup key = (found.lookup key).or ((fields.lookup key).map ofJson) := by
  induction fields generalizing found with
  | nil => exact ⟨found, rfl, fun key => by simp⟩
  | cons f rest ih =>
    obtain ⟨k, x⟩ := f
    obtain ⟨hk, hrest⟩ := List.nodup_cons.mp hnodup
    obtain ⟨slot, hslot, hcheck⟩ := hchecks (k, x) List.mem_cons_self
    have hnew : found.lookup k = none := hfound (k, x) List.mem_cons_self
    have hstep : collect slots found (ofFields ((k, x) :: rest)) =
        collect slots ((k, ofJson x) :: found) (ofFields rest) := by
      rw [ofFields, collect, hslot]
      dsimp only
      rw [hnew, if_neg (by simp), hcheck]
    have hothers : ∀ f ∈ rest, List.lookup f.1 ((k, ofJson x) :: found) = none := fun f hf => by
      have hne : f.1 ≠ k := fun heq => hk (List.mem_map.mpr ⟨f, hf, heq⟩)
      rw [List.lookup_cons, beq_eq_false_iff_ne.mpr hne]
      exact hfound f (List.mem_cons_of_mem _ hf)
    obtain ⟨found', hcollect, hlookup⟩ :=
      ih (fun f hf => hchecks f (List.mem_cons_of_mem _ hf)) hrest hothers
    refine ⟨found', hstep.trans hcollect, fun key => (hlookup key).trans ?_⟩
    rw [List.lookup_cons, List.lookup_cons]
    by_cases heq : key = k
    · subst heq
      simp [hnew]
    · simp [beq_eq_false_iff_ne.mpr heq]

/-- A record is read from an object that has fields of it, each of them once, as it is built
from their values. -/
theorem read_ofJson {r : Fields α} {fields : List (String × Json)}
    (hchecks : ∀ f ∈ fields, ∃ slot, r.slots.find? (·.key == f.1) = some slot ∧
      slot.check (ofJson f.2) = none)
    (hnodup : (fields.map Prod.fst).Nodup) :
    r.read (ofJson (.object fields)) = r.build fun key => (fields.lookup key).map ofJson := by
  have hnone : ∀ f ∈ fields, List.lookup f.1 ([] : List (String × Document)) = none :=
    fun _ _ => rfl
  obtain ⟨found, hcollect, hlookup⟩ := collect_ofFields hchecks hnodup hnone
  have hvalues : (fun key => found.lookup key) = fun key => (fields.lookup key).map ofJson :=
    funext fun key => hlookup key
  rw [ofJson, read, hcollect, ← hvalues]
  rfl

/-- All fields that are met have been accepted. -/
theorem check_of_collect {slots : List Slot} {fields : List (String × Json)}
    {found found' : List (String × Document)}
    (h : collect slots found (ofFields fields) = .ok found') {f : String × Json}
    (hf : f ∈ fields) {slot : Slot} (hslot : slots.find? (·.key == f.1) = some slot) :
    slot.check (ofJson f.2) = none := by
  induction fields generalizing found with
  | nil => cases hf
  | cons g rest ih =>
    obtain ⟨k, x⟩ := g
    rw [ofFields, collect] at h
    split at h
    next known hknown =>
      split at h
      next => cases h
      next =>
        split at h
        next => cases h
        next hcheck =>
          rcases List.mem_cons.mp hf with rfl | hf
          · obtain rfl := Option.some.inj (hknown.symm.trans hslot)
            exact hcheck
          · exact ih h hf
    next hunknown =>
      rw [skipFault_ofJson] at h
      rcases List.mem_cons.mp hf with rfl | hf
      · cases hunknown.symm.trans hslot
      · exact ih h hf

/-- A record is read from an object only if each of its fields is accepted. -/
theorem check_of_read {r : Fields α} {j : Json} {a : α} (h : r.read (ofJson j) = .ok a)
    {key : String} {v : Json} (hv : j.get? key = some v) {slot : Slot}
    (hslot : r.slots.find? (·.key == key) = some slot) : slot.check (ofJson v) = none := by
  cases j with
  | object fields =>
    obtain ⟨before, after, rfl, -⟩ := List.lookup_eq_some_iff.mp hv
    rw [ofJson, read] at h
    obtain ⟨found, hcollect, -⟩ := exists_of_bind_eq_ok h
    have hmem : (key, v) ∈ before ++ (key, v) :: after :=
      List.mem_append_right _ List.mem_cons_self
    exact check_of_collect hcollect hmem hslot
  | _ => cases hv

end Fields

namespace Reading

open Document

/-! ### Lists -/

/-- All items of a list that is read have been read. -/
theorem exists_of_items {r : Reading α} {toJson : β → Json} {bs : List β} {as : List α}
    (h : Reading.items r (ofItems (bs.map toJson)) = .ok as) {b : β} (hb : b ∈ bs) :
    ∃ a, r (ofJson (toJson b)) = .ok a := by
  induction bs generalizing as with
  | nil => cases hb
  | cons c rest ih =>
    rw [List.map_cons, ofItems, Reading.items] at h
    obtain ⟨a, ha, h⟩ := exists_of_bind_eq_ok h
    obtain ⟨more, hmore, -⟩ := exists_of_bind_eq_ok h
    rcases List.mem_cons.mp hb with rfl | hb
    · exact ⟨a, ha⟩
    · exact ih hmore hb

/-- A list is read if all of its items are. -/
theorem items_map {r : Reading α} {toJson : α → Json} {as : List α}
    (h : ∀ a ∈ as, r (ofJson (toJson a)) = .ok a) :
    Reading.items r (ofItems (as.map toJson)) = .ok as := by
  induction as with
  | nil => rfl
  | cons a rest ih =>
    rw [List.map_cons, ofItems, Reading.items, h a List.mem_cons_self,
      ih fun c hc => h c (List.mem_cons_of_mem a hc)]
    rfl

end Reading

end VenueLink
