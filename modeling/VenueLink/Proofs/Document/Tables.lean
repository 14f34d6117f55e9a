import VenueLink.Proofs.Document.Restored

/-!
# Records read over defaults

A record all of whose fields have defaults is read from an object that gives some of them: a
field that the object gives is read, every other one keeps its default, and what stands under
other keys is passed over. Fields are described one by one (`Fields.builds_fieldOr`) and put
together as the record is (`Fields.Builds.seq`), so that a record of records needs nothing more.

## Main results

* `Document.passable_ofJson`: a JSON value can be gone through.
* `Fields.collect_of_passable`: what is found in an object, whatever else it holds.
* `Fields.Builds.read`: a record is read as its fields are built.
-/

namespace VenueLink

namespace Document

mutual

/-- Whoever goes through the document meets no fault: every object that lies in objects only has
proper keys and an end, and the values in it can be skipped. -/
def Passable : Document → Prop
  | .object fields broken => broken = none ∧ PassableFields fields
  | d => d.skipFault = none

/-- The keys of all fields are proper, and their values can be gone through. -/
def PassableFields : List (Key × Document) → Prop
  | [] => True
  | (.named _, d) :: rest => Passable d ∧ PassableFields rest
  | (.flawed _ _, _) :: _ => False

end

/-- There is nothing wrong with a document that can be passed over. -/
theorem Passable.skipFault_eq_none {d : Document} (h : d.Passable) : d.skipFault = none := by
  cases d with
  | object fields broken => exact h.1
  | _ => exact h

mutual

/-- A JSON value can be gone through. -/
theorem passable_ofJson : (j : Json) → (ofJson j).Passable
  | .null => rfl
  | .bool _ => rfl
  | .integer _ => rfl
  | .double _ => rfl
  | .string _ => rfl
  | .array _ => rfl
  | .object fields => ⟨rfl, passableFields_ofFields fields⟩

/-- The fields of JSON can be passed over. -/
theorem passableFields_ofFields :
    (fields : List (String × Json)) → PassableFields (ofFields fields)
  | [] => trivial
  | (_, x) :: rest => ⟨passable_ofJson x, passableFields_ofFields rest⟩

end

/-! ### Values under keys -/

/-- The values of the fields with a key, in their order. -/
def under (key : String) (fields : List (Key × Document)) : List Document :=
  (fields.filter fun f => f.1 = .named key).map Prod.snd

/-- What stands first under a key is found first. -/
theorem under_cons_self (key : String) (d : Document) (rest : List (Key × Document)) :
    under key ((.named key, d) :: rest) = d :: under key rest := by
  rw [under, List.filter_cons_of_pos (by simp), List.map_cons, under]

/-- What stands under another key is not found. -/
theorem under_cons_of_ne {key k : String} (h : k ≠ key) (d : Document)
    (rest : List (Key × Document)) : under key ((.named k, d) :: rest) = under key rest := by
  rw [under, List.filter_cons_of_neg (by simpa using h), under]

/-- What is found among such fields can be passed over. -/
theorem passable_of_mem_under {key : String} {fields : List (Key × Document)}
    (h : PassableFields fields) {v : Document} (hv : v ∈ under key fields) : v.Passable := by
  induction fields with
  | nil => cases hv
  | cons f rest ih =>
    obtain ⟨k | _, d⟩ := f
    case flawed => exact h.elim
    case named =>
    by_cases hk : k = key
    · rw [hk, under_cons_self] at hv
      rcases List.mem_cons.mp hv with rfl | hv
      · exact h.1
      · exact ih h.2 hv
    · rw [under_cons_of_ne hk] at hv
      exact ih h.2 hv

/-- The values that the document holds under a key. -/
def valuesAt (key : String) : Document → List Document
  | .object fields _ => under key fields
  | _ => []

/-- The document is an object with an end. -/
def IsTable (d : Document) : Prop :=
  ∃ fields, d = .object fields none

/-- The document gives a setting: it holds one value under the key, of the form that `typed`
describes, or none if the setting is left out. -/
def Gives (d : Document) (key : String) (typed : α → Document → Prop) : Option α → Prop
  | none => d.valuesAt key = []
  | some a => ∃ v, d.valuesAt key = [v] ∧ typed a v

/-- A setting is given in another form if its value is. -/
theorem Gives.map {d : Document} {key : String} {typed : α → Document → Prop} {a : Option α}
    (h : d.Gives key typed a) (hd : d.Passable) {typed' : β → Document → Prop} {f : α → β}
    (hf : ∀ x v, v.Passable → typed x v → typed' (f x) v) : d.Gives key typed' (a.map f) := by
  cases a with
  | none => exact h
  | some x =>
    obtain ⟨v, hv, hx⟩ := h
    refine ⟨v, hv, hf x v ?_ hx⟩
    cases d with
    | object fields broken =>
      have hmem : v ∈ under key fields := List.mem_of_mem_head? (congrArg List.head? hv)
      exact passable_of_mem_under hd.2 hmem
    | _ => cases hv

end Document

/-- The slot accepts the values under its key: there is none, or one that passes the check. -/
def Slot.Accepts (slot : Slot) (values : List Document) : Prop :=
  values = [] ∨ ∃ v, values = [v] ∧ slot.check v = none

namespace Fields

open Document

/-! ### What is found in an object -/

/-- The known fields of an object are found, whatever else it holds. -/
theorem collect_of_passable {slots : List Slot} {fields : List (Key × Document)}
    (hpass : PassableFields fields)
    (haccepts : ∀ slot ∈ slots, slot.Accepts (under slot.key fields))
    {found : List (String × Document)}
    (hnew : ∀ slot ∈ slots, under slot.key fields ≠ [] → found.lookup slot.key = none) :
    ∃ found', collect slots found fields = .ok found' ∧ ∀ slot ∈ slots,
      found'.lookup slot.key = (found.lookup slot.key).or (under slot.key fields).head? := by
  induction fields generalizing found with
  | nil => exact ⟨found, rfl, fun slot _ => by simp [under]⟩
  | cons f rest ih =>
    obtain ⟨k | _, d⟩ := f
    case flawed => exact hpass.elim
    case named =>
    rw [collect]
    split
    next slot hslot =>
      obtain ⟨hkey, hmem⟩ : slot.key = k ∧ slot ∈ slots :=
        ⟨by simpa using List.find?_some hslot, List.mem_of_find?_eq_some hslot⟩
      subst hkey
      have hunder := under_cons_self slot.key d rest
      obtain ⟨hrest, hcheck⟩ : under slot.key rest = [] ∧ slot.check d = none := by
        rcases haccepts slot hmem with hnil | ⟨v, hv, hcheck⟩
        · cases hunder.symm.trans hnil
        · obtain ⟨rfl, hrest⟩ := List.cons.inj (hunder.symm.trans hv)
          exact ⟨hrest, hcheck⟩
      have hnone : found.lookup slot.key = none :=
        hnew slot hmem (by rw [hunder]; exact List.cons_ne_nil _ _)
      rw [hnone, if_neg (by simp), hcheck]
      -- the other slots look past the field that has been found
      have hothers : ∀ s : Slot, s.key ≠ slot.key →
          under s.key ((.named slot.key, d) :: rest) = under s.key rest ∧
          List.lookup s.key ((slot.key, d) :: found) = found.lookup s.key := fun s hs =>
        ⟨under_cons_of_ne hs.symm d rest, by rw [List.lookup_cons, beq_eq_false_iff_ne.mpr hs]⟩
      have haccepts' : ∀ s ∈ slots, s.Accepts (under s.key rest) := fun s hs => by
        by_cases heq : s.key = slot.key
        · exact .inl (by rw [heq, hrest])
        · exact (hothers s heq).1 ▸ haccepts s hs
      have hnew' : ∀ s ∈ slots, under s.key rest ≠ [] →
          List.lookup s.key ((slot.key, d) :: found) = none :=
        fun s hs hne => by
          have heq : s.key ≠ slot.key := fun heq => hne (by rw [heq, hrest])
          exact (hothers s heq).2.trans (hnew s hs (by rwa [(hothers s heq).1]))
      obtain ⟨found', hcollect, hlookup⟩ := ih hpass.2 haccepts' hnew'
      refine ⟨found', hcollect, fun s hs => (hlookup s hs).trans ?_⟩
      by_cases heq : s.key = slot.key
      · rw [heq, hnone, hunder, List.lookup_cons_self]
        rfl
      · rw [(hothers s heq).1, (hothers s heq).2]
    next hunknown =>
      have hothers :
          ∀ s ∈ slots, under s.key ((.named k, d) :: rest) = under s.key rest := fun s hs =>
        under_cons_of_ne (fun heq => by simpa [heq] using List.find?_eq_none.mp hunknown s hs) d
          rest
      rw [hpass.1.skipFault_eq_none]
      obtain ⟨found', hcollect, hlookup⟩ :=
        ih hpass.2 (fun s hs => hothers s hs ▸ haccepts s hs)
        (fun s hs => hothers s hs ▸ hnew s hs)
      exact ⟨found', hcollect, fun s hs => (hlookup s hs).trans (by rw [hothers s hs])⟩

/-! ### Records -/

/-- The fields find in the document what the value is built from. -/
structure Builds (r : Fields α) (d : Document) (a : α) : Prop where
  accepts : ∀ slot ∈ r.slots, slot.Accepts (d.valuesAt slot.key)
  build : ∀ values : String → Option Document,
    (∀ slot ∈ r.slots, values slot.key = (d.valuesAt slot.key).head?) → r.build values = .ok a

variable {d : Document}

/-- A field with a default is the one that is given, or the default. -/
theorem builds_fieldOr {key : String} {r : Reading α} {typed : α → Document → Prop}
    (htyped : ∀ a v, typed a v → r v = .ok a) {a : Option α} (h : d.Gives key typed a)
    (default : α) : (fieldOr key r default).Builds d (a.getD default) := by
  have hslots : (fieldOr key r default).slots = [⟨key, fun d => faultOf (r d), true⟩] := rfl
  cases a with
  | none =>
    have hv : d.valuesAt key = [] := h
    refine ⟨fun slot hslot => ?_, fun values hvalues => ?_⟩
    · obtain rfl := List.mem_singleton.mp (hslots ▸ hslot)
      exact .inl hv
    · have hvalue : values key = none :=
        (hvalues _ (hslots ▸ List.mem_cons_self)).trans (congrArg List.head? hv)
      exact build_fieldOr_none hvalue
  | some a =>
    obtain ⟨v, hv, ha⟩ := h
    have hread : r v = .ok a := htyped a v ha
    refine ⟨fun slot hslot => ?_, fun values hvalues => ?_⟩
    · obtain rfl := List.mem_singleton.mp (hslots ▸ hslot)
      exact .inr ⟨v, hv, congrArg faultOf hread⟩
    · have hvalue : values key = some v :=
        (hvalues _ (hslots ▸ List.mem_cons_self)).trans (congrArg List.head? hv)
      exact (build_fieldOr hvalue).trans hread

/-- A function is applied to what is built. -/
theorem Builds.map {x : Fields α} {a : α} (hx : x.Builds d a) (f : α → β) :
    (f <$> x).Builds d (f a) := by
  refine ⟨hx.accepts, fun values hvalues => ?_⟩
  rw [build_map, hx.build values hvalues]
  rfl

/-- What is built of the first fields is applied to what is built of the others. -/
theorem Builds.seq {f : Fields (α → β)} {x : Fields α} {g : α → β} {a : α} (hf : f.Builds d g)
    (hx : x.Builds d a) : (f <*> x).Builds d (g a) := by
  have hslots := slots_seq f x
  refine ⟨fun slot hslot => ?_, fun values hvalues => ?_⟩
  · exact (List.mem_append.mp (hslots ▸ hslot)).elim (hf.accepts slot) (hx.accepts slot)
  · have hleft :=
      hf.build values fun slot hslot => hvalues slot (hslots ▸ List.mem_append_left _ hslot)
    have hright :=
      hx.build values fun slot hslot => hvalues slot (hslots ▸ List.mem_append_right _ hslot)
    rw [build_seq, hleft, hright]
    rfl

/-- A record is read from a table as its fields are built from what they find in it. -/
theorem Builds.read {r : Fields α} {a : α} (h : r.Builds d a) (htable : d.IsTable)
    (hpass : d.Passable) : r.read d = .ok a := by
  obtain ⟨fields, rfl⟩ := htable
  have hnew : ∀ slot ∈ r.slots, under slot.key fields ≠ [] →
      List.lookup slot.key ([] : List (String × Document)) = none := fun _ _ _ => rfl
  obtain ⟨found, hcollect, hlookup⟩ := collect_of_passable hpass.2 h.accepts hnew
  have hbuild := h.build (fun key => found.lookup key) hlookup
  rw [Fields.read, hcollect]
  exact hbuild

end Fields

end VenueLink
