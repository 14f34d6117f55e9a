import VenueLink.Proofs.Document.Tables
import VenueLink.Toml.Reader

/-!
# What is read from TOML can be gone through

Every value that is scanned can be gone through (`passable_value?`), and a table that is put
together from such values stays of that kind with every line (`Builder.passable_line?`),
wherever the line adds to it.

## Main results

* `passable_insertAt?`, `passable_modifyAt?`: a table after one more key, and after one more
  header.
* `Builder.passable_lines`: a document after all its lines.
* `passable_of_read?`: what is read can be gone through.
-/

namespace VenueLink.Toml

open Document

mutual

/-- The values in the node can be gone through. -/
def Node.Passable : Node → Prop
  | .value d => d.Passable
  | .table _ fields => PassableEntries fields
  | .tables reversed => PassableTables reversed

/-- The nodes of a table can be gone through. -/
def PassableEntries : List (String × Node) → Prop
  | [] => True
  | (_, n) :: rest => n.Passable ∧ PassableEntries rest

/-- The tables of an array can be gone through. -/
def PassableTables : List (List (String × Node)) → Prop
  | [] => True
  | fields :: rest => PassableEntries fields ∧ PassableTables rest

end

mutual

/-- A node that can be passed over becomes such a document. -/
theorem Node.passable_toDocument : (n : Node) → n.Passable → n.toDocument.Passable
  | .value _, h => h
  | .table _ fields, h => ⟨rfl, passableFields_fieldDocuments fields h⟩
  | .tables _, _ => rfl

/-- So do the entries of a table. -/
theorem passableFields_fieldDocuments : (fields : Entries) → PassableEntries fields →
    PassableFields (fieldDocuments fields)
  | [], _ => trivial
  | (_, n) :: rest, h => ⟨n.passable_toDocument h.1, passableFields_fieldDocuments rest h.2⟩

end

/-! ### Tables -/

section Tables

variable {key : String} {node : Node} {fields fields' : Entries}

/-- An empty table can be passed over. -/
theorem passableEntries_nil : PassableEntries [] :=
  trivial

/-- A table can be passed over when each of its entries can. -/
theorem passableEntries_iff : PassableEntries fields ↔ ∀ f ∈ fields, f.2.Passable := by
  induction fields with
  | nil => simp [PassableEntries]
  | cons f rest ih => simp [PassableEntries, ih]

/-- What is found in it can. -/
theorem passable_of_lookup (h : PassableEntries fields)
    (hnode : fields.lookup key = some node) : node.Passable := by
  obtain ⟨before, after, rfl, -⟩ := List.lookup_eq_some_iff.mp hnode
  exact passableEntries_iff.mp h (key, node) (List.mem_append_right _ List.mem_cons_self)

/-- An entry at the end keeps it so. -/
theorem passable_append (h : PassableEntries fields) (hnode : node.Passable) :
    PassableEntries (fields ++ [(key, node)]) := by
  rw [passableEntries_iff] at h ⊢
  intro f hf
  rcases List.mem_append.mp hf with hf | hf
  · exact h f hf
  · obtain rfl := List.mem_singleton.mp hf
    exact hnode

/-- So does one in the place of another. -/
theorem passable_replace (h : PassableEntries fields) (hnode : node.Passable) :
    PassableEntries (replace key node fields) := by
  rw [passableEntries_iff] at h ⊢
  intro f hf
  obtain ⟨⟨k, n⟩, hmem, rfl⟩ := List.mem_map.mp hf
  dsimp only
  split
  · exact hnode
  · exact h (k, n) hmem

/-- So does one that is put in. -/
theorem passable_put (h : PassableEntries fields) (hnode : node.Passable) :
    PassableEntries (put key node fields) := by
  rw [put]
  split
  · exact passable_replace h hnode
  · exact passable_append h hnode

/-- A table with one more key can be gone through. -/
theorem passable_insertAt? (hnode : node.Passable) {path : List String}
    (h : PassableEntries fields) (hinsert : insertAt? key node path fields = some fields') :
    PassableEntries fields' := by
  induction path generalizing fields fields' with
  | nil =>
    rw [insertAt?] at hinsert
    split at hinsert
    · cases hinsert
    · cases hinsert
      exact passable_append h hnode
  | cons p path ih =>
    rw [insertAt?] at hinsert
    split at hinsert
    next =>
      obtain ⟨sub, hsub, rfl⟩ := Option.map_eq_some_iff.mp hinsert
      exact passable_append h (ih passableEntries_nil hsub)
    next hlookup =>
      have hp := passable_of_lookup h hlookup
      split at hinsert
      · cases hinsert
      · obtain ⟨sub, hsub, rfl⟩ := Option.map_eq_some_iff.mp hinsert
        exact passable_replace h (ih hp hsub)
    next hlookup =>
      have hp := passable_of_lookup h hlookup
      split at hinsert
      · cases hinsert
      · obtain ⟨last, hlast, rfl⟩ := Option.map_eq_some_iff.mp hinsert
        exact passable_replace h ⟨ih hp.1 hlast, hp.2⟩
    next => cases hinsert

/-- A change at the path of a header keeps a table one that can be gone through. -/
theorem passable_modifyAt? {f : Entries → Option Entries}
    (hf : ∀ {before after}, PassableEntries before → f before = some after →
      PassableEntries after)
    {path : List String} (h : PassableEntries fields)
    (hmodify : modifyAt? f path fields = some fields') : PassableEntries fields' := by
  induction path generalizing fields fields' with
  | nil => exact hf h hmodify
  | cons p path ih =>
    rw [modifyAt?] at hmodify
    split at hmodify
    next =>
      obtain ⟨sub, hsub, rfl⟩ := Option.map_eq_some_iff.mp hmodify
      exact passable_append h (ih passableEntries_nil hsub)
    next hlookup =>
      have hp := passable_of_lookup h hlookup
      obtain ⟨sub, hsub, rfl⟩ := Option.map_eq_some_iff.mp hmodify
      exact passable_replace h (ih hp hsub)
    next hlookup =>
      have hp := passable_of_lookup h hlookup
      obtain ⟨last, hlast, rfl⟩ := Option.map_eq_some_iff.mp hmodify
      exact passable_replace h ⟨ih hp.1 hlast, hp.2⟩
    next => cases hmodify

/-- A table in the table can be passed over. -/
theorem passable_fieldsAt? {path : List String} (h : PassableEntries fields)
    (hfields : fieldsAt? path fields = some fields') : PassableEntries fields' := by
  induction path generalizing fields with
  | nil => exact Option.some.inj hfields ▸ h
  | cons p path ih =>
    rw [fieldsAt?] at hfields
    split at hfields
    next => exact ih passableEntries_nil hfields
    next hlookup => exact ih (passable_of_lookup h hlookup) hfields
    next hlookup => exact ih (passable_of_lookup h hlookup).1 hfields
    next => cases hfields

end Tables

/-! ### Values -/

/-- Whatever is scanned can be gone through. -/
def ValueScan.Passable (value : ValueScan) : Prop :=
  ∀ {cs d rest}, value cs = some (d, rest) → d.Passable

/-- A scalar can be passed over. -/
theorem passable_scalar? : ValueScan.Passable scalar? := by
  intro cs d rest h
  rw [scalar?.eq_def] at h
  split at h
  · cases h
    rfl
  · cases h
    rfl
  · split at h
    · cases h
      rfl
    · split at h
      · cases h
        exact ⟨rfl, rfl, trivial⟩
      · obtain ⟨⟨n, _⟩, -, heq⟩ := Option.map_eq_some_iff.mp h
        cases n <;> cases heq <;> rfl

/-- The value of a pair can be passed over when all values that are scanned can. -/
theorem passable_pair? {value : ValueScan} (hvalue : value.Passable) {cs rest : List Char}
    {parts : List String} {d : Document} (h : pair? value cs = some ((parts, d), rest)) :
    d.Passable := by
  obtain ⟨⟨key, cs⟩, -, h⟩ := Option.bind_eq_some_iff.mp h
  obtain ⟨cs, -, h⟩ := Option.bind_eq_some_iff.mp h
  obtain ⟨⟨d, cs⟩, hd, h⟩ := Option.bind_eq_some_iff.mp h
  cases h
  exact hvalue hd

/-- The fields of an inline table can be gone through. -/
theorem passable_pairsRest {value : ValueScan} (hvalue : value.Passable) {fuel : Nat}
    {fields fields' : Entries} {cs rest : List Char} (hfields : PassableEntries fields)
    (h : pairsRest value fuel fields cs = some (fields', rest)) : PassableEntries fields' := by
  induction fuel generalizing fields cs with
  | zero => cases h
  | succ fuel ih =>
    obtain ⟨⟨⟨parts, d⟩, cs⟩, hpair, h⟩ := Option.bind_eq_some_iff.mp h
    obtain ⟨⟨path, key⟩, -, h⟩ := Option.bind_eq_some_iff.mp h
    obtain ⟨more, hmore, h⟩ := Option.bind_eq_some_iff.mp h
    have hd : (Node.value d).Passable := passable_pair? hvalue hpair
    have hnext : PassableEntries more := passable_insertAt? hd hfields hmore
    split at h
    · cases h
      exact hnext
    · exact ih hnext h
    · cases h

/-- Every value that is scanned can be gone through, however deep it is nested. -/
theorem passable_value? (depth : Nat) : ValueScan.Passable (value? depth) := by
  induction depth with
  | zero =>
    intro cs d rest h
    rw [value?] at h
    · exact passable_scalar? h
    all_goals simp
  | succ depth ih =>
    intro cs d rest h
    rw [value?.eq_def] at h
    split at h
    next =>
      obtain ⟨⟨items, _⟩, -, heq⟩ := Option.map_eq_some_iff.mp h
      cases heq
      rfl
    next hdepth =>
      obtain rfl := Nat.succ.inj hdepth
      rw [inlineTable?] at h
      split at h
      · cases h
        exact ⟨rfl, trivial⟩
      · obtain ⟨⟨fields, _⟩, hfields, heq⟩ := Option.map_eq_some_iff.mp h
        cases heq
        exact ⟨rfl, passableFields_fieldDocuments fields
          (passable_pairsRest ih passableEntries_nil hfields)⟩
    next => exact passable_scalar? h

/-! ### Lines -/

namespace Builder

/-- Both parts of a document can be gone through. -/
structure Passable (b : Builder) : Prop where
  root : PassableEntries b.root
  current : PassableEntries b.current

variable {b b' : Builder} {parts : List String}

/-- A builder that closes a table keeps it so. -/
theorem passable_close? (h : b.Passable) {root : Entries} (hclose : b.close? = some root) :
    PassableEntries root := by
  rw [close?] at hclose
  split at hclose
  · exact Option.some.inj hclose ▸ h.current
  · refine passable_modifyAt? (fun {before after} hbefore hafter => ?_) h.root hclose
    split at hafter
    · split at hafter
      next =>
        cases hafter
        exact passable_append hbefore ⟨h.current, trivial⟩
      next hlookup =>
        cases hafter
        exact passable_replace hbefore ⟨h.current, passable_of_lookup hbefore hlookup⟩
      next => cases hafter
    · cases hafter
      exact passable_put hbefore h.current

/-- So does one that opens a table. -/
theorem passable_header? (h : b.Passable) (hheader : b.header? parts = some b') :
    b'.Passable := by
  obtain ⟨root, hroot, hheader⟩ := Option.bind_eq_some_iff.mp hheader
  obtain ⟨⟨path, key⟩, -, hheader⟩ := Option.bind_eq_some_iff.mp hheader
  obtain ⟨fields, hfields, hheader⟩ := Option.bind_eq_some_iff.mp hheader
  have hclosed := passable_close? h hroot
  split at hheader
  next =>
    cases hheader
    exact ⟨hclosed, trivial⟩
  next hlookup =>
    cases hheader
    exact ⟨hclosed, passable_of_lookup (passable_fieldsAt? hclosed hfields) hlookup⟩
  next => cases hheader

/-- So does one that opens a table in an array. -/
theorem passable_arrayHeader? (h : b.Passable) (hheader : b.arrayHeader? parts = some b') :
    b'.Passable := by
  obtain ⟨root, hroot, hheader⟩ := Option.bind_eq_some_iff.mp hheader
  obtain ⟨⟨path, key⟩, -, hheader⟩ := Option.bind_eq_some_iff.mp hheader
  obtain ⟨fields, -, hheader⟩ := Option.bind_eq_some_iff.mp hheader
  have hclosed := passable_close? h hroot
  split at hheader
  · cases hheader
    exact ⟨hclosed, trivial⟩
  · cases hheader
    exact ⟨hclosed, trivial⟩
  · cases hheader

/-- So does one that adds a value. -/
theorem passable_add? (h : b.Passable) {d : Document} (hd : (Node.value d).Passable)
    (hadd : b.add? parts d = some b') : b'.Passable := by
  obtain ⟨⟨path, key⟩, -, hadd⟩ := Option.bind_eq_some_iff.mp hadd
  obtain ⟨current, hcurrent, hadd⟩ := Option.bind_eq_some_iff.mp hadd
  cases hadd
  exact ⟨h.root, passable_insertAt? hd h.current hcurrent⟩

/-- One line keeps a document one that can be gone through. -/
theorem passable_line? (h : b.Passable) {cs rest : List Char}
    (hline : line? b cs = some (b', rest)) : b'.Passable := by
  rw [line?] at hline
  split at hline
  next =>
    obtain ⟨⟨parts, cs⟩, -, hline⟩ := Option.bind_eq_some_iff.mp hline
    obtain ⟨cs, -, hline⟩ := Option.bind_eq_some_iff.mp hline
    obtain ⟨next, hnext, hline⟩ := Option.bind_eq_some_iff.mp hline
    cases hline
    exact passable_arrayHeader? h hnext
  next =>
    obtain ⟨⟨parts, cs⟩, -, hline⟩ := Option.bind_eq_some_iff.mp hline
    obtain ⟨cs, -, hline⟩ := Option.bind_eq_some_iff.mp hline
    obtain ⟨next, hnext, hline⟩ := Option.bind_eq_some_iff.mp hline
    cases hline
    exact passable_header? h hnext
  next =>
    split at hline
    case h_5 =>
      obtain ⟨⟨⟨parts, d⟩, cs⟩, hpair, hline⟩ := Option.bind_eq_some_iff.mp hline
      obtain ⟨next, hnext, hline⟩ := Option.bind_eq_some_iff.mp hline
      cases hline
      exact passable_add? h (passable_pair? (passable_value? maxDepth) hpair) hnext
    -- a blank line
    all_goals
      cases hline
      exact h

/-- All lines keep a document one that can be gone through. -/
theorem passable_lines {fuel : Nat} (h : b.Passable) {cs : List Char}
    (hlines : lines fuel b cs = some b') : b'.Passable := by
  induction fuel generalizing b cs with
  | zero => cases hlines
  | succ fuel ih =>
    cases cs with
    | nil => exact Option.some.inj hlines ▸ h
    | cons c cs =>
      obtain ⟨⟨next, rest⟩, hnext, hlines⟩ := Option.bind_eq_some_iff.mp hlines
      obtain ⟨rest, -, hlines⟩ := Option.bind_eq_some_iff.mp hlines
      exact ih (passable_line? h hnext) hlines

end Builder

/-- What is read from a text can be gone through. -/
theorem passable_of_read? {text : String} {d : Document} (h : read? text = some d) :
    d.Passable := by
  obtain ⟨b, hb, h⟩ := Option.bind_eq_some_iff.mp h
  obtain ⟨root, hroot, h⟩ := Option.bind_eq_some_iff.mp h
  cases h
  have hpass : b.Passable :=
    Builder.passable_lines ⟨passableEntries_nil, passableEntries_nil⟩ hb
  exact ⟨rfl, passableFields_fieldDocuments root (Builder.passable_close? hpass hroot)⟩

end VenueLink.Toml
