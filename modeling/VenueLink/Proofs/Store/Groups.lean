import Mathlib.Data.List.Sort
import VenueLink.Proofs.Store.Listing

/-!
# Daily results by account

Results are gathered one by one into groups that stand in the order of their accounts, so that
there is one group for each account, with the rows of that account in the order in which they
came (`mem_gather_iff`). Each group is then sorted by day, which changes nothing where the
results come from a listing: the groups of a listing, put together again, are the listing
(`ungroup_groups`).

## Main results

* `pairwise_groupByAccount`, `mem_groupByAccount_iff`: which groups there are, for any results.
* `mem_groups_iff`, `ungroup_groups`: the groups of a listing.
-/

namespace VenueLink

namespace DailyResult

/-- The rows of an account, in order. -/
def rowsOf (account : String) (results : List DailyResult) : List ResultRow :=
  (results.filter (·.account = account)).map row

/-- The results in groups that are not sorted yet. -/
def gather (results : List DailyResult) : List (String × List ResultRow) :=
  results.foldl (fun groups r => addRow r.account r.row groups) []

/-- Grouping gathers the rows of each account and then sorts them. -/
theorem groupByAccount_eq (results : List DailyResult) :
    groupByAccount results = (gather results).map fun (account, rows) =>
      (account, rows.mergeSort notOlder) := rfl

/-- The last result is added to what the others have come to. -/
theorem gather_concat (results : List DailyResult) (r : DailyResult) :
    gather (results ++ [r]) = addRow r.account r.row (gather results) := by
  simp [gather]

/-! ### One row more -/

/-- The groups stand in increasing order of their accounts. -/
def Ascending (groups : List (String × List ResultRow)) : Prop :=
  groups.Pairwise fun g g' => g.1 < g'.1

/-- The rows of an account in some groups; where it has no group there are none. -/
def rowsIn (account : String) (groups : List (String × List ResultRow)) : List ResultRow :=
  (groups.lookup account).getD []

/-- An account that comes before all groups has none. -/
theorem lookup_eq_none_of_lt {account : String} {groups : List (String × List ResultRow)}
    (h : ∀ g ∈ groups, account < g.1) : groups.lookup account = none :=
  List.lookup_eq_none_iff.mpr fun g hg => by simpa using (h g hg).ne

/-- Adding a row makes no group but that of its account. -/
theorem fst_of_mem_addRow {account : String} {row : ResultRow}
    {groups : List (String × List ResultRow)} {g : String × List ResultRow}
    (hg : g ∈ addRow account row groups) : g.1 = account ∨ ∃ g' ∈ groups, g'.1 = g.1 := by
  induction groups with
  | nil =>
    rw [addRow, List.mem_singleton] at hg
    exact .inl (hg ▸ rfl)
  | cons x rest ih =>
    obtain ⟨a, rows⟩ := x
    rw [addRow] at hg
    split at hg
    · rcases List.mem_cons.mp hg with rfl | hg
      · exact .inr ⟨(a, rows), List.mem_cons_self, rfl⟩
      · exact .inr ⟨g, List.mem_cons_of_mem _ hg, rfl⟩
    · split at hg
      · rcases List.mem_cons.mp hg with rfl | hg
        · exact .inl rfl
        · exact .inr ⟨g, hg, rfl⟩
      · rcases List.mem_cons.mp hg with rfl | hg
        · exact .inr ⟨(a, rows), List.mem_cons_self, rfl⟩
        · exact (ih hg).imp_right fun ⟨g', hg', heq⟩ => ⟨g', List.mem_cons_of_mem _ hg', heq⟩

/-- The accounts stay in order. -/
theorem ascending_addRow {groups : List (String × List ResultRow)} (h : Ascending groups)
    (account : String) (row : ResultRow) : Ascending (addRow account row groups) := by
  induction groups with
  | nil => exact List.pairwise_singleton _ _
  | cons x rest ih =>
    obtain ⟨a, rows⟩ := x
    obtain ⟨hx, hrest⟩ := List.pairwise_cons.mp h
    rw [addRow]
    split
    · exact List.pairwise_cons.mpr ⟨hx, hrest⟩
    next hne =>
      split
      next hlt =>
        refine List.pairwise_cons.mpr ⟨fun g hg => ?_, h⟩
        rcases List.mem_cons.mp hg with rfl | hg
        · exact hlt
        · exact lt_trans hlt (hx g hg)
      next hnlt =>
        have hlt : a < account := lt_of_le_of_ne (not_lt.mp hnlt) (Ne.symm hne)
        refine List.pairwise_cons.mpr ⟨fun g hg => ?_, ih hrest⟩
        rcases fst_of_mem_addRow hg with heq | ⟨g', hg', heq⟩
        · exact heq ▸ hlt
        · exact heq ▸ hx g' hg'

/-- A row is added at the end of its own group. -/
theorem rowsIn_addRow {groups : List (String × List ResultRow)} (h : Ascending groups)
    (account : String) (row : ResultRow) (a : String) :
    rowsIn a (addRow account row groups) = rowsIn a groups ++ if account =
      a then [row] else [] := by
  induction groups with
  | nil =>
    by_cases ha : account = a
    · simp [addRow, rowsIn, ha]
    · simp [addRow, rowsIn, ha, List.lookup_cons, beq_eq_false_iff_ne.mpr (Ne.symm ha)]
  | cons x rest ih =>
    obtain ⟨b, rows⟩ := x
    obtain ⟨hx, hrest⟩ := List.pairwise_cons.mp h
    rw [addRow]
    split
    next heq =>
      subst heq
      by_cases ha : account = a
      · simp [rowsIn, ha]
      · simp [rowsIn, ha, List.lookup_cons, beq_eq_false_iff_ne.mpr (Ne.symm ha)]
    next hne =>
      split
      next hlt =>
        by_cases ha : account = a
        · -- no group behind is of this account
          have hnone : List.lookup a ((b, rows) :: rest) = none :=
            lookup_eq_none_of_lt fun g hg => by
              rcases List.mem_cons.mp hg with rfl | hg
              · exact ha ▸ hlt
              · exact ha ▸ lt_trans hlt (hx g hg)
          rw [rowsIn, rowsIn, hnone]
          simp [ha]
        · simp [rowsIn, ha, List.lookup_cons, beq_eq_false_iff_ne.mpr (Ne.symm ha)]
      next hnlt =>
        by_cases hb : a = b
        · subst hb
          simp [rowsIn, hne]
        · have hbeq : (a == b) = false := beq_eq_false_iff_ne.mpr hb
          have hcons :
              ∀ groups, rowsIn a ((b, rows) :: groups) = rowsIn a groups := fun groups => by
            rw [rowsIn, rowsIn, List.lookup_cons, hbeq]
          rw [hcons, hcons, ih hrest]

/-! ### All of them -/

/-- The accounts are in order. -/
theorem ascending_gather (results : List DailyResult) : Ascending (gather results) := by
  induction results using List.reverseRecOn with
  | nil => exact List.Pairwise.nil
  | append_singleton results r ih =>
    rw [gather_concat]
    exact ascending_addRow ih _ _

/-- A group has the rows of its account, in the order of the results. -/
theorem rowsIn_gather (account : String) (results : List DailyResult) :
    rowsIn account (gather results) = rowsOf account results := by
  induction results using List.reverseRecOn with
  | nil => rfl
  | append_singleton results r ih =>
    rw [gather_concat, rowsIn_addRow (ascending_gather results), ih, rowsOf, rowsOf,
      List.filter_append, List.map_append]
    by_cases h : r.account = account <;> simp [h]

/-- No group is left empty. -/
theorem ne_nil_of_mem_addRow {account : String} {row : ResultRow}
    {groups : List (String × List ResultRow)} (h : ∀ g ∈ groups, g.2 ≠ [])
    {g : String × List ResultRow} (hg : g ∈ addRow account row groups) : g.2 ≠ [] := by
  induction groups with
  | nil =>
    rw [addRow, List.mem_singleton] at hg
    simp [hg]
  | cons x rest ih =>
    obtain ⟨a, rows⟩ := x
    rw [addRow] at hg
    split at hg
    · rcases List.mem_cons.mp hg with rfl | hg
      · simp
      · exact h g (List.mem_cons_of_mem _ hg)
    · split at hg
      · rcases List.mem_cons.mp hg with rfl | hg
        · simp
        · exact h g hg
      · rcases List.mem_cons.mp hg with rfl | hg
        · exact h _ List.mem_cons_self
        · exact ih (fun g hg => h g (List.mem_cons_of_mem _ hg)) hg

/-- There are no empty groups. -/
theorem ne_nil_of_mem_gather {results : List DailyResult} {g : String × List ResultRow}
    (hg : g ∈ gather results) : g.2 ≠ [] := by
  induction results using List.reverseRecOn generalizing g with
  | nil => cases hg
  | append_singleton results r ih =>
    rw [gather_concat] at hg
    exact ne_nil_of_mem_addRow (fun g hg => ih hg) hg

/-- A group is found under its account. -/
theorem lookup_of_mem {groups : List (String × List ResultRow)} (h : Ascending groups)
    {account : String} {rows : List ResultRow} (hg : (account, rows) ∈ groups) :
    groups.lookup account = some rows := by
  obtain ⟨front, back, rfl⟩ := List.append_of_mem hg
  refine List.lookup_eq_some_iff.mpr ⟨front, back, rfl, fun g hg => ?_⟩
  have hlt := (List.pairwise_append.mp h).2.2 g hg (account, rows) List.mem_cons_self
  simpa using hlt.ne'

/-- There is a group for every account that a result is of, with the rows of that account in the
order in which they came. -/
theorem mem_gather_iff {results : List DailyResult} {account : String} {rows : List ResultRow} :
    (account, rows) ∈ gather results ↔ rows = rowsOf account results ∧ rows ≠ [] := by
  constructor
  · intro hg
    refine ⟨?_, ne_nil_of_mem_gather hg⟩
    rw [← rowsIn_gather, rowsIn, lookup_of_mem (ascending_gather results) hg, Option.getD_some]
  · rintro ⟨rfl, hne⟩
    rw [← rowsIn_gather, rowsIn] at hne ⊢
    cases hlookup : (gather results).lookup account with
    | none =>
      rw [hlookup] at hne
      exact absurd rfl hne
    | some rows =>
      obtain ⟨front, back, heq, -⟩ := List.lookup_eq_some_iff.mp hlookup
      rw [heq]
      simp

/-! ### Sorted groups -/

/-- The groups stand in increasing order of their accounts, so that each account has one. -/
theorem pairwise_groupByAccount (results : List DailyResult) :
    (groupByAccount results).Pairwise fun g g' => g.1 < g'.1 := by
  rw [groupByAccount_eq, List.pairwise_map]
  exact ascending_gather results

/-- There is a group for every account that a result is of, with the rows of that account by
day. -/
theorem mem_groupByAccount_iff {results : List DailyResult} {account : String}
    {rows : List ResultRow} :
    (account, rows) ∈ groupByAccount results ↔
      rows = (rowsOf account results).mergeSort notOlder ∧ rows ≠ [] := by
  rw [groupByAccount_eq, List.mem_map]
  constructor
  · rintro ⟨⟨a, rows'⟩, hg, heq⟩
    obtain ⟨rfl, rfl⟩ := Prod.mk.inj heq
    obtain ⟨rfl, hne⟩ := mem_gather_iff.mp hg
    refine ⟨rfl, fun hnil => hne ?_⟩
    exact (hnil ▸ List.mergeSort_perm (rowsOf a results) notOlder).nil_eq.symm
  · rintro ⟨rfl, hne⟩
    refine ⟨(account, rowsOf account results), mem_gather_iff.mpr ⟨rfl, fun hnil => hne ?_⟩,
      rfl⟩
    rw [hnil, List.mergeSort_nil]

end DailyResult

/-! ### The groups of a listing -/

/-- The result that a row of an account stands for. -/
def ResultRow.ofAccount (account : String) (r : ResultRow) : DailyResult :=
  ⟨r.date, account, r.tally⟩

/-- A result is its row with its account. -/
theorem DailyResult.ofAccount_row (r : DailyResult) : r.row.ofAccount r.account = r := rfl

namespace ResultTable

open DailyResult

/-- Of two results of one account the later one is above. -/
theorem Above.date_lt {a b : DailyResult} (h : Above a b) (heq : a.account = b.account) :
    b.date.before a.date = true :=
  h.elim (fun hlt => absurd heq hlt.ne) And.right

/-- In a listing the rows of an account go strictly from later to earlier days. -/
theorem pairwise_rowsOf {rows : List DailyResult} (h : rows.Pairwise Above) (account : String) :
    (rowsOf account rows).Pairwise fun r r' => r'.date.before r.date = true := by
  have hfilter : (rows.filter (·.account = account)).Pairwise Above := h.filter _
  refine List.pairwise_map.mpr (hfilter.imp_of_mem fun ha hb hab => hab.date_lt ?_)
  have haccount := (List.mem_filter.mp ha).2
  have hbccount := (List.mem_filter.mp hb).2
  rw [decide_eq_true_eq] at haccount hbccount
  rw [haccount, hbccount]

/-- The groups of a listing have their rows in the order of the listing. -/
theorem mem_groups_iff {rows : List DailyResult} (h : rows.Pairwise Above) {account : String}
    {group : List ResultRow} :
    (account, group) ∈ groupByAccount rows ↔ group = rowsOf account rows ∧ group ≠ [] := by
  have hsorted : (rowsOf account rows).mergeSort notOlder = rowsOf account rows := by
    refine List.mergeSort_of_pairwise ((pairwise_rowsOf h account).imp fun {r r'} hlt => ?_)
    rw [notOlder, Bool.not_eq_true', Bool.eq_false_iff]
    intro hlt'
    have hself := Date.before_trans hlt hlt'
    rw [Date.before_irrefl] at hself
    cases hself
  rw [mem_groupByAccount_iff, hsorted]

/-- The results of some groups, one group after the other. -/
def ungroup (groups : List (String × List ResultRow)) : List DailyResult :=
  groups.flatMap fun (account, rows) => rows.map (ResultRow.ofAccount account)

/-- A result is in the groups when its row is in the group of its account. -/
theorem mem_ungroup_iff {groups : List (String × List ResultRow)} {r : DailyResult} :
    r ∈ ungroup groups ↔ ∃ rows, (r.account, rows) ∈ groups ∧ r.row ∈ rows := by
  rw [ungroup, List.mem_flatMap]
  constructor
  · rintro ⟨⟨account, rows⟩, hg, hr⟩
    obtain ⟨row, hrow, rfl⟩ := List.mem_map.mp hr
    exact ⟨rows, hg, hrow⟩
  · rintro ⟨rows, hg, hrow⟩
    exact ⟨(r.account, rows), hg, List.mem_map.mpr ⟨r.row, hrow, rfl⟩⟩

/-- The row of a result is among those of its account when the result is in the list. -/
theorem mem_rowsOf_row {rows : List DailyResult} {r : DailyResult} :
    r.row ∈ rowsOf r.account rows ↔ r ∈ rows := by
  rw [rowsOf, List.mem_map]
  constructor
  · rintro ⟨r', hr', heq⟩
    obtain ⟨hmem, haccount⟩ := List.mem_filter.mp hr'
    rw [decide_eq_true_eq] at haccount
    have hsame : r' = r := by rw [← r'.ofAccount_row, heq, haccount, r.ofAccount_row]
    rwa [← hsame]
  · exact fun hr => ⟨r, List.mem_filter.mpr ⟨hr, by simp⟩, rfl⟩

/-- The groups of a listing, put together again, are the listing: none of its rows is lost and
none is there twice. -/
theorem ungroup_groups {rows : List DailyResult} (h : rows.Pairwise Above) :
    ungroup (groupByAccount rows) = rows := by
  have hwithin : ∀ g ∈ groupByAccount rows,
      (g.2.map (ResultRow.ofAccount g.1)).Pairwise Above := by
    rintro ⟨account, group⟩ hg
    obtain ⟨rfl, -⟩ := (mem_groups_iff h).mp hg
    exact List.pairwise_map.mpr ((pairwise_rowsOf h account).imp fun hlt => .inr ⟨rfl, hlt⟩)
  have hbetween : (groupByAccount rows).Pairwise fun g g' =>
      ∀ r ∈ g.2.map (ResultRow.ofAccount g.1),
        ∀ r' ∈ g'.2.map (ResultRow.ofAccount g'.1), Above r r' := by
    refine (pairwise_groupByAccount rows).imp fun {g g'} hlt r hr r' hr' => ?_
    obtain ⟨_, -, rfl⟩ := List.mem_map.mp hr
    obtain ⟨_, -, rfl⟩ := List.mem_map.mp hr'
    exact .inl hlt
  refine List.Pairwise.eq_of_mem_iff (List.pairwise_flatMap.mpr ⟨hwithin, hbetween⟩) h
    fun r => ?_
  rw [mem_ungroup_iff]
  constructor
  · rintro ⟨group, hg, hrow⟩
    obtain ⟨rfl, -⟩ := (mem_groups_iff h).mp hg
    exact mem_rowsOf_row.mp hrow
  · intro hr
    have hrow := mem_rowsOf_row.mpr hr
    exact ⟨_, (mem_groups_iff h).mpr ⟨rfl, List.ne_nil_of_mem hrow⟩, hrow⟩

end ResultTable

end VenueLink
