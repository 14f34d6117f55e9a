import Mathlib.Data.List.Perm.Basic
import VenueLink.Proofs.Store.Groups
import VenueLink.Proofs.Store.Sorting
import VenueLink.Proofs.Text.ByteOrder

/-!
# Every row is in its group

Whatever results are grouped, with as many of one account and day as there may be: there is one
group for each account, the groups stand in the order of the bytes of their accounts, and each
has the rows of its account from the newest day to the oldest, those of one day as they came.
Put together again, the groups have every result once.

## Main results

* `ranks_notOlder`: rows can be sorted by day.
* `ungroup_gather_perm`: gathering results loses none and makes none up.
* `groups_have_every_row`: the groups of any results.
-/

namespace VenueLink

namespace DailyResult

open ResultTable

/-! ### Sorting by day -/

/-- A row is not older when its date does not come before. -/
theorem notOlder_iff {a b : ResultRow} :
    notOlder a b = true ↔ a.date.before b.date = false := by
  rw [notOlder, Bool.not_eq_true']

/-- Rows can be sorted by day. -/
theorem ranks_notOlder : Ranks notOlder where
  trans a b c hab hbc := by
    rw [notOlder_iff] at *
    exact Date.not_before_trans hab hbc
  total a b := by
    rw [Bool.or_eq_true, notOlder_iff, notOlder_iff]
    exact Date.not_before_total a.date b.date

/-- Rows of one day keep their order. -/
theorem filter_date_mergeSort (rows : List ResultRow) (date : Date) :
    (rows.mergeSort notOlder).filter (·.date = date) = rows.filter (·.date = date) := by
  refine ranks_notOlder.filter_mergeSort rows fun a b ha hb => ?_
  rw [decide_eq_true_eq] at ha hb
  rw [notOlder_iff, ha, hb, Date.before_irrefl]

/-! ### Putting groups together again -/

/-- One row more in some groups is one result more. -/
theorem ungroup_addRow_perm (account : String) (row : ResultRow)
    (groups : List (String × List ResultRow)) :
    (ungroup (addRow account row groups)).Perm (row.ofAccount account :: ungroup groups) := by
  induction groups with
  | nil => exact .refl _
  | cons x rest ih =>
    obtain ⟨a, rows⟩ := x
    have hcons : ∀ (rows : List ResultRow) (groups : List (String × List ResultRow)),
        ungroup ((a, rows) :: groups) = rows.map (ResultRow.ofAccount a) ++ ungroup groups :=
      fun rows groups => List.flatMap_cons ..
    rw [addRow]
    split
    next heq =>
      subst heq
      rw [hcons, hcons, List.map_append, List.append_assoc]
      exact List.perm_middle
    next =>
      split
      · exact .refl _
      · rw [hcons, hcons]
        exact (ih.append_left _).trans List.perm_middle

/-- Gathering results loses none and makes none up. -/
theorem ungroup_gather_perm (results : List DailyResult) :
    (ungroup (gather results)).Perm results := by
  induction results using List.reverseRecOn with
  | nil => exact .refl _
  | append_singleton results r ih =>
    rw [gather_concat]
    have hmore := ungroup_addRow_perm r.account r.row (gather results)
    rw [ofAccount_row] at hmore
    exact hmore.trans ((ih.cons r).trans (List.perm_append_singleton r results).symm)

/-- Nor does sorting the groups. -/
theorem ungroup_groupByAccount_perm (results : List DailyResult) :
    (ungroup (groupByAccount results)).Perm results := by
  refine List.Perm.trans ?_ (ungroup_gather_perm results)
  rw [groupByAccount_eq, ungroup, List.flatMap_map]
  exact List.Perm.flatMap_left _ fun g _ => (List.mergeSort_perm g.2 notOlder).map _

/-! ### Groups -/

/-- There is a group of an account where a result is of that account. -/
theorem exists_group_iff {results : List DailyResult} {account : String} :
    (∃ rows, (account, rows) ∈ groupByAccount results) ↔
      ∃ r ∈ results, r.account = account := by
  constructor
  · rintro ⟨rows, hg⟩
    obtain ⟨rfl, hne⟩ := mem_groupByAccount_iff.mp hg
    obtain ⟨row, hrow⟩ := List.exists_mem_of_ne_nil _ hne
    obtain ⟨r, hr, -⟩ := List.mem_map.mp (List.mem_mergeSort.mp hrow)
    obtain ⟨hmem, haccount⟩ := List.mem_filter.mp hr
    exact ⟨r, hmem, of_decide_eq_true haccount⟩
  · rintro ⟨r, hr, rfl⟩
    have hrow := mem_rowsOf_row.mpr hr
    exact ⟨_, mem_groupByAccount_iff.mpr
      ⟨rfl, List.ne_nil_of_mem (List.mem_mergeSort.mpr hrow)⟩⟩

/-- **Every row is in its group.** For any results:

* the groups stand in the order of the bytes of their accounts, each account once;
* there is a group for every account that a result is of, and for no other;
* a group has the rows of its account, all of them and no others, from the newest day to the
  oldest, and the rows of one day in the order in which they came;
* the results that the rows of all groups stand for are the given ones, each as often as it was
  given. -/
theorem groups_have_every_row (results : List DailyResult) :
    let groups := groupByAccount results
    (groups.Pairwise fun g g' => Text.Utf8.encode g.1.toList < Text.Utf8.encode g'.1.toList) ∧
    (∀ account, (∃ rows, (account, rows) ∈ groups) ↔ ∃ r ∈ results, r.account = account) ∧
    (∀ account rows, (account, rows) ∈ groups →
      rows.Perm (rowsOf account results) ∧
      (rows.Pairwise fun row row' => row.date.before row'.date = false) ∧
      ∀ date, rows.filter (·.date = date) = (rowsOf account results).filter (·.date = date)) ∧
    (ungroup groups).Perm results := by
  intro groups
  refine ⟨?_, fun account => exists_group_iff, fun account rows hg => ?_,
    ungroup_groupByAccount_perm results⟩
  · exact (pairwise_groupByAccount results).imp Text.lt_iff_encode_lt.mp
  · obtain ⟨rfl, -⟩ := mem_groupByAccount_iff.mp hg
    refine ⟨List.mergeSort_perm _ _, ?_, fun date => filter_date_mergeSort _ date⟩
    exact (ranks_notOlder.pairwise_mergeSort _).imp notOlder_iff.mp

end DailyResult

end VenueLink
