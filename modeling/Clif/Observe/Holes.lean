import Mathlib.Algebra.BigOperators.Group.List.Basic
import Clif.Observe.Certified

/-!
# Observe.Holes — the holes of an epoch, as a list and as a number

`epoch_gap_ranges` walks the sorted ids, `epoch_tally` subtracts: `holes_agree`.
-/

namespace Clif.Observe

/-! ## The gaps of a sorted list -/

def rangeLength (g : Int × Int) : Int := g.2 - g.1 + 1

section

variable {lo r : Int} {rids : List Int}

theorem gapsBetween_cons {hi : Int} : gapsBetween (lo :: hi :: rids) =
    (if lo + 1 < hi then [(lo + 1, hi - 1)] else []) ++ gapsBetween (hi :: rids) := by
  by_cases h : lo + 1 < hi
  · simp [gapsBetween, h]
  · simp [gapsBetween, h]

theorem le_getLast_of_sorted (h : (lo :: rids).Pairwise (· < ·)) :
    ∀ r ∈ lo :: rids, r ≤ (lo :: rids).getLast (List.cons_ne_nil _ _) := by
  induction rids generalizing lo with
  | nil =>
    intro r hr
    rw [List.mem_singleton.mp hr]
    exact le_rfl
  | cons hi rids ih =>
    obtain ⟨hlo, hrest⟩ := List.pairwise_cons.mp h
    rw [List.getLast_cons (List.cons_ne_nil _ _)]
    intro r hr
    rcases List.mem_cons.mp hr with rfl | hr
    · exact (hlo hi List.mem_cons_self).le.trans (ih hrest hi List.mem_cons_self)
    · exact ih hrest r hr

/-- A gap is not empty, and lies between two of the ids. -/
theorem gapsBetween_inside (h : (lo :: rids).Pairwise (· < ·)) :
    ∀ g ∈ gapsBetween (lo :: rids), g.1 ≤ g.2 ∧ lo < g.1 ∧ ∃ hi ∈ rids, g.2 < hi := by
  induction rids generalizing lo with
  | nil =>
    intro g hg
    cases hg
  | cons hi rids ih =>
    obtain ⟨hlo, hrest⟩ := List.pairwise_cons.mp h
    have hlt : lo < hi := hlo hi List.mem_cons_self
    intro g hg
    rw [gapsBetween_cons] at hg
    rcases List.mem_append.mp hg with hg | hg
    · split at hg
      · rw [List.mem_singleton.mp hg]
        exact ⟨by dsimp only; omega, by dsimp only; omega, hi, List.mem_cons_self, by
          dsimp only; omega⟩
      · cases hg
    · obtain ⟨hne, hgt, hi', hmem, hlt'⟩ := ih hrest g hg
      exact ⟨hne, by omega, hi', List.mem_cons_of_mem _ hmem, hlt'⟩

/-- Between two gaps there is an id. -/
theorem gapsBetween_apart (h : (lo :: rids).Pairwise (· < ·)) :
    (gapsBetween (lo :: rids)).Pairwise fun g g' => g.2 + 1 < g'.1 := by
  induction rids generalizing lo with
  | nil => exact List.Pairwise.nil
  | cons hi rids ih =>
    obtain ⟨-, hrest⟩ := List.pairwise_cons.mp h
    rw [gapsBetween_cons]
    by_cases hgap : lo + 1 < hi
    · rw [if_pos hgap, List.singleton_append]
      refine List.pairwise_cons.mpr ⟨fun g hg => ?_, ih hrest⟩
      obtain ⟨-, hgt, -⟩ := gapsBetween_inside hrest g hg
      dsimp only
      omega
    · rw [if_neg hgap, List.nil_append]
      exact ih hrest

/-- The gaps hold what lies between the ids and is none of them. -/
theorem mem_gapsBetween (h : (lo :: rids).Pairwise (· < ·)) :
    (∃ g ∈ gapsBetween (lo :: rids), g.1 ≤ r ∧ r ≤ g.2) ↔
      lo < r ∧ r ∉ rids ∧ ∃ hi ∈ rids, r < hi := by
  induction rids generalizing lo with
  | nil => simp [gapsBetween]
  | cons hi rids ih =>
    obtain ⟨hlo, hrest⟩ := List.pairwise_cons.mp h
    have hlt : lo < hi := hlo hi List.mem_cons_self
    have habove : ∀ x ∈ rids, hi < x := (List.pairwise_cons.mp hrest).1
    rw [gapsBetween_cons]
    constructor
    · rintro ⟨g, hg, hle, hge⟩
      rcases List.mem_append.mp hg with hg | hg
      · split at hg
        · rw [List.mem_singleton.mp hg] at hle hge
          dsimp only at hle hge
          refine ⟨by omega, fun hmem => ?_, hi, List.mem_cons_self, by omega⟩
          rcases List.mem_cons.mp hmem with rfl | hmem
          · omega
          · have := habove r hmem
            omega
        · cases hg
      · obtain ⟨hr, hnot, hi', hmem, hlt'⟩ := (ih hrest).mp ⟨g, hg, hle, hge⟩
        refine ⟨by omega, fun hr' => ?_, hi', List.mem_cons_of_mem _ hmem, hlt'⟩
        rcases List.mem_cons.mp hr' with rfl | hr'
        · omega
        · exact hnot hr'
    · rintro ⟨hr, hnot, hi', hmem, hlt'⟩
      have hne : r ≠ hi := fun h => hnot (h ▸ List.mem_cons_self)
      by_cases hbelow : r < hi
      · have hgap : lo + 1 < hi := by omega
        refine ⟨(lo + 1, hi - 1), ?_, by dsimp only; omega, by dsimp only; omega⟩
        rw [if_pos hgap]
        exact List.mem_cons_self
      · have hmem' : hi' ∈ rids := by
          rcases List.mem_cons.mp hmem with rfl | hmem
          · omega
          · exact hmem
        obtain ⟨g, hg, hle, hge⟩ := (ih hrest).mpr
          ⟨by omega, fun hr' => hnot (List.mem_cons_of_mem _ hr'), hi', hmem', hlt'⟩
        exact ⟨g, List.mem_append_right _ hg, hle, hge⟩

/-- All the places from the first id to the last are ids or in a gap. -/
theorem sum_gapsBetween (h : (lo :: rids).Pairwise (· < ·)) :
    ((gapsBetween (lo :: rids)).map rangeLength).sum =
      (lo :: rids).getLast (List.cons_ne_nil _ _) - lo - rids.length := by
  induction rids generalizing lo with
  | nil => simp [gapsBetween]
  | cons hi rids ih =>
    obtain ⟨hlo, hrest⟩ := List.pairwise_cons.mp h
    have hlt : lo < hi := hlo hi List.mem_cons_self
    have hsum := ih hrest
    rw [gapsBetween_cons, List.map_append, List.sum_append, hsum,
      List.getLast_cons (List.cons_ne_nil _ _), List.length_cons]
    by_cases hgap : lo + 1 < hi
    · rw [if_pos hgap]
      simp only [List.map_cons, List.map_nil, List.sum_singleton, rangeLength]
      push_cast
      omega
    · rw [if_neg hgap]
      simp only [List.map_nil, List.sum_nil]
      push_cast
      omega

end

/-- The sum of the lengths vanishes only where there is no gap. -/
theorem sum_rangeLength_eq_zero {gs : List (Int × Int)} (h : ∀ g ∈ gs, g.1 ≤ g.2) :
    0 ≤ (gs.map rangeLength).sum ∧ ((gs.map rangeLength).sum = 0 ↔ gs = []) := by
  induction gs with
  | nil => simp
  | cons g gs ih =>
    obtain ⟨hg, hgs⟩ := List.forall_mem_cons.mp h
    obtain ⟨hnonneg, -⟩ := ih hgs
    have hpos : 0 < rangeLength g := by
      unfold rangeLength
      omega
    rw [List.map_cons, List.sum_cons]
    refine ⟨by omega, iff_of_false (by omega) (by simp)⟩

/-! ## The holes of an epoch -/

/-- The sorted ids of the epoch. -/
def epochIds (records : List RoundRecord) (epoch : Int) : List Int :=
  ((epochRecords records epoch).map RoundRecord.rid).insertionSort (· ≤ ·)

section

variable {recs : Ledger} {epoch : Int}

theorem epochIds_perm :
    (epochIds recs.values epoch).Perm ((epochRecords recs.values epoch).map RoundRecord.rid) :=
  List.perm_insertionSort _ _

/-- A dictionary has every id once. -/
theorem epochIds_sorted : (epochIds recs.values epoch).Pairwise (· < ·) := by
  have hkeys : (recs.values.map RoundRecord.rid).Nodup := by
    rw [Keyed.map_values]
    exact recs.keys_nodup
  have hnodup : (epochIds recs.values epoch).Nodup :=
    epochIds_perm.nodup_iff.mpr (hkeys.sublist (List.filter_sublist.map _))
  exact ((List.pairwise_insertionSort _ _).and hnodup).imp fun h => lt_of_le_of_ne h.1 h.2

theorem mem_epochIds {r : Int} :
    r ∈ epochIds recs.values epoch ↔ r ∈ recs.keys ∧ epochOf r = epoch := by
  rw [epochIds_perm.mem_iff, ← Keyed.map_values, epochRecords]
  constructor
  · intro h
    obtain ⟨rec, hrec, rfl⟩ := List.mem_map.mp h
    obtain ⟨hmem, hepoch⟩ := List.mem_filter.mp hrec
    exact ⟨List.mem_map_of_mem hmem, of_decide_eq_true hepoch⟩
  · rintro ⟨h, hepoch⟩
    obtain ⟨rec, hmem, rfl⟩ := List.mem_map.mp h
    exact List.mem_map_of_mem (List.mem_filter.mpr ⟨hmem, decide_eq_true hepoch⟩)

theorem tally_noIds (h : epochIds recs.values epoch = []) :
    (epochTally recs.values epoch).firstRid = none ∧
      (epochTally recs.values epoch).lastRid = none ∧
      (epochTally recs.values epoch).missingInSpan = 0 := by
  have hnil : (epochRecords recs.values epoch).map RoundRecord.rid = [] := by
    have hperm := @epochIds_perm recs epoch
    rw [h] at hperm
    exact hperm.nil_eq.symm
  have hrecs : epochRecords recs.values epoch = [] := List.map_eq_nil_iff.mp hnil
  unfold epochTally
  simp [hrecs, spanOf]

/-- The tally counts from the first of the sorted ids to the last. -/
theorem tally_ids {lo : Int} {rids : List Int} (h : epochIds recs.values epoch = lo :: rids) :
    (epochTally recs.values epoch).firstRid = some lo ∧
      (epochTally recs.values epoch).lastRid =
        some ((lo :: rids).getLast (List.cons_ne_nil _ _)) ∧
      (epochTally recs.values epoch).missingInSpan =
        max 0 ((lo :: rids).getLast (List.cons_ne_nil _ _) - lo - rids.length) := by
  have hsorted := @epochIds_sorted recs epoch
  have hperm := @epochIds_perm recs epoch
  rw [h] at hsorted hperm
  have hfirst : ((epochRecords recs.values epoch).map RoundRecord.rid).min? = some lo := by
    refine List.min?_eq_some_iff.mpr ⟨hperm.mem_iff.mp List.mem_cons_self, fun r hr => ?_⟩
    rcases List.mem_cons.mp (hperm.mem_iff.mpr hr) with rfl | hr
    · exact le_rfl
    · exact ((List.pairwise_cons.mp hsorted).1 r hr).le
  have hmax : ((epochRecords recs.values epoch).map RoundRecord.rid).max? =
      some ((lo :: rids).getLast (List.cons_ne_nil _ _)) :=
    List.max?_eq_some_iff.mpr ⟨hperm.mem_iff.mp (List.getLast_mem _),
      fun r hr => le_getLast_of_sorted hsorted r (hperm.mem_iff.mpr hr)⟩
  have hlen : (epochRecords recs.values epoch).length = rids.length + 1 := by
    have hlen := hperm.length_eq
    rw [List.length_map] at hlen
    exact hlen.symm
  refine ⟨hfirst, hmax, ?_⟩
  show max 0 (spanOf ((epochRecords recs.values epoch).map RoundRecord.rid).min?
    ((epochRecords recs.values epoch).map RoundRecord.rid).max? -
    ((epochRecords recs.values epoch).length : Int)) = _
  rw [hfirst, hmax, hlen]
  unfold spanOf
  dsimp only
  push_cast
  congr 1
  omega

theorem sliceUpTo_all {α : Type} {l : List α} {n : Int} (h : l.length ≤ n) : sliceUpTo l n = l := by
  unfold sliceUpTo
  rw [if_pos (by omega)]
  exact List.take_of_length_le (by omega)

/-- What lies between two rounds of an epoch lies in the epoch. -/
theorem epochOf_between {lo hi r : Int} (hlo : epochOf lo = epoch) (hhi : epochOf hi = epoch)
    (h : lo ≤ r ∧ r ≤ hi) : epochOf r = epoch := by
  rw [epochOf_eq_iff] at hlo hhi ⊢
  omega

end

/-- The gap ranges of an epoch are the holes of its span, and the tally counts them. -/
theorem holes_agree (recs : Ledger) (epoch : Int) :
    let tally := epochTally recs.values epoch
    ∃ ranges : List (Int × Int),
      (∀ limit, (epochGapRanges recs.values epoch limit).2 = ranges.length) ∧
      (∀ limit : Int, ranges.length ≤ limit →
        (epochGapRanges recs.values epoch limit).1 = ranges) ∧
      (∀ g ∈ ranges, g.1 ≤ g.2 ∧
        ∃ lo hi, tally.firstRid = some lo ∧ tally.lastRid = some hi ∧ lo < g.1 ∧ g.2 < hi) ∧
      (ranges.Pairwise fun g g' => g.2 + 1 < g'.1) ∧
      (∀ r, (∃ g ∈ ranges, g.1 ≤ r ∧ r ≤ g.2) ↔
        ∃ lo hi, tally.firstRid = some lo ∧ tally.lastRid = some hi ∧ lo ≤ r ∧ r ≤ hi ∧
          r ∉ recs.keys) ∧
      tally.missingInSpan = (ranges.map rangeLength).sum ∧
      (tally.missingInSpan = 0 ↔ ranges = []) := by
  intro tally
  refine ⟨gapsBetween (epochIds recs.values epoch), fun limit => rfl,
    fun limit hlimit => sliceUpTo_all hlimit, ?_⟩
  have hsorted := @epochIds_sorted recs epoch
  have hmem : ∀ r, r ∈ epochIds recs.values epoch ↔ r ∈ recs.keys ∧ epochOf r = epoch :=
    fun r => mem_epochIds
  cases hids : epochIds recs.values epoch with
  | nil =>
    obtain ⟨hfirst, hlast, hmissing⟩ := tally_noIds hids
    have hgaps : gapsBetween [] = [] := rfl
    simp only [hgaps]
    refine ⟨by simp, List.Pairwise.nil, fun r => ?_, hmissing, iff_of_true hmissing trivial⟩
    refine iff_of_false (by simp) ?_
    rintro ⟨lo, hi, hlo, -⟩
    rw [show tally.firstRid = none from hfirst] at hlo
    cases hlo
  | cons lo rids =>
    rw [hids] at hsorted hmem
    obtain ⟨hfirst, hlast, hmissing⟩ := tally_ids hids
    have hinside := gapsBetween_inside hsorted
    have hle := le_getLast_of_sorted hsorted
    have hsum := sum_gapsBetween hsorted
    obtain ⟨hnonneg, hzero⟩ := sum_rangeLength_eq_zero fun g hg => (hinside g hg).1
    have hcount : tally.missingInSpan =
        ((gapsBetween (lo :: rids)).map rangeLength).sum := by
      rw [show tally.missingInSpan = _ from hmissing, ← hsum]
      exact max_eq_right hnonneg
    refine ⟨fun g hg => ?_, gapsBetween_apart hsorted, fun r => ?_, hcount, ?_⟩
    · obtain ⟨hne, hlo, hi, hmem', hlt⟩ := hinside g hg
      exact ⟨hne, lo, _, hfirst, hlast, hlo, hlt.trans_le (hle hi (List.mem_cons_of_mem _ hmem'))⟩
    · rw [mem_gapsBetween hsorted]
      constructor
      · rintro ⟨hr, hnot, hi, hmem', hlt⟩
        have hhi : r ≤ (lo :: rids).getLast (List.cons_ne_nil _ _) :=
          hlt.le.trans (hle hi (List.mem_cons_of_mem _ hmem'))
        refine ⟨lo, _, hfirst, hlast, hr.le, hhi, fun hkey => ?_⟩
        have hepoch : epochOf r = epoch := epochOf_between ((hmem lo).mp List.mem_cons_self).2
          ((hmem _).mp (List.getLast_mem _)).2 ⟨hr.le, hhi⟩
        rcases List.mem_cons.mp ((hmem r).mpr ⟨hkey, hepoch⟩) with rfl | hr'
        · omega
        · exact hnot hr'
      · rintro ⟨lo', hi', hlo', hhi', hr, hr', hkey⟩
        rw [show tally.firstRid = _ from hfirst] at hlo'
        rw [show tally.lastRid = _ from hlast] at hhi'
        cases hlo'
        cases hhi'
        have hnot : r ∉ lo :: rids := fun hmem' => hkey ((hmem r).mp hmem').1
        have hlast' : (lo :: rids).getLast (List.cons_ne_nil _ _) ∈ lo :: rids :=
          List.getLast_mem _
        have hne : r ≠ lo := fun heq => hnot (heq ▸ List.mem_cons_self)
        have hne' : r ≠ (lo :: rids).getLast (List.cons_ne_nil _ _) := fun heq =>
          hnot (heq ▸ hlast')
        refine ⟨by omega, fun hmem' => hnot (List.mem_cons_of_mem _ hmem'), _, ?_,
          lt_of_le_of_ne hr' hne'⟩
        rcases List.mem_cons.mp hlast' with heq | hmem'
        · omega
        · exact hmem'
    · rw [hcount]
      exact hzero

end Clif.Observe
