import Mathlib.Data.Int.Interval
import Clif.Observe.Accounted

/-!
# Observe.Certified — what the certificate of a reward epoch vouches for

`certified_iff` says which close-outs certify no more than their ledger and their figures show.
-/

namespace Clif

/-! ## Distinct integers of an interval -/

section

variable {xs : List Int} {lo hi : Int}

theorem nodup_length_le (hnodup : xs.Nodup) (hmem : ∀ x ∈ xs, lo ≤ x ∧ x ≤ hi) :
    xs.length ≤ (hi + 1 - lo).toNat := by
  have hsub : xs.toFinset ⊆ Finset.Icc lo hi := by
    intro x hx
    exact Finset.mem_Icc.mpr (hmem x (List.mem_toFinset.mp hx))
  have hcard := Finset.card_le_card hsub
  rwa [List.toFinset_card_of_nodup hnodup, Int.card_Icc] at hcard

/-- They are as many as the interval has exactly if they are all of it. -/
theorem nodup_length_eq_iff (hnodup : xs.Nodup) (hmem : ∀ x ∈ xs, lo ≤ x ∧ x ≤ hi) :
    (hi + 1 - lo).toNat ≤ xs.length ↔ ∀ x, lo ≤ x → x ≤ hi → x ∈ xs := by
  have hsub : xs.toFinset ⊆ Finset.Icc lo hi := by
    intro x hx
    exact Finset.mem_Icc.mpr (hmem x (List.mem_toFinset.mp hx))
  constructor
  · intro hle x hlo hhi
    have heq : xs.toFinset = Finset.Icc lo hi := by
      refine Finset.eq_of_subset_of_card_le hsub ?_
      rwa [List.toFinset_card_of_nodup hnodup, Int.card_Icc]
    have hx : x ∈ Finset.Icc lo hi := Finset.mem_Icc.mpr ⟨hlo, hhi⟩
    rw [← heq] at hx
    exact List.mem_toFinset.mp hx
  · intro hall
    have hsup : Finset.Icc lo hi ⊆ xs.toFinset := by
      intro x hx
      obtain ⟨hlo, hhi⟩ := Finset.mem_Icc.mp hx
      exact List.mem_toFinset.mpr (hall x hlo hhi)
    have hcard := Finset.card_le_card hsup
    rwa [List.toFinset_card_of_nodup hnodup, Int.card_Icc] at hcard

end

namespace Observe

/-! ## What a close-out certifies, and when -/

/-- The recorded rounds of the epoch. -/
def Closeout.rounds (c : Closeout) : List Int :=
  c.records.keys.filter fun rid => epochOf rid = c.epoch

def Closeout.tally (c : Closeout) : Tally := epochTally c.records.values c.epoch

/-- What the certificate says: the whole epoch is on record, and every gate has a figure of this
epoch. -/
structure Vouched (c : Closeout) : Prop where
  complete : ∀ rid, epochOf rid = c.epoch → rid ∈ c.records.keys
  ftso : ∀ b, c.ftso = some b → b.ratePct.isSome → b.epoch = c.epoch
  uptime : ∀ u, c.uptime = some u → u.epoch = c.epoch
  figures : (ftsoFigure c.tally c.ftso).isSome ∧ c.tally.fdcPct.isSome ∧ c.uptime.isSome

/-- No recorded round of the epoch is missing between two others. -/
def Contiguous (c : Closeout) : Prop :=
  ∀ lo ∈ c.rounds, ∀ hi ∈ c.rounds, ∀ rid, lo ≤ rid → rid ≤ hi → rid ∈ c.rounds

/-- The figure is not there, or not below its floor. -/
def Meets (figure : Option ℚ) (floor : ℚ) : Prop := ∀ x, figure = some x → floor ≤ x

/-- The close-out certifies what it does not know: nothing speaks against the epoch, but rounds at
its ends are not on record, or a figure is of another epoch or is not there. -/
structure Mistaken (c : Closeout) : Prop where
  contiguous : Contiguous c
  most : 3325 ≤ c.rounds.length
  ftso : Meets (ftsoFigure c.tally c.ftso) ftsoMinPct
  fdc : Meets c.tally.fdcPct fdcMinPct
  uptime : Meets (c.uptime.map UptimeReading.pct) uptimeMinPct
  short : c.rounds.length < 3360 ∨
    (∃ b, c.ftso = some b ∧ b.ratePct.isSome ∧ b.epoch ≠ c.epoch) ∨
    (∃ u, c.uptime = some u ∧ u.epoch ≠ c.epoch) ∨
    c.tally.fdcExpected = 0 ∨ c.uptime = none

/-! ## The rounds of an epoch -/

theorem epochOf_eq_iff {rid e : Int} :
    epochOf rid = e ↔ 3360 * e ≤ rid ∧ rid ≤ 3360 * e + 3359 := by
  unfold epochOf vrsPerRewardEpoch
  omega

section

variable {c : Closeout} {rid : Int}

theorem mem_rounds : rid ∈ c.rounds ↔ rid ∈ c.records.keys ∧ epochOf rid = c.epoch := by
  simp [Closeout.rounds]

theorem rounds_nodup : c.rounds.Nodup := c.records.keys_nodup.filter _

theorem rounds_bounds : ∀ rid ∈ c.rounds, 3360 * c.epoch ≤ rid ∧ rid ≤ 3360 * c.epoch + 3359 :=
  fun _ h => epochOf_eq_iff.mp (mem_rounds.mp h).2

/-- The rounds that the tally counts. -/
theorem epochRecords_rids :
    (epochRecords c.records.values c.epoch).map RoundRecord.rid = c.rounds := by
  rw [Closeout.rounds, ← Keyed.map_values, List.filter_map]
  rfl

theorem epochRecords_length :
    (epochRecords c.records.values c.epoch).length = c.rounds.length := by
  rw [← epochRecords_rids, List.length_map]

theorem rounds_length_le : c.rounds.length ≤ 3360 := by
  have hle := nodup_length_le rounds_nodup (rounds_bounds (c := c))
  omega

/-- The epoch is on record exactly if it has its number of rounds. -/
theorem complete_iff : (∀ rid, epochOf rid = c.epoch → rid ∈ c.records.keys) ↔
    3360 ≤ c.rounds.length := by
  have hiff := nodup_length_eq_iff rounds_nodup (rounds_bounds (c := c))
  have hwidth : (3360 * c.epoch + 3359 + 1 - 3360 * c.epoch).toNat = 3360 := by omega
  rw [hwidth] at hiff
  rw [hiff]
  constructor
  · intro h rid hlo hhi
    have hepoch : epochOf rid = c.epoch := epochOf_eq_iff.mpr ⟨hlo, hhi⟩
    exact mem_rounds.mpr ⟨h rid hepoch, hepoch⟩
  · intro h rid hepoch
    obtain ⟨hlo, hhi⟩ := epochOf_eq_iff.mp hepoch
    exact (mem_rounds.mp (h rid hlo hhi)).1

/-- The tally misses no round of its span exactly if there is none to miss. -/
theorem missingInSpan_eq_zero : c.tally.missingInSpan = 0 ↔ Contiguous c := by
  have hmissing : c.tally.missingInSpan =
      max 0 (spanOf c.rounds.min? c.rounds.max? - c.rounds.length) := by
    rw [← epochRecords_length, ← epochRecords_rids]
    rfl
  rw [hmissing]
  by_cases hempty : c.rounds = []
  · refine iff_of_true (by simp [hempty, spanOf]) ?_
    intro lo hlo
    rw [hempty] at hlo
    cases hlo
  obtain ⟨lo, hlo⟩ := Option.isSome_iff_exists.mp (List.isSome_min?_of_ne_nil hempty)
  obtain ⟨hi, hhi⟩ := Option.isSome_iff_exists.mp (List.isSome_max?_of_ne_nil hempty)
  obtain ⟨hlomem, hlole⟩ := List.min?_eq_some_iff.mp hlo
  obtain ⟨himem, hile⟩ := List.max?_eq_some_iff.mp hhi
  have hiff := nodup_length_eq_iff (rounds_nodup (c := c))
    fun rid h => ⟨hlole rid h, hile rid h⟩
  have hspan : spanOf (some lo) (some hi) = hi - lo + 1 := rfl
  have hle : lo ≤ hi := hlole hi himem
  rw [hlo, hhi, hspan]
  constructor
  · intro hzero a ha b hb rid har hrb
    have hfull : (hi + 1 - lo).toNat ≤ c.rounds.length := by omega
    exact hiff.mp hfull rid ((hlole a ha).trans har) (hrb.trans (hile b hb))
  · intro hall
    have hfull := hiff.mpr fun rid h h' => hall lo hlomem hi himem rid h h'
    omega

/-- The coverage is rounded to one digit, and 3325 of 3360 are 98.96%. -/
theorem partly_eq_false : c.tally.partly = false ↔ 3325 ≤ c.rounds.length := by
  have hcoverage : c.tally.coveragePct = Py.percent c.rounds.length 3360 1 := by
    rw [← epochRecords_length]
    rfl
  have hle : (c.rounds.length : Int) ≤ 3360 := by exact_mod_cast rounds_length_le
  have hnear := abs_le.mp (Py.percent_near (Int.natCast_nonneg _) hle (by decide))
  rw [Tally.partly, decide_eq_false_iff_not, not_lt, hcoverage, Py.percent, Py.round]
  push_cast at hnear ⊢
  obtain ⟨hlow, hhigh⟩ := Py.roundInt_near
    (Py.double (Py.double (100 * c.rounds.length) / 3360) * 10 ^ 1)
  generalize Py.roundInt (Py.double (Py.double (100 * c.rounds.length) / 3360) * 10 ^ 1) = r
    at hlow hhigh ⊢
  constructor
  · intro h
    by_contra hfew
    have hlength : (c.rounds.length : ℚ) ≤ 3324 := by
      exact_mod_cast Nat.lt_succ_iff.mp (not_le.mp hfew)
    have hr : (r : ℚ) < 990 := by linarith
    have hr' : (990 : ℚ) ≤ r := by linarith
    linarith
  · intro hmany
    have hlength : (3325 : ℚ) ≤ c.rounds.length := by exact_mod_cast hmany
    have hr : (989 : ℚ) < r := by linarith
    have hr' : (990 : Int) ≤ r := by exact_mod_cast hr
    have hr'' : (990 : ℚ) ≤ r := by exact_mod_cast hr'
    linarith

theorem gateBad_eq_false {figure : Option ℚ} {floor : ℚ} :
    gateBad figure floor = false ↔ Meets figure floor := by
  cases figure with
  | none => simp [gateBad, Meets]
  | some x => simp [gateBad, Meets]

theorem breachedGates_eq_nil : breachedGates c.tally (c.uptime.map UptimeReading.pct) c.ftso = [] ↔
    Meets (ftsoFigure c.tally c.ftso) ftsoMinPct ∧ Meets c.tally.fdcPct fdcMinPct ∧
      Meets (c.uptime.map UptimeReading.pct) uptimeMinPct := by
  simp only [← gateBad_eq_false, breachedGates, List.filterMap_eq_nil_iff, List.forall_mem_cons]
  simp

/-- The epoch is certified if no figure is below its floor, no round is missing between two others,
and at least 3325 are on record. -/
theorem verdict_eq_certified : c.verdict = .certified ↔
    (Meets (ftsoFigure c.tally c.ftso) ftsoMinPct ∧ Meets c.tally.fdcPct fdcMinPct ∧
      Meets (c.uptime.map UptimeReading.pct) uptimeMinPct) ∧
    Contiguous c ∧ 3325 ≤ c.rounds.length := by
  rw [← breachedGates_eq_nil, ← missingInSpan_eq_zero, ← partly_eq_false]
  show renderEpochCloseout c.tally _ _ = .certified ↔ _
  unfold renderEpochCloseout
  dsimp only
  by_cases hbreached : breachedGates c.tally (c.uptime.map UptimeReading.pct) c.ftso = []
  · rw [if_neg (not_not_intro hbreached)]
    by_cases hopen : c.tally.missingInSpan ≠ 0 ∨ c.tally.partly = true
    · rw [if_pos hopen]
      refine iff_of_false Verdict.noConfusion ?_
      rintro ⟨-, hmissing, hpartly⟩
      simp [hmissing, hpartly] at hopen
    · rw [if_neg hopen]
      rw [not_or, not_not, Bool.not_eq_true] at hopen
      exact iff_of_true rfl ⟨hbreached, hopen⟩
  · rw [if_pos hbreached]
    exact iff_of_false Verdict.noConfusion fun h => hbreached h.1

/-- The tally has a figure for FDC if a round was asked for. -/
theorem fdcPct_isSome : c.tally.fdcPct.isSome = true ↔ c.tally.fdcExpected ≠ 0 := by
  show (pct c.tally.fdcParticipated c.tally.fdcExpected).isSome = true ↔ _
  unfold pct
  by_cases h : c.tally.fdcExpected = 0
  · simp [h]
  · simp [h]

/-- With rounds on record there is a figure for FTSO. -/
theorem ftsoFigure_isSome (h : c.rounds ≠ []) : (ftsoFigure c.tally c.ftso).isSome = true := by
  have hlength : (epochRecords c.records.values c.epoch).length ≠ 0 := by
    rw [epochRecords_length]
    exact fun hzero => h (List.length_eq_zero_iff.mp hzero)
  have htally : c.tally.ftsoPct.isSome = true := by
    show (pct _ (epochRecords c.records.values c.epoch).length).isSome = true
    rw [pct, if_neg hlength]
    rfl
  unfold ftsoFigure
  cases c.ftso.bind Budget.ratePct with
  | none => exact htally
  | some rate => rfl

/-- A close-out certifies no more than it knows, exactly if it is not mistaken. -/
theorem certified_iff (c : Closeout) : (c.verdict = .certified → Vouched c) ↔ ¬ Mistaken c := by
  rw [verdict_eq_certified]
  constructor
  · rintro h ⟨hcontiguous, hmost, hftso, hfdc, huptime, hshort⟩
    obtain ⟨hcomplete, hftso', huptime', -, hfigure, hread⟩ :=
      h ⟨⟨hftso, hfdc, huptime⟩, hcontiguous, hmost⟩
    obtain hfew | ⟨b, hb, hrate, hne⟩ | ⟨u, hu, hne⟩ | hnone | hnone := hshort
    · exact absurd (complete_iff.mp hcomplete) (not_le.mpr hfew)
    · exact hne (hftso' b hb hrate)
    · exact hne (huptime' u hu)
    · exact fdcPct_isSome.mp hfigure hnone
    · simp [hnone] at hread
  · rintro hnot ⟨⟨hftso, hfdc, huptime⟩, hcontiguous, hmost⟩
    have hshort : ¬ _ := fun hshort => hnot ⟨hcontiguous, hmost, hftso, hfdc, huptime, hshort⟩
    simp only [not_or, not_lt, not_exists, not_and, not_not] at hshort
    obtain ⟨hall, hbudget, hread, hfigure, hsome⟩ := hshort
    have hne : c.rounds ≠ [] := by
      intro hempty
      rw [hempty] at hmost
      simp at hmost
    exact ⟨complete_iff.mpr hall, hbudget, hread, ftsoFigure_isSome hne,
      fdcPct_isSome.mpr hfigure, Option.isSome_iff_ne_none.mpr hsome⟩

end

/-! ## The close-out in the engine -/

/-- A state that closes the epoch out with what the close-out is made from. -/
def closingState (c : Closeout) : EngineState :=
  { obs := { toObserverSetup := sampleSetup }
    cursor := 1, scanLo := 1, lastBlock := 1
    mincondRecs := c.records
    mincondEpoch := some c.epoch
    bud := ⟨c.ftso, 1⟩
    up := ⟨c.uptime, 1⟩ }

/-- The first round of a later epoch shows the close-out. -/
theorem closingState_closeout {c : Closeout} {rid : Int} (hnew : rid ∉ c.records.keys)
    (hlater : c.epoch < epochOf rid) :
    .closeout c ∈ ((closingState c).recordRound sampleConfig { roundId := rid }).2 := by
  have hcond :
      ¬ (!sampleConfig.mincondHistory || decide (rid ∈ (closingState c).mincondRecs.keys)) =
      true := by
    rw [show sampleConfig.mincondHistory = true from rfl, Bool.not_true, Bool.false_or,
      decide_eq_true_eq]
    exact hnew
  have hrollover : (closingState c).rollover (epochOf rid) =
      ({ (closingState c).expireEpochOverlays (epochOf rid) with
          mincondEpoch := some (epochOf rid), mincondBlocks := 0 },
        [.closeout c, .opened (epochOf rid)]) := by
    show (if c.epoch < epochOf rid then _ else _) = _
    rw [if_pos hlater]
    rfl
  unfold EngineState.recordRound
  rw [if_neg hcond]
  dsimp only
  rw [hrollover]
  simp

/-! ### An epoch that was joined late -/

/-- A round without a fault. -/
def faultless (rid : Int) : RoundRecord :=
  { rid := rid, s1 := 1, s2 := 1, cl := 1, fexp := 1, fok := 1 }

/-- As many rounds as `n`, from `first` on. -/
def roundsFrom (first : Int) (n : Nat) : Ledger :=
  ((List.range n).map fun i : Nat => faultless (first + i)).foldl Keyed.put Keyed.empty

theorem mem_roundsFrom {first rid : Int} {n : Nat} :
    rid ∈ (roundsFrom first n).keys ↔ first ≤ rid ∧ rid < first + n := by
  rw [roundsFrom, Keyed.mem_keys_foldl_put]
  constructor
  · rintro (⟨r, hr, rfl⟩ | h)
    · obtain ⟨i, hi, rfl⟩ := List.mem_map.mp hr
      have hlt := List.mem_range.mp hi
      show first ≤ first + (i : Int) ∧ first + (i : Int) < first + n
      omega
    · cases h
  · rintro ⟨hlo, hhi⟩
    refine .inl ⟨faultless (first + ((rid - first).toNat : Int)), List.mem_map.mpr
      ⟨(rid - first).toNat, List.mem_range.mpr (by omega), rfl⟩, ?_⟩
    show first + ((rid - first).toNat : Int) = rid
    omega

theorem roundsFrom_faultless {first : Int} {n : Nat} :
    ∀ r ∈ (roundsFrom first n).values, r.fexp = 1 ∧ r.fok = 1 := by
  intro r hr
  have hget := Keyed.mem_values.mp hr
  rw [roundsFrom, Keyed.get?_foldl_put, Keyed.get?_empty, Option.or_none] at hget
  obtain ⟨i, -, rfl⟩ := List.mem_map.mp (List.mem_reverse.mp (List.mem_of_find?_eq_some hget))
  exact ⟨rfl, rfl⟩

/-- Of rounds without a fault every request was answered. -/
theorem fdcPct_faultless {c : Closeout} (h : ∀ r ∈ c.records.values, r.fexp = 1 ∧ r.fok = 1)
    (hne : c.rounds.length ≠ 0) : c.tally.fdcPct = some 100 := by
  have hsum : ∀ f : RoundRecord → Nat, (∀ r ∈ c.records.values, f r = 1) →
      ((epochRecords c.records.values c.epoch).map f).sum = c.rounds.length := by
    intro f hf
    have hones : (epochRecords c.records.values c.epoch).map f =
        List.replicate (epochRecords c.records.values c.epoch).length 1 :=
      List.map_eq_replicate_iff.mpr fun r hr => hf r (List.mem_of_mem_filter hr)
    rw [hones, List.sum_replicate, nsmul_eq_mul, mul_one, Nat.cast_id]
    exact epochRecords_length
  have hexpected := hsum RoundRecord.fexp fun r hr => (h r hr).1
  have hok := hsum RoundRecord.fok fun r hr => (h r hr).2
  show pct ((epochRecords c.records.values c.epoch).map RoundRecord.fok).sum
    ((epochRecords c.records.values c.epoch).map RoundRecord.fexp).sum = _
  rw [hexpected, hok, pct, if_neg hne, Py.percent_self (by omega)]

/-- The close-out of the epoch 0, with its rounds from the thirtieth on, and with the budget and the
uptime of the epoch 1. -/
def lateCloseout : Closeout :=
  ⟨0, roundsFrom 30 3330, some ⟨100, 1⟩, some (readFtsoBudget 3361 0 2)⟩

theorem lateCloseout_records : lateCloseout.records = roundsFrom 30 3330 := by
  simp only [lateCloseout]

theorem mem_lateRecords {rid : Int} :
    rid ∈ lateCloseout.records.keys ↔ 30 ≤ rid ∧ rid < 3360 := by
  have hmem := @mem_roundsFrom 30 rid 3330
  have hend : (30 : Int) + (3330 : Nat) = 3360 := by norm_num
  rw [hend] at hmem
  rw [lateCloseout_records]
  exact hmem

theorem mem_lateRounds {rid : Int} : rid ∈ lateCloseout.rounds ↔ 30 ≤ rid ∧ rid < 3360 := by
  have hepoch : epochOf rid = lateCloseout.epoch ↔ _ := @epochOf_eq_iff rid 0
  rw [mem_rounds, mem_lateRecords, hepoch]
  omega

/-- The first round of the epoch 1 certifies the epoch 0, of which thirty rounds are not on record,
by the budget and the uptime of the epoch 1. -/
theorem lateCloseout_certified :
    .closeout lateCloseout ∈
        ((closingState lateCloseout).recordRound sampleConfig { roundId := 3360 }).2 ∧
      ¬ (lateCloseout.verdict = .certified → Vouched lateCloseout) := by
  have hnew : (3360 : Int) ∉ lateCloseout.records.keys := by
    intro h
    have hlt := (mem_lateRecords.mp h).2
    omega
  refine ⟨closingState_closeout hnew (by decide +kernel), ?_⟩
  have hfull : (3359 + 1 - 30 : Int).toNat ≤ lateCloseout.rounds.length := by
    refine (nodup_length_eq_iff rounds_nodup fun rid h => ?_).mpr fun rid hlo hhi => ?_
    · have hmem := mem_lateRounds.mp h
      omega
    · exact mem_lateRounds.mpr (by omega)
  have hcontiguous : Contiguous lateCloseout := by
    intro lo hlo hi hhi rid hle hle'
    have hlo' := (mem_lateRounds.mp hlo).1
    have hhi' := (mem_lateRounds.mp hhi).2
    exact mem_lateRounds.mpr (by omega)
  have hftso : Meets (ftsoFigure lateCloseout.tally lateCloseout.ftso) ftsoMinPct := by
    have hrate : lateCloseout.ftso.bind Budget.ratePct = some 100 := by
      simp only [lateCloseout]
      decide +kernel
    intro x hx
    rw [ftsoFigure, hrate] at hx
    cases hx
    decide +kernel
  have hfdc : Meets lateCloseout.tally.fdcPct fdcMinPct := by
    intro x hx
    have hall : ∀ r ∈ lateCloseout.records.values, r.fexp = 1 ∧ r.fok = 1 := by
      rw [lateCloseout_records]
      exact roundsFrom_faultless
    rw [fdcPct_faultless hall (by omega)] at hx
    cases hx
    decide +kernel
  have huptime : Meets (lateCloseout.uptime.map UptimeReading.pct) uptimeMinPct := by
    intro x hx
    simp only [lateCloseout, Option.map_some, Option.some.injEq] at hx
    subst hx
    decide +kernel
  intro h
  have hcertified := verdict_eq_certified.mpr
    ⟨⟨hftso, hfdc, huptime⟩, hcontiguous, show 3325 ≤ lateCloseout.rounds.length by omega⟩
  have hepoch : epochOf 0 = lateCloseout.epoch := by
    simp only [lateCloseout]
    decide
  have hle := (mem_lateRecords.mp ((h hcertified).complete 0 hepoch)).1
  omega

end Observe

end Clif
