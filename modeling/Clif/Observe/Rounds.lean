import Clif.Observe.State

/-!
# Observe.Rounds — what recording and finalizing do to one round

`performAll_get?`: a round that is not far behind the others holds exactly what was written into
it.  `sweep_swept`: `finalize_due` takes every round that is due, and no other.
-/

namespace Clif.Observe

namespace ObserverState

variable {st : ObserverState} {rid r B : Int} {op : RoundOp} {ops : List (Int × RoundOp)}

/-! ## Recording -/

/-- Recording touches nothing but the rounds. -/
theorem perform_eq : st.perform rid op = { st with rounds := (st.perform rid op).rounds } := by
  unfold perform
  cases st.rounds.get? rid with
  | some rs => rfl
  | none =>
    by_cases hfar : st.tooFar rid = true
    · simp [hfar]
    · simp [hfar]

theorem performAll_cons {x : Int × RoundOp} :
    st.performAll (x :: ops) = (st.perform x.1 x.2).performAll ops := rfl

theorem performAll_eq : st.performAll ops = { st with rounds := (st.performAll ops).rounds } := by
  induction ops generalizing st with
  | nil => rfl
  | cons x ops ih =>
    rw [performAll_cons, ih, perform_eq]

@[simp] theorem performAll_lastTs : (st.performAll ops).lastTs = st.lastTs := by
  rw [performAll_eq]

@[simp] theorem performAll_setup : (st.performAll ops).toObserverSetup = st.toObserverSetup := by
  rw [performAll_eq]

@[simp] theorem perform_tooFar : (st.perform rid op).tooFar r = st.tooFar r := by
  rw [perform_eq]
  rfl

/-- No round in flight lies above `B`. -/
def Bounded (st : ObserverState) (B : Int) : Prop := ∀ k ∈ st.rounds.keys, k ≤ B

/-- What is accepted lies at or below `B`. -/
def Accepts (st : ObserverState) (B : Int) (ops : List (Int × RoundOp)) : Prop :=
  ∀ x ∈ ops, st.tooFar x.1 = false → x.1 ≤ B

/-- What is left after an eviction was there before. -/
theorem evict_get?_some {rounds : InFlight} {k : Int} {rs : RoundState}
    (h : (evict rounds).get? k = some rs) : rounds.get? k = some rs := by
  unfold evict at h
  split at h
  · split at h
    · rw [Keyed.get?_erase] at h
      split at h
      · cases h
      · exact h
    · exact h
  · exact h

theorem evict_mem {rounds : InFlight} {k : Int} (h : k ∈ (evict rounds).keys) :
    k ∈ rounds.keys := by
  obtain ⟨v, hv⟩ := Keyed.mem_keys.mp h
  exact Keyed.mem_keys.mpr ⟨v, evict_get?_some hv⟩

/-- What is in flight for a round after a write: nothing, what was, or what was with the write. -/
theorem perform_cases : (st.perform rid op).rounds.get? r = none ∨
    (st.perform rid op).rounds.get? r = st.rounds.get? r ∨
    rid = r ∧ (st.perform rid op).rounds.get? r =
      some (op.apply ((st.rounds.get? r).getD { roundId := r })) := by
  have hput : ∀ rs₀ : RoundState, rs₀.roundId = rid → (st.rounds.put (op.apply rs₀)).get? r =
      if rid = r then some (op.apply rs₀) else st.rounds.get? r := by
    intro rs₀ hid
    rw [Keyed.get?_put, RoundOp.apply_roundId, hid]
  unfold perform
  cases hget : st.rounds.get? rid with
  | some rs =>
    have hrounds := hput rs (Keyed.key_of_get? hget)
    by_cases hr : rid = r
    · subst hr
      rw [if_pos rfl] at hrounds
      exact .inr (.inr ⟨rfl, by simpa [hget] using hrounds⟩)
    · rw [if_neg hr] at hrounds
      exact .inr (.inl hrounds)
  | none =>
    have hrounds := hput { roundId := rid } rfl
    by_cases hfar : st.tooFar rid = true
    · simp [hfar]
    · simp only [hfar, Bool.false_eq_true, if_false]
      cases hevict : (evict (st.rounds.put (op.apply { roundId := rid }))).get? r with
      | none => exact .inl rfl
      | some rs =>
        rw [evict_get?_some hevict] at hrounds
        by_cases hr : rid = r
        · subst hr
          rw [if_pos rfl] at hrounds
          exact .inr (.inr ⟨rfl, by simpa [hget] using hrounds⟩)
        · rw [if_neg hr] at hrounds
          exact .inr (.inl hrounds)

/-- A round is only evicted from below more than `roundsCap` others. -/
theorem evict_get? {rounds : InFlight} (hB : ∀ k ∈ rounds.keys, k ≤ B) (hr : B < r + roundsCap) :
    (evict rounds).get? r = rounds.get? r := by
  unfold evict
  split
  · rename_i hcap
    split
    · rename_i k hmin
      refine Keyed.get?_erase_ne fun hkr => ?_
      subst hkr
      -- every key lies in the `roundsCap` places from the least one to `B`
      have hsub : rounds.keys ⊆ (List.range roundsCap).map fun i : Nat => k + i := by
        intro j hj
        have hkj : k ≤ j := (List.min?_eq_some_iff.mp hmin).2 j hj
        have hjB := hB j hj
        refine List.mem_map.mpr ⟨(j - k).toNat, List.mem_range.mpr ?_, ?_⟩ <;> omega
      have hlen := (Keyed.keys_nodup.subperm hsub).length_le
      rw [List.length_map, List.length_range] at hlen
      omega
    · rfl
  · rfl

theorem perform_bounded (hB : st.Bounded B) (hacc : st.tooFar rid = false → rid ≤ B) :
    (st.perform rid op).Bounded B := by
  intro k hk
  unfold perform at hk
  cases hget : st.rounds.get? rid with
  | some rs =>
    simp only [hget] at hk
    rcases Keyed.mem_keys_put.mp hk with h | h
    · rw [RoundOp.apply_roundId, Keyed.key_of_get? hget] at h
      exact h ▸ hB rid (Keyed.mem_keys.mpr ⟨rs, hget⟩)
    · exact hB k h
  | none =>
    simp only [hget] at hk
    by_cases hfar : st.tooFar rid = true
    · simp only [hfar, if_true] at hk
      exact hB k hk
    · simp only [hfar] at hk
      rcases Keyed.mem_keys_put.mp (evict_mem hk) with h | h
      · rw [RoundOp.apply_roundId] at h
        have h' : rid = k := h
        exact h' ▸ hacc (by simpa using hfar)
      · exact hB k h

/-- A write into the round `rid`, as the round itself sees it. -/
def written (far : Bool) (rid : Int) (rs : Option RoundState) (op : RoundOp) : Option RoundState :=
  match rs with
  | some rs => some (op.apply rs)
  | none => if far then none else some (op.apply { roundId := rid })

theorem perform_get? (hB : st.Bounded B) (hacc : st.tooFar rid = false → rid ≤ B)
    (hr : B < r + roundsCap) :
    (st.perform rid op).rounds.get? r =
      if rid = r then written (st.tooFar r) r (st.rounds.get? r) op else st.rounds.get? r := by
  unfold perform
  cases hget : st.rounds.get? rid with
  | some rs =>
    show (st.rounds.put (op.apply rs)).get? r = _
    rw [Keyed.get?_put, RoundOp.apply_roundId, Keyed.key_of_get? hget]
    by_cases hrid : rid = r
    · subst hrid
      simp [hget, written]
    · simp [hrid]
  | none =>
    by_cases hfar : st.tooFar rid = true
    · simp only [hfar, if_true]
      by_cases hrid : rid = r
      · subst hrid
        simp [hget, hfar, written]
      · simp [hrid]
    · simp only [hfar]
      have hfar' : st.tooFar rid = false := by simpa using hfar
      have hput : ∀ k ∈ (st.rounds.put (op.apply { roundId := rid })).keys, k ≤ B := by
        intro k hk
        rcases Keyed.mem_keys_put.mp hk with h | h
        · rw [RoundOp.apply_roundId] at h
          have h' : rid = k := h
          exact h' ▸ hacc hfar'
        · exact hB k h
      show (evict (st.rounds.put (op.apply { roundId := rid }))).get? r = _
      rw [evict_get? hput hr, Keyed.get?_put, RoundOp.apply_roundId]
      by_cases hrid : rid = r
      · subst hrid
        simp [hget, hfar', written]
      · simp [hrid]

/-- What is written into the round `r`. -/
def opsFor (r : Int) (ops : List (Int × RoundOp)) : List RoundOp :=
  ops.filterMap fun x => if x.1 = r then some x.2 else none

theorem performAll_bounded (hB : st.Bounded B) (hacc : st.Accepts B ops) :
    (st.performAll ops).Bounded B := by
  induction ops generalizing st with
  | nil => exact hB
  | cons x ops ih =>
    rw [performAll_cons]
    refine ih (perform_bounded hB (hacc x (by simp))) fun y hy hfar => ?_
    rw [perform_tooFar] at hfar
    exact hacc y (List.mem_cons_of_mem x hy) hfar

/-- A round above `B - roundsCap` holds what was written into it. -/
theorem performAll_get? (hB : st.Bounded B) (hacc : st.Accepts B ops) (hr : B < r + roundsCap) :
    (st.performAll ops).rounds.get? r =
      (opsFor r ops).foldl (written (st.tooFar r) r) (st.rounds.get? r) := by
  induction ops generalizing st with
  | nil => rfl
  | cons x ops ih =>
    have hx : st.tooFar x.1 = false → x.1 ≤ B := hacc x (by simp)
    have hrest : (st.perform x.1 x.2).Accepts B ops := by
      intro y hy hfar
      rw [perform_tooFar] at hfar
      exact hacc y (List.mem_cons_of_mem x hy) hfar
    rw [performAll_cons, ih (perform_bounded hB hx) hrest, perform_tooFar,
      perform_get? hB hx hr]
    by_cases hxr : x.1 = r
    · simp [opsFor, hxr]
    · simp [opsFor, hxr]

/-! ## Finalizing -/

variable [FtsoRules] {now ts : Int}

/-- `rs` is `raw` with its verdict; the rest of it is about the reward bands. -/
def Judged (ourSubmit : String) (raw rs : RoundState) : Prop :=
  ∃ results tally isNew, rs = { raw.check ourSubmit with
    iqrVotes := Dict.empty, iqrResults := results, iqrTally := tally, iqrTallyNew := isNew }

theorem scoreIqr_frame {rs : RoundState} {offer : Option OfferParams} :
    ∃ results, rs.scoreIqr offer = { rs with iqrVotes := Dict.empty, iqrResults := results } := by
  unfold RoundState.scoreIqr
  split
  · exact ⟨_, rfl⟩
  · exact ⟨rs.iqrResults, rfl⟩

omit [FtsoRules] in
theorem rememberTally_frame {t : IqrTally} :
    ∃ history rids, (st.rememberTally t).2 =
      { st with iqrHistory := history, iqrRids := rids } := by
  unfold rememberTally
  by_cases h : t.rid ∈ st.iqrRids
  · simp only [h, if_true]
    exact ⟨_, _, rfl⟩
  · simp only [h, if_false]
    exact ⟨_, _, rfl⟩

theorem finalizeRound_judged {raw : RoundState} :
    Judged st.ourSubmit raw (st.finalizeRound raw ts).1 := by
  obtain ⟨results, hscore⟩ := @scoreIqr_frame _ (raw.check st.ourSubmit) st.iqrOffer
  unfold finalizeRound
  rw [hscore]
  by_cases hempty : results.entries.isEmpty
  · simp only [hempty, if_true]
    exact ⟨_, _, _, rfl⟩
  · simp only [hempty]
    exact ⟨_, _, _, rfl⟩

/-- The state after a round got its verdict: the rounds in flight are as before. -/
theorem finalizeRound_frame {raw : RoundState} :
    ∃ finalized last history rids, (st.finalizeRound raw ts).2 = { st with
      finalized := finalized, lastRoundFinalized := last, iqrHistory := history,
      iqrRids := rids } := by
  unfold finalizeRound
  by_cases hempty : ((raw.check st.ourSubmit).scoreIqr st.iqrOffer).iqrResults.entries.isEmpty
  · simp only [hempty, if_true]
    exact ⟨_, _, _, _, rfl⟩
  · obtain ⟨history, rids, h⟩ := @rememberTally_frame st
      (((raw.check st.ourSubmit).scoreIqr st.iqrOffer).tallyOf ts)
    simp only [hempty, h]
    exact ⟨_, _, _, _, rfl⟩

theorem finalizeOne_absent {done : List RoundState} (h : st.rounds.get? r = none) :
    finalizeOne now (done, st) r = (done, st) := by
  simp [finalizeOne, h]

theorem finalizeOne_open {done : List RoundState} (hdue : st.factory.due r now = false) :
    finalizeOne now (done, st) r = (done, st) := by
  unfold finalizeOne
  simp only
  split
  · rfl
  · simp [hdue]

theorem finalizeOne_dropped {done : List RoundState} {raw : RoundState}
    (h : st.rounds.get? r = some raw) (hdue : st.factory.due r now = true)
    (hstart : st.factory.startS r < st.observeStartTs) :
    finalizeOne now (done, st) r = (done, { st with rounds := st.rounds.erase r }) := by
  simp [finalizeOne, h, hdue, hstart]

theorem finalizeOne_taken {done : List RoundState} {raw : RoundState}
    (h : st.rounds.get? r = some raw) (hdue : st.factory.due r now = true)
    (hstart : ¬ st.factory.startS r < st.observeStartTs) :
    finalizeOne now (done, st) r =
      (done ++ [(finalizeRound { st with rounds := st.rounds.erase r } raw now).1],
        (finalizeRound { st with rounds := st.rounds.erase r } raw now).2) := by
  simp [finalizeOne, h, hdue, hstart]

/-- What finalizing the rounds of the list `l` comes to. -/
structure SweptOver (l : List Int) (now : Int) (st : ObserverState)
    (done : List RoundState) (st' : ObserverState) : Prop where
  setup : st'.toObserverSetup = st.toObserverSetup
  lastTs : st'.lastTs = st.lastTs
  offer : st'.iqrOffer = st.iqrOffer
  weights : st'.iqrWeightMap = st.iqrWeightMap
  rounds : ∀ r, st'.rounds.get? r =
    if r ∈ l ∧ st.factory.due r now = true then none else st.rounds.get? r
  ids : done.map RoundState.roundId = l.filter fun r => decide (r ∈ st.rounds.keys) &&
    st.factory.due r now && decide (st.observeStartTs ≤ st.factory.startS r)
  judged : ∀ rs ∈ done, ∃ raw, st.rounds.get? rs.roundId = some raw ∧ Judged st.ourSubmit raw rs

theorem Judged.roundId {ourSubmit : String} {raw rs : RoundState} (h : Judged ourSubmit raw rs) :
    rs.roundId = raw.roundId := by
  obtain ⟨_, _, _, rfl⟩ := h
  rfl

/-- One round of the loop. -/
theorem finalizeOne_swept {done : List RoundState} :
    ∃ done', (finalizeOne now (done, st) r).1 = done ++ done' ∧
      SweptOver [r] now st done' (finalizeOne now (done, st) r).2 := by
  by_cases hdue : st.factory.due r now = true
  · cases hget : st.rounds.get? r with
    | none =>
      have hmem : r ∉ st.rounds.keys := Keyed.get?_eq_none.mp hget
      rw [finalizeOne_absent hget]
      refine ⟨[], by simp, rfl, rfl, rfl, rfl, fun k => ?_, by simp [hmem], by simp⟩
      by_cases hk : k = r
      · simp [hk, hget]
      · simp [hk]
    | some raw =>
      have hmem : r ∈ st.rounds.keys := Keyed.mem_keys.mpr ⟨raw, hget⟩
      have hrounds : ∀ k, (st.rounds.erase r).get? k =
          if k ∈ [r] ∧ st.factory.due k now = true then none else st.rounds.get? k := by
        intro k
        rw [Keyed.get?_erase]
        by_cases hk : k = r
        · simp [hk, hdue]
        · simp [hk, Ne.symm hk]
      by_cases hstart : st.factory.startS r < st.observeStartTs
      · rw [finalizeOne_dropped hget hdue hstart]
        exact ⟨[], by simp, rfl, rfl, rfl, rfl, hrounds, by simp; omega, by simp⟩
      · obtain ⟨_, _, _, _, hframe⟩ := @finalizeRound_frame
          { st with rounds := st.rounds.erase r } _ now raw
        have hjudged := @finalizeRound_judged { st with rounds := st.rounds.erase r } _ now raw
        have hid : raw.roundId = r := Keyed.key_of_get? hget
        rw [finalizeOne_taken hget hdue hstart, hframe]
        refine ⟨_, rfl, rfl, rfl, rfl, rfl, hrounds, ?_, fun rs hrs => ?_⟩
        · rw [List.filter_cons_of_pos (by simp [hmem, hdue]; omega), List.filter_nil]
          simp [hjudged.roundId, hid]
        · rw [List.mem_singleton] at hrs
          subst hrs
          exact ⟨raw, by rw [hjudged.roundId, hid, hget], hjudged⟩
  · have hdue' : st.factory.due r now = false := by simpa using hdue
    rw [finalizeOne_open hdue']
    refine ⟨[], by simp, rfl, rfl, rfl, rfl, fun k => ?_, by simp [hdue'], by simp⟩
    by_cases hk : k = r
    · simp [hk, hdue']
    · simp [hk]

/-- The loop over a list of rounds. -/
theorem foldl_finalizeOne_swept {l : List Int} (hl : l.Nodup) {done : List RoundState} :
    ∃ done', (l.foldl (finalizeOne now) (done, st)).1 = done ++ done' ∧
      SweptOver l now st done' (l.foldl (finalizeOne now) (done, st)).2 := by
  induction l generalizing st done with
  | nil => exact ⟨[], by simp, rfl, rfl, rfl, rfl, by simp, by simp, by simp⟩
  | cons r l ih =>
    obtain ⟨hr, hl⟩ := List.nodup_cons.mp hl
    obtain ⟨done₁, hdone₁, h₁⟩ := @finalizeOne_swept st r _ now done
    generalize hstep : finalizeOne now (done, st) r = step at hdone₁ h₁
    obtain ⟨acc, st₁⟩ := step
    subst hdone₁
    obtain ⟨done₂, hdone₂, h₂⟩ := @ih st₁ hl (done ++ done₁)
    have hfactory : st₁.factory = st.factory := congrArg ObserverSetup.factory h₁.setup
    have hstart : st₁.observeStartTs = st.observeStartTs :=
      congrArg ObserverSetup.observeStartTs h₁.setup
    -- the rounds that are still to come are as they were
    have hkeep : ∀ k ∈ l, st₁.rounds.get? k = st.rounds.get? k := by
      intro k hk
      have hkr : k ≠ r := fun h => hr (h ▸ hk)
      rw [h₁.rounds]
      simp [hkr]
    rw [List.foldl_cons, hstep]
    refine ⟨done₁ ++ done₂, by rw [hdone₂, List.append_assoc], ?_, ?_, ?_, ?_, ?_, ?_, ?_⟩
    · rw [h₂.setup, h₁.setup]
    · rw [h₂.lastTs, h₁.lastTs]
    · rw [h₂.offer, h₁.offer]
    · rw [h₂.weights, h₁.weights]
    · intro k
      rw [h₂.rounds, h₁.rounds, hfactory]
      by_cases hdue : st.factory.due k now = true
      · simp only [hdue, and_true, List.mem_cons]
        by_cases hkl : k ∈ l <;> simp [hkl]
      · simp [hdue]
    · rw [List.map_append, h₁.ids, h₂.ids, hfactory, hstart]
      have htail : l.filter (fun k => decide (k ∈ st₁.rounds.keys) && st.factory.due k now &&
            decide (st.observeStartTs ≤ st.factory.startS k)) =
          l.filter (fun k => decide (k ∈ st.rounds.keys) && st.factory.due k now &&
            decide (st.observeStartTs ≤ st.factory.startS k)) := by
        refine List.filter_congr fun k hk => ?_
        have hmem : k ∈ st₁.rounds.keys ↔ k ∈ st.rounds.keys := by
          rw [Keyed.mem_keys, Keyed.mem_keys, hkeep k hk]
        simp only [hmem]
      rw [htail, ← List.filter_append]
      rfl
    · intro rs hrs
      rcases List.mem_append.mp hrs with h | h
      · exact h₁.judged rs h
      · obtain ⟨raw, hraw, hjudged⟩ := h₂.judged rs h
        have hid : rs.roundId ∈ l := by
          have hmap := List.mem_map_of_mem (f := RoundState.roundId) h
          rw [h₂.ids] at hmap
          exact (List.mem_filter.mp hmap).1
        rw [congrArg ObserverSetup.ourSubmit h₁.setup] at hjudged
        exact ⟨raw, by rw [← hkeep _ hid, hraw], hjudged⟩

/-- What the end of a block with the time `ts` comes to. -/
structure Swept (st : ObserverState) (ts : Int) (done : List RoundState) (st' : ObserverState) :
    Prop where
  setup : st'.toObserverSetup = st.toObserverSetup
  lastTs : st'.lastTs = some ts
  offer : st'.iqrOffer = st.iqrOffer
  weights : st'.iqrWeightMap = st.iqrWeightMap
  /-- What is due leaves, the rest stays as it is. -/
  rounds : ∀ r, st'.rounds.get? r =
    if st.factory.due r ts = true then none else st.rounds.get? r
  /-- What is due is finalized, unless it began before the first block. -/
  count : ∀ r, (done.map RoundState.roundId).count r =
    if r ∈ st.rounds.keys ∧ st.factory.due r ts = true ∧
      st.observeStartTs ≤ st.factory.startS r then 1 else 0
  judged : ∀ rs ∈ done, ∃ raw, st.rounds.get? rs.roundId = some raw ∧ Judged st.ourSubmit raw rs

theorem sweep_swept : Swept st ts (st.sweep ts).1 (st.sweep ts).2 := by
  let l := st.rounds.keys.insertionSort (· ≤ ·)
  have hperm : l.Perm st.rounds.keys := List.perm_insertionSort (· ≤ ·) st.rounds.keys
  have hl : l.Nodup := hperm.nodup_iff.mpr Keyed.keys_nodup
  obtain ⟨done, hdone, h⟩ :=
    @foldl_finalizeOne_swept { st with lastTs := some ts } _ ts l hl []
  have hsweep : (st.sweep ts).1 = done := by
    show (finalizeDue { st with lastTs := some ts } ts).1 = done
    exact hdone
  rw [hsweep]
  refine ⟨h.setup, h.lastTs, h.offer, h.weights, fun r => ?_, fun r => ?_, h.judged⟩
  · refine (h.rounds r).trans ?_
    by_cases hdue : st.factory.due r ts = true
    · by_cases hr : r ∈ l
      · simp [hdue, hr]
      · have hnone : st.rounds.get? r = none :=
          Keyed.get?_eq_none.mpr fun hmem => hr (hperm.mem_iff.mpr hmem)
        simp [hdue, hr, hnone]
    · simp [hdue]
  · rw [h.ids]
    by_cases hr : r ∈ st.rounds.keys ∧ st.factory.due r ts = true ∧
        st.observeStartTs ≤ st.factory.startS r
    · rw [if_pos hr]
      refine List.count_eq_one_of_mem (hl.filter _) (List.mem_filter.mpr ⟨?_, ?_⟩)
      · exact hperm.mem_iff.mpr hr.1
      · simp [hr.1, hr.2.1, hr.2.2]
    · rw [if_neg hr]
      refine List.count_eq_zero_of_not_mem fun hmem => hr ?_
      have hcond := (List.mem_filter.mp hmem).2
      simp only [Bool.and_eq_true, decide_eq_true_eq] at hcond
      exact ⟨hcond.1.1, hcond.1.2, hcond.2⟩

/-- What is finalized was in flight and due, and began after the first block. -/
theorem Swept.mem {done : List RoundState} {st' : ObserverState} (h : Swept st ts done st')
    {rs : RoundState} (hrs : rs ∈ done) :
    rs.roundId ∈ st.rounds.keys ∧ st.factory.due rs.roundId ts = true ∧
      st.observeStartTs ≤ st.factory.startS rs.roundId := by
  have hmem : rs.roundId ∈ done.map RoundState.roundId := List.mem_map_of_mem hrs
  have hpos := List.count_pos_iff.mpr hmem
  rw [h.count] at hpos
  by_contra hnot
  rw [if_neg hnot] at hpos
  cases hpos

end ObserverState

end Clif.Observe
