import Clif.Observe.Rounds

/-!
# Observe.Calls — any sequence of calls of an observer

What an observer holds stays bounded, whatever is recorded in it and in whatever order:
`calls_contained`.
-/

namespace Clif.Observe

/-- The calls that change an observer, and what the engine sets between them. -/
inductive ObserverCall where
  | record (d : Decoded) (fromAddr : String) (txTs : Int)
  | recordRevealValues (roundId : Int) (fromLc : String) (values : List (Option Int))
  | recordFdcRequest (roundId : Int)
  | recordRoundFu (roundId : Int)
  | finalizeDue (now : Int)
  | seedIqrHistory (tallies : List IqrTally)
  | setLastTs (ts : Int)
  | setIqrContext (offer : OfferParams) (weights : Dict String Int)

/-- What a `deque` keeps is what was put in last. -/
theorem lastOf_snoc {α : Type} {n : Nat} {l : List α} {a : α} (hlen : l.length ≤ n) (hpos : 0 < n) :
    lastOf n (l ++ [a]) = (if l.length < n then l else l.tail) ++ [a] := by
  unfold lastOf
  rw [List.length_append, List.length_singleton]
  by_cases hlt : l.length < n
  · rw [if_pos hlt, show l.length + 1 - n = 0 by omega, List.drop_zero]
  · rw [if_neg hlt, show l.length + 1 - n = 1 by omega, List.drop_append_of_le_length (by omega),
      List.drop_one]

namespace ObserverState

/-- The maximal length of `iqr_history`. -/
def historyMax : Nat := (vrsPerRewardEpoch + 240).toNat

theorem historyMax_pos : 0 < historyMax := by decide

variable {st : ObserverState} {rid : Int} {op : RoundOp}

/-! ## The rounds in flight -/

theorem evict_length {rounds : InFlight} (h : rounds.keys.length ≤ roundsCap + 1) :
    (evict rounds).keys.length ≤ roundsCap := by
  unfold evict
  by_cases hcap : roundsCap < rounds.keys.length
  · rw [if_pos hcap]
    cases hmin : rounds.keys.min? with
    | none =>
      have hnil : rounds.keys = [] := List.min?_eq_none_iff.mp hmin
      rw [hnil] at hcap
      cases hcap
    | some k =>
      have hmem : k ∈ rounds.keys := (List.min?_eq_some_iff.mp hmin).1
      have hlt : (rounds.keys.filter fun j => j ≠ k).length < rounds.keys.length := by
        refine List.length_filter_lt_length_iff_exists.mpr ⟨k, hmem, ?_⟩
        simp
      show (rounds.erase k).keys.length ≤ roundsCap
      rw [Keyed.keys_erase]
      omega
  · rw [if_neg hcap]
    omega

theorem perform_length (h : st.rounds.keys.length ≤ roundsCap) :
    (st.perform rid op).rounds.keys.length ≤ roundsCap := by
  unfold perform
  cases hget : st.rounds.get? rid with
  | some rs =>
    have hmem : (op.apply rs).roundId ∈ st.rounds.keys := by
      rw [RoundOp.apply_roundId, Keyed.key_of_get? hget]
      exact Keyed.mem_keys.mpr ⟨rs, hget⟩
    show (st.rounds.put (op.apply rs)).keys.length ≤ roundsCap
    rw [Keyed.keys_put, if_pos hmem]
    exact h
  | none =>
    by_cases hfar : st.tooFar rid = true
    · simp only [hfar, if_true]
      exact h
    · simp only [hfar]
      refine evict_length ?_
      rw [Keyed.keys_put]
      split
      · omega
      · rw [List.length_append, List.length_singleton]
        omega

theorem performAll_length {ops : List (Int × RoundOp)} (h : st.rounds.keys.length ≤ roundsCap) :
    (st.performAll ops).rounds.keys.length ≤ roundsCap := by
  induction ops generalizing st with
  | nil => exact h
  | cons x ops ih =>
    rw [performAll_cons]
    exact ih (perform_length h)

/-! ## The history of the tallies -/

/-- The history has no round twice, and the guard against that knows exactly its rounds. -/
structure Deduped (st : ObserverState) : Prop where
  length : st.iqrHistory.length ≤ historyMax
  nodup : (st.iqrHistory.map IqrTally.rid).Nodup
  rids : st.iqrRids = (st.iqrHistory.map IqrTally.rid).toFinset

theorem Deduped.mem_rids (h : st.Deduped) {r : Int} :
    r ∈ st.iqrRids ↔ r ∈ st.iqrHistory.map IqrTally.rid := by
  rw [h.rids, List.mem_toFinset]

theorem Deduped.card (h : st.Deduped) : st.iqrRids.card = st.iqrHistory.length := by
  rw [h.rids, List.toFinset_card_of_nodup h.nodup, List.length_map]

/-- A tally of a round that is in the history is not counted again. -/
theorem Deduped.known (h : st.Deduped) {t : IqrTally}
    (ht : t.rid ∈ st.iqrHistory.map IqrTally.rid) : st.rememberTally t = (false, st) := by
  unfold rememberTally
  exact if_pos (h.mem_rids.mpr ht)

/-- The guard is made anew as soon as it has one more than the history can hold. -/
theorem Deduped.rememberTally (h : st.Deduped) (t : IqrTally) :
    (st.rememberTally t).2.Deduped := by
  by_cases ht : t.rid ∈ st.iqrRids
  · rw [h.known (h.mem_rids.mp ht)]
    exact h
  · have hnew : t.rid ∉ st.iqrHistory.map IqrTally.rid := fun hmem => ht (h.mem_rids.mpr hmem)
    have hcard : (insert t.rid st.iqrRids).card = st.iqrHistory.length + 1 := by
      rw [Finset.card_insert_of_notMem ht, h.card]
    have hlast := @lastOf_snoc _ historyMax st.iqrHistory t h.length historyMax_pos
    have hstate : (st.rememberTally t).2 = { st with
        iqrHistory := lastOf historyMax (st.iqrHistory ++ [t])
        iqrRids :=
          if historyMax < (insert t.rid st.iqrRids).card then
            ((lastOf historyMax (st.iqrHistory ++ [t])).map IqrTally.rid).toFinset
          else insert t.rid st.iqrRids } := by
      unfold ObserverState.rememberTally
      rw [if_neg ht]
      rfl
    rw [hstate, hcard, hlast]
    by_cases hlt : st.iqrHistory.length < historyMax
    · rw [if_pos hlt, if_neg (by omega)]
      refine ⟨?_, ?_, ?_⟩
      · show (st.iqrHistory ++ [t]).length ≤ historyMax
        rw [List.length_append, List.length_singleton]
        omega
      · show ((st.iqrHistory ++ [t]).map IqrTally.rid).Nodup
        rw [List.map_append]
        refine h.nodup.append (List.nodup_singleton _) ?_
        exact List.disjoint_singleton.mpr hnew
      · show insert t.rid st.iqrRids = ((st.iqrHistory ++ [t]).map IqrTally.rid).toFinset
        rw [h.rids, List.map_append, List.toFinset_append]
        ext r
        simp
    · -- the oldest tally falls out
      have hlen : st.iqrHistory.length = historyMax := by
        have := h.length
        omega
      rw [if_neg hlt, if_pos (by omega)]
      refine ⟨?_, ?_, rfl⟩
      · show (st.iqrHistory.tail ++ [t]).length ≤ historyMax
        have hpos := historyMax_pos
        rw [List.length_append, List.length_singleton, List.length_tail]
        omega
      · show ((st.iqrHistory.tail ++ [t]).map IqrTally.rid).Nodup
        rw [List.map_append, List.map_tail]
        refine h.nodup.tail.append (List.nodup_singleton _) ?_
        exact List.disjoint_singleton.mpr fun hmem => hnew (List.mem_of_mem_tail hmem)

theorem Deduped.seed (h : st.Deduped) (tallies : List IqrTally) :
    (st.seedIqrHistory tallies).Deduped := by
  induction tallies generalizing st with
  | nil => exact h
  | cons t tallies ih => exact ih (h.rememberTally t)

theorem Deduped.congr (h : st.Deduped) {st' : ObserverState}
    (hhistory : st'.iqrHistory = st.iqrHistory) (hrids : st'.iqrRids = st.iqrRids) :
    st'.Deduped where
  length := by
    rw [hhistory]
    exact h.length
  nodup := by
    rw [hhistory]
    exact h.nodup
  rids := by
    rw [hrids, hhistory]
    exact h.rids

/-! ## The calls -/

/-- An observer within its bounds. -/
structure Contained (st : ObserverState) : Prop extends st.Deduped where
  inFlight : st.rounds.keys.length ≤ roundsCap

theorem Contained.performAll (h : st.Contained) (ops : List (Int × RoundOp)) :
    (st.performAll ops).Contained where
  toDeduped := by
    refine h.toDeduped.congr ?_ ?_
    · rw [performAll_eq]
    · rw [performAll_eq]
  inFlight := performAll_length h.inFlight

theorem Contained.perform (h : st.Contained) : (st.perform rid op).Contained :=
  h.performAll [(rid, op)]

theorem Contained.erase (h : st.Contained) (k : Int) :
    { st with rounds := st.rounds.erase k }.Contained where
  toDeduped := h.toDeduped.congr rfl rfl
  inFlight := by
    show (st.rounds.erase k).keys.length ≤ roundsCap
    rw [Keyed.keys_erase]
    exact (List.length_filter_le _ _).trans h.inFlight

theorem seedIqrHistory_rounds {tallies : List IqrTally} :
    (st.seedIqrHistory tallies).rounds = st.rounds := by
  unfold seedIqrHistory
  induction tallies generalizing st with
  | nil => rfl
  | cons t tallies ih =>
    obtain ⟨history, rids, heq⟩ := @rememberTally_frame st t
    rw [List.foldl_cons, ih, heq]

variable [FtsoRules] {now ts : Int}

theorem Contained.finalizeRound (h : st.Contained) (raw : RoundState) :
    (st.finalizeRound raw ts).2.Contained := by
  unfold ObserverState.finalizeRound
  by_cases hempty : ((raw.check st.ourSubmit).scoreIqr st.iqrOffer).iqrResults.entries.isEmpty
  · simp only [hempty, if_true]
    exact ⟨h.toDeduped.congr rfl rfl, h.inFlight⟩
  · simp only [hempty]
    have hstep := h.toDeduped.rememberTally
      (((raw.check st.ourSubmit).scoreIqr st.iqrOffer).tallyOf ts)
    obtain ⟨history, rids, heq⟩ := @rememberTally_frame st
      (((raw.check st.ourSubmit).scoreIqr st.iqrOffer).tallyOf ts)
    rw [heq] at hstep
    simp only [heq]
    exact ⟨hstep.congr rfl rfl, h.inFlight⟩

theorem Contained.finalizeOne (h : st.Contained) (done : List RoundState) (r : Int) :
    (finalizeOne now (done, st) r).2.Contained := by
  by_cases hdue : st.factory.due r now = true
  · cases hget : st.rounds.get? r with
    | none =>
      rw [finalizeOne_absent hget]
      exact h
    | some raw =>
      by_cases hstart : st.factory.startS r < st.observeStartTs
      · rw [finalizeOne_dropped hget hdue hstart]
        exact h.erase r
      · rw [finalizeOne_taken hget hdue hstart]
        exact (h.erase r).finalizeRound raw
  · rw [finalizeOne_open (by simpa using hdue)]
    exact h

theorem Contained.foldl_finalizeOne (h : st.Contained) (rs : List Int) (done : List RoundState) :
    (rs.foldl (ObserverState.finalizeOne now) (done, st)).2.Contained := by
  induction rs generalizing st done with
  | nil => exact h
  | cons r rs ih => exact ih (h.finalizeOne done r) _

/-- The rounds that the call finalizes, and the observer after it. -/
def call (st : ObserverState) : ObserverCall → List RoundState × ObserverState
  | .record d fromAddr txTs => ([], st.record d fromAddr txTs)
  | .recordRevealValues roundId fromLc values => ([], st.recordRevealValues roundId fromLc values)
  | .recordFdcRequest roundId => ([], st.recordFdcRequest roundId)
  | .recordRoundFu roundId => ([], st.recordRoundFu roundId)
  | .finalizeDue now => st.finalizeDue now
  | .seedIqrHistory tallies => ([], st.seedIqrHistory tallies)
  | .setLastTs ts => ([], { st with lastTs := some ts })
  | .setIqrContext offer weights =>
    ([], { st with iqrOffer := some offer, iqrWeightMap := weights })

def callNext (x : List RoundState × ObserverState) (c : ObserverCall) :
    List RoundState × ObserverState := (x.1 ++ (x.2.call c).1, (x.2.call c).2)

/-- The calls one after the other. -/
def calls (st : ObserverState) (cs : List ObserverCall) : List RoundState × ObserverState :=
  cs.foldl callNext ([], st)

theorem calls_snoc {cs : List ObserverCall} {c : ObserverCall} :
    st.calls (cs ++ [c]) = callNext (st.calls cs) c := by
  unfold calls
  rw [List.foldl_append]
  rfl

theorem Contained.call (h : st.Contained) (c : ObserverCall) : (st.call c).2.Contained := by
  cases c with
  | record d fromAddr txTs => exact h.performAll _
  | recordRevealValues roundId fromLc values => exact h.perform
  | recordFdcRequest roundId => exact h.perform
  | recordRoundFu roundId => exact h.perform
  | finalizeDue now => exact h.foldl_finalizeOne _ _
  | seedIqrHistory tallies =>
    refine ⟨h.toDeduped.seed tallies, ?_⟩
    show (st.seedIqrHistory tallies).rounds.keys.length ≤ roundsCap
    rw [seedIqrHistory_rounds]
    exact h.inFlight
  | setLastTs ts => exact ⟨h.toDeduped.congr rfl rfl, h.inFlight⟩
  | setIqrContext offer weights => exact ⟨h.toDeduped.congr rfl rfl, h.inFlight⟩

theorem contained_calls (h : st.Contained) (cs : List ObserverCall) :
    (st.calls cs).2.Contained := by
  induction cs using List.reverseRecOn with
  | nil => exact h
  | append_singleton cs c ih =>
    rw [calls_snoc]
    exact ih.call c

end ObserverState

/-- Whatever is called, an observer stays within its bounds, and no tally in its history is
counted twice. -/
theorem calls_contained [FtsoRules] (setup : ObserverSetup) (cs : List ObserverCall) :
    let st := (ObserverState.calls { toObserverSetup := setup } cs).2
    st.rounds.keys.length ≤ 512 ∧
    (st.iqrHistory.map IqrTally.rid).Nodup ∧
    st.iqrHistory.length ≤ (vrsPerRewardEpoch + 240).toNat ∧
    st.iqrRids = (st.iqrHistory.map IqrTally.rid).toFinset ∧
    ∀ t : IqrTally, t.rid ∈ st.iqrHistory.map IqrTally.rid → st.rememberTally t = (false, st) := by
  intro st
  have hempty : ({ toObserverSetup := setup } : ObserverState).Contained :=
    ⟨⟨Nat.zero_le _, List.nodup_nil, rfl⟩, Nat.zero_le _⟩
  have h : st.Contained := ObserverState.contained_calls hempty cs
  exact ⟨h.inFlight, h.nodup, h.length, h.rids, fun t ht => h.known ht⟩

end Clif.Observe
