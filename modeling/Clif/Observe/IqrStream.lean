import Clif.Observe.Calls
import Clif.Observe.IqrScore

/-!
# Observe.IqrStream — the streaming scorer of the reward bands

A reveal is written into its round when it comes, and the round is scored when it is finalized.
However the reveals of the rounds are mixed, the totals are those of the batch scorer:
`streaming_eq_batch`.
-/

namespace Clif.Observe

/-! ## The reveals that are delivered -/

def callReveals : ObserverCall → List Reveal
  | .recordRevealValues r fromLc values => [⟨r, fromLc, values⟩]
  | _ => []

/-- The reveals of a round, in the order in which they come. -/
def revealsOf (cs : List ObserverCall) (r : Int) : List Reveal :=
  (cs.flatMap callReveals).filter fun rv => rv.round = r

/-- A reveal comes before its round is finalized, and is not too far ahead; the offer and the
weights stay. -/
def BeforeFinal (x : List RoundState × ObserverState) : ObserverCall → Prop
  | .recordRevealValues r _ _ => x.2.tooFar r = false ∧ r ∉ x.1.map RoundState.roundId
  | .setIqrContext _ _ => False
  | _ => True

/-- Every reveal is in time, and at no moment the cap of the rounds in flight is reached. -/
def Delivered [FtsoRules] (x : List RoundState × ObserverState) : List ObserverCall → Prop
  | [] => True
  | c :: cs => BeforeFinal x c ∧
      (ObserverState.callNext x c).2.rounds.keys.length < roundsCap ∧
      Delivered (ObserverState.callNext x c) cs

/-- An observer that scores, before its first call. -/
def ObserverSetup.scoring (setup : ObserverSetup) (offer : OfferParams)
    (weights : Dict String Int) : ObserverState where
  toObserverSetup := setup
  iqrOffer := some offer
  iqrWeightMap := weights

/-! ## One round in flight -/

/-- The round holds what the reveals `rvs` bring, and nothing is scored yet. -/
structure Collected (weights : Dict String Int) (ap : String) (rvs : List Reveal)
    (rs : RoundState) : Prop where
  votes : ∀ i, (rs.iqrVotes.get? i).getD [] = votesOn weights rvs i
  own : rs.iqrApValues = ownValues ap rvs
  results : rs.iqrResults = Dict.empty

section

variable {weights : Dict String Int} {ap : String} {rvs : List Reveal} {rs : RoundState}

theorem collected_new {rid : Int} : Collected weights ap [] { roundId := rid } :=
  ⟨fun _ => rfl, rfl, rfl⟩

theorem Collected.reveal (h : Collected weights ap rvs rs) (rv : Reveal)
    (hweights : ∀ a w, weights.get? a = some w → 0 < w) :
    Collected weights ap (rvs ++ [rv])
      ((RoundOp.reveal (rv.fromLc == ap) (weights.get? rv.fromLc) rv.values).apply rs) where
  votes i := by
    rw [votesOn_append, ← h.votes i]
    unfold RoundOp.apply votesOn
    simp only [List.flatMap_cons, List.flatMap_nil, List.append_nil]
    cases hw : weights.get? rv.fromLc with
    | none => simp
    | some w =>
      have hpos : w ≠ 0 := (hweights _ w hw).ne'
      dsimp only
      rw [if_pos hpos, addVotes_get?, if_pos (Nat.zero_le i), Nat.sub_zero]
  own := by
    rw [ownValues_snoc]
    unfold RoundOp.apply
    dsimp only
    by_cases hown : rv.fromLc = ap
    · rw [if_pos hown, if_pos (by simpa using hown)]
    · rw [if_neg hown, if_neg (by simpa using hown)]
      exact h.own
  results := h.results

/-- The write does not touch the scoring. -/
def RoundOp.Quiet (op : RoundOp) : Prop := ∀ rs : RoundState, (op.apply rs).iqrVotes = rs.iqrVotes ∧
  (op.apply rs).iqrApValues = rs.iqrApValues ∧ (op.apply rs).iqrResults = rs.iqrResults

theorem Collected.quiet (h : Collected weights ap rvs rs) {op : RoundOp} (hop : op.Quiet) :
    Collected weights ap rvs (op.apply rs) := by
  obtain ⟨hvotes, hown, hresults⟩ := hop rs
  refine ⟨?_, ?_, ?_⟩
  · rw [hvotes]
    exact h.votes
  · rw [hown]
    exact h.own
  · rw [hresults]
    exact h.results

end

namespace ObserverState

variable {st : ObserverState} {rid r : Int} {op : RoundOp}

/-! ## Writes that evict nothing -/

theorem evict_eq {rounds : InFlight} (h : (evict rounds).keys.length < roundsCap) :
    evict rounds = rounds := by
  unfold evict at h ⊢
  by_cases hcap : roundsCap < rounds.keys.length
  · cases hmin : rounds.keys.min? with
    | none =>
      rw [List.min?_eq_none_iff.mp hmin] at hcap
      cases hcap
    | some k =>
      rw [if_pos hcap, hmin] at h
      have hmem : k ∈ rounds.keys := (List.min?_eq_some_iff.mp hmin).1
      have herase : (rounds.erase k).keys = rounds.keys.erase k := by
        rw [Keyed.keys_erase, rounds.keys_nodup.erase_eq_filter]
        refine List.filter_congr fun j _ => ?_
        by_cases hj : j = k
        · simp [hj]
        · simp [hj]
      have hlen : (rounds.erase k).keys.length < roundsCap := h
      rw [herase, List.length_erase_of_mem hmem] at hlen
      omega
  · rw [if_neg hcap]

/-- Below the cap a write goes to its round alone. -/
theorem perform_lookup (h : (st.perform rid op).rounds.keys.length < roundsCap) :
    (st.perform rid op).rounds.get? r =
      if rid = r then
        match st.rounds.get? rid with
        | some rs => some (op.apply rs)
        | none => if st.tooFar rid then none else some (op.apply { roundId := rid })
      else st.rounds.get? r := by
  unfold perform at h ⊢
  cases hget : st.rounds.get? rid with
  | some rs =>
    show (st.rounds.put (op.apply rs)).get? r = _
    rw [Keyed.get?_put, RoundOp.apply_roundId, Keyed.key_of_get? hget]
  | none =>
    rw [hget] at h
    by_cases hfar : st.tooFar rid = true
    · simp only [hfar, if_true]
      by_cases hr : rid = r
      · rw [if_pos hr, ← hr, hget]
      · rw [if_neg hr]
    · simp only [hfar] at h ⊢
      show (evict (st.rounds.put (op.apply { roundId := rid }))).get? r = _
      rw [evict_eq h, Keyed.get?_put, RoundOp.apply_roundId]
      rfl

/-- A write does not lead back below the cap. -/
theorem length_of_perform (h : (st.perform rid op).rounds.keys.length < roundsCap) :
    st.rounds.keys.length < roundsCap := by
  refine lt_of_le_of_lt (List.Subperm.length_le ?_) h
  refine st.rounds.keys_nodup.subperm fun k hk => ?_
  obtain ⟨rs, hrs⟩ := Keyed.mem_keys.mp hk
  refine Keyed.mem_keys.mpr ?_
  rw [perform_lookup h]
  by_cases hr : rid = k
  · rw [if_pos hr, hr, hrs]
    exact ⟨_, rfl⟩
  · rw [if_neg hr]
    exact ⟨rs, hrs⟩

theorem length_of_performAll {ops : List (Int × RoundOp)}
    (h : (st.performAll ops).rounds.keys.length < roundsCap) :
    st.rounds.keys.length < roundsCap := by
  induction ops generalizing st with
  | nil => exact h
  | cons x ops ih => exact length_of_perform (ih h)

end ObserverState

/-! ## The run of an observer -/

section

variable [FtsoRules] {offer : OfferParams} {weights : Dict String Int} {setup : ObserverSetup}

/-- The observer has scored every finalized round from the reveals `seen` of it, and holds them for
the others. -/
structure Tracked (setup : ObserverSetup) (offer : OfferParams) (weights : Dict String Int)
    (seen : Int → List Reveal) (x : List RoundState × ObserverState) : Prop where
  sameSetup : x.2.toObserverSetup = setup
  sameOffer : x.2.iqrOffer = some offer
  sameWeights : x.2.iqrWeightMap = weights
  collected : ∀ r rs, x.2.rounds.get? r = some rs →
    setup.observeStartTs ≤ setup.factory.startS r → r ∉ x.1.map RoundState.roundId →
      Collected weights setup.submitLc (seen r) rs
  again : ∀ r rs, x.2.rounds.get? r = some rs → r ∈ x.1.map RoundState.roundId →
    rs.iqrApValues = none ∧ rs.iqrResults = Dict.empty
  fresh : ∀ r, x.2.rounds.get? r = none → setup.observeStartTs ≤ setup.factory.startS r →
    r ∉ x.1.map RoundState.roundId → seen r = []
  scored : ∀ r ∈ x.1.map RoundState.roundId, ∀ name ∈ offer.feeds,
    (x.1.filter fun rs => rs.roundId = r).filterMap (fun rs => rs.iqrResults.get? name) =
      (scannedResult offer weights setup.submitLc (seen r) name).toList

variable {seen : Int → List Reveal} {done : List RoundState} {st st' : ObserverState}

theorem Tracked.sameFactory (h : Tracked setup offer weights seen (done, st)) :
    st.factory = setup.factory := congrArg ObserverSetup.factory h.sameSetup

theorem Tracked.sameStart (h : Tracked setup offer weights seen (done, st)) :
    st.observeStartTs = setup.observeStartTs := congrArg ObserverSetup.observeStartTs h.sameSetup

theorem Tracked.sameSubmit (h : Tracked setup offer weights seen (done, st)) :
    st.submitLc = setup.submitLc := congrArg ObserverSetup.submitLc h.sameSetup

theorem Tracked.congr (h : Tracked setup offer weights seen (done, st))
    (hsetup : st'.toObserverSetup = st.toObserverSetup) (hoffer : st'.iqrOffer = st.iqrOffer)
    (hweights : st'.iqrWeightMap = st.iqrWeightMap) (hrounds : st'.rounds = st.rounds) :
    Tracked setup offer weights seen (done, st') where
  sameSetup := hsetup.trans h.sameSetup
  sameOffer := hoffer.trans h.sameOffer
  sameWeights := hweights.trans h.sameWeights
  collected r rs hget := h.collected r rs (by rw [← hget, hrounds])
  again r rs hget := h.again r rs (by rw [← hget, hrounds])
  fresh r hget := h.fresh r (by rw [← hget, hrounds])
  scored := h.scored

/-- A write into the round `rid`, which makes of what was seen of it what `seen'` says. -/
theorem Tracked.write (h : Tracked setup offer weights seen (done, st)) {rid : Int} {op : RoundOp}
    (hcap : (st.perform rid op).rounds.keys.length < roundsCap) {seen' : Int → List Reveal}
    (hother : ∀ r, rid ≠ r → seen' r = seen r)
    (hkept : rid ∈ done.map RoundState.roundId ∨ st.tooFar rid = true → seen' rid = seen rid)
    (hopen : ∀ rs, Collected weights setup.submitLc (seen rid) rs →
      Collected weights setup.submitLc (seen' rid) (op.apply rs))
    (hdone : rid ∈ done.map RoundState.roundId → op.Quiet) :
    Tracked setup offer weights seen' (done, st.perform rid op) := by
  have hlookup := fun r => @ObserverState.perform_lookup st rid r op hcap
  refine ⟨?_, ?_, ?_, fun r rs hget hstart hnot => ?_, fun r rs hget hmem => ?_,
    fun r hget hstart hnot => ?_, fun r hmem name hname => ?_⟩
  · rw [ObserverState.perform_eq]
    exact h.sameSetup
  · rw [ObserverState.perform_eq]
    exact h.sameOffer
  · rw [ObserverState.perform_eq]
    exact h.sameWeights
  · rw [hlookup r] at hget
    by_cases hr : rid = r
    · subst hr
      rw [if_pos rfl] at hget
      cases hraw : st.rounds.get? rid with
      | some raw =>
        rw [hraw] at hget
        cases hget
        exact hopen raw (h.collected rid raw hraw hstart hnot)
      | none =>
        rw [hraw] at hget
        dsimp only at hget
        split at hget
        · cases hget
        · cases hget
          refine hopen _ ?_
          rw [h.fresh rid hraw hstart hnot]
          exact collected_new
    · rw [if_neg hr] at hget
      rw [hother r hr]
      exact h.collected r rs hget hstart hnot
  · rw [hlookup r] at hget
    by_cases hr : rid = r
    · subst hr
      rw [if_pos rfl] at hget
      cases hraw : st.rounds.get? rid with
      | some raw =>
        rw [hraw] at hget
        cases hget
        obtain ⟨-, hown, hresults⟩ := hdone hmem raw
        rw [hown, hresults]
        exact h.again rid raw hraw hmem
      | none =>
        rw [hraw] at hget
        dsimp only at hget
        split at hget
        · cases hget
        · cases hget
          obtain ⟨-, hown, hresults⟩ := hdone hmem { roundId := rid }
          exact ⟨hown, hresults⟩
    · rw [if_neg hr] at hget
      exact h.again r rs hget hmem
  · rw [hlookup r] at hget
    by_cases hr : rid = r
    · subst hr
      rw [if_pos rfl] at hget
      cases hraw : st.rounds.get? rid with
      | some raw =>
        rw [hraw] at hget
        cases hget
      | none =>
        rw [hraw] at hget
        dsimp only at hget
        split at hget
        · rename_i hfar
          rw [hkept (.inr hfar)]
          exact h.fresh rid hraw hstart hnot
        · cases hget
    · rw [if_neg hr] at hget
      rw [hother r hr]
      exact h.fresh r hget hstart hnot
  · have hsame : seen' r = seen r := by
      by_cases hr : rid = r
      · subst hr
        exact hkept (.inl hmem)
      · exact hother r hr
    rw [hsame]
    exact h.scored r hmem name hname

/-- A write that is no reveal. -/
theorem Tracked.quiet (h : Tracked setup offer weights seen (done, st)) {rid : Int} {op : RoundOp}
    (hop : op.Quiet) (hcap : (st.perform rid op).rounds.keys.length < roundsCap) :
    Tracked setup offer weights seen (done, st.perform rid op) :=
  h.write hcap (fun _ _ => rfl) (fun _ => rfl) (fun _ hrs => hrs.quiet hop) fun _ => hop

theorem Tracked.quietAll {ops : List (Int × RoundOp)}
    (h : Tracked setup offer weights seen (done, st)) (hops : ∀ x ∈ ops, x.2.Quiet)
    (hcap : (st.performAll ops).rounds.keys.length < roundsCap) :
    Tracked setup offer weights seen (done, st.performAll ops) := by
  induction ops generalizing st with
  | nil => exact h
  | cons x ops ih =>
    obtain ⟨hx, hrest⟩ := List.forall_mem_cons.mp hops
    exact ih (h.quiet hx (ObserverState.length_of_performAll hcap)) hrest hcap

/-- A reveal that is in time. -/
theorem Tracked.reveal (h : Tracked setup offer weights seen (done, st)) {rv : Reveal}
    (hweights : ∀ a w, weights.get? a = some w → 0 < w) (hfar : st.tooFar rv.round = false)
    (hnot : rv.round ∉ done.map RoundState.roundId)
    (hcap : (st.recordRevealValues rv.round rv.fromLc rv.values).rounds.keys.length < roundsCap) :
    Tracked setup offer weights (fun r => seen r ++ if rv.round = r then [rv] else [])
      (done, st.recordRevealValues rv.round rv.fromLc rv.values) := by
  refine h.write hcap (fun r hr => by simp [hr]) (fun hor => ?_) (fun rs hrs => ?_)
    fun hmem => absurd hmem hnot
  · rcases hor with hmem | hfar'
    · exact absurd hmem hnot
    · rw [hfar] at hfar'
      cases hfar'
  · have hop : st.revealOp rv.fromLc rv.values =
        .reveal (rv.fromLc == setup.submitLc) (weights.get? rv.fromLc) rv.values := by
      unfold ObserverState.revealOp
      rw [h.sameSubmit, show st.iqrWeightMap = weights from h.sameWeights]
    rw [hop, if_pos rfl]
    exact hrs.reveal rv hweights

/-! ## Finalizing -/

/-- Scoring a round: AP's values against the votes, where AP revealed. -/
theorem finalizeRound_results {raw : RoundState} {ts : Int} (hoffer : st.iqrOffer = some offer) :
    (st.finalizeRound raw ts).1.iqrResults =
      match raw.iqrApValues with
      | some apVals => scoreFeeds offer raw.iqrVotes apVals 0 offer.feeds raw.iqrResults
      | none => raw.iqrResults := by
  have hresults : (st.finalizeRound raw ts).1.iqrResults =
      ((raw.check st.ourSubmit).scoreIqr st.iqrOffer).iqrResults := by
    unfold ObserverState.finalizeRound
    by_cases hempty : ((raw.check st.ourSubmit).scoreIqr st.iqrOffer).iqrResults.entries.isEmpty
    · simp only [hempty, if_true]
    · simp only [hempty]
      rfl
  rw [hresults, hoffer]
  unfold RoundState.scoreIqr
  cases hap : raw.iqrApValues with
  | none =>
    have hchecked : (raw.check st.ourSubmit).iqrApValues = none := hap
    rw [hchecked]
    rfl
  | some apVals =>
    have hchecked : (raw.check st.ourSubmit).iqrApValues = some apVals := hap
    rw [hchecked]
    rfl

/-- What a finalized round has for a feed. -/
theorem Collected.result {ap : String} {rvs : List Reveal} {raw : RoundState} {ts : Int}
    (h : Collected weights ap rvs raw) (hoffer : st.iqrOffer = some offer)
    (hfeeds : offer.feeds.Nodup) {name : String} (hname : name ∈ offer.feeds) :
    (st.finalizeRound raw ts).1.iqrResults.get? name =
      scannedResult offer weights ap rvs name := by
  rw [finalizeRound_results hoffer]
  unfold scannedResult
  rw [← h.own, h.results]
  cases raw.iqrApValues with
  | none => rfl
  | some apVals =>
    dsimp only [Option.bind_some]
    rw [scoreFeeds_get? hfeeds, if_pos hname, Nat.zero_add, scoreFeed_eq, h.votes, Dict.get?_empty,
      Option.or_none]

theorem finalizeRound_roundId {raw : RoundState} {ts : Int} :
    (st.finalizeRound raw ts).1.roundId = raw.roundId :=
  ObserverState.Judged.roundId ObserverState.finalizeRound_judged

omit [FtsoRules] in
theorem mem_ids_snoc {rs : RoundState} {r : Int} :
    r ∈ (done ++ [rs]).map RoundState.roundId ↔
      r ∈ done.map RoundState.roundId ∨ r = rs.roundId := by
  rw [List.map_append, List.mem_append, List.map_singleton, List.mem_singleton]

/-- A round that counts is scored, and leaves the rounds in flight. -/
theorem Tracked.take (h : Tracked setup offer weights seen (done, st))
    (hfeeds : offer.feeds.Nodup) {now r : Int} {raw : RoundState}
    (hget : st.rounds.get? r = some raw)
    (hstart : setup.observeStartTs ≤ setup.factory.startS r) :
    Tracked setup offer weights seen
      (done ++ [(ObserverState.finalizeRound { st with rounds := st.rounds.erase r } raw now).1],
        (ObserverState.finalizeRound { st with rounds := st.rounds.erase r } raw now).2) := by
  obtain ⟨finalized, last, history, rids, hframe⟩ := @ObserverState.finalizeRound_frame
    { st with rounds := st.rounds.erase r } _ now raw
  have hid :
      (ObserverState.finalizeRound { st with rounds := st.rounds.erase r } raw now).1.roundId =
      r := finalizeRound_roundId.trans (Keyed.key_of_get? hget)
  have hresults := @finalizeRound_results _ offer { st with rounds := st.rounds.erase r } raw now
    h.sameOffer
  have hresult := fun hraw name hname => @Collected.result _ offer weights
    { st with rounds := st.rounds.erase r } setup.submitLc (seen r) raw now hraw h.sameOffer hfeeds
    name hname
  generalize (ObserverState.finalizeRound { st with rounds := st.rounds.erase r } raw now).1 = rs
    at hid hresults hresult ⊢
  rw [hframe]
  refine ⟨h.sameSetup, h.sameOffer, h.sameWeights, fun k v hk hkstart hknot => ?_,
    fun k v hk hkmem => ?_, fun k hk hkstart hknot => ?_, fun k hkmem name hname => ?_⟩
  · rw [mem_ids_snoc, not_or] at hknot
    exact h.collected k v (Keyed.get?_erase_some.mp hk).2 hkstart hknot.1
  · rcases mem_ids_snoc.mp hkmem with hmem | heq
    · exact h.again k v (Keyed.get?_erase_some.mp hk).2 hmem
    · exact absurd (hid.symm.trans heq.symm) (Keyed.get?_erase_some.mp hk).1
  · rw [mem_ids_snoc, not_or] at hknot
    have hr : r ≠ k := fun heq => hknot.2 (heq.symm.trans hid.symm)
    have hk' : (st.rounds.erase r).get? k = none := hk
    rw [Keyed.get?_erase_ne hr] at hk'
    exact h.fresh k hk' hkstart hknot.1
  · rw [List.filter_append, List.filterMap_append]
    by_cases hr : r = k
    · subst hr
      rw [List.filter_cons_of_pos (by simpa using hid), List.filter_nil]
      by_cases hmem : r ∈ done.map RoundState.roundId
      · -- what comes after the round was scored holds nothing to score
        obtain ⟨hown, hempty⟩ := h.again r raw hget hmem
        rw [hown, hempty] at hresults
        rw [h.scored r hmem name hname]
        simp [hresults]
      · have hnone : (done.filter fun x => decide (x.roundId = r)) = [] := by
          refine List.filter_eq_nil_iff.mpr fun x hx heq => hmem ?_
          exact List.mem_map.mpr ⟨x, hx, of_decide_eq_true heq⟩
        rw [hnone, List.filterMap_nil, List.nil_append, List.filterMap_cons, List.filterMap_nil,
          hresult (h.collected r raw hget hstart hmem) name hname]
        cases scannedResult offer weights setup.submitLc (seen r) name with
        | none => rfl
        | some res => rfl
    · have hne : rs.roundId ≠ k := fun heq => hr (hid.symm.trans heq)
      rw [List.filter_cons_of_neg (by simpa using hne), List.filter_nil, List.filterMap_nil,
        List.append_nil]
      rcases mem_ids_snoc.mp hkmem with hmem | heq
      · exact h.scored k hmem name hname
      · exact absurd heq.symm hne

/-- One round of `finalize_due`. -/
theorem Tracked.finalizeOne (h : Tracked setup offer weights seen (done, st))
    (hfeeds : offer.feeds.Nodup) (now r : Int) :
    Tracked setup offer weights seen (ObserverState.finalizeOne now (done, st) r) := by
  cases hget : st.rounds.get? r with
  | none =>
    rw [ObserverState.finalizeOne_absent hget]
    exact h
  | some raw =>
    by_cases hdue : st.factory.due r now = true
    swap
    · rw [ObserverState.finalizeOne_open (by simpa using hdue)]
      exact h
    by_cases hstart : st.factory.startS r < st.observeStartTs
    · -- a boundary round goes, and counts nowhere
      rw [ObserverState.finalizeOne_dropped hget hdue hstart]
      refine ⟨h.sameSetup, h.sameOffer, h.sameWeights, fun k rs hk => ?_, fun k rs hk => ?_,
        fun k hk hkstart hknot => ?_, h.scored⟩
      · exact h.collected k rs (Keyed.get?_erase_some.mp hk).2
      · exact h.again k rs (Keyed.get?_erase_some.mp hk).2
      · by_cases hr : r = k
        · subst hr
          rw [h.sameFactory, h.sameStart] at hstart
          omega
        · refine h.fresh k ?_ hkstart hknot
          have hk' : (st.rounds.erase r).get? k = none := hk
          rwa [Keyed.get?_erase_ne hr] at hk'
    · rw [ObserverState.finalizeOne_taken hget hdue hstart]
      have hstart' : setup.observeStartTs ≤ setup.factory.startS r := by
        rw [h.sameFactory, h.sameStart] at hstart
        exact not_lt.mp hstart
      exact h.take hfeeds hget hstart'

theorem finalizeOne_from {now r : Int} : ObserverState.finalizeOne now (done, st) r =
    (done ++ (ObserverState.finalizeOne now ([], st) r).1,
      (ObserverState.finalizeOne now ([], st) r).2) := by
  cases hget : st.rounds.get? r with
  | none => simp [ObserverState.finalizeOne_absent hget]
  | some raw =>
    by_cases hdue : st.factory.due r now = true
    · by_cases hstart : st.factory.startS r < st.observeStartTs
      · simp [ObserverState.finalizeOne_dropped hget hdue hstart]
      · simp [ObserverState.finalizeOne_taken hget hdue hstart]
    · simp [ObserverState.finalizeOne_open (by simpa using hdue)]

theorem foldl_finalizeOne_from {now : Int} {rs : List Int} :
    rs.foldl (ObserverState.finalizeOne now) (done, st) =
      (done ++ (rs.foldl (ObserverState.finalizeOne now) ([], st)).1,
        (rs.foldl (ObserverState.finalizeOne now) ([], st)).2) := by
  induction rs generalizing done st with
  | nil => simp
  | cons r rs ih =>
    rw [List.foldl_cons, List.foldl_cons, finalizeOne_from, ih,
      @ih (ObserverState.finalizeOne now ([], st) r).1, List.append_assoc]

/-- The rounds of a list, one after the other. -/
theorem Tracked.foldl_finalizeOne (h : Tracked setup offer weights seen (done, st))
    (hfeeds : offer.feeds.Nodup) (now : Int) (rs : List Int) :
    Tracked setup offer weights seen (rs.foldl (ObserverState.finalizeOne now) (done, st)) := by
  induction rs generalizing done st with
  | nil => exact h
  | cons r rs ih => exact ih (h.finalizeOne hfeeds now r)

/-! ## Any calls -/

omit [FtsoRules] in
theorem recordOps_quiet {d : Decoded} {fromAddr : String} {txTs : Int} :
    ∀ x ∈ st.recordOps d fromAddr txTs, x.2.Quiet := by
  have hbitvote : ∀ x ∈ ObserverState.bitvoteOps d, x.2.Quiet := by
    unfold ObserverState.bitvoteOps
    split
    · exact List.forall_mem_singleton.mpr fun rs => ⟨rfl, rfl, rfl⟩
    · exact List.forall_mem_nil _
  have hsignature : ∀ x ∈ ObserverState.fdcSignatureOps d, x.2.Quiet := by
    unfold ObserverState.fdcSignatureOps
    split
    · exact List.forall_mem_singleton.mpr fun rs => ⟨rfl, rfl, rfl⟩
    · exact List.forall_mem_nil _
  unfold ObserverState.recordOps
  dsimp only
  split
  · exact List.forall_mem_singleton.mpr fun rs => ⟨rfl, rfl, rfl⟩
  · split
    · exact List.forall_mem_cons.mpr ⟨fun rs => ⟨rfl, rfl, rfl⟩, hbitvote⟩
    · split
      · exact List.forall_mem_cons.mpr ⟨fun rs => ⟨rfl, rfl, rfl⟩, hsignature⟩
      · exact List.forall_mem_singleton.mpr fun rs => ⟨rfl, rfl, rfl⟩

omit [FtsoRules] in
/-- Seeding the history touches nothing else. -/
theorem seedIqrHistory_frame {tallies : List IqrTally} : ∃ history rids,
    st.seedIqrHistory tallies = { st with iqrHistory := history, iqrRids := rids } := by
  unfold ObserverState.seedIqrHistory
  induction tallies generalizing st with
  | nil => exact ⟨_, _, rfl⟩
  | cons t tallies ih =>
    obtain ⟨history, rids, heq⟩ := @ObserverState.rememberTally_frame st t
    obtain ⟨history', rids', heq'⟩ := @ih { st with iqrHistory := history, iqrRids := rids }
    rw [List.foldl_cons, heq, heq']
    exact ⟨_, _, rfl⟩

/-- One call. -/
theorem Tracked.call (h : Tracked setup offer weights seen (done, st)) (hfeeds : offer.feeds.Nodup)
    (hweights : ∀ a w, weights.get? a = some w → 0 < w) {c : ObserverCall}
    (hbefore : BeforeFinal (done, st) c)
    (hcap : (st.call c).2.rounds.keys.length < roundsCap) :
    Tracked setup offer weights (fun r => seen r ++ revealsOf [c] r)
      (ObserverState.callNext (done, st) c) := by
  have hquiet : ∀ {st' : ObserverState}, callReveals c = [] →
      Tracked setup offer weights seen (done, st') →
      Tracked setup offer weights (fun r => seen r ++ revealsOf [c] r) (done ++ [], st') := by
    intro st' hno h'
    have hseen : (fun r => seen r ++ revealsOf [c] r) = seen := by
      funext r
      simp [revealsOf, hno]
    rwa [hseen, List.append_nil]
  unfold ObserverState.callNext
  cases c with
  | record d fromAddr txTs => exact hquiet rfl (h.quietAll recordOps_quiet hcap)
  | recordRevealValues r fromLc values =>
    have hreveal :=
      @Tracked.reveal _ offer weights setup seen done st h ⟨r, fromLc, values⟩ hweights
      hbefore.1 hbefore.2 hcap
    have hseen : (fun k => seen k ++ revealsOf [.recordRevealValues r fromLc values] k) =
        fun k => seen k ++ if r = k then [⟨r, fromLc, values⟩] else [] := by
      funext k
      by_cases hr : r = k
      · simp [revealsOf, callReveals, hr]
      · simp [revealsOf, callReveals, hr]
    rw [hseen]
    show Tracked setup offer weights _ (done ++ [], st.recordRevealValues r fromLc values)
    rw [List.append_nil]
    exact hreveal
  | recordFdcRequest r => exact hquiet rfl (h.quiet (fun rs => ⟨rfl, rfl, rfl⟩) hcap)
  | recordRoundFu r => exact hquiet rfl (h.quiet (fun rs => ⟨rfl, rfl, rfl⟩) hcap)
  | finalizeDue now =>
    have hfold := h.foldl_finalizeOne hfeeds now (st.rounds.keys.insertionSort (· ≤ ·))
    rw [foldl_finalizeOne_from] at hfold
    have hseen : (fun r => seen r ++ revealsOf [.finalizeDue now] r) = seen := by
      funext r
      exact List.append_nil _
    rw [hseen]
    exact hfold
  | seedIqrHistory tallies =>
    obtain ⟨history, rids, heq⟩ := @seedIqrHistory_frame st tallies
    refine hquiet rfl ?_
    show Tracked setup offer weights seen (done, st.seedIqrHistory tallies)
    rw [heq]
    exact h.congr rfl rfl rfl rfl
  | setLastTs ts => exact hquiet rfl (h.congr rfl rfl rfl rfl)
  | setIqrContext offer' weights' => exact hbefore.elim

omit [FtsoRules] in
theorem revealsOf_cons {c : ObserverCall} {cs : List ObserverCall} {r : Int} :
    revealsOf (c :: cs) r = revealsOf [c] r ++ revealsOf cs r := by
  unfold revealsOf
  rw [List.flatMap_cons, List.filter_append, List.flatMap_cons, List.flatMap_nil, List.append_nil]

/-- All the calls. -/
theorem Tracked.calls {x : List RoundState × ObserverState} {cs : List ObserverCall}
    (h : Tracked setup offer weights seen x) (hfeeds : offer.feeds.Nodup)
    (hweights : ∀ a w, weights.get? a = some w → 0 < w) (hcs : Delivered x cs) :
    Tracked setup offer weights (fun r => seen r ++ revealsOf cs r)
      (cs.foldl ObserverState.callNext x) := by
  induction cs generalizing seen x with
  | nil =>
    have hseen : (fun r => seen r ++ revealsOf [] r) = seen := by
      funext r
      exact List.append_nil _
    rw [hseen]
    exact h
  | cons c cs ih =>
    obtain ⟨hbefore, hcap, hrest⟩ := hcs
    have hstep := ih (h.call hfeeds hweights hbefore hcap) hrest
    have hseen : (fun r => seen r ++ revealsOf (c :: cs) r) =
        fun r => (seen r ++ revealsOf [c] r) ++ revealsOf cs r := by
      funext r
      rw [revealsOf_cons, List.append_assoc]
    rw [hseen]
    exact hstep

/-! ## The totals -/

omit [FtsoRules] in
/-- The rounds of a span, one round after the other. -/
theorem filter_mem_perm {W : List Int} (hW : W.Nodup) (l : List RoundState) :
    (l.filter fun rs => rs.roundId ∈ W).Perm
      (W.flatMap fun r => l.filter fun rs => rs.roundId = r) := by
  induction W with
  | nil => simp
  | cons r W ih =>
    obtain ⟨hr, hnodup⟩ := List.nodup_cons.mp hW
    have hsplit := List.filter_append_perm (fun rs : RoundState => decide (rs.roundId = r))
      (l.filter fun rs => rs.roundId ∈ r :: W)
    have hhere : ((l.filter fun rs => rs.roundId ∈ r :: W).filter fun rs => rs.roundId = r) =
        l.filter fun rs => rs.roundId = r := by
      rw [List.filter_filter]
      refine List.filter_congr fun rs _ => ?_
      by_cases heq : rs.roundId = r <;> simp [heq]
    have hrest :
        ((l.filter fun rs => rs.roundId ∈ r :: W).filter fun rs => !decide (rs.roundId = r)) =
        l.filter fun rs => rs.roundId ∈ W := by
      rw [List.filter_filter]
      refine List.filter_congr fun rs _ => ?_
      by_cases heq : rs.roundId = r
      · simp [heq, hr]
      · simp [heq]
    rw [hhere, hrest] at hsplit
    rw [List.flatMap_cons]
    exact hsplit.symm.trans ((ih hnodup).append_left _)

omit [FtsoRules] in
theorem mem_span_rounds {span : ScoredSpan} {r : Int} : r ∈ span.rounds ↔ span.contains r = true := by
  unfold ScoredSpan.rounds ScoredSpan.contains
  rw [List.mem_map, decide_eq_true_iff]
  constructor
  · rintro ⟨i, hi, rfl⟩
    rw [List.mem_range] at hi
    omega
  · intro h
    refine ⟨(r - span.oldest).toNat, List.mem_range.mpr ?_, ?_⟩
    · omega
    · omega

omit [FtsoRules] in
theorem span_rounds_nodup {span : ScoredSpan} : span.rounds.Nodup := by
  unfold ScoredSpan.rounds
  refine List.nodup_range.map fun i j hij => ?_
  omega

/-- The results of the finalized rounds of a span are those of the rounds as they were revealed. -/
theorem Tracked.results (h : Tracked setup offer weights seen (done, st)) {span : ScoredSpan}
    (hdone : ∀ r, span.contains r = true → (∃ rv ∈ seen r, rv.fromLc = setup.submitLc) →
      r ∈ done.map RoundState.roundId) {name : String} (hname : name ∈ offer.feeds) :
    ((done.filter fun rs => span.contains rs.roundId).filterMap
        fun rs => rs.iqrResults.get? name).Perm
      (span.rounds.filterMap fun r =>
        scannedResult offer weights setup.submitLc (seen r) name) := by
  have hfilter : (done.filter fun rs => span.contains rs.roundId) =
      done.filter fun rs => rs.roundId ∈ span.rounds := by
    refine List.filter_congr fun rs _ => ?_
    rw [Bool.eq_iff_iff, decide_eq_true_iff]
    exact mem_span_rounds.symm
  rw [hfilter]
  refine ((filter_mem_perm span_rounds_nodup done).filterMap _).trans (.of_eq ?_)
  rw [List.filterMap_flatMap, List.filterMap_eq_flatMap_toList]
  refine List.flatMap_congr fun r hr => ?_
  by_cases hmem : r ∈ done.map RoundState.roundId
  · exact h.scored r hmem name hname
  · -- AP did not reveal in it
    have hnone : (done.filter fun rs => decide (rs.roundId = r)) = [] := by
      refine List.filter_eq_nil_iff.mpr fun x hx heq => hmem ?_
      exact List.mem_map.mpr ⟨x, hx, of_decide_eq_true heq⟩
    have hown : ownValues setup.submitLc (seen r) = none := by
      have hnot : ((seen r).filter fun rv => decide (rv.fromLc = setup.submitLc)) = [] := by
        refine List.filter_eq_nil_iff.mpr fun rv hrv heq => hmem ?_
        exact hdone r (mem_span_rounds.mp hr) ⟨rv, hrv, of_decide_eq_true heq⟩
      unfold ownValues
      rw [hnot]
      rfl
    rw [hnone]
    unfold scannedResult
    rw [hown]
    rfl

/-- The totals of the finalized rounds are those of the batch scorer over the same rounds. -/
theorem streaming_eq_batch [Messaging]
    (hmedian : ∀ l l' : List FtsoVote, l.Perm l' → calculateMedian l = calculateMedian l')
    (hfeeds : offer.feeds.Nodup) (hweights : ∀ a w, weights.get? a = some w → 0 < w)
    {cs : List ObserverCall}
    (hcs : Delivered ([], setup.scoring offer weights) cs)
    {submission : String} {cur : Int} {rounds : Nat} {blocks : List Block}
    (hsame : ∀ r, (scoredSpan cur rounds).contains r = true → (revealsOf cs r).Perm
      ((scanBlocks (Py.lower submission) setup.factory (scoredSpan cur rounds) blocks).filter
        fun rv => rv.round = r))
    (honce : ∀ r, (revealsOf cs r).countP (fun rv => rv.fromLc = setup.submitLc) ≤ 1)
    {done : List RoundState} {st : ObserverState}
    (hrun : (setup.scoring offer weights).calls cs = (done, st))
    (hdone : ∀ r, (scoredSpan cur rounds).contains r = true →
      (∃ rv ∈ revealsOf cs r, rv.fromLc = setup.submitLc) → r ∈ done.map RoundState.roundId) :
    ∀ name ∈ offer.feeds,
      (scoreAp submission setup.ourSubmit offer weights setup.factory cur rounds blocks).1.get? name =
        some (totals name
          ((done.filter fun rs => (scoredSpan cur rounds).contains rs.roundId).filterMap
            fun rs => rs.iqrResults.get? name)) := by
  intro name hname
  have hfresh : Tracked setup offer weights (fun _ => []) ([], setup.scoring offer weights) :=
    ⟨rfl, rfl, rfl, fun r rs hget => (by cases hget), fun r rs hget => (by cases hget),
      fun _ _ _ _ => rfl, fun r hr => (by cases hr)⟩
  have htracked := hfresh.calls hfeeds hweights hcs
  have hseen : (fun r => [] ++ revealsOf cs r) = revealsOf cs := rfl
  rw [hseen, show cs.foldl ObserverState.callNext _ = (done, st) from hrun] at htracked
  rw [scoreAp_get? hfeeds hname, totals_perm (htracked.results hdone hname)]
  congr 2
  refine List.filterMap_congr fun r hr => ?_
  exact (scannedResult_perm hmedian (hsame r (mem_span_rounds.mp hr)) (honce r)).symm

end

/-! ## Two rounds -/

@[reducible] def singleRules : FtsoRules where
  commitHash _ _ _ _ := ""
  calculateMedian votes :=
    let value := (votes.map FtsoVote.value).sum
    ⟨value, value, value⟩

/-- The body of a reveal: the protocol 100, the round, the length of the payload, the random number,
the values in excess of `2 ^ 31`; a value that is missing is 0. -/
def revealBody (round length values : String) : String :=
  "64" ++ round ++ length ++ String.ofList (List.replicate 64 '0') ++ values

def bodyA : String := revealBody "00000000" "0024" "80000064"
def bodyB : String := revealBody "00000000" "002c" "000000008000000780000008"
def bodyC : String := revealBody "00000001" "0028" "8000006e80000009"

/-- The parser, on the three bodies. -/
@[reducible] def ftsoMessages : Messaging where
  parseSubmit1Tx _ := none
  parseSubmit2Tx body :=
    if body = bodyA then some ⟨some ⟨0, [some 100]⟩, none⟩
    else if body = bodyB then some ⟨some ⟨0, [none, some 7, some 8]⟩, none⟩
    else if body = bodyC then some ⟨some ⟨1, [some 110, some 9]⟩, none⟩
    else none
  parseSubmitSignatureTx _ := none
  parseGenericTx _ := none
  uint256 _ := none

def twoFeeds : OfferParams where
  feeds := ["FLR/USD", "SGB/USD"]
  secondaryBandWidthPpm := Dict.empty.set "FLR/USD" 50000

def twoWeights : Dict String Int := (Dict.empty.set "0xa1" 5).set "0xb2" 4

def twoSetup : ObserverSetup where
  ourSubmit := "0xA1"
  ourSig := "0xc3"
  windowRounds := 40
  observeStartTs := 0
  factory := .grid 0 90 45

def revealTx (addr body : String) : Tx where
  toAddr := some "0xd4"
  fromAddr := some addr
  input := some ("0x9d00c9fd" ++ body)

def twoBlocks : List Block :=
  [⟨100, [revealTx "0xA1" bodyA, revealTx "0xB2" bodyB]⟩, ⟨190, [revealTx "0xA1" bodyC]⟩, ⟨400, []⟩]

/-- The reveals of the blocks, those of the first round the other way round. -/
def twoCalls : List ObserverCall :=
  [.setLastTs 10, .recordRevealValues 0 "0xb2" [none, some 7, some 8],
    .recordRevealValues 1 "0xa1" [some 110, some 9], .recordRevealValues 0 "0xa1" [some 100],
    .finalizeDue 200, .finalizeDue 300]

theorem twoRounds_totals :
    let _ := singleRules
    let _ := ftsoMessages
    ∃ done st, (twoSetup.scoring twoFeeds twoWeights).calls twoCalls = (done, st) ∧
      ∀ name ∈ twoFeeds.feeds,
        (scoreAp "0xD4" "0xA1" twoFeeds twoWeights twoSetup.factory 3 2 twoBlocks).1.get? name =
          some (totals name ((done.filter fun rs => (scoredSpan 3 2).contains rs.roundId).filterMap
            fun rs => rs.iqrResults.get? name)) := by
  intro _ _
  have hspan : ∀ r, (scoredSpan 3 2).contains r = true → r = 0 ∨ r = 1 := by
    intro r hr
    have hr' : 3 - 2 - (2 : Nat) + 1 ≤ r ∧ r ≤ 3 - 2 := of_decide_eq_true hr
    omega
  have hids : ((twoSetup.scoring twoFeeds twoWeights).calls twoCalls).1.map RoundState.roundId =
      [0, 1] := by decide +kernel
  have hreveals : twoCalls.flatMap callReveals = [⟨0, "0xb2", [none, some 7, some 8]⟩,
      ⟨1, "0xa1", [some 110, some 9]⟩, ⟨0, "0xa1", [some 100]⟩] := rfl
  have hscan : scanBlocks (Py.lower "0xD4") twoSetup.factory (scoredSpan 3 2) twoBlocks =
      [⟨0, "0xa1", [some 100]⟩, ⟨0, "0xb2", [none, some 7, some 8]⟩,
        ⟨1, "0xa1", [some 110, some 9]⟩] := by decide +kernel
  have hlower : twoSetup.submitLc = "0xa1" := by decide +kernel
  refine ⟨_, _, Prod.mk.eta.symm, ?_⟩
  refine @streaming_eq_batch singleRules twoFeeds twoWeights twoSetup ftsoMessages
    (fun l l' h => ?_) (by decide) (fun a w h => ?_) _ ?_ _ _ _ _ (fun r hr => ?_) (fun r => ?_)
    _ _ Prod.mk.eta.symm fun r hr _ => ?_
  · show FtsoMedian.mk _ _ _ = FtsoMedian.mk _ _ _
    rw [(h.map FtsoVote.value).sum_eq]
  · unfold twoWeights at h
    rw [Dict.get?_set, Dict.get?_set] at h
    split at h
    · cases h
      decide
    · split at h
      · cases h
        decide
      · cases h
  · refine ⟨trivial, ?_, ⟨?_, ?_⟩, ?_, ⟨?_, ?_⟩, ?_, ⟨?_, ?_⟩, ?_, trivial, ?_, trivial, ?_, trivial⟩
    all_goals decide +kernel
  · unfold revealsOf
    rw [hreveals, hscan]
    rcases hspan r hr with rfl | rfl
    · exact .swap _ _ _
    · exact .refl _
  · unfold revealsOf
    rw [hreveals, hlower, List.countP_filter]
    by_cases hr : r = 0
    · subst hr
      decide
    · by_cases hr' : r = 1
      · subst hr'
        decide
      · simp [Ne.symm hr, Ne.symm hr']
  · rw [hids]
    rcases hspan r hr with rfl | rfl <;> decide

end Clif.Observe
