import Clif.Observe.IqrBatch

/-!
# Observe.IqrScore — the result of a feed in a round, and what the batch scorer makes of it

A result depends on the votes on the feed and on AP's value.  Both scorers are read this way: the
streaming one in `scoreFeeds_get?`, the batch one in `scoreAp_get?`.
-/

namespace Clif.Observe

/-! ## Votes -/

/-- The vote of a reveal on a feed. -/
def voteOn (w : Int) (values : List (Option Int)) (i : Nat) : List FtsoVote :=
  match values[i]? with
  | some (some v) => [⟨v, w⟩]
  | _ => []

/-- The votes on a feed, of the voters that have a weight. -/
def votesOn (weights : Dict String Int) (rvs : List Reveal) (i : Nat) : List FtsoVote :=
  rvs.flatMap fun rv =>
    match weights.get? rv.fromLc with
    | some w => voteOn w rv.values i
    | none => []

/-- The values that AP revealed last. -/
def ownValues (ap : String) (rvs : List Reveal) : Option (List (Option Int)) :=
  (rvs.filter fun rv => rv.fromLc = ap).getLast?.map Reveal.values

theorem voteOn_succ {w : Int} {x : Option Int} {values : List (Option Int)} {i j : Nat}
    (h : i < j) : voteOn w (x :: values) (j - i) = voteOn w values (j - (i + 1)) := by
  have hsucc : j - i = j - (i + 1) + 1 := by omega
  unfold voteOn
  rw [hsucc, List.getElem?_cons_succ]

theorem addVotes_get? {w : Int} : ∀ {values : List (Option Int)} {i : Nat}
    {votes : Dict Nat (List FtsoVote)} {j : Nat},
    ((addVotes w i values votes).get? j).getD [] =
      (votes.get? j).getD [] ++ (if i ≤ j then voteOn w values (j - i) else [])
  | [], i, votes, j => by simp [addVotes, voteOn]
  | none :: values, i, votes, j => by
    rw [addVotes, addVotes_get?]
    rcases lt_trichotomy i j with hlt | rfl | hgt
    · rw [if_pos (by omega), if_pos (by omega), voteOn_succ hlt]
    · rw [if_neg (by omega), if_pos le_rfl, Nat.sub_self]
      rfl
    · rw [if_neg (by omega), if_neg (by omega)]
  | some v :: values, i, votes, j => by
    rw [addVotes, addVotes_get?, Dict.get?_set]
    rcases lt_trichotomy i j with hlt | rfl | hgt
    · rw [if_neg (by omega), if_pos (by omega), if_pos (by omega), voteOn_succ hlt]
    · rw [if_pos rfl, if_neg (by omega), if_pos le_rfl, Nat.sub_self, List.append_nil]
      rfl
    · rw [if_neg (by omega), if_neg (by omega), if_neg (by omega)]

section

variable {weights : Dict String Int} {ap : String} {rvs rvs' : List Reveal} {i : Nat}

theorem votesOn_append : votesOn weights (rvs ++ rvs') i =
    votesOn weights rvs i ++ votesOn weights rvs' i := List.flatMap_append

theorem votesOn_perm (h : rvs.Perm rvs') :
    (votesOn weights rvs i).Perm (votesOn weights rvs' i) := h.flatMap_right _

theorem ownValues_snoc {rv : Reveal} : ownValues ap (rvs ++ [rv]) =
    if rv.fromLc = ap then some rv.values else ownValues ap rvs := by
  unfold ownValues
  by_cases h : rv.fromLc = ap
  · rw [if_pos h, List.filter_append, List.filter_cons_of_pos (by simpa using h)]
    simp
  · rw [if_neg h, List.filter_append, List.filter_cons_of_neg (by simpa using h)]
    simp

/-- Where AP reveals at most once, the order does not matter. -/
theorem ownValues_perm (h : rvs.Perm rvs')
    (honce : rvs.countP (fun rv => rv.fromLc = ap) ≤ 1) : ownValues ap rvs = ownValues ap rvs' := by
  have hperm := h.filter fun rv => decide (rv.fromLc = ap)
  rw [List.countP_eq_length_filter] at honce
  unfold ownValues
  cases hl : rvs.filter fun rv => decide (rv.fromLc = ap) with
  | nil =>
    rw [hl] at hperm
    rw [hperm.nil_eq.symm]
  | cons rv rest =>
    rw [hl, List.length_cons] at honce
    have hrest : rest = [] := List.eq_nil_of_length_eq_zero (by omega)
    rw [hl, hrest] at hperm
    rw [hrest, List.singleton_perm.mp hperm]

end

/-! ## The result of a feed -/

section

variable [FtsoRules] {offer : OfferParams} {i : Nat} {name : String}

/-- The result of a feed, from the votes on it and AP's values. -/
def resultOn (offer : OfferParams) (votes : List FtsoVote) (apVals : List (Option Int)) (i : Nat)
    (name : String) : Option FeedResult :=
  scoreFeed offer (Dict.empty.set i votes) apVals i name

theorem scoreFeed_eq {votes : Dict Nat (List FtsoVote)} {apVals : List (Option Int)} :
    scoreFeed offer votes apVals i name =
      resultOn offer ((votes.get? i).getD []) apVals i name := by
  unfold resultOn scoreFeed
  rw [Dict.get?_set_self]
  cases votes.get? i with
  | some vs => rfl
  | none => rfl

/-- The median forgets the order of the votes, and so does the result. -/
theorem resultOn_perm (hmedian : ∀ l l' : List FtsoVote, l.Perm l' →
      calculateMedian l = calculateMedian l') {votes votes' : List FtsoVote}
    {apVals : List (Option Int)} (h : votes.Perm votes') :
    resultOn offer votes apVals i name = resultOn offer votes' apVals i name := by
  cases hv : votes with
  | nil =>
    rw [hv] at h
    rw [h.nil_eq.symm]
  | cons v vs =>
    cases hv' : votes' with
    | nil =>
      rw [hv, hv'] at h
      cases h.eq_nil
    | cons v' vs' =>
      rw [hv, hv'] at h
      unfold resultOn scoreFeed
      rw [Dict.get?_set_self, Dict.get?_set_self]
      cases apVals[i]? with
      | none => rfl
      | some x =>
        cases x with
        | none => rfl
        | some value =>
          dsimp only
          rw [hmedian _ _ h]

/-- The results of a round, feed by feed. -/
theorem scoreFeeds_get? {votes : Dict Nat (List FtsoVote)} {apVals : List (Option Int)} :
    ∀ {names : List String} {i : Nat} {results : Dict String FeedResult}, names.Nodup →
      (scoreFeeds offer votes apVals i names results).get? name =
        if name ∈ names then
          (scoreFeed offer votes apVals (i + names.idxOf name) name).or (results.get? name)
        else results.get? name
  | [], i, results, _ => by simp [scoreFeeds]
  | n :: names, i, results, h => by
    obtain ⟨hn, hnames⟩ := List.nodup_cons.mp h
    rw [scoreFeeds, scoreFeeds_get? hnames]
    by_cases heq : n = name
    · subst heq
      rw [if_neg hn, if_pos List.mem_cons_self, List.idxOf_cons_self, Nat.add_zero]
      cases hscore : scoreFeed offer votes apVals i n with
      | some r => exact Dict.get?_set_self
      | none => rfl
    · rw [List.idxOf_cons_ne _ heq, show i + (names.idxOf name + 1) =
        i + 1 + names.idxOf name by omega]
      cases hscore : scoreFeed offer votes apVals i n with
      | some r => simp [Dict.get?_set, heq, Ne.symm heq]
      | none => simp [Ne.symm heq]

end

/-! ## The totals of a feed -/

/-- One more result. -/
def FeedScore.add (fs : FeedScore) (res : FeedResult) : FeedScore :=
  { fs with
    rounds := fs.rounds + 1
    inside := if res.band = .inside then fs.inside + 1 else fs.inside
    boundary := if res.band = .boundary then fs.boundary + 1 else fs.boundary
    outside := if res.band = .outside then fs.outside + 1 else fs.outside
    pctHit := if res.pctHit then fs.pctHit + 1 else fs.pctHit
    capped := if res.capped then fs.capped + 1 else fs.capped }

/-- The totals of a list of results. -/
def totals (name : String) (rs : List FeedResult) : FeedScore where
  feed := name
  rounds := rs.length
  inside := rs.countP fun r => r.band = .inside
  boundary := rs.countP fun r => r.band = .boundary
  outside := rs.countP fun r => r.band = .outside
  pctHit := rs.countP FeedResult.pctHit
  capped := rs.countP FeedResult.capped

theorem totals_perm {name : String} {rs rs' : List FeedResult} (h : rs.Perm rs') :
    totals name rs = totals name rs' := by
  unfold totals
  rw [h.length_eq, h.countP_eq, h.countP_eq, h.countP_eq, h.countP_eq, h.countP_eq]

theorem totals_snoc {name : String} {rs : List FeedResult} {r : FeedResult} :
    totals name (rs ++ [r]) = (totals name rs).add r := by
  unfold totals FeedScore.add
  simp only [List.length_append, List.length_singleton, List.countP_append, List.countP_singleton,
    FeedScore.mk.injEq, true_and]
  refine ⟨?_, ?_, ?_, ?_, ?_⟩
  all_goals split <;> simp_all

theorem foldl_add {name : String} {rs : List FeedResult} :
    rs.foldl FeedScore.add { feed := name } = totals name rs := by
  induction rs using List.reverseRecOn with
  | nil => rfl
  | append_singleton rs r ih => rw [List.foldl_append, ih, totals_snoc]; rfl

/-! ## The batch scorer -/

section

variable {weights : Dict String Int} {ap : String}

/-- What the scan holds of a round. -/
theorem gather_round {rvs : List Reveal} {r : Int} :
    let g := rvs.foldl (gather ap weights) {}
    let here := rvs.filter fun rv => rv.round = r
    (∀ i, ((((g.votes.get? r).getD Dict.empty).get? i).getD []) = votesOn weights here i) ∧
      g.ap.get? r = ownValues ap here := by
  induction rvs using List.reverseRecOn with
  | nil => exact ⟨fun i => rfl, rfl⟩
  | append_singleton rvs rv ih =>
    obtain ⟨hvotes, hap⟩ := ih
    dsimp only
    rw [List.foldl_append, List.filter_append, List.foldl_cons, List.foldl_nil]
    generalize rvs.foldl (gather ap weights) {} = g at hvotes hap ⊢
    by_cases hr : rv.round = r
    · rw [List.filter_cons_of_pos (by simpa using hr), List.filter_nil, ownValues_snoc]
      constructor
      · intro i
        rw [votesOn_append, ← hvotes i]
        unfold gather votesOn
        simp only [List.flatMap_cons, List.flatMap_nil, List.append_nil]
        cases weights.get? rv.fromLc with
        | none => simp
        | some w =>
          dsimp only
          rw [hr, Dict.get?_set_self, Option.getD_some, addVotes_get?, if_pos (Nat.zero_le i),
            Nat.sub_zero]
      · unfold gather
        dsimp only
        by_cases hown : rv.fromLc = ap
        · rw [if_pos hown, if_pos hown, hr, Dict.get?_set_self]
        · rw [if_neg hown, if_neg hown, hap]
    · rw [List.filter_cons_of_neg (by simpa using hr), List.filter_nil, List.append_nil]
      constructor
      · intro i
        rw [← hvotes i]
        unfold gather
        cases weights.get? rv.fromLc with
        | none => rfl
        | some w =>
          dsimp only
          rw [Dict.get?_set, if_neg hr]
      · rw [← hap]
        unfold gather
        dsimp only
        split
        · rw [Dict.get?_set, if_neg hr]
        · rfl

end

section

variable [FtsoRules] {offer : OfferParams} {i : Nat} {name : String}

/-- The batch scorer classifies a feed as the streaming one does. -/
theorem batchFeed_eq {votes : Dict Nat (List FtsoVote)} {apVals : List (Option Int)}
    {fs : FeedScore} : batchFeed offer votes apVals i name fs =
      (scoreFeed offer votes apVals i name).toList.foldl FeedScore.add fs := by
  unfold batchFeed scoreFeed
  cases votes.get? i with
  | none => rfl
  | some vs =>
    cases vs with
    | nil => rfl
    | cons v vs =>
      cases apVals[i]? with
      | none => rfl
      | some x =>
        cases x with
        | none => rfl
        | some value => simp [FeedScore.add]

theorem batchFeeds_get? {votes : Dict Nat (List FtsoVote)} {apVals : List (Option Int)} :
    ∀ {names : List String} {i : Nat} {scores : Dict String FeedScore}, names.Nodup →
      (batchFeeds offer votes apVals i names scores).get? name =
        if name ∈ names then
          (scores.get? name).map (batchFeed offer votes apVals (i + names.idxOf name) name)
        else scores.get? name
  | [], i, scores, _ => by simp [batchFeeds]
  | n :: names, i, scores, h => by
    obtain ⟨hn, hnames⟩ := List.nodup_cons.mp h
    rw [batchFeeds, batchFeeds_get? hnames]
    by_cases heq : n = name
    · subst heq
      rw [if_neg hn, if_pos List.mem_cons_self, List.idxOf_cons_self, Nat.add_zero]
      cases hfs : scores.get? n with
      | some fs => exact Dict.get?_set_self
      | none => exact hfs
    · rw [List.idxOf_cons_ne _ heq, show i + (names.idxOf name + 1) =
        i + 1 + names.idxOf name by omega]
      cases hfs : scores.get? n with
      | some fs => simp [Dict.get?_set, heq, Ne.symm heq]
      | none => simp [Ne.symm heq]

/-- The result of a feed in a round that was scanned, if AP revealed in it. -/
def scannedResult (offer : OfferParams) (weights : Dict String Int) (ap : String)
    (rvs : List Reveal) (name : String) : Option FeedResult :=
  (ownValues ap rvs).bind fun apVals =>
    resultOn offer (votesOn weights rvs (offer.feeds.idxOf name)) apVals (offer.feeds.idxOf name) name

theorem scannedResult_perm {weights : Dict String Int} {ap : String} {rvs rvs' : List Reveal}
    (hmedian : ∀ l l' : List FtsoVote, l.Perm l' → calculateMedian l = calculateMedian l')
    (h : rvs.Perm rvs') (honce : rvs.countP (fun rv => rv.fromLc = ap) ≤ 1) :
    scannedResult offer weights ap rvs name = scannedResult offer weights ap rvs' name := by
  unfold scannedResult
  rw [ownValues_perm h honce]
  refine Option.bind_congr fun apVals _ => ?_
  exact resultOn_perm hmedian (votesOn_perm h)

theorem foldl_batchRound_get? {weights : Dict String Int} {ap : String} {rvs : List Reveal}
    (hfeeds : offer.feeds.Nodup) (hname : name ∈ offer.feeds) :
    ∀ {rounds : List Int} {acc : Dict String FeedScore × Nat},
      (rounds.foldl (batchRound offer (rvs.foldl (gather ap weights) {})) acc).1.get? name =
        (acc.1.get? name).map fun fs =>
          (rounds.filterMap fun r =>
            scannedResult offer weights ap (rvs.filter fun rv => rv.round = r) name).foldl
              FeedScore.add fs
  | [], acc => by simp
  | r :: rounds, acc => by
    obtain ⟨hvotes, hap⟩ := @gather_round weights ap rvs r
    rw [List.foldl_cons, foldl_batchRound_get? hfeeds hname]
    unfold batchRound
    rw [hap]
    cases hown : ownValues ap (rvs.filter fun rv => rv.round = r) with
    | none => simp [scannedResult, hown]
    | some apVals =>
      dsimp only
      rw [batchFeeds_get? hfeeds, if_pos hname, Nat.zero_add]
      have hresult : scannedResult offer weights ap (rvs.filter fun rv => rv.round = r) name =
          scoreFeed offer (((rvs.foldl (gather ap weights) {}).votes.get? r).getD Dict.empty) apVals
            (offer.feeds.idxOf name) name := by
        rw [scoreFeed_eq, hvotes]
        unfold scannedResult
        rw [hown]
        rfl
      cases hscore : acc.1.get? name with
      | none => rfl
      | some fs =>
        simp only [Option.map_some, batchFeed_eq, List.filterMap_cons, hresult]
        cases scoreFeed offer (((rvs.foldl (gather ap weights) {}).votes.get? r).getD Dict.empty)
          apVals (offer.feeds.idxOf name) name with
        | none => rfl
        | some res => rfl

omit [FtsoRules] in
theorem freshScores_get? : ∀ {names : List String} {d : Dict String FeedScore}, name ∈ names →
    (names.foldl (fun d name => d.set name ({ feed := name } : FeedScore)) d).get? name =
      some { feed := name } := by
  intro names
  induction names using List.reverseRecOn with
  | nil =>
    intro d h
    cases h
  | append_singleton names n ih =>
    intro d h
    rw [List.foldl_append]
    show (Dict.set _ n ({ feed := n } : FeedScore)).get? name = _
    rw [Dict.get?_set]
    by_cases heq : n = name
    · rw [if_pos heq, heq]
    · rw [if_neg heq]
      refine ih ?_
      rcases List.mem_append.mp h with hmem | hmem
      · exact hmem
      · exact absurd (List.mem_singleton.mp hmem).symm heq

/-- The score of a feed: the totals of its results, round by round. -/
theorem scoreAp_get? [Messaging] {submission apSubmit : String} {weights : Dict String Int}
    {factory : VotingFactory} {cur : Int} {rounds : Nat} {blocks : List Block}
    (hfeeds : offer.feeds.Nodup) (hname : name ∈ offer.feeds) :
    let scanned := scanBlocks (Py.lower submission) factory (scoredSpan cur rounds) blocks
    (scoreAp submission apSubmit offer weights factory cur rounds blocks).1.get? name =
      some (totals name ((scoredSpan cur rounds).rounds.filterMap fun r =>
        scannedResult offer weights (Py.lower apSubmit)
          (scanned.filter fun rv => rv.round = r) name)) := by
  intro scanned
  unfold scoreAp
  dsimp only
  rw [foldl_batchRound_get? hfeeds hname, freshScores_get? hname, Option.map_some, foldl_add]

end

end Clif.Observe
