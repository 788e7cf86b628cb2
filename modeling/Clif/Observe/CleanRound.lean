import Mathlib.Data.List.Permutation
import Clif.Observe.Accounted
import Clif.Observe.Live

/-!
# Observe.CleanRound — a round with its commit and its reveal raises no alarm

What is in flight for an open round shows the commits and reveals of AP in the order in which they
were processed (`shown_run`); the verdict of a round with one of each, both in their windows, is
clean (`cleanRound`).
-/

namespace Clif.Observe

/-! ## What AP sent -/

/-- AP's submission in a transaction. -/
def submissionOf [Messaging] (cfg : EngineConfig) (setup : ObserverSetup) (tx : Tx) :
    Option Decoded :=
  if Py.lower (tx.toAddr.getD "") = cfg.submission ∧
      Py.lower (tx.fromAddr.getD "") = setup.submitLc then
    decodeSubmit (tx.input.getD "0x")
  else none

/-- The submission is a commit or a reveal for the round. -/
def Decoded.isFor (r : Int) (d : Decoded) : Bool :=
  decide (d.roundId = r) && (d.kind == "submit1" || d.kind == "submit2")

/-- AP's commits and reveals for the round in a block, with the time of the block. -/
def blockSubmissions [Messaging] (cfg : EngineConfig) (setup : ObserverSetup) (r : Int)
    (blk : Block) : List (Int × Decoded) :=
  ((blk.transactions.filterMap (submissionOf cfg setup)).filter (Decoded.isFor r)).map
    fun d => (blk.timestamp, d)

/-- AP's commits and reveals for the round in the blocks of a run. -/
def submissionsIn [Messaging] (cfg : EngineConfig) (setup : ObserverSetup) (r : Int)
    (hs : List Happening) : List (Int × Decoded) :=
  hs.flatMap fun h =>
    match h.event with
    | .block blk _ _ => blockSubmissions cfg setup r blk
    | _ => []

/-- The write of a commit or a reveal. -/
def submitOp (f : VotingFactory) (r : Int) (x : Int × Decoded) : RoundOp :=
  let within := fun (w : Int × Int) => decide (w.1 ≤ x.1 ∧ x.1 ≤ w.2)
  if x.2.kind = "submit1" then .submit1 (within (f.submit1Window r)) x.2.commitHash
  else .submit2 (within (f.submit2Window r)) x.2.revealRandom x.2.revealFeedBytes

/-! ## What a round shows of it -/

/-- The part of a round that the verdict on the commit and the reveal is made from. -/
structure Shown where
  submit1Seen : Bool := false
  submit1Ontime : Bool := false
  submit1Commit : Option Bytes := none
  submit2Seen : Bool := false
  submit2Ontime : Bool := false
  submit2Random : Option Int := none
  submit2FeedBytes : Option Bytes := none
  fdcGap : Bool := false
  revealOffence : Bool := false
  issues : List String := []

def RoundState.shown (rs : RoundState) : Shown where
  submit1Seen := rs.submit1Seen
  submit1Ontime := rs.submit1Ontime
  submit1Commit := rs.submit1Commit
  submit2Seen := rs.submit2Seen
  submit2Ontime := rs.submit2Ontime
  submit2Random := rs.submit2Random
  submit2FeedBytes := rs.submit2FeedBytes
  fdcGap := rs.fdcGap
  revealOffence := rs.revealOffence
  issues := rs.issues

/-- What is in flight for the round; a round that is not shows nothing. -/
def shownOf : Option RoundState → Shown
  | some rs => rs.shown
  | none => {}

def Shown.write (v : Shown) : RoundOp → Shown
  | .submit1 ontime commit =>
    { v with submit1Seen := true, submit1Ontime := ontime, submit1Commit := commit }
  | .submit2 ontime random feedBytes =>
    { v with submit2Seen := true, submit2Ontime := ontime, submit2Random := random,
             submit2FeedBytes := feedBytes }
  | _ => v

def RoundOp.isSubmit : RoundOp → Bool
  | .submit1 .. => true
  | .submit2 .. => true
  | _ => false

theorem shown_apply {op : RoundOp} {rs : RoundState} :
    (op.apply rs).shown = rs.shown.write op := by
  cases op <;> rfl

theorem write_of_not_submit {op : RoundOp} {v : Shown} (h : op.isSubmit = false) :
    v.write op = v := by
  cases op with
  | submit1 | submit2 => simp [RoundOp.isSubmit] at h
  | _ => rfl

theorem shownOf_written {far : Bool} {r : Int} {rs : Option RoundState} {op : RoundOp}
    (h : far = false ∨ op.isSubmit = false) :
    shownOf (ObserverState.written far r rs op) = (shownOf rs).write op := by
  cases rs with
  | some rs => exact shown_apply
  | none =>
    rcases h with rfl | h
    · exact shown_apply
    · rw [write_of_not_submit h]
      cases far with
      | true => rfl
      | false =>
        refine shown_apply.trans ?_
        rw [write_of_not_submit h]
        rfl

/-- Only the commits and reveals among the writes count. -/
theorem shownOf_foldl {far : Bool} {r : Int} {rs : Option RoundState} {ops : List RoundOp}
    (h : far = false ∨ ops.filter RoundOp.isSubmit = []) :
    shownOf (ops.foldl (ObserverState.written far r) rs) =
      (ops.filter RoundOp.isSubmit).foldl Shown.write (shownOf rs) := by
  induction ops generalizing rs with
  | nil => rfl
  | cons op ops ih =>
    have hop : far = false ∨ op.isSubmit = false := by
      rcases h with h | h
      · exact .inl h
      · right
        by_contra hsubmit
        rw [List.filter_cons_of_pos (by simpa using hsubmit)] at h
        cases h
    have hops : far = false ∨ ops.filter RoundOp.isSubmit = [] := by
      rcases h with h | h
      · exact .inl h
      · right
        rcases hop with hfar | hsubmit
        · rw [List.filter_eq_nil_iff] at h ⊢
          exact fun x hx => h x (List.mem_cons_of_mem op hx)
        · rwa [List.filter_cons_of_neg (by simp [hsubmit])] at h
    rw [List.foldl_cons, ih hops, shownOf_written hop]
    cases hsubmit : op.isSubmit with
    | true => rw [List.filter_cons_of_pos hsubmit, List.foldl_cons]
    | false =>
      rw [List.filter_cons_of_neg (by simp [hsubmit]), write_of_not_submit hsubmit]

/-! ## What a block shows -/

namespace ObserverState

theorem opsFor_append {r : Int} {ops ops' : List (Int × RoundOp)} :
    opsFor r (ops ++ ops') = opsFor r ops ++ opsFor r ops' := List.filterMap_append

end ObserverState

/-- The commits and reveals for the round among writes. -/
def submitsFor (r : Int) (ops : List (Int × RoundOp)) : List RoundOp :=
  (ObserverState.opsFor r ops).filter RoundOp.isSubmit

theorem submitsFor_append {r : Int} {ops ops' : List (Int × RoundOp)} :
    submitsFor r (ops ++ ops') = submitsFor r ops ++ submitsFor r ops' := by
  unfold submitsFor
  rw [ObserverState.opsFor_append, List.filter_append]

theorem submitsFor_none {r : Int} {ops : List (Int × RoundOp)}
    (h : ∀ x ∈ ops, x.2.isSubmit = false) : submitsFor r ops = [] := by
  refine List.filter_eq_nil_iff.mpr fun op hop => ?_
  obtain ⟨x, hx, hxop⟩ := List.mem_filterMap.mp hop
  split at hxop
  · cases hxop
    simp [h x hx]
  · cases hxop

theorem submitsFor_bitvoteOps {r : Int} {d : Decoded} :
    submitsFor r (ObserverState.bitvoteOps d) = [] := by
  refine submitsFor_none fun x hx => ?_
  unfold ObserverState.bitvoteOps at hx
  split at hx
  · rw [List.mem_singleton] at hx
    subst hx
    rfl
  · cases hx

theorem submitsFor_fdcSignatureOps {r : Int} {d : Decoded} :
    submitsFor r (ObserverState.fdcSignatureOps d) = [] := by
  refine submitsFor_none fun x hx => ?_
  unfold ObserverState.fdcSignatureOps at hx
  split at hx
  · rw [List.mem_singleton] at hx
    subst hx
    rfl
  · cases hx

theorem submitsFor_cons {r : Int} {x : Int × RoundOp} {ops : List (Int × RoundOp)} :
    submitsFor r (x :: ops) =
      (if x.1 = r ∧ x.2.isSubmit = true then [x.2] else []) ++ submitsFor r ops := by
  unfold submitsFor ObserverState.opsFor
  by_cases hr : x.1 = r
  · by_cases hsubmit : x.2.isSubmit = true
    · simp [hr, hsubmit]
    · simp [hr, hsubmit]
  · simp [hr]

theorem submitsFor_recordOps {st : ObserverState} {r : Int} {d : Decoded} {addr : String}
    {ts : Int} : submitsFor r (st.recordOps d addr ts) =
      if Py.lower addr = st.submitLc ∧ d.isFor r = true then [submitOp st.factory r (ts, d)]
      else [] := by
  have hnil : submitsFor r [] = [] := rfl
  unfold ObserverState.recordOps
  by_cases h1 : d.kind = "submit1" ∧ Py.lower addr = st.submitLc
  · rw [if_pos h1, submitsFor_cons, hnil, List.append_nil]
    by_cases hr : d.roundId = r
    · simp [h1, hr, Decoded.isFor, submitOp, RoundOp.isSubmit]
    · simp [hr, Decoded.isFor]
  · rw [if_neg h1]
    by_cases h2 : d.kind = "submit2" ∧ Py.lower addr = st.submitLc
    · rw [if_pos h2, submitsFor_cons, submitsFor_bitvoteOps, List.append_nil]
      by_cases hr : d.roundId = r
      · simp [h2, hr, Decoded.isFor, submitOp, RoundOp.isSubmit]
      · simp [hr, Decoded.isFor]
    · have hnone : ¬ (Py.lower addr = st.submitLc ∧ d.isFor r = true) := by
        rintro ⟨hsub, hfor⟩
        simp only [Decoded.isFor, Bool.and_eq_true, Bool.or_eq_true, beq_iff_eq] at hfor
        rcases hfor.2 with h | h
        · exact h1 ⟨h, hsub⟩
        · exact h2 ⟨h, hsub⟩
      rw [if_neg h2, if_neg hnone]
      split
      · rw [submitsFor_cons, submitsFor_fdcSignatureOps]
        simp [RoundOp.isSubmit]
      · rw [submitsFor_cons]
        simp [RoundOp.isSubmit, hnil]

section

variable [Messaging] {cfg : EngineConfig} {s : EngineState} {r : Int}

theorem submitsFor_txOps {ts : Int} {tx : Tx} :
    submitsFor r (s.txOps cfg ts tx) =
      ((submissionOf cfg s.obs.toObserverSetup tx).toList.filter (Decoded.isFor r)).map
        fun d => submitOp s.obs.factory r (ts, d) := by
  unfold EngineState.txOps submissionOf
  by_cases hto : Py.lower (tx.toAddr.getD "") = cfg.submission
  · have hreveal : ∀ x ∈ s.revealOps (Py.lower (tx.fromAddr.getD "")) (tx.input.getD "0x"),
        x.2.isSubmit = false := by
      intro x hx
      unfold EngineState.revealOps at hx
      split at hx
      · split at hx
        · rw [List.mem_singleton] at hx
          subst hx
          rfl
        · cases hx
      · cases hx
    simp only [hto, ne_eq, not_true_eq_false, if_false, true_and]
    rw [submitsFor_append, submitsFor_none hreveal, List.append_nil]
    unfold EngineState.ownOps
    by_cases hfrom : Py.lower (tx.fromAddr.getD "") = s.obs.submitLc
    · have hlower : Py.lower s.obs.submitLc = s.obs.submitLc := Py.lower_lower _
      simp only [hfrom, true_or, if_true]
      cases hd : decodeSubmit (tx.input.getD "0x") with
      | none => rfl
      | some d =>
        simp only [submitsFor_recordOps, hlower, true_and]
        by_cases hfor : d.isFor r = true
        · simp [hfor]
        · simp [hfor]
    · simp only [hfrom, false_or, if_false]
      split
      · split
        · rw [submitsFor_recordOps, Py.lower_lower, if_neg (by simp [hfrom])]
          rfl
        · rfl
      · rfl
  · simp only [hto, ne_eq, not_false_eq_true, if_true, false_and, if_false]
    rfl

omit [Messaging] in
theorem isSubmit_of_flushOps {tsMap : Dict Nat Int} {fdcLogs fuLogs : Option (List Nat)}
    {x : Int × RoundOp} (hx : x ∈ s.flushOps cfg tsMap fdcLogs fuLogs) :
    x.2 = .fdcRequest ∨ x.2 = .fastUpdate := by
  have hlog : ∀ op logs, x ∈ s.logOps tsMap op logs → x.2 = op := by
    intro op logs hx
    unfold EngineState.logOps at hx
    split at hx
    · cases hx
    · obtain ⟨n, -, hn⟩ := List.mem_filterMap.mp hx
      obtain ⟨bts, -, rfl⟩ := Option.map_eq_some_iff.mp hn
      rfl
  unfold EngineState.flushOps at hx
  rcases List.mem_append.mp hx with hx | hx
  · split at hx
    · exact .inl (hlog _ _ hx)
    · cases hx
  · split at hx
    · exact .inr (hlog _ _ hx)
    · cases hx

omit [Messaging] in
theorem submitsFor_flushOps {tsMap : Dict Nat Int} {fdcLogs fuLogs : Option (List Nat)} :
    submitsFor r (s.flushOps cfg tsMap fdcLogs fuLogs) = [] := by
  refine submitsFor_none fun x hx => ?_
  rcases isSubmit_of_flushOps hx with h | h
  · rw [h]
    rfl
  · rw [h]
    rfl

theorem submitsFor_blockOps {blk : Block} {fdcLogs fuLogs : Option (List Nat)} :
    submitsFor r (s.blockOps cfg blk fdcLogs fuLogs) =
      (blockSubmissions cfg s.obs.toObserverSetup r blk).map (submitOp s.obs.factory r) := by
  have hflush : submitsFor r (if s.flushes then
      s.flushOps cfg (s.tsMap.set s.cursor blk.timestamp) fdcLogs fuLogs else []) = [] := by
    split
    · exact submitsFor_flushOps
    · rfl
  unfold EngineState.blockOps blockSubmissions
  rw [submitsFor_append, hflush, List.append_nil, List.map_map]
  induction blk.transactions with
  | nil => rfl
  | cons tx txs ih =>
    rw [List.flatMap_cons, submitsFor_append, submitsFor_txOps, ih]
    cases hsub : submissionOf cfg s.obs.toObserverSetup tx with
    | none => simp [hsub]
    | some d =>
      by_cases hfor : d.isFor r = true
      · simp [hsub, hfor]
      · simp [hsub, hfor]

/-! ## What a run shows -/

/-- No block with a commit or a reveal for the round comes so long after the last one that the
round counts as too far ahead. -/
def Heeded (cfg : EngineConfig) (r : Int) (s : EngineState) (h : Happening) : Prop :=
  ∀ blk fdcLogs fuLogs, h.event = .block blk fdcLogs fuLogs →
    blockSubmissions cfg s.obs.toObserverSetup r blk ≠ [] → s.obs.tooFar r = false

theorem gathered_shown {blk : Block} {fdcLogs fuLogs : Option (List Nat)}
    (hf : s.obs.factory.Lawful) (hahead : Ahead s)
    (hfirst : s.obs.lastTs = none → ∀ x ∈ s.blockOps cfg blk fdcLogs fuLogs,
      x.1 ≤ s.obs.factory.roundAt blk.timestamp + futureRoundMargin)
    (hopen : ∀ last, s.obs.lastTs = some last → s.obs.factory.due r last = false)
    (hopen' : s.obs.lastTs = none → s.obs.factory.due r blk.timestamp = false)
    (hheed : blockSubmissions cfg s.obs.toObserverSetup r blk ≠ [] → s.obs.tooFar r = false) :
    shownOf ((s.gathered cfg blk fdcLogs fuLogs).rounds.get? r) =
      ((blockSubmissions cfg s.obs.toObserverSetup r blk).map (submitOp s.obs.factory r)).foldl
        Shown.write (shownOf (s.obs.rounds.get? r)) := by
  have hops := @submitsFor_blockOps _ cfg s r blk fdcLogs fuLogs
  have hfar : s.obs.tooFar r = false ∨
      submitsFor r (s.blockOps cfg blk fdcLogs fuLogs) = [] := by
    by_cases hnone : blockSubmissions cfg s.obs.toObserverSetup r blk = []
    · right
      rw [hops, hnone]
      rfl
    · exact .inl (hheed hnone)
  rw [gathered_get? hf hahead hfirst hopen hopen', shownOf_foldl hfar]
  unfold submitsFor at hops
  rw [hops]

omit [Messaging] in
/-- The events that are read show nothing of commits and reveals. -/
theorem flushed_shown {a : PauseAnswers} (hf : s.obs.factory.Lawful) (hahead : Ahead s)
    (hopen : ∀ last, s.obs.lastTs = some last → s.obs.factory.due r last = false) :
    shownOf ((s.flushTrailing cfg a).obs.rounds.get? r) = shownOf (s.obs.rounds.get? r) := by
  by_cases hflush : s.scanLo < s.cursor
  · have hnone := @submitsFor_flushOps cfg s r s.tsMap a.fdcLogs a.fuLogs
    rw [flushed_get? hf hahead hopen hflush, shownOf_foldl (.inr hnone)]
    unfold submitsFor at hnone
    rw [hnone]
    rfl
  · unfold EngineState.flushTrailing
    rw [if_neg hflush]

variable [FtsoRules] {s' s₀ : EngineState} {h : Happening} {hs : List Happening}
  {setup : ObserverSetup} {first : Nat}

omit [FtsoRules] in
theorem submissionsIn_concat :
    submissionsIn cfg setup r (hs ++ [h]) =
      submissionsIn cfg setup r hs ++ submissionsIn cfg setup r [h] := List.flatMap_append

theorem shown_step (hf : s.obs.factory.Lawful) (hahead : Ahead s) (hstep : TimedStep cfg s h s')
    (hfirst : FirstNear cfg s h) (hheed : Heeded cfg r s h) (hopen : s'.obs.closed r = false) :
    shownOf (s'.obs.rounds.get? r) =
      ((submissionsIn cfg s.obs.toObserverSetup r [h]).map (submitOp s.obs.factory r)).foldl
        Shown.write (shownOf (s.obs.rounds.get? r)) := by
  rcases hstep.cases with ⟨head, hevent, rfl, -⟩ |
    ⟨blk, fdcLogs, fuLogs, hevent, htime, rfl, -⟩ | ⟨a, hevent, rfl, -⟩
  · rw [poll_obs]
    simp [submissionsIn, hevent]
  · have hsetup := congrArg ObserverSetup.factory
      (@EngineState.gathered_setup cfg s _ blk fdcLogs fuLogs)
    have hts : s.obs.factory.due r blk.timestamp = false := by
      rwa [block_closed] at hopen
    rw [EngineState.block_obs, ObserverState.sweep_swept.rounds, hsetup,
      if_neg (by simp [hts]),
      gathered_shown hf hahead (hfirst blk fdcLogs fuLogs hevent)
        (fun last hlast => VotingFactory.open_of_le (htime last hlast) hts) (fun _ => hts)
        (hheed blk fdcLogs fuLogs hevent)]
    simp [submissionsIn, hevent]
  · have hkept := @EngineState.pause_kept cfg s a
    have hopen' : ∀ last, s.obs.lastTs = some last → s.obs.factory.due r last = false := by
      intro last h
      rw [pause_closed] at hopen
      unfold ObserverState.closed at hopen
      rw [h] at hopen
      exact hopen
    rw [hkept.rounds, flushed_shown hf hahead hopen']
    simp [submissionsIn, hevent]

/-- An open round shows the commits and reveals so far, in their order. -/
theorem shown_run (hstart : EngineState.Started setup first s₀) (hf : setup.factory.Lawful)
    (hrun : Effect.Run (TimedStep cfg) s₀ hs s)
    (hcond : Effect.EachStep (TimedStep cfg) s₀
      (fun s h => FirstNear cfg s h ∧ Heeded cfg r s h) hs)
    (hopen : s.obs.closed r = false) :
    shownOf (s.obs.rounds.get? r) =
      ((submissionsIn cfg setup r hs).map (submitOp setup.factory r)).foldl Shown.write {} := by
  induction hrun with
  | nil =>
    rw [hstart.rounds]
    rfl
  | @snoc hs u h v hrun hstep ih =>
    have hcond' := hcond.shorter (List.prefix_append hs [h])
    obtain ⟨hsetup, hahead⟩ := ahead_run hstart hf hrun fun hs₁ h₁ s₁ hpre hrun₁ =>
      (hcond' hs₁ h₁ s₁ hpre hrun₁).1
    have hnow := hcond hs h u List.prefix_rfl hrun
    have hf' : u.obs.factory.Lawful := by
      rw [congrArg ObserverSetup.factory hsetup]
      exact hf
    rw [shown_step hf' hahead hstep hnow.1 hnow.2 hopen, ih hcond' (open_of_step hstep hopen),
      submissionsIn_concat, List.map_append, List.foldl_append, hsetup]

/-! ## The verdict -/

/-- The issue that a missing bitvote gives, whatever becomes of the commit and the reveal. -/
def RoundState.fdcIssue (rs : RoundState) : List String :=
  if rs.fdcExpected && !rs.fdcBitvoteSeen then
    [s!"FDC: no bitvote (~{rs.fdcRequestCount} request(s) this round)"]
  else []

omit [FtsoRules] [Messaging] in
/-- What one commit and one reveal, both in their windows, make of a round. -/
theorem shown_both {f : VotingFactory} {x y : Int × Decoded}
    (hx : x.2.kind = "submit1") (hy : y.2.kind = "submit2")
    (hwx : f.startS r ≤ x.1 ∧ x.1 ≤ f.endS r)
    (hwy : f.startS (r + 1) ≤ y.1 ∧ y.1 ≤ f.revealDeadline (r + 1))
    {l : List (Int × Decoded)} (hl : l.Perm [x, y]) :
    (l.map (submitOp f r)).foldl Shown.write {} =
      { submit1Seen := true, submit1Ontime := true, submit1Commit := x.2.commitHash
        submit2Seen := true, submit2Ontime := true, submit2Random := y.2.revealRandom
        submit2FeedBytes := y.2.revealFeedBytes } := by
  have hopx : submitOp f r x = .submit1 true x.2.commitHash := by
    simp [submitOp, hx, VotingFactory.submit1Window, hwx.1, hwx.2]
  have hopy : submitOp f r y = .submit2 true y.2.revealRandom y.2.revealFeedBytes := by
    simp [submitOp, hy, VotingFactory.submit2Window, hwy.1, hwy.2]
  rcases List.perm_pair.mp hl with rfl | rfl
  · simp [hopx, hopy, Shown.write]
  · simp [hopx, hopy, Shown.write]

omit [Messaging] in
/-- The verdict on a round that shows a commit and a matching reveal, both in their windows. -/
theorem check_clean {rs : RoundState} {ourSubmit : String} {commit feed : Option Bytes}
    {random : Option Int}
    (hshown : rs.shown =
      { submit1Seen := true, submit1Ontime := true, submit1Commit := commit
        submit2Seen := true, submit2Ontime := true, submit2Random := random
        submit2FeedBytes := feed })
    (hmatch : ∀ c, commit = some c →
      Py.toHex c = commitHash ourSubmit rs.roundId (random.getD 0) (feed.getD [])) :
    (rs.check ourSubmit).clean = true ∧
      (rs.check ourSubmit).issues = (rs.check ourSubmit).fdcIssue := by
  obtain ⟨h1, h2, h3, h4, h5, h6, h7, h8, h9, h10⟩ := Shown.mk.inj hshown
  have hmismatch : rs.mismatch ourSubmit = false := by
    unfold RoundState.mismatch
    rw [h3, h6, h7]
    cases commit with
    | none => rfl
    | some c => simp [hmatch c rfl]
  constructor
  · simp [RoundState.check, RoundState.clean, h1, h2, h4, h5, h9, hmismatch]
  · simp [RoundState.check, RoundState.fdcIssue, RoundState.fdcExpected, h1, h2, h4, h5, h10,
      hmismatch]

/-- The times of the blocks of a run that begins after a block with the time `t`. -/
theorem le_of_mem_submissionsIn {t : Int} (hlast : s₀.obs.lastTs = some t)
    (hrun : Effect.Run (TimedStep cfg) s₀ hs s) :
    (∃ last, s.obs.lastTs = some last ∧ t ≤ last) ∧
      ∀ x ∈ submissionsIn cfg setup r hs, t ≤ x.1 := by
  induction hrun with
  | nil => exact ⟨⟨t, hlast, le_rfl⟩, by simp [submissionsIn]⟩
  | @snoc hs u h v hrun hstep ih =>
    obtain ⟨⟨last, hu, hle⟩, hall⟩ := ih
    have hnew : (∃ last, v.obs.lastTs = some last ∧ t ≤ last) ∧
        ∀ x ∈ submissionsIn cfg setup r [h], t ≤ x.1 := by
      rcases hstep.cases with ⟨head, hevent, rfl, -⟩ |
        ⟨blk, fdcLogs, fuLogs, hevent, htime, rfl, -⟩ | ⟨a, hevent, rfl, -⟩
      · rw [poll_obs]
        exact ⟨⟨last, hu, hle⟩, by simp [submissionsIn, hevent]⟩
      · have hts := hle.trans (htime last hu)
        refine ⟨⟨blk.timestamp, EngineState.block_lastTs, hts⟩, fun x hx => ?_⟩
        have hx' : x ∈ blockSubmissions cfg setup r blk := by simpa [submissionsIn, hevent] using hx
        obtain ⟨d, -, rfl⟩ := List.mem_map.mp hx'
        exact hts
      · refine ⟨⟨last, ?_, hle⟩, by simp [submissionsIn, hevent]⟩
        exact (EngineState.pause_kept.lastTs.trans EngineState.flushTrailing_lastTs).trans hu
    refine ⟨hnew.1, fun x hx => ?_⟩
    rw [submissionsIn_concat] at hx
    rcases List.mem_append.mp hx with hx | hx
    · exact hall x hx
    · exact hnew.2 x hx

/-- Before the first block there is no submission. -/
theorem submissionsIn_before (hrun : Effect.Run (TimedStep cfg) s₀ hs s)
    (hlast : s.obs.lastTs = none) : submissionsIn cfg setup r hs = [] := by
  induction hrun with
  | nil => rfl
  | @snoc hs u h v hrun hstep ih =>
    rcases hstep.cases with ⟨head, hevent, rfl, -⟩ |
      ⟨blk, fdcLogs, fuLogs, hevent, -, rfl, -⟩ | ⟨a, hevent, rfl, -⟩
    · rw [poll_obs] at hlast
      rw [submissionsIn_concat, ih hlast]
      simp [submissionsIn, hevent]
    · rw [EngineState.block_lastTs] at hlast
      cases hlast
    · rw [EngineState.pause_kept.lastTs, EngineState.flushTrailing_lastTs] at hlast
      rw [submissionsIn_concat, ih hlast]
      simp [submissionsIn, hevent]

/-- The step that closes the round. -/
def Closing (cfg : EngineConfig) (s₀ : EngineState) (r : Int) (before : List Happening)
    (h : Happening) : Prop :=
  ∃ u v, Effect.Run (TimedStep cfg) s₀ before u ∧ TimedStep cfg u h v ∧
    u.obs.closed r = false ∧ v.obs.closed r = true

/-- The happenings finalize the round for the first time, cleanly, and with no issue but the one of
a missing bitvote. -/
structure FinalizedClean (r : Int) (before : List Happening) (h : Happening) : Prop where
  first : ((finalizedIn (noticesOf before)).map RoundState.roundId).count r = 0
  once : ((finalizedIn h.notices).map RoundState.roundId).count r = 1
  clean : ∀ rs ∈ finalizedIn h.notices, rs.roundId = r →
    rs.clean = true ∧ rs.issues = rs.fdcIssue

omit [FtsoRules] [Messaging] in
/-- The verdict does not depend on the reward bands. -/
theorem Judged.verdict [FtsoRules] {ourSubmit : String} {raw rs : RoundState}
    (h : ObserverState.Judged ourSubmit raw rs) :
    rs.clean = (raw.check ourSubmit).clean ∧ rs.issues = (raw.check ourSubmit).issues ∧
      rs.fdcIssue = (raw.check ourSubmit).fdcIssue := by
  obtain ⟨_, _, _, rfl⟩ := h
  exact ⟨rfl, rfl, rfl⟩

/-- What comes with the closing block, or after it, is too late to be one of the two. -/
theorem submissionsIn_closing {before later : List Happening} {x y : Int × Decoded} {blk : Block}
    {fdcLogs fuLogs : Option (List Nat)}
    (hf : setup.factory.Lawful)
    (hsub : (submissionsIn cfg setup r (before ++ h :: later)).Perm [x, y])
    (hwx : x.1 ≤ setup.factory.endS r) (hwy : y.1 ≤ setup.factory.revealDeadline (r + 1))
    (hevent : h.event = .block blk fdcLogs fuLogs)
    (hend : setup.factory.endS (r + 1) < blk.timestamp)
    (hlater : Effect.Run (TimedStep cfg) s' later s) (hlast : s'.obs.lastTs = some blk.timestamp) :
    submissionsIn cfg setup r [h] = [] ∧ (submissionsIn cfg setup r before).Perm [x, y] := by
  have hlate : ∀ z ∈ submissionsIn cfg setup r (before ++ h :: later), z.1 < blk.timestamp := by
    intro z hz
    have hxend := (hf.ends r).2
    have hgap := (hf.ends (r + 1)).1
    have hyend := (hf.reveal (r + 1)).2
    rcases List.mem_pair.mp (hsub.mem_iff.mp hz) with rfl | rfl <;> omega
  have hsplit : submissionsIn cfg setup r (before ++ h :: later) =
      submissionsIn cfg setup r before ++
        (submissionsIn cfg setup r [h] ++ submissionsIn cfg setup r later) := by
    simp [submissionsIn]
  have hnone : submissionsIn cfg setup r [h] = [] := by
    refine List.eq_nil_iff_forall_not_mem.mpr fun z hz => ?_
    have hearly := hlate z (by simp [hsplit, hz])
    have hz' : z ∈ blockSubmissions cfg setup r blk := by simpa [submissionsIn, hevent] using hz
    obtain ⟨d, -, rfl⟩ := List.mem_map.mp hz'
    exact lt_irrefl _ hearly
  have hafter : submissionsIn cfg setup r later = [] := by
    refine List.eq_nil_iff_forall_not_mem.mpr fun z hz => ?_
    have hearly := hlate z (by simp [hsplit, hz])
    have hle := (le_of_mem_submissionsIn hlast hlater).2 z hz
    omega
  rw [hsplit, hnone, hafter, List.append_nil, List.append_nil] at hsub
  exact ⟨hnone, hsub⟩

/-- A block that closes a round which shows a clean verdict finalizes it cleanly. -/
theorem finalizedClean_of_raw {before : List Happening} {blk : Block} {raw : RoundState}
    {fdcLogs fuLogs : Option (List Nat)}
    (hbefore : Effect.Run (TimedStep cfg) s₀ before s) (hsetup : s.obs.toObserverSetup = setup)
    (hr : setup.observeStartTs ≤ setup.factory.startS r) (hopen : s.obs.closed r = false)
    (hdue : setup.factory.due r blk.timestamp = true)
    (hnotices : h.notices = (s.block cfg blk fdcLogs fuLogs).2)
    (hraw : (s.gathered cfg blk fdcLogs fuLogs).rounds.get? r = some raw)
    (hclean : (raw.check setup.ourSubmit).clean = true)
    (hissues : (raw.check setup.ourSubmit).issues = (raw.check setup.ourSubmit).fdcIssue) :
    FinalizedClean r before h := by
  have hgathered : (s.gathered cfg blk fdcLogs fuLogs).toObserverSetup = setup :=
    EngineState.gathered_setup.trans hsetup
  have hru : s.obs.observeStartTs ≤ s.obs.factory.startS r := by
    rw [congrArg ObserverSetup.observeStartTs hsetup, congrArg ObserverSetup.factory hsetup]
    exact hr
  refine ⟨count_zero_of_open hbefore hru hopen, ?_, fun rs hrs hrid => ?_⟩
  · rw [hnotices, EngineState.block_finalized, ObserverState.sweep_swept.count, if_pos]
    refine ⟨Keyed.mem_keys.mpr ⟨raw, hraw⟩, ?_, ?_⟩
    · rw [congrArg ObserverSetup.factory hgathered]
      exact hdue
    · rw [congrArg ObserverSetup.factory hgathered,
        congrArg ObserverSetup.observeStartTs hgathered]
      exact hr
  · rw [hnotices, EngineState.block_finalized] at hrs
    obtain ⟨raw', hraw', hjudged⟩ := ObserverState.sweep_swept.judged rs hrs
    rw [hrid, hraw] at hraw'
    cases hraw'
    rw [congrArg ObserverSetup.ourSubmit hgathered] at hjudged
    obtain ⟨hclean', hissues', hfdc⟩ := Judged.verdict hjudged
    exact ⟨hclean'.trans hclean, hissues'.trans (hissues.trans hfdc.symm)⟩

/-- A round with one commit and one matching reveal of AP, both in their windows, is finalized in
the block that closes it: clean, and with no issue but that of a missing bitvote. -/
theorem cleanRound {file : List RoundRecord} {tallies : List IqrTally} {a : PauseAnswers}
    {x y : Int × Decoded} (hf : setup.factory.Lawful)
    (hrun : Effect.Run (TimedStep cfg) (EngineState.start cfg setup first file tallies a) hs s)
    (hr : setup.observeStartTs ≤ setup.factory.startS r)
    (hsub : (submissionsIn cfg setup r hs).Perm [x, y])
    (hx : x.2.kind = "submit1")
    (hwx : setup.factory.startS r ≤ x.1 ∧ x.1 ≤ setup.factory.endS r)
    (hy : y.2.kind = "submit2")
    (hwy : setup.factory.startS (r + 1) ≤ y.1 ∧ y.1 ≤ setup.factory.revealDeadline (r + 1))
    (hmatch : ∀ c, x.2.commitHash = some c → Py.toHex c =
      commitHash setup.ourSubmit r (y.2.revealRandom.getD 0) (y.2.revealFeedBytes.getD []))
    (hclosed : s.obs.closed r = true)
    (hcond : Effect.EachStep (TimedStep cfg) (EngineState.start cfg setup first file tallies a)
      (fun s h => FirstNear cfg s h ∧ Heeded cfg r s h) hs) :
    ∃ before h later, hs = before ++ h :: later ∧
      Closing cfg (EngineState.start cfg setup first file tallies a) r before h ∧
        FinalizedClean r before h := by
  have hstart := @EngineState.start_started cfg setup first file tallies a
  generalize EngineState.start cfg setup first file tallies a = s₀ at hrun hcond hstart
  have hopen₀ : ¬ s₀.obs.closed r = true := by
    simp [ObserverState.closed, hstart.lastTs]
  obtain ⟨before, h, later, u, v, rfl, hbefore, hstep, hopen, hclosed', hlater⟩ :=
    @Effect.Run.first _ _ _ _ _ _ (fun s => s.obs.closed r = true) hrun hopen₀ hclosed
  have hopen' : u.obs.closed r = false := by simpa using hopen
  have hcond' := hcond.shorter (List.prefix_append before (h :: later))
  have hnow := hcond before h u
    (by rw [List.prefix_append_right_inj]; exact ⟨later, rfl⟩) hbefore
  obtain ⟨hsetup, hahead⟩ := ahead_run hstart hf hbefore fun hs₁ h₁ s₁ hpre hrun₁ =>
    (hcond' hs₁ h₁ s₁ hpre hrun₁).1
  have hfactory := congrArg ObserverSetup.factory hsetup
  have hfu : u.obs.factory.Lawful := by
    rw [hfactory]
    exact hf
  rcases hstep.cases with ⟨head, -, rfl, -⟩ |
    ⟨blk, fdcLogs, fuLogs, hevent, -, rfl, hnotices⟩ | ⟨a, -, rfl, -⟩
  · rw [poll_obs, hopen'] at hclosed'
    cases hclosed'
  swap
  · rw [pause_closed, hopen'] at hclosed'
    cases hclosed'
  have hclosing : Closing cfg s₀ r before h := ⟨u, _, hbefore, hstep, hopen', hclosed'⟩
  rw [block_closed, hfactory] at hclosed'
  have hend : setup.factory.endS (r + 1) < blk.timestamp := by
    simpa [VotingFactory.due] using hclosed'
  obtain ⟨hnone, hsub'⟩ := submissionsIn_closing hf hsub hwx.2 hwy.2 hevent hend hlater
    EngineState.block_lastTs
  have hseen : ∃ last, u.obs.lastTs = some last := by
    cases hlast : u.obs.lastTs with
    | some last => exact ⟨last, rfl⟩
    | none =>
      rw [submissionsIn_before hbefore hlast] at hsub'
      cases hsub'.length_eq
  obtain ⟨last, hlast⟩ := hseen
  have hdue : ∀ last, u.obs.lastTs = some last → u.obs.factory.due r last = false := by
    intro last hlast
    unfold ObserverState.closed at hopen'
    rwa [hlast] at hopen'
  have hblk : blockSubmissions cfg u.obs.toObserverSetup r blk = [] := by
    rw [hsetup]
    simpa [submissionsIn, hevent] using hnone
  have hshown := @gathered_shown _ cfg u r blk fdcLogs fuLogs hfu hahead
    (hnow.1 blk fdcLogs fuLogs hevent) hdue (by simp [hlast]) (by simp [hblk])
  rw [hblk, List.map_nil, List.foldl_nil, shown_run hstart hf hbefore hcond' hopen',
    shown_both hx hy hwx hwy hsub'] at hshown
  cases hraw : (u.gathered cfg blk fdcLogs fuLogs).rounds.get? r with
  | none =>
    rw [hraw] at hshown
    cases congrArg Shown.submit1Seen hshown
  | some raw =>
    rw [hraw] at hshown
    have hid : raw.roundId = r := Keyed.key_of_get? hraw
    obtain ⟨hclean, hissues⟩ := check_clean hshown (by rw [hid]; exact hmatch)
    exact ⟨before, h, later, rfl, hclosing,
      finalizedClean_of_raw hbefore hsetup hr hopen' hclosed' hnotices hraw hclean hissues⟩

end

/-! ## A round with a request and no bitvote -/

/-- The commit to the random number 7 and the one feed value `80000001`, for the round 0. -/
def sampleCommit : Bytes :=
  [178, 88, 188, 120, 81, 248, 94, 219, 179, 57, 131, 163, 223, 193, 149, 132, 20, 238, 130, 182,
    202, 16, 220, 25, 168, 29, 239, 136, 137, 158, 40, 60]

@[reducible] def sampleRules : FtsoRules :=
  ⟨fun _ _ _ _ => "b258bc7851f85edbb33983a3dfc1958414ee82b6ca10dc19a81def88899e283c",
    fun _ => ⟨0, 0, 0⟩⟩

/-- The parsers, on the two messages of the round 0. -/
@[reducible] def sampleMessages : Messaging where
  parseSubmit1Tx _ := some (some ⟨0, sampleCommit⟩)
  parseSubmit2Tx _ := some ⟨some ⟨0, [some 1]⟩, none⟩
  parseSubmitSignatureTx _ := none
  parseGenericTx _ := some (some (List.replicate 31 0 ++ [7] ++ [0x80, 0, 0, 1]))
  uint256 _ := some (7, [0x80, 0, 0, 1])

def sampleTx (input : String) : Tx where
  toAddr := some sampleConfig.submission
  fromAddr := some sampleSetup.ourSubmit
  input := some input

/-- The commit at 10 s, the reveal at 100 s, and a block at 300 s; between the first two the
request of the first block is read. -/
def requestEvents : List EngineEvent :=
  [.poll (some 1), .block ⟨10, [sampleTx "0x6c532fae"]⟩ none none,
    .pause { noAnswers with fdcLogs := some [1] }, .poll (some 3),
    .block ⟨100, [sampleTx "0x9d00c9fd"]⟩ none none, .block ⟨300, []⟩ none none]

/-- The two submissions of the run. -/
def sampleSubmissions : List (Int × Decoded) :=
  [(10, { kind := "submit1", roundId := 0, commitHash := some sampleCommit }),
    (100, { kind := "submit2", roundId := 0, revealRandom := some 7,
            revealFeedBytes := some [0x80, 0, 0, 1], revealValueCount := some 1 })]

/-- What the run shows. -/
theorem request_run :
    let _ := sampleRules
    let _ := sampleMessages
    allowedAll sampleConfig sampleStart requestEvents = true ∧
      submissionsIn sampleConfig sampleSetup 0
        (happenings sampleConfig sampleStart requestEvents) = sampleSubmissions ∧
      (after sampleConfig sampleStart requestEvents).obs.closed 0 = true ∧
      (finalizedIn (noticesOf (happenings sampleConfig sampleStart requestEvents))).all
        (fun rs => !rs.issues.isEmpty) = true := by
  decide +kernel

theorem request_conditions :
    let _ := sampleRules
    let _ := sampleMessages
    EachEvent sampleConfig (fun s h => FirstNear sampleConfig s h ∧ Heeded sampleConfig 0 s h)
      sampleStart requestEvents := by
  intro _ _
  have hblock : ∀ {s : EngineState} {blk : Block} {notices : List Notice},
      (s.obs.lastTs = none → ∀ x ∈ s.blockOps sampleConfig blk none none,
        x.1 ≤ s.obs.factory.roundAt blk.timestamp + futureRoundMargin) → s.obs.tooFar 0 = false →
      FirstNear sampleConfig s ⟨.block blk none none, notices⟩ ∧
        Heeded sampleConfig 0 s ⟨.block blk none none, notices⟩ := by
    intro s blk notices hfirst hfar
    refine ⟨?_, fun _ _ _ _ _ => hfar⟩
    intro blk' fdcLogs fuLogs hevent
    cases hevent
    exact hfirst
  have hother : ∀ {s : EngineState} {e : EngineEvent} {notices : List Notice},
      (∀ blk fdcLogs fuLogs, e ≠ .block blk fdcLogs fuLogs) →
      FirstNear sampleConfig s ⟨e, notices⟩ ∧ Heeded sampleConfig 0 s ⟨e, notices⟩ := by
    intro s e notices he
    exact ⟨fun blk fdcLogs fuLogs h => absurd h (he blk fdcLogs fuLogs),
      fun blk fdcLogs fuLogs h => absurd h (he blk fdcLogs fuLogs)⟩
  refine ⟨hother (by simp), hblock ?_ ?_, hother (by simp), hother (by simp), hblock ?_ ?_,
    hblock ?_ ?_, trivial⟩
  all_goals decide +kernel

/-- The run meets all that is asked of it, and the round 0 is finalized with an issue. -/
theorem requestRound_issue :
    let _ := sampleRules
    let _ := sampleMessages
    sampleSetup.factory.Lawful ∧
      ∃ hs s, Effect.Run (TimedStep sampleConfig) sampleStart hs s ∧
        submissionsIn sampleConfig sampleSetup 0 hs = sampleSubmissions ∧
        s.obs.closed 0 = true ∧
        ¬ ∃ rs ∈ finalizedIn (noticesOf hs), rs.roundId = 0 ∧ rs.clean = true ∧ rs.issues = [] := by
  intro _ _
  refine ⟨VotingFactory.grid_lawful (by decide) (by decide), _, _,
    run_of_allowed request_run.1, request_run.2.1, request_run.2.2.1, ?_⟩
  rintro ⟨rs, hrs, -, -, hissues⟩
  have hrs' := List.all_eq_true.mp request_run.2.2.2 rs hrs
  rw [hissues] at hrs'
  cases hrs'

/-- It is clean, and finalized once, all the same. -/
theorem requestRound_clean :
    let _ := sampleRules
    let _ := sampleMessages
    ∃ before h later, happenings sampleConfig sampleStart requestEvents = before ++ h :: later ∧
      Closing sampleConfig sampleStart 0 before h ∧ FinalizedClean 0 before h := by
  intro _ _
  have hmatch : ∀ c, some sampleCommit = some c → Py.toHex c =
      "b258bc7851f85edbb33983a3dfc1958414ee82b6ca10dc19a81def88899e283c" := by
    intro c hc
    cases hc
    decide +kernel
  exact cleanRound (VotingFactory.grid_lawful (by decide) (by decide))
    (run_of_allowed request_run.1) (by decide) (by rw [request_run.2.1]; exact .refl _)
    rfl (by decide) rfl (by decide) hmatch request_run.2.2.1
    (eachStep_of_events request_conditions)

end Clif.Observe
