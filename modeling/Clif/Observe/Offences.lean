import Clif.Observe.CleanRound
import Clif.Observe.Reload
import Clif.Observe.Resume

/-!
# Observe.Offences — the reveal offences that a tally counts

A round is counted where its record has the commit and not the reveal.  Whether AP committed and
did not reveal is a matter of the chain; what the observer knows is what the node shows of the
blocks it processes while the round is open.
-/

namespace Clif.Observe

/-! ## What the ledger holds was recorded -/

namespace EngineState

variable {cfg : EngineConfig} {s : EngineState} {rec : RoundRecord} {done : List RoundState}

theorem recordRound_recorded {rs : RoundState} (hrec : rec ∈ recordedIn (s.recordRound cfg rs).2) :
    cfg.mincondHistory = true ∧ rs.roundId ∉ s.mincondRecs.keys ∧ rec = s.recordOf rs := by
  by_cases hknown : cfg.mincondHistory = false ∨ rs.roundId ∈ s.mincondRecs.keys
  · rw [recordRound_known hknown] at hrec
    cases hrec
  · rw [not_or] at hknown
    have hcfg : cfg.mincondHistory = true := by simpa using hknown.1
    rw [recordRound_new hcfg hknown.2] at hrec
    have hrolled := @rollover_recorded s (epochOf rs.roundId)
    unfold recordedIn at hrec hrolled
    rw [List.cons_append, List.filterMap_cons, List.filterMap_append, hrolled] at hrec
    exact ⟨hcfg, hknown.2, List.mem_singleton.mp hrec⟩

/-- What one round does to the ledger. -/
theorem recordRound_store {rs : RoundState} :
    ((s.recordRound cfg rs).1.mincondRecs = s.mincondRecs ∧
      (s.recordRound cfg rs).1.mincondFile = s.mincondFile ∧
      (cfg.mincondHistory = true → rs.roundId ∈ s.mincondRecs.keys)) ∨
    (s.recordOf rs ∈ recordedIn (s.recordRound cfg rs).2 ∧
      (s.recordRound cfg rs).1.mincondRecs = s.mincondRecs.put (s.recordOf rs) ∧
      (s.recordRound cfg rs).1.mincondFile = s.mincondFile ++ [s.recordOf rs]) := by
  by_cases hknown : cfg.mincondHistory = false ∨ rs.roundId ∈ s.mincondRecs.keys
  · rw [recordRound_known hknown]
    refine .inl ⟨rfl, rfl, fun hcfg => ?_⟩
    rcases hknown with h | h
    · rw [hcfg] at h
      cases h
    · exact h
  · rw [not_or] at hknown
    rw [recordRound_new (by simpa using hknown.1) hknown.2]
    refine .inr ⟨?_, rfl, rfl⟩
    unfold recordedIn
    simp

theorem recordOf_recordRound {rs : RoundState} :
    (s.recordRound cfg rs).1.recordOf = s.recordOf := by
  funext rs'
  unfold recordOf
  rw [recordRound_kept.2.catchingUp]

theorem recordRounds_notices {rs : RoundState} :
    recordedIn (s.recordRounds cfg (rs :: done)).2 = recordedIn (s.recordRound cfg rs).2 ++
      recordedIn ((s.recordRound cfg rs).1.recordRounds cfg done).2 :=
  recordedIn_append

/-- A record is made of a round that was finalized and not on record. -/
theorem recordRounds_recorded (hrec : rec ∈ recordedIn (s.recordRounds cfg done).2) :
    cfg.mincondHistory = true ∧ ∃ rs ∈ done, rs.roundId ∉ s.mincondRecs.keys ∧
      rec = s.recordOf rs := by
  induction done generalizing s with
  | nil => cases hrec
  | cons rs done ih =>
    rw [recordRounds_notices] at hrec
    rcases List.mem_append.mp hrec with hrec | hrec
    · obtain ⟨hcfg, hnew, heq⟩ := recordRound_recorded hrec
      exact ⟨hcfg, rs, List.mem_cons_self .., hnew, heq⟩
    · obtain ⟨hcfg, rs', hrs', hnew, heq⟩ := ih hrec
      refine ⟨hcfg, rs', List.mem_cons_of_mem _ hrs', fun hmem => hnew ?_, ?_⟩
      · rcases @recordRound_store cfg s rs with ⟨hrecs, -, -⟩ | ⟨-, hrecs, -⟩
        · rwa [hrecs]
        · rw [hrecs]
          exact Keyed.mem_keys_put.mpr (.inr hmem)
      · rw [heq, recordOf_recordRound]

/-- The ledger after the rounds holds what it held, and what was recorded. -/
theorem recordRounds_store :
    (∀ rec ∈ (s.recordRounds cfg done).1.mincondRecs.values,
      rec ∈ s.mincondRecs.values ∨ rec ∈ recordedIn (s.recordRounds cfg done).2) ∧
    (∀ rec ∈ (s.recordRounds cfg done).1.mincondFile,
      rec ∈ s.mincondFile ∨ rec ∈ recordedIn (s.recordRounds cfg done).2) ∧
    (∀ rid ∈ s.mincondRecs.keys, rid ∈ (s.recordRounds cfg done).1.mincondRecs.keys) ∧
    (cfg.mincondHistory = true →
      ∀ rs ∈ done, rs.roundId ∈ (s.recordRounds cfg done).1.mincondRecs.keys) := by
  induction done generalizing s with
  | nil => exact ⟨fun rec h => .inl h, fun rec h => .inl h, fun rid h => h,
      fun _ rs h => by cases h⟩
  | cons rs done ih =>
    obtain ⟨hvalues, hfile, hkeys, hdone⟩ := @ih (s.recordRound cfg rs).1
    rw [recordRounds_notices]
    have hone := @recordRound_store cfg s rs
    refine ⟨fun rec h => ?_, fun rec h => ?_, fun rid h => hkeys rid ?_, fun hcfg rs' h => ?_⟩
    · rcases hvalues rec h with h | h
      · rcases hone with ⟨hrecs, -, -⟩ | ⟨hnew, hrecs, -⟩
        · exact .inl (hrecs ▸ h)
        · rw [hrecs, Keyed.mem_values, Keyed.get?_put] at h
          split at h
          · cases h
            exact .inr (List.mem_append_left _ hnew)
          · exact .inl (Keyed.mem_values.mpr h)
      · exact .inr (List.mem_append_right _ h)
    · rcases hfile rec h with h | h
      · rcases hone with ⟨-, hlines, -⟩ | ⟨hnew, -, hlines⟩
        · exact .inl (hlines ▸ h)
        · rw [hlines] at h
          rcases List.mem_append.mp h with h | h
          · exact .inl h
          · rw [List.mem_singleton.mp h]
            exact .inr (List.mem_append_left _ hnew)
      · exact .inr (List.mem_append_right _ h)
    · rcases hone with ⟨hrecs, -, -⟩ | ⟨-, hrecs, -⟩
      · rwa [hrecs]
      · rw [hrecs]
        exact Keyed.mem_keys_put.mpr (.inr h)
    · rcases List.mem_cons.mp h with rfl | h
      · refine hkeys _ ?_
        rcases hone with ⟨hrecs, -, hknown⟩ | ⟨-, hrecs, -⟩
        · rw [hrecs]
          exact hknown hcfg
        · rw [hrecs]
          exact Keyed.mem_keys_put.mpr (.inl rfl)
      · exact hdone hcfg rs' h

end EngineState

/-! ## The chain, and what the node shows of it -/

/-- The node shows a block: some of its transactions without their bodies. -/
structure ShownAs (blk shown : Block) : Prop where
  timestamp : shown.timestamp = blk.timestamp
  transactions : List.Forall₂ (fun tx tx' : Tx => tx' = tx ∨ tx'.input.getD "0x" = "0x")
    blk.transactions shown.transactions

/-- The time of a block is not before that of an earlier one. -/
def TimeOrdered (chain : Nat → Block) : Prop :=
  ∀ m n, m ≤ n → (chain m).timestamp ≤ (chain n).timestamp

theorem timeOrdered_of_succ {chain : Nat → Block}
    (h : ∀ n, (chain n).timestamp ≤ (chain (n + 1)).timestamp) : TimeOrdered chain := by
  intro m n hle
  induction hle with
  | refl => exact le_rfl
  | step _ ih => exact ih.trans (h _)

/-- A commit of AP is among the submissions. -/
def commitIn (l : List (Int × Decoded)) : Bool := l.any fun x => x.2.kind == "submit1"

/-- A reveal of AP is among the submissions. -/
def revealIn (l : List (Int × Decoded)) : Bool := l.any fun x => x.2.kind == "submit2"

section

variable [Messaging]

/-- The block `n` of the chain has a commit of AP for the round. -/
def Commits (cfg : EngineConfig) (setup : ObserverSetup) (chain : Nat → Block) (r : Int) (n : Nat) :
    Prop :=
  commitIn (blockSubmissions cfg setup r (chain n)) = true

/-- The block `n` of the chain has a reveal of AP for the round. -/
def Reveals (cfg : EngineConfig) (setup : ObserverSetup) (chain : Nat → Block) (r : Int) (n : Nat) :
    Prop :=
  revealIn (blockSubmissions cfg setup r (chain n)) = true

variable {cfg : EngineConfig} {setup : ObserverSetup} {r : Int} {x : Int × Decoded} {blk : Block}

theorem mem_blockSubmissions (hx : x ∈ blockSubmissions cfg setup r blk) :
    x.1 = blk.timestamp ∧ (x.2.kind = "submit1" ∨ x.2.kind = "submit2") := by
  obtain ⟨d, hd, rfl⟩ := List.mem_map.mp hx
  have hfor := (List.mem_filter.mp hd).2
  simp only [Decoded.isFor, Bool.and_eq_true, Bool.or_eq_true, beq_iff_eq] at hfor
  exact ⟨rfl, hfor.2⟩

/-- A body that is withheld decodes to nothing. -/
theorem decodeSubmit_withheld : decodeSubmit "0x" = none := by
  have hempty : Py.removePrefix "0x" "0x" = "" := by decide +kernel
  unfold decodeSubmit
  rw [hempty]
  rfl

/-- The submissions that are shown are on the chain. -/
theorem ShownAs.submissions {shown : Block} (h : ShownAs blk shown)
    (hx : x ∈ blockSubmissions cfg setup r shown) : x ∈ blockSubmissions cfg setup r blk := by
  obtain ⟨d, hd, rfl⟩ := List.mem_map.mp hx
  obtain ⟨hd, hfor⟩ := List.mem_filter.mp hd
  refine List.mem_map.mpr ⟨d, List.mem_filter.mpr ⟨?_, hfor⟩, by rw [h.timestamp]⟩
  have htxs := h.transactions
  generalize blk.transactions = txs at htxs
  generalize shown.transactions = txs' at htxs hd
  induction htxs with
  | nil => exact hd
  | @cons tx tx' txs txs' hone _ ih =>
    obtain ⟨tx'', hmem, hsub⟩ := List.mem_filterMap.mp hd
    rcases List.mem_cons.mp hmem with rfl | hmem
    · rcases hone with rfl | hwithheld
      · exact List.mem_filterMap.mpr ⟨tx'', List.mem_cons_self .., hsub⟩
      · unfold submissionOf at hsub
        rw [hwithheld, decodeSubmit_withheld] at hsub
        simp at hsub
    · obtain ⟨tx₀, hmem₀, hsub₀⟩ := List.mem_filterMap.mp
        (ih (List.mem_filterMap.mpr ⟨tx'', hmem, hsub⟩))
      exact List.mem_filterMap.mpr ⟨tx₀, List.mem_cons_of_mem _ hmem₀, hsub₀⟩

end

/-! ## What is in flight shows of the submissions -/

theorem submit1Seen_foldl {f : VotingFactory} {r : Int} {l : List (Int × Decoded)} {v : Shown} :
    ((l.map (submitOp f r)).foldl Shown.write v).submit1Seen = (v.submit1Seen || commitIn l) := by
  induction l generalizing v with
  | nil => simp [commitIn]
  | cons x l ih =>
    rw [List.map_cons, List.foldl_cons, ih]
    unfold submitOp commitIn
    by_cases hx : x.2.kind = "submit1"
    · simp [hx, Shown.write]
    · have hno : (x.2.kind == "submit1") = false := beq_false_of_ne hx
      simp [hx, hno, Shown.write]

theorem submit2Seen_foldl {f : VotingFactory} {r : Int} {l : List (Int × Decoded)} {v : Shown}
    (hl : ∀ x ∈ l, x.2.kind = "submit1" ∨ x.2.kind = "submit2") :
    ((l.map (submitOp f r)).foldl Shown.write v).submit2Seen = (v.submit2Seen || revealIn l) := by
  induction l generalizing v with
  | nil => simp [revealIn]
  | cons x l ih =>
    rw [List.map_cons, List.foldl_cons, ih fun y hy => hl y (List.mem_cons_of_mem _ hy)]
    unfold submitOp revealIn
    rcases hl x (List.mem_cons_self ..) with hx | hx
    · simp [hx, Shown.write]
    · simp [hx, Shown.write]

/-- Only the write of a commit makes a commit seen, whatever is evicted. -/
theorem perform_submit1Seen {st : ObserverState} {r rid : Int} {op : RoundOp}
    (h : (shownOf ((st.perform rid op).rounds.get? r)).submit1Seen = true) :
    (shownOf (st.rounds.get? r)).submit1Seen = true ∨
      (rid = r ∧ ∃ ontime commit, op = .submit1 ontime commit) := by
  rcases @ObserverState.perform_cases st rid r op with hnone | hsame | ⟨hr, hwritten⟩
  · rw [hnone] at h
    cases h
  · rw [hsame] at h
    exact .inl h
  · have hdefault : shownOf (some ((st.rounds.get? r).getD { roundId := r })) =
        shownOf (st.rounds.get? r) := by
      cases st.rounds.get? r <;> rfl
    have hshown : shownOf (some (op.apply ((st.rounds.get? r).getD { roundId := r }))) =
        (shownOf (st.rounds.get? r)).write op := by
      rw [← hdefault]
      exact shown_apply
    rw [hwritten, hshown] at h
    cases op with
    | submit1 ontime commit => exact .inr ⟨hr, ontime, commit, rfl⟩
    | _ => exact .inl h

theorem performAll_submit1Seen {st : ObserverState} {r : Int} {ops : List (Int × RoundOp)}
    (h : (shownOf ((st.performAll ops).rounds.get? r)).submit1Seen = true) :
    (shownOf (st.rounds.get? r)).submit1Seen = true ∨
      ∃ ontime commit, RoundOp.submit1 ontime commit ∈ submitsFor r ops := by
  induction ops generalizing st with
  | nil => exact .inl h
  | cons x ops ih =>
    rw [submitsFor_cons]
    rcases ih h with hst | ⟨ontime, commit, hmem⟩
    · rcases perform_submit1Seen hst with hold | ⟨hr, ontime, commit, hop⟩
      · exact .inl hold
      · refine .inr ⟨ontime, commit, List.mem_append_left _ ?_⟩
        rw [if_pos ⟨hr, by rw [hop]; rfl⟩, hop]
        exact List.mem_singleton_self _
    · exact .inr ⟨ontime, commit, List.mem_append_right _ hmem⟩

/-! ## A run of the engine on the chain -/

section

variable [FtsoRules] [Messaging] {cfg : EngineConfig} {chain : Nat → Block} {setup : ObserverSetup}
  {r : Int} {C : EngineState → Happening → EngineState → Prop} {s s' s₀ : EngineState}
  {h : Happening} {hs : List Happening} {rec : RoundRecord}

/-- A step of the engine that is shown the chain, and meets `C`. -/
def Lived (cfg : EngineConfig) (chain : Nat → Block)
    (C : EngineState → Happening → EngineState → Prop) (s : EngineState) (h : Happening)
    (s' : EngineState) : Prop :=
  TimedStep cfg s h s' ∧
    (∀ blk fdcLogs fuLogs, h.event = .block blk fdcLogs fuLogs → ShownAs (chain s.cursor) blk) ∧
    C s h s'

/-- Only a block moves the cursor, by one. -/
theorem cursor_step (hstep : TimedStep cfg s h s') :
    (∃ blk fdcLogs fuLogs, h.event = .block blk fdcLogs fuLogs ∧
      s' = (s.block cfg blk fdcLogs fuLogs).1 ∧ s'.cursor = s.cursor + 1) ∨
    ((∀ blk fdcLogs fuLogs, h.event ≠ .block blk fdcLogs fuLogs) ∧ s'.cursor = s.cursor ∧
      s'.obs.lastTs = s.obs.lastTs) := by
  rcases hstep.cases with ⟨head, hevent, rfl, -⟩ |
    ⟨blk, fdcLogs, fuLogs, hevent, -, rfl, -⟩ | ⟨a, hevent, rfl, -⟩
  · refine .inr ⟨by simp [hevent], poll_cursor, ?_⟩
    rw [poll_obs]
  · exact .inl ⟨blk, fdcLogs, fuLogs, hevent, rfl, EngineState.block_cursor⟩
  · exact .inr ⟨by simp [hevent], EngineState.pause_cursor,
      EngineState.pause_kept.lastTs.trans EngineState.flushTrailing_lastTs⟩

theorem cursor_run (hrun : Effect.Run (Lived cfg chain C) s₀ hs s) : s₀.cursor ≤ s.cursor := by
  induction hrun with
  | nil => exact le_rfl
  | snoc _ hstep ih =>
    rcases cursor_step hstep.1 with ⟨-, -, -, -, -, hcursor⟩ | ⟨-, hcursor, -⟩
    · omega
    · omega

/-- The last block is the one before the cursor. -/
theorem lastTs_run (hlast : s₀.obs.lastTs = none) (hrun : Effect.Run (Lived cfg chain C) s₀ hs s)
    {t : Int} (ht : s.obs.lastTs = some t) :
    ∃ n, s₀.cursor ≤ n ∧ n + 1 = s.cursor ∧ t = (chain n).timestamp := by
  induction hrun with
  | nil =>
    rw [hlast] at ht
    cases ht
  | @snoc hs u h v hrun hstep ih =>
    rcases cursor_step hstep.1 with ⟨blk, fdcLogs, fuLogs, hevent, rfl, hcursor⟩ |
      ⟨-, hcursor, hkept⟩
    · rw [EngineState.block_lastTs] at ht
      cases ht
      exact ⟨u.cursor, cursor_run hrun, hcursor.symm, (hstep.2.1 _ _ _ hevent).timestamp⟩
    · rw [hkept] at ht
      obtain ⟨n, hle, hn, ht⟩ := ih ht
      exact ⟨n, hle, hn.trans hcursor.symm, ht⟩

/-- What the run has shown of AP is on the chain, in the blocks that it has processed. -/
theorem shown_onChain (hrun : Effect.Run (Lived cfg chain C) s₀ hs s) {x : Int × Decoded}
    (hx : x ∈ submissionsIn cfg setup r hs) :
    ∃ n, s₀.cursor ≤ n ∧ n < s.cursor ∧ x ∈ blockSubmissions cfg setup r (chain n) := by
  induction hrun with
  | nil => cases hx
  | @snoc hs u h v hrun hstep ih =>
    rw [submissionsIn_concat] at hx
    rcases cursor_step hstep.1 with ⟨blk, fdcLogs, fuLogs, hevent, -, hcursor⟩ | ⟨hno, hcursor, -⟩
    · rcases List.mem_append.mp hx with hx | hx
      · obtain ⟨n, hle, hlt, hmem⟩ := ih hx
        exact ⟨n, hle, by omega, hmem⟩
      · have hx' : x ∈ blockSubmissions cfg setup r blk := by simpa [submissionsIn, hevent] using hx
        exact ⟨u.cursor, cursor_run hrun, by omega,
          (hstep.2.1 _ _ _ hevent).submissions hx'⟩
    · rcases List.mem_append.mp hx with hx | hx
      · obtain ⟨n, hle, hlt, hmem⟩ := ih hx
        exact ⟨n, hle, by omega, hmem⟩
      · cases hevent : h.event with
        | block blk fdcLogs fuLogs => exact absurd hevent (hno blk fdcLogs fuLogs)
        | poll head => simp [submissionsIn, hevent] at hx
        | pause a => simp [submissionsIn, hevent] at hx

/-- The step that processed a block. -/
theorem lived_at (hrun : Effect.Run (Lived cfg chain C) s₀ hs s) {k : Nat} (hk : s₀.cursor ≤ k)
    (hlt : k < s.cursor) :
    ∃ hs₁ h hs₂ u v blk fdcLogs fuLogs, hs = hs₁ ++ h :: hs₂ ∧
      Effect.Run (Lived cfg chain C) s₀ hs₁ u ∧ Lived cfg chain C u h v ∧
      Effect.Run (Lived cfg chain C) v hs₂ s ∧ u.cursor = k ∧ v.cursor = k + 1 ∧
      h.event = .block blk fdcLogs fuLogs := by
  induction hrun with
  | nil => omega
  | @snoc hs u h v hrun hstep ih =>
    by_cases hk' : k < u.cursor
    · obtain ⟨hs₁, h₁, hs₂, u₁, v₁, blk, fdcLogs, fuLogs, rfl, hrun₁, hstep₁, hrun₂, hat⟩ := ih hk'
      exact ⟨hs₁, h₁, hs₂ ++ [h], u₁, v₁, blk, fdcLogs, fuLogs, by simp, hrun₁, hstep₁,
        hrun₂.snoc hstep, hat⟩
    · rcases cursor_step hstep.1 with ⟨blk, fdcLogs, fuLogs, hevent, -, hcursor⟩ | ⟨-, hcursor, -⟩
      · exact ⟨hs, h, [], u, v, blk, fdcLogs, fuLogs, rfl, hrun, hstep, .nil, by omega, by omega,
          hevent⟩
      · omega

/-- What a record is made of. -/
theorem recorded_judged {blk : Block} {fdcLogs fuLogs : Option (List Nat)}
    (hrec : rec ∈ recordedIn (s.block cfg blk fdcLogs fuLogs).2) :
    cfg.mincondHistory = true ∧ rec.rid ∉ s.mincondRecs.keys ∧
    s.obs.factory.due rec.rid blk.timestamp = true ∧
    s.obs.observeStartTs ≤ s.obs.factory.startS rec.rid ∧
    ∃ raw rs, ∃ u : EngineState,
      (s.gathered cfg blk fdcLogs fuLogs).rounds.get? rec.rid = some raw ∧
      ObserverState.Judged (s.gathered cfg blk fdcLogs fuLogs).ourSubmit raw rs ∧
      rec = u.recordOf rs := by
  rw [EngineState.block_eq] at hrec
  obtain ⟨hcfg, rs, hrs, hnew, rfl⟩ := EngineState.recordRounds_recorded hrec
  have hsetup := @EngineState.gathered_setup cfg s _ blk fdcLogs fuLogs
  obtain ⟨-, hdue, hobserved⟩ := ObserverState.sweep_swept.mem hrs
  obtain ⟨raw, hraw, hjudged⟩ := ObserverState.sweep_swept.judged rs hrs
  rw [congrArg ObserverSetup.factory hsetup] at hdue hobserved
  rw [congrArg ObserverSetup.observeStartTs hsetup] at hobserved
  exact ⟨hcfg, hnew, hdue, hobserved, raw, rs, _, hraw, hjudged, rfl⟩

/-- What a record shows of the submissions of its round. -/
theorem recorded_raw {blk : Block} {fdcLogs fuLogs : Option (List Nat)}
    (hrec : rec ∈ recordedIn (s.block cfg blk fdcLogs fuLogs).2) :
    cfg.mincondHistory = true ∧ rec.rid ∉ s.mincondRecs.keys ∧
    s.obs.factory.due rec.rid blk.timestamp = true ∧
    s.obs.observeStartTs ≤ s.obs.factory.startS rec.rid ∧
    ∃ raw, (s.gathered cfg blk fdcLogs fuLogs).rounds.get? rec.rid = some raw ∧
      rec.s1 = bit raw.submit1Seen ∧ rec.s2 = bit raw.submit2Seen := by
  obtain ⟨hcfg, hnew, hdue, hobserved, raw, rs, u, hraw, ⟨_, _, _, hjudged⟩, rfl⟩ :=
    recorded_judged hrec
  refine ⟨hcfg, hnew, hdue, hobserved, raw, hraw, ?_, ?_⟩
  · rw [hjudged]
    rfl
  · rw [hjudged]
    rfl

/-- A round in flight that is closed shows no commit. -/
theorem closed_unseen (hlast : s₀.obs.lastTs = none)
    (hrun : Effect.Run (Lived cfg chain C) s₀ hs s) (hclosed : s.obs.closed r = true) :
    (shownOf (s.obs.rounds.get? r)).submit1Seen = false := by
  induction hrun with
  | nil =>
    unfold ObserverState.closed at hclosed
    rw [hlast] at hclosed
    cases hclosed
  | @snoc hs u h v hrun hstep ih =>
    rcases hstep.1.cases with ⟨head, -, rfl, -⟩ |
      ⟨blk, fdcLogs, fuLogs, -, -, rfl, -⟩ | ⟨a, -, rfl, -⟩
    · rw [poll_obs] at hclosed ⊢
      exact ih hclosed
    · rw [block_closed] at hclosed
      have hsetup := congrArg ObserverSetup.factory
        (@EngineState.gathered_setup cfg u _ blk fdcLogs fuLogs)
      rw [EngineState.block_obs, ObserverState.sweep_swept.rounds, hsetup, if_pos hclosed]
      rfl
    · rw [pause_closed] at hclosed
      have hold := ih hclosed
      by_contra hseen
      rw [EngineState.pause_kept.rounds] at hseen
      have hseen' : (shownOf ((u.flushTrailing cfg a).obs.rounds.get? r)).submit1Seen = true := by
        simpa using hseen
      unfold EngineState.flushTrailing at hseen'
      split at hseen'
      · rcases performAll_submit1Seen hseen' with h | ⟨ontime, commit, hmem⟩
        · rw [hold] at h
          cases h
        · rw [submitsFor_flushOps] at hmem
          cases hmem
      · rw [hold] at hseen'
        cases hseen'

theorem open_run (hrun : Effect.Run (Lived cfg chain C) s₀ hs s) (hopen : s.obs.closed r = false) :
    s₀.obs.closed r = false := by
  induction hrun with
  | nil => exact hopen
  | snoc _ hstep ih => exact ih (open_of_step hstep.1 hopen)

/-! ## What is seen of a round -/

/-- Nothing that names the round is taken for far ahead. -/
def InReach (cfg : EngineConfig) (r : Int) (s : EngineState) (h : Happening) : Prop :=
  FirstNear cfg s h ∧ Heeded cfg r s h

variable {first : Nat} {blk : Block} {fdcLogs fuLogs : Option (List Nat)}

theorem inReach_run (hC : ∀ s h s', C s h s' → InReach cfg r s h)
    (hrun : Effect.Run (Lived cfg chain C) s₀ hs s) :
    Effect.Run (TimedStep cfg) s₀ hs s ∧ Effect.EachStep (TimedStep cfg) s₀ (InReach cfg r) hs :=
  ⟨hrun.mono fun _ _ _ h => h.1,
    Effect.Run.eachStep TimedStep.deterministic
      (hrun.mono fun _ _ _ h => ⟨h.1, hC _ _ _ h.2.2⟩)⟩

omit [FtsoRules] in
theorem submissionsIn_kind {x : Int × Decoded} (hx : x ∈ submissionsIn cfg setup r hs) :
    x.2.kind = "submit1" ∨ x.2.kind = "submit2" := by
  obtain ⟨h, -, hx⟩ := List.mem_flatMap.mp hx
  split at hx
  · exact (mem_blockSubmissions hx).2
  · cases hx

/-- An open round shows whether a commit and a reveal have been shown. -/
theorem seen_run (hstart : EngineState.Started setup first s₀) (hf : setup.factory.Lawful)
    (hC : ∀ s h s', C s h s' → InReach cfg r s h)
    (hrun : Effect.Run (Lived cfg chain C) s₀ hs s) (hopen : s.obs.closed r = false) :
    (shownOf (s.obs.rounds.get? r)).submit1Seen = commitIn (submissionsIn cfg setup r hs) ∧
    (shownOf (s.obs.rounds.get? r)).submit2Seen = revealIn (submissionsIn cfg setup r hs) := by
  obtain ⟨htimed, hcond⟩ := inReach_run hC hrun
  rw [shown_run hstart hf htimed hcond hopen, submit1Seen_foldl,
    submit2Seen_foldl fun x hx => submissionsIn_kind hx]
  exact ⟨Bool.false_or _, Bool.false_or _⟩

/-- Likewise what a block leaves of it, right before the sweep. -/
theorem seen_gathered (hstart : EngineState.Started setup first s₀) (hf : setup.factory.Lawful)
    (hC : ∀ s h s', C s h s' → InReach cfg r s h)
    (hrun : Effect.Run (Lived cfg chain C) s₀ hs s) (hopen : s.obs.closed r = false)
    (hlast : s.obs.lastTs ≠ none) (hevent : h.event = .block blk fdcLogs fuLogs)
    (hreach : InReach cfg r s h) :
    (shownOf ((s.gathered cfg blk fdcLogs fuLogs).rounds.get? r)).submit1Seen =
      (commitIn (submissionsIn cfg setup r hs) || commitIn (blockSubmissions cfg setup r blk)) ∧
    (shownOf ((s.gathered cfg blk fdcLogs fuLogs).rounds.get? r)).submit2Seen =
      (revealIn (submissionsIn cfg setup r hs) || revealIn (blockSubmissions cfg setup r blk)) := by
  obtain ⟨htimed, hcond⟩ := inReach_run hC hrun
  obtain ⟨hsetup, hahead⟩ := ahead_run hstart hf htimed fun hs₁ h₁ s₁ hpre hrun₁ =>
    (hcond hs₁ h₁ s₁ hpre hrun₁).1
  have hf' : s.obs.factory.Lawful := by
    rw [congrArg ObserverSetup.factory hsetup]
    exact hf
  have hdue : ∀ last, s.obs.lastTs = some last → s.obs.factory.due r last = false := by
    intro last hlast
    unfold ObserverState.closed at hopen
    rwa [hlast] at hopen
  obtain ⟨h1, h2⟩ := seen_run hstart hf hC hrun hopen
  rw [gathered_shown hf' hahead (hreach.1 blk fdcLogs fuLogs hevent) hdue
    (fun hnone => absurd hnone hlast) (hreach.2 blk fdcLogs fuLogs hevent), submit1Seen_foldl,
    submit2Seen_foldl fun x hx => (mem_blockSubmissions hx).2, h1, h2, hsetup]
  exact ⟨rfl, rfl⟩

/-! ## A round that is counted is an offence -/

/-- A reveal that comes after the commit is shown is heard: where the chain has one in a block, and
a commit but no reveal has been seen, the node shows the body of a reveal. -/
structure Heard (cfg : EngineConfig) (chain : Nat → Block) (r : Int) (s : EngineState)
    (h : Happening) : Prop where
  inReach : InReach cfg r s h
  told : ∀ blk fdcLogs fuLogs, h.event = .block blk fdcLogs fuLogs →
    Reveals cfg s.obs.toObserverSetup chain r s.cursor →
    ((shownOf (s.obs.rounds.get? r)).submit1Seen = true ∨
      commitIn (blockSubmissions cfg s.obs.toObserverSetup r blk) = true) →
    ((shownOf (s.obs.rounds.get? r)).submit2Seen = true ∨
      revealIn (blockSubmissions cfg s.obs.toObserverSetup r blk) = true)

/-- AP's reveals for the round are on chain by the end of the next round, and no commit comes after
one of them. -/
def Timely (cfg : EngineConfig) (setup : ObserverSetup) (chain : Nat → Block) (r : Int) : Prop :=
  ∀ k, Reveals cfg setup chain r k →
    (chain k).timestamp ≤ setup.factory.endS (r + 1) ∧ ∀ n, Commits cfg setup chain r n → n ≤ k

omit [FtsoRules] [Messaging] in
theorem commitIn_eq_true {l : List (Int × Decoded)} :
    commitIn l = true ↔ ∃ x ∈ l, x.2.kind = "submit1" := by
  simp [commitIn]

omit [FtsoRules] [Messaging] in
theorem revealIn_eq_true {l : List (Int × Decoded)} :
    revealIn l = true ↔ ∃ x ∈ l, x.2.kind = "submit2" := by
  simp [revealIn]

/-- Once a commit was shown, the reveals that follow on the chain are heard. -/
theorem heard_reveal (hstart : EngineState.Started setup first s₀) (hf : setup.factory.Lawful)
    (htimely : Timely cfg setup chain r)
    (hrun : Effect.Run (Lived cfg chain fun s h _ => Heard cfg chain r s h) s₀ hs s)
    (hopen : s.obs.closed r = false) (hcommit : commitIn (submissionsIn cfg setup r hs) = true)
    {k : Nat} (hk : Reveals cfg setup chain r k) (hlt : k < s.cursor) :
    revealIn (submissionsIn cfg setup r hs) = true := by
  have hC : ∀ (s : EngineState) (h : Happening) (s' : EngineState), Heard cfg chain r s h →
      InReach cfg r s h := fun _ _ _ h => h.inReach
  obtain ⟨x, hx, hkind⟩ := commitIn_eq_true.mp hcommit
  obtain ⟨n, hfirst, -, hxn⟩ := shown_onChain hrun hx
  have hnk := (htimely k hk).2 n (commitIn_eq_true.mpr ⟨x, hxn, hkind⟩)
  obtain ⟨hs₁, h₁, hs₂, u, v, blk, fdcLogs, fuLogs, rfl, hrun₁, hstep₁, hrun₂, hu, hv, hevent⟩ :=
    lived_at hrun (hfirst.trans hnk) hlt
  obtain ⟨htimed, hcond⟩ := inReach_run hC hrun₁
  have hsetup := (ahead_run hstart hf htimed fun hs₃ h₃ s₃ hpre hrun₃ =>
    (hcond hs₃ h₃ s₃ hpre hrun₃).1).1
  have hopen₁ : u.obs.closed r = false := open_run (hrun₂.cons hstep₁) hopen
  obtain ⟨hseen1, hseen2⟩ := seen_run hstart hf hC hrun₁ hopen₁
  have hsplit : submissionsIn cfg setup r (hs₁ ++ h₁ :: hs₂) =
      submissionsIn cfg setup r hs₁ ++
        (blockSubmissions cfg setup r blk ++ submissionsIn cfg setup r hs₂) := by
    simp [submissionsIn, hevent]
  have htold := hstep₁.2.2.told blk fdcLogs fuLogs hevent
  rw [hsetup, hu, hseen1, hseen2] at htold
  -- the commit was shown before the reveal's block, or in it
  have hknown : commitIn (submissionsIn cfg setup r hs₁) = true ∨
      commitIn (blockSubmissions cfg setup r blk) = true := by
    rw [hsplit] at hx
    rcases List.mem_append.mp hx with hx | hx
    · exact .inl (commitIn_eq_true.mpr ⟨x, hx, hkind⟩)
    · rcases List.mem_append.mp hx with hx | hx
      · exact .inr (commitIn_eq_true.mpr ⟨x, hx, hkind⟩)
      · obtain ⟨n', hle, -, hxn'⟩ := shown_onChain hrun₂ hx
        have hnk' := (htimely k hk).2 n' (commitIn_eq_true.mpr ⟨x, hxn', hkind⟩)
        omega
  rw [hsplit]
  rcases htold hk hknown with hreveal | hreveal
  · obtain ⟨y, hy, hykind⟩ := revealIn_eq_true.mp hreveal
    exact revealIn_eq_true.mpr ⟨y, List.mem_append_left _ hy, hykind⟩
  · obtain ⟨y, hy, hykind⟩ := revealIn_eq_true.mp hreveal
    exact revealIn_eq_true.mpr
      ⟨y, List.mem_append_right _ (List.mem_append_left _ hy), hykind⟩

/-- A record with the commit and without the reveal is made of an offence. -/
theorem recorded_genuine (hchain : TimeOrdered chain)
    (hstart : EngineState.Started setup first s₀) (hf : setup.factory.Lawful)
    (htimely : Timely cfg setup chain rec.rid)
    (hrun : Effect.Run (Lived cfg chain fun s h _ => Heard cfg chain rec.rid s h) s₀ hs s)
    (hstep : Lived cfg chain (fun s h _ => Heard cfg chain rec.rid s h) s h s')
    (hrec : rec ∈ recordedIn h.notices) (hs1 : rec.s1 ≠ 0) (hs2 : rec.s2 = 0) :
    (∃ n, Commits cfg setup chain rec.rid n) ∧ ¬ ∃ k, Reveals cfg setup chain rec.rid k := by
  have hC : ∀ (s : EngineState) (h : Happening) (s' : EngineState), Heard cfg chain rec.rid s h →
      InReach cfg rec.rid s h := fun _ _ _ h => h.inReach
  obtain ⟨htimed, hcond⟩ := inReach_run hC hrun
  obtain ⟨hsetup, hahead⟩ := ahead_run hstart hf htimed fun hs₁ h₁ s₁ hpre hrun₁ =>
    (hcond hs₁ h₁ s₁ hpre hrun₁).1
  rcases hstep.1.cases with ⟨head, -, -, hn⟩ |
    ⟨blk, fdcLogs, fuLogs, hevent, -, -, hn⟩ | ⟨a, -, -, hn⟩
  · rw [hn] at hrec
    cases hrec
  swap
  · rw [hn] at hrec
    cases hrec
  rw [hn] at hrec
  obtain ⟨-, -, hdue, -, raw, hraw, hraw1, hraw2⟩ := recorded_raw hrec
  have hshown := hstep.2.1 blk fdcLogs fuLogs hevent
  have hend : setup.factory.endS (rec.rid + 1) < (chain s.cursor).timestamp := by
    rw [congrArg ObserverSetup.factory hsetup, hshown.timestamp] at hdue
    simpa [VotingFactory.due] using hdue
  have hbefore : ∀ k, Reveals cfg setup chain rec.rid k → k < s.cursor := by
    intro k hk
    by_contra hge
    have hts := hchain _ _ (not_lt.mp hge)
    have hle := (htimely k hk).1
    omega
  have hseen1 : (shownOf ((s.gathered cfg blk fdcLogs fuLogs).rounds.get? rec.rid)).submit1Seen =
      true := by
    rw [hraw]
    show raw.submit1Seen = true
    by_contra hnot
    rw [Bool.not_eq_true] at hnot
    rw [hraw1, hnot] at hs1
    exact hs1 rfl
  by_cases hflight : (shownOf (s.obs.rounds.get? rec.rid)).submit1Seen = true
  · -- the commit was shown before: the round is still open
    have hopen : s.obs.closed rec.rid = false := by
      by_contra hclosed
      rw [closed_unseen hstart.lastTs hrun (by simpa using hclosed)] at hflight
      cases hflight
    have hlast : s.obs.lastTs ≠ none := by
      intro hnone
      rw [(hahead.before hnone).1] at hflight
      cases hflight
    have hcommit := hflight
    rw [(seen_run hstart hf hC hrun hopen).1] at hcommit
    obtain ⟨x, hx, hkind⟩ := commitIn_eq_true.mp hcommit
    obtain ⟨n, -, -, hxn⟩ := shown_onChain hrun hx
    refine ⟨⟨n, commitIn_eq_true.mpr ⟨x, hxn, hkind⟩⟩, ?_⟩
    rintro ⟨k, hk⟩
    have hreveal := heard_reveal hstart hf htimely hrun hopen hcommit hk (hbefore k hk)
    have hseen2 := (seen_gathered hstart hf hC hrun hopen hlast hevent hstep.2.2.inReach).2
    rw [hraw, hreveal, Bool.true_or] at hseen2
    have hseen2' : raw.submit2Seen = true := hseen2
    rw [hraw2, hseen2'] at hs2
    cases hs2
  · -- the commit is in this block: too late for a reveal
    have hcommit : commitIn (blockSubmissions cfg setup rec.rid blk) = true := by
      rcases performAll_submit1Seen hseen1 with hold | ⟨ontime, commit, hmem⟩
      · exact absurd hold hflight
      · rw [submitsFor_blockOps, hsetup] at hmem
        obtain ⟨x, hx, hop⟩ := List.mem_map.mp hmem
        refine commitIn_eq_true.mpr ⟨x, hx, ?_⟩
        by_contra hkind
        simp [submitOp, hkind] at hop
    obtain ⟨x, hx, hkind⟩ := commitIn_eq_true.mp hcommit
    have hcommits : Commits cfg setup chain rec.rid s.cursor :=
      commitIn_eq_true.mpr ⟨x, hshown.submissions hx, hkind⟩
    refine ⟨⟨s.cursor, hcommits⟩, ?_⟩
    rintro ⟨k, hk⟩
    have hle := (htimely k hk).2 s.cursor hcommits
    have hlt := hbefore k hk
    omega

/-! ## An offence is counted -/

/-- AP committed for the round by the end of the next one, and not before its start. -/
def Committed (cfg : EngineConfig) (setup : ObserverSetup) (chain : Nat → Block) (r : Int)
    (n : Nat) : Prop :=
  Commits cfg setup chain r n ∧ setup.factory.startS r ≤ (chain n).timestamp ∧
    (chain n).timestamp ≤ setup.factory.endS (r + 1)

/-- The blocks are shown in full, and the ledger keeps the epoch of the round. -/
structure Followed (cfg : EngineConfig) (chain : Nat → Block) (r : Int) (s : EngineState)
    (h : Happening) (s' : EngineState) : Prop where
  inReach : InReach cfg r s h
  full : ∀ blk fdcLogs fuLogs, h.event = .block blk fdcLogs fuLogs → blk = chain s.cursor
  kept : ∀ e, s'.reg.epoch = some e → e ≤ epochOf r + 1

/-- The first block of a run was read, and is later than the block before it. -/
def FirstRead (chain : Nat → Block) (first : Nat) (observeStartTs : Int) : Prop :=
  observeStartTs = (chain first).timestamp ∧
    ∀ n, n < first → (chain n).timestamp < (chain first).timestamp

variable {n : Nat}

omit [FtsoRules] in
theorem first_le_committed (hfirst : FirstRead chain first setup.observeStartTs)
    (hobserved : setup.observeStartTs ≤ setup.factory.startS r)
    (hn : Committed cfg setup chain r n) : first ≤ n := by
  by_contra hlt
  have hbefore := hfirst.2 n (not_le.mp hlt)
  have hstart := hfirst.1
  have hon := hn.2.1
  omega

/-- The commit of a round is shown before a block that is later than its windows. -/
theorem commit_shown (hchain : TimeOrdered chain)
    (hfirst : FirstRead chain first setup.observeStartTs) (hcursor : s₀.cursor = first)
    (hobserved : setup.observeStartTs ≤ setup.factory.startS r)
    (hn : Committed cfg setup chain r n)
    (hrun : Effect.Run (Lived cfg chain (Followed cfg chain r)) s₀ hs s)
    (hlate : setup.factory.endS (r + 1) < (chain s.cursor).timestamp) :
    commitIn (submissionsIn cfg setup r hs) = true := by
  have hlt : n < s.cursor := by
    by_contra hge
    have hts := hchain _ _ (not_lt.mp hge)
    have hon := hn.2.2
    omega
  have hle := first_le_committed hfirst hobserved hn
  obtain ⟨hs₁, h₁, hs₂, u, v, blk, fdcLogs, fuLogs, rfl, -, hstep, -, hu, -, hevent⟩ :=
    lived_at hrun (hcursor.trans_le hle) hlt
  obtain rfl := hstep.2.2.full blk fdcLogs fuLogs hevent
  obtain ⟨x, hx, hkind⟩ := commitIn_eq_true.mp hn.1
  refine commitIn_eq_true.mpr ⟨x, ?_, hkind⟩
  have hsplit : submissionsIn cfg setup r (hs₁ ++ h₁ :: hs₂) =
      submissionsIn cfg setup r hs₁ ++
        (blockSubmissions cfg setup r (chain u.cursor) ++ submissionsIn cfg setup r hs₂) := by
    simp [submissionsIn, hevent]
  rw [hsplit, hu]
  exact List.mem_append_right _ (List.mem_append_left _ hx)

/-- So the round is in flight with its commit when a block closes it. -/
theorem commit_gathered (hchain : TimeOrdered chain)
    (hstart : EngineState.Started setup first s₀) (hf : setup.factory.Lawful)
    (hfirst : FirstRead chain first setup.observeStartTs)
    (hobserved : setup.observeStartTs ≤ setup.factory.startS r)
    (hn : Committed cfg setup chain r n)
    (hrun : Effect.Run (Lived cfg chain (Followed cfg chain r)) s₀ hs s)
    (hstep : Lived cfg chain (Followed cfg chain r) s h s')
    (hevent : h.event = .block blk fdcLogs fuLogs)
    (hopen : s.obs.closed r = false) (hdue : setup.factory.due r blk.timestamp = true) :
    (shownOf ((s.gathered cfg blk fdcLogs fuLogs).rounds.get? r)).submit1Seen = true ∧
    (shownOf ((s.gathered cfg blk fdcLogs fuLogs).rounds.get? r)).submit2Seen =
      (revealIn (submissionsIn cfg setup r hs) || revealIn (blockSubmissions cfg setup r blk)) := by
  have hC : ∀ (s : EngineState) (h : Happening) (s' : EngineState), Followed cfg chain r s h s' →
      InReach cfg r s h := fun _ _ _ h => h.inReach
  have hlate : setup.factory.endS (r + 1) < (chain s.cursor).timestamp := by
    rw [(hstep.2.1 blk fdcLogs fuLogs hevent).timestamp] at hdue
    simpa [VotingFactory.due] using hdue
  have hcommit := commit_shown hchain hfirst hstart.cursor hobserved hn hrun hlate
  have hlast : s.obs.lastTs ≠ none := by
    intro hnone
    rw [submissionsIn_before (inReach_run hC hrun).1 hnone] at hcommit
    cases hcommit
  obtain ⟨h1, h2⟩ := seen_gathered hstart hf hC hrun hopen hlast hevent hstep.2.2.inReach
  rw [hcommit, Bool.true_or] at h1
  exact ⟨h1, h2⟩

omit [FtsoRules] [Messaging] in
theorem pause_keeps {a : PauseAnswers} (hr : r ∈ s.mincondRecs.keys)
    (hkept : ∀ e, (s.pause cfg a).reg.epoch = some e → e ≤ epochOf r + 1) :
    r ∈ (s.pause cfg a).mincondRecs.keys := by
  rcases @EngineState.pause_store cfg s a with hstore | ⟨e, hepoch, hstore⟩
  · have hrecs : (s.pause cfg a).mincondRecs = s.mincondRecs := congrArg LedgerStore.recs hstore
    rwa [hrecs]
  · have hrecs : (s.pause cfg a).mincondRecs = pruneRecs s.mincondRecs e :=
      congrArg LedgerStore.recs hstore
    have hle := hkept e hepoch
    have hretained : decide (e - 1 ≤ epochOf r) = true := decide_eq_true (by omega)
    obtain ⟨rec, hrec⟩ := Keyed.mem_keys.mp hr
    refine Keyed.mem_keys.mpr ⟨rec, ?_⟩
    rw [hrecs, pruneRecs, Keyed.get?_filterKeys, if_pos hretained, hrec]

/-- A round with a commit is on record once it is closed. -/
theorem closed_recorded (hchain : TimeOrdered chain)
    (hstart : EngineState.Started setup first s₀) (hf : setup.factory.Lawful)
    (hcfg : cfg.mincondHistory = true) (hfirst : FirstRead chain first setup.observeStartTs)
    (hobserved : setup.observeStartTs ≤ setup.factory.startS r)
    (hn : Committed cfg setup chain r n)
    (hrun : Effect.Run (Lived cfg chain (Followed cfg chain r)) s₀ hs s)
    (hclosed : s.obs.closed r = true) : r ∈ s.mincondRecs.keys := by
  induction hrun with
  | nil =>
    unfold ObserverState.closed at hclosed
    rw [hstart.lastTs] at hclosed
    cases hclosed
  | @snoc hs u h v hrun hstep ih =>
    rcases hstep.1.cases with ⟨head, -, rfl, -⟩ |
      ⟨blk, fdcLogs, fuLogs, hevent, -, rfl, -⟩ | ⟨a, -, rfl, -⟩
    · rw [poll_obs] at hclosed
      have hrecs : (u.poll cfg head).mincondRecs = u.mincondRecs := by cases head <;> rfl
      rw [hrecs]
      exact ih hclosed
    · rw [EngineState.block_eq]
      by_cases hopen : u.obs.closed r = true
      · exact EngineState.recordRounds_store.2.2.1 r (ih hopen)
      · have hsetup : u.obs.toObserverSetup = setup := by
          have htimed := (inReach_run (fun _ _ _ h => h.inReach) hrun).1
          exact htimed.invariant (fun _ u => u.obs.toObserverSetup = setup) hstart.setup
            fun _ _ _ _ _ hu hs => hs.setup.trans hu
        rw [block_closed, congrArg ObserverSetup.factory hsetup] at hclosed
        have hgathered := (commit_gathered hchain hstart hf hfirst hobserved hn hrun hstep hevent
          (by simpa using hopen) hclosed).1
        -- in flight and due: finalized, and recorded
        obtain ⟨raw, hraw⟩ : ∃ raw, (u.gathered cfg blk fdcLogs fuLogs).rounds.get? r = some raw := by
          cases hget : (u.gathered cfg blk fdcLogs fuLogs).rounds.get? r with
          | some raw => exact ⟨raw, rfl⟩
          | none =>
            rw [hget] at hgathered
            cases hgathered
        have hgsetup := (@EngineState.gathered_setup cfg u _ blk fdcLogs fuLogs).trans hsetup
        have hcount : ((((u.gathered cfg blk fdcLogs fuLogs).sweep blk.timestamp).1).map
            RoundState.roundId).count r = 1 := by
          rw [ObserverState.sweep_swept.count, if_pos]
          refine ⟨Keyed.mem_keys.mpr ⟨raw, hraw⟩, ?_, ?_⟩
          · rw [congrArg ObserverSetup.factory hgsetup]
            exact hclosed
          · rw [congrArg ObserverSetup.factory hgsetup,
              congrArg ObserverSetup.observeStartTs hgsetup]
            exact hobserved
        have hpos : 0 < ((((u.gathered cfg blk fdcLogs fuLogs).sweep blk.timestamp).1).map
            RoundState.roundId).count r := by
          rw [hcount]
          exact Nat.one_pos
        obtain ⟨rs, hrs, rfl⟩ := List.mem_map.mp (List.count_pos_iff.mp hpos)
        exact EngineState.recordRounds_store.2.2.2 hcfg rs hrs
    · rw [pause_closed] at hclosed
      exact pause_keeps (ih hclosed) hstep.2.2.kept

/-- The record of an offence has the commit, and not the reveal. -/
theorem recorded_offence (hchain : TimeOrdered chain)
    (hstart : EngineState.Started setup first s₀) (hf : setup.factory.Lawful)
    (hfirst : FirstRead chain first setup.observeStartTs)
    (hn : Committed cfg setup chain rec.rid n)
    (hnone : ¬ ∃ k, Reveals cfg setup chain rec.rid k)
    (hrun : Effect.Run (Lived cfg chain (Followed cfg chain rec.rid)) s₀ hs s)
    (hstep : Lived cfg chain (Followed cfg chain rec.rid) s h s')
    (hrec : rec ∈ recordedIn h.notices) : rec.s1 ≠ 0 ∧ rec.s2 = 0 := by
  have hsetup : s.obs.toObserverSetup = setup := by
    have htimed := (inReach_run (fun _ _ _ h => h.inReach) hrun).1
    exact htimed.invariant (fun _ u => u.obs.toObserverSetup = setup) hstart.setup
      fun _ _ _ _ _ hu hs => hs.setup.trans hu
  rcases hstep.1.cases with ⟨head, -, -, hn'⟩ |
    ⟨blk, fdcLogs, fuLogs, hevent, -, -, hn'⟩ | ⟨a, -, -, hn'⟩
  · rw [hn'] at hrec
    cases hrec
  swap
  · rw [hn'] at hrec
    cases hrec
  rw [hn'] at hrec
  obtain ⟨hcfg, hnew, hdue, hobserved, raw, hraw, hraw1, hraw2⟩ := recorded_raw hrec
  rw [congrArg ObserverSetup.factory hsetup] at hdue hobserved
  rw [congrArg ObserverSetup.observeStartTs hsetup] at hobserved
  have hopen : s.obs.closed rec.rid = false := by
    by_contra hclosed
    exact hnew (closed_recorded hchain hstart hf hcfg hfirst hobserved hn hrun
      (by simpa using hclosed))
  obtain ⟨h1, h2⟩ :=
    commit_gathered hchain hstart hf hfirst hobserved hn hrun hstep hevent hopen hdue
  have hquiet1 : revealIn (submissionsIn cfg setup rec.rid hs) = false := by
    by_contra hreveal
    obtain ⟨x, hx, hkind⟩ := revealIn_eq_true.mp (by simpa using hreveal)
    obtain ⟨k, -, -, hxk⟩ := shown_onChain hrun hx
    exact hnone ⟨k, revealIn_eq_true.mpr ⟨x, hxk, hkind⟩⟩
  have hquiet2 : revealIn (blockSubmissions cfg setup rec.rid blk) = false := by
    by_contra hreveal
    obtain ⟨x, hx, hkind⟩ := revealIn_eq_true.mp (by simpa using hreveal)
    exact hnone ⟨s.cursor, revealIn_eq_true.mpr
      ⟨x, (hstep.2.1 blk fdcLogs fuLogs hevent).submissions hx, hkind⟩⟩
  rw [hraw] at h1 h2
  rw [hquiet1, hquiet2] at h2
  have h1' : raw.submit1Seen = true := h1
  have h2' : raw.submit2Seen = false := h2
  rw [hraw1, hraw2, h1', h2']
  exact ⟨Nat.one_ne_zero, rfl⟩

end

/-! ## All the runs of the observer -/

/-- What a tally counts as reveal offences. -/
def offences (records : List RoundRecord) (epoch : Int) : List RoundRecord :=
  (epochRecords records epoch).filter fun r => r.s1 ≠ 0 ∧ r.s2 = 0

theorem revealOffences_eq {records : List RoundRecord} {epoch : Int} :
    (epochTally records epoch).revealOffences = (offences records epoch).length :=
  List.countP_eq_length_filter

/-- All that is on record meets `P`. -/
structure Watch.Holds (P : RoundRecord → Prop) (w : Watch) : Prop where
  onDisk : ∀ rec ∈ w.file, P rec
  inMemory : ∀ s, w.engine = some s → (∀ rec ∈ s.mincondRecs.values, P rec) ∧
    ∀ rec ∈ s.mincondFile, P rec

theorem mem_of_loaded {file : List RoundRecord} {rewardEpoch : Option Int} {rec : RoundRecord}
    (h : rec ∈ (loadHistory file rewardEpoch).values) : rec ∈ file := by
  rw [Keyed.mem_values, get?_loadHistory] at h
  split at h
  · exact List.mem_reverse.mp (List.mem_of_find?_eq_some h)
  · cases h

section

variable [FtsoRules] [Messaging] {cfg : EngineConfig} {base : ObserverSetup}
  {chain : Nat → Block} {lookbackBlocks maxBlocks : Nat} {r : Int} {w w' : Watch}
  {ev : WatchEvent} {evs : List WatchEvent} {P : RoundRecord → Prop}

omit [FtsoRules] [Messaging] in
/-- An engine without a ledger starts with none. -/
theorem start_bare {setup : ObserverSetup} {cursor : Nat} {file : List RoundRecord}
    {tallies : List IqrTally} {a : PauseAnswers} (hcfg : cfg.mincondHistory = false) :
    (EngineState.start cfg setup cursor file tallies a).mincondRecs.values = [] ∧
      (EngineState.start cfg setup cursor file tallies a).mincondFile = [] := by
  obtain ⟨_, _, _, _, _, _, hrefresh⟩ := @EngineState.refresh_frame cfg
    { obs := { toObserverSetup := setup }, cursor := cursor, scanLo := cursor,
      lastBlock := cursor } a
  unfold EngineState.start
  simp only [hcfg]
  rw [hrefresh]
  exact ⟨rfl, rfl⟩

/-- What is on record was there before the step, or is recorded by it. -/
theorem Watch.Holds.step (h : w.Holds P) (hstep : WatchStep cfg lookbackBlocks maxBlocks w ev w')
    (hrec : ∀ s hap, w.engine = some s → ev = .engine hap →
      ∀ rec ∈ recordedIn hap.notices, P rec) : w'.Holds P := by
  cases hstep with
  | @start head cursor setup tallies a hdown hhead hcursor =>
    refine ⟨h.onDisk, fun s hs => ?_⟩
    cases hs
    by_cases hcfg : cfg.mincondHistory = true
    · unfold EngineState.start
      simp only [hcfg, if_true]
      exact ⟨fun rec hrec => h.onDisk rec (mem_of_loaded hrec), h.onDisk⟩
    · obtain ⟨hrecs, hfile⟩ := @start_bare cfg setup cursor w.file tallies a (by simpa using hcfg)
      rw [hrecs, hfile]
      exact ⟨fun rec hrec => absurd hrec List.not_mem_nil,
        fun rec hrec => absurd hrec List.not_mem_nil⟩
  | @poll s s' head notices hup hhead hstep =>
    have hs' : s.poll cfg head = s' := congrArg Prod.fst hstep.2
    obtain ⟨hvalues, hfile⟩ := h.inMemory s hup
    have hstore : s'.mincondRecs = s.mincondRecs ∧ s'.mincondFile = s.mincondFile := by
      rw [← hs']
      cases head <;> exact ⟨rfl, rfl⟩
    refine ⟨fun rec hrec => ?_, fun u hu => ?_⟩
    · unfold fileAfter at hrec
      rw [hstore.2] at hrec
      split at hrec
      · exact hfile rec hrec
      · exact h.onDisk rec hrec
    · cases hu
      rw [hstore.1, hstore.2]
      exact ⟨hvalues, hfile⟩
  | @block s s' blk fdcLogs fuLogs notices session past hup hsessions hstep =>
    have hs' : (s.block cfg blk fdcLogs fuLogs).1 = s' := congrArg Prod.fst hstep.2
    have hnotices : (s.block cfg blk fdcLogs fuLogs).2 = notices := congrArg Prod.snd hstep.2
    obtain ⟨hvalues, hfile⟩ := h.inMemory s hup
    have hnew := hrec s _ hup rfl
    rw [EngineState.block_eq] at hs' hnotices
    obtain ⟨hvalues', hfile', -, -⟩ := @EngineState.recordRounds_store cfg
      (s.scanned cfg blk fdcLogs fuLogs)
      ((s.gathered cfg blk fdcLogs fuLogs).sweep blk.timestamp).1
    have hmemory : (∀ rec ∈ s'.mincondRecs.values, P rec) ∧ ∀ rec ∈ s'.mincondFile, P rec := by
      rw [← hs']
      refine ⟨fun rec hrec => ?_, fun rec hrec => ?_⟩
      · rcases hvalues' rec hrec with hrec | hrec
        · exact hvalues rec hrec
        · exact hnew rec (hnotices ▸ hrec)
      · rcases hfile' rec hrec with hrec | hrec
        · exact hfile rec hrec
        · exact hnew rec (hnotices ▸ hrec)
    refine ⟨fun rec hrec => ?_, fun u hu => ?_⟩
    · unfold fileAfter at hrec
      split at hrec
      · exact hmemory.2 rec hrec
      · exact h.onDisk rec hrec
    · cases hu
      exact hmemory
  | @pause s s' a notices hup hstep =>
    have hs' : s.pause cfg a = s' := congrArg Prod.fst hstep.2
    obtain ⟨hvalues, hfile⟩ := h.inMemory s hup
    have hmemory : (∀ rec ∈ s'.mincondRecs.values, P rec) ∧ ∀ rec ∈ s'.mincondFile, P rec := by
      rw [← hs']
      rcases @EngineState.pause_store cfg s a with hstore | ⟨e, -, hstore⟩
      · have hrecs : (s.pause cfg a).mincondRecs = s.mincondRecs :=
          congrArg LedgerStore.recs hstore
        have hlines : (s.pause cfg a).mincondFile = s.mincondFile :=
          congrArg LedgerStore.file hstore
        rw [hrecs, hlines]
        exact ⟨hvalues, hfile⟩
      · have hrecs : (s.pause cfg a).mincondRecs = pruneRecs s.mincondRecs e :=
          congrArg LedgerStore.recs hstore
        have hlines : (s.pause cfg a).mincondFile = pruneHistory s.mincondFile (some e) :=
          congrArg LedgerStore.file hstore
        rw [hrecs, hlines]
        refine ⟨fun rec hrec => hvalues rec ?_, fun rec hrec => hfile rec ?_⟩
        · rw [pruneRecs, Keyed.mem_values, Keyed.get?_filterKeys] at hrec
          split at hrec
          · exact Keyed.mem_values.mpr hrec
          · cases hrec
        · exact mem_of_loaded ((List.perm_insertionSort _ _).mem_iff.mp hrec)
    refine ⟨fun rec hrec => ?_, fun u hu => ?_⟩
    · unfold fileAfter at hrec
      split at hrec
      · exact hmemory.2 rec hrec
      · exact h.onDisk rec hrec
    · cases hu
      exact hmemory
  | status => exact ⟨h.onDisk, h.inMemory⟩
  | stop => exact ⟨h.onDisk, fun s hs => by cases hs⟩

/-- The node shows the chain; the rounds that are counted begin with the time of the first block,
or with 0 if it could not be read. -/
def OnChain (base : ObserverSetup) (chain : Nat → Block) (lookbackBlocks maxBlocks : Nat)
    (w : Watch) : WatchEvent → Prop
  | .start head setup _ _ => ∃ ts, setup = { base with observeStartTs := ts } ∧
      (ts = (chain (resumeCursor head lookbackBlocks w.persisted maxBlocks)).timestamp ∨ ts = 0)
  | .engine hap => ∀ s blk fdcLogs fuLogs, w.engine = some s →
      hap.event = .block blk fdcLogs fuLogs → ShownAs (chain s.cursor) blk
  | _ => True

/-- A step of the observer on the chain. -/
def ChainStep (cfg : EngineConfig) (base : ObserverSetup) (chain : Nat → Block)
    (lookbackBlocks maxBlocks : Nat) (w : Watch) (ev : WatchEvent) (w' : Watch) : Prop :=
  WatchStep cfg lookbackBlocks maxBlocks w ev w' ∧ OnChain base chain lookbackBlocks maxBlocks w ev

/-- Whether the steps of the engine meet `C`, and its starts `S`. -/
def MeetsBoth (lookbackBlocks maxBlocks : Nat) (C : EngineState → Happening → EngineState → Prop)
    (S : Nat → Int → Prop) (w : Watch) (ev : WatchEvent) (w' : Watch) : Prop :=
  (∀ s hap s', w.engine = some s → ev = .engine hap → w'.engine = some s' → C s hap s') ∧
  ∀ head setup tallies a, ev = .start head setup tallies a →
    S (resumeCursor head lookbackBlocks w.persisted maxBlocks) setup.observeStartTs

/-- The process that is up has run on the chain since it started. -/
def Watch.Alive (cfg : EngineConfig) (base : ObserverSetup) (chain : Nat → Block)
    (C : EngineState → Happening → EngineState → Prop) (S : Nat → Int → Prop) (w : Watch) : Prop :=
  ∀ s, w.engine = some s → ∃ first ts file tallies a hs, S first ts ∧
    Effect.Run (Lived cfg chain C)
      (EngineState.start cfg { base with observeStartTs := ts } first file tallies a) hs s

variable {C : EngineState → Happening → EngineState → Prop} {S : Nat → Int → Prop}

/-- The steps of a process that is up. -/
theorem Watch.Alive.lived (hchain : TimeOrdered chain)
    (h : w.Alive cfg base chain C S) {s s' : EngineState} {hap : Happening}
    (hup : w.engine = some s) (hstep : EngineStep cfg s hap s')
    (hon : OnChain base chain lookbackBlocks maxBlocks w (.engine hap)) (hC : C s hap s') :
    Lived cfg chain C s hap s' := by
  obtain ⟨first, ts, file, tallies, a, hs, -, hrun⟩ := h s hup
  have hshown : ∀ blk fdcLogs fuLogs, hap.event = .block blk fdcLogs fuLogs →
      ShownAs (chain s.cursor) blk := fun blk fdcLogs fuLogs hevent =>
    hon s blk fdcLogs fuLogs hup hevent
  refine ⟨⟨fun blk fdcLogs fuLogs hevent last hlast => ?_, hstep⟩, hshown, hC⟩
  obtain ⟨n, -, hn, hts⟩ := lastTs_run EngineState.start_started.lastTs hrun hlast
  have hle := hchain n s.cursor (by omega)
  rw [hts, (hshown blk fdcLogs fuLogs hevent).timestamp]
  exact hle

theorem Watch.Alive.step (hchain : TimeOrdered chain)
    (h : w.Alive cfg base chain C S)
    (hstep : ChainStep cfg base chain lookbackBlocks maxBlocks w ev w')
    (hmeets : MeetsBoth lookbackBlocks maxBlocks C S w ev w') : w'.Alive cfg base chain C S := by
  obtain ⟨hstep, hon⟩ := hstep
  -- a step of the engine goes on with the run of the process
  have hengine : ∀ {s s' : EngineState} {hap : Happening}, w.engine = some s →
      EngineStep cfg s hap s' → ev = .engine hap → w'.engine = some s' →
      w'.Alive cfg base chain C S := by
    intro s s' hap hup hstep hev hup' u hu
    rw [hup'] at hu
    cases hu
    obtain ⟨first, ts, file, tallies, a, hs, hS, hrun⟩ := h s hup
    exact ⟨first, ts, file, tallies, a, hs ++ [hap], hS,
      hrun.snoc (h.lived hchain hup hstep (hev ▸ hon) (hmeets.1 s hap s' hup hev hup'))⟩
  cases hstep with
  | @start head cursor setup tallies a hdown hhead hcursor =>
    intro s hs
    cases hs
    obtain ⟨ts, rfl, -⟩ := hon
    refine ⟨cursor, ts, w.file, tallies, a, [], ?_, .nil⟩
    have hS := hmeets.2 head _ tallies a rfl
    rwa [← hcursor] at hS
  | poll hup hhead hstep => exact hengine hup hstep rfl rfl
  | block hup hsessions hstep => exact hengine hup hstep rfl rfl
  | pause hup hstep => exact hengine hup hstep rfl rfl
  | status hup => exact h
  | stop hup =>
    intro s hs
    cases hs

/-- What every recorded round meets, everything on record meets, in every run. -/
theorem holds_run (hchain : TimeOrdered chain)
    (hrecorded : ∀ {first : Nat} {ts : Int} {s₀ s s' : EngineState} {hap : Happening}
      {hs : List Happening}, S first ts →
      EngineState.Started { base with observeStartTs := ts } first s₀ →
      Effect.Run (Lived cfg chain C) s₀ hs s → Lived cfg chain C s hap s' →
      ∀ rec ∈ recordedIn hap.notices, P rec)
    (hrun : Effect.Run (fun w ev w' => ChainStep cfg base chain lookbackBlocks maxBlocks w ev w' ∧
      MeetsBoth lookbackBlocks maxBlocks C S w ev w') {} evs w) :
    w.Alive cfg base chain C S ∧ w.Holds P := by
  induction hrun with
  | nil =>
    exact ⟨fun s hs => (by cases hs), fun rec hrec => (by cases hrec), fun s hs => (by cases hs)⟩
  | @snoc evs w ev w' _ hstep ih =>
    obtain ⟨⟨hstep, hon⟩, hmeets⟩ := hstep
    refine ⟨ih.1.step hchain ⟨hstep, hon⟩ hmeets, ih.2.step hstep ?_⟩
    intro s hap hup hev rec hrec
    obtain ⟨first, ts, file, tallies, a, hs, hS, hrun⟩ := ih.1 s hup
    have hengine : ∀ {s' : EngineState}, EngineStep cfg s hap s' → w'.engine = some s' → P rec :=
      fun hstep hup' => hrecorded hS EngineState.start_started hrun
        (ih.1.lived hchain hup hstep (hev ▸ hon) (hmeets.1 s hap _ hup hev hup')) rec hrec
    cases hstep with
    | start => cases hev
    | poll hup₁ hhead hstep =>
      cases hev
      rw [hup] at hup₁
      cases hup₁
      exact hengine hstep rfl
    | block hup₁ hsessions hstep =>
      cases hev
      rw [hup] at hup₁
      cases hup₁
      exact hengine hstep rfl
    | pause hup₁ hstep =>
      cases hev
      rw [hup] at hup₁
      cases hup₁
      exact hengine hstep rfl
    | status => cases hev
    | stop => cases hev

omit [FtsoRules] [Messaging] in
/-- A round that is on record is counted with its epoch, if its record says so. -/
theorem counted_of_record {records : Keyed Int RoundRecord RoundRecord.rid}
    (hr : r ∈ records.keys)
    (hrec : ∀ rec ∈ records.values, rec.rid = r → rec.s1 ≠ 0 ∧ rec.s2 = 0) :
    r ∈ (offences records.values (epochOf r)).map RoundRecord.rid := by
  obtain ⟨rec, hget⟩ := Keyed.mem_keys.mp hr
  have hrid : rec.rid = r := Keyed.key_of_get? hget
  have hmem : rec ∈ records.values := by
    rw [Keyed.mem_values, hrid]
    exact hget
  refine List.mem_map.mpr ⟨rec, List.mem_filter.mpr ⟨List.mem_filter.mpr ⟨hmem, ?_⟩, ?_⟩, hrid⟩
  · exact decide_eq_true (by rw [hrid])
  · exact decide_eq_true (hrec rec hmem hrid)

/-- In every run of the observer on the chain: a round that is counted is an offence, if the
reveals that follow a commit that was seen are heard; and an offence that is on record is counted,
if the blocks are shown in full from the first one of each process on. -/
theorem offences_counted (hchain : TimeOrdered chain)
    (hf : base.factory.Lawful) {s : EngineState} (hup : w.engine = some s) :
    (∀ e, (epochTally s.mincondRecs.values e).revealOffences =
      (offences s.mincondRecs.values e).length) ∧
    (Timely cfg base chain r →
      Effect.Run (fun w ev w' => ChainStep cfg base chain lookbackBlocks maxBlocks w ev w' ∧
        MeetsBoth lookbackBlocks maxBlocks (fun s h _ => Heard cfg chain r s h) (fun _ _ => True)
          w ev w') {} evs w →
      ∀ e, r ∈ (offences s.mincondRecs.values e).map RoundRecord.rid →
        (∃ n, Commits cfg base chain r n) ∧ ¬ ∃ k, Reveals cfg base chain r k) ∧
    ((∃ n, Committed cfg base chain r n) → (¬ ∃ k, Reveals cfg base chain r k) →
      Effect.Run (fun w ev w' => ChainStep cfg base chain lookbackBlocks maxBlocks w ev w' ∧
        MeetsBoth lookbackBlocks maxBlocks (Followed cfg chain r) (FirstRead chain) w ev w')
          {} evs w →
      r ∈ s.mincondRecs.keys →
        r ∈ (offences s.mincondRecs.values (epochOf r)).map RoundRecord.rid) := by
  refine ⟨fun e => revealOffences_eq, fun htimely hrun e hr => ?_, fun hcommitted hnone hrun hr => ?_⟩
  · have hholds := (@holds_run _ _ cfg base chain lookbackBlocks maxBlocks _ _
      (fun rec => rec.rid = r → rec.s1 ≠ 0 → rec.s2 = 0 →
        (∃ n, Commits cfg base chain r n) ∧ ¬ ∃ k, Reveals cfg base chain r k) _ _ hchain ?_ hrun).2
    · obtain ⟨rec, hrec, hrid⟩ := List.mem_map.mp hr
      obtain ⟨hrec, hcounted⟩ := List.mem_filter.mp hrec
      obtain ⟨hs1, hs2⟩ := of_decide_eq_true hcounted
      exact (hholds.inMemory s hup).1 rec (List.mem_filter.mp hrec).1 hrid hs1 hs2
    · intro first ts s₀ s s' hap hs _ hstart hrun hstep rec hrec hrid hs1 hs2
      subst hrid
      have hgenuine := recorded_genuine hchain hstart hf htimely hrun hstep hrec hs1 hs2
      exact hgenuine
  · obtain ⟨n, hn⟩ := hcommitted
    have hholds := (@holds_run _ _ cfg base chain lookbackBlocks maxBlocks _ _
      (fun rec => rec.rid = r → rec.s1 ≠ 0 ∧ rec.s2 = 0) _ _ hchain ?_ hrun).2
    · exact counted_of_record hr fun rec hrec => (hholds.inMemory s hup).1 rec hrec
    · intro first ts s₀ s s' hap hs hfirst hstart hrun hstep rec hrec hrid
      subst hrid
      have hoffence := recorded_offence hchain hstart hf hfirst hn hnone hrun hstep hrec
      exact hoffence

/-! ## Runs from their events -/

/-- The node shows the chain to each of the events. -/
def ShowsChain (chain : Nat → Block) (s : EngineState) (h : Happening) : Prop :=
  ∀ blk fdcLogs fuLogs, h.event = .block blk fdcLogs fuLogs → ShownAs (chain s.cursor) blk

/-- A process that is up goes on with the events. -/
theorem watchRun_of_allowed {s : EngineState} {es : List EngineEvent} (hup : w.engine = some s)
    (hsessions : w.sessions ≠ []) (hes : allowedAll cfg s es = true)
    (hheads : ∀ n, EngineEvent.poll (some n) ∈ es → n = w.head)
    (hQ : EachEvent cfg (fun s h => ShowsChain chain s h ∧ C s h (s.next cfg h.event).1) s es) :
    ∃ evs w', Effect.Run (fun w ev w' => ChainStep cfg base chain lookbackBlocks maxBlocks w ev w' ∧
        MeetsBoth lookbackBlocks maxBlocks C S w ev w') w evs w' ∧
      w'.engine = some (after cfg s es) := by
  induction es generalizing w s with
  | nil => exact ⟨[], w, .nil, hup⟩
  | cons e es ih =>
    simp only [allowedAll, Bool.and_eq_true] at hes
    obtain ⟨⟨hshown, hC⟩, hrest⟩ := hQ
    have hstep : EngineStep cfg s ⟨e, (s.next cfg e).2⟩ (s.next cfg e).1 :=
      ⟨enabled_of_allowed hes.1, rfl⟩
    have hheads' : ∀ n, EngineEvent.poll (some n) ∈ es → n = w.head := fun n hn =>
      hheads n (List.mem_cons_of_mem _ hn)
    -- the step of the observer, and what is as it was
    obtain ⟨w₁, hwatch, hup₁, hsessions₁, hhead₁⟩ : ∃ w₁,
        WatchStep cfg lookbackBlocks maxBlocks w (.engine ⟨e, (s.next cfg e).2⟩) w₁ ∧
        w₁.engine = some (s.next cfg e).1 ∧ w₁.sessions ≠ [] ∧ w₁.head = w.head := by
      cases e with
      | poll head =>
        refine ⟨_, .poll hup (fun n hn => ?_) hstep, rfl, hsessions, ?_⟩
        · exact (hheads n (hn ▸ List.mem_cons_self)).ge
        · cases head with
          | none => rfl
          | some n => exact hheads n List.mem_cons_self
      | block blk fdcLogs fuLogs =>
        obtain ⟨session, past, hsession⟩ := List.exists_cons_of_ne_nil hsessions
        exact ⟨_, .block hup hsession hstep, rfl, List.cons_ne_nil _ _, rfl⟩
      | pause a => exact ⟨_, .pause hup hstep, rfl, hsessions, rfl⟩
    have hon : OnChain base chain lookbackBlocks maxBlocks w (.engine ⟨e, (s.next cfg e).2⟩) := by
      intro s₁ blk fdcLogs fuLogs hup' hevent
      rw [hup] at hup'
      cases hup'
      exact hshown blk fdcLogs fuLogs hevent
    have hmeets : MeetsBoth lookbackBlocks maxBlocks C S w (.engine ⟨e, (s.next cfg e).2⟩) w₁ := by
      refine ⟨fun s₁ hap s₂ hup' hev hup₂ => ?_, fun head setup tallies a hev => by cases hev⟩
      cases hev
      rw [hup] at hup'
      rw [hup₁] at hup₂
      cases hup'
      cases hup₂
      exact hC
    obtain ⟨evs, w', hrun, hup'⟩ := ih hup₁ hsessions₁ hes.2 (by rwa [hhead₁]) hrest
    exact ⟨_, w', .cons ⟨⟨hwatch, hon⟩, hmeets⟩ hrun, hup'⟩

/-- The first process. -/
theorem firstRun_of_allowed {es : List EngineEvent} {head : Nat} {ts : Int} {a : PauseAnswers}
    (hts : ts = (chain (resumeCursor head lookbackBlocks none maxBlocks)).timestamp ∨ ts = 0)
    (hS : S (resumeCursor head lookbackBlocks none maxBlocks) ts)
    (hes : allowedAll cfg (EngineState.start cfg { base with observeStartTs := ts }
      (resumeCursor head lookbackBlocks none maxBlocks) [] [] a) es = true)
    (hheads : ∀ n, EngineEvent.poll (some n) ∈ es → n = head)
    (hQ : EachEvent cfg (fun s h => ShowsChain chain s h ∧ C s h (s.next cfg h.event).1)
      (EngineState.start cfg { base with observeStartTs := ts }
        (resumeCursor head lookbackBlocks none maxBlocks) [] [] a) es) :
    ∃ evs w, Effect.Run (fun w ev w' => ChainStep cfg base chain lookbackBlocks maxBlocks w ev w' ∧
        MeetsBoth lookbackBlocks maxBlocks C S w ev w') {} evs w ∧
      w.engine = some (after cfg (EngineState.start cfg { base with observeStartTs := ts }
        (resumeCursor head lookbackBlocks none maxBlocks) [] [] a) es) := by
  obtain ⟨w₁, hstart, hup₁, hsessions₁, hhead₁⟩ : ∃ w₁, WatchStep cfg lookbackBlocks maxBlocks {}
      (.start head { base with observeStartTs := ts } [] a) w₁ ∧
      w₁.engine = some (EngineState.start cfg { base with observeStartTs := ts }
        (resumeCursor head lookbackBlocks none maxBlocks) [] [] a) ∧
      w₁.sessions ≠ [] ∧ w₁.head = head :=
    ⟨_, .start rfl (Nat.zero_le _) rfl, rfl, List.cons_ne_nil _ _, rfl⟩
  obtain ⟨evs, w, hrun, hup⟩ := watchRun_of_allowed hup₁ hsessions₁ hes (by rwa [hhead₁]) hQ
  refine ⟨_, w, .cons ⟨⟨hstart, ts, rfl, hts⟩, ?_, ?_⟩ hrun, hup⟩
  · intro s hap s' hdown
    cases hdown
  · intro head' setup tallies a' hev
    cases hev
    exact hS

end

/-! ## A round that straddles an outage -/

theorem shownAs_refl {blk : Block} : ShownAs blk blk where
  timestamp := rfl
  transactions := List.forall₂_same.mpr fun _ _ => .inl rfl

/-- The commit to the round 0 in the block 1, the reveal in the block 2. -/
def straddledChain : Nat → Block
  | 0 => ⟨-1, []⟩
  | 1 => ⟨0, [sampleTx "0x6c532fae"]⟩
  | 2 => ⟨100, [sampleTx "0x9d00c9fd"]⟩
  | _ + 3 => ⟨300, []⟩

/-- The block 1 is read live; after an outage the node withholds the body of the reveal. -/
def straddledEvents : List EngineEvent :=
  [.poll (some 3), .block (straddledChain 1) none none, .pause noAnswers, .poll none,
    .poll (some 3), .block ⟨100, [{ sampleTx "0x9d00c9fd" with input := none }]⟩ none none,
    .block (straddledChain 3) none none]

theorem straddled_allowed :
    @allowedAll sampleRules sampleMessages sampleConfig sampleStart straddledEvents = true := by
  decide +kernel

theorem straddledChain_ordered : TimeOrdered straddledChain := by
  refine timeOrdered_of_succ fun n => ?_
  match n with
  | 0 | 1 | 2 => decide
  | n + 3 => exact le_rfl

/-- The round 0 is counted, and AP revealed. -/
theorem straddled_counted :
    let _ := sampleRules
    let _ := sampleMessages
    TimeOrdered straddledChain ∧ sampleSetup.factory.Lawful ∧
    ∃ evs w s, Effect.Run (ChainStep sampleConfig sampleSetup straddledChain 2 0) {} evs w ∧
      w.engine = some s ∧
      0 ∈ (offences s.mincondRecs.values 0).map RoundRecord.rid ∧
      Reveals sampleConfig sampleSetup straddledChain 0 2 := by
  intro _ _
  have hshows : ∀ {n : Nat} {s : EngineState} {blk : Block} {notices : List Notice},
      s.cursor = n → ShownAs (straddledChain n) blk →
      ShowsChain straddledChain s ⟨.block blk none none, notices⟩ ∧ True := by
    intro n s blk notices hn hblk
    refine ⟨fun blk' fdcLogs fuLogs hevent => ?_, trivial⟩
    cases hevent
    rwa [hn]
  have hquiet : ∀ {s : EngineState} {e : EngineEvent} {notices : List Notice},
      (∀ blk fdcLogs fuLogs, e ≠ .block blk fdcLogs fuLogs) →
      ShowsChain straddledChain s ⟨e, notices⟩ ∧ True := by
    intro s e notices he
    exact ⟨fun blk fdcLogs fuLogs hevent => absurd hevent (he blk fdcLogs fuLogs), trivial⟩
  have hwithheld : ShownAs (straddledChain 2)
      ⟨100, [{ sampleTx "0x9d00c9fd" with input := none }]⟩ :=
    ⟨rfl, .cons (.inr rfl) .nil⟩
  obtain ⟨evs, w, hrun, hup⟩ := @firstRun_of_allowed _ _ sampleConfig sampleSetup straddledChain 2 0
    (fun _ _ _ => True) (fun _ _ => True) straddledEvents 3 0 noAnswers (.inr rfl) trivial
    straddled_allowed (by simp [straddledEvents])
    ⟨hquiet (by simp), hshows rfl shownAs_refl, hquiet (by simp), hquiet (by simp),
      hquiet (by simp), hshows (n := 2) (by decide +kernel) hwithheld,
      hshows (n := 3) (by decide +kernel) shownAs_refl, trivial⟩
  exact ⟨straddledChain_ordered, VotingFactory.grid_lawful (by decide) (by decide), evs, w, _,
    hrun.mono fun _ _ _ h => h.1, hup, by decide +kernel, show revealIn _ = true by decide +kernel⟩

/-! ## A round without a reveal -/

/-- The commit to the round 0, and no reveal. -/
def offenceChain : Nat → Block
  | 0 => ⟨-1, []⟩
  | 1 => ⟨0, [sampleTx "0x6c532fae"]⟩
  | _ + 2 => ⟨300, []⟩

def offenceEvents : List EngineEvent :=
  [.poll (some 2), .block (offenceChain 1) none none, .block (offenceChain 2) none none]

/-- What the run and the chain show. -/
theorem offence_shown :
    let _ := sampleRules
    let _ := sampleMessages
    allowedAll sampleConfig sampleStart offenceEvents = true ∧
      (∀ blk ∈ [offenceChain 0, offenceChain 1, offenceChain 2],
        revealIn (blockSubmissions sampleConfig sampleSetup 0 blk) = false) ∧
      commitIn (blockSubmissions sampleConfig sampleSetup 0 (offenceChain 1)) = true := by
  decide +kernel

theorem offenceChain_ordered : TimeOrdered offenceChain := by
  refine timeOrdered_of_succ fun n => ?_
  match n with
  | 0 | 1 => decide
  | n + 2 => exact le_rfl

theorem offence_unrevealed :
    let _ := sampleMessages
    ¬ ∃ k, Reveals sampleConfig sampleSetup offenceChain 0 k := by
  rintro _ ⟨k, hk⟩
  have hmem : offenceChain k ∈ [offenceChain 0, offenceChain 1, offenceChain 2] := by
    match k with
    | 0 => exact List.mem_cons_self
    | 1 => exact List.mem_cons_of_mem _ List.mem_cons_self
    | k + 2 => exact List.mem_cons_of_mem _ (List.mem_cons_of_mem _ List.mem_cons_self)
  have hk' := offence_shown.2.1 _ hmem
  unfold Reveals at hk
  rw [hk'] at hk
  cases hk

/-- A run in which all is shown and heard. -/
theorem offence_run :
    let _ := sampleRules
    let _ := sampleMessages
    ∃ evs w, Effect.Run
      (fun w ev w' => ChainStep sampleConfig sampleSetup offenceChain 1 0 w ev w' ∧
        MeetsBoth 1 0 (fun s h s' => Heard sampleConfig offenceChain 0 s h ∧
          Followed sampleConfig offenceChain 0 s h s') (FirstRead offenceChain) w ev w') {} evs w ∧
      w.engine = some (after sampleConfig sampleStart offenceEvents) := by
  intro _ _
  have hblock : ∀ {n : Nat} {s : EngineState} {notices : List Notice},
      s.cursor = n →
      (s.obs.lastTs = none → ∀ x ∈ s.blockOps sampleConfig (offenceChain n) none none,
        x.1 ≤ s.obs.factory.roundAt (offenceChain n).timestamp + futureRoundMargin) →
      s.obs.tooFar 0 = false →
      revealIn (blockSubmissions sampleConfig s.obs.toObserverSetup 0 (offenceChain n)) = false →
      ((s.block sampleConfig (offenceChain n) none none).1.reg.epoch.all fun e =>
        decide (e ≤ epochOf 0 + 1)) = true →
      ShowsChain offenceChain s ⟨.block (offenceChain n) none none, notices⟩ ∧
        Heard sampleConfig offenceChain 0 s ⟨.block (offenceChain n) none none, notices⟩ ∧
        Followed sampleConfig offenceChain 0 s ⟨.block (offenceChain n) none none, notices⟩
          (s.block sampleConfig (offenceChain n) none none).1 := by
    intro n s notices hn hfirst hfar hno hepoch
    have hreach : InReach sampleConfig 0 s ⟨.block (offenceChain n) none none, notices⟩ := by
      refine ⟨fun blk fdcLogs fuLogs hevent => ?_, fun _ _ _ _ _ => hfar⟩
      cases hevent
      exact hfirst
    refine ⟨fun blk fdcLogs fuLogs hevent => ?_, ⟨hreach, fun _ _ _ _ hreveals => ?_⟩, hreach,
      fun blk fdcLogs fuLogs hevent => ?_, fun e he => ?_⟩
    · cases hevent
      rw [hn]
      exact shownAs_refl
    · unfold Reveals at hreveals
      rw [hn, hno] at hreveals
      cases hreveals
    · cases hevent
      rw [hn]
    · rw [he] at hepoch
      exact of_decide_eq_true hepoch
  have hpoll : ∀ {s : EngineState} {head : Option Nat} {notices : List Notice} {s' : EngineState},
      s'.reg.epoch = none →
      ShowsChain offenceChain s ⟨.poll head, notices⟩ ∧
        Heard sampleConfig offenceChain 0 s ⟨.poll head, notices⟩ ∧
        Followed sampleConfig offenceChain 0 s ⟨.poll head, notices⟩ s' := by
    intro s head notices s' hepoch
    have hreach : InReach sampleConfig 0 s ⟨.poll head, notices⟩ :=
      ⟨fun _ _ _ hevent => (by cases hevent), fun _ _ _ hevent => (by cases hevent)⟩
    refine ⟨fun _ _ _ hevent => (by cases hevent), ⟨hreach, fun _ _ _ hevent => (by cases hevent)⟩,
      hreach, fun _ _ _ hevent => (by cases hevent), fun e he => ?_⟩
    rw [hepoch] at he
    cases he
  have hfirst : FirstRead offenceChain 1 0 := by
    refine ⟨rfl, fun n hn => ?_⟩
    obtain rfl : n = 0 := by omega
    decide
  have hall : EachEvent sampleConfig (fun s h => ShowsChain offenceChain s h ∧
      Heard sampleConfig offenceChain 0 s h ∧ Followed sampleConfig offenceChain 0 s h
        (s.next sampleConfig h.event).1) sampleStart offenceEvents := by
    refine ⟨hpoll (by decide +kernel), hblock ?_ ?_ ?_ ?_ ?_, hblock ?_ ?_ ?_ ?_ ?_, trivial⟩
    all_goals decide +kernel
  exact @firstRun_of_allowed _ _ sampleConfig sampleSetup offenceChain 1 0 _ _ offenceEvents 2 0
    noAnswers (.inr rfl) hfirst offence_shown.1 (by simp [offenceEvents]) hall

theorem MeetsBoth.mono {lookbackBlocks maxBlocks : Nat}
    {C C' : EngineState → Happening → EngineState → Prop} {S S' : Nat → Int → Prop} {w w' : Watch}
    {ev : WatchEvent} (h : MeetsBoth lookbackBlocks maxBlocks C S w ev w')
    (hC : ∀ s hap s', C s hap s' → C' s hap s') (hS : ∀ first ts, S first ts → S' first ts) :
    MeetsBoth lookbackBlocks maxBlocks C' S' w ev w' :=
  ⟨fun s hap s' hup hev hup' => hC s hap s' (h.1 s hap s' hup hev hup'),
    fun head setup tallies a hev => hS _ _ (h.2 head setup tallies a hev)⟩

/-- The round 0 is on record: it is counted, and it is an offence. -/
theorem offence_counted :
    let _ := sampleRules
    let _ := sampleMessages
    0 ∈ (offences (after sampleConfig sampleStart offenceEvents).mincondRecs.values
        (epochOf 0)).map RoundRecord.rid ∧
      (∃ n, Commits sampleConfig sampleSetup offenceChain 0 n) ∧
      ¬ ∃ k, Reveals sampleConfig sampleSetup offenceChain 0 k := by
  intro _ _
  obtain ⟨evs, w, hrun, hup⟩ := offence_run
  have htimely : Timely sampleConfig sampleSetup offenceChain 0 := fun k hk =>
    absurd ⟨k, hk⟩ offence_unrevealed
  obtain ⟨-, hgenuine, hcounted⟩ :=
    @offences_counted _ _ sampleConfig sampleSetup offenceChain 1 0 0
    w evs offenceChain_ordered (VotingFactory.grid_lawful (by decide) (by decide)) _ hup
  have hmem := hcounted ⟨1, offence_shown.2.2, by decide, by decide⟩ offence_unrevealed
    (hrun.mono fun _ _ _ h => ⟨h.1, h.2.mono (fun _ _ _ hc => hc.2) fun _ _ hs => hs⟩)
    (by decide +kernel)
  exact ⟨hmem, hgenuine htimely
    (hrun.mono fun _ _ _ h => ⟨h.1, h.2.mono (fun _ _ _ hc => hc.1) fun _ _ _ => trivial⟩) _ hmem⟩

end Clif.Observe
