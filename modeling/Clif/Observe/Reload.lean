import Clif.Observe.EngineSteps
import Clif.Observe.Jsonl

/-!
# Observe.Reload — the ledger in memory and in its file

Memory keeps the first record of a round, the file is read with the last one winning, and the two
are pruned apart.  `Mirrored` says where they must agree: on the rounds that the current reward
epoch still retains.  Every operation keeps it, so that a restart, which reads the memory back from
the file, changes nothing that a tally of the current epoch or of the one before can see.
-/

namespace Clif.Observe

/-! ## The ledger and what happens to it -/

structure LedgerStore where
  /-- `mincond_recs`. -/
  recs : Ledger
  /-- The records that the lines of `mincond_history_file` hold. -/
  file : List RoundRecord

inductive LedgerOp where
  | finalized (rec : RoundRecord)
  | pruneRecs (rewardEpoch : Int)
  | pruneFile (rewardEpoch : Int)
  | restart (rewardEpoch : Option Int)

/-- The reward epoch that the operation is given. -/
def LedgerOp.epoch : LedgerOp → Option Int
  | .finalized _ => none
  | .pruneRecs e => some e
  | .pruneFile e => some e
  | .restart e => e

def LedgerOp.isRestart : LedgerOp → Bool
  | .restart _ => true
  | _ => false

namespace LedgerStore

/-- What a process starts with. -/
def opened (file : List RoundRecord) (rewardEpoch : Option Int) : LedgerStore where
  recs := loadHistory file rewardEpoch
  file := file

def perform (s : LedgerStore) : LedgerOp → LedgerStore
  | .finalized rec =>
    if rec.rid ∈ s.recs.keys then s else ⟨s.recs.put rec, s.file ++ [rec]⟩
  | .pruneRecs e => { s with recs := Clif.Observe.pruneRecs s.recs e }
  | .pruneFile e => { s with file := pruneHistory s.file (some e) }
  | .restart e => opened s.file e

def performAll (s : LedgerStore) (ops : List LedgerOp) : LedgerStore := ops.foldl perform s

end LedgerStore

/-! ## The file -/

/-- The last line of a round. -/
def lastLine (file : List RoundRecord) (rid : Int) : Option RoundRecord :=
  file.reverse.find? fun r => r.rid = rid

section

variable {file : List RoundRecord} {rewardEpoch : Option Int} {e rid : Int} {rec : RoundRecord}

theorem lastLine_append : lastLine (file ++ [rec]) rid =
    if rec.rid = rid then some rec else lastLine file rid := by
  unfold lastLine
  rw [List.reverse_append, List.reverse_singleton, List.singleton_append, List.find?_cons]
  by_cases h : rec.rid = rid
  · simp [h]
  · simp [h]

/-- A load reads the last line of every round that is retained. -/
theorem get?_loadHistory : (loadHistory file rewardEpoch).get? rid =
    if retained rewardEpoch rid then lastLine file rid else none := by
  rw [loadHistory, Keyed.get?_foldl_put, Keyed.get?_empty, Option.or_none, ← List.filter_reverse,
    List.find?_filter]
  by_cases h : retained rewardEpoch rid = true
  · rw [if_pos h, lastLine]
    congr 1
    funext r
    by_cases hr : r.rid = rid
    · simp [hr, h]
    · simp [hr]
  · rw [if_neg h, List.find?_eq_none]
    intro r _ hr
    simp only [decide_eq_true_eq] at hr
    obtain ⟨hretained, hrid⟩ := hr
    rw [hrid] at hretained
    exact h hretained

/-- Of the lines of records `load_history` makes the ledger of the records. -/
theorem load_eq_loadHistory {odd : OddSort} : ∃ rs : List RoundRecord,
    (mincondFormat rewardEpoch).load odd (.text (file.map RoundRecord.line)) false =
      .ok (rs.map RoundRecord.members) ∧
      ∀ r, r ∈ rs ↔ r ∈ (loadHistory file rewardEpoch).values := by
  refine ⟨_, load_line, fun r => ?_⟩
  rw [mem_lastOfEach, Keyed.mem_values, loadHistory, Keyed.get?_foldl_put, Keyed.get?_empty,
    Option.or_none]

/-- A prune of the file keeps the last line of every round that is retained. -/
theorem lastLine_pruneHistory : lastLine (pruneHistory file (some e)) rid =
    if e - 1 ≤ epochOf rid then lastLine file rid else none := by
  have hperm : (pruneHistory file (some e)).Perm (loadHistory file (some e)).values :=
    List.perm_insertionSort _ _
  have hfind := @Keyed.find?_of_perm Int RoundRecord _ RoundRecord.rid _ rid _ hperm
  rw [lastLine, hfind, get?_loadHistory]
  simp [retained]

end

/-! ## The tallies see the records of their epoch, in any order -/

section

variable {l l' : List RoundRecord} {epoch : Int}

/-- What is picked by a property of the elements does not see their order. -/
theorem pick_perm {pick : List Int → Option Int} {R : Int → Int → Prop} {xs ys : List Int}
    (hpick : ∀ zs a, pick zs = some a ↔ a ∈ zs ∧ ∀ b ∈ zs, R a b) (h : xs.Perm ys) :
    pick xs = pick ys := by
  ext a
  rw [hpick, hpick, h.mem_iff]
  have hall : (∀ b ∈ xs, R a b) ↔ ∀ b ∈ ys, R a b := by
    constructor
    · exact fun hb b hmem => hb b (h.mem_iff.mpr hmem)
    · exact fun hb b hmem => hb b (h.mem_iff.mp hmem)
  rw [hall]

theorem epochTally_perm (h : (epochRecords l epoch).Perm (epochRecords l' epoch)) :
    epochTally l epoch = epochTally l' epoch := by
  have hsum : ∀ f : RoundRecord → Nat,
      ((epochRecords l epoch).map f).sum = ((epochRecords l' epoch).map f).sum :=
    fun f => (h.map f).sum_eq
  have hcount := h.countP_eq fun r => r.s1 ≠ 0 ∧ r.s2 = 0
  have hmin := pick_perm (fun _ _ => List.min?_eq_some_iff) (h.map RoundRecord.rid)
  have hmax := pick_perm (fun _ _ => List.max?_eq_some_iff) (h.map RoundRecord.rid)
  unfold epochTally
  simp only [h.length_eq, hsum, hcount, hmin, hmax]

theorem epochGapRanges_perm (h : (epochRecords l epoch).Perm (epochRecords l' epoch)) :
    epochGapRanges l epoch = epochGapRanges l' epoch := by
  have hsorted : ((epochRecords l epoch).map RoundRecord.rid).insertionSort (· ≤ ·) =
      ((epochRecords l' epoch).map RoundRecord.rid).insertionSort (· ≤ ·) := by
    refine List.Perm.eq_of_pairwise' (List.pairwise_insertionSort _ _)
      (List.pairwise_insertionSort _ _) ?_
    exact (List.perm_insertionSort _ _).trans
      ((h.map RoundRecord.rid).trans (List.perm_insertionSort _ _).symm)
  unfold epochGapRanges
  rw [hsorted]

/-- Two ledgers that agree on the rounds of an epoch hold the same records of it. -/
theorem epochRecords_perm {d d' : Ledger}
    (h : ∀ rid, epochOf rid = epoch → d.get? rid = d'.get? rid) :
    (epochRecords d.values epoch).Perm (epochRecords d'.values epoch) := by
  refine (List.perm_ext_iff_of_nodup (d.values_nodup.filter _) (d'.values_nodup.filter _)).mpr ?_
  intro r
  simp only [List.mem_filter, decide_eq_true_eq, Keyed.mem_values]
  constructor
  · rintro ⟨hget, hepoch⟩
    exact ⟨h r.rid hepoch ▸ hget, hepoch⟩
  · rintro ⟨hget, hepoch⟩
    exact ⟨(h r.rid hepoch).symm ▸ hget, hepoch⟩

end

/-! ## The two sides of the ledger -/

/-- The rounds that the current reward epoch retains are in memory as the file has them, and as
they are in the memory of the process `t` that never restarted. -/
def Mirrored (e : Int) (s t : LedgerStore) : Prop :=
  ∀ rid, e - 1 ≤ epochOf rid →
    s.recs.get? rid = lastLine s.file rid ∧ t.recs.get? rid = s.recs.get? rid

section

variable {e : Int} {s t : LedgerStore}

theorem retained_of_le {rewardEpoch : Option Int} {rid : Int}
    (he : ∀ e', rewardEpoch = some e' → e' ≤ e)
    (hrid : e - 1 ≤ epochOf rid) : retained rewardEpoch rid = true := by
  cases rewardEpoch with
  | none => rfl
  | some e' =>
    have hle := he e' rfl
    exact decide_eq_true (by omega)

theorem mirrored_opened {file : List RoundRecord} {rewardEpoch : Option Int}
    (he : ∀ e', rewardEpoch = some e' → e' ≤ e) :
    Mirrored e (.opened file rewardEpoch) (.opened file rewardEpoch) := by
  intro rid hrid
  refine ⟨?_, rfl⟩
  show (loadHistory file rewardEpoch).get? rid = lastLine file rid
  rw [get?_loadHistory, if_pos (retained_of_le he hrid)]

/-- A restart is seen by nobody: the process that never restarted stays as it is. -/
theorem mirrored_restart (h : Mirrored e s t) {rewardEpoch : Option Int}
    (he : ∀ e', rewardEpoch = some e' → e' ≤ e) :
    Mirrored e (s.perform (.restart rewardEpoch)) t := by
  intro rid hrid
  obtain ⟨hfile, hmem⟩ := h rid hrid
  have hload : (s.perform (.restart rewardEpoch)).recs.get? rid = lastLine s.file rid := by
    show (loadHistory s.file rewardEpoch).get? rid = lastLine s.file rid
    rw [get?_loadHistory, if_pos (retained_of_le he hrid)]
  exact ⟨hload, hmem.trans (hfile.trans hload.symm)⟩

/-- Whatever else happens, happens to both processes. -/
theorem mirrored_perform (h : Mirrored e s t) {op : LedgerOp} (hop : op.isRestart = false)
    (he : ∀ e', op.epoch = some e' → e' ≤ e) : Mirrored e (s.perform op) (t.perform op) := by
  intro rid hrid
  obtain ⟨hfile, hmem⟩ := h rid hrid
  cases op with
  | restart e' => cases hop
  | pruneRecs e' =>
    have hle := he e' rfl
    have hkept : decide (e' - 1 ≤ epochOf rid) = true := decide_eq_true (by omega)
    constructor
    · show (pruneRecs s.recs e').get? rid = lastLine s.file rid
      rw [pruneRecs, Keyed.get?_filterKeys, if_pos hkept]
      exact hfile
    · show (pruneRecs t.recs e').get? rid = (pruneRecs s.recs e').get? rid
      rw [pruneRecs, pruneRecs, Keyed.get?_filterKeys, Keyed.get?_filterKeys, if_pos hkept,
        if_pos hkept]
      exact hmem
  | pruneFile e' =>
    have hle := he e' rfl
    refine ⟨?_, hmem⟩
    show s.recs.get? rid = lastLine (pruneHistory s.file (some e')) rid
    rw [lastLine_pruneHistory, if_pos (by omega)]
    exact hfile
  | finalized rec =>
    -- a round that is not retained may be known to one process and new to the other
    have hperform : ∀ u : LedgerStore, (u.perform (.finalized rec)).recs.get? rid =
        if rec.rid = rid then (u.recs.get? rid).or (some rec) else u.recs.get? rid := by
      intro u
      unfold LedgerStore.perform
      by_cases hknown : rec.rid ∈ u.recs.keys
      · simp only [if_pos hknown]
        by_cases hround : rec.rid = rid
        · obtain ⟨v, hv⟩ := Keyed.mem_keys.mp hknown
          rw [if_pos hround, ← hround, hv]
          rfl
        · rw [if_neg hround]
      · simp only [if_neg hknown, Keyed.get?_put]
        by_cases hround : rec.rid = rid
        · rw [if_pos hround, if_pos hround, ← hround, Keyed.get?_eq_none.mpr hknown]
          rfl
        · rw [if_neg hround, if_neg hround]
    constructor
    · rw [hperform s]
      unfold LedgerStore.perform
      by_cases hknown : rec.rid ∈ s.recs.keys
      · simp only [if_pos hknown]
        by_cases hround : rec.rid = rid
        · obtain ⟨v, hv⟩ := Keyed.mem_keys.mp hknown
          rw [if_pos hround, ← hfile, ← hround, hv]
          rfl
        · rw [if_neg hround]
          exact hfile
      · simp only [if_neg hknown, lastLine_append]
        by_cases hround : rec.rid = rid
        · rw [if_pos hround, if_pos hround, ← hround, Keyed.get?_eq_none.mpr hknown]
          rfl
        · rw [if_neg hround, if_neg hround]
          exact hfile
    · rw [hperform s, hperform t, hmem]

theorem mirrored_performAll {ops : List LedgerOp} (h : Mirrored e s t)
    (he : ∀ op ∈ ops, ∀ e', op.epoch = some e' → e' ≤ e) :
    Mirrored e (s.performAll ops) (t.performAll (ops.filter fun op => !op.isRestart)) := by
  induction ops generalizing s t with
  | nil => exact h
  | cons op ops ih =>
    have hop := he op (List.mem_cons_self ..)
    have hops : ∀ op' ∈ ops, ∀ e', op'.epoch = some e' → e' ≤ e :=
      fun op' hmem => he op' (List.mem_cons_of_mem _ hmem)
    cases hrestart : op.isRestart with
    | true =>
      obtain ⟨re, rfl⟩ : ∃ re, op = .restart re := by
        cases op with
        | restart re => exact ⟨re, rfl⟩
        | finalized rec => cases hrestart
        | pruneRecs e' => cases hrestart
        | pruneFile e' => cases hrestart
      exact ih (mirrored_restart h hop) hops
    | false =>
      rw [List.filter_cons_of_pos (by simp [hrestart])]
      exact ih (mirrored_perform h hrestart hop) hops

end

/-! ## What the tallies see -/

/-- No operation was given a later reward epoch: with epochs that do not decrease, `e` is the
current one. -/
def NoLaterEpoch (e : Int) (first : Option Int) (ops : List LedgerOp) : Prop :=
  ∀ e' ∈ first.toList ++ ops.filterMap LedgerOp.epoch, e' ≤ e

/-- The current reward epoch and the one before read the same of two ledgers. -/
def SameTallies (e : Int) (d d' : Ledger) : Prop :=
  ∀ epoch, epoch = e ∨ epoch = e - 1 →
    epochTally d.values epoch = epochTally d'.values epoch ∧
    epochGapRanges d.values epoch = epochGapRanges d'.values epoch

theorem sameTallies_of_agree {e : Int} {d d' : Ledger}
    (h : ∀ rid, e - 1 ≤ epochOf rid → d.get? rid = d'.get? rid) : SameTallies e d d' := by
  intro epoch hepoch
  have hperm : (epochRecords d.values epoch).Perm (epochRecords d'.values epoch) :=
    epochRecords_perm fun rid hrid => h rid (by omega)
  exact ⟨epochTally_perm hperm, epochGapRanges_perm hperm⟩

/-- The ledger survives restarts: at the current reward epoch the file loads as the retained part
of the memory, and the tallies are those of the process that never restarted. -/
theorem ledger_survives {file : List RoundRecord} {first : Option Int} {ops : List LedgerOp}
    {e : Int} (hcurrent : NoLaterEpoch e first ops) :
    let s := (LedgerStore.opened file first).performAll ops
    let t := (LedgerStore.opened file first).performAll (ops.filter fun op => !op.isRestart)
    (∀ rid, (loadHistory s.file (some e)).get? rid = (pruneRecs s.recs e).get? rid) ∧
    SameTallies e (loadHistory s.file (some e)) s.recs ∧
    SameTallies e s.recs t.recs := by
  intro s t
  have hfirst : ∀ e', first = some e' → e' ≤ e := fun e' he' =>
    hcurrent e' (List.mem_append_left _ (Option.mem_toList.mpr he'))
  have hops : ∀ op ∈ ops, ∀ e', op.epoch = some e' → e' ≤ e := fun op hop e' he' =>
    hcurrent e' (List.mem_append_right _ (List.mem_filterMap.mpr ⟨op, hop, he'⟩))
  have hmirrored : Mirrored e s t := mirrored_performAll (mirrored_opened hfirst) hops
  have hload : ∀ rid, e - 1 ≤ epochOf rid →
      (loadHistory s.file (some e)).get? rid = s.recs.get? rid := by
    intro rid hrid
    have hretained : retained (some e) rid = true := decide_eq_true hrid
    rw [get?_loadHistory, if_pos hretained]
    exact (hmirrored rid hrid).1.symm
  refine ⟨fun rid => ?_, sameTallies_of_agree hload, ?_⟩
  · rw [pruneRecs, Keyed.get?_filterKeys]
    by_cases hrid : e - 1 ≤ epochOf rid
    · rw [if_pos (decide_eq_true hrid)]
      exact hload rid hrid
    · rw [get?_loadHistory, retained, if_neg (by simpa using hrid), if_neg (by simpa using hrid)]
  · exact sameTallies_of_agree fun rid hrid => (hmirrored rid hrid).2.symm

/-- A round whose record was pruned from the memory is recorded again, and then the process
restarts. -/
theorem rerecorded_survives :
    let ops : List LedgerOp :=
      [.finalized { rid := 0, s1 := 1 }, .finalized { rid := 6720, s2 := 1 }, .pruneRecs 2,
        .finalized { rid := 0, s2 := 1 }, .restart none, .pruneFile 2]
    let s := (LedgerStore.opened [] none).performAll ops
    let t := (LedgerStore.opened [] none).performAll (ops.filter fun op => !op.isRestart)
    (∀ rid, (loadHistory s.file (some 2)).get? rid = (pruneRecs s.recs 2).get? rid) ∧
    SameTallies 2 (loadHistory s.file (some 2)) s.recs ∧ SameTallies 2 s.recs t.recs := by
  intro ops s t
  refine ledger_survives ?_
  unfold NoLaterEpoch
  decide

/-! ## The ledger of the engine -/

namespace EngineState

def store (s : EngineState) : LedgerStore := ⟨s.mincondRecs, s.mincondFile⟩

section

variable {cfg : EngineConfig} {s : EngineState}

theorem recordRound_performs {rs : RoundState} (hcfg : cfg.mincondHistory = true) :
    (s.recordRound cfg rs).1.store = s.store.perform (.finalized (s.recordOf rs)) := by
  by_cases hknown : rs.roundId ∈ s.mincondRecs.keys
  · rw [recordRound_known (.inr hknown)]
    exact (if_pos hknown).symm
  · rw [recordRound_new hcfg hknown]
    exact (if_neg hknown).symm

theorem recordRounds_performs {done : List RoundState} (hcfg : cfg.mincondHistory = true) :
    (s.recordRounds cfg done).1.store =
      s.store.performAll (done.map fun rs => .finalized (s.recordOf rs)) := by
  induction done generalizing s with
  | nil => rfl
  | cons rs done ih =>
    have hrecord : (s.recordRound cfg rs).1.recordOf = s.recordOf := by
      funext rs'
      unfold recordOf
      rw [recordRound_kept.2.catchingUp]
    have hrest := @ih (s.recordRound cfg rs).1
    rw [hrecord, recordRound_performs hcfg] at hrest
    exact hrest

theorem start_store {setup : ObserverSetup} {cursor : Nat} {file : List RoundRecord}
    {tallies : List IqrTally} {a : PauseAnswers} (hcfg : cfg.mincondHistory = true) :
    (start cfg setup cursor file tallies a).store =
      .opened file (start cfg setup cursor file tallies a).reg.epoch := by
  unfold start
  simp only [hcfg, if_true]
  rfl

/-- A pause leaves the ledger as it is, or prunes both sides of it. -/
theorem pause_store {a : PauseAnswers} :
    (s.pause cfg a).store = s.store ∨
    ∃ e, (s.pause cfg a).reg.epoch = some e ∧
      (s.pause cfg a).store = ⟨pruneRecs s.mincondRecs e, pruneHistory s.mincondFile (some e)⟩ := by
  obtain ⟨_, _, _, _, _, _, hrefresh⟩ := @refresh_frame cfg (s.settled cfg a) a
  have hstore : ((s.settled cfg a).refresh cfg a).store = s.store := by
    rw [hrefresh]
    unfold settled flushTrailing store
    split
    · rfl
    · rfl
  unfold pause
  generalize (s.settled cfg a).refresh cfg a = u at hstore ⊢
  have hrecs : u.mincondRecs = s.mincondRecs := congrArg LedgerStore.recs hstore
  have hfile : u.mincondFile = s.mincondFile := congrArg LedgerStore.file hstore
  rw [← hrecs, ← hfile]
  unfold prune
  cases hepoch : u.reg.epoch with
  | none => exact .inl hstore
  | some e =>
    by_cases hreport : (a.report && cfg.mincondHistory) = true
    · simp only [hreport, if_true]
      exact .inr ⟨e, hepoch, rfl⟩
    · simp only [hreport]
      exact .inl hstore

end

variable [FtsoRules] [Messaging] {cfg : EngineConfig} {s s' : EngineState} {h : Happening}

/-- What a step of the engine does to its ledger. -/
theorem step_performs (hcfg : cfg.mincondHistory = true) (hstep : EngineStep cfg s h s') :
    ∃ ops : List LedgerOp, s'.store = s.store.performAll ops ∧
      ∀ op ∈ ops, op.isRestart = false ∧ ∀ e, op.epoch = some e → s'.reg.epoch = some e := by
  rcases hstep.cases with ⟨head, -, rfl, -⟩ | ⟨blk, fdcLogs, fuLogs, -, rfl, -⟩ | ⟨a, -, rfl, -⟩
  · refine ⟨[], ?_, fun op hop => by cases hop⟩
    cases head <;> rfl
  · refine ⟨_, recordRounds_performs hcfg, fun op hop => ?_⟩
    obtain ⟨rs, -, rfl⟩ := List.mem_map.mp hop
    exact ⟨rfl, fun e he => by cases he⟩
  · rcases @pause_store cfg s a with hstore | ⟨e, hepoch, hstore⟩
    · exact ⟨[], hstore, fun op hop => by cases hop⟩
    · refine ⟨[.pruneRecs e, .pruneFile e], hstore, fun op hop => ?_⟩
      rcases List.mem_pair.mp hop with rfl | rfl
      · exact ⟨rfl, fun e' he' => he' ▸ hepoch⟩
      · exact ⟨rfl, fun e' he' => he' ▸ hepoch⟩

/-- A process of the engine, from its start on, seen as operations on its ledger. -/
theorem run_performs {s₀ : EngineState} {hs : List Happening} {e : Int}
    (hcfg : cfg.mincondHistory = true) (hrun : Effect.Run (EngineStep cfg) s₀ hs s)
    (hepochs : Effect.Throughout (EngineStep cfg) s₀
      (fun _ u => ∀ e', u.reg.epoch = some e' → e' ≤ e) hs) :
    ∃ ops : List LedgerOp, s.store = s₀.store.performAll ops ∧
      ∀ op ∈ ops, op.isRestart = false ∧ ∀ e', op.epoch = some e' → e' ≤ e := by
  induction hrun with
  | nil => exact ⟨[], rfl, fun op hop => by cases hop⟩
  | @snoc hs u h u' hrun hstep ih =>
    obtain ⟨ops, hstore, hops⟩ := ih (hepochs.shorter (List.prefix_append _ _))
    obtain ⟨ops', hstore', hops'⟩ := step_performs hcfg hstep
    refine ⟨ops ++ ops', ?_, fun op hop => ?_⟩
    · rw [hstore', hstore]
      exact (List.foldl_append ..).symm
    · rcases List.mem_append.mp hop with hop | hop
      · exact hops op hop
      · refine ⟨(hops' op hop).1, fun e' he' => ?_⟩
        exact hepochs _ _ (List.prefix_refl _) (hrun.snoc hstep) e' ((hops' op hop).2 e' he')

/-- A process that is started on the file which another one left sees the tallies that the other
one saw. -/
theorem restart_sameTallies {setup setup' : ObserverSetup} {cursor cursor' : Nat}
    {file : List RoundRecord} {tallies tallies' : List IqrTally} {a a' : PauseAnswers}
    {hs : List Happening} {e : Int} (hcfg : cfg.mincondHistory = true)
    (hrun : Effect.Run (EngineStep cfg) (start cfg setup cursor file tallies a) hs s)
    (hepochs : Effect.Throughout (EngineStep cfg) (start cfg setup cursor file tallies a)
      (fun _ u => ∀ e', u.reg.epoch = some e' → e' ≤ e) hs)
    (hnext : ∀ e', (start cfg setup' cursor' s.mincondFile tallies' a').reg.epoch = some e' →
      e' ≤ e) :
    SameTallies e (start cfg setup' cursor' s.mincondFile tallies' a').mincondRecs
      s.mincondRecs := by
  obtain ⟨ops, hstore, hops⟩ := run_performs hcfg hrun hepochs
  have hfirst := hepochs [] _ List.nil_prefix .nil
  rw [start_store hcfg] at hstore
  have hmirrored := mirrored_performAll (@mirrored_opened e file _ hfirst)
    fun op hop => (hops op hop).2
  rw [← hstore] at hmirrored
  have hstart := congrArg LedgerStore.recs
    (@start_store cfg setup' cursor' s.mincondFile tallies' a' hcfg)
  refine sameTallies_of_agree fun rid hrid => ?_
  show (start cfg setup' cursor' s.mincondFile tallies' a').store.recs.get? rid = _
  rw [hstart]
  show (loadHistory s.mincondFile _).get? rid = s.store.recs.get? rid
  rw [get?_loadHistory, if_pos (retained_of_le hnext hrid)]
  exact (hmirrored rid hrid).1.symm

end EngineState

end Clif.Observe
