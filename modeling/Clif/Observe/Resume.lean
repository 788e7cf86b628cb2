import Clif.Observe.Accounted

/-!
# Observe.Resume — the blocks that the runs of the engine process

A process starts at `resume_cursor` of the `last_block` in the status file, and goes on block by
block until it stops.  A restart goes back `lookback_blocks` before that block, so it can be below
everything that was processed; what it leaves between its own last block and the older ones is
theirs only from the start cursor of the first run on.
-/

namespace Clif.Observe

/-- `resume_cursor`; the settings are numbers of blocks. -/
def resumeCursor (head lookbackBlocks : Nat) (priorLastBlock : Option Nat) (maxBlocks : Nat) :
    Nat :=
  let base := max 1 (head - lookbackBlocks)
  match priorLastBlock with
  | none => base
  | some prior =>
    if prior = 0 then base
    else
      let cur := min base (max 1 (prior - lookbackBlocks))
      if 0 < maxBlocks then max cur (max 1 (head - maxBlocks)) else cur

/-- The block before which a restart may leave blocks out. -/
def resumeFloor (head : Nat) (priorLastBlock : Option Nat) (maxBlocks : Nat) : Nat :=
  if priorLastBlock.isSome ∧ 0 < maxBlocks then head - maxBlocks else 0

theorem resumeCursor_pos {head lookbackBlocks maxBlocks : Nat} {prior : Option Nat} :
    1 ≤ resumeCursor head lookbackBlocks prior maxBlocks := by
  unfold resumeCursor
  cases prior with
  | none => exact le_max_left _ _
  | some prior =>
    dsimp only
    split
    · exact le_max_left _ _
    · split
      · omega
      · omega

/-- A restart goes on from the block it finds or from one before it, or leaves out blocks before
the cap only. -/
theorem resumeCursor_le {head lookbackBlocks maxBlocks prior b : Nat} (hprior : 1 ≤ prior)
    (hb : 1 ≤ b) (hlt : b < resumeCursor head lookbackBlocks (some prior) maxBlocks) :
    b < prior ∨ b < resumeFloor head (some prior) maxBlocks := by
  unfold resumeCursor at hlt
  unfold resumeFloor
  dsimp only at hlt
  rw [if_neg (by omega)] at hlt
  by_cases hcap : 0 < maxBlocks
  · simp only [if_pos hcap] at hlt
    simp only [Option.isSome_some, hcap, and_self, if_true]
    omega
  · simp only [if_neg hcap] at hlt
    omega

/-! ## Runs of the engine, one after the other -/

/-- One run of the engine. -/
structure Session where
  /-- Where it started. -/
  first : Nat
  /-- The blocks before this one are left out by the cap. -/
  floor : Nat
  /-- The blocks it has processed, in its order. -/
  processed : List Nat

/-- The block that comes next, if nothing was left out. -/
def Session.next (s : Session) : Nat := s.first + s.processed.length

structure Watch where
  /-- `last_block` in the status file. -/
  persisted : Option Nat := none
  /-- The engine, while a process is up. -/
  engine : Option EngineState := none
  /-- The ledger on disk. -/
  file : List RoundRecord := []
  /-- The last head that was read. -/
  head : Nat := 0
  /-- The runs so far, the last one first. -/
  sessions : List Session := []

inductive WatchEvent where
  | start (head : Nat) (setup : ObserverSetup) (tallies : List IqrTally) (a : PauseAnswers)
  | engine (h : Happening)
  /-- The status is written. -/
  | status
  | stop

/-- The ledger on disk after a step of the engine. -/
def fileAfter (cfg : EngineConfig) (file : List RoundRecord) (s : EngineState) :
    List RoundRecord :=
  if cfg.mincondHistory then s.mincondFile else file

/-- What can happen to the observer.  A process that dies before its first status leaves nothing,
so the start comes with it; after that the status may be written, and the process may die, at any
moment.  The heads that are read do not decrease. -/
inductive WatchStep [FtsoRules] [Messaging] (cfg : EngineConfig) (lookbackBlocks maxBlocks : Nat)
    (w : Watch) : WatchEvent → Watch → Prop where
  | start {head cursor : Nat} {setup : ObserverSetup} {tallies : List IqrTally}
      {a : PauseAnswers} (hdown : w.engine = none) (hhead : w.head ≤ head)
      (hcursor : cursor = resumeCursor head lookbackBlocks w.persisted maxBlocks) :
      WatchStep cfg lookbackBlocks maxBlocks w (.start head setup tallies a)
        { persisted := some cursor
          engine := some (EngineState.start cfg setup cursor w.file tallies a)
          file := w.file
          head := head
          sessions := ⟨cursor, resumeFloor head w.persisted maxBlocks, []⟩ :: w.sessions }
  | poll {s s' : EngineState} {head : Option Nat} {notices : List Notice}
      (hup : w.engine = some s) (hhead : ∀ n, head = some n → w.head ≤ n)
      (hstep : EngineStep cfg s ⟨.poll head, notices⟩ s') :
      WatchStep cfg lookbackBlocks maxBlocks w (.engine ⟨.poll head, notices⟩)
        { w with engine := some s', file := fileAfter cfg w.file s', head := head.getD w.head }
  | block {s s' : EngineState} {blk : Block} {fdcLogs fuLogs : Option (List Nat)}
      {notices : List Notice} {session : Session} {past : List Session}
      (hup : w.engine = some s) (hsessions : w.sessions = session :: past)
      (hstep : EngineStep cfg s ⟨.block blk fdcLogs fuLogs, notices⟩ s') :
      WatchStep cfg lookbackBlocks maxBlocks w (.engine ⟨.block blk fdcLogs fuLogs, notices⟩)
        { w with
          engine := some s'
          file := fileAfter cfg w.file s'
          sessions := { session with processed := session.processed ++ [s.cursor] } :: past }
  | pause {s s' : EngineState} {a : PauseAnswers} {notices : List Notice}
      (hup : w.engine = some s) (hstep : EngineStep cfg s ⟨.pause a, notices⟩ s') :
      WatchStep cfg lookbackBlocks maxBlocks w (.engine ⟨.pause a, notices⟩)
        { w with engine := some s', file := fileAfter cfg w.file s' }
  | status {s : EngineState} (hup : w.engine = some s) :
      WatchStep cfg lookbackBlocks maxBlocks w .status { w with persisted := some s.lastBlock }
  | stop {s : EngineState} (hup : w.engine = some s) :
      WatchStep cfg lookbackBlocks maxBlocks w .stop { w with engine := none }

/-- Some run processed the block. -/
def Watch.Processed (w : Watch) (b : Nat) : Prop := ∃ s ∈ w.sessions, b ∈ s.processed

/-- Some run processed the block, or the cap of a restart leaves it out. -/
def Watch.Covered (w : Watch) (b : Nat) : Prop := w.Processed b ∨ ∃ s ∈ w.sessions, b < s.floor

/-- Nothing is missing between two processed blocks. -/
def Watch.NoHole (w : Watch) : Prop :=
  ∀ lo hi b, w.Processed lo → w.Processed hi → lo ≤ b → b ≤ hi → w.Covered b

/-! ## The position in the status file -/

namespace EngineState

variable {cfg : EngineConfig} {s : EngineState}

theorem recordRounds_lastBlock {done : List RoundState} :
    (s.recordRounds cfg done).1.lastBlock = s.lastBlock := by
  induction done generalizing s with
  | nil => rfl
  | cons rs done ih =>
    have hone : (s.recordRound cfg rs).1.lastBlock = s.lastBlock := by
      by_cases h : cfg.mincondHistory = false ∨ rs.roundId ∈ s.mincondRecs.keys
      · rw [recordRound_known h]
      · rw [not_or] at h
        obtain ⟨_, _, _, _, _, _, hroll⟩ := @rollover_frame s (epochOf rs.roundId)
        rw [recordRound_new (by simpa using h.1) h.2, hroll]
    exact (@ih (s.recordRound cfg rs).1).trans hone

theorem block_lastBlock [FtsoRules] [Messaging] {blk : Block} {fdcLogs fuLogs : Option (List Nat)} :
    (s.block cfg blk fdcLogs fuLogs).1.lastBlock = s.cursor :=
  recordRounds_lastBlock

theorem refresh_lastBlock {a : PauseAnswers} : (s.refresh cfg a).lastBlock = s.lastBlock := by
  obtain ⟨_, _, _, _, _, _, h⟩ := @refresh_frame cfg s a
  rw [h]

theorem pause_lastBlock {a : PauseAnswers} : (s.pause cfg a).lastBlock = s.lastBlock := by
  have hsettled : (s.settled cfg a).lastBlock = s.lastBlock := by
    unfold settled flushTrailing
    split
    · rfl
    · rfl
  have hprune : ∀ u : EngineState, (u.prune cfg a.report).lastBlock = u.lastBlock := by
    intro u
    unfold prune
    split
    · split
      · rfl
      · rfl
    · rfl
  unfold pause
  rw [hprune, refresh_lastBlock, hsettled]

theorem start_lastBlock {setup : ObserverSetup} {cursor : Nat} {file : List RoundRecord}
    {tallies : List IqrTally} {a : PauseAnswers} :
    (start cfg setup cursor file tallies a).lastBlock = cursor := by
  have hrefresh := @refresh_lastBlock cfg
    { obs := { toObserverSetup := setup }, cursor := cursor, scanLo := cursor,
      lastBlock := cursor } a
  unfold start
  by_cases hcfg : cfg.mincondHistory = true
  · simp only [hcfg, if_true]
    exact hrefresh
  · simp only [hcfg]
    exact hrefresh

theorem pause_head {a : PauseAnswers} : (s.pause cfg a).head = none := by
  have hrefresh := (@refresh_kept cfg (s.settled cfg a) a).2.head
  have hprune := (@prune_kept cfg ((s.settled cfg a).refresh cfg a) a.report).2.head
  unfold pause
  rw [hprune, hrefresh]
  rfl

end EngineState

/-! ## What every run keeps -/

/-- The invariant: each run is without a hole, and so is what lies between the start of any run and
the block that comes next, and between the first start and any processed block. -/
structure Watch.Continuous (cfg : EngineConfig) (w : Watch) : Prop where
  positive : ∀ s ∈ w.sessions, 1 ≤ s.first
  inOrder : ∀ s ∈ w.sessions, s.processed = List.range' s.first s.processed.length
  belowHead : ∀ s ∈ w.sessions, ∀ b ∈ s.processed, (b : Int) ≤ w.head - cfg.confirmations
  up : ∀ e, w.engine = some e → ∃ s past, w.sessions = s :: past ∧ e.cursor = s.next ∧
    1 ≤ e.lastBlock ∧ e.lastBlock ≤ s.next ∧ ∀ n, e.head = some n → n ≤ w.head
  written : ∀ s ∈ w.sessions.head?, ∃ last, w.persisted = some last ∧ 1 ≤ last ∧ last ≤ s.next
  unwritten : w.sessions = [] → w.persisted = none
  upTo : ∀ cur ∈ w.sessions.head?, ∀ s ∈ w.sessions, ∀ b, s.first ≤ b → b < cur.next →
    w.Covered b
  fromFirst : ∀ fst ∈ w.sessions.getLast?, ∀ s ∈ w.sessions, ∀ b, fst.first ≤ b → b < s.next →
    w.Covered b

section

variable {cfg : EngineConfig} {lookbackBlocks maxBlocks : Nat} {w w' : Watch}

theorem Watch.continuous_initial : Watch.Continuous cfg {} where
  positive := fun s hs => by cases hs
  inOrder := fun s hs => by cases hs
  belowHead := fun s hs => by cases hs
  up := fun e he => by cases he
  written := fun s hs => by cases hs
  unwritten := fun _ => rfl
  upTo := fun s hs => by cases hs
  fromFirst := fun s hs => by cases hs

/-- A step that leaves the runs as they are. -/
theorem Watch.Continuous.same (h : w.Continuous cfg) (hsessions : w'.sessions = w.sessions)
    (hhead : w.head ≤ w'.head)
    (hup : ∀ e, w'.engine = some e → ∃ s past, w.sessions = s :: past ∧ e.cursor = s.next ∧
      1 ≤ e.lastBlock ∧ e.lastBlock ≤ s.next ∧ ∀ n, e.head = some n → n ≤ w'.head)
    (hwritten : ∀ s ∈ w.sessions.head?, ∃ last, w'.persisted = some last ∧ 1 ≤ last ∧
      last ≤ s.next)
    (hunwritten : w.sessions = [] → w'.persisted = none) : w'.Continuous cfg := by
  have hcovered : ∀ b, w.Covered b → w'.Covered b := by
    intro b hb
    unfold Watch.Covered Watch.Processed
    rw [hsessions]
    exact hb
  constructor
  · rw [hsessions]
    exact h.positive
  · rw [hsessions]
    exact h.inOrder
  · rw [hsessions]
    intro s hs b hb
    have hle := h.belowHead s hs b hb
    omega
  · rw [hsessions]
    exact hup
  · rw [hsessions]
    exact hwritten
  · rw [hsessions]
    exact hunwritten
  · rw [hsessions]
    exact fun cur hcur s hs b hfirst hb => hcovered b (h.upTo cur hcur s hs b hfirst hb)
  · rw [hsessions]
    exact fun fst hfst s hs b hfirst hb => hcovered b (h.fromFirst fst hfst s hs b hfirst hb)

/-- A start. -/
theorem Watch.Continuous.started (h : w.Continuous cfg) {head cursor : Nat} {e : EngineState}
    {file : List RoundRecord}
    (hhead : w.head ≤ head)
    (hcursor : cursor = resumeCursor head lookbackBlocks w.persisted maxBlocks)
    (he : e.cursor = cursor ∧ e.lastBlock = cursor ∧ e.head = none) :
    Watch.Continuous cfg
      { persisted := some cursor
        engine := some e
        file := file
        head := head
        sessions := ⟨cursor, resumeFloor head w.persisted maxBlocks, []⟩ :: w.sessions } := by
  have hpos : 1 ≤ cursor := hcursor ▸ resumeCursor_pos
  -- what the new run leaves below its start was covered, or is left out by the cap
  have hbelow : ∀ cur ∈ w.sessions.head?, ∀ b, 1 ≤ b → b < cursor →
      b < cur.next ∨ b < resumeFloor head w.persisted maxBlocks := by
    intro cur hcur b hb hlt
    obtain ⟨last, hlast, hlastPos, hle⟩ := h.written cur hcur
    rw [hcursor, hlast] at hlt
    rw [hlast]
    rcases resumeCursor_le hlastPos hb hlt with hb | hb
    · exact .inl (by omega)
    · exact .inr hb
  have hkept : ∀ b, w.Covered b →
      Watch.Covered
        { persisted := some cursor
          engine := some e
          file := file
          head := head
          sessions := ⟨cursor, resumeFloor head w.persisted maxBlocks, []⟩ :: w.sessions } b := by
    rintro b (⟨s, hs, hb⟩ | ⟨s, hs, hb⟩)
    · exact .inl ⟨s, List.mem_cons_of_mem _ hs, hb⟩
    · exact .inr ⟨s, List.mem_cons_of_mem _ hs, hb⟩
  constructor
  · intro s hs
    rcases List.mem_cons.mp hs with rfl | hs
    · exact hpos
    · exact h.positive s hs
  · intro s hs
    rcases List.mem_cons.mp hs with rfl | hs
    · rfl
    · exact h.inOrder s hs
  · intro s hs b hb
    rcases List.mem_cons.mp hs with rfl | hs
    · cases hb
    · have hle := h.belowHead s hs b hb
      show (b : Int) ≤ (head : Int) - cfg.confirmations
      omega
  · intro e' he'
    cases he'
    refine ⟨_, _, rfl, he.1, he.2.1 ▸ hpos, he.2.1.le, fun n hn => ?_⟩
    rw [he.2.2] at hn
    cases hn
  · intro s hs
    cases hs
    exact ⟨cursor, rfl, hpos, le_rfl⟩
  · intro hnil
    cases hnil
  · intro cur hcur s hs b hfirst hb
    cases hcur
    have hb : b < cursor := hb
    rcases List.mem_cons.mp hs with rfl | hs
    · exact absurd hb (Nat.not_lt.mpr hfirst)
    · have hsPos := h.positive s hs
      cases hsessions : w.sessions with
      | nil =>
        rw [hsessions] at hs
        cases hs
      | cons cur past =>
        have hcur : cur ∈ w.sessions.head? := by rw [hsessions]; rfl
        rw [← hsessions]
        rcases hbelow cur hcur b (by omega) hb with hlt | hlt
        · exact hkept b (h.upTo cur hcur s hs b hfirst hlt)
        · exact .inr ⟨_, List.mem_cons_self .., hlt⟩
  · intro fst hfst s hs b hfirst hb
    cases hsessions : w.sessions with
    | nil =>
      rw [hsessions] at hfst hs
      cases hfst
      obtain rfl := List.mem_singleton.mp hs
      exact absurd hb (Nat.not_lt.mpr hfirst)
    | cons cur past =>
      have hcur : cur ∈ w.sessions.head? := by rw [hsessions]; rfl
      have hfst : fst ∈ w.sessions.getLast? := by
        rw [hsessions] at hfst ⊢
        simpa using hfst
      rw [← hsessions]
      rcases List.mem_cons.mp hs with rfl | hs
      · have hfstPos := h.positive fst (List.mem_of_getLast? hfst)
        have hb : b < cursor := hb
        rcases hbelow cur hcur b (by omega) hb with hlt | hlt
        · have hmem : cur ∈ w.sessions := by rw [hsessions]; exact List.mem_cons_self ..
          exact hkept b (h.fromFirst fst hfst cur hmem b hfirst hlt)
        · exact .inr ⟨_, List.mem_cons_self .., hlt⟩
      · exact hkept b (h.fromFirst fst hfst s hs b hfirst hb)

/-- A block. -/
theorem Watch.Continuous.advanced (h : w.Continuous cfg) {e e' : EngineState} {session : Session}
    {past : List Session} {file : List RoundRecord} (hup : w.engine = some e)
    (hsessions : w.sessions = session :: past)
    (hsafe : ∃ n : Nat, e.head = some n ∧ (e.cursor : Int) ≤ n - cfg.confirmations)
    (he' : e'.cursor = e.cursor + 1 ∧ e'.lastBlock = e.cursor ∧ e'.head = e.head) :
    Watch.Continuous cfg
      { w with
        engine := some e'
        file := file
        sessions := { session with processed := session.processed ++ [e.cursor] } :: past } := by
  obtain ⟨session', past', hsame, hcursor, hlastPos, hlast, hheads⟩ := h.up e hup
  obtain ⟨rfl, rfl⟩ := List.cons.inj (hsessions.symm.trans hsame)
  have hsession : session ∈ w.sessions := by rw [hsessions]; exact List.mem_cons_self ..
  have hpast : ∀ s ∈ past, s ∈ w.sessions := fun s hs => by
    rw [hsessions]; exact List.mem_cons_of_mem _ hs
  obtain ⟨n, hn, hsafe⟩ := hsafe
  have hle := hheads n hn
  have hpos := h.positive session hsession
  have hnext : ({ session with processed := session.processed ++ [e.cursor] } : Session).next =
      e.cursor + 1 := by
    rw [hcursor]
    simp [Session.next]
    omega
  have hkept : ∀ b, w.Covered b → Watch.Covered { w with
      engine := some e'
      file := file
      sessions := { session with processed := session.processed ++ [e.cursor] } :: past } b := by
    rintro b (⟨s, hs, hb⟩ | ⟨s, hs, hb⟩)
    · rw [hsessions] at hs
      rcases List.mem_cons.mp hs with rfl | hs
      · exact .inl ⟨_, List.mem_cons_self .., List.mem_append_left _ hb⟩
      · exact .inl ⟨s, List.mem_cons_of_mem _ hs, hb⟩
    · rw [hsessions] at hs
      rcases List.mem_cons.mp hs with rfl | hs
      · exact .inr ⟨_, List.mem_cons_self .., hb⟩
      · exact .inr ⟨s, List.mem_cons_of_mem _ hs, hb⟩
  have hhere : Watch.Covered { w with
      engine := some e'
      file := file
      sessions := { session with processed := session.processed ++ [e.cursor] } :: past }
      e.cursor :=
    .inl ⟨_, List.mem_cons_self .., List.mem_append_right _ (List.mem_singleton_self _)⟩
  have hcur : session ∈ w.sessions.head? := by rw [hsessions]; rfl
  constructor
  · intro s hs
    rcases List.mem_cons.mp hs with rfl | hs
    · exact hpos
    · exact h.positive s (hpast s hs)
  · intro s hs
    rcases List.mem_cons.mp hs with rfl | hs
    · have hold := h.inOrder session hsession
      show session.processed ++ [e.cursor] = _
      rw [List.length_append, List.length_singleton, List.range'_concat, ← hold, hcursor]
      simp [Session.next]
    · exact h.inOrder s (hpast s hs)
  · intro s hs b hb
    show (b : Int) ≤ (w.head : Int) - cfg.confirmations
    rcases List.mem_cons.mp hs with rfl | hs
    · rcases List.mem_append.mp hb with hb | hb
      · exact h.belowHead session hsession b hb
      · obtain rfl := List.mem_singleton.mp hb
        omega
    · exact h.belowHead s (hpast s hs) b hb
  · intro e'' he''
    cases he''
    refine ⟨_, _, rfl, ?_, ?_, ?_, fun n' hn' => ?_⟩
    · rw [he'.1, hnext]
    · rw [he'.2.1, hcursor]
      unfold Session.next
      omega
    · rw [he'.2.1, hnext]
      omega
    · rw [he'.2.2] at hn'
      exact hheads n' hn'
  · intro s hs
    cases hs
    obtain ⟨last, hpersisted, hlastPos, hle⟩ := h.written session hcur
    refine ⟨last, hpersisted, hlastPos, ?_⟩
    rw [hnext, hcursor]
    omega
  · intro hnil
    cases hnil
  · intro cur hcur' s hs b hfirst hb
    cases hcur'
    rw [hnext] at hb
    by_cases hb' : b = e.cursor
    · exact hb' ▸ hhere
    · have hlt : b < session.next := by omega
      rcases List.mem_cons.mp hs with rfl | hs
      · exact hkept b (h.upTo session hcur session hsession b hfirst hlt)
      · exact hkept b (h.upTo session hcur s (hpast s hs) b hfirst hlt)
  · intro fst hfst s hs b hfirst hb
    -- the first run, as it was before the block
    obtain ⟨fst', hfst', hfirst'⟩ : ∃ fst' ∈ w.sessions.getLast?, fst'.first = fst.first := by
      rw [hsessions]
      cases past with
      | nil =>
        cases hfst
        exact ⟨session, rfl, rfl⟩
      | cons s₁ past =>
        refine ⟨fst, ?_, rfl⟩
        rw [List.getLast?_cons_cons] at hfst ⊢
        exact hfst
    rw [← hfirst'] at hfirst
    rcases List.mem_cons.mp hs with rfl | hs
    · rw [hnext] at hb
      by_cases hb' : b = e.cursor
      · exact hb' ▸ hhere
      · exact hkept b (h.fromFirst fst' hfst' session hsession b hfirst (by omega))
    · exact hkept b (h.fromFirst fst' hfst' s (hpast s hs) b hfirst hb)

variable [FtsoRules] [Messaging] {ev : WatchEvent} {evs : List WatchEvent}

theorem Watch.Continuous.step (h : w.Continuous cfg)
    (hstep : WatchStep cfg lookbackBlocks maxBlocks w ev w') : w'.Continuous cfg := by
  cases hstep with
  | @start head cursor setup tallies a hdown hhead hcursor =>
    have hstarted := @EngineState.start_started cfg setup cursor w.file tallies a
    exact h.started hhead hcursor
      ⟨hstarted.cursor, EngineState.start_lastBlock, hstarted.head⟩
  | @poll s s' head notices hup hhead hstep =>
    obtain ⟨session, past, hsessions, hcursor, hlastPos, hlast, hheads⟩ := h.up s hup
    have hs' : s.poll cfg head = s' := congrArg Prod.fst hstep.2
    subst hs'
    have hle : w.head ≤ head.getD w.head := by
      cases head with
      | none => exact le_rfl
      | some n => exact hhead n rfl
    refine h.same rfl hle (fun e he => ?_) h.written h.unwritten
    cases he
    refine ⟨session, past, hsessions, poll_cursor.trans hcursor, ?_⟩
    cases head with
    | none => exact ⟨hlastPos, hlast, hheads⟩
    | some n =>
      refine ⟨hlastPos, hlast, fun n' hn' => ?_⟩
      cases hn'
      exact le_rfl
  | @block s s' blk fdcLogs fuLogs notices session past hup hsessions hstep =>
    have hs' : (s.block cfg blk fdcLogs fuLogs).1 = s' := congrArg Prod.fst hstep.2
    subst hs'
    exact h.advanced hup hsessions hstep.1
      ⟨EngineState.block_cursor, EngineState.block_lastBlock, EngineState.block_head⟩
  | @pause s s' a notices hup hstep =>
    obtain ⟨session, past, hsessions, hcursor, hlastPos, hlast, -⟩ := h.up s hup
    have hs' : s.pause cfg a = s' := congrArg Prod.fst hstep.2
    subst hs'
    refine h.same rfl le_rfl (fun e he => ?_) h.written h.unwritten
    cases he
    rw [EngineState.pause_lastBlock, EngineState.pause_head, EngineState.pause_cursor]
    exact ⟨session, past, hsessions, hcursor, hlastPos, hlast, fun n hn => by cases hn⟩
  | @status s hup =>
    obtain ⟨session, past, hsessions, hcursor, hlastPos, hlast, hheads⟩ := h.up s hup
    refine h.same rfl le_rfl h.up (fun session' hsession' => ?_) fun hnil => ?_
    · rw [hsessions] at hsession'
      cases hsession'
      exact ⟨s.lastBlock, rfl, hlastPos, hlast⟩
    · rw [hsessions] at hnil
      cases hnil
  | @stop s hup =>
    exact h.same rfl le_rfl (fun e he => by cases he) h.written h.unwritten

theorem continuous_run (hrun : Effect.Run (WatchStep cfg lookbackBlocks maxBlocks) {} evs w) :
    w.Continuous cfg := by
  induction hrun with
  | nil => exact Watch.continuous_initial
  | snoc _ hstep ih => exact ih.step hstep

omit [FtsoRules] [Messaging] in
theorem Watch.Continuous.processed_lt (h : w.Continuous cfg) {s : Session} (hs : s ∈ w.sessions)
    {b : Nat} (hb : b ∈ s.processed) : s.first ≤ b ∧ b < s.next := by
  rw [h.inOrder s hs, List.mem_range'_1] at hb
  exact hb

/-- Whatever fails and whenever the observer is restarted: each run processes the blocks from its
start cursor on, one by one, and none beyond the confirmed head; and no block is left out, but by
the cap of a restart, between the start of a run and the block that comes next, or between the
start of the first run and a processed block.  Where the last run has come to the start of the
first one, there is no hole at all. -/
theorem blocks_covered
    (hrun : Effect.Run (WatchStep cfg lookbackBlocks maxBlocks) {} evs w) :
    (∀ s ∈ w.sessions, s.processed = List.range' s.first s.processed.length ∧
      ∀ b ∈ s.processed, (b : Int) ≤ w.head - cfg.confirmations) ∧
    (∀ cur ∈ w.sessions.head?, ∀ s ∈ w.sessions, ∀ b, s.first ≤ b → b < cur.next →
      w.Covered b) ∧
    (∀ fst ∈ w.sessions.getLast?, ∀ hi b, w.Processed hi → fst.first ≤ b → b ≤ hi →
      w.Covered b) ∧
    ((∀ cur ∈ w.sessions.head?, ∀ fst ∈ w.sessions.getLast?, fst.first ≤ cur.next) →
      w.NoHole) := by
  have h := continuous_run hrun
  have hfromFirst : ∀ fst ∈ w.sessions.getLast?, ∀ hi b, w.Processed hi → fst.first ≤ b → b ≤ hi →
      w.Covered b := by
    rintro fst hfst hi b ⟨s, hs, hhi⟩ hfirst hb
    have hlt := (h.processed_lt hs hhi).2
    exact h.fromFirst fst hfst s hs b hfirst (by omega)
  refine ⟨fun s hs => ⟨h.inOrder s hs, h.belowHead s hs⟩, h.upTo, hfromFirst, ?_⟩
  rintro hreached lo hi b ⟨s, hs, hlo⟩ hhi hlob hbhi
  have hne : w.sessions ≠ [] := List.ne_nil_of_mem hs
  have hcur : w.sessions.head hne ∈ w.sessions.head? := List.head?_eq_some_head hne
  have hfst : w.sessions.getLast hne ∈ w.sessions.getLast? := List.getLast?_eq_some_getLast hne
  have hmeet := hreached _ hcur _ hfst
  by_cases hb : (w.sessions.getLast hne).first ≤ b
  · exact hfromFirst _ hfst hi b hhi hb hbhi
  · have hfirst := (h.processed_lt hs hlo).1
    exact h.upTo _ hcur s hs b (by omega) (by omega)

end

/-! ## A restart that is interrupted -/

section

variable [FtsoRules] [Messaging] {cfg : EngineConfig} {lookbackBlocks maxBlocks : Nat} {w : Watch}

/-- A process that starts, processes one block and dies. -/
theorem run_oneBlock {head cursor : Nat} {setup : ObserverSetup} {a : PauseAnswers} {blk : Block}
    (hdown : w.engine = none) (hhead : w.head ≤ head)
    (hcursor : cursor = resumeCursor head lookbackBlocks w.persisted maxBlocks)
    (hsafe : (cursor : Int) ≤ head - cfg.confirmations) :
    ∃ evs w', Effect.Run (WatchStep cfg lookbackBlocks maxBlocks) w evs w' ∧
      w'.persisted = some cursor ∧ w'.engine = none ∧ w'.head = head ∧
      w'.sessions = ⟨cursor, resumeFloor head w.persisted maxBlocks, [cursor]⟩ :: w.sessions := by
  have hstarted := @EngineState.start_started cfg setup cursor w.file [] a
  have hpoll :
      EngineStep cfg (EngineState.start cfg setup cursor w.file [] a) ⟨.poll (some head), []⟩
      ((EngineState.start cfg setup cursor w.file [] a).poll cfg (some head)) :=
      ⟨hstarted.head, rfl⟩
  have hnext : ((EngineState.start cfg setup cursor w.file [] a).poll cfg (some head)).cursor =
      cursor := poll_cursor.trans hstarted.cursor
  have hhead' : ((EngineState.start cfg setup cursor w.file [] a).poll cfg (some head)).head =
      some head := rfl
  generalize (EngineState.start cfg setup cursor w.file [] a).poll cfg (some head) = s
    at hpoll hnext hhead'
  have hblock : EngineStep cfg s ⟨.block blk none none, (s.block cfg blk none none).2⟩
      (s.block cfg blk none none).1 := ⟨⟨head, hhead', hnext ▸ hsafe⟩, rfl⟩
  have hstarts := Effect.Run.single (@WatchStep.start _ _ cfg lookbackBlocks maxBlocks w head cursor
    setup [] a hdown hhead hcursor)
  have hpolls := hstarts.snoc (WatchStep.poll rfl (fun n hn => by cases hn; exact le_rfl) hpoll)
  have hrun := (hpolls.snoc (WatchStep.block rfl rfl hblock)).snoc (WatchStep.stop rfl)
  rw [hnext] at hrun
  exact ⟨_, _, hrun, rfl, rfl, rfl, rfl⟩

end

/-- A first run that processes the block 8, and a second one that starts at the block 6 and dies
after it. -/
theorem run_interrupted :
    let _ := noRules
    let _ := noMessages
    ∃ evs w, Effect.Run (WatchStep sampleConfig 2 0) {} evs w ∧
      w.sessions = [⟨6, 0, [6]⟩, ⟨8, 0, [8]⟩] := by
  intro _ _
  obtain ⟨evs, w, hrun, hpersisted, hdown, hhead, hsessions⟩ := @run_oneBlock _ _ sampleConfig 2 0
    {} 10 8 sampleSetup noAnswers ⟨0, []⟩ rfl (Nat.zero_le _) rfl (by decide)
  obtain ⟨evs', w', hrun', -, -, -, hsessions'⟩ := @run_oneBlock _ _ sampleConfig 2 0
    w 10 6 sampleSetup noAnswers ⟨0, []⟩ hdown hhead.le (by rw [hpersisted]; rfl) (by decide)
  refine ⟨evs ++ evs', w', hrun.append hrun', ?_⟩
  rw [hsessions', hsessions, hpersisted]
  rfl

/-- The block 7 is a hole between them. -/
theorem interrupted_hole :
    let _ := noRules
    let _ := noMessages
    ∃ evs w, Effect.Run (WatchStep sampleConfig 2 0) {} evs w ∧ ¬ w.NoHole := by
  intro _ _
  obtain ⟨evs, w, hrun, hsessions⟩ := run_interrupted
  refine ⟨evs, w, hrun, fun hno => ?_⟩
  have hcovered := hno 6 8 7 ⟨⟨6, 0, [6]⟩, by simp [hsessions], by simp⟩
    ⟨⟨8, 0, [8]⟩, by simp [hsessions], by simp⟩ (by omega) (by omega)
  simp [Watch.Covered, Watch.Processed, hsessions] at hcovered

/-- From the start of the first run on nothing is missing. -/
theorem interrupted_covered :
    let _ := noRules
    let _ := noMessages
    ∃ evs w, Effect.Run (WatchStep sampleConfig 2 0) {} evs w ∧
      ∀ hi b, w.Processed hi → 8 ≤ b → b ≤ hi → w.Covered b := by
  intro _ _
  obtain ⟨evs, w, hrun, hsessions⟩ := run_interrupted
  exact ⟨evs, w, hrun, (blocks_covered hrun).2.2.1 ⟨8, 0, [8]⟩ (by simp [hsessions])⟩

end Clif.Observe
