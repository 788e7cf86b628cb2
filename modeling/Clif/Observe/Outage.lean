import Clif.AutoState
import Clif.Observe.Resume
import Clif.Observe.Window

/-!
# Observe.Outage — the ledger of outages, `gaps.py` and the polls of the engine

While the node does not answer the cursor holds, and the poll that is answered again records a gap.
`outages_told`: a run records each of its outages once, in order and with the right figures, and a
gap is shown as backfilled exactly when the run has processed all blocks of it.
-/

namespace Clif.Observe

/-! ## The ledger -/

/-- `Gap`; `finish` is the field `end`. -/
structure Gap where
  start : Int
  finish : Int
  dur : Int
  fails : Nat
  fromBlock : Nat
  toBlock : Nat
  skipped : Bool := false
deriving DecidableEq

/-- `Gap.backfilled`. -/
def Gap.backfilled (g : Gap) (lastBlock : Option Nat) : Bool :=
  !g.skipped && lastBlock.any fun b => decide (g.toBlock ≤ b)

/-- `hf` and `gap_list`. -/
structure OutageLog where
  since : ℚ := 0
  count : Nat := 0
  gaps : List Gap := []

/-- What a poll makes of them; `head` is `none` where the read failed. -/
def OutageLog.poll (o : OutageLog) (s : EngineState) (now : ℚ) (head : Option Nat) : OutageLog :=
  match head with
  | none => { o with count := o.count + 1, since := if o.since = 0 then now else o.since }
  | some head =>
    if o.since = 0 then o
    else
      { since := 0
        count := 0
        gaps := o.gaps ++ [{
          start := truncRat o.since
          finish := truncRat now
          dur := truncRat now - truncRat o.since
          fails := o.count
          fromBlock := if s.lastBlock = 0 then s.cursor else s.lastBlock
          toBlock := head }] }

/-- A step of the engine, with the clock. -/
structure Moment where
  time : ℚ
  step : Happening

def OutageLog.next (o : OutageLog) (s : EngineState) (m : Moment) : OutageLog :=
  match m.step.event with
  | .poll head => o.poll s m.time head
  | .block .. => o
  | .pause _ => o

/-- A step of the engine with its ledger of outages; the clock is past 1970. -/
def OutageStep [FtsoRules] [Messaging] (cfg : EngineConfig) (u : EngineState × OutageLog)
    (m : Moment) (u' : EngineState × OutageLog) : Prop :=
  0 < m.time ∧ EngineStep cfg u.1 m.step u'.1 ∧ u'.2 = u.2.next u.1 m

/-! ## What an outage is -/

def Moment.Failed (m : Moment) : Prop := m.step.event = .poll none

def Moment.Answered (m : Moment) (head : Nat) : Prop := m.step.event = .poll (some head)

def Moment.isBlock (m : Moment) : Bool :=
  match m.step.event with
  | .block .. => true
  | .poll _ => false
  | .pause _ => false

/-- The number of blocks that were processed. -/
def blocksOf (ms : List Moment) : Nat := ms.countP Moment.isBlock

/-- The blocks are processed in order, from `first` on. -/
def ProcessedIn (first : Nat) (ms : List Moment) (b : Nat) : Prop :=
  first ≤ b ∧ b < first + blocksOf ms

/-- The last block that was processed; at the start it is the first that will be. -/
def lastBlockOf (first : Nat) (ms : List Moment) : Nat := first + (blocksOf ms - 1)

/-- The run does not end within an outage. -/
def Reachable (ms : List Moment) : Prop := ∀ m ∈ ms.getLast?, ¬ m.Failed

/-- Step number `i` of the run ends an outage. -/
inductive Recovers : List Moment → Nat → Prop
  | mk {pre post : List Moment} {f ok : Moment} {head : Nat} (hf : f.Failed)
      (hok : ok.Answered head) : Recovers (pre ++ f :: ok :: post) (pre.length + 1)

/-- `g` is the outage that step number `i` ends: from the first failed poll after the node was
reachable. -/
inductive OutageAt (first : Nat) : List Moment → Nat → Gap → Prop
  | mk {pre fails post : List Moment} {f ok : Moment} {head : Nat} (hbefore : Reachable pre)
      (hf : f.Failed) (hfails : ∀ m ∈ fails, m.Failed) (hok : ok.Answered head) :
      OutageAt first (pre ++ f :: fails ++ ok :: post) (pre.length + fails.length + 1)
        { start := truncRat f.time
          finish := truncRat ok.time
          dur := truncRat ok.time - truncRat f.time
          fails := fails.length + 1
          fromBlock := lastBlockOf first pre
          toBlock := head }

section

variable {ms : List Moment} {m f : Moment} {first i head : Nat} {g : Gap}

theorem blocksOf_snoc : blocksOf (ms ++ [m]) = blocksOf ms + if m.isBlock then 1 else 0 := by
  rw [blocksOf, List.countP_append, List.countP_singleton]
  rfl

theorem OutageAt.snoc (h : OutageAt first ms i g) : OutageAt first (ms ++ [m]) i g := by
  cases h with
  | @mk pre fails post f ok head hbefore hf hfails hok =>
    have hmk := @OutageAt.mk first pre fails (post ++ [m]) f ok head hbefore hf hfails hok
    simpa using hmk

theorem recovers_snoc : Recovers (ms ++ [m]) i ↔
    Recovers ms i ∨ i = ms.length ∧ (∃ head, m.Answered head) ∧ ¬ Reachable ms := by
  constructor
  · intro h
    generalize hl : ms ++ [m] = l at h
    cases h with
    | @mk pre post f ok head hf hok =>
      rcases List.eq_nil_or_concat post with rfl | ⟨post, m', rfl⟩
      · have hsplit : ms ++ [m] = (pre ++ [f]) ++ [ok] := by simpa using hl
        obtain ⟨rfl, hm⟩ := List.append_inj' hsplit rfl
        cases hm
        refine .inr ⟨by simp, ⟨head, hok⟩, fun hreach => ?_⟩
        exact hreach f (by simp) hf
      · have hsplit : ms ++ [m] = (pre ++ f :: ok :: post) ++ [m'] := by simpa using hl
        obtain ⟨rfl, -⟩ := List.append_inj' hsplit rfl
        exact .inl (.mk hf hok)
  · rintro (h | ⟨rfl, ⟨head, hm⟩, hreach⟩)
    · cases h with
      | @mk pre post f ok head hf hok =>
        have hmk := @Recovers.mk pre (post ++ [m]) f ok head hf hok
        simpa using hmk
    · unfold Reachable at hreach
      simp only [not_forall, not_not] at hreach
      obtain ⟨f, hlast, hf⟩ := hreach
      obtain ⟨pre, rfl⟩ := List.getLast?_eq_some_iff.mp hlast
      have hmk := @Recovers.mk pre [] f m head hf hm
      simpa using hmk

theorem Recovers.lt (h : Recovers ms i) : i < ms.length := by
  cases h with
  | mk hf hok => simp

theorem not_reachable (hf : f.Failed) : ¬ Reachable (ms ++ [f]) :=
  fun h => h f (by simp) hf

theorem reachable_snoc (hm : ¬ m.Failed) : Reachable (ms ++ [m]) := by
  intro m' hm'
  simp only [List.getLast?_append, List.getLast?_singleton, Option.some_or, Option.mem_def,
    Option.some.injEq] at hm'
  rwa [← hm']

end

/-! ## What a run records -/

/-- The run is in an outage since the poll `f`. -/
inductive Unreached (ms : List Moment) (o : OutageLog) : Prop
  | mk {pre fails : List Moment} {f : Moment} (hms : ms = pre ++ f :: fails)
      (hbefore : Reachable pre) (hf : f.Failed) (hfails : ∀ m ∈ fails, m.Failed)
      (htime : 0 < f.time) (hsince : o.since = f.time) (hcount : o.count = fails.length + 1)

/-- The gaps are the outages of the run that are over. -/
def Recorded (first : Nat) (ms : List Moment) (gaps : List Gap) : Prop :=
  ∃ is : List Nat, is.Pairwise (· < ·) ∧ (∀ i, i ∈ is ↔ Recovers ms i) ∧
    List.Forall₂ (OutageAt first ms) is gaps

structure OutageInv (first : Nat) (loaded : List Gap) (ms : List Moment)
    (u : EngineState × OutageLog) : Prop where
  cursor : u.1.cursor = first + blocksOf ms
  last : u.1.lastBlock = lastBlockOf first ms
  polls : (Reachable ms ∧ u.2.since = 0 ∧ u.2.count = 0) ∨ (u.1.head = none ∧ Unreached ms u.2)
  gaps : ∃ gs, u.2.gaps = loaded ++ gs ∧ Recorded first ms gs

section

variable {ms : List Moment} {m : Moment} {first : Nat} {loaded gs : List Gap} {g : Gap}
  {u u' : EngineState × OutageLog}

/-- A step that ends no outage. -/
theorem Recorded.quiet (h : Recorded first ms gs)
    (hm : (∀ head, ¬ m.Answered head) ∨ Reachable ms) : Recorded first (ms ++ [m]) gs := by
  obtain ⟨is, hsorted, hall, hgaps⟩ := h
  refine ⟨is, hsorted, fun i => ?_, hgaps.imp fun i g hg => hg.snoc⟩
  rw [hall, recovers_snoc]
  refine ⟨.inl, ?_⟩
  rintro (hi | ⟨-, ⟨head, hans⟩, hreach⟩)
  · exact hi
  · rcases hm with hm | hm
    · exact absurd hans (hm head)
    · exact absurd hm hreach

/-- The step that ends one. -/
theorem Recorded.recover {head : Nat} (h : Recorded first ms gs) (hans : m.Answered head)
    (hreach : ¬ Reachable ms) (hg : OutageAt first (ms ++ [m]) ms.length g) :
    Recorded first (ms ++ [m]) (gs ++ [g]) := by
  obtain ⟨is, hsorted, hall, hgaps⟩ := h
  refine ⟨is ++ [ms.length], ?_, fun i => ?_, ?_⟩
  · refine List.pairwise_append.mpr ⟨hsorted, List.pairwise_singleton _ _, fun i hi j hj => ?_⟩
    rw [List.mem_singleton.mp hj]
    exact ((hall i).mp hi).lt
  · rw [recovers_snoc, List.mem_append, List.mem_singleton, hall]
    exact or_congr_right ⟨fun hi => ⟨hi, ⟨head, hans⟩, hreach⟩, fun hi => hi.1⟩
  · exact List.rel_append (hgaps.imp fun i g hg => hg.snoc) (.cons hg .nil)

theorem Unreached.not_reachable {o : OutageLog} (h : Unreached ms o) : ¬ Reachable ms := by
  cases h with
  | @mk pre fails f hms hbefore hf hfails htime hsince hcount =>
    rcases List.eq_nil_or_concat fails with rfl | ⟨fails, f', rfl⟩
    · rw [hms]
      exact Observe.not_reachable hf
    · rw [hms, List.concat_eq_append, ← List.cons_append, ← List.append_assoc]
      exact Observe.not_reachable (hfails f' (by simp))

/-- A poll that fails. -/
theorem OutageInv.fail (hi : OutageInv first loaded ms u) (htime : 0 < m.time) (hm : m.Failed)
    (hhead : u.1.head = none) {s : EngineState} (hcursor : s.cursor = u.1.cursor)
    (hlast : s.lastBlock = u.1.lastBlock) (hsame : s.head = u.1.head) :
    OutageInv first loaded (ms ++ [m]) (s, u.2.poll u.1 m.time none) := by
  have hblocks : blocksOf (ms ++ [m]) = blocksOf ms := by
    rw [blocksOf_snoc, Moment.isBlock, hm]
    rfl
  refine ⟨?_, ?_, .inr ⟨hsame.trans hhead, ?_⟩, ?_⟩
  · rw [hblocks, ← hi.cursor]
    exact hcursor
  · rw [lastBlockOf, hblocks, ← lastBlockOf, ← hi.last]
    exact hlast
  · rcases hi.polls with ⟨hreach, hsince, hcount⟩ | ⟨-, hout⟩
    · have hcount' : u.2.count + 1 = 0 + 1 := by rw [hcount]
      exact @Unreached.mk _ _ ms [] m rfl hreach hm (by simp) htime (if_pos hsince) hcount'
    · cases hout with
      | @mk pre fails f hms hbefore hf hfails hpos hsince hcount =>
        have hkept : (u.2.poll u.1 m.time none).since = f.time := by
          show (if u.2.since = 0 then m.time else u.2.since) = f.time
          rw [hsince, if_neg hpos.ne']
        have hmore : (u.2.poll u.1 m.time none).count = (fails ++ [m]).length + 1 := by
          show u.2.count + 1 = _
          rw [hcount, List.length_append, List.length_singleton]
        refine .mk (by simp [hms]) hbefore hf (fun x hx => ?_) hpos hkept hmore
        rcases List.mem_append.mp hx with hx | hx
        · exact hfails x hx
        · rw [List.mem_singleton.mp hx]
          exact hm
  · obtain ⟨gs, hgaps, hrec⟩ := hi.gaps
    refine ⟨gs, hgaps, hrec.quiet (.inl fun head hans => ?_)⟩
    rw [Moment.Answered, hm] at hans
    cases hans

/-- A poll that is answered. -/
theorem OutageInv.answer (hfirst : 0 < first) (hi : OutageInv first loaded ms u) {head : Nat}
    (hm : m.Answered head) {s : EngineState} (hcursor : s.cursor = u.1.cursor)
    (hlast : s.lastBlock = u.1.lastBlock) :
    OutageInv first loaded (ms ++ [m]) (s, u.2.poll u.1 m.time (some head)) := by
  have hblocks : blocksOf (ms ++ [m]) = blocksOf ms := by
    rw [blocksOf_snoc, Moment.isBlock, hm]
    rfl
  have hnot : ¬ m.Failed := by
    intro hf
    rw [Moment.Failed, hm] at hf
    cases hf
  have hpos : u.1.lastBlock ≠ 0 := by
    rw [hi.last, lastBlockOf]
    omega
  obtain ⟨gs, hgaps, hrec⟩ := hi.gaps
  have hlog : (u.2.poll u.1 m.time (some head)).since = 0 ∧
      (u.2.poll u.1 m.time (some head)).count = 0 ∧
        ∃ gs', (u.2.poll u.1 m.time (some head)).gaps = loaded ++ gs' ∧
          Recorded first (ms ++ [m]) gs' := by
    rcases hi.polls with ⟨hreach, hsince, hcount⟩ | ⟨-, hout⟩
    · have hsame : u.2.poll u.1 m.time (some head) = u.2 := if_pos hsince
      rw [hsame]
      exact ⟨hsince, hcount, gs, hgaps, hrec.quiet (.inr hreach)⟩
    · have hreach := hout.not_reachable
      cases hout with
      | @mk pre fails f hms hbefore hf hfails htime hsince hcount =>
        have hpre : lastBlockOf first ms = lastBlockOf first pre := by
          have hcount : blocksOf ms = blocksOf pre := by
            rw [hms, blocksOf, List.countP_append]
            have hzero : (f :: fails).countP Moment.isBlock = 0 := by
              rw [List.countP_eq_zero]
              intro x hx
              have hx' : x.Failed := by
                rcases List.mem_cons.mp hx with rfl | hx
                · exact hf
                · exact hfails x hx
              simp [Moment.isBlock, show x.step.event = .poll none from hx']
            rw [hzero]
            rfl
          rw [lastBlockOf, hcount, lastBlockOf]
        have hg := @OutageAt.mk first pre fails [] f m head hbefore hf hfails hm
        rw [← hms, ← hpre] at hg
        have hlen : pre.length + fails.length + 1 = ms.length := by
          rw [hms]
          simp
          omega
        rw [hlen] at hg
        have hlog : u.2.poll u.1 m.time (some head) =
            { gaps := u.2.gaps ++ [{
                start := truncRat f.time
                finish := truncRat m.time
                dur := truncRat m.time - truncRat f.time
                fails := fails.length + 1
                fromBlock := lastBlockOf first ms
                toBlock := head }] } := by
          simp only [OutageLog.poll]
          rw [if_neg (by rw [hsince]; exact htime.ne'), if_neg hpos, hsince, hcount, hi.last]
        rw [hlog]
        refine ⟨rfl, rfl, _, ?_, hrec.recover hm hreach hg⟩
        show u.2.gaps ++ _ = loaded ++ (gs ++ _)
        rw [hgaps, List.append_assoc]
  refine ⟨?_, ?_, .inl ⟨reachable_snoc hnot, hlog.1, hlog.2.1⟩, hlog.2.2⟩
  · rw [hblocks, ← hi.cursor]
    exact hcursor
  · rw [lastBlockOf, hblocks, ← lastBlockOf, ← hi.last]
    exact hlast

/-- A step that is no poll: the node has answered. -/
theorem OutageInv.work (hi : OutageInv first loaded ms u) (hhead : u.1.head.isSome)
    (hpoll : ∀ head, m.step.event ≠ .poll head) {s : EngineState}
    (hcursor : s.cursor = first + blocksOf (ms ++ [m]))
    (hlast : s.lastBlock = lastBlockOf first (ms ++ [m])) :
    OutageInv first loaded (ms ++ [m]) (s, u.2) := by
  obtain ⟨gs, hgaps, hrec⟩ := hi.gaps
  refine ⟨hcursor, hlast, .inl ?_, gs, hgaps, hrec.quiet (.inl fun head => hpoll _)⟩
  rcases hi.polls with ⟨hreach, hsince, hcount⟩ | ⟨hnone, -⟩
  · exact ⟨reachable_snoc (hpoll none), hsince, hcount⟩
  · rw [hnone] at hhead
    cases hhead

variable [FtsoRules] [Messaging] {cfg : EngineConfig}

theorem OutageInv.step (hfirst : 0 < first) (hi : OutageInv first loaded ms u)
    (hstep : OutageStep cfg u m u') : OutageInv first loaded (ms ++ [m]) u' := by
  obtain ⟨s, o⟩ := u
  obtain ⟨s', o'⟩ := u'
  obtain ⟨htime, hengine, hlog⟩ := hstep
  obtain rfl : o' = o.next s m := hlog
  have henabled : s.Enabled cfg m.step.event := hengine.1
  rcases hengine.cases with ⟨head, hevent, hs, -⟩ | ⟨blk, fdcLogs, fuLogs, hevent, hs, -⟩ |
    ⟨a, hevent, hs, -⟩
  · obtain rfl : s' = s.poll cfg head := hs
    have hnext : o.next s m = o.poll s m.time head := by simp [OutageLog.next, hevent]
    rw [hnext]
    cases head with
    | none =>
      rw [hevent] at henabled
      exact hi.fail htime hevent henabled rfl rfl rfl
    | some head => exact hi.answer hfirst hevent rfl rfl
  · have hnext : o.next s m = o := by simp [OutageLog.next, hevent]
    have hblocks : blocksOf (ms ++ [m]) = blocksOf ms + 1 := by
      rw [blocksOf_snoc, Moment.isBlock, hevent]
      rfl
    rw [hevent] at henabled
    obtain ⟨head, hhead, -⟩ := henabled
    have hcursor : s.cursor = first + blocksOf ms := hi.cursor
    rw [hnext]
    refine @OutageInv.work _ _ _ _ (s, o) hi (by simp [hhead]) (by simp [hevent]) _ ?_ ?_
    · rw [show s' = _ from hs, EngineState.block_cursor, hcursor, hblocks]
      omega
    · rw [show s' = _ from hs, EngineState.block_lastBlock, hcursor, lastBlockOf, hblocks]
      omega
  · have hnext : o.next s m = o := by simp [OutageLog.next, hevent]
    have hblocks : blocksOf (ms ++ [m]) = blocksOf ms := by
      rw [blocksOf_snoc, Moment.isBlock, hevent]
      rfl
    rw [hevent] at henabled
    rw [hnext]
    refine @OutageInv.work _ _ _ _ (s, o) hi henabled (by simp [hevent]) _ ?_ ?_
    · rw [show s' = _ from hs, EngineState.pause_cursor, hblocks]
      exact hi.cursor
    · rw [show s' = _ from hs, EngineState.pause_lastBlock, lastBlockOf, hblocks]
      exact hi.last

end

section

variable [FtsoRules] [Messaging] {cfg : EngineConfig} {setup : ObserverSetup} {first : Nat}
  {file : List RoundRecord} {tallies : List IqrTally} {a : PauseAnswers} {loaded : List Gap}
  {ms : List Moment} {s : EngineState} {o : OutageLog}

theorem outage_inv (hfirst : 0 < first)
    (hrun : Effect.Run (OutageStep cfg)
      (EngineState.start cfg setup first file tallies a, { gaps := loaded }) ms (s, o)) :
    OutageInv first loaded ms (s, o) := by
  have hstart := @EngineState.start_started cfg setup first file tallies a
  refine hrun.invariant (fun ms u => OutageInv first loaded ms u) ?_
    fun ms u m u' _ hi hstep => hi.step hfirst hstep
  refine ⟨hstart.cursor, EngineState.start_lastBlock, .inl ⟨by simp [Reachable], rfl, rfl⟩, [],
    (List.append_nil _).symm, [], .nil, fun i => ?_, .nil⟩
  refine ⟨by simp, fun h => ?_⟩
  have hlt := h.lt
  simp at hlt

omit [FtsoRules] [Messaging] in
/-- An outage is backfilled when the blocks after the last one before it have been processed. -/
theorem OutageAt.backfilled_iff {i : Nat} {g : Gap} (h : OutageAt first ms i g) :
    g.backfilled (some (lastBlockOf first ms)) = true ↔
      ∀ b, g.fromBlock < b → b ≤ g.toBlock → ProcessedIn first ms b := by
  cases h with
  | @mk pre fails post f ok head hbefore hf hfails hok =>
    have hle : blocksOf pre ≤ blocksOf (pre ++ f :: fails ++ ok :: post) := by
      rw [blocksOf, blocksOf, List.append_assoc, List.countP_append]
      omega
    generalize pre ++ f :: fails ++ ok :: post = ms at hle ⊢
    simp only [Gap.backfilled, Option.any_some, Bool.not_false, Bool.true_and, decide_eq_true_eq]
    unfold ProcessedIn lastBlockOf
    constructor
    · intro h b hb hb'
      omega
    · intro h
      by_cases hto : head ≤ first + (blocksOf pre - 1)
      · omega
      · have hlast := (h head (by omega) le_rfl).2
        omega

/-- The ledger of a run: what it was loaded with, and then one gap for each outage that is over, in
order; and such a gap is backfilled exactly if the run has processed all blocks after the last one
before the outage, up to the head that ended it. -/
theorem outages_told (hfirst : 0 < first)
    (hrun : Effect.Run (OutageStep cfg)
      (EngineState.start cfg setup first file tallies a, { gaps := loaded }) ms (s, o)) :
    ∃ gs, o.gaps = loaded ++ gs ∧ Recorded first ms gs ∧
      ∀ g ∈ gs, g.backfilled (some s.lastBlock) = true ↔
        ∀ b, g.fromBlock < b → b ≤ g.toBlock → ProcessedIn first ms b := by
  have hi := outage_inv hfirst hrun
  obtain ⟨gs, hgaps, hrec⟩ := hi.gaps
  refine ⟨gs, hgaps, hrec, fun g hg => ?_⟩
  obtain ⟨is, -, -, hall⟩ := hrec
  obtain ⟨i, hi'⟩ : ∃ i, OutageAt first ms i g := by
    obtain ⟨n, hn, rfl⟩ := List.getElem_of_mem hg
    exact ⟨_, (List.forall₂_iff_get.mp hall).2 n (by rw [hall.length_eq]; exact hn) hn⟩
  have hlast : s.lastBlock = lastBlockOf first ms := hi.last
  rw [hlast]
  exact hi'.backfilled_iff

end

/-! ### Ten seconds without the node -/

section

variable [FtsoRules] [Messaging] {cfg : EngineConfig}

/-- The moments of the events, and what they end in. -/
def momentsOf (cfg : EngineConfig) (s : EngineState) : List (ℚ × EngineEvent) → List Moment
  | [] => []
  | e :: es => ⟨e.1, e.2, (s.next cfg e.2).2⟩ :: momentsOf cfg (s.next cfg e.2).1 es

def outageAfter (cfg : EngineConfig) (u : EngineState × OutageLog) :
    List (ℚ × EngineEvent) → EngineState × OutageLog
  | [] => u
  | e :: es =>
    let m : Moment := ⟨e.1, e.2, (u.1.next cfg e.2).2⟩
    outageAfter cfg ((u.1.next cfg e.2).1, u.2.next u.1 m) es

theorem outageRun {s : EngineState} {o : OutageLog} {es : List (ℚ × EngineEvent)}
    (hes : allowedAll cfg s (es.map Prod.snd) = true) (htime : ∀ e ∈ es, 0 < e.1) :
    Effect.Run (OutageStep cfg) (s, o) (momentsOf cfg s es) (outageAfter cfg (s, o) es) := by
  induction es generalizing s o with
  | nil => exact .nil
  | cons e es ih =>
    simp only [List.map_cons, allowedAll, Bool.and_eq_true] at hes
    obtain ⟨hpos, hrest⟩ := List.forall_mem_cons.mp htime
    exact .cons ⟨hpos, ⟨enabled_of_allowed hes.1, rfl⟩, rfl⟩ (ih hes.2 hrest)

end

/-- Two polls fail, and two blocks are processed after the third. -/
def outageEvents : List (ℚ × EngineEvent) :=
  [(1000, .poll none), (1002, .poll none), (1010, .poll (some 2)),
    (1011, .block ⟨0, []⟩ none none), (1012, .block ⟨2, []⟩ none none)]

/-- The outage is on record, and backfilled. -/
theorem outages_told_backfilled :
    let _ := sampleRules
    let _ := sampleMessages
    (outageAfter sampleConfig (sampleStart, {}) outageEvents).2.gaps =
        [{ start := 1000, finish := 1010, dur := 10, fails := 2, fromBlock := 1, toBlock := 2 }] ∧
      ∃ gs, Recorded 1 (momentsOf sampleConfig sampleStart outageEvents) gs ∧
        ∀ g ∈ gs, ∀ b, g.fromBlock < b → b ≤ g.toBlock →
          ProcessedIn 1 (momentsOf sampleConfig sampleStart outageEvents) b := by
  intro _ _
  have hallowed : allowedAll sampleConfig sampleStart (outageEvents.map Prod.snd) = true := by
    decide +kernel
  have hgaps : (outageAfter sampleConfig (sampleStart, {}) outageEvents).2.gaps =
      [{ start := 1000, finish := 1010, dur := 10, fails := 2, fromBlock := 1, toBlock := 2 }] := by
    decide +kernel
  have hlast : (outageAfter sampleConfig (sampleStart, {}) outageEvents).1.lastBlock = 2 := by
    decide +kernel
  have hrun := @outageRun _ _ sampleConfig sampleStart {} outageEvents hallowed (by
    simp [outageEvents])
  obtain ⟨gs, hsame, hrec, hback⟩ := @outages_told _ _ _ _ _ _ _ _ _ _
    (outageAfter sampleConfig (sampleStart, {}) outageEvents).1
    (outageAfter sampleConfig (sampleStart, {}) outageEvents).2 Nat.one_pos hrun
  refine ⟨hgaps, gs, hrec, fun g hg => (hback g hg).mp ?_⟩
  rw [List.nil_append, hgaps] at hsame
  rw [← hsame] at hg
  rw [List.mem_singleton.mp hg, hlast]
  rfl

end Clif.Observe
