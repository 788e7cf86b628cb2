import Clif.Observe.Offences

/-!
# Observe.LedgerExact — the events that the ledger counts

The events of the chain are read in chunks, on a schedule of their own; a record counts those that
were read while its round was in flight.  `ledger_exact` says when these are all of them.
-/

namespace Clif.Observe

/-! ## The events of the chain -/

/-- How many events each block has: requests to the hub, and AP's fast updates. -/
structure ChainEvents where
  requests : Nat → Nat
  updates : Nat → Nat

/-- The events in the blocks from `lo` up to `hi`, one entry each: the number of its block. -/
def logsIn (events : Nat → Nat) (lo hi : Nat) : List Nat :=
  (List.range' lo (hi - lo)).flatMap fun n => List.replicate (events n) n

/-- The round that a block lies in. -/
def roundOf (f : VotingFactory) (chain : Nat → Block) (n : Nat) : Int :=
  f.roundAt (chain n).timestamp

/-- How many of the events lie in blocks of the round. -/
def eventsOf (f : VotingFactory) (chain : Nat → Block) (r : Int) (logs : List Nat) : Nat :=
  logs.countP fun n => decide (roundOf f chain n = r)

section

variable {events : Nat → Nat} {lo mid hi n : Nat} {f : VotingFactory} {chain : Nat → Block}
  {r : Int} {logs logs' : List Nat}

theorem mem_logsIn : n ∈ logsIn events lo hi ↔ lo ≤ n ∧ n < hi ∧ events n ≠ 0 := by
  simp only [logsIn, List.mem_flatMap, List.mem_range'_1, List.mem_replicate]
  constructor
  · rintro ⟨m, hm, hne, rfl⟩
    exact ⟨by omega, by omega, hne⟩
  · rintro ⟨hlo, hhi, hne⟩
    exact ⟨n, ⟨hlo, by omega⟩, hne, rfl⟩

theorem logsIn_self : logsIn events lo lo = [] := by simp [logsIn]

theorem logsIn_append (h : lo ≤ mid) (h' : mid ≤ hi) :
    logsIn events lo mid ++ logsIn events mid hi = logsIn events lo hi := by
  unfold logsIn
  rw [← List.flatMap_append]
  have hrange := @List.range'_append lo (mid - lo) (hi - mid) 1
  rw [show lo + 1 * (mid - lo) = mid by omega,
    show mid - lo + (hi - mid) = hi - lo by omega] at hrange
  rw [hrange]

theorem eventsOf_append :
    eventsOf f chain r (logs ++ logs') = eventsOf f chain r logs + eventsOf f chain r logs' :=
  List.countP_append

theorem eventsOf_logsIn (h : lo ≤ mid) (h' : mid ≤ hi) :
    eventsOf f chain r (logsIn events lo mid) + eventsOf f chain r (logsIn events mid hi) =
      eventsOf f chain r (logsIn events lo hi) := by
  rw [← eventsOf_append, logsIn_append h h']

theorem eventsOf_eq_zero : eventsOf f chain r logs = 0 ↔ ∀ n ∈ logs, roundOf f chain n ≠ r := by
  simp [eventsOf]

theorem eventsOf_pos : 0 < eventsOf f chain r logs ↔ ∃ n ∈ logs, roundOf f chain n = r := by
  simp [eventsOf]

end

/-! ## What a step reads -/

namespace EngineState

/-- The blocks whose events are read. -/
def readRange (s : EngineState) : EngineEvent → Option (Nat × Nat)
  | .poll _ => none
  | .block .. => if s.flushes then some (s.scanLo, s.cursor + 1) else none
  | .pause _ => if s.scanLo < s.cursor then some (s.scanLo, s.cursor) else none

end EngineState

/-- The answers to the two reads. -/
def EngineEvent.fdcLogs : EngineEvent → Option (List Nat)
  | .poll _ => none
  | .block _ fdcLogs _ => fdcLogs
  | .pause a => a.fdcLogs

def EngineEvent.fuLogs : EngineEvent → Option (List Nat)
  | .poll _ => none
  | .block _ _ fuLogs => fuLogs
  | .pause a => a.fuLogs

/-- A read that succeeds answers the events of the range. -/
def ReadsChain (events : ChainEvents) (s : EngineState) (h : Happening) : Prop :=
  ∀ lo hi, s.readRange h.event = some (lo, hi) →
    (∀ logs, h.event.fdcLogs = some logs → logs.Perm (logsIn events.requests lo hi)) ∧
    ∀ logs, h.event.fuLogs = some logs → logs.Perm (logsIn events.updates lo hi)

/-- The event shows the chain: the block, and what is read of the events. -/
def ShowsEvents (chain : Nat → Block) (events : ChainEvents) (s : EngineState) (h : Happening) :
    Prop :=
  (∀ blk fdcLogs fuLogs, h.event = .block blk fdcLogs fuLogs → blk = chain s.cursor) ∧
    ReadsChain events s h

/-- A step of the engine over the chain. -/
def EventStep [FtsoRules] [Messaging] (cfg : EngineConfig) (chain : Nat → Block)
    (events : ChainEvents) (s : EngineState) (h : Happening) (s' : EngineState) : Prop :=
  EngineStep cfg s h s' ∧ ShowsEvents chain events s h

/-! ## Bitvotes -/

/-- The round of the FDC payload of AP's `submit2`, if the transaction is one. -/
def fdcVoteOf [Messaging] (cfg : EngineConfig) (setup : ObserverSetup) (tx : Tx) : Option Int :=
  let inp := Py.removePrefix (tx.input.getD "0x") "0x"
  if Py.lower (tx.toAddr.getD "") = cfg.submission ∧
      Py.lower (tx.fromAddr.getD "") = setup.submitLc ∧ 8 ≤ inp.length ∧
      Py.lower (sliceTo inp 8) = submit2Selector then
    ((parseSubmit2Tx (Py.sliceFrom inp 8)).bind Submit2.fdc).map FdcBitvote.votingRoundId
  else none

/-- AP votes on the FDC requests of the round in a block from `lo` up to `hi`. -/
def Voted [Messaging] (cfg : EngineConfig) (setup : ObserverSetup) (chain : Nat → Block) (r : Int)
    (lo hi : Nat) : Prop :=
  ∃ n, lo ≤ n ∧ n < hi ∧ ∃ tx ∈ (chain n).transactions, fdcVoteOf cfg setup tx = some r

/-! ## What a record is to show -/

/-- The record shows the events, and the vote, that the blocks from `lo` up to `hi` have for its
round. -/
structure RoundRecord.Exact [Messaging] (cfg : EngineConfig) (setup : ObserverSetup)
    (chain : Nat → Block) (events : ChainEvents) (lo hi : Nat) (rec : RoundRecord) : Prop where
  fexp : rec.fexp = 1 ↔
    ∃ n ∈ logsIn events.requests lo hi, roundOf setup.factory chain n = rec.rid
  fu : rec.fu = eventsOf setup.factory chain rec.rid (logsIn events.updates lo hi)
  fok : rec.fok = 1 ↔ rec.fexp = 1 ∧ Voted cfg setup chain rec.rid lo hi

/-- What the step counts, it counts in time and once. -/
structure Counting [Messaging] (cfg : EngineConfig) (chain : Nat → Block) (events : ChainEvents)
    (s : EngineState) (h : Happening) : Prop where
  inTime : InTime s h.event
  near : FirstNear cfg s h
  /-- No read is missing, or fails, that has an event. -/
  reads : ∀ lo hi, s.readRange h.event = some (lo, hi) →
    (cfg.fdcHub = false ∨ h.event.fdcLogs = none → logsIn events.requests lo hi = []) ∧
    (cfg.fastUpdater = false ∨ h.event.fuLogs = none → logsIn events.updates lo hi = [])
  /-- No event waits whose round the block closes. -/
  waits : ∀ blk fdcLogs fuLogs, h.event = .block blk fdcLogs fuLogs → s.flushes = false →
    ∀ n, n ∈ logsIn events.requests s.scanLo s.cursor ++ logsIn events.updates s.scanLo s.cursor →
      s.obs.factory.due (roundOf s.obs.factory chain n) blk.timestamp = false
  /-- The events of a block that is so long after the last one are not read with it. -/
  follows : ∀ blk fdcLogs fuLogs, h.event = .block blk fdcLogs fuLogs → s.flushes = true →
    events.requests s.cursor ≠ 0 ∨ events.updates s.cursor ≠ 0 →
      s.obs.tooFar (s.obs.factory.roundAt blk.timestamp) = false
  /-- AP's vote comes with a readable FTSO payload, for a round that is neither far nor closed. -/
  votes : ∀ blk fdcLogs fuLogs, h.event = .block blk fdcLogs fuLogs →
    ∀ tx ∈ blk.transactions, ∀ r, fdcVoteOf cfg s.obs.toObserverSetup tx = some r →
      (decodeSubmit (tx.input.getD "0x")).isSome ∧ s.obs.tooFar r = false ∧ s.obs.closed r = false
  /-- A closed round is written to only while it is on record. -/
  late : ∀ blk fdcLogs fuLogs, h.event = .block blk fdcLogs fuLogs →
    ∀ x ∈ blk.transactions.flatMap (s.txOps cfg blk.timestamp), s.obs.closed x.1 = true →
      x.1 ∈ s.mincondRecs.keys

/-! ## What a round in flight counts -/

/-- The part of a round that the events and the vote go into. -/
structure Counts where
  requests : Nat := 0
  updates : Nat := 0
  bitvote : Bool := false
  gap : Bool := false

def RoundState.counts (rs : RoundState) : Counts where
  requests := rs.fdcRequestCount
  updates := rs.fuCount
  bitvote := rs.fdcBitvoteSeen
  gap := rs.fdcGap

/-- A round that is not in flight counts nothing. -/
def countsOf : Option RoundState → Counts
  | some rs => rs.counts
  | none => {}

def RoundOp.isBitvote : RoundOp → Bool
  | .bitvote .. => true
  | _ => false

/-- What the writes of a round add. -/
def Counts.add (c : Counts) (ops : List RoundOp) : Counts where
  requests := c.requests + ops.count .fdcRequest
  updates := c.updates + ops.count .fastUpdate
  bitvote := c.bitvote || ops.any RoundOp.isBitvote
  gap := c.gap

/-- The write goes into what is counted. -/
def RoundOp.counted (op : RoundOp) : Bool :=
  decide (op = .fdcRequest) || decide (op = .fastUpdate) || op.isBitvote

theorem counts_apply {op : RoundOp} {rs : RoundState} :
    (op.apply rs).counts = rs.counts.add [op] := by
  cases op <;> simp [RoundOp.apply, RoundState.counts, Counts.add, RoundOp.isBitvote]

theorem add_nil {c : Counts} : c.add [] = c := by simp [Counts.add]

theorem add_uncounted {c : Counts} {op : RoundOp} (h : op.counted = false) : c.add [op] = c := by
  cases op with
  | fdcRequest | fastUpdate | bitvote => simp [RoundOp.counted, RoundOp.isBitvote] at h
  | _ => simp [Counts.add, RoundOp.isBitvote]

theorem add_cons {c : Counts} {op : RoundOp} {ops : List RoundOp} :
    c.add (op :: ops) = (c.add [op]).add ops := by
  simp only [Counts.add, List.count_cons, List.count_nil, List.any_cons, List.any_nil,
    Bool.or_false, Bool.or_assoc, Counts.mk.injEq, and_true]
  omega

theorem countsOf_written {far : Bool} {r : Int} {rs : Option RoundState} {op : RoundOp}
    (h : far = false ∨ op.counted = false) :
    countsOf (ObserverState.written far r rs op) = (countsOf rs).add [op] := by
  cases rs with
  | some rs => exact counts_apply
  | none =>
    cases far with
    | false => exact counts_apply
    | true =>
      have huncounted : op.counted = false := by simpa using h
      exact (add_uncounted huncounted).symm

theorem countsOf_foldl {far : Bool} {r : Int} {rs : Option RoundState} {ops : List RoundOp}
    (h : far = false ∨ ∀ op ∈ ops, op.counted = false) :
    countsOf (ops.foldl (ObserverState.written far r) rs) = (countsOf rs).add ops := by
  induction ops generalizing rs with
  | nil => exact add_nil.symm
  | cons op ops ih =>
    have hop : far = false ∨ op.counted = false := h.imp_right fun h => h op List.mem_cons_self
    have hops : far = false ∨ ∀ op ∈ ops, op.counted = false :=
      h.imp_right fun h op hop => h op (List.mem_cons_of_mem _ hop)
    rw [List.foldl_cons, ih hops, countsOf_written hop, ← add_cons]

namespace ObserverState

variable {st : ObserverState} {r rid : Int} {op : RoundOp}

/-- A round counts no event, neither before nor after a write of none. -/
theorem performAll_noEvents {ops : List (Int × RoundOp)}
    (hops : ∀ x ∈ ops, x.2 ≠ .fdcRequest ∧ x.2 ≠ .fastUpdate)
    (h : (countsOf (st.rounds.get? r)).requests = 0 ∧ (countsOf (st.rounds.get? r)).updates = 0) :
    (countsOf ((st.performAll ops).rounds.get? r)).requests = 0 ∧
      (countsOf ((st.performAll ops).rounds.get? r)).updates = 0 := by
  induction ops generalizing st with
  | nil => exact h
  | cons x ops ih =>
    rw [performAll_cons]
    refine ih (fun y hy => hops y (List.mem_cons_of_mem _ hy)) ?_
    obtain ⟨hrequest, hupdate⟩ := hops x List.mem_cons_self
    rcases @perform_cases st x.1 r x.2 with hnone | hsame | ⟨-, hwritten⟩
    · rw [hnone]
      exact ⟨rfl, rfl⟩
    · rw [hsame]
      exact h
    · have hdefault : countsOf (some ((st.rounds.get? r).getD { roundId := r })) =
          countsOf (st.rounds.get? r) := by
        cases st.rounds.get? r <;> rfl
      have hcounts : countsOf (some (x.2.apply ((st.rounds.get? r).getD { roundId := r }))) =
          (countsOf (st.rounds.get? r)).add [x.2] := by
        rw [← hdefault]
        exact counts_apply
      rw [hwritten, hcounts]
      simp [Counts.add, h.1, h.2, hrequest, hupdate]

end ObserverState

/-! ## What a transaction writes of it -/

section

variable [Messaging] {cfg : EngineConfig} {s : EngineState} {ts r : Int} {tx : Tx}

/-- A submission that decodes has the FDC part that its bytes have. -/
theorem decodeSubmit_fdc {txInput : String} {d : Decoded} (h : decodeSubmit txInput = some d) :
    let inp := Py.removePrefix txInput "0x"
    8 ≤ inp.length ∧ (d.kind = "submit2" ↔ Py.lower (sliceTo inp 8) = submit2Selector) ∧
      (d.kind = "submit2" → d.fdcPresent = d.fdcRound.isSome ∧ d.fdcRound =
        ((parseSubmit2Tx (Py.sliceFrom inp 8)).bind Submit2.fdc).map FdcBitvote.votingRoundId) := by
  have h12 : submit1Selector ≠ submit2Selector := by decide
  have hsig1 : submitSigSelector ≠ submit1Selector := by decide
  have hsig2 : submitSigSelector ≠ submit2Selector := by decide
  unfold decodeSubmit at h
  generalize Py.removePrefix txInput "0x" = inp at h ⊢
  by_cases hlen : inp.length < 8
  · simp [hlen] at h
  · refine ⟨not_lt.mp hlen, ?_⟩
    simp only [hlen, if_false, kindOf] at h
    by_cases h1 : Py.lower (sliceTo inp 8) = submit1Selector
    · simp only [h1, if_true, decodeSubmit1] at h
      split at h
      · cases h
        simp [h1, h12]
      · cases h
    · by_cases h2 : Py.lower (sliceTo inp 8) = submit2Selector
      · simp only [h2, h12.symm, if_false, if_true, decodeSubmit2, Option.bind_eq_bind,
          Option.bind_eq_some_iff] at h
        obtain ⟨pm, hpm, ftso, -, g, -, payload, -, ⟨rnd, feedV⟩, -, hd⟩ := h
        cases hd
        simp [h2, hpm]
      · by_cases h3 : Py.lower (sliceTo inp 8) = submitSigSelector
        · simp only [h3, hsig1, hsig2, if_false, if_true, decodeSignatures, Option.bind_eq_bind,
            Option.bind_eq_some_iff] at h
          obtain ⟨pm, -, round, -, hd⟩ := h
          cases hd
          simp [h3, hsig2]
        · simp [h1, h2, h3] at h

omit [Messaging] in
theorem mem_bitvoteOps {d : Decoded} {x : Int × RoundOp} :
    x ∈ ObserverState.bitvoteOps d ↔ d.fdcPresent = true ∧ d.fdcRound = some x.1 ∧
      x.2 = .bitvote d.fdcBitvoteLen d.fdcNumRequests := by
  unfold ObserverState.bitvoteOps
  cases d.fdcPresent with
  | false => simp
  | true =>
    cases d.fdcRound with
    | none => simp
    | some r => simp [Prod.ext_iff, eq_comm]

omit [Messaging] in
/-- What AP's own transaction writes of it is the vote. -/
theorem mem_recordOps_counted {st : ObserverState} {d : Decoded} {addr : String}
    {x : Int × RoundOp} (hx : x ∈ st.recordOps d addr ts) (hcounted : x.2.counted = true) :
    x.2.isBitvote = true ∧ d.kind = "submit2" ∧ Py.lower addr = st.submitLc ∧
      d.fdcRound = some x.1 := by
  unfold ObserverState.recordOps at hx
  simp only at hx
  split at hx
  · rw [List.mem_singleton.mp hx] at hcounted
    simp [RoundOp.counted, RoundOp.isBitvote] at hcounted
  · split at hx
    · rename_i hsubmit2
      rcases List.mem_cons.mp hx with rfl | hx
      · simp [RoundOp.counted, RoundOp.isBitvote] at hcounted
      · obtain ⟨-, hround, hop⟩ := mem_bitvoteOps.mp hx
        exact ⟨by rw [hop]; rfl, hsubmit2.1, hsubmit2.2, hround⟩
    · split at hx
      · rcases List.mem_cons.mp hx with rfl | hx
        · simp [RoundOp.counted, RoundOp.isBitvote] at hcounted
        · unfold ObserverState.fdcSignatureOps at hx
          split at hx
          · rw [List.mem_singleton.mp hx] at hcounted
            simp [RoundOp.counted, RoundOp.isBitvote] at hcounted
          · cases hx
      · rw [List.mem_singleton.mp hx] at hcounted
        simp [RoundOp.counted, RoundOp.isBitvote] at hcounted

theorem txOps_counted {x : Int × RoundOp} (hx : x ∈ s.txOps cfg ts tx)
    (hcounted : x.2.counted = true) :
    x.2.isBitvote = true ∧ fdcVoteOf cfg s.obs.toObserverSetup tx = some x.1 := by
  unfold EngineState.txOps at hx
  split at hx
  · cases hx
  · rename_i hto
    rcases List.mem_append.mp hx with hx | hx
    · unfold EngineState.ownOps at hx
      split at hx
      · cases hd : decodeSubmit (tx.input.getD "0x") with
        | none =>
          rw [hd] at hx
          cases hx
        | some d =>
          rw [hd] at hx
          obtain ⟨hvote, hkind, haddr, hround⟩ := mem_recordOps_counted hx hcounted
          obtain ⟨hlen, hsel, hfdc⟩ := decodeSubmit_fdc hd
          rw [Py.lower_lower] at haddr
          refine ⟨hvote, ?_⟩
          unfold fdcVoteOf
          rw [if_pos ⟨not_not.mp hto, haddr, hlen, hsel.mp hkind⟩, ← (hfdc hkind).2]
          exact hround
      · cases hx
    · unfold EngineState.revealOps at hx
      split at hx
      · split at hx
        · rw [List.mem_singleton.mp hx] at hcounted
          simp [ObserverState.revealOp, RoundOp.counted, RoundOp.isBitvote] at hcounted
        · cases hx
      · cases hx

theorem txOps_vote (hvote : fdcVoteOf cfg s.obs.toObserverSetup tx = some r)
    (hdecodes : (decodeSubmit (tx.input.getD "0x")).isSome) :
    ∃ op, (r, op) ∈ s.txOps cfg ts tx ∧ op.isBitvote = true := by
  unfold fdcVoteOf at hvote
  simp only at hvote
  split at hvote
  · rename_i hown
    obtain ⟨hto, hfrom, -, hsel⟩ := hown
    obtain ⟨d, hd⟩ := Option.isSome_iff_exists.mp hdecodes
    obtain ⟨-, hkind, hfdc⟩ := decodeSubmit_fdc hd
    have hkind := hkind.mpr hsel
    obtain ⟨hpresent, hround⟩ := hfdc hkind
    rw [hvote] at hround
    rw [hround] at hpresent
    have hsubmit : Py.lower (Py.lower (tx.fromAddr.getD "")) = s.obs.submitLc := by
      rw [Py.lower_lower, hfrom]
    refine ⟨.bitvote d.fdcBitvoteLen d.fdcNumRequests, ?_, rfl⟩
    unfold EngineState.txOps
    rw [if_neg (not_not.mpr hto)]
    refine List.mem_append_left _ ?_
    unfold EngineState.ownOps
    rw [if_pos (.inl hfrom), hd]
    have hmem : (r, RoundOp.bitvote d.fdcBitvoteLen d.fdcNumRequests) ∈
        ObserverState.bitvoteOps d := mem_bitvoteOps.mpr ⟨hpresent, hround, rfl⟩
    simp only [ObserverState.recordOps, hkind, hsubmit]
    simpa using hmem
  · cases hvote

/-- The transactions of a block write no event, and the votes that they carry. -/
theorem add_txOps {blk : Block} {c : Counts}
    (hdecodes : ∀ tx ∈ blk.transactions, fdcVoteOf cfg s.obs.toObserverSetup tx = some r →
      (decodeSubmit (tx.input.getD "0x")).isSome) :
    (c.add (ObserverState.opsFor r (blk.transactions.flatMap (s.txOps cfg ts)))).requests =
        c.requests ∧
    (c.add (ObserverState.opsFor r (blk.transactions.flatMap (s.txOps cfg ts)))).updates =
        c.updates ∧
    ((c.add (ObserverState.opsFor r (blk.transactions.flatMap (s.txOps cfg ts)))).bitvote = true ↔
      c.bitvote = true ∨
        ∃ tx ∈ blk.transactions, fdcVoteOf cfg s.obs.toObserverSetup tx = some r) := by
  have hmem : ∀ op, op ∈ ObserverState.opsFor r (blk.transactions.flatMap (s.txOps cfg ts)) ↔
      ∃ tx ∈ blk.transactions, (r, op) ∈ s.txOps cfg ts tx := by
    intro op
    simp only [ObserverState.opsFor, List.mem_filterMap, List.mem_flatMap]
    constructor
    · rintro ⟨x, ⟨tx, htx, hx⟩, hop⟩
      split at hop
      · rename_i hr
        cases hop
        exact ⟨tx, htx, hr ▸ hx⟩
      · cases hop
    · rintro ⟨tx, htx, hx⟩
      exact ⟨(r, op), ⟨tx, htx, hx⟩, by simp⟩
  have hevent : ∀ op, op = .fdcRequest ∨ op = .fastUpdate →
      (ObserverState.opsFor r (blk.transactions.flatMap (s.txOps cfg ts))).count op = 0 := by
    intro op hop
    refine List.count_eq_zero_of_not_mem fun h => ?_
    obtain ⟨tx, -, hx⟩ := (hmem op).mp h
    have hvote := (txOps_counted hx (by rcases hop with rfl | rfl <;> rfl)).1
    rcases hop with rfl | rfl
    · cases hvote
    · cases hvote
  refine ⟨?_, ?_, ?_⟩
  · simp [Counts.add, hevent]
  · simp [Counts.add, hevent]
  · simp only [Counts.add, Bool.or_eq_true, List.any_eq_true]
    refine or_congr_right ⟨?_, ?_⟩
    · rintro ⟨op, hop, hvote⟩
      obtain ⟨tx, htx, hx⟩ := (hmem op).mp hop
      refine ⟨tx, htx, (txOps_counted hx ?_).2⟩
      simp [RoundOp.counted, hvote]
    · rintro ⟨tx, htx, hvote⟩
      obtain ⟨op, hx, hop⟩ := @txOps_vote _ cfg s ts r tx hvote (hdecodes tx htx hvote)
      exact ⟨op, (hmem op).mpr ⟨tx, htx, hx⟩, hop⟩

end

/-! ## What a read writes -/

section

variable {cfg : EngineConfig} {s : EngineState} {r : Int} {op : RoundOp} {tsMap : Dict Nat Int}
  {events : Nat → Nat} {chain : Nat → Block} {lo hi : Nat} {logs fdcLogs fuLogs : Option (List Nat)}

theorem opsFor_logOps : ObserverState.opsFor r (s.logOps tsMap op logs) =
    List.replicate ((logs.getD []).countP fun n =>
      decide ((tsMap.get? n).map s.obs.factory.roundAt = some r)) op := by
  cases logs with
  | none => rfl
  | some blocks =>
    unfold EngineState.logOps ObserverState.opsFor
    simp only [Option.getD_some]
    induction blocks with
    | nil => rfl
    | cons n blocks ih =>
      cases hts : tsMap.get? n with
      | none => simpa [hts] using ih
      | some bts =>
        by_cases hr : s.obs.factory.roundAt bts = r
        · simpa [hts, hr, List.replicate_succ] using ih
        · simpa [hts, hr] using ih

/-- A read of all the events of a range, of blocks whose times are known. -/
theorem opsFor_read {on : Bool}
    (htimes : ∀ n, lo ≤ n → n < hi → tsMap.get? n = some (chain n).timestamp)
    (hread : ∀ l, logs = some l → l.Perm (logsIn events lo hi))
    (hall : on = false ∨ logs = none → logsIn events lo hi = []) :
    ObserverState.opsFor r (if on then s.logOps tsMap op logs else []) =
      List.replicate (eventsOf s.obs.factory chain r (logsIn events lo hi)) op := by
  have hnone : on = false ∨ logs = none →
      ObserverState.opsFor r (if on then s.logOps tsMap op logs else []) = [] := by
    rintro (rfl | rfl)
    · rfl
    · cases on <;> rfl
  by_cases hmissing : on = false ∨ logs = none
  · rw [hnone hmissing, hall hmissing]
    rfl
  · rw [not_or] at hmissing
    obtain ⟨l, rfl⟩ := Option.ne_none_iff_exists'.mp hmissing.2
    have hon : on = true := by simpa using hmissing.1
    rw [hon, if_pos rfl, opsFor_logOps]
    congr 1
    rw [Option.getD_some, (hread l rfl).countP_eq]
    refine List.countP_congr fun n hn => ?_
    obtain ⟨hlo, hhi, -⟩ := mem_logsIn.mp hn
    have hround : (tsMap.get? n).map s.obs.factory.roundAt =
        some (roundOf s.obs.factory chain n) := by
      rw [htimes n hlo hhi]
      rfl
    rw [decide_eq_true_iff, decide_eq_true_iff, hround, Option.some_inj]

/-- What is read of a range adds its events. -/
theorem opsFor_flushOps {events : ChainEvents}
    (htimes : ∀ n, lo ≤ n → n < hi → tsMap.get? n = some (chain n).timestamp)
    (hread : (∀ l, fdcLogs = some l → l.Perm (logsIn events.requests lo hi)) ∧
      ∀ l, fuLogs = some l → l.Perm (logsIn events.updates lo hi))
    (hall : (cfg.fdcHub = false ∨ fdcLogs = none → logsIn events.requests lo hi = []) ∧
      (cfg.fastUpdater = false ∨ fuLogs = none → logsIn events.updates lo hi = [])) :
    ObserverState.opsFor r (s.flushOps cfg tsMap fdcLogs fuLogs) =
      List.replicate (eventsOf s.obs.factory chain r (logsIn events.requests lo hi)) .fdcRequest ++
        List.replicate (eventsOf s.obs.factory chain r (logsIn events.updates lo hi))
          .fastUpdate := by
  unfold EngineState.flushOps
  rw [ObserverState.opsFor_append, opsFor_read htimes hread.1 hall.1,
    opsFor_read htimes hread.2 hall.2]

theorem add_append {c : Counts} {ops ops' : List RoundOp} :
    c.add (ops ++ ops') = (c.add ops).add ops' := by
  simp only [Counts.add, List.count_append, List.any_append, Bool.or_assoc, Counts.mk.injEq,
    and_true]
  omega

theorem add_events {c : Counts} {a b : Nat} :
    c.add (List.replicate a .fdcRequest ++ List.replicate b .fastUpdate) =
      { c with requests := c.requests + a, updates := c.updates + b } := by
  simp [Counts.add, List.count_replicate, RoundOp.isBitvote]

end

/-! ## The invariant -/

section

variable [Messaging]

/-- The counts are those of the events in the blocks up to `scanned`, and of the votes in the blocks
up to `seen`. -/
structure Tallied (cfg : EngineConfig) (setup : ObserverSetup) (chain : Nat → Block)
    (events : ChainEvents) (first scanned seen : Nat) (r : Int) (c : Counts) : Prop where
  requests : c.requests = eventsOf setup.factory chain r (logsIn events.requests first scanned)
  updates : c.updates = eventsOf setup.factory chain r (logsIn events.updates first scanned)
  bitvote : c.bitvote = true ↔ Voted cfg setup chain r first seen
  gap : c.gap = false

/-- No event of the round waits to be read. -/
def NoneWaits (chain : Nat → Block) (events : ChainEvents) (s : EngineState) (r : Int) : Prop :=
  ∀ n ∈ logsIn events.requests s.scanLo s.cursor ++ logsIn events.updates s.scanLo s.cursor,
    roundOf s.obs.factory chain n ≠ r

/-- What is known of the rounds: those that are open count what was read, and those that are closed
wait for nothing. -/
structure Counted (cfg : EngineConfig) (setup : ObserverSetup) (chain : Nat → Block)
    (events : ChainEvents) (first : Nat) (s : EngineState) : Prop where
  given : s.obs.toObserverSetup = setup
  ahead : Ahead s
  range : first ≤ s.scanLo ∧ s.scanLo ≤ s.cursor
  times : ∀ n, s.scanLo ≤ n → n < s.cursor → s.tsMap.get? n = some (chain n).timestamp
  past : ∀ n, first ≤ n → n < s.cursor →
    ∃ last, s.obs.lastTs = some last ∧ (chain n).timestamp ≤ last
  counts : ∀ r, s.obs.closed r = false →
    Tallied cfg setup chain events first s.scanLo s.cursor r (countsOf (s.obs.rounds.get? r))
  closed : ∀ r, s.obs.closed r = true → s.obs.rounds.get? r = none ∧ NoneWaits chain events s r

variable {cfg : EngineConfig} {setup : ObserverSetup} {chain : Nat → Block} {events : ChainEvents}
  {first : Nat} {s s' : EngineState} {h : Happening} {r : Int}

theorem voted_succ {lo hi : Nat} (h : lo ≤ hi) : Voted cfg setup chain r lo (hi + 1) ↔
    Voted cfg setup chain r lo hi ∨
      ∃ tx ∈ (chain hi).transactions, fdcVoteOf cfg setup tx = some r := by
  constructor
  · rintro ⟨n, hlo, hhi, hvote⟩
    by_cases hn : n = hi
    · exact .inr (hn ▸ hvote)
    · exact .inl ⟨n, hlo, by omega, hvote⟩
  · rintro (⟨n, hlo, hhi, hvote⟩ | hvote)
    · exact ⟨n, hlo, by omega, hvote⟩
    · exact ⟨hi, h, by omega, hvote⟩

theorem counted_start {file : List RoundRecord} {tallies : List IqrTally} {a : PauseAnswers} :
    Counted cfg setup chain events first
      (EngineState.start cfg setup first file tallies a) := by
  have hstart := @EngineState.start_started cfg setup first file tallies a
  generalize EngineState.start cfg setup first file tallies a = s at hstart ⊢
  have hopen : ∀ r, s.obs.closed r = false := by
    intro r
    simp [ObserverState.closed, hstart.lastTs]
  refine ⟨hstart.setup, ⟨?_, ?_⟩, ?_, ?_, ?_, ?_, ?_⟩
  · intro _
    exact ⟨hstart.rounds, hstart.scanLo.trans hstart.cursor.symm⟩
  · intro last hlast
    rw [hstart.lastTs] at hlast
    cases hlast
  · rw [hstart.scanLo, hstart.cursor]
    exact ⟨le_rfl, le_rfl⟩
  · intro n hlo hhi
    rw [hstart.scanLo] at hlo
    rw [hstart.cursor] at hhi
    omega
  · intro n hlo hhi
    rw [hstart.cursor] at hhi
    omega
  · intro r _
    rw [hstart.rounds, hstart.scanLo, hstart.cursor]
    refine ⟨?_, ?_, ?_, rfl⟩
    · rw [logsIn_self]
      rfl
    · rw [logsIn_self]
      rfl
    · refine iff_of_false (by simp [countsOf]) ?_
      rintro ⟨n, hlo, hhi, -⟩
      omega
  · intro r hclosed
    rw [hopen r] at hclosed
    cases hclosed

/-- The blocks whose events are read with a block. -/
theorem Counted.block_times (hc : Counted cfg setup chain events first s) {n : Nat}
    (hlo : s.scanLo ≤ n) (hhi : n < s.cursor + 1) :
    (s.tsMap.set s.cursor (chain s.cursor).timestamp).get? n = some (chain n).timestamp := by
  rw [Dict.get?_set]
  by_cases hn : s.cursor = n
  · rw [if_pos hn, hn]
  · rw [if_neg hn]
    exact hc.times n hlo (by omega)

/-- A block that was processed is not far ahead of the last one. -/
theorem Counted.near (hc : Counted cfg setup chain events first s) (hf : setup.factory.Lawful)
    {n : Nat} (hlo : first ≤ n) (hhi : n < s.cursor) :
    s.obs.tooFar (roundOf s.obs.factory chain n) = false := by
  have hfactory : s.obs.factory = setup.factory := congrArg ObserverSetup.factory hc.given
  obtain ⟨last, hlast, hle⟩ := hc.past n hlo hhi
  have hround := hf.roundAt_le_roundAt hle
  have hmargin : futureRoundMargin = 4 := rfl
  simp only [ObserverState.tooFar, ObserverState.currentRound, hlast, Option.map_some,
    decide_eq_false_iff_not, not_lt, roundOf, hfactory]
  omega

/-- What is read at the end of a block. -/
theorem block_reads {fdcLogs fuLogs : Option (List Nat)}
    (hc : Counted cfg setup chain events first s)
    (hreads : ReadsChain events s h) (hcounting : Counting cfg chain events s h)
    (hevent : h.event = .block (chain s.cursor) fdcLogs fuLogs) (hflush : s.flushes = true) :
    ObserverState.opsFor r
        (s.flushOps cfg (s.tsMap.set s.cursor (chain s.cursor).timestamp) fdcLogs fuLogs) =
      List.replicate (eventsOf s.obs.factory chain r
        (logsIn events.requests s.scanLo (s.cursor + 1))) .fdcRequest ++
      List.replicate (eventsOf s.obs.factory chain r
        (logsIn events.updates s.scanLo (s.cursor + 1))) .fastUpdate := by
  have hrange : s.readRange h.event = some (s.scanLo, s.cursor + 1) := by
    rw [hevent]
    exact if_pos hflush
  have hread := hreads _ _ hrange
  have hall := hcounting.reads _ _ hrange
  rw [hevent] at hread hall
  exact opsFor_flushOps (fun n => hc.block_times) hread hall

/-- What is written into a round that is far ahead does not count. -/
theorem far_uncounted {fdcLogs fuLogs : Option (List Nat)} (hf : setup.factory.Lawful)
    (hc : Counted cfg setup chain events first s)
    (hreads : ReadsChain events s h) (hcounting : Counting cfg chain events s h)
    (hevent : h.event = .block (chain s.cursor) fdcLogs fuLogs)
    (hfar : s.obs.tooFar r = true) {op : RoundOp}
    (hop : op ∈ ObserverState.opsFor r (s.blockOps cfg (chain s.cursor) fdcLogs fuLogs)) :
    op.counted = false := by
  by_contra hcounted
  rw [Bool.not_eq_false] at hcounted
  unfold EngineState.blockOps at hop
  rw [ObserverState.opsFor_append] at hop
  rcases List.mem_append.mp hop with hop | hop
  · obtain ⟨x, hx, hxop⟩ := List.mem_filterMap.mp hop
    split at hxop
    · rename_i hr
      cases hxop
      obtain ⟨tx, htx, hx⟩ := List.mem_flatMap.mp hx
      have hvote := (txOps_counted hx hcounted).2
      have hnear := (hcounting.votes _ _ _ hevent tx htx _ hvote).2.1
      rw [hr, hfar] at hnear
      cases hnear
    · cases hxop
  · split at hop
    · rename_i hflush
      rw [block_reads hc hreads hcounting hevent hflush] at hop
      -- an event of the round is read, so the round is not far
      have hnear : ∀ evs : Nat → Nat, (evs s.cursor ≠ 0 →
          s.obs.tooFar (s.obs.factory.roundAt (chain s.cursor).timestamp) = false) →
          eventsOf s.obs.factory chain r (logsIn evs s.scanLo (s.cursor + 1)) = 0 := by
        intro evs hown
        refine eventsOf_eq_zero.mpr fun n hn hr => ?_
        obtain ⟨hlo, hhi, hne⟩ := mem_logsIn.mp hn
        by_cases hlast : n = s.cursor
        · rw [hlast] at hne hr
          have hnot := hown hne
          rw [show s.obs.factory.roundAt (chain s.cursor).timestamp = r from hr, hfar] at hnot
          cases hnot
        · have hnot := hc.near hf (hc.range.1.trans hlo) (show n < s.cursor by omega)
          rw [hr, hfar] at hnot
          cases hnot
      rw [hnear _ fun hne => hcounting.follows _ _ _ hevent hflush (.inl hne),
        hnear _ fun hne => hcounting.follows _ _ _ hevent hflush (.inr hne)] at hop
      cases hop
    · cases hop

omit [Messaging] in
theorem not_due_of_open {st : ObserverState} (hopen : st.closed r = false) :
    ∀ last, st.lastTs = some last → st.factory.due r last = false := by
  intro last hlast
  unfold ObserverState.closed at hopen
  rwa [hlast] at hopen

/-- What a round that is open counts at the end of a block. -/
theorem gathered_tallied {fdcLogs fuLogs : Option (List Nat)} (hf : setup.factory.Lawful)
    (hc : Counted cfg setup chain events first s)
    (hreads : ReadsChain events s h) (hcounting : Counting cfg chain events s h)
    (hevent : h.event = .block (chain s.cursor) fdcLogs fuLogs)
    (hopen : s.obs.closed r = false)
    (hfirst : s.obs.lastTs = none → s.obs.factory.due r (chain s.cursor).timestamp = false) :
    Tallied cfg setup chain events first (if s.flushes then s.cursor + 1 else s.scanLo)
      (s.cursor + 1) r
      (countsOf ((s.gathered cfg (chain s.cursor) fdcLogs fuLogs).rounds.get? r)) := by
  have hfactory : s.obs.factory = setup.factory := congrArg ObserverSetup.factory hc.given
  have hlawful : s.obs.factory.Lawful := by rwa [hfactory]
  have hfar : s.obs.tooFar r = false ∨ ∀ op ∈ ObserverState.opsFor r
      (s.blockOps cfg (chain s.cursor) fdcLogs fuLogs), op.counted = false := by
    cases hr : s.obs.tooFar r with
    | false => exact .inl rfl
    | true => exact .inr fun op => far_uncounted hf hc hreads hcounting hevent hr
  rw [gathered_get? hlawful hc.ahead (hcounting.near _ _ _ hevent) (not_due_of_open hopen) hfirst,
    countsOf_foldl hfar]
  obtain ⟨hrequests, hupdates, hbitvote, hgap⟩ := hc.counts r hopen
  obtain ⟨htxReq, htxUpd, htxVote⟩ := @add_txOps _ cfg s (chain s.cursor).timestamp r
    (chain s.cursor) (countsOf (s.obs.rounds.get? r))
    fun tx htx hvote => (hcounting.votes _ _ _ hevent tx htx r hvote).1
  have hvoted := @voted_succ _ cfg setup chain r first s.cursor (hc.range.1.trans hc.range.2)
  rw [← hc.given] at hvoted hbitvote ⊢
  unfold EngineState.blockOps
  rw [ObserverState.opsFor_append, add_append]
  by_cases hflush : s.flushes = true
  · rw [if_pos hflush, if_pos hflush, block_reads hc hreads hcounting hevent hflush, add_events]
    have hsplit : ∀ evs, eventsOf s.obs.factory chain r (logsIn evs first s.scanLo) +
        eventsOf s.obs.factory chain r (logsIn evs s.scanLo (s.cursor + 1)) =
          eventsOf s.obs.factory chain r (logsIn evs first (s.cursor + 1)) := fun evs =>
      eventsOf_logsIn hc.range.1 (hc.range.2.trans (Nat.le_succ _))
    refine ⟨?_, ?_, ?_, hgap⟩
    · rw [htxReq, hrequests, ← hfactory, hsplit]
    · rw [htxUpd, hupdates, ← hfactory, hsplit]
    · rw [hvoted, ← hbitvote]
      exact htxVote
  · rw [if_neg hflush, if_neg hflush, show ObserverState.opsFor r [] = [] from rfl, add_nil]
    refine ⟨?_, ?_, ?_, hgap⟩
    · exact htxReq.trans (hrequests.trans (by rw [hfactory]))
    · exact htxUpd.trans (hupdates.trans (by rw [hfactory]))
    · rw [hvoted, ← hbitvote]
      exact htxVote

/-! ## Steps -/

/-- What is read in a pause. -/
theorem pause_reads {a : PauseAnswers} (hc : Counted cfg setup chain events first s)
    (hreads : ReadsChain events s h) (hcounting : Counting cfg chain events s h)
    (hevent : h.event = .pause a) (hflush : s.scanLo < s.cursor) :
    ObserverState.opsFor r (s.flushOps cfg s.tsMap a.fdcLogs a.fuLogs) =
      List.replicate (eventsOf s.obs.factory chain r
        (logsIn events.requests s.scanLo s.cursor)) .fdcRequest ++
      List.replicate (eventsOf s.obs.factory chain r
        (logsIn events.updates s.scanLo s.cursor)) .fastUpdate := by
  have hrange : s.readRange h.event = some (s.scanLo, s.cursor) := by
    rw [hevent]
    exact if_pos hflush
  have hread := hreads _ _ hrange
  have hall := hcounting.reads _ _ hrange
  rw [hevent] at hread hall
  exact opsFor_flushOps (fun n hlo hhi => hc.times n hlo hhi) hread hall

omit [Messaging] in
theorem noneWaits_iff : NoneWaits chain events s r ↔
    eventsOf s.obs.factory chain r (logsIn events.requests s.scanLo s.cursor) = 0 ∧
      eventsOf s.obs.factory chain r (logsIn events.updates s.scanLo s.cursor) = 0 := by
  rw [eventsOf_eq_zero, eventsOf_eq_zero]
  simp only [NoneWaits, List.mem_append, or_imp, forall_and]

omit [Messaging] in
/-- Nothing waits where everything is read. -/
theorem noneWaits_of_read (hread : s.scanLo = s.cursor) : NoneWaits chain events s r := by
  rw [noneWaits_iff, hread, logsIn_self, logsIn_self]
  exact ⟨rfl, rfl⟩

omit [Messaging] in
/-- A round that is not in flight does not come to be by writes into others. -/
theorem performAll_none {st : ObserverState} {ops : List (Int × RoundOp)}
    (hops : ObserverState.opsFor r ops = []) (h : st.rounds.get? r = none) :
    (st.performAll ops).rounds.get? r = none := by
  induction ops generalizing st with
  | nil => exact h
  | cons x ops ih =>
    unfold ObserverState.opsFor at hops ih
    by_cases hr : x.1 = r
    · simp [hr] at hops
    · rw [ObserverState.performAll_cons]
      refine ih (by simpa [hr] using hops) ?_
      rcases @ObserverState.perform_cases st x.1 r x.2 with hnone | hsame | ⟨heq, -⟩
      · exact hnone
      · rw [hsame, h]
      · exact absurd heq hr

/-- What a round that is open counts after a pause. -/
theorem flushed_tallied {a : PauseAnswers} (hf : setup.factory.Lawful)
    (hc : Counted cfg setup chain events first s) (hreads : ReadsChain events s h)
    (hcounting : Counting cfg chain events s h) (hevent : h.event = .pause a)
    (hopen : s.obs.closed r = false) :
    Tallied cfg setup chain events first s.cursor s.cursor r
      (countsOf ((s.flushTrailing cfg a).obs.rounds.get? r)) := by
  have hfactory : s.obs.factory = setup.factory := congrArg ObserverSetup.factory hc.given
  obtain ⟨hrequests, hupdates, hbitvote, hgap⟩ := hc.counts r hopen
  by_cases hflush : s.scanLo < s.cursor
  · have hfar : s.obs.tooFar r = false ∨ ∀ op ∈ ObserverState.opsFor r
        (s.flushOps cfg s.tsMap a.fdcLogs a.fuLogs), op.counted = false := by
      cases hr : s.obs.tooFar r with
      | false => exact .inl rfl
      | true =>
        refine .inr fun op hop => ?_
        have hnone : ∀ evs, eventsOf s.obs.factory chain r (logsIn evs s.scanLo s.cursor) = 0 := by
          intro evs
          refine eventsOf_eq_zero.mpr fun n hn hround => ?_
          obtain ⟨hlo, hhi, -⟩ := mem_logsIn.mp hn
          have hnear := hc.near hf (hc.range.1.trans hlo) hhi
          rw [hround, hr] at hnear
          cases hnear
        rw [pause_reads hc hreads hcounting hevent hflush, hnone, hnone] at hop
        cases hop
    have hlawful : s.obs.factory.Lawful := by rwa [hfactory]
    rw [flushed_get? hlawful hc.ahead (not_due_of_open hopen) hflush, countsOf_foldl hfar,
      pause_reads hc hreads hcounting hevent hflush, add_events]
    refine ⟨?_, ?_, hbitvote, hgap⟩
    · rw [hrequests, hfactory, eventsOf_logsIn hc.range.1 hflush.le]
    · rw [hupdates, hfactory, eventsOf_logsIn hc.range.1 hflush.le]
  · have hread : s.scanLo = s.cursor := le_antisymm hc.range.2 (not_lt.mp hflush)
    unfold EngineState.flushTrailing
    rw [if_neg hflush, ← hread]
    exact ⟨hrequests, hupdates, hread ▸ hbitvote, hgap⟩

theorem counted_pause {a : PauseAnswers} (hf : setup.factory.Lawful)
    (hc : Counted cfg setup chain events first s) (hreads : ReadsChain events s h)
    (hcounting : Counting cfg chain events s h) (hevent : h.event = .pause a)
    (hahead : Ahead (s.pause cfg a)) :
    Counted cfg setup chain events first (s.pause cfg a) := by
  have hkept := @EngineState.pause_kept cfg s a
  have hgiven : (s.pause cfg a).obs.toObserverSetup = setup :=
    (hkept.setup.trans EngineState.flushTrailing_setup).trans hc.given
  have hlast : (s.pause cfg a).obs.lastTs = s.obs.lastTs :=
    hkept.lastTs.trans EngineState.flushTrailing_lastTs
  have hscan : (s.pause cfg a).scanLo = s.cursor := by
    rw [EngineState.pause_scanLo]
    have := hc.range.2
    split <;> omega
  have hcursor := @EngineState.pause_cursor cfg s a
  have hfactory : s.obs.factory = setup.factory := congrArg ObserverSetup.factory hc.given
  refine ⟨hgiven, hahead, ?_, ?_, ?_, ?_, ?_⟩
  · rw [hscan, hcursor]
    exact ⟨hc.range.1.trans hc.range.2, le_rfl⟩
  · intro n hlo hhi
    rw [hscan] at hlo
    rw [hcursor] at hhi
    omega
  · intro n hlo hhi
    rw [hcursor] at hhi
    rw [hlast]
    exact hc.past n hlo hhi
  · intro r hopen
    rw [pause_closed] at hopen
    rw [hscan, hcursor, hkept.rounds]
    exact flushed_tallied hf hc hreads hcounting hevent hopen
  · intro r hclosed
    rw [pause_closed] at hclosed
    obtain ⟨hnone, hwaits⟩ := hc.closed r hclosed
    refine ⟨?_, noneWaits_of_read (hscan.trans hcursor.symm)⟩
    rw [hkept.rounds]
    unfold EngineState.flushTrailing
    split
    · rename_i hflush
      refine performAll_none ?_ hnone
      rw [pause_reads hc hreads hcounting hevent hflush, (noneWaits_iff.mp hwaits).1,
        (noneWaits_iff.mp hwaits).2]
      rfl
    · exact hnone

omit [Messaging] in
/-- A block lies in a round that its time does not close. -/
theorem roundOf_ne_of_due {f : VotingFactory} (hf : f.Lawful) {n : Nat} {t : Int}
    (ht : t ≤ (chain n).timestamp) (hdue : f.due r t = true) : roundOf f chain n ≠ r := by
  rintro rfl
  have hopen := VotingFactory.open_of_le ht (@VotingFactory.Lawful.open_roundAt f hf _)
  unfold roundOf at hdue
  rw [hopen] at hdue
  cases hdue

/-- Where the events of a block are not read with it, none waits for a round that it closes. -/
theorem Counting.ne_of_due {fdcLogs fuLogs : Option (List Nat)} (hf : s.obs.factory.Lawful)
    (hcounting : Counting cfg chain events s h)
    (hevent : h.event = .block (chain s.cursor) fdcLogs fuLogs) (hflush : s.flushes = false)
    (hdue : s.obs.factory.due r (chain s.cursor).timestamp = true) {n : Nat}
    (hn : n ∈ logsIn events.requests s.scanLo (s.cursor + 1) ++
      logsIn events.updates s.scanLo (s.cursor + 1)) : roundOf s.obs.factory chain n ≠ r := by
  by_cases hlast : n = s.cursor
  · rw [hlast]
    exact roundOf_ne_of_due hf le_rfl hdue
  · have hmem : n ∈ logsIn events.requests s.scanLo s.cursor ++
        logsIn events.updates s.scanLo s.cursor := by
      rw [List.mem_append, mem_logsIn, mem_logsIn] at hn ⊢
      exact hn.imp (fun h => ⟨h.1, by omega, h.2.2⟩) fun h => ⟨h.1, by omega, h.2.2⟩
    rintro rfl
    rw [hcounting.waits _ _ _ hevent hflush n hmem] at hdue
    cases hdue

variable [FtsoRules]

theorem counted_block {fdcLogs fuLogs : Option (List Nat)} (hf : setup.factory.Lawful)
    (hc : Counted cfg setup chain events first s) (hreads : ReadsChain events s h)
    (hcounting : Counting cfg chain events s h)
    (hevent : h.event = .block (chain s.cursor) fdcLogs fuLogs)
    (hahead : Ahead (s.block cfg (chain s.cursor) fdcLogs fuLogs).1) :
    Counted cfg setup chain events first (s.block cfg (chain s.cursor) fdcLogs fuLogs).1 := by
  have hfactory : s.obs.factory = setup.factory := congrArg ObserverSetup.factory hc.given
  have hf' : s.obs.factory.Lawful := by rwa [hfactory]
  have htime := hcounting.inTime _ _ _ hevent
  have hgiven : (s.block cfg (chain s.cursor) fdcLogs fuLogs).1.obs.toObserverSetup = setup :=
    EngineState.block_setup.trans hc.given
  have hgathered : (s.gathered cfg (chain s.cursor) fdcLogs fuLogs).factory = s.obs.factory :=
    congrArg ObserverSetup.factory EngineState.gathered_setup
  refine ⟨hgiven, hahead, ?_, ?_, ?_, ?_, ?_⟩
  · rw [EngineState.block_scanLo, EngineState.block_cursor]
    have := hc.range
    split <;> omega
  · intro n hlo hhi
    rw [EngineState.block_scanLo] at hlo
    rw [EngineState.block_cursor] at hhi
    rw [EngineState.block_tsMap]
    by_cases hflush : s.flushes = true
    · rw [if_pos hflush] at hlo
      omega
    · rw [if_neg hflush] at hlo
      rw [if_neg hflush]
      exact hc.block_times hlo hhi
  · intro n hlo hhi
    rw [EngineState.block_cursor] at hhi
    rw [EngineState.block_lastTs]
    refine ⟨_, rfl, ?_⟩
    by_cases hn : n = s.cursor
    · rw [hn]
    · obtain ⟨last, hlast, hle⟩ := hc.past n hlo (by omega)
      exact hle.trans (htime last hlast)
  · intro r hopen
    rw [block_closed] at hopen
    have hbefore : s.obs.closed r = false := by
      by_contra hclosed
      rw [due_of_closed (by simpa using hclosed) htime] at hopen
      cases hopen
    rw [EngineState.block_scanLo, EngineState.block_cursor, EngineState.block_obs,
      ObserverState.sweep_swept.rounds, hgathered,
      if_neg (show ¬ s.obs.factory.due r (chain s.cursor).timestamp = true by simp [hopen])]
    exact gathered_tallied hf hc hreads hcounting hevent hbefore fun _ => hopen
  · intro r hclosed
    rw [block_closed] at hclosed
    refine ⟨?_, ?_⟩
    · rw [EngineState.block_obs, ObserverState.sweep_swept.rounds, hgathered, if_pos hclosed]
    · by_cases hflush : s.flushes = true
      · refine noneWaits_of_read ?_
        rw [EngineState.block_scanLo, EngineState.block_cursor, if_pos hflush]
      · intro n hn
        rw [EngineState.block_scanLo, EngineState.block_cursor, if_neg hflush] at hn
        rw [congrArg ObserverSetup.factory hgiven, ← hfactory]
        exact hcounting.ne_of_due hf' hevent (by simpa using hflush) hclosed hn

/-! ## Records -/

omit [Messaging] [FtsoRules] in
theorem bit_eq_one {b : Bool} : bit b = 1 ↔ b = true := by
  cases b <;> simp [bit]

/-- What a record shows of the counts of its round. -/
theorem recorded_counts {blk : Block} {fdcLogs fuLogs : Option (List Nat)} {rec : RoundRecord}
    (hrec : rec ∈ recordedIn (s.block cfg blk fdcLogs fuLogs).2) :
    rec.rid ∉ s.mincondRecs.keys ∧ s.obs.factory.due rec.rid blk.timestamp = true ∧
    ∃ c, c = countsOf ((s.gathered cfg blk fdcLogs fuLogs).rounds.get? rec.rid) ∧
      (s.gathered cfg blk fdcLogs fuLogs).rounds.get? rec.rid ≠ none ∧
      (rec.fexp = 1 ↔ 0 < c.requests) ∧ rec.fu = c.updates ∧
      (rec.fok = 1 ↔ 0 < c.requests ∧ c.bitvote = true ∧ c.gap = false) := by
  obtain ⟨-, hnew, hdue, -, raw, rs, u, hraw, ⟨_, _, _, hjudged⟩, rfl⟩ := recorded_judged hrec
  have hexp : rs.fdcExpected = decide (0 < raw.fdcRequestCount) := by
    rw [hjudged]
    rfl
  have hok : (rs.fdcExpected && rs.fdcBitvoteSeen && !rs.fdcGap) =
      (decide (0 < raw.fdcRequestCount) && raw.fdcBitvoteSeen &&
        !(raw.fdcGap || (decide (0 < raw.fdcRequestCount) && !raw.fdcBitvoteSeen))) := by
    rw [hjudged]
    rfl
  refine ⟨hnew, hdue, raw.counts, (congrArg countsOf hraw).symm, ?_, ?_, ?_, ?_⟩
  · exact fun hnone => Option.some_ne_none _ (hraw.symm.trans hnone)
  · show bit rs.fdcExpected = 1 ↔ 0 < raw.fdcRequestCount
    rw [hexp, bit_eq_one, decide_eq_true_iff]
  · show rs.fuCount = raw.fuCount
    rw [hjudged]
    rfl
  · show bit (rs.fdcExpected && rs.fdcBitvoteSeen && !rs.fdcGap) = 1 ↔
      0 < raw.fdcRequestCount ∧ raw.fdcBitvoteSeen = true ∧ raw.fdcGap = false
    rw [hok, bit_eq_one]
    cases raw.fdcBitvoteSeen <;> simp

omit [FtsoRules] in
/-- A closed round that a block finds in flight was written to by a transaction. -/
theorem closed_written {fdcLogs fuLogs : Option (List Nat)} (hf : setup.factory.Lawful)
    (hc : Counted cfg setup chain events first s) (hreads : ReadsChain events s h)
    (hcounting : Counting cfg chain events s h)
    (hevent : h.event = .block (chain s.cursor) fdcLogs fuLogs) (hclosed : s.obs.closed r = true)
    (hflight : (s.gathered cfg (chain s.cursor) fdcLogs fuLogs).rounds.get? r ≠ none) :
    ∃ x ∈ (chain s.cursor).transactions.flatMap (s.txOps cfg (chain s.cursor).timestamp),
      x.1 = r := by
  have hfactory : s.obs.factory = setup.factory := congrArg ObserverSetup.factory hc.given
  obtain ⟨hnone, hwaits⟩ := hc.closed r hclosed
  have hdue := due_of_closed hclosed (hcounting.inTime _ _ _ hevent)
  by_contra hunwritten
  refine hflight (performAll_none ?_ hnone)
  unfold EngineState.blockOps
  rw [ObserverState.opsFor_append, List.append_eq_nil_iff]
  constructor
  · refine List.filterMap_eq_nil_iff.mpr fun x hx => ?_
    rw [if_neg fun hr => hunwritten ⟨x, hx, hr⟩]
  · by_cases hflush : s.flushes = true
    · have hlast : roundOf s.obs.factory chain s.cursor ≠ r :=
        roundOf_ne_of_due (by rwa [hfactory]) le_rfl hdue
      have hzero : ∀ evs, eventsOf s.obs.factory chain r (logsIn evs s.scanLo s.cursor) = 0 →
          eventsOf s.obs.factory chain r (logsIn evs s.scanLo (s.cursor + 1)) = 0 := by
        intro evs hevs
        rw [eventsOf_eq_zero] at hevs ⊢
        intro n hn
        obtain ⟨hlo, hhi, hne⟩ := mem_logsIn.mp hn
        by_cases hcursor : n = s.cursor
        · rwa [hcursor]
        · exact hevs n (mem_logsIn.mpr ⟨hlo, by omega, hne⟩)
      obtain ⟨hrequests, hupdates⟩ := noneWaits_iff.mp hwaits
      rw [if_pos hflush, block_reads hc hreads hcounting hevent hflush, hzero _ hrequests,
        hzero _ hupdates]
      rfl
    · rw [if_neg hflush]
      rfl

omit [FtsoRules] in
/-- The first block finds no event of a round that it closes. -/
theorem first_noEvents {fdcLogs fuLogs : Option (List Nat)}
    (hc : Counted cfg setup chain events first s) (hlast : s.obs.lastTs = none) :
    (countsOf ((s.gathered cfg (chain s.cursor) fdcLogs fuLogs).rounds.get? r)).requests = 0 ∧
      (countsOf ((s.gathered cfg (chain s.cursor) fdcLogs fuLogs).rounds.get? r)).updates = 0 := by
  obtain ⟨hempty, hscan⟩ := hc.ahead.before hlast
  have hflush : ¬ s.flushes = true := by
    simp only [EngineState.flushes, hscan, decide_eq_true_eq]
    omega
  refine ObserverState.performAll_noEvents (fun x hx => ?_) ?_
  · unfold EngineState.blockOps at hx
    rw [if_neg hflush, List.append_nil] at hx
    obtain ⟨tx, -, hx⟩ := List.mem_flatMap.mp hx
    constructor
    · intro hop
      have hvote := (txOps_counted hx (by rw [hop]; rfl)).1
      rw [hop] at hvote
      cases hvote
    · intro hop
      have hvote := (txOps_counted hx (by rw [hop]; rfl)).1
      rw [hop] at hvote
      cases hvote
  · rw [hempty]
    exact ⟨rfl, rfl⟩

/-- The record of a round that a block closes is exact. -/
theorem recorded_exact {fdcLogs fuLogs : Option (List Nat)} {rec : RoundRecord}
    (hf : setup.factory.Lawful) (hc : Counted cfg setup chain events first s)
    (hreads : ReadsChain events s h) (hcounting : Counting cfg chain events s h)
    (hevent : h.event = .block (chain s.cursor) fdcLogs fuLogs)
    (hrec : rec ∈ recordedIn (s.block cfg (chain s.cursor) fdcLogs fuLogs).2) :
    rec.Exact cfg setup chain events first (s.cursor + 1) := by
  have hfactory : s.obs.factory = setup.factory := congrArg ObserverSetup.factory hc.given
  have hf' : s.obs.factory.Lawful := by rwa [hfactory]
  obtain ⟨hnew, hdue, c, rfl, hflight, hfexp, hfu, hfok⟩ := recorded_counts hrec
  cases hopen : s.obs.closed rec.rid with
  | true =>
    obtain ⟨x, hx, hr⟩ := closed_written hf hc hreads hcounting hevent hopen hflight
    exact absurd (hr ▸ hcounting.late _ _ _ hevent x hx (hr ▸ hopen)) hnew
  | false =>
    cases hlast : s.obs.lastTs with
    | none =>
      obtain ⟨hrequests, hupdates⟩ := @first_noEvents _ cfg setup chain events first s rec.rid
        fdcLogs fuLogs hc hlast
      have hnone : ∀ evs, ∀ n ∈ logsIn evs first (s.cursor + 1),
          roundOf setup.factory chain n ≠ rec.rid := by
        intro evs n hn
        obtain ⟨hlo, hhi, -⟩ := mem_logsIn.mp hn
        by_cases hcursor : n = s.cursor
        · rw [hcursor, ← hfactory]
          exact roundOf_ne_of_due hf' le_rfl hdue
        · obtain ⟨last, hsome, -⟩ := hc.past n hlo (by omega)
          rw [hlast] at hsome
          cases hsome
      refine ⟨?_, ?_, ?_⟩
      · rw [hfexp, hrequests]
        refine iff_of_false (lt_irrefl 0) fun hevent => ?_
        obtain ⟨n, hn, hr⟩ := hevent
        exact hnone _ n hn hr
      · rw [hfu, hupdates]
        exact (eventsOf_eq_zero.mpr (hnone _)).symm
      · rw [hfok, hfexp, hrequests]
        simp
    | some last =>
      obtain ⟨hrequests, hupdates, hbitvote, hgap⟩ :=
        gathered_tallied hf hc hreads hcounting hevent hopen fun hnone => by
          rw [hlast] at hnone
          cases hnone
      -- what the block does not read is not of the round
      have hread : ∀ evs, (∀ n ∈ logsIn evs s.scanLo (s.cursor + 1),
          n ∈ logsIn events.requests s.scanLo (s.cursor + 1) ++
            logsIn events.updates s.scanLo (s.cursor + 1)) →
          eventsOf setup.factory chain rec.rid
            (logsIn evs first (if s.flushes then s.cursor + 1 else s.scanLo)) =
          eventsOf setup.factory chain rec.rid (logsIn evs first (s.cursor + 1)) := by
        intro evs hevs
        by_cases hflush : s.flushes = true
        · rw [if_pos hflush]
        · have hrest : eventsOf setup.factory chain rec.rid
              (logsIn evs s.scanLo (s.cursor + 1)) = 0 := by
            rw [← hfactory]
            exact eventsOf_eq_zero.mpr fun n hn =>
              hcounting.ne_of_due hf' hevent (by simpa using hflush) hdue (hevs n hn)
          have hsplit := @eventsOf_logsIn evs first s.scanLo (s.cursor + 1) setup.factory chain
            rec.rid hc.range.1 (hc.range.2.trans (Nat.le_succ _))
          rw [if_neg hflush]
          omega
      rw [hread _ fun n hn => List.mem_append_left _ hn] at hrequests
      rw [hread _ fun n hn => List.mem_append_right _ hn] at hupdates
      refine ⟨?_, hfu.trans hupdates, ?_⟩
      · rw [hfexp, hrequests, eventsOf_pos]
      · rw [hfok, hfexp, hbitvote, hgap]
        simp

omit [FtsoRules] in
/-- A block that is not of the round, and has no vote for it, changes nothing. -/
theorem RoundRecord.Exact.succ {rec : RoundRecord} {hi : Nat}
    (hexact : rec.Exact cfg setup chain events first hi) (hle : first ≤ hi)
    (hround : roundOf setup.factory chain hi ≠ rec.rid)
    (hvote : ∀ tx ∈ (chain hi).transactions, fdcVoteOf cfg setup tx ≠ some rec.rid) :
    rec.Exact cfg setup chain events first (hi + 1) := by
  have hsame : ∀ evs, eventsOf setup.factory chain rec.rid (logsIn evs first (hi + 1)) =
      eventsOf setup.factory chain rec.rid (logsIn evs first hi) := by
    intro evs
    have hsplit := @eventsOf_logsIn evs first hi (hi + 1) setup.factory chain rec.rid hle
      (Nat.le_succ hi)
    have hlast : eventsOf setup.factory chain rec.rid (logsIn evs hi (hi + 1)) = 0 := by
      refine eventsOf_eq_zero.mpr fun n hn => ?_
      obtain ⟨hlo, hhi, -⟩ := mem_logsIn.mp hn
      obtain rfl : n = hi := by omega
      exact hround
    omega
  obtain ⟨hfexp, hfu, hfok⟩ := hexact
  refine ⟨?_, ?_, ?_⟩
  · rw [hfexp, ← eventsOf_pos, ← eventsOf_pos, hsame]
  · rw [hfu, hsame]
  · rw [hfok, voted_succ hle]
    refine and_congr_right fun _ => ⟨.inl, ?_⟩
    rintro (hvoted | ⟨tx, htx, htxVote⟩)
    · exact hvoted
    · exact absurd htxVote (hvote tx htx)

/-- What a step keeps of what is known, and of the records. -/
theorem exact_step (hf : setup.factory.Lawful) (hc : Counted cfg setup chain events first s)
    (hstep : EventStep cfg chain events s h s') (hcounting : Counting cfg chain events s h) :
    Counted cfg setup chain events first s' ∧
    (∀ rec : RoundRecord, s.obs.closed rec.rid = true →
      rec.Exact cfg setup chain events first s.cursor →
        s'.obs.closed rec.rid = true ∧ rec.Exact cfg setup chain events first s'.cursor) ∧
    ∀ rec ∈ recordedIn h.notices,
      s'.obs.closed rec.rid = true ∧ rec.Exact cfg setup chain events first s'.cursor := by
  have hfactory : s.obs.factory = setup.factory := congrArg ObserverSetup.factory hc.given
  have hf' : s.obs.factory.Lawful := by rwa [hfactory]
  obtain ⟨hengine, hchain, hreads⟩ := hstep
  have hahead : Ahead s' :=
    ahead_step hf' hc.ahead ⟨hcounting.inTime, hengine⟩ hcounting.near
  rcases hengine.cases with ⟨head, -, rfl, hn⟩ | ⟨blk, fdcLogs, fuLogs, hevent, rfl, hn⟩ |
    ⟨a, hevent, rfl, hn⟩
  · rw [hn]
    cases head with
    | none => exact ⟨⟨hc.given, hahead, hc.range, hc.times, hc.past, hc.counts, hc.closed⟩,
        fun rec hclosed hexact => ⟨hclosed, hexact⟩, fun rec hrec => (by cases hrec)⟩
    | some head => exact ⟨⟨hc.given, hahead, hc.range, hc.times, hc.past, hc.counts, hc.closed⟩,
        fun rec hclosed hexact => ⟨hclosed, hexact⟩, fun rec hrec => (by cases hrec)⟩
  · obtain rfl := hchain _ _ _ hevent
    refine ⟨counted_block hf hc hreads hcounting hevent hahead, fun rec hclosed hexact => ?_,
      fun rec hrec => ?_⟩
    · have hdue := due_of_closed hclosed (hcounting.inTime _ _ _ hevent)
      rw [block_closed, EngineState.block_cursor]
      refine ⟨hdue, hexact.succ (hc.range.1.trans hc.range.2) ?_ fun tx htx hvote => ?_⟩
      · rw [← hfactory]
        exact roundOf_ne_of_due hf' le_rfl hdue
      · rw [← hc.given] at hvote
        rw [(hcounting.votes _ _ _ hevent tx htx _ hvote).2.2] at hclosed
        cases hclosed
    · rw [hn] at hrec
      rw [block_closed, EngineState.block_cursor]
      exact ⟨(recorded_counts hrec).2.1, recorded_exact hf hc hreads hcounting hevent hrec⟩
  · rw [hn]
    refine ⟨counted_pause hf hc hreads hcounting hevent hahead, fun rec hclosed hexact => ?_,
      fun rec hrec => (by cases hrec)⟩
    rw [pause_closed, EngineState.pause_cursor]
    exact ⟨hclosed, hexact⟩

/-- Where every step counts what the chain has for the rounds that are open, each record shows the
events of its round and AP's vote, and no event is still to come for it. -/
theorem ledger_exact {file : List RoundRecord} {tallies : List IqrTally} {a : PauseAnswers}
    {hs : List Happening} (hf : setup.factory.Lawful)
    (hrun : Effect.Run (fun s h s' => EventStep cfg chain events s h s' ∧
      Counting cfg chain events s h) (EngineState.start cfg setup first file tallies a) hs s) :
    ∀ rec ∈ recordedIn (noticesOf hs),
      rec.Exact cfg setup chain events first s.cursor ∧ NoneWaits chain events s rec.rid := by
  have hinv : Counted cfg setup chain events first s ∧ ∀ rec ∈ recordedIn (noticesOf hs),
      s.obs.closed rec.rid = true ∧ rec.Exact cfg setup chain events first s.cursor := by
    induction hrun with
    | nil => exact ⟨counted_start, fun rec hrec => (by cases hrec)⟩
    | snoc _ hstep ih =>
      obtain ⟨hc, hrecs⟩ := ih
      obtain ⟨hc', hold, hnew⟩ := exact_step hf hc hstep.1 hstep.2
      refine ⟨hc', fun rec hrec => ?_⟩
      rw [noticesOf_concat, recordedIn_append] at hrec
      rcases List.mem_append.mp hrec with hrec | hrec
      · obtain ⟨hclosed, hexact⟩ := hrecs rec hrec
        exact hold rec hclosed hexact
      · exact hnew rec hrec
  intro rec hrec
  obtain ⟨hclosed, hexact⟩ := hinv.2 rec hrec
  exact ⟨hexact, (hinv.1.closed _ hclosed).2⟩

end

/-! ## A read that fails -/

section

variable [FtsoRules] [Messaging] {cfg : EngineConfig} {chain : Nat → Block} {events : ChainEvents}

/-- A run over the chain from its events, of which each meets `Q`. -/
theorem eventRun_of_allowed {Q : EngineState → Happening → Prop} {es : List EngineEvent}
    {s : EngineState} (hes : allowedAll cfg s es = true)
    (hQ : EachEvent cfg (fun s h => ShowsEvents chain events s h ∧ Q s h) s es) :
    Effect.Run (fun s h s' => EventStep cfg chain events s h s' ∧ Q s h) s
      (happenings cfg s es) (after cfg s es) := by
  induction es generalizing s with
  | nil => exact .nil
  | cons e es ih =>
    simp only [allowedAll, Bool.and_eq_true] at hes
    obtain ⟨⟨hshows, hQ⟩, hrest⟩ := hQ
    exact .cons ⟨⟨⟨enabled_of_allowed hes.1, rfl⟩, hshows⟩, hQ⟩ (ih hes.2 hrest)

end

/-- The parsers, on a reveal for the round 0 with a bitvote for it. -/
@[reducible] def voteMessages : Messaging :=
  { sampleMessages with parseSubmit2Tx := fun _ => some ⟨some ⟨0, [some 1]⟩, some ⟨0, "1", 1⟩⟩ }

/-- A block of the round 0, one with AP's vote, and one that closes the round. -/
def votedChain : Nat → Block
  | 0 | 1 => ⟨10, []⟩
  | 2 => ⟨100, [sampleTx "0x9d00c9fd"]⟩
  | _ + 3 => ⟨300, []⟩

/-- The block 1 has a request and a fast update. -/
def oneEach : ChainEvents where
  requests n := if n = 1 then 1 else 0
  updates n := if n = 1 then 1 else 0

/-- The events of the block 1 are read in a pause; `fdcLogs` is the answer to the first read. -/
def readEvents (fdcLogs : Option (List Nat)) : List EngineEvent :=
  [.poll (some 1), .block (votedChain 1) none none,
    .pause { noAnswers with fdcLogs := fdcLogs, fuLogs := some [1] },
    .poll (some 3), .block (votedChain 2) none none, .block (votedChain 3) none none]

section

variable {s : EngineState} {notices : List Notice}

theorem voted_poll {head : Option Nat} :
    ShowsEvents votedChain oneEach s ⟨.poll head, notices⟩ :=
  ⟨fun _ _ _ hevent => (by cases hevent), fun _ _ hrange => (by cases hrange)⟩

/-- A block whose events are not read with it. -/
theorem voted_block {n : Nat} (hn : s.cursor = n) (hflush : s.flushes = false) :
    ShowsEvents votedChain oneEach s ⟨.block (votedChain n) none none, notices⟩ := by
  refine ⟨fun blk fdcLogs fuLogs hevent => ?_, fun lo hi hrange => ?_⟩
  · cases hevent
    rw [hn]
  · unfold EngineState.readRange at hrange
    rw [hflush] at hrange
    cases hrange

/-- The pause after the block 1. -/
theorem voted_pause {fdcLogs : Option (List Nat)} (hscan : s.scanLo = 1) (hcursor : s.cursor = 2)
    (hlogs : ∀ l, fdcLogs = some l → l = [1]) : ShowsEvents votedChain oneEach s
      ⟨.pause { noAnswers with fdcLogs := fdcLogs, fuLogs := some [1] }, notices⟩ := by
  have hall : logsIn oneEach.requests 1 2 = [1] ∧ logsIn oneEach.updates 1 2 = [1] := by
    decide +kernel
  refine ⟨fun _ _ _ hevent => (by cases hevent), fun lo hi hrange => ?_⟩
  unfold EngineState.readRange at hrange
  rw [hscan, hcursor] at hrange
  cases hrange
  rw [hall.1, hall.2]
  refine ⟨fun l hl => ?_, fun l hl => ?_⟩
  · rw [hlogs l hl]
  · cases hl
    exact .refl _

end

theorem failedRead_shown :
    let _ := sampleRules
    let _ := voteMessages
    allowedAll sampleConfig sampleStart (readEvents none) = true ∧
      (recordedIn (noticesOf (happenings sampleConfig sampleStart (readEvents none)))).any
        (fun rec => rec.rid = 0 ∧ rec.fexp = 0 ∧ rec.fok = 0) = true := by
  decide +kernel

/-- The read of the requests fails: the record of the round 0 shows none. -/
theorem failedRead_uncounted :
    let _ := sampleRules
    let _ := voteMessages
    sampleSetup.factory.Lawful ∧
    ∃ hs s, Effect.Run (EventStep sampleConfig votedChain oneEach) sampleStart hs s ∧
      (∃ n ∈ logsIn oneEach.requests 1 s.cursor, roundOf sampleSetup.factory votedChain n = 0) ∧
      ∃ rec ∈ recordedIn (noticesOf hs), rec.rid = 0 ∧ rec.fexp = 0 ∧ rec.fok = 0 := by
  intro _ _
  have hall : EachEvent sampleConfig (fun s h => ShowsEvents votedChain oneEach s h ∧ True)
      sampleStart (readEvents none) := by
    have hlogs : ∀ l, (none : Option (List Nat)) = some l → l = [1] := fun l hl => by cases hl
    refine ⟨⟨voted_poll, trivial⟩, ⟨voted_block ?_ ?_, trivial⟩, ⟨voted_pause ?_ ?_ hlogs, trivial⟩,
      ⟨voted_poll, trivial⟩, ⟨voted_block ?_ ?_, trivial⟩, ⟨voted_block ?_ ?_, trivial⟩, trivial⟩
    all_goals decide +kernel
  have hrun := eventRun_of_allowed failedRead_shown.1 hall
  refine ⟨VotingFactory.grid_lawful (by decide) (by decide), _, _,
    hrun.mono fun _ _ _ h => h.1, by decide +kernel, ?_⟩
  obtain ⟨rec, hrec, hshows⟩ := List.any_eq_true.mp failedRead_shown.2
  exact ⟨rec, hrec, of_decide_eq_true hshows⟩

/-! ## A read that succeeds -/

theorem voted_shown :
    let _ := sampleRules
    let _ := voteMessages
    allowedAll sampleConfig sampleStart (readEvents (some [1])) = true ∧
      (recordedIn (noticesOf (happenings sampleConfig sampleStart (readEvents (some [1]))))).any
        (fun rec => rec.rid = 0 ∧ rec.fexp = 1 ∧ rec.fu = 1 ∧ rec.fok = 1) = true := by
  decide +kernel

/-- The conditions on a block whose events are not read with it. -/
theorem voted_counting {s : EngineState} {n : Nat} {notices : List Notice} :
    let _ := voteMessages
    s.flushes = false →
    (s.obs.lastTs.all fun last => decide (last ≤ (votedChain n).timestamp)) = true →
    (∀ x ∈ s.blockOps sampleConfig (votedChain n) none none,
      x.1 ≤ s.obs.factory.roundAt (votedChain n).timestamp + futureRoundMargin) →
    (∀ m ∈ logsIn oneEach.requests s.scanLo s.cursor ++ logsIn oneEach.updates s.scanLo s.cursor,
      s.obs.factory.due (roundOf s.obs.factory votedChain m) (votedChain n).timestamp = false) →
    ((votedChain n).transactions.all fun tx => (fdcVoteOf sampleConfig s.obs.toObserverSetup tx).all
      fun r => (decodeSubmit (tx.input.getD "0x")).isSome && !s.obs.tooFar r && !s.obs.closed r) →
    (∀ x ∈ (votedChain n).transactions.flatMap (s.txOps sampleConfig (votedChain n).timestamp),
      s.obs.closed x.1 = false) →
    Counting sampleConfig votedChain oneEach s ⟨.block (votedChain n) none none, notices⟩ := by
  intro _ hflush htime hnear hwaits hvotes hopen
  refine ⟨?_, ?_, ?_, ?_, ?_, ?_, ?_⟩
  · intro blk fdcLogs fuLogs hevent last hlast
    cases hevent
    rw [hlast] at htime
    exact of_decide_eq_true htime
  · intro blk fdcLogs fuLogs hevent _
    cases hevent
    exact hnear
  · intro lo hi hrange
    unfold EngineState.readRange at hrange
    rw [hflush] at hrange
    cases hrange
  · intro blk fdcLogs fuLogs hevent _
    cases hevent
    exact hwaits
  · intro blk fdcLogs fuLogs _ hflush'
    rw [hflush] at hflush'
    cases hflush'
  · intro blk fdcLogs fuLogs hevent tx htx r hr
    cases hevent
    have hvote := List.all_eq_true.mp hvotes tx htx
    rw [hr] at hvote
    simpa [and_assoc] using hvote
  · intro blk fdcLogs fuLogs hevent x hx hclosed
    cases hevent
    rw [hopen x hx] at hclosed
    cases hclosed

/-- The record of the round 0 shows the request, the update and the vote. -/
theorem votedRound_exact :
    let _ := sampleRules
    let _ := voteMessages
    ∃ rec ∈ recordedIn (noticesOf (happenings sampleConfig sampleStart (readEvents (some [1])))),
      rec.rid = 0 ∧ rec.fexp = 1 ∧ rec.fu = 1 ∧ rec.fok = 1 ∧
      rec.Exact sampleConfig sampleSetup votedChain oneEach 1
        (after sampleConfig sampleStart (readEvents (some [1]))).cursor := by
  intro _ _
  have hquiet : ∀ {s : EngineState} {e : EngineEvent} {notices : List Notice},
      (∀ blk fdcLogs fuLogs, e ≠ .block blk fdcLogs fuLogs) →
      (∀ lo hi, s.readRange e = some (lo, hi) → e.fdcLogs ≠ none ∧ e.fuLogs ≠ none) →
      Counting sampleConfig votedChain oneEach s ⟨e, notices⟩ := by
    intro s e notices he hreads
    refine ⟨?_, ?_, ?_, ?_, ?_, ?_, ?_⟩
    · exact fun _ _ _ hevent => absurd hevent (he _ _ _)
    · exact fun _ _ _ hevent => absurd hevent (he _ _ _)
    · intro lo hi hrange
      obtain ⟨hfdc, hfu⟩ := hreads lo hi hrange
      exact ⟨fun h => absurd h (by simpa [sampleConfig] using hfdc),
        fun h => absurd h (by simpa [sampleConfig] using hfu)⟩
    all_goals exact fun _ _ _ hevent => absurd hevent (he _ _ _)
  have hall : EachEvent sampleConfig (fun s h => ShowsEvents votedChain oneEach s h ∧
      Counting sampleConfig votedChain oneEach s h) sampleStart (readEvents (some [1])) := by
    have hlogs : ∀ l, some [1] = some l → l = [1] := fun l hl => (Option.some.inj hl).symm
    refine ⟨⟨voted_poll, hquiet (by simp) (by simp [EngineState.readRange])⟩,
      ⟨voted_block ?_ ?_, voted_counting ?_ ?_ ?_ ?_ ?_ ?_⟩,
      ⟨voted_pause ?_ ?_ hlogs,
        hquiet (by simp) (by simp [EngineEvent.fdcLogs, EngineEvent.fuLogs])⟩,
      ⟨voted_poll, hquiet (by simp) (by simp [EngineState.readRange])⟩,
      ⟨voted_block ?_ ?_, voted_counting ?_ ?_ ?_ ?_ ?_ ?_⟩,
      ⟨voted_block ?_ ?_, voted_counting ?_ ?_ ?_ ?_ ?_ ?_⟩, trivial⟩
    all_goals decide +kernel
  obtain ⟨rec, hrec, hshows⟩ := List.any_eq_true.mp voted_shown.2
  obtain ⟨hrid, hfexp, hfu, hfok⟩ := of_decide_eq_true hshows
  exact ⟨rec, hrec, hrid, hfexp, hfu, hfok,
    (ledger_exact (VotingFactory.grid_lawful (by decide) (by decide))
      (eventRun_of_allowed voted_shown.1 hall) rec hrec).1⟩

end Clif.Observe
