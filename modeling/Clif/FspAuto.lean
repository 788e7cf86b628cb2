import Clif.Cooldown

/-!
# FspAuto — the legacy signing loop `clif fsp auto`

One watermark serves both message types.  `fspCycle` is one pass of the loop of `fsp_auto`;
`fspBody_moves` says once what it does: a run of moves, each of which observes the closed epochs of
a stream, skips an epoch in cooldown or signs for one.
-/

namespace Clif

open Effect

/-! ## The state of the loop -/

/-- `_OK`. -/
def okStatuses : List OutcomeStatus :=
  [.nothingClaimable, .submittedMined, .submittedPending, .minedNoop, .alreadyFinalized,
    .alreadySigned]

def FspOutcome.ok (o : FspOutcome) : Bool := okStatuses.contains o.status

/-- `fsp_stream_key`. -/
def fspStreamKey (network : Network) (mt : MessageType) : String := s!"fsp:{network.str}:{mt.str}"

/-- What the loop logs. -/
inductive FspLine where
  /-- "in terminal cooldown — skipping" -/
  | skipped (mt : MessageType) (epoch : Int)
  | ok (mt : MessageType) (epoch : Int) (status : OutcomeStatus) (txHash : Option String)
  | transient (mt : MessageType) (epoch : Int) (detail : String)
  | terminal (mt : MessageType) (epoch : Int) (detail : String)
  | initialized (watermark : Int)
  | rpcFailure (msg : String)
  | fwdRetryable (msg : String)
deriving DecidableEq

/-- The locals of `fsp_auto`, with what it logged so far. -/
structure FspAuto where
  watermark : Option Int
  auto : AutoState := {}
  log : List FspLine := []

namespace FspAuto

/-- An epoch in cooldown: the attempt is recorded as one. -/
def skip (net : Network) (now : ℚ) (mt : MessageType) (epoch : Int) (u : FspAuto) : FspAuto :=
  { u with
    auto := u.auto.recordAttempt (fspStreamKey net mt) now "terminal-cooldown"
    log := u.log ++ [.skipped mt epoch] }

/-- What follows the outcome of a signer. -/
def record (net : Network) (now : ℚ) (cooldown : Int) (mt : MessageType) (epoch : Int)
    (o : FspOutcome) (u : FspAuto) : FspAuto :=
  let auto := u.auto.recordAttempt (fspStreamKey net mt) now o.status.value
  if o.ok then
    { watermark := some (epoch + 1), auto := auto,
      log := u.log ++ [.ok mt epoch o.status o.txHash] }
  else if o.status = .failedRetryable then
    { u with auto := auto, log := u.log ++ [.transient mt epoch o.detail] }
  else if o.status = .failedTerminal then
    { watermark := some (epoch + 1)
      auto := auto.recordTerminal (fspStreamKey net mt) epoch now cooldown
      log := u.log ++ [.terminal mt epoch o.detail] }
  else { u with auto := auto }

/-- A watermark that could not be read at the start is the first current epoch read. -/
def initMark (current : Int) (u : FspAuto) : FspAuto :=
  match u.watermark with
  | some _ => u
  | none => { u with watermark := some current, log := u.log ++ [.initialized current] }

def observe (net : Network) (now : ℚ) (closed : List Int) (mt : MessageType) (u : FspAuto) :
    FspAuto :=
  { u with auto := u.auto.observe (fspStreamKey net mt) closed now }

end FspAuto

/-- `build_fsp_report`. -/
def buildFspReport : AutoState → Network → Int → Int → ℚ → StateReport :=
  stateReport "pending_epochs"

/-! ## One pass of the loop -/

section

variable (sign : MessageType → Int → Py FspOutcome) (net : Network) (now : ℚ) (cooldown : Int)

def signEpochs (mt : MessageType) : List Int → StAct sig Exc FspAuto Unit
  | [] => return ()
  | epoch :: rest => do
    let u ← get
    if u.auto.inCooldown (fspStreamKey net mt) epoch now then
      modify (FspAuto.skip net now mt epoch)
      signEpochs mt rest
    else
      let o ← lift (sign mt epoch)
      modify (FspAuto.record net now cooldown mt epoch o)
      signEpochs mt rest

def signTypes (closed : List Int) : List MessageType → StAct sig Exc FspAuto Unit
  | [] => return ()
  | mt :: rest => do
    modify (FspAuto.observe net now closed mt)
    signEpochs sign net now cooldown mt closed
    signTypes closed rest

end

def messageTypes : List MessageType := [.uptime, .rewardDistribution]

section

variable [External]

/-- `(run_sign_uptime if mt == "UPTIME" else run_sign_rewards)(s, epoch, wait=True, rpc=rpc)`. -/
def fspSign (s : Settings) : MessageType → Int → Py FspOutcome
  | .uptime, epoch => runSignUptime s epoch true 600 none true
  | .rewardDistribution, epoch => runSignRewards s epoch true 600 none true

/-- The body of the `try` of the loop. -/
def fspBody (s : Settings) (now : ℚ) : StAct sig Exc FspAuto Unit := do
  let current ← lift (rpc (.currentRewardEpochId s.net.flareSystemsManager))
  modify (FspAuto.initMark current)
  let u ← get
  signTypes (fspSign s) s.network now s.fspTerminalCooldownSec
    (pyRange (u.watermark.getD current) current) messageTypes

/-- Build the report; the evaluation prunes the cooldowns that expired. -/
def fspReport (s : Settings) (interval : Int) (reportNow : ℚ) : StAct sig Exc FspAuto StateReport := do
  let u ← get
  modify fun u => { u with auto := u.auto.pruned reportNow }
  return buildFspReport u.auto s.network interval s.fspStaleAfterSec reportNow

/-- One pass of the loop up to the report. -/
def fspCycle (s : Settings) (interval : Int) (now reportNow : ℚ) :
    StAct sig Exc FspAuto StateReport := do
  match ← attemptOn (fspBody s now) with
  | .ok _ => fspReport s interval reportNow
  | .error (.rpcError msg) =>
    modify fun u => { u with log := u.log ++ [.rpcFailure msg] }
    fspReport s interval reportNow
  | .error (.fwdRetryable _ _ text) =>
    modify fun u => { u with log := u.log ++ [.fwdRetryable text] }
    fspReport s interval reportNow
  | .error e => throw e

end

/-! ## What one pass does -/

/-- The signer a trace enters, and for which epoch. -/
def Op.attempt : Op → Option (MessageType × Int)
  | .called (.runSignUptime epoch) => some (.uptime, epoch)
  | .called (.runSignRewards epoch) => some (.rewardDistribution, epoch)
  | _ => none

def attempts (t : Trace) : List (MessageType × Int) := t.filterMap fun e => e.op.attempt

@[simp] theorem attempts_nil : attempts [] = [] := rfl

@[simp] theorem attempts_append (t₁ t₂ : Trace) :
    attempts (t₁ ++ t₂) = attempts t₁ ++ attempts t₂ := List.filterMap_append ..

theorem attempt_eq_none {op : Op} (h : op.kind ≠ .entry) : op.attempt = none := by
  cases op with
  | called c => exact absurd rfl h
  | _ => rfl

inductive FspMove where
  | observe (mt : MessageType)
  | skip (mt : MessageType) (epoch : Int)
  | sign (mt : MessageType) (epoch : Int) (x : Except Exc FspOutcome)

namespace FspMove

def attempted : FspMove → Option (MessageType × Int)
  | .sign mt epoch _ => some (mt, epoch)
  | _ => none

/-- The line an outcome is logged with. -/
def outcomeLine (mt : MessageType) (epoch : Int) (o : FspOutcome) : List FspLine :=
  if o.ok then [.ok mt epoch o.status o.txHash]
  else if o.status = .failedRetryable then [.transient mt epoch o.detail]
  else if o.status = .failedTerminal then [.terminal mt epoch o.detail]
  else []

def lines : FspMove → List FspLine
  | .skip mt epoch => [.skipped mt epoch]
  | .sign mt epoch (.ok o) => outcomeLine mt epoch o
  | _ => []

end FspMove

/-- One move over the epochs `closed`. -/
inductive FspTurn (net : Network) (now : ℚ) (cooldown : Int) (closed : List Int) :
    FspAuto → FspMove → FspAuto → Prop
  | observe {u : FspAuto} {mt : MessageType} :
      FspTurn net now cooldown closed u (.observe mt) (u.observe net now closed mt)
  | skip {u : FspAuto} {mt : MessageType} {epoch : Int} (hin : epoch ∈ closed)
      (hcold : u.auto.inCooldown (fspStreamKey net mt) epoch now = true) :
      FspTurn net now cooldown closed u (.skip mt epoch) (u.skip net now mt epoch)
  | returned {u : FspAuto} {mt : MessageType} {epoch : Int} {o : FspOutcome} (hin : epoch ∈ closed)
      (hwarm : u.auto.inCooldown (fspStreamKey net mt) epoch now = false) :
      FspTurn net now cooldown closed u (.sign mt epoch (.ok o))
        (u.record net now cooldown mt epoch o)
  | raised {u : FspAuto} {mt : MessageType} {epoch : Int} {x : Exc} (hin : epoch ∈ closed)
      (hwarm : u.auto.inCooldown (fspStreamKey net mt) epoch now = false) :
      FspTurn net now cooldown closed u (.sign mt epoch (.error x)) u

/-- The pair was reached by the moves. -/
def Visited (ms : List FspMove) (p : MessageType × Int) : Prop :=
  .skip p.1 p.2 ∈ ms ∨ ∃ x, .sign p.1 p.2 x ∈ ms

theorem Visited.mono {ms ms' : List FspMove} {p : MessageType × Int} (h : Visited ms p)
    (hsub : ∀ m ∈ ms, m ∈ ms') : Visited ms' p := by
  rcases h with h | ⟨x, h⟩
  · exact .inl (hsub _ h)
  · exact .inr ⟨x, hsub _ h⟩

theorem visited_append {ms ms' : List FspMove} {p : MessageType × Int} :
    Visited (ms ++ ms') p ↔ Visited ms p ∨ Visited ms' p := by
  simp only [Visited, List.mem_append, exists_or]
  exact or_or_or_comm

theorem visited_cons {m : FspMove} {ms : List FspMove} {p : MessageType × Int} :
    Visited (m :: ms) p ↔ Visited [m] p ∨ Visited ms p :=
  @visited_append [m] _ _

theorem visited_sign {mt : MessageType} {epoch : Int} {x : Except Exc FspOutcome}
    {p : MessageType × Int} (h : Visited [.sign mt epoch x] p) : p.1 = mt := by
  rcases h with h | ⟨x', h⟩
  · cases List.mem_singleton.mp h
  · cases List.mem_singleton.mp h
    rfl

/-- The moves reach the epochs of the stream in order, up to the one whose signer raises. -/
def ReachesAll (mt : MessageType) (es : List Int) (ms : List FspMove) : Except Exc Unit → Prop
  | .ok _ => ∀ e ∈ es, Visited ms (mt, e)
  | .error x => ∃ pre e post, es = pre ++ e :: post ∧ (∀ e' ∈ pre, Visited ms (mt, e')) ∧
      ms.getLast? = some (.sign mt e (.error x))

theorem ReachesAll.cons {mt : MessageType} {epoch : Int} {es : List Int} {m : FspMove}
    {ms : List FspMove} {r : Except Exc Unit} (hm : Visited [m] (mt, epoch))
    (h : ReachesAll mt es ms r) : ReachesAll mt (epoch :: es) (m :: ms) r := by
  have hlater : ∀ {p : MessageType × Int}, Visited ms p → Visited (m :: ms) p := fun hv =>
    hv.mono fun _ hmem => List.mem_cons_of_mem _ hmem
  have hfirst : Visited (m :: ms) (mt, epoch) := hm.mono fun m' hm' => by
    rw [List.mem_singleton.mp hm']
    exact List.mem_cons_self
  cases r with
  | ok _ =>
    intro e he
    rcases List.mem_cons.mp he with rfl | he
    · exact hfirst
    · exact hlater (h e he)
  | error x =>
    obtain ⟨pre, e, post, rfl, hpre, hlast⟩ := h
    refine ⟨epoch :: pre, e, post, rfl, ?_, ?_⟩
    · intro e' he'
      rcases List.mem_cons.mp he' with rfl | he'
      · exact hfirst
      · exact hlater (hpre e' he')
    · cases ms with
      | nil => cases hlast
      | cons m' ms => rw [List.getLast?_cons_cons, hlast]

section

variable {sign : MessageType → Int → Py FspOutcome} {net : Network} {now : ℚ} {cooldown : Int}
  {closed : List Int}

/-- The epochs of one stream are reached in order, up to the one whose signer raises. -/
theorem signEpochs_moves {mt : MessageType}
    (hone : ∀ epoch t r, Runs (sign mt epoch) t r → attempts t = [(mt, epoch)]) :
    ∀ {es : List Int}, (∀ e ∈ es, e ∈ closed) → ∀ {u u' : FspAuto} {t : Trace}
      {r : Except Exc Unit}, RunsOn (signEpochs sign net now cooldown mt es) u t r u' →
      ∃ ms, Run (FspTurn net now cooldown closed) u ms u' ∧
        attempts t = ms.filterMap FspMove.attempted ∧
        (∀ p, Visited ms p → p.1 = mt) ∧ ReachesAll mt es ms r := by
  intro es
  induction es with
  | nil =>
    intro _ u u' t r h
    obtain ⟨rfl, rfl, rfl⟩ := runsOn_pure.mp h
    exact ⟨[], .nil, rfl, by simp [Visited], fun e he => by cases he⟩
  | cons epoch es ih =>
    intro hes u u' t r h
    have hin : epoch ∈ closed := hes epoch List.mem_cons_self
    have hrest : ∀ e ∈ es, e ∈ closed := fun e he => hes e (List.mem_cons_of_mem _ he)
    unfold signEpochs at h
    rw [runsOn_get_bind] at h
    split at h
    · rename_i hcold
      rw [runsOn_modify_bind] at h
      obtain ⟨ms, hms, hatts, hmt, hr⟩ := ih hrest h
      refine ⟨_, Run.cons (.skip hin hcold) hms, ?_, ?_, hr.cons (.inl List.mem_cons_self)⟩
      · rw [hatts]
        rfl
      · intro p hp
        rcases visited_cons.mp hp with hp | hp
        · simp only [Visited, List.mem_singleton, FspMove.skip.injEq, reduceCtorEq, exists_false,
            or_false] at hp
          exact hp.1
        · exact hmt p hp
    · rename_i hwarm
      have hwarm' : u.auto.inCooldown (fspStreamKey net mt) epoch now = false := by
        simpa using hwarm
      rcases runsOn_lift_bind.mp h with ⟨o, t₁, t₂, rfl, h₁, h₂⟩ | ⟨x, h₁, rfl, rfl⟩
      · rw [runsOn_modify_bind] at h₂
        obtain ⟨ms, hms, hatts, hmt, hr⟩ := ih hrest h₂
        refine ⟨_, Run.cons (.returned hin hwarm') hms, ?_, ?_,
          hr.cons (.inr ⟨_, List.mem_cons_self⟩)⟩
        · rw [attempts_append, hone _ _ _ h₁, hatts]
          rfl
        · intro p hp
          rcases visited_cons.mp hp with hp | hp
          · exact visited_sign hp
          · exact hmt p hp
      · exact ⟨_, .single (.raised hin hwarm'), hone _ _ _ h₁, fun p hp => visited_sign hp, [], epoch,
          es, rfl, by simp, rfl⟩

/-- Every stream is observed before its epochs are reached; the streams go one after the other. -/
def ReachesTypes (closed : List Int) (mts : List MessageType) (ms : List FspMove) :
    Except Exc Unit → Prop
  | .ok _ => ∀ mt ∈ mts, .observe mt ∈ ms ∧ ∀ e ∈ closed, Visited ms (mt, e)
  | .error x => ∃ pre mt post, mts = pre ++ mt :: post ∧
      (∀ mt' ∈ pre, .observe mt' ∈ ms ∧ ∀ e ∈ closed, Visited ms (mt', e)) ∧
      .observe mt ∈ ms ∧ ReachesAll mt closed ms (.error x)

theorem signTypes_moves
    (hone : ∀ mt epoch t r, Runs (sign mt epoch) t r → attempts t = [(mt, epoch)]) :
    ∀ {mts : List MessageType} {u u' : FspAuto} {t : Trace} {r : Except Exc Unit},
      RunsOn (signTypes sign net now cooldown closed mts) u t r u' →
      ∃ ms, Run (FspTurn net now cooldown closed) u ms u' ∧
        attempts t = ms.filterMap FspMove.attempted ∧
        (∀ p, Visited ms p → .observe p.1 ∈ ms) ∧ ReachesTypes closed mts ms r := by
  intro mts
  induction mts with
  | nil =>
    intro u u' t r h
    obtain ⟨rfl, rfl, rfl⟩ := runsOn_pure.mp h
    exact ⟨[], .nil, rfl, by simp [Visited], fun mt hmt => by cases hmt⟩
  | cons mt mts ih =>
    intro u u' t r h
    unfold signTypes at h
    rw [runsOn_modify_bind] at h
    rcases runsOn_bind.mp h with ⟨⟨⟩, u₁, t₁, t₂, rfl, h₁, h₂⟩ | ⟨x, h₁, rfl⟩
    · obtain ⟨ms₁, hms₁, hatt₁, hmt₁, hr₁⟩ := signEpochs_moves (hone mt) (fun _ he => he) h₁
      obtain ⟨ms₂, hms₂, hatt₂, hobs₂, hr₂⟩ := ih h₂
      have hfirst : ∀ m ∈ ms₁, m ∈ .observe mt :: (ms₁ ++ ms₂) := fun m hm =>
        List.mem_cons_of_mem _ (List.mem_append_left _ hm)
      have hlater : ∀ m ∈ ms₂, m ∈ .observe mt :: (ms₁ ++ ms₂) := fun m hm =>
        List.mem_cons_of_mem _ (List.mem_append_right _ hm)
      have hmt : .observe mt ∈ .observe mt :: (ms₁ ++ ms₂) ∧
          ∀ e ∈ closed, Visited (.observe mt :: (ms₁ ++ ms₂)) (mt, e) :=
        ⟨List.mem_cons_self, fun e he => (hr₁ e he).mono hfirst⟩
      refine ⟨.observe mt :: (ms₁ ++ ms₂), Run.cons .observe (hms₁.append hms₂), ?_, ?_, ?_⟩
      · rw [attempts_append, hatt₁, hatt₂, ← List.filterMap_append]
        rfl
      · intro p hp
        rcases visited_cons.mp hp with hp | hp
        · exact absurd hp (by simp [Visited])
        rcases visited_append.mp hp with hp | hp
        · rw [hmt₁ p hp]
          exact List.mem_cons_self
        · exact hlater _ (hobs₂ p hp)
      cases r with
      | ok _ =>
        intro mt' hmt'
        rcases List.mem_cons.mp hmt' with rfl | hmt'
        · exact hmt
        · exact ⟨hlater _ (hr₂ mt' hmt').1, fun e he => ((hr₂ mt' hmt').2 e he).mono hlater⟩
      | error x =>
        obtain ⟨pre, mt₁, post, rfl, hpre, hobs, cpre, e, cpost, hc, hcpre, hlast⟩ := hr₂
        refine ⟨mt :: pre, mt₁, post, rfl, ?_, hlater _ hobs, cpre, e, cpost, hc,
          fun e' he' => (hcpre e' he').mono hlater, ?_⟩
        · intro mt' hmt'
          rcases List.mem_cons.mp hmt' with rfl | hmt'
          · exact hmt
          · exact ⟨hlater _ (hpre mt' hmt').1, fun e he => ((hpre mt' hmt').2 e he).mono hlater⟩
        · rw [← List.cons_append, List.getLast?_append, hlast]
          rfl
    · obtain ⟨ms, hms, hatt, hmt, cpre, e, cpost, hc, hcpre, hlast⟩ :=
        signEpochs_moves (hone mt) (fun _ he => he) h₁
      have hlater : ∀ m ∈ ms, m ∈ .observe mt :: ms := fun m hm => List.mem_cons_of_mem _ hm
      refine ⟨.observe mt :: ms, Run.cons .observe hms, ?_, ?_, [], mt, mts, rfl, by simp,
        List.mem_cons_self, cpre, e, cpost, hc, fun e' he' => (hcpre e' he').mono hlater, ?_⟩
      · rw [hatt]
        rfl
      · intro p hp
        rcases visited_cons.mp hp with hp | hp
        · exact absurd hp (by simp [Visited])
        · rw [hmt p hp]
          exact List.mem_cons_self
      · rw [← List.singleton_append, List.getLast?_append, hlast]
        rfl

end

theorem attempts_eq_nil {t : Trace} (h : ∀ e ∈ t, e.op.kind ≠ .entry) : attempts t = [] :=
  List.filterMap_eq_nil_iff.mpr fun e he => attempt_eq_none (h e he)

section

variable [External]

/-- A signer is entered once. -/
theorem attempts_fspSign {s : Settings} {mt : MessageType} {epoch : Int} {t : Trace}
    {r : Except Exc FspOutcome} (h : Runs (fspSign s mt epoch) t r) : attempts t = [(mt, epoch)] := by
  have hv : AllOf .view fun e => e.op.kind ≠ .entry := .ne (by decide)
  have hr : AllOf .read fun e => e.op.kind ≠ .entry := .ne (by decide)
  have hb : AllOf .send fun e => e.op.kind ≠ .entry := .ne (by decide)
  have hw : AllOf .report fun e => e.op.kind ≠ .entry := .ne (by decide)
  have hs : AllOf .sign fun e => e.op.kind ≠ .entry := .ne (by decide)
  cases mt with
  | uptime =>
    obtain ⟨t', rfl, ht'⟩ := runSignUptime_marked hr hb hw hs h
    exact congrArg (_ :: ·) (attempts_eq_nil ht')
  | rewardDistribution =>
    obtain ⟨t', rfl, ht'⟩ := runSignRewards_marked hv hr hb hw hs h
    exact congrArg (_ :: ·) (attempts_eq_nil ht')

end

end Clif
