import Clif.AutoState
import Clif.Funding
import Clif.SampleLog
import Clif.Observe.Accounted
import Clif.Observe.Jsonl

/-!
# Observe.Delegation — whether stake flows in or out, `delegation.py` and `deleg_history.py`

Nothing can be asked about the past, so each refresh of the overlay leaves a snapshot in a file and
compares the next ones with it.  `deltas_told` says between which two readings a flow is shown, over
restarts, failed reads and lost writes.
-/

namespace Clif.Observe

open Effect SampleLog

/-! ## One reading -/

/-- `validator_record`: the weights of its `delegators`. -/
structure ValidatorRecord where
  weights : List Int

/-- `validator_delegation`. -/
structure ValidatorDelegation where
  delegated : ℚ
  delegators : Int
deriving DecidableEq

def validatorDelegation (v : ValidatorRecord) : ValidatorDelegation where
  delegated := Py.divFloat v.weights.sum (10 ^ 9)
  delegators := v.weights.length

inductive DelegField where
  | valDelegated
  | valDels
  | ftsoVp
deriving DecidableEq

/-- `round(x - y, 4)`; of the numbers of delegators, which are integers, nothing is rounded. -/
def DelegField.flow (f : DelegField) (x y : ℚ) : ℚ :=
  match f with
  | .valDels => x - y
  | .valDelegated | .ftsoVp => Py.round (Py.double (x - y)) 4

structure DelegSnap where
  ts : Int
  epoch : Int
  valDelegated : ℚ
  valDels : Int
  ftsoVp : ℚ
deriving DecidableEq

def DelegSnap.get (s : DelegSnap) : DelegField → ℚ
  | .valDelegated => s.valDelegated
  | .valDels => s.valDels
  | .ftsoVp => s.ftsoVp

structure Delta where
  h24 : Option ℚ
  epoch : Option ℚ
deriving DecidableEq

/-- `data` of the overlay. -/
structure Delegation where
  validator : Option ValidatorDelegation
  ftso : Option ℚ
  deltas : Option (DelegField → Delta) := none

/-- What is set: the validator's node, the delegation address, the file. -/
structure DelegConfig where
  engine : EngineConfig
  nodeId : Bool
  delegationAddr : Bool
  historyFile : Bool

/-- What a refresh meets.  The lists of snapshots are those that can be read of the file. -/
structure DelegAnswers where
  now : ℚ
  /-- The epoch of the budget overlay, and the round of the clock. -/
  budgetEpoch : Option Int
  nowRound : Int
  validator : Except Exc (Option ValidatorRecord)
  wnat : Except Exc String
  votePower : Except Exc Int
  /-- `none` of a read: `OSError`. -/
  read : Except Exc (Option (List DelegSnap))
  appended : List DelegSnap
  reread : Except Exc (Option (List DelegSnap))
  rewritten : List DelegSnap

/-- `except RpcError: pass` around a leg. -/
def swallowRpc {α : Type} : Except Exc (Option α) → Except Exc (Option α)
  | .error (.rpcError _) => .ok none
  | x => x

namespace DelegAnswers

def ftsoLeg (a : DelegAnswers) : Except Exc (Option ℚ) := do
  let wnat ← a.wnat
  if wnat.isEmpty then return none
  else
    match Py.intHex? wnat with
    | none => throw (.valueError s!"invalid literal for int() with base 16: '{wnat}'")
    | some n =>
      if n = 0 then return none
      else
        let votePower ← a.votePower
        return some (Py.divFloat votePower (10 ^ 18))

/-- `read_delegation`. -/
def readDelegation (cfg : DelegConfig) (a : DelegAnswers) :
    Except Exc (Option ValidatorDelegation × Option ℚ) := do
  let validator ←
    if cfg.nodeId then swallowRpc (a.validator.map (Option.map validatorDelegation)) else .ok none
  let ftso ← if cfg.delegationAddr then swallowRpc a.ftsoLeg else .ok none
  return (validator, ftso)

/-- `int(now)`. -/
def stamp (a : DelegAnswers) : Int := truncRat a.now

def epoch (a : DelegAnswers) : Int :=
  match a.budgetEpoch with
  | some e => if e = 0 then epochOf a.nowRound else e
  | none => epochOf a.nowRound

/-- The snapshot of what was read. -/
def snap (a : DelegAnswers) (validator : Option ValidatorDelegation) (ftso : Option ℚ) :
    DelegSnap where
  ts := a.stamp
  epoch := a.epoch
  valDelegated := (validator.map ValidatorDelegation.delegated).getD 0
  valDels := (validator.map ValidatorDelegation.delegators).getD 0
  ftsoVp := ftso.getD 0

end DelegAnswers

/-! ## The file -/

/-- `load_snaps`. -/
def loadSnaps (now : Int) (read : Except Exc (Option (List DelegSnap))) :
    Except Exc (List DelegSnap) :=
  read.map fun file => load DelegSnap.ts snapRetainSec now (file.getD [])

/-- `compute_deltas`. -/
def computeDeltas (history : List DelegSnap) (now epoch : Int) (current : DelegSnap)
    (f : DelegField) : Delta :=
  let older24 := history.filter fun s => decide (s.ts ≤ now - 86400)
  let thisEpoch := history.filter fun s => decide (s.epoch = epoch)
  let d (base : DelegSnap) := f.flow (current.get f) (base.get f)
  { h24 := older24.getLast?.map d
    epoch := thisEpoch.head?.map d }

/-- The overlay, and what can be read of the file. -/
structure DelegState where
  deleg : Overlay Delegation := {}
  file : List DelegSnap := []

/-- `_refresh_delegation`. -/
def refreshDelegation (cfg : DelegConfig) (s : DelegState) (a : DelegAnswers) : DelegState :=
  if !(cfg.nodeId || cfg.delegationAddr) || EngineState.Overlay.fresh s.deleg cfg.engine a.now then s
  else
    match a.readDelegation cfg with
    | .error _ => { s with deleg := EngineState.Overlay.backoff s.deleg cfg.engine a.now }
    | .ok (validator, ftso) =>
      if cfg.historyFile && (validator.isSome || ftso.isSome) then
        match loadSnaps a.stamp a.read with
        | .error _ => { s with deleg := EngineState.Overlay.backoff s.deleg cfg.engine a.now }
        | .ok hist =>
          match loadSnaps a.stamp a.reread with
          | .error _ =>
            { deleg := EngineState.Overlay.backoff s.deleg cfg.engine a.now
              file := a.appended }
          | .ok _ =>
            { deleg := ⟨some ⟨validator, ftso,
                some (computeDeltas hist a.stamp a.epoch (a.snap validator ftso))⟩, a.now⟩
              file := a.rewritten }
      else { s with deleg := ⟨some ⟨validator, ftso, none⟩, a.now⟩ }

/-! ## Runs -/

namespace DelegAnswers

/-- The snapshot of the refresh. -/
def taken (cfg : DelegConfig) (a : DelegAnswers) : DelegSnap :=
  match a.readDelegation cfg with
  | .ok (validator, ftso) => a.snap validator ftso
  | .error _ => a.snap none none

/-- The refresh comes as far as the file, with a reading of one leg at least. -/
structure Takes (cfg : DelegConfig) (s : DelegState) (a : DelegAnswers) : Prop where
  watched : (cfg.nodeId || cfg.delegationAddr) = true
  due : EngineState.Overlay.fresh s.deleg cfg.engine a.now = false
  kept : cfg.historyFile = true
  reading : ∃ validator ftso, a.readDelegation cfg = .ok (validator, ftso) ∧
    (validator.isSome || ftso.isSome) = true
  loaded : ∃ hist, loadSnaps a.stamp a.read = .ok hist

end DelegAnswers

/-- How the answers go with the file.  Writes may fail or be cut short, and what is lost is lost;
`whole`: nothing is. -/
structure FileAnswers (cfg : DelegConfig) (whole : Bool) (file : List DelegSnap)
    (a : DelegAnswers) : Prop where
  read : ∀ l, a.read = .ok (some l) → l = file
  appended : a.appended.Sublist (file ++ [a.taken cfg])
  reread : ∀ l, a.reread = .ok (some l) → l = a.appended
  rewritten : ∀ kept, loadSnaps a.stamp a.reread = .ok kept →
    a.rewritten.Sublist kept ∨ a.rewritten = a.appended
  unharmed : whole = true → (a.read = .ok (some file) ∨ a.read = .ok none ∧ file = []) ∧
    a.appended = file ++ [a.taken cfg] ∧ a.reread = .ok (some a.appended) ∧
    a.rewritten = load DelegSnap.ts snapRetainSec a.stamp a.appended

inductive DelegEvent where
  | refresh (a : DelegAnswers)
  /-- The process is killed in a refresh, after the append or after the rewriting. -/
  | killed (a : DelegAnswers) (rewriting : Bool)
  | restart
  /-- `expire_epoch_overlays`. -/
  | expire

def DelegEvent.now? : DelegEvent → Option ℚ
  | .refresh a => some a.now
  | .killed a _ => some a.now
  | .restart => none
  | .expire => none

/-- A step, with the refreshes so far that took a snapshot. -/
inductive DelegStep (cfg : DelegConfig) (whole : Bool) : DelegState × List DelegAnswers →
    DelegEvent → DelegState × List DelegAnswers → Prop
  | takes {s : DelegState} {log : List DelegAnswers} {a : DelegAnswers} (htakes : a.Takes cfg s)
      (hfile : FileAnswers cfg whole s.file a) :
      DelegStep cfg whole (s, log) (.refresh a) (refreshDelegation cfg s a, log ++ [a])
  | other {s : DelegState} {log : List DelegAnswers} {a : DelegAnswers}
      (hnone : ¬ a.Takes cfg s) :
      DelegStep cfg whole (s, log) (.refresh a) (refreshDelegation cfg s a, log)
  | appended {s : DelegState} {log : List DelegAnswers} {a : DelegAnswers}
      (htakes : a.Takes cfg s) (hfile : FileAnswers cfg whole s.file a) :
      DelegStep cfg whole (s, log) (.killed a false) ({ file := a.appended }, log ++ [a])
  | rewritten {s : DelegState} {log : List DelegAnswers} {a : DelegAnswers} {kept : List DelegSnap}
      (htakes : a.Takes cfg s) (hfile : FileAnswers cfg whole s.file a)
      (hkept : loadSnaps a.stamp a.reread = .ok kept) :
      DelegStep cfg whole (s, log) (.killed a true) ({ file := a.rewritten }, log ++ [a])
  | restart {s : DelegState} {log : List DelegAnswers} :
      DelegStep cfg whole (s, log) .restart ({ file := s.file }, log)
  | expire {s : DelegState} {log : List DelegAnswers} :
      DelegStep cfg whole (s, log) .expire ({ s with deleg := { s.deleg with checked := 0 } }, log)

/-- The times of a run: no clock goes back. -/
structure Clocked (es : List DelegEvent) : Prop where
  positive : ∀ t ∈ es.filterMap DelegEvent.now?, 0 ≤ t
  ordered : (es.filterMap DelegEvent.now?).Pairwise fun t t' => t ≤ t'

/-! ## What a flow is -/

namespace DelegAnswers

/-- What the refresh read, if it could. -/
def reading (cfg : DelegConfig) (f : DelegField) (a : DelegAnswers) : Option ℚ :=
  match a.readDelegation cfg with
  | .error _ => none
  | .ok (validator, ftso) =>
    match f with
    | .valDelegated => validator.map ValidatorDelegation.delegated
    | .valDels => validator.map fun v => v.delegators
    | .ftsoVp => ftso

/-- The flow between two refreshes; a leg that could not be read counts as nothing. -/
def flow (cfg : DelegConfig) (f : DelegField) (a b : DelegAnswers) : ℚ :=
  f.flow ((a.reading cfg f).getD 0) ((b.reading cfg f).getD 0)

/-- `b` is a day before `a`, and not forgotten. -/
def dayBefore (a b : DelegAnswers) : Bool :=
  decide (a.stamp - b.stamp ≤ snapRetainSec) && decide (b.stamp ≤ a.stamp - 86400)

def sameEpoch (a b : DelegAnswers) : Bool :=
  decide (a.stamp - b.stamp ≤ snapRetainSec) && decide (b.epoch = a.epoch)

end DelegAnswers

/-- What is shown at the refresh `a`, after those of `before`. -/
structure DeltaTold (cfg : DelegConfig) (whole : Bool) (before : List DelegAnswers)
    (a : DelegAnswers) (f : DelegField) (d : Delta) : Prop where
  day : ∀ x, d.h24 = some x → ∃ b ∈ before, a.dayBefore b = true ∧ x = a.flow cfg f b
  epoch : ∀ x, d.epoch = some x → ∃ b ∈ before, a.sameEpoch b = true ∧ x = a.flow cfg f b
  latest : whole = true → d.h24 = (before.filter a.dayBefore).getLast?.map (a.flow cfg f)
  first : whole = true → d.epoch = (before.filter a.sameEpoch).head?.map (a.flow cfg f)

section

variable {cfg : DelegConfig} {whole : Bool} {s : DelegState} {a : DelegAnswers} {f : DelegField}
  {log before : List DelegAnswers} {file : List DelegSnap} {t t' : Int}

/-! ### The snapshot -/

@[simp] theorem taken_ts : (a.taken cfg).ts = a.stamp := by
  unfold DelegAnswers.taken
  split <;> rfl

@[simp] theorem taken_epoch : (a.taken cfg).epoch = a.epoch := by
  unfold DelegAnswers.taken
  split <;> rfl

theorem taken_get : (a.taken cfg).get f = (a.reading cfg f).getD 0 := by
  unfold DelegAnswers.taken DelegAnswers.reading
  cases a.readDelegation cfg with
  | error e => cases f <;> rfl
  | ok legs =>
    obtain ⟨validator, ftso⟩ := legs
    cases f with
    | valDelegated => rfl
    | ftsoVp => rfl
    | valDels => cases validator <;> simp [DelegAnswers.snap, DelegSnap.get]

/-! ### One refresh -/

/-- A refresh that takes a snapshot, by how the second load goes. -/
theorem refresh_takes (h : a.Takes cfg s) :
    ∃ hist, loadSnaps a.stamp a.read = .ok hist ∧
      ((∃ kept v vp, loadSnaps a.stamp a.reread = .ok kept ∧ a.readDelegation cfg = .ok (v, vp) ∧
        refreshDelegation cfg s a =
          { deleg := ⟨some ⟨v, vp, some (computeDeltas hist a.stamp a.epoch (a.taken cfg))⟩, a.now⟩
            file := a.rewritten }) ∨
      ∃ e, loadSnaps a.stamp a.reread = .error e ∧ refreshDelegation cfg s a =
        { deleg := EngineState.Overlay.backoff s.deleg cfg.engine a.now
          file := a.appended }) := by
  obtain ⟨v, vp, hread, hsome⟩ := h.reading
  obtain ⟨hist, hhist⟩ := h.loaded
  have htaken : a.taken cfg = a.snap v vp := by
    unfold DelegAnswers.taken
    rw [hread]
  refine ⟨hist, hhist, ?_⟩
  unfold refreshDelegation
  rw [h.watched, h.due, hread]
  simp only [h.kept, hsome, hhist, htaken]
  cases hkept : loadSnaps a.stamp a.reread with
  | error e => exact .inr ⟨e, rfl, rfl⟩
  | ok kept => exact .inl ⟨kept, v, vp, rfl, rfl, rfl⟩

/-- A refresh that takes none leaves the file alone, and shows no flow of its own. -/
theorem refresh_other (h : ¬ a.Takes cfg s) : (refreshDelegation cfg s a).file = s.file ∧
    ((refreshDelegation cfg s a).deleg.data = s.deleg.data ∨
      ∃ d, (refreshDelegation cfg s a).deleg.data = some d ∧ d.deltas = none) := by
  unfold refreshDelegation
  by_cases hskip : (!(cfg.nodeId || cfg.delegationAddr) ||
      EngineState.Overlay.fresh s.deleg cfg.engine a.now) = true
  · rw [if_pos hskip]
    exact ⟨rfl, .inl rfl⟩
  rw [if_neg hskip]
  cases hread : a.readDelegation cfg with
  | error e => exact ⟨rfl, .inl rfl⟩
  | ok legs =>
    obtain ⟨v, vp⟩ := legs
    dsimp only
    by_cases hfile : (cfg.historyFile && (v.isSome || vp.isSome)) = true
    swap
    · rw [if_neg hfile]
      exact ⟨rfl, .inr ⟨_, rfl, rfl⟩⟩
    rw [if_pos hfile]
    cases hhist : loadSnaps a.stamp a.read with
    | error e => exact ⟨rfl, .inl rfl⟩
    | ok hist =>
      refine absurd ?_ h
      rw [Bool.not_eq_true, Bool.or_eq_false_iff, Bool.not_eq_false'] at hskip
      rw [Bool.and_eq_true] at hfile
      exact ⟨hskip.1, hskip.2, hfile.1, ⟨v, vp, hread, hfile.2⟩, hist, hhist⟩

/-! ### What is in the file -/

/-- The file holds snapshots of the log, and where nothing is lost, all the recent ones. -/
structure Kept (cfg : DelegConfig) (whole : Bool) (t : Int) (file : List DelegSnap)
    (log : List DelegAnswers) : Prop where
  part : PartOf DelegSnap.ts t file (log.map (DelegAnswers.taken cfg))
  mirrors : whole = true → Mirrors DelegSnap.ts snapRetainSec t file
    (log.map (DelegAnswers.taken cfg))

theorem Kept.later (h : Kept cfg whole t file log) (ht : t ≤ t') : Kept cfg whole t' file log :=
  ⟨h.part.later ht, fun hwhole => (h.mirrors hwhole).later ht⟩

theorem Kept.appended (h : Kept cfg whole a.stamp file log) (hfile : FileAnswers cfg whole file a) :
    Kept cfg whole a.stamp a.appended (log ++ [a]) := by
  have hpart := h.part.append (a := a.taken cfg) taken_ts.ge
  rw [taken_ts] at hpart
  constructor
  · rw [List.map_append]
    exact hpart.lose hfile.appended
  · intro hwhole
    obtain ⟨-, happended, -⟩ := hfile.unharmed hwhole
    rw [List.map_append, happended]
    exact (h.mirrors hwhole).append le_rfl

theorem Kept.rewritten (h : Kept cfg whole a.stamp file log)
    (hfile : FileAnswers cfg whole file a) {kept : List DelegSnap}
    (hkept : loadSnaps a.stamp a.reread = .ok kept) :
    Kept cfg whole a.stamp a.rewritten (log ++ [a]) := by
  have happended := h.appended hfile
  constructor
  · refine happended.part.lose ?_
    rcases hfile.rewritten kept hkept with hsub | heq
    · refine hsub.trans ?_
      cases hread : a.reread with
      | error e =>
        rw [hread] at hkept
        cases hkept
      | ok l =>
        rw [hread] at hkept
        cases hkept
        cases l with
        | none => exact List.nil_sublist _
        | some l =>
          obtain rfl := hfile.reread l hread
          show (load DelegSnap.ts snapRetainSec a.stamp a.appended).Sublist a.appended
          rw [happended.part.load_eq]
          exact List.filter_sublist
    · rw [heq]
  · intro hwhole
    obtain ⟨-, -, -, hrewritten⟩ := hfile.unharmed hwhole
    rw [hrewritten]
    exact (happended.mirrors hwhole).rewrite happended.part

/-! ### What is shown -/

theorem filter_taken {p : DelegSnap → Bool} {q : DelegAnswers → Bool}
    (h : ∀ b, p (b.taken cfg) = q b) : (before.map (DelegAnswers.taken cfg)).filter p =
      (before.filter q).map (DelegAnswers.taken cfg) := by
  rw [List.filter_map]
  congr 1
  exact List.filter_congr fun b _ => h b

theorem flow_eq {b : DelegAnswers} :
    f.flow ((a.taken cfg).get f) ((b.taken cfg).get f) = a.flow cfg f b := by
  rw [taken_get, taken_get]
  rfl

theorem Kept.deltaTold (h : Kept cfg whole a.stamp file before)
    (hfile : FileAnswers cfg whole file a) {hist : List DelegSnap}
    (hhist : loadSnaps a.stamp a.read = .ok hist) :
    DeltaTold cfg whole before a f (computeDeltas hist a.stamp a.epoch (a.taken cfg) f) := by
  -- what was loaded is recent, and of the log
  have hmem : ∀ s ∈ hist, ∃ b ∈ before, s = b.taken cfg ∧ a.stamp - b.stamp ≤ snapRetainSec := by
    intro s hs
    cases hread : a.read with
    | error e =>
      rw [hread] at hhist
      cases hhist
    | ok l =>
      rw [hread] at hhist
      cases hhist
      cases l with
      | none => cases hs
      | some l =>
        obtain rfl := hfile.read l hread
        have hs' : s ∈ load DelegSnap.ts snapRetainSec a.stamp l := hs
        rw [h.part.load_eq, mem_recent] at hs'
        obtain ⟨b, hb, rfl⟩ := List.mem_map.mp (h.part.sublist.subset hs'.1)
        refine ⟨b, hb, rfl, ?_⟩
        simpa using hs'.2
  have hlog : whole = true → hist = recent DelegSnap.ts snapRetainSec a.stamp
      (before.map (DelegAnswers.taken cfg)) := by
    intro hwhole
    have hload : hist = load DelegSnap.ts snapRetainSec a.stamp file := by
      rcases (hfile.unharmed hwhole).1 with hread | ⟨hread, rfl⟩
      · rw [hread] at hhist
        cases hhist
        rfl
      · rw [hread] at hhist
        cases hhist
        rfl
    rw [hload]
    exact (h.mirrors hwhole).load_eq h.part le_rfl
  constructor
  · intro x hx
    obtain ⟨s, hs, rfl⟩ := Option.map_eq_some_iff.mp hx
    obtain ⟨hin, hold⟩ := List.mem_filter.mp (List.mem_of_getLast? hs)
    obtain ⟨b, hb, rfl, hrecent⟩ := hmem s hin
    refine ⟨b, hb, ?_, flow_eq⟩
    simpa [DelegAnswers.dayBefore, hrecent] using hold
  · intro x hx
    obtain ⟨s, hs, rfl⟩ := Option.map_eq_some_iff.mp hx
    obtain ⟨hin, hsame⟩ := List.mem_filter.mp (List.mem_of_head? hs)
    obtain ⟨b, hb, rfl, hrecent⟩ := hmem s hin
    refine ⟨b, hb, ?_, flow_eq⟩
    simpa [DelegAnswers.sameEpoch, hrecent] using hsame
  · intro hwhole
    show (hist.filter fun s => decide (s.ts ≤ a.stamp - 86400)).getLast?.map
      (fun base => f.flow ((a.taken cfg).get f) (base.get f)) = _
    rw [hlog hwhole, recent, List.filter_filter, filter_taken (q := a.dayBefore), List.getLast?_map,
      Option.map_map]
    · exact congrFun (congrArg Option.map (funext fun b => flow_eq)) _
    · intro b
      simp [DelegAnswers.dayBefore, Bool.and_comm]
  · intro hwhole
    show (hist.filter fun s => decide (s.epoch = a.epoch)).head?.map
      (fun base => f.flow ((a.taken cfg).get f) (base.get f)) = _
    rw [hlog hwhole, recent, List.filter_filter, filter_taken (q := a.sameEpoch), List.head?_map,
      Option.map_map]
    · exact congrFun (congrArg Option.map (funext fun b => flow_eq)) _
    · intro b
      simp [DelegAnswers.sameEpoch, Bool.and_comm]

/-! ### Runs -/

/-- The flows of the overlay are those between refreshes of the log. -/
def Told (cfg : DelegConfig) (whole : Bool) (s : DelegState) (log : List DelegAnswers) : Prop :=
  ∀ d deltas, s.deleg.data = some d → d.deltas = some deltas →
    ∃ before a after, log = before ++ a :: after ∧
      a.readDelegation cfg = .ok (d.validator, d.ftso) ∧
      ∀ f, DeltaTold cfg whole before a f (deltas f)

theorem Told.snoc (h : Told cfg whole s log) : Told cfg whole s (log ++ [a]) := by
  intro d deltas hd hdeltas
  obtain ⟨before, a', after, rfl, hread, htold⟩ := h d deltas hd hdeltas
  exact ⟨before, a', after ++ [a], by simp, hread, htold⟩

/-- The data is the one before, or has no flows. -/
theorem Told.of_data {s' : DelegState} (h : Told cfg whole s log)
    (hdata : s'.deleg.data = s.deleg.data ∨ ∃ d, s'.deleg.data = some d ∧ d.deltas = none) :
    Told cfg whole s' log := by
  intro d deltas hd hdeltas
  rcases hdata with heq | ⟨d', hd', hnone⟩
  · rw [heq] at hd
    exact h d deltas hd hdeltas
  · rw [hd'] at hd
    cases hd
    rw [hnone] at hdeltas
    cases hdeltas

theorem Clocked.init {es : List DelegEvent} {e : DelegEvent} (h : Clocked (es ++ [e])) :
    Clocked es := by
  obtain ⟨hpos, hord⟩ := h
  rw [List.filterMap_append] at hpos hord
  exact ⟨fun t ht => hpos t (List.mem_append_left _ ht), (List.pairwise_append.mp hord).1⟩

theorem truncRat_mono {x y : ℚ} (hx : 0 ≤ x) (hxy : x ≤ y) : truncRat x ≤ truncRat y := by
  have hfloor : ∀ z : ℚ, 0 ≤ z → truncRat z = ⌊z⌋ := by
    intro z hz
    rw [truncRat, Int.tdiv_eq_ediv_of_nonneg (Rat.num_nonneg.mpr hz)]
    exact Rat.floor_def'.symm
  rw [hfloor x hx, hfloor y (hx.trans hxy)]
  exact Int.floor_le_floor hxy

/-- The last time of a run is the latest. -/
theorem Clocked.last {es : List DelegEvent} {e : DelegEvent} (h : Clocked (es ++ [e]))
    {now : ℚ} (he : e.now? = some now) :
    ∀ t ∈ es.filterMap DelegEvent.now?, truncRat t ≤ truncRat now := by
  obtain ⟨hpos, hord⟩ := h
  rw [List.filterMap_append] at hpos hord
  have hnow : now ∈ [e].filterMap DelegEvent.now? := by simp [he]
  intro t ht
  exact truncRat_mono (hpos t (List.mem_append_left _ ht))
    ((List.pairwise_append.mp hord).2.2 t ht now hnow)

/-- What every run keeps, with the end of its clock. -/
structure DelegInv (cfg : DelegConfig) (whole : Bool) (es : List DelegEvent)
    (u : DelegState × List DelegAnswers) : Prop where
  kept : ∀ t, (∀ x ∈ es.filterMap DelegEvent.now?, truncRat x ≤ t) → Kept cfg whole t u.1.file u.2
  told : Told cfg whole u.1 u.2

theorem DelegInv.step {es : List DelegEvent} {e : DelegEvent}
    {u u' : DelegState × List DelegAnswers} (h : DelegInv cfg whole es u)
    (hstep : DelegStep cfg whole u e u') (hclock : Clocked (es ++ [e])) :
    DelegInv cfg whole (es ++ [e]) u' := by
  -- the times so far are among those of the longer run
  have hbefore : ∀ {t : Int}, (∀ x ∈ (es ++ [e]).filterMap DelegEvent.now?, truncRat x ≤ t) →
      ∀ x ∈ es.filterMap DelegEvent.now?, truncRat x ≤ t := by
    intro t ht x hx
    rw [List.filterMap_append] at ht
    exact ht x (List.mem_append_left _ hx)
  have hlast : ∀ {t : Int} {now : ℚ}, e.now? = some now →
      (∀ x ∈ (es ++ [e]).filterMap DelegEvent.now?, truncRat x ≤ t) → truncRat now ≤ t := by
    intro t now he ht
    rw [List.filterMap_append] at ht
    exact ht now (List.mem_append_right _ (by simp [he]))
  cases hstep with
  | @takes s log a htakes hfile =>
    have hkept := h.kept a.stamp (hclock.last rfl)
    obtain ⟨hist, hhist, ⟨kept, v, vp, hreread, hread, hnew⟩ | ⟨_, -, hnew⟩⟩ :=
      refresh_takes htakes
    · rw [hnew]
      refine ⟨fun t ht => (hkept.rewritten hfile hreread).later (hlast rfl ht), ?_⟩
      intro d deltas hd hdeltas
      cases hd
      cases hdeltas
      exact ⟨log, a, [], rfl, hread, fun f => hkept.deltaTold hfile hhist⟩
    · rw [hnew]
      exact ⟨fun t ht => (hkept.appended hfile).later (hlast rfl ht),
        h.told.snoc.of_data (.inl rfl)⟩
  | @other s log a hnone =>
    obtain ⟨hfile, hdata⟩ := refresh_other hnone
    refine ⟨fun t ht => ?_, h.told.of_data hdata⟩
    have hkept := h.kept t (hbefore ht)
    rwa [← hfile] at hkept
  | @appended s log a htakes hfile =>
    have hkept := h.kept a.stamp (hclock.last rfl)
    exact ⟨fun t ht => (hkept.appended hfile).later (hlast rfl ht), nofun⟩
  | @rewritten s log a kept htakes hfile hreread =>
    have hkept := h.kept a.stamp (hclock.last rfl)
    exact ⟨fun t ht => (hkept.rewritten hfile hreread).later (hlast rfl ht), nofun⟩
  | restart => exact ⟨fun t ht => h.kept t (hbefore ht), nofun⟩
  | expire => exact ⟨fun t ht => h.kept t (hbefore ht), h.told.of_data (.inl rfl)⟩

/-- Over all refreshes, restarts and kills, with a clock that does not go back: the data and the
flows that are shown are those of one refresh `a`, and a flow is the difference to an earlier
reading, that is at least a day old or of the same epoch, and of the last eight days.  If nothing is
lost of the file it is the latest such reading, and the first one of the epoch; and there is a flow
if there is such a reading.  A leg that could not be read beside the other counts as zero on both
sides. -/
theorem deltas_told {es : List DelegEvent} {s : DelegState} {log : List DelegAnswers}
    (hrun : Run (DelegStep cfg whole) ({}, []) es (s, log)) (hclock : Clocked es)
    {d : Delegation} {deltas : DelegField → Delta} (hd : s.deleg.data = some d)
    (hdeltas : d.deltas = some deltas) :
    ∃ before a after, log = before ++ a :: after ∧
      a.readDelegation cfg = .ok (d.validator, d.ftso) ∧
      ∀ f, DeltaTold cfg whole before a f (deltas f) := by
  have hinv : Clocked es → DelegInv cfg whole es (s, log) := by
    refine Run.invariant (fun es u => Clocked es → DelegInv cfg whole es u) ?_ ?_ hrun
    · intro _
      exact ⟨fun t _ => ⟨PartOf.empty, fun _ => Mirrors.empty⟩, nofun⟩
    · intro es u e u' _ ih hstep hc
      exact (ih hc.init).step hstep hc
  exact (hinv hclock).told d deltas hd hdeltas

end

/-! ### A leg fails once -/

def delegConfig : DelegConfig where
  engine := sampleConfig
  nodeId := true
  delegationAddr := true
  historyFile := true

def dayOneSnap : DelegSnap := ⟨1750000000, 400, 12, 2, 300⟩

def dayTwoSnap : DelegSnap := ⟨1750090000, 400, 13, 3, 0⟩

/-- Two delegations to the validator, and a vote power of 300. -/
def dayOneAnswers : DelegAnswers where
  now := 1750000000
  budgetEpoch := some 400
  nowRound := 1344010
  validator := .ok (some ⟨[5000000000, 7000000000]⟩)
  wnat := .ok "0x1D80c49BbBCd1C0911346656B529DF9E5c2F783d"
  votePower := .ok (300 * 10 ^ 18)
  read := .ok none
  appended := [dayOneSnap]
  reread := .ok (some [dayOneSnap])
  rewritten := [dayOneSnap]

/-- 25 hours later the vote power cannot be read. -/
def dayTwoAnswers : DelegAnswers where
  now := 1750090000
  budgetEpoch := some 400
  nowRound := 1345010
  validator := .ok (some ⟨[5000000000, 7000000000, 1000000000]⟩)
  wnat := .ok "0x1D80c49BbBCd1C0911346656B529DF9E5c2F783d"
  votePower := .error (.rpcError "timeout")
  read := .ok (some [dayOneSnap])
  appended := [dayOneSnap, dayTwoSnap]
  reread := .ok (some [dayOneSnap, dayTwoSnap])
  rewritten := [dayOneSnap, dayTwoSnap]

theorem dayOne_read : dayOneAnswers.readDelegation delegConfig = .ok (some ⟨12, 2⟩, some 300) := by
  decide +kernel

theorem dayTwo_read : dayTwoAnswers.readDelegation delegConfig = .ok (some ⟨13, 3⟩, none) := by
  decide +kernel

theorem dayOne_taken : dayOneAnswers.taken delegConfig = dayOneSnap := by
  unfold DelegAnswers.taken
  rw [dayOne_read]
  decide +kernel

theorem dayTwo_taken : dayTwoAnswers.taken delegConfig = dayTwoSnap := by
  unfold DelegAnswers.taken
  rw [dayTwo_read]
  decide +kernel

theorem dayOne_takes : dayOneAnswers.Takes delegConfig {} :=
  ⟨rfl, rfl, rfl, ⟨_, _, dayOne_read, rfl⟩, _, rfl⟩

theorem dayTwo_takes : dayTwoAnswers.Takes delegConfig { file := [dayOneSnap] } :=
  ⟨rfl, rfl, rfl, ⟨_, _, dayTwo_read, rfl⟩, _, rfl⟩

/-- What is shown on the second day. -/
def dayTwoDeltas : DelegField → Delta :=
  computeDeltas [dayOneSnap] 1750090000 400 dayTwoSnap

example : dayTwoDeltas .ftsoVp = ⟨some (-300), some (-300)⟩ := by decide +kernel

theorem dayOne_files : FileAnswers delegConfig true [] dayOneAnswers := by
  refine ⟨nofun, ?_, ?_, fun kept _ => .inr rfl, fun _ => ⟨.inr ⟨rfl, rfl⟩, ?_, rfl, ?_⟩⟩
  · rw [dayOne_taken]
    exact .refl _
  · intro l hl
    cases hl
    rfl
  · rw [dayOne_taken]
    rfl
  · decide +kernel

theorem dayTwo_files : FileAnswers delegConfig true [dayOneSnap] dayTwoAnswers := by
  refine ⟨?_, ?_, ?_, fun kept _ => .inr rfl, fun _ => ⟨.inl rfl, ?_, rfl, ?_⟩⟩
  · intro l hl
    cases hl
    rfl
  · rw [dayTwo_taken]
    exact .refl _
  · intro l hl
    cases hl
    rfl
  · rw [dayTwo_taken]
    rfl
  · decide +kernel

theorem dayTwo_shown :
    (refreshDelegation delegConfig { file := [dayOneSnap] } dayTwoAnswers).deleg.data =
      some ⟨some ⟨13, 3⟩, none, some dayTwoDeltas⟩ := by
  have hload : load DelegSnap.ts snapRetainSec 1750090000 [dayOneSnap] = [dayOneSnap] := by
    decide +kernel
  have hstamp : dayTwoAnswers.stamp = 1750090000 := by decide +kernel
  obtain ⟨hist, hhist, ⟨kept, v, vp, -, hread, hnew⟩ | ⟨_, herror, -⟩⟩ :=
    refresh_takes dayTwo_takes
  · have hhist' : hist = [dayOneSnap] := by
      rw [← hload, ← hstamp]
      exact (Except.ok.inj hhist).symm
    rw [dayTwo_read] at hread
    cases hread
    rw [hnew, hhist', dayTwo_taken, hstamp]
    rfl
  · cases herror

theorem deltas_told_restart : ∃ before a after,
    [dayOneAnswers, dayTwoAnswers] = before ++ a :: after ∧
      a.readDelegation delegConfig = .ok (some ⟨13, 3⟩, none) ∧
      ∀ f, DeltaTold delegConfig true before a f (dayTwoDeltas f) := by
  have hfile : (refreshDelegation delegConfig {} dayOneAnswers).file = [dayOneSnap] := by
    decide +kernel
  have hfirst : Run (DelegStep delegConfig true) ({}, []) [.refresh dayOneAnswers, .restart]
      ({ file := [dayOneSnap] }, [dayOneAnswers]) := by
    rw [← hfile]
    exact .cons (.takes dayOne_takes dayOne_files) (.single .restart)
  have hrun := hfirst.snoc (.takes dayTwo_takes dayTwo_files)
  have htimes : ([.refresh dayOneAnswers, .restart] ++ [.refresh dayTwoAnswers] :
      List DelegEvent).filterMap DelegEvent.now? = [1750000000, 1750090000] := rfl
  refine deltas_told hrun ⟨?_, ?_⟩ dayTwo_shown rfl
  · rw [htimes]
    decide +kernel
  · rw [htimes]
    decide +kernel

end Clif.Observe
