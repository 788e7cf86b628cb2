import Clif.Config
import Clif.Dict
import Clif.Text
import Mathlib.Data.Rat.Defs
import Mathlib.Data.Rat.Lemmas
import Mathlib.Algebra.Order.Ring.Unbundled.Rat

/-!
# AutoState — the in-memory state across cycles, `autostate.py`

Times are UNIX times.  A stream that was never written is the empty one, so reading a stream does
not have to create it.
-/

namespace Clif

/-- `_Stream`. -/
structure Stream where
  firstSeen : Dict Int ℚ := Dict.empty
  cooldownUntil : Dict Int ℚ := Dict.empty
  lastSuccessTs : Option ℚ := none
  lastAttemptTs : Option ℚ := none
  lastOutcome : String := "init"

structure AutoState where
  streams : Dict String Stream := Dict.empty

namespace AutoState

/-- `_s`. -/
def s (st : AutoState) (key : String) : Stream := (st.streams.get? key).getD {}

def update (st : AutoState) (key : String) (f : Stream → Stream) : AutoState :=
  ⟨st.streams.set key (f (st.s key))⟩

@[simp] theorem s_update {st : AutoState} {key : String} {f : Stream → Stream} :
    (st.update key f).s key = f (st.s key) := by
  simp [update, s]

theorem s_update_of_ne {st : AutoState} {key key' : String} {f : Stream → Stream}
    (h : key ≠ key') : (st.update key f).s key' = st.s key' := by
  simp [update, s, Dict.get?_set, h]

end AutoState

/-- The epochs seen before or now. -/
def Stream.see (s : Stream) (claimEpochs : List Int) (now : ℚ) : Dict Int ℚ :=
  claimEpochs.foldl (fun d e => d.setdefault e now) s.firstSeen

/-- The epochs that left since the last cycle. -/
def Stream.gone (s : Stream) (claimEpochs : List Int) (now : ℚ) : List Int :=
  (s.see claimEpochs now).keys.filter fun e => e ∉ claimEpochs

namespace AutoState

/-- `observe`. -/
def observe (st : AutoState) (key : String) (claimEpochs : List Int) (now : ℚ) : AutoState :=
  st.update key fun s =>
    { s with
      firstSeen := (s.see claimEpochs now).eraseAll (s.gone claimEpochs now)
      cooldownUntil := s.cooldownUntil.eraseAll (s.gone claimEpochs now) }

def recordAttempt (st : AutoState) (key : String) (now : ℚ) (outcome : String) : AutoState :=
  st.update key fun s => { s with lastAttemptTs := some now, lastOutcome := outcome }

def recordSuccess (st : AutoState) (key : String) (now : ℚ) : AutoState :=
  st.update key fun s => { s with lastSuccessTs := some now }

def recordTerminal (st : AutoState) (key : String) (epoch : Int) (now : ℚ) (cooldownSec : Int) :
    AutoState :=
  st.update key fun s => { s with cooldownUntil := s.cooldownUntil.set epoch (now + cooldownSec) }

def inCooldown (st : AutoState) (key : String) (epoch : Int) (now : ℚ) : Bool :=
  decide (now < ((st.s key).cooldownUntil.get? epoch).getD 0)

/-- The epochs the stream counts as active. -/
def active (st : AutoState) (key : String) : List Int := (st.s key).firstSeen.keys

end AutoState

/-! ## Degraded evaluation -/

/-- `int(x)` of a float: towards zero. -/
def truncRat (x : ℚ) : Int := x.num.tdiv x.den

/-- The pruning of expired cooldowns. -/
def Stream.prune (s : Stream) (now : ℚ) : Stream :=
  { s with
    cooldownUntil := s.cooldownUntil.eraseAll
      ((s.cooldownUntil.entries.filter fun e => e.2 ≤ now).map Prod.fst) }

/-- The reasons of one epoch of a stream that is already pruned. -/
def Stream.reasonsOf (s : Stream) (key : String) (now : ℚ) (staleAfterSec : Int) (epoch : Int)
    (seen : ℚ) : List String :=
  (if (staleAfterSec : ℚ) < now - seen then
      [s!"{key}: epoch {epoch} claimable for {truncRat (now - seen)}s (> {staleAfterSec}s) " ++
        "without a successful claim"]
    else []) ++
  (if now < (s.cooldownUntil.get? epoch).getD 0 then
      [s!"{key}: epoch {epoch} had a terminal fwd failure (in cooldown) — " ++
        "operator action likely needed"]
    else [])

def Stream.reasons (s : Stream) (key : String) (now : ℚ) (staleAfterSec : Int) : List String :=
  s.firstSeen.entries.flatMap fun e => s.reasonsOf key now staleAfterSec e.1 e.2

/-- The pruning `evaluate` does on the way. -/
def AutoState.pruned (st : AutoState) (now : ℚ) : AutoState :=
  ⟨st.streams.entries.foldl (fun d ks => d.set ks.1 (ks.2.prune now)) st.streams⟩

/-- `evaluate`: degraded, with its reasons. -/
def AutoState.evaluate (st : AutoState) (now : ℚ) (staleAfterSec : Int) : Bool × List String :=
  let reasons := (st.pruned now).streams.entries.flatMap fun ks =>
    ks.2.reasons ks.1 now staleAfterSec
  (!reasons.isEmpty, reasons)

/-! ## Reports -/

/-- One entry of `streams`; `epochsField` is the JSON key of its list of epochs. -/
structure StreamView where
  stream : String
  epochsField : String
  epochs : List Int
  lastSuccessTs : Option ℚ
  lastAttemptTs : Option ℚ
  lastOutcome : String
deriving DecidableEq

structure StateReport where
  updatedAtTs : ℚ
  network : Network
  pollIntervalSec : Int
  staleAfterSec : Int
  degraded : Bool
  reasons : List String
  streams : List StreamView
deriving DecidableEq

/-- The report of the two loops over one `AutoState`, which differ in the key of the epochs. -/
def stateReport (epochsField : String) (state : AutoState) (network : Network)
    (pollIntervalSec staleAfterSec : Int) (now : ℚ) : StateReport :=
  { updatedAtTs := now
    network := network
    pollIntervalSec := pollIntervalSec
    staleAfterSec := staleAfterSec
    degraded := (state.evaluate now staleAfterSec).1
    reasons := (state.evaluate now staleAfterSec).2
    streams := (state.pruned now).streams.entries.map fun ks =>
      { stream := ks.1
        epochsField := epochsField
        epochs := ks.2.firstSeen.keys.mergeSort (fun a b => decide (a ≤ b))
        lastSuccessTs := ks.2.lastSuccessTs
        lastAttemptTs := ks.2.lastAttemptTs
        lastOutcome := ks.2.lastOutcome } }

/-- `build_report`. -/
def buildReport : AutoState → Network → Int → Int → ℚ → StateReport :=
  stateReport "claimable_epochs"

/-! ## What the writers do to a stream -/

/-- A cooldown that is not over is not pruned. -/
theorem Stream.get?_prune {s : Stream} {e : Int} {now until_ : ℚ}
    (hget : s.cooldownUntil.get? e = some until_) (hlt : now < until_) :
    (s.prune now).cooldownUntil.get? e = some until_ := by
  unfold Stream.prune Dict.eraseAll
  have hkeep : e ∉ (s.cooldownUntil.entries.filter fun x => x.2 ≤ now).map Prod.fst := by
    intro hmem
    obtain ⟨⟨e', v⟩, hin, rfl⟩ := List.mem_map.mp hmem
    obtain ⟨hentry, hle⟩ := List.mem_filter.mp hin
    rw [Dict.mem_entries.mp hentry] at hget
    cases hget
    exact absurd (of_decide_eq_true hle) (not_le.mpr hlt)
  rw [Dict.get?_filterKeys, if_pos (by simpa using hkeep)]
  exact hget

namespace AutoState

theorem inCooldown_recordTerminal {st : AutoState} {key : String} {epoch e : Int} {now : ℚ}
    {c : Int} (h : e ≠ epoch) :
    (st.recordTerminal key epoch now c).inCooldown key e now = st.inCooldown key e now := by
  simp [inCooldown, recordTerminal, Dict.get?_set, Ne.symm h]

@[simp] theorem active_recordTerminal {st : AutoState} {key : String} {epoch : Int} {now : ℚ}
    {c : Int} : (st.recordTerminal key epoch now c).active key = st.active key := by
  simp [active, recordTerminal]

@[simp] theorem active_recordAttempt {st : AutoState} {key : String} {now : ℚ} {o : String} :
    (st.recordAttempt key now o).active key = st.active key := by
  simp [active, recordAttempt]

@[simp] theorem active_recordSuccess {st : AutoState} {key : String} {now : ℚ} :
    (st.recordSuccess key now).active key = st.active key := by
  simp [active, recordSuccess]

theorem mem_see {es : List Int} {now : ℚ} {e : Int} :
    ∀ {d : Dict Int ℚ}, e ∈ (es.foldl (fun d e => d.setdefault e now) d).keys ↔
      e ∈ es ∨ e ∈ d.keys := by
  induction es with
  | nil => simp
  | cons x es ih =>
    intro d
    rw [List.foldl_cons, ih, Dict.mem_keys_setdefault, List.mem_cons]
    constructor
    · rintro (h | rfl | h)
      exacts [Or.inl (Or.inr h), Or.inl (Or.inl rfl), Or.inr h]
    · rintro ((rfl | h) | h)
      exacts [Or.inr (Or.inl rfl), Or.inl h, Or.inr (Or.inr h)]

/-- After `observe` the active epochs are the ones observed. -/
theorem mem_active_observe {st : AutoState} {key : String} {es : List Int} {now : ℚ} {e : Int} :
    e ∈ (st.observe key es now).active key ↔ e ∈ es := by
  simp only [active, observe, s_update, Dict.mem_keys_eraseAll, Stream.gone, List.mem_filter,
    Stream.see, mem_see, decide_eq_true_eq]
  constructor
  · rintro ⟨h, hn⟩
    by_contra he
    exact hn ⟨h, he⟩
  · exact fun h => ⟨Or.inl h, fun hn => hn.2 h⟩

/-! ### What `evaluate` finds -/

@[simp] theorem s_pruned {st : AutoState} {key : String} {now : ℚ} :
    (st.pruned now).s key = (st.s key).prune now := by
  have hget : (st.pruned now).streams.get? key =
      (st.streams.get? key).map fun s => s.prune now := by
    unfold pruned
    rw [Dict.get?_foldl_set (fun _ (s : Stream) => s.prune now) st.streams.nodup]
    cases h : st.streams.get? key with
    | none => simp [show Dict.lookupL st.streams.entries key = none from h]
    | some s => simp [show Dict.lookupL st.streams.entries key = some s from h]
  unfold AutoState.s
  rw [hget]
  cases st.streams.get? key with
  | none => rfl
  | some s => rfl

/-- The cooldown of the epoch is on at `now`; at a negative time a missing entry counts as one. -/
def hot (st : AutoState) (key : String) (epoch : Int) (now : ℚ) : Prop :=
  (∃ u, (st.s key).cooldownUntil.get? epoch = some u ∧ now < u) ∨ now < 0

theorem getD_prune {s : Stream} {epoch : Int} {now : ℚ} :
    now < ((s.prune now).cooldownUntil.get? epoch).getD 0 ↔
      (∃ u, s.cooldownUntil.get? epoch = some u ∧ now < u) ∨ now < 0 := by
  unfold Stream.prune Dict.eraseAll
  simp only [Dict.get?_filterKeys, List.mem_map, List.mem_filter, decide_eq_true_eq, Prod.exists,
    exists_and_right, exists_eq_right, Dict.mem_entries, decide_not, Bool.not_eq_true',
    decide_eq_false_iff_not]
  cases hu : s.cooldownUntil.get? epoch with
  | none => simp
  | some u =>
    by_cases hle : u ≤ now
    · simp [hle, not_lt.mpr hle]
    · have hlt : now < u := not_le.mp hle
      simp [hle, hlt]

theorem reasonsOf_ne_nil {s : Stream} {key : String} {now : ℚ} {stale epoch : Int} {seen : ℚ} :
    ¬s.reasonsOf key now stale epoch seen = [] ↔
      (stale : ℚ) < now - seen ∨ now < (s.cooldownUntil.get? epoch).getD 0 := by
  unfold Stream.reasonsOf
  by_cases h : (stale : ℚ) < now - seen
  · rw [if_pos h]
    simp [h]
  · rw [if_neg h]
    by_cases hc : now < (s.cooldownUntil.get? epoch).getD 0 <;> simp [h, hc]

/-- `evaluate` is degraded exactly when an epoch some stream counts as active is overdue or in
cooldown. -/
theorem evaluate_iff {st : AutoState} {now : ℚ} {stale : Int} :
    (st.evaluate now stale).1 = true ↔ ∃ key epoch seen,
      (st.s key).firstSeen.get? epoch = some seen ∧
        ((stale : ℚ) < now - seen ∨ st.hot key epoch now) := by
  have hreasons : (st.evaluate now stale).1 = true ↔
      ∃ key s, (st.pruned now).streams.get? key = some s ∧ ∃ epoch seen,
        s.firstSeen.get? epoch = some seen ∧
          ((stale : ℚ) < now - seen ∨ now < (s.cooldownUntil.get? epoch).getD 0) := by
    unfold evaluate Stream.reasons
    simp only [Bool.not_eq_true', List.isEmpty_eq_false_iff, ne_eq, List.flatMap_eq_nil_iff,
      Prod.forall, Dict.mem_entries, not_forall, exists_prop]
    exact exists_congr fun key => exists_congr fun s => and_congr_right fun _ =>
      exists_congr fun epoch => exists_congr fun seen => and_congr_right fun _ => reasonsOf_ne_nil
  rw [hreasons]
  constructor
  · rintro ⟨key, s, hs, epoch, seen, hseen, h⟩
    have hkey : (st.s key).prune now = s := by
      rw [← s_pruned, AutoState.s, hs]
      rfl
    subst hkey
    exact ⟨key, epoch, seen, hseen, h.imp_right getD_prune.mp⟩
  · rintro ⟨key, epoch, seen, hseen, h⟩
    cases hs : (st.pruned now).streams.get? key with
    | none =>
      have hempty : (st.s key).prune now = {} := by
        rw [← s_pruned, AutoState.s, hs]
        rfl
      have hfirst : ((st.s key).prune now).firstSeen.get? epoch = some seen := hseen
      rw [hempty] at hfirst
      cases hfirst
    | some s =>
      have hkey : (st.s key).prune now = s := by
        rw [← s_pruned, AutoState.s, hs]
        rfl
      refine ⟨key, s, hs, epoch, seen, ?_, ?_⟩
      · rw [← hkey]
        exact hseen
      · rw [← hkey]
        exact h.imp_right getD_prune.mpr

/-! ### The entries of one epoch -/

theorem get?_see {es : List Int} {now : ℚ} {e : Int} : ∀ {d : Dict Int ℚ},
    (es.foldl (fun d e => d.setdefault e now) d).get? e =
      if e ∈ es then some ((d.get? e).getD now) else d.get? e := by
  induction es with
  | nil => simp
  | cons x es ih =>
    intro d
    rw [List.foldl_cons, ih, Dict.get?_setdefault]
    by_cases hx : x = e
    · subst hx
      by_cases hmem : x ∈ es <;> simp [hmem]
    · by_cases hmem : e ∈ es <;> simp [hmem, hx, Ne.symm hx]

section

variable {st : AutoState} {key key' : String} {now : ℚ}

@[simp] theorem firstSeen_recordAttempt {o : String} :
    ((st.recordAttempt key now o).s key').firstSeen = (st.s key').firstSeen := by
  by_cases h : key = key'
  · subst h
    simp [recordAttempt]
  · rw [recordAttempt, s_update_of_ne h]

@[simp] theorem cooldownUntil_recordAttempt {o : String} :
    ((st.recordAttempt key now o).s key').cooldownUntil = (st.s key').cooldownUntil := by
  by_cases h : key = key'
  · subst h
    simp [recordAttempt]
  · rw [recordAttempt, s_update_of_ne h]

@[simp] theorem firstSeen_recordTerminal {epoch c : Int} :
    ((st.recordTerminal key epoch now c).s key').firstSeen = (st.s key').firstSeen := by
  by_cases h : key = key'
  · subst h
    simp [recordTerminal]
  · rw [recordTerminal, s_update_of_ne h]

theorem cooldown_recordTerminal {epoch e c : Int} :
    ((st.recordTerminal key epoch now c).s key').cooldownUntil.get? e =
      if key = key' ∧ epoch = e then some (now + c) else (st.s key').cooldownUntil.get? e := by
  by_cases h : key = key'
  · subst h
    by_cases he : epoch = e
    · simp [recordTerminal, he]
    · simp [recordTerminal, Dict.get?_set, he]
  · rw [recordTerminal, s_update_of_ne h, if_neg fun hc => h hc.1]

@[simp] theorem firstSeen_recordSuccess :
    ((st.recordSuccess key now).s key').firstSeen = (st.s key').firstSeen := by
  by_cases h : key = key'
  · subst h
    simp [recordSuccess]
  · rw [recordSuccess, s_update_of_ne h]

@[simp] theorem cooldownUntil_recordSuccess :
    ((st.recordSuccess key now).s key').cooldownUntil = (st.s key').cooldownUntil := by
  by_cases h : key = key'
  · subst h
    simp [recordSuccess]
  · rw [recordSuccess, s_update_of_ne h]

theorem firstSeen_observe {es : List Int} {e : Int} :
    ((st.observe key es now).s key').firstSeen.get? e =
      if key = key' then
        if e ∈ es then some (((st.s key').firstSeen.get? e).getD now) else none
      else (st.s key').firstSeen.get? e := by
  by_cases h : key = key'
  · subst h
    have hsee : ((st.s key).see es now).get? e = if e ∈ es then
        some (((st.s key).firstSeen.get? e).getD now) else (st.s key).firstSeen.get? e := get?_see
    have hkeys : e ∈ ((st.s key).see es now).keys ↔ e ∈ es ∨ e ∈ (st.s key).firstSeen.keys :=
      mem_see
    simp only [observe, s_update, Dict.eraseAll, Dict.get?_filterKeys, if_true]
    by_cases he : e ∈ es
    · have hkeep : e ∉ (st.s key).gone es now := fun hg => by simp [Stream.gone, he] at hg
      rw [if_pos (by simpa using hkeep), if_pos he, hsee, if_pos he]
    · rw [if_neg he]
      by_cases hin : e ∈ (st.s key).firstSeen.keys
      · have hgone : e ∈ (st.s key).gone es now := by simp [Stream.gone, he, hkeys, hin]
        rw [if_neg (by simpa using hgone)]
      · have hnone : (st.s key).firstSeen.get? e = none := by
          rwa [← Option.not_isSome_iff_eq_none, ← Dict.mem_keys]
        rw [hsee, if_neg he, hnone, ite_self]
  · rw [observe, s_update_of_ne h, if_neg h]

/-- `observe` keeps the cooldown of an epoch it is given, and adds none. -/
theorem cooldown_observe {es : List Int} {e : Int} :
    (e ∈ es → ((st.observe key es now).s key').cooldownUntil.get? e =
      (st.s key').cooldownUntil.get? e) ∧
    ∀ v, ((st.observe key es now).s key').cooldownUntil.get? e = some v →
      (st.s key').cooldownUntil.get? e = some v := by
  by_cases h : key = key'
  · subst h
    simp only [observe, s_update, Dict.eraseAll, Dict.get?_filterKeys]
    constructor
    · intro he
      have hkeep : e ∉ (st.s key).gone es now := fun hg => by simp [Stream.gone, he] at hg
      rw [if_pos (by simpa using hkeep)]
    · intro v hv
      split at hv
      · exact hv
      · cases hv
  · rw [observe, s_update_of_ne h]
    exact ⟨fun _ => rfl, fun _ hv => hv⟩

end

end AutoState

end Clif
