import Clif.ClaimAuto
import Clif.ClaimSettled

/-!
# ClaimConfirm — "confirmed claimed" in `clif auto`

An epoch that a discovery no longer finds counts as claimed.  `confirmed_true` says when that is so:
every epoch of the stream's last discovery must be passed by the next claimable epoch or still be
discoverable.  It is about the passes and the reports of which the cycles consist
(`autoCycle_events`).
-/

namespace Clif

open Effect

/-! ## The events of the loop -/

/-- One pass over a stream: the exchanges of its discovery, what that found if it ended without an
exception, the exchanges after it and the lines logged. -/
structure StreamEvent where
  key : String
  claimType : Int
  beneficiary : String
  now : ℚ
  disc : Trace
  found : Option (List Int)
  rest : Trace
  lines : List AutoLine

inductive AutoEvent where
  | pass (p : StreamEvent)
  | report (now : ℚ) (rep : StateReport)

def AutoEvent.trace : AutoEvent → Trace
  | .pass p => p.disc ++ p.rest
  | .report _ _ => []

/-- The epochs the pass logs as claimed. -/
def StreamEvent.claimed (p : StreamEvent) : List Int := p.lines.flatMap AutoLine.claimed

section

variable [External]

inductive AutoStep (s : Settings) (interval : Int) : AutoLoop → AutoEvent → AutoLoop → Prop
  | pass {u u' : AutoLoop} {ct : Int} {b : String} {now : ℚ} {disc rest : Trace}
      {x : Except Exc (List RewardClaimWithProof)} {r : Except Exc Unit} {lines : List AutoLine}
      (hdisc : Runs (collectRewardClaims s b ct none) disc x)
      (h : RunsOn (streamPass s now ct b) u (disc ++ rest) r u') (hlog : u'.log = u.log ++ lines) :
      AutoStep s interval u
        (.pass ⟨streamKey s.network ct b, ct, b, now, disc, foundOf x, rest, lines⟩) u'
  | report {u u' : AutoLoop} {now : ℚ} {rep : StateReport}
      (h : RunsOn (autoReport s interval now) u [] (.ok rep) u') :
      AutoStep s interval u (.report now rep) u'

/-- One cycle with the events it consists of.  A cycle that raises is the last of its process. -/
inductive LoopCycle (s : Settings) (pairs : List (Int × String)) (interval : Int) :
    AutoLoop → List AutoEvent → AutoLoop → Prop
  | cycle {u u' : AutoLoop} {now reportNow : ℚ} {t : Trace} {r : Except Exc StateReport}
      {evs : List AutoEvent} (h : RunsOn (autoCycle s pairs interval now reportNow) u t r u')
      (hevs : Run (AutoStep s interval) u evs u') (hwhole : evs.flatMap AutoEvent.trace = t) :
      LoopCycle s pairs interval u evs u'

variable {s : Settings} {interval : Int} {now reportNow : ℚ} {u u' : AutoLoop}

omit [External] in
theorem runsOn_autoReport {t : Trace} {r : Except Exc StateReport}
    (h : RunsOn (autoReport s interval reportNow) u t r u') : t = [] ∧
      r = .ok (buildReport u.auto s.network interval s.staleAfterSec reportNow) ∧
      u' = { u with auto := u.auto.pruned reportNow } := by
  unfold autoReport at h
  rw [runsOn_get_bind, runsOn_modify_bind] at h
  obtain ⟨rfl, hrep, rfl⟩ := runsOn_pure.mp h
  exact ⟨rfl, hrep, rfl⟩

omit [External] in
/-- What a pass adds to the log. -/
theorem Passed.log {key : String} {found : Option (List Int)} (h : Passed s key now u found u') :
    ∃ lines, u'.log = u.log ++ lines := by
  cases h with
  | unread msg => exact ⟨_, rfl⟩
  | raised => exact ⟨[], (List.append_nil _).symm⟩
  | found h =>
    obtain ⟨ls, hls, -⟩ := @AutoLoop.log_observe key now u (epochsOf _)
    obtain ⟨ls', hls', -⟩ := h.lines
    exact ⟨ls ++ ls', by rw [hls', hls, List.append_assoc]⟩

theorem streamPass_event {ct : Int} {b : String} {t : Trace} {r : Except Exc Unit}
    (h : RunsOn (streamPass s now ct b) u t r u') :
    ∃ ev, AutoStep s interval u ev u' ∧ ev.trace = t := by
  obtain ⟨x, t₁, t₂, rfl, hdisc, hpassed⟩ := streamPass_cases h
  obtain ⟨lines, hlog⟩ := hpassed.log
  exact ⟨_, .pass hdisc h hlog, rfl⟩

theorem streamPasses_events : ∀ {pairs : List (Int × String)} {u u' : AutoLoop} {t : Trace}
    {r : Except Exc Unit}, RunsOn (streamPasses s now pairs) u t r u' →
      ∃ evs, Run (AutoStep s interval) u evs u' ∧ evs.flatMap AutoEvent.trace = t := by
  intro pairs
  induction pairs with
  | nil =>
    intro u u' t r h
    obtain ⟨rfl, -, rfl⟩ := runsOn_pure.mp h
    exact ⟨[], .nil, rfl⟩
  | cons pair pairs ih =>
    intro u u' t r h
    obtain ⟨ct, b⟩ := pair
    unfold streamPasses at h
    rcases runsOn_bind.mp h with ⟨⟨⟩, u₁, t₁, t₂, rfl, h₁, h₂⟩ | ⟨x, h₁, rfl⟩
    · obtain ⟨ev, hev, rfl⟩ := streamPass_event h₁
      obtain ⟨evs, hevs, rfl⟩ := ih h₂
      exact ⟨ev :: evs, Run.cons hev hevs, rfl⟩
    · obtain ⟨ev, hev, rfl⟩ := streamPass_event h₁
      exact ⟨[ev], .single hev, by simp⟩

/-- A cycle consists of passes and, unless one of them raises, its report. -/
theorem autoCycle_events {pairs : List (Int × String)} {t : Trace} {r : Except Exc StateReport}
    (h : RunsOn (autoCycle s pairs interval now reportNow) u t r u') :
    ∃ evs, LoopCycle s pairs interval u evs u' := by
  have hrun := h
  unfold autoCycle at h
  rcases runsOn_bind.mp h with ⟨⟨⟩, u₁, t₁, t₂, rfl, h₁, h₂⟩ | ⟨x, h₁, rfl⟩
  · obtain ⟨evs, hevs, hwhole⟩ := @streamPasses_events _ _ interval _ _ _ _ _ _ h₁
    obtain ⟨rfl, rfl, -⟩ := runsOn_autoReport h₂
    exact ⟨_, .cycle hrun (.snoc hevs (.report h₂)) (by simp [hwhole, AutoEvent.trace])⟩
  · obtain ⟨evs, hevs, hwhole⟩ := @streamPasses_events _ _ interval _ _ _ _ _ _ h₁
    exact ⟨evs, .cycle hrun hevs hwhole⟩

/-- The cycles of a run are one run of their events. -/
theorem loopRun_events {pairs : List (Int × String)} {cycles : List (List AutoEvent)}
    (h : Run (LoopCycle s pairs interval) u cycles u') :
    Run (AutoStep s interval) u cycles.flatten u' := by
  induction h with
  | nil => exact .nil
  | snoc h hs ih =>
    cases hs with
    | cycle hrun hevs hwhole =>
      rw [List.flatten_append, List.flatten_singleton]
      exact ih.append hevs

end

/-! ## What the discovery finds -/

section

variable [External]

/-- The file, checked against the hash `h`, proves the claim of the stream. -/
def RewardsData.Proves (d : RewardsData) (h b : String) (ct : Int) (claim : RewardClaimWithProof) :
    Prop :=
  Py.lower d.merkleRoot = Py.lower h ∧
    ∃ c, d.entryFor b ct = some c ∧ provenClaim d.merkleRoot c = .ok (some claim)

/-- A file was fetched, and with the hash read after it, it proves the claim of the stream. -/
def ClaimFetched (s : Settings) (b : String) (ct : Int) (claim : RewardClaimWithProof) (t : Trace) :
    Prop :=
  ∃ pre post x d h, t = pre ++ ⟨.readRewardCalculationData s.network x, some d⟩ ::
    ⟨.rpc (.rewardsHash s.net.flareSystemsManager x), .result h⟩ :: post ∧ d.Proves h b ct claim

/-- The epoch is discoverable: a claim for it was fetched. -/
def Discoverable (s : Settings) (b : String) (ct : Int) (e : Int) (t : Trace) : Prop :=
  ∃ claim, ClaimFetched s b ct claim t ∧ claim.body.rewardEpochId = e

variable {s : Settings} {b : String} {ct : Int}

theorem ClaimFetched.prepend {claim : RewardClaimWithProof} {t : Trace}
    (h : ClaimFetched s b ct claim t) (t' : Trace) : ClaimFetched s b ct claim (t' ++ t) := by
  obtain ⟨pre, post, x, d, h, rfl, hd⟩ := h
  exact ⟨t' ++ pre, post, x, d, h, (List.append_assoc ..).symm, hd⟩

/-- Exchanges without a file fetch no claim. -/
theorem claimFetched_append {claim : RewardClaimWithProof} {t t' : Trace}
    (hnone : ∀ ev ∈ t', fileOf ev = none) :
    ClaimFetched s b ct claim (t' ++ t) ↔ ClaimFetched s b ct claim t := by
  refine ⟨?_, fun h => h.prepend t'⟩
  induction t' with
  | nil => exact id
  | cons ev t' ih =>
    rintro ⟨pre, post, x, d, h, heq, hd⟩
    cases pre with
    | nil =>
      obtain ⟨rfl, -⟩ := List.cons.inj heq
      cases hnone _ List.mem_cons_self
    | cons ev' pre =>
      obtain ⟨-, hrest⟩ := List.cons.inj heq
      exact ih (fun ev hev => hnone ev (List.mem_cons_of_mem _ hev)) ⟨pre, post, x, d, h, hrest, hd⟩

/-- One epoch: no file, or a file and the hash it is checked against. -/
theorem rewardClaimFor_reads {x : Int} {t : Trace} {rc : Option RewardClaimWithProof}
    (hrun : Runs (rewardClaimFor s x b ct) t (.ok rc)) :
    (t = [⟨.readRewardCalculationData s.network x, none⟩] ∧ rc = none) ∨
      ∃ d h, t = [⟨.readRewardCalculationData s.network x, some d⟩,
          ⟨.rpc (.rewardsHash s.net.flareSystemsManager x), .result h⟩] ∧
        ∀ claim, rc = some claim ↔ d.Proves h b ct claim := by
  unfold rewardClaimFor getRewardCalculationData at hrun
  obtain ⟨f, t₁, rfl, h₁⟩ := runs_ask_bind.mp hrun
  cases f with
  | none =>
    obtain ⟨rfl, hrc⟩ := runs_pure.mp h₁
    exact .inl ⟨rfl, Except.ok.inj hrc⟩
  | some d =>
    obtain ⟨ans, t₂, rfl, hcase⟩ := runs_rpc_bind.mp h₁
    rcases hcase with ⟨h, hans, h₂⟩ | ⟨_, -, -, hraise⟩
    swap
    · cases hraise
    obtain rfl := rpcResult_eq_ok hans
    right
    split at h₂
    · rename_i hne
      obtain ⟨rfl, hrc⟩ := runs_pure.mp h₂
      obtain rfl := Except.ok.inj hrc
      have hdiff : Py.lower d.merkleRoot ≠ Py.lower h := by simpa using hne
      exact ⟨d, h, rfl, fun claim => ⟨nofun, fun hp => absurd hp.1 hdiff⟩⟩
    · rename_i heq
      have hsame : Py.lower d.merkleRoot = Py.lower h := by simpa using heq
      split at h₂
      · rename_i hnone
        obtain ⟨rfl, hrc⟩ := runs_pure.mp h₂
        obtain rfl := Except.ok.inj hrc
        refine ⟨d, h, rfl, fun claim => ⟨nofun, ?_⟩⟩
        rintro ⟨-, c, hc, -⟩
        rw [hnone] at hc
        cases hc
      · rename_i c hentry
        obtain ⟨rfl, hrc⟩ := runs_fromExcept.mp h₂
        refine ⟨d, h, rfl, fun claim => ⟨?_, ?_⟩⟩
        · rintro rfl
          exact ⟨hsame, c, hentry, hrc.symm⟩
        · rintro ⟨-, c', hc', hp⟩
          rw [hentry] at hc'
          obtain rfl := Option.some.inj hc'
          rw [hp] at hrc
          exact Except.ok.inj hrc

/-- The claims collected are the ones whose file was fetched. -/
theorem mem_claimsOf {claim : RewardClaimWithProof} : ∀ {epochs : List Int} {t : Trace}
    {claims : List RewardClaimWithProof}, Runs (claimsOf s b ct epochs) t (.ok claims) →
      (claim ∈ claims ↔ ClaimFetched s b ct claim t) := by
  intro epochs
  induction epochs with
  | nil =>
    intro t claims h
    obtain ⟨rfl, hnil⟩ := runs_pure.mp h
    rw [Except.ok.inj hnil]
    refine ⟨nofun, ?_⟩
    rintro ⟨pre, post, x, d, h, heq, -⟩
    simp at heq
  | cons epoch epochs ih =>
    intro t claims h
    unfold claimsOf at h
    obtain ⟨rc, t₁, t₂, rfl, hrc, hrest⟩ := runs_bind_eq_ok h
    obtain ⟨rcs, t₃, t₄, rfl, hrcs, hlast⟩ := runs_bind_eq_ok hrest
    obtain ⟨rfl, hclaims⟩ := runs_pure.mp hlast
    rw [Except.ok.inj hclaims, List.append_nil, List.mem_append, ih hrcs, Option.mem_toList]
    rcases rewardClaimFor_reads hrc with ⟨rfl, rfl⟩ | ⟨d, hash, rfl, hproves⟩
    · constructor
      · rintro (hc | hf)
        · cases hc
        · exact hf.prepend _
      · rintro ⟨pre, post, x, d, h, heq, hd⟩
        cases pre with
        | nil => cases (List.cons.inj heq).1
        | cons ev pre => exact .inr ⟨pre, post, x, d, h, (List.cons.inj heq).2, hd⟩
    · rw [hproves]
      constructor
      · rintro (hp | hf)
        · exact ⟨[], t₃, epoch, d, hash, by simp, hp⟩
        · exact hf.prepend _
      · rintro ⟨pre, post, x, d', h', heq, hd⟩
        -- the exchanges at hand are the first two, or later ones
        cases pre with
        | nil =>
          obtain ⟨hfile, hrest⟩ := List.cons.inj heq
          obtain ⟨hhash, -⟩ := List.cons.inj hrest
          cases hfile
          cases hhash
          exact .inl hd
        | cons ev pre =>
          obtain ⟨-, hrest⟩ := List.cons.inj heq
          cases pre with
          | nil => cases (List.cons.inj hrest).1
          | cons ev' pre => exact .inr ⟨pre, post, x, d', h', (List.cons.inj hrest).2, hd⟩

/-- A discovery that ends without an exception finds the discoverable epochs. -/
theorem mem_found {t : Trace} {claims : List RewardClaimWithProof} {e : Int}
    (h : Runs (collectRewardClaims s b ct none) t (.ok claims)) :
    e ∈ epochsOf claims ↔ Discoverable s b ct e t := by
  obtain ⟨ids, t₁, t₂, rfl, hids, hclaims⟩ := runs_bind_eq_ok h
  have hnone : ∀ ev ∈ t₁, fileOf ev = none := emits_claimableEpochIds_file _ _ hids
  simp only [epochsOf, List.mem_map, Discoverable, claimFetched_append hnone]
  exact exists_congr fun claim => and_congr_left fun _ => mem_claimsOf hclaims

end

/-! ## What one event changes -/

/-- The epochs the last discovery of the stream found, after the event. -/
def AutoEvent.foundFor (key : String) (before : List Int) : AutoEvent → List Int
  | .pass p => if p.key = key then p.found.getD before else before
  | .report _ _ => before

/-- The epochs the last discovery of the stream found. -/
def lastFound (key : String) (evs : List AutoEvent) : List Int :=
  evs.foldl (AutoEvent.foundFor key) []

theorem lastFound_snoc {key : String} {evs : List AutoEvent} {ev : AutoEvent} :
    lastFound key (evs ++ [ev]) = ev.foundFor key (lastFound key evs) := by
  simp [lastFound]

/-- The pass of the stream read a next claimable epoch above `e`. -/
def AutoEvent.Passes (s : Settings) (key : String) (e : Int) : AutoEvent → Prop
  | .pass p => p.key = key ∧ ClaimedRead s e p.beneficiary p.disc
  | .report _ _ => False

/-- The pass of the stream ended terminally with `e` its last epoch. -/
def AutoEvent.Ends (key : String) (e : Int) : AutoEvent → Prop
  | .pass p => p.key = key ∧ TerminalAt p.lines e
  | .report _ _ => False

/-- The report finds a cooldown until `v` over. -/
def AutoEvent.Expires (v : ℚ) : AutoEvent → Prop
  | .pass _ => False
  | .report now _ => v ≤ now

theorem terminalAt_append {ls ls' : List AutoLine} {e : Int} :
    TerminalAt (ls ++ ls') e ↔ TerminalAt ls e ∨ TerminalAt ls' e := by
  simp only [TerminalAt, List.mem_append, or_and_right, exists_or]

section

variable {s : Settings} {key : String} {now : ℚ} {found : Option (List Int)} {u u' : AutoLoop}
  {lines : List AutoLine}

/-- A pass claims what is gone. -/
theorem Passed.claimed (h : Passed s key now u found u') (hlog : u'.log = u.log ++ lines) :
    lines.flatMap AutoLine.claimed =
      found.elim [] fun es => (u.auto.s key).gone es now := by
  cases h with
  | unread msg =>
    rw [← List.append_cancel_left hlog]
    rfl
  | raised =>
    rw [List.self_eq_append_right.mp hlog]
    rfl
  | @found claims u' h =>
    obtain ⟨ls, hls, hgone, -⟩ := @AutoLoop.log_observe key now u (epochsOf claims)
    obtain ⟨ls', hls', hnone, -⟩ := h.lines
    have heq : ls ++ ls' = lines := by
      rw [hls', hls, List.append_assoc] at hlog
      exact List.append_cancel_left hlog
    rw [← heq, List.flatMap_append, hgone, List.flatMap_eq_nil_iff.mpr hnone, List.append_nil]
    rfl

theorem Passed.firstSeen (h : Passed s key now u found u') (key' : String) (e : Int) :
    (u'.auto.s key').firstSeen.get? e = found.elim ((u.auto.s key').firstSeen.get? e) fun es =>
      if key = key' then
        if e ∈ es then some (((u.auto.s key').firstSeen.get? e).getD now) else none
      else (u.auto.s key').firstSeen.get? e := by
  cases h with
  | unread msg => simp [AutoLoop.unread]
  | raised => rfl
  | found h =>
    rw [h.firstSeen, (AutoLoop.auto_observe key').1, AutoState.firstSeen_observe]
    rfl

/-- A pass keeps the cooldown of every epoch it finds, unless it ends terminally with it. -/
theorem Passed.cooldown (h : Passed s key now u found u') (hlog : u'.log = u.log ++ lines)
    {key' : String} {e : Int} (hin : ∀ es, found = some es → key = key' → e ∈ es)
    (hend : ¬ (key = key' ∧ TerminalAt lines e)) :
    (u'.auto.s key').cooldownUntil.get? e = (u.auto.s key').cooldownUntil.get? e := by
  cases h with
  | unread msg => simp [AutoLoop.unread]
  | raised => rfl
  | @found claims u' h =>
    obtain ⟨ls, hls, -, -⟩ := @AutoLoop.log_observe key now u (epochsOf claims)
    obtain ⟨ls', hls', -, hcool⟩ := h.lines
    have heq : ls ++ ls' = lines := by
      rw [hls', hls, List.append_assoc] at hlog
      exact List.append_cancel_left hlog
    rw [hcool key' e fun hls => hend ⟨hls.1, heq ▸ terminalAt_append.mpr (.inr hls.2)⟩,
      (AutoLoop.auto_observe key').2]
    by_cases hkey : key = key'
    · exact AutoState.cooldown_observe.1 (hin _ rfl hkey)
    · rw [AutoState.observe, AutoState.s_update_of_ne hkey]

end

section

variable [External] {s : Settings} {interval : Int} {u u' : AutoLoop}

/-- A pass of the run, by what its discovery found. -/
theorem AutoStep.passed {p : StreamEvent} (h : AutoStep s interval u (.pass p) u') :
    Passed s p.key p.now u p.found u' ∧ u'.log = u.log ++ p.lines ∧
      ∀ es, p.found = some es → ∀ e,
        e ∈ es ↔ Discoverable s p.beneficiary p.claimType e p.disc := by
  cases h with
  | @pass _ ct b now disc rest x r lines hdisc h hlog =>
    obtain ⟨x', t₁, t₂, heq, hdisc', hpassed⟩ := streamPass_cases h
    obtain ⟨rfl, rfl, rfl⟩ := Prog.Runs.prefix_unique hdisc hdisc' heq
    refine ⟨hpassed, hlog, fun es hes e => ?_⟩
    cases x with
    | error exc => cases hes
    | ok claims =>
      cases hes
      exact mem_found hdisc

/-- The epochs the stream counts as active are those its last discovery found. -/
def ActiveFound (evs : List AutoEvent) (u : AutoLoop) : Prop :=
  ∀ key e, e ∈ u.auto.active key ↔ e ∈ lastFound key evs

theorem AutoStep.active {evs : List AutoEvent} {ev : AutoEvent} (h : AutoStep s interval u ev u')
    (hi : ActiveFound evs u) : ActiveFound (evs ++ [ev]) u' := by
  intro key e
  rw [lastFound_snoc]
  cases ev with
  | report now rep =>
    cases h with
    | report hrep =>
      obtain ⟨-, -, rfl⟩ := runsOn_autoReport hrep
      simpa [AutoState.active, Stream.prune, AutoEvent.foundFor] using hi key e
  | pass p =>
    obtain ⟨hpassed, -, -⟩ := h.passed
    have hold := hi key e
    simp only [AutoState.active, Dict.mem_keys] at hold ⊢
    rw [hpassed.firstSeen key e]
    simp only [AutoEvent.foundFor]
    cases hfound : p.found with
    | none => simpa using hold
    | some es =>
      by_cases hkey : p.key = key
      · by_cases hin : e ∈ es <;> simp [hkey, hin]
      · simpa [hkey] using hold

theorem autoRun_active {evs : List AutoEvent} (h : Run (AutoStep s interval) {} evs u) :
    ActiveFound evs u := by
  refine Run.invariant (fun evs u => ActiveFound evs u) (fun key e => ?_) ?_ h
  · simp [AutoState.active, AutoState.s, lastFound]
  · intro evs u₁ ev u₂ _ hi hs
    exact hs.active hi

variable (s) in
/-- Every epoch of the stream's last discovery is passed by the next claimable epoch that the event
reads, or is discoverable in it. -/
def AutoEvent.Safe (pre : List AutoEvent) : AutoEvent → Prop
  | .pass p => p.found.isSome = true → ∀ e ∈ lastFound p.key pre,
      ClaimedRead s e p.beneficiary p.disc ∨
        Discoverable s p.beneficiary p.claimType e p.disc
  | .report _ _ => True

/-- An active epoch that a safe pass does not find was passed. -/
theorem AutoStep.passed_of_lost {pre : List AutoEvent} {p : StreamEvent} {es : List Int} {e : Int}
    (h : AutoStep s interval u (.pass p) u') (hi : ActiveFound pre u)
    (hsafe : (AutoEvent.pass p).Safe s pre) (hes : p.found = some es)
    (hact : e ∈ u.auto.active p.key) (hlost : e ∉ es) : ClaimedRead s e p.beneficiary p.disc := by
  obtain ⟨-, -, hfind⟩ := h.passed
  rcases hsafe (by rw [hes]; rfl) e ((hi p.key e).mp hact) with hread | hdisc
  · exact hread
  · exact absurd ((hfind es hes e).mpr hdisc) hlost

/-- What a safe pass logs as claimed was passed. -/
theorem AutoStep.claimed {pre : List AutoEvent} {p : StreamEvent} {e : Int}
    (h : AutoStep s interval u (.pass p) u') (hi : ActiveFound pre u)
    (hsafe : (AutoEvent.pass p).Safe s pre) (he : e ∈ p.claimed) :
    ClaimedRead s e p.beneficiary p.disc := by
  obtain ⟨hpassed, hlog, -⟩ := h.passed
  rw [StreamEvent.claimed, hpassed.claimed hlog] at he
  cases hes : p.found with
  | none =>
    rw [hes] at he
    cases he
  | some es =>
    rw [hes] at he
    obtain ⟨hseen, hlost⟩ : e ∈ ((u.auto.s p.key).see es p.now).keys ∧ e ∉ es := by
      simpa [Stream.gone] using he
    have hact : e ∈ u.auto.active p.key := (AutoState.mem_see.mp hseen).resolve_left hlost
    exact h.passed_of_lost hi hsafe hes hact hlost

/-- A safe event keeps the clock and the cooldown of an epoch that it does not pass. -/
theorem AutoStep.kept {pre : List AutoEvent} {ev : AutoEvent} {key : String} {e : Int} {τ : ℚ}
    (h : AutoStep s interval u ev u') (hi : ActiveFound pre u) (hsafe : ev.Safe s pre)
    (hseen : (u.auto.s key).firstSeen.get? e = some τ) (hpass : ¬ ev.Passes s key e) :
    (u'.auto.s key).firstSeen.get? e = some τ ∧
      ∀ v, (u.auto.s key).cooldownUntil.get? e = some v → ¬ ev.Ends key e → ¬ ev.Expires v →
        (u'.auto.s key).cooldownUntil.get? e = some v := by
  cases ev with
  | report now rep =>
    cases h with
    | report hrep =>
      obtain ⟨-, -, rfl⟩ := runsOn_autoReport hrep
      refine ⟨by simpa [Stream.prune] using hseen, fun v hv _ hexp => ?_⟩
      rw [AutoState.s_pruned]
      exact Stream.get?_prune hv (not_le.mp hexp)
  | pass p =>
    obtain ⟨hpassed, hlog, -⟩ := h.passed
    have hact : e ∈ u.auto.active key := by
      rw [AutoState.active, Dict.mem_keys, hseen]
      rfl
    have hin : ∀ es, p.found = some es → p.key = key → e ∈ es := by
      rintro es hes rfl
      by_contra hlost
      exact hpass ⟨rfl, h.passed_of_lost hi hsafe hes hact hlost⟩
    refine ⟨?_, fun v hv hend _ => ?_⟩
    · rw [hpassed.firstSeen key e]
      cases hes : p.found with
      | none => exact hseen
      | some es =>
        by_cases hkey : p.key = key
        · simp [hkey, hin es hes hkey, hseen]
        · simpa [hkey] using hseen
    · rw [hpassed.cooldown hlog hin hend, hv]

/-! ## Runs of the loop -/

variable (s interval) in
/-- What is logged as claimed was passed on chain; an epoch that was not keeps its clock and its
cooldown. -/
structure ConfirmedTrue (evs : List AutoEvent) : Prop where
  claimed : ∀ p, .pass p ∈ evs → ∀ e ∈ p.claimed, ClaimedRead s e p.beneficiary p.disc
  kept : ∀ pre mid post u₁ u₂, evs = pre ++ mid ++ post → Run (AutoStep s interval) {} pre u₁ →
    Run (AutoStep s interval) u₁ mid u₂ → ∀ key e τ, (u₁.auto.s key).firstSeen.get? e = some τ →
      (∀ ev ∈ mid, ¬ ev.Passes s key e) → (u₂.auto.s key).firstSeen.get? e = some τ ∧
        ∀ v, (u₁.auto.s key).cooldownUntil.get? e = some v → (∀ ev ∈ mid, ¬ ev.Ends key e) →
          (∀ ev ∈ mid, ¬ ev.Expires v) → (u₂.auto.s key).cooldownUntil.get? e = some v

/-- Through safe events that do not pass it, an epoch keeps its clock and its cooldown. -/
theorem autoRun_kept {pre mid : List AutoEvent} {key : String} {e : Int} {τ : ℚ}
    (hpre : Run (AutoStep s interval) {} pre u) (h : Run (AutoStep s interval) u mid u')
    (hsafe : ∀ pre' ev post', mid = pre' ++ ev :: post' → ev.Safe s (pre ++ pre'))
    (hseen : (u.auto.s key).firstSeen.get? e = some τ)
    (hpass : ∀ ev ∈ mid, ¬ ev.Passes s key e) : (u'.auto.s key).firstSeen.get? e = some τ ∧
      ∀ v, (u.auto.s key).cooldownUntil.get? e = some v → (∀ ev ∈ mid, ¬ ev.Ends key e) →
        (∀ ev ∈ mid, ¬ ev.Expires v) → (u'.auto.s key).cooldownUntil.get? e = some v := by
  induction h with
  | nil => exact ⟨hseen, fun v hv _ _ => hv⟩
  | @snoc mid u₁ ev u₂ h hs ih =>
    have hmid : ∀ ev' ∈ mid, ev' ∈ mid ++ [ev] := fun _ hmem => List.mem_append_left _ hmem
    have hev : ev ∈ mid ++ [ev] := List.mem_append_right _ (List.mem_singleton_self _)
    obtain ⟨hseen₁, hcool₁⟩ := ih
      (fun pre' ev' post' heq => hsafe pre' ev' (post' ++ [ev]) (by rw [heq]; simp))
      fun ev' hmem => hpass ev' (hmid ev' hmem)
    obtain ⟨hseen₂, hcool₂⟩ := hs.kept (autoRun_active (hpre.append h)) (hsafe mid ev [] rfl) hseen₁
      (hpass ev hev)
    refine ⟨hseen₂, fun v hv hend hexp => hcool₂ v ?_ (hend ev hev) (hexp ev hev)⟩
    exact hcool₁ v hv (fun ev' hmem => hend ev' (hmid ev' hmem))
      fun ev' hmem => hexp ev' (hmid ev' hmem)

/-- A pass all of whose claims were passed is safe. -/
theorem AutoStep.safe_of_claimed {pre : List AutoEvent} {p : StreamEvent}
    (h : AutoStep s interval u (.pass p) u') (hi : ActiveFound pre u)
    (hclaimed : ∀ e ∈ p.claimed, ClaimedRead s e p.beneficiary p.disc) :
    (AutoEvent.pass p).Safe s pre := by
  intro hfound e he
  obtain ⟨hpassed, hlog, hfind⟩ := h.passed
  obtain ⟨es, hes⟩ := Option.isSome_iff_exists.mp hfound
  by_cases hin : e ∈ es
  · exact .inr ((hfind es hes e).mp hin)
  · refine .inl (hclaimed e ?_)
    rw [StreamEvent.claimed, hpassed.claimed hlog, hes]
    have hact : e ∈ u.auto.active p.key := (hi p.key e).mpr he
    have hseen : e ∈ ((u.auto.s p.key).see es p.now).keys := AutoState.mem_see.mpr (.inr hact)
    simpa [Stream.gone, hin] using hseen

/-- The loop confirms what was claimed exactly when all its events are safe. -/
theorem confirmed_true {pairs : List (Int × String)} {cycles : List (List AutoEvent)}
    (h : Run (LoopCycle s pairs interval) {} cycles u) :
    ConfirmedTrue s interval cycles.flatten ↔ Guarded (AutoEvent.Safe s) cycles.flatten := by
  have hrun := loopRun_events h
  have hat : ∀ pre ev post, cycles.flatten = pre ++ ev :: post → ∃ u₁ u₂, ActiveFound pre u₁ ∧
      AutoStep s interval u₁ ev u₂ := by
    intro pre ev post heq
    rw [heq] at hrun
    obtain ⟨u₁, hpre, hrest⟩ := hrun.append_inv
    obtain ⟨u₂, hstep, -⟩ := hrest.cons_inv
    exact ⟨u₁, u₂, autoRun_active hpre, hstep⟩
  constructor
  · intro htrue pre ev post heq
    obtain ⟨u₁, u₂, hi, hstep⟩ := hat pre ev post heq
    cases ev with
    | report now rep => trivial
    | pass p => exact hstep.safe_of_claimed hi (htrue.claimed p (by rw [heq]; simp))
  · intro hsafe
    refine ⟨fun p hp e he => ?_, fun pre mid post u₁ u₂ heq hpre hmid key e τ hseen hpass => ?_⟩
    · obtain ⟨pre, post, heq⟩ := List.append_of_mem hp
      obtain ⟨u₁, u₂, hi, hstep⟩ := hat pre _ post heq
      exact hstep.claimed hi (hsafe pre _ post heq) he
    · refine autoRun_kept hpre hmid (fun pre' ev post' hsplit => ?_) hseen hpass
      exact hsafe (pre ++ pre') ev (post' ++ post) (by rw [heq, hsplit]; simp)

end

/-! ### An epoch whose file is missing -/

section

variable [External] {s : Settings} {interval : Int} {now reportNow : ℚ} {ct : Int} {b : String}
  {u u' : AutoLoop} {disc rest : Trace} {claims : List RewardClaimWithProof}
  {lines : List AutoLine}

/-- The claims of a stream that is not in cooldown are submitted. -/
theorem streamClaims_submit {last : Int} {t : Trace} {o : ClaimOutcome}
    (hlast : (epochsOf claims).getLast? = some last)
    (hwarm : u.auto.inCooldown (streamKey s.network ct b) last now = false)
    (hsubmit : Runs (submitClaims s ct b claims true 600 none true) t (.ok o)) :
    RunsOn (streamClaims s now ct b claims) u t (.ok ())
      (u.record s (streamKey s.network ct b) now claims o) := by
  unfold streamClaims
  simp only [hlast]
  refine runsOn_get_bind.mpr ?_
  rw [if_neg (by simp [hwarm])]
  exact runsOn_lift_bind.mpr (.inl ⟨o, t, [], (List.append_nil _).symm, hsubmit,
    runsOn_modify.mpr ⟨rfl, rfl, rfl⟩⟩)

/-- A cycle over one stream, from its discovery on. -/
theorem loopCycle_single (hdisc : Runs (collectRewardClaims s b ct none) disc (.ok claims))
    (h : RunsOn (streamClaims s now ct b claims)
      (u.observe (streamKey s.network ct b) (epochsOf claims) now) rest (.ok ()) u')
    (hlog : u'.log = u.log ++ lines) :
    LoopCycle s [(ct, b)] interval u
      [.pass ⟨streamKey s.network ct b, ct, b, now, disc, some (epochsOf claims), rest, lines⟩,
        .report reportNow (buildReport u'.auto s.network interval s.staleAfterSec reportNow)]
      { u' with auto := u'.auto.pruned reportNow } := by
  have hpass : RunsOn (streamPass s now ct b) u (disc ++ rest) (.ok ()) u' := by
    refine runsOn_attempt_bind.mpr ⟨.ok claims, disc, rest, u, rfl, runsOn_lift.mpr ⟨hdisc, rfl⟩, ?_⟩
    exact runsOn_modify_bind.mpr h
  have hreport : RunsOn (autoReport s interval reportNow) u' []
      (.ok (buildReport u'.auto s.network interval s.staleAfterSec reportNow))
      { u' with auto := u'.auto.pruned reportNow } :=
    runsOn_get_bind.mpr (runsOn_modify_bind.mpr (runsOn_pure.mpr ⟨rfl, rfl, rfl⟩))
  have hpasses : RunsOn (streamPasses s now [(ct, b)]) u (disc ++ rest) (.ok ()) u' := by
    have hnil : RunsOn (streamPasses s now []) u' [] (.ok ()) u' := runsOn_pure.mpr ⟨rfl, rfl, rfl⟩
    have hall := runsOn_bind_ok hpass hnil
    rwa [List.append_nil] at hall
  have hcycle : RunsOn (autoCycle s [(ct, b)] interval now reportNow) u (disc ++ rest ++ [])
      _ _ := runsOn_bind_ok hpasses hreport
  refine .cycle hcycle
    (Run.cons (.pass (x := .ok claims) hdisc hpass hlog) (.single (.report hreport))) ?_
  simp [AutoEvent.trace]

end

/-- Only the fee stream is configured. -/
def feeSettings : Settings := { identityAddress := some feeBeneficiary }

/-- The leaf of the beneficiary's fee claim for epoch 4. -/
def feeLeaf : String := "0xc0591e14e6a892d1598a07fceaca6016c877666ed34ca0064a8a38c0b0e3bf3f"

/-- The file of epoch 4, with no other claim. -/
def feeFile : RewardsData :=
  ⟨4, [⟨[], 4, feeBeneficiary, "1000", 1⟩], feeLeaf⟩

def feeClaim : RewardClaimWithProof := ⟨[], ⟨4, feeBeneficiary, 1000, 1⟩⟩

set_option maxRecDepth 10000 in
theorem feeFile_proves :
    @RewardsData.Proves External.static feeFile feeLeaf feeBeneficiary 1 feeClaim := by
  refine ⟨rfl, ⟨[], 4, feeBeneficiary, "1000", 1⟩, by decide, ?_⟩
  decide +kernel

/-- Epoch 4 is the next claimable one, in range and signed. -/
def openReads : Trace :=
  [⟨.rpc (.nextClaimableRewardEpochId feeSettings.net.rewardManager feeBeneficiary),
      .result 4⟩,
    ⟨.rpc (.rewardEpochIdRange feeSettings.net.rewardManager), .result (1, 4)⟩,
    ⟨.rpc (.rewardsHash feeSettings.net.flareSystemsManager 4), .result feeLeaf⟩]

def foundReads : Trace := openReads ++ [⟨.readRewardCalculationData .flare 4, some feeFile⟩,
  ⟨.rpc (.rewardsHash feeSettings.net.flareSystemsManager 4), .result feeLeaf⟩]

def missingReads : Trace := openReads ++ [⟨.readRewardCalculationData .flare 4, none⟩]

theorem openReads_run :
    Runs (claimableEpochIds feeSettings feeBeneficiary) openReads (.ok [4]) := by
  refine runs_rpc_bind.mpr ⟨.result 4, _, rfl, .inl ⟨4, rfl, ?_⟩⟩
  refine runs_rpc_bind.mpr ⟨.result (1, 4), _, rfl, .inl ⟨(1, 4), rfl, ?_⟩⟩
  refine runs_rpc_bind.mpr ⟨.result feeLeaf, _, rfl, .inl ⟨feeLeaf, rfl, ?_⟩⟩
  exact runs_bind_ok (runs_pure.mpr ⟨rfl, rfl⟩) (runs_pure.mpr ⟨rfl, rfl⟩)

theorem foundReads_run :
    Runs (@collectRewardClaims External.static feeSettings feeBeneficiary 1 none)
    foundReads (.ok [feeClaim]) := by
  obtain ⟨-, c, hentry, hproven⟩ := feeFile_proves
  have hone : Runs (@rewardClaimFor External.static feeSettings 4 feeBeneficiary 1)
      [⟨.readRewardCalculationData .flare 4, some feeFile⟩,
        ⟨.rpc (.rewardsHash feeSettings.net.flareSystemsManager 4), .result feeLeaf⟩]
      (.ok (some feeClaim)) := by
    refine runs_ask_bind.mpr ⟨some feeFile, _, rfl, ?_⟩
    refine runs_rpc_bind.mpr ⟨.result feeLeaf, [], rfl, .inl ⟨feeLeaf, rfl, ?_⟩⟩
    have hsame : (Py.lower feeFile.merkleRoot != Py.lower feeLeaf) = false := by
      simp [feeFile]
    rw [hsame, hentry]
    exact runs_fromExcept.mpr ⟨rfl, hproven.symm⟩
  refine runs_bind_ok openReads_run ?_
  exact runs_bind_ok hone (runs_bind_ok (runs_pure.mpr ⟨rfl, rfl⟩) (runs_pure.mpr ⟨rfl, rfl⟩))

theorem missingReads_run :
    Runs (@collectRewardClaims External.static feeSettings feeBeneficiary 1 none)
    missingReads (.ok []) := by
  have hone : Runs (@rewardClaimFor External.static feeSettings 4 feeBeneficiary 1)
      [⟨.readRewardCalculationData .flare 4, none⟩] (.ok none) :=
    runs_ask_bind.mpr ⟨none, [], rfl, runs_pure.mpr ⟨rfl, rfl⟩⟩
  refine runs_bind_ok openReads_run ?_
  exact runs_bind_ok hone (runs_bind_ok (runs_pure.mpr ⟨rfl, rfl⟩) (runs_pure.mpr ⟨rfl, rfl⟩))

abbrev feeKey : String := streamKey feeSettings.network 1 feeBeneficiary

/-- The claim of the first cycle is not sent: no wallet is set. -/
def unsetOutcome : ClaimOutcome :=
  { claimType := 1, claimTypeName := "FEE", beneficiary := feeBeneficiary, status := .failedTerminal,
    detail := "FWD_WALLET_NAME / FWD_CALLER_TOKEN not set" }

def openLoop : AutoLoop := ({} : AutoLoop).observe feeKey (epochsOf [feeClaim]) 100

def seenLoop : AutoLoop := openLoop.record feeSettings feeKey 100 [feeClaim] unsetOutcome

def reportedLoop : AutoLoop := { seenLoop with auto := seenLoop.auto.pruned 101 }

def lostLoop : AutoLoop :=
  (reportedLoop.observe feeKey (epochsOf []) 200).attempt feeKey 200 "nothing-claimable"

theorem firstClaims_run :
    RunsOn (@streamClaims External.static feeSettings 100 1 feeBeneficiary [feeClaim])
    openLoop [] (.ok ()) seenLoop := by
  have hsubmit :
      Runs (@submitClaims External.static feeSettings 1 feeBeneficiary [feeClaim] true 600
      none true) [] (.ok unsetOutcome) := runs_pure.mpr ⟨rfl, rfl⟩
  have hlast : (epochsOf [feeClaim]).getLast? = some 4 := rfl
  have hwarm : openLoop.auto.inCooldown feeKey 4 100 = false := by with_unfolding_all rfl
  exact @streamClaims_submit External.static feeSettings 100 1 feeBeneficiary openLoop [feeClaim] 4 []
    unsetOutcome hlast hwarm hsubmit

def secondReads : Trace :=
  [⟨.rpc (.nextClaimableRewardEpochId feeSettings.net.rewardManager feeBeneficiary),
    .transport "timed out"⟩]

theorem secondClaims_run :
    RunsOn (@streamClaims External.static feeSettings 200 1 feeBeneficiary [])
    (reportedLoop.observe feeKey (epochsOf []) 200) secondReads (.ok ())
    lostLoop := by
  have hreason : Runs (@nothingReason External.static feeSettings feeBeneficiary 1)
      [⟨.rpc (.nextClaimableRewardEpochId feeSettings.net.rewardManager feeBeneficiary),
        .transport "timed out"⟩] (.ok "nothing-claimable") := by
    refine runs_attempt_bind.mpr ⟨.error (.rpcError "eth_call transport failure: timed out"), _, [],
      (List.append_nil _).symm, ?_, runs_pure.mpr ⟨rfl, rfl⟩⟩
    exact runs_rpc_bind.mpr ⟨.transport "timed out", [], rfl, .inr ⟨_, rfl, rfl, rfl⟩⟩
  exact runsOn_lift_bind.mpr (.inl ⟨_, _, [], (List.append_nil _).symm, hreason,
    runsOn_modify.mpr ⟨rfl, rfl, rfl⟩⟩)

/-- The cycle that finds epoch 4. -/
def firstCycle : List AutoEvent :=
  [.pass ⟨feeKey, 1, feeBeneficiary, 100, foundReads, some (epochsOf [feeClaim]), [],
      [.terminal feeKey [] "FWD_WALLET_NAME / FWD_CALLER_TOKEN not set"]⟩,
    .report 101 (buildReport seenLoop.auto .flare 900 86400 101)]

/-- A cycle after it that finds nothing. -/
def secondCycle (disc : Trace) : List AutoEvent :=
  [.pass ⟨feeKey, 1, feeBeneficiary, 200, disc, some (epochsOf []), secondReads,
      [.confirmed feeKey [4]]⟩,
    .report 201 (buildReport lostLoop.auto .flare 900 86400 201)]

theorem twoCycles_run {disc : Trace}
    (hdisc : Runs (@collectRewardClaims External.static feeSettings feeBeneficiary 1 none) disc
      (.ok [])) :
    Run (@LoopCycle External.static feeSettings (enabledClaimers feeSettings) 900) {}
      ([firstCycle] ++ [secondCycle disc]) { lostLoop with auto := lostLoop.auto.pruned 201 } := by
  let _ := External.static
  have hlog₁ : seenLoop.log = ({} : AutoLoop).log ++
      [.terminal feeKey [] "FWD_WALLET_NAME / FWD_CALLER_TOKEN not set"] := by
    with_unfolding_all rfl
  have hlog₂ : lostLoop.log = reportedLoop.log ++ [.confirmed feeKey [4]] := by
    with_unfolding_all rfl
  have hcycle₁ := @loopCycle_single _ _ 900 _ 101 _ _ _ _ _ _ _ _ foundReads_run
    firstClaims_run hlog₁
  have hcycle₂ := @loopCycle_single _ _ 900 _ 201 _ _ _ _ _ _ _ _ hdisc
    secondClaims_run hlog₂
  exact .snoc (.single hcycle₁) hcycle₂

/-- The file of epoch 4 is missing in the second cycle, so the epoch is confirmed claimed; the next
claimable epoch is still 4. -/
theorem missingFile_confirmed : ∃ cycles u,
    Run (@LoopCycle External.static feeSettings (enabledClaimers feeSettings) 900) {} cycles u ∧
      ¬ @ConfirmedTrue External.static feeSettings 900 cycles.flatten := by
  let _ := External.static
  refine ⟨_, _, twoCycles_run missingReads_run, fun htrue => ?_⟩
  obtain ⟨nxt, hread, hlt⟩ := htrue.claimed _ (List.mem_append_right _ List.mem_cons_self) 4
    (List.mem_singleton_self _)
  have hnext : nxt = 4 := by simpa [missingReads, openReads] using hread
  exact absurd hlt (by rw [hnext]; decide)

/-- Epoch 4 was claimed before the second cycle. -/
def claimedReads : Trace :=
  [⟨.rpc (.nextClaimableRewardEpochId feeSettings.net.rewardManager feeBeneficiary), .result 5⟩,
    ⟨.rpc (.rewardEpochIdRange feeSettings.net.rewardManager), .result (1, 4)⟩]

theorem claimedReads_run : Runs (@collectRewardClaims External.static feeSettings feeBeneficiary 1
    none) claimedReads (.ok []) := by
  have hnone : Runs (claimableEpochIds feeSettings feeBeneficiary) claimedReads (.ok []) := by
    refine runs_rpc_bind.mpr ⟨.result 5, _, rfl, .inl ⟨5, rfl, ?_⟩⟩
    exact runs_rpc_bind.mpr ⟨.result (1, 4), _, rfl, .inl ⟨(1, 4), rfl, runs_pure.mpr ⟨rfl, rfl⟩⟩⟩
  exact runs_bind_ok hnone (runs_pure.mpr ⟨rfl, rfl⟩)

theorem confirmed_true_claimed : @ConfirmedTrue External.static feeSettings 900
    ([firstCycle] ++ [secondCycle claimedReads]).flatten := by
  let _ := External.static
  rw [confirmed_true (twoCycles_run claimedReads_run)]
  have hread : ClaimedRead feeSettings 4 feeBeneficiary claimedReads :=
    ⟨5, List.mem_cons_self, by decide⟩
  refine guarded_snoc.mpr ⟨guarded_snoc.mpr ⟨guarded_snoc.mpr ⟨guarded_snoc.mpr
    ⟨guarded_nil, ?_⟩, trivial⟩, ?_⟩, trivial⟩
  · exact fun _ e he => by cases he
  · intro _ e he
    have hfound : e = 4 := by simpa [lastFound, AutoEvent.foundFor, epochsOf, feeClaim] using he
    exact .inl (hfound ▸ hread)

end Clif
