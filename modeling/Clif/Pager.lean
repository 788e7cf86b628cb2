import Mathlib.Data.List.DropRight
import Clif.Readings
import Clif.Effect.Interleave
import Clif.Effect.Run
import Clif.AlertRun

/-!
# Pager — the cycles of `alert run`, with their reads and their messages

A cycle may be cut off at any point, and an exception that is no `RpcError` ends the process; the
next one starts from the status file.  In every such life of the daemon a healthy ping and a
RESOLVED were earned by complete readings (`signals_earned`), and a drained account is never paged
(`drained_silent`).
-/

namespace Clif

open Effect

/-! ## The loop -/

structure PagerSettings extends ReadinessSettings where
  alertEnabled : Bool := false
  alertWebhookUrl : Option String := none
  alertHeartbeatUrl : Option String := none
  alertRepeatSec : ℚ := 3600
  alertConfirmCycles : Nat := 2
  registrationPollIntervalSec : Int := 600
  registrationTightIntervalSec : Int := 120
  registrationTightWindowSec : Int := 7200

namespace PagerSettings

variable (s : PagerSettings)

def args : AlertArgs := ⟨s.alertRepeatSec, s.alertConfirmCycles⟩

/-- Otherwise the daemon idles. -/
def active : Bool :=
  s.alertEnabled && (Py.truthy s.alertWebhookUrl || Py.truthy s.alertHeartbeatUrl)

/-- The healthy ping. -/
def heartbeatUrl : String := s.alertHeartbeatUrl.getD ""

/-- `sleep_for` of a cycle that went through. -/
def sleepFor (ttb : Option Int) : Int :=
  match ttb with
  | some sec =>
    if sec ≤ s.registrationTightWindowSec then s.registrationTightIntervalSec
    else s.registrationPollIntervalSec
  | none => s.registrationPollIntervalSec

end PagerSettings

/-- The target of `heartbeat`. -/
def heartbeatTarget (url : String) (level : Severity) : String :=
  if level = .crit then String.ofList (url.toList.rdropWhile (· = '/')) ++ "/fail" else url

/-- An answer that is an exception raises it. -/
def answered {α : Type} : Except (String × String) α → Except Exc α
  | .ok x => .ok x
  | .error e => .error (.other e.1 e.2)

/-- An exchange of the daemon. -/
def tell (o : DaemonOp) : Act daemonSig Exc o.Ans := ask (S := daemonSig) o

/-- `_beat`. -/
def beat (s : PagerSettings) (level : Severity) : Act daemonSig Exc Unit := do
  if Py.truthy s.alertHeartbeatUrl then
    let r ← tell (.get (heartbeatTarget s.heartbeatUrl level))
    fromExcept (answered (r.map fun _ => ()))
  else return ()

/-- `write_status_atomic(s.alert_status_file, …)`. -/
def storeStatus (status : AlertStatus) : Act daemonSig Exc Unit := do
  let r ← tell (.store status)
  fromExcept (answered r)

/-- The page of a cycle, if there is one and a webhook for it. -/
def sendPage (s : PagerSettings) (status : AlertStatus) :
    Option AlertKind → Act daemonSig Exc Unit
  | none => return ()
  | some kind => do
    if Py.truthy s.alertWebhookUrl then
      let msg : AlertMessage :=
        { network := status.network
          epoch := status.epoch
          level := status.state.level
          reasons := status.reasons
          kind := kind }
      let r ← tell (.post (s.alertWebhookUrl.getD "") msg)
      fromExcept (answered (r.map fun _ => ()))
    else return ()

/-- What follows the level: `decide`, the status file, the page and the ping. -/
def report (s : PagerSettings) (d : ReadinessDict) (level : Severity)
    (reasons : List AlertReason) : StAct daemonSig Exc AlertState Int := do
  let now ← tell .clock
  let st ← get
  modify fun st => (st.decide s.args level now).2
  let status : AlertStatus := ⟨(st.decide s.args level now).2, s.network, d.currentEpoch, reasons⟩
  storeStatus status
  sendPage s status (st.page s.args level now)
  beat s level
  return s.sleepFor d.timeToBoundarySec

/-- The body of the `try`. -/
def alertBody (s : PagerSettings) : StAct daemonSig Exc AlertState Int := do
  let r ← readReadiness s.toReadinessSettings
  let fh ← readHealth s.network
  let level ← fromExceptOn (alertLevel r.toDict fh)
  report s r.toDict level.1 level.2

/-- One turn of the `while True` of `alert_run`. -/
def alertCycle (s : PagerSettings) : StAct daemonSig Exc AlertState Unit := do
  match ← attemptOn (alertBody s) with
  | .ok seconds => tell (.sleep seconds)
  | .error (.rpcError _) => do
    beat s .crit
    tell (.sleep s.registrationPollIntervalSec)
  | .error e => throw e

/-! ## The life of the daemon -/

/-- What a cycle did; `died`: the process ended in it. -/
structure PagerCycle where
  trace : DaemonTrace
  died : Bool

/-- The state that the exchange stored. -/
def storedBy : Event daemonSig → Option AlertState
  | ⟨.store status, .ok _⟩ => some status.state
  | _ => none

def PagerCycle.stored (c : PagerCycle) : Option AlertState := (c.trace.filterMap storedBy).head?

/-- A cycle goes through, or the process ends in it, by an exception or from outside. -/
def PagerStep (s : PagerSettings) (p : AlertLoop) (c : PagerCycle) (p' : AlertLoop) : Prop :=
  s.active = true ∧ p'.stored = c.stored.getD p.stored ∧
    if c.died then BegunOn (alertCycle s) p.state c.trace ∧ p'.state = p'.stored
    else RunsOn (alertCycle s) p.state c.trace (.ok ()) p'.state

/-! ## What a cycle may do -/

/-- The level that follows from the readings of the trace. -/
def LevelShown (s : PagerSettings) (h : DaemonTrace) (level : Severity) : Prop :=
  ∃ r fh, ReadinessShown s.toReadinessSettings h r ∧ FundingShown s.network h fh ∧ fh.below = [] ∧
    level = r.severity.worst fh.severity

/-- What an exchange tells, it has from the readings before it; `st` is the state before the
cycle. -/
structure Sanctioned (s : PagerSettings) (st : AlertState) (h : DaemonTrace)
    (e : Event daemonSig) : Prop where
  store : ∀ status, e.op = .store status → h.filterMap storedBy = [] ∧
    ∃ level now, LevelShown s h level ∧ status.state = (st.decide s.args level now).2
  post : ∀ url msg, e.op = .post url msg → ∃ level now, LevelShown s h level ∧
    h.filterMap storedBy = [(st.decide s.args level now).2] ∧
      st.page s.args level now = some msg.kind
  get : ∀ url, e.op = .get url → ∃ level, LevelShown s h level ∧
    url = heartbeatTarget s.heartbeatUrl level
  sleep : ∀ seconds, e.op = .sleep seconds → h.filterMap storedBy ≠ []

section

variable {s : PagerSettings} {st st' : AlertState} {h h' : DaemonTrace} {level : Severity}
  {σ α β : Type}

theorem LevelShown.mono (hl : LevelShown s h level) : LevelShown s (h ++ h') level := by
  obtain ⟨r, fh, hr, hf, hbelow, hlevel⟩ := hl
  exact ⟨r, fh, hr.mono, hf.mono, hbelow, hlevel⟩

theorem allowed_read {e : Event daemonSig} (he : IsRead e) : Sanctioned s st h e := by
  obtain ⟨op, a⟩ := e
  rcases he with ⟨o, rfl⟩ | rfl
  · exact ⟨nofun, nofun, nofun, nofun⟩
  · exact ⟨nofun, nofun, nofun, nofun⟩

theorem storedBy_read {e : Event daemonSig} (he : IsRead e) : storedBy e = none := by
  obtain ⟨op, a⟩ := e
  rcases he with ⟨o, rfl⟩ | rfl
  · rfl
  · rfl

/-- Only readings so far. -/
def OnlyRead (s : PagerSettings) (st : AlertState) (h : DaemonTrace) : Prop :=
  Guarded (Sanctioned s st) h ∧ h.filterMap storedBy = []

theorem OnlyRead.read {e : Event daemonSig} (hq : OnlyRead s st h) (he : IsRead e) :
    OnlyRead s st (h ++ [e]) := by
  refine ⟨guarded_snoc.mpr ⟨hq.1, allowed_read he⟩, ?_⟩
  rw [List.filterMap_append, hq.2]
  simp [storedBy_read he]

/-- Readings are quiet. -/
theorem wp_quiet {p : Act daemonSig Exc α} {Q : Except Exc α → DaemonTrace → Prop}
    (hp : Emits p IsRead) (hw : Wp p Q h) (hq : OnlyRead s st h) :
    Wp p (fun r h' => (∃ t, h' = h ++ t) ∧ OnlyRead s st h' ∧ Q r h') h :=
  fun t r hr => ⟨⟨t, rfl⟩, keep_append (fun _ _ hq he => hq.read he) (hp t r hr) hq, hw t r hr⟩

theorem wpOn_tell_bind {o : DaemonOp} {f : o.Ans → StAct daemonSig Exc σ β}
    {Q : Except Exc β → DaemonTrace → σ → Prop} {x : σ}
    (hf : ∀ a, WpOn (f a) Q (h ++ [⟨o, a⟩]) x) : WpOn (lift (tell o) >>= f) Q h x := by
  intro t r x' hr
  rcases runsOn_lift_bind.mp hr with ⟨a, t₁, t₂, rfl, hask, hrest⟩ | ⟨e, hask, -⟩
  · obtain ⟨b, rfl, hb⟩ := runs_ask.mp hask
    cases hb
    rw [← List.append_assoc]
    exact hf a _ _ _ hrest
  · obtain ⟨b, -, hb⟩ := runs_ask.mp hask
    cases hb

/-- An exchange whose answer may be an exception. -/
theorem wp_told {o : DaemonOp} {γ : Type} {f : o.Ans → Except (String × String) γ}
    {Q : Except Exc γ → DaemonTrace → Prop}
    (hf : ∀ a, Q (answered (f a)) (h ++ [⟨o, a⟩])) :
    Wp (tell o >>= fun a => fromExcept (answered (f a))) Q h := by
  intro t r hr
  obtain ⟨a, t', rfl, hrest⟩ := runs_ask_bind.mp hr
  obtain ⟨rfl, rfl⟩ := hrest
  exact hf a

theorem answered_escapes {γ : Type} {x : Except (String × String) γ} {e : Exc}
    (he : answered x = .error e) : e.escapes := by
  cases x with
  | ok a => cases he
  | error y =>
    cases he
    trivial

/-- The end of a body: what it stored is the state, and what it raises ends the process. -/
def Done (s : PagerSettings) (st : AlertState) (r : Except Exc α) (h : DaemonTrace)
    (st' : AlertState) : Prop :=
  Guarded (Sanctioned s st) h ∧ (∀ x, r = .ok x → h.filterMap storedBy = [st']) ∧
    ∀ e, r = .error e → e.escapes

/-- Between the status file and the end of the cycle. -/
def PageTold (s : PagerSettings) (st st' : AlertState) (level : Severity) (r : Except Exc Unit)
    (h : DaemonTrace) : Prop :=
  (Guarded (Sanctioned s st) h ∧ LevelShown s h level) ∧
    (r = .ok () → h.filterMap storedBy = [st']) ∧ ∀ e, r = .error e → e.escapes

theorem wp_beat (hg : Guarded (Sanctioned s st) h) (hl : LevelShown s h level)
    (hstored : h.filterMap storedBy = [st']) : Wp (beat s level) (PageTold s st st' level) h := by
  unfold beat
  split
  · refine wp_told fun a =>
      ⟨⟨guarded_snoc.mpr ⟨hg, nofun, nofun, ?_, nofun⟩, hl.mono⟩, fun _ => ?_, ?_⟩
    · rintro url ⟨⟩
      exact ⟨level, hl, rfl⟩
    · rw [List.filterMap_append, hstored]
      rfl
    · exact fun e he => answered_escapes he
  · exact wp_pure.mpr ⟨⟨hg, hl⟩, fun _ => hstored, nofun⟩

theorem wp_sendPage {status : AlertStatus} {kind : Option AlertKind} {now : ℚ}
    (hg : Guarded (Sanctioned s st) h) (hl : LevelShown s h level)
    (hkind : st.page s.args level now = kind)
    (hstored : h.filterMap storedBy = [(st.decide s.args level now).2]) :
    Wp (sendPage s status kind) (PageTold s st (st.decide s.args level now).2 level) h := by
  cases kind with
  | none => exact wp_pure.mpr ⟨⟨hg, hl⟩, fun _ => hstored, nofun⟩
  | some kind =>
    unfold sendPage
    dsimp only
    by_cases hurl : Py.truthy s.alertWebhookUrl = true
    · rw [if_pos hurl]
      refine wp_told fun a =>
        ⟨⟨guarded_snoc.mpr ⟨hg, nofun, ?_, nofun, nofun⟩, hl.mono⟩, fun _ => ?_, ?_⟩
      · rintro url msg ⟨⟩
        exact ⟨level, now, hl, hstored, hkind⟩
      · rw [List.filterMap_append, hstored]
        rfl
      · exact fun e he => answered_escapes he
    · rw [if_neg hurl]
      exact wp_pure.mpr ⟨⟨hg, hl⟩, fun _ => hstored, nofun⟩

theorem wp_storeStatus {status : AlertStatus} {now : ℚ} (hq : OnlyRead s st h)
    (hl : LevelShown s h level) (hstate : status.state = (st.decide s.args level now).2) :
    Wp (storeStatus status) (PageTold s st (st.decide s.args level now).2 level) h := by
  refine wp_told fun a =>
    ⟨⟨guarded_snoc.mpr ⟨hq.1, ?_, nofun, nofun, nofun⟩, hl.mono⟩, fun hok => ?_, ?_⟩
  · rintro status' ⟨⟩
    exact ⟨hq.2, level, now, hl, hstate⟩
  · cases a with
    | ok u =>
      rw [List.filterMap_append, hq.2, ← hstate]
      rfl
    | error e => cases hok
  · exact fun e he => answered_escapes he

theorem wpOn_report {d : ReadinessDict} {reasons : List AlertReason} (hq : OnlyRead s st h)
    (hl : LevelShown s h level) : WpOn (report s d level reasons) (Done s st) h st := by
  unfold report
  refine wpOn_tell_bind fun now => ?_
  have hq' : OnlyRead s st (h ++ [⟨.clock, now⟩]) := hq.read (Or.inr rfl)
  have hl' : LevelShown s (h ++ [⟨.clock, now⟩]) level := hl.mono
  have hfailed : ∀ e h', PageTold s st (st.decide s.args level now).2 level (.error e) h' →
      Done s st (.error e : Except Exc Int) h' (st.decide s.args level now).2 := by
    rintro e h' ⟨⟨hg, -⟩, -, he⟩
    exact ⟨hg, nofun, fun e' he' => by cases he'; exact he e rfl⟩
  rw [wpOn_get_bind, wpOn_modify_bind]
  refine (@wp_storeStatus s st _ level _ now hq' hl' rfl).lift_bind ?_ hfailed
  · rintro u h₁ ⟨⟨hg₁, hl₁⟩, hstored₁, -⟩
    refine (wp_sendPage hg₁ hl₁ rfl (hstored₁ rfl)).lift_bind ?_ hfailed
    rintro u' h₂ ⟨⟨hg₂, hl₂⟩, hstored₂, -⟩
    refine (wp_beat hg₂ hl₂ (hstored₂ rfl)).lift_bind ?_ hfailed
    rintro u'' h₃ ⟨⟨hg₃, hl₃⟩, hstored₃, -⟩
    exact wpOn_pure.mpr ⟨hg₃, fun _ _ => hstored₃ rfl, nofun⟩

/-- The pager raises with an account below its floor only. -/
theorem alertLevel_cases {d : ReadinessDict} {fh : FundingHealth} :
    (fh.below = [] ∧ ∃ reasons, alertLevel d fh = .ok (d.severity.worst fh.severity, reasons)) ∨
      fh.below ≠ [] ∧ ∃ e, alertLevel d fh = .error e ∧ e.escapes := by
  unfold alertLevel
  cases hbelow : fh.below with
  | nil =>
    obtain ⟨reasons, hreasons⟩ := fundingReasons_ok.mpr hbelow
    rw [hreasons]
    exact Or.inl ⟨rfl, _, rfl⟩
  | cons a rest =>
    have hraise : ∃ e, fundingReasons fh = .error e ∧ e.escapes := by
      unfold fundingReasons
      rw [hbelow]
      exact ⟨_, rfl, trivial⟩
    obtain ⟨e, he, hescapes⟩ := hraise
    rw [he]
    exact Or.inr ⟨nofun, e, rfl, hescapes⟩

theorem wpOn_alertBody : WpOn (alertBody s) (Done s st) [] st := by
  have hstart : OnlyRead s st [] := ⟨guarded_nil, rfl⟩
  unfold alertBody
  refine (wp_quiet emits_readReadiness wp_readReadiness hstart).lift_bind ?_ ?_
  · rintro r h₁ ⟨-, hq₁, -, hr⟩
    refine (wp_quiet emits_readHealth wp_readHealth hq₁).lift_bind ?_ ?_
    · rintro fh h₂ ⟨⟨t, rfl⟩, hq₂, -, hf⟩
      have hr₂ : ReadinessShown s.toReadinessSettings (h₁ ++ t) r := (hr r rfl).mono
      rcases @alertLevel_cases r.toDict fh with ⟨hbelow, reasons, hlevel⟩ | ⟨-, e, he, hescapes⟩
      · rw [hlevel]
        exact wpOn_report hq₂ ⟨r, fh, hr₂, hf fh rfl, hbelow, rfl⟩
      · rw [he]
        exact wpOn_throw.mpr ⟨hq₂.1, nofun, by rintro e' ⟨⟩; exact hescapes⟩
    · rintro e h₂ ⟨-, hq₂, hraised, -⟩
      exact ⟨hq₂.1, nofun, fun e' he' => by cases he'; exact hraised e rfl⟩
  · rintro e h₁ ⟨-, hq₁, hraised, -⟩
    exact ⟨hq₁.1, nofun, fun e' he' => by cases he'; exact hraised e rfl⟩

/-- A cycle does what is allowed, and never gets to its `except RpcError`. -/
theorem wpOn_alertCycle : WpOn (alertCycle s) (Done s st) [] st := by
  unfold alertCycle
  rw [wpOn_attempt_bind]
  refine wpOn_alertBody.mono fun r h' st' ⟨hg, hstored, hraised⟩ => ?_
  cases r with
  | ok seconds =>
    intro t r' st'' hrun
    obtain ⟨hsleep, rfl⟩ := runsOn_lift.mp hrun
    obtain ⟨u, rfl, rfl⟩ := runs_ask.mp hsleep
    have hstored := hstored seconds rfl
    refine ⟨guarded_snoc.mpr ⟨hg, nofun, nofun, nofun, ?_⟩, fun x _ => ?_, nofun⟩
    · rw [hstored]
      exact fun _ _ => List.cons_ne_nil _ _
    · rw [List.filterMap_append, hstored]
      rfl
  | error e =>
    cases e with
    | rpcError m => exact absurd (hraised _ rfl) id
    | fwdTerminal | fwdRetryable | fwdError | other =>
      exact wpOn_throw.mpr ⟨hg, nofun, by rintro e ⟨⟩; trivial⟩

end

/-! ## What the readings tell -/

/-- Both readings are complete. -/
def FullRead (s : PagerSettings) (h : DaemonTrace) (r : RegistrationReadiness)
    (fh : FundingHealth) : Prop :=
  (∃ identity epoch, s.tracked = some identity ∧
    ReadinessRead s.toReadinessSettings identity epoch h r) ∧ FundingRead s.network h fh

section

variable {s : PagerSettings} {h : DaemonTrace} {level : Severity} {a b : Severity}

theorem worst_eq_ok : a.worst b = .ok ↔ a = .ok ∧ b = .ok := by
  cases a <;> cases b <;> decide

theorem worst_eq_crit : a.worst b = .crit ↔ a = .crit ∨ b = .crit := by
  cases a <;> cases b <;> decide

/-- Where the accounts are listed, the registry is pinned. -/
theorem tracked_of_listed (hl : registry s.network = .ok (accounts s.network)) :
    ∃ identity, s.tracked = some identity := by
  unfold ReadinessSettings.tracked ReadinessSettings.net
  cases hnetwork : s.network with
  | flare => exact ⟨_, rfl⟩
  | songbird => exact ⟨_, rfl⟩
  | coston2 =>
    rw [hnetwork] at hl
    cases hl

/-- A level below `CRIT` comes from complete readings. -/
theorem LevelShown.complete (hl : LevelShown s h level) (hlevel : level ≠ .crit) :
    ∃ r fh, FullRead s h r fh ∧ level = r.severity.worst fh.severity := by
  obtain ⟨r, fh, hr, hf, -, rfl⟩ := hl
  rw [Ne, worst_eq_crit, not_or] at hlevel
  have hfunding : FundingRead s.network h fh := by
    rcases hf with hread | ⟨herror, -⟩
    · exact hread
    · exact absurd (by simp [FundingHealth.severity, FundingHealth.unread, herror]) hlevel.2
  refine ⟨r, fh, ⟨?_, hfunding⟩, rfl⟩
  rcases hr with ⟨hnone, -⟩ | hread | ⟨⟨hsupported, herror⟩, -⟩
  · obtain ⟨identity, hidentity⟩ := tracked_of_listed hfunding.listed
    rw [hnone] at hidentity
    cases hidentity
  · exact hread
  · exact absurd (by simp [RegistrationReadiness.severity, hsupported, herror]) hlevel.1

/-- The ping to the failure check has another target. -/
theorem heartbeatTarget_ne (url : String) : heartbeatTarget url .crit ≠ url := by
  intro hsame
  have hchars := congrArg String.toList hsame
  simp only [heartbeatTarget, if_true, String.toList_append, String.toList_ofList] at hchars
  generalize hm : url.toList.rdropWhile (fun c => decide (c = '/')) = m at hchars
  -- the text ends in a letter, so nothing was stripped from it
  have hlast : url.toList = (m ++ ['/', 'f', 'a', 'i']) ++ ['l'] := by
    rw [← hchars, List.append_assoc]
    rfl
  rw [hlast, List.rdropWhile_concat_neg _ _ _ (by decide)] at hm
  have hlength := congrArg List.length hm
  simp at hlength

end

/-! ## What the daemon tells -/

/-- The cycle stored a state. -/
def PagerCycle.stores (c : PagerCycle) : Bool := c.stored.isSome

/-- The page that all is well again. -/
def DaemonOp.resolves : DaemonOp → Bool
  | .post _ msg => msg.kind = .resolved
  | _ => false

/-- The cycle posts RESOLVED. -/
abbrev PagerCycle.Resolves (c : PagerCycle) : Prop := ∃ e ∈ c.trace, e.op.resolves = true

/-- FullRead readings, with registration and funding well. -/
def PagerCycle.Well (s : PagerSettings) (c : PagerCycle) : Prop :=
  ∃ h rest r fh, c.trace = h ++ rest ∧ FullRead s h r fh ∧ r.severity = .ok ∧ fh.severity = .ok

/-- The cycle read the level. -/
def PagerCycle.Read (s : PagerSettings) (c : PagerCycle) (r : LevelRead) : Prop :=
  ∃ h rest, c.trace = h ++ rest ∧ LevelShown s h r.1

/-- The state is stored, and follows from the levels that the cycles read which stored one. -/
def PagerInv (s : PagerSettings) (cycles : List PagerCycle) (p : AlertLoop) : Prop :=
  p.state = p.stored ∧ ∃ reads, p.stored = ({} : AlertState).after s.args reads ∧
    List.Forall₂ (PagerCycle.Read s) (cycles.filter PagerCycle.stores) reads

section

variable {s : PagerSettings} {c : PagerCycle} {cycles : List PagerCycle} {p p' : AlertLoop}
  {st : AlertState}

theorem storedBy_some {e : Event daemonSig} (he : storedBy e = some st) :
    ∃ status, e.op = .store status ∧ status.state = st := by
  obtain ⟨op, a⟩ := e
  cases op with
  | store status =>
    cases a with
    | ok u => exact ⟨status, rfl, Option.some.inj he⟩
    | error x => cases he
  | read | clock | post | get | sleep => cases he

theorem PagerStep.guarded (hstep : PagerStep s p c p') :
    Guarded (Sanctioned s p.state) c.trace := by
  obtain ⟨-, -, hrun⟩ := hstep
  split at hrun
  · exact hrun.1.guarded fun t r s' hr => (wpOn_alertCycle t r s' hr).1
  · exact (wpOn_alertCycle _ _ _ hrun).1

/-- What a cycle stored follows from the level it read. -/
theorem PagerStep.stored_read (hstep : PagerStep s p c p') (hstored : c.stored = some st) :
    ∃ level now, c.Read s (level, now) ∧ st = (p.state.decide s.args level now).2 := by
  unfold PagerCycle.stored at hstored
  cases hall : c.trace.filterMap storedBy with
  | nil =>
    rw [hall] at hstored
    cases hstored
  | cons x more =>
    rw [hall] at hstored
    cases hstored
    obtain ⟨h, e, rest, htrace, -, he, -⟩ := List.filterMap_eq_cons_iff.mp hall
    obtain ⟨status, hop, rfl⟩ := storedBy_some he
    obtain ⟨-, level, now, hl, hstate⟩ := (hstep.guarded h e rest htrace).store status hop
    exact ⟨level, now, ⟨h, e :: rest, htrace, hl⟩, hstate⟩

/-- After every cycle the state is stored. -/
theorem PagerStep.stored_eq (hstep : PagerStep s p c p') : p'.state = p'.stored := by
  obtain ⟨-, hstored, hrun⟩ := hstep
  split at hrun
  · exact hrun.2
  · obtain ⟨-, hlast, -⟩ := wpOn_alertCycle _ _ _ hrun
    rw [hstored, PagerCycle.stored, show c.trace.filterMap storedBy = [p'.state] from hlast () rfl]
    rfl

theorem PagerStep.inv (hstep : PagerStep s p c p') (hinv : PagerInv s cycles p) :
    PagerInv s (cycles ++ [c]) p' := by
  obtain ⟨hsame, reads, hreads, hcycles⟩ := hinv
  refine ⟨hstep.stored_eq, ?_⟩
  have hstored := hstep.2.1
  rw [List.filter_append]
  cases hc : c.stored with
  | none =>
    rw [hc] at hstored
    refine ⟨reads, hstored.trans hreads, ?_⟩
    rw [List.filter_cons_of_neg (by simp [PagerCycle.stores, hc]), List.filter_nil,
      List.append_nil]
    exact hcycles
  | some st =>
    rw [hc] at hstored
    obtain ⟨level, now, hread, hst⟩ := hstep.stored_read hc
    refine ⟨reads ++ [(level, now)], ?_, ?_⟩
    · rw [AlertState.after_snoc, ← hreads, ← hsame, ← hst]
      exact hstored
    · rw [List.filter_cons_of_pos (by simp [PagerCycle.stores, hc]), List.filter_nil]
      exact List.rel_append hcycles (.cons hread .nil)

theorem pager_inv (hrun : Effect.Run (PagerStep s) (AlertLoop.load {}) cycles p) :
    PagerInv s cycles p :=
  hrun.invariant (PagerInv s) ⟨rfl, [], rfl, .nil⟩ fun _ _ _ _ _ hinv hstep => hstep.inv hinv

theorem DaemonOp.resolves_eq {o : DaemonOp} (h : o.resolves = true) :
    ∃ url msg, o = .post url msg ∧ msg.kind = .resolved := by
  cases o with
  | post url msg => exact ⟨url, msg, rfl, of_decide_eq_true h⟩
  | read | clock | store | get | sleep => cases h

/-- RESOLVED is for a change to `OK`, by a read of it. -/
theorem page_resolved {a : AlertArgs} {level : Severity} {now : ℚ}
    (hpage : st.page a level now = some .resolved) :
    level = .ok ∧ st.confirmed a .ok ≠ st.level := by
  have hchange : st.confirmed a level = .ok ∧ st.confirmed a level ≠ st.level := by
    unfold AlertState.page at hpage
    dsimp only at hpage
    split at hpage
    · rename_i hnew
      split at hpage
      · cases hpage
      · split at hpage
        · rename_i hok
          exact ⟨hok, hnew⟩
        · cases hpage
    · split at hpage
      · cases hpage
      · cases hpage
  have hlevel : level = .ok := by
    by_cases hcount : a.confirm ≤ st.count level
    · have hconfirmed : st.confirmed a level = level := if_pos hcount
      exact hconfirmed.symm.trans hchange.1
    · exact absurd (if_neg hcount) hchange.2
  subst hlevel
  exact ⟨rfl, hchange.2⟩

/-- A cycle that posts RESOLVED has read `OK`, and changed the confirmed level by it. -/
theorem PagerStep.resolves (hstep : PagerStep s p c p') (hc : c.Resolves) :
    c.stores = true ∧ (∃ now, c.Read s (.ok, now)) ∧
      p.state.confirmed s.args .ok ≠ p.state.level := by
  obtain ⟨e, hmem, hresolves⟩ := hc
  obtain ⟨h, rest, htrace⟩ := List.append_of_mem hmem
  obtain ⟨url, msg, hop, hkind⟩ := DaemonOp.resolves_eq hresolves
  obtain ⟨level, now, hl, hstored, hpage⟩ := (hstep.guarded h _ rest htrace).post url msg hop
  rw [hkind] at hpage
  obtain ⟨rfl, hchange⟩ := page_resolved hpage
  refine ⟨?_, ⟨now, h, _, htrace, hl⟩, hchange⟩
  rw [PagerCycle.stores, PagerCycle.stored, htrace, List.filterMap_append, hstored]
  rfl

theorem PagerCycle.Read.well {now : ℚ} (hread : c.Read s (.ok, now)) : c.Well s := by
  obtain ⟨h, rest, htrace, hl⟩ := hread
  obtain ⟨r, fh, hcomplete, hlevel⟩ := hl.complete nofun
  obtain ⟨hr, hf⟩ := worst_eq_ok.mp hlevel.symm
  exact ⟨h, rest, r, fh, htrace, hcomplete, hr, hf⟩

theorem exists_right {α β : Type} {R : α → β → Prop} {l : List α} {l' : List β} {a : α}
    (h : List.Forall₂ R l l') (ha : a ∈ l) : ∃ b ∈ l', R a b := by
  induction h with
  | nil => cases ha
  | @cons a' b l l' hab _ ih =>
    rcases List.mem_cons.mp ha with rfl | ha
    · exact ⟨b, List.mem_cons_self .., hab⟩
    · obtain ⟨b', hb', hab'⟩ := ih ha
      exact ⟨b', List.mem_cons_of_mem _ hb', hab'⟩

/-- The cycles behind a stretch of reads. -/
theorem read_stretch {reads run : List LevelRead} {before : List LevelRead}
    (h : List.Forall₂ (PagerCycle.Read s) cycles reads) (hsplit : reads = before ++ run)
    (hrun : ∀ r ∈ run, r.1 = .ok) :
    ∃ past stretch, cycles = past ++ stretch ∧ stretch.length = run.length ∧
      ∀ c ∈ stretch, c.Well s := by
  have hdrop : List.Forall₂ (PagerCycle.Read s) (cycles.drop before.length) run := by
    have hall := List.forall₂_drop before.length h
    rwa [hsplit, List.drop_left] at hall
  refine ⟨cycles.take before.length, cycles.drop before.length, (List.take_append_drop ..).symm,
    hdrop.length_eq, fun c hc => ?_⟩
  obtain ⟨⟨level, now⟩, hr, hread⟩ := exists_right hdrop hc
  obtain rfl : level = .ok := hrun _ hr
  exact hread.well

/-- A healthy ping is sent after complete readings, of which none is critical.  And a page that all
is well again is sent after as many cycles as the confirmation takes, in a row of those that stored
a state, each of them with complete readings and both of them `OK`: over every life of the daemon,
whatever the node answers and wherever the process ends. -/
theorem signals_earned (hrun : Effect.Run (PagerStep s) (AlertLoop.load {}) cycles p) :
    (∀ c ∈ cycles, ∀ h ans rest, c.trace = h ++ ⟨.get s.heartbeatUrl, ans⟩ :: rest →
      ∃ r fh, FullRead s h r fh ∧ r.severity ≠ .crit ∧ fh.severity ≠ .crit) ∧
    ∀ before c rest, cycles = before ++ c :: rest → c.Resolves →
      ∃ past stretch, (before ++ [c]).filter PagerCycle.stores = past ++ stretch ∧
        s.alertConfirmCycles ≤ stretch.length ∧ ∀ x ∈ stretch, x.Well s := by
  constructor
  · intro c hc h ans rest htrace
    obtain ⟨es₁, es₂, p₁, p₂, -, -, hstep⟩ := hrun.split hc
    obtain ⟨level, hl, htarget⟩ := (hstep.guarded h _ rest htrace).get s.heartbeatUrl rfl
    have hlevel : level ≠ .crit := by
      rintro rfl
      exact heartbeatTarget_ne s.heartbeatUrl htarget.symm
    obtain ⟨r, fh, hcomplete, rfl⟩ := hl.complete hlevel
    rw [Ne, worst_eq_crit, not_or] at hlevel
    exact ⟨r, fh, hcomplete, hlevel⟩
  · rintro before c rest rfl hresolves
    obtain ⟨p₁, hbefore, hrest⟩ := Effect.Run.append_inv hrun
    obtain ⟨p₂, hstep, -⟩ := Effect.Run.cons_inv hrest
    obtain ⟨hsame, reads, hreads, hcycles⟩ := pager_inv hbefore
    obtain ⟨hstores, ⟨now, hread⟩, hchange⟩ := hstep.resolves hresolves
    rw [hsame, hreads] at hchange
    obtain ⟨past, run, hsplit, hrun, hlength⟩ := @change_read _ _ _ (.ok, now) hchange
    have hall : List.Forall₂ (PagerCycle.Read s) ((before ++ [c]).filter PagerCycle.stores)
        (reads ++ [(.ok, now)]) := by
      rw [List.filter_append, List.filter_cons_of_pos hstores, List.filter_nil]
      exact List.rel_append hcycles (.cons hread .nil)
    obtain ⟨pastCycles, stretch, hstretch, hcount, hwell⟩ := read_stretch hall hsplit hrun
    refine ⟨pastCycles, stretch, hstretch, ?_, hwell⟩
    rcases hlength with hlength | ⟨-, hpending, -⟩
    · rw [hcount]
      exact hlength
    · cases hpending

/-- Where everything was read, an account below its floor leaves no level to tell. -/
theorem not_levelShown {h rest : DaemonTrace} {level : Severity} {a : Account}
    (htrace : c.trace = h ++ rest) (ha : a ∈ accounts s.network)
    (hlow : ∀ w, ReadAs c.trace (.getBalance a.address) w → native w < a.band.lower)
    (hread : AllRead c.trace) : ¬ LevelShown s h level := by
  rintro ⟨r, fh, -, hf, hbelow, -⟩
  rcases hf with hf | ⟨-, e, he, hunread⟩
  · obtain ⟨st, hst, w, hanswered, rfl⟩ := exists_right hf.accounts ha
    have hbalance := hlow w (by rw [htrace]; exact hanswered.mono)
    have hmem : (⟨a.name, a.address, native w, a.band⟩ : AccountStatus) ∈ fh.below :=
      List.mem_filter.mpr ⟨hst, decide_eq_true hbalance⟩
    rw [hbelow] at hmem
    cases hmem
  · exact hread e (by rw [htrace]; exact List.mem_append_left _ he) hunread

/-- A cycle that reads everything, and an account below its floor, tells nobody: it posts no page,
sends no ping of either kind and stores nothing, and the process ends in it. -/
theorem drained_silent (hrun : Effect.Run (PagerStep s) (AlertLoop.load {}) cycles p) :
    ∀ c ∈ cycles, ∀ a ∈ accounts s.network,
      (∀ w, ReadAs c.trace (.getBalance a.address) w → native w < a.band.lower) →
        AllRead c.trace → c.died = true ∧ ∀ e ∈ c.trace, IsRead e := by
  intro c hc a ha hlow hread
  obtain ⟨es₁, es₂, p₁, p₂, -, -, hstep⟩ := hrun.split hc
  have hnone : ∀ h e rest, c.trace = h ++ e :: rest → ∀ status, e.op ≠ .store status := by
    intro h e rest htrace status hop
    obtain ⟨-, level, now, hl, -⟩ := (hstep.guarded h e rest htrace).store status hop
    exact not_levelShown htrace ha hlow hread hl
  have hempty : c.trace.filterMap storedBy = [] := by
    refine List.filterMap_eq_nil_iff.mpr fun e he => ?_
    obtain ⟨h, rest, htrace⟩ := List.append_of_mem he
    cases hstored : storedBy e with
    | none => rfl
    | some st =>
      obtain ⟨status, hop, -⟩ := storedBy_some hstored
      exact absurd hop (hnone h e rest htrace status)
  constructor
  · by_contra halive
    obtain ⟨-, -, hcycle⟩ := hstep
    rw [if_neg halive] at hcycle
    obtain ⟨-, hlast, -⟩ := wpOn_alertCycle _ _ _ hcycle
    have hstored : c.trace.filterMap storedBy = [p₂.state] := hlast () rfl
    rw [hempty] at hstored
    cases hstored
  · intro e he
    obtain ⟨h, rest, htrace⟩ := List.append_of_mem he
    have hallowed := hstep.guarded h e rest htrace
    obtain ⟨op, ans⟩ := e
    cases op with
    | read o => exact Or.inl ⟨o, rfl⟩
    | clock => exact Or.inr rfl
    | store status => exact absurd rfl (hnone h _ rest htrace status)
    | post url msg =>
      obtain ⟨level, now, hl, -⟩ := hallowed.post url msg rfl
      exact absurd hl (not_levelShown htrace ha hlow hread)
    | get url =>
      obtain ⟨level, hl, -⟩ := hallowed.get url rfl
      exact absurd hl (not_levelShown htrace ha hlow hread)
    | sleep seconds =>
      refine absurd ?_ (hallowed.sleep seconds rfl)
      rw [htrace, List.filterMap_append] at hempty
      exact (List.append_eq_nil_iff.mp hempty).1

end

/-! ### An exclusion that ends, and a drained account -/

def pagerSettings : PagerSettings where
  network := .flare
  alertEnabled := true
  alertWebhookUrl := some "hook"
  alertHeartbeatUrl := some "https://hc-ping.com/abc"
  alertConfirmCycles := 1

/-- A node that answers everything; every account holds `tokens`. -/
def sampleNode (registered : Bool) (tokens : Int) : (o : DaemonOp) → o.Ans
  | .read (.currentRewardEpochId _) => .result 423
  | .read (.firstRewardEpochStartTs _) => .result 1658429955
  | .read (.rewardEpochDurationSeconds _) => .result 302400
  | .read (.isVoterRegistered ..) => .result registered
  | .read (.voterRegistrationData _ _) => .result (0, false)
  | .read (.voterRegistrationWeight ..) => .result 1
  | .read (.getBalance _) => .result (tokens * 10 ^ 18)
  | .read (.getVoterAddresses _ _) => .result ("0x1", "0x2", "0x3")
  | .clock => 1786000000
  | .store _ => .ok ()
  | .post _ _ => .ok true
  | .get _ => .ok true
  | .sleep _ => ()

/-- A cycle against a node. -/
def sampleCycle (st : AlertState) (died : Bool) (node : (o : DaemonOp) → o.Ans) : PagerCycle :=
  ⟨(execOn node (alertCycle pagerSettings) st).1, died⟩

/-- The state after a cycle that went through. -/
def sampleNext (st : AlertState) (node : (o : DaemonOp) → o.Ans) : AlertState :=
  (execOn node (alertCycle pagerSettings) st).2.2

theorem sample_step {st : AlertState} {node : (o : DaemonOp) → o.Ans}
    (hok : (execOn node (alertCycle pagerSettings) st).2.1.isOk = true) :
    PagerStep pagerSettings ⟨st, st⟩ (sampleCycle st false node)
      ⟨sampleNext st node, sampleNext st node⟩ := by
  have hrun := execOn_runs node (alertCycle pagerSettings) st
  obtain ⟨u, hu⟩ : ∃ u, (execOn node (alertCycle pagerSettings) st).2.1 = .ok u := by
    cases hres : (execOn node (alertCycle pagerSettings) st).2.1 with
    | ok u => exact ⟨u, rfl⟩
    | error e =>
      rw [hres] at hok
      cases hok
  rw [hu] at hrun
  obtain ⟨-, hstored, -⟩ := wpOn_alertCycle _ _ _ hrun
  refine ⟨rfl, ?_, hrun⟩
  have hone : (sampleCycle st false node).trace.filterMap storedBy = [sampleNext st node] :=
    hstored u rfl
  rw [PagerCycle.stored, hone]
  rfl

def excludedNode : (o : DaemonOp) → o.Ans := sampleNode false 900
def healthyNode : (o : DaemonOp) → o.Ans := sampleNode true 900
def drainedNode : (o : DaemonOp) → o.Ans := sampleNode true 100

def afterExclusion : AlertState := sampleNext {} excludedNode

/-- The exclusion is paged, and its end after a cycle that read it. -/
theorem signals_earned_recovery : ∃ past stretch,
    [sampleCycle {} false excludedNode, sampleCycle afterExclusion false healthyNode].filter
        PagerCycle.stores = past ++ stretch ∧
      1 ≤ stretch.length ∧ ∀ x ∈ stretch, x.Well pagerSettings := by
  have hfirst : PagerStep pagerSettings (AlertLoop.load {}) _ ⟨afterExclusion, afterExclusion⟩ :=
    @sample_step {} excludedNode (by decide +kernel)
  have hsecond := @sample_step afterExclusion healthyNode (by decide +kernel)
  have hrun := Effect.Run.cons hfirst (.single hsecond)
  exact (signals_earned hrun).2 [_] _ [] rfl (by decide +kernel)

/-- All accounts hold 100 tokens, and nobody is told. -/
theorem drained_silent_exec : (sampleCycle {} true drainedNode).died = true ∧
    ∀ e ∈ (sampleCycle {} true drainedNode).trace, IsRead e := by
  have hstep : PagerStep pagerSettings (AlertLoop.load {}) (sampleCycle {} true drainedNode)
      (AlertLoop.load {}) := by
    have hrun := execOn_runs drainedNode (alertCycle pagerSettings) {}
    rw [← List.append_nil (execOn drainedNode (alertCycle pagerSettings) {}).1] at hrun
    exact ⟨rfl, by decide +kernel, ⟨[], _, _, hrun⟩, rfl⟩
  have hanswers : ∀ e ∈ (sampleCycle {} true drainedNode).trace, e.ans = drainedNode e.op :=
    @Prog.exec_answers daemonSig _ drainedNode
      (StateT.run (ExceptT.run (alertCycle pagerSettings)) {})
  refine (drained_silent (.single hstep)) _ (by simp) _ (List.mem_cons_self ..) ?_ ?_
  · intro w hw
    obtain rfl : 100 * 10 ^ 18 = w := Reply.result.inj (hanswers _ hw).symm
    decide +kernel
  · rintro e he ⟨o, a, rfl, hnone, -⟩
    have ha := hanswers _ he
    cases o <;> exact hnone _ ha

end Clif
