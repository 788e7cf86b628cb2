import Clif.FundingPass

/-!
# FundingTurns — what a funding pass accounts for

`accountsFor_iff` says after which failures `run_funding` still has a disposition for every
account.
-/

namespace Clif

open Effect

/-- `run_funding` over any registry. -/
def runFundingOver (p : PassArgs) (all : List Account) : Py FundingResult := do
  match ← attempt suggestFees with
  | .error (.rpcError msg) =>
    return { network := p.network, error := some s!"fee read failed: {msg}" }
  | .error e => throw e
  | .ok fees => fundAccounts p fees 0 all { network := p.network }

theorem runFunding_eq {p : PassArgs} {all : List Account} (h : registry p.network = .ok all) :
    runFunding p = runFundingOver p all := by
  unfold runFunding runFundingOver
  rw [h]
  rfl

/-! ## The answers of a world that fails as documented -/

/-- An RPC call raises `RpcError` or has an answer of its type, a receipt has the two fields that
are read, and a call of `fwd` raises one of its own errors.  The fee cap is a positive number, if it
is set. -/
def Documented : Event sig → Prop
  | ⟨.rpc (.getTransactionReceipt _), .result (some receipt)⟩ =>
    ∃ block status, receiptAt "blockNumber" receipt.blockNumber = .ok block ∧
      receiptAt "status" receipt.status = .ok status
  | ⟨.rpc _, .malformed _ _⟩ => False
  | ⟨.fwd _ _, .error e⟩ => e.isFwd = true
  | ⟨.getenv _, some raw⟩ => raw = "" ∨ ∃ cap, Py.int? raw = some cap ∧ 0 < cap
  | _ => True

/-- The call raised `RpcError`. -/
def RpcFails : Event sig → Prop
  | ⟨.rpc o, reply⟩ => ∃ e, rpcResult o.method reply = .error e
  | _ => False

/-- Whether a broadcast was accepted and no balance was read since. -/
def awaits (before : Bool) : Event sig → Bool
  | ⟨.rpc (.sendRawTransaction _), .result _⟩ => true
  | ⟨.rpc (.getBalance _), _⟩ => false
  | _ => before

def Awaits (h : Trace) : Prop := h.foldl awaits false = true

/-- No RPC call fails between an accepted broadcast and the end of the balance read after it. -/
def Uninterrupted (t : Trace) : Prop := Guarded (fun h e => Awaits h → ¬ RpcFails e) t

/-! ## What is asked of a pass -/

/-- The balance of the account was read, a receipt with status 1 came, and the balance was read
again and was higher. -/
def FundedBy (a : Account) (seg : Trace) (topup : TopUp) : Prop :=
  ∃ (balance after : Int) (mid : Trace) (receipt : Receipt),
    seg = ⟨.rpc (.getBalance a.address), .result balance⟩ :: mid ++
      [⟨.rpc (.getBalance a.address), .result after⟩] ∧
    ⟨.rpc (.getTransactionReceipt topup.txHash), .result (some receipt)⟩ ∈ mid ∧
    receiptAt "status" receipt.status = .ok 1 ∧ balance < after ∧
    topup.before = native balance ∧ topup.after = native after ∧ topup.before < topup.after

/-- What became of an account in its turn: its balance is at its floor or above, or it has a
record of its own. -/
def Disposed (a : Account) (seg : Trace) : Option TopUp → Prop
  | none => ∃ balance : Int, seg = [⟨.rpc (.getBalance a.address), .result balance⟩] ∧
      a.band.lower ≤ native balance
  | some topup => topup.name = a.name ∧ topup.address = a.address ∧
      (∃ reply rest, seg = ⟨.rpc (.getBalance a.address), reply⟩ :: rest) ∧
      (topup.status = .funded → FundedBy a seg topup)

/-- The turn of an account. -/
structure AccountTurn where
  account : Account
  events : Trace
  topup : Option TopUp
  disposed : Disposed account events topup

/-- Every account of the registry had its turn, in order, and every turn is in the result. -/
structure Complete (all : List Account) (t : Trace) (res : FundingResult) : Prop where
  turns : ∃ (fees : Trace) (turns : List AccountTurn), turns.map AccountTurn.account = all ∧
    t = fees ++ turns.flatMap AccountTurn.events ∧
    res.topups = turns.filterMap AccountTurn.topup ∧
    res.skippedOk = turns.countP fun turn => turn.topup.isNone
  total : res.skippedOk + res.topups.length = all.length

/-- The pass returns, with an error for all of it or with a disposition for every account. -/
def AccountsFor (all : List Account) (t : Trace) (r : Except Exc FundingResult) : Prop :=
  ∃ res, r = .ok res ∧ (res.error ≠ none ∨ Complete all t res)

/-! ## Histories -/

section

variable {h : Trace} {e : Event sig} {α β : Type}

theorem awaits_snoc : Awaits (h ++ [e]) ↔ awaits (h.foldl awaits false) e = true := by
  rw [Awaits, List.foldl_append]
  rfl

theorem uninterrupted_snoc :
    Uninterrupted (h ++ [e]) ↔ Uninterrupted h ∧ (Awaits h → ¬ RpcFails e) :=
  guarded_snoc

theorem not_documented_malformed {o : RpcOp} {cls msg : String} :
    ¬ Documented ⟨.rpc o, .malformed cls msg⟩ := by
  cases o <;> exact id

/-- What a program leaves behind in a world that fails as documented: a result after an undisturbed
history, or an exception after a disturbance. -/
def Ends (Q : α → Trace → Prop) (r : Except Exc α) (h' : Trace) : Prop :=
  (∀ e ∈ h', Documented e) →
    match r with
    | .ok a => Uninterrupted h' ∧ Q a h'
    | .error _ => ¬ Uninterrupted h'

theorem ends_pure {a : α} {Q : α → Trace → Prop} (hh : Uninterrupted h) (hq : Q a h) :
    Wp (pure a) (Ends Q) h := wp_pure.mpr fun _ => ⟨hh, hq⟩

theorem ends_bind {p : Py α} {f : α → Py β} {Q : α → Trace → Prop} {R : β → Trace → Prop}
    (hp : Wp p (Ends Q) h) (hf : ∀ a h', Uninterrupted h' → Q a h' → Wp (f a) (Ends R) h') :
    Wp (p >>= f) (Ends R) h := by
  refine wp_bind.mpr (hp.mono fun r h' hends => ?_)
  cases r with
  | error e => exact hends
  | ok a =>
    intro t r hr hdoc
    obtain ⟨hh, hq⟩ := hends fun e he => hdoc e (List.mem_append_left t he)
    exact hf a h' hh hq t r hr hdoc

theorem ends_mono {p : Py α} {Q R : α → Trace → Prop} (hp : Wp p (Ends Q) h)
    (hqr : ∀ a h', Q a h' → R a h') : Wp p (Ends R) h := by
  refine hp.mono fun r h' hends hdoc => ?_
  cases r with
  | error e => exact hends hdoc
  | ok a => exact ⟨(hends hdoc).1, hqr a h' (hends hdoc).2⟩

/-- The history before the program was as documented, too. -/
theorem ends_of_documented {p : Py α} {Q : α → Trace → Prop}
    (hp : (∀ e ∈ h, Documented e) → Wp p (Ends Q) h) : Wp p (Ends Q) h :=
  fun t r hr hdoc => hp (fun e he => hdoc e (List.mem_append_left t he)) t r hr hdoc

theorem ends_attempt_fwd {c : Option String} {o : FwdOp} {f : Except Exc o.Res → Py α}
    {Q : α → Trace → Prop} (hok : ∀ x, Wp (f (.ok x)) (Ends Q) (h ++ [⟨.fwd c o, .ok x⟩]))
    (herror : ∀ e, e.isFwd = true → Wp (f (.error e)) (Ends Q) (h ++ [⟨.fwd c o, .error e⟩])) :
    Wp (attempt (fwd c o) >>= f) (Ends Q) h := by
  refine wp_attempt_bind.mpr (wp_fwd.mpr fun x => ?_)
  cases x with
  | ok x => exact hok x
  | error e =>
    refine ends_of_documented fun hdoc => herror e ?_
    exact hdoc ⟨.fwd c o, .error e⟩ (by simp)

theorem ends_attempt_rpc {o : RpcOp} {f : Except Exc o.Res → Py α} {Q : α → Trace → Prop}
    (hok : ∀ x, Wp (f (.ok x)) (Ends Q) (h ++ [⟨.rpc o, .result x⟩]))
    (herror : ∀ reply msg, rpcResult o.method reply = .error (.rpcError msg) →
      Wp (f (.error (.rpcError msg))) (Ends Q) (h ++ [⟨.rpc o, reply⟩])) :
    Wp (attempt (rpc o) >>= f) (Ends Q) h := by
  refine wp_attempt_bind.mpr (wp_rpc.mpr fun reply => ?_)
  cases reply with
  | result x => exact hok x
  | transport exc => exact herror _ _ rfl
  | error err => exact herror _ _ rfl
  | undecodable exc => exact herror _ _ rfl
  | malformed cls msg =>
    refine ends_of_documented fun hdoc => ?_
    exact (not_documented_malformed (hdoc ⟨.rpc o, .malformed cls msg⟩ (by simp))).elim

/-- While a broadcast is awaited, a call that fails is a disturbance. -/
theorem ends_rpc {o : RpcOp} {Q : o.Res → Trace → Prop} (hh : Uninterrupted h) (hawaits : Awaits h)
    (hq : ∀ x, Documented ⟨.rpc o, .result x⟩ → Q x (h ++ [⟨.rpc o, .result x⟩])) :
    Wp (rpc o) (Ends Q) h := by
  refine wp_rpc.mpr fun reply hdoc => ?_
  cases hreply : rpcResult o.method reply with
  | error e =>
    intro hbad
    exact (uninterrupted_snoc.mp hbad).2 hawaits ⟨e, hreply⟩
  | ok x =>
    obtain rfl := rpcResult_eq_ok hreply
    refine ⟨uninterrupted_snoc.mpr ⟨hh, fun _ => ?_⟩, hq x (hdoc _ (by simp))⟩
    rintro ⟨e, he⟩
    rw [hreply] at he
    cases he

/-- While none is, a call that fails is none. -/
theorem uninterrupted_calm {h : Trace} {e : Event sig} (hh : Uninterrupted h) (hcalm : ¬ Awaits h) :
    Uninterrupted (h ++ [e]) :=
  uninterrupted_snoc.mpr ⟨hh, fun hawaits => absurd hawaits hcalm⟩

/-- No call of `t` fails. -/
theorem uninterrupted_sound {h t : Trace} (hh : Uninterrupted h) (ht : ∀ e ∈ t, ¬ RpcFails e) :
    Uninterrupted (h ++ t) :=
  keep_append (fun _ _ hh' he => uninterrupted_snoc.mpr ⟨hh', fun _ => he⟩) ht hh

theorem not_rpcFails_result {o : RpcOp} {x : o.Res} : ¬ RpcFails ⟨.rpc o, .result x⟩ := by
  rintro ⟨e, he⟩
  cases he

theorem not_rpcFails_fwd {c : Option String} {o : FwdOp} {x : Except Exc o.Res} :
    ¬ RpcFails ⟨.fwd c o, x⟩ := id

theorem awaits_fwd {c : Option String} {o : FwdOp} {x : Except Exc o.Res} :
    Awaits (h ++ [⟨.fwd c o, x⟩]) ↔ Awaits h := awaits_snoc

/-- An answer of `fwd` changes nothing. -/
theorem uninterrupted_fwd {c : Option String} {o : FwdOp} {x : Except Exc o.Res} :
    Uninterrupted (h ++ [⟨.fwd c o, x⟩]) ↔ Uninterrupted h :=
  uninterrupted_snoc.trans (and_iff_left fun _ => not_rpcFails_fwd)

/-- A report that fails as documented is swallowed. -/
theorem ends_reportQuietly {caller : Option String} {o : FwdOp} {Q : Unit → Trace → Prop}
    (hh : Uninterrupted h) (hq : ∀ x, Q () (h ++ [⟨.fwd caller o, x⟩])) :
    Wp (reportQuietly caller o) (Ends Q) h := by
  intro t r hr hdoc
  obtain ⟨x, rfl, rfl⟩ := runs_reportQuietly.mp hr
  have hx : swallow x = .ok () := by
    cases x with
    | ok _ => rfl
    | error e =>
      have he : e.isFwd = true := hdoc ⟨.fwd caller o, .error e⟩ (by simp)
      simp [swallow, he]
  rw [hx]
  exact ⟨uninterrupted_fwd.mpr hh, hq x⟩

/-! ## The execute path -/

/-- The receipt that a poll came back with is in its exchanges. -/
def ReadIn (txHash : String) (h : Trace) (receipt : Option Receipt) (h' : Trace) : Prop :=
  ∃ mid, h' = h ++ mid ∧ Awaits h' ∧ ∀ rec, receipt = some rec →
    ⟨.rpc (.getTransactionReceipt txHash), .result (some rec)⟩ ∈ mid ∧
      ∃ block status, receiptAt "blockNumber" rec.blockNumber = .ok block ∧
        receiptAt "status" rec.status = .ok status

theorem pollLoop_ends {txHash : String} {n : Nat} (hh : Uninterrupted h) (hawaits : Awaits h) :
    Wp (pollLoop txHash n) (Ends (ReadIn txHash h)) h := by
  have hread : ∀ {h : Trace} {receipt : Option Receipt}, Awaits h →
      Documented ⟨.rpc (.getTransactionReceipt txHash), .result receipt⟩ →
      ReadIn txHash h receipt
        (h ++ [⟨.rpc (.getTransactionReceipt txHash), .result receipt⟩]) := by
    intro h receipt hawaits hdoc
    refine ⟨_, rfl, awaits_snoc.mpr hawaits, ?_⟩
    rintro rec rfl
    exact ⟨List.mem_singleton_self _, hdoc⟩
  induction n generalizing h with
  | zero => exact ends_rpc hh hawaits fun receipt hdoc => hread hawaits hdoc
  | succ n ih =>
    unfold pollLoop
    refine ends_bind (ends_rpc hh hawaits fun receipt hdoc => hread hawaits hdoc) ?_
    rintro receipt h' hh' ⟨mid, rfl, hawaits', hrec⟩
    cases receipt with
    | some rec => exact ends_pure hh' ⟨mid, rfl, hawaits', hrec⟩
    | none =>
      refine wp_bind.mpr (wp_ask.mpr fun passed => ?_)
      have hask : Uninterrupted ((h ++ mid) ++ [⟨.deadlinePassed, passed⟩]) :=
        uninterrupted_snoc.mpr ⟨hh', fun _ => id⟩
      have hask' : Awaits ((h ++ mid) ++ [⟨.deadlinePassed, passed⟩]) := awaits_snoc.mpr hawaits'
      cases passed with
      | true =>
        refine ends_pure hask ⟨mid ++ [⟨.deadlinePassed, true⟩], List.append_assoc _ _ _, hask', ?_⟩
        rintro rec ⟨⟩
      | false =>
        refine ends_mono (ih hask hask') ?_
        rintro receipt h'' ⟨mid', rfl, hawaits'', hrec'⟩
        refine ⟨mid ++ [⟨.deadlinePassed, false⟩] ++ mid', by simp, hawaits'', fun rec heq => ?_⟩
        obtain ⟨hmem, hfields⟩ := hrec' rec heq
        exact ⟨List.mem_append_right _ hmem, hfields⟩

/-- Once the broadcast was accepted the top-up is funded by what the node answered last. -/
def ConfirmedBy (a : Account) (before : ℚ) (txHash : String) (h : Trace) (topup : TopUp)
    (h' : Trace) : Prop :=
  ∃ (mid : Trace) (after : Int), h' = h ++ mid ++ [⟨.rpc (.getBalance a.address), .result after⟩] ∧
    topup.name = a.name ∧ topup.address = a.address ∧ topup.before = before ∧
    topup.after = native after ∧ topup.txHash = txHash ∧
    (topup.status = .funded → before < topup.after ∧ ∃ receipt,
      ⟨.rpc (.getTransactionReceipt txHash), .result (some receipt)⟩ ∈ mid ∧
      receiptAt "status" receipt.status = .ok 1)

/-- Whether the receipt has status 1, after its report. -/
theorem reportMined_ends {caller : Option String} {resp : SignTransactionResponse} {txHash : String}
    {receipt : Option Receipt} (hh : Uninterrupted h) (hawaits : Awaits h)
    (hfields : ∀ rec, receipt = some rec → ∃ block status,
      receiptAt "blockNumber" rec.blockNumber = .ok block ∧
      receiptAt "status" rec.status = .ok status) :
    Wp (reportMined caller resp txHash receipt) (Ends fun ok h' => ∃ mid, h' = h ++ mid ∧
      Awaits h' ∧ (ok = true → ∃ rec, receipt = some rec ∧
        receiptAt "status" rec.status = .ok 1)) h := by
  cases receipt with
  | none => exact ends_pure hh ⟨[], by simp, hawaits, by rintro ⟨⟩⟩
  | some rec =>
    obtain ⟨block, status, hblock, hstatus⟩ := hfields rec rfl
    unfold reportMined
    dsimp only
    rw [hblock, hstatus]
    refine wp_bind.mpr (wp_fromExcept.mpr ?_)
    refine ends_bind (Q := fun _ h' => ∃ e, h' = h ++ [e] ∧ Awaits h') (ends_reportQuietly hh
      fun x => ⟨_, rfl, awaits_fwd.mpr hawaits⟩) ?_
    rintro - h' hh' ⟨e, rfl, hawaits'⟩
    refine wp_bind.mpr (wp_fromExcept.mpr ?_)
    refine ends_pure hh' ⟨_, rfl, hawaits', fun hone => ⟨rec, rfl, ?_⟩⟩
    rw [hstatus, beq_iff_eq.mp hone]

theorem confirmTopup_ends {caller : Option String} {a : Account} {before : ℚ} {v : Int}
    {pollTimeout : Nat} {resp : SignTransactionResponse} {txHash : String} (hh : Uninterrupted h)
    (hawaits : Awaits h) :
    Wp (confirmTopup caller a before v pollTimeout resp txHash)
      (Ends (ConfirmedBy a before txHash h)) h := by
  unfold confirmTopup pollReceipt
  refine ends_bind (pollLoop_ends hh hawaits) ?_
  rintro receipt h₁ hh₁ ⟨mid, rfl, hawaits₁, hread⟩
  refine ends_bind (reportMined_ends hh₁ hawaits₁ fun rec heq => (hread rec heq).2) ?_
  rintro ok h₂ hh₂ ⟨mid', rfl, hawaits₂, hok⟩
  refine ends_bind (Q := fun after h' => h' = (h ++ mid ++ mid') ++
    [⟨.rpc (.getBalance a.address), .result after⟩]) (ends_rpc hh₂ hawaits₂ fun _ _ => rfl) ?_
  rintro after h₃ hh₃ rfl
  refine ends_pure hh₃ ⟨mid ++ mid', after, by simp, rfl, rfl, rfl, rfl, rfl, fun hfunded => ?_⟩
  have hboth : (ok && decide (before < native after)) = true := by
    by_contra hnot
    rw [Bool.not_eq_true] at hnot
    simp [hnot] at hfunded
  obtain ⟨hone, hrose⟩ := Bool.and_eq_true_iff.mp hboth
  obtain ⟨rec, rfl, hstatus⟩ := hok hone
  exact ⟨of_decide_eq_true hrose, rec, List.mem_append_left _ (hread rec rfl).1, hstatus⟩

/-- What the execute path leaves behind: a record of the account, and no broadcast awaited. -/
def TriedBy (a : Account) (before : ℚ) (h : Trace) (topup : TopUp) (h' : Trace) : Prop :=
  ¬ Awaits h' ∧ topup.name = a.name ∧ topup.address = a.address ∧
    ∃ mid, h' = h ++ mid ∧ (topup.status = .funded →
      ∃ mid₁ mid₂ txHash, mid = mid₁ ++ mid₂ ∧ ConfirmedBy a before txHash (h ++ mid₁) topup h')

/-- A failed attempt. -/
theorem triedBy_failed {a : Account} {before : ℚ} {topup : TopUp} {mid : Trace}
    (hcalm : ¬ Awaits (h ++ mid)) (hname : topup.name = a.name)
    (haddress : topup.address = a.address) (hfailed : topup.status = .failed) :
    TriedBy a before h topup (h ++ mid) := by
  refine ⟨hcalm, hname, haddress, mid, rfl, fun hfunded => ?_⟩
  rw [hfailed] at hfunded
  cases hfunded

theorem TriedBy.later {a : Account} {before : ℚ} {topup : TopUp} {mid h' : Trace}
    (ht : TriedBy a before (h ++ mid) topup h') : TriedBy a before h topup h' := by
  obtain ⟨hcalm, hname, haddress, rest, rfl, hfunded⟩ := ht
  refine ⟨hcalm, hname, haddress, mid ++ rest, List.append_assoc _ _ _, fun h => ?_⟩
  obtain ⟨mid₁, mid₂, txHash, rfl, hconfirmed⟩ := hfunded h
  refine ⟨mid ++ mid₁, mid₂, txHash, (List.append_assoc _ _ _).symm, ?_⟩
  rwa [List.append_assoc] at hconfirmed

theorem not_awaits_balance {a : Account} {reply : Reply (RpcOp.getBalance a.address).Res} :
    ¬ Awaits (h ++ [⟨.rpc (.getBalance a.address), reply⟩]) := by
  rw [awaits_snoc]
  exact Bool.false_ne_true

theorem ConfirmedBy.tried {a : Account} {before : ℚ} {txHash : String} {topup : TopUp}
    {mid h' : Trace} (hc : ConfirmedBy a before txHash (h ++ mid) topup h') :
    TriedBy a before h topup h' := by
  obtain ⟨mid', after, rfl, hname, haddress, -⟩ := id hc
  let last : Event sig := ⟨.rpc (.getBalance a.address), .result after⟩
  exact ⟨not_awaits_balance, hname, haddress, mid ++ mid' ++ [last], by simp [last],
    fun _ => ⟨mid, mid' ++ [last], txHash, List.append_assoc _ _ _, hc⟩⟩

theorem sendTopup_ends {caller : Option String} {a : Account} {before : ℚ} {v : Int}
    {pollTimeout : Nat} {resp : SignTransactionResponse} (hh : Uninterrupted h)
    (hcalm : ¬ Awaits h) :
    Wp (sendTopup caller a before v pollTimeout resp) (Ends (TriedBy a before h)) h := by
  unfold sendTopup
  refine ends_attempt_rpc (fun txHash => ?_) fun reply msg hreply => ?_
  · -- from here on a broadcast is awaited
    have hh' :
        Uninterrupted (h ++ [⟨.rpc (.sendRawTransaction resp.signedRawTx), .result txHash⟩]) :=
      uninterrupted_calm hh hcalm
    have hawaits : Awaits (h ++ [⟨.rpc (.sendRawTransaction resp.signedRawTx), .result txHash⟩]) :=
      awaits_snoc.mpr rfl
    refine ends_bind (Q := fun _ h' => ∃ mid, h' = h ++ mid ∧ Awaits h') (ends_reportQuietly hh'
      fun x => ⟨_, List.append_assoc _ _ _, awaits_fwd.mpr hawaits⟩) ?_
    rintro - h' hh'' ⟨mid, rfl, hawaits'⟩
    exact ends_mono (confirmTopup_ends hh'' hawaits') fun topup h' hc => hc.tried
  · have hcalm' : ¬ Awaits (h ++ [⟨.rpc (.sendRawTransaction resp.signedRawTx), reply⟩]) := by
      rw [awaits_snoc]
      cases reply with
      | result x => cases hreply
      | _ => exact hcalm
    refine ends_bind (Q := fun _ h' => ∃ mid, h' = h ++ mid ∧ ¬ Awaits h')
      (ends_reportQuietly (uninterrupted_calm hh hcalm)
        fun x => ⟨_, List.append_assoc _ _ _, fun hawaits => hcalm' (awaits_fwd.mp hawaits)⟩) ?_
    rintro - h' hh' ⟨mid, rfl, hcalm''⟩
    exact ends_pure hh' (triedBy_failed hcalm'' rfl rfl rfl)

/-- The execute path asks no more of the history than that no broadcast is awaited. -/
theorem executeTopup_ends {p : PassArgs} {a : Account} {before : ℚ} {v maxFee maxPriority : Int}
    {now : Int} (hh : Uninterrupted h) (hcalm : ¬ Awaits h) :
    Wp (executeTopup p.caller a before v p.network p.wallet p.chainId maxFee maxPriority
      p.pollTimeout now) (Ends (TriedBy a before h)) h := by
  unfold executeTopup
  refine ends_attempt_fwd (fun resp => ?_) fun e he => ?_
  · refine ends_mono (sendTopup_ends (uninterrupted_fwd.mpr hh)
      fun hawaits => hcalm (awaits_fwd.mp hawaits)) fun topup h' ht => ht.later
  · dsimp only
    rw [if_pos he]
    exact ends_pure (uninterrupted_fwd.mpr hh)
      (triedBy_failed (fun hawaits => hcalm (awaits_fwd.mp hawaits)) rfl rfl rfl)

/-! ## The turns -/

def FundingResult.after (res : FundingResult) (turn : AccountTurn) : FundingResult :=
  match turn.topup with
  | none => { res with skippedOk := res.skippedOk + 1 }
  | some topup => res.add topup

/-- The turn of an account, whatever fails in it before a broadcast is accepted. -/
theorem topupAccount_ends {p : PassArgs} {fees : Int × Int} {n : Nat} {a : Account}
    {res : FundingResult} (hh : Uninterrupted h) (hcalm : ¬ Awaits h) :
    Wp (topupAccount p fees (shortfall a) n a res)
      (Ends fun res' h' => ∃ turn : AccountTurn, turn.account = a ∧ h' = h ++ turn.events ∧
        ¬ Awaits h' ∧ res' = res.after turn) h := by
  unfold topupAccount
  refine ends_attempt_rpc (fun balance => ?_) fun reply msg hreply => ?_
  · have hh' : Uninterrupted (h ++ [⟨.rpc (.getBalance a.address), .result balance⟩]) :=
      uninterrupted_calm hh hcalm
    dsimp only
    cases hvalue : shortfall a (native balance) with
    | none =>
      have hfloor : a.band.lower ≤ native balance := by
        unfold shortfall at hvalue
        split at hvalue
        · assumption
        · cases hvalue
      exact ends_pure hh' ⟨⟨a, _, none, balance, rfl, hfloor⟩, rfl, rfl, not_awaits_balance, rfl⟩
    | some v =>
      refine ends_bind (executeTopup_ends hh' not_awaits_balance) ?_
      rintro topup h' hh'' ⟨hcalm', hname, haddress, mid, rfl, hfunded⟩
      have hdisposed : Disposed a (⟨.rpc (.getBalance a.address), .result balance⟩ :: mid)
          (some topup) := by
        refine ⟨hname, haddress, ⟨_, _, rfl⟩, fun hstatus => ?_⟩
        obtain ⟨mid₁, mid₂, txHash, rfl, mid', after, heq, -, -, hbefore, hafter, htx, hrose⟩ :=
          hfunded hstatus
        obtain ⟨hlt, receipt, hreceipt, hone⟩ := hrose hstatus
        have hend : mid₂ = mid' ++ [⟨.rpc (.getBalance a.address), .result after⟩] := by
          simpa using heq
        refine ⟨balance, after, mid₁ ++ mid', receipt, by simp [hend], ?_, hone, ?_, hbefore, hafter,
          ?_⟩
        · rw [htx]
          exact List.mem_append_right _ hreceipt
        · rw [hafter] at hlt
          exact native_mono.reflect_lt hlt
        · rwa [hbefore]
      exact ends_pure hh'' ⟨⟨a, _, some topup, hdisposed⟩, rfl, by simp, hcalm', rfl⟩
  · have hdisposed : Disposed a [⟨.rpc (.getBalance a.address), reply⟩]
        (some { name := a.name, address := a.address, before := 0, after := 0, sent := 0,
                txHash := "", status := .failed, detail := s!"balance read: {msg}" }) := by
      refine ⟨rfl, rfl, ⟨reply, [], rfl⟩, ?_⟩
      rintro ⟨⟩
    exact ends_pure (uninterrupted_calm hh hcalm)
      ⟨⟨a, _, _, hdisposed⟩, rfl, rfl, not_awaits_balance,
      rfl⟩

/-- The accounts have their turns one after the other. -/
theorem fundAccounts_ends {p : PassArgs} {fees : Int × Int} {n : Nat} {all : List Account}
    {res : FundingResult} (hh : Uninterrupted h) (hcalm : ¬ Awaits h) :
    Wp (fundAccounts p fees n all res)
      (Ends fun res' h' => ∃ turns : List AccountTurn, turns.map AccountTurn.account = all ∧
        h' = h ++ turns.flatMap AccountTurn.events ∧
        res' = turns.foldl FundingResult.after res) h := by
  induction all generalizing n res h with
  | nil => exact ends_pure hh ⟨[], rfl, by simp, rfl⟩
  | cons a all ih =>
    unfold fundAccounts
    refine ends_bind (topupAccount_ends hh hcalm) ?_
    rintro res' h' hh' ⟨turn, rfl, rfl, hcalm', rfl⟩
    refine ends_mono (ih hh' hcalm') ?_
    rintro res'' h'' ⟨turns, rfl, rfl, rfl⟩
    exact ⟨turn :: turns, rfl, by simp, rfl⟩

/-- Every turn is in the result. -/
theorem foldl_after {turns : List AccountTurn} {res : FundingResult} :
    (turns.foldl FundingResult.after res).topups =
        res.topups ++ turns.filterMap AccountTurn.topup ∧
      (turns.foldl FundingResult.after res).skippedOk =
        res.skippedOk + turns.countP (fun turn => turn.topup.isNone) ∧
      (turns.foldl FundingResult.after res).error = res.error := by
  induction turns generalizing res with
  | nil => simp
  | cons turn turns ih =>
    obtain ⟨htopups, hskipped, herror⟩ := @ih (res.after turn)
    rw [List.foldl_cons, htopups, hskipped, herror]
    unfold FundingResult.after
    cases hturn : turn.topup with
    | none =>
      simp [hturn]
      omega
    | some topup => simp [hturn, FundingResult.add]

theorem length_filterMap_topup {turns : List AccountTurn} :
    turns.countP (fun turn => turn.topup.isNone) + (turns.filterMap AccountTurn.topup).length =
      turns.length := by
  induction turns with
  | nil => rfl
  | cons turn turns ih =>
    cases hturn : turn.topup with
    | none =>
      simp [hturn]
      omega
    | some topup =>
      simp [hturn]
      omega

/-! ## The pass -/

/-- The fees are read before any broadcast, and fail with `RpcError`. -/
def FeesRead (x : Except Exc (Int × Int)) (h' : Trace) : Prop :=
  (∀ e ∈ h', Documented e) →
    Uninterrupted h' ∧ ¬ Awaits h' ∧ ((∃ fees, x = .ok fees) ∨ ∃ msg, x = .error (.rpcError msg))

theorem maxFeeCapWei_read (hh : Uninterrupted h) (hcalm : ¬ Awaits h) :
    Wp maxFeeCapWei (fun x h' => (∀ e ∈ h', Documented e) →
      Uninterrupted h' ∧ ¬ Awaits h' ∧ ∃ cap, x = .ok cap) h := by
  unfold maxFeeCapWei
  refine wp_bind.mpr (wp_ask.mpr fun raw => ?_)
  have hh' : Uninterrupted (h ++ [⟨.getenv "CLIF_MAX_FEE_PER_GAS_WEI", raw⟩]) :=
    uninterrupted_calm hh hcalm
  have hcalm' : ¬ Awaits (h ++ [⟨.getenv "CLIF_MAX_FEE_PER_GAS_WEI", raw⟩]) := by
    rw [awaits_snoc]
    exact hcalm
  intro t r hr hdoc
  have hset : Documented ⟨.getenv "CLIF_MAX_FEE_PER_GAS_WEI", raw⟩ := hdoc _ (by simp)
  dsimp only at hr
  by_cases htruthy : Py.truthy raw = true
  · rw [if_pos htruthy] at hr
    cases raw with
    | none => cases htruthy
    | some raw =>
      have hne : raw ≠ "" := by simpa [Py.truthy] using htruthy
      obtain ⟨cap, hcap, hpos⟩ := hset.resolve_left hne
      rw [Option.getD_some, hcap] at hr
      dsimp only at hr
      rw [if_neg (not_le.mpr hpos)] at hr
      obtain ⟨rfl, rfl⟩ := hr
      rw [List.append_nil]
      exact ⟨hh', hcalm', cap, rfl⟩
  · rw [if_neg htruthy] at hr
    obtain ⟨rfl, rfl⟩ := hr
    rw [List.append_nil]
    exact ⟨hh', hcalm', _, rfl⟩

theorem suggestFees_read (hh : Uninterrupted h) (hcalm : ¬ Awaits h) :
    Wp suggestFees FeesRead h := by
  unfold suggestFees
  refine wp_bind.mpr (wp_rpc.mpr fun reply => ?_)
  have hh' : Uninterrupted (h ++ [⟨.rpc .feeHistory, reply⟩]) := uninterrupted_calm hh hcalm
  have hcalm' : ¬ Awaits (h ++ [⟨.rpc .feeHistory, reply⟩]) := by
    rw [awaits_snoc]
    cases reply <;> exact hcalm
  cases reply with
  | transport exc => exact fun _ => ⟨hh', hcalm', .inr ⟨_, rfl⟩⟩
  | error err => exact fun _ => ⟨hh', hcalm', .inr ⟨_, rfl⟩⟩
  | undecodable exc => exact fun _ => ⟨hh', hcalm', .inr ⟨_, rfl⟩⟩
  | malformed cls msg =>
    intro hdoc
    exact absurd (hdoc ⟨.rpc .feeHistory, .malformed cls msg⟩ (by simp)) id
  | result baseFees =>
    refine wp_bind.mpr ((maxFeeCapWei_read hh' hcalm').mono fun x h' hread => ?_)
    cases x with
    | error e =>
      intro hdoc
      obtain ⟨-, -, cap, hcap⟩ := hread hdoc
      cases hcap
    | ok cap =>
      dsimp only [andThen]
      split
      · refine wp_throw.mpr fun hdoc => ?_
        obtain ⟨hh'', hcalm'', -⟩ := hread hdoc
        exact ⟨hh'', hcalm'', .inr ⟨_, rfl⟩⟩
      · refine wp_pure.mpr fun hdoc => ?_
        obtain ⟨hh'', hcalm'', -⟩ := hread hdoc
        exact ⟨hh'', hcalm'', .inl ⟨_, rfl⟩⟩

theorem runFundingOver_ends {p : PassArgs} {all : List Account} :
    Wp (runFundingOver p all) (Ends fun res t => res.error ≠ none ∨ Complete all t res) [] := by
  have hcalm : ¬ Awaits [] := Bool.false_ne_true
  refine wp_attempt_bind.mpr ((suggestFees_read guarded_nil hcalm).mono fun x h hread => ?_)
  refine ends_of_documented fun hdoc => ?_
  obtain ⟨hh, hcalm', ⟨fees, rfl⟩ | ⟨msg, rfl⟩⟩ := hread hdoc
  · refine ends_mono (fundAccounts_ends hh hcalm') ?_
    rintro res t ⟨turns, rfl, rfl, rfl⟩
    obtain ⟨htopups, hskipped, -⟩ := @foldl_after turns { network := p.network }
    rw [List.nil_append] at htopups
    rw [Nat.zero_add] at hskipped
    refine .inr ⟨⟨h, turns, rfl, rfl, htopups, hskipped⟩, ?_⟩
    rw [htopups, hskipped, length_filterMap_topup, List.length_map]
  · exact ends_pure hh (.inl (Option.some_ne_none _))

end

/-- In a world that fails as documented, a pass accounts for every account of its registry exactly
if no RPC call fails while it waits for a broadcast of its own. -/
theorem accountsFor_iff {p : PassArgs} {all : List Account} {t : Trace}
    {r : Except Exc FundingResult} (hrun : Runs (runFundingOver p all) t r)
    (hdoc : ∀ e ∈ t, Documented e) : AccountsFor all t r ↔ Uninterrupted t := by
  have hends := runFundingOver_ends t r hrun
  rw [List.nil_append] at hends
  have hends' := hends hdoc
  cases r with
  | ok res => exact iff_of_true ⟨res, rfl, hends'.2⟩ hends'.1
  | error e =>
    refine iff_of_false ?_ hends'
    rintro ⟨res, hok, -⟩
    cases hok

/-! ### A top-up between two failures -/

/-- The answers in their order: the first balance cannot be read, the second is 100 and 400 at the
end, and `fwd` does not hear of the broadcast. -/
def roughAnswers (n : Nat) : (op : Op) → op.Ans
  | .rpc .feeHistory => .result [25000000000]
  | .rpc (.getBalance _) =>
    if n = 2 then .transport "timed out"
    else .result (if n = 3 then 100 * 10 ^ 18 else 400 * 10 ^ 18)
  | .fwd _ (.signTransaction _ _) => .ok ⟨"tx", "0xaa", "0xf1"⟩
  | .rpc (.sendRawTransaction _) => .result "0xaa"
  | .rpc (.getTransactionReceipt _) => .result (some ⟨some "0x10", some "0x1", []⟩)
  | op => deafWorld op

/-- `FastUpdates-1` of `ACCOUNTS["flare"]`. -/
def fastUpdatesAccount : Account :=
  ⟨"FastUpdates-1", "0x8AF4f6Eb1A26516Ccb0fe02AD7182f96c0CA5bBb", gasBand⟩

def roughRegistry : List Account := [submitAccount, fastUpdatesAccount]

def roughTrace : Trace :=
  [⟨.rpc .feeHistory, .result [25000000000]⟩,
    ⟨.getenv "CLIF_MAX_FEE_PER_GAS_WEI", none⟩,
    ⟨.rpc (.getBalance submitAccount.address), .transport "timed out"⟩,
    ⟨.rpc (.getBalance fastUpdatesAccount.address), .result (100 * 10 ^ 18)⟩,
    ⟨.fwd (some "funder") (.signTransaction
      (topupTxBody fastUpdatesAccount (300 * 10 ^ 18) "ap-funder" 14 51000000000 1000000000)
      (topupKey .flare fastUpdatesAccount 0)), .ok ⟨"tx", "0xaa", "0xf1"⟩⟩,
    ⟨.rpc (.sendRawTransaction "0xf1"), .result "0xaa"⟩,
    ⟨.fwd (some "funder") (.reportBroadcastResult "tx" "0xaa" .accepted none),
      .error (.fwdRetryable 0 "transport_error" "fwd unreachable")⟩,
    ⟨.rpc (.getTransactionReceipt "0xaa"), .result (some ⟨some "0x10", some "0x1", []⟩)⟩,
    ⟨.fwd (some "funder") (.reportReceipt "tx" "0xaa" .minedSuccess 16),
      .error (.fwdRetryable 0 "transport_error" "fwd unreachable")⟩,
    ⟨.rpc (.getBalance fastUpdatesAccount.address), .result (400 * 10 ^ 18)⟩]

theorem roughTrace_run :
    (execFrom roughAnswers (runFundingOver (passAt 0) roughRegistry) 0).1 = roughTrace := by
  with_unfolding_all rfl

theorem roughTrace_documented : ∀ e ∈ roughTrace, Documented e := by
  have hreceipt : ∃ block status, receiptAt "blockNumber" (some "0x10") = .ok block ∧
      receiptAt "status" (some "0x1") = .ok status := ⟨16, 1, by decide +kernel, by decide +kernel⟩
  simp only [roughTrace, List.forall_mem_cons]
  exact ⟨trivial, trivial, trivial, trivial, trivial, trivial, rfl, hreceipt, rfl, trivial,
    fun e he => (by cases he)⟩

/-- Only the first read of a balance failed. -/
theorem roughTrace_uninterrupted : Uninterrupted roughTrace := by
  have hfees : Uninterrupted (roughTrace.take 2) :=
    uninterrupted_calm (uninterrupted_calm guarded_nil Bool.false_ne_true) Bool.false_ne_true
  have hread : Uninterrupted (roughTrace.take 3) := uninterrupted_calm hfees Bool.false_ne_true
  rw [← List.take_append_drop 3 roughTrace]
  refine uninterrupted_sound hread ?_
  simp only [roughTrace, List.drop_succ_cons, List.drop_zero, List.forall_mem_cons]
  exact ⟨not_rpcFails_result, not_rpcFails_fwd, not_rpcFails_result, not_rpcFails_fwd,
    not_rpcFails_result, not_rpcFails_fwd, not_rpcFails_result, fun e he => (by cases he)⟩

/-- The account whose balance could not be read and the account that was funded are both
accounted for. -/
theorem roughTrace_accountsFor : ∃ r, Runs (runFundingOver (passAt 0) roughRegistry) roughTrace r ∧
    AccountsFor roughRegistry roughTrace r := by
  have hrun := execFrom_runs roughAnswers (runFundingOver (passAt 0) roughRegistry) 0
  rw [roughTrace_run] at hrun
  exact ⟨_, hrun, (accountsFor_iff hrun roughTrace_documented).mpr roughTrace_uninterrupted⟩

/-! ### A broadcast that is lost sight of -/

/-- As above, but the node is gone when the receipt is asked for. -/
def lostAnswers (n : Nat) : (op : Op) → op.Ans
  | .rpc (.getTransactionReceipt _) => .transport "timed out"
  | op => roughAnswers n op

/-- The pass over the registry of flare raises after the first broadcast: nothing is reported of it,
and no other account has its turn. -/
theorem lostReceipt_unaccounted :
    let pass := execFrom lostAnswers (runFunding (passAt 0)) 1
    pass.2 = .error (.rpcError "eth_getTransactionReceipt transport failure: timed out") ∧
      (∃ raw, ⟨.rpc (.sendRawTransaction raw), .result "0xaa"⟩ ∈ pass.1) ∧
      ¬ AccountsFor (accounts .flare) pass.1 pass.2 := by
  intro pass
  have hraised : pass.2 =
      .error (.rpcError "eth_getTransactionReceipt transport failure: timed out") := by
    with_unfolding_all rfl
  have hsent : pass.1[4]? = some ⟨.rpc (.sendRawTransaction "0xf1"), .result "0xaa"⟩ := by
    with_unfolding_all rfl
  refine ⟨hraised, ⟨_, List.mem_of_getElem? hsent⟩, ?_⟩
  rintro ⟨res, hok, -⟩
  rw [hraised] at hok
  cases hok

end Clif
