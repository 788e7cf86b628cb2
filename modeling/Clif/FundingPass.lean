import Clif.Effect.Interleave
import Clif.Effect.Run
import Clif.BlobSent
import Clif.FundingPlan

/-!
# FundingPass — `run_funding` and `apply_plan`, alone and overlapping

A pass reads a balance, has a transfer signed for what is missing, and broadcasts it; the transfer
is mined later or never.  `neverOverfunds` says for which interleavings of passes and mining no
account rises above its band, and how far above it the doubles can take one.
-/

namespace Clif

open Effect

/-! ## A number and its text -/

theorem natRepr_inj {a b : Nat} (h : Nat.repr a = Nat.repr b) : a = b := by
  have hdigits : Nat.toDigits 10 a = Nat.toDigits 10 b := by
    rw [← Nat.toList_repr, ← Nat.toList_repr, h]
  have hvalue := congrArg (fun ds => Nat.ofDigitChars 10 ds 0) hdigits
  simpa using hvalue

theorem natRepr_ne_neg {a b : Nat} : Nat.repr a ≠ "-" ++ Nat.repr b := by
  intro h
  have hmem : '-' ∈ (Nat.repr a).toList := by
    rw [h, String.toList_append]
    exact List.mem_append_left _ (by decide)
  rw [Nat.toList_repr] at hmem
  have hdigit := Nat.isDigit_of_mem_toDigits (by decide) (by decide) hmem
  exact absurd hdigit (by decide)

theorem intToString_inj {a b : Int} (h : toString a = toString b) : a = b := by
  cases a with
  | ofNat m =>
    cases b with
    | ofNat n =>
      have h' : Nat.repr m = Nat.repr n := h
      rw [natRepr_inj h']
    | negSucc n => exact absurd h natRepr_ne_neg
  | negSucc m =>
    cases b with
    | ofNat n => exact absurd h.symm natRepr_ne_neg
    | negSucc n =>
      have h' : Nat.repr (m + 1) = Nat.repr (n + 1) := (String.append_right_inj "-").mp h
      rw [Nat.succ.inj (natRepr_inj h')]

/-! ## The passes -/

structure FundingResult where
  network : Network
  topups : List TopUp := []
  skippedOk : Nat := 0
  error : Option String := none
deriving DecidableEq

def FundingResult.add (res : FundingResult) (t : TopUp) : FundingResult :=
  { res with topups := res.topups ++ [t] }

structure PassArgs where
  caller : Option String
  network : Network
  wallet : String
  chainId : Int
  pollTimeout : Nat := 120
  /-- `int(time.time())` at the turn of the `n`-th account or line. -/
  now : Nat → Int

/-- `ACCOUNTS[network]`. -/
def registry (network : Network) : Except Exc (List Account) :=
  match network with
  | .coston2 => .error (.other "KeyError" "coston2")
  | _ => .ok (accounts network)

/-- The turn of an account in either pass: `value before` is what it gets, if anything. -/
def topupAccount (p : PassArgs) (fees : Int × Int) (value : ℚ → Option Int) (n : Nat)
    (a : Account) (res : FundingResult) : Py FundingResult := do
  match ← attempt (rpc (.getBalance a.address)) with
  | .error (.rpcError msg) =>
    return res.add { name := a.name, address := a.address, before := 0, after := 0, sent := 0,
                     txHash := "", status := .failed, detail := s!"balance read: {msg}" }
  | .error e => throw e
  | .ok balance =>
    let before := native balance
    match value before with
    | none => return { res with skippedOk := res.skippedOk + 1 }
    | some v =>
      let topup ← executeTopup p.caller a before v p.network p.wallet p.chainId fees.1 fees.2
        p.pollTimeout (p.now n)
      return res.add topup

/-- `a.band.upper - before`. -/
def missing (a : Account) (before : ℚ) : ℚ := Py.double (a.band.upper - before)

/-- `int(round(x * _WEI))`. -/
def inWei (x : ℚ) : Int := Py.roundInt (Py.double (x * wei))

/-- `run_funding`: below its floor an account gets what it lacks to the ceiling. -/
def shortfall (a : Account) (before : ℚ) : Option Int :=
  if a.band.lower ≤ before then none else some (inWei (missing a before))

/-- `apply_plan`: a line gets its amount, bounded again by the balance of the moment. -/
def granted (a : Account) (amount before : ℚ) : Option Int :=
  let value := inWei (min amount (max 0 (missing a before)))
  if value ≤ 0 then none else some value

def fundAccounts (p : PassArgs) (fees : Int × Int) :
    Nat → List Account → FundingResult → Py FundingResult
  | _, [], res => return res
  | n, a :: rest, res => do
    let res ← topupAccount p fees (shortfall a) n a res
    fundAccounts p fees (n + 1) rest res

/-- `run_funding`. -/
def runFunding (p : PassArgs) : Py FundingResult := do
  match ← attempt suggestFees with
  | .error (.rpcError msg) =>
    return { network := p.network, error := some s!"fee read failed: {msg}" }
  | .error e => throw e
  | .ok fees =>
    let all ← fromExcept (registry p.network)
    fundAccounts p fees 0 all { network := p.network }

def applyLines (p : PassArgs) (fees : Int × Int) :
    Nat → List PlanLine → FundingResult → Py FundingResult
  | _, [], res => return res
  | n, l :: rest, res =>
    match registered p.network l.account with
    | none => throw (.other "KeyError" (Py.lower l.account))
    | some a => do
      let res ← topupAccount p fees (granted a l.amount) n a res
      applyLines p fees (n + 1) rest res

/-- `apply_plan`. -/
def applyPlan (p : PassArgs) (lines : List PlanLine) : Py FundingResult :=
  match acceptedLines lines with
  | [] => return { network := p.network }
  | accepted => do
    match ← attempt suggestFees with
    | .error (.rpcError msg) =>
      return { network := p.network, error := some s!"fee read failed: {msg}" }
    | .error e => throw e
    | .ok fees =>
      let _ ← fromExcept (registry p.network)
      applyLines p fees 0 accepted { network := p.network }

inductive Pass where
  | run (p : PassArgs)
  | apply (p : PassArgs) (lines : List PlanLine)

def Pass.network : Pass → Network
  | .run p => p.network
  | .apply p _ => p.network

def Pass.prog : Pass → Py FundingResult
  | .run p => runFunding p
  | .apply p lines => applyPlan p lines

/-! ## What a pass asks -/

/-- What the doubles make of the gap between the balance `b` and the ceiling, in wei. -/
def gap (a : Account) (b : Int) : Int := inWei (missing a (native b))

/-- `v` wei are at most the gap that there is above the balance `b`. -/
def Fits (a : Account) (b : Int) (v : Nat) : Prop := b < a.band.upper * wei ∧ (v : Int) ≤ gap a b

/-- What a pass has signed is a top-up of the balance it has just read, and what it broadcasts is
what has just been signed. -/
def PassGuard (network : Network) (t : Trace) : Event sig → Prop
  | ⟨.fwd _ (.signTransaction body _), _⟩ =>
    ∃ a ∈ accounts network, ∃ (b : Int) (v : Nat) (t' : Trace),
      t = t' ++ [⟨.rpc (.getBalance a.address), .result b⟩] ∧
      body.toAddr = a.address ∧ body.valueWei = toString (v : Int) ∧ Fits a b v
  | ⟨.rpc (.sendRawTransaction raw), _⟩ =>
    ∃ c body key resp t', t = t' ++ [⟨.fwd c (.signTransaction body key), .ok resp⟩] ∧
      resp.signedRawTx = raw
  | _ => True

/-- Exchanges that the guard leaves alone. -/
def Unguarded (e : Event sig) : Prop := e.op.kind ≠ .sign ∧ e.op.kind ≠ .send

section Rules

variable {α : Type} {Q : Except Exc α → Trace → Prop} {h : Trace}

theorem wp_rpc {o : RpcOp} {Q : Except Exc o.Res → Trace → Prop} :
    Wp (rpc o) Q h ↔ ∀ a, Q (rpcResult o.method a) (h ++ [⟨.rpc o, a⟩]) := by
  constructor
  · exact fun hp a => hp _ _ (runs_rpc.mpr ⟨a, rfl, rfl⟩)
  · intro hq t r hr
    obtain ⟨a, rfl, rfl⟩ := runs_rpc.mp hr
    exact hq a

theorem wp_fwd {c : Option String} {o : FwdOp} {Q : Except Exc o.Res → Trace → Prop} :
    Wp (fwd c o) Q h ↔ ∀ x, Q x (h ++ [⟨.fwd c o, x⟩]) := by
  constructor
  · exact fun hp x => hp _ _ (runs_fwd.mpr rfl)
  · intro hq t r hr
    rw [runs_fwd.mp hr]
    exact hq r

end Rules

section Guard

variable {network : Network} {h : Trace} {α : Type}

theorem passGuard_unguarded {e : Event sig} (he : Unguarded e) : PassGuard network h e := by
  obtain ⟨op, ans⟩ := e
  cases op with
  | fwd c o => cases o <;> first | trivial | exact absurd rfl he.1
  | rpc o => cases o <;> first | trivial | exact absurd rfl he.2
  | _ => trivial

theorem allOf_unguarded {k : OpKind} (h₁ : k ≠ .sign) (h₂ : k ≠ .send) : AllOf k Unguarded :=
  fun e he => ⟨AllOf.ne h₁ e he, AllOf.ne h₂ e he⟩

/-- `p` keeps the guard, after `h`. -/
def Keeps (network : Network) (p : Py α) (h : Trace) : Prop :=
  Wp p (fun _ h' => Guarded (PassGuard network) h') h

theorem keeps_unguarded {p : Py α} (hp : Emits p Unguarded) (hg : Guarded (PassGuard network) h) :
    Keeps network p h :=
  wp_keep hp (fun _ _ hg' he => guarded_snoc.mpr ⟨hg', passGuard_unguarded he⟩) hg

theorem keeps_bind {β : Type} {p : Py α} {f : α → Py β} (hp : Keeps network p h)
    (hf : ∀ a h', Guarded (PassGuard network) h' → Keeps network (f a) h') :
    Keeps network (p >>= f) h := by
  refine wp_bind.mpr (hp.mono fun r h' hg => ?_)
  cases r with
  | ok a => exact hf a h' hg
  | error e => exact hg

theorem keeps_attempt {β : Type} {p : Py α} {f : Except Exc α → Py β} (hp : Keeps network p h)
    (hf : ∀ x h', Guarded (PassGuard network) h' → Keeps network (f x) h') :
    Keeps network (attempt p >>= f) h :=
  wp_attempt_bind.mpr (hp.mono fun x h' hg => hf x h' hg)

/-- The broadcast of what was signed last. -/
theorem sendTopup_keeps {caller c : Option String} {a : Account} {before : ℚ} {v : Int}
    {pollTimeout : Nat} {body : TxBody} {key : String} {resp : SignTransactionResponse}
    (hg : Guarded (PassGuard network) (h ++ [⟨.fwd c (.signTransaction body key), .ok resp⟩])) :
    Keeps network (sendTopup caller a before v pollTimeout resp)
      (h ++ [⟨.fwd c (.signTransaction body key), .ok resp⟩]) := by
  unfold sendTopup
  refine wp_attempt_bind.mpr (wp_rpc.mpr fun reply => ?_)
  have hsent : Guarded (PassGuard network)
      ((h ++ [⟨.fwd c (.signTransaction body key), .ok resp⟩]) ++
        [⟨.rpc (.sendRawTransaction resp.signedRawTx), reply⟩]) :=
    guarded_snoc.mpr ⟨hg, c, body, key, resp, h, rfl, rfl⟩
  have hread : AllOf .read Unguarded := allOf_unguarded (by decide) (by decide)
  have hreport : AllOf .report Unguarded := allOf_unguarded (by decide) (by decide)
  refine keeps_unguarded ?_ hsent
  split
  · exact emits_bind (emits_reportQuietly fun _ => hreport _ rfl) fun _ => emits_pure _
  · exact emits_throw _
  · exact emits_bind (emits_reportQuietly fun _ => hreport _ rfl) fun _ =>
      emits_confirmTopup hread hreport _ _ _ _ _ _ _

/-- The signing of a top-up of the balance that was read last. -/
theorem executeTopup_keeps {p : PassArgs} {a : Account} {before : ℚ} {b maxFee maxPriority : Int}
    {v : Nat} {now : Int} (ha : a ∈ accounts network) (hfits : Fits a b v)
    (hg : Guarded (PassGuard network) (h ++ [⟨.rpc (.getBalance a.address), .result b⟩])) :
    Keeps network (executeTopup p.caller a before v p.network p.wallet p.chainId maxFee maxPriority
      p.pollTimeout now) (h ++ [⟨.rpc (.getBalance a.address), .result b⟩]) := by
  unfold executeTopup
  refine wp_attempt_bind.mpr (wp_fwd.mpr fun x => ?_)
  have hsigned : Guarded (PassGuard network) ((h ++ [⟨.rpc (.getBalance a.address), .result b⟩]) ++
      [⟨.fwd p.caller (.signTransaction (topupTxBody a v p.wallet p.chainId maxFee maxPriority)
        (topupKey p.network a now)), x⟩]) :=
    guarded_snoc.mpr ⟨hg, a, ha, b, v, h, rfl, rfl, rfl, hfits⟩
  cases x with
  | error e =>
    refine keeps_unguarded ?_ hsigned
    dsimp only
    split
    · exact emits_pure _
    · exact emits_throw _
  | ok resp => exact sendTopup_keeps hsigned

theorem topupAccount_keeps {p : PassArgs} {fees : Int × Int} {value : ℚ → Option Int} {n : Nat}
    {a : Account} {res : FundingResult} (ha : a ∈ accounts network)
    (hvalue : ∀ (b v : Int), value (native b) = some v → 0 ≤ v ∧ Fits a b v.toNat)
    (hg : Guarded (PassGuard network) h) :
    Keeps network (topupAccount p fees value n a res) h := by
  unfold topupAccount
  refine wp_attempt_bind.mpr (wp_rpc.mpr fun reply => ?_)
  have hread : Guarded (PassGuard network) (h ++ [⟨.rpc (.getBalance a.address), reply⟩]) :=
    guarded_snoc.mpr ⟨hg, trivial⟩
  split
  · exact keeps_unguarded (emits_pure _) hread
  · exact keeps_unguarded (emits_throw _) hread
  · rename_i balance hbalance
    obtain rfl := rpcResult_eq_ok hbalance
    dsimp only
    cases hv : value (native balance) with
    | none => exact keeps_unguarded (emits_pure _) hread
    | some v =>
      obtain ⟨hpos, hfits⟩ := hvalue _ _ hv
      obtain ⟨v, rfl⟩ := Int.eq_ofNat_of_zero_le hpos
      refine keeps_bind (executeTopup_keeps ha hfits hread) fun _ h' hg' => ?_
      exact keeps_unguarded (emits_pure _) hg'

/-! ## The amounts -/

theorem wei_pos : (0 : ℚ) < wei := by norm_num [wei]

theorem accounts_upper {a : Account} (ha : a ∈ accounts network) :
    a.band.upper = 400 ∨ a.band.upper = 200 := by
  have hall : ∀ network, ∀ a ∈ accounts network, a.band.upper = 400 ∨ a.band.upper = 200 := by
    intro network
    cases network <;> decide +kernel
  exact hall network a ha

theorem accounts_lower {a : Account} (ha : a ∈ accounts network) :
    a.band.lower ≤ a.band.upper := by
  have hall : ∀ network, ∀ a ∈ accounts network, a.band.lower ≤ a.band.upper := by
    intro network
    cases network <;> decide +kernel
  exact hall network a ha

theorem inWei_mono : Monotone inWei := fun _ _ h =>
  Py.roundInt_mono (Py.double_mono (mul_le_mul_of_nonneg_right h wei_pos.le))

@[simp] theorem inWei_zero : inWei 0 = 0 := by simp [inWei]

theorem double_upper {a : Account} (ha : a ∈ accounts network) :
    Py.double a.band.upper = a.band.upper := by
  rcases accounts_upper ha with h | h
  · rw [h]
    exact Py.double_intCast (n := 400) (by decide)
  · rw [h]
    exact Py.double_intCast (n := 200) (by decide)

/-- A balance whose double is below the ceiling is below it. -/
theorem lt_of_native_lt {a : Account} (ha : a ∈ accounts network) {b : Int}
    (h : native b < a.band.upper) : b < a.band.upper * wei := by
  by_contra hge
  have hle : a.band.upper ≤ b / wei := (le_div_iff₀ wei_pos).mpr (not_lt.mp hge)
  have hround := Py.double_mono hle
  rw [double_upper ha] at hround
  exact absurd h (not_lt.mpr hround)

theorem lt_of_missing_pos {a : Account} {before : ℚ} (h : 0 < missing a before) :
    before < a.band.upper := by
  by_contra hge
  have hround : missing a before ≤ Py.double 0 := Py.double_mono (by linarith)
  rw [Py.double_zero] at hround
  exact absurd h (not_lt.mpr hround)

theorem shortfall_fits {a : Account} (ha : a ∈ accounts network) {b v : Int}
    (h : shortfall a (native b) = some v) : 0 ≤ v ∧ Fits a b v.toNat := by
  unfold shortfall at h
  split at h
  · cases h
  · rename_i hbelow
    cases h
    have hlt : native b < a.band.upper := (not_le.mp hbelow).trans_le (accounts_lower ha)
    have hmissing : 0 ≤ missing a (native b) := by
      have hround := Py.double_mono (sub_nonneg.mpr hlt.le)
      rwa [Py.double_zero] at hround
    have hpos : 0 ≤ gap a b := by
      have hround := inWei_mono hmissing
      rwa [inWei_zero] at hround
    exact ⟨hpos, lt_of_native_lt ha hlt, (Int.toNat_of_nonneg hpos).le⟩

theorem granted_fits {a : Account} {amount : ℚ} (ha : a ∈ accounts network) {b v : Int}
    (h : granted a amount (native b) = some v) : 0 ≤ v ∧ Fits a b v.toNat := by
  unfold granted at h
  dsimp only at h
  split at h
  · cases h
  · rename_i hpos
    cases h
    have hnonneg := (not_le.mp hpos).le
    -- the amount is positive, so the ceiling is not reached
    have hmissing : 0 < missing a (native b) := by
      by_contra hnone
      rw [max_eq_left (not_lt.mp hnone)] at hpos
      have hround := inWei_mono (min_le_right amount 0)
      rw [inWei_zero] at hround
      exact hpos hround
    rw [max_eq_right hmissing.le] at hnonneg ⊢
    refine ⟨hnonneg, lt_of_native_lt ha (lt_of_missing_pos hmissing), ?_⟩
    rw [Int.toNat_of_nonneg hnonneg]
    exact inWei_mono (min_le_right _ _)

/-- In wei. -/
def roundingSlack : ℚ := 89612

/-- What the doubles make of a gap is off by a few wei: three operations are rounded, two on
numbers below `2 ^ 9` and one on a number below `2 ^ 69`. -/
theorem gap_near {a : Account} (ha : a ∈ accounts network) {b : Nat}
    (h : (b : ℚ) < a.band.upper * wei) : |gap a b - (a.band.upper * wei - b)| ≤ roundingSlack := by
  have hupper : a.band.upper ≤ 400 := by
    rcases accounts_upper ha with h | h <;> norm_num [h]
  have hb : 0 ≤ (b : ℚ) / wei := div_nonneg (Nat.cast_nonneg b) wei_pos.le
  have hb' : (b : ℚ) / wei < a.band.upper := (div_lt_iff₀ wei_pos).mpr h
  have hread : |native b - b / wei| ≤ 2 ^ (9 - 53 : Int) / 2 :=
    Py.double_near (abs_lt.mpr ⟨by norm_num; linarith, by norm_num; linarith⟩)
  have hlow : 0 ≤ native b := by
    have hround := Py.double_mono hb
    rwa [Py.double_zero] at hround
  have hhigh : native b ≤ a.band.upper := by
    have hround := Py.double_mono hb'.le
    rwa [double_upper ha] at hround
  have hsub : |missing a (native b) - (a.band.upper - native b)| ≤ 2 ^ (9 - 53 : Int) / 2 :=
    Py.double_near (abs_lt.mpr ⟨by norm_num; linarith, by norm_num; linarith⟩)
  have hbound := abs_le.mp hsub
  have hmul : |Py.double (missing a (native b) * wei) - missing a (native b) * wei| ≤
      2 ^ (69 - 53 : Int) / 2 := by
    refine Py.double_near (abs_lt.mpr ?_)
    norm_num [wei] at hbound ⊢
    constructor <;> linarith
  have hround := Py.roundInt_near (Py.double (missing a (native b) * wei))
  have hquot : (b : ℚ) = b / wei * wei := (div_mul_cancel₀ _ wei_pos.ne').symm
  show |(Py.roundInt (Py.double (missing a (native b) * wei)) : ℚ) - _| ≤ 89612
  rw [abs_le] at hread hmul ⊢
  rw [hquot]
  -- what is left is about the roundings alone
  generalize Py.double (missing a (native b) * wei) = p at hmul hround ⊢
  generalize missing a (native b) = m at hbound hmul ⊢
  generalize native b = before at hread hbound
  generalize (b : ℚ) / wei = exact at hread ⊢
  norm_num [wei] at hread hbound hmul ⊢
  constructor <;> linarith

/-- `Submit` of `ACCOUNTS["flare"]`. -/
def submitAccount : Account := ⟨"Submit", "0x366BCb8c23490327A1C63880875a35de41705876", gasBand⟩

-- 27701 wei more than there is room for
example : 123456789012345678901 + gap submitAccount 123456789012345678901 =
    400 * 10 ^ 18 + 27701 := by
  decide +kernel

/-! ## Every run of a pass -/

theorem fundAccounts_keeps {p : PassArgs} {fees : Int × Int} :
    ∀ (all : List Account) (n : Nat) (res : FundingResult) (h : Trace),
      (∀ a ∈ all, a ∈ accounts network) → Guarded (PassGuard network) h →
        Keeps network (fundAccounts p fees n all res) h
  | [], _, _, _, _, hg => keeps_unguarded (emits_pure _) hg
  | a :: rest, n, res, h, hall, hg => by
    obtain ⟨ha, hrest⟩ := List.forall_mem_cons.mp hall
    refine keeps_bind (topupAccount_keeps ha (fun _ _ hv => shortfall_fits ha hv) hg) ?_
    exact fun res h' hg' => fundAccounts_keeps rest (n + 1) res h' hrest hg'

theorem applyLines_keeps {p : PassArgs} {fees : Int × Int} (hp : p.network = network) :
    ∀ (lines : List PlanLine) (n : Nat) (res : FundingResult) (h : Trace),
      Guarded (PassGuard network) h → Keeps network (applyLines p fees n lines res) h
  | [], _, _, _, hg => keeps_unguarded (emits_pure _) hg
  | l :: rest, n, res, h, hg => by
    unfold applyLines
    cases ha : registered p.network l.account with
    | none => exact keeps_unguarded (emits_throw _) hg
    | some a =>
      rw [hp] at ha
      have hmem : a ∈ accounts network := registered_some ha
      refine keeps_bind (topupAccount_keeps hmem (fun _ _ hv => granted_fits hmem hv) hg) ?_
      exact fun res h' hg' => applyLines_keeps hp rest (n + 1) res h' hg'

theorem registry_ok {all : List Account} (h : registry network = .ok all) :
    all = accounts network := by
  cases network <;> cases h <;> rfl

theorem suggestFees_keeps (hg : Guarded (PassGuard network) h) : Keeps network suggestFees h :=
  keeps_unguarded (emits_suggestFees (allOf_unguarded (by decide) (by decide))) hg

theorem pass_keeps {pass : Pass} (hp : pass.network = network)
    (hg : Guarded (PassGuard network) h) : Keeps network pass.prog h := by
  have hregistry : ∀ {β : Type} {f : List Account → Py β} {h' : Trace},
      (∀ h', Guarded (PassGuard network) h' → Keeps network (f (accounts network)) h') →
      Guarded (PassGuard network) h' →
        Keeps network (fromExcept (registry network) >>= f) h' := by
    intro β f h' hf hg'
    refine wp_bind.mpr (wp_fromExcept.mpr ?_)
    cases hall : registry network with
    | error e => exact hg'
    | ok all =>
      obtain rfl := registry_ok hall
      exact hf h' hg'
  cases pass with
  | run p =>
    obtain rfl : p.network = network := hp
    refine keeps_attempt (suggestFees_keeps hg) fun x h' hg' => ?_
    split
    · exact keeps_unguarded (emits_pure _) hg'
    · exact keeps_unguarded (emits_throw _) hg'
    · refine hregistry (fun h'' hg'' => ?_) hg'
      exact fundAccounts_keeps _ 0 _ h'' (fun _ ha => ha) hg''
  | apply p lines =>
    obtain rfl : p.network = network := hp
    show Keeps p.network (applyPlan p lines) h
    unfold applyPlan
    split
    · exact keeps_unguarded (emits_pure _) hg
    · refine keeps_attempt (suggestFees_keeps hg) fun x h' hg' => ?_
      split
      · exact keeps_unguarded (emits_pure _) hg'
      · exact keeps_unguarded (emits_throw _) hg'
      · refine hregistry (fun h'' hg'' => ?_) hg'
        exact applyLines_keeps rfl _ 0 _ h'' hg''

theorem pass_guarded {pass : Pass} (hp : pass.network = network) {t : Trace}
    (h : Begun pass.prog t) : Guarded (PassGuard network) t := by
  refine h.guarded fun t r hr => ?_
  exact pass_keeps (h := []) hp guarded_nil t r hr

end Guard

theorem accounts_address_inj {network : Network} {a b : Account} (ha : a ∈ accounts network)
    (hb : b ∈ accounts network) (h : a.address = b.address) : a = b := by
  have hall : ∀ network, ∀ a ∈ accounts network, ∀ b ∈ accounts network,
      a.address = b.address → a = b := by
    intro network
    cases network <;> decide +kernel
  exact hall network a ha b hb h

/-! ## Passes, the chain, and time between them -/

/-- What the chain does between the exchanges of the passes. -/
inductive ChainMove where
  | mined (raw : String)
  | spent (address : String) (amount : Nat)

abbrev FundMove := Move Nat (Event sig) ChainMove

structure FundChain where
  /-- In wei. -/
  balance : String → Nat
  /-- The signed transactions that a node was handed. -/
  sent : List String
  mined : List String

/-- A node that was handed a transaction has it, whatever it answers. -/
def FundChain.after (s : FundChain) : Event sig → FundChain
  | ⟨.rpc (.sendRawTransaction raw), _⟩ => { s with sent := raw :: s.sent }
  | _ => s

/-- The node tells the balance of the moment, and `fwd` signs the transfer that it is asked for. -/
def Answered (transfer : String → Option (String × Nat)) (s : FundChain) : Event sig → Prop
  | ⟨.rpc (.getBalance address), .result b⟩ => b = s.balance address
  | ⟨.fwd _ (.signTransaction body _), .ok resp⟩ => ∀ v : Nat,
    body.valueWei = toString (v : Int) → transfer resp.signedRawTx = some (body.toAddr, v)
  | _ => True

/-- `transfer raw` is the recipient and the value of the signed transaction `raw`.  It is mined at
most once, at any time after it was handed to a node; nothing else credits an account. -/
inductive FundChain.Step (transfer : String → Option (String × Nat)) :
    FundChain → FundMove → FundChain → Prop
  | exchange {s : FundChain} {i : Nat} {e : Event sig} (h : Answered transfer s e) :
      FundChain.Step transfer s (.proc i e) (s.after e)
  | mined {s : FundChain} {raw address : String} {v : Nat} (hsent : raw ∈ s.sent)
      (hnew : raw ∉ s.mined) (ht : transfer raw = some (address, v)) :
      FundChain.Step transfer s (.env (.mined raw))
        { s with balance := Function.update s.balance address (s.balance address + v)
                 mined := raw :: s.mined }
  | spent {s : FundChain} {address : String} {amount : Nat} (h : amount ≤ s.balance address) :
      FundChain.Step transfer s (.env (.spent address amount))
        { s with balance := Function.update s.balance address (s.balance address - amount) }

/-- No account is above its band by more than `slack` wei. -/
def FundChain.Within (s : FundChain) (network : Network) (slack : ℚ) : Prop :=
  ∀ a ∈ accounts network, (s.balance a.address : ℚ) ≤ a.band.upper * wei + slack

/-- No account is above its band. -/
def FundChain.InBand (s : FundChain) (network : Network) : Prop :=
  ∀ a ∈ accounts network, (s.balance a.address : ℚ) ≤ a.band.upper * wei

/-- The passes of a network so far, from a chain where nothing is on its way. -/
structure Overlap (transfer : String → Option (String × Nat)) (network : Network)
    (passes : Nat → Pass) (s₀ : FundChain) (h : List FundMove) (s : FundChain) : Prop where
  here : ∀ i, (passes i).network = network
  calm : s₀.sent = []
  start : s₀.InBand network
  begun : ∀ i, Begun (passes i).prog (part i h)
  run : Run (FundChain.Step transfer) s₀ h s

/-- The next exchange of the pass `i` is to have `raw` signed. -/
def SignsNext (i : Nat) (raw : String) (h : List FundMove) : Prop :=
  ∃ c body key resp t, part i h = ⟨.fwd c (.signTransaction body key), .ok resp⟩ :: t ∧
    resp.signedRawTx = raw

/-- The top-up `raw` of `address` was computed from the balance `b`: a pass read it, and its next
exchange was to have `raw` signed. -/
def ComputedFrom (h : List FundMove) (raw address : String) (b : Nat) : Prop :=
  ∃ h₁ i h₂, h = h₁ ++ .proc i ⟨.rpc (.getBalance address), .result b⟩ :: h₂ ∧ SignsNext i raw h₂

/-- Whenever a top-up is mined, its account has no more than what the top-up was computed from. -/
def NotOvertaken (transfer : String → Option (String × Nat)) (s₀ : FundChain) (h : List FundMove) :
    Prop :=
  ∀ h₁ raw h₂ s address v b, h = h₁ ++ .env (.mined raw) :: h₂ →
    Run (FundChain.Step transfer) s₀ h₁ s → transfer raw = some (address, v) →
      ComputedFrom h₁ raw address b → s.balance address ≤ b

/-- No top-up that is mined was computed from a balance for which the doubles make the gap too
wide. -/
def NotRoundedUp (transfer : String → Option (String × Nat)) (network : Network)
    (h : List FundMove) : Prop :=
  ∀ h₁ raw h₂ a v b, h = h₁ ++ .env (.mined raw) :: h₂ → a ∈ accounts network →
    transfer raw = some (a.address, v) → ComputedFrom h₁ raw a.address b →
      (b + gap a b : ℚ) ≤ a.band.upper * wei

section

variable {transfer : String → Option (String × Nat)} {network : Network} {passes : Nat → Pass}
  {s₀ s s' : FundChain} {h h₁ h₂ : List FundMove}

theorem FundChain.Step.answered {i : Nat} {e : Event sig}
    (hs : FundChain.Step transfer s (.proc i e) s') : Answered transfer s e := by
  cases hs with
  | exchange hans => exact hans

/-- What a node was handed, a pass has broadcast. -/
theorem sent_broadcast (hcalm : s₀.sent = []) (hrun : Run (FundChain.Step transfer) s₀ h s) :
    ∀ raw ∈ s.sent, ∃ i reply, Move.proc i ⟨.rpc (.sendRawTransaction raw), reply⟩ ∈ h := by
  induction hrun with
  | nil =>
    rw [hcalm]
    simp
  | snoc hrun hs ih =>
    have hkeep : ∀ {x : FundMove} {h : List FundMove} {raw : String},
        (∃ i reply, Move.proc i ⟨.rpc (.sendRawTransaction raw), reply⟩ ∈ h) →
          ∃ i reply, Move.proc i ⟨.rpc (.sendRawTransaction raw), reply⟩ ∈ h ++ [x] := by
      rintro x h raw ⟨i, reply, hmem⟩
      exact ⟨i, reply, List.mem_append_left _ hmem⟩
    cases hs with
    | mined hsent hnew ht => exact fun raw hraw => hkeep (ih raw hraw)
    | spent => exact fun raw hraw => hkeep (ih raw hraw)
    | @exchange i e hans =>
      intro raw hraw
      obtain ⟨op, ans⟩ := e
      by_cases hop : op = .rpc (.sendRawTransaction raw)
      · subst hop
        exact ⟨i, ans, List.mem_append_right _ List.mem_cons_self⟩
      · refine hkeep (ih raw ?_)
        unfold FundChain.after at hraw
        split at hraw
        · rename_i raw' reply heq
          cases heq
          rcases List.mem_cons.mp hraw with rfl | hraw
          · exact absurd rfl hop
          · exact hraw
        · exact hraw

/-- What is mined was computed from some balance, and fits in the gap above that one. -/
theorem Overlap.computed (hover : Overlap transfer network passes s₀ h s) {raw : String}
    (hraw : raw ∈ s.sent) :
    ∃ a ∈ accounts network, ∃ b v : Nat, transfer raw = some (a.address, v) ∧ Fits a b v ∧
      ComputedFrom h raw a.address b := by
  obtain ⟨i, reply, hmem⟩ := sent_broadcast hover.calm hover.run raw hraw
  have hguard := pass_guarded (hover.here i) (hover.begun i)
  -- the broadcast follows the signing, which follows the read
  obtain ⟨h₁, h₂, hsplit⟩ := List.append_of_mem hmem
  have hpart : part i h = part i h₁ ++ ⟨.rpc (.sendRawTransaction raw), reply⟩ :: part i h₂ := by
    rw [hsplit, part_append, part_proc]
  obtain ⟨c, body, key, resp, t₁, hsigned, rfl⟩ := hguard _ _ _ hpart
  rw [hsigned, List.append_assoc, List.singleton_append] at hpart
  obtain ⟨a, ha, b, v, t₂, hread, hto, hvalue, hfits⟩ := hguard _ _ _ hpart
  rw [hread, List.append_assoc, List.singleton_append] at hpart
  obtain ⟨h₃, h₄, hmoves, -, hlast⟩ := part_split hpart
  -- the node told the balance of the moment
  have hbalance : Move.proc i ⟨.rpc (.getBalance a.address), .result b⟩ ∈ h := by
    rw [hmoves]
    simp
  obtain ⟨-, -, u₁, u₂, -, -, htold⟩ := hover.run.split hbalance
  obtain rfl : b = u₁.balance a.address := htold.answered
  refine ⟨a, ha, _, v, ?_, hfits, h₃, i, h₄, hmoves, c, body, key, resp, _, hlast, rfl⟩
  obtain ⟨h₅, h₆, hmoves', -, -⟩ := @part_split _ _ _ _ _ _ _ [] _ hlast
  have hsign : Move.proc i ⟨.fwd c (.signTransaction body key), .ok resp⟩ ∈ h := by
    rw [hmoves, hmoves']
    simp
  obtain ⟨-, -, s₁, s₂, -, -, hstep⟩ := hover.run.split hsign
  rw [← hto]
  exact hstep.answered v hvalue

/-- The passes at an earlier moment. -/
theorem Overlap.earlier {x : FundMove} (hover : Overlap transfer network passes s₀ (h ++ [x]) s')
    (hrun : Run (FundChain.Step transfer) s₀ h s) : Overlap transfer network passes s₀ h s := by
  refine ⟨hover.here, hover.calm, hover.start, fun i => ?_, hrun⟩
  have hbegun := hover.begun i
  rw [part_append] at hbegun
  exact hbegun.append

theorem NotOvertaken.earlier {x : FundMove} (hn : NotOvertaken transfer s₀ (h ++ [x])) :
    NotOvertaken transfer s₀ h := by
  intro h₁ raw h₂ s address v b hsplit
  exact hn h₁ raw (h₂ ++ [x]) s address v b (by rw [hsplit, List.append_assoc, List.cons_append])

@[simp] theorem FundChain.after_balance (s : FundChain) (e : Event sig) :
    (s.after e).balance = s.balance := by
  unfold FundChain.after
  split <;> rfl

/-- If no top-up is mined on more than it was computed from, an account is above its band by no
more than the gaps are too wide. -/
theorem within_slack {slack : ℚ} (hslack : 0 ≤ slack)
    (hover : Overlap transfer network passes s₀ h s) (hn : NotOvertaken transfer s₀ h)
    (hgap : ∀ h₁ raw h₂ a v b, h = h₁ ++ .env (.mined raw) :: h₂ → a ∈ accounts network →
      transfer raw = some (a.address, v) → ComputedFrom h₁ raw a.address b →
        (b : ℚ) < a.band.upper * wei → (b + gap a b : ℚ) ≤ a.band.upper * wei + slack) :
    s.Within network slack := by
  have hrun := hover.run
  induction hrun with
  | nil => exact fun a ha => (hover.start a ha).trans (le_add_of_nonneg_right hslack)
  | @snoc h₁ s₁ x s₂ hrun hs ih =>
    have hbefore := hover.earlier hrun
    have hband : s₁.Within network slack := by
      refine ih hbefore hn.earlier fun h₁ raw h₂ a v b hsplit => ?_
      exact hgap h₁ raw (h₂ ++ [x]) a v b (by rw [hsplit, List.append_assoc, List.cons_append])
    intro a ha
    cases hs with
    | exchange hans =>
      rw [FundChain.after_balance]
      exact hband a ha
    | spent hamount =>
      rename_i address amount
      refine le_trans ?_ (hband a ha)
      dsimp only
      by_cases haddr : a.address = address
      · rw [haddr, Function.update_self]
        exact_mod_cast Nat.sub_le _ _
      · rw [Function.update_of_ne haddr]
    | mined hsent hnew ht =>
      rename_i raw address v
      dsimp only
      by_cases haddr : a.address = address
      · obtain ⟨a', ha', b, v', ht', ⟨hlt, hfits⟩, hcomp⟩ := hbefore.computed hsent
        rw [ht] at ht'
        obtain ⟨rfl, rfl⟩ := Prod.mk.inj (Option.some.inj ht')
        obtain rfl : a = a' := accounts_address_inj ha ha' haddr
        have hroom : s₁.balance a.address ≤ b := hn h₁ raw [] s₁ _ v b rfl hrun ht hcomp
        have hcredit : (s₁.balance a.address + v : ℚ) ≤ b + gap a b := by
          exact_mod_cast (by omega : (s₁.balance a.address + v : Int) ≤ b + gap a b)
        rw [Function.update_self]
        push_cast
        exact hcredit.trans (hgap h₁ raw [] a v b rfl ha ht hcomp hlt)
      · rw [Function.update_of_ne haddr]
        exact hband a ha

/-- Overlapping passes leave every account within its band, up to the rounding of the doubles, if no
top-up is mined on more than it was computed from; and within its band exactly, if the doubles do
not make a gap too wide. -/
theorem neverOverfunds (hover : Overlap transfer network passes s₀ h s)
    (hn : NotOvertaken transfer s₀ h) :
    s.Within network roundingSlack ∧ (NotRoundedUp transfer network h → s.InBand network) := by
  constructor
  · refine within_slack (by norm_num [roundingSlack]) hover hn ?_
    intro h₁ raw h₂ a v b hsplit ha ht hcomp hlt
    have hnear := (abs_le.mp (gap_near ha hlt)).2
    linarith
  · intro hr
    have hwithin : s.Within network 0 := by
      refine within_slack le_rfl hover hn fun h₁ raw h₂ a v b hsplit ha ht hcomp _ => ?_
      rw [add_zero]
      exact hr h₁ raw h₂ a v b hsplit ha ht hcomp
    intro a ha
    have hle := hwithin a ha
    rwa [add_zero] at hle

/-- A balance only falls while the account is credited nothing. -/
theorem balance_le {address : String} {s₁ : FundChain} (hrun : Run (FundChain.Step transfer) s₁ h s)
    (hquiet : ∀ raw, Move.env (.mined raw) ∈ h → ∀ v, transfer raw ≠ some (address, v)) :
    s.balance address ≤ s₁.balance address := by
  induction hrun with
  | nil => exact le_refl _
  | snoc hrun hs ih =>
    refine le_trans ?_ (ih fun raw hraw => hquiet raw (List.mem_append_left _ hraw))
    cases hs with
    | exchange hans => rw [FundChain.after_balance]
    | spent hamount =>
      rename_i address' amount
      dsimp only
      by_cases haddr : address = address'
      · rw [haddr, Function.update_self]
        exact Nat.sub_le _ _
      · rw [Function.update_of_ne haddr]
    | mined hsent hnew ht =>
      rename_i raw address' v
      have haddr : address ≠ address' := by
        rintro rfl
        exact hquiet raw (by simp) v ht
      dsimp only
      rw [Function.update_of_ne haddr]

/-- So no top-up is overtaken if from each read to the mining of what was computed from it no other
top-up of the account is mined. -/
theorem notOvertaken_of_alone
    (halone : ∀ h₁ i address b h₂ raw h₃,
      h = h₁ ++ .proc i ⟨.rpc (.getBalance address), .result b⟩ ::
        (h₂ ++ .env (.mined raw) :: h₃) → SignsNext i raw h₂ →
      ∀ raw', Move.env (.mined raw') ∈ h₂ → ∀ v, transfer raw' ≠ some (address, v)) :
    NotOvertaken transfer s₀ h := by
  rintro h₁ raw h₂ s address v b hsplit hrun ht ⟨g₁, i, g₂, rfl, hnext⟩
  obtain ⟨s₁, -, hrest⟩ := hrun.append_inv
  obtain ⟨s₂, hread, hsince⟩ := hrest.cons_inv
  have htold : (b : Int) = s₁.balance address := hread.answered
  have hbalance : b = s₁.balance address := by exact_mod_cast htold
  have hquiet := halone g₁ i address b g₂ raw h₂ (by rw [hsplit]; simp) hnext
  cases hread with
  | exchange hans =>
    have hle := balance_le hsince hquiet
    rw [FundChain.after_balance, ← hbalance] at hle
    exact hle

/-- Exchanges of one pass that are answered as the chain has it. -/
theorem run_exchanges {i : Nat} {t : Trace} (ht : ∀ e ∈ t, ∀ s' : FundChain,
    s'.balance = s.balance → Answered transfer s' e) :
    Run (FundChain.Step transfer) s (t.map (.proc i)) (t.foldl FundChain.after s) := by
  induction t generalizing s with
  | nil => exact .nil
  | cons e t ih =>
    obtain ⟨he, ht⟩ := List.forall_mem_cons.mp ht
    refine .cons (.exchange (he s rfl)) (ih fun e' he' s' hs' => ht e' he' s' ?_)
    rw [hs', FundChain.after_balance]

end

/-! ### What a history shows of a top-up -/

/-- The balances, each with the address it was asked for and the transaction that was signed
next. -/
def computations (t : Trace) : List (String × Int × String) :=
  (t.zip t.tail).filterMap fun
    | (⟨.rpc (.getBalance address), .result b⟩, ⟨.fwd _ (.signTransaction _ _), .ok resp⟩) =>
      some (address, b, resp.signedRawTx)
    | _ => none

theorem mem_zip_tail {α : Type} {x y : α} {l₁ l₂ : List α} :
    (x, y) ∈ (l₁ ++ x :: y :: l₂).zip (l₁ ++ x :: y :: l₂).tail := by
  induction l₁ with
  | nil => exact List.mem_cons_self
  | cons z l₁ ih =>
    cases l₁ with
    | nil => exact List.mem_cons_of_mem _ ih
    | cons z' l₁ => exact List.mem_cons_of_mem _ ih

theorem ComputedFrom.mem {h : List FundMove} {raw address : String} {b : Nat}
    (hc : ComputedFrom h raw address b) :
    ∃ i, (address, (b : Int), raw) ∈ computations (part i h) := by
  obtain ⟨h₁, i, h₂, rfl, c, body, key, resp, t, hsign, rfl⟩ := hc
  refine ⟨i, ?_⟩
  rw [part_append, part_proc, hsign]
  exact List.mem_filterMap.mpr ⟨_, mem_zip_tail, rfl⟩

/-- Where a transaction can have been mined, if the last one was `raw'`. -/
theorem mined_split {h₁ h₂ g t : List FundMove} {raw raw' : String}
    (ht : ∀ r, Move.env (.mined r) ∉ t)
    (h : g ++ .env (.mined raw') :: t = h₁ ++ .env (.mined raw) :: h₂) :
    (h₁ = g ∧ raw = raw') ∨ ∃ h₃, g = h₁ ++ .env (.mined raw) :: h₃ := by
  rcases List.append_eq_append_iff.mp h with ⟨m, rfl, hm⟩ | ⟨m, rfl, hm⟩
  · cases m with
    | nil =>
      rw [List.nil_append] at hm
      cases hm
      exact Or.inl ⟨List.append_nil g, rfl⟩
    | cons x m =>
      rw [List.cons_append] at hm
      obtain ⟨-, rfl⟩ := List.cons.inj hm
      exact absurd (by simp) (ht raw)
  · cases m with
    | nil =>
      rw [List.nil_append] at hm
      cases hm
      exact Or.inl ⟨(List.append_nil h₁).symm, rfl⟩
    | cons x m =>
      rw [List.cons_append] at hm
      obtain ⟨rfl, -⟩ := List.cons.inj hm
      exact Or.inr ⟨m, rfl⟩

/-! ### Passes on one balance -/

def passAt (now : Int) : PassArgs :=
  { caller := some "funder", network := .flare, wallet := "ap-funder", chainId := 14,
    now := fun _ => now }

/-- A plan of 200 for `Submit`. -/
def submitPlan : List PlanLine :=
  [{ account := "Submit", address := submitAccount.address, amount := 200, reason := none }]

/-- Every balance is `balance`; what is broadcast has no readable receipt yet. -/
def lowWorld (balance : Int) (raw : String) : (op : Op) → op.Ans
  | .rpc .feeHistory => .result [25000000000]
  | .rpc (.getBalance _) => .result balance
  | .fwd _ (.signTransaction _ _) => .ok ⟨"tx", "0xaa", raw⟩
  | .rpc (.sendRawTransaction _) => .result "0xaa"
  | .rpc (.getTransactionReceipt _) => .malformed "KeyError" "result"
  | op => deafWorld op

/-- A pass reads the fees. -/
def feesTrace : Trace :=
  [⟨.rpc .feeHistory, .result [25000000000]⟩, ⟨.getenv "CLIF_MAX_FEE_PER_GAS_WEI", none⟩]

/-- `Submit` is topped up. -/
def topupTrace (balance value : Nat) (raw : String) (now : Int) : Trace :=
  [⟨.rpc (.getBalance submitAccount.address), .result balance⟩,
    ⟨.fwd (some "funder") (.signTransaction
      (topupTxBody submitAccount value "ap-funder" 14 51000000000 1000000000)
      (topupKey .flare submitAccount now)), .ok ⟨"tx", "0xaa", raw⟩⟩,
    ⟨.rpc (.sendRawTransaction raw), .result "0xaa"⟩]

theorem runTrace_begun (raw : String) (now : Int) : Begun (Pass.run (passAt now)).prog
    (feesTrace ++ topupTrace (100 * 10 ^ 18) (300 * 10 ^ 18) raw now) := by
  have htrace : (exec (lowWorld (100 * 10 ^ 18) raw) (Pass.run (passAt now)).prog).1.take 5 =
      feesTrace ++ topupTrace (100 * 10 ^ 18) (300 * 10 ^ 18) raw now := by
    with_unfolding_all rfl
  rw [← htrace]
  exact begun_exec _ _

set_option maxRecDepth 20000 in
theorem planTrace_begun (raw : String) (now : Int) : Begun (Pass.apply (passAt now) submitPlan).prog
    (feesTrace ++ topupTrace (150 * 10 ^ 18) (200 * 10 ^ 18) raw now) := by
  have htrace : (exec (lowWorld (150 * 10 ^ 18) raw) (Pass.apply (passAt now) submitPlan).prog).1.take
      5 = feesTrace ++ topupTrace (150 * 10 ^ 18) (200 * 10 ^ 18) raw now := by
    with_unfolding_all rfl
  rw [← htrace]
  exact begun_exec _ _

/-- What the transactions bring to `Submit`. -/
def lowTransfer (raw : String) : Option (String × Nat) :=
  if raw = "0xf1" ∨ raw = "0xf2" then some (submitAccount.address, 300 * 10 ^ 18)
  else if raw = "0xf3" then some (submitAccount.address, 200 * 10 ^ 18)
  else none

def lowChain : FundChain := { balance := fun _ => 100 * 10 ^ 18, sent := [], mined := [] }

/-- The daemon asks every two minutes, and a plan is applied by hand. -/
def lowPasses : Nat → Pass
  | 0 => .run (passAt 1754000000)
  | 1 => .run (passAt 1754000120)
  | _ => .apply (passAt 1754000060) submitPlan

theorem feesTrace_answered : ∀ e ∈ feesTrace, ∀ s : FundChain, Answered lowTransfer s e := by
  intro e he s
  simp only [feesTrace, List.mem_cons, List.not_mem_nil, or_false] at he
  rcases he with rfl | rfl <;> trivial

theorem topupTrace_answered {balance value : Nat} {raw : String} {now : Int} {s₀ : FundChain}
    (hraw : lowTransfer raw = some (submitAccount.address, value))
    (hbalance : s₀.balance submitAccount.address = balance) :
    ∀ e ∈ topupTrace balance value raw now, ∀ s : FundChain, s.balance = s₀.balance →
      Answered lowTransfer s e := by
  intro e he s hs
  simp only [topupTrace, List.mem_cons, List.not_mem_nil, or_false] at he
  rcases he with rfl | rfl | rfl
  · show (balance : Int) = s.balance _
    rw [hs, hbalance]
  · intro v hv
    have hvalue : (value : Int) = v := intToString_inj hv
    rw [Nat.cast_inj.mp hvalue.symm]
    exact hraw
  · trivial

theorem lowChain_inBand : lowChain.InBand .flare := by
  intro a ha
  have hall : ∀ a ∈ accounts .flare, 100 ≤ a.band.upper := by decide +kernel
  have hupper := hall a ha
  show (((100 * 10 ^ 18 : Nat)) : ℚ) ≤ _
  have hwei : (((100 * 10 ^ 18 : Nat)) : ℚ) = 100 * wei := by norm_num [wei]
  rw [hwei]
  exact mul_le_mul_of_nonneg_right hupper wei_pos.le

/-- A pass that tops up `Submit`. -/
def topupMoves (i balance value : Nat) (raw : String) (now : Int) : List FundMove :=
  feesTrace.map (.proc i) ++ (topupTrace balance value raw now).map (.proc i)

section

variable {balance value : Nat} {s : FundChain} (i : Nat) (raw : String) (now : Int)

theorem feesTrace_run : Run (FundChain.Step lowTransfer) s (feesTrace.map (.proc i)) s :=
  run_exchanges fun e he s' _ => feesTrace_answered e he s'

theorem topupTrace_run (hraw : lowTransfer raw = some (submitAccount.address, value))
    (hbalance : s.balance submitAccount.address = balance) :
    Run (FundChain.Step lowTransfer) s ((topupTrace balance value raw now).map (.proc i))
      { s with sent := raw :: s.sent } :=
  run_exchanges (topupTrace_answered hraw hbalance)

theorem topupMoves_run (hraw : lowTransfer raw = some (submitAccount.address, value))
    (hbalance : s.balance submitAccount.address = balance) :
    Run (FundChain.Step lowTransfer) s (topupMoves i balance value raw now)
      { s with sent := raw :: s.sent } :=
  (feesTrace_run i).append (topupTrace_run i raw now hraw hbalance)

variable {i raw now}

theorem part_topupMoves : part i (topupMoves i balance value raw now) =
    feesTrace ++ topupTrace balance value raw now := by
  rw [topupMoves, part_append, part_own, part_own]

theorem part_topupMoves_other {j : Nat} (hj : j ≠ i) :
    part i (topupMoves j balance value raw now) = [] := by
  rw [topupMoves, part_append, part_other hj, part_other hj, List.append_nil]

end

/-- The second pass reads before the top-up of the first is mined. -/
def twiceFunded : List FundMove :=
  topupMoves 0 (100 * 10 ^ 18) (300 * 10 ^ 18) "0xf1" 1754000000 ++
    topupMoves 1 (100 * 10 ^ 18) (300 * 10 ^ 18) "0xf2" 1754000120 ++
    [.env (.mined "0xf1"), .env (.mined "0xf2")]

theorem lowPasses_network : ∀ i, (lowPasses i).network = .flare := by
  rintro (_ | _ | _) <;> rfl

/-- Two passes in a row, the second before the first one's top-up is mined: `Submit` has 700 where
its band ends at 400. -/
theorem twiceFunded_overfunds :
    ∃ s, Overlap lowTransfer .flare lowPasses lowChain twiceFunded s ∧ ¬ s.InBand .flare := by
  have hrun₀ := @topupMoves_run _ _ lowChain 0 "0xf1" 1754000000 rfl rfl
  have hrun₁ := @topupMoves_run (100 * 10 ^ 18) _ { lowChain with sent := ["0xf1"] } 1 "0xf2"
    1754000120 rfl rfl
  refine ⟨_,
    ⟨lowPasses_network, rfl, lowChain_inBand, fun i => ?_, (hrun₀.append hrun₁).append (.cons
    (@FundChain.Step.mined lowTransfer _ "0xf1" submitAccount.address (300 * 10 ^ 18) (by decide)
      (by decide) rfl) (.single
    (@FundChain.Step.mined lowTransfer _ "0xf2" submitAccount.address (300 * 10 ^ 18) (by decide)
      (by decide) rfl)))⟩, fun hband => ?_⟩
  · rw [twiceFunded, part_append, part_append]
    match i with
    | 0 =>
      rw [part_topupMoves, part_topupMoves_other (by decide)]
      exact runTrace_begun _ _
    | 1 =>
      rw [part_topupMoves_other (by decide), part_topupMoves]
      exact runTrace_begun _ _
    | i + 2 =>
      rw [part_topupMoves_other (by omega), part_topupMoves_other (by omega)]
      exact begun_exec deafWorld 0
  · have hle := hband submitAccount List.mem_cons_self
    exact absurd hle (by decide +kernel)

/-- The plan is being applied when the first top-up is mined. -/
def beforeFirst : List FundMove :=
  topupMoves 0 (100 * 10 ^ 18) (300 * 10 ^ 18) "0xf1" 1754000000 ++ feesTrace.map (.proc 2)

def beforeSecond : List FundMove :=
  beforeFirst ++ .env (.mined "0xf1") :: (.env (.spent submitAccount.address (250 * 10 ^ 18)) ::
    (topupTrace (150 * 10 ^ 18) (200 * 10 ^ 18) "0xf3" 1754000060).map (.proc 2) ++
    [.env (.spent submitAccount.address (50 * 10 ^ 18))])

def beforeThird : List FundMove :=
  beforeSecond ++ .env (.mined "0xf3") :: (.env (.spent submitAccount.address (200 * 10 ^ 18)) ::
    topupMoves 1 (100 * 10 ^ 18) (300 * 10 ^ 18) "0xf2" 1754000120)

/-- Each pass reads the balance after the top-up before its own was mined. -/
def keptApart : List FundMove := beforeThird ++ [.env (.mined "0xf2")]

/-- `Submit` has so much, and the transaction is on its way. -/
structure Due (s : FundChain) (balance : Nat) (raw : String) (mined : List String) : Prop where
  balance : s.balance submitAccount.address = balance
  sent : raw ∈ s.sent
  mined : s.mined = mined

section

variable {s : FundChain} {balance value : Nat} {raw : String} {mined : List String}

theorem Due.mine (h : Due s balance raw mined) (hnew : raw ∉ mined)
    (hraw : lowTransfer raw = some (submitAccount.address, value)) :
    ∃ s', FundChain.Step lowTransfer s (.env (.mined raw)) s' ∧
      s'.balance submitAccount.address = balance + value ∧ s'.mined = raw :: mined := by
  refine ⟨_, .mined h.sent (by rwa [h.mined]) hraw, ?_, by rw [← h.mined]⟩
  dsimp only
  rw [Function.update_self, h.balance]

theorem spend (amount left : Nat) (h : s.balance submitAccount.address = left + amount) :
    ∃ s', FundChain.Step lowTransfer s (.env (.spent submitAccount.address amount)) s' ∧
      s'.balance submitAccount.address = left ∧ s'.sent = s.sent ∧ s'.mined = s.mined := by
  refine ⟨_, .spent (by omega), ?_, rfl, rfl⟩
  dsimp only
  rw [Function.update_self, h, Nat.add_sub_cancel]

end

theorem beforeFirst_run : ∃ s, Run (FundChain.Step lowTransfer) lowChain beforeFirst s ∧
    Due s (100 * 10 ^ 18) "0xf1" [] :=
  ⟨_, (topupMoves_run 0 _ _ rfl rfl).append (feesTrace_run 2), rfl, List.mem_cons_self, rfl⟩

theorem beforeSecond_run : ∃ s, Run (FundChain.Step lowTransfer) lowChain beforeSecond s ∧
    Due s (100 * 10 ^ 18) "0xf3" ["0xf1"] := by
  obtain ⟨s₁, hrun, hdue⟩ := beforeFirst_run
  obtain ⟨s₂, hmined, hbalance₂, hnew₂⟩ := hdue.mine (by decide) rfl
  obtain ⟨s₃, hspent, hbalance₃, -, hnew₃⟩ :=
    spend (250 * 10 ^ 18) (150 * 10 ^ 18) (hbalance₂.trans (by norm_num))
  have hsent := topupTrace_run 2 "0xf3" 1754000060 rfl hbalance₃
  obtain ⟨s₄, hspent', hbalance₄, hsent₄, hnew₄⟩ :=
    @spend { s₃ with sent := "0xf3" :: s₃.sent } (50 * 10 ^ 18) (100 * 10 ^ 18)
      (hbalance₃.trans (by norm_num))
  refine ⟨s₄, hrun.append (.cons hmined (.append (.cons hspent hsent) (.single hspent'))),
    hbalance₄, ?_, ?_⟩
  · rw [hsent₄]
    exact List.mem_cons_self
  · rw [hnew₄, hnew₃, hnew₂]

theorem beforeThird_run : ∃ s, Run (FundChain.Step lowTransfer) lowChain beforeThird s ∧
    Due s (100 * 10 ^ 18) "0xf2" ["0xf3", "0xf1"] := by
  obtain ⟨s₁, hrun, hdue⟩ := beforeSecond_run
  obtain ⟨s₂, hmined, hbalance₂, hnew₂⟩ := hdue.mine (by decide) rfl
  obtain ⟨s₃, hspent, hbalance₃, -, hnew₃⟩ :=
    spend (200 * 10 ^ 18) (100 * 10 ^ 18) (hbalance₂.trans (by norm_num))
  have hsent := topupMoves_run 1 "0xf2" 1754000120 rfl hbalance₃
  exact ⟨_, hrun.append (.cons hmined (.cons hspent hsent)), hbalance₃, List.mem_cons_self,
    by rw [hnew₃, hnew₂]⟩

theorem keptApart_run : ∃ s, Run (FundChain.Step lowTransfer) lowChain keptApart s ∧
    s.balance submitAccount.address = 400 * 10 ^ 18 := by
  obtain ⟨s₁, hrun, hdue⟩ := beforeThird_run
  obtain ⟨s₂, hmined, hbalance, -⟩ := hdue.mine (by decide) rfl
  exact ⟨s₂, hrun.append (.single hmined), hbalance.trans (by norm_num)⟩

theorem ComputedFrom.later {h t : List FundMove} {raw address : String} {b : Nat}
    (hc : ComputedFrom h raw address b) : ComputedFrom (h ++ t) raw address b := by
  obtain ⟨h₁, i, h₂, rfl, c, body, key, resp, rest, hsign, hraw⟩ := hc
  refine ⟨h₁, i, h₂ ++ t, by simp, c, body, key, resp, rest ++ part i t, ?_, hraw⟩
  rw [part_append, hsign, List.cons_append]

theorem computations_topup {balance value : Nat} {raw : String} {now : Int} :
    computations (feesTrace ++ topupTrace balance value raw now) =
      [(submitAccount.address, (balance : Int), raw)] := rfl

theorem keptApart_part (i : Nat) : part i keptApart =
    if i = 0 then feesTrace ++ topupTrace (100 * 10 ^ 18) (300 * 10 ^ 18) "0xf1" 1754000000
    else if i = 1 then feesTrace ++ topupTrace (100 * 10 ^ 18) (300 * 10 ^ 18) "0xf2" 1754000120
    else if i = 2 then feesTrace ++ topupTrace (150 * 10 ^ 18) (200 * 10 ^ 18) "0xf3" 1754000060
    else [] := by
  match i with
  | 0 => rfl
  | 1 => rfl
  | 2 => rfl
  | i + 3 =>
    simp [keptApart, beforeThird, beforeSecond, beforeFirst, part_topupMoves_other, part_other]
    rfl

theorem keptApart_begun (i : Nat) : Begun (lowPasses i).prog (part i keptApart) := by
  rw [keptApart_part]
  match i with
  | 0 => exact runTrace_begun _ _
  | 1 => exact runTrace_begun _ _
  | 2 => exact planTrace_begun _ _
  | i + 3 => exact begun_exec deafWorld 0

/-- What each of the three was computed from. -/
theorem keptApart_computed {raw address : String} {b : Nat}
    (hc : ComputedFrom keptApart raw address b) : address = submitAccount.address ∧
      ((raw = "0xf1" ∧ b = 100 * 10 ^ 18) ∨ (raw = "0xf2" ∧ b = 100 * 10 ^ 18) ∨
        (raw = "0xf3" ∧ b = 150 * 10 ^ 18)) := by
  obtain ⟨i, hmem⟩ := hc.mem
  have hone : ∀ {balance : Nat} {raw' : String},
      (address, (b : Int), raw) ∈ [(submitAccount.address, (balance : Int), raw')] →
        address = submitAccount.address ∧ raw = raw' ∧ b = balance := by
    intro balance raw' h
    obtain ⟨haddress, hrest⟩ := Prod.mk.inj (List.mem_singleton.mp h)
    obtain ⟨hb, hraw⟩ := Prod.mk.inj hrest
    exact ⟨haddress, hraw, by exact_mod_cast hb⟩
  rw [keptApart_part] at hmem
  split_ifs at hmem
  · rw [computations_topup] at hmem
    exact ⟨(hone hmem).1, Or.inl (hone hmem).2⟩
  · rw [computations_topup] at hmem
    exact ⟨(hone hmem).1, Or.inr (Or.inl (hone hmem).2)⟩
  · rw [computations_topup] at hmem
    exact ⟨(hone hmem).1, Or.inr (Or.inr (hone hmem).2)⟩
  · exact absurd hmem List.not_mem_nil

/-- What the balance was when each of the three was mined. -/
theorem keptApart_mined {h₁ h₂ : List FundMove} {raw : String}
    (h : keptApart = h₁ ++ .env (.mined raw) :: h₂) : ∃ s,
      Run (FundChain.Step lowTransfer) lowChain h₁ s ∧
        s.balance submitAccount.address = 100 * 10 ^ 18 := by
  rcases mined_split (by simp) h with ⟨rfl, -⟩ | ⟨h₃, h⟩
  · obtain ⟨s, hrun, hdue⟩ := beforeThird_run
    exact ⟨s, hrun, hdue.balance⟩
  rcases mined_split (by simp [topupMoves]) h with ⟨rfl, -⟩ | ⟨h₃, h⟩
  · obtain ⟨s, hrun, hdue⟩ := beforeSecond_run
    exact ⟨s, hrun, hdue.balance⟩
  rcases mined_split (by simp) h with ⟨rfl, -⟩ | ⟨h₃, h⟩
  · obtain ⟨s, hrun, hdue⟩ := beforeFirst_run
    exact ⟨s, hrun, hdue.balance⟩
  · have hmem : (.env (.mined raw) : FundMove) ∈ beforeFirst := by
      rw [h]
      simp
    simp [beforeFirst, topupMoves] at hmem

theorem step_deterministic (s : FundChain) (x : FundMove) (s₁ s₂ : FundChain)
    (h₁ : FundChain.Step lowTransfer s x s₁) (h₂ : FundChain.Step lowTransfer s x s₂) : s₁ = s₂ := by
  cases h₁ with
  | exchange => cases h₂ with | exchange => rfl
  | spent => cases h₂ with | spent => rfl
  | mined hsent hnew ht =>
    cases h₂ with
    | mined hsent' hnew' ht' =>
      rw [ht] at ht'
      obtain ⟨rfl, rfl⟩ := Prod.mk.inj (Option.some.inj ht')
      rfl

theorem keptApart_notOvertaken : NotOvertaken lowTransfer lowChain keptApart := by
  intro h₁ raw h₂ s address v b hsplit hrun ht hc
  obtain ⟨s', hrun', hbalance⟩ := keptApart_mined hsplit
  obtain rfl := hrun.deterministic step_deterministic hrun'
  have hc' : ComputedFrom keptApart raw address b := by
    rw [hsplit]
    exact hc.later
  obtain ⟨rfl, ⟨-, rfl⟩ | ⟨-, rfl⟩ | ⟨-, rfl⟩⟩ := keptApart_computed hc'
  · exact hbalance.le
  · exact hbalance.le
  · rw [hbalance]
    norm_num

theorem submit_gap : gap submitAccount (100 * 10 ^ 18) = 300 * 10 ^ 18 ∧
    gap submitAccount (150 * 10 ^ 18) = 250 * 10 ^ 18 := by decide +kernel

theorem keptApart_notRoundedUp : NotRoundedUp lowTransfer .flare keptApart := by
  intro h₁ raw h₂ a v b hsplit ha ht hc
  have hc' : ComputedFrom keptApart raw a.address b := by
    rw [hsplit]
    exact hc.later
  obtain ⟨haddress, hb⟩ := keptApart_computed hc'
  obtain rfl : a = submitAccount := accounts_address_inj ha List.mem_cons_self haddress
  have hsum : ∀ b g : Nat, gap submitAccount b = g → b + g = 400 * 10 ^ 18 →
      (b + gap submitAccount b : ℚ) ≤ submitAccount.band.upper * wei := by
    intro b g hgap hsum
    rw [hgap]
    have hcast : ((b + g : Nat) : ℚ) = 400 * 10 ^ 18 := by
      rw [hsum]
      norm_num
    push_cast at hcast ⊢
    rw [hcast]
    exact le_rfl
  obtain ⟨-, rfl⟩ | ⟨-, rfl⟩ | ⟨-, rfl⟩ := hb
  · exact hsum _ (300 * 10 ^ 18) submit_gap.1 rfl
  · exact hsum _ (300 * 10 ^ 18) submit_gap.1 rfl
  · exact hsum _ (250 * 10 ^ 18) submit_gap.2 rfl

/-- Three passes, two of them at once, and `Submit` ends where its band does. -/
theorem neverOverfunds_apart : ∃ s,
    Overlap lowTransfer .flare lowPasses lowChain keptApart s ∧
      s.balance submitAccount.address = 400 * 10 ^ 18 ∧ s.InBand .flare := by
  obtain ⟨s, hrun, hbalance⟩ := keptApart_run
  have hover : Overlap lowTransfer .flare lowPasses lowChain keptApart s :=
    ⟨lowPasses_network, rfl, lowChain_inBand, keptApart_begun, hrun⟩
  exact ⟨s, hover, hbalance,
    (neverOverfunds hover keptApart_notOvertaken).2 keptApart_notRoundedUp⟩

end Clif
