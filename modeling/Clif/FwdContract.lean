import Clif.Effect.Ledger
import Clif.Delivery

/-!
# FwdContract — what `fwd` promises about idempotency keys

From `docs/fwd-contract.md`: the same key with the same body is the same transaction, the same key
with another body is `409 idempotency_conflict`, and each caller has keys of its own.
-/

namespace Clif

open Effect

/-! ## Signing requests -/

/-- A refusal because of the key. -/
def Exc.isConflict : Exc → Bool
  | .fwdTerminal _ code _ => code == "idempotency_conflict"
  | _ => false

/-- A caller token and a key of its own. -/
abbrev CallerKey := Option String × String

abbrev FwdMemory := Ledger CallerKey TxBody SignTransactionResponse

def answerOf : Except Exc SignTransactionResponse → Answer SignTransactionResponse
  | .ok resp => .served resp
  | .error e => if e.isConflict then .conflict else .failed

/-- A signing request, with its answer. -/
def signRequest : Event sig → Option (CallerKey × TxBody × Answer SignTransactionResponse)
  | ⟨.fwd c (.signTransaction body key), ans⟩ => some ((c, key), body, answerOf ans)
  | _ => none

theorem signRequest_eq_none {e : Event sig} (h : e.op.kind ≠ .sign) : signRequest e = none := by
  obtain ⟨op, ans⟩ := e
  cases op with
  | fwd c o => cases o <;> first | rfl | exact absurd rfl h
  | _ => rfl

theorem Early.unasked {e : Event sig} (h : Early e) : signRequest e = none := by
  obtain ⟨op, ans⟩ := e
  cases op with
  | fwd c o =>
    cases o with
    | signTransaction body key =>
      cases ans with
      | ok resp => exact absurd h.unsigned nofun
      | error e => exact absurd h.unrefused nofun
    | _ => rfl
  | _ => rfl

/-- `fwd` keeps its contract in these exchanges, which take it from `m` to `m'`. -/
inductive FwdServes : FwdMemory → Trace → FwdMemory → Prop
  | nil {m : FwdMemory} : FwdServes m [] m
  | other {m m' : FwdMemory} {e : Event sig} {t : Trace} (h : signRequest e = none)
      (ht : FwdServes m t m') : FwdServes m (e :: t) m'
  | request {m m₁ m' : FwdMemory} {e : Event sig} {t : Trace} {key : CallerKey} {body : TxBody}
      {answer : Answer SignTransactionResponse} (h : signRequest e = some (key, body, answer))
      (hs : m.Step key body answer m₁) (ht : FwdServes m₁ t m') : FwdServes m (e :: t) m'

variable {m m' : FwdMemory} {t t₁ t₂ : Trace}

theorem FwdServes.le (h : FwdServes m t m') : m.Le m' := by
  induction h with
  | nil => exact .refl _
  | other h ht ih => exact ih
  | request h hs ht ih => exact hs.le.trans ih

theorem FwdServes.append (h : FwdServes m (t₁ ++ t₂) m') :
    ∃ m₁, FwdServes m t₁ m₁ ∧ FwdServes m₁ t₂ m' := by
  induction t₁ generalizing m with
  | nil => exact ⟨m, .nil, h⟩
  | cons e t₁ ih =>
    cases h with
    | other he ht =>
      obtain ⟨m₁, h₁, h₂⟩ := ih ht
      exact ⟨m₁, .other he h₁, h₂⟩
    | request he hs ht =>
      obtain ⟨m₁, h₁, h₂⟩ := ih ht
      exact ⟨m₁, .request he hs h₁, h₂⟩

/-- Without a signing request nothing changes. -/
theorem FwdServes.quiet (h : FwdServes m t m') (hq : ∀ e ∈ t, signRequest e = none) : m' = m := by
  induction h with
  | nil => rfl
  | other he ht ih => exact ih fun e h' => hq e (List.mem_cons_of_mem _ h')
  | request he hs ht ih =>
    have hnone := hq _ (List.mem_cons_self ..)
    rw [he] at hnone
    cases hnone

/-- A request somewhere in the exchanges is one step of the ledger. -/
theorem FwdServes.step (h : FwdServes m t m') {e : Event sig} (he : e ∈ t) {key : CallerKey}
    {body : TxBody} {answer : Answer SignTransactionResponse}
    (hreq : signRequest e = some (key, body, answer)) :
    ∃ m₁ m₂, m.Le m₁ ∧ m₁.Step key body answer m₂ ∧ m₂.Le m' := by
  induction h with
  | nil => cases he
  | other hnone ht ih =>
    rcases List.mem_cons.mp he with rfl | he
    · rw [hreq] at hnone
      cases hnone
    · exact ih he
  | request hsome hs ht ih =>
    rcases List.mem_cons.mp he with rfl | he
    · rw [hreq] at hsome
      cases hsome
      exact ⟨_, _, .refl _, hs, ht.le⟩
    · obtain ⟨m₁, m₂, h₁, hstep, h₂⟩ := ih he
      exact ⟨m₁, m₂, hs.le.trans h₁, hstep, h₂⟩

/-- A signed transaction is on record afterwards. -/
theorem FwdServes.recorded (h : FwdServes m t m') {c : Option String} {body : TxBody}
    {key : String} {resp : SignTransactionResponse}
    (he : (⟨.fwd c (.signTransaction body key), .ok resp⟩ : Event sig) ∈ t) :
    m' (c, key) = some (body, resp) := by
  obtain ⟨m₁, m₂, -, hstep, hle⟩ := h.step he rfl
  exact hle _ _ hstep.served

/-- What is on record is signed again, and for its own body only. -/
theorem FwdServes.replayed (h : FwdServes m t m') {c : Option String} {body first : TxBody}
    {key : String} {resp recorded : SignTransactionResponse}
    (he : (⟨.fwd c (.signTransaction body key), .ok resp⟩ : Event sig) ∈ t)
    (hm : m (c, key) = some (first, recorded)) : first = body ∧ recorded = resp := by
  obtain ⟨m₁, m₂, hle, hstep, -⟩ := h.step he rfl
  exact hstep.replayed (hle _ _ hm)

/-- The requests of exchanges with one request. -/
theorem fwdServes_one {m m' : FwdMemory} {t : Trace} {key : CallerKey} {body : TxBody}
    {answer : Answer SignTransactionResponse}
    (h : t.filterMap signRequest = [(key, body, answer)]) (hs : m.Step key body answer m') :
    FwdServes m t m' := by
  induction t with
  | nil => cases h
  | cons e t ih =>
    cases he : signRequest e with
    | none =>
      rw [List.filterMap_cons_none he] at h
      exact .other he (ih h)
    | some x =>
      rw [List.filterMap_cons_some he] at h
      obtain ⟨rfl, hnil⟩ := List.cons.inj h
      have hquiet : ∀ {m : FwdMemory} {t : Trace}, t.filterMap signRequest = [] →
          FwdServes m t m := by
        intro m t ht
        induction t with
        | nil => exact .nil
        | cons e t ih' =>
          have hall := List.filterMap_eq_nil_iff.mp ht
          exact .other (hall e (List.mem_cons_self ..))
            (ih' (List.filterMap_eq_nil_iff.mpr fun e' he' => hall e' (List.mem_cons_of_mem _ he')))
      exact .request he hs (hquiet hnil)

end Clif
