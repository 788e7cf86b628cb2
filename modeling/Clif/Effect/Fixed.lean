import Clif.Effect.Prog

/-!
# Effect.Fixed — programs in a world that answers each question always the same way

There a program is nothing but its result: `result env` respects the operations of the monad.
-/

namespace Effect

variable {S : Sig} {E α β : Type} {env : (op : S.Op) → S.Ans op}

/-- What `p` returns or raises in the world `env`. -/
def result (env : (op : S.Op) → S.Ans op) (p : Act S E α) : Except E α := (exec env p).2

theorem Prog.exec_bind_snd {p : Prog S α} {f : α → Prog S β} :
    ((p >>= f).exec env).2 = ((f (p.exec env).2).exec env).2 := by
  show ((p.bind f).exec env).2 = _
  induction p with
  | ret a => rfl
  | ask op k ih => exact ih (env op)

@[simp] theorem result_pure {a : α} : result env (pure a : Act S E α) = .ok a := rfl

@[simp] theorem result_ask {op : S.Op} : result env (ask op : Act S E _) = .ok (env op) := rfl

@[simp] theorem result_fromExcept {x : Except E α} :
    result env (fromExcept x : Act S E α) = x := rfl

@[simp] theorem result_bind {p : Act S E α} {f : α → Act S E β} :
    result env (p >>= f) = result env p >>= fun a => result env (f a) := by
  show (Prog.exec env (ExceptT.run p >>= ExceptT.bindCont f)).2 = _
  rw [Prog.exec_bind_snd]
  show (Prog.exec env (ExceptT.bindCont f (result env p))).2 = _
  cases result env p with
  | ok a => rfl
  | error e => rfl

end Effect
