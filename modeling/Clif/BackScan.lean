import Mathlib.Algebra.BigOperators.Group.Finset.Basic
import Mathlib.Algebra.Order.BigOperators.Group.Finset
import Clif.Hex
import Clif.AutoState
import Clif.Tally

/-!
# BackScan — the backward scan of `_scan_window` over a node with a range cap

The node of a fixed chain answers every range of at most `cap` blocks and refuses the others, with
the cap in its message (`scanWindow_spec`).
-/

namespace Clif

open Effect

/-! ## The cap in the message -/

/-- The text names the cap: the words come before it for the first time. -/
def NamesCap (text : List Char) (cap : Nat) : Prop :=
  ∃ before after, text = before ++ (blockCapText ++ (Nat.toDigits 10 cap ++ after)) ∧
    (∀ k, k < before.length → ¬ blockCapText <+: text.drop k) ∧
    ∀ c ∈ after.head?, Py.digit? c = none

theorem digit?_of_isDigit {c : Char} (hc : c.isDigit = true) :
    Py.digit? c = some (c.toNat - '0'.toNat) := by
  have hrange : 48 ≤ c.toNat ∧ c.toNat ≤ 57 := by
    simp only [Char.isDigit, Bool.and_eq_true, decide_eq_true_eq] at hc
    exact hc
  have hfirst : (decide (0x30 ≤ c.toNat) && decide (c.toNat < 0x30 + 10)) = true := by
    simp only [Bool.and_eq_true, decide_eq_true_eq]
    omega
  have hfind : ∀ zs : List Nat, (0x30 :: zs).find? (fun z => z ≤ c.toNat && c.toNat < z + 10) =
      some 0x30 := fun zs => List.find?_cons_of_pos hfirst
  show ((0x30 :: Py.digitZeros.tail).find? _).map _ = _
  rw [hfind]
  rfl

theorem digits?_toDigits {ds : List Char} (hds : ∀ c ∈ ds, c.isDigit = true) :
    ∀ {acc : Nat} {prev : Bool}, (ds = [] → prev = true) →
      Py.digits? Py.digit? 10 prev acc ds = some (Nat.ofDigitChars 10 ds acc) := by
  induction ds with
  | nil =>
    intro acc prev hprev
    rw [hprev rfl]
    rfl
  | cons c cs ih =>
    intro acc prev _
    have hc : c.isDigit = true := hds c List.mem_cons_self
    have hne : c ≠ '_' := by
      rintro rfl
      exact absurd hc (by decide)
    have hstep : Py.digits? Py.digit? 10 prev acc (c :: cs) =
        Py.digits? Py.digit? 10 true (acc * 10 + (c.toNat - '0'.toNat)) cs := by
      rw [Py.digits?.eq_3 _ _ _ _ _ _ (fun h => hne h)]
      rw [digit?_of_isDigit hc]
    rw [hstep, ih (fun d hd => hds d (List.mem_cons_of_mem _ hd)) (fun _ => rfl),
      Nat.ofDigitChars_cons, Nat.mul_comm 10 acc]

theorem parseBlockCapChars_skip {c : Char} {cs : List Char} (h : ¬ blockCapText <+: c :: cs) :
    parseBlockCapChars (c :: cs) = parseBlockCapChars cs := by
  have hno : blockCapText.isPrefixOf (c :: cs) = false := by
    rw [Bool.eq_false_iff]
    exact fun hp => h (List.isPrefixOf_iff_prefix.mp hp)
  rw [parseBlockCapChars]
  simp [hno]

theorem NamesCap.parse {text : List Char} {cap : Nat} (h : NamesCap text cap)
    (hcap : cap < 10 ^ Py.maxStrDigits) : parseBlockCapChars text = .ok (some cap) := by
  obtain ⟨before, after, rfl, hfirst, hafter⟩ := h
  induction before with
  | nil =>
    have hdigits : ∀ c ∈ Nat.toDigits 10 cap, (Py.digit? c).isSome = true := by
      intro c hc
      rw [digit?_of_isDigit (Nat.isDigit_of_mem_toDigits (by decide) (by decide) hc)]
      rfl
    have htake : (Nat.toDigits 10 cap ++ after).takeWhile (fun d => (Py.digit? d).isSome) =
        Nat.toDigits 10 cap := by
      rw [List.takeWhile_append_of_pos hdigits]
      cases after with
      | nil => simp
      | cons c after =>
        have hc : Py.digit? c = none := hafter c rfl
        simp [hc]
    have hlen : (Nat.toDigits 10 cap).length ≤ Py.maxStrDigits :=
      (Nat.length_toDigits_le_iff (by decide) (by decide)).mpr hcap
    have hread : Py.digits? Py.digit? 10 false 0 (Nat.toDigits 10 cap) = some cap := by
      rw [digits?_toDigits (fun c hc => Nat.isDigit_of_mem_toDigits (by decide) (by decide) hc)
        fun hnil => absurd hnil Nat.toDigits_ne_nil]
      rw [Nat.ofDigitChars_ten_toDigits]
    have hne : (Nat.toDigits 10 cap).isEmpty = false := by
      rw [Bool.eq_false_iff]
      exact fun hemp => Nat.toDigits_ne_nil (List.isEmpty_iff.mp hemp)
    have hpre : blockCapText.isPrefixOf (blockCapText ++ (Nat.toDigits 10 cap ++ after)) = true :=
      List.isPrefixOf_iff_prefix.mpr (List.prefix_append _ _)
    have hdrop : (blockCapText ++ (Nat.toDigits 10 cap ++ after)).drop blockCapText.length =
        Nat.toDigits 10 cap ++ after := List.drop_left
    show parseBlockCapChars (blockCapText ++ (Nat.toDigits 10 cap ++ after)) = _
    have hcons : blockCapText ++ (Nat.toDigits 10 cap ++ after) =
      'm' :: (blockCapText.tail ++ (Nat.toDigits 10 cap ++ after)) := rfl
    rw [hcons, parseBlockCapChars, ← hcons]
    simp only [hpre, if_true, hdrop, htake, hne, Bool.false_eq_true, if_false, hread]
    rw [if_neg (by omega)]
  | cons c before ih =>
    have hzero := hfirst 0 (by simp)
    rw [List.drop_zero, List.cons_append] at hzero
    rw [List.cons_append, parseBlockCapChars_skip hzero]
    refine ih fun k hk => ?_
    exact hfirst (k + 1) (by simpa using hk)

/-- More text in front of it, without an `m`. -/
theorem NamesCap.after {text : List Char} {cap : Nat} (h : NamesCap text cap) {before : List Char}
    (hbefore : 'm' ∉ before) : NamesCap (before ++ text) cap := by
  obtain ⟨before', after, rfl, hfirst, hafter⟩ := h
  refine ⟨before ++ before', after, by simp, fun k hk hpre => ?_, hafter⟩
  by_cases hlt : k < before.length
  · rw [List.drop_append_of_le_length hlt.le, List.drop_eq_getElem_cons hlt] at hpre
    have hm : 'm' = before[k] := (List.cons_prefix_cons.mp hpre).1
    exact hbefore (hm ▸ List.getElem_mem hlt)
  · obtain ⟨j, rfl⟩ := Nat.exists_eq_add_of_le (not_lt.mp hlt)
    rw [List.drop_append, List.drop_of_length_le (by omega), List.nil_append,
      Nat.add_sub_cancel_left] at hpre
    refine hfirst j ?_ hpre
    rw [List.length_append] at hk
    omega

/-! ## The pairs of hash and signer -/

/-- `byHash` holds the pairs of hash and signer of the logs in `P`, and no others. -/
structure HoldsPairs (byHash : ByHash) (P : SignedLog → Prop) : Prop where
  hashes : ∀ h, h ∈ byHash.keys ↔ ∃ l, P l ∧ l.messageHash = h
  pairs : ∀ h spa, spa ∈ (signersOf byHash h).keys ↔
    ∃ l, P l ∧ l.messageHash = h ∧ l.signingPolicyAddress = spa

theorem HoldsPairs.congr {b : ByHash} {P Q : SignedLog → Prop} (h : HoldsPairs b P)
    (hpq : ∀ l, P l ↔ Q l) : HoldsPairs b Q := by
  rwa [← funext fun l => propext (hpq l)]

theorem holdsPairs_empty : HoldsPairs Dict.empty fun _ => False := by
  constructor <;> simp [signersOf]

theorem holdsPairs_mergeLog {b : ByHash} {P : SignedLog → Prop} {l : SignedLog}
    (h : HoldsPairs b P) : HoldsPairs (mergeLog b l) fun l' => P l' ∨ l' = l := by
  constructor
  · intro hash
    rw [mergeLog, Dict.mem_keys_set, h.hashes]
    constructor
    · rintro (rfl | ⟨l', hl', rfl⟩)
      · exact ⟨l, Or.inr rfl, rfl⟩
      · exact ⟨l', Or.inl hl', rfl⟩
    · rintro ⟨l', hl' | rfl, rfl⟩
      · exact Or.inr ⟨l', hl', rfl⟩
      · exact Or.inl rfl
  · intro hash spa
    have hold : (∃ l', (P l' ∨ l' = l) ∧ l'.messageHash = hash ∧ l'.signingPolicyAddress = spa) ↔
        (∃ l', P l' ∧ l'.messageHash = hash ∧ l'.signingPolicyAddress = spa) ∨
          l.messageHash = hash ∧ l.signingPolicyAddress = spa := by
      constructor
      · rintro ⟨l', hl' | rfl, rest⟩
        · exact Or.inl ⟨l', hl', rest⟩
        · exact Or.inr rest
      · rintro (⟨l', hl', rest⟩ | rest)
        · exact ⟨l', Or.inl hl', rest⟩
        · exact ⟨l, Or.inr rfl, rest⟩
    rw [hold, ← h.pairs, signersOf_mergeLog]
    by_cases hh : l.messageHash = hash
    · rw [if_pos hh, Dict.mem_keys_set]
      simp [hh, or_comm]
    · simp [hh]

theorem holdsPairs_merge {b : ByHash} {P : SignedLog → Prop} {logs : List SignedLog}
    (h : HoldsPairs b P) : HoldsPairs (merge b logs) fun l => P l ∨ l ∈ logs := by
  induction logs generalizing b P with
  | nil => exact h.congr fun l => by simp
  | cons l logs ih =>
    refine (ih (holdsPairs_mergeLog h)).congr fun l' => ?_
    rw [List.mem_cons, or_assoc]

/-- The weight of the leading hash grows with the logs. -/
theorem HoldsPairs.lead_le {b b' : ByHash} {P P' : SignedLog → Prop} {weight : String → Int}
    {w w' : Weights} (h : HoldsPairs b P) (h' : HoldsPairs b' P') (hsub : ∀ l, P l → P' l)
    (hweight : ∀ spa, 0 ≤ weight spa)
    (hw : ∀ l, P l → w.of l.signingPolicyAddress = weight l.signingPolicyAddress)
    (hw' : ∀ l, P' l → w'.of l.signingPolicyAddress = weight l.signingPolicyAddress) :
    hashWeight w (lead w b) ≤ hashWeight w' (lead w' b') := by
  have hsum : ∀ {b : ByHash} {P : SignedLog → Prop} {w : Weights} (hash : String), HoldsPairs b P →
      (∀ l, P l → w.of l.signingPolicyAddress = weight l.signingPolicyAddress) →
      hashWeight w (signersOf b hash) = ∑ spa ∈ (signersOf b hash).keys.toFinset, weight spa := by
    intro b P w hash hb hw
    rw [List.sum_toFinset _ (signersOf b hash).keys_nodup, hashWeight]
    refine congrArg List.sum (List.map_congr_left fun spa hspa => ?_)
    obtain ⟨l, hl, -, rfl⟩ := (hb.pairs hash spa).mp hspa
    exact hw l hl
  have hnonneg : 0 ≤ hashWeight w' (lead w' b') := by
    unfold lead
    cases leadingHash w' b' with
    | none => exact le_rfl
    | some hash =>
      rw [hsum hash h' hw']
      exact Finset.sum_nonneg fun spa _ => hweight spa
  cases hl : leadingHash w b with
  | none =>
    have hzero : hashWeight w (lead w b) = 0 := by
      unfold lead
      rw [hl]
      rfl
    rw [hzero]
    exact hnonneg
  | some hash =>
    obtain ⟨l, hPl, hlh⟩ := (h.hashes hash).mp (leads_leadingHash hl).1
    have hin : hash ∈ b'.keys := (h'.hashes hash).mpr ⟨l, hsub l hPl, hlh⟩
    have hle : hashWeight w (signersOf b hash) ≤ hashWeight w' (signersOf b' hash) := by
      rw [hsum hash h hw, hsum hash h' hw']
      refine Finset.sum_le_sum_of_subset_of_nonneg (fun spa hspa => ?_) fun spa _ _ => hweight spa
      obtain ⟨l, hl, rest⟩ := (h.pairs hash spa).mp (List.mem_toFinset.mp hspa)
      exact List.mem_toFinset.mpr ((h'.pairs hash spa).mpr ⟨l, hsub l hl, rest⟩)
    cases hl' : leadingHash w' b' with
    | none =>
      rw [leadingHash_eq_none.mp hl'] at hin
      cases hin
    | some hash' =>
      have hmax := (leads_leadingHash hl').2 hash hin
      unfold lead
      rw [hl, hl']
      exact hle.trans hmax

/-! ## The node -/

section

variable [External]

/-- The node of a chain with these logs and timestamps, and a cap on the range of a request. -/
structure CappedNode (env : (op : Op) → op.Ans) (fsm : String) (epoch : Int) (kind : SigningKind)
    (logs : List SignedLog) (ts : Int → Int) (cap : Nat) : Prop where
  cap_pos : 0 < cap
  ts_mono : ∀ b b', b ≤ b' → ts b ≤ ts b'
  refused : ∀ lo hi, (cap : Int) < hi - lo + 1 →
    ∃ err, env (.rpc (.signedLogs fsm epoch lo hi kind)) = .error err ∧ NamesCap err.toList cap
  served : ∀ lo hi, hi - lo + 1 ≤ (cap : Int) →
    ∃ raw, env (.rpc (.signedLogs fsm epoch lo hi kind)) = .result raw ∧
      decodeSignedLogs kind raw =
        .ok (logs.filter fun l => lo ≤ l.blockNumber ∧ l.blockNumber ≤ hi)
  timestamp : ∀ b, env (.rpc (.blockTimestamp b)) = .result (some (ts b))

variable {env : (op : Op) → op.Ans} {fsm : String} {epoch : Int} {kind : SigningKind}
  {logs : List SignedLog} {ts : Int → Int} {cap : Nat} {t : Trace}

theorem CappedNode.signedLogs_served (hnode : CappedNode env fsm epoch kind logs ts cap)
    {lo hi : Int} {r : Except Exc (List SignedLog)}
    (h : Runs (signedLogs fsm epoch lo hi kind) t r) (henv : ∀ e ∈ t, e.ans = env e.op)
    (hsize : hi - lo + 1 ≤ (cap : Int)) :
    r = .ok (logs.filter fun l => lo ≤ l.blockNumber ∧ l.blockNumber ≤ hi) ∧ t.length = 1 := by
  obtain ⟨raw, hraw, hdec⟩ := hnode.served lo hi hsize
  obtain ⟨a, t', rfl, hr⟩ := runs_rpc_bind.mp h
  have ha : a = .result raw := (henv _ List.mem_cons_self).trans hraw
  subst ha
  rcases hr with ⟨raw', hraw', h₁⟩ | ⟨e, he, -, -⟩
  · cases hraw'
    obtain ⟨rfl, rfl⟩ := runs_fromExcept.mp h₁
    exact ⟨hdec, rfl⟩
  · cases he

theorem CappedNode.signedLogs_refused (hnode : CappedNode env fsm epoch kind logs ts cap)
    {lo hi : Int} {r : Except Exc (List SignedLog)}
    (h : Runs (signedLogs fsm epoch lo hi kind) t r) (henv : ∀ e ∈ t, e.ans = env e.op)
    (hsize : (cap : Int) < hi - lo + 1) (hcap : cap < 10 ^ Py.maxStrDigits) :
    ∃ msg, r = .error (.rpcError msg) ∧ parseBlockCap msg = .ok (some cap) ∧ t.length = 1 := by
  obtain ⟨err, herr, hnames⟩ := hnode.refused lo hi hsize
  obtain ⟨a, t', rfl, hr⟩ := runs_rpc_bind.mp h
  have ha : a = .error err := (henv _ List.mem_cons_self).trans herr
  subst ha
  rcases hr with ⟨raw, hraw, -⟩ | ⟨e, he, rfl, rfl⟩
  · cases hraw
  · cases he
    refine ⟨_, rfl, ?_, rfl⟩
    have htext : ("eth_getLogs rpc error: " ++ err).toList =
        "eth_getLogs rpc error: ".toList ++ err.toList := String.toList_append
    show parseBlockCapChars ("eth_getLogs rpc error: " ++ err).toList = _
    rw [htext]
    exact (hnames.after (by decide)).parse hcap

/-- The logs of a slice of the scan. -/
def inSlice (logs : List SignedLog) (hi : Int) (chunk : Nat) : List SignedLog :=
  logs.filter fun l => (backSlice hi chunk).1 ≤ l.blockNumber ∧ l.blockNumber ≤ hi

theorem CappedNode.fetchSlice_served (hnode : CappedNode env fsm epoch kind logs ts cap) {hi : Int}
    {n chunk : Nat} {r : Except Exc (List SignedLog × Nat)}
    (h : Runs (fetchSlice fsm epoch kind (backSlice hi) n chunk) t r)
    (henv : ∀ e ∈ t, e.ans = env e.op) (hsize : hi - (backSlice hi chunk).1 + 1 ≤ (cap : Int)) :
    r = .ok (inSlice logs hi chunk, chunk) ∧ t.length = 1 := by
  cases n with
  | zero =>
    unfold fetchSlice at h
    rcases runs_bind.mp h with ⟨x, t₁, t₂, rfl, h₁, h₂⟩ | ⟨e, h₁, rfl⟩
    · obtain ⟨hx, hlen⟩ := hnode.signedLogs_served h₁
        (fun e he => henv e (List.mem_append_left _ he)) hsize
      cases hx
      obtain ⟨rfl, rfl⟩ := runs_pure.mp h₂
      exact ⟨rfl, by simpa using hlen⟩
    · obtain ⟨hx, -⟩ := hnode.signedLogs_served h₁ henv hsize
      cases hx
  | succ n =>
    unfold fetchSlice at h
    obtain ⟨x, t₁, t₂, rfl, h₁, h₂⟩ := runs_attempt_bind.mp h
    obtain ⟨rfl, hlen⟩ := hnode.signedLogs_served h₁
      (fun e he => henv e (List.mem_append_left _ he)) hsize
    obtain ⟨rfl, rfl⟩ := runs_pure.mp h₂
    exact ⟨rfl, by simpa using hlen⟩

/-- The slice comes back after one retry at most, with the chunk cut to the cap if it had to be. -/
theorem CappedNode.fetchSlice (hnode : CappedNode env fsm epoch kind logs ts cap) {hi : Int}
    {n chunk : Nat} {r : Except Exc (List SignedLog × Nat)}
    (h : Runs (fetchSlice fsm epoch kind (backSlice hi) n chunk) t r)
    (henv : ∀ e ∈ t, e.ans = env e.op) (hpos : 0 < chunk) (hn : chunk ≤ n)
    (hchunk : chunk ≤ chunkBlocks) :
    ∃ chunk', r = .ok (inSlice logs hi chunk', chunk') ∧ 0 < chunk' ∧ chunk' ≤ chunkBlocks ∧
      t.length ≤ 2 := by
  by_cases hsize : hi - (backSlice hi chunk).1 + 1 ≤ (cap : Int)
  · obtain ⟨hr, hlen⟩ := hnode.fetchSlice_served h henv hsize
    exact ⟨chunk, hr, hpos, hchunk, by omega⟩
  · have hlt : cap < chunk := by
      unfold backSlice at hsize
      dsimp only at hsize
      omega
    have hcap : cap < 10 ^ Py.maxStrDigits := by
      have hsmall : cap < 10 ^ 4 := by
        unfold chunkBlocks at hchunk
        omega
      exact hsmall.trans_le (Nat.pow_le_pow_right (by decide) (by decide))
    obtain ⟨n, rfl⟩ := Nat.exists_eq_succ_of_ne_zero (by omega : n ≠ 0)
    unfold Clif.fetchSlice at h
    obtain ⟨x, t₁, t₂, rfl, h₁, h₂⟩ := runs_attempt_bind.mp h
    obtain ⟨msg, rfl, hparse, hlen₁⟩ := hnode.signedLogs_refused h₁
      (fun e he => henv e (List.mem_append_left _ he)) (not_le.mp hsize) hcap
    rcases runs_fromExcept_bind.mp h₂ with ⟨cap', hcap', h₃⟩ | ⟨e, he, -, -⟩
    · rw [hparse] at hcap'
      cases hcap'
      dsimp only [Option.getD_some] at h₃
      rw [if_pos ⟨hnode.cap_pos.ne', hlt⟩] at h₃
      have hsize' : hi - (backSlice hi cap).1 + 1 ≤ (cap : Int) := by
        unfold backSlice
        dsimp only
        omega
      obtain ⟨hr, hlen₂⟩ := hnode.fetchSlice_served h₃
        (fun e he => henv e (List.mem_append_right _ he)) hsize'
      refine ⟨cap, hr, hnode.cap_pos, by omega, ?_⟩
      rw [List.length_append]
      omega
    · rw [hparse] at he
      cases he

theorem CappedNode.blockTimestamp (hnode : CappedNode env fsm epoch kind logs ts cap) {b : Int}
    {r : Except Exc Int} (h : Runs (blockTimestamp b) t r) (henv : ∀ e ∈ t, e.ans = env e.op) :
    r = .ok (ts b) ∧ t.length = 1 := by
  obtain ⟨a, t', rfl, hr⟩ := runs_rpc_bind.mp h
  have ha : a = .result (some (ts b)) := (henv _ List.mem_cons_self).trans (hnode.timestamp b)
  subst ha
  rcases hr with ⟨x, hx, h₁⟩ | ⟨e, he, -, -⟩
  · cases hx
    obtain ⟨rfl, rfl⟩ := runs_pure.mp h₁
    exact ⟨rfl, rfl⟩
  · cases he

/-! ## The scan -/

/-- The scan holds the pairs of the logs from the block it stopped at; a complete one stopped at
block 0, or at a block before the target. -/
theorem CappedNode.scanBack (hnode : CappedNode env fsm epoch kind logs ts cap)
    {target latest : Int} : ∀ {reqs chunk : Nat} {hi : Int} {b : ByHash} {t : Trace}
      {r : Except Exc (ByHash × Int × Bool)}, 0 < chunk → chunk ≤ chunkBlocks → hi ≤ latest →
      Runs (scanBack fsm epoch kind target reqs chunk hi b (hi + 1)) t r →
      (∀ e ∈ t, e.ans = env e.op) →
      HoldsPairs b (fun l => l ∈ logs ∧ hi + 1 ≤ l.blockNumber ∧ l.blockNumber ≤ latest) →
      ∃ x : ByHash × Int × Bool, r = .ok x ∧ t.length ≤ 3 * reqs ∧ x.2.1 ≤ latest + 1 ∧
        HoldsPairs x.1 (fun l => l ∈ logs ∧ x.2.1 ≤ l.blockNumber ∧ l.blockNumber ≤ latest) ∧
        (x.2.2 = true → x.2.1 = 0 ∨ ts x.2.1 < target) := by
  intro reqs
  induction reqs with
  | zero =>
    intro chunk hi b t r _ _ hhi h _ hb
    obtain ⟨rfl, rfl⟩ := runs_pure.mp h
    exact ⟨_, rfl, by simp, by simpa using hhi, hb, fun h => by cases h⟩
  | succ reqs ih =>
    intro chunk hi b t r hpos hchunk hhi h henv hb
    unfold Clif.scanBack at h
    split at h
    · obtain ⟨rfl, rfl⟩ := runs_pure.mp h
      exact ⟨_, rfl, by simp, by simpa using hhi, hb, fun h => by cases h⟩
    rename_i hneg
    rcases runs_bind.mp h with ⟨fetched, t₁, t₂, rfl, h₁, h₂⟩ | ⟨e, h₁, rfl⟩
    swap
    · obtain ⟨chunk', hr, -⟩ := hnode.fetchSlice h₁ henv hpos le_rfl hchunk
      cases hr
    obtain ⟨chunk', hr, hpos', hchunk', hlen₁⟩ := hnode.fetchSlice h₁
      (fun e he => henv e (List.mem_append_left _ he)) hpos le_rfl hchunk
    cases hr
    have hlo : (backSlice hi chunk').1 ≤ hi := by
      unfold backSlice
      dsimp only
      omega
    have hb' : HoldsPairs (merge b (inSlice logs hi chunk')) fun l => l ∈ logs ∧
        (backSlice hi chunk').1 ≤ l.blockNumber ∧ l.blockNumber ≤ latest := by
      refine (holdsPairs_merge hb).congr fun l => ?_
      rw [inSlice, List.mem_filter, decide_eq_true_eq, ← and_or_left]
      refine and_congr_right fun _ => ?_
      omega
    have henv₂ : ∀ e ∈ t₂, e.ans = env e.op := fun e he => henv e (List.mem_append_right _ he)
    dsimp only at h₂
    split at h₂
    · rename_i hzero
      obtain ⟨rfl, rfl⟩ := runs_pure.mp h₂
      refine ⟨_, rfl, ?_, by dsimp only; omega, hb', fun _ => Or.inl hzero⟩
      rw [List.append_nil]
      omega
    rcases runs_bind.mp h₂ with ⟨stamp, t₃, t₄, rfl, h₃, h₄⟩ | ⟨e, h₃, rfl⟩
    swap
    · obtain ⟨hr, -⟩ := hnode.blockTimestamp h₃ henv₂
      cases hr
    obtain ⟨hr, hlen₃⟩ := hnode.blockTimestamp h₃ fun e he => henv₂ e (List.mem_append_left _ he)
    cases hr
    split at h₄
    · rename_i hlt
      obtain ⟨rfl, rfl⟩ := runs_pure.mp h₄
      refine ⟨_, rfl, ?_, by dsimp only; omega, hb', fun _ => Or.inr hlt⟩
      rw [List.append_nil, List.length_append]
      omega
    · have hnext : Runs (Clif.scanBack fsm epoch kind target reqs chunk'
          ((backSlice hi chunk').1 - 1) (merge b (inSlice logs hi chunk'))
          ((backSlice hi chunk').1 - 1 + 1)) t₄ r := by
        rw [Int.sub_add_cancel]
        exact h₄
      obtain ⟨x, hx, hlen, hle, hholds, hcomplete⟩ := ih hpos' hchunk' (by omega) hnext
        (fun e he => henv₂ e (List.mem_append_right _ he)) (by rw [Int.sub_add_cancel]; exact hb')
      refine ⟨x, hx, ?_, hle, hholds, hcomplete⟩
      rw [List.length_append, List.length_append]
      omega

end

/-- A whole number that is not below `x` is not below what `int(x)` makes of it. -/
theorem truncRat_le {x : ℚ} {n : Int} (h : x ≤ n) : truncRat x ≤ n := by
  have hden : (0 : Int) < x.den := Int.natCast_pos.mpr x.den_pos
  have hnum : x.num ≤ n * x.den := by
    have hle := (Rat.le_iff x n).mp h
    rwa [Rat.den_intCast, Rat.num_intCast, Int.natCast_one, Int.mul_one] at hle
  unfold truncRat
  by_cases hneg : 0 ≤ x.num
  · rw [Int.tdiv_eq_ediv_of_nonneg hneg]
    exact Int.ediv_le_of_le_mul hden hnum
  · have hpos : 0 ≤ -x.num := by omega
    have hdiv : -n ≤ (-x.num) / x.den := by
      rw [Int.le_ediv_iff_mul_le hden]
      rw [Int.neg_mul]
      omega
    have hneg' : x.num.tdiv x.den = -((-x.num).tdiv x.den) := by
      rw [Int.neg_tdiv, neg_neg]
    rw [hneg', Int.tdiv_eq_ediv_of_nonneg hpos]
    omega

/-- `_scan_window` returns within its budget.  It holds exactly the pairs of the logs from the block
it stopped at up to the head; if it says complete, no block since the end of the epoch is below; and
the weight that leads in it is at most the one that leads in all the logs up to the head. -/
theorem scanWindow_spec [External] {env : (op : Op) → op.Ans} {fsm : String} {epoch : Int}
    {kind : SigningKind} {logs : List SignedLog} {ts : Int → Int} {cap : Nat}
    (hnode : CappedNode env fsm epoch kind logs ts cap) (latest : Int) (epochEndTs : ℚ) :
    let scan := exec env (scanWindow fsm epoch kind latest (truncRat epochEndTs))
    ∃ byHash scannedFrom complete, scan.2 = .ok (byHash, scannedFrom, complete) ∧
      scan.1.length ≤ 3 * maxRequests ∧ scannedFrom ≤ latest + 1 ∧
      HoldsPairs byHash (fun l => l ∈ logs ∧ scannedFrom ≤ l.blockNumber ∧
        l.blockNumber ≤ latest) ∧
      (complete = true → ∀ block, 0 ≤ block → epochEndTs ≤ ts block → scannedFrom ≤ block) ∧
      ∀ (full : ByHash) (weight : String → Int) (w w' : Weights),
        HoldsPairs full (fun l => l ∈ logs ∧ l.blockNumber ≤ latest) → (∀ spa, 0 ≤ weight spa) →
        (∀ spa ∈ allSigners byHash, w.of spa = weight spa) →
        (∀ spa ∈ allSigners full, w'.of spa = weight spa) →
        ∀ total ppm ourSpa ourSpa' complete' scannedFrom',
          (aggregate epoch kind byHash w total ppm ourSpa complete scannedFrom).signedWeight ≤
            (aggregate epoch kind full w' total ppm ourSpa' complete'
              scannedFrom').signedWeight := by
  intro scan
  have hruns : Runs (scanWindow fsm epoch kind latest (truncRat epochEndTs)) scan.1 scan.2 :=
    exec_runs ..
  have hempty : HoldsPairs Dict.empty
      fun l => l ∈ logs ∧ latest + 1 ≤ l.blockNumber ∧ l.blockNumber ≤ latest :=
    holdsPairs_empty.congr fun l => by
      refine iff_of_false id fun h => ?_
      omega
  obtain ⟨⟨byHash, scannedFrom, complete⟩, hr, hlen, hle, hholds, hcomplete⟩ :=
    hnode.scanBack (by decide) le_rfl le_rfl hruns (Prog.exec_answers _ _) hempty
  refine ⟨byHash, scannedFrom, complete, hr, hlen, hle, hholds, fun hc block hblock hend => ?_, ?_⟩
  · rcases hcomplete hc with hzero | hlt
    · rw [show scannedFrom = 0 from hzero]
      exact hblock
    · -- an older block would have a time before the end of the epoch
      by_contra hnot
      have hts := hnode.ts_mono block scannedFrom (not_le.mp hnot).le
      have htrunc := truncRat_le hend
      dsimp only at hlt
      omega
  · intro full weight w w' hfull hweight hw hw' total ppm ourSpa ourSpa' complete' scannedFrom'
    have hsigner : ∀ {b : ByHash} {P : SignedLog → Prop}, HoldsPairs b P → ∀ l, P l →
        l.signingPolicyAddress ∈ allSigners b := fun hb l hl =>
      mem_allSigners.mpr ⟨l.messageHash, (hb.pairs _ _).mpr ⟨l, hl, rfl, rfl⟩⟩
    exact hholds.lead_le hfull (fun l hl => ⟨hl.1, hl.2.2⟩) hweight
      (fun l hl => hw _ (hsigner hholds l hl)) (fun l hl => hw' _ (hsigner hfull l hl))

/-! ### A node with a cap of 30 blocks -/

/-- The hash, the time and the flag of a vote. -/
def earlyData : Bytes := List.replicate 32 17 ++ List.replicate 64 0

/-- An address in a topic, after 12 bytes of zeros. -/
def topicOf (address : Bytes) : String := hashHex (List.replicate 12 0 ++ address)

/-- A vote for the uptime in block 90, as the node returns it. -/
def earlyLog : RawLog :=
  { topics := ["", "", topicOf (List.replicate 20 2), topicOf (List.replicate 20 3)]
    data := "0x" ++ Py.toHex earlyData
    blockNumber := "0x5a" }

def earlyVote : SignedLog :=
  { signingPolicyAddress := hashHex (List.replicate 20 2)
    voter := hashHex (List.replicate 20 3)
    messageHash := hashHex (List.replicate 32 17)
    thresholdReached := false
    timestamp := 0
    blockNumber := 90 }

/-- One block a second, and at most 30 blocks a request. -/
def cappedWorld : (op : Op) → op.Ans
  | .rpc (.signedLogs _ _ lo hi _) =>
    if 30 < hi - lo + 1 then .error "requested too many blocks, maximum is set to 30"
    else .result (if lo ≤ 90 ∧ 90 ≤ hi then [earlyLog] else [])
  | .rpc (.blockTimestamp b) => .result (some b)
  | op => deafWorld op

theorem lower_topicOf {address : Bytes} (h : address.length = 20) :
    Py.lower ("0x" ++ Py.lastChars (topicOf address) 40) = hashHex address := by
  have hlength : (Py.toHex address).length = 40 := by rw [Py.length_toHex, h]
  rw [topicOf, hashHex, Py.toHex_append, ← String.append_assoc, Py.lastChars_append hlength]
  exact lower_hashHex address

theorem decodeSignedLog_ok [External] {kind : SigningKind} {entry : RawLog}
    {t0 t1 t2 t3 : String} {data hash : Bytes} {decoded : List AbiValue} {ts block : Int}
    {reached : Bool} (ht : entry.topics = [t0, t1, t2, t3])
    (hd : Py.fromHex (Py.removePrefix entry.data "0x") = some data)
    (ha : abiDecode kind.dataTypes data = .ok decoded)
    (hs : signedFields kind decoded = some (hash, ts, reached))
    (hb : Py.intHex? entry.blockNumber = some block) :
    decodeSignedLog kind entry = .ok (some
      { signingPolicyAddress := Py.lower ("0x" ++ Py.lastChars t2 40)
        voter := Py.lower ("0x" ++ Py.lastChars t3 40)
        messageHash := hashHex hash
        thresholdReached := reached
        timestamp := ts
        blockNumber := block }) := by
  unfold decodeSignedLog
  simp only [ht, hd, ha, hs, hb]
  rfl

theorem earlyData_decoded :
    ∃ decoded, @abiDecode External.static SigningKind.uptime.dataTypes earlyData = .ok decoded ∧
      signedFields .uptime decoded = some (List.replicate 32 17, 0, false) := by
  have hfields : (match @abiDecode External.static SigningKind.uptime.dataTypes earlyData with
    | .ok decoded => signedFields .uptime decoded
    | .error _ => none) = some (List.replicate 32 17, 0, false) := by decide +kernel
  cases h : @abiDecode External.static SigningKind.uptime.dataTypes earlyData with
  | error e =>
    rw [h] at hfields
    cases hfields
  | ok decoded =>
    rw [h] at hfields
    exact ⟨decoded, rfl, hfields⟩

theorem earlyLog_data : Py.fromHex (Py.removePrefix earlyLog.data "0x") = some earlyData := by
  show Py.fromHex (Py.removePrefix ("0x" ++ Py.toHex earlyData) "0x") = some earlyData
  rw [Py.removePrefix_append, Py.fromHex_toHex]

theorem decode_earlyLog :
    @decodeSignedLog External.static .uptime earlyLog = .ok (some earlyVote) := by
  obtain ⟨decoded, ha, hs⟩ := earlyData_decoded
  have h := @decodeSignedLog_ok External.static .uptime earlyLog _ _ _ _ _ _ _ _ _ _ rfl
    earlyLog_data ha hs rfl
  rw [lower_topicOf List.length_replicate, lower_topicOf List.length_replicate] at h
  exact h

theorem cappedWorld_served {lo hi : Int} (h : hi - lo + 1 ≤ 30) :
    ∃ raw, cappedWorld (.rpc (.signedLogs "" 5 lo hi .uptime)) = .result raw ∧
      @decodeSignedLogs External.static .uptime raw =
        .ok ([earlyVote].filter fun l => lo ≤ l.blockNumber ∧ l.blockNumber ≤ hi) := by
  refine ⟨_, if_neg (not_lt.mpr h), ?_⟩
  by_cases hin : lo ≤ 90 ∧ 90 ≤ hi
  · have hfilter : [earlyVote].filter (fun l => lo ≤ l.blockNumber ∧ l.blockNumber ≤ hi) =
        [earlyVote] := by simp [earlyVote, hin]
    rw [hfilter]
    simp only [hin, and_self, if_true, decodeSignedLogs, decode_earlyLog]
    rfl
  · have hfilter : [earlyVote].filter (fun l => lo ≤ l.blockNumber ∧ l.blockNumber ≤ hi) = [] := by
      simpa [earlyVote] using hin
    rw [hfilter]
    simp only [hin, if_false, decodeSignedLogs]

theorem cappedWorld_node :
    @CappedNode External.static cappedWorld "" 5 .uptime [earlyVote] id 30 :=
  @CappedNode.mk External.static _ _ _ _ _ _ _ (by decide) (fun _ _ => id)
    (fun _ _ h => ⟨"requested too many blocks, maximum is set to 30", if_pos h,
      "requested too many blocks, ".toList, [], by decide, by decide, fun c hc => (by cases hc)⟩)
    (fun _ _ h => cappedWorld_served h) fun _ => rfl

/-- The scan of that node from block 100. -/
theorem cappedWorld_scan : ∃ byHash scannedFrom complete,
    (exec cappedWorld (@scanWindow External.static "" 5 .uptime 100 (truncRat 50))).2 =
      .ok (byHash, scannedFrom, complete) ∧
    HoldsPairs byHash fun l => l ∈ [earlyVote] ∧ scannedFrom ≤ l.blockNumber ∧
      l.blockNumber ≤ 100 := by
  obtain ⟨byHash, scannedFrom, complete, hr, -, -, hholds, -⟩ :=
    @scanWindow_spec External.static _ _ _ _ _ _ _ cappedWorld_node 100 50
  exact ⟨byHash, scannedFrom, complete, hr, hholds⟩

end Clif
