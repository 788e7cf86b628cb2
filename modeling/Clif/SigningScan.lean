import Clif.Effect.Run
import Clif.Tally

/-!
# SigningScan — the cached scan of the signing events against the full one

A `Chain` is what an honest node tells about the signing events, up to the head of the moment.
Each loop of the scan gets one specification over such a node; `refresh_eq_fresh` puts them
together over the calls on one cache.
-/

namespace Clif

open Effect

/-! ## The chain -/

/-- The signing events and the facts of an epoch that never change. -/
structure Chain where
  logs : Int → SigningKind → List SignedLog
  ts : Int → Int
  weight : Int → String → Int
  voter : Int → String → String
  sums : Int → Int × Int × Int
  ppm : Int
  logged_once : ∀ epoch kind, LoggedOnce fun l => l ∈ logs epoch kind
  block_nonneg : ∀ epoch kind, ∀ l ∈ logs epoch kind, 0 ≤ l.blockNumber
  ts_mono : ∀ b b', b ≤ b' → ts b ≤ ts b'

namespace Chain

variable (c : Chain) (epoch : Int) (kind : SigningKind)

/-- The logs of a range of blocks. -/
def between (lo hi : Int) : List SignedLog :=
  (c.logs epoch kind).filter fun l => lo ≤ l.blockNumber ∧ l.blockNumber ≤ hi

/-- The logs a chain with this head has. -/
def upTo (head : Int) : List SignedLog :=
  (c.logs epoch kind).filter fun l => l.blockNumber ≤ head

variable {c epoch kind}

theorem mem_between {lo hi : Int} {l : SignedLog} : l ∈ c.between epoch kind lo hi ↔
    l ∈ c.logs epoch kind ∧ lo ≤ l.blockNumber ∧ l.blockNumber ≤ hi := by
  simp [between]

theorem mem_upTo {head : Int} {l : SignedLog} :
    l ∈ c.upTo epoch kind head ↔ l ∈ c.logs epoch kind ∧ l.blockNumber ≤ head := by
  simp [upTo]

end Chain

/-- The dictionary holds every log up to the block `lo` and none above `hi`. -/
def Spans (c : Chain) (epoch : Int) (kind : SigningKind) (b : ByHash) (lo hi : Int) : Prop :=
  ∃ P, Holds b P ∧ (∀ l, P l → l ∈ c.logs epoch kind ∧ l.blockNumber ≤ hi) ∧
    ∀ l ∈ c.logs epoch kind, l.blockNumber ≤ lo → P l

section

variable {c : Chain} {epoch : Int} {kind : SigningKind} {b : ByHash} {lo hi : Int}

theorem Spans.mono (h : Spans c epoch kind b lo hi) {lo' hi' : Int} (hlo : lo' ≤ lo)
    (hhi : hi ≤ hi') : Spans c epoch kind b lo' hi' := by
  obtain ⟨P, hP, hup, hlow⟩ := h
  exact ⟨P, hP, fun l hl => ⟨(hup l hl).1, le_trans (hup l hl).2 hhi⟩,
    fun l hl hb => hlow l hl (le_trans hb hlo)⟩

theorem Spans.holds (h : Spans c epoch kind b hi hi) :
    Holds b fun l => l ∈ c.upTo epoch kind hi := by
  obtain ⟨P, hP, hup, hlow⟩ := h
  refine hP.congr fun l => ?_
  rw [Chain.mem_upTo]
  exact ⟨hup l, fun hl => hlow l hl.1 hl.2⟩

/-- Merging the next slice. -/
theorem Spans.merge (h : Spans c epoch kind b lo hi) {top : Int} (htop : top ≤ hi) :
    Spans c epoch kind (merge b (c.between epoch kind (lo + 1) top)) (max lo top) hi := by
  obtain ⟨P, hP, hup, hlow⟩ := h
  have hsub : ∀ l, P l ∨ l ∈ c.between epoch kind (lo + 1) top →
      l ∈ c.logs epoch kind ∧ l.blockNumber ≤ hi := by
    rintro l (hl | hl)
    · exact hup l hl
    · have := Chain.mem_between.mp hl
      exact ⟨this.1, by omega⟩
  refine ⟨_, holds_merge (fun l l' hl hl' => c.logged_once epoch kind l l' (hsub l hl).1
    (hsub l' hl').1) hP, hsub, fun l hl hb => ?_⟩
  by_cases hle : l.blockNumber ≤ lo
  · exact Or.inl (hlow l hl hle)
  · refine Or.inr (Chain.mem_between.mpr ⟨hl, ?_, ?_⟩) <;> omega

end

/-! ## The node -/

section

variable [External]

/-- The answer is the chain's, or none: a node may fail whenever it likes. -/
def Honest (c : Chain) (head : Int) : Event sig → Prop
  | ⟨.rpc .blockNumber, .result n⟩ => n = head
  | ⟨.rpc (.signedLogs _ epoch lo hi kind), .result raw⟩ =>
    decodeSignedLogs kind raw = .ok (c.between epoch kind lo hi)
  | ⟨.rpc (.blockTimestamp b), .result (some ts)⟩ => ts = c.ts b
  | ⟨.rpc (.weightsSums _ epoch), .result sums⟩ => sums = c.sums epoch
  | ⟨.rpc (.signingPolicyThresholdPpm _), .result ppm⟩ => ppm = c.ppm
  | ⟨.rpc (.voterNormalisedWeight _ epoch spa), .result vw⟩ =>
    vw = (c.voter epoch spa, c.weight epoch spa)
  | _ => True

/-- A range cap that a refusal names is at least `k`. -/
def CapOk (k : Nat) : Event sig → Prop
  | ⟨.rpc (.signedLogs ..), a⟩ => ∀ msg, rpcResult "eth_getLogs" a = .error (.rpcError msg) →
    ∀ cap, parseBlockCap msg = .ok (some cap) → cap ≠ 0 → k ≤ cap
  | _ => True

variable {c : Chain} {head : Int} {t : Trace}

theorem signedLogs_ok {fsm : String} {epoch lo hi : Int} {kind : SigningKind}
    {logs : List SignedLog} (h : Runs (signedLogs fsm epoch lo hi kind) t (.ok logs))
    (hh : ∀ e ∈ t, Honest c head e) : logs = c.between epoch kind lo hi := by
  obtain ⟨a, t', rfl, hr⟩ := runs_rpc_bind.mp h
  rcases hr with ⟨raw, hraw, h₁⟩ | ⟨e, -, -, he⟩
  · obtain ⟨rfl, hdec⟩ := runs_fromExcept.mp h₁
    have hhon : Honest c head _ := hh _ (List.mem_singleton_self _)
    rw [rpcResult_eq_ok hraw] at hhon
    rw [show decodeSignedLogs kind raw = .ok (c.between epoch kind lo hi) from hhon] at hdec
    exact Except.ok.inj hdec
  · cases he

/-- A refusal of an honest node comes from the exchange itself. -/
theorem signedLogs_error {fsm : String} {epoch lo hi : Int} {kind : SigningKind} {msg : String}
    (h : Runs (signedLogs fsm epoch lo hi kind) t (.error (.rpcError msg)))
    (hh : ∀ e ∈ t, Honest c head e) :
    ∃ a, t = [⟨.rpc (.signedLogs fsm epoch lo hi kind), a⟩] ∧
      rpcResult "eth_getLogs" a = .error (.rpcError msg) := by
  obtain ⟨a, t', rfl, hr⟩ := runs_rpc_bind.mp h
  rcases hr with ⟨raw, hraw, h₁⟩ | ⟨e, herr, rfl, he⟩
  · obtain ⟨rfl, hdec⟩ := runs_fromExcept.mp h₁
    have hhon : Honest c head _ := hh _ (List.mem_singleton_self _)
    rw [rpcResult_eq_ok hraw] at hhon
    rw [show decodeSignedLogs kind raw = .ok (c.between epoch kind lo hi) from hhon] at hdec
    cases hdec
  · cases he
    exact ⟨a, rfl, herr⟩

theorem fetchSlice_ok {fsm : String} {epoch : Int} {kind : SigningKind} {slice : Nat → Int × Int} :
    ∀ {n chunk : Nat} {t : Trace} {x : List SignedLog × Nat},
      Runs (fetchSlice fsm epoch kind slice n chunk) t (.ok x) → (∀ e ∈ t, Honest c head e) →
      x.1 = c.between epoch kind (slice x.2).1 (slice x.2).2 ∧ (0 < chunk → 0 < x.2) ∧
        ∀ k, (∀ e ∈ t, CapOk k e) → k ≤ chunk → k ≤ x.2 := by
  intro n
  induction n with
  | zero =>
    intro chunk t x h hh
    obtain ⟨logs, t₁, t₂, rfl, h₁, h₂⟩ := runs_bind_eq_ok h
    obtain ⟨rfl, hx⟩ := runs_pure.mp h₂
    cases hx
    exact ⟨signedLogs_ok h₁ fun e he => hh e (List.mem_append_left _ he), id, fun _ _ => id⟩
  | succ n ih =>
    intro chunk t x h hh
    obtain ⟨y, t₁, t₂, rfl, h₁, h₂⟩ := runs_attempt_bind.mp h
    have hh₁ : ∀ e ∈ t₁, Honest c head e := fun e he => hh e (List.mem_append_left _ he)
    have hh₂ : ∀ e ∈ t₂, Honest c head e := fun e he => hh e (List.mem_append_right _ he)
    split at h₂
    · obtain ⟨rfl, hx⟩ := runs_pure.mp h₂
      cases hx
      exact ⟨signedLogs_ok h₁ hh₁, id, fun _ _ => id⟩
    · rename_i msg
      rcases runs_fromExcept_bind.mp h₂ with ⟨cap, hcap, h₃⟩ | ⟨e, -, -, he⟩
      swap
      · cases he
      dsimp only at h₃
      split at h₃
      · -- the node named a smaller cap: the slice is asked for again
        rename_i hlt
        obtain ⟨hlogs, hpos, hk⟩ := ih h₃ hh₂
        refine ⟨hlogs, fun _ => hpos (Nat.pos_of_ne_zero hlt.1), fun k hcaps hkc => ?_⟩
        refine hk k (fun e he => hcaps e (List.mem_append_right _ he)) ?_
        obtain ⟨a, rfl, ha⟩ := signedLogs_error h₁ hh₁
        cases cap with
        | none => exact absurd rfl hlt.1
        | some cap =>
          exact hcaps _ (List.mem_append_left _ (List.mem_singleton_self _)) msg ha cap hcap hlt.1
      · cases (runs_throw.mp h₃).2
    · cases (runs_throw.mp h₂).2

/-! ## The backward scan -/

/-- A complete backward scan holds the logs from the block it stopped at; it stops at block 0, or
at a block before the target. -/
theorem scanBack_ok {fsm : String} {epoch : Int} {kind : SigningKind} {target latest : Int} :
    ∀ {reqs chunk : Nat} {hi : Int} {b : ByHash} {from' : Int} {t : Trace}
      {x : ByHash × Int × Bool}, 0 < chunk → hi ≤ latest →
      Runs (scanBack fsm epoch kind target reqs chunk hi b from') t (.ok x) →
      (∀ e ∈ t, Honest c head e) →
      Holds b (fun l => l ∈ c.between epoch kind (hi + 1) latest) → x.2.2 = true →
      Holds x.1 (fun l => l ∈ c.between epoch kind x.2.1 latest) ∧
        (x.2.1 = 0 ∨ c.ts x.2.1 < target) := by
  intro reqs
  induction reqs with
  | zero =>
    intro chunk hi b from' t x _ _ h _ _ hcomplete
    obtain ⟨-, hx⟩ := runs_pure.mp h
    cases hx
    cases hcomplete
  | succ reqs ih =>
    intro chunk hi b from' t x hchunk hhi h hh hb hcomplete
    unfold scanBack at h
    split at h
    · obtain ⟨-, hx⟩ := runs_pure.mp h
      cases hx
      cases hcomplete
    rename_i hneg
    obtain ⟨fetched, t₁, t₂, rfl, h₁, h₂⟩ := runs_bind_eq_ok h
    obtain ⟨hlogs, hpos, -⟩ := fetchSlice_ok h₁ fun e he => hh e (List.mem_append_left _ he)
    have hpos := hpos hchunk
    have hlo : (backSlice hi fetched.2).1 ≤ hi ∧ 0 ≤ (backSlice hi fetched.2).1 := by
      unfold backSlice
      dsimp only
      omega
    have hmem : ∀ l, (l ∈ c.between epoch kind (hi + 1) latest ∨ l ∈ fetched.1) ↔
        l ∈ c.between epoch kind (backSlice hi fetched.2).1 latest := by
      intro l
      rw [hlogs, Chain.mem_between, Chain.mem_between, Chain.mem_between, ← and_or_left]
      refine and_congr_right fun _ => ?_
      show _ ∨ _ ∧ l.blockNumber ≤ hi ↔ _
      omega
    have hb' : Holds (merge b fetched.1)
        fun l => l ∈ c.between epoch kind (backSlice hi fetched.2).1 latest := by
      refine (holds_merge (fun l l' hl hl' => c.logged_once epoch kind l l' ?_ ?_) hb).congr hmem
      · exact (Chain.mem_between.mp ((hmem l).mp hl)).1
      · exact (Chain.mem_between.mp ((hmem l').mp hl')).1
    dsimp only at h₂
    split at h₂
    · rename_i hzero
      obtain ⟨-, hx⟩ := runs_pure.mp h₂
      cases hx
      exact ⟨hb', Or.inl hzero⟩
    obtain ⟨ts, t₃, t₄, rfl, h₃, h₄⟩ := runs_bind_eq_ok h₂
    have hh₂ : ∀ e ∈ t₃ ++ t₄, Honest c head e := fun e he => hh e (List.mem_append_right _ he)
    split at h₄
    · rename_i hlt
      obtain ⟨-, hx⟩ := runs_pure.mp h₄
      cases hx
      refine ⟨hb', Or.inr ?_⟩
      obtain ⟨a, t₅, rfl, hr⟩ := runs_rpc_bind.mp h₃
      rcases hr with ⟨o, ho, h₅⟩ | ⟨e, -, -, he⟩
      swap
      · cases he
      cases o with
      | none => cases (runs_throw.mp h₅).2
      | some ts' =>
        obtain ⟨rfl, hts⟩ := runs_pure.mp h₅
        cases hts
        have hhon : Honest c head _ := hh₂ _ (List.mem_append_left _ (List.mem_singleton_self _))
        rw [rpcResult_eq_ok ho] at hhon
        rw [← show ts = c.ts _ from hhon]
        exact hlt
    · refine ih hpos (by omega) h₄ (fun e he => hh₂ e (List.mem_append_right _ he)) ?_ hcomplete
      rw [Int.sub_add_cancel]
      exact hb'

/-! ## The forward scan -/

/-- The forward scan adds logs of the chain, and reaches `hi` if it returns within its budget. -/
theorem scanOn_spans {fsm : String} {epoch : Int} {kind : SigningKind} {hi : Int} :
    ∀ {reqs chunk : Nat} {cur : Int} {b b' : ByHash} {t : Trace} {r : Except Exc Unit},
      0 < chunk → RunsOn (scanOn fsm epoch kind hi reqs chunk cur) b t r b' →
      (∀ e ∈ t, Honest c head e) → Spans c epoch kind b (cur - 1) hi →
      ∃ lo, cur - 1 ≤ lo ∧ Spans c epoch kind b' lo hi ∧
        (r = .ok () → ∀ k : Nat, (∀ e ∈ t, CapOk k e) → k ≤ chunk → hi - cur + 1 ≤ reqs * k →
          hi ≤ lo) := by
  intro reqs
  induction reqs with
  | zero =>
    intro chunk cur b b' t r _ h _ hs
    obtain ⟨-, -, rfl⟩ := runsOn_pure.mp h
    exact ⟨cur - 1, le_refl _, hs, fun _ k _ _ hbudget => by simp at hbudget; omega⟩
  | succ reqs ih =>
    intro chunk cur b b' t r hchunk h hh hs
    unfold scanOn at h
    split at h
    · obtain ⟨-, -, rfl⟩ := runsOn_pure.mp h
      exact ⟨cur - 1, le_refl _, hs, fun _ _ _ _ _ => by omega⟩
    rename_i hcur
    rcases runsOn_lift_bind.mp h with ⟨fetched, t₁, t₂, rfl, h₁, h₂⟩ | ⟨e, -, rfl, rfl⟩
    swap
    · exact ⟨cur - 1, le_refl _, hs, fun hr => by cases hr⟩
    obtain ⟨hlogs, hpos, hcap⟩ := fetchSlice_ok h₁ fun e he => hh e (List.mem_append_left _ he)
    have hpos := hpos hchunk
    have htop : (forwardSlice cur hi fetched.2).2 ≤ hi := min_le_left ..
    have htop' : cur ≤ (forwardSlice cur hi fetched.2).2 := by
      unfold forwardSlice
      dsimp only
      omega
    have h₃ := runsOn_modify_bind.mp h₂
    have hs' := hs.merge htop
    rw [Int.sub_add_cancel, max_eq_right (by omega)] at hs'
    rw [hlogs] at h₃
    obtain ⟨lo, hlo, hspan, hreach⟩ := ih hpos h₃
      (fun e he => hh e (List.mem_append_right _ he)) (by rw [Int.add_sub_cancel]; exact hs')
    refine ⟨lo, by omega, hspan, fun hr k hcaps hk hbudget => ?_⟩
    have hk' := hcap k (fun e he => hcaps e (List.mem_append_left _ he)) hk
    refine hreach hr k (fun e he => hcaps e (List.mem_append_right _ he)) hk' ?_
    -- one request fewer, and at least `k` blocks further, or at the head
    rw [Int.natCast_add, Int.natCast_one, Int.add_mul, Int.one_mul] at hbudget
    have hnn : (0 : Int) ≤ reqs * k := Int.mul_nonneg (Int.natCast_nonneg _) (Int.natCast_nonneg _)
    rcases min_choice hi (cur + fetched.2 - 1) with hm | hm
    · have : (forwardSlice cur hi fetched.2).2 = hi := hm
      omega
    · have : (forwardSlice cur hi fetched.2).2 = cur + fetched.2 - 1 := hm
      omega

/-! ## Weights -/

/-- The cached weights are the chain's. -/
def WeightsOk (c : Chain) (epoch : Int) (w : Weights) : Prop :=
  ∀ spa v, w.weightOf.get? spa = some v → v = c.weight epoch spa

omit [External] in
theorem WeightsOk.of_eq {epoch : Int} {w : Weights} (h : WeightsOk c epoch w) {spa : String}
    (hin : w.weightOf.contains spa = true) : w.of spa = c.weight epoch spa := by
  obtain ⟨v, hv⟩ := Option.isSome_iff_exists.mp hin
  rw [Weights.of, hv, Option.getD_some, h spa v hv]

theorem lookupEach_spec {vr : String} {epoch : Int} :
    ∀ {spas : List String} {w w' : Weights} {t : Trace} {r : Except Exc Unit},
      RunsOn (lookupEach vr epoch spas) w t r w' → (∀ e ∈ t, Honest c head e) →
      WeightsOk c epoch w → WeightsOk c epoch w' ∧
        (∀ spa, w.weightOf.contains spa = true → w'.weightOf.contains spa = true) ∧
        (r = .ok () → ∀ spa ∈ spas, w'.weightOf.contains spa = true) := by
  intro spas
  induction spas with
  | nil =>
    intro w w' t r h _ hw
    obtain ⟨-, -, rfl⟩ := runsOn_pure.mp h
    exact ⟨hw, fun _ => id, fun _ spa hspa => by cases hspa⟩
  | cons spa spas ih =>
    intro w w' t r h hh hw
    unfold lookupEach at h
    have h₁ := runsOn_get_bind.mp h
    split at h₁
    · rename_i hknown
      obtain ⟨hw', hkeep, hall⟩ := ih h₁ hh hw
      refine ⟨hw', hkeep, fun hr => List.forall_mem_cons.mpr ⟨hkeep spa hknown, hall hr⟩⟩
    · obtain ⟨a, t₁, rfl, hr⟩ := runsOn_rpc_bind.mp h₁
      rcases hr with ⟨vw, hvw, h₂⟩ | ⟨e, -, -, rfl, rfl⟩
      swap
      · exact ⟨hw, fun _ => id, fun hr => by cases hr⟩
      have hhon : Honest c head _ := hh _ (List.mem_cons_self ..)
      rw [rpcResult_eq_ok hvw] at hhon
      have hvw' : vw = (c.voter epoch spa, c.weight epoch spa) := hhon
      have hlearn : WeightsOk c epoch (w.learn spa vw.1 vw.2) := by
        intro spa' v hv
        rw [Weights.learn, Dict.get?_set] at hv
        split at hv
        · rename_i heq
          rw [← heq, ← Option.some.inj hv, hvw']
        · exact hw spa' v hv
      obtain ⟨hw', hkeep, hall⟩ := ih (runsOn_modify_bind.mp h₂)
        (fun e he => hh e (List.mem_cons_of_mem _ he)) hlearn
      have hget : ∀ spa', (w.learn spa vw.1 vw.2).weightOf.contains spa' =
          (decide (spa = spa') || w.weightOf.contains spa') := by
        intro spa'
        rw [Weights.learn, Dict.contains, Dict.get?_set]
        by_cases heq : spa = spa' <;> simp [heq, Dict.contains]
      refine ⟨hw', fun spa' hin => hkeep spa' ?_, fun hr => List.forall_mem_cons.mpr ⟨?_, hall hr⟩⟩
      · rw [hget, hin, Bool.or_true]
      · refine hkeep spa ?_
        rw [hget]
        simp

/-! ## The entry of the cache -/

/-- What a complete entry knows of the chain, whose head has never been above `top`. -/
structure EntryOk (c : Chain) (epoch : Int) (kind : SigningKind) (top : Int) (st : CacheEntry) :
    Prop where
  scannedHi_le : st.scannedHi ≤ top
  spans : Spans c epoch kind st.byHash st.scannedHi top
  weights : WeightsOk c epoch st.weights
  total : st.total = (c.sums epoch).2.1
  ppm : st.ppm = c.ppm

omit [External] in
theorem EntryOk.mono {epoch : Int} {kind : SigningKind} {top top' : Int} {st : CacheEntry}
    (h : EntryOk c epoch kind top st) (hle : top ≤ top') : EntryOk c epoch kind top' st :=
  ⟨le_trans h.scannedHi_le hle, h.spans.mono (le_refl _) hle, h.weights, h.total, h.ppm⟩

omit [External] in
/-- Only the weights of the entry change. -/
theorem fillWeights_frame {vr : String} {epoch : Int} {st st' : CacheEntry} {t : Trace}
    {r : Except Exc Unit} (h : RunsOn (fillWeights vr epoch) st t r st') :
    ∃ w, RunsOn (lookupWeights vr epoch st.byHash) st.weights t r w ∧
      st' = { st with weights := w } := by
  have h₁ := runsOn_get_bind.mp h
  exact runsOn_focus.mp h₁

theorem fillWeights_spec {vr : String} {epoch : Int} {st st' : CacheEntry} {t : Trace}
    {r : Except Exc Unit} (h : RunsOn (fillWeights vr epoch) st t r st')
    (hh : ∀ e ∈ t, Honest c head e) (hw : WeightsOk c epoch st.weights) :
    ∃ w, st' = { st with weights := w } ∧ WeightsOk c epoch w ∧
      (r = .ok () → ∀ spa ∈ allSigners st.byHash, w.of spa = c.weight epoch spa) := by
  obtain ⟨w, h₁, rfl⟩ := fillWeights_frame h
  obtain ⟨hw', -, hall⟩ := lookupEach_spec h₁ hh hw
  exact ⟨w, rfl, hw', fun hr spa hspa => hw'.of_eq (hall hr spa hspa)⟩

/-- The signatures of an epoch come after its end. -/
def InWindow (c : Chain) (endTs : Int → Int) : Prop :=
  ∀ epoch kind, ∀ l ∈ c.logs epoch kind, endTs epoch ≤ c.ts l.blockNumber

variable {endTs : Int → Int} {net : NetworkConfig} {epoch : Int} {kind : SigningKind}

theorem scanBase_spec (hwin : InWindow c endTs) {st : CacheEntry}
    (h : Runs (scanBase net epoch kind head (endTs epoch)) t (.ok st))
    (hh : ∀ e ∈ t, Honest c head e) :
    st.baseComplete = true → EntryOk c epoch kind head st ∧ st.scannedHi = head := by
  obtain ⟨window, t₁, t₂, rfl, h₁, h₂⟩ := runs_bind_eq_ok h
  obtain ⟨a, t₃, rfl, hr⟩ := runs_rpc_bind.mp h₂
  rcases hr with ⟨sums, hsums, h₃⟩ | ⟨e, -, -, he⟩
  swap
  · cases he
  obtain ⟨a₂, t₄, rfl, hr⟩ := runs_rpc_bind.mp h₃
  rcases hr with ⟨ppm, hppm, h₄⟩ | ⟨e, -, -, he⟩
  swap
  · cases he
  obtain ⟨rfl, hst⟩ := runs_pure.mp h₄
  cases hst
  refine fun hcomplete => ⟨⟨le_refl _, ?_, ?_, ?_, ?_⟩, rfl⟩
  · have hempty : Holds Dict.empty fun l => l ∈ c.between epoch kind (head + 1) head := by
      refine holds_empty.congr fun l => ⟨False.elim, fun hl => ?_⟩
      have := (Chain.mem_between.mp hl).2
      omega
    obtain ⟨hholds, hstop⟩ := scanBack_ok (by decide) (le_refl head) h₁
      (fun e he => hh e (List.mem_append_left _ he)) hempty hcomplete
    refine ⟨_, hholds, fun l hl => ?_, fun l hl hb => ?_⟩
    · obtain ⟨hl, -, hb⟩ := Chain.mem_between.mp hl
      exact ⟨hl, hb⟩
    · refine Chain.mem_between.mpr ⟨hl, ?_, hb⟩
      -- a log below the window would be older than the end of the epoch
      rcases hstop with h0 | hts
      · rw [h0]
        exact c.block_nonneg epoch kind l hl
      · by_contra hlt
        have hend := hwin epoch kind l hl
        have hmono := c.ts_mono l.blockNumber window.2.1 (by omega)
        omega
  · intro spa v hv
    simp [Weights.empty] at hv
  · have hhon : Honest c head _ := hh _ (List.mem_append_right _ (List.mem_cons_self ..))
    rw [rpcResult_eq_ok hsums] at hhon
    rw [show sums = c.sums epoch from hhon]
  · have hhon : Honest c head _ := hh _ (List.mem_append_right _ (List.mem_cons_of_mem _
      (List.mem_cons_self ..)))
    rw [rpcResult_eq_ok hppm] at hhon
    exact hhon

/-- The incremental scan can reach the head: `k` bounds the caps the node names from below. -/
def GapOk (st : CacheEntry) (head : Int) (t : Trace) : Prop :=
  ∃ k : Nat, k ≤ chunkBlocks ∧ (∀ e ∈ t, CapOk k e) ∧ head - st.scannedHi ≤ maxRequests * k

theorem advance_spec {st st' : CacheEntry} {r : Except Exc Unit} {top : Int}
    (h : RunsOn (advance net epoch kind head) st t r st') (hh : ∀ e ∈ t, Honest c head e)
    (hgap : GapOk st head t) (hst : EntryOk c epoch kind top st) (htop : top ≤ head) :
    EntryOk c epoch kind head st' ∧ (r = .ok () → st'.scannedHi = head) := by
  have h₁ := runsOn_get_bind.mp h
  rcases runsOn_bind.mp h₁ with ⟨u, t₁, t₂, s₁, rfl, h₂, h₃⟩ | ⟨e, h₂, rfl⟩
  all_goals
    obtain ⟨b, h₄, rfl⟩ := runsOn_focus.mp h₂
    have hspan : Spans c epoch kind st.byHash (st.scannedHi + 1 - 1) head := by
      rw [Int.add_sub_cancel]
      exact hst.spans.mono (le_refl _) htop
  · have hh₁ : ∀ e ∈ t₁, Honest c head e := fun e he => hh e (List.mem_append_left _ he)
    obtain ⟨lo, -, hlo, hreach⟩ := scanOn_spans (by decide) h₄ hh₁ hspan
    obtain ⟨-, hr, rfl⟩ := runsOn_modify.mp h₃
    obtain ⟨k, hk, hcaps, hbudget⟩ := hgap
    have hhead : head ≤ lo := hreach rfl k
      (fun e he => hcaps e (List.mem_append_left _ he)) hk (by omega)
    exact ⟨⟨le_refl _, hlo.mono hhead (le_refl _), hst.weights, hst.total, hst.ppm⟩,
      fun _ => rfl⟩
  · -- the scan raised: what it merged stays, the high-water mark too
    obtain ⟨lo, hle, hlo, -⟩ := scanOn_spans (by decide) h₄ hh hspan
    have hmark := hst.scannedHi_le
    exact ⟨⟨le_trans hmark htop, hlo.mono (by show st.scannedHi ≤ lo; omega) (le_refl _),
      hst.weights, hst.total, hst.ppm⟩, fun hr => by cases hr⟩

/-! ## The cache -/

/-- Every complete entry of the network knows the chain. -/
def CacheOk (c : Chain) (net : NetworkConfig) (top : Int) (cache : ProgCache) : Prop :=
  ∀ epoch kind st, cache.get? (net.name, epoch, kind) = some st → st.baseComplete = true →
    EntryOk c epoch kind top st

omit [External] in
theorem CacheOk.mono {top top' : Int} {cache : ProgCache} (h : CacheOk c net top cache)
    (hle : top ≤ top') : CacheOk c net top' cache :=
  fun epoch kind st hg hb => (h epoch kind st hg hb).mono hle

omit [External] in
theorem CacheOk.set {top : Int} {cache : ProgCache} (h : CacheOk c net top cache) {st : CacheEntry}
    (hst : st.baseComplete = true → EntryOk c epoch kind top st) :
    CacheOk c net top (cache.set (net.name, epoch, kind) st) := by
  intro epoch' kind' st' hg hb
  rw [Dict.get?_set] at hg
  split at hg
  · rename_i heq
    obtain ⟨-, rfl, rfl⟩ : net.name = net.name ∧ epoch = epoch' ∧ kind = kind' := by
      simpa using heq
    cases hg
    exact hst hb
  · exact h epoch' kind' st' hg hb

omit [External] in
theorem CacheOk.store {top : Int} {cache : ProgCache} (h : CacheOk c net top cache)
    {st : CacheEntry} (hst : st.baseComplete = true → EntryOk c epoch kind top st) :
    CacheOk c net top (ProgCache.store cache net.name epoch kind st) := by
  intro epoch' kind' st' hg hb
  rw [ProgCache.store, Dict.get?_filterKeys] at hg
  split at hg
  · exact h.set hst epoch' kind' st' hg hb
  · cases hg

omit [External] in
theorem get?_store {cache : ProgCache} {st : CacheEntry} :
    (ProgCache.store cache net.name epoch kind st).get? (net.name, epoch, kind) = some st := by
  rw [ProgCache.store, Dict.get?_filterKeys, if_pos, Dict.get?_set_self]
  have hlt : ¬ epoch < epoch - 4 := by omega
  simp only [beq_self_eq_true, hlt, decide_false, Bool.and_false, Bool.not_false]

/-- What `refreshEntry` leaves: a cache that is in order, and, if it returns, the entry of the
epoch, which is up to the head if it is complete. -/
theorem refreshEntry_spec (hwin : InWindow c endTs) {cache cache' : ProgCache} {top : Int}
    {r : Except Exc CacheEntry}
    (h : RunsOn (refreshEntry net epoch kind head (endTs epoch)) cache t r cache')
    (hh : ∀ e ∈ t, Honest c head e) (hc : CacheOk c net top cache) (htop : top ≤ head)
    (hgap : ∀ st, cache.get? (net.name, epoch, kind) = some st → st.baseComplete = true →
      GapOk st head t) :
    CacheOk c net head cache' ∧ ∀ st, r = .ok st →
      ∃ st', cache'.get? (net.name, epoch, kind) = some st' ∧
        (st'.baseComplete = true → EntryOk c epoch kind head st' ∧ st'.scannedHi = head) := by
  have hbase : ∀ {r : Except Exc CacheEntry}, RunsOn (do
      let st ← lift (scanBase net epoch kind head (endTs epoch))
      modify fun cache => ProgCache.store cache net.name epoch kind st
      return st : StAct sig Exc ProgCache CacheEntry) cache t r cache' →
      CacheOk c net head cache' ∧ ∀ st, r = .ok st →
      ∃ st', cache'.get? (net.name, epoch, kind) = some st' ∧
        (st'.baseComplete = true → EntryOk c epoch kind head st' ∧ st'.scannedHi = head) := by
    intro r h
    rcases runsOn_lift_bind.mp h with ⟨st, t₁, t₂, rfl, h₁, h₂⟩ | ⟨e, -, rfl, rfl⟩
    swap
    · exact ⟨hc.mono htop, fun st hst => by cases hst⟩
    have hcomplete := scanBase_spec hwin h₁ fun e he => hh e (List.mem_append_left _ he)
    have h₃ := runsOn_modify_bind.mp h₂
    obtain ⟨-, rfl, rfl⟩ := runsOn_pure.mp h₃
    exact ⟨(hc.mono htop).store fun hb => (hcomplete hb).1, fun st' hst =>
      ⟨st, get?_store, hcomplete⟩⟩
  unfold refreshEntry at h
  have h₁ := runsOn_get_bind.mp h
  split at h₁
  · rename_i st hg
    split at h₁
    · rename_i hb
      have hst := hc epoch kind st hg hb
      rcases runsOn_bind.mp h₁ with ⟨u, t₁, t₂, cache₁, rfl, h₂, h₃⟩ | ⟨e, h₂, rfl⟩
      all_goals
        obtain ⟨st₁, h₄, rfl⟩ := runsOn_focus.mp h₂
        rw [hg, Option.getD_some] at h₄
      · obtain ⟨k, hk, hcaps, hbudget⟩ := hgap st hg hb
        obtain ⟨hok, hreach⟩ := advance_spec h₄
          (fun e he => hh e (List.mem_append_left _ he))
          ⟨k, hk, fun e he => hcaps e (List.mem_append_left _ he), hbudget⟩ hst htop
        obtain ⟨-, -, rfl⟩ := runsOn_pure.mp h₃
        exact ⟨(hc.mono htop).set fun _ => hok, fun st' _ => ⟨st₁, Dict.get?_set_self,
          fun _ => ⟨hok, hreach rfl⟩⟩⟩
      · obtain ⟨hok, -⟩ := advance_spec h₄ hh (hgap st hg hb) hst htop
        exact ⟨(hc.mono htop).set fun _ => hok, fun st' hst' => by cases hst'⟩
    · exact hbase h₁
  · exact hbase h₁

/-! ## One call -/

omit [External] in
theorem EntryOk.tallied {st : CacheEntry} (h : EntryOk c epoch kind head st)
    (heq : st.scannedHi = head) {w : Weights}
    (hall : ∀ spa ∈ allSigners st.byHash, w.of spa = c.weight epoch spa) :
    Tallied (c.weight epoch) (c.upTo epoch kind head) st.byHash w := by
  have hspan := h.spans
  rw [heq] at hspan
  have hholds := hspan.holds
  refine ⟨hholds, fun l hl => hall _ (mem_allSigners.mpr ⟨l.messageHash, ?_⟩)⟩
  exact hholds.mem_signers.mpr ⟨l, hl, rfl, rfl⟩

/-- What a complete progress at the head is made of. -/
def FullView (c : Chain) (epoch : Int) (kind : SigningKind) (head : Int) (ourSpa : Option String)
    (p : SigningProgress) : Prop :=
  ∃ b w scannedFrom, Tallied (c.weight epoch) (c.upTo epoch kind head) b w ∧
    p = aggregate epoch kind b w (c.sums epoch).2.1 c.ppm ourSpa true scannedFrom

omit [External] in
theorem FullView.agree {ourSpa : Option String} {p p' : SigningProgress}
    (h : FullView c epoch kind head ourSpa p) (h' : FullView c epoch kind head ourSpa p')
    (hno : NoTie (c.weight epoch) (c.upTo epoch kind head)) : SameView p p' := by
  obtain ⟨b, w, sf, ht, rfl⟩ := h
  obtain ⟨b', w', sf', ht', rfl⟩ := h'
  exact ht.agree ht' hno epoch kind _ _ ourSpa true true sf sf'

omit [External] in
theorem EntryOk.fullView {st : CacheEntry} (h : EntryOk c epoch kind head st)
    (heq : st.scannedHi = head) {w : Weights}
    (hall : ∀ spa ∈ allSigners st.byHash, w.of spa = c.weight epoch spa)
    (hb : st.baseComplete = true) (ourSpa : Option String) :
    FullView c epoch kind head ourSpa
      (CacheEntry.progress { st with weights := w } epoch kind ourSpa) := by
  refine ⟨st.byHash, w, st.scannedFrom, h.tallied heq hall, ?_⟩
  rw [CacheEntry.progress, h.total, h.ppm, hb]

/-- The cached scan keeps the cache in order, and sees everything when it returns complete. -/
theorem refresh_spec (hwin : InWindow c endTs) {ourSpa : Option String} {cache cache' : ProgCache}
    {top : Int} {r : Except Exc SigningProgress}
    (h : RunsOn (refreshSigningProgress net epoch ourSpa (endTs epoch) kind) cache t r cache')
    (hh : ∀ e ∈ t, Honest c head e) (hc : CacheOk c net top cache) (htop : top ≤ head)
    (hgap : ∀ st, cache.get? (net.name, epoch, kind) = some st → st.baseComplete = true →
      GapOk st head t) :
    CacheOk c net head cache' ∧ ∀ p, r = .ok p → p.complete = true →
      FullView c epoch kind head ourSpa p := by
  unfold refreshSigningProgress at h
  split at h
  · obtain ⟨-, rfl, rfl⟩ := runsOn_throw.mp h
    exact ⟨hc.mono htop, fun p hp => by cases hp⟩
  obtain ⟨a, t₁, rfl, hr⟩ := runsOn_rpc_bind.mp h
  rcases hr with ⟨latest, hlatest, h₁⟩ | ⟨e, -, -, rfl, rfl⟩
  swap
  · exact ⟨hc.mono htop, fun p hp => by cases hp⟩
  have hhon : Honest c head _ := hh _ (List.mem_cons_self ..)
  rw [rpcResult_eq_ok hlatest] at hhon
  obtain rfl : latest = head := hhon
  have hh₁ : ∀ e ∈ t₁, Honest c latest e := fun e he => hh e (List.mem_cons_of_mem _ he)
  have hgap₁ : ∀ t₂, (∀ e ∈ t₂, e ∈ t₁) → ∀ st, cache.get? (net.name, epoch, kind) = some st →
      st.baseComplete = true → GapOk st latest t₂ := by
    intro t₂ hsub st hg hb
    obtain ⟨k, hk, hcaps, hbudget⟩ := hgap st hg hb
    exact ⟨k, hk, fun e he => hcaps e (List.mem_cons_of_mem _ (hsub e he)), hbudget⟩
  rcases runsOn_bind.mp h₁ with ⟨st, t₂, t₃, cache₁, rfl, h₂, h₃⟩ | ⟨e, h₂, rfl⟩
  swap
  · obtain ⟨hc', -⟩ := refreshEntry_spec hwin h₂ hh₁ hc htop (hgap₁ t₁ fun _ => id)
    exact ⟨hc', fun p hp => by cases hp⟩
  obtain ⟨hc₁, hentry⟩ := refreshEntry_spec hwin h₂ (fun e he => hh₁ e (List.mem_append_left _ he))
    hc htop (hgap₁ t₂ fun _ he => List.mem_append_left _ he)
  obtain ⟨st₁, hg, hok⟩ := hentry st rfl
  have hh₃ : ∀ e ∈ t₃, Honest c latest e := fun e he => hh₁ e (List.mem_append_right _ he)
  -- the weights of new signers, on the entry that is in the cache
  have hfill : ∀ {t₄ : Trace} {x : Except Exc Unit} {st₂ : CacheEntry},
      RunsOn (fillWeights net.voterRegistry epoch) st₁ t₄ x st₂ → (∀ e ∈ t₄, e ∈ t₃) →
      st₂.baseComplete = true → EntryOk c epoch kind latest st₂ ∧
        (x = .ok () → FullView c epoch kind latest ourSpa (st₂.progress epoch kind ourSpa)) := by
    intro t₄ x st₂ hrun hsub hb
    have hb₁ : st₁.baseComplete = true := by
      obtain ⟨w, -, rfl⟩ := fillWeights_frame hrun
      exact hb
    obtain ⟨hst₁, hreach⟩ := hok hb₁
    obtain ⟨w, rfl, hw, hall⟩ := fillWeights_spec hrun (fun e he => hh₃ e (hsub e he)) hst₁.weights
    exact ⟨{ hst₁ with weights := hw }, fun hx => hst₁.fullView hreach (hall hx) hb₁ ourSpa⟩
  rcases runsOn_bind.mp h₃ with ⟨u, t₄, t₅, cache₂, rfl, h₄, h₅⟩ | ⟨e, h₄, rfl⟩
  all_goals
    obtain ⟨st₂, h₆, rfl⟩ := runsOn_focus.mp h₄
    rw [hg, Option.getD_some] at h₆
  · have h₇ := runsOn_get_bind.mp h₅
    obtain ⟨-, rfl, rfl⟩ := runsOn_pure.mp h₇
    have hst₂ := hfill h₆ fun e he => List.mem_append_left _ he
    refine ⟨hc₁.set fun hb => (hst₂ hb).1, fun p hp hcomplete => ?_⟩
    cases hp
    rw [Dict.get?_set_self, Option.getD_some] at hcomplete ⊢
    exact (hst₂ hcomplete).2 rfl
  · exact ⟨hc₁.set fun hb => (hfill h₆ (fun _ => id) hb).1, fun p hp => by cases hp⟩

/-- The one-shot scan, when it returns complete. -/
theorem compute_spec (hwin : InWindow c endTs) {ourSpa : Option String} {p : SigningProgress}
    (h : Runs (computeSigningProgress net epoch ourSpa (endTs epoch) kind) t (.ok p))
    (hh : ∀ e ∈ t, Honest c head e) (hcomplete : p.complete = true) :
    FullView c epoch kind head ourSpa p := by
  unfold computeSigningProgress at h
  split at h
  · cases (runs_throw.mp h).2
  obtain ⟨a, t₁, rfl, hr⟩ := runs_rpc_bind.mp h
  rcases hr with ⟨latest, hlatest, h₁⟩ | ⟨e, -, -, he⟩
  swap
  · cases he
  have hhon : Honest c head _ := hh _ (List.mem_cons_self ..)
  rw [rpcResult_eq_ok hlatest] at hhon
  obtain rfl : latest = head := hhon
  obtain ⟨st, t₂, t₃, rfl, h₂, h₃⟩ := runs_bind_eq_ok h₁
  obtain ⟨filled, t₄, t₅, rfl, h₄, h₅⟩ := runs_bind_eq_ok h₃
  obtain ⟨rfl, hp⟩ := runs_pure.mp h₅
  cases hp
  obtain ⟨x, st', h₆, hx⟩ := runs_runLocal.mp h₄
  cases x with
  | error e => cases hx
  | ok u =>
    cases hx
    have hh₁ : ∀ e ∈ t₂ ++ (t₄ ++ []), Honest c latest e :=
      fun e he => hh e (List.mem_cons_of_mem _ he)
    have hbase := scanBase_spec hwin h₂ fun e he => hh₁ e (List.mem_append_left _ he)
    have hb : st.baseComplete = true := by
      obtain ⟨w, -, rfl⟩ := fillWeights_frame h₆
      exact hcomplete
    obtain ⟨hentryOk, hreach⟩ := hbase hb
    obtain ⟨w, rfl, -, hall⟩ := fillWeights_spec h₆
      (fun e he => hh₁ e (List.mem_append_right _ (List.mem_append_left _ he))) hentryOk.weights
    exact hentryOk.fullView hreach (hall rfl) hb ourSpa

end

/-! ## The calls on one cache -/

/-- One call of `refresh_signing_progress`, with the head of the chain at that moment. -/
structure RefreshCall where
  epoch : Int
  kind : SigningKind
  ourSpa : Option String
  head : Int
  trace : Trace
  result : Except Exc SigningProgress

section

variable [External] (c : Chain) (net : NetworkConfig) (endTs : Int → Int)

/-- A call against an honest node, which may fail at any moment; so may the call. -/
structure RefreshStep (cache : ProgCache) (call : RefreshCall) (cache' : ProgCache) : Prop where
  runs : RunsOn (refreshSigningProgress net call.epoch call.ourSpa (endTs call.epoch) call.kind)
    cache call.trace call.result cache'
  honest : ∀ e ∈ call.trace, Honest c call.head e

/-- An incremental call whose gap fits the request budget. -/
def WithinBudget (cache : ProgCache) (call : RefreshCall) : Prop :=
  ∀ st, cache.get? (net.name, call.epoch, call.kind) = some st → st.baseComplete = true →
    GapOk st call.head call.trace

/-- Calls on one cache, each within its budget. -/
abbrev BudgetedRun (es : List RefreshCall) (cache : ProgCache) : Prop :=
  Run (fun cache call cache' => RefreshStep c net endTs cache call cache' ∧
    WithinBudget net cache call) Dict.empty es cache

variable {c net endTs}

theorem BudgetedRun.cacheOk (hwin : InWindow c endTs) {es : List RefreshCall} {cache : ProgCache}
    (h : BudgetedRun c net endTs es cache)
    (hheads : (es.map RefreshCall.head).Pairwise (· ≤ ·)) {top : Int}
    (htop : ∀ call ∈ es, call.head ≤ top) : CacheOk c net top cache := by
  have hinv : (es.map RefreshCall.head).Pairwise (· ≤ ·) →
      ∀ top, (∀ call ∈ es, call.head ≤ top) → CacheOk c net top cache := by
    refine h.invariant (fun es cache => (es.map RefreshCall.head).Pairwise (· ≤ ·) →
      ∀ top, (∀ call ∈ es, call.head ≤ top) → CacheOk c net top cache) ?_ ?_
    · intro _ top _ epoch kind st hg
      simp at hg
    · rintro es cache call cache' - ih ⟨hstep, hbudget⟩ hs top htop
      rw [List.map_append, List.pairwise_append] at hs
      obtain ⟨hs', -, hlast⟩ := hs
      have hbelow : ∀ call' ∈ es, call'.head ≤ call.head := fun call' hc =>
        hlast _ (List.mem_map_of_mem hc) _ (List.mem_singleton_self _)
      have hc := (refresh_spec hwin hstep.runs hstep.honest (ih hs' call.head hbelow) (le_refl _)
        hbudget).1
      exact hc.mono (htop call (List.mem_append_right _ (List.mem_singleton_self _)))
  exact hinv hheads top htop

/-- Over the calls on one cache at non-decreasing heads, each within its budget, a complete result
says what a fresh complete scan at the same head says, unless two hashes tie for the lead. -/
theorem refresh_eq_fresh (hwin : InWindow c endTs) {es : List RefreshCall} {cache : ProgCache}
    (hrun : BudgetedRun c net endTs es cache)
    (hheads : (es.map RefreshCall.head).Pairwise (· ≤ ·)) {call : RefreshCall} (hcall : call ∈ es)
    {p p' : SigningProgress} (hres : call.result = .ok p) (hcomplete : p.complete = true)
    (hno : NoTie (c.weight call.epoch) (c.upTo call.epoch call.kind call.head)) {t : Trace}
    (hfresh : Runs (computeSigningProgress net call.epoch call.ourSpa (endTs call.epoch) call.kind)
      t (.ok p')) (hh : ∀ e ∈ t, Honest c call.head e) (hcomplete' : p'.complete = true) :
    SameView p p' := by
  obtain ⟨es₁, es₂, cache₁, cache₂, rfl, hpre, hstep, hbudget⟩ := hrun.split hcall
  rw [List.map_append, List.pairwise_append] at hheads
  obtain ⟨hs, -, hlast⟩ := hheads
  have hc := BudgetedRun.cacheOk hwin hpre hs fun call' hc' =>
    hlast _ (List.mem_map_of_mem hc') _ (List.mem_cons_self ..)
  exact ((refresh_spec hwin hstep.runs hstep.honest hc (le_refl _) hbudget).2 p hres
    hcomplete).agree (compute_spec hwin hfresh hh hcomplete') hno

end

/-! ### A gap above the request budget -/

def hash₁ : String := "0x" ++ String.ofList (List.replicate 64 '1')

/-- A vote in block 1300000, as the node returns it. -/
def lateLog : RawLog :=
  { topics := ["", "", "0x0000000000000000000000000202020202020202020202020202020202020202",
      "0x0000000000000000000000000303030303030303030303030303030303030303"]
    data := hash₁ ++ String.ofList (List.replicate 128 '0')
    blockNumber := "0x13d620" }

def lateVote : SignedLog :=
  { signingPolicyAddress := "0x0202020202020202020202020202020202020202"
    voter := "0x0303030303030303030303030303030303030303"
    messageHash := hash₁
    thresholdReached := false
    timestamp := 0
    blockNumber := 1300000 }

theorem fromHex_lateLog : Py.fromHex (Py.removePrefix lateLog.data "0x") =
    some (List.replicate 32 0x11 ++ List.replicate 64 0) := by
  have hchars : lateLog.data.toList =
      ['0', 'x'] ++ (List.replicate 64 '1' ++ List.replicate 128 '0') := by
    show (hash₁ ++ String.ofList (List.replicate 128 '0')).toList = _
    rw [hash₁, String.toList_append, String.toList_append, String.toList_ofList,
      String.toList_ofList, String.toList_ofList, List.append_assoc]
  have hrest : Py.removePrefix lateLog.data "0x" =
      String.ofList (List.replicate 64 '1' ++ List.replicate 128 '0') := by
    unfold Py.removePrefix Py.startsWith
    rw [hchars]
    rfl
  rw [hrest, Py.fromHex, String.toList_ofList]
  decide +kernel

/-- Only the bytes in the data of a log count. -/
theorem decode_of_fromHex {entry : RawLog} (htopics : entry.topics = lateLog.topics)
    (hblock : entry.blockNumber = lateLog.blockNumber)
    (hdata : Py.fromHex (Py.removePrefix entry.data "0x") =
      some (List.replicate 32 0x11 ++ List.replicate 64 0)) :
    @decodeSignedLog External.static .uptime entry = .ok (some lateVote) := by
  unfold decodeSignedLog
  rw [htopics, hblock, hdata]
  decide +kernel

theorem decode_lateLog : @decodeSignedLog External.static .uptime lateLog = .ok (some lateVote) :=
  decode_of_fromHex rfl rfl fromHex_lateLog

/-- A chain with that vote for the uptime of every epoch, one block a second. -/
def lateChain : Chain where
  logs _ kind := if kind = .uptime then [lateVote] else []
  ts b := b
  weight _ _ := 3
  voter _ _ := lateVote.voter
  sums _ := (3, 3, 3)
  ppm := 500000
  logged_once := by
    intro _ kind l l' hl hl'
    cases kind
    · simp at hl
    · simp at hl hl'
      simp [hl, hl']
  block_nonneg := by
    intro _ kind l hl
    cases kind
    · simp at hl
    · simp at hl
      simp [hl, lateVote]
  ts_mono _ _ := id

/-- A node of that chain, which answers everything. -/
def lateNode (head : Int) : (op : Op) → op.Ans
  | .rpc .blockNumber => .result head
  | .rpc (.signedLogs _ _ lo hi kind) =>
    .result (if kind = .uptime ∧ lo ≤ 1300000 ∧ 1300000 ≤ hi then [lateLog] else [])
  | .rpc (.blockTimestamp b) => .result (some b)
  | .rpc (.weightsSums _ _) => .result (3, 3, 3)
  | .rpc (.signingPolicyThresholdPpm _) => .result 500000
  | .rpc (.voterNormalisedWeight ..) => .result (lateVote.voter, 3)
  | op => deafWorld op

theorem lateNode_honest (head : Int) :
    ∀ e : Event sig, e.ans = lateNode head e.op → @Honest External.static lateChain head e := by
  rintro ⟨op, ans⟩ h
  obtain rfl : ans = lateNode head op := h
  cases op with
  | rpc o =>
    cases o with
    | signedLogs fsm epoch lo hi kind =>
      show @decodeSignedLogs External.static kind _ = .ok (lateChain.between epoch kind lo hi)
      cases kind with
      | rewards => rfl
      | uptime =>
        by_cases hin : lo ≤ 1300000 ∧ 1300000 ≤ hi
        · have hb : lateChain.between epoch .uptime lo hi = [lateVote] := by
            simp [Chain.between, lateChain, lateVote, hin]
          simp only [hb, hin, true_and, if_true, decodeSignedLogs, decode_lateLog]
          rfl
        · have hb : lateChain.between epoch .uptime lo hi = [] := by
            simpa [Chain.between, lateChain, lateVote] using hin
          simp only [hb, hin, and_false, if_false]
          rfl
    | _ => first | rfl | trivial
  | _ => trivial

def lateEnd : Int → Int := fun _ => 1299000

theorem lateChain_inWindow : InWindow lateChain lateEnd := by
  intro epoch kind l hl
  cases kind
  · simp [lateChain] at hl
  · obtain rfl : l = lateVote := by simpa [lateChain] using hl
    simp [lateEnd, lateChain, lateVote]

/-- A refresh for the uptime of epoch 5. -/
def lateRefresh (head : Int) (cache : ProgCache) : Trace × Except Exc SigningProgress × ProgCache :=
  @execOn sig Exc ProgCache SigningProgress (lateNode head)
    (@refreshSigningProgress External.static (networks .flare) 5 none 1299000 .uptime) cache

/-- A cache filled at block 0. -/
def genesisCache : ProgCache := (lateRefresh 0 Dict.empty).2.2

def lateCall (head : Int) (cache : ProgCache) : RefreshCall :=
  ⟨5, .uptime, none, head, (lateRefresh head cache).1, (lateRefresh head cache).2.1⟩

theorem lateCall_step (head : Int) (cache : ProgCache) :
    @RefreshStep External.static lateChain (networks .flare) lateEnd cache (lateCall head cache)
      (lateRefresh head cache).2.2 :=
  @RefreshStep.mk External.static _ _ _ _ (lateCall head cache) _ (execOn_runs (S := sig) _ _ _)
    fun e he => lateNode_honest head e (Prog.exec_answers _ _ e he)

theorem lateCall_result (head : Int) (cache : ProgCache) :
    (lateCall head cache).result = (lateRefresh head cache).2.1 := rfl

theorem genesis_run (head : Int) :
    Run (@RefreshStep External.static lateChain (networks .flare) lateEnd) Dict.empty
      [lateCall 0 Dict.empty, lateCall head genesisCache] (lateRefresh head genesisCache).2.2 :=
  .snoc (.snoc .nil (lateCall_step 0 Dict.empty)) (lateCall_step head genesisCache)

/-- A fresh scan. -/
def lateFresh (head : Int) : Trace × Except Exc SigningProgress :=
  @exec sig Exc SigningProgress (lateNode head)
    (@computeSigningProgress External.static (networks .flare) 5 none 1299000 .uptime)

theorem lateFresh_runs (head : Int) :
    Runs (@computeSigningProgress External.static (networks .flare) 5 none (lateEnd 5) .uptime)
      (lateFresh head).1 (lateFresh head).2 := exec_runs (S := sig) _ _

theorem lateFresh_honest (head : Int) :
    ∀ e ∈ (lateFresh head).1, @Honest External.static lateChain head e :=
  fun e he => lateNode_honest head e (Prog.exec_answers _ _ e he)

/-- A complete progress with this message hash. -/
def completeWith (h : String) : Except Exc SigningProgress → Bool
  | .ok p => p.messageHash == h && p.complete
  | .error _ => false

theorem completeWith_ok {h : String} {r : Except Exc SigningProgress}
    (hr : completeWith h r = true) : ∃ p, r = .ok p ∧ p.messageHash = h ∧ p.complete = true := by
  cases r with
  | error e => cases hr
  | ok p =>
    obtain ⟨h₁, h₂⟩ := Bool.and_eq_true_iff.mp hr
    exact ⟨p, rfl, beq_iff_eq.mp h₁, h₂⟩

/-- The scans after a gap of 1300000 blocks, and after one of 1000. -/
theorem late_complete :
    completeWith hash₁ (lateFresh 1300000).2 = true ∧
      completeWith "" (lateRefresh 1300000 genesisCache).2.1 = true ∧
      completeWith "" (lateFresh 1000).2 = true ∧
      completeWith "" (lateRefresh 1000 genesisCache).2.1 = true := by
  decide +kernel

/-- After a gap of 1300000 blocks the refresh stops at its request budget, below the vote, and
still returns complete; a fresh scan sees the vote. -/
theorem gap_hides_vote :
    ∃ es cache call p t p',
      @InWindow lateChain lateEnd ∧
      Run (@RefreshStep External.static lateChain (networks .flare) lateEnd) Dict.empty es cache ∧
      (es.map RefreshCall.head).Pairwise (· ≤ ·) ∧ call ∈ es ∧ call.result = .ok p ∧
      p.complete = true ∧
      Runs (@computeSigningProgress External.static (networks .flare) call.epoch call.ourSpa
        (lateEnd call.epoch) call.kind) t (.ok p') ∧
      (∀ e ∈ t, @Honest External.static lateChain call.head e) ∧ p'.complete = true ∧
      ¬ SameView p p' := by
  obtain ⟨p, hp, hhash, hcomplete⟩ := completeWith_ok late_complete.2.1
  obtain ⟨p', hp', hhash', hcomplete'⟩ := completeWith_ok late_complete.1
  rw [← lateCall_result] at hp
  have hfresh := lateFresh_runs 1300000
  rw [hp'] at hfresh
  refine ⟨_, _, _, p, (lateFresh 1300000).1, p', lateChain_inWindow, genesis_run 1300000, ?_,
    List.mem_cons_of_mem _ (List.mem_singleton_self _), hp, hcomplete, hfresh,
    lateFresh_honest 1300000, hcomplete', fun hsame => ?_⟩
  · exact List.pairwise_pair.mpr (by decide)
  · have heq := hsame.messageHash
    rw [hhash, hhash'] at heq
    exact absurd heq (by decide)

/-! ### A gap within the budget -/

theorem genesisCache_get :
    genesisCache.get? (.flare, 5, .uptime) =
      some ⟨3, 500000, Weights.empty, Dict.empty, 0, 0, true⟩ := by rfl

/-- The node never names a cap. -/
theorem lateNode_capOk (head : Int) (k : Nat) :
    ∀ e : Event sig, e.ans = lateNode head e.op → CapOk k e := by
  rintro ⟨op, ans⟩ h
  obtain rfl : ans = lateNode head op := h
  cases op with
  | rpc o =>
    cases o with
    | signedLogs fsm epoch lo hi kind =>
      intro msg herr
      cases herr
    | _ => trivial
  | _ => trivial

theorem genesis_budgeted :
    @BudgetedRun External.static lateChain (networks .flare) lateEnd
      [lateCall 0 Dict.empty, lateCall 1000 genesisCache] (lateRefresh 1000 genesisCache).2.2 := by
  refine .snoc (.snoc .nil ⟨lateCall_step 0 Dict.empty, fun st hg => by simp at hg⟩)
    ⟨lateCall_step 1000 genesisCache, fun st hg _ => ⟨chunkBlocks, le_refl _, fun e he =>
      lateNode_capOk 1000 _ e (Prog.exec_answers _ _ e he), ?_⟩⟩
  obtain rfl := Option.some.inj (genesisCache_get.symm.trans hg)
  decide

theorem noTie_late : NoTie (lateChain.weight 5) (lateChain.upTo 5 .uptime 1000) := by
  rintro h h' ⟨⟨l, hl, rfl⟩, -⟩ ⟨⟨l', hl', rfl⟩, -⟩
  have hone : ∀ l, l ∈ lateChain.logs 5 .uptime → l = lateVote := fun l hl => by
    simpa [lateChain] using hl
  rw [hone l (Chain.mem_upTo.mp hl).1, hone l' (Chain.mem_upTo.mp hl').1]

theorem refresh_eq_fresh_genesis :
    ∃ p p', (lateRefresh 1000 genesisCache).2.1 = .ok p ∧ (lateFresh 1000).2 = .ok p' ∧
      SameView p p' := by
  obtain ⟨p, hp, -, hcomplete⟩ := completeWith_ok late_complete.2.2.2
  obtain ⟨p', hp', -, hcomplete'⟩ := completeWith_ok late_complete.2.2.1
  have hfresh := lateFresh_runs 1000
  rw [hp'] at hfresh
  have hcall := hp
  rw [← lateCall_result] at hcall
  refine ⟨p, p', hp, hp', ?_⟩
  exact @refresh_eq_fresh External.static _ _ _ lateChain_inWindow _ _ genesis_budgeted
    (List.pairwise_pair.mpr (by decide)) _ (List.mem_cons_of_mem _ (List.mem_singleton_self _)) p p'
    hcall hcomplete noTie_late (lateFresh 1000).1 hfresh (lateFresh_honest 1000) hcomplete'

end Clif
