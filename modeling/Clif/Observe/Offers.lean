import Mathlib.Data.List.DropRight
import Clif.SharedCache
import Clif.Effect.Interleave
import Clif.FundingPass
import Clif.Observe.State

/-!
# Observe.Offers — the band parameters of a reward epoch, `observe/reward_rule.py`

They stand in one event, which is looked for in chunks of blocks and then kept in a file that the
observer and the one-shot command share.  `offers_told`: whoever takes turns on the files, and
wherever anyone is killed, what `get_offer_params` returns is what the event says.
-/

namespace Clif.Observe

open Effect SharedCache

/-! ## The event -/

structure OfferLog where
  data : String
  blockNumber : String
deriving DecidableEq

/-- `OfferParams`, all of it. -/
structure Offer where
  rewardEpochId : Int
  network : Network
  block : Int
  primaryBandRewardSharePpm : Int
  minRewardedTurnoutBips : Int
  feeds : List String
  decimals : Dict String Int
  secondaryBandWidthPpm : Dict String Int

/-- The fields of `InflationRewardsOffered` that are used. -/
structure OfferEvent where
  feedIds : Bytes
  decimals : Bytes
  minTurnoutBips : Int
  primaryBandSharePpm : Int
  secondaryPpms : Bytes
deriving DecidableEq

/-- `abi_decode` of `bytes.fromhex(data[2:])`. -/
class OfferAbi where
  decode : String → Except Exc OfferEvent

/-- `int.from_bytes(_, "big")`. -/
def fromBytesBig (b : Bytes) : Int := b.foldl (fun n x => 256 * n + x.toNat) 0

/-- `int.from_bytes(_, "big", signed=True)` of at most one byte. -/
def signedByte (b : Bytes) : Int :=
  let n := fromBytesBig b
  if 128 ≤ n then n - 256 else n

/-- `_decode_feed_name`. -/
def decodeFeedName (chunk : Bytes) : Except Exc String :=
  let name := (chunk.drop 1).rdropWhile fun x => x == 0
  if name.any fun x => 128 ≤ x.toNat then
    .error (.other "UnicodeDecodeError"
      "'ascii' codec can't decode byte: ordinal not in range(128)")
  else .ok (String.ofList (name.map fun x => if x == 95 then '/' else Char.ofNat x.toNat))

/-- The loop over the feeds; `i` is the index of the next one. -/
def addFeeds (ev : OfferEvent) : Nat → Nat → Offer → Except Exc Offer
  | _, 0, o => .ok o
  | i, n + 1, o =>
    match decodeFeedName ((ev.feedIds.drop (i * 21)).take 21) with
    | .error e => .error e
    | .ok name => addFeeds ev (i + 1) n
      { o with
        feeds := o.feeds ++ [name]
        decimals := o.decimals.set name (signedByte ((ev.decimals.drop i).take 1))
        secondaryBandWidthPpm := o.secondaryBandWidthPpm.set name
          (fromBytesBig ((ev.secondaryPpms.drop (i * 3)).take 3)) }

/-- The offer that a log holds. -/
def offerOf [OfferAbi] (network : Network) (epoch : Int) (log : OfferLog) : Except Exc Offer := do
  let ev ← OfferAbi.decode log.data
  let o ← addFeeds ev 0 (ev.feedIds.length / 21)
    { rewardEpochId := epoch
      network := network
      block := 0
      primaryBandRewardSharePpm := ev.primaryBandSharePpm
      minRewardedTurnoutBips := ev.minTurnoutBips
      feeds := []
      decimals := Dict.empty
      secondaryBandWidthPpm := Dict.empty }
  match Py.intHex? log.blockNumber with
  | none => .error (.valueError s!"invalid literal for int() with base 16: '{log.blockNumber}'")
  | some block => .ok { o with block := block }

/-! ## The operations -/

inductive OfferOp where
  | contractAddressByName (name : String)
  /-- `_find_block_for_ts`. -/
  | findBlockForTs (targetTs : Int)
  /-- `get_logs` of the event with the topic of the epoch. -/
  | getLogs (network : Network) (address : String) (epoch lo hi : Int)
  /-- Open the file, `json.load` it, and make an `OfferParams` of what it holds. -/
  | load (path : String)
  /-- `os.makedirs` and `open(path, "w")`, which empties the file. -/
  | create (path : String)
  /-- `json.dump`, and the close after it. -/
  | dump (path : String) (offer : Offer)
  | listdir
  | remove (name : String)

/-- A failing file operation is caught. -/
@[reducible] def OfferOp.Ans : OfferOp → Type
  | .contractAddressByName _ => Except Exc String
  | .findBlockForTs _ => Except Exc Int
  | .getLogs .. => Except Exc (List OfferLog)
  | .load _ => Option Offer
  | .create _ => Bool
  | .dump .. => Bool
  | .listdir => Option (List String)
  | .remove _ => Bool

@[reducible] def offerSig : Sig := ⟨OfferOp, OfferOp.Ans⟩

abbrev OfferProg (α : Type) := Act offerSig Exc α

abbrev OfferTrace := List (Event offerSig)

abbrev askOffer (op : OfferOp) : OfferProg op.Ans := ask (S := offerSig) op

/-! ## The scan -/

/-- `_offers_manager`. -/
def offersManager : Network → OfferProg String
  | .flare => return "0x244EA7f173895968128D5847Df2C75B1460ac685"
  | .songbird => return "0x5ab9cb258a342001c4663d9526a1c54cccf8c545"
  | .coston2 => do
    let answer ← askOffer (.contractAddressByName "FtsoRewardOffersManager")
    let resolved ← fromExcept answer
    if resolved.isEmpty then
      throw (.rpcError "could not resolve FtsoRewardOffersManager for coston2")
    else
      match Py.intHex? resolved with
      | none => throw (.valueError s!"invalid literal for int() with base 16: '{resolved}'")
      | some n =>
        if n == 0 then throw (.rpcError "could not resolve FtsoRewardOffersManager for coston2")
        else return resolved

/-- `_EPOCH_ZERO_START[network]`. -/
def epochZeroStart : Network → Except Exc Int
  | .flare => .ok 1658430000
  | .songbird => .ok 1658429955
  | .coston2 => .error (.other "KeyError" "'coston2'")

/-- The loop of `scan_offer_event`, in chunks of 30 blocks.  A chunk that fails is passed over. -/
def scanLoop (network : Network) (address : String) (epoch endBlock n : Int) :
    OfferProg (Option OfferLog) :=
  if n ≤ endBlock then do
    let chunkEnd := min (n + 29) endBlock
    let answer ← askOffer (.getLogs network address epoch n chunkEnd)
    match answer with
    | .ok (log :: _) => return some log
    | .ok [] => scanLoop network address epoch endBlock (chunkEnd + 1)
    | .error (.rpcError _) => scanLoop network address epoch endBlock (chunkEnd + 1)
    | .error e => throw e
  else return none
termination_by (endBlock + 1 - n).toNat
decreasing_by all_goals omega

/-- What `scan_offer_event` makes of the log it found, if it did. -/
def scanned [OfferAbi] (network : Network) (epoch startBlock : Int) :
    Option OfferLog → Except Exc Offer
  | some log => offerOf network epoch log
  | none =>
    .error (.rpcError (s!"no InflationRewardsOffered(epoch={epoch}) for {network.str} within " ++
      s!"20000 blocks of epoch {epoch - 1} start (block {startBlock})"))

/-- `reward_epoch_id.to_bytes(32, "big")`, of which only the failure is kept. -/
def topicEpoch (epoch : Int) : Except Exc Unit :=
  if epoch < 0 then .error (.other "OverflowError" "can't convert negative int to unsigned")
  else if 2 ^ 256 ≤ epoch then .error (.other "OverflowError" "int too big to convert")
  else .ok ()

/-- The scan from a block on, with its 20000 blocks. -/
def scanFrom [OfferAbi] (network : Network) (address : String) (epoch startBlock : Int) :
    OfferProg Offer := do
  let _ ← fromExcept (topicEpoch epoch)
  let found ← scanLoop network address epoch (startBlock + 20000) startBlock
  fromExcept (scanned network epoch startBlock found)

/-- `scan_offer_event`. -/
def scanOfferEvent [OfferAbi] (network : Network) (epoch : Int) : OfferProg Offer := do
  let address ← offersManager network
  let epoch0 ← fromExcept (epochZeroStart network)
  let answer ← askOffer (.findBlockForTs (epoch0 + (epoch - 1) * 3360 * 90))
  let startBlock ← fromExcept answer
  scanFrom network address epoch startBlock

/-! ## The files -/

def offerPrefix (network : Network) : String := "offer-params-" ++ network.str ++ "-"

def offerPath (network : Network) (epoch : Int) : String :=
  offerPrefix network ++ (toString epoch ++ ".json")

/-- `get_offer_params`; `cached` says that there is a directory for the files. -/
def getOfferParams [OfferAbi] (network : Network) (epoch : Int) (cached : Bool) :
    OfferProg Offer := do
  let found ← if cached then askOffer (.load (offerPath network epoch)) else pure none
  match found with
  | some offer => return offer
  | none =>
    let offer ← scanOfferEvent network epoch
    if cached then
      let opened ← askOffer (.create (offerPath network epoch))
      if opened then
        let _ ← askOffer (.dump (offerPath network epoch) offer)
        return offer
      else return offer
    else return offer

/-- The epoch in the name of an offer file of the network, as `prune_offer_cache` reads it. -/
def epochInName (network : Network) (name : String) : Option Int :=
  if name.startsWith (offerPrefix network) && name.endsWith ".json" then
    Py.int? (String.ofList ((name.toList.drop (offerPrefix network).length).rdrop 5))
  else none

def pruneEach (network : Network) (keepEpoch : Int) : List String → OfferProg Unit
  | [] => return ()
  | name :: names => do
    match epochInName network name with
    | none => pruneEach network keepEpoch names
    | some epoch =>
      if epoch < keepEpoch - 1 then
        let _ ← askOffer (.remove name)
        pruneEach network keepEpoch names
      else pruneEach network keepEpoch names

/-- `prune_offer_cache`. -/
def pruneOfferCache (network : Network) (keepEpoch : Int) : OfferProg Unit := do
  match ← askOffer .listdir with
  | none => return ()
  | some names => pruneEach network keepEpoch names

/-! ## What a scan finds -/

section

variable (event : Network → Int → Option (Int × OfferLog))

/-- The logs of a range of blocks, where `event` is the one event of an epoch and its block. -/
def offerLogs (network : Network) (epoch lo hi : Int) : List OfferLog :=
  match event network epoch with
  | some (b, log) => if lo ≤ b ∧ b ≤ hi then [log] else []
  | none => []

/-- The node may fail, but what it answers is so. -/
def HonestLogs : Event offerSig → Prop
  | ⟨.getLogs network _ epoch lo hi, .ok logs⟩ => logs = offerLogs event network epoch lo hi
  | _ => True

/-- No read of logs failed. -/
def LogsServed : Event offerSig → Prop
  | ⟨.getLogs .., .error _⟩ => False
  | _ => True

/-- The offer is the one that the event of the epoch holds. -/
def Offered [OfferAbi] (network : Network) (epoch : Int) (offer : Offer) : Prop :=
  ∃ b log, event network epoch = some (b, log) ∧ offerOf network epoch log = .ok offer

variable {event} {network : Network} {address : String} {epoch endBlock : Int}

theorem mem_offerLogs {lo hi : Int} {log : OfferLog} : log ∈ offerLogs event network epoch lo hi ↔
    ∃ b, event network epoch = some (b, log) ∧ lo ≤ b ∧ b ≤ hi := by
  unfold offerLogs
  cases event network epoch with
  | none => simp
  | some bl =>
    obtain ⟨b, log'⟩ := bl
    by_cases hin : lo ≤ b ∧ b ≤ hi
    · simp only [hin, and_self, if_true, List.mem_singleton, Option.some.injEq, Prod.mk.injEq]
      constructor
      · rintro rfl
        exact ⟨b, ⟨rfl, rfl⟩, hin⟩
      · rintro ⟨b', ⟨-, rfl⟩, -⟩
        rfl
    · simp only [hin, if_false, List.not_mem_nil, false_iff]
      rintro ⟨b', heq, hin'⟩
      cases heq
      exact hin hin'

/-- The loop returns nothing but the event, and misses it only in a chunk that failed. -/
theorem runs_scanLoop : ∀ {k : Nat} {n : Int}, (endBlock + 1 - n).toNat = k →
    ∀ {t : OfferTrace} {x : Except Exc (Option OfferLog)},
      Runs (scanLoop network address epoch endBlock n) t x → (∀ e ∈ t, HonestLogs event e) →
      (∀ log, x = .ok (some log) → ∃ b, event network epoch = some (b, log)) ∧
        ((∀ e ∈ t, LogsServed e) → ∀ b log, event network epoch = some (b, log) → n ≤ b →
          b ≤ endBlock → x = .ok (some log)) := by
  intro k
  induction k using Nat.strong_induction_on with
  | _ k ih =>
    intro n hk t x h honest
    rw [scanLoop] at h
    by_cases hn : n ≤ endBlock
    swap
    · rw [if_neg hn] at h
      obtain ⟨-, rfl⟩ := runs_pure.mp h
      refine ⟨nofun, fun _ b log _ hlo hhi => ?_⟩
      exact absurd (hlo.trans hhi) hn
    rw [if_pos hn] at h
    obtain ⟨answer, t', rfl, hrest⟩ := runs_ask_bind.mp h
    obtain ⟨hhonest, honest'⟩ := List.forall_mem_cons.mp honest
    -- the loop goes on after the chunk
    have hgo : Runs (scanLoop network address epoch endBlock (min (n + 29) endBlock + 1)) t' x →
        (answer = .ok [] ∨ ∃ e, answer = .error e) →
        (∀ log, x = .ok (some log) → ∃ b, event network epoch = some (b, log)) ∧
          ((∀ e ∈ (⟨.getLogs network address epoch n (min (n + 29) endBlock), answer⟩ :
            Event offerSig) :: t', LogsServed e) → ∀ b log, event network epoch = some (b, log) →
              n ≤ b → b ≤ endBlock → x = .ok (some log)) := by
      intro hrun hanswer
      obtain ⟨hfound, hall⟩ := ih _ (by omega) rfl hrun honest'
      refine ⟨hfound, fun hserved b log hevent hlo hhi => ?_⟩
      obtain ⟨hnow, hserved⟩ := List.forall_mem_cons.mp hserved
      refine hall hserved b log hevent ?_ hhi
      rcases hanswer with rfl | ⟨e, rfl⟩
      · by_contra hlt
        have hempty : [] = offerLogs event network epoch n (min (n + 29) endBlock) := hhonest
        have hmem : log ∈ offerLogs event network epoch n (min (n + 29) endBlock) :=
          mem_offerLogs.mpr ⟨b, hevent, hlo, by omega⟩
        rw [← hempty] at hmem
        cases hmem
      · exact absurd hnow id
    cases answer with
    | ok logs =>
      cases logs with
      | nil => exact hgo hrest (.inl rfl)
      | cons log logs =>
        obtain ⟨-, rfl⟩ := runs_pure.mp hrest
        have heq : log :: logs = offerLogs event network epoch n (min (n + 29) endBlock) := hhonest
        have hmem : log ∈ offerLogs event network epoch n (min (n + 29) endBlock) := by
          rw [← heq]
          exact List.mem_cons_self
        obtain ⟨b, hevent, -⟩ := mem_offerLogs.mp hmem
        refine ⟨fun log' hlog' => ?_, fun _ b' log' hevent' _ _ => ?_⟩
        · cases hlog'
          exact ⟨b, hevent⟩
        · rw [hevent] at hevent'
          cases hevent'
          rfl
    | error e =>
      cases e with
      | rpcError msg => exact hgo hrest (.inr ⟨_, rfl⟩)
      | _ =>
        obtain ⟨-, rfl⟩ := runs_throw.mp hrest
        refine ⟨nofun, fun hserved => ?_⟩
        exact absurd (hserved _ List.mem_cons_self) id

theorem emits_offersManager :
    Emits (offersManager network) fun e => ∃ name, e.op = .contractAddressByName name := by
  cases network with
  | flare => exact emits_pure _
  | songbird => exact emits_pure _
  | coston2 =>
    refine emits_bind (emits_ask fun _ => ⟨_, rfl⟩) fun answer => ?_
    refine emits_bind (emits_fromExcept _) fun resolved => ?_
    split
    · exact emits_throw _
    split
    · exact emits_throw _
    · split
      · exact emits_throw _
      · exact emits_pure _

theorem emits_scanLoop : ∀ {k : Nat} {n : Int}, (endBlock + 1 - n).toNat = k →
    Emits (scanLoop network address epoch endBlock n) fun e =>
      ∃ lo hi, e.op = .getLogs network address epoch lo hi := by
  intro k
  induction k using Nat.strong_induction_on with
  | _ k ih =>
    intro n hk
    rw [scanLoop]
    split
    · refine emits_bind (emits_ask fun _ => ⟨_, _, rfl⟩) fun answer => ?_
      split
      · exact emits_pure _
      · exact ih _ (by omega) rfl
      · exact ih _ (by omega) rfl
      · exact emits_throw _
    · exact emits_pure _

variable [OfferAbi] {t h : OfferTrace} {r : Except Exc Offer} {cached : Bool}

omit [OfferAbi] in
theorem topicEpoch_ok (h0 : 0 ≤ epoch) (h1 : epoch < 2 ^ 256) : topicEpoch epoch = .ok () := by
  unfold topicEpoch
  rw [if_neg (by omega), if_neg (by omega)]

/-- The scan from a block on returns the offer of the event; and it does find it, if it lies in the
range and no read of logs failed. -/
theorem runs_scanFrom {startBlock : Int}
    (hr : Runs (scanFrom network address epoch startBlock) t r)
    (honest : ∀ e ∈ t, HonestLogs event e) :
    (∀ offer, r = .ok offer → Offered event network epoch offer) ∧
      ((∀ e ∈ t, LogsServed e) → 0 ≤ epoch → epoch < 2 ^ 256 → ∀ b log offer,
        event network epoch = some (b, log) → startBlock ≤ b → b ≤ startBlock + 20000 →
          offerOf network epoch log = .ok offer → r = .ok offer) := by
  unfold scanFrom at hr
  rcases runs_fromExcept_bind.mp hr with ⟨-, -, hr⟩ | ⟨e, htopic, rfl, rfl⟩
  swap
  · refine ⟨nofun, fun _ h0 h1 => ?_⟩
    rw [topicEpoch_ok h0 h1] at htopic
    cases htopic
  rcases runs_bind.mp hr with ⟨found, t₁, t₂, rfl, hloop, hend⟩ | ⟨e, hloop, rfl⟩
  · obtain ⟨rfl, rfl⟩ := runs_fromExcept.mp hend
    rw [List.append_nil] at honest ⊢
    obtain ⟨hfound, hall⟩ := runs_scanLoop rfl hloop honest
    constructor
    · intro offer hoffer
      cases found with
      | none => cases hoffer
      | some log =>
        obtain ⟨b, hevent⟩ := hfound log rfl
        exact ⟨b, log, hevent, hoffer⟩
    · intro hserved _ _ b log offer hevent hlo hhi hoffer
      obtain rfl := Except.ok.inj (hall hserved b log hevent hlo hhi)
      exact hoffer
  · obtain ⟨-, hall⟩ := runs_scanLoop rfl hloop honest
    refine ⟨nofun, fun hserved _ _ b log offer hevent hlo hhi _ => ?_⟩
    cases hall hserved b log hevent hlo hhi

theorem emits_scanFrom {startBlock : Int} : Emits (scanFrom network address epoch startBlock)
    fun e => ∃ lo hi, e.op = .getLogs network address epoch lo hi :=
  emits_bind (emits_fromExcept _) fun _ =>
    emits_bind (emits_scanLoop rfl) fun _ => emits_fromExcept _

/-- The scan asks for its first block once, and after that for nothing but logs. -/
theorem runs_scanOfferEvent (hr : Runs (scanOfferEvent network epoch) t r) :
    ((∀ e ∈ t, ∀ ts start, e ≠ ⟨.findBlockForTs ts, .ok start⟩) ∧ ∃ e, r = .error e) ∨
      ∃ t₁ t₂ address ts startBlock, t = t₁ ++ ⟨.findBlockForTs ts, .ok startBlock⟩ :: t₂ ∧
        (∀ e ∈ t₁, ∃ name, e.op = .contractAddressByName name) ∧
        Runs (scanFrom network address epoch startBlock) t₂ r := by
  have hasks : ∀ {u : OfferTrace}, (∀ e ∈ u, ∃ name, e.op = .contractAddressByName name) →
      ∀ e ∈ u, ∀ ts start, e ≠ ⟨.findBlockForTs ts, .ok start⟩ := by
    rintro u hu e he ts start rfl
    obtain ⟨name, hop⟩ := hu _ he
    cases hop
  unfold scanOfferEvent at hr
  rcases runs_bind.mp hr with ⟨address, t₁, t₂, rfl, h₁, h₂⟩ | ⟨e, h₁, rfl⟩
  swap
  · exact .inl ⟨hasks (emits_offersManager _ _ h₁), e, rfl⟩
  have hnames := emits_offersManager _ _ h₁
  rcases runs_fromExcept_bind.mp h₂ with ⟨epoch0, -, h₃⟩ | ⟨e, -, rfl, rfl⟩
  swap
  · rw [List.append_nil]
    exact .inl ⟨hasks hnames, e, rfl⟩
  obtain ⟨answer, t₃, rfl, h₄⟩ := runs_ask_bind.mp h₃
  cases answer with
  | error e =>
    obtain ⟨rfl, rfl⟩ := runs_throw.mp h₄
    refine .inl ⟨List.forall_mem_append.mpr ⟨hasks hnames, fun e' he' ts start => ?_⟩, e, rfl⟩
    rw [List.mem_singleton.mp he']
    exact nofun
  | ok startBlock => exact .inr ⟨t₁, t₃, address, _, startBlock, rfl, hnames, h₄⟩

/-! ## What is written down -/

variable (event) in
/-- If the node was honest so far, what is written is the offer of the epoch in the file's name. -/
def DumpsOffered (t : OfferTrace) (e : Event offerSig) : Prop :=
  (∀ e' ∈ t, HonestLogs event e') → ∀ path offer, e.op = .dump path offer →
    ∃ network epoch, path = offerPath network epoch ∧ Offered event network epoch offer

theorem emits_scanOfferEvent :
    Emits (scanOfferEvent network epoch) fun e => ∀ path offer, e.op ≠ .dump path offer := by
  unfold scanOfferEvent
  refine emits_bind (fun t r hr e he path offer hop => ?_) fun address => ?_
  · obtain ⟨name, hname⟩ := emits_offersManager _ _ hr e he
    rw [hname] at hop
    cases hop
  refine emits_bind (emits_fromExcept _) fun epoch0 => ?_
  refine emits_bind (emits_ask fun _ => nofun) fun answer => ?_
  refine emits_bind (emits_fromExcept _) fun startBlock => fun t r hr e he path offer hop => ?_
  obtain ⟨lo, hi, hlogs⟩ := emits_scanFrom _ _ hr e he
  rw [hlogs] at hop
  cases hop

theorem wp_scanOfferEvent (hg : Guarded (DumpsOffered event) h) :
    Wp (scanOfferEvent network epoch) (fun r h' => Guarded (DumpsOffered event) h' ∧
      ((∀ e ∈ h', HonestLogs event e) →
        ∀ offer, r = .ok offer → Offered event network epoch offer)) h := by
  intro t r hr
  refine ⟨keep_append (fun h e hg hne => ?_) (emits_scanOfferEvent _ _ hr) hg, fun honest => ?_⟩
  · exact guarded_snoc.mpr ⟨hg, fun _ path offer hop => absurd hop (hne path offer)⟩
  · obtain ⟨-, honest⟩ := List.forall_mem_append.mp honest
    rcases runs_scanOfferEvent hr with ⟨-, e, rfl⟩ | ⟨t₁, t₂, address, ts, start, rfl, -, hscan⟩
    · exact nofun
    · obtain ⟨-, honest⟩ := List.forall_mem_append.mp honest
      exact (runs_scanFrom hscan (List.forall_mem_cons.mp honest).2).1

theorem wp_getOfferParams :
    Wp (getOfferParams network epoch cached) (fun _ h' => Guarded (DumpsOffered event) h') [] := by
  have hscan : ∀ {h : OfferTrace}, Guarded (DumpsOffered event) h →
      Wp (scanOfferEvent network epoch >>= fun offer =>
        if cached then do
          let opened ← askOffer (.create (offerPath network epoch))
          if opened then
            let _ ← askOffer (.dump (offerPath network epoch) offer)
            return offer
          else return offer
        else return offer) (fun _ h' => Guarded (DumpsOffered event) h') h := by
    intro h hg
    rw [wp_bind]
    refine (wp_scanOfferEvent hg).mono fun r h' ⟨hg', hoffered⟩ => ?_
    cases r with
    | error e => exact hg'
    | ok offer =>
      cases cached with
      | false => exact wp_pure.mpr hg'
      | true =>
        show Wp (askOffer (.create (offerPath network epoch)) >>= _) _ h'
        rw [wp_bind, wp_ask]
        intro opened
        have hopen := guarded_snoc.mpr ⟨hg', (nofun : DumpsOffered event h'
          ⟨.create (offerPath network epoch), opened⟩)⟩
        cases opened with
        | false => exact wp_pure.mpr hopen
        | true =>
          show Wp (askOffer (.dump (offerPath network epoch) offer) >>= _) _ _
          rw [wp_bind, wp_ask]
          intro dumped
          refine wp_pure.mpr (guarded_snoc.mpr ⟨hopen, fun honest path offer' hop => ?_⟩)
          cases hop
          obtain ⟨honest, -⟩ := List.forall_mem_append.mp honest
          exact ⟨network, epoch, rfl, hoffered honest offer rfl⟩
  unfold getOfferParams
  cases cached with
  | false => exact hscan guarded_nil
  | true =>
    show Wp (askOffer (.load (offerPath network epoch)) >>= _) _ []
    rw [wp_bind, wp_ask]
    intro found
    have hload : Guarded (DumpsOffered event)
        ([] ++ [⟨.load (offerPath network epoch), found⟩]) :=
      guarded_snoc.mpr ⟨guarded_nil, nofun⟩
    cases found with
    | some offer => exact wp_pure.mpr hload
    | none => exact hscan hload

/-- The offer comes from the file, or from a scan with nothing but file operations around it. -/
theorem runs_getOfferParams (hr : Runs (getOfferParams network epoch cached) t r) :
    (∃ offer, t = [⟨.load (offerPath network epoch), some offer⟩] ∧ r = .ok offer) ∨
      ∃ t₁ t₂ t₃, t = t₁ ++ (t₂ ++ t₃) ∧ Runs (scanOfferEvent network epoch) t₂ r ∧
        ∀ e ∈ t₁ ++ t₃, ∀ ts, e.op ≠ .findBlockForTs ts := by
  have hrest : ∀ {u : OfferTrace}, Runs (scanOfferEvent network epoch >>= fun offer =>
      if cached then do
        let opened ← askOffer (.create (offerPath network epoch))
        if opened then
          let _ ← askOffer (.dump (offerPath network epoch) offer)
          return offer
        else return offer
      else return offer) u r →
      ∃ t₂ t₃, u = t₂ ++ t₃ ∧ Runs (scanOfferEvent network epoch) t₂ r ∧
        ∀ e ∈ t₃, ∀ ts, e.op ≠ .findBlockForTs ts := by
    intro u hu
    rcases runs_bind.mp hu with ⟨offer, t₂, t₃, rfl, h₁, h₂⟩ | ⟨e, h₁, rfl⟩
    swap
    · exact ⟨u, [], (List.append_nil u).symm, h₁, by simp⟩
    refine ⟨t₂, t₃, rfl, ?_⟩
    cases cached with
    | false =>
      obtain ⟨rfl, rfl⟩ := runs_pure.mp h₂
      exact ⟨h₁, by simp⟩
    | true =>
      obtain ⟨opened, t₄, rfl, h₃⟩ := runs_ask_bind.mp h₂
      cases opened with
      | false =>
        obtain ⟨rfl, rfl⟩ := runs_pure.mp h₃
        exact ⟨h₁, by simp⟩
      | true =>
        obtain ⟨dumped, t₅, rfl, h₄⟩ := runs_ask_bind.mp h₃
        obtain ⟨rfl, rfl⟩ := runs_pure.mp h₄
        exact ⟨h₁, by simp⟩
  unfold getOfferParams at hr
  cases cached with
  | false =>
    obtain ⟨t₂, t₃, rfl, hscan, hfiles⟩ := hrest hr
    exact .inr ⟨[], t₂, t₃, rfl, hscan, hfiles⟩
  | true =>
    obtain ⟨found, u, rfl, h₁⟩ := runs_ask_bind.mp hr
    cases found with
    | some offer =>
      obtain ⟨rfl, rfl⟩ := runs_pure.mp h₁
      exact .inl ⟨offer, rfl, rfl⟩
    | none =>
      obtain ⟨t₂, t₃, rfl, hscan, hfiles⟩ := hrest h₁
      refine .inr ⟨[_], t₂, t₃, rfl, hscan, List.forall_mem_append.mpr ⟨fun e he => ?_, hfiles⟩⟩
      rw [List.mem_singleton.mp he]
      exact nofun

end

/-! ## Everybody takes turns -/

theorem offerPath_inj {network network' : Network} {epoch epoch' : Int}
    (h : offerPath network epoch = offerPath network' epoch') :
    network = network' ∧ epoch = epoch' := by
  have hsame : network = network' := by
    have hhead := congrArg (fun s : String => (s.toList.drop 13).head?) h
    cases network <;> cases network' <;>
      simp [offerPath, offerPrefix, Network.str] at hhead ⊢
  subst hsame
  refine ⟨rfl, intToString_inj ?_⟩
  exact (String.append_left_inj ".json").mp ((String.append_right_inj _).mp h)

/-- What a process does with the files. -/
inductive OfferJob where
  | get (network : Network) (epoch : Int) (cached : Bool)
  | prune (network : Network) (keepEpoch : Int)

/-- The step of the environment is that someone removes a file. -/
abbrev OfferTurn := Move Nat (Event offerSig) String

def accessOf : Event offerSig → Access String Offer
  | ⟨.load path, found⟩ => .load path found
  | ⟨.create path, opened⟩ => if opened then .create path else .other
  | ⟨.dump path offer, dumped⟩ => if dumped then .dump path offer else .tear path
  | ⟨.remove path, removed⟩ => if removed then .remove path else .other
  | _ => .other

def turnAccess : OfferTurn → Access String Offer
  | .proc _ e => accessOf e
  | .env path => .remove path

/-- Process `i` does the job `jobs i`, as far as it gets; the files start absent, and the node is
honest. -/
structure OfferTurns [OfferAbi] (event : Network → Int → Option (Int × OfferLog))
    (jobs : Nat → OfferJob) (h : List OfferTurn) (c : Cache String Offer) : Prop where
  getter : ∀ i network epoch cached, jobs i = .get network epoch cached →
    Begun (getOfferParams network epoch cached) (part i h)
  pruner : ∀ i network keepEpoch, jobs i = .prune network keepEpoch →
    Begun (pruneOfferCache network keepEpoch) (part i h)
  honest : ∀ i, ∀ e ∈ part i h, HonestLogs event e
  run : Run (fun c m c' => SharedCache.Step c (turnAccess m) c') (fun _ => .absent) h c

section

variable [OfferAbi] {event : Network → Int → Option (Int × OfferLog)} {jobs : Nat → OfferJob}
  {h : List OfferTurn} {c : Cache String Offer} {network : Network} {epoch : Int}

omit [OfferAbi] in
theorem emits_pruneEach {keepEpoch : Int} {names : List String} :
    Emits (pruneEach network keepEpoch names) fun e => ∃ name, e.op = .remove name := by
  induction names with
  | nil => exact emits_pure _
  | cons name names ih =>
    rw [pruneEach]
    split
    · exact ih
    · split
      · exact emits_bind (emits_ask fun _ => ⟨name, rfl⟩) fun _ => ih
      · exact ih

omit [OfferAbi] in
theorem emits_pruneOfferCache {keepEpoch : Int} :
    Emits (pruneOfferCache network keepEpoch) fun e => ∀ path offer, e.op ≠ .dump path offer := by
  unfold pruneOfferCache
  refine emits_bind (emits_ask fun _ => nofun) fun names => ?_
  split
  · exact emits_pure _
  · intro t r hr e he path offer hop
    obtain ⟨name, hname⟩ := emits_pruneEach t r hr e he
    rw [hname] at hop
    cases hop

/-- Every offer that is written is the one of the epoch in the file's name. -/
theorem OfferTurns.dumped (hs : OfferTurns event jobs h c) {m : OfferTurn} (hm : m ∈ h)
    {path : String} {offer : Offer} (hdump : turnAccess m = .dump path offer) :
    ∃ network epoch, path = offerPath network epoch ∧ Offered event network epoch offer := by
  cases m with
  | env name => cases hdump
  | proc i e =>
    have hop : e.op = .dump path offer := by
      obtain ⟨op, ans⟩ := e
      cases op with
      | dump path' offer' =>
        cases ans with
        | true =>
          cases hdump
          rfl
        | false => cases hdump
      | create path' => cases ans <;> cases hdump
      | remove path' => cases ans <;> cases hdump
      | _ => cases hdump
    have hmem : e ∈ part i h := by
      obtain ⟨h₁, h₂, rfl⟩ := List.append_of_mem hm
      simp
    cases hjob : jobs i with
    | get network epoch cached =>
      obtain ⟨t₁, t₂, ht⟩ := List.append_of_mem hmem
      have hguard := (hs.getter i _ _ _ hjob).guarded (P := DumpsOffered event)
        (fun t r hr => wp_getOfferParams t r hr) t₁ e t₂ ht
      refine hguard (fun e' he' => hs.honest i e' ?_) path offer hop
      rw [ht]
      exact List.mem_append_left _ he'
    | prune network keepEpoch =>
      obtain ⟨t', r, hr⟩ := hs.pruner i _ _ hjob
      exact absurd hop (emits_pruneOfferCache _ _ hr e (List.mem_append_left _ hmem) path offer)

/-- Whoever takes turns on the files, and wherever a process is killed: a call that returns has the
offer of the event of its own network and epoch.  A call that went to the chain does return it, if
the event lies in the 20000 blocks from the first one on and no read of logs failed. -/
theorem offers_told (hs : OfferTurns event jobs h c) {k : Nat} {cached : Bool}
    {r : Except Exc Offer}
    (hr : Runs (getOfferParams network epoch cached) (part k h) r) :
    (∀ offer, r = .ok offer → Offered event network epoch offer) ∧
      ∀ ts start, (⟨.findBlockForTs ts, .ok start⟩ : Event offerSig) ∈ part k h →
        (∀ e ∈ part k h, LogsServed e) → 0 ≤ epoch → epoch < 2 ^ 256 → ∀ b log offer,
          event network epoch = some (b, log) → start ≤ b → b ≤ start + 20000 →
            offerOf network epoch log = .ok offer → r = .ok offer := by
  have hstart : Holds (fun path offer => ∃ network epoch,
      path = offerPath network epoch ∧ Offered event network epoch offer) fun _ => .absent := nofun
  have hhits := hit_true hs.run hstart fun m hm path offer hdump => hs.dumped hm hdump
  rcases runs_getOfferParams hr with ⟨offer, ht, rfl⟩ | ⟨t₁, t₂, t₃, ht, hscan, hfiles⟩
  · have hload : (⟨.load (offerPath network epoch), some offer⟩ : Event offerSig) ∈ part k h := by
      rw [ht]
      exact List.mem_singleton_self _
    obtain ⟨t₁, t₂, hsplit⟩ := List.append_of_mem hload
    obtain ⟨h₁, h₂, hh, -, -⟩ := part_split hsplit
    have hmem : (.proc k ⟨.load (offerPath network epoch), some offer⟩ : OfferTurn) ∈ h := by
      rw [hh]
      simp
    obtain ⟨network', epoch', hpath, hoffered⟩ := hhits _ hmem _ offer rfl
    obtain ⟨rfl, rfl⟩ := offerPath_inj hpath
    refine ⟨fun offer' heq => ?_, fun ts start hfind => ?_⟩
    · cases heq
      exact hoffered
    · rw [ht] at hfind
      cases List.mem_singleton.mp hfind
  · have honest : ∀ e ∈ t₂, HonestLogs event e := by
      intro e he
      refine hs.honest k e ?_
      rw [ht]
      exact List.mem_append_right _ (List.mem_append_left _ he)
    rcases runs_scanOfferEvent hscan with
      ⟨hnone, e, rfl⟩ | ⟨u₁, u₂, address, ts₀, start₀, rfl, hnames, hfrom⟩
    · refine ⟨nofun, fun ts start hfind => ?_⟩
      rw [ht] at hfind
      simp only [List.mem_append] at hfind hfiles
      rcases hfind with hfind | hfind | hfind
      · exact absurd rfl (hfiles _ (.inl hfind) ts)
      · exact absurd rfl (hnone _ hfind ts start)
      · exact absurd rfl (hfiles _ (.inr hfind) ts)
    · obtain ⟨-, honest⟩ := List.forall_mem_append.mp honest
      obtain ⟨htold, hfound⟩ := runs_scanFrom hfrom (List.forall_mem_cons.mp honest).2
      refine ⟨htold, fun ts start hfind hserved => ?_⟩
      have hstart : start = start₀ := by
        rw [ht] at hfind
        simp only [List.mem_append, List.mem_cons] at hfind hfiles
        rcases hfind with hfind | (hfind | hfind | hfind) | hfind
        · exact absurd rfl (hfiles _ (.inl hfind) ts)
        · obtain ⟨name, hop⟩ := hnames _ hfind
          cases hop
        · cases hfind
          rfl
        · obtain ⟨lo, hi, hop⟩ := emits_scanFrom _ _ hfrom _ hfind
          cases hop
        · exact absurd rfl (hfiles _ (.inr hfind) ts)
      subst hstart
      refine hfound fun e he => hserved e ?_
      rw [ht]
      exact List.mem_append_right _ (List.mem_append_left _
        (List.mem_append_right _ (List.mem_cons_of_mem _ he)))

end

/-! ### A writer is killed, and another takes over -/

/-- A word of 32 bytes. -/
def abiWord (n : Nat) : Bytes := (List.range 32).map fun i => (n / 256 ^ (31 - i)).toUInt8

/-- A byte string behind its length, padded to whole words. -/
def abiBytes (b : Bytes) : Bytes := abiWord b.length ++ b ++ List.replicate (32 - b.length) 0

/-- The category, the name and the padding of a feed. -/
def flrFeed : Bytes := [1, 70, 76, 82, 47, 85, 83, 68] ++ List.replicate 13 0

/-- The data of an offer with one feed of five decimals and a band of 1000 ppm. -/
def offerData : String :=
  "0x" ++ Py.toHex (abiWord 224 ++ abiWord 288 ++ abiWord 1 ++ abiWord 6600 ++ abiWord 700000 ++
    abiWord 352 ++ abiWord 0 ++ abiBytes flrFeed ++ abiBytes [5] ++ abiBytes [0, 3, 232])

/-- The decoder, on that text. -/
@[reducible] def sampleAbi : OfferAbi where
  decode data :=
    if data = offerData then .ok ⟨flrFeed, [5], 6600, 700000, [0, 3, 232]⟩
    else .error (.other "InsufficientDataBytes" "")

def sampleLog : OfferLog := ⟨offerData, "0x3f2"⟩

def sampleOffer : Offer :=
  { rewardEpochId := 300
    network := .flare
    block := 1010
    primaryBandRewardSharePpm := 700000
    minRewardedTurnoutBips := 6600
    feeds := ["FLR/USD"]
    decimals := Dict.empty.set "FLR/USD" 5
    secondaryBandWidthPpm := Dict.empty.set "FLR/USD" 1000 }

theorem sampleOffer_of_log : @offerOf sampleAbi .flare 300 sampleLog = .ok sampleOffer := by
  have hdecode : sampleAbi.decode sampleLog.data =
      .ok ⟨flrFeed, [5], 6600, 700000, [0, 3, 232]⟩ := if_pos rfl
  unfold offerOf
  rw [hdecode]
  rfl

/-- The one event, in block 1010. -/
def sampleEvent : Network → Int → Option (Int × OfferLog)
  | .flare, 300 => some (1010, sampleLog)
  | _, _ => none

def sampleFile : String := offerPath .flare 300

/-- The scan finds the event in its first chunk. -/
def foundTrace : OfferTrace :=
  [⟨.findBlockForTs 1748847600, .ok 1000⟩,
    ⟨.getLogs .flare "0x244EA7f173895968128D5847Df2C75B1460ac685" 300 1000 1029, .ok [sampleLog]⟩]

/-- The file is not there, and is emptied after the scan. -/
def emptiedTrace : OfferTrace :=
  ⟨.load sampleFile, none⟩ :: (foundTrace ++ [⟨.create sampleFile, true⟩])

def writtenTrace : OfferTrace := emptiedTrace ++ [⟨.dump sampleFile sampleOffer, true⟩]

def readTrace : OfferTrace := [⟨.load sampleFile, some sampleOffer⟩]

/-- The first process is killed before it writes, the second writes, and the third reads. -/
def sampleTurns : List OfferTurn :=
  emptiedTrace.map (.proc 0) ++ (writtenTrace.map (.proc 1) ++ readTrace.map (.proc 2))

theorem runs_written :
    Runs (@getOfferParams sampleAbi .flare 300 true) writtenTrace (.ok sampleOffer) := by
  have hscan : Runs (@scanOfferEvent sampleAbi .flare 300) foundTrace (.ok sampleOffer) := by
    refine runs_ask_bind.mpr ⟨.ok 1000, _, rfl, ?_⟩
    refine runs_fromExcept_bind.mpr (.inl ⟨1000, rfl, ?_⟩)
    refine runs_fromExcept_bind.mpr (.inl ⟨(), rfl, ?_⟩)
    refine runs_bind.mpr (.inl ⟨some sampleLog, [_], [], rfl, ?_, ?_⟩)
    · rw [scanLoop, if_pos (by decide)]
      exact runs_ask_bind.mpr ⟨.ok [sampleLog], [], rfl, runs_pure.mpr ⟨rfl, rfl⟩⟩
    · exact runs_fromExcept.mpr ⟨rfl, sampleOffer_of_log.symm⟩
  refine runs_ask_bind.mpr ⟨none, _, rfl, ?_⟩
  refine runs_bind.mpr (.inl ⟨sampleOffer, foundTrace, _, rfl, hscan, ?_⟩)
  refine runs_ask_bind.mpr ⟨true, _, rfl, ?_⟩
  exact runs_ask_bind.mpr ⟨true, [], rfl, runs_pure.mpr ⟨rfl, rfl⟩⟩

theorem runs_read :
    Runs (@getOfferParams sampleAbi .flare 300 true) readTrace (.ok sampleOffer) :=
  runs_ask_bind.mpr ⟨some sampleOffer, [], rfl, runs_pure.mpr ⟨rfl, rfl⟩⟩

def sampleJob : OfferJob := .get .flare 300 true

theorem part_sampleTurns : part 0 sampleTurns = emptiedTrace ∧ part 1 sampleTurns = writtenTrace ∧
    part 2 sampleTurns = readTrace ∧ ∀ i, part (i + 3) sampleTurns = [] := by
  simp [sampleTurns, part_own, part_other]

theorem sampleTurns_begun (i : Nat) :
    Begun (@getOfferParams sampleAbi .flare 300 true) (part i sampleTurns) := by
  obtain ⟨h0, h1, h2, h3⟩ := part_sampleTurns
  match i with
  | 0 =>
    rw [h0]
    exact ⟨_, _, runs_written⟩
  | 1 =>
    rw [h1]
    exact ⟨[], _, runs_written⟩
  | 2 =>
    rw [h2]
    exact ⟨[], _, runs_read⟩
  | i + 3 =>
    rw [h3]
    exact ⟨_, _, runs_read⟩

theorem sampleTurns_honest (i : Nat) : ∀ e ∈ part i sampleTurns, HonestLogs sampleEvent e := by
  have hall : ∀ e ∈ writtenTrace ++ readTrace, HonestLogs sampleEvent e := by
    simp [writtenTrace, emptiedTrace, foundTrace, readTrace, HonestLogs, offerLogs, sampleEvent]
  obtain ⟨h0, h1, h2, h3⟩ := part_sampleTurns
  intro e he
  refine hall e ?_
  match i with
  | 0 =>
    rw [h0] at he
    exact List.mem_append_left _ (List.mem_append_left _ he)
  | 1 =>
    rw [h1] at he
    exact List.mem_append_left _ he
  | 2 =>
    rw [h2] at he
    exact List.mem_append_right _ he
  | i + 3 =>
    rw [h3] at he
    cases he

theorem sampleTurns_ok :
    ∃ c, @OfferTurns sampleAbi sampleEvent (fun _ => sampleJob) sampleTurns c := by
  have hscan : ∀ i (c : Cache String Offer),
      Run (fun c m c' => SharedCache.Step c (turnAccess m) c') c
        (emptiedTrace.map (.proc i) : List OfferTurn) (Function.update c sampleFile .torn) :=
    fun i c => .cons .miss (.cons .other (.cons .other (.single .create)))
  have hwrite : ∀ c : Cache String Offer,
      Run (fun c m c' => SharedCache.Step c (turnAccess m) c') c
        (writtenTrace.map (.proc 1) : List OfferTurn)
        (Function.update (Function.update c sampleFile .torn) sampleFile (.whole sampleOffer)) :=
    fun c => .snoc (hscan 1 c) .dump
  have hread : ∀ c : Cache String Offer, c sampleFile = .whole sampleOffer →
      Run (fun c m c' => SharedCache.Step c (turnAccess m) c') c
        (readTrace.map (.proc 2) : List OfferTurn) c :=
    fun c hc => .single (.hit hc)
  have hbegun : ∀ i network epoch cached, sampleJob = .get network epoch cached →
      Begun (@getOfferParams sampleAbi network epoch cached) (part i sampleTurns) := by
    intro i network epoch cached hjob
    cases hjob
    exact sampleTurns_begun i
  exact ⟨_, @OfferTurns.mk sampleAbi _ _ _ _ hbegun nofun sampleTurns_honest
    (.append (hscan 0 _) (.append (hwrite _) (hread _ (Function.update_self ..))))⟩

theorem offers_told_killed :
    (∃ c, @OfferTurns sampleAbi sampleEvent (fun _ => sampleJob) sampleTurns c) ∧
      @Offered sampleEvent sampleAbi .flare 300 sampleOffer := by
  obtain ⟨c, hs⟩ := sampleTurns_ok
  have hr : Runs (@getOfferParams sampleAbi .flare 300 true) (part 2 sampleTurns)
      (.ok sampleOffer) := by
    rw [part_sampleTurns.2.2.1]
    exact runs_read
  exact ⟨⟨c, hs⟩, (@offers_told sampleAbi _ _ _ _ _ _ hs 2 _ _ hr).1 sampleOffer rfl⟩

end Clif.Observe
