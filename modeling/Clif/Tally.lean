import Clif.SigningProgress
import Mathlib.Algebra.BigOperators.Group.List.Basic
import Mathlib.Data.List.Dedup

/-!
# Tally — what `_merge` holds and what `_aggregate` makes of it

`Holds b P` says that `b` holds exactly the logs of `P`; `holds_merge` is its step.  The leading
hash, its weight and its signers depend on the votes only (`Tallied.agree`), as long as one hash
alone has the largest weight: between equals the order of insertion decides.
-/

namespace Clif

/-! ## What the dictionaries hold -/

/-- `byHash` holds the votes of the logs in `P`, with their threshold flags. -/
structure Holds (byHash : ByHash) (P : SignedLog → Prop) : Prop where
  hashes : ∀ h, h ∈ byHash.keys ↔ ∃ l, P l ∧ l.messageHash = h
  votes : ∀ h spa flag, (signersOf byHash h).get? spa = some flag ↔
    ∃ l, P l ∧ l.messageHash = h ∧ l.signingPolicyAddress = spa ∧ l.thresholdReached = flag

/-- Logs of one hash and one signer are one. -/
def LoggedOnce (P : SignedLog → Prop) : Prop :=
  ∀ l l', P l → P l' → l.messageHash = l'.messageHash →
    l.signingPolicyAddress = l'.signingPolicyAddress → l = l'

theorem holds_empty : Holds Dict.empty fun _ => False := by
  constructor <;> simp [signersOf]

theorem Holds.congr {b : ByHash} {P Q : SignedLog → Prop} (h : Holds b P) (hpq : ∀ l, P l ↔ Q l) :
    Holds b Q := by
  rwa [← funext fun l => propext (hpq l)]

theorem signersOf_mergeLog {b : ByHash} {l : SignedLog} {h : String} :
    signersOf (mergeLog b l) h =
      if l.messageHash = h then (signersOf b h).set l.signingPolicyAddress l.thresholdReached
      else signersOf b h := by
  unfold mergeLog signersOf
  rw [Dict.get?_set]
  split
  · rename_i heq
    subst heq
    rfl
  · rfl

theorem holds_mergeLog {b : ByHash} {P : SignedLog → Prop} {l : SignedLog}
    (honce : LoggedOnce fun l' => P l' ∨ l' = l) (h : Holds b P) :
    Holds (mergeLog b l) fun l' => P l' ∨ l' = l := by
  constructor
  · intro hash
    rw [mergeLog, Dict.mem_keys_set, h.hashes]
    constructor
    · rintro (rfl | ⟨l', hl', rfl⟩)
      · exact ⟨l, Or.inr rfl, rfl⟩
      · exact ⟨l', Or.inl hl', rfl⟩
    · rintro ⟨l', hl' | rfl, rfl⟩
      · exact Or.inr ⟨l', hl', rfl⟩
      · exact Or.inl rfl
  · intro hash spa flag
    rw [signersOf_mergeLog]
    by_cases hh : l.messageHash = hash
    swap
    · rw [if_neg hh, h.votes]
      constructor
      · rintro ⟨l', hl', rest⟩
        exact ⟨l', Or.inl hl', rest⟩
      · rintro ⟨l', hl' | rfl, rfl, rest⟩
        · exact ⟨l', hl', rfl, rest⟩
        · exact absurd rfl hh
    rw [if_pos hh, Dict.get?_set]
    by_cases hs : l.signingPolicyAddress = spa
    · -- the signer of `l`: an older vote of the same pair is `l` itself
      rw [if_pos hs, Option.some.injEq]
      constructor
      · rintro rfl
        exact ⟨l, Or.inr rfl, hh, hs, rfl⟩
      · rintro ⟨l', hl', hh', hs', rfl⟩
        rw [honce l' l hl' (Or.inr rfl) (hh'.trans hh.symm) (hs'.trans hs.symm)]
    · rw [if_neg hs, h.votes]
      constructor
      · rintro ⟨l', hl', rest⟩
        exact ⟨l', Or.inl hl', rest⟩
      · rintro ⟨l', hl' | rfl, hh', hs', hf⟩
        · exact ⟨l', hl', hh', hs', hf⟩
        · exact absurd hs' hs

theorem holds_merge {b : ByHash} {P : SignedLog → Prop} {logs : List SignedLog}
    (honce : LoggedOnce fun l => P l ∨ l ∈ logs) (h : Holds b P) :
    Holds (merge b logs) fun l => P l ∨ l ∈ logs := by
  induction logs generalizing b P with
  | nil => exact h.congr fun l => by simp
  | cons l logs ih =>
    have honce' : LoggedOnce fun l' => P l' ∨ l' = l := by
      intro l₁ l₂ h₁ h₂
      refine honce l₁ l₂ ?_ ?_
      · exact h₁.imp_right fun (heq : l₁ = l) => heq ▸ List.mem_cons_self ..
      · exact h₂.imp_right fun (heq : l₂ = l) => heq ▸ List.mem_cons_self ..
    have hstep := holds_mergeLog honce' h
    have hall : ∀ l', ((P l' ∨ l' = l) ∨ l' ∈ logs) ↔ P l' ∨ l' ∈ l :: logs := by
      intro l'
      rw [List.mem_cons, or_assoc]
    exact (ih (fun l₁ l₂ h₁ h₂ => honce l₁ l₂ ((hall l₁).mp h₁) ((hall l₂).mp h₂)) hstep).congr hall

theorem Holds.mem_signers {b : ByHash} {P : SignedLog → Prop} (h : Holds b P) {hash spa : String} :
    spa ∈ (signersOf b hash).keys ↔
      ∃ l, P l ∧ l.messageHash = hash ∧ l.signingPolicyAddress = spa := by
  rw [Dict.mem_keys, Option.isSome_iff_exists]
  constructor
  · rintro ⟨flag, hf⟩
    obtain ⟨l, hl, hh, hs, -⟩ := (h.votes hash spa flag).mp hf
    exact ⟨l, hl, hh, hs⟩
  · rintro ⟨l, hl, hh, hs⟩
    exact ⟨l.thresholdReached, (h.votes hash spa _).mpr ⟨l, hl, hh, hs, rfl⟩⟩

theorem mem_allSigners {b : ByHash} {spa : String} :
    spa ∈ allSigners b ↔ ∃ h, spa ∈ (signersOf b h).keys := by
  unfold allSigners Dict.values
  simp only [List.mem_flatMap, List.mem_map, Prod.exists, exists_eq_right]
  constructor
  · rintro ⟨signers, ⟨h, hin⟩, hspa⟩
    refine ⟨h, ?_⟩
    rw [signersOf, Dict.mem_entries.mp hin]
    exact hspa
  · rintro ⟨h, hspa⟩
    unfold signersOf at hspa
    cases hg : b.get? h with
    | none =>
      rw [hg] at hspa
      simp at hspa
    | some signers =>
      rw [hg] at hspa
      exact ⟨signers, ⟨h, Dict.mem_entries.mpr hg⟩, hspa⟩

/-! ## The leading hash -/

/-- The hash has votes, and none has more weight. -/
def Leads (w : Weights) (b : ByHash) (h : String) : Prop :=
  h ∈ b.keys ∧ ∀ h' ∈ b.keys, hashWeight w (signersOf b h') ≤ hashWeight w (signersOf b h)

theorem leads_leadingHash {w : Weights} {b : ByHash} {h : String} (hl : leadingHash w b = some h) :
    Leads w b h :=
  ⟨List.argmax_mem hl, fun _ hh' => List.le_of_mem_argmax
    (f := fun h => hashWeight w (signersOf b h)) hh' hl⟩

theorem leadingHash_eq_none {w : Weights} {b : ByHash} : leadingHash w b = none ↔ b.keys = [] :=
  List.argmax_eq_none

/-- The weight of the signers of a hash in a list of logs. -/
def weightIn (weight : String → Int) (logs : List SignedLog) (h : String) : Int :=
  ((((logs.filter fun l => l.messageHash = h).map fun l => l.signingPolicyAddress).dedup).map
    weight).sum

/-- The hash was voted for in these logs, and none has more weight. -/
def LeadsIn (weight : String → Int) (logs : List SignedLog) (h : String) : Prop :=
  (∃ l ∈ logs, l.messageHash = h) ∧
    ∀ l ∈ logs, weightIn weight logs l.messageHash ≤ weightIn weight logs h

/-- No two hashes share the largest weight. -/
def NoTie (weight : String → Int) (logs : List SignedLog) : Prop :=
  ∀ h h', LeadsIn weight logs h → LeadsIn weight logs h' → h = h'

/-- `b` holds the votes of `logs`, and `w` the weights of their signers. -/
structure Tallied (weight : String → Int) (logs : List SignedLog) (b : ByHash) (w : Weights) :
    Prop where
  holds : Holds b fun l => l ∈ logs
  weights : ∀ l ∈ logs, w.of l.signingPolicyAddress = weight l.signingPolicyAddress

section

variable {weight : String → Int} {logs : List SignedLog} {b b' : ByHash} {w w' : Weights}

theorem Tallied.hashWeight_eq (ht : Tallied weight logs b w) (h : String) :
    hashWeight w (signersOf b h) = weightIn weight logs h := by
  have hmem : ∀ spa, spa ∈ (signersOf b h).keys ↔
      spa ∈ ((logs.filter fun l => l.messageHash = h).map fun l =>
        l.signingPolicyAddress).dedup := by
    intro spa
    rw [ht.holds.mem_signers]
    simp only [List.mem_dedup, List.mem_map, List.mem_filter, decide_eq_true_eq, and_assoc]
  have hperm :=
    (List.perm_ext_iff_of_nodup (signersOf b h).keys_nodup (List.nodup_dedup _)).mpr hmem
  have hw : (signersOf b h).keys.map w.of = (signersOf b h).keys.map weight := by
    refine List.map_congr_left fun spa hspa => ?_
    obtain ⟨l, hl, -, rfl⟩ := ht.holds.mem_signers.mp hspa
    exact ht.weights l hl
  rw [hashWeight, weightIn, hw]
  exact (hperm.map weight).sum_eq

theorem Tallied.leads_iff (ht : Tallied weight logs b w) (h : String) :
    Leads w b h ↔ LeadsIn weight logs h := by
  unfold Leads LeadsIn
  simp only [ht.hashWeight_eq, ht.holds.hashes]
  constructor
  · exact fun ⟨hin, hle⟩ => ⟨hin, fun l hl => hle _ ⟨l, hl, rfl⟩⟩
  · exact fun ⟨hin, hle⟩ => ⟨hin, by rintro h' ⟨l, hl, rfl⟩; exact hle l hl⟩

theorem Tallied.leadingHash_eq (ht : Tallied weight logs b w) (ht' : Tallied weight logs b' w')
    (hno : NoTie weight logs) : leadingHash w b = leadingHash w' b' := by
  cases hl : leadingHash w b with
  | none =>
    have hb : b.keys = [] := leadingHash_eq_none.mp hl
    have hb' : b'.keys = [] := by
      refine List.eq_nil_iff_forall_not_mem.mpr fun h hh => ?_
      have hin := (ht.holds.hashes h).mpr ((ht'.holds.hashes h).mp hh)
      rw [hb] at hin
      cases hin
    exact (leadingHash_eq_none.mpr hb').symm
  | some h =>
    cases hl' : leadingHash w' b' with
    | none =>
      have hb' : b'.keys = [] := leadingHash_eq_none.mp hl'
      have hin := (ht'.holds.hashes h).mpr ((ht.holds.hashes h).mp (leads_leadingHash hl).1)
      rw [hb'] at hin
      cases hin
    | some h' =>
      rw [hno h h' ((ht.leads_iff h).mp (leads_leadingHash hl))
        ((ht'.leads_iff h').mp (leads_leadingHash hl'))]

/-- Equal lookups in the signers of every hash. -/
theorem Tallied.get?_eq (ht : Tallied weight logs b w) (ht' : Tallied weight logs b' w')
    (h spa : String) : (signersOf b h).get? spa = (signersOf b' h).get? spa := by
  ext flag
  rw [ht.holds.votes, ht'.holds.votes]

end

/-! ## The progress -/

/-- Two progresses agree on what they say about the votes. -/
structure SameView (p p' : SigningProgress) : Prop where
  messageHash : p.messageHash = p'.messageHash
  signedWeight : p.signedWeight = p'.signedWeight
  signers : ∀ spa, spa ∈ p.signers.map SignerEntry.signingPolicyAddress ↔
    spa ∈ p'.signers.map SignerEntry.signingPolicyAddress
  finalized : p.finalized = p'.finalized
  ourSigned : p.ourSigned = p'.ourSigned

theorem mem_signerEntries {w : Weights} {signers : Dict String Bool} {spa : String} :
    spa ∈ (signerEntries w signers).map SignerEntry.signingPolicyAddress ↔ spa ∈ signers.keys := by
  unfold signerEntries
  rw [((List.mergeSort_perm _ _).map _).mem_iff, List.map_map]
  simp

/-- Whatever the order in which the votes came in. -/
theorem Tallied.agree {weight : String → Int} {logs : List SignedLog} {b b' : ByHash}
    {w w' : Weights} (ht : Tallied weight logs b w) (ht' : Tallied weight logs b' w')
    (hno : NoTie weight logs) (epoch : Int) (kind : SigningKind) (total ppm : Int)
    (ourSpa : Option String) (complete complete' : Bool) (scannedFrom scannedFrom' : Int) :
    SameView (aggregate epoch kind b w total ppm ourSpa complete scannedFrom)
      (aggregate epoch kind b' w' total ppm ourSpa complete' scannedFrom') := by
  have hlead : leadingHash w b = leadingHash w' b' := ht.leadingHash_eq ht' hno
  have hget : ∀ spa, (lead w b).get? spa = (lead w' b').get? spa := by
    intro spa
    unfold lead
    rw [hlead]
    cases leadingHash w' b' with
    | none => rfl
    | some h => exact ht.get?_eq ht' h spa
  have hperm := Dict.perm_of_get?_eq hget
  have hmem : ∀ spa, spa ∈ (lead w b).keys ↔ spa ∈ (lead w' b').keys := fun spa => by
    rw [Dict.mem_keys, Dict.mem_keys, hget]
  have hweight : hashWeight w (lead w b) = hashWeight w' (lead w' b') := by
    unfold lead
    rw [hlead]
    cases leadingHash w' b' with
    | none => rfl
    | some h =>
      show hashWeight w (signersOf b h) = hashWeight w' (signersOf b' h)
      rw [ht.hashWeight_eq, ht'.hashWeight_eq]
  have hflags : (lead w b).values.any id = (lead w' b').values.any id :=
    (hperm.map Prod.snd).any_eq
  refine ⟨?_, hweight, fun spa => ?_, ?_, ?_⟩
  · simp only [aggregate, hlead]
  · simp only [aggregate, mem_signerEntries, hmem]
  · simp only [aggregate, hflags, hweight]
  · simp only [aggregate, ourIn, Dict.contains, hget]

end Clif
