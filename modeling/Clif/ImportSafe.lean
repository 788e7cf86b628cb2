import Clif.Bundle

/-!
# ImportSafe — an import writes its own assignments and no others

`importUndisturbed_iff` says for which bundles that is so: the values may hold none of the line
boundaries of `splitlines` that `_is_clean` lets through.
-/

namespace Clif

open PyStr

/-! ## The names an import writes -/

/-- The names of every import: the caller tokens, the wallets, the config section and `NETWORK`. -/
def ownNames (s : Settings) : List PyStr :=
  (capabilities s).map (fun c => c.callerTokenEnv) ++ (capabilities s).map (fun c => c.walletEnv) ++
    configEnvAllowlist s ++ [py "NETWORK"]

/-- A decision of `PlainName`. -/
def isPlain (name : PyStr) : Bool :=
  !name.isEmpty && !(py "#").isPrefixOf name && name.all fun c => !isSpace c && c != 0x3D

theorem plainName_of_isPlain {name : PyStr} (h : isPlain name = true) : PlainName name := by
  simp only [isPlain, Bool.and_eq_true, Bool.not_eq_true', List.all_eq_true, bne_iff_ne] at h
  refine ⟨fun hnil => ?_, h.1.2, h.2⟩
  rw [hnil] at h
  cases h.1.1

/-- The names that `clif` writes itself have capitals only, and none is that of a private key. -/
theorem settingsFields_names : ∀ name ∈ settingsFields, isPlain (upper (py name)) = true ∧
    (∀ c ∈ upper (py name), c < 0x61) ∧
    isIn (py "PRIVATE_KEY") (upper (upper (py name))) = false := by
  decide +kernel

theorem isPlain_settingsFields : ∀ name ∈ settingsFields, isPlain (upper (py name)) = true :=
  fun name hname => (settingsFields_names name hname).1

theorem isPlain_capabilities : ∀ cap ∈ capabilities {}, isPlain cap.callerTokenEnv = true ∧
    isPlain cap.walletEnv = true := by
  decide +kernel

/-- What holds of the names of `Settings` and of the capabilities holds of them all. -/
theorem forall_own {P : PyStr → Prop} {s : Settings} {name : PyStr} (h : name ∈ ownNames s)
    (hcaps : ∀ cap ∈ capabilities {}, P cap.callerTokenEnv ∧ P cap.walletEnv)
    (hfields : ∀ field ∈ settingsFields, P (upper (py field))) (hnetwork : P (py "NETWORK")) :
    P name := by
  have htokens : (capabilities s).map (fun c => c.callerTokenEnv) =
      (capabilities {}).map fun c => c.callerTokenEnv := by simp [capabilities]
  have hwallets : (capabilities s).map (fun c => c.walletEnv) =
      (capabilities {}).map fun c => c.walletEnv := by simp [capabilities]
  rw [ownNames, htokens, hwallets] at h
  simp only [List.mem_append, or_assoc] at h
  rcases h with h | h | h | h
  · obtain ⟨cap, hcap, rfl⟩ := List.mem_map.mp h
    exact (hcaps cap hcap).1
  · obtain ⟨cap, hcap, rfl⟩ := List.mem_map.mp h
    exact (hcaps cap hcap).2
  · obtain ⟨field, hfield, rfl⟩ := List.mem_map.mp (List.mem_filter.mp h).1
    exact hfields field hfield
  · rw [List.mem_singleton.mp h]
    exact hnetwork

theorem plainName_own {s : Settings} {name : PyStr} (h : name ∈ ownNames s) : PlainName name :=
  plainName_of_isPlain
    (forall_own (P := fun name => isPlain name = true) h isPlain_capabilities isPlain_settingsFields
      (by decide))

/-- The governed caller-token names of the entries. -/
def tokenNames (s : Settings) (bundle : Json) : List PyStr :=
  (entriesOf bundle).map fun entry =>
    ((governed s (entry.field "capability_id").text).map fun c => c.callerTokenEnv).getD []

/-- The wallet names that come with them in a v2 bundle. -/
def walletNames (s : Settings) (bundle : Json) : List PyStr :=
  if isV2 bundle then (entriesOf bundle).map (walletEnvOf s) else []

/-- The keys of the config section of a v2 bundle. -/
def configNames (bundle : Json) : List PyStr :=
  if isV2 bundle then (configItems bundle).map Prod.fst else []

/-- The names the import may assign. -/
def writtenNames (s : Settings) (network : Network) (bundle : Json) : List PyStr :=
  tokenNames { s with network := network } bundle ++
    walletNames { s with network := network } bundle ++ configNames bundle ++ [py "NETWORK"]

section

variable {s : Settings} {network : Network} {bundle : Json}

theorem mem_writtenNames (h : Accepted s network bundle) {name : PyStr} :
    name ∈ writtenNames s network bundle ↔
      name ∈ (bundleWrites s network bundle).map Prod.fst := by
  have htokens : name ∈ tokenNames { s with network := network } bundle ↔
      ∃ entry ∈ entriesOf bundle, (entry.field "caller_token_env").text = name := by
    rw [tokenNames, List.mem_map]
    refine exists_congr fun entry => and_congr_right fun hmem => ?_
    obtain ⟨cap, hcap⟩ := h.entries entry hmem
    rw [hcap.governed, hcap.env]
    rfl
  have hwallets : name ∈ walletNames { s with network := network } bundle ↔
      ∃ entry ∈ entriesOf bundle,
        isV2 bundle = true ∧ walletEnvOf { s with network := network } entry = name := by
    unfold walletNames
    split
    · rename_i hv2
      simp [hv2]
    · rename_i hv1
      simp [hv1]
  have hentries : name ∈ ((entriesOf bundle).flatMap
        (entryWrites { s with network := network } (isV2 bundle))).map Prod.fst ↔
      (∃ entry ∈ entriesOf bundle, (entry.field "caller_token_env").text = name) ∨
        ∃ entry ∈ entriesOf bundle,
          isV2 bundle = true ∧ walletEnvOf { s with network := network } entry = name := by
    rw [List.map_flatMap, List.mem_flatMap, ← exists_or]
    refine exists_congr fun entry => ?_
    rw [← and_or_left]
    refine and_congr_right fun _ => ?_
    cases isV2 bundle <;> simp [entryWrites, eq_comm]
  have hconfig : name ∈ configNames bundle ↔ name ∈ (configWrites bundle).map Prod.fst := by
    unfold configNames configWrites
    split <;> simp
  rw [writtenNames, bundleWrites, List.map_append, List.map_append, List.mem_append,
    List.mem_append,
    List.mem_append, List.mem_append, List.mem_append, htokens, hwallets, hconfig, hentries]
  rfl

/-- Every upsert writes one of clif's own names. -/
theorem bundleWrites_own (h : Accepted s network bundle) {w : PyStr × PyStr}
    (hw : w ∈ bundleWrites s network bundle) :
    w.1 ∈ ownNames { s with network := network } := by
  unfold ownNames
  rcases List.mem_append.mp hw with hw | hw
  · rcases List.mem_append.mp hw with hw | hw
    · obtain ⟨entry, hentry, hw⟩ := List.mem_flatMap.mp hw
      obtain ⟨cap, hcap⟩ := h.entries entry hentry
      have hmem : cap ∈ capabilities { s with network := network } :=
        List.mem_of_find?_eq_some hcap.governed
      rcases List.mem_cons.mp hw with rfl | hw
      · have hin := List.mem_map_of_mem (f := fun c : Capability => c.callerTokenEnv) hmem
        simp only [hcap.env, List.mem_append]
        exact .inl (.inl (.inl hin))
      · split at hw
        · rw [List.mem_singleton.mp hw]
          have hin := List.mem_map_of_mem (f := fun c : Capability => c.walletEnv) hmem
          simp only [walletEnvOf, hcap.governed, List.mem_append]
          exact .inl (.inl (.inr hin))
        · cases hw
    · unfold configWrites at hw
      split at hw
      · rename_i hv2
        obtain ⟨item, hitem, rfl⟩ := List.mem_map.mp hw
        simp only [List.mem_append]
        exact .inl (.inr (h.config hv2 item hitem).allowed)
      · cases hw
  · rw [List.mem_singleton.mp hw]
    simp

theorem bundleWrites_plain (h : Accepted s network bundle) {w : PyStr × PyStr}
    (hw : w ∈ bundleWrites s network bundle) : PlainName w.1 :=
  plainName_own (bundleWrites_own h hw)

end

/-! ## Values without a line boundary -/

theorem isSpace_of_isLineBreak {c : Nat} (h : isLineBreak c = true) : isSpace c = true := by
  simp only [isLineBreak, isSpace, Bool.or_eq_true, Bool.and_eq_true, decide_eq_true_eq,
    beq_iff_eq] at h ⊢
  omega

theorem PlainName.breakFree {name : PyStr} (h : PlainName name) : BreakFree name := by
  intro c hc
  show isLineBreak c = false
  by_contra hbreak
  have hspace := isSpace_of_isLineBreak (by simpa using hbreak)
  rw [(h.plain c hc).1] at hspace
  cases hspace

theorem breakFree_assignment {name value : PyStr} (h : PlainName name) :
    BreakFree (assignment name value) ↔ BreakFree value := by
  have hequals : lineBreaks.isBreak 0x3D = false := by decide
  rw [assignment, breakFree_append]
  constructor
  · exact fun hb c hc => hb.2 c (List.mem_cons_of_mem _ hc)
  · exact fun hb => ⟨h.breakFree, List.forall_mem_cons.mpr ⟨hequals, hb⟩⟩

theorem pieces_assignment {w : PyStr × PyStr} (hplain : PlainName w.1) (hfree : BreakFree w.2) :
    pieces (assignment w.1 w.2) = [assignment w.1 w.2] :=
  Lines.pieces_eq_singleton.mpr ((breakFree_assignment hplain).mpr hfree)

/-- An upsert writes one line exactly if the value has no line boundary. -/
theorem upsert_own_line {text name value : PyStr} (h : PlainName name) :
    splitlines (upsertEnvVar text name value) =
        Lines.collapse (fun line => isAssignment line name) (assignment name value) false
          (splitlines text) ↔ BreakFree value := by
  rw [splitlines_upsert, Lines.flatMap_collapse fun line hline => breakFree_of_mem hline,
    ← breakFree_assignment h]
  exact forall_prop_of_true rfl

/-! ## The import -/

/-- The line assigns none of the names. -/
def Other (names : List PyStr) (line : PyStr) : Bool :=
  names.all fun name => !isAssignment line name

/-- The upserts `ws` made the text `new` of `old`, and touched nothing else. -/
structure Undisturbed (names : List PyStr) (ws : List (PyStr × PyStr)) (old new : PyStr) :
    Prop where
  /-- The names assigned are the old ones and the ones written. -/
  assigned : ∀ name, Assigns new name ↔ Assigns old name ∨ name ∈ names
  /-- Every other line stays as it was, in its order. -/
  others : (splitlines new).filter (Other names) = (splitlines old).filter (Other names)
  /-- Every upsert brings its own line, in the place of those that assigned the name. -/
  own : ∀ pre w post, ws = pre ++ w :: post → splitlines (upsertAll old (pre ++ [w])) =
    Lines.collapse (fun line => isAssignment line w.1) (assignment w.1 w.2) false
      (splitlines (upsertAll old pre))

theorem other_eq_false {names : List PyStr} {line : PyStr} :
    Other names line = false ↔ ∃ name ∈ names, assignedName line = some name := by
  simp [Other, isAssignment]

theorem others_upsertAll {names : List PyStr} {old : PyStr} {ws : List (PyStr × PyStr)}
    (hplain : ∀ w ∈ ws, PlainName w.1) (hnames : ∀ w ∈ ws, w.1 ∈ names)
    (hfree : ∀ w ∈ ws, BreakFree w.2) :
    (splitlines (upsertAll old ws)).filter (Other names) =
      (splitlines old).filter (Other names) := by
  induction ws using List.reverseRecOn with
  | nil => rfl
  | append_singleton ws w ih =>
    obtain ⟨hplain', hw⟩ := List.forall_mem_append.mp hplain
    obtain ⟨hnames', hn⟩ := List.forall_mem_append.mp hnames
    obtain ⟨hfree', hf⟩ := List.forall_mem_append.mp hfree
    have hmem : w ∈ [w] := List.mem_singleton_self w
    rw [upsertAll_snoc, (upsert_own_line (hw w hmem)).mpr (hf w hmem), Lines.filter_collapse,
      ih hplain' hnames' hfree']
    · intro line hline
      by_contra hassign
      have hfalse : Other names line = false :=
        other_eq_false.mpr ⟨w.1, hn w hmem, isAssignment_iff.mp (by simpa using hassign)⟩
      rw [hfalse] at hline
      cases hline
    · exact other_eq_false.mpr ⟨w.1, hn w hmem, assignedName_assignment (hw w hmem)⟩

theorem assigns_upsertAll {old name : PyStr} {ws : List (PyStr × PyStr)}
    (hplain : ∀ w ∈ ws, PlainName w.1) (hfree : ∀ w ∈ ws, BreakFree w.2) :
    Assigns (upsertAll old ws) name ↔ Assigns old name ∨ name ∈ ws.map Prod.fst := by
  induction ws using List.reverseRecOn with
  | nil => simp [upsertAll]
  | append_singleton ws w ih =>
    obtain ⟨hplain', hw⟩ := List.forall_mem_append.mp hplain
    obtain ⟨hfree', hf⟩ := List.forall_mem_append.mp hfree
    have hmem : w ∈ [w] := List.mem_singleton_self w
    have hpieces : pieces (assignment w.1 w.2) = [assignment w.1 w.2] :=
      Lines.pieces_eq_singleton.mpr ((breakFree_assignment (hw w hmem)).mpr (hf w hmem))
    have hname : assignedName (assignment w.1 w.2) = some w.1 :=
      assignedName_assignment (hw w hmem)
    have hstep : Assigns (upsertEnvVar (upsertAll old ws) w.1 w.2) name ↔
        Assigns (upsertAll old ws) name ∨ name = w.1 := by
      unfold Assigns
      simp only [mem_splitlines_upsert, hpieces, List.mem_singleton]
      constructor
      · rintro ⟨line, ⟨hline, -⟩ | rfl, hassign⟩
        · exact .inl ⟨line, hline, hassign⟩
        · rw [hname] at hassign
          exact .inr (Option.some.inj hassign).symm
      · rintro (⟨line, hline, hassign⟩ | rfl)
        · by_cases hsame : name = w.1
          · exact ⟨_, .inr rfl, by rw [hname, hsame]⟩
          · exact ⟨line, .inl ⟨hline, fun h => hsame (Option.some.inj (hassign.symm.trans h))⟩,
              hassign⟩
        · exact ⟨_, .inr rfl, hname⟩
    rw [upsertAll_snoc, hstep, ih hplain' hfree', List.map_append, List.mem_append, or_assoc]
    simp

section

variable [Calendar]

/-- An accepted import touches nothing but its own assignments exactly if no value it writes has a
line boundary. -/
theorem importUndisturbed_iff {now : ℚ} {s : Settings} {bundle : Json} {network : Network}
    {old : PyStr} (h : validateBundle now s bundle = .ok network) :
    Undisturbed (writtenNames s network bundle) (bundleWrites s network bundle) old
        (importText s network bundle old).text ↔
      ∀ w ∈ bundleWrites s network bundle, BreakFree w.2 := by
  have hacc := validateBundle_ok h
  have hplain : ∀ w ∈ bundleWrites s network bundle, PlainName w.1 := fun w hw =>
    bundleWrites_plain hacc hw
  rw [text_importText]
  constructor
  · intro hund w hw
    obtain ⟨pre, post, heq⟩ := List.append_of_mem hw
    have hown := hund.own pre w post heq
    rw [upsertAll_snoc] at hown
    exact (upsert_own_line (hplain w hw)).mp hown
  · intro hfree
    refine ⟨fun name => ?_, others_upsertAll hplain (fun w hw => ?_) hfree, fun pre w post heq => ?_⟩
    · rw [assigns_upsertAll hplain hfree, mem_writtenNames hacc]
    · exact (mem_writtenNames hacc).mpr (List.mem_map_of_mem hw)
    · have hw : w ∈ bundleWrites s network bundle := by
        rw [heq]
        simp
      rw [upsertAll_snoc]
      exact (upsert_own_line (hplain w hw)).mpr (hfree w hw)

end

/-! ### A line separator in a token -/

/-- The number of two digits. -/
def twoDigits (a b : Nat) : Nat := (a - 0x30) * 10 + (b - 0x30)

/-- Days from 1970-01-01 in the proleptic Gregorian calendar. -/
def daysFromCivil (y m d : Int) : Int :=
  let y' := if m ≤ 2 then y - 1 else y
  let doy := (153 * ((m + 9) % 12) + 2) / 5 + d - 1
  365 * y' + y' / 4 - y' / 100 + y' / 400 + doy - 719468

/-- The format `YYYY-MM-DDTHH:MM:SS+HH:MM`, one of those `fromisoformat` reads. -/
@[reducible] def extendedFormat : Calendar where
  fromisoformat
    | [y₁, y₂, y₃, y₄, 0x2D, m₁, m₂, 0x2D, d₁, d₂, 0x54, h₁, h₂, 0x3A, i₁, i₂, 0x3A, s₁, s₂, 0x2B,
        k₁, k₂, 0x3A, l₁, l₂] =>
      let days := daysFromCivil (twoDigits y₁ y₂ * 100 + twoDigits y₃ y₄) (twoDigits m₁ m₂)
        (twoDigits d₁ d₂)
      some ⟨days * 86400 + (twoDigits h₁ h₂ * 3600 + twoDigits i₁ i₂ * 60 + twoDigits s₁ s₂ : Nat),
        some (twoDigits k₁ k₂ * 3600 + twoDigits l₁ l₂ * 60 : Nat)⟩
    | _ => none

/-- A bundle for Flare that expires in 2999. -/
def flareBundle (version : Int) (entries : List Json) (rest : List (PyStr × Json)) : Json :=
  .obj ([(py "version", .int version), (py "consumer", .str (py "claim")),
    (py "network", .str (py "flare")), (py "expires_at", .str (py "2999-01-01T00:00:00Z")),
    (py "capabilities", .arr entries)] ++ rest)

/-- The claim capability with a token. -/
def claimEntry (token : PyStr) (rest : List (PyStr × Json)) : Json :=
  .obj ([(py "capability_id", .str (py "claim/flare/ftso-reward-claim")),
    (py "caller_token_env", .str (py "FWD_CALLER_TOKEN")), (py "caller_token", .str token)] ++ rest)

theorem eq_ok_of_toOption {ε α : Type} {x : Except ε α} {a : α} (h : x.toOption = some a) :
    x = .ok a := by
  cases x with
  | ok b => exact congrArg Except.ok (Option.some.inj h)
  | error e => cases h

/-- The token holds a line separator, and an assignment after it. -/
def separatorBundle : Json :=
  flareBundle 1 [claimEntry (py "token" ++ 0x2028 :: py "IDENTITY_ADDRESS=0xbad") []] []

theorem separatorBundle_accepted :
    @validateBundle extendedFormat 0 {} separatorBundle = .ok .flare :=
  eq_ok_of_toOption (by decide +kernel)

/-- The import of the bundle assigns `IDENTITY_ADDRESS`. -/
theorem separatorBundle_injects :
    @validateBundle extendedFormat 0 {} separatorBundle = .ok .flare ∧
      ¬ Undisturbed (writtenNames {} .flare separatorBundle)
        (bundleWrites {} .flare separatorBundle)
        [] (importText {} .flare separatorBundle []).text := by
  refine ⟨separatorBundle_accepted, fun hund => ?_⟩
  have hinjected : Assigns (importText {} .flare separatorBundle []).text
      (py "IDENTITY_ADDRESS") := ⟨py "IDENTITY_ADDRESS=0xbad", by decide +kernel, by decide +kernel⟩
  rcases (hund.assigned _).mp hinjected with ⟨line, hline, -⟩ | hwritten
  · cases hline
  · exact absurd hwritten (by decide +kernel)

/-- The claim capability with a token that can be written. -/
def plainBundle : Json := flareBundle 1 [claimEntry (py "token") []] []

theorem plainBundle_accepted : @validateBundle extendedFormat 0 {} plainBundle = .ok .flare :=
  eq_ok_of_toOption (by decide +kernel)

theorem importUndisturbed_plain :
    Undisturbed (writtenNames {} .flare plainBundle) (bundleWrites {} .flare plainBundle)
      (py "A=1\n") (importText {} .flare plainBundle (py "A=1\n")).text :=
  (@importUndisturbed_iff extendedFormat _ _ _ _ _ plainBundle_accepted).mpr (by decide +kernel)

end Clif
