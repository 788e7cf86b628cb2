import Clif.Config
import Clif.Dict
import Clif.EnvFile
import Mathlib.Data.List.Sort
import Mathlib.Data.Rat.Defs

/-!
# Bundle — `import-credentials`: the bundle, its validation and the text it makes of an env file

`credentials.py`, with `capabilities` and `config_env_allowlist` of `config.py`.
-/

namespace Clif

open PyStr

/-! ## JSON values -/

/-- A JSON document; an object is the list of its members. -/
inductive Json where
  | null
  | bool (b : Bool)
  | int (n : Int)
  /-- `none`: NaN or an infinity. -/
  | float (x : Option ℚ)
  | str (s : PyStr)
  | arr (items : List Json)
  | obj (members : List (PyStr × Json))

namespace Json

/-- The `dict` that `json.loads` makes of an object: of members with one key the last counts. -/
def dict : Json → Option (Dict PyStr Json)
  | .obj members => some (members.foldl (fun d m => d.set m.1 m.2) Dict.empty)
  | _ => none

/-- `j.get(key)`; a missing member and `null` are both `None`. -/
def field (j : Json) (key : String) : Json := (j.dict.bind fun d => d.get? (py key)).getD .null

def hashable : Json → Bool
  | .arr _ => false
  | .obj _ => false
  | _ => true

/-- `j == n` for an integer `n`. -/
def eqInt (n : Int) : Json → Bool
  | .bool b => (if b then 1 else 0) == n
  | .int m => m == n
  | .float (some x) => x == n
  | _ => false

/-- `j == s` for a string `s`. -/
def eqStr (s : PyStr) : Json → Bool
  | .str t => t == s
  | _ => false

/-- `j` if it is a `str`. -/
def str? : Json → Option PyStr
  | .str s => some s
  | _ => none

/-- `j` if it is a `str` and not empty. -/
def nonEmptyStr? (j : Json) : Option PyStr := j.str?.filter fun s => !s.isEmpty

/-- The items if `j` is a `list` and not empty. -/
def nonEmptyList? : Json → Option (List Json)
  | .arr (item :: items) => some (item :: items)
  | _ => none

/-- `bool(j)`. -/
def truthy : Json → Bool
  | .null => false
  | .bool b => b
  | .int n => n != 0
  | .float x => x != some 0
  | .str s => !s.isEmpty
  | .arr items => !items.isEmpty
  | .obj members => !members.isEmpty

/-- The string of a value that was validated to be one. -/
def text (j : Json) : PyStr := j.str?.getD []

end Json

/-! ## Capabilities -/

/-- The fields of `Capability` that the import reads. -/
structure Capability where
  capabilityId : PyStr
  callerTokenEnv : PyStr
  walletEnv : PyStr
  walletName : Option String

/-- `capabilities`. -/
def capabilities (s : Settings) : List Capability :=
  [⟨py s!"claim/{s.network.str}/ftso-reward-claim", py "FWD_CALLER_TOKEN", py "FWD_WALLET_NAME",
      s.fwdWalletName⟩,
    ⟨py s!"claim/{s.network.str}/uptime-vote-sign", py "FSP_UPTIME_SIGN_CALLER_TOKEN",
      py "FSP_SIGNING_WALLET_NAME", s.fspSigningWalletName⟩,
    ⟨py s!"claim/{s.network.str}/reward-distribution-sign", py "FSP_REWARD_SIGN_CALLER_TOKEN",
      py "FSP_SIGNING_WALLET_NAME", s.fspSigningWalletName⟩,
    ⟨py s!"claim/{s.network.str}/uptime-vote-submit", py "FSP_UPTIME_SUBMIT_CALLER_TOKEN",
      py "FSP_SENDER_WALLET_NAME", s.fspSenderWalletName⟩,
    ⟨py s!"claim/{s.network.str}/reward-distribution-submit",
      py "FSP_REWARD_SUBMIT_CALLER_TOKEN", py "FSP_SENDER_WALLET_NAME", s.fspSenderWalletName⟩]

/-- `governed.get(cid)`. -/
def governed (s : Settings) (cid : PyStr) : Option Capability :=
  (capabilities s).find? fun c => c.capabilityId == cid

/-- The network of a name: the keys of `_NETWORKS`. -/
def networkOf (name : PyStr) : Option Network :=
  [Network.flare, .songbird, .coston2].find? fun n => py n.str == name

/-- `Settings.model_fields`. -/
def settingsFields : List String :=
  ["network", "flare_rpc", "songbird_rpc", "coston2_rpc", "flare_logs_rpc", "songbird_logs_rpc",
    "coston2_logs_rpc", "flare_verify_rpc", "songbird_verify_rpc", "coston2_verify_rpc",
    "observe_quorum_crit", "identity_address", "signing_policy_address",
    "claim_recipient_address", "wrap_rewards", "fwd_endpoint", "fwd_wallet_name",
    "fwd_caller_token", "idempotency_retry", "clif_state_dir", "poll_interval_sec",
    "stale_after_sec", "terminal_cooldown_sec", "fsp_uptime_sign_caller_token",
    "fsp_uptime_submit_caller_token", "fsp_reward_sign_caller_token",
    "fsp_reward_submit_caller_token", "fsp_auto_enabled", "fsp_signing_wallet_name",
    "fsp_sender_wallet_name", "fsp_submit_gas", "fsp_idempotency_retry", "fsp_poll_interval_sec",
    "fsp_stale_after_sec", "fsp_terminal_cooldown_sec", "uptime_auto_enabled",
    "epoch_reward_initial_delay_sec", "epoch_poll_interval_sec", "epoch_stale_after_sec",
    "epoch_terminal_cooldown_sec", "funding_enabled", "funding_caller_token",
    "funding_wallet_name", "funding_poll_interval_sec", "registration_enabled",
    "registration_poll_interval_sec", "registration_tight_interval_sec",
    "registration_tight_window_sec", "alert_enabled", "alert_webhook_url", "alert_repeat_sec",
    "alert_confirm_cycles", "alert_heartbeat_url", "registration_gas_floor",
    "registration_sender_account", "observe_enabled", "observe_rpc", "observe_lookback_blocks",
    "observe_window_rounds", "observe_poll_sec", "observe_resume_max_blocks",
    "observe_ftso_round_reward_flr", "observe_status_log_sec", "observe_degraded_log_sec",
    "observe_iqr", "observe_confirmations", "observe_live_lag_blocks",
    "observe_max_backfill_blocks"]

/-- `config_env_allowlist`. -/
def configEnvAllowlist (s : Settings) : List PyStr :=
  let tokenEnvs := (capabilities s).map fun c => c.callerTokenEnv
  (settingsFields.map fun name => upper (py name)).filter fun name =>
    !tokenEnvs.contains name && !isIn (py "PRIVATE_KEY") name

/-! ## Validation -/

/-- `BundleError`, by what is wrong. -/
inductive BundleError where
  | notAnObject
  | unsupportedVersion (version : Json)
  | wrongConsumer (consumer : Json)
  | missingNetwork
  | unknownNetwork (network : PyStr)
  | missingExpiresAt
  | invalidTimestamp (value : PyStr)
  | expired (expiresAt : PyStr)
  | noCapabilities
  | entryNotAnObject
  | ungovernedCapability (cid : Json) (network : PyStr)
  | callerTokenEnvMismatch (cid : PyStr) (envName : Json) (expected : PyStr)
  | missingCallerToken (cid : PyStr)
  | illegalCallerToken (cid : PyStr)
  | missingWalletName (cid : PyStr)
  | illegalWalletName (cid : PyStr)
  | configNotAnObject
  | privateKey (key : PyStr)
  | ungovernedKey (key : PyStr)
  | valueNotAString (key : PyStr)
  | illegalValue (key : PyStr)
  | contradictoryNetwork (configNetwork : Json) (network : PyStr)

/-- What `import_credentials` can raise. -/
inductive ImportExc where
  | bundleError (e : BundleError)
  /-- "unhashable type", of a list or a dict that is looked up. -/
  | typeError
  | osError (text : String)
  | unicodeDecodeError
  | unicodeEncodeError

/-- A timestamp: its wall clock, in seconds, and its offset from UTC if it has one. -/
structure IsoTime where
  wall : ℚ
  offset : Option ℚ

/-- `datetime.fromisoformat`; `none` is its `ValueError`. -/
class Calendar where
  fromisoformat : PyStr → Option IsoTime

/-- `_is_clean`. -/
def isClean (value : PyStr) : Bool :=
  value == strip value && !value.any fun c => c < 0x20 || c == 0x7F

section

variable [Calendar]

/-- `_parse_iso8601`, in UTC. -/
def parseIso8601 (value : PyStr) : Except BundleError ℚ :=
  let s := strip value
  let s := if s.getLast? == some 0x5A then s.dropLast ++ py "+00:00" else s
  match Calendar.fromisoformat s with
  | none => .error (.invalidTimestamp value)
  | some t => .ok (t.wall - t.offset.getD 0)

end

/-- The body of the loop of `_validate_config_section`. -/
def validateConfigItem (allowlist : List PyStr) (key : PyStr) (value : Json) :
    Except BundleError Unit :=
  if isIn (py "PRIVATE_KEY") (upper key) ||
      value.str?.any (fun v => isIn (py "PRIVATE_KEY") (upper v)) then
    .error (.privateKey key)
  else if !allowlist.contains key then .error (.ungovernedKey key)
  else
    match value.str? with
    | none => .error (.valueNotAString key)
    | some v => if isClean v then .ok () else .error (.illegalValue key)

def validateConfigItems (allowlist : List PyStr) : List (PyStr × Json) → Except BundleError Unit
  | [] => .ok ()
  | (key, value) :: items => do
    validateConfigItem allowlist key value
    validateConfigItems allowlist items

/-- `_validate_config_section`. -/
def validateConfigSection (allowlist : List PyStr) (config : Json) : Except BundleError Unit :=
  match config.dict with
  | none => .error .configNotAnObject
  | some d => validateConfigItems allowlist d.entries

/-- `version == 2`. -/
def isV2 (bundle : Json) : Bool := (bundle.field "version").eqInt 2

/-- The wallet name of an entry of a v2 bundle. -/
def validateWallet (cid : PyStr) (entry : Json) : Except BundleError Unit :=
  match (entry.field "wallet_name").nonEmptyStr? with
  | none => .error (.missingWalletName cid)
  | some walletName => if isClean walletName then .ok () else .error (.illegalWalletName cid)

/-- The body of the loop over the entries, for a capability id that is governed. -/
def validateGoverned (v2 : Bool) (cid : PyStr) (cap : Capability) (entry : Json) :
    Except BundleError Unit :=
  let envName := entry.field "caller_token_env"
  if !envName.eqStr cap.callerTokenEnv then
    .error (.callerTokenEnvMismatch cid envName cap.callerTokenEnv)
  else
    match (entry.field "caller_token").nonEmptyStr? with
    | none => .error (.missingCallerToken cid)
    | some token =>
      if !isClean token then .error (.illegalCallerToken cid)
      else if v2 then validateWallet cid entry else .ok ()

/-- The body of the loop over the entries. -/
def validateEntry (s : Settings) (v2 : Bool) (entry : Json) : Except ImportExc Unit :=
  match entry.dict with
  | none => .error (.bundleError .entryNotAnObject)
  | some _ =>
    let cid := entry.field "capability_id"
    if !cid.hashable then .error .typeError
    else
      match cid.str?.bind fun c => (governed s c).map fun cap => (c, cap) with
      | none => .error (.bundleError (.ungovernedCapability cid (py s.network.str)))
      | some (c, cap) => (validateGoverned v2 c cap entry).mapError .bundleError

def validateEntries (s : Settings) (v2 : Bool) : List Json → Except ImportExc Unit
  | [] => .ok ()
  | entry :: entries => do
    validateEntry s v2 entry
    validateEntries s v2 entries

/-- The config section of a v2 bundle, and its `NETWORK`. -/
def validateConfig (s : Settings) (bundle : Json) (network : PyStr) : Except BundleError Unit := do
  validateConfigSection (configEnvAllowlist s) (bundle.field "config")
  let configNetwork := (bundle.field "config").field "NETWORK"
  match configNetwork with
  | .null => .ok ()
  | value =>
    if value.eqStr network then .ok () else .error (.contradictoryNetwork value network)

section

variable [Calendar]

/-- The checks of `validate_bundle` before the entries: the network and the entries. -/
def validateHeader (now : ℚ) (bundle : Json) : Except ImportExc (Network × List Json) :=
  match bundle.dict with
  | none => .error (.bundleError .notAnObject)
  | some _ =>
    let version := bundle.field "version"
    if !version.hashable then .error .typeError
    else if !(version.eqInt 1 || version.eqInt 2) then
      .error (.bundleError (.unsupportedVersion version))
    else if !(bundle.field "consumer").eqStr (py "claim") then
      .error (.bundleError (.wrongConsumer (bundle.field "consumer")))
    else
      match (bundle.field "network").nonEmptyStr? with
      | none => .error (.bundleError .missingNetwork)
      | some name =>
        match networkOf name with
        | none => .error (.bundleError (.unknownNetwork name))
        | some network =>
          match (bundle.field "expires_at").nonEmptyStr? with
          | none => .error (.bundleError .missingExpiresAt)
          | some expiresAt =>
            match parseIso8601 expiresAt with
            | .error e => .error (.bundleError e)
            | .ok expires =>
              if expires ≤ now then .error (.bundleError (.expired expiresAt))
              else
                match (bundle.field "capabilities").nonEmptyList? with
                | none => .error (.bundleError .noCapabilities)
                | some entries => .ok (network, entries)

/-- `validate_bundle`. -/
def validateBundle (now : ℚ) (s : Settings) (bundle : Json) : Except ImportExc Network := do
  let (network, entries) ← validateHeader now bundle
  let s := { s with network := network }
  validateEntries s (isV2 bundle) entries
  if isV2 bundle then (validateConfig s bundle (py network.str)).mapError .bundleError
  return network

end

/-! ## The text of the import -/

structure ImportedCredential where
  capabilityId : PyStr
  callerTokenEnv : PyStr
  walletName : Json
  walletEnv : Option PyStr

structure ImportResult where
  network : Network
  imported : List ImportedCredential
  version : Json
  configKeys : List PyStr

/-- The locals of `import_credentials`. -/
structure ImportState where
  text : PyStr
  imported : List ImportedCredential := []
  configKeys : List PyStr := []

/-- The entries of a bundle that was validated. -/
def entriesOf (bundle : Json) : List Json := (bundle.field "capabilities").nonEmptyList?.getD []

/-- `sorted(bundle.get("config", {}).items())`. -/
def configItems (bundle : Json) : List (PyStr × Json) :=
  ((((bundle.field "config").dict).map fun d => d.entries).getD []).insertionSort
    fun a b => a.1 ≤ b.1

/-- The wallet variable of an entry. -/
def walletEnvOf (s : Settings) (entry : Json) : PyStr :=
  ((governed s (entry.field "capability_id").text).map fun c => c.walletEnv).getD []

/-- `entry.get("wallet_name") or governed[cid].wallet_name`. -/
def walletNameOf (s : Settings) (entry : Json) : Json :=
  let name := entry.field "wallet_name"
  if name.truthy then name
  else
    match (governed s (entry.field "capability_id").text).bind fun c => c.walletName with
    | some configured => .str (py configured)
    | none => .null

/-- The body of the loop over the entries. -/
def importEntry (s : Settings) (v2 : Bool) (st : ImportState) (entry : Json) : ImportState :=
  let envName := (entry.field "caller_token_env").text
  let text := upsertEnvVar st.text envName (entry.field "caller_token").text
  let text :=
    if v2 then upsertEnvVar text (walletEnvOf s entry) (entry.field "wallet_name").text else text
  { st with
    text := text
    imported := st.imported ++
      [⟨(entry.field "capability_id").text, envName, walletNameOf s entry,
        if v2 then some (walletEnvOf s entry) else none⟩] }

/-- The body of the loop over the config section. -/
def importConfigItem (st : ImportState) (item : PyStr × Json) : ImportState :=
  { st with
    text := upsertEnvVar st.text item.1 item.2.text
    configKeys := st.configKeys ++ [item.1] }

/-- `NETWORK` is pinned last. -/
def pinNetwork (network : Network) (st : ImportState) : ImportState :=
  { st with
    text := upsertEnvVar st.text (py "NETWORK") (py network.str)
    configKeys :=
      if st.configKeys.contains (py "NETWORK") then st.configKeys
      else st.configKeys ++ [py "NETWORK"] }

/-- What `import_credentials` makes of the text of the env file. -/
def importText (s : Settings) (network : Network) (bundle : Json) (text : PyStr) : ImportState :=
  let s := { s with network := network }
  let st := (entriesOf bundle).foldl (importEntry s (isV2 bundle)) { text := text }
  let st := if isV2 bundle then (configItems bundle).foldl importConfigItem st else st
  pinNetwork network st

/-! ## The upserts of an import -/

/-- The upserts of one entry. -/
def entryWrites (s : Settings) (v2 : Bool) (entry : Json) : List (PyStr × PyStr) :=
  ((entry.field "caller_token_env").text, (entry.field "caller_token").text) ::
    if v2 then [(walletEnvOf s entry, (entry.field "wallet_name").text)] else []

/-- The upserts of the config section. -/
def configWrites (bundle : Json) : List (PyStr × PyStr) :=
  if isV2 bundle then (configItems bundle).map fun item => (item.1, item.2.text) else []

/-- The upserts of the import. -/
def bundleWrites (s : Settings) (network : Network) (bundle : Json) : List (PyStr × PyStr) :=
  (entriesOf bundle).flatMap (entryWrites { s with network := network } (isV2 bundle)) ++
    configWrites bundle ++ [(py "NETWORK", py network.str)]

theorem upsertAll_append {text : PyStr} {ws ws' : List (PyStr × PyStr)} :
    upsertAll text (ws ++ ws') = upsertAll (upsertAll text ws) ws' := List.foldl_append

theorem text_importEntry {s : Settings} {v2 : Bool} {st : ImportState} {entry : Json} :
    (importEntry s v2 st entry).text = upsertAll st.text (entryWrites s v2 entry) := by
  cases v2 <;> rfl

theorem text_importEntries {s : Settings} {v2 : Bool} {entries : List Json} :
    ∀ {st : ImportState}, (entries.foldl (importEntry s v2) st).text =
      upsertAll st.text (entries.flatMap (entryWrites s v2)) := by
  induction entries with
  | nil =>
    intro st
    rfl
  | cons entry entries ih =>
    intro st
    rw [List.foldl_cons, ih, text_importEntry, List.flatMap_cons, upsertAll_append]

theorem text_importConfigItems {items : List (PyStr × Json)} : ∀ {st : ImportState},
    (items.foldl importConfigItem st).text =
      upsertAll st.text (items.map fun item => (item.1, item.2.text)) := by
  induction items with
  | nil =>
    intro st
    rfl
  | cons item items ih =>
    intro st
    rw [List.foldl_cons, ih]
    rfl

/-- The import is its upserts in order. -/
theorem text_importText {s : Settings} {network : Network} {bundle : Json} {text : PyStr} :
    (importText s network bundle text).text = upsertAll text (bundleWrites s network bundle) := by
  have hentries : ((entriesOf bundle).foldl (importEntry { s with network := network }
      (isV2 bundle)) { text := text }).text = upsertAll text
        ((entriesOf bundle).flatMap (entryWrites { s with network := network } (isV2 bundle))) :=
    text_importEntries
  unfold importText bundleWrites configWrites
  dsimp only [pinNetwork]
  rw [upsertAll_append, upsertAll_append, ← hentries]
  split
  · rw [text_importConfigItems]
    rfl
  · rfl

/-! ## What a valid bundle holds -/

/-- An entry that was validated. -/
structure Granted (s : Settings) (v2 : Bool) (entry : Json) (cap : Capability) : Prop where
  governed : governed s (entry.field "capability_id").text = some cap
  env : (entry.field "caller_token_env").text = cap.callerTokenEnv
  token : isClean (entry.field "caller_token").text = true
  wallet : v2 = true → isClean (entry.field "wallet_name").text = true

/-- An item of a config section that was validated. -/
structure ConfigItem (s : Settings) (item : PyStr × Json) : Prop where
  allowed : item.1 ∈ configEnvAllowlist s
  clean : isClean item.2.text = true

theorem Json.text_of_eqStr {j : Json} {s : PyStr} (h : j.eqStr s = true) : j.text = s := by
  cases j with
  | str t => simpa [eqStr, text, str?] using h
  | _ => cases h

theorem Json.text_of_str? {j : Json} {s : PyStr} (h : j.str? = some s) : j.text = s := by
  rw [text, h]
  rfl

theorem Json.text_of_nonEmptyStr? {j : Json} {s : PyStr} (h : j.nonEmptyStr? = some s) :
    j.text = s :=
  Json.text_of_str? (Option.filter_eq_some_iff.mp h).1

theorem validateWallet_ok {cid : PyStr} {entry : Json} (h : validateWallet cid entry = .ok ()) :
    isClean (entry.field "wallet_name").text = true := by
  unfold validateWallet at h
  split at h
  · cases h
  · rename_i name hname
    rw [Json.text_of_nonEmptyStr? hname]
    split at h
    · rename_i hclean
      exact hclean
    · cases h

theorem validateGoverned_ok {v2 : Bool} {cid : PyStr} {cap : Capability} {entry : Json}
    (h : validateGoverned v2 cid cap entry = .ok ()) :
    (entry.field "caller_token_env").text = cap.callerTokenEnv ∧
      isClean (entry.field "caller_token").text = true ∧
      (v2 = true → isClean (entry.field "wallet_name").text = true) := by
  unfold validateGoverned at h
  dsimp only at h
  split at h
  · cases h
  rename_i henv
  split at h
  · cases h
  rename_i token htoken
  split at h
  · cases h
  rename_i hclean
  refine ⟨Json.text_of_eqStr (by simpa using henv), ?_, fun hv2 => ?_⟩
  · rw [Json.text_of_nonEmptyStr? htoken]
    simpa using hclean
  · rw [if_pos hv2] at h
    exact validateWallet_ok h

theorem validateEntry_ok {s : Settings} {v2 : Bool} {entry : Json}
    (h : validateEntry s v2 entry = .ok ()) : ∃ cap, Granted s v2 entry cap := by
  unfold validateEntry at h
  split at h
  · cases h
  dsimp only at h
  split at h
  · cases h
  split at h
  · cases h
  rename_i c cap hgov
  obtain ⟨c', hc', hcap⟩ := Option.bind_eq_some_iff.mp hgov
  obtain ⟨cap', hcap', heq⟩ := Option.map_eq_some_iff.mp hcap
  cases heq
  cases hok : validateGoverned v2 c cap entry with
  | error e =>
    rw [hok] at h
    cases h
  | ok _ =>
    obtain ⟨henv, htoken, hwallet⟩ := validateGoverned_ok hok
    exact ⟨cap, by rw [Json.text_of_str? hc', hcap'], henv, htoken, hwallet⟩

theorem validateEntries_ok {s : Settings} {v2 : Bool} : ∀ {entries : List Json},
    validateEntries s v2 entries = .ok () → ∀ entry ∈ entries, ∃ cap, Granted s v2 entry cap := by
  intro entries
  induction entries with
  | nil =>
    intro _ entry hentry
    cases hentry
  | cons entry entries ih =>
    intro h
    unfold validateEntries at h
    cases hentry : validateEntry s v2 entry with
    | error e =>
      rw [hentry] at h
      cases h
    | ok _ =>
      rw [hentry] at h
      exact List.forall_mem_cons.mpr ⟨validateEntry_ok hentry, ih h⟩

theorem validateConfigItem_ok {s : Settings} {item : PyStr × Json}
    (h : validateConfigItem (configEnvAllowlist s) item.1 item.2 = .ok ()) : ConfigItem s item := by
  unfold validateConfigItem at h
  split at h
  · cases h
  split at h
  · cases h
  rename_i hkey
  split at h
  · cases h
  rename_i v hv
  split at h
  · rename_i hclean
    exact ⟨by simpa using hkey, by rwa [Json.text_of_str? hv]⟩
  · cases h

theorem validateConfigItems_ok {s : Settings} : ∀ {items : List (PyStr × Json)},
    validateConfigItems (configEnvAllowlist s) items = .ok () →
      ∀ item ∈ items, ConfigItem s item := by
  intro items
  induction items with
  | nil =>
    intro _ item hitem
    cases hitem
  | cons item items ih =>
    intro h
    obtain ⟨key, value⟩ := item
    unfold validateConfigItems at h
    cases hitem : validateConfigItem (configEnvAllowlist s) key value with
    | error e =>
      rw [hitem] at h
      cases h
    | ok _ =>
      rw [hitem] at h
      exact List.forall_mem_cons.mpr ⟨validateConfigItem_ok hitem, ih h⟩

/-- The items of the config section, in the order of the document or sorted. -/
theorem mem_configItems {bundle : Json} {item : PyStr × Json} : item ∈ configItems bundle ↔
    ∃ d, (bundle.field "config").dict = some d ∧ item ∈ d.entries := by
  unfold configItems
  rw [List.mem_insertionSort]
  cases (bundle.field "config").dict with
  | none => simp
  | some d => simp

theorem validateConfig_ok {s : Settings} {bundle : Json} {network : PyStr}
    (h : validateConfig s bundle network = .ok ()) :
    ∀ item ∈ configItems bundle, ConfigItem s item := by
  intro item hitem
  obtain ⟨d, hd, hmem⟩ := mem_configItems.mp hitem
  unfold validateConfig validateConfigSection at h
  rw [hd] at h
  dsimp only at h
  cases hitems : validateConfigItems (configEnvAllowlist s) d.entries with
  | error e =>
    rw [hitems] at h
    cases h
  | ok _ => exact validateConfigItems_ok hitems item hmem

section

variable [Calendar]

theorem validateHeader_ok {now : ℚ} {bundle : Json} {network : Network} {entries : List Json}
    (h : validateHeader now bundle = .ok (network, entries)) : entriesOf bundle = entries := by
  unfold validateHeader at h
  split at h
  · cases h
  dsimp only at h
  split at h
  · cases h
  split at h
  · cases h
  split at h
  · cases h
  split at h
  · cases h
  split at h
  · cases h
  split at h
  · cases h
  split at h
  · cases h
  split at h
  · cases h
  split at h
  · cases h
  rename_i hentries
  cases h
  rw [entriesOf, hentries]
  rfl

/-- A bundle that is accepted. -/
structure Accepted (s : Settings) (network : Network) (bundle : Json) : Prop where
  entries : ∀ entry ∈ entriesOf bundle,
    ∃ cap, Granted { s with network := network } (isV2 bundle) entry cap
  config : isV2 bundle = true →
    ∀ item ∈ configItems bundle, ConfigItem { s with network := network } item

theorem validateBundle_ok {now : ℚ} {s : Settings} {bundle : Json} {network : Network}
    (h : validateBundle now s bundle = .ok network) : Accepted s network bundle := by
  unfold validateBundle at h
  cases hheader : validateHeader now bundle with
  | error e =>
    rw [hheader] at h
    cases h
  | ok ne =>
    obtain ⟨net, entries⟩ := ne
    rw [hheader] at h
    simp only [bind, Except.bind] at h
    cases hentries : validateEntries { s with network := net } (isV2 bundle) entries with
    | error e =>
      rw [hentries] at h
      cases h
    | ok _ =>
      rw [hentries] at h
      dsimp only at h
      have hgranted := validateEntries_ok hentries
      rw [← validateHeader_ok hheader] at hgranted
      split at h
      · cases hconfig : validateConfig { s with network := net } bundle (py net.str) with
        | error e =>
          rw [hconfig] at h
          cases h
        | ok _ =>
          rw [hconfig] at h
          cases h
          exact ⟨hgranted, fun _ => validateConfig_ok hconfig⟩
      · rename_i hv1
        cases h
        exact ⟨hgranted, fun hv2 => absurd hv2 hv1⟩

end

end Clif
