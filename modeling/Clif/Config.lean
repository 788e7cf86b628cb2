import Clif.Text

/-!
# Config — the network table and the keyless settings of `config.py`

Only the fields some modelled function reads.
-/

namespace Clif

def zeroBytes32 : String := "0x" ++ String.ofList (List.replicate 64 '0')

inductive Network where
  | flare
  | songbird
  | coston2
deriving DecidableEq

def Network.str : Network → String
  | .flare => "flare"
  | .songbird => "songbird"
  | .coston2 => "coston2"

structure NetworkConfig where
  name : Network
  chainId : Int
  rewardManager : String
  flareSystemsManager : String
  entityManager : String
  /-- Empty: not configured. -/
  voterRegistry : String
  defaultRpc : String

def networks : Network → NetworkConfig
  | .flare =>
    { name := .flare
      chainId := 14
      rewardManager := "0xC8f55c5aA2C752eE285Bd872855C749f4ee6239B"
      flareSystemsManager := "0x89e50DC0380e597ecE79c8494bAAFD84537AD0D4"
      entityManager := "0x134b3311C6BdeD895556807a30C7f047D99DfdC2"
      voterRegistry := "0xA480457953Af3583E54DCd630b219353B8FC9Af7"
      defaultRpc := "https://flare-api.flare.network/ext/bc/C/rpc" }
  | .songbird =>
    { name := .songbird
      chainId := 19
      rewardManager := "0xE26AD68b17224951b5740F33926Cc438764eB9a7"
      flareSystemsManager := "0x421c69E22f48e14Fc2d2Ee3812c59bfb81c38516"
      entityManager := "0x46C417D0760198E94fee455CE0e223262a3D0049"
      voterRegistry := "0xd23FAE88c09e6A77dD9eFcc29D6bBC55D2e74310"
      defaultRpc := "https://songbird-api.flare.network/ext/bc/C/rpc" }
  | .coston2 =>
    { name := .coston2
      chainId := 114
      rewardManager := "0xB4f43E342c5c77e6fe060c0481Fe313Ff2503454"
      flareSystemsManager := "0xbC1F76CEB521Eb5484b8943B5462D08ea96617A1"
      entityManager := ""
      voterRegistry := ""
      defaultRpc := "https://coston2-api.flare.network/ext/bc/C/rpc" }

structure Settings where
  network : Network := .flare
  /-- `<net>_rpc` of the network. -/
  rpc : Network → Option String := fun _ => none
  /-- `<net>_logs_rpc` of the network. -/
  logsRpcFor : Network → Option String := fun _ => none
  identityAddress : Option String := none
  signingPolicyAddress : Option String := none
  claimRecipientAddress : Option String := none
  wrapRewards : Bool := false
  fwdWalletName : Option String := none
  fwdCallerToken : Option String := none
  idempotencyRetry : Option String := none
  fspUptimeSignCallerToken : Option String := none
  fspUptimeSubmitCallerToken : Option String := none
  fspRewardSignCallerToken : Option String := none
  fspRewardSubmitCallerToken : Option String := none
  fspAutoEnabled : Bool := false
  fspSigningWalletName : Option String := none
  fspSenderWalletName : Option String := none
  fspSubmitGas : Int := 500000
  fspIdempotencyRetry : Option String := none
  uptimeAutoEnabled : Bool := false
  epochRewardInitialDelaySec : Int := 3600
  epochPollIntervalSec : Int := 1800
  epochStaleAfterSec : Int := 86400
  epochTerminalCooldownSec : Int := 3600
  fspStaleAfterSec : Int := 86400
  fspTerminalCooldownSec : Int := 3600
  staleAfterSec : Int := 86400
  terminalCooldownSec : Int := 3600

def Settings.net (s : Settings) : NetworkConfig := networks s.network

/-- Python's `override or default`. -/
def orElse (o : Option String) (d : String) : String :=
  match o with
  | some s => if s != "" then s else d
  | none => d

def Settings.rpcUrl (s : Settings) : String := orElse (s.rpc s.network) s.net.defaultRpc

def Settings.logsRpc (s : Settings) : String := orElse (s.logsRpcFor s.network) s.rpcUrl

end Clif
