import Admission.Engine
/-!
# Configurations

What can be configured: the counter store, whose forwarded-for headers count, the access list, and
the throttle rules. A configuration is plain data; building a policy from it checks the networks and
the rules and stops at the first one that is wrong.
-/

namespace Admission

/-- Where the counters are kept. -/
inductive StorageBackend where
  | memory
  | redis
  deriving DecidableEq, Repr

/-- The name of a backend. -/
def StorageBackend.name : StorageBackend → String
  | memory => "memory"
  | redis => "redis"

/-- The backend with a name. -/
def StorageBackend.ofName? (name : String) : Option StorageBackend :=
  if name = memory.name then some memory
  else if name = redis.name then some redis
  else none

@[simp]
theorem StorageBackend.ofName?_name (backend : StorageBackend) :
    ofName? backend.name = some backend := by
  cases backend <;> decide

/-- The counter store. -/
structure StorageConfig where
  backend : StorageBackend := .memory
  redisUrl : String := "redis://127.0.0.1:6379"
  /-- How long the store may take, in milliseconds; zero is no limit. -/
  timeoutMillis : UInt64 := 250
  deriving DecidableEq, Repr

/-- How long the store may take, if there is a limit. -/
def StorageConfig.timeout (config : StorageConfig) : Option Duration :=
  if 0 < config.timeoutMillis.toNat then some (.ofMillis config.timeoutMillis) else none

/-- Whose forwarded-for headers count. -/
structure IdentityConfig where
  trustedProxies : List String := ["*"]
  deriving DecidableEq, Repr

/-- The entries of the access list. -/
structure AccessConfig where
  safelist : List String := []
  blocklist : List String := []
  blocklistCidrs : List String := []
  deriving DecidableEq, Repr

/-- A throttle rule as it is written. -/
structure RuleConfig where
  name : Option String := none
  path : String := ""
  method : String := ""
  key : String
  limit : UInt64
  periodSecs : UInt64
  deriving DecidableEq, Repr

/-- Checks a rule and builds it. -/
def RuleConfig.rule (config : RuleConfig) : Except Error Rule :=
  (Rule.make config.path config.method config.key config.limit (.ofSecs config.periodSecs)).map
    (·.withName config.name)

/-- A configuration. -/
structure Config where
  storage : StorageConfig := {}
  identity : IdentityConfig := {}
  access : AccessConfig := {}
  rules : List RuleConfig := []
  deriving DecidableEq, Repr

namespace Config

/-- Builds the policy: the lists first, then the networks, then the rules, each in order. -/
def buildPolicy (config : Config) : Except Error Policy := do
  let policy : Policy := {}
  let policy := config.access.safelist.foldl Policy.addSafelist policy
  let policy := config.access.blocklist.foldl Policy.addBlocklist policy
  let policy ← config.access.blocklistCidrs.foldlM Policy.addRange policy
  config.rules.foldlM (fun policy rule => rule.rule.map policy.addRule) policy

/-- The engine that a configuration describes. -/
def engine (config : Config) : Engine :=
  { peers := .ofEntries config.identity.trustedProxies, timeout := config.storage.timeout }

end Config

end Admission
