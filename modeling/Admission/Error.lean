import Admission.Duration
/-!
# Errors

Every failure is a cause with what is needed to tell it; `Error.message` is the one place where the
wording stands.
-/

namespace Admission

/-- What is wrong with a throttle rule. -/
inductive RuleFault where
  | limitZero
  | periodZero
  deriving DecidableEq, Repr

/-- The wording of a fault of a rule. -/
def RuleFault.text : RuleFault → String
  | limitZero => "limit must be at least 1"
  | periodZero => "period must be greater than zero"

/-- Why a counter store did not give a count. -/
inductive StorageFault where
  /-- The call did not end in time. -/
  | timedOut (limit : Duration)
  /-- The store gave a reason of its own. -/
  | reported (reason : String)
  deriving DecidableEq, Repr

/-- The wording of a fault of a store. -/
def StorageFault.text : StorageFault → String
  | timedOut limit => "counter store timed out after " ++ limit.text
  | reported reason => reason

/-- Why a configuration was refused. -/
inductive ConfigFault where
  /-- The text is not one well-formed document. -/
  | malformed
  /-- The document does not describe a configuration; the reason tells where and why. -/
  | undecodable (reason : String)
  /-- The layers do not make up a configuration. -/
  | unusable
  deriving DecidableEq, Repr

/-- The wording of a fault of a configuration. -/
def ConfigFault.text : ConfigFault → String
  | malformed => "Failed to parse configuration: not a well-formed document"
  | undecodable reason => "Failed to parse configuration: " ++ reason
  | unusable => "the configuration file and the environment do not make up a configuration"

/-- Why a file could not be read. -/
inductive FileFault where
  | missing
  | notUtf8
  deriving DecidableEq, Repr

/-- The wording of a fault of a file. -/
def FileFault.text : FileFault → String
  | missing => "No such file or directory (os error 2)"
  | notUtf8 => "stream did not contain valid UTF-8"

/-- A failure of the library. -/
inductive Error where
  | invalidCidr (cidr : String)
  | invalidRule (fault : RuleFault) (pattern : String)
  | storage (fault : StorageFault)
  | config (fault : ConfigFault)
  | file (fault : FileFault)
  deriving DecidableEq, Repr

/-- The wording of an error. -/
def Error.message : Error → String
  | invalidCidr cidr => "Invalid CIDR '" ++ cidr ++ "': invalid IP address syntax"
  | invalidRule fault pattern =>
    "Invalid throttle rule: " ++ fault.text ++ " (pattern '" ++ pattern ++ "')"
  | storage fault => "Storage failure: " ++ fault.text
  | config fault => "Configuration error: " ++ fault.text
  | file fault => "I/O error: " ++ fault.text

end Admission
