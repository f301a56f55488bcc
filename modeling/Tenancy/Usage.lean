import Tenancy.Options

/-!
# What the command line says

The words for settings, for faults in arguments, and for the places that the operator works with.
-/

namespace Tenancy

namespace Setting

def describe : Setting → String
  | crd => "print the definitions of the kinds of objects and exit"
  | space => "namespace of the tenants, and root of their namespaces"
  | apiGateway => "host of the hardware service"
  | keycloakBase => "root of the identity provider"
  | keycloakRealm => "realm with the groups of administrators"
  | vaultAddr => "root of the engine that keeps keys"
  | vaultRole => "role for logging in to the engine"
  | serviceAccountToken => "file with the token of the service account"
  | statusPort => "port of the status pages"
  | webhookPort => "port of the reviews"
  | webhookCert => "certificate for the reviews"
  | webhookKey => "key for the reviews"
  | httpTimeoutSecs => "seconds to wait for an answer"
  | logFormat => "format of the log, json or text"

/-- A setting on a line of the usage. -/
def usage (s : Setting) : String :=
  let value := if s.shape = .switch then "" else " VALUE"
  let variableName := match s.environmentName? with
    | some v => " [" ++ v ++ "]"
    | none => ""
  "  --" ++ s.flag ++ value ++ variableName ++ ": " ++ s.describe

end Setting

namespace OptionFault

def message : OptionFault → String
  | unknownArgument => "an argument is not known"
  | invalidValue => "a flag is given without a value"
  | valueValidation => "a value does not have the form of its setting"
  | argumentConflict => "a flag is given twice"
  | missingRequired => "a certificate and a key are given together or not at all"
  | tooManyValues => "a value is given to a flag that takes none"
  | displayHelp => "\n".intercalate ("tenancy" :: Setting.all.map Setting.usage)
  | displayVersion => "tenancy 0.1.0"

/-- The fault is the answer to a question and not a mistake. -/
def isAnswer (f : OptionFault) : Bool := f = displayHelp || f = displayVersion

end OptionFault

namespace Options

/-- The places that the operator works with. -/
def overview (o : Options) : String :=
  "\n".intercalate
    ["namespace: " ++ o.space, "hardware service: " ++ o.hardwareBaseUrl,
      "identity provider: " ++ o.identityBaseUrl, "keys: " ++ o.vaultBaseUrl,
      "status pages: port " ++ toString o.statusPort, "reviews: port " ++ toString o.webhookPort]

end Options

end Tenancy
