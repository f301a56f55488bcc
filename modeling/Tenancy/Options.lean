import Tenancy.LogFormat
import Tenancy.Text.Blank

/-!
# Options of the operator

Every setting has a flag `--name`, given as `--name value` or `--name=value`, and most have a variable
of the environment too, which counts when the flag is not given. The arguments are read from left to
right. The value of a flag is looked at when the next known flag comes, or the end, so an argument that
nobody knows is reported before a bad value in front of it. A flag may be given once.
-/

namespace Tenancy

/-- Why arguments cannot be read, or what they ask for instead. -/
inductive OptionFault where
  | unknownArgument
  /-- A value is missing, or empty where it may not be. -/
  | invalidValue
  /-- A value is not of the form that the setting has. -/
  | valueValidation
  /-- A flag is given twice. -/
  | argumentConflict
  /-- A setting is given without another one that it needs. -/
  | missingRequired
  /-- A value is given to a flag that has none. -/
  | tooManyValues
  | displayHelp
  | displayVersion
  deriving DecidableEq, Repr, Inhabited

/-- The settings, in the order in which they are listed. -/
inductive Setting where
  | crd
  | space
  | apiGateway
  | keycloakBase
  | keycloakRealm
  | vaultAddr
  | vaultRole
  | serviceAccountToken
  | statusPort
  | webhookPort
  | webhookCert
  | webhookKey
  | httpTimeoutSecs
  | logFormat
  deriving DecidableEq, Repr, Inhabited

namespace Setting

inductive Shape where
  /-- Given or not, without a value. -/
  | switch
  | text
  /-- A path is not empty. -/
  | path
  /-- A number of 16 bits. -/
  | word16
  /-- A number of 64 bits. -/
  | word64
  | format
  deriving DecidableEq, Repr

def all : List Setting :=
  [crd, space, apiGateway, keycloakBase, keycloakRealm, vaultAddr, vaultRole, serviceAccountToken,
    statusPort, webhookPort, webhookCert, webhookKey, httpTimeoutSecs, logFormat]

def flag : Setting → String
  | crd => "crd"
  | space => "namespace"
  | apiGateway => "api-gateway"
  | keycloakBase => "keycloak-base"
  | keycloakRealm => "keycloak-realm"
  | vaultAddr => "vault-addr"
  | vaultRole => "vault-role"
  | serviceAccountToken => "service-account-token"
  | statusPort => "status-port"
  | webhookPort => "webhook-port"
  | webhookCert => "webhook-cert"
  | webhookKey => "webhook-key"
  | httpTimeoutSecs => "http-timeout-secs"
  | logFormat => "log-format"

def environmentName? : Setting → Option String
  | space => some "TAPMS_NAMESPACE"
  | apiGateway => some "API_GATEWAY"
  | keycloakBase => some "KEYCLOAK_BASE"
  | keycloakRealm => some "KEYCLOAK_REALM"
  | vaultAddr => some "VAULT_ADDR"
  | vaultRole => some "VAULT_ROLE"
  | statusPort => some "SERVER_PORT"
  | logFormat => some "LOG_FORMAT"
  | _ => none

def shape : Setting → Shape
  | crd => .switch
  | serviceAccountToken | webhookCert | webhookKey => .path
  | statusPort | webhookPort => .word16
  | httpTimeoutSecs => .word64
  | logFormat => .format
  | _ => .text

def ofFlag? (name : String) : Option Setting := all.find? fun s => s.flag = name

end Setting

namespace Options

/-! ## Values -/

def digits? (cs : List Char) : Option Nat :=
  if cs.isEmpty || !cs.all Char.isDigit then none
  else some (cs.foldl (fun n c => n * 10 + (c.toNat - 48)) 0)

/-- A natural number, perhaps after a plus sign. -/
def unsigned? (s : String) : Option Nat :=
  match s.toList with
  | '+' :: rest => digits? rest
  | cs => digits? cs

/-- A number of 16 bits. It is read as an integer first, so that `-0` is zero. -/
def word16? (s : String) : Option Nat :=
  match s.toList with
  | '-' :: rest => (digits? rest).filter (· = 0)
  | _ => (unsigned? s).filter (· < 65536)

def word64? (s : String) : Option Nat := (unsigned? s).filter (· < 18446744073709551616)

def check : Setting.Shape → String → Except OptionFault Unit
  | .switch, _ => .ok ()
  | .text, _ => .ok ()
  | .path, v => if v.isEmpty then .error .invalidValue else .ok ()
  | .word16, v => if (word16? v).isSome then .ok () else .error .valueValidation
  | .word64, v => if (word64? v).isSome then .ok () else .error .valueValidation
  | .format, v => match LogFormat.ofText v with
    | .ok _ => .ok ()
    | .error _ => .error .valueValidation

/-! ## Arguments -/

/-- The values given so far, and a flag whose value is not looked at yet. -/
structure Reader where
  given : List (Setting × String) := []
  pending : Option (Setting × Option String) := none
  deriving Inhabited

def valueOf (given : List (Setting × String)) (s : Setting) : Option String :=
  (given.find? fun p => p.1 = s).map (·.2)

/-- Take in a value for a setting. -/
def put (given : List (Setting × String)) (s : Setting) (value : Option String) :
    Except OptionFault (List (Setting × String)) :=
  match value with
  | none => .error .invalidValue
  | some v =>
    if (valueOf given s).isSome then .error .argumentConflict
    else do
      check s.shape v
      return (s, v) :: given

/-- Take in the value of the pending flag. -/
def Reader.settle (r : Reader) : Except OptionFault Reader :=
  match r.pending with
  | none => .ok r
  | some (s, value) => do return { given := ← put r.given s value }

/-- A flag with its value after `=`, if it has one there. -/
def splitFlag (cs : List Char) : String × Option String :=
  let name := cs.takeWhile fun c => c ≠ '='
  match cs.dropWhile fun c => c ≠ '=' with
  | _ :: value => (String.ofList name, some (String.ofList value))
  | [] => (String.ofList name, none)

def Reader.flag (r : Reader) (s : Setting) (value : Option String) : Except OptionFault Reader :=
  match s.shape, value with
  | .switch, some _ => .error .tooManyValues
  | .switch, none => do
    let r ← r.settle
    return { given := ← put r.given s (some "true") }
  | _, some v => do
    let r ← r.settle
    return { given := ← put r.given s (some v) }
  | _, none => do
    let r ← r.settle
    return { r with pending := some (s, none) }

/-- Take in an argument that starts with two hyphens. -/
def Reader.long (r : Reader) (cs : List Char) : Except OptionFault Reader :=
  let (name, value) := splitFlag cs
  if name = "help" ∨ name = "version" then
    if value.isSome then .error .tooManyValues
    else do
      discard r.settle
      throw (if name = "help" then .displayHelp else .displayVersion)
  else match Setting.ofFlag? name with
    | some s => r.flag s value
    | none => .error .unknownArgument

def Reader.short (r : Reader) (c : Char) : Except OptionFault Reader :=
  if c = 'h' ∨ c = 'V' then do
    discard r.settle
    throw (if c = 'h' then .displayHelp else .displayVersion)
  else .error .unknownArgument

def Reader.plain (r : Reader) (arg : String) : Except OptionFault Reader :=
  match r.pending with
  | some (s, none) => .ok { r with pending := some (s, some arg) }
  | _ => .error .unknownArgument

/-- Take in the arguments. After `--` there are no more flags. -/
def Reader.arguments (r : Reader) : List String → Except OptionFault Reader
  | [] => r.settle
  | arg :: rest =>
    match arg.toList with
    | ['-', '-'] => if rest.isEmpty then r.settle else .error .unknownArgument
    | '-' :: '-' :: cs => do (← r.long cs).arguments rest
    | '-' :: c :: _ => do (← r.short c).arguments rest
    | _ => do (← r.plain arg).arguments rest

/-- Take in the variables of the environment, for settings that are not given. -/
def addEnvironment (environment : String → Option String) (given : List (Setting × String)) :
    List Setting → Except OptionFault (List (Setting × String))
  | [] => .ok given
  | s :: rest =>
    match (valueOf given s).isNone, s.environmentName?.bind environment with
    | true, some v => do addEnvironment environment (← put given s (some v)) rest
    | _, _ => addEnvironment environment given rest

/-- The certificate and the key of the webhook are given together. -/
def checkPairs (given : List (Setting × String)) : Except OptionFault Unit :=
  if (valueOf given .webhookCert).isSome = (valueOf given .webhookKey).isSome then .ok ()
  else .error .missingRequired

end Options

structure Options where
  crd : Bool
  space : String
  apiGateway : String
  keycloakBase : String
  keycloakRealm : String
  vaultAddr : String
  vaultRole : String
  serviceAccountToken : String
  statusPort : Nat
  webhookPort : Nat
  webhookCert : Option String
  webhookKey : Option String
  httpTimeoutSecs : Nat
  logFormat : LogFormat
  deriving DecidableEq, Repr, Inhabited

namespace Options

/-- The options with these values and the defaults for the others. -/
def ofGiven (given : List (Setting × String)) : Options :=
  let value := valueOf given
  { crd := (value .crd).isSome
    space := (value .space).getD "tenants"
    apiGateway := (value .apiGateway).getD "api-gw-service-nmn.local"
    keycloakBase := (value .keycloakBase).getD "http://keycloak.services:8080/keycloak"
    keycloakRealm := (value .keycloakRealm).getD "shasta"
    vaultAddr := (value .vaultAddr).getD "http://cray-vault.vault:8200"
    vaultRole := (value .vaultRole).getD "tapms-operator"
    serviceAccountToken := (value .serviceAccountToken).getD
      "/var/run/secrets/kubernetes.io/serviceaccount/token"
    statusPort := ((value .statusPort).bind word16?).getD 80
    webhookPort := ((value .webhookPort).bind word16?).getD 8443
    webhookCert := value .webhookCert
    webhookKey := value .webhookKey
    httpTimeoutSecs := ((value .httpTimeoutSecs).bind word64?).getD 30
    logFormat := match (value .logFormat).map LogFormat.ofText with
      | some (.ok f) => f
      | _ => .json }

def read (arguments : List String) (environment : String → Option String) :
    Except OptionFault Options := do
  let r ← Reader.arguments {} arguments
  let given ← addEnvironment environment r.given Setting.all
  checkPairs given
  return ofGiven given

/-! ## What follows from the options -/

def hardwareBaseUrl (o : Options) : String := "https://" ++ o.apiGateway ++ "/apis/smd/hsm/v2"

/-- The root of the identity provider's administration of the realm. -/
def identityBaseUrl (o : Options) : String :=
  Text.trimEndOf '/' o.keycloakBase ++ "/admin/realms/" ++ o.keycloakRealm

def vaultBaseUrl (o : Options) : String := Text.trimEndOf '/' o.vaultAddr ++ "/v1"

def webhookTls (o : Options) : Option (String × String) :=
  match o.webhookCert, o.webhookKey with
  | some c, some k => some (c, k)
  | _, _ => none

end Options

structure TokenEndpoints where
  hardwareTokenUrl : String
  identityTokenUrl : String
  vaultLoginUrl : String
  vaultRole : String
  serviceAccountToken : String
  deriving DecidableEq, Repr, Inhabited

def Options.endpoints (o : Options) : TokenEndpoints where
  hardwareTokenUrl :=
    "https://" ++ o.apiGateway ++ "/keycloak/realms/shasta/protocol/openid-connect/token"
  identityTokenUrl :=
    Text.trimEndOf '/' o.keycloakBase ++ "/realms/master/protocol/openid-connect/token"
  vaultLoginUrl := o.vaultBaseUrl ++ "/auth/kubernetes/login"
  vaultRole := o.vaultRole
  serviceAccountToken := o.serviceAccountToken

end Tenancy
