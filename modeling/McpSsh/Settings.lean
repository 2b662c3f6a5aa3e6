import McpSsh.Bearers
import McpSsh.Policy

/-!
# Settings

What the process needs from its environment before it can mediate anything, by
`settings.rs` and `process.rs`. `Settings::from_lookup` is one function of the
source; its parts are named here, in the order in which it runs them, so that the
first that fails is the one that is reported. A variable may be absent, and a
text that is not Unicode is refused wherever it is read.
-/

namespace McpSsh

open Refusals

inductive VarError
  | notPresent
  | notUnicode
  deriving DecidableEq, Repr

/-- What the environment says of a variable. -/
abbrev Lookup := String → Except VarError String

/-- A URL, as far as settings look at it. -/
structure Url where
  text : String
  scheme : String
  host : Option String
  username : String
  password : Option String
  path : String
  query : Option String
  fragment : Option String
  deriving DecidableEq

/-- What is outside the source: the parsers of URLs, of header names and of JSON
that it calls, the machine's directory for what is temporary, and the digest. -/
structure Outside where
  parseUrl : String → Option Url
  headerName : List UInt8 → Option String
  parseTexts : String → Option (List (String × String))
  quote : String → String
  tempDir : String
  sha256 : List UInt8 → Digest

/-! ## Transport and outputs -/

inductive Transport
  | http
  | stdio
  deriving DecidableEq, Repr

inductive Sink
  | stdout
  | stderr
  | file (path : String)

inductive ProcessError
  | invalid (var : String)
  | stdioAuditFile
  | protocolStdout
  | sharedSink
  deriving DecidableEq, Repr

/-- `Sink::parse`. -/
def Sink.parse (value var : String) : Except ProcessError Sink :=
  if value = "stdout" then .ok .stdout
  else if value = "stderr" then .ok .stderr
  else
    match stripPrefix "file:" value with
    | some path => if path = "" then .error (.invalid var) else .ok (.file path)
    | none => .error (.invalid var)

/-- The components a path is compared by: whether it starts at the root, and its
names without empty ones and without `.`, save at the start. -/
def pathComponents (path : String) : Bool × List (List Char) :=
  let names := path.toList.splitOn '/'
  let kept := names.filter fun name => name ≠ [] ∧ name ≠ ['.']
  (path.toList.head? = some '/', if names.head? = some ['.'] then ['.'] :: kept else kept)

/-- `Sink::eq`. -/
def Sink.same : Sink → Sink → Bool
  | .stdout, .stdout => true
  | .stderr, .stderr => true
  | .file first, .file second => pathComponents first = pathComponents second
  | _, _ => false

structure ProcessOptions where
  transport : Transport
  audit : Sink
  diagnostics : Sink

def ProcessOptions.transportVar : String := "MCP_SSH_TRANSPORT"
def ProcessOptions.auditVar : String := "MCP_SSH_AUDIT_SINK"
def ProcessOptions.logVar : String := "MCP_SSH_LOG_SINK"

/-- `read`: a variable of the process is either absent or says something. -/
def readOption (lookup : Lookup) (var : String) : Except ProcessError (Option String) :=
  match lookup var with
  | .ok value => if isBlank value then .error (.invalid var) else .ok (some value)
  | .error .notPresent => .ok none
  | .error .notUnicode => .error (.invalid var)

/-- The transport that is named, if any is. -/
def Transport.parse (named : Option String) : Except ProcessError Transport :=
  match named with
  | none => .ok .http
  | some value =>
    if value = "http" then .ok .http
    else if value = "stdio" then .ok .stdio
    else .error (.invalid ProcessOptions.transportVar)

/-- Where what is recorded goes. -/
def Sink.forAudit (transport : Transport) (named : Option String) : Except ProcessError Sink :=
  match named, transport with
  | some value, _ => Sink.parse value ProcessOptions.auditVar
  | none, .http => .ok .stdout
  | none, .stdio => .error .stdioAuditFile

/-- Where diagnostics go. -/
def Sink.forDiagnostics (named : Option String) : Except ProcessError Sink :=
  match named with
  | some value => Sink.parse value ProcessOptions.logVar
  | none => .ok .stderr

def Sink.isFile : Sink → Bool
  | .file _ => true
  | _ => false

/-- `ProcessOptions::from_lookup`. -/
def ProcessOptions.fromLookup (lookup : Lookup) : Except ProcessError ProcessOptions := do
  let transport ← Transport.parse (← readOption lookup transportVar)
  let audit ← Sink.forAudit transport (← readOption lookup auditVar)
  let diagnostics ← Sink.forDiagnostics (← readOption lookup logVar)
  refuse (transport = .stdio ∧ ¬audit.isFile) .stdioAuditFile
  refuse (transport = .stdio ∧ diagnostics.same .stdout) .protocolStdout
  refuse (audit.same diagnostics) .sharedSink
  pure { transport, audit, diagnostics }

/-! ## Reading a variable -/

inductive SettingsError
  | process (source : ProcessError)
  | missing (var : String)
  | unusable (var : String)
  | invalid (var : String) (source : IngressError)
  deriving DecidableEq, Repr

/-- `required`. -/
def required (lookup : Lookup) (var : String) : Except SettingsError String :=
  match lookup var with
  | .ok value => if isBlank value then .error (.missing var) else .ok (trim value)
  | .error .notPresent => .error (.missing var)
  | .error .notUnicode => .error (.unusable var)

/-- `optional`. -/
def optional (lookup : Lookup) (var : String) : Except SettingsError (Option String) :=
  match lookup var with
  | .ok value => .ok (if isBlank value then none else some (trim value))
  | .error .notPresent => .ok none
  | .error .notUnicode => .error (.unusable var)

/-- The number that decimal digits spell. -/
def decimal (digits : List Char) : Nat :=
  digits.foldl (fun number digit => 10 * number + (digit.toNat - '0'.toNat)) 0

/-- `positive`: a number of 64 bits. -/
def positive (lookup : Lookup) (var : String) (default : Nat) : Except SettingsError Nat :=
  match lookup var with
  | .error .notPresent => .ok default
  | .error .notUnicode => .error (.unusable var)
  | .ok value =>
    if value ≠ "" ∧ value.toList.all Char.isDigit then
      let number := decimal value.toList
      if number < 2 ^ 64 ∧ 0 < number then .ok number else .error (.unusable var)
    else .error (.unusable var)

/-- `list`. -/
def commaList (lookup : Lookup) (var : String) : Except SettingsError (List String) := do
  match ← optional lookup var with
  | none => pure []
  | some raw =>
    pure (((raw.toList.splitOn ',').map fun entry => trim (String.ofList entry)).filter (· ≠ ""))

/-- `optional_url`. -/
def optionalUrl (outside : Outside) (lookup : Lookup) (var : String) (schemes : List String) :
    Except SettingsError (Option Url) := do
  match ← optional lookup var with
  | none => pure none
  | some raw =>
    let url ← demand (outside.parseUrl raw) (.unusable var)
    refuse (url.scheme ∉ schemes ∨ url.host.isNone) (.unusable var)
    pure (some url)

/-- `optional_base_url`. -/
def optionalBaseUrl (outside : Outside) (lookup : Lookup) (var : String) :
    Except SettingsError (Option Url) := do
  match ← optionalUrl outside lookup var ["http", "https"] with
  | none => pure none
  | some url =>
    refuse (url.username ≠ "" ∨ url.password.isSome ∨ url.query.isSome ∨ url.fragment.isSome ∨
      ¬(url.path = "" ∨ url.path = "/")) (.unusable var)
    pure (some url)

/-! ## The variables -/

namespace Settings

def sessionsPerPrincipalVar : String := "MCP_SSH_SESSIONS_PER_PRINCIPAL"
def checksumBytesVar : String := "MCP_SSH_CHECKSUM_MAX_BYTES"
def sftpReadAheadVar : String := "MCP_SSH_SFTP_READ_AHEAD"
def authModeVar : String := "MCP_SSH_AUTH_MODE"
def standaloneBearerVar : String := "MCP_SSH_BEARER"
def principalVar : String := "MCP_SSH_PRINCIPAL"
def operatorPasswordVar : String := "MCP_SSH_OPERATOR_PASSWORD"
def operatorNameVar : String := "MCP_SSH_OPERATOR_NAME"
def registryVar : String := "MCP_SSH_REGISTRY"
def bearerVar : String := "MCP_SSH_GATEWAY_BEARER_CURRENT"
def previousBearerVar : String := "MCP_SSH_GATEWAY_BEARER_PREVIOUS"
def proxyBearerVar : String := "MCP_SSH_PROXY_BEARER_CURRENT"
def previousProxyBearerVar : String := "MCP_SSH_PROXY_BEARER_PREVIOUS"
def metricsBearerVar : String := "MCP_SSH_METRICS_BEARER"
def previousMetricsBearerVar : String := "MCP_SSH_PREVIOUS_METRICS_BEARER"
def evaluatorBearerVar : String := "MCP_SSH_EVALUATOR_BEARER_CURRENT"
def previousEvaluatorBearerVar : String := "MCP_SSH_EVALUATOR_BEARER_PREVIOUS"
def evaluatorNameVar : String := "MCP_SSH_EVALUATOR_NAME"
def auditLabelsVar : String := "MCP_SSH_AUDIT_LABELS"
def auditQueryVar : String := "MCP_SSH_AUDIT_QUERY_URL"
def notifyVar : String := "MCP_SSH_NOTIFY_URL"
def dashboardVar : String := "MCP_SSH_DASHBOARD_URL"
def jwksVar : String := "MCP_SSH_IDENTITY_JWKS_URL"
def issuerVar : String := "MCP_SSH_IDENTITY_ISSUER"
def trustedHostsVar : String := "MCP_SSH_TRUSTED_HOSTS"
def operatorHeaderVar : String := "MCP_SSH_OPERATOR_HEADER"
def fileRootVar : String := "MCP_SSH_FILE_ROOT"
def fileOriginVar : String := "MCP_SSH_FILE_ORIGIN"
def maxTransferVar : String := "MCP_SSH_MAX_TRANSFER_BYTES"
def transferTimeoutVar : String := "MCP_SSH_TRANSFER_TIMEOUT_SECONDS"
def stagingVar : String := "MCP_SSH_FILE_STAGING"
def reviewVar : String := "MCP_SSH_REVIEW"

/-! ## Modes -/

/-- Whether callers are authenticated by the gateway. -/
def authGateway (lookup : Lookup) (stdio : Bool) : Except SettingsError Bool := do
  match ← optional lookup authModeVar with
  | none => pure false
  | some mode =>
    if mode = "standalone" then pure false
    else if mode = "gateway" ∧ ¬stdio then pure true
    else .error (.unusable authModeVar)

/-- The variables that belong to the other mode. -/
def incompatible (gateway : Bool) : List String :=
  if gateway then [standaloneBearerVar, principalVar, operatorPasswordVar, operatorNameVar]
  else [bearerVar, previousBearerVar, proxyBearerVar, previousProxyBearerVar, jwksVar, issuerVar]

/-- A variable of the other mode says nothing. -/
def refuseIncompatible (lookup : Lookup) (gateway : Bool) : Except SettingsError Unit :=
  forM (incompatible gateway) fun var => do
    let value ← optional lookup var
    refuse value.isSome (.unusable var)

def currentVar (gateway : Bool) : String := if gateway then bearerVar else standaloneBearerVar

def proxyVar (gateway : Bool) : String := if gateway then proxyBearerVar else operatorPasswordVar

/-! ## What is configured -/

/-- The credentials that are configured, before any is accepted, and what the
source reads along with them. -/
structure Configured where
  current : Option String
  previous : Option String
  proxyCurrent : Option String
  proxyPrevious : Option String
  review : ReviewMode
  dashboard : Option Url
  metricsCurrent : Option String
  metricsPrevious : Option String
  evaluatorCurrent : Option String
  evaluatorPrevious : Option String
  evaluatorName : Option String

/-- The MCP credential: none over standard input, and required elsewhere. -/
def readCurrent (lookup : Lookup) (stdio gateway : Bool) : Except SettingsError (Option String) := do
  if stdio then
    let value ← optional lookup (currentVar gateway)
    refuse value.isSome (.unusable (currentVar gateway))
    pure none
  else
    let value ← required lookup (currentVar gateway)
    pure (some value)

/-- Without an operator credential, there is neither a previous one nor a name. -/
def refuseOrphans (lookup : Lookup) (var : String) (proxyCurrent proxyPrevious : Option String) :
    Except SettingsError Unit := do
  if proxyCurrent.isNone then
    refuse proxyPrevious.isSome (.missing var)
    let name ← optional lookup operatorNameVar
    refuse name.isSome (.missing var)

/-- `ReviewMode::from_str`. -/
def reviewFromStr (value : String) : Option ReviewMode :=
  if value = "disabled" then some .disabled
  else if value = "all" then some .all
  else if value = "privileged" then some .privileged
  else none

def readReview (lookup : Lookup) : Except SettingsError ReviewMode := do
  match ← optional lookup reviewVar with
  | none => pure .disabled
  | some value => demand (reviewFromStr value) (.unusable reviewVar)

/-- The bytes of a text that may be missing. -/
def bytesOf (value : Option String) : Nat := (value.map String.utf8ByteSize).getD 0

def Configured.read (outside : Outside) (lookup : Lookup) (stdio gateway : Bool) :
    Except SettingsError Configured := do
  let current ← readCurrent lookup stdio gateway
  let previous ← optional lookup previousBearerVar
  let proxyCurrent ← optional lookup (proxyVar gateway)
  let proxyPrevious ← optional lookup previousProxyBearerVar
  refuse (¬gateway ∧ 1024 < bytesOf proxyCurrent) (.unusable (proxyVar gateway))
  refuseOrphans lookup (proxyVar gateway) proxyCurrent proxyPrevious
  let review ← readReview lookup
  let dashboard ← optionalUrl outside lookup dashboardVar ["http", "https"]
  refuse (review ≠ .disabled ∧ proxyCurrent.isNone) (.missing (proxyVar gateway))
  refuse (review ≠ .disabled ∧ dashboard.isNone) (.missing dashboardVar)
  let metricsCurrent ← optional lookup metricsBearerVar
  let metricsPrevious ← optional lookup previousMetricsBearerVar
  let evaluatorCurrent ← optional lookup evaluatorBearerVar
  let evaluatorPrevious ← optional lookup previousEvaluatorBearerVar
  let evaluatorName ← optional lookup evaluatorNameVar
  refuse (evaluatorCurrent.isNone ∧ (evaluatorPrevious.isSome ∨ evaluatorName.isSome))
    (.unusable evaluatorBearerVar)
  refuse (evaluatorCurrent.isSome ∧ evaluatorName.isNone) (.unusable evaluatorNameVar)
  refuse (128 < bytesOf evaluatorName) (.unusable evaluatorNameVar)
  pure {
    current, previous, proxyCurrent, proxyPrevious, review, dashboard, metricsCurrent,
    metricsPrevious, evaluatorCurrent, evaluatorPrevious, evaluatorName }

/-! ## Separation -/

/-- The four surfaces that a credential is presented to. -/
inductive Surface
  | mcp
  | operator
  | evaluator
  | metrics
  deriving DecidableEq, Repr

/-- What is configured for a surface. -/
def Configured.values (configured : Configured) : Surface → List (Option String)
  | .mcp => [configured.current, configured.previous]
  | .operator => [configured.proxyCurrent, configured.proxyPrevious]
  | .evaluator => [configured.evaluatorCurrent, configured.evaluatorPrevious]
  | .metrics => [configured.metricsCurrent, configured.metricsPrevious]

/-- None of some values is held elsewhere. -/
def refuseShared (held : List (Option String)) (values : List (Option String × String)) :
    Except SettingsError Unit :=
  forM values fun (value, var) =>
    refuse (value.any fun value => (given held).any (· == value))
      (.invalid var .bearersSharedAcrossSurfaces)

def Configured.refuseShared (configured : Configured) (gateway : Bool) :
    Except SettingsError Unit := do
  Settings.refuseShared (configured.values .mcp)
    [(configured.proxyCurrent, proxyVar gateway),
      (configured.proxyPrevious, previousProxyBearerVar)]
  Settings.refuseShared (configured.values .mcp ++ configured.values .operator)
    [(configured.evaluatorCurrent, evaluatorBearerVar),
      (configured.evaluatorPrevious, previousEvaluatorBearerVar)]
  Settings.refuseShared
    (configured.values .mcp ++ configured.values .operator ++ configured.values .evaluator)
    [(configured.metricsCurrent, metricsBearerVar),
      (configured.metricsPrevious, previousMetricsBearerVar)]

/-! ## Credentials -/

/-- `bearer_pair`. -/
def bearerPair (sha256 : List UInt8 → Digest) (current previous : Option String)
    (currentVar previousVar : String) : Except SettingsError (Option SharedBearer) :=
  match current with
  | none => if previous.isNone then .ok none else .error (.missing currentVar)
  | some current => do
    let _ ← (SharedBearer.new sha256 current none).mapError (.invalid currentVar)
    let var := if previous.isSome then previousVar else currentVar
    let bearer ← (SharedBearer.new sha256 current previous).mapError (.invalid var)
    pure (some bearer)

structure EvaluatorSettings where
  bearers : SharedBearer
  name : String

/-- The credentials of each surface. -/
structure Bearers where
  metricsBearers : Option SharedBearer
  bearers : Option SharedBearer
  proxyBearers : Option SharedBearer
  evaluator : Option EvaluatorSettings

/-- An evaluator has a credential and a name, or neither. -/
def evaluatorSettings (bearers : Option SharedBearer) (name : Option String) :
    Except SettingsError (Option EvaluatorSettings) :=
  match bearers, name with
  | some bearers, some name => .ok (some { bearers, name })
  | none, none => .ok none
  | _, _ => .error (.unusable evaluatorBearerVar)

def Configured.bearers (sha256 : List UInt8 → Digest) (configured : Configured) (gateway : Bool) :
    Except SettingsError Bearers := do
  let metricsBearers ← bearerPair sha256 configured.metricsCurrent configured.metricsPrevious
    metricsBearerVar previousMetricsBearerVar
  let bearers ← bearerPair sha256 configured.current configured.previous
    (currentVar gateway) previousBearerVar
  let proxyBearers ← bearerPair sha256 configured.proxyCurrent configured.proxyPrevious
    (proxyVar gateway) previousProxyBearerVar
  let evaluatorBearers ← bearerPair sha256 configured.evaluatorCurrent
    configured.evaluatorPrevious evaluatorBearerVar previousEvaluatorBearerVar
  let evaluator ← evaluatorSettings evaluatorBearers configured.evaluatorName
  pure { metricsBearers, bearers, proxyBearers, evaluator }

/-- The credential of one surface. -/
def Bearers.of (bearers : Bearers) : Surface → Option SharedBearer
  | .mcp => bearers.bearers
  | .operator => bearers.proxyBearers
  | .evaluator => bearers.evaluator.map EvaluatorSettings.bearers
  | .metrics => bearers.metricsBearers

/-- Whether a surface accepts what is presented to it. -/
def Bearers.accepts (sha256 : List UInt8 → Digest) (bearers : Bearers) (surface : Surface)
    (presented : List UInt8) : Bool :=
  match bearers.of surface with
  | some bearer => bearer.accepts sha256 presented
  | none => false

/-! ## Identity -/

structure IdentitySettings where
  jwksUrl : Url
  issuer : String

/-- `IdentitySettings::validate`. -/
def IdentitySettings.validate (settings : IdentitySettings) : Except IngressError Unit := do
  let url := settings.jwksUrl
  refuse (url.scheme ≠ "http" ∧ url.scheme ≠ "https") .jwksNotHttp
  refuse (url.host.isNone ∨ url.username ≠ "" ∨ url.password.isSome ∨ url.query.isSome ∨
    url.fragment.isSome) .jwksUrlUnusable
  refuse (isBlank settings.issuer) .issuerBlank

inductive Authentication
  | gateway (identity : IdentitySettings)
  | stdio (principal : PrincipalId) (operator : String)
  | standalone (principal : PrincipalId) (operator : String)

/-- `PrincipalId::parse`. -/
def parsePrincipal (raw : String) : Option PrincipalId :=
  if accepted : PrincipalId.refusal raw = none then some ⟨raw, accepted⟩ else none

/-- The variable that an identity source is refused under. -/
def identityVar (source : IngressError) : String :=
  if source = .issuerBlank then issuerVar else jwksVar

def readGateway (outside : Outside) (lookup : Lookup) : Except SettingsError Authentication := do
  let raw ← required lookup jwksVar
  let jwksUrl ← demand (outside.parseUrl raw) (.unusable jwksVar)
  let issuer ← required lookup issuerVar
  let identity : IdentitySettings := { jwksUrl, issuer }
  identity.validate.mapError fun source => .invalid (identityVar source) source
  pure (.gateway identity)

/-- A name is no credential: the MCP, the operator and the evaluator surface all
refuse it. -/
def refuseName (sha256 : List UInt8 → Digest) (bearers : Bearers) (name var : String) :
    Except SettingsError Unit :=
  refuse (bearers.accepts sha256 .mcp (asBytes name) ∨
    bearers.accepts sha256 .operator (asBytes name) ∨
    bearers.accepts sha256 .evaluator (asBytes name)) (.unusable var)

def readLocal (sha256 : List UInt8 → Digest) (lookup : Lookup) (stdio : Bool) (bearers : Bearers) :
    Except SettingsError Authentication := do
  let named ← optional lookup principalVar
  let principal ← demand (parsePrincipal (named.getD "local")) (.unusable principalVar)
  let operatorNamed ← optional lookup operatorNameVar
  let operator := operatorNamed.getD "operator"
  refuse (':' ∈ operator.toList ∨ (parsePrincipal operator).isNone) (.unusable operatorNameVar)
  refuseName sha256 bearers principal.name principalVar
  refuseName sha256 bearers operator operatorNameVar
  pure (if stdio then .stdio principal operator else .standalone principal operator)

def readIdentity (outside : Outside) (lookup : Lookup) (stdio gateway : Bool) (bearers : Bearers) :
    Except SettingsError Authentication :=
  if gateway then readGateway outside lookup else readLocal outside.sha256 lookup stdio bearers

/-! ## The rest -/

/-- `Labels`: what selects the deployment's audit stream. -/
structure Labels where
  selector : String

/-- A label's name, and a value that is not too long. -/
def labelAccepted (label : String × String) : Bool :=
  let named (c : Char) : Bool := c.isAlpha || c = '_'
  match label.1.toList with
  | [] => false
  | first :: rest =>
    named first && (rest.all fun c => named c || c.isDigit) && label.2.utf8ByteSize ≤ 1024

/-- `Labels::parse`. -/
def Labels.parse (outside : Outside) (raw : String) : Option Labels :=
  if 16384 < raw.utf8ByteSize then none
  else
    match outside.parseTexts raw with
    | none => none
    | some labels =>
      if labels = [] ∨ 16 < labels.length ∨ labels.all fun label => label.2 = "" then none
      else if ¬labels.all labelAccepted then none
      else
        let selectors := labels.map fun label => label.1 ++ "=" ++ outside.quote label.2
        some { selector := "\x7b" ++ ",".intercalate selectors ++ "\x7d" }

structure AuditSource where
  query : Option Url
  labels : Option Labels

def readAudit (outside : Outside) (lookup : Lookup) : Except SettingsError AuditSource := do
  let query ← optionalBaseUrl outside lookup auditQueryVar
  let raw ← optional lookup auditLabelsVar
  let labels ← match raw with
    | none => .ok none
    | some raw => (demand (Labels.parse outside raw) (.unusable auditLabelsVar)).map some
  refuse (query.isSome ≠ labels.isSome) (.unusable auditLabelsVar)
  pure { query, labels }

/-- `dashboard::OPERATOR_HEADER`. -/
def defaultOperatorHeader : String := "x-mcp-operator"

/-- Headers that carry what is not an operator's name. -/
def reservedHeaders : List String :=
  ["authorization", "proxy-authorization", "cookie", "set-cookie", "x-mcp-identity"]

def readOperatorHeader (outside : Outside) (lookup : Lookup) (gateway : Bool) :
    Except SettingsError String := do
  let configured ← optional lookup operatorHeaderVar
  refuse (configured.isSome ∧ ¬gateway) (.unusable operatorHeaderVar)
  let header ← demand (outside.headerName (asBytes (configured.getD defaultOperatorHeader)))
    (.unusable operatorHeaderVar)
  refuse (header ∈ reservedHeaders) (.unusable operatorHeaderVar)
  pure header

def readFileRoot (lookup : Lookup) (stdio : Bool) : Except SettingsError (Option String) := do
  match ← optional lookup fileRootVar with
  | none => pure none
  | some root =>
    refuse (¬stdio) (.unusable fileRootVar)
    let origin ← optional lookup fileOriginVar
    refuse origin.isSome (.unusable fileRootVar)
    pure (some root)

/-- A timeout is in seconds. -/
structure TransferSettings where
  maxBytes : Nat
  timeout : Nat
  staging : String

/-- `TransferSettings::default`. -/
def TransferSettings.default (outside : Outside) : TransferSettings where
  maxBytes := 2000000000
  timeout := 1800
  staging := outside.tempDir

def readTransfers (outside : Outside) (lookup : Lookup) : Except SettingsError TransferSettings := do
  let defaults := TransferSettings.default outside
  let maxBytes ← positive lookup maxTransferVar defaults.maxBytes
  refuse (2 ^ 64 ≤ maxBytes * 32 ∨ 2 ^ 63 ≤ maxBytes) (.unusable maxTransferVar)
  let seconds ← positive lookup transferTimeoutVar defaults.timeout
  refuse (86400 < seconds) (.unusable transferTimeoutVar)
  let staging ← optional lookup stagingVar
  pure { maxBytes, timeout := seconds, staging := staging.getD defaults.staging }

/-- `DownloadWindow`. -/
structure DownloadWindow where
  requests : Nat
  positive : 0 < requests
  bounded : requests ≤ 64

/-- `DownloadWindow::new`. -/
def DownloadWindow.new (requests : Nat) : Option DownloadWindow :=
  if fits : 0 < requests ∧ requests ≤ 64 then some ⟨requests, fits.1, fits.2⟩ else none

/-- `DownloadWindow::default`. -/
def DownloadWindow.default : DownloadWindow := ⟨8, by decide, by decide⟩

def readWindow (lookup : Lookup) : Except SettingsError DownloadWindow := do
  let requests ← positive lookup sftpReadAheadVar DownloadWindow.default.requests
  demand (DownloadWindow.new requests) (.unusable sftpReadAheadVar)

def readChecksumBytes (lookup : Lookup) : Except SettingsError Nat := do
  let bytes ← positive lookup checksumBytesVar (64 * 2 ^ 20)
  refuse (2 ^ 63 ≤ bytes) (.unusable checksumBytesVar)
  pure bytes

end Settings

/-- Everything that serving needs and that is not compiled in. -/
structure Settings extends Settings.Bearers where
  sessionsPerPrincipal : Nat
  downloadWindow : Settings.DownloadWindow
  checksumBytes : Nat
  operatorHeader : String
  fileOrigin : Option Url
  fileRoot : Option String
  transfers : Settings.TransferSettings
  process : ProcessOptions
  registry : String
  auditQuery : Option Url
  auditLabels : Option Settings.Labels
  identity : Settings.Authentication
  notify : Option Url
  dashboard : Option Url
  review : ReviewMode
  trustedHosts : List String

/-- `Settings::from_lookup`, where a `usize` has 64 bits. -/
def Settings.fromLookup (outside : Outside) (lookup : Lookup) : Except SettingsError Settings := do
  let process ← (ProcessOptions.fromLookup lookup).mapError .process
  let registry ← required lookup registryVar
  let stdio : Bool := process.transport = .stdio
  let gateway ← authGateway lookup stdio
  refuseIncompatible lookup gateway
  let configured ← Configured.read outside lookup stdio gateway
  configured.refuseShared gateway
  let bearers ← configured.bearers outside.sha256 gateway
  let identity ← readIdentity outside lookup stdio gateway bearers
  let audit ← readAudit outside lookup
  let operatorHeader ← readOperatorHeader outside lookup gateway
  let fileRoot ← readFileRoot lookup stdio
  let transfers ← readTransfers outside lookup
  let downloadWindow ← readWindow lookup
  let checksumBytes ← readChecksumBytes lookup
  let sessionsPerPrincipal ← positive lookup sessionsPerPrincipalVar 32
  let fileOrigin ← optionalUrl outside lookup fileOriginVar ["http", "https"]
  let notify ← optionalUrl outside lookup notifyVar ["http", "https"]
  let trustedHosts ← commaList lookup trustedHostsVar
  pure {
    toBearers := bearers
    sessionsPerPrincipal, downloadWindow, checksumBytes, operatorHeader, fileOrigin, fileRoot
    transfers, process, registry, identity, notify, trustedHosts
    auditQuery := audit.query
    auditLabels := audit.labels
    dashboard := configured.dashboard
    review := configured.review }

end McpSsh
