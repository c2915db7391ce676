import Qdrust.Library.Checked
import Qdrust.Server.Readings

/-! The configuration of the server: the variables of the environment, the file that is
merged into them, and the checks on the result. Durations are seconds. -/
namespace Qdrust.Server
open Library

/-- `env::var`, where a variable that is not Unicode is none. -/
abbrev Environment := String → Option String

/-- What is outside of the server: a file that cannot be read, one that is not JSON, or its
value; and whether a name is one of a timezone. -/
structure Host where
  files : String → Option (Option Json)
  timezone : String → Bool

@[ext] structure OidcConfig where
  issuer : String
  clientId : String
  clientSecret : String
  redirectUri : String
  scopes : String
  autoCreateUsers : Bool
  defaultRole : String
  adminGroups : List String
  groupsClaim : String
  logoutUrl : String
  postLogoutRedirectUri : String
  deriving DecidableEq

@[ext] structure HeaderAuthConfig where
  userHeader : String
  emailHeader : String
  groupsHeader : String
  groupsSeparator : String
  trustedProxies : List Executor.IpAddr
  trustedProxyRequired : Bool
  autoCreateUsers : Bool
  defaultRole : String
  adminGroups : List String
  deriving DecidableEq

@[ext] structure Config where
  bind : Executor.IpAddr
  port : Nat
  databaseUrl : String
  databaseMinConnections : Nat
  databaseMaxConnections : Nat
  schedulerInterval : Nat
  requestTimeout : Nat
  sessionTtl : Nat
  cookieSecure : Bool
  databaseAcquireTimeout : Nat
  databaseIdleTimeout : Nat
  loginRateLimitAttempts : Nat
  loginRateLimitWindow : Nat
  logRetentionDays : Nat
  gaKey : Option String
  requireEmailVerification : Bool
  allowPrivateNetwork : Bool
  allowInvalidCertificates : Bool
  defaultTimezone : String
  defaultLocale : String
  basePath : String
  authMode : AuthMode
  localLoginEnabled : Bool
  oidcEnabled : Bool
  oidcProviderName : String
  oidc : OidcConfig
  headerAuthEnabled : Bool
  header : HeaderAuthConfig
  configFile : Option String
  deriving DecidableEq

section Environment

variable {α : Type}

/-- `.context(message)`. -/
def context (message : String) : Option α → Except String α
  | some value => .ok value
  | none => .error message

def parseEnv (env : Environment) (name : String) (parse : String → Option α) (unset : α) : Except String α :=
  match env name with
  | none => .ok unset
  | some value => context ("invalid " ++ name) (parse value)

/-- `.ok().filter(|s| !s.trim().is_empty()).unwrap_or_else(..)`. -/
def textEnv (env : Environment) (name unset : String) : String := ((env name).filter fun s => !blank s).getD unset

/-- `.map(|v| v.trim().eq_ignore_ascii_case("true")).unwrap_or(..)`. -/
def switchEnv (env : Environment) (name : String) (unset : Bool) : Bool := ((env name).map truthy).getD unset

def csvEnv (env : Environment) (name : String) : List String := ((env name).map commaParts).getD []

/-- `.ok().filter(|s| !s.is_empty())`. -/
def someEnv (env : Environment) (name : String) : Option String := (env name).filter (· ≠ "")

def secondsEnv (env : Environment) (name : String) (unset : Nat) : Except String Nat :=
  parseEnv env name (parseUnsigned (2 ^ 64)) unset

def proxiesEnv (env : Environment) (name : String) : Except String (List Executor.IpAddr) :=
  match env name with
  | none => .ok []
  | some raw =>
    context (name ++ " must be comma-separated IP addresses")
      ((raw.toList.splitOn ',').mapM fun part => parseIp (trim (String.ofList part)))

def OidcConfig.fromEnv (env : Environment) : OidcConfig where
  issuer := textEnv env "QDRUST_OIDC_ISSUER" ""
  clientId := textEnv env "QDRUST_OIDC_CLIENT_ID" ""
  clientSecret := textEnv env "QDRUST_OIDC_CLIENT_SECRET" ""
  redirectUri := textEnv env "QDRUST_OIDC_REDIRECT_URI" ""
  scopes := textEnv env "QDRUST_OIDC_SCOPES" "openid profile email"
  autoCreateUsers := switchEnv env "QDRUST_OIDC_AUTO_CREATE_USERS" true
  defaultRole := textEnv env "QDRUST_OIDC_DEFAULT_ROLE" "user"
  adminGroups := csvEnv env "QDRUST_OIDC_ADMIN_GROUPS"
  groupsClaim := textEnv env "QDRUST_OIDC_GROUPS_CLAIM" "groups"
  logoutUrl := textEnv env "QDRUST_OIDC_LOGOUT_URL" ""
  postLogoutRedirectUri := textEnv env "QDRUST_OIDC_POST_LOGOUT_REDIRECT_URI" ""

def HeaderAuthConfig.fromEnv (env : Environment) (trustedProxies : List Executor.IpAddr) : HeaderAuthConfig where
  userHeader := textEnv env "QDRUST_HEADER_USER_HEADER" "Remote-User"
  emailHeader := textEnv env "QDRUST_HEADER_EMAIL_HEADER" "Remote-Email"
  groupsHeader := textEnv env "QDRUST_HEADER_GROUPS_HEADER" "Remote-Groups"
  groupsSeparator := textEnv env "QDRUST_HEADER_GROUPS_SEPARATOR" ","
  trustedProxies := trustedProxies
  trustedProxyRequired := switchEnv env "QDRUST_HEADER_TRUSTED_PROXY_REQUIRED" true
  autoCreateUsers := switchEnv env "QDRUST_HEADER_AUTO_CREATE_USERS" false
  defaultRole := textEnv env "QDRUST_HEADER_DEFAULT_ROLE" "user"
  adminGroups := csvEnv env "QDRUST_HEADER_ADMIN_GROUPS"

/-- The record of `from_env`, before the file is merged. -/
def Config.variables (env : Environment) : Except String Config := do
  let bind ← context "BIND must be an IP address" (parseIp ((env "BIND").getD "0.0.0.0"))
  let port ← parseEnv env "PORT" (parseUnsigned (2 ^ 16)) 8923
  let databaseMinConnections ← parseEnv env "DATABASE_MIN_CONNECTIONS" (parseUnsigned (2 ^ 32)) 1
  let databaseMaxConnections ← parseEnv env "DATABASE_MAX_CONNECTIONS" (parseUnsigned (2 ^ 32)) 8
  let schedulerInterval ← secondsEnv env "SCHEDULER_INTERVAL_SECONDS" 15
  let requestTimeout ← secondsEnv env "REQUEST_TIMEOUT_SECONDS" 30
  let sessionTtl ← secondsEnv env "SESSION_TTL_SECONDS" 604800
  let cookieSecure ← parseEnv env "COOKIE_SECURE" parseBool false
  let databaseAcquireTimeout ← secondsEnv env "DATABASE_ACQUIRE_TIMEOUT_SECONDS" 30
  let databaseIdleTimeout ← secondsEnv env "DATABASE_IDLE_TIMEOUT_SECONDS" 600
  let loginRateLimitAttempts ← parseEnv env "LOGIN_RATE_LIMIT_ATTEMPTS" (parseUnsigned (2 ^ 32)) 5
  let loginRateLimitWindow ← secondsEnv env "LOGIN_RATE_LIMIT_WINDOW_SECONDS" 60
  let logRetentionDays ← parseEnv env "LOG_RETENTION_DAYS" (parseUnsigned (2 ^ 64)) 0
  let requireEmailVerification ← parseEnv env "REQUIRE_EMAIL_VERIFICATION" parseBool false
  let allowPrivateNetwork ← parseEnv env "QDRUST_ALLOW_PRIVATE_NETWORK" parseBool false
  let allowInvalidCertificates ← parseEnv env "QDRUST_ALLOW_INVALID_CERTIFICATES" parseBool false
  let authMode ← context "QDRUST_AUTH_MODE" (AuthMode.parse ((env "QDRUST_AUTH_MODE").getD "")).toOption
  let trustedProxies ← proxiesEnv env "QDRUST_HEADER_TRUSTED_PROXIES"
  return {
    bind, port, databaseUrl := (env "DATABASE_URL").getD "sqlite://data/qd.db", databaseMinConnections, databaseMaxConnections,
    schedulerInterval, requestTimeout, sessionTtl, cookieSecure, databaseAcquireTimeout, databaseIdleTimeout,
    loginRateLimitAttempts, loginRateLimitWindow, logRetentionDays, gaKey := someEnv env "GA_KEY", requireEmailVerification,
    allowPrivateNetwork, allowInvalidCertificates, defaultTimezone := textEnv env "QDRUST_DEFAULT_TIMEZONE" "",
    defaultLocale := textEnv env "QDRUST_DEFAULT_LOCALE" "",
    basePath := normalizeBasePath ((env "QDRUST_BASE_PATH").getD ""), authMode,
    localLoginEnabled := switchEnv env "QDRUST_LOCAL_LOGIN_ENABLED" false,
    oidcEnabled := switchEnv env "QDRUST_OIDC_ENABLED" false,
    oidcProviderName := textEnv env "QDRUST_OIDC_PROVIDER_NAME" "", oidc := .fromEnv env,
    headerAuthEnabled := switchEnv env "QDRUST_HEADER_AUTH_ENABLED" false, header := .fromEnv env trustedProxies,
    configFile := someEnv env "QDRUST_CONFIG_FILE"
  }

end Environment

section File

/-- `json.get(key)`. -/
def lookup (json : Json) (key : String) : Option Json := json.asObj.bind (Fields.get · key)

def getStr (json : Json) (key : String) : Option String := (lookup json key).bind Json.asStr

def getI64 (json : Json) (key : String) : Option Int := (lookup json key).bind (Json.asInt (-2 ^ 63) (2 ^ 63 - 1))

def getBool (json : Json) (key : String) : Option Bool := (lookup json key).bind Json.asBool

/-- The texts of an array. -/
def getStrings (json : Json) (key : String) : Option (List String) :=
  ((lookup json key).bind Json.asArr).map fun items => items.filterMap Json.asStr

/-- A text of the file, where the variable has left the setting empty. -/
def fallback (current : String) (file : Option String) : String := if current = "" then file.getD "" else current

/-- The same with a default behind the file. -/
def fallbackOr (unset current : String) (file : Option String) : String :=
  if current = "" then (if file.getD "" = "" then unset else file.getD "") else current

def fallbackList {α : Type} (current : List α) (file : Option (List α)) : List α := if current = [] then file.getD [] else current

def OidcConfig.merge (json : Json) (self : OidcConfig) : OidcConfig where
  issuer := fallback self.issuer (getStr json "issuer")
  clientId := fallback self.clientId (getStr json "client_id")
  clientSecret := fallback self.clientSecret (getStr json "client_secret")
  redirectUri := fallback self.redirectUri (getStr json "redirect_uri")
  scopes := fallbackOr "openid profile email" self.scopes (getStr json "scopes")
  autoCreateUsers := (getBool json "auto_create_users").getD self.autoCreateUsers
  defaultRole := fallbackOr "user" self.defaultRole (getStr json "default_role")
  adminGroups := fallbackList self.adminGroups (getStrings json "admin_groups")
  groupsClaim := fallbackOr "groups" self.groupsClaim (getStr json "groups_claim")
  logoutUrl := fallback self.logoutUrl (getStr json "logout_url")
  postLogoutRedirectUri := fallback self.postLogoutRedirectUri (getStr json "post_logout_redirect_uri")

/-- `parse_ips`. -/
def getIps (json : Json) (key : String) : Option (List Executor.IpAddr) :=
  (getStrings json key).map fun texts => texts.filterMap fun text => parseIp (trim text)

def HeaderAuthConfig.merge (json : Json) (self : HeaderAuthConfig) : HeaderAuthConfig where
  userHeader := fallback self.userHeader (getStr json "user_header")
  emailHeader := fallback self.emailHeader (getStr json "email_header")
  groupsHeader := fallback self.groupsHeader (getStr json "groups_header")
  groupsSeparator := fallbackOr "," self.groupsSeparator (getStr json "groups_separator")
  trustedProxies := fallbackList self.trustedProxies (getIps json "trusted_proxies")
  trustedProxyRequired := (getBool json "trusted_proxy_required").getD self.trustedProxyRequired
  autoCreateUsers := (getBool json "auto_create_users").getD self.autoCreateUsers
  defaultRole := fallbackOr "user" self.defaultRole (getStr json "default_role")
  adminGroups := fallbackList self.adminGroups (getStrings json "admin_groups")

/-- `u16::try_from(v)`. -/
def portOf (value : Int) : Option Nat := if 0 ≤ value ∧ value < 2 ^ 16 then some value.toNat else none

/-- The record of `load_config_file`. -/
def Config.mergeWith (json : Json) (self : Config) (bind : Executor.IpAddr) (authMode : AuthMode) : Config :=
  { self with
    bind
    port := ((getI64 json "port").bind portOf).getD self.port
    databaseUrl := if self.databaseUrl = "" then (getStr json "database_url").getD self.databaseUrl else self.databaseUrl
    schedulerInterval := ((getI64 json "scheduler_interval_seconds").map fun v => (max v 1).toNat).getD self.schedulerInterval
    requestTimeout := ((getI64 json "request_timeout_seconds").map fun v => (max v 1).toNat).getD self.requestTimeout
    cookieSecure := (getBool json "cookie_secure").getD self.cookieSecure
    logRetentionDays := ((getI64 json "log_retention_days").map fun v => (max v 0).toNat).getD self.logRetentionDays
    gaKey := ((getStr json "ga_key").filter (· ≠ "")).or self.gaKey
    requireEmailVerification := (getBool json "require_email_verification").getD self.requireEmailVerification
    allowPrivateNetwork := (getBool json "allow_private_network").getD self.allowPrivateNetwork
    allowInvalidCertificates := (getBool json "allow_invalid_certificates").getD self.allowInvalidCertificates
    defaultTimezone := fallback self.defaultTimezone (getStr json "default_timezone")
    defaultLocale := fallback self.defaultLocale (getStr json "default_locale")
    basePath := if self.basePath = "" then normalizeBasePath ((getStr json "base_path").getD "") else self.basePath
    authMode
    localLoginEnabled := (getBool json "local_login_enabled").getD self.localLoginEnabled
    oidcEnabled := (getBool json "oidc_enabled").getD self.oidcEnabled
    oidcProviderName := ((getStr json "oidc_provider_name").filter (· ≠ "")).getD self.oidcProviderName
    oidc := self.oidc.merge ((lookup json "oidc").getD .null)
    headerAuthEnabled := (getBool json "header_auth_enabled").getD self.headerAuthEnabled
    header := self.header.merge ((lookup json "header").getD .null) }

def mergedBind (json : Json) (current : Executor.IpAddr) : Except String Executor.IpAddr :=
  match getStr json "bind" with
  | some value => context "config file BIND must be an IP address" (parseIp value)
  | none => .ok current

def mergedMode (json : Json) (current : AuthMode) : Except String AuthMode :=
  let file := (getStr json "auth_mode").getD ""
  if file = "" then .ok current else context "invalid config-file auth_mode" (AuthMode.parse file).toOption

/-- What the file changes. -/
def Config.merge (json : Json) (self : Config) : Except String Config := do
  let bind ← mergedBind json self.bind
  let authMode ← mergedMode json self.authMode
  return self.mergeWith json bind authMode

def Config.loadConfigFile (host : Host) (self : Config) : Except String Config :=
  match self.configFile with
  | none => .ok self
  | some path =>
    match host.files path with
    | none => .error ("cannot read config file " ++ path)
    | some none => .error ("config file " ++ path ++ " is not valid JSON")
    | some (some json) => self.merge json

end File

section Validation

/-- The timezone where none is set. -/
def zoneOr (timezone : String) : String := if blank timezone then "Asia/Shanghai" else trim timezone

def Config.validate (host : Host) (self : Config) : Except String Config := do
  ensure (self.databaseMinConnections ≤ self.databaseMaxConnections)
    "DATABASE_MIN_CONNECTIONS cannot exceed DATABASE_MAX_CONNECTIONS"
  ensure (0 < self.databaseMaxConnections) "database pool cannot be empty"
  ensure (self.sessionTtl ≠ 0) "session TTL cannot be zero"
  ensure (self.databaseAcquireTimeout ≠ 0) "database acquire timeout cannot be zero"
  ensure (self.databaseIdleTimeout ≠ 0) "database idle timeout cannot be zero"
  ensure (0 < self.loginRateLimitAttempts) "login rate limit must allow attempts"
  ensure (self.loginRateLimitWindow ≠ 0) "login rate limit window cannot be zero"
  ensure (host.timezone (zoneOr self.defaultTimezone)) "default_timezone must be a valid IANA timezone name"
  let defaultLocale ← normalizeLocale self.defaultLocale
  ensure (self.oidcEnabled || !(self.authMode = .oidc ∨ self.authMode = .hybrid))
    ("auth_mode=" ++ self.authMode.asStr ++
      " requires an external provider enabled (set QDRUST_OIDC_ENABLED=true and its config)")
  ensure (!self.oidcEnabled || !blank self.oidc.issuer) "OIDC enabled but QDRUST_OIDC_ISSUER is not set"
  ensure (!self.oidcEnabled || !blank self.oidc.clientId) "OIDC enabled but QDRUST_OIDC_CLIENT_ID is not set"
  ensure (!self.oidcEnabled || !blank self.oidc.clientSecret) "OIDC enabled but QDRUST_OIDC_CLIENT_SECRET is not set"
  ensure (self.oidc.defaultRole = "admin" ∨ self.oidc.defaultRole = "user") "QDRUST_OIDC_DEFAULT_ROLE must be admin or user"
  ensure (!(self.headerAuthEnabled && self.header.trustedProxyRequired && self.header.trustedProxies.isEmpty))
    ("header auth is enabled with trusted_proxy_required=true but no trusted proxies are configured " ++
      "(set QDRUST_HEADER_TRUSTED_PROXIES)")
  ensure (self.header.defaultRole = "admin" ∨ self.header.defaultRole = "user")
    "QDRUST_HEADER_DEFAULT_ROLE must be admin or user"
  return { self with defaultTimezone := zoneOr self.defaultTimezone, defaultLocale, basePath := normalizeBasePath self.basePath }

/-- The checks run twice. -/
def Config.fromEnv (host : Host) (env : Environment) : Except String Config := do
  let config ← Config.variables env
  let config ← config.loadConfigFile host
  let config ← config.validate host
  config.validate host

end Validation

end Qdrust.Server
