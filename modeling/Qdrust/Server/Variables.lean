import Qdrust.Library.Sources
import Qdrust.Server.Config

/-! What the variables of the environment and the keys of the file say, and that the variables
are read so. -/
namespace Qdrust.Server
open Library

section Sources

variable {α : Type}

/-- The value of a variable that is set. -/
def variableOf (env : Environment) (name : String) (parse : String → Option α) : Option α := (someEnv env name).bind parse

/-- A text of the file that is not empty. -/
def getText (json : Json) (key : String) : Option String := (getStr json key).filter (· ≠ "")

/-- The value of the file that is merged, if one is. -/
def Host.file (host : Host) (env : Environment) : Json :=
  ((someEnv env "QDRUST_CONFIG_FILE").bind fun path => (host.files path).join).getD .null

def parseMode (text : String) : Option AuthMode := (AuthMode.parse text).toOption

def parseLocale (text : String) : Option String := (normalizeLocale text).toOption

def parseProxies (text : String) : Option (List Executor.IpAddr) :=
  (text.toList.splitOn ',').mapM fun part => parseIp (trim (String.ofList part))

/-- What becomes of a base path. -/
def basePathOf (raw : String) : String := normalizeBasePath (normalizeBasePath (normalizeBasePath raw))

end Sources

section Texts

variable {α : Type} {env : Environment} {name unset : String}

theorem someEnv_none (missing : env name = none) : someEnv env name = none := by rw [someEnv,missing]; rfl

theorem someEnv_empty (empty : env name = some "") : someEnv env name = none := by rw [someEnv,empty]; rfl

theorem someEnv_some {value : String} (set : env name = some value) (other : value ≠ "") : someEnv env name = some value := by
  rw [someEnv,set,Option.filter_some_pos (by simpa using other)]

/-- A variable is missing, empty, of blanks or has a value. -/
theorem env_cases (env : Environment) (name : String) : env name = none ∨ env name = some "" ∨
    (∃ value, env name = some value ∧ value ≠ "" ∧ blank value = true) ∨
    ∃ value, env name = some value ∧ value ≠ "" ∧ blank value = false := by
  cases set : env name with
  | none => exact .inl rfl
  | some value =>
    by_cases empty : value = ""
    · exact .inr (.inl (congrArg _ empty))
    · cases blanks : blank value with
      | true => exact .inr (.inr (.inl ⟨value,rfl,empty,blanks⟩))
      | false => exact .inr (.inr (.inr ⟨value,rfl,empty,blanks⟩))

theorem textEnv_none (missing : env name = none) (unset : String) : textEnv env name unset = unset := by rw [textEnv,missing]; rfl

theorem textEnv_blank {value : String} (set : env name = some value) (blanks : blank value = true) (unset : String) :
    textEnv env name unset = unset := by
  rw [textEnv,set,Option.filter_some_neg (by simpa using blanks)]
  rfl

theorem textEnv_solid {value : String} (set : env name = some value) (solid : blank value = false) (unset : String) :
    textEnv env name unset = value := by
  rw [textEnv,set,Option.filter_some_pos (by simpa using solid)]
  rfl

theorem blank_empty : blank "" = true := rfl

theorem getText_getD (json : Json) (key : String) : (getStr json key).getD "" = (getText json key).getD "" := by
  rw [getText]
  cases getStr json key with
  | none => rfl
  | some text =>
    by_cases empty : text = ""
    · rw [empty]
      rfl
    · rw [Option.filter_some_pos (by simpa using empty)]

theorem getText_ne {json : Json} {key text : String} (is : getText json key = some text) : text ≠ "" := by
  simpa using (Option.filter_eq_some_iff.mp is).2

/-- A variable that is parsed and has no empty value. -/
theorem parseEnv_ok {parse : String → Option α} {unset value : α} (empty : parse "" = none)
    (done : parseEnv env name parse unset = .ok value) : value = (variableOf env name parse).getD unset := by
  rw [parseEnv] at done
  rw [variableOf]
  cases set : env name with
  | none =>
    rw [set] at done
    cases done
    rw [someEnv_none set]
    rfl
  | some text =>
    rw [set] at done
    have parsed : parse text = some value := by
      cases is : parse text with
      | none => simp [is,context] at done
      | some other => simpa [is,context] using done
    have other : text ≠ "" := by
      rintro rfl
      rw [empty] at parsed
      cases parsed
    rw [someEnv_some set other,Option.bind_some,parsed]
    rfl

end Texts

section Read

variable {α : Type} {env : Environment}

theorem context_ok {message : String} {parsed : Option α} {value : α} :
    context message parsed = .ok value ↔ parsed = some value := by
  cases parsed with
  | none => exact ⟨nofun,nofun⟩
  | some other => simp [context]

/-- What the variables of the environment say. -/
structure Config.Read (env : Environment) (c : Config) : Prop where
  bind : c.bind = (variableOf env "BIND" parseIp).getD (.v4 ⟨0,0,0,0⟩)
  port : c.port = (variableOf env "PORT" (parseUnsigned (2 ^ 16))).getD 8923
  databaseUrl : c.databaseUrl = (env "DATABASE_URL").getD "sqlite://data/qd.db"
  databaseMinConnections : c.databaseMinConnections = (variableOf env "DATABASE_MIN_CONNECTIONS" (parseUnsigned (2 ^ 32))).getD 1
  databaseMaxConnections : c.databaseMaxConnections = (variableOf env "DATABASE_MAX_CONNECTIONS" (parseUnsigned (2 ^ 32))).getD 8
  schedulerInterval : c.schedulerInterval = (variableOf env "SCHEDULER_INTERVAL_SECONDS" (parseUnsigned (2 ^ 64))).getD 15
  requestTimeout : c.requestTimeout = (variableOf env "REQUEST_TIMEOUT_SECONDS" (parseUnsigned (2 ^ 64))).getD 30
  sessionTtl : c.sessionTtl = (variableOf env "SESSION_TTL_SECONDS" (parseUnsigned (2 ^ 64))).getD 604800
  cookieSecure : c.cookieSecure = (variableOf env "COOKIE_SECURE" parseBool).getD false
  databaseAcquireTimeout :
    c.databaseAcquireTimeout = (variableOf env "DATABASE_ACQUIRE_TIMEOUT_SECONDS" (parseUnsigned (2 ^ 64))).getD 30
  databaseIdleTimeout : c.databaseIdleTimeout = (variableOf env "DATABASE_IDLE_TIMEOUT_SECONDS" (parseUnsigned (2 ^ 64))).getD 600
  loginRateLimitAttempts : c.loginRateLimitAttempts = (variableOf env "LOGIN_RATE_LIMIT_ATTEMPTS" (parseUnsigned (2 ^ 32))).getD 5
  loginRateLimitWindow : c.loginRateLimitWindow = (variableOf env "LOGIN_RATE_LIMIT_WINDOW_SECONDS" (parseUnsigned (2 ^ 64))).getD 60
  logRetentionDays : c.logRetentionDays = (variableOf env "LOG_RETENTION_DAYS" (parseUnsigned (2 ^ 64))).getD 0
  gaKey : c.gaKey = someEnv env "GA_KEY"
  requireEmailVerification : c.requireEmailVerification = (variableOf env "REQUIRE_EMAIL_VERIFICATION" parseBool).getD false
  allowPrivateNetwork : c.allowPrivateNetwork = (variableOf env "QDRUST_ALLOW_PRIVATE_NETWORK" parseBool).getD false
  allowInvalidCertificates : c.allowInvalidCertificates = (variableOf env "QDRUST_ALLOW_INVALID_CERTIFICATES" parseBool).getD false
  defaultTimezone : c.defaultTimezone = textEnv env "QDRUST_DEFAULT_TIMEZONE" ""
  defaultLocale : c.defaultLocale = textEnv env "QDRUST_DEFAULT_LOCALE" ""
  basePath : c.basePath = normalizeBasePath ((env "QDRUST_BASE_PATH").getD "")
  authMode : c.authMode = (variableOf env "QDRUST_AUTH_MODE" parseMode).getD .localOnly
  localLoginEnabled : c.localLoginEnabled = switchEnv env "QDRUST_LOCAL_LOGIN_ENABLED" false
  oidcEnabled : c.oidcEnabled = switchEnv env "QDRUST_OIDC_ENABLED" false
  oidcProviderName : c.oidcProviderName = textEnv env "QDRUST_OIDC_PROVIDER_NAME" ""
  oidc : c.oidc = .fromEnv env
  headerAuthEnabled : c.headerAuthEnabled = switchEnv env "QDRUST_HEADER_AUTH_ENABLED" false
  header : c.header = .fromEnv env ((variableOf env "QDRUST_HEADER_TRUSTED_PROXIES" parseProxies).getD [])
  configFile : c.configFile = someEnv env "QDRUST_CONFIG_FILE"

theorem parseUnsigned_empty (bound : Nat) : parseUnsigned bound "" = none := rfl

theorem parseBool_empty : parseBool "" = none := by decide

theorem parseIp_empty : parseIp "" = none := rfl

theorem parseMode_empty : parseMode "" = some .localOnly := rfl

theorem parseProxies_empty : parseProxies "" = none := rfl

/-- A value in the place of a variable that is missing. -/
theorem unset_ok {name standard : String} {parse : String → Option α} {unset value : α}
    (empty : parse "" = some unset ∨ parse "" = none)
    (default : parse standard = some unset) (parsed : parse ((env name).getD standard) = some value) :
    value = (variableOf env name parse).getD unset := by
  rw [variableOf]
  cases set : env name with
  | none =>
    rw [set,Option.getD_none,default] at parsed
    rw [someEnv_none set]
    exact (Option.some.inj parsed).symm
  | some text =>
    rw [set,Option.getD_some] at parsed
    by_cases nothing : text = ""
    · subst nothing
      rw [someEnv_empty set]
      obtain is | is := empty
      · rw [is] at parsed
        exact (Option.some.inj parsed).symm
      · rw [is] at parsed
        cases parsed
    · rw [someEnv_some set nothing,Option.bind_some,parsed]
      rfl

theorem proxiesEnv_ok {name : String} {value : List Executor.IpAddr} (done : proxiesEnv env name = .ok value) :
    value = (variableOf env name parseProxies).getD [] := by
  rw [proxiesEnv] at done
  rw [variableOf]
  cases set : env name with
  | none =>
    rw [set] at done
    cases done
    rw [someEnv_none set]
    rfl
  | some raw =>
    rw [set] at done
    have parsed : parseProxies raw = some value := context_ok.mp done
    have other : raw ≠ "" := by
      rintro rfl
      rw [parseProxies_empty] at parsed
      cases parsed
    rw [someEnv_some set other,Option.bind_some,parsed]
    rfl

theorem variables_read {c : Config} (done : Config.variables env = .ok c) : c.Read env := by
  unfold Config.variables at done
  simp only [bind_ok,context_ok] at done
  obtain ⟨bind,isBind,port,isPort,least,isLeast,most,isMost,interval,isInterval,timeout,isTimeout,ttl,isTtl,secure,isSecure,
    acquire,isAcquire,idle,isIdle,attempts,isAttempts,window,isWindow,days,isDays,verified,isVerified,network,isNetwork,
    certificates,isCertificates,mode,isMode,proxies,isProxies,same⟩ := done
  cases same
  exact {
    bind := unset_ok (.inr parseIp_empty) rfl isBind
    port := parseEnv_ok (parseUnsigned_empty _) isPort
    databaseUrl := rfl
    databaseMinConnections := parseEnv_ok (parseUnsigned_empty _) isLeast
    databaseMaxConnections := parseEnv_ok (parseUnsigned_empty _) isMost
    schedulerInterval := parseEnv_ok (parseUnsigned_empty _) isInterval
    requestTimeout := parseEnv_ok (parseUnsigned_empty _) isTimeout
    sessionTtl := parseEnv_ok (parseUnsigned_empty _) isTtl
    cookieSecure := parseEnv_ok parseBool_empty isSecure
    databaseAcquireTimeout := parseEnv_ok (parseUnsigned_empty _) isAcquire
    databaseIdleTimeout := parseEnv_ok (parseUnsigned_empty _) isIdle
    loginRateLimitAttempts := parseEnv_ok (parseUnsigned_empty _) isAttempts
    loginRateLimitWindow := parseEnv_ok (parseUnsigned_empty _) isWindow
    logRetentionDays := parseEnv_ok (parseUnsigned_empty _) isDays
    gaKey := rfl
    requireEmailVerification := parseEnv_ok parseBool_empty isVerified
    allowPrivateNetwork := parseEnv_ok parseBool_empty isNetwork
    allowInvalidCertificates := parseEnv_ok parseBool_empty isCertificates
    defaultTimezone := rfl
    defaultLocale := rfl
    basePath := rfl
    authMode := unset_ok (.inl parseMode_empty) parseMode_empty isMode
    localLoginEnabled := rfl
    oidcEnabled := rfl
    oidcProviderName := rfl
    oidc := rfl
    headerAuthEnabled := rfl
    header := congrArg (HeaderAuthConfig.fromEnv env) (proxiesEnv_ok isProxies)
    configFile := rfl
  }

end Read

end Qdrust.Server
