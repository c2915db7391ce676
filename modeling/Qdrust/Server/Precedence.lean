import Qdrust.Server.Variables

/-! Which of its sources a setting is taken from: the variable, else the file, else the
default, where the sources allow it. -/
namespace Qdrust.Server
open Library Sources

section Claimed

def OidcConfig.claimed (env : Environment) (json : Json) : OidcConfig where
  issuer := chosen ⟨someEnv env "QDRUST_OIDC_ISSUER",getText json "issuer",""⟩
  clientId := chosen ⟨someEnv env "QDRUST_OIDC_CLIENT_ID",getText json "client_id",""⟩
  clientSecret := chosen ⟨someEnv env "QDRUST_OIDC_CLIENT_SECRET",getText json "client_secret",""⟩
  redirectUri := chosen ⟨someEnv env "QDRUST_OIDC_REDIRECT_URI",getText json "redirect_uri",""⟩
  scopes := chosen ⟨someEnv env "QDRUST_OIDC_SCOPES",getText json "scopes","openid profile email"⟩
  autoCreateUsers := chosen ⟨(someEnv env "QDRUST_OIDC_AUTO_CREATE_USERS").map truthy,getBool json "auto_create_users",true⟩
  defaultRole := chosen ⟨someEnv env "QDRUST_OIDC_DEFAULT_ROLE",getText json "default_role","user"⟩
  adminGroups := chosen ⟨(someEnv env "QDRUST_OIDC_ADMIN_GROUPS").map commaParts,getStrings json "admin_groups",[]⟩
  groupsClaim := chosen ⟨someEnv env "QDRUST_OIDC_GROUPS_CLAIM",getText json "groups_claim","groups"⟩
  logoutUrl := chosen ⟨someEnv env "QDRUST_OIDC_LOGOUT_URL",getText json "logout_url",""⟩
  postLogoutRedirectUri :=
    chosen ⟨someEnv env "QDRUST_OIDC_POST_LOGOUT_REDIRECT_URI",getText json "post_logout_redirect_uri",""⟩

def HeaderAuthConfig.claimed (env : Environment) (json : Json) : HeaderAuthConfig where
  userHeader := chosen ⟨someEnv env "QDRUST_HEADER_USER_HEADER",getText json "user_header","Remote-User"⟩
  emailHeader := chosen ⟨someEnv env "QDRUST_HEADER_EMAIL_HEADER",getText json "email_header","Remote-Email"⟩
  groupsHeader := chosen ⟨someEnv env "QDRUST_HEADER_GROUPS_HEADER",getText json "groups_header","Remote-Groups"⟩
  groupsSeparator := chosen ⟨someEnv env "QDRUST_HEADER_GROUPS_SEPARATOR",getText json "groups_separator",","⟩
  trustedProxies := chosen ⟨variableOf env "QDRUST_HEADER_TRUSTED_PROXIES" parseProxies,getIps json "trusted_proxies",[]⟩
  trustedProxyRequired :=
    chosen ⟨(someEnv env "QDRUST_HEADER_TRUSTED_PROXY_REQUIRED").map truthy,getBool json "trusted_proxy_required",true⟩
  autoCreateUsers := chosen ⟨(someEnv env "QDRUST_HEADER_AUTO_CREATE_USERS").map truthy,getBool json "auto_create_users",false⟩
  defaultRole := chosen ⟨someEnv env "QDRUST_HEADER_DEFAULT_ROLE",getText json "default_role","user"⟩
  adminGroups := chosen ⟨(someEnv env "QDRUST_HEADER_ADMIN_GROUPS").map commaParts,getStrings json "admin_groups",[]⟩

/-- Every setting from its variable, else from the file, else its default. -/
def Config.claimed (env : Environment) (json : Json) : Config where
  bind := chosen ⟨variableOf env "BIND" parseIp,(getStr json "bind").bind parseIp,.v4 ⟨0,0,0,0⟩⟩
  port := chosen ⟨variableOf env "PORT" (parseUnsigned (2 ^ 16)),(getI64 json "port").bind portOf,8923⟩
  databaseUrl := chosen ⟨someEnv env "DATABASE_URL",getText json "database_url","sqlite://data/qd.db"⟩
  databaseMinConnections := chosen ⟨variableOf env "DATABASE_MIN_CONNECTIONS" (parseUnsigned (2 ^ 32)),none,1⟩
  databaseMaxConnections := chosen ⟨variableOf env "DATABASE_MAX_CONNECTIONS" (parseUnsigned (2 ^ 32)),none,8⟩
  schedulerInterval := chosen ⟨variableOf env "SCHEDULER_INTERVAL_SECONDS" (parseUnsigned (2 ^ 64)),
    (getI64 json "scheduler_interval_seconds").map fun v => (max v 1).toNat,15⟩
  requestTimeout := chosen ⟨variableOf env "REQUEST_TIMEOUT_SECONDS" (parseUnsigned (2 ^ 64)),
    (getI64 json "request_timeout_seconds").map fun v => (max v 1).toNat,30⟩
  sessionTtl := chosen ⟨variableOf env "SESSION_TTL_SECONDS" (parseUnsigned (2 ^ 64)),none,604800⟩
  cookieSecure := chosen ⟨variableOf env "COOKIE_SECURE" parseBool,getBool json "cookie_secure",false⟩
  databaseAcquireTimeout := chosen ⟨variableOf env "DATABASE_ACQUIRE_TIMEOUT_SECONDS" (parseUnsigned (2 ^ 64)),none,30⟩
  databaseIdleTimeout := chosen ⟨variableOf env "DATABASE_IDLE_TIMEOUT_SECONDS" (parseUnsigned (2 ^ 64)),none,600⟩
  loginRateLimitAttempts := chosen ⟨variableOf env "LOGIN_RATE_LIMIT_ATTEMPTS" (parseUnsigned (2 ^ 32)),none,5⟩
  loginRateLimitWindow := chosen ⟨variableOf env "LOGIN_RATE_LIMIT_WINDOW_SECONDS" (parseUnsigned (2 ^ 64)),none,60⟩
  logRetentionDays := chosen ⟨variableOf env "LOG_RETENTION_DAYS" (parseUnsigned (2 ^ 64)),
    (getI64 json "log_retention_days").map fun v => (max v 0).toNat,0⟩
  gaKey := (someEnv env "GA_KEY").or (getText json "ga_key")
  requireEmailVerification :=
    chosen ⟨variableOf env "REQUIRE_EMAIL_VERIFICATION" parseBool,getBool json "require_email_verification",false⟩
  allowPrivateNetwork :=
    chosen ⟨variableOf env "QDRUST_ALLOW_PRIVATE_NETWORK" parseBool,getBool json "allow_private_network",false⟩
  allowInvalidCertificates :=
    chosen ⟨variableOf env "QDRUST_ALLOW_INVALID_CERTIFICATES" parseBool,getBool json "allow_invalid_certificates",false⟩
  defaultTimezone := chosen ⟨(someEnv env "QDRUST_DEFAULT_TIMEZONE").map trim,
    ((getStr json "default_timezone").filter fun s => !blank s).map trim,"Asia/Shanghai"⟩
  defaultLocale := chosen ⟨variableOf env "QDRUST_DEFAULT_LOCALE" parseLocale,
    ((getStr json "default_locale").filter fun s => !blank s).bind parseLocale,Server.defaultLocale⟩
  basePath := chosen ⟨(someEnv env "QDRUST_BASE_PATH").map basePathOf,(getStr json "base_path").map basePathOf,""⟩
  authMode := chosen ⟨variableOf env "QDRUST_AUTH_MODE" parseMode,(getText json "auth_mode").bind parseMode,.localOnly⟩
  localLoginEnabled := chosen ⟨(someEnv env "QDRUST_LOCAL_LOGIN_ENABLED").map truthy,getBool json "local_login_enabled",false⟩
  oidcEnabled := chosen ⟨(someEnv env "QDRUST_OIDC_ENABLED").map truthy,getBool json "oidc_enabled",false⟩
  oidcProviderName := chosen ⟨someEnv env "QDRUST_OIDC_PROVIDER_NAME",getText json "oidc_provider_name",""⟩
  oidc := .claimed env ((lookup json "oidc").getD .null)
  headerAuthEnabled := chosen ⟨(someEnv env "QDRUST_HEADER_AUTH_ENABLED").map truthy,getBool json "header_auth_enabled",false⟩
  header := .claimed env ((lookup json "header").getD .null)
  configFile := someEnv env "QDRUST_CONFIG_FILE"

end Claimed

section Conditions

/-- For a text that is empty by default: a variable of blanks is not read. -/
def EmptyText (env : Environment) (name : String) (file : Option String) : Prop :=
  ∀ value ∈ someEnv env name, blank value → file = some value

/-- For a text with another default: nor is the file. -/
def DefaultText (env : Environment) (name : String) (file : Option String) (unset : String) : Prop :=
  (∀ value ∈ someEnv env name, blank value = false) ∧ (someEnv env name = none → ∀ text ∈ file, text = unset)

/-- For a switch: the file is read first, and an empty variable is off. -/
def Switch (env : Environment) (name : String) (file : Option Bool) (unset : Bool) : Prop :=
  Agree ((someEnv env name).map truthy) file ∧ (env name = some "" → file = none → unset = false)

/-- For a list: a variable without parts is not read. -/
def PartList (env : Environment) (name : String) (file : Option (List String)) : Prop :=
  ∀ value ∈ someEnv env name, commaParts value = [] → ∀ list ∈ file, list = []

structure OidcConfig.Heeded (env : Environment) (json : Json) : Prop where
  issuer : EmptyText env "QDRUST_OIDC_ISSUER" (getText json "issuer")
  clientId : EmptyText env "QDRUST_OIDC_CLIENT_ID" (getText json "client_id")
  clientSecret : EmptyText env "QDRUST_OIDC_CLIENT_SECRET" (getText json "client_secret")
  redirectUri : EmptyText env "QDRUST_OIDC_REDIRECT_URI" (getText json "redirect_uri")
  scopes : DefaultText env "QDRUST_OIDC_SCOPES" (getText json "scopes") "openid profile email"
  autoCreateUsers : Switch env "QDRUST_OIDC_AUTO_CREATE_USERS" (getBool json "auto_create_users") true
  defaultRole : DefaultText env "QDRUST_OIDC_DEFAULT_ROLE" (getText json "default_role") "user"
  adminGroups : PartList env "QDRUST_OIDC_ADMIN_GROUPS" (getStrings json "admin_groups")
  groupsClaim : DefaultText env "QDRUST_OIDC_GROUPS_CLAIM" (getText json "groups_claim") "groups"
  logoutUrl : EmptyText env "QDRUST_OIDC_LOGOUT_URL" (getText json "logout_url")
  postLogoutRedirectUri : EmptyText env "QDRUST_OIDC_POST_LOGOUT_REDIRECT_URI" (getText json "post_logout_redirect_uri")

structure HeaderAuthConfig.Heeded (env : Environment) (json : Json) : Prop where
  userHeader : DefaultText env "QDRUST_HEADER_USER_HEADER" (getText json "user_header") "Remote-User"
  emailHeader : DefaultText env "QDRUST_HEADER_EMAIL_HEADER" (getText json "email_header") "Remote-Email"
  groupsHeader : DefaultText env "QDRUST_HEADER_GROUPS_HEADER" (getText json "groups_header") "Remote-Groups"
  groupsSeparator : DefaultText env "QDRUST_HEADER_GROUPS_SEPARATOR" (getText json "groups_separator") ","
  trustedProxyRequired : Switch env "QDRUST_HEADER_TRUSTED_PROXY_REQUIRED" (getBool json "trusted_proxy_required") true
  autoCreateUsers : Switch env "QDRUST_HEADER_AUTO_CREATE_USERS" (getBool json "auto_create_users") false
  defaultRole : DefaultText env "QDRUST_HEADER_DEFAULT_ROLE" (getText json "default_role") "user"
  adminGroups : PartList env "QDRUST_HEADER_ADMIN_GROUPS" (getStrings json "admin_groups")

/-- The sources of no setting are such that the code takes it from the wrong one. -/
structure Heeded (env : Environment) (json : Json) : Prop where
  bind : Agree (variableOf env "BIND" parseIp) ((getStr json "bind").bind parseIp)
  port : Agree (variableOf env "PORT" (parseUnsigned (2 ^ 16))) ((getI64 json "port").bind portOf)
  databaseUrl : (env "DATABASE_URL" = none → ∀ url ∈ getText json "database_url", url = "sqlite://data/qd.db") ∧
    (env "DATABASE_URL" = some "" → (getText json "database_url").isSome)
  schedulerInterval : Agree (variableOf env "SCHEDULER_INTERVAL_SECONDS" (parseUnsigned (2 ^ 64)))
    ((getI64 json "scheduler_interval_seconds").map fun v => (max v 1).toNat)
  requestTimeout : Agree (variableOf env "REQUEST_TIMEOUT_SECONDS" (parseUnsigned (2 ^ 64)))
    ((getI64 json "request_timeout_seconds").map fun v => (max v 1).toNat)
  cookieSecure : Agree (variableOf env "COOKIE_SECURE" parseBool) (getBool json "cookie_secure")
  logRetentionDays : Agree (variableOf env "LOG_RETENTION_DAYS" (parseUnsigned (2 ^ 64)))
    ((getI64 json "log_retention_days").map fun v => (max v 0).toNat)
  gaKey : Agree (someEnv env "GA_KEY") (getText json "ga_key")
  requireEmailVerification : Agree (variableOf env "REQUIRE_EMAIL_VERIFICATION" parseBool) (getBool json "require_email_verification")
  allowPrivateNetwork : Agree (variableOf env "QDRUST_ALLOW_PRIVATE_NETWORK" parseBool) (getBool json "allow_private_network")
  allowInvalidCertificates :
    Agree (variableOf env "QDRUST_ALLOW_INVALID_CERTIFICATES" parseBool) (getBool json "allow_invalid_certificates")
  defaultTimezone : ∀ value ∈ someEnv env "QDRUST_DEFAULT_TIMEZONE", blank value = false
  defaultLocale : ∀ value ∈ someEnv env "QDRUST_DEFAULT_LOCALE", blank value →
    ∀ text ∈ getStr json "default_locale", blank text = false → parseLocale text = some Server.defaultLocale
  basePath : ∀ value ∈ someEnv env "QDRUST_BASE_PATH", normalizeBasePath value = "" →
    ∀ path ∈ getStr json "base_path", basePathOf path = ""
  authMode : Agree (variableOf env "QDRUST_AUTH_MODE" parseMode) ((getText json "auth_mode").bind parseMode)
  localLoginEnabled : Switch env "QDRUST_LOCAL_LOGIN_ENABLED" (getBool json "local_login_enabled") false
  oidcEnabled : Switch env "QDRUST_OIDC_ENABLED" (getBool json "oidc_enabled") false
  oidcProviderName : ∀ value ∈ someEnv env "QDRUST_OIDC_PROVIDER_NAME",
    if blank value then getText json "oidc_provider_name" = some value else ∀ name ∈ getText json "oidc_provider_name", name = value
  oidc : OidcConfig.Heeded env ((lookup json "oidc").getD .null)
  headerAuthEnabled : Switch env "QDRUST_HEADER_AUTH_ENABLED" (getBool json "header_auth_enabled") false
  header : HeaderAuthConfig.Heeded env ((lookup json "header").getD .null)

end Conditions

section Idioms

variable {α : Type} {env : Environment} {name unset : String}

theorem emptyText_iff (env : Environment) (name : String) (json : Json) (key : String) :
    fallback (textEnv env name "") (getStr json key) = chosen ⟨someEnv env name,getText json key,""⟩ ↔
      EmptyText env name (getText json key) := by
  rw [fallback,getText_getD,EmptyText]
  obtain missing | empty | ⟨value,set,other,blanks⟩ | ⟨value,set,other,solid⟩ := env_cases env name
  · rw [textEnv_none missing,someEnv_none missing]
    simp [chosen]
  · rw [textEnv_blank empty blank_empty,someEnv_empty empty]
    simp [chosen]
  · rw [textEnv_blank set blanks,someEnv_some set other]
    cases getText json key with
    | none =>
      constructor
      · intro same
        exact absurd same.symm other
      · intro all
        cases all value rfl blanks
    | some text =>
      constructor
      · rintro same _ ⟨⟩ _
        exact congrArg some same
      · intro all
        exact Option.some.inj (all value rfl blanks)
  · rw [textEnv_solid set solid,someEnv_some set other]
    simp [chosen,other,solid]

theorem defaultText_iff (env : Environment) (name : String) (file : Option String) {unset : String} (solid : blank unset = false) :
    textEnv env name unset = chosen ⟨someEnv env name,file,unset⟩ ↔ DefaultText env name file unset := by
  rw [DefaultText]
  obtain missing | empty | ⟨value,set,other,blanks⟩ | ⟨value,set,other,full⟩ := env_cases env name
  · rw [textEnv_none missing,someEnv_none missing,← @unread_iff _ none file unset]
    simp
  · rw [textEnv_blank empty blank_empty,someEnv_empty empty,← @unread_iff _ none file unset]
    simp
  · have apart : unset ≠ value := by
      rintro rfl
      rw [solid] at blanks
      cases blanks
    rw [textEnv_blank set blanks,someEnv_some set other]
    simp [chosen,blanks,apart]
  · rw [textEnv_solid set full,someEnv_some set other]
    simp [chosen,full]

theorem textEnv_ne (env : Environment) (name : String) {unset : String} (solid : blank unset = false) : textEnv env name unset ≠ "" := by
  have full : unset ≠ "" := by
    rintro rfl
    cases solid
  obtain missing | empty | ⟨value,set,other,blanks⟩ | ⟨value,set,other,full'⟩ := env_cases env name
  · rwa [textEnv_none missing]
  · rwa [textEnv_blank empty blank_empty]
  · rwa [textEnv_blank set blanks]
  · rwa [textEnv_solid set full']

theorem fallback_default (env : Environment) (name : String) (file : Option String) {unset : String} (solid : blank unset = false) :
    fallback (textEnv env name unset) file = textEnv env name unset := if_neg (textEnv_ne env name solid)

theorem fallbackOr_default (env : Environment) (name : String) (file : Option String) {unset : String} (solid : blank unset = false) :
    fallbackOr unset (textEnv env name unset) file = textEnv env name unset := if_neg (textEnv_ne env name solid)

theorem switch_iff (env : Environment) (name : String) (file : Option Bool) (unset : Bool) :
    file.getD (switchEnv env name unset) = chosen ⟨(someEnv env name).map truthy,file,unset⟩ ↔ Switch env name file unset := by
  rw [Switch,switchEnv]
  obtain missing | empty | other := env_cases env name
  · rw [missing,someEnv_none missing,Option.map_none]
    cases file <;> simp [chosen,Agree]
  · rw [empty,someEnv_empty empty,Option.map_none,Option.map_some]
    have off : truthy "" = false := rfl
    cases file with
    | none => cases unset <;> simp [chosen,Agree,off]
    | some value => simp [chosen,Agree]
  · obtain ⟨value,set,full⟩ : ∃ value, env name = some value ∧ value ≠ "" := by
      obtain ⟨value,set,full,_⟩ | ⟨value,set,full,_⟩ := other
      · exact ⟨value,set,full⟩
      · exact ⟨value,set,full⟩
    rw [set,someEnv_some set full,Option.map_some]
    have unread : ¬ some value = some "" := fun same => full (Option.some.inj same)
    rw [Option.getD_some,← @reversed_iff _ _ _ unset]
    simp [unread]

theorem partList_iff (env : Environment) (name : String) (file : Option (List String)) :
    fallbackList (csvEnv env name) file = chosen ⟨(someEnv env name).map commaParts,file,[]⟩ ↔ PartList env name file := by
  rw [fallbackList,csvEnv,PartList]
  obtain missing | empty | other := env_cases env name
  · rw [missing,someEnv_none missing]
    simp [chosen]
  · have none : commaParts "" = [] := rfl
    rw [empty,someEnv_empty empty]
    simp [chosen,none]
  · obtain ⟨value,set,full⟩ : ∃ value, env name = some value ∧ value ≠ "" := by
      obtain ⟨value,set,full,_⟩ | ⟨value,set,full,_⟩ := other
      · exact ⟨value,set,full⟩
      · exact ⟨value,set,full⟩
    rw [set,someEnv_some set full,Option.map_some,Option.getD_some]
    by_cases parts : commaParts value = []
    · cases file <;> simp [chosen,parts]
    · simp [chosen,parts]

end Idioms

section Merged

theorem fallback_none (current : String) : fallback current none = current := by
  rw [fallback]
  split
  · rename_i empty
    exact empty.symm
  · rfl

theorem fallbackList_none {α : Type} (current : List α) : fallbackList current none = current := by
  rw [fallbackList]
  split
  · rename_i empty
    exact empty.symm
  · rfl

/-- The defaults are not of blanks. -/
theorem defaults_solid : blank "openid profile email" = false ∧ blank "user" = false ∧ blank "groups" = false ∧ blank "," = false ∧
    blank "Remote-User" = false ∧ blank "Remote-Email" = false ∧ blank "Remote-Groups" = false := by decide +kernel

theorem OidcConfig.merge_null (env : Environment) : (OidcConfig.fromEnv env).merge .null = OidcConfig.fromEnv env := by
  obtain ⟨scopes,user,groups,-⟩ := defaults_solid
  ext1
  · exact fallback_none _
  · exact fallback_none _
  · exact fallback_none _
  · exact fallback_none _
  · exact fallbackOr_default _ _ _ scopes
  · rfl
  · exact fallbackOr_default _ _ _ user
  · exact fallbackList_none _
  · exact fallbackOr_default _ _ _ groups
  · exact fallback_none _
  · exact fallback_none _

theorem HeaderAuthConfig.merge_null (env : Environment) (proxies : List Executor.IpAddr) :
    (HeaderAuthConfig.fromEnv env proxies).merge .null = HeaderAuthConfig.fromEnv env proxies := by
  obtain ⟨-,user,-,comma,-⟩ := defaults_solid
  ext1
  · exact fallback_none _
  · exact fallback_none _
  · exact fallback_none _
  · exact fallbackOr_default _ _ _ comma
  · exact fallbackList_none _
  · rfl
  · rfl
  · exact fallbackOr_default _ _ _ user
  · exact fallbackList_none _

/-- Without a file nothing is merged. -/
theorem mergeWith_null {env : Environment} {c : Config} (read : c.Read env) : c.mergeWith .null c.bind c.authMode = c := by
  have url : (if c.databaseUrl = "" then (none : Option String).getD c.databaseUrl else c.databaseUrl) = c.databaseUrl := ite_self _
  have path : (if c.basePath = "" then normalizeBasePath "" else c.basePath) = c.basePath := by
    split
    · rename_i empty
      exact empty.symm
    · rfl
  have oidc : c.oidc.merge .null = c.oidc := by rw [read.oidc,OidcConfig.merge_null]
  have header : c.header.merge .null = c.header := by rw [read.header,HeaderAuthConfig.merge_null]
  ext1
  case databaseUrl => exact url
  case defaultTimezone => exact fallback_none _
  case defaultLocale => exact fallback_none _
  case basePath => exact path
  case oidc => exact oidc
  case header => exact header
  all_goals rfl

theorem merge_ok {json : Json} {c after : Config} (done : c.merge json = .ok after) :
    after = c.mergeWith json (((getStr json "bind").bind parseIp).getD c.bind)
      (((getText json "auth_mode").bind parseMode).getD c.authMode) := by
  unfold Config.merge at done
  simp only [bind_ok] at done
  obtain ⟨bind,isBind,mode,isMode,same⟩ := done
  cases same
  have first : bind = ((getStr json "bind").bind parseIp).getD c.bind := by
    rw [mergedBind] at isBind
    cases text : getStr json "bind" with
    | none =>
      rw [text] at isBind
      cases isBind
      rfl
    | some value =>
      rw [text] at isBind
      rw [Option.bind_some,context_ok.mp isBind]
      rfl
  have second : mode = ((getText json "auth_mode").bind parseMode).getD c.authMode := by
    unfold mergedMode at isMode
    dsimp only at isMode
    rw [getText_getD] at isMode
    cases text : getText json "auth_mode" with
    | none =>
      rw [text] at isMode
      cases isMode
      rfl
    | some value =>
      rw [text,Option.getD_some,if_neg (getText_ne text)] at isMode
      have parsed : parseMode value = some mode := context_ok.mp isMode
      rw [Option.bind_some,parsed]
      rfl
  rw [first,second]

theorem loadConfigFile_ok {host : Host} {env : Environment} {c after : Config} (read : c.Read env)
    (done : c.loadConfigFile host = .ok after) :
    after = c.mergeWith (host.file env) (((getStr (host.file env) "bind").bind parseIp).getD c.bind)
      (((getText (host.file env) "auth_mode").bind parseMode).getD c.authMode) := by
  unfold Config.loadConfigFile at done
  rw [read.configFile] at done
  unfold Host.file
  cases path : someEnv env "QDRUST_CONFIG_FILE" with
  | none =>
    rw [path] at done
    cases done
    exact (mergeWith_null read).symm
  | some name =>
    rw [path] at done
    dsimp only at done
    rw [Option.bind_some]
    cases file : host.files name with
    | none =>
      rw [file] at done
      cases done
    | some content =>
      cases content with
      | none =>
        rw [file] at done
        cases done
      | some json =>
        rw [file] at done
        exact merge_ok done

theorem validate_ok {host : Host} {c after : Config} (done : c.validate host = .ok after) :
    ∃ locale, normalizeLocale c.defaultLocale = .ok locale ∧ after =
      { c with defaultTimezone := zoneOr c.defaultTimezone, defaultLocale := locale, basePath := normalizeBasePath c.basePath } := by
  unfold Config.validate at done
  simp only [bind_ok] at done
  obtain ⟨_,-,_,-,_,-,_,-,_,-,_,-,_,-,_,-,locale,is,_,-,_,-,_,-,_,-,_,-,_,-,_,-,same⟩ := done
  cases same
  exact ⟨locale,is,rfl⟩

theorem trim_trim (text : String) : trim (trim text) = trim text := by
  rw [trim,trim,Text.trimBy,Text.trimBy,String.toList_ofList,Text.trimList_trimList]

theorem trim_eq_empty (text : String) : trim text = "" ↔ blank text = true := Text.trimBy_eq_empty _ _

theorem blank_trim (text : String) : blank (trim text) = blank text := by
  rw [Bool.eq_iff_iff,← trim_eq_empty,← trim_eq_empty,trim_trim]

theorem zoneOr_zoneOr (timezone : String) : zoneOr (zoneOr timezone) = zoneOr timezone := by
  have standard : zoneOr "Asia/Shanghai" = "Asia/Shanghai" := rfl
  by_cases blanks : blank timezone = true
  · have zone : zoneOr timezone = "Asia/Shanghai" := if_pos blanks
    rw [zone,standard]
  · have zone : zoneOr timezone = trim timezone := if_neg blanks
    have solid : ¬ blank (trim timezone) = true := by rwa [blank_trim]
    rw [zone,zoneOr,if_neg solid,trim_trim]

theorem normalizeLocale_ok {value locale : String} (done : normalizeLocale value = .ok locale) : normalizeLocale locale = .ok locale := by
  have standard : normalizeLocale defaultLocale = .ok defaultLocale := rfl
  have other : normalizeLocale "en-US" = .ok "en-US" := rfl
  unfold normalizeLocale at done
  dsimp only at done
  split at done
  · cases done
    exact standard
  · split at done
    · cases done
      exact other
    · cases done

end Merged

section Started

variable {α : Type} {host : Host} {env : Environment} {json : Json}

/-- What a server starts with: the variables, the file merged into them, and what the checks make of the names. -/
theorem fromEnv_ok {c : Config} (started : Config.fromEnv host env = .ok c) :
    ∃ read bind mode locale, Config.Read env read ∧
      bind = ((getStr (host.file env) "bind").bind parseIp).getD read.bind ∧
      mode = ((getText (host.file env) "auth_mode").bind parseMode).getD read.authMode ∧
      parseLocale (fallback (textEnv env "QDRUST_DEFAULT_LOCALE" "") (getStr (host.file env) "default_locale")) = some locale ∧
      c = { read.mergeWith (host.file env) bind mode with
        defaultTimezone := zoneOr (fallback (textEnv env "QDRUST_DEFAULT_TIMEZONE" "") (getStr (host.file env) "default_timezone"))
        defaultLocale := locale
        basePath := normalizeBasePath (normalizeBasePath (if read.basePath = "" then
          normalizeBasePath ((getStr (host.file env) "base_path").getD "") else read.basePath)) } := by
  unfold Config.fromEnv at started
  simp only [bind_ok] at started
  obtain ⟨read,isRead,merged,isMerged,first,isFirst,isSecond⟩ := started
  have reads := variables_read isRead
  have same := loadConfigFile_ok reads isMerged
  obtain ⟨locale,isLocale,rfl⟩ := validate_ok isFirst
  obtain ⟨other,again,rfl⟩ := validate_ok isSecond
  have kept : other = locale := Except.ok.inj (again.symm.trans (normalizeLocale_ok isLocale))
  subst kept same
  refine ⟨read,_,_,other,reads,rfl,rfl,?_,?_⟩
  · rw [parseLocale,← reads.defaultLocale]
    exact toOption_ok.mpr isLocale
  · ext1
    case defaultTimezone =>
      rw [← reads.defaultTimezone]
      exact zoneOr_zoneOr _
    all_goals rfl

theorem parsed_iff {name : String} {parse : String → Option α} {current unset : α} {file : Option α}
    (read : current = (variableOf env name parse).getD unset) :
    file.getD current = chosen ⟨variableOf env name parse,file,unset⟩ ↔ Agree (variableOf env name parse) file := by
  rw [read]
  exact reversed_iff

theorem switched_iff {name : String} {current unset : Bool} {file : Option Bool} (read : current = switchEnv env name unset) :
    file.getD current = chosen ⟨(someEnv env name).map truthy,file,unset⟩ ↔ Switch env name file unset := by
  rw [read]
  exact switch_iff env name file unset

theorem zone_blank {timezone : String} (blanks : blank timezone = true) : zoneOr timezone = "Asia/Shanghai" := if_pos blanks

theorem zone_solid {timezone : String} (solid : blank timezone = false) : zoneOr timezone = trim timezone :=
  if_neg (by rw [solid]; exact Bool.false_ne_true)

theorem solid_ne {text : String} (solid : blank text = false) : text ≠ "" := by
  rintro rfl
  cases solid

/-- The timezone of the file, where the variable is not read. -/
theorem zone_file (file : Option String) :
    zoneOr (file.getD "") = ((file.filter fun s => !blank s).map trim).getD "Asia/Shanghai" := by
  cases file with
  | none => exact zone_blank rfl
  | some text =>
    rw [Option.getD_some]
    cases blanks : blank text with
    | true =>
      rw [zone_blank blanks,Option.filter_some_neg (by simpa using blanks)]
      rfl
    | false =>
      rw [zone_solid blanks,Option.filter_some_pos (by simpa using blanks)]
      rfl

theorem timezone_iff (env : Environment) (name : String) (file : Option String) :
    zoneOr (fallback (textEnv env name "") file) =
        chosen ⟨(someEnv env name).map trim,(file.filter fun s => !blank s).map trim,"Asia/Shanghai"⟩ ↔
      ∀ value ∈ someEnv env name, blank value = false := by
  rw [fallback]
  obtain missing | empty | ⟨value,set,other,blanks⟩ | ⟨value,set,other,solid⟩ := env_cases env name
  · rw [textEnv_none missing,someEnv_none missing,if_pos rfl,zone_file]
    exact ⟨fun _ => nofun,fun _ => rfl⟩
  · rw [textEnv_blank empty blank_empty,someEnv_empty empty,if_pos rfl,zone_file]
    exact ⟨fun _ => nofun,fun _ => rfl⟩
  · rw [textEnv_blank set blanks,someEnv_some set other,if_pos rfl]
    have nothing : trim value = "" := (trim_eq_empty value).mpr blanks
    have some : zoneOr (file.getD "") ≠ "" := by
      intro same
      by_cases also : blank (file.getD "") = true
      · rw [zone_blank also] at same
        exact absurd same (by decide)
      · have solid : blank (file.getD "") = false := by simpa using also
        rw [zone_solid solid] at same
        exact also ((trim_eq_empty _).mp same)
    constructor
    · intro same
      exact absurd (same.trans nothing) some
    · intro all
      rw [all value rfl] at blanks
      cases blanks
  · rw [textEnv_solid set solid,someEnv_some set other,if_neg other,zone_solid solid]
    refine ⟨fun _ => ?_,fun _ => rfl⟩
    rintro _ ⟨⟩
    exact solid

theorem parseLocale_blank {text : String} (blanks : blank text = true) : parseLocale text = some defaultLocale := by
  have empty : parseLocale "" = some defaultLocale := rfl
  rw [← empty,parseLocale,parseLocale,normalizeLocale,normalizeLocale,(trim_eq_empty text).mpr blanks,
    (trim_eq_empty "").mpr blank_empty]

/-- The locale of the file, where the variable is not read. -/
theorem locale_file {file : Option String} {locale : String} (parsed : parseLocale (file.getD "") = some locale) :
    locale = ((file.filter fun s => !blank s).bind parseLocale).getD defaultLocale := by
  cases file with
  | none =>
    rw [Option.getD_none,parseLocale_blank blank_empty] at parsed
    exact (Option.some.inj parsed).symm
  | some text =>
    rw [Option.getD_some] at parsed
    cases blanks : blank text with
    | true =>
      rw [parseLocale_blank blanks] at parsed
      rw [Option.filter_some_neg (by simpa using blanks)]
      exact (Option.some.inj parsed).symm
    | false =>
      rw [Option.filter_some_pos (by simpa using blanks),Option.bind_some,parsed]
      rfl

theorem locale_iff {name locale : String} {file : Option String} (parsed : parseLocale (fallback (textEnv env name "") file) = some locale) :
    locale = chosen ⟨variableOf env name parseLocale,(file.filter fun s => !blank s).bind parseLocale,defaultLocale⟩ ↔
      ∀ value ∈ someEnv env name, blank value → ∀ text ∈ file, blank text = false → parseLocale text = some defaultLocale := by
  rw [fallback] at parsed
  rw [variableOf]
  obtain missing | empty | ⟨value,set,other,blanks⟩ | ⟨value,set,other,solid⟩ := env_cases env name
  · rw [textEnv_none missing,if_pos rfl] at parsed
    rw [someEnv_none missing,locale_file parsed]
    exact ⟨fun _ _ inside => absurd inside (Option.not_mem_none _),fun _ => rfl⟩
  · rw [textEnv_blank empty blank_empty,if_pos rfl] at parsed
    rw [someEnv_empty empty,locale_file parsed]
    exact ⟨fun _ _ inside => absurd inside (Option.not_mem_none _),fun _ => rfl⟩
  · rw [textEnv_blank set blanks,if_pos rfl] at parsed
    have standard : chosen ⟨(some value).bind parseLocale,(file.filter fun s => !blank s).bind parseLocale,defaultLocale⟩ =
        defaultLocale := by
      rw [Option.bind_some,parseLocale_blank blanks]
      rfl
    rw [someEnv_some set other,standard]
    constructor
    · rintro same _ _ _ text ⟨⟩ _
      rw [← same]
      exact parsed
    · intro all
      cases file with
      | none =>
        rw [Option.getD_none,parseLocale_blank blank_empty] at parsed
        exact (Option.some.inj parsed).symm
      | some text =>
        rw [Option.getD_some] at parsed
        cases also : blank text with
        | true =>
          rw [parseLocale_blank also] at parsed
          exact (Option.some.inj parsed).symm
        | false =>
          rw [all value rfl blanks text rfl also] at parsed
          exact (Option.some.inj parsed).symm
  · rw [textEnv_solid set solid,if_neg other] at parsed
    rw [someEnv_some set other,Option.bind_some,parsed]
    refine ⟨fun _ => ?_,fun _ => rfl⟩
    rintro _ ⟨⟩ blanks
    rw [solid] at blanks
    cases blanks

theorem basePath_empty {raw : String} (empty : raw = "") : normalizeBasePath raw = "" := by
  subst empty
  rfl

theorem basePathOf_root {raw : String} (root : normalizeBasePath raw = "") : basePathOf raw = "" := by
  unfold basePathOf
  exact basePath_empty (basePath_empty root)

theorem basePath_read (file : Option String) : basePathOf (file.getD "") = (file.map basePathOf).getD "" := by
  cases file with
  | none =>
    rw [Option.getD_none,Option.map_none,Option.getD_none]
    exact basePathOf_root (basePath_empty rfl)
  | some path => rw [Option.getD_some,Option.map_some,Option.getD_some]

theorem basePath_iff (env : Environment) (name : String) (file : Option String) :
    normalizeBasePath (normalizeBasePath (if normalizeBasePath ((env name).getD "") = "" then normalizeBasePath (file.getD "")
        else normalizeBasePath ((env name).getD ""))) = chosen ⟨(someEnv env name).map basePathOf,file.map basePathOf,""⟩ ↔
      ∀ value ∈ someEnv env name, normalizeBasePath value = "" → ∀ path ∈ file, basePathOf path = "" := by
  have read : normalizeBasePath (normalizeBasePath (normalizeBasePath (file.getD ""))) = (file.map basePathOf).getD "" :=
    basePath_read file
  obtain unread | ⟨value,set,other⟩ : someEnv env name = none ∧ (env name).getD "" = "" ∨ ∃ value, env name = some value ∧ value ≠ "" := by
    obtain missing | empty | ⟨value,set,other,_⟩ | ⟨value,set,other,_⟩ := env_cases env name
    · exact .inl ⟨someEnv_none missing,by rw [missing]; rfl⟩
    · exact .inl ⟨someEnv_empty empty,by rw [empty]; rfl⟩
    · exact .inr ⟨value,set,other⟩
    · exact .inr ⟨value,set,other⟩
  · rw [unread.1,unread.2,if_pos (basePath_empty rfl),read]
    exact ⟨fun _ => nofun,fun _ => rfl⟩
  · rw [set,someEnv_some set other,Option.getD_some]
    by_cases root : normalizeBasePath value = ""
    · have base := basePathOf_root root
      rw [if_pos root,read]
      cases file <;> simp [chosen,base,root]
    · rw [if_neg root]
      simp only [chosen,Option.map_some,Option.some_or,Option.getD_some,basePathOf,true_iff]
      rintro _ ⟨⟩ also
      exact absurd also root

theorem url_iff (env : Environment) (name : String) (json : Json) (key : String) {unset : String} (full : unset ≠ "") :
    (if (env name).getD unset = "" then (getStr json key).getD ((env name).getD unset) else (env name).getD unset) =
        chosen ⟨someEnv env name,getText json key,unset⟩ ↔
      (env name = none → ∀ url ∈ getText json key, url = unset) ∧ (env name = some "" → (getText json key).isSome) := by
  cases set : env name with
  | none =>
    rw [Option.getD_none,if_neg full,someEnv_none set]
    cases getText json key <;> simp [chosen,eq_comm]
  | some value =>
    rw [Option.getD_some]
    by_cases empty : value = ""
    · subst empty
      rw [if_pos rfl,someEnv_empty set,getText_getD]
      cases getText json key with
      | none => simp [chosen,full.symm]
      | some text => simp [chosen]
    · rw [if_neg empty,someEnv_some set empty]
      simp [chosen,empty]

theorem provider_iff (env : Environment) (name : String) (file : Option String) :
    file.getD (textEnv env name "") = chosen ⟨someEnv env name,file,""⟩ ↔
      ∀ value ∈ someEnv env name, if blank value then file = some value else ∀ text ∈ file, text = value := by
  obtain missing | empty | ⟨value,set,other,blanks⟩ | ⟨value,set,other,solid⟩ := env_cases env name
  · rw [textEnv_none missing,someEnv_none missing]
    exact ⟨fun _ => nofun,fun _ => rfl⟩
  · rw [textEnv_blank empty blank_empty,someEnv_empty empty]
    exact ⟨fun _ => nofun,fun _ => rfl⟩
  · rw [textEnv_blank set blanks,someEnv_some set other]
    cases file with
    | none =>
      constructor
      · intro same
        exact absurd same.symm other
      · intro all
        have is := all value rfl
        rw [if_pos blanks] at is
        cases is
    | some text => simp [chosen]
  · rw [textEnv_solid set solid,someEnv_some set other]
    cases file <;> simp [chosen,solid]

theorem key_iff {current first second : Option String} (read : current = first) :
    second.or current = first.or second ↔ Agree first second := by
  subst read
  cases current with
  | none => cases second <;> simp [Agree]
  | some x => cases second <;> simp [Agree,eq_comm]

theorem proxies_nonempty {name : String} {list : List Executor.IpAddr} (is : variableOf env name parseProxies = some list) : list ≠ [] := by
  obtain ⟨text,_,parsed⟩ := Option.bind_eq_some_iff.mp is
  rintro rfl
  have parts : text.toList.splitOn ',' ≠ [] := List.splitOn_ne_nil _ _
  obtain ⟨part,others,cut⟩ := List.exists_cons_of_ne_nil parts
  rw [parseProxies,cut,List.mapM_cons] at parsed
  simp [Option.bind_eq_some_iff] at parsed

theorem proxies_chosen (env : Environment) (name : String) (file : Option (List Executor.IpAddr)) :
    fallbackList ((variableOf env name parseProxies).getD []) file = chosen ⟨variableOf env name parseProxies,file,[]⟩ := by
  cases is : variableOf env name parseProxies with
  | none => rfl
  | some list => exact if_neg (proxies_nonempty is)

theorem default_iff (env : Environment) (name key : String) (json : Json) {unset : String} (solid : blank unset = false) :
    fallbackOr unset (textEnv env name unset) (getStr json key) = chosen ⟨someEnv env name,getText json key,unset⟩ ↔
      DefaultText env name (getText json key) unset := by
  rw [fallbackOr_default env name _ solid]
  exact defaultText_iff env name _ solid

theorem header_iff (env : Environment) (name key : String) (json : Json) {unset : String} (solid : blank unset = false) :
    fallback (textEnv env name unset) (getStr json key) = chosen ⟨someEnv env name,getText json key,unset⟩ ↔
      DefaultText env name (getText json key) unset := by
  rw [fallback_default env name _ solid]
  exact defaultText_iff env name _ solid

theorem oidc_iff (env : Environment) (json : Json) :
    (OidcConfig.fromEnv env).merge json = .claimed env json ↔ OidcConfig.Heeded env json := by
  obtain ⟨scopes,user,groups,-⟩ := defaults_solid
  constructor
  · intro same
    exact {
      issuer := (emptyText_iff _ _ _ _).mp (congrArg OidcConfig.issuer same)
      clientId := (emptyText_iff _ _ _ _).mp (congrArg OidcConfig.clientId same)
      clientSecret := (emptyText_iff _ _ _ _).mp (congrArg OidcConfig.clientSecret same)
      redirectUri := (emptyText_iff _ _ _ _).mp (congrArg OidcConfig.redirectUri same)
      scopes := (default_iff _ _ _ _ scopes).mp (congrArg OidcConfig.scopes same)
      autoCreateUsers := (switch_iff _ _ _ _).mp (congrArg OidcConfig.autoCreateUsers same)
      defaultRole := (default_iff _ _ _ _ user).mp (congrArg OidcConfig.defaultRole same)
      adminGroups := (partList_iff _ _ _).mp (congrArg OidcConfig.adminGroups same)
      groupsClaim := (default_iff _ _ _ _ groups).mp (congrArg OidcConfig.groupsClaim same)
      logoutUrl := (emptyText_iff _ _ _ _).mp (congrArg OidcConfig.logoutUrl same)
      postLogoutRedirectUri := (emptyText_iff _ _ _ _).mp (congrArg OidcConfig.postLogoutRedirectUri same)
    }
  · intro heeded
    ext1
    · exact (emptyText_iff _ _ _ _).mpr heeded.issuer
    · exact (emptyText_iff _ _ _ _).mpr heeded.clientId
    · exact (emptyText_iff _ _ _ _).mpr heeded.clientSecret
    · exact (emptyText_iff _ _ _ _).mpr heeded.redirectUri
    · exact (default_iff _ _ _ _ scopes).mpr heeded.scopes
    · exact (switch_iff _ _ _ _).mpr heeded.autoCreateUsers
    · exact (default_iff _ _ _ _ user).mpr heeded.defaultRole
    · exact (partList_iff _ _ _).mpr heeded.adminGroups
    · exact (default_iff _ _ _ _ groups).mpr heeded.groupsClaim
    · exact (emptyText_iff _ _ _ _).mpr heeded.logoutUrl
    · exact (emptyText_iff _ _ _ _).mpr heeded.postLogoutRedirectUri

theorem headerAuth_iff (env : Environment) (json : Json) :
    (HeaderAuthConfig.fromEnv env ((variableOf env "QDRUST_HEADER_TRUSTED_PROXIES" parseProxies).getD [])).merge json =
      .claimed env json ↔ HeaderAuthConfig.Heeded env json := by
  obtain ⟨-,user,-,comma,first,second,third⟩ := defaults_solid
  constructor
  · intro same
    exact {
      userHeader := (header_iff _ _ _ _ first).mp (congrArg HeaderAuthConfig.userHeader same)
      emailHeader := (header_iff _ _ _ _ second).mp (congrArg HeaderAuthConfig.emailHeader same)
      groupsHeader := (header_iff _ _ _ _ third).mp (congrArg HeaderAuthConfig.groupsHeader same)
      groupsSeparator := (default_iff _ _ _ _ comma).mp (congrArg HeaderAuthConfig.groupsSeparator same)
      trustedProxyRequired := (switch_iff _ _ _ _).mp (congrArg HeaderAuthConfig.trustedProxyRequired same)
      autoCreateUsers := (switch_iff _ _ _ _).mp (congrArg HeaderAuthConfig.autoCreateUsers same)
      defaultRole := (default_iff _ _ _ _ user).mp (congrArg HeaderAuthConfig.defaultRole same)
      adminGroups := (partList_iff _ _ _).mp (congrArg HeaderAuthConfig.adminGroups same)
    }
  · intro heeded
    ext1
    · exact (header_iff _ _ _ _ first).mpr heeded.userHeader
    · exact (header_iff _ _ _ _ second).mpr heeded.emailHeader
    · exact (header_iff _ _ _ _ third).mpr heeded.groupsHeader
    · exact (default_iff _ _ _ _ comma).mpr heeded.groupsSeparator
    · exact proxies_chosen _ _ _
    · exact (switch_iff _ _ _ _).mpr heeded.trustedProxyRequired
    · exact (switch_iff _ _ _ _).mpr heeded.autoCreateUsers
    · exact (default_iff _ _ _ _ user).mpr heeded.defaultRole
    · exact (partList_iff _ _ _).mpr heeded.adminGroups

end Started

/-- A server starts with the settings of its variables, else of its file, else the defaults, exactly where
the sources of every setting are such that the code takes it from the right one. -/
theorem from_env_iff {host : Host} {env : Environment} {config : Config} (started : Config.fromEnv host env = .ok config) :
    config = Config.claimed env (host.file env) ↔ Heeded env (host.file env) := by
  obtain ⟨read,bind,mode,locale,reads,isBind,isMode,isLocale,is⟩ := fromEnv_ok started
  have bindIff := @parsed_iff _ env _ _ _ _ ((getStr (host.file env) "bind").bind parseIp) reads.bind
  rw [← isBind] at bindIff
  have modeIff := @parsed_iff _ env _ _ _ _ ((getText (host.file env) "auth_mode").bind parseMode) reads.authMode
  rw [← isMode] at modeIff
  have urlIff := url_iff env "DATABASE_URL" (host.file env) "database_url" (show "sqlite://data/qd.db" ≠ "" by decide)
  rw [← reads.databaseUrl] at urlIff
  have zoneIff := timezone_iff env "QDRUST_DEFAULT_TIMEZONE" (getStr (host.file env) "default_timezone")
  have localeIff := locale_iff isLocale
  have pathIff := basePath_iff env "QDRUST_BASE_PATH" (getStr (host.file env) "base_path")
  rw [← reads.basePath] at pathIff
  have providerIff := provider_iff env "QDRUST_OIDC_PROVIDER_NAME" (getText (host.file env) "oidc_provider_name")
  rw [← reads.oidcProviderName] at providerIff
  have oidcIff := oidc_iff env ((lookup (host.file env) "oidc").getD .null)
  rw [← reads.oidc] at oidcIff
  have headerIff := headerAuth_iff env ((lookup (host.file env) "header").getD .null)
  rw [← reads.header] at headerIff
  subst is
  constructor
  · intro same
    have path := congrArg Config.basePath same
    dsimp only [Config.claimed] at path
    exact {
      bind := bindIff.mp (congrArg Config.bind same)
      port := (parsed_iff reads.port).mp (congrArg Config.port same)
      databaseUrl := urlIff.mp (congrArg Config.databaseUrl same)
      schedulerInterval := (parsed_iff reads.schedulerInterval).mp (congrArg Config.schedulerInterval same)
      requestTimeout := (parsed_iff reads.requestTimeout).mp (congrArg Config.requestTimeout same)
      cookieSecure := (parsed_iff reads.cookieSecure).mp (congrArg Config.cookieSecure same)
      logRetentionDays := (parsed_iff reads.logRetentionDays).mp (congrArg Config.logRetentionDays same)
      gaKey := (key_iff reads.gaKey).mp (congrArg Config.gaKey same)
      requireEmailVerification := (parsed_iff reads.requireEmailVerification).mp (congrArg Config.requireEmailVerification same)
      allowPrivateNetwork := (parsed_iff reads.allowPrivateNetwork).mp (congrArg Config.allowPrivateNetwork same)
      allowInvalidCertificates := (parsed_iff reads.allowInvalidCertificates).mp (congrArg Config.allowInvalidCertificates same)
      defaultTimezone := zoneIff.mp (congrArg Config.defaultTimezone same)
      defaultLocale := localeIff.mp (congrArg Config.defaultLocale same)
      basePath := pathIff.mp path
      authMode := modeIff.mp (congrArg Config.authMode same)
      localLoginEnabled := (switched_iff reads.localLoginEnabled).mp (congrArg Config.localLoginEnabled same)
      oidcEnabled := (switched_iff reads.oidcEnabled).mp (congrArg Config.oidcEnabled same)
      oidcProviderName := providerIff.mp (congrArg Config.oidcProviderName same)
      oidc := oidcIff.mp (congrArg Config.oidc same)
      headerAuthEnabled := (switched_iff reads.headerAuthEnabled).mp (congrArg Config.headerAuthEnabled same)
      header := headerIff.mp (congrArg Config.header same)
    }
  · intro heeded
    ext1
    case bind => exact bindIff.mpr heeded.bind
    case port => exact (parsed_iff reads.port).mpr heeded.port
    case databaseUrl => exact urlIff.mpr heeded.databaseUrl
    case databaseMinConnections => exact reads.databaseMinConnections.trans unread_none
    case databaseMaxConnections => exact reads.databaseMaxConnections.trans unread_none
    case schedulerInterval => exact (parsed_iff reads.schedulerInterval).mpr heeded.schedulerInterval
    case requestTimeout => exact (parsed_iff reads.requestTimeout).mpr heeded.requestTimeout
    case sessionTtl => exact reads.sessionTtl.trans unread_none
    case cookieSecure => exact (parsed_iff reads.cookieSecure).mpr heeded.cookieSecure
    case databaseAcquireTimeout => exact reads.databaseAcquireTimeout.trans unread_none
    case databaseIdleTimeout => exact reads.databaseIdleTimeout.trans unread_none
    case loginRateLimitAttempts => exact reads.loginRateLimitAttempts.trans unread_none
    case loginRateLimitWindow => exact reads.loginRateLimitWindow.trans unread_none
    case logRetentionDays => exact (parsed_iff reads.logRetentionDays).mpr heeded.logRetentionDays
    case gaKey => exact (key_iff reads.gaKey).mpr heeded.gaKey
    case requireEmailVerification => exact (parsed_iff reads.requireEmailVerification).mpr heeded.requireEmailVerification
    case allowPrivateNetwork => exact (parsed_iff reads.allowPrivateNetwork).mpr heeded.allowPrivateNetwork
    case allowInvalidCertificates => exact (parsed_iff reads.allowInvalidCertificates).mpr heeded.allowInvalidCertificates
    case defaultTimezone => exact zoneIff.mpr heeded.defaultTimezone
    case defaultLocale => exact localeIff.mpr heeded.defaultLocale
    case basePath =>
      dsimp only [Config.claimed]
      exact pathIff.mpr heeded.basePath
    case authMode => exact modeIff.mpr heeded.authMode
    case localLoginEnabled => exact (switched_iff reads.localLoginEnabled).mpr heeded.localLoginEnabled
    case oidcEnabled => exact (switched_iff reads.oidcEnabled).mpr heeded.oidcEnabled
    case oidcProviderName => exact providerIff.mpr heeded.oidcProviderName
    case oidc => exact oidcIff.mpr heeded.oidc
    case headerAuthEnabled => exact (switched_iff reads.headerAuthEnabled).mpr heeded.headerAuthEnabled
    case header => exact headerIff.mpr heeded.header
    case configFile => exact reads.configFile

/-- A port from the variables, and the retention of runs from the file. -/
theorem port_and_retention : ∃ host env config, Config.fromEnv host env = .ok config ∧ config.port = 8080 ∧
    config.logRetentionDays = 7 ∧ (config = Config.claimed env (host.file env) ↔ Heeded env (host.file env)) := by
  have starts : (Config.fromEnv ⟨fun _ => some (some (.obj [("log_retention_days",.num ⟨7,0⟩)])),fun zone => zone = "Asia/Shanghai"⟩
      fun name => [("PORT","8080"),("QDRUST_CONFIG_FILE","qd.json")].lookup name).toOption.map
      (fun c => (c.port,c.logRetentionDays)) = some (8080,7) := rfl
  obtain ⟨config,is,same⟩ := Option.map_eq_some_iff.mp starts
  have started := toOption_ok.mp is
  have values := Prod.mk.inj same
  exact ⟨_,_,config,started,values.1,values.2,from_env_iff started⟩

/-- The variable switches private addresses off, the file on: they are on. -/
theorem switched_on : ¬ ∀ host env config, Config.fromEnv host env = .ok config → config = Config.claimed env (host.file env) := by
  intro all
  have starts : (Config.fromEnv ⟨fun _ => some (some (.obj [("allow_private_network",.bool true)])),fun _ => true⟩ fun name =>
      [("QDRUST_ALLOW_PRIVATE_NETWORK","false"),("QDRUST_CONFIG_FILE","qd.json")].lookup name).toOption.map
      Config.allowPrivateNetwork = some true := rfl
  obtain ⟨config,is,on⟩ := Option.map_eq_some_iff.mp starts
  rw [all _ _ _ (toOption_ok.mp is)] at on
  revert on
  decide +kernel

end Qdrust.Server
