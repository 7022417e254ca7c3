import CodeCalc.Http.Address
import CodeCalc.Lib.Effect
import CodeCalc.Lib.Text
import CodeCalc.Python

/-! `codecalc serve-http`: what the flags and the environment say of the bind
and of who may call, and the server that is handed to the SDK.  The import of
the module builds the server with the static token; the command looks at the
host, and puts the verifier of the issuer in where there is one. -/
namespace CodeCalc.Http
open Lib

def httpTokenEnv : String := "CODECALC_HTTP_TOKEN"
def httpUrlEnv : String := "CODECALC_HTTP_URL"
def oauthIssuerEnv : String := "CODECALC_OAUTH_ISSUER"
def oauthAudienceEnv : String := "CODECALC_OAUTH_AUDIENCE"
def oauthJwksUrlEnv : String := "CODECALC_OAUTH_JWKS_URL"
def oauthScopesEnv : String := "CODECALC_OAUTH_SCOPES"

def isWhitespace (char : Char) : Bool := isSpace (.ofChar char)

def strip (text : String) : String :=
  String.ofList ((text.toList.dropWhile isWhitespace).rdropWhile isWhitespace)

/-- `text.rstrip("/")`. -/
def rstripSlash (text : String) : String := String.ofList (text.toList.rdropWhile (· = '/'))

/-- `text.split()`. -/
def words (text : String) : List String :=
  ((text.toList.splitOnP isWhitespace).filter (· ≠ [])).map String.ofList

structure AuthSettings where
  issuerUrl : String
  resourceServerUrl : String
  requiredScopes : Option (List String)
  validateTokenResource : Bool
  deriving DecidableEq

inductive Verifier where
  | static (token : String)
  /-- `JWTTokenVerifier`. -/
  | jwt (issuer audience jwksUrl : String)
  deriving DecidableEq

/-- `{"token_verifier": .., "auth": ..}`, or `{}`. -/
abbrev AuthKwargs := Option (Verifier × AuthSettings)

/-- What the process reads of the module's `MCPServer`, and what it prints. -/
structure Process where
  auth : Option AuthSettings := none
  tokenVerifier : Option Verifier := none
  stderr : List String := []

/-- The environment, the network, the SDK, and what of the standard library may
raise. -/
structure Platform where
  environ : String → Option String
  /-- Does this Python's `is_loopback` look into mapped addresses? -/
  mapped : Bool
  /-- Scheme and host name. -/
  urlsplit : String → Except Exc (String × Option String)
  /-- `int(text)`. -/
  int : String → Except Exc Int
  repr : String → String
  anyHttpUrl : String → Except Exc String
  /-- What `AuthSettings(..)` has to say against its arguments. -/
  validate : AuthSettings → Except Exc Unit
  importVerifier : Except Exc Unit
  /-- The document at an address, decoded. -/
  fetch : String → Except Exc Json
  jwkClient : String → Except Exc Unit
  /-- The SDK's server has `settings` and `_token_verifier`. -/
  configurable : Bool

abbrev Configures := Effect Process Exc

def print (line : String) : Configures Unit :=
  Effect.modify fun process => { process with stderr := process.stderr ++ [line] }

def runtimeError (message : String) : Exc :=
  ⟨"RuntimeError", [.runtimeError, .exception], some message, none, none⟩

variable (platform : Platform)

/-- `os.environ.get(name, "").strip()`. -/
def Platform.setting (name : String) : String := strip ((platform.environ name).getD "")

/-- The host test of `serve-http`, and `_is_loopback_host`. -/
def Platform.loopback (host : String) : Bool :=
  match Address.parse host with
  | some address => address.isLoopback platform.mapped
  | none => host = "localhost" || host = "ip6-localhost"

def baseUrl : String :=
  let base := platform.setting httpUrlEnv
  if base = "" then "http://127.0.0.1:8000" else base

/-- `AuthSettings(..)`. -/
def authSettings (issuerUrl resourceServerUrl : String) (requiredScopes : Option (List String))
    (validateTokenResource : Bool) : Configures AuthSettings := do
  let issuer ← Effect.ofExcept (platform.anyHttpUrl issuerUrl)
  let resource ← Effect.ofExcept (platform.anyHttpUrl resourceServerUrl)
  let settings := ⟨issuer, resource, requiredScopes, validateTokenResource⟩
  Effect.ofExcept (platform.validate settings)
  pure settings

def staticTokenAuth : Configures AuthKwargs := do
  let token := (platform.environ httpTokenEnv).getD ""
  if token = "" then pure none
  else
    let base := baseUrl platform
    let settings ← authSettings platform base (rstripSlash base ++ "/mcp") (some ["codecalc"]) false
    pure (some (.static token, settings))

def requireHttpsOrLoopback (url what : String) : Configures Unit := do
  let (scheme, hostname) ← Effect.ofExcept (platform.urlsplit url)
  if scheme = "https" then pure ()
  else if scheme = "http" && platform.loopback (hostname.getD "") then pure ()
  else Effect.raise (.valueError (what ++ " must be https:// (plain http:// is only accepted for a " ++
    "loopback host, for local testing): " ++ platform.repr url))

def discoverJwksUri (issuer : String) : Configures String := do
  requireHttpsOrLoopback platform issuer "the OAuth issuer"
  let discoveryUrl := rstripSlash issuer ++ "/.well-known/openid-configuration"
  match ← Effect.ofExcept (platform.fetch discoveryUrl) with
  | .obj members =>
      match members.lookup "jwks_uri" with
      | some (.str uri) => if uri = "" then noJwksUri discoveryUrl else pure uri
      | _ => noJwksUri discoveryUrl
  | _ => Effect.raise (.attributeError "the document has no attribute 'get'")
where
  noJwksUri (discoveryUrl : String) : Configures String :=
    Effect.raise (.valueError ("OIDC discovery document at " ++ discoveryUrl ++ " has no 'jwks_uri'"))

/-- `JWTTokenVerifier(..)`. -/
def jwtTokenVerifier (issuer audience jwksUrl : String) : Configures Verifier := do
  requireHttpsOrLoopback platform jwksUrl "the JWKS URL"
  Effect.ofExcept (platform.jwkClient jwksUrl)
  pure (.jwt issuer audience jwksUrl)

/-- The flags that `_http_auth` is handed; `none` is a flag that is not given. -/
structure OauthFlags where
  issuer : Option String
  audience : Option String
  jwksUrl : Option String
  scopes : Option String

def httpAuth (flags : OauthFlags) : Configures AuthKwargs := do
  let issuer := flags.issuer.getD (platform.setting oauthIssuerEnv)
  if issuer = "" then staticTokenAuth platform
  else
    let issuer := rstripSlash issuer
    Effect.ofExcept platform.importVerifier
    requireHttpsOrLoopback platform issuer "--oauth-issuer"
    let resourceUrl := rstripSlash (baseUrl platform) ++ "/mcp"
    let audience := flags.audience.getD (platform.setting oauthAudienceEnv)
    let audience := if audience = "" then resourceUrl else audience
    let jwksUrl := flags.jwksUrl.getD (platform.setting oauthJwksUrlEnv)
    let scopes := flags.scopes.getD (platform.setting oauthScopesEnv)
    let requiredScopes := if scopes = "" then none else some (words scopes)
    if (platform.environ httpTokenEnv).getD "" = "" then pure ()
    else print ("codecalc serve-http: both CODECALC_OAUTH_ISSUER and CODECALC_HTTP_TOKEN are set. The " ++
      "issuer wins — only a JWT that verifies against it is accepted, and the static " ++
      "CODECALC_HTTP_TOKEN value is REJECTED like any other invalid bearer token. Unset one to " ++
      "silence this warning.")
    let jwksUrl ← if jwksUrl = "" then discoverJwksUri platform issuer else pure jwksUrl
    let verifier ← jwtTokenVerifier platform issuer audience jwksUrl
    let settings ← authSettings platform issuer audience requiredScopes true
    pure (some (verifier, settings))

def applyOauthAuth (kwargs : AuthKwargs) : Configures Unit :=
  if platform.configurable then
    Effect.modify fun process =>
      { process with auth := kwargs.map Prod.snd, tokenVerifier := kwargs.map Prod.fst }
  else Effect.raise (runtimeError ("MCPServer has no '.settings'/'._token_verifier' to configure OAuth " ++
    "auth on — expected the real mcp.server.mcpserver.server.MCPServer"))

structure TransportSecurity where
  enableDnsRebindingProtection : Bool
  allowedHosts : List String
  allowedOrigins : List String
  deriving DecidableEq

/-- The arguments of `mcp.run(transport="streamable-http", ..)`. -/
structure Call where
  host : String
  port : Int
  jsonResponse : Bool
  statelessHttp : Bool
  transportSecurity : TransportSecurity

inductive Outcome where
  /-- `SystemExit`. -/
  | exit (code : Int)
  /-- Another command, which is not served over HTTP by this module. -/
  | command (name : String) (rest : List String)
  | stdio
  | streamableHttp (call : Call)

/-- `rest[rest.index(name) + 1]`, where that exists. -/
def flag (rest : List String) (name : String) : Option String :=
  match rest.dropWhile (· ≠ name) with
  | _ :: value :: _ => some value
  | _ => none

def oauthFlags (rest : List String) : OauthFlags :=
  ⟨flag rest "--oauth-issuer", flag rest "--oauth-audience", flag rest "--oauth-jwks-url",
    flag rest "--oauth-scopes"⟩

def oauthIssuerEffective (rest : List String) : String :=
  (flag rest "--oauth-issuer").getD (platform.setting oauthIssuerEnv)

/-- The Host pattern of a host; an IPv6 address stands in brackets. -/
def transportSecurity (host : String) : TransportSecurity :=
  let header := match Address.parse host with
    | some (.v6 _) => "[" ++ host ++ "]"
    | _ => host
  ⟨true, [header ++ ":*"], ["http://" ++ header ++ ":*"]⟩

/-- The two calls inside the `try` of `serve-http`. -/
def configureOauth (rest : List String) : Configures Unit := do
  let kwargs ← httpAuth platform (oauthFlags rest)
  applyOauthAuth platform kwargs

/-- The branch of `main` for `serve-http`. -/
def serveHttp (rest : List String) : Configures Outcome := do
  let host := (flag rest "--host").getD "127.0.0.1"
  let portText := (flag rest "--port").getD "8000"
  let issuer := oauthIssuerEffective platform rest
  if !platform.loopback host && (platform.environ httpTokenEnv).getD "" = "" && issuer = "" then do
    print ("codecalc serve-http: refusing to bind " ++ host ++ ": it is not a loopback address and " ++
      "neither CODECALC_HTTP_TOKEN nor CODECALC_OAUTH_ISSUER/--oauth-issuer is set. An unauthenticated " ++
      "bind on a routable interface would expose every execution tool to that network. Configure one " ++
      "and restart, or bind 127.0.0.1.")
    pure (.exit 2)
  else if issuer = "" then run host portText
  else do
    match ← Effect.attempt (configureOauth platform rest) with
    | .ok () => run host portText
    | .error exc =>
        if exc.caughtBy [.valueError, .osError, .runtimeError] then do
          print ("codecalc serve-http: could not configure OAuth against " ++ platform.repr issuer ++
            ": " ++ exc.message.getD "" ++ ". Refusing to start — a server no token could ever pass is " ++
            "worse than one that fails at the command line.")
          pure (.exit 2)
        else Effect.raise exc
where
  run (host portText : String) : Configures Outcome := do
    let port ← Effect.ofExcept (platform.int portText)
    pure (.streamableHttp ⟨host, port, true, true, transportSecurity host⟩)

/-- `main`, on the arguments after the program's name. -/
def main : List String → Configures Outcome
  | [] => pure .stdio
  | command :: rest =>
      if command ∈ ["--help", "-h", "--version", "-V"] then pure (.exit 0)
      else if command ∈ ["doctor", "--check", "--check-install", "setup", "status", "cleanup",
        "serve-strict"] then pure (.command command rest)
      else if command = "serve-http" then serveHttp platform rest
      else pure .stdio

/-- `mcp = MCPServer(.., **_static_token_auth())`. -/
def importServer : Configures Unit := do
  let kwargs ← staticTokenAuth platform
  Effect.modify fun process =>
    { process with auth := kwargs.map Prod.snd, tokenVerifier := kwargs.map Prod.fst }

/-- The process, from the import of the module on. -/
def launch (argv : List String) : Configures Outcome := do
  importServer platform
  main platform argv

section Runs

variable {platform} {start process after : Process} {rest : List String} {call : Call}

theorem run_pure_ok {α : Type} {value result : α}
    (ran : (pure value : Configures α).run process = (.ok result, after)) :
    result = value ∧ after = process := by
  cases ran
  exact ⟨rfl, rfl⟩

/-- What has been made of the flags is the verifier of the issuer. -/
theorem httpAuth_issuer {flags : OauthFlags} {kwargs : AuthKwargs}
    (configured : flags.issuer.getD (platform.setting oauthIssuerEnv) ≠ "")
    (ran : (httpAuth platform flags).run process = (.ok kwargs, after)) :
    ∃ audience jwksUrl settings, kwargs = some (.jwt
      (rstripSlash (flags.issuer.getD (platform.setting oauthIssuerEnv))) audience jwksUrl, settings) := by
  unfold httpAuth at ran
  rw [if_neg configured] at ran
  have ended : ∀ {process : Process} {issuer audience : String} {found : Configures String}
      {scopes : Option (List String)},
      (do
        let jwksUrl ← found
        let verifier ← jwtTokenVerifier platform issuer audience jwksUrl
        let settings ← authSettings platform issuer audience scopes true
        pure (some (verifier, settings)) : Configures AuthKwargs).run process = (.ok kwargs, after) →
      ∃ audience jwksUrl settings, kwargs = some (.jwt issuer audience jwksUrl, settings) := by
    intro process issuer audience found scopes ran
    obtain ⟨jwksUrl, _, _, ran⟩ := Effect.run_bind_ok ran
    obtain ⟨verifier, _, made, ran⟩ := Effect.run_bind_ok ran
    obtain ⟨settings, _, _, ran⟩ := Effect.run_bind_ok ran
    obtain ⟨_, _, _, made⟩ := Effect.run_bind_ok made
    obtain ⟨_, _, _, made⟩ := Effect.run_bind_ok made
    have same := (run_pure_ok made).1
    subst same
    exact ⟨audience, jwksUrl, settings, (run_pure_ok ran).1⟩
  obtain ⟨_, _, _, ran⟩ := Effect.run_bind_ok ran
  obtain ⟨_, _, _, ran⟩ := Effect.run_bind_ok ran
  dsimp only at ran
  split at ran
  · split at ran
    · exact ended ran
    · exact ended ran
  · obtain ⟨_, _, _, ran⟩ := Effect.run_bind_ok ran
    split at ran
    · exact ended ran
    · exact ended ran

/-- The verifier of the issuer is in place once the two calls have come back. -/
theorem configureOauth_issuer (configured : oauthIssuerEffective platform rest ≠ "")
    (ran : (configureOauth platform rest).run process = (.ok (), after)) :
    ∃ audience jwksUrl, after.tokenVerifier =
      some (.jwt (rstripSlash (oauthIssuerEffective platform rest)) audience jwksUrl) := by
  obtain ⟨kwargs, _, made, applied⟩ := Effect.run_bind_ok ran
  have issuer : (oauthFlags rest).issuer.getD (platform.setting oauthIssuerEnv) ≠ "" := configured
  obtain ⟨audience, jwksUrl, settings, same⟩ := httpAuth_issuer issuer made
  subst same
  refine ⟨audience, jwksUrl, ?_⟩
  unfold applyOauthAuth at applied
  split at applied
  · rw [Effect.run_modify] at applied
    rw [← (Prod.mk.inj applied).2]
    rfl
  · cases applied

theorem importServer_token (token : (platform.environ httpTokenEnv).getD "" ≠ "")
    (ran : (importServer platform).run start = (.ok (), after)) : after.tokenVerifier ≠ none := by
  obtain ⟨kwargs, _, made, applied⟩ := Effect.run_bind_ok ran
  unfold staticTokenAuth at made
  rw [if_neg token] at made
  obtain ⟨settings, _, _, made⟩ := Effect.run_bind_ok made
  rw [(run_pure_ok made).1, Effect.run_modify] at applied
  rw [← (Prod.mk.inj applied).2]
  exact Option.some_ne_none _

theorem serveHttp_cases
    (ran : (serveHttp platform rest).run process = (.ok (.streamableHttp call), after)) :
    call.host = (flag rest "--host").getD "127.0.0.1" ∧
      call.transportSecurity = transportSecurity call.host ∧
      ((oauthIssuerEffective platform rest = "" ∧ after = process ∧
          (platform.loopback call.host = true ∨ (platform.environ httpTokenEnv).getD "" ≠ "")) ∨
        (oauthIssuerEffective platform rest ≠ "" ∧
          (configureOauth platform rest).run process = (.ok (), after))) := by
  have served : ∀ {process : Process} {host portText : String},
      (serveHttp.run platform host portText).run process = (.ok (.streamableHttp call), after) →
      call.host = host ∧ call.transportSecurity = transportSecurity host ∧ after = process := by
    intro process host portText ran
    obtain ⟨port, _, parsed, ran⟩ := Effect.run_bind_ok ran
    obtain ⟨called, same⟩ := run_pure_ok ran
    obtain ⟨_, last⟩ := Effect.run_ofExcept_ok parsed
    cases called
    exact ⟨rfl, rfl, same.trans last⟩
  unfold serveHttp at ran
  dsimp only at ran
  split at ran
  · obtain ⟨_, _, _, ran⟩ := Effect.run_bind_ok ran
    cases (run_pure_ok ran).1
  · rename_i admitted
    split at ran
    · rename_i none
      obtain ⟨host, security, same⟩ := served ran
      refine ⟨host, host ▸ security, .inl ⟨none, same, ?_⟩⟩
      by_contra neither
      obtain ⟨routable, bare⟩ := not_or.mp neither
      apply admitted
      rw [host, Bool.not_eq_true] at routable
      rw [routable, none, not_not.mp bare]
      rfl
    · rename_i configured
      rw [Effect.run_attempt_bind] at ran
      rcases outcome : (configureOauth platform rest).run process with ⟨result, middle⟩
      rw [outcome] at ran
      cases result with
      | ok value =>
        obtain ⟨host, security, same⟩ := served ran
        exact ⟨host, host ▸ security, .inr ⟨configured, same ▸ rfl⟩⟩
      | error exc =>
        dsimp only at ran
        split at ran
        · obtain ⟨_, _, _, ran⟩ := Effect.run_bind_ok ran
          cases (run_pure_ok ran).1
        · cases ran

theorem main_serves {argv : List String}
    (ran : (main platform argv).run process = (.ok (.streamableHttp call), after)) :
    (serveHttp platform argv.tail).run process = (.ok (.streamableHttp call), after) := by
  cases argv with
  | nil => cases (run_pure_ok ran).1
  | cons command rest =>
    rw [main] at ran
    split at ran
    · cases (run_pure_ok ran).1
    · split at ran
      · cases (run_pure_ok ran).1
      · split at ran
        · exact ran
        · cases (run_pure_ok ran).1

/-- Whatever the arguments and the environment: a host that is not loopback is
served only with a verifier in place; where there is an issuer it is the
verifier of that issuer, less its trailing slashes, and configuring it has not
failed; and the Host pattern is that of the host that is bound. -/
theorem serve_http_guarded {argv : List String}
    (ran : (launch platform argv).run start = (.ok (.streamableHttp call), after)) :
    (platform.loopback call.host = false → after.tokenVerifier ≠ none) ∧
      (oauthIssuerEffective platform argv.tail ≠ "" →
        ((configureOauth platform argv.tail).run ((importServer platform).run start).2).1 = .ok () ∧
        ∃ audience jwksUrl, after.tokenVerifier =
          some (.jwt (rstripSlash (oauthIssuerEffective platform argv.tail)) audience jwksUrl)) ∧
      call.host = (flag argv.tail "--host").getD "127.0.0.1" ∧
      call.transportSecurity = transportSecurity call.host := by
  obtain ⟨_, imported, importing, ran⟩ := Effect.run_bind_ok ran
  obtain ⟨host, security, cases⟩ := serveHttp_cases (main_serves ran)
  refine ⟨?_, ?_, host, security⟩
  · intro routable
    rcases cases with ⟨_, same, loopback | token⟩ | ⟨configured, ran⟩
    · rw [routable] at loopback
      cases loopback
    · rw [same]
      exact importServer_token token importing
    · obtain ⟨audience, jwksUrl, same⟩ := configureOauth_issuer configured ran
      rw [same]
      exact Option.some_ne_none _
  · intro configured
    rcases cases with ⟨none, _⟩ | ⟨_, ran⟩
    · exact absurd none configured
    · rw [importing, ran]
      exact ⟨rfl, configureOauth_issuer configured ran⟩

theorem rstripSlash_eq_iff (text : String) : rstripSlash text = text ↔ text.toList.getLast? ≠ some '/' := by
  have letters : rstripSlash text = text ↔ text.toList.rdropWhile (· = '/') = text.toList := by
    rw [rstripSlash, ← String.toList_inj, String.toList_ofList]
  rw [letters, List.rdropWhile_eq_self_iff]
  constructor
  · intro kept slash
    have some : text.toList ≠ [] := by
      intro empty
      rw [empty] at slash
      cases slash
    rw [List.getLast?_eq_some_getLast some] at slash
    exact kept some (decide_eq_true (Option.some.inj slash))
  · intro last some slash
    exact last ((List.getLast?_eq_some_getLast some).trans (congrArg _ (of_decide_eq_true slash)))

/-- What is asked of a server that is handed to the SDK. -/
structure Guarded (platform : Platform) (start : Process) (argv : List String) (call : Call)
    (after : Process) : Prop where
  verified : platform.loopback call.host = false → after.tokenVerifier ≠ none
  configured : oauthIssuerEffective platform argv.tail ≠ "" →
    ((configureOauth platform argv.tail).run ((importServer platform).run start).2).1 = .ok ()
  issuer : oauthIssuerEffective platform argv.tail ≠ "" → ∃ audience jwksUrl,
    after.tokenVerifier = some (.jwt (oauthIssuerEffective platform argv.tail) audience jwksUrl)
  bound : call.host = (flag argv.tail "--host").getD "127.0.0.1"
  pattern : call.transportSecurity = transportSecurity call.host

/-- A server is guarded just where its issuer does not end in a slash: the
verifier compares the issuer of a token with a text that never does. -/
theorem serve_http_guarded_iff {argv : List String}
    (ran : (launch platform argv).run start = (.ok (.streamableHttp call), after)) :
    Guarded platform start argv call after ↔
      (oauthIssuerEffective platform argv.tail).toList.getLast? ≠ some '/' := by
  obtain ⟨verified, issuer, host, security⟩ := serve_http_guarded ran
  rw [← rstripSlash_eq_iff]
  constructor
  · intro guarded
    by_cases none : oauthIssuerEffective platform argv.tail = ""
    · rw [none]
      rfl
    · obtain ⟨_, _, same⟩ := guarded.issuer none
      obtain ⟨_, _, _, stripped⟩ := issuer none
      rw [same, Option.some_inj, Verifier.jwt.injEq] at stripped
      exact stripped.1.symm
  · intro same
    refine ⟨verified, fun some => (issuer some).1, fun some => ?_, host, security⟩
    obtain ⟨_, audience, jwksUrl, installed⟩ := issuer some
    exact ⟨audience, jwksUrl, by rw [installed, same]⟩

def served : Except Exc Outcome × Process → Option (Call × Process)
  | (.ok (.streamableHttp call), process) => some (call, process)
  | _ => none

theorem eq_of_served {ended : Except Exc Outcome × Process} (serves : served ended = some (call, after)) :
    ended = (.ok (.streamableHttp call), after) := by
  unfold served at serves
  split at serves
  · cases serves
    rfl
  · cases serves

def reachable : Platform where
  environ _ := none
  mapped := false
  urlsplit url := .ok (if "https://".toList.isPrefixOf url.toList then "https" else "", none)
  int _ := .ok 8000
  repr text := text
  anyHttpUrl url := .ok url
  validate _ := .ok ()
  importVerifier := .ok ()
  fetch issuer := .ok (.obj [("jwks_uri", .str (issuer ++ "/keys"))])
  jwkClient _ := .ok ()
  configurable := true

def routableArgv (issuer : String) : List String :=
  ["serve-http", "--host", "0.0.0.0", "--oauth-issuer", issuer]

def issuerOf : Option Verifier → Option String
  | some (.jwt issuer _ _) => some issuer
  | _ => none

theorem exists_of_served {argv : List String} {bound : Option String}
    (facts : (served ((launch platform argv).run {})).map
      (fun ended => (platform.loopback ended.1.host, issuerOf ended.2.tokenVerifier)) =
        some (false, bound)) : ∃ call after,
    (launch platform argv).run {} = (.ok (.streamableHttp call), after) ∧
      platform.loopback call.host = false ∧ issuerOf after.tokenVerifier = bound := by
  obtain ⟨⟨call, after⟩, serves, facts⟩ := Option.map_eq_some_iff.mp facts
  obtain ⟨routable, issuer⟩ := Prod.mk.inj facts
  exact ⟨call, after, eq_of_served serves, routable, issuer⟩

theorem serve_http_guarded_routable : ∃ call after,
    (launch reachable (routableArgv "https://issuer")).run {} = (.ok (.streamableHttp call), after) ∧
      reachable.loopback call.host = false ∧
      Guarded reachable {} (routableArgv "https://issuer") call after := by
  obtain ⟨call, after, ran, routable, _⟩ := @exists_of_served reachable
    (routableArgv "https://issuer") (some "https://issuer") (by decide)
  exact ⟨call, after, ran, routable, (serve_http_guarded_iff ran).mpr (by decide)⟩

/-- The verifier is that of another issuer, where the slash counts. -/
theorem serve_http_strips : ¬∀ platform argv call after,
    (launch platform argv).run {} = (.ok (.streamableHttp call), after) →
    Guarded platform {} argv call after := by
  intro guarded
  obtain ⟨call, after, ran, _, issuer⟩ := @exists_of_served reachable
    (routableArgv "https://issuer/") (some "https://issuer") (by decide)
  have given : oauthIssuerEffective reachable (routableArgv "https://issuer/").tail = "https://issuer/" := rfl
  have same := (guarded reachable _ call after ran).issuer
  rw [given] at same
  obtain ⟨audience, jwksUrl, same⟩ := same (by decide)
  rw [same] at issuer
  have stripped : "https://issuer/" = "https://issuer" := Option.some.inj issuer
  exact absurd stripped (by decide)

end Runs

end CodeCalc.Http
