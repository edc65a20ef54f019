import SentryPos.Auth.Login

/-!
This module contains the second factor of a platform admin: its setup and enrollment, the check of a
code and the endpoint that trades a pre-auth token and a code for a token pair.
-/

namespace SentryPos.Auth

open ReadCommitted

structure TotpVerifyDto where
  preAuthToken : String
  code : String
  preAuthToken_ne : preAuthToken ≠ ""
  code_ne : code ≠ ""

structure TotpEnableDto where
  code : String
  code_ne : code ≠ ""

structure VerifyResult where
  pair : TokenPair
  role : UserRole
  deriving DecidableEq

/-- The guard of the setup and enable endpoints, given the bearer token of the request. -/
def preauthGuard (svc : Services) (bearer : Option String) : AuthCall JwtPayload := do
  match bearer with
  | none => throw (.unauthorized "Pre-auth token required.")
  | some token =>
    match svc.verifyJwt (← AuthCall.now) token with
    | none => throw (.unauthorized "Invalid or expired pre-auth token.")
    | some payload =>
      if payload.kind ≠ some "preauth" then
        throw (.unauthorized "Pre-auth token required.")
      return payload

structure SetupResult where
  secret : String
  otpauthUri : String
  deriving DecidableEq

def generateSetup (svc : Services) (userId : Uuid) (secret : String) : AuthCall SetupResult := do
  let user ← AuthCall.findUniqueOrThrow .findUser userId
  AuthCall.update .updateUser (.setPendingSecret userId secret)
  return { secret, otpauthUri := svc.generateURI user.email secret }

/-- The random values of an enrollment: the recovery codes, each with the salt of its hash. -/
abbrev FreshCodes :=
  List (String × String)

def hashedCodes (svc : Services) (fresh : FreshCodes) : List String :=
  fresh.map fun code => svc.hashSecret code.2 code.1

def enableTotp (svc : Services) (userId : Uuid) (code : String) (fresh : FreshCodes)
    : AuthCall (List String) := do
  let user ← AuthCall.findUniqueOrThrow .findUser userId
  match truthy user.totpPendingSecret with
  | none => throw .totpInvalid
  | some pending =>
    let now ← AuthCall.now
    if (svc.verifySync code pending now none).isNone then
      throw .totpInvalid
    AuthCall.update .updateUser (.enableTotp userId pending (hashedCodes svc fresh))
    return fresh.map (·.1)

def matchRecoveryCode (svc : Services) (user : User) (code : String) : Option Nat :=
  user.totpRecoveryCodes.findIdx? fun hash => svc.verifySecret hash code

def useRecoveryCode (svc : Services) (user : User) (code : String) : AuthCall Unit := do
  match matchRecoveryCode svc user code with
  | none => throw .totpInvalid
  | some i => AuthCall.update .updateUser (.setRecoveryCodes user.id (user.totpRecoveryCodes.eraseIdx i))

def verifyTotp (svc : Services) (userId : Uuid) (code : String) : AuthCall Unit := do
  let user ← AuthCall.findUniqueOrThrow .findUser userId
  match truthy user.totpSecret with
  | none => throw .totpInvalid
  | some secret =>
    let now ← AuthCall.now
    match svc.verifySync code secret now user.totpLastTimeStep with
    | some timeStep =>
      -- An update that throws is caught, and the recovery codes are tried.
      tryCatch (AuthCall.update .updateUser (.setLastTimeStep userId timeStep))
        fun _ => useRecoveryCode svc user code
    | none => useRecoveryCode svc user code

/-- The endpoint `totp/setup`. -/
def setup (svc : Services) (bearer : Option String) (secret : String) : AuthCall SetupResult := do
  let payload ← preauthGuard svc bearer
  generateSetup svc payload.sub secret

/-- The endpoint `totp/enable`. -/
def enable (svc : Services) (bearer : Option String) (dto : TotpEnableDto) (fresh : FreshCodes)
    : AuthCall (List String) := do
  let payload ← preauthGuard svc bearer
  enableTotp svc payload.sub dto.code fresh

/-- The endpoint `totp/verify`. -/
def verify (svc : Services) (dto : TotpVerifyDto) (fresh : FreshToken) : AuthCall VerifyResult := do
  match svc.verifyJwt (← AuthCall.now) dto.preAuthToken with
  | none => throw (.unauthorized "Invalid or expired pre-auth token.")
  | some payload =>
    if payload.kind ≠ some "preauth" then
      throw (.unauthorized "Pre-auth token required.")
    let userId := payload.sub
    let user ← AuthCall.findUniqueOrThrow .findUser userId
    assertNotLocked user .login
    tryCatch (verifyTotp svc userId dto.code) fun _ => do
      tryCatch (recordFailure userId .login) fun _ => pure ()
      throw .totpInvalid
    recordSuccess userId .login
    let pair ← mintTokenPair svc userId user.role none fresh
    return { pair, role := user.role }

end SentryPos.Auth
