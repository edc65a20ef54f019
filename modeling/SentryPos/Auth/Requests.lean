import SentryPos.Auth.Reset
import SentryPos.Auth.Totp

/-!
This module contains the requests of authentication as one system of clients. Time is a client as
well: it passes between the statements of the others.
-/

namespace SentryPos.Auth

open ReadCommitted

inductive Request where
  | login (dto : LoginDto) (fresh : FreshToken)
  | setup (bearer : Option String) (secret : String)
  | enable (bearer : Option String) (dto : TotpEnableDto) (fresh : FreshCodes)
  | verify (dto : TotpVerifyDto) (fresh : FreshToken)
  | refresh (dto : RefreshDto) (fresh : FreshToken)
  | logout (dto : RefreshDto)
  | confirmReset (dto : PasswordResetConfirmDto) (salt : String)
  | verifyPin (ownerId : Uuid) (pin : String)
  | tick (ms : Nat)

inductive Response where
  | login (r : LoginResult)
  | setup (r : SetupResult)
  | enabled (recoveryCodes : List String)
  | verified (r : VerifyResult)
  | tokens (pair : TokenPair)
  | done
  deriving DecidableEq

def Request.call (svc : Services) : Request → AuthCall Response
  | .login dto fresh => do
    let r ← Auth.login svc dto fresh
    return .login r
  | .setup bearer secret => do
    let r ← Auth.setup svc bearer secret
    return .setup r
  | .enable bearer dto fresh => do
    let codes ← Auth.enable svc bearer dto fresh
    return .enabled codes
  | .verify dto fresh => do
    let r ← Auth.verify svc dto fresh
    return .verified r
  | .refresh dto fresh => do
    let pair ← Auth.refresh svc dto fresh
    return .tokens pair
  | .logout dto => do
    Auth.logout svc dto
    return .done
  | .confirmReset dto salt => do
    Auth.confirmReset svc dto salt
    return .done
  | .verifyPin ownerId pin => do
    verifyPinWithLockout svc ownerId pin
    return .done
  | .tick ms => do
    AuthCall.update .tick (.tick ms)
    return .done

abbrev Program :=
  Prog Database Write Key Stmt (Except ApiError Response)

def Request.prog (svc : Services) (req : Request) : Program :=
  (req.call svc).run

variable {ι : Type} [DecidableEq ι]

abbrev System (ι : Type) :=
  Config ι Database Write Key Stmt (Except ApiError Response)

/-- All requests before their first step. -/
def System.start (svc : Services) (db : Database) (reqs : ι → Request) : System ι :=
  .init db fun i => (reqs i).prog svc

end SentryPos.Auth
