import SentryPos.Platform.Invite
import SentryPos.Platform.Pairing

/-!
This module contains the requests of the platform as one system of clients, and what each of them may
write.
-/

namespace SentryPos.Platform

open ReadCommitted

/-- The reset of a password is one of the platform, as it leaves an audit row. -/
inductive Request where
  | createOwner (dto : CreateOwnerDto) (fresh : FreshOwner)
  | updateOwner (id : Uuid) (dto : UpdateOwnerDto)
  | suspend (id : Uuid) (tier : SuspendTier)
  | reinstate (id : Uuid)
  | acceptInvite (dto : InviteAcceptDto) (salt : String) (fresh : FreshDemo)
  | requestReset (email : String) (fresh : FreshAuthToken)
  | confirmReset (dto : Auth.PasswordResetConfirmDto) (salt : String)
  | auth (req : Auth.Request) (h : ∀ dto salt, req ≠ .confirmReset dto salt)
  | createBusiness (actorId ownerId : Option Uuid) (name : String) (id : Uuid)
  | remove (table : Archived) (actorId ownerId : Option Uuid) (id : Uuid)
  | pair (ownerId ownerUserId : Uuid) (dto : PairDto) (fresh : FreshTerminal)
  | unpair (deviceToken : String) (dto : Auth.LoginDto)
  | unpairRemotely (actorId ownerId : Option Uuid) (id : Uuid)

inductive Response where
  | auth (r : Auth.Response)
  | paired (r : PairResult)
  | done
  deriving DecidableEq

/-- A call without a result. -/
def PlatformCall.done (p : PlatformCall Unit) : PlatformCall Response := do
  p
  return .done

def Request.call (svc : Auth.Services) (catalog : DemoCatalog) : Request → PlatformCall Response
  | .createOwner dto fresh => (Platform.createOwner svc dto fresh).done
  | .updateOwner id dto => (Platform.updateOwner id dto).done
  | .suspend id tier => (Platform.suspend id tier).done
  | .reinstate id => (Platform.reinstate id).done
  | .acceptInvite dto salt fresh => (Platform.acceptInvite svc catalog dto salt fresh).done
  | .requestReset email fresh => (Platform.requestReset svc email fresh).done
  | .confirmReset dto salt => (Platform.confirmReset svc dto salt).done
  | .auth req _ => do
    let r ← Call.lift authPart (req.call svc)
    return .auth r
  | .createBusiness actorId ownerId name id =>
    (Platform.createBusiness actorId ownerId name id).done
  | .remove table actorId ownerId id => (Platform.remove table actorId ownerId id).done
  | .pair ownerId ownerUserId dto fresh => do
    let r ← Platform.pair svc ownerId ownerUserId dto fresh
    return .paired r
  | .unpair deviceToken dto => (Platform.unpair svc deviceToken dto).done
  | .unpairRemotely actorId ownerId id => (Platform.unpairRemotely actorId ownerId id).done

abbrev Program :=
  Prog Database Write Key Stmt (Except ApiError Response)

def Request.prog (svc : Auth.Services) (catalog : DemoCatalog) (req : Request) : Program :=
  (req.call svc catalog).run

abbrev System (ι : Type) :=
  Config ι Database Write Key Stmt (Except ApiError Response)

/-- All requests before their first step. -/
def System.start {ι : Type} (svc : Auth.Services) (catalog : DemoCatalog) (db : Database)
    (reqs : ι → Request) : System ι :=
  .init db fun i => (reqs i).prog svc catalog

def Write.Plain : Write → Prop
  | auth w => w.SparesTokens
  | insertAuthToken row => row.usedAt = none
  | setStatus .. | insertBusiness _ | insertTerminal _ => False
  | _ => True

def Request.Writes (req : Request) (w : Write) : Prop :=
  w.Plain ∨
    match req with
    | suspend id tier => ∃ suspendedAt, w = .setStatus id tier.status suspendedAt
    | reinstate id => w = .setStatus id .active none
    | acceptInvite .. | confirmReset .. | createBusiness .. | pair .. => True
    | _ => False

theorem safe_done {P : Write → Prop} {p : PlatformCall Unit} (h : Safe True P p)
    : Safe True P p.done := by
  apply Call.Safe.bind h
  intro _
  exact .pure _

theorem Request.safe_call (svc : Auth.Services) (catalog : DemoCatalog) (req : Request)
    : Safe True req.Writes (req.call svc catalog) := by
  have haudit : ∀ row, req.Writes (.insertAudit row) := fun _ => .inl trivial
  have hauth : ∀ w, Auth.Write.SparesTokens w → req.Writes (.auth w) := fun _ hw => .inl hw
  have hclear : ∀ id, req.Writes (.clearDeviceToken id) := fun _ => .inl trivial
  have htoken : ∀ row : Auth.AuthToken, row.usedAt = none → req.Writes (.insertAuthToken row) :=
    fun _ hrow => .inl hrow
  cases req with
  | createOwner dto fresh =>
    exact safe_done (safe_createOwner haudit svc dto fresh (.inl trivial) (.inl trivial) htoken)
  | updateOwner id dto => exact safe_done (safe_updateOwner haudit (.inl trivial))
  | suspend id tier => exact safe_done (safe_suspend haudit fun suspendedAt => .inr ⟨_, rfl⟩)
  | reinstate id => exact safe_done (safe_reinstate haudit (.inr rfl))
  | acceptInvite dto salt fresh =>
    exact safe_done (safe_acceptInvite (fun _ => .inr trivial) svc catalog dto salt fresh)
  | requestReset email fresh => exact safe_done (safe_requestReset htoken svc email fresh)
  | confirmReset dto salt =>
    exact safe_done (safe_confirmReset (fun _ => .inr trivial) svc dto salt)
  | auth req h =>
    apply Call.Safe.bind (safe_lift hauth (req.safe_call svc h))
    intro r
    exact .pure _
  | createBusiness actorId ownerId name id =>
    exact safe_done (safe_createBusiness haudit (fun _ => .inr trivial) actorId ownerId)
  | remove table actorId ownerId id =>
    exact safe_done (safe_remove haudit (fun _ => .inl trivial) actorId ownerId)
  | pair ownerId ownerUserId dto fresh =>
    apply Call.Safe.bind (safe_pair haudit (fun _ => .inr trivial) svc ownerId ownerUserId dto fresh)
    intro r
    exact .pure _
  | unpair deviceToken dto => exact safe_done (safe_unpair haudit hclear hauth svc deviceToken dto)
  | unpairRemotely actorId ownerId id =>
    exact safe_done (safe_unpairRemotely haudit hclear actorId ownerId id)

namespace Shop

/-! An owner with one business and one branch, and services that keep secrets as they are. -/

def services : Auth.Services where
  verifySecret hash secret := hash = secret
  hashSecret _ secret := secret
  sha256 text := text
  verifySync _ _ _ _ := none
  generateURI email secret := email ++ secret
  sign _ _ _ := "access"
  verifyJwt _ _ := none

def account : Account where
  id := 1
  name := "Kape Diaria"
  email := "owner@sentry.test"
  maxBusinesses := 2
  suspendedAt := none
  deletedAt := none

def user : Auth.User where
  id := 2
  email := "owner@sentry.test"
  passwordHash := some "password"
  role := .owner
  ownerId := some 1
  pinHash := none
  totpSecret := none
  totpPendingSecret := none
  totpLastTimeStep := none
  totpRecoveryCodes := []
  failedLoginCount := 0
  loginLockedUntil := none
  failedPinCount := 0
  pinLockedUntil := none
  deletedAt := none

def database : Database where
  auth := {
    clock := 0
    owners := [⟨1, .active⟩]
    users := [user]
    refreshTokens := []
    authTokens := []
  }
  accounts := [account]
  businesses := [⟨10, 1, "Kape Diaria", false, none⟩]
  branches := [⟨20, 10, "Marikit", "MKT", none⟩]
  terminals := []
  catalog := []
  auditLogs := []

def catalog : DemoCatalog where
  categories := [⟨"cat-coffee", "Coffee", 1⟩]
  modifierGroups := []
  discounts := []
  products := [⟨"prod-brew", "cat-coffee", "Brewed", "CF-101", none, 9000, .unit, false, none, [], []⟩]
  stock := []

theorem database_valid : database.Valid := by
  unfold Database.Valid UniqueIndex.Unique
  exact List.nodup_nil

end Shop

end SentryPos.Platform
