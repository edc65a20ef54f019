import SentryPos.Auth.Requests
import SentryPos.Auth.Valid
import SentryPos.ReadCommitted.Contract

/-!
This module contains that the calls of authentication write under the locks of their statements, and
that none but the confirmation of a reset uses a token that was mailed.
-/

namespace SentryPos.Auth

open ReadCommitted

def Write.SparesTokens (w : Write) : Prop :=
  ∀ id usedAt, w ≠ .useAuthToken id usedAt

/-- A write that neither uses a mailed token nor changes a credential. -/
def Write.isRoutine : Write → Bool
  | tick _ | setFailures .. | setPendingSecret .. => true
  | insertRefreshToken _ | revokeRefreshToken .. => true
  | _ => false

theorem routine_sparesTokens (w : Write) (hw : w.isRoutine) : w.SparesTokens := by
  intro id usedAt heq
  rw [heq] at hw
  cases hw

/-- A call whose writes are covered by their locks and have a property. -/
abbrev Safe (ends : Prop) (P : Write → Prop) {R : Type} (p : AuthCall R) : Prop :=
  Call.Safe ends (fun _ => True) P p

variable {R : Type} {P : Write → Prop}

theorem safe_execute {ends : Prop} {tag : Stmt} {w : Write} (h : P w)
    : Safe ends P (AuthCall.execute tag w) := by
  apply Call.Safe.write
  intro view ws hcheck
  split at hcheck
  . cases hcheck
  . cases hcheck
    constructor
    . intro _
      trivial
    . intro w' hw'
      rw [List.mem_singleton.mp hw']
      exact h
    . intro w' hw' k hk
      rw [List.mem_singleton.mp hw'] at hk
      exact hk

theorem safe_update {tag : Stmt} {w : Write} (h : P w) : Safe True P (AuthCall.update tag w) :=
  .transaction (safe_execute h)

theorem safe_revokeAll {ends : Prop} (h : ∀ id revokedAt, P (.revokeRefreshToken id revokedAt))
    (userId : Uuid) : Safe ends P (revokeAll userId) := by
  unfold revokeAll AuthCall.now
  apply Call.Safe.bind (.query _)
  intro now
  apply Call.Safe.bind (.queryOnTx _)
  intro ids
  apply Call.Safe.write
  intro view ws hcheck
  cases hcheck
  constructor
  . intro _
    trivial
  . intro w hw
    obtain ⟨id, _, rfl⟩ := List.mem_map.mp hw
    exact h id now
  . intro w hw k hk
    obtain ⟨id, hid, rfl⟩ := List.mem_map.mp hw
    rw [show k = .refreshToken id from List.mem_singleton.mp hk]
    exact List.mem_map_of_mem (List.mem_of_mem_filter hid)

theorem safe_consumeToken {ends : Prop} (h : ∀ id usedAt, P (.useAuthToken id usedAt))
    (svc : Services) (token : String) (kind : AuthTokenKind)
    : Safe ends P (consumeToken svc token kind) := by
  unfold consumeToken AuthCall.now
  apply Call.Safe.bind (.queryOnTx _)
  intro found
  cases found with
  | none => exact .throw _
  | some row =>
    dsimp only
    split
    . exact .throw _
    . apply Call.Safe.bind (.query _)
      intro now
      split
      . exact .throw _
      . apply Call.Safe.bind (.query _)
        intro usedAt
        apply Call.Safe.bind
        . apply Call.Safe.write
          intro view ws hcheck
          split at hcheck
          . cases hcheck
            constructor
            . intro _
              trivial
            . intro w hw
              rw [List.mem_singleton.mp hw]
              exact h row.id usedAt
            . intro w hw k hk
              rw [List.mem_singleton.mp hw] at hk
              exact hk
          . cases hcheck
        . intro _
          exact .pure _

theorem safe_assertNotLocked (user : User) (kind : LockoutKind)
    : Safe True P (assertNotLocked user kind) := by
  unfold assertNotLocked
  split
  . apply Call.Safe.bind (.query _)
    intro now
    split
    . exact .throw _
    . exact .pure _
  . exact .pure _

theorem safe_recordFailure (hP : ∀ w : Write, w.isRoutine → P w)
    (userId : Uuid) (kind : LockoutKind)
    : Safe True P (recordFailure userId kind : AuthCall R) := by
  unfold recordFailure
  apply Call.Safe.bind (.check _)
  intro user
  apply Call.Safe.bind (.query _)
  intro now
  apply Call.Safe.bind
  . apply safe_update
    exact hP _ rfl
  . intro _
    exact .throw _

theorem safe_recordSuccess (hP : ∀ w : Write, w.isRoutine → P w)
    (userId : Uuid) (kind : LockoutKind)
    : Safe True P (recordSuccess userId kind) := by
  apply safe_update
  exact hP _ rfl

theorem safe_withLockout (hP : ∀ w : Write, w.isRoutine → P w)
    {user : User} {kind : LockoutKind} {valid : Bool} {next : AuthCall R}
    (hnext : Safe True P next)
    : Safe True P (withLockout user kind valid next) := by
  unfold withLockout
  apply Call.Safe.bind (safe_assertNotLocked user kind)
  intro _
  apply Call.Safe.bind (.query _)
  intro found
  split
  . apply Call.Safe.bind (safe_recordSuccess hP user.id kind)
    intro _
    exact hnext
  . exact safe_recordFailure hP user.id kind

theorem safe_mintTokenPair (hP : ∀ w : Write, w.isRoutine → P w)
    (svc : Services) (userId : Uuid) (role : UserRole)
    (ownerId : Option Uuid) (fresh : FreshToken)
    : Safe True P (mintTokenPair svc userId role ownerId fresh) := by
  unfold mintTokenPair AuthCall.now
  apply Call.Safe.bind (.query _)
  intro now
  apply Call.Safe.bind
  . apply safe_update
    exact hP _ rfl
  . intro _
    apply Call.Safe.bind (.query _)
    intro signedAt
    exact .pure _

theorem safe_finishLogin (hP : ∀ w : Write, w.isRoutine → P w)
    (svc : Services) (user : User) (fresh : FreshToken)
    : Safe True P (finishLogin svc user fresh) := by
  unfold finishLogin assertNotSuspended issueTokens AuthCall.now
  apply Call.Safe.bind
  . split
    . apply Call.Safe.bind (.query _)
      intro owner
      split
      . exact .throw _
      . exact .pure _
    . exact .pure _
  . intro _
    split
    . apply Call.Safe.bind (.query _)
      intro now
      split
      . exact .pure _
      . exact .pure _
    . apply Call.Safe.bind (safe_mintTokenPair hP ..)
      intro pair
      exact .pure _

theorem safe_login (hP : ∀ w : Write, w.isRoutine → P w)
    (svc : Services) (dto : LoginDto) (fresh : FreshToken)
    : Safe True P (login svc dto fresh) := by
  unfold login
  apply Call.Safe.bind (.query _)
  intro found
  split
  . exact .throw _
  . exact safe_withLockout hP (safe_finishLogin hP ..)

theorem safe_revokePresented (hP : ∀ w : Write, w.isRoutine → P w) (row : RefreshToken)
    : Safe True P (revokePresented row) := by
  unfold revokePresented AuthCall.now
  apply Call.Safe.bind (.query _)
  intro revokedAt
  apply safe_update
  exact hP _ rfl

theorem safe_refresh (hP : ∀ w : Write, w.isRoutine → P w)
    (svc : Services) (dto : RefreshDto) (fresh : FreshToken)
    : Safe True P (refresh svc dto fresh) := by
  unfold refresh AuthCall.now
  apply Call.Safe.bind (.query _)
  intro found
  cases found with
  | none => exact .throw _
  | some found =>
    obtain ⟨row, user⟩ := found
    by_cases hrevoked : row.revokedAt.isSome
    . simp only [hrevoked, if_true]
      apply Call.Safe.bind
      . apply Call.Safe.transaction
        apply safe_revokeAll
        exact fun _ _ => hP _ rfl
      . intro _
        exact .throw _
    . simp only [hrevoked]
      apply Call.Safe.bind (.query _)
      intro now
      by_cases hexpired : row.expiresAt < now
      . simp only [hexpired, if_true]
        apply Call.Safe.bind (safe_revokePresented hP row)
        intro _
        exact .throw _
      . simp only [hexpired, if_false]
        apply Call.Safe.bind (safe_revokePresented hP row)
        intro _
        cases user with
        | none => exact .throw _
        | some user => exact safe_mintTokenPair hP ..

theorem safe_logout (hP : ∀ w : Write, w.isRoutine → P w) (svc : Services) (dto : RefreshDto)
    : Safe True P (logout svc dto) := by
  unfold logout findRefreshToken
  apply Call.Safe.bind (.query _)
  intro found
  split
  . exact .pure _
  . next row =>
    split
    . exact safe_revokePresented hP row
    . exact .pure _

theorem safe_preauthGuard (svc : Services) (bearer : Option String)
    : Safe True P (preauthGuard svc bearer) := by
  unfold preauthGuard AuthCall.now
  split
  . exact .throw _
  . apply Call.Safe.bind (.query _)
    intro now
    split
    . exact .throw _
    . split
      . exact .throw _
      . exact .pure _

theorem safe_setup (hP : ∀ w : Write, w.isRoutine → P w)
    (svc : Services) (bearer : Option String) (secret : String)
    : Safe True P (setup svc bearer secret) := by
  unfold setup generateSetup AuthCall.findUniqueOrThrow
  apply Call.Safe.bind (safe_preauthGuard svc bearer)
  intro payload
  apply Call.Safe.bind (.check _)
  intro user
  apply Call.Safe.bind
  . apply safe_update
    exact hP _ rfl
  . intro _
    exact .pure _

theorem safe_verifyPin (hP : ∀ w : Write, w.isRoutine → P w)
    (svc : Services) (ownerId : Uuid) (pin : String)
    : Safe True P (verifyPinWithLockout svc ownerId pin) := by
  unfold verifyPinWithLockout
  apply Call.Safe.bind (.query _)
  intro found
  split
  . exact .throw _
  . split
    . exact .throw _
    . exact safe_withLockout hP (.pure _)

theorem safe_confirmReset (hP : ∀ w : Write, w.isRoutine → P w)
    (htoken : ∀ id usedAt, P (.useAuthToken id usedAt))
    (hpassword : ∀ userId passwordHash, P (.setPassword userId passwordHash)) (svc : Services)
    (dto : PasswordResetConfirmDto) (salt : String) : Safe True P (confirmReset svc dto salt) := by
  unfold confirmReset
  apply Call.Safe.transaction
  apply Call.Safe.bind (safe_consumeToken htoken svc dto.token .reset)
  intro row
  apply Call.Safe.bind (safe_execute (hpassword _ _))
  intro _
  apply safe_revokeAll
  exact fun _ _ => hP _ rfl

theorem safe_enable (svc : Services) (bearer : Option String) (dto : TotpEnableDto)
    (fresh : FreshCodes) : Safe True Write.SparesTokens (enable svc bearer dto fresh) := by
  unfold enable enableTotp AuthCall.findUniqueOrThrow AuthCall.now
  apply Call.Safe.bind (safe_preauthGuard svc bearer)
  intro payload
  apply Call.Safe.bind (.check _)
  intro user
  split
  . exact .throw _
  . apply Call.Safe.bind (.query _)
    intro now
    split
    . exact .throw _
    . apply Call.Safe.bind
      . apply safe_update
        simp [Write.SparesTokens]
      . intro _
        exact .pure _

theorem safe_useRecoveryCode (svc : Services) (user : User) (code : String)
    : Safe True Write.SparesTokens (useRecoveryCode svc user code) := by
  unfold useRecoveryCode
  split
  . exact .throw _
  . apply safe_update
    simp [Write.SparesTokens]

theorem safe_verifyTotp (svc : Services) (userId : Uuid) (code : String)
    : Safe True Write.SparesTokens (verifyTotp svc userId code) := by
  unfold verifyTotp AuthCall.findUniqueOrThrow AuthCall.now
  apply Call.Safe.bind (.check _)
  intro user
  split
  . exact .throw _
  . apply Call.Safe.bind (.query _)
    intro now
    split
    . apply Call.Safe.tryCatch
      . apply safe_update
        simp [Write.SparesTokens]
      . intro _
        exact safe_useRecoveryCode svc user code
    . exact safe_useRecoveryCode svc user code

theorem safe_verify (svc : Services) (dto : TotpVerifyDto) (fresh : FreshToken)
    : Safe True Write.SparesTokens (verify svc dto fresh) := by
  unfold verify AuthCall.findUniqueOrThrow AuthCall.now
  apply Call.Safe.bind (.query _)
  intro now
  split
  . exact .throw _
  . split
    . exact .throw _
    . apply Call.Safe.bind (.check _)
      intro user
      apply Call.Safe.bind (safe_assertNotLocked user .login)
      intro _
      apply Call.Safe.bind
      . apply Call.Safe.tryCatch (safe_verifyTotp ..)
        intro _
        apply Call.Safe.bind
        . apply Call.Safe.tryCatch (safe_recordFailure routine_sparesTokens ..)
          intro _
          exact .pure _
        . intro _
          exact .throw _
      . intro _
        apply Call.Safe.bind (safe_recordSuccess routine_sparesTokens ..)
        intro _
        apply Call.Safe.bind (safe_mintTokenPair routine_sparesTokens ..)
        intro pair
        exact .pure _

theorem Request.safe_call (svc : Services) (req : Request)
    (h : ∀ dto salt, req ≠ .confirmReset dto salt) : Safe True Write.SparesTokens (req.call svc) := by
  have hthen : ∀ {S : Type} {p : AuthCall S} {k : S → Response}, Safe True Write.SparesTokens p →
      Safe True Write.SparesTokens (p >>= fun r => pure (k r)) := by
    intro S p k hp
    apply Call.Safe.bind hp
    intro r
    exact .pure _
  cases req with
  | login dto fresh => exact hthen (safe_login routine_sparesTokens svc dto fresh)
  | setup bearer secret => exact hthen (safe_setup routine_sparesTokens svc bearer secret)
  | enable bearer dto fresh => exact hthen (safe_enable svc bearer dto fresh)
  | verify dto fresh => exact hthen (safe_verify svc dto fresh)
  | refresh dto fresh => exact hthen (safe_refresh routine_sparesTokens svc dto fresh)
  | logout dto => exact hthen (safe_logout routine_sparesTokens svc dto)
  | confirmReset dto salt => exact absurd rfl (h dto salt)
  | verifyPin ownerId pin => exact hthen (safe_verifyPin routine_sparesTokens svc ownerId pin)
  | tick ms =>
    apply hthen
    apply safe_update
    exact routine_sparesTokens _ rfl

def Request.sparesFactor : Request → Bool
  | verify .. | enable .. => false
  | _ => true

theorem Request.safe_sparesFactor (hP : ∀ w : Write, w.isRoutine → P w)
    (htoken : ∀ id usedAt, P (.useAuthToken id usedAt))
    (hpassword : ∀ userId passwordHash, P (.setPassword userId passwordHash)) (svc : Services)
    {req : Request} (h : req.sparesFactor) : Safe True P (req.call svc) := by
  have hthen : ∀ {S : Type} {p : AuthCall S} {k : S → Response}, Safe True P p →
      Safe True P (p >>= fun r => pure (k r)) := by
    intro S p k hp
    apply Call.Safe.bind hp
    intro r
    exact .pure _
  cases req with
  | login dto fresh => exact hthen (safe_login hP svc dto fresh)
  | setup bearer secret => exact hthen (safe_setup hP svc bearer secret)
  | enable | verify => cases h
  | refresh dto fresh => exact hthen (safe_refresh hP svc dto fresh)
  | logout dto => exact hthen (safe_logout hP svc dto)
  | confirmReset dto salt => exact hthen (safe_confirmReset hP htoken hpassword svc dto salt)
  | verifyPin ownerId pin => exact hthen (safe_verifyPin hP svc ownerId pin)
  | tick ms => exact hthen (safe_update (hP _ rfl))

end SentryPos.Auth
