import SentryPos.Auth.Safe
import SentryPos.Platform.Owners

/-!
This module contains the acceptance of an invite with the demo business that it seeds, and the reset
of a password.
-/

namespace SentryPos.Platform

open ReadCommitted

structure SeedCategory where
  key : String
  name : String
  sortOrder : ℤ

structure SeedModifier where
  name : String
  priceDelta : ℤ

structure SeedModifierGroup where
  key : String
  name : String
  minSelect : ℤ
  maxSelect : ℤ
  modifiers : List SeedModifier

structure SeedDiscount where
  name : String
  kind : DiscountKind
  value : ℤ
  appliesTo : DiscountAppliesTo
  active : Bool

structure SeedVariant where
  name : String
  sku : Option String
  barcode : Option String
  price : ℤ

structure SeedProduct where
  key : String
  categoryKey : String
  name : String
  sku : String
  barcode : Option String
  price : ℤ
  soldBy : SoldBy
  trackStock : Bool
  lowStockThreshold : Option ℚ
  variants : List SeedVariant
  modifierGroupKeys : List String

structure SeedStock where
  productKey : String
  qty : Qty

/-- The definition of a demo catalog. -/
structure DemoCatalog where
  categories : List SeedCategory
  modifierGroups : List SeedModifierGroup
  discounts : List SeedDiscount
  products : List SeedProduct
  stock : List SeedStock

/-- The identifiers of the rows of a demo business, those of its catalog by their keys. -/
structure FreshDemo where
  businessId : Uuid
  branchId : Uuid
  categoryId : String → Uuid
  groupId : String → Uuid
  productId : String → Uuid

def DEMO_BUSINESS_NAME : String := "Kape Diaria (Demo)"

def demoBusiness (ownerId : Uuid) (fresh : FreshDemo) : Business where
  id := fresh.businessId
  ownerId
  name := DEMO_BUSINESS_NAME
  isDemo := true
  deletedAt := none

def demoBranch (fresh : FreshDemo) : Branch where
  id := fresh.branchId
  businessId := fresh.businessId
  name := "Marikit"
  code := "MKT"
  deletedAt := none

def seedRow (row : CatalogRow) : PlatformCall Unit :=
  PlatformCall.execute .create (.insertCatalog row)

def seedModifierGroup (fresh : FreshDemo) (group : SeedModifierGroup) : PlatformCall Unit := do
  seedRow (.modifierGroup (fresh.groupId group.key) fresh.businessId group.name group.minSelect
    group.maxSelect)
  group.modifiers.forM fun m =>
    seedRow (.modifier (fresh.groupId group.key) m.name m.priceDelta)

def seedProduct (catalog : DemoCatalog) (fresh : FreshDemo) (prod : SeedProduct)
    : PlatformCall Unit := do
  if catalog.categories.all fun cat => cat.key ≠ prod.categoryKey then
    throw (.demoSeed s!"demo seed: unknown category {prod.categoryKey}")
  prod.modifierGroupKeys.forM fun groupKey => do
    if catalog.modifierGroups.all fun group => group.key ≠ groupKey then
      throw (.demoSeed s!"demo seed: unknown modifier group {groupKey}")
  seedRow (.product (fresh.productId prod.key) fresh.businessId (fresh.categoryId prod.categoryKey)
    prod.name prod.sku prod.barcode prod.price prod.soldBy prod.trackStock prod.lowStockThreshold)
  prod.variants.forM fun v =>
    seedRow (.variant (fresh.productId prod.key) v.name v.sku v.barcode v.price)
  prod.modifierGroupKeys.forM fun groupKey =>
    seedRow (.productModifierGroup (fresh.productId prod.key) (fresh.groupId groupKey))

def seedStock (catalog : DemoCatalog) (fresh : FreshDemo) (level : SeedStock)
    : PlatformCall Unit := do
  if catalog.products.all fun prod => prod.key ≠ level.productKey then
    throw (.demoSeed s!"demo seed: unknown product {level.productKey}")
  seedRow (.branchStock fresh.branchId (fresh.productId level.productKey) level.qty)

def seedContents (catalog : DemoCatalog) (ownerId : Uuid) (fresh : FreshDemo)
    : PlatformCall Unit := do
  PlatformCall.execute .create (.insertBranch (demoBranch fresh))
  catalog.categories.forM fun cat =>
    seedRow (.category (fresh.categoryId cat.key) fresh.businessId cat.name cat.sortOrder)
  catalog.modifierGroups.forM (seedModifierGroup fresh)
  catalog.discounts.forM fun disc =>
    seedRow (.discount fresh.businessId disc.name disc.kind disc.value disc.appliesTo disc.active)
  catalog.products.forM (seedProduct catalog fresh)
  catalog.stock.forM (seedStock catalog fresh)
  PlatformCall.audit {
    actorType := .owner
    actorId := some ownerId
    ownerId := some ownerId
    businessId := some fresh.businessId
    action := "business.demo_seeded"
    entityType := "business"
    entityId := some fresh.businessId
  }

def seedDemoBusiness (catalog : DemoCatalog) (ownerId : Uuid) (fresh : FreshDemo)
    : PlatformCall Unit := do
  PlatformCall.execute .create (.insertBusiness (demoBusiness ownerId fresh))
  seedContents catalog ownerId fresh

structure InviteAcceptDto where
  token : String
  password : String
  token_ne : token ≠ ""
  password_length : 8 ≤ password.length

def setPassword (userId : Uuid) (passwordHash : String) : PlatformCall (Option Uuid) := do
  PlatformCall.execute .update (.auth (.setPassword userId passwordHash))
  Call.queryOnTx .findUser fun view => (view.auth.user? userId).bind (·.ownerId)

def activateOwner (catalog : DemoCatalog) (ownerId : Uuid) (fresh : FreshDemo)
    : PlatformCall Unit := do
  PlatformCall.execute .update (.setStatus ownerId .active none)
  seedDemoBusiness catalog ownerId fresh

def finishInvite (catalog : DemoCatalog) (fresh : FreshDemo) (userId : Uuid)
    (ownerId : Option Uuid) : PlatformCall Unit := do
  match ownerId with
  | some ownerId => activateOwner catalog ownerId fresh
  | none => pure ()
  logAuth "auth.invite_accepted" userId ownerId

/-- `salt` is the one of the new password's hash. -/
def acceptInvite (svc : Auth.Services) (catalog : DemoCatalog) (dto : InviteAcceptDto)
    (salt : String) (fresh : FreshDemo) : PlatformCall Unit := do
  let passwordHash := svc.hashSecret salt dto.password
  Call.transaction .commit do
    let row ← Call.lift authPart (Auth.consumeToken svc dto.token .invite)
    let ownerId ← setPassword row.userId passwordHash
    finishInvite catalog fresh row.userId ownerId

def requestReset (svc : Auth.Services) (email : String) (fresh : FreshAuthToken)
    : PlatformCall Unit := do
  match ← Call.query .findUser fun db => db.auth.users.find? fun u => u.email = email with
  | none => return
  | some user =>
    let now ← PlatformCall.now
    PlatformCall.update .create <| .insertAuthToken {
      id := fresh.id
      kind := .reset
      tokenHash := svc.sha256 fresh.rawToken
      userId := user.id
      expiresAt := now + RESET_TTL_MS
      usedAt := none
    }

def finishReset (userId : Uuid) (ownerId : Option Uuid) : PlatformCall Unit := do
  Call.lift authPart (Auth.revokeAll userId)
  logAuth "auth.password_reset" userId ownerId

def confirmReset (svc : Auth.Services) (dto : Auth.PasswordResetConfirmDto) (salt : String)
    : PlatformCall Unit := do
  let passwordHash := svc.hashSecret salt dto.password
  Call.transaction .commit do
    let row ← Call.lift authPart (Auth.consumeToken svc dto.token .reset)
    let ownerId ← setPassword row.userId passwordHash
    finishReset row.userId ownerId

/-- The write creates a row of the contents of a demo business, or an audit row. -/
def Write.IsContent : Write → Prop
  | insertBranch _ | insertCatalog _ | insertAudit _ => True
  | _ => False

section Safe

variable {ends : Prop} {P : Write → Prop}

theorem safe_seedRow (row : CatalogRow) : Safe ends Write.IsContent (seedRow row) :=
  safe_execute trivial

theorem safe_seedModifierGroup (fresh : FreshDemo) (group : SeedModifierGroup)
    : Safe ends Write.IsContent (seedModifierGroup fresh group) := by
  unfold seedModifierGroup
  apply Call.Safe.bind (safe_seedRow _)
  intro _
  apply Call.Safe.forM
  intro m _
  exact safe_seedRow _

theorem safe_seedProduct (catalog : DemoCatalog) (fresh : FreshDemo) (prod : SeedProduct)
    : Safe ends Write.IsContent (seedProduct catalog fresh prod) := by
  unfold seedProduct
  dsimp only
  split
  . exact .throw _
  . apply Call.Safe.bind
    . apply Call.Safe.forM
      intro groupKey _
      split
      . exact .throw _
      . exact .pure _
    . intro _
      apply Call.Safe.bind (safe_seedRow _)
      intro _
      apply Call.Safe.bind
      . apply Call.Safe.forM
        intro v _
        exact safe_seedRow _
      . intro _
        apply Call.Safe.forM
        intro groupKey _
        exact safe_seedRow _

theorem safe_seedStock (catalog : DemoCatalog) (fresh : FreshDemo) (level : SeedStock)
    : Safe ends Write.IsContent (seedStock catalog fresh level) := by
  unfold seedStock
  dsimp only
  split
  . exact .throw _
  . exact safe_seedRow _

theorem safe_seedContents (catalog : DemoCatalog) (ownerId : Uuid) (fresh : FreshDemo)
    : Safe ends Write.IsContent (seedContents catalog ownerId fresh) := by
  unfold seedContents
  apply Call.Safe.bind (safe_execute trivial)
  intro _
  apply Call.Safe.bind
  . apply Call.Safe.forM
    intro cat _
    exact safe_seedRow _
  . intro _
    apply Call.Safe.bind
    . apply Call.Safe.forM
      intro group _
      exact safe_seedModifierGroup fresh group
    . intro _
      apply Call.Safe.bind
      . apply Call.Safe.forM
        intro disc _
        exact safe_seedRow _
      . intro _
        apply Call.Safe.bind
        . apply Call.Safe.forM
          intro prod _
          exact safe_seedProduct catalog fresh prod
        . intro _
          apply Call.Safe.bind
          . apply Call.Safe.forM
            intro level _
            exact safe_seedStock catalog fresh level
          . intro _
            exact safe_audit (fun _ => trivial) _

theorem safe_setPassword {userId : Uuid} {passwordHash : String}
    (h : P (.auth (.setPassword userId passwordHash)))
    : Safe ends P (setPassword userId passwordHash) := by
  unfold setPassword
  apply Call.Safe.bind (safe_execute h)
  intro _
  exact .queryOnTx _

theorem safe_consumeToken (h : ∀ w, P w) (svc : Auth.Services) (token : String)
    (kind : Auth.AuthTokenKind)
    : Safe ends P (Call.lift authPart (Auth.consumeToken svc token kind)) := by
  have hconsume : Auth.Safe ends (fun _ => True) (Auth.consumeToken svc token kind) :=
    Auth.safe_consumeToken (fun _ _ => trivial) svc token kind
  exact safe_lift (fun w _ => h _) hconsume

theorem safe_finishInvite (h : ∀ w, P w) (catalog : DemoCatalog) (fresh : FreshDemo)
    (userId : Uuid) (ownerId : Option Uuid)
    : Safe ends P (finishInvite catalog fresh userId ownerId) := by
  unfold finishInvite
  cases ownerId with
  | none => exact safe_audit (fun _ => h _) _
  | some ownerId =>
    apply Call.Safe.bind
    . apply Call.Safe.bind (safe_execute (h _))
      intro _
      apply Call.Safe.bind (safe_execute (h _))
      intro _
      exact (safe_seedContents ..).mono (fun h => h) fun w _ => h w
    . intro _
      exact safe_audit (fun _ => h _) _

theorem safe_finishReset (haudit : ∀ row, P (.insertAudit row))
    (hrevoke : ∀ id revokedAt, P (.auth (.revokeRefreshToken id revokedAt))) (userId : Uuid)
    (ownerId : Option Uuid) : Safe ends P (finishReset userId ownerId) := by
  have hrevokeAll : Auth.Safe ends (fun w => P (.auth w)) (Auth.revokeAll userId) :=
    Auth.safe_revokeAll hrevoke userId
  apply Call.Safe.bind (safe_lift (fun w hw => hw) hrevokeAll)
  intro _
  exact safe_audit haudit _

theorem safe_acceptInvite (h : ∀ w, P w) (svc : Auth.Services) (catalog : DemoCatalog)
    (dto : InviteAcceptDto) (salt : String) (fresh : FreshDemo)
    : Safe True P (acceptInvite svc catalog dto salt fresh) := by
  unfold acceptInvite
  apply Call.Safe.transaction
  apply Call.Safe.bind (safe_consumeToken h ..)
  intro row
  apply Call.Safe.bind (safe_setPassword (h _))
  intro ownerId
  exact safe_finishInvite h ..

theorem safe_requestReset (htoken : ∀ row : Auth.AuthToken, row.usedAt = none → P (.insertAuthToken row))
    (svc : Auth.Services) (email : String) (fresh : FreshAuthToken)
    : Safe True P (requestReset svc email fresh) := by
  unfold requestReset PlatformCall.now
  apply Call.Safe.bind (.query _)
  intro found
  cases found with
  | none => exact .pure _
  | some user =>
    apply Call.Safe.bind (.query _)
    intro now
    exact safe_update (htoken _ rfl)

theorem safe_confirmReset (h : ∀ w, P w) (svc : Auth.Services) (dto : Auth.PasswordResetConfirmDto)
    (salt : String) : Safe True P (confirmReset svc dto salt) := by
  unfold confirmReset
  apply Call.Safe.transaction
  apply Call.Safe.bind (safe_consumeToken h ..)
  intro row
  apply Call.Safe.bind (safe_setPassword (h _))
  intro ownerId
  exact safe_finishReset (fun _ => h _) (fun _ _ => h _) ..

end Safe

end SentryPos.Platform
