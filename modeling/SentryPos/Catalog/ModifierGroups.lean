import SentryPos.Catalog.ChildSets

/-!
This module contains the portal's calls on modifier groups: the update of a group with its
modifiers, and the links between a product and groups. Each of them is one step here.
-/

namespace SentryPos.Catalog.ModifierGroups

open Arg (Fields)

inductive ApiError where
  | notFound (message : String)
  | validationFailed (message : String)
  | tenantScope (message : String)
  | typeError
  | prismaValidation
  | recordNotFound
  | uniqueViolation
  deriving DecidableEq

structure ModifierGroup where
  id : Uuid
  businessId : Uuid
  name : String
  minSelect : ℤ
  maxSelect : ℤ
  deletedAt : Option DateTime
  deriving DecidableEq

structure ModifierData where
  name : String
  priceDelta : ℤ
  deriving DecidableEq

abbrev Modifier := Child ModifierData

/-- The parent of a link is its product, and its column the id of the group. -/
abbrev ProductModifierGroup := Child Uuid

/-- The rows of every table are in the order of their `createdAt`. -/
structure Database where
  businesses : List Business
  products : List Product
  modifierGroups : List ModifierGroup
  modifiers : List Modifier
  productModifierGroups : List ProductModifierGroup
  deriving DecidableEq

/-- `undefined` and `null` are the same in an `id` here. -/
structure ModifierInputDto where
  id : Option Uuid
  name : String
  priceDeltaC : ℤ
  deriving DecidableEq

structure UpdateModifierGroupDto where
  name : Field String
  minSelect : Field ℤ
  maxSelect : Field ℤ
  modifiers : Field (List ModifierInputDto)

structure ModifierGroupResponse where
  group : ModifierGroup
  modifiers : List Modifier
  deriving DecidableEq

structure ProductGroupLinks where
  productId : Uuid
  groupIds : List Uuid
  deriving DecidableEq

namespace Database

variable (db : Database)

def allowedBusinessIds (ownerId : Uuid) : List Uuid :=
  (db.businesses.filter fun b => b.ownerId = ownerId ∧ b.deletedAt.isNone).map (·.id)

def liveModifiers (groupId : Uuid) : List Modifier :=
  db.modifiers.filter (Child.live groupId)

def liveLinks (productId : Uuid) : List ProductModifierGroup :=
  db.productModifierGroups.filter (Child.live productId)

def loadOwnedGroup (ownerId id : Uuid) : Except ApiError ModifierGroupResponse :=
  let owned := db.modifierGroups.find? fun g =>
    g.id = id ∧ g.deletedAt.isNone ∧ g.businessId ∈ db.allowedBusinessIds ownerId
  match owned with
  | none => .error (.notFound "Modifier group not found.")
  | some group => .ok { group, modifiers := db.liveModifiers id }

end Database

def assertMinMax (minSelect maxSelect : ℤ) : Except ApiError Unit :=
  if minSelect > maxSelect then .error (.validationFailed "minSelect must be ≤ maxSelect.")
  else .ok ()

def dataField {α : Type} (key : String) (toArg : α → Arg) : Field α → Fields
  | none => []
  | some none => [(key, .null)]
  | some (some a) => [(key, toArg a)]

def ModifierInputDto.columns (m : ModifierInputDto) : Fields :=
  [("name", .str m.name), ("priceDelta", .num m.priceDeltaC)]

def ModifierInputDto.data (m : ModifierInputDto) : ModifierData where
  name := m.name
  priceDelta := m.priceDeltaC

def buildModifierReplaceSet (current : List Modifier) (submitted : List ModifierInputDto)
    : Except ApiError Arg :=
  (buildReplaceSet "modifier" (·.id) ModifierInputDto.columns (current.map (·.id)) submitted).mapError
    .validationFailed

/-- The nested writes of a body. A `null` is not a list to search for unknown ids. -/
def UpdateModifierGroupDto.nested (dto : UpdateModifierGroupDto) (current : List Modifier)
    : Except ApiError Fields :=
  match dto.modifiers with
  | none => .ok []
  | some none => .error .typeError
  | some (some submitted) => do
    let nested ← buildModifierReplaceSet current submitted
    return [("modifiers", nested)]

/-! What the client reads in the data of an update. -/

def ModifierData.ofArg (data : Arg) : Option ModifierData :=
  match data.get "name", data.get "priceDelta" with
  | some (.str name), some (.num priceDelta) => some { name, priceDelta }
  | _, _ => none

def readColumn {α : Type} (data : Fields) (key : String) (ofArg : Arg → Option α)
    : Except ApiError (Option α) :=
  match Fields.get data key with
  | none => .ok none
  | some value =>
    match ofArg value with
    | some a => .ok (some a)
    | none => .error .prismaValidation

def stringOfArg : Arg → Option String
  | .str s => some s
  | _ => none

def intOfArg : Arg → Option ℤ
  | .num n => some n
  | _ => none

structure GroupUpdate where
  name : Option String
  minSelect : Option ℤ
  maxSelect : Option ℤ

def readGroup (data : Fields) : Except ApiError GroupUpdate := do
  let name ← readColumn data "name" stringOfArg
  let minSelect ← readColumn data "minSelect" intOfArg
  let maxSelect ← readColumn data "maxSelect" intOfArg
  return { name, minSelect, maxSelect }

def GroupUpdate.apply (u : GroupUpdate) (g : ModifierGroup) : ModifierGroup :=
  { g with
    name := u.name.getD g.name
    minSelect := u.minSelect.getD g.minSelect
    maxSelect := u.maxSelect.getD g.maxSelect }

def ofChildError : ChildError → ApiError
  | .notFound => .recordNotFound
  | .uniqueViolation => .uniqueViolation

def writeChildren {δ : Type} (ofArg : Arg → Option δ) (indexes : Indexes δ) (key : String)
    (parentId : Uuid) (newIds : ℕ → Uuid) (data : Fields) (rows : List (Child δ))
    : Except ApiError (List (Child δ)) :=
  match Fields.get data key with
  | none => .ok rows
  | some nested =>
    match (childReader ofArg parentId newIds).childWrites nested with
    | none => .error .prismaValidation
    | some writes => (applyWrites indexes parentId writes rows).mapError ofChildError

/-- `modifierGroup.update` on the scoped client. -/
def updateGroup (ownerId id : Uuid) (newIds : ℕ → Uuid) (now : DateTime) (data : Fields)
    (db : Database) : Except ApiError Database := do
  let inScope := db.modifierGroups.any fun g =>
    g.id = id ∧ g.businessId ∈ db.allowedBusinessIds ownerId
  if inScope then
    let data := (rewriteFields now .modifierGroup data).1
    let group ← readGroup data
    let modifiers ←
      writeChildren ModifierData.ofArg [Child.key] "modifiers" id newIds data db.modifiers
    return { db with
      modifierGroups := Table.modify ModifierGroup.id db.modifierGroups id group.apply
      modifiers }
  else
    throw (.tenantScope "modifierGroup.update target not found within scope")

def update (ownerId id : Uuid) (dto : UpdateModifierGroupDto) (newIds : ℕ → Uuid) (now : DateTime)
    (db : Database) : Except ApiError (ModifierGroupResponse × Database) := do
  let current ← db.loadOwnedGroup ownerId id
  assertMinMax (dto.minSelect.join.getD current.group.minSelect)
    (dto.maxSelect.join.getD current.group.maxSelect)
  let nested ← dto.nested current.modifiers
  let data := dataField "name" .str dto.name ++ dataField "minSelect" .num dto.minSelect
    ++ dataField "maxSelect" .num dto.maxSelect ++ nested
  if data.isEmpty then
    return (current, db)
  let db ← updateGroup ownerId id newIds now data db
  let response ← db.loadOwnedGroup ownerId id
  return (response, db)

/-! The links of a product. -/

/-- `new Set(values)`: the first of equal values keeps its place. -/
def distinct (values : List Uuid) : List Uuid :=
  values.reverse.dedup.reverse

/-- `new Map(allLinks.map((l) => [l.groupId, l]))`: the last of two links with one key stays. -/
def byGroup (allLinks : List ProductModifierGroup) (groupId : Uuid) : Option ProductModifierGroup :=
  allLinks.reverse.find? fun l => l.data = groupId

def connectGroup (groupId : Uuid) : Arg :=
  .obj [("group", .obj [("connect", whereId groupId)])]

def buildLinkReplaceSet (allLinks : List ProductModifierGroup) (desired : List Uuid) : Option Arg :=
  let desiredSet := distinct desired
  let create := desiredSet.filter fun gid => (byGroup allLinks gid).isNone
  let update := desiredSet.filterMap fun gid =>
    ((byGroup allLinks gid).filter fun link => link.deletedAt.isSome).map (·.id)
  let del := (allLinks.filter fun link => link.deletedAt.isNone ∧ link.data ∉ desiredSet).map (·.id)
  if create.isEmpty && update.isEmpty && del.isEmpty then
    none
  else
    some (replaceArgs (create.map connectGroup) (update.map fun id => (id, [("deletedAt", .null)]))
      del)

def linkOfArg (data : Arg) : Option Uuid := do
  let group ← data.get "group"
  let connect ← group.get "connect"
  uniqueId connect

/-- The unique index on `(product_id, group_id)` covers the deleted links as well. -/
def linkIndexes : Indexes Uuid :=
  [Child.key, fun l => [l.parentId, l.data]]

/-- `product.update` on the scoped client, with links only. -/
def updateLinks (ownerId productId : Uuid) (newIds : ℕ → Uuid) (now : DateTime) (nested : Arg)
    (db : Database) : Except ApiError Database := do
  let inScope := db.products.any fun p =>
    p.id = productId ∧ p.businessId ∈ db.allowedBusinessIds ownerId
  if inScope then
    let data := (rewriteFields now .product [("productModifierGroups", nested)]).1
    let productModifierGroups ← writeChildren linkOfArg linkIndexes "productModifierGroups" productId
      newIds data db.productModifierGroups
    return { db with productModifierGroups }
  else
    throw (.tenantScope "product.update target not found within scope")

def setProductGroups (ownerId productId : Uuid) (groupIds : List Uuid) (newIds : ℕ → Uuid)
    (now : DateTime) (db : Database) : Except ApiError (ProductGroupLinks × Database) := do
  let allowed := db.allowedBusinessIds ownerId
  let found := db.products.find? fun p =>
    p.id = productId ∧ p.deletedAt.isNone ∧ p.businessId ∈ allowed
  match found with
  | none => throw (.notFound "Product not found.")
  | some product =>
    let foundIds := (db.modifierGroups.filter fun g =>
      g.id ∈ groupIds ∧ g.businessId = product.businessId ∧ g.businessId ∈ allowed
        ∧ g.deletedAt.isNone).map (·.id)
    match groupIds.find? (· ∉ foundIds) with
    | some missing =>
      throw (.validationFailed s!"Modifier group \"{missing}\" does not exist in this business.")
    | none =>
      let allLinks := db.productModifierGroups.filter fun l => l.parentId = productId
      let db ← match buildLinkReplaceSet allLinks groupIds with
        | none => pure db
        | some nested => updateLinks ownerId productId newIds now nested db
      return ({ productId, groupIds := (db.liveLinks productId).map (·.data) }, db)

/-- A call that fails leaves the tables as they are. -/
def step {α : Type} (call : Database → Except ApiError (α × Database)) (db : Database)
    : Except ApiError α × Database :=
  match call db with
  | .ok (response, db) => (.ok response, db)
  | .error e => (.error e, db)

end SentryPos.Catalog.ModifierGroups
