import Mathlib.Data.List.Basic

/-!
This module contains the models of the schema and the relations between them.
-/

namespace SentryPos

inductive Model where
  | owner
  | user
  | authToken
  | refreshToken
  | business
  | branch
  | terminal
  | category
  | product
  | productVariant
  | modifierGroup
  | modifier
  | productModifierGroup
  | discount
  | branchStock
  | stockMovement
  | shift
  | shiftCashMovement
  | stockCount
  | stockCountItem
  | stockBatch
  | sale
  | saleItem
  | salePayment
  | notification
  | auditLog
  deriving DecidableEq

/-- A field of a model that is a relation, with the column that backs it if the model has it. -/
structure RelationField where
  field : String
  target : Model
  isList : Bool
  fkColumn : Option String
  deriving DecidableEq

def Model.relations : Model → List RelationField
  | .owner => [
      ⟨"users", .user, true, none⟩,
      ⟨"businesses", .business, true, none⟩]
  | .user => [
      ⟨"owner", .owner, false, some "ownerId"⟩,
      ⟨"authTokens", .authToken, true, none⟩,
      ⟨"refreshTokens", .refreshToken, true, none⟩]
  | .authToken => [
      ⟨"user", .user, false, some "userId"⟩]
  | .refreshToken => [
      ⟨"user", .user, false, some "userId"⟩]
  | .business => [
      ⟨"owner", .owner, false, some "ownerId"⟩,
      ⟨"branches", .branch, true, none⟩,
      ⟨"categories", .category, true, none⟩,
      ⟨"products", .product, true, none⟩,
      ⟨"modifierGroups", .modifierGroup, true, none⟩,
      ⟨"discounts", .discount, true, none⟩]
  | .branch => [
      ⟨"business", .business, false, some "businessId"⟩,
      ⟨"terminals", .terminal, true, none⟩,
      ⟨"branchStocks", .branchStock, true, none⟩,
      ⟨"stockMovements", .stockMovement, true, none⟩,
      ⟨"shifts", .shift, true, none⟩,
      ⟨"stockCounts", .stockCount, true, none⟩,
      ⟨"sales", .sale, true, none⟩]
  | .terminal => [
      ⟨"branch", .branch, false, some "branchId"⟩,
      ⟨"shifts", .shift, true, none⟩,
      ⟨"sales", .sale, true, none⟩]
  | .category => [
      ⟨"business", .business, false, some "businessId"⟩,
      ⟨"products", .product, true, none⟩]
  | .product => [
      ⟨"business", .business, false, some "businessId"⟩,
      ⟨"category", .category, false, some "categoryId"⟩,
      ⟨"variants", .productVariant, true, none⟩,
      ⟨"productModifierGroups", .productModifierGroup, true, none⟩,
      ⟨"branchStocks", .branchStock, true, none⟩,
      ⟨"stockMovements", .stockMovement, true, none⟩,
      ⟨"stockBatches", .stockBatch, true, none⟩,
      ⟨"stockCountItems", .stockCountItem, true, none⟩]
  | .productVariant => [
      ⟨"product", .product, false, some "productId"⟩,
      ⟨"branchStocks", .branchStock, true, none⟩,
      ⟨"stockMovements", .stockMovement, true, none⟩,
      ⟨"stockBatches", .stockBatch, true, none⟩,
      ⟨"stockCountItems", .stockCountItem, true, none⟩]
  | .modifierGroup => [
      ⟨"business", .business, false, some "businessId"⟩,
      ⟨"modifiers", .modifier, true, none⟩,
      ⟨"productModifierGroups", .productModifierGroup, true, none⟩]
  | .modifier => [
      ⟨"group", .modifierGroup, false, some "groupId"⟩]
  | .productModifierGroup => [
      ⟨"product", .product, false, some "productId"⟩,
      ⟨"group", .modifierGroup, false, some "groupId"⟩]
  | .discount => [
      ⟨"business", .business, false, some "businessId"⟩,
      ⟨"sales", .sale, true, none⟩,
      ⟨"saleItems", .saleItem, true, none⟩]
  | .branchStock => [
      ⟨"branch", .branch, false, some "branchId"⟩,
      ⟨"product", .product, false, some "productId"⟩,
      ⟨"variant", .productVariant, false, some "variantId"⟩]
  | .stockMovement => [
      ⟨"branch", .branch, false, some "branchId"⟩,
      ⟨"product", .product, false, some "productId"⟩,
      ⟨"variant", .productVariant, false, some "variantId"⟩]
  | .shift => [
      ⟨"branch", .branch, false, some "branchId"⟩,
      ⟨"terminal", .terminal, false, some "terminalId"⟩,
      ⟨"cashMovements", .shiftCashMovement, true, none⟩,
      ⟨"sales", .sale, true, none⟩]
  | .shiftCashMovement => [
      ⟨"shift", .shift, false, some "shiftId"⟩]
  | .stockCount => [
      ⟨"branch", .branch, false, some "branchId"⟩,
      ⟨"items", .stockCountItem, true, none⟩]
  | .stockCountItem => [
      ⟨"stockCount", .stockCount, false, some "stockCountId"⟩,
      ⟨"product", .product, false, some "productId"⟩,
      ⟨"variant", .productVariant, false, some "variantId"⟩]
  | .stockBatch => [
      ⟨"product", .product, false, some "productId"⟩,
      ⟨"variant", .productVariant, false, some "variantId"⟩]
  | .sale => [
      ⟨"branch", .branch, false, some "branchId"⟩,
      ⟨"terminal", .terminal, false, some "terminalId"⟩,
      ⟨"shift", .shift, false, some "shiftId"⟩,
      ⟨"discount_rel", .discount, false, some "discountId"⟩,
      ⟨"items", .saleItem, true, none⟩,
      ⟨"payments", .salePayment, true, none⟩]
  | .saleItem => [
      ⟨"sale", .sale, false, some "saleId"⟩,
      ⟨"discount_rel", .discount, false, some "discountId"⟩]
  | .salePayment => [
      ⟨"sale", .sale, false, some "saleId"⟩]
  | .notification => []
  | .auditLog => []

/-- `RELATION_TARGET` -/
def Model.relationTarget (model : Model) (field : String) : Option Model :=
  (model.relations.find? fun r => r.field = field).map (·.target)

end SentryPos
