import SentryPos.Js.Canonical
import SentryPos.Pos.CompleteSale

/-!
This module contains what the check of the totals of a draft compares: `canonical` tells two JSON values
apart unless they differ in nothing but the order of their keys.
-/

namespace SentryPos

open ReadCommitted
open Json (Same SameValues SameFields)

/-- `canonical`, with the comparison of the keys. -/
def canonicalBy (localeCompare : String → String → ℤ) (value : Json) : List Char :=
  (Json.arrangeKeys (Json.sortEntries localeCompare) value).stringify

def IsLineTotals (l : LineTotals) (value : Json) : Prop :=
  ∃ fields, value = .obj fields ∧ fields.Perm [
    ("lineId", .num l.lineId),
    ("grossC", .ofNumber l.grossC),
    ("promoDiscountC", .ofNumber l.promoDiscountC),
    ("scPwdDiscountC", .ofNumber l.scPwdDiscountC),
    ("applied", Applied.toJson l.applied),
    ("netC", .ofNumber l.netC)]

/-- An object with the fields of the totals of a cart, in any order, and with its lines. -/
def IsTotals (t : CartTotals) (value : Json) : Prop :=
  ∃ fields lines, value = .obj fields ∧ List.Forall₂ IsLineTotals t.lines lines ∧ fields.Perm [
    ("lines", .arr lines),
    ("subtotalC", .ofNumber t.subtotalC),
    ("promoDiscountC", .ofNumber t.promoDiscountC),
    ("scPwdDiscountC", .ofNumber t.scPwdDiscountC),
    ("discountedSubtotalC", .ofNumber t.discountedSubtotalC),
    ("serviceChargeC", .ofNumber t.serviceChargeC),
    ("totalC", .ofNumber t.totalC),
    ("vatExemptSalesC", .ofNumber t.vatExemptSalesC),
    ("vatC", .ofNumber t.vatC),
    ("vatableSalesC", .ofNumber t.vatableSalesC)]

theorem sameFields_iff {fs gs : Json.Fields}
    : SameFields fs gs ↔
        ∃ gs', gs.Perm gs' ∧ List.Forall₂ (fun f g => f.1 = g.1 ∧ Same f.2 g.2) fs gs' := by
  constructor
  . intro h
    induction fs generalizing gs with
    | nil =>
      cases h
      exact ⟨[], .rfl, .nil⟩
    | cons f fs ih =>
      cases h with
      | @cons key v w _ before after hv hfs =>
        obtain ⟨gs', hperm, hpairs⟩ := ih hfs
        exact ⟨(key, w) :: gs', List.perm_middle.trans (hperm.cons _), .cons ⟨rfl, hv⟩ hpairs⟩
  . rintro ⟨gs', hperm, hpairs⟩
    induction hpairs generalizing gs with
    | nil =>
      rw [List.perm_nil.mp hperm]
      exact .nil
    | @cons f g fs gs' hfield _ ih =>
      obtain ⟨key, v⟩ := f
      obtain ⟨key', w⟩ := g
      obtain ⟨rfl, hv⟩ := hfield
      have hmem : (key, w) ∈ gs := hperm.mem_iff.mpr List.mem_cons_self
      obtain ⟨before, after, rfl⟩ := List.append_of_mem hmem
      exact .cons hv (ih (List.perm_middle.symm.trans hperm).cons_inv)

theorem sameValues_iff {vs ws : List Json} : SameValues vs ws ↔ List.Forall₂ Same vs ws := by
  constructor
  . intro h
    induction vs generalizing ws with
    | nil =>
      cases h
      exact .nil
    | cons v vs ih =>
      cases h with
      | cons hv hvs => exact .cons hv (ih hvs)
  . intro h
    induction h with
    | nil => exact .nil
    | cons hv _ ih => exact .cons hv ih

/-- A value that only itself is the same as: it is no array and no object. -/
def Leaf (v : Json) : Prop :=
  ∀ w, Same v w ↔ w = v

theorem leaf_num (q : ℚ) : Leaf (.num q) := by
  intro w
  constructor
  . intro h
    cases h
    rfl
  . rintro rfl
    exact .num q

theorem leaf_null : Leaf .null := by
  intro w
  constructor
  . intro h
    cases h
    rfl
  . rintro rfl
    exact .null

theorem leaf_str (s : String) : Leaf (.str s) := by
  intro w
  constructor
  . intro h
    cases h
    rfl
  . rintro rfl
    exact .str s

theorem leaf_ofNumber (n : JsNumber) : Leaf (.ofNumber n) := by
  cases n with
  | fin q => exact leaf_num q
  | nan | posInf | negInf => exact leaf_null

theorem leaf_applied (applied : Option Applied) : Leaf (Applied.toJson applied) := by
  cases applied with
  | none => exact leaf_null
  | some a =>
    cases a with
    | promo => exact leaf_str "promo"
    | scpwd => exact leaf_str "scpwd"

theorem same_arr {vs : List Json} {w : Json}
    : Same (.arr vs) w ↔ ∃ ws, w = .arr ws ∧ List.Forall₂ Same vs ws := by
  constructor
  . intro h
    cases h with
    | arr hvalues => exact ⟨_, rfl, sameValues_iff.mp hvalues⟩
  . rintro ⟨ws, rfl, hvalues⟩
    exact .arr (sameValues_iff.mpr hvalues)

theorem same_obj {fs : Json.Fields} {w : Json}
    : Same (.obj fs) w ↔ ∃ gs, w = .obj gs ∧ SameFields fs gs := by
  constructor
  . intro h
    cases h with
    | obj hfields => exact ⟨_, rfl, hfields⟩
  . rintro ⟨gs, rfl, hfields⟩
    exact .obj hfields

section Leaves

variable {fs gs : Json.Fields} (hleaf : ∀ f ∈ fs, Leaf f.2)

include hleaf

theorem forall₂_leaves : List.Forall₂ (fun f g => f.1 = g.1 ∧ Same f.2 g.2) fs gs ↔ gs = fs := by
  induction fs generalizing gs with
  | nil => simp
  | cons f fs ih =>
    have hf := hleaf f List.mem_cons_self
    have hfs := fun f hf => hleaf f (List.mem_cons_of_mem _ hf)
    constructor
    . intro h
      cases h with
      | cons hfield hrest =>
        rw [(ih hfs).mp hrest, Prod.ext hfield.1.symm ((hf _).mp hfield.2)]
    . rintro rfl
      exact .cons ⟨rfl, (hf _).mpr rfl⟩ ((ih hfs).mpr rfl)

theorem sameFields_leaves : SameFields fs gs ↔ gs.Perm fs := by
  rw [sameFields_iff]
  constructor
  . rintro ⟨gs', hperm, hpairs⟩
    rwa [(forall₂_leaves hleaf).mp hpairs] at hperm
  . intro hperm
    exact ⟨fs, hperm, (forall₂_leaves hleaf).mpr rfl⟩

theorem sameFields_cons_leaves {key : String} {v : Json}
    : SameFields ((key, v) :: fs) gs ↔ ∃ w, Same v w ∧ gs.Perm ((key, w) :: fs) := by
  rw [sameFields_iff]
  constructor
  . rintro ⟨_, hperm, hpairs⟩
    cases hpairs with
    | @cons _ g _ gs' hfield hrest =>
      obtain ⟨hkey, hv⟩ := hfield
      rw [(forall₂_leaves hleaf).mp hrest, show g = (key, g.2) from Prod.ext hkey.symm rfl] at hperm
      exact ⟨g.2, hv, hperm⟩
  . rintro ⟨w, hv, hperm⟩
    exact ⟨(key, w) :: fs, hperm, .cons ⟨rfl, hv⟩ ((forall₂_leaves hleaf).mpr rfl)⟩

end Leaves

theorem same_lineTotals (l : LineTotals) (w : Json) : Same l.toJson w ↔ IsLineTotals l w := by
  unfold LineTotals.toJson IsLineTotals
  rw [same_obj]
  apply exists_congr
  intro fields
  rw [sameFields_leaves]
  simp [leaf_num, leaf_ofNumber, leaf_applied]

theorem same_totals (t : CartTotals) (w : Json) : Same t.toJson w ↔ IsTotals t w := by
  have hlines : ∀ {ws}, List.Forall₂ Same (t.lines.map LineTotals.toJson) ws
      ↔ List.Forall₂ IsLineTotals t.lines ws := by
    intro ws
    rw [List.forall₂_map_left_iff]
    simp only [same_lineTotals]
  unfold CartTotals.toJson IsTotals
  rw [same_obj]
  apply exists_congr
  intro fields
  rw [sameFields_cons_leaves (by simp [leaf_ofNumber])]
  constructor
  . rintro ⟨rfl, w, hw, hperm⟩
    obtain ⟨lines, rfl, hpairs⟩ := same_arr.mp hw
    exact ⟨lines, rfl, hlines.mp hpairs, hperm⟩
  . rintro ⟨lines, rfl, hpairs, hperm⟩
    exact ⟨rfl, .arr lines, same_arr.mpr ⟨lines, rfl, hlines.mpr hpairs⟩, hperm⟩

/-! The totals have each field once. -/

theorem distinctKeys_ofNumber (n : JsNumber) : (Json.ofNumber n).DistinctKeys := by
  cases n <;> trivial

theorem distinctKeys_applied (applied : Option Applied) : (Applied.toJson applied).DistinctKeys := by
  cases applied with
  | none => trivial
  | some a => cases a <;> trivial

theorem distinctKeys_lineTotals (l : LineTotals) : l.toJson.DistinctKeys := by
  unfold LineTotals.toJson
  simp only [Json.DistinctKeys, Json.DistinctFields, distinctKeys_ofNumber, distinctKeys_applied,
    and_true]
  simp

theorem distinctValues_lines (lines : List LineTotals)
    : Json.DistinctValues (lines.map LineTotals.toJson) := by
  induction lines with
  | nil => trivial
  | cons l lines ih => exact ⟨distinctKeys_lineTotals l, ih⟩

theorem distinctKeys_totals (t : CartTotals) : t.toJson.DistinctKeys := by
  unfold CartTotals.toJson
  simp only [Json.DistinctKeys, Json.DistinctFields, distinctKeys_ofNumber, distinctValues_lines,
    and_true]
  simp

theorem canonical_eq (value : Json)
    : canonical value = (Json.arrangeKeys Json.insertFields value).stringify := by
  rw [canonical, Json.sortKeys_eq]

theorem canonical_totals_iff (t : CartTotals) (totals : Json)
    : canonical t.toJson = canonical totals ↔ IsTotals t totals := by
  rw [← same_totals, canonical_eq, canonical_eq]
  exact Json.stringify_arrangeKeys_eq_iff Json.arranges_insertFields (distinctKeys_totals t)

/--
`canonical` compares values up to the order of their keys, whatever total order `localeCompare` is, so
that the check of a draft is whether its totals have the fields and lines of the recompute.
-/
theorem canonicalBy_eq_iff {localeCompare : String → String → ℤ} (h : Json.KeyOrder localeCompare)
    : (∀ a b : Json, a.DistinctKeys →
        (canonicalBy localeCompare a = canonicalBy localeCompare b ↔ Same a b)) ∧
      (∀ (t : CartTotals) (totals : Json),
        (canonicalBy localeCompare t.toJson = canonicalBy localeCompare totals
          ↔ IsTotals t totals) ∧
        (canonical t.toJson = canonical totals ↔ IsTotals t totals)) := by
  have hsorted := Json.arranges_sortEntries h
  constructor
  . intro a b ha
    exact Json.stringify_arrangeKeys_eq_iff hsorted ha
  . intro t totals
    constructor
    . rw [← same_totals]
      exact Json.stringify_arrangeKeys_eq_iff hsorted (distinctKeys_totals t)
    . exact canonical_totals_iff t totals

/-- The order of the code points. -/
def compareCodePoints (a b : String) : ℤ :=
  if a = b then 0 else if a < b then -1 else 1

theorem compareCodePoints_nonpos {a b : String} : compareCodePoints a b ≤ 0 ↔ a ≤ b := by
  unfold compareCodePoints
  split
  next h => simp [h]
  next hne =>
    split
    next hlt => simp [String.not_lt.mp (String.lt_asymm hlt)]
    next hnot =>
      have hle : ¬ a ≤ b := fun h => hne (String.le_antisymm h (String.not_lt.mp hnot))
      simp [hle]

theorem keyOrder_compareCodePoints : Json.KeyOrder compareCodePoints where
  eq {a b} := by
    unfold compareCodePoints
    split
    . simp [*]
    . split <;> simp [*]
  swap {a b} := by
    rw [← not_le (a := compareCodePoints b a), compareCodePoints_nonpos, String.not_le]
    unfold compareCodePoints
    split
    next h => simp [h]
    next => split <;> simp [*]
  trans hab hbc := by
    rw [compareCodePoints_nonpos] at hab hbc ⊢
    exact String.le_trans hab hbc

theorem canonicalBy_eq_iff_swapped
    : canonicalBy compareCodePoints (.obj [("b", .obj [("d", .null), ("c", .num 1)]), ("a", .arr [])])
        = canonicalBy compareCodePoints
            (.obj [("a", .arr []), ("b", .obj [("c", .num 1), ("d", .null)])]) := by
  apply ((canonicalBy_eq_iff keyOrder_compareCodePoints).1 _ _ ?_).mpr
  . have hinner : SameFields [("d", .null), ("c", .num 1)] [("c", .num 1), ("d", .null)] :=
      @SameFields.cons _ _ _ _ [("c", .num 1)] [] .null (@SameFields.cons _ _ _ _ [] [] (.num 1) .nil)
    exact .obj (@SameFields.cons _ _ _ _ [("a", .arr [])] [] (.obj hinner)
      (@SameFields.cons _ _ _ _ [] [] (.arr .nil) .nil))
  . simp [Json.DistinctKeys, Json.DistinctFields, Json.DistinctValues]

end SentryPos
