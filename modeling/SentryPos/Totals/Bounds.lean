import Mathlib.Algebra.Order.BigOperators.Group.List
import Mathlib.Tactic.Linarith
import Mathlib.Tactic.Positivity
import SentryPos.Totals.Basic

/-!
This module contains how the totals engine decomposes the money of a cart: the signs and the bounds
of the figures, and that they add up, in exact arithmetic.
-/

namespace SentryPos

section Decomposition

attribute [local instance] JsNumber.exact

/-- The figure in centavos. -/
def centavos (x : JsNumber) : ℤ :=
  ⌊x.toRat⌋

def Whole (x : JsNumber) : Prop :=
  x = ((centavos x : ℤ) : JsNumber)

@[simp]
theorem centavos_int (z : ℤ) : centavos (z : JsNumber) = z :=
  Int.floor_intCast z

theorem whole_int (z : ℤ) : Whole (z : JsNumber) := by
  unfold Whole
  rw [centavos_int]

/-- A value that the engine's arithmetic keeps whole: a percentage, or a fixed number of centavos. -/
def DiscountSpec.Plain (d : DiscountSpec) : Prop :=
  d.kind = some "percent" ∧ (∃ q : ℚ, d.value = .fin q) ∨
    d.kind = some "fixed" ∧ ∃ c : ℤ, d.value = (c : JsNumber)

structure Cart.Admissible (cart : Cart) (s : Rates) : Prop where
  unit : ∀ line ∈ cart.lines, 0 ≤ line.unitPriceC + (line.modifiers.map (·.priceDeltaC)).sum
  qty : ∀ line ∈ cart.lines, 0 < line.qty.milli
  line_discount : ∀ line ∈ cart.lines, ∀ d, line.discount = some d → d.Plain
  order_discount : ∀ d, cart.orderDiscount = some d → d.Plain ∧ 0 ≤ d.value.toRat
  tax_nonneg : 0 ≤ s.taxRate
  tax_le : s.taxRate ≤ 9999 / 10000
  service_nonneg : 0 ≤ s.serviceChargeRate
  service_le : s.serviceChargeRate ≤ 9999 / 10000

theorem halfUp_int (q : ℚ)
    : ∃ z : ℤ, halfUp (.fin q) = (z : JsNumber) ∧ (0 ≤ q → 0 ≤ z) ∧
        ∀ c : ℤ, 0 ≤ q → q ≤ c → z ≤ c := by
  unfold halfUp JsNumber.sign JsNumber.abs JsNumber.round
  dsimp only
  rcases lt_trichotomy q 0 with hq | hq | hq
  . refine ⟨-⌊|q| + 1 / 2⌋, ?_, by intro h; linarith, by intro c h; linarith⟩
    rw [if_neg (by linarith), if_pos hq]
    simp
  . refine ⟨0, ?_, fun _ => le_refl 0, ?_⟩
    . rw [hq, if_neg (lt_irrefl 0), if_neg (lt_irrefl 0), JsNumber.ofNat_eq, JsNumber.fin_mul]
      simp
    . intro c _ hc
      rw [hq] at hc
      exact_mod_cast hc
  . refine ⟨⌊|q| + 1 / 2⌋, ?_, fun _ => ?_, ?_⟩
    . rw [if_pos hq, JsNumber.ofNat_eq, JsNumber.fin_mul]
      simp
    . apply Int.floor_nonneg.mpr
      positivity
    . intro c _ hc
      rw [abs_of_pos hq, ← Int.lt_add_one_iff, Int.floor_lt]
      push_cast
      linarith

theorem halfUp_of_nonneg {q : ℚ} (hq : 0 ≤ q)
    : halfUp (.fin q) = ((⌊q + 1 / 2⌋ : ℤ) : JsNumber) := by
  unfold halfUp JsNumber.sign JsNumber.abs JsNumber.round
  dsimp only
  rw [abs_of_nonneg hq]
  rcases hq.lt_or_eq with hq | hq
  . rw [if_pos hq, JsNumber.ofNat_eq, JsNumber.fin_mul, Nat.cast_one, one_mul]
  . rw [← hq, if_neg (lt_irrefl 0), if_neg (lt_irrefl 0), JsNumber.ofNat_eq, JsNumber.fin_mul]
    norm_num

theorem halfUp_part {c : ℤ} {q : ℚ} (hq : 0 ≤ q) (hc : q ≤ c)
    : ∃ z : ℤ, halfUp (.fin q) = (z : JsNumber) ∧ 0 ≤ z ∧ z ≤ c := by
  obtain ⟨z, hz, hpos, hle⟩ := halfUp_int q
  exact ⟨z, hz, hpos hq, hle c hq hc⟩

theorem pct_int (c : ℤ) (percent : ℚ) : ∃ z : ℤ, pct c (.fin percent) = (z : JsNumber) ∧
    (0 ≤ c → 0 ≤ percent → 0 ≤ z) := by
  obtain ⟨z, hz, hpos, -⟩ := halfUp_int (c * percent / 100)
  refine ⟨z, ?_, fun hc hp => hpos (by positivity)⟩
  unfold pct
  rw [JsNumber.fin_mul, JsNumber.ofNat_eq, JsNumber.fin_div (by norm_num)]
  exact_mod_cast hz

theorem mulQtyPriceC_int {qty : Qty} (hqty : 0 < qty.milli) {unit : ℤ} (hunit : 0 ≤ unit)
    : mulQtyPriceC qty unit = ((⌊qty.val * unit + 1 / 2⌋ : ℤ) : JsNumber)
        ∧ 0 ≤ ⌊qty.val * unit + 1 / 2⌋ := by
  have hval : (qty.milli * unit / 1000 : ℚ) = qty.val * unit := by
    unfold Qty.val
    ring
  have hpos : 0 ≤ qty.val * unit := by
    unfold Qty.val
    positivity
  refine ⟨?_, Int.floor_nonneg.mpr (by positivity)⟩
  unfold mulQtyPriceC
  rw [JsNumber.fin_mul, JsNumber.ofNat_eq, JsNumber.fin_div (by norm_num), ← halfUp_of_nonneg hpos,
    ← hval]
  norm_num

theorem discountAmountC_int {d : Option DiscountSpec} (hd : ∀ d', d = some d' → d'.Plain) {base : ℤ}
    (hbase : 0 ≤ base)
    : ∃ z : ℤ, discountAmountC d base = (z : JsNumber) ∧ z ≤ base ∧
        ((∀ d', d = some d' → 0 ≤ d'.value.toRat) → 0 ≤ z) := by
  have hzero : (0 : JsNumber) = ((0 : ℤ) : JsNumber) := by
    rw [JsNumber.zero_eq, Int.cast_zero]
  unfold discountAmountC
  cases d with
  | none => exact ⟨0, hzero, hbase, fun _ => le_refl 0⟩
  | some d =>
    dsimp only
    rw [JsNumber.zero_eq, JsNumber.ble_fin]
    split
    . exact ⟨0, by rw [Int.cast_zero], hbase, fun _ => le_refl 0⟩
    . have hraw : ∃ r : ℤ,
          (if d.kind = some "percent" then pct base d.value else d.value) = (r : JsNumber) ∧
            (0 ≤ d.value.toRat → 0 ≤ r) := by
        rcases hd d rfl with ⟨hkind, q, hvalue⟩ | ⟨hkind, c, hvalue⟩
        . obtain ⟨r, hr, hpos⟩ := pct_int base q
          rw [if_pos hkind, hvalue]
          exact ⟨r, hr, hpos hbase⟩
        . rw [hkind, if_neg (by decide), hvalue]
          refine ⟨c, rfl, ?_⟩
          rw [JsNumber.toRat_fin]
          intro h
          exact_mod_cast h
      obtain ⟨r, hr, hpos⟩ := hraw
      rw [hr]
      refine ⟨min r base, ?_, min_le_right r base, fun h => le_min (hpos (h d rfl)) hbase⟩
      unfold JsNumber.min
      dsimp only
      rw [JsNumber.blt_fin]
      by_cases hlt : base < r
      . rw [min_eq_right hlt.le, if_pos (by simpa using hlt)]
      . rw [min_eq_left (by omega), if_neg (by simpa using hlt)]

/-- The totals of a line of `gross` centavos that is granted `off` of them. -/
structure LineTotals.Split (l : LineTotals) (gross off : ℤ) : Prop where
  gross_eq : l.grossC = (gross : JsNumber)
  net_eq : l.netC = ((gross - off : ℤ) : JsNumber)
  off_nonneg : 0 ≤ off
  off_le : off ≤ gross
  promo : l.applied = some .promo → l.promoDiscountC = (off : JsNumber)
  scpwd : l.applied = some .scpwd → l.scPwdDiscountC = (off : JsNumber)
  plain : l.applied = none → off = 0

section Engine

variable {cart : Cart} {s : Rates}

theorem scPwdDiscountC_int (h : cart.Admissible s) {gross : ℤ} (hgross : 0 ≤ gross)
    : ∃ z : ℤ, (gross : JsNumber) - pct (halfUp ((gross : JsNumber) / (1 + .fin s.taxRate))) 80 =
        (z : JsNumber) ∧ 0 ≤ z ∧ z ≤ gross := by
  have htax := h.tax_nonneg
  have hpos : (0 : ℚ) ≤ gross := by exact_mod_cast hgross
  obtain ⟨base, hbase, hbase_pos, hbase_le⟩ := halfUp_part (c := gross)
    (q := gross / (1 + s.taxRate)) (by positivity) (div_le_self hpos (by linarith))
  have hbase_pos' : (0 : ℚ) ≤ base := by exact_mod_cast hbase_pos
  obtain ⟨z, hz, hz_pos, hz_le⟩ := halfUp_part (c := base) (q := base * 80 / 100) (by positivity)
    (by linarith)
  refine ⟨gross - z, ?_, by omega, by omega⟩
  have hdiv : (gross : JsNumber) / (1 + .fin s.taxRate) = .fin (gross / (1 + s.taxRate)) := by
    rw [JsNumber.ofNat_eq, JsNumber.fin_add, JsNumber.fin_div (by push_cast; positivity)]
    norm_num
  have hpct : pct (base : JsNumber) 80 = (z : JsNumber) := by
    rw [← hz]
    unfold pct
    rw [JsNumber.ofNat_eq, JsNumber.fin_mul, JsNumber.ofNat_eq, JsNumber.fin_div (by norm_num)]
    norm_num
  rw [hdiv, hbase, hpct, JsNumber.fin_sub]
  push_cast
  rfl

theorem lineTotals_split (h : cart.Admissible s) {line : CartLine} (hline : line ∈ cart.lines)
    : ∃ gross off, (lineTotals cart s line).Split gross off := by
  obtain ⟨hgross, hgross_pos⟩ := mulQtyPriceC_int (h.qty line hline) (h.unit line hline)
  rw [← lineUnitWithModsC_eq] at hgross
  generalize ⌊line.qty.val * (line.unitPriceC + (line.modifiers.map (·.priceDeltaC)).sum : ℤ) + 1 / 2⌋
    = gross at hgross hgross_pos
  obtain ⟨promo, hpromo, hpromo_le, -⟩ :=
    discountAmountC_int (h.line_discount line hline) hgross_pos
  have hscPwd : ∃ z : ℤ, (lineTotals cart s line).scPwdDiscountC = (z : JsNumber) ∧ 0 ≤ z ∧
      z ≤ gross := by
    unfold lineTotals
    dsimp only
    rw [hgross]
    split
    . exact scPwdDiscountC_int h hgross_pos
    . refine ⟨0, ?_, le_refl 0, hgross_pos⟩
      rw [JsNumber.zero_eq, Int.cast_zero]
  obtain ⟨scPwd, hscPwd, hscPwd_pos, hscPwd_le⟩ := hscPwd
  generalize hl : lineTotals cart s line = l at *
  have hpromo' : l.promoDiscountC = (promo : JsNumber) := by
    rw [← hl, ← hpromo, ← hgross]
    rfl
  have hgross' : l.grossC = (gross : JsNumber) := by
    rw [← hl, ← hgross]
    rfl
  have happlied : l.applied =
      if 0 < promo ∨ 0 < scPwd then if promo ≤ scPwd then some .scpwd else some .promo
      else none := by
    have heq : l.applied =
        if JsNumber.blt 0 l.promoDiscountC || JsNumber.blt 0 l.scPwdDiscountC then
          if l.promoDiscountC.ble l.scPwdDiscountC then some .scpwd else some .promo
        else none := by
      rw [← hl]
      rfl
    rw [heq, hpromo', hscPwd, JsNumber.zero_eq, JsNumber.blt_fin, JsNumber.blt_fin, JsNumber.ble_fin]
    simp
  have hnet : l.netC = l.grossC - takenC l.applied l.promoDiscountC l.scPwdDiscountC := by
    rw [← hl]
    exact lineTotals_netC cart s line
  rw [happlied, hgross', hpromo', hscPwd] at hnet
  by_cases hany : 0 < promo ∨ 0 < scPwd
  . rw [if_pos hany] at happlied hnet
    by_cases hle : promo ≤ scPwd
    . rw [if_pos hle] at happlied hnet
      dsimp only [takenC] at hnet
      refine ⟨gross, scPwd, hgross', ?_, hscPwd_pos, hscPwd_le, ?_, fun _ => hscPwd, ?_⟩
      . rw [hnet, JsNumber.fin_sub, Int.cast_sub]
      . simp [happlied]
      . simp [happlied]
    . rw [if_neg hle] at happlied hnet
      dsimp only [takenC] at hnet
      refine ⟨gross, promo, hgross', ?_, by omega, hpromo_le, fun _ => hpromo', ?_, ?_⟩
      . rw [hnet, JsNumber.fin_sub, Int.cast_sub]
      . simp [happlied]
      . simp [happlied]
  . rw [if_neg hany] at happlied hnet
    dsimp only [takenC] at hnet
    refine ⟨gross, 0, hgross', ?_, le_refl 0, hgross_pos, ?_, ?_, fun _ => rfl⟩
    . rw [hnet, JsNumber.zero_eq, JsNumber.fin_sub, sub_zero, sub_zero]
    . simp [happlied]
    . simp [happlied]

theorem cast_sum {α : Type} (xs : List α) (value : α → ℤ)
    : (((xs.map value).sum : ℤ) : ℚ) = (xs.map fun x => (value x : ℚ)).sum := by
  have hcast := map_list_sum (Int.castRingHom ℚ) (xs.map value)
  rw [List.map_map] at hcast
  exact hcast

theorem foldl_whole {α : Type} {xs : List α} {step : JsNumber → α → JsNumber} {value : α → ℤ}
    (h : ∀ x ∈ xs, ∀ a : ℚ, step (.fin a) x = .fin (a + value x))
    : xs.foldl step 0 = (((xs.map value).sum : ℤ) : JsNumber) := by
  rw [JsNumber.zero_eq, JsNumber.foldl_fin h, zero_add, cast_sum]

theorem sum_map_split {α : Type} {xs : List α} {f g k : α → ℤ} (h : ∀ x ∈ xs, f x = g x + k x)
    : (xs.map f).sum = (xs.map g).sum + (xs.map k).sum := by
  rw [← List.sum_map_add, List.map_congr_left h]

theorem sum_map_nonneg {α : Type} {xs : List α} {f : α → ℤ} (h : ∀ x ∈ xs, 0 ≤ f x)
    : 0 ≤ (xs.map f).sum := by
  apply List.sum_nonneg
  intro y hy
  obtain ⟨x, hx, rfl⟩ := List.mem_map.mp hy
  exact h x hx

def LineTotals.offC (l : LineTotals) : ℤ :=
  centavos l.grossC - centavos l.netC

theorem LineTotals.Split.figures {l : LineTotals} {gross off : ℤ} (h : l.Split gross off)
    : centavos l.grossC = gross ∧ centavos l.netC = gross - off ∧ l.offC = off := by
  unfold LineTotals.offC
  rw [h.gross_eq, h.net_eq, centavos_int, centavos_int, sub_sub_cancel]
  exact ⟨rfl, rfl, rfl⟩

theorem mulRate_int {c : ℤ} (hc : 0 ≤ c) {rate : ℚ} (hrate : 0 ≤ rate)
    : ∃ z : ℤ, mulRate c (.fin rate) = (z : JsNumber) ∧ 0 ≤ z := by
  obtain ⟨z, hz, hpos, -⟩ := halfUp_int (c * rate)
  exact ⟨z, hz, hpos (by positivity)⟩

theorem vatIncluded_int {c : ℤ} (hc : 0 ≤ c) {rate : ℚ} (hrate : 0 ≤ rate)
    : ∃ z : ℤ, vatIncluded c (.fin rate) = (z : JsNumber) ∧ 0 ≤ z ∧ z ≤ c := by
  have hc' : (0 : ℚ) ≤ c := by exact_mod_cast hc
  unfold vatIncluded
  split
  . exact ⟨0, by rw [JsNumber.zero_eq, Int.cast_zero], le_refl 0, hc⟩
  . obtain ⟨z, hz, hpos, hle⟩ := halfUp_part (c := c) (q := c * rate / (1 + rate)) (by positivity)
      (by
        rw [div_le_iff₀ (by positivity)]
        nlinarith)
    refine ⟨z, ?_, hpos, hle⟩
    rw [JsNumber.fin_mul, JsNumber.ofNat_eq, JsNumber.fin_add,
      JsNumber.fin_div (by push_cast; positivity)]
    exact_mod_cast hz

section Sums

variable {lines : List LineTotals} (hlines : ∀ l ∈ lines, ∃ gross off, l.Split gross off)

include hlines

theorem foldl_subtotal
    : lines.foldl (fun sum l => sum + l.grossC) 0 =
        (((lines.map (centavos ·.grossC)).sum : ℤ) : JsNumber) := by
  apply foldl_whole
  intro l hl a
  obtain ⟨gross, off, hs⟩ := hlines l hl
  rw [hs.figures.1, hs.gross_eq, JsNumber.fin_add]

theorem foldl_promo
    : lines.foldl (fun sum l => if l.applied = some .promo then sum + l.promoDiscountC else sum) 0 =
        (((lines.map fun l => if l.applied = some .promo then l.offC else 0).sum : ℤ)
          : JsNumber) := by
  apply foldl_whole
  intro l hl a
  obtain ⟨gross, off, hs⟩ := hlines l hl
  split
  . next happlied => rw [hs.figures.2.2, hs.promo happlied, JsNumber.fin_add]
  . rw [Int.cast_zero, add_zero]

theorem foldl_scPwd
    : lines.foldl (fun sum l => if l.applied = some .scpwd then sum + l.scPwdDiscountC else sum) 0 =
        (((lines.map fun l => if l.applied = some .scpwd then l.offC else 0).sum : ℤ)
          : JsNumber) := by
  apply foldl_whole
  intro l hl a
  obtain ⟨gross, off, hs⟩ := hlines l hl
  split
  . next happlied => rw [hs.figures.2.2, hs.scpwd happlied, JsNumber.fin_add]
  . rw [Int.cast_zero, add_zero]

theorem foldl_orderBase
    : lines.foldl (fun sum l => if l.applied = some .scpwd then sum else sum + l.netC) 0 =
        (((lines.map fun l => if l.applied = some .scpwd then 0 else centavos l.netC).sum : ℤ)
          : JsNumber) := by
  apply foldl_whole
  intro l hl a
  obtain ⟨gross, off, hs⟩ := hlines l hl
  split
  . rw [Int.cast_zero, add_zero]
  . rw [hs.figures.2.1, hs.net_eq, JsNumber.fin_add]

theorem foldl_exempt
    : lines.foldl (fun sum l => if l.applied = some .scpwd then sum + l.netC else sum) 0 =
        (((lines.map fun l => if l.applied = some .scpwd then centavos l.netC else 0).sum : ℤ)
          : JsNumber) := by
  apply foldl_whole
  intro l hl a
  obtain ⟨gross, off, hs⟩ := hlines l hl
  split
  . rw [hs.figures.2.1, hs.net_eq, JsNumber.fin_add]
  . rw [Int.cast_zero, add_zero]

theorem sum_gross
    : (lines.map (centavos ·.grossC)).sum =
        (lines.map (centavos ·.netC)).sum +
          ((lines.map fun l => if l.applied = some .promo then l.offC else 0).sum +
            (lines.map fun l => if l.applied = some .scpwd then l.offC else 0).sum) := by
  rw [← List.sum_map_add]
  apply sum_map_split
  intro l hl
  obtain ⟨gross, off, hs⟩ := hlines l hl
  obtain ⟨hgross, hnet, hoff⟩ := hs.figures
  rw [hgross, hnet, hoff]
  cases happlied : l.applied with
  | none =>
    rw [hs.plain happlied]
    simp
  | some applied => cases applied <;> simp

omit hlines in
theorem sum_net (lines : List LineTotals)
    : (lines.map (centavos ·.netC)).sum =
        (lines.map fun l => if l.applied = some .scpwd then 0 else centavos l.netC).sum +
          (lines.map fun l => if l.applied = some .scpwd then centavos l.netC else 0).sum := by
  apply sum_map_split
  intro l hl
  split <;> simp

theorem net_nonneg {l : LineTotals} (hl : l ∈ lines) : 0 ≤ centavos l.netC ∧ 0 ≤ l.offC := by
  obtain ⟨gross, off, hs⟩ := hlines l hl
  obtain ⟨-, hnet, hoff⟩ := hs.figures
  rw [hnet, hoff]
  exact ⟨sub_nonneg.mpr hs.off_le, hs.off_nonneg⟩

theorem sum_ite_nonneg {p : LineTotals → Prop} [DecidablePred p]
    : 0 ≤ (lines.map fun l => if p l then l.offC else 0).sum ∧
        0 ≤ (lines.map fun l => if p l then centavos l.netC else 0).sum ∧
        0 ≤ (lines.map fun l => if p l then 0 else centavos l.netC).sum := by
  refine ⟨sum_map_nonneg ?_, sum_map_nonneg ?_, sum_map_nonneg ?_⟩
  . intro l hl
    split
    . exact (net_nonneg hlines hl).2
    . exact le_refl 0
  . intro l hl
    split
    . exact (net_nonneg hlines hl).1
    . exact le_refl 0
  . intro l hl
    split
    . exact le_refl 0
    . exact (net_nonneg hlines hl).1

end Sums

/-- The figures of a cart of which the order is granted `orderC`. -/
structure CartTotals.Decomposed (t : CartTotals) (cart : Cart) (s : Rates) (orderC : ℤ) : Prop where
  lines_eq : t.lines = cart.lines.map (lineTotals cart s)
  line_gross : ∀ line ∈ cart.lines, centavos (lineTotals cart s line).grossC =
    ⌊line.qty.val * (line.unitPriceC + (line.modifiers.map (·.priceDeltaC)).sum : ℤ) + 1 / 2⌋
  line_whole : ∀ l ∈ t.lines, Whole l.grossC ∧ Whole l.netC
  line_bounds : ∀ l ∈ t.lines, 0 ≤ centavos l.netC ∧ centavos l.netC ≤ centavos l.grossC
  whole : ∀ x ∈ [t.subtotalC, t.promoDiscountC, t.scPwdDiscountC, t.discountedSubtotalC,
    t.serviceChargeC, t.totalC, t.vatExemptSalesC, t.vatC, t.vatableSalesC], Whole x
  subtotal_eq : centavos t.subtotalC = (t.lines.map (centavos ·.grossC)).sum
  scPwd_eq : centavos t.scPwdDiscountC =
    (t.lines.map fun l => if l.applied = some .scpwd then l.offC else 0).sum
  promo_eq : centavos t.promoDiscountC =
    (t.lines.map fun l => if l.applied = some .promo then l.offC else 0).sum + orderC
  exempt_eq : centavos t.vatExemptSalesC =
    (t.lines.map fun l => if l.applied = some .scpwd then centavos l.netC else 0).sum
  discounted : centavos t.discountedSubtotalC = (t.lines.map (centavos ·.netC)).sum - orderC
  order_nonneg : 0 ≤ orderC
  order_le : orderC ≤
    (t.lines.map fun l => if l.applied = some .scpwd then 0 else centavos l.netC).sum
  exempt_nonneg : 0 ≤ centavos t.vatExemptSalesC
  exempt_le : centavos t.vatExemptSalesC ≤ centavos t.discountedSubtotalC
  discounted_le : centavos t.discountedSubtotalC ≤ centavos t.subtotalC
  service_nonneg : 0 ≤ centavos t.serviceChargeC
  vat_nonneg : 0 ≤ centavos t.vatC
  vat_le : centavos t.vatC ≤ centavos t.totalC - centavos t.vatExemptSalesC
  total_eq : centavos t.subtotalC - centavos t.promoDiscountC - centavos t.scPwdDiscountC
    + centavos t.serviceChargeC = centavos t.totalC
  sales_eq : centavos t.totalC =
    centavos t.vatExemptSalesC + centavos t.vatableSalesC + centavos t.vatC

theorem totals_decomposed (h : cart.Admissible s)
    : ∃ orderC : ℤ, (computeTotals cart s).Decomposed cart s orderC ∧
        discountAmountC cart.orderDiscount
          ((((computeTotals cart s).lines.map fun l =>
            if l.applied = some .scpwd then 0 else centavos l.netC).sum : ℤ) : JsNumber) =
          (orderC : JsNumber) := by
  obtain ⟨lines, hlines⟩ : ∃ lines, (computeTotals cart s).lines = lines := ⟨_, rfl⟩
  have hsplit : ∀ l ∈ lines, ∃ gross off, l.Split gross off := by
    intro l hl
    rw [← hlines] at hl
    obtain ⟨line, hline, rfl⟩ := List.mem_map.mp hl
    exact lineTotals_split h hline
  have hgross := sum_gross hsplit
  have hnet := sum_net lines
  obtain ⟨hpromo_pos, -, -⟩ := sum_ite_nonneg hsplit (p := fun l => l.applied = some .promo)
  obtain ⟨hscPwd_pos, hexempt_pos, hbase_pos⟩ :=
    sum_ite_nonneg hsplit (p := fun l => l.applied = some .scpwd)
  obtain ⟨orderC, horder, horder_le, horder_pos⟩ :=
    discountAmountC_int (fun d hd => (h.order_discount d hd).1) hbase_pos
  have horder_pos := horder_pos fun d hd => (h.order_discount d hd).2
  have hsubtotal : (computeTotals cart s).subtotalC =
      (((lines.map (centavos ·.grossC)).sum : ℤ) : JsNumber) := by
    rw [← foldl_subtotal hsplit, ← hlines]
    rfl
  have hscPwd : (computeTotals cart s).scPwdDiscountC =
      (((lines.map fun l => if l.applied = some .scpwd then l.offC else 0).sum : ℤ) : JsNumber) := by
    rw [← foldl_scPwd hsplit, ← hlines]
    rfl
  have hexempt : (computeTotals cart s).vatExemptSalesC =
      (((lines.map fun l => if l.applied = some .scpwd then centavos l.netC else 0).sum : ℤ)
        : JsNumber) := by
    rw [← foldl_exempt hsplit, ← hlines]
    rfl
  have hpromo : (computeTotals cart s).promoDiscountC =
      (((lines.map fun l => if l.applied = some .promo then l.offC else 0).sum + orderC : ℤ)
        : JsNumber) := by
    rw [Int.cast_add, ← JsNumber.fin_add, ← foldl_promo hsplit, ← horder, ← foldl_orderBase hsplit,
      ← hlines]
    rfl
  rw [hlines]
  have hnet_all := fun l (hl : l ∈ lines) => net_nonneg hsplit hl
  generalize hgross_sum : (lines.map (centavos ·.grossC)).sum = gross at *
  generalize hnet_sum : (lines.map (centavos ·.netC)).sum = net at *
  generalize hpromo_sum : (lines.map fun l => if l.applied = some .promo then l.offC else 0).sum
    = promo at *
  generalize hscPwd_sum : (lines.map fun l => if l.applied = some .scpwd then l.offC else 0).sum
    = scPwd at *
  generalize hbase_sum : (lines.map fun l => if l.applied = some .scpwd then 0
    else centavos l.netC).sum = base at *
  generalize hexempt_sum : (lines.map fun l => if l.applied = some .scpwd then centavos l.netC
    else 0).sum = exempt at *
  have hdiscounted : (computeTotals cart s).discountedSubtotalC =
      ((net - orderC : ℤ) : JsNumber) := by
    change (computeTotals cart s).subtotalC - (computeTotals cart s).promoDiscountC
      - (computeTotals cart s).scPwdDiscountC = _
    rw [hsubtotal, hpromo, hscPwd, JsNumber.fin_sub, JsNumber.fin_sub, ← Int.cast_sub, ← Int.cast_sub]
    congr 2
    omega
  have hservice : ∃ z : ℤ, (computeTotals cart s).serviceChargeC = (z : JsNumber) ∧ 0 ≤ z := by
    change ∃ z : ℤ, (if cart.orderType = .dine_in then
      mulRate (computeTotals cart s).discountedSubtotalC (.fin s.serviceChargeRate) else 0) =
        (z : JsNumber) ∧ 0 ≤ z
    split
    . rw [hdiscounted]
      exact mulRate_int (by omega) h.service_nonneg
    . exact ⟨0, by rw [JsNumber.zero_eq, Int.cast_zero], le_refl 0⟩
  obtain ⟨service, hservice, hservice_pos⟩ := hservice
  have htotal : (computeTotals cart s).totalC = ((net - orderC + service : ℤ) : JsNumber) := by
    change (computeTotals cart s).discountedSubtotalC + (computeTotals cart s).serviceChargeC = _
    rw [hdiscounted, hservice, JsNumber.fin_add, ← Int.cast_add]
  obtain ⟨vat, hvat, hvat_pos, hvat_le⟩ := vatIncluded_int
    (c := net - orderC + service - exempt) (by omega) h.tax_nonneg
  have hvat : (computeTotals cart s).vatC = (vat : JsNumber) := by
    change vatIncluded ((computeTotals cart s).totalC - (computeTotals cart s).vatExemptSalesC)
      (.fin s.taxRate) = _
    rw [htotal, hexempt, JsNumber.fin_sub, ← Int.cast_sub, hvat]
  have hvatable : (computeTotals cart s).vatableSalesC =
      ((net - orderC + service - exempt - vat : ℤ) : JsNumber) := by
    change (computeTotals cart s).totalC - (computeTotals cart s).vatExemptSalesC
      - (computeTotals cart s).vatC = _
    rw [htotal, hexempt, hvat, JsNumber.fin_sub, JsNumber.fin_sub, ← Int.cast_sub, ← Int.cast_sub]
  refine ⟨orderC, ?_, horder⟩
  constructor
  . rfl
  . intro line hline
    have hgross := (mulQtyPriceC_int (h.qty line hline) (h.unit line hline)).1
    rw [← lineUnitWithModsC_eq] at hgross
    have heq : (lineTotals cart s line).grossC = mulQtyPriceC line.qty (lineUnitWithModsC line) := rfl
    rw [heq, hgross, centavos_int]
  . intro l hl
    rw [hlines] at hl
    obtain ⟨gross, off, hs⟩ := hsplit l hl
    rw [hs.gross_eq, hs.net_eq]
    exact ⟨whole_int _, whole_int _⟩
  . intro l hl
    rw [hlines] at hl
    have hnet := hnet_all l hl
    unfold LineTotals.offC at hnet
    omega
  . rw [hsubtotal, hpromo, hscPwd, hdiscounted, hservice, htotal, hexempt, hvat, hvatable]
    simp only [List.forall_mem_cons, whole_int, List.not_mem_nil, false_implies, implies_true,
      and_true]
  . rw [hsubtotal, hlines, hgross_sum, centavos_int]
  . rw [hscPwd, hlines, hscPwd_sum, centavos_int]
  . rw [hpromo, hlines, hpromo_sum, centavos_int]
  . rw [hexempt, hlines, hexempt_sum, centavos_int]
  . rw [hdiscounted, hlines, hnet_sum, centavos_int]
  . exact horder_pos
  . rw [hlines, hbase_sum]
    exact horder_le
  . rw [hexempt, centavos_int]
    exact hexempt_pos
  . rw [hexempt, hdiscounted, centavos_int, centavos_int]
    omega
  . rw [hdiscounted, hsubtotal, centavos_int, centavos_int]
    omega
  . rw [hservice, centavos_int]
    exact hservice_pos
  . rw [hvat, centavos_int]
    exact hvat_pos
  . rw [hvat, htotal, hexempt, centavos_int, centavos_int, centavos_int]
    exact hvat_le
  . rw [hsubtotal, hpromo, hscPwd, hservice, htotal]
    simp only [centavos_int]
    omega
  . rw [htotal, hexempt, hvatable, hvat]
    simp only [centavos_int]
    omega

end Engine

/-- A coffee at ten per cent off, a cake for a senior, and fifty centavos off the order. -/
def seniorCart : Cart where
  id := 1
  orderType := .dine_in
  lines := [
    {
      id := 2, productId := some 30, variantId := none, name := "Coffee", soldBy := .unit
      qty := ⟨2000⟩, unitPriceC := 12050, modifiers := [], scPwdMarked := false, trackStock := false
      discount := some { source := none, discountId := none, kind := some "percent", value := 10 }
    },
    {
      id := 3, productId := some 31, variantId := none, name := "Cake", soldBy := .weight
      qty := ⟨333⟩, unitPriceC := 9999, modifiers := [], scPwdMarked := true, trackStock := false
      discount := none
    }
  ]
  orderDiscount := some { source := none, discountId := none, kind := some "fixed", value := 50 }
  scPwd := some { idNo := "1", name := "Ana" }

def vatRates : Rates :=
  { taxRate := 12 / 100, serviceChargeRate := 1 / 10 }

theorem seniorCart_admissible : seniorCart.Admissible vatRates where
  unit := by decide
  qty := by decide
  line_discount := by
    intro line hline d hd
    simp only [seniorCart, List.mem_cons, List.not_mem_nil, or_false] at hline
    rcases hline with rfl | rfl
    . cases hd
      exact .inl ⟨rfl, 10, rfl⟩
    . cases hd
  order_discount := by
    intro d hd
    cases hd
    exact ⟨.inr ⟨rfl, 50, by decide⟩, by decide⟩
  tax_nonneg := by norm_num [vatRates]
  tax_le := by norm_num [vatRates]
  service_nonneg := by norm_num [vatRates]
  service_le := by norm_num [vatRates]

theorem totals_decomposed_senior
    : (computeTotals seniorCart vatRates).Decomposed seniorCart vatRates 50
        ∧ (computeTotals seniorCart vatRates).lines.map (centavos ·.netC) = [21690, 2378]
        ∧ centavos (computeTotals seniorCart vatRates).totalC = 26420
        ∧ centavos (computeTotals seniorCart vatRates).vatC = 2576 := by
  obtain ⟨orderC, h, hgranted⟩ := totals_decomposed seniorCart_admissible
  have horder : discountAmountC seniorCart.orderDiscount
      ((((computeTotals seniorCart vatRates).lines.map fun l =>
        if l.applied = some .scpwd then 0 else centavos l.netC).sum : ℤ) : JsNumber)
          = ((50 : ℤ) : JsNumber) := by
    decide +kernel
  rw [horder, JsNumber.fin.injEq, Int.cast_inj] at hgranted
  rw [hgranted]
  exact ⟨h, by decide +kernel, by decide +kernel, by decide +kernel⟩

end Decomposition

end SentryPos
