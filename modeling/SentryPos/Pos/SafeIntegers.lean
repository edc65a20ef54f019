import SentryPos.Pos.AdmissionBounds

/-!
This module contains the numbers that the totals engine works out for a cart, and when the ones it
works out for a line are safe integers.
-/

namespace SentryPos

open ReadCommitted Binary64
open JsNumber hiding min

def MAX_SAFE_INTEGER : ℤ := 2 ^ 53 - 1

def SafeInteger (z : ℤ) : Prop :=
  -MAX_SAFE_INTEGER ≤ z ∧ z ≤ MAX_SAFE_INTEGER

instance : DecidablePred SafeInteger := fun _ => inferInstanceAs (Decidable (_ ∧ _))

def IsSafe (x : JsNumber) : Prop :=
  ∀ z : ℤ, x = (z : JsNumber) → SafeInteger z

/-- A number that a column of type Int does not refuse for its range. -/
def FitsColumn (x : JsNumber) : Prop :=
  ∀ z : ℤ, x = (z : JsNumber) → intColumn x = .ok z

inductive FormedFrom (discount : Option DiscountSpec) (baseC : JsNumber) : JsNumber → Prop where
  | percentOf {d} (h : discount = some d) (hbase : baseC.ble 0 = false)
    (hkind : d.kind = some "percent") : FormedFrom discount baseC (baseC * d.value)
  | percent {d} (h : discount = some d) (hbase : baseC.ble 0 = false)
    (hkind : d.kind = some "percent") : FormedFrom discount baseC (pct baseC d.value)
  | amount : FormedFrom discount baseC (discountAmountC discount baseC)

section Cart

variable (cart : Cart) (s : Rates)

def scPwdBaseC (line : CartLine) : JsNumber :=
  halfUp ((lineTotals cart s line).grossC / (1 + .fin s.taxRate))

def orderBaseC : JsNumber :=
  (computeTotals cart s).lines.foldl
    (fun sum l => if l.applied = some .scpwd then sum else sum + l.netC) 0

/--
The numbers that the engine works out for a line. A quotient that is an integer is left out, as it is
what it is rounded to.
-/
inductive FormedOn (line : CartLine) : JsNumber → Prop where
  | milli : FormedOn line (line.qty.milli : ℤ)
  | unit {mods} (h : mods <+: line.modifiers)
    : FormedOn line
        (mods.foldl (fun sum m => sum + (m.priceDeltaC : JsNumber)) (line.unitPriceC : JsNumber))
  | product : FormedOn line ((line.qty.milli : JsNumber) * lineUnitWithModsC line)
  | gross : FormedOn line (lineTotals cart s line).grossC
  | promo {x} (h : FormedFrom line.discount (lineTotals cart s line).grossC x) : FormedOn line x
  | base (h : (cart.scPwd.isSome && line.scPwdMarked) = true)
    : FormedOn line (scPwdBaseC cart s line)
  | shareOf (h : (cart.scPwd.isSome && line.scPwdMarked) = true)
    : FormedOn line (scPwdBaseC cart s line * 80)
  | share (h : (cart.scPwd.isSome && line.scPwdMarked) = true)
    : FormedOn line (pct (scPwdBaseC cart s line) 80)
  | scPwd : FormedOn line (lineTotals cart s line).scPwdDiscountC
  | net : FormedOn line (lineTotals cart s line).netC

/-- The numbers that the engine works out for a cart: the sums have a value after each line. -/
inductive FormedIn : JsNumber → Prop where
  | line {line x} (h : line ∈ cart.lines) (hx : FormedOn cart s line x) : FormedIn x
  | subtotal {lines} (h : lines <+: cart.lines)
    : FormedIn ((lines.map (lineTotals cart s)).foldl (fun sum l => sum + l.grossC) 0)
  | linePromo {lines} (h : lines <+: cart.lines)
    : FormedIn ((lines.map (lineTotals cart s)).foldl
        (fun sum l => if l.applied = some .promo then sum + l.promoDiscountC else sum) 0)
  | scPwdDiscount {lines} (h : lines <+: cart.lines)
    : FormedIn ((lines.map (lineTotals cart s)).foldl
        (fun sum l => if l.applied = some .scpwd then sum + l.scPwdDiscountC else sum) 0)
  | orderBase {lines} (h : lines <+: cart.lines)
    : FormedIn ((lines.map (lineTotals cart s)).foldl
        (fun sum l => if l.applied = some .scpwd then sum else sum + l.netC) 0)
  | vatExemptSales {lines} (h : lines <+: cart.lines)
    : FormedIn ((lines.map (lineTotals cart s)).foldl
        (fun sum l => if l.applied = some .scpwd then sum + l.netC else sum) 0)
  | orderDiscount {x} (h : FormedFrom cart.orderDiscount (orderBaseC cart s) x) : FormedIn x
  | promoDiscount : FormedIn (computeTotals cart s).promoDiscountC
  | afterPromo : FormedIn ((computeTotals cart s).subtotalC - (computeTotals cart s).promoDiscountC)
  | discountedSubtotal : FormedIn (computeTotals cart s).discountedSubtotalC
  | serviceChargeOf (h : cart.orderType = .dine_in)
    : FormedIn ((computeTotals cart s).discountedSubtotalC * .fin s.serviceChargeRate)
  | serviceCharge : FormedIn (computeTotals cart s).serviceChargeC
  | total : FormedIn (computeTotals cart s).totalC
  | taxed : FormedIn ((computeTotals cart s).totalC - (computeTotals cart s).vatExemptSalesC)
  | taxOf (h : s.taxRate ≠ 0)
    : FormedIn (((computeTotals cart s).totalC - (computeTotals cart s).vatExemptSalesC)
        * .fin s.taxRate)
  | tax : FormedIn (computeTotals cart s).vatC
  | vatableSales : FormedIn (computeTotals cart s).vatableSalesC

end Cart

section Condition

def CartLine.priceC (line : CartLine) (mods : List CartModifier) : ℤ :=
  line.unitPriceC + (mods.map (·.priceDeltaC)).sum

/-- What a percentage is worked out from is safe, and so is a price raised by a negative discount. -/
def DiscountSpec.SafeOn (d : DiscountSpec) (baseC : JsNumber) : Prop :=
  if d.kind = some "percent" then IsSafe (baseC * d.value)
  else ∀ z : ℤ, d.value = (z : JsNumber) → -MAX_SAFE_INTEGER ≤ z

/-- The modifiers, the quantity and the discount of a line are in range. -/
structure CartLine.InRange (line : CartLine) : Prop where
  units : ∀ mods, mods <+: line.modifiers → SafeInteger (line.priceC mods)
  product : SafeInteger (line.qty.milli * line.priceC line.modifiers)
  promo : 0 < line.amountC → ∀ d, line.discount = some d → d.SafeOn (line.amountC : JsNumber)

end Condition

section Numbers

variable {z : ℤ} {q : ℚ}

theorem safeInteger_iff : SafeInteger z ↔ |z| < 2 ^ 53 := by
  unfold SafeInteger MAX_SAFE_INTEGER
  rw [abs_lt]
  omega

theorem isSafe_int : IsSafe (z : JsNumber) ↔ SafeInteger z := by
  constructor
  . intro h
    exact h z rfl
  . intro h z' hz'
    rw [fin.injEq, Int.cast_inj] at hz'
    rw [← hz']
    exact h

theorem isSafe_of_lt (h : |q| < 2 ^ 53) : IsSafe (.fin q) := by
  intro z hz
  rw [fin.injEq] at hz
  rw [hz] at h
  rw [safeInteger_iff]
  exact_mod_cast h

theorem isSafe_of_within {lo hi : ℤ} {x : JsNumber} (h : Within lo hi x) (hlo : -2 ^ 53 < lo)
    (hhi : hi < 2 ^ 53) : IsSafe x := by
  obtain ⟨q, rfl, hge, hle⟩ := h
  have hloq : (-2 ^ 53 : ℚ) < lo := by
    exact_mod_cast hlo
  have hhiq : (hi : ℚ) < 2 ^ 53 := by
    exact_mod_cast hhi
  apply isSafe_of_lt
  rw [abs_lt]
  constructor <;> linarith

theorem lt_of_isSafe (hq : Representable q) (h : IsSafe (.fin q)) : |q| < 2 ^ 53 := by
  rcases nearest_isInt_or q with ⟨z, hz⟩ | hlt
  . rw [nearest_of_representable hq] at hz
    have hsafe := safeInteger_iff.mp (h z (by rw [hz]))
    rw [hz]
    exact_mod_cast hsafe
  . rw [nearest_of_representable hq] at hlt
    exact hlt.trans (by norm_num)

theorem fitsColumn_int : FitsColumn (z : JsNumber) ↔ -2 ^ 31 ≤ z ∧ z < 2 ^ 31 := by
  have hcolumn : intColumn (z : JsNumber)
      = if -2 ^ 31 ≤ z ∧ z < 2 ^ 31 then .ok z else .error .prismaValidation := by
    have hge : (-2 ^ 31 ≤ (z : ℚ)) ↔ -2 ^ 31 ≤ z := by
      exact_mod_cast Iff.rfl
    have hlt : ((z : ℚ) < 2 ^ 31) ↔ z < 2 ^ 31 := by
      exact_mod_cast Iff.rfl
    unfold intColumn
    simp [hge, hlt]
  constructor
  . intro h
    have hok := h z rfl
    rw [hcolumn] at hok
    split at hok
    . assumption
    . cases hok
  . intro h z' hz'
    rw [fin.injEq, Int.cast_inj] at hz'
    rw [← hz', hcolumn, if_pos h]

theorem sum_lt_of_isSafe {zs : List ℤ} (hsmall : ∀ z ∈ zs, |z| ≤ 2 ^ 45)
    (hsafe : ∀ zs', zs' <+: zs → IsSafe (JsNumber.sum (zs'.map fun z : ℤ => (z : JsNumber))))
    : ∀ zs', zs' <+: zs → |zs'.sum| < 2 ^ 53 := by
  -- As long as the sums so far are exact, one more small number does not pass 2^53 unseen.
  induction zs using List.reverseRecOn with
  | nil =>
    intro zs' hinit
    rw [List.prefix_nil.mp hinit]
    norm_num
  | append_singleton zs z ih =>
    have hbefore := ih (fun z' hz' => hsmall z' (List.mem_append_left _ hz'))
      fun zs' hinit => hsafe zs' (hinit.trans (List.prefix_append _ _))
    intro zs' hinit
    rcases List.prefix_concat_iff.mp hinit with rfl | hinit
    . have hlast := hsafe _ (List.prefix_refl _)
      have hlt := abs_lt.mp (hbefore zs (List.prefix_refl _))
      have hle := abs_le.mp (hsmall z (by simp))
      have habs : |((zs.sum + z : ℤ) : ℚ)| ≤ 2 ^ 54 := by
        exact_mod_cast (by rw [abs_le]; omega : |zs.sum + z| ≤ 2 ^ 54)
      have hfin := ofBinary64_of_abs_le (by norm_num) habs
      rw [List.map_append, List.map_singleton, sum_append_singleton,
        sum_int fun zs' hinit => (hbefore zs' hinit).le, double_add, ← Int.cast_add, hfin] at hlast
      have hround := abs_lt.mp (lt_of_isSafe (representable_nearest _) hlast)
      rw [List.sum_append, List.sum_singleton, abs_lt]
      constructor
      . have := lt_of_lt_nearest (n := -2 ^ 53) (by norm_num) (by push_cast; exact_mod_cast hround.1)
        exact_mod_cast this
      . have := lt_of_nearest_lt (n := 2 ^ 53) (by norm_num) (by push_cast; exact_mod_cast hround.2)
        exact_mod_cast this
    . exact hbefore zs' hinit

end Numbers

section Discount

variable {discount : Option DiscountSpec} {baseC : ℚ}

theorem isSafe_pct {c percent : JsNumber} (h : IsSafe (c * percent)) : IsSafe (pct c percent) := by
  intro z hz
  have hquot := (halfUp_isInt hz).1
  rw [ofNat_eq] at hquot
  have hproduct := fin_of_div hquot
  obtain ⟨hc, hpercent⟩ := fin_of_mul hproduct
  have hrep : Representable (c * percent).toRat := by
    rw [hc, hpercent, double_mul] at hproduct ⊢
    exact representable_of_ofBinary64 hproduct
  rw [hproduct] at h
  have hlt := abs_lt.mp (lt_of_isSafe hrep h)
  have hwithin : Within (-2 ^ 52) (2 ^ 52) (c * percent / 100) := by
    rw [hproduct, ofNat_eq, double_div (by norm_num)]
    apply within_ofBinary64
    . push_cast
      linarith
    . push_cast
      linarith
    . norm_num
    . norm_num
  obtain ⟨z', hz', hge, hle⟩ := halfUp_within hwithin (by norm_num) (by norm_num)
  have heq : z = z' := by
    have := hz.symm.trans hz'
    rwa [fin.injEq, Int.cast_inj] at this
  rw [safeInteger_iff, abs_lt]
  omega

theorem formedFrom_iff (hbase : baseC < 2 ^ 53)
    : (∀ x, FormedFrom discount (.fin baseC) x → IsSafe x)
        ↔ (0 < baseC → ∀ d, discount = some d → d.SafeOn (.fin baseC)) := by
  have hpositive : (JsNumber.fin baseC).ble 0 = false ↔ 0 < baseC := by
    rw [zero_eq, ble_fin, decide_eq_false_iff_not, not_le]
  constructor
  . intro h hpos d hd
    unfold DiscountSpec.SafeOn
    split
    . next hkind => exact h _ (.percentOf hd (hpositive.mpr hpos) hkind)
    . next hkind =>
      intro z hz
      have hamount := h _ .amount
      rw [discountAmountC_fin, hd] at hamount
      dsimp only at hamount
      unfold DiscountSpec.amountC at hamount
      rw [if_neg (not_le.mpr hpos), if_neg hkind, hz] at hamount
      by_cases hlt : baseC < z
      . have hzpos : (0 : ℚ) < z := hpos.trans hlt
        have hzint : 0 < z := by
          exact_mod_cast hzpos
        unfold MAX_SAFE_INTEGER
        omega
      . have hmin : JsNumber.min (z : JsNumber) (.fin baseC) = (z : JsNumber) := by
          change (if decide (baseC < (z : ℚ)) then _ else _) = _
          rw [if_neg]
          simpa using hlt
        rw [hmin] at hamount
        exact (hamount z rfl).1
  . intro h x hx
    cases hx with
    | percentOf hd hpos hkind =>
      have hsafe := h (hpositive.mp hpos) _ hd
      unfold DiscountSpec.SafeOn at hsafe
      rwa [if_pos hkind] at hsafe
    | percent hd hpos hkind =>
      have hsafe := h (hpositive.mp hpos) _ hd
      unfold DiscountSpec.SafeOn at hsafe
      rw [if_pos hkind] at hsafe
      exact isSafe_pct hsafe
    | amount =>
      intro z hz
      have hbounds := discountAmountC_bounds hz
      rw [discountAmountC_fin] at hz
      by_cases hpos : 0 < baseC
      . have hlt : (z : ℚ) < 2 ^ 53 := (hbounds.2 hpos).trans_lt hbase
        have hltz : z < 2 ^ 53 := by
          exact_mod_cast hlt
        have hge : -MAX_SAFE_INTEGER ≤ z := by
          cases discount with
          | none =>
            cases hz
            decide
          | some d =>
            dsimp only at hz
            rw [if_neg (not_le.mpr hpos)] at hz
            have hsafe := h hpos d rfl
            unfold DiscountSpec.SafeOn at hsafe
            unfold DiscountSpec.amountC at hz
            cases (min_eq_fin hz).2 with
            | inl hraw =>
              split at hsafe
              . next hkind =>
                rw [if_pos hkind] at hraw
                exact (isSafe_pct hsafe z hraw).1
              . next hkind =>
                rw [if_neg hkind] at hraw
                exact hsafe z hraw
            | inr hsame =>
              rw [← hsame] at hpos
              have hzpos : 0 < z := by
                exact_mod_cast hpos
              unfold MAX_SAFE_INTEGER
              omega
        refine ⟨hge, ?_⟩
        unfold MAX_SAFE_INTEGER
        omega
      . have hzero := hbounds.1 (not_lt.mp hpos)
        have hz0 : z = 0 := by
          exact_mod_cast hzero
        rw [hz0]
        decide

end Discount

section Line

variable {cart : Cart} {s : Rates} {line : CartLine}

theorem unit_eq (hprice : |line.unitPriceC| ≤ 2 ^ 53)
    (h : ∀ mods, mods <+: line.modifiers → SafeInteger (line.priceC mods))
    {mods : List CartModifier} (hmods : mods <+: line.modifiers)
    : mods.foldl (fun sum m => sum + (m.priceDeltaC : JsNumber)) (line.unitPriceC : JsNumber)
        =
      (line.priceC mods : JsNumber) := by
  rw [units_eq_sum hprice, sum_int]
  . rw [List.sum_cons]
    rfl
  . intro zs hinit
    rcases List.prefix_cons_iff.mp hinit with rfl | ⟨zs', rfl, hrest⟩
    . norm_num
    . obtain ⟨mods', hmods', rfl⟩ := List.prefix_map_iff.mp hrest
      rw [List.sum_cons]
      exact (safeInteger_iff.mp (h mods' (hmods'.trans hmods))).le

theorem CartLine.InRange.exact (hprice : |line.unitPriceC| ≤ 2 ^ 53) (h : line.InRange)
    : line.Exact :=
  exact_of_product (unit_eq hprice h.units (List.prefix_refl _)) (safeInteger_iff.mp h.product).le

theorem inRange_of_formed (hprice : |line.unitPriceC| ≤ 2 ^ 53)
    (hgross : mulQtyPriceC line.qty (lineUnitWithModsC line)
      = .fin (mulQtyPriceC line.qty (lineUnitWithModsC line)).toRat)
    (h : ∀ x, FormedOn cart s line x → IsSafe x)
    : (∀ mods, mods <+: line.modifiers → SafeInteger (line.priceC mods))
        ∧ SafeInteger (line.qty.milli * line.priceC line.modifiers) := by
  have hunit := gross_fin hgross
  have hunits : ∀ mods, mods <+: line.modifiers → SafeInteger (line.priceC mods) := by
    have hsum : lineUnitWithModsC line = JsNumber.sum
        ((line.unitPriceC :: line.modifiers.map (·.priceDeltaC)).map fun z : ℤ => (z : JsNumber)) :=
      units_eq_sum hprice line.modifiers
    have hlt : ∀ zs, zs <+: line.unitPriceC :: line.modifiers.map (·.priceDeltaC) →
        |zs.sum| < 2 ^ 53 := by
      apply sum_int_of_lt
      intro zs hinit
      have hfin := fin_of_prefix (hinit.map fun z : ℤ => (z : JsNumber)) (hsum.symm.trans hunit)
      refine ⟨_, hfin, lt_of_isSafe (representable_of_sum hfin) ?_⟩
      rw [← hfin]
      rcases List.prefix_cons_iff.mp hinit with rfl | ⟨zs', rfl, hrest⟩
      . exact isSafe_int.mpr (by decide)
      . obtain ⟨mods, hmods, rfl⟩ := List.prefix_map_iff.mp hrest
        rw [← units_eq_sum hprice]
        exact h _ (.unit hmods)
    intro mods hmods
    rw [safeInteger_iff]
    have := hlt (line.unitPriceC :: mods.map (·.priceDeltaC))
      (List.prefix_cons_iff.mpr (.inr ⟨_, rfl, hmods.map _⟩))
    rwa [List.sum_cons] at this
  refine ⟨hunits, ?_⟩
  have hunitEq : lineUnitWithModsC line = (line.priceC line.modifiers : JsNumber) :=
    unit_eq hprice hunits (List.prefix_refl _)
  have hproduct := h _ .product
  unfold mulQtyPriceC at hgross
  have hquot := (halfUp_isInt hgross).1
  rw [ofNat_eq] at hquot
  have hfin := fin_of_div hquot
  rw [hunitEq, double_mul, ← Int.cast_mul] at hfin hproduct
  rw [hfin] at hproduct
  have hlt := lt_of_isSafe (representable_of_ofBinary64 hfin) hproduct
  rw [eq_nearest hfin, abs_lt] at hlt
  rw [safeInteger_iff, abs_lt]
  constructor
  . have := lt_of_lt_nearest (n := -2 ^ 53) (by norm_num) (by push_cast; exact_mod_cast hlt.1)
    exact_mod_cast this
  . have := lt_of_nearest_lt (n := 2 ^ 53) (by norm_num) (by push_cast; exact_mod_cast hlt.2)
    exact_mod_cast this

theorem amountC_lt (h : line.Exact) : (line.amountC : ℚ) < 2 ^ 53 := by
  have hle := (abs_le.mp h.le).2
  have hleq : (line.amountC : ℚ) ≤ 2 ^ 45 := by
    exact_mod_cast hle
  linarith

theorem formedOn_iff (hs : s.Valid) (hqty : 0 < line.qty.milli) (hle : line.qty.milli ≤ MAX_QTY)
    (hprice : |line.unitPriceC| ≤ 2 ^ 53)
    (hgross : mulQtyPriceC line.qty (lineUnitWithModsC line)
      = .fin (mulQtyPriceC line.qty (lineUnitWithModsC line)).toRat)
    (hfin : line.Exact → (lineTotals cart s line).applied = some .promo →
      line.promoC = .fin line.promoC.toRat)
    : (∀ x, FormedOn cart s line x → IsSafe x) ↔ line.InRange := by
  have ht := hs.tax_nonneg
  have ht1 := hs.tax_le_one
  have hpositive : (0 : ℚ) < line.amountC ↔ 0 < line.amountC := Int.cast_pos
  constructor
  . intro h
    obtain ⟨hunits, hproduct⟩ := inRange_of_formed hprice hgross h
    have hexact : line.Exact :=
      exact_of_product (unit_eq hprice hunits (List.prefix_refl _)) (safeInteger_iff.mp hproduct).le
    refine ⟨hunits, hproduct, ?_⟩
    rw [← hpositive]
    apply (formedFrom_iff (amountC_lt hexact)).mp
    intro x hx
    apply h x (.promo _)
    rwa [grossC_amountC hexact]
  . intro h x hx
    have hexact := h.exact hprice
    have hamount := abs_le.mp hexact.le
    have hgrossC : (lineTotals cart s line).grossC = (line.amountC : JsNumber) := grossC_amountC hexact
    obtain ⟨base, hbase, hbaseLe, hbaseProduct, hshare, hshareGe, hshareLe⟩ :=
      scPwd_bounds hexact.le ht ht1
    have hbaseAbs := abs_le.mp hbaseLe
    have hbaseEq : scPwdBaseC cart s line = line.baseC s := by
      unfold scPwdBaseC CartLine.baseC
      rw [hgrossC]
    cases hx with
    | milli =>
      rw [isSafe_int]
      unfold SafeInteger MAX_SAFE_INTEGER MAX_QTY at *
      omega
    | unit hmods =>
      rw [unit_eq hprice h.units hmods, isSafe_int]
      exact h.units _ hmods
    | product =>
      have hunit : lineUnitWithModsC line = (line.priceC line.modifiers : JsNumber) :=
        unit_eq hprice h.units (List.prefix_refl _)
      have hproduct := h.product
      rw [hunit, double_mul, ← Int.cast_mul, ofBinary64_int _ (safeInteger_iff.mp hproduct).le,
        isSafe_int]
      exact hproduct
    | gross =>
      rw [hgrossC, isSafe_int, safeInteger_iff, abs_lt]
      omega
    | promo hpromo =>
      rw [hgrossC] at hpromo
      apply (formedFrom_iff (amountC_lt hexact)).mpr _ x hpromo
      rw [hpositive]
      exact h.promo
    | base =>
      rw [hbaseEq, hbase, isSafe_int, safeInteger_iff, abs_lt]
      omega
    | shareOf =>
      rw [hbaseEq, hbaseProduct, isSafe_int, safeInteger_iff, abs_lt]
      omega
    | share =>
      rw [hbaseEq, hshare, isSafe_int, safeInteger_iff, abs_lt]
      omega
    | scPwd =>
      rw [scPwdDiscountC_eq hexact ht ht1]
      split
      . rw [isSafe_int, safeInteger_iff, abs_lt]
        omega
      . exact isSafe_int.mpr (by decide)
    | net =>
      by_cases htakes : TakesScPwd cart s line
      . rw [netC_shareC hexact ht ht1 htakes, isSafe_int, safeInteger_iff, abs_lt]
        omega
      . rw [netC_restC hexact ht ht1 (hfin hexact) htakes]
        apply isSafe_of_within (restC_within hexact _) (by omega) (by omega)
        intro hpos
        exact promoC_finite hexact ht ht1 (hfin hexact) hpos

end Line

end SentryPos
