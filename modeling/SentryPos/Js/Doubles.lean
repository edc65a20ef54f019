import Mathlib.Algebra.Order.BigOperators.Group.List
import Mathlib.Data.List.Induction
import SentryPos.Js.Number

/-!
This module contains the results of binary64 arithmetic: their bounds, and when sums are exact.
-/

namespace JsNumber

open Binary64

/-- The sum of numbers, added from the left. -/
def sum [Rounding] (xs : List JsNumber) : JsNumber :=
  xs.foldl (· + ·) 0

def Within (lo hi : ℤ) (x : JsNumber) : Prop :=
  ∃ q : ℚ, x = .fin q ∧ lo ≤ q ∧ q ≤ hi

def NonNeg (x : JsNumber) : Prop :=
  x = .posInf ∨ ∃ q : ℚ, 0 ≤ q ∧ x = .fin q

def NonPos (x : JsNumber) : Prop :=
  x = .negInf ∨ ∃ q : ℚ, q ≤ 0 ∧ x = .fin q

def IsInt (x : JsNumber) : Prop :=
  ∃ z : ℤ, x = (z : JsNumber)

section Results

variable {a b q y : ℚ}

theorem double_add (a b : ℚ) : (.fin a + .fin b : JsNumber) = ofBinary64 (a + b) := by
  rfl

theorem double_sub (a b : ℚ) : (.fin a - .fin b : JsNumber) = ofBinary64 (a - b) := by
  rw [sub_eq_add_neg]
  rfl

theorem double_mul (a b : ℚ) : (.fin a * .fin b : JsNumber) = ofBinary64 (a * b) := by
  rfl

theorem double_div (hb : b ≠ 0) : (.fin a / .fin b : JsNumber) = ofBinary64 (a / b) :=
  if_neg hb

theorem fin_of_mul [Rounding] {x y : JsNumber} (h : x * y = .fin q)
    : x = .fin x.toRat ∧ y = .fin y.toRat := by
  have hsign : ∀ a : ℚ, infOfSign a ≠ .fin q := by
    intro a
    unfold infOfSign
    split
    . simp
    . split <;> simp
  cases x <;> cases y <;> first | exact ⟨rfl, rfl⟩ | exact absurd h (hsign _) | cases h

theorem fin_of_div [Rounding] {x : JsNumber} (h : x / .fin b = .fin q) : x = .fin x.toRat := by
  cases x with
  | fin a => rfl
  | nan => cases h
  | posInf =>
    change (if b < 0 then JsNumber.negInf else .posInf) = _ at h
    split at h <;> cases h
  | negInf =>
    change (if b < 0 then JsNumber.posInf else .negInf) = _ at h
    split at h <;> cases h

theorem eq_nearest (h : ofBinary64 q = .fin y) : y = nearest q := by
  unfold ofBinary64 infOfSign at h
  split at h
  . split at h
    . cases h
    . split at h <;> cases h
  . cases h
    rfl

theorem representable_of_ofBinary64 (h : ofBinary64 q = .fin y) : Representable y := by
  rw [eq_nearest h]
  exact representable_nearest q

theorem ofBinary64_of_abs_le {k : ℕ} (hk : k ≤ 1023) (h : |q| ≤ 2 ^ k)
    : ofBinary64 q = .fin (nearest q) := by
  unfold ofBinary64
  rw [if_neg]
  have hrep : Representable (((1 : ℤ) : ℚ) * 2 ^ (k : ℤ)) :=
    ⟨1, k, by norm_num, by omega, rfl⟩
  rw [Int.cast_one, one_mul, zpow_natCast] at hrep
  rw [not_le]
  calc |nearest q| ≤ 2 ^ k := abs_nearest_le hrep h
    _ < 2 ^ 1024 := pow_lt_pow_right₀ one_lt_two (by omega)

theorem within_ofBinary64 {lo hi : ℤ} (hge : lo ≤ q) (hle : q ≤ hi) (hlo : -2 ^ 53 ≤ lo)
    (hhi : hi ≤ 2 ^ 53) : Within lo hi (ofBinary64 q) := by
  have hord : lo ≤ hi := by
    exact_mod_cast hge.trans hle
  have hloq : (-2 ^ 53 : ℚ) ≤ lo := by
    exact_mod_cast hlo
  have hhiq : (hi : ℚ) ≤ 2 ^ 53 := by
    exact_mod_cast hhi
  have habs : |q| ≤ 2 ^ 53 := by
    rw [abs_le]
    constructor <;> linarith
  refine ⟨nearest q, ofBinary64_of_abs_le (by norm_num) habs, ?_, ?_⟩
  . apply le_nearest (representable_intCast _) hge
    rw [abs_le]
    omega
  . apply nearest_le (representable_intCast _) hle
    rw [abs_le]
    omega

theorem nearest_intCast_isInt (z : ℤ) : ∃ z' : ℤ, nearest z = z' := by
  by_cases hz : |z| ≤ 2 ^ 53
  . exact ⟨z, nearest_of_representable (representable_intCast hz)⟩
  . refine (nearest_isInt_or z).resolve_right ?_
    have hpow : ((2 ^ 53 : ℤ) : ℚ) = 2 ^ 53 := by
      norm_num
    have hle : (2 ^ 53 : ℚ) ≤ |nearest z| := by
      rw [← hpow]
      rcases abs_choice z with hsign | hsign
      . apply le_trans _ (le_abs_self _)
        apply le_nearest (representable_intCast (by norm_num))
        exact_mod_cast (not_le.mp (hsign ▸ hz)).le
      . apply le_trans _ (neg_le_abs _)
        rw [← nearest_neg]
        apply le_nearest (representable_intCast (by norm_num))
        have hlt := not_le.mp (hsign ▸ hz)
        exact_mod_cast hlt.le
    rw [not_lt]
    linarith

theorem int_of_ofBinary64 {z : ℤ} (h : ofBinary64 z = .fin y) : ∃ z' : ℤ, y = z' := by
  rw [eq_nearest h]
  exact nearest_intCast_isInt z

theorem lt_of_nearest_lt {n : ℤ} (hn : |n| ≤ 2 ^ 53) (h : nearest q < n) : q < n := by
  by_contra hge
  have := le_nearest (representable_intCast hn) (not_lt.mp hge)
  linarith

theorem lt_of_lt_nearest {n : ℤ} (hn : |n| ≤ 2 ^ 53) (h : n < nearest q) : n < q := by
  by_contra hge
  have := nearest_le (representable_intCast hn) (not_lt.mp hge)
  linarith

end Results

section Signs

variable {b q : ℚ} {x : JsNumber}

theorem nonNeg_ofBinary64 (h : 0 ≤ q) : NonNeg (ofBinary64 q) := by
  unfold ofBinary64
  split
  . next hbig =>
    rcases h.eq_or_lt with rfl | hpos
    . rw [nearest_zero, abs_zero] at hbig
      exact absurd hbig (not_le.mpr (pow_pos two_pos _))
    . exact .inl (if_pos hpos)
  . exact .inr ⟨_, nearest_nonneg h, rfl⟩

theorem nonPos_ofBinary64 (h : q ≤ 0) : NonPos (ofBinary64 q) := by
  unfold ofBinary64
  split
  . next hbig =>
    rcases h.eq_or_lt with rfl | hneg
    . rw [nearest_zero, abs_zero] at hbig
      exact absurd hbig (not_le.mpr (pow_pos two_pos _))
    . unfold infOfSign
      rw [if_neg (not_lt.mpr h), if_pos hneg]
      exact .inl rfl
  . refine .inr ⟨_, ?_, rfl⟩
    have hneg := nearest_nonneg (neg_nonneg.mpr h)
    rw [nearest_neg] at hneg
    linarith

theorem NonNeg.mul (hb : 0 < b) (h : NonNeg x) : NonNeg (.fin b * x) := by
  rcases h with rfl | ⟨q, hq, rfl⟩
  . exact .inl (if_pos hb)
  . exact nonNeg_ofBinary64 (mul_nonneg hb.le hq)

theorem NonPos.mul (hb : 0 < b) (h : NonPos x) : NonPos (.fin b * x) := by
  rcases h with rfl | ⟨q, hq, rfl⟩
  . refine .inl ?_
    change infOfSign (-b) = _
    unfold infOfSign
    rw [if_neg (by linarith), if_pos (by linarith)]
  . exact nonPos_ofBinary64 (mul_nonpos_of_nonneg_of_nonpos hb.le hq)

theorem NonNeg.div (hb : 0 < b) (h : NonNeg x) : NonNeg (x / .fin b) := by
  rcases h with rfl | ⟨q, hq, rfl⟩
  . exact .inl (if_neg hb.not_gt)
  . rw [double_div hb.ne']
    exact nonNeg_ofBinary64 (div_nonneg hq hb.le)

theorem NonPos.div (hb : 0 < b) (h : NonPos x) : NonPos (x / .fin b) := by
  rcases h with rfl | ⟨q, hq, rfl⟩
  . exact .inl (if_neg hb.not_gt)
  . rw [double_div hb.ne']
    exact nonPos_ofBinary64 (div_nonpos_of_nonpos_of_nonneg hq hb.le)

end Signs

section Sums

theorem sum_append_singleton [Rounding] (xs : List JsNumber) (x : JsNumber)
    : sum (xs ++ [x]) = sum xs + x := by
  unfold sum
  rw [List.foldl_append, List.foldl_cons, List.foldl_nil]

theorem foldl_eq_sum [Rounding] {α : Type} (f : α → JsNumber) (xs : List α)
    : xs.foldl (fun sum x => sum + f x) 0 = sum (xs.map f) := by
  unfold sum
  rw [List.foldl_map]

theorem foldl_if_eq_sum [Rounding] {α : Type} (p : α → Prop) [DecidablePred p] (f : α → JsNumber)
    (xs : List α)
    : xs.foldl (fun sum x => if p x then sum + f x else sum) 0
        =
      sum ((xs.filter p).map f) := by
  unfold sum
  rw [List.foldl_map, List.foldl_filter]
  simp only [decide_eq_true_eq]

theorem fin_of_sum [Rounding] {xs : List JsNumber} {q : ℚ} (h : sum xs = .fin q)
    : ∀ x ∈ xs, x = .fin x.toRat := by
  induction xs using List.reverseRecOn generalizing q with
  | nil => simp
  | append_singleton xs x ih =>
    rw [sum_append_singleton] at h
    obtain ⟨hxs, hx⟩ := fin_of_add h
    intro y hy
    rw [List.mem_append, List.mem_singleton] at hy
    cases hy with
    | inl hy => exact ih hxs y hy
    | inr hy => exact hy ▸ hx

theorem fin_of_prefix [Rounding] {xs xs' : List JsNumber} {q : ℚ} (hinit : xs' <+: xs)
    (h : sum xs = .fin q) : sum xs' = .fin (sum xs').toRat := by
  induction xs using List.reverseRecOn generalizing q with
  | nil =>
    rw [List.prefix_nil.mp hinit]
    rfl
  | append_singleton xs x ih =>
    rcases List.prefix_concat_iff.mp hinit with heq | hinit
    . rw [heq, h]
      rfl
    . rw [sum_append_singleton] at h
      exact ih hinit (fin_of_add h).1

variable {xs : List JsNumber} {q : ℚ}

theorem representable_zero : Representable 0 := by
  have := representable_intCast (z := 0) (by norm_num)
  rwa [Int.cast_zero] at this

theorem representable_of_sum (h : sum xs = .fin q) : Representable q := by
  induction xs using List.reverseRecOn with
  | nil =>
    cases h
    exact representable_zero
  | append_singleton xs x _ =>
    rw [sum_append_singleton] at h
    obtain ⟨hxs, hx⟩ := fin_of_add h
    rw [hxs, hx, double_add] at h
    exact representable_of_ofBinary64 h

theorem int_of_sum (hxs : ∀ x ∈ xs, IsInt x) (h : sum xs = .fin q) : ∃ z : ℤ, q = z := by
  -- A sum is rounded after its last term, so the induction is from the end.
  induction xs using List.reverseRecOn generalizing q with
  | nil =>
    cases h
    exact ⟨0, by norm_num⟩
  | append_singleton xs x ih =>
    rw [sum_append_singleton] at h
    obtain ⟨z, hz⟩ := ih (fun y hy => hxs y (List.mem_append_left _ hy)) (fin_of_add h).1
    obtain ⟨z', hz'⟩ := hxs x (List.mem_append_right _ (List.mem_singleton_self x))
    rw [(fin_of_add h).1, hz, hz', double_add, ← Int.cast_add] at h
    exact int_of_ofBinary64 h

theorem sum_prefix_le {xs' : List JsNumber} (hinit : xs' <+: xs)
    (hxs : ∀ x ∈ xs, 0 ≤ x.toRat) (h : sum xs = .fin q)
    : sum xs' = .fin (sum xs').toRat ∧ (sum xs').toRat ≤ q := by
  induction xs using List.reverseRecOn generalizing q with
  | nil =>
    rw [List.prefix_nil.mp hinit, h]
    exact ⟨rfl, le_rfl⟩
  | append_singleton xs x ih =>
    rcases List.prefix_concat_iff.mp hinit with heq | hinit
    . rw [heq, h]
      exact ⟨rfl, le_rfl⟩
    . rw [sum_append_singleton] at h
      obtain ⟨hsum, hx⟩ := fin_of_add h
      have hle := ih hinit (fun y hy => hxs y (List.mem_append_left _ hy)) hsum
      refine ⟨hle.1, hle.2.trans ?_⟩
      have hnonneg := hxs x (List.mem_append_right _ (List.mem_singleton_self x))
      rw [hsum, hx, double_add] at h
      rw [eq_nearest h]
      apply le_nearest (representable_of_sum hsum)
      linarith

theorem sum_nonneg (hxs : ∀ x ∈ xs, 0 ≤ x.toRat) (h : sum xs = .fin q) : 0 ≤ q :=
  (sum_prefix_le List.nil_prefix hxs h).2

theorem le_sum (hxs : ∀ x ∈ xs, 0 ≤ x.toRat) (hrep : ∀ x ∈ xs, Representable x.toRat)
    (h : sum xs = .fin q) : ∀ x ∈ xs, x.toRat ≤ q := by
  intro x hmem
  obtain ⟨before, after, rfl⟩ := List.mem_iff_append.mp hmem
  have hinit : before ++ [x] <+: before ++ x :: after :=
    ⟨after, by simp⟩
  obtain ⟨hsum, hle⟩ := sum_prefix_le hinit hxs h
  apply le_trans _ hle
  have hbefore : ∀ y ∈ before, 0 ≤ y.toRat := fun y hy => hxs y (List.mem_append_left _ hy)
  rw [sum_append_singleton] at hsum
  obtain ⟨hfin, hx⟩ := fin_of_add hsum
  have hnonneg := sum_nonneg hbefore hfin
  rw [sum_append_singleton]
  rw [hfin, hx, double_add] at hsum
  conv_rhs => rw [hfin, hx, double_add]
  generalize (sum before).toRat = p at hnonneg hsum ⊢
  generalize hr : (ofBinary64 (p + x.toRat)).toRat = r at hsum
  rw [eq_nearest hsum]
  exact le_nearest (hrep x hmem) (by linarith)

variable {zs : List ℤ}

theorem sum_int (h : ∀ zs', zs' <+: zs → |zs'.sum| ≤ 2 ^ 53)
    : sum (zs.map fun z : ℤ => (z : JsNumber)) = (zs.sum : JsNumber) := by
  induction zs using List.reverseRecOn with
  | nil => simp [sum, zero_eq]
  | append_singleton zs z ih =>
    have hle := h _ (List.prefix_refl _)
    rw [List.sum_append, List.sum_singleton] at hle ⊢
    rw [List.map_append, List.map_singleton, sum_append_singleton,
      ih fun zs' hinit => h zs' (hinit.trans (List.prefix_append _ _))]
    exact int_add hle

/-- If no value of a sum of integers is rounded to more than is safe, it is exact. -/
theorem sum_int_of_lt
    (h : ∀ zs', zs' <+: zs → ∃ q : ℚ, sum (zs'.map fun z : ℤ => (z : JsNumber)) = .fin q ∧ |q| < 2 ^ 53)
    : ∀ zs', zs' <+: zs → |zs'.sum| < 2 ^ 53 := by
  induction zs using List.reverseRecOn with
  | nil =>
    intro zs' hinit
    rw [List.prefix_nil.mp hinit]
    norm_num
  | append_singleton zs z ih =>
    have hbefore := ih fun zs' hinit => h zs' (hinit.trans (List.prefix_append _ _))
    intro zs' hinit
    rcases List.prefix_concat_iff.mp hinit with rfl | hinit
    . obtain ⟨q, hq, hlt⟩ := h _ (List.prefix_refl _)
      rw [List.map_append, List.map_singleton, sum_append_singleton,
        sum_int fun zs' hinit => (hbefore zs' hinit).le, double_add, ← Int.cast_add] at hq
      rw [eq_nearest hq, abs_lt] at hlt
      rw [List.sum_append, List.sum_singleton, abs_lt]
      constructor
      . have := lt_of_lt_nearest (n := -2 ^ 53) (by norm_num) (by push_cast; exact hlt.1)
        exact_mod_cast this
      . have := lt_of_nearest_lt (n := 2 ^ 53) (by norm_num) (by push_cast; exact hlt.2)
        exact_mod_cast this
    . exact hbefore zs' hinit

/-- A sum of integers that are not negative is exact if it ends below what is safe. -/
theorem sum_int_of_nonneg (hzs : ∀ z ∈ zs, 0 ≤ z) {q : ℚ}
    (h : sum (zs.map fun z : ℤ => (z : JsNumber)) = .fin q) (hlt : q < 2 ^ 53)
    : q = zs.sum := by
  have hnonneg : ∀ x ∈ zs.map (fun z : ℤ => (z : JsNumber)), 0 ≤ x.toRat := by
    intro x hx
    obtain ⟨z, hz, rfl⟩ := List.mem_map.mp hx
    rw [toRat_fin]
    exact_mod_cast hzs z hz
  have hsafe : ∀ zs', zs' <+: zs → |zs'.sum| < 2 ^ 53 := sum_int_of_lt fun zs' hinit => by
    have hmap := hinit.map fun z : ℤ => (z : JsNumber)
    obtain ⟨hfin, hle⟩ := sum_prefix_le hmap hnonneg h
    have hge := sum_nonneg (fun x hx => hnonneg x (hmap.subset hx)) hfin
    refine ⟨_, hfin, ?_⟩
    rw [abs_lt]
    constructor <;> linarith
  rw [sum_int fun zs' hinit => (hsafe zs' hinit).le, fin.injEq] at h
  exact h.symm

/-- A sum of integers that are not negative is exact if it is safe, and so are its values before. -/
theorem sum_int_of_prefix (hzs : ∀ z ∈ zs, 0 ≤ z) (hle : zs.sum ≤ 2 ^ 53) {zs' : List ℤ}
    (hinit : zs' <+: zs)
    : sum (zs'.map fun z : ℤ => (z : JsNumber)) = (zs'.sum : JsNumber)
        ∧ 0 ≤ zs'.sum ∧ zs'.sum ≤ zs.sum := by
  have hbounds : ∀ {zs'}, zs' <+: zs → 0 ≤ zs'.sum ∧ zs'.sum ≤ zs.sum := by
    intro zs' hinit
    refine ⟨List.sum_nonneg fun z hz => hzs z (hinit.subset hz), ?_⟩
    obtain ⟨rest, rfl⟩ := hinit
    have hrest : 0 ≤ rest.sum := List.sum_nonneg fun z hz => hzs z (List.mem_append_right _ hz)
    rw [List.sum_append]
    omega
  refine ⟨sum_int fun zs'' hinit' => ?_, hbounds hinit⟩
  have := hbounds (hinit'.trans hinit)
  rw [abs_le]
  omega

end Sums

end JsNumber
