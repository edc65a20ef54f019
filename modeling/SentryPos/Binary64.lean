import Mathlib.Algebra.Order.Floor.Ring
import Mathlib.Data.Int.Log
import Mathlib.Data.Rat.Floor
import Mathlib.Tactic.Linarith

/-!
This module contains the rounding of rationals to binary64 floating point numbers: to the nearest one,
ties to the one with the even significand.
-/

namespace Binary64

def roundEven (q : ℚ) : ℤ :=
  let below := ⌊q⌋
  if q - below < 1 / 2 then below
  else if q - below = 1 / 2 ∧ 2 ∣ below then below
  else below + 1

/-- The exponent of the last place of a number, that of the subnormal numbers at least. -/
def ulpExp (q : ℚ) : ℤ :=
  max (Int.log 2 |q| - 52) (-1074)

def nearest (q : ℚ) : ℚ :=
  roundEven (q / 2 ^ ulpExp q) * 2 ^ ulpExp q

def Representable (q : ℚ) : Prop :=
  ∃ m e : ℤ, |m| ≤ 2 ^ 53 ∧ -1074 ≤ e ∧ q = m * 2 ^ e

section RoundEven

theorem roundEven_intCast (z : ℤ)
    : roundEven z = z := by
  unfold roundEven
  simp

theorem floor_le_roundEven (q : ℚ)
    : ⌊q⌋ ≤ roundEven q := by
  unfold roundEven
  dsimp only
  split
  . omega
  . split <;> omega

theorem roundEven_le (q : ℚ)
    : roundEven q ≤ ⌊q⌋ + 1 := by
  unfold roundEven
  dsimp only
  split
  . omega
  . split <;> omega

theorem roundEven_le_of_le {q : ℚ} {z : ℤ} (h : q ≤ z)
    : roundEven q ≤ z := by
  have hfloor := Int.floor_le q
  have hle : ⌊q⌋ ≤ z := by
    exact_mod_cast hfloor.trans h
  rcases hle.lt_or_eq with hlt | heq
  . have := roundEven_le q
    omega
  . have hq : q = z := le_antisymm h (heq ▸ hfloor)
    rw [hq, roundEven_intCast]

theorem le_roundEven_of_le {q : ℚ} {z : ℤ} (h : z ≤ q)
    : z ≤ roundEven q :=
  (Int.le_floor.mpr h).trans (floor_le_roundEven q)

theorem roundEven_eq_floor_iff (q : ℚ)
    : roundEven q = ⌊q⌋ ↔ q - ⌊q⌋ < 1 / 2 ∨ (q - ⌊q⌋ = 1 / 2 ∧ 2 ∣ ⌊q⌋) := by
  unfold roundEven
  dsimp only
  split
  . next h => exact iff_of_true rfl (.inl h)
  . next h =>
    split
    . next htie => exact iff_of_true rfl (.inr htie)
    . next htie => exact iff_of_false (by omega) (not_or.mpr ⟨h, htie⟩)

theorem roundEven_eq_or (q : ℚ)
    : roundEven q = ⌊q⌋ ∨ roundEven q = ⌊q⌋ + 1 := by
  have hge := floor_le_roundEven q
  have hle := roundEven_le q
  omega

theorem roundEven_mono {a b : ℚ} (h : a ≤ b)
    : roundEven a ≤ roundEven b := by
  rcases (Int.floor_mono h).lt_or_eq with hlt | heq
  . have ha := roundEven_le a
    have hb := floor_le_roundEven b
    omega
  . -- Both are between two neighbours, and only the upper half goes up.
    by_cases hb : roundEven b = ⌊b⌋
    . have ha : roundEven a = ⌊a⌋ := by
        rw [roundEven_eq_floor_iff] at hb ⊢
        rw [heq]
        rcases hb with hb | hb
        . exact .inl (by linarith)
        . rcases h.lt_or_eq with hlt | hab
          . exact .inl (by linarith [hb.1])
          . rw [hab]
            exact .inr hb
      omega
    . have ha := roundEven_le a
      have hup := (roundEven_eq_or b).resolve_left hb
      omega

theorem roundEven_neg (q : ℚ)
    : roundEven (-q) = -roundEven q := by
  by_cases hz : (⌊q⌋ : ℚ) = q
  . rw [← hz, ← Int.cast_neg, roundEven_intCast, roundEven_intCast]
  . have hlt : (⌊q⌋ : ℚ) < q := lt_of_le_of_ne (Int.floor_le q) hz
    have hfloor : ⌊-q⌋ = -⌊q⌋ - 1 := by
      rw [Int.floor_eq_iff]
      push_cast
      have := Int.lt_floor_add_one q
      constructor <;> linarith
    have hiff : roundEven (-q) = ⌊-q⌋ ↔ ¬roundEven q = ⌊q⌋ := by
      rw [roundEven_eq_floor_iff, roundEven_eq_floor_iff, hfloor]
      push_cast
      have hparity : 2 ∣ -⌊q⌋ - 1 ↔ ¬2 ∣ ⌊q⌋ := by
        omega
      rw [hparity]
      rcases lt_trichotomy (q - ⌊q⌋) (1 / 2) with h | h | h
      . apply iff_of_false
        . rintro (hup | htie)
          . linarith
          . linarith [htie.1]
        . exact not_not.mpr (.inl h)
      . have htie : -q - (-⌊q⌋ - 1) = (1 / 2 : ℚ) := by
          linarith
        simp only [h, htie, lt_irrefl, true_and, false_or]
      . apply iff_of_true
        . exact .inl (by linarith)
        . rintro (hdown | htie)
          . linarith
          . linarith [htie.1]
    have hq := roundEven_eq_or q
    have hneg := roundEven_eq_or (-q)
    omega

theorem abs_roundEven_sub_le (q : ℚ)
    : |(roundEven q : ℚ) - q| ≤ 1 / 2 := by
  have hfloor := Int.floor_le q
  have hlt := Int.lt_floor_add_one q
  unfold roundEven
  dsimp only
  rw [abs_le]
  split
  . constructor <;> linarith
  . split
    . next h => constructor <;> linarith [h.1]
    . push_cast
      constructor <;> linarith

end RoundEven

section Nearest

theorem two_zpow_pos (e : ℤ)
    : (0 : ℚ) < 2 ^ e :=
  zpow_pos two_pos e

theorem ulpExp_neg (q : ℚ)
    : ulpExp (-q) = ulpExp q := by
  unfold ulpExp
  rw [abs_neg]

theorem ulpExp_mono {a b : ℚ} (ha : 0 < a) (h : a ≤ b)
    : ulpExp a ≤ ulpExp b := by
  unfold ulpExp
  rw [abs_of_pos ha, abs_of_pos (ha.trans_le h)]
  have := Int.log_mono_right (b := 2) ha h
  omega

theorem nearest_neg (q : ℚ)
    : nearest (-q) = -nearest q := by
  unfold nearest
  rw [ulpExp_neg, neg_div, roundEven_neg]
  push_cast
  ring

@[simp]
theorem nearest_zero
    : nearest 0 = 0 := by
  unfold nearest
  rw [zero_div, ← Int.cast_zero, roundEven_intCast, Int.cast_zero, zero_mul]

theorem nearest_le_of_le {q : ℚ} {m e : ℤ} (he : ulpExp q ≤ e) (h : q ≤ m * 2 ^ e)
    : nearest q ≤ m * 2 ^ e := by
  obtain ⟨n, hn⟩ := Int.eq_ofNat_of_zero_le (sub_nonneg.mpr he)
  have hpos := two_zpow_pos (ulpExp q)
  have hsplit : (m * 2 ^ e : ℚ) = (m * 2 ^ n : ℤ) * 2 ^ ulpExp q := by
    have hpow : (2 : ℚ) ^ e = 2 ^ n * 2 ^ ulpExp q := by
      rw [← zpow_natCast, ← zpow_add₀ two_ne_zero]
      congr 1
      omega
    rw [hpow]
    push_cast
    ring
  rw [hsplit] at h ⊢
  unfold nearest
  apply mul_le_mul_of_nonneg_right _ hpos.le
  exact_mod_cast roundEven_le_of_le ((div_le_iff₀ hpos).mpr h)

theorem le_nearest_of_le {q : ℚ} {m e : ℤ} (he : ulpExp q ≤ e) (h : m * 2 ^ e ≤ q)
    : m * 2 ^ e ≤ nearest q := by
  have hneg : -q ≤ ((-m : ℤ) : ℚ) * 2 ^ e := by
    push_cast
    linarith
  have := nearest_le_of_le (q := -q) (by rwa [ulpExp_neg]) hneg
  rw [nearest_neg] at this
  push_cast at this
  linarith

theorem nearest_nonneg {q : ℚ} (h : 0 ≤ q)
    : 0 ≤ nearest q := by
  have := le_nearest_of_le (m := 0) (le_refl (ulpExp q)) (by simpa using h)
  simpa using this

theorem nearest_mono_of_pos {a b : ℚ} (ha : 0 < a) (h : a ≤ b)
    : nearest a ≤ nearest b := by
  have hb := ha.trans_le h
  rcases (ulpExp_mono ha h).lt_or_eq with hlt | heq
  . -- A power of two between them is a multiple of both last places.
    have hlog : ulpExp b = Int.log 2 b - 52 ∧ Int.log 2 a < Int.log 2 b := by
      unfold ulpExp at hlt ⊢
      rw [abs_of_pos ha, abs_of_pos hb] at hlt
      rw [abs_of_pos hb]
      omega
    have hbelow : a ≤ ((1 : ℤ) : ℚ) * 2 ^ Int.log 2 b := by
      rw [Int.cast_one, one_mul]
      have h1 := Int.lt_zpow_succ_log_self (b := 2) one_lt_two a
      have h2 : (2 : ℚ) ^ (Int.log 2 a + 1) ≤ 2 ^ Int.log 2 b :=
        zpow_le_zpow_right₀ one_le_two hlog.2
      exact h1.le.trans (by exact_mod_cast h2)
    have habove : ((1 : ℤ) : ℚ) * 2 ^ Int.log 2 b ≤ b := by
      rw [Int.cast_one, one_mul]
      exact_mod_cast Int.zpow_log_le_self (b := 2) one_lt_two hb
    exact (nearest_le_of_le (by omega) hbelow).trans (le_nearest_of_le (by omega) habove)
  . unfold nearest
    rw [heq]
    apply mul_le_mul_of_nonneg_right _ (two_zpow_pos _).le
    exact_mod_cast roundEven_mono (div_le_div_of_nonneg_right h (two_zpow_pos _).le)

theorem nearest_mono {a b : ℚ} (h : a ≤ b)
    : nearest a ≤ nearest b := by
  rcases lt_trichotomy a 0 with ha | ha | ha
  . by_cases hb : b < 0
    . have := nearest_mono_of_pos (neg_pos.mpr hb) (neg_le_neg h)
      rw [nearest_neg, nearest_neg] at this
      linarith
    . have h1 := nearest_nonneg (neg_nonneg.mpr ha.le)
      have h2 := nearest_nonneg (not_lt.mp hb)
      rw [nearest_neg] at h1
      linarith
  . rw [ha, nearest_zero]
    exact nearest_nonneg (ha ▸ h)
  . exact nearest_mono_of_pos ha h

theorem nearest_of_representable {q : ℚ} (h : Representable q)
    : nearest q = q := by
  obtain ⟨m, e, hm, he, hq⟩ := h
  rcases eq_or_ne q 0 with h0 | h0
  . rw [h0, nearest_zero]
  . -- The last place is at most `e`, up to the one significand that is a power of two.
    have hlog : (2 : ℚ) ^ Int.log 2 |q| ≤ |q| := by
      exact_mod_cast Int.zpow_log_le_self (b := 2) one_lt_two (abs_pos.mpr h0)
    have habs : |q| = (|m| : ℤ) * 2 ^ e := by
      rw [hq, abs_mul, abs_of_pos (two_zpow_pos e), Int.cast_abs]
    have hle : |q| ≤ 2 ^ (53 + e) := by
      rw [habs, zpow_add₀ two_ne_zero]
      apply mul_le_mul_of_nonneg_right _ (two_zpow_pos e).le
      exact_mod_cast hm
    have hexp : Int.log 2 |q| ≤ 53 + e :=
      (zpow_le_zpow_iff_right₀ one_lt_two).mp (hlog.trans hle)
    by_cases hulp : ulpExp q ≤ e
    . apply le_antisymm
      . rw [hq] at hulp ⊢
        exact nearest_le_of_le hulp le_rfl
      . rw [hq] at hulp ⊢
        exact le_nearest_of_le hulp le_rfl
    . have htop : Int.log 2 |q| = 53 + e ∧ ulpExp q ≤ 53 + e := by
        unfold ulpExp at hulp ⊢
        omega
      have heq : |q| = 2 ^ (53 + e) := by
        rw [htop.1] at hlog
        exact le_antisymm hle hlog
      rcases abs_choice q with hsign | hsign
      . have hpow : q = ((1 : ℤ) : ℚ) * 2 ^ (53 + e) := by
          rw [← hsign, heq, Int.cast_one, one_mul]
        rw [hpow]
        rw [hpow] at htop
        exact le_antisymm (nearest_le_of_le htop.2 le_rfl) (le_nearest_of_le htop.2 le_rfl)
      . have hpow : q = ((-1 : ℤ) : ℚ) * 2 ^ (53 + e) := by
          rw [Int.cast_neg, Int.cast_one, neg_one_mul, ← heq, hsign, neg_neg]
        rw [hpow]
        rw [hpow] at htop
        exact le_antisymm (nearest_le_of_le htop.2 le_rfl) (le_nearest_of_le htop.2 le_rfl)

theorem representable_intCast {z : ℤ} (h : |z| ≤ 2 ^ 53)
    : Representable z :=
  ⟨z, 0, h, by norm_num, by simp⟩

theorem nearest_le {q r : ℚ} (hr : Representable r) (h : q ≤ r)
    : nearest q ≤ r :=
  (nearest_mono h).trans (nearest_of_representable hr).le

theorem le_nearest {q r : ℚ} (hr : Representable r) (h : r ≤ q)
    : r ≤ nearest q :=
  (nearest_of_representable hr).ge.trans (nearest_mono h)

theorem abs_nearest_le {q r : ℚ} (hr : Representable r) (h : |q| ≤ r)
    : |nearest q| ≤ r := by
  rw [abs_le] at h ⊢
  constructor
  . have := nearest_le hr (neg_le.mp h.1)
    rw [nearest_neg] at this
    linarith
  . exact nearest_le hr h.2

theorem nearest_isInt_or (q : ℚ)
    : (∃ z : ℤ, nearest q = z) ∨ |nearest q| < 2 ^ 52 := by
  have hpow : (((2 ^ 52 : ℤ) : ℚ)) = 2 ^ 52 := by
    norm_num
  by_cases hq : |q| < 2 ^ 52
  . have hle : |nearest q| ≤ ((2 ^ 52 : ℤ) : ℚ) :=
      abs_nearest_le (representable_intCast (by norm_num)) (hpow ▸ hq.le)
    rcases hle.lt_or_eq with hlt | heq
    . exact .inr (hpow ▸ hlt)
    . rcases abs_choice (nearest q) with hsign | hsign
      . exact .inl ⟨2 ^ 52, by rw [← heq, hsign]⟩
      . exact .inl ⟨-2 ^ 52, by rw [Int.cast_neg, ← heq, hsign, neg_neg]⟩
  . have hlog : (52 : ℤ) ≤ Int.log 2 |q| := by
      have hmono := Int.log_mono_right (b := 2) (by norm_num) (not_lt.mp hq)
      have h52 : Int.log 2 ((2 : ℚ) ^ 52) = 52 := by
        exact_mod_cast Int.log_zpow (R := ℚ) (b := 2) one_lt_two 52
      rwa [h52] at hmono
    obtain ⟨n, hn⟩ := Int.eq_ofNat_of_zero_le (a := ulpExp q) (by unfold ulpExp; omega)
    refine .inl ⟨roundEven (q / 2 ^ ulpExp q) * 2 ^ n, ?_⟩
    unfold nearest
    rw [hn]
    push_cast
    rfl

theorem representable_nearest (q : ℚ)
    : Representable (nearest q) := by
  refine ⟨roundEven (q / 2 ^ ulpExp q), ulpExp q, ?_, le_max_right _ _, rfl⟩
  -- The quotient by the last place has 53 bits at most.
  have hpos := two_zpow_pos (ulpExp q)
  have hlt : |q| < 2 ^ (Int.log 2 |q| + 1) := by
    exact_mod_cast Int.lt_zpow_succ_log_self (b := 2) one_lt_two |q|
  have hpow : (2 : ℚ) ^ (Int.log 2 |q| + 1) ≤ 2 ^ (53 : ℤ) * 2 ^ ulpExp q := by
    rw [← zpow_add₀ two_ne_zero]
    apply zpow_le_zpow_right₀ one_le_two
    unfold ulpExp
    omega
  have hquot : |q / 2 ^ ulpExp q| ≤ ((2 ^ 53 : ℤ) : ℚ) := by
    rw [abs_div, abs_of_pos hpos, div_le_iff₀ hpos]
    push_cast
    exact hlt.le.trans (by exact_mod_cast hpow)
  rw [abs_le] at hquot ⊢
  constructor
  . apply le_roundEven_of_le
    push_cast at hquot ⊢
    exact hquot.1
  . exact roundEven_le_of_le hquot.2

theorem abs_nearest_sub_le (q : ℚ)
    : |nearest q - q| ≤ 2 ^ ulpExp q / 2 := by
  have hpos := two_zpow_pos (ulpExp q)
  have hfactor : nearest q - q
      = (roundEven (q / 2 ^ ulpExp q) - q / 2 ^ ulpExp q) * 2 ^ ulpExp q := by
    unfold nearest
    rw [sub_mul, div_mul_cancel₀ _ hpos.ne']
  rw [hfactor, abs_mul, abs_of_pos hpos, mul_comm, div_eq_mul_one_div (2 ^ ulpExp q)]
  exact mul_le_mul_of_nonneg_left (abs_roundEven_sub_le _) hpos.le

theorem abs_nearest_sub_le_of_lt {q : ℚ} {k : ℕ} (h : |q| < 2 ^ (k + 1))
    : |nearest q - q| ≤ 2 ^ ((k : ℤ) - 53) := by
  have hulp : ulpExp q ≤ (k : ℤ) - 52 := by
    rcases eq_or_ne q 0 with h0 | h0
    . rw [h0]
      unfold ulpExp
      rw [abs_zero, Int.log_zero_right]
      omega
    . have hlog : (2 : ℚ) ^ Int.log 2 |q| ≤ |q| := by
        exact_mod_cast Int.zpow_log_le_self (b := 2) one_lt_two (abs_pos.mpr h0)
      have hlt : (2 : ℚ) ^ Int.log 2 |q| < 2 ^ ((k : ℤ) + 1) := by
        exact_mod_cast hlog.trans_lt h
      have := (zpow_lt_zpow_iff_right₀ one_lt_two).mp hlt
      unfold ulpExp
      omega
  calc |nearest q - q| ≤ 2 ^ ulpExp q / 2 := abs_nearest_sub_le q
    _ ≤ 2 ^ ((k : ℤ) - 52) / 2 :=
      div_le_div_of_nonneg_right (zpow_le_zpow_right₀ one_le_two hulp) two_pos.le
    _ = 2 ^ ((k : ℤ) - 53) := by
      rw [div_eq_iff two_ne_zero, ← zpow_add_one₀ two_ne_zero]
      congr 1
      omega

end Nearest

end Binary64
