import SentryPos.Binary64

/-!
This module contains JavaScript numbers: rationals next to the special values, with the arithmetic and
the `Math` functions on them. Arithmetic is that of binary64 unless a statement names another rounding.
There is one zero.
-/

inductive JsNumber where
  | fin (q : ℚ)
  | nan
  | posInf
  | negInf
  deriving DecidableEq

/-- The number that an operation with this exact result gives. -/
class Rounding where
  ofRat : ℚ → JsNumber
  ofRat_int : ∀ z : ℤ, |z| ≤ 2 ^ 53 → ofRat z = .fin z

namespace JsNumber

instance : Coe ℚ JsNumber := ⟨.fin⟩

instance : Coe ℤ JsNumber := ⟨fun z => .fin z⟩

instance (n : Nat) : OfNat JsNumber n := ⟨.fin n⟩

instance : Inhabited JsNumber := ⟨0⟩

def neg : JsNumber → JsNumber
  | .fin q => .fin (-q)
  | .nan => .nan
  | .posInf => .negInf
  | .negInf => .posInf

/-- The infinity with the sign of `q`, which is not a number when `q` is zero. -/
def infOfSign (q : ℚ) : JsNumber :=
  if 0 < q then .posInf
  else if q < 0 then .negInf
  else .nan

def ofBinary64 (q : ℚ) : JsNumber :=
  if 2 ^ 1024 ≤ |Binary64.nearest q| then infOfSign q
  else .fin (Binary64.nearest q)

theorem ofBinary64_int (z : ℤ) (h : |z| ≤ 2 ^ 53)
    : ofBinary64 z = .fin z := by
  unfold ofBinary64
  rw [Binary64.nearest_of_representable (Binary64.representable_intCast h), if_neg]
  rw [not_le]
  calc |(z : ℚ)| ≤ 2 ^ 53 := by exact_mod_cast h
    _ < 2 ^ 1024 := pow_lt_pow_right₀ one_lt_two (by norm_num)

instance binary64 : Rounding where
  ofRat := ofBinary64
  ofRat_int := ofBinary64_int

theorem fin_int (z : ℤ) (_ : |z| ≤ 2 ^ 53)
    : JsNumber.fin z = .fin z := rfl

@[reducible]
def exact : Rounding where
  ofRat := .fin
  ofRat_int := fin_int

section Arithmetic

variable [Rounding]

/-- `Number` of a decimal. -/
def number (q : ℚ) : ℚ :=
  match Rounding.ofRat q with
  | .fin x => x
  | _ => 0

def add : JsNumber → JsNumber → JsNumber
  | .fin a, .fin b => Rounding.ofRat (a + b)
  | .nan, _ | _, .nan => .nan
  | .posInf, .negInf | .negInf, .posInf => .nan
  | .posInf, _ | _, .posInf => .posInf
  | .negInf, _ | _, .negInf => .negInf

def mul : JsNumber → JsNumber → JsNumber
  | .fin a, .fin b => Rounding.ofRat (a * b)
  | .nan, _ | _, .nan => .nan
  | .posInf, .fin q | .fin q, .posInf => infOfSign q
  | .negInf, .fin q | .fin q, .negInf => infOfSign (-q)
  | .posInf, .posInf | .negInf, .negInf => .posInf
  | .posInf, .negInf | .negInf, .posInf => .negInf

def div : JsNumber → JsNumber → JsNumber
  | .fin a, .fin b => if b = 0 then infOfSign a else Rounding.ofRat (a / b)
  | .nan, _ | _, .nan => .nan
  | .fin _, .posInf | .fin _, .negInf => .fin 0
  | .posInf, .fin q => if q < 0 then .negInf else .posInf
  | .negInf, .fin q => if q < 0 then .posInf else .negInf
  | _, _ => .nan

end Arithmetic

instance : Neg JsNumber := ⟨neg⟩
instance [Rounding] : Add JsNumber := ⟨add⟩
instance [Rounding] : Sub JsNumber := ⟨fun a b => a + -b⟩
instance [Rounding] : Mul JsNumber := ⟨mul⟩
instance [Rounding] : Div JsNumber := ⟨div⟩

/-- The comparison `a < b`, false as soon as one side is not a number. -/
def blt : JsNumber → JsNumber → Bool
  | .fin a, .fin b => a < b
  | .nan, _ | _, .nan => false
  | .negInf, .negInf => false
  | .negInf, _ => true
  | _, .negInf => false
  | .posInf, _ => false
  | .fin _, .posInf => true

/-- The comparison `a <= b`, false as soon as one side is not a number. -/
def ble (a b : JsNumber) : Bool :=
  blt a b || (a == b && a != .nan)

/-- The strict equality `a === b`. -/
def strictEq (a b : JsNumber) : Bool :=
  a == b && a != .nan

/-- `Math.min` of two numbers. -/
def min : JsNumber → JsNumber → JsNumber
  | .nan, _ | _, .nan => .nan
  | a, b => if blt b a then b else a

/-- `Math.round`: to the nearest integer, ties towards positive infinity. -/
def round : JsNumber → JsNumber
  | .fin q => .fin ⌊q + 1 / 2⌋
  | x => x

/-- `Math.abs`. -/
def abs : JsNumber → JsNumber
  | .fin q => .fin |q|
  | .nan => .nan
  | _ => .posInf

/-- `Math.sign`. -/
def sign : JsNumber → JsNumber
  | .fin q => if 0 < q then 1 else if q < 0 then .fin (-1) else 0
  | .nan => .nan
  | .posInf => 1
  | .negInf => .fin (-1)

@[simp]
theorem fin_neg (a : ℚ) : (-.fin a : JsNumber) = .fin (-a) := rfl

theorem ofNat_eq (n : Nat) : (OfNat.ofNat n : JsNumber) = .fin n := rfl

theorem int_add [Rounding] {a b : ℤ} (h : |a + b| ≤ 2 ^ 53)
    : ((a : JsNumber) + (b : JsNumber)) = ((a + b : ℤ) : JsNumber) := by
  rw [← Rounding.ofRat_int _ h, Int.cast_add]
  rfl

theorem int_sub [Rounding] {a b : ℤ} (h : |a - b| ≤ 2 ^ 53)
    : ((a : JsNumber) - (b : JsNumber)) = ((a - b : ℤ) : JsNumber) := by
  rw [sub_eq_add_neg] at h ⊢
  rw [← int_add h, Int.cast_neg]
  rfl

section Exact

attribute [local instance] exact

@[simp]
theorem fin_add (a b : ℚ) : (.fin a + .fin b : JsNumber) = .fin (a + b) := rfl

@[simp]
theorem fin_sub (a b : ℚ) : (.fin a - .fin b : JsNumber) = .fin (a - b) := by
  change JsNumber.fin (a + -b) = _
  rw [sub_eq_add_neg]

@[simp]
theorem fin_mul (a b : ℚ) : (.fin a * .fin b : JsNumber) = .fin (a * b) := rfl

theorem fin_div {a b : ℚ} (hb : b ≠ 0) : (.fin a / .fin b : JsNumber) = .fin (a / b) :=
  if_neg hb

end Exact

theorem zero_eq : (0 : JsNumber) = .fin 0 := rfl

theorem blt_fin (a b : ℚ) : blt (.fin a) (.fin b) = decide (a < b) := rfl

theorem ble_fin (a b : ℚ) : ble (.fin a) (.fin b) = decide (a ≤ b) := by
  unfold ble
  rw [blt_fin, Bool.eq_iff_iff]
  simp [le_iff_lt_or_eq]

theorem eq_fin_of_strictEq {x : JsNumber} {q : ℚ} (h : strictEq (.fin q) x = true)
    : x = .fin q := by
  simp only [strictEq, Bool.and_eq_true, beq_iff_eq] at h
  exact h.1.symm

def toRat : JsNumber → ℚ
  | .fin q => q
  | _ => 0

@[simp]
theorem toRat_fin (q : ℚ) : toRat (.fin q) = q := rfl

theorem fin_of_add [Rounding] {x y : JsNumber} {q : ℚ} (h : x + y = .fin q)
    : x = .fin x.toRat ∧ y = .fin y.toRat := by
  cases x <;> cases y <;> first | exact ⟨rfl, rfl⟩ | cases h

theorem fin_of_sub [Rounding] {x y : JsNumber} {q : ℚ} (h : x - y = .fin q)
    : x = .fin x.toRat ∧ y = .fin y.toRat := by
  cases x <;> cases y <;> first | exact ⟨rfl, rfl⟩ | cases h

variable {α : Type} {xs : List α}

theorem foldl_fin {step : JsNumber → α → JsNumber} {value : α → ℚ}
    (h : ∀ x ∈ xs, ∀ a, step (.fin a) x = .fin (a + value x)) (a : ℚ)
    : xs.foldl step (.fin a) = .fin (a + (xs.map value).sum) := by
  induction xs generalizing a with
  | nil => simp
  | cons x xs ih =>
    rw [List.foldl_cons, h x List.mem_cons_self, List.map_cons, List.sum_cons, ← add_assoc]
    exact ih (fun y hy => h y (List.mem_cons_of_mem _ hy)) _

theorem finite_of_foldl [Rounding] {f : α → JsNumber} {p : α → Prop} [DecidablePred p] {x : JsNumber} {q : ℚ}
    (h : xs.foldl (fun sum y => if p y then sum + f y else sum) x = .fin q)
    : x = .fin x.toRat ∧ ∀ y ∈ xs, p y → f y = .fin (f y).toRat := by
  induction xs generalizing x with
  | nil =>
    rw [List.foldl_nil] at h
    rw [h]
    simp
  | cons y xs ih =>
    rw [List.foldl_cons] at h
    have hrest := ih h
    rw [List.forall_mem_cons]
    by_cases hy : p y
    . rw [if_pos hy] at hrest
      have hboth := fin_of_add hrest.1
      exact ⟨hboth.1, fun _ => hboth.2, hrest.2⟩
    . rw [if_neg hy] at hrest
      exact ⟨hrest.1, fun hp => absurd hp hy, hrest.2⟩

end JsNumber
