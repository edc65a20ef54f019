import Mathlib.Data.List.Forall2

/-!
This module contains facts about computations in `Except`: what it means for a sequence of checks
to succeed or to fail.
-/

namespace Checks

variable {ε α β : Type} {e : ε}

theorem bind_eq_ok {x : Except ε α} {f : α → Except ε β} {b : β}
    : x >>= f = .ok b ↔ ∃ a, x = .ok a ∧ f a = .ok b := by
  cases x with
  | ok a =>
    constructor
    . intro h
      exact ⟨a, rfl, h⟩
    . intro h
      obtain ⟨a', ha, hb⟩ := h
      cases ha
      exact hb
  | error e =>
    constructor
    . intro h
      cases h
    . intro h
      obtain ⟨a, ha, _⟩ := h
      cases ha

theorem bind_eq_error {x : Except ε α} {f : α → Except ε β}
    : x >>= f = .error e ↔ x = .error e ∨ ∃ a, x = .ok a ∧ f a = .error e := by
  cases x with
  | ok a =>
    constructor
    . intro h
      exact .inr ⟨a, rfl, h⟩
    . intro h
      cases h with
      | inl h => cases h
      | inr h =>
        obtain ⟨a', ha, hb⟩ := h
        cases ha
        exact hb
  | error e' =>
    constructor
    . intro h
      cases h
      exact .inl rfl
    . intro h
      cases h with
      | inl h =>
        cases h
        rfl
      | inr h =>
        obtain ⟨a, ha, _⟩ := h
        cases ha

theorem map_eq_ok {x : Except ε α} {f : α → β} {b : β}
    : x.map f = .ok b ↔ ∃ a, x = .ok a ∧ f a = b := by
  cases x <;> simp [Except.map]

theorem mapError_eq_ok {ε' : Type} {f : ε → ε'} {x : Except ε α} {a : α}
    : x.mapError f = .ok a ↔ x = .ok a := by
  cases x <;> simp [Except.mapError]

theorem pure_ne_error {a : α} : (pure a : Except ε α) ≠ .error e := by
  intro h
  cases h

theorem forM_eq_error {f : α → Except ε Unit} {xs : List α} (h : xs.forM f = .error e)
    : ∃ x ∈ xs, f x = .error e := by
  induction xs with
  | nil => cases h
  | cons x xs ih =>
    rw [List.forM, bind_eq_error] at h
    cases h with
    | inl h => exact ⟨x, by simp, h⟩
    | inr h =>
      obtain ⟨_, _, hxs⟩ := h
      obtain ⟨x', hx', he⟩ := ih hxs
      exact ⟨x', by simp [hx'], he⟩

theorem mapM_eq_error {f : α → Except ε β} {xs : List α} (h : xs.mapM f = .error e)
    : ∃ x ∈ xs, f x = .error e := by
  induction xs with
  | nil => cases h
  | cons x xs ih =>
    rw [List.mapM_cons, bind_eq_error] at h
    cases h with
    | inl h => exact ⟨x, by simp, h⟩
    | inr h =>
      obtain ⟨_, _, hxs⟩ := h
      rw [bind_eq_error] at hxs
      cases hxs with
      | inl hxs =>
        obtain ⟨x', hx', he⟩ := ih hxs
        exact ⟨x', by simp [hx'], he⟩
      | inr hxs =>
        obtain ⟨_, _, hpure⟩ := hxs
        exact absurd hpure pure_ne_error

theorem mapM_eq_ok {f : α → Except ε β} {xs : List α} {ys : List β} (h : xs.mapM f = .ok ys)
    : List.Forall₂ (fun x y => f x = .ok y) xs ys := by
  induction xs generalizing ys with
  | nil =>
    cases h
    exact .nil
  | cons x xs ih =>
    rw [List.mapM_cons, bind_eq_ok] at h
    obtain ⟨y, hy, h⟩ := h
    rw [bind_eq_ok] at h
    obtain ⟨ys', hys, hpure⟩ := h
    cases hpure
    exact .cons hy (ih hys)

theorem exists_of_mem_left {r : α → β → Prop} {xs : List α} {ys : List β} (h : List.Forall₂ r xs ys)
    {x : α} (hx : x ∈ xs) : ∃ y ∈ ys, r x y := by
  induction h with
  | nil => cases hx
  | @cons x' y xs ys hxy _ ih =>
    cases List.mem_cons.mp hx with
    | inl hx =>
      rw [hx]
      exact ⟨y, List.mem_cons_self, hxy⟩
    | inr hx =>
      obtain ⟨y', hy', hr⟩ := ih hx
      exact ⟨y', List.mem_cons_of_mem y hy', hr⟩

theorem exists_of_mem_right {r : α → β → Prop} {xs : List α} {ys : List β} (h : List.Forall₂ r xs ys)
    {y : β} (hy : y ∈ ys) : ∃ x ∈ xs, r x y :=
  exists_of_mem_left h.flip hy

theorem mapM_ok {f : α → Except ε β} {g : α → β} {xs : List α} (h : ∀ x ∈ xs, f x = .ok (g x))
    : xs.mapM f = .ok (xs.map g) := by
  induction xs with
  | nil => rfl
  | cons x xs ih =>
    rw [List.mapM_cons, h x (by simp), ih]
    . rfl
    . intro x' hx'
      apply h
      simp [hx']

theorem mapM_congr {f g : α → Except ε β} {xs : List α} (h : ∀ x ∈ xs, f x = g x)
    : xs.mapM f = xs.mapM g := by
  induction xs with
  | nil => rfl
  | cons x xs ih =>
    rw [List.mapM_cons, List.mapM_cons, h x List.mem_cons_self,
      ih fun x' hx' => h x' (List.mem_cons_of_mem x hx')]

theorem exists_mapM {γ : Type} {f : β → Except ε γ} {g : α → β} {p : α → γ → Prop} {xs : List α}
    (h : ∀ x ∈ xs, ∃ y, f (g x) = .ok y ∧ p x y)
    : ∃ ys, (xs.map g).mapM f = .ok ys ∧ List.Forall₂ p xs ys := by
  induction xs with
  | nil => exact ⟨[], rfl, .nil⟩
  | cons x xs ih =>
    obtain ⟨y, hy, hp⟩ := h x List.mem_cons_self
    obtain ⟨ys, hys, hps⟩ := ih fun x' hx' => h x' (List.mem_cons_of_mem x hx')
    refine ⟨y :: ys, ?_, .cons hp hps⟩
    rw [List.map_cons, List.mapM_cons, hy, hys]
    rfl

end Checks
