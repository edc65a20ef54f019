import Mathlib.Data.List.Dedup
import Mathlib.Data.List.Nodup

/-!
This module contains rows that are grouped by a key, maps that the groups are merged into, and lists
that lack rows which add nothing.
-/

namespace Grouping

variable {α β κ : Type} [DecidableEq κ]

def groupBy (key : α → κ) (rows : List α) : List (κ × List α) :=
  (rows.map key).dedup.map fun k => (k, rows.filter fun r => key r = k)

/-- A map whose entries stay in the order in which their keys came in. -/
abbrev Entries (κ β : Type) := List (κ × β)

namespace Entries

def get? (m : Entries κ β) (k : κ) : Option β :=
  (m.find? fun e => e.1 = k).map (·.2)

def set (m : Entries κ β) (k : κ) (b : β) : Entries κ β :=
  if k ∈ m.map Prod.fst then m.map fun e => if e.1 = k then (k, b) else e
  else m ++ [(k, b)]

def merge (key : α → κ) (add : Option β → α → β) (m : Entries κ β) (rows : List α) : Entries κ β :=
  rows.foldl (fun m r => m.set (key r) (add (m.get? (key r)) r)) m

@[simp]
theorem merge_nil (key : α → κ) (add : Option β → α → β) (m : Entries κ β)
    : m.merge key add [] = m := rfl

end Entries

@[simp]
theorem groupBy_nil (key : α → κ) : groupBy key [] = [] := rfl

theorem groupBy_congr {key key' : α → κ} {rows : List α} (h : ∀ r ∈ rows, key r = key' r)
    : groupBy key rows = groupBy key' rows := by
  unfold groupBy
  rw [List.map_congr_left h]
  apply List.map_congr_left
  intro k hk
  rw [List.filter_congr fun r hr => by rw [h r hr]]

section Thinned

variable {γ : Type} {R : α → β → Prop} {nothing : α → Prop} {as : List α} {bs : List β}

/-- The rows of a list, each with one that is related to it, but for some that add nothing. -/
inductive Thinned (R : α → β → Prop) (nothing : α → Prop) : List α → List β → Prop where
  | nil : Thinned R nothing [] []
  | keep {a : α} {b : β} {as : List α} {bs : List β} (h : R a b) (hs : Thinned R nothing as bs)
    : Thinned R nothing (a :: as) (b :: bs)
  | drop {a : α} {as : List α} {bs : List β} (h : nothing a) (hs : Thinned R nothing as bs)
    : Thinned R nothing (a :: as) bs

namespace Thinned

theorem foldl (h : Thinned R nothing as bs) {f : γ → α → γ} {g : γ → β → γ}
    (hR : ∀ a b, R a b → ∀ c, g c b = f c a) (hnothing : ∀ a, nothing a → ∀ c, f c a = c) (c : γ)
    : bs.foldl g c = as.foldl f c := by
  induction h generalizing c with
  | nil => rfl
  | keep hab _ ih =>
    rw [List.foldl_cons, List.foldl_cons, hR _ _ hab]
    exact ih _
  | drop ha _ ih =>
    rw [List.foldl_cons, hnothing _ ha]
    exact ih _

theorem map {α' β' : Type} {S : α' → β' → Prop} {nothing' : α' → Prop} {f : α → α'} {g : β → β'}
    (h : Thinned R nothing as bs) (hR : ∀ a b, R a b → S (f a) (g b))
    (hnothing : ∀ a, nothing a → nothing' (f a)) : Thinned S nothing' (as.map f) (bs.map g) := by
  induction h with
  | nil => exact .nil
  | keep hab _ ih => exact .keep (hR _ _ hab) ih
  | drop ha _ ih => exact .drop (hnothing _ ha) ih

theorem refl {R : α → α → Prop} (h : ∀ a ∈ as, R a a) : Thinned R nothing as as := by
  induction as with
  | nil => exact .nil
  | cons a as ih => exact .keep (h a List.mem_cons_self) (ih fun b hb => h b (List.mem_cons_of_mem _ hb))

end Thinned

end Thinned

end Grouping
