import SentryPos.Pos.Schema

/-!
This module contains the values that the arguments of the client are made of, and what JavaScript
makes of them.
-/

namespace SentryPos

/-- A value in the arguments of the client. A field that is `undefined` is not there. -/
inductive Arg where
  | null
  | bool (b : Bool)
  | num (n : ℤ)
  | str (s : String)
  | uuid (id : Uuid)
  | date (t : DateTime)
  | arr (values : List Arg)
  | obj (fields : List (String × Arg))

namespace Arg

/-- The fields of an object. -/
abbrev Fields := List (String × Arg)

def Fields.get (fields : Fields) (key : String) : Option Arg :=
  (fields.find? fun f => f.1 = key).map (·.2)

/-- `key in fields` -/
def Fields.has (fields : Fields) (key : String) : Bool :=
  fields.any fun f => f.1 = key

/-- `delete fields[key]` -/
def Fields.erase (fields : Fields) (key : String) : Fields :=
  fields.filter fun f => f.1 ≠ key

/-- `fields[key] = value`: a field that is there keeps its place. -/
def Fields.set (fields : Fields) (key : String) (value : Arg) : Fields :=
  if Fields.has fields key then
    fields.map fun f => if f.1 = key then (key, value) else f
  else
    fields ++ [(key, value)]

@[simp]
theorem Fields.get_nil (key : String) : Fields.get [] key = none := rfl

theorem Fields.get_cons (f : String × Arg) (fields : Fields) (key : String)
    : Fields.get (f :: fields) key = if f.1 = key then some f.2 else Fields.get fields key := by
  by_cases h : f.1 = key <;> simp [Fields.get, h]

@[simp]
theorem Fields.has_cons (f : String × Arg) (fields : Fields) (key : String)
    : Fields.has (f :: fields) key = (decide (f.1 = key) || Fields.has fields key) := rfl

theorem Fields.has_eq_isSome (fields : Fields) (key : String)
    : Fields.has fields key = (Fields.get fields key).isSome := by
  induction fields with
  | nil => rfl
  | cons f fields ih =>
    rw [Fields.has_cons, Fields.get_cons, ih]
    split <;> simp [*]

theorem Fields.get_append (fields fields' : Fields) (key : String)
    : Fields.get (fields ++ fields') key = (Fields.get fields key).or (Fields.get fields' key) := by
  induction fields with
  | nil => simp
  | cons f fields ih =>
    rw [List.cons_append, Fields.get_cons, Fields.get_cons, ih]
    split <;> simp

theorem Fields.get_map (f : String → Arg → Arg) (fields : Fields) (key : String)
    : Fields.get (fields.map fun e => (e.1, f e.1 e.2)) key
        = (Fields.get fields key).map (f key) := by
  induction fields with
  | nil => rfl
  | cons e fields ih =>
    rw [List.map_cons, Fields.get_cons, Fields.get_cons, ih]
    by_cases he : e.1 = key <;> simp [he]

theorem Fields.get_replace (fields : Fields) (key other : String) (value : Arg)
    : Fields.get (fields.map fun f => if f.1 = key then (key, value) else f) other
        = if key = other ∧ Fields.has fields key then some value else Fields.get fields other := by
  induction fields with
  | nil => simp [Fields.has]
  | cons f fields ih =>
    rw [List.map_cons, Fields.get_cons, Fields.get_cons, ih, Fields.has_cons]
    by_cases hf : f.1 = key
    . by_cases ho : key = other <;> simp [hf, ho]
    . rw [if_neg hf]
      by_cases ho : f.1 = other
      . have hne : key ≠ other := fun h => hf (ho.trans h.symm)
        simp [ho, hne]
      . simp [hf, ho]

theorem Fields.get_set (fields : Fields) (key other : String) (value : Arg)
    : Fields.get (Fields.set fields key value) other
        = if key = other then some value else Fields.get fields other := by
  unfold Fields.set
  split
  next h => rw [Fields.get_replace, h]; simp
  next h =>
    have hnone : Fields.get fields key = none := by
      simpa [Fields.has_eq_isSome] using h
    rw [Fields.get_append, Fields.get_cons, Fields.get_nil]
    split
    next ho => rw [← ho, hnone]; rfl
    next => simp

theorem Fields.has_set (fields : Fields) (key : String) (value : Arg)
    : Fields.has (Fields.set fields key value) key := by
  rw [Fields.has_eq_isSome, Fields.get_set]
  simp

theorem Fields.set_set (fields : Fields) (key : String) (value value' : Arg)
    : Fields.set (Fields.set fields key value) key value' = Fields.set fields key value' := by
  rw [Fields.set.eq_def (Fields.set fields key value), Fields.has_set, if_pos rfl]
  unfold Fields.set
  split
  next =>
    rw [List.map_map]
    apply List.map_congr_left
    intro f _
    by_cases hf : f.1 = key <;> simp [hf]
  next h =>
    have hself : fields.map (fun f => if f.1 = key then (key, value') else f) = fields.map id := by
      apply List.map_congr_left
      intro f hf
      have hne : f.1 ≠ key := by
        intro heq
        apply h
        simpa [Fields.has] using ⟨f.2, heq ▸ hf⟩
      rw [if_neg hne, id]
    rw [List.map_id] at hself
    rw [List.map_append, hself]
    simp

/-- `value[key]` -/
def get (value : Arg) (key : String) : Option Arg :=
  match value with
  | obj fields => Fields.get fields key
  | _ => none

def truthy : Arg → Bool
  | null => false
  | bool b => b
  | num n => n ≠ 0
  | str s => s ≠ ""
  | _ => true

/-- `Array.isArray(value)` -/
def isArray : Arg → Bool
  | arr _ => true
  | _ => false

/-- `Array.isArray(value) ? value : [value]` -/
def elements : Arg → List Arg
  | arr values => values
  | value => [value]

end Arg

/-- Whether a field that may be `undefined` counts as true. -/
def truthy (value : Option Arg) : Bool :=
  (value.map Arg.truthy).getD false

/-- `value ? elements : []` -/
def elementsIf (value : Option Arg) : List Arg :=
  if truthy value then (value.map Arg.elements).getD [] else []

end SentryPos
