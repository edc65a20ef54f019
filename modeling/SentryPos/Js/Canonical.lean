import Mathlib.Data.List.Nodup
import SentryPos.Js.Stringify

/-!
This module contains when two JSON values are equal up to the order of their keys, and that their texts
with all keys in order tell.
-/

namespace Json

/-- An object as JavaScript lists it. -/
abbrev Fields := List (String × Json)

mutual

/-- Equal up to the order of the keys of objects, at every depth. -/
inductive Same : Json → Json → Prop where
  | null : Same .null .null
  | bool (b : Bool) : Same (.bool b) (.bool b)
  | num (q : ℚ) : Same (.num q) (.num q)
  | str (s : String) : Same (.str s) (.str s)
  | arr {vs ws : List Json} : SameValues vs ws → Same (.arr vs) (.arr ws)
  | obj {fs gs : List (String × Json)} : SameFields fs gs → Same (.obj fs) (.obj gs)

inductive SameValues : List Json → List Json → Prop where
  | nil : SameValues [] []
  | cons {v w : Json} {vs ws : List Json}
    : Same v w → SameValues vs ws → SameValues (v :: vs) (w :: ws)

inductive SameFields : List (String × Json) → List (String × Json) → Prop where
  | nil : SameFields [] []
  | cons {key : String} {v w : Json} {fs before after : List (String × Json)}
    : Same v w → SameFields fs (before ++ after) →
      SameFields ((key, v) :: fs) (before ++ (key, w) :: after)

end

mutual

/-- No object has a key twice. -/
def DistinctKeys : Json → Prop
  | .arr values => DistinctValues values
  | .obj fields => (fields.map (·.1)).Nodup ∧ DistinctFields fields
  | _ => True

def DistinctValues : List Json → Prop
  | [] => True
  | v :: vs => v.DistinctKeys ∧ DistinctValues vs

def DistinctFields : List (String × Json) → Prop
  | [] => True
  | (_, v) :: fields => v.DistinctKeys ∧ DistinctFields fields

end

mutual

def arrangeKeys (arrange : Fields → Fields) : Json → Json
  | .arr values => .arr (arrangeValues arrange values)
  | .obj fields => .obj (arrange (arrangeFields arrange fields))
  | v => v

def arrangeValues (arrange : Fields → Fields) : List Json → List Json
  | [] => []
  | v :: vs => arrangeKeys arrange v :: arrangeValues arrange vs

def arrangeFields (arrange : Fields → Fields) : List (String × Json) → List (String × Json)
  | [] => []
  | (key, v) :: fields => (key, arrangeKeys arrange v) :: arrangeFields arrange fields

end

structure Arranges (arrange : Fields → Fields) : Prop where
  perm (fields : Fields) : (arrange fields).Perm fields
  unique {fields fields' : Fields} :
    (fields.map (·.1)).Nodup → fields.Perm fields' → arrange fields = arrange fields'

section Arrange

variable {arrange : Fields → Fields}

theorem arrangeFields_eq_map (fields : Fields)
    : arrangeFields arrange fields = fields.map fun f => (f.1, arrangeKeys arrange f.2) := by
  induction fields with
  | nil => rfl
  | cons f fields ih =>
    rw [arrangeFields, ih]
    rfl

theorem keys_arrangeFields (fields : Fields)
    : (arrangeFields arrange fields).map (·.1) = fields.map (·.1) := by
  rw [arrangeFields_eq_map, List.map_map]
  rfl

mutual

theorem same_of_arrangeKeys_eq (h : Arranges arrange) (v w : Json)
    (heq : arrangeKeys arrange v = arrangeKeys arrange w) : Same v w := by
  match v, w with
  | .null, .null => exact .null
  | .bool b, .bool b' =>
    cases heq
    exact .bool b
  | .num q, .num q' =>
    cases heq
    exact .num q
  | .str s, .str s' =>
    cases heq
    exact .str s
  | .arr vs, .arr ws =>
    simp only [arrangeKeys, Json.arr.injEq] at heq
    exact .arr (sameValues_of_arrangeValues_eq h vs ws heq)
  | .obj fs, .obj gs =>
    simp only [arrangeKeys, Json.obj.injEq] at heq
    have hperm : (arrangeFields arrange fs).Perm (arrangeFields arrange gs) := by
      have hgs := h.perm (arrangeFields arrange gs)
      rw [← heq] at hgs
      exact (h.perm _).symm.trans hgs
    exact .obj (sameFields_of_perm h fs gs hperm)

theorem sameValues_of_arrangeValues_eq (h : Arranges arrange) (vs ws : List Json)
    (heq : arrangeValues arrange vs = arrangeValues arrange ws) : SameValues vs ws := by
  match vs, ws with
  | [], [] => exact .nil
  | v :: vs, w :: ws =>
    simp only [arrangeValues, List.cons.injEq] at heq
    exact .cons (same_of_arrangeKeys_eq h v w heq.1) (sameValues_of_arrangeValues_eq h vs ws heq.2)

theorem sameFields_of_perm (h : Arranges arrange) (fs gs : List (String × Json))
    (hperm : (arrangeFields arrange fs).Perm (arrangeFields arrange gs)) : SameFields fs gs := by
  match fs with
  | [] =>
    have hnil := hperm.length_eq
    simp only [arrangeFields_eq_map, List.length_map, List.length_nil] at hnil
    rw [List.length_eq_zero_iff.mp hnil.symm]
    exact .nil
  | (key, v) :: fs =>
    have hmem : (key, arrangeKeys arrange v) ∈ arrangeFields arrange gs :=
      hperm.mem_iff.mp List.mem_cons_self
    rw [arrangeFields_eq_map] at hmem
    obtain ⟨⟨key', w⟩, hw, heq⟩ := List.mem_map.mp hmem
    simp only [Prod.mk.injEq] at heq
    obtain ⟨rfl, hvalue⟩ := heq
    obtain ⟨before, after, rfl⟩ := List.append_of_mem hw
    have hrest : (arrangeFields arrange fs).Perm (arrangeFields arrange (before ++ after)) := by
      simp only [arrangeFields_eq_map, List.map_append, List.map_cons, hvalue] at hperm ⊢
      exact (hperm.trans List.perm_middle).cons_inv
    exact .cons (same_of_arrangeKeys_eq h v w hvalue.symm) (sameFields_of_perm h fs _ hrest)

end

mutual

theorem arrangeKeys_eq_of_same (h : Arranges arrange) (v w : Json) (hsame : Same v w)
    (hdistinct : v.DistinctKeys) : arrangeKeys arrange v = arrangeKeys arrange w := by
  match v, hsame with
  | .null, .null => rfl
  | .bool _, .bool _ => rfl
  | .num _, .num _ => rfl
  | .str _, .str _ => rfl
  | .arr vs, .arr hvalues =>
    rw [arrangeKeys, arrangeKeys, arrangeValues_eq_of_same h vs _ hvalues hdistinct]
  | .obj fs, .obj hfields =>
    have hperm := perm_of_sameFields h fs _ hfields hdistinct.2
    rw [arrangeKeys, arrangeKeys, h.unique (by rw [keys_arrangeFields]; exact hdistinct.1) hperm]

theorem arrangeValues_eq_of_same (h : Arranges arrange) (vs ws : List Json)
    (hsame : SameValues vs ws) (hdistinct : DistinctValues vs)
    : arrangeValues arrange vs = arrangeValues arrange ws := by
  match vs, hsame with
  | [], .nil => rfl
  | v :: vs, .cons hv hvs =>
    rw [arrangeValues, arrangeValues, arrangeKeys_eq_of_same h v _ hv hdistinct.1,
      arrangeValues_eq_of_same h vs _ hvs hdistinct.2]

theorem perm_of_sameFields (h : Arranges arrange) (fs gs : List (String × Json))
    (hsame : SameFields fs gs) (hdistinct : DistinctFields fs)
    : (arrangeFields arrange fs).Perm (arrangeFields arrange gs) := by
  match fs, hsame with
  | [], .nil => exact .rfl
  | (key, v) :: fs, @SameFields.cons _ _ w _ before after hv hfs =>
    have hrest := perm_of_sameFields h fs _ hfs hdistinct.2
    have hvalue := arrangeKeys_eq_of_same h v w hv hdistinct.1
    simp only [arrangeFields_eq_map, List.map_append, List.map_cons, hvalue] at hrest ⊢
    exact (hrest.cons _).trans List.perm_middle.symm

end

theorem stringify_arrangeKeys_eq_iff (h : Arranges arrange) {v w : Json} (hdistinct : v.DistinctKeys)
    : stringify (arrangeKeys arrange v) = stringify (arrangeKeys arrange w) ↔ Same v w := by
  constructor
  . intro heq
    exact same_of_arrangeKeys_eq h v w (stringify_inj heq)
  . intro hsame
    rw [arrangeKeys_eq_of_same h v w hsame hdistinct]

end Arrange

/-! The order that JavaScript gives the fields of an object whose entries were sorted. -/

def arrayIndex (key : String) : Option Nat :=
  key.toNat?.filter fun n => n.repr = key ∧ n < 4294967295

/-- `Object.fromEntries`: keys that are indices come first, in their order. -/
def fromEntries (entries : Fields) : Fields :=
  (entries.filter fun e => (arrayIndex e.1).isSome).mergeSort
      (fun a b => (arrayIndex a.1).getD 0 ≤ (arrayIndex b.1).getD 0)
    ++ entries.filter fun e => (arrayIndex e.1).isNone

/-- `Object.fromEntries(Object.entries(v).sort(([a], [b]) => a.localeCompare(b)))` -/
def sortEntries (localeCompare : String → String → ℤ) (fields : Fields) : Fields :=
  fromEntries (fields.mergeSort fun a b => localeCompare a.1 b.1 ≤ 0)

/-- A total order of the keys that is 0 only on equal ones. -/
structure KeyOrder (compare : String → String → ℤ) : Prop where
  eq {a b : String} : compare a b = 0 ↔ a = b
  swap {a b : String} : compare a b < 0 ↔ 0 < compare b a
  trans {a b c : String} : compare a b ≤ 0 → compare b c ≤ 0 → compare a c ≤ 0

theorem eq_of_keys_eq {fields : Fields} (hnodup : (fields.map (·.1)).Nodup) {a b : String × Json}
    (ha : a ∈ fields) (hb : b ∈ fields) (h : a.1 = b.1) : a = b :=
  List.inj_on_of_nodup_map hnodup ha hb h

theorem mergeSort_unique {le : String × Json → String × Json → Bool} {fields fields' : Fields}
    (trans : ∀ a b c, le a b → le b c → le a c) (total : ∀ a b, le a b || le b a)
    (antisymm : ∀ a ∈ fields, ∀ b ∈ fields, le a b → le b a → a = b) (hperm : fields.Perm fields')
    : fields.mergeSort le = fields'.mergeSort le := by
  apply List.Perm.eq_of_pairwise ?_ (List.pairwise_mergeSort trans total _)
    (List.pairwise_mergeSort trans total _)
  . exact (List.mergeSort_perm _ _).trans (hperm.trans (List.mergeSort_perm _ _).symm)
  . intro a b ha hb
    rw [List.mem_mergeSort] at ha hb
    exact antisymm a ha b (hperm.mem_iff.mpr hb)

theorem fromEntries_perm (entries : Fields) : (fromEntries entries).Perm entries := by
  have hsplit := List.filter_append_perm (fun e => (arrayIndex e.1).isSome) entries
  simp only [Option.not_isSome] at hsplit
  exact ((List.mergeSort_perm _ _).append_right _).trans hsplit

theorem arranges_sortEntries {localeCompare : String → String → ℤ} (h : KeyOrder localeCompare)
    : Arranges (sortEntries localeCompare) where
  perm fields := (fromEntries_perm _).trans (List.mergeSort_perm _ _)
  unique hnodup hperm := by
    unfold sortEntries
    congr 1
    apply mergeSort_unique ?_ ?_ ?_ hperm
    . intro a b c hab hbc
      simp only [decide_eq_true_eq] at hab hbc ⊢
      exact h.trans hab hbc
    . intro a b
      simp only [Bool.or_eq_true, decide_eq_true_eq]
      by_cases hab : localeCompare a.1 b.1 ≤ 0
      . exact .inl hab
      . have hba : localeCompare b.1 a.1 < 0 := h.swap.mpr (by omega)
        exact .inr (by omega)
    . intro a ha b hb hab hba
      simp only [decide_eq_true_eq] at hab hba
      apply eq_of_keys_eq hnodup ha hb
      apply h.eq.mp
      have hnot : ¬ localeCompare a.1 b.1 < 0 := by
        intro hlt
        have := h.swap.mp hlt
        omega
      omega

/-- Insertion in the order of the code points, as `sortKeys` does it. -/
def insertFields (fields : Fields) : Fields :=
  fields.foldr insertField []

theorem insertField_perm (field : String × Json) (fields : Fields)
    : (insertField field fields).Perm (field :: fields) := by
  induction fields with
  | nil => exact .rfl
  | cons other rest ih =>
    unfold insertField
    split
    . exact (ih.cons other).trans (.swap ..)
    . exact .rfl

theorem insertFields_perm (fields : Fields) : (insertFields fields).Perm fields := by
  induction fields with
  | nil => exact .rfl
  | cons f fields ih => exact (insertField_perm f _).trans (ih.cons f)

theorem pairwise_insertField {field : String × Json} {fields : Fields}
    (h : fields.Pairwise fun a b => a.1 ≤ b.1)
    : (insertField field fields).Pairwise fun a b => a.1 ≤ b.1 := by
  induction fields with
  | nil => simp [insertField]
  | cons other rest ih =>
    obtain ⟨hother, hrest⟩ := List.pairwise_cons.mp h
    unfold insertField
    split
    next hlt =>
      apply List.pairwise_cons.mpr
      constructor
      . intro a ha
        rcases List.mem_cons.mp ((insertField_perm field rest).mem_iff.mp ha) with rfl | ha
        . exact String.not_lt.mp (String.lt_asymm hlt)
        . exact hother a ha
      . exact ih hrest
    next hnot =>
      apply List.pairwise_cons.mpr
      constructor
      . intro a ha
        rcases List.mem_cons.mp ha with rfl | ha
        . exact String.not_lt.mp hnot
        . exact String.le_trans (String.not_lt.mp hnot) (hother a ha)
      . exact h

theorem pairwise_insertFields (fields : Fields)
    : (insertFields fields).Pairwise fun a b => a.1 ≤ b.1 := by
  induction fields with
  | nil => exact .nil
  | cons f fields ih => exact pairwise_insertField ih

theorem arranges_insertFields : Arranges insertFields where
  perm := insertFields_perm
  unique {fields fields'} hnodup hperm := by
    apply List.Perm.eq_of_pairwise ?_ (pairwise_insertFields fields) (pairwise_insertFields fields')
    . exact (insertFields_perm fields).trans (hperm.trans (insertFields_perm fields').symm)
    . intro a b ha hb hab hba
      have ha := (insertFields_perm fields).mem_iff.mp ha
      have hb := hperm.mem_iff.mpr ((insertFields_perm fields').mem_iff.mp hb)
      exact eq_of_keys_eq hnodup ha hb (String.le_antisymm hab hba)

mutual

theorem sortKeys_eq (v : Json) : sortKeys v = arrangeKeys insertFields v := by
  match v with
  | .arr values => rw [sortKeys, arrangeKeys, sortValues_eq values]
  | .obj fields => rw [sortKeys, arrangeKeys, sortFields_eq fields]
  | .null | .bool _ | .num _ | .str _ => rfl

theorem sortValues_eq (values : List Json) : sortValues values = arrangeValues insertFields values := by
  match values with
  | [] => rfl
  | v :: vs => rw [sortValues, arrangeValues, sortKeys_eq v, sortValues_eq vs]

theorem sortFields_eq (fields : List (String × Json))
    : sortFields fields = insertFields (arrangeFields insertFields fields) := by
  match fields with
  | [] => rfl
  | (key, v) :: rest =>
    rw [sortFields, sortKeys_eq v, sortFields_eq rest]
    rfl

end

end Json
