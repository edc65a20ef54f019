import Mathlib.Data.List.Perm.Basic
import Mathlib.Data.List.Sort

/-!
This module contains the first elements of a list by a total order, and that they can be found from
the first elements of its parts.
-/

namespace Ranking

variable {α β : Type} (r : α → α → Prop) [DecidableRel r]

def firstOf (n : ℕ) (xs : List α) : List α :=
  (xs.insertionSort r).take n

omit [DecidableRel r] in
def Separates (xs : List α) : Prop :=
  ∀ a ∈ xs, ∀ b ∈ xs, r a b → r b a → a = b

variable {r}

section Insert

variable [IsTrans α r]

theorem take_orderedInsert {l : List α} (hl : l.Pairwise r) {n : ℕ} {a : α}
    (h : n ≤ l.countP fun b => ¬r a b) : (l.orderedInsert r a).take n = l.take n := by
  -- At least `n` elements come before the new one.
  induction l generalizing n with
  | nil =>
    rw [List.countP_nil, Nat.le_zero] at h
    rw [h, List.take_zero, List.take_zero]
  | cons b l ih =>
    by_cases hab : r a b
    . have hnone : (b :: l).countP (fun b => ¬r a b) = 0 := by
        rw [List.countP_eq_zero]
        intro c hc
        cases List.mem_cons.mp hc with
        | inl hc => simp [hc, hab]
        | inr hc => simp [IsTrans.trans a b c hab (List.rel_of_pairwise_cons hl hc)]
      rw [hnone, Nat.le_zero] at h
      rw [h, List.take_zero, List.take_zero]
    . rw [List.orderedInsert_of_not_le _ _ hab]
      cases n with
      | zero => rw [List.take_zero, List.take_zero]
      | succ n =>
        rw [List.countP_cons_of_pos (by simpa using hab)] at h
        rw [List.take_succ_cons, List.take_succ_cons, ih hl.of_cons (by omega)]

end Insert

variable [Std.Total r] [IsTrans α r]

theorem insertionSort_perm {xs ys : List α} (hsep : Separates r xs) (h : xs.Perm ys)
    : xs.insertionSort r = ys.insertionSort r := by
  have hperm := ((xs.perm_insertionSort r).trans h).trans (ys.perm_insertionSort r).symm
  apply hperm.eq_of_pairwise _ (List.pairwise_insertionSort r xs) (List.pairwise_insertionSort r ys)
  intro a b ha hb hab hba
  rw [List.mem_insertionSort] at ha hb
  exact hsep a ha b (h.mem_iff.mpr hb) hab hba

theorem firstOf_append {n : ℕ} {rest kept : List α}
    (h : ∀ a ∈ rest, n ≤ kept.countP fun b => ¬r a b)
    : firstOf r n (rest ++ kept) = firstOf r n kept := by
  induction rest with
  | nil => rfl
  | cons a rest ih =>
    have hcount : n ≤ ((rest ++ kept).insertionSort r).countP fun b => ¬r a b := by
      rw [((rest ++ kept).perm_insertionSort r).countP_eq, List.countP_append]
      exact (h a List.mem_cons_self).trans (Nat.le_add_left _ _)
    rw [← ih fun b hb => h b (List.mem_cons_of_mem a hb)]
    exact take_orderedInsert (List.pairwise_insertionSort r _) hcount

theorem countP_firstOf {n : ℕ} {xs : List α} (hnodup : xs.Nodup) (hsep : Separates r xs) {a : α}
    (ha : a ∈ (xs.insertionSort r).drop n) : n ≤ (firstOf r n xs).countP fun b => ¬r a b := by
  have hnodup' := (xs.perm_insertionSort r).nodup_iff.mpr hnodup
  have hsorted := List.pairwise_insertionSort r xs
  rw [← List.take_append_drop n (xs.insertionSort r)] at hnodup' hsorted
  have hlength : (firstOf r n xs).length = n := by
    have hpos := List.length_pos_of_mem ha
    rw [List.length_drop] at hpos
    unfold firstOf
    rw [List.length_take]
    omega
  rw [List.countP_eq_length.mpr, hlength]
  intro b hb
  have hne : b ≠ a := (List.nodup_append.mp hnodup').2.2 b hb a ha
  have hba : r b a := (List.pairwise_append.mp hsorted).2.2 b hb a ha
  have hb' := (List.mem_insertionSort r).mp (List.mem_of_mem_take hb)
  have ha' := (List.mem_insertionSort r).mp (List.mem_of_mem_drop ha)
  rw [decide_eq_true_eq]
  intro hab
  exact hne (hsep b hb' a ha' hba hab)

theorem firstOf_flatMap {n : ℕ} {f : β → List α} {parts : List β}
    (hnodup : (parts.flatMap f).Nodup) (hsep : Separates r (parts.flatMap f))
    : firstOf r n (parts.flatMap fun x => firstOf r n (f x)) = firstOf r n (parts.flatMap f) := by
  have hpart (x : β) : (((f x).insertionSort r).drop n ++ firstOf r n (f x)).Perm (f x) := by
    refine List.perm_append_comm.trans ?_
    unfold firstOf
    rw [List.take_append_drop]
    exact (f x).perm_insertionSort r
  have hperm : (parts.flatMap f).Perm ((parts.flatMap fun x => ((f x).insertionSort r).drop n)
      ++ parts.flatMap fun x => firstOf r n (f x)) :=
    ((List.flatMap_append_perm parts _ _).trans
      (List.Perm.flatMap_left parts fun x _ => hpart x)).symm
  have hsort := insertionSort_perm hsep hperm
  rw [firstOf, firstOf, hsort]
  symm
  apply firstOf_append
  intro a ha
  obtain ⟨x, hx, ha⟩ := List.mem_flatMap.mp ha
  have hsub : (f x).Sublist (parts.flatMap f) := by
    rw [List.flatMap_def]
    exact List.sublist_flatten_of_mem (List.mem_map_of_mem hx)
  have hsub' : (firstOf r n (f x)).Sublist (parts.flatMap fun x => firstOf r n (f x)) := by
    rw [List.flatMap_def]
    exact List.sublist_flatten_of_mem (List.mem_map_of_mem hx)
  have hsep' : Separates r (f x) :=
    fun b hb c hc => hsep b (hsub.subset hb) c (hsub.subset hc)
  exact (countP_firstOf (hnodup.sublist hsub) hsep' ha).trans (hsub'.countP_le)

end Ranking
