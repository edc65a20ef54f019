import Mathlib.Algebra.Order.BigOperators.Group.List
import SentryPos.Pos.Sales

/-!
This module contains the arithmetic of a basket: the quantities its lines want of each level and
when the conflict pass finds nothing.
-/

namespace SentryPos

variable {m : List (LevelKey × ℤ)} {k k' : LevelKey} {milli : ℤ}

/-- What the tracked lines of a basket take from a level. -/
def takes (lines : List CartLineDto) (k : LevelKey) : ℤ :=
  (((trackedLines lines).filter (·.1 = k)).map (·.2)).sum

theorem valueOf_addTo (m : List (LevelKey × ℤ)) (k k' : LevelKey) (milli : ℤ)
    : valueOf (addTo m k milli) k' = valueOf m k' + if k' = k then milli else 0 := by
  induction m with
  | nil =>
    unfold addTo valueOf
    by_cases h : k' = k
    . simp [h]
    . simp [h, Ne.symm h]
  | cons entry m ih =>
    obtain ⟨k1, milli1⟩ := entry
    unfold addTo
    split
    . next h1 =>
      subst h1
      unfold valueOf
      by_cases h : k' = k1
      . simp [h]
      . simp [h, Ne.symm h]
    . next h1 =>
      unfold valueOf at ih ⊢
      rw [List.find?_cons, List.find?_cons]
      split
      . next h =>
        simp only [decide_eq_true_eq] at h
        subst h
        simp [h1]
      . exact ih

theorem keys_addTo (m : List (LevelKey × ℤ)) (k : LevelKey) (milli : ℤ)
    : (addTo m k milli).map (·.1)
        =
      if k ∈ m.map (·.1) then m.map (·.1) else m.map (·.1) ++ [k] := by
  induction m with
  | nil => simp [addTo]
  | cons entry m ih =>
    obtain ⟨k1, milli1⟩ := entry
    unfold addTo
    by_cases h : k1 = k
    . simp [h]
    . simp only [h, if_false, List.map_cons, ih, List.mem_cons, Ne.symm h, false_or]
      split <;> simp

theorem nodup_addTo (h : (m.map (·.1)).Nodup) : ((addTo m k milli).map (·.1)).Nodup := by
  rw [keys_addTo]
  split
  . exact h
  . next hk =>
    rw [List.nodup_append]
    refine ⟨h, by simp, ?_⟩
    intro a ha b hb hab
    rw [List.mem_singleton] at hb
    subst hab
    rw [hb] at ha
    exact hk ha

theorem valueOf_of_mem (hnodup : (m.map (·.1)).Nodup) (h : (k, milli) ∈ m)
    : valueOf m k = milli := by
  have hget : Table.get (·.1) m k = some (k, milli) := Table.get_of_mem hnodup h
  unfold Table.get at hget
  unfold valueOf
  rw [hget]
  rfl

theorem foldl_addTo (ls m : List (LevelKey × ℤ)) (k : LevelKey)
    : valueOf (ls.foldl (fun wanted l => addTo wanted l.1 l.2) m) k
        =
      valueOf m k + ((ls.filter (·.1 = k)).map (·.2)).sum := by
  induction ls generalizing m with
  | nil => simp
  | cons l ls ih =>
    rw [List.foldl_cons, ih, valueOf_addTo]
    by_cases h : l.1 = k
    . simp [h]
      ring
    . simp [h, Ne.symm h]

theorem foldl_addTo_keys {ls : List (LevelKey × ℤ)} (hm : (m.map (·.1)).Nodup)
    : ((ls.foldl (fun wanted l => addTo wanted l.1 l.2) m).map (·.1)).Nodup
        ∧ ∀ k, k ∈ (ls.foldl (fun wanted l => addTo wanted l.1 l.2) m).map (·.1)
            ↔ k ∈ m.map (·.1) ∨ k ∈ ls.map (·.1) := by
  induction ls generalizing m with
  | nil => simpa using hm
  | cons l ls ih =>
    obtain ⟨hnodup, hmem⟩ := ih (nodup_addTo hm)
    refine ⟨hnodup, ?_⟩
    intro k
    rw [List.foldl_cons, hmem k, keys_addTo, List.map_cons, List.mem_cons]
    split
    . next hl =>
      constructor
      . grind
      . grind
    . grind

theorem valueOf_wantedMilli (lines : List CartLineDto) (k : LevelKey)
    : valueOf (wantedMilli lines) k = takes lines k := by
  unfold wantedMilli takes
  rw [foldl_addTo]
  simp [valueOf]

theorem sum_addTo (m : List (LevelKey × ℤ)) (k : LevelKey) (milli : ℤ) (p : LevelKey → Bool)
    : ((addTo m k milli).map fun w => if p w.1 then w.2 else 0).sum
        =
      (m.map fun w => if p w.1 then w.2 else 0).sum + if p k then milli else 0 := by
  induction m with
  | nil => simp [addTo]
  | cons entry m ih =>
    unfold addTo
    split
    . next hk =>
      by_cases hp : p k
      . simp [hk, hp]
        ring
      . simp [hk, hp]
    . rw [List.map_cons, List.sum_cons, ih, List.map_cons, List.sum_cons]
      ring

theorem sum_wantedMilli (lines : List CartLineDto) (p : LevelKey → Bool)
    : ((wantedMilli lines).map fun w => if p w.1 then w.2 else 0).sum
        =
      ((trackedLines lines).map fun l => if p l.1 then l.2 else 0).sum := by
  have hfold
      : ∀ ls m : List (LevelKey × ℤ),
          ((ls.foldl (fun wanted l => addTo wanted l.1 l.2) m).map
              fun w => if p w.1 then w.2 else 0).sum
            =
          (m.map fun w => if p w.1 then w.2 else 0).sum
            + (ls.map fun l => if p l.1 then l.2 else 0).sum := by
    intro ls
    induction ls with
    | nil => simp
    | cons l ls ih =>
      intro m
      rw [List.foldl_cons, ih, sum_addTo, List.map_cons, List.sum_cons]
      ring
  unfold wantedMilli
  rw [hfold]
  simp

theorem nodup_wantedMilli (lines : List CartLineDto) : ((wantedMilli lines).map (·.1)).Nodup :=
  (foldl_addTo_keys (m := []) (by simp)).1

theorem mem_wantedMilli_keys (lines : List CartLineDto) (k : LevelKey)
    : k ∈ (wantedMilli lines).map (·.1) ↔ k ∈ (trackedLines lines).map (·.1) := by
  have hnil : (([] : List (LevelKey × ℤ)).map (·.1)).Nodup := List.nodup_nil
  unfold wantedMilli
  rw [(foldl_addTo_keys hnil).2 k]
  simp

theorem trackedLines_pos {lines : List CartLineDto} {l : LevelKey × ℤ} (h : l ∈ trackedLines lines)
    : 0 < l.2 := by
  unfold trackedLines at h
  simp only [List.mem_filterMap, Option.map_eq_some_iff] at h
  obtain ⟨line, _, k, _, hl⟩ := h
  rw [← hl]
  exact line.qty_pos

theorem takes_nonneg (lines : List CartLineDto) (k : LevelKey) : 0 ≤ takes lines k := by
  apply List.sum_nonneg
  intro q hq
  simp only [List.mem_map, List.mem_filter] at hq
  obtain ⟨l, hl, rfl⟩ := hq
  exact (trackedLines_pos hl.1).le

theorem takes_eq_zero {lines : List CartLineDto} (h : k ∉ (trackedLines lines).map (·.1))
    : takes lines k = 0 := by
  unfold takes
  rw [List.filter_eq_nil_iff.mpr]
  . rfl
  . intro l hl heq
    simp only [decide_eq_true_eq] at heq
    apply h
    rw [← heq]
    exact List.mem_map_of_mem hl

theorem trackedLines_cons_none {line : CartLineDto} (h : line.trackedKey = none)
    (lines : List CartLineDto) : trackedLines (line :: lines) = trackedLines lines := by
  simp [trackedLines, h]

theorem trackedLines_cons_some {line : CartLineDto} (h : line.trackedKey = some k)
    (lines : List CartLineDto)
    : trackedLines (line :: lines) = (k, line.qty.milli) :: trackedLines lines := by
  simp [trackedLines, h]

theorem detectConflicts_eq_nil_from {available : LevelKey → ℤ} {lines : List CartLineDto}
    {claimed : List (LevelKey × ℤ)}
    : detectConflicts available claimed lines = []
        ↔
      ∀ k ∈ (trackedLines lines).map (·.1), valueOf claimed k + takes lines k ≤ available k := by
  -- `claimed` is what the lines before have taken of each level.
  induction lines generalizing claimed with
  | nil => simp [detectConflicts, trackedLines]
  | cons line lines ih =>
    unfold detectConflicts
    split
    . next hkey =>
      rw [ih]
      unfold takes
      rw [trackedLines_cons_none hkey]
    . next k hkey =>
      have htakes
          : ∀ k', takes (line :: lines) k'
              =
            (if k' = k then line.qty.milli else 0) + takes lines k' := by
        intro k'
        unfold takes
        rw [trackedLines_cons_some hkey]
        by_cases h : k = k'
        . simp [h]
        . simp [h, Ne.symm h]
      rw [trackedLines_cons_some hkey]
      dsimp only
      have hnonneg := takes_nonneg lines k
      split
      . next hconflict =>
        simp only [reduceCtorEq, List.map_cons, List.mem_cons, false_iff]
        intro hall
        have hk := hall k (.inl rfl)
        rw [htakes k, if_pos rfl] at hk
        omega
      . next hfits =>
        rw [ih]
        simp only [List.map_cons, List.mem_cons]
        constructor
        . intro hrest k' hk'
          by_cases hin : k' ∈ (trackedLines lines).map (·.1)
          . have hle := hrest k' hin
            rw [valueOf_addTo] at hle
            rw [htakes k']
            omega
          . have hk : k' = k := hk'.resolve_right hin
            subst hk
            rw [htakes k', if_pos rfl, takes_eq_zero hin]
            omega
        . intro hall k' hk'
          have hle := hall k' (.inr hk')
          rw [htakes k'] at hle
          rw [valueOf_addTo]
          omega

theorem detectConflicts_eq_nil (available : LevelKey → ℤ) (lines : List CartLineDto)
    : detectConflicts available [] lines = []
        ↔
      ∀ k ∈ (trackedLines lines).map (·.1), takes lines k ≤ available k := by
  rw [detectConflicts_eq_nil_from]
  simp [valueOf]

theorem le_available_of_wanted {available : LevelKey → ℤ} {lines : List CartLineDto}
    (hpass : detectConflicts available [] lines = []) (h : (k, milli) ∈ wantedMilli lines)
    : 0 < milli ∧ milli ≤ available k := by
  have hkey : k ∈ (trackedLines lines).map (·.1) := by
    rw [← mem_wantedMilli_keys]
    exact List.mem_map_of_mem (f := (·.1)) h
  have hvalue : takes lines k = milli := by
    rw [← valueOf_wantedMilli]
    exact valueOf_of_mem (nodup_wantedMilli lines) h
  have hle := (detectConflicts_eq_nil available lines).mp hpass k hkey
  refine ⟨?_, by rw [← hvalue]; exact hle⟩
  rw [← hvalue]
  obtain ⟨l, hl, hlk⟩ := List.mem_map.mp hkey
  have hmem : l.2 ∈ ((trackedLines lines).filter (·.1 = k)).map (·.2) := by
    simp only [List.mem_map, List.mem_filter]
    exact ⟨l, ⟨hl, by simp [hlk]⟩, rfl⟩
  apply lt_of_lt_of_le (trackedLines_pos hl)
  apply List.single_le_sum _ _ hmem
  intro q hq
  simp only [List.mem_map, List.mem_filter] at hq
  obtain ⟨l', hl', rfl⟩ := hq
  exact (trackedLines_pos hl'.1).le

end SentryPos
