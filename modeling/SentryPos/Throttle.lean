import Mathlib.Data.Finset.Card
import Mathlib.Data.Int.Order.Basic
import Mathlib.Data.List.Chain
import Mathlib.Logic.Function.Basic
import Mathlib.Order.Basic

/-!
This module contains the theory of throttling: a few attempts are free, later ones keep a distance.
It also contains a counter of failed attempts with a lock that attempts go through concurrently, and
the proof that they are throttled as long as they do not overtake each other.
-/

namespace Throttle

/-- All but the first `free` of the times keep a distance of `gap` to the one before. -/
def Throttled (free : Nat) (gap : ℤ) (times : List ℤ) : Prop :=
  (times.drop (free - 1)).IsChain fun t t' => t + gap ≤ t'

namespace Throttled

variable {free : Nat} {gap : ℤ} {times : List ℤ}

theorem nil (free : Nat) (gap : ℤ) : Throttled free gap [] := by
  simp [Throttled]

theorem snoc_free (h : times.length < free) (t : ℤ) : Throttled free gap (times ++ [t]) := by
  unfold Throttled
  have hlength : ((times ++ [t]).drop (free - 1)).length ≤ 1 := by
    rw [List.length_drop, List.length_append, List.length_singleton]
    omega
  cases hdrop : (times ++ [t]).drop (free - 1) with
  | nil => exact .nil
  | cons t' rest =>
    rw [hdrop, List.length_cons] at hlength
    have hrest : rest = [] := List.eq_nil_of_length_eq_zero (by omega)
    rw [hrest]
    exact .singleton t'

theorem snoc (h : Throttled free gap times) {t : ℤ}
    (hlate : ∀ t' ∈ times.getLast?, t' + gap ≤ t) : Throttled free gap (times ++ [t]) := by
  unfold Throttled at h ⊢
  by_cases hlength : free - 1 ≤ times.length
  . rw [List.drop_append_of_le_length hlength, List.isChain_append]
    refine ⟨h, .singleton t, ?_⟩
    intro t' ht' t'' ht''
    simp only [List.head?_singleton, Option.mem_def, Option.some.injEq] at ht''
    rw [← ht'']
    apply hlate
    rw [List.getLast?_drop] at ht'
    split at ht'
    . cases ht'
    . exact ht'
  . rw [List.drop_eq_nil_of_le]
    . exact .nil
    . rw [List.length_append, List.length_singleton]
      omega

end Throttled

/--
How far an attempt is: it has passed the lock, its secret has been evaluated at a time, it has read
the counter, it has read the clock for the lock, or the counter has been written.
-/
inductive Phase where
  | idle
  | passed
  | evaluated (time : ℤ)
  | counted (time : ℤ) (count : Nat)
  | timed (time : ℤ) (count : Nat) (now : ℤ)
  | finished

namespace Phase

/-- The attempt has passed the lock and has not been counted yet. -/
def InFlight : Phase → Prop
  | .idle | .finished => False
  | _ => True

/-- The secret has been evaluated, and the attempt has not been counted yet. -/
def Pending (p : Phase) (t : ℤ) : Prop :=
  match p with
  | .evaluated time | .counted time _ | .timed time _ _ => time = t
  | _ => False

/-- What an attempt has read was right at some time, given the times the counter counts. -/
def Fits (p : Phase) (count : Nat) (clock : ℤ) (written : List ℤ) : Prop :=
  match p with
  | .idle | .passed | .finished => True
  | .evaluated t => t ≤ clock
  | .counted t n => t ≤ clock ∧ n ≤ count
  | .timed t n now => t ≤ now ∧ now ≤ clock ∧ n ≤ count ∧ (n = count → ∀ t' ∈ written, t' ≤ now)

theorem Pending.inFlight {p : Phase} {t : ℤ} (h : p.Pending t) : p.InFlight := by
  cases p with
  | idle | finished | passed => cases h
  | _ => trivial

theorem Fits.tick {p : Phase} {count : Nat} {clock clock' : ℤ} {written : List ℤ}
    (h : p.Fits count clock written) (hclock : clock ≤ clock') : p.Fits count clock' written := by
  cases p with
  | idle | passed | finished => trivial
  | evaluated => exact le_trans h hclock
  | counted => exact ⟨le_trans h.1 hclock, h.2⟩
  | timed => exact ⟨h.1, le_trans h.2.1 hclock, h.2.2⟩

theorem Fits.write {p : Phase} {count : Nat} {clock : ℤ} {written : List ℤ}
    (h : p.Fits count clock written) (t : ℤ) : p.Fits (count + 1) clock (t :: written) := by
  cases p with
  | idle | passed | finished => trivial
  | evaluated => exact h
  | counted => exact ⟨h.1, Nat.le_succ_of_le h.2⟩
  | timed time n now =>
    obtain ⟨htime, hnow, hn, _⟩ := h
    refine ⟨htime, hnow, Nat.le_succ_of_le hn, ?_⟩
    intro heq
    omega

end Phase

/-- The counter with its lock, the clock, the attempts and when their secrets were evaluated. -/
structure Machine (ι : Type) where
  count : Nat
  lock : Option ℤ
  clock : ℤ
  phase : ι → Phase
  times : List ℤ

variable {ι : Type} [DecidableEq ι]

namespace Machine

def setPhase (m : Machine ι) (i : ι) (p : Phase) : Machine ι :=
  { m with phase := Function.update m.phase i p }

/-- An attempt may pass: the lock has expired and few enough others are on their way. -/
structure MayPass (max : Nat) (m : Machine ι) : Prop where
  expired : ∀ t ∈ m.lock, t ≤ m.clock
  few : (∃ s : Finset ι, (∀ i, (m.phase i).InFlight → i ∈ s) ∧ m.count + s.card < max)
    ∨ ∀ i, ¬ (m.phase i).InFlight

/-- One step. An attempt writes the counter only if it is still the one that it has read. -/
inductive Step (max : Nat) (gap : ℤ) : Machine ι → Machine ι → Prop where
  | tick {m : Machine ι} (ms : Nat) : Step max gap m { m with clock := m.clock + ms }
  | pass {m : Machine ι} {i : ι} (hi : m.phase i = .idle) (hpass : m.MayPass max)
      : Step max gap m (m.setPhase i .passed)
  | evaluate {m : Machine ι} {i : ι} (hi : m.phase i = .passed)
      : Step max gap m { m.setPhase i (.evaluated m.clock) with times := m.times ++ [m.clock] }
  | read {m : Machine ι} {i : ι} {t : ℤ} (hi : m.phase i = .evaluated t)
      : Step max gap m (m.setPhase i (.counted t m.count))
  | time {m : Machine ι} {i : ι} {t : ℤ} {count : Nat} (hi : m.phase i = .counted t count)
      : Step max gap m (m.setPhase i (.timed t count m.clock))
  | write {m : Machine ι} {i : ι} {t now : ℤ} (hi : m.phase i = .timed t m.count now)
      : Step max gap m { m.setPhase i .finished with
          count := m.count + 1
          lock := if max ≤ m.count + 1 then some (now + gap) else m.lock }

/-- The attempts in `s` are the ones whose phase satisfies `q`. -/
def Those (m : Machine ι) (q : Phase → Prop) (s : Finset ι) : Prop :=
  ∀ i, i ∈ s ↔ q (m.phase i)

variable {m m' : Machine ι} {i : ι} {p : Phase} {q : Phase → Prop} {s : Finset ι}

@[simp]
theorem phase_setPhase (m : Machine ι) (i j : ι) (p : Phase)
    : (m.setPhase i p).phase j = if j = i then p else m.phase j :=
  Function.update_apply m.phase i p j

namespace Those

theorem insert (h : m.Those q s) (hp : q p) : (m.setPhase i p).Those q (insert i s) := by
  intro j
  rw [Finset.mem_insert, phase_setPhase, h j]
  by_cases hj : j = i
  . simp [hj, hp]
  . simp [hj]

theorem erase (h : m.Those q s) (hp : ¬ q p) : (m.setPhase i p).Those q (s.erase i) := by
  intro j
  rw [Finset.mem_erase, phase_setPhase, h j]
  by_cases hj : j = i
  . simp [hj, hp]
  . simp [hj]

theorem same (h : m.Those q s) (hp : q p ↔ q (m.phase i)) : (m.setPhase i p).Those q s := by
  intro j
  rw [phase_setPhase, h j]
  by_cases hj : j = i
  . simp [hj, hp]
  . simp [hj]

end Those

/--
The invariant, for a counter that started at `start`: `flying` are the attempts on their way,
`pending` the ones of them whose secret has been evaluated, `done` the ones that the counter counts
and `written` the times of their evaluations.
-/
structure Ok (max : Nat) (gap : ℤ) (start : Nat) (m : Machine ι) (flying pending done : Finset ι)
    (written : List ℤ) : Prop where
  thoseFlying : m.Those Phase.InFlight flying
  thosePending : m.Those (fun p => ∃ t, p.Pending t) pending
  thoseDone : m.Those (· = .finished) done
  count : m.count = start + done.card
  evaluations : m.times.length = done.card + pending.card
  times : ∀ t ∈ m.times, t ∈ written ∨ ∃ i, (m.phase i).Pending t
  fits : ∀ i, (m.phase i).Fits m.count m.clock written
  writtenPast : ∀ t ∈ written, t ≤ m.clock
  locked : max ≤ m.count → ∀ t ∈ written, ∃ lockedUntil ∈ m.lock, t + gap ≤ lockedUntil
  few : m.count + flying.card ≤ max ∨ flying.card = 0
    ∨ flying.card ≤ 1 ∧ ∀ t ∈ m.lock, t ≤ m.clock
  throttled : Throttled (max - start) gap m.times

/-- Every state that the machine reaches has some attempts on their way. -/
def Sound (max : Nat) (gap : ℤ) (start : Nat) (m : Machine ι) : Prop :=
  ∃ flying pending done written, m.Ok max gap start flying pending done written

section Step

variable {max start : Nat} {gap : ℤ} {flying pending done : Finset ι} {written : List ℤ}

theorem fits_setPhase (h : ∀ j, (m.phase j).Fits m.count m.clock written)
    (hp : p.Fits m.count m.clock written) (j : ι)
    : ((m.setPhase i p).phase j).Fits m.count m.clock written := by
  rw [phase_setPhase]
  split
  . exact hp
  . exact h j

/-- An evaluation that is pending stays so when another attempt goes on, or this one does. -/
theorem pending_setPhase (hp : ∀ t, (m.phase i).Pending t → p.Pending t) {t : ℤ}
    (h : ∃ j, (m.phase j).Pending t) : ∃ j, ((m.setPhase i p).phase j).Pending t := by
  obtain ⟨j, hj⟩ := h
  refine ⟨j, ?_⟩
  rw [phase_setPhase]
  split
  . next heq =>
    rw [heq] at hj
    exact hp t hj
  . exact hj

omit [DecidableEq ι] in
theorem Ok.tick (h : m.Ok max gap start flying pending done written) (ms : Nat)
    : ({ m with clock := m.clock + ms } : Machine ι).Ok max gap start flying pending done written := by
  have hclock : m.clock ≤ m.clock + ms := Int.le_add_of_nonneg_right (Int.natCast_nonneg ms)
  refine ⟨h.thoseFlying, h.thosePending, h.thoseDone, h.count, h.evaluations, h.times, ?_, ?_, h.locked,
    ?_, h.throttled⟩
  . intro i
    exact (h.fits i).tick hclock
  . intro t ht
    exact le_trans (h.writtenPast t ht) hclock
  . rcases h.few with hfew | hnone | ⟨hone, hexpired⟩
    . exact .inl hfew
    . exact .inr (.inl hnone)
    . exact .inr (.inr ⟨hone, fun t ht => le_trans (hexpired t ht) hclock⟩)

theorem Ok.pass (h : m.Ok max gap start flying pending done written) (hi : m.phase i = .idle)
    (hpass : m.MayPass max)
    : (m.setPhase i .passed).Ok max gap start (insert i flying) pending done written := by
  refine ⟨h.thoseFlying.insert trivial, h.thosePending.same ?_, h.thoseDone.same ?_, h.count,
    h.evaluations, ?_, fits_setPhase h.fits trivial, h.writtenPast, h.locked, ?_, h.throttled⟩
  . rw [hi]
    simp [Phase.Pending]
  . rw [hi]
    simp
  . intro t ht
    apply (h.times t ht).imp id
    apply pending_setPhase
    rw [hi]
    intro t ht
    cases ht
  . have hcard := Finset.card_insert_le i flying
    cases hpass.few with
    | inl hfew =>
      obtain ⟨s, hs, hlt⟩ := hfew
      have hle : flying.card ≤ s.card := by
        apply Finset.card_le_card
        intro j hj
        exact hs j ((h.thoseFlying j).mp hj)
      left
      change m.count + (insert i flying).card ≤ max
      omega
    | inr hnone =>
      have hempty : flying = ∅ := by
        apply Finset.eq_empty_of_forall_notMem
        intro j hj
        exact hnone j ((h.thoseFlying j).mp hj)
      rw [hempty] at hcard ⊢
      exact .inr (.inr ⟨hcard, hpass.expired⟩)

theorem Ok.evaluate (h : m.Ok max gap start flying pending done written) (hi : m.phase i = .passed)
    : ({ m.setPhase i (.evaluated m.clock) with times := m.times ++ [m.clock] } : Machine ι).Ok max gap
        start flying (insert i pending) done written := by
  have hflying : i ∈ flying := by
    rw [h.thoseFlying, hi]
    trivial
  have hnot : i ∉ pending := by
    rw [h.thosePending, hi]
    simp [Phase.Pending]
  have hsub : insert i pending ⊆ flying := by
    intro j hj
    cases Finset.mem_insert.mp hj with
    | inl hj =>
      rw [hj]
      exact hflying
    | inr hj =>
      obtain ⟨t, ht⟩ := (h.thosePending j).mp hj
      exact (h.thoseFlying j).mpr ht.inFlight
  have hcard := Finset.card_le_card hsub
  rw [Finset.card_insert_of_notMem hnot] at hcard
  have hlength := h.evaluations
  have hcount := h.count
  have hthrottled : Throttled (max - start) gap (m.times ++ [m.clock]) := by
    by_cases hfree : m.times.length < max - start
    . exact .snoc_free hfree m.clock
    . -- Nobody else is on the way, and the lock that the last evaluation has set has expired.
      have hnone : pending.card = 0 ∧ ∀ t ∈ m.lock, t ≤ m.clock := by
        rcases h.few with hfew | hnone | ⟨hone, hexpired⟩
        . omega
        . omega
        . exact ⟨by omega, hexpired⟩
      apply h.throttled.snoc
      intro t ht
      cases h.times t (List.mem_of_getLast? ht) with
      | inl hwritten =>
        obtain ⟨lockedUntil, hlock, hlate⟩ := h.locked (by omega) t hwritten
        exact le_trans hlate (hnone.2 lockedUntil hlock)
      | inr hpending =>
        obtain ⟨j, hj⟩ := hpending
        have hmem : j ∈ pending := (h.thosePending j).mpr ⟨t, hj⟩
        rw [Finset.card_eq_zero.mp hnone.1] at hmem
        cases hmem
  refine ⟨h.thoseFlying.same ?_, h.thosePending.insert ⟨m.clock, rfl⟩, h.thoseDone.same ?_, h.count, ?_,
    ?_, fits_setPhase h.fits (le_refl m.clock), h.writtenPast, h.locked, h.few, hthrottled⟩
  . rw [hi]
    exact iff_of_true trivial trivial
  . rw [hi]
    simp
  . rw [Finset.card_insert_of_notMem hnot, List.length_append, hlength]
    rfl
  . intro t ht
    cases List.mem_append.mp ht with
    | inl ht =>
      apply (h.times t ht).imp id
      apply pending_setPhase
      rw [hi]
      intro t ht
      cases ht
    | inr ht =>
      refine .inr ⟨i, ?_⟩
      rw [List.mem_singleton.mp ht]
      simp [setPhase, Phase.Pending]

theorem Ok.proceed (h : m.Ok max gap start flying pending done written) {t : ℤ}
    (hi : (m.phase i).Pending t) (hp : p.Pending t) (hfits : p.Fits m.count m.clock written)
    : (m.setPhase i p).Ok max gap start flying pending done written := by
  have honly : ∀ {p : Phase} {t t' : ℤ}, p.Pending t → p.Pending t' → t = t' := by
    intro p t t' ht ht'
    cases p with
    | idle | passed | finished => cases ht
    | _ => exact Eq.trans (Eq.symm ht) ht'
  have hdone : ∀ {p : Phase}, p.Pending t → p ≠ .finished := by
    intro p ht heq
    rw [heq] at ht
    cases ht
  refine ⟨h.thoseFlying.same ?_, h.thosePending.same ?_, h.thoseDone.same ?_, h.count, h.evaluations, ?_,
    fits_setPhase h.fits hfits, h.writtenPast, h.locked, h.few, h.throttled⟩
  . exact iff_of_true hp.inFlight hi.inFlight
  . exact iff_of_true ⟨t, hp⟩ ⟨t, hi⟩
  . exact iff_of_false (hdone hp) (hdone hi)
  . intro t' ht'
    apply (h.times t' ht').imp id
    apply pending_setPhase
    intro t'' ht''
    rw [← honly hi ht'']
    exact hp

theorem Ok.write (h : m.Ok max gap start flying pending done written) {t now : ℤ}
    (hi : m.phase i = .timed t m.count now)
    : ({ m.setPhase i .finished with
          count := m.count + 1
          lock := if max ≤ m.count + 1 then some (now + gap) else m.lock } : Machine ι).Ok max gap
        start (flying.erase i) (pending.erase i) (insert i done) (t :: written) := by
  obtain ⟨htime, hnow, _, hwritten⟩ : (Phase.timed t m.count now).Fits m.count m.clock written := by
    rw [← hi]
    exact h.fits i
  have hflying : i ∈ flying := by
    rw [h.thoseFlying, hi]
    trivial
  have hpending : i ∈ pending := by
    rw [h.thosePending, hi]
    exact ⟨t, rfl⟩
  have hnot : i ∉ done := by
    rw [h.thoseDone, hi]
    simp
  have hcardFlying := Finset.card_erase_of_mem hflying
  have hcardPending := Finset.card_erase_of_mem hpending
  have hposFlying := Finset.card_pos.mpr ⟨i, hflying⟩
  have hposPending := Finset.card_pos.mpr ⟨i, hpending⟩
  have hcardDone := Finset.card_insert_of_notMem hnot
  have hcount := h.count
  have hlength := h.evaluations
  refine ⟨h.thoseFlying.erase (by simp [Phase.InFlight]), h.thosePending.erase (by simp [Phase.Pending]),
    h.thoseDone.insert rfl, ?_, ?_, ?_, ?_, ?_, ?_, ?_, h.throttled⟩
  . change m.count + 1 = start + (insert i done).card
    omega
  . change m.times.length = (insert i done).card + (pending.erase i).card
    omega
  . intro t' ht'
    cases h.times t' ht' with
    | inl ht' => exact .inl (List.mem_cons_of_mem t ht')
    | inr ht' =>
      obtain ⟨j, hj⟩ := ht'
      by_cases hji : j = i
      . rw [hji, hi] at hj
        left
        rw [← show t = t' from hj]
        exact List.mem_cons_self
      . right
        refine ⟨j, ?_⟩
        change (Phase.Pending ((m.setPhase i .finished).phase j) t')
        rw [phase_setPhase, if_neg hji]
        exact hj
  . intro j
    change (Phase.Fits ((m.setPhase i .finished).phase j) (m.count + 1) m.clock (t :: written))
    rw [phase_setPhase]
    split
    . trivial
    . exact (h.fits j).write t
  . intro t' ht'
    cases List.mem_cons.mp ht' with
    | inl ht' =>
      rw [ht']
      exact le_trans htime hnow
    | inr ht' => exact h.writtenPast t' ht'
  . intro hmax t' ht'
    refine ⟨now + gap, ?_, ?_⟩
    . change now + gap ∈ (if max ≤ m.count + 1 then some (now + gap) else m.lock)
      rw [if_pos hmax]
      rfl
    . cases List.mem_cons.mp ht' with
      | inl ht' =>
        rw [ht']
        exact Int.add_le_add_right htime gap
      | inr ht' => exact Int.add_le_add_right (hwritten rfl t' ht') gap
  . rcases h.few with hfew | hnone | ⟨hone, _⟩
    . left
      change m.count + 1 + (flying.erase i).card ≤ max
      omega
    . omega
    . exact .inr (.inl (by omega))

omit [DecidableEq ι] in
theorem sound_start (max : Nat) (gap : ℤ) (count : Nat) (lock : Option ℤ) (clock : ℤ)
    : Machine.Sound max gap count
        ({ count, lock, clock, phase := fun _ => .idle, times := [] } : Machine ι) := by
  refine ⟨∅, ∅, ∅, [], ?_⟩
  constructor
  . simp [Those, Phase.InFlight]
  . simp [Those, Phase.Pending]
  . simp [Those]
  . rfl
  . rfl
  . simp
  . simp [Phase.Fits]
  . simp
  . simp
  . simp
  . exact .nil _ _

theorem Sound.step (h : m.Sound max gap start) (hstep : Step max gap m m')
    : m'.Sound max gap start := by
  obtain ⟨flying, pending, done, written, h⟩ := h
  cases hstep with
  | tick ms => exact ⟨_, _, _, _, h.tick ms⟩
  | pass hi hpass => exact ⟨_, _, _, _, h.pass hi hpass⟩
  | evaluate hi => exact ⟨_, _, _, _, h.evaluate hi⟩
  | @read i t hi =>
    have hfits := h.fits i
    rw [hi] at hfits
    exact ⟨_, _, _, _, h.proceed (by rw [hi]; rfl) rfl ⟨hfits, le_refl m.count⟩⟩
  | @time i t count hi =>
    have hfits := h.fits i
    rw [hi] at hfits
    exact ⟨_, _, _, _, h.proceed (by rw [hi]; rfl) rfl
      ⟨hfits.1, le_refl m.clock, hfits.2, fun _ => h.writtenPast⟩⟩
  | write hi => exact ⟨_, _, _, _, h.write hi⟩

end Step

end Machine

end Throttle
