import SentryPos.Auth.Requests
import SentryPos.Auth.Valid

/-!
This module contains the rules for calls of authentication among others: what all commits keep, what
a transaction has to show, and the rules for the calls that every endpoint is made of.
-/

namespace SentryPos.Auth

open ReadCommitted

variable {db db' db'' : Database} {log : List Write} {locks : List Key}

/-- The same token later: it may have been revoked since, for good. -/
structure RefreshToken.Older (row row' : RefreshToken) : Prop where
  id : row'.id = row.id
  tokenHash : row'.tokenHash = row.tokenHash
  userId : row'.userId = row.userId
  revoked : row'.revokedAt = none → row.revokedAt = none

structure Database.Grows (db db' : Database) : Prop where
  users : db'.users.map (fun u => (u.id, u.role)) = db.users.map fun u => (u.id, u.role)
  tokens : ∀ row ∈ db.refreshTokens, ∃ row' ∈ db'.refreshTokens, row.Older row'

theorem RefreshToken.Older.refl (row : RefreshToken) : row.Older row :=
  ⟨rfl, rfl, rfl, fun hnone => hnone⟩

theorem RefreshToken.Older.trans {row row' row'' : RefreshToken} (h : row.Older row')
    (h' : row'.Older row'') : row.Older row'' where
  id := h'.id.trans h.id
  tokenHash := h'.tokenHash.trans h.tokenHash
  userId := h'.userId.trans h.userId
  revoked hnone := h.revoked (h'.revoked hnone)

namespace Database.Grows

theorem refl (db : Database) : db.Grows db :=
  ⟨rfl, fun row hrow => ⟨row, hrow, .refl row⟩⟩

theorem trans (h : db.Grows db') (h' : db'.Grows db'') : db.Grows db'' where
  users := h'.users.trans h.users
  tokens := by
    intro row hrow
    obtain ⟨row', hrow', holder⟩ := h.tokens row hrow
    obtain ⟨row'', hrow'', holder'⟩ := h'.tokens row' hrow'
    exact ⟨row'', hrow'', holder.trans holder'⟩

theorem apply (w : Write) (db : Database) : db.Grows (w.apply db) where
  users := by
    rw [w.users_apply]
    split
    . apply Table.map_modify
      intro user
      cases w with
      | setFailures _ kind => cases kind <;> rfl
      | _ => rfl
    . rfl
  tokens := by
    intro row hrow
    rw [w.refreshTokens_apply]
    cases w with
    | insertRefreshToken row' => exact ⟨row, List.mem_append_left _ hrow, .refl row⟩
    | revokeRefreshToken id revokedAt =>
      by_cases hid : row.id = id
      . refine ⟨{ row with revokedAt := some revokedAt }, ?_, rfl, rfl, rfl, ?_⟩
        . unfold Table.modify
          rw [List.mem_map]
          exact ⟨row, hrow, by simp [hid]⟩
        . intro hnone
          cases hnone
      . refine ⟨row, ?_, .refl row⟩
        unfold Table.modify
        rw [List.mem_map]
        exact ⟨row, hrow, by simp [hid]⟩
    | _ => exact ⟨row, hrow, .refl row⟩

theorem replay (log : List Write) (db : Database) : db.Grows (replay log db) := by
  apply replay_induction (.refl db)
  intro w _ db' h
  exact h.trans (.apply w db')

end Database.Grows

/-- What a transaction with the uncommitted writes `log` keeps until it commits. -/
structure Pending (log : List Write) (locks : List Key) (db : Database) : Prop where
  covered : Covered log locks
  unique : UniqueIndex.Unique Write (replay log db)

theorem Write.absent_of_violation {w : Write} (h : w.violation db = none)
    : ∀ e ∈ w.inserted.flatMap (·.entries), e ∉ db.entries := by
  intro e he hmem
  cases w with
  | insertRefreshToken row =>
    have hnone : ∀ r ∈ db.refreshTokens, ¬ (r.id = row.id ∨ r.tokenHash = row.tokenHash) := by
      intro r hr hor
      have hany : (db.refreshTokens.any fun r => r.id = row.id || r.tokenHash = row.tokenHash) := by
        rw [List.any_eq_true]
        exact ⟨r, hr, by simpa using hor⟩
      simp only [violation] at h
      rw [if_pos hany] at h
      cases h
    obtain ⟨r, hr, heq⟩ := Database.mem_entries.mp hmem
    simp only [inserted, RefreshToken.entries, List.flatMap_cons, List.flatMap_nil, List.append_nil,
      List.mem_cons, List.not_mem_nil, or_false] at he
    apply hnone r hr
    grind
  | _ => simp [inserted] at he

namespace Pending

theorem nil (hdb : db.Valid) (locks : List Key) : Pending [] locks db :=
  ⟨.nil locks, hdb.unique⟩

theorem stable (h : Pending log locks db) (hkept : KeptAll Write locks db db') (hdb' : db'.Valid)
    : Pending log locks db' :=
  ⟨h.covered, UniqueIndex.Unique.stable h.covered hkept hdb'.unique h.unique⟩

theorem snoc {w : Write} (h : Pending log locks db) (hw : w.violation (replay log db) = none)
    : Pending (log ++ [w]) (locks ++ w.keys) db where
  covered := by
    apply h.covered.append
    intro w' hw' k hk
    rw [List.mem_singleton.mp hw'] at hk
    exact hk
  unique := by
    rw [replay_append]
    apply h.unique.apply
    . cases w with
      | insertRefreshToken row => simp [UniqueIndex.added, Write.inserted, RefreshToken.entries]
      | _ => simp [UniqueIndex.added, Write.inserted]
    . exact Write.absent_of_violation hw

theorem valid (h : Pending log locks db) (hdb : db.Valid) : (replay log db).Valid where
  userIds := by
    have hids : (replay log db).users.map (·.id) = db.users.map (·.id) := by
      apply replay_induction (P := fun db' : Database => db'.users.map (·.id) = db.users.map (·.id)) rfl
      intro w _ db' h
      exact (w.userIds_apply db').trans h
    rw [hids]
    exact hdb.userIds
  unique := h.unique

end Pending

structure AuthEnv (l : Env Database Write Key Stmt) : Prop where
  kept : ∀ tag locks db db', l.Rely tag locks db db' → KeptAll Write locks db db'
  grows : ∀ tag locks db db', l.Rely tag locks db db' → db.Grows db'
  valid : ∀ db, l.Inv db → db.Valid

/-- The client has worked on a database with property `P`. -/
def Saw (l : Env Database Write Key Stmt) (P : Database → Prop) : Prop :=
  ∃ db, l.Inv db ∧ P db

namespace AuthCall

variable {l : Logic Database Write Key Stmt} {R : Type} {ok : Post Database Write Key R}
  {err : Post Database Write Key ApiError} {commits : List (Database × Database)} {tag : Stmt}

theorem wp_query (hl : AuthEnv l) {q : Database → R} (hmid : l.Mid commits)
    (h : ∀ db', db.Grows db' → l.Inv db' → ok (q db') commits log locks db')
    : Call.wp l (Call.query tag q) ok err commits log locks db := by
  apply Call.wp_query hmid
  intro db' hrely hinv _
  exact h db' (hl.grows _ _ _ _ hrely) hinv

theorem wp_findUniqueOrThrow (hl : AuthEnv l) {userId : Uuid} {ok : Post Database Write Key User}
    (hmid : l.Mid commits)
    (hok : ∀ db' user, db.Grows db' → l.Inv db' → db'.user? userId = some user →
      ok user commits log locks db')
    (herr : ∀ db', db.Grows db' → l.Inv db' → err .recordNotFound commits log locks db')
    : Call.wp l (findUniqueOrThrow tag userId) ok err commits log locks db := by
  apply Call.wp_check hmid
  . intro db' user hrely hinv _ hfound
    cases huser : db'.user? userId with
    | none =>
      rw [huser] at hfound
      cases hfound
    | some user' =>
      rw [huser] at hfound
      cases hfound
      exact hok db' user (hl.grows _ _ _ _ hrely) hinv huser
  . intro db' e hrely hinv hfound
    cases huser : db'.user? userId with
    | none =>
      rw [huser] at hfound
      cases hfound
      exact herr db' (hl.grows _ _ _ _ hrely) hinv
    | some user =>
      rw [huser] at hfound
      cases hfound

theorem wp_execute (hl : AuthEnv l) {w : Write} {ok : Post Database Write Key Unit}
    (hmid : l.Mid commits) (hpending : Pending log locks db)
    (hok : ∀ db', Pending (log ++ [w]) (locks ++ w.keys) db' →
      ok () commits (log ++ [w]) (locks ++ w.keys) db')
    (herr : ∀ db' e, err e commits log (locks ++ w.keys) db')
    : Call.wp l (execute tag w) ok err commits log locks db := by
  apply Call.wp_write hmid
  . intro db' ws hrely hinv _ hcheck
    split at hcheck
    . cases hcheck
    . next hviolation =>
      cases hcheck
      apply hok
      exact (hpending.stable (hl.kept _ _ _ _ hrely) (hl.valid db' hinv)).snoc hviolation
  . intro db' e _ _ _
    exact herr db' e

theorem wp_update (hl : AuthEnv l) {w : Write} {ok : Post Database Write Key Unit}
    (hmid : l.Mid commits)
    (hok : ∀ db', db.Grows db' → l.Inv db' → Pending [w] w.keys db' → l.Assume tag [w] db' →
      l.Guar w.keys [w] db' ∧ ok () (commits ++ [(db', w.apply db')]) [] [] (w.apply db'))
    (herr : ∀ db' e, db.Grows db' → l.Inv db' → err e commits [] [] db')
    : Call.wp l (update tag w) ok err commits [] [] db := by
  apply Call.wp_transaction
  apply Call.wp_write hmid
  . intro db1 ws hrely hinv _ hcheck
    have hgrows := hl.grows _ _ _ _ hrely
    split at hcheck
    . cases hcheck
    . next hviolation =>
      cases hcheck
      have hpending : Pending [w] w.keys db1 := by
        have hnil := Pending.nil (hl.valid db1 hinv) []
        exact hnil.snoc hviolation
      refine ⟨hmid, ?_⟩
      intro db2 hrely2 hinv2 hassume
      have hgrows2 := hgrows.trans (hl.grows _ _ _ _ hrely2)
      have hpending2 := hpending.stable (hl.kept _ _ _ _ hrely2) (hl.valid db2 hinv2)
      exact hok db2 hgrows2 hinv2 hpending2 hassume
  . intro db1 e hrely hinv _
    refine ⟨hmid, ?_⟩
    intro db2 hrely2 hinv2
    exact herr db2 e ((hl.grows _ _ _ _ hrely).trans (hl.grows _ _ _ _ hrely2)) hinv2

end AuthCall

end SentryPos.Auth
