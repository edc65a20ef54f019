import SentryPos.Auth.Client

/-!
This module contains what the writes of authentication do to single rows, the constraints of its
tables and what its locks keep.
-/

namespace SentryPos.Auth

open ReadCommitted

@[simp]
theorem Write.onUser_id (w : Write) (user : User) : (w.onUser user).id = user.id := by
  cases w with
  | setFailures _ kind => cases kind <;> rfl
  | _ => rfl

theorem Write.users_apply (w : Write) (db : Database)
    : (w.apply db).users
        =
      match w.userId? with
      | some userId => Table.modify (·.id) db.users userId w.onUser
      | none => db.users := by
  cases w <;> rfl

theorem Write.user?_apply (w : Write) (db : Database) (id : Uuid)
    : (w.apply db).user? id
        =
      if w.userId? = some id then (db.user? id).map w.onUser else db.user? id := by
  unfold Database.user?
  rw [w.users_apply]
  split
  . next userId hw =>
    rw [hw]
    by_cases hid : userId = id
    . subst hid
      rw [if_pos rfl, Table.get_modify_self]
      intro user
      exact w.onUser_id user
    . rw [if_neg (by simpa using hid), Table.get_modify_ne _ (Ne.symm hid)]
      intro user
      exact w.onUser_id user
  . next hw => simp [hw]

theorem Write.userIds_apply (w : Write) (db : Database)
    : (w.apply db).users.map (·.id) = db.users.map (·.id) := by
  rw [w.users_apply]
  split
  . apply Table.map_modify
    intro user
    exact w.onUser_id user
  . rfl

def Write.inserted : Write → List RefreshToken
  | insertRefreshToken row => [row]
  | _ => []

def Write.revoked? : Write → Option Uuid
  | revokeRefreshToken id _ => some id
  | _ => none

theorem Write.refreshTokens_apply (w : Write) (db : Database)
    : (w.apply db).refreshTokens
        =
      match w with
      | insertRefreshToken row => db.refreshTokens ++ [row]
      | revokeRefreshToken id revokedAt =>
        Table.modify (·.id) db.refreshTokens id fun row => { row with revokedAt := some revokedAt }
      | _ => db.refreshTokens := by
  cases w <;> rfl

theorem Write.refreshToken?_apply {w : Write} {id : Uuid} (h : .refreshToken id ∉ w.keys)
    (db : Database) : (w.apply db).refreshToken? id = db.refreshToken? id := by
  unfold Database.refreshToken?
  rw [w.refreshTokens_apply]
  cases w with
  | insertRefreshToken row =>
    have hid : row.id ≠ id := by
      intro heq
      apply h
      simp [keys, heq]
    rw [Table.get_append, Table.get_singleton_ne hid, Option.or_none]
  | revokeRefreshToken id' revokedAt =>
    have hid : id ≠ id' := by simpa [keys] using h
    apply Table.get_modify_ne _ hid
    intro row
    rfl
  | _ => rfl

inductive IndexEntry where
  | tokenId (id : Uuid)
  | tokenHash (hash : String)
  deriving DecidableEq

def RefreshToken.entries (row : RefreshToken) : List IndexEntry :=
  [.tokenId row.id, .tokenHash row.tokenHash]

def Database.entries (db : Database) : List IndexEntry :=
  db.refreshTokens.flatMap (·.entries)

theorem Database.mem_entries {db : Database} {e : IndexEntry}
    : e ∈ db.entries ↔ ∃ row ∈ db.refreshTokens, e = .tokenId row.id ∨ e = .tokenHash row.tokenHash := by
  simp [entries, RefreshToken.entries]

theorem Write.entries_apply (w : Write) (db : Database)
    : (w.apply db).entries = db.entries ++ w.inserted.flatMap (·.entries) := by
  unfold Database.entries
  rw [w.refreshTokens_apply]
  cases w with
  | insertRefreshToken row => simp [inserted]
  | revokeRefreshToken id revokedAt =>
    unfold inserted Table.modify
    rw [List.flatMap_nil, List.append_nil, List.flatMap_map]
    congr 1
    funext row
    split <;> rfl
  | _ => simp [inserted]

def IndexEntry.key : IndexEntry → Key
  | .tokenId id => .refreshToken id
  | .tokenHash hash => .tokenHash hash

def Key.Kept (k : Key) (db db' : Database) : Prop :=
  match k with
  | .user id => db'.user? id = db.user? id
  | .refreshToken id =>
    db'.refreshToken? id = db.refreshToken? id
      ∧ (.tokenId id ∉ db.entries → .tokenId id ∉ db'.entries)
  | .tokenHash hash => .tokenHash hash ∉ db.entries → .tokenHash hash ∉ db'.entries
  | .authToken id => db'.authToken? id = db.authToken? id

theorem Write.authToken?_apply {w : Write} {id : Uuid} (h : .authToken id ∉ w.keys) (db : Database)
    : (w.apply db).authToken? id = db.authToken? id := by
  cases w with
  | useAuthToken id' usedAt =>
    have hid : id ≠ id' := by simpa [keys] using h
    apply Table.get_modify_ne _ hid
    intro row
    rfl
  | _ => rfl

instance : Locking Write Database Key where
  keys := Write.keys
  Kept := Key.Kept
  kept_refl := by
    intro k db
    cases k <;> simp [Key.Kept]
  kept_trans := by
    intro k db db' db'' h h'
    cases k with
    | user | authToken => exact Eq.trans h' h
    | refreshToken id => exact ⟨h'.1.trans h.1, fun hmem => h'.2 (h.2 hmem)⟩
    | tokenHash => exact fun hmem => h' (h hmem)
  frame := by
    intro k w db hk
    rw [store_apply]
    cases k with
    | user id =>
      have hw : w.userId? ≠ some id := by
        intro hw
        apply hk
        cases w <;> simp_all [Write.userId?, Write.keys]
      unfold Key.Kept
      dsimp only
      rw [w.user?_apply, if_neg hw]
    | refreshToken id =>
      refine ⟨w.refreshToken?_apply hk db, ?_⟩
      intro hmem
      rw [w.entries_apply, List.mem_append, not_or]
      refine ⟨hmem, ?_⟩
      cases w <;> simp_all [Write.inserted, Write.keys, RefreshToken.entries]
    | tokenHash hash =>
      intro hmem
      rw [w.entries_apply, List.mem_append, not_or]
      refine ⟨hmem, ?_⟩
      cases w <;> simp_all [Write.inserted, Write.keys, RefreshToken.entries]
    | authToken id => exact w.authToken?_apply hk db

instance : UniqueIndex Write Database Key IndexEntry where
  entries := Database.entries
  added w := w.inserted.flatMap (·.entries)
  key := IndexEntry.key
  entries_apply := by
    intro w db
    rw [store_apply, w.entries_apply]
  key_mem := by
    intro w e he
    cases w with
    | insertRefreshToken row =>
      simp only [Write.inserted, RefreshToken.entries, List.flatMap_cons, List.flatMap_nil,
        List.append_nil, List.mem_cons, List.not_mem_nil, or_false] at he
      rcases he with he | he
      . simp [he, IndexEntry.key, Locking.keys, Write.keys]
      . simp [he, IndexEntry.key, Locking.keys, Write.keys]
    | _ => simp [Write.inserted] at he
  kept := by
    intro e db db' hkept
    cases e with
    | tokenId id => exact hkept.2
    | tokenHash hash => exact hkept

/-- The constraints of the tables. -/
structure Database.Valid (db : Database) : Prop where
  userIds : (db.users.map (·.id)).Nodup
  unique : UniqueIndex.Unique Write db

namespace Database.Valid

variable {db : Database} (h : db.Valid)

include h

theorem tokenIds : (db.refreshTokens.map (·.id)).Nodup := by
  have hentries : db.entries.Nodup := h.unique
  have hids : ((db.refreshTokens.map (·.id)).map IndexEntry.tokenId).Sublist db.entries := by
    unfold entries
    induction db.refreshTokens with
    | nil => simp
    | cons row rows ih => exact (ih.cons (.tokenHash row.tokenHash)).cons_cons (.tokenId row.id)
  exact (hids.nodup hentries).of_map _

theorem tokenHashes : (db.refreshTokens.map (·.tokenHash)).Nodup := by
  have hentries : db.entries.Nodup := h.unique
  have hhashes
      : ((db.refreshTokens.map (·.tokenHash)).map IndexEntry.tokenHash).Sublist db.entries := by
    unfold entries
    induction db.refreshTokens with
    | nil => simp
    | cons row rows ih => exact (ih.cons_cons (.tokenHash row.tokenHash)).cons (.tokenId row.id)
  exact (hhashes.nodup hentries).of_map _

theorem user_eq {user : User} (huser : user ∈ db.users) : db.user? user.id = some user :=
  Table.get_of_mem h.userIds huser

theorem refreshToken_eq {row : RefreshToken} (hrow : row ∈ db.refreshTokens)
    : db.refreshToken? row.id = some row :=
  Table.get_of_mem h.tokenIds hrow

end Database.Valid

end SentryPos.Auth
