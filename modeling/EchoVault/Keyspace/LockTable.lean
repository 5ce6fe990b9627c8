/-
**The lock table of the keyspace, as the handlers see it.**

`keyLocks` maps each key to its `sync.RWMutex`.  A key without an entry counts as unlocked:
nobody can hold its lock, and a key created by `CreateKeyAndLock` and unlocked again has an
unlocked entry.  `lockView` reads the table so.  The eviction loops delete only keys whose lock
they took, so keys found unlocked: the view is a frame (`SameLocks`), kept by every capability
call but the five lock calls, whose effect on it is given here once each.

Main definitions:

* `EchoVault.lockView` — the lock of every key, unlocked for a key without an entry;
* `EchoVault.SameLocks` — two servers with the same lock view.

Main results:

* `EchoVault.Keyspace.setValue_sameLocks` — `SetValue` keeps the lock view, whatever it evicts;
* `EchoVault.Keyspace.acquireKey_lockView`, `EchoVault.Keyspace.releaseKey_lockView`,
  `EchoVault.Keyspace.createKeyAndLock_lockView` — **what the lock calls do to the view**.
-/

import EchoVault.Keyspace.Frame

set_option relaxedAutoImplicit false
set_option autoImplicit false

namespace EchoVault

/-! ### The lock view -/

namespace RWMutex

/-- The zero value of a `sync.RWMutex`: nobody holds it. -/
def unlocked : RWMutex := ⟨false, 0⟩

theorem ext {a b : RWMutex} (hw : a.writer = b.writer) (hr : a.readers = b.readers) : a = b := by
  cases a
  cases b
  simp_all

variable {l l' : RWMutex}

/-- `TryLock` succeeds only on an unlocked mutex, and locks it for writing. -/
theorem tryLock_eq_some (h : l.tryLock = some l') : l = unlocked ∧ l' = locked := by
  obtain ⟨w, n⟩ := l
  unfold tryLock at h
  split at h
  · cases h
    simp_all [unlocked]
  · cases h

/-- `TryRLock` succeeds only without a writer, and adds a reader. -/
theorem tryRLock_eq_some (h : l.tryRLock = some l') : l.writer = false ∧ l' = ⟨false, l.readers + 1⟩ := by
  unfold tryRLock at h
  split at h
  · cases h
  · cases h
    simp_all

/-- `Unlock` succeeds only with a writer, and removes it. -/
theorem unlock_eq_some (h : l.unlock = some l') : l.writer = true ∧ l' = ⟨false, l.readers⟩ := by
  unfold unlock at h
  split at h
  · cases h
    simp_all
  · cases h

/-- `RUnlock` succeeds only with a reader, and removes one. -/
theorem rUnlock_eq_some (h : l.rUnlock = some l') : l.readers ≠ 0 ∧ l' = ⟨l.writer, l.readers - 1⟩ := by
  unfold rUnlock at h
  split at h
  · cases h
  · cases h
    simp_all

end RWMutex

/-- The lock of every key, a key without an entry in `keyLocks` counting as unlocked. -/
def lockView (s : Server) (k : Bytes) : RWMutex := (s.keyLocks.get k).getD RWMutex.unlocked

theorem lockView_of_get {s : Server} {k : Bytes} {l : RWMutex} (h : s.keyLocks.get k = some l) :
    lockView s k = l := by
  simp [lockView, h]

@[simp] theorem lockView_setLocks (s : Server) (key : Bytes) (l : RWMutex) :
    lockView { s with keyLocks := s.keyLocks.set key l } = Function.update (lockView s) key l := by
  funext k
  by_cases h : k = key
  · subst h
    simp [lockView]
  · simp [lockView, h, Ne.symm h]

/-- Two servers whose lock tables look the same. -/
def SameLocks (s s' : Server) : Prop := lockView s' = lockView s

/-- **Eviction keeps the lock view**: the key it deletes was unlocked, as a missing key is. -/
instance : Server.Frame SameLocks where
  refl _ := rfl
  trans h₁ h₂ := h₂.trans h₁
  outside _ _ hl _ := by
    funext k
    simp only [lockView, hl]
  evict {s key l l'} hl hl' := by
    funext k
    by_cases h : k = key
    · subst h
      rw [lockView_of_get hl, (RWMutex.tryLock_eq_some hl').1]
      simp [lockView, Server.evict]
    · simp [lockView, Server.evict, h, Ne.symm h]

/-! ### The keyspace calls -/

namespace Keyspace

open Op.Keeps

theorem setValue_sameLocks (key : Bytes) (value : Value) : (setValue key value).Keeps SameLocks := by
  refine bind getServer fun s => bind (isMaxMemoryExceeded_keeps _) fun b => ?_
  dsimp only
  split
  · exact pure _
  refine bind (pure _) fun _ =>
    bind (modifyServer fun _ => rfl) fun _ => bind (updateKeyInCache_keeps key) fun _ => ?_
  split
  · exact bind (outside (fun _ => rfl) (fun _ => rfl) (fun _ => rfl) fun _ => rfl) fun _ => pure _
  · exact bind (pure _) fun _ => pure _

/-- **What `KeyLock` and `KeyRLock` do to the lock view**: nothing, with an error; or they apply
`acquire` to the key's lock, which must succeed. -/
theorem acquireKey_lockView {acquire : RWMutex → Option RWMutex} {key : Bytes} {m m' : Machine}
    {r : Except Bytes Bool} (h : acquireKey acquire key m = .ok r m') :
    (Call.lockTaken r = false ∧ lockView m'.server = lockView m.server) ∨
      ∃ l', acquire (lockView m.server key) = some l' ∧ r = .ok true ∧
        lockView m'.server = Function.update (lockView m.server) key l' := by
  rcases acquireKey_eq_ok h with ⟨e, rfl, hs⟩ | ⟨l, l', hl, hl', rfl, hs⟩
  · exact .inl ⟨rfl, by rw [hs]⟩
  · exact .inr ⟨l', by rw [lockView_of_get hl, hl'], rfl, by rw [hs, lockView_setLocks]⟩

/-- **What `KeyUnlock` and `KeyRUnlock` do to the lock view**: nothing on an unlocked key without
an entry; otherwise they apply `release` to the key's lock, which must succeed. -/
theorem releaseKey_lockView {release : RWMutex → Option RWMutex} {fatal key : Bytes}
    {m m' : Machine} (h : releaseKey release fatal key m = .ok () m') :
    (lockView m.server key = RWMutex.unlocked ∧ lockView m'.server = lockView m.server) ∨
      ∃ l', release (lockView m.server key) = some l' ∧
        lockView m'.server = Function.update (lockView m.server) key l' := by
  rcases releaseKey_eq_ok h with ⟨hl, rfl⟩ | ⟨l, l', hl, hl', hs⟩
  · exact .inl ⟨by simp [lockView, hl], rfl⟩
  · exact .inr ⟨l', by rw [lockView_of_get hl, hl'], by rw [hs, lockView_setLocks]⟩

/-- **What `CreateKeyAndLock` does to the lock view**: nothing, with an error; or it takes the
write lock of the key, which was unlocked, whether it creates the key or finds it. -/
theorem createKeyAndLock_lockView {key : Bytes} {m m' : Machine} {r : Except Bytes Bool}
    (h : createKeyAndLock key m = .ok r m') :
    (Call.lockTaken r = false ∧ lockView m'.server = lockView m.server) ∨
      (r = .ok true ∧ lockView m.server key = RWMutex.unlocked ∧
        lockView m'.server = Function.update (lockView m.server) key RWMutex.locked) := by
  obtain ⟨_, _, h₁, h⟩ := Op.bind_eq_ok.1 h
  cases h₁
  obtain ⟨b, m₂, h₂, h⟩ := Op.bind_eq_ok.1 h
  have v₂ : SameLocks m.server m₂.server := isMaxMemoryExceeded_keeps _ _ _ _ h₂
  dsimp only at h
  split at h
  · cases h
    exact .inl ⟨rfl, v₂⟩
  obtain ⟨_, _, h₃, h⟩ := Op.bind_eq_ok.1 h
  cases h₃
  obtain ⟨_, m₄, h₄, h⟩ := Op.bind_eq_ok.1 h
  have v₄ : SameLocks m₂.server m₄.server := lockCreation_keeps _ _ _ h₄
  obtain ⟨e, _, h₅, h⟩ := Op.bind_eq_ok.1 h
  obtain ⟨hm, rfl⟩ := keyExists_eq_ok h₅
  rw [hm] at h
  have v₄' : lockView m₄.server = lockView m.server := v₄.trans v₂
  split at h
  · obtain ⟨_, m₆, h₆, h⟩ := Op.bind_eq_ok.1 h
    obtain ⟨_, m₇, h₇, h⟩ := Op.bind_eq_ok.1 h
    have v₇ : SameLocks m₆.server m₇.server := unlockCreation_keeps _ _ _ h₇
    cases h
    rcases acquireKey_lockView h₆ with ⟨hr, hv⟩ | ⟨l', hl', rfl, hv⟩
    · exact .inl ⟨hr, v₇.trans (hv.trans v₄')⟩
    · obtain ⟨hfree, rfl⟩ := RWMutex.tryLock_eq_some hl'
      exact .inr ⟨rfl, v₄' ▸ hfree, by rw [v₇, hv, v₄']⟩
  · rename_i hnone
    obtain ⟨_, _, h₆, h⟩ := Op.bind_eq_ok.1 h
    cases h₆
    obtain ⟨_, _, h₇, h⟩ := Op.bind_eq_ok.1 h
    cases h₇
    obtain ⟨_, m₈, h₈, h⟩ := Op.bind_eq_ok.1 h
    have v₈ : SameLocks _ m₈.server := unlockCreation_keeps _ _ _ h₈
    cases h
    refine .inr ⟨rfl, ?_, by rw [v₈, lockView_setLocks, v₄']⟩
    have hnone' : m₄.server.keyLocks.get key = none := by simpa using hnone
    rw [← v₄', lockView, hnone']
    rfl

end Keyspace

end EchoVault
