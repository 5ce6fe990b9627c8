/-
**Every key with a value can be locked.**

A handler finds a key through `KeyExists`, which looks at the lock map, and locks it through
`KeyLock`, which fails on a key without a lock: a value stored at a key without a lock could never
be read or changed again.  The keyspace deletes a key's value together with its lock, and only
after taking that lock (`adjustMemoryUsage`); `SetValue` stores without looking at the lock map,
and asks of its caller that "the key must be locked prior to calling this function".

The hash and set handlers do so.  The monitor `writeLocks` keeps the write locks a path holds: a
`KeyLock` or `CreateKeyAndLock` that returned no error adds its key, and a `KeyUnlock` or a
`SetValue` at a key the path does not hold breaks the property.  Every path of every hash and set
handler passes it (`refHandlers_lockedStores`): the guarded-locks monitor of `Handler.Races`
simulates it (`LockedStores.of_guarded`), and `SDIFF` and `SDIFFSTORE`, which that monitor
rejects for their unlocked reads, store only under the destination's write lock.  Along a run, the write locks the paths hold are
distinct and held in the lock table (`StoreInv`): no eviction can take them, so the key a
`SetValue` stores at has a lock.  Hence every key with a value has a lock (`Server.Lockable`)
after every run, after every interleaving of two handlers, and in every machine the server
reaches.  The converse does not hold: a key whose `SetValue` failed has a lock and no value.

Main definitions:

* `EchoVault.Server.Lockable` — every key with a value has a lock;
* `EchoVault.writeLocks` — the monitor of the write locks a path holds;
* `EchoVault.LockedStores` — every path stores and unlocks only under write locks it holds;
* `EchoVault.StoreInv` — the invariant along a run.

Main results:

* `EchoVault.Keyspace.setValue_storeUnder` — a `SetValue` under its key's write lock keeps every
  key with a value lockable, whatever it evicts;
* `EchoVault.StoreInv.stepCall` — one capability call keeps the invariant;
* `EchoVault.writeLocks_of_guardedLocks` — the guarded-locks monitor simulates this one;
* `EchoVault.refHandlers_lockedStores` — **every hash and set handler calls `SetValue` and
  `KeyUnlock` only on keys whose write lock it holds**;
* `EchoVault.refHandlers_interleaving_lockable` — **two hash or set handlers interleaved leave
  every key with a value lockable**;
* `EchoVault.Reachable.lockable` — **in every reachable machine every key with a value has a
  lock**.
-/

import EchoVault.Handler.Races

set_option relaxedAutoImplicit false
set_option autoImplicit false

namespace EchoVault

open Prog
open scoped List

/-! ### Lockable keys -/

/-- Every key with a value has a lock: `KeyExists` reports it, and `KeyLock` can take it. -/
def Server.Lockable (s : Server) : Prop :=
  ∀ k, (s.store.get k).isSome → (s.keyLocks.get k).isSome

theorem Server.lockable_empty (config : Config) : (Server.empty config).Lockable :=
  fun _ h => absurd h (by simp [Server.empty])

/-- A key with a writer has a lock: a key without one counts as unlocked. -/
theorem keyLocks_isSome_of_writer {s : Server} {k : Bytes} (h : (lockView s k).writer = true) :
    (s.keyLocks.get k).isSome := by
  cases hk : s.keyLocks.get k <;> simp_all [lockView, RWMutex.unlocked]

/-- `s.StaysLockable s'`: if every key with a value of `s` has a lock, so has every one of `s'`. -/
def Server.StaysLockable (s s' : Server) : Prop := s.Lockable → s'.Lockable

/-- **An eviction deletes a key's value with its lock**, and storing a mutex removes no lock. -/
instance : Server.LockFrame Server.StaysLockable where
  refl _ := id
  trans h₁ h₂ := h₂ ∘ h₁
  outside hs _ hl _ h k hk := by
    rw [hl]
    exact h k (by rwa [hs] at hk)
  evict {_ key _ _} _ _ h k hk := by
    by_cases e : key = k
    · simp [Server.evict, e] at hk
    · simpa [Server.evict, e] using h k (by simpa [Server.evict, e] using hk)
  setLock _ key _ h k hk := by
    simp only [GoMap.get_set]
    split
    · rfl
    · exact h k hk

/-- `s.StoreUnder key s'`: while `key` has a writer and every key with a value of `s` has a lock,
`key` keeps its writer and every key with a value of `s'` has a lock. -/
def Server.StoreUnder (key : Bytes) (s s' : Server) : Prop :=
  (lockView s key).writer = true → s.Lockable → (lockView s' key).writer = true ∧ s'.Lockable

/-- The lock view and lockable keys are both frames, so their conjunction is. -/
instance (key : Bytes) : Server.Frame (Server.StoreUnder key) where
  refl _ hw hl := ⟨hw, hl⟩
  trans h₁ h₂ hw hl := h₂ (h₁ hw hl).1 (h₁ hw hl).2
  outside hs he hl hh hw hL := by
    have hv : SameLocks _ _ := Server.Frame.outside hs he hl hh
    exact ⟨by rwa [hv], Server.Frame.outside (R := Server.StaysLockable) hs he hl hh hL⟩
  evict hl hl' hw hL := by
    have hv : SameLocks _ _ := Server.Frame.evict hl hl'
    exact ⟨by rwa [hv], Server.Frame.evict (R := Server.StaysLockable) hl hl' hL⟩

namespace Keyspace

open Op.Keeps

/-- **A `SetValue` under its key's write lock keeps every key with a value lockable**: the key it
stores at has a lock, and the evictions that follow delete values with their locks. -/
theorem setValue_storeUnder (key : Bytes) (value : Value) :
    (setValue key value).Keeps (Server.StoreUnder key) := by
  refine bind getServer fun s => bind (isMaxMemoryExceeded_keeps _) fun b => ?_
  dsimp only
  split
  · exact pure _
  refine bind (pure _) fun _ => bind (modifyServer fun s hw hL => ⟨hw, fun k hk => ?_⟩) fun _ =>
    bind (updateKeyInCache_keeps key) fun _ => ?_
  · simp only [GoMap.get_set] at hk
    split at hk
    · exact ‹key = k› ▸ keyLocks_isSome_of_writer hw
    · exact hL k hk
  split
  · exact bind (outside (fun _ => rfl) (fun _ => rfl) (fun _ => rfl) fun _ => rfl) fun _ => pure _
  · exact bind (pure _) fun _ => pure _

end Keyspace

/-! ### The write-locks monitor -/

/-- The write locks a path holds: a `KeyLock` or `CreateKeyAndLock` that returned no error adds
its key; a `KeyUnlock` removes it and a `SetValue` keeps it, each breaking the property at a key
the path does not hold.  Read locks are left out: they never change whether a key has a
writer. -/
def writeLocks : Monitor (List Bytes) := fun W c ok =>
  match c with
  | .keyLock k | .createKeyAndLock k => some (if ok then k :: W else W)
  | .keyUnlock k => if k ∈ W then some (W.erase k) else none
  | .setValue k _ => if k ∈ W then some W else none
  | _ => some W

section Monitor

variable {W W₁ : List Bytes} {c : Call} {b : Bool}

/-- `List.Perm.erase` for the `BEq` of `Bytes`. -/
theorem perm_erase_bytes {W' : List Bytes} (k : Bytes) (hW : W ~ W') : W.erase k ~ W'.erase k := by
  convert hW.erase k using 2 <;> exact lawful_beq_subsingleton _ _

/-- The monitor reads the write locks as a multiset: two orders of the same locks step alike. -/
theorem writeLocks_perm {W' : List Bytes} (c : Call) (b : Bool) (hW : W ~ W')
    (h : writeLocks W c b = some W₁) : ∃ W₁', writeLocks W' c b = some W₁' ∧ W₁ ~ W₁' := by
  cases c with
  | keyLock k | createKeyAndLock k =>
      cases h
      exact ⟨_, rfl, by cases b <;> simp [hW]⟩
  | keyUnlock k =>
      simp only [writeLocks] at h
      split at h
      · cases h
        exact ⟨_, if_pos (hW.mem_iff.1 ‹_›), perm_erase_bytes k hW⟩
      · cases h
  | setValue k v =>
      simp only [writeLocks] at h
      split at h
      · cases h
        exact ⟨_, if_pos (hW.mem_iff.1 ‹_›), hW⟩
      · cases h
  | _ =>
      cases h
      exact ⟨_, rfl, hW⟩

/-- The monitor steps alike with more locks held beside. -/
theorem writeLocks_append (W₂ : List Bytes) (h : writeLocks W c b = some W₁) :
    writeLocks (W ++ W₂) c b = some (W₁ ++ W₂) := by
  cases c with
  | keyLock k | createKeyAndLock k =>
      cases h
      cases b <;> rfl
  | keyUnlock k =>
      simp only [writeLocks] at h
      split at h
      · cases h
        rw [writeLocks, if_pos (List.mem_append_left W₂ ‹_›), List.erase_append_left W₂ ‹_›]
      · cases h
  | setValue k v =>
      simp only [writeLocks] at h
      split at h
      · cases h
        rw [writeLocks, if_pos (List.mem_append_left W₂ ‹_›)]
      · cases h
  | _ =>
      cases h
      rfl

theorem wp_writeLocks_perm {α : Type} {p : Prog α} {W' : List Bytes}
    {post : List Bytes → α → Prop} (hp : p.wp writeLocks W post) (hW : W ~ W') :
    p.wp writeLocks W' fun T a => ∃ T', T' ~ T ∧ post T' a :=
  wp_simulate (fun S S' => S ~ S') (fun _ _ c b _ hS h => writeLocks_perm c b hS h) hp hW

end Monitor

/-! ### The invariant along a run -/

/-- The invariant along a run: the write locks the paths hold are distinct and held in the lock
table, and every key with a value has a lock. -/
structure StoreInv (W : List Bytes) (s : Server) : Prop where
  nodup : W.Nodup
  writer : ∀ k ∈ W, (lockView s k).writer = true
  lockable : s.Lockable

namespace StoreInv

variable {W W' : List Bytes} {s s' : Server} {k : Bytes} {x : RWMutex}

theorem start (h : s.Lockable) : StoreInv [] s :=
  ⟨List.nodup_nil, fun _ hk => absurd hk (List.not_mem_nil _), h⟩

theorem perm (h : StoreInv W s) (hW : W ~ W') : StoreInv W' s :=
  ⟨hW.nodup_iff.1 h.nodup, fun k hk => h.writer k (hW.mem_iff.2 hk), h.lockable⟩

theorem not_mem (h : StoreInv W s) (hk : (lockView s k).writer = false) : k ∉ W :=
  fun hW => by simp [h.writer k hW] at hk

/-- A change that keeps the lock view. -/
theorem frame (h : StoreInv W s) (hv : SameLocks s s') (hl : Server.StaysLockable s s') :
    StoreInv W s' :=
  ⟨h.nodup, fun k hk => by rw [hv]; exact h.writer k hk, hl h.lockable⟩

/-- A change of the lock view at one key, the write locks held changing only at that key. -/
theorem update (h : StoreInv W s) (hv : lockView s' = Function.update (lockView s) k x)
    (hl : s'.Lockable) (hW : W'.Nodup) (hsub : ∀ k' ∈ W', k' ≠ k → k' ∈ W)
    (hx : k ∈ W' → x.writer = true) : StoreInv W' s' := by
  refine ⟨hW, fun k' hk' => ?_, hl⟩
  rw [hv]
  by_cases e : k' = k
  · subst e
    simpa using hx hk'
  · rw [Function.update_noteq e]
    exact h.writer k' (hsub k' hk' e)

/-- Taking the write lock of a key without a writer. -/
theorem lock (h : StoreInv W s) (hfree : (lockView s k).writer = false)
    (hv : lockView s' = Function.update (lockView s) k RWMutex.locked) (hl : s'.Lockable) :
    StoreInv (k :: W) s' :=
  h.update hv hl (h.nodup.cons (h.not_mem hfree)) (fun _ hk' e => (List.mem_cons.1 hk').resolve_left e)
    fun _ => rfl

/-- Taking a read lock of a key without a writer. -/
theorem rlock (h : StoreInv W s) (hfree : (lockView s k).writer = false)
    (hv : lockView s' = Function.update (lockView s) k x) (hl : s'.Lockable) : StoreInv W s' :=
  h.update hv hl h.nodup (fun _ hk' _ => hk') fun hk => absurd hk (h.not_mem hfree)

/-- Releasing a write lock. -/
theorem unlock (h : StoreInv W s)
    (hv : lockView s' = Function.update (lockView s) k x) (hl : s'.Lockable) :
    StoreInv (W.erase k) s' :=
  h.update hv hl (h.nodup.erase k) (fun _ hk' _ => List.mem_of_mem_erase hk')
    fun hk' => absurd hk' h.nodup.not_mem_erase

/-- Releasing a read lock, which keeps the writer. -/
theorem runlock (h : StoreInv W s) (hv : lockView s' = Function.update (lockView s) k x)
    (hl : s'.Lockable) (hx : x.writer = (lockView s k).writer) : StoreInv W s' :=
  h.update hv hl h.nodup (fun _ hk' _ => hk') fun hk => hx.trans (h.writer k hk)

open Keyspace in
/-- **One capability call keeps the invariant.**  A lock call changes the lock table as the
monitor changes the write locks held; a `SetValue` stores at a key held, which has a lock; every
other call keeps the lock view, and its evictions delete values with their locks. -/
theorem stepCall {m m' : Machine} {c : Call} {r : c.Result} (h : StoreInv W m.server)
    (hstep : Prog.stepCall c m = .ok r m') (hδ : writeLocks W c (c.ok r) = some W') :
    StoreInv W' m'.server := by
  obtain ⟨r', m₁, h₁, hrest⟩ := Op.bind_eq_ok.1 hstep
  obtain ⟨_, _, h₂, hrest⟩ := Op.bind_eq_ok.1 hrest
  cases h₂
  cases hrest
  change StoreInv W' m₁.server
  have hfree : SameLocks m.server m₁.server → Server.StaysLockable m.server m₁.server → W = W' →
      StoreInv W' m₁.server := fun hv hl hW => hW ▸ h.frame hv hl
  cases c with
  | keyExists key =>
      exact hfree (keyExists_keeps key _ _ _ h₁) (keyExists_keeps key _ _ _ h₁) (Option.some.inj hδ)
  | getValue key =>
      exact hfree (getValue_keeps key _ _ _ h₁) (getValue_keeps key _ _ _ h₁) (Option.some.inj hδ)
  | alloc o => cases h₁; exact hfree rfl id (Option.some.inj hδ)
  | load r => cases h₁; exact hfree rfl id (Option.some.inj hδ)
  | write r o => cases h₁; exact hfree rfl id (Option.some.inj hδ)
  | intn n =>
      exact hfree (Op.Keeps.randIntn n _ _ _ h₁) (Op.Keeps.randIntn n _ _ _ h₁) (Option.some.inj hδ)
  | panic msg => cases h₁
  | setValue key value =>
      simp only [writeLocks] at hδ
      split at hδ
      · cases hδ
        exact hfree (setValue_sameLocks key value _ _ _ h₁)
          (fun hl => (setValue_storeUnder key value _ _ _ h₁ (h.writer key ‹_›) hl).2) rfl
      · cases hδ
  | keyLock key =>
      simp only [writeLocks, Option.some.injEq] at hδ
      subst hδ
      rcases acquireKey_lockView h₁ with ⟨hr, hv⟩ | ⟨l', hl', rfl, hv⟩
      · rw [Call.ok, hr, if_neg Bool.false_ne_true]
        exact h.frame hv (acquireKey_keeps _ key _ _ _ h₁)
      · obtain ⟨hunlocked, rfl⟩ := RWMutex.tryLock_eq_some hl'
        exact h.lock (by rw [hunlocked]; rfl) hv
          (acquireKey_keeps (R := Server.StaysLockable) _ key _ _ _ h₁ h.lockable)
  | createKeyAndLock key =>
      simp only [writeLocks, Option.some.injEq] at hδ
      subst hδ
      rcases createKeyAndLock_lockView h₁ with ⟨hr, hv⟩ | ⟨rfl, hunlocked, hv⟩
      · rw [Call.ok, hr, if_neg Bool.false_ne_true]
        exact h.frame hv (createKeyAndLock_keeps key _ _ _ h₁)
      · exact h.lock (by rw [hunlocked]; rfl) hv
          (createKeyAndLock_keeps (R := Server.StaysLockable) key _ _ _ h₁ h.lockable)
  | keyRLock key =>
      obtain rfl : W = W' := Option.some.inj hδ
      rcases acquireKey_lockView h₁ with ⟨-, hv⟩ | ⟨l', hl', -, hv⟩
      · exact h.frame hv (acquireKey_keeps _ key _ _ _ h₁)
      · obtain ⟨hw, rfl⟩ := RWMutex.tryRLock_eq_some hl'
        exact h.rlock hw hv (acquireKey_keeps (R := Server.StaysLockable) _ key _ _ _ h₁ h.lockable)
  | keyUnlock key =>
      simp only [writeLocks] at hδ
      split at hδ
      · cases hδ
        rcases releaseKey_lockView h₁ with ⟨hunlocked, -⟩ | ⟨l', hl', hv⟩
        · simpa [hunlocked, RWMutex.unlocked] using h.writer key ‹_›
        · obtain ⟨-, rfl⟩ := RWMutex.unlock_eq_some hl'
          exact h.unlock hv (releaseKey_keeps (R := Server.StaysLockable) _ _ key _ _ _ h₁ h.lockable)
      · cases hδ
  | keyRUnlock key =>
      obtain rfl : W = W' := Option.some.inj hδ
      rcases releaseKey_lockView h₁ with ⟨-, hv⟩ | ⟨l', hl', hv⟩
      · exact h.frame hv (releaseKey_keeps _ _ key _ _ _ h₁)
      · obtain ⟨-, rfl⟩ := RWMutex.rUnlock_eq_some hl'
        exact h.runlock hv (releaseKey_keeps (R := Server.StaysLockable) _ _ key _ _ _ h₁ h.lockable) rfl

/-- **Along every run the invariant holds**, with the write locks the path holds. -/
theorem run {α : Type} {p : Prog α} {post : List Bytes → α → Prop} {m m' : Machine} {a : α}
    (hp : p.wp writeLocks W post) (h : StoreInv W m.server) (hrun : p.run m = .ok a m') :
    ∃ W', StoreInv W' m'.server ∧ post W' a :=
  wp_run (I := fun W m => StoreInv W m.server) (fun _ _ _ _ _ _ hI hstep hδ => hI.stepCall hstep hδ)
    hp h hrun

/-- **Along every interleaving of two programs the invariant holds**, with the write locks both
paths hold. -/
theorem interleave {α β : Type} {p : Prog α} {q : Prog β} {W₁ W₂ : List Bytes}
    {post₁ : List Bytes → α → Prop} {post₂ : List Bytes → β → Prop} {m m' : Machine} {a : α} {b : β}
    (hp : p.wp writeLocks W₁ post₁) (hq : q.wp writeLocks W₂ post₂) (h : StoreInv (W₁ ++ W₂) m.server)
    (hi : Interleaving m p q m' a b) :
    ∃ W₁' W₂', StoreInv (W₁' ++ W₂') m'.server ∧ post₁ W₁' a ∧ post₂ W₂' b :=
  wp_interleave (I := fun W₁ W₂ m => StoreInv (W₁ ++ W₂) m.server)
    (fun _ W₂ _ _ _ _ _ hI hstep hδ => hI.stepCall hstep (writeLocks_append W₂ hδ))
    (fun W₁ _ _ _ _ _ _ hI hstep hδ => ((hI.perm List.perm_append_comm).stepCall hstep
      (writeLocks_append W₁ hδ)).perm List.perm_append_comm) hp hq h hi

end StoreInv

/-! ### Paths that store under their write locks -/

/-- Started holding the write locks `L`, which `p` may release, and `H`, which hold `K`, along
every path of `p` each `SetValue` and each `KeyUnlock` is at a key whose write lock the path
holds, and the path ends holding `H`, and possibly locks it took and kept. -/
def LockedStores {α : Type} (K L : List Bytes) (p : Prog α) : Prop :=
  ∀ H, K ⊆ H → p.wp writeLocks (L ++ H) fun H' _ => ∃ E, H' ~ H ++ E

namespace LockedStores

variable {α β : Type} {K L L₁ L₂ : List Bytes}

/-- A path may return holding locks it took: `SADD`, `SDIFFSTORE` and `SINTERSTORE` do when
their `SetValue` fails. -/
theorem pure (a : α) : LockedStores K L (Prog.pure a) := fun _ _ => ⟨L, List.perm_append_comm⟩

/-- **Sequencing**: `p` may use the locks `L₂` that `f` releases, and must keep them. -/
theorem bind {p : Prog α} {f : α → Prog β} (hp : LockedStores (L₂ ++ K) L₁ p)
    (hf : ∀ a, LockedStores K L₂ (f a)) : LockedStores K (L₁ ++ L₂) (p >>= f) := by
  intro H hK
  rw [wp_bind, List.append_assoc]
  have hp' := hp (L₂ ++ H) (List.append_subset.2 ⟨List.subset_append_left _ _,
    hK.trans (List.subset_append_right _ _)⟩)
  refine wp_mono (fun S a hS => ?_) hp'
  obtain ⟨E, hS⟩ := hS
  rw [List.append_assoc] at hS
  have hf' := wp_writeLocks_perm (hf a (H ++ E) (hK.trans (List.subset_append_left _ _))) hS.symm
  refine wp_mono (fun T _ hT => ?_) hf'
  obtain ⟨T', hT, E', hT'⟩ := hT
  refine ⟨E ++ E', ?_⟩
  rw [← List.append_assoc]
  exact hT.symm.trans hT'

theorem bind_free {p : Prog α} {f : α → Prog β} (hp : LockedStores (L ++ K) [] p)
    (hf : ∀ a, LockedStores K L (f a)) : LockedStores K L (p >>= f) :=
  hp.bind hf

theorem bind_nil {p : Prog α} {f : α → Prog β} (hp : LockedStores K L p)
    (hf : ∀ a, LockedStores K [] (f a)) : LockedStores K L (p >>= f) := by
  have hp' : LockedStores ([] ++ K) L p := hp
  simpa using hp'.bind hf

/-- A call that neither locks, unlocks nor stores. -/
theorem call_free {c : Call} {k : c.Result → Prog α} (hc : ∀ W b, writeLocks W c b = some W)
    (hk : ∀ r, LockedStores K L (k r)) : LockedStores K L (.call c k) :=
  fun H hK r => ⟨_, hc _ _, hk r H hK⟩

theorem call_then {c : Call} {f : c.Result → Prog α} (hc : ∀ W b, writeLocks W c b = some W)
    (hf : ∀ r, LockedStores K L (f r)) : LockedStores K L (.call c Prog.pure >>= f) :=
  call_free hc hf

/-- A write-lock call: on success the rest of the path holds the lock too. -/
theorem call_lock {c : Call} {k : c.Result → Prog α} {key : Bytes}
    (hc : ∀ W b, writeLocks W c b = some (if b then key :: W else W))
    (hk : ∀ r, LockedStores K (if c.ok r then key :: L else L) (k r)) : LockedStores K L (.call c k) :=
  fun H hK r => ⟨_, hc _ _, by cases h : c.ok r <;> simpa [h] using hk r H hK⟩

theorem unlock (key : Bytes) : LockedStores K [key] (keyUnlock key) :=
  fun H _ _ => ⟨H, by simp [writeLocks], [], by simp⟩

/-- A `SetValue` at a key the path holds, or the context. -/
theorem setValue_bind {key : Bytes} {value : Value} {f : Except Bytes Unit → Prog α}
    (hk : key ∈ L ∨ key ∈ K) (hf : ∀ r, LockedStores K L (f r)) :
    LockedStores K L (setValue key value >>= f) := fun H hK r =>
  ⟨L ++ H, if_pos (hk.elim (List.mem_append_left H) fun h => List.mem_append_right L (hK h)),
    hf r H hK⟩

theorem withDefer_free {p : Prog α} {d : Prog Unit} (hp : LockedStores K L p)
    (hd : LockedStores K [] d) : LockedStores K L (Prog.withDefer d p) :=
  bind_nil hp fun a => bind_nil hd fun _ => pure a

theorem bind_option {p : Prog (Option β)} {g : Option β → Prog α} (hp : LockedStores (L ++ K) [] p)
    (hnone : LockedStores K L (g none)) (hsome : ∀ b, LockedStores K L (g (some b))) :
    LockedStores K L (p >>= g) :=
  bind_free hp fun r => by rcases r with _ | b; exacts [hnone, hsome b]

theorem index_bind {xs : List Bytes} {i : ℕ} {f : Bytes → Prog α} (hf : ∀ x, LockedStores K L (f x)) :
    LockedStores K L (index xs i >>= f) := fun H hK => by
  rw [wp_bind, wp_index]
  exact fun x _ => hf x H hK

theorem sliceFrom_bind {xs : List Bytes} {i : ℕ} {f : List Bytes → Prog α}
    (hf : ∀ x, LockedStores K L (f x)) : LockedStores K L (sliceFrom xs i >>= f) := fun H hK => by
  rw [wp_bind, wp_sliceFrom]
  exact fun _ => hf _ H hK

theorem index (xs : List Bytes) (i : ℕ) : LockedStores K L (Prog.index xs i) := fun _ _ =>
  (wp_index _ _ _ _).2 fun _ _ => ⟨L, List.perm_append_comm⟩

theorem sliceFrom (xs : List Bytes) (i : ℕ) : LockedStores K L (Prog.sliceFrom xs i) := fun _ _ =>
  (wp_sliceFrom _ _ _ _).2 fun _ => ⟨L, List.perm_append_comm⟩

end LockedStores

/-! ### The pieces lock and store nothing -/

section Pieces

open LockedStores

variable {K : List Bytes}

theorem getSet_lockedStores (key : Bytes) : LockedStores K [] (getSet key) := by
  refine call_then (fun _ _ => rfl) fun v => ?_
  rcases v with _ | _ | _
  · exact pure none
  · exact call_then (fun _ _ => rfl) fun o => by cases o <;> exact pure _
  · exact pure none

theorem runlockAll_lockedStores (locks : GoMap Bool) : LockedStores K [] (runlockAll locks) := by
  induction locks with
  | nil => exact pure _
  | cons e locks ih =>
      rw [runlockAll]
      split
      · exact call_then (fun _ _ => rfl) fun _ => ih
      · exact bind_nil (pure ()) fun _ => ih

theorem withLocks_lockedStores {body : Prog (GoMap Bool × Reply)} (h : LockedStores K [] body) :
    LockedStores K [] (withLocks body) :=
  bind_nil h fun x => bind_nil (runlockAll_lockedStores x.1) fun _ => pure _

theorem rlockKeys_lockedStores (missing : Option Reply) (stopOnError : Bool) (keys : List Bytes)
    (locks : GoMap Bool) : LockedStores K [] (rlockKeys missing stopOnError keys locks) := by
  induction keys generalizing locks with
  | nil => exact pure _
  | cons key keys ih =>
      refine call_then (fun _ _ => rfl) fun (b : Bool) => ?_
      cases b
      · cases missing
        exacts [ih locks, pure _]
      · refine call_then (fun _ _ => rfl) fun r => ?_
        rcases r with _ | _
        · cases stopOnError
          exacts [ih locks, pure _]
        · exact ih _

theorem setsOf_lockedStores (keys : List Bytes) : LockedStores K [] (setsOf keys) := by
  induction keys with
  | nil => exact pure _
  | cons key keys ih =>
      exact bind_nil (getSet_lockedStores key) fun v => by
        rcases v with _ | ⟨_, _⟩
        · exact ih
        · exact bind_nil ih fun _ => pure _

/-- The tail of `SDIFFSTORE` and `SINTERSTORE` stores under the destination's write lock, and
keeps the lock when `SetValue` fails. -/
theorem storeSet_lockedStores (destination : Bytes) (r : ℕ) (res : Bytes) :
    LockedStores K [] (storeSet destination r res) := by
  refine call_then (fun _ _ => rfl) fun (b : Bool) => ?_
  dsimp only
  split <;> refine call_lock (fun _ _ => rfl) fun r => ?_ <;> rcases r with e | _ <;>
    first
    | exact pure _
    | exact setValue_bind (.inl (List.mem_cons_self _ _)) fun r => by
        rcases r with e | _
        exacts [pure _, bind_nil (unlock _) fun _ => pure _]

end Pieces

/-! ### The handlers -/

section Handlers

open LockedStores

variable {K : List Bytes} (keyFunc : KeyFunc) (command : List Bytes)

/-- `KeyRLock`, its error check, and the deferred `KeyRUnlock` around `body`. -/
theorem rlock_defer_lockedStores {key : Bytes} {body : Prog Reply} (hbody : LockedStores K [] body) :
    LockedStores K [] (Prog.keyRLock key >>= fun r =>
      match r with
      | .error e => Prog.pure (.error e)
      | .ok _ => withDefer (keyRUnlock key) body) :=
  call_free (fun _ _ => rfl) fun r => by
    rcases r with e | _
    exacts [pure _, withDefer_free hbody (call_free (fun _ _ => rfl) fun _ => pure _)]

/-- `SDIFF` and `SDIFFSTORE` read-lock and read, then run `tail`. -/
theorem diffWith_lockedStores (setKeys : Keys → Prog (List Bytes)) (pre : Keys → Prog Bytes)
    (tail : Bytes → List Bytes → Prog Reply) (hset : ∀ keys, LockedStores K [] (setKeys keys))
    (hpre : ∀ keys, LockedStores K [] (pre keys)) (htail : ∀ d diff, LockedStores K [] (tail d diff)) :
    LockedStores K [] (diffWith keyFunc command setKeys pre tail) := by
  unfold diffWith
  split
  · exact pure _
  refine bind_free (hpre _) fun d => index_bind fun base => call_then (fun _ _ => rfl) fun (b : Bool) => ?_
  dsimp only
  split
  · exact pure _
  refine bind_free (pure _) fun _ => rlock_defer_lockedStores (bind_option (getSet_lockedStores base)
    (pure _) fun _ => withLocks_lockedStores (sliceFrom_bind fun _ =>
      bind_nil (rlockKeys_lockedStores _ _ _ _) fun _ => ?_))
  exact bind_nil (hset _) fun _ => bind_nil (setsOf_lockedStores _) fun _ =>
    bind_nil (htail _ _) fun _ => pure _

end Handlers

/-! ### From the guarded-locks monitor -/

/-- The keys of the write locks among the locks `G`, which the write-locks monitor keeps. -/
def writeLocksOf (G : List KeyLock) : List Bytes := (G.filter (·.write)).map (·.key)

section Simulation

variable {G G' : List KeyLock} {W : List Bytes} {k : Bytes}

@[simp] theorem writeLocksOf_nil : writeLocksOf [] = [] := rfl

@[simp] theorem writeLocksOf_cons (l : KeyLock) (G : List KeyLock) :
    writeLocksOf (l :: G) = if l.write then l.key :: writeLocksOf G else writeLocksOf G := by
  by_cases h : l.write <;> simp [writeLocksOf, List.filter_cons, h]

theorem writeLocksOf_append (G E : List KeyLock) : writeLocksOf (G ++ E) = writeLocksOf G ++ writeLocksOf E := by
  simp [writeLocksOf]

theorem writeLocksOf_perm (h : G ~ G') : writeLocksOf G ~ writeLocksOf G' := (h.filter _).map _

theorem mem_writeLocksOf : k ∈ writeLocksOf G ↔ ⟨k, true⟩ ∈ G := by
  simp only [writeLocksOf, List.mem_map, List.mem_filter]
  refine ⟨fun ⟨⟨k', w⟩, ⟨h, hw⟩, hk⟩ => ?_, fun h => ⟨_, ⟨h, rfl⟩, rfl⟩⟩
  obtain rfl : w = true := hw
  obtain rfl : k' = k := hk
  exact h

/-- A list of keys, write-locked. -/
theorem writeLocksOf_map_write (H : List Bytes) : writeLocksOf (H.map (⟨·, true⟩)) = H := by
  induction H with
  | nil => rfl
  | cons k H ih => simp [ih]

/-- Releasing a lock held drops its key from the write locks when it is the write lock. -/
theorem writeLocksOf_erase (l : KeyLock) (G : List KeyLock) :
    writeLocksOf (G.erase l) ~ if l.write then (writeLocksOf G).erase l.key else writeLocksOf G := by
  induction G with
  | nil => by_cases h : l.write <;> simp [h]
  | cons l' G ih =>
      by_cases e : l' = l
      · subst e
        by_cases h : l'.write <;> simp [h]
      · rw [List.erase_cons_tail (by simpa using e), writeLocksOf_cons, writeLocksOf_cons]
        obtain ⟨k', w'⟩ := l'
        obtain ⟨k, w⟩ := l
        cases w' <;> cases w <;> simp only [if_true, Bool.false_eq_true, if_false] at ih ⊢
        · exact ih
        · exact ih
        · exact ih.cons k'
        · rw [List.erase_cons_tail (by simpa using fun h : k' = k => e (by rw [h]))]
          exact ih.cons k'

/-- **The guarded-locks monitor simulates the write-locks monitor**: with the write locks of the
one the locks of the other, every call the first accepts the second accepts. -/
theorem writeLocks_of_guardedLocks (c : Call) (b : Bool) (hR : W ~ writeLocksOf G)
    (h : guardedLocks G c b = some G') : ∃ W', writeLocks W c b = some W' ∧ W' ~ writeLocksOf G' := by
  have hfree : heldLocks G c b = some G → G' = G := fun hG =>
    Option.some.inj ((heldLocks_of_guardedLocks h).symm.trans hG)
  cases c with
  | keyLock key | createKeyAndLock key =>
      rw [heldLocks_of_acquires (heldLocks_of_guardedLocks h) rfl]
      cases b
      exacts [⟨W, rfl, by simpa using hR⟩, ⟨_, rfl, by simpa using hR.cons key⟩]
  | keyRLock key =>
      rw [heldLocks_of_acquires (heldLocks_of_guardedLocks h) rfl]
      exact ⟨W, rfl, by cases b <;> simpa using hR⟩
  | keyUnlock key =>
      obtain ⟨hk, rfl⟩ := heldLocks_of_releases (heldLocks_of_guardedLocks h) rfl rfl
      refine ⟨_, if_pos (hR.mem_iff.2 (mem_writeLocksOf.2 hk)), ?_⟩
      simpa using (perm_erase_bytes key hR).trans (writeLocksOf_erase ⟨key, true⟩ G).symm
  | keyRUnlock key =>
      obtain ⟨-, rfl⟩ := heldLocks_of_releases (heldLocks_of_guardedLocks h) rfl rfl
      exact ⟨W, rfl, by simpa using hR.trans (writeLocksOf_erase ⟨key, false⟩ G).symm⟩
  | setValue key value =>
      obtain ⟨⟨k', w⟩, hl, rfl, hw⟩ := covered_of_guardedLocks h rfl
      obtain rfl := guardedLocks_access_eq h rfl
      obtain rfl : w = true := hw rfl
      exact ⟨W, if_pos (hR.mem_iff.2 (mem_writeLocksOf.2 hl)), hR⟩
  | getValue key =>
      obtain rfl := guardedLocks_access_eq h rfl
      exact ⟨W, rfl, hR⟩
  | keyExists key => exact ⟨W, rfl, hfree rfl ▸ hR⟩
  | alloc o => exact ⟨W, rfl, hfree rfl ▸ hR⟩
  | load r => exact ⟨W, rfl, hfree rfl ▸ hR⟩
  | write r o => exact ⟨W, rfl, hfree rfl ▸ hR⟩
  | intn n => exact ⟨W, rfl, hfree rfl ▸ hR⟩
  | panic msg => exact ⟨W, rfl, hfree rfl ▸ hR⟩

end Simulation

/-- **A path that reads and writes under its locks stores and unlocks under its write locks.** -/
theorem LockedStores.of_guarded {α : Type} {p : Prog α} (h : Guarded [] [] p) : LockedStores [] [] p :=
  fun H _ => by
    refine wp_mono (fun W _ hW => ?_) (wp_simulate (fun G W => W ~ writeLocksOf G)
      (fun _ _ c b _ hR hδ => writeLocks_of_guardedLocks c b hR hδ) (h _ (List.nil_subset _))
      (.of_eq (writeLocksOf_map_write H).symm))
    obtain ⟨G, hW, E, hG⟩ := hW
    refine ⟨writeLocksOf E, hW.trans ?_⟩
    have := writeLocksOf_perm hG
    rwa [writeLocksOf_append, writeLocksOf_map_write] at this

open LockedStores in
/-- **Every hash and set handler calls `SetValue` and `KeyUnlock` only on keys whose write lock
it holds**, for every key extraction function and every command: along every path, started
holding any write locks, each `SetValue` and each `KeyUnlock` is at a key locked by a `KeyLock` or
`CreateKeyAndLock` of the path that returned no error, or held before, and the path returns still
holding what it was given. -/
theorem refHandlers_lockedStores (handler : KeyFunc → List Bytes → Prog Reply)
    (hh : handler ∈ refHandlers) (keyFunc : KeyFunc) (command : List Bytes) :
    LockedStores [] [] (handler keyFunc command) := by
  have hcases : handler ∈ guardedHandlers ∨ handler = handleSDIFF ∨ handler = handleSDIFFSTORE := by
    simp only [refHandlers, List.mem_cons, List.mem_nil_iff, or_false] at hh
    rcases hh with rfl | rfl | rfl | rfl | rfl | rfl | rfl | rfl | rfl | rfl | rfl | rfl | rfl | rfl |
      rfl | rfl | rfl | rfl | rfl | rfl | rfl | rfl | rfl | rfl | rfl | rfl | rfl <;> simp [guardedHandlers]
  rcases hcases with hg | rfl | rfl
  · exact LockedStores.of_guarded (guardedHandlers_guarded handler hg keyFunc command)
  · exact diffWith_lockedStores _ _ _ _ _ (fun _ => sliceFrom _ _) (fun _ => pure _) fun _ _ => pure _
  · exact diffWith_lockedStores _ _ _ _ _ (fun _ => sliceFrom _ _) (fun _ => index _ _) fun _ _ =>
      call_then (fun _ _ => rfl) fun _ => storeSet_lockedStores _ _ _


/-! ### Runs -/

namespace LockedStores

variable {α β : Type} {p : Prog α} {m m' : Machine}

/-- **A run of a program that stores under its write locks keeps every key with a value
lockable.** -/
theorem run_lockable {a : α} (hp : LockedStores [] [] p) (hl : m.server.Lockable)
    (hrun : p.run m = .ok a m') : m'.server.Lockable := by
  obtain ⟨_, hI, -⟩ := StoreInv.run (hp [] (List.nil_subset _)) (StoreInv.start hl) hrun
  exact hI.lockable

/-- **So does every interleaving of two such programs.** -/
theorem interleaving_lockable {q : Prog β} {a : α} {b : β} (hp : LockedStores [] [] p)
    (hq : LockedStores [] [] q) (hl : m.server.Lockable) (hi : Interleaving m p q m' a b) :
    m'.server.Lockable := by
  obtain ⟨_, _, hI, -, -⟩ := StoreInv.interleave (hp [] (List.nil_subset _)) (hq [] (List.nil_subset _))
    (StoreInv.start hl) hi
  exact hI.lockable

end LockedStores

/-- **Every hash and set handler stores and unlocks only under write locks it holds.**  For
every handler of `refHandlers`, every key extraction function and every command, along every
path of the handler, whatever each call returns, every `SetValue` and every `KeyUnlock` is at a
key whose write lock an earlier `KeyLock` or `CreateKeyAndLock` of the path took, without error,
and no `KeyUnlock` of the path released since: the precondition `SetValue` states, "the key must
be locked prior to calling this function". -/
theorem refHandlers_store_under_writeLock (handler : KeyFunc → List Bytes → Prog Reply)
    (hh : handler ∈ refHandlers) (keyFunc : KeyFunc) (command : List Bytes) :
    (handler keyFunc command).wp writeLocks [] fun _ _ => True :=
  wp_mono (fun _ _ _ => trivial) (refHandlers_lockedStores handler hh keyFunc command [] (List.nil_subset _))

/-- `SADD s a`, which stores a new set under the lock it creates, passes the monitor. -/
theorem sadd_store_under_writeLock :
    handleSADD ∈ refHandlers ∧
      (handleSADD firstWriteKey [ascii "SADD", ascii "s", ascii "a"]).wp writeLocks [] fun _ _ => True :=
  ⟨by simp [refHandlers], refHandlers_store_under_writeLock handleSADD (by simp [refHandlers])
    firstWriteKey [ascii "SADD", ascii "s", ascii "a"]⟩

/-- **Two hash or set handlers interleaved leave every key with a value lockable.**  For every two
handlers of `refHandlers`, with any key extraction functions and commands, from every machine in
which every key with a value has a lock, every interleaving of their calls in which both return
ends in a machine in which every key with a value has a lock, whatever the keyspace evicted:
`KeyExists` reports every key that has a value. -/
theorem refHandlers_interleaving_lockable (handler handler' : KeyFunc → List Bytes → Prog Reply)
    (hh : handler ∈ refHandlers) (hh' : handler' ∈ refHandlers) (keyFunc keyFunc' : KeyFunc)
    (command command' : List Bytes) (m m' : Machine) (reply reply' : Reply) (hl : m.server.Lockable)
    (hi : Interleaving m (handler keyFunc command) (handler' keyFunc' command') m' reply reply') :
    m'.server.Lockable :=
  LockedStores.interleaving_lockable (refHandlers_lockedStores handler hh keyFunc command)
    (refHandlers_lockedStores handler' hh' keyFunc' command') hl hi

/-- `HSET h f v` and `SADD s a` on a keyspace without keys, each past its `KeyExists`, then one
after the other: both create their key and reply `:1`, and every key with a value has a lock. -/
theorem hset_sadd_keep_lockable :
    (Interleaving.runSched [true, false]
        (handleHSET firstWriteKey [ascii "HSET", ascii "h", ascii "f", ascii "v"])
        (handleSADD firstWriteKey [ascii "SADD", ascii "s", ascii "a"])
        emptyUnlimited).result = .ok (.ok (ascii ":1\r\n"), .ok (ascii ":1\r\n")) ∧
      (Interleaving.runSched [true, false]
        (handleHSET firstWriteKey [ascii "HSET", ascii "h", ascii "f", ascii "v"])
        (handleSADD firstWriteKey [ascii "SADD", ascii "s", ascii "a"])
        emptyUnlimited).machine.server.Lockable :=
  ⟨by decide, refHandlers_interleaving_lockable handleHSET handleSADD (by simp [refHandlers])
    (by simp [refHandlers]) firstWriteKey firstWriteKey
    [ascii "HSET", ascii "h", ascii "f", ascii "v"] [ascii "SADD", ascii "s", ascii "a"]
    emptyUnlimited _ (.ok (ascii ":1\r\n")) (.ok (ascii ":1\r\n")) (Server.lockable_empty _)
    (Interleaving.of_runSched _ _ _ _ (by decide))⟩

/-- **In every reachable machine every key with a value has a lock**: whatever the hash and set
handlers ran, one at a time or two interleaved, and whatever the keyspace evicted, `KeyExists`
reports every key that has a value and `KeyLock` finds its lock. -/
theorem Reachable.lockable {m : Machine} (h : Reachable m) : m.server.Lockable := by
  induction h with
  | empty config => exact Server.lockable_empty config
  | world _ _ ih => exact ih
  | run _ hh hrun ih => exact LockedStores.run_lockable (refHandlers_lockedStores _ hh _ _) ih hrun
  | interleave _ hh hh' hi ih =>
      exact LockedStores.interleaving_lockable (refHandlers_lockedStores _ hh _ _)
        (refHandlers_lockedStores _ hh' _ _) ih hi

/-- The keyspace after `SADD s a` on a keyspace without keys is reachable, and its key `s` has a
lock. -/
theorem saddS_lockable : Reachable saddS ∧ saddS.server.Lockable :=
  have h : Reachable saddS := .run (.empty _ _ _) (by simp [refHandlers])
    (Outcome.eq_ok_of_result (a := .ok (ascii ":1\r\n")) (by decide))
  ⟨h, Reachable.lockable h⟩

end EchoVault
