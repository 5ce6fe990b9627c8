/-
**What the keyspace functions change: frames.**

Apart from its lock functions and `SetValue`, every function of `keyspace.go` that a handler
reaches changes the server in two ways only: outside the store, the expiry map, the lock map
and the heap (the eviction caches, the creation lock), and by the evictions of `adjustMemoryUsage`, each
of which takes the lock of a key it finds free and deletes the key.  A preorder on servers
that both kinds of change keep is a *frame* (`Server.Frame`); every such function keeps every
frame, whatever it evicts.  This is proved once here, over any frame, and used for two: the
bindings of the store and of the expiry map, which may only go (below), and the lock view
(`Keyspace.LockTable`).  The lock functions get one inversion lemma each.

Main definitions:

* `EchoVault.Server.Frame` — a relation kept by changes outside the three maps and the heap,
  and by an eviction;
* `EchoVault.Server.LockFrame` — a frame that storing a mutex at one key of the lock map also
  keeps, so that the lock functions keep it too;
* `EchoVault.Op.Keeps` — an operation that keeps a relation on every run that returns;
* `EchoVault.Server.NoNewBindings` — every binding of the later server was one of the earlier;
* `EchoVault.Server.SameHeap` — the heap is left alone.

Main results:

* `EchoVault.Keyspace.acquireKey_eq_ok`, `EchoVault.Keyspace.releaseKey_eq_ok` — what the lock
  functions do to the lock map;
* `EchoVault.Keyspace.adjustMemoryUsage_keeps`, `EchoVault.Keyspace.getValue_keeps` — eviction
  keeps every frame;
* `EchoVault.Keyspace.setValue_noNewBindings_of_error` — a `SetValue` that fails binds nothing;
* `EchoVault.Keyspace.setValue_bound` — one that stores binds its value at its key, and nothing
  else;
* `EchoVault.Prog.stepCall_noNewBindings` — **a capability call other than a `SetValue` that
  stores adds no binding**;
* `EchoVault.Prog.stepCall_sameHeap` — only `alloc` and `write` change the heap.
-/

import EchoVault.Keyspace.Prog

set_option relaxedAutoImplicit false
set_option autoImplicit false

namespace EchoVault

/-! ### Frames -/

/-- The server after one eviction of `key`: its lock is taken, `l` being what `TryLock` made of
it, then the key is deleted from the store, the expiry map and the lock map. -/
def Server.evict (s : Server) (key : Bytes) (l : RWMutex) : Server :=
  { s with store := s.store.delete key, keyExpiry := s.keyExpiry.delete key,
           keyLocks := (s.keyLocks.set key l).delete key }

/-- A frame: a preorder on servers that every change outside the store, the expiry map, the lock
map and the heap keeps, and so does an eviction of a key whose lock `TryLock` takes. -/
class Server.Frame (R : Server → Server → Prop) : Prop where
  refl : ∀ s, R s s
  trans : ∀ {s₁ s₂ s₃}, R s₁ s₂ → R s₂ s₃ → R s₁ s₃
  outside : ∀ {s s' : Server}, s'.store = s.store → s'.keyExpiry = s.keyExpiry →
    s'.keyLocks = s.keyLocks → s'.heap = s.heap → R s s'
  evict : ∀ {s : Server} {key : Bytes} {l l' : RWMutex}, s.keyLocks.get key = some l →
    l.tryLock = some l' → R s (s.evict key l')

/-- A frame that storing a mutex at one key of the lock map also keeps: the lock functions keep
it. -/
class Server.LockFrame (R : Server → Server → Prop) extends Server.Frame R : Prop where
  setLock : ∀ (s : Server) (key : Bytes) (l : RWMutex), R s { s with keyLocks := s.keyLocks.set key l }

/-! ### Operations that keep a relation -/

namespace Op

variable {α β : Type}

/-- Peel one step off a sequence that returned. -/
theorem bind_eq_ok {x : Op α} {f : α → Op β} {m m' : Machine} {b : β} :
    (x >>= f) m = .ok b m' ↔ ∃ a m₁, x m = .ok a m₁ ∧ f a m₁ = .ok b m' := by
  simp only [run_bind]
  rcases x m with ⟨a, m₁⟩ | ⟨s, m₁⟩
  · exact ⟨fun h => ⟨a, m₁, rfl, h⟩, fun ⟨_, _, h₁, h₂⟩ => by cases h₁; exact h₂⟩
  · simp

/-- Two sequences that agree after every way their first step can return. -/
theorem bind_congr {x : Op α} {f g : α → Op β} {m : Machine}
    (h : ∀ a m', x m = .ok a m' → f a m' = g a m') : (x >>= f) m = (x >>= g) m := by
  simp only [run_bind]
  rcases hx : x m with ⟨a, m'⟩ | ⟨s, m'⟩
  · exact h a m' hx
  · rfl

/-! #### Operations that leave the server alone -/

section Server

variable {m m' : Machine}

theorem getServer_server {s : Server} (h : Op.getServer m = .ok s m') : m'.server = m.server := by
  cases h
  rfl

theorem emit_server {e : Event} (h : Op.emit e m = .ok () m') : m'.server = m.server := by
  cases h
  rfl

theorem cause_server {b : Bytes} (h : Op.cause m = .ok b m') : m'.server = m.server := by
  cases h
  rfl

theorem readMemStats_server {b : Bool} (h : Op.readMemStats m = .ok b m') : m'.server = m.server := by
  unfold Op.readMemStats at h
  split at h <;> cases h <;> rfl

theorem ctxDone_server {b : Bool} (h : Op.ctxDone m = .ok b m') : m'.server = m.server := by
  unfold Op.ctxDone at h
  split at h <;> cases h <;> rfl

theorem randIntn_server {n i : ℕ} (h : Op.randIntn n m = .ok i m') : m'.server = m.server := by
  unfold Op.randIntn at h
  split at h
  · cases h
  · split at h <;> cases h <;> rfl

end Server

/-- On every run of `x` that returns, the server before and the server after are related by
`R`. -/
def Keeps (R : Server → Server → Prop) (x : Op α) : Prop :=
  ∀ m a m', x m = .ok a m' → R m.server m'.server

namespace Keeps

variable {R : Server → Server → Prop}

theorem modifyServer {f : Server → Server} (hf : ∀ s, R s (f s)) : (Op.modifyServer f).Keeps R :=
  fun m _ _ h => by
    cases h
    exact hf m.server

theorem stop (s : Stop) : (Op.stop s : Op α).Keeps R := fun _ _ _ h => by cases h

/-- Both branches of an `if` keep the frame. -/
theorem ite {c : Prop} [Decidable c] {x y : Op α} (hx : x.Keeps R) (hy : y.Keeps R) :
    (if c then x else y).Keeps R := by
  split
  exacts [hx, hy]

variable [Server.Frame R]

/-- An operation that leaves the server alone. -/
theorem of_server_eq {x : Op α} (h : ∀ m a m', x m = .ok a m' → m'.server = m.server) :
    x.Keeps R := fun m a m' hx => by
  rw [h m a m' hx]
  exact Server.Frame.refl _

theorem pure (a : α) : (Pure.pure a : Op α).Keeps R :=
  of_server_eq fun _ _ _ h => by cases h; rfl

theorem bind {x : Op α} {f : α → Op β} (hx : x.Keeps R) (hf : ∀ a, (f a).Keeps R) :
    (x >>= f).Keeps R := fun _ _ _ h => by
  obtain ⟨a, m₁, h₁, h₂⟩ := bind_eq_ok.1 h
  exact Server.Frame.trans (hx _ _ _ h₁) (hf a _ _ _ h₂)

/-- A change of the server outside its store, its expiry map, its lock map and its heap. -/
theorem outside {f : Server → Server} (hs : ∀ s : Server, (f s).store = s.store)
    (he : ∀ s : Server, (f s).keyExpiry = s.keyExpiry)
    (hl : ∀ s : Server, (f s).keyLocks = s.keyLocks) (hh : ∀ s : Server, (f s).heap = s.heap) :
    (Op.modifyServer f).Keeps R :=
  modifyServer fun s => Server.Frame.outside (hs s) (he s) (hl s) (hh s)

theorem getServer : Op.getServer.Keeps R := of_server_eq fun _ _ _ => getServer_server

theorem emit (e : Event) : (Op.emit e).Keeps R := of_server_eq fun _ _ _ => emit_server

theorem cause : Op.cause.Keeps R := of_server_eq fun _ _ _ => cause_server

theorem readMemStats : Op.readMemStats.Keeps R := of_server_eq fun _ _ _ => readMemStats_server

theorem ctxDone : Op.ctxDone.Keeps R := of_server_eq fun _ _ _ => ctxDone_server

theorem randIntn (n : ℕ) : (Op.randIntn n).Keeps R := of_server_eq fun _ _ _ => randIntn_server

end Keeps

end Op

/-! ### The functions of `keyspace.go` -/

namespace Keyspace

variable {β : Type}

/-! #### What the lock functions do -/

theorem keyExists_eq_ok {key : Bytes} {m m' : Machine} {b : Bool} (h : keyExists key m = .ok b m') :
    m' = m ∧ b = (m.server.keyLocks.get key).isSome := by
  cases h
  exact ⟨rfl, rfl⟩

/-- **What `KeyLock` and `KeyRLock` do**: fail with the server unchanged, or find the key's
lock, apply `acquire` to it, and store the result. -/
theorem acquireKey_eq_ok {acquire : RWMutex → Option RWMutex} {key : Bytes} {m m' : Machine}
    {r : Except Bytes Bool} (h : acquireKey acquire key m = .ok r m') :
    (∃ e, r = .error e ∧ m'.server = m.server) ∨
      ∃ l l', m.server.keyLocks.get key = some l ∧ acquire l = some l' ∧ r = .ok true ∧
        m'.server = { m.server with keyLocks := m.server.keyLocks.set key l' } := by
  obtain ⟨b, m₁, h₁, h⟩ := Op.bind_eq_ok.1 h
  have hs₁ : m₁.server = m.server := Op.ctxDone_server h₁
  dsimp only at h
  split at h
  · obtain ⟨_, _, h₂, h⟩ := Op.bind_eq_ok.1 h
    cases h₂
    cases h
    exact .inl ⟨_, rfl, hs₁⟩
  obtain ⟨_, _, h₂, h⟩ := Op.bind_eq_ok.1 h
  cases h₂
  obtain ⟨_, _, h₃, h⟩ := Op.bind_eq_ok.1 h
  cases h₃
  rw [hs₁] at h
  rcases hl : m.server.keyLocks.get key with _ | l
  · simp only [hl] at h
    cases h
    exact .inl ⟨_, rfl, hs₁⟩
  simp only [hl] at h
  rcases hl' : acquire l with _ | l'
  · simp only [hl'] at h
    cases h
  simp only [hl'] at h
  obtain ⟨_, _, h₄, h⟩ := Op.bind_eq_ok.1 h
  cases h₄
  cases h
  exact .inr ⟨l, l', rfl, hl', rfl, by rw [hs₁]⟩

/-- **What `KeyUnlock` and `KeyRUnlock` do**: nothing for a key without a lock; otherwise apply
`release` to its lock, which must succeed, and store the result. -/
theorem releaseKey_eq_ok {release : RWMutex → Option RWMutex} {fatal key : Bytes} {m m' : Machine}
    (h : releaseKey release fatal key m = .ok () m') :
    (m.server.keyLocks.get key = none ∧ m' = m) ∨
      ∃ l l', m.server.keyLocks.get key = some l ∧ release l = some l' ∧
        m'.server = { m.server with keyLocks := m.server.keyLocks.set key l' } := by
  obtain ⟨_, _, h₁, h⟩ := Op.bind_eq_ok.1 h
  cases h₁
  rcases hl : m.server.keyLocks.get key with _ | l
  · simp only [hl] at h
    cases h
    exact .inl ⟨rfl, rfl⟩
  simp only [hl] at h
  rcases hl' : release l with _ | l'
  · simp only [hl'] at h
    cases h
  simp only [hl'] at h
  cases h
  exact .inr ⟨l, l', rfl, hl', rfl⟩

/-! #### Every frame is kept -/

section Frames

variable {R : Server → Server → Prop} [Server.Frame R]

open Op.Keeps

theorem keyExists_keeps (key : Bytes) : (keyExists key).Keeps R :=
  bind getServer fun _ => pure _

theorem isMaxMemoryExceeded_keeps (maxMemory : ℕ) : (isMaxMemoryExceeded maxMemory).Keeps R := by
  unfold isMaxMemoryExceeded
  dsimp only
  split
  · exact pure _
  · refine bind (pure _) fun _ => bind readMemStats fun b => ?_
    split
    · exact pure _
    · exact bind (pure _) fun _ => readMemStats

theorem lockCache_keeps (lfu : Bool) : (lockCache lfu).Keeps R := by
  refine bind getServer fun s => ?_
  dsimp only
  have hlock : (Op.modifyServer (setEvictionCache lfu { evictionCache lfu s with mutex := true }) >>=
      fun _ => Op.emit (.cacheLock lfu)).Keeps R :=
    bind (outside (by simp) (by simp) (by simp) (by simp)) fun _ => emit _
  split
  · exact bind (stop _) fun _ => hlock
  · exact bind (pure _) fun _ => hlock

theorem unlockCache_keeps (lfu : Bool) : (unlockCache lfu).Keeps R :=
  outside (by simp) (by simp) (by simp) (by simp)

theorem modifyCache_keeps (lfu : Bool) (f : Cache → Cache) : (modifyCache lfu f).Keeps R :=
  outside (by simp) (by simp) (by simp) (by simp)

/-- **One eviction keeps every frame**: the loops lock a key, and delete it once they hold its
lock. -/
theorem keyLock_bind_evict {key : Bytes} {g : Except Bytes Bool → Op β}
    (herr : ∀ e, (g (.error e)).Keeps R)
    (hok : ∀ b, ∃ rest : Op β, g (.ok b) = (deleteKey key >>= fun _ => rest) ∧ rest.Keeps R) :
    (keyLock key >>= g).Keeps R := fun m a m' h => by
  obtain ⟨r, m₁, h₁, h⟩ := Op.bind_eq_ok.1 h
  rcases acquireKey_eq_ok h₁ with ⟨e, rfl, hs⟩ | ⟨l, l', hl, hl', rfl, hs⟩
  · rw [← hs]
    exact herr e _ _ _ h
  · obtain ⟨rest, hg, hrest⟩ := hok true
    rw [hg] at h
    obtain ⟨_, _, h₂, h⟩ := Op.bind_eq_ok.1 h
    cases h₂
    obtain ⟨s₁, env, tr⟩ := m₁
    subst hs
    exact Server.Frame.trans (Server.Frame.evict hl hl') (hrest _ _ _ h)

theorem evictFromCache_keeps (lfu : Bool) (order : List Bytes) : (evictFromCache lfu order).Keeps R := by
  induction order with
  | nil => exact pure _
  | cons key order ih =>
      refine bind (modifyCache_keeps _ _) fun _ => keyLock_bind_evict (fun _ => pure _) fun _ =>
        ⟨_, rfl, bind (emit _) fun _ => bind readMemStats fun b => ?_⟩
      dsimp only
      split
      · exact pure _
      · exact bind (pure _) fun _ => ih

theorem evictRandom_keeps (volatile : Bool) (fuel : ℕ) : (evictRandom volatile fuel).Keeps R := by
  induction fuel with
  | zero => exact pure _
  | succ fuel ih =>
      refine bind getServer fun s => ?_
      split
      · exact pure _
      · refine bind (randIntn _) fun idx => keyLock_bind_evict (fun _ => pure _) fun _ =>
          ⟨_, rfl, bind (emit _) fun _ => bind readMemStats fun b => ?_⟩
        dsimp only
        split
        · exact pure _
        · exact bind (pure _) fun _ => ih

/-- The eviction loops under the cache mutex. -/
theorem evictUnderMutex_keeps (lfu : Bool) (order : Server → List Bytes) :
    (lockCache lfu >>= fun _ => Op.getServer >>= fun s => evictFromCache lfu (order s) >>= fun r =>
      unlockCache lfu >>= fun _ => Pure.pure r).Keeps R :=
  bind (lockCache_keeps lfu) fun _ => bind getServer fun _ =>
    bind (evictFromCache_keeps _ _) fun _ => bind (unlockCache_keeps _) fun _ => pure _

/-- **Eviction keeps every frame.** -/
theorem adjustMemoryUsage_keeps : adjustMemoryUsage.Keeps R := by
  refine bind getServer fun s => ?_
  dsimp only
  refine ite (pure _) <| bind (pure _) fun _ => bind readMemStats fun _ => ?_
  refine ite (pure _) <| bind (pure _) fun _ => bind readMemStats fun _ => ?_
  refine ite (pure _) <| bind (pure _) fun _ => ?_
  exact ite (evictUnderMutex_keeps true _) <| ite (evictUnderMutex_keeps false _) <|
    ite (bind getServer fun _ => evictRandom_keeps _ _) <|
    ite (bind getServer fun _ => evictRandom_keeps _ _) (pure _)

theorem updateKeyInCache_keeps (key : Bytes) : (updateKeyInCache key).Keeps R := by
  refine bind getServer fun s => ?_
  dsimp only
  split
  · exact pure _
  refine bind (pure _) fun _ => ?_
  split
  · exact bind adjustMemoryUsage_keeps fun _ => pure _
  · have hrest : ∀ lfu, (adjustMemoryUsage >>= fun r => unlockCache lfu >>= fun _ =>
        Pure.pure (r.mapError (ascii "updateKeyInCache: " ++ ·))).Keeps R := fun lfu =>
      bind adjustMemoryUsage_keeps fun _ => bind (unlockCache_keeps _) fun _ => pure _
    refine bind (lockCache_keeps _) fun _ => bind getServer fun _ => ?_
    split
    · exact bind (modifyCache_keeps _ _) fun _ => hrest _
    · exact bind (pure _) fun _ => hrest _

theorem getValue_keeps (key : Bytes) : (getValue key).Keeps R :=
  bind (updateKeyInCache_keeps key) fun _ => bind getServer fun _ => pure _

theorem lockCreation_keeps : lockCreation.Keeps R := by
  refine bind getServer fun s => ?_
  dsimp only
  have hlock : (Op.modifyServer (fun s => { s with keyCreationLock := true }) >>=
      fun _ => Op.emit .creationLock).Keeps R :=
    bind (outside (fun _ => rfl) (fun _ => rfl) (fun _ => rfl) fun _ => rfl) fun _ => emit _
  split
  · exact bind (stop _) fun _ => hlock
  · exact bind (pure _) fun _ => hlock

theorem unlockCreation_keeps : unlockCreation.Keeps R :=
  outside (fun _ => rfl) (fun _ => rfl) (fun _ => rfl) fun _ => rfl

end Frames

/-! #### Lock frames are kept by the lock functions -/

section LockFrames

variable {R : Server → Server → Prop} [Server.LockFrame R]

open Op.Keeps

theorem acquireKey_keeps (acquire : RWMutex → Option RWMutex) (key : Bytes) :
    (acquireKey acquire key).Keeps R := fun m _ _ h => by
  rcases acquireKey_eq_ok h with ⟨_, _, hs⟩ | ⟨_, l', _, _, _, hs⟩
  · exact hs ▸ Server.Frame.refl _
  · exact hs ▸ Server.LockFrame.setLock _ key l'

theorem releaseKey_keeps (release : RWMutex → Option RWMutex) (fatal key : Bytes) :
    (releaseKey release fatal key).Keeps R := fun m _ _ h => by
  rcases releaseKey_eq_ok h with ⟨_, rfl⟩ | ⟨_, l', _, _, hs⟩
  · exact Server.Frame.refl _
  · exact hs ▸ Server.LockFrame.setLock _ key l'

theorem createKeyAndLock_keeps (key : Bytes) : (createKeyAndLock key).Keeps R := by
  refine bind getServer fun s => bind (isMaxMemoryExceeded_keeps _) fun b => ?_
  dsimp only
  split
  · exact pure _
  have hunlock : ∀ r, (unlockCreation >>= fun _ => Pure.pure r : Op (Except Bytes Bool)).Keeps R :=
    fun _ => bind unlockCreation_keeps fun _ => pure _
  refine bind (pure _) fun _ => bind lockCreation_keeps fun _ => bind (keyExists_keeps key) fun e => ?_
  split
  · exact bind (acquireKey_keeps _ key) hunlock
  · exact bind (modifyServer fun s => Server.LockFrame.setLock s key .locked) fun _ =>
      bind (pure _) hunlock

end LockFrames

end Keyspace

/-! ### Bindings that may only go -/

/-- `s.NoNewBindings s'`: every binding of the store and of the expiry map of `s'` is one of
`s`.  A key may lose its value or its expiry; none gains or changes one. -/
structure Server.NoNewBindings (s s' : Server) : Prop where
  store : ∀ k v, s'.store.get k = some v → s.store.get k = some v
  keyExpiry : ∀ k t, s'.keyExpiry.get k = some t → s.keyExpiry.get k = some t

namespace Server.NoNewBindings

variable {s s₁ s₂ s₃ : Server}

theorem refl (s : Server) : s.NoNewBindings s := ⟨fun _ _ => id, fun _ _ => id⟩

theorem trans (h₁ : s₁.NoNewBindings s₂) (h₂ : s₂.NoNewBindings s₃) : s₁.NoNewBindings s₃ :=
  ⟨fun k v h => h₁.store k v (h₂.store k v h), fun k t h => h₁.keyExpiry k t (h₂.keyExpiry k t h)⟩

/-- A change that leaves both maps alone. -/
theorem of_eq {s' : Server} (hs : s'.store = s.store) (he : s'.keyExpiry = s.keyExpiry) :
    s.NoNewBindings s' :=
  ⟨fun _ _ h => hs ▸ h, fun _ _ h => he ▸ h⟩

theorem of_get_delete {β : Type} {m : GoMap β} {key k : Bytes} {b : β}
    (h : (m.delete key).get k = some b) : m.get k = some b := by
  rw [GoMap.get_delete] at h
  split at h
  · cases h
  · exact h

/-- Deleting a key removes its bindings and adds none; a change of the lock map binds
nothing. -/
instance : Server.LockFrame Server.NoNewBindings where
  refl := refl
  trans := trans
  outside hs he _ _ := of_eq hs he
  evict _ _ := ⟨fun _ _ => of_get_delete, fun _ _ => of_get_delete⟩
  setLock _ _ _ := of_eq rfl rfl

end Server.NoNewBindings

namespace Keyspace

open Op.Keeps

theorem acquireKey_noNewBindings (acquire : RWMutex → Option RWMutex) (key : Bytes) :
    (acquireKey acquire key).Keeps Server.NoNewBindings :=
  acquireKey_keeps acquire key

theorem releaseKey_noNewBindings (release : RWMutex → Option RWMutex) (fatal key : Bytes) :
    (releaseKey release fatal key).Keeps Server.NoNewBindings :=
  releaseKey_keeps release fatal key

theorem createKeyAndLock_noNewBindings (key : Bytes) :
    (createKeyAndLock key).Keeps Server.NoNewBindings :=
  createKeyAndLock_keeps key

/-- **A `SetValue` that fails binds nothing**: it fails only at its memory check, before it
touches the store. -/
theorem setValue_noNewBindings_of_error {key : Bytes} {value : Value} {m m' : Machine} {e : Bytes}
    (h : setValue key value m = .ok (.error e) m') : m.server.NoNewBindings m'.server := by
  obtain ⟨s, m₁, h₁, h⟩ := Op.bind_eq_ok.1 h
  obtain ⟨b, m₂, h₂, h⟩ := Op.bind_eq_ok.1 h
  have hm₂ : m.server.NoNewBindings m₂.server :=
    Server.Frame.trans (getServer _ _ _ h₁) (isMaxMemoryExceeded_keeps _ _ _ _ h₂)
  dsimp only at h
  split at h
  · cases h
    exact hm₂
  · exfalso
    obtain ⟨_, _, -, h⟩ := Op.bind_eq_ok.1 h
    obtain ⟨_, _, -, h⟩ := Op.bind_eq_ok.1 h
    obtain ⟨_, _, -, h⟩ := Op.bind_eq_ok.1 h
    split at h <;> obtain ⟨_, _, -, h⟩ := Op.bind_eq_ok.1 h <;> cases h

/-- **What a `SetValue` binds**: every binding after it was there before, or is its value at its
key, put there by a `SetValue` that stored.  Evictions after the store may remove bindings,
that one included. -/
theorem setValue_bound {key : Bytes} {value : Value} {m m' : Machine} {r : Except Bytes Unit}
    (h : setValue key value m = .ok r m') {k : Bytes} {v : Value}
    (hk : m'.server.store.get k = some v) :
    m.server.store.get k = some v ∨ (r = .ok () ∧ k = key ∧ v = value) := by
  rcases r with e | ⟨⟩
  · exact .inl ((setValue_noNewBindings_of_error h).store k v hk)
  obtain ⟨s, m₁, h₁, h⟩ := Op.bind_eq_ok.1 h
  obtain ⟨b, m₂, h₂, h⟩ := Op.bind_eq_ok.1 h
  have hm₂ : m.server.NoNewBindings m₂.server :=
    Server.Frame.trans (getServer _ _ _ h₁) (isMaxMemoryExceeded_keeps _ _ _ _ h₂)
  dsimp only at h
  split at h
  · cases h
  obtain ⟨_, _, h₃, h⟩ := Op.bind_eq_ok.1 h
  cases h₃
  obtain ⟨_, _, h₃, h⟩ := Op.bind_eq_ok.1 h
  cases h₃
  obtain ⟨_, m₄, h₄, h⟩ := Op.bind_eq_ok.1 h
  have hm' : m₄.server.NoNewBindings m'.server := by
    split at h
    · obtain ⟨_, _, h₅, h⟩ := Op.bind_eq_ok.1 h
      cases h₅
      cases h
      exact .of_eq rfl rfl
    · cases h
      exact .refl _
  have hset := (updateKeyInCache_keeps (R := Server.NoNewBindings) key _ _ _ h₄).store k v
    (hm'.store k v hk)
  rw [GoMap.get_set] at hset
  split at hset
  · exact .inr ⟨rfl, ‹key = k›.symm, (Option.some.inj hset).symm⟩
  · exact .inl (hm₂.store k v hset)

end Keyspace

/-! ### Capability calls -/

/-- Whether a call can store a value: `SetValue`. -/
def Call.stores : Call → Bool
  | .setValue _ _ => true
  | _ => false

/-- **A capability call other than a `SetValue` that stores adds no binding.** -/
theorem Prog.stepCall_noNewBindings {c : Call} {m m' : Machine} {r : c.Result}
    (h : Prog.stepCall c m = .ok r m') (hc : (c.stores && c.ok r) = false) :
    m.server.NoNewBindings m'.server := by
  obtain ⟨r', m₁, h₁, h⟩ := Op.bind_eq_ok.1 h
  obtain ⟨_, _, h₂, h⟩ := Op.bind_eq_ok.1 h
  cases h₂
  cases h
  change m.server.NoNewBindings m₁.server
  open Op.Keeps Keyspace in
  cases c with
  | keyExists key => exact keyExists_keeps key _ _ _ h₁
  | createKeyAndLock key => exact createKeyAndLock_noNewBindings key _ _ _ h₁
  | keyLock key => exact acquireKey_noNewBindings _ key _ _ _ h₁
  | keyUnlock key => exact releaseKey_noNewBindings _ _ key _ _ _ h₁
  | keyRLock key => exact acquireKey_noNewBindings _ key _ _ _ h₁
  | keyRUnlock key => exact releaseKey_noNewBindings _ _ key _ _ _ h₁
  | getValue key => exact getValue_keeps key _ _ _ h₁
  | setValue key value =>
      rcases r with e | _
      · exact setValue_noNewBindings_of_error h₁
      · simp [Call.stores, Call.ok, Except.toBool] at hc
  | alloc o => cases h₁; exact .of_eq rfl rfl
  | load r => cases h₁; exact .refl _
  | write r o => cases h₁; exact .of_eq rfl rfl
  | intn n => exact randIntn n _ _ _ h₁
  | panic msg => cases h₁

/-! ### The heap -/

/-- `s.SameHeap s'`: `s'` has the heap of `s`. -/
def Server.SameHeap (s s' : Server) : Prop := s'.heap = s.heap

/-- The keyspace functions leave the heap alone: only the handlers' `alloc` and `write` change
it. -/
instance : Server.LockFrame Server.SameHeap where
  refl _ := rfl
  trans h₁ h₂ := h₂.trans h₁
  outside _ _ _ hh := hh
  evict _ _ := rfl
  setLock _ _ _ := rfl

theorem Keyspace.setValue_sameHeap (key : Bytes) (value : Value) :
    (Keyspace.setValue key value).Keeps Server.SameHeap := by
  open Op.Keeps Keyspace in
  refine bind getServer fun s => bind (isMaxMemoryExceeded_keeps _) fun b => ?_
  dsimp only
  split
  · exact pure _
  refine bind (pure _) fun _ => bind (modifyServer fun _ => rfl) fun _ =>
    bind (updateKeyInCache_keeps _) fun _ => ?_
  split
  · exact bind (modifyServer fun _ => rfl) fun _ => pure _
  · exact bind (pure _) fun _ => pure _

/-- Whether a call changes the heap: `alloc` and `write`. -/
def Call.touchesHeap : Call → Bool
  | .alloc _ | .write _ _ => true
  | _ => false

/-- **Only `alloc` and `write` change the heap.** -/
theorem Prog.stepCall_sameHeap {c : Call} {m m' : Machine} {r : c.Result}
    (h : Prog.stepCall c m = .ok r m') (hc : c.touchesHeap = false) : m'.server.heap = m.server.heap := by
  obtain ⟨r', m₁, h₁, h⟩ := Op.bind_eq_ok.1 h
  obtain ⟨_, _, h₂, h⟩ := Op.bind_eq_ok.1 h
  cases h₂
  cases h
  change m.server.SameHeap m₁.server
  open Op.Keeps Keyspace in
  cases c with
  | keyExists key => exact keyExists_keeps key _ _ _ h₁
  | createKeyAndLock key => exact createKeyAndLock_keeps key _ _ _ h₁
  | keyLock key => exact acquireKey_keeps _ key _ _ _ h₁
  | keyUnlock key => exact releaseKey_keeps _ _ key _ _ _ h₁
  | keyRLock key => exact acquireKey_keeps _ key _ _ _ h₁
  | keyRUnlock key => exact releaseKey_keeps _ _ key _ _ _ h₁
  | getValue key => exact getValue_keeps key _ _ _ h₁
  | setValue key value => exact setValue_sameHeap key value _ _ _ h₁
  | alloc o => cases hc
  | load r => cases h₁; rfl
  | write r o => cases hc
  | intn n => exact randIntn n _ _ _ h₁
  | panic msg => cases h₁

end EchoVault
