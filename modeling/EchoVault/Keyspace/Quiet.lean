/-
**The keyspace on a quiet machine, and programs that return.**

Every capability call can wait or fail for a reason outside the handler: a cancelled context,
a heap over the memory limit, a cache mutex held by another goroutine.  On a *quiet* machine
none of these happens, and the keyspace functions a handler reaches do what their names say:
`GetValue` returns the stored value and `SetValue` stores, both touching besides only the
eviction caches, which they leave free; a lock call takes a lock that is free.  These facts are
packed as one contract per capability call for `Prog.Returns`, "the program returns from this
machine with this postcondition", chained by `Prog.Returns.bind`; the runs of whole handlers in
`Handler.Runs` are proved from them.

Main definitions:

* `EchoVault.Machine.Quiet` — a live context, a heap below the limit, free cache mutexes;
* `EchoVault.Server.Recached` — the same server up to its eviction caches;
* `EchoVault.Server.stored` — the server after a `SetValue` that stores;
* `EchoVault.Prog.Returns` — a program returns with a postcondition.

Main results:

* `EchoVault.Keyspace.getValue_quiet`, `EchoVault.Keyspace.setValue_quiet` — **on a quiet
  machine `GetValue` reads the store and `SetValue` stores**, up to the caches;
* `EchoVault.Prog.Returns.call` and one contract per capability call: `keyLock`, `keyRLock`,
  `keyUnlock`, `keyRUnlock`, `getValue`, `setValue`, `intn`, `load`, `write`, `alloc`.
-/

import EchoVault.Keyspace.Prog

set_option relaxedAutoImplicit false
set_option autoImplicit false

namespace EchoVault

/-! ### Quiet machines -/

/-- A machine on which no capability call waits or fails for a reason outside the handler: the
context stays live, every heap reading is below the memory limit, and both cache mutexes are
free. -/
structure Machine.Quiet (m : Machine) : Prop where
  ctxDone : m.env.ctxDone = []
  overMemory : m.env.overMemory = []
  lfuFree : m.server.lfuCache.mutex = false
  lruFree : m.server.lruCache.mutex = false

/-- A machine stays quiet when only its lock map and its trace change. -/
theorem Machine.Quiet.withLocks {m : Machine} (hq : m.Quiet) (ls : GoMap RWMutex) (tr : List Event) :
    Machine.Quiet ⟨{ m.server with keyLocks := ls }, m.env, tr⟩ :=
  ⟨hq.ctxDone, hq.overMemory, hq.lfuFree, hq.lruFree⟩

/-- `s'` is `s` with other eviction caches, both mutexes free: what `GetValue` and `SetValue`
leave besides the store. -/
def Server.Recached (s s' : Server) : Prop :=
  ∃ lfu lru : EvictionCache, s' = { s with lfuCache := lfu, lruCache := lru } ∧
    lfu.mutex = false ∧ lru.mutex = false

namespace Server.Recached

variable {s s' : Server}

theorem store (h : s.Recached s') : s'.store = s.store := by
  obtain ⟨_, _, rfl, _⟩ := h; rfl

theorem keyLocks (h : s.Recached s') : s'.keyLocks = s.keyLocks := by
  obtain ⟨_, _, rfl, _⟩ := h; rfl

theorem heap (h : s.Recached s') : s'.heap = s.heap := by
  obtain ⟨_, _, rfl, _⟩ := h; rfl

theorem config (h : s.Recached s') : s'.config = s.config := by
  obtain ⟨_, _, rfl, _⟩ := h; rfl

theorem changeCount (h : s.Recached s') : s'.changeCount = s.changeCount := by
  obtain ⟨_, _, rfl, _⟩ := h; rfl

theorem quiet {m m' : Machine} (hq : m.Quiet) (he : m'.env = m.env) (h : m.server.Recached m'.server) :
    m'.Quiet := by
  obtain ⟨_, _, hs, hl, hr⟩ := h
  exact ⟨he ▸ hq.ctxDone, he ▸ hq.overMemory, by rw [hs]; exact hl, by rw [hs]; exact hr⟩

end Server.Recached

/-- The server after a `SetValue` that stores, as far as the keyspace goes: the value is bound,
and out of a cluster the change is counted. -/
def Server.stored (s : Server) (key : Bytes) (value : Value) : Server :=
  { s with store := s.store.set key value,
           changeCount := if s.config.inCluster then s.changeCount else s.changeCount + 1 }

/-! ### The keyspace functions on a quiet machine -/

namespace Keyspace

open Op

variable {m : Machine}

theorem isMaxMemoryExceeded_below {s : Server} {env : Env} {tr : List Event}
    (h : env.overMemory = []) (maxMemory : ℕ) :
    isMaxMemoryExceeded maxMemory ⟨s, env, tr⟩ = .ok false ⟨s, env, tr⟩ := by
  by_cases h0 : maxMemory = 0 <;> simp [isMaxMemoryExceeded, h0, readMemStats, h]

theorem adjustMemoryUsage_below {s : Server} {env : Env} {tr : List Event}
    (h : env.overMemory = []) : adjustMemoryUsage ⟨s, env, tr⟩ = .ok (.ok ()) ⟨s, env, tr⟩ := by
  by_cases h0 : s.config.maxMemory = 0 <;> simp [adjustMemoryUsage, getServer, h0, readMemStats, h]

theorem updateKeyInCache_quiet (hq : m.Quiet) (key : Bytes) :
    ∃ s' tr, updateKeyInCache key m = .ok (.ok ()) ⟨s', m.env, tr⟩ ∧ m.server.Recached s' := by
  obtain ⟨s, env, tr⟩ := m
  obtain ⟨hctx, hmem, hlfu, hlru⟩ := hq
  simp only at hctx hmem hlfu hlru ⊢
  have hrefl : s.Recached s := ⟨s.lfuCache, s.lruCache, rfl, hlfu, hlru⟩
  by_cases h0 : s.config.maxMemory = 0
  · exact ⟨s, tr, by simp [updateKeyInCache, getServer, h0], hrefl⟩
  rcases hc : cacheCase s.config.evictionPolicy with _ | ⟨lfu, vol⟩
  · exact ⟨s, tr, by simp [updateKeyInCache, getServer, h0, hc, adjustMemoryUsage_below hmem]; rfl, hrefl⟩
  · cases lfu <;> by_cases hv : vol = false ∨ (s.keyExpiry.get key).isSome = true <;>
      simp [updateKeyInCache, getServer, h0, hc, lockCache_of_free, evictionCache, hlfu, hlru, hv,
        modifyCache, modifyServer, unlockCache, adjustMemoryUsage_below hmem, setEvictionCache]
    all_goals exact ⟨_, ⟨rfl, rfl⟩, _, _, rfl, by simp [hlfu], by simp [hlru]⟩

theorem getValue_quiet (hq : m.Quiet) (key : Bytes) :
    ∃ s' tr, getValue key m = .ok (m.server.store.get key) ⟨s', m.env, tr⟩ ∧ m.server.Recached s' := by
  obtain ⟨s', tr, h, hr⟩ := updateKeyInCache_quiet hq key
  exact ⟨s', tr, by simp [getValue, h, getServer, hr.store], hr⟩

theorem setValue_quiet (hq : m.Quiet) (key : Bytes) (value : Value) :
    ∃ s' tr, setValue key value m = .ok (.ok ()) ⟨s', m.env, tr⟩ ∧
      (m.server.stored key value).Recached s' := by
  obtain ⟨s, env, tr⟩ := m
  have hq₁ : Machine.Quiet ⟨{ s with store := s.store.set key value }, env, tr⟩ :=
    ⟨hq.ctxDone, hq.overMemory, hq.lfuFree, hq.lruFree⟩
  obtain ⟨s', tr', h, lfu, lru, rfl, hl, hr⟩ := updateKeyInCache_quiet hq₁ key
  refine ⟨{ s.stored key value with lfuCache := lfu, lruCache := lru }, tr', ?_, lfu, lru, rfl, hl, hr⟩
  cases hc : s.config.inCluster <;>
    simp [setValue, getServer, isMaxMemoryExceeded_below hq.overMemory, modifyServer, h, hc, Server.stored]

/-- With a live context, a lock call on a key whose lock `acquire` takes takes it. -/
theorem acquireKey_live {acquire : RWMutex → Option RWMutex} {key : Bytes} {l l' : RWMutex}
    (hctx : m.env.ctxDone = []) (hl : m.server.keyLocks.get key = some l) (ha : acquire l = some l') :
    acquireKey acquire key m =
      .ok (.ok true) { m with server := { m.server with keyLocks := m.server.keyLocks.set key l' } } := by
  simp [acquireKey, ctxDone, hctx, getServer, hl, ha, modifyServer]

/-- An unlock call on a key whose lock `release` releases. -/
theorem releaseKey_some {release : RWMutex → Option RWMutex} {fatal key : Bytes} {l l' : RWMutex}
    (hl : m.server.keyLocks.get key = some l) (hr : release l = some l') :
    releaseKey release fatal key m =
      .ok () { m with server := { m.server with keyLocks := m.server.keyLocks.set key l' } } := by
  simp [releaseKey, getServer, hl, hr, modifyServer]

end Keyspace

/-! ### Programs that return -/

namespace Prog

variable {α β : Type}

/-- `p` run from `m` returns, with a result and a final machine that satisfy `post`. -/
def Returns (p : Prog α) (m : Machine) (post : α → Machine → Prop) : Prop :=
  ∃ a m', p.run m = .ok a m' ∧ post a m'

namespace Returns

variable {m : Machine} {post : α → Machine → Prop}

theorem pure {a : α} (h : post a m) : (Prog.pure a).Returns m post := ⟨a, m, rfl, h⟩

theorem bind {p : Prog β} {f : β → Prog α} (h : p.Returns m fun b m' => (f b).Returns m' post) :
    (p >>= f).Returns m post := by
  obtain ⟨b, m₁, h₁, a, m₂, h₂, hpost⟩ := h
  exact ⟨a, m₂, by rw [run_bind, Op.run_bind, h₁]; exact h₂, hpost⟩

/-- A call that returns `r`: the rest runs on its machine, with whatever trace. -/
theorem call {c : Call} {k : c.Result → Prog α} {r : c.Result} {m' : Machine}
    (hc : c.exec m = .ok r m') (h : ∀ tr, (k r).Returns ⟨m'.server, m'.env, tr⟩ post) :
    (Prog.call c k).Returns m post := by
  obtain ⟨a, m₂, h₂, hpost⟩ := h (m'.trace ++ [.call c (c.ok r)])
  refine ⟨a, m₂, ?_, hpost⟩
  simp only [run, stepCall, Op.run_bind, hc]
  exact h₂

theorem keyExists {key : Bytes} {k : Bool → Prog α}
    (h : ∀ tr, (k (m.server.keyLocks.get key).isSome).Returns ⟨m.server, m.env, tr⟩ post) :
    (Prog.call (.keyExists key) k).Returns m post :=
  call rfl h

theorem load {r : ℕ} {k : Obj → Prog α}
    (h : ∀ tr, (k (m.server.heap.getD r .other)).Returns ⟨m.server, m.env, tr⟩ post) :
    (Prog.call (.load r) k).Returns m post :=
  call rfl h

theorem write {r : ℕ} {o : Obj} {k : Unit → Prog α}
    (h : ∀ tr, (k ()).Returns ⟨{ m.server with heap := m.server.heap.set r o }, m.env, tr⟩ post) :
    (Prog.call (.write r o) k).Returns m post :=
  call rfl h

theorem alloc {o : Obj} {k : ℕ → Prog α}
    (h : ∀ tr, (k m.server.heap.length).Returns
      ⟨{ m.server with heap := m.server.heap ++ [o] }, m.env, tr⟩ post) :
    (Prog.call (.alloc o) k).Returns m post :=
  call rfl h

/-- `rand.Intn(n)` with `n > 0` returns some draw below `n`, and leaves the server and the
rest of the environment alone. -/
theorem intn {n : ℕ} {k : ℕ → Prog α} (hn : 0 < n)
    (h : ∀ i env tr, i < n → env.ctxDone = m.env.ctxDone → env.overMemory = m.env.overMemory →
      (k i).Returns ⟨m.server, env, tr⟩ post) :
    (Prog.call (.intn n) k).Returns m post := by
  rcases hr : m.env.rand with _ | ⟨d, ds⟩
  · exact call (by simp [Call.exec, Op.randIntn, hn.ne', hr]) fun tr => h 0 _ tr hn rfl rfl
  · have hc : (Call.intn n).exec m = .ok (d % n) { m with env := { m.env with rand := ds } } := by
      simp [Call.exec, Op.randIntn, hn.ne', hr]
    exact call hc fun tr => h (d % n) _ tr (Nat.mod_lt _ hn) rfl rfl

section Locks

variable {key : Bytes} {l l' : RWMutex} {k : Except Bytes Bool → Prog α}

/-- `KeyLock` with a live context on a key whose lock is free. -/
theorem keyLock (hctx : m.env.ctxDone = []) (hl : m.server.keyLocks.get key = some l)
    (ha : l.tryLock = some l')
    (h : ∀ tr, (k (.ok true)).Returns
      ⟨{ m.server with keyLocks := m.server.keyLocks.set key l' }, m.env, tr⟩ post) :
    (Prog.call (.keyLock key) k).Returns m post :=
  call (Keyspace.acquireKey_live hctx hl ha) h

/-- `KeyRLock` with a live context on a key without a writer. -/
theorem keyRLock (hctx : m.env.ctxDone = []) (hl : m.server.keyLocks.get key = some l)
    (ha : l.tryRLock = some l')
    (h : ∀ tr, (k (.ok true)).Returns
      ⟨{ m.server with keyLocks := m.server.keyLocks.set key l' }, m.env, tr⟩ post) :
    (Prog.call (.keyRLock key) k).Returns m post :=
  call (Keyspace.acquireKey_live hctx hl ha) h

variable {k : Unit → Prog α}

/-- `KeyUnlock` on a key locked for writing. -/
theorem keyUnlock (hl : m.server.keyLocks.get key = some l) (hr : l.unlock = some l')
    (h : ∀ tr, (k ()).Returns
      ⟨{ m.server with keyLocks := m.server.keyLocks.set key l' }, m.env, tr⟩ post) :
    (Prog.call (.keyUnlock key) k).Returns m post :=
  call (Keyspace.releaseKey_some hl hr) h

/-- `KeyRUnlock` on a key with a reader. -/
theorem keyRUnlock (hl : m.server.keyLocks.get key = some l) (hr : l.rUnlock = some l')
    (h : ∀ tr, (k ()).Returns
      ⟨{ m.server with keyLocks := m.server.keyLocks.set key l' }, m.env, tr⟩ post) :
    (Prog.call (.keyRUnlock key) k).Returns m post :=
  call (Keyspace.releaseKey_some hl hr) h

end Locks

/-- `GetValue` on a quiet machine returns the stored value; only the caches change. -/
theorem getValue {key : Bytes} {k : Option Value → Prog α} (hq : m.Quiet)
    (h : ∀ s tr, m.server.Recached s → (k (m.server.store.get key)).Returns ⟨s, m.env, tr⟩ post) :
    (Prog.call (.getValue key) k).Returns m post := by
  obtain ⟨s, tr, hc, hr⟩ := Keyspace.getValue_quiet hq key
  exact call hc fun tr' => h s tr' hr

/-- `SetValue` on a quiet machine stores; only the caches change besides. -/
theorem setValue {key : Bytes} {value : Value} {k : Except Bytes Unit → Prog α} (hq : m.Quiet)
    (h : ∀ s tr, (m.server.stored key value).Recached s → (k (.ok ())).Returns ⟨s, m.env, tr⟩ post) :
    (Prog.call (.setValue key value) k).Returns m post := by
  obtain ⟨s, tr, hc, hr⟩ := Keyspace.setValue_quiet hq key value
  exact call hc fun tr' => h s tr' hr

end Returns

end Prog

end EchoVault
