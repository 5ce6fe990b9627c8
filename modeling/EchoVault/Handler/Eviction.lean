/-
**Eviction under a memory limit.**

With `MaxMemory > 0`, `GetValue` and `SetValue` run `updateKeyInCache` on the key the handler
has locked.  Under `allkeys-lfu`, `allkeys-lru`, `volatile-lfu` and `volatile-lru` it locks the
LFU or LRU cache mutex, defers the unlock, and calls `adjustMemoryUsage`; when the heap reads at
or above the limit twice, `adjustMemoryUsage` locks the same mutex again to start evicting.  A
`sync.Mutex` is not reentrant, so the handler then waits forever, holding its key and the cache
mutex.  Under `allkeys-random` the eviction draws a key among all keys and locks it: when that is
the key the handler holds, the handler waits for itself.

`GetValue` records the access of any key it is asked for, also of a key that does not exist,
so a handler that reads absent keys puts keys in the cache that are not in the keyspace.

Main results:

* `EchoVault.adjustMemoryUsage_of_held` — past two readings at or above the limit, the eviction
  of an LFU or LRU policy locks its cache mutex;
* `EchoVault.updateKeyInCache_waits_on_own_mutex` — **`updateKeyInCache` waits forever on the
  cache mutex it holds** once the heap reads at or above the limit;
* `EchoVault.updateKeyInCache_waits_on_drawn_key` — under `allkeys-random`, the eviction waits
  on a drawn key held by its caller;
* `EchoVault.evictRandom_add_fuel` — the random loop ends within as many rounds as its domain
  has keys;
* `EchoVault.sadd_lfu_waits_on_cache_mutex` — `SADD` of a new key under `allkeys-lfu`;
* `EchoVault.sdiff_absent_key_enters_cache` — `SDIFF a b` with `b` absent puts `b` in the LFU
  cache.
-/

import EchoVault.Handler.Set
import EchoVault.Keyspace.Frame

set_option relaxedAutoImplicit false
set_option autoImplicit false

namespace EchoVault

open Keyspace Op

/-! ### The two switches on the policy -/

/-- The first case of the switch of `adjustMemoryUsage`: evict from the LFU cache under
`allkeys-lfu` and `volatile-lfu`. -/
def adjustsLFU (p : Bytes) : Bool := lowerEq p AllKeysLFU || lowerEq p VolatileLFU

/-- When the switch of `updateKeyInCache` picks the LRU cache, the policy is `allkeys-lru` or
`volatile-lru`. -/
theorem cacheCase_lru {p : Bytes} {volatile : Bool} (h : cacheCase p = some (false, volatile)) :
    (lowerEq p AllKeysLRU || lowerEq p VolatileLRU) = true := by
  unfold cacheCase at h
  split_ifs at h <;> simp_all

/-! ### The cache mutex taken twice -/

/-- **Past two readings at or above the limit, the eviction of an LFU or LRU policy locks its
cache mutex**, here already held. -/
theorem adjustMemoryUsage_of_held {m : Machine} (hmem : m.server.config.maxMemory ≠ 0)
    (hover : m.env.overMemory.take 2 = [true, true])
    (hlru : adjustsLFU m.server.config.evictionPolicy = false →
      (lowerEq m.server.config.evictionPolicy AllKeysLRU ||
        lowerEq m.server.config.evictionPolicy VolatileLRU) = true)
    (hheld : (evictionCache (adjustsLFU m.server.config.evictionPolicy) m.server).mutex = true) :
    adjustMemoryUsage m = .stop (.blocked (.cacheMutex (adjustsLFU m.server.config.evictionPolicy)))
      { m with env := { m.env with overMemory := m.env.overMemory.drop 2 } } := by
  obtain ⟨rest, hrest⟩ : ∃ rest, m.env.overMemory = true :: true :: rest := by
    rcases h : m.env.overMemory with _ | ⟨a, _ | ⟨b, rest⟩⟩ <;> simp_all
  unfold adjustsLFU at hlru hheld ⊢
  cases h : (lowerEq m.server.config.evictionPolicy AllKeysLFU ||
      lowerEq m.server.config.evictionPolicy VolatileLFU)
  · simp only [h, Bool.or_eq_true, forall_const] at hlru hheld
    simp only [Bool.or_eq_false_iff] at h
    simp [adjustMemoryUsage, getServer, readMemStats, hmem, hrest, h, hlru, lockCache_of_held, hheld]
  · simp only [h] at hheld
    simp only [Bool.or_eq_true] at h
    simp [adjustMemoryUsage, getServer, readMemStats, hmem, hrest, h, lockCache_of_held, hheld]

/-- **`updateKeyInCache` waits forever on the cache mutex it holds.**  With a memory limit,
under a policy whose two switches pick the same cache, with that cache's mutex free and the
next two heap readings at or above the limit, `updateKeyInCache` locks the mutex, and
`adjustMemoryUsage` then waits for it. -/
theorem updateKeyInCache_waits_on_own_mutex (key : Bytes) (m : Machine) {lfu volatile : Bool}
    (hmem : m.server.config.maxMemory ≠ 0)
    (hcase : cacheCase m.server.config.evictionPolicy = some (lfu, volatile))
    (hadjust : adjustsLFU m.server.config.evictionPolicy = lfu)
    (hfree : (evictionCache lfu m.server).mutex = false)
    (hover : m.env.overMemory.take 2 = [true, true]) :
    (updateKeyInCache key m).result = .error (.blocked (.cacheMutex lfu)) := by
  have hlru : lfu = false → _ := fun h => cacheCase_lru (h ▸ hcase)
  subst hadjust
  simp only [Bool.or_eq_true] at hlru
  simp only [updateKeyInCache, Op.run_bind, getServer, hmem, hcase, if_false, lockCache_of_free hfree]
  split <;> simp only [modifyCache, modifyServer, Op.run_bind, Op.run_pure] <;>
    rw [adjustMemoryUsage_of_held] <;> simp [hmem, hover] <;> exact hlru

/-! ### A drawn key held by its caller -/

/-- When the switch of `updateKeyInCache` picks no cache, the policy is none of the four cache
policies. -/
theorem cacheCase_eq_none {p : Bytes} (h : cacheCase p = none) :
    lowerEq p AllKeysLFU = false ∧ lowerEq p AllKeysLRU = false ∧ lowerEq p VolatileLFU = false ∧
      lowerEq p VolatileLRU = false := by
  unfold cacheCase at h
  split_ifs at h
  simp_all

/-- The key a round draws is a key of the domain. -/
theorem getD_mem_self {k₀ : Bytes} {ks : List Bytes} (i : ℕ) : (k₀ :: ks).getD i k₀ ∈ k₀ :: ks := by
  rw [List.getD_eq_getElem?_getD]
  cases h : (k₀ :: ks)[i]? with
  | none => exact List.mem_cons_self _ _
  | some x => exact List.getElem?_mem h

/-- **The random eviction waits on a drawn key that is held.**  When every key it can draw is
locked, the random eviction loop draws one of them and waits for its lock. -/
theorem evictRandom_waits_on_held (volatile : Bool) (fuel : ℕ) (m : Machine)
    (hctx : m.env.ctxDone = []) (hdom : randomDomain volatile m.server ≠ [])
    (hheld : ∀ k ∈ randomDomain volatile m.server,
      (m.server.keyLocks.get k).map RWMutex.tryLock = some none) :
    ∃ k ∈ randomDomain volatile m.server, ∃ m',
      evictRandom volatile (fuel + 1) m = .stop (.blocked (.key k)) m' := by
  obtain ⟨k₀, ks, hks⟩ : ∃ k₀ ks, randomDomain volatile m.server = k₀ :: ks := by
    cases h : randomDomain volatile m.server with
    | nil => exact absurd h hdom
    | cons k₀ ks => exact ⟨k₀, ks, rfl⟩
  simp only [evictRandom, Op.run_bind, getServer, hks]
  obtain ⟨i, m₁, hi, hmem, hs, hc⟩ : ∃ i m₁, randIntn (k₀ :: ks).length m = .ok i m₁ ∧
      (k₀ :: ks).getD i k₀ ∈ k₀ :: ks ∧ m₁.server = m.server ∧ m₁.env.ctxDone = m.env.ctxDone := by
    rcases hr : m.env.rand with _ | ⟨d, ds⟩
    · exact ⟨0, m, by simp [randIntn, hr], List.mem_cons_self _ _, rfl, rfl⟩
    · exact ⟨d % (k₀ :: ks).length, { m with env := { m.env with rand := ds } }, by simp [randIntn, hr],
        getD_mem_self _, rfl, rfl⟩
  have hk : keyLock ((k₀ :: ks).getD i k₀) m₁ = .stop (.blocked (.key ((k₀ :: ks).getD i k₀))) m₁ :=
    keyLock_of_held (hc.trans hctx) (hs ▸ hheld _ (hks ▸ hmem))
  exact ⟨_, hmem, m₁, by simp only [hi, hk]⟩

/-! ### The random loop runs out of keys before it runs out of rounds -/

/-- A round deletes the key it draws from the domain. -/
theorem randomDomain_evict_lt {volatile : Bool} {s : Server} {key : Bytes} (l : RWMutex)
    (hk : key ∈ randomDomain volatile s) :
    (randomDomain volatile (s.evict key l)).length < (randomDomain volatile s).length := by
  cases volatile <;>
    simpa [randomDomain, GoMap.keys, Server.evict] using GoMap.length_delete_lt (GoMap.mem_keys.1 hk)

/-- **The random eviction loop runs out of keys before it runs out of rounds.**  Each round
deletes the key it draws, so with at least as many rounds as the domain has keys, more rounds
change nothing.  The loop of `adjustMemoryUsage`, unbounded in the source and given the size of
its domain here, is the unbounded loop. -/
theorem evictRandom_add_fuel (volatile : Bool) (k : ℕ) :
    ∀ (fuel : ℕ) (m : Machine), (randomDomain volatile m.server).length ≤ fuel →
      evictRandom volatile (fuel + k) m = evictRandom volatile fuel m
  | 0, m, h => by
      have hnil : randomDomain volatile m.server = [] := List.eq_nil_of_length_eq_zero (Nat.le_zero.1 h)
      cases k with
      | zero => rfl
      | succ k => simp [evictRandom, getServer, hnil]
  | fuel + 1, m, h => by
      rw [Nat.add_right_comm]
      refine Op.bind_congr fun s m₁ h₁ => ?_
      cases h₁
      dsimp only
      rcases hd : randomDomain volatile m.server with _ | ⟨k₀, ks⟩
      · rfl
      refine Op.bind_congr fun idx m₂ h₂ => Op.bind_congr fun r m₃ h₃ => ?_
      rcases acquireKey_eq_ok h₃ with ⟨e, rfl, -⟩ | ⟨l, l', -, -, rfl, e₃⟩
      · rfl
      refine Op.bind_congr fun _ m₄ h₄ => ?_
      cases h₄
      refine Op.bind_congr fun _ m₅ h₅ => Op.bind_congr fun b m₆ h₆ => ?_
      have hs : m₆.server = m.server.evict ((k₀ :: ks).getD idx k₀) l' := by
        rw [Op.readMemStats_server h₆, Op.emit_server h₅]
        simp only [e₃, Op.randIntn_server h₂]
        rfl
      have hlt := randomDomain_evict_lt l' (hd ▸ getD_mem_self idx)
      rw [hd, ← hs, List.length_cons] at hlt
      rw [hd, List.length_cons] at h
      split
      · rfl
      · exact evictRandom_add_fuel volatile k fuel m₆ (by omega)

/-- Two unlocked keys under `allkeys-random`, with the heap at or above the limit at every
reading. -/
def twoFreeKeys : Machine :=
  ⟨{ Server.empty ⟨1, ascii AllKeysRandom, false⟩ with
      keyLocks := [(ascii "a", ⟨false, 0⟩), (ascii "b", ⟨false, 0⟩)] },
    ⟨[true, true, true], [], [], []⟩, []⟩

/-- On two keys, two rounds do what five do. -/
theorem evictRandom_two_keys :
    (randomDomain false twoFreeKeys.server).length ≤ 2 ∧
      evictRandom false (2 + 3) twoFreeKeys = evictRandom false 2 twoFreeKeys :=
  ⟨by decide, evictRandom_add_fuel false 3 2 twoFreeKeys (by decide)⟩

/-- **Under `allkeys-random`, `updateKeyInCache` waits on a key it draws.**  With a memory
limit, the next two heap readings at or above it, a live context and every key locked (the
caller's own key among them), the eviction draws a key and waits for its lock forever. -/
theorem updateKeyInCache_waits_on_drawn_key (key : Bytes) (m : Machine)
    (hmem : m.server.config.maxMemory ≠ 0)
    (hcase : cacheCase m.server.config.evictionPolicy = none)
    (hrandom : lowerEq m.server.config.evictionPolicy AllKeysRandom = true)
    (hover : m.env.overMemory.take 2 = [true, true]) (hctx : m.env.ctxDone = [])
    (hkeys : m.server.keyLocks ≠ [])
    (hheld : ∀ k ∈ m.server.keyLocks.keys,
      (m.server.keyLocks.get k).map RWMutex.tryLock = some none) :
    ∃ k ∈ m.server.keyLocks.keys, (updateKeyInCache key m).result = .error (.blocked (.key k)) := by
  obtain ⟨rest, hrest⟩ : ∃ rest, m.env.overMemory = true :: true :: rest := by
    rcases h : m.env.overMemory with _ | ⟨a, _ | ⟨b, rest⟩⟩ <;> simp_all
  obtain ⟨n, hn⟩ : ∃ n, m.server.keyLocks.length = n + 1 :=
    Nat.exists_eq_succ_of_ne_zero (List.length_pos.2 hkeys).ne'
  obtain ⟨hlfu, hlru, hvlfu, hvlru⟩ := cacheCase_eq_none hcase
  obtain ⟨k, hk, m', he⟩ := evictRandom_waits_on_held false n
    { m with env := { m.env with overMemory := rest } } hctx
    (by simpa [randomDomain, GoMap.keys] using hkeys) (by simpa [randomDomain] using hheld)
  refine ⟨k, by simpa [randomDomain] using hk, ?_⟩
  simp [updateKeyInCache, adjustMemoryUsage, getServer, readMemStats, hmem, hcase, hrest, hlfu,
    hlru, hvlfu, hvlru, hrandom, hn, he]

/-! ### `SADD` of a new key under memory pressure -/

/-- A server without keys with a memory limit, under `policy`, whose heap reads below the
limit for the checks of `CreateKeyAndLock` and `SetValue` and at or above it afterwards. -/
def pressedMachine (policy : String) : Machine :=
  ⟨Server.empty ⟨1, ascii policy, false⟩, ⟨[false, false, true, true], [], [], []⟩, []⟩

/-- `SADD k x` on `pressedMachine policy`. -/
def saddPressed (policy : String) : Outcome Reply :=
  (handleSADD firstWriteKey [ascii "SADD", ascii "k", ascii "x"]).run (pressedMachine policy)

/-- **`SADD` of a new key waits on the cache mutex it holds.**  Under `allkeys-lfu`, `SetValue`
locks the LFU cache mutex while `k` is locked, then waits for that mutex, holding both. -/
theorem sadd_lfu_waits_on_cache_mutex :
    (saddPressed AllKeysLFU).result = .error (.blocked (.cacheMutex true)) ∧
      (saddPressed AllKeysLFU).machine.trace =
        [.call (.keyExists (ascii "k")) true, .creationLock, .call (.createKeyAndLock (ascii "k")) true,
          .call (.alloc (.set [ascii "x"])) true, .cacheLock true] ∧
      (saddPressed AllKeysLFU).machine.server.keyLocks.get (ascii "k") = some RWMutex.locked := by
  decide

/-! ### Keys that do not exist in the cache -/

/-- A server without keys with a memory limit, under `allkeys-lfu`, whose heap reads below the
limit. -/
def lfuMachine : Machine := ⟨Server.empty ⟨1, ascii AllKeysLFU, false⟩, ⟨[], [], [], []⟩, []⟩

/-- `SADD a x` and then `SDIFF a b` on `lfuMachine`. -/
def sdiffAbsent : Outcome Reply :=
  (handleSDIFF allReadKeys [ascii "SDIFF", ascii "a", ascii "b"]).run
    ((handleSADD firstWriteKey [ascii "SADD", ascii "a", ascii "x"]).run lfuMachine).machine

/-- **`SDIFF` puts an absent key in the LFU cache.**  `SDIFF a b` with `b` absent reads
`GetValue(b)`, which records an access of `b`: afterwards `b` is in the LFU cache but has no
lock, so it is not a key of the keyspace. -/
theorem sdiff_absent_key_enters_cache :
    sdiffAbsent.result = .ok (.ok (renderMembers [ascii "x"])) ∧
      ascii "b" ∈ sdiffAbsent.machine.server.lfuCache.cache.keys ∧
      sdiffAbsent.machine.server.keyLocks.get (ascii "b") = none := by
  decide

end EchoVault
