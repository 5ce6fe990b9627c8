/-
**The capability functions of `server/keyspace.go`.**

Every function of the keyspace runs as an operation `Op α` on a `Machine`: the server state, the
environment the function observes, and the trace of events so far.  The environment answers the
questions the code asks of the world outside the keyspace, each answer consumed as it is read:
the heap readings of `runtime.ReadMemStats`, the results of `rand.Intn`, and whether the
handler's context is done when a lock attempt looks at it.  An operation either returns or
stops: it blocks forever on a lock (a `sync.Mutex` is not reentrant, and a lock attempt spins
until its context is done), dies with a fatal runtime error, or panics.

A handler calls the keyspace through the capability calls `Call`; `Call.exec` runs one.

Main definitions:

* `EchoVault.Env`, `EchoVault.Machine`, `EchoVault.Stop`, `EchoVault.Event`, `EchoVault.Op`;
* `EchoVault.Keyspace.keyLock`, `keyRLock`, `keyUnlock`, `keyRUnlock`, `keyExists`,
  `createKeyAndLock`, `getValue`, `setValue`, `setKeyExpiry`, `removeKeyExpiry`,
  `updateKeyInCache`, `adjustMemoryUsage` — the functions of `keyspace.go`;
* `EchoVault.Call`, `EchoVault.Call.exec` — the capability calls of a handler.
-/

import EchoVault.Keyspace.Server
import Mathlib.Data.List.Sort

set_option relaxedAutoImplicit false
set_option autoImplicit false

namespace EchoVault

/-! ### Machines and operations -/

/-- The world outside the keyspace, as a run observes it: the successive heap readings
(`true` when `HeapInuse` is at or above `MaxMemory`), the successive draws of `rand.Intn`, and
for each lock attempt whether the context is done; past the end of a list a reading is below
the limit, a draw is `0` and the context is live.  `cause` is `context.Cause(ctx)`. -/
structure Env where
  overMemory : List Bool
  rand : List ℕ
  ctxDone : List Bool
  cause : Bytes
  deriving DecidableEq

/-- What a goroutine can wait on. -/
inductive Lockable where
  | key (k : Bytes)
  | keyCreationLock
  | cacheMutex (lfu : Bool)
  deriving DecidableEq

/-- How an operation stops without returning. -/
inductive Stop where
  | blocked (what : Lockable)
  | fatal (msg : Bytes)
  | panic (msg : Bytes)
  deriving DecidableEq

/-- Equality of results is decidable, so that runs on fixed inputs can be checked by `decide`. -/
instance instDecidableEqExcept {ε α : Type} [DecidableEq ε] [DecidableEq α] :
    DecidableEq (Except ε α)
  | .error a, .error b => decidable_of_iff (a = b) ⟨congrArg _, Except.error.inj⟩
  | .ok a, .ok b => decidable_of_iff (a = b) ⟨congrArg _, Except.ok.inj⟩
  | .error _, .ok _ => isFalse Except.noConfusion
  | .ok _, .error _ => isFalse Except.noConfusion

/-- The capability calls a handler makes (`params.KeyExists` … `params.SetValue`), and the Go
heap operations on the objects it got from them. -/
inductive Call where
  | keyExists (key : Bytes)
  | createKeyAndLock (key : Bytes)
  | keyLock (key : Bytes)
  | keyUnlock (key : Bytes)
  | keyRLock (key : Bytes)
  | keyRUnlock (key : Bytes)
  | getValue (key : Bytes)
  | setValue (key : Bytes) (value : Value)
  | alloc (o : Obj)
  | load (r : ℕ)
  | write (r : ℕ) (o : Obj)
  | intn (n : ℕ)
  | panic (msg : Bytes)
  deriving DecidableEq

/-- The Go result of a call. -/
def Call.Result : Call → Type
  | .keyExists _ => Bool
  | .createKeyAndLock _ | .keyLock _ | .keyRLock _ => Except Bytes Bool
  | .keyUnlock _ | .keyRUnlock _ | .write _ _ => Unit
  | .getValue _ => Option Value
  | .setValue _ _ => Except Bytes Unit
  | .alloc _ | .intn _ => ℕ
  | .load _ => Obj
  | .panic _ => Empty

/-- What a trace records: each capability call with whether it succeeded, and inside the
keyspace the acquisitions of the key-creation lock and of a cache mutex, and each eviction. -/
inductive Event where
  | call (c : Call) (ok : Bool)
  | creationLock
  | cacheLock (lfu : Bool)
  | evict (key : Bytes)
  deriving DecidableEq

/-- A server with the environment of a run and the trace of the run so far. -/
structure Machine where
  server : Server
  env : Env
  trace : List Event

/-- How an operation ends: it returns a value, or it stops; either way in a new machine. -/
inductive Outcome (α : Type) where
  | ok (a : α) (m : Machine)
  | stop (s : Stop) (m : Machine)

namespace Outcome

variable {α : Type}

/-- The value returned, or how the operation stopped. -/
def result : Outcome α → Except Stop α
  | ok a _ => .ok a
  | stop s _ => .error s

/-- The machine the operation ends in. -/
def machine : Outcome α → Machine
  | ok _ m => m
  | stop _ m => m

@[simp] theorem result_ok (a : α) (m : Machine) : (ok a m).result = .ok a := rfl

@[simp] theorem result_stop (s : Stop) (m : Machine) : (stop s m : Outcome α).result = .error s := rfl

@[simp] theorem machine_ok (a : α) (m : Machine) : (ok a m).machine = m := rfl

@[simp] theorem machine_stop (s : Stop) (m : Machine) : (stop s m : Outcome α).machine = m := rfl

/-- An outcome that returned `a` returned it in its machine. -/
theorem eq_ok_of_result {o : Outcome α} {a : α} (h : o.result = .ok a) : o = .ok a o.machine := by
  cases o with
  | ok a' m => cases h; rfl
  | stop s m => cases h

end Outcome

/-- An operation of the keyspace: it returns or stops, in a new machine. -/
def Op (α : Type) : Type := Machine → Outcome α

instance : Monad Op where
  pure a m := .ok a m
  bind x f m := match x m with
    | .ok a m' => f a m'
    | .stop s m' => .stop s m'

namespace Op

variable {α β : Type}

@[simp] theorem run_pure (a : α) (m : Machine) : (pure a : Op α) m = .ok a m := rfl

@[simp] theorem run_bind (x : Op α) (f : α → Op β) (m : Machine) :
    (x >>= f) m = match x m with
      | .ok a m' => f a m'
      | .stop s m' => .stop s m' := rfl

theorem bind_assoc {γ : Type} (x : Op α) (f : α → Op β) (g : β → Op γ) :
    (x >>= f) >>= g = x >>= fun a => f a >>= g := by
  funext m
  simp only [run_bind]
  rcases x m with ⟨a, m'⟩ | ⟨s, m'⟩ <;> rfl

/-- The server. -/
def getServer : Op Server := fun m => .ok m.server m

/-- Change the server. -/
def modifyServer (f : Server → Server) : Op Unit := fun m => .ok () { m with server := f m.server }

/-- Record an event. -/
def emit (e : Event) : Op Unit := fun m => .ok () { m with trace := m.trace ++ [e] }

/-- Stop. -/
def stop (s : Stop) : Op α := fun m => .stop s m

/-- `runtime.ReadMemStats` and the comparison of `HeapInuse` with `MaxMemory` that follows it:
`true` when the reading is at or above the limit. -/
def readMemStats : Op Bool := fun m =>
  match m.env.overMemory with
  | [] => .ok false m
  | b :: bs => .ok b { m with env := { m.env with overMemory := bs } }

/-- Whether the context is done when a lock attempt looks at it. -/
def ctxDone : Op Bool := fun m =>
  match m.env.ctxDone with
  | [] => .ok false m
  | b :: bs => .ok b { m with env := { m.env with ctxDone := bs } }

/-- `context.Cause(ctx)`. -/
def cause : Op Bytes := fun m => .ok m.env.cause m

/-- `rand.Intn(n)`, which panics unless `n > 0`. -/
def randIntn (n : ℕ) : Op ℕ := fun m =>
  if n = 0 then .stop (.panic (ascii "invalid argument to Intn")) m
  else match m.env.rand with
    | [] => .ok 0 m
    | d :: ds => .ok (d % n) { m with env := { m.env with rand := ds } }

end Op

open Op

/-! ### The functions of `keyspace.go` -/

namespace Keyspace

/-- `Server.KeyExists`. -/
def keyExists (key : Bytes) : Op Bool := do
  return ((← getServer).keyLocks.get key).isSome

/-- The loop of `Server.KeyLock` and `Server.KeyRLock`, which differ only in the lock operation
`acquire` they try: fail at once when the context is done, or when the key has no lock; take
the lock when `acquire` succeeds; otherwise spin, here forever since the context stays live. -/
def acquireKey (acquire : RWMutex → Option RWMutex) (key : Bytes) : Op (Except Bytes Bool) := do
  if ← ctxDone then return .error (← cause)
  let s ← getServer
  match s.keyLocks.get key with
  | none => return .error (ascii "key " ++ key ++ ascii " not found")
  | some l =>
    match acquire l with
    | some l' => modifyServer (fun s => { s with keyLocks := s.keyLocks.set key l' }); return .ok true
    | none => stop (.blocked (.key key))

/-- `Server.KeyLock`. -/
def keyLock (key : Bytes) : Op (Except Bytes Bool) := acquireKey RWMutex.tryLock key

/-- `Server.KeyRLock`. -/
def keyRLock (key : Bytes) : Op (Except Bytes Bool) := acquireKey RWMutex.tryRLock key

/-- With a live context, locking a key whose lock is held waits forever. -/
theorem keyLock_of_held {key : Bytes} {m : Machine} (hctx : m.env.ctxDone = [])
    (hheld : (m.server.keyLocks.get key).map RWMutex.tryLock = some none) :
    keyLock key m = .stop (.blocked (.key key)) m := by
  cases hl : m.server.keyLocks.get key with
  | none => simp [hl] at hheld
  | some l =>
      simp only [hl, Option.map_some', Option.some.injEq] at hheld
      simp [keyLock, acquireKey, Op.ctxDone, hctx, getServer, hl, hheld, stop]

/-- `Server.KeyUnlock` and `Server.KeyRUnlock`, which differ only in the unlock operation
`release` they call and in the message of the fatal error it raises on a lock not held:
nothing for a key that no longer exists. -/
def releaseKey (release : RWMutex → Option RWMutex) (fatal : Bytes) (key : Bytes) : Op Unit := do
  let s ← getServer
  match s.keyLocks.get key with
  | none => return ()
  | some l =>
    match release l with
    | some l' => modifyServer fun s => { s with keyLocks := s.keyLocks.set key l' }
    | none => stop (.fatal fatal)

/-- `Server.KeyUnlock`. -/
def keyUnlock (key : Bytes) : Op Unit :=
  releaseKey RWMutex.unlock (ascii "sync: Unlock of unlocked RWMutex") key

/-- `Server.KeyRUnlock`. -/
def keyRUnlock (key : Bytes) : Op Unit :=
  releaseKey RWMutex.rUnlock (ascii "sync: RUnlock of unlocked RWMutex") key

/-- `utils.IsMaxMemoryExceeded`: a reading at or above the limit, and another after
`runtime.GC()`. -/
def isMaxMemoryExceeded (maxMemory : ℕ) : Op Bool := do
  if maxMemory = 0 then return false
  if !(← readMemStats) then return false
  readMemStats

/-- `keyCreationLock.Lock()`. -/
def lockCreation : Op Unit := do
  if (← getServer).keyCreationLock then stop (.blocked .keyCreationLock)
  modifyServer fun s => { s with keyCreationLock := true }
  emit .creationLock

/-- `keyCreationLock.Unlock()`. -/
def unlockCreation : Op Unit := modifyServer fun s => { s with keyCreationLock := false }

/-- The cache and mutex of `lfuCache` (`lfu`) or `lruCache`. -/
def evictionCache (lfu : Bool) (s : Server) : EvictionCache := if lfu then s.lfuCache else s.lruCache

/-- Replace the `lfuCache` (`lfu`) or the `lruCache`. -/
def setEvictionCache (lfu : Bool) (c : EvictionCache) (s : Server) : Server :=
  if lfu then { s with lfuCache := c } else { s with lruCache := c }

@[simp] theorem evictionCache_setEvictionCache (lfu : Bool) (c : EvictionCache) (s : Server) :
    evictionCache lfu (setEvictionCache lfu c s) = c := by
  cases lfu <;> rfl

@[simp] theorem setEvictionCache_config (lfu : Bool) (c : EvictionCache) (s : Server) :
    (setEvictionCache lfu c s).config = s.config := by
  cases lfu <;> rfl

@[simp] theorem setEvictionCache_store (lfu : Bool) (c : EvictionCache) (s : Server) :
    (setEvictionCache lfu c s).store = s.store := by
  cases lfu <;> rfl

@[simp] theorem setEvictionCache_keyExpiry (lfu : Bool) (c : EvictionCache) (s : Server) :
    (setEvictionCache lfu c s).keyExpiry = s.keyExpiry := by
  cases lfu <;> rfl

@[simp] theorem setEvictionCache_keyLocks (lfu : Bool) (c : EvictionCache) (s : Server) :
    (setEvictionCache lfu c s).keyLocks = s.keyLocks := by
  cases lfu <;> rfl

@[simp] theorem setEvictionCache_heap (lfu : Bool) (c : EvictionCache) (s : Server) :
    (setEvictionCache lfu c s).heap = s.heap := by
  cases lfu <;> rfl

/-- `lfuCache.mutex.Lock()` (`lfu`) or `lruCache.mutex.Lock()`. -/
def lockCache (lfu : Bool) : Op Unit := do
  let c := evictionCache lfu (← getServer)
  if c.mutex then stop (.blocked (.cacheMutex lfu))
  modifyServer (setEvictionCache lfu { c with mutex := true })
  emit (.cacheLock lfu)

theorem lockCache_of_free {lfu : Bool} {m : Machine} (h : (evictionCache lfu m.server).mutex = false) :
    lockCache lfu m = .ok () { m with
      server := setEvictionCache lfu { evictionCache lfu m.server with mutex := true } m.server,
      trace := m.trace ++ [.cacheLock lfu] } := by
  simp [lockCache, getServer, modifyServer, emit, h]

/-- A `sync.Mutex` is not reentrant: locking a held cache mutex waits forever. -/
theorem lockCache_of_held {lfu : Bool} {m : Machine} (h : (evictionCache lfu m.server).mutex = true) :
    lockCache lfu m = .stop (.blocked (.cacheMutex lfu)) m := by
  simp [lockCache, getServer, stop, h]

/-- The matching `Unlock()`. -/
def unlockCache (lfu : Bool) : Op Unit :=
  modifyServer fun s => setEvictionCache lfu { evictionCache lfu s with mutex := false } s

/-- Change the cache of `lfuCache` (`lfu`) or `lruCache`. -/
def modifyCache (lfu : Bool) (f : Cache → Cache) : Op Unit :=
  modifyServer fun s => setEvictionCache lfu { evictionCache lfu s with cache := f (evictionCache lfu s).cache } s

/-- `delete` of a key from `store`, `keyExpiry` and `keyLocks`. -/
def deleteKey (key : Bytes) : Op Unit :=
  modifyServer fun s =>
    { s with store := s.store.delete key, keyExpiry := s.keyExpiry.delete key,
             keyLocks := s.keyLocks.delete key }

/-- The eviction loop of `adjustMemoryUsage` for the LFU (`lfu`) or LRU cache, over the keys in
the order in which `Pop` returns them: pop, lock and delete the key, and stop once the heap
reads below the limit. -/
def evictFromCache (lfu : Bool) : List Bytes → Op (Except Bytes Unit)
  | [] => return .error (ascii "adjsutMemoryUsage -> " ++ ascii (if lfu then "LFU" else "LRU") ++
      ascii " cache empty")
  | key :: order => do
    modifyCache lfu (·.delete key)
    match ← keyLock key with
    | .error e => return .error (ascii "adjustMemoryUsage -> " ++ ascii (if lfu then "LFU" else "LRU") ++
        ascii " cache eviction: " ++ e)
    | .ok _ =>
      deleteKey key
      emit (.evict key)
      if !(← readMemStats) then return .ok ()
      evictFromCache lfu order

/-- The prefix of the errors of the random eviction loop over `keyExpiry` (`volatile`) or over
`keyLocks`. -/
def randomPrefix (volatile : Bool) : Bytes :=
  ascii (if volatile then "adjustMemoryUsage -> volatile keys random: "
    else "adjustMemoryUsage -> all keys random: ")

/-- The error of the random eviction loop when no key is left to draw. -/
def noKeysToEvict (volatile : Bool) : Bytes :=
  randomPrefix volatile ++ ascii (if volatile then "no volatile keys to evict" else "no keys to evict")

/-- The keys the random eviction loop draws from. -/
def randomDomain (volatile : Bool) (s : Server) : List Bytes :=
  if volatile then s.keyExpiry.keys else s.keyLocks.keys

/-- The random eviction loop of `adjustMemoryUsage`: draw a key of the domain, lock and delete
it, and stop once the heap reads below the limit.  `fuel` bounds the rounds: each deletes a key
of the domain, so the domain is empty when it runs out. -/
def evictRandom (volatile : Bool) : ℕ → Op (Except Bytes Unit)
  | 0 => return .error (noKeysToEvict volatile)
  | fuel + 1 => do
    match randomDomain volatile (← getServer) with
    | [] => return .error (noKeysToEvict volatile)
    | keys@(k₀ :: _) =>
      let idx ← randIntn keys.length
      let key := keys.getD idx k₀
      match ← keyLock key with
      | .error e => return .error (randomPrefix volatile ++ e)
      | .ok _ =>
        deleteKey key
        emit (.evict key)
        if !(← readMemStats) then return .ok ()
        evictRandom volatile fuel

/-- `Server.adjustMemoryUsage`: past two readings at or above the limit, evict by the policy;
the LFU and LRU loops hold the cache mutex. -/
def adjustMemoryUsage : Op (Except Bytes Unit) := do
  let s ← getServer
  if s.config.maxMemory = 0 then return .ok ()
  if !(← readMemStats) then return .ok ()
  if !(← readMemStats) then return .ok ()
  let p := s.config.evictionPolicy
  if lowerEq p AllKeysLFU || lowerEq p VolatileLFU then
    lockCache true
    let r ← evictFromCache true (evictionCache true (← getServer)).cache.lfuOrder
    unlockCache true
    return r
  else if lowerEq p AllKeysLRU || lowerEq p VolatileLRU then
    lockCache false
    let r ← evictFromCache false (evictionCache false (← getServer)).cache.lruOrder
    unlockCache false
    return r
  else if lowerEq p AllKeysRandom then
    evictRandom false (← getServer).keyLocks.length
  else if lowerEq p VolatileRandom then
    evictRandom true (← getServer).keyExpiry.length
  else return .ok ()

/-- The case of the `switch strings.ToLower(EvictionPolicy)` of `updateKeyInCache`: the LFU
(`true`) or LRU cache, and whether only keys with an expiry are tracked. -/
def cacheCase (p : Bytes) : Option (Bool × Bool) :=
  if lowerEq p AllKeysLFU then some (true, false)
  else if lowerEq p AllKeysLRU then some (false, false)
  else if lowerEq p VolatileLFU then some (true, true)
  else if lowerEq p VolatileLRU then some (false, true)
  else none

/-- `Server.updateKeyInCache`: under an LFU or LRU policy take the cache mutex and record the
access, then `adjustMemoryUsage` with the mutex still held (its `Unlock` is deferred). -/
def updateKeyInCache (key : Bytes) : Op (Except Bytes Unit) := do
  let s ← getServer
  if s.config.maxMemory = 0 then return .ok ()
  match cacheCase s.config.evictionPolicy with
  | none =>
    let r ← adjustMemoryUsage
    return r.mapError (ascii "updateKeyInCache: " ++ ·)
  | some (lfu, volatile) =>
    lockCache lfu
    if !volatile || ((← getServer).keyExpiry.get key).isSome then modifyCache lfu (·.update key)
    let r ← adjustMemoryUsage
    unlockCache lfu
    return r.mapError (ascii "updateKeyInCache: " ++ ·)

/-- `Server.GetValue`: the error of `updateKeyInCache` is only logged. -/
def getValue (key : Bytes) : Op (Option Value) := do
  let _ ← updateKeyInCache key
  return (← getServer).store.get key

/-- `Server.SetValue`. -/
def setValue (key : Bytes) (value : Value) : Op (Except Bytes Unit) := do
  let config := (← getServer).config
  if (← isMaxMemoryExceeded config.maxMemory) && config.evictionPolicy == ascii NoEviction then
    return .error (ascii "max memory reached, key value not set")
  modifyServer fun s => { s with store := s.store.set key value }
  let _ ← updateKeyInCache key
  if !config.inCluster then modifyServer fun s => { s with changeCount := s.changeCount + 1 }
  return .ok ()

/-- `Server.CreateKeyAndLock`: `true` both when it creates the key and when it locks an
existing one. -/
def createKeyAndLock (key : Bytes) : Op (Except Bytes Bool) := do
  let config := (← getServer).config
  if (← isMaxMemoryExceeded config.maxMemory) && config.evictionPolicy == ascii NoEviction then
    return .error (ascii "max memory reached, key not created")
  lockCreation
  let r ← if ← keyExists key then keyLock key else do
    modifyServer fun s => { s with keyLocks := s.keyLocks.set key RWMutex.locked }
    pure (.ok true)
  unlockCreation
  return r

/-- `Server.SetKeyExpiry`. -/
def setKeyExpiry (key : Bytes) (expire : ℕ) (touch : Bool) : Op Unit := do
  modifyServer fun s => { s with keyExpiry := s.keyExpiry.set key expire }
  if touch then
    let _ ← updateKeyInCache key

/-- `Server.RemoveKeyExpiry`: the key keeps an entry in `keyExpiry`, with the zero time; the
policy is compared without changing its case. -/
def removeKeyExpiry (key : Bytes) : Op Unit := do
  modifyServer fun s => { s with keyExpiry := s.keyExpiry.set key 0 }
  let p := (← getServer).config.evictionPolicy
  if p = ascii AllKeysLFU ∨ p = ascii VolatileLFU then modifyCache true (·.delete key)
  else if p = ascii AllKeysLRU ∨ p = ascii VolatileLRU then modifyCache false (·.delete key)

end Keyspace

/-! ### Capability calls -/

namespace Call

open Keyspace

/-- Run one call. -/
def exec : (c : Call) → Op c.Result
  | .keyExists key => Keyspace.keyExists key
  | .createKeyAndLock key => Keyspace.createKeyAndLock key
  | .keyLock key => Keyspace.keyLock key
  | .keyUnlock key => Keyspace.keyUnlock key
  | .keyRLock key => Keyspace.keyRLock key
  | .keyRUnlock key => Keyspace.keyRUnlock key
  | .getValue key => Keyspace.getValue key
  | .setValue key value => Keyspace.setValue key value
  | .alloc o => fun m => .ok m.server.heap.length
      { m with server := { m.server with heap := m.server.heap ++ [o] } }
  | .load r => fun m => .ok (m.server.heap.getD r .other) m
  | .write r o => modifyServer fun s => { s with heap := s.heap.set r o }
  | .intn n => randIntn n
  | .panic msg => stop (.panic msg)

/-- A lock call returned no error, which is how a handler tells that it holds the lock (the
keyspace returns `(true, nil)` or `(false, err)`). -/
def lockTaken : Except Bytes Bool → Bool
  | .ok _ => true
  | .error _ => false

/-- Whether a call succeeded: a lock call that took its lock, a `SetValue` that stored. -/
def ok : (c : Call) → c.Result → Bool
  | .createKeyAndLock _, r => lockTaken r
  | .keyLock _, r => lockTaken r
  | .keyRLock _, r => lockTaken r
  | .setValue _ _, r => Except.toBool (ε := Bytes) r
  | _, _ => true

end Call

end EchoVault
