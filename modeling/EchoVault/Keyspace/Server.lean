/-
**The keyspace of a server: locks, store, expiries and eviction caches.**

The state that the capability functions of `server/keyspace.go` read and write.  A key exists
when `keyLocks` has a lock for it; its value is in `store` and its expiry time in `keyExpiry`.
Hashes and sets are Go reference values (a `map[string]interface{}` and a `*Set`), so the store
holds a reference into a heap of objects, and a handler that changes the object it got from
`GetValue` changes the stored value without calling `SetValue`.

Go maps are association lists with distinct keys, kept in the order in which the model
iterates them.  Go leaves that order unspecified.

Main definitions:

* `EchoVault.GoMap` — a Go `map[string]T`, with `get`, `set` and `delete`;
* `EchoVault.Scalar`, `EchoVault.Obj`, `EchoVault.Value` — what the store and the heap hold;
* `EchoVault.RWMutex` — a `sync.RWMutex` as its writer flag and reader count;
* `EchoVault.Cache` — the LFU and LRU caches of the `eviction` package, from the spec;
* `EchoVault.Config`, `EchoVault.Server` — the server's configuration and keyspace state.
-/

import EchoVault.Float
import Mathlib.Data.List.Sort

set_option relaxedAutoImplicit false
set_option autoImplicit false

namespace EchoVault

/-! ### Go maps -/

/-- A Go `map[string]α`: an association list with distinct keys, in iteration order. -/
abbrev GoMap (α : Type) := List (Bytes × α)

namespace GoMap

variable {α : Type}

/-- `m[k]`, `none` for a missing key. -/
def get : GoMap α → Bytes → Option α
  | [], _ => none
  | (k', v) :: m, k => if k' = k then some v else get m k

/-- `m[k] = v`: a present key keeps its place, a new key goes last. -/
def set : GoMap α → Bytes → α → GoMap α
  | [], k, v => [(k, v)]
  | (k', v') :: m, k, v => if k' = k then (k, v) :: m else (k', v') :: set m k v

/-- `delete(m, k)`. -/
def delete : GoMap α → Bytes → GoMap α
  | [], _ => []
  | (k', v) :: m, k => if k' = k then delete m k else (k', v) :: delete m k

/-- The keys of `m`, in iteration order. -/
def keys (m : GoMap α) : List Bytes := m.map (·.1)

@[simp] theorem get_nil (k : Bytes) : get ([] : GoMap α) k = none := rfl

@[simp] theorem get_set (m : GoMap α) (k k' : Bytes) (v : α) :
    (m.set k v).get k' = if k = k' then some v else m.get k' := by
  induction m with
  | nil => simp [set, get]
  | cons e m ih =>
      obtain ⟨k₀, v₀⟩ := e
      by_cases h₀ : k₀ = k
      · subst h₀; by_cases h : k₀ = k' <;> simp [set, get, h]
      · simp only [set, get, h₀, if_false, ih]
        by_cases h : k₀ = k'
        · subst h; simp [Ne.symm h₀]
        · simp [h]

@[simp] theorem get_delete (m : GoMap α) (k k' : Bytes) :
    (m.delete k).get k' = if k = k' then none else m.get k' := by
  induction m with
  | nil => simp [delete, get]
  | cons e m ih =>
      obtain ⟨k₀, v₀⟩ := e
      by_cases h₀ : k₀ = k
      · subst h₀; simp only [delete, if_true, ih]; by_cases h : k₀ = k' <;> simp [get, h]
      · simp only [delete, h₀, if_false, get, ih]
        by_cases h : k₀ = k'
        · subst h; simp [Ne.symm h₀]
        · simp [h]

theorem mem_keys {m : GoMap α} {k : Bytes} : k ∈ m.keys ↔ (m.get k).isSome := by
  induction m with
  | nil => simp [keys]
  | cons e m ih =>
      obtain ⟨k₀, v₀⟩ := e
      by_cases h : k₀ = k
      · simp [keys, get, h]
      · simp [keys, get, h, Ne.symm h, ← ih]

theorem length_delete_le (m : GoMap α) (k : Bytes) : (m.delete k).length ≤ m.length := by
  induction m with
  | nil => simp [delete]
  | cons e m ih =>
      obtain ⟨k₀, v₀⟩ := e
      unfold delete
      split <;> simp only [List.length_cons] <;> omega

theorem length_delete_lt {m : GoMap α} {k : Bytes} (h : (m.get k).isSome) :
    (m.delete k).length < m.length := by
  induction m with
  | nil => simp at h
  | cons e m ih =>
      obtain ⟨k₀, v₀⟩ := e
      unfold delete
      split
      · exact Nat.lt_succ_of_le (length_delete_le m k)
      · rename_i h₀
        simp only [get, h₀, if_false] at h
        simpa using ih h

/-- Deleting a key forgets what was set at it. -/
@[simp] theorem delete_set_self (m : GoMap α) (k : Bytes) (v : α) : (m.set k v).delete k = m.delete k := by
  induction m with
  | nil => simp [set, delete]
  | cons e m ih =>
      obtain ⟨k₀, v₀⟩ := e
      by_cases h : k₀ = k
      · subst h
        simp [set, delete]
      · simp [set, delete, h, ih]

/-- An entry of `m` after `m[k] = v` is the new one or an entry of `m`. -/
theorem mem_set {m : GoMap α} {k : Bytes} {v : α} {e : Bytes × α} (h : e ∈ m.set k v) :
    e = (k, v) ∨ e ∈ m := by
  induction m with
  | nil => simpa [set] using h
  | cons e' m ih =>
      unfold set at h
      split at h
      · exact (List.mem_cons.1 h).imp_right (List.mem_cons_of_mem _)
      · rcases List.mem_cons.1 h with rfl | h
        · exact .inr (List.mem_cons_self _ _)
        · exact (ih h).imp_right (List.mem_cons_of_mem _)

/-- `m[k] = v` keeps the keys distinct. -/
theorem nodup_keys_set {m : GoMap α} (k : Bytes) (v : α) (h : m.keys.Nodup) : (m.set k v).keys.Nodup := by
  induction m with
  | nil => simp [set, keys]
  | cons e m ih =>
      simp only [keys, List.map_cons, List.nodup_cons] at h
      unfold set
      split
      · rename_i e₀
        simpa [keys, e₀] using h
      · simp only [keys, List.map_cons, List.nodup_cons]
        refine ⟨fun hk => ?_, ih h.2⟩
        obtain ⟨e', he', he⟩ := List.mem_map.1 hk
        rcases mem_set he' with rfl | he'
        · exact ‹¬e.1 = k› he.symm
        · exact h.1 (he ▸ List.mem_map_of_mem _ he')

end GoMap

/-! ### Values -/

/-- A value that `AdaptType` or `HINCRBY` puts in a hash field: a Go `string`, `int` or
`float64`. -/
inductive Scalar where
  | str (s : Bytes)
  | int (i : ℤ)
  | float (f : Float64)
  deriving DecidableEq

/-- An object on the Go heap: a hash (`map[string]interface{}`), a set (`*Set`), or an object
of another module (a list, a sorted set). -/
inductive Obj where
  | hash (fields : GoMap Scalar)
  | set (members : List Bytes)
  | other
  deriving DecidableEq

/-- A value in the store: a reference to a heap object, or a scalar stored by another module. -/
inductive Value where
  | ref (r : ℕ)
  | scalar (s : Scalar)
  deriving DecidableEq

/-! ### Locks -/

/-- A `sync.RWMutex`: whether a writer holds it, and how many readers do. -/
structure RWMutex where
  writer : Bool
  readers : ℕ
  deriving DecidableEq

namespace RWMutex

/-- A mutex locked for writing, as `CreateKeyAndLock` makes it. -/
def locked : RWMutex := ⟨true, 0⟩

/-- `TryLock`: succeeds when nobody holds the mutex. -/
def tryLock (l : RWMutex) : Option RWMutex :=
  if !l.writer && l.readers == 0 then some locked else none

/-- `TryRLock`: succeeds unless a writer holds the mutex. -/
def tryRLock (l : RWMutex) : Option RWMutex :=
  if l.writer then none else some ⟨false, l.readers + 1⟩

/-- `Unlock`: `none` is the fatal error of unlocking a mutex not locked for writing. -/
def unlock (l : RWMutex) : Option RWMutex :=
  if l.writer then some ⟨false, l.readers⟩ else none

/-- `RUnlock`: `none` is the fatal error of unlocking a mutex without readers. -/
def rUnlock (l : RWMutex) : Option RWMutex :=
  if l.readers = 0 then none else some ⟨l.writer, l.readers - 1⟩

end RWMutex

/-! ### Eviction caches -/

/-- Modelled from the spec: the `eviction.CacheLFU` and `eviction.CacheLRU` of the server, whose
package is not in the source.  Each entry is a key with its access count; the entries are
ordered by last access, least recent first. -/
structure Cache where
  entries : List (Bytes × ℕ)
  deriving DecidableEq

namespace Cache

/-- `Update(key)`: one more access to `key`, now the most recent. -/
def update (c : Cache) (key : Bytes) : Cache :=
  ⟨c.entries.filter (·.1 != key) ++ [(key, ((c.entries.find? (·.1 == key)).map (·.2)).getD 0 + 1)]⟩

/-- `Delete(key)`. -/
def delete (c : Cache) (key : Bytes) : Cache := ⟨c.entries.filter (·.1 != key)⟩

/-- The keys of the cache. -/
def keys (c : Cache) : List Bytes := c.entries.map (·.1)

/-- The order in which repeated `Pop` calls of the LRU cache return the keys: least recently
used first. -/
def lruOrder (c : Cache) : List Bytes := c.keys

/-- The order in which repeated `Pop` calls of the LFU cache return the keys: least frequently
used first, ties broken by earliest last access. -/
def lfuOrder (c : Cache) : List Bytes :=
  (c.entries.insertionSort fun a b => a.2 ≤ b.2).map (·.1)

end Cache

/-- The `lfuCache` and `lruCache` fields of the server: a cache and the `sync.Mutex` guarding
it, `true` while held. -/
structure EvictionCache where
  mutex : Bool
  cache : Cache
  deriving DecidableEq

/-! ### Configuration and server state -/

/-- Modelled from the spec: `utils.NoEviction`, whose declaration is not in the source. -/
def NoEviction : String := "noeviction"

/-- Modelled from the spec: `utils.AllKeysLRU`. -/
def AllKeysLRU : String := "allkeys-lru"

/-- Modelled from the spec: `utils.AllKeysLFU`. -/
def AllKeysLFU : String := "allkeys-lfu"

/-- Modelled from the spec: `utils.AllKeysRandom`. -/
def AllKeysRandom : String := "allkeys-random"

/-- Modelled from the spec: `utils.VolatileLRU`. -/
def VolatileLRU : String := "volatile-lru"

/-- Modelled from the spec: `utils.VolatileLFU`. -/
def VolatileLFU : String := "volatile-lfu"

/-- Modelled from the spec: `utils.VolatileRandom`. -/
def VolatileRandom : String := "volatile-random"

/-- The configuration the keyspace functions read: `MaxMemory` (0 for no limit), the
`EvictionPolicy` string, and whether the server runs in a cluster (`IsInCluster`). -/
structure Config where
  maxMemory : ℕ
  evictionPolicy : Bytes
  inCluster : Bool
  deriving DecidableEq

/-- The keyspace part of `echovault.EchoVault`.  `keyCreationLock` is `true` while held;
`keyExpiry` maps a key to its expiry time in nanoseconds, `0` for the zero `time.Time`;
`changeCount` is the snapshot engine's count of changes. -/
structure Server where
  config : Config
  keyLocks : GoMap RWMutex
  keyCreationLock : Bool
  store : GoMap Value
  keyExpiry : GoMap ℕ
  lfuCache : EvictionCache
  lruCache : EvictionCache
  heap : List Obj
  changeCount : ℕ
  deriving DecidableEq

/-- A server with no keys under the configuration `config`. -/
def Server.empty (config : Config) : Server :=
  ⟨config, [], false, [], [], ⟨false, ⟨[]⟩⟩, ⟨false, ⟨[]⟩⟩, [], 0⟩

/-- The object stored at `key`, through its reference: what a client reading the key sees. -/
def Server.objectAt (s : Server) (key : Bytes) : Option Obj :=
  match s.store.get key with
  | some (.ref r) => some (s.heap.getD r .other)
  | _ => none

end EchoVault
