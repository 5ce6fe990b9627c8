/-
**Two write handlers on one key, side by side.**

`HSET`, `HINCRBY` and `SADD` test `KeyExists` before they lock their key, and take the new-key
path when it is absent: `CreateKeyAndLock`, then `SetValue` of a fresh hash or set.
`CreateKeyAndLock` gives the same result, `(true, nil)`, when the key exists by the time it
runs: it locks the existing key.  Two such handlers that both find the key absent therefore
both take the new-key path, and the second overwrites the value the first one stored.

Main results:

* `EchoVault.createKeyAndLock_ok_of_free` — `CreateKeyAndLock` returns `(true, nil)` both on
  an absent key and on an existing key whose lock is free;
* `EchoVault.hincrby_lost_update` — two `HINCRBY h f 1` on a keyspace without `h` can end with
  `h.f = 1` and both replies `:1`, where running them one after the other gives `:1`, `:2` and
  `h.f = 2`.
-/

import EchoVault.Handler.Hash

set_option relaxedAutoImplicit false
set_option autoImplicit false

namespace EchoVault

open Keyspace Op

/-- **`CreateKeyAndLock` does not tell creating from locking.**  Without a memory limit, with
the key-creation lock free and a live context, `CreateKeyAndLock` returns `(true, nil)` on an
absent key and on an existing key whose lock is free alike. -/
theorem createKeyAndLock_ok_of_free (key : Bytes) (m : Machine)
    (hmem : m.server.config.maxMemory = 0) (hcl : m.server.keyCreationLock = false)
    (hctx : m.env.ctxDone = [])
    (hkey : m.server.keyLocks.get key = none ∨ ∃ l, m.server.keyLocks.get key = some l ∧ l.tryLock = some RWMutex.locked) :
    (createKeyAndLock key m).result = .ok (.ok true) := by
  rcases hkey with hnone | ⟨l, hl, hfree⟩
  · simp [createKeyAndLock, isMaxMemoryExceeded, lockCreation, unlockCreation, keyExists,
      getServer, modifyServer, emit, hmem, hcl, hnone]
  · simp [createKeyAndLock, isMaxMemoryExceeded, lockCreation, unlockCreation, keyExists, keyLock, acquireKey,
      getServer, modifyServer, emit, ctxDone, hmem, hcl, hctx, hl, hfree]

/-! ### The lost update -/

/-- `HINCRBY h f 1`. -/
def hincrbyHF1 : Prog Reply :=
  handleHINCRBY firstWriteKey [ascii "HINCRBY", ascii "h", ascii "f", ascii "1"]

/-- Both handlers test `KeyExists(h)`; then the first runs to its end, and the second takes the
new-key path on the key the first created. -/
def lostUpdateSchedule : List Bool := [true, false, true, true, true, true, false, false, false, false]

/-- **Two increments of an absent field lose one.**  Interleaved as `lostUpdateSchedule`, two
`HINCRBY h f 1` on a keyspace without `h` both reply `:1` and leave `h.f = 1`; run one after
the other (in either order, since they are the same command) they reply `:1` and `:2` and leave
`h.f = 2`. -/
theorem hincrby_lost_update :
    (∃ m, Interleaving emptyUnlimited hincrbyHF1 hincrbyHF1 m (.ok (fmtInteger 1)) (.ok (fmtInteger 1)) ∧
        m.server.objectAt (ascii "h") = some (.hash [(ascii "f", .int 1)])) ∧
      (hincrbyHF1.run emptyUnlimited).result = .ok (.ok (fmtInteger 1)) ∧
      (hincrbyHF1.run (hincrbyHF1.run emptyUnlimited).machine).result = .ok (.ok (fmtInteger 2)) ∧
      (hincrbyHF1.run (hincrbyHF1.run emptyUnlimited).machine).machine.server.objectAt (ascii "h") =
        some (.hash [(ascii "f", .int 2)]) :=
  ⟨⟨_, Interleaving.of_runSched lostUpdateSchedule _ _ _ (by decide), by decide⟩,
    by decide, by decide, by decide⟩

end EchoVault
