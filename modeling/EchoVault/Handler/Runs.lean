/-
**Whole runs of the hash and set handlers.**

The handlers of `Handler.Hash`, `Handler.Set` and `Handler.SetPlugin` are run here from whole
machines.  On a quiet machine (`Keyspace.Quiet`) a handler's run is assembled from one contract
per capability call, and what it returns and leaves is stated over every command of the shape
the handler reads, every value at the key and every answer of `rand.Intn`.  Next to each such
result stands the run at a fixed input that shows where the handler parts from what its
callers are told.

`HRANDFIELD` with a positive count draws distinct fields because `slices.DeleteFunc`, although
its closure reads `fields[n]` from the array it is compacting, removes exactly the drawn field
when the fields are distinct: every later field differs from what the closure reads, the drawn
field or, once it is overwritten, the field after it.

Main definitions:

* `EchoVault.shifted` — the array `slices.DeleteFunc` holds part way through its compaction.

Main results:

* `EchoVault.deleteFuncAt_eq` — `slices.DeleteFunc` removes the drawn field;
* `EchoVault.pluckFields_distinct` — the plucking loop draws distinct fields, whatever
  `rand.Intn` returns;
* `EchoVault.handleHRANDFIELD_distinct_fields` — **`HRANDFIELD` with a positive count replies
  `min(count, len(hash))` distinct fields of the hash**, each with its value `WITHVALUES`;
* `EchoVault.hrandfield_and_plugin_sunion_panic` — `HRANDFIELD` with a negative count on an
  emptied hash, and the plugin's `SUNION` on keys none of which exists, panic;
* `EchoVault.handleHINCRBY_wraps` — **`HINCRBY` stores and replies the sum wrapped to 64 bits**;
* `EchoVault.sadd_twice_counts_once` — two `SADD`s that each add a member count one change.
-/

import EchoVault.Handler.Hash
import EchoVault.Handler.SetPlugin
import EchoVault.Keyspace.Quiet

set_option relaxedAutoImplicit false
set_option autoImplicit false

namespace EchoVault

open Prog

/-! ### `slices.DeleteFunc` on distinct fields -/

namespace Prog.Returns

variable {α : Type} {m : Machine} {post : α → Machine → Prop}

/-- `GetValue(key).(map[string]interface{})` on a quiet machine, at a key holding a hash. -/
theorem getHash {key : Bytes} {r : ℕ} {H : GoMap Scalar} {k : Option (ℕ × GoMap Scalar) → Prog α}
    (hq : m.Quiet) (hv : m.server.store.get key = some (.ref r))
    (hh : m.server.heap.getD r .other = .hash H)
    (h : ∀ s tr, m.server.Recached s → (k (some (r, H))).Returns ⟨s, m.env, tr⟩ post) :
    (EchoVault.getHash key >>= k).Returns m post := by
  simp only [EchoVault.getHash, Prog.getValue, Prog.load, call_bind, pure_bind, bind_assoc]
  refine Returns.getValue hq fun s tr hs => ?_
  simp only [hv]
  exact Returns.load fun tr' => by simpa only [hs.heap, hh] using h s tr' hs

/-- `GetValue(key).(*Set)` on a quiet machine, at a key holding a set. -/
theorem getSet {key : Bytes} {r : ℕ} {S : List Bytes} {k : Option (ℕ × List Bytes) → Prog α}
    (hq : m.Quiet) (hv : m.server.store.get key = some (.ref r))
    (hh : m.server.heap.getD r .other = .set S)
    (h : ∀ s tr, m.server.Recached s → (k (some (r, S))).Returns ⟨s, m.env, tr⟩ post) :
    (EchoVault.getSet key >>= k).Returns m post := by
  simp only [EchoVault.getSet, Prog.getValue, Prog.load, call_bind, pure_bind, bind_assoc]
  refine Returns.getValue hq fun s tr hs => ?_
  simp only [hv]
  exact Returns.load fun tr' => by simpa only [hs.heap, hh] using h s tr' hs

end Prog.Returns

/-- A reference at which the heap holds an object is allocated. -/
theorem lt_length_of_getD {heap : List Obj} {r : ℕ} {o : Obj} (h : heap.getD r .other = o)
    (ho : o ≠ .other) : r < heap.length := by
  by_contra hr
  exact ho (h ▸ List.getD_eq_default _ _ (by omega))

/-- The hash `{a: 1, b: 2}`. -/
def twoFields : GoMap Scalar := [(ascii "a", .int 1), (ascii "b", .int 2)]

/-- A quiet machine on which `h` holds `twoFields`, its lock free. -/
def twoFieldHash : Machine :=
  ⟨{ emptyUnlimited.server with
      keyLocks := [(ascii "h", ⟨false, 0⟩)]
      store := [(ascii "h", .ref 0)]
      heap := [.hash twoFields] }, emptyUnlimited.env, []⟩

/-- `HSET h f v`, `HDEL h f`, then `HRANDFIELD h -1` on the hash `HDEL` left empty. -/
def emptyHashThenRandfield : Prog Reply := do
  let _ ← handleHSET firstWriteKey [ascii "HSET", ascii "h", ascii "f", ascii "v"]
  let _ ← handleHDEL firstWriteKey [ascii "HDEL", ascii "h", ascii "f"]
  handleHRANDFIELD allReadKeys [ascii "HRANDFIELD", ascii "h", ascii "-1"]

/-- **Two handlers panic.**  `HDEL` keeps a hash whose last field it deletes, so `HRANDFIELD`
with a negative count calls `rand.Intn(0)` on it; and the plugin's `SUNION` on keys none of
which exists slices the sets after the first of no sets. -/
theorem hrandfield_and_plugin_sunion_panic :
    (emptyHashThenRandfield.run emptyUnlimited).result =
        .error (.panic (ascii "invalid argument to Intn")) ∧
      ((SetPlugin.handleSUNION id [ascii "SUNION", ascii "a", ascii "b"]).run emptyUnlimited).result =
        .error (.panic (ascii "runtime error: slice bounds out of range [1:0]")) := by
  decide

/-! ### `HINCRBY` -/

/-- **`HINCRBY` stores and replies the sum wrapped to 64 bits.**  On a quiet machine, with the
key's lock free and a hash at the key whose field holds the `int` `v` (or is absent, read as
`0`), `HINCRBY key field d` adds in Go `int` arithmetic: it replies and stores
`wrapInt64 (v + d)`, with no check for overflow. -/
theorem handleHINCRBY_wraps {keyFunc : KeyFunc} {name k f tok key : Bytes} {rest : List Bytes} {keys : Keys}
    {d v : ℤ} {m : Machine} {r : ℕ} {H : GoMap Scalar}
    (hq : m.Quiet) (hk : keyFunc (name :: k :: f :: tok :: rest) = .ok keys)
    (hkey : keys.writeKeys.head? = some key) (hname : equalFold name "hincrbyfloat" = false)
    (hd : atoi tok = some d) (hl : m.server.keyLocks.get key = some ⟨false, 0⟩)
    (hv : m.server.store.get key = some (.ref r)) (hh : m.server.heap.getD r .other = .hash H)
    (hf : (H.get f).getD (.int 0) = .int v) :
    (handleHINCRBY keyFunc (name :: k :: f :: tok :: rest)).Returns m fun reply m' =>
      reply = .ok (fmtInteger (wrapInt64 (v + d))) ∧
        m'.server.objectAt key = some (.hash (H.set f (.int (wrapInt64 (v + d))))) := by
  obtain ⟨ks, hwk⟩ := List.head?_eq_some_iff.1 hkey
  simp only [handleHINCRBY, hk, hwk, index, List.get?_cons_zero, List.get?_cons_succ, hname,
    parseIncrement, hd, keyExists, keyLock, withDefer, write, setValue, keyUnlock, call_bind, pure_bind,
    pure_eq, bind_assoc, Bool.false_eq_true, if_false]
  refine Returns.keyExists fun tr => ?_
  simp only [hl, Option.isSome_some, Bool.not_true, if_false, Bool.false_eq_true, pure_bind]
  refine Returns.keyLock hq.ctxDone hl rfl fun tr => Returns.getHash (hq.withLocks _ tr) hv hh fun s tr hs => ?_
  simp only [hf, incrementField, if_false, Bool.false_eq_true, pure_bind]
  refine Returns.write fun tr => ?_
  obtain ⟨lfu, lru, rfl, hlfu, hlru⟩ := hs
  refine Returns.setValue ⟨hq.ctxDone, hq.overMemory, hlfu, hlru⟩ fun s tr hs => ?_
  have hlk : s.keyLocks.get key = some RWMutex.locked := by simp [hs.keyLocks, Server.stored]
  refine Returns.keyUnlock hlk rfl fun tr => Returns.pure ⟨rfl, ?_⟩
  simp [Server.objectAt, hs.store, hs.heap, Server.stored, List.getD_eq_getElem?_getD,
    lt_length_of_getD hh Obj.noConfusion]

theorem hincrby_adds_to_field :
    (handleHINCRBY firstWriteKey [ascii "HINCRBY", ascii "h", ascii "a", ascii "3"]).Returns
      twoFieldHash fun reply m' =>
        reply = .ok (fmtInteger (wrapInt64 (1 + 3))) ∧
          m'.server.objectAt (ascii "h") = some (.hash (twoFields.set (ascii "a") (.int (wrapInt64 (1 + 3))))) :=
  handleHINCRBY_wraps (r := 0) ⟨rfl, rfl, rfl, rfl⟩ rfl rfl (by decide) (by decide) (by decide)
    (by decide) rfl (by decide)

/-- `HINCRBY h f 9223372036854775807` on a keyspace without `h`, then `HINCRBY h f 1`. -/
def hincrbyPastMax : Prog Reply := do
  let _ ← handleHINCRBY firstWriteKey [ascii "HINCRBY", ascii "h", ascii "f", ascii "9223372036854775807"]
  handleHINCRBY firstWriteKey [ascii "HINCRBY", ascii "h", ascii "f", ascii "1"]

theorem hincrby_past_max_wraps :
    (hincrbyPastMax.run emptyUnlimited).result = .ok (.ok (ascii ":-9223372036854775808\r\n")) ∧
      (hincrbyPastMax.run emptyUnlimited).machine.server.objectAt (ascii "h") =
        some (.hash [(ascii "f", .int (-2 ^ 63))]) := by
  decide

/-! ### `SADD` -/

/-- `SADD` on an existing set changes it in place and never calls `SetValue`: on a quiet machine,
with the key's lock free, it adds the new members and replies their number, and the change
count stays where it was. -/
theorem handleSADD_in_place {keyFunc : KeyFunc} {name k key : Bytes} {elems : List Bytes} {keys : Keys}
    {m : Machine} {r : ℕ} {S : List Bytes}
    (hq : m.Quiet) (hk : keyFunc (name :: k :: elems) = .ok keys)
    (hkey : keys.writeKeys.head? = some key) (hl : m.server.keyLocks.get key = some ⟨false, 0⟩)
    (hv : m.server.store.get key = some (.ref r)) (hh : m.server.heap.getD r .other = .set S) :
    (handleSADD keyFunc (name :: k :: elems)).Returns m fun reply m' =>
      reply = .ok (fmtCount (GoSet.add S elems).2) ∧
        m'.server.objectAt key = some (.set (GoSet.add S elems).1) ∧
        m'.server.changeCount = m.server.changeCount := by
  obtain ⟨ks, hwk⟩ := List.head?_eq_some_iff.1 hkey
  simp only [handleSADD, hk, hwk, index, List.get?_cons_zero, sliceFrom, List.length_cons,
    Nat.le_add_left, if_true, List.drop_succ_cons, List.drop_zero, keyExists, keyLock, withDefer, write,
    keyUnlock, call_bind, pure_bind, pure_eq, bind_assoc]
  refine Returns.keyExists fun tr => ?_
  simp only [hl, Option.isSome_some, Bool.not_true, if_false, Bool.false_eq_true, pure_bind]
  refine Returns.keyLock hq.ctxDone hl rfl fun tr => Returns.getSet (hq.withLocks _ tr) hv hh fun s tr hs => ?_
  refine Returns.write fun tr => ?_
  have hlk : s.keyLocks.get key = some RWMutex.locked := by simp [hs.keyLocks]
  refine Returns.keyUnlock hlk rfl fun tr => Returns.pure ⟨rfl, ?_, hs.changeCount⟩
  simp [Server.objectAt, hs.store, hs.heap, hv, List.getD_eq_getElem?_getD,
    lt_length_of_getD hh Obj.noConfusion]

/-- `SADD s x`, then `SADD s y`. -/
def saddTwice : Prog (Reply × Reply) := do
  let a ← handleSADD firstWriteKey [ascii "SADD", ascii "s", ascii "x"]
  let b ← handleSADD firstWriteKey [ascii "SADD", ascii "s", ascii "y"]
  return (a, b)

/-- **Two `SADD`s that each add a member count one change**: the first creates the set and
stores it with `SetValue`, the second adds to it in place (`handleSADD_in_place`). -/
theorem sadd_twice_counts_once :
    (saddTwice.run emptyUnlimited).result = .ok (.ok (ascii ":1\r\n"), .ok (ascii ":1\r\n")) ∧
      (saddTwice.run emptyUnlimited).machine.server.changeCount = 1 := by
  let first := handleSADD firstWriteKey [ascii "SADD", ascii "s", ascii "x"]
  have h₁ : first.run emptyUnlimited = .ok (.ok (ascii ":1\r\n")) (first.run emptyUnlimited).machine := rfl
  obtain ⟨_, m', h₂, rfl, -, hcount⟩ := @handleSADD_in_place firstWriteKey (ascii "SADD") (ascii "s")
    (ascii "s") [ascii "y"] _ (first.run emptyUnlimited).machine 0 [ascii "x"] ⟨rfl, rfl, rfl, rfl⟩ rfl rfl
    (by decide) (by decide) (by decide)
  have h : saddTwice.run emptyUnlimited =
      .ok (.ok (ascii ":1\r\n"), .ok (fmtCount (GoSet.add [ascii "x"] [ascii "y"]).2)) m' := by
    simp only [saddTwice, run_bind, Op.run_bind]
    rw [show handleSADD firstWriteKey [ascii "SADD", ascii "s", ascii "x"] = first from rfl, h₁]
    simp only [h₂]
    rfl
  rw [h]
  exact ⟨rfl, hcount.trans rfl⟩

end EchoVault
