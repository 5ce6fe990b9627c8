/-
**The hash and set handlers keep references apart.**

Every hash and set handler passes the reference monitor of `Keyspace.Refs` with its own write
keys.  `HSET`, `HINCRBY` and `HDEL` store back the reference they read from their key; `SADD`,
`HSET`, `HINCRBY`, `SMOVE` and the `STORE` variants store, at a write key, a reference they have
just allocated; `SADD`, `SREM`, `SPOP`, `SMOVE`, `HSET`, `HINCRBY` and `HDEL` write only objects
read from their write keys; and the readers store and write nothing.  So every run of a handler,
and every interleaving of two, keeps references apart, and a run changes the object of no key
outside the handler's write keys, unless it evicts the key.  References stay apart in every
machine the server reaches from a keyspace without keys (`Reachable`).

Main definitions:

* `EchoVault.RefSafe` — the reference monitor accepts every path of a program;
* `EchoVault.writeKeysOf` — the write keys of a command;
* `EchoVault.refHandlers` — the hash and set handlers;
* `EchoVault.Reachable` — the machines reached from a keyspace without keys by runs of these
  handlers, one at a time or two interleaved.

Main results:

* `EchoVault.refHandlers_refSafe` — every hash and set handler passes the monitor with its write
  keys;
* `EchoVault.refHandlers_interleaving_refsOK` — **two hash or set handlers interleaved keep
  references apart**;
* `EchoVault.refHandlers_objectAt_outside` — **a run of a hash or set handler changes the object
  of no key outside its write keys**, unless it evicts the key;
* `EchoVault.Reachable.refsOK` — **in every reachable machine no two keys share an object**.
-/

import EchoVault.Handler.Set
import EchoVault.Handler.Hash
import EchoVault.Keyspace.Refs

set_option relaxedAutoImplicit false
set_option autoImplicit false

namespace EchoVault

open Prog

/-! ### Paths the reference monitor accepts -/

/-- Along every path of `p` from the log `L`, the reference monitor with write keys `W` accepts
every call. -/
def RefSafe {α : Type} (W : List Bytes) (L : RefLog) (p : Prog α) : Prop :=
  p.wpR (refStep W) L fun _ _ => True

namespace RefSafe

variable {α β : Type} {W : List Bytes} {L : RefLog}

theorem pure (a : α) : RefSafe W L (Prog.pure a) := trivial

/-- A part safe from every log, followed by parts safe from every log. -/
theorem bind_all {p : Prog β} {f : β → Prog α} (hp : ∀ L, RefSafe W L p)
    (hf : ∀ b L, RefSafe W L (f b)) : RefSafe W L (p >>= f) := by
  rw [RefSafe, wpR_bind]
  exact wpR_mono (fun L' b _ => hf b L') (hp L)

/-- A call that leaves the log alone: every call but `GetValue`, `SetValue`, `alloc` and
`write`. -/
theorem call_then {c : Call} {f : c.Result → Prog α} (hc : ∀ r, refStep W L c r = some L)
    (hf : ∀ r, RefSafe W L (f r)) : RefSafe W L (.call c Prog.pure >>= f) := fun r =>
  ⟨L, hc r, hf r⟩

theorem panic_bind (msg : Bytes) (f : β → Prog α) : RefSafe W L (panic msg >>= f) := fun r => r.elim

theorem index_bind {xs : List Bytes} {i : ℕ} {f : Bytes → Prog α}
    (hf : ∀ x, xs[i]? = some x → RefSafe W L (f x)) : RefSafe W L (index xs i >>= f) := by
  unfold index
  split
  · rename_i x hx
    exact hf x (by rwa [← List.get?_eq_getElem?])
  · exact panic_bind _ f

theorem sliceFrom_bind {xs : List Bytes} {i : ℕ} {f : List Bytes → Prog α}
    (hf : RefSafe W L (f (xs.drop i))) : RefSafe W L (sliceFrom xs i >>= f) := by
  unfold sliceFrom
  split
  · exact hf
  · exact panic_bind _ f

theorem index_safe (xs : List Bytes) (i : ℕ) : RefSafe W L (index xs i) := by
  unfold index
  split
  exacts [pure _, fun r => r.elim]

theorem sliceFrom_safe (xs : List Bytes) (i : ℕ) : RefSafe W L (sliceFrom xs i) := by
  unfold sliceFrom
  split
  exacts [pure _, fun r => r.elim]

theorem withDefer {p : Prog α} {d : Prog Unit} (hp : RefSafe W L p) (hd : ∀ L, RefSafe W L d) :
    RefSafe W L (Prog.withDefer d p) := by
  rw [RefSafe, Prog.withDefer, wpR_bind]
  exact wpR_mono (fun L' a _ => bind_all hd fun _ _ => pure a) hp

/-- `GetValue(key).(map[string]interface{})` adds the reference it read to the log. -/
theorem getHash_bind {key : Bytes} {f : Option (ℕ × GoMap Scalar) → Prog α}
    (hnone : ∀ L, RefSafe W L (f none))
    (hsome : ∀ x h, RefSafe W ⟨L.fresh, (key, x) :: L.read⟩ (f (some (x, h)))) :
    RefSafe W L (getHash key >>= f) := by
  rw [getHash, Prog.bind_assoc]
  refine fun v => ⟨_, rfl, ?_⟩
  rcases v with _ | x | _
  · exact hnone _
  · refine fun o => ⟨_, rfl, ?_⟩
    cases o
    exacts [hsome x _, hnone _, hnone _]
  · exact hnone _

/-- `GetValue(key).(*Set)` adds the reference it read to the log. -/
theorem getSet_bind {key : Bytes} {f : Option (ℕ × List Bytes) → Prog α}
    (hnone : ∀ L, RefSafe W L (f none))
    (hsome : ∀ x s, RefSafe W ⟨L.fresh, (key, x) :: L.read⟩ (f (some (x, s)))) :
    RefSafe W L (getSet key >>= f) := by
  rw [getSet, Prog.bind_assoc]
  refine fun v => ⟨_, rfl, ?_⟩
  rcases v with _ | x | _
  · exact hnone _
  · refine fun o => ⟨_, rfl, ?_⟩
    cases o
    exacts [hnone _, hsome x _, hnone _]
  · exact hnone _

/-- `alloc` adds a fresh reference to the log. -/
theorem alloc_bind {o : Obj} {f : ℕ → Prog α} (hf : ∀ n, RefSafe W ⟨n :: L.fresh, L.read⟩ (f n)) :
    RefSafe W L (alloc o >>= f) := fun n => ⟨_, rfl, hf n⟩

/-- A `write` of an object allocated by the path, or read from a write key. -/
theorem write_bind {x : ℕ} {o : Obj} {f : Unit → Prog α} (hw : L.MayWrite W x)
    (hf : RefSafe W L (f ())) : RefSafe W L (write x o >>= f) := fun _ => ⟨L, if_pos hw, hf⟩

/-- `SetValue(key, x)` at a write key, of a reference read from `key` or fresh: if it stored,
`x` is `key`'s afterwards. -/
theorem setValue_bind {key : Bytes} {x : ℕ} {f : Except Bytes Unit → Prog α} (hk : key ∈ W)
    (hx : (key, x) ∈ L.read ∨ x ∈ L.fresh) (herr : ∀ e, RefSafe W L (f (.error e)))
    (hok : ∀ L', (key, x) ∈ L'.read → (∀ p ∈ L.read, p ∈ L'.read) → RefSafe W L' (f (.ok ()))) :
    RefSafe W L (setValue key (.ref x) >>= f) := by
  intro r
  by_cases hr : (key, x) ∈ L.read
  · refine ⟨L, if_pos ⟨hk, hr⟩, ?_⟩
    rcases r with e | ⟨⟩
    exacts [herr e, hok L hr fun _ => id]
  · refine ⟨_, (if_neg fun h => hr h.2).trans (if_pos ⟨hk, hx.resolve_left hr⟩), ?_⟩
    rcases r with e | ⟨⟩
    exacts [herr e, hok _ (List.mem_cons_self _ _) fun _ => List.mem_cons_of_mem _]

end RefSafe

/-! ### The pieces store and write nothing -/

section Pieces

open RefSafe

variable {W : List Bytes}

theorem runlockAll_refSafe (locks : GoMap Bool) (L : RefLog) : RefSafe W L (runlockAll locks) := by
  induction locks generalizing L with
  | nil => exact pure _
  | cons e locks ih =>
      rw [runlockAll]
      split
      · exact call_then (fun _ => rfl) fun _ => ih L
      · exact bind_all (fun _ => pure ()) fun _ => ih

theorem withLocks_refSafe {body : Prog (GoMap Bool × Reply)} (L : RefLog)
    (h : ∀ L, RefSafe W L body) : RefSafe W L (withLocks body) :=
  bind_all h fun x _ => bind_all (runlockAll_refSafe x.1) fun _ _ => pure _

theorem rlockKeys_refSafe (missing : Option Reply) (stopOnError : Bool) (keys : List Bytes)
    (locks : GoMap Bool) (L : RefLog) : RefSafe W L (rlockKeys missing stopOnError keys locks) := by
  induction keys generalizing locks with
  | nil => exact pure _
  | cons key keys ih =>
      refine call_then (fun _ => rfl) fun (b : Bool) => ?_
      cases b
      · cases missing
        exacts [ih locks, pure _]
      · refine call_then (fun _ => rfl) fun r => ?_
        rcases r with _ | _
        · cases stopOnError
          exacts [ih locks, pure _]
        · exact ih _

theorem setsOfLocks_refSafe (checkLocked : Bool) (locks : GoMap Bool) (L : RefLog) :
    RefSafe W L (setsOfLocks checkLocked locks) := by
  induction locks generalizing L with
  | nil => exact pure _
  | cons e locks ih =>
      unfold setsOfLocks
      split
      · exact ih L
      · exact getSet_bind (fun _ => pure _) fun _ _ => bind_all ih fun r _ => by
          cases r <;> exact pure _

theorem setsOf_refSafe (keys : List Bytes) (L : RefLog) : RefSafe W L (setsOf keys) := by
  induction keys generalizing L with
  | nil => exact pure _
  | cons key keys ih => exact getSet_bind ih fun _ _ => bind_all ih fun _ _ => pure _

/-- `set.Pop` draws with `rand.Intn` only: what follows it sees the log it started from. -/
theorem popMembers_bind {α : Type} {L : RefLog} {f : List Bytes × List Bytes → Prog α}
    (hf : ∀ a, RefSafe W L (f a)) (n : ℕ) (s : List Bytes) :
    RefSafe W L (GoSet.popMembers n s >>= f) := by
  induction n generalizing s f with
  | zero => exact hf _
  | succ n ih =>
      rcases s with _ | ⟨x, s⟩
      · exact hf _
      · rw [GoSet.popMembers, Prog.bind_assoc]
        refine call_then (fun _ => rfl) fun _ => ?_
        rw [Prog.bind_assoc]
        exact ih (fun _ => hf _) _

theorem randomMembers_refSafe (count : ℤ) (s : List Bytes) (L : RefLog) :
    RefSafe W L (GoSet.randomMembers count s) := by
  unfold GoSet.randomMembers
  split
  · exact popMembers_bind (fun _ => pure _) _ _
  · induction count.natAbs generalizing L with
    | zero => exact pure _
    | succ n ih => exact call_then (fun _ => rfl) fun _ => bind_all ih fun _ _ => pure _

theorem pluckFields_refSafe (positive : Bool) (n : ℕ) (fields : List Bytes) (L : RefLog) :
    RefSafe W L (pluckFields positive n fields) := by
  induction n generalizing fields L with
  | zero => exact pure _
  | succ n ih =>
      exact call_then (fun _ => rfl) fun _ => index_bind fun _ _ => bind_all (ih _) fun _ _ => pure _

theorem countArg_refSafe (command : List Bytes) (L : RefLog) : RefSafe W L (countArg command) := by
  unfold countArg
  split
  · exact index_bind fun tok _ => by split <;> exact pure _
  · exact pure _

/-- `Move` writes both sets, which the path may write. -/
theorem moveMember_refSafe {L : RefLog} {rs rd : ℕ} (hs : L.MayWrite W rs) (hd : L.MayWrite W rd)
    (source destination : List Bytes) (member : Bytes) :
    RefSafe W L (moveMember rs source rd destination member) := by
  unfold moveMember
  split
  exact write_bind hs (write_bind hd (pure _))

/-- The tail of `SDIFFSTORE` and `SINTERSTORE` stores a fresh reference at a write key. -/
theorem storeSet_refSafe {L : RefLog} {destination : Bytes} {r : ℕ} (hk : destination ∈ W)
    (hr : r ∈ L.fresh) (res : Bytes) : RefSafe W L (storeSet destination r res) := by
  refine call_then (fun _ => rfl) fun (b : Bool) => ?_
  dsimp only
  split <;> refine call_then (fun _ => rfl) fun r => ?_ <;> rcases r with e | _ <;>
    first
    | exact pure _
    | exact setValue_bind hk (.inr hr) (fun _ => pure _) fun _ _ _ =>
        call_then (fun _ => rfl) fun _ => pure _

end Pieces

/-! ### The handlers -/

/-- The write keys of a command, none when its key extraction fails. -/
def writeKeysOf (keyFunc : KeyFunc) (command : List Bytes) : List Bytes :=
  match keyFunc command with
  | .ok keys => keys.writeKeys
  | .error _ => []

section Handlers

open RefSafe

variable (keyFunc : KeyFunc) (command : List Bytes) (L : RefLog)

/-- The deferred unlock of a handler. -/
theorem unlock_refSafe {W : List Bytes} {key : Bytes} (L : RefLog) : RefSafe W L (keyUnlock key) :=
  fun _ => ⟨L, rfl, trivial⟩

theorem runlock_refSafe {W : List Bytes} {key : Bytes} (L : RefLog) : RefSafe W L (keyRUnlock key) :=
  fun _ => ⟨L, rfl, trivial⟩

/-- `HSET` stores back the reference it read, or a fresh one. -/
theorem handleHSET_refSafe : RefSafe (writeKeysOf keyFunc command) L (handleHSET keyFunc command) := by
  unfold handleHSET writeKeysOf
  cases keyFunc command with
  | error e => exact pure _
  | ok keys =>
      dsimp only
      refine index_bind fun key hkey => sliceFrom_bind ?_
      have hk : key ∈ keys.writeKeys := List.getElem?_mem hkey
      split
      · exact pure _
      refine bind_all (fun _ => pure ()) fun _ L => ?_
      refine call_then (fun _ => rfl) fun (b : Bool) => ?_
      cases b <;> refine call_then (fun _ => rfl) fun r => ?_ <;> rcases r with e | _
      · exact pure _
      · exact withDefer (alloc_bind fun n => setValue_bind hk (.inr (List.mem_cons_self _ _))
          (fun _ => pure _) fun _ _ _ => pure _) unlock_refSafe
      · exact pure _
      · refine withDefer (getHash_bind (fun _ => pure _) fun x h => index_bind fun _ _ => ?_)
          unlock_refSafe
        exact write_bind (.inr ⟨key, hk, List.mem_cons_self _ _⟩)
          (setValue_bind hk (.inl (List.mem_cons_self _ _)) (fun _ => pure _) fun _ _ _ => pure _)

/-- `HINCRBY` stores back the reference it read, or a fresh one. -/
theorem handleHINCRBY_refSafe :
    RefSafe (writeKeysOf keyFunc command) L (handleHINCRBY keyFunc command) := by
  unfold handleHINCRBY writeKeysOf
  cases keyFunc command with
  | error e => exact pure _
  | ok keys =>
      dsimp only
      refine index_bind fun key hkey => index_bind fun _ _ => index_bind fun _ _ =>
        index_bind fun _ _ => ?_
      have hk : key ∈ keys.writeKeys := List.getElem?_mem hkey
      split
      · exact pure _
      refine call_then (fun _ => rfl) fun (b : Bool) => ?_
      cases b <;> refine call_then (fun _ => rfl) fun r => ?_ <;> rcases r with e | _
      · exact pure _
      · exact withDefer (alloc_bind fun n => setValue_bind hk (.inr (List.mem_cons_self _ _))
          (fun _ => pure _) fun _ _ _ => pure _) unlock_refSafe
      · exact pure _
      · refine withDefer (getHash_bind (fun _ => pure _) fun x h => ?_) unlock_refSafe
        dsimp only
        split
        · exact pure _
        · exact write_bind (.inr ⟨key, hk, List.mem_cons_self _ _⟩)
            (setValue_bind hk (.inl (List.mem_cons_self _ _)) (fun _ => pure _) fun _ _ _ => pure _)

/-- `HDEL` stores back the reference it read. -/
theorem handleHDEL_refSafe : RefSafe (writeKeysOf keyFunc command) L (handleHDEL keyFunc command) := by
  unfold handleHDEL writeKeysOf
  cases keyFunc command with
  | error e => exact pure _
  | ok keys =>
      dsimp only
      refine index_bind fun key hkey => sliceFrom_bind (call_then (fun _ => rfl) fun (b : Bool) => ?_)
      have hk : key ∈ keys.writeKeys := List.getElem?_mem hkey
      split
      · exact pure _
      refine bind_all (fun _ => pure ()) fun _ L => call_then (fun _ => rfl) fun r => ?_
      rcases r with e | _
      · exact pure _
      refine withDefer (getHash_bind (fun _ => pure _) fun x h => ?_) unlock_refSafe
      exact write_bind (.inr ⟨key, hk, List.mem_cons_self _ _⟩)
        (setValue_bind hk (.inl (List.mem_cons_self _ _)) (fun _ => pure _) fun _ _ _ => pure _)

/-- The hash readers store and write nothing. -/
theorem readHash_refSafe {α : Type} {W : List Bytes} (pre : Prog α) (absent : Bytes)
    (body : α → GoMap Scalar → Reply) (hpre : ∀ L, RefSafe W L pre) :
    RefSafe W L (readHash keyFunc command pre absent body) := by
  unfold readHash
  split
  · exact pure _
  refine index_bind fun key _ => bind_all hpre fun _ L => call_then (fun _ => rfl) fun (b : Bool) => ?_
  dsimp only
  split
  · exact pure _
  refine bind_all (fun _ => pure ()) fun _ L => call_then (fun _ => rfl) fun r => ?_
  rcases r with e | _
  · exact pure _
  · exact withDefer (getHash_bind (fun _ => pure _) fun _ _ => pure _) runlock_refSafe

theorem handleHRANDFIELD_refSafe {W : List Bytes} : RefSafe W L (handleHRANDFIELD keyFunc command) := by
  unfold handleHRANDFIELD
  split
  · exact pure _
  refine index_bind fun key _ => bind_all ?_ fun r L => ?_
  · intro L
    unfold hrandfieldCount
    split
    · exact index_bind fun _ _ => by split <;> exact pure _
    · exact pure _
  rcases r with _ | _
  · exact pure _
  refine bind_all ?_ fun r L => ?_
  · intro L
    unfold hrandfieldWithValues
    split
    · exact index_bind fun _ _ => by split <;> exact pure _
    · exact pure _
  rcases r with _ | _
  · exact pure _
  refine call_then (fun _ => rfl) fun (b : Bool) => ?_
  dsimp only
  split
  · exact pure _
  refine bind_all (fun _ => pure ()) fun _ L => call_then (fun _ => rfl) fun r => ?_
  rcases r with e | _
  · exact pure _
  refine withDefer (getHash_bind (fun _ => pure _) fun _ _ => ?_) runlock_refSafe
  dsimp only
  split
  · exact pure _
  · exact bind_all (fun _ => pure ()) fun _ _ => bind_all (pluckFields_refSafe _ _ _) fun _ _ => pure _

/-- `SADD` writes the set it read from its key, or stores a fresh one there. -/
theorem handleSADD_refSafe : RefSafe (writeKeysOf keyFunc command) L (handleSADD keyFunc command) := by
  unfold handleSADD writeKeysOf
  cases keyFunc command with
  | error e => exact pure _
  | ok keys =>
      dsimp only
      refine index_bind fun key hkey => sliceFrom_bind (call_then (fun _ => rfl) fun (b : Bool) => ?_)
      have hk : key ∈ keys.writeKeys := List.getElem?_mem hkey
      split
      · refine call_then (fun _ => rfl) fun r => ?_
        rcases r with e | _
        · exact pure _
        · exact alloc_bind fun n => setValue_bind hk (.inr (List.mem_cons_self _ _)) (fun _ => pure _)
            fun _ _ _ => call_then (fun _ => rfl) fun _ => pure _
      · refine bind_all (fun _ => pure ()) fun _ L => call_then (fun _ => rfl) fun r => ?_
        rcases r with e | _
        · exact pure _
        refine withDefer (getSet_bind (fun _ => pure _) fun x s => ?_) unlock_refSafe
        dsimp only
        exact write_bind (.inr ⟨key, hk, List.mem_cons_self _ _⟩) (pure _)

/-- The single-key set readers store and write nothing. -/
theorem readSet_refSafe {α : Type} {W : List Bytes} (pre : Prog (Except Bytes α)) (write : Bool)
    (absent : Bytes) (notASetMsg : Bytes → Bytes) (body : α → List Bytes → Prog Reply)
    (hpre : ∀ L, RefSafe W L pre) (hbody : ∀ a set L, RefSafe W L (body a set)) :
    RefSafe W L (readSet keyFunc command pre write absent notASetMsg body) := by
  unfold readSet
  split
  · exact pure _
  refine index_bind fun key _ => bind_all hpre fun r L => ?_
  rcases r with e | a
  · exact pure _
  refine call_then (fun _ => rfl) fun (b : Bool) => ?_
  dsimp only
  split
  · exact pure _
  refine bind_all (fun _ => pure ()) fun _ L => ?_
  cases write <;> refine call_then (fun _ => rfl) fun r => ?_ <;> rcases r with e | _
  · exact pure _
  · exact withDefer (getSet_bind (fun _ => pure _) fun _ _ => hbody _ _ _) runlock_refSafe
  · exact pure _
  · exact withDefer (getSet_bind (fun _ => pure _) fun _ _ => hbody _ _ _) unlock_refSafe

theorem handleSMISMEMBER_refSafe {W : List Bytes} : RefSafe W L (handleSMISMEMBER keyFunc command) := by
  unfold handleSMISMEMBER
  split
  · exact pure _
  refine index_bind fun key _ => sliceFrom_bind (call_then (fun _ => rfl) fun (b : Bool) => ?_)
  dsimp only
  split
  · exact pure _
  refine bind_all (fun _ => pure ()) fun _ L => call_then (fun _ => rfl) fun r => ?_
  rcases r with e | _
  · exact pure _
  · exact withDefer (getSet_bind (fun _ => pure _) fun _ _ => pure _) runlock_refSafe

/-- `SPOP` writes the set it read from its key. -/
theorem handleSPOP_refSafe : RefSafe (writeKeysOf keyFunc command) L (handleSPOP keyFunc command) := by
  unfold handleSPOP writeKeysOf
  cases keyFunc command with
  | error e => exact pure _
  | ok keys =>
      dsimp only
      refine index_bind fun key hkey => bind_all (countArg_refSafe command) fun r L => ?_
      have hk : key ∈ keys.writeKeys := List.getElem?_mem hkey
      rcases r with e | count
      · exact pure _
      refine call_then (fun _ => rfl) fun (b : Bool) => ?_
      dsimp only
      split
      · exact pure _
      refine bind_all (fun _ => pure ()) fun _ L => call_then (fun _ => rfl) fun r => ?_
      rcases r with e | _
      · exact pure _
      refine withDefer (getSet_bind (fun _ => pure _) fun x s => popMembers_bind (fun ⟨_, _⟩ => ?_) _ _)
        unlock_refSafe
      exact write_bind (.inr ⟨key, hk, List.mem_cons_self _ _⟩) (pure _)

/-- `SREM` writes the set it read from its key. -/
theorem handleSREM_refSafe : RefSafe (writeKeysOf keyFunc command) L (handleSREM keyFunc command) := by
  unfold handleSREM writeKeysOf
  cases keyFunc command with
  | error e => exact pure _
  | ok keys =>
      dsimp only
      refine index_bind fun key hkey => sliceFrom_bind (call_then (fun _ => rfl) fun (b : Bool) => ?_)
      have hk : key ∈ keys.writeKeys := List.getElem?_mem hkey
      split
      · exact pure _
      refine bind_all (fun _ => pure ()) fun _ L => call_then (fun _ => rfl) fun r => ?_
      rcases r with e | _
      · exact pure _
      refine withDefer (getSet_bind (fun _ => pure _) fun x s => ?_) unlock_refSafe
      dsimp only
      exact write_bind (.inr ⟨key, hk, List.mem_cons_self _ _⟩) (pure _)

/-- **`SMOVE` writes the two sets of its write keys**: the source it read, and the destination
it read or just stored. -/
theorem handleSMOVE_refSafe : RefSafe (writeKeysOf keyFunc command) L (handleSMOVE keyFunc command) := by
  unfold handleSMOVE writeKeysOf
  cases keyFunc command with
  | error e => exact pure _
  | ok keys =>
      dsimp only
      refine index_bind fun source hs => index_bind fun destination hd => index_bind fun _ _ =>
        call_then (fun _ => rfl) fun (b : Bool) => ?_
      have hks : source ∈ keys.writeKeys := List.getElem?_mem hs
      have hkd : destination ∈ keys.writeKeys := List.getElem?_mem hd
      split
      · exact pure _
      refine bind_all (fun _ => pure ()) fun _ L => call_then (fun _ => rfl) fun r => ?_
      rcases r with e | _
      · exact pure _
      refine withDefer (getSet_bind (fun _ => pure _) fun rs _ =>
        call_then (fun _ => rfl) fun (b : Bool) => ?_) unlock_refSafe
      cases b <;> refine call_then (fun _ => rfl) fun r => ?_ <;> rcases r with e | _
      · exact pure _
      · refine withDefer (alloc_bind fun rd => setValue_bind hkd (.inr (List.mem_cons_self _ _))
          (fun _ => pure _) fun L' hd hsub => ?_) unlock_refSafe
        exact moveMember_refSafe (.inr ⟨source, hks, hsub _ (List.mem_cons_self _ _)⟩)
          (.inr ⟨destination, hkd, hd⟩) _ _ _
      · exact pure _
      · refine withDefer (getSet_bind (fun _ => pure _) fun rd _ => ?_) unlock_refSafe
        exact moveMember_refSafe (.inr ⟨source, hks, List.mem_cons_of_mem _ (List.mem_cons_self _ _)⟩)
          (.inr ⟨destination, hkd, List.mem_cons_self _ _⟩) _ _ _

/-- `SDIFF` and `SDIFFSTORE` read-lock and read, then run `tail`, which here may store at the
destination `pre` read. -/
theorem diffWith_refSafe (setKeys : Keys → Prog (List Bytes)) (pre : Keys → Prog Bytes)
    (tail : Bytes → List Bytes → Prog Reply) (Dest : Keys → Bytes → Prop)
    (hset : ∀ keys L, RefSafe keys.writeKeys L (setKeys keys))
    (hpre : ∀ keys L (f : Bytes → Prog Reply), (∀ d, Dest keys d → ∀ L, RefSafe keys.writeKeys L (f d)) →
      RefSafe keys.writeKeys L (pre keys >>= f))
    (htail : ∀ keys d diff L, Dest keys d → RefSafe keys.writeKeys L (tail d diff)) :
    RefSafe (writeKeysOf keyFunc command) L (diffWith keyFunc command setKeys pre tail) := by
  unfold diffWith writeKeysOf
  cases keyFunc command with
  | error e => exact pure _
  | ok keys =>
      dsimp only
      refine hpre _ _ _ fun d hd L => index_bind fun base _ => call_then (fun _ => rfl) fun (b : Bool) => ?_
      dsimp only
      split
      · exact pure _
      refine bind_all (fun _ => pure ()) fun _ L => call_then (fun _ => rfl) fun r => ?_
      rcases r with e | _
      · exact pure _
      refine withDefer (getSet_bind (fun _ => pure _) fun _ _ => ?_) runlock_refSafe
      refine withLocks_refSafe _ fun L => sliceFrom_bind (bind_all (rlockKeys_refSafe _ _ _ _) fun _ L => ?_)
      exact bind_all (hset keys) fun sk _ => bind_all (setsOf_refSafe sk) fun _ _ =>
        bind_all (fun L => htail keys d _ L hd) fun _ _ => pure _

/-- `SINTER`, `SINTERCARD` and `SINTERSTORE` read-lock and read, then run `tail`. -/
theorem interWith_refSafe (missing : Bytes) (tail : Keys → List (List Bytes) → Prog Reply)
    (htail : ∀ keys sets L, RefSafe keys.writeKeys L (tail keys sets)) :
    RefSafe (writeKeysOf keyFunc command) L (interWith keyFunc command missing tail) := by
  unfold interWith writeKeysOf
  cases keyFunc command with
  | error e => exact pure _
  | ok keys =>
      dsimp only
      refine withLocks_refSafe _ fun L => bind_all (rlockKeys_refSafe _ _ _ _) fun ⟨locks, early⟩ L => ?_
      rcases early with _ | r
      · refine bind_all (setsOfLocks_refSafe false locks) fun sets L => ?_
        rcases sets with e | sets
        · exact pure _
        · exact bind_all (htail keys sets) fun _ _ => pure _
      · exact pure _

/-- `SUNION` and `SUNIONSTORE` read-lock and read, then run `tail`. -/
theorem unionWith_refSafe (tail : Keys → List Bytes → Prog Reply)
    (htail : ∀ keys u L, RefSafe keys.writeKeys L (tail keys u)) :
    RefSafe (writeKeysOf keyFunc command) L (unionWith keyFunc command tail) := by
  unfold unionWith writeKeysOf
  cases keyFunc command with
  | error e => exact pure _
  | ok keys =>
      dsimp only
      refine withLocks_refSafe _ fun L => bind_all (rlockKeys_refSafe _ _ _ _) fun ⟨locks, early⟩ L => ?_
      rcases early with _ | r
      · refine bind_all (setsOfLocks_refSafe true locks) fun sets L => ?_
        rcases sets with e | sets
        · exact pure _
        · exact bind_all (htail keys _) fun _ _ => pure _
      · exact pure _

theorem handleSDIFFSTORE_refSafe :
    RefSafe (writeKeysOf keyFunc command) L (handleSDIFFSTORE keyFunc command) :=
  diffWith_refSafe _ _ _ _ _ _ (fun keys d => keys.writeKeys[0]? = some d)
    (fun _ _ => sliceFrom_safe _ _) (fun _ _ _ hf => index_bind fun d hd => hf d hd _)
    fun _ _ _ _ hd => alloc_bind fun _ => storeSet_refSafe (List.getElem?_mem hd) (List.mem_cons_self _ _) _

theorem handleSINTERCARD_refSafe :
    RefSafe (writeKeysOf keyFunc command) L (handleSINTERCARD keyFunc command) := by
  unfold handleSINTERCARD
  split
  · exact pure _
  · exact pure _
  · exact interWith_refSafe _ _ _ _ _ fun _ _ _ => by split <;> exact pure _

theorem handleSINTERSTORE_refSafe :
    RefSafe (writeKeysOf keyFunc command) L (handleSINTERSTORE keyFunc command) :=
  interWith_refSafe _ _ _ _ _ fun _ _ _ => alloc_bind fun _ => index_bind fun _ hd =>
    storeSet_refSafe (List.getElem?_mem hd) (List.mem_cons_self _ _) _

theorem handleSUNIONSTORE_refSafe :
    RefSafe (writeKeysOf keyFunc command) L (handleSUNIONSTORE keyFunc command) := by
  refine unionWith_refSafe _ _ _ _ fun _ _ _ => alloc_bind fun r => index_bind fun d hd =>
    call_then (fun _ => rfl) fun (b : Bool) => ?_
  dsimp only
  split <;> refine call_then (fun _ => rfl) fun r => ?_ <;> rcases r with e | _ <;>
    first
    | exact pure _
    | exact withDefer (setValue_bind (List.getElem?_mem hd) (.inr (List.mem_cons_self _ _))
        (fun _ => pure _) fun _ _ _ => pure _) unlock_refSafe

end Handlers

/-! ### Every hash and set handler -/

/-- The handlers of the hash and set modules. -/
def refHandlers : List (KeyFunc → List Bytes → Prog Reply) :=
  [handleHSET, handleHINCRBY, handleHDEL, handleHGET, handleHSTRLEN, handleHVALS, handleHLEN,
    handleHKEYS, handleHGETALL, handleHEXISTS, handleHRANDFIELD, handleSADD, handleSCARD,
    handleSISMEMBER, handleSMEMBERS, handleSMISMEMBER, handleSPOP, handleSRANDMEMBER, handleSREM,
    handleSDIFF, handleSDIFFSTORE, handleSINTER, handleSINTERCARD, handleSINTERSTORE, handleSMOVE,
    handleSUNION, handleSUNIONSTORE]

open RefSafe in
/-- **Every hash and set handler passes the reference monitor with its write keys**, for every
key extraction function, every command and every log it starts from. -/
theorem refHandlers_refSafe (handler : KeyFunc → List Bytes → Prog Reply) (hh : handler ∈ refHandlers)
    (keyFunc : KeyFunc) (command : List Bytes) (L : RefLog) :
    RefSafe (writeKeysOf keyFunc command) L (handler keyFunc command) := by
  simp only [refHandlers, List.mem_cons, List.mem_nil_iff, or_false] at hh
  rcases hh with rfl | rfl | rfl | rfl | rfl | rfl | rfl | rfl | rfl | rfl | rfl | rfl | rfl | rfl |
    rfl | rfl | rfl | rfl | rfl | rfl | rfl | rfl | rfl | rfl | rfl | rfl | rfl
  · exact handleHSET_refSafe keyFunc command L
  · exact handleHINCRBY_refSafe keyFunc command L
  · exact handleHDEL_refSafe keyFunc command L
  · exact readHash_refSafe _ _ _ _ _ _ fun _ => sliceFrom_safe _ _
  · exact readHash_refSafe _ _ _ _ _ _ fun _ => sliceFrom_safe _ _
  · exact readHash_refSafe _ _ _ _ _ _ fun _ => pure _
  · exact readHash_refSafe _ _ _ _ _ _ fun _ => pure _
  · exact readHash_refSafe _ _ _ _ _ _ fun _ => pure _
  · exact readHash_refSafe _ _ _ _ _ _ fun _ => pure _
  · exact readHash_refSafe _ _ _ _ _ _ fun _ => index_safe _ _
  · exact handleHRANDFIELD_refSafe keyFunc command L
  · exact handleSADD_refSafe keyFunc command L
  · exact readSet_refSafe _ _ _ _ _ _ _ _ (fun _ => pure _) fun _ _ _ => pure _
  · exact readSet_refSafe _ _ _ _ _ _ _ _ (fun _ => pure _) fun _ _ _ =>
      index_bind fun _ _ => pure _
  · exact readSet_refSafe _ _ _ _ _ _ _ _ (fun _ => pure _) fun _ _ _ => pure _
  · exact handleSMISMEMBER_refSafe keyFunc command L
  · exact handleSPOP_refSafe keyFunc command L
  · exact readSet_refSafe _ _ _ _ _ _ _ _ (countArg_refSafe command) fun _ _ _ =>
      bind_all (randomMembers_refSafe _ _) fun _ _ => pure _
  · exact handleSREM_refSafe keyFunc command L
  · exact diffWith_refSafe _ _ _ _ _ _ (fun _ _ => True) (fun _ _ => sliceFrom_safe _ _)
      (fun _ _ _ hf => hf [] trivial _) fun _ _ _ _ _ => pure _
  · exact handleSDIFFSTORE_refSafe keyFunc command L
  · exact interWith_refSafe _ _ _ _ _ fun _ _ _ => by split <;> exact pure _
  · exact handleSINTERCARD_refSafe keyFunc command L
  · exact handleSINTERSTORE_refSafe keyFunc command L
  · exact handleSMOVE_refSafe keyFunc command L
  · exact unionWith_refSafe _ _ _ _ fun _ _ _ => pure _
  · exact handleSUNIONSTORE_refSafe keyFunc command L

/-! ### Runs of the handlers -/

/-- Every run of a hash or set handler that returns keeps references apart. -/
theorem refHandlers_run_refsOK (handler : KeyFunc → List Bytes → Prog Reply) (hh : handler ∈ refHandlers)
    {keyFunc : KeyFunc} {command : List Bytes} {m m' : Machine} {reply : Reply} (hm : m.server.RefsOK)
    (hrun : (handler keyFunc command).run m = .ok reply m') : m'.server.RefsOK :=
  refsOK_of_run (refHandlers_refSafe handler hh keyFunc command _) hm hrun

/-- **Two hash or set handlers interleaved keep references apart.**  For every two handlers of
`refHandlers`, with any key extraction functions and commands, from every machine whose
references are apart, every interleaving of their calls in which both return ends with every
reference of the store in the heap and bound to one key only, whatever the keyspace evicted. -/
theorem refHandlers_interleaving_refsOK (handler handler' : KeyFunc → List Bytes → Prog Reply)
    (hh : handler ∈ refHandlers) (hh' : handler' ∈ refHandlers) (keyFunc keyFunc' : KeyFunc)
    (command command' : List Bytes) (m m' : Machine) (reply reply' : Reply) (hm : m.server.RefsOK)
    (hi : Interleaving m (handler keyFunc command) (handler' keyFunc' command') m' reply reply') :
    m'.server.RefsOK :=
  refsOK_of_interleaving (refHandlers_refSafe handler hh keyFunc command _)
    (refHandlers_refSafe handler' hh' keyFunc' command' _) hm hi

/-- `HSET h f v` and `SADD s a` on a keyspace without keys, each past its `KeyExists`, then one
after the other: both create their key and reply `:1`, and references stay apart. -/
theorem hset_sadd_keep_refsOK :
    (Interleaving.runSched [true, false]
        (handleHSET firstWriteKey [ascii "HSET", ascii "h", ascii "f", ascii "v"])
        (handleSADD firstWriteKey [ascii "SADD", ascii "s", ascii "a"])
        emptyUnlimited).result = .ok (.ok (ascii ":1\r\n"), .ok (ascii ":1\r\n")) ∧
      (Interleaving.runSched [true, false]
        (handleHSET firstWriteKey [ascii "HSET", ascii "h", ascii "f", ascii "v"])
        (handleSADD firstWriteKey [ascii "SADD", ascii "s", ascii "a"])
        emptyUnlimited).machine.server.RefsOK :=
  ⟨by decide, refHandlers_interleaving_refsOK handleHSET handleSADD (by simp [refHandlers])
    (by simp [refHandlers]) firstWriteKey firstWriteKey
    [ascii "HSET", ascii "h", ascii "f", ascii "v"] [ascii "SADD", ascii "s", ascii "a"]
    emptyUnlimited _ (.ok (ascii ":1\r\n")) (.ok (ascii ":1\r\n")) (Server.refsOK_empty _)
    (Interleaving.of_runSched _ _ _ _ (by decide))⟩

/-- **A run of a hash or set handler changes the object of no key outside its write keys**,
unless it evicts the key.  For each handler of `refHandlers`, every key extraction function,
every command and every machine whose references are apart, if the handler returns, then every
key that is not one of the command's write keys is bound to the object it was bound to before,
or, evicted, to nothing. -/
theorem refHandlers_objectAt_outside (handler : KeyFunc → List Bytes → Prog Reply)
    (hh : handler ∈ refHandlers) (keyFunc : KeyFunc) (command : List Bytes) (m : Machine)
    (reply : Reply) (hm : m.server.RefsOK)
    (hret : ((handler keyFunc command).run m).result = .ok reply) (k : Bytes)
    (hk : k ∉ writeKeysOf keyFunc command) :
    ((handler keyFunc command).run m).machine.server.objectAt k = m.server.objectAt k ∨
      ((handler keyFunc command).run m).machine.server.store.get k = none :=
  objectAt_of_run (refHandlers_refSafe handler hh keyFunc command _) hm
    (Outcome.eq_ok_of_result hret) hk

/-- A keyspace where `SADD s a` has made the set `s`. -/
def saddS : Machine := ((handleSADD firstWriteKey [ascii "SADD", ascii "s", ascii "a"]).run emptyUnlimited).machine

/-- `HSET h f v` after `SADD s a` leaves the set at `s` as it was. -/
theorem hset_keeps_set_of_s :
    ((handleHSET firstWriteKey [ascii "HSET", ascii "h", ascii "f", ascii "v"]).run saddS).result =
        .ok (.ok (ascii ":1\r\n")) ∧
      (((handleHSET firstWriteKey [ascii "HSET", ascii "h", ascii "f", ascii "v"]).run saddS).machine.server.objectAt
          (ascii "s") = saddS.server.objectAt (ascii "s") ∨
        ((handleHSET firstWriteKey [ascii "HSET", ascii "h", ascii "f", ascii "v"]).run saddS).machine.server.store.get
          (ascii "s") = none) :=
  ⟨by decide, refHandlers_objectAt_outside handleHSET (by simp [refHandlers]) firstWriteKey
    [ascii "HSET", ascii "h", ascii "f", ascii "v"] saddS (.ok (ascii ":1\r\n"))
    (refHandlers_run_refsOK handleSADD (by simp [refHandlers]) (Server.refsOK_empty _)
      (Outcome.eq_ok_of_result (a := .ok (ascii ":1\r\n")) (by decide)))
    (by decide) (ascii "s") (by decide)⟩

/-! ### Reachable machines -/

/-- The machines a server reaches from a keyspace without keys by runs of the hash and set
handlers that return, one at a time or two interleaved, the world changing between runs. -/
inductive Reachable : Machine → Prop
  | empty (config : Config) (env : Env) (trace : List Event) :
      Reachable ⟨Server.empty config, env, trace⟩
  | world {m : Machine} (env : Env) : Reachable m → Reachable { m with env := env }
  | run {m m' : Machine} {handler : KeyFunc → List Bytes → Prog Reply} {keyFunc : KeyFunc}
      {command : List Bytes} {reply : Reply} : Reachable m → handler ∈ refHandlers →
      (handler keyFunc command).run m = .ok reply m' → Reachable m'
  | interleave {m m' : Machine} {handler handler' : KeyFunc → List Bytes → Prog Reply}
      {keyFunc keyFunc' : KeyFunc} {command command' : List Bytes} {reply reply' : Reply} :
      Reachable m → handler ∈ refHandlers → handler' ∈ refHandlers →
      Interleaving m (handler keyFunc command) (handler' keyFunc' command') m' reply reply' →
      Reachable m'

/-- **In every reachable machine no two keys share an object**, and every reference of the
store points into the heap: whatever the hash and set handlers ran, one at a time or two
interleaved, and whatever the keyspace evicted. -/
theorem Reachable.refsOK {m : Machine} (h : Reachable m) : m.server.RefsOK := by
  induction h with
  | empty config => exact Server.refsOK_empty config
  | world _ _ ih => exact ih
  | run _ hh hrun ih => exact refHandlers_run_refsOK _ hh ih hrun
  | interleave _ hh hh' hi ih =>
      exact refsOK_of_interleaving (refHandlers_refSafe _ hh _ _ _) (refHandlers_refSafe _ hh' _ _ _) ih hi

/-- The keyspace after `SADD s a` on a keyspace without keys is reachable, and its references
are apart. -/
theorem saddS_refsOK : Reachable saddS ∧ saddS.server.RefsOK :=
  have h : Reachable saddS := .run (.empty _ _ _) (by simp [refHandlers])
    (Outcome.eq_ok_of_result (a := .ok (ascii ":1\r\n")) (by decide))
  ⟨h, Reachable.refsOK h⟩

end EchoVault
