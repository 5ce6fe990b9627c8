/-
**The per-key locks a handler releases.**

A handler that takes a per-key lock must release it on every path by which it returns; the hash
and set handlers do so with `defer KeyUnlock(key)` right after the lock call.  The monitor
`heldLocks` keeps the locks a path holds: a lock call that returned no error adds its lock,
`KeyUnlock` and `KeyRUnlock` remove one copy of theirs, and an unlock of a lock the path does not
hold breaks the property.  `NetRelease L p` says that started holding `L` and anything else,
every path of `p` ends holding the anything else, up to order: `p` takes only locks it releases,
and releases `L` besides.

The single-key handlers and `SMOVE` release exactly what they take on every path.  The handlers
not covered here are those that leak: `SADD`, `SDIFFSTORE` and `SINTERSTORE` return without
`KeyUnlock` when `SetValue` fails, and the multi-key loops release a key listed twice only once.

Main definitions:

* `EchoVault.heldLocks`, `EchoVault.NetRelease`;
* `EchoVault.releasingHandlers` — the handlers that release what they take.

Main results:

* `EchoVault.NetRelease.bind`, `EchoVault.NetRelease.withDefer` — releases compose along a
  sequence and through `defer`;
* `EchoVault.releasingHandlers_netRelease` — **`HSET`, `HINCRBY`, `HDEL`, `SMOVE` and every
  single-key reader release on every path exactly the per-key locks they take**.
-/

import EchoVault.Handler.Set
import EchoVault.Handler.Hash
import EchoVault.Keyspace.Logic

set_option relaxedAutoImplicit false
set_option autoImplicit false

namespace EchoVault

open Prog
open scoped List

/-! ### The held-locks monitor -/

/-- A per-key lock: the key, and whether it is the write lock. -/
structure KeyLock where
  key : Bytes
  write : Bool
  deriving DecidableEq

/-- The lock a call takes when it returns no error. -/
def Call.acquires : Call → Option KeyLock
  | .keyLock k | .createKeyAndLock k => some ⟨k, true⟩
  | .keyRLock k => some ⟨k, false⟩
  | _ => none

/-- The lock a call releases. -/
def Call.releases : Call → Option KeyLock
  | .keyUnlock k => some ⟨k, true⟩
  | .keyRUnlock k => some ⟨k, false⟩
  | _ => none

/-- The held-locks monitor: a lock call that succeeded adds its lock; an unlock removes one copy
of its lock, and breaks the property when the path does not hold it. -/
def heldLocks : Monitor (List KeyLock) := fun H c ok =>
  match c.acquires, c.releases with
  | some l, _ => some (if ok then l :: H else H)
  | none, some l => if l ∈ H then some (H.erase l) else none
  | none, none => some H

/-- The monitor reads the held locks as a multiset: two orders of the same locks step alike. -/
theorem heldLocks_perm {S S' S₁ : List KeyLock} (c : Call) (b : Bool) (hS : S ~ S')
    (h : heldLocks S c b = some S₁) : ∃ S₁', heldLocks S' c b = some S₁' ∧ S₁ ~ S₁' := by
  unfold heldLocks at h ⊢
  split at h
  · cases h
    exact ⟨_, rfl, by cases b <;> simp [hS]⟩
  · split at h
    · cases h
      exact ⟨_, if_pos (hS.mem_iff.1 ‹_›), hS.erase _⟩
    · cases h
  · cases h
    exact ⟨_, rfl, hS⟩

theorem wp_heldLocks_perm {α : Type} {p : Prog α} {S S' : List KeyLock}
    {post : List KeyLock → α → Prop} (hp : p.wp heldLocks S post) (hS : S ~ S') :
    p.wp heldLocks S' fun T a => ∃ T', T' ~ T ∧ post T' a :=
  wp_simulate (fun S S' => S ~ S') (fun _ _ c b _ hS h => heldLocks_perm c b hS h) hp hS

/-! ### Net releases -/

/-- Started holding `L` and `H`, every path of `p` ends holding `H`, up to order. -/
def NetRelease {α : Type} (L : List KeyLock) (p : Prog α) : Prop :=
  ∀ H, p.wp heldLocks (L ++ H) fun H' _ => H' ~ H

namespace NetRelease

variable {α β : Type} {L L₁ L₂ : List KeyLock}

theorem pure (a : α) : NetRelease [] (Prog.pure a) := fun H => List.Perm.refl H

/-- **Releases compose along a sequence.** -/
theorem bind {p : Prog α} {f : α → Prog β} (hp : NetRelease L₁ p) (hf : ∀ a, NetRelease L₂ (f a)) :
    NetRelease (L₁ ++ L₂) (p >>= f) := by
  intro H
  rw [wp_bind, List.append_assoc]
  exact wp_mono (fun S a hS => wp_mono (fun _ _ ⟨_, hT, hH⟩ => hT.symm.trans hH)
    (wp_heldLocks_perm (hf a H) hS.symm)) (hp (L₂ ++ H))

/-- A part that takes and releases nothing on balance, followed by `f`. -/
theorem bind_free {p : Prog α} {f : α → Prog β} (hp : NetRelease [] p) (hf : ∀ a, NetRelease L (f a)) :
    NetRelease L (p >>= f) :=
  hp.bind hf

theorem call_free {c : Call} {k : c.Result → Prog α} (ha : c.acquires = none) (hr : c.releases = none)
    (hk : ∀ r, NetRelease L (k r)) : NetRelease L (.call c k) := fun H r =>
  ⟨_, by simp [heldLocks, ha, hr], hk r H⟩

/-- A lock call: on success the rest of the path must release the lock too. -/
theorem call_then {c : Call} {f : c.Result → Prog α} (ha : c.acquires = none)
    (hr : c.releases = none) (hf : ∀ r, NetRelease L (f r)) : NetRelease L (.call c Prog.pure >>= f) :=
  call_free ha hr hf

theorem call_acquire {c : Call} {k : c.Result → Prog α} {l : KeyLock} (ha : c.acquires = some l)
    (hk : ∀ r, NetRelease (if c.ok r then l :: L else L) (k r)) : NetRelease L (.call c k) :=
  fun H r => ⟨if c.ok r then l :: (L ++ H) else L ++ H, by simp [heldLocks, ha],
    by cases h : c.ok r <;> simpa [h] using hk r H⟩

theorem call_release {c : Call} {l : KeyLock} (ha : c.acquires = none) (hr : c.releases = some l) :
    NetRelease [l] (.call c Prog.pure) := fun H _ =>
  ⟨H, by simp [heldLocks, ha, hr], List.Perm.refl H⟩

/-- `defer` of the release of a lock taken just before. -/
theorem withDefer {p : Prog α} {d : Prog Unit} {l : KeyLock} (hp : NetRelease [] p)
    (hd : NetRelease [l] d) : NetRelease [l] (Prog.withDefer d p) :=
  bind_free hp fun a => hd.bind fun _ => pure a

theorem bind_except {ε : Type} {p : Prog (Except ε β)} {g : Except ε β → Prog α}
    (hp : NetRelease [] p) (herr : ∀ e, NetRelease L (g (.error e)))
    (hok : ∀ b, NetRelease L (g (.ok b))) : NetRelease L (p >>= g) :=
  bind_free hp fun r => by rcases r with e | b; exacts [herr e, hok b]

theorem bind_option {p : Prog (Option β)} {g : Option β → Prog α} (hp : NetRelease [] p)
    (hnone : NetRelease L (g none)) (hsome : ∀ b, NetRelease L (g (some b))) :
    NetRelease L (p >>= g) :=
  bind_free hp fun r => by rcases r with _ | b; exacts [hnone, hsome b]

theorem index_bind {xs : List Bytes} {i : ℕ} {f : Bytes → Prog α} (hf : ∀ x, NetRelease L (f x)) :
    NetRelease L (index xs i >>= f) := fun H => by
  rw [wp_bind, wp_index]
  exact fun x _ => hf x H

theorem sliceFrom_bind {xs : List Bytes} {i : ℕ} {f : List Bytes → Prog α}
    (hf : ∀ x, NetRelease L (f x)) : NetRelease L (sliceFrom xs i >>= f) := fun H => by
  rw [wp_bind, wp_sliceFrom]
  exact fun _ => hf _ H

theorem index (xs : List Bytes) (i : ℕ) : NetRelease [] (Prog.index xs i) := fun H =>
  (wp_index _ _ _ _).2 fun _ _ => List.Perm.refl H

theorem sliceFrom (xs : List Bytes) (i : ℕ) : NetRelease [] (Prog.sliceFrom xs i) := fun H =>
  (wp_sliceFrom _ _ _ _).2 fun _ => List.Perm.refl H

end NetRelease

/-! ### The pieces take no lock -/

open NetRelease

theorem getHash_netRelease (key : Bytes) : NetRelease [] (getHash key) := by
  refine call_then rfl rfl fun v => ?_
  rcases v with _ | _ | _
  · exact pure none
  · exact call_then rfl rfl fun o => by cases o <;> exact pure _
  · exact pure none

theorem getSet_netRelease (key : Bytes) : NetRelease [] (getSet key) := by
  refine call_then rfl rfl fun v => ?_
  rcases v with _ | _ | _
  · exact pure none
  · exact call_then rfl rfl fun o => by cases o <;> exact pure _
  · exact pure none

theorem popMembers_netRelease (n : ℕ) (s : List Bytes) : NetRelease [] (GoSet.popMembers n s) := by
  induction n generalizing s with
  | zero => exact pure _
  | succ n ih =>
      rcases s with _ | ⟨x, s⟩
      · exact pure _
      · exact call_then rfl rfl fun i => bind_free (ih _) fun ⟨_, _⟩ => pure _

theorem randomMembers_netRelease (count : ℤ) (s : List Bytes) :
    NetRelease [] (GoSet.randomMembers count s) := by
  unfold GoSet.randomMembers
  split
  · exact bind_free (popMembers_netRelease _ _) fun _ => pure _
  · induction count.natAbs with
    | zero => exact pure _
    | succ n ih => exact call_then rfl rfl fun _ => bind_free ih fun _ => pure _

theorem pluckFields_netRelease (positive : Bool) (n : ℕ) (fields : List Bytes) :
    NetRelease [] (pluckFields positive n fields) := by
  induction n generalizing fields with
  | zero => exact pure _
  | succ n ih => exact call_then rfl rfl fun _ => index_bind fun _ => bind_free (ih _) fun _ => pure _

theorem countArg_netRelease (command : List Bytes) : NetRelease [] (countArg command) := by
  unfold countArg
  split
  · exact index_bind fun tok => by split <;> exact pure _
  · exact pure _

/-! ### The handlers -/

/-- `KeyLock`, its error check, and the deferred `KeyUnlock` around `body`. -/
theorem lock_defer {key : Bytes} {body : Prog Reply} (hbody : NetRelease [] body) :
    NetRelease [] (Prog.keyLock key >>= fun r =>
      match r with
      | .error e => Prog.pure (.error e)
      | .ok _ => withDefer (keyUnlock key) body) :=
  call_acquire rfl fun r => by
    rcases r with e | _
    exacts [pure _, withDefer hbody (call_release rfl rfl)]

/-- `KeyRLock`, its error check, and the deferred `KeyRUnlock` around `body`. -/
theorem rlock_defer {key : Bytes} {body : Prog Reply} (hbody : NetRelease [] body) :
    NetRelease [] (Prog.keyRLock key >>= fun r =>
      match r with
      | .error e => Prog.pure (.error e)
      | .ok _ => withDefer (keyRUnlock key) body) :=
  call_acquire rfl fun r => by
    rcases r with e | _
    exacts [pure _, withDefer hbody (call_release rfl rfl)]

/-- `CreateKeyAndLock`, its error check, and the deferred `KeyUnlock` around `body`. -/
theorem create_defer {key : Bytes} {body : Prog Reply} (hbody : NetRelease [] body) :
    NetRelease [] (Prog.createKeyAndLock key >>= fun r =>
      match r with
      | .error e => Prog.pure (.error e)
      | .ok _ => withDefer (keyUnlock key) body) :=
  call_acquire rfl fun r => by
    rcases r with e | _
    exacts [pure _, withDefer hbody (call_release rfl rfl)]

theorem handleHSET_netRelease (keyFunc : KeyFunc) (command : List Bytes) :
    NetRelease [] (handleHSET keyFunc command) := by
  unfold handleHSET
  split
  · exact pure _
  refine index_bind fun key => sliceFrom_bind fun args => ?_
  split
  · exact pure _
  refine call_then rfl rfl fun (b : Bool) => ?_
  cases b
  · exact create_defer (call_then rfl rfl fun _ => call_then rfl rfl fun r => by cases r <;> exact pure _)
  · refine lock_defer (bind_option (getHash_netRelease key) (pure _) fun _ => index_bind fun _ => ?_)
    dsimp only
    exact call_then rfl rfl fun _ => call_then rfl rfl fun r => by cases r <;> exact pure _

theorem handleHINCRBY_netRelease (keyFunc : KeyFunc) (command : List Bytes) :
    NetRelease [] (handleHINCRBY keyFunc command) := by
  unfold handleHINCRBY
  split
  · exact pure _
  refine index_bind fun key => index_bind fun field => index_bind fun tok => index_bind fun inc => ?_
  split
  · exact pure _
  refine call_then rfl rfl fun (b : Bool) => ?_
  cases b
  · exact create_defer (call_then rfl rfl fun _ => call_then rfl rfl fun r => by cases r <;> exact pure _)
  · refine lock_defer (bind_option (getHash_netRelease key) (pure _) fun _ => ?_)
    dsimp only
    split
    · exact pure _
    · exact call_then rfl rfl fun _ => call_then rfl rfl fun r => by cases r <;> exact pure _

theorem handleHDEL_netRelease (keyFunc : KeyFunc) (command : List Bytes) :
    NetRelease [] (handleHDEL keyFunc command) := by
  unfold handleHDEL
  split
  · exact pure _
  refine index_bind fun key => sliceFrom_bind fun fields => call_then rfl rfl fun (b : Bool) => ?_
  dsimp only
  split
  · exact pure _
  refine bind_free (pure _) fun _ =>
    lock_defer (bind_option (getHash_netRelease key) (pure _) fun _ => ?_)
  dsimp only
  exact call_then rfl rfl fun _ => call_then rfl rfl fun r => by cases r <;> exact pure _

theorem readHash_netRelease {α : Type} (keyFunc : KeyFunc) (command : List Bytes) (pre : Prog α)
    (absent : Bytes) (body : α → GoMap Scalar → Reply) (hpre : NetRelease [] pre) :
    NetRelease [] (readHash keyFunc command pre absent body) := by
  unfold readHash
  split
  · exact pure _
  refine index_bind fun key => bind_free hpre fun _ => call_then rfl rfl fun (b : Bool) => ?_
  dsimp only
  split
  · exact pure _
  exact bind_free (pure _) fun _ =>
    rlock_defer (bind_option (getHash_netRelease key) (pure _) fun _ => pure _)

theorem handleHRANDFIELD_netRelease (keyFunc : KeyFunc) (command : List Bytes) :
    NetRelease [] (handleHRANDFIELD keyFunc command) := by
  unfold handleHRANDFIELD
  split
  · exact pure _
  refine index_bind fun key => bind_except ?_ (fun _ => pure _) fun _ => bind_except ?_
    (fun _ => pure _) fun _ => call_then rfl rfl fun (b : Bool) => ?_
  · unfold hrandfieldCount
    split
    · exact index_bind fun _ => by split <;> exact pure _
    · exact pure _
  · unfold hrandfieldWithValues
    split
    · exact index_bind fun _ => by split <;> exact pure _
    · exact pure _
  dsimp only
  split
  · exact pure _
  refine bind_free (pure _) fun _ =>
    rlock_defer (bind_option (getHash_netRelease key) (pure _) fun _ => ?_)
  dsimp only
  split
  · exact pure _
  · exact bind_free (pure _) fun _ => bind_free (pluckFields_netRelease _ _ _) fun _ => pure _

theorem readSet_netRelease {α : Type} (keyFunc : KeyFunc) (command : List Bytes)
    (pre : Prog (Except Bytes α)) (write : Bool) (absent : Bytes) (notASetMsg : Bytes → Bytes)
    (body : α → List Bytes → Prog Reply) (hpre : NetRelease [] pre)
    (hbody : ∀ a set, NetRelease [] (body a set)) :
    NetRelease [] (readSet keyFunc command pre write absent notASetMsg body) := by
  unfold readSet
  split
  · exact pure _
  refine index_bind fun key => bind_except hpre (fun _ => pure _) fun a =>
    call_then rfl rfl fun (b : Bool) => ?_
  dsimp only
  split
  · exact pure _
  refine bind_free (pure _) fun _ => ?_
  cases write
  · exact rlock_defer (bind_option (getSet_netRelease key) (pure _) fun ⟨_, _⟩ => hbody _ _)
  · exact lock_defer (bind_option (getSet_netRelease key) (pure _) fun ⟨_, _⟩ => hbody _ _)

theorem handleSMISMEMBER_netRelease (keyFunc : KeyFunc) (command : List Bytes) :
    NetRelease [] (handleSMISMEMBER keyFunc command) := by
  unfold handleSMISMEMBER
  split
  · exact pure _
  refine index_bind fun key => sliceFrom_bind fun members => call_then rfl rfl fun (b : Bool) => ?_
  dsimp only
  split
  · exact pure _
  exact bind_free (pure _) fun _ =>
    rlock_defer (bind_option (getSet_netRelease key) (pure _) fun _ => pure _)

theorem handleSPOP_netRelease (keyFunc : KeyFunc) (command : List Bytes) :
    NetRelease [] (handleSPOP keyFunc command) := by
  unfold handleSPOP
  split
  · exact pure _
  refine index_bind fun key => bind_except (countArg_netRelease command) (fun _ => pure _) fun _ =>
    call_then rfl rfl fun (b : Bool) => ?_
  dsimp only
  split
  · exact pure _
  exact bind_free (pure _) fun _ => lock_defer (bind_option (getSet_netRelease key) (pure _) fun _ =>
    bind_free (popMembers_netRelease _ _) fun _ => call_then rfl rfl fun _ => pure _)

theorem handleSREM_netRelease (keyFunc : KeyFunc) (command : List Bytes) :
    NetRelease [] (handleSREM keyFunc command) := by
  unfold handleSREM
  split
  · exact pure _
  refine index_bind fun key => sliceFrom_bind fun members => call_then rfl rfl fun (b : Bool) => ?_
  dsimp only
  split
  · exact pure _
  refine bind_free (pure _) fun _ => lock_defer (bind_option (getSet_netRelease key) (pure _) fun _ => ?_)
  dsimp only
  exact call_then rfl rfl fun _ => pure _

/-- `SMOVE` holds its source while it locks or creates its destination, and releases both. -/
theorem handleSMOVE_netRelease (keyFunc : KeyFunc) (command : List Bytes) :
    NetRelease [] (handleSMOVE keyFunc command) := by
  unfold handleSMOVE
  split
  · exact pure _
  refine index_bind fun source => index_bind fun destination => index_bind fun _ =>
    call_then rfl rfl fun (b : Bool) => ?_
  dsimp only
  split
  · exact pure _
  have hmove : ∀ rs s rd d m, NetRelease [] (moveMember rs s rd d m) := fun _ _ _ _ _ => by
    unfold moveMember
    split
    exact call_then rfl rfl fun _ => call_then rfl rfl fun _ => pure _
  refine bind_free (pure _) fun _ => lock_defer (bind_option (getSet_netRelease source) (pure _)
    fun _ => call_then rfl rfl fun (b : Bool) => ?_)
  cases b
  · exact create_defer (call_then rfl rfl fun _ => call_then rfl rfl fun r => by
      cases r
      exacts [pure _, hmove _ _ _ _ _])
  · exact lock_defer (bind_option (getSet_netRelease destination) (pure _) fun _ => hmove _ _ _ _ _)

/-! ### The handlers that release what they take -/

/-- The handlers that release, on every path, exactly the per-key locks they take:
`handleHSET` (`HSET`, `HSETNX`), `handleHINCRBY` (`HINCRBY`, `HINCRBYFLOAT`), `handleHDEL`, the
hash readers, `handleHRANDFIELD`, the single-key set handlers and `handleSMOVE`. -/
def releasingHandlers : List (KeyFunc → List Bytes → Prog Reply) :=
  [handleHSET, handleHINCRBY, handleHDEL, handleHGET, handleHSTRLEN, handleHVALS, handleHLEN,
    handleHKEYS, handleHGETALL, handleHEXISTS, handleHRANDFIELD, handleSCARD, handleSISMEMBER,
    handleSMEMBERS, handleSMISMEMBER, handleSPOP, handleSRANDMEMBER, handleSREM, handleSMOVE]

/-- **These handlers release on every path exactly the per-key locks they take.**  For every key
extraction function and every command, along every path of each handler of
`releasingHandlers`, each `KeyUnlock` and `KeyRUnlock` releases a lock the path holds, and every
lock taken by a `KeyLock`, `KeyRLock` or `CreateKeyAndLock` that returned no error is released by
the time the handler returns. -/
theorem releasingHandlers_netRelease (handler : KeyFunc → List Bytes → Prog Reply)
    (hh : handler ∈ releasingHandlers) (keyFunc : KeyFunc) (command : List Bytes) :
    NetRelease [] (handler keyFunc command) := by
  have hread : ∀ {α : Type} (pre : Prog α) (absent : Bytes) (body : α → GoMap Scalar → Reply),
      NetRelease [] pre → NetRelease [] (readHash keyFunc command pre absent body) :=
    fun pre absent body hpre => readHash_netRelease keyFunc command pre absent body hpre
  simp only [releasingHandlers, List.mem_cons, List.mem_nil_iff, or_false] at hh
  rcases hh with rfl | rfl | rfl | rfl | rfl | rfl | rfl | rfl | rfl | rfl | rfl | rfl | rfl | rfl |
    rfl | rfl | rfl | rfl | rfl
  · exact handleHSET_netRelease keyFunc command
  · exact handleHINCRBY_netRelease keyFunc command
  · exact handleHDEL_netRelease keyFunc command
  · exact hread _ _ _ (sliceFrom _ _)
  · exact hread _ _ _ (sliceFrom _ _)
  · exact hread _ _ _ (pure _)
  · exact hread _ _ _ (pure _)
  · exact hread _ _ _ (pure _)
  · exact hread _ _ _ (pure _)
  · exact hread _ _ _ (index _ _)
  · exact handleHRANDFIELD_netRelease keyFunc command
  · exact readSet_netRelease _ _ _ _ _ _ _ (pure _) fun _ _ => pure _
  · exact readSet_netRelease _ _ _ _ _ _ _ (pure _) fun _ _ => index_bind fun _ => pure _
  · exact readSet_netRelease _ _ _ _ _ _ _ (pure _) fun _ _ => pure _
  · exact handleSMISMEMBER_netRelease keyFunc command
  · exact handleSPOP_netRelease keyFunc command
  · exact readSet_netRelease _ _ _ _ _ _ _ (countArg_netRelease command) fun _ _ =>
      bind_free (randomMembers_netRelease _ _) fun _ => pure _
  · exact handleSREM_netRelease keyFunc command
  · exact handleSMOVE_netRelease keyFunc command

end EchoVault
