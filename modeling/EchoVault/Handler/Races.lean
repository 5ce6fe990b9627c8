/-
**Two handlers side by side never race on a key's value, but `SDIFF` and `SDIFFSTORE`.**

`GetValue` asks of its caller that "the key must be read-locked before calling this function",
and `SetValue` that "the key must be locked prior to calling this function".  The monitor
`guardedLocks` is the held-locks monitor of `Handler.Release` that checks these two as well: a
`GetValue` at a key of which the path holds no lock, or a `SetValue` at a key whose write lock it
does not hold, breaks the property, as does an unlock of a lock the path does not hold.  Every
hash and set handler but `SDIFF` and `SDIFFSTORE` passes it on every path
(`guardedHandlers_guarded`).

Two handlers run side by side, each call atomic, through the configurations
`Interleaving.Reaches` names.  They race in a configuration where both are about to touch the
value of one key and one of them writes it (`Racy`).  Along every prefix of an interleaving the
lock table is the starting one with the locks of both paths added, and no key is held for
writing and for reading at once (`Excl`): a lock call takes its lock only from a mutex that
allows it.  So a lock that covers a write of one path excludes every lock of the other, and two
handlers that pass the monitor never race, from any machine (`guardedHandlers_race_free`).

`SDIFF` and `SDIFFSTORE` read the sets at their other keys whether they locked them or not: the
path where `KeyExists` reports those keys absent (a `Prog.Steps`) comes to call `GetValue` at one
of them holding only the base key's read lock (`diffHandlers_read_unlocked`), and `SADD`, creating
that key at that moment, is about to store its value (`sdiff_sadd_race`).

Main definitions:

* `EchoVault.Call.access`, `EchoVault.guardedLocks` — the accesses of a call, and the monitor;
* `EchoVault.Guarded` — every path accesses only under locks it holds;
* `EchoVault.Excl` — the invariant along a prefix of an interleaving;
* `EchoVault.Racy` — two programs about to make conflicting accesses.

Main results:

* `EchoVault.guardedHandlers_guarded` — **every hash and set handler but `SDIFF` and
  `SDIFFSTORE` reads and writes a key's value only under a lock of that key it holds**;
* `EchoVault.Excl.stepCall` — one capability call keeps the invariant;
* `EchoVault.guardedHandlers_race_free` — **two such handlers side by side never race**;
* `EchoVault.diffHandlers_read_unlocked` — **`SDIFF` and `SDIFFSTORE` read a key they hold no
  lock of**.
-/

import EchoVault.Handler.LockRuns
import EchoVault.Handler.Refs

set_option relaxedAutoImplicit false
set_option autoImplicit false

namespace EchoVault

open Prog
open scoped List

/-! ### Accesses and the guarded-locks monitor -/

/-- The access a call makes to a key's value: `GetValue` reads it and `SetValue` writes it. -/
def Call.access : Call → Option KeyLock
  | .getValue k => some ⟨k, false⟩
  | .setValue k _ => some ⟨k, true⟩
  | _ => none

/-- The lock `l` lets its holder make the access `a`: a lock of the same key, the write lock for a
write. -/
def KeyLock.Covers (l a : KeyLock) : Prop := l.key = a.key ∧ (a.write = true → l.write = true)

instance (l a : KeyLock) : Decidable (l.Covers a) := inferInstanceAs (Decidable (_ ∧ _))

/-- The held-locks monitor that checks each access too: a `GetValue` or a `SetValue` breaks the
property unless a lock the path holds covers it. -/
def guardedLocks : Monitor (List KeyLock) := fun H c ok =>
  match c.access with
  | some a => if ∃ l ∈ H, l.Covers a then some H else none
  | none => heldLocks H c ok

section Monitor

variable {H H' H₁ : List KeyLock} {c : Call} {b : Bool}

/-- Any lock of a key covers a read of it. -/
theorem covers_read (k : Bytes) (w : Bool) : (⟨k, w⟩ : KeyLock).Covers ⟨k, false⟩ :=
  ⟨rfl, fun h => absurd h Bool.false_ne_true⟩

theorem covers_write (k : Bytes) : (⟨k, true⟩ : KeyLock).Covers ⟨k, true⟩ := ⟨rfl, fun _ => rfl⟩

/-- The monitor takes and releases locks as the held-locks monitor does. -/
theorem heldLocks_of_guardedLocks (h : guardedLocks H c b = some H') : heldLocks H c b = some H' := by
  unfold guardedLocks at h
  split at h
  · split at h
    · cases h
      cases c <;> simp_all [Call.access, heldLocks, Call.acquires, Call.releases]
    · cases h
  · exact h

/-- An access the monitor accepts is covered by a lock the path holds. -/
theorem covered_of_guardedLocks {a : KeyLock} (h : guardedLocks H c b = some H')
    (ha : c.access = some a) : ∃ l ∈ H, l.Covers a := by
  simp only [guardedLocks, ha] at h
  split at h
  · assumption
  · cases h

/-- An access the monitor accepts changes no lock held. -/
theorem guardedLocks_access_eq {a : KeyLock} (h : guardedLocks H c b = some H') (ha : c.access = some a) :
    H' = H := by
  simp only [guardedLocks, ha] at h
  split at h <;> cases h
  rfl

/-- The monitor reads the held locks as a multiset. -/
theorem guardedLocks_perm (c : Call) (b : Bool) (hH : H ~ H') (h : guardedLocks H c b = some H₁) :
    ∃ H₁', guardedLocks H' c b = some H₁' ∧ H₁ ~ H₁' := by
  unfold guardedLocks at h ⊢
  split at h
  · rename_i a _
    split at h
    · cases h
      obtain ⟨l, hl, hc⟩ := ‹∃ l ∈ H, l.Covers a›
      exact ⟨H', if_pos ⟨l, hH.subset hl, hc⟩, hH⟩
    · cases h
  · exact heldLocks_perm c b hH h

theorem wp_guardedLocks_perm {α : Type} {p : Prog α} {post : List KeyLock → α → Prop}
    (hp : p.wp guardedLocks H post) (hH : H ~ H') :
    p.wp guardedLocks H' fun T a => ∃ T', T' ~ T ∧ post T' a :=
  wp_simulate (fun S S' => S ~ S') (fun _ _ c b _ hS h => guardedLocks_perm c b hS h) hp hH

end Monitor

/-! ### Paths that access under their locks -/

/-- Started holding the locks `L`, which `p` may release, and `H`, which hold `K`, along every path
of `p` each access is covered by a lock the path holds and each unlock releases a lock it holds,
and the path ends holding `H`, and possibly locks it took and kept. -/
def Guarded {α : Type} (K L : List KeyLock) (p : Prog α) : Prop :=
  ∀ H, K ⊆ H → p.wp guardedLocks (L ++ H) fun H' _ => ∃ E, H' ~ H ++ E

namespace Guarded

variable {α β : Type} {K L L₁ L₂ : List KeyLock}

theorem pure (a : α) : Guarded K L (Prog.pure a) := fun _ _ => ⟨L, List.perm_append_comm⟩

/-- **Sequencing**: `p` may use the locks `L₂` that `f` releases, and must keep them. -/
theorem bind {p : Prog α} {f : α → Prog β} (hp : Guarded (L₂ ++ K) L₁ p)
    (hf : ∀ a, Guarded K L₂ (f a)) : Guarded K (L₁ ++ L₂) (p >>= f) := by
  intro H hK
  rw [wp_bind, List.append_assoc]
  have hp' := hp (L₂ ++ H) (List.append_subset.2 ⟨List.subset_append_left _ _,
    hK.trans (List.subset_append_right _ _)⟩)
  refine wp_mono (fun S a hS => ?_) hp'
  obtain ⟨E, hS⟩ := hS
  rw [List.append_assoc] at hS
  have hf' := wp_guardedLocks_perm (hf a (H ++ E) (hK.trans (List.subset_append_left _ _))) hS.symm
  refine wp_mono (fun T _ hT => ?_) hf'
  obtain ⟨T', hT, E', hT'⟩ := hT
  refine ⟨E ++ E', ?_⟩
  rw [← List.append_assoc]
  exact hT.symm.trans hT'

theorem bind_free {p : Prog α} {f : α → Prog β} (hp : Guarded (L ++ K) [] p)
    (hf : ∀ a, Guarded K L (f a)) : Guarded K L (p >>= f) :=
  hp.bind hf

theorem bind_nil {p : Prog α} {f : α → Prog β} (hp : Guarded K L p) (hf : ∀ a, Guarded K [] (f a)) :
    Guarded K L (p >>= f) := by
  have hp' : Guarded ([] ++ K) L p := hp
  simpa using hp'.bind hf

/-- A call that neither locks, unlocks nor accesses. -/
theorem call_free {c : Call} {k : c.Result → Prog α} (hc : ∀ H b, guardedLocks H c b = some H)
    (hk : ∀ r, Guarded K L (k r)) : Guarded K L (.call c k) :=
  fun H hK r => ⟨_, hc _ _, hk r H hK⟩

theorem call_then {c : Call} {f : c.Result → Prog α} (hc : ∀ H b, guardedLocks H c b = some H)
    (hf : ∀ r, Guarded K L (f r)) : Guarded K L (.call c Prog.pure >>= f) :=
  call_free hc hf

/-- A lock call: on success the rest of the path holds the lock too. -/
theorem call_lock {c : Call} {k : c.Result → Prog α} {l : KeyLock}
    (hc : ∀ H b, guardedLocks H c b = some (if b then l :: H else H))
    (hk : ∀ r, Guarded K (if c.ok r then l :: L else L) (k r)) : Guarded K L (.call c k) :=
  fun H hK r => ⟨_, hc _ _, by cases h : c.ok r <;> simpa [h] using hk r H hK⟩

theorem keyUnlock (key : Bytes) : Guarded K [⟨key, true⟩] (Prog.keyUnlock key) :=
  fun H _ _ => ⟨H, by simp [guardedLocks, Call.access, heldLocks, Call.acquires, Call.releases],
    [], by simp⟩

theorem keyRUnlock (key : Bytes) : Guarded K [⟨key, false⟩] (Prog.keyRUnlock key) :=
  fun H _ _ => ⟨H, by simp [guardedLocks, Call.access, heldLocks, Call.acquires, Call.releases],
    [], by simp⟩

/-- A `SetValue` at a key whose write lock the path holds, or the context does. -/
theorem setValue_bind {key : Bytes} {value : Value} {f : Except Bytes Unit → Prog α}
    (hk : ⟨key, true⟩ ∈ L ∨ ⟨key, true⟩ ∈ K) (hf : ∀ r, Guarded K L (f r)) :
    Guarded K L (setValue key value >>= f) := fun H hK r =>
  ⟨L ++ H, if_pos ⟨_, hk.elim (List.mem_append_left H) fun h => List.mem_append_right L (hK h),
    covers_write key⟩, hf r H hK⟩

/-- `defer` of the unlock of a lock taken just before: the body runs under it. -/
theorem withDefer {p : Prog α} {d : Prog Unit} {l : KeyLock} (hp : Guarded (l :: K) [] p)
    (hd : Guarded K [l] d) : Guarded K [l] (Prog.withDefer d p) :=
  bind_free hp fun a => bind_nil hd fun _ => pure a

theorem withDefer_free {p : Prog α} {d : Prog Unit} (hp : Guarded K L p) (hd : Guarded K [] d) :
    Guarded K L (Prog.withDefer d p) :=
  bind_nil hp fun a => bind_nil hd fun _ => pure a

theorem bind_except {ε : Type} {p : Prog (Except ε β)} {g : Except ε β → Prog α}
    (hp : Guarded (L ++ K) [] p) (herr : ∀ e, Guarded K L (g (.error e)))
    (hok : ∀ b, Guarded K L (g (.ok b))) : Guarded K L (p >>= g) :=
  bind_free hp fun r => by rcases r with e | b; exacts [herr e, hok b]

theorem bind_option {p : Prog (Option β)} {g : Option β → Prog α} (hp : Guarded (L ++ K) [] p)
    (hnone : Guarded K L (g none)) (hsome : ∀ b, Guarded K L (g (some b))) : Guarded K L (p >>= g) :=
  bind_free hp fun r => by rcases r with _ | b; exacts [hnone, hsome b]

theorem index_bind {xs : List Bytes} {i : ℕ} {f : Bytes → Prog α} (hf : ∀ x, Guarded K L (f x)) :
    Guarded K L (index xs i >>= f) := fun H hK => by
  rw [wp_bind, wp_index]
  exact fun x _ => hf x H hK

theorem sliceFrom_bind {xs : List Bytes} {i : ℕ} {f : List Bytes → Prog α}
    (hf : ∀ x, Guarded K L (f x)) : Guarded K L (sliceFrom xs i >>= f) := fun H hK => by
  rw [wp_bind, wp_sliceFrom]
  exact fun _ => hf _ H hK

theorem index (xs : List Bytes) (i : ℕ) : Guarded K L (Prog.index xs i) := fun _ _ =>
  (wp_index _ _ _ _).2 fun _ _ => ⟨L, List.perm_append_comm⟩

theorem sliceFrom (xs : List Bytes) (i : ℕ) : Guarded K L (Prog.sliceFrom xs i) := fun _ _ =>
  (wp_sliceFrom _ _ _ _).2 fun _ => ⟨L, List.perm_append_comm⟩

end Guarded

/-! ### The pieces -/

section Pieces

open Guarded

variable {K : List KeyLock}

/-- `GetValue(key).(*Hash)` under a lock of `key` the path holds. -/
theorem getHash_wp {H : List KeyLock} {key : Bytes} {w : Bool} (hk : ⟨key, w⟩ ∈ H) :
    (getHash key).wp guardedLocks H fun H' _ => H' = H := by
  have hc : guardedLocks H (.getValue key) true = some H := if_pos ⟨_, hk, covers_read key w⟩
  refine fun v => ⟨H, hc, ?_⟩
  rcases v with _ | _ | _
  · rfl
  · exact fun o => ⟨H, rfl, by cases o <;> rfl⟩
  · rfl

/-- `GetValue(key).(*Set)` under a lock of `key` the path holds. -/
theorem getSet_wp {H : List KeyLock} {key : Bytes} {w : Bool} (hk : ⟨key, w⟩ ∈ H) :
    (getSet key).wp guardedLocks H fun H' _ => H' = H := by
  have hc : guardedLocks H (.getValue key) true = some H := if_pos ⟨_, hk, covers_read key w⟩
  refine fun v => ⟨H, hc, ?_⟩
  rcases v with _ | _ | _
  · rfl
  · exact fun o => ⟨H, rfl, by cases o <;> rfl⟩
  · rfl

/-- A part that neither locks nor unlocks and ends where it started. -/
theorem of_wp {α : Type} {p : Prog α} (hp : ∀ H, K ⊆ H → p.wp guardedLocks H fun H' _ => H' = H) :
    Guarded K [] p := fun H hK =>
  wp_mono (fun _ _ h => ⟨[], by rw [h, List.append_nil]⟩) (hp H hK)

theorem getHash_guarded {key : Bytes} {w : Bool} (hk : ⟨key, w⟩ ∈ K) : Guarded K [] (getHash key) :=
  of_wp fun _ hK => getHash_wp (hK hk)

theorem getSet_guarded {key : Bytes} {w : Bool} (hk : ⟨key, w⟩ ∈ K) : Guarded K [] (getSet key) :=
  of_wp fun _ hK => getSet_wp (hK hk)

theorem popMembers_guarded (n : ℕ) (s : List Bytes) : Guarded K [] (GoSet.popMembers n s) := by
  induction n generalizing s with
  | zero => exact pure _
  | succ n ih =>
      rcases s with _ | ⟨x, s⟩
      · exact pure _
      · exact call_then (fun _ _ => rfl) fun i => bind_nil (ih _) fun ⟨_, _⟩ => pure _

theorem randomMembers_guarded (count : ℤ) (s : List Bytes) : Guarded K [] (GoSet.randomMembers count s) := by
  unfold GoSet.randomMembers
  split
  · exact bind_nil (popMembers_guarded _ _) fun _ => pure _
  · induction count.natAbs with
    | zero => exact pure _
    | succ n ih => exact call_then (fun _ _ => rfl) fun _ => bind_nil ih fun _ => pure _

theorem pluckFields_guarded (positive : Bool) (n : ℕ) (fields : List Bytes) :
    Guarded K [] (pluckFields positive n fields) := by
  induction n generalizing fields with
  | zero => exact pure _
  | succ n ih =>
      exact call_then (fun _ _ => rfl) fun _ => index_bind fun _ => bind_nil (ih _) fun _ => pure _

theorem countArg_guarded (command : List Bytes) : Guarded K [] (countArg command) := by
  unfold countArg
  split
  · exact index_bind fun tok => by split <;> exact pure _
  · exact pure _

theorem moveMember_guarded (rs : ℕ) (source : List Bytes) (rd : ℕ) (destination : List Bytes)
    (member : Bytes) : Guarded K [] (moveMember rs source rd destination member) := by
  unfold moveMember
  split
  exact call_then (fun _ _ => rfl) fun _ => call_then (fun _ _ => rfl) fun _ => pure _

/-- The tail of `SINTERSTORE` stores under the destination's write lock, and keeps the lock when
`SetValue` fails. -/
theorem storeSet_guarded (destination : Bytes) (r : ℕ) (res : Bytes) :
    Guarded K [] (storeSet destination r res) := by
  refine call_then (fun _ _ => rfl) fun (b : Bool) => ?_
  dsimp only
  split <;> refine call_lock (l := ⟨destination, true⟩) (fun _ _ => rfl) fun r => ?_ <;>
    rcases r with e | _ <;>
    first
    | exact pure _
    | exact setValue_bind (.inl (List.mem_cons_self _ _)) fun r => by
        rcases r with e | _
        exacts [pure _, bind_nil (keyUnlock _) fun _ => pure _]

end Pieces

/-! ### The `locks` map of the multi-key handlers -/

/-- The `locks` map is held in `E`: its keys are distinct, and each is marked locked and
read-locked in `E`. -/
def MapHeld (locks : GoMap Bool) (E : List KeyLock) : Prop :=
  locks.keys.Nodup ∧ ∀ e ∈ locks, e.2 = true ∧ ⟨e.1, false⟩ ∈ E

namespace MapHeld

variable {locks : GoMap Bool} {E : List KeyLock}

theorem nil (E : List KeyLock) : MapHeld [] E := ⟨List.nodup_nil, fun _ h => absurd h (List.not_mem_nil _)⟩

theorem mono {E' : List KeyLock} (h : MapHeld locks E) (hE : E ⊆ E') : MapHeld locks E' :=
  ⟨h.1, fun e he => ⟨(h.2 e he).1, hE (h.2 e he).2⟩⟩

/-- `locks[key] = true` after a read lock of `key` was taken. -/
theorem set (h : MapHeld locks E) (key : Bytes) : MapHeld (locks.set key true) (⟨key, false⟩ :: E) :=
  ⟨GoMap.nodup_keys_set key true h.1, fun e he => by
    rcases GoMap.mem_set he with rfl | he
    · exact ⟨rfl, List.mem_cons_self _ _⟩
    · exact ⟨(h.2 e he).1, List.mem_cons_of_mem _ (h.2 e he).2⟩⟩

theorem of_cons {e : Bytes × Bool} (h : MapHeld (e :: locks) E) : MapHeld locks E :=
  ⟨(List.nodup_cons.1 h.1).2, fun e' he' => h.2 e' (List.mem_cons_of_mem _ he')⟩

/-- Releasing the read lock of the first key leaves the others held. -/
theorem erase_head {key : Bytes} {locked : Bool} (h : MapHeld ((key, locked) :: locks) E) :
    MapHeld locks (E.erase ⟨key, false⟩) := by
  obtain ⟨hnd, hE⟩ := h
  simp only [GoMap.keys, List.map_cons, List.nodup_cons] at hnd
  refine ⟨hnd.2, fun e he => ⟨(hE e (List.mem_cons_of_mem _ he)).1,
    (List.mem_erase_of_ne fun heq => hnd.1 ?_).2 (hE e (List.mem_cons_of_mem _ he)).2⟩⟩
  rw [← (KeyLock.mk.inj heq).1]
  exact List.mem_map_of_mem _ he

end MapHeld

/-- The read-lock loop of the multi-key handlers adds each read lock it takes to the map and to
the locks held. -/
theorem rlockKeys_wp (missing : Option Reply) (stopOnError : Bool) (H : List KeyLock)
    (keys : List Bytes) : ∀ (locks : GoMap Bool) (E : List KeyLock), MapHeld locks E →
      (rlockKeys missing stopOnError keys locks).wp guardedLocks (E ++ H)
        fun H' x => ∃ E', H' = E' ++ H ∧ MapHeld x.1 E' := by
  induction keys with
  | nil => exact fun locks E h => ⟨E, rfl, h⟩
  | cons key keys ih =>
      refine fun locks E h b => ⟨E ++ H, rfl, ?_⟩
      cases b
      · cases missing
        exacts [ih locks E h, ⟨E, rfl, h⟩]
      · intro r
        rcases r with e | _
        · refine ⟨E ++ H, rfl, ?_⟩
          cases stopOnError
          exacts [ih locks E h, ⟨E, rfl, h⟩]
        · exact ⟨(⟨key, false⟩ :: E) ++ H, rfl, ih _ _ (h.set key)⟩

/-- The deferred release loop releases the read lock of each key of a held map. -/
theorem runlockAll_wp (H : List KeyLock) : ∀ (locks : GoMap Bool) (E : List KeyLock), MapHeld locks E →
    (runlockAll locks).wp guardedLocks (E ++ H) fun H' _ => ∃ E', H' = E' ++ H
  | [], E, _ => ⟨E, rfl⟩
  | (key, locked) :: locks, E, h => by
      obtain ⟨rfl, hk⟩ := h.2 _ (List.mem_cons_self _ _)
      refine fun _ => ⟨E.erase ⟨key, false⟩ ++ H, ?_, runlockAll_wp H locks _ h.erase_head⟩
      simp [guardedLocks, Call.access, heldLocks, Call.acquires, Call.releases, hk,
        List.erase_append_left H hk]

/-- The loop over the map that reads the set at each key, under its read lock. -/
theorem setsOfLocks_wp (checkLocked : Bool) {H : List KeyLock} :
    ∀ (locks : GoMap Bool) {E : List KeyLock}, MapHeld locks E → E ⊆ H →
      (setsOfLocks checkLocked locks).wp guardedLocks H fun H' _ => H' = H
  | [], _, _, _ => rfl
  | (key, locked) :: locks, E, h, hE => by
      unfold setsOfLocks
      split
      · exact setsOfLocks_wp checkLocked locks h.of_cons hE
      · rw [wp_bind]
        refine wp_mono (fun H' v hv => ?_) (getSet_wp (hE (h.2 _ (List.mem_cons_self _ _)).2))
        subst hv
        rcases v with _ | ⟨_, _⟩
        · rfl
        · rw [wp_bind]
          exact wp_mono (fun _ r hr => by subst hr; cases r <;> rfl)
            (setsOfLocks_wp checkLocked locks h.of_cons hE)

/-- A body under the deferred release of its `locks` map, which it returns held in locks it
took. -/
theorem withLocks_guarded {K : List KeyLock} {body : Prog (GoMap Bool × Reply)}
    (h : ∀ H, K ⊆ H → body.wp guardedLocks H fun H' x => ∃ E, H' ~ E ++ H ∧ MapHeld x.1 E) :
    Guarded K [] (withLocks body) := fun H hK => by
  unfold withLocks
  rw [wp_bind]
  refine wp_mono (fun H' x hx => ?_) (h H hK)
  obtain ⟨E, hH', hE⟩ := hx
  rcases x with ⟨locks, r⟩
  rw [wp_bind]
  refine wp_mono (fun T _ hT => ?_) (wp_guardedLocks_perm (runlockAll_wp H locks E hE) hH'.symm)
  obtain ⟨T', hT', E', rfl⟩ := hT
  exact ⟨E', hT'.symm.trans List.perm_append_comm⟩

/-! ### The handlers -/

section Handlers

open Guarded

variable {K : List KeyLock} (keyFunc : KeyFunc) (command : List Bytes)

/-- `KeyLock`, its error check, and the deferred `KeyUnlock` around `body`, which runs under the
write lock. -/
theorem lock_defer_guarded {key : Bytes} {body : Prog Reply} (hbody : Guarded (⟨key, true⟩ :: K) [] body) :
    Guarded K [] (Prog.keyLock key >>= fun r =>
      match r with
      | .error e => Prog.pure (.error e)
      | .ok _ => withDefer (Prog.keyUnlock key) body) :=
  call_lock (fun _ _ => rfl) fun r => by
    rcases r with e | _
    exacts [pure _, withDefer hbody (keyUnlock key)]

/-- `CreateKeyAndLock`, its error check, and the deferred `KeyUnlock` around `body`. -/
theorem create_defer_guarded {key : Bytes} {body : Prog Reply}
    (hbody : Guarded (⟨key, true⟩ :: K) [] body) :
    Guarded K [] (Prog.createKeyAndLock key >>= fun r =>
      match r with
      | .error e => Prog.pure (.error e)
      | .ok _ => withDefer (Prog.keyUnlock key) body) :=
  call_lock (fun _ _ => rfl) fun r => by
    rcases r with e | _
    exacts [pure _, withDefer hbody (keyUnlock key)]

/-- `KeyRLock`, its error check, and the deferred `KeyRUnlock` around `body`, which runs under the
read lock. -/
theorem rlock_defer_guarded {key : Bytes} {body : Prog Reply}
    (hbody : Guarded (⟨key, false⟩ :: K) [] body) :
    Guarded K [] (Prog.keyRLock key >>= fun r =>
      match r with
      | .error e => Prog.pure (.error e)
      | .ok _ => withDefer (Prog.keyRUnlock key) body) :=
  call_lock (fun _ _ => rfl) fun r => by
    rcases r with e | _
    exacts [pure _, withDefer hbody (keyRUnlock key)]

/-- The `SetValue` of a handler at the key whose write lock it holds, with replies on both
results. -/
theorem setValue_reply_guarded {key : Bytes} {value : Value} {f : Except Bytes Unit → Prog Reply}
    (hf : ∀ r, ∃ a, f r = Prog.pure a) : Guarded (⟨key, true⟩ :: K) [] (setValue key value >>= f) :=
  setValue_bind (.inr (List.mem_cons_self _ _)) fun r => by
    obtain ⟨a, h⟩ := hf r
    exact h ▸ pure a

theorem handleHSET_guarded : Guarded K [] (handleHSET keyFunc command) := by
  unfold handleHSET
  split
  · exact pure _
  refine index_bind fun key => sliceFrom_bind fun args => ?_
  split
  · exact pure _
  refine call_then (fun _ _ => rfl) fun (b : Bool) => ?_
  cases b
  · exact create_defer_guarded (call_then (fun _ _ => rfl) fun _ =>
      setValue_reply_guarded fun r => by cases r <;> exact ⟨_, rfl⟩)
  · refine lock_defer_guarded (bind_option (getHash_guarded (List.mem_cons_self _ _)) (pure _) fun _ =>
      index_bind fun _ => ?_)
    dsimp only
    exact call_then (fun _ _ => rfl) fun _ => setValue_reply_guarded fun r => by cases r <;> exact ⟨_, rfl⟩

theorem handleHINCRBY_guarded : Guarded K [] (handleHINCRBY keyFunc command) := by
  unfold handleHINCRBY
  split
  · exact pure _
  refine index_bind fun key => index_bind fun field => index_bind fun tok => index_bind fun inc => ?_
  split
  · exact pure _
  refine call_then (fun _ _ => rfl) fun (b : Bool) => ?_
  cases b
  · exact create_defer_guarded (call_then (fun _ _ => rfl) fun _ =>
      setValue_reply_guarded fun r => by cases r <;> exact ⟨_, rfl⟩)
  · refine lock_defer_guarded (bind_option (getHash_guarded (List.mem_cons_self _ _)) (pure _) fun _ => ?_)
    dsimp only
    split
    · exact pure _
    · exact call_then (fun _ _ => rfl) fun _ => setValue_reply_guarded fun r => by cases r <;> exact ⟨_, rfl⟩

theorem handleHDEL_guarded : Guarded K [] (handleHDEL keyFunc command) := by
  unfold handleHDEL
  split
  · exact pure _
  refine index_bind fun key => sliceFrom_bind fun fields => call_then (fun _ _ => rfl) fun (b : Bool) => ?_
  dsimp only
  split
  · exact pure _
  refine bind_free (pure _) fun _ =>
    lock_defer_guarded (bind_option (getHash_guarded (List.mem_cons_self _ _)) (pure _) fun _ => ?_)
  dsimp only
  exact call_then (fun _ _ => rfl) fun _ => setValue_reply_guarded fun r => by cases r <;> exact ⟨_, rfl⟩

theorem readHash_guarded {α : Type} (pre : Prog α) (absent : Bytes) (body : α → GoMap Scalar → Reply)
    (hpre : Guarded K [] pre) : Guarded K [] (readHash keyFunc command pre absent body) := by
  unfold readHash
  split
  · exact pure _
  refine index_bind fun key => bind_free hpre fun _ => call_then (fun _ _ => rfl) fun (b : Bool) => ?_
  dsimp only
  split
  · exact pure _
  exact bind_free (pure _) fun _ =>
    rlock_defer_guarded (bind_option (getHash_guarded (List.mem_cons_self _ _)) (pure _) fun _ => pure _)

theorem handleHRANDFIELD_guarded : Guarded K [] (handleHRANDFIELD keyFunc command) := by
  unfold handleHRANDFIELD
  split
  · exact pure _
  refine index_bind fun key => bind_except ?_ (fun _ => pure _) fun _ => bind_except ?_
    (fun _ => pure _) fun _ => call_then (fun _ _ => rfl) fun (b : Bool) => ?_
  · unfold hrandfieldCount
    split
    · exact index_bind fun _ => by split <;> exact pure _
    · exact pure _
  · unfold hrandfieldWithValues
    split
    · exact index_bind fun _ => by split <;> exact pure _
    · exact pure _
  dsimp only
  split
  · exact pure _
  refine bind_free (pure _) fun _ =>
    rlock_defer_guarded (bind_option (getHash_guarded (List.mem_cons_self _ _)) (pure _) fun _ => ?_)
  dsimp only
  split
  · exact pure _
  · exact bind_nil (pure _) fun _ => bind_nil (pluckFields_guarded _ _ _) fun _ => pure _

/-- `SADD` stores the set it creates under the lock it created, and reads an existing one under
its write lock. -/
theorem handleSADD_guarded : Guarded K [] (handleSADD keyFunc command) := by
  unfold handleSADD
  split
  · exact pure _
  refine index_bind fun key => sliceFrom_bind fun elems => call_then (fun _ _ => rfl) fun (b : Bool) => ?_
  split
  · refine call_lock (l := ⟨key, true⟩) (fun _ _ => rfl) fun r => ?_
    rcases r with e | _
    · exact pure _
    · exact call_then (fun _ _ => rfl) fun _ => setValue_bind (.inl (List.mem_cons_self _ _)) fun r => by
        rcases r with e | _
        exacts [pure _, bind_nil (keyUnlock key) fun _ => pure _]
  · refine lock_defer_guarded (bind_option (getSet_guarded (List.mem_cons_self _ _)) (pure _) fun _ => ?_)
    dsimp only
    exact call_then (fun _ _ => rfl) fun _ => pure _

theorem readSet_guarded {α : Type} (pre : Prog (Except Bytes α)) (write : Bool) (absent : Bytes)
    (notASetMsg : Bytes → Bytes) (body : α → List Bytes → Prog Reply) (hpre : Guarded K [] pre)
    (hbody : ∀ K' a set, Guarded K' [] (body a set)) :
    Guarded K [] (readSet keyFunc command pre write absent notASetMsg body) := by
  unfold readSet
  split
  · exact pure _
  refine index_bind fun key => bind_except hpre (fun _ => pure _) fun a =>
    call_then (fun _ _ => rfl) fun (b : Bool) => ?_
  dsimp only
  split
  · exact pure _
  refine bind_free (pure _) fun _ => ?_
  cases write
  · exact rlock_defer_guarded (bind_option (getSet_guarded (List.mem_cons_self _ _)) (pure _)
      fun ⟨_, _⟩ => hbody _ _ _)
  · exact lock_defer_guarded (bind_option (getSet_guarded (List.mem_cons_self _ _)) (pure _)
      fun ⟨_, _⟩ => hbody _ _ _)

theorem handleSMISMEMBER_guarded : Guarded K [] (handleSMISMEMBER keyFunc command) := by
  unfold handleSMISMEMBER
  split
  · exact pure _
  refine index_bind fun key => sliceFrom_bind fun members => call_then (fun _ _ => rfl) fun (b : Bool) => ?_
  dsimp only
  split
  · exact pure _
  exact bind_free (pure _) fun _ =>
    rlock_defer_guarded (bind_option (getSet_guarded (List.mem_cons_self _ _)) (pure _) fun _ => pure _)

theorem handleSPOP_guarded : Guarded K [] (handleSPOP keyFunc command) := by
  unfold handleSPOP
  split
  · exact pure _
  refine index_bind fun key => bind_except (countArg_guarded command) (fun _ => pure _) fun _ =>
    call_then (fun _ _ => rfl) fun (b : Bool) => ?_
  dsimp only
  split
  · exact pure _
  exact bind_free (pure _) fun _ => lock_defer_guarded (bind_option (getSet_guarded (List.mem_cons_self _ _))
    (pure _) fun _ => bind_nil (popMembers_guarded _ _) fun _ => call_then (fun _ _ => rfl) fun _ => pure _)

theorem handleSREM_guarded : Guarded K [] (handleSREM keyFunc command) := by
  unfold handleSREM
  split
  · exact pure _
  refine index_bind fun key => sliceFrom_bind fun members => call_then (fun _ _ => rfl) fun (b : Bool) => ?_
  dsimp only
  split
  · exact pure _
  refine bind_free (pure _) fun _ =>
    lock_defer_guarded (bind_option (getSet_guarded (List.mem_cons_self _ _)) (pure _) fun _ => ?_)
  dsimp only
  exact call_then (fun _ _ => rfl) fun _ => pure _

/-- `SMOVE` reads the source under its write lock and the destination under its own, and stores
the destination it creates under the lock it created. -/
theorem handleSMOVE_guarded : Guarded K [] (handleSMOVE keyFunc command) := by
  unfold handleSMOVE
  split
  · exact pure _
  refine index_bind fun source => index_bind fun destination => index_bind fun _ =>
    call_then (fun _ _ => rfl) fun (b : Bool) => ?_
  dsimp only
  split
  · exact pure _
  refine bind_free (pure _) fun _ => lock_defer_guarded (bind_option (getSet_guarded (List.mem_cons_self _ _))
    (pure _) fun _ => call_then (fun _ _ => rfl) fun (b : Bool) => ?_)
  cases b
  · exact create_defer_guarded (call_then (fun _ _ => rfl) fun _ =>
      setValue_bind (.inr (List.mem_cons_self _ _)) fun r => by
        cases r
        exacts [pure _, moveMember_guarded _ _ _ _ _])
  · exact lock_defer_guarded (bind_option (getSet_guarded (List.mem_cons_self _ _)) (pure _) fun _ =>
      moveMember_guarded _ _ _ _ _)

/-- The body of `SINTER` and `SUNION`: read-lock the keys, read the sets of the map, and run
`tail`; it returns its map held in the read locks it took. -/
theorem locksBody_wp {H : List KeyLock} (rlock : Prog (GoMap Bool × Option Reply))
    (sets : GoMap Bool → Prog (Except Bytes (List (List Bytes)))) (tail : List (List Bytes) → Prog Reply)
    (hK : K ⊆ H)
    (hrlock : (rlock).wp guardedLocks H fun H' x => ∃ E, H' = E ++ H ∧ MapHeld x.1 E)
    (hsets : ∀ locks E, MapHeld locks E → (sets locks).wp guardedLocks (E ++ H) fun H' _ => H' = E ++ H)
    (htail : ∀ s, Guarded K [] (tail s)) :
    (do
      let (locks, early) ← rlock
      match early with
      | some r => return (locks, r)
      | none =>
        match ← sets locks with
        | .error e => return (locks, .error e)
        | .ok s => return (locks, ← tail s)).wp guardedLocks H
      fun H' x => ∃ E, H' ~ E ++ H ∧ MapHeld x.1 E := by
  rw [wp_bind]
  refine wp_mono (fun H' x hx => ?_) hrlock
  obtain ⟨E, rfl, hE⟩ := hx
  rcases x with ⟨locks, _ | r⟩
  · rw [wp_bind]
    refine wp_mono (fun H'' s hs => ?_) (hsets locks E hE)
    subst hs
    rcases s with e | s
    · exact ⟨E, List.Perm.refl _, hE⟩
    · rw [wp_bind]
      refine wp_mono (fun T _ hT => ?_) (htail s (E ++ H) (hK.trans (List.subset_append_right _ _)))
      obtain ⟨E', hT⟩ := hT
      refine ⟨E ++ E', hT.trans ?_, hE.mono (List.subset_append_left _ _)⟩
      rw [List.append_assoc, List.append_assoc]
      exact List.perm_append_comm.append_left E
  · exact ⟨E, List.Perm.refl _, hE⟩

/-- `SINTER`, `SINTERCARD` and `SINTERSTORE` read the sets of the keys they read-locked. -/
theorem interWith_guarded (missing : Bytes) (tail : Keys → List (List Bytes) → Prog Reply)
    (htail : ∀ keys sets, Guarded K [] (tail keys sets)) :
    Guarded K [] (interWith keyFunc command missing tail) := by
  unfold interWith
  split
  · exact pure _
  exact withLocks_guarded fun H hK => locksBody_wp _ _ _ hK (rlockKeys_wp _ _ H _ [] [] (MapHeld.nil _))
    (fun locks _ hE => setsOfLocks_wp false locks hE (List.subset_append_left _ _)) (htail _)

/-- `SUNION` and `SUNIONSTORE` read the sets of the keys they read-locked. -/
theorem unionWith_guarded (tail : Keys → List Bytes → Prog Reply)
    (htail : ∀ keys u, Guarded K [] (tail keys u)) : Guarded K [] (unionWith keyFunc command tail) := by
  unfold unionWith
  split
  · exact pure _
  exact withLocks_guarded fun H hK => locksBody_wp _ _ _ hK (rlockKeys_wp _ _ H _ [] [] (MapHeld.nil _))
    (fun locks _ hE => setsOfLocks_wp true locks hE (List.subset_append_left _ _)) fun _ => htail _ _

theorem handleSINTERCARD_guarded : Guarded K [] (handleSINTERCARD keyFunc command) := by
  unfold handleSINTERCARD
  split
  · exact pure _
  · exact pure _
  · exact interWith_guarded _ _ _ _ fun _ _ => by split <;> exact pure _

/-- `SUNIONSTORE` stores under the destination's lock, whose unlock it defers. -/
theorem handleSUNIONSTORE_guarded : Guarded K [] (handleSUNIONSTORE keyFunc command) := by
  refine unionWith_guarded _ _ _ fun _ _ => call_then (fun _ _ => rfl) fun r => index_bind fun d =>
    call_then (fun _ _ => rfl) fun (b : Bool) => ?_
  dsimp only
  split <;> refine call_lock (l := ⟨d, true⟩) (fun _ _ => rfl) fun r => ?_ <;> rcases r with e | _ <;>
    first
    | exact pure _
    | exact withDefer (setValue_reply_guarded fun r => by cases r <;> exact ⟨_, rfl⟩) (keyUnlock d)

end Handlers

/-- The hash and set handlers but `SDIFF` and `SDIFFSTORE`. -/
def guardedHandlers : List (KeyFunc → List Bytes → Prog Reply) :=
  [handleHSET, handleHINCRBY, handleHDEL, handleHGET, handleHSTRLEN, handleHVALS, handleHLEN,
    handleHKEYS, handleHGETALL, handleHEXISTS, handleHRANDFIELD, handleSADD, handleSCARD,
    handleSISMEMBER, handleSMEMBERS, handleSMISMEMBER, handleSPOP, handleSRANDMEMBER, handleSREM,
    handleSINTER, handleSINTERCARD, handleSINTERSTORE, handleSMOVE, handleSUNION, handleSUNIONSTORE]

open Guarded in
/-- **Every hash and set handler but `SDIFF` and `SDIFFSTORE` reads and writes a key's value only
under a lock of that key it holds**, for every key extraction function and every command: along
every path, started holding any locks, each `GetValue` is at a key of which the path holds a read
or a write lock, each `SetValue` at a key whose write lock it holds, and each `KeyUnlock` and
`KeyRUnlock` releases a lock it holds, as `GetValue` and `SetValue` ask of their callers. -/
theorem guardedHandlers_guarded (handler : KeyFunc → List Bytes → Prog Reply)
    (hh : handler ∈ guardedHandlers) (keyFunc : KeyFunc) (command : List Bytes) :
    Guarded [] [] (handler keyFunc command) := by
  have hread : ∀ {α : Type} (pre : Prog α) (absent : Bytes) (body : α → GoMap Scalar → Reply),
      Guarded [] [] pre → Guarded [] [] (readHash keyFunc command pre absent body) :=
    fun pre absent body hpre => readHash_guarded keyFunc command pre absent body hpre
  simp only [guardedHandlers, List.mem_cons, List.mem_nil_iff, or_false] at hh
  rcases hh with rfl | rfl | rfl | rfl | rfl | rfl | rfl | rfl | rfl | rfl | rfl | rfl | rfl | rfl |
    rfl | rfl | rfl | rfl | rfl | rfl | rfl | rfl | rfl | rfl | rfl
  · exact handleHSET_guarded keyFunc command
  · exact handleHINCRBY_guarded keyFunc command
  · exact handleHDEL_guarded keyFunc command
  · exact hread _ _ _ (sliceFrom _ _)
  · exact hread _ _ _ (sliceFrom _ _)
  · exact hread _ _ _ (pure _)
  · exact hread _ _ _ (pure _)
  · exact hread _ _ _ (pure _)
  · exact hread _ _ _ (pure _)
  · exact hread _ _ _ (index _ _)
  · exact handleHRANDFIELD_guarded keyFunc command
  · exact handleSADD_guarded keyFunc command
  · exact readSet_guarded _ _ _ _ _ _ _ (pure _) fun _ _ _ => pure _
  · exact readSet_guarded _ _ _ _ _ _ _ (pure _) fun _ _ _ => index_bind fun _ => pure _
  · exact readSet_guarded _ _ _ _ _ _ _ (pure _) fun _ _ _ => pure _
  · exact handleSMISMEMBER_guarded keyFunc command
  · exact handleSPOP_guarded keyFunc command
  · exact readSet_guarded _ _ _ _ _ _ _ (countArg_guarded command) fun _ _ _ =>
      bind_nil (randomMembers_guarded _ _) fun _ => pure _
  · exact handleSREM_guarded keyFunc command
  · exact interWith_guarded _ _ _ _ fun _ _ => by split <;> exact pure _
  · exact handleSINTERCARD_guarded keyFunc command
  · exact interWith_guarded _ _ _ _ fun _ _ => call_then (fun _ _ => rfl) fun _ =>
      index_bind fun _ => storeSet_guarded _ _ _
  · exact handleSMOVE_guarded keyFunc command
  · exact unionWith_guarded _ _ _ fun _ _ => pure _
  · exact handleSUNIONSTORE_guarded keyFunc command

/-- **Every hash and set handler but `SDIFF` and `SDIFFSTORE` reads and writes a key's value only
under a lock of that key it holds.**  For every handler of `guardedHandlers`, every key extraction
function and every command, along every path of the handler, whatever each call returns, each
`GetValue` is at a key of which an earlier lock call of the path took the read or the write lock
and no unlock of the path released it since, each `SetValue` at a key whose write lock the path
so holds, and each `KeyUnlock` and `KeyRUnlock` releases a lock the path holds: the preconditions
"the key must be read-locked" of `GetValue` and "the key must be locked" of `SetValue`. -/
theorem guardedHandlers_access_under_lock (handler : KeyFunc → List Bytes → Prog Reply)
    (hh : handler ∈ guardedHandlers) (keyFunc : KeyFunc) (command : List Bytes) :
    (handler keyFunc command).wp guardedLocks [] fun _ _ => True :=
  wp_mono (fun _ _ _ => trivial) (guardedHandlers_guarded handler hh keyFunc command [] (List.nil_subset _))

/-- `SINTER a b`, which reads the sets of the keys it read-locked, passes the monitor. -/
theorem sinter_access_under_lock :
    handleSINTER ∈ guardedHandlers ∧
      (handleSINTER allReadKeys [ascii "SINTER", ascii "a", ascii "b"]).wp guardedLocks [] fun _ _ => True :=
  ⟨by simp [guardedHandlers], guardedHandlers_access_under_lock handleSINTER (by simp [guardedHandlers])
    allReadKeys [ascii "SINTER", ascii "a", ascii "b"]⟩

/-! ### Held locks exclude each other -/

open Keyspace in
/-- A lock call that took its lock found the mutex free for it: unlocked for a write lock, and
without a writer for a read lock. -/
theorem acquires_free {m m' : Machine} {c : Call} {r : c.Result} {l : KeyLock}
    (hstep : Prog.stepCall c m = .ok r m') (ha : c.acquires = some l) (hok : c.ok r = true) :
    (l.write = true → lockView m.server l.key = RWMutex.unlocked) ∧
      (lockView m.server l.key).writer = false := by
  obtain ⟨r', m₁, h₁, hrest⟩ := Op.bind_eq_ok.1 hstep
  obtain ⟨_, _, h₂, hrest⟩ := Op.bind_eq_ok.1 hrest
  cases h₂
  cases hrest
  cases c with
  | keyLock key =>
      cases ha
      rcases acquireKey_lockView h₁ with ⟨hr, -⟩ | ⟨l', hl', -, -⟩
      · simp [Call.ok, hr] at hok
      · simp [(RWMutex.tryLock_eq_some hl').1, RWMutex.unlocked]
  | keyRLock key =>
      cases ha
      rcases acquireKey_lockView h₁ with ⟨hr, -⟩ | ⟨l', hl', -, -⟩
      · simp [Call.ok, hr] at hok
      · exact ⟨fun h => absurd h Bool.false_ne_true, (RWMutex.tryRLock_eq_some hl').1⟩
  | createKeyAndLock key =>
      cases ha
      rcases createKeyAndLock_lockView h₁ with ⟨hr, -⟩ | ⟨-, hfree, -⟩
      · simp [Call.ok, hr] at hok
      · simp [hfree, RWMutex.unlocked]
  | _ => cases ha

/-- The invariant along a prefix of an interleaving: the lock view is the starting one with the
locks `H` of both paths added, and no key is held for writing and for reading at once. -/
structure Excl (base : Bytes → RWMutex) (H : List KeyLock) (v : Bytes → RWMutex) : Prop where
  mirrors : Mirrors base H v
  excl : ∀ k, ⟨k, true⟩ ∈ H → ⟨k, false⟩ ∉ H

namespace Excl

variable {base v : Bytes → RWMutex} {H H' : List KeyLock}

theorem start (v : Bytes → RWMutex) : Excl v [] v :=
  ⟨Mirrors.start v, fun _ h => absurd h (List.not_mem_nil _)⟩

theorem perm (h : Excl base H v) (hH : H ~ H') : Excl base H' v :=
  ⟨h.mirrors.perm hH, fun k hk hk' => h.excl k (hH.mem_iff.2 hk) (hH.mem_iff.2 hk')⟩

/-- Taking a lock that its mutex allows keeps the write locks apart from the read locks. -/
theorem excl_cons (h : Excl base H v) {l : KeyLock} (hw : l.write = true → v l.key = RWMutex.unlocked)
    (hr : (v l.key).writer = false) : ∀ k, ⟨k, true⟩ ∈ l :: H → ⟨k, false⟩ ∉ l :: H := by
  intro k hk hk'
  rcases List.mem_cons.1 hk with rfl | hk
  · have hzero : H.count ⟨k, false⟩ = 0 := by
      have := h.mirrors.readers k
      rw [hw rfl] at this
      simp only [RWMutex.unlocked] at this
      omega
    rcases List.mem_cons.1 hk' with he | hk'
    · cases he
    · exact absurd hzero (List.count_pos_iff.2 hk').ne'
  · have hwk := h.mirrors.writer_of_mem hk
    rcases List.mem_cons.1 hk' with rfl | hk'
    · simp [hwk] at hr
    · exact h.excl k hk hk'

/-- **One capability call keeps the invariant**: a lock call takes only what its mutex allows, and
an unlock only drops a lock. -/
theorem stepCall {m m' : Machine} {c : Call} {r : c.Result} (h : Excl base H (lockView m.server))
    (hstep : Prog.stepCall c m = .ok r m') (hδ : heldLocks H c (c.ok r) = some H') :
    Excl base H' (lockView m'.server) := by
  refine ⟨h.mirrors.stepCall hstep hδ, ?_⟩
  cases ha : c.acquires with
  | some l =>
      rw [heldLocks_of_acquires hδ ha]
      split
      · rename_i hok
        obtain ⟨hw, hr⟩ := acquires_free hstep ha hok
        exact h.excl_cons hw hr
      · exact h.excl
  | none =>
      cases hr : c.releases with
      | some l =>
          obtain ⟨-, rfl⟩ := heldLocks_of_releases hδ ha hr
          exact fun k hk hk' => h.excl k (List.mem_of_mem_erase hk) (List.mem_of_mem_erase hk')
      | none =>
          rw [heldLocks_of_free hδ ha hr]
          exact h.excl

/-- **A write lock of one path excludes every lock of the other on its key.** -/
theorem disjoint {H₁ H₂ : List KeyLock} (h : Excl base (H₁ ++ H₂) v) {l₁ l₂ : KeyLock} (h₁ : l₁ ∈ H₁)
    (h₂ : l₂ ∈ H₂) (hk : l₁.key = l₂.key) (hw : l₁.write = true ∨ l₂.write = true) : False := by
  obtain ⟨k, w₁⟩ := l₁
  obtain ⟨k₂, w₂⟩ := l₂
  obtain rfl : k = k₂ := hk
  cases w₁ <;> cases w₂
  · simp at hw
  · exact h.excl k (List.mem_append_right _ h₂) (List.mem_append_left _ h₁)
  · exact h.excl k (List.mem_append_left _ h₁) (List.mem_append_right _ h₂)
  · have hc := (h.mirrors.write k (List.mem_append_left _ h₁)).2
    have := List.count_pos_iff.2 h₁
    have := List.count_pos_iff.2 h₂
    rw [List.count_append] at hc
    omega

end Excl

/-! ### Races -/

/-- The next call of a program, `none` once it has returned. -/
def Prog.next {α : Type} : Prog α → Option Call
  | .pure _ => none
  | .call c _ => some c

/-- Two calls conflict: they access the value of one key, and one of them writes it. -/
def Call.Conflicts (c c' : Call) : Prop :=
  ∃ a ∈ c.access, ∃ a' ∈ c'.access, a.key = a'.key ∧ (a.write = true ∨ a'.write = true)

/-- Two programs race: each is about to make a call, and the two calls conflict. -/
def Racy {α β : Type} (p : Prog α) (q : Prog β) : Prop :=
  ∃ c ∈ p.next, ∃ c' ∈ q.next, c.Conflicts c'

/-- The next access of a program whose monitor `wp` holds is covered by a lock held. -/
theorem covered_of_wp {α : Type} {p : Prog α} {H : List KeyLock} {post : List KeyLock → α → Prop}
    {c : Call} {a : KeyLock} (hp : p.wp guardedLocks H post) (hc : c ∈ p.next) (ha : a ∈ c.access) :
    ∃ l ∈ H, l.Covers a := by
  cases p with
  | pure => cases hc
  | call c' k =>
      cases hc
      cases c with
      | getValue key => exact covered_of_guardedLocks (hp none).choose_spec.1 ha
      | setValue key v => exact covered_of_guardedLocks (hp (.ok ())).choose_spec.1 ha
      | _ => cases ha

/-- **Two handlers side by side never race.**  For every two handlers of `guardedHandlers`, any
key extraction functions and commands, and every machine, in every configuration that some calls
of the two, each atomic and each returning, reach, the two are not both about to access the value
of one key with one of them writing it: a `SetValue` of one excludes every `GetValue` and
`SetValue` of the other at its key. -/
theorem guardedHandlers_race_free (handler handler' : KeyFunc → List Bytes → Prog Reply)
    (hh : handler ∈ guardedHandlers) (hh' : handler' ∈ guardedHandlers) (keyFunc keyFunc' : KeyFunc)
    (command command' : List Bytes) (m m' : Machine) (p q : Prog Reply)
    (hr : Interleaving.Reaches m (handler keyFunc command) (handler' keyFunc' command') m' p q) :
    ¬ Racy p q := by
  obtain ⟨H₁, H₂, hI, hp, hq⟩ :=
    wp_reaches (I := fun H₁ H₂ m' => Excl (lockView m.server) (H₁ ++ H₂) (lockView m'.server))
      (fun _ H₂ _ _ _ _ _ hI hstep hδ => hI.stepCall hstep (heldLocks_append H₂ (heldLocks_of_guardedLocks hδ)))
      (fun H₁ _ _ _ _ _ _ hI hstep hδ => ((hI.perm List.perm_append_comm).stepCall hstep
        (heldLocks_append H₁ (heldLocks_of_guardedLocks hδ))).perm List.perm_append_comm)
      (guardedHandlers_guarded handler hh keyFunc command [] (List.nil_subset _))
      (guardedHandlers_guarded handler' hh' keyFunc' command' [] (List.nil_subset _)) (Excl.start _) hr
  rintro ⟨c, hc, c', hc', a, ha, a', ha', hkey, hw⟩
  obtain ⟨l₁, h₁, hk₁, hw₁⟩ := covered_of_wp hp hc ha
  obtain ⟨l₂, h₂, hk₂, hw₂⟩ := covered_of_wp hq hc' ha'
  exact hI.disjoint h₁ h₂ (by rw [hk₁, hk₂, hkey]) (hw.imp hw₁ hw₂)

/-- `SINTER s b` and `SADD b x` after `SADD s a`: once `SINTER` found `b` absent and `SADD` created
it, `SINTER` is about to release its read lock of `s` and `SADD` to store at `b`, and the two do
not race. -/
theorem sinter_sadd_race_free :
    ∃ m' p q, Interleaving.Reaches saddS (handleSINTER allReadKeys [ascii "SINTER", ascii "s", ascii "b"])
      (handleSADD firstWriteKey [ascii "SADD", ascii "b", ascii "x"]) m' p q ∧ ¬ Racy p q := by
  have hr : Interleaving.Reaches saddS (handleSINTER allReadKeys [ascii "SINTER", ascii "s", ascii "b"])
      (handleSADD firstWriteKey [ascii "SADD", ascii "b", ascii "x"]) _ _ _ :=
    .left rfl (.left rfl (.left rfl (.right rfl (.right rfl (.right rfl (.refl _ _ _))))))
  exact ⟨_, _, _, hr, guardedHandlers_race_free handleSINTER handleSADD (by simp [guardedHandlers])
    (by simp [guardedHandlers]) allReadKeys firstWriteKey _ _ saddS _ _ _ hr⟩

/-! ### `SDIFF` and `SDIFFSTORE` read keys they did not lock -/

/-- On the path on which `KeyExists` reports every key absent, the read-lock loop takes
nothing. -/
theorem rlockKeys_steps_absent {stopOnError : Bool} {H : List KeyLock} :
    ∀ (keys : List Bytes) (locks : GoMap Bool),
      (rlockKeys none stopOnError keys locks).Steps guardedLocks H (Prog.pure (locks, none)) H
  | [], _ => .refl _ _
  | _ :: keys, locks => .call false rfl (rlockKeys_steps_absent keys locks)

/-- Along the path on which the base key holds a set and `KeyExists` reports every other read key
absent, `SDIFF` and `SDIFFSTORE` come to read the set at the first key of `setKeys` holding only
the read lock of the base key. -/
theorem diffWith_steps_unlocked (keyFunc : KeyFunc) (command : List Bytes)
    {setKeys : Keys → Prog (List Bytes)} {pre : Keys → Prog Bytes} {tail : Bytes → List Bytes → Prog Reply}
    {keys : Keys} {base b : Bytes} (rest : List Bytes) (hk : keyFunc command = .ok keys)
    (hbase : keys.readKeys[0]? = some base) (hpre : ∃ d, (pre keys).Steps guardedLocks [] (Prog.pure d) [])
    (hset : (setKeys keys).Steps guardedLocks [⟨base, false⟩] (Prog.pure (b :: rest)) [⟨base, false⟩]) :
    ∃ q, (diffWith keyFunc command setKeys pre tail).Steps guardedLocks [] q [⟨base, false⟩] ∧
      q.next = some (.getValue b) := by
  obtain ⟨d, hd⟩ := hpre
  have hlen : 1 ≤ keys.readKeys.length := by
    obtain ⟨hlt, -⟩ := List.getElem?_eq_some_iff.1 hbase
    omega
  have hcov : guardedLocks [⟨base, false⟩] (.getValue base) true = some [⟨base, false⟩] :=
    if_pos ⟨_, List.mem_singleton_self _, covers_read base false⟩
  unfold diffWith
  rw [hk]
  simp only [index_of_getElem? hbase, sliceFrom_of_le hlen, pure_bind]
  -- `KeyExists`, `KeyRLock`, `GetValue` and the load of the base set, then the read-lock loop
  exact ⟨_, Steps.bind_pure hd (.call true rfl (.call (.ok true) rfl (.call (some (.ref 0)) hcov
    (.call (.set []) rfl (Steps.bind (Steps.bind (Steps.bind_pure (rlockKeys_steps_absent _ _)
      (Steps.bind_pure hset (.refl _ _))) _) _))))), by rfl⟩

/-- A path that comes to read a key no lock it holds covers breaks the property. -/
theorem not_wp_of_steps_getValue {α : Type} {p : Prog α} {H : List KeyLock} {b : Bytes}
    {post : List KeyLock → α → Prop} (hb : ∀ l ∈ H, l.key ≠ b)
    (hp : ∃ q, p.Steps guardedLocks [] q H ∧ q.next = some (.getValue b)) :
    ¬ p.wp guardedLocks [] post := by
  intro h
  obtain ⟨q, hs, hq⟩ := hp
  cases q with
  | pure a => cases hq
  | call c k =>
      cases hq
      obtain ⟨_, hg, -⟩ := wp_steps h hs none
      obtain ⟨l, hl, hkey, -⟩ := covered_of_guardedLocks hg rfl
      exact hb l hl hkey

/-- The tokens from the `n`-th on, of a list whose `n`-th token is `b`. -/
theorem drop_of_getElem? {l : List Bytes} {n : ℕ} {b : Bytes} (h : l[n]? = some b) :
    n ≤ l.length ∧ l.drop n = b :: l.drop (n + 1) := by
  obtain ⟨hn, rfl⟩ := List.getElem?_eq_some_iff.1 h
  exact ⟨hn.le, List.drop_eq_getElem_cons hn⟩

/-- **`SDIFF` and `SDIFFSTORE` read a key they hold no lock of.**  For every key extraction
function and command whose read keys start with `base`: when `SDIFF`'s token `Command[2]`, or
`SDIFFSTORE`'s second read key, is a key `b` other than `base`, a path of the handler (the one on
which `base` holds a set and `KeyExists` reports the other read keys absent) comes to call
`GetValue` at `b` holding only the read lock of `base`, against the precondition of `GetValue`;
so the handler does not read only under its locks.  Both handlers read the sets at those keys
whether their read locks were taken or not. -/
theorem diffHandlers_read_unlocked (keyFunc : KeyFunc) (command : List Bytes) (keys : Keys)
    (base b : Bytes) (hk : keyFunc command = .ok keys) (hbase : keys.readKeys[0]? = some base)
    (hne : b ≠ base) :
    (command[2]? = some b →
      (∃ q, (handleSDIFF keyFunc command).Steps guardedLocks [] q [⟨base, false⟩] ∧
        q.next = some (.getValue b)) ∧
      ¬ (handleSDIFF keyFunc command).wp guardedLocks [] fun _ _ => True) ∧
    (keys.readKeys[1]? = some b → keys.writeKeys ≠ [] →
      (∃ q, (handleSDIFFSTORE keyFunc command).Steps guardedLocks [] q [⟨base, false⟩] ∧
        q.next = some (.getValue b)) ∧
      ¬ (handleSDIFFSTORE keyFunc command).wp guardedLocks [] fun _ _ => True) := by
  have hb : ∀ l ∈ [(⟨base, false⟩ : KeyLock)], l.key ≠ b := by simpa using hne.symm
  refine ⟨fun h2 => ?_, fun h1 hw => ?_⟩
  · obtain ⟨hlen, hdrop⟩ := drop_of_getElem? h2
    have hp : ∃ q, (handleSDIFF keyFunc command).Steps guardedLocks [] q [⟨base, false⟩] ∧
        q.next = some (.getValue b) :=
      diffWith_steps_unlocked keyFunc command (command.drop 3) hk hbase ⟨_, .refl _ _⟩
        (by rw [sliceFrom_of_le hlen, hdrop]; exact .refl _ _)
    exact ⟨hp, not_wp_of_steps_getValue hb hp⟩
  · obtain ⟨hlen, hdrop⟩ := drop_of_getElem? h1
    obtain ⟨d, ds, hd⟩ := List.exists_cons_of_ne_nil hw
    have hp : ∃ q, (handleSDIFFSTORE keyFunc command).Steps guardedLocks [] q [⟨base, false⟩] ∧
        q.next = some (.getValue b) :=
      diffWith_steps_unlocked keyFunc command (keys.readKeys.drop 2) hk hbase
        ⟨d, by rw [index_of_getElem? (show keys.writeKeys[0]? = some d by simp [hd])]; exact .refl _ _⟩
        (by rw [sliceFrom_of_le hlen, hdrop]; exact .refl _ _)
    exact ⟨hp, not_wp_of_steps_getValue hb hp⟩

/-- `SDIFF s b`, with `b` absent, reads `b` unlocked. -/
theorem sdiff_reads_unlocked :
    (∃ q, (handleSDIFF allReadKeys [ascii "SDIFF", ascii "s", ascii "b"]).Steps guardedLocks [] q
        [⟨ascii "s", false⟩] ∧ q.next = some (.getValue (ascii "b"))) ∧
      ¬ (handleSDIFF allReadKeys [ascii "SDIFF", ascii "s", ascii "b"]).wp guardedLocks [] fun _ _ => True :=
  (diffHandlers_read_unlocked allReadKeys [ascii "SDIFF", ascii "s", ascii "b"] ⟨[ascii "s", ascii "b"], []⟩
    (ascii "s") (ascii "b") rfl rfl (by decide)).1 rfl

/-- **`SDIFF` races with `SADD`.**  After `SADD s a`, run `SDIFF s b` until it has found `b` absent
and `SADD b x` until it has created `b`: `SDIFF` is about to read the value of `b`, which it never
locked, while `SADD` holds the write lock of `b` and is about to store its value. -/
theorem sdiff_sadd_race :
    ∃ m' p q, Interleaving.Reaches saddS (handleSDIFF allReadKeys [ascii "SDIFF", ascii "s", ascii "b"])
      (handleSADD firstWriteKey [ascii "SADD", ascii "b", ascii "x"]) m' p q ∧ Racy p q :=
  ⟨_, _, _, .left rfl (.left rfl (.left rfl (.left rfl (.left rfl (.right rfl (.right rfl
    (.right rfl (.refl _ _ _)))))))), _, rfl, _, rfl, _, rfl, _, rfl, rfl, .inr rfl⟩

end EchoVault
