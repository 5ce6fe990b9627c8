/-
**The order in which the set handlers take their per-key locks.**

A multi-key handler takes its per-key locks one key after the other in the order of its key
arguments: the read keys first, then the write keys.  `LocksFollow keys p` says that along every
path of `p`, the keys `p` asks to lock (`KeyRLock`, `KeyLock`, `CreateKeyAndLock`), in order,
form a sublist of `keys`; it is checked by the monitor `lockOrder`, which walks through `keys`.
Nothing sorts the keys, so the order is the order the client wrote them in, and a key written
twice is locked twice.  `SMOVE` creates a missing destination with `CreateKeyAndLock`, which takes
the key-creation lock, while it holds the lock of its source: against the global order, in which
the key-creation lock comes before every per-key lock.

The handlers are built from shared pieces (the read-lock loop, the destination store), so the
proofs go through `LocksWithin L p`: started from any list that begins with `L`, `p` asks only
for keys of `L`, in order, and leaves the rest of the list alone.  It composes along `>>=`.

Main definitions:

* `EchoVault.lockOrder`, `EchoVault.LocksFollow`, `EchoVault.LocksWithin`;
* `EchoVault.argKeys` — the read keys and then the write keys of a command.

Main results:

* `EchoVault.LocksWithin.bind` — lock requests compose along a sequence;
* `EchoVault.rlockKeys_locksWithin` — the read-lock loop asks for its keys in order;
* `EchoVault.multiKey_locks_follow_arguments` — **the eight multi-key set handlers lock in the
  order of their key arguments**, for every key extraction function and every command;
* `EchoVault.multiKey_locks_ascending_of_sorted` — with its keys given in ascending order, each
  of them locks in ascending order;
* `EchoVault.smove_breaks_lock_order` — `SMOVE a c m` takes the key-creation lock holding the
  lock of `a`, `SMOVE b a m` locks `b` before `a`, and `SMOVE s s m` waits on the lock it holds.
-/

import EchoVault.Handler.Set
import EchoVault.Keyspace.Logic

set_option relaxedAutoImplicit false
set_option autoImplicit false

namespace EchoVault

open Prog
open scoped List

/-! ### The lock-order monitor -/

/-- The key a call asks to lock: `KeyLock`, `KeyRLock` and `CreateKeyAndLock`. -/
def Call.lockKey : Call → Option Bytes
  | .keyLock k | .keyRLock k | .createKeyAndLock k => some k
  | _ => none

/-- `L` past the first occurrence of `k`. -/
def afterFirst (k : Bytes) : List Bytes → List Bytes
  | [] => []
  | x :: xs => if x = k then xs else afterFirst k xs

/-- The lock-order monitor: its state is what is left of the key list; a lock request must find
its key there, and moves past its first occurrence. -/
def lockOrder : Monitor (List Bytes) := fun L c _ =>
  match c.lockKey with
  | none => some L
  | some k => if k ∈ L then some (afterFirst k L) else none

/-- Along every path of `p`, the keys `p` asks to lock, in order, form a sublist of `keys`. -/
def LocksFollow {α : Type} (keys : List Bytes) (p : Prog α) : Prop :=
  p.wp lockOrder keys fun _ _ => True

@[simp] theorem afterFirst_cons_self (k : Bytes) (xs : List Bytes) : afterFirst k (k :: xs) = xs := by
  simp [afterFirst]

theorem afterFirst_sublist (k : Bytes) (L : List Bytes) : afterFirst k L <+ L := by
  induction L with
  | nil => exact List.Sublist.slnil
  | cons x xs ih =>
      unfold afterFirst
      split
      · exact List.sublist_cons_self x xs
      · exact ih.cons x

/-- Past the same key, a longer list keeps the shorter one's rest as a sublist. -/
theorem afterFirst_sublist_mono {k : Bytes} {L S : List Bytes} (hLS : L <+ S) (hk : k ∈ L) :
    afterFirst k L <+ afterFirst k S := by
  induction hLS with
  | slnil => exact absurd hk (List.not_mem_nil k)
  | cons x h ih =>
      rw [afterFirst.eq_2]
      split
      · exact (afterFirst_sublist k _).trans h
      · exact ih hk
  | cons₂ x h ih =>
      simp only [afterFirst.eq_2]
      split
      · exact h
      · exact ih (List.mem_of_ne_of_mem (Ne.symm ‹_›) hk)

/-- The monitor accepts on a longer list whatever it accepts on a sublist of it, and its state
stays longer. -/
theorem lockOrder_sublist_mono {L S L' : List Bytes} {c : Call} {b : Bool} (hLS : L <+ S)
    (h : lockOrder L c b = some L') : ∃ S', lockOrder S c b = some S' ∧ L' <+ S' := by
  unfold lockOrder at h ⊢
  cases hc : c.lockKey with
  | none => simp only [hc, Option.some.injEq] at h ⊢; exact ⟨S, rfl, h ▸ hLS⟩
  | some k =>
      simp only [hc] at h ⊢
      split at h
      · rename_i hk
        cases h
        exact ⟨_, if_pos (hLS.subset hk), afterFirst_sublist_mono hLS hk⟩
      · cases h

theorem wp_lockOrder_sublist {α : Type} {p : Prog α} {L S : List Bytes} {post : List Bytes → α → Prop}
    (hp : p.wp lockOrder L post) (hLS : L <+ S) :
    p.wp lockOrder S fun S' a => ∃ L', L' <+ S' ∧ post L' a := by
  refine wp_simulate (fun L S => L <+ S) ?_ hp hLS
  exact fun _ _ _ _ _ h h' => lockOrder_sublist_mono h h'

/-- **A path that follows a list follows every list it is a sublist of.** -/
theorem LocksFollow.mono {α : Type} {p : Prog α} {L S : List Bytes} (hp : LocksFollow L p)
    (hLS : L <+ S) : LocksFollow S p :=
  wp_mono (fun _ _ _ => trivial) (wp_lockOrder_sublist hp hLS)

/-! ### Ascending lock requests -/

/-- The lexicographic order of key names, byte by byte, as Go's `<` compares strings. -/
def keyLess : Bytes → Bytes → Bool
  | [], [] => false
  | [], _ :: _ => true
  | _ :: _, [] => false
  | a :: as, b :: bs => a < b || (a = b && keyLess as bs)

/-- The monitor of the lock order the spec asks for: each key locked is greater than the one
locked before it. -/
def lockAscending : Monitor (Option Bytes) := fun last c _ =>
  match c.lockKey, last with
  | none, _ => some last
  | some k, none => some (some k)
  | some k, some l => if keyLess l k then some (some k) else none

/-- Along every path of `p`, each key `p` asks to lock is greater than the one before. -/
def LocksAscending {α : Type} (p : Prog α) : Prop :=
  p.wp lockAscending none fun _ _ => True

theorem rel_of_mem_afterFirst {r : Bytes → Bytes → Prop} {k x : Bytes} {L : List Bytes}
    (hL : L.Pairwise r) (hk : k ∈ L) (hx : x ∈ afterFirst k L) : r k x := by
  induction L with
  | nil => exact absurd hk (List.not_mem_nil k)
  | cons y ys ih =>
      rw [List.pairwise_cons] at hL
      rw [afterFirst.eq_2] at hx
      split at hx
      · subst_vars; exact hL.1 x hx
      · exact ih hL.2 (List.mem_of_ne_of_mem (Ne.symm ‹_›) hk) hx

/-- **Requests that follow a strictly ascending key list are strictly ascending.** -/
theorem LocksFollow.ascending {α : Type} {p : Prog α} {L : List Bytes} (hp : LocksFollow L p)
    (hL : L.Pairwise fun a b => keyLess a b) : LocksAscending p := by
  refine wp_mono (fun _ _ _ => trivial)
    (wp_simulate (fun S o => S.Pairwise (fun a b => keyLess a b) ∧
      ∀ l, o = some l → ∀ x ∈ S, keyLess l x) ?_ hp
      ⟨hL, fun _ h => nomatch h⟩)
  intro S o c b S' ⟨hS, ho⟩ h
  unfold lockOrder at h
  cases hc : c.lockKey with
  | none =>
      simp only [hc, Option.some.injEq] at h
      exact ⟨o, by simp [lockAscending, hc], h ▸ ⟨hS, ho⟩⟩
  | some k =>
      simp only [hc] at h
      split at h
      · rename_i hk
        cases h
        refine ⟨some k, ?_, hS.sublist (afterFirst_sublist k S), fun l hl x hx =>
          Option.some.inj hl ▸ rel_of_mem_afterFirst hS hk hx⟩
        rcases o with _ | l
        · simp [lockAscending, hc]
        · simp [lockAscending, hc, ho l rfl k hk]
      · cases h

/-! ### Lock requests within a list -/

/-- Started from `L ++ R`, `p` asks only for keys of `L`, in order, and ends with `R` left. -/
def LocksWithin {α : Type} (L : List Bytes) (p : Prog α) : Prop :=
  ∀ R, p.wp lockOrder (L ++ R) fun S _ => R <+ S

namespace LocksWithin

variable {α β : Type} {L L₁ L₂ : List Bytes}

theorem locksFollow {p : Prog α} (h : LocksWithin L p) : LocksFollow L p := by
  have := h []
  rw [List.append_nil] at this
  exact wp_mono (fun _ _ _ => trivial) this

theorem mono {p : Prog α} (h : LocksWithin L₁ p) (hL : L₁ <+ L₂) : LocksWithin L₂ p := fun R =>
  wp_mono (fun _ _ ⟨_, hS, hR⟩ => hR.trans hS)
    (wp_lockOrder_sublist (h R) (hL.append (List.Sublist.refl R)))

theorem pure (a : α) : LocksWithin L (Prog.pure a) := fun R => List.sublist_append_right L R

/-- **Lock requests compose along a sequence.** -/
theorem bind {p : Prog α} {f : α → Prog β} (hp : LocksWithin L₁ p) (hf : ∀ a, LocksWithin L₂ (f a)) :
    LocksWithin (L₁ ++ L₂) (p >>= f) := by
  intro R
  rw [wp_bind, List.append_assoc]
  exact wp_mono (fun S a hS => wp_mono (fun _ _ ⟨_, hS', hR⟩ => hR.trans hS')
    (wp_lockOrder_sublist (hf a R) hS)) (hp (L₂ ++ R))

theorem bind_free {p : Prog α} {f : α → Prog β} (hp : LocksWithin [] p) (hf : ∀ a, LocksWithin L (f a)) :
    LocksWithin L (p >>= f) :=
  hp.bind hf

theorem bind_free_right {p : Prog α} {f : α → Prog β} (hp : LocksWithin L p)
    (hf : ∀ a, LocksWithin [] (f a)) : LocksWithin L (p >>= f) := by
  simpa using hp.bind hf

/-- Go's `if err != nil { return … }` after `p`. -/
theorem bind_except {ε : Type} {p : Prog (Except ε β)} {g : Except ε β → Prog α}
    (hp : LocksWithin L₁ p) (herr : ∀ e, LocksWithin L₂ (g (.error e)))
    (hok : ∀ b, LocksWithin L₂ (g (.ok b))) : LocksWithin (L₁ ++ L₂) (p >>= g) :=
  hp.bind fun r => by rcases r with e | b; exacts [herr e, hok b]

/-- The error check after a part that locks nothing. -/
theorem free_bind_except {ε : Type} {p : Prog (Except ε β)} {g : Except ε β → Prog α}
    (hp : LocksWithin [] p) (herr : ∀ e, LocksWithin L (g (.error e)))
    (hok : ∀ b, LocksWithin L (g (.ok b))) : LocksWithin L (p >>= g) :=
  bind_except hp herr hok

/-- The error check after a part that locks `key`. -/
theorem lock_bind_except {ε : Type} {key : Bytes} {p : Prog (Except ε β)} {g : Except ε β → Prog α}
    (hp : LocksWithin [key] p) (herr : ∀ e, LocksWithin L (g (.error e)))
    (hok : ∀ b, LocksWithin L (g (.ok b))) : LocksWithin (key :: L) (p >>= g) :=
  bind_except hp herr hok

/-- A type assertion that failed or succeeded, after a part that locks nothing. -/
theorem bind_option {p : Prog (Option β)} {g : Option β → Prog α} (hp : LocksWithin [] p)
    (hnone : LocksWithin L (g none)) (hsome : ∀ b, LocksWithin L (g (some b))) :
    LocksWithin L (p >>= g) :=
  bind_free hp fun r => by rcases r with _ | b; exacts [hnone, hsome b]

theorem call_free {c : Call} {k : c.Result → Prog α} (hc : c.lockKey = none)
    (hk : ∀ r, LocksWithin L (k r)) : LocksWithin L (.call c k) := fun R r =>
  ⟨_, by simp [lockOrder, hc], hk r R⟩

theorem call_lock {c : Call} {k : c.Result → Prog α} {key : Bytes} (hc : c.lockKey = some key)
    (hk : ∀ r, LocksWithin L (k r)) : LocksWithin (key :: L) (.call c k) := fun R r =>
  ⟨_, by simp [lockOrder, hc], hk r R⟩

/-- A capability call that locks nothing, followed by `f`. -/
theorem call_bind_free {c : Call} {f : c.Result → Prog β} (hc : c.lockKey = none)
    (hf : ∀ r, LocksWithin L (f r)) : LocksWithin L (.call c Prog.pure >>= f) :=
  call_free hc hf

/-- A capability call that locks `key`, followed by `f`. -/
theorem call_bind_lock {c : Call} {f : c.Result → Prog β} {key : Bytes} (hc : c.lockKey = some key)
    (hf : ∀ r, LocksWithin L (f r)) : LocksWithin (key :: L) (.call c Prog.pure >>= f) :=
  call_lock hc hf

theorem call_pure_free {c : Call} (hc : c.lockKey = none) : LocksWithin [] (.call c Prog.pure) :=
  call_free hc pure

theorem call_pure_lock {c : Call} {key : Bytes} (hc : c.lockKey = some key) :
    LocksWithin [key] (.call c Prog.pure) :=
  call_lock hc pure

theorem panic_bind (msg : Bytes) (f : α → Prog β) : LocksWithin L (panic msg >>= f) := fun _ r =>
  r.elim

theorem index_bind {xs : List Bytes} {i : ℕ} {f : Bytes → Prog α}
    (hf : ∀ x, xs[i]? = some x → LocksWithin L (f x)) : LocksWithin L (index xs i >>= f) := by
  unfold index
  split
  · rename_i x hx
    exact hf x (by rwa [← List.get?_eq_getElem?])
  · exact panic_bind _ f

theorem panic (msg : Bytes) : LocksWithin L (EchoVault.Prog.panic msg : Prog α) := fun _ r => r.elim

theorem sliceFrom_free (xs : List Bytes) (i : ℕ) : LocksWithin [] (sliceFrom xs i) := by
  unfold sliceFrom
  split
  · exact pure _
  · exact panic _

theorem sliceFrom_bind {xs : List Bytes} {i : ℕ} {f : List Bytes → Prog α}
    (hf : i ≤ xs.length → LocksWithin L (f (xs.drop i))) : LocksWithin L (sliceFrom xs i >>= f) := by
  unfold sliceFrom
  split
  · exact hf ‹_›
  · exact panic_bind _ f

theorem withDefer {p : Prog α} {d : Prog Unit} (hp : LocksWithin L p) (hd : LocksWithin [] d) :
    LocksWithin L (EchoVault.Prog.withDefer d p) :=
  bind_free_right hp fun a => bind_free hd fun _ => pure a

end LocksWithin

/-! ### The shared pieces -/

open LocksWithin

theorem runlockAll_locksWithin (locks : GoMap Bool) : LocksWithin [] (runlockAll locks) := by
  induction locks with
  | nil => exact pure ()
  | cons e locks ih =>
      obtain ⟨key, locked⟩ := e
      rw [runlockAll]
      split
      · exact call_bind_free rfl fun _ => ih
      · exact bind_free (pure ()) fun _ => ih

theorem withLocks_locksWithin {L : List Bytes} {body : Prog (GoMap Bool × Reply)} (h : LocksWithin L body) :
    LocksWithin L (withLocks body) :=
  bind_free_right h fun a => bind_free (runlockAll_locksWithin a.1) fun _ => pure a.2

theorem getSet_locksWithin (key : Bytes) : LocksWithin [] (getSet key) := by
  refine call_bind_free rfl fun v => ?_
  rcases v with _ | _ | r
  · exact pure none
  · exact call_bind_free rfl fun o => by cases o <;> exact pure _
  · exact pure none

theorem setsOfLocks_locksWithin (checkLocked : Bool) (locks : GoMap Bool) :
    LocksWithin [] (setsOfLocks checkLocked locks) := by
  induction locks with
  | nil => exact pure _
  | cons e locks ih =>
      obtain ⟨key, locked⟩ := e
      unfold setsOfLocks
      split
      · exact ih
      · exact bind_option (getSet_locksWithin key) (pure _) fun _ =>
          bind_free ih fun a => by cases a <;> exact pure _

theorem setsOf_locksWithin (keys : List Bytes) : LocksWithin [] (setsOf keys) := by
  induction keys with
  | nil => exact pure _
  | cons key keys ih =>
      exact bind_option (getSet_locksWithin key) ih fun _ => bind_free ih fun _ => pure _

/-- **The read-lock loop asks for its keys in order.** -/
theorem rlockKeys_locksWithin (missing : Option Reply) (stopOnError : Bool) (keys : List Bytes)
    (locks : GoMap Bool) : LocksWithin keys (rlockKeys missing stopOnError keys locks) := by
  induction keys generalizing locks with
  | nil => exact pure _
  | cons key keys ih =>
      refine call_bind_free rfl fun (b : Bool) => ?_
      cases b
      · cases missing
        · exact (ih locks).mono (List.sublist_cons_self key keys)
        · exact pure _
      · refine call_bind_lock rfl fun r => ?_
        cases r
        · cases stopOnError
          · exact ih locks
          · exact pure _
        · exact ih _

/-- The tail of `SDIFFSTORE` and `SINTERSTORE` asks to lock its destination only. -/
theorem storeSet_locksWithin (destination : Bytes) (r : ℕ) (res : Bytes) :
    LocksWithin [destination] (storeSet destination r res) := by
  refine call_bind_free rfl fun (b : Bool) => ?_
  dsimp only
  split <;> exact lock_bind_except (call_pure_lock rfl) (fun _ => pure _) fun _ =>
    free_bind_except (call_pure_free rfl) (fun _ => pure _) fun _ => call_bind_free rfl fun _ => pure _

/-! ### The multi-key handlers -/

/-- The read keys and then the write keys of a command, when its key extraction succeeds. -/
def argKeys (keyFunc : KeyFunc) (command : List Bytes) : List Bytes :=
  match keyFunc command with
  | .ok keys => keys.readKeys ++ keys.writeKeys
  | .error _ => []

theorem head_sublist_of_getElem? {xs : List Bytes} {i : ℕ} {x : Bytes} (h : xs[i]? = some x) :
    [x] <+ xs :=
  List.singleton_sublist.2 (List.getElem?_mem h)

/-- `SDIFF` and `SDIFFSTORE` lock the base key, then the other read keys, then what `tail` locks
within the write keys. -/
theorem diffWith_locksWithin (keyFunc : KeyFunc) (command : List Bytes)
    (setKeys : Keys → Prog (List Bytes)) (pre : Keys → Prog Bytes) (tail : Bytes → List Bytes → Prog Reply)
    (Dest : Keys → Bytes → Prop) (hset : ∀ keys, LocksWithin [] (setKeys keys))
    (hpre : ∀ keys L (f : Bytes → Prog Reply), (∀ d, Dest keys d → LocksWithin L (f d)) →
      LocksWithin L (pre keys >>= f))
    (htail : ∀ keys d diff, Dest keys d → LocksWithin keys.writeKeys (tail d diff)) :
    LocksWithin (argKeys keyFunc command) (diffWith keyFunc command setKeys pre tail) := by
  unfold argKeys diffWith
  cases keyFunc command with
  | error e => exact pure _
  | ok keys =>
      obtain ⟨readKeys, writeKeys⟩ := keys
      refine hpre _ _ _ fun d hd => index_bind fun base hbase => ?_
      obtain ⟨rest, rfl⟩ : ∃ rest, readKeys = base :: rest := by
        cases readKeys <;> simp_all
      refine call_bind_free rfl fun (b : Bool) => ?_
      cases b
      · exact pure _
      · refine lock_bind_except (call_pure_lock rfl) (fun _ => pure _) fun _ =>
          withDefer (bind_option (getSet_locksWithin base) (pure _) fun ⟨_, baseSet⟩ => ?_)
            (call_pure_free rfl)
        refine withLocks_locksWithin (sliceFrom_bind fun _ => ?_)
        refine (rlockKeys_locksWithin none false rest []).bind fun x => ?_
        exact bind_free (hset _) fun sk => bind_free (setsOf_locksWithin sk) fun sets =>
          bind_free_right (htail _ d _ hd) fun _ => pure _

/-- `SINTER`, `SINTERCARD` and `SINTERSTORE` read-lock their read keys, then lock what `tail`
locks within the write keys. -/
theorem interWith_locksWithin (keyFunc : KeyFunc) (command : List Bytes) (missing : Bytes)
    (tail : Keys → List (List Bytes) → Prog Reply)
    (htail : ∀ keys sets, LocksWithin keys.writeKeys (tail keys sets)) :
    LocksWithin (argKeys keyFunc command) (interWith keyFunc command missing tail) := by
  unfold argKeys interWith
  cases keyFunc command with
  | error e => exact pure _
  | ok keys =>
      refine withLocks_locksWithin ((rlockKeys_locksWithin _ _ _ _).bind fun ⟨locks, early⟩ => ?_)
      rcases early with _ | r
      · refine bind_free (setsOfLocks_locksWithin false locks) fun sets => ?_
        rcases sets with e | sets
        · exact pure _
        · exact bind_free_right (htail keys sets) fun _ => pure _
      · exact pure _

/-- `SUNION` and `SUNIONSTORE` read-lock their read keys, then lock what `tail` locks within the
write keys. -/
theorem unionWith_locksWithin (keyFunc : KeyFunc) (command : List Bytes)
    (tail : Keys → List Bytes → Prog Reply) (htail : ∀ keys u, LocksWithin keys.writeKeys (tail keys u)) :
    LocksWithin (argKeys keyFunc command) (unionWith keyFunc command tail) := by
  unfold argKeys unionWith
  cases keyFunc command with
  | error e => exact pure _
  | ok keys =>
      refine withLocks_locksWithin ((rlockKeys_locksWithin _ _ _ _).bind fun ⟨locks, early⟩ => ?_)
      rcases early with _ | r
      · refine bind_free (setsOfLocks_locksWithin true locks) fun sets => ?_
        rcases sets with e | sets
        · exact pure _
        · exact bind_free_right (htail keys _) fun _ => pure _
      · exact pure _

theorem handleSDIFF_locksWithin (keyFunc : KeyFunc) (command : List Bytes) :
    LocksWithin (argKeys keyFunc command) (handleSDIFF keyFunc command) :=
  diffWith_locksWithin _ _ _ _ _ (fun _ _ => True) (fun _ => sliceFrom_free _ _)
    (fun _ _ _ hf => hf _ trivial) fun _ _ _ _ => pure _

theorem handleSDIFFSTORE_locksWithin (keyFunc : KeyFunc) (command : List Bytes) :
    LocksWithin (argKeys keyFunc command) (handleSDIFFSTORE keyFunc command) :=
  diffWith_locksWithin _ _ _ _ _ (fun keys d => keys.writeKeys[0]? = some d)
    (fun _ => sliceFrom_free _ _) (fun _ _ _ hf => index_bind hf)
    fun _ d _ hd => call_bind_free rfl fun r =>
      (storeSet_locksWithin d r _).mono (head_sublist_of_getElem? hd)

theorem handleSINTER_locksWithin (keyFunc : KeyFunc) (command : List Bytes) :
    LocksWithin (argKeys keyFunc command) (handleSINTER keyFunc command) :=
  interWith_locksWithin _ _ _ _ fun _ _ => by split <;> exact pure _

theorem handleSINTERCARD_locksWithin (keyFunc : KeyFunc) (command : List Bytes) :
    LocksWithin (argKeys keyFunc command) (handleSINTERCARD keyFunc command) := by
  unfold handleSINTERCARD
  split
  · exact pure _
  · exact pure _
  · exact interWith_locksWithin _ _ _ _ fun _ _ => by split <;> exact pure _

theorem handleSINTERSTORE_locksWithin (keyFunc : KeyFunc) (command : List Bytes) :
    LocksWithin (argKeys keyFunc command) (handleSINTERSTORE keyFunc command) :=
  interWith_locksWithin _ _ _ _ fun _ _ => call_bind_free rfl fun r => index_bind fun d hd =>
    (storeSet_locksWithin d r _).mono (head_sublist_of_getElem? hd)

theorem handleSUNION_locksWithin (keyFunc : KeyFunc) (command : List Bytes) :
    LocksWithin (argKeys keyFunc command) (handleSUNION keyFunc command) :=
  unionWith_locksWithin _ _ _ fun _ _ => pure _

theorem handleSUNIONSTORE_locksWithin (keyFunc : KeyFunc) (command : List Bytes) :
    LocksWithin (argKeys keyFunc command) (handleSUNIONSTORE keyFunc command) := by
  refine unionWith_locksWithin _ _ _ fun _ _ => call_bind_free rfl fun r => index_bind fun d hd => ?_
  refine LocksWithin.mono ?_ (head_sublist_of_getElem? hd)
  refine call_bind_free rfl fun (b : Bool) => ?_
  dsimp only
  split <;> exact lock_bind_except (call_pure_lock rfl) (fun _ => pure _) fun _ =>
    withDefer (free_bind_except (call_pure_free rfl) (fun _ => pure _) fun _ => pure _) (call_pure_free rfl)

theorem moveMember_locksWithin (rs : ℕ) (source : List Bytes) (rd : ℕ) (destination : List Bytes)
    (member : Bytes) : LocksWithin [] (moveMember rs source rd destination member) := by
  unfold moveMember
  split
  exact call_bind_free rfl fun _ => call_bind_free rfl fun _ => pure _

/-- `SMOVE` locks its source, then its destination. -/
theorem handleSMOVE_locksWithin (keyFunc : KeyFunc) (command : List Bytes) :
    LocksWithin (argKeys keyFunc command) (handleSMOVE keyFunc command) := by
  unfold argKeys handleSMOVE
  cases keyFunc command with
  | error e => exact pure _
  | ok keys =>
      refine index_bind fun source hs => index_bind fun destination hd => index_bind fun _ _ => ?_
      have hsub : [source, destination] <+ keys.readKeys ++ keys.writeKeys := by
        obtain ⟨readKeys, _ | ⟨s, _ | ⟨d, rest⟩⟩⟩ := keys <;> simp_all
      refine LocksWithin.mono ?_ hsub
      refine call_bind_free rfl fun (b : Bool) => ?_
      cases b
      · exact pure _
      refine lock_bind_except (call_pure_lock rfl) (fun _ => pure _) fun _ =>
        withDefer (bind_option (getSet_locksWithin source) (pure _) fun _ =>
          call_bind_free rfl fun (b : Bool) => ?_) (call_pure_free rfl)
      cases b
      · exact lock_bind_except (call_pure_lock rfl) (fun _ => pure _) fun _ =>
          withDefer (call_bind_free rfl fun _ => free_bind_except (call_pure_free rfl) (fun _ => pure _)
            fun _ => moveMember_locksWithin _ _ _ _ _) (call_pure_free rfl)
      · exact lock_bind_except (call_pure_lock rfl) (fun _ => pure _) fun _ =>
          withDefer (bind_option (getSet_locksWithin destination) (pure _) fun _ =>
            moveMember_locksWithin _ _ _ _ _) (call_pure_free rfl)

/-- **The multi-key set handlers lock in the order of their key arguments.**  For every key
extraction function and every command, along every path of `SDIFF`, `SDIFFSTORE`, `SINTER`,
`SINTERCARD`, `SINTERSTORE`, `SMOVE`, `SUNION` and `SUNIONSTORE`, the keys asked for by
`KeyRLock`, `KeyLock` and `CreateKeyAndLock`, in order, form a sublist of the read keys followed
by the write keys. -/
theorem multiKey_locks_follow_arguments (keyFunc : KeyFunc) (command : List Bytes) :
    LocksFollow (argKeys keyFunc command) (handleSDIFF keyFunc command) ∧
      LocksFollow (argKeys keyFunc command) (handleSDIFFSTORE keyFunc command) ∧
      LocksFollow (argKeys keyFunc command) (handleSINTER keyFunc command) ∧
      LocksFollow (argKeys keyFunc command) (handleSINTERCARD keyFunc command) ∧
      LocksFollow (argKeys keyFunc command) (handleSINTERSTORE keyFunc command) ∧
      LocksFollow (argKeys keyFunc command) (handleSMOVE keyFunc command) ∧
      LocksFollow (argKeys keyFunc command) (handleSUNION keyFunc command) ∧
      LocksFollow (argKeys keyFunc command) (handleSUNIONSTORE keyFunc command) :=
  ⟨(handleSDIFF_locksWithin _ _).locksFollow, (handleSDIFFSTORE_locksWithin _ _).locksFollow,
    (handleSINTER_locksWithin _ _).locksFollow, (handleSINTERCARD_locksWithin _ _).locksFollow,
    (handleSINTERSTORE_locksWithin _ _).locksFollow, (handleSMOVE_locksWithin _ _).locksFollow,
    (handleSUNION_locksWithin _ _).locksFollow, (handleSUNIONSTORE_locksWithin _ _).locksFollow⟩

/-- **Keys given in ascending order are locked in ascending order.**  When the read keys and
then the write keys of a command are strictly ascending, every multi-key set handler asks for
its per-key locks in strictly ascending key order, along every path. -/
theorem multiKey_locks_ascending_of_sorted (keyFunc : KeyFunc) (command : List Bytes)
    (hsorted : (argKeys keyFunc command).Pairwise fun a b => keyLess a b) :
    LocksAscending (handleSDIFF keyFunc command) ∧ LocksAscending (handleSDIFFSTORE keyFunc command) ∧
      LocksAscending (handleSINTER keyFunc command) ∧
      LocksAscending (handleSINTERCARD keyFunc command) ∧
      LocksAscending (handleSINTERSTORE keyFunc command) ∧
      LocksAscending (handleSMOVE keyFunc command) ∧ LocksAscending (handleSUNION keyFunc command) ∧
      LocksAscending (handleSUNIONSTORE keyFunc command) :=
  ⟨(handleSDIFF_locksWithin _ _).locksFollow.ascending hsorted,
    (handleSDIFFSTORE_locksWithin _ _).locksFollow.ascending hsorted,
    (handleSINTER_locksWithin _ _).locksFollow.ascending hsorted,
    (handleSINTERCARD_locksWithin _ _).locksFollow.ascending hsorted,
    (handleSINTERSTORE_locksWithin _ _).locksFollow.ascending hsorted,
    (handleSMOVE_locksWithin _ _).locksFollow.ascending hsorted,
    (handleSUNION_locksWithin _ _).locksFollow.ascending hsorted,
    (handleSUNIONSTORE_locksWithin _ _).locksFollow.ascending hsorted⟩

/-- `SINTER a b` names its keys in ascending order, so it locks them in ascending order. -/
theorem sinter_ab_locks_ascending :
    (argKeys allReadKeys [ascii "SINTER", ascii "a", ascii "b"]).Pairwise (fun a b => keyLess a b) ∧
      LocksAscending (handleSINTER allReadKeys [ascii "SINTER", ascii "a", ascii "b"]) :=
  ⟨by decide, (multiKey_locks_ascending_of_sorted allReadKeys _ (by decide)).2.2.1⟩

/-! ### Runs on two sets -/

/-- The keys of the successful lock calls of a trace, in order. -/
def lockedKeys (trace : List Event) : List Bytes :=
  trace.filterMap fun
    | .call c true => c.lockKey
    | _ => none

/-- A key extraction function that returns the first two arguments as the write keys, as the
one of `SMOVE` does. -/
def firstTwoWriteKeys : KeyFunc := fun command => .ok ⟨[], (command.drop 1).take 2⟩

/-- `SMOVE source destination member`. -/
def smove (source destination member : String) : Prog Reply :=
  handleSMOVE firstTwoWriteKeys [ascii "SMOVE", ascii source, ascii destination, ascii member]

/-- The keyspace after `SADD a x` and `SADD b y`, with an empty trace. -/
def twoSets : Machine :=
  let m := ((handleSADD firstWriteKey [ascii "SADD", ascii "a", ascii "x"]).run emptyUnlimited).machine
  { ((handleSADD firstWriteKey [ascii "SADD", ascii "b", ascii "y"]).run m).machine with trace := [] }

/-- Both `SMOVE`s hold their source and have tested their destination. -/
def crossedSchedule : List Bool := [true, true, true, true, false, false, false, false, true, false]

/-- **`SMOVE` breaks the lock order.**  On the sets `a` and `b`: `SMOVE a c x` holds the lock of
`a` when its `CreateKeyAndLock(c)` takes the key-creation lock, which comes before every per-key
lock in the global order; `SMOVE b a y` locks `b` and then `a`, against the ascending order;
`SMOVE a a x` locks `a` and then waits for the lock of `a` it holds; and once `SMOVE a b x` holds
`a` and `SMOVE b a y` holds `b`, the next step of either waits for the key the other holds. -/
theorem smove_breaks_lock_order :
    (∃ before after, ((smove "a" "c" "x").run twoSets).machine.trace = before ++ .creationLock :: after ∧
      .call (.keyLock (ascii "a")) true ∈ before ∧ .call (.keyUnlock (ascii "a")) true ∉ before ∧
      .call (.keyUnlock (ascii "a")) true ∈ after) ∧
    lockedKeys ((smove "b" "a" "y").run twoSets).machine.trace = [ascii "b", ascii "a"] ∧
      ((smove "b" "a" "y").run twoSets).result = .ok (.ok (fmtCount 1)) ∧
      ((smove "a" "a" "x").run twoSets).result = .error (.blocked (.key (ascii "a"))) ∧
      (Interleaving.runSched crossedSchedule (smove "a" "b" "x") (smove "b" "a" "y") twoSets).result =
        .error (.blocked (.key (ascii "b"))) ∧
      (Interleaving.runSched (crossedSchedule ++ [false]) (smove "a" "b" "x") (smove "b" "a" "y")
        twoSets).result = .error (.blocked (.key (ascii "a"))) :=
  ⟨⟨((smove "a" "c" "x").run twoSets).machine.trace.take 5, ((smove "a" "c" "x").run twoSets).machine.trace.drop 6,
    by decide, by decide, by decide, by decide⟩, by decide⟩

/-! ### A repeated key -/

/-- The keyspace after `SADD k x`, with an empty trace. -/
def oneSet : Machine :=
  { ((handleSADD firstWriteKey [ascii "SADD", ascii "k", ascii "x"]).run emptyUnlimited).machine with
    trace := [] }

/-- `SINTER k k`. -/
def sinterKK : Prog Reply := handleSINTER allReadKeys [ascii "SINTER", ascii "k", ascii "k"]

/-- **`SINTER k k` keeps a read lock on `k`.**  It read-locks `k` twice and releases it once, so
`k` is left with one reader, and a later `SADD k y` waits for the write lock of `k`. -/
theorem sinter_repeated_key_keeps_read_lock :
    (sinterKK.run oneSet).result = .ok (.ok (renderMembers [ascii "x"])) ∧
      (sinterKK.run oneSet).machine.trace.count (.call (.keyRLock (ascii "k")) true) = 2 ∧
      (sinterKK.run oneSet).machine.trace.count (.call (.keyRUnlock (ascii "k")) true) = 1 ∧
      (sinterKK.run oneSet).machine.server.keyLocks.get (ascii "k") = some ⟨false, 1⟩ ∧
      ((handleSADD firstWriteKey [ascii "SADD", ascii "k", ascii "y"]).run
        (sinterKK.run oneSet).machine).result = .error (.blocked (.key (ascii "k"))) := by
  decide

end EchoVault
