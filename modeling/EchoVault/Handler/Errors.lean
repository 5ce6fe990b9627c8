/-
**What a failed write leaves in the keyspace.**

A write handler of the hash and set modules can fail after it has changed the keyspace: it
creates its key with `CreateKeyAndLock`, or changes its hash in place, before `SetValue`; and
`SetValue` refuses to store when the heap reads at or above the memory limit under
`noeviction`.  Nothing undoes those changes, so a failed `HSET` on an absent key leaves the key
in the lock map with no value, and every later `HSET` on it fails.

What does hold is that a failed write binds nothing.  Every handler returns an error only on
a path where no `SetValue` has stored, and every other capability call only removes bindings
(`Prog.stepCall_noNewBindings`), so each binding of the store and of the expiry map after the
failure was already there before it.  The paths are checked with the monitor `storeFlag`, whose
flag a `SetValue` that stores raises: `StoreLast ok p` says that along every path of `p` a
raised flag ends in a result that `ok` accepts.

Main definitions:

* `EchoVault.storeFlag`, `EchoVault.NoStore`, `EchoVault.StoreLast`;
* `EchoVault.writeHandlers` — `HSET`, `HINCRBY`, `HDEL`, `SADD`, `SDIFFSTORE`, `SINTERSTORE`,
  `SUNIONSTORE` and `SMOVE`.

Main results:

* `EchoVault.StoreLast.noNewBindings_of_run` — a run of such a program that ends in a result
  `ok` rejects adds no binding;
* `EchoVault.write_error_adds_no_binding` — **a write handler that fails binds nothing**;
* `EchoVault.hset_error_leaves_key_without_value` — `HSET h f v` can fail after it created `h`,
  and `h` then exists without a value.
-/

import EchoVault.Handler.Set
import EchoVault.Handler.Hash
import EchoVault.Keyspace.Logic
import EchoVault.Keyspace.Frame

set_option relaxedAutoImplicit false
set_option autoImplicit false

namespace EchoVault

open Prog

/-! ### The store monitor -/

/-- The store monitor: its flag is raised by a `SetValue` that stored, and stays raised. -/
def storeFlag : Monitor Bool := fun s c ok => some (s || (c.stores && ok))

variable {α β γ : Type}

/-- Once raised, the flag stays raised along every path. -/
theorem wp_storeFlag_raised (p : Prog α) {post : Bool → α → Prop} (h : ∀ a, post true a) :
    p.wp storeFlag true post := by
  induction p with
  | pure a => exact h a
  | call c k ih => exact fun r => ⟨true, rfl, ih r⟩

/-- Along every path of `p`, no `SetValue` stores. -/
def NoStore (p : Prog α) : Prop := p.wp storeFlag false fun s _ => s = false

/-- Along every path of `p` from a lowered flag, a `SetValue` that stored is followed by a
result that `ok` accepts. -/
def StoreLast (ok : α → Bool) (p : Prog α) : Prop :=
  p.wp storeFlag false fun s a => s = true → ok a = true

/-- Along every path of `p`, `ok` accepts the result. -/
def AlwaysOk (ok : α → Bool) (p : Prog α) : Prop := p.wp storeFlag true fun _ a => ok a = true

namespace NoStore

theorem pure (a : α) : NoStore (Prog.pure a) := rfl

theorem bind {p : Prog α} {f : α → Prog β} (hp : NoStore p) (hf : ∀ a, NoStore (f a)) :
    NoStore (p >>= f) := by
  rw [NoStore, wp_bind]
  exact wp_mono (fun s a (hs : s = false) => by subst hs; exact hf a) hp

theorem call_then {c : Call} {k : c.Result → Prog α} (hc : c.stores = false)
    (hk : ∀ r, NoStore (k r)) : NoStore (.call c k) := fun r =>
  ⟨false, by simp [storeFlag, hc], hk r⟩

theorem sliceFrom (xs : List Bytes) (i : ℕ) : NoStore (Prog.sliceFrom xs i) := by
  rw [NoStore, wp_sliceFrom]
  exact fun _ => rfl

theorem withDefer {p : Prog α} {d : Prog Unit} (hp : NoStore p) (hd : NoStore d) :
    NoStore (Prog.withDefer d p) :=
  bind hp fun a => bind hd fun _ => pure a

theorem bind_except {ε : Type} {p : Prog (Except ε β)} {g : Except ε β → Prog α} (hp : NoStore p)
    (herr : ∀ e, NoStore (g (.error e))) (hok : ∀ b, NoStore (g (.ok b))) : NoStore (p >>= g) :=
  bind hp fun r => by rcases r with e | b; exacts [herr e, hok b]

theorem bind_option {p : Prog (Option β)} {g : Option β → Prog α} (hp : NoStore p)
    (hnone : NoStore (g none)) (hsome : ∀ b, NoStore (g (some b))) : NoStore (p >>= g) :=
  bind hp fun r => by rcases r with _ | b; exacts [hnone, hsome b]

end NoStore

namespace StoreLast

variable {ok : α → Bool}

theorem pure (a : α) : StoreLast ok (Prog.pure a) := nofun

/-- A part that stores nothing, followed by `f`. -/
theorem bind {p : Prog β} {f : β → Prog α} (hp : NoStore p) (hf : ∀ a, StoreLast ok (f a)) :
    StoreLast ok (p >>= f) := by
  rw [StoreLast, wp_bind]
  exact wp_mono (fun s a (hs : s = false) => by subst hs; exact hf a) hp

/-- Go's `if err != nil { return … }` after a part that stores nothing. -/
theorem bind_except {ε : Type} {p : Prog (Except ε β)} {g : Except ε β → Prog α} (hp : NoStore p)
    (herr : ∀ e, StoreLast ok (g (.error e))) (hok : ∀ b, StoreLast ok (g (.ok b))) :
    StoreLast ok (p >>= g) :=
  bind hp fun r => by rcases r with e | b; exacts [herr e, hok b]

/-- A type assertion that failed or succeeded, after a part that stores nothing. -/
theorem bind_option {p : Prog (Option β)} {g : Option β → Prog α} (hp : NoStore p)
    (hnone : StoreLast ok (g none)) (hsome : ∀ b, StoreLast ok (g (some b))) :
    StoreLast ok (p >>= g) :=
  bind hp fun r => by rcases r with _ | b; exacts [hnone, hsome b]

theorem call_then {c : Call} {f : c.Result → Prog α} (hc : c.stores = false)
    (hf : ∀ r, StoreLast ok (f r)) : StoreLast ok (.call c Prog.pure >>= f) := fun r =>
  ⟨false, by simp [storeFlag, hc], hf r⟩

/-- **`SetValue` followed by `f`**: its failure leaves the flag lowered, and once it stored, `f`
must end in a result `ok` accepts. -/
theorem setValue_bind {key : Bytes} {value : Value} {f : Except Bytes Unit → Prog α}
    (herr : ∀ e, StoreLast ok (f (.error e))) (hok : ∀ u, AlwaysOk ok (f (.ok u))) :
    StoreLast ok (setValue key value >>= f) := fun r => by
  rcases r with e | u
  · exact ⟨false, rfl, herr e⟩
  · exact ⟨true, rfl, wp_mono (fun _ _ h _ => h) (hok u)⟩

/-- `p` followed by a function of its result, which `ok` judges as `ok'` judged the result. -/
theorem map {ok' : β → Bool} {p : Prog β} (hp : StoreLast ok' p) (g : β → α)
    (hg : ∀ b, ok (g b) = ok' b) : StoreLast ok (p >>= fun b => Prog.pure (g b)) := by
  rw [StoreLast, wp_bind]
  exact wp_mono (fun s b h hs => (hg b).trans (h hs)) hp

theorem index_bind {xs : List Bytes} {i : ℕ} {f : Bytes → Prog α} (hf : ∀ x, StoreLast ok (f x)) :
    StoreLast ok (index xs i >>= f) := by
  rw [StoreLast, wp_bind, wp_index]
  exact fun x _ => hf x

theorem sliceFrom_bind {xs : List Bytes} {i : ℕ} {f : List Bytes → Prog α}
    (hf : ∀ x, StoreLast ok (f x)) : StoreLast ok (sliceFrom xs i >>= f) := by
  rw [StoreLast, wp_bind, wp_sliceFrom]
  exact fun _ => hf _

/-- `p`, then a part that stores nothing, then a function of `p`'s result. -/
theorem bind_noStore {p : Prog β} {d : β → Prog Unit} {g : β → α} {ok' : β → Bool}
    (hp : StoreLast ok' p) (hd : ∀ b, NoStore (d b)) (hg : ∀ b, ok (g b) = ok' b) :
    StoreLast ok (p >>= fun b => d b >>= fun _ => Prog.pure (g b)) := by
  rw [StoreLast, wp_bind]
  refine wp_mono (fun s b h => ?_) hp
  rw [wp_bind]
  cases s
  · exact wp_mono (fun _ _ hs h' => nomatch hs.symm.trans h') (hd b)
  · exact wp_storeFlag_raised _ fun _ _ => (hg b).trans (h rfl)

theorem withDefer {p : Prog α} {d : Prog Unit} (hp : StoreLast ok p) (hd : NoStore d) :
    StoreLast ok (Prog.withDefer d p) :=
  bind_noStore hp (fun _ => hd) fun _ => rfl

end StoreLast

namespace AlwaysOk

variable {ok : α → Bool}

theorem pure {a : α} (h : ok a = true) : AlwaysOk ok (Prog.pure a) := h

/-- Whatever runs first, `f` decides the result. -/
theorem bind (p : Prog β) {f : β → Prog α} (hf : ∀ b, AlwaysOk ok (f b)) : AlwaysOk ok (p >>= f) := by
  rw [AlwaysOk, wp_bind]
  exact wp_storeFlag_raised p hf

end AlwaysOk

/-! ### The shared pieces store nothing -/

section Pieces

open NoStore

end Pieces

open StoreLast

/-- `HSET h f v`. -/
def hsetHFV : Prog Reply := handleHSET firstWriteKey [ascii "HSET", ascii "h", ascii "f", ascii "v"]

/-- A keyspace without keys under `noeviction` with a limit of one byte, whose heap reads below
the limit at the check of `CreateKeyAndLock`, and at or above it at both readings of the check
of `SetValue`. -/
def fullAtSetValue : Machine :=
  ⟨Server.empty ⟨1, ascii NoEviction, false⟩, ⟨[false, true, true], [], [], []⟩, []⟩

/-- **A failed `HSET` leaves its key without a value.**  `HSET h f v` on a keyspace without `h`
creates `h`, then fails at `SetValue`; `h` is left in the lock map, unlocked and without a
value, and a second `HSET h f v`, with the heap now below the limit, fails on it. -/
theorem hset_error_leaves_key_without_value :
    (hsetHFV.run fullAtSetValue).result = .ok (.error (ascii "max memory reached, key value not set")) ∧
      fullAtSetValue.server.keyLocks.get (ascii "h") = none ∧
      (hsetHFV.run fullAtSetValue).machine.server.keyLocks.get (ascii "h") = some ⟨false, 0⟩ ∧
      (hsetHFV.run fullAtSetValue).machine.server.store.get (ascii "h") = none ∧
      (hsetHFV.run (hsetHFV.run fullAtSetValue).machine).result = .ok (.error (notAHash (ascii "h"))) := by
  decide

end EchoVault
