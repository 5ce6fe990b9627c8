/-
**The lock table after a handler returns.**

`Handler.Release` shows, over every path of a handler, that the locks it takes and the locks it
releases balance.  This module carries that to the runs of the handler on the keyspace: along a
run, the lock view of the server is the view the run started from with the locks the path holds
added (`Mirrors`), since each lock call changes the view exactly as the held-locks monitor
changes its list, and every other call, evictions included, leaves the view alone.  A run that
returns holds nothing, so it leaves every per-key lock as it found it: no lock is leaked, and
none released that another holder took.

Main definitions:

* `EchoVault.Mirrors` — a lock view made of a starting view and the locks a path holds.

Main results:

* `EchoVault.Mirrors.stepCall` — one capability call keeps the correspondence;
* `EchoVault.Mirrors.run` — so does every run of a program whose held-locks `wp` holds;
* `EchoVault.releasingHandlers_run_keeps_lockView` — **every run of `HSET`, `HINCRBY`, `HDEL`,
  `SMOVE` or a single-key reader that returns leaves the lock of every key as it found it**;
* `EchoVault.releasingHandlers_interleaving_keeps_lockView` — **and so does every interleaving
  of two of them in which both return**.
-/

import EchoVault.Handler.Release
import EchoVault.Keyspace.LockTable

set_option relaxedAutoImplicit false
set_option autoImplicit false

namespace EchoVault

open Prog
open scoped List

/-! ### The held-locks monitor, one call at a time -/

section Monitor

variable {H H' : List KeyLock} {c : Call} {b : Bool}

theorem heldLocks_of_free (h : heldLocks H c b = some H') (ha : c.acquires = none)
    (hr : c.releases = none) : H' = H := by
  simp only [heldLocks, ha, hr, Option.some.injEq] at h
  exact h.symm

theorem heldLocks_of_acquires {l : KeyLock} (h : heldLocks H c b = some H') (ha : c.acquires = some l) :
    H' = if b then l :: H else H := by
  simp only [heldLocks, ha, Option.some.injEq] at h
  exact h.symm

theorem heldLocks_of_releases {l : KeyLock} (h : heldLocks H c b = some H') (ha : c.acquires = none)
    (hr : c.releases = some l) : l ∈ H ∧ H' = H.erase l := by
  simp only [heldLocks, ha, hr] at h
  split at h
  · exact ⟨‹_›, (Option.some.inj h).symm⟩
  · cases h

/-- The monitor steps alike with more locks held beside. -/
theorem heldLocks_append {H₁ H₁' : List KeyLock} (H₂ : List KeyLock) (h : heldLocks H₁ c b = some H₁') :
    heldLocks (H₁ ++ H₂) c b = some (H₁' ++ H₂) := by
  unfold heldLocks at h ⊢
  split at h
  · cases h
    cases b <;> rfl
  · split at h
    · cases h
      rw [if_pos (List.mem_append_left H₂ ‹_›), List.erase_append_left H₂ ‹_›]
    · cases h
  · cases h
    rfl

end Monitor

/-! ### Lock views made of held locks -/

/-- The lock view `v` is the view `base` a run started from, with the locks `H` its path holds
added: a writer where `base` has one or `H` holds the write lock, and the readers of both.  A
write lock of `H` was taken where `base` has no writer, and is held once. -/
structure Mirrors (base : Bytes → RWMutex) (H : List KeyLock) (v : Bytes → RWMutex) : Prop where
  writer : ∀ k, (v k).writer = ((base k).writer || decide (⟨k, true⟩ ∈ H))
  readers : ∀ k, (v k).readers = (base k).readers + H.count ⟨k, false⟩
  write : ∀ k, ⟨k, true⟩ ∈ H → (base k).writer = false ∧ H.count ⟨k, true⟩ = 1

namespace Mirrors

variable {base v : Bytes → RWMutex} {H : List KeyLock} {k : Bytes}

/-- The held locks count as a multiset. -/
theorem perm {H' : List KeyLock} (h : Mirrors base H v) (hH : H ~ H') : Mirrors base H' v :=
  ⟨fun k => by simp only [h.writer k, hH.mem_iff], fun k => by rw [h.readers k, hH.count_eq],
    fun k hk => by rw [← hH.count_eq]; exact h.write k (hH.mem_iff.2 hk)⟩

theorem start (v : Bytes → RWMutex) : Mirrors v [] v :=
  ⟨fun _ => by simp, fun _ => by simp, fun _ h => by simp at h⟩

/-- Holding nothing, the view is the starting one. -/
theorem eq_base (h : Mirrors base [] v) : v = base :=
  funext fun k => RWMutex.ext (by simpa using h.writer k) (by simpa using h.readers k)

theorem writer_of_mem (h : Mirrors base H v) (hk : ⟨k, true⟩ ∈ H) : (v k).writer = true := by
  simp [h.writer k, hk]

theorem readers_pos_of_mem (h : Mirrors base H v) (hk : ⟨k, false⟩ ∈ H) : 0 < (v k).readers := by
  rw [h.readers k]
  have := List.count_pos_iff.2 hk
  omega

/-- A change at one key: the view at `k` becomes `x`, and the held locks change only on `k`.  The
correspondence then holds when it holds at `k`. -/
theorem update (h : Mirrors base H v) {H' : List KeyLock} {x : RWMutex}
    (hother : ∀ k', k' ≠ k → ∀ w, H'.count ⟨k', w⟩ = H.count ⟨k', w⟩)
    (hw : x.writer = ((base k).writer || decide (⟨k, true⟩ ∈ H')))
    (hr : x.readers = (base k).readers + H'.count ⟨k, false⟩)
    (hwrite : ⟨k, true⟩ ∈ H' → (base k).writer = false ∧ H'.count ⟨k, true⟩ = 1) :
    Mirrors base H' (Function.update v k x) := by
  have hmem : ∀ k', k' ≠ k → (⟨k', true⟩ ∈ H' ↔ ⟨k', true⟩ ∈ H) := fun k' e => by
    rw [← List.count_pos_iff, ← List.count_pos_iff, hother k' e]
  refine ⟨fun k' => ?_, fun k' => ?_, fun k' hk' => ?_⟩ <;> by_cases e : k' = k
  · subst e
    simpa using hw
  · simp [Function.update_noteq e, h.writer k', hmem k' e]
  · subst e
    simpa using hr
  · simp [Function.update_noteq e, h.readers k', hother k' e]
  · subst e
    exact hwrite hk'
  · rw [hother k' e]
    exact h.write k' ((hmem k' e).1 hk')

/-- Taking the write lock of an unlocked key. -/
theorem acquire_write (h : Mirrors base H v) (hk : v k = RWMutex.unlocked) :
    Mirrors base (⟨k, true⟩ :: H) (Function.update v k RWMutex.locked) := by
  have hw := h.writer k
  have hr := h.readers k
  simp only [hk, RWMutex.unlocked] at hw hr
  have hw' : (base k).writer = false ∧ ⟨k, true⟩ ∉ H := by simpa using hw.symm
  refine h.update (fun k' e w => by simp [List.count_cons, Ne.symm e]) (by simp [RWMutex.locked])
    (by simp [RWMutex.locked, List.count_cons]; omega) fun _ => ?_
  simp [hw'.1, List.count_eq_zero.2 hw'.2]

/-- Taking a read lock of a key without a writer. -/
theorem acquire_read (h : Mirrors base H v) (hk : (v k).writer = false) :
    Mirrors base (⟨k, false⟩ :: H) (Function.update v k ⟨false, (v k).readers + 1⟩) :=
  h.update (fun k' e w => by simp [List.count_cons, Ne.symm e]) (by simpa [← h.writer k] using hk.symm)
    (by simp [h.readers k, List.count_cons]; omega)
    fun hk' => by simpa [List.count_cons] using h.write k (by simpa using hk')

/-- Releasing a write lock the path holds. -/
theorem release_write (h : Mirrors base H v) (hk : ⟨k, true⟩ ∈ H) :
    Mirrors base (H.erase ⟨k, true⟩) (Function.update v k ⟨false, (v k).readers⟩) := by
  obtain ⟨hb, hc⟩ := h.write k hk
  have hgone : ⟨k, true⟩ ∉ H.erase ⟨k, true⟩ := by
    rw [← List.count_eq_zero, List.count_erase_self, hc]
  exact h.update (fun k' e w => List.count_erase_of_ne (by simp [e]) _) (by simp [hb, hgone]) (by simp [h.readers k])
    fun hk' => absurd hk' hgone

/-- Releasing a read lock the path holds. -/
theorem release_read (h : Mirrors base H v) (hk : ⟨k, false⟩ ∈ H) :
    Mirrors base (H.erase ⟨k, false⟩) (Function.update v k ⟨(v k).writer, (v k).readers - 1⟩) := by
  have hpos := List.count_pos_iff.2 hk
  refine h.update (fun k' e w => List.count_erase_of_ne (by simp [e]) _) (by simp [h.writer k]) (by simp [h.readers k]; omega)
    fun hk' => ?_
  simpa using h.write k (by simpa using hk')

/-! ### Along a run -/

open Keyspace

/-- A lock call through `acquireKey`: with an error it changes nothing, and otherwise `acquire`
changes the view at its key as taking `l` changes the held locks. -/
theorem acquire_step {acquire : RWMutex → Option RWMutex} {key : Bytes} {l : KeyLock} {m m₁ : Machine}
    {r : Except Bytes Bool} (h : Mirrors base H (lockView m.server))
    (h₁ : acquireKey acquire key m = .ok r m₁)
    (hacq : ∀ l', acquire (lockView m.server key) = some l' →
      Mirrors base (l :: H) (Function.update (lockView m.server) key l')) :
    Mirrors base (if Call.lockTaken r then l :: H else H) (lockView m₁.server) := by
  rcases acquireKey_lockView h₁ with ⟨hr, hv⟩ | ⟨l', hl', rfl, hv⟩
  · rw [hr, if_neg Bool.false_ne_true, hv]
    exact h
  · rw [hv]
    exact hacq l' hl'

/-- An unlock call through `releaseKey`, on a key whose lock is held, so that it has an entry. -/
theorem release_step {release : RWMutex → Option RWMutex} {fatal key : Bytes} {H' : List KeyLock}
    {m m₁ : Machine} (h₁ : releaseKey release fatal key m = .ok () m₁)
    (hheld : lockView m.server key ≠ RWMutex.unlocked)
    (hrel : ∀ l', release (lockView m.server key) = some l' →
      Mirrors base H' (Function.update (lockView m.server) key l')) :
    Mirrors base H' (lockView m₁.server) := by
  rcases releaseKey_lockView h₁ with ⟨hfree, -⟩ | ⟨l', hl', hv⟩
  · exact absurd hfree hheld
  · rw [hv]
    exact hrel l' hl'

/-- **One capability call keeps the correspondence**: a lock call changes the view as the
monitor changes the held locks, and every other call leaves the view alone. -/
theorem stepCall {H H' : List KeyLock} {m m' : Machine} {c : Call} {r : c.Result}
    (h : Mirrors base H (lockView m.server)) (hstep : Prog.stepCall c m = .ok r m')
    (hδ : heldLocks H c (c.ok r) = some H') : Mirrors base H' (lockView m'.server) := by
  obtain ⟨r', m₁, h₁, hrest⟩ := Op.bind_eq_ok.1 hstep
  obtain ⟨_, _, h₂, hrest⟩ := Op.bind_eq_ok.1 hrest
  cases h₂
  cases hrest
  change Mirrors base H' (lockView m₁.server)
  have hsame : SameLocks m.server m₁.server → c.acquires = none → c.releases = none →
      Mirrors base H' (lockView m₁.server) := fun hs ha hr => by
    rw [hs, heldLocks_of_free hδ ha hr]
    exact h
  cases c with
  | keyExists key => exact hsame (keyExists_keeps key _ _ _ h₁) rfl rfl
  | getValue key => exact hsame (getValue_keeps key _ _ _ h₁) rfl rfl
  | setValue key value => exact hsame (setValue_sameLocks key value _ _ _ h₁) rfl rfl
  | alloc o => cases h₁; exact hsame rfl rfl rfl
  | load r => cases h₁; exact hsame rfl rfl rfl
  | write r o => cases h₁; exact hsame rfl rfl rfl
  | intn n => exact hsame (Op.Keeps.randIntn n _ _ _ h₁) rfl rfl
  | panic msg => cases h₁
  | keyLock key =>
      rw [heldLocks_of_acquires hδ rfl]
      exact h.acquire_step h₁ fun _ hl' => by
        obtain ⟨hfree, rfl⟩ := RWMutex.tryLock_eq_some hl'
        exact h.acquire_write hfree
  | keyRLock key =>
      rw [heldLocks_of_acquires hδ rfl]
      exact h.acquire_step h₁ fun _ hl' => by
        obtain ⟨hw, rfl⟩ := RWMutex.tryRLock_eq_some hl'
        exact h.acquire_read hw
  | createKeyAndLock key =>
      rw [heldLocks_of_acquires hδ rfl]
      rcases createKeyAndLock_lockView h₁ with ⟨hr, hv⟩ | ⟨rfl, hfree, hv⟩
      · rw [Call.ok, hr, if_neg Bool.false_ne_true, hv]
        exact h
      · rw [hv]
        exact h.acquire_write hfree
  | keyUnlock key =>
      obtain ⟨hk, rfl⟩ := heldLocks_of_releases hδ rfl rfl
      refine release_step h₁ (fun he => ?_) fun _ hl' => ?_
      · simpa [he, RWMutex.unlocked] using h.writer_of_mem hk
      · obtain ⟨-, rfl⟩ := RWMutex.unlock_eq_some hl'
        exact h.release_write hk
  | keyRUnlock key =>
      obtain ⟨hk, rfl⟩ := heldLocks_of_releases hδ rfl rfl
      refine release_step h₁ (fun he => ?_) fun _ hl' => ?_
      · simpa [he, RWMutex.unlocked] using h.readers_pos_of_mem hk
      · obtain ⟨-, rfl⟩ := RWMutex.rUnlock_eq_some hl'
        exact h.release_read hk

/-- **Along every run, the view is the starting one with the held locks added.** -/
theorem run {α : Type} {p : Prog α} {H : List KeyLock} {post : List KeyLock → α → Prop}
    {m m' : Machine} {a : α} (hwp : p.wp heldLocks H post) (h : Mirrors base H (lockView m.server))
    (hrun : p.run m = .ok a m') : ∃ H', Mirrors base H' (lockView m'.server) ∧ post H' a := by
  have hstep : ∀ H₁ m₁ c r m₂ H₂, Mirrors base H₁ (lockView m₁.server) → Prog.stepCall c m₁ = .ok r m₂ →
      heldLocks H₁ c (c.ok r) = some H₂ → Mirrors base H₂ (lockView m₂.server) :=
    fun _ _ _ _ _ _ hI hstep hδ => hI.stepCall hstep hδ
  exact wp_run hstep hwp h hrun

/-- **Along every interleaving of two programs, the view is the starting one with the locks
both hold added.** -/
theorem interleave {α β : Type} {p : Prog α} {q : Prog β} {H₁ H₂ : List KeyLock}
    {post₁ : List KeyLock → α → Prop} {post₂ : List KeyLock → β → Prop} {m m' : Machine} {a : α}
    {b : β} (hp : p.wp heldLocks H₁ post₁) (hq : q.wp heldLocks H₂ post₂)
    (h : Mirrors base (H₁ ++ H₂) (lockView m.server)) (hi : Interleaving m p q m' a b) :
    ∃ H₁' H₂', Mirrors base (H₁' ++ H₂') (lockView m'.server) ∧ post₁ H₁' a ∧ post₂ H₂' b := by
  have hl : ∀ H₁ H₂ m₁ c r m₂ H₁', Mirrors base (H₁ ++ H₂) (lockView m₁.server) →
      Prog.stepCall c m₁ = .ok r m₂ → heldLocks H₁ c (c.ok r) = some H₁' →
      Mirrors base (H₁' ++ H₂) (lockView m₂.server) :=
    fun _ H₂ _ _ _ _ _ hI hstep hδ => hI.stepCall hstep (heldLocks_append H₂ hδ)
  have hr : ∀ H₁ H₂ m₁ c r m₂ H₂', Mirrors base (H₁ ++ H₂) (lockView m₁.server) →
      Prog.stepCall c m₁ = .ok r m₂ → heldLocks H₂ c (c.ok r) = some H₂' →
      Mirrors base (H₁ ++ H₂') (lockView m₂.server) := fun H₁ _ _ _ _ _ _ hI hstep hδ =>
    ((hI.perm List.perm_append_comm).stepCall hstep (heldLocks_append H₁ hδ)).perm
      List.perm_append_comm
  exact wp_interleave hl hr hp hq h hi

end Mirrors

/-! ### Handler runs -/

/-- **A handler that releases what it takes leaves every lock as it found it.**  For each
handler of `releasingHandlers`, every key extraction function, every command and every machine,
if the handler returns a reply, then afterwards the lock of every key is what it was before:
the same writer flag and the same number of readers, a key without an entry counting as
unlocked. -/
theorem releasingHandlers_run_keeps_lockView (handler : KeyFunc → List Bytes → Prog Reply)
    (hh : handler ∈ releasingHandlers) (keyFunc : KeyFunc) (command : List Bytes) (m : Machine)
    (reply : Reply) (hret : ((handler keyFunc command).run m).result = .ok reply) :
    lockView ((handler keyFunc command).run m).machine.server = lockView m.server := by
  have hrun : (handler keyFunc command).run m = .ok reply ((handler keyFunc command).run m).machine := by
    revert hret
    cases (handler keyFunc command).run m <;> simp
  obtain ⟨H', hI, hH'⟩ :=
    Mirrors.run (releasingHandlers_netRelease handler hh keyFunc command []) (Mirrors.start _) hrun
  rw [List.perm_nil.1 hH'] at hI
  exact hI.eq_base

/-- A keyspace without keys and without a memory limit. -/
def emptyKeyspace : Machine := ⟨Server.empty ⟨0, ascii NoEviction, false⟩, ⟨[], [], [], []⟩, []⟩

/-- `HSET h f v` on an empty keyspace creates `h`, stores the hash and replies `:1`, and leaves
every lock as it found it. -/
theorem hset_run_keeps_lockView :
    ((handleHSET firstWriteKey [ascii "HSET", ascii "h", ascii "f", ascii "v"]).run
        emptyKeyspace).result = .ok (.ok (ascii ":1\r\n")) ∧
      lockView ((handleHSET firstWriteKey [ascii "HSET", ascii "h", ascii "f", ascii "v"]).run
        emptyKeyspace).machine.server = lockView emptyKeyspace.server :=
  ⟨by decide, releasingHandlers_run_keeps_lockView handleHSET (List.mem_cons_self _ _) firstWriteKey
    [ascii "HSET", ascii "h", ascii "f", ascii "v"] emptyKeyspace (.ok (ascii ":1\r\n")) (by decide)⟩

/-- **Two such handlers side by side leave every lock as they found it.**  For every two
handlers of `releasingHandlers`, with any key extraction functions and commands, from every
machine, every interleaving of their calls in which both return ends with the lock of every
key as it was before. -/
theorem releasingHandlers_interleaving_keeps_lockView (handler₁ handler₂ : KeyFunc → List Bytes → Prog Reply)
    (hh₁ : handler₁ ∈ releasingHandlers) (hh₂ : handler₂ ∈ releasingHandlers)
    (keyFunc₁ keyFunc₂ : KeyFunc) (command₁ command₂ : List Bytes) (m m' : Machine)
    (reply₁ reply₂ : Reply)
    (hi : Interleaving m (handler₁ keyFunc₁ command₁) (handler₂ keyFunc₂ command₂) m' reply₁ reply₂) :
    lockView m'.server = lockView m.server := by
  obtain ⟨H₁, H₂, hI, hH₁, hH₂⟩ :=
    Mirrors.interleave (releasingHandlers_netRelease handler₁ hh₁ keyFunc₁ command₁ [])
      (releasingHandlers_netRelease handler₂ hh₂ keyFunc₂ command₂ []) (Mirrors.start _) hi
  rw [List.perm_nil.1 hH₁, List.perm_nil.1 hH₂] at hI
  exact hI.eq_base

/-- `HSET h f v` and `HSET h g w` on an empty keyspace, each past its `KeyExists`, then one after
the other: both create `h` and reply `:1`, and every lock is as it was. -/
theorem two_hsets_keep_lockView :
    (Interleaving.runSched [true, false]
        (handleHSET firstWriteKey [ascii "HSET", ascii "h", ascii "f", ascii "v"])
        (handleHSET firstWriteKey [ascii "HSET", ascii "h", ascii "g", ascii "w"])
        emptyKeyspace).result = .ok (.ok (ascii ":1\r\n"), .ok (ascii ":1\r\n")) ∧
      lockView (Interleaving.runSched [true, false]
        (handleHSET firstWriteKey [ascii "HSET", ascii "h", ascii "f", ascii "v"])
        (handleHSET firstWriteKey [ascii "HSET", ascii "h", ascii "g", ascii "w"])
        emptyKeyspace).machine.server = lockView emptyKeyspace.server :=
  ⟨by decide, releasingHandlers_interleaving_keeps_lockView handleHSET handleHSET
    (List.mem_cons_self _ _) (List.mem_cons_self _ _) firstWriteKey firstWriteKey
    [ascii "HSET", ascii "h", ascii "f", ascii "v"] [ascii "HSET", ascii "h", ascii "g", ascii "w"]
    emptyKeyspace _ (.ok (ascii ":1\r\n")) (.ok (ascii ":1\r\n"))
    (Interleaving.of_runSched _ _ _ _ (by decide))⟩

end EchoVault
