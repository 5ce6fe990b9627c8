/-
**References in the keyspace: no two keys share an object.**

A hash or a set lives on the Go heap, and the store binds its key to a reference to it
(`Server.objectAt`); `SADD`, `SREM`, `SPOP`, `SMOVE`, `HSET`, `HINCRBY` and `HDEL` change the
object they got from `GetValue` in place.  Such a change changes the value of one key only if no
other key is bound to the same reference: `Server.RefsOK`, with the bound that every reference
in the store points into the heap.

A handler keeps this if it stores a reference only at the key it read it from, or once, right
after allocating it.  The monitor `refStep` checks that along a path, seeing the reference each
`GetValue` returns and each `alloc` makes.  Its state, a `RefLog`, holds the references the path
allocated and has not stored, and the pairs of a key and a reference the path read from it or
stored there.  It also checks that the path stores only at its write keys `W`, and writes only
objects it allocated or read from one of them.

`RefLog.Valid` ties a log to the server, and every call the monitor accepts keeps a valid log
valid, whatever the keyspace evicts (`RefLog.Valid.step`).  Two logs side by side are one log,
their concatenation (`RefLog.Valid.step_left`), so the same holds for two programs interleaved.
`RefLog.Local` ties a log to the server a run started from: outside `W` nothing changes but
evictions.

Main definitions:

* `EchoVault.Server.RefsOK` — references in the store are in the heap, one key each;
* `EchoVault.RefLog`, `EchoVault.refStep` — the reference monitor;
* `EchoVault.RefLog.Valid`, `EchoVault.RefLog.Local` — what a log says about the server.

Main results:

* `EchoVault.RefLog.Valid.step` — every call the monitor accepts keeps a valid log valid;
* `EchoVault.refsOK_of_run`, `EchoVault.refsOK_of_interleaving` — **a program the monitor
  accepts keeps references apart on every run, alone or interleaved with another such program**;
* `EchoVault.objectAt_of_run` — **on every run of such a program, a key outside `W` keeps its
  object, or is evicted**.
-/

import EchoVault.Keyspace.Frame
import EchoVault.Keyspace.Logic

set_option relaxedAutoImplicit false
set_option autoImplicit false

namespace EchoVault

open scoped List

/-! ### References kept apart -/

/-- References are kept apart: every reference in the store points into the heap, and no two
keys are bound to one. -/
structure Server.RefsOK (s : Server) : Prop where
  lt : ∀ k x, s.store.get k = some (.ref x) → x < s.heap.length
  unique : ∀ k k' x, s.store.get k = some (.ref x) → s.store.get k' = some (.ref x) → k = k'

/-- A server without keys keeps references apart. -/
theorem Server.refsOK_empty (config : Config) : (Server.empty config).RefsOK :=
  ⟨fun _ _ h => (nomatch h), fun _ _ _ h => (nomatch h)⟩

/-! ### The reference monitor -/

/-- What a path has done with references: those it allocated and has not stored (`fresh`), and
the pairs of a key and a reference that the path read from it or stored there (`read`). -/
structure RefLog where
  fresh : List ℕ
  read : List (Bytes × ℕ)
  deriving DecidableEq

namespace RefLog

/-- The log after `GetValue(key)` returned `v`. -/
def readValue (L : RefLog) (key : Bytes) : Option Value → RefLog
  | some (.ref x) => ⟨L.fresh, (key, x) :: L.read⟩
  | _ => L

/-- The log after a `SetValue` stored the fresh reference `x` at `key`: `x` is `key`'s. -/
def claim (L : RefLog) (key : Bytes) (x : ℕ) : RefLog := ⟨L.fresh.erase x, (key, x) :: L.read⟩

/-- The log after `SetValue(key, value)` returned `r`, or `none` when the path may not store
`value` there: `key` must be a write key, and a reference must be `key`'s already, or fresh. -/
def store (W : List Bytes) (L : RefLog) (key : Bytes) : Value → Except Bytes Unit → Option RefLog
  | .ref x, r =>
    if key ∈ W ∧ (key, x) ∈ L.read then some L
    else if key ∈ W ∧ x ∈ L.fresh then some (if r.toBool then L.claim key x else L)
    else none
  | .scalar _, _ => if key ∈ W then some L else none

/-- A path may write the object at `x` when it allocated it, or read it from a write key. -/
def MayWrite (W : List Bytes) (L : RefLog) (x : ℕ) : Prop := x ∈ L.fresh ∨ ∃ k ∈ W, (k, x) ∈ L.read

instance (W : List Bytes) (L : RefLog) (x : ℕ) : Decidable (L.MayWrite W x) :=
  inferInstanceAs (Decidable (_ ∨ _))

/-- Two logs side by side, as one. -/
def append (L₁ L₂ : RefLog) : RefLog := ⟨L₁.fresh ++ L₂.fresh, L₁.read ++ L₂.read⟩

end RefLog

/-- **The reference monitor** of a path with write keys `W`: `GetValue` and `alloc` add to the
log, `SetValue` and `write` must be allowed by it. -/
def refStep (W : List Bytes) (L : RefLog) : (c : Call) → c.Result → Option RefLog
  | .getValue key, v => some (L.readValue key v)
  | .alloc _, n => some ⟨n :: L.fresh, L.read⟩
  | .setValue key value, r => L.store W key value r
  | .write x _, _ => if L.MayWrite W x then some L else none
  | _, _ => some L

/-! ### What the calls do to the store and the heap -/

section Calls

variable {m m' : Machine}

theorem Prog.stepCall_exec {c : Call} {r : c.Result} (h : Prog.stepCall c m = .ok r m') :
    ∃ m₁, c.exec m = .ok r m₁ ∧ m'.server = m₁.server := by
  obtain ⟨_, m₁, h₁, h⟩ := Op.bind_eq_ok.1 h
  obtain ⟨_, _, h₂, h⟩ := Op.bind_eq_ok.1 h
  cases h₂
  cases h
  exact ⟨m₁, h₁, rfl⟩

/-- `GetValue` returns what the store binds at the key when it returns. -/
theorem Keyspace.getValue_result {key : Bytes} {v : Option Value}
    (h : Keyspace.getValue key m = .ok v m') : v = m'.server.store.get key := by
  obtain ⟨_, _, _, h⟩ := Op.bind_eq_ok.1 h
  obtain ⟨_, _, h₂, h⟩ := Op.bind_eq_ok.1 h
  cases h₂
  cases h
  rfl

end Calls

/-! ### Valid logs -/

namespace RefLog

/-- A log `L` is valid on the server `s`: references are kept apart; the fresh references are in
the heap, distinct, bound to no key and read from none; and a reference read from a key is in
the heap, bound to no other key, and read from no other key. -/
structure Valid (L : RefLog) (s : Server) : Prop where
  refs : s.RefsOK
  fresh_lt : ∀ x ∈ L.fresh, x < s.heap.length
  fresh_nodup : L.fresh.Nodup
  fresh_unbound : ∀ x ∈ L.fresh, ∀ k, s.store.get k ≠ some (.ref x)
  fresh_unread : ∀ x ∈ L.fresh, ∀ k, (k, x) ∉ L.read
  read_lt : ∀ k x, (k, x) ∈ L.read → x < s.heap.length
  read_owner : ∀ k x, (k, x) ∈ L.read → ∀ k', s.store.get k' = some (.ref x) → k' = k
  read_unique : ∀ k k' x, (k, x) ∈ L.read → (k', x) ∈ L.read → k = k'

namespace Valid

variable {L : RefLog} {s s' : Server}

/-- A path that has made no call has a valid log on every server that keeps references
apart. -/
theorem nil (h : s.RefsOK) : Valid ⟨[], []⟩ s :=
  ⟨h, nofun, .nil, nofun, nofun, nofun, nofun, nofun⟩

/-- **A log stays valid while the server only loses references and the heap only grows.** -/
theorem mono (hv : L.Valid s) (hrefs : ∀ k x, s'.store.get k = some (.ref x) → s.store.get k = some (.ref x))
    (hlen : s.heap.length ≤ s'.heap.length) : L.Valid s' where
  refs := ⟨fun k x h => (hv.refs.lt k x (hrefs k x h)).trans_le hlen,
    fun k k' x h h' => hv.refs.unique k k' x (hrefs k x h) (hrefs k' x h')⟩
  fresh_lt x hx := (hv.fresh_lt x hx).trans_le hlen
  fresh_nodup := hv.fresh_nodup
  fresh_unbound x hx k h := hv.fresh_unbound x hx k (hrefs k x h)
  fresh_unread := hv.fresh_unread
  read_lt k x h := (hv.read_lt k x h).trans_le hlen
  read_owner k x h k' h' := hv.read_owner k x h k' (hrefs k' x h')
  read_unique := hv.read_unique

/-- What `GetValue` returns is added to a valid log. -/
theorem readValue (hv : L.Valid s) (key : Bytes) : (L.readValue key (s.store.get key)).Valid s := by
  rcases hk : s.store.get key with _ | x | _
  · exact hv
  swap
  · exact hv
  refine ⟨hv.refs, hv.fresh_lt, hv.fresh_nodup, hv.fresh_unbound, ?_, ?_, ?_, ?_⟩
  · rintro y hy k (⟨⟩ | ⟨_, hk'⟩)
    · exact hv.fresh_unbound x hy key hk
    · exact hv.fresh_unread y hy k hk'
  · rintro k y (⟨⟩ | ⟨_, h⟩)
    · exact hv.refs.lt key x hk
    · exact hv.read_lt k y h
  · rintro k y (⟨⟩ | ⟨_, h⟩) k' hk'
    · exact hv.refs.unique k' key x hk' hk
    · exact hv.read_owner k y h k' hk'
  · rintro k k' y (⟨⟩ | ⟨_, h⟩) (⟨⟩ | ⟨_, h'⟩)
    · rfl
    · exact hv.read_owner _ _ h' key hk
    · exact (hv.read_owner _ _ h key hk).symm
    · exact hv.read_unique k k' y h h'

/-- The reference `alloc` returns, the heap's length, is fresh. -/
theorem alloc (hv : L.Valid s) (o : Obj) :
    Valid ⟨s.heap.length :: L.fresh, L.read⟩ { s with heap := s.heap ++ [o] } := by
  have hv' : L.Valid { s with heap := s.heap ++ [o] } := hv.mono (fun _ _ => id) (by simp)
  refine ⟨hv'.refs, ?_, ?_, ?_, ?_, hv'.read_lt, hv'.read_owner, hv'.read_unique⟩
  · rintro x (⟨⟩ | ⟨_, hx⟩)
    · simp
    · exact hv'.fresh_lt x hx
  · exact List.nodup_cons.2 ⟨fun h => (hv.fresh_lt _ h).false, hv.fresh_nodup⟩
  · rintro x (⟨⟩ | ⟨_, hx⟩) k h
    · exact (hv.refs.lt k _ h).false
    · exact hv.fresh_unbound x hx k h
  · rintro x (⟨⟩ | ⟨_, hx⟩) k h
    · exact (hv.read_lt k _ h).false
    · exact hv.fresh_unread x hx k h

/-- Storing at `key` a reference read from `key` keeps a log valid. -/
theorem bind_read {key : Bytes} {x : ℕ} (hv : L.Valid s) (hr : (key, x) ∈ L.read)
    (hnew : ∀ k y, s'.store.get k = some (.ref y) → s.store.get k = some (.ref y) ∨ (k = key ∧ y = x))
    (hlen : s'.heap.length = s.heap.length) : L.Valid s' where
  refs := by
    refine ⟨fun k y h => ?_, fun k k' y h h' => ?_⟩
    · rcases hnew k y h with h | ⟨-, rfl⟩
      exacts [hlen ▸ hv.refs.lt k y h, hlen ▸ hv.read_lt key y hr]
    · rcases hnew k y h with h | ⟨rfl, rfl⟩
      · rcases hnew k' y h' with h' | ⟨rfl, rfl⟩
        · exact hv.refs.unique k k' y h h'
        · exact hv.read_owner _ _ hr k h
      · rcases hnew k' _ h' with h' | ⟨rfl, -⟩
        · exact (hv.read_owner _ _ hr k' h').symm
        · rfl
  fresh_lt x hx := hlen ▸ hv.fresh_lt x hx
  fresh_nodup := hv.fresh_nodup
  fresh_unbound y hy k h := by
    rcases hnew k y h with h | ⟨rfl, rfl⟩
    exacts [hv.fresh_unbound y hy k h, hv.fresh_unread y hy k hr]
  fresh_unread := hv.fresh_unread
  read_lt k y h := hlen ▸ hv.read_lt k y h
  read_owner k y h k' h' := by
    rcases hnew k' y h' with h' | ⟨rfl, rfl⟩
    exacts [hv.read_owner k y h k' h', hv.read_unique _ _ _ hr h]
  read_unique := hv.read_unique

/-- Storing at `key` a fresh reference keeps a log valid, with the reference now `key`'s. -/
theorem bind_fresh {key : Bytes} {x : ℕ} (hv : L.Valid s) (hx : x ∈ L.fresh)
    (hnew : ∀ k y, s'.store.get k = some (.ref y) → s.store.get k = some (.ref y) ∨ (k = key ∧ y = x))
    (hlen : s'.heap.length = s.heap.length) : (L.claim key x).Valid s' := by
  have herase : ∀ {y}, y ∈ L.fresh.erase x → y ∈ L.fresh ∧ y ≠ x := fun hy =>
    ⟨List.mem_of_mem_erase hy, fun h => hv.fresh_nodup.not_mem_erase (h ▸ hy)⟩
  have hmem : ∀ {k y}, (k, y) ∈ (L.claim key x).read → (k = key ∧ y = x) ∨ (k, y) ∈ L.read := by
    intro k y h
    simpa [claim] using h
  have hunbound : ∀ {y} k, y = x → s.store.get k ≠ some (.ref y) := fun k hy =>
    hy ▸ hv.fresh_unbound x hx k
  have hunread : ∀ {y} k, y = x → (k, y) ∉ L.read := fun k hy => hy ▸ hv.fresh_unread x hx k
  refine ⟨⟨fun k y h => ?_, fun k k' y h h' => ?_⟩, fun y hy => ?_, hv.fresh_nodup.erase x,
    fun y hy k h => ?_, fun y hy k hk => ?_, fun k y h => ?_, fun k y h k' h' => ?_,
    fun k k' y h h' => ?_⟩
  · rcases hnew k y h with h | ⟨-, rfl⟩
    exacts [hlen ▸ hv.refs.lt k _ h, hlen ▸ hv.fresh_lt _ hx]
  · rcases hnew k y h with h | ⟨hk, hy⟩ <;> rcases hnew k' y h' with h' | ⟨hk', hy'⟩
    · exact hv.refs.unique k k' y h h'
    · exact absurd h (hunbound k hy')
    · exact absurd h' (hunbound k' hy)
    · exact hk.trans hk'.symm
  · exact hlen ▸ hv.fresh_lt y (herase hy).1
  · rcases hnew k y h with h | ⟨-, hy'⟩
    exacts [hv.fresh_unbound y (herase hy).1 k h, (herase hy).2 hy']
  · rcases hmem hk with ⟨-, hy'⟩ | hk
    exacts [(herase hy).2 hy', hv.fresh_unread y (herase hy).1 k hk]
  · rcases hmem h with ⟨-, rfl⟩ | h
    exacts [hlen ▸ hv.fresh_lt _ hx, hlen ▸ hv.read_lt k y h]
  · rcases hmem h with ⟨hk, hy⟩ | h <;> rcases hnew k' y h' with h' | ⟨hk', hy'⟩
    · exact absurd h' (hunbound k' hy)
    · exact hk'.trans hk.symm
    · exact hv.read_owner k y h k' h'
    · exact absurd h (hunread k hy')
  · rcases hmem h with ⟨hk, hy⟩ | h <;> rcases hmem h' with ⟨hk', hy'⟩ | h'
    · exact hk.trans hk'.symm
    · exact absurd h' (hunread k' hy)
    · exact absurd h (hunread k hy')
    · exact hv.read_unique k k' y h h'

/-- **A `SetValue` the monitor allows keeps a log valid**, whatever the keyspace evicts after
it. -/
theorem store {W : List Bytes} {key : Bytes} {value : Value} {r : Except Bytes Unit} {L' : RefLog}
    (hv : L.Valid s) (hδ : L.store W key value r = some L')
    (hbound : ∀ k v, s'.store.get k = some v → s.store.get k = some v ∨ (r = .ok () ∧ k = key ∧ v = value))
    (hlen : s'.heap.length = s.heap.length) : L'.Valid s' := by
  have hold : r.toBool = false → ∀ k y, s'.store.get k = some (.ref y) → s.store.get k = some (.ref y) :=
    fun hr k y h => (hbound k _ h).resolve_right fun ⟨hok, _⟩ => by simp [hok, Except.toBool] at hr
  cases value with
  | scalar a =>
      simp only [RefLog.store] at hδ
      split at hδ
      · cases hδ
        refine hv.mono (fun k y h => (hbound k _ h).resolve_right ?_) hlen.ge
        rintro ⟨-, -, ⟨⟩⟩
      · cases hδ
  | ref x =>
      have hnew : ∀ k y, s'.store.get k = some (.ref y) →
          s.store.get k = some (.ref y) ∨ (k = key ∧ y = x) := fun k y h =>
        (hbound k _ h).imp_right fun ⟨_, hk, hy⟩ => ⟨hk, Value.ref.inj hy⟩
      simp only [RefLog.store] at hδ
      split at hδ
      · cases hδ
        exact hv.bind_read ‹_ ∧ _›.2 hnew hlen
      split at hδ
      · cases hδ
        cases hr : r.toBool
        · exact hv.mono (hold hr) hlen.ge
        · exact hv.bind_fresh ‹_ ∧ _›.2 hnew hlen
      · cases hδ

/-- **Every call the monitor accepts keeps a valid log valid**, whatever the keyspace evicts
along the way. -/
theorem step {W : List Bytes} {L' : RefLog} {m m' : Machine} {c : Call} {r : c.Result}
    (hv : L.Valid m.server) (hc : Prog.stepCall c m = .ok r m') (hδ : refStep W L c r = some L') :
    L'.Valid m'.server := by
  have hshrink : c.touchesHeap = false → (c.stores && c.ok r) = false → L.Valid m'.server :=
    fun hh hs => hv.mono (fun k x => (Prog.stepCall_noNewBindings hc hs).store k _)
      (congrArg List.length (Prog.stepCall_sameHeap hc hh)).ge
  obtain ⟨m₁, hx, hs⟩ := Prog.stepCall_exec hc
  cases c with
  | getValue key =>
      cases hδ
      rw [Keyspace.getValue_result hx, ← hs]
      exact (hshrink rfl rfl).readValue key
  | setValue key value =>
      rw [hs]
      exact hv.store hδ (fun k v => Keyspace.setValue_bound hx)
        (congrArg List.length (Keyspace.setValue_sameHeap key value _ _ _ hx))
  | alloc o =>
      cases hx
      cases hδ
      rw [hs]
      exact hv.alloc o
  | write x o =>
      cases hx
      rw [hs]
      simp only [refStep] at hδ
      split at hδ
      · cases hδ
        exact hv.mono (fun _ _ => id) (by simp)
      · cases hδ
  | keyExists key => cases hδ; exact hshrink rfl rfl
  | createKeyAndLock key => cases hδ; exact hshrink rfl rfl
  | keyLock key => cases hδ; exact hshrink rfl rfl
  | keyUnlock key => cases hδ; exact hshrink rfl rfl
  | keyRLock key => cases hδ; exact hshrink rfl rfl
  | keyRUnlock key => cases hδ; exact hshrink rfl rfl
  | load x => cases hδ; exact hshrink rfl rfl
  | intn n => cases hδ; exact hshrink rfl rfl
  | panic msg => cases hδ; exact hshrink rfl rfl

/-! #### Two logs side by side -/

variable {L₁ L₂ : RefLog}

/-- A log stays valid with its fresh references reordered and fewer pairs read. -/
theorem of_perm {L' : RefLog} (hv : L.Valid s) (hf : L.fresh ~ L'.fresh)
    (hr : ∀ p ∈ L'.read, p ∈ L.read) : L'.Valid s where
  refs := hv.refs
  fresh_lt x hx := hv.fresh_lt x (hf.mem_iff.2 hx)
  fresh_nodup := hf.nodup_iff.1 hv.fresh_nodup
  fresh_unbound x hx := hv.fresh_unbound x (hf.mem_iff.2 hx)
  fresh_unread x hx k h := hv.fresh_unread x (hf.mem_iff.2 hx) k (hr _ h)
  read_lt k x h := hv.read_lt k x (hr _ h)
  read_owner k x h := hv.read_owner k x (hr _ h)
  read_unique k k' x h h' := hv.read_unique k k' x (hr _ h) (hr _ h')

theorem swap (hv : (L₁.append L₂).Valid s) : (L₂.append L₁).Valid s :=
  hv.of_perm List.perm_append_comm fun _ h => List.mem_append.2 (List.mem_append.1 h).symm

end Valid

/-- **Two logs side by side move as the left one does**: from a valid pair, a call the monitor
accepts on the left log is accepted on the two logs together, with the same effect. -/
theorem refStep_append {W : List Bytes} {L₁ L₂ L₁' : RefLog} {s : Server} {c : Call} {r : c.Result}
    (hv : (L₁.append L₂).Valid s) (hδ : refStep W L₁ c r = some L₁') :
    refStep W (L₁.append L₂) c r = some (L₁'.append L₂) := by
  cases c with
  | getValue key =>
      cases hδ
      rcases (r : Option Value) with _ | _ | _ <;> rfl
  | alloc o => cases hδ; rfl
  | setValue key value =>
      cases value with
      | scalar a =>
          simp only [refStep, store] at hδ ⊢
          split at hδ
          · cases hδ
            rw [if_pos ‹key ∈ W›]
          · cases hδ
      | ref x =>
          simp only [refStep, store] at hδ ⊢
          split at hδ
          · cases hδ
            rw [if_pos ⟨‹key ∈ W ∧ _›.1, List.mem_append_left _ ‹key ∈ W ∧ _›.2⟩]
          split at hδ
          · rename_i hread hfresh
            have hx : x ∈ (L₁.append L₂).fresh := List.mem_append_left _ hfresh.2
            have hnot : (key, x) ∉ (L₁.append L₂).read := hv.fresh_unread x hx key
            rw [if_neg fun h => hnot h.2, if_pos ⟨hfresh.1, hx⟩]
            cases hδ
            cases r.toBool
            · rfl
            · simp only [if_true, claim, append, List.erase_append_left _ hfresh.2, List.cons_append]
          · cases hδ
  | write x o =>
      simp only [refStep] at hδ ⊢
      split at hδ
      · cases hδ
        rename_i hw
        have hw' : MayWrite W (L₁.append L₂) x :=
          hw.imp (List.mem_append_left _) fun ⟨k, hk, h⟩ => ⟨k, hk, List.mem_append_left _ h⟩
        rw [if_pos hw']
      · cases hδ
  | keyExists key => cases hδ; rfl
  | createKeyAndLock key => cases hδ; rfl
  | keyLock key => cases hδ; rfl
  | keyUnlock key => cases hδ; rfl
  | keyRLock key => cases hδ; rfl
  | keyRUnlock key => cases hδ; rfl
  | load x => cases hδ; rfl
  | intn n => cases hδ; rfl
  | panic msg => cases hδ; rfl

namespace Valid

variable {W : List Bytes} {L₁ L₂ : RefLog} {m m' : Machine} {c : Call} {r : c.Result}

theorem step_left {L₁' : RefLog} (hv : (L₁.append L₂).Valid m.server) (hc : Prog.stepCall c m = .ok r m')
    (hδ : refStep W L₁ c r = some L₁') : (L₁'.append L₂).Valid m'.server :=
  hv.step hc (refStep_append hv hδ)

theorem step_right {L₂' : RefLog} (hv : (L₁.append L₂).Valid m.server) (hc : Prog.stepCall c m = .ok r m')
    (hδ : refStep W L₂ c r = some L₂') : (L₁.append L₂').Valid m'.server :=
  (hv.swap.step_left hc hδ).swap

end Valid

end RefLog

/-! ### What a path leaves outside its write keys -/

namespace RefLog

/-- A log `L` of a path with write keys `W` that started on the server `s₀`, whose references
were apart, is local on the server `s`: the heap has only grown; a key outside `W` has lost its
binding or kept it; a reference of the heap of `s₀` is bound only where it was; the fresh
references are new; an old reference read from a key was bound there; and the object of a key
outside `W` is as it was. -/
structure Local (W : List Bytes) (s₀ : Server) (L : RefLog) (s : Server) : Prop where
  start : s₀.RefsOK
  heap_le : s₀.heap.length ≤ s.heap.length
  outside : ∀ k, k ∉ W → ∀ v, s.store.get k = some v → s₀.store.get k = some v
  old_refs : ∀ k x, x < s₀.heap.length → s.store.get k = some (.ref x) → s₀.store.get k = some (.ref x)
  fresh_new : ∀ x ∈ L.fresh, s₀.heap.length ≤ x
  read_old : ∀ k x, (k, x) ∈ L.read → x < s₀.heap.length → s₀.store.get k = some (.ref x)
  objects : ∀ k, k ∉ W → ∀ x, s₀.store.get k = some (.ref x) →
    s.heap.getD x .other = s₀.heap.getD x .other

namespace Local

variable {W : List Bytes} {s₀ s s' : Server} {L : RefLog}

theorem nil (h : s₀.RefsOK) : Local W s₀ ⟨[], []⟩ s₀ :=
  ⟨h, le_rfl, fun _ _ _ => id, fun _ _ _ => id, nofun, nofun, fun _ _ _ _ => rfl⟩

/-- A locality stays while the server only loses bindings. -/
theorem mono (hl : Local W s₀ L s) (hbind : ∀ k v, s'.store.get k = some v → s.store.get k = some v)
    (hheap : s'.heap = s.heap) : Local W s₀ L s' where
  start := hl.start
  heap_le := hheap ▸ hl.heap_le
  outside k hk v h := hl.outside k hk v (hbind k v h)
  old_refs k x hx h := hl.old_refs k x hx (hbind k _ h)
  fresh_new := hl.fresh_new
  read_old := hl.read_old
  objects k hk x h := hheap ▸ hl.objects k hk x h

theorem readValue (hl : Local W s₀ L s) (key : Bytes) :
    Local W s₀ (L.readValue key (s.store.get key)) s := by
  rcases hk : s.store.get key with _ | x | _
  · exact hl
  · refine { hl with read_old := ?_ }
    rintro k y (⟨⟩ | ⟨_, h⟩) hy
    exacts [hl.old_refs key _ hy hk, hl.read_old k y h hy]
  · exact hl

/-- The object at an old reference, on the heap `s` a path has grown from that of `s₀`. -/
theorem old_lt (hl : Local W s₀ L s) {k : Bytes} {x : ℕ} (h : s₀.store.get k = some (.ref x)) :
    x < s.heap.length :=
  (hl.start.lt k x h).trans_le hl.heap_le

theorem alloc (hl : Local W s₀ L s) (o : Obj) :
    Local W s₀ ⟨s.heap.length :: L.fresh, L.read⟩ { s with heap := s.heap ++ [o] } where
  start := hl.start
  heap_le := hl.heap_le.trans (by simp)
  outside := hl.outside
  old_refs := hl.old_refs
  fresh_new := by
    rintro x (⟨⟩ | ⟨_, hx⟩)
    exacts [hl.heap_le, hl.fresh_new x hx]
  read_old := hl.read_old
  objects k hk x h := by
    rw [List.getD_append _ _ _ _ (hl.old_lt h)]
    exact hl.objects k hk x h

/-- A `write` the monitor allows changes no object of a key outside `W`: the object was
allocated by the path, or read from a write key, which no other key shares. -/
theorem write (hl : Local W s₀ L s) {x : ℕ} (hw : L.MayWrite W x) (o : Obj) :
    Local W s₀ L { s with heap := s.heap.set x o } where
  start := hl.start
  heap_le := hl.heap_le.trans (by simp)
  outside := hl.outside
  old_refs := hl.old_refs
  fresh_new := hl.fresh_new
  read_old := hl.read_old
  objects k hk y h := by
    have hne : x ≠ y := by
      rintro rfl
      rcases hw with hx | ⟨k', hk', hr⟩
      · exact absurd (hl.start.lt k x h) (hl.fresh_new x hx).not_lt
      · exact hk (hl.start.unique k' k x (hl.read_old k' x hr (hl.start.lt k x h)) h ▸ hk')
    simpa [List.getElem?_set_ne hne] using hl.objects k hk y h

/-- Binding the write key `key` to `value`, which is a reference only if `key` was bound to it
on `s₀` or it is new, keeps a locality. -/
theorem bind {key : Bytes} {value : Value} (hl : Local W s₀ L s) (hk : key ∈ W)
    (hval : ∀ x, value = .ref x → x < s₀.heap.length → s₀.store.get key = some (.ref x))
    (hnew : ∀ k v, s'.store.get k = some v → s.store.get k = some v ∨ (k = key ∧ v = value))
    (hheap : s'.heap = s.heap) : Local W s₀ L s' where
  start := hl.start
  heap_le := hheap ▸ hl.heap_le
  outside k hk' v h := by
    rcases hnew k v h with h | ⟨rfl, -⟩
    exacts [hl.outside k hk' v h, absurd hk hk']
  old_refs k x hx h := by
    rcases hnew k _ h with h | ⟨rfl, hv⟩
    exacts [hl.old_refs k x hx h, hval x hv.symm hx]
  fresh_new := hl.fresh_new
  read_old := hl.read_old
  objects k hk' x h := hheap ▸ hl.objects k hk' x h

/-- A fresh reference, being new, may become any key's. -/
theorem claim {key : Bytes} {x : ℕ} (hl : Local W s₀ L s) (hx : x ∈ L.fresh) :
    Local W s₀ (L.claim key x) s :=
  { hl with
    fresh_new := fun y hy => hl.fresh_new y (List.mem_of_mem_erase hy)
    read_old := by
      rintro k y (⟨⟩ | ⟨_, h⟩) hy
      exacts [absurd hy (hl.fresh_new _ hx).not_lt, hl.read_old k y h hy] }

/-- **A `SetValue` the monitor allows keeps a locality**: it binds only a write key, to a fresh
reference or to the one read from it, and whatever the keyspace evicts after it. -/
theorem store {key : Bytes} {value : Value} {r : Except Bytes Unit} {L' : RefLog}
    (hl : Local W s₀ L s) (hδ : L.store W key value r = some L')
    (hbound : ∀ k v, s'.store.get k = some v → s.store.get k = some v ∨ (r = .ok () ∧ k = key ∧ v = value))
    (hheap : s'.heap = s.heap) : Local W s₀ L' s' := by
  have hnew : ∀ k v, s'.store.get k = some v → s.store.get k = some v ∨ (k = key ∧ v = value) :=
    fun k v h => (hbound k v h).imp_right fun ⟨_, hk, hv⟩ => ⟨hk, hv⟩
  cases value with
  | scalar a =>
      simp only [RefLog.store] at hδ
      split at hδ
      · cases hδ
        exact hl.bind ‹_› (fun _ h _ => by cases h) hnew hheap
      · cases hδ
  | ref x =>
      simp only [RefLog.store] at hδ
      split at hδ
      · cases hδ
        obtain ⟨hk, hr⟩ := ‹key ∈ W ∧ _›
        exact hl.bind hk (fun _ hy hlt => by cases hy; exact hl.read_old key x hr hlt) hnew hheap
      split at hδ
      · cases hδ
        obtain ⟨hk, hx⟩ := ‹key ∈ W ∧ _›
        have hb := hl.bind hk (fun _ hy hlt => by cases hy; exact absurd hlt (hl.fresh_new x hx).not_lt)
          hnew hheap
        cases r.toBool
        exacts [hb, hb.claim hx]
      · cases hδ

/-- **Every call the monitor accepts keeps a locality**, whatever the keyspace evicts along the
way. -/
theorem step {L' : RefLog} {m m' : Machine} {c : Call} {r : c.Result}
    (hl : Local W s₀ L m.server) (hc : Prog.stepCall c m = .ok r m') (hδ : refStep W L c r = some L') :
    Local W s₀ L' m'.server := by
  have hshrink : c.touchesHeap = false → (c.stores && c.ok r) = false → Local W s₀ L m'.server :=
    fun hh hs => hl.mono (Prog.stepCall_noNewBindings hc hs).store (Prog.stepCall_sameHeap hc hh)
  obtain ⟨m₁, hx, hs⟩ := Prog.stepCall_exec hc
  cases c with
  | getValue key =>
      cases hδ
      rw [Keyspace.getValue_result hx, ← hs]
      exact (hshrink rfl rfl).readValue key
  | setValue key value =>
      rw [hs]
      exact hl.store hδ (fun k v => Keyspace.setValue_bound hx) (Keyspace.setValue_sameHeap key value _ _ _ hx)
  | alloc o =>
      cases hx
      cases hδ
      rw [hs]
      exact hl.alloc o
  | write x o =>
      cases hx
      rw [hs]
      simp only [refStep] at hδ
      split at hδ
      · cases hδ
        exact hl.write ‹_› o
      · cases hδ
  | keyExists key => cases hδ; exact hshrink rfl rfl
  | createKeyAndLock key => cases hδ; exact hshrink rfl rfl
  | keyLock key => cases hδ; exact hshrink rfl rfl
  | keyUnlock key => cases hδ; exact hshrink rfl rfl
  | keyRLock key => cases hδ; exact hshrink rfl rfl
  | keyRUnlock key => cases hδ; exact hshrink rfl rfl
  | load x => cases hδ; exact hshrink rfl rfl
  | intn n => cases hδ; exact hshrink rfl rfl
  | panic msg => cases hδ; exact hshrink rfl rfl

/-- A key outside `W` keeps its object, or has lost its binding. -/
theorem objectAt (hl : Local W s₀ L s) {k : Bytes} (hk : k ∉ W) :
    s.objectAt k = s₀.objectAt k ∨ s.store.get k = none := by
  rcases h : s.store.get k with _ | v
  · exact .inr rfl
  have h₀ := hl.outside k hk v h
  left
  unfold Server.objectAt
  rw [h, h₀]
  rcases v with x | _
  · exact congrArg some (hl.objects k hk x h₀)
  · rfl

end Local

end RefLog

/-! ### Runs keep references apart -/

section Runs

variable {α β : Type} {W W' : List Bytes} {m m' : Machine} {a : α}

/-- **A program the monitor accepts keeps references apart on every run**: from every machine
whose references are apart, whatever the keyspace evicts along the way. -/
theorem refsOK_of_run {p : Prog α} {post : RefLog → α → Prop}
    (hp : p.wpR (refStep W) ⟨[], []⟩ post) (hm : m.server.RefsOK) (hrun : p.run m = .ok a m') :
    m'.server.RefsOK := by
  obtain ⟨L, hv, -⟩ := Prog.wpR_run (I := fun L m => L.Valid m.server)
    (fun _ _ _ _ _ _ hv hc hδ => hv.step hc hδ) hp (.nil hm) hrun
  exact hv.refs

/-- **On every run of a program the monitor accepts, a key outside its write keys keeps its
object, or is evicted**, from every machine whose references are apart. -/
theorem objectAt_of_run {p : Prog α} {post : RefLog → α → Prop}
    (hp : p.wpR (refStep W) ⟨[], []⟩ post) (hm : m.server.RefsOK) (hrun : p.run m = .ok a m')
    {k : Bytes} (hk : k ∉ W) : m'.server.objectAt k = m.server.objectAt k ∨ m'.server.store.get k = none := by
  obtain ⟨L, hl, -⟩ := Prog.wpR_run (I := fun L m₁ => L.Local W m.server m₁.server)
    (fun _ _ _ _ _ _ hl hc hδ => hl.step hc hδ) hp (.nil hm) hrun
  exact hl.objectAt hk

/-- **Two programs the monitor accepts keep references apart on every interleaving.** -/
theorem refsOK_of_interleaving {p : Prog α} {q : Prog β} {post : RefLog → α → Prop}
    {post' : RefLog → β → Prop} {b : β} (hp : p.wpR (refStep W) ⟨[], []⟩ post)
    (hq : q.wpR (refStep W') ⟨[], []⟩ post') (hm : m.server.RefsOK) (h : Interleaving m p q m' a b) :
    m'.server.RefsOK := by
  obtain ⟨_, _, hv, -⟩ := Prog.wpR_interleave (I := fun L₁ L₂ m => (L₁.append L₂).Valid m.server)
    (fun _ _ _ _ _ _ _ hv hc hδ => hv.step_left hc hδ)
    (fun _ _ _ _ _ _ _ hv hc hδ => hv.step_right hc hδ) hp hq (.nil hm) h
  exact hv.refs

end Runs

end EchoVault
