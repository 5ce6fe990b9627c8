/-
**Handlers as programs of capability calls.**

A handler of the source talks to the keyspace only through the capability functions of its
`HandlerFuncParams` and touches the objects they return.  `Prog α` is the free monad over these
calls: a handler is a tree whose nodes are calls and whose branches are their results.  The
same tree is run alone (`Prog.run`, one call after the other on a machine) and run against a
second handler (`Interleaving`, where each call is atomic and the calls of the two handlers
interleave in every possible way).  A call that would wait for a lock held by the other handler
is simply not taken until the lock is free.

The Go idioms of the handlers that are not calls are programs too: an index or a slice out of
range panics (`Prog.index`, `Prog.sliceFrom`), and a deferred call runs when the function
returns (`Prog.withDefer`).

Main definitions:

* `EchoVault.Prog` — programs of capability calls, with `Prog.run`;
* `EchoVault.Prog.keyExists` … `EchoVault.Prog.setValue` — the calls of `HandlerFuncParams`;
* `EchoVault.Interleaving` — the runs of two handlers side by side;
* `EchoVault.Interleaving.Reaches` — the configurations two handlers side by side pass through.

Main results:

* `EchoVault.Prog.run_bind` — running a sequence is running its parts in turn;
* `EchoVault.Interleaving.of_run` — running one handler after the other is one of the
  interleavings.
-/

import EchoVault.Keyspace.Op

set_option relaxedAutoImplicit false
set_option autoImplicit false

namespace EchoVault

/-- A program of capability calls returning an `α`. -/
inductive Prog (α : Type) where
  | pure (a : α)
  | call (c : Call) (k : c.Result → Prog α)

namespace Prog

variable {α β γ : Type}

/-- Sequencing: run `p`, then `f` on its result. -/
def bind : Prog α → (α → Prog β) → Prog β
  | pure a, f => f a
  | call c k, f => call c fun r => bind (k r) f

instance : Monad Prog where
  pure := pure
  bind := bind

@[simp] theorem pure_bind (a : α) (f : α → Prog β) : (Prog.pure a >>= f) = f a := rfl

@[simp] theorem call_bind (c : Call) (k : c.Result → Prog α) (f : α → Prog β) :
    (Prog.call c k >>= f) = Prog.call c fun r => k r >>= f := rfl

@[simp] theorem pure_eq (a : α) : (Pure.pure a : Prog α) = Prog.pure a := rfl

theorem bind_assoc (p : Prog α) (f : α → Prog β) (g : β → Prog γ) :
    (p >>= f) >>= g = p >>= fun a => f a >>= g := by
  induction p with
  | pure a => rfl
  | call c k ih => exact congrArg (Prog.call c) (funext ih)

/-! ### Running a program -/

/-- One call, recorded in the trace with whether it succeeded. -/
def stepCall (c : Call) : Op c.Result := do
  let r ← c.exec
  Op.emit (.call c (c.ok r))
  return r

/-- Run a program alone: its calls one after the other, each on the machine the previous one
left. -/
def run : Prog α → Op α
  | pure a, m => .ok a m
  | call c k, m =>
    match stepCall c m with
    | .ok r m' => run (k r) m'
    | .stop s m' => .stop s m'

@[simp] theorem run_pure (a : α) : (Prog.pure a).run = (Pure.pure a : Op α) := rfl

@[simp] theorem run_call (c : Call) (k : c.Result → Prog α) :
    (Prog.call c k).run = stepCall c >>= fun r => (k r).run := by
  funext m
  simp only [run, Op.run_bind]
  rcases stepCall c m with ⟨_, _⟩ | ⟨_, _⟩ <;> rfl

/-- **Running a sequence is running its parts in turn.** -/
theorem run_bind (p : Prog α) (f : α → Prog β) : (p >>= f).run = p.run >>= fun a => (f a).run := by
  induction p with
  | pure a => rfl
  | call c k ih =>
      simp only [call_bind, run_call, Op.bind_assoc]
      exact congrArg _ (funext ih)

/-! ### The calls of `HandlerFuncParams` -/

/-- `params.KeyExists`. -/
def keyExists (key : Bytes) : Prog Bool := call (.keyExists key) Prog.pure

/-- `params.CreateKeyAndLock`. -/
def createKeyAndLock (key : Bytes) : Prog (Except Bytes Bool) := call (.createKeyAndLock key) Prog.pure

/-- `params.KeyLock`. -/
def keyLock (key : Bytes) : Prog (Except Bytes Bool) := call (.keyLock key) Prog.pure

/-- `params.KeyUnlock`. -/
def keyUnlock (key : Bytes) : Prog Unit := call (.keyUnlock key) Prog.pure

/-- `params.KeyRLock`. -/
def keyRLock (key : Bytes) : Prog (Except Bytes Bool) := call (.keyRLock key) Prog.pure

/-- `params.KeyRUnlock`. -/
def keyRUnlock (key : Bytes) : Prog Unit := call (.keyRUnlock key) Prog.pure

/-- `params.GetValue`: `none` for a key without a value (Go's `nil`). -/
def getValue (key : Bytes) : Prog (Option Value) := call (.getValue key) Prog.pure

/-- `params.SetValue`. -/
def setValue (key : Bytes) (value : Value) : Prog (Except Bytes Unit) :=
  call (.setValue key value) Prog.pure

/-- Allocate an object (`make(map…)`, `NewSet`). -/
def alloc (o : Obj) : Prog ℕ := call (.alloc o) Prog.pure

/-- Read the object a reference points to. -/
def load (r : ℕ) : Prog Obj := call (.load r) Prog.pure

/-- Change the object a reference points to, in place. -/
def write (r : ℕ) (o : Obj) : Prog Unit := call (.write r o) Prog.pure

/-- `rand.Intn(n)`. -/
def intn (n : ℕ) : Prog ℕ := call (.intn n) Prog.pure

/-- A run-time panic. -/
def panic (msg : Bytes) : Prog α := call (.panic msg) Empty.elim

/-! ### Go idioms -/

/-- `xs[i]`, which panics out of range. -/
def index (xs : List Bytes) (i : ℕ) : Prog Bytes :=
  match xs.get? i with
  | some x => Prog.pure x
  | none => panic (ascii "runtime error: index out of range [" ++ decimal i ++
      ascii "] with length " ++ decimal xs.length)

/-- `xs[i:]`, which panics when `i` is past the end. -/
def sliceFrom (xs : List Bytes) (i : ℕ) : Prog (List Bytes) :=
  if i ≤ xs.length then Prog.pure (xs.drop i)
  else panic (ascii "runtime error: slice bounds out of range [" ++ decimal i ++ ascii ":" ++
    decimal xs.length ++ ascii "]")

theorem index_of_getElem? {xs : List Bytes} {i : ℕ} {x : Bytes} (h : xs[i]? = some x) :
    index xs i = Prog.pure x := by
  simp [index, List.get?_eq_getElem?, h]

theorem sliceFrom_of_le {xs : List Bytes} {i : ℕ} (h : i ≤ xs.length) :
    sliceFrom xs i = Prog.pure (xs.drop i) := if_pos h

/-- `defer d` followed by the body `p`: `d` runs when `p` returns. -/
def withDefer (d : Prog Unit) (p : Prog α) : Prog α := do
  let a ← p
  d
  return a

end Prog

/-! ### Two handlers side by side -/

/-- `Interleaving m p q m' a b`: from the machine `m`, the calls of `p` and of `q`, each atomic,
interleave in some order in which every call returns, and end in `m'` with the results `a` and
`b`. -/
inductive Interleaving {α β : Type} : Machine → Prog α → Prog β → Machine → α → β → Prop
  | done (m : Machine) (a : α) (b : β) : Interleaving m (.pure a) (.pure b) m a b
  | left {m m' m'' : Machine} {c : Call} {k : c.Result → Prog α} {q : Prog β} {r : c.Result}
      {a : α} {b : β} (h : Prog.stepCall c m = .ok r m')
      (rest : Interleaving m' (k r) q m'' a b) : Interleaving m (.call c k) q m'' a b
  | right {m m' m'' : Machine} {p : Prog α} {c : Call} {k : c.Result → Prog β} {r : c.Result}
      {a : α} {b : β} (h : Prog.stepCall c m = .ok r m')
      (rest : Interleaving m' p (k r) m'' a b) : Interleaving m p (.call c k) m'' a b

namespace Interleaving

variable {α β : Type}

theorem of_run_right {m m' : Machine} {a : α} {q : Prog β} {b : β}
    (hq : q.run m = .ok b m') : Interleaving m (.pure a) q m' a b := by
  induction q generalizing m with
  | pure b' =>
      simp only [Prog.run, Outcome.ok.injEq] at hq
      obtain ⟨rfl, rfl⟩ := hq
      exact .done _ _ _
  | call c k ih =>
      simp only [Prog.run] at hq
      split at hq
      · rename_i r m₁ h
        exact .right h (ih r hq)
      · cases hq

/-- **Running one handler after the other is an interleaving.** -/
theorem of_run {m m' m'' : Machine} {p : Prog α} {q : Prog β} {a : α} {b : β}
    (hp : p.run m = .ok a m') (hq : q.run m' = .ok b m'') : Interleaving m p q m'' a b := by
  induction p generalizing m with
  | pure a' =>
      simp only [Prog.run, Outcome.ok.injEq] at hp
      obtain ⟨rfl, rfl⟩ := hp
      exact of_run_right hq
  | call c k ih =>
      simp only [Prog.run] at hp
      split at hp
      · rename_i r m₁ h
        exact .left h (ih r hp)
      · cases hp

/-- Two programs under a schedule: `true` runs the next call of the left program, `false` the
next call of the right one, and a step for a program that has returned is skipped; once the
schedule runs out, the left program and then the right one run to the end. -/
def runSched : List Bool → Prog α → Prog β → Op (α × β)
  | [], p, q, m =>
    match p.run m with
    | .ok a m' =>
      match q.run m' with
      | .ok b m'' => .ok (a, b) m''
      | .stop s m'' => .stop s m''
    | .stop s m' => .stop s m'
  | true :: s, .call c k, q, m =>
    match Prog.stepCall c m with
    | .ok r m' => runSched s (k r) q m'
    | .stop s m' => .stop s m'
  | false :: s, p, .call c k, m =>
    match Prog.stepCall c m with
    | .ok r m' => runSched s p (k r) m'
    | .stop s m' => .stop s m'
  | _ :: s, p, q, m => runSched s p q m

/-- **A schedule that runs both programs to the end is an interleaving of them.** -/
theorem of_runSched (s : List Bool) (p : Prog α) (q : Prog β) (m : Machine) {a : α} {b : β}
    (h : (runSched s p q m).result = .ok (a, b)) : Interleaving m p q (runSched s p q m).machine a b := by
  induction s generalizing p q m with
  | nil =>
      simp only [runSched] at h ⊢
      cases hp : p.run m with
      | stop s m₁ => simp [hp] at h
      | ok a' m₁ =>
          cases hq : q.run m₁ with
          | stop s m₂ => simp [hp, hq] at h
          | ok b' m₂ =>
              simp only [hp, hq, Outcome.result_ok, Except.ok.injEq, Prod.mk.injEq,
                Outcome.machine_ok] at h ⊢
              obtain ⟨rfl, rfl⟩ := h
              exact of_run hp hq
  | cons x s ih =>
      cases x <;> cases p <;> cases q <;>
        first
        | exact ih _ _ _ h
        | (simp only [runSched] at h ⊢
           revert h
           split
           · rename_i r m₁ hc
             exact fun h => by first | exact .left hc (ih _ _ _ h) | exact .right hc (ih _ _ _ h)
           · simp)

/-- `Reaches m p q m' p' q'`: from the machine `m`, some calls of `p` and of `q`, each atomic and
each returning, interleave in some order and lead to the machine `m'`, with `p'` and `q'` left to
run. -/
inductive Reaches : Machine → Prog α → Prog β → Machine → Prog α → Prog β → Prop
  | refl (m : Machine) (p : Prog α) (q : Prog β) : Reaches m p q m p q
  | left {m m' m'' : Machine} {c : Call} {k : c.Result → Prog α} {q : Prog β} {r : c.Result}
      {p' : Prog α} {q' : Prog β} (h : Prog.stepCall c m = .ok r m')
      (rest : Reaches m' (k r) q m'' p' q') : Reaches m (.call c k) q m'' p' q'
  | right {m m' m'' : Machine} {p : Prog α} {c : Call} {k : c.Result → Prog β} {r : c.Result}
      {p' : Prog α} {q' : Prog β} (h : Prog.stepCall c m = .ok r m')
      (rest : Reaches m' p (k r) m'' p' q') : Reaches m p (.call c k) m'' p' q'

end Interleaving

end EchoVault
