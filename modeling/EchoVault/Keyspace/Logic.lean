/-
**A program logic for handlers: weakest preconditions along every path.**

A property of the calls a handler makes is checked by a monitor: a state that each call, with
whether it succeeded, moves forward, or rejects.  `Prog.wp δ p s post` says that along every
path of `p` (every result of every call, whatever the keyspace answers) the monitor `δ`
started in `s` accepts every call, and that the final state and result satisfy `post`.  It is
a fold over the program tree, so `simp` computes it through the `do` blocks of the handlers with
the equations below, one per capability call.

`Prog.wp_run` connects it to the runs of the program: an invariant of machines that every
accepted call preserves holds at the end of every run.

A monitor that must see what a call returned (the reference `GetValue` read, the one `alloc`
made) is a `MonitorR`, with the same fold `Prog.wpR`; `wp` is the case of a monitor that reads
only the success bit (`Prog.wp_eq_wpR`), and its results about runs are those of `wpR`.

Main definitions:

* `EchoVault.Prog.Monitor`, `EchoVault.Prog.wp`;
* `EchoVault.Prog.MonitorR`, `EchoVault.Prog.wpR`;
* `EchoVault.Prog.Steps` — one path of a program under a monitor.

Main results:

* `EchoVault.Prog.wp_bind` — the weakest precondition of a sequence;
* `EchoVault.Prog.wp_simulate` — a monitor that simulates another accepts what it accepts;
* `EchoVault.Prog.wpR_run`, `EchoVault.Prog.wp_run` — what `wpR` and `wp` say about a run;
* `EchoVault.Prog.wpR_interleave`, `EchoVault.Prog.wp_interleave` — what they say about two
  programs interleaved;
* `EchoVault.Prog.wp_reaches` — and about every configuration two programs side by side reach;
* `EchoVault.Prog.wp_steps` — and about what is left along one path.
-/

import EchoVault.Keyspace.Prog

set_option relaxedAutoImplicit false
set_option autoImplicit false

namespace EchoVault

namespace Prog

/-- A monitor of the calls along a path: from the state `s`, a call `c` that succeeded or not
moves to `δ s c ok`, or breaks the property (`none`). -/
abbrev Monitor (σ : Type) := σ → Call → Bool → Option σ

variable {σ α β : Type} (δ : Monitor σ)

/-- Along every path of `p` from the monitor state `s`, the monitor accepts each call, and the
final state and result satisfy `post`.  A path that panics ends at the panic. -/
def wp : Prog α → σ → (σ → α → Prop) → Prop
  | .pure a, s, post => post s a
  | .call c k, s, post => ∀ r, ∃ s', δ s c (c.ok r) = some s' ∧ wp (k r) s' post

variable {δ}

/-- A monitor that sees what each call returned: from the state `s`, the call `c` with result
`r` moves to `μ s c r`, or breaks the property (`none`). -/
abbrev MonitorR (σ : Type) := σ → (c : Call) → c.Result → Option σ

/-- `wp` for a monitor that sees results. -/
def wpR (μ : MonitorR σ) : Prog α → σ → (σ → α → Prop) → Prop
  | .pure a, s, post => post s a
  | .call c k, s, post => ∀ r, ∃ s', μ s c r = some s' ∧ wpR μ (k r) s' post

/-- `wp` is `wpR` for the monitor that reads only whether each call succeeded. -/
theorem wp_eq_wpR (p : Prog α) (s : σ) (post : σ → α → Prop) :
    wp δ p s post = wpR (fun s c r => δ s c (c.ok r)) p s post := by
  induction p generalizing s with
  | pure a => rfl
  | call c k ih => simp only [wp, wpR, ih]

@[simp] theorem wp_pure (a : α) (s : σ) (post : σ → α → Prop) :
    wp δ (Prog.pure a) s post = post s a := rfl

@[simp] theorem wp_pure' (a : α) (s : σ) (post : σ → α → Prop) :
    wp δ (Pure.pure a : Prog α) s post = post s a := rfl

/-- **The weakest precondition of a sequence.** -/
@[simp] theorem wp_bind (p : Prog α) (f : α → Prog β) (s : σ) (post : σ → β → Prop) :
    wp δ (p >>= f) s post = wp δ p s fun s' a => wp δ (f a) s' post := by
  induction p generalizing s with
  | pure a => rfl
  | call c k ih =>
      exact propext (forall_congr' fun r => exists_congr fun s' => and_congr_right fun _ =>
        (ih r s').to_iff)

@[simp] theorem wp_ite (c : Prop) [Decidable c] (p q : Prog α) (s : σ) (post : σ → α → Prop) :
    wp δ (if c then p else q) s post = if c then wp δ p s post else wp δ q s post := by
  split <;> rfl

/-! ### The capability calls -/

section Calls

variable (s : σ) (key : Bytes)

@[simp] theorem wp_keyExists (post : σ → Bool → Prop) :
    wp δ (keyExists key) s post = ∀ b, ∃ s', δ s (.keyExists key) true = some s' ∧ post s' b := rfl

@[simp] theorem wp_createKeyAndLock (post : σ → Except Bytes Bool → Prop) :
    wp δ (createKeyAndLock key) s post =
      ∀ r, ∃ s', δ s (.createKeyAndLock key) (Call.lockTaken r) = some s' ∧ post s' r := rfl

@[simp] theorem wp_keyLock (post : σ → Except Bytes Bool → Prop) :
    wp δ (keyLock key) s post =
      ∀ r, ∃ s', δ s (.keyLock key) (Call.lockTaken r) = some s' ∧ post s' r := rfl

@[simp] theorem wp_keyRLock (post : σ → Except Bytes Bool → Prop) :
    wp δ (keyRLock key) s post =
      ∀ r, ∃ s', δ s (.keyRLock key) (Call.lockTaken r) = some s' ∧ post s' r := rfl

@[simp] theorem wp_keyUnlock (post : σ → Unit → Prop) :
    wp δ (keyUnlock key) s post = ∃ s', δ s (.keyUnlock key) true = some s' ∧ post s' () :=
  propext ⟨fun h => h (), fun h _ => h⟩

@[simp] theorem wp_keyRUnlock (post : σ → Unit → Prop) :
    wp δ (keyRUnlock key) s post = ∃ s', δ s (.keyRUnlock key) true = some s' ∧ post s' () :=
  propext ⟨fun h => h (), fun h _ => h⟩

@[simp] theorem wp_getValue (post : σ → Option Value → Prop) :
    wp δ (getValue key) s post = ∀ v, ∃ s', δ s (.getValue key) true = some s' ∧ post s' v := rfl

@[simp] theorem wp_setValue (value : Value) (post : σ → Except Bytes Unit → Prop) :
    wp δ (setValue key value) s post =
      ∀ r, ∃ s', δ s (.setValue key value) (Except.toBool r) = some s' ∧ post s' r := rfl

@[simp] theorem wp_alloc (o : Obj) (post : σ → ℕ → Prop) :
    wp δ (alloc o) s post = ∀ n, ∃ s', δ s (.alloc o) true = some s' ∧ post s' n := rfl

@[simp] theorem wp_load (r : ℕ) (post : σ → Obj → Prop) :
    wp δ (load r) s post = ∀ o, ∃ s', δ s (.load r) true = some s' ∧ post s' o := rfl

@[simp] theorem wp_write (r : ℕ) (o : Obj) (post : σ → Unit → Prop) :
    wp δ (write r o) s post = ∃ s', δ s (.write r o) true = some s' ∧ post s' () :=
  propext ⟨fun h => h (), fun h _ => h⟩

@[simp] theorem wp_intn (n : ℕ) (post : σ → ℕ → Prop) :
    wp δ (intn n) s post = ∀ i, ∃ s', δ s (.intn n) true = some s' ∧ post s' i := rfl

@[simp] theorem wp_panic (msg : Bytes) (post : σ → α → Prop) : wp δ (panic msg) s post :=
  fun r => r.elim

end Calls

/-! ### Go idioms -/

@[simp] theorem wp_index (xs : List Bytes) (i : ℕ) (s : σ) (post : σ → Bytes → Prop) :
    wp δ (index xs i) s post ↔ ∀ x, xs[i]? = some x → post s x := by
  simp only [index, List.get?_eq_getElem?]
  cases h : xs[i]? <;> simp [h]

@[simp] theorem wp_sliceFrom (xs : List Bytes) (i : ℕ) (s : σ) (post : σ → List Bytes → Prop) :
    wp δ (sliceFrom xs i) s post ↔ (i ≤ xs.length → post s (xs.drop i)) := by
  unfold sliceFrom
  split <;> simp_all

@[simp] theorem wp_withDefer (d : Prog Unit) (p : Prog α) (s : σ) (post : σ → α → Prop) :
    wp δ (withDefer d p) s post = wp δ p s fun s' a => wp δ d s' fun s'' _ => post s'' a := by
  simp [withDefer]

/-! ### Results of calls -/

@[simp] theorem forall_except {ε γ : Type} {P : Except ε γ → Prop} :
    (∀ r, P r) ↔ (∀ e, P (.error e)) ∧ ∀ a, P (.ok a) :=
  ⟨fun h => ⟨fun e => h _, fun a => h _⟩, fun h r => by cases r <;> simp_all⟩

/-! ### Monotonicity -/

section Results

variable {μ : MonitorR σ}

/-- **The weakest precondition of a sequence**, for a monitor that sees results. -/
theorem wpR_bind (p : Prog α) (f : α → Prog β) (s : σ) (post : σ → β → Prop) :
    wpR μ (p >>= f) s post = wpR μ p s fun s' a => wpR μ (f a) s' post := by
  induction p generalizing s with
  | pure a => rfl
  | call c k ih =>
      exact propext (forall_congr' fun r => exists_congr fun s' => and_congr_right fun _ =>
        (ih r s').to_iff)

theorem wpR_mono {p : Prog α} {s : σ} {post post' : σ → α → Prop}
    (h : ∀ s a, post s a → post' s a) (hp : wpR μ p s post) : wpR μ p s post' := by
  induction p generalizing s with
  | pure a => exact h s a hp
  | call c k ih =>
      intro r
      obtain ⟨s', hs', hk⟩ := hp r
      exact ⟨s', hs', ih r hk⟩

/-- **What `wpR` says about a run.**  If every call the monitor accepts preserves an invariant
`I` of monitor states and machines, then a run of a program whose `wpR` holds ends in a state
where `I` holds, with the final monitor state and result satisfying `post`. -/
theorem wpR_run {I : σ → Machine → Prop}
    (hI : ∀ s m c r m' s', I s m → stepCall c m = .ok r m' → μ s c r = some s' → I s' m')
    {p : Prog α} {s : σ} {post : σ → α → Prop} {m m' : Machine} {a : α}
    (hwp : wpR μ p s post) (hs : I s m) (hrun : p.run m = .ok a m') : ∃ s', I s' m' ∧ post s' a := by
  induction p generalizing s m with
  | pure b =>
      simp only [run, Outcome.ok.injEq] at hrun
      obtain ⟨rfl, rfl⟩ := hrun
      exact ⟨s, hs, hwp⟩
  | call c k ih =>
      simp only [run] at hrun
      split at hrun
      · rename_i r m₁ hc
        obtain ⟨s', hs', hk⟩ := hwp r
        exact ih r hk (hI s m c r m₁ s' hs hc hs') hrun
      · cases hrun

/-- **What `wpR` says about two programs side by side.**  If every call that either monitor
accepts preserves an invariant `I` of both monitor states and the machine, then every
interleaving of two programs whose `wpR` hold ends in a state where `I` holds, with both final
states and results satisfying their posts. -/
theorem wpR_interleave {τ β : Type} {μ' : MonitorR τ} {I : σ → τ → Machine → Prop}
    (hl : ∀ s t m c r m' s', I s t m → stepCall c m = .ok r m' → μ s c r = some s' → I s' t m')
    (hr : ∀ s t m c r m' t', I s t m → stepCall c m = .ok r m' → μ' t c r = some t' → I s t' m')
    {p : Prog α} {q : Prog β} {s : σ} {t : τ} {post : σ → α → Prop} {post' : τ → β → Prop}
    {m m' : Machine} {a : α} {b : β} (hp : wpR μ p s post) (hq : wpR μ' q t post')
    (hs : I s t m) (h : Interleaving m p q m' a b) : ∃ s' t', I s' t' m' ∧ post s' a ∧ post' t' b := by
  induction h generalizing s t with
  | done => exact ⟨s, t, hs, hp, hq⟩
  | left hc _ ih =>
      obtain ⟨s', hs', hk⟩ := hp _
      exact ih hk hq (hl _ _ _ _ _ _ _ hs hc hs')
  | right hc _ ih =>
      obtain ⟨t', ht', hk⟩ := hq _
      exact ih hp hk (hr _ _ _ _ _ _ _ hs hc ht')

end Results

theorem wp_mono {p : Prog α} {s : σ} {post post' : σ → α → Prop}
    (h : ∀ s a, post s a → post' s a) (hp : wp δ p s post) : wp δ p s post' := by
  rw [wp_eq_wpR] at hp ⊢
  exact wpR_mono h hp

/-- **One monitor simulates another.**  If every step the monitor `δ` accepts from a state
related to a state of `δ'` is accepted by `δ'` into a related state, then what holds along every
path under `δ` holds under `δ'`, with a related final state. -/
theorem wp_simulate {τ : Type} {δ' : Monitor τ} (R : σ → τ → Prop)
    (hR : ∀ s t c b s', R s t → δ s c b = some s' → ∃ t', δ' t c b = some t' ∧ R s' t')
    {p : Prog α} {s : σ} {t : τ} {post : σ → α → Prop} (hp : wp δ p s post) (hst : R s t) :
    wp δ' p t fun t' a => ∃ s', R s' t' ∧ post s' a := by
  induction p generalizing s t with
  | pure a => exact ⟨s, hst, hp⟩
  | call c k ih =>
      intro r
      obtain ⟨s', hs', hk⟩ := hp r
      obtain ⟨t', ht', hst'⟩ := hR s t c _ s' hst hs'
      exact ⟨t', ht', ih r hk hst'⟩

/-! ### Runs -/

/-- **What `wp` says about a run.**  If every call the monitor accepts preserves an invariant
`I` of monitor states and machines, then a run of a program whose `wp` holds ends in a state
where `I` holds, with the final monitor state and result satisfying `post`. -/
theorem wp_run {I : σ → Machine → Prop}
    (hI : ∀ s m c r m' s', I s m → stepCall c m = .ok r m' → δ s c (c.ok r) = some s' → I s' m')
    {p : Prog α} {s : σ} {post : σ → α → Prop} {m m' : Machine} {a : α}
    (hwp : wp δ p s post) (hs : I s m) (hrun : p.run m = .ok a m') : ∃ s', I s' m' ∧ post s' a := by
  rw [wp_eq_wpR] at hwp
  exact wpR_run hI hwp hs hrun

/-- **What `wp` says about two programs side by side.**  If every call that either monitor
accepts preserves an invariant `I` of both monitor states and the machine, then every
interleaving of two programs whose `wp` hold ends in a state where `I` holds, with both final
states and results satisfying their posts. -/
theorem wp_interleave {τ β : Type} {δ' : Monitor τ} {I : σ → τ → Machine → Prop}
    (hl : ∀ s t m c r m' s', I s t m → stepCall c m = .ok r m' → δ s c (c.ok r) = some s' →
      I s' t m')
    (hr : ∀ s t m c r m' t', I s t m → stepCall c m = .ok r m' → δ' t c (c.ok r) = some t' →
      I s t' m')
    {p : Prog α} {q : Prog β} {s : σ} {t : τ} {post : σ → α → Prop} {post' : τ → β → Prop}
    {m m' : Machine} {a : α} {b : β} (hp : wp δ p s post) (hq : wp δ' q t post')
    (hs : I s t m) (h : Interleaving m p q m' a b) : ∃ s' t', I s' t' m' ∧ post s' a ∧ post' t' b := by
  rw [wp_eq_wpR] at hp hq
  exact wpR_interleave hl hr hp hq hs h

/-- **What `wp` says about two programs part-way through.**  Under the same conditions, every
configuration that two programs whose `wp` hold reach side by side has monitor states where `I`
holds and from which what is left of each program still satisfies its `wp`. -/
theorem wp_reaches {τ β : Type} {δ' : Monitor τ} {I : σ → τ → Machine → Prop}
    (hl : ∀ s t m c r m' s', I s t m → stepCall c m = .ok r m' → δ s c (c.ok r) = some s' →
      I s' t m')
    (hr : ∀ s t m c r m' t', I s t m → stepCall c m = .ok r m' → δ' t c (c.ok r) = some t' →
      I s t' m')
    {p p' : Prog α} {q q' : Prog β} {s : σ} {t : τ} {post : σ → α → Prop} {post' : τ → β → Prop}
    {m m' : Machine} (hp : wp δ p s post) (hq : wp δ' q t post') (hs : I s t m)
    (h : Interleaving.Reaches m p q m' p' q') :
    ∃ s' t', I s' t' m' ∧ wp δ p' s' post ∧ wp δ' q' t' post' := by
  induction h generalizing s t with
  | refl => exact ⟨s, t, hs, hp, hq⟩
  | left hc _ ih =>
      obtain ⟨s', hs', hk⟩ := hp _
      exact ih hk hq (hl _ _ _ _ _ _ _ hs hc hs')
  | right hc _ ih =>
      obtain ⟨t', ht', hk⟩ := hq _
      exact ih hp hk (hr _ _ _ _ _ _ _ hs hc ht')

/-! ### One path -/

/-- `Steps δ p s q t`: along one path of `p`, each call answered by some result, the monitor `δ`
accepts every call and moves from `s` to `t`, and `q` is what is left to run. -/
inductive Steps (δ : Monitor σ) : Prog α → σ → Prog α → σ → Prop
  | refl (p : Prog α) (s : σ) : Steps δ p s p s
  | call {c : Call} {k : c.Result → Prog α} {s s' t : σ} {q : Prog α} (r : c.Result)
      (h : δ s c (c.ok r) = some s') (rest : Steps δ (k r) s' q t) : Steps δ (.call c k) s q t

namespace Steps

variable {p q r : Prog α} {s t u : σ}

theorem trans (h₁ : Steps δ p s q t) (h₂ : Steps δ q t r u) : Steps δ p s r u := by
  induction h₁ with
  | refl => exact h₂
  | call r h _ ih => exact .call r h (ih h₂)

/-- A path of `p` is a path of `p >>= f`. -/
theorem bind (h : Steps δ p s q t) (f : α → Prog β) : Steps δ (p >>= f) s (q >>= f) t := by
  induction h with
  | refl => exact .refl _ _
  | call r h _ ih => exact .call r h ih

/-- A path of `p` to a result `a`, then a path of `f a`, is a path of `p >>= f`. -/
theorem bind_pure {a : α} {f : α → Prog β} {q : Prog β} (h : Steps δ p s (Prog.pure a) t)
    (h' : Steps δ (f a) t q u) : Steps δ (p >>= f) s q u :=
  (h.bind f).trans h'

end Steps

/-- What is left along a path of a program whose `wp` holds satisfies its `wp`. -/
theorem wp_steps {p q : Prog α} {s t : σ} {post : σ → α → Prop} (hp : wp δ p s post)
    (h : Steps δ p s q t) : wp δ q t post := by
  induction h with
  | refl => exact hp
  | call r h _ ih =>
      obtain ⟨s', hs, hk⟩ := hp r
      rw [h] at hs
      cases hs
      exact ih hk

end Prog

end EchoVault
