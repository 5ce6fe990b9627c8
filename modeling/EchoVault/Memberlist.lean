/-
**The memberlist delegate: `Delegate.NotifyMsg` over gossip.**

In cluster mode, a node that is not the Raft leader gossips each mutation as a `MutateData`
broadcast.  `NotifyMsg` is what a node does when such a broadcast reaches it: a follower puts
the message back on its own broadcast queue, so that it travels on towards the leader, and the
leader decodes the command and passes it to `applyMutate`.  `RaftJoin` messages travel the same
way and end in `addVoter`.

The broadcast queue is memberlist's `TransmitLimitedQueue`: every queued broadcast is
transmitted, one node at a time, at most `limit` times (the retransmit limit), and then leaves
the queue.  A transmission may also be lost.  The leader keeps no record of the messages it has
applied.

Every origination of a message is tagged with a fresh number, `Message.origin`, which all its
copies carry; the tag is a ghost of the model, not a field of the source.

Main definitions:

* `EchoVault.Message` — a `BroadcastMessage`, as far as `NotifyMsg` reads it;
* `EchoVault.Gossip` — the queued broadcasts of all nodes, and what the leader applied;
* `EchoVault.notifyMsg` — `Delegate.NotifyMsg`;
* `EchoVault.GossipStep`, `EchoVault.GossipReachable` — one gossip step, and the states reachable
  from a cluster with empty queues.

Main results:

* `EchoVault.decode_encodeCommand` — `Decode` reads back every command `EncodeCommand` writes;
* `EchoVault.applied_le_one_of_limit_one` — with a retransmit limit of one, a message originated
  once is passed to `applyMutate` at most once, over every schedule;
* `EchoVault.mutate_applied_twice` — with memberlist's limit of four transmissions, one
  origination at a follower reaches the leader twice and is applied twice.
-/

import EchoVault.Resp

set_option relaxedAutoImplicit false
set_option autoImplicit false

namespace EchoVault

/-! ### Messages and `Decode` -/

/-- The string `resp.Value.String()` gives for a RESP value. -/
def Resp.str : Resp → Bytes
  | .simple s => s
  | .error s => s
  | .bulk s => s
  | .integer i => fmtInt i
  | _ => []

/-- `resp.Value.Array()`: the elements of an array, none for any other value. -/
def Resp.elems : Resp → List Resp
  | .array xs => xs
  | _ => []

/-- `utils.Decode`: the tokens of the RESP array at the front of `raw`, or `none` when `raw` does
not start with a RESP value. -/
def decode (raw : Bytes) : Option (List Bytes) :=
  (parseValue (raw.length + 1) raw).map fun p => p.1.elems.map Resp.str

/-- **`Decode` reads back every command `EncodeCommand` writes.** -/
theorem decode_encodeCommand (cmd : List Bytes) : decode (encodeCommand cmd) = some cmd := by
  have h := parseValue_encodeCommand cmd ((encodeCommand cmd).length + 1) [] (Nat.lt_succ_self _)
  rw [List.append_nil] at h
  simp [decode, h, Resp.elems, Resp.str, Function.comp_def]

/-- A node of the cluster. -/
abbrev Node := ℕ

/-- A `BroadcastMessage`, as far as `NotifyMsg` reads it, with the ghost tag `origin` of the
origination it is a copy of. -/
structure Message where
  action : Bytes
  serverID : Bytes
  connId : Bytes
  content : Bytes
  origin : ℕ
  deriving DecidableEq

/-- A broadcast waiting in the queue of `node`, with the number of transmissions it has left. -/
structure Entry where
  node : Node
  msg : Message
  left : ℕ
  deriving DecidableEq

/-- The gossip state of a cluster: every queued broadcast, the commands the leader passed to
`applyMutate` (with the message they came from), the `addVoter` calls, and the tags already
originated. -/
structure Gossip where
  queued : List Entry
  applied : List (Message × List Bytes)
  voters : List Message
  originated : List ℕ
  deriving DecidableEq

/-- The cluster before any gossip. -/
def Gossip.init : Gossip := ⟨[], [], [], []⟩

/-! ### `NotifyMsg` -/

section Delegate

variable (limit : ℕ) (leader : Node)

/-- `broadcastQueue.QueueBroadcast(&msg)` at `node`: a fresh entry with the full retransmit
limit. -/
def queueBroadcast (s : Gossip) (node : Node) (msg : Message) : Gossip :=
  { s with queued := s.queued ++ [⟨node, msg, limit⟩] }

/-- `Delegate.NotifyMsg` at `node`, where `isRaftLeader()` holds exactly at `leader`. -/
def notifyMsg (s : Gossip) (node : Node) (msg : Message) : Gossip :=
  if msg.action = ascii "RaftJoin" then
    if node ≠ leader then queueBroadcast limit s node msg
    else { s with voters := s.voters ++ [msg] }
  else if msg.action = ascii "MutateData" then
    if node ≠ leader then queueBroadcast limit s node msg
    else match decode msg.content with
      | none => s
      | some cmd => { s with applied := s.applied ++ [(msg, cmd)] }
  else s

/-- One transmission of the entry at position `i`: it has one transmission fewer, and leaves the
queue when it has none left. -/
def spend (queued : List Entry) (i : ℕ) : List Entry :=
  match queued[i]? with
  | none => queued
  | some e => if e.left ≤ 1 then queued.eraseIdx i else queued.set i { e with left := e.left - 1 }

/-- One gossip step. -/
inductive GossipStep : Gossip → Gossip → Prop
  /-- A follower broadcasts a new message, never originated before. -/
  | originate (s : Gossip) (node : Node) (msg : Message) (hfresh : msg.origin ∉ s.originated) :
      GossipStep s { queueBroadcast limit s node msg with originated := msg.origin :: s.originated }
  /-- The entry at position `i` is transmitted to another node, which runs `NotifyMsg`. -/
  | transmit (s : Gossip) (i : ℕ) (e : Entry) (he : s.queued[i]? = some e) (dst : Node)
      (hdst : dst ≠ e.node) :
      GossipStep s (notifyMsg limit leader { s with queued := spend s.queued i } dst e.msg)
  /-- A transmission of the entry at position `i` is lost. -/
  | lose (s : Gossip) (i : ℕ) :
      GossipStep s { s with queued := spend s.queued i }

/-- The states reachable from a cluster with empty queues. -/
inductive GossipReachable : Gossip → Prop
  | init : GossipReachable Gossip.init
  | step {s s' : Gossip} : GossipReachable s → GossipStep limit leader s s' → GossipReachable s'

/-! ### At most once with a retransmit limit of one -/

/-- The transmissions left to the copies of origination `o` in the queues. -/
def copies (queued : List Entry) (o : ℕ) : ℕ :=
  ((queued.filter fun e => e.msg.origin = o).map Entry.left).sum

/-- The number of times the leader applied a copy of origination `o`. -/
def appliedCount (s : Gossip) (o : ℕ) : ℕ := (s.applied.filter fun a => a.1.origin = o).length

/-- The invariant behind at-most-once delivery: the copies of an origination and its
applications number at most one, and none exists before it is originated. -/
def OnceInv (s : Gossip) : Prop :=
  ∀ o, copies s.queued o + appliedCount s o ≤ if o ∈ s.originated then 1 else 0

theorem copies_append (queued : List Entry) (e : Entry) (o : ℕ) :
    copies (queued ++ [e]) o = copies queued o + if e.msg.origin = o then e.left else 0 := by
  by_cases h : e.msg.origin = o <;> simp [copies, h]

theorem spend_cons_succ (x : Entry) (xs : List Entry) (i : ℕ) :
    spend (x :: xs) (i + 1) = x :: spend xs i := by
  simp only [spend, List.getElem?_cons_succ]
  split <;> simp [List.eraseIdx_cons_succ]
  split <;> rfl

theorem copies_cons (x : Entry) (xs : List Entry) (o : ℕ) :
    copies (x :: xs) o = (if x.msg.origin = o then x.left else 0) + copies xs o := by
  by_cases h : x.msg.origin = o <;> simp [copies, h]

/-- A transmission spends one unit of what the transmitted entry has left. -/
theorem copies_spend {queued : List Entry} {i : ℕ} {e : Entry} (he : queued[i]? = some e)
    (hpos : 0 < e.left) (o : ℕ) :
    copies (spend queued i) o + (if e.msg.origin = o then 1 else 0) = copies queued o := by
  induction queued generalizing i with
  | nil => simp at he
  | cons x xs ih =>
      cases i with
      | zero =>
          simp only [List.getElem?_cons_zero, Option.some.injEq] at he
          subst he
          by_cases hl : x.left ≤ 1 <;> by_cases ho : x.msg.origin = o <;>
            simp [spend, copies_cons, hl, ho] <;> omega
      | succ i =>
          rw [spend_cons_succ, copies_cons, copies_cons, ← ih (by simpa using he)]
          omega

/-- Every queued broadcast has a transmission left. -/
def LeftPos (queued : List Entry) : Prop := ∀ e ∈ queued, 0 < e.left

theorem leftPos_spend {queued : List Entry} (h : LeftPos queued) (i : ℕ) :
    LeftPos (spend queued i) := by
  unfold spend
  split
  · exact h
  · rename_i e _
    split
    · exact fun x hx => h x (List.mem_of_mem_eraseIdx hx)
    · rename_i hl
      intro x hx
      rcases List.mem_or_eq_of_mem_set hx with hx | rfl
      · exact h x hx
      · simp only; omega

@[simp] theorem queueBroadcast_applied (s : Gossip) (node : Node) (msg : Message) :
    (queueBroadcast limit s node msg).applied = s.applied := rfl

@[simp] theorem queueBroadcast_originated (s : Gossip) (node : Node) (msg : Message) :
    (queueBroadcast limit s node msg).originated = s.originated := rfl

theorem appliedCount_append (s : Gossip) (msg : Message) (cmd : List Bytes) (o : ℕ) :
    appliedCount { s with applied := s.applied ++ [(msg, cmd)] } o =
      appliedCount s o + if msg.origin = o then 1 else 0 := by
  by_cases h : msg.origin = o <;> simp [appliedCount, h]

/-- **What `NotifyMsg` can do**: re-queue the message, change neither the queues nor the
applications nor the originations, or apply a decoded command. -/
theorem notifyMsg_cases (s : Gossip) (node : Node) (msg : Message) :
    notifyMsg limit leader s node msg = queueBroadcast limit s node msg ∨
      (notifyMsg limit leader s node msg).queued = s.queued ∧
        (notifyMsg limit leader s node msg).applied = s.applied ∧
        (notifyMsg limit leader s node msg).originated = s.originated ∨
      ∃ cmd, notifyMsg limit leader s node msg = { s with applied := s.applied ++ [(msg, cmd)] } := by
  unfold notifyMsg
  split_ifs
  · exact .inl rfl
  · exact .inr (.inl ⟨rfl, rfl, rfl⟩)
  · exact .inl rfl
  · split
    · exact .inr (.inl ⟨rfl, rfl, rfl⟩)
    · exact .inr (.inr ⟨_, rfl⟩)
  · exact .inr (.inl ⟨rfl, rfl, rfl⟩)

/-- What `NotifyMsg` does to the copies and applications of an origination: with a retransmit
limit of one, it adds at most the one copy it received. -/
theorem notifyMsg_count_le (s : Gossip) (node : Node) (msg : Message) (o : ℕ) :
    copies (notifyMsg 1 leader s node msg).queued o + appliedCount (notifyMsg 1 leader s node msg) o ≤
      copies s.queued o + appliedCount s o + if msg.origin = o then 1 else 0 := by
  rcases notifyMsg_cases 1 leader s node msg with h | ⟨hq, ha, -⟩ | ⟨cmd, h⟩
  · rw [h]
    simp only [queueBroadcast, copies_append, appliedCount]
    omega
  · rw [hq, show appliedCount (notifyMsg 1 leader s node msg) o = appliedCount s o by
      simp [appliedCount, ha]]
    omega
  · rw [h, appliedCount_append]
    exact Nat.le_of_eq (Nat.add_assoc _ _ _).symm

theorem notifyMsg_originated (s : Gossip) (node : Node) (msg : Message) :
    (notifyMsg limit leader s node msg).originated = s.originated := by
  rcases notifyMsg_cases limit leader s node msg with h | ⟨-, -, h⟩ | ⟨cmd, h⟩ <;> rw [h]
  all_goals rfl

theorem leftPos_append {queued : List Entry} (h : LeftPos queued) {e : Entry} (he : 0 < e.left) :
    LeftPos (queued ++ [e]) := by
  intro x hx
  rcases List.mem_append.1 hx with hx | hx
  · exact h x hx
  · rw [List.mem_singleton.1 hx]
    exact he

theorem leftPos_notifyMsg {s : Gossip} (h : LeftPos s.queued) (hlim : 0 < limit) (node : Node)
    (msg : Message) : LeftPos (notifyMsg limit leader s node msg).queued := by
  rcases notifyMsg_cases limit leader s node msg with e | ⟨e, -, -⟩ | ⟨cmd, e⟩ <;> rw [e]
  · exact leftPos_append h hlim
  · exact h
  · exact h

/-- **One gossip step keeps the at-most-once invariant** when the retransmit limit is one. -/
theorem onceInv_step {s s' : Gossip} (hs : OnceInv s ∧ LeftPos s.queued)
    (step : GossipStep 1 leader s s') : OnceInv s' ∧ LeftPos s'.queued := by
  obtain ⟨hinv, hpos⟩ := hs
  cases step with
  | originate node msg hfresh =>
      refine ⟨fun o => ?_, leftPos_append hpos Nat.one_pos⟩
      have h₀ := hinv o
      show copies (s.queued ++ [⟨node, msg, 1⟩]) o + appliedCount s o ≤
        if o ∈ msg.origin :: s.originated then 1 else 0
      rw [copies_append]
      by_cases ho : msg.origin = o
      · subst ho
        rw [if_neg hfresh] at h₀
        simp only [if_true, List.mem_cons_self]
        omega
      · have hmem : o ∈ msg.origin :: s.originated ↔ o ∈ s.originated := by simp [Ne.symm ho]
        simpa only [ho, if_false, add_zero, hmem] using h₀
  | transmit i e he dst hdst =>
      refine ⟨fun o => ?_, leftPos_notifyMsg 1 leader (leftPos_spend hpos i) Nat.one_pos _ _⟩
      have h₁ := copies_spend he (hpos e (List.getElem?_mem he)) o
      have h₂ := notifyMsg_count_le leader { s with queued := spend s.queued i } dst e.msg o
      have h₃ := hinv o
      rw [notifyMsg_originated]
      exact le_trans (by simpa [appliedCount] using h₂) (by simp only [appliedCount] at h₃ ⊢; omega)
  | lose i =>
      refine ⟨fun o => ?_, leftPos_spend hpos i⟩
      have h₂ := hinv o
      cases hi : s.queued[i]? with
      | none =>
          have : spend s.queued i = s.queued := by simp [spend, hi]
          simpa [this] using h₂
      | some e =>
          have := copies_spend hi (hpos e (List.getElem?_mem hi)) o
          simp only [appliedCount] at h₂ ⊢
          omega

/-- **At most once, with a retransmit limit of one.**  When every queued broadcast is
transmitted at most once, a message originated once is passed to `applyMutate` at most once,
whatever the schedule of transmissions and losses. -/
theorem applied_le_one_of_limit_one {s : Gossip} (h : GossipReachable 1 leader s) (o : ℕ) :
    appliedCount s o ≤ 1 := by
  have : OnceInv s ∧ LeftPos s.queued := by
    induction h with
    | init => exact ⟨fun o => by simp [copies, appliedCount, Gossip.init], fun e he => by
        simp [Gossip.init] at he⟩
    | step _ hstep ih => exact onceInv_step leader ih hstep
  have := this.1 o
  split_ifs at this <;> omega

end Delegate

/-- A `MutateData` broadcast of `INCR a`, originated at a follower. -/
def incrBroadcast : Message :=
  ⟨ascii "MutateData", ascii "1", ascii "1-1", encodeCommand [ascii "INCR", ascii "a"], 0⟩

/-- With a retransmit limit of one, the broadcast reaches the leader once and is applied once. -/
theorem applied_once_incr :
    GossipReachable 1 0 (notifyMsg 1 0 ⟨[], [], [], [0]⟩ 0 incrBroadcast) ∧
      appliedCount (notifyMsg 1 0 ⟨[], [], [], [0]⟩ 0 incrBroadcast) 0 ≤ 1 :=
  have h : GossipReachable 1 0 (notifyMsg 1 0 ⟨[], [], [], [0]⟩ 0 incrBroadcast) :=
    .step (.step .init (.originate _ 1 incrBroadcast (by simp [Gossip.init])))
      (.transmit _ 0 ⟨1, incrBroadcast, 1⟩ (by rfl) 0 (by decide))
  ⟨h, applied_le_one_of_limit_one 0 h 0⟩

/-- **A mutation applied twice.**  Memberlist transmits every queued broadcast several times
(four, for a cluster of fewer than ten nodes with its default `RetransmitMult`).  A follower
queues `INCR a` once; two of its transmissions reach the leader, and the leader, which keeps
no record of what it applied, passes the command to `applyMutate` twice. -/
theorem mutate_applied_twice :
    ∃ s, GossipReachable 4 0 s ∧ incrBroadcast.origin ∈ s.originated ∧ appliedCount s 0 = 2 :=
  ⟨_, .step (.step (.step .init (.originate _ 1 incrBroadcast (by simp [Gossip.init])))
      (.transmit _ 0 ⟨1, incrBroadcast, 4⟩ (by rfl) 0 (by decide)))
      (.transmit _ 0 ⟨1, incrBroadcast, 3⟩ (by rfl) 0 (by decide)), by decide, by decide⟩

end EchoVault
