/-
**The append-only log: `AppendStore.Write` and `AppendStore.Restore`.**

`AppendStore.Write` appends a RESP-encoded command and a CRLF to the log; `AppendStore.Restore`
reads the log back with `bufio.Reader.ReadLine`, glues the non-empty lines of a record together
with CRLF, cuts a record at every empty line, and hands each record to `handleCommand`.  The
store's mutex is not reentrant: under the sync strategy `always` (compared with
`strings.EqualFold`), `Write` calls `Sync`, which locks the mutex `Write` already holds.

The line reader is modelled with its buffer: `bufio.NewReader` reads through a buffer of
`defaultBufSize = 4096` bytes, and a line that does not fit comes back in pieces.

Main definitions:

* `EchoVault.AppendStore`, `EchoVault.AppendStore.write`, `EchoVault.AppendStore.writeAll` —
  the store and its `Write`;
* `EchoVault.readLine` — `bufio.Reader.ReadLine`;
* `EchoVault.restore` — the records `Restore` hands to `handleCommand`, in order;
* `EchoVault.commandLines` — the lines of `EncodeCommand(cmd)`;
* `EchoVault.AppendStore.Locking.write`, `EchoVault.AppendStore.Locking.sync` — `Write` and
  `Sync` with the mutex `store.mut`.

Main results:

* `EchoVault.AppendStore.writeAll_log` — away from the strategy `always`, the log after a run
  of writes is the concatenation of the encoded commands, each followed by CRLF;
* `EchoVault.readLine_line` — a line that fits the buffer is read back whole;
* `EchoVault.restore_writeAll` — **the log round trip**: when every token of every command is
  non-empty, holds no LF byte and does not start with a NUL byte, and every line fits the
  buffer, `Restore` hands `handleCommand` exactly the written commands, each as its encoding
  followed by CRLF;
* `EchoVault.restore_empty_token` — with an empty token the round trip fails;
* `EchoVault.AppendStore.Locking.write_relock` — **under `always`, `Write` locks the mutex it
  holds**, and `EchoVault.AppendStore.Locking.write_eq` — the store-level `Write` is the locking
  one, `none` exactly there.
-/

import EchoVault.Resp

set_option relaxedAutoImplicit false
set_option autoImplicit false

namespace EchoVault

/-! ### The store and `Write` -/

/-- The parts of `AppendStore` that `Write` and `Restore` read: the sync strategy and the
contents of the read-writer (`none` when no read-writer is set). -/
structure AppendStore where
  strategy : Bytes
  rw : Option Bytes
  deriving DecidableEq

namespace AppendStore

/-- `AppendStore.Write`: the store after the call, or `none` when the call never returns.
With no read-writer the call does nothing; otherwise it appends `command ++ "\r\n"`, and under
the strategy `always` its call of `Sync` waits forever on the mutex that `Write` holds. -/
def write (store : AppendStore) (command : Bytes) : Option AppendStore :=
  match store.rw with
  | none => some store
  | some log =>
      if equalFold store.strategy "always" then none
      else some { store with rw := some (log ++ command ++ crlf) }

/-- `Write(EncodeCommand(c))` for each command `c` in turn. -/
def writeAll (store : AppendStore) : List (List Bytes) → Option AppendStore
  | [] => some store
  | c :: cs => (store.write (encodeCommand c)).bind fun s => s.writeAll cs

/-- The log a run of writes leaves behind: each encoded command followed by CRLF. -/
def logOf (cmds : List (List Bytes)) : Bytes :=
  (cmds.map fun c => encodeCommand c ++ crlf).flatten

theorem write_some {store : AppendStore} {log : Bytes} (h : store.rw = some log)
    (hs : equalFold store.strategy "always" = false) (command : Bytes) :
    store.write command = some { store with rw := some (log ++ command ++ crlf) } := by
  simp [write, h, hs]

/-- **Away from `always`, writes append.** -/
theorem writeAll_log {store : AppendStore} (hs : equalFold store.strategy "always" = false)
    (log : Bytes) (h : store.rw = some log) (cmds : List (List Bytes)) :
    store.writeAll cmds = some { store with rw := some (log ++ logOf cmds) } := by
  induction cmds generalizing store log with
  | nil => cases store; simp_all [writeAll, logOf]
  | cons c cs ih =>
      rw [writeAll, write_some h hs, Option.some_bind,
        @ih { store with rw := some (log ++ encodeCommand c ++ crlf) } hs _ rfl]
      simp [logOf]

end AppendStore

/-! ### `bufio.Reader.ReadLine` -/

/-- The size of the buffer of `bufio.NewReader`. -/
def defaultBufSize : ℕ := 4096

/-- A line without the `'\r'` of its `"\r\n"` terminator. -/
def trimCR (line : Bytes) : Bytes := if line.getLast? = some cr then line.dropLast else line

/-- `bufio.Reader.ReadLine` on the unread bytes `inp`, with a buffer of `size` bytes: the line,
without its `"\n"` or `"\r\n"`, and the bytes after it; `none` at the end of the input.  A
line whose `'\n'` is not among the next `size` bytes comes back in pieces of `size` bytes (a
piece ending in `'\r'` gives that byte back to the next piece); the last line of the input,
unterminated, comes back as it is. -/
def readLine (size : ℕ) (inp : Bytes) : Option (Bytes × Bytes) :=
  if inp = [] then none
  else
    let window := inp.take size
    let i := window.indexOf lf
    if i < window.length then some (trimCR (inp.take i), inp.drop (i + 1))
    else if inp.length < size then some (inp, [])
    else if window.getLast? = some cr then some (window.dropLast, inp.drop (size - 1))
    else some (window, inp.drop size)

/-- **A line that fits the buffer is read back whole.** -/
theorem readLine_line {size : ℕ} {line : Bytes} (hlf : lf ∉ line)
    (hfit : line.length + 2 ≤ size) (rest : Bytes) :
    readLine size (line ++ crlf ++ rest) = some (line, rest) := by
  have hwin : (line ++ crlf ++ rest).take size = line ++ crlf ++ rest.take (size - (line.length + 2)) := by
    simp only [List.append_assoc, List.take_append_eq_append_take, List.take_of_length_le
      (show line.length ≤ size by omega), List.length_append, crlf, List.length_cons,
      List.length_nil]
    rw [List.take_of_length_le (by simp; omega)]
    simp only [List.cons_append, List.nil_append, List.length_cons, List.length_nil]
    congr 3
  have hidx : (line ++ crlf ++ rest.take (size - (line.length + 2))).indexOf lf = line.length + 1 := by
    rw [List.append_assoc, List.indexOf_append_of_not_mem hlf]
    simp [crlf, List.indexOf_cons, cr, lf]
  have hcr : (line ++ crlf ++ rest).take (line.length + 1) = line ++ [cr] := by
    simp [crlf, List.take_append_eq_append_take]
  have hdrop : (line ++ crlf ++ rest).drop (line.length + 1 + 1) = rest :=
    List.drop_left' (by simp [crlf])
  simp only [readLine, hwin, hidx, hcr, hdrop]
  simp [crlf, trimCR]

/-! ### `Restore` -/

/-- `bytes.TrimLeft(b, "\x00")`. -/
def trimLeftNul (b : Bytes) : Bytes := b.dropWhile (· = 0)

/-- The loop of `Restore`: `line` is the record read so far, `commands` the records cut so far;
`fuel` bounds the number of lines read. -/
def restoreLoop (size : ℕ) : ℕ → Bytes → Bytes → List Bytes → List Bytes
  | 0, _, _, commands => commands
  | fuel + 1, inp, line, commands =>
      match readLine size inp with
      | none => commands
      | some (b, rest) =>
          if b = [] then restoreLoop size fuel rest [] (commands ++ [line ++ crlf ++ crlf])
          else if line ≠ [] then restoreLoop size fuel rest (line ++ crlf ++ trimLeftNul b) commands
          else restoreLoop size fuel rest (trimLeftNul b) commands

/-- `AppendStore.Restore` on a log read from its beginning: the records it hands to
`handleCommand`, in order.  Every line read consumes at least one byte, so the fuel is
enough. -/
def restore (log : Bytes) : List Bytes :=
  restoreLoop defaultBufSize (log.length + 1) log [] []

/-! ### The round trip -/

/-- The lines of `EncodeCommand(cmd)`: the array header, then a length line and the token
itself for each token. -/
def commandLines (cmd : List Bytes) : List Bytes :=
  (ascii "*" ++ decimal cmd.length) ::
    cmd.flatMap fun token => [ascii "$" ++ decimal token.length, token]

/-- `EncodeCommand` is its lines, each followed by CRLF. -/
theorem encodeCommand_eq_lines (cmd : List Bytes) :
    encodeCommand cmd = ((commandLines cmd).map (· ++ crlf)).flatten := by
  have tokens : ∀ ts : List Bytes,
      ((ts.flatMap fun t => [ascii "$" ++ decimal t.length, t]).map (· ++ crlf)).flatten =
        (ts.map fun t => ascii "$" ++ decimal t.length ++ crlf ++ t ++ crlf).flatten := by
    intro ts
    induction ts with
    | nil => rfl
    | cons t ts ih => simp [ih]
  simp [encodeCommand, commandLines, tokens]

/-- The record `Restore` builds from its lines: each further line is glued on with CRLF. -/
def glueLines (line : Bytes) (ls : List Bytes) : Bytes :=
  ls.foldl (fun acc l => acc ++ crlf ++ l) line

/-- A record of glued lines, closed by the two CRLFs `Restore` adds, is the lines each followed
by CRLF, and one more CRLF. -/
theorem glueLines_crlf (line : Bytes) (ls : List Bytes) :
    glueLines line ls ++ crlf ++ crlf = ((line :: ls).map (· ++ crlf)).flatten ++ crlf := by
  induction ls generalizing line with
  | nil => simp [glueLines]
  | cons l ls ih =>
      have := ih (line ++ crlf ++ l)
      simp only [glueLines, List.foldl_cons] at this ⊢
      rw [this]
      simp

/-- A token that `Restore` reads back unchanged: non-empty, no LF byte, no leading NUL byte. -/
def GoodToken (t : Bytes) : Prop := t ≠ [] ∧ lf ∉ t ∧ t.head? ≠ some 0

instance : DecidablePred GoodToken := fun t =>
  inferInstanceAs (Decidable (t ≠ [] ∧ lf ∉ t ∧ t.head? ≠ some 0))

/-- A line that `Restore` reads back unchanged: non-empty, no LF byte, no leading NUL byte, and
room for its terminator in the buffer. -/
def GoodLine (line : Bytes) : Prop :=
  line ≠ [] ∧ lf ∉ line ∧ line.head? ≠ some 0 ∧ line.length + 2 ≤ defaultBufSize

theorem trimLeftNul_of_head {b : Bytes} (h : b.head? ≠ some 0) : trimLeftNul b = b := by
  cases b with
  | nil => rfl
  | cons x b => simp_all [trimLeftNul, List.dropWhile_cons]

/-- Reading the good lines `ls` of a record onto the partial record `line`. -/
theorem restoreLoop_lines (ls : List Bytes) (hls : ∀ l ∈ ls, GoodLine l) (fuel : ℕ)
    (line : Bytes) (hline : line ≠ []) (rest : Bytes) (commands : List Bytes) :
    restoreLoop defaultBufSize (fuel + ls.length) ((ls.map (· ++ crlf)).flatten ++ rest)
        line commands =
      restoreLoop defaultBufSize fuel rest (glueLines line ls) commands := by
  induction ls generalizing line with
  | nil => simp [glueLines]
  | cons l ls ih =>
      obtain ⟨hne, hlf, hnul, hfit⟩ := hls l (by simp)
      rw [show fuel + (l :: ls).length = (fuel + ls.length) + 1 by simp; omega]
      simp only [List.map_cons, List.flatten_cons, List.append_assoc, restoreLoop]
      rw [← List.append_assoc, readLine_line hlf hfit]
      simp only [hne, hline, ne_eq, not_false_eq_true, if_false, if_true, trimLeftNul_of_head hnul]
      rw [ih (fun l' h => hls l' (by simp [h])) _ (by simp [crlf])]
      simp only [glueLines, List.foldl_cons, List.append_assoc]

/-- Reading one whole record: its good lines, then the empty line the write added. -/
theorem restoreLoop_record (cmd : List Bytes) (hls : ∀ l ∈ commandLines cmd, GoodLine l)
    (fuel : ℕ) (rest : Bytes) (commands : List Bytes) :
    restoreLoop defaultBufSize (fuel + (commandLines cmd).length + 1)
        (encodeCommand cmd ++ crlf ++ rest) [] commands =
      restoreLoop defaultBufSize fuel rest [] (commands ++ [encodeCommand cmd ++ crlf]) := by
  obtain ⟨l₀, ls, hc⟩ : ∃ l₀ ls, commandLines cmd = l₀ :: ls := ⟨_, _, rfl⟩
  rw [encodeCommand_eq_lines, hc]
  rw [hc] at hls
  obtain ⟨hne, hlf, hnul, hfit⟩ := hls l₀ (by simp)
  have hcrlf : readLine defaultBufSize (crlf ++ rest) = some ([], rest) :=
    @readLine_line _ [] (by simp) (by simp [defaultBufSize]) rest
  rw [show fuel + (l₀ :: ls).length + 1 = ((fuel + 1) + ls.length) + 1 by simp; omega]
  simp only [List.map_cons, List.flatten_cons, List.append_assoc, restoreLoop]
  rw [← List.append_assoc, readLine_line hlf hfit]
  simp only [hne, ne_eq, not_true_eq_false, if_false, trimLeftNul_of_head hnul]
  rw [restoreLoop_lines ls (fun l h => hls l (by simp [h])) _ _ hne]
  simp only [restoreLoop, hcrlf, if_true]
  rw [glueLines_crlf]
  simp

/-- A header line, a marker byte and a decimal number, is read back unchanged when it fits the
buffer. -/
theorem goodLine_header {c : UInt8} (n : ℕ) (h0 : c ≠ 0) (hlf : c ≠ lf)
    (hfit : (c :: decimal n).length + 2 ≤ defaultBufSize) : GoodLine (c :: decimal n) :=
  ⟨List.cons_ne_nil _ _, by simp [Ne.symm hlf, lf_not_mem_decimal], by simpa using h0, hfit⟩

/-- The lines of `EncodeCommand` are read back unchanged when they fit the buffer and the
tokens are good. -/
theorem goodLine_commandLines {cmd : List Bytes} (ht : ∀ t ∈ cmd, GoodToken t)
    (hfit : ∀ l ∈ commandLines cmd, l.length + 2 ≤ defaultBufSize) :
    ∀ l ∈ commandLines cmd, GoodLine l := by
  intro l hl
  have hfit := hfit l hl
  simp only [commandLines, List.mem_cons, List.mem_flatMap, List.mem_singleton,
    List.not_mem_nil, or_false] at hl
  rcases hl with rfl | ⟨t, htm, rfl | rfl⟩
  · exact @goodLine_header (charByte '*') _ (by decide) (by decide) hfit
  · exact @goodLine_header (charByte '$') _ (by decide) (by decide) hfit
  · exact ⟨(ht _ htm).1, (ht _ htm).2.1, (ht _ htm).2.2, hfit⟩

/-- The number of lines `Restore` reads from the records of `cmds`, their empty lines included. -/
def linesOf (cmds : List (List Bytes)) : ℕ :=
  (cmds.map fun c => (commandLines c).length + 1).sum

theorem logOf_cons (c : List Bytes) (cs : List (List Bytes)) :
    AppendStore.logOf (c :: cs) = encodeCommand c ++ crlf ++ AppendStore.logOf cs := by
  simp [AppendStore.logOf]

/-- Every line read consumes at least one byte of the log. -/
theorem linesOf_le_length (cmds : List (List Bytes)) :
    linesOf cmds ≤ (AppendStore.logOf cmds).length := by
  have lines : ∀ ls : List Bytes, ls.length ≤ ((ls.map (· ++ crlf)).flatten).length := by
    intro ls
    induction ls with
    | nil => simp
    | cons l ls ih =>
        rw [List.map_cons, List.flatten_cons, List.length_append, List.length_cons]
        have : 2 ≤ (l ++ crlf).length := by simp [crlf]
        omega
  induction cmds with
  | nil => simp [linesOf, AppendStore.logOf]
  | cons c cs ih =>
      have := lines (commandLines c)
      have hl : linesOf (c :: cs) = (commandLines c).length + 1 + linesOf cs := by simp [linesOf]
      rw [hl, logOf_cons, encodeCommand_eq_lines, List.length_append, List.length_append]
      have : crlf.length = 2 := rfl
      omega

/-- `Restore` reads the records of `cmds` one after the other. -/
theorem restoreLoop_logOf (cmds : List (List Bytes))
    (hgood : ∀ c ∈ cmds, ∀ l ∈ commandLines c, GoodLine l) (fuel : ℕ) (commands : List Bytes) :
    restoreLoop defaultBufSize (fuel + linesOf cmds) (AppendStore.logOf cmds) [] commands =
      restoreLoop defaultBufSize fuel [] [] (commands ++ cmds.map fun c => encodeCommand c ++ crlf) := by
  induction cmds generalizing commands with
  | nil => simp [linesOf, AppendStore.logOf]
  | cons c cs ih =>
      rw [show fuel + linesOf (c :: cs) = fuel + linesOf cs + (commandLines c).length + 1 by
        simp [linesOf]; omega, logOf_cons,
        restoreLoop_record c (hgood c (by simp)), ih (fun c' h => hgood c' (by simp [h]))]
      simp

/-- With the input used up, `Restore` stops. -/
theorem restoreLoop_nil (fuel : ℕ) (commands : List Bytes) :
    restoreLoop defaultBufSize fuel [] [] commands = commands := by
  cases fuel <;> simp [restoreLoop, readLine]

/-- **The log round trip.**  Start from an empty log under any sync strategy but `always`, and
write the commands `cmds` one after the other.  If every token is non-empty, holds no LF byte
and does not start with a NUL byte, and every line of every encoded command fits the reader's
buffer with its CRLF, then `Restore` hands `handleCommand` exactly the commands written, in
order, each as its encoding followed by CRLF. -/
theorem restore_writeAll {store : AppendStore} (hs : equalFold store.strategy "always" = false)
    (hrw : store.rw = some []) (cmds : List (List Bytes))
    (htok : ∀ c ∈ cmds, ∀ t ∈ c, GoodToken t)
    (hfit : ∀ c ∈ cmds, ∀ l ∈ commandLines c, l.length + 2 ≤ defaultBufSize) :
    ∃ store', store.writeAll cmds = some store' ∧
      store'.rw.map restore = some (cmds.map fun c => encodeCommand c ++ crlf) := by
  refine ⟨_, AppendStore.writeAll_log hs [] hrw cmds, ?_⟩
  have hgood : ∀ c ∈ cmds, ∀ l ∈ commandLines c, GoodLine l :=
    fun c hc => goodLine_commandLines (htok c hc) (hfit c hc)
  have hle := linesOf_le_length cmds
  simp only [List.nil_append, Option.map_some', Option.some.injEq, restore]
  rw [show (AppendStore.logOf cmds).length + 1 =
      ((AppendStore.logOf cmds).length + 1 - linesOf cmds) + linesOf cmds by omega,
    restoreLoop_logOf cmds hgood, restoreLoop_nil]
  simp

/-- The round trip on `SET a 1` and `INCR a`. -/
theorem restore_writeAll_set_incr :
    ∃ store', ({ strategy := ascii "everysec", rw := some [] } : AppendStore).writeAll
        [[ascii "SET", ascii "a", ascii "1"], [ascii "INCR", ascii "a"]] = some store' ∧
      store'.rw.map restore = some ([[ascii "SET", ascii "a", ascii "1"], [ascii "INCR", ascii "a"]].map
        fun c => encodeCommand c ++ crlf) :=
  restore_writeAll (by decide) rfl _ (by decide) (by decide)

/-- **An empty token breaks the round trip.**  `Write(EncodeCommand(["a", ""]))` on an empty
log, then `Restore`: the empty token's line ends the record early, and the CRLF the write
added becomes a second, bogus record. -/
theorem restore_empty_token :
    ({ strategy := ascii "everysec", rw := some [] } : AppendStore).writeAll [[ascii "a", []]] =
        some ⟨ascii "everysec", some (AppendStore.logOf [[ascii "a", []]])⟩ ∧
      restore (AppendStore.logOf [[ascii "a", []]]) =
        [encodeCommand [ascii "a", []], crlf ++ crlf] := by
  constructor <;> decide

/-! ### The store mutex -/

namespace AppendStore.Locking

/-- What a call of a method of `AppendStore` runs on: the store, whether the call chain holds
`store.mut`, and how many times the read-writer's `Sync` has run. -/
structure State where
  store : AppendStore
  held : Bool
  syncs : ℕ
  deriving DecidableEq

/-- How a call ends: it returns, or its chain calls `store.mut.Lock()` while it holds the mutex
and waits forever, a `sync.Mutex` not being reentrant. -/
inductive Outcome (α : Type) where
  | ok (a : α) (s : State)
  | relock (s : State)
  deriving DecidableEq

/-- A step of a method. -/
def Op (α : Type) : Type := State → Outcome α

instance : Monad Op where
  pure a s := .ok a s
  bind x f s := match x s with
    | .ok a s' => f a s'
    | .relock s' => .relock s'

/-- The state. -/
def get : Op State := fun s => .ok s s

/-- `store.mut.Lock()`. -/
def lock : Op Unit := fun s => if s.held then .relock s else .ok () { s with held := true }

/-- `store.mut.Unlock()`, deferred by every method. -/
def unlock : Op Unit := fun s => .ok () { s with held := false }

/-- `store.rw.Write(out)`. -/
def rwWrite (out : Bytes) : Op Unit := fun s =>
  .ok () { s with store := { s.store with rw := s.store.rw.map (· ++ out) } }

/-- `store.rw.Sync()`. -/
def rwSync : Op Unit := fun s => .ok () { s with syncs := s.syncs + 1 }

/-- `AppendStore.Sync`. -/
def sync : Op Unit := do
  lock
  if (← get).store.rw.isSome then rwSync
  unlock

/-- `AppendStore.Write`: the command and a CRLF go to the read-writer, and under the strategy
`always` the store is synced, with `store.mut` held throughout. -/
def write (command : Bytes) : Op Unit := do
  lock
  if (← get).store.rw.isSome then
    rwWrite (command ++ crlf)
    if equalFold (← get).store.strategy "always" then sync
  unlock

/-- **`Write` under `always` locks the mutex it holds**: with a read-writer, after appending,
its call of `Sync` waits forever on `store.mut`. -/
theorem write_relock {store : AppendStore} {log : Bytes} (hrw : store.rw = some log)
    (hs : equalFold store.strategy "always" = true) (command : Bytes) (n : ℕ) :
    write command ⟨store, false, n⟩ =
      .relock ⟨{ store with rw := some (log ++ (command ++ crlf)) }, true, n⟩ := by
  simp [write, sync, lock, get, rwWrite, hrw, hs, bind, pure]

/-- **The store-level `Write` is the locking one**: it returns the store the locking `Write`
leaves, and `none` where that one locks the mutex it holds. -/
theorem write_eq (store : AppendStore) (command : Bytes) (n : ℕ) :
    store.write command = match write command ⟨store, false, n⟩ with
      | .ok _ s => some s.store
      | .relock _ => none := by
  cases hrw : store.rw with
  | none => simp [AppendStore.write, write, lock, get, unlock, hrw, bind, pure]
  | some log =>
      cases hs : equalFold store.strategy "always"
      · simp [AppendStore.write, write, lock, get, rwWrite, unlock, hrw, hs, bind, pure]
      · rw [write_relock hrw hs]
        simp [AppendStore.write, hrw, hs]

/-- `Write(command)` under the strategy `always`, with a read-writer holding `log`. -/
theorem write_under_always_relocks (command log : Bytes) :
    write command ⟨⟨ascii "always", some log⟩, false, 0⟩ =
      .relock ⟨⟨ascii "always", some (log ++ (command ++ crlf))⟩, true, 0⟩ :=
  have hs : equalFold (ascii "always") "always" = true := by decide
  write_relock rfl hs command 0

end AppendStore.Locking

end EchoVault
