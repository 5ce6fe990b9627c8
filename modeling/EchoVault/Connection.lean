/-
**Writing replies to a connection.**

`EchoVault.handleConnection` serves one client: it reads a message, has `handleCommand` answer
it and writes the answer back, until a read fails or a handler returns `io.EOF`.  An error goes
back as `-Error <message>\r\n` in one write.  An empty response is not written at all, one of at
most `chunkSize = 1024` bytes in one write, and a longer one by a loop: from `startIndex = 0`, it
writes `chunkSize` bytes at a time, until fewer than `chunkSize` bytes remain after `startIndex`
(`len(res)-1-startIndex < chunkSize`), when it writes the rest and stops.  It also stops after a
write that accepted fewer than `chunkSize` bytes.

How much of a slice `w.Write` accepts is an argument, `written`; the results below are about a
writer that accepts every slice whole.  Registering the connection with the ACL and numbering it
do not bear on what is written and are not modelled.

Main definitions:

* `EchoVault.chunkLoop` — the loop from `startIndex`: the slices it writes;
* `EchoVault.writeResponse` — the writes for one response;
* `EchoVault.Turn`, `EchoVault.serveTurns` — what a turn of `handleConnection` gets, and the
  writes over a connection;
* `EchoVault.Delivers` — a list of writes that is a response cut into nonempty pieces of at most
  `chunkSize` bytes;
* `EchoVault.replies` — what the client is meant to receive over a connection.

Main results:

* `EchoVault.chunkLoop_delivers` — with whole writes, the loop writes the rest of the response
  from `startIndex`, in nonempty pieces of at most `chunkSize` bytes;
* `EchoVault.chunkLoop_length` — and it ends after `⌈(len(res) - startIndex) / chunkSize⌉`
  writes;
* `EchoVault.writeResponse_delivers` — **every response is written whole, in order, in pieces of
  at most `chunkSize` bytes**;
* `EchoVault.serveTurns_flatten` — **over a connection the client receives every reply in
  order**, and nothing after a failed read or an `io.EOF` from a handler.
-/

import EchoVault.Bytes

set_option relaxedAutoImplicit false
set_option autoImplicit false

namespace EchoVault

/-! ### The chunk loop -/

/-- `chunkSize` of `handleConnection`. -/
def chunkSize : ℕ := 1024

/-- The `for` loop of `handleConnection` from `startIndex` on, for a response `res` longer than
`chunkSize`: the slices it passes to `w.Write`, in order.  `written chunk` is the count `w.Write`
returns for `chunk`; the error of the last write is only logged. -/
def chunkLoop (written : Bytes → ℕ) (res : Bytes) (startIndex : ℕ) : List Bytes :=
  if (res.length : ℤ) - 1 - startIndex < chunkSize then [res.drop startIndex]
  else
    let chunk := (res.drop startIndex).take chunkSize
    if written chunk < chunkSize then [chunk]
    else chunk :: chunkLoop written res (startIndex + chunkSize)
termination_by res.length - startIndex
decreasing_by simp only [chunkSize] at *; omega

/-- What `handleConnection` writes for a response `res`: nothing when it is empty, `res` in one
write when it holds at most `chunkSize` bytes, and otherwise the chunk loop from `0`. -/
def writeResponse (written : Bytes → ℕ) (res : Bytes) : List Bytes :=
  if res.length = 0 then []
  else if res.length ≤ chunkSize then [res]
  else chunkLoop written res 0

variable {written : Bytes → ℕ} {res : Bytes} {startIndex : ℕ}

/-- The last write: the rest of `res`, once at most `chunkSize` bytes remain. -/
theorem chunkLoop_last (h : res.length ≤ startIndex + chunkSize) :
    chunkLoop written res startIndex = [res.drop startIndex] := by
  rw [chunkLoop, if_pos (by omega)]

/-- Past the last write, the slice written holds `chunkSize` bytes. -/
theorem length_chunk (h : ¬ (res.length : ℤ) - 1 - startIndex < chunkSize) :
    ((res.drop startIndex).take chunkSize).length = chunkSize := by
  simp only [List.length_take, List.length_drop]
  omega

/-- A write of `chunkSize` bytes that is accepted whole, and the loop goes on after it. -/
theorem chunkLoop_whole (h : ¬ (res.length : ℤ) - 1 - startIndex < chunkSize)
    (hw : ¬ written ((res.drop startIndex).take chunkSize) < chunkSize) :
    chunkLoop written res startIndex =
      (res.drop startIndex).take chunkSize :: chunkLoop written res (startIndex + chunkSize) := by
  rw [chunkLoop, if_neg h, if_neg hw]

/-! ### Delivering a response -/

/-- `chunks` delivers `res`: written one after the other they are `res`, and each of them is a
nonempty piece of at most `chunkSize` bytes. -/
structure Delivers (chunks : List Bytes) (res : Bytes) : Prop where
  /-- Written one after the other, the pieces are `res`. -/
  flatten_eq : chunks.flatten = res
  /-- Each piece holds between one and `chunkSize` bytes. -/
  size : ∀ c ∈ chunks, c ≠ [] ∧ c.length ≤ chunkSize

theorem Delivers.nil : Delivers [] [] := ⟨rfl, by simp⟩

theorem Delivers.single (h0 : res ≠ []) (h : res.length ≤ chunkSize) : Delivers [res] res :=
  ⟨by simp, by simp [h0, h]⟩

theorem Delivers.cons {c : Bytes} {chunks : List Bytes} (hc : c ≠ [] ∧ c.length ≤ chunkSize)
    (h : Delivers chunks res) : Delivers (c :: chunks) (c ++ res) :=
  ⟨by simp [h.flatten_eq], by simpa [hc] using h.size⟩

section WholeWrites

-- Every write is accepted whole.
variable (hwhole : ∀ chunk, written chunk = chunk.length)
include hwhole

/-- A whole write is never short: the loop stops only at its last write. -/
theorem whole_not_short (hnot : ¬ (res.length : ℤ) - 1 - startIndex < chunkSize) :
    ¬ written ((res.drop startIndex).take chunkSize) < chunkSize := by
  rw [hwhole, length_chunk hnot]
  exact lt_irrefl _

/-- **The loop delivers the rest of the response** when every write is accepted whole: from a
`startIndex` inside `res`, its writes are `res` from `startIndex` on, in nonempty pieces of at
most `chunkSize` bytes. -/
theorem chunkLoop_delivers (hs : startIndex < res.length) :
    Delivers (chunkLoop written res startIndex) (res.drop startIndex) := by
  induction startIndex using chunkLoop.induct written res with
  | case1 s hlast =>
    rw [chunkLoop_last (by omega)]
    exact .single (by simpa using hs) (by simp only [List.length_drop]; omega)
  | case2 s hnot chunk hshort => exact absurd hshort (whole_not_short hwhole hnot)
  | case3 s hnot chunk hw ih =>
    have hsplit : (res.drop s).take chunkSize ++ res.drop (s + chunkSize) = res.drop s := by
      rw [← List.drop_drop, List.take_append_drop]
    have hne : (res.drop s).take chunkSize ≠ [] := by
      rw [← List.length_pos, length_chunk hnot]
      decide
    rw [chunkLoop_whole hnot hw]
    simpa only [hsplit] using Delivers.cons ⟨hne, (length_chunk hnot).le⟩ (ih (by omega))

/-- The loop ends after `⌈(len(res) - startIndex) / chunkSize⌉` writes. -/
theorem chunkLoop_length (hs : startIndex < res.length) :
    (chunkLoop written res startIndex).length =
      (res.length - startIndex + chunkSize - 1) / chunkSize := by
  induction startIndex using chunkLoop.induct written res with
  | case1 s hlast =>
    rw [chunkLoop_last (by omega), List.length_singleton]
    simp only [chunkSize] at *
    omega
  | case2 s hnot chunk hshort => exact absurd hshort (whole_not_short hwhole hnot)
  | case3 s hnot chunk hw ih =>
    rw [chunkLoop_whole hnot hw, List.length_cons, ih (by omega)]
    simp only [chunkSize] at *
    omega

/-- **Every response is written whole and in order**, in nonempty pieces of at most `chunkSize`
bytes, when every write is accepted whole; in particular the chunk loop, which writes a response
longer than `chunkSize`, ends. -/
theorem writeResponse_delivers (res : Bytes) : Delivers (writeResponse written res) res := by
  unfold writeResponse
  split_ifs with h0 hsmall
  · rw [List.length_eq_zero.1 h0]
    exact .nil
  · exact .single (List.ne_nil_of_length_pos (by omega)) hsmall
  · simpa using chunkLoop_delivers hwhole (by omega : 0 < res.length)

/-- The writes of a response, put together, are the response. -/
theorem writeResponse_flatten (res : Bytes) : (writeResponse written res).flatten = res := by
  unfold writeResponse
  split_ifs with h0
  · simp [List.length_eq_zero.1 h0]
  · simp
  · simpa using (chunkLoop_delivers hwhole (by omega : 0 < res.length)).flatten_eq

end WholeWrites

/-- A response of twice `chunkSize` bytes, with a writer that accepts every slice whole. -/
theorem delivers_twice_chunkSize :
    Delivers (writeResponse List.length (List.replicate 2048 0)) (List.replicate 2048 0) :=
  writeResponse_delivers (fun _ => rfl) _

/-! ### A connection -/

/-- What one turn of the loop of `handleConnection` gets. -/
inductive Turn where
  /-- `utils.ReadMessage` failed, at the end of the input or otherwise. -/
  | readFailed
  /-- `handleCommand` returned an error that is `io.EOF`. -/
  | handlerEOF
  /-- `handleCommand` returned another error, with this message. -/
  | handlerError (msg : Bytes)
  /-- `handleCommand` returned the response `res`. -/
  | response (res : Bytes)

/-- `fmt.Sprintf("-Error %s\r\n", err.Error())`. -/
def errorReply (msg : Bytes) : Bytes := ascii "-Error " ++ msg ++ ascii "\r\n"

/-- The writes of `handleConnection` over its turns, in order: the loop stops at a failed read
and at an `io.EOF` from a handler. -/
def serveTurns (written : Bytes → ℕ) : List Turn → List Bytes
  | [] => []
  | .readFailed :: _ => []
  | .handlerEOF :: _ => []
  | .handlerError msg :: turns => errorReply msg :: serveTurns written turns
  | .response res :: turns => writeResponse written res ++ serveTurns written turns

/-- What the client is meant to receive over the turns: each reply in order, up to the first
failed read or `io.EOF` from a handler. -/
def replies : List Turn → Bytes
  | [] => []
  | .readFailed :: _ => []
  | .handlerEOF :: _ => []
  | .handlerError msg :: turns => errorReply msg ++ replies turns
  | .response res :: turns => res ++ replies turns

/-- **Over a connection the client receives every reply in order** when every write is accepted
whole: the bytes written are the replies, one after the other, up to the first failed read or
`io.EOF` from a handler. -/
theorem serveTurns_flatten (hwhole : ∀ chunk, written chunk = chunk.length) (turns : List Turn) :
    (serveTurns written turns).flatten = replies turns := by
  induction turns with
  | nil => rfl
  | cons t turns ih =>
    cases t with
    | readFailed => rfl
    | handlerEOF => rfl
    | handlerError msg => simp [serveTurns, replies, ih]
    | response res =>
      simp [serveTurns, replies, ih, writeResponse_flatten hwhole res]

/-- An error and a long response, with a writer that accepts every slice whole. -/
theorem serveTurns_error_then_long_response :
    (serveTurns List.length [.handlerError (ascii "x"), .response (List.replicate 2048 0),
      .handlerEOF]).flatten =
      replies [.handlerError (ascii "x"), .response (List.replicate 2048 0), .handlerEOF] :=
  serveTurns_flatten (fun _ => rfl) _

end EchoVault
