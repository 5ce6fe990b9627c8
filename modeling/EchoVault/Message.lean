/-
**Reading messages from a connection.**

`utils.ReadMessage` is how `EchoVault.handleConnection` cuts the bytes of a connection into the
messages it hands to `handleCommand`.  It reads into a chunk of `8192` bytes and appends the whole
chunk to the message after every read; it stops after the first read that fills less than the
chunk, and clears the chunk after every full one, so what follows the bytes of a short read is
NULs.  A read that returns `io.EOF` stops the loop too, without appending its bytes and without
an error.  Last, `bytes.Trim(res, "\x00")` removes the NULs at both ends.

`bufio.NewReader(r)` has a buffer of 4096 bytes, less than the chunk, and a `Read` of 8192 bytes
into its empty buffer goes straight to `r`: each `reader.Read` is one read of the connection.
What the connection returns is an argument, a list of reads; once the list runs out it delivers
nothing more and `Read` blocks, which the model says by `none`.

Main definitions:

* `EchoVault.ConnRead` — what one read of the connection returns;
* `EchoVault.readChunks`, `EchoVault.readMessage` — the loop of `ReadMessage`, and
  `ReadMessage` with its `bytes.Trim`;
* `EchoVault.readMessages` — the messages `handleConnection` reads, one after the other;
* `EchoVault.deliver` — the reads of a connection that hands over the bytes a client writes in
  pieces as large as the chunk.

Main results:

* `EchoVault.readChunks_deliver_short`, `EchoVault.readChunks_deliver_full` — the loop over a
  message delivered in whole chunks stops at its last piece when that piece is short, and reads
  on past the message when it is full;
* `EchoVault.readMessages_commands` — **every command a client writes reaches `handleCommand` as a
  message of its own**, in order, when the connection hands over whole chunks and no command's
  encoding is a multiple of the chunk long;
* `EchoVault.readMessage_full_command` — **a command whose encoding is a multiple of the chunk long
  is never read alone**: `ReadMessage` waits for more bytes, and reads the next command into the
  same message, of which `Decode` keeps only the first;
* `EchoVault.set_value_read_as_command` — **a read that ends early ends the message**: a `SET`
  split by the network where its value starts hands the value over as a message of its own, and
  a value that encodes a command is then read as that command.
-/

import EchoVault.Memberlist
import Mathlib.Data.List.DropRight

set_option relaxedAutoImplicit false
set_option autoImplicit false

namespace EchoVault

/-! ### `ReadMessage` -/

/-- The length of the chunk `ReadMessage` reads into, `make([]byte, 8192)`. -/
def messageChunk : ℕ := 8192

/-- The error of a read of the connection: `io.EOF`, or another error with its text. -/
inductive ReadError where
  | eof
  | other (text : Bytes)

/-- What one `Read(chunk)` of the connection returns: the bytes it puts at the start of the
chunk, and its error.  An `io.Reader` returns at most `len(chunk)` bytes. -/
structure ConnRead where
  data : Bytes
  err : Option ReadError
  fits : data.length ≤ messageChunk

/-- The chunk after a read of `data` into a chunk of NULs. -/
def chunkAfter (data : Bytes) : Bytes := data ++ List.replicate (messageChunk - data.length) 0

/-- The `for` loop of `ReadMessage`, from the bytes `res` read so far: the error of a failed read
or the bytes read, before `bytes.Trim`, and the reads left; `none` when the reads run out. -/
def readChunks (res : Bytes) : List ConnRead → Option (Except Bytes Bytes × List ConnRead)
  | [] => none
  | r :: reads =>
    match r.err with
    | some .eof => some (.ok res, reads)
    | some (.other e) => some (.error e, reads)
    | none =>
      let res := res ++ chunkAfter r.data
      if r.data.length < messageChunk then some (.ok res, reads) else readChunks res reads

/-- `bytes.Trim(s, "\x00")`. -/
def trimNul (s : Bytes) : Bytes := (s.dropWhile (· == 0)).rdropWhile (· == 0)

/-- `utils.ReadMessage`. -/
def readMessage (reads : List ConnRead) : Option (Except Bytes Bytes × List ConnRead) :=
  (readChunks [] reads).map fun (out, rest) => (out.map trimNul, rest)

/-- A full read with no error appends its bytes and reads on. -/
theorem readChunks_full {res : Bytes} {r : ConnRead} (reads : List ConnRead) (hr : r.err = none)
    (hfull : r.data.length = messageChunk) :
    readChunks res (r :: reads) = readChunks (res ++ r.data) reads := by
  simp [readChunks, hr, hfull, chunkAfter]

/-- A short read with no error appends the chunk, its bytes followed by NULs, and stops. -/
theorem readChunks_short {res : Bytes} {r : ConnRead} (reads : List ConnRead) (hr : r.err = none)
    (hshort : r.data.length < messageChunk) :
    readChunks res (r :: reads) = some (.ok (res ++ chunkAfter r.data), reads) := by
  simp [readChunks, hr, hshort]

/-- Every call of the loop that returns takes at least one read. -/
theorem readChunks_rest_lt {res : Bytes} {reads rest : List ConnRead} {out : Except Bytes Bytes}
    (h : readChunks res reads = some (out, rest)) : rest.length < reads.length := by
  induction reads generalizing res with
  | nil => cases h
  | cons r reads ih =>
    simp only [readChunks] at h
    split at h
    · cases h; simp
    · cases h; simp
    · split at h
      · cases h; simp
      · exact (ih h).trans (Nat.lt_succ_self _)

theorem readMessage_rest_lt {reads rest : List ConnRead} {out : Except Bytes Bytes}
    (h : readMessage reads = some (out, rest)) : rest.length < reads.length := by
  obtain ⟨⟨out', rest'⟩, h', he⟩ := Option.map_eq_some'.1 h
  cases he
  exact readChunks_rest_lt h'

/-! ### `bytes.Trim` -/

/-- Trimming the NULs after a message that neither starts nor ends with a NUL gives the message
back. -/
theorem trimNul_append_replicate {m : Bytes} (h₀ : m.head? ≠ some 0) (h₁ : m.getLast? ≠ some 0)
    (k : ℕ) : trimNul (m ++ List.replicate k 0) = m := by
  have hnul : ∀ x ∈ List.replicate k (0 : UInt8), (x == 0) = true := by
    intro x hx
    simp [List.eq_of_mem_replicate hx]
  have htail : ∀ l : Bytes, (l ++ List.replicate k 0).rdropWhile (· == 0) = l.rdropWhile (· == 0) := by
    intro l
    induction k with
    | zero => simp
    | succ k ih =>
      rw [List.replicate_succ', ← List.append_assoc, List.rdropWhile_concat_pos _ _ _ (by simp), ih]
      exact fun x hx => hnul x (List.mem_replicate.2 ⟨k.succ_ne_zero, (List.eq_of_mem_replicate hx)⟩)
  cases m with
  | nil => simp [trimNul, List.dropWhile_eq_nil_iff.2 hnul]
  | cons a t =>
    have ha : ¬(a == 0) = true := by simpa using h₀
    rw [trimNul, List.cons_append, @List.dropWhile_cons_of_neg _ (· == 0) a _ ha, ← List.cons_append,
      htail, List.rdropWhile_eq_self_iff]
    intro hl hlast
    exact h₁ (by rw [List.getLast?_eq_getLast _ hl]; simpa using hlast)

/-- What ends with `"\r\n"` ends with `'\n'`. -/
theorem getLast?_append_crlf (pre : Bytes) : (pre ++ crlf).getLast? = some lf := by
  rw [List.getLast?_append]
  rfl

/-- A nonempty message shorter than the chunk is not a multiple of it long. -/
theorem mod_chunk_ne_zero {n : ℕ} (h₀ : 0 < n) (h : n < messageChunk) : n % messageChunk ≠ 0 := by
  rw [Nat.mod_eq_of_lt h]
  omega

/-! ### Messages delivered in whole chunks -/

/-- The reads of a connection that hands over the bytes `m` in pieces as large as the chunk:
every read fills the chunk but the last, which holds what is left. -/
def deliver (m : Bytes) : List ConnRead :=
  if m = [] then []
  else if h : m.length ≤ messageChunk then [⟨m, none, h⟩]
  else ⟨m.take messageChunk, none, List.length_take_le _ _⟩ :: deliver (m.drop messageChunk)
termination_by m.length
decreasing_by simp only [List.length_drop, messageChunk] at *; omega

/-- **A message whose length is not a multiple of the chunk is read to its end and no further**:
the loop returns the bytes read before it, the message, and the NULs after its last piece. -/
theorem readChunks_deliver_short (res m : Bytes) (reads : List ConnRead)
    (hm : m.length % messageChunk ≠ 0) :
    readChunks res (deliver m ++ reads) =
      some (.ok (res ++ m ++ List.replicate (messageChunk - m.length % messageChunk) 0), reads) := by
  induction m using deliver.induct generalizing res with
  | case1 => simp at hm
  | case2 m hne hle =>
    have hlt : m.length < messageChunk := lt_of_le_of_ne hle fun h => hm (by simp [h])
    rw [deliver, if_neg hne, dif_pos hle, List.singleton_append, readChunks_short _ rfl hlt,
      chunkAfter, Nat.mod_eq_of_lt hlt, List.append_assoc]
  | case3 m hne hgt ih =>
    have hlen : (m.take messageChunk).length = messageChunk := by simp only [messageChunk] at *; simp; omega
    have hmod : (m.drop messageChunk).length % messageChunk = m.length % messageChunk := by
      simp only [messageChunk, List.length_drop] at *
      omega
    rw [deliver, if_neg hne, dif_neg hgt, List.cons_append, readChunks_full _ rfl hlen,
      ih _ (hmod ▸ hm), hmod]
    simp only [← List.append_assoc]
    rw [List.append_assoc res, List.take_append_drop]

/-- **A message whose length is a multiple of the chunk does not end the loop**: after its last
piece, which fills the chunk, the loop reads on. -/
theorem readChunks_deliver_full (res m : Bytes) (reads : List ConnRead)
    (hm : m.length % messageChunk = 0) :
    readChunks res (deliver m ++ reads) = readChunks (res ++ m) reads := by
  induction m using deliver.induct generalizing res with
  | case1 => simp [deliver]
  | case2 m hne hle =>
    have heq : m.length = messageChunk := by
      have := List.length_pos.2 hne
      simp only [messageChunk] at *
      omega
    rw [deliver, if_neg hne, dif_pos hle, List.singleton_append, readChunks_full _ rfl heq]
  | case3 m hne hgt ih =>
    have hlen : (m.take messageChunk).length = messageChunk := by simp only [messageChunk] at *; simp; omega
    have hmod : (m.drop messageChunk).length % messageChunk = 0 := by
      simp only [messageChunk, List.length_drop] at *
      omega
    rw [deliver, if_neg hne, dif_neg hgt, List.cons_append, readChunks_full _ rfl hlen, ih _ hmod,
      List.append_assoc, List.take_append_drop]

/-! ### `ReadMessage` on a delivered message -/

/-- **`ReadMessage` reads back a message delivered in whole chunks** when its length is not a
multiple of the chunk and it neither starts nor ends with a NUL, and leaves the reads after it. -/
theorem readMessage_deliver {m : Bytes} (h₀ : m.head? ≠ some 0) (h₁ : m.getLast? ≠ some 0)
    (hm : m.length % messageChunk ≠ 0) (reads : List ConnRead) :
    readMessage (deliver m ++ reads) = some (.ok m, reads) := by
  simp [readMessage, readChunks_deliver_short [] m reads hm, Except.map,
    trimNul_append_replicate h₀ h₁]

/-- What `EncodeCommand` writes starts with `'*'`. -/
theorem encodeCommand_head? (cmd : List Bytes) : (encodeCommand cmd).head? = some 42 := by
  simp [encodeCommand, ascii]
  rfl

/-- What `EncodeCommand` writes ends with `'\n'`. -/
theorem encodeCommand_getLast? (cmd : List Bytes) : (encodeCommand cmd).getLast? = some lf := by
  obtain ⟨s, hs⟩ := Resp.encode_ends_crlf (Resp.array (cmd.map .bulk))
  rw [encodeCommand_eq, ← hs, crlf, List.getLast?_append]
  rfl

/-- The length of what `EncodeCommand` writes: `"*%d\r\n"`, then `"$%d\r\n%s\r\n"` per token. -/
theorem length_encodeCommand (cmd : List Bytes) :
    (encodeCommand cmd).length = 3 + (decimal cmd.length).length +
      (cmd.map fun t => 5 + (decimal t.length).length + t.length).sum := by
  simp [encodeCommand, ascii, crlf, List.length_flatten, Function.comp_def]
  omega

/-- `Decode` reads the first command of what it is given and ignores the bytes after it. -/
theorem decode_encodeCommand_append (cmd : List Bytes) (rest : Bytes) :
    decode (encodeCommand cmd ++ rest) = some cmd := by
  have h := parseValue_encodeCommand cmd ((encodeCommand cmd ++ rest).length + 1) rest
    (by simp only [List.length_append]; omega)
  rw [decode, h]
  simp [Resp.elems, Resp.str, Function.comp_def]

/-! ### The messages of a connection -/

/-- The messages `handleConnection` reads from its connection and hands to `handleCommand`, one a
turn, as long as no handler returns `io.EOF`: the loop ends at a failed read, and when the reads
run out. -/
def readMessages (reads : List ConnRead) : List Bytes :=
  match h : readMessage reads with
  | some (.ok msg, rest) =>
    have : rest.length < reads.length := readMessage_rest_lt h
    msg :: readMessages rest
  | _ => []
termination_by reads.length

theorem readMessages_of_ok {reads rest : List ConnRead} {msg : Bytes}
    (h : readMessage reads = some (.ok msg, rest)) :
    readMessages reads = msg :: readMessages rest := by
  rw [readMessages]
  split
  · rename_i h'
    rw [h] at h'
    cases h'
    rfl
  · rename_i hnot
    exact (hnot msg rest h).elim

/-- **Every command a client writes reaches `handleCommand` as a message of its own, in order**:
when the connection hands over whole chunks and no command's encoding is a multiple of the chunk
long, the messages read are the commands' encodings, one each, followed by what the reads after
them give. -/
theorem readMessages_commands (cmds : List (List Bytes)) (reads : List ConnRead)
    (hlen : ∀ cmd ∈ cmds, (encodeCommand cmd).length % messageChunk ≠ 0) :
    readMessages ((cmds.map fun cmd => deliver (encodeCommand cmd)).flatten ++ reads) =
      cmds.map encodeCommand ++ readMessages reads := by
  induction cmds with
  | nil => rfl
  | cons cmd cmds ih =>
    have hread := readMessage_deliver (by simp [encodeCommand_head?]) (by simp [encodeCommand_getLast?, lf])
      (hlen cmd (List.mem_cons_self _ _))
      ((cmds.map fun cmd => deliver (encodeCommand cmd)).flatten ++ reads)
    rw [List.map_cons, List.flatten_cons, List.append_assoc, readMessages_of_ok hread,
      ih fun c hc => hlen c (List.mem_cons_of_mem _ hc)]
    rfl

/-- **A value can arrive as a command.**  `ReadMessage` ends a message at every read that does not
fill the chunk, and the network may hand over one write of the client in several reads.  When
`SET key v` arrives in two reads, split where the value `v` starts, and `v` is itself the encoding
of a command `c`, `handleCommand` gets the head of the `SET` as one message and then `v` with its
`"\r\n"` as another, which `Decode` reads as `c`. -/
theorem set_value_read_as_command (key : Bytes) (c : List Bytes) (rest : List ConnRead)
    (hshort : (encodeCommand [ascii "SET", key, encodeCommand c]).length < messageChunk) :
    ∃ head, head ++ (encodeCommand c ++ crlf) = encodeCommand [ascii "SET", key, encodeCommand c] ∧
      readMessages (deliver head ++ deliver (encodeCommand c ++ crlf) ++ rest) =
        head :: (encodeCommand c ++ crlf) :: readMessages rest ∧
      decode (encodeCommand c ++ crlf) = some c := by
  let head := (ascii "*" ++ decimal 3 ++ crlf ++
    (ascii "$" ++ decimal (ascii "SET").length ++ crlf ++ ascii "SET" ++ crlf) ++
    (ascii "$" ++ decimal key.length ++ crlf ++ key ++ crlf) ++
    (ascii "$" ++ decimal (encodeCommand c).length)) ++ crlf
  have hsplit : head ++ (encodeCommand c ++ crlf) = encodeCommand [ascii "SET", key, encodeCommand c] := by
    simp [head, encodeCommand]
  have hlen := congrArg List.length hsplit
  rw [List.length_append] at hlen
  have hh : head.length < messageChunk := by omega
  have hv : (encodeCommand c ++ crlf).length < messageChunk := by omega
  have hv₀ : (encodeCommand c ++ crlf).head? ≠ some 0 := by
    simp [List.head?_append, encodeCommand_head?]
  have hv₁ : (encodeCommand c ++ crlf).getLast? ≠ some 0 := by rw [getLast?_append_crlf]; decide
  have hhead : readMessage (deliver head ++ (deliver (encodeCommand c ++ crlf) ++ rest)) =
      some (.ok head, deliver (encodeCommand c ++ crlf) ++ rest) :=
    readMessage_deliver (by simp [head, ascii]; decide) (by rw [getLast?_append_crlf]; decide)
      (mod_chunk_ne_zero (List.length_pos.2 (List.append_ne_nil_of_right_ne_nil _ (by decide))) hh) _
  refine ⟨head, hsplit, ?_, decode_encodeCommand_append c crlf⟩
  rw [List.append_assoc, readMessages_of_ok hhead, readMessages_of_ok
    (readMessage_deliver hv₀ hv₁
      (mod_chunk_ne_zero (List.length_pos.2 (List.append_ne_nil_of_right_ne_nil _ (by decide))) hv) rest)]

/-- `SET k` with the value `"*2\r\n$3\r\nDEL\r\n$1\r\nk\r\n"`, split where the value starts,
makes `handleCommand` get `DEL k` as a message of its own. -/
theorem set_value_read_as_del :
    (encodeCommand [ascii "SET", ascii "k", encodeCommand [ascii "DEL", ascii "k"]]).length < messageChunk ∧
      ∃ head, head ++ (encodeCommand [ascii "DEL", ascii "k"] ++ crlf) =
          encodeCommand [ascii "SET", ascii "k", encodeCommand [ascii "DEL", ascii "k"]] ∧
        readMessages (deliver head ++ deliver (encodeCommand [ascii "DEL", ascii "k"] ++ crlf) ++ []) =
          head :: (encodeCommand [ascii "DEL", ascii "k"] ++ crlf) :: readMessages [] ∧
        decode (encodeCommand [ascii "DEL", ascii "k"] ++ crlf) = some [ascii "DEL", ascii "k"] :=
  ⟨by decide, set_value_read_as_command _ _ [] (by decide)⟩

/-- A client sends `SET k v` and then `GET k`, over a connection that then ends. -/
theorem set_then_get_read_apart :
    (∀ cmd ∈ [[ascii "SET", ascii "k", ascii "v"], [ascii "GET", ascii "k"]],
        (encodeCommand cmd).length % messageChunk ≠ 0) ∧
      readMessages (([[ascii "SET", ascii "k", ascii "v"], [ascii "GET", ascii "k"]].map
          fun cmd => deliver (encodeCommand cmd)).flatten ++ [⟨[], some .eof, by decide⟩]) =
        [encodeCommand [ascii "SET", ascii "k", ascii "v"], encodeCommand [ascii "GET", ascii "k"]] ++
          readMessages [⟨[], some .eof, by decide⟩] :=
  ⟨by decide, readMessages_commands _ _ (by decide)⟩

/-- **A command whose encoding is a multiple of the chunk long is never read alone.**  Its last
piece fills the chunk, so `ReadMessage` reads on: when the client then waits for the reply,
`ReadMessage` waits for more bytes and never returns; when the client sends a second command, the
two come back as one message, and `Decode` reads only the first of them. -/
theorem readMessage_full_command (c₁ c₂ : List Bytes) (reads : List ConnRead)
    (h₁ : (encodeCommand c₁).length % messageChunk = 0)
    (h₂ : (encodeCommand c₂).length % messageChunk ≠ 0) :
    readMessage (deliver (encodeCommand c₁)) = none ∧
      readMessage (deliver (encodeCommand c₁) ++ deliver (encodeCommand c₂) ++ reads) =
        some (.ok (encodeCommand c₁ ++ encodeCommand c₂), reads) ∧
      decode (encodeCommand c₁ ++ encodeCommand c₂) = some c₁ := by
  have hglued : (encodeCommand c₁ ++ encodeCommand c₂).head? ≠ some 0 := by
    simp [List.head?_append, encodeCommand_head?]
  have hlast : (encodeCommand c₁ ++ encodeCommand c₂).getLast? ≠ some 0 := by
    simp [List.getLast?_append, encodeCommand_getLast?, lf]
  refine ⟨?_, ?_, decode_encodeCommand_append c₁ _⟩
  · simpa [readMessage, readChunks] using readChunks_deliver_full [] _ [] h₁
  · rw [readMessage, List.append_assoc, readChunks_deliver_full [] _ _ h₁, List.nil_append,
      readChunks_deliver_short _ _ _ h₂]
    simp only [Option.map_some', Except.map, trimNul_append_replicate hglued hlast]

/-- `SET k` with a value of 8163 bytes is a command of 8192 bytes: sent alone it gets no reply,
and followed by `GET k` it is read together with it, and the `GET` is lost. -/
theorem set_of_chunk_length_swallows_get :
    (encodeCommand [ascii "SET", ascii "k", List.replicate 8163 97]).length % messageChunk = 0 ∧
      (encodeCommand [ascii "GET", ascii "k"]).length % messageChunk ≠ 0 ∧
      readMessage (deliver (encodeCommand [ascii "SET", ascii "k", List.replicate 8163 97])) = none ∧
      readMessage (deliver (encodeCommand [ascii "SET", ascii "k", List.replicate 8163 97]) ++
          deliver (encodeCommand [ascii "GET", ascii "k"]) ++ []) =
        some (.ok (encodeCommand [ascii "SET", ascii "k", List.replicate 8163 97] ++
          encodeCommand [ascii "GET", ascii "k"]), []) ∧
      decode (encodeCommand [ascii "SET", ascii "k", List.replicate 8163 97] ++
          encodeCommand [ascii "GET", ascii "k"]) = some [ascii "SET", ascii "k", List.replicate 8163 97] := by
  have h₁ : (encodeCommand [ascii "SET", ascii "k", List.replicate 8163 97]).length % messageChunk = 0 := by
    -- the value stays abstract, so that the kernel does not build its 8163 bytes
    suffices h : ∀ v : Bytes, v.length = 8163 →
        (encodeCommand [ascii "SET", ascii "k", v]).length % messageChunk = 0 from
      h _ (List.length_replicate _ _)
    intro v hv
    rw [length_encodeCommand]
    simp only [List.map_cons, List.map_nil, List.sum_cons, List.sum_nil, hv, List.length_cons,
      List.length_nil]
    decide
  have h₂ : (encodeCommand [ascii "GET", ascii "k"]).length % messageChunk ≠ 0 := by decide
  exact ⟨h₁, h₂, readMessage_full_command _ _ _ h₁ h₂⟩

end EchoVault
