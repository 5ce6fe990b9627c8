/-
**The hash handlers of `internal/modules/hash/commands.go`.**

`HSET` (and `HSETNX`, which shares its handler), `HGET`, `HSTRLEN`, `HVALS`, `HRANDFIELD`,
`HLEN`, `HKEYS`, `HINCRBY` (and `HINCRBYFLOAT`), `HGETALL`, `HEXISTS` and `HDEL`, each as the
program of capability calls it makes.  A hash is a Go map held by reference: the write handlers
change the map they got from `GetValue` in place and then store the same reference again with
`SetValue`.

Main definitions:

* `EchoVault.handleHSET`, `EchoVault.handleHINCRBY`, `EchoVault.handleHDEL` — the writers;
* `EchoVault.handleHGET`, `EchoVault.handleHSTRLEN`, `EchoVault.handleHVALS`,
  `EchoVault.handleHRANDFIELD`, `EchoVault.handleHLEN`, `EchoVault.handleHKEYS`,
  `EchoVault.handleHGETALL`, `EchoVault.handleHEXISTS` — the readers, all of the shape
  `readHash`.
-/

import EchoVault.Handler.Common

set_option relaxedAutoImplicit false
set_option autoImplicit false

namespace EchoVault

open Prog

/-! ### `HSET` and `HSETNX` -/

/-- The `entries` map of `HSET`: `entries[Command[i]] = AdaptType(Command[i+1])` for the pairs
after the key. -/
def hsetEntries : List Bytes → GoMap Scalar → GoMap Scalar
  | field :: value :: rest, entries => hsetEntries rest (entries.set field (adaptType value))
  | _, entries => entries

/-- The loop of `HSET` over `entries` into an existing hash, with `HSETNX`'s check that the
field is absent: the new hash and the count. -/
def hsetInto (nx : Bool) (entries hash : GoMap Scalar) : GoMap Scalar × ℕ :=
  entries.foldl (fun acc e =>
      if nx && (acc.1.get e.1).isSome then acc else (acc.1.set e.1 e.2, acc.2 + 1))
    (hash, 0)

/-- `handleHSET`, the handler of `HSET` and `HSETNX`. -/
def handleHSET (keyFunc : KeyFunc) (command : List Bytes) : Prog Reply :=
  match keyFunc command with
  | .error e => return .error e
  | .ok keys => do
    let key ← index keys.writeKeys 0
    let args ← sliceFrom command 2
    if args.length % 2 ≠ 0 then return .error (ascii "each field must have a corresponding value")
    let entries := hsetEntries args []
    if !(← keyExists key) then
      match ← createKeyAndLock key with
      | .error e => return .error e
      | .ok _ => withDefer (keyUnlock key) do
        let r ← alloc (.hash entries)
        match ← setValue key (.ref r) with
        | .error e => return .error e
        | .ok _ => return .ok (fmtCount entries.length)
    else
      match ← keyLock key with
      | .error e => return .error e
      | .ok _ => withDefer (keyUnlock key) do
        match ← getHash key with
        | none => return .error (notAHash key)
        | some (r, hash) =>
          let nx := equalFold (← index command 0) "hsetnx"
          let (hash', count) := hsetInto nx entries hash
          write r (.hash hash')
          match ← setValue key (.ref r) with
          | .error e => return .error e
          | .ok _ => return .ok (fmtCount count)

/-! ### `HINCRBY` and `HINCRBYFLOAT` -/

/-- The increment of `HINCRBYFLOAT` (`strconv.ParseFloat`) or `HINCRBY` (`strconv.Atoi`), as
the pair `(floatIncrement, intIncrement)` of the handler. -/
def parseIncrement (isFloat : Bool) (tok : Bytes) : Except Bytes (Float64 × ℤ) :=
  if isFloat then
    match parseFloat tok with
    | some f => .ok (f, 0)
    | none => .error (ascii "increment must be a float")
  else
    match atoi tok with
    | some i => .ok (.num false 0, i)
    | none => .error (ascii "increment must be an integer")

/-- The type switch of `HINCRBY` on the field's value: the sum, in Go `int` or `float64`
arithmetic, or `none` for a value that is not a number. -/
def incrementField (isFloat : Bool) (floatIncrement : Float64) (intIncrement : ℤ) :
    Scalar → Option Scalar
  | .int i => some (if isFloat then .float (Float64.ofInt i + floatIncrement)
      else .int (wrapInt64 (i + intIncrement)))
  | .float f => some (.float (if isFloat then f + floatIncrement else f + Float64.ofInt intIncrement))
  | .str _ => none

/-- The reply of `HINCRBY`: `"+%s\r\n"` with the formatted `float64`, or `":%d\r\n"`. -/
def incrReply : Scalar → Bytes
  | .float f => ascii "+" ++ formatFloat f ++ crlf
  | .int i => fmtInteger i
  | .str _ => fmtInteger 0

/-- `handleHINCRBY`, the handler of `HINCRBY` and `HINCRBYFLOAT`. -/
def handleHINCRBY (keyFunc : KeyFunc) (command : List Bytes) : Prog Reply :=
  match keyFunc command with
  | .error e => return .error e
  | .ok keys => do
    let key ← index keys.writeKeys 0
    let field ← index command 2
    let isFloat := equalFold (← index command 0) "hincrbyfloat"
    match parseIncrement isFloat (← index command 3) with
    | .error e => return .error e
    | .ok (floatIncrement, intIncrement) =>
      if !(← keyExists key) then
        match ← createKeyAndLock key with
        | .error e => return .error e
        | .ok _ => withDefer (keyUnlock key) do
          let v : Scalar := if isFloat then .float floatIncrement else .int intIncrement
          let r ← alloc (.hash [(field, v)])
          match ← setValue key (.ref r) with
          | .error e => return .error e
          | .ok _ => return .ok (incrReply v)
      else
        match ← keyLock key with
        | .error e => return .error e
        | .ok _ => withDefer (keyUnlock key) do
          match ← getHash key with
          | none => return .error (notAHash key)
          | some (r, hash) =>
            match incrementField isFloat floatIncrement intIncrement ((hash.get field).getD (.int 0)) with
            | none => return .error (ascii "value at field " ++ field ++ ascii " is not a number")
            | some v =>
              write r (.hash (hash.set field v))
              match ← setValue key (.ref r) with
              | .error e => return .error e
              | .ok _ => return .ok (incrReply v)

/-! ### `HDEL` -/

/-- The loop of `HDEL`: delete each field present, and count the deletions. -/
def hdelFrom (fields : List Bytes) (hash : GoMap Scalar) : GoMap Scalar × ℕ :=
  fields.foldl (fun acc field =>
      if (acc.1.get field).isSome then (acc.1.delete field, acc.2 + 1) else acc)
    (hash, 0)

/-- `handleHDEL`. -/
def handleHDEL (keyFunc : KeyFunc) (command : List Bytes) : Prog Reply :=
  match keyFunc command with
  | .error e => return .error e
  | .ok keys => do
    let key ← index keys.writeKeys 0
    let fields ← sliceFrom command 2
    if !(← keyExists key) then return .ok (fmtCount 0)
    match ← keyLock key with
    | .error e => return .error e
    | .ok _ => withDefer (keyUnlock key) do
      match ← getHash key with
      | none => return .error (notAHash key)
      | some (r, hash) =>
        let (hash', count) := hdelFrom fields hash
        write r (.hash hash')
        match ← setValue key (.ref r) with
        | .error e => return .error e
        | .ok _ => return .ok (fmtCount count)

/-! ### The readers -/

/-- The shape of every hash reader: take the key `ReadKeys[0]` and then the tokens `pre` reads;
reply `absent` when the key does not exist; otherwise read-lock it, check that its value is a
hash, and reply `body` on the tokens and the hash, releasing the read lock on return. -/
def readHash {α : Type} (keyFunc : KeyFunc) (command : List Bytes) (pre : Prog α) (absent : Bytes)
    (body : α → GoMap Scalar → Reply) : Prog Reply :=
  match keyFunc command with
  | .error e => return .error e
  | .ok keys => do
    let key ← index keys.readKeys 0
    let a ← pre
    if !(← keyExists key) then return .ok absent
    match ← keyRLock key with
    | .error e => return .error e
    | .ok _ => withDefer (keyRUnlock key) do
      match ← getHash key with
      | none => return .error (notAHash key)
      | some (_, hash) => return body a hash

/-- `HGET`'s rendering of a field: `"$-1\r\n"` for a missing one. -/
def hgetField (hash : GoMap Scalar) (field : Bytes) : Bytes :=
  match hash.get field with
  | none => ascii "$-1\r\n"
  | some v => renderScalar v

/-- `handleHGET`. -/
def handleHGET (keyFunc : KeyFunc) (command : List Bytes) : Prog Reply :=
  readHash keyFunc command (sliceFrom command 2) (ascii "$-1\r\n") fun fields hash =>
    .ok (fmtArrayHeader fields.length ++ (fields.map (hgetField hash)).flatten)

/-- `HSTRLEN`'s rendering of a field: the length of its rendering as a string. -/
def hstrlenField (hash : GoMap Scalar) (field : Bytes) : Bytes :=
  match hash.get field with
  | none => fmtCount 0
  | some (.str s) => fmtCount s.length
  | some (.float f) => fmtCount (formatFloat f).length
  | some (.int d) => fmtCount (fmtInt d).length

/-- `handleHSTRLEN`. -/
def handleHSTRLEN (keyFunc : KeyFunc) (command : List Bytes) : Prog Reply :=
  readHash keyFunc command (sliceFrom command 2) (ascii "$-1\r\n") fun fields hash =>
    .ok (fmtArrayHeader fields.length ++ (fields.map (hstrlenField hash)).flatten)

/-- `handleHVALS`. -/
def handleHVALS (keyFunc : KeyFunc) (command : List Bytes) : Prog Reply :=
  readHash keyFunc command (return ()) (ascii "*0\r\n") fun _ hash =>
    .ok (fmtArrayHeader hash.length ++ (hash.map fun e => renderScalar e.2).flatten)

/-- `handleHLEN`. -/
def handleHLEN (keyFunc : KeyFunc) (command : List Bytes) : Prog Reply :=
  readHash keyFunc command (return ()) (fmtCount 0) fun _ hash => .ok (fmtCount hash.length)

/-- `handleHKEYS`. -/
def handleHKEYS (keyFunc : KeyFunc) (command : List Bytes) : Prog Reply :=
  readHash keyFunc command (return ()) (ascii "*0\r\n") fun _ hash =>
    .ok (fmtArrayHeader hash.length ++ (hash.map fun e => fmtBulk e.1).flatten)

/-- `handleHGETALL`. -/
def handleHGETALL (keyFunc : KeyFunc) (command : List Bytes) : Prog Reply :=
  readHash keyFunc command (return ()) (ascii "*0\r\n") fun _ hash =>
    .ok (fmtArrayHeader (hash.length * 2) ++
      (hash.map fun e => fmtBulk e.1 ++ renderScalar e.2).flatten)

/-- `handleHEXISTS`. -/
def handleHEXISTS (keyFunc : KeyFunc) (command : List Bytes) : Prog Reply :=
  readHash keyFunc command (index command 2) (ascii ":0\r\n") fun field hash =>
    .ok (if (hash.get field).isSome then ascii ":1\r\n" else ascii ":0\r\n")

/-! ### `HRANDFIELD` -/

/-- The compaction loop of `slices.DeleteFunc(s, del)` from the first deleted index `i`: each
later element that `del` keeps moves down to index `i`.  `del` is
`func(s string) bool { return s == fields[n] }`, and reads `fields[n]` from the array being
compacted. -/
def compactFrom (n : ℕ) : List Bytes → ℕ → List ℕ → List Bytes × ℕ
  | arr, i, [] => (arr, i)
  | arr, i, j :: js =>
    if arr.getD j [] = arr.getD n [] then compactFrom n arr i js
    else compactFrom n (arr.set i (arr.getD j [])) (i + 1) js

/-- `slices.DeleteFunc(fields, func(s string) bool { return s == fields[n] })`, in place. -/
def deleteFuncAt (fields : List Bytes) (n : ℕ) : List Bytes :=
  match (List.range fields.length).find? (fun i => fields.getD i [] = fields.getD n []) with
  | none => fields
  | some i =>
    let (arr, i') := compactFrom n fields i (List.range' (i + 1) (fields.length - (i + 1)))
    arr.take i'

/-- The plucking loop of `HRANDFIELD`: `n = rand.Intn(len(fields))`, append `fields[n]`, and
when the count is positive delete it from `fields`. -/
def pluckFields (positive : Bool) : ℕ → List Bytes → Prog (List Bytes)
  | 0, _ => return []
  | iters + 1, fields => do
    let n ← intn fields.length
    let field ← index fields n
    let rest ← pluckFields positive iters (if positive then deleteFuncAt fields n else fields)
    return field :: rest

/-- `HRANDFIELD`'s rendering of a field, and of its value `WITHVALUES`. -/
def hrandfieldEntry (withvalues : Bool) (hash : GoMap Scalar) (field : Bytes) : Bytes :=
  fmtBulk field ++ if withvalues then ((hash.get field).map renderScalar).getD [] else []

/-- The count of `HRANDFIELD`: `1` by default, an error for a count that is not an integer,
and the early reply `"*0\r\n"` for a count of `0`. -/
def hrandfieldCount (command : List Bytes) : Prog (Except Reply ℤ) :=
  if command.length ≥ 3 then do
    match atoi (← index command 2) with
    | none => return .error (.error (ascii "count must be an integer"))
    | some 0 => return .error (.ok (ascii "*0\r\n"))
    | some c => return .ok c
  else return .ok 1

/-- The `WITHVALUES` modifier of `HRANDFIELD`, as its fourth token. -/
def hrandfieldWithValues (command : List Bytes) : Prog (Except Bytes Bool) :=
  if command.length = 4 then do
    if equalFold (← index command 3) "withvalues" then return .ok true
    else return .error (ascii "result modifier must be withvalues")
  else return .ok false

/-- `handleHRANDFIELD`. -/
def handleHRANDFIELD (keyFunc : KeyFunc) (command : List Bytes) : Prog Reply :=
  match keyFunc command with
  | .error e => return .error e
  | .ok keys => do
    let key ← index keys.readKeys 0
    match ← hrandfieldCount command with
    | .error r => return r
    | .ok count =>
      match ← hrandfieldWithValues command with
      | .error e => return .error e
      | .ok withvalues =>
        if !(← keyExists key) then return .ok (ascii "*0\r\n")
        match ← keyRLock key with
        | .error e => return .error e
        | .ok _ => withDefer (keyRUnlock key) do
          match ← getHash key with
          | none => return .error (notAHash key)
          | some (_, hash) =>
            let width := if withvalues then 2 else 1
            if count ≥ hash.length then
              return .ok (fmtArrayHeader (hash.length * width) ++
                (hash.keys.map (hrandfieldEntry withvalues hash)).flatten)
            let plucked ← pluckFields (count > 0) (absInt count).toNat hash.keys
            return .ok (fmtArrayHeader (plucked.length * width) ++
              (plucked.map (hrandfieldEntry withvalues hash)).flatten)

end EchoVault
