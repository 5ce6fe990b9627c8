/-
**What the hash and set handlers share.**

The handlers of `internal/modules/hash/commands.go` receive the command tokens and the result of
their command's key extraction function.  Those functions (`hsetKeyFunc`, `sinterKeyFunc`, …)
are not in the source, so every handler here takes its key extraction function as an argument,
and every result about a handler holds for every such function.

This module has the replies the handlers format by hand, the type assertions on `GetValue`,
and the read-lock loop with its `locks` map that the multi-key set handlers share.

Main definitions:

* `EchoVault.Keys`, `EchoVault.KeyFunc`, `EchoVault.Reply`;
* `EchoVault.fmtCount`, `EchoVault.fmtBulk`, `EchoVault.renderMembers` — the replies;
* `EchoVault.getHash`, `EchoVault.getSet` — `GetValue(key).(map[string]interface{})` and
  `GetValue(key).(*Set)`;
* `EchoVault.rlockKeys`, `EchoVault.runlockAll` — the loop that read-locks the keys of a
  command into the `locks` map, and the deferred loop that releases them.
-/

import EchoVault.Keyspace.Prog
import EchoVault.Convert

set_option relaxedAutoImplicit false
set_option autoImplicit false

namespace EchoVault

open Prog

/-- `internal.KeyExtractionFuncResult`, as far as the handlers read it. -/
structure Keys where
  readKeys : List Bytes
  writeKeys : List Bytes
  deriving DecidableEq

/-- A key extraction function: the keys of a command, or an error. -/
abbrev KeyFunc := List Bytes → Except Bytes Keys

/-- What a handler returns: an error, or the bytes of its reply. -/
abbrev Reply := Except Bytes Bytes

/-! ### Replies -/

/-- `fmt.Sprintf(":%d\r\n", n)` for a length or a count. -/
def fmtCount (n : ℕ) : Bytes := ascii ":" ++ decimal n ++ crlf

/-- `fmt.Sprintf(":%d\r\n", i)` for a Go `int`. -/
def fmtInteger (i : ℤ) : Bytes := ascii ":" ++ fmtInt i ++ crlf

/-- `fmt.Sprintf("$%d\r\n%s\r\n", len(s), s)`. -/
def fmtBulk (s : Bytes) : Bytes := ascii "$" ++ decimal s.length ++ crlf ++ s ++ crlf

/-- `fmt.Sprintf("*%d\r\n", n)`. -/
def fmtArrayHeader (n : ℕ) : Bytes := ascii "*" ++ decimal n ++ crlf

/-- The array loop of `SDIFF`, `SINTER`, `SMEMBERS`, `SPOP`, `SRANDMEMBER` and `SUNION`:
`fmt.Sprintf("*%d", len(elems))`, then `"%s\r\n$%d\r\n%s"` for each element, and `"\r\n"`
after the element of index `len(elems)-1`. -/
def renderMembers (elems : List Bytes) : Bytes :=
  elems.enum.foldl (fun res ie =>
      let res := res ++ crlf ++ ascii "$" ++ decimal ie.2.length ++ crlf ++ ie.2
      if ie.1 = elems.length - 1 then res ++ crlf else res)
    (ascii "*" ++ decimal elems.length)

/-- A hash value as `HGET`, `HVALS`, `HGETALL` and `HRANDFIELD` write it: a string and a
`float64` (through `strconv.FormatFloat(f, 'f', -1, 64)`) as bulk strings, an `int` as an
integer. -/
def renderScalar : Scalar → Bytes
  | .str s => fmtBulk s
  | .float f => fmtBulk (formatFloat f)
  | .int i => fmtInteger i

/-! ### Errors -/

/-- `fmt.Errorf("value at %s is not a hash", key)`. -/
def notAHash (key : Bytes) : Bytes := ascii "value at " ++ key ++ ascii " is not a hash"

/-- `fmt.Errorf("value at key %s is not a set", key)`. -/
def notASetAtKey (key : Bytes) : Bytes := ascii "value at key " ++ key ++ ascii " is not a set"

/-- `fmt.Errorf("value at %s is not a set", key)`. -/
def notASet (key : Bytes) : Bytes := ascii "value at " ++ key ++ ascii " is not a set"

/-! ### Type assertions on `GetValue` -/

/-- `GetValue(key).(map[string]interface{})`: the reference and the fields of a hash. -/
def getHash (key : Bytes) : Prog (Option (ℕ × GoMap Scalar)) := do
  match ← getValue key with
  | some (.ref r) =>
    match ← load r with
    | .hash fields => return some (r, fields)
    | _ => return none
  | _ => return none

/-- `GetValue(key).(*Set)`: the reference and the members of a set. -/
def getSet (key : Bytes) : Prog (Option (ℕ × List Bytes)) := do
  match ← getValue key with
  | some (.ref r) =>
    match ← load r with
    | .set members => return some (r, members)
    | _ => return none
  | _ => return none

/-! ### The `locks` map of the multi-key set handlers -/

/-- The loop `for _, key := range keys { … locks[key] = true }` of the multi-key set handlers:
a key that does not exist returns `missing`, or is skipped when `missing` is `none`; a failed
`KeyRLock` returns its error when `stopOnError`, and is skipped otherwise.  The `locks` map is
returned with the early reply, if any, since the deferred loop releases what it holds. -/
def rlockKeys (missing : Option Reply) (stopOnError : Bool) :
    List Bytes → GoMap Bool → Prog (GoMap Bool × Option Reply)
  | [], locks => return (locks, none)
  | key :: keys, locks => do
    if !(← keyExists key) then
      match missing with
      | some r => return (locks, some r)
      | none => rlockKeys missing stopOnError keys locks
    else
      match ← keyRLock key with
      | .error e =>
        if stopOnError then return (locks, some (.error e))
        else rlockKeys missing stopOnError keys locks
      | .ok _ => rlockKeys missing stopOnError keys (locks.set key true)

/-- The deferred `for key, locked := range locks { if locked { KeyRUnlock(key) } }`. -/
def runlockAll : GoMap Bool → Prog Unit
  | [] => return ()
  | (key, locked) :: locks => do
    if locked then keyRUnlock key
    runlockAll locks

/-- A handler body under the deferred release of its `locks` map: the body returns the map as
it stands when the body returns. -/
def withLocks (body : Prog (GoMap Bool × Reply)) : Prog Reply := do
  let (locks, r) ← body
  runlockAll locks
  return r

/-- `GetValue(key).(*Set)` for each key of the `locks` map, in its order, skipping the keys
not `locked` when `checkLocked` (the loop of `SUNION`): the first key whose value is not a set
ends the loop with `fmt.Errorf("value at key %s is not a set", key)`. -/
def setsOfLocks (checkLocked : Bool) : GoMap Bool → Prog (Except Bytes (List (List Bytes)))
  | [] => return .ok []
  | (key, locked) :: locks => do
    if checkLocked && !locked then setsOfLocks checkLocked locks
    else
      match ← getSet key with
      | none => return .error (notASetAtKey key)
      | some (_, members) =>
        match ← setsOfLocks checkLocked locks with
        | .error e => return .error e
        | .ok sets => return .ok (members :: sets)

/-! ### Key extraction functions and a starting machine -/

/-- A key extraction function that returns the first argument as the only write key, as the
ones of `HSET`, `HINCRBY` and `SADD` do. -/
def firstWriteKey : KeyFunc := fun command => .ok ⟨[], (command.drop 1).take 1⟩

/-- A key extraction function that reads every argument, as the ones of `SINTER` and `SUNION`
do. -/
def allReadKeys : KeyFunc := fun command => .ok ⟨command.drop 1, []⟩

/-- A server without keys and without a memory limit, in a world that never cancels a context
and whose heap readings stay below any limit. -/
def emptyUnlimited : Machine := ⟨Server.empty ⟨0, ascii NoEviction, false⟩, ⟨[], [], [], []⟩, []⟩

end EchoVault
