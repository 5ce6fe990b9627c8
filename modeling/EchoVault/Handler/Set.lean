/-
**The set handlers of `internal/modules/hash/commands.go`.**

`SADD`, `SCARD`, `SDIFF`, `SDIFFSTORE`, `SINTER`, `SINTERCARD`, `SINTERSTORE`, `SISMEMBER`,
`SMEMBERS`, `SMISMEMBER`, `SMOVE`, `SPOP`, `SRANDMEMBER`, `SREM`, `SUNION` and `SUNIONSTORE`,
each as the program of capability calls it makes.  A set is a `*Set`: `SADD`, `SREM`, `SPOP`
and `SMOVE` change the set they got from `GetValue` in place, without `SetValue`.

The `Set` type and its methods are not in the source.  They are modelled from the spec as
lists of distinct members in insertion order, with the meaning of the Redis commands they
implement; the members `Pop` and `GetRandom` choose are drawn with `rand.Intn`.

Main definitions:

* `EchoVault.GoSet` — the methods of `*Set`;
* `EchoVault.handleSADD` … `EchoVault.handleSUNIONSTORE` — the handlers.
-/

import EchoVault.Handler.Common

set_option relaxedAutoImplicit false
set_option autoImplicit false

namespace EchoVault

open Prog

/-! ### The `Set` library -/

namespace GoSet

/-- Modelled from the spec: `set.Add(elems)`, the set with the elements it did not hold, and
how many those were. -/
def add (s elems : List Bytes) : List Bytes × ℕ :=
  elems.foldl (fun acc e => if e ∈ acc.1 then acc else (acc.1 ++ [e], acc.2 + 1)) (s, 0)

/-- Modelled from the spec: `NewSet(elems)`, the distinct elements. -/
def newSet (elems : List Bytes) : List Bytes := (add [] elems).1

/-- Modelled from the spec: `set.Remove(elems)`, the set without the elements, and how many it
held. -/
def remove (s elems : List Bytes) : List Bytes × ℕ :=
  elems.foldl (fun acc e => if e ∈ acc.1 then (acc.1.erase e, acc.2 + 1) else acc) (s, 0)

/-- Modelled from the spec: `base.Subtract(sets)`, the members of `base` in none of `sets`. -/
def subtract (base : List Bytes) (sets : List (List Bytes)) : List Bytes :=
  base.filter fun e => sets.all fun t => e ∉ t

/-- Modelled from the spec: `Intersection(limit, sets...)`, the members common to all `sets`,
at most `limit` of them when `limit > 0`. -/
def intersection (limit : ℤ) : List (List Bytes) → List Bytes
  | [] => []
  | s :: ts =>
    let common := s.filter fun e => ts.all fun t => e ∈ t
    if limit > 0 then common.take limit.toNat else common

/-- Modelled from the spec: `Union(sets...)`, the members of any of `sets`. -/
def union (sets : List (List Bytes)) : List Bytes := newSet sets.flatten

/-- Modelled from the spec: `source.Move(destination, member)`, the two sets afterwards and `1`
when the source held the member. -/
def move (source destination : List Bytes) (member : Bytes) : List Bytes × List Bytes × ℕ :=
  if member ∈ source then (source.erase member, (add destination [member]).1, 1)
  else (source, destination, 0)

/-- Modelled from the spec: the members `set.Pop(count)` removes, each drawn with
`rand.Intn` among those left, up to `count`. -/
def popMembers : ℕ → List Bytes → Prog (List Bytes × List Bytes)
  | 0, s => return ([], s)
  | _ + 1, [] => return ([], [])
  | n + 1, s@(_ :: _) => do
    let i ← intn s.length
    let m := s.getD i []
    let (popped, rest) ← popMembers n (s.erase m)
    return (m :: popped, rest)

/-- Modelled from the spec: the members `set.GetRandom(count)` returns: distinct ones up to
`count` for a positive count, and `|count|` draws that may repeat for a negative one. -/
def randomMembers (count : ℤ) (s : List Bytes) : Prog (List Bytes) :=
  if count ≥ 0 then do
    let (picked, _) ← popMembers count.toNat s
    return picked
  else draws count.natAbs
where
  /-- `n` draws with repetition. -/
  draws : ℕ → Prog (List Bytes)
    | 0 => return []
    | n + 1 => do
      let i ← intn s.length
      let rest ← draws n
      return s.getD i [] :: rest

end GoSet

/-- Modelled from the spec: `constants.WrongArgsResponse`, whose text is not in the source;
the spec names the error *WrongArity*. -/
def WrongArgsResponse : Bytes := ascii "wrong number of arguments"

/-! ### Single-key handlers -/

/-- `handleSADD`: a new key is unlocked only after its value is set. -/
def handleSADD (keyFunc : KeyFunc) (command : List Bytes) : Prog Reply :=
  match keyFunc command with
  | .error e => return .error e
  | .ok keys => do
    let key ← index keys.writeKeys 0
    let elems ← sliceFrom command 2
    if !(← keyExists key) then
      match ← createKeyAndLock key with
      | .error e => return .error e
      | .ok _ =>
        let r ← alloc (.set (GoSet.newSet elems))
        match ← setValue key (.ref r) with
        | .error e => return .error e
        | .ok _ =>
          keyUnlock key
          return .ok (fmtCount elems.length)
    match ← keyLock key with
    | .error e => return .error e
    | .ok _ => withDefer (keyUnlock key) do
      match ← getSet key with
      | none => return .error (notASetAtKey key)
      | some (r, set) =>
        let (set', count) := GoSet.add set elems
        write r (.set set')
        return .ok (fmtCount count)

/-- The shape of the single-key set readers: take the key `ReadKeys[0]` and the argument `pre`
reads; reply `absent` when the key does not exist; otherwise lock it (`KeyRLock`, or `KeyLock`
when `write`), check that its value is a set, and run `body` on the argument and the set,
releasing the lock on return. -/
def readSet {α : Type} (keyFunc : KeyFunc) (command : List Bytes) (pre : Prog (Except Bytes α))
    (write : Bool) (absent : Bytes) (notASetMsg : Bytes → Bytes)
    (body : α → List Bytes → Prog Reply) : Prog Reply :=
  match keyFunc command with
  | .error e => return .error e
  | .ok keys => do
    let key ← index keys.readKeys 0
    match ← pre with
    | .error e => return .error e
    | .ok a =>
      if !(← keyExists key) then return .ok absent
      match ← (if write then keyLock key else keyRLock key) with
      | .error e => return .error e
      | .ok _ => withDefer (if write then keyUnlock key else keyRUnlock key) do
        match ← getSet key with
        | none => return .error (notASetMsg key)
        | some (_, set) => body a set

/-- `handleSCARD`. -/
def handleSCARD (keyFunc : KeyFunc) (command : List Bytes) : Prog Reply :=
  readSet keyFunc command (return .ok ()) false (fmtCount 0) notASetAtKey fun _ set =>
    return .ok (fmtCount set.length)

/-- `handleSISMEMBER`. -/
def handleSISMEMBER (keyFunc : KeyFunc) (command : List Bytes) : Prog Reply :=
  readSet keyFunc command (return .ok ()) false (ascii ":0\r\n") notASetAtKey fun _ set => do
    let member ← index command 2
    return .ok (if member ∈ set then ascii ":1\r\n" else ascii ":0\r\n")

/-- `handleSMEMBERS`. -/
def handleSMEMBERS (keyFunc : KeyFunc) (command : List Bytes) : Prog Reply :=
  readSet keyFunc command (return .ok ()) false (ascii "*0\r\n") notASetAtKey fun _ set =>
    return .ok (renderMembers set)

/-- `SMISMEMBER` on a missing key: `"*%d"`, `"\r\n:0"` for each member, and `"\r\n"` after the
last. -/
def smismemberAbsent (members : List Bytes) : Bytes :=
  members.enum.foldl (fun res ie =>
      let res := res ++ crlf ++ ascii ":0"
      if ie.1 = members.length - 1 then res ++ crlf else res)
    (ascii "*" ++ decimal members.length)

/-- `SMISMEMBER` on a set: `"*%d"`, `"\r\n:1"` or `"\r\n:0"` for each member, then `"\r\n"`. -/
def smismemberPresent (set members : List Bytes) : Bytes :=
  ascii "*" ++ decimal members.length ++
    (members.map fun m => crlf ++ (if m ∈ set then ascii ":1" else ascii ":0")).flatten ++ crlf

/-- `handleSMISMEMBER`. -/
def handleSMISMEMBER (keyFunc : KeyFunc) (command : List Bytes) : Prog Reply :=
  match keyFunc command with
  | .error e => return .error e
  | .ok keys => do
    let key ← index keys.readKeys 0
    let members ← sliceFrom command 2
    if !(← keyExists key) then return .ok (smismemberAbsent members)
    match ← keyRLock key with
    | .error e => return .error e
    | .ok _ => withDefer (keyRUnlock key) do
      match ← getSet key with
      | none => return .error (notASetAtKey key)
      | some (_, set) => return .ok (smismemberPresent set members)

/-- The count of `SPOP` and `SRANDMEMBER`: `1` by default, the third token through
`AdaptType` otherwise. -/
def countArg (command : List Bytes) : Prog (Except Bytes ℤ) :=
  if command.length = 3 then do
    match adaptType (← index command 2) with
    | .int c => return .ok c
    | _ => return .error (ascii "count must be an integer")
  else return .ok 1

/-- `handleSPOP`: the popped members leave the set in place. -/
def handleSPOP (keyFunc : KeyFunc) (command : List Bytes) : Prog Reply :=
  match keyFunc command with
  | .error e => return .error e
  | .ok keys => do
    let key ← index keys.writeKeys 0
    match ← countArg command with
    | .error e => return .error e
    | .ok count =>
      if !(← keyExists key) then return .ok (ascii "*-1\r\n")
      match ← keyLock key with
      | .error e => return .error e
      | .ok _ => withDefer (keyUnlock key) do
        match ← getSet key with
        | none => return .error (notASet key)
        | some (r, set) =>
          let (members, rest) ← GoSet.popMembers count.toNat set
          write r (.set rest)
          return .ok (renderMembers members)

/-- `handleSRANDMEMBER`, which takes the write lock of the key it reads. -/
def handleSRANDMEMBER (keyFunc : KeyFunc) (command : List Bytes) : Prog Reply :=
  readSet keyFunc command (countArg command) true (ascii "*-1\r\n") notASet fun count set => do
    return .ok (renderMembers (← GoSet.randomMembers count set))

/-- `handleSREM`: the members leave the set in place. -/
def handleSREM (keyFunc : KeyFunc) (command : List Bytes) : Prog Reply :=
  match keyFunc command with
  | .error e => return .error e
  | .ok keys => do
    let key ← index keys.writeKeys 0
    let members ← sliceFrom command 2
    if !(← keyExists key) then return .ok (fmtCount 0)
    match ← keyLock key with
    | .error e => return .error e
    | .ok _ => withDefer (keyUnlock key) do
      match ← getSet key with
      | none => return .error (notASetAtKey key)
      | some (r, set) =>
        let (set', count) := GoSet.remove set members
        write r (.set set')
        return .ok (fmtCount count)

/-! ### Multi-key handlers -/

/-- `fmt.Errorf("key for base set \"%s\" does not exist", key)`. -/
def baseMissing (key : Bytes) : Bytes :=
  ascii "key for base set " ++ [34] ++ key ++ [34] ++ ascii " does not exist"

/-- The loop `for _, key := range keys { set, ok := GetValue(key).(*Set); … }` of `SDIFF` and
`SDIFFSTORE`, which skips the keys whose value is not a set, absent ones included. -/
def setsOf : List Bytes → Prog (List (List Bytes))
  | [] => return []
  | key :: keys => do
    match ← getSet key with
    | none => setsOf keys
    | some (_, set) => return set :: (← setsOf keys)

/-- The tail of `SDIFFSTORE` and `SINTERSTORE`: lock the destination (`KeyLock` when it exists,
`CreateKeyAndLock` otherwise), store the set `r` there, and unlock it only after `SetValue`
succeeded. -/
def storeSet (destination : Bytes) (r : ℕ) (res : Bytes) : Prog Reply := do
  let locked ← if ← keyExists destination then keyLock destination else createKeyAndLock destination
  match locked with
  | .error e => return .error e
  | .ok _ =>
    match ← setValue destination (.ref r) with
    | .error e => return .error e
    | .ok _ =>
      keyUnlock destination
      return .ok res

/-- The common part of `SDIFF` and `SDIFFSTORE`: read-lock the base key `ReadKeys[0]` (an error
when it does not exist) and check its value is a set; then, with the `locks` map deferred,
read-lock the other keys, skipping those that are absent or fail, collect the sets at `setKeys`
(the tokens `Command[2:]` for `SDIFF`, `ReadKeys[1:]` for `SDIFFSTORE`), and finish with `tail`
on the difference. -/
def diffWith (keyFunc : KeyFunc) (command : List Bytes) (setKeys : Keys → Prog (List Bytes))
    (pre : Keys → Prog Bytes) (tail : Bytes → List Bytes → Prog Reply) : Prog Reply :=
  match keyFunc command with
  | .error e => return .error e
  | .ok keys => do
    let d ← pre keys
    let base ← index keys.readKeys 0
    if !(← keyExists base) then return .error (baseMissing base)
    match ← keyRLock base with
    | .error e => return .error e
    | .ok _ => withDefer (keyRUnlock base) do
      match ← getSet base with
      | none => return .error (notASetAtKey base)
      | some (_, baseSet) => withLocks do
        let (locks, _) ← rlockKeys none false (← sliceFrom keys.readKeys 1) []
        let sets ← setsOf (← setKeys keys)
        return (locks, ← tail d (GoSet.subtract baseSet sets))

/-- `handleSDIFF`: the sets are read at the tokens `Command[2:]`, locked or not. -/
def handleSDIFF (keyFunc : KeyFunc) (command : List Bytes) : Prog Reply :=
  diffWith keyFunc command (fun _ => sliceFrom command 2) (fun _ => return [])
    fun _ diff => return .ok (renderMembers diff)

/-- `handleSDIFFSTORE`. -/
def handleSDIFFSTORE (keyFunc : KeyFunc) (command : List Bytes) : Prog Reply :=
  diffWith keyFunc command (fun keys => sliceFrom keys.readKeys 1) (fun keys => index keys.writeKeys 0)
    fun destination diff => do
      let r ← alloc (.set diff)
      storeSet destination r (fmtCount diff.length)

/-- The common part of `SINTER`, `SINTERCARD` and `SINTERSTORE`: with the `locks` map deferred,
read-lock every key (replying `missing` at the first that does not exist, and returning the
error of a failed lock), collect the sets of the `locks` map, and finish with `tail`. -/
def interWith (keyFunc : KeyFunc) (command : List Bytes) (missing : Bytes)
    (tail : Keys → List (List Bytes) → Prog Reply) : Prog Reply :=
  match keyFunc command with
  | .error e => return .error e
  | .ok keys => withLocks do
    let (locks, early) ← rlockKeys (some (.ok missing)) true keys.readKeys []
    match early with
    | some r => return (locks, r)
    | none =>
      match ← setsOfLocks false locks with
      | .error e => return (locks, .error e)
      | .ok sets => return (locks, ← tail keys sets)

/-- `fmt.Errorf("not enough sets in the keys provided")`. -/
def notEnoughSets : Bytes := ascii "not enough sets in the keys provided"

/-- `handleSINTER`. -/
def handleSINTER (keyFunc : KeyFunc) (command : List Bytes) : Prog Reply :=
  interWith keyFunc command (ascii "*0\r\n") fun _ sets =>
    if sets.length = 0 then return .error notEnoughSets
    else return .ok (renderMembers (GoSet.intersection 0 sets))

/-- The `LIMIT` argument of `SINTERCARD`, `0` without one. -/
def sintercardLimit (command : List Bytes) : Except Bytes ℤ :=
  match command.findIdx? (equalFold · "limit") with
  | none => .ok 0
  | some idx =>
    if idx < 2 then .error WrongArgsResponse
    else match command.get? (idx + 1) with
      | none => .error (ascii "provide limit after LIMIT keyword")
      | some tok =>
        match adaptType tok with
        | .int l => .ok l
        | _ => .error (ascii "limit must be an integer")

/-- `handleSINTERCARD`. -/
def handleSINTERCARD (keyFunc : KeyFunc) (command : List Bytes) : Prog Reply :=
  match keyFunc command, sintercardLimit command with
  | .error e, _ => return .error e
  | .ok _, .error e => return .error e
  | .ok _, .ok limit =>
    interWith keyFunc command (ascii ":0\r\n") fun _ sets =>
      if sets.length = 0 then return .error notEnoughSets
      else return .ok (fmtCount (GoSet.intersection limit sets).length)

/-- `handleSINTERSTORE`: no check that a set was read. -/
def handleSINTERSTORE (keyFunc : KeyFunc) (command : List Bytes) : Prog Reply :=
  interWith keyFunc command (ascii ":0\r\n") fun keys sets => do
    let inter := GoSet.intersection 0 sets
    let r ← alloc (.set inter)
    let destination ← index keys.writeKeys 0
    storeSet destination r (fmtCount inter.length)

/-- The `Move` of `SMOVE`, written to both sets in place. -/
def moveMember (rs : ℕ) (source : List Bytes) (rd : ℕ) (destination : List Bytes) (member : Bytes) :
    Prog Reply := do
  let (source', destination', res) := GoSet.move source destination member
  write rs (.set source')
  write rd (.set destination')
  return .ok (fmtCount res)

/-- `handleSMOVE`: the source is locked first and kept locked while the destination is locked
or created. -/
def handleSMOVE (keyFunc : KeyFunc) (command : List Bytes) : Prog Reply :=
  match keyFunc command with
  | .error e => return .error e
  | .ok keys => do
    let source ← index keys.writeKeys 0
    let destination ← index keys.writeKeys 1
    let member ← index command 3
    if !(← keyExists source) then return .ok (fmtCount 0)
    match ← keyLock source with
    | .error e => return .error e
    | .ok _ => withDefer (keyUnlock source) do
      match ← getSet source with
      | none => return .error (ascii "source is not a set")
      | some (rs, sourceSet) =>
        if !(← keyExists destination) then
          match ← createKeyAndLock destination with
          | .error e => return .error e
          | .ok _ => withDefer (keyUnlock destination) do
            let rd ← alloc (.set [])
            match ← setValue destination (.ref rd) with
            | .error e => return .error e
            | .ok _ => moveMember rs sourceSet rd [] member
        else
          match ← keyLock destination with
          | .error e => return .error e
          | .ok _ => withDefer (keyUnlock destination) do
            match ← getSet destination with
            | none => return .error (ascii "destination is not a set")
            | some (rd, ds) => moveMember rs sourceSet rd ds member

/-- The common part of `SUNION` and `SUNIONSTORE`: with the `locks` map deferred, read-lock the
keys that exist (returning the error of a failed lock), collect the sets of the `locks` map,
and finish with `tail` on the union. -/
def unionWith (keyFunc : KeyFunc) (command : List Bytes) (tail : Keys → List Bytes → Prog Reply) :
    Prog Reply :=
  match keyFunc command with
  | .error e => return .error e
  | .ok keys => withLocks do
    let (locks, early) ← rlockKeys none true keys.readKeys []
    match early with
    | some r => return (locks, r)
    | none =>
      match ← setsOfLocks true locks with
      | .error e => return (locks, .error e)
      | .ok sets => return (locks, ← tail keys (GoSet.union sets))

/-- `handleSUNION`. -/
def handleSUNION (keyFunc : KeyFunc) (command : List Bytes) : Prog Reply :=
  unionWith keyFunc command fun _ union => return .ok (renderMembers union)

/-- `handleSUNIONSTORE`: the destination's unlock is deferred as soon as it is locked. -/
def handleSUNIONSTORE (keyFunc : KeyFunc) (command : List Bytes) : Prog Reply :=
  unionWith keyFunc command fun keys union => do
    let r ← alloc (.set union)
    let destination ← index keys.writeKeys 0
    let locked ← if ← keyExists destination then keyLock destination else createKeyAndLock destination
    match locked with
    | .error e => return .error e
    | .ok _ => withDefer (keyUnlock destination) do
      match ← setValue destination (.ref r) with
      | .error e => return .error e
      | .ok _ => return .ok (fmtCount union.length)

end EchoVault
