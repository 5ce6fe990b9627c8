/-
**The multi-key handlers of the set plugin, `src/modules/set/commands.go`.**

The set plugin is the earlier form of the set handlers: each takes the command tokens and the
server, with no key extraction function, and its multi-key handlers gather their sets by ranging
over the `locks` map.  Go visits a map in an order it leaves unspecified, and draws a new one on
every `range`; here the order is an argument `order`, which rearranges the entries of the map.
`SDIFF` and `SDIFFSTORE` take the first set of that order as the base set, and `SUNION` and
`SUNIONSTORE` take the sets after the first, and the first, even when there is none.

The array replies of the plugin end in `"\r\n\r\n"`, and its counts in `":%d\r\n\r\n"`.

Main definitions:

* `EchoVault.SetPlugin.handleSDIFF`, `EchoVault.SetPlugin.handleSDIFFSTORE`;
* `EchoVault.SetPlugin.handleSUNION`, `EchoVault.SetPlugin.handleSUNIONSTORE`.

Main results:

* `EchoVault.SetPlugin.sdiff_base_follows_map_order` — **the base set of `SDIFF` is the first
  set of the map's order**: on `k1 = {x}` and `k2 = {y}`, `SDIFF k1 k2` replies `x` when the
  map is visited in insertion order and `y` when it is visited the other way round.
-/

import EchoVault.Handler.Set

set_option relaxedAutoImplicit false
set_option autoImplicit false

namespace EchoVault

namespace SetPlugin

open Prog

/-! ### Replies -/

/-- The array loop of the plugin: `"*%d"`, then `"%s\r\n$%d\r\n%s"` for each element, and
`"\r\n\r\n"` after the element of index `len(elems)-1`. -/
def renderMembers (elems : List Bytes) : Bytes :=
  elems.enum.foldl (fun res ie =>
      let res := res ++ crlf ++ ascii "$" ++ decimal ie.2.length ++ crlf ++ ie.2
      if ie.1 = elems.length - 1 then res ++ crlf ++ crlf else res)
    (ascii "*" ++ decimal elems.length)

/-- `fmt.Sprintf(":%d\r\n\r\n", n)`. -/
def fmtCount (n : ℕ) : Bytes := EchoVault.fmtCount n ++ crlf

/-! ### `SDIFF` and `SDIFFSTORE` -/

variable (order : GoMap Bool → GoMap Bool)

/-- The common part of `SDIFF` and `SDIFFSTORE`: with the `locks` map deferred, read-lock the
keys that exist, skipping those whose lock fails; collect the sets at the keys of the map in
`order`, skipping the values that are not sets; and finish with `tail` on the first set minus
the others. -/
def diffWith (keys : List Bytes) (tail : List Bytes → Prog Reply) : Prog Reply :=
  withLocks do
    let (locks, _) ← rlockKeys none false keys []
    match ← setsOf (order locks).keys with
    | [] => return (locks, .error notEnoughSets)
    | base :: rest => return (locks, ← tail (GoSet.subtract base rest))

/-- `handleSDIFF`. -/
def handleSDIFF (cmd : List Bytes) : Prog Reply :=
  if cmd.length < 2 then return .error WrongArgsResponse
  else diffWith order (cmd.drop 1) fun diff => return .ok (renderMembers diff)

/-- The tail of `SDIFFSTORE`: lock the destination (`KeyLock` when it exists, `CreateKeyAndLock`
otherwise), store the set `r` there, ignoring the error of `SetValue`, and unlock it. -/
def storeAt (destination : Bytes) (r : ℕ) (res : Bytes) : Prog Reply := do
  let locked ← if ← keyExists destination then keyLock destination else createKeyAndLock destination
  match locked with
  | .error e => return .error e
  | .ok _ =>
    let _ ← setValue destination (.ref r)
    keyUnlock destination
    return .ok res

/-- `handleSDIFFSTORE`. -/
def handleSDIFFSTORE (cmd : List Bytes) : Prog Reply :=
  if cmd.length < 3 then return .error WrongArgsResponse
  else do
    let destination ← index cmd 1
    diffWith order (cmd.drop 2) fun diff => do
      let r ← alloc (.set diff)
      storeAt destination r (fmtCount diff.length)

/-! ### `SUNION` and `SUNIONSTORE` -/

/-- `sets[0].Union(sets[1:])`, which reaches for the first set even when no set was read.  The
compiled code evaluates the slice `sets[1:]` before the index `sets[0]`, so on no sets it is the
slice that panics. -/
def unionFirst : List (List Bytes) → Prog (List Bytes)
  | [] => panic (ascii "runtime error: slice bounds out of range [1:0]")
  | s :: sets => return GoSet.union (s :: sets)

/-- The common part of `SUNION` and `SUNIONSTORE`: with the `locks` map deferred, read-lock the
keys that exist (returning the error of a failed lock), collect the sets of the map in `order`,
and finish with `tail` on their union. -/
def unionWith (keys : List Bytes) (tail : List Bytes → Prog Reply) : Prog Reply :=
  withLocks do
    let (locks, early) ← rlockKeys none true keys []
    match early with
    | some r => return (locks, r)
    | none =>
      match ← setsOfLocks true (order locks) with
      | .error e => return (locks, .error e)
      | .ok sets => return (locks, ← tail (← unionFirst sets))

/-- `handleSUNION`. -/
def handleSUNION (cmd : List Bytes) : Prog Reply :=
  if cmd.length < 2 then return .error WrongArgsResponse
  else unionWith order (cmd.drop 1) fun union => return .ok (renderMembers union)

/-- `handleSUNIONSTORE`: the destination's unlock is deferred as soon as it is locked. -/
def handleSUNIONSTORE (cmd : List Bytes) : Prog Reply :=
  if cmd.length < 3 then return .error WrongArgsResponse
  else unionWith order (cmd.drop 2) fun union => do
    let r ← alloc (.set union)
    let destination ← index cmd 1
    let locked ← if ← keyExists destination then keyLock destination else createKeyAndLock destination
    match locked with
    | .error e => return .error e
    | .ok _ => withDefer (keyUnlock destination) do
      let _ ← setValue destination (.ref r)
      return .ok (fmtCount union.length)

/-! ### The base set of `SDIFF` -/

/-- `SADD k1 x`, `SADD k2 y`, then the plugin's `SDIFF k1 k2` with the map visited in `order`. -/
def sdiffAfterAdds : Prog Reply := do
  let _ ← EchoVault.handleSADD firstWriteKey [ascii "SADD", ascii "k1", ascii "x"]
  let _ ← EchoVault.handleSADD firstWriteKey [ascii "SADD", ascii "k2", ascii "y"]
  handleSDIFF order [ascii "SDIFF", ascii "k1", ascii "k2"]

/-- **The base set of `SDIFF` is the first set of the map's order.**  On `k1 = {x}` and
`k2 = {y}`, `SDIFF k1 k2` replies `{x}` when `range` visits `locks` in insertion order, and
`{y} = S(k2) - S(k1)` when it visits it the other way round. -/
theorem sdiff_base_follows_map_order :
    ((sdiffAfterAdds id).run emptyUnlimited).result = .ok (.ok (renderMembers [ascii "x"])) ∧
      ((sdiffAfterAdds List.reverse).run emptyUnlimited).result =
        .ok (.ok (renderMembers [ascii "y"])) := by
  decide

end SetPlugin

end EchoVault
