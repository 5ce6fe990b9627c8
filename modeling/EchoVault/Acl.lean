/-
**Authorization of a command: `ACL.AuthorizeConnection`.**

Before a command runs, `AuthorizeConnection` checks it against the user bound to the
connection.  The checks run in a fixed order and the first that fails decides the error:
authentication when a password is required, the command's categories against the user's
included and excluded categories, the command's name against the included and excluded
commands, and then either the first channel (for pub/sub commands) or the extracted keys
against the included keys, read keys and write keys.  `AUTH` bypasses all of it.

Each list check is a `slices.ContainsFunc`, an *existence* test.  The closures of the category
and key checks also append the names they reject to a shared `notAllowed` list that the error
messages print, so the model threads that list through the checks.

Main definitions:

* `EchoVault.User`, `EchoVault.Connection` — the parts of a user and of a connection that the
  check reads;
* `EchoVault.Command`, `EchoVault.SubCommand` — a command descriptor and its key extraction;
* `EchoVault.authorizeConnection` — `ACL.AuthorizeConnection`.

Main results:

* `EchoVault.authorizeConnection_auth` — `AUTH` is always allowed;
* `EchoVault.authorizeConnection_some_category` — a command is refused at the category check
  only when *none* of its categories is included, not when one of them is missing;
* `EchoVault.authorizeConnection_partial_categories` — a user whose included categories
  are only `read` is allowed `HGET`, whose categories are `hash`, `read` and `fast`.
-/

import EchoVault.Bytes

set_option relaxedAutoImplicit false
set_option autoImplicit false

namespace EchoVault

/-! ### Categories -/

/-- Modelled from the spec: `utils.ReadCategory`, whose declaration is not in the source; the
spec names the category `read`. -/
def ReadCategory : Bytes := ascii "read"

/-- Modelled from the spec: `utils.WriteCategory`, the category `write`. -/
def WriteCategory : Bytes := ascii "write"

/-- Modelled from the spec: `utils.PubSubCategory`, the category `pubsub`. -/
def PubSubCategory : Bytes := ascii "pubsub"

/-! ### Users, connections and commands -/

/-- The lists of an ACL user that `AuthorizeConnection` reads. -/
structure User where
  includedCategories : List Bytes
  excludedCategories : List Bytes
  includedCommands : List Bytes
  excludedCommands : List Bytes
  includedKeys : List Bytes
  includedReadKeys : List Bytes
  includedWriteKeys : List Bytes
  includedPubSubChannels : List Bytes
  excludedPubSubChannels : List Bytes
  deriving DecidableEq

/-- The ACL state of a connection (`acl.Connection`). -/
structure Connection where
  authenticated : Bool
  user : User
  deriving DecidableEq

/-- A key extraction function: the keys (or, for pub/sub commands, the channels) of a command,
or an error. -/
abbrev KeyExtractionFunc := List Bytes → Except Bytes (List Bytes)

/-- A sub-command descriptor (`utils.SubCommand`), as far as authorization reads it. -/
structure SubCommand where
  command : Bytes
  categories : List Bytes
  keyExtractionFunc : KeyExtractionFunc

/-- A command descriptor (`utils.Command`), as far as authorization reads it. -/
structure Command where
  command : Bytes
  categories : List Bytes
  keyExtractionFunc : KeyExtractionFunc

/-! ### The checks -/

/-- `"*"`, the wildcard of every list of a user. -/
def wildcard : Bytes := ascii "*"

/-- `x` is matched by an entry of an include or exclude list: the wildcard or `x` itself. -/
def entryMatches (entry x : Bytes) : Bool := entry == wildcard || entry == x

/-- `slices.ContainsFunc(xs, f)` where `f` also appends to a log: whether some element passes,
and what `f` appended on the elements it examined.  The search stops at the first match. -/
def containsLog {α : Type} (f : α → Bool × List Bytes) : List α → Bool × List Bytes
  | [] => (false, [])
  | x :: xs =>
      if (f x).1 then (true, (f x).2)
      else ((containsLog f xs).1, (f x).2 ++ (containsLog f xs).2)

/-- The inner closure of a category or key check: an entry of `allowed` matches `x`; each
entry that does not match appends `tag ++ x` to `notAllowed`. -/
def allowedLog (allowed : List Bytes) (tag x : Bytes) : Bool × List Bytes :=
  containsLog (fun entry => if entryMatches entry x then (true, []) else (false, [tag ++ x])) allowed

/-- `fmt.Sprintf("%+v", xs)` for a `[]string`. -/
def fmtList (xs : List Bytes) : Bytes := ascii "[" ++ (ascii " ").intercalate xs ++ ascii "]"

/-- What `AuthorizeConnection` ends with: `nil`, an error, or a run-time panic. -/
inductive Verdict where
  | allow
  | deny (msg : Bytes)
  | panic
  deriving DecidableEq

/-- The key checks 7 to 9: every check passes if some key is in the list, and the log of
rejected keys continues the category check's `notAllowed`. -/
def keyChecks (user : User) (categories keys notAllowed : List Bytes) : Verdict :=
  let denied := fun (log : List Bytes) =>
    Verdict.deny (ascii "not authorised to access the following keys " ++ fmtList log)
  let all := containsLog (allowedLog user.includedKeys (ascii "%RW~")) keys
  let na₁ := notAllowed ++ all.2
  if keys ≠ [] ∧ !all.1 then denied na₁
  else
    let read := containsLog (allowedLog user.includedReadKeys (ascii "%R~")) keys
    let na₂ := if keys ≠ [] ∧ categories.contains ReadCategory then na₁ ++ read.2 else na₁
    if keys ≠ [] ∧ categories.contains ReadCategory ∧ !read.1 then denied na₂
    else
      let write := containsLog (allowedLog user.includedWriteKeys (ascii "%W~")) keys
      let na₃ := if keys ≠ [] ∧ categories.contains WriteCategory then na₂ ++ write.2 else na₂
      if keys ≠ [] ∧ categories.contains WriteCategory ∧ !write.1 then denied na₃
      else .allow

/-- The pub/sub check 6: only the first channel is checked, and a pub/sub command without a
channel indexes an empty slice. -/
def channelCheck (user : User) (keys : List Bytes) : Verdict :=
  match keys with
  | [] => .panic
  | channel :: _ =>
      let denied := Verdict.deny (ascii "not authorised to access channel &" ++ channel)
      if !user.includedPubSubChannels.any (entryMatches · channel) then denied
      else if user.excludedPubSubChannels.any (entryMatches · channel) then denied
      else .allow

/-- `ACL.AuthorizeConnection` for a registered connection, with the server's `RequirePass`
setting; `subCommand` is `none` for the zero `SubCommand`. -/
def authorizeConnection (requirePass : Bool) (connection : Connection) (cmd : List Bytes)
    (command : Command) (subCommand : Option SubCommand) : Verdict :=
  match command.keyExtractionFunc cmd with
  | .error e => .deny e
  | .ok keys₀ =>
    let extracted : Except Bytes (Bytes × List Bytes × List Bytes) :=
      match subCommand with
      | none => .ok (command.command, command.categories, keys₀)
      | some sub => (sub.keyExtractionFunc cmd).map fun keys =>
          (command.command ++ ascii "|" ++ sub.command, command.categories ++ sub.categories, keys)
    match extracted with
    | .error e => .deny e
    | .ok (comm, categories, keys) =>
      let user := connection.user
      let categoryDenied := fun (log : List Bytes) =>
        Verdict.deny (ascii "unauthorized access to the following categories: " ++ fmtList log)
      let commandDenied := Verdict.deny (ascii "not authorised to run " ++ comm ++ ascii " command")
      if equalFold comm "auth" then .allow
      else if requirePass ∧ !connection.authenticated then
        .deny (ascii "user must be authenticated")
      else
        let included := containsLog (fun c => allowedLog user.includedCategories (ascii "@") c)
          categories
        if !included.1 then
          categoryDenied (if included.2 = [] then [ascii "@all"] else included.2)
        else match categories.find? (fun c => user.excludedCategories.any (entryMatches · c)) with
        | some c => categoryDenied [ascii "@" ++ c]
        | none =>
          if !user.includedCommands.any (entryMatches · comm) then commandDenied
          else if user.excludedCommands.any (entryMatches · comm) then commandDenied
          else if categories.contains PubSubCategory then channelCheck user keys
          else keyChecks user categories keys included.2

/-! ### What the checks decide -/

theorem containsLog_fst {α : Type} (f : α → Bool × List Bytes) (xs : List α) :
    (containsLog f xs).1 = xs.any fun x => (f x).1 := by
  induction xs with
  | nil => rfl
  | cons x xs ih => by_cases h : (f x).1 <;> simp [containsLog, h, ih]

theorem allowedLog_fst (allowed : List Bytes) (tag x : Bytes) :
    (allowedLog allowed tag x).1 = allowed.any (entryMatches · x) := by
  rw [allowedLog, containsLog_fst]
  congr 1
  funext entry
  by_cases h : entryMatches entry x <;> simp [h]

/-- `AUTH` (the command name, up to case) bypasses every check. -/
theorem authorizeConnection_auth (requirePass : Bool) (connection : Connection)
    (cmd : List Bytes) (command : Command) (keys : List Bytes)
    (hkeys : command.keyExtractionFunc cmd = .ok keys) (hauth : equalFold command.command "auth") :
    authorizeConnection requirePass connection cmd command none = .allow := by
  simp [authorizeConnection, hkeys, hauth]

/-- **The category check is an existence test.**  Past authentication, a command is refused at
the included-categories check only when none of its categories is included: a command with one
included category passes it whatever its other categories are.  In particular a command with no
categories at all is always refused there. -/
theorem authorizeConnection_some_category (requirePass : Bool) (connection : Connection)
    (cmd : List Bytes) (command : Command) (keys : List Bytes)
    (hkeys : command.keyExtractionFunc cmd = .ok keys)
    (hauth : equalFold command.command "auth" = false)
    (hpass : ¬ (requirePass ∧ !connection.authenticated))
    (hnone : ∀ c ∈ command.categories, ∀ e ∈ connection.user.includedCategories, entryMatches e c = false) :
    ∃ msg, authorizeConnection requirePass connection cmd command none = .deny msg := by
  have hany : (containsLog (fun c => allowedLog connection.user.includedCategories (ascii "@") c)
      command.categories).1 = false := by
    rw [containsLog_fst]
    simpa [allowedLog_fst] using hnone
  simp only [authorizeConnection, hkeys, hauth, hany, if_neg hpass, Bool.not_false, if_true,
    Bool.false_eq_true, if_false]
  exact ⟨_, rfl⟩

/-- A user limited to the category `read`, with every command, key and channel allowed. -/
def readOnlyUser : User :=
  ⟨[ReadCategory], [], [wildcard], [], [wildcard], [wildcard], [wildcard], [wildcard], []⟩

/-- The descriptor of `HGET`: categories `hash`, `read` and `fast`, and its key the first
argument. -/
def hgetCommand : Command :=
  ⟨ascii "hget", [ascii "hash", ReadCategory, ascii "fast"], fun cmd => .ok ((cmd.drop 1).take 1)⟩

/-- **A command is allowed with one of its categories included.**  The user is allowed only
the category `read`; `HGET h f` also has the categories `hash` and `fast`, which the user does
not include, and `AuthorizeConnection` still returns `nil`. -/
theorem authorizeConnection_partial_categories :
    authorizeConnection false ⟨true, readOnlyUser⟩ [ascii "HGET", ascii "h", ascii "f"]
        hgetCommand none = .allow ∧
      ascii "hash" ∈ hgetCommand.categories ∧
      readOnlyUser.includedCategories.all (fun e => !entryMatches e (ascii "hash")) := by
  decide

end EchoVault
