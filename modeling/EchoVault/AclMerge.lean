/-
**The older ACL of `acl/acl.go`: `NewACL` loses the user `default`.**

`src/src/acl/acl.go` is an earlier form of the ACL.  Its `NewACL` creates the user `default`,
with the server's password when one is required, reads the users of the ACL file, and replaces
each loaded user named `default` by `MergeUser(defaultUser, user)`.  `MergeUser` appends the lists
of the two users and returns `NormaliseUser` of the result, which is the zero `User{}`; and the
created user is never put in the list.  So the ACL it builds has no user named `default`,
whatever the configuration and the file: a loaded `default` becomes a user with an empty name and
no rights, and the other loaded users are kept as they were.  With a password required and empty,
`NewACL` panics at `strings.Split(password, "")[0]` of `GetPasswordType`.

Opening and decoding the file are not modelled: `fileUsers` is what the decoder returns.

Main definitions:

* `EchoVault.AclMerge.User`, `EchoVault.AclMerge.createUser`, `EchoVault.AclMerge.normaliseUser`,
  `EchoVault.AclMerge.mergeUser`, `EchoVault.AclMerge.newACL`.

Main results:

* `EchoVault.AclMerge.mergeUser_of_eq` — `MergeUser` of two users of one name is the zero user;
* `EchoVault.AclMerge.newACL_eq` — what `NewACL` returns, for every configuration and file;
* `EchoVault.AclMerge.newACL_no_default` — **no user of the ACL `NewACL` builds is named
  `default`**.
-/

import EchoVault.AclUsers

set_option relaxedAutoImplicit false
set_option autoImplicit false

namespace EchoVault

namespace AclMerge

/-! ### Users -/

/-- `acl.User` of `acl/acl.go`. -/
structure User where
  username : Bytes
  enabled : Bool
  passwords : List Password
  includedCategories : List Bytes
  excludedCategories : List Bytes
  includedCommands : List Bytes
  excludedCommands : List Bytes
  includedKeys : List Bytes
  excludedKeys : List Bytes
  includedReadKeys : List Bytes
  includedWriteKeys : List Bytes
  includedPubSubChannels : List Bytes
  excludedPubSubChannels : List Bytes
  deriving DecidableEq

/-- The zero `User{}`: no name, disabled, and every list empty. -/
def zeroUser : User := ⟨[], false, [], [], [], [], [], [], [], [], [], [], []⟩

/-- `CreateUser(username, enabled)`: no password, and `*` in every inclusion. -/
def createUser (username : Bytes) (enabled : Bool) : User :=
  ⟨username, enabled, [], [wildcard], [], [wildcard], [], [wildcard], [], [wildcard], [wildcard],
    [wildcard], []⟩

/-- `NormaliseUser(user)`, which returns `User{}`. -/
def normaliseUser (_ : User) : User := zeroUser

/-- `fmt.Errorf("cannot merge user with username %s to user with username %s", …)`. -/
def mergeError (base target : Bytes) : Bytes :=
  ascii "cannot merge user with username " ++ base ++ ascii " to user with username " ++ target

/-- `MergeUser(base, target)`: the lists of both users, the target's `Enabled`, and the
`IncludedKeys` and `ExcludedKeys` of the base, normalised. -/
def mergeUser (base target : User) : Except Bytes User :=
  if base.username ≠ target.username then .error (mergeError base.username target.username)
  else .ok (normaliseUser { base with
    enabled := target.enabled
    passwords := base.passwords ++ target.passwords
    includedCategories := base.includedCategories ++ target.includedCategories
    excludedCategories := base.excludedCategories ++ target.excludedCategories
    includedCommands := base.includedCommands ++ target.includedCommands
    excludedCommands := base.excludedCommands ++ target.excludedCommands
    includedReadKeys := base.includedReadKeys ++ target.includedReadKeys
    includedWriteKeys := base.includedWriteKeys ++ target.includedWriteKeys
    includedPubSubChannels := base.includedPubSubChannels ++ target.includedPubSubChannels
    excludedPubSubChannels := base.excludedPubSubChannels ++ target.excludedPubSubChannels })

/-- **`MergeUser` of two users of one name is the zero user.** -/
theorem mergeUser_of_eq {base target : User} (h : base.username = target.username) :
    mergeUser base target = .ok zeroUser := by
  simp [mergeUser, h, normaliseUser]

/-! ### `NewACL` -/

/-- What `NewACL` reads of `utils.Config`: `RequirePass`, `Password`, and `AclConfig`, the path of
the ACL file, empty for none. -/
structure Config where
  requirePass : Bool
  password : Bytes
  aclConfig : Bytes
  deriving DecidableEq

/-- `acl.ACL` as `NewACL` returns it: its users and its configuration, with no connection. -/
structure ACL where
  users : List User
  config : Config
  deriving DecidableEq

/-- One turn of the loop of `NewACL` over the loaded users: a user named `default` becomes
`MergeUser(defaultUser, user)`, and stays when that fails. -/
def mergeDefault (defaultUser user : User) : User :=
  if user.username = defaultName then
    match mergeUser defaultUser user with
    | .ok u => u
    | .error _ => user
  else user

/-- `NewACL(config)`, with `fileUsers` the users decoded from the file `AclConfig`. -/
def newACL (config : Config) (fileUsers : List User) : Except Bytes ACL := do
  let created := createUser defaultName true
  let defaultUser ← if config.requirePass then do
      let passwordType ← getPasswordType config.password
      pure { created with passwords := [⟨passwordType, config.password⟩] }
    else pure created
  let users := if config.aclConfig = [] then [] else fileUsers
  pure ⟨users.map (mergeDefault defaultUser), config⟩

/-- A loaded user named `default` merged with a default user becomes the zero user. -/
theorem mergeDefault_eq {defaultUser : User} (hd : defaultUser.username = defaultName) :
    mergeDefault defaultUser = fun user => if user.username = defaultName then zeroUser else user := by
  funext user
  unfold mergeDefault
  by_cases hu : user.username = defaultName
  · rw [if_pos hu, if_pos hu, mergeUser_of_eq (hd.trans hu.symm)]
  · rw [if_neg hu, if_neg hu]

/-- **What `NewACL` returns**: it panics when a password is required and empty; otherwise its
users are those of the file, when there is one, with each user named `default` replaced by the
zero user. -/
theorem newACL_eq (config : Config) (fileUsers : List User) :
    newACL config fileUsers =
      if config.requirePass ∧ config.password = [] then .error (outOfRange 0 0)
      else .ok ⟨(if config.aclConfig = [] then [] else fileUsers).map
        (fun user => if user.username = defaultName then zeroUser else user), config⟩ := by
  obtain ⟨requirePass, password, aclConfig⟩ := config
  cases requirePass
  · simp [newACL, mergeDefault_eq, createUser]
    rfl
  · cases password with
    | nil => rfl
    | cons b password => simp [newACL, getPasswordType, mergeDefault_eq, createUser]

/-- **No user of the ACL `NewACL` builds is named `default`**: for every configuration and every
list of users decoded from the ACL file, when `NewACL` returns, the created default user is not
among its users, and `MergeUser` has turned every loaded `default` into the zero user, whose name
is empty. -/
theorem newACL_no_default {config : Config} {fileUsers : List User} {acl : ACL}
    (h : newACL config fileUsers = .ok acl) : ∀ u ∈ acl.users, u.username ≠ defaultName := by
  rw [newACL_eq] at h
  split at h
  · cases h
  cases h
  intro u hu
  obtain ⟨v, -, rfl⟩ := List.mem_map.1 hu
  split
  · simp [zeroUser, defaultName, ascii]
  · assumption

/-- An ACL file holding the user `default` alone: `NewACL` returns the zero user in its place. -/
theorem newACL_file_default :
    newACL ⟨false, [], ascii "acl.json"⟩ [createUser defaultName true] =
        .ok ⟨[zeroUser], ⟨false, [], ascii "acl.json"⟩⟩ ∧
      ∀ u ∈ [zeroUser], u.username ≠ defaultName :=
  ⟨rfl, @newACL_no_default ⟨false, [], ascii "acl.json"⟩ [createUser defaultName true]
    ⟨[zeroUser], ⟨false, [], ascii "acl.json"⟩⟩ rfl⟩

end AclMerge

end EchoVault
