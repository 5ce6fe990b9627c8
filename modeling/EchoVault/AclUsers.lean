/-
**The users and connections of the ACL: `NewACL`, `SetUser`, `DeleteUser`, `RegisterConnection`
and `AuthenticateConnection`.**

The ACL of `src/src/modules/set/commant_test.go` keeps its users as pointers, `Users []*User`,
and binds each connection to one of them, `Connections map[*net.Conn]Connection` with
`Connection.User *User`.  The model keeps the `User` objects in a heap and the pointers as
indices into it, so that `SetUser` changes a user in place for every connection bound to it, as
the source does.  Three methods of `User` that the functions call are not in the source:
`CreateUser(username)`, `(*User).UpdateUser(cmd)` and `(*User).Normalise()`.  They are the
fields of `UserMethods`, which records the one thing the results need of them: none of them
changes a username other than to the one it is given.  SHA-256 is an argument `sha256`.

A panic is `Except.error` with Go's message; the error a function returns is a value.

Main definitions:

* `EchoVault.AclUser`, `EchoVault.AclConnection`, `EchoVault.ACL` — users, connections and the
  ACL with its heap of users;
* `EchoVault.newACL`, `EchoVault.ACL.setUser`, `EchoVault.ACL.deleteUser`,
  `EchoVault.ACL.registerConnection`, `EchoVault.ACL.authenticateConnection`;
* `EchoVault.ACL.Reachable` — the ACLs `NewACL` builds and the calls lead to;
* `EchoVault.ACL.Sound` — a user `default` is in `Users`, and every pointer is allocated.

Main results:

* `EchoVault.ACL.Reachable.sound` — **every reachable ACL has a user `default`**;
* `EchoVault.reachable_acl_has_default` — so `RegisterConnection` and `AUTH password` never
  index an empty slice;
* `EchoVault.deleteUser_unknown_panics` — `DeleteUser` of a name no user has dereferences its
  nil `user` on a fresh ACL;
* `EchoVault.ACL.deleteUsers_eq_ok` — when `DeleteUser` returns, it has removed exactly the
  users it was given, other than `default`, and moved the read deadline of every connection
  bound to one of them into the past;
* `EchoVault.authenticateConnection_iff` — **`AUTH` succeeds exactly for an enabled user
  without password or with a matching password**, binds the connection on success, and
  changes nothing on an error.
-/

import Mathlib.Data.List.GetD
import EchoVault.Acl

set_option relaxedAutoImplicit false
set_option autoImplicit false

namespace EchoVault

/-! ### Users, connections and the ACL -/

/-- `acl.Password`: its type (`plaintext` or `SHA256`) and its value. -/
structure Password where
  passwordType : Bytes
  passwordValue : Bytes
  deriving DecidableEq

instance : Inhabited User := ⟨⟨[], [], [], [], [], [], [], [], []⟩⟩

/-- The `User` of this ACL, whose declaration is not in the source: the fields its functions
read, `Username`, `Enabled`, `NoPassword` and `Passwords`, over the lists `AuthorizeConnection`
reads. -/
structure AclUser extends User where
  username : Bytes
  enabled : Bool
  noPassword : Bool
  passwords : List Password
  deriving DecidableEq, Inhabited

/-- `acl.Connection`: whether the connection is authenticated, and the pointer to its user. -/
structure AclConnection where
  authenticated : Bool
  user : ℕ
  deriving DecidableEq

/-- `acl.ACL` with the heap its pointers point into: `Users`, the `Connections` keyed by the
connection, and the connections whose read deadline `DeleteUser` moved into the past. -/
structure ACL where
  heap : List AclUser
  users : List ℕ
  connections : List (ℕ × AclConnection)
  pastDeadline : List ℕ
  deriving DecidableEq

/-- The methods of `User` that the ACL calls and the source does not contain.  `CreateUser`
names the user it creates, and neither `UpdateUser` nor `Normalise` renames a user. -/
structure UserMethods where
  createUser : Bytes → AclUser
  updateUser : List Bytes → AclUser → AclUser × Option Bytes
  normalise : AclUser → AclUser
  createUser_username : ∀ name, (createUser name).username = name
  updateUser_username : ∀ cmd u, (updateUser cmd u).1.username = u.username
  normalise_username : ∀ u, (normalise u).username = u.username

/-- The name of the user every ACL must keep. -/
def defaultName : Bytes := ascii "default"

/-- The panic of indexing `[i]` into a slice of length `n`. -/
def outOfRange (i n : ℕ) : Bytes :=
  ascii "runtime error: index out of range [" ++ decimal i ++ ascii "] with length " ++ decimal n

/-- The panic of reading a field through a nil pointer. -/
def nilDereference : Bytes := ascii "runtime error: invalid memory address or nil pointer dereference"

/-- `acl.Connections[conn] = c`. -/
def setConnection : List (ℕ × AclConnection) → ℕ → AclConnection → List (ℕ × AclConnection)
  | [], conn, c => [(conn, c)]
  | (k, c') :: conns, conn, c => if k = conn then (conn, c) :: conns else (k, c') :: setConnection conns conn c

@[simp] theorem lookup_setConnection_self (conns : List (ℕ × AclConnection)) (conn : ℕ) (c : AclConnection) :
    (setConnection conns conn c).lookup conn = some c := by
  induction conns with
  | nil => simp [setConnection, List.lookup_cons]
  | cons e conns ih =>
      obtain ⟨k, c'⟩ := e
      by_cases hk : k = conn
      · simp [setConnection, List.lookup_cons, hk]
      · simp [setConnection, List.lookup_cons, hk, beq_false_of_ne (Ne.symm hk), ih]

theorem lookup_setConnection_ne {other conn : ℕ} (h : other ≠ conn) (conns : List (ℕ × AclConnection))
    (c : AclConnection) : (setConnection conns conn c).lookup other = conns.lookup other := by
  induction conns with
  | nil => simp [setConnection, List.lookup_cons, beq_false_of_ne h]
  | cons e conns ih =>
      obtain ⟨k, c'⟩ := e
      by_cases hk : k = conn
      · subst hk
        simp [setConnection, List.lookup_cons, beq_false_of_ne h]
      · simp only [setConnection, if_neg hk, List.lookup_cons, ih]

namespace ACL

/-- `*p`. -/
def deref (acl : ACL) (p : ℕ) : AclUser := acl.heap.getD p default

/-- `utils.Filter(acl.Users, func(u *User) bool { return u.Username == name })`, the pointers
to the users named `name` in the order of `Users`.  `utils.Filter` is not in the source. -/
def named (acl : ACL) (name : Bytes) : List ℕ := acl.users.filter fun p => (acl.deref p).username = name

/-- The ACL with `conn` bound to the user `p`, authenticated. -/
def bindConnection (acl : ACL) (conn p : ℕ) : ACL :=
  { acl with connections := setConnection acl.connections conn ⟨true, p⟩ }

end ACL

/-! ### The functions -/

/-- `GetPasswordType(password)` of `acl/acl.go`: `strings.Split(password, "")[0] == "#"`, which
indexes an empty slice for the empty password. -/
def getPasswordType : Bytes → Except Bytes Bytes
  | [] => .error (outOfRange 0 0)
  | b :: _ => .ok (if b = charByte '#' then ascii "SHA256" else ascii "plaintext")

/-- What `NewACL` reads of its configuration: `RequirePass` and `Password`. -/
structure AclConfig where
  requirePass : Bool
  password : Bytes
  deriving DecidableEq

/-- `NewACL(config)`, with `loaded` the users decoded from the file `AclConfig` (none without
one): the default user, with the server's password when one is required, goes first unless a
user `default` was loaded, and every user is normalised. -/
def newACL (um : UserMethods) (config : AclConfig) (loaded : List AclUser) : Except Bytes ACL := do
  let created := um.createUser defaultName
  let defaultUser ← if config.requirePass then do
      let passwordType ← getPasswordType config.password
      pure { created with noPassword := false, passwords := [⟨passwordType, config.password⟩] }
    else pure created
  let users := (if loaded.any (·.username = defaultName) then loaded else defaultUser :: loaded).map
    um.normalise
  pure ⟨users, List.range users.length, [], []⟩

namespace ACL

/-- `RegisterConnection(conn)`: bind the connection to the first user `default`,
authenticated when that user has no password. -/
def registerConnection (acl : ACL) (conn : ℕ) : Except Bytes ACL :=
  match acl.named defaultName with
  | [] => .error (outOfRange 0 0)
  | p :: _ => .ok { acl with connections := setConnection acl.connections conn ⟨(acl.deref p).noPassword, p⟩ }

/-- `SetUser(cmd)`: update the first user named `cmd[0]` in place, or create, update and
normalise a new one and append it unless its update fails. -/
def setUser (um : UserMethods) (acl : ACL) : List Bytes → Except Bytes (Option Bytes × ACL)
  | [] => .error (outOfRange 0 0)
  | cmd@(name :: _) =>
    match acl.users.find? fun p => (acl.deref p).username = name with
    | some p =>
      let (u, err) := um.updateUser cmd (acl.deref p)
      .ok (err, { acl with heap := acl.heap.set p u })
    | none =>
      match um.updateUser cmd (um.createUser name) with
      | (_, some e) => .ok (some e, acl)
      | (u, none) => .ok (none, { acl with heap := acl.heap ++ [um.normalise u],
                                           users := acl.users ++ [acl.heap.length] })

/-- The inner loop of `DeleteUser`: `user` becomes the last user named `username`, and stays as
it was when there is none. -/
def lastNamed (acl : ACL) (username : Bytes) (user : Option ℕ) : Option ℕ :=
  acl.users.foldl (fun user p => if username = (acl.deref p).username then some p else user) user

/-- The loop of `DeleteUser` over the connections: the read deadline of every connection bound
to a user named `name` is moved into the past. -/
def expireConnections (acl : ACL) (name : Bytes) : ACL :=
  { acl with pastDeadline := acl.pastDeadline ++
      (acl.connections.filter fun e => (acl.deref e.2.user).username = name).map (·.1) }

/-- The outer loop of `DeleteUser`, with the variable `user` it carries from one name to the
next: `default` is skipped; `user.Username` is read, a nil dereference while no name has been
found; a name not found is skipped; a name found has its connections expired and its users
removed. -/
def deleteUsers (acl : ACL) (user : Option ℕ) : List Bytes → Except Bytes ACL
  | [] => .ok acl
  | username :: usernames =>
    if username = defaultName then acl.deleteUsers user usernames
    else
      match acl.lastNamed username user with
      | none => .error nilDereference
      | some p =>
        let name := (acl.deref p).username
        if username ≠ name then acl.deleteUsers (some p) usernames
        else
          let acl := acl.expireConnections name
          ({ acl with users := acl.users.filter fun q => (acl.deref q).username ≠ name }).deleteUsers
            (some p) usernames

/-- `DeleteUser(usernames)`. -/
def deleteUser (acl : ACL) (usernames : List Bytes) : Except Bytes ACL := acl.deleteUsers none usernames

/-- The passwords `AUTH` offers for `password`: itself as `plaintext`, and the bytes of its
SHA-256 digest as `SHA256`. -/
def offered (sha256 : Bytes → Bytes) (password : Bytes) : List (String × Bytes) :=
  [("plaintext", password), ("SHA256", sha256 password)]

/-- The passwords and the user `AuthenticateConnection` selects, or the error it returns: for
`AUTH password` the first user `default`, which `utils.Filter(...)[0]` indexes; for
`AUTH username password` the first user named `username`; for any other length no passwords and
the nil user. -/
def authSelection (sha256 : Bytes → Bytes) (acl : ACL) :
    List Bytes → Except Bytes (Except Bytes (List (String × Bytes) × Option ℕ))
  | [_, password] =>
    match acl.named defaultName with
    | [] => .error (outOfRange 0 0)
    | p :: _ => .ok (.ok (offered sha256 password, some p))
  | [_, username, password] =>
    match acl.users.find? fun p => (acl.deref p).username = username with
    | none => .ok (.error (ascii "no user with username " ++ username))
    | some p => .ok (.ok (offered sha256 password, some p))
  | _ => .ok (.ok ([], none))

/-- The checks of `AuthenticateConnection` on the selected user `p`: enabled, then
`NoPassword`, then some password of the user whose type equals an offered one up to case and
whose value equals it. -/
def authenticateAs (acl : ACL) (conn : ℕ) (passwords : List (String × Bytes)) (p : ℕ) :
    Option Bytes × ACL :=
  let user := acl.deref p
  if !user.enabled then (some (ascii "user " ++ user.username ++ ascii " is disabled"), acl)
  else if user.noPassword then (none, acl.bindConnection conn p)
  else if user.passwords.any (fun up => passwords.any fun pw =>
      equalFold up.passwordType pw.1 && up.passwordValue == pw.2 && user.enabled) then
    (none, acl.bindConnection conn p)
  else (some (ascii "could not authenticate user"), acl)

/-- `AuthenticateConnection(conn, cmd)`. -/
def authenticateConnection (sha256 : Bytes → Bytes) (acl : ACL) (conn : ℕ) (cmd : List Bytes) :
    Except Bytes (Option Bytes × ACL) :=
  match acl.authSelection sha256 cmd with
  | .error e => .error e
  | .ok (.error e) => .ok (some e, acl)
  | .ok (.ok (_, none)) => .error nilDereference
  | .ok (.ok (passwords, some p)) => .ok (acl.authenticateAs conn passwords p)

end ACL

/-! ### The heap of users -/

namespace ACL

variable {acl : ACL}

theorem deref_set_username {p q : ℕ} {u : AclUser} (hu : u.username = (acl.deref p).username) :
    ((acl.heap.set p u).getD q default).username = (acl.deref q).username := by
  by_cases hq : p = q
  · subst hq
    by_cases hp : p < acl.heap.length
    · rw [List.getD_eq_getElem _ _ (by simpa using hp), List.getElem_set_self, hu]
    · rw [List.set_eq_of_length_le (by omega)]; rfl
  · simp only [deref, List.getD_eq_getElem?_getD, List.getElem?_set_ne hq]

theorem deref_append {p : ℕ} (hp : p < acl.heap.length) (u : AclUser) :
    (acl.heap ++ [u]).getD p default = acl.deref p := by
  simp only [deref, List.getD_eq_getElem?_getD, List.getElem?_append_left hp]

/-- With a user `default`, `utils.Filter` of the users named `default` is not empty. -/
theorem named_default_cons (hdef : ∃ p ∈ acl.users, (acl.deref p).username = defaultName) :
    ∃ q qs, acl.named defaultName = q :: qs := by
  obtain ⟨p, hp, hd⟩ := hdef
  exact List.exists_cons_of_ne_nil (List.ne_nil_of_mem (List.mem_filter.2 ⟨hp, by simpa using hd⟩))

/-- `user` after the inner loop of `DeleteUser` over `ps`, when no user there is named
`username`: as it was. -/
theorem foldl_lastNamed_of_forall (f : ℕ → Bytes) (username : Bytes) :
    ∀ (ps : List ℕ) (user : Option ℕ), (∀ q ∈ ps, f q ≠ username) →
      ps.foldl (fun user p => if username = f p then some p else user) user = user
  | [], _, _ => rfl
  | q :: ps, user, h => by
      simp only [List.foldl_cons, if_neg (h q (List.mem_cons_self _ _)).symm]
      exact foldl_lastNamed_of_forall f username ps user fun q' hq' => h q' (List.mem_cons_of_mem _ hq')

/-- `user` after the inner loop of `DeleteUser` over `ps`, when some user there is named
`username`: a user so named. -/
theorem foldl_lastNamed_of_exists (f : ℕ → Bytes) (username : Bytes) :
    ∀ (ps : List ℕ) (user : Option ℕ), (∃ q ∈ ps, f q = username) →
      ∃ p, ps.foldl (fun user p => if username = f p then some p else user) user = some p ∧
        f p = username
  | [], _, ⟨_, hq, _⟩ => absurd hq (List.not_mem_nil _)
  | q :: ps, user, ⟨q', hq', hf⟩ => by
      by_cases hrest : ∃ q' ∈ ps, f q' = username
      · exact foldl_lastNamed_of_exists f username ps _ hrest
      · obtain rfl : q' = q := (List.mem_cons.1 hq').resolve_right fun h => hrest ⟨q', h, hf⟩
        push_neg at hrest
        exact ⟨q', by rw [List.foldl_cons, if_pos hf.symm, foldl_lastNamed_of_forall f username ps _ hrest],
          hf⟩

end ACL

/-! ### `DeleteUser` -/

namespace ACL

@[simp] theorem expireConnections_heap (acl : ACL) (name : Bytes) :
    (acl.expireConnections name).heap = acl.heap := rfl

@[simp] theorem expireConnections_users (acl : ACL) (name : Bytes) :
    (acl.expireConnections name).users = acl.users := rfl

@[simp] theorem expireConnections_connections (acl : ACL) (name : Bytes) :
    (acl.expireConnections name).connections = acl.connections := rfl

/-- A user survives `DeleteUser usernames` when it is `default` or not among `usernames`. -/
def Kept (acl : ACL) (usernames : List Bytes) (q : ℕ) : Prop :=
  (acl.deref q).username = defaultName ∨ (acl.deref q).username ∉ usernames

instance (acl : ACL) (usernames : List Bytes) (q : ℕ) : Decidable (acl.Kept usernames q) :=
  inferInstanceAs (Decidable (_ ∨ _))

theorem kept_cons_default {acl : ACL} {usernames : List Bytes} {q : ℕ} :
    acl.Kept (defaultName :: usernames) q ↔ acl.Kept usernames q := by
  by_cases hq : (acl.deref q).username = defaultName <;> simp [Kept, hq]

theorem kept_cons_of_ne {acl : ACL} {username : Bytes} {usernames : List Bytes} {q : ℕ}
    (hq : (acl.deref q).username ≠ username) :
    acl.Kept (username :: usernames) q ↔ acl.Kept usernames q := by
  simp [Kept, hq]

theorem kept_cons {acl : ACL} {username : Bytes} {usernames : List Bytes} {q : ℕ}
    (hu : username ≠ defaultName) :
    acl.Kept (username :: usernames) q ↔ (acl.deref q).username ≠ username ∧ acl.Kept usernames q := by
  by_cases hq : (acl.deref q).username = defaultName
  · simp [Kept, hq, Ne.symm hu]
  · simp [Kept, hq, and_comm]

/-- When the inner loop of `DeleteUser` ends on a user not named `username`, no user is. -/
theorem lastNamed_ne {acl : ACL} {username : Bytes} {user : Option ℕ} {p : ℕ}
    (h : acl.lastNamed username user = some p) (hne : username ≠ (acl.deref p).username) :
    ∀ q ∈ acl.users, (acl.deref q).username ≠ username := by
  intro q hq hqn
  obtain ⟨p', hp', hpn⟩ := foldl_lastNamed_of_exists (fun p => (acl.deref p).username) username
    acl.users user ⟨q, hq, hqn⟩
  rw [lastNamed, hp'] at h
  cases h
  exact hne hpn.symm

/-- **What `DeleteUser` does when it returns**, from any value of its variable `user`: the
users it keeps are those that are `default` or not among `usernames`, in their order; the heap
and the connections are as they were; and every connection bound to a user it removed has its
read deadline in the past. -/
theorem deleteUsers_eq_ok : ∀ (usernames : List Bytes) (acl : ACL) (user : Option ℕ) {acl' : ACL},
    acl.deleteUsers user usernames = .ok acl' →
      acl'.heap = acl.heap ∧ acl'.connections = acl.connections ∧
      acl'.users = acl.users.filter (fun q => acl.Kept usernames q) ∧
      acl.pastDeadline <+: acl'.pastDeadline ∧
      ∀ e ∈ acl.connections, e.2.user ∈ acl.users → e.2.user ∉ acl'.users → e.1 ∈ acl'.pastDeadline
  | [], acl, _, acl', h => by
      cases h
      refine ⟨rfl, rfl, ?_, List.prefix_refl _, fun e _ h₁ h₂ => absurd h₁ h₂⟩
      exact (List.filter_eq_self.2 fun q _ => by simp [Kept]).symm
  | username :: usernames, acl, user, acl', h => by
      simp only [deleteUsers] at h
      split at h
      · -- `default` is skipped
        rename_i hdef
        subst hdef
        obtain ⟨hh, hc, hu, hp, he⟩ := deleteUsers_eq_ok usernames acl user h
        exact ⟨hh, hc, hu.trans (List.filter_congr fun q _ => decide_eq_decide.2 kept_cons_default.symm),
          hp, he⟩
      rename_i hdef
      split at h
      · cases h
      rename_i p hlast
      split at h
      · -- no user is named `username`: it is skipped
        rename_i hne
        have hnone := lastNamed_ne hlast hne
        obtain ⟨hh, hc, hu, hp, he⟩ := deleteUsers_eq_ok usernames acl (some p) h
        exact ⟨hh, hc, hu.trans (List.filter_congr fun q hq =>
          decide_eq_decide.2 (kept_cons_of_ne (hnone q hq)).symm), hp, he⟩
      · -- the users named `username` are removed, and their connections expired
        rename_i heq
        push_neg at heq
        subst heq
        obtain ⟨hh, hc, hu, hp, he⟩ := deleteUsers_eq_ok usernames _ (some p) h
        simp only [expireConnections_heap, expireConnections_connections,
          expireConnections_users] at hh hc hu hp he
        refine ⟨hh, hc, ?_, (List.prefix_append _ _).trans hp, fun e he₀ hu₀ hu' => ?_⟩
        · rw [hu, List.filter_filter]
          refine List.filter_congr fun q _ => ?_
          show (decide (acl.Kept usernames q) && decide ((acl.deref q).username ≠ (acl.deref p).username)) =
            decide (acl.Kept ((acl.deref p).username :: usernames) q)
          rw [decide_eq_decide.2 (kept_cons hdef), Bool.decide_and, Bool.and_comm]
        · by_cases hn : (acl.deref e.2.user).username = (acl.deref p).username
          · refine hp.subset (List.mem_append_right _ (List.mem_map.2 ⟨e, ?_, rfl⟩))
            exact List.mem_filter.2 ⟨he₀, by simpa using hn⟩
          · exact he e he₀ (List.mem_filter.2 ⟨hu₀, by simpa using hn⟩) hu'

end ACL

/-- **`DeleteUser` of a name no user has dereferences its nil `user`**: on the ACL that
`NewACL` builds without a password and without a file, whatever the methods of `User`,
`DeleteUser(["ghost"])` reads `user.Username` before any user was found. -/
theorem deleteUser_unknown_panics (um : UserMethods) :
    (newACL um ⟨false, []⟩ [] >>= fun acl => acl.deleteUser [ascii "ghost"]) = .error nilDereference := by
  have hname : (um.normalise (um.createUser defaultName)).username = defaultName := by
    rw [um.normalise_username, um.createUser_username]
  have hghost : ascii "ghost" ≠ defaultName := by decide
  have hrange : List.range 1 = [0] := rfl
  simp [newACL, ACL.deleteUser, ACL.deleteUsers, ACL.lastNamed, ACL.deref, hname, hghost, hrange]

/-! ### A user `default` in every reachable ACL -/

namespace ACL

/-- What every reachable ACL satisfies: a user `default` is in `Users`, and every pointer in
`Users` points to an allocated user. -/
structure Sound (acl : ACL) : Prop where
  hasDefault : ∃ p ∈ acl.users, (acl.deref p).username = defaultName
  allocated : ∀ p ∈ acl.users, p < acl.heap.length

variable {um : UserMethods} {acl acl' : ACL}

/-- An ACL with the same heap and users is sound as well. -/
theorem Sound.of_users (hs : acl.Sound) (hh : acl'.heap = acl.heap) (hu : acl'.users = acl.users) :
    acl'.Sound := by
  obtain ⟨⟨p, hp, hd⟩, ha⟩ := hs
  exact ⟨⟨p, hu ▸ hp, by rw [deref, hh]; exact hd⟩, fun q hq => hh ▸ ha q (hu ▸ hq)⟩

end ACL

/-- The ACL of `NewACL`: a user named `default` first unless one was loaded, and all of them
normalised. -/
theorem newACL_eq_ok {um : UserMethods} {config : AclConfig} {loaded : List AclUser} {acl : ACL}
    (h : newACL um config loaded = .ok acl) :
    ∃ d : AclUser, d.username = defaultName ∧
      acl.heap = (if loaded.any (·.username = defaultName) then loaded else d :: loaded).map um.normalise ∧
      acl.users = List.range acl.heap.length := by
  have hc := um.createUser_username defaultName
  cases hr : config.requirePass
  · simp only [newACL, hr, Bool.false_eq_true, if_false] at h
    cases h
    exact ⟨_, hc, rfl, by simp⟩
  · cases ht : getPasswordType config.password with
    | error e => simp [newACL, hr, ht] at h
    | ok t =>
      simp only [newACL, hr, ht, if_true] at h
      cases h
      exact ⟨{ um.createUser defaultName with noPassword := false, passwords := [⟨t, config.password⟩] },
        hc, rfl, by simp⟩

theorem newACL_sound {um : UserMethods} {config : AclConfig} {loaded : List AclUser} {acl : ACL}
    (h : newACL um config loaded = .ok acl) : acl.Sound := by
  obtain ⟨d, hd, hheap, husers⟩ := newACL_eq_ok h
  refine ⟨?_, fun p hp => by simpa [husers] using hp⟩
  have hmem : ∃ u ∈ acl.heap, u.username = defaultName := by
    rw [hheap]
    split
    · rename_i hl
      obtain ⟨u, hu, hun⟩ := List.any_eq_true.1 hl
      exact ⟨um.normalise u, List.mem_map_of_mem _ hu, by simpa [um.normalise_username] using hun⟩
    · exact ⟨um.normalise d, List.mem_map_of_mem _ (List.mem_cons_self _ _), by rw [um.normalise_username, hd]⟩
  obtain ⟨u, hu, hun⟩ := hmem
  obtain ⟨i, hi, rfl⟩ := List.getElem_of_mem hu
  exact ⟨i, by simpa [husers] using hi, by rw [ACL.deref, List.getD_eq_getElem _ _ hi, hun]⟩

namespace ACL

variable {um : UserMethods} {acl acl' : ACL}

/-- `SetUser` keeps a user `default`: it renames no user in place, and only appends. -/
theorem setUser_sound (hs : acl.Sound) {cmd : List Bytes} {err : Option Bytes}
    (h : acl.setUser um cmd = .ok (err, acl')) : acl'.Sound := by
  obtain ⟨⟨q, hq, hd⟩, ha⟩ := hs
  match cmd, h with
  | name :: rest, h =>
    simp only [setUser] at h
    split at h
    · rename_i p _
      cases h
      refine ⟨⟨q, hq, ?_⟩, fun r hr => by simpa using ha r hr⟩
      rw [← hd]
      exact deref_set_username (um.updateUser_username _ _)
    · split at h
      · cases h; exact ⟨⟨q, hq, hd⟩, ha⟩
      · cases h
        refine ⟨⟨q, List.mem_append_left _ hq, by rw [deref, deref_append (ha q hq), hd]⟩, ?_⟩
        intro r hr
        rcases List.mem_append.1 hr with hr | hr
        · simpa using Nat.lt_succ_of_lt (ha r hr)
        · simp_all

/-- A call that changes only the connections keeps the ACL sound. -/
theorem registerConnection_sound (hs : acl.Sound) {conn : ℕ} (h : acl.registerConnection conn = .ok acl') :
    acl'.Sound := by
  simp only [registerConnection] at h
  split at h
  · cases h
  · cases h; exact hs.of_users rfl rfl

theorem authenticateAs_users (conn : ℕ) (passwords : List (String × Bytes)) (p : ℕ) :
    (acl.authenticateAs conn passwords p).2.heap = acl.heap ∧
      (acl.authenticateAs conn passwords p).2.users = acl.users := by
  dsimp only [authenticateAs]
  split_ifs <;> exact ⟨rfl, rfl⟩

theorem authenticateConnection_sound (hs : acl.Sound) {sha256 : Bytes → Bytes} {conn : ℕ}
    {cmd : List Bytes} {err : Option Bytes} (h : acl.authenticateConnection sha256 conn cmd = .ok (err, acl')) :
    acl'.Sound := by
  simp only [authenticateConnection] at h
  split at h
  · cases h
  · cases h; exact hs
  · cases h
  · have h' : (acl.authenticateAs _ _ _).2 = acl' := congrArg Prod.snd (Except.ok.inj h)
    rw [← h']
    exact hs.of_users (authenticateAs_users _ _ _).1 (authenticateAs_users _ _ _).2

theorem deleteUser_sound {acl acl' : ACL} (hs : acl.Sound) {usernames : List Bytes}
    (h : acl.deleteUser usernames = .ok acl') : acl'.Sound := by
  obtain ⟨hh, -, hu, -, -⟩ := deleteUsers_eq_ok usernames acl none h
  obtain ⟨⟨q, hq, hd⟩, ha⟩ := hs
  refine ⟨⟨q, hu ▸ List.mem_filter.2 ⟨hq, by simp [Kept, hd]⟩, by rw [deref, hh]; exact hd⟩, ?_⟩
  intro r hr
  rw [hu] at hr
  exact hh ▸ ha r (List.mem_filter.1 hr).1

end ACL

/-! ### Runs of the ACL -/

/-- A call of the server to the ACL. -/
inductive AclCall where
  | setUser (cmd : List Bytes)
  | deleteUser (usernames : List Bytes)
  | registerConnection (conn : ℕ)
  | authenticateConnection (conn : ℕ) (cmd : List Bytes)
  deriving DecidableEq

/-- The ACL after a call, or the panic; the error a call returns leaves its ACL as it is. -/
def AclCall.apply (um : UserMethods) (sha256 : Bytes → Bytes) : AclCall → ACL → Except Bytes ACL
  | .setUser cmd, acl => (acl.setUser um cmd).map Prod.snd
  | .deleteUser usernames, acl => acl.deleteUser usernames
  | .registerConnection conn, acl => acl.registerConnection conn
  | .authenticateConnection conn cmd, acl => (acl.authenticateConnection sha256 conn cmd).map Prod.snd

namespace ACL

/-- The ACLs that `NewACL` builds, from any configuration and any users loaded from its file,
and that any sequence of calls then leads to. -/
inductive Reachable (um : UserMethods) (sha256 : Bytes → Bytes) : ACL → Prop
  | init (config : AclConfig) (loaded : List AclUser) {acl : ACL} :
      newACL um config loaded = .ok acl → Reachable um sha256 acl
  | step (c : AclCall) {acl acl' : ACL} :
      Reachable um sha256 acl → c.apply um sha256 acl = .ok acl' → Reachable um sha256 acl'

variable {um : UserMethods} {sha256 : Bytes → Bytes}

theorem apply_sound {acl acl' : ACL} (hs : acl.Sound) (c : AclCall)
    (h : c.apply um sha256 acl = .ok acl') : acl'.Sound := by
  cases c with
  | setUser cmd =>
    cases hc : acl.setUser um cmd with
    | error e => simp [AclCall.apply, hc, Except.map] at h
    | ok r =>
      simp only [AclCall.apply, hc, Except.map] at h
      cases h
      exact setUser_sound hs hc
  | deleteUser usernames => exact deleteUser_sound hs h
  | registerConnection conn => exact registerConnection_sound hs h
  | authenticateConnection conn cmd =>
    cases hc : acl.authenticateConnection sha256 conn cmd with
    | error e => simp [AclCall.apply, hc, Except.map] at h
    | ok r =>
      simp only [AclCall.apply, hc, Except.map] at h
      cases h
      exact authenticateConnection_sound hs hc

/-- **Every reachable ACL is sound**: it has a user `default`, and its pointers are allocated. -/
theorem Reachable.sound {acl : ACL} (h : acl.Reachable um sha256) : acl.Sound := by
  induction h with
  | init _ _ hnew => exact newACL_sound hnew
  | step c _ hc ih => exact apply_sound ih c hc

end ACL

/-- **`RegisterConnection` and `AUTH password` find a user `default`** in every reachable ACL:
the ACL has one, `RegisterConnection` returns, and `AuthenticateConnection` with two tokens
returns without a panic. -/
theorem reachable_acl_has_default {um : UserMethods} {sha256 : Bytes → Bytes} {acl : ACL}
    (h : acl.Reachable um sha256) :
    (∃ p ∈ acl.users, (acl.deref p).username = defaultName) ∧
      (∀ conn, ∃ acl', acl.registerConnection conn = .ok acl') ∧
      (∀ conn auth password, ∃ r, acl.authenticateConnection sha256 conn [auth, password] = .ok r) := by
  obtain ⟨q, qs, hqs⟩ := ACL.named_default_cons h.sound.hasDefault
  refine ⟨h.sound.hasDefault, fun conn => ⟨_, by rw [ACL.registerConnection, hqs]⟩,
    fun conn auth password => ?_⟩
  simp [ACL.authenticateConnection, ACL.authSelection, hqs]

/-- Methods for runs of the ACL: `CreateUser` as in `acl/acl.go`, enabled and without
password, `UpdateUser` that changes nothing, and `Normalise` that changes nothing. -/
def plainMethods : UserMethods where
  createUser name := { (default : AclUser) with
    username := name, enabled := true, noPassword := true,
    includedCategories := [wildcard], includedCommands := [wildcard], includedKeys := [wildcard],
    includedReadKeys := [wildcard], includedWriteKeys := [wildcard],
    includedPubSubChannels := [wildcard] }
  updateUser _ u := (u, none)
  normalise u := u
  createUser_username _ := rfl
  updateUser_username _ _ := rfl
  normalise_username _ := rfl

/-- The ACL `NewACL` builds without a password and without a file. -/
def freshACL : ACL := ⟨[plainMethods.createUser defaultName], [0], [], []⟩

theorem fresh_acl_has_default :
    (∃ p ∈ freshACL.users, (freshACL.deref p).username = defaultName) ∧
      (∀ conn, ∃ acl', freshACL.registerConnection conn = .ok acl') ∧
      (∀ conn auth password, ∃ r, freshACL.authenticateConnection id conn [auth, password] = .ok r) :=
  @reachable_acl_has_default plainMethods id freshACL (.init ⟨false, []⟩ [] rfl)

/-! ### `AuthenticateConnection` -/

/-- The user name `AUTH` selects: `default` for `AUTH password`, `username` for
`AUTH username password`. -/
def authUsername (cmd : List Bytes) : Bytes := if cmd.length = 2 then defaultName else cmd.getD 1 []

/-- A password of a user matches `password` as `AUTH` offers it: as `plaintext`, or as its
SHA-256 digest under the type `SHA256`, the type compared up to case. -/
def PasswordMatches (sha256 : Bytes → Bytes) (password : Bytes) (e : Password) : Prop :=
  (equalFold e.passwordType "plaintext" = true ∧ e.passwordValue = password) ∨
    (equalFold e.passwordType "SHA256" = true ∧ e.passwordValue = sha256 password)

namespace ACL

/-- The checks of `AuthenticateConnection` on the selected user, for the passwords `AUTH`
offers: they pass exactly for an enabled user without password or with a matching password,
and then bind the connection; otherwise nothing changes. -/
theorem authenticateAs_offered (acl : ACL) (conn : ℕ) (sha256 : Bytes → Bytes) (password : Bytes)
    (p : ℕ) :
    ((acl.authenticateAs conn (offered sha256 password) p).1 = none ↔
      (acl.deref p).enabled = true ∧ ((acl.deref p).noPassword = true ∨
        ∃ e ∈ (acl.deref p).passwords, PasswordMatches sha256 password e)) ∧
    (acl.authenticateAs conn (offered sha256 password) p).2 =
      if (acl.authenticateAs conn (offered sha256 password) p).1 = none then acl.bindConnection conn p
      else acl := by
  dsimp only [authenticateAs]
  split_ifs <;> simp_all [offered, PasswordMatches]

/-- `AuthenticateConnection` with two or three tokens, on an ACL with a user `default`: the
checks on the first user named as `AUTH` says, or the error that there is none. -/
theorem authenticateConnection_eq (sha256 : Bytes → Bytes) {acl : ACL}
    (hdef : ∃ p ∈ acl.users, (acl.deref p).username = defaultName) (conn : ℕ) {cmd : List Bytes}
    (hlen : cmd.length = 2 ∨ cmd.length = 3) :
    acl.authenticateConnection sha256 conn cmd = match (acl.named (authUsername cmd)).head? with
      | some p => .ok (acl.authenticateAs conn (offered sha256 (cmd.getLastD [])) p)
      | none => .ok (some (ascii "no user with username " ++ cmd.getD 1 []), acl) := by
  rcases hlen with hlen | hlen
  · obtain ⟨a, password, rfl⟩ : ∃ a password, cmd = [a, password] := by
      match cmd, hlen with | [a, password], _ => exact ⟨a, password, rfl⟩
    obtain ⟨q, qs, hqs⟩ := named_default_cons hdef
    simp [authUsername, hqs, authenticateConnection, authSelection]
  · obtain ⟨a, username, password, rfl⟩ : ∃ a username password, cmd = [a, username, password] := by
      match cmd, hlen with | [a, username, password], _ => exact ⟨a, username, password, rfl⟩
    simp only [authUsername, named, List.filter_head?, List.length_cons, List.length_nil]
    cases hf : acl.users.find? fun p => (acl.deref p).username = username <;>
      simp [authenticateConnection, authSelection, hf]

end ACL

/-- **`AUTH` succeeds exactly for an enabled user without password or with a matching
password.**  On an ACL with a user `default`, `AuthenticateConnection` with two or three tokens
returns without a panic; it returns `nil` exactly when the user it selects (the first user
`default`, or the first user named `username`) exists, is enabled, and has no password or a
password that matches the one given, as plaintext or as its SHA-256 digest with the type
compared up to case.  Then `Connections[conn]` is that user, authenticated, every other
connection is as it was, and nothing else changes; on an error nothing changes. -/
theorem authenticateConnection_iff (sha256 : Bytes → Bytes) {acl : ACL}
    (hdef : ∃ p ∈ acl.users, (acl.deref p).username = defaultName) (conn : ℕ) {cmd : List Bytes}
    (hlen : cmd.length = 2 ∨ cmd.length = 3) :
    ∃ err acl', acl.authenticateConnection sha256 conn cmd = .ok (err, acl') ∧
      (err = none ↔ ∃ p, (acl.named (authUsername cmd)).head? = some p ∧
        (acl.deref p).enabled = true ∧ ((acl.deref p).noPassword = true ∨
          ∃ e ∈ (acl.deref p).passwords, PasswordMatches sha256 (cmd.getLastD []) e)) ∧
      (err = none → ∃ p, (acl.named (authUsername cmd)).head? = some p ∧
        acl'.connections.lookup conn = some ⟨true, p⟩ ∧
        (∀ other, other ≠ conn → acl'.connections.lookup other = acl.connections.lookup other) ∧
        acl' = { acl with connections := acl'.connections }) ∧
      (err ≠ none → acl' = acl) := by
  rw [ACL.authenticateConnection_eq sha256 hdef conn hlen]
  cases (acl.named (authUsername cmd)).head? with
  | none => exact ⟨_, _, rfl, by simp, by simp, fun _ => rfl⟩
  | some q =>
    dsimp only
    obtain ⟨hiff, hacl⟩ := ACL.authenticateAs_offered acl conn sha256 (cmd.getLastD []) q
    generalize acl.authenticateAs conn (ACL.offered sha256 (cmd.getLastD [])) q = r at hiff hacl ⊢
    refine ⟨r.1, r.2, rfl, hiff.trans ⟨fun h => ⟨q, rfl, h⟩, fun ⟨p, hp, h⟩ => ?_⟩,
      fun h => ?_, fun h => by rw [hacl, if_neg h]⟩
    · cases hp
      exact h
    · rw [hacl, if_pos h]
      exact ⟨q, rfl, lookup_setConnection_self _ _ _,
        fun other ho => lookup_setConnection_ne ho _ _, rfl⟩

theorem auth_default_on_fresh_acl :
    ∃ err acl', freshACL.authenticateConnection id 7 [ascii "AUTH", ascii "pw"] = .ok (err, acl') ∧
      (err = none ↔ ∃ p, (freshACL.named (authUsername [ascii "AUTH", ascii "pw"])).head? = some p ∧
        (freshACL.deref p).enabled = true ∧ ((freshACL.deref p).noPassword = true ∨
          ∃ e ∈ (freshACL.deref p).passwords,
            PasswordMatches id ([ascii "AUTH", ascii "pw"].getLastD []) e)) ∧
      (err = none → ∃ p, (freshACL.named (authUsername [ascii "AUTH", ascii "pw"])).head? = some p ∧
        acl'.connections.lookup 7 = some ⟨true, p⟩ ∧
        (∀ other, other ≠ 7 → acl'.connections.lookup other = freshACL.connections.lookup other) ∧
        acl' = { freshACL with connections := acl'.connections }) ∧
      (err ≠ none → acl' = freshACL) :=
  @authenticateConnection_iff id freshACL ⟨0, List.mem_singleton_self 0, rfl⟩ 7 [ascii "AUTH", ascii "pw"]
    (.inl rfl)

end EchoVault
