import HyperBackup.Domain
import HyperBackup.Lib.HashMap
import HyperBackup.Lib.Runs

/-!
# Who may use the control server

Users, roles and the roles that users have are tables of the control server.  A login
collects the permissions of the roles of a user and signs them into a token that is
good for a day.  Every other request is checked against the permissions in its token
alone; the tables are not looked at again.

Requests create and delete users and create roles, but none of them gives a role to a
user.  So what anybody may do comes from the roles that were given before the server
started.

A statement on the tables may fail.  Times of rows, lists of users and roles, and the
audit log are left out; so are the session that a logout removes, which nothing reads,
and the routes for agents, which are not guarded.
-/

namespace HyperBackup
namespace Control
namespace Accounts

open Lib

abbrev Permission : Type :=
  String

def permAll : Permission := "*"
def permUsersAll : Permission := "users:*"
def permRolesAll : Permission := "roles:*"

/-- A permission stands for itself; `*` for all, and one that ends in `:*` for those that
start alike. -/
def grants (p : String) (required : Permission) : Bool :=
  if p = permAll then true
  else if p = required then true
  else ":*".toList <:+ p.toList ∧ p.toList.dropLast <+: required.toList

def check (permissions : List String) (required : Permission) : Bool :=
  permissions.any fun p => grants p required

/-- A column of permissions.  A login reads it if it is a list of texts. -/
inductive PermissionsJson
  | texts (permissions : List String)
  | other

structure User where
  userId : Uuid
  username : String
  displayName : String
  email : String
  passwordHash : Option String
  authSource : String
  status : String

structure Role where
  roleId : Uuid
  name : String
  isBuiltin : Bool
  permissions : PermissionsJson

def Role.texts (role : Role) : List String :=
  match role.permissions with
  | .texts permissions => permissions
  | .other => []

/-- The tables with their keys. -/
structure Tables where
  users : List User
  roles : List Role
  userRoles : List (Uuid × Uuid)
  userIds : (users.map User.userId).Nodup
  usernames : (users.map User.username).Nodup
  emails : (users.map User.email).Nodup
  roleIds : (roles.map Role.roleId).Nodup
  roleNames : (roles.map Role.name).Nodup
  references : ∀ row ∈ userRoles,
    row.1 ∈ users.map User.userId ∧ row.2 ∈ roles.map Role.roleId

namespace Tables

/-- No row has this key. -/
def unused {α β : Type} [BEq β] (f : α → β) (rows : List α) (key : β) : Bool :=
  !(rows.map f).contains key

theorem unused_iff {α β : Type} [BEq β] [LawfulBEq β] {f : α → β} {rows : List α} {key : β} :
    unused f rows key = true ↔ key ∉ rows.map f := by
  rw [unused, Bool.not_eq_true', ← Bool.not_eq_true, List.contains_iff_mem]

theorem nodup_append_singleton {α β : Type} [BEq β] [LawfulBEq β] {f : α → β} {rows : List α}
    {row : α} (h : (rows.map f).Nodup) (hnew : unused f rows (f row) = true) :
    ((rows ++ [row]).map f).Nodup := by
  rw [List.map_append, List.map_singleton, ← List.concat_eq_append]
  exact h.concat (unused_iff.mp hnew)

/-- A row whose keys are taken is not inserted. -/
def insertUser (user : User) (t : Tables) : Option Tables :=
  if h : unused User.userId t.users user.userId = true ∧
      unused User.username t.users user.username = true ∧
      unused User.email t.users user.email = true then
    some { t with
      users := t.users ++ [user]
      userIds := nodup_append_singleton t.userIds h.1
      usernames := nodup_append_singleton t.usernames h.2.1
      emails := nodup_append_singleton t.emails h.2.2
      references := by
        intro row hrow
        obtain ⟨huser, hrole⟩ := t.references row hrow
        exact ⟨by rw [List.map_append]; exact List.mem_append_left _ huser, hrole⟩ }
  else none

/-- The roles that a user had go with the user. -/
def deleteUser (userId : Uuid) (t : Tables) : Tables where
  users := t.users.filter fun user => user.userId ≠ userId
  roles := t.roles
  userRoles := t.userRoles.filter fun row => row.1 ≠ userId
  userIds := t.userIds.sublist (List.filter_sublist.map _)
  usernames := t.usernames.sublist (List.filter_sublist.map _)
  emails := t.emails.sublist (List.filter_sublist.map _)
  roleIds := t.roleIds
  roleNames := t.roleNames
  references := by
    intro row hrow
    obtain ⟨hrow, hkept⟩ := List.mem_filter.mp hrow
    obtain ⟨huser, hrole⟩ := t.references row hrow
    obtain ⟨user, hmem, heq⟩ := List.mem_map.mp huser
    refine ⟨List.mem_map.mpr ⟨user, List.mem_filter.mpr ⟨hmem, ?_⟩, heq⟩, hrole⟩
    rwa [heq]

def insertRole (role : Role) (t : Tables) : Option Tables :=
  if h : unused Role.roleId t.roles role.roleId = true ∧
      unused Role.name t.roles role.name = true then
    some { t with
      roles := t.roles ++ [role]
      roleIds := nodup_append_singleton t.roleIds h.1
      roleNames := nodup_append_singleton t.roleNames h.2
      references := by
        intro row hrow
        obtain ⟨huser, hrole⟩ := t.references row hrow
        exact ⟨huser, by rw [List.map_append]; exact List.mem_append_left _ hrole⟩ }
  else none

def hasUser (userId : Uuid) (t : Tables) : Prop :=
  userId ∈ t.users.map User.userId

instance (userId : Uuid) (t : Tables) : Decidable (t.hasUser userId) :=
  inferInstanceAs (Decidable (userId ∈ t.users.map User.userId))

/-- The roles that a user has. -/
def rolesOf (userId : Uuid) (t : Tables) : List Role :=
  t.roles.filter fun role => (userId, role.roleId) ∈ t.userRoles

/-- The permissions of the roles that a user has. -/
def permissionsOf (userId : Uuid) (t : Tables) : List String :=
  (t.rolesOf userId).flatMap Role.texts

end Tables

structure Claims where
  userId : String
  username : String
  roles : List String
  mustChangePassword : Bool
  expiresAt : Int
  issuedAt : Int
  subject : String

/-- The libraries for tokens, under the secret of the server, and for passwords. -/
structure Libraries where
  signedString : Claims → String
  parseWithClaims : DateTime → String → Option Claims
  generateFromPassword : Nat → String → Option String
  compareHashAndPassword : String → String → Bool

def second : Int := 1000000000

/-- A time as it stands in a token, in seconds. -/
def newNumericDate (t : DateTime) : Int :=
  t / second

def expiration : Int := 24 * 3600 * second

def claimsOf (now : DateTime) (userId : Uuid) (username : String) (roles : List String)
    (mustChangePassword : Bool) : Claims where
  userId := uuidText userId
  username := username
  roles := roles
  mustChangePassword := mustChangePassword
  expiresAt := newNumericDate (now + expiration)
  issuedAt := newNumericDate now
  subject := uuidText userId

inductive Response
  | badRequest
  | error (status : Nat) (text : String)
  | loggedIn (token : String) (userId : Uuid) (username displayName : String)
      (roles : List String)
  | created (id : Uuid)
  | status (text : String)
  | served

structure LoginRequest where
  username : String
  password : String

structure CreateUserRequest where
  username : String
  displayName : String
  email : String
  password : String

/-- The body of a request for a new role; a column of permissions must not be missing. -/
structure CreateRoleRequest where
  name : Option String
  permissions : Option PermissionsJson

/-- The routes for accounts, with the body of the request if it can be read and the
identifier that a path stands for; and the other guarded routes, whose handlers have
nothing to do with accounts. -/
inductive Route
  | login (body : Option LoginRequest)
  | logout
  | createUser (body : Option CreateUserRequest)
  | updateUser
  | deleteUser (id : Option Uuid)
  | createRole (body : Option CreateRoleRequest)
  | updateRole
  | other (required : Permission)

/-- A request with what its handler meets: the time, which of its statements fail, the
order of the rows, and what it draws. -/
structure Event where
  now : DateTime
  authorization : String
  route : Route
  fails : Nat → Bool
  order : IterOrder Role
  salt : Nat
  newId : Uuid

section Server

variable (lib : Libraries)

def generate (now : DateTime) (userId : Uuid) (username : String) (roles : List String) :
    String :=
  lib.signedString (claimsOf now userId username roles false)

def jwtAuthMiddleware (now : DateTime) (header : String) : Except Response Claims :=
  if header = "" then .error (.error 401 "missing authorization header")
  else if ¬"Bearer ".toList <+: header.toList then
    .error (.error 401 "invalid authorization scheme")
  else
    match lib.parseWithClaims now (String.ofList (header.toList.drop 7)) with
    | none => .error (.error 401 "invalid token")
    | some claims => .ok claims

def rbacMiddleware (required : Permission) (claims : Claims) : Except Response Claims :=
  if check claims.roles required then .ok claims
  else .error (.error 403 "insufficient permissions")

/-- The checks before the handler of a route. -/
def guard (now : DateTime) (header : String) (required : Permission) :
    Except Response Claims :=
  (jwtAuthMiddleware lib now header).bind (rbacMiddleware required)

def bindLogin (body : Option LoginRequest) : Option LoginRequest :=
  body.filter fun req => req.username ≠ "" ∧ req.password ≠ ""

/-- Only users of the server itself have to know their password.  A column without a hash
cannot be read. -/
def checkPassword (user : User) (password : String) : Bool :=
  match user.passwordHash with
  | none => false
  | some hash =>
      user.authSource ≠ "local" ∨ hash ≠ "" ∧ lib.compareHashAndPassword hash password

def findUser (e : Event) (username : String) (t : Tables) : Option User :=
  if e.fails 0 then none else t.users.find? fun user => user.username = username

def login (e : Event) (body : Option LoginRequest) (t : Tables) : Response :=
  match bindLogin body with
  | none => .badRequest
  | some req =>
      match findUser e req.username t with
      | none => .error 401 "invalid credentials"
      | some user =>
          if user.passwordHash = none then .error 401 "invalid credentials"
          else if user.status ≠ "active" then .error 403 "account disabled"
          else if ¬checkPassword lib user req.password then .error 401 "invalid credentials"
          else if e.fails 1 then .error 500 "query roles failed"
          else
            let permissions := (e.order.arrange (t.rolesOf user.userId)).flatMap Role.texts
            .loggedIn (generate lib e.now user.userId req.username permissions) user.userId
              req.username user.displayName permissions

def logout (e : Event) : Response :=
  match jwtAuthMiddleware lib e.now e.authorization with
  | .error response => response
  | .ok _ => .status "logged out"

def createUser (e : Event) (body : Option CreateUserRequest) (t : Tables) :
    Response × Tables :=
  match body.filter fun req =>
      req.username ≠ "" ∧ req.displayName ≠ "" ∧ req.email ≠ "" ∧ req.password ≠ "" with
  | none => (.badRequest, t)
  | some req =>
      match lib.generateFromPassword e.salt req.password with
      | none => (.error 500 "hash password failed", t)
      | some hash =>
          let user : User :=
            { userId := e.newId, username := req.username, displayName := req.displayName,
              email := req.email, passwordHash := some hash, authSource := "local",
              status := "active" }
          match if e.fails 0 then none else t.insertUser user with
          | none => (.error 500 "create user failed", t)
          | some t' => (.created e.newId, t')

def deleteUser (e : Event) (id : Option Uuid) (t : Tables) : Response × Tables :=
  match if e.fails 0 then none else id with
  | none => (.error 500 "delete user failed", t)
  | some userId => (.status "deleted", t.deleteUser userId)

def createRole (e : Event) (body : Option CreateRoleRequest) (t : Tables) :
    Response × Tables :=
  match body with
  | none => (.badRequest, t)
  | some req =>
      match req.permissions with
      | none => (.error 500 "create role failed", t)
      | some permissions =>
          let role : Role :=
            { roleId := e.newId, name := req.name.getD "", isBuiltin := false,
              permissions := permissions }
          match if e.fails 0 then none else t.insertRole role with
          | none => (.error 500 "create role failed", t)
          | some t' => (.created e.newId, t')

/-- A handler behind the checks of its route. -/
def guarded (e : Event) (required : Permission) (handler : Tables → Response × Tables)
    (t : Tables) : Response × Tables :=
  match guard lib e.now e.authorization required with
  | .error response => (response, t)
  | .ok _ => handler t

def serve (t : Tables) (e : Event) : Response × Tables :=
  match e.route with
  | .login body => (login lib e body t, t)
  | .logout => (logout lib e, t)
  | .createUser body => guarded lib e permUsersAll (createUser lib e body) t
  | .updateUser => guarded lib e permUsersAll (fun t => (.status "updated", t)) t
  | .deleteUser id => guarded lib e permUsersAll (deleteUser e id) t
  | .createRole body => guarded lib e permRolesAll (createRole e body) t
  | .updateRole => guarded lib e permRolesAll (fun t => (.status "updated", t)) t
  | .other required => guarded lib e required (fun t => (.served, t)) t

def step (t : Tables) (e : Event) : Tables :=
  (serve lib t e).2

/-- The tables after the requests of a run. -/
def after (t : Tables) (es : List Event) : Tables :=
  es.foldl (step lib) t

/-- The user is in the table all the time. -/
def Stays (userId : Uuid) (t : Tables) (es : List Event) : Prop :=
  ∀ before, before <+: es → (after lib t before).hasUser userId

/-- A request that logs a user in and gets the token. -/
def HandsOut (t : Tables) (login : Event) (token : String) (userId : Uuid) : Prop :=
  ∃ username displayName roles,
    (serve lib t login).1 = .loggedIn token userId username displayName roles

/-- Every token that is accepted in the run was handed out before. -/
def Unforged (t : Tables) (es : List Event) : Prop :=
  ∀ before e later, es = before ++ e :: later →
    ∀ token claims, e.authorization = "Bearer " ++ token →
      lib.parseWithClaims e.now token = some claims →
      ∃ earlier login rest userId, before = earlier ++ login :: rest ∧
        HandsOut lib (after lib t earlier) login token userId

/-- The checks let a request through. -/
def Passes (now : DateTime) (header : String) (required : Permission) : Prop :=
  ∃ claims, guard lib now header required = .ok claims

/-- The token of the request was handed out, less than a day ago, to a user who was there
from the start and had a permission for it then. -/
def Entitled (t : Tables) (before : List Event) (now : DateTime) (header : String)
    (required : Permission) : Prop :=
  ∃ earlier login rest token userId,
    before = earlier ++ login :: rest ∧ header = "Bearer " ++ token ∧
    HandsOut lib (after lib t earlier) login token userId ∧
    now < newNumericDate (login.now + expiration) * second ∧
    Stays lib userId t earlier ∧ check (t.permissionsOf userId) required = true

end Server

/-- The library accepts what it signed until the time in it, and reads back what is in it. -/
def Libraries.ReadsBack (lib : Libraries) : Prop :=
  ∀ (now : DateTime) (claims : Claims),
    lib.parseWithClaims now (lib.signedString claims) =
      if now < claims.expiresAt * second then some claims else none

section Roles

variable {t t' : Tables} {userId : Uuid}

theorem check_eq_true_iff {permissions : List String} {required : Permission} :
    check permissions required = true ↔ ∃ p ∈ permissions, grants p required = true := by
  rw [check, List.any_eq_true]

theorem check_arrange (order : IterOrder Role) (roles : List Role) (required : Permission) :
    check ((order.arrange roles).flatMap Role.texts) required =
      check (roles.flatMap Role.texts) required := by
  rw [Bool.eq_iff_iff, check_eq_true_iff, check_eq_true_iff]
  simp only [List.mem_flatMap, IterOrder.mem_arrange]

@[simp] theorem check_nil (required : Permission) : check [] required = false := rfl

theorem rolesOf_eq_nil (h : ¬t.hasUser userId) : t.rolesOf userId = [] := by
  refine List.filter_eq_nil_iff.mpr ?_
  intro role hrole hrow
  exact h (t.references _ (of_decide_eq_true hrow)).1

theorem insertUser_roles {user : User} (h : t.insertUser user = some t') :
    t'.roles = t.roles := by
  unfold Tables.insertUser at h
  split at h
  · cases h
    rfl
  · cases h

theorem insertRole_users {role : Role} (h : t.insertRole role = some t') :
    t'.users = t.users ∧ t'.userRoles = t.userRoles := by
  unfold Tables.insertRole at h
  split at h
  · cases h
    exact ⟨rfl, rfl⟩
  · cases h

theorem rolesOf_insertUser {user : User} (h : t.insertUser user = some t') :
    t'.rolesOf userId = t.rolesOf userId := by
  unfold Tables.insertUser at h
  split at h
  · cases h
    rfl
  · cases h

theorem rolesOf_insertRole {role : Role} (h : t.insertRole role = some t') :
    t'.rolesOf userId = t.rolesOf userId := by
  unfold Tables.insertRole at h
  split at h
  case isTrue hnew =>
    cases h
    -- nobody can have had a role that was not there
    have hnone : (userId, role.roleId) ∉ t.userRoles := fun hrow =>
      Tables.unused_iff.mp hnew.1 (t.references _ hrow).2
    simp [Tables.rolesOf, hnone]
  case isFalse =>
    cases h

theorem rolesOf_deleteUser {deleted : Uuid} (h : userId ≠ deleted) :
    (t.deleteUser deleted).rolesOf userId = t.rolesOf userId := by
  refine List.filter_congr ?_
  intro role hrole
  simp [Tables.deleteUser, h]

end Roles

section Steps

variable (lib : Libraries) {t : Tables} {e : Event} {userId : Uuid}

theorem guard_error {now : DateTime} {header : String} {required : Permission}
    {response : Response} (h : guard lib now header required = .error response) :
    ∃ status text, response = .error status text := by
  unfold guard jwtAuthMiddleware at h
  split at h
  · cases h
    exact ⟨_, _, rfl⟩
  split at h
  · cases h
    exact ⟨_, _, rfl⟩
  split at h
  · cases h
    exact ⟨_, _, rfl⟩
  · rw [Except.bind, rbacMiddleware] at h
    split at h
    · cases h
    · cases h
      exact ⟨_, _, rfl⟩

/-- A request is refused, or let through to its handler. -/
theorem guarded_cases (e : Event) (required : Permission)
    (handler : Tables → Response × Tables) (t : Tables) :
    (∃ status text, guarded lib e required handler t = (.error status text, t)) ∨
      (Passes lib e.now e.authorization required ∧
        guarded lib e required handler t = handler t) := by
  cases hguard : guard lib e.now e.authorization required with
  | error response =>
      obtain ⟨status, text, rfl⟩ := guard_error lib hguard
      exact Or.inl ⟨status, text, by rw [guarded, hguard]⟩
  | ok claims =>
      exact Or.inr ⟨⟨claims, hguard⟩, by rw [guarded, hguard]⟩

theorem createUser_cases (e : Event) (body : Option CreateUserRequest) (t : Tables) :
    (createUser lib e body t).2 = t ∨
      ∃ user, t.insertUser user = some (createUser lib e body t).2 := by
  unfold createUser
  split
  · exact Or.inl rfl
  split
  · exact Or.inl rfl
  dsimp only
  split
  · exact Or.inl rfl
  case h_2 t' hinsert =>
    right
    split at hinsert
    · cases hinsert
    · exact ⟨_, hinsert⟩

theorem deleteUser_cases (e : Event) (id : Option Uuid) (t : Tables) :
    (deleteUser e id t).2 = t ∨ ∃ userId, (deleteUser e id t).2 = t.deleteUser userId := by
  unfold deleteUser
  split
  · exact Or.inl rfl
  · exact Or.inr ⟨_, rfl⟩

theorem createRole_cases (e : Event) (body : Option CreateRoleRequest) (t : Tables) :
    (createRole e body t).2 = t ∨
      ∃ role, t.insertRole role = some (createRole e body t).2 := by
  unfold createRole
  split
  · exact Or.inl rfl
  split
  · exact Or.inl rfl
  dsimp only
  split
  · exact Or.inl rfl
  case h_2 t' hinsert =>
    right
    split at hinsert
    · cases hinsert
    · exact ⟨_, hinsert⟩

/-- What a request does to the tables, and what it has to be let through for. -/
theorem step_cases (t : Tables) (e : Event) :
    step lib t e = t ∨
      (Passes lib e.now e.authorization permUsersAll ∧
        ((∃ user, t.insertUser user = some (step lib t e)) ∨
          ∃ userId, step lib t e = t.deleteUser userId)) ∨
      (Passes lib e.now e.authorization permRolesAll ∧
        ∃ role, t.insertRole role = some (step lib t e)) := by
  unfold step serve
  cases e.route with
  | login body =>
      exact Or.inl rfl
  | logout =>
      exact Or.inl rfl
  | createUser body =>
      dsimp only
      rcases guarded_cases lib e permUsersAll (createUser lib e body) t with
        ⟨status, text, heq⟩ | ⟨hpass, heq⟩
      · exact Or.inl (by rw [heq])
      · rw [heq]
        rcases createUser_cases lib e body t with hsame | hnew
        · exact Or.inl hsame
        · exact Or.inr (Or.inl ⟨hpass, Or.inl hnew⟩)
  | deleteUser id =>
      dsimp only
      rcases guarded_cases lib e permUsersAll (deleteUser e id) t with
        ⟨status, text, heq⟩ | ⟨hpass, heq⟩
      · exact Or.inl (by rw [heq])
      · rw [heq]
        rcases deleteUser_cases e id t with hsame | hgone
        · exact Or.inl hsame
        · exact Or.inr (Or.inl ⟨hpass, Or.inr hgone⟩)
  | createRole body =>
      dsimp only
      rcases guarded_cases lib e permRolesAll (createRole e body) t with
        ⟨status, text, heq⟩ | ⟨hpass, heq⟩
      · exact Or.inl (by rw [heq])
      · rw [heq]
        rcases createRole_cases e body t with hsame | hnew
        · exact Or.inl hsame
        · exact Or.inr (Or.inr ⟨hpass, hnew⟩)
  | updateUser | updateRole | other required =>
      left
      dsimp only
      rcases guarded_cases lib e _ (fun t => (_, t)) t with ⟨status, text, heq⟩ | ⟨-, heq⟩
      all_goals rw [heq]

/-- A user in the table has the same roles as before the request. -/
theorem rolesOf_step (t : Tables) (e : Event) (userId : Uuid) :
    (step lib t e).rolesOf userId =
      if (step lib t e).hasUser userId then t.rolesOf userId else [] := by
  split
  case isFalse hgone =>
    exact rolesOf_eq_nil hgone
  case isTrue hthere =>
    rcases step_cases lib t e with
      heq | ⟨-, ⟨user, heq⟩ | ⟨deleted, heq⟩⟩ | ⟨-, role, heq⟩
    · rw [heq]
    · exact rolesOf_insertUser heq
    · rw [heq] at hthere ⊢
      refine rolesOf_deleteUser ?_
      rintro rfl
      obtain ⟨user, hmem, huser⟩ := List.mem_map.mp hthere
      exact of_decide_eq_true (List.mem_filter.mp hmem).2 huser
    · exact rolesOf_insertRole heq

theorem after_concat (t : Tables) (es : List Event) (e : Event) :
    after lib t (es ++ [e]) = step lib (after lib t es) e := by
  rw [after, List.foldl_append]
  rfl

theorem stays_concat_iff {es : List Event} :
    Stays lib userId t (es ++ [e]) ↔
      Stays lib userId t es ∧ (after lib t (es ++ [e])).hasUser userId := by
  constructor
  · intro h
    exact ⟨fun before hbefore => h before (hbefore.trans (List.prefix_append _ _)),
      h _ (List.prefix_refl _)⟩
  · rintro ⟨hbefore, hlast⟩ before hprefix
    rcases List.prefix_concat_iff.mp hprefix with rfl | hprefix
    · exact hlast
    · exact hbefore before hprefix

/-- Nobody is given a role: after any run a user has the roles from the start, if the user
has been there all the time, and none otherwise. -/
theorem rolesOf_after (t : Tables) (es : List Event) (userId : Uuid) :
    (Stays lib userId t es → (after lib t es).rolesOf userId = t.rolesOf userId) ∧
      (¬Stays lib userId t es → (after lib t es).rolesOf userId = []) := by
  induction es using List.reverseRecOn with
  | nil =>
      refine ⟨fun _ => rfl, fun h => rolesOf_eq_nil fun hthere => h ?_⟩
      intro before hbefore
      rwa [List.prefix_nil.mp hbefore]
  | append_singleton es e ih =>
      rw [stays_concat_iff, after_concat, rolesOf_step]
      constructor
      · rintro ⟨hstays, hthere⟩
        rw [if_pos hthere, ih.1 hstays]
      · intro h
        split
        case isFalse => rfl
        case isTrue hthere =>
          exact ih.2 fun hstays => h ⟨hstays, hthere⟩

end Steps

section Logins

variable {lib : Libraries} {t : Tables} {e login : Event} {userId : Uuid} {token : String}

theorem guarded_ne_loggedIn {required : Permission} {handler : Tables → Response × Tables}
    {username displayName : String} {roles : List String}
    (h : (handler t).1 ≠ .loggedIn token userId username displayName roles) :
    (guarded lib e required handler t).1 ≠
      .loggedIn token userId username displayName roles := by
  rcases guarded_cases lib e required handler t with ⟨status, text, heq⟩ | ⟨-, heq⟩
  · rw [heq]
    simp
  · rwa [heq]

/-- What a login puts into the token that it hands out. -/
theorem login_eq_loggedIn {body : Option LoginRequest} {username displayName : String}
    {roles : List String}
    (h : Accounts.login lib e body t = .loggedIn token userId username displayName roles) :
    t.hasUser userId ∧ roles = (e.order.arrange (t.rolesOf userId)).flatMap Role.texts ∧
      token = lib.signedString (claimsOf e.now userId username roles false) := by
  unfold Accounts.login at h
  split at h
  · cases h
  split at h
  · cases h
  case h_2 user hfind =>
    split at h
    · cases h
    split at h
    · cases h
    split at h
    · cases h
    split at h
    · cases h
    · obtain ⟨rfl, rfl, rfl, rfl, rfl⟩ := Response.loggedIn.inj h
      refine ⟨?_, rfl, rfl⟩
      unfold findUser at hfind
      split at hfind
      · cases hfind
      · exact List.mem_map_of_mem (List.mem_of_find?_eq_some hfind)

theorem createUser_ne_loggedIn {body : Option CreateUserRequest} {username displayName : String}
    {roles : List String} :
    (createUser lib e body t).1 ≠ .loggedIn token userId username displayName roles := by
  unfold createUser
  split
  · simp
  split
  · simp
  dsimp only
  split <;> simp

theorem deleteUser_ne_loggedIn {id : Option Uuid} {username displayName : String}
    {roles : List String} :
    (deleteUser e id t).1 ≠ .loggedIn token userId username displayName roles := by
  unfold deleteUser
  split <;> simp

theorem createRole_ne_loggedIn {body : Option CreateRoleRequest} {username displayName : String}
    {roles : List String} :
    (createRole e body t).1 ≠ .loggedIn token userId username displayName roles := by
  unfold createRole
  split
  · simp
  split
  · simp
  dsimp only
  split <;> simp

theorem logout_ne_loggedIn {username displayName : String} {roles : List String} :
    logout lib e ≠ .loggedIn token userId username displayName roles := by
  unfold logout jwtAuthMiddleware
  split
  case h_1 response hguard =>
    split at hguard
    · cases hguard
      simp
    split at hguard
    · cases hguard
      simp
    split at hguard
    · cases hguard
      simp
    · cases hguard
  · simp

/-- A token that is handed out carries the permissions of the roles of the user. -/
theorem HandsOut.spec (h : HandsOut lib t login token userId) :
    t.hasUser userId ∧ ∃ username order, token = lib.signedString
      (claimsOf login.now userId username
        ((IterOrder.arrange order (t.rolesOf userId)).flatMap Role.texts) false) := by
  obtain ⟨username, displayName, roles, h⟩ := h
  unfold serve at h
  cases hroute : login.route with
  | login body =>
      rw [hroute] at h
      obtain ⟨hthere, rfl, rfl⟩ := login_eq_loggedIn h
      exact ⟨hthere, username, login.order, rfl⟩
  | logout =>
      rw [hroute] at h
      exact absurd h logout_ne_loggedIn
  | createUser body =>
      rw [hroute] at h
      exact absurd h (guarded_ne_loggedIn createUser_ne_loggedIn)
  | deleteUser id =>
      rw [hroute] at h
      exact absurd h (guarded_ne_loggedIn deleteUser_ne_loggedIn)
  | createRole body =>
      rw [hroute] at h
      exact absurd h (guarded_ne_loggedIn createRole_ne_loggedIn)
  | updateUser | updateRole | other required =>
      rw [hroute] at h
      exact absurd h (guarded_ne_loggedIn (by simp))

theorem passes_bearer_iff {now : DateTime} {required : Permission} :
    Passes lib now ("Bearer " ++ token) required ↔
      ∃ claims, lib.parseWithClaims now token = some claims ∧
        check claims.roles required = true := by
  have hne : "Bearer " ++ token ≠ "" := by
    simp
  have hstart : "Bearer ".toList <+: ("Bearer " ++ token).toList := by
    rw [String.toList_append]
    exact List.prefix_append _ _
  have htoken : String.ofList (("Bearer " ++ token).toList.drop 7) = token := by
    rw [String.toList_append]
    exact String.ofList_toList
  unfold Passes guard jwtAuthMiddleware
  rw [if_neg hne, if_neg (not_not.mpr hstart), htoken]
  cases lib.parseWithClaims now token with
  | none =>
      simp [Except.bind]
  | some claims =>
      by_cases hcheck : check claims.roles required <;>
        simp [Except.bind, rbacMiddleware, hcheck]

theorem exists_bearer_of_passes {now : DateTime} {header : String} {required : Permission}
    (h : Passes lib now header required) : ∃ token, header = "Bearer " ++ token := by
  obtain ⟨claims, h⟩ := h
  unfold guard jwtAuthMiddleware at h
  split at h
  · cases h
  split at h
  · cases h
  case isFalse hstart =>
    obtain ⟨rest, hrest⟩ := not_not.mp hstart
    have htext : ("Bearer " ++ String.ofList rest).toList = header.toList := by
      rw [String.toList_append, ← hrest]
      exact congrArg ("Bearer ".toList ++ ·) String.toList_ofList
    exact ⟨String.ofList rest, (String.toList_inj.mp htext).symm⟩

/-- A token that was handed out opens what the roles of its user at the start allow, for
less than a day, if the user had been there all the time when it was handed out. -/
theorem passes_handedOut_iff (hlib : lib.ReadsBack) {earlier : List Event}
    (h : HandsOut lib (after lib t earlier) login token userId) {now : DateTime}
    {required : Permission} :
    Passes lib now ("Bearer " ++ token) required ↔
      now < newNumericDate (login.now + expiration) * second ∧
        Stays lib userId t earlier ∧ check (t.permissionsOf userId) required = true := by
  obtain ⟨-, username, order, rfl⟩ := h.spec
  obtain ⟨hkept, hnone⟩ := rolesOf_after lib t earlier userId
  rw [passes_bearer_iff, hlib]
  by_cases htime : now < newNumericDate (login.now + expiration) * second
  · rw [claimsOf, if_pos htime]
    by_cases hstays : Stays lib userId t earlier
    · rw [hkept hstays]
      simp [htime, hstays, check_arrange, Tables.permissionsOf]
    · rw [hnone hstays]
      simp [hstays, check_arrange]
  · rw [claimsOf, if_neg htime]
    simp [htime]

/-- In a run without forged tokens a request is let through exactly if its token was handed
out less than a day ago to a user who was there from the start and had then a role that
allows it. -/
theorem passes_run_iff (hlib : lib.ReadsBack) {es before later : List Event}
    (hunforged : Unforged lib t es) (hes : es = before ++ e :: later)
    (required : Permission) :
    Passes lib e.now e.authorization required ↔
      Entitled lib t before e.now e.authorization required := by
  constructor
  · intro hpass
    obtain ⟨token, hheader⟩ := exists_bearer_of_passes hpass
    rw [hheader] at hpass
    obtain ⟨claims, hparse, -⟩ := passes_bearer_iff.mp hpass
    obtain ⟨earlier, login, rest, userId, hbefore, hout⟩ :=
      hunforged before e later hes token claims hheader hparse
    exact ⟨earlier, login, rest, token, userId, hbefore, hheader, hout,
      (passes_handedOut_iff hlib hout).mp hpass⟩
  · rintro ⟨earlier, login, rest, token, userId, hbefore, hheader, hout, hallowed⟩
    rw [hheader]
    exact (passes_handedOut_iff hlib hout).mpr hallowed

/-- The users and their roles change only for those who had the permission for it at the
start, and so do the roles. -/
theorem entitled_of_changed (hlib : lib.ReadsBack) {es before later : List Event}
    (hunforged : Unforged lib t es) (hes : es = before ++ e :: later) :
    ((step lib (after lib t before) e).users ≠ (after lib t before).users ∨
        (step lib (after lib t before) e).userRoles ≠ (after lib t before).userRoles →
      Entitled lib t before e.now e.authorization permUsersAll) ∧
    ((step lib (after lib t before) e).roles ≠ (after lib t before).roles →
      Entitled lib t before e.now e.authorization permRolesAll) := by
  have hentitled : ∀ required, Passes lib e.now e.authorization required →
      Entitled lib t before e.now e.authorization required :=
    fun required => (passes_run_iff hlib hunforged hes required).mp
  rcases step_cases lib (after lib t before) e with
    heq | ⟨hpass, ⟨user, heq⟩ | ⟨deleted, heq⟩⟩ | ⟨hpass, role, heq⟩
  · rw [heq]
    simp
  · refine ⟨fun _ => hentitled _ hpass, fun hroles => absurd ?_ hroles⟩
    exact insertUser_roles heq
  · refine ⟨fun _ => hentitled _ hpass, fun hroles => absurd ?_ hroles⟩
    rw [heq]
    rfl
  · refine ⟨fun husers => absurd (insertRole_users heq) ?_, fun _ => hentitled _ hpass⟩
    rintro ⟨hsame, hsameRoles⟩
    exact husers.elim (fun h => h hsame) fun h => h hsameRoles

end Logins

end Accounts
end Control
end HyperBackup
