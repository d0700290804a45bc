import Vizra.Audit.Audit
import Vizra.OwnerClaim.Input

/-!
# The tables of the owner claim (migration 0005)

The committed rows of `users`, `credentials`, `owner_claim_tokens` and `audit_events`, and the
constraints a row has to meet. A constraint that fails is an error that names it; of several, the first
in the order in which PostgreSQL checks them.
-/

namespace Vizra.OwnerClaim

open Go Vizra.Pg Regex

inductive UserRole where
  | guest
  | member
  | manager
  | admin
  | owner
deriving DecidableEq, Repr

def UserRole.text : UserRole → String
  | guest => "guest"
  | member => "member"
  | manager => "manager"
  | admin => "admin"
  | owner => "owner"

structure User where
  id : Uuid
  username : String
  email : String
  role : UserRole
  tombstoned_at : Option Time
deriving DecidableEq

/-- The rows that the index `users_one_owner` has an entry for. -/
def User.liveOwner (u : User) : Bool := u.role = .owner && u.tombstoned_at.isNone

inductive CredentialKind where
  | password
deriving DecidableEq, Repr

structure CredentialRow where
  id : Uuid
  user_id : Uuid
  kind : CredentialKind
  secret : String
deriving DecidableEq

/-- The one row of `owner_claim_tokens`. -/
structure TokenRow where
  token_sha256 : Digest
  generation : Int
  minted_at : Time
  expires_at : Time
  consumed_at : Option Time
  superseded_at : Option Time
deriving DecidableEq

/-- Neither consumed nor superseded. -/
def TokenRow.unspent (r : TokenRow) : Bool := r.consumed_at.isNone && r.superseded_at.isNone

/-- The `live` column of `GetOwnerClaimToken`. -/
def TokenRow.live (r : TokenRow) (now : Time) : Bool := r.unspent && r.expires_at > now

structure Db where
  users : List User
  credentials : List CredentialRow
  token : Option TokenRow
  audit : List Audit.Event

def Db.empty : Db := { users := [], credentials := [], token := none, audit := [] }

/-- The named constraints of the three tables. -/
inductive Constraint where
  | users_email_shape
  | users_username_shape
  | users_pkey
  | users_username_fold_key
  | users_email_fold_key
  | users_one_owner
  | credentials_password_is_argon2id
  | credentials_secret_bounded
  | credentials_pkey
  | credentials_one_per_user_per_kind
  | owner_claim_tokens_generation
  | owner_claim_tokens_one_terminal_state
  | owner_claim_tokens_ttl
deriving DecidableEq, Repr

/-- The name of a constraint, as an error carries it. -/
def Constraint.text : Constraint → String
  | users_email_shape => "users_email_shape"
  | users_username_shape => "users_username_shape"
  | users_pkey => "users_pkey"
  | users_username_fold_key => "users_username_fold_key"
  | users_email_fold_key => "users_email_fold_key"
  | users_one_owner => "users_one_owner"
  | credentials_password_is_argon2id => "credentials_password_is_argon2id"
  | credentials_secret_bounded => "credentials_secret_bounded"
  | credentials_pkey => "credentials_pkey"
  | credentials_one_per_user_per_kind => "credentials_one_per_user_per_kind"
  | owner_claim_tokens_generation => "owner_claim_tokens_generation"
  | owner_claim_tokens_one_terminal_state => "owner_claim_tokens_one_terminal_state"
  | owner_claim_tokens_ttl => "owner_claim_tokens_ttl"

/-- An error with which the server answers a statement. -/
inductive PgError where
  -- 23514.
  | check (c : Constraint)
  -- 23505.
  | unique (c : Constraint)
  -- 22021: the text cannot be stored.
  | invalidText
  | audit (e : Audit.EmitError)
deriving DecidableEq, Repr

/-- The first failing check of a list, as the error of `mk`. -/
def firstFailing (mk : Constraint → PgError) (checks : List (Constraint × Bool)) : Option PgError :=
  (checks.find? fun c => !c.2).map fun c => mk c.1

/-- `users_username_shape`. -/
def usernameCheck (username : String) : Bool := usernameShape.accepts username.toList

/-- `users_email_shape`. -/
def emailCheck (env : Env) (email : String) : Bool :=
  (emailPattern env.pgSpace).accepts email.toList && 3 ≤ email.utf8ByteSize && email.utf8ByteSize ≤ 254

def userChecks (env : Env) (u : User) : List (Constraint × Bool) :=
  [(.users_email_shape, emailCheck env u.email), (.users_username_shape, usernameCheck u.username)]

def userKeys (env : Env) (users : List User) (u : User) : List (Constraint × Bool) :=
  [(.users_pkey, users.all fun x => x.id ≠ u.id),
    (.users_username_fold_key, users.all fun x => env.lower x.username ≠ env.lower u.username),
    (.users_email_fold_key, users.all fun x => env.lower x.email ≠ env.lower u.email),
    (.users_one_owner, !u.liveOwner || users.all fun x => !x.liveOwner)]

/-- What refuses a new user row: its CHECKs, then the unique indexes over the rows there are. -/
def userViolation (env : Env) (users : List User) (u : User) : Option PgError :=
  (firstFailing .check (userChecks env u)).or (firstFailing .unique (userKeys env users u))

def credentialChecks (c : CredentialRow) : List (Constraint × Bool) :=
  [(.credentials_password_is_argon2id, hasPrefix c.secret "$argon2id$"),
    (.credentials_secret_bounded, 1 ≤ c.secret.utf8ByteSize && c.secret.utf8ByteSize ≤ 1024)]

def credentialKeys (credentials : List CredentialRow) (c : CredentialRow) : List (Constraint × Bool) :=
  [(.credentials_pkey, credentials.all fun x => x.id ≠ c.id),
    (.credentials_one_per_user_per_kind,
      credentials.all fun x => !(x.user_id = c.user_id && x.kind = c.kind))]

/-- What refuses a new credential row. -/
def credentialViolation (credentials : List CredentialRow) (c : CredentialRow) : Option PgError :=
  (firstFailing .check (credentialChecks c)).or (firstFailing .unique (credentialKeys credentials c))

/-- What refuses a written token row. -/
def tokenViolation (r : TokenRow) : Option PgError :=
  firstFailing .check
    [(.owner_claim_tokens_generation, r.generation ≥ 1),
      (.owner_claim_tokens_one_terminal_state, r.consumed_at.isNone || r.superseded_at.isNone),
      (.owner_claim_tokens_ttl, r.expires_at > r.minted_at)]

end Vizra.OwnerClaim
