import Vizra.OwnerClaim.Schema

/-!
# The statements of the owner claim (`store/queries/owner_claim.sql`)

Every statement runs under READ COMMITTED. One that writes the token row has two halves: the first
reads the snapshot the statement started with, the second runs when no other transaction holds the row
and reads the row as it was last committed. `now` is the start of the transaction.
-/

namespace Vizra.OwnerClaim

open Go Vizra.Pg

def anyUserExists (db : Db) : Bool := !db.users.isEmpty

/-- The row `MintOwnerClaimToken` leaves: an insert, or the DO UPDATE of the row there is. -/
def mintRow (now : Time) (digest : Digest) (ttl : Interval) : Option TokenRow → TokenRow
  | none =>
    { token_sha256 := digest, generation := 1, minted_at := now, expires_at := now + ttl
      consumed_at := none, superseded_at := none }
  | some r =>
    { token_sha256 := digest, generation := r.generation + 1, minted_at := now, expires_at := now + ttl
      consumed_at := none, superseded_at := none }

/-- `SupersedeLiveOwnerClaimToken` on a row its WHERE clause selects. -/
def TokenRow.supersede (r : TokenRow) (now : Time) : TokenRow := { r with superseded_at := some now }

/-- The conditions of `ClaimOwner` on the token row. -/
def TokenRow.redeemable (r : TokenRow) (digest : Digest) (now : Time) : Bool :=
  r.token_sha256 = digest && r.live now

/-- The row that `consumed` leaves. -/
def TokenRow.consume (r : TokenRow) (now : Time) : TokenRow := { r with consumed_at := some now }

structure ClaimOwnerParams where
  token_sha256 : Digest
  user_id : Uuid
  username : String
  email : String
  credential_id : Uuid
  password_hash : String

/-- The row `owner` inserts. -/
def ClaimOwnerParams.user (p : ClaimOwnerParams) : User :=
  { id := p.user_id, username := p.username, email := p.email, role := .owner, tombstoned_at := none }

/-- The row `cred` inserts. -/
def ClaimOwnerParams.credential (p : ClaimOwnerParams) : CredentialRow :=
  { id := p.credential_id, user_id := p.user_id, kind := .password, secret := p.password_hash }

/-- The parameters can be sent as `text`. -/
def ClaimOwnerParams.storable (p : ClaimOwnerParams) : Bool :=
  Pg.storable p.username && Pg.storable p.email && Pg.storable p.password_hash

/-- `ClaimOwner` when it starts: whether the snapshot has a row to redeem. -/
def ClaimOwnerParams.selects (p : ClaimOwnerParams) (now : Time) (db : Db) : Bool :=
  db.token.any (fun r => r.redeemable p.token_sha256 now) && !anyUserExists db

/-- What the two inserts of `ClaimOwner` are refused with. -/
def ClaimOwnerParams.violation (env : Env) (p : ClaimOwnerParams) (db : Db) : Option PgError :=
  (userViolation env db.users p.user).or (credentialViolation db.credentials p.credential)

/-- `ClaimOwner` when it has the row: no row, an error, or the consumed token row. The NOT EXISTS on
`users` belongs to the snapshot and is not evaluated again. -/
inductive Redeemed where
  | noRows
  | failed (e : PgError)
  | redeemed (row : TokenRow)

def ClaimOwnerParams.redeem (env : Env) (p : ClaimOwnerParams) (now : Time) (db : Db) : Redeemed :=
  match db.token with
  | none => .noRows
  | some r =>
    if r.redeemable p.token_sha256 now then
      match p.violation env db with
      | some e => .failed e
      | none => .redeemed (r.consume now)
    else .noRows

end Vizra.OwnerClaim
