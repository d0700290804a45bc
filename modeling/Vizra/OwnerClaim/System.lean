import Vizra.Lts.Basic
import Vizra.OwnerClaim.Queries

/-!
# Claim, Mint, SupersedeLive and Boot, interleaved (`internal/ownerclaim`)

`St` holds the committed rows, the database clock, the two locks (the row lock on the token row, which a
transaction keeps from its write to its end, and the advisory lock of minting) and the calls in
progress. A call is at a program counter, which carries what the call has computed so far; the
uncommitted writes of a transaction are part of the counter of its call, so that nobody else can read
them. What a call does next is an `Act`, read off the state; `St.step` applies it, aborts a call, starts
one, or advances the clock.
-/

namespace Vizra.OwnerClaim

open Go Vizra.Pg

/-- A call of `Claim`, with the random values it will draw: its ids, and the salt and tag of the hash. -/
structure ClaimCall where
  input : Input
  correlationID : String
  ipPrefix : Option String
  userID : Uuid
  credID : Uuid
  salt : Vector UInt8 16
  tag : Vector UInt8 32
deriving DecidableEq

/-- Who called `Mint` or `SupersedeLive`. -/
inductive Caller where
  | cli
  | boot
deriving DecidableEq, Repr

/-- A call of `Mint`, with the raw token it will draw: lower-case hex, its own normal form. -/
structure MintCall where
  caller : Caller
  ttl : Duration
  refuseIfUsersExist : Bool
  onlyIfNoLiveToken : Bool
  raw : String

structure BootCall where
  stderr : Bool
  ttl : Duration
  raw : String

structure BootOutcome where
  claimed : Bool := false
  minted : Bool := false
  superseded : Bool := false
  generation : Int := 0
  degraded : Bool := false
deriving DecidableEq

inductive Result where
  | claimed (userID : Uuid) (username : String) (role : UserRole) (generation : Int)
  | alreadyClaimed
  | tokenNotAccepted
  | validation (field message : String)
  | failed (e : PgError)
  | unavailable
  | minted (raw : String) (generation : Int)
  | hasUsers
  | liveTokenExists (generation : Int)
  | superseded (n : Nat)
  | booted (o : BootOutcome)
deriving DecidableEq

/-- What `Boot` returns for a result of the call it made. -/
def Result.forBoot : Result → Result
  | .minted _ g => .booted { minted := true, generation := g }
  | .hasUsers => .booted { claimed := true }
  | .liveTokenExists g => .booted { generation := g }
  | .superseded n => .booted { claimed := true, superseded := n > 0 }
  | r => r

def Result.for (r : Result) : Caller → Result
  | .cli => r
  | .boot => r.forBoot

inductive ClaimPc where
  | check
  | examine
  | classify
  -- About to call the hasher.
  | hash (digest : Digest)
  | begin (p : ClaimOwnerParams)
  | gate (now : Time) (p : ClaimOwnerParams)
  | redeem (now : Time) (p : ClaimOwnerParams)
  -- `ClaimOwner` has started and goes for the row.
  | redeeming (now : Time) (p : ClaimOwnerParams)
  | audit (row : TokenRow) (user : User) (cred : CredentialRow)
  | commit (row : TokenRow) (user : User) (cred : CredentialRow) (event : Audit.Event)

inductive MintPc where
  | begin
  | lock (now : Time)
  | check (now : Time)
  | state (now : Time)
  | upsert (now : Time) (events : List Audit.Event)
  -- `MintOwnerClaimToken` has started and goes for the row.
  | upserting (now : Time) (events : List Audit.Event)
  | audit (events : List Audit.Event) (row : TokenRow)
  | commit (events : List Audit.Event) (row : TokenRow)

inductive SupersedePc where
  | begin
  | update (now : Time)
  -- The UPDATE has started and goes for the row.
  | updating (now : Time)
  | audit (row : TokenRow)
  | commit (row : TokenRow) (event : Audit.Event)

inductive BootPc where
  | check
  | state

/-- A call in progress. -/
inductive Proc where
  | idle
  | claim (c : ClaimCall) (pc : ClaimPc)
  | mint (m : MintCall) (pc : MintPc)
  | supersede (caller : Caller) (pc : SupersedePc)
  | boot (b : BootCall) (pc : BootPc)
  | done (r : Result)

/-- A call as it starts. -/
inductive Call where
  | claim (c : ClaimCall)
  | mint (m : MintCall)
  | supersede
  | boot (b : BootCall)

def Call.start : Call → Proc
  | claim c => .claim c .check
  | mint m => .mint m .begin
  | supersede => .supersede .cli .begin
  | boot b => .boot b .check

def Proc.running : Proc → Bool
  | idle | done _ => false
  | _ => true

structure St where
  now : Time
  db : Db
  tokenLock : Option Nat
  mintLock : Option Nat
  procs : Nat → Proc

/-- A fresh instance with no call in progress. -/
def St.init (now : Time) : St :=
  { now, db := .empty, tokenLock := none, mintLock := none, procs := fun _ => .idle }

def Db.commit (db : Db) (row : TokenRow) (users : List User) (credentials : List CredentialRow)
    (events : List Audit.Event) : Db :=
  { users := db.users ++ users, credentials := db.credentials ++ credentials, token := some row
    audit := db.audit ++ events }

/-- A system event about a generation of the token. -/
def tokenEvent (action : Audit.Action) (generation : Int) (after : Option Audit.After) : Audit.Event :=
  { actor_kind := .system, action, subject_type := .ownerClaimToken
    subject_id := some (toString generation), after }

/-- The hexadecimal digits of a user id. -/
def uuidDigits (id : Uuid) : List Char :=
  (List.range 32).map fun k => Nat.digitChar (id.toNat / 16 ^ (31 - k) % 16)

/-- The text form of a user id. -/
def uuidText (id : Uuid) : String :=
  let h := uuidDigits id
  String.ofList (h.take 8 ++ '-' :: (h.drop 8).take 4 ++ '-' :: (h.drop 12).take 4 ++
    '-' :: (h.drop 16).take 4 ++ '-' :: h.drop 20)

/-- The event of a successful claim; the email is never part of it. -/
def succeededEvent (c : ClaimCall) (u : User) : Audit.Event :=
  { actor_kind := .user, actor_user_id := some u.id, action := .ownerClaimSucceeded
    subject_type := .user, subject_id := some (uuidText u.id)
    after := some (.account u.username u.role.text)
    correlation_id := if c.correlationID = "" then none else some c.correlationID
    ipPrefix := c.ipPrefix }

/-- The parameters of `ClaimOwner`: the row's own digest, never the presented value. -/
def ClaimCall.params (c : ClaimCall) (digest : Digest) : ClaimOwnerParams :=
  { token_sha256 := digest, user_id := c.userID, username := c.input.username, email := c.input.email
    credential_id := c.credID
    password_hash := Credential.encode Credential.adr003 c.salt.toList c.tag.toList }

/-- The effect of one step of a call. -/
inductive Act where
  -- The call moves on.
  | goto (p : Proc)
  -- The call takes the advisory lock and moves on.
  | lockMint (p : Proc)
  -- The call writes the token row, keeps its lock, and moves on.
  | hold (p : Proc)
  -- The call commits and returns.
  | commit (row : TokenRow) (users : List User) (credentials : List CredentialRow)
      (events : List Audit.Event) (r : Result)
  -- The call returns; its transaction, if any, is rolled back.
  | finish (r : Result)

/-- A lock after its holder, if that was `i`, has ended its transaction. -/
def released (i : Nat) (lock : Option Nat) : Option Nat := if lock = some i then none else lock

/-- The state after a step of call `i`. -/
def St.apply (s : St) (i : Nat) : Act → St
  | .goto p => { s with procs := Function.update s.procs i p }
  | .lockMint p => { s with procs := Function.update s.procs i p, mintLock := some i }
  | .hold p => { s with procs := Function.update s.procs i p, tokenLock := some i }
  | .commit row users credentials events r =>
    { s with
      db := s.db.commit row users credentials events, tokenLock := released i s.tokenLock
      mintLock := released i s.mintLock, procs := Function.update s.procs i (.done r) }
  | .finish r =>
    { s with
      tokenLock := released i s.tokenLock, mintLock := released i s.mintLock
      procs := Function.update s.procs i (.done r) }

section

variable (env : Env)

/-- `examineToken`: the digest of the row if the presented token is accepted, or a `ValidationError`. -/
def examineToken (s : St) (input : Input) : Except (String × String) (Option Digest) :=
  match input.validate env with
  | .error .token => .ok none
  | .error (.field f m) => .error (f, m)
  | .ok () =>
    match s.db.token with
    | none => .ok none
    | some r =>
      if input.digest env = r.token_sha256 && r.live s.now then .ok (some r.token_sha256) else .ok none

/-- One step of `Claim`; `none` while it waits. -/
def claimAct (s : St) (c : ClaimCall) : ClaimPc → Option Act
  | .check =>
    if anyUserExists s.db then some (.finish .alreadyClaimed) else some (.goto (.claim c .examine))
  | .examine =>
    match examineToken env s c.input with
    | .error (f, m) => some (.finish (.validation f m))
    | .ok none => some (.goto (.claim c .classify))
    | .ok (some d) => some (.goto (.claim c (.hash d)))
  | .classify => some (.finish (if anyUserExists s.db then .alreadyClaimed else .tokenNotAccepted))
  | .hash d => some (.goto (.claim c (.begin (c.params d))))
  -- `now()` is the time of BEGIN for the rest of the transaction
  | .begin p => some (.goto (.claim c (.gate s.now p)))
  | .gate now p =>
    if anyUserExists s.db then some (.finish .alreadyClaimed)
    else some (.goto (.claim c (.redeem now p)))
  | .redeem now p =>
    -- the snapshot of `ClaimOwner`: a row that it does not select is not waited for
    if !p.storable then some (.finish (.failed .invalidText))
    else if p.selects now s.db then some (.goto (.claim c (.redeeming now p)))
    else some (.goto (.claim c .classify))
  | .redeeming now p =>
    if s.tokenLock = none then
      -- the WHERE clause is evaluated again on the row as it is after the wait
      match p.redeem env now s.db with
      | .noRows => some (.goto (.claim c .classify))
      | .failed e => some (.finish (.failed e))
      | .redeemed row => some (.hold (.claim c (.audit row p.user p.credential)))
    else none
  | .audit row user cred =>
    match Audit.emit (succeededEvent c user) with
    -- the audit row is in the same transaction, so a refused one undoes the claim
    | .error e => some (.finish (.failed (.audit e)))
    | .ok event => some (.goto (.claim c (.commit row user cred event)))
  | .commit row user cred event =>
    some (.commit row [user] [cred] [event] (.claimed user.id user.username user.role row.generation))

/-- One step of `Mint`; `none` while it waits. -/
def mintAct (s : St) (m : MintCall) : MintPc → Option Act
  | .begin => some (.goto (.mint m (.lock s.now)))
  | .lock now => if s.mintLock = none then some (.lockMint (.mint m (.check now))) else none
  | .check now =>
    if m.refuseIfUsersExist && anyUserExists s.db then some (.finish (Result.hasUsers.for m.caller))
    else some (.goto (.mint m (.state now)))
  | .state now =>
    match s.db.token.filter fun r => r.live now with
    | none => some (.goto (.mint m (.upsert now [])))
    | some r =>
      if m.onlyIfNoLiveToken then some (.finish ((Result.liveTokenExists r.generation).for m.caller))
      else some (.goto (.mint m (.upsert now [tokenEvent .ownerClaimSuperseded r.generation none])))
  | .upsert now events =>
    -- the NOT EXISTS of the upsert reads its snapshot, before the wait for the row
    if anyUserExists s.db then some (.finish (Result.hasUsers.for m.caller))
    else some (.goto (.mint m (.upserting now events)))
  | .upserting now events =>
    if s.tokenLock = none then
      -- DO UPDATE takes whatever row there is now, a consumed one included
      let row := mintRow now (env.sha256 m.raw.toList) (toInterval m.ttl) s.db.token
      match tokenViolation row with
      | some e => some (.finish (.failed e))
      | none => some (.hold (.mint m (.audit events row)))
    else none
  | .audit events row =>
    let event := tokenEvent .ownerClaimMinted row.generation (some (.expiresAt row.expires_at))
    some (.goto (.mint m (.commit (events ++ [event]) row)))
  | .commit events row =>
    some (.commit row [] [] events ((Result.minted m.raw row.generation).for m.caller))

/-- One step of `SupersedeLive`; `none` while it waits. -/
def supersedeAct (s : St) (caller : Caller) : SupersedePc → Option Act
  | .begin => some (.goto (.supersede caller (.update s.now)))
  | .update now =>
    -- without a row to supersede the transaction ends here, with no event
    if s.db.token.any TokenRow.unspent then some (.goto (.supersede caller (.updating now)))
    else some (.finish ((Result.superseded 0).for caller))
  | .updating now =>
    if s.tokenLock = none then
      match s.db.token.filter TokenRow.unspent with
      | none => some (.finish ((Result.superseded 0).for caller))
      | some r => some (.hold (.supersede caller (.audit (r.supersede now))))
    else none
  | .audit row =>
    some (.goto (.supersede caller (.commit row (tokenEvent .ownerClaimSuperseded row.generation none))))
  | .commit row event => some (.commit row [] [] [event] ((Result.superseded 1).for caller))

/-- One step of `Boot`, until it hands over to `SupersedeLive` or `Mint`. -/
def bootAct (s : St) (b : BootCall) : BootPc → Option Act
  | .check =>
    if anyUserExists s.db then some (.goto (.supersede .boot .begin)) else some (.goto (.boot b .state))
  | .state =>
    if b.stderr then
      some (.goto (.mint
        { caller := .boot, ttl := b.ttl, refuseIfUsersExist := false, onlyIfNoLiveToken := true
          raw := b.raw } .begin))
    else some (.finish (.booted { generation := (s.db.token.map TokenRow.generation).getD 0 }))

/-- One step of a call; `none` while it waits and when there is nothing to do. -/
def St.act (s : St) : Proc → Option Act
  | .claim c pc => claimAct env s c pc
  | .mint m pc => mintAct env s m pc
  | .supersede caller pc => supersedeAct s caller pc
  | .boot b pc => bootAct s b pc
  | .idle | .done _ => none

inductive Label where
  | tick (d : Nat)
  | spawn (i : Nat) (call : Call)
  -- Call `i` takes its next step.
  | exec (i : Nat)
  -- Call `i` meets an infrastructure error and its transaction, if any, is rolled back.
  | abort (i : Nat)

def St.step (s : St) : Label → Option St
  | .tick d => some { s with now := s.now + d }
  | .spawn i call =>
    match s.procs i with
    | .idle => some (s.apply i (.goto call.start))
    | _ => none
  | .exec i => (s.act env (s.procs i)).map (s.apply i)
  | .abort i => if (s.procs i).running then some (s.apply i (.finish .unavailable)) else none

/-- Runs whose steps meet `G`. -/
abbrev St.Run (G : St → Label → Prop) (s : St) (ls : List Label) (t : St) : Prop :=
  Lts.Run (Lts.guarded G (Lts.graph (St.step env))) s ls t

/-- No condition on the steps. -/
def anyStep : St → Label → Prop := fun _ _ => True

end

end Vizra.OwnerClaim
