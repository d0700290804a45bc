import Vizra.Credential.Credential
import Vizra.GoStd.Strings
import Vizra.Pg.Types
import Vizra.Regex.Basic

/-!
# A claim request (`internal/ownerclaim/ownerclaim.go`)

The token as it is compared, and `Input.Validate` with its three patterns, each written as its regular
expression. Go's `\s` is five ASCII characters.
-/

namespace Vizra.OwnerClaim

open Go Vizra.Pg Regex

abbrev Digest := BitVec 256

/-- What the component takes from its surroundings. -/
structure Env where
  -- `unicode.ToLower`.
  unicodeLower : Char → Char
  -- SHA-256 of the bytes of a text, which is given by its runes.
  sha256 : List Char → Digest
  -- PostgreSQL's `lower`.
  lower : String → String
  -- PostgreSQL's `[[:space:]]`.
  pgSpace : Char → Bool

def inRange (a b c : Char) : Bool := a ≤ c && c ≤ b

/-- `[0-9a-f]`. -/
def isHex (c : Char) : Bool := inRange '0' '9' c || inRange 'a' 'f' c

/-- `[A-Za-z0-9]`. -/
def isAlnum (c : Char) : Bool := inRange 'A' 'Z' c || inRange 'a' 'z' c || inRange '0' '9' c

/-- `[A-Za-z0-9_-]`. -/
def isHandle (c : Char) : Bool := isAlnum c || c == '_' || c == '-'

/-- Go's `\s`: tab, newline, form feed, carriage return and blank. -/
def goSpace (c : Char) : Bool := c == '\t' || c == '\n' || c == Char.ofNat 0x0C || c == '\r' || c == ' '

/-- `^[0-9a-f]{64}$`. -/
def tokenShape : Rx Char := .pow (.cls isHex) 64

/-- `^[A-Za-z0-9][A-Za-z0-9_-]{2,29}$`. -/
def usernameShape : Rx Char := .seq (.cls isAlnum) (.between (.cls isHandle) 2 29)

/-- `^[^s@]+@[^s@]+\.[^s@]+$`, for a class `s` of blanks. -/
def emailPattern (space : Char → Bool) : Rx Char :=
  let part := Rx.plus (.cls fun c => !space c && c != '@')
  .seq part (.seq (.char '@') (.seq part (.seq (.char '.') part)))

def emailShape : Rx Char := emailPattern goSpace

def maxEmailBytes : Nat := 254

structure Input where
  token : String
  username : String
  email : String
  password : String
deriving DecidableEq, Repr

/-- The runes of `Normalize`. -/
def normalize (env : Env) (token : String) : List Char :=
  (trimSpaceRunes token.toList).map env.unicodeLower

/-- `Digest` of the presented token. -/
def Input.digest (env : Env) (i : Input) : Digest := env.sha256 (normalize env i.token)

/-- What `Validate` returns: `ErrTokenNotAccepted`, or a `ValidationError` with its field. -/
inductive InvalidInput where
  | token
  | field (name message : String)
deriving DecidableEq, Repr

def Input.validate (env : Env) (i : Input) : Except InvalidInput Unit :=
  if !tokenShape.accepts (normalize env i.token) then .error .token
  else if !usernameShape.accepts i.username.toList then
    .error (.field "username"
      ("use 3 to 30 characters: letters, numbers, hyphen or underscore, " ++
        "starting with a letter or number"))
  else if i.email.utf8ByteSize > maxEmailBytes || !emailShape.accepts i.email.toList then
    .error (.field "email" ("enter an email address of at most " ++ toString maxEmailBytes ++ " bytes"))
  else if i.password.toList.length < Credential.minPasswordRunes then
    .error (.field "password" ("use at least " ++ toString Credential.minPasswordRunes ++ " characters"))
  else if i.password.toList.length > Credential.maxPasswordRunes then
    .error (.field "password" ("use at most " ++ toString Credential.maxPasswordRunes ++ " characters"))
  else if i.password.utf8ByteSize > Credential.maxPasswordBytes then
    .error (.field "password"
      ("use a password of at most " ++ toString Credential.maxPasswordBytes ++ " bytes"))
  else .ok ()

end Vizra.OwnerClaim
