import Vizra.Obs.Redact

/-!
# The redacting log handler (`internal/obs/log.go`)

`redactingHandler` redacts what is given to it and hands it on to the handler it wraps. That one is
`log/slog`'s: it resolves a `LogValuer` when it prints it, leaves out a group of which nothing is printed, and
prints the attributes of a group without a key as if they stood outside it.
-/

namespace Vizra.Obs

open Go

/-! ## Attributes -/

structure Userinfo where
  username : Bytes
  password : Option Bytes

/-- A `*url.URL`: its `User`, and what `String` makes of it and of the other fields. -/
structure URL where
  user : Option Userinfo
  render : Option Userinfo → Bytes

def URL.string (u : URL) : Bytes := u.render u.user

/-- `slog.Value`, by its kind. -/
inductive Value where
  | string (s : Bytes)
  | group (attrs : List (Bytes × Value))
  -- `KindAny`: nil, a `*url.URL` other than nil, and what `String` makes of any other value
  | nil
  | url (u : URL)
  | any (text : Bytes)
  -- what `LogValue` will return when it is called
  | logValuer (v : Value)
  -- a boolean, a number, a duration or a time, as it is printed
  | other (text : Bytes)

/-- A `slog.Record`, without its time, level and source. -/
structure Record where
  message : Bytes
  attrs : List (Bytes × Value)

/-! ## Redaction -/

def secretKeys : List String :=
  ["password", "passwd", "secret", "token", "authorization", "cookie", "set-cookie", "api_key", "apikey", "session",
    "session_id", "dsn", "database_url", "cache_url", "hmac_key", "kek", "mfa_key_kek", "signature", "private_key"]

/-- The rune that `strings.ToLower` maps a rune to, of those that become ASCII. -/
def lowered (c : Char) : Char :=
  if isUpper c then Char.ofNat (c.toNat + 32)
  else if c == Char.ofNat 0x130 then 'i'
  else if c == Char.ofNat 0x212A then 'k'
  else c

/-- `secretKeys[strings.ToLower(key)]`. -/
def isSecret (key : Bytes) : Bool := secretKeys.any fun s => s.toList == (decode key).map fun r => lowered r.char

/-- The copy of a URL whose `User` is replaced by `url.User(redacted)`. -/
def URL.redacted (u : URL) : URL := { u with user := u.user.map fun _ => ⟨ascii Obs.redacted, none⟩ }

/-- What `Value.String` makes of nil. -/
def nilText : Bytes := ascii "<nil>"

mutual

def redactAttr (key : Bytes) (v : Value) : Value :=
  if isSecret key then .string (ascii redacted)
  else match v with
    | .string s => .string (redact s)
    | .group attrs => .group (redactAttrs attrs)
    | .nil => .string (redact nilText)
    | .url u => .string u.redacted.string
    | .any text => .string (redact text)
    | .logValuer v => .logValuer v
    | .other text => .other text
termination_by structural v

def redactAttrs : List (Bytes × Value) → List (Bytes × Value)
  | [] => []
  | (key, v) :: attrs => (key, redactAttr key v) :: redactAttrs attrs
termination_by structural attrs => attrs

end

/-! ## The inner handler -/

/-- What is printed of a value. -/
inductive Out where
  | string (s : Bytes)
  | other (text : Bytes)
  | group (attrs : List (Bytes × Out))

mutual

/-- Whether anything is printed of an attribute: not of one without key and value, nor of an empty group. -/
def printed (key : Bytes) : Value → Bool
  | .nil => !key.isEmpty
  | .group attrs => anyPrinted attrs
  | .logValuer v => printed key v
  | .string _ | .url _ | .any _ | .other _ => true
termination_by structural v => v

def anyPrinted : List (Bytes × Value) → Bool
  | [] => false
  | (key, v) :: attrs => printed key v || anyPrinted attrs
termination_by structural attrs => attrs

end

mutual

/-- `appendAttr`, as the text handler prints values of `KindAny`. -/
def appendAttr (key : Bytes) : Value → List (Bytes × Out)
  | .string s => [(key, .string s)]
  | .group attrs =>
    if !anyPrinted attrs then []
    else if key.isEmpty then appendAttrs attrs
    else [(key, .group (appendAttrs attrs))]
  | .nil => if key.isEmpty then [] else [(key, .string nilText)]
  | .url u => [(key, .string u.string)]
  | .any text => [(key, .string text)]
  | .logValuer v => appendAttr key v
  | .other text => [(key, .other text)]
termination_by structural v => v

def appendAttrs : List (Bytes × Value) → List (Bytes × Out)
  | [] => []
  | (key, v) :: attrs => appendAttr key v ++ appendAttrs attrs
termination_by structural attrs => attrs

end

/-- What `With` and `WithGroup` have left in a handler. -/
inductive Scope where
  | attrs (as : List (Bytes × Value))
  | group (name : Bytes)

abbrev Inner := List Scope

/-- A line of the log: its message, and its attributes with the groups that `WithGroup` has opened around them. -/
structure Line where
  message : Bytes
  attrs : List (List Bytes × Bytes × Out)

def Inner.withAttrs (h : Inner) (as : List (Bytes × Value)) : Inner := h ++ [.attrs as]

def Inner.withGroup (h : Inner) (name : Bytes) : Inner := h ++ [.group name]

/-- The attributes of a handler and then those of a record, in the groups that are open. -/
def Inner.lineAttrs (opened : List Bytes) : Inner → List (Bytes × Value) → List (List Bytes × Bytes × Out)
  | [], as => (appendAttrs as).map fun a => (opened, a)
  | .attrs as :: h, as' => (appendAttrs as).map (fun a => (opened, a)) ++ Inner.lineAttrs opened h as'
  | .group name :: h, as => Inner.lineAttrs (opened ++ [name]) h as

def Inner.handle (h : Inner) (r : Record) : Line := ⟨r.message, Inner.lineAttrs [] h r.attrs⟩

/-! ## The redacting handler -/

structure RedactingHandler where
  inner : Inner

namespace RedactingHandler

def handle (h : RedactingHandler) (r : Record) : Line := h.inner.handle ⟨redact r.message, redactAttrs r.attrs⟩

def withAttrs (h : RedactingHandler) (as : List (Bytes × Value)) : RedactingHandler :=
  ⟨h.inner.withAttrs (redactAttrs as)⟩

def withGroup (h : RedactingHandler) (name : Bytes) : RedactingHandler := ⟨h.inner.withGroup name⟩

end RedactingHandler

/-- The handler of `NewLogger`. -/
def newLogger : RedactingHandler := ⟨[]⟩

/-- A call that derives a logger from another. -/
inductive Call where
  | withAttrs (as : List (Bytes × Value))
  | withGroup (name : Bytes)

def RedactingHandler.derive (h : RedactingHandler) : Call → RedactingHandler
  | .withAttrs as => h.withAttrs as
  | .withGroup name => h.withGroup name

/-- The same calls on the handler that is wrapped, without redaction. -/
def Inner.derive (h : Inner) : Call → Inner
  | .withAttrs as => h.withAttrs as
  | .withGroup name => h.withGroup name

end Vizra.Obs
