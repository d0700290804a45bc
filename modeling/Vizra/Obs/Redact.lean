import Vizra.GoStd.Runes
import Vizra.Regex.Leftmost

/-!
# `Redact` (`internal/obs/log.go`)

The five patterns of `valuePatterns`, in order, each replaced throughout the string before the next one is
tried. A pattern reads runes; under `(?i)` a letter also stands for the other runes that fold to it, which for
`k` and `s` includes the Kelvin sign and the long s.
-/

namespace Vizra.Obs

open Go Regex

def redacted : String := "[redacted]"

/-- A pattern and what replaces its match. -/
structure Redaction where
  re : Pat Rune
  repl : List (Regex.Part Rune)

/-! ## Classes -/

def isLower (c : Char) : Bool := 'a' ≤ c && c ≤ 'z'

def isUpper (c : Char) : Bool := 'A' ≤ c && c ≤ 'Z'

def isDigit (c : Char) : Bool := '0' ≤ c && c ≤ '9'

/-- `\s`. -/
def isSpace (c : Char) : Bool := c == ' ' || c == '\t' || c == '\n' || c == '\r' || c == Char.ofNat 12

/-- What `\b` takes for a word character. -/
def isWord (c : Char) : Bool := isLower c || isUpper c || isDigit c || c == '_'

/-- The letter that a rune stands for under `(?i)`. -/
def folded (c : Char) : Char :=
  if isUpper c then Char.ofNat (c.toNat + 32)
  else if c == Char.ofNat 0x17F then 's'
  else if c == Char.ofNat 0x212A then 'k'
  else c

/-- `[a-z0-9_-]` under `(?i)`. -/
def isKeyRune (c : Char) : Bool := isLower (folded c) || isDigit c || c == '_' || c == '-'

/-- `[A-Za-z0-9._~+/=-]`. -/
def isTokenRune (c : Char) : Bool := isLower c || isUpper c || isDigit c || ['.', '_', '~', '+', '/', '=', '-'].contains c

/-- One of the runes of a text, as it is written. -/
def exactly (s : String) : Pat Rune := .word (s.toList.map fun c r => r.char == c)

/-- A text under `(?i)`. -/
def anyCase (s : String) : Pat Rune := .word (s.toList.map fun c r => folded r.char == c)

/-- A class of characters. -/
def cls (p : Char → Bool) : Pat Rune := .cls fun r => p r.char

def many (p : Char → Bool) : Pat Rune := .many fun r => p r.char

def plus (p : Char → Bool) : Pat Rune := .plus fun r => p r.char

def wordBoundary : Pat Rune := .boundary fun r => isWord r.char

/-! ## The patterns -/

/-- `([a-zA-Z][a-zA-Z0-9+.-]*://)[^/\s:@]*:[^/\s@]+@` -/
def userinfo : Redaction where
  re :=
    .seq (.group 1
      (.seq (cls fun c => isLower c || isUpper c)
        (.seq (many fun c => isLower c || isUpper c || isDigit c || ['+', '.', '-'].contains c) (exactly "://"))))
    (.seq (many fun c => !(c == '/' || isSpace c || c == ':' || c == '@'))
      (.seq (exactly ":") (.seq (plus fun c => !(c == '/' || isSpace c || c == '@')) (exactly "@"))))
  repl := [.group 1, .lit (asciiRunes redacted), .lit (asciiRunes "@")]

/-- `(?i)\b((?:set-)?cookie):[ \t]*[^\r\n"]+` -/
def cookieHeader : Redaction where
  re :=
    .seq wordBoundary
      (.seq (.group 1 (.seq (.opt (anyCase "set-")) (anyCase "cookie")))
        (.seq (exactly ":")
          (.seq (many fun c => c == ' ' || c == '\t') (plus fun c => !(c == '\r' || c == '\n' || c == '"')))))
  repl := [.group 1, .lit (asciiRunes ": "), .lit (asciiRunes redacted)]

/-- `[a-z0-9_-]*(?:password|…|api[_-]?key)[a-z0-9_-]*|key|sig|signature|awsaccesskeyid|x-(?:amz|goog)-signature` -/
def credentialKey : Pat Rune :=
  .oneOf
    (.seq (many isKeyRune)
      (.seq
        (.oneOf (anyCase "password") [anyCase "passwd", anyCase "secret", anyCase "token", anyCase "session",
          anyCase "credential",
          .seq (anyCase "api") (.seq (.opt (cls fun c => c == '_' || c == '-')) (anyCase "key"))])
        (many isKeyRune)))
    [anyCase "key", anyCase "sig", anyCase "signature", anyCase "awsaccesskeyid",
      .seq (anyCase "x-") (.seq (.oneOf (anyCase "amz") [anyCase "goog"]) (anyCase "-signature"))]

/-- `'[^']*'|"[^"]*"|[^&\s"'<>]+` -/
def credentialValue : Pat Rune :=
  .oneOf (.seq (exactly "'") (.seq (many fun c => !(c == '\'')) (exactly "'")))
    [.seq (exactly "\"") (.seq (many fun c => !(c == '"')) (exactly "\"")),
      plus fun c => !(c == '&' || isSpace c || c == '"' || c == '\'' || c == '<' || c == '>')]

/-- `(?i)(^|[^a-z0-9_-])(key=)(value)` -/
def credentialPair : Redaction where
  re :=
    .seq (.group 1 (.alt .start (cls fun c => !isKeyRune c)))
      (.seq (.group 2 (.seq credentialKey (exactly "="))) (.group 3 credentialValue))
  repl := [.group 1, .group 2, .lit (asciiRunes redacted)]

/-- `(?i)\bBearer\s+[A-Za-z0-9._~+/=-]{8,}` -/
def bearerToken : Redaction where
  re :=
    .seq wordBoundary
      (.seq (anyCase "bearer")
        (.seq (plus isSpace) (.atLeast (fun r => isTokenRune (folded r.char)) 8)))
  repl := [.lit (asciiRunes redacted)]

/-- `\bvzk_[A-Za-z0-9._~+/=-]{8,}` -/
def apiKey : Redaction where
  re := .seq wordBoundary (.seq (exactly "vzk_") (.atLeast (fun r => isTokenRune r.char) 8))
  repl := [.lit (asciiRunes redacted)]

def valuePatterns : List Redaction := [userinfo, cookieHeader, credentialPair, bearerToken, apiKey]

/-- `p.re.ReplaceAllString(s, p.repl)`. -/
def Redaction.replaceAllString (p : Redaction) (s : Bytes) : Bytes := encode (replaceAll p.re p.repl (decode s))

def redact (s : Bytes) : Bytes := valuePatterns.foldl (fun s p => p.replaceAllString s) s

end Vizra.Obs
