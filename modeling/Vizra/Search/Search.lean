import Vizra.GoStd.Json

/-!
# The search boundary (`internal/search/search.go`, `sql.go`)

Answers with the JSON decoders that their struct tags stand for. Requests are opaque: they are only
marshalled.
-/

namespace Vizra.Search

open Go

def statusOK : String := "ok"

def statusNotIndexed : String := "not_indexed"

inductive Health where
  | off
  | ok
  | degraded
deriving DecidableEq, Repr

structure Hit where
  assetID : String
  publicKey : String
  -- the bits of the float64
  score : UInt64
deriving DecidableEq, Repr

def Hit.zero : Hit := { assetID := "", publicKey := "", score := 0 }

structure SearchResult where
  status : String
  -- a nil slice is none
  results : Option (List Hit)
  total : Int
  tookMS : Int
  searchSchemaVersion : Option Int
deriving DecidableEq, Repr

def SearchResult.zero : SearchResult :=
  { status := "", results := none, total := 0, tookMS := 0, searchSchemaVersion := none }

structure Suggestion where
  text : String
  kind : String
  count : Int
deriving DecidableEq, Repr

def Suggestion.zero : Suggestion := { text := "", kind := "", count := 0 }

structure SuggestResult where
  status : String
  suggestions : Option (List Suggestion)
  tookMS : Int
deriving DecidableEq, Repr

def SuggestResult.zero : SuggestResult := { status := "", suggestions := none, tookMS := 0 }

structure PublishResult where
  status : String
  accepted : Int
  duplicates : Int
deriving DecidableEq, Repr

def PublishResult.zero : PublishResult := { status := "", accepted := 0, duplicates := 0 }

/-! ## Decoding -/

section

variable (parseFloat : List Char → Option UInt64)

def Hit.decoder : Json.Decoder Hit := Json.struct
  [⟨"asset_id", fun h v => (Json.string h.assetID v).map fun x => { h with assetID := x }⟩,
   ⟨"public_key", fun h v => (Json.string h.publicKey v).map fun x => { h with publicKey := x }⟩,
   ⟨"score", fun h v => (Json.float64 parseFloat h.score v).map fun x => { h with score := x }⟩]

def SearchResult.decoder : Json.Decoder SearchResult := Json.struct
  [⟨"status", fun r v => (Json.string r.status v).map fun x => { r with status := x }⟩,
   ⟨"results", fun r v =>
      (Json.slice Hit.zero (Hit.decoder parseFloat) r.results v).map fun x => { r with results := x }⟩,
   ⟨"total", fun r v => (Json.int64 r.total v).map fun x => { r with total := x }⟩,
   ⟨"took_ms", fun r v => (Json.int64 r.tookMS v).map fun x => { r with tookMS := x }⟩,
   ⟨"search_schema_version", fun r v =>
      (Json.pointer 0 Json.int64 r.searchSchemaVersion v).map fun x => { r with searchSchemaVersion := x }⟩]

end

def Suggestion.decoder : Json.Decoder Suggestion := Json.struct
  [⟨"text", fun s v => (Json.string s.text v).map fun x => { s with text := x }⟩,
   ⟨"kind", fun s v => (Json.string s.kind v).map fun x => { s with kind := x }⟩,
   ⟨"count", fun s v => (Json.int64 s.count v).map fun x => { s with count := x }⟩]

def SuggestResult.decoder : Json.Decoder SuggestResult := Json.struct
  [⟨"status", fun r v => (Json.string r.status v).map fun x => { r with status := x }⟩,
   ⟨"suggestions", fun r v =>
      (Json.slice Suggestion.zero Suggestion.decoder r.suggestions v).map fun x => { r with suggestions := x }⟩,
   ⟨"took_ms", fun r v => (Json.int64 r.tookMS v).map fun x => { r with tookMS := x }⟩]

def PublishResult.decoder : Json.Decoder PublishResult := Json.struct
  [⟨"status", fun r v => (Json.string r.status v).map fun x => { r with status := x }⟩,
   ⟨"accepted", fun r v => (Json.int64 r.accepted v).map fun x => { r with accepted := x }⟩,
   ⟨"duplicates", fun r v => (Json.int64 r.duplicates v).map fun x => { r with duplicates := x }⟩]

end Vizra.Search
