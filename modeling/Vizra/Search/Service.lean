import Vizra.Search.Remote

/-!
# The composition of both searchers (`internal/search/service.go`)

`sql` is the answer of the SQL searcher to the request at hand.
-/

namespace Vizra.Search

variable {α : Type}

/-- A service without a client is `SEARCH_MODE=off`. -/
structure Service where
  remote : Option RemoteClient
deriving DecidableEq, Repr

/-- The switch of `Search` and of `Suggest`. -/
def answer (status : α → String) (sql : Except String α) : Except String α → Except String α
  | .error _ => sql
  | .ok res => if status res = statusNotIndexed then sql else .ok res

namespace Service

def health (s : Service) (p : RemoteClient.Ping) : Service × Health :=
  match s.remote with
  | none => (s, .off)
  | some c => (⟨some (c.probe p).1⟩, (c.probe p).2)

def search (parseFloat : List Char → Option UInt64) (s : Service) (sql : Except String SearchResult)
    (x : Exchange) : Service × Except String SearchResult :=
  match s.remote with
  | none => (s, sql)
  | some c => (⟨some (c.search parseFloat x).1⟩, answer SearchResult.status sql (c.search parseFloat x).2)

def suggest (s : Service) (sql : Except String SuggestResult) (x : Exchange) :
    Service × Except String SuggestResult :=
  match s.remote with
  | none => (s, sql)
  | some c => (⟨some (c.suggest x).1⟩, answer SuggestResult.status sql (c.suggest x).2)

def publish (s : Service) (sql : Except String PublishResult) (x : Exchange) :
    Service × Except String PublishResult :=
  match s.remote with
  | none => (s, sql)
  | some c => (⟨some (c.publish x).1⟩, (c.publish x).2)

end Service

end Vizra.Search
