import Vizra.Search.Service

/-!
# How remote answers are classified

`Service` falls back to SQL with health degraded on a fault, and with health ok on `not_indexed`. An answer
that was decoded and has any other status takes the default branch of its switch: it is returned, whatever
the status is. So the classification is complete exactly on the exchanges whose decoded status, if there is
one, is one of the two of the contract.
-/

namespace Vizra.Search

open Go

variable {α : Type} {unmarshal : List UInt8 → Option α} {status : α → String} {finish : α → α}
  {sql : Except String α} {x : Exchange}

/-! ## The classification -/

/-- What is decoded from the body of a 200 response; everything else is a fault. -/
def Exchange.parsed (unmarshal : List UInt8 → Option α) : Exchange → Option α
  | .response statusCode body => if statusCode = 200 then unmarshal (body.take maxResponseBytes) else none
  | _ => none

/-- The answer and the recorded health that a parsed answer, or a fault, is to have. -/
def classify (status : α → String) (finish : α → α) (sql : Except String α) :
    Option α → Except String α × Health
  | none => (sql, .degraded)
  | some out =>
    if status out = statusOK then (.ok (finish out), .ok)
    else if status out = statusNotIndexed then (sql, .ok)
    else (sql, .degraded)

def Recognised (status : α → String) (parsed : Option α) : Prop :=
  ∀ out, parsed = some out → status out = statusOK ∨ status out = statusNotIndexed

/-- The health that `call` records. -/
def recorded : Option α → Health
  | none => .degraded
  | some _ => .ok

/-! ## What the code does -/

theorem exchange_of_parsed_some (path : String) {out : α} (h : x.parsed unmarshal = some out) :
    exchange path unmarshal x = .ok out := by
  cases x with
  | encoding | request | signing | transport | reading => cases h
  | response statusCode body =>
    simp only [Exchange.parsed] at h
    simp only [exchange]
    by_cases hcode : statusCode = 200
    · rw [if_pos hcode] at h
      simp [hcode, h]
    · rw [if_neg hcode] at h
      cases h

theorem exchange_of_parsed_none (path : String) (h : x.parsed unmarshal = none) :
    ∃ err, exchange path unmarshal x = .error err := by
  cases x with
  | encoding | request | signing | transport | reading => exact ⟨_, rfl⟩
  | response statusCode body =>
    simp only [Exchange.parsed] at h
    simp only [exchange]
    by_cases hcode : statusCode = 200
    · rw [if_pos hcode] at h
      simp [hcode, h]
    · simp [hcode]

/-- The client after a call reports what the call met, without a request of its own. -/
theorem probe_call (c : RemoteClient) (path : String) (x : Exchange) (p : RemoteClient.Ping) :
    ((c.call path unmarshal x).1.probe p).2 = recorded (x.parsed unmarshal) := by
  cases h : x.parsed unmarshal with
  | none =>
    obtain ⟨err, herr⟩ := exchange_of_parsed_none path h
    simp [RemoteClient.call, RemoteClient.probe, recorded, herr, Except.toBool]
  | some out =>
    have hok := exchange_of_parsed_some path h
    simp [RemoteClient.call, RemoteClient.probe, recorded, hok, Except.toBool]

theorem answer_of_parsed_none (path : String) (h : x.parsed unmarshal = none) :
    answer status sql ((exchange path unmarshal x).map finish) = sql := by
  obtain ⟨err, herr⟩ := exchange_of_parsed_none path h
  rw [herr]
  rfl

theorem answer_of_parsed_some {out : α} (path : String) (hstatus : ∀ out, status (finish out) = status out)
    (h : x.parsed unmarshal = some out) :
    answer status sql ((exchange path unmarshal x).map finish) =
      if status out = statusNotIndexed then sql else .ok (finish out) := by
  rw [exchange_of_parsed_some path h]
  simp [Except.map, answer, hstatus]

/-! ## Where both agree -/

theorem classified_of_recognised (path : String) (hstatus : ∀ out, status (finish out) = status out)
    (h : Recognised status (x.parsed unmarshal)) :
    (answer status sql ((exchange path unmarshal x).map finish), recorded (x.parsed unmarshal)) =
      classify status finish sql (x.parsed unmarshal) := by
  cases hp : x.parsed unmarshal with
  | none =>
    rw [answer_of_parsed_none path hp]
    rfl
  | some out =>
    rw [answer_of_parsed_some path hstatus hp]
    have hne : statusOK ≠ statusNotIndexed := by decide
    rcases h out hp with hout | hout
    · simp [classify, recorded, hout, hne]
    · simp [classify, recorded, hout, hne.symm]

theorem recognised_of_classified (path : String) (hstatus : ∀ out, status (finish out) = status out)
    (h : ∀ sql, (answer status sql ((exchange path unmarshal x).map finish), recorded (x.parsed unmarshal)) =
      classify status finish sql (x.parsed unmarshal)) : Recognised status (x.parsed unmarshal) := by
  intro out hp
  by_contra hne
  rw [not_or] at hne
  have hsql := h (.error "")
  rw [hp, answer_of_parsed_some path hstatus hp, if_neg hne.2] at hsql
  simp [classify, recorded, hne.1, hne.2] at hsql

theorem classified_iff (path : String) (hstatus : ∀ out, status (finish out) = status out) :
    (∀ sql, (answer status sql ((exchange path unmarshal x).map finish), recorded (x.parsed unmarshal)) =
      classify status finish sql (x.parsed unmarshal)) ↔ Recognised status (x.parsed unmarshal) := by
  constructor
  · intro h
    exact recognised_of_classified path hstatus h
  · intro h sql
    exact classified_of_recognised path hstatus h

/-! ## The service -/

section

variable (parseFloat : List Char → Option UInt64)

def Exchange.searchResult (x : Exchange) : Option SearchResult :=
  x.parsed (Json.unmarshal SearchResult.zero (SearchResult.decoder parseFloat))

def Exchange.suggestResult (x : Exchange) : Option SuggestResult :=
  x.parsed (Json.unmarshal SuggestResult.zero SuggestResult.decoder)

def Exchange.publishResult (x : Exchange) : Option PublishResult :=
  x.parsed (Json.unmarshal PublishResult.zero PublishResult.decoder)

end

theorem service_search (parseFloat : List Char → Option UInt64) (c : RemoteClient)
    (sql : Except String SearchResult) (x : Exchange) (p : RemoteClient.Ping) :
    ((Service.search parseFloat ⟨some c⟩ sql x).2,
      ((Service.search parseFloat ⟨some c⟩ sql x).1.health p).2) =
    (answer SearchResult.status sql ((exchange "/internal/v1/search"
      (Json.unmarshal SearchResult.zero (SearchResult.decoder parseFloat)) x).map SearchResult.nonNil),
      recorded (x.searchResult parseFloat)) := by
  refine Prod.ext rfl ?_
  exact probe_call c "/internal/v1/search" x p

theorem service_suggest (c : RemoteClient) (sql : Except String SuggestResult) (x : Exchange)
    (p : RemoteClient.Ping) :
    ((Service.suggest ⟨some c⟩ sql x).2, ((Service.suggest ⟨some c⟩ sql x).1.health p).2) =
    (answer SuggestResult.status sql ((exchange "/internal/v1/suggestions"
      (Json.unmarshal SuggestResult.zero SuggestResult.decoder) x).map SuggestResult.nonNil),
      recorded x.suggestResult) := by
  refine Prod.ext rfl ?_
  exact probe_call c "/internal/v1/suggestions" x p

theorem service_publish_ok (c : RemoteClient) (sql : Except String PublishResult) (x : Exchange)
    (out : PublishResult) :
    (Service.publish ⟨some c⟩ sql x).2 = .ok out ↔ x.publishResult = some out := by
  have hcall : (Service.publish ⟨some c⟩ sql x).2 = exchange "/internal/v1/events"
    (Json.unmarshal PublishResult.zero PublishResult.decoder) x := rfl
  rw [hcall]
  unfold Exchange.publishResult
  constructor
  · intro h
    cases hp : x.parsed (Json.unmarshal PublishResult.zero PublishResult.decoder) with
    | none =>
      obtain ⟨err, herr⟩ := exchange_of_parsed_none "/internal/v1/events" hp
      rw [herr] at h
      cases h
    | some out' =>
      rw [exchange_of_parsed_some _ hp] at h
      cases h
      rfl
  · intro h
    exact exchange_of_parsed_some _ h

/-- For every exchange, `Search` and `Suggest` classify it for every answer of the SQL searcher, and `Publish`
succeeds only on a status of the contract, exactly if a decoded status is one of the contract. -/
theorem classified_iff_recognised (parseFloat : List Char → Option UInt64) (c : RemoteClient) (x : Exchange)
    (p : RemoteClient.Ping) :
    ((∀ sql, ((Service.search parseFloat ⟨some c⟩ sql x).2,
        ((Service.search parseFloat ⟨some c⟩ sql x).1.health p).2) =
      classify SearchResult.status SearchResult.nonNil sql (x.searchResult parseFloat)) ↔
      Recognised SearchResult.status (x.searchResult parseFloat)) ∧
    ((∀ sql, ((Service.suggest ⟨some c⟩ sql x).2, ((Service.suggest ⟨some c⟩ sql x).1.health p).2) =
      classify SuggestResult.status SuggestResult.nonNil sql x.suggestResult) ↔
      Recognised SuggestResult.status x.suggestResult) ∧
    ((∀ sql out, (Service.publish ⟨some c⟩ sql x).2 = .ok out →
      out.status = statusOK ∨ out.status = statusNotIndexed) ↔
      Recognised PublishResult.status x.publishResult) := by
  refine ⟨?_, ?_, ?_⟩
  · simp only [service_search]
    exact classified_iff _ fun _ => rfl
  · simp only [service_suggest]
    exact classified_iff _ fun _ => rfl
  · simp only [service_publish_ok]
    constructor
    · intro h out hout
      exact h (.error "") out hout
    · intro h _ out hout
      exact h out hout

/-- A 503 response. -/
theorem classified_iff_recognised_unavailable :
    ((Service.search (fun _ => none) ⟨some .fresh⟩ (.error "sql") (.response 503 [])).2,
      ((Service.search (fun _ => none) ⟨some .fresh⟩ (.error "sql") (.response 503 [])).1.health
        (.response 200)).2) = (.error "sql", Health.degraded) := by
  refine (classified_iff_recognised (fun _ => none) .fresh (.response 503 []) (.response 200)).1.mpr ?_ _
  intro out hout
  cases hout

/-- A 200 response whose body is the empty object: its empty status is returned instead of the answer of the
SQL searcher, with health ok, and `Publish` succeeds. -/
theorem empty_object_unclassified :
    (Service.search (fun _ => none) ⟨some .fresh⟩ (.error "sql") (.response 200 [0x7b, 0x7d])).2 =
      .ok { status := "", results := some [], total := 0, tookMS := 0, searchSchemaVersion := none } ∧
    ((Service.search (fun _ => none) ⟨some .fresh⟩ (.error "sql") (.response 200 [0x7b, 0x7d])).1.health
      (.response 200)).2 = .ok ∧
    (Service.suggest ⟨some .fresh⟩ (.error "sql") (.response 200 [0x7b, 0x7d])).2 =
      .ok { status := "", suggestions := some [], tookMS := 0 } ∧
    (Service.publish ⟨some .fresh⟩ (.error "sql") (.response 200 [0x7b, 0x7d])).2 =
      .ok { status := "", accepted := 0, duplicates := 0 } :=
  ⟨rfl, rfl, rfl, rfl⟩

end Vizra.Search
