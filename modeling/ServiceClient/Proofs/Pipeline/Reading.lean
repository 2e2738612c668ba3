import ServiceClient.Pipeline.Reading
import ServiceClient.Proofs.Pipeline.Attempts

/-! What the retries make of a failure once it has been read. A header that asks to come back later
makes it retryable and sets the wait, as long as the body can be read; if that breaks off, the error
is one of the client and the headers are lost. -/

namespace ServiceClient

open Text (Octets)

namespace Http.Body

variable {b : Body} {sources : Sources}

theorem collect_octets (parts : List Octets) :
    collect (parts.map .octets) = .ok parts.flatten := by
  induction parts with
  | nil => rfl
  | cons s parts ih => simp [collect, ih]

theorem collect_failure (parts : List Octets) (reason : String) (rest : List Chunk) :
    collect (parts.map .octets ++ .failure reason :: rest) = .error (.network reason) := by
  induction parts with
  | nil => rfl
  | cons s parts ih => simp [collect, ih]

theorem exists_eq_map_octets (chunks : List Chunk) : ∃ parts : List Octets,
    chunks = parts.map .octets ∨
      ∃ reason rest, chunks = parts.map .octets ++ .failure reason :: rest := by
  induction chunks with
  | nil => exact ⟨[], .inl rfl⟩
  | cons chunk chunks ih =>
    cases chunk with
    | failure reason => exact ⟨[], .inr ⟨reason, chunks, rfl⟩⟩
    | octets s =>
      obtain ⟨parts, rfl | ⟨reason, rest, rfl⟩⟩ := ih
      · exact ⟨s :: parts, .inl rfl⟩
      · exact ⟨s :: parts, .inr ⟨reason, rest, rfl⟩⟩

/-- What can be had of a body: its octets, or why they cannot be had. -/
inductive Holds (sources : Sources) : Body → Except ClientError Octets → Prop where
  | none : Holds sources .none (.ok [])
  | data (s : Octets) : Holds sources (.data s) (.ok s)
  | stream {source : Nat} (length : Option Nat) (parts : List Octets)
      (h : sources[source]? = some (some (parts.map .octets))) :
      Holds sources (.stream source length) (.ok parts.flatten)
  | broken {source : Nat} (length : Option Nat) (parts : List Octets) (reason : String)
      (rest : List Chunk)
      (h : sources[source]? = some (some (parts.map .octets ++ .failure reason :: rest))) :
      Holds sources (.stream source length) (.error (.network reason))
  | consumed {source : Nat} (length : Option Nat)
      (h : ∀ chunks, sources[source]? ≠ some (some chunks)) :
      Holds sources (.stream source length) (.error .streamConsumed)

theorem read_of_holds {r : Except ClientError Octets} (h : Holds sources b r) :
    (b.read sources).1.map (·.getD []) = r := by
  cases h with
  | none => rfl
  | data s => rfl
  | stream length parts h => simp [read, h, collect_octets, Except.map]
  | broken length parts reason rest h => simp [read, h, collect_failure, Except.map]
  | consumed length h =>
    simp only [read]
    rfl

theorem exists_holds (sources : Sources) (b : Body) : ∃ r, Holds sources b r := by
  cases b with
  | none => exact ⟨_, .none⟩
  | data s => exact ⟨_, .data s⟩
  | stream source length =>
    by_cases h : ∃ chunks, sources[source]? = some (some chunks)
    · obtain ⟨chunks, h⟩ := h
      obtain ⟨parts, rfl | ⟨reason, rest, rfl⟩⟩ := exists_eq_map_octets chunks
      · exact ⟨_, .stream length parts h⟩
      · exact ⟨_, .broken length parts reason rest h⟩
    · exact ⟨_, .consumed length (not_exists.1 h)⟩

theorem Holds.unique {r r' : Except ClientError Octets} (h : Holds sources b r)
    (h' : Holds sources b r') : r = r' :=
  (read_of_holds h).symm.trans (read_of_holds h')

end Http.Body

namespace Retry

variable {h : Http.Headers} {parts : ResponseParts}

theorem delayHint?_eq (h : Http.Headers) : delayHint? h =
    (delayOf? h "x-retry-after").or (delayOf? h "x-amz-retry-after") := by
  simp only [delayHint?, delayHeaders, List.findSome?_cons, List.findSome?_nil]
  cases delayOf? h "x-retry-after" <;> cases delayOf? h "x-amz-retry-after" <;> rfl

theorem exists_categoryOfResponse? (code : Option String) (model : Option ServiceError)
    (h : hasDelayHeader parts.headers = true) :
    ∃ c, categoryOfResponse? code model parts = some c := by
  unfold categoryOfResponse?
  cases code.bind categoryOfCode? with
  | some c => exact ⟨c, rfl⟩
  | none =>
    cases model with
    | none => simp [h]
    | some e => cases he : e.retryable <;> simp [h, he]

end Retry

namespace Pipeline

open Call (Calling Session)
open Http (Request Body)
open Retry (advise? delayOf? delayHint? hasDelayHeader)

variable {s s' : Session}

theorem exists_advise?_error (b : ErrorBinding) (parts : ResponseParts) (body : Octets)
    (h : hasDelayHeader parts.headers = true) :
    ∃ c, advise? (b.error parts body) = some ⟨c, delayHint? parts.headers, false⟩ := by
  unfold ErrorBinding.error
  cases b parts body with
  | error e =>
    obtain ⟨c, hc⟩ := Retry.exists_categoryOfResponse? (errorType? parts.headers) none h
    exact ⟨c, by simp [advise?, hc]⟩
  | ok found =>
    cases found with
    | modeled e =>
      obtain ⟨c, hc⟩ := Retry.exists_categoryOfResponse? e.typeName (some e) h
      exact ⟨c, by simp [ErrorMatch.toCallError, advise?, hc]⟩
    | unknown e =>
      obtain ⟨c, hc⟩ := Retry.exists_categoryOfResponse? e.typeName none h
      exact ⟨c, by simp [ErrorMatch.toCallError, advise?, hc]⟩

theorem bodyOctets_apply {b : Body} {r : Except ClientError Octets}
    (h : Body.Holds s.sources b r) : (Calling.bodyOctets b s).1 = r.mapError .client := by
  have hread : Calling.readBody b s =
      (.ok (b.read s.sources).1, { s with sources := (b.read s.sources).2 }) := rfl
  rw [Calling.bodyOctets, bind_of_ok hread, ← Body.read_of_holds h]
  cases (b.read s.sources).1 <;> rfl

def ErrorBinding.errorOf (b : ErrorBinding) (parts : ResponseParts) :
    Except ClientError Octets → CallError
  | .ok body => b.error parts body
  | .error e => .client e

theorem bindError_apply {α : Type} (b : ErrorBinding) (r : Http.Response)
    {held : Except ClientError Octets} (h : Body.Holds s.sources r.body held) :
    (bindError b r s : Except CallError α × Session).1 = .error (b.errorOf r.parts held) := by
  have hoctets := bodyOctets_apply h
  cases hread : Calling.bodyOctets r.body s with
  | mk outcome s' =>
    rw [hread] at hoctets
    subst hoctets
    cases held with
    | ok body =>
      rw [bindError, bind_of_ok hread]
      rfl
    | error e =>
      rw [bindError, bind_of_error hread]
      rfl

theorem deserialize_apply {ο : Type} (response : ResponseBinding ο) (error : ErrorBinding)
    (request : Request) (next : Next Calling Request (Output ο)) {output : Output ο}
    (hnext : next.run request s = (.ok output, s'))
    (hstatus : isSuccess output.response.status = false) {held : Except ClientError Octets}
    (h : Body.Holds s'.sources output.response.body held) :
    ((deserialize response error).handle request next s).1 =
      .error (error.errorOf output.response.parts held) := by
  refine (congrArg Prod.fst (bind_of_ok hnext)).trans ?_
  rw [hstatus]
  exact bindError_apply error output.response h

/-- A failure with a header that asks to come back later: if its body can be read, a retry waits as
long as the first of the two headers says that says it rightly. A body that breaks off is retried as
a fault of the network, and one that was read before is not. -/
theorem advise?_deserialize {ο : Type} (response : ResponseBinding ο) (error : ErrorBinding)
    (request : Request) (next : Next Calling Request (Output ο)) {output : Output ο}
    (hnext : next.run request s = (.ok output, s'))
    (hstatus : isSuccess output.response.status = false)
    (hheader : output.response.headers.contains "x-retry-after" = true ∨
      output.response.headers.contains "x-amz-retry-after" = true) :
    let headers := output.response.headers
    let Holds := Body.Holds s'.sources output.response.body
    ∃ e, ((deserialize response error).handle request next s).1 = .error e ∧
      (∀ octets, Holds (.ok octets) → ∃ c, advise? e = some ⟨c,
        (delayOf? headers "x-retry-after").or (delayOf? headers "x-amz-retry-after"), false⟩) ∧
      (∀ reason, Holds (.error (.network reason)) →
        advise? e = some ⟨.transient, none, false⟩) ∧
      (Holds (.error .streamConsumed) → advise? e = none) := by
  intro headers Holds
  obtain ⟨held, hheld⟩ := Body.exists_holds s'.sources output.response.body
  refine ⟨_, deserialize_apply response error request next hnext hstatus hheld, ?_, ?_, ?_⟩
  · intro octets hoctets
    rw [hheld.unique hoctets, ← Retry.delayHint?_eq]
    have hdelay : hasDelayHeader output.response.parts.headers = true := by
      simpa [hasDelayHeader, Retry.delayHeaders, Http.Response.parts] using hheader
    exact exists_advise?_error error output.response.parts octets hdelay
  · intro reason hbroken
    rw [hheld.unique hbroken]
    rfl
  · intro hconsumed
    rw [hheld.unique hconsumed]
    rfl

def answering {ο : Type} (r : Http.Response) : Next Calling Request (Output ο) :=
  ⟨0, fun _ => pure ⟨r, none⟩⟩

def busy (body : Body) : Http.Response :=
  ⟨503, Http.Headers.empty.add "x-retry-after" (Text.encode "7"), body⟩

theorem delayOf?_busy (body : Body) :
    delayOf? (busy body).headers "x-retry-after" = some (.ofSeconds 7) := by
  have h : delayOf? (busy .none).headers "x-retry-after" = some (.ofSeconds 7) := by
    decide +kernel
  exact h

theorem advise?_deserialize_busy : isSuccess (busy .none).status = false ∧
    (busy .none).headers.contains "x-retry-after" = true ∧
    ∃ e, ((deserialize (fun _ _ => .ok ()) .unmodeled).handle .empty
        (answering (busy .none)) calm).1 = .error e ∧
      ∃ c, advise? e = some ⟨c, some (.ofSeconds 7), false⟩ := by
  have hheader : (busy .none).headers.contains "x-retry-after" = true := by decide
  obtain ⟨e, he, hread, -⟩ := advise?_deserialize (fun _ _ => .ok ()) .unmodeled .empty
    (answering (busy .none)) (s := calm) rfl rfl (.inl hheader)
  obtain ⟨c, hc⟩ := hread [] .none
  rw [delayOf?_busy] at hc
  exact ⟨rfl, hheader, e, he, c, hc⟩

/-- With a body that breaks off the same header does not count, and with one that was read before the
error is not even retried. -/
theorem not_advise?_deserialize_busy :
    let outcome (sources : Http.Sources) := ((deserialize (fun _ _ => .ok ()) .unmodeled).handle
      .empty (answering (busy (.stream 0 none))) { calm with sources := sources }).1
    (∃ e, outcome [some [.failure "boom"]] = .error e ∧
      ¬ ∃ c, advise? e = some ⟨c, some (.ofSeconds 7), false⟩) ∧
    ∃ e, outcome [none] = .error e ∧ advise? e = none := by
  intro outcome
  refine ⟨⟨.client (.network "boom"), rfl, ?_⟩, .client .streamConsumed, rfl, rfl⟩
  rintro ⟨c, hc⟩
  simp [advise?, ClientError.isTransient] at hc

end Pipeline

end ServiceClient
