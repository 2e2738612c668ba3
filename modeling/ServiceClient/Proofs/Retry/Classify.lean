import Mathlib.Data.List.Basic
import Mathlib.Tactic.SplitIfs
import ServiceClient.Retry.Classify

/-! Which errors are worth another attempt. A known code decides first, and it decides the category
too; apart from that the order of the checks does not show in what is retried. Further headers that
ask to come back later take no attempt away and change no category. -/

namespace ServiceClient

namespace Http.Headers

variable {names : List String} {h h' : Headers}

/-- Fields with some of these names have been added, at any places among the others. -/
structure Gains (names : List String) (h h' : Headers) : Prop where
  kept : h.fields.Sublist h'.fields
  others : h'.fields.filter (·.name ∉ names) = h.fields.filter (·.name ∉ names)

theorem gains_add (h : Headers) {name : String} (hname : Text.lowerAscii name ∈ names)
    (value : Text.Octets) : Gains names h (h.add name value) := by
  refine ⟨List.sublist_append_left _ _, ?_⟩
  simp [add, hname]

theorem contains_iff (h : Headers) (name : String) :
    h.contains name = true ↔ ∃ f ∈ h.fields, f.name = Text.lowerAscii name := by
  simp [contains, get?, values]

theorem Gains.contains (hgains : Gains names h h') {name : String}
    (hname : h.contains name = true) : h'.contains name = true := by
  rw [contains_iff] at hname ⊢
  obtain ⟨f, hf, heq⟩ := hname
  exact ⟨f, hgains.kept.subset hf, heq⟩

end Http.Headers

inductive CallError.Gains (names : List String) : CallError → CallError → Prop
  | service (e : ServiceError) (status : Nat) {h h' : Http.Headers} (hgains : h.Gains names h') :
      Gains names (.service e ⟨status, h⟩) (.service e ⟨status, h'⟩)
  | unknownService (e : UnknownError) (status : Nat) {h h' : Http.Headers}
      (hgains : h.Gains names h') :
      Gains names (.unknownService e ⟨status, h⟩) (.unknownService e ⟨status, h'⟩)

theorem CallError.Gains.exists_parts {names : List String} {e e' : CallError}
    (hgains : e.Gains names e') :
    ∃ status h h', Http.Headers.Gains names h h' ∧ e.response? = some ⟨status, h⟩ ∧
      e'.response? = some ⟨status, h'⟩ ∧ e'.code? = e.code? ∧
        e'.serviceError? = e.serviceError? := by
  cases hgains with
  | service error status hfields => exact ⟨status, _, _, hfields, rfl, rfl, rfl, rfl⟩
  | unknownService error status hfields => exact ⟨status, _, _, hfields, rfl, rfl, rfl, rfl⟩

namespace Retry

open Http (Headers)

section Category

variable {code : Option String} {model : Option ServiceError} {r : ResponseParts} {c : Category}

theorem categoryOfCode?_of_throttling {code : String} (h : code ∈ throttlingCodes) :
    categoryOfCode? code = some .throttling :=
  if_pos h

theorem categoryOfCode?_of_transient {code : String} (h : code ∈ transientCodes) :
    categoryOfCode? code = some .transient := by
  have hapart : ∀ code ∈ transientCodes, code ∉ throttlingCodes := by decide
  rw [categoryOfCode?, if_neg (hapart code h), if_pos h]

theorem isSome_categoryOfCode? (code : String) : (categoryOfCode? code).isSome = true ↔
    code ∈ throttlingCodes ∨ code ∈ transientCodes := by
  unfold categoryOfCode?
  split_ifs with hthrottling htransient <;> simp_all

theorem categoryOfResponse?_of_code (h : code.bind categoryOfCode? = some c) :
    categoryOfResponse? code model r = some c := by
  rw [categoryOfResponse?.eq_def, h]

/-- What makes an error of the service worth another attempt, whatever else holds of it. -/
def IsRetryable (code : Option String) (model : Option ServiceError) (r : ResponseParts) : Prop :=
  (∃ known, code = some known ∧ (known ∈ throttlingCodes ∨ known ∈ transientCodes)) ∨
    (∃ e, model = some e ∧ e.retryable = true) ∨
    (r.headers.contains "x-retry-after" = true ∨ r.headers.contains "x-amz-retry-after" = true) ∨
    model = none ∧ r.status ∈ [500, 502, 503, 504]

theorem hasDelayHeader_iff (h : Headers) : hasDelayHeader h = true ↔
    h.contains "x-retry-after" = true ∨ h.contains "x-amz-retry-after" = true := by
  simp [hasDelayHeader, delayHeaders]

theorem isSome_categoryOfResponse? (code : Option String) (model : Option ServiceError)
    (r : ResponseParts) :
    (categoryOfResponse? code model r).isSome = true ↔ IsRetryable code model r := by
  have hcode : (code.bind categoryOfCode?).isSome = true ↔
      ∃ known, code = some known ∧ (known ∈ throttlingCodes ∨ known ∈ transientCodes) := by
    cases code with
    | none => simp
    | some known => simp [isSome_categoryOfCode?]
  rw [IsRetryable, ← hcode, ← hasDelayHeader_iff, categoryOfResponse?.eq_def]
  cases code.bind categoryOfCode? with
  | some c => simp
  | none =>
    cases model with
    | some e => by_cases hretryable : e.retryable <;> simp [hretryable]
    | none => simp [transientStatuses, or_comm]

theorem categoryOfResponse?_of_gains {status : Nat} {h h' : Headers}
    (hgains : h.Gains delayHeaders h') (hc : categoryOfResponse? code model ⟨status, h⟩ = some c) :
    categoryOfResponse? code model ⟨status, h'⟩ = some c := by
  have hdelay : hasDelayHeader h = true → hasDelayHeader h' = true := by
    simp only [hasDelayHeader_iff]
    exact Or.imp hgains.contains hgains.contains
  unfold categoryOfResponse? at hc ⊢
  cases hcode : code.bind categoryOfCode? with
  | some known =>
    rw [hcode] at hc
    exact hc
  | none =>
    rw [hcode] at hc
    cases model with
    | some e =>
      dsimp only at hc ⊢
      split_ifs at hc with hretryable hbefore
      · rw [if_pos hretryable]
        exact hc
      · rw [if_neg hretryable, if_pos (hdelay hbefore)]
        exact hc
    | none =>
      dsimp only at hc ⊢
      split_ifs at hc with hbefore
      rw [if_pos (hbefore.imp_right hdelay)]
      exact hc

end Category

section Advice

variable {e e' : CallError} {r : ResponseParts} {a : Advice}

theorem advise?_of_response (h : e.response? = some r) : advise? e =
    (categoryOfResponse? e.code? e.serviceError? r).map (⟨·, delayHint? r.headers, false⟩) := by
  cases e with
  | service error parts =>
    obtain rfl := Option.some.inj h
    rfl
  | unknownService error parts =>
    obtain rfl := Option.some.inj h
    rfl
  | _ => cases h

theorem exists_response_of_code {code : String} (h : e.code? = some code) :
    ∃ r, e.response? = some r := by
  cases e with
  | service error parts => exact ⟨parts, rfl⟩
  | unknownService error parts => exact ⟨parts, rfl⟩
  | _ => cases h

theorem advise?_client (fault : ClientError) (a : Advice) : advise? (.client fault) = some a ↔
    (∃ reason, fault = .network reason) ∧ a = ⟨.transient, none, false⟩ ∨
      (∃ window, fault = .timeout window) ∧ a = ⟨.transient, none, true⟩ := by
  cases fault <;> simp [advise?, ClientError.isTransient, ClientError.isTimeout, eq_comm]

theorem isTimeout_of_advise? (h : advise? e = some a) :
    a.isTimeout = true ↔ ∃ window, e = .client (.timeout window) := by
  cases e with
  | client fault =>
    obtain ⟨⟨reason, rfl⟩, rfl⟩ | ⟨⟨window, rfl⟩, rfl⟩ := (advise?_client fault a).1 h
    · simp
    · simp
  | service error parts =>
    obtain ⟨c, -, rfl⟩ := Option.map_eq_some_iff.1 h
    simp
  | unknownService error parts =>
    obtain ⟨c, -, rfl⟩ := Option.map_eq_some_iff.1 h
    simp
  | retry fault => cases h

theorem advise?_of_code {code : String} {c : Category} (hcode : e.code? = some code)
    (hc : categoryOfCode? code = some c) : ∃ a, advise? e = some a ∧ a.category = c := by
  obtain ⟨r, hr⟩ := exists_response_of_code hcode
  have hknown : e.code?.bind categoryOfCode? = some c := by rw [hcode, Option.bind_some, hc]
  rw [advise?_of_response hr, categoryOfResponse?_of_code hknown]
  exact ⟨_, rfl, rfl⟩

theorem advise?_of_gains (hgains : e.Gains delayHeaders e') (h : advise? e = some a) :
    ∃ a', advise? e' = some a' ∧ a'.category = a.category := by
  obtain ⟨status, before, after, hfields, hresponse, hresponse', hcode, hmodel⟩ :=
    hgains.exists_parts
  rw [advise?_of_response hresponse] at h
  obtain ⟨c, hc, rfl⟩ := Option.map_eq_some_iff.1 h
  rw [advise?_of_response hresponse', hcode, hmodel, categoryOfResponse?_of_gains hfields hc]
  exact ⟨_, rfl, rfl⟩

/-- Which errors are retried and as what: faults of the network and timeouts on this side, and an
error of the service for any of four reasons, of which a known code names the category. An error
that has gained headers with a delay is retried if it was before, as what it was. -/
theorem advise?_precedence (e : CallError) :
    (∀ fault, e = .client fault → ∀ a, advise? e = some a ↔
      (∃ reason, fault = .network reason) ∧ a = ⟨.transient, none, false⟩ ∨
        (∃ window, fault = .timeout window) ∧ a = ⟨.transient, none, true⟩) ∧
    (∀ fault, e = .retry fault → advise? e = none) ∧
    (∀ r, e.response? = some r →
      ((advise? e).isSome = true ↔ IsRetryable e.code? e.serviceError? r)) ∧
    (∀ code, e.code? = some code →
      (code ∈ throttlingCodes → ∃ a, advise? e = some a ∧ a.category = .throttling) ∧
        (code ∈ transientCodes → ∃ a, advise? e = some a ∧ a.category = .transient)) ∧
    (∀ a, advise? e = some a → (a.isTimeout = true ↔ ∃ window, e = .client (.timeout window))) ∧
    ∀ e' a, e.Gains delayHeaders e' → advise? e = some a →
      ∃ a', advise? e' = some a' ∧ a'.category = a.category := by
  refine ⟨?_, ?_, fun r hr => ?_, fun code hcode => ⟨fun hmem => ?_, fun hmem => ?_⟩,
    fun a h => isTimeout_of_advise? h, fun e' a hgains h => advise?_of_gains hgains h⟩
  · rintro fault rfl a
    exact advise?_client fault a
  · rintro fault rfl
    rfl
  · rw [advise?_of_response hr, Option.isSome_map]
    exact isSome_categoryOfResponse? _ _ _
  · exact advise?_of_code hcode (categoryOfCode?_of_throttling hmem)
  · exact advise?_of_code hcode (categoryOfCode?_of_transient hmem)

def tooFast : ServiceError := ⟨some "SlowDown", none, .client, false, false, "slow down"⟩

def unwilling : Headers := Headers.empty.add "retry-after" (Text.encode "1")

def unwillingForNow : Headers := unwilling.add "X-Retry-After" (Text.encode "soon")

/-- A header with a delay makes nothing else of an error that its code has put into a category. -/
theorem advise?_precedence_tooFast :
    let before : CallError := .service tooFast ⟨400, unwilling⟩
    let after : CallError := .service tooFast ⟨400, unwillingForNow⟩
    before.Gains delayHeaders after ∧ before.code? = some "SlowDown" ∧
      "SlowDown" ∈ throttlingCodes ∧ (∃ a, advise? before = some a ∧ a.category = .throttling) ∧
        ∃ a, advise? after = some a ∧ a.category = .throttling := by
  intro before after
  have hgains : before.Gains delayHeaders after :=
    .service tooFast 400 (unwilling.gains_add (by decide) (Text.encode "soon"))
  have hlisted : "SlowDown" ∈ throttlingCodes := by decide
  obtain ⟨-, -, -, hcode, -, hgained⟩ := advise?_precedence before
  obtain ⟨a, ha, hcategory⟩ := (hcode "SlowDown" rfl).1 hlisted
  obtain ⟨a', ha', hsame⟩ := hgained after a hgains ha
  exact ⟨hgains, rfl, hlisted, ⟨a, ha, hcategory⟩, a', ha', hsame.trans hcategory⟩

end Advice

end Retry

end ServiceClient
