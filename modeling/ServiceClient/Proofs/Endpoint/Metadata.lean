import ServiceClient.Endpoint.Metadata

/-! Which side a field of merged metadata comes from. A list of the call goes first where it names
anything. A text of the call goes first where there is one, even an empty one, so the rule that only
what says something goes first is broken by an empty text, and by nothing else. -/

namespace ServiceClient.Endpoint

namespace Metadata

inductive TextField where
  | hostName
  | region
  | serviceId

inductive NamesField where
  | protocols
  | signatureVersions

def text? (m : Metadata) : TextField → Option String
  | .hostName => m.hostName
  | .region => m.scope.region
  | .serviceId => m.scope.serviceId

def names (m : Metadata) : NamesField → List String
  | .protocols => m.protocols
  | .signatureVersions => m.signatureVersions

def IsSaid (t : Option String) : Prop := t ≠ none ∧ t ≠ some ""

instance (t : Option String) : Decidable (IsSaid t) := inferInstanceAs (Decidable (_ ∧ _))

/-- The rule of precedence: every field is the call's where that is there and not empty, else the
default's. -/
structure Prefers (own others merged : Metadata) : Prop where
  text : ∀ f, merged.text? f = if IsSaid (own.text? f) then own.text? f else others.text? f
  names : ∀ f, merged.names f = if own.names f ≠ [] then own.names f else others.names f

variable {own others : Metadata}

theorem text?_merge (own others : Metadata) (f : TextField) :
    (own.merge others).text? f = (own.text? f).or (others.text? f) := by
  cases f <;> exact Option.or_eq_orElse.symm

theorem pickNonEmpty_eq (l more : List String) :
    pickNonEmpty l more = if l ≠ [] then l else more := by
  cases l <;> rfl

theorem names_merge (own others : Metadata) (f : NamesField) : (own.merge others).names f =
    if own.names f ≠ [] then own.names f else others.names f := by
  cases f <;> exact pickNonEmpty_eq _ _

theorem or_eq_said_iff {t more : Option String} :
    t.or more = (if IsSaid t then t else more) ↔ (t = some "" → more = some "") := by
  cases t with
  | none => simp [IsSaid]
  | some s =>
    by_cases hs : s = ""
    · simp [IsSaid, hs, eq_comm]
    · simp [IsSaid, hs]

/-- The rule holds but for a text that the call leaves empty and the defaults do not. -/
theorem prefers_merge_iff : Prefers own others (own.merge others) ↔
    ∀ f, own.text? f = some "" → others.text? f = some "" := by
  constructor
  · intro h f
    exact or_eq_said_iff.1 (text?_merge own others f ▸ h.text f)
  · intro h
    refine ⟨fun f => ?_, names_merge own others⟩
    rw [text?_merge]
    exact or_eq_said_iff.2 (h f)

theorem ext_fields {m m' : Metadata} (htext : ∀ f, m.text? f = m'.text? f)
    (hnames : ∀ f, m.names f = m'.names f)
    (hscope : m.credentialScope.isSome ∧ m'.credentialScope.isSome) : m = m' := by
  obtain ⟨host, protocols, scope, versions⟩ := m
  obtain ⟨host', protocols', scope', versions'⟩ := m'
  obtain ⟨⟨region, service⟩, rfl⟩ := Option.isSome_iff_exists.1 hscope.1
  obtain ⟨⟨region', service'⟩, rfl⟩ := Option.isSome_iff_exists.1 hscope.2
  obtain rfl : host = host' := htext .hostName
  obtain rfl : region = region' := htext .region
  obtain rfl : service = service' := htext .serviceId
  obtain rfl : protocols = protocols' := hnames .protocols
  obtain rfl : versions = versions' := hnames .signatureVersions
  rfl

theorem merge_assoc (m own others : Metadata) :
    (m.merge own).merge others = m.merge (own.merge others) := by
  refine ext_fields (fun f => ?_) (fun f => ?_) ⟨rfl, rfl⟩
  · simp only [text?_merge, Option.or_assoc]
  · by_cases hm : m.names f = []
    · simp [names_merge, hm]
    · simp [names_merge, hm]

theorem resolve_eq (own others : Metadata) : own.resolve others =
    match own.hostName.or others.hostName with
    | none => .error .hostnameMissing
    | some host =>
      .ok ((own.merge others).resolvedAt (.ofHost host (own.merge others).protocol)) := by
  have hhost : (own.merge others).hostName = own.hostName.or others.hostName :=
    text?_merge own others .hostName
  rw [← hhost]
  rfl

theorem resolve_eq_error_iff {e : EndpointError} : own.resolve others = .error e ↔
    e = .hostnameMissing ∧ own.hostName = none ∧ others.hostName = none := by
  rw [resolve_eq, ← Option.or_eq_none_iff]
  cases own.hostName.or others.hostName <;> simp [eq_comm]

theorem resolve_host_iff {host : String} :
    (∃ r, own.resolve others = .ok r ∧ r.endpoint.host = host) ↔
      own.hostName.or others.hostName = some host := by
  rw [resolve_eq]
  cases own.hostName.or others.hostName with
  | none => simp
  | some chosen => simp [resolvedAt, Http.Endpoint.ofHost]

theorem resolve_of_ne (h : own.hostName.or others.hostName ≠ some "") :
    (own.resolve others = .error .hostnameMissing ↔
      ¬ IsSaid own.hostName ∧ ¬ IsSaid others.hostName) ∧
    ∀ r, own.resolve others = .ok r → r.endpoint.host ≠ "" := by
  constructor
  · rw [resolve_eq_error_iff]
    cases hown : own.hostName with
    | some s =>
      have hs : s ≠ "" := by simpa [hown] using h
      simp [IsSaid, hs]
    | none =>
      have hothers : others.hostName ≠ some "" := by simpa [hown] using h
      simp [IsSaid, hothers]
  · intro r hr hhost
    exact h (resolve_host_iff.1 ⟨r, hr, hhost⟩)

/-- Merged fields follow the rule of precedence unless the call has an empty text where the defaults
have another; the host is the one that the call has, even if it is empty, else the default's; and
it does not matter which of three are merged first. -/
theorem merge_precedence (own others more : Metadata) :
    (Prefers own others (own.merge others) ↔
      ∀ f, own.text? f = some "" → others.text? f = some "") ∧
    (∀ e, own.resolve others = .error e ↔
      e = .hostnameMissing ∧ own.hostName = none ∧ others.hostName = none) ∧
    (∀ host, (∃ r, own.resolve others = .ok r ∧ r.endpoint.host = host) ↔
      own.hostName.or others.hostName = some host) ∧
    (own.hostName.or others.hostName ≠ some "" →
      (own.resolve others = .error .hostnameMissing ↔
        ¬ IsSaid own.hostName ∧ ¬ IsSaid others.hostName) ∧
      ∀ r, own.resolve others = .ok r → r.endpoint.host ≠ "") ∧
    (own.merge others).merge more = own.merge (others.merge more) :=
  ⟨prefers_merge_iff, fun _ => resolve_eq_error_iff, fun _ => resolve_host_iff, resolve_of_ne,
    merge_assoc own others more⟩

def signedCall : Metadata := ⟨none, ["http"], some ⟨none, some "custom"⟩, []⟩

def regional : Metadata :=
  ⟨some "default.example.com", ["https"], some ⟨some "us-east-1", some "svc"⟩, ["v4"]⟩

theorem merge_precedence_regional :
    Prefers signedCall regional (signedCall.merge regional) ∧
    (∃ r, signedCall.resolve regional = .ok r ∧ r.endpoint.host = "default.example.com") ∧
    ∀ r, signedCall.resolve regional = .ok r → r.endpoint.host ≠ "" := by
  obtain ⟨hprefers, -, hhost, hempty, -⟩ := merge_precedence signedCall regional .empty
  refine ⟨hprefers.2 fun f => ?_, (hhost _).2 (by decide), (hempty (by decide)).2⟩
  cases f <;> decide

/-- An empty host of the call is taken, although the defaults have one. -/
theorem not_prefers_merge_unnamed :
    let unnamed : Metadata := ⟨some "", [], none, []⟩
    ¬ Prefers unnamed regional (unnamed.merge regional) ∧
    ∃ r, unnamed.resolve regional = .ok r ∧ r.endpoint.host = "" := by
  intro unnamed
  refine ⟨fun h => ?_, resolve_host_iff.2 (by decide)⟩
  exact absurd (h.text .hostName) (by decide)

end Metadata

end ServiceClient.Endpoint
