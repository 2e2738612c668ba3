import Mathlib.Data.List.DropRight
import ServiceClient.Pipeline.Addressing
import ServiceClient.Pipeline.Drafting
import ServiceClient.Pipeline.Preparation
import ServiceClient.Proofs.Http.Request
import ServiceClient.Proofs.Pipeline.Attempts
import ServiceClient.Proofs.Run

/-! Where a request goes. The path of its input, behind a fixed start and the path of the endpoint, is
what the address ends with, and the request goes to the host of the endpoint. A start without a slash
in front is the exception: it runs into what is before it, and that may be the host. -/

namespace ServiceClient

namespace Endpoint

theorem isSound_of_resolve {resolver : Resolver} {p : Params} {resolved : Resolved}
    (h : resolver.resolve p = .ok resolved) : resolved.endpoint.IsSound := by
  unfold Resolver.resolve at h
  split at h
  · split at h
    · cases h
    · rename_i hurl
      rw [← Except.ok.inj h]
      exact Http.Endpoint.isSound_ofUrl hurl
  · obtain ⟨found, hfound, h⟩ := exists_of_bind h
    obtain ⟨host, -, h⟩ := exists_of_bind h
    unfold Metadata.resolve at hfound
    dsimp only at hfound
    split at hfound
    · cases hfound
    · rw [← Except.ok.inj h, ← Except.ok.inj hfound]
      refine Http.Endpoint.isSound_of_root rfl fun p hp => ?_
      cases hp

end Endpoint

namespace Pipeline

open Call (Calling Session)
open Http (Request)
open Http.Request (dropTrailingSlashes)

section Paths

variable {base start path : String}

def slashed (s : String) : String := if s.toList.head? = some '/' then s else "/" ++ s

theorem joinPath_eq (start path : String) :
    joinPath start path = dropTrailingSlashes start ++ slashed path := by
  unfold joinPath slashed
  dsimp only
  split
  · rfl
  · rw [String.append_assoc]

/-- The path that a request is meant to have: every part begins with a slash, the first two if they
are not empty. -/
def fullPath (base start path : String) : String :=
  let start := dropTrailingSlashes start
  dropTrailingSlashes base ++ (if start = "" then "" else slashed start) ++ slashed path

def IsLed (start : String) : Prop :=
  dropTrailingSlashes start = "" ∨ (dropTrailingSlashes start).toList.head? = some '/'

theorem toList_dropTrailingSlashes (s : String) :
    (dropTrailingSlashes s).toList = s.toList.rdropWhile (· == '/') := by
  rw [dropTrailingSlashes, String.toList_ofList, List.rdropWhile]

theorem subset_dropTrailingSlashes (s : String) :
    (dropTrailingSlashes s).toList ⊆ s.toList := by
  rw [toList_dropTrailingSlashes]
  exact (List.rdropWhile_prefix _ _).subset

theorem isLed_of_head (h : base.toList.head? = some '/') : IsLed base := by
  obtain ⟨rest, hrest⟩ := List.rdropWhile_prefix (· == '/') base.toList
  rw [← toList_dropTrailingSlashes] at hrest
  cases hstart : (dropTrailingSlashes base).toList with
  | nil => exact .inl (String.toList_eq_nil_iff.1 hstart)
  | cons c more =>
    refine .inr ?_
    rw [← hrest, hstart] at h
    rw [hstart]
    exact h

theorem head_slashed (s : String) : (slashed s).toList.head? = some '/' := by
  unfold slashed
  split
  · assumption
  · simp

theorem mem_slashed {s : String} {c : Char} (h : c ∈ (slashed s).toList) : c = '/' ∨ c ∈ s.toList := by
  unfold slashed at h
  split at h
  · exact .inr h
  · simpa using h

theorem head_append {x y : String} (hx : x = "" ∨ x.toList.head? = some '/')
    (hy : y.toList.head? = some '/') : (x ++ y).toList.head? = some '/' := by
  rcases hx with rfl | hx
  · simpa using hy
  · rw [String.toList_append, List.head?_append, hx]
    rfl

theorem fullPath_of_isLed (h : IsLed start) :
    fullPath base start path = dropTrailingSlashes base ++ joinPath start path := by
  have hstart : (if dropTrailingSlashes start = "" then "" else slashed (dropTrailingSlashes start)) =
      dropTrailingSlashes start := by
    split
    · rename_i hempty
      rw [hempty]
    · rename_i hempty
      exact if_pos (h.resolve_left hempty)
  rw [fullPath, hstart, joinPath_eq, String.append_assoc]

theorem fullPath_of_not_isLed (h : ¬ IsLed start) : fullPath base start path =
    dropTrailingSlashes base ++ ("/" ++ joinPath start path) := by
  obtain ⟨hempty, hhead⟩ := not_or.1 h
  rw [fullPath, if_neg hempty, slashed, if_neg hhead, joinPath_eq]
  simp only [String.append_assoc]

theorem head_fullPath (h : base.toList.head? = some '/') :
    (fullPath base start path).toList.head? = some '/' := by
  by_cases hstart : IsLed start
  · rw [fullPath_of_isLed hstart, joinPath_eq]
    exact head_append (isLed_of_head h) (head_append hstart (head_slashed path))
  · rw [fullPath_of_not_isLed hstart]
    exact head_append (isLed_of_head h) (by simp)

theorem one_lt_length_of_not_isLed (h : ¬ IsLed start) (path : String) :
    1 < (joinPath start path).toList.length := by
  have hstart : (dropTrailingSlashes start).toList ≠ [] := fun hnil =>
    h (.inl (String.toList_eq_nil_iff.1 hnil))
  have hpath : (slashed path).toList ≠ [] := fun hnil => by
    have hhead := head_slashed path
    rw [hnil] at hhead
    cases hhead
  rw [joinPath_eq, String.toList_append, List.length_append]
  have := List.length_pos_of_ne_nil hstart
  have := List.length_pos_of_ne_nil hpath
  omega

end Paths

section Routes

variable {ι ο : Type} (start : String) (path? : ι → Option String)
  (items : ι → List Http.QueryItem) (resolver : Endpoint.Resolver)

def directed (finishing reading : Step Calling Request (Output ο)) : Stack ι ο where
  id := "Directed"
  preparation := ⟨"Initialize", [urlPath start path?]⟩
  drafting := ⟨"Serialize", [queryItems items]⟩
  addressing := ⟨"Build", [endpointResolver resolver]⟩
  finishing := finishing
  reading := reading

variable {start path? resolver}

def addressed (c : Call.Context) (start path : String) (items : List Http.QueryItem)
    (e : Http.Endpoint) : Request :=
  Request.atEndpoint
    { Stack.blankRequest { c with path := joinPath start path } with query := items } e

theorem send_directed {s : Session} {input : ι} {path : String} {resolved : Endpoint.Resolved}
    (hpath : path? input = some path)
    (hresolve : resolver.resolve s.context.endpointParams = .ok resolved)
    (finishing reading : Step Calling Request (Output ο)) (transport : Request → Calling (Output ο)) :
    (directed start path? items resolver finishing reading).send transport input s =
      finishing.run (reading.run transport)
        (addressed s.context start path (items input) (prefixedHost s.context resolved.endpoint))
        { s with context :=
          Call.Context.withEndpoint { s.context with path := joinPath start path } resolved } := by
  let prepared : Session := { s with context := { s.context with path := joinPath start path } }
  let request : Request := { Stack.blankRequest prepared.context with query := items input }
  let finish : Request → Calling (Output ο) := finishing.run (reading.run transport)
  have hprepare : (urlPath start path?).handle input
      ⟨0, fun input => do
        (queryItems items).handle ⟨input, Stack.blankRequest (← Calling.context)⟩
          ⟨0, fun d => (endpointResolver resolver).handle d.request ⟨0, finish⟩⟩⟩ s =
      (endpointResolver resolver).handle request ⟨0, finish⟩ prepared := by
    simp only [urlPath, hpath]
    rfl
  have hresolved : (endpointResolver resolver).handle request ⟨0, finish⟩ prepared =
      finish (request.atEndpoint (prefixedHost s.context resolved.endpoint))
        { prepared with context := prepared.context.withEndpoint resolved } := by
    have hcontext : (Calling.context : Calling Call.Context) prepared =
      (.ok prepared.context, prepared) := rfl
    have hparams : resolver.resolve prepared.context.endpointParams = .ok resolved := hresolve
    refine (bind_of_ok hcontext).trans ?_
    rw [hparams]
    rfl
  exact hprepare.trans hresolved

section Uri

variable {c : Call.Context} {path : String} {e : Http.Endpoint} {u : Http.Uri}
  {items : List Http.QueryItem}

theorem path_addressed : (addressed c start path items e).endpoint.path =
    dropTrailingSlashes e.path ++ joinPath start path := rfl

theorem plain_addressed (hsound : e.IsSound)
    (hplain : ∀ c ∈ start.toList ++ path.toList, Http.Uri.isInPath c = true) :
    ∀ d ∈ (addressed c start path items e).endpoint.path.toList, Http.Uri.isInPath d = true := by
  obtain ⟨hstart, hpath⟩ := List.forall_mem_append.1 hplain
  intro d hd
  rw [path_addressed, joinPath_eq, String.toList_append, String.toList_append, List.mem_append,
    List.mem_append] at hd
  rcases hd with hd | hd | hd
  · exact hsound.plain d (subset_dropTrailingSlashes e.path hd)
  · exact hstart d (subset_dropTrailingSlashes start hd)
  · rcases mem_slashed hd with rfl | hd
    · decide
    · exact hpath d hd

theorem isSound_addressed (hsound : e.IsSound)
    (hplain : ∀ c ∈ start.toList ++ path.toList, Http.Uri.isInPath c = true)
    (h : IsLed start ∨ dropTrailingSlashes e.path ≠ "") :
    (addressed c start path items e).endpoint.IsSound := by
  refine ⟨?_, plain_addressed hsound hplain, hsound.port⟩
  rw [path_addressed]
  rcases h with hstart | hbase
  · rw [joinPath_eq]
    exact head_append (isLed_of_head hsound.slash) (head_append hstart (head_slashed path))
  · have hhead := (isLed_of_head hsound.slash).resolve_left hbase
    rw [String.toList_append, List.head?_append, hhead]
    rfl

/-- The address has the path that is meant just where the start does not run into what is in front of
it: else a slash is missing, and a part of the start may be missing too. -/
theorem path_eq_fullPath_iff (hsound : e.IsSound)
    (hplain : ∀ c ∈ start.toList ++ path.toList, Http.Uri.isInPath c = true)
    (hhost : Http.Uri.IsHost e.host.toList) (hu : (addressed c start path items e).uri = .ok u) :
    u.path = fullPath e.path start path ↔ IsLed start := by
  constructor
  · intro h
    by_contra hnot
    have hle := Request.length_path_le hu (fun d hd => (hhost.ne_of_mem hd).2)
      (plain_addressed hsound hplain)
    have hlt := one_lt_length_of_not_isLed hnot path
    rw [h, fullPath_of_not_isLed hnot, path_addressed] at hle
    simp only [String.toList_append, List.length_append, show "/".toList.length = 1 from rfl] at hle
    omega
  · intro h
    rw [(Request.uri_of_slash hu hhost (isSound_addressed hsound hplain (.inl h))).2.2,
      path_addressed, fullPath_of_isLed h]

end Uri

/-- The address of a request has the scheme of the endpoint and the query items of the input. It has
the path that is meant if the start of the path is empty or begins with a slash, and the host and the
port of the endpoint also if the path of the endpoint is more than slashes. -/
theorem uri_directed {s : Session} {input : ι} {path : String} {resolved : Endpoint.Resolved}
    (hpath : path? input = some path)
    (hresolve : resolver.resolve s.context.endpointParams = .ok resolved)
    (hplain : ∀ c ∈ start.toList ++ path.toList, Http.Uri.isInPath c = true)
    (hhost : Http.Uri.IsHost (prefixedHost s.context resolved.endpoint).host.toList) :
    ∃ (request : Request) (s' : Session),
      (∀ (finishing reading : Step Calling Request (Output ο))
        (transport : Request → Calling (Output ο)),
        (directed start path? items resolver finishing reading).send transport input s =
          finishing.run (reading.run transport) request s') ∧
      request.query = items input ∧
      (fullPath resolved.endpoint.path start path).toList.head? = some '/' ∧
      ∀ u, request.uri = .ok u →
        u.scheme = some resolved.endpoint.protocol.name ∧ u.query = request.queryString ∧
        (u.path = fullPath resolved.endpoint.path start path ↔ IsLed start) ∧
        (IsLed start ∨ dropTrailingSlashes resolved.endpoint.path ≠ "" →
          u.host? = some (prefixedHost s.context resolved.endpoint).host ∧
          u.port?.getD resolved.endpoint.protocol.defaultPort =
            resolved.endpoint.effectivePort) := by
  have hsound : (prefixedHost s.context resolved.endpoint).IsSound :=
    let ⟨hslash, hplain, hport⟩ := Endpoint.isSound_of_resolve hresolve
    ⟨hslash, hplain, hport⟩
  refine ⟨addressed s.context start path (items input) (prefixedHost s.context resolved.endpoint), _,
    send_directed items hpath hresolve, rfl, head_fullPath hsound.slash, fun u hu => ?_⟩
  have huri := Request.uri_eq_ok hu (fun c hc => (hhost.ne_of_mem hc).2)
    (plain_addressed hsound hplain)
  have hmeant := path_eq_fullPath_iff hsound hplain hhost hu
  refine ⟨by rw [huri]; rfl, by rw [huri], hmeant, fun h => ?_⟩
  obtain ⟨hto, hport, -⟩ := Request.uri_of_slash hu hhost (isSound_addressed hsound hplain h)
  exact ⟨hto, hport⟩

def calling (url : String) : Session :=
  { calm with context := { calm.context with endpointUrl := some url } }

def bareResolver : Endpoint.Resolver := .ofDefaults .empty

def resolvedTo (host path : String) (port : Option Nat) : Endpoint.Resolved :=
  ⟨⟨host, path, port, .https⟩, none, none, "v4"⟩

theorem uri_directed_jobs :
    let s := calling "https://svc.example.com:8443/base/"
    let resolved := resolvedTo "svc.example.com" "/base/" (some 8443)
    bareResolver.resolve s.context.endpointParams = .ok resolved ∧
    (∀ c ∈ "/v1/".toList ++ "jobs".toList, Http.Uri.isInPath c = true) ∧
    Http.Uri.IsHost (prefixedHost s.context resolved.endpoint).host.toList ∧
    ∃ (request : Request) (s' : Session),
      (∀ (finishing reading : Step Calling Request (Output Nat))
        (transport : Request → Calling (Output Nat)),
        (directed "/v1/" some (fun _ => []) bareResolver finishing reading).send transport "jobs" s =
          finishing.run (reading.run transport) request s') ∧
      ∀ u, request.uri = .ok u → u.host? = some "svc.example.com" ∧ u.port?.getD 443 = 8443 ∧
        u.path = "/base/v1/jobs" := by
  intro s resolved
  have hresolve : bareResolver.resolve s.context.endpointParams = .ok resolved := rfl
  have hplain : ∀ c ∈ "/v1/".toList ++ "jobs".toList, Http.Uri.isInPath c = true := by decide
  have hhost : Http.Uri.IsHost (prefixedHost s.context resolved.endpoint).host.toList :=
    .name (by decide) (by decide)
  have hpath : (some : String → Option String) "jobs" = some "jobs" := rfl
  have hled : IsLed "/v1/" := .inr (by decide)
  have hfull : fullPath "/base/" "/v1/" "jobs" = "/base/v1/jobs" := by decide
  obtain ⟨request, s', hsend, -, -, huri⟩ :=
    uri_directed (fun _ : String => []) hpath hresolve hplain hhost
  refine ⟨hresolve, hplain, hhost, request, s', hsend, fun u hu => ?_⟩
  obtain ⟨-, -, hmeant, hto⟩ := huri u hu
  obtain ⟨hto, hport⟩ := hto (.inl hled)
  exact ⟨hto, hport, (hmeant.2 hled).trans hfull⟩

/-- A start without a slash runs into the name of the host. -/
theorem not_host?_addressed :
    ¬ ∀ (s : Session) (start path : String) (resolved : Endpoint.Resolved) (u : Http.Uri),
      bareResolver.resolve s.context.endpointParams = .ok resolved →
      (∀ c ∈ start.toList ++ path.toList, Http.Uri.isInPath c = true) →
      Http.Uri.IsHost (prefixedHost s.context resolved.endpoint).host.toList →
      (addressed s.context start path [] (prefixedHost s.context resolved.endpoint)).uri = .ok u →
      u.host? = some (prefixedHost s.context resolved.endpoint).host := by
  intro h
  have hhost := h (calling "https://svc.example.com") "v1" "jobs"
    (resolvedTo "svc.example.com" "/" none) ⟨some "https", "svc.example.comv1", "/jobs", none⟩ rfl
    (by decide) (.name (by decide) (by decide)) rfl
  exact absurd hhost (by decide)

end Routes

end Pipeline

end ServiceClient
