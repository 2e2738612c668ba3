import ServiceClient.Proofs.Http.Endpoint
import ServiceClient.Proofs.Http.Query

/-! The address of a request. It is put together from text, and it is read back as it was meant where
the path begins with a slash; else what is in front of the first slash ends up in the authority. -/

namespace ServiceClient.Http

theorem Request.ne_of_mem_queryString {r : Request} {q : String} (h : r.queryString = some q) :
    '#' ∉ q.toList := fun hmem =>
  ((isEncoded_queryString h).of_mem hmem).elim (by decide) (by decide)

namespace Request

variable {r : Request} {u : Uri}

theorem toList_url (r : Request) : r.url.toList =
    r.endpoint.protocol.name.toList ++ "://".toList ++ (r.endpoint.authority.toList ++
      (r.endpoint.path.toList ++ Uri.queryText (r.queryString.map String.toList))) := by
  unfold url
  cases r.queryString with
  | none => simp [Endpoint.url, Uri.queryText]
  | some q => simp [Endpoint.url, Uri.queryText]

/-- What is in front of the first slash of the path counts as part of the authority. -/
theorem uri_eq_ok (h : r.uri = .ok u)
    (hhost : ∀ c ∈ r.endpoint.host.toList, Uri.isAuthorityEnd c = false)
    (hpath : ∀ c ∈ r.endpoint.path.toList, Uri.isInPath c = true) :
    u = ⟨some r.endpoint.protocol.name,
      r.endpoint.authority ++ String.ofList (r.endpoint.path.toList.takeWhile (· != '/')),
      String.ofList (r.endpoint.path.toList.dropWhile (· != '/')), r.queryString⟩ := by
  have hparse : Uri.parse r.url = .ok u := by
    unfold uri at h
    split at h
    · rename_i uri hparse
      rw [hparse, Except.ok.inj h]
    · cases h
  have hsplit := splitScheme_name r.endpoint.protocol (r.endpoint.authority.toList ++
    (r.endpoint.path.toList ++ Uri.queryText (r.queryString.map String.toList)))
  rw [← toList_url] at hsplit
  obtain ⟨-, hnone⟩ | ⟨scheme, rest, hscheme, rfl⟩ := Uri.parse_eq_ok hparse
  · exact absurd hsplit (hnone _ _)
  · rw [hsplit] at hscheme
    obtain ⟨hname, rfl⟩ := Prod.mk.inj (Except.ok.inj hscheme)
    obtain rfl := Option.some.inj hname
    have hquery : ∀ s ∈ r.queryString.map String.toList, '#' ∉ s := by
      intro s hs
      obtain ⟨q, hq, rfl⟩ := Option.map_eq_some_iff.1 hs
      exact ne_of_mem_queryString hq
    rw [Uri.absolute_eq (Endpoint.isAuthorityEnd_authority hhost) hpath hquery]
    simp [Function.comp_def]

theorem uri_of_slash (h : r.uri = .ok u) (hhost : Uri.IsHost r.endpoint.host.toList)
    (hsound : r.endpoint.IsSound) :
    u.host? = some r.endpoint.host ∧
      u.port?.getD r.endpoint.protocol.defaultPort = r.endpoint.effectivePort ∧
      u.path = r.endpoint.path := by
  obtain ⟨path, hpath⟩ := List.head?_eq_some_iff.1 hsound.slash
  have huri := uri_eq_ok h (fun c hc => (hhost.ne_of_mem hc).2) hsound.plain
  rw [hpath, List.takeWhile_cons_of_neg (by decide), List.dropWhile_cons_of_neg (by decide),
    ← hpath, String.ofList_toList, String.ofList_nil, String.append_empty] at huri
  obtain ⟨hfound, hport⟩ := Endpoint.host?_port?_eq (u := u) hhost.isHostForm hhost.not_mem
    hsound.port (by rw [huri])
  refine ⟨hfound, ?_, ?_⟩
  · rw [hport, r.endpoint.getD_shownPort]
  · have hne : r.endpoint.path ≠ "" := by
      rw [← String.toList_eq_nil_iff.ne, hpath]
      simp
    rw [Uri.path_eq (by rw [huri]; rfl), huri, if_neg hne]

theorem length_path_le (h : r.uri = .ok u)
    (hhost : ∀ c ∈ r.endpoint.host.toList, Uri.isAuthorityEnd c = false)
    (hpath : ∀ c ∈ r.endpoint.path.toList, Uri.isInPath c = true) :
    u.path.toList.length ≤ max 1 r.endpoint.path.toList.length := by
  have huri := uri_eq_ok h hhost hpath
  rw [Uri.path_eq (by rw [huri]; rfl), huri]
  split
  · exact Nat.le_max_left 1 _
  · rw [String.toList_ofList]
    exact Nat.le_trans (List.dropWhile_suffix _).length_le (Nat.le_max_right 1 _)

end Request

end ServiceClient.Http
