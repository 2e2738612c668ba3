import Mathlib
import ServiceClient.Http.Endpoint
import ServiceClient.Proofs.Http.Authority
import ServiceClient.Proofs.Text.Utf8

/-! Endpoints and their addresses. An accepted address says protocol, host, port and path, and the
address that is written from these is accepted as the same endpoint again, unless it has become too
long or the host has lost the partner of a bracket to the user or the port. -/

namespace ServiceClient.Http

theorem splitScheme_name (p : Protocol) (rest : List Char) :
    Uri.splitScheme (p.name.toList ++ "://".toList ++ rest) = .ok (some p.name.toList, rest) := by
  cases p <;> rfl

theorem Protocol.parse_name (p : Protocol) : Protocol.parse p.name = .ok p := by
  cases p <;> rfl

theorem Protocol.length_of_parse {p : Protocol} {s : String} (h : Protocol.parse s = .ok p) :
    p.name.toList.length = s.toList.length := by
  have hlower : (Text.lowerAscii s).toList.length = s.toList.length := by
    rw [Text.lowerAscii, String.toList_ofList, List.length_map]
  rw [← hlower]
  unfold parse at h
  dsimp only at h
  split_ifs at h with hhttp hhttps
  · cases h
    rw [hhttp]
    rfl
  · cases h
    rw [hhttps]
    rfl

namespace Endpoint

structure IsSound (e : Endpoint) : Prop where
  slash : e.path.toList.head? = some '/'
  plain : ∀ c ∈ e.path.toList, Uri.isInPath c = true
  port : ∀ p ∈ e.port, p ≤ 65535

variable {e : Endpoint}

theorem isSound_of_root (hpath : e.path = "/") (hport : ∀ p ∈ e.port, p ≤ 65535) : e.IsSound := by
  refine ⟨?_, ?_, hport⟩
  · rw [hpath]
    decide
  · rw [hpath]
    decide

def shownPort (e : Endpoint) : Option Nat :=
  e.port.bind fun p => if p = e.protocol.defaultPort then none else some p

theorem toList_authority (e : Endpoint) :
    e.authority.toList = e.host.toList ++ Uri.portText e.shownPort := by
  unfold authority shownPort
  cases e.port with
  | none => simp [Uri.portText]
  | some p =>
    by_cases hp : p = e.protocol.defaultPort
    · simp [hp, Uri.portText]
    · simp [hp, Uri.portText, Nat.repr]

theorem getD_shownPort (e : Endpoint) :
    e.shownPort.getD e.protocol.defaultPort = e.effectivePort := by
  unfold shownPort effectivePort
  cases e.port with
  | none => rfl
  | some p => by_cases hp : p = e.protocol.defaultPort <;> simp [hp]

theorem mem_of_shownPort {p : Nat} (h : e.shownPort = some p) : e.port = some p := by
  obtain ⟨q, hq, h⟩ := Option.bind_eq_some_iff.1 h
  split at h
  · cases h
  · rw [hq, h]

theorem host?_port?_eq {u : Uri} (hform : Uri.IsHostForm e.host.toList)
    (hat : '@' ∉ e.host.toList) (hport : ∀ p ∈ e.port, p ≤ 65535)
    (hu : u.authority = e.authority) : u.host? = some e.host ∧ u.port? = e.shownPort := by
  have hauthority := e.toList_authority
  rw [← hu] at hauthority
  refine ⟨?_, ?_⟩
  · rw [Uri.host?_eq hform hat hauthority, String.ofList_toList]
  · cases hshown : e.shownPort with
    | none =>
      rw [hshown, Uri.portText, Option.elim_none, List.append_nil] at hauthority
      exact Uri.port?_eq_none hform hauthority
    | some p =>
      rw [hshown] at hauthority
      exact Uri.port?_eq_some hauthority (hport p (e.mem_of_shownPort hshown))

theorem isAuthorityEnd_authority (hhost : ∀ c ∈ e.host.toList, Uri.isAuthorityEnd c = false) :
    ∀ c ∈ e.authority.toList, Uri.isAuthorityEnd c = false := by
  intro c hc
  rw [toList_authority, List.mem_append] at hc
  exact hc.elim (hhost c) fun hc => (Uri.plain_of_colon_or (Uri.mem_portText hc)).2

theorem toList_url (e : Endpoint) : e.url.toList =
    e.protocol.name.toList ++ "://".toList ++ (e.authority.toList ++ e.path.toList) := by
  simp [url]

theorem ofUrl_eq_ok_iff {url : String} : ofUrl url = .ok e ↔ ∃ uri scheme,
    Uri.parse url = .ok uri ∧ uri.scheme = some scheme ∧ Protocol.parse scheme = .ok e.protocol ∧
      uri.host? = some e.host ∧ e.host ≠ "" ∧
      e.path = (if uri.path.isEmpty then "/" else uri.path) ∧ e.port = uri.port? := by
  constructor
  · intro h
    unfold ofUrl at h
    split at h
    · cases h
    rename_i uri hparse
    split at h
    · cases h
    rename_i scheme hscheme
    obtain ⟨protocol, hprotocol, h⟩ := exists_of_bind h
    split at h
    · cases h
    · cases h
    · rename_i host hne hhost
      cases h
      exact ⟨uri, scheme, hparse, hscheme, hprotocol, hhost, hne, rfl, rfl⟩
  · rintro ⟨uri, scheme, hparse, hscheme, hprotocol, hhost, hne, hpath, hport⟩
    obtain ⟨host, path, port, protocol⟩ := e
    dsimp only at hprotocol hhost hne hpath hport
    unfold ofUrl
    rw [hparse]
    dsimp only
    rw [hscheme]
    dsimp only
    rw [hprotocol, hhost, hpath, hport]
    dsimp only [bind, Except.bind]
    split
    · rename_i heq
      cases heq
    · rename_i heq
      exact absurd (Option.some.inj heq) hne
    · rename_i heq
      cases heq
      rfl

theorem isSound_ofUrl {url : String} (h : ofUrl url = .ok e) : e.IsSound := by
  obtain ⟨uri, scheme, hparse, hscheme, -, -, -, hpath, hport⟩ := ofUrl_eq_ok_iff.1 h
  obtain ⟨hnone, -⟩ | ⟨scheme, rest, -, rfl⟩ := Uri.parse_eq_ok hparse
  · rw [hnone] at hscheme
    cases hscheme
  · obtain ⟨path, hslash, hplain⟩ := Uri.path_absolute scheme rest
    have hne : ¬ (Uri.absolute scheme rest).path.isEmpty = true := by
      rw [String.isEmpty_iff, ← String.toList_eq_nil_iff, hslash]
      simp
    rw [if_neg hne] at hpath
    refine ⟨by rw [hpath, hslash]; rfl, ?_, fun p hp => Uri.le_of_port? (hport ▸ hp)⟩
    rw [hpath, hslash]
    exact List.forall_mem_cons.2 ⟨by decide, hplain⟩

section Address

open Uri (isAuthorityEnd isInPath isPathChar IsClear HostAt)

structure Address where
  scheme : List Char
  authority : List Char
  target : List Char

namespace Address

def path (a : Address) : List Char := a.target.takeWhile isInPath

def text (a : Address) : List Char := a.scheme ++ "://".toList ++ (a.authority ++ a.target)

structure IsRead (a : Address) (e : Endpoint) : Prop where
  protocol : Protocol.parse (String.ofList a.scheme) = .ok e.protocol
  checked : Uri.checkAuthority a.authority = .ok ()
  ends : ∀ c ∈ a.authority, isAuthorityEnd c = false
  host : ∃ front back, HostAt front e.host.toList back a.authority ∧
    ∀ p ∈ e.port, ∃ x y, back = x ++ ':' :: y ∧ Number.readNatural 10 65535 y = .ok p
  path : e.path.toList = if a.path = [] then ['/'] else a.path
  pathChars : ∀ c ∈ a.path, isPathChar c = true

end Address

theorem exists_address {url : String} (h : ofUrl url = .ok e) :
    ∃ a : Address, a.text = url.toList ∧ a.IsRead e := by
  obtain ⟨uri, name, hparse, hname, hprotocol, hhost, hne, hpath, hport⟩ := ofUrl_eq_ok_iff.1 h
  obtain ⟨hnone, -⟩ | ⟨scheme, rest, hsplit, rfl⟩ := Uri.parse_eq_ok hparse
  · rw [hnone] at hname
    cases hname
  obtain rfl : String.ofList scheme = name := Option.some.inj hname
  obtain ⟨-, hcheck, -, htarget⟩ := (Uri.parse_eq_ok_iff hsplit).1 hparse
  rw [Text.drop_length_takeWhile] at htarget
  have hauthority : (Uri.absolute scheme rest).authority.toList =
      rest.takeWhile (!isAuthorityEnd ·) := String.toList_ofList
  have hshown : (Uri.absolute scheme rest).target =
      String.ofList ((rest.dropWhile (!isAuthorityEnd ·)).takeWhile isInPath) := by
    rw [← Text.drop_length_takeWhile]
    rfl
  obtain ⟨front, back, hat⟩ := Uri.exists_hostAt (hauthority ▸ hcheck) hhost hne
  refine ⟨⟨scheme, rest.takeWhile (!isAuthorityEnd ·), rest.dropWhile (!isAuthorityEnd ·)⟩, ?_,
    hprotocol, hcheck, fun c hc => ?_,
    ⟨front, back, hauthority ▸ hat, fun p hp => hat.port_in_back (hport ▸ hp)⟩, ?_, ?_⟩
  · rw [Uri.text_of_splitScheme hsplit, Address.text, List.takeWhile_append_dropWhile]
  · simpa using List.mem_takeWhile_imp hc
  · rw [hpath, Uri.path_eq rfl, hshown, Address.path]
    by_cases hempty : (rest.dropWhile (!isAuthorityEnd ·)).takeWhile isInPath = []
    · simp [hempty]
    · simp [hempty]
  · exact Uri.isPathChar_of_ofTarget htarget

/-- The endpoint's own address is accepted, and it is that of the same endpoint. -/
def IsStable (e : Endpoint) : Prop := ∃ e', ofUrl e.url = .ok e' ∧ e'.protocol = e.protocol ∧
  e'.host = e.host ∧ e'.path = e.path ∧ e'.effectivePort = e.effectivePort

variable {a : Address}

namespace Address.IsRead

theorem hostForm (h : a.IsRead e) : Uri.IsHostForm e.host.toList ∧ '@' ∉ e.host.toList := by
  obtain ⟨front, back, hat, -⟩ := h.host
  exact ⟨hat.form, hat.not_mem⟩

theorem isAuthorityEnd (h : a.IsRead e) : ∀ c ∈ e.authority.toList, isAuthorityEnd c = false := by
  obtain ⟨front, back, hat, -⟩ := h.host
  refine isAuthorityEnd_authority fun c hc => h.ends c ?_
  rw [hat.text]
  exact List.mem_append_right _ (List.mem_append_left _ hc)

theorem isPathChar (h : a.IsRead e) : ∀ c ∈ e.path.toList, isPathChar c = true := by
  rw [h.path]
  split_ifs
  · decide
  · exact h.pathChars

theorem checkAuthority_iff (h : a.IsRead e) :
    Uri.checkAuthority e.authority.toList = .ok () ↔ IsClear e.host.toList := by
  obtain ⟨front, back, hat, -⟩ := h.host
  rw [toList_authority, hat.checkAuthority_iff h.checked]

end Address.IsRead

theorem parse_url_iff {u : Uri} (hread : a.IsRead e) (hsound : e.IsSound) :
    Uri.parse e.url = .ok u ↔ (Text.encode e.url).length ≤ Uri.lengthLimit ∧
      IsClear e.host.toList ∧ u = ⟨some e.protocol.name, e.authority, e.path, none⟩ := by
  have hslash : ∀ c ∈ e.path.toList.head?, (!isAuthorityEnd c) = false := by
    rw [hsound.slash]
    rintro c ⟨⟩
    rfl
  have hsplit : (e.authority.toList ++ e.path.toList).takeWhile (!isAuthorityEnd ·) =
      e.authority.toList :=
    Text.takeWhile_append_of_stops (fun c hc => by simp [hread.isAuthorityEnd c hc]) hslash
  have hscheme := splitScheme_name e.protocol (e.authority.toList ++ e.path.toList)
  rw [← toList_url] at hscheme
  have hne : e.authority.toList ≠ [] := by
    rw [toList_authority]
    simp [hread.hostForm.1.ne_nil]
  rw [Uri.parse_eq_ok_iff hscheme, hsplit, List.drop_left,
    Uri.ofTarget_path hsound.plain hread.isPathChar, hread.checkAuthority_iff]
  simp [hne, eq_comm]

theorem ofUrl_url (hread : a.IsRead e) (hsound : e.IsSound)
    (hlength : (Text.encode e.url).length ≤ Uri.lengthLimit) (hclear : IsClear e.host.toList) :
    ofUrl e.url = .ok { e with port := e.shownPort } := by
  obtain ⟨hform, huser⟩ := hread.hostForm
  obtain ⟨hhost, hport⟩ := host?_port?_eq
    (u := ⟨some e.protocol.name, e.authority, e.path, none⟩) hform huser hsound.port rfl
  have hnil : e.host ≠ "" := by
    rw [Ne, ← String.toList_eq_nil_iff]
    exact hform.ne_nil
  have hpath : e.path ≠ "" := by
    intro hempty
    have hslash := hsound.slash
    rw [hempty] at hslash
    cases hslash
  refine ofUrl_eq_ok_iff.2 ⟨_, _, (parse_url_iff hread hsound).2 ⟨hlength, hclear, rfl⟩, rfl,
    Protocol.parse_name e.protocol, hhost, hnil, ?_, hport.symm⟩
  rw [Uri.path_eq rfl, if_neg hpath, if_neg (by simpa using hpath)]

theorem isStable_iff {url : String} (h : ofUrl url = .ok e) : e.IsStable ↔
    (Text.encode e.url).length ≤ Uri.lengthLimit ∧ IsClear e.host.toList := by
  obtain ⟨a, -, hread⟩ := exists_address h
  have hsound := isSound_ofUrl h
  constructor
  · rintro ⟨e', hagain, -⟩
    obtain ⟨u, -, hparse, -⟩ := ofUrl_eq_ok_iff.1 hagain
    obtain ⟨hlength, hclear, -⟩ := (parse_url_iff hread hsound).1 hparse
    exact ⟨hlength, hclear⟩
  · rintro ⟨hlength, hclear⟩
    exact ⟨_, ofUrl_url hread hsound hlength hclear, rfl, rfl, rfl, e.getD_shownPort⟩

section Length

open Text (octetLength)

theorem octetLength_portText (port : Option Nat) :
    octetLength (Uri.portText port) = (Uri.portText port).length := by
  refine Text.octetLength_of_ascii fun c hc => ?_
  rcases Uri.isDigit_of_mem_portText hc with rfl | hdigit
  · decide
  · exact Nat.lt_of_le_of_lt (Number.toNat_of_isDigit hdigit).2 (by decide)

theorem octetLength_portText_le {back : List Char}
    (hport : ∀ p ∈ e.port, ∃ x y, back = x ++ ':' :: y ∧
      Number.readNatural 10 65535 y = .ok p) :
    octetLength (Uri.portText e.shownPort) ≤ octetLength back := by
  cases hshown : e.shownPort with
  | none => exact Nat.zero_le _
  | some p =>
    obtain ⟨x, y, rfl, hread⟩ := hport p (e.mem_of_shownPort hshown)
    have hdigits := Number.length_toDigits_le hread
    calc octetLength (Uri.portText (some p))
      _ = (Nat.toDigits 10 p).length + 1 := octetLength_portText _
      _ ≤ (':' :: y).length := Nat.succ_le_succ hdigits
      _ ≤ octetLength (':' :: y) := Text.length_le_octetLength _
      _ ≤ octetLength (x ++ ':' :: y) := by
        rw [Text.octetLength_append]
        exact Nat.le_add_left _ _

namespace Address.IsRead

theorem octetLength_authority_le (h : a.IsRead e) :
    octetLength e.authority.toList ≤ octetLength a.authority := by
  obtain ⟨front, back, hat, hport⟩ := h.host
  have hback := octetLength_portText_le hport
  rw [toList_authority, hat.text]
  simp only [Text.octetLength_append]
  omega

theorem octetLength_path_le (h : a.IsRead e) :
    octetLength e.path.toList ≤ octetLength a.target + 1 := by
  have htarget := congrArg octetLength
    (List.takeWhile_append_dropWhile (p := isInPath) (l := a.target))
  rw [Text.octetLength_append] at htarget
  rw [h.path]
  split_ifs
  · exact Nat.le_add_left 1 _
  · rw [Address.path]
    omega

theorem octetLength_scheme_le (h : a.IsRead e) :
    octetLength e.protocol.name.toList ≤ octetLength a.scheme := by
  have hlength := Protocol.length_of_parse h.protocol
  have hname : octetLength e.protocol.name.toList = e.protocol.name.toList.length := by
    cases e.protocol <;> rfl
  rw [String.toList_ofList] at hlength
  rw [hname, hlength]
  exact Text.length_le_octetLength _

end Address.IsRead

theorem length_url_le {url : String} (h : ofUrl url = .ok e) :
    (Text.encode e.url).length ≤ (Text.encode url).length + 1 := by
  obtain ⟨a, htext, hread⟩ := exists_address h
  have hscheme := hread.octetLength_scheme_le
  have hauthority := hread.octetLength_authority_le
  have hpath := hread.octetLength_path_le
  rw [Text.length_encode, Text.length_encode, ← htext, toList_url, Address.text]
  simp only [Text.octetLength_append]
  omega

end Length

theorem isClear_host {url : String} (h : ofUrl url = .ok e)
    (hplace : '[' ∉ url.toList ∨ e.host.toList.head? = some '[') : IsClear e.host.toList := by
  obtain ⟨a, htext, hread⟩ := exists_address h
  obtain ⟨front, back, hat, -⟩ := hread.host
  rcases hplace with hopen | hopen
  · refine hat.isClear_of_notMem hread.checked fun hmem => hopen ?_
    rw [← htext]
    exact List.mem_append_right _ (List.mem_append_left _ hmem)
  · exact hat.form.isClear hopen

/-- The path begins with a slash. The endpoint's own address, which is at most a slash longer than
the one it has been read from, leads to the same endpoint unless it is too long or the host has lost
the partner of a bracket, which takes a bracket elsewhere than around the host. -/
theorem ofUrl_stable {url : String} (h : ofUrl url = .ok e) :
    e.path.toList.head? = some '/' ∧
    (e.IsStable ↔ (Text.encode e.url).length ≤ Uri.lengthLimit ∧ IsClear e.host.toList) ∧
    (Text.encode e.url).length ≤ (Text.encode url).length + 1 ∧
    ('[' ∉ url.toList ∨ e.host.toList.head? = some '[' → IsClear e.host.toList) :=
  ⟨(isSound_ofUrl h).slash, isStable_iff h, length_url_le h, isClear_host h⟩

/-- User, sign and zero of the port, query and fragment are dropped, and a slash is added. -/
theorem ofUrl_stable_scoped :
    let url := "HTTP://u%41:p@[fe80::1%25en0]:+08080?q#f"
    let e : Endpoint := ⟨"[fe80::1%25en0]", "/", some 8080, .http⟩
    ofUrl url = .ok e ∧ e.IsStable := by
  intro url e
  have hread : ofUrl url = .ok e := by cbv
  obtain ⟨-, hstable, -, hclear⟩ := ofUrl_stable hread
  exact ⟨hread, hstable.2 ⟨by decide, hclear (.inr (by decide))⟩⟩

theorem ofUrl_http {host : String} (hne : host ≠ "")
    (hplain : ∀ c ∈ host.toList, Uri.isOrdinary c = true ∧ isAuthorityEnd c = false)
    (hlength : (Text.encode ("http://" ++ host)).length ≤ Uri.lengthLimit) :
    ofUrl ("http://" ++ host) = .ok (.ofHost host .http) := by
  have hordinary : ∀ c ∈ host.toList, Uri.isOrdinary c = true := fun c hc => (hplain c hc).1
  have hout : ∀ d, Uri.isOrdinary d = false → d ∉ host.toList := fun d hd hmem =>
    Uri.ne_of_isOrdinary (hordinary d hmem) hd rfl
  have hnil : host.toList ≠ [] := by rwa [Ne, String.toList_eq_nil_iff]
  have hform : Uri.IsHostForm host.toList :=
    .name hnil (fun hhead => hout '[' (by decide) (List.mem_of_head? hhead)) (hout ':' (by decide))
  have hwhole : host.toList.takeWhile (!isAuthorityEnd ·) = host.toList :=
    List.takeWhile_eq_self_iff.2 fun c hc => by simp [(hplain c hc).2]
  have hcheck : Uri.checkAuthority host.toList = .ok () :=
    Uri.checkAuthority_eq_ok_iff.2 ⟨⟨_, .of_ordinary hordinary, ⟨rfl, rfl⟩, Nat.zero_le 1⟩,
      fun hlast => hout '@' (by decide) (List.mem_of_getLast? hlast)⟩
  have hscheme : Uri.splitScheme ("http://" ++ host).toList =
      .ok (some "http".toList, host.toList) := by
    rw [String.toList_append]
    exact splitScheme_name .http host.toList
  have hparse : Uri.parse ("http://" ++ host) = .ok ⟨some "http", host, "", none⟩ := by
    rw [Uri.parse_eq_ok_iff hscheme, hwhole, List.drop_length,
      Uri.ofTarget_path (by simp) (by simp)]
    exact ⟨hlength, hcheck, hnil, by simp⟩
  obtain ⟨hhost, hport⟩ := host?_port?_eq (e := ofHost host .http)
    (u := ⟨some "http", host, "", none⟩) hform (hout '@' (by decide)) (fun _ => nofun) rfl
  exact ofUrl_eq_ok_iff.2 ⟨_, "http", hparse, rfl, rfl, hhost, hne, rfl, hport.symm⟩

theorem url_ofHost_http (host : String) : (ofHost host .http).url = "http://" ++ host ++ "/" := rfl

theorem exists_host (n : Nat) : ∃ host : String, Text.octetLength host.toList = n ∧
    ∀ c ∈ host.toList, Uri.isOrdinary c = true ∧ isAuthorityEnd c = false := by
  have hletter : ∀ c ∈ List.replicate n 'a', c = 'a' := fun _ => List.eq_of_mem_replicate
  refine ⟨String.ofList (List.replicate n 'a'), ?_, ?_⟩
  · rw [String.toList_ofList, Text.octetLength_of_ascii, List.length_replicate]
    intro c hc
    rw [hletter c hc]
    decide
  · intro c hc
    rw [String.toList_ofList] at hc
    rw [hletter c hc]
    decide

/-- A host without the partner of its bracket, one whose percent sign has been in brackets, and one
that leaves no place for a slash. -/
theorem not_isStable_of_parts :
    (∃ e, ofUrl "http://x[::1]" = .ok e ∧ e.url = "http://x[/" ∧ ¬ e.IsStable) ∧
    (∃ e, ofUrl "http://[@a%b:]" = .ok e ∧ e.url = "http://a%b/" ∧ ¬ e.IsStable) ∧
    ∃ host e, ofUrl ("http://" ++ host) = .ok e ∧ e.url = "http://" ++ host ++ "/" ∧
      (Text.encode ("http://" ++ host)).length = Uri.lengthLimit ∧ ¬ e.IsStable := by
  have hbracket : ofUrl "http://x[::1]" = .ok (.ofHost "x[" .http) := by cbv
  have hpercent : ofUrl "http://[@a%b:]" = .ok (.ofHost "a%b" .http) := by cbv
  refine ⟨⟨_, hbracket, by decide, fun h => ?_⟩, ⟨_, hpercent, by decide, fun h => ?_⟩, ?_⟩
  · exact absurd ((isStable_iff hbracket).1 h).2.brackets (by decide)
  · exact absurd ((isStable_iff hpercent).1 h).2.percent (by decide)
  obtain ⟨host, hcount, hplain⟩ := exists_host 65527
  have hlength : (Text.encode ("http://" ++ host)).length = Uri.lengthLimit := by
    rw [Text.length_encode, String.toList_append, Text.octetLength_append, hcount]
    rfl
  have hne : host ≠ "" := by
    rintro rfl
    cases hcount
  have hlong := ofUrl_http hne hplain (Nat.le_of_eq hlength)
  refine ⟨host, _, hlong, url_ofHost_http host, hlength, fun h => ?_⟩
  have hfits := ((isStable_iff hlong).1 h).1
  rw [url_ofHost_http, Text.encode_append, List.length_append, hlength] at hfits
  exact absurd hfits (by decide)

end Address

end Endpoint

end ServiceClient.Http
