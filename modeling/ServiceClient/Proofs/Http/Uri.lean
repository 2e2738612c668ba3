import ServiceClient.Http.Uri
import ServiceClient.Proofs.Number.Numeral
import ServiceClient.Proofs.Run
import ServiceClient.Proofs.Text.Blank

/-! What an absolute address says once it has been read: its authority ends at the first slash,
question mark or number sign, and the host and the port are found in the authority again. -/

namespace ServiceClient.Http

namespace Uri

def isInPath (c : Char) : Bool := c != '?' && c != '#'

def queryAt : List Char → Option (List Char)
  | '?' :: rest => some (rest.takeWhile (· != '#'))
  | _ => none

def spelling (scheme : Option (List Char)) (authority target : List Char) : Uri :=
  let path := target.takeWhile isInPath
  ⟨scheme.map String.ofList, String.ofList authority, String.ofList path,
    (queryAt (target.drop path.length)).map String.ofList⟩

def absolute (scheme rest : List Char) : Uri :=
  let authority := rest.takeWhile (!isAuthorityEnd ·)
  .spelling (some scheme) authority (rest.drop authority.length)

variable {s : String} {u : Uri} {scheme rest : List Char}

theorem splitTarget_eq_ok {target path : List Char} {query : Option (List Char)}
    (h : splitTarget target = .ok (path, query)) :
    path = target.takeWhile isInPath ∧ query = queryAt (target.drop path.length) := by
  obtain ⟨_, -, h⟩ := exists_of_bind h
  split at h
  · rename_i hrest
    obtain ⟨_, -, h⟩ := exists_of_bind h
    obtain ⟨rfl, rfl⟩ := Prod.mk.inj (Except.ok.inj h)
    exact ⟨rfl, by rw [show target.drop _ = _ from hrest, queryAt]⟩
  · rename_i hrest
    obtain ⟨rfl, rfl⟩ := Prod.mk.inj (Except.ok.inj h)
    refine ⟨rfl, ?_⟩
    unfold queryAt
    split
    · rename_i hquery
      exact absurd hquery (hrest _)
    · rfl

theorem ofTarget_eq_ok {scheme : Option (List Char)} {authority target : List Char}
    (h : ofTarget scheme authority target = .ok u) : u = spelling scheme authority target := by
  obtain ⟨⟨path, query⟩, hsplit, hu⟩ := exists_of_bind h
  obtain ⟨rfl, rfl⟩ := splitTarget_eq_ok hsplit
  exact (Except.ok.inj hu).symm

theorem checkAll_eq_ok_iff {p : Char → Bool} {s : List Char} :
    checkAll p s = .ok () ↔ ∀ c ∈ s, p c = true := by
  rw [checkAll, ← List.all_eq_true]
  split <;> simp [*]

theorem isPathChar_of_ofTarget {scheme : Option (List Char)} {authority target : List Char}
    (h : ofTarget scheme authority target = .ok u) :
    ∀ c ∈ target.takeWhile isInPath, isPathChar c = true := by
  obtain ⟨_, hsplit, -⟩ := exists_of_bind h
  obtain ⟨_, hpath, -⟩ := exists_of_bind hsplit
  exact checkAll_eq_ok_iff.1 hpath

theorem ofTarget_path {scheme : Option (List Char)} {authority path : List Char}
    (hplain : ∀ c ∈ path, isInPath c = true) (h : ∀ c ∈ path, isPathChar c = true) :
    ofTarget scheme authority path = .ok
      ⟨scheme.map String.ofList, String.ofList authority, String.ofList path, none⟩ := by
  have hwhole : (path.takeWhile fun c => c != '?' && c != '#') = path :=
    List.takeWhile_eq_self_iff.2 hplain
  have hsplit : splitTarget path = .ok (path, none) := by
    unfold splitTarget
    dsimp only
    rw [hwhole, checkAll_eq_ok_iff.2 h, List.drop_length]
    rfl
  rw [ofTarget, hsplit]
  rfl

theorem splitScheme_slash (rest : List Char) :
    splitScheme ('/' :: rest) = .ok (none, '/' :: rest) := rfl

theorem text_of_splitScheme {s scheme rest : List Char}
    (h : splitScheme s = .ok (some scheme, rest)) : s = scheme ++ "://".toList ++ rest := by
  unfold splitScheme at h
  dsimp only at h
  split at h
  · rename_i rest' hmore
    split_ifs at h
    obtain ⟨hscheme, rfl⟩ := Prod.mk.inj (Except.ok.inj h)
    rw [← Option.some.inj hscheme, List.append_assoc]
    conv_lhs => rw [← List.takeWhile_append_dropWhile (p := isSchemeChar) (l := s), hmore]
    rfl
  · cases h

theorem parse_eq_ok_iff (h : splitScheme s.toList = .ok (some scheme, rest)) :
    parse s = .ok u ↔ (Text.encode s).length ≤ lengthLimit ∧
      checkAuthority (rest.takeWhile (!isAuthorityEnd ·)) = .ok () ∧
      rest.takeWhile (!isAuthorityEnd ·) ≠ [] ∧
      ofTarget (some scheme) (rest.takeWhile (!isAuthorityEnd ·))
        (rest.drop (rest.takeWhile (!isAuthorityEnd ·)).length) = .ok u := by
  unfold parse
  split_ifs with hlong
  · exact iff_of_false (fun h => nomatch h) fun h => Nat.not_le.2 hlong h.1
  -- The text is empty, an asterisk, a path, or something with an authority.
  split
  · rename_i hs
    rw [hs] at h
    cases h
  · rename_i hs
    rw [hs] at h
    cases h
  · rename_i hs
    rw [hs, splitScheme_slash] at h
    cases h
  · rw [h]
    change (checkAuthority _ >>= fun _ => _) = _ ↔ _
    cases hcheck : checkAuthority (rest.takeWhile (!isAuthorityEnd ·)) with
    | error e => exact iff_of_false (fun h => nomatch h) fun h => nomatch h.2.1
    | ok _ =>
      change (if (rest.takeWhile (!isAuthorityEnd ·)).isEmpty then _ else _) = _ ↔ _
      simp only [List.isEmpty_iff]
      split_ifs with hempty
      · exact iff_of_false (fun h => nomatch h) fun h => h.2.2.1 hempty
      · exact ⟨fun h => ⟨Nat.not_lt.1 hlong, trivial, hempty, h⟩, fun h => h.2.2.2⟩

theorem parse_eq_ok (h : parse s = .ok u) :
    (u.scheme = none ∧ ∀ scheme rest, splitScheme s.toList ≠ .ok (some scheme, rest)) ∨
      ∃ scheme rest, splitScheme s.toList = .ok (some scheme, rest) ∧ u = absolute scheme rest := by
  have hnone : ∀ {s : List Char} {rest : List Char}, splitScheme s = .ok (none, rest) →
      ∀ scheme rest', splitScheme s ≠ .ok (some scheme, rest') := by
    intro s rest h scheme rest' heq
    rw [h] at heq
    cases heq
  have hparse := h
  unfold parse at h
  split_ifs at h
  -- The text is empty, an asterisk, a path, or something with an authority.
  split at h
  · cases h
  · rename_i hs
    rw [hs]
    cases h
    exact .inl ⟨rfl, @hnone _ ['*'] rfl⟩
  · rename_i hs
    rw [hs, ofTarget_eq_ok h]
    exact .inl ⟨rfl, hnone (splitScheme_slash _)⟩
  · obtain ⟨⟨scheme, rest⟩, hsplit, h⟩ := exists_of_bind h
    obtain ⟨_, -, h⟩ := exists_of_bind h
    cases scheme with
    | none =>
      refine .inl ⟨?_, hnone hsplit⟩
      simp only [Option.isNone_none, if_true] at h
      split_ifs at h
      cases h
      rfl
    | some scheme =>
      exact .inr ⟨scheme, rest, hsplit, ofTarget_eq_ok ((parse_eq_ok_iff hsplit).1 hparse).2.2.2⟩

section Absolute

variable {authority path : List Char} {query : Option (List Char)}

def queryText (query : Option (List Char)) : List Char := query.elim [] ('?' :: ·)

theorem queryAt_queryText (h : ∀ s ∈ query, '#' ∉ s) : queryAt (queryText query) = query := by
  cases query with
  | none => rfl
  | some s =>
    have hwhole : s.takeWhile (· != '#') = s := by
      rw [List.takeWhile_eq_self_iff]
      exact fun c hc => by simpa using ne_of_mem_of_not_mem hc (h s rfl)
    rw [queryText, Option.elim_some, queryAt, hwhole]

theorem isInPath_queryText : ∀ c ∈ (queryText query).head?, isInPath c = false := by
  cases query with
  | none => simp [queryText]
  | some s => simp [queryText, isInPath]

theorem isAuthorityEnd_path (hslash : ∀ c ∈ path.head?, c = '/') :
    ∀ c ∈ (path ++ queryText query).head?, (!isAuthorityEnd c) = false := by
  cases path with
  | cons c path => simp [isAuthorityEnd, hslash c rfl]
  | nil =>
    cases query with
    | none => simp [queryText]
    | some s => simp [queryText, isAuthorityEnd]

theorem isAuthorityEnd_of_head {l : List Char} {c : Char}
    (h : c ∈ (l.drop (l.takeWhile (!isAuthorityEnd ·)).length).head?) : isAuthorityEnd c = true := by
  rw [Text.drop_length_takeWhile] at h
  simpa using Text.stops_dropWhile c h

theorem eq_slash {c : Char} (hend : isAuthorityEnd c = true) (hpath : isInPath c = true) :
    c = '/' := by
  simp only [isAuthorityEnd, Bool.or_eq_true, beq_iff_eq] at hend
  simp only [isInPath, Bool.and_eq_true, bne_iff_ne] at hpath
  tauto

/-- The parts of an address that has been put together from an authority, a path that begins with a
slash if it is not empty, and a query or none. -/
theorem absolute_eq_of_slash (hauthority : ∀ c ∈ authority, isAuthorityEnd c = false)
    (hpath : ∀ c ∈ path, isInPath c = true) (hslash : ∀ c ∈ path.head?, c = '/')
    (hquery : ∀ s ∈ query, '#' ∉ s) :
    absolute scheme (authority ++ (path ++ queryText query)) =
      ⟨some (String.ofList scheme), String.ofList authority, String.ofList path,
        query.map String.ofList⟩ := by
  have hsplit : (authority ++ (path ++ queryText query)).takeWhile (!isAuthorityEnd ·) =
      authority :=
    Text.takeWhile_append_of_stops (fun c hc => by simp [hauthority c hc])
      (isAuthorityEnd_path hslash)
  have htarget : (path ++ queryText query).takeWhile isInPath = path :=
    Text.takeWhile_append_of_stops hpath isInPath_queryText
  rw [absolute, hsplit, List.drop_left, spelling, htarget, List.drop_left,
    queryAt_queryText hquery]
  rfl

/-- What is in front of the first slash of the path counts as part of the authority. -/
theorem absolute_eq (hauthority : ∀ c ∈ authority, isAuthorityEnd c = false)
    (hpath : ∀ c ∈ path, isInPath c = true) (hquery : ∀ s ∈ query, '#' ∉ s) :
    absolute scheme (authority ++ (path ++ queryText query)) =
      ⟨some (String.ofList scheme), String.ofList (authority ++ path.takeWhile (· != '/')),
        String.ofList (path.dropWhile (· != '/')), query.map String.ofList⟩ := by
  have hfront : ∀ c ∈ path.takeWhile (· != '/'), isAuthorityEnd c = false := by
    intro c hc
    have hslash : c ≠ '/' := by simpa using List.mem_takeWhile_imp hc
    have hplain := hpath c ((List.takeWhile_prefix _).subset hc)
    exact Bool.eq_false_iff.2 fun hend => hslash (eq_slash hend hplain)
  have hback : ∀ c ∈ (path.dropWhile (· != '/')).head?, c = '/' := fun c hc => by
    simpa using Text.stops_dropWhile c hc
  have hsplit := List.takeWhile_append_dropWhile (p := (· != '/')) (l := path)
  conv_lhs => rw [← hsplit, List.append_assoc, ← List.append_assoc]
  exact absolute_eq_of_slash (List.forall_mem_append.2 ⟨hauthority, hfront⟩)
    (fun c hc => hpath c ((List.dropWhile_suffix _).subset hc)) hback hquery

theorem path_eq (h : u.scheme.isSome) : u.path = if u.target = "" then "/" else u.target := by
  simp [path, h]

theorem path_absolute (scheme rest : List Char) :
    ∃ path, (absolute scheme rest).path.toList = '/' :: path ∧ ∀ c ∈ path, isInPath c = true := by
  let target := rest.drop (rest.takeWhile (!isAuthorityEnd ·)).length
  have htarget : (absolute scheme rest).target = String.ofList (target.takeWhile isInPath) := rfl
  cases h : target.takeWhile isInPath with
  | nil =>
    refine ⟨[], ?_, by simp⟩
    rw [path_eq rfl, htarget, h]
    rfl
  | cons c path =>
    have hchars : ∀ d ∈ c :: path, isInPath d = true := fun d hd => by
      rw [← h] at hd
      exact List.mem_takeWhile_imp hd
    have hhead : c ∈ target.head? := by
      obtain ⟨more, hmore⟩ := List.takeWhile_prefix isInPath (l := target)
      rw [← hmore, h]
      rfl
    obtain ⟨hc, hpath⟩ := List.forall_mem_cons.1 hchars
    refine ⟨path, ?_, hpath⟩
    rw [path_eq rfl, htarget, h, eq_slash (isAuthorityEnd_of_head hhead) hc, if_neg (by simp),
      String.toList_ofList]

end Absolute

section Authority

def isDelimiter (c : Char) : Bool := ":/?#[]@".toList.contains c

/-- A host is a name without delimiters, or an address in brackets with none but colons. -/
inductive IsHost : List Char → Prop where
  | name {s : List Char} (ne : s ≠ []) (h : ∀ c ∈ s, isDelimiter c = false) : IsHost s
  | literal {s : List Char} (h : ∀ c ∈ s, c = ':' ∨ isDelimiter c = false) :
      IsHost ('[' :: (s ++ [']']))

inductive IsHostForm : List Char → Prop where
  | name {s : List Char} (ne : s ≠ []) (hhead : s.head? ≠ some '[') (h : ':' ∉ s) : IsHostForm s
  | literal {s : List Char} (h : ']' ∉ s) : IsHostForm ('[' :: (s ++ [']']))

def portText (port : Option Nat) : List Char := port.elim [] fun p => ':' :: Nat.toDigits 10 p

variable {host : List Char} {port : Option Nat}

theorem ne_of_isDelimiter {c d : Char} (hc : isDelimiter c = false) (hd : isDelimiter d = true) :
    c ≠ d := by
  rintro rfl
  rw [hc] at hd
  cases hd

theorem isDelimiter_of_isDigit {c : Char} (h : Number.isDigit c = true) :
    isDelimiter c = false := by
  have hplain : ∀ d ∈ ":/?#[]@".toList, Number.isDigit d = false := by decide
  rw [isDelimiter, Bool.eq_false_iff]
  intro hc
  exact Number.ne_of_isDigit h (hplain c (List.contains_iff_mem.1 hc)) rfl

theorem isDigit_of_mem_portText {c : Char} (h : c ∈ portText port) :
    c = ':' ∨ Number.isDigit c = true := by
  cases port with
  | none => simp [portText] at h
  | some p => exact (List.mem_cons.1 h).imp_right (Number.areDigits_toDigits p c)

theorem mem_portText {c : Char} (h : c ∈ portText port) : c = ':' ∨ isDelimiter c = false :=
  (isDigit_of_mem_portText h).imp_right isDelimiter_of_isDigit

/-- A colon or what is no delimiter ends neither an authority nor the user in it. -/
theorem plain_of_colon_or {c : Char} (h : c = ':' ∨ isDelimiter c = false) :
    c ≠ '@' ∧ isAuthorityEnd c = false := by
  rcases h with rfl | h
  · decide
  · have hslash := ne_of_isDelimiter h (d := '/') (by decide)
    have hquery := ne_of_isDelimiter h (d := '?') (by decide)
    have hfragment := ne_of_isDelimiter h (d := '#') (by decide)
    exact ⟨ne_of_isDelimiter h (by decide), by simp [isAuthorityEnd, hslash, hquery, hfragment]⟩

theorem IsHostForm.ne_nil (h : IsHostForm host) : host ≠ [] := by
  cases h with
  | name ne _ _ => exact ne
  | literal _ => simp

namespace IsHost

theorem isHostForm (h : IsHost host) : IsHostForm host := by
  cases h with
  | name ne h =>
    refine .name ne (fun hhead => ?_) fun hmem => ne_of_isDelimiter (h ':' hmem) (by decide) rfl
    exact ne_of_isDelimiter (h '[' (List.mem_of_head? hhead)) (by decide) rfl
  | literal h =>
    refine .literal fun hmem => ?_
    rcases h ']' hmem with hcolon | hplain
    · exact absurd hcolon (by decide)
    · exact ne_of_isDelimiter hplain (by decide) rfl

theorem ne_of_mem (h : IsHost host) {c : Char} (hc : c ∈ host) :
    c ≠ '@' ∧ isAuthorityEnd c = false := by
  cases h with
  | name ne h => exact plain_of_colon_or (.inr (h c hc))
  | literal h =>
    simp only [List.mem_cons, List.mem_append] at hc
    rcases hc with rfl | hc | rfl | hc
    · decide
    · exact plain_of_colon_or (h c hc)
    · decide
    · cases hc

theorem not_mem (h : IsHost host) : '@' ∉ host := fun hat => (h.ne_of_mem hat).1 rfl

end IsHost

theorem colon_of_head_portText : ∀ c ∈ (portText port).head?, (c != ':') = false := by
  cases port <;> simp [portText]

theorem host?_eq (h : IsHostForm host) (hat : '@' ∉ host)
    (hu : u.authority.toList = host ++ portText port) : u.host? = some (String.ofList host) := by
  have hne : ¬ u.authority.isEmpty = true := by
    rw [String.isEmpty_iff, ← String.toList_eq_nil_iff, hu]
    simp [h.ne_nil]
  have hwhole : afterLast '@' u.authority.toList = none := by
    rw [afterLast, Text.splitLast?_of_solid, Option.map_none]
    intro c hc
    rw [hu, List.mem_append] at hc
    simpa using hc.elim (fun hc => ne_of_mem_of_not_mem hc hat)
      fun hc => (plain_of_colon_or (mem_portText hc)).1
  rw [host?, if_neg hne, hwhole, Option.getD_none, hu]
  dsimp only
  cases h with
  | name ne hhead h =>
    have hfirst : (host ++ portText port).head? ≠ some '[' := by
      rwa [List.head?_append_of_ne_nil _ ne]
    have hcolon : ∀ c ∈ host, (c != ':') = true := fun c hc => by
      simpa using ne_of_mem_of_not_mem hc h
    rw [if_neg hfirst, Text.takeWhile_append_of_stops hcolon colon_of_head_portText]
  | @literal s h =>
    have hbracket : ∀ c ∈ '[' :: s, (c != ']') = true :=
      List.forall_mem_cons.2 ⟨by decide, fun c hc => by simpa using ne_of_mem_of_not_mem hc h⟩
    have hsplit : '[' :: (s ++ [']']) ++ portText port = '[' :: s ++ ']' :: portText port := by simp
    have hfirst : ('[' :: s ++ ']' :: portText port).head? = some '[' := rfl
    rw [hsplit, if_pos hfirst, Text.takeWhile_append_of_stops hbracket (by simp)]
    rfl

theorem port?_eq_some {p : Nat} (hu : u.authority.toList = host ++ portText (some p))
    (hp : p ≤ 65535) : u.port? = some p := by
  have hdigits : ∀ c ∈ Nat.toDigits 10 p, (c == ':') = false := fun c hc => by
    simpa using Number.ne_of_isDigit (Number.areDigits_toDigits p c hc) (d := ':') (by decide)
  rw [port?, hu, portText, Option.elim_some, afterLast,
    Text.splitLast?_append hdigits (by simp), Option.map_some, Option.bind_some,
    Number.readNatural_toDigits hp]
  rfl

theorem port?_eq_none (h : IsHostForm host) (hu : u.authority.toList = host) : u.port? = none := by
  rw [port?, hu, afterLast]
  cases h with
  | name ne hhead h =>
    rw [Text.splitLast?_of_solid]
    · rfl
    · exact fun c hc => by simpa using ne_of_mem_of_not_mem hc h
  | @literal s h =>
    cases hsplit : Text.splitLast? (· == ':') ('[' :: (s ++ [']'])) with
    | none => rfl
    | some parts =>
      obtain ⟨x, y⟩ := parts
      obtain ⟨a, -, hparts⟩ := Text.append_of_splitLast? hsplit
      cases hread : Number.readNatural 10 65535 y with
      | error e =>
        rw [Option.map_some, Option.bind_some, hread]
        rfl
      | ok n =>
        obtain ⟨sign, digits, hspells, -⟩ := Number.readNatural_eq_ok_iff.1 hread
        obtain ⟨start, d, rfl⟩ := (List.eq_nil_or_concat digits).resolve_left hspells.ne_nil
        rw [hspells.text] at hparts
        have hends : ('[' :: s) ++ [']'] = (x ++ a :: (sign.toList ++ start)) ++ [d] := by
          simpa using hparts
        obtain rfl : ']' = d := List.singleton_inj.1 (List.append_inj' hends rfl).2
        exact absurd (hspells.digits ']' (by simp)) (by decide)

theorem le_of_port? {p : Nat} (h : u.port? = some p) : p ≤ 65535 := by
  obtain ⟨digits, -, hread⟩ := Option.bind_eq_some_iff.1 h
  obtain ⟨_, _, -, -, -, hle⟩ := Number.readNatural_eq_ok_iff.1 (eq_ok_of_toOption hread)
  exact hle

end Authority

end Uri

end ServiceClient.Http
