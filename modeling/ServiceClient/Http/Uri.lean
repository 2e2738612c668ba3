import ServiceClient.Number.Integer
import ServiceClient.Text.Blank
import ServiceClient.Text.Utf8

/-!
Request targets and absolute addresses, split by the rules of RFC 3986 for authority, path and
query. A path may hold characters that should have been escaped but are common; a fragment is
dropped.
-/

namespace ServiceClient.Http

inductive UriFault where
  | empty
  | tooLong
  | schemeTooLong
  | invalidFormat
  | invalidAuthority
  | invalidCharacter
  deriving DecidableEq, Repr

def UriFault.message : UriFault → String
  | .empty => "empty string"
  | .tooLong => "uri too long"
  | .schemeTooLong => "scheme too long"
  | .invalidFormat => "invalid format"
  | .invalidAuthority => "invalid authority"
  | .invalidCharacter => "invalid uri character"

/-- `target` is the path as written, which may be empty. -/
structure Uri where
  scheme : Option String
  authority : String
  target : String
  query : Option String
  deriving DecidableEq, Repr

namespace Uri

def isAlphanumeric (c : Char) : Bool :=
  Number.isDigit c || ('a' ≤ c && c ≤ 'z') || ('A' ≤ c && c ≤ 'Z')

def isSchemeChar (c : Char) : Bool :=
  isAlphanumeric c || "+-.~".toList.contains c

def isUriChar (c : Char) : Bool :=
  isAlphanumeric c || "!#$&'()*+,-./:;=?@[]_~".toList.contains c

def isAuthorityEnd (c : Char) : Bool :=
  c == '/' || c == '?' || c == '#'

def isPathChar (c : Char) : Bool :=
  let n := c.toNat
  n == 0x21 || n == 0x22 || (0x24 ≤ n && n ≤ 0x3B) || n == 0x3D || (0x40 ≤ n && n ≤ 0x5F) ||
    (0x61 ≤ n && n != 0x7F)

def isQueryChar (c : Char) : Bool :=
  let n := c.toNat
  n == 0x21 || (0x24 ≤ n && n ≤ 0x3B) || n == 0x3D || (0x3F ≤ n && n != 0x7F)

def splitScheme (s : List Char) : Except UriFault (Option (List Char) × List Char) :=
  let scheme := s.takeWhile isSchemeChar
  match s.dropWhile isSchemeChar with
  | ':' :: '/' :: '/' :: rest =>
    if 64 < scheme.length then .error .schemeTooLong else .ok (some scheme, rest)
  | _ => .ok (none, s)

structure AuthorityScan where
  colons : Nat
  opened : Bool
  closed : Bool
  percent : Bool
  deriving DecidableEq, Repr

def AuthorityScan.step (a : AuthorityScan) (c : Char) : Except UriFault AuthorityScan :=
  if c = ':' then
    if 8 ≤ a.colons then .error .invalidAuthority else .ok { a with colons := a.colons + 1 }
  else if c = '[' then
    if a.percent ∨ a.opened then .error .invalidAuthority else .ok { a with opened := true }
  else if c = ']' then
    if !a.opened ∨ a.closed then .error .invalidAuthority
    else .ok { a with closed := true, colons := 0, percent := false }
  else if c = '@' then .ok { a with colons := 0, percent := false }
  else if c = '%' then .ok { a with percent := true }
  else if isUriChar c then .ok a
  else .error .invalidCharacter

def checkAuthority (s : List Char) : Except UriFault Unit := do
  let a ← s.foldlM AuthorityScan.step ⟨0, false, false, false⟩
  if a.opened ≠ a.closed ∨ 1 < a.colons ∨ s.getLast? = some '@' ∨ a.percent then
    .error .invalidAuthority
  else .ok ()

def checkAll (p : Char → Bool) (s : List Char) : Except UriFault Unit :=
  if s.all p then .ok () else .error .invalidCharacter

/-- Path and query; a fragment after either is dropped without a look. -/
def splitTarget (s : List Char) : Except UriFault (List Char × Option (List Char)) := do
  let path := s.takeWhile fun c => c != '?' && c != '#'
  checkAll isPathChar path
  match s.drop path.length with
  | '?' :: rest =>
    let query := rest.takeWhile (· != '#')
    checkAll isQueryChar query
    pure (path, some query)
  | _ => pure (path, none)

def ofTarget (scheme : Option (List Char)) (authority target : List Char) :
    Except UriFault Uri := do
  let (path, query) ← splitTarget target
  pure ⟨scheme.map String.ofList, String.ofList authority, String.ofList path,
    query.map String.ofList⟩

def lengthLimit : Nat := 65534

def parse (s : String) : Except UriFault Uri := do
  if lengthLimit < (Text.encode s).length then .error .tooLong
  else match s.toList with
    | [] => .error .empty
    | ['*'] => .ok ⟨none, "", "*", none⟩
    | '/' :: rest => ofTarget none [] ('/' :: rest)
    | cs =>
      let (scheme, rest) ← splitScheme cs
      let authority := rest.takeWhile (!isAuthorityEnd ·)
      checkAuthority authority
      let target := rest.drop authority.length
      if scheme.isNone then
        if target.isEmpty then .ok ⟨none, s, "", none⟩ else .error .invalidFormat
      else if authority.isEmpty then .error .invalidFormat
      else ofTarget scheme authority target

/-- The path; one slash if there is none but a scheme. -/
def path (u : Uri) : String :=
  if u.target.isEmpty ∧ (u.scheme.isSome ∨ u.query.isSome) then "/" else u.target

def afterLast (c : Char) (s : List Char) : Option (List Char) :=
  (Text.splitLast? (· == c) s).map (·.2)

/-- The host without user and port; brackets around an address stay. -/
def host? (u : Uri) : Option String :=
  if u.authority.isEmpty then none
  else
    let s := (afterLast '@' u.authority.toList).getD u.authority.toList
    if s.head? = some '[' then some (String.ofList (s.takeWhile (· != ']') ++ [']']))
    else some (String.ofList (s.takeWhile (· != ':')))

def port? (u : Uri) : Option Nat :=
  (afterLast ':' u.authority.toList).bind fun s =>
    (Number.readNatural 10 65535 s).toOption

def schemeText (scheme : String) : String :=
  let lower := Text.lowerAscii scheme
  if lower = "http" ∨ lower = "https" then lower else scheme

def text (u : Uri) : String :=
  (match u.scheme with
    | some s => schemeText s ++ "://"
    | none => "") ++ u.authority ++ u.path ++
  (match u.query with
    | some q => "?" ++ q
    | none => "")

end Uri

end ServiceClient.Http
