import ServiceClient.Text.Blank
import ServiceClient.Xml.Element
import ServiceClient.Xml.Event

/-!
Reading elements. Attributes are read in order, and each is decoded before the next one is looked
at; character data between two tags is one text, however it is spelled; blank text beside elements
is dropped when their parent closes. The first fault in document order wins.
-/

namespace ServiceClient.Xml

open Text (Octets encode)

def decodeOctets (s : Octets) : Except XmlError String :=
  match Text.decode s with
  | .ok s => .ok s
  | .error e => .error (.encoding (.octets e))

def decodeCharacters (s : Octets) : Except XmlError String :=
  match Text.decode s with
  | .ok s => .ok s
  | .error e => .error (.encoding (.characterData e))

/-- A key with its place, and what follows its equals sign with that place. -/
structure KeyStep where
  key : Octets
  start : Nat
  position : Nat
  rest : Octets

def isKeyOctet (b : UInt8) : Bool :=
  b != octet '=' && !isSpace b

/-- None at the end of the tag. The first octet belongs to the key whatever it is. -/
def scanKey (position : Nat) (s : Octets) : Except AttributeFault (Option KeyStep) :=
  let start := position + (s.takeWhile isSpace).length
  match s.dropWhile isSpace with
  | [] => .ok none
  | b :: rest =>
    let key := b :: rest.takeWhile isKeyOctet
    let after := rest.dropWhile isKeyOctet
    let stop := start + key.length + (after.takeWhile isSpace).length
    match after.dropWhile isSpace with
    | [] => .error (.expectedEq stop)
    | c :: rest => if c = octet '=' then .ok (some ⟨key, start, stop + 1, rest⟩)
      else .error (.expectedEq stop)

structure ValueStep where
  value : Octets
  position : Nat
  rest : Octets

def scanValue (position : Nat) (s : Octets) : Except AttributeFault ValueStep :=
  let start := position + (s.takeWhile isSpace).length
  match s.dropWhile isSpace with
  | [] => .error (.expectedValue start)
  | q :: rest =>
    if q = octet '"' ∨ q = octet '\'' then
      match Text.splitFirst? (· == q) rest with
      | some (value, rest) => .ok ⟨value, start + value.length + 2, rest⟩
      | none => .error (.expectedQuote (start + rest.length + 1) (Char.ofNat q.toNat))
    else .error (.unquotedValue start)

theorem length_of_scanKey {position : Nat} {s : Octets} {k : KeyStep}
    (h : scanKey position s = .ok (some k)) : k.rest.length < s.length := by
  unfold scanKey at h
  dsimp only at h
  have hs := (List.dropWhile_suffix isSpace (l := s)).length_le
  split at h
  · simp at h
  · rename_i b rest hb
    rw [hb] at hs
    have h1 := (List.dropWhile_suffix isKeyOctet (l := rest)).length_le
    have h2 := (List.dropWhile_suffix isSpace (l := rest.dropWhile isKeyOctet)).length_le
    split at h
    · simp at h
    · rename_i c rest' hc
      split at h
      · simp only [Except.ok.injEq, Option.some.injEq] at h
        subst h
        rw [hc] at h2
        simp at h2 hs ⊢
        omega
      · simp at h

theorem length_of_scanValue {position : Nat} {s : Octets} {v : ValueStep}
    (h : scanValue position s = .ok v) : v.rest.length < s.length := by
  unfold scanValue at h
  dsimp only at h
  have hs := (List.dropWhile_suffix isSpace (l := s)).length_le
  split at h
  · simp at h
  · rename_i q rest hq
    rw [hq] at hs
    split at h
    · split at h
      · rename_i value rest' h'
        obtain ⟨a, _, rfl⟩ := Text.append_of_splitFirst? h'
        simp only [Except.ok.injEq] at h
        subst h
        simp at hs ⊢
        omega
      · simp at h
    · simp at h

/-- The attributes from `position` on; `seen` has the keys before with their places. -/
def readAttributes (seen : List (Octets × Nat)) (position : Nat) (s : Octets) :
    Except XmlError (List Attribute) :=
  match hk : scanKey position s with
  | .error e => .error (.attribute e)
  | .ok none => .ok []
  | .ok (some k) =>
    match seen.lookup k.key with
    | some first => .error (.attribute (.duplicated k.start first))
    | none =>
      match hv : scanValue k.position k.rest with
      | .error e => .error (.attribute e)
      | .ok v =>
        have : v.rest.length < s.length :=
          Nat.lt_trans (length_of_scanValue hv) (length_of_scanKey hk)
        match decodeOctets k.key with
        | .error e => .error e
        | .ok key =>
          match decodeOctets v.value with
          | .error e => .error e
          | .ok raw =>
            match unescape raw with
            | .error e => .error (.encoding e)
            | .ok value =>
              match readAttributes ((k.key, k.start) :: seen) v.position v.rest with
              | .ok more => .ok (⟨key, value⟩ :: more)
              | .error e => .error e
  termination_by s.length

def Attribute.declares? (a : Attribute) : Option Namespace :=
  if a.name = "xmlns" then some ⟨"", a.value⟩
  else ("xmlns:".toList.isPrefixOf? a.name.toList).map fun p => ⟨String.ofList p, a.value⟩

/-- Of the declarations in a tag the one for the tag's own prefix becomes its namespace, or the first
one if none is; the others stay attributes, ahead of all others. -/
def takeNamespace (nsPrefix : String) (attributes : List Attribute) :
    Option Namespace × List Attribute :=
  let declared := attributes.filterMap Attribute.declares?
  let others := attributes.filter (·.declares?.isNone)
  let index := (declared.findIdx? (·.nsPrefix == nsPrefix)).getD 0
  (declared[index]?,
    (declared.eraseIdx index).map (fun ns => ⟨ns.attributeName, ns.uri⟩) ++ others)

def splitName (name : Octets) : Option Octets × Octets :=
  match Text.splitFirst? (· == octet ':') name with
  | some (p, rest) => (some p, rest)
  | none => (none, name)

/-- Reads a tag inside elements with the namespaces of `scope`; its own is dropped if it is one of
them. -/
def readTag (scope : List Namespace) (raw : Octets) : Except XmlError Tag := do
  let name := tagName raw
  let (p, base) := splitName name
  let base ← decodeOctets base
  let nsPrefix ← decodeOctets (p.getD [])
  let attributes ← readAttributes [] name.length (raw.drop name.length)
  let (ns, attributes) := takeNamespace nsPrefix attributes
  pure ⟨base, if nsPrefix.isEmpty then none else some nsPrefix, ns.filter (· ∉ scope), attributes⟩

/-- An element that is still open, its content last first. -/
structure Frame where
  tag : Tag
  content : List Content

structure Builder where
  frames : List Frame
  root : Option Element

def Content.isElement : Content → Bool
  | .element _ _ => true
  | .text _ => false

def Content.isBlankText : Content → Bool
  | .text s => Text.allBlank s
  | .element _ _ => false

def dropIndentation (content : List Content) : List Content :=
  if content.any Content.isElement then content.filter (!·.isBlankText) else content

def pushText (s : String) : List Content → List Content
  | .text t :: rest => .text (t ++ s) :: rest
  | content => .text s :: content

namespace Builder

def start : Builder := ⟨[], none⟩

def scope (b : Builder) : List Namespace :=
  b.frames.filterMap (·.tag.ns)

def attach (b : Builder) (tag : Tag) (content : List Content) : Builder :=
  match b.frames with
  | [] => ⟨[], some ⟨tag, content⟩⟩
  | f :: frames => ⟨⟨f.tag, .element tag content :: f.content⟩ :: frames, b.root⟩

def addText (b : Builder) (s : String) : Except XmlError Builder :=
  match b.frames with
  | [] => if Text.allBlank s then .ok b else .error (.malformed .textOutsideRoot)
  | f :: frames => .ok ⟨⟨f.tag, pushText s f.content⟩ :: frames, b.root⟩

def openTag (b : Builder) (raw : Octets) : Except XmlError Tag := do
  let tag ← readTag b.scope raw
  if b.frames.isEmpty ∧ b.root.isSome then .error (.malformed .multipleRoots) else pure tag

def step (b : Builder) : Event → Except XmlError Builder
  | .opening raw => do
    let tag ← b.openTag raw
    pure ⟨⟨tag, []⟩ :: b.frames, b.root⟩
  | .empty raw => do
    let tag ← b.openTag raw
    pure (b.attach tag [])
  | .closing =>
    match b.frames with
    | [] => .ok b
    | f :: frames => .ok (attach ⟨frames, b.root⟩ f.tag (dropIndentation f.content.reverse))
  | .text raw => do b.addText (← decodeCharacters raw)
  | .characters raw => do b.addText (← decodeOctets raw)
  | .reference name => do
    let name ← decodeCharacters name
    match resolve name with
    | .ok c => b.addText (String.singleton c)
    | .error e => .error (.encoding e)
  | .ignored => .ok b

def finish (b : Builder) : Except XmlError Element :=
  if !b.frames.isEmpty then .error (.malformed .unclosedElement)
  else match b.root with
    | some e => .ok e
    | none => .error .missingRoot

end Builder

/-- A fault of the markup counts only if the events before it are in order. -/
def Element.ofEvents (s : Events) : Except XmlError Element := do
  let b ← s.events.foldlM Builder.step Builder.start
  match s.fault with
  | some e => .error (.markup e)
  | none => b.finish

def Element.parse (s : Octets) : Except XmlError Element :=
  Element.ofEvents (Event.scan s)

end ServiceClient.Xml
