import ServiceClient.Xml.Error

/-!
Character and entity references. `escape` writes the five characters that have a name as
references; `unescape` reads the references of an attribute value and `resolve` a single one in
character data. The two readings differ in the numbers they take.
-/

namespace ServiceClient.Xml

def escapeChar (c : Char) : List Char :=
  if c = '<' then "&lt;".toList
  else if c = '>' then "&gt;".toList
  else if c = '&' then "&amp;".toList
  else if c = '\'' then "&apos;".toList
  else if c = '"' then "&quot;".toList
  else [c]

def escape (s : String) : String :=
  String.ofList (s.toList.flatMap escapeChar)

def entity? (name : String) : Option Char :=
  match name with
  | "amp" => some '&'
  | "lt" => some '<'
  | "gt" => some '>'
  | "quot" => some '"'
  | "apos" => some '\''
  | _ => none

def codepoint? (n : Nat) : Option Char :=
  if n < 0xD800 ∨ (0xE000 ≤ n ∧ n < 0x110000) then some (Char.ofNat n) else none

def referenceDigits (upperX : Bool) : List Char → Nat × List Char
  | 'x' :: digits => (16, digits)
  | 'X' :: digits => if upperX then (16, digits) else (10, 'X' :: digits)
  | digits => (10, digits)

def wordLimit : Nat := Nat.pow 2 32 - 1

/-- A reference in character data: numbers may have a plus sign, `X` means `x`, and zero is a
character. -/
def resolve (name : String) : Except EncodingFault Char :=
  match name.toList with
  | '#' :: code =>
    let (base, digits) := referenceDigits true code
    match (Number.readNatural base wordLimit digits).toOption.bind codepoint? with
    | some c => .ok c
    | none => .error (.invalidReference name)
  | _ =>
    match entity? name with
    | some c => .ok c
    | none => .error (.unknownEntity name)

def referencedCharacter (code : List Char) : Except CharacterFault Char :=
  let (base, digits) := referenceDigits false code
  if digits.head? = some '+' ∨ digits.head? = some '-' then .error .unexpectedSign
  else match Number.readNatural base wordLimit digits with
    | .error fault => .error (.number fault)
    | .ok 0 => .error .null
    | .ok n => match codepoint? n with
      | some c => .ok c
      | none => .error (.notCodepoint n)

def octetCount (s : List Char) : Nat :=
  s.foldl (fun n c => n + c.utf8Size) 0

/-- The name between `start` and `stop`, without its ampersand and semicolon. -/
def unescapeName (start stop : Nat) (name : List Char) : Except EncodingFault Char :=
  match name with
  | '#' :: code =>
    match referencedCharacter code with
    | .ok c => .ok c
    | .error fault => .error (.character fault)
  | _ =>
    match entity? (String.ofList name) with
    | some c => .ok c
    | none => .error (.unrecognizedEntity start stop (String.ofList name))

/-- Reads on from octet `offset` of a value of `size` octets. In a reference, `name?` holds what has
been read of its name, last character first, and `offset` is where the reference started. -/
def unescapeFrom (size : Nat) : (name? : Option (List Char)) → (offset : Nat) → List Char →
    Except EncodingFault (List Char)
  | none, _, [] => .ok []
  | some _, offset, [] => .error (.unterminatedEntity offset size)
  | none, offset, c :: rest =>
    if c = '&' then unescapeFrom size (some []) offset rest
    else match unescapeFrom size none (offset + c.utf8Size) rest with
      | .ok cs => .ok (c :: cs)
      | .error e => .error e
  | some name, offset, c :: rest =>
    if c = '&' then .error (.unterminatedEntity offset size)
    else if c = ';' then
      let stop := offset + 1 + octetCount name
      match unescapeName (offset + 1) stop name.reverse with
      | .error e => .error e
      | .ok d => match unescapeFrom size none (stop + 1) rest with
        | .ok cs => .ok (d :: cs)
        | .error e => .error e
    else unescapeFrom size (some (c :: name)) offset rest

def unescape (s : String) : Except EncodingFault String :=
  (unescapeFrom (octetCount s.toList) none 0 s.toList).map String.ofList

end ServiceClient.Xml
