import ServiceClient.Text.Base64
import ServiceClient.Time.Timestamp
import ServiceClient.Wire.Scalar
import ServiceClient.Json.Basic
import ServiceClient.Xml.Cursor

/-!
Typed values in a document. A schema says how a value is laid out below a node: members of a record
by name, items of a list under a wrapper or, flattened, as siblings under the list's own name, and
entries of a map by key. Reading and writing follow the same schema; an absent value leaves no
node.
-/

namespace ServiceClient.Xml

structure Member where
  key : String
  info : NodeInfo
  deriving DecidableEq, Repr

/-- `optional` collections and records may be absent; others read as empty where nothing is. -/
inductive Schema where
  | scalar (t : ScalarType)
  | optional (t : ScalarType)
  | timestamp (format : Time.TimestampFormat)
  | optionalTimestamp (format : Time.TimestampFormat)
  | blob
  | list (optional : Bool) (item : Schema) (info : NodeInfo) (flattened : Bool)
  | map (optional : Bool) (value : Schema) (keyInfo valueInfo : NodeInfo) (flattened : Bool)
  | record (optional : Bool) (members : List (Member × Schema))
  | taken (inner : Schema)
  | inspection
  deriving Repr

structure Inspection where
  label : String
  ns : Option Namespace
  present : Bool
  text : Option String
  deriving DecidableEq, Repr

/-- A `literal` is a scalar still in the spelling it was given; maps hold each key once, in
increasing order. -/
inductive Value where
  | absent
  | scalar (x : Scalar)
  | literal (s : String)
  | instant (t : Time.Instant)
  | octets (s : Text.Octets)
  | list (items : List Value)
  | map (entries : List (String × Value))
  | record (members : List (String × Value))
  | taken (inner : Value) (present : Bool)
  | inspection (i : Inspection)
  deriving Repr, Inhabited

namespace Value

def member (key : String) : Value → Value
  | .record members => (members.lookup key).getD .absent
  | _ => .absent

def items : Value → List Value
  | .list items => items
  | _ => []

def entries : Value → List (String × Value)
  | .map entries => entries
  | _ => []

def isAbsent : Value → Bool
  | .absent => true
  | _ => false

end Value

def entryInfo : NodeInfo := .forElement "entry"

def fail {α : Type} (e : XmlError) : Editing α := throw e

def missing {α : Type} (c : Cursor) : Editing α :=
  fail (.value (.missingValue c.info.label))

def liftWire {α : Type} (x : Except WireError α) : Editing α :=
  match x with
  | .ok a => pure a
  | .error e => fail (.value e)

def readScalar (t : ScalarType) (s : String) : Editing Value := do
  pure (.scalar (← liftWire (t.read s)))

def readTimestamp (f : Time.TimestampFormat) (s : String) : Editing Value := do
  pure (.instant (← liftWire (f.parse s)))

def readBlob (s : String) : Editing Value :=
  match Text.Base64.decode? (Text.trim s) with
  | some octets => pure (.octets octets)
  | none => fail (.value (.invalidValue s "base64 blob"))

def readText (c : Cursor) (read : String → Editing Value) : Editing Value := do
  match c.text? (← get) with
  | some s => read s
  | none => pure .absent

def readRequired (c : Cursor) (read : String → Editing Value) : Editing Value := do
  match c.text? (← get) with
  | some s => read s
  | none => missing c

/-- The cursors of a collection's items; none if the collection is absent. -/
def itemCursors (c : Cursor) (flattened : Bool) (item : NodeInfo) :
    Editing (Option (List Cursor)) := do
  match c.items? flattened item with
  | none => pure none
  | some (place, info) =>
    let nodes := (← get).childrenMatching place info
    if flattened ∧ nodes.isEmpty then pure none
    else pure (some (nodes.map fun node => ⟨some place, some node, info⟩))

def readEach (read : Cursor → Editing Value) : List Cursor → Editing (List Value)
  | [] => pure []
  | c :: cs => do
    let v ← read c
    let vs ← readEach read cs
    pure (v :: vs)

def readEntries (keyInfo valueInfo : NodeInfo) (read : Cursor → Editing Value) :
    List Cursor → List (String × Value) → Editing (List (String × Value))
  | [], entries => pure entries
  | c :: cs, entries => do
    let keyCursor := c.descend (← get) keyInfo
    match keyCursor.text? (← get) with
    | none => missing keyCursor
    | some key =>
      let v ← read (c.descend (← get) valueInfo)
      readEntries keyInfo valueInfo read cs (insertKey key v entries)

mutual

def Schema.read : Schema → Cursor → Editing Value
  | .scalar t, c => readRequired c (readScalar t)
  | .optional t, c => readText c (readScalar t)
  | .timestamp f, c => readRequired c (readTimestamp f)
  | .optionalTimestamp f, c => readText c (readTimestamp f)
  | .blob, c => readText c readBlob
  | .list optional item info flattened, c => do
    match ← itemCursors c flattened info with
    | some cursors => pure (.list (← readEach (fun c => item.read c) cursors))
    | none => pure (if optional then .absent else .list [])
  | .map optional value keyInfo valueInfo flattened, c => do
    match ← itemCursors c flattened entryInfo with
    | some cursors =>
      pure (.map (← readEntries keyInfo valueInfo (fun c => value.read c) cursors []))
    | none => pure (if optional then .absent else .map [])
  | .record optional members, c =>
    if optional ∧ !c.isPresent then pure .absent
    else do pure (.record (← readMembers members c))
  | .taken inner, c => do
    let v ← inner.read c
    let c ← c.detach
    pure (.taken v c.isPresent)
  | .inspection, c => do
    pure (.inspection ⟨c.info.label, c.info.ns, c.isPresent, c.text? (← get)⟩)

def readMembers : List (Member × Schema) → Cursor → Editing (List (String × Value))
  | [], _ => pure []
  | (m, schema) :: rest, c => do
    let v ← schema.read (c.descend (← get) m.info)
    let more ← readMembers rest c
    pure ((m.key, v) :: more)

end

def writeText (c : Cursor) (s : String) : Editing Cursor := do
  c.setText s
  pure c

def writeScalar (t : ScalarType) (v : Value) (c : Cursor) : Editing Cursor :=
  match v with
  | .scalar x => writeText c x.text
  | .literal s => do writeText c (← liftWire (t.read s)).text
  | _ => c.detach

def writeTimestamp (f : Time.TimestampFormat) (v : Value) (c : Cursor) : Editing Cursor :=
  match v with
  | .instant t => writeText c (f.format t)
  | _ => c.detach

def writeBlob (v : Value) (c : Cursor) : Editing Cursor :=
  match v with
  | .octets s => writeText c (Text.Base64.encode s)
  | _ => c.detach

def appendItem (place : NodeId) (info : NodeInfo) : Editing Cursor := do
  let (d, node) := (← get).addChild place info
  set d
  pure ⟨some place, some node, info⟩

def writeEach (place : NodeId) (info : NodeInfo) (write : Value → Cursor → Editing Cursor) :
    List Value → Editing Unit
  | [] => pure ()
  | v :: vs => do
    discard (write v (← appendItem place info))
    writeEach place info write vs

def writeEntries (place : NodeId) (info keyInfo valueInfo : NodeInfo)
    (write : Value → Cursor → Editing Cursor) : List (String × Value) → Editing Unit
  | [] => pure ()
  | (key, v) :: rest => do
    let entry ← appendItem place info
    (← entry.extend keyInfo).setText key
    discard (write v (← entry.extend valueInfo))
    writeEntries place info keyInfo valueInfo write rest

mutual

/-- Writes at the cursor and gives it back, which may stand on a missing node afterwards. -/
def Schema.write : Schema → Value → Cursor → Editing Cursor
  | .scalar t, v, c => writeScalar t v c
  | .optional t, v, c => writeScalar t v c
  | .timestamp f, v, c => writeTimestamp f v c
  | .optionalTimestamp f, v, c => writeTimestamp f v c
  | .blob, v, c => writeBlob v c
  | .list _ item info flattened, v, c =>
    if v.isAbsent then c.detach
    else do
      let (c, place) ← c.openItems flattened info
      if let some (place, info) := place then
        writeEach place info (fun v c => item.write v c) v.items
      pure c
  | .map _ value keyInfo valueInfo flattened, v, c =>
    if v.isAbsent then c.detach
    else do
      let (c, place) ← c.openItems flattened entryInfo
      if let some (place, info) := place then
        writeEntries place info keyInfo valueInfo (fun v c => value.write v c) v.entries
      pure c
  | .record optional members, v, c =>
    if optional ∧ v.isAbsent then c.detach
    else do
      writeMembers members v c
      pure c
  | .taken inner, v, c => inner.write v c
  | .inspection, _, c => pure c

def writeMembers : List (Member × Schema) → Value → Cursor → Editing Unit
  | [], _, _ => pure ()
  | (m, schema) :: rest, v, c => do
    discard (schema.write (v.member m.key) (← c.extend m.info))
    writeMembers rest v c

end

def writeDocument (root : NodeInfo) (schema : Schema) (v : Value) : Except WireError Text.Octets :=
  let d := Document.new root
  match (schema.write v (.atRoot d)).run d with
  | (.ok _, d) => .ok d.octets
  | (.error e, _) => .error e.toWireError

/-- Reads a whole document; `root` is the name its root must have, if it is not empty. -/
def readDocument (root : String) (schema : Schema) (s : Text.Octets) : Except WireError Value := do
  match Document.parse s with
  | .error e => .error e.toWireError
  | .ok d =>
    let found := (d.node d.root).info.name
    if !root.isEmpty ∧ found ≠ root then .error (XmlError.unexpectedRoot root found).toWireError
    else match ((schema.read (.atRoot d)).run d).1 with
      | .ok v => .ok v
      | .error e => .error e.toWireError

end ServiceClient.Xml
