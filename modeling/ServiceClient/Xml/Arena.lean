import ServiceClient.Xml.Document

/-!
A document as it is kept: all nodes in one array, each with the numbers of its children and that of
its parent. The two are stored apart, so nothing but the way in which they are changed keeps them in
step. A number that is out of range gives no result at all, and neither does a walk along the links
that does not come to an end: it has taken more steps than there are nodes.
-/

namespace ServiceClient.Xml

open Text (Octets encode)

structure Cell extends Node where
  children : List NodeId
  parent : Option NodeId
  deriving DecidableEq, Repr

def Cell.ofInfo (info : NodeInfo) : Cell := ⟨.ofInfo info, [], none⟩

def Cell.isAt (l : Location) (c : Cell) : Bool := c.info.location == l

def Cell.asAttribute? (c : Cell) : Option Attribute :=
  if c.isAt .attribute then some ⟨c.info.name, c.content.getD ""⟩ else none

structure Arena where
  cells : Array Cell
  root : NodeId
  deriving DecidableEq, Repr

namespace Arena

def empty : Arena := ⟨#[], 0⟩

def new (root : NodeInfo) : Arena := ⟨#[.ofInfo root], 0⟩

def size (a : Arena) : Nat := a.cells.size

def cell? (a : Arena) (i : NodeId) : Option Cell := a.cells[i]?

def modify (a : Arena) (i : NodeId) (f : Cell → Cell) : Arena :=
  { a with cells := a.cells.modify i f }

def push (a : Arena) (c : Cell) : Arena :=
  { a with cells := a.cells.push c }

def family? (a : Arena) (i : NodeId) : Option (List (NodeId × Cell)) := do
  (← a.cell? i).children.mapM fun j => (a.cell? j).map fun c => (j, c)

/-- Whether `p` holds of a node or of one above it. The way up ends at the first of which it does. -/
def anyAbove (a : Arena) (p : NodeId → Cell → Bool) : (steps : Nat) → NodeId → Option Bool
  | 0, _ => none
  | steps + 1, i => do
    let c ← a.cell? i
    if p i c then some true
    else match c.parent with
      | none => some false
      | some parent => anyAbove a p steps parent

def below (a : Arena) : (depth : Nat) → NodeId → Option (List NodeId)
  | 0, _ => none
  | depth + 1, i => do
    let c ← a.cell? i
    let rest ← c.children.mapM (below a depth)
    some (i :: rest.flatten)

structure Output where
  ids : List NodeId
  octets : Octets
  deriving DecidableEq, Repr

/-- Writes the children of an element; attributes are in its tag. -/
def writeAll (element : NodeId → Option Output) : List (NodeId × Cell) → Option Output
  | [] => some ⟨[], []⟩
  | (j, c) :: family => do
    let first ← match c.info.location with
      | .element => element j
      | .text => some ⟨[j], encode (escape (c.content.getD ""))⟩
      | .attribute => some ⟨[j], []⟩
    let rest ← writeAll element family
    some ⟨first.ids ++ rest.ids, first.octets ++ rest.octets⟩

def write (a : Arena) : (depth : Nat) → NodeId → Option Output
  | 0, _ => none
  | depth + 1, i => do
    let c ← a.cell? i
    let family ← a.family? i
    let tag := ⟨c.info.name, c.nsPrefix, c.info.ns, family.filterMap fun x => x.2.asAttribute?⟩
    let inner ← writeAll (write a depth) family
    let hasBody := family.any fun x => !x.2.isAt .attribute
    some ⟨i :: inner.ids, Tag.enclose tag (if hasBody then some inner.octets else none)⟩

def output (a : Arena) : Option Output := a.write a.size a.root

def octets (a : Arena) : Option Octets := a.output.map Output.octets

end Arena

abbrev Handling := StateT Arena Option

namespace Handling

def cell (i : NodeId) : Handling Cell := do
  (← get).cell? i

def family (i : NodeId) : Handling (List (NodeId × Cell)) := do
  (← get).family? i

def anyAbove (p : NodeId → Cell → Bool) (i : NodeId) : Handling Bool := do
  let a ← get
  a.anyAbove p a.size i

def update (i : NodeId) (f : Cell → Cell) : Handling Unit := do
  let _ ← cell i
  modify (Arena.modify · i f)

def setContent (i : NodeId) (s : String) : Handling Unit :=
  update i fun c => { c with content := some s }

def create (info : NodeInfo) : Handling NodeId :=
  modifyGet fun a => (a.size, a.push (.ofInfo info))

def detach (i : NodeId) : Handling Unit := do
  match (← cell i).parent with
  | none => pure ()
  | some parent =>
    update i fun c => { c with parent := none }
    update parent fun c => { c with children := c.children.filter (· ≠ i) }

def leaveScope (parent child : NodeId) : Handling Unit := do
  match (← cell child).info.ns with
  | none => pure ()
  | some ns =>
    if ← anyAbove (fun _ c => c.info.ns == some ns) parent then
      update child fun c => { c with info := { c.info with ns := none } }

/-- Makes a node the last child of another one, whether or not that is below it. -/
def link (parent child : NodeId) : Handling Unit := do
  detach child
  leaveScope parent child
  update child fun c => { c with parent := some parent }
  update parent fun c => { c with children := c.children ++ [child] }

def appendChild (parent child : NodeId) : Handling (Except XmlError Unit) := do
  if ← anyAbove (fun i _ => i == child) parent then
    pure (.error .cyclicMove)
  else
    link parent child
    pure (.ok ())

def addChild (parent : NodeId) (info : NodeInfo) : Handling NodeId := do
  let child ← create info
  link parent child
  pure child

def addValue (parent : NodeId) (info : NodeInfo) (s : String) : Handling Unit := do
  let child ← addChild parent info
  setContent child s

def childrenMatching (parent : NodeId) (info : NodeInfo) : Handling (List NodeId) := do
  let family ← family parent
  pure ((family.filter fun x => x.2.info.isLike info).map Prod.fst)

def firstChild? (parent : NodeId) (info : NodeInfo) : Handling (Option NodeId) := do
  let found ← childrenMatching parent info
  pure found.head?

def text (i : NodeId) : Handling String := do
  let c ← cell i
  match c.info.location with
  | .element =>
    let family ← family i
    pure (String.join ((family.filter fun x => x.2.isAt .text).map fun x => x.2.content.getD ""))
  | _ => pure (c.content.getD "")

/-- Replaces the text of a node; an element's text becomes one new last child. -/
def setText (i : NodeId) (s : String) : Handling Unit := do
  match (← cell i).info.location with
  | .element =>
    let stale := (← family i).filter fun x => x.2.isAt .text
    (stale.map Prod.fst).forM detach
    addValue i .forText s
  | _ => setContent i s

end Handling

abbrev Parsing := ExceptT XmlError Handling

namespace Parsing

open Handling

def ofExcept {α : Type} : Except XmlError α → Parsing α
  | .ok a => pure a
  | .error e => throw e

def addAttributes (i : NodeId) (attributes : List Attribute) : Handling Unit :=
  attributes.forM fun a => addValue i (.forAttribute a.name) a.value

def createElement (tag : Tag) : Handling NodeId := do
  let i ← create ⟨tag.name, .element, tag.ns⟩
  update i fun c => { c with nsPrefix := tag.nsPrefix }
  pure i

def place (i : NodeId) (parent : Option NodeId) (hasRoot : Bool) : Parsing Unit :=
  match parent with
  | some parent => link parent i
  | none =>
    if hasRoot then throw (.malformed .multipleRoots)
    else modify fun a => { a with root := i }

def openElement (raw : Octets) (parent : Option NodeId) (hasRoot : Bool) : Parsing NodeId := do
  let tag ← ofExcept (readTag [] raw)
  let i ← createElement tag
  place i parent hasRoot
  addAttributes i tag.attributes
  pure i

/-- Adds to the last child if that is a text. -/
def appendText (parent : NodeId) (s : String) : Handling Unit := do
  match (← family parent).getLast?.filter (·.2.isAt .text) with
  | some (last, c) => setContent last (c.content.getD "" ++ s)
  | none => addValue parent .forText s

def pushText (parent : Option NodeId) (s : String) : Parsing Unit :=
  match parent with
  | none => if Text.allBlank s then pure () else throw (.malformed .textOutsideRoot)
  | some parent => appendText parent s

def isBlankText (c : Cell) : Bool :=
  c.isAt .text && c.content.all Text.allBlank

def dropIndentation (i : NodeId) : Handling Unit := do
  let family ← family i
  if family.any fun x => x.2.isAt .element then
    let blank := family.filter fun x => isBlankText x.2
    (blank.map Prod.fst).forM detach

/-- The elements that are open, innermost first, and whether there has been one. -/
abbrev Progress := List NodeId × Bool

def step : Progress → Event → Parsing Progress
  | (stack, hasRoot), .opening raw => do
    let i ← openElement raw stack.head? hasRoot
    pure (i :: stack, hasRoot || stack.isEmpty)
  | (stack, hasRoot), .empty raw => do
    let _ ← openElement raw stack.head? hasRoot
    pure (stack, hasRoot || stack.isEmpty)
  | ([], hasRoot), .closing => pure ([], hasRoot)
  | (i :: stack, hasRoot), .closing => do
    dropIndentation i
    pure (stack, hasRoot)
  | (stack, hasRoot), .text raw => do
    pushText stack.head? (← ofExcept (decodeCharacters raw))
    pure (stack, hasRoot)
  | (stack, hasRoot), .characters raw => do
    pushText stack.head? (← ofExcept (decodeOctets raw))
    pure (stack, hasRoot)
  | (stack, hasRoot), .reference name => do
    let name ← ofExcept (decodeCharacters name)
    let c ← ofExcept ((resolve name).mapError .encoding)
    pushText stack.head? (String.singleton c)
    pure (stack, hasRoot)
  | progress, .ignored => pure progress

def finish : Progress → Parsing Unit
  | (stack, hasRoot) =>
    if !stack.isEmpty then throw (.malformed .unclosedElement)
    else if !hasRoot then throw .missingRoot
    else pure ()

/-- A fault of the markup counts only if the events before it are in order. -/
def ofEvents (s : Events) : Parsing Unit := do
  let progress ← s.events.foldlM step ([], false)
  match s.fault with
  | some e => throw (.markup e)
  | none => finish progress

end Parsing

def Arena.parse (s : Octets) : Option (Except XmlError Arena) :=
  (Parsing.ofEvents (Event.scan s) .empty).map fun (r, a) => r.map fun _ => a

end ServiceClient.Xml
