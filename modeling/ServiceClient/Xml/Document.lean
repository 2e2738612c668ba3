import ServiceClient.Xml.Parse

/-!
A document under construction: a forest of numbered nodes, one of which is the root. Nodes that were
never attached, or were detached, are tops of trees of their own and can be attached again. A node
that comes under a parent gives up a namespace that is declared there or above. How the nodes and
their links are kept is in `Xml.Arena`.
-/

namespace ServiceClient.Xml

inductive Location where
  | element
  | attribute
  | text
  deriving DecidableEq, Repr, Inhabited

structure NodeInfo where
  name : String
  location : Location
  ns : Option Namespace
  deriving DecidableEq, Repr, Inhabited

namespace NodeInfo

def forElement (name : String) : NodeInfo := ⟨name, .element, none⟩

def forAttribute (name : String) : NodeInfo := ⟨name, .attribute, none⟩

def forText : NodeInfo := ⟨"", .text, none⟩

/-- Namespaces do not count. -/
def isLike (a b : NodeInfo) : Bool :=
  a.location == b.location && a.name == b.name

def label (i : NodeInfo) : String :=
  match i.location with
  | .element => i.name
  | .attribute => "@" ++ i.name
  | .text => "#text"

end NodeInfo

structure Node where
  info : NodeInfo
  content : Option String
  nsPrefix : Option String
  deriving DecidableEq, Repr, Inhabited

def Node.ofInfo (info : NodeInfo) : Node := ⟨info, none, none⟩

def Node.qualifiedName (n : Node) : String :=
  match n.nsPrefix with
  | some p => p ++ ":" ++ n.info.name
  | none => n.info.name

abbrev NodeId := Nat

inductive Tree where
  | node (id : NodeId) (value : Node) (children : List Tree)
  deriving Repr

namespace Tree

def id : Tree → NodeId
  | .node id _ _ => id

def value : Tree → Node
  | .node _ value _ => value

def children : Tree → List Tree
  | .node _ _ children => children

mutual

def find? (i : NodeId) : Tree → Option Tree
  | .node id value children =>
    if id = i then some (.node id value children) else findAmong? i children

def findAmong? (i : NodeId) : List Tree → Option Tree
  | [] => none
  | t :: ts => match find? i t with
    | some found => some found
    | none => findAmong? i ts

end

mutual

def path? (i : NodeId) : Tree → Option (List Tree)
  | .node id value children =>
    if id = i then some [.node id value children]
    else (pathAmong? i children).map (· ++ [.node id value children])

def pathAmong? (i : NodeId) : List Tree → Option (List Tree)
  | [] => none
  | t :: ts => match path? i t with
    | some path => some path
    | none => pathAmong? i ts

end

mutual

def modify (i : NodeId) (f : Tree → Tree) : Tree → Tree
  | .node id value children =>
    if id = i then f (.node id value children) else .node id value (modifyAmong i f children)

def modifyAmong (i : NodeId) (f : Tree → Tree) : List Tree → List Tree
  | [] => []
  | t :: ts => modify i f t :: modifyAmong i f ts

end

mutual

def prune (i : NodeId) : Tree → Tree
  | .node id value children => .node id value (pruneAmong i children)

def pruneAmong (i : NodeId) : List Tree → List Tree
  | [] => []
  | t :: ts => if t.id = i then pruneAmong i ts else prune i t :: pruneAmong i ts

end

def mapValue (f : Node → Node) : Tree → Tree
  | .node id value children => .node id (f value) children

def addLast (child : Tree) : Tree → Tree
  | .node id value children => .node id value (children ++ [child])

def isAt (l : Location) (t : Tree) : Bool :=
  t.value.info.location == l

def asAttribute? (t : Tree) : Option Attribute :=
  if t.isAt .attribute then some ⟨t.value.info.name, t.value.content.getD ""⟩ else none

def tag (value : Node) (children : List Tree) : Tag :=
  ⟨value.info.name, value.nsPrefix, value.info.ns, children.filterMap asAttribute?⟩

mutual

/-- The written form of a node; attributes are in their parent's tag and not in its content. -/
def toContent? : Tree → Option Content
  | .node _ value children =>
    match value.info.location with
    | .attribute => none
    | .text => some (.text (value.content.getD ""))
    | .element => some (.element (tag value children) (toContents children))

def toContents : List Tree → List Content
  | [] => []
  | t :: ts => match toContent? t with
    | some c => c :: toContents ts
    | none => toContents ts

end

/-- The node as an element, wherever it says that it stands. -/
def toElement : Tree → Element
  | .node _ value children => ⟨tag value children, toContents children⟩

def text : Tree → String
  | .node _ value children =>
    match value.info.location with
    | .element => String.join ((children.filter (isAt .text)).map fun t => t.value.content.getD "")
    | _ => value.content.getD ""

def matching (info : NodeInfo) (t : Tree) : List NodeId :=
  (t.children.filter (·.value.info.isLike info)).map id

end Tree

/-- Nodes numbered from `next` on are free. -/
structure Document where
  trees : List Tree
  root : NodeId
  next : NodeId
  deriving Repr

namespace Document

def new (root : NodeInfo) : Document :=
  ⟨[.node 0 (.ofInfo root) []], 0, 1⟩

def find? (d : Document) (i : NodeId) : Option Tree :=
  Tree.findAmong? i d.trees

def node (d : Document) (i : NodeId) : Node :=
  ((d.find? i).map Tree.value).getD default

def children (d : Document) (i : NodeId) : List NodeId :=
  ((d.find? i).map fun t => t.children.map Tree.id).getD []

def ancestors (d : Document) (i : NodeId) : List NodeId :=
  ((Tree.pathAmong? i d.trees).getD []).map Tree.id

def parent? (d : Document) (i : NodeId) : Option NodeId :=
  (d.ancestors i)[1]?

def scope (d : Document) (i : NodeId) : List Namespace :=
  ((Tree.pathAmong? i d.trees).getD []).filterMap (·.value.info.ns)

def create (d : Document) (info : NodeInfo) : Document × NodeId :=
  (⟨.node d.next (.ofInfo info) [] :: d.trees, d.root, d.next + 1⟩, d.next)

def modify (d : Document) (i : NodeId) (f : Tree → Tree) : Document :=
  { d with trees := Tree.modifyAmong i f d.trees }

def detach (d : Document) (i : NodeId) : Document :=
  match d.find? i with
  | none => d
  | some t => { d with trees := t :: Tree.pruneAmong i d.trees }

def leaveScope (scope : List Namespace) (n : Node) : Node :=
  { n with info := { n.info with ns := n.info.ns.filter (· ∉ scope) } }

/-- Makes `child` the last child of `parent`, which is not below it. -/
def link (d : Document) (parent child : NodeId) : Document :=
  match d.find? child with
  | none => d
  | some t =>
    let rest : Document := { d with trees := Tree.pruneAmong child d.trees }
    let t := t.mapValue (leaveScope (rest.scope parent))
    rest.modify parent (Tree.addLast t)

def appendChild (d : Document) (parent child : NodeId) : Except XmlError Document :=
  if child ∈ d.ancestors parent then .error .cyclicMove else .ok (d.link parent child)

def addChild (d : Document) (parent : NodeId) (info : NodeInfo) : Document × NodeId :=
  let (d, child) := d.create info
  (d.link parent child, child)

def childrenMatching (d : Document) (parent : NodeId) (info : NodeInfo) : List NodeId :=
  ((d.find? parent).map (Tree.matching info)).getD []

def firstChild? (d : Document) (parent : NodeId) (info : NodeInfo) : Option NodeId :=
  (d.childrenMatching parent info).head?

def text (d : Document) (i : NodeId) : String :=
  ((d.find? i).map Tree.text).getD ""

def setContent (d : Document) (i : NodeId) (s : String) : Document :=
  d.modify i (Tree.mapValue fun n => { n with content := some s })

/-- Replaces the text of a node; an element's text becomes one new last child. -/
def setText (d : Document) (i : NodeId) (s : String) : Document :=
  match (d.node i).info.location with
  | .element =>
    let texts := (d.children i).filter fun c => (d.node c).info.location == .text
    let (d, child) := (texts.foldl detach d).addChild i .forText
    d.setContent child s
  | _ => d.setContent i s

def rootTree (d : Document) : Tree :=
  (d.find? d.root).getD (.node d.root default [])

/-- What is below the root; no other tree is written. -/
def toElement (d : Document) : Element :=
  d.rootTree.toElement

def octets (d : Document) : Text.Octets :=
  d.toElement.octets

def attributeTrees : NodeId → List Attribute → List Tree × NodeId
  | next, [] => ([], next)
  | next, a :: attributes =>
    let (more, stop) := attributeTrees (next + 1) attributes
    (.node next ⟨.forAttribute a.name, some a.value, none⟩ [] :: more, stop)

mutual

def contentTree (next : NodeId) : Content → Tree × NodeId
  | .text s => (.node next ⟨.forText, some s, none⟩ [], next + 1)
  | .element tag content =>
    let (attributes, middle) := attributeTrees (next + 1) tag.attributes
    let (rest, stop) := contentTrees middle content
    (.node next ⟨⟨tag.name, .element, tag.ns⟩, none, tag.nsPrefix⟩ (attributes ++ rest), stop)

def contentTrees (next : NodeId) : List Content → List Tree × NodeId
  | [] => ([], next)
  | c :: cs =>
    let (t, middle) := contentTree next c
    let (ts, stop) := contentTrees middle cs
    (t :: ts, stop)

end

def ofElement (e : Element) : Document :=
  let (t, next) := contentTree 0 (.element e.tag e.content)
  ⟨[t], 0, next⟩

def parse (s : Text.Octets) : Except XmlError Document :=
  (Element.parse s).map ofElement

end Document

end ServiceClient.Xml
