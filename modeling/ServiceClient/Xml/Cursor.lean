import ServiceClient.Xml.Document

/-!
A cursor stands on one node of a document, or where a node is missing. Reading goes down to nodes
that are there; writing makes the nodes it goes down to. Below a missing node all are missing, and
what is written there is dropped.
-/

namespace ServiceClient.Xml

structure Cursor where
  parent : Option NodeId
  node : Option NodeId
  info : NodeInfo
  deriving DecidableEq, Repr

/-- Work on a document that may fail; what was done before a failure stays done. -/
abbrev Editing (α : Type) := ExceptT XmlError (StateM Document) α

namespace Cursor

def atRoot (d : Document) : Cursor :=
  ⟨none, some d.root, (d.node d.root).info⟩

def isPresent (c : Cursor) : Bool := c.node.isSome

def descend (d : Document) (c : Cursor) (info : NodeInfo) : Cursor :=
  ⟨c.node, c.node.bind (d.firstChild? · info), info⟩

def text? (d : Document) (c : Cursor) : Option String :=
  c.node.map d.text

/-- Where the items of a collection are, and what they are called: below this node, or for a
flattened collection beside it under its own name. -/
def items? (c : Cursor) (flattened : Bool) (item : NodeInfo) : Option (NodeId × NodeInfo) :=
  match c.node with
  | none => none
  | some node => if flattened then c.parent.map (·, c.info) else some (node, item)

def extend (c : Cursor) (info : NodeInfo) : Editing Cursor :=
  match c.node with
  | none => pure ⟨none, none, info⟩
  | some node => do
    let (d, child) := (← get).addChild node info
    set d
    pure ⟨some node, some child, info⟩

/-- Takes the node out of the document; the cursor then stands on a missing node. -/
def detach (c : Cursor) : Editing Cursor :=
  match c.node with
  | none => pure c
  | some node => do
    modify (·.detach node)
    pure { c with node := none }

def setText (c : Cursor) (s : String) : Editing Unit :=
  match c.node with
  | none => pure ()
  | some node => modify (·.setText node s)

/-- Where the items of a collection are written. A flattened one has no node of its own, so this
node goes. -/
def openItems (c : Cursor) (flattened : Bool) (item : NodeInfo) :
    Editing (Cursor × Option (NodeId × NodeInfo)) :=
  match c.items? flattened item with
  | none => pure (c, none)
  | some place => do
    if flattened then pure (← c.detach, some place) else pure (c, some place)

end Cursor

end ServiceClient.Xml
