import ServiceClient.Proofs.Xml.Ancestry

/-! Writing as a walk over the nodes, from each one to its children. Where all numbers are different
the walk from a node comes to an end, meets no node twice, and writes the tree of the node. -/

namespace ServiceClient.Xml

namespace Tree

mutual

/-- The nodes that are written with an element, in document order. Attributes and texts are written
without what is below them. -/
def written : Tree → List NodeId
  | .node i _ children => i :: writtenAmong children

def writtenAmong : List Tree → List NodeId
  | [] => []
  | t :: ts =>
    match t.value.info.location with
    | .element => t.written ++ writtenAmong ts
    | _ => t.id :: writtenAmong ts

end

mutual

theorem sublist_written : ∀ t : Tree, t.written.Sublist t.numbers
  | .node i value children => by
    rw [written, numbers_node]
    exact (sublist_writtenAmong children).cons_cons i

theorem sublist_writtenAmong : ∀ ts : List Tree, (writtenAmong ts).Sublist (numbersAmong ts)
  | [] => .slnil
  | t :: ts => by
    have hid : [t.id].Sublist t.numbers := List.singleton_sublist.2 (mem_numbers_self t)
    rw [writtenAmong, numbersAmong_cons]
    split
    · exact (sublist_written t).append (sublist_writtenAmong ts)
    · exact hid.append (sublist_writtenAmong ts)

end

end Tree

namespace Document

open Xml.Tree (numbersAmong)

def attributeAt (d : Document) (i : NodeId) : Attribute :=
  ⟨(d.node i).info.name, (d.node i).content.getD ""⟩

def tagAt (d : Document) (i : NodeId) (attributes : List Attribute) : Tag :=
  ⟨(d.node i).info.name, (d.node i).nsPrefix, (d.node i).info.ns, attributes⟩

mutual

/-- Writes the element at a node, from the nodes and their lists of children alone. The numbers are
those of the nodes written, in document order. -/
inductive Writes (d : Document) : NodeId → List NodeId → Element → Prop
  | element {i : NodeId} {ids : List NodeId} {attributes : List Attribute} {content : List Content}
      (h : WritesAll d (d.children i) ids attributes content) :
      Writes d i (i :: ids) ⟨d.tagAt i attributes, content⟩

inductive WritesAll (d : Document) :
    List NodeId → List NodeId → List Attribute → List Content → Prop
  | nil : WritesAll d [] [] [] []
  | «attribute» {i : NodeId} {rest ids : List NodeId} {attributes : List Attribute}
      {content : List Content} (hi : (d.node i).info.location = .attribute)
      (h : WritesAll d rest ids attributes content) :
      WritesAll d (i :: rest) (i :: ids) (d.attributeAt i :: attributes) content
  | text {i : NodeId} {rest ids : List NodeId} {attributes : List Attribute}
      {content : List Content} (hi : (d.node i).info.location = .text)
      (h : WritesAll d rest ids attributes content) :
      WritesAll d (i :: rest) (i :: ids) attributes
        (.text ((d.node i).content.getD "") :: content)
  | element {i : NodeId} {inner rest ids : List NodeId} {e : Element}
      {attributes : List Attribute} {content : List Content}
      (hi : (d.node i).info.location = .element) (he : Writes d i inner e)
      (h : WritesAll d rest ids attributes content) :
      WritesAll d (i :: rest) (inner ++ ids) attributes (.element e.tag e.content :: content)

end

section Walk

variable {d : Document} {i : NodeId} {ids : List NodeId} {e : Element}
  {attributes : List Attribute} {content : List Content} (hd : d.Sound)

theorem writes_iff : d.Writes i ids e ↔ ∃ inner attributes content,
    d.WritesAll (d.children i) inner attributes content ∧ ids = i :: inner ∧
      e = ⟨d.tagAt i attributes, content⟩ := by
  constructor
  · rintro ⟨h⟩
    exact ⟨_, _, _, h, rfl, rfl⟩
  · rintro ⟨inner, attributes, content, h, rfl, rfl⟩
    exact .element h

include hd

mutual

/-- The walk from a node writes its tree and nothing else. -/
theorem Sound.writes_iff (ids : List NodeId) (e : Element) : ∀ t : Tree, d.Holds t →
    (d.Writes t.id ids e ↔ ids = t.written ∧ e = t.toElement)
  | .node i value children, ht => by
    have hnode := hd.node_eq ht
    have hchildren := hd.children_eq ht
    have hall := fun ids attributes content =>
      Sound.writesAll_iff ids attributes content children fun u hu => ht.child hu
    dsimp only [Tree.id, Tree.value, Tree.children] at hnode hchildren
    simp only [Document.writes_iff, Tree.id, hchildren, hall, tagAt, hnode, Tree.written,
      Tree.toElement, Tree.tag]
    constructor
    · rintro ⟨_, _, _, ⟨rfl, rfl, rfl⟩, rfl, rfl⟩
      exact ⟨rfl, rfl⟩
    · rintro ⟨rfl, rfl⟩
      exact ⟨_, _, _, ⟨rfl, rfl, rfl⟩, rfl, rfl⟩

theorem Sound.writesAll_iff (ids : List NodeId) (attributes : List Attribute)
    (content : List Content) : ∀ ts : List Tree, (∀ t ∈ ts, d.Holds t) →
    (d.WritesAll (ts.map Tree.id) ids attributes content ↔ ids = Tree.writtenAmong ts ∧
      attributes = ts.filterMap Tree.asAttribute? ∧ content = Tree.toContents ts)
  | [], _ => by
    constructor
    · rintro ⟨⟩
      exact ⟨rfl, rfl, rfl⟩
    · rintro ⟨rfl, rfl, rfl⟩
      exact .nil
  | t :: ts, hts => by
    rw [List.forall_mem_cons] at hts
    have hnode := hd.node_eq hts.1
    have hrest := fun ids attributes content =>
      Sound.writesAll_iff ids attributes content ts hts.2
    have hfirst := fun ids e => Sound.writes_iff ids e t hts.1
    obtain ⟨i, ⟨⟨name, location, ns⟩, value?, nsPrefix⟩, children⟩ := t
    rw [List.map_cons]
    dsimp only [Tree.id, Tree.value] at hnode hfirst ⊢
    -- Where the first node stands decides by which rule it has been written.
    cases location with
    | «attribute» =>
      constructor
      · intro h
        cases h with
        | «attribute» _ h =>
          obtain ⟨rfl, rfl, rfl⟩ := (hrest _ _ _).1 h
          rw [attributeAt, hnode]
          exact ⟨rfl, rfl, rfl⟩
        | text hi _ => rw [hnode] at hi; cases hi
        | element hi _ _ => rw [hnode] at hi; cases hi
      · rintro ⟨rfl, rfl, rfl⟩
        have h := WritesAll.attribute (by rw [hnode]) ((hrest _ _ _).2 ⟨rfl, rfl, rfl⟩)
        rwa [attributeAt, hnode] at h
    | text =>
      constructor
      · intro h
        cases h with
        | «attribute» hi _ => rw [hnode] at hi; cases hi
        | text _ h =>
          obtain ⟨rfl, rfl, rfl⟩ := (hrest _ _ _).1 h
          rw [hnode]
          exact ⟨rfl, rfl, rfl⟩
        | element hi _ _ => rw [hnode] at hi; cases hi
      · rintro ⟨rfl, rfl, rfl⟩
        have h := WritesAll.text (by rw [hnode]) ((hrest _ _ _).2 ⟨rfl, rfl, rfl⟩)
        rwa [hnode] at h
    | element =>
      constructor
      · intro h
        cases h with
        | «attribute» hi _ => rw [hnode] at hi; cases hi
        | text hi _ => rw [hnode] at hi; cases hi
        | element _ he h =>
          obtain ⟨rfl, rfl⟩ := (hfirst _ _).1 he
          obtain ⟨rfl, rfl, rfl⟩ := (hrest _ _ _).1 h
          exact ⟨rfl, rfl, rfl⟩
      · rintro ⟨rfl, rfl, rfl⟩
        exact .element (by rw [hnode]) ((hfirst _ _).2 ⟨rfl, rfl⟩)
          ((hrest _ _ _).2 ⟨rfl, rfl, rfl⟩)

end

end Walk

/-- The numbers below the next free one are those of the nodes, each of one; the root has one. -/
structure Whole (d : Document) : Prop where
  numbers : (numbersAmong d.trees).Perm (List.range d.next)
  root_lt : d.root < d.next

section Whole

variable {d : Document} (h : d.Whole)

include h

theorem Whole.has_iff (i : NodeId) : d.Has i ↔ i < d.next := by
  rw [Has, h.numbers.mem_iff, List.mem_range]

theorem Whole.sound : d.Sound :=
  ⟨h.numbers.nodup_iff.2 List.nodup_range, fun i hi => (h.has_iff i).1 hi⟩

theorem Whole.exists_rootTree : d.Holds d.rootTree ∧ d.rootTree.id = d.root := by
  obtain ⟨t, ht, hid⟩ := ((h.has_iff d.root).2 h.root_lt).exists_holds
  have hroot : d.rootTree = t := by rw [rootTree, ← hid, h.sound.find? ht]; rfl
  rw [hroot]
  exact ⟨ht, hid⟩

end Whole

end Document

end ServiceClient.Xml
