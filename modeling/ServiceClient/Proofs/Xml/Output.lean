import ServiceClient.Proofs.Xml.Arena

/-! Walks down from a node that is kept. They come to an end within as many levels as there are
nodes, and meet the nodes of its tree, each once. -/

namespace ServiceClient.Xml

namespace Tree

theorem flatten_numbers (ts : List Tree) : (ts.map numbers).flatten = numbersAmong ts := by
  induction ts with
  | nil => rfl
  | cons t ts ih => rw [List.map_cons, List.flatten_cons, ih, numbersAmong_cons]

/-- There is something to write inside an element unless all its children are attributes. -/
theorem any_isAt_attribute (ts : List Tree) :
    (ts.any fun t => !t.isAt .attribute) = !(toContents ts).isEmpty := by
  induction ts with
  | nil => rfl
  | cons t ts ih =>
    obtain ⟨i, ⟨⟨name, location, ns⟩, content, nsPrefix⟩, children⟩ := t
    rw [List.any_cons, ih]
    cases location <;> rfl

end Tree

namespace Document

open Xml.Tree (numbersAmong writtenAmong)

variable {d : Document}

theorem length_numbers_node {i : NodeId} {value : Node} {children : List Tree} {depth : Nat}
    (hdepth : (Tree.node i value children).numbers.length ≤ depth) :
    ∃ n, depth = n + 1 ∧ (numbersAmong children).length ≤ n := by
  rw [Tree.numbers_node, List.length_cons] at hdepth
  obtain ⟨n, rfl⟩ := Nat.exists_eq_add_of_le' (Nat.le_trans (Nat.le_add_left 1 _) hdepth)
  exact ⟨n, rfl, Nat.le_of_succ_le_succ hdepth⟩

theorem length_numbersAmong_cons {t : Tree} {ts : List Tree} {depth : Nat}
    (hdepth : (numbersAmong (t :: ts)).length ≤ depth) :
    t.numbers.length ≤ depth ∧ (numbersAmong ts).length ≤ depth := by
  rw [Tree.numbersAmong_cons, List.length_append] at hdepth
  exact ⟨Nat.le_trans (Nat.le_add_right _ _) hdepth, Nat.le_trans (Nat.le_add_left _ _) hdepth⟩

theorem Whole.cell?_of_holds (h : d.Whole) {t : Tree} (ht : d.Holds t) : d.arena.cell? t.id =
    some ⟨t.value, t.children.map Tree.id, d.parent? t.id⟩ := by
  rw [cell?_arena ((h.has_iff t.id).1 ht.has), cell, h.sound.node_eq ht, h.sound.children_eq ht]

mutual

theorem Whole.below_arena (h : d.Whole) : ∀ t : Tree, d.Holds t → ∀ depth,
    t.numbers.length ≤ depth → d.arena.below depth t.id = some t.numbers
  | .node i value children, ht, depth, hdepth => by
    obtain ⟨n, rfl, hn⟩ := length_numbers_node hdepth
    have hall := Whole.belowAll_arena h children (fun u hu => ht.child hu) n hn
    rw [Arena.below, h.cell?_of_holds ht, Tree.numbers_node, ← Tree.flatten_numbers]
    dsimp only [bind, Option.bind, Tree.children]
    rw [hall]
    rfl

theorem Whole.belowAll_arena (h : d.Whole) : ∀ ts : List Tree, (∀ t ∈ ts, d.Holds t) → ∀ depth,
    (numbersAmong ts).length ≤ depth →
      (ts.map Tree.id).mapM (d.arena.below depth) = some (ts.map Tree.numbers)
  | [], _, _, _ => rfl
  | t :: ts, hts, depth, hdepth => by
    rw [List.forall_mem_cons] at hts
    obtain ⟨hfirst, hrest⟩ := length_numbersAmong_cons hdepth
    rw [List.map_cons, List.mapM_cons, Whole.below_arena h t hts.1 depth hfirst,
      Whole.belowAll_arena h ts hts.2 depth hrest]
    rfl

end

variable (h : d.Whole)

include h

theorem Whole.family?_of_holds {t : Tree} (ht : d.Holds t) : d.arena.family? t.id =
    some (t.children.map fun u => (u.id, d.cell u.id)) := by
  rw [h.family?_arena ((h.has_iff t.id).1 ht.has), h.sound.children_eq ht, List.map_map]
  rfl

theorem Whole.cell_of_holds {t : Tree} (ht : d.Holds t) : (d.cell t.id).toNode = t.value :=
  h.sound.node_eq ht

theorem Whole.filterMap_cells {ts : List Tree} (hts : ∀ t ∈ ts, d.Holds t) :
    (ts.map fun u => (u.id, d.cell u.id)).filterMap (fun x => x.2.asAttribute?) =
      ts.filterMap Tree.asAttribute? := by
  rw [List.filterMap_map]
  refine List.filterMap_congr fun u hu => ?_
  rw [Function.comp_apply, Cell.asAttribute?, Cell.isAt, h.cell_of_holds (hts u hu)]
  rfl

theorem Whole.any_cells {ts : List Tree} (hts : ∀ t ∈ ts, d.Holds t) :
    (ts.map fun u => (u.id, d.cell u.id)).any (fun x => !x.2.isAt .attribute) =
      !(Tree.toContents ts).isEmpty := by
  rw [← Tree.any_isAt_attribute, List.any_map, Bool.eq_iff_iff, List.any_eq_true, List.any_eq_true]
  refine exists_congr fun u => and_congr_right fun hu => ?_
  rw [Function.comp_apply, Cell.isAt, h.cell_of_holds (hts u hu), Tree.isAt]

mutual

theorem Whole.write_arena : ∀ t : Tree, d.Holds t → ∀ depth, t.numbers.length ≤ depth →
    d.arena.write depth t.id = some ⟨t.written, t.toElement.octets⟩
  | .node i value children, ht, depth, hdepth => by
    obtain ⟨n, rfl, hn⟩ := length_numbers_node hdepth
    have hchildren : ∀ u ∈ children, d.Holds u := fun u hu => ht.child hu
    have hall := Whole.writeAll_arena children hchildren n hn
    have hcell : d.arena.cell? i = some ⟨value, children.map Tree.id, d.parent? i⟩ :=
      h.cell?_of_holds ht
    have hfamily : d.arena.family? i = some (children.map fun u => (u.id, d.cell u.id)) :=
      h.family?_of_holds ht
    change d.arena.write (n + 1) i = _
    rw [Arena.write, hcell, hfamily]
    dsimp only [bind, Option.bind]
    rw [hall, h.filterMap_cells hchildren, h.any_cells hchildren]
    dsimp only
    rw [Tree.written, Tree.toElement, Element.octets, Content.octets, Tree.tag]
    cases (Tree.toContents children).isEmpty <;> rfl

theorem Whole.writeAll_arena : ∀ ts : List Tree, (∀ t ∈ ts, d.Holds t) → ∀ depth,
    (numbersAmong ts).length ≤ depth →
      Arena.writeAll (d.arena.write depth) (ts.map fun u => (u.id, d.cell u.id)) =
        some ⟨writtenAmong ts, contentOctets (Tree.toContents ts)⟩
  | [], _, _, _ => rfl
  | t :: ts, hts, depth, hdepth => by
    rw [List.forall_mem_cons] at hts
    obtain ⟨hfirst, hrest⟩ := length_numbersAmong_cons hdepth
    have hwritten := Whole.write_arena t hts.1 depth hfirst
    have hmore := Whole.writeAll_arena ts hts.2 depth hrest
    have hcell := h.cell_of_holds hts.1
    rw [List.map_cons, Arena.writeAll, hcell, hmore, hwritten]
    obtain ⟨i, ⟨⟨name, location, ns⟩, content, nsPrefix⟩, children⟩ := t
    cases location <;> rfl

end

theorem Whole.length_rootTree : d.rootTree.numbers.length ≤ d.next := by
  have hle := (Tree.numbers_sublist_among h.exists_rootTree.1).length_le
  rwa [h.numbers.length_eq, List.length_range] at hle

theorem Whole.output_arena : d.arena.output = some ⟨d.rootTree.written, d.octets⟩ := by
  obtain ⟨hroot, hid⟩ := h.exists_rootTree
  rw [Arena.output, size_arena, root_arena, ← hid, h.write_arena _ hroot _ h.length_rootTree]
  rfl

theorem Whole.octets_arena : d.arena.octets = some d.octets := by
  rw [Arena.octets, h.output_arena]
  rfl

theorem Whole.below_root : d.arena.below d.arena.size d.arena.root = some d.rootTree.numbers := by
  obtain ⟨hroot, hid⟩ := h.exists_rootTree
  rw [size_arena, root_arena, ← hid, h.below_arena _ hroot _ h.length_rootTree]

end Document

end ServiceClient.Xml
