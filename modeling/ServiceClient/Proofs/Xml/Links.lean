import ServiceClient.Proofs.Xml.Lookup

/-! The way up from a node after an edit. A parent is what has the node as a child, so that the
parents after an edit are read off the lists of children. -/

namespace ServiceClient.Xml

namespace Document

open Xml.Tree (pruneAmong)

variable {d d' : Document} {i j c p : NodeId} {t : Tree}

section Parents

theorem Whole.parent?_eq_none_iff (h : d.Whole) :
    d.parent? i = none ↔ ∀ p, i ∉ d.children p := by
  rw [Option.eq_none_iff_forall_ne_some]
  exact forall_congr' fun p => not_congr h.sound.mem_children_iff.symm

theorem Whole.parent?_eq_some_iff (h : d.Whole) : d.parent? i = some p ↔ i ∈ d.children p :=
  h.sound.mem_children_iff.symm

theorem Whole.parent?_congr (h : d.Whole) (h' : d'.Whole)
    (hsame : ∀ p, i ∈ d'.children p ↔ i ∈ d.children p) : d'.parent? i = d.parent? i :=
  Option.ext fun p => by rw [h'.parent?_eq_some_iff, hsame, h.parent?_eq_some_iff]

variable (h : d.Whole)

include h

theorem Whole.parent?_create (info : NodeInfo) (i : NodeId) :
    (d.create info).1.parent? i = d.parent? i :=
  h.parent?_congr (h.create info) fun p => by rw [h.children_create]

theorem Whole.parent?_mapValue (i : NodeId) (g : Node → Node) (j : NodeId) :
    (d.modify i (Tree.mapValue g)).parent? j = d.parent? j :=
  h.parent?_congr (h.mapValue i g) fun p => by rw [h.children_mapValue]

theorem Whole.parent?_detach (i j : NodeId) :
    (d.detach i).parent? j = if j = i then none else d.parent? j := by
  split_ifs with hj
  · rw [(h.detach i).parent?_eq_none_iff]
    intro p hmem
    rw [h.children_detach, hj] at hmem
    simpa using List.of_mem_filter hmem
  · refine h.parent?_congr (h.detach i) fun p => ?_
    rw [h.children_detach, List.mem_filter]
    simp [hj]

theorem Whole.parent?_link (ht : d.Holds t) (hp : d.Has p) (hbelow : p ∉ t.numbers) (j : NodeId) :
    (d.link p t.id).parent? j = if j = t.id then some p else d.parent? j := by
  have hlinked := (Move.link ht hp hbelow).whole h
  split_ifs with hj
  · rw [hlinked.parent?_eq_some_iff, h.children_link ht hp hbelow, if_pos rfl, hj]
    exact List.mem_append_right _ List.mem_cons_self
  · refine h.parent?_congr hlinked fun q => ?_
    rw [h.children_link ht hp hbelow, List.mem_append, List.mem_filter]
    split_ifs <;> simp [hj]

end Parents

section Ancestors

variable (h : d.Whole)

include h

theorem Whole.lt_of_mem_ancestors (hi : i < d.next) : ∀ a ∈ d.ancestors i, a < d.next := by
  intro a ha
  rw [h.sound.mem_ancestors_iff ((h.has_iff i).2 hi)] at ha
  cases ha with
  | refl => exact hi
  | tail _ hparent => exact (h.has_iff a).1 (h.sound.has_of_isParent hparent).2

theorem Whole.nodup_ancestors (hi : i < d.next) : (d.ancestors i).Nodup := by
  induction hn : (d.ancestors i).length using Nat.strongRecOn generalizing i with
  | ind n ih =>
    rw [h.sound.ancestors_eq ((h.has_iff i).2 hi)]
    cases hparent : d.parent? i with
    | none => exact List.nodup_singleton i
    | some p =>
      have hp := (h.sound.has_of_isParent hparent).2
      refine List.nodup_cons.2 ⟨fun hmem => ?_, ih _ ?_ ((h.has_iff p).1 hp) rfl⟩
      · rw [Option.map_some, Option.getD_some, h.sound.mem_ancestors_iff hp] at hmem
        exact h.sound.acyclic i (.head' hparent hmem)
      · exact hn ▸ h.sound.length_ancestors (.single hparent)

theorem Whole.length_ancestors_le (hi : i < d.next) : (d.ancestors i).length ≤ d.next := by
  have hsubset : d.ancestors i ⊆ List.range d.next := fun a ha =>
    List.mem_range.2 (h.lt_of_mem_ancestors hi a ha)
  have hle := (List.subperm_of_subset (h.nodup_ancestors hi) hsubset).length_le
  rwa [List.length_range] at hle

theorem Whole.scope_eq_filterMap (i : NodeId) :
    d.scope i = (d.ancestors i).filterMap fun a => (d.node a).info.ns := by
  rw [scope, ancestors]
  cases hpath : Tree.pathAmong? i d.trees with
  | none => rfl
  | some path =>
    rw [Option.getD_some, List.filterMap_map]
    refine List.filterMap_congr fun u hu => ?_
    rw [Function.comp_apply, h.sound.node_eq (Tree.mem_of_pathAmong? d.trees hpath u hu)]

end Ancestors

section Leaving

variable {scope : List Namespace} {n : Node}

theorem leaveScope_eq_self (h : ∀ ns, n.info.ns = some ns → ns ∉ scope) :
    leaveScope scope n = n := by
  obtain ⟨⟨name, location, ns?⟩, content, nsPrefix⟩ := n
  cases ns? with
  | none => rfl
  | some ns =>
    have hns : ns ∉ scope := h ns rfl
    simp [leaveScope, hns]

theorem leaveScope_of_mem {ns : Namespace} (hns : n.info.ns = some ns) (h : ns ∈ scope) :
    leaveScope scope n = { n with info := { n.info with ns := none } } := by
  simp [leaveScope, hns, h]

end Leaving

section Moving

variable (h : d.Whole) (ht : d.Holds t)

include h ht

theorem Whole.trees_detach : (d.detach t.id).trees = t :: pruneAmong t.id d.trees := by
  rw [Document.detach, h.sound.find? ht]

theorem Whole.scope_detach (hbelow : p ∉ t.numbers) : (d.detach t.id).scope p =
    ({ d with trees := pruneAmong t.id d.trees } : Document).scope p := by
  rw [scope, scope, h.trees_detach ht, Tree.pathAmong?_of_mem_right hbelow]

theorem Whole.node_link_self (hp : d.Has p) (hbelow : p ∉ t.numbers) :
    (d.link p t.id).node t.id = leaveScope ((d.detach t.id).scope p) (d.node t.id) := by
  rw [node, h.find?_link ht hp hbelow, h.sound.find? ht, h.scope_detach ht hbelow,
    h.sound.node_eq ht]
  dsimp only [Option.map_some, Option.getD_some]
  rw [if_pos rfl, arriving]
  cases t
  rfl

end Moving

end Document

end ServiceClient.Xml
