import Mathlib.Logic.Relation
import ServiceClient.Proofs.Xml.Document

/-! Parents and ancestors. Where all numbers are different, the path to a node goes from it to its
parent and on along the path of that, so that the way up and the lists of children say the same. -/

namespace ServiceClient.Xml

namespace Tree

section Below

theorem id_mem_numbers {t s : Tree} (ht : t ∈ s.nodes) : t.id ∈ s.numbers := List.mem_map_of_mem ht

theorem id_mem_numbersAmong {t : Tree} {ts : List Tree} (ht : t ∈ nodesAmong ts) :
    t.id ∈ numbersAmong ts := List.mem_map_of_mem ht

theorem mem_nodesAmong_of_mem {t : Tree} {ts : List Tree} (ht : t ∈ ts) : t ∈ nodesAmong ts :=
  nodes_subset_nodesAmong ht t (mem_nodes_self t)

theorem eq_of_id_eq {ts : List Tree} (h : (numbersAmong ts).Nodup) {t u : Tree}
    (ht : t ∈ nodesAmong ts) (hu : u ∈ nodesAmong ts) (hid : t.id = u.id) : t = u := by
  have hfound := findAmong?_of_mem h ht
  rw [hid, findAmong?_of_mem h hu] at hfound
  exact (Option.some.inj hfound).symm

theorem sublist_numbersAmong (ts : List Tree) : (ts.map id).Sublist (numbersAmong ts) := by
  induction ts with
  | nil => exact .slnil
  | cons t ts ih =>
    have hid : [t.id].Sublist t.numbers := List.singleton_sublist.2 (mem_numbers_self t)
    rw [numbersAmong_cons]
    exact hid.append ih

mutual

theorem nodes_sublist {t : Tree} : ∀ s : Tree, t ∈ s.nodes → t.nodes.Sublist s.nodes
  | .node i value children, ht => by
    rw [nodes, List.mem_cons] at ht
    rcases ht with rfl | ht
    · exact .refl _
    · exact (nodes_sublist_among children ht).cons _

theorem nodes_sublist_among {t : Tree} :
    ∀ ss : List Tree, t ∈ nodesAmong ss → t.nodes.Sublist (nodesAmong ss)
  | [], ht => nomatch ht
  | s :: ss, ht => by
    rw [nodesAmong, List.mem_append] at ht
    rw [nodesAmong]
    rcases ht with ht | ht
    · exact (nodes_sublist s ht).trans (List.sublist_append_left _ _)
    · exact (nodes_sublist_among ss ht).trans (List.sublist_append_right _ _)

end

theorem numbers_sublist_among {t : Tree} {ts : List Tree} (ht : t ∈ nodesAmong ts) :
    t.numbers.Sublist (numbersAmong ts) := (nodes_sublist_among ts ht).map id

theorem numbers_subset {i : NodeId} {t : Tree} {ts : List Tree} (ht : t ∈ nodesAmong ts)
    (hi : i ∈ t.numbers) : i ∈ numbersAmong ts := (numbers_sublist_among ht).subset hi

theorem nodup_children {ts : List Tree} (h : (numbersAmong ts).Nodup) {t : Tree}
    (ht : t ∈ nodesAmong ts) : (t.children.map id).Nodup := by
  have hnumbers := (numbers_sublist_among ht).nodup h
  cases t with
  | node i value children =>
    rw [numbers_node, List.nodup_cons] at hnumbers
    exact (sublist_numbersAmong children).nodup hnumbers.2

theorem mem_nodes_node {i : NodeId} {value : Node} {children : List Tree} {t : Tree}
    (ht : t ∈ (Tree.node i value children).nodes) :
    t = .node i value children ∨ t ∈ nodesAmong children := by
  rwa [nodes, List.mem_cons] at ht

end Below

section Paths

variable {i : NodeId}

mutual

theorem mem_of_path? {p : List Tree} : ∀ s : Tree, s.path? i = some p → ∀ u ∈ p, u ∈ s.nodes
  | .node j value children, hp => by
    intro u hu
    rw [path?] at hp
    split_ifs at hp with h
    · obtain rfl := Option.some.inj hp
      rw [List.mem_singleton.1 hu]
      exact mem_nodes_self _
    · obtain ⟨q, hq, rfl⟩ := Option.map_eq_some_iff.1 hp
      rw [nodes, List.mem_cons]
      rcases List.mem_append.1 hu with hu | hu
      · exact .inr (mem_of_pathAmong? children hq u hu)
      · exact .inl (List.mem_singleton.1 hu)

theorem mem_of_pathAmong? {p : List Tree} :
    ∀ ss : List Tree, pathAmong? i ss = some p → ∀ u ∈ p, u ∈ nodesAmong ss
  | [], hp => nomatch hp
  | s :: ss, hp => by
    intro u hu
    rw [nodesAmong, List.mem_append]
    rw [pathAmong?] at hp
    cases hs : s.path? i with
    | none =>
      rw [hs] at hp
      exact .inr (mem_of_pathAmong? ss hp u hu)
    | some q =>
      rw [hs] at hp
      obtain rfl := Option.some.inj hp
      exact .inl (mem_of_path? s hs u hu)

end

/-- A path starts at its node; next comes the one that has it as a child, if there is one. -/
inductive StartsAt (i : NodeId) (ts : List Tree) : List Tree → Prop
  | top {t : Tree} (hi : t.id = i) (ht : t ∈ ts) : StartsAt i ts [t]
  | child {t u : Tree} {rest : List Tree} (hi : t.id = i) (ht : t ∈ u.children) :
      StartsAt i ts (t :: u :: rest)

mutual

theorem startsAt_of_path? {p : List Tree} :
    ∀ s : Tree, s.path? i = some p → StartsAt i [s] p
  | .node j value children, hp => by
    rw [path?] at hp
    split_ifs at hp with h
    · obtain rfl := Option.some.inj hp
      exact .top h List.mem_cons_self
    · obtain ⟨q, hq, rfl⟩ := Option.map_eq_some_iff.1 hp
      cases startsAt_of_pathAmong? children hq with
      | top hi ht => exact .child hi ht
      | child hi ht => exact .child hi ht

theorem startsAt_of_pathAmong? {p : List Tree} :
    ∀ ss : List Tree, pathAmong? i ss = some p → StartsAt i ss p
  | [], hp => nomatch hp
  | s :: ss, hp => by
    rw [pathAmong?] at hp
    cases hs : s.path? i with
    | none =>
      rw [hs] at hp
      cases startsAt_of_pathAmong? ss hp with
      | top hi ht => exact .top hi (List.mem_cons_of_mem s ht)
      | child hi ht => exact .child hi ht
    | some q =>
      rw [hs] at hp
      obtain rfl := Option.some.inj hp
      cases startsAt_of_path? s hs with
      | top hi ht => exact .top hi (List.mem_cons.2 (.inl (List.mem_singleton.1 ht)))
      | child hi ht => exact .child hi ht

end

theorem pathAmong?_of_mem_left {s : Tree} {ss : List Tree} (hi : i ∈ s.numbers) :
    pathAmong? i (s :: ss) = s.path? i := by
  obtain ⟨p, hp⟩ := Option.isSome_iff_exists.1 (isSome_path? s hi)
  rw [pathAmong?, hp]

theorem pathAmong?_of_mem_right {s : Tree} {ss : List Tree} (hi : i ∉ s.numbers) :
    pathAmong? i (s :: ss) = pathAmong? i ss := by
  rw [pathAmong?, path?_of_notMem s hi]

theorem nodup_cons_split {s : Tree} {ss : List Tree} (h : (numbersAmong (s :: ss)).Nodup) :
    s.numbers.Nodup ∧ (numbersAmong ss).Nodup ∧ ∀ i ∈ numbersAmong ss, i ∉ s.numbers := by
  rw [numbersAmong_cons, List.nodup_append] at h
  exact ⟨h.1, h.2.1, fun i hi hmem => h.2.2 i hmem i hi rfl⟩

theorem path?_self (t : Tree) : t.path? t.id = some [t] := by
  cases t
  rw [path?, if_pos (Tree.id.eq_1 _ _ _).symm]

theorem pathAmong?_top {t : Tree} {ts : List Tree} (h : (numbersAmong ts).Nodup) (ht : t ∈ ts) :
    pathAmong? t.id ts = some [t] := by
  induction ts with
  | nil => cases ht
  | cons s ss ih =>
    obtain ⟨_, hss, hdisjoint⟩ := nodup_cons_split h
    rcases List.mem_cons.1 ht with rfl | ht
    · rw [pathAmong?_of_mem_left (mem_numbers_self t), path?_self]
    · have hmem : t.id ∈ numbersAmong ss := id_mem_numbersAmong (mem_nodesAmong_of_mem ht)
      rw [pathAmong?_of_mem_right (hdisjoint _ hmem), ih hss ht]

section Child

variable {t u : Tree} (ht : t ∈ u.children)

include ht

mutual

theorem path?_child : ∀ s : Tree, s.numbers.Nodup → u ∈ s.nodes →
    s.path? t.id = (s.path? u.id).map (t :: ·)
  | .node j value children, hnodup, hu => by
    rw [numbers_node, List.nodup_cons] at hnodup
    have hne : ∀ {v : Tree}, v ∈ nodesAmong children → j ≠ v.id := fun hv heq =>
      hnodup.1 (heq ▸ id_mem_numbersAmong hv)
    rcases mem_nodes_node hu with rfl | hu
    · rw [path?_self, path?, if_neg (hne (mem_nodesAmong_of_mem ht)), pathAmong?_top hnodup.2 ht]
      rfl
    · have htail := child_mem_nodesAmong ht children hu
      rw [path?, if_neg (hne htail), path?, if_neg (hne hu), pathAmong?_child children hnodup.2 hu]
      cases pathAmong? u.id children <;> rfl

theorem pathAmong?_child : ∀ ss : List Tree, (numbersAmong ss).Nodup → u ∈ nodesAmong ss →
    pathAmong? t.id ss = (pathAmong? u.id ss).map (t :: ·)
  | [], _, hu => nomatch hu
  | s :: ss, hnodup, hu => by
    obtain ⟨hs, hss, hdisjoint⟩ := nodup_cons_split hnodup
    rw [nodesAmong, List.mem_append] at hu
    rcases hu with hu | hu
    · rw [pathAmong?_of_mem_left (id_mem_numbers hu),
        pathAmong?_of_mem_left (id_mem_numbers (child_mem_nodes ht s hu)), path?_child s hs hu]
    · have htail := child_mem_nodesAmong ht ss hu
      rw [pathAmong?_of_mem_right (hdisjoint _ (id_mem_numbersAmong hu)),
        pathAmong?_of_mem_right (hdisjoint _ (id_mem_numbersAmong htail)),
        pathAmong?_child ss hss hu]

end

end Child

section Through

variable {t : Tree} (hi : i ∈ t.numbers)

include hi

mutual

theorem exists_path?_through : ∀ s : Tree, s.numbers.Nodup → t ∈ s.nodes →
    ∃ p, s.path? i = some p ∧ t ∈ p
  | .node j value children, hnodup, ht => by
    rw [path?]
    rcases mem_nodes_node ht with rfl | ht
    · by_cases h : j = i
      · exact ⟨_, if_pos h, List.mem_cons_self⟩
      · rw [numbers_node] at hi
        have hi : i ∈ numbersAmong children := (List.mem_cons.1 hi).resolve_left (Ne.symm h)
        obtain ⟨p, hp⟩ := Option.isSome_iff_exists.1 (isSome_pathAmong? children hi)
        rw [if_neg h, hp]
        exact ⟨_, rfl, List.mem_append_right p List.mem_cons_self⟩
    · rw [numbers_node, List.nodup_cons] at hnodup
      have hne : j ≠ i := fun heq => hnodup.1 (heq ▸ numbers_subset ht hi)
      obtain ⟨p, hp, hmem⟩ := exists_pathAmong?_through children hnodup.2 ht
      rw [if_neg hne, hp]
      exact ⟨_, rfl, List.mem_append_left _ hmem⟩

theorem exists_pathAmong?_through : ∀ ss : List Tree, (numbersAmong ss).Nodup →
    t ∈ nodesAmong ss → ∃ p, pathAmong? i ss = some p ∧ t ∈ p
  | [], _, ht => nomatch ht
  | s :: ss, hnodup, ht => by
    obtain ⟨hs, hss, hdisjoint⟩ := nodup_cons_split hnodup
    rw [nodesAmong, List.mem_append] at ht
    rcases ht with ht | ht
    · obtain ⟨p, hp, hmem⟩ := exists_path?_through s hs ht
      have his : i ∈ s.numbers := ((nodes_sublist s ht).map id).subset hi
      exact ⟨p, by rw [pathAmong?_of_mem_left his, hp], hmem⟩
    · obtain ⟨p, hp, hmem⟩ := exists_pathAmong?_through ss hss ht
      exact ⟨p, by rw [pathAmong?_of_mem_right (hdisjoint _ (numbers_subset ht hi)), hp], hmem⟩

end

end Through

end Paths

end Tree

namespace Document

open Xml.Tree (nodesAmong numbersAmong pathAmong?)

variable {d : Document} {i c p : NodeId} {t u : Tree}

def IsParent (d : Document) (c p : NodeId) : Prop := d.parent? c = some p

theorem Has.exists_holds (h : d.Has i) : ∃ t, d.Holds t ∧ t.id = i := List.mem_map.1 h

theorem exists_holds_of_find? (h : d.find? i = some t) : d.Holds t ∧ t.id = i := by
  rw [find?, Tree.findAmong?_eq_find?] at h
  have hid := List.find?_some h
  exact ⟨List.mem_of_find?_eq_some h, beq_iff_eq.1 hid⟩

theorem find?_eq_none (h : ¬ d.Has i) : d.find? i = none := by
  cases hfind : d.find? i with
  | none => rfl
  | some t =>
    obtain ⟨ht, rfl⟩ := exists_holds_of_find? hfind
    exact absurd ht.has h

theorem Has.ancestors_eq_cons (hi : d.Has i) : ∃ rest, d.ancestors i = i :: rest := by
  obtain ⟨path, hpath⟩ := Option.isSome_iff_exists.1 (Tree.isSome_pathAmong? d.trees hi)
  rw [ancestors, hpath]
  cases Tree.startsAt_of_pathAmong? d.trees hpath with
  | top hid ht => exact ⟨_, congrArg (· :: _) hid⟩
  | child hid ht => exact ⟨_, congrArg (· :: _) hid⟩

section Sound

variable (hd : d.Sound)

include hd

theorem Sound.node_eq (ht : d.Holds t) : d.node t.id = t.value := by
  rw [node, hd.find? ht]
  rfl

theorem Sound.children_eq (ht : d.Holds t) : d.children t.id = t.children.map Tree.id := by
  rw [children, hd.find? ht]
  rfl

theorem Sound.exists_of_mem_children (h : c ∈ d.children p) :
    ∃ t u, d.Holds t ∧ d.Holds u ∧ u ∈ t.children ∧ t.id = p ∧ u.id = c := by
  by_cases hp : d.Has p
  · obtain ⟨t, ht, rfl⟩ := hp.exists_holds
    rw [hd.children_eq ht, List.mem_map] at h
    obtain ⟨u, hu, rfl⟩ := h
    exact ⟨t, u, ht, ht.child hu, hu, rfl, rfl⟩
  · rw [children, find?_eq_none hp] at h
    cases h

theorem Sound.ancestors_child (ht : d.Holds t) (hu : u ∈ t.children) :
    d.ancestors u.id = u.id :: d.ancestors t.id := by
  obtain ⟨path, hpath⟩ := Option.isSome_iff_exists.1 (Tree.isSome_pathAmong? d.trees ht.has)
  rw [ancestors, ancestors, Tree.pathAmong?_child hu d.trees hd.nodup ht, hpath]
  rfl

/-- The lists of children and the ways up from the nodes say the same. -/
theorem Sound.mem_children_iff : c ∈ d.children p ↔ d.IsParent c p := by
  constructor
  · intro h
    obtain ⟨t, u, ht, _, hu, rfl, rfl⟩ := hd.exists_of_mem_children h
    obtain ⟨rest, hrest⟩ := ht.has.ancestors_eq_cons
    rw [IsParent, parent?, hd.ancestors_child ht hu, hrest]
    rfl
  · intro h
    rw [IsParent, parent?, ancestors] at h
    cases hpath : pathAmong? c d.trees with
    | none =>
      rw [hpath] at h
      cases h
    | some path =>
      have hmem := Tree.mem_of_pathAmong? d.trees hpath
      rw [hpath] at h
      cases Tree.startsAt_of_pathAmong? d.trees hpath with
      | top hid ht => cases h
      | child hid ht =>
        obtain rfl := Option.some.inj h
        rw [hd.children_eq (hmem _ (List.mem_cons_of_mem _ List.mem_cons_self)), ← hid]
        exact List.mem_map_of_mem ht

theorem Sound.has_of_isParent (h : d.IsParent c p) : d.Has c ∧ d.Has p := by
  obtain ⟨t, u, ht, hu, _, rfl, rfl⟩ := hd.exists_of_mem_children (hd.mem_children_iff.2 h)
  exact ⟨hu.has, ht.has⟩

theorem Sound.nodup_children (p : NodeId) : (d.children p).Nodup := by
  by_cases hp : d.Has p
  · obtain ⟨t, ht, rfl⟩ := hp.exists_holds
    rw [hd.children_eq ht]
    exact Tree.nodup_children hd.nodup ht
  · rw [children, find?_eq_none hp]
    exact List.nodup_nil

theorem Sound.ancestors_of_isParent (h : d.IsParent c p) :
    d.ancestors c = c :: d.ancestors p := by
  obtain ⟨t, u, ht, _, hu, rfl, rfl⟩ := hd.exists_of_mem_children (hd.mem_children_iff.2 h)
  exact hd.ancestors_child ht hu

theorem Sound.ancestors_eq (hi : d.Has i) :
    d.ancestors i = i :: ((d.parent? i).map d.ancestors).getD [] := by
  cases hparent : d.parent? i with
  | some p => exact hd.ancestors_of_isParent hparent
  | none =>
    obtain ⟨rest, hrest⟩ := hi.ancestors_eq_cons
    rw [parent?, hrest] at hparent
    cases rest with
    | nil => exact hrest
    | cons p rest => cases hparent

theorem Sound.parent?_of_mem_trees (ht : t ∈ d.trees) : d.parent? t.id = none := by
  rw [parent?, ancestors, Tree.pathAmong?_top hd.nodup ht]
  rfl

theorem Sound.length_ancestors (h : Relation.TransGen d.IsParent c p) :
    (d.ancestors p).length < (d.ancestors c).length := by
  induction h with
  | single h =>
    rw [hd.ancestors_of_isParent h]
    exact Nat.lt_succ_self _
  | tail _ h ih =>
    rw [hd.ancestors_of_isParent h] at ih
    exact Nat.lt_of_succ_lt ih

theorem Sound.acyclic (i : NodeId) : ¬ Relation.TransGen d.IsParent i i := fun h =>
  Nat.lt_irrefl _ (hd.length_ancestors h)

theorem Sound.mem_ancestors_iff (hi : d.Has i) :
    c ∈ d.ancestors i ↔ Relation.ReflTransGen d.IsParent i c := by
  constructor
  · intro h
    induction hn : (d.ancestors i).length generalizing i with
    | zero =>
      rw [List.length_eq_zero_iff.1 hn] at h
      cases h
    | succ n ih =>
      rw [hd.ancestors_eq hi] at h hn
      rcases List.mem_cons.1 h with rfl | h
      · exact .refl
      · cases hparent : d.parent? i with
        | none =>
          rw [hparent] at h
          cases h
        | some p =>
          rw [hparent] at h hn
          have hp := (hd.has_of_isParent hparent).2
          exact .head hparent (ih hp h (Nat.succ.inj hn))
  · intro h
    induction h using Relation.ReflTransGen.head_induction_on with
    | refl =>
      obtain ⟨rest, hrest⟩ := hi.ancestors_eq_cons
      rw [hrest]
      exact List.mem_cons_self
    | head h _ ih =>
      rw [hd.ancestors_of_isParent h]
      exact List.mem_cons_of_mem _ (ih (hd.has_of_isParent h).2)

theorem Sound.mem_ancestors_of_mem_numbers (ht : d.Holds t) (hi : i ∈ t.numbers) :
    t.id ∈ d.ancestors i := by
  obtain ⟨path, hpath, hmem⟩ := Tree.exists_pathAmong?_through hi d.trees hd.nodup ht
  rw [ancestors, hpath]
  exact List.mem_map_of_mem hmem

end Sound

end Document

end ServiceClient.Xml
