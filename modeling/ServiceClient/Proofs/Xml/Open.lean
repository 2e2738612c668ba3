import ServiceClient.Proofs.Xml.Arena

/-! Documents with open elements. The innermost one is a tree inside the others, and what is done to
it or to one of its children is done to that tree alone. -/

namespace ServiceClient.Xml

open Xml.Tree (nodesAmong numbersAmong modifyAmong pruneAmong pathAmong? addAll mapValue)

/-- An open element with its children before the one that is open in it. -/
structure Open where
  id : NodeId
  value : Node
  children : List Tree

namespace Open

def tree (o : Open) : Tree := .node o.id o.value o.children

def add (o : Open) (t : Tree) : Open := ⟨o.id, o.value, o.children ++ [t]⟩

theorem id_tree (o : Open) : o.tree.id = o.id := rfl

end Open

namespace Tree

def inside : Tree → List Open → Tree
  | t, [] => t
  | t, o :: around => inside (o.add t).tree around

section Inside

variable {i : NodeId} {t u : Tree} {around : List Open}

theorem numbers_inside (t : Tree) (around : List Open) : (t.inside around).numbers.Perm
    (t.numbers ++ numbersAmong (around.map Open.tree)) := by
  induction around generalizing t with
  | nil => rw [inside, List.map_nil, numbersAmong_nil, List.append_nil]
  | cons o around ih =>
    refine (ih (o.add t).tree).trans ?_
    rw [List.map_cons, numbersAmong_cons, ← List.append_assoc]
    refine List.Perm.append_right _ ?_
    rw [Open.add, Open.tree, Open.tree, numbers_node, numbers_node, numbersAmong_append,
      numbersAmong_singleton]
    exact (List.perm_append_comm.cons _).trans List.perm_middle.symm

theorem mem_nodes_inside (t : Tree) (around : List Open) : t ∈ (t.inside around).nodes := by
  induction around generalizing t with
  | nil => exact mem_nodes_self t
  | cons o around ih =>
    have hlast : t ∈ (o.add t).children := List.mem_append_right _ List.mem_cons_self
    exact child_mem_nodes (u := (o.add t).tree) hlast _ (ih _)

theorem id_inside (h : t.id = u.id) (around : List Open) :
    (t.inside around).id = (u.inside around).id := by
  induction around generalizing t u with
  | nil => exact h
  | cons o around ih => exact ih (t := (o.add t).tree) (u := (o.add u).tree) rfl

theorem id_inside_eq (t : Tree) (around : List Open) : (t.inside around).id = t.id ∨
    (t.inside around).id ∈ numbersAmong (around.map Open.tree) := by
  induction around generalizing t with
  | nil => exact .inl rfl
  | cons o around ih =>
    rw [List.map_cons, numbersAmong_cons, List.mem_append]
    refine .inr ((ih (o.add t).tree).imp (fun heq => ?_) fun hmem => hmem)
    rw [inside, heq]
    exact mem_numbers_self o.tree

theorem pruneAmong_eq_filter {ts : List Tree} (h : (numbersAmong ts).Nodup) (ht : t ∈ ts) :
    pruneAmong t.id ts = ts.filter (·.id ≠ t.id) := by
  induction ts with
  | nil => cases ht
  | cons s ss ih =>
    obtain ⟨_, hss, hdisjoint⟩ := nodup_cons_split h
    rw [pruneAmong, List.filter_cons]
    rcases List.mem_cons.1 ht with rfl | ht
    · have hnot : t.id ∉ numbersAmong ss := fun hmem => hdisjoint t.id hmem (mem_numbers_self t)
      have hrest : ss.filter (·.id ≠ t.id) = ss := List.filter_eq_self.2 fun u hu =>
        decide_eq_true fun heq => hnot (heq ▸ id_mem_numbersAmong (mem_nodesAmong_of_mem hu))
      rw [if_pos rfl, pruneAmong_of_notMem ss hnot, hrest]
      simp
    · have hnot := hdisjoint t.id (id_mem_numbersAmong (mem_nodesAmong_of_mem ht))
      have hid : s.id ≠ t.id := fun heq => hnot (heq ▸ mem_numbers_self s)
      rw [if_neg hid, prune_of_notMem s hnot, ih hss ht, if_pos (decide_eq_true hid)]

variable (hi : i ∉ numbersAmong (around.map Open.tree))

include hi

theorem modify_inside (f : Tree → Tree) (t : Tree) :
    (t.inside around).modify i f = (t.modify i f).inside around := by
  induction around generalizing t with
  | nil => rfl
  | cons o around ih =>
    rw [List.map_cons, numbersAmong_cons, List.mem_append, not_or, Open.tree, numbers_node,
      List.mem_cons, not_or] at hi
    obtain ⟨⟨hid, hchildren⟩, haround⟩ := hi
    rw [inside, ih haround, inside, Open.add, Open.tree, modify, if_neg (Ne.symm hid),
      modifyAmong_append, modifyAmong_of_notMem f _ hchildren]
    rfl

theorem prune_inside (t : Tree) (ht : t.id ≠ i) :
    (t.inside around).prune i = (t.prune i).inside around := by
  induction around generalizing t with
  | nil => rfl
  | cons o around ih =>
    rw [List.map_cons, numbersAmong_cons, List.mem_append, not_or, Open.tree, numbers_node,
      List.mem_cons, not_or] at hi
    obtain ⟨⟨hid, hchildren⟩, haround⟩ := hi
    have hne : (o.add t).tree.id ≠ i := Ne.symm hid
    rw [inside, ih haround _ hne, inside, Open.add, Open.tree, prune, pruneAmong_append,
      pruneAmong_of_notMem _ hchildren, pruneAmong, if_neg ht]
    rfl

theorem values_path?_inside {values : List Node}
    (hvalues : (t.path? i).map (List.map value) = some values) :
    ((t.inside around).path? i).map (List.map value) = some (values ++ around.map Open.value) := by
  induction around generalizing t values with
  | nil => rw [inside, hvalues, List.map_nil, List.append_nil]
  | cons o around ih =>
    rw [List.map_cons, numbersAmong_cons, List.mem_append, not_or, Open.tree, numbers_node,
      List.mem_cons, not_or] at hi
    obtain ⟨⟨hid, hchildren⟩, haround⟩ := hi
    obtain ⟨p, hp, rfl⟩ := Option.map_eq_some_iff.1 hvalues
    have hup : ((o.add t).tree.path? i).map (List.map value) = some (p.map value ++ [o.value]) := by
      rw [Open.add, Open.tree, path?, if_neg (Ne.symm hid), pathAmong?_append_of_notMem hchildren,
        pathAmong?, hp]
      simp [Tree.value]
    rw [inside, ih haround hup, List.append_assoc]
    rfl

end Inside

end Tree

namespace Document

section Sprouting

variable {d : Document} (h : d.Whole)

include h

theorem Whole.modify_sprout (v : Node) (g : Node → Node) :
    (d.sprout v).modify d.next (Tree.mapValue g) = d.sprout (g v) := by
  rw [sprout, modify, Xml.Tree.modifyAmong, Tree.modify, if_pos rfl,
    Tree.modifyAmong_of_notMem _ _ h.sound.not_has_next]
  rfl

theorem Whole.sprout (v : Node) : (d.sprout v).Whole := by
  have hwhole := (h.create v.info).mapValue d.next fun _ => v
  rwa [create_fst, h.modify_sprout] at hwhole

theorem Whole.createElement_arena (tag : Tag) : Parsing.createElement tag d.arena =
    some (d.next, (d.sprout ⟨⟨tag.name, .element, tag.ns⟩, none, tag.nsPrefix⟩).arena) := by
  have hlt : d.next < (d.create ⟨tag.name, .element, tag.ns⟩).1.next := Nat.lt_succ_self _
  have hupdated := (h.create ⟨tag.name, .element, tag.ns⟩).update_arena hlt
    fun n => { n with nsPrefix := tag.nsPrefix }
  rw [create_fst, h.modify_sprout] at hupdated
  rw [Parsing.createElement, bind_of_some (h.create_arena _), create_fst, bind_of_some hupdated]
  rfl

end Sprouting

/-- All trees but one are `loose`; that one has the open element `o` inside those `around` it. -/
structure IsOpen (d : Document) (loose : List Tree) (o : Open) (around : List Open) : Prop where
  whole : d.Whole
  trees : d.trees = loose ++ [o.tree.inside around]
  root : (o.tree.inside around).id = d.root

namespace IsOpen

variable {d : Document} {loose : List Tree} {o : Open} {around : List Open} {i : NodeId}

variable (h : d.IsOpen loose o around)

include h

theorem numbers : (numbersAmong d.trees).Perm
    (numbersAmong loose ++ (o.tree.numbers ++ numbersAmong (around.map Open.tree))) := by
  rw [h.trees, Tree.numbersAmong_append, Tree.numbersAmong_singleton]
  exact (Tree.numbers_inside o.tree around).append_left _

theorem notMem (hi : i ∈ o.tree.numbers) :
    i ∉ numbersAmong loose ∧ i ∉ numbersAmong (around.map Open.tree) := by
  have hnodup := h.numbers.nodup_iff.1 h.whole.sound.nodup
  rw [List.nodup_append, List.nodup_append] at hnodup
  obtain ⟨_, ⟨_, _, haround⟩, hloose⟩ := hnodup
  exact ⟨fun hmem => hloose i hmem i (List.mem_append_left _ hi) rfl,
    fun hmem => haround i hi i hmem rfl⟩

theorem has (hi : i ∈ o.tree.numbers) : d.Has i :=
  h.numbers.mem_iff.2 (List.mem_append_right _ (List.mem_append_left _ hi))

theorem lt_next (hi : i ∈ o.tree.numbers) : i < d.next := (h.whole.has_iff i).1 (h.has hi)

omit h in
theorem id_mem (o : Open) : o.id ∈ o.tree.numbers := Tree.mem_numbers_self o.tree

theorem modifyAmong (hi : i ∈ o.tree.numbers) (f : Tree → Tree) :
    modifyAmong i f d.trees = loose ++ [(o.tree.modify i f).inside around] := by
  obtain ⟨hloose, haround⟩ := h.notMem hi
  rw [h.trees, Tree.modifyAmong_append, Tree.modifyAmong_of_notMem f loose hloose,
    Xml.Tree.modifyAmong, Xml.Tree.modifyAmong, Tree.modify_inside haround]

theorem scope : d.scope o.id = (o.value :: around.map Open.value).filterMap (·.info.ns) := by
  obtain ⟨hloose, haround⟩ := h.notMem (id_mem o)
  have hself : (o.tree.path? o.id).map (List.map Tree.value) = some [o.value] := by
    rw [← o.id_tree, Tree.path?_self]
    rfl
  have hpath := Tree.values_path?_inside haround hself
  rw [scope_eq, h.trees, Tree.pathAmong?_append_of_notMem hloose, pathAmong?]
  obtain ⟨p, hp, hvalues⟩ := Option.map_eq_some_iff.1 hpath
  rw [hp]
  exact congrArg (List.filterMap (·.info.ns)) hvalues

theorem holds : d.Holds o.tree := by
  rw [Holds, h.trees, Tree.nodesAmong_append]
  exact List.mem_append_right _ (Tree.nodes_subset_nodesAmong List.mem_cons_self _
    (Tree.mem_nodes_inside o.tree around))

theorem of_trees {d' : Document} {o' : Open} (hwhole : d'.Whole)
    (htrees : d'.trees = loose ++ [o'.tree.inside around]) (hid : o'.id = o.id)
    (hroot : d'.root = d.root) : d'.IsOpen loose o' around :=
  ⟨hwhole, htrees, (Tree.id_inside (show o'.tree.id = o.tree.id from hid) around).trans
    (h.root.trans hroot.symm)⟩

theorem trees_add (t : Tree) :
    Xml.Tree.modifyAmong o.id (addAll [t]) d.trees = loose ++ [(o.add t).tree.inside around] := by
  rw [h.modifyAmong (id_mem o), Open.tree, Tree.modify, if_pos rfl]
  rfl

theorem addValue (info : NodeInfo) (hns : info.ns = none) (s : String) : ∃ d' : Document,
    Handling.addValue o.id info s d.arena = some ((), d'.arena) ∧ d'.next = d.next + 1 ∧
      d'.IsOpen loose (o.add (.node d.next ⟨info, some s, none⟩ [])) around := by
  have hi := h.lt_next (id_mem o)
  have hadded := h.whole.addChild info hi
  have hleave : leaveScope (d.scope o.id) (.ofInfo info) = .ofInfo info :=
    leaveScope_eq_self fun ns hsome => nomatch hns.symm.trans hsome
  have htrees : ((d.addChild o.id info).1.setContent d.next s).trees =
      loose ++ [(o.add (.node d.next ⟨info, some s, none⟩ [])).tree.inside around] := by
    rw [h.whole.sound.addChild_fst, hleave, setContent, modify,
      Tree.modifyAmong_addAll_leaf d.trees h.whole.sound.not_has_next]
    exact h.trees_add _
  exact ⟨_, h.whole.addValue_arena hi info s, next_addChild d o.id info,
    h.of_trees (hadded.setContent _ s) htrees rfl (root_link _ _ _)⟩

theorem enter (v : Node) : ∃ d' : Document,
    Handling.link o.id d.next (d.sprout v).arena = some ((), d'.arena) ∧
      d'.IsOpen loose ⟨d.next, leaveScope (d.scope o.id) v, []⟩ (o :: around) := by
  have hwhole := h.whole.sprout v
  have hnew : (d.sprout v).Holds (.node d.next v []) := List.mem_cons_self
  have hp : (d.sprout v).Has o.id :=
    (hwhole.has_iff o.id).2 (Nat.lt_succ_of_lt (h.lt_next (id_mem o)))
  have hbelow : o.id ∉ (Tree.node d.next v []).numbers := by
    rw [Tree.numbers_node, Tree.numbersAmong_nil, List.mem_singleton]
    exact Nat.ne_of_lt (h.lt_next (id_mem o))
  refine ⟨_, hwhole.link_arena hnew hp hbelow, (Move.link hnew hp hbelow).whole hwhole, ?_, ?_⟩
  · rw [Tree.id, h.whole.sound.link_sprout]
    exact h.trees_add _
  · rw [root_link]
    refine Eq.trans (Tree.id_inside ?_ around) h.root
    rfl

omit h in
theorem leave {p : Open} (h : d.IsOpen loose o (p :: around)) :
    d.IsOpen loose (p.add o.tree) around :=
  ⟨h.whole, h.trees, h.root⟩

theorem setLast {ts : List Tree} {v : Node} (hlast : o.children = ts ++ [.node i v []])
    (s : String) : ∃ d' : Document, Handling.setContent i s d.arena = some ((), d'.arena) ∧
      d'.IsOpen loose ⟨o.id, o.value, ts ++ [.node i { v with content := some s } []]⟩ around := by
  have hi : i ∈ o.tree.numbers := by
    rw [Open.tree, Tree.numbers_node, hlast, Tree.numbersAmong_append]
    exact List.mem_cons_of_mem _ (List.mem_append_right _ List.mem_cons_self)
  have hnodup := (Tree.numbers_sublist_among h.holds).nodup h.whole.sound.nodup
  rw [Open.tree, Tree.numbers_node, hlast, Tree.numbersAmong_append, Tree.numbersAmong_singleton,
    List.nodup_cons, List.nodup_append, List.mem_append, not_or] at hnodup
  obtain ⟨⟨_, hid⟩, _, _, hdisjoint⟩ := hnodup
  have hne : o.id ≠ i := fun heq => hid (heq ▸ List.mem_cons_self)
  have hnot : i ∉ numbersAmong ts := fun hmem => hdisjoint i hmem i List.mem_cons_self rfl
  refine ⟨_, h.whole.setContent_arena (h.lt_next hi) s, ?_⟩
  refine h.of_trees (h.whole.setContent i s) ?_ rfl rfl
  rw [setContent, modify]
  dsimp only
  rw [h.modifyAmong hi, Open.tree, Tree.modify, if_neg hne, hlast, Tree.modifyAmong_append,
    Tree.modifyAmong_of_notMem _ ts hnot, Xml.Tree.modifyAmong, Tree.modify, if_pos rfl]
  rfl

theorem detach {t : Tree} (ht : t ∈ o.children) : ∃ d' : Document,
    Handling.detach t.id d.arena = some ((), d'.arena) ∧
      d'.IsOpen (t :: loose) ⟨o.id, o.value, o.children.filter (·.id ≠ t.id)⟩ around := by
  have hholds : d.Holds t := h.holds.child ht
  have hi : t.id ∈ o.tree.numbers := by
    rw [Open.tree, Tree.numbers_node]
    exact List.mem_cons_of_mem _ (Tree.id_mem_numbersAmong (Tree.mem_nodesAmong_of_mem ht))
  have hnodup := (Tree.numbers_sublist_among h.holds).nodup h.whole.sound.nodup
  rw [Open.tree, Tree.numbers_node, List.nodup_cons] at hnodup
  have hne : o.tree.id ≠ t.id := fun heq =>
    hnodup.1 ((show o.id = t.id from heq) ▸
      Tree.id_mem_numbersAmong (Tree.mem_nodesAmong_of_mem ht))
  obtain ⟨hloose, haround⟩ := h.notMem hi
  have htop : (o.tree.inside around).id ≠ t.id := fun heq =>
    (Tree.id_inside_eq o.tree around).elim (fun hid => hne (hid.symm.trans heq))
      fun hmem => haround (heq ▸ hmem)
  refine ⟨_, h.whole.detach_arena (h.lt_next hi), h.whole.detach t.id, ?_, ?_⟩
  · rw [h.whole.trees_detach hholds, h.trees, Tree.pruneAmong_append,
      Tree.pruneAmong_of_notMem _ hloose, pruneAmong, if_neg htop, Tree.prune_inside haround _ hne,
      Open.tree, Tree.prune, Tree.pruneAmong_eq_filter hnodup.2 ht]
    rfl
  · rw [root_detach]
    refine Eq.trans (Tree.id_inside ?_ around) h.root
    rfl

theorem detachAll {ts : List Tree} (hts : ∀ t ∈ ts, t ∈ o.children)
    (hnodup : (ts.map Tree.id).Nodup) :
    ∃ d' : Document, (ts.map Tree.id).forM Handling.detach d.arena = some ((), d'.arena) ∧
      d'.IsOpen (ts.reverse ++ loose) ⟨o.id, o.value, o.children.filter (·.id ∉ ts.map Tree.id)⟩
        around := by
  -- Each tree is out of the children before the next one is taken.
  induction ts generalizing d loose o with
  | nil =>
    refine ⟨d, rfl, ?_⟩
    simpa using h
  | cons t ts ih =>
    rw [List.forall_mem_cons] at hts
    rw [List.map_cons, List.nodup_cons] at hnodup
    obtain ⟨d₁, hdetached, hopen⟩ := h.detach hts.1
    have hrest : ∀ u ∈ ts, u ∈ o.children.filter (·.id ≠ t.id) := fun u hu =>
      List.mem_filter.2 ⟨hts.2 u hu, decide_eq_true fun heq =>
        hnodup.1 (heq ▸ List.mem_map_of_mem hu)⟩
    obtain ⟨d', hall, hopen'⟩ := ih hopen hrest hnodup.2
    refine ⟨d', ?_, ?_⟩
    · change (Handling.detach t.id >>= fun _ => (ts.map Tree.id).forM Handling.detach) d.arena = _
      rw [bind_of_some hdetached]
      exact hall
    · rw [List.filter_filter] at hopen'
      rw [List.reverse_cons, List.append_assoc]
      have hfilter : o.children.filter (fun u => decide (u.id ∉ (t :: ts).map Tree.id)) =
          o.children.filter fun u => decide (u.id ∉ ts.map Tree.id) && decide (u.id ≠ t.id) :=
        List.filter_congr fun u _ => by
          rw [Bool.eq_iff_iff]
          simp [and_comm]
      rw [hfilter]
      exact hopen'

theorem nodup_children : (o.children.map Tree.id).Nodup :=
  Tree.nodup_children h.whole.sound.nodup h.holds

end IsOpen

end Document

end ServiceClient.Xml
