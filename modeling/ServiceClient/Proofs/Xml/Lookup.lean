import ServiceClient.Proofs.Xml.Edit

/-! Looking a node up after an edit. An edit changes each tree that it does not make in one place at
most, so what a number stands for afterwards is what it stood for before with that one change; what
a node holds and the list of its children are read off that. -/

namespace ServiceClient.Xml

namespace Tree

variable {i : NodeId} {t u : Tree} {ts : List Tree} {f : Tree → Tree}

@[simp] theorem id_prune (t : Tree) : (t.prune i).id = t.id := by
  cases t
  rfl

@[simp] theorem value_prune (t : Tree) : (t.prune i).value = t.value := by
  cases t
  rfl

@[simp] theorem id_addLast (child t : Tree) : (addLast child t).id = t.id := by
  cases t
  rfl

@[simp] theorem children_addLast (child t : Tree) :
    (addLast child t).children = t.children ++ [child] := by
  cases t
  rfl

@[simp] theorem id_mapValue (g : Node → Node) (t : Tree) : (mapValue g t).id = t.id := by
  cases t
  rfl

@[simp] theorem children_mapValue (g : Node → Node) (t : Tree) :
    (mapValue g t).children = t.children := by
  cases t
  rfl

theorem map_id_pruneAmong (ts : List Tree) :
    (pruneAmong i ts).map id = (ts.map id).filter (· ≠ i) := by
  induction ts with
  | nil => rfl
  | cons t ts ih =>
    rw [pruneAmong]
    split_ifs with h <;> simp [h, ih]

theorem map_id_children_prune (t : Tree) :
    (t.prune i).children.map id = (t.children.map id).filter (· ≠ i) := by
  cases t
  exact map_id_pruneAmong _

/-- The change keeps the node where it is, and all that is below it. -/
structure IsLocal (f : Tree → Tree) : Prop where
  id_eq : ∀ t, (f t).id = t.id
  subset : ∀ t, t.children ⊆ (f t).children

theorem isLocal_addLast (child : Tree) : IsLocal (addLast child) :=
  ⟨id_addLast child, fun t => by simp⟩

theorem isLocal_mapValue (g : Node → Node) : IsLocal (mapValue g) :=
  ⟨id_mapValue g, fun t => by simp⟩

section Modify

variable (hf : IsLocal f)

include hf

theorem IsLocal.id_modify (t : Tree) : (t.modify i f).id = t.id := by
  cases t
  rw [modify]
  split_ifs
  · exact hf.id_eq _
  · rfl

theorem IsLocal.map_id_modifyAmong (ts : List Tree) : (modifyAmong i f ts).map id = ts.map id := by
  induction ts with
  | nil => rfl
  | cons t ts ih => rw [modifyAmong, List.map_cons, List.map_cons, hf.id_modify, ih]

theorem IsLocal.mem_nodes (t : Tree) (hu : u ∈ nodesAmong t.children) : u ∈ (f t).nodes := by
  have hchildren : ∀ ss : List Tree, ss ⊆ (f t).children → u ∈ nodesAmong ss → u ∈ (f t).nodes := by
    intro ss hss hu
    induction ss with
    | nil => cases hu
    | cons s ss ih =>
      rw [nodesAmong, List.mem_append] at hu
      rcases hu with hu | hu
      · have hs := child_mem_nodes (hss List.mem_cons_self) (f t) (mem_nodes_self (f t))
        exact (nodes_sublist (f t) hs).subset hu
      · exact ih (fun v hv => hss (List.mem_cons_of_mem s hv)) hu
  exact hchildren t.children (hf.subset t) hu

end Modify

section Changed

variable (g : Node → Node) (child t : Tree)

theorem value_modify_mapValue :
    (t.modify i (mapValue g)).value = if t.id = i then g t.value else t.value := by
  obtain ⟨j, value, children⟩ := t
  rw [modify]
  by_cases h : j = i
  · rw [if_pos h, Tree.id, if_pos h]
    rfl
  · rw [if_neg h, Tree.id, if_neg h]
    rfl

theorem map_id_children_modify_mapValue :
    (t.modify i (mapValue g)).children.map id = t.children.map id := by
  obtain ⟨j, value, children⟩ := t
  rw [modify]
  split_ifs
  · rfl
  · exact (isLocal_mapValue g).map_id_modifyAmong children

theorem value_modify_addLast : (t.modify i (addLast child)).value = t.value := by
  obtain ⟨j, value, children⟩ := t
  rw [modify]
  split_ifs <;> rfl

theorem map_id_children_modify_addLast : (t.modify i (addLast child)).children.map id =
    t.children.map id ++ if t.id = i then [child.id] else [] := by
  obtain ⟨j, value, children⟩ := t
  rw [modify]
  by_cases h : j = i
  · rw [if_pos h, Tree.id, if_pos h, children_addLast, List.map_append]
    rfl
  · rw [if_neg h, Tree.id, if_neg h, List.append_nil]
    exact (isLocal_addLast child).map_id_modifyAmong children

end Changed

mutual

theorem mem_nodes_modify (hf : IsLocal f) : ∀ s : Tree, s.numbers.Nodup → u ∈ s.nodes →
    u.modify i f ∈ (s.modify i f).nodes
  | .node j value children, hnodup, hu => by
    rw [numbers_node, List.nodup_cons] at hnodup
    rcases mem_nodes_node hu with rfl | hu
    · exact mem_nodes_self _
    · by_cases h : j = i
      · have hbelow : i ∉ u.numbers := fun hmem => hnodup.1 (h ▸ numbers_subset hu hmem)
        rw [modify_of_notMem f u hbelow, modify, if_pos h]
        exact hf.mem_nodes (.node j value children) hu
      · rw [modify, if_neg h, nodes, List.mem_cons]
        exact .inr (mem_nodesAmong_modify hf children hnodup.2 hu)

theorem mem_nodesAmong_modify (hf : IsLocal f) : ∀ ss : List Tree, (numbersAmong ss).Nodup →
    u ∈ nodesAmong ss → u.modify i f ∈ nodesAmong (modifyAmong i f ss)
  | [], _, hu => nomatch hu
  | s :: ss, hnodup, hu => by
    obtain ⟨hs, hss, _⟩ := nodup_cons_split hnodup
    rw [nodesAmong, List.mem_append] at hu
    rw [modifyAmong, nodesAmong, List.mem_append]
    exact hu.imp (mem_nodes_modify hf s hs) (mem_nodesAmong_modify hf ss hss)

end

section Prune

theorem prune_of_mem_nodes (hnodup : t.numbers.Nodup) (hu : u ∈ t.nodes) : u.prune t.id = u := by
  obtain ⟨i, value, children⟩ := t
  rw [numbers_node, List.nodup_cons] at hnodup
  rcases mem_nodes_node hu with rfl | hu
  · rw [prune, Tree.id, pruneAmong_of_notMem children hnodup.1]
  · exact prune_of_notMem u fun hmem => hnodup.1 (numbers_subset hu hmem)

mutual

theorem mem_nodes_prune : ∀ s : Tree, (∀ v ∈ s.nodes, v.id = t.id → v = t) → u ∈ s.nodes →
    u ∈ t.nodes ∨ u.prune t.id ∈ (s.prune t.id).nodes
  | .node j value children, hunique, hu => by
    rcases mem_nodes_node hu with rfl | hu
    · exact .inr (mem_nodes_self _)
    · rw [nodes, List.forall_mem_cons] at hunique
      rw [prune, nodes, List.mem_cons]
      exact (mem_nodesAmong_prune children hunique.2 hu).imp_right .inr

theorem mem_nodesAmong_prune : ∀ ss : List Tree, (∀ v ∈ nodesAmong ss, v.id = t.id → v = t) →
    u ∈ nodesAmong ss → u ∈ t.nodes ∨ u.prune t.id ∈ nodesAmong (pruneAmong t.id ss)
  | [], _, hu => nomatch hu
  | s :: ss, hunique, hu => by
    rw [nodesAmong, List.forall_mem_append] at hunique
    rw [nodesAmong, List.mem_append] at hu
    have hrest := mem_nodesAmong_prune ss hunique.2
    rw [pruneAmong]
    by_cases hid : s.id = t.id
    · rw [if_pos hid]
      exact hu.elim (fun hu => .inl (hunique.1 s (mem_nodes_self s) hid ▸ hu)) hrest
    · rw [if_neg hid, nodesAmong, List.mem_append]
      exact hu.elim (fun hu => (mem_nodes_prune s hunique.1 hu).imp_right .inl)
        fun hu => (hrest hu).imp_right .inr

end

end Prune

end Tree

namespace Document

open Xml.Tree (nodesAmong numbersAmong modifyAmong pruneAmong IsLocal)

variable {d d' : Document} {i j p : NodeId} {t : Tree} {f : Tree → Tree}

theorem Sound.has_iff (hd : d.Sound) : d.Has i ↔ (d.find? i).isSome := by
  constructor
  · intro hi
    obtain ⟨t, ht, rfl⟩ := hi.exists_holds
    rw [hd.find? ht]
    rfl
  · intro hsome
    by_contra hi
    rw [find?_eq_none hi] at hsome
    cases hsome

/-- Where all nodes of a document are found changed in another one, nothing else is found there. -/
theorem Whole.find?_eq_map (h : d.Whole) (h' : d'.Whole) (hnext : d'.next = d.next)
    (hid : ∀ t, (f t).id = t.id) (hholds : ∀ t, d.Holds t → d'.Holds (f t)) (i : NodeId) :
    d'.find? i = (d.find? i).map f := by
  by_cases hi : i < d.next
  · obtain ⟨t, ht, rfl⟩ := ((h.has_iff i).2 hi).exists_holds
    have hfind := h'.sound.find? (hholds t ht)
    rw [hid] at hfind
    rw [hfind, h.sound.find? ht]
    rfl
  · have hi' : ¬ i < d'.next := hnext ▸ hi
    rw [find?_eq_none (mt (h.has_iff i).1 hi), find?_eq_none (mt (h'.has_iff i).1 hi')]
    rfl

theorem node_of_find? (hfind : d'.find? i = (d.find? i).map f)
    (hvalue : ∀ t, (f t).value = t.value) : d'.node i = d.node i := by
  rw [node, node, hfind, Option.map_map]
  simp only [Function.comp_def, hvalue]

section Congr

theorem eq_of_map_id_eq (hd : d.Sound) : ∀ {ts us : List Tree}, ts.map Tree.id = us.map Tree.id →
    (∀ t ∈ ts, d.Holds t) → (∀ u ∈ us, d.Holds u) → ts = us
  | [], [], _, _, _ => rfl
  | [], u :: us, hid, _, _ => nomatch hid
  | t :: ts, [], hid, _, _ => nomatch hid
  | t :: ts, u :: us, hid, hts, hus => by
    rw [List.forall_mem_cons] at hts hus
    obtain ⟨hfirst, hrest⟩ := List.cons.inj hid
    rw [Tree.eq_of_id_eq hd.nodup hts.1 hus.1 hfirst, eq_of_map_id_eq hd hrest hts.2 hus.2]

mutual

/-- Where all nodes of a tree hold the same and have the same children, there is the same tree. -/
theorem Sound.holds_congr (hd : d.Sound) (hd' : d'.Sound) : ∀ t : Tree, d.Holds t →
    (∀ i ∈ t.numbers, d'.Has i ∧ d'.node i = d.node i ∧ d'.children i = d.children i) → d'.Holds t
  | .node i value children, ht, hsame => by
    rw [Tree.numbers_node, List.forall_mem_cons] at hsame
    obtain ⟨⟨hi, hnode, hchildren⟩, hbelow⟩ := hsame
    obtain ⟨u, hu, rfl⟩ := hi.exists_holds
    have hall := Sound.forall_holds_congr hd hd' children (fun c hc => ht.child hc) hbelow
    have hvalue := hd.node_eq ht
    have hids := hd.children_eq ht
    rw [Tree.id, ← hnode, hd'.node_eq hu, Tree.value] at hvalue
    rw [Tree.id, ← hchildren, hd'.children_eq hu, Tree.children] at hids
    have hsame := eq_of_map_id_eq hd' hids (fun c hc => hu.child hc) hall
    cases u
    rw [← hvalue, ← hsame]
    exact hu

theorem Sound.forall_holds_congr (hd : d.Sound) (hd' : d'.Sound) : ∀ ts : List Tree,
    (∀ t ∈ ts, d.Holds t) → (∀ i ∈ numbersAmong ts, d'.Has i ∧ d'.node i = d.node i ∧
      d'.children i = d.children i) → ∀ t ∈ ts, d'.Holds t
  | [], _, _ => nofun
  | t :: ts, hts, hsame => by
    rw [Tree.numbersAmong_cons, List.forall_mem_append] at hsame
    rw [List.forall_mem_cons] at hts ⊢
    exact ⟨Sound.holds_congr hd hd' t hts.1 hsame.1,
      Sound.forall_holds_congr hd hd' ts hts.2 hsame.2⟩

end

end Congr

section Detach

variable (h : d.Whole)

include h

theorem Whole.detach (i : NodeId) : (d.detach i).Whole := (Move.detach d i).whole h

theorem Whole.find?_detach (i j : NodeId) :
    (d.detach i).find? j = (d.find? j).map (Tree.prune i) := by
  refine h.find?_eq_map (h.detach i) (next_detach d i) Tree.id_prune (fun u hu => ?_) j
  rw [Document.detach]
  cases hfind : d.find? i with
  | none =>
    have hi : ¬ d.Has i := by simp [h.sound.has_iff, hfind]
    rw [Tree.prune_of_notMem u fun hmem => hi (Tree.numbers_subset hu hmem)]
    exact hu
  | some t =>
    obtain ⟨ht, rfl⟩ := exists_holds_of_find? hfind
    have hnodup := (Tree.numbers_sublist_among ht).nodup h.sound.nodup
    have hunique : ∀ v ∈ nodesAmong d.trees, v.id = t.id → v = t := fun v hv hid =>
      Tree.eq_of_id_eq h.sound.nodup hv ht hid
    dsimp only
    rw [Holds, nodesAmong, List.mem_append]
    refine (Tree.mem_nodesAmong_prune d.trees hunique hu).imp_left fun hmem => ?_
    rwa [Tree.prune_of_mem_nodes hnodup hmem]

theorem Whole.node_detach (i j : NodeId) : (d.detach i).node j = d.node j :=
  node_of_find? (h.find?_detach i j) Tree.value_prune

theorem Whole.children_detach (i j : NodeId) :
    (d.detach i).children j = (d.children j).filter (· ≠ i) := by
  rw [children, children, h.find?_detach i j]
  cases d.find? j with
  | none => rfl
  | some t => exact Tree.map_id_children_prune t

theorem Whole.detachAll (is : List NodeId) : (is.foldl Document.detach d).Whole :=
  (h.moves_detachAll is).whole h

theorem Whole.node_detachAll (is : List NodeId) (j : NodeId) :
    (is.foldl Document.detach d).node j = d.node j := by
  induction is generalizing d with
  | nil => rfl
  | cons i is ih => rw [List.foldl_cons, ih (h.detach i), h.node_detach]

theorem Whole.children_detachAll (is : List NodeId) (j : NodeId) :
    (is.foldl Document.detach d).children j = (d.children j).filter (· ∉ is) := by
  induction is generalizing d with
  | nil => simp
  | cons i is ih =>
    rw [List.foldl_cons, ih (h.detach i), h.children_detach, List.filter_filter]
    simp only [List.mem_cons, not_or, Bool.decide_and, Bool.and_comm]

end Detach

section Values

variable (h : d.Whole) (i : NodeId) (g : Node → Node)

include h

theorem Whole.mapValue : (d.modify i (Tree.mapValue g)).Whole := by
  refine h.of_perm ?_ rfl rfl
  rw [h.sound.labels_mapValue, Tree.map_fst_relabel]

theorem Whole.find?_mapValue (j : NodeId) : (d.modify i (Tree.mapValue g)).find? j =
    (d.find? j).map (Tree.modify i (Tree.mapValue g)) :=
  have hlocal := Tree.isLocal_mapValue g
  h.find?_eq_map (h.mapValue i g) rfl hlocal.id_modify
    (fun _ hu => Tree.mem_nodesAmong_modify hlocal d.trees h.sound.nodup hu) j

theorem Whole.children_mapValue (j : NodeId) :
    (d.modify i (Tree.mapValue g)).children j = d.children j := by
  rw [children, children, h.find?_mapValue]
  cases d.find? j with
  | none => rfl
  | some t => exact Tree.map_id_children_modify_mapValue g t

theorem Whole.node_mapValue (hi : i < d.next) (j : NodeId) :
    (d.modify i (Tree.mapValue g)).node j = if j = i then g (d.node j) else d.node j := by
  by_cases hj : j < d.next
  · obtain ⟨t, ht, rfl⟩ := ((h.has_iff j).2 hj).exists_holds
    rw [node, node, h.find?_mapValue, h.sound.find? ht]
    exact Tree.value_modify_mapValue g t
  · have hne : j ≠ i := fun heq => hj (heq.symm ▸ hi)
    rw [node, node, h.find?_mapValue, find?_eq_none (mt (h.has_iff j).1 hj), if_neg hne]
    rfl

variable (s : String)

theorem Whole.setContent : (d.setContent i s).Whole := h.mapValue i _

theorem Whole.children_setContent (j : NodeId) : (d.setContent i s).children j = d.children j :=
  h.children_mapValue i _ j

theorem Whole.node_setContent (hi : i < d.next) (j : NodeId) : (d.setContent i s).node j =
    if j = i then { d.node j with content := some s } else d.node j :=
  h.node_mapValue i _ hi j

end Values

section Link

/-- The tree as it comes under `p`, without a namespace that is declared there or above. -/
def arriving (d : Document) (p : NodeId) (t : Tree) : Tree :=
  t.mapValue (leaveScope (({ d with trees := pruneAmong t.id d.trees } : Document).scope p))

variable (h : d.Whole) (ht : d.Holds t) (hp : d.Has p) (hbelow : p ∉ t.numbers)

include h ht

theorem Whole.trees_link (p : NodeId) : (d.link p t.id).trees =
    modifyAmong p (Tree.addLast (d.arriving p t)) (pruneAmong t.id d.trees) := by
  rw [link, h.sound.find? ht]
  rfl

include hp hbelow

/-- The tree that moves keeps its children; all others lose it, and the new parent gets it last. -/
theorem Whole.find?_link (i : NodeId) : (d.link p t.id).find? i =
    (d.find? i).map fun u => if u.id = t.id then d.arriving p t else
      (u.prune t.id).modify p (Tree.addLast (d.arriving p t)) := by
  have hlinked := (Move.link ht hp hbelow).whole h
  obtain ⟨htree, hrest, _⟩ := h.sound.nodup_prune ht
  refine h.find?_eq_map hlinked (next_link d p t.id) (fun u => ?_) (fun u hu => ?_) i
  · split_ifs with hid
    · rw [arriving, Tree.id_mapValue, hid]
    · rw [(Tree.isLocal_addLast _).id_modify, Tree.id_prune]
  · have harrived : (d.link p t.id).Holds (d.arriving p t) := by
      rw [Holds, h.trees_link ht, Tree.addLast_eq_addAll]
      exact Tree.mem_nodesAmong_addAll List.mem_cons_self _ (h.sound.mem_prune ht hp hbelow)
    have hunique : ∀ v ∈ nodesAmong d.trees, v.id = t.id → v = t := fun v hv hid =>
      Tree.eq_of_id_eq h.sound.nodup hv ht hid
    by_cases hid : u.id = t.id
    · rwa [if_pos hid]
    rw [if_neg hid]
    rcases Tree.mem_nodesAmong_prune d.trees hunique hu with hinside | houtside
    · have hother : p ∉ u.numbers := fun hmem =>
        hbelow (((Tree.nodes_sublist t hinside).map Tree.id).subset hmem)
      have hmoved : u ∈ (d.arriving p t).nodes := by
        refine (Tree.isLocal_mapValue _).mem_nodes t ?_
        cases t
        exact (Tree.mem_nodes_node hinside).resolve_left fun heq => hid (congrArg Tree.id heq)
      rw [Tree.prune_of_mem_nodes htree hinside, Tree.modify_of_notMem _ u hother]
      exact (Tree.nodes_sublist_among _ harrived).subset hmoved
    · rw [Holds, h.trees_link ht]
      exact Tree.mem_nodesAmong_modify (Tree.isLocal_addLast _) _ hrest houtside

theorem Whole.children_link (i : NodeId) : (d.link p t.id).children i =
    (d.children i).filter (· ≠ t.id) ++ if i = p then [t.id] else [] := by
  by_cases hi : i < d.next
  · obtain ⟨u, hu, rfl⟩ := ((h.has_iff i).2 hi).exists_holds
    rw [children, children, h.find?_link ht hp hbelow, h.sound.find? hu]
    dsimp only [Option.map_some, Option.getD_some]
    by_cases hid : u.id = t.id
    · obtain rfl := Tree.eq_of_id_eq h.sound.nodup hu ht hid
      have hother : u.id ≠ p := fun heq => hbelow (heq ▸ Tree.mem_numbers_self u)
      have hkept := Tree.map_id_children_prune (i := u.id) u
      rw [Tree.prune_of_mem_nodes (h.sound.nodup_prune ht).1 (Tree.mem_nodes_self u)] at hkept
      rw [if_pos rfl, if_neg hother, List.append_nil, ← hkept, arriving, Tree.children_mapValue]
    · rw [if_neg hid, Tree.map_id_children_modify_addLast, Tree.map_id_children_prune,
        Tree.id_prune, arriving, Tree.id_mapValue]
  · have hne : i ≠ p := fun heq => hi ((h.has_iff i).1 (heq ▸ hp))
    rw [children, children, h.find?_link ht hp hbelow, find?_eq_none (mt (h.has_iff i).1 hi),
      if_neg hne]
    rfl

theorem Whole.node_link {i : NodeId} (hi : i ≠ t.id) : (d.link p t.id).node i = d.node i := by
  rw [node, node, h.find?_link ht hp hbelow]
  cases hfind : d.find? i with
  | none => rfl
  | some u =>
    obtain ⟨_, rfl⟩ := exists_holds_of_find? hfind
    dsimp only [Option.map_some, Option.getD_some]
    rw [if_neg hi, Tree.value_modify_addLast, Tree.value_prune]

end Link

section AddChild

variable (h : d.Whole) (info : NodeInfo)

theorem find?_create (d : Document) (info : NodeInfo) {i : NodeId} (hi : i ≠ d.next) :
    (d.create info).1.find? i = d.find? i := by
  rw [create, find?, Tree.findAmong?, Tree.find?, if_neg (Ne.symm hi)]
  rfl

theorem node_create (d : Document) (info : NodeInfo) {i : NodeId} (hi : i ≠ d.next) :
    (d.create info).1.node i = d.node i := by
  rw [node, node, find?_create d info hi]

include h

theorem Whole.lt_of_mem_children (hj : j ∈ d.children i) : i < d.next ∧ j < d.next := by
  obtain ⟨hchild, hparent⟩ := h.sound.has_of_isParent (h.sound.mem_children_iff.1 hj)
  exact ⟨(h.has_iff i).1 hparent, (h.has_iff j).1 hchild⟩

theorem Whole.children_of_le (hi : d.next ≤ i) : d.children i = [] := by
  rw [children, find?_eq_none (mt (h.has_iff i).1 (Nat.not_lt.2 hi))]
  rfl

theorem Whole.create : (d.create info).1.Whole := (Move.create d info).whole h

theorem Whole.children_create (i : NodeId) : (d.create info).1.children i = d.children i := by
  by_cases hi : i = d.next
  · have hleaf : (d.create info).1.Holds (.node d.next (.ofInfo info) []) := List.mem_cons_self
    rw [hi, h.children_of_le (Nat.le_refl _)]
    exact (h.create info).sound.children_eq hleaf
  · rw [children, children, find?_create d info hi]

omit h in
theorem next_addChild (d : Document) (p : NodeId) (info : NodeInfo) :
    (d.addChild p info).1.next = d.next + 1 := next_link _ p d.next

variable (hp : p < d.next)

include hp

theorem Whole.addChild : (d.addChild p info).1.Whole := (h.moves_addChild hp info).whole h

theorem Whole.children_addChild (i : NodeId) : (d.addChild p info).1.children i =
    d.children i ++ if i = p then [d.next] else [] := by
  obtain ⟨hnew, hp', hbelow⟩ := h.created hp info
  have hkept : (d.children i).filter (· ≠ d.next) = d.children i :=
    List.filter_eq_self.2 fun j hj => by simpa using Nat.ne_of_lt (h.lt_of_mem_children hj).2
  have hlinked := (h.create info).children_link hnew hp' hbelow i
  rwa [h.children_create, Tree.id, hkept] at hlinked

theorem Whole.node_addChild (hi : i ≠ d.next) : (d.addChild p info).1.node i = d.node i := by
  obtain ⟨hnew, hp', hbelow⟩ := h.created hp info
  exact ((h.create info).node_link hnew hp' hbelow hi).trans (node_create d info hi)

theorem Whole.node_child : (d.addChild p info).1.node d.next =
    leaveScope (d.scope p) (.ofInfo info) := by
  obtain ⟨_, hbudded⟩ := h.sound.addChild ((h.has_iff p).2 hp) info
  exact hbudded.sound.node_eq hbudded.holds

end AddChild

end Document

end ServiceClient.Xml
