import ServiceClient.Proofs.Xml.Walk

/-! Documents under any sequence of edits. Taking a tree out and putting it elsewhere moves its
nodes without making or losing one, as long as it does not go below itself; so what an edit does to
the nodes of a document can be said without a word about their places. -/

namespace ServiceClient.Xml

namespace Tree

section Prune

variable {t : Tree}

mutual

theorem labels_prune : ∀ s : Tree, s.id ≠ t.id → t ∈ s.nodes → s.numbers.Nodup →
    (t.labels ++ (s.prune t.id).labels).Perm s.labels
  | .node i value children, hne, ht, hnodup => by
    rw [numbers_node, List.nodup_cons] at hnodup
    rcases mem_nodes_node ht with rfl | ht
    · exact absurd rfl hne
    · rw [prune, labels_node, labels_node]
      exact List.perm_middle.trans ((labelsAmong_prune children ht hnodup.2).cons _)

theorem labelsAmong_prune : ∀ ss : List Tree, t ∈ nodesAmong ss → (numbersAmong ss).Nodup →
    (t.labels ++ labelsAmong (pruneAmong t.id ss)).Perm (labelsAmong ss)
  | [], ht, _ => nomatch ht
  | s :: ss, ht, hnodup => by
    obtain ⟨hs, hss, hdisjoint⟩ := nodup_cons_split hnodup
    rw [pruneAmong, labelsAmong_cons]
    by_cases hid : s.id = t.id
    · have heq : s = t :=
        eq_of_id_eq hnodup (mem_nodesAmong_of_mem List.mem_cons_self) ht hid
      have hrest : t.id ∉ numbersAmong ss := fun hmem =>
        hdisjoint _ hmem (hid ▸ mem_numbers_self s)
      rw [if_pos hid, pruneAmong_of_notMem ss hrest, heq]
    · rw [if_neg hid, labelsAmong_cons]
      rw [nodesAmong, List.mem_append] at ht
      rcases ht with ht | ht
      · have hrest : t.id ∉ numbersAmong ss := fun hmem => hdisjoint _ hmem (id_mem_numbers ht)
        rw [pruneAmong_of_notMem ss hrest, ← List.append_assoc]
        exact (labels_prune s hid ht hs).append_right _
      · rw [prune_of_notMem s (hdisjoint _ (id_mem_numbersAmong ht)), ← List.append_assoc]
        refine (List.perm_append_comm.append_right _).trans ?_
        rw [List.append_assoc]
        exact (labelsAmong_prune ss ht hss).append_left _

end

end Prune

section Relabel

variable {i : NodeId} (f : Node → Node)

def relabel (i : NodeId) (f : Node → Node) (l : NodeId × Node) : NodeId × Node :=
  (l.1, if l.1 = i then f l.2 else l.2)

theorem map_fst_relabel (l : List (NodeId × Node)) :
    (l.map (relabel i f)).map Prod.fst = l.map Prod.fst := List.map_map

theorem map_relabel_of_notMem {l : List (NodeId × Node)} (h : i ∉ l.map Prod.fst) :
    l.map (relabel i f) = l := by
  have hsame : ∀ x ∈ l, relabel i f x = x := by
    intro x hx
    have hne : x.1 ≠ i := fun heq => h (heq ▸ List.mem_map_of_mem hx)
    rw [relabel, if_neg hne]
  exact (List.map_congr_left hsame).trans (List.map_id' l)

theorem labels_mapValue : ∀ t : Tree, t.numbers.Nodup →
    (t.mapValue f).labels = t.labels.map (relabel t.id f)
  | .node j value children, h => by
    rw [numbers_node, List.nodup_cons, ← map_fst_labelsAmong] at h
    rw [mapValue, labels_node, labels_node, List.map_cons, Tree.id, map_relabel_of_notMem f h.1,
      relabel, if_pos rfl]

mutual

theorem labels_modify_mapValue : ∀ t : Tree, t.numbers.Nodup →
    (t.modify i (mapValue f)).labels = t.labels.map (relabel i f)
  | .node j value children, h => by
    by_cases hj : j = i
    · subst hj
      rw [modify, if_pos rfl, labels_mapValue f _ h]
      rfl
    · rw [numbers_node, List.nodup_cons] at h
      rw [modify, if_neg hj, labels_node, labels_node, List.map_cons, relabel, if_neg hj,
        labelsAmong_modify_mapValue children h.2]

theorem labelsAmong_modify_mapValue : ∀ ts : List Tree, (numbersAmong ts).Nodup →
    labelsAmong (modifyAmong i (mapValue f) ts) = (labelsAmong ts).map (relabel i f)
  | [], _ => rfl
  | t :: ts, h => by
    obtain ⟨ht, hts, _⟩ := nodup_cons_split h
    rw [modifyAmong, labelsAmong_cons, labelsAmong_cons, List.map_append,
      labels_modify_mapValue t ht, labelsAmong_modify_mapValue ts hts]

end

end Relabel

end Tree

namespace Document

open Xml.Tree (nodesAmong numbersAmong labelsAmong pruneAmong relabel)

def labels (d : Document) : List (NodeId × Node) := labelsAmong d.trees

variable {d d' : Document} {i p c : NodeId} {t : Tree}

theorem map_fst_labels (d : Document) : d.labels.map Prod.fst = numbersAmong d.trees :=
  Tree.map_fst_labelsAmong _

theorem mem_labels_iff {l : NodeId × Node} : l ∈ d.labels ↔ ∃ t, d.Holds t ∧ t.label = l :=
  List.mem_map

section Sound

variable (hd : d.Sound)

include hd

theorem Sound.node_of_mem_labels {v : Node} (h : (i, v) ∈ d.labels) : d.node i = v := by
  obtain ⟨t, ht, hlabel⟩ := mem_labels_iff.1 h
  obtain ⟨rfl, rfl⟩ := Prod.mk.inj hlabel
  exact hd.node_eq ht

theorem Sound.labels_detach (i : NodeId) : (d.detach i).labels.Perm d.labels := by
  rw [detach]
  cases hfind : d.find? i with
  | none => exact .rfl
  | some t =>
    obtain ⟨ht, rfl⟩ := exists_holds_of_find? hfind
    dsimp only [labels]
    rw [Tree.labelsAmong_cons]
    exact Tree.labelsAmong_prune d.trees ht hd.nodup

theorem Sound.labels_mapValue (i : NodeId) (f : Node → Node) :
    (d.modify i (Tree.mapValue f)).labels = d.labels.map (relabel i f) :=
  Tree.labelsAmong_modify_mapValue f d.trees hd.nodup

theorem Sound.labels_setContent (i : NodeId) (s : String) :
    (d.setContent i s).labels = d.labels.map (relabel i fun n => { n with content := some s }) :=
  hd.labels_mapValue i _

theorem Sound.numbers_prune (ht : d.Holds t) :
    (t.numbers ++ numbersAmong (pruneAmong t.id d.trees)).Perm (numbersAmong d.trees) := by
  have hlabels := (Tree.labelsAmong_prune d.trees ht hd.nodup).map Prod.fst
  rwa [List.map_append, Tree.map_fst_labelsAmong, Tree.map_fst_labelsAmong,
    Tree.map_fst_labels] at hlabels

theorem Sound.nodup_prune (ht : d.Holds t) : t.numbers.Nodup ∧
    (numbersAmong (pruneAmong t.id d.trees)).Nodup ∧
      ∀ i ∈ t.numbers, i ∉ numbersAmong (pruneAmong t.id d.trees) := by
  obtain ⟨htree, hrest, hdisjoint⟩ :=
    List.nodup_append.1 ((hd.numbers_prune ht).nodup_iff.2 hd.nodup)
  exact ⟨htree, hrest, fun i hi hmem => hdisjoint i hi i hmem rfl⟩

theorem Sound.mem_prune (ht : d.Holds t) (hp : d.Has p) (hbelow : p ∉ t.numbers) :
    p ∈ numbersAmong (pruneAmong t.id d.trees) :=
  (List.mem_append.1 ((hd.numbers_prune ht).mem_iff.2 hp)).resolve_left hbelow

theorem Sound.labels_link (ht : d.Holds t) (hp : d.Has p) (hbelow : p ∉ t.numbers) :
    ∃ scope, (d.link p t.id).labels.Perm (d.labels.map (relabel t.id (leaveScope scope))) := by
  have hpruned := Tree.labelsAmong_prune d.trees ht hd.nodup
  obtain ⟨htree, hrest, hdisjoint⟩ := hd.nodup_prune ht
  have habsent : t.id ∉ (labelsAmong (pruneAmong t.id d.trees)).map Prod.fst := by
    rw [Tree.map_fst_labelsAmong]
    exact hdisjoint _ (Tree.mem_numbers_self t)
  refine ⟨({ d with trees := pruneAmong t.id d.trees } : Document).scope p, ?_⟩
  rw [link, hd.find? ht]
  dsimp only [labels, modify]
  rw [Tree.addLast_eq_addAll]
  refine (Tree.labelsAmong_modify_addAll _ _ (hd.mem_prune ht hp hbelow) hrest).trans ?_
  rw [Tree.labelsAmong_singleton, Tree.labels_mapValue _ t htree]
  refine List.perm_append_comm.trans ?_
  refine .trans ?_ (hpruned.map _)
  rw [List.map_append, Tree.map_relabel_of_notMem _ habsent]

end Sound

section Moves

inductive Move : Document → Document → Prop
  | create (d : Document) (info : NodeInfo) : Move d (d.create info).1
  | link {d : Document} {t : Tree} {p : NodeId} (ht : d.Holds t) (hp : d.Has p)
      (hbelow : p ∉ t.numbers) : Move d (d.link p t.id)
  | detach (d : Document) (i : NodeId) : Move d (d.detach i)
  | setContent {d : Document} {i : NodeId} (hi : (d.node i).info.location ≠ .element) (s : String) :
      Move d (d.setContent i s)

abbrev Moves : Document → Document → Prop := Relation.ReflTransGen Move

theorem next_link (d : Document) (p c : NodeId) : (d.link p c).next = d.next := by
  rw [link]
  cases d.find? c <;> rfl

theorem root_link (d : Document) (p c : NodeId) : (d.link p c).root = d.root := by
  rw [link]
  cases d.find? c <;> rfl

theorem next_detach (d : Document) (i : NodeId) : (d.detach i).next = d.next := by
  rw [detach]
  cases d.find? i <;> rfl

theorem root_detach (d : Document) (i : NodeId) : (d.detach i).root = d.root := by
  rw [detach]
  cases d.find? i <;> rfl

theorem Whole.of_perm (h : d.Whole)
    (hlabels : (d'.labels.map Prod.fst).Perm (d.labels.map Prod.fst)) (hroot : d'.root = d.root)
    (hnext : d'.next = d.next) : d'.Whole := by
  rw [map_fst_labels, map_fst_labels] at hlabels
  refine ⟨?_, ?_⟩
  · rw [hnext]
    exact hlabels.trans h.numbers
  · rw [hroot, hnext]
    exact h.root_lt

theorem whole_new (root : NodeInfo) : (new root).Whole := ⟨.refl _, Nat.zero_lt_one⟩

theorem Move.whole (hmove : Move d d') (h : d.Whole) : d'.Whole := by
  cases hmove with
  | create info =>
    refine ⟨?_, Nat.lt_succ_of_lt h.root_lt⟩
    change (numbersAmong (.node d.next (.ofInfo info) [] :: d.trees)).Perm
      (List.range (d.next + 1))
    rw [Tree.numbersAmong_cons, Tree.numbers_node, Tree.numbersAmong_nil, List.range_succ]
    exact (h.numbers.cons d.next).trans (List.perm_append_singleton _ _).symm
  | link ht hp hbelow =>
    obtain ⟨scope, hlabels⟩ := h.sound.labels_link ht hp hbelow
    have hfst := hlabels.map Prod.fst
    rw [Tree.map_fst_relabel] at hfst
    exact h.of_perm hfst (root_link _ _ _) (next_link _ _ _)
  | detach i =>
    exact h.of_perm ((h.sound.labels_detach i).map _) (root_detach _ _) (next_detach _ _)
  | setContent hi s =>
    refine h.of_perm ?_ rfl rfl
    rw [h.sound.labels_setContent, Tree.map_fst_relabel]

theorem Moves.whole (hmoves : Moves d d') (h : d.Whole) : d'.Whole := by
  induction hmoves with
  | refl => exact h
  | tail _ hmove ih => exact hmove.whole ih

end Moves

section Edits

inductive Edit where
  | create (info : NodeInfo)
  | addChild (parent : NodeId) (info : NodeInfo)
  | appendChild (parent child : NodeId)
  | detach (node : NodeId)
  | setText (node : NodeId) (s : String)
  deriving DecidableEq, Repr

def Edit.nodes : Edit → List NodeId
  | .create _ => []
  | .addChild p _ => [p]
  | .appendChild p c => [p, c]
  | .detach i => [i]
  | .setText i _ => [i]

/-- A refused edit leaves the document as it is. -/
def edit (d : Document) : Edit → Document × Option XmlError
  | .create info => ((d.create info).1, none)
  | .addChild p info => ((d.addChild p info).1, none)
  | .appendChild p c =>
    match d.appendChild p c with
    | .ok d' => (d', none)
    | .error e => (d, some e)
  | .detach i => (d.detach i, none)
  | .setText i s => (d.setText i s, none)

inductive Reached (start : Document) : Document → Prop
  | start : Reached start start
  | edit {d : Document} {e : Edit} (h : Reached start d) (he : ∀ i ∈ e.nodes, i < d.next) :
      Reached start (d.edit e).1

theorem next_detachAll (d : Document) (is : List NodeId) :
    (is.foldl Document.detach d).next = d.next := by
  induction is generalizing d with
  | nil => rfl
  | cons i is ih => exact (ih _).trans (next_detach d i)

def textsOf (d : Document) (i : NodeId) : List NodeId :=
  (d.children i).filter fun c => (d.node c).info.location == .text

theorem setText_of_element (hi : (d.node i).info.location = .element) (s : String) :
    d.setText i s = (((d.textsOf i).foldl Document.detach d).addChild i .forText).1.setContent
      ((d.textsOf i).foldl Document.detach d).next s := by
  rw [setText, hi]
  rfl

theorem setText_of_ne (hi : (d.node i).info.location ≠ .element) (s : String) :
    d.setText i s = d.setContent i s := by
  rw [setText]
  split
  · contradiction
  · rfl

variable (h : d.Whole)

include h

theorem Whole.moves_link (hp : p < d.next) (hc : c < d.next) (hnot : c ∉ d.ancestors p) :
    Moves d (d.link p c) := by
  obtain ⟨t, ht, rfl⟩ := ((h.has_iff c).2 hc).exists_holds
  exact .single (.link ht ((h.has_iff p).2 hp) fun hmem =>
    hnot (h.sound.mem_ancestors_of_mem_numbers ht hmem))

theorem Whole.moves_appendChild (hp : p < d.next) (hc : c < d.next) :
    Moves d (d.edit (.appendChild p c)).1 := by
  rw [Document.edit, appendChild]
  by_cases hmem : c ∈ d.ancestors p
  · rw [if_pos hmem]
  · rw [if_neg hmem]
    exact h.moves_link hp hc hmem

theorem Whole.created (hp : p < d.next) (info : NodeInfo) :
    (d.create info).1.Holds (.node d.next (.ofInfo info) []) ∧ (d.create info).1.Has p ∧
      p ∉ (Tree.node d.next (.ofInfo info) []).numbers := by
  refine ⟨List.mem_cons_self, ?_, ?_⟩
  · exact (((Move.create d info).whole h).has_iff p).2 (Nat.lt_succ_of_lt hp)
  · rw [Tree.numbers_node, Tree.numbersAmong_nil, List.mem_singleton]
    exact Nat.ne_of_lt hp

theorem Whole.link_create (hp : p < d.next) (info : NodeInfo) :
    Move (d.create info).1 (d.addChild p info).1 ∧
      ∃ v, (d.next, v) ∈ (d.addChild p info).1.labels ∧ v.info.location = info.location := by
  obtain ⟨hnew, hp', hbelow⟩ := h.created hp info
  obtain ⟨scope, hlabels⟩ := ((Move.create d info).whole h).sound.labels_link hnew hp' hbelow
  have hlabel : relabel d.next (leaveScope scope) (d.next, .ofInfo info) =
      (d.next, leaveScope scope (.ofInfo info)) := by rw [relabel, if_pos rfl]
  refine ⟨.link hnew hp' hbelow, leaveScope scope (.ofInfo info), hlabels.mem_iff.2 ?_, rfl⟩
  exact List.mem_map.2 ⟨_, mem_labels_iff.2 ⟨_, hnew, rfl⟩, hlabel⟩

theorem Whole.moves_addChild (hp : p < d.next) (info : NodeInfo) :
    Moves d (d.addChild p info).1 :=
  .tail (.single (.create d info)) (h.link_create hp info).1

theorem Whole.moves_detachAll (is : List NodeId) : Moves d (is.foldl Document.detach d) := by
  induction is generalizing d with
  | nil => exact .refl
  | cons i is ih => exact .head (.detach d i) (ih ((Move.detach d i).whole h))

theorem Whole.moves_setText (hi : i < d.next) (s : String) : Moves d (d.setText i s) := by
  by_cases hlocation : (d.node i).info.location = .element
  · rw [setText_of_element hlocation]
    have hdetached := h.moves_detachAll (d.textsOf i)
    have hi : i < ((d.textsOf i).foldl Document.detach d).next := by rwa [next_detachAll]
    generalize (d.textsOf i).foldl Document.detach d = d' at hdetached hi ⊢
    have hadded := (hdetached.whole h).moves_addChild hi .forText
    obtain ⟨_, v, hv, hv'⟩ := (hdetached.whole h).link_create hi .forText
    have hnode := (hadded.whole (hdetached.whole h)).sound.node_of_mem_labels hv
    refine (hdetached.trans hadded).tail (.setContent ?_ s)
    rw [hnode, hv']
    decide
  · rw [setText_of_ne hlocation]
    exact .single (.setContent hlocation s)

theorem Whole.moves_edit {e : Edit} (he : ∀ i ∈ e.nodes, i < d.next) : Moves d (d.edit e).1 := by
  cases e with
  | create info => exact .single (.create d info)
  | addChild p info => exact h.moves_addChild (he p List.mem_cons_self) info
  | appendChild p c =>
    exact h.moves_appendChild (he p List.mem_cons_self)
      (he c (List.mem_cons_of_mem p List.mem_cons_self))
  | detach i => exact .single (.detach d i)
  | setText i s => exact h.moves_setText (he i List.mem_cons_self) s

omit h in
theorem Reached.whole {start : Document} (hreached : Reached start d) (h : start.Whole) :
    d.Whole := by
  induction hreached with
  | start => exact h
  | edit _ he ih => exact (ih.moves_edit he).whole ih

omit h in
theorem Reached.moves {start : Document} (hreached : Reached start d) (h : start.Whole) :
    Moves start d := by
  induction hreached with
  | start => exact .refl
  | edit hreached he ih => exact ih.trans ((hreached.whole h).moves_edit he)

end Edits

section Forest

/-- Moving is refused if it would put a node below itself, and for nothing else. -/
theorem Whole.appendChild_eq_error_iff (h : d.Whole) (hp : p < d.next) (c : NodeId) :
    d.appendChild p c = .error .cyclicMove ↔ Relation.ReflTransGen d.IsParent p c := by
  rw [← h.sound.mem_ancestors_iff ((h.has_iff p).2 hp), appendChild]
  split_ifs with hmem
  · exact iff_of_true rfl hmem
  · exact iff_of_false nofun hmem

theorem edit_of_fault {e : Edit} {fault : XmlError} (h : (d.edit e).2 = some fault) :
    (d.edit e).1 = d ∧ fault = .cyclicMove ∧ ∃ p c, e = .appendChild p c := by
  cases e with
  | appendChild p c =>
    rw [edit, appendChild] at h ⊢
    split_ifs at h ⊢ with hmem
    exact ⟨rfl, (Option.some.inj h).symm, p, c, rfl⟩
  | _ => cases h

end Forest

end Document

end ServiceClient.Xml
