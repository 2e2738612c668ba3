import ServiceClient.Proofs.Xml.Forest

/-! Documents whose numbers are all different and below the next free one. Work below one node puts
trees after its children and leaves all else as it is, but for trees that hang on nothing. -/

namespace ServiceClient.Xml

open Xml.Tree (nodesAmong numbersAmong modifyAmong pruneAmong pathAmong? addAll)

namespace Document

structure Sound (d : Document) : Prop where
  nodup : (numbersAmong d.trees).Nodup
  lt_next : ∀ i ∈ numbersAmong d.trees, i < d.next

def Has (d : Document) (i : NodeId) : Prop := i ∈ numbersAmong d.trees

def Holds (d : Document) (t : Tree) : Prop := t ∈ nodesAmong d.trees

variable {d d' d'' : Document} {i c : NodeId} {t : Tree} {ts us : List Tree} {v : Node}

theorem Holds.has (h : d.Holds t) : d.Has t.id := List.mem_map_of_mem h

theorem Holds.child (h : d.Holds t) {u : Tree} (hu : u ∈ t.children) : d.Holds u :=
  Tree.child_mem_nodesAmong hu d.trees h

theorem Sound.find? (hd : d.Sound) (h : d.Holds t) : d.find? t.id = some t :=
  Tree.findAmong?_of_mem hd.nodup h

theorem Sound.not_has_next (hd : d.Sound) : ¬ d.Has d.next := fun h =>
  Nat.lt_irrefl _ (hd.lt_next _ h)

theorem scope_eq (d : Document) (i : NodeId) : d.scope i =
    (((pathAmong? i d.trees).map (List.map Tree.value)).getD []).filterMap (·.info.ns) := by
  rw [scope]
  cases pathAmong? i d.trees with
  | none => rfl
  | some p =>
    rw [Option.map_some, Option.getD_some, Option.getD_some, List.filterMap_map]
    rfl

/-- `d'` is `d` with the trees `ts` after the children of node `i`, and perhaps trees of its own. -/
structure Grown (d d' : Document) (i : NodeId) (ts : List Tree) : Prop where
  trees : ∃ loose, d'.trees = loose ++ modifyAmong i (addAll ts) d.trees
  root : d'.root = d.root
  next_le : d.next ≤ d'.next
  sound : d'.Sound

theorem Sound.grown_nil (hd : d.Sound) (i : NodeId) : Grown d d i [] :=
  ⟨⟨[], by rw [Tree.modifyAmong_addAll_nil, List.nil_append]⟩, rfl, Nat.le_refl _, hd⟩

theorem notMem_loose {loose : List Tree} (hd : (numbersAmong (loose ++ ts)).Nodup)
    (hi : i ∈ numbersAmong ts) : i ∉ numbersAmong loose := by
  rw [Tree.numbersAmong_append] at hd
  exact fun hmem => (List.nodup_append.1 hd).2.2 i hmem i hi rfl

theorem mem_grown (hd : d.Sound) (hi : d.Has i) (hc : c ∈ numbersAmong d.trees ++ numbersAmong ts) :
    c ∈ numbersAmong (modifyAmong i (addAll ts) d.trees) :=
  (Tree.numbersAmong_modify_addAll ts d.trees hi hd.nodup).mem_iff.2 hc

theorem Grown.has (h : Grown d d' i ts) (hd : d.Sound) (hi : d.Has i) (hc : d.Has c) :
    d'.Has c := by
  obtain ⟨loose, htrees⟩ := h.trees
  rw [Has, htrees, Tree.numbersAmong_append]
  exact List.mem_append_right _ (mem_grown hd hi (List.mem_append_left _ hc))

theorem Grown.trans (h : Grown d d' i ts) (h' : Grown d' d'' i us) (hd : d.Sound) (hi : d.Has i) :
    Grown d d'' i (ts ++ us) := by
  obtain ⟨loose, htrees⟩ := h.trees
  obtain ⟨loose', htrees'⟩ := h'.trees
  refine ⟨⟨loose' ++ loose, ?_⟩, h'.root.trans h.root, Nat.le_trans h.next_le h'.next_le, h'.sound⟩
  have hloose : i ∉ numbersAmong loose :=
    notMem_loose (htrees ▸ h.sound.nodup) (mem_grown hd hi (List.mem_append_left _ hi))
  rw [htrees', htrees, Tree.modifyAmong_append, Tree.modifyAmong_of_notMem _ _ hloose,
    Tree.modifyAmong_addAll_addAll, List.append_assoc]

theorem Grown.scope (h : Grown d d' i ts) (hd : d.Sound) (hi : d.Has i) :
    d'.scope i = d.scope i := by
  obtain ⟨loose, htrees⟩ := h.trees
  have hloose : i ∉ numbersAmong loose :=
    notMem_loose (htrees ▸ h.sound.nodup) (mem_grown hd hi (List.mem_append_left _ hi))
  rw [scope_eq, scope_eq, htrees, Tree.pathAmong?_append_of_notMem hloose,
    Tree.values_pathAmong?_modify]

section Leaves

structure Budded (d d' : Document) (i c : NodeId) (v : Node) : Prop
    extends Grown d d' i [.node c v []] where
  source : d.Sound
  has : d.Has i
  fresh : ¬ d.Has c

variable (h : Budded d d' i c v)

include h

theorem Budded.exists_trees : ∃ loose, d'.trees = loose ++ modifyAmong i (addAll [.node c v []])
    d.trees ∧ c ∉ numbersAmong loose := by
  obtain ⟨loose, htrees⟩ := h.trees
  refine ⟨loose, htrees, notMem_loose (htrees ▸ h.sound.nodup) ?_⟩
  refine mem_grown h.source h.has (List.mem_append_right _ ?_)
  rw [Tree.numbersAmong_singleton]
  exact Tree.mem_numbers_self (.node c v [])

theorem Budded.scope_leaf : d'.scope c = v.info.ns.toList ++ d.scope i := by
  obtain ⟨loose, htrees, hloose⟩ := h.exists_trees
  obtain ⟨p, hp⟩ := Option.isSome_iff_exists.1 (Tree.isSome_pathAmong? d.trees h.has)
  rw [scope_eq, scope_eq, htrees, Tree.pathAmong?_append_of_notMem hloose,
    Tree.values_pathAmong?_leaf d.trees h.fresh, hp]
  dsimp only [Option.map_some, Option.getD_some]
  rw [List.filterMap_cons]
  cases v.info.ns <;> rfl

theorem Budded.holds : d'.Holds (.node c v []) := by
  obtain ⟨loose, htrees, _⟩ := h.exists_trees
  rw [Holds, htrees, Tree.nodesAmong_append]
  exact List.mem_append_right _ (Tree.mem_nodesAmong_addAll List.mem_cons_self d.trees h.has)

theorem Budded.grown (h' : Grown d' d'' c ts) : Grown d d'' i [.node c v ts] := by
  obtain ⟨loose, htrees, hloose⟩ := h.exists_trees
  obtain ⟨loose', htrees'⟩ := h'.trees
  refine ⟨⟨loose' ++ loose, ?_⟩, h'.root.trans h.root, Nat.le_trans h.next_le h'.next_le, h'.sound⟩
  rw [htrees', htrees, Tree.modifyAmong_append, Tree.modifyAmong_of_notMem _ _ hloose,
    Tree.modifyAmong_addAll_leaf d.trees h.fresh, addAll,
    List.nil_append, List.append_assoc]

theorem Budded.setContent (s : String) :
    Grown d (d'.setContent c s) i [.node c { v with content := some s } []] := by
  obtain ⟨loose, htrees, hloose⟩ := h.exists_trees
  have hchanged : modifyAmong c (Tree.mapValue fun n => { n with content := some s }) d'.trees =
      loose ++ modifyAmong i (addAll [.node c { v with content := some s } []]) d.trees := by
    rw [htrees, Tree.modifyAmong_append, Tree.modifyAmong_of_notMem _ _ hloose,
      Tree.modifyAmong_addAll_leaf d.trees h.fresh, Tree.mapValue]
  have hids := Tree.numbersAmong_modify_addAll [.node c { v with content := some s } []] d.trees
    h.has h.source.nodup
  have hids' := Tree.numbersAmong_modify_addAll [.node c v []] d.trees h.has h.source.nodup
  have hperm : (numbersAmong (d'.setContent c s).trees).Perm (numbersAmong d'.trees) := by
    rw [Document.setContent, modify, hchanged, htrees, Tree.numbersAmong_append,
      Tree.numbersAmong_append]
    exact (hids.trans hids'.symm).append_left _
  refine ⟨⟨loose, hchanged⟩, h.root, h.next_le, ?_, fun j hj => ?_⟩
  · exact hperm.nodup_iff.2 h.sound.nodup
  · exact h.sound.lt_next j (hperm.mem_iff.1 hj)

theorem Budded.detach : Grown d (d'.detach c) i [] := by
  obtain ⟨loose, htrees, hloose⟩ := h.exists_trees
  have hfind : d'.find? c = some (.node c v []) := h.sound.find? h.holds
  have hpruned : pruneAmong c d'.trees = loose ++ d.trees := by
    rw [htrees, Tree.pruneAmong_append, Tree.pruneAmong_of_notMem _ hloose,
      Tree.pruneAmong_addAll_leaf d.trees h.fresh]
  have hids := Tree.numbersAmong_modify_addAll [.node c v []] d.trees h.has h.source.nodup
  have hperm :
      (numbersAmong (.node c v [] :: (loose ++ d.trees))).Perm (numbersAmong d'.trees) := by
    rw [htrees, Tree.numbersAmong_cons, Tree.numbersAmong_append, Tree.numbersAmong_append]
    refine List.perm_append_comm.trans ?_
    rw [List.append_assoc, ← Tree.numbersAmong_singleton]
    exact hids.symm.append_left _
  rw [Document.detach, hfind]
  dsimp only
  rw [hpruned]
  refine ⟨⟨.node c v [] :: loose, ?_⟩, h.root, h.next_le, ?_, fun j hj => ?_⟩
  · rw [Tree.modifyAmong_addAll_nil, List.cons_append]
  · exact hperm.nodup_iff.2 h.sound.nodup
  · exact h.sound.lt_next j (hperm.mem_iff.1 hj)

end Leaves

def sprout (d : Document) (v : Node) : Document :=
  ⟨.node d.next v [] :: d.trees, d.root, d.next + 1⟩

theorem create_fst (d : Document) (info : NodeInfo) :
    (d.create info).1 = d.sprout (.ofInfo info) := rfl

theorem Sound.link_sprout (hd : d.Sound) (i : NodeId) (v : Node) : (d.sprout v).link i d.next =
    ⟨modifyAmong i (addAll [.node d.next (leaveScope (d.scope i) v) []]) d.trees, d.root,
      d.next + 1⟩ := by
  have hfind : (d.sprout v).find? d.next = some (.node d.next v []) := by
    rw [sprout, Document.find?, Tree.findAmong?, Tree.find?, if_pos rfl]
  have hrest : pruneAmong d.next (d.sprout v).trees = d.trees := by
    rw [sprout, pruneAmong, if_pos (Tree.id.eq_1 _ _ _),
      Tree.pruneAmong_of_notMem _ hd.not_has_next]
  rw [link, hfind]
  dsimp only
  rw [hrest, ← Tree.addLast_eq_addAll]
  rfl

theorem Sound.addChild_fst (hd : d.Sound) (i : NodeId) (info : NodeInfo) : (d.addChild i info).1 =
    ⟨modifyAmong i (addAll [.node d.next (leaveScope (d.scope i) (.ofInfo info)) []]) d.trees,
      d.root, d.next + 1⟩ :=
  hd.link_sprout i (.ofInfo info)

theorem Sound.addChild (hd : d.Sound) (hi : d.Has i) (info : NodeInfo) :
    (d.addChild i info).2 = d.next ∧ Budded d (d.addChild i info).1 i d.next
      (leaveScope (d.scope i) (.ofInfo info)) := by
  have hlinked := hd.addChild_fst i info
  have hids := Tree.numbersAmong_modify_addAll [.node d.next
    (leaveScope (d.scope i) (.ofInfo info)) []] d.trees hi hd.nodup
  rw [Tree.numbersAmong_singleton, Tree.numbers_node, Tree.numbersAmong_nil] at hids
  refine ⟨rfl, ⟨⟨[], ?_⟩, ?_, ?_, ?_, ?_⟩, hd, hi, hd.not_has_next⟩
  · rw [hlinked, List.nil_append]
  · rw [hlinked]
  · rw [hlinked]
    exact Nat.le_succ _
  · rw [hlinked]
    refine hids.nodup_iff.2 (List.nodup_append.2 ⟨hd.nodup, List.nodup_singleton _, ?_⟩)
    intro j hj k hk
    rw [List.mem_singleton.1 hk]
    exact Nat.ne_of_lt (hd.lt_next j hj)
  · intro j hj
    rw [hlinked] at hj ⊢
    rcases List.mem_append.1 (hids.mem_iff.1 hj) with hj | hj
    · exact Nat.lt_succ_of_lt (hd.lt_next j hj)
    · rw [List.mem_singleton.1 hj]
      exact Nat.lt_succ_self _

end Document

end ServiceClient.Xml
