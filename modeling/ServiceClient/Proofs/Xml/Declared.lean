import ServiceClient.Proofs.Xml.Lookup
import ServiceClient.Proofs.Xml.Spelling

/-! Declared namespaces. A node that is read or made gives up a namespace that is declared above it,
so none is declared twice on the way up from a node; and no edit takes a namespace from a node but
the one that moves that node. -/

namespace ServiceClient.Xml

open Xml.Tree (pathAmong?)

section Trees

inductive Tree.DeclaresIn : List Namespace → Tree → Prop
  | node {scope : List Namespace} {i : NodeId} {value : Node} {children : List Tree}
      (hns : ∀ ns ∈ value.info.ns, ns ∉ scope)
      (hchildren : ∀ t ∈ children, Tree.DeclaresIn (value.info.ns.toList ++ scope) t) :
      Tree.DeclaresIn scope (.node i value children)

theorem declaresIn_attributeTrees (scope : List Namespace) (next : NodeId) (l : List Attribute) :
    ∀ t ∈ (Document.attributeTrees next l).1, t.DeclaresIn scope := by
  induction l generalizing next with
  | nil => exact List.forall_mem_nil _
  | cons a l ih =>
    rw [Document.attributeTrees]
    exact List.forall_mem_cons.2 ⟨.node (fun ns hns => absurd hns (Option.not_mem_none ns))
      (List.forall_mem_nil _), ih (next + 1)⟩

mutual

theorem declaresIn_contentTree (scope : List Namespace) (next : NodeId) : ∀ c : Content,
    c.IsRead scope → (Document.contentTree next c).1.DeclaresIn scope
  | .text _, _ => .node nofun nofun
  | .element tag content, h => by
    obtain ⟨⟨raw, t, _, htag⟩, _, hcontent⟩ := h
    rw [Document.contentTree]
    refine .node (fun ns hns => ?_) fun t ht => ?_
    · have hns : tag.ns = some ns := hns
      rw [htag, RawTag.tagIn, Option.filter_eq_some_iff] at hns
      simpa using hns.2
    · rcases List.mem_append.1 ht with ht | ht
      · exact declaresIn_attributeTrees _ _ _ t ht
      · exact declaresIn_contentTrees _ _ content hcontent t ht

theorem declaresIn_contentTrees (scope : List Namespace) (next : NodeId) : ∀ cs : List Content,
    AreRead scope cs → ∀ t ∈ (Document.contentTrees next cs).1, t.DeclaresIn scope
  | [], _ => nofun
  | c :: cs, h => by
    rw [Document.contentTrees]
    exact List.forall_mem_cons.2 ⟨declaresIn_contentTree scope next c h.1,
      declaresIn_contentTrees scope _ cs h.2⟩

end

namespace Tree

variable {i : NodeId}

mutual

theorem exists_declaresIn_of_path? {scope : List Namespace} {path : List Tree} :
    ∀ t : Tree, t.DeclaresIn scope → t.path? i = some path → ∃ u above, path = u :: above ∧
      u.DeclaresIn (above.filterMap (·.value.info.ns) ++ scope)
  | .node j value children, h, hpath => by
    rw [path?] at hpath
    split_ifs at hpath with hj
    · exact ⟨_, [], (Option.some.inj hpath).symm, h⟩
    · obtain ⟨hns, hchildren⟩ := h
      obtain ⟨p, hp, rfl⟩ := Option.map_eq_some_iff.1 hpath
      obtain ⟨u, above, rfl, hu⟩ := exists_declaresIn_of_pathAmong? children hchildren hp
      refine ⟨u, above ++ [.node j value children], rfl, ?_⟩
      have hlast : [Tree.node j value children].filterMap (·.value.info.ns) =
          value.info.ns.toList := by
        rw [List.filterMap_cons, List.filterMap_nil, Tree.value]
        cases value.info.ns <;> rfl
      rwa [List.filterMap_append, hlast, List.append_assoc]

theorem exists_declaresIn_of_pathAmong? {scope : List Namespace} {path : List Tree} :
    ∀ ts : List Tree, (∀ t ∈ ts, t.DeclaresIn scope) → pathAmong? i ts = some path →
    ∃ u above, path = u :: above ∧ u.DeclaresIn (above.filterMap (·.value.info.ns) ++ scope)
  | [], _, hpath => nomatch hpath
  | t :: ts, h, hpath => by
    rw [List.forall_mem_cons] at h
    rw [pathAmong?] at hpath
    cases ht : t.path? i with
    | none =>
      rw [ht] at hpath
      exact exists_declaresIn_of_pathAmong? ts h.2 hpath
    | some p =>
      rw [ht] at hpath
      obtain rfl := Option.some.inj hpath
      exact exists_declaresIn_of_path? t h.1 ht

end

theorem DeclaresIn.notMem {scope : List Namespace} {t : Tree} (h : t.DeclaresIn scope)
    {ns : Namespace} (hns : t.value.info.ns = some ns) : ns ∉ scope := by
  obtain ⟨hown, _⟩ := h
  exact hown ns hns

end Tree

end Trees

namespace Document

variable {d d' d'' : Document} {i j a c p : NodeId} {ns : Namespace} {info : NodeInfo}

def DeclaresOnce (d : Document) : Prop :=
  ∀ i a ns, Relation.TransGen d.IsParent i a → (d.node i).info.ns = some ns →
    (d.node a).info.ns ≠ some ns

section Scope

variable (hd : d.Sound)

include hd

theorem Sound.mem_scope_iff :
    ns ∈ d.scope p ↔ ∃ a ∈ d.ancestors p, (d.node a).info.ns = some ns := by
  rw [scope, ancestors, List.mem_filterMap]
  cases hpath : pathAmong? p d.trees with
  | none => simp
  | some path =>
    have hnode : ∀ u ∈ path, d.node u.id = u.value := fun u hu =>
      hd.node_eq (Tree.mem_of_pathAmong? _ hpath u hu)
    constructor
    · rintro ⟨u, hu, hns⟩
      exact ⟨u.id, List.mem_map_of_mem hu, by rwa [hnode u hu]⟩
    · rintro ⟨_, hmem, hns⟩
      obtain ⟨u, hu, rfl⟩ := List.mem_map.1 hmem
      exact ⟨u, hu, by rwa [hnode u hu] at hns⟩

/-- It is enough that no node declares what is in scope at its parent. -/
theorem Sound.declaresOnce_of_scope (h : ∀ i p ns, d.IsParent i p →
    (d.node i).info.ns = some ns → ns ∉ d.scope p) : d.DeclaresOnce := by
  intro i a ns hpath hi ha
  obtain ⟨p, hparent, hpath⟩ := Relation.TransGen.head'_iff.1 hpath
  have hp := (hd.has_of_isParent hparent).2
  exact h i p ns hparent hi (hd.mem_scope_iff.2 ⟨a, (hd.mem_ancestors_iff hp).2 hpath, ha⟩)

end Scope

section Read

theorem declaresOnce_ofElement {e : Element} (h : (Content.element e.tag e.content).IsRead []) :
    (ofElement e).DeclaresOnce := by
  have hd := (whole_ofElement e).sound
  refine hd.declaresOnce_of_scope fun i p ns hparent hns => ?_
  obtain ⟨t, u, ht, hu, hchild, rfl, rfl⟩ :=
    hd.exists_of_mem_children (hd.mem_children_iff.2 hparent)
  obtain ⟨path, hpath⟩ := Option.isSome_iff_exists.1 (Tree.isSome_pathAmong? _ ht.has)
  have hchildPath := Tree.pathAmong?_child hchild _ hd.nodup ht
  rw [hpath, Option.map_some] at hchildPath
  have htrees : ∀ t ∈ (ofElement e).trees, t.DeclaresIn [] := by
    rw [trees_ofElement]
    exact List.forall_mem_singleton.2 (declaresIn_contentTree [] 0 _ h)
  obtain ⟨_, _, heq, hdeclares⟩ := Tree.exists_declaresIn_of_pathAmong? _ htrees hchildPath
  obtain ⟨rfl, rfl⟩ := List.cons.inj heq
  rw [hd.node_eq hu] at hns
  rw [scope, hpath, Option.getD_some]
  rw [List.append_nil] at hdeclares
  exact hdeclares.notMem hns

end Read

section Steps

/-- `d'` comes of `d` with all its nodes and their namespaces, and none is declared twice in `d'` if
none is in `d`. -/
structure Continues (d d' : Document) : Prop where
  whole : d'.Whole
  next_le : d.next ≤ d'.next
  ns_eq : ∀ i < d.next, (d'.node i).info.ns = (d.node i).info.ns
  once : d.DeclaresOnce → d'.DeclaresOnce

theorem Continues.trans (h : Continues d d') (h' : Continues d' d'') : Continues d d'' :=
  ⟨h'.whole, Nat.le_trans h.next_le h'.next_le, fun i hi =>
    (h'.ns_eq i (Nat.lt_of_lt_of_le hi h.next_le)).trans (h.ns_eq i hi), h'.once ∘ h.once⟩

variable (h : d.Whole)

include h

theorem Whole.continues_refl : Continues d d := ⟨h, Nat.le_refl _, fun _ _ => rfl, id⟩

theorem Whole.lt_of_isParent (hc : d.IsParent c p) : c < d.next ∧ p < d.next :=
  (h.lt_of_mem_children (h.sound.mem_children_iff.2 hc)).symm

theorem Whole.lt_of_transGen (hpath : Relation.TransGen d.IsParent i a) :
    i < d.next ∧ a < d.next := by
  obtain ⟨_, hfirst, _⟩ := Relation.TransGen.head'_iff.1 hpath
  obtain ⟨_, _, hlast⟩ := Relation.TransGen.tail'_iff.1 hpath
  exact ⟨(h.lt_of_isParent hfirst).1, (h.lt_of_isParent hlast).2⟩

theorem Whole.declaresOnce_of_children (h' : d'.Whole)
    (hchildren : ∀ p, d'.children p ⊆ d.children p)
    (hns : ∀ i < d.next, (d'.node i).info.ns = (d.node i).info.ns) (hd : d.DeclaresOnce) :
    d'.DeclaresOnce := by
  intro i a ns hpath hi
  have hkept : Relation.TransGen d.IsParent i a := Relation.TransGen.mono (fun c p hc =>
    h.sound.mem_children_iff.1 (hchildren p (h'.sound.mem_children_iff.2 hc))) i a hpath
  obtain ⟨hi', ha'⟩ := h.lt_of_transGen hkept
  rw [hns i hi'] at hi
  rw [hns a ha']
  exact hd i a ns hkept hi

theorem Whole.continues_create (info : NodeInfo) : Continues d (d.create info).1 := by
  have hns : ∀ i < d.next, ((d.create info).1.node i).info.ns = (d.node i).info.ns := fun i hi => by
    rw [node_create d info (Nat.ne_of_lt hi)]
  exact ⟨h.create info, Nat.le_succ _, hns, h.declaresOnce_of_children (h.create info)
    (fun p => by rw [h.children_create info p]; exact List.Subset.refl _) hns⟩

theorem Whole.continues_detach (i : NodeId) : Continues d (d.detach i) := by
  have hns : ∀ j < d.next, ((d.detach i).node j).info.ns = (d.node j).info.ns := fun j _ => by
    rw [h.node_detach]
  refine ⟨h.detach i, Nat.le_of_eq (next_detach d i).symm, hns,
    h.declaresOnce_of_children (h.detach i) (fun p => ?_) hns⟩
  rw [h.children_detach]
  exact List.filter_subset_self _

theorem Whole.continues_setContent (hi : i < d.next) (s : String) :
    Continues d (d.setContent i s) := by
  have hns : ∀ j < d.next, ((d.setContent i s).node j).info.ns = (d.node j).info.ns :=
    fun j _ => by
      rw [h.node_setContent i s hi]
      split_ifs <;> rfl
  refine ⟨h.setContent i s, Nat.le_refl _, hns,
    h.declaresOnce_of_children (h.setContent i s) (fun p => ?_) hns⟩
  rw [h.children_setContent]
  exact List.Subset.refl _

section Child

variable (hp : p < d.next) (info : NodeInfo)

include hp

theorem Whole.ns_child_iff (hns : info.ns = some ns) :
    ((d.addChild p info).1.node d.next).info.ns = some ns ↔
      ∀ a ∈ d.ancestors p, (d.node a).info.ns ≠ some ns := by
  have hleft : ((d.addChild p info).1.node d.next).info.ns = some ns ↔ ns ∉ d.scope p := by
    rw [h.node_child info hp]
    change info.ns.filter (· ∉ d.scope p) = some ns ↔ _
    rw [hns, Option.filter_eq_some_iff]
    simp
  rw [hleft, h.sound.mem_scope_iff]
  simp

theorem Whole.transGen_addChild
    (hpath : Relation.TransGen (d.addChild p info).1.IsParent i a) :
    Relation.TransGen d.IsParent i a ∨ i = d.next ∧ Relation.ReflTransGen d.IsParent p a := by
  have h' := h.addChild info hp
  have hstep : ∀ {c q : NodeId}, (d.addChild p info).1.IsParent c q →
      d.IsParent c q ∨ c = d.next ∧ q = p := by
    intro c q hc
    have hmem := h'.sound.mem_children_iff.2 hc
    rw [h.children_addChild info hp, List.mem_append] at hmem
    rcases hmem with hmem | hmem
    · exact .inl (h.sound.mem_children_iff.1 hmem)
    · split_ifs at hmem with hq
      · exact .inr ⟨List.mem_singleton.1 hmem, hq⟩
      · cases hmem
  have hold : ∀ {q : NodeId}, Relation.TransGen d.IsParent q a ∨
      q = d.next ∧ Relation.ReflTransGen d.IsParent p a → q < d.next →
        Relation.TransGen d.IsParent q a := fun hor hq =>
    hor.resolve_right fun hnew => Nat.ne_of_lt hq hnew.1
  induction hpath using Relation.TransGen.head_induction_on with
  | single hedge =>
    rcases hstep hedge with hedge | ⟨rfl, rfl⟩
    · exact .inl (.single hedge)
    · exact .inr ⟨rfl, .refl⟩
  | head hedge _ ih =>
    rcases hstep hedge with hedge | ⟨rfl, rfl⟩
    · exact .inl (.head hedge (hold ih (h.lt_of_isParent hedge).2))
    · exact .inr ⟨rfl, (hold ih hp).to_reflTransGen⟩

theorem Whole.continues_addChild : Continues d (d.addChild p info).1 := by
  have hkept : ∀ i < d.next, (d.addChild p info).1.node i = d.node i := fun i hi =>
    h.node_addChild info hp (Nat.ne_of_lt hi)
  refine ⟨h.addChild info hp, (next_addChild d p info).symm ▸ Nat.le_succ _, fun i hi => by
    rw [hkept i hi], fun hd i a ns hpath hi => ?_⟩
  rcases h.transGen_addChild hp info hpath with hold | ⟨rfl, habove⟩
  · obtain ⟨hi', ha'⟩ := h.lt_of_transGen hold
    rw [hkept i hi'] at hi
    rw [hkept a ha']
    exact hd i a ns hold hi
  · have hmem := (h.sound.mem_ancestors_iff ((h.has_iff p).2 hp)).2 habove
    have ha : a < d.next := by
      rcases Relation.ReflTransGen.cases_tail habove with rfl | ⟨_, _, hlast⟩
      · exact hp
      · exact (h.lt_of_isParent hlast).2
    have hown : info.ns = some ns := by
      rw [h.node_child info hp] at hi
      exact (Option.filter_eq_some_iff.1 hi).1
    rw [hkept a ha]
    exact (h.ns_child_iff hp info hown).1 hi a hmem

end Child

theorem Whole.continues_detachAll (is : List NodeId) :
    Continues d (is.foldl Document.detach d) := by
  induction is generalizing d with
  | nil => exact h.continues_refl
  | cons i is ih => exact (h.continues_detach i).trans (ih (h.detach i))

theorem Whole.continues_setText (hi : i < d.next) (s : String) : Continues d (d.setText i s) := by
  by_cases hl : (d.node i).info.location = .element
  · rw [setText_of_element hl]
    have hcleared := h.continues_detachAll (d.textsOf i)
    generalize (d.textsOf i).foldl Document.detach d = cleared at hcleared
    have hadded := hcleared.whole.continues_addChild
      (Nat.lt_of_lt_of_le hi hcleared.next_le) .forText
    refine (hcleared.trans hadded).trans (hadded.whole.continues_setContent ?_ s)
    rw [next_addChild]
    exact Nat.lt_succ_self _
  · rw [setText_of_ne hl]
    exact h.continues_setContent hi s

theorem Whole.ns_edit {e : Edit} (he : ∀ i ∈ e.nodes, i < d.next) (hj : j < d.next)
    (hmoved : ∀ p, e ≠ .appendChild p j) :
    ((d.edit e).1.node j).info.ns = (d.node j).info.ns := by
  cases e with
  | create info => exact (h.continues_create info).ns_eq j hj
  | addChild p info => exact (h.continues_addChild (he p List.mem_cons_self) info).ns_eq j hj
  | appendChild p c =>
    rw [edit, appendChild]
    split_ifs with hcyclic
    · rfl
    · obtain ⟨t, ht, rfl⟩ := ((h.has_iff c).2 (he c (by simp [Edit.nodes]))).exists_holds
      have hp := (h.has_iff p).2 (he p List.mem_cons_self)
      have hbelow : p ∉ t.numbers := fun hmem =>
        hcyclic (h.sound.mem_ancestors_of_mem_numbers ht hmem)
      have hne : j ≠ t.id := fun heq => hmoved p (heq ▸ rfl)
      exact congrArg (·.info.ns) (h.node_link ht hp hbelow hne)
  | detach i => exact (h.continues_detach i).ns_eq j hj
  | setText i s => exact (h.continues_setText (he i List.mem_cons_self) s).ns_eq j hj

end Steps

end Document

end ServiceClient.Xml
