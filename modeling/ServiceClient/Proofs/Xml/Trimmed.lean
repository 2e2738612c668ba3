import Mathlib
import ServiceClient.Proofs.Xml.Agreement
import ServiceClient.Proofs.Xml.Assembly

/-! The nodes of a parsed text. All hang on the root but for the blank texts that were taken out; in
an element the attributes come before all else, no two texts stand side by side, and no blank text
is left beside an element. -/

namespace ServiceClient.Xml

section Families

structure Node.AreTrimmed (nodes : List Node) : Prop where
  attributes_first : nodes.Pairwise fun a b =>
    b.info.location = .attribute → a.info.location = .attribute
  texts_apart : nodes.IsChain fun a b =>
    ¬ (a.info.location = .text ∧ b.info.location = .text)
  text_solid : (∃ n ∈ nodes, n.info.location = .element) →
    ∀ n ∈ nodes, n.info.location = .text → Text.trim (n.content.getD "") ≠ ""

inductive Tree.IsTrimmed (t : Tree) : Prop
  | leaf (hlocation : t.value.info.location ≠ .element) (hchildren : t.children = [])
  | element (attributes : List Attribute) (content : List Content)
      (hlocation : t.value.info.location = .element)
      (houtlines : t.children.map Tree.outline =
        attributes.map Attribute.outline ++ content.map Content.outline)
      (hapart : Apart content) (hsolid : Solid content)

mutual

theorem isTrimmed_of_outline : ∀ (t : Tree) (c : Content), t.outline = c.outline → c.IsTrimmed →
    ∀ u ∈ t.nodes, u.IsTrimmed
  | .node i value children, .text s, h, _, u, hu => by
    obtain ⟨j, value?, heq, _⟩ := Parsing.eq_leaf_of_outline h
    obtain ⟨rfl, rfl, rfl⟩ := Tree.node.inj heq
    rw [Tree.nodes, Tree.nodesAmong, List.mem_singleton] at hu
    subst hu
    exact .leaf nofun rfl
  | .node i value children, .element tag content, h, htrimmed, u, hu => by
    obtain ⟨hapart, hsolid, hcontent⟩ := htrimmed
    rw [Tree.outline, Content.outline] at h
    injection h with hinfo _ _ hchildren
    rcases Tree.mem_nodes_node hu with rfl | hu
    · rw [Parsing.outlines_eq_map, contentOutlines_eq_map] at hchildren
      refine .element tag.attributes content ?_ hchildren hapart hsolid
      rw [Tree.value, hinfo]
    · exact isTrimmed_of_outlines children tag.attributes content hchildren hcontent u hu

theorem isTrimmed_of_outlines : ∀ (ts : List Tree) (attributes : List Attribute)
    (cs : List Content), Tree.outlines ts = attributes.map Attribute.outline ++ contentOutlines cs →
      AreTrimmed cs → ∀ u ∈ Tree.nodesAmong ts, u.IsTrimmed
  | [], _, _, _, _, _, hu => nomatch hu
  | t :: ts, [], [], h, _, _, _ => nomatch h
  -- Behind the attributes, trees and content go side by side.
  | t :: ts, [], c :: cs, h, htrimmed, u, hu => by
    obtain ⟨hfirst, hrest⟩ := List.cons.inj h
    rw [Tree.nodesAmong, List.mem_append] at hu
    exact hu.elim (isTrimmed_of_outline t c hfirst htrimmed.1 u)
      (isTrimmed_of_outlines ts [] cs hrest htrimmed.2 u)
  | t :: ts, a :: attributes, cs, h, htrimmed, u, hu => by
    obtain ⟨hfirst, hrest⟩ := List.cons.inj h
    rw [Tree.nodesAmong, List.mem_append] at hu
    refine hu.elim (fun hu => ?_) (isTrimmed_of_outlines ts attributes cs hrest htrimmed u)
    obtain ⟨i, value?, rfl, _⟩ := Parsing.eq_leaf_of_outline hfirst
    rw [Tree.nodes, Tree.nodesAmong, List.mem_singleton] at hu
    subst hu
    exact .leaf (fun h => Location.noConfusion h) rfl

end

def Node.place (n : Node) : Location × String := (n.info.location, n.content.getD "")

def Outline.place (o : Outline) : Location × String := (o.info.location, o.text)

theorem place_outline (t : Tree) : t.outline.place = t.value.place := by
  cases t
  rfl

def placesOf (attributes : List Attribute) (content : List Content) : List (Location × String) :=
  attributes.map (fun a => (.attribute, a.value)) ++ content.map fun c => c.outline.place

section Places

variable {attributes : List Attribute} {content : List Content} {x : Location × String}

theorem mem_placesOf (hx : x ∈ placesOf attributes content) :
    x.1 = .attribute ∨ ∃ c ∈ content, c.outline.place = x := by
  rcases List.mem_append.1 hx with hx | hx
  · obtain ⟨a, _, rfl⟩ := List.mem_map.1 hx
    exact .inl rfl
  · exact .inr (List.mem_map.1 hx)

theorem place_ne_attribute (c : Content) : c.outline.place.1 ≠ .attribute := by
  cases c <;> exact nofun

theorem place_eq_text_iff (c : Content) : c.outline.place.1 = .text ↔ ¬ c.isElement = true := by
  cases c with
  | text s => exact iff_of_true rfl nofun
  | element tag inner => exact iff_of_false nofun fun h => h rfl

theorem attributes_first_placesOf (attributes : List Attribute) (content : List Content) :
    (placesOf attributes content).Pairwise fun a b => b.1 = .attribute → a.1 = .attribute := by
  have hcontent : ∀ b ∈ content.map (fun c => c.outline.place), b.1 ≠ .attribute := fun b hb => by
    obtain ⟨c, _, rfl⟩ := List.mem_map.1 hb
    exact place_ne_attribute c
  rw [placesOf, List.pairwise_append, List.pairwise_map]
  refine ⟨List.pairwise_of_forall_mem_list fun _ _ _ _ _ => rfl,
    List.pairwise_of_forall_mem_list fun _ _ b hb hattribute => absurd hattribute (hcontent b hb),
    fun a ha b hb hattribute => absurd hattribute (hcontent b hb)⟩

theorem texts_apart_placesOf (hapart : Apart content) (attributes : List Attribute) :
    (placesOf attributes content).IsChain fun a b => ¬ (a.1 = .text ∧ b.1 = .text) := by
  rw [placesOf, List.isChain_append, List.isChain_map, List.isChain_map]
  refine ⟨List.Pairwise.isChain (List.pairwise_of_forall_mem_list fun _ _ _ _ => nofun),
    hapart.imp fun a b hab htexts => ?_, fun a ha _ _ htexts => ?_⟩
  · rw [place_eq_text_iff, place_eq_text_iff] at htexts
    exact hab.elim htexts.1 htexts.2
  · obtain ⟨a', _, rfl⟩ := List.mem_map.1 (List.mem_of_getLast? ha)
    exact nomatch htexts.1

theorem text_solid_placesOf (hsolid : Solid content)
    (helement : ∃ e ∈ placesOf attributes content, e.1 = .element)
    (hx : x ∈ placesOf attributes content) (htext : x.1 = .text) : Text.trim x.2 ≠ "" := by
  obtain ⟨e, he, helement⟩ := helement
  obtain hattribute | ⟨c, hc, rfl⟩ := mem_placesOf he
  · rw [hattribute] at helement
    cases helement
  obtain hattribute | ⟨b, hb, rfl⟩ := mem_placesOf hx
  · rw [hattribute] at htext
    cases htext
  cases c with
  | text s => cases helement
  | element tag inner => cases b with
    | element tag' inner' => cases htext
    | text s =>
      have hany : content.any Content.isElement = true := List.any_eq_true.2 ⟨_, hc, rfl⟩
      have hblank := hsolid hany _ hb
      rw [Content.isBlankText] at hblank
      rw [ne_eq]
      change ¬ Text.trim s = ""
      rw [Text.trim_eq_empty_iff, hblank]
      exact Bool.false_ne_true

end Places

theorem Tree.IsTrimmed.areTrimmed {t : Tree} (h : t.IsTrimmed) :
    Node.AreTrimmed (t.children.map Tree.value) := by
  cases h with
  | leaf _ hchildren =>
    rw [hchildren]
    exact ⟨.nil, .nil, fun ⟨_, hn, _⟩ => nomatch hn⟩
  | element attributes content _ houtlines hapart hsolid =>
    have hplaces : (t.children.map Tree.value).map Node.place = placesOf attributes content := by
      have houtlines := congrArg (List.map Outline.place) houtlines
      rw [List.map_append, List.map_map, List.map_map, List.map_map] at houtlines
      rw [List.map_map]
      refine .trans (List.map_congr_left fun u _ => ?_) houtlines
      exact (place_outline u).symm
    have hmem : ∀ n ∈ t.children.map Tree.value, n.place ∈ placesOf attributes content :=
      fun n hn => hplaces ▸ List.mem_map_of_mem hn
    have hfirst := attributes_first_placesOf attributes content
    have hchain := texts_apart_placesOf hapart attributes
    rw [← hplaces, List.pairwise_map] at hfirst
    rw [← hplaces, List.isChain_map] at hchain
    refine ⟨hfirst, hchain, fun ⟨e, he, helement⟩ n hn htext => ?_⟩
    have htrim := text_solid_placesOf hsolid ⟨_, hmem e he, helement⟩ (hmem n hn) htext
    rwa [Node.place] at htrim

end Families

namespace Arena

def IsDetachedBlank (a : Arena) (i : NodeId) : Prop :=
  ∃ c, a.cell? i = some c ∧ c.parent = none ∧ c.children = [] ∧ c.info.location = .text ∧
    Text.trim (c.content.getD "") = ""

structure IsTrimmed (a : Arena) : Prop where
  forest : a.IsForest
  root_element : ∃ c, a.cell? a.root = some c ∧ c.info.location = .element ∧ c.parent = none
  below_root : ∃ ids, a.below a.size a.root = some ids ∧
    ∀ i < a.size, ids.count i = 1 ∨ ids.count i = 0 ∧ a.IsDetachedBlank i
  leaf : ∀ i c, a.cell? i = some c → c.info.location ≠ .element → c.children = []
  children : ∀ i < a.size, ∃ family, a.family? i = some family ∧
    Node.AreTrimmed (family.map (·.2.toNode))

end Arena

namespace Parsing

open Xml.Tree (nodesAmong)

variable {d : Document} {e : Element} {t u : Tree} {ts : List Tree}

theorem isBlankText_of_mem_nodesAmong (hts : ∀ t ∈ ts, t.IsBlankText) (hu : u ∈ nodesAmong ts) :
    u ∈ ts ∧ u.IsBlankText := by
  induction ts with
  | nil => cases hu
  | cons t ts ih =>
    obtain ⟨hfirst, hrest⟩ := List.forall_mem_cons.1 hts
    rw [nodesAmong, List.mem_append] at hu
    rcases hu with hu | hu
    · obtain ⟨i, value, children⟩ := t
      obtain rfl : children = [] := hfirst.children
      rw [Tree.nodes, nodesAmong, List.mem_singleton] at hu
      subst hu
      exact ⟨List.mem_cons_self, hfirst⟩
    · exact (ih hrest hu).imp_left (List.mem_cons_of_mem t)

theorem Finished.trees_eq (h : Finished d e) :
    ∃ loose, d.trees = loose ++ [d.rootTree] ∧ (∀ u ∈ loose, u.IsBlankText) ∧
      d.rootTree.outline = (Content.element e.tag e.content).outline := by
  obtain ⟨hwhole, loose, t, htrees, hid, hloose, houtline⟩ := h
  obtain ⟨hroot, hroot_id⟩ := hwhole.exists_rootTree
  have ht : d.Holds t :=
    Tree.mem_nodesAmong_of_mem (htrees ▸ List.mem_append_right _ List.mem_cons_self)
  obtain rfl : t = d.rootTree :=
    Tree.eq_of_id_eq hwhole.sound.nodup ht hroot (hid.trans hroot_id.symm)
  exact ⟨loose, htrees, hloose, houtline⟩

theorem Finished.holds_cases (h : Finished d e) (ht : d.Holds t) :
    t ∈ d.rootTree.nodes ∨ t.IsBlankText ∧ d.parent? t.id = none ∧ t.id ∉ d.rootTree.numbers := by
  obtain ⟨loose, htrees, hloose, -⟩ := h.trees_eq
  have hnodup := h.whole.sound.nodup
  rw [Document.Holds, htrees, Tree.nodesAmong_append, List.mem_append] at ht
  rw [htrees, Tree.numbersAmong_append, Tree.numbersAmong_singleton] at hnodup
  rcases ht with ht | ht
  · obtain ⟨hmem, hblank⟩ := isBlankText_of_mem_nodesAmong hloose ht
    refine .inr ⟨hblank, h.whole.sound.parent?_of_mem_trees ?_, fun hin => ?_⟩
    · rw [htrees]
      exact List.mem_append_left _ hmem
    · exact (List.nodup_append.1 hnodup).2.2 _ (Tree.id_mem_numbersAmong ht) _ hin rfl
  · rw [nodesAmong, nodesAmong, List.append_nil] at ht
    exact .inl ht

theorem Finished.isTrimmed_of_holds (h : Finished d e)
    (he : (Content.element e.tag e.content).IsTrimmed) (ht : d.Holds t) : t.IsTrimmed := by
  obtain ⟨_, -, -, houtline⟩ := h.trees_eq
  obtain hmem | ⟨hblank, -, -⟩ := h.holds_cases ht
  · exact isTrimmed_of_outline d.rootTree _ houtline he t hmem
  · refine .leaf ?_ hblank.children
    rw [hblank.location]
    exact nofun

theorem Finished.root_cell (h : Finished d e) : ∃ c, d.arena.cell? d.root = some c ∧
    c.info.location = .element ∧ c.parent = none := by
  obtain ⟨loose, htrees, -, houtline⟩ := h.trees_eq
  obtain ⟨hroot, hid⟩ := h.whole.exists_rootTree
  have hcell := h.whole.cell?_of_holds hroot
  have htop : d.parent? d.rootTree.id = none :=
    h.whole.sound.parent?_of_mem_trees (htrees ▸ List.mem_append_right _ List.mem_cons_self)
  have hlocation := congrArg (·.place.1) houtline
  rw [place_outline] at hlocation
  rw [hid] at hcell htop
  exact ⟨_, hcell, hlocation, htop⟩

theorem Finished.count_rootTree (h : Finished d e) (ht : d.Holds t) :
    d.rootTree.numbers.count t.id = 1 ∨
      d.rootTree.numbers.count t.id = 0 ∧ d.arena.IsDetachedBlank t.id := by
  have hnodup := (Tree.numbers_sublist_among h.whole.exists_rootTree.1).nodup h.whole.sound.nodup
  obtain hmem | ⟨hblank, hparent, hnot⟩ := h.holds_cases ht
  · exact .inl (List.count_eq_one_of_mem hnodup (Tree.id_mem_numbers hmem))
  · have hchildren : t.children.map Tree.id = [] := congrArg (List.map Tree.id) hblank.children
    refine .inr ⟨List.count_eq_zero.2 hnot, _, h.whole.cell?_of_holds ht, hparent, hchildren,
      hblank.location, ?_⟩
    rw [Text.trim_eq_empty_iff]
    exact hblank.blank

theorem Finished.isTrimmed_arena (h : Finished d e)
    (he : (Content.element e.tag e.content).IsTrimmed) : d.arena.IsTrimmed := by
  have hheld : ∀ i < d.arena.size, ∃ t, d.Holds t ∧ t.id = i := fun i hi =>
    ((h.whole.has_iff i).2 (Document.size_arena d ▸ hi)).exists_holds
  refine ⟨h.whole.isForest_arena, h.root_cell, ⟨_, h.whole.below_root, fun i hi => ?_⟩,
    fun i c hc hlocation => ?_, fun i hi => ?_⟩
  · obtain ⟨t, ht, rfl⟩ := hheld i hi
    exact h.count_rootTree ht
  · obtain ⟨t, ht, rfl⟩ := hheld i (Arena.lt_of_cell? hc)
    rw [h.whole.cell?_of_holds ht] at hc
    obtain rfl := Option.some.inj hc
    cases h.isTrimmed_of_holds he ht with
    | leaf _ hchildren => exact congrArg (List.map Tree.id) hchildren
    | element _ _ helement => exact absurd helement hlocation
  · obtain ⟨t, ht, rfl⟩ := hheld i hi
    have hvalues : (t.children.map fun u => (u.id, d.cell u.id)).map (·.2.toNode) =
        t.children.map Tree.value := by
      rw [List.map_map]
      exact List.map_congr_left fun u hu => h.whole.cell_of_holds (ht.child hu)
    refine ⟨_, h.whole.family?_of_holds ht, ?_⟩
    rw [hvalues]
    exact (h.isTrimmed_of_holds he ht).areTrimmed

end Parsing

namespace Arena

/-- Parsing comes to an end, and all nodes of what is parsed hang on the root, each once, but for the
blank texts that were taken out. -/
theorem isTrimmed_of_parse (s : Text.Octets) :
    ∃ r, parse s = some r ∧ ∀ a, r = .ok a → a.IsTrimmed := by
  have hagrees := parse_agrees s
  cases hread : Element.parse s with
  | error fault =>
    rw [hread] at hagrees
    exact ⟨_, hagrees, fun _ ha => by cases ha⟩
  | ok e =>
    rw [hread] at hagrees
    obtain ⟨d, hd, hfinished⟩ := hagrees
    refine ⟨_, hd, fun a ha => ?_⟩
    obtain rfl : d.arena = a := Except.ok.inj ha
    exact hfinished.isTrimmed_arena (Element.isTrimmed_content hread)

/-- An attribute and two elements below the root; the three blank texts around the elements have
been taken out and are still there. -/
def indented : Arena where
  root := 0
  cells := #[⟨⟨⟨"a", .element, none⟩, none, none⟩, [1, 3, 6], none⟩,
    ⟨⟨⟨"x", .attribute, none⟩, some "1", none⟩, [], some 0⟩,
    ⟨⟨.forText, some " ", none⟩, [], none⟩,
    ⟨⟨⟨"b", .element, none⟩, none, none⟩, [4], some 0⟩,
    ⟨⟨.forText, some "t&u", none⟩, [], some 3⟩,
    ⟨⟨.forText, some " ", none⟩, [], none⟩,
    ⟨⟨⟨"c", .element, none⟩, none, none⟩, [], some 0⟩,
    ⟨⟨.forText, some " ", none⟩, [], none⟩]

theorem isTrimmed_of_parse_indented :
    parse (Text.encode "<a x='1'> <b>t&amp;u</b> <c/> </a>") = some (.ok indented) ∧
      indented.IsTrimmed ∧ indented.below 8 0 = some [0, 1, 3, 4, 6] := by
  have hparse : parse (Text.encode "<a x='1'> <b>t&amp;u</b> <c/> </a>") = some (.ok indented) := by
    cbv
  obtain ⟨r, hr, htrimmed⟩ := isTrimmed_of_parse (Text.encode "<a x='1'> <b>t&amp;u</b> <c/> </a>")
  exact ⟨hparse, htrimmed indented (Option.some.inj (hr.symm.trans hparse)), by decide⟩

end Arena

end ServiceClient.Xml
