import ServiceClient.Proofs.Xml.Edit
import ServiceClient.Proofs.Xml.RoundTrip
import ServiceClient.Proofs.Xml.Shape

/-! A document that is written and parsed comes back in normal form. The form is said of trees
without numbers and knows of no octets: what each step of reading does to written content is one
step of it. -/

namespace ServiceClient.Xml

/-- A tree without the numbers of its nodes; text that was never set counts as empty. -/
inductive Outline where
  | node (info : NodeInfo) (nsPrefix : Option String) (text : String) (children : List Outline)
  deriving Repr

namespace Outline

def info : Outline → NodeInfo
  | .node info _ _ _ => info

def text : Outline → String
  | .node _ _ text _ => text

def isAt (l : Location) (o : Outline) : Bool :=
  o.info.location == l

mutual

/-- All that is written has a name for its name and no namespace but that of an element, and no two
attributes of an element share a name. What is below attributes and texts is not written. -/
def IsProper : Outline → Prop
  | .node info nsPrefix _ children =>
    match info.location with
    | .element => IsName info.name ∧ (∀ p ∈ nsPrefix, IsName p) ∧
        (∀ ns ∈ info.ns, ns.nsPrefix = "" ∨ IsName ns.nsPrefix) ∧
        ((children.filter (isAt .attribute)).map (·.info.name)).Nodup ∧ AreProper children
    | .attribute => IsName info.name ∧ info.name ≠ "xmlns" ∧ info.ns = none
    | .text => info.name = "" ∧ info.ns = none

def AreProper : List Outline → Prop
  | [] => True
  | o :: os => o.IsProper ∧ AreProper os

end

mutual

def decidableIsProper : ∀ o : Outline, Decidable o.IsProper
  | .node ⟨name, .element, ns⟩ nsPrefix _ children =>
    have := decidableAreProper children
    inferInstanceAs (Decidable (IsName name ∧ (∀ p ∈ nsPrefix, IsName p) ∧
      (∀ own ∈ ns, own.nsPrefix = "" ∨ IsName own.nsPrefix) ∧
      ((children.filter (isAt .attribute)).map (·.info.name)).Nodup ∧ AreProper children))
  | .node ⟨name, .attribute, ns⟩ _ _ _ =>
    inferInstanceAs (Decidable (IsName name ∧ name ≠ "xmlns" ∧ ns = none))
  | .node ⟨name, .text, ns⟩ _ _ _ => inferInstanceAs (Decidable (name = "" ∧ ns = none))

def decidableAreProper : ∀ os : List Outline, Decidable (AreProper os)
  | [] => isTrue trivial
  | o :: os =>
    have := decidableIsProper o
    have := decidableAreProper os
    inferInstanceAs (Decidable (o.IsProper ∧ AreProper os))

end

instance (o : Outline) : Decidable o.IsProper := decidableIsProper o

section Normal

def isEmptyText (o : Outline) : Bool :=
  o.isAt .text && o.text == ""

def isBlankText (o : Outline) : Bool :=
  o.isAt .text && Text.trim o.text == ""

def glue : Outline → Outline → Outline
  | .node info nsPrefix text children, o => .node info nsPrefix (text ++ o.text) children

def join (o : Outline) : List Outline → List Outline
  | [] => [o]
  | o' :: os => if o.isAt .text && o'.isAt .text then o.glue o' :: os else o :: o' :: os

def joinTexts (os : List Outline) : List Outline :=
  os.foldr join []

def dropBlank (os : List Outline) : List Outline :=
  if os.any (isAt .element) then os.filter (!·.isBlankText) else os

/-- Attributes first; of the rest, no empty text, and no blank text beside an element. -/
def arrange (os : List Outline) : List Outline :=
  os.filter (isAt .attribute) ++
    dropBlank ((joinTexts (os.filter (!·.isAt .attribute))).filter (!·.isEmptyText))

mutual

def normal (above : List Namespace) : Outline → Outline
  | .node info nsPrefix text children =>
    match info.location with
    | .element => .node { info with ns := info.ns.filter (· ∉ above) } nsPrefix text
        (arrange (normals (info.ns.toList ++ above) children))
    | _ => .node info nsPrefix text []

def normals (above : List Namespace) : List Outline → List Outline
  | [] => []
  | o :: os => o.normal above :: normals above os

end

end Normal

end Outline

section Outlines

mutual

def Tree.outline : Tree → Outline
  | .node _ value children =>
    .node value.info value.nsPrefix (value.content.getD "") (Tree.outlines children)

def Tree.outlines : List Tree → List Outline
  | [] => []
  | t :: ts => t.outline :: Tree.outlines ts

end

def Attribute.outline (a : Attribute) : Outline :=
  .node (.forAttribute a.name) none a.value []

mutual

def Content.outline : Content → Outline
  | .text s => .node .forText none s []
  | .element tag content => .node ⟨tag.name, .element, tag.ns⟩ tag.nsPrefix ""
      (tag.attributes.map Attribute.outline ++ contentOutlines content)

def contentOutlines : List Content → List Outline
  | [] => []
  | c :: cs => c.outline :: contentOutlines cs

end

def Shown.outline : Shown → Outline
  | .inl a => a.outline
  | .inr c => c.outline

theorem contentOutlines_eq_map (cs : List Content) :
    contentOutlines cs = cs.map Content.outline := by
  induction cs with
  | nil => rfl
  | cons c cs ih => rw [contentOutlines, ih, List.map_cons]

theorem outlines_append (ts us : List Tree) :
    Tree.outlines (ts ++ us) = Tree.outlines ts ++ Tree.outlines us := by
  induction ts with
  | nil => rfl
  | cons t ts ih => rw [List.cons_append, Tree.outlines, Tree.outlines, ih, List.cons_append]

theorem outlines_attributeTrees (next : NodeId) (l : List Attribute) :
    Tree.outlines (Document.attributeTrees next l).1 = l.map Attribute.outline := by
  induction l generalizing next with
  | nil => rfl
  | cons a l ih =>
    rw [Document.attributeTrees, Tree.outlines, ih, List.map_cons]
    rfl

mutual

theorem outline_contentTree (next : NodeId) : ∀ c : Content,
    (Document.contentTree next c).1.outline = c.outline
  | .text s => rfl
  | .element tag content => by
    rw [Document.contentTree, Tree.outline, outlines_append, outlines_attributeTrees,
      outlines_contentTrees _ content, Content.outline]
    rfl

theorem outlines_contentTrees (next : NodeId) : ∀ cs : List Content,
    Tree.outlines (Document.contentTrees next cs).1 = contentOutlines cs
  | [] => rfl
  | c :: cs => by
    rw [Document.contentTrees, Tree.outlines, outline_contentTree next c,
      outlines_contentTrees _ cs, contentOutlines]

end

end Outlines

section Arranging

open Outline (isAt join joinTexts dropBlank arrange)

theorem joinTexts_cons (o : Outline) (os : List Outline) :
    joinTexts (o :: os) = join o (joinTexts os) := rfl

theorem join_text_text (s t : String) (os : List Outline) :
    join (Content.text s).outline ((Content.text t).outline :: os) =
      (Content.text (s ++ t)).outline :: os := rfl

theorem glue_text (s : String) (o : Outline) :
    (Content.text s).outline.glue o = (Content.text (s ++ o.text)).outline := rfl

theorem joinTexts_text_text (s t : String) (os : List Outline) :
    joinTexts ((Content.text s).outline :: (Content.text t).outline :: os) =
      joinTexts ((Content.text (s ++ t)).outline :: os) := by
  rw [joinTexts_cons, joinTexts_cons, joinTexts_cons]
  cases joinTexts os with
  | nil => rfl
  | cons o os =>
    have hboth : ∀ u, ((Content.text u).outline.isAt .text && o.isAt .text) = o.isAt .text :=
      fun _ => rfl
    rw [join, join, hboth, hboth]
    split_ifs
    · rw [glue_text, glue_text, join_text_text, String.append_assoc]
    · exact join_text_text s t (o :: os)

theorem joinTexts_element {o : Outline} (ho : o.isAt .text = false) (os : List Outline) :
    joinTexts (o :: os) = o :: joinTexts os := by
  rw [joinTexts_cons]
  cases joinTexts os with
  | nil => rfl
  | cons o' os => rw [join, ho, Bool.false_and, if_neg Bool.false_ne_true]

theorem joinTexts_text_element (s : String) {o : Outline} (ho : o.isAt .text = false)
    (os : List Outline) : joinTexts ((Content.text s).outline :: o :: os) =
      (Content.text s).outline :: o :: joinTexts os := by
  rw [joinTexts_cons, joinTexts_element ho, join, ho, Bool.and_false, if_neg Bool.false_ne_true]

def gathered (content : List Content) : List Outline :=
  (joinTexts (content.map Content.outline)).filter (!·.isEmptyText)

theorem gathered_text_text (s t : String) (content : List Content) :
    gathered (.text s :: .text t :: content) = gathered (.text (s ++ t) :: content) := by
  rw [gathered, List.map_cons, List.map_cons, joinTexts_text_text, ← List.map_cons, gathered]

theorem gathered_element (tag : Tag) (inner content : List Content) :
    gathered (.element tag inner :: content) =
      (Content.element tag inner).outline :: gathered content := by
  rw [gathered, List.map_cons, joinTexts_element rfl, List.filter_cons_of_pos rfl, gathered]

theorem gathered_text_element (s : String) (tag : Tag) (inner content : List Content) :
    gathered (.text s :: .element tag inner :: content) =
      gathered [.text s] ++ (Content.element tag inner).outline :: gathered content := by
  rw [gathered, List.map_cons, List.map_cons, joinTexts_text_element s rfl, List.filter_cons,
    List.filter_cons_of_pos rfl, gathered, gathered, List.map_singleton]
  change _ = List.filter _ [_] ++ _
  rw [List.filter_cons, List.filter_nil]
  split_ifs <;> rfl

theorem gathered_empty (content : List Content) :
    gathered (.text "" :: content) = gathered content := by
  cases content with
  | nil => rfl
  | cons c cs => cases c with
    | text t => rw [gathered_text_text, String.empty_append]
    | element tag inner =>
      rw [gathered_text_element, gathered_element]
      rfl

theorem gathered_singleton (s : String) :
    gathered [.text s] = (push s []).map Content.outline := by
  by_cases hs : s = ""
  · rw [hs]
    rfl
  · have hkept : ((Content.text s).outline.isEmptyText) = false := by
      simpa [Outline.isEmptyText, Outline.text, Content.outline] using fun _ => hs
    rw [push_of_ne hs]
    change List.filter _ [_] = _
    rw [List.filter_cons_of_pos (by rw [hkept]; rfl)]
    rfl

theorem push_eq_append (s : String) {before : List Content}
    (hbefore : ∀ c ∈ before.head?, c.isElement = true) : push s before = push s [] ++ before := by
  by_cases hs : s = ""
  · rw [hs, push_empty, push_empty, List.nil_append]
  · rw [push_of_ne hs, push_of_ne hs]
    cases before with
    | nil => rfl
    | cons c cs => cases c with
      | text t => cases hbefore _ rfl
      | element tag inner => rfl

theorem reverse_push_nil (s : String) : (push s []).reverse = push s [] := by
  by_cases hs : s = ""
  · rw [hs, push_empty, List.reverse_nil]
  · rw [push_of_ne hs]
    rfl

theorem foldl_pile (content : List Content) (s : String) (before : List Content)
    (hbefore : ∀ c ∈ before.head?, c.isElement = true) :
    (content.foldl pile (push s before)).reverse.map Content.outline =
      before.reverse.map Content.outline ++ gathered (.text s :: content) := by
  induction content generalizing s before with
  | nil =>
    rw [List.foldl_nil, push_eq_append s hbefore, List.reverse_append, List.map_append,
      reverse_push_nil, gathered_singleton]
  | cons c cs ih =>
    rw [List.foldl_cons]
    cases c with
    | text t => rw [pile, push_push, ih (s ++ t) before hbefore, gathered_text_text]
    | element tag inner =>
      -- No text grows beyond an element: behind it an empty one starts.
      have hrest := ih "" (.element tag inner :: push s before) (by simp [Content.isElement])
      rw [push_empty, gathered_empty] at hrest
      rw [pile, hrest, gathered_text_element, gathered_singleton, push_eq_append s hbefore,
        List.reverse_cons, List.reverse_append, reverse_push_nil]
      simp only [List.map_append, List.append_assoc, List.map_singleton, List.singleton_append]

theorem outline_gather (content : List Content) :
    (gather content).map Content.outline = gathered content := by
  have hfold := foldl_pile content "" [] nofun
  rwa [push_empty, gathered_empty] at hfold

theorem outline_dropIndentation (content : List Content) :
    (dropIndentation content).map Content.outline =
      dropBlank (content.map Content.outline) := by
  have helement : isAt .element ∘ Content.outline = Content.isElement := by
    funext c
    cases c <;> rfl
  have hblank : (fun o : Outline => !o.isBlankText) ∘ Content.outline = (!·.isBlankText) := by
    funext c
    cases c with
    | text s =>
      have htrim : (Text.trim s == "") = Text.allBlank s := by
        rw [Bool.eq_iff_iff, beq_iff_eq, Text.trim_eq_empty_iff]
      rw [Function.comp_apply, Content.isBlankText, ← htrim]
      rfl
    | element tag inner => rfl
  rw [dropBlank, List.any_map, helement, dropIndentation, List.filter_map, hblank]
  split_ifs <;> rfl

theorem filter_attribute (l : List Shown) :
    (l.map Shown.outline).filter (isAt .attribute) = (attributesOf l).map Attribute.outline := by
  induction l with
  | nil => rfl
  | cons x l ih =>
    cases x with
    | inl a =>
      rw [List.map_cons, List.filter_cons_of_pos rfl, ih]
      rfl
    | inr c =>
      have hc : ¬ isAt .attribute c.outline = true := by cases c <;> exact Bool.false_ne_true
      rw [List.map_cons, Shown.outline, List.filter_cons_of_neg hc, ih]
      rfl

theorem filter_not_attribute (l : List Shown) :
    (l.map Shown.outline).filter (!·.isAt .attribute) = (contentOf l).map Content.outline := by
  induction l with
  | nil => rfl
  | cons x l ih =>
    cases x with
    | inl a =>
      rw [List.map_cons, Shown.outline, List.filter_cons_of_neg Bool.false_ne_true, ih]
      rfl
    | inr c =>
      have hc : (!c.outline.isAt .attribute) = true := by cases c <;> rfl
      rw [List.map_cons, Shown.outline, List.filter_cons, if_pos hc, ih]
      rfl

theorem arrange_outline (l : List Shown) : arrange (l.map Shown.outline) =
    (attributesOf l).map Attribute.outline ++
      (dropIndentation (gather (contentOf l))).map Content.outline := by
  rw [arrange, filter_attribute, filter_not_attribute, outline_dropIndentation, outline_gather]
  rfl

theorem attributesOf_settle (scope : List Namespace) (l : List Shown) :
    attributesOf (l.map (Shown.settle scope)) = attributesOf l := by
  rw [attributesOf, List.filterMap_map, attributesOf]
  exact List.filterMap_congr fun x _ => by cases x <;> rfl

theorem contentOf_settle (scope : List Namespace) (l : List Shown) :
    contentOf (l.map (Shown.settle scope)) = settleAll scope (contentOf l) := by
  rw [settleAll_eq_map]
  induction l with
  | nil => rfl
  | cons x l ih =>
    cases x with
    | inl a => exact ih
    | inr c => rw [List.map_cons, Shown.settle, contentOf_inr, ih, contentOf_inr, List.map_cons]

end Arranging

section Normal

/-- Only attributes and texts have a text of their own, and only elements a prefix. -/
structure Node.IsRegular (v : Node) : Prop where
  content : v.info.location = .element → v.content = none
  nsPrefix : v.info.location ≠ .element → v.nsPrefix = none

variable {scope above : List Namespace}

theorem filter_scope (h : ∀ ns, ns ∈ scope ↔ ns ∈ above) (ns : Option Namespace) :
    ns.filter (· ∉ scope) = ns.filter (· ∉ above) := by
  cases ns with
  | none => rfl
  | some ns => simp only [Option.filter, h]

theorem mem_scope_within (h : ∀ ns, ns ∈ scope ↔ ns ∈ above) (tag : Tag) (ns : Namespace) :
    ns ∈ (tag.within scope).scope scope ↔ ns ∈ tag.ns.toList ++ above := by
  rw [Tag.scope, Tag.within, mem_filter_append_iff, List.mem_append, List.mem_append, h]

mutual

theorem normal_outline (scope above : List Namespace) (h : ∀ ns, ns ∈ scope ↔ ns ∈ above) :
    ∀ t : Tree, t.outline.IsProper → (∀ u ∈ t.nodes, u.value.IsRegular) →
      t.outline.normal above = (t.shown.settle scope).outline
  | .node i ⟨⟨name, location, ns⟩, text, nsPrefix⟩ children, hproper, hregular => by
    have hself := hregular _ (Tree.mem_nodes_self _)
    cases location with
    | «attribute» =>
      obtain ⟨_, _, rfl⟩ := hproper
      obtain rfl : nsPrefix = none := hself.nsPrefix nofun
      rfl
    | text =>
      obtain ⟨rfl, rfl⟩ := hproper
      obtain rfl : nsPrefix = none := hself.nsPrefix nofun
      rfl
    | element =>
      obtain ⟨_, _, _, _, hchildren⟩ := hproper
      obtain rfl : text = none := hself.content rfl
      -- The scope lacks what has been left out, but never something that is not above as well.
      have hinner := normals_outlines _ _
        (mem_scope_within h (Tree.tag ⟨⟨name, .element, ns⟩, none, nsPrefix⟩ children)) children
        hchildren fun u hu => hregular u (List.mem_cons_of_mem _ hu)
      rw [Tree.outline, Outline.normal]
      dsimp only
      rw [Tree.tag] at hinner
      dsimp only at hinner
      rw [hinner, ← List.map_map, ← List.map_map, arrange_outline, attributesOf_settle,
        contentOf_settle, ← attributes_eq, ← toContents_eq, Tree.shown]
      dsimp only
      rw [Shown.settle, settle_element, Shown.outline, Content.outline, contentOutlines_eq_map,
        settleContent, ← filter_scope h]
      rfl

theorem normals_outlines (scope above : List Namespace) (h : ∀ ns, ns ∈ scope ↔ ns ∈ above) :
    ∀ ts : List Tree, Outline.AreProper (Tree.outlines ts) →
      (∀ u ∈ Tree.nodesAmong ts, u.value.IsRegular) →
      Outline.normals above (Tree.outlines ts) =
        ts.map (Shown.outline ∘ Shown.settle scope ∘ Tree.shown)
  | [], _, _ => rfl
  | t :: ts, hproper, hregular => by
    rw [Tree.nodesAmong, List.forall_mem_append] at hregular
    rw [Tree.outlines, Outline.normals, normal_outline scope above h t hproper.1 hregular.1,
      normals_outlines scope above h ts hproper.2 hregular.2, List.map_cons]
    rfl

end

theorem attribute_names (ts : List Tree) :
    ((Tree.outlines ts).filter (Outline.isAt .attribute)).map (·.info.name) =
      (attributesOf (ts.map Tree.shown)).map Attribute.name := by
  induction ts with
  | nil => rfl
  | cons t ts ih =>
    obtain ⟨i, ⟨⟨name, location, ns⟩, text, nsPrefix⟩, children⟩ := t
    rw [Tree.outlines, List.map_cons]
    cases location with
    | «attribute» =>
      rw [List.filter_cons_of_pos rfl, List.map_cons, ih]
      rfl
    | _ =>
      rw [List.filter_cons_of_neg Bool.false_ne_true, ih]
      rfl

mutual

theorem isPlain_shown : ∀ t : Tree, t.outline.IsProper → t.shown.IsPlain
  | .node i ⟨⟨name, location, ns⟩, text, nsPrefix⟩ children, hproper => by
    cases location with
    | «attribute» => exact ⟨hproper.1, hproper.2.1⟩
    | text => exact trivial
    | element =>
      obtain ⟨hname, hprefix, hns, hdistinct, hchildren⟩ := hproper
      rw [attribute_names] at hdistinct
      have htidy : Tidy (children.map Tree.shown) :=
        ⟨List.forall_mem_map.2 (arePlain_shown children hchildren), hdistinct⟩
      rw [Tree.shown]
      dsimp only
      rw [Tree.tag, attributes_eq, toContents_eq]
      exact ⟨⟨hname, hprefix, hns, fun a ha => htidy.plain (.inl a) (mem_attributesOf.1 ha),
        htidy.distinct⟩, htidy.arePlain⟩

theorem arePlain_shown : ∀ ts : List Tree, Outline.AreProper (Tree.outlines ts) →
    ∀ t ∈ ts, t.shown.IsPlain
  | [], _ => nofun
  | t :: ts, hproper =>
    List.forall_mem_cons.2 ⟨isPlain_shown t hproper.1, arePlain_shown ts hproper.2⟩

end

end Normal

namespace Document

variable {d d' : Document}

section Regular

def IsRegular (d : Document) : Prop :=
  ∀ l ∈ d.labels, l.2.IsRegular

theorem IsRegular.relabel {f : Node → Node} (hd : d.IsRegular) {i : NodeId}
    (hf : ∀ v, (i, v) ∈ d.labels → v.IsRegular → (f v).IsRegular) :
    ∀ l ∈ d.labels.map (Tree.relabel i f), l.2.IsRegular := by
  rw [List.forall_mem_map]
  rintro ⟨j, v⟩ hl
  rw [Tree.relabel]
  dsimp only
  split_ifs with hj
  · exact hf v (hj ▸ hl) (hd _ hl)
  · exact hd _ hl

theorem Move.isRegular (hmove : Move d d') (h : d.Whole) (hd : d.IsRegular) : d'.IsRegular := by
  cases hmove with
  | create info =>
    intro l hl
    change l ∈ Tree.labelsAmong (.node d.next (.ofInfo info) [] :: d.trees) at hl
    rw [Tree.labelsAmong_cons, List.mem_append, Tree.labels_node] at hl
    rcases hl with hl | hl
    · rw [List.mem_singleton.1 hl]
      exact ⟨fun _ => rfl, fun _ => rfl⟩
    · exact hd l hl
  | link ht hp hbelow =>
    obtain ⟨scope, hlabels⟩ := h.sound.labels_link ht hp hbelow
    have hleft : ∀ v : Node, v.IsRegular → (leaveScope scope v).IsRegular := fun v hv =>
      ⟨hv.content, hv.nsPrefix⟩
    exact fun l hl => hd.relabel (fun v _ => hleft v) l (hlabels.mem_iff.1 hl)
  | detach i => exact fun l hl => hd l ((h.sound.labels_detach i).mem_iff.1 hl)
  | @setContent i hi s =>
    rw [IsRegular, h.sound.labels_setContent]
    refine hd.relabel fun v hmem hv => ⟨fun helement => ?_, hv.nsPrefix⟩
    rw [h.sound.node_of_mem_labels hmem] at hi
    exact absurd helement hi

theorem Moves.isRegular (hmoves : Moves d d') (h : d.Whole) (hd : d.IsRegular) :
    d'.IsRegular := by
  induction hmoves with
  | refl => exact hd
  | tail hmoves hmove ih => exact hmove.isRegular (Moves.whole hmoves h) ih

theorem isRegular_new (root : NodeInfo) : (new root).IsRegular := by
  intro l hl
  change l ∈ Tree.labelsAmong [.node 0 (.ofInfo root) []] at hl
  rw [Tree.labelsAmong_singleton, Tree.labels_node] at hl
  rw [List.mem_singleton.1 hl]
  exact ⟨fun _ => rfl, fun _ => rfl⟩

theorem isRegular_attributeTrees (next : NodeId) (l : List Attribute) :
    ∀ u ∈ Tree.nodesAmong (attributeTrees next l).1, u.value.IsRegular := by
  induction l generalizing next with
  | nil => exact fun u hu => absurd hu List.not_mem_nil
  | cons a l ih =>
    rw [attributeTrees, Tree.nodesAmong, List.forall_mem_append]
    refine ⟨fun u hu => ?_, ih (next + 1)⟩
    rw [Tree.nodes, Tree.nodesAmong, List.mem_singleton] at hu
    rw [hu]
    exact ⟨fun h => Location.noConfusion h, fun _ => rfl⟩

mutual

theorem isRegular_contentTree (next : NodeId) : ∀ c : Content,
    ∀ u ∈ (contentTree next c).1.nodes, u.value.IsRegular
  | .text s, u, hu => by
    rw [contentTree, Tree.nodes, Tree.nodesAmong, List.mem_singleton] at hu
    rw [hu]
    exact ⟨nofun, fun _ => rfl⟩
  | .element tag content, u, hu => by
    rw [contentTree] at hu
    rcases Tree.mem_nodes_node hu with rfl | hu
    · exact ⟨fun _ => rfl, fun h => absurd rfl h⟩
    · rw [Tree.nodesAmong_append, List.mem_append] at hu
      exact hu.elim (isRegular_attributeTrees _ _ u) (isRegular_contentTrees _ content u)

theorem isRegular_contentTrees (next : NodeId) : ∀ cs : List Content,
    ∀ u ∈ Tree.nodesAmong (contentTrees next cs).1, u.value.IsRegular
  | [], _, hu => nomatch hu
  | c :: cs, u, hu => by
    rw [contentTrees, Tree.nodesAmong, List.mem_append] at hu
    exact hu.elim (isRegular_contentTree next c u) (isRegular_contentTrees _ cs u)

end

theorem isRegular_ofElement (e : Element) : (ofElement e).IsRegular := by
  intro l hl
  obtain ⟨t, ht, rfl⟩ := mem_labels_iff.1 hl
  rw [Holds, trees_ofElement, Tree.nodesAmong, Tree.nodesAmong, List.append_nil] at ht
  exact isRegular_contentTree 0 _ t ht

end Regular

section Normal

def Built (d : Document) : Prop :=
  (∃ root, Reached (new root) d) ∨ ∃ s start, parse s = .ok start ∧ Reached start d

theorem Built.whole_isRegular (h : d.Built) : d.Whole ∧ d.IsRegular := by
  have hreached : ∀ start, Reached start d → start.Whole → start.IsRegular →
      d.Whole ∧ d.IsRegular := fun start hreached hwhole hregular =>
    ⟨hreached.whole hwhole, (hreached.moves hwhole).isRegular hwhole hregular⟩
  rcases h with ⟨root, h⟩ | ⟨s, start, hparse, h⟩
  · exact hreached _ h (whole_new root) (isRegular_new root)
  · obtain ⟨e, _, rfl⟩ := exists_ofElement_of_parse hparse
    exact hreached _ h (whole_ofElement e) (isRegular_ofElement e)

/-- Writing a document and parsing what was written gives its normal form. -/
theorem exists_parse_octets (h : d.Built) (hroot : (d.node d.root).info.location = .element)
    (hproper : d.rootTree.outline.IsProper) : ∃ d', parse d.octets = .ok d' ∧
      d'.rootTree.outline = d.rootTree.outline.normal [] := by
  obtain ⟨hwhole, hregular⟩ := h.whole_isRegular
  obtain ⟨hholds, hid⟩ := hwhole.exists_rootTree
  rw [← hid, hwhole.sound.node_eq hholds] at hroot
  have hnodes : ∀ u ∈ d.rootTree.nodes, u.value.IsRegular := fun u hu =>
    hregular _ (mem_labels_iff.2 ⟨u, (Tree.nodes_sublist_among _ hholds).subset hu, rfl⟩)
  have hnormal := normal_outline [] [] (fun _ => Iff.rfl) d.rootTree hproper hnodes
  have hplain := isPlain_shown d.rootTree hproper
  rw [octets, toElement, hnormal]
  generalize d.rootTree = t at hroot hplain
  obtain ⟨i, value, children⟩ := t
  rw [Tree.value] at hroot
  rw [shown_of_element children hroot] at hplain ⊢
  refine ⟨_, parse_of_parse (parse_octets hplain.1 hplain.2), ?_⟩
  rw [rootTree_ofElement, outline_contentTree]
  rfl

def mixedEdits : List Edit :=
  [.create (.forElement "P"), .addChild 1 ⟨"C", .element, some ⟨"", "u"⟩⟩, .addChild 0 .forText,
    .setText 3 "a", .addChild 0 (.forAttribute "k"), .addChild 0 .forText, .setText 5 "<b",
    .appendChild 0 1, .addChild 0 .forText, .setText 6 " "]

def mixed : Document :=
  mixedEdits.foldl (fun d e => (d.edit e).1) (new ⟨"A", .element, some ⟨"", "u"⟩⟩)

theorem exists_parse_octets_mixed : mixed.Built ∧ mixed.rootTree.outline.IsProper ∧
    ∃ d, parse mixed.octets = .ok d ∧
      d.rootTree.outline = .node ⟨"A", .element, some ⟨"", "u"⟩⟩ none "" [
        .node (.forAttribute "k") none "" [], .node .forText none "a<b" [],
        .node (.forElement "P") none "" [.node (.forElement "C") none "" []]] := by
  have hreached : Reached (new ⟨"A", .element, some ⟨"", "u"⟩⟩) mixed :=
    .edit (.edit (.edit (.edit (.edit (.edit (.edit (.edit (.edit (.edit .start
      (by decide)) (by decide)) (by decide)) (by decide)) (by decide)) (by decide)) (by decide))
      (by decide)) (by decide)) (by decide)
  have hbuilt : mixed.Built := .inl ⟨_, hreached⟩
  have hproper : mixed.rootTree.outline.IsProper := by decide
  exact ⟨hbuilt, hproper, exists_parse_octets hbuilt (by decide) hproper⟩

end Normal

end Document

end ServiceClient.Xml
