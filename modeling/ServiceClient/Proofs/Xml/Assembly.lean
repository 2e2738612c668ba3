import ServiceClient.Proofs.Xml.Normal
import ServiceClient.Proofs.Xml.Open
import ServiceClient.Proofs.Xml.Output

/-! Parsing into an array of nodes. Each event does to the nodes what it does to the element that is
read: the open elements are those that are open there, with the same attributes and content. What
has been taken out between elements stays as a blank text without a parent. -/

namespace ServiceClient.Xml

open Xml.Tree (numbersAmong)
open Text (Octets)

structure Tree.IsBlankText (t : Tree) : Prop where
  location : t.value.info.location = .text
  blank : Text.allBlank (t.value.content.getD "") = true
  children : t.children = []

structure Open.Shows (o : Open) (f : Frame) : Prop where
  value : o.value = ⟨⟨f.tag.name, .element, f.tag.ns⟩, none, f.tag.nsPrefix⟩
  children : Tree.outlines o.children =
    f.tag.attributes.map Attribute.outline ++ contentOutlines f.content.reverse

namespace Parsing

open Builder (attach)

variable {d : Document} {loose : List Tree} {o : Open} {around : List Open} {f : Frame}
  {frames : List Frame} {b : Builder} {progress : Progress} {event : Event}

/-- The nodes that are kept are those of the element as far as it has been read. -/
inductive Assembles : Document → Progress → Builder → Prop
  | start : Assembles ⟨[], 0, 0⟩ ([], false) Builder.start
  | within {d : Document} {loose : List Tree} {o : Open} {around : List Open} {f : Frame}
      {frames : List Frame} (h : d.IsOpen loose o around) (hloose : ∀ t ∈ loose, t.IsBlankText)
      (hshows : List.Forall₂ Open.Shows (o :: around) (f :: frames)) :
      Assembles d (o.id :: around.map Open.id, true) ⟨f :: frames, none⟩
  | done {d : Document} {loose : List Tree} {t : Tree} {e : Element} (h : d.Whole)
      (htrees : d.trees = loose ++ [t]) (hroot : t.id = d.root)
      (hloose : ∀ t ∈ loose, t.IsBlankText)
      (hshows : t.outline = (Content.element e.tag e.content).outline) :
      Assembles d ([], true) ⟨[], some e⟩

def Agrees (r : Option (Except XmlError Progress × Arena)) : Except XmlError Builder → Prop
  | .ok b => ∃ d progress, r = some (.ok progress, d.arena) ∧ Assembles d progress b
  | .error e => ∃ a, r = some (.error e, a)

/-- A new element is open inside the ones that were, unless its tag or its place is at fault. -/
def Opens (r : Option (Except XmlError NodeId × Arena)) (stack : List NodeId)
    (frames : List Frame) : Except XmlError Tag → Prop
  | .ok tag => ∃ (d : Document) (loose : List Tree) (o : Open) (around : List Open),
      r = some (.ok o.id, d.arena) ∧ around.map Open.id = stack ∧ d.IsOpen loose o around ∧
      (∀ t ∈ loose, t.IsBlankText) ∧ List.Forall₂ Open.Shows (o :: around) (⟨tag, []⟩ :: frames)
  | .error e => ∃ a, r = some (.error e, a)

section Tags

theorem within_nil (tag : Tag) : tag.within [] = tag := by
  obtain ⟨name, nsPrefix, ns, attributes⟩ := tag
  cases ns with
  | none => rfl
  | some ns => simp [Tag.within, Option.filter]

theorem readTag_within (scope : List Namespace) (raw : Octets) :
    readTag scope raw = (readTag [] raw).map (Tag.within scope) := by
  rw [readTag_eq, readTag_eq]
  cases RawTag.read raw with
  | error e => rfl
  | ok t =>
    have hfilter : ∀ ns : Option Namespace, (ns.filter (· ∉ [])).filter (· ∉ scope) =
        ns.filter (· ∉ scope) := fun ns => by
      cases ns with
      | none => rfl
      | some ns => simp [Option.filter]
    rw [Except.map, Except.map, Except.map, RawTag.tagIn, RawTag.tagIn, Tag.within, hfilter]

theorem values_of_shows {os : List Open} {fs : List Frame} (h : List.Forall₂ Open.Shows os fs) :
    (os.map Open.value).filterMap (·.info.ns) = fs.filterMap (·.tag.ns) := by
  induction h with
  | nil => rfl
  | cons hshows _ ih =>
    rw [List.map_cons, List.filterMap_cons, List.filterMap_cons, ih, hshows.value]

theorem scope_eq (h : d.IsOpen loose o around)
    (hshows : List.Forall₂ Open.Shows (o :: around) (f :: frames)) (root : Option Element) :
    d.scope o.id = (Builder.mk (f :: frames) root).scope := by
  rw [h.scope, Builder.scope, ← values_of_shows hshows]
  rfl

theorem addAttributes_open (h : d.IsOpen loose o around) (attributes : List Attribute) :
    ∃ (d' : Document) (ts : List Tree),
      addAttributes o.id attributes d.arena = some ((), d'.arena) ∧
      d'.IsOpen loose ⟨o.id, o.value, o.children ++ ts⟩ around ∧
      Tree.outlines ts = attributes.map Attribute.outline := by
  induction attributes generalizing d o with
  | nil =>
    refine ⟨d, [], rfl, ?_, rfl⟩
    rwa [List.append_nil]
  | cons a attributes ih =>
    obtain ⟨d₁, hadded, -, hopen⟩ := h.addValue (.forAttribute a.name) rfl a.value
    obtain ⟨d', ts, hmore, hall, houtlines⟩ := ih hopen
    refine ⟨d', .node d.next ⟨.forAttribute a.name, some a.value, none⟩ [] :: ts, ?_, ?_, ?_⟩
    · change (Handling.addValue o.id (.forAttribute a.name) a.value >>= fun _ =>
        addAttributes o.id attributes) d.arena = _
      rw [bind_of_some hadded]
      exact hmore
    · rw [List.append_cons]
      exact hall
    · rw [Tree.outlines, houtlines, List.map_cons]
      rfl

theorem opens_of_place {raw : Octets} {parent : Option NodeId} {hasRoot : Bool} {a a' : Arena}
    {i : NodeId} {tag : Tag} {ns : Option Namespace} (hread : readTag [] raw = .ok tag)
    (hcreate : createElement tag a = some (i, a'))
    (hplace : place i parent hasRoot a' = some (.ok (), d.arena))
    (h : d.IsOpen loose ⟨i, ⟨⟨tag.name, .element, ns⟩, none, tag.nsPrefix⟩, []⟩ around)
    (hloose : ∀ t ∈ loose, t.IsBlankText) (hshows : List.Forall₂ Open.Shows around frames) :
    Opens (openElement raw parent hasRoot a) (around.map Open.id) frames
      (.ok { tag with ns := ns }) := by
  obtain ⟨d', ts, hadded, hopen, houtlines⟩ := addAttributes_open h tag.attributes
  refine ⟨d', loose, _, around, ?_, rfl, hopen, hloose, .cons ⟨rfl, ?_⟩ hshows⟩
  · rw [openElement, hread, bind_of_some_ok (a := tag) rfl, bind_of_some_ok (lift_of_some hcreate),
      bind_of_some_ok hplace, bind_of_some_ok (lift_of_some hadded)]
    rfl
  · rw [List.nil_append, houtlines]
    exact (List.append_nil _).symm

theorem openElement_of_error {raw : Octets} {e : XmlError} (hread : readTag [] raw = .error e)
    (parent : Option NodeId) (hasRoot : Bool) (a : Arena) :
    openElement raw parent hasRoot a = some (.error e, a) := by
  rw [openElement, hread, bind_of_some_error (e := e) rfl]

theorem openTag_of_no_root {raw : Octets} (h : ¬ (b.frames.isEmpty ∧ b.root.isSome)) :
    b.openTag raw = (readTag [] raw).map (Tag.within b.scope) := by
  rw [Builder.openTag, readTag_within]
  simp only [if_neg h]
  cases readTag [] raw <;> rfl

theorem openTag_of_root (raw : Octets) (e : Element) : (Builder.mk [] (some e)).openTag raw =
    (readTag [] raw).bind fun _ => .error (.malformed .multipleRoots) := rfl

theorem opens (h : Assembles d progress b) (raw : Octets) :
    (∀ tag, b.openTag raw = .ok tag → b.root = none) ∧ Opens
      (openElement raw progress.1.head? progress.2 d.arena) progress.1 b.frames (b.openTag raw) := by
  cases h with
  | start =>
    refine ⟨fun _ _ => rfl, ?_⟩
    rw [openTag_of_no_root (by decide)]
    cases hread : readTag [] raw with
    | error e => exact ⟨_, openElement_of_error hread _ _ _⟩
    | ok tag =>
      have hopen : Document.IsOpen
          ⟨[.node 0 ⟨⟨tag.name, .element, tag.ns⟩, none, tag.nsPrefix⟩ []], 0, 1⟩ []
          ⟨0, ⟨⟨tag.name, .element, tag.ns⟩, none, tag.nsPrefix⟩, []⟩ [] :=
        ⟨⟨.refl _, Nat.zero_lt_one⟩, rfl, rfl⟩
      rw [Except.map, show Builder.start.scope = [] from rfl, within_nil]
      exact opens_of_place hread rfl rfl hopen (List.forall_mem_nil _) .nil
  | @within d loose o around f frames h hloose hshows =>
    refine ⟨fun _ _ => rfl, ?_⟩
    rw [openTag_of_no_root (by simp)]
    cases hread : readTag [] raw with
    | error e => exact ⟨_, openElement_of_error hread _ _ _⟩
    | ok tag =>
      obtain ⟨d', hlinked, hopen⟩ := h.enter ⟨⟨tag.name, .element, tag.ns⟩, none, tag.nsPrefix⟩
      have hplaced : place d.next (some o.id) true
          (d.sprout ⟨⟨tag.name, .element, tag.ns⟩, none, tag.nsPrefix⟩).arena =
            some (.ok (), d'.arena) := lift_of_some hlinked
      rw [scope_eq h hshows none] at hopen
      exact opens_of_place hread (h.whole.createElement_arena tag) hplaced hopen hloose hshows
  | @done d loose t e h htrees hroot hloose hshows =>
    rw [openTag_of_root]
    cases hread : readTag [] raw with
    | error fault =>
      refine ⟨fun _ htag => ?_, _, openElement_of_error hread _ _ _⟩
      cases htag
    | ok tag =>
      -- A second root is made before it is refused.
      have hrun : openElement raw none true d.arena = some (.error (.malformed .multipleRoots),
          (d.sprout ⟨⟨tag.name, .element, tag.ns⟩, none, tag.nsPrefix⟩).arena) := by
        rw [openElement, hread, bind_of_some_ok (a := tag) rfl,
          bind_of_some_ok (lift_of_some (h.createElement_arena tag))]
        exact bind_of_some_error rfl
      refine ⟨fun _ htag => ?_, _, hrun⟩
      cases htag

end Tags

section Texts

theorem outlines_eq_map (ts : List Tree) : Tree.outlines ts = ts.map Tree.outline := by
  induction ts with
  | nil => rfl
  | cons t ts ih => rw [Tree.outlines, ih, List.map_cons]

theorem isAt_outline (l : Location) (t : Tree) : t.outline.isAt l = t.isAt l := by
  cases t
  rfl

theorem eq_leaf_of_outline {t : Tree} {info : NodeInfo} {s : String}
    (h : t.outline = .node info none s []) :
    ∃ i value?, t = .node i ⟨info, value?, none⟩ [] ∧ value?.getD "" = s := by
  obtain ⟨i, ⟨info, value?, nsPrefix⟩, children⟩ := t
  rw [Tree.outline] at h
  injection h with hinfo hnsPrefix htext hchildren
  dsimp only at hinfo hnsPrefix htext
  subst hinfo hnsPrefix
  cases children with
  | nil => exact ⟨i, value?, rfl, htext⟩
  | cons u us => cases hchildren

variable (h : d.IsOpen loose o around) (hshows : o.Shows f)

include h

theorem family_open : Handling.family o.id d.arena =
    some (o.children.map fun u => (u.id, d.cell u.id), d.arena) := by
  have hchildren : d.children o.id = o.children.map Tree.id := h.whole.sound.children_eq h.holds
  rw [h.whole.family_arena (h.lt_next (Document.IsOpen.id_mem o)), hchildren, List.map_map]
  rfl

theorem cell_child {u : Tree} (hu : u ∈ o.children) : (d.cell u.id).toNode = u.value :=
  h.whole.cell_of_holds (h.holds.child hu)

theorem appendText_of_last {ts : List Tree} {i : NodeId} {value? : Option String}
    (hsplit : o.children = ts ++ [.node i ⟨.forText, value?, none⟩ []]) (s : String) :
    appendText o.id s d.arena = Handling.setContent i (value?.getD "" ++ s) d.arena := by
  have hcell : (d.cell i).toNode = ⟨.forText, value?, none⟩ :=
    cell_child h (u := .node i ⟨.forText, value?, none⟩ [])
      (hsplit ▸ List.mem_append_right _ List.mem_cons_self)
  rw [appendText, bind_of_some (family_open h), hsplit, List.map_append, List.map_singleton,
    List.getLast?_concat, Tree.id, Option.filter_some, Cell.isAt, hcell]
  change Handling.setContent i ((d.cell i).content.getD "" ++ s) d.arena = _
  rw [hcell]

theorem appendText_of_none (hlast : ∀ u ∈ o.children.getLast?, u.isAt .text = false) (s : String) :
    appendText o.id s d.arena = Handling.addValue o.id .forText s d.arena := by
  rw [appendText, bind_of_some (family_open h), List.getLast?_map]
  cases hu : o.children.getLast? with
  | none => rfl
  | some u =>
    have hcell := cell_child h (List.mem_of_getLast? hu)
    have hnot : (d.cell u.id).isAt .text = false := by
      rw [Cell.isAt, hcell]
      exact hlast u hu
    rw [Option.map_some, Option.filter_some, hnot]
    rfl

include hshows

theorem appendText_open (s : String) : ∃ (d' : Document) (o' : Open),
    appendText o.id s d.arena = some ((), d'.arena) ∧ d'.IsOpen loose o' around ∧
      o'.id = o.id ∧ o'.Shows ⟨f.tag, Xml.pushText s f.content⟩ := by
  obtain ⟨tag, content⟩ := f
  obtain ⟨hvalue, hchildren⟩ := hshows
  rw [outlines_eq_map, contentOutlines_eq_map] at hchildren
  have hnew (hlast : ∀ u ∈ o.children.getLast?, u.isAt .text = false)
      (hpush : Xml.pushText s content = .text s :: content) : ∃ (d' : Document) (o' : Open),
        appendText o.id s d.arena = some ((), d'.arena) ∧ d'.IsOpen loose o' around ∧
          o'.id = o.id ∧ o'.Shows ⟨tag, Xml.pushText s content⟩ := by
    obtain ⟨d', hadded, -, hopen⟩ := h.addValue .forText rfl s
    refine ⟨d', _, (appendText_of_none h hlast s).trans hadded, hopen, rfl, hvalue, ?_⟩
    rw [hpush, outlines_eq_map, contentOutlines_eq_map, Open.add, List.map_append, hchildren,
      List.reverse_cons, List.map_append, List.append_assoc]
    rfl
  -- The last child shows the last of the content, or else the last attribute.
  have hend : ∀ u ∈ o.children.getLast?, (tag.attributes.map Attribute.outline ++
      content.reverse.map Content.outline).getLast? = some u.outline := fun u hu => by
    rw [← hchildren, List.getLast?_map, hu]
    rfl
  cases content with
  | nil =>
    refine hnew (fun u hu => ?_) rfl
    have hlast := hend u hu
    rw [List.reverse_nil, List.map_nil, List.append_nil, List.getLast?_map] at hlast
    obtain ⟨a, _, ha⟩ := Option.map_eq_some_iff.1 hlast
    rw [← isAt_outline, ← ha]
    rfl
  | cons c rest => cases c with
    | element inner more =>
      refine hnew (fun u hu => ?_) rfl
      have hlast := hend u hu
      rw [List.reverse_cons, List.map_append, ← List.append_assoc, List.map_singleton,
        List.getLast?_concat] at hlast
      rw [← isAt_outline, ← Option.some.inj hlast]
      rfl
    | text t =>
      rw [List.reverse_cons, List.map_append, ← List.append_assoc] at hchildren
      obtain ⟨ts, us, hsplit, hts, hus⟩ := List.map_eq_append_iff.1 hchildren
      obtain ⟨u, rfl, hu⟩ := List.map_eq_singleton_iff.1 hus
      obtain ⟨i, value?, rfl, htext⟩ := eq_leaf_of_outline hu
      obtain ⟨d', hset, hopen⟩ := h.setLast hsplit (t ++ s)
      refine ⟨d', _, ?_, hopen, rfl, hvalue, ?_⟩
      · rw [appendText_of_last h hsplit, htext, hset]
      · rw [outlines_eq_map, contentOutlines_eq_map, Xml.pushText, List.map_append, hts,
          List.reverse_cons, List.map_append, List.append_assoc]
        rfl

end Texts

section Indentation

theorem isBlankText_outline {t : Tree} {c : Cell} (hcell : c.toNode = t.value) :
    isBlankText c = t.outline.isBlankText := by
  obtain ⟨i, value, children⟩ := t
  obtain ⟨⟨info, content, nsPrefix⟩, kept, parent⟩ := c
  obtain rfl : _ = value := hcell
  have hblank : content.all Text.allBlank = (Text.trim (content.getD "") == "") := by
    cases content with
    | none => rfl
    | some s => rw [Bool.eq_iff_iff, beq_iff_eq, Option.getD_some, Text.trim_eq_empty_iff]; rfl
  rw [isBlankText, hblank]
  rfl

theorem leaf_of_isBlankText (hshows : o.Shows f) {t : Tree} (ht : t ∈ o.children)
    (hblank : t.outline.isBlankText = true) : t.IsBlankText := by
  have hmem : t.outline ∈ Tree.outlines o.children := by
    rw [outlines_eq_map]
    exact List.mem_map_of_mem ht
  rw [hshows.children, contentOutlines_eq_map, List.mem_append, List.mem_map, List.mem_map] at hmem
  obtain ⟨a, _, ha⟩ | ⟨c, _, hc⟩ := hmem
  · rw [← ha] at hblank
    cases hblank
  · cases c with
    | element tag content =>
      rw [← hc] at hblank
      cases hblank
    | text s =>
      obtain ⟨i, value?, rfl, rfl⟩ := eq_leaf_of_outline hc.symm
      refine ⟨rfl, ?_, rfl⟩
      rw [← Text.trim_eq_empty_iff]
      exact beq_iff_eq.1 hblank

theorem dropBlank_attributes (attributes : List Attribute) (os : List Outline) :
    Outline.dropBlank (attributes.map Attribute.outline ++ os) =
      attributes.map Attribute.outline ++ Outline.dropBlank os := by
  have hany : (attributes.map Attribute.outline).any (Outline.isAt .element) = false :=
    List.any_eq_false.2 fun x hx => by
      obtain ⟨a, _, rfl⟩ := List.mem_map.1 hx
      exact Bool.false_ne_true
  have hkept : (attributes.map Attribute.outline).filter (!·.isBlankText) =
      attributes.map Attribute.outline := List.filter_eq_self.2 fun x hx => by
    obtain ⟨a, _, rfl⟩ := List.mem_map.1 hx
    rfl
  rw [Outline.dropBlank, Outline.dropBlank, List.any_append, hany, Bool.false_or,
    List.filter_append, hkept]
  split_ifs <;> rfl

variable (h : d.IsOpen loose o around) (hshows : o.Shows f)

include h

theorem any_isAt_open :
    (o.children.map fun u => (u.id, d.cell u.id)).any (fun x => x.2.isAt .element) =
      (Tree.outlines o.children).any (Outline.isAt .element) := by
  rw [outlines_eq_map, List.any_map, List.any_map, Bool.eq_iff_iff, List.any_eq_true,
    List.any_eq_true]
  refine exists_congr fun u => and_congr_right fun hu => ?_
  rw [Function.comp_apply, Function.comp_apply, isAt_outline, Cell.isAt, cell_child h hu, Tree.isAt]

theorem filter_isBlankText_open : ((o.children.map fun u => (u.id, d.cell u.id)).filter
    fun x => isBlankText x.2).map Prod.fst =
      (o.children.filter (·.outline.isBlankText)).map Tree.id := by
  rw [List.filter_map, List.map_map]
  refine congrArg (List.map Tree.id) (List.filter_congr fun u hu => ?_)
  exact isBlankText_outline (cell_child h hu)

theorem filter_notMem_open (p : Tree → Bool) :
    o.children.filter (fun u => u.id ∉ (o.children.filter p).map Tree.id) =
      o.children.filter (!p ·) := by
  refine List.filter_congr fun u hu => ?_
  have hiff : u.id ∈ (o.children.filter p).map Tree.id ↔ p u = true := by
    rw [List.mem_map]
    constructor
    · rintro ⟨v, hv, hid⟩
      obtain ⟨hv, hp⟩ := List.mem_filter.1 hv
      rwa [← Tree.eq_of_id_eq h.whole.sound.nodup (h.holds.child hv) (h.holds.child hu) hid]
    · exact fun hp => ⟨u, List.mem_filter.2 ⟨hu, hp⟩, rfl⟩
  rw [Bool.eq_iff_iff, decide_eq_true_iff, hiff, Bool.not_eq_true', Bool.not_eq_true]

include hshows

theorem dropIndentation_open (hloose : ∀ t ∈ loose, t.IsBlankText) :
    ∃ (d' : Document) (loose' : List Tree) (o' : Open),
      dropIndentation o.id d.arena = some ((), d'.arena) ∧ d'.IsOpen loose' o' around ∧
      (∀ t ∈ loose', t.IsBlankText) ∧ o'.id = o.id ∧
      o'.Shows ⟨f.tag, (Xml.dropIndentation f.content.reverse).reverse⟩ := by
  have hdropped : f.tag.attributes.map Attribute.outline ++
      contentOutlines (Xml.dropIndentation f.content.reverse) =
        Outline.dropBlank (Tree.outlines o.children) := by
    rw [contentOutlines_eq_map, outline_dropIndentation, hshows.children, contentOutlines_eq_map,
      dropBlank_attributes]
  rw [dropIndentation, bind_of_some (family_open h), any_isAt_open h]
  by_cases hany : (Tree.outlines o.children).any (Outline.isAt .element) = true
  · have hnodup : ((o.children.filter (·.outline.isBlankText)).map Tree.id).Nodup :=
      (List.filter_sublist.map Tree.id).nodup h.nodup_children
    obtain ⟨d', hall, hopen⟩ := h.detachAll (fun t ht => List.mem_of_mem_filter ht) hnodup
    refine ⟨d', _, _, ?_, hopen, ?_, rfl, hshows.value, ?_⟩
    · rw [if_pos hany, filter_isBlankText_open h, hall]
    · intro t ht
      rcases List.mem_append.1 ht with ht | ht
      · obtain ⟨hmem, hblank⟩ := List.mem_filter.1 (List.mem_reverse.1 ht)
        exact leaf_of_isBlankText hshows hmem hblank
      · exact hloose t ht
    · rw [List.reverse_reverse, hdropped, Outline.dropBlank, if_pos hany, filter_notMem_open h,
        outlines_eq_map, outlines_eq_map, List.filter_map]
      rfl
  · refine ⟨d, loose, o, ?_, h, hloose, rfl, hshows.value, ?_⟩
    · rw [if_neg hany]
      rfl
    · rw [List.reverse_reverse, hdropped, Outline.dropBlank, if_neg hany]

end Indentation

section Steps

theorem outline_tree (hshows : o.Shows f) :
    o.tree.outline = (Content.element f.tag f.content.reverse).outline := by
  rw [Open.tree, Tree.outline, hshows.value, hshows.children, Content.outline]
  rfl

theorem assembles_attach (h : d.IsOpen loose o around) (hloose : ∀ t ∈ loose, t.IsBlankText)
    (hshows : o.Shows f) (haround : List.Forall₂ Open.Shows around frames) :
    Assembles d (around.map Open.id, true) (attach ⟨frames, none⟩ f.tag f.content.reverse) := by
  cases haround with
  | nil => exact .done h.whole h.trees h.root hloose (outline_tree hshows)
  | @cons p g around frames hp hrest =>
    have hchildren : Tree.outlines (p.add o.tree).children =
        g.tag.attributes.map Attribute.outline ++
          contentOutlines (.element f.tag f.content.reverse :: g.content).reverse := by
      rw [Open.add, outlines_append, hp.children, Tree.outlines, Tree.outlines, outline_tree hshows,
        List.reverse_cons, contentOutlines_eq_map, contentOutlines_eq_map, List.map_append,
        List.append_assoc]
      rfl
    have hattached : Assembles d ((p.add o.tree).id :: around.map Open.id, true)
        ⟨⟨g.tag, .element f.tag f.content.reverse :: g.content⟩ :: frames, none⟩ :=
      .within h.leave hloose (.cons ⟨hp.value, hchildren⟩ hrest)
    exact hattached

theorem addText_outside {hasRoot : Bool} {root : Option Element}
    (h : Assembles d ([], hasRoot) ⟨[], root⟩) (s : String) :
    Agrees ((pushText none s >>= fun _ => pure ([], hasRoot)) d.arena)
      (Builder.addText ⟨[], root⟩ s) := by
  rw [Builder.addText, pushText]
  dsimp only
  split_ifs
  · exact ⟨d, _, rfl, h⟩
  · exact ⟨_, rfl⟩

theorem addText_agrees (h : Assembles d progress b) (s : String) :
    Agrees ((pushText progress.1.head? s >>= fun _ => pure progress) d.arena) (b.addText s) := by
  cases h with
  | start => exact addText_outside .start s
  | done h htrees hroot hloose hshows =>
    exact addText_outside (.done h htrees hroot hloose hshows) s
  | @within d loose o around f frames h hloose hshows =>
    obtain ⟨hfirst, hrest⟩ := List.forall₂_cons.1 hshows
    obtain ⟨d', o', hadded, hopen, hid, hshows'⟩ := appendText_open h hfirst s
    have hpushed : pushText (some o.id) s d.arena = some (.ok (), d'.arena) := lift_of_some hadded
    refine ⟨d', _, bind_of_some_ok hpushed, ?_⟩
    rw [← hid]
    exact .within hopen hloose (.cons hshows' hrest)

theorem hasRoot_of_assembles (h : Assembles d progress b) :
    (progress.2 || progress.1.isEmpty) = true := by
  cases h <;> rfl

theorem decoded_agrees (h : Assembles d progress b) (x : Except XmlError String) :
    Agrees ((ofExcept x >>= fun s => pushText progress.1.head? s >>= fun _ => pure progress) d.arena)
      (x >>= b.addText) := by
  cases x with
  | error e => exact ⟨_, bind_of_some_error (e := e) rfl⟩
  | ok s => exact addText_agrees h s

theorem closing_agrees (h : Assembles d progress b) :
    Agrees (step progress .closing d.arena) (b.step .closing) := by
  cases h with
  | start => exact ⟨_, _, rfl, .start⟩
  | done h htrees hroot hloose hshows =>
    exact ⟨_, _, rfl, .done h htrees hroot hloose hshows⟩
  | @within d loose o around f frames h hloose hshows =>
    obtain ⟨hfirst, hrest⟩ := List.forall₂_cons.1 hshows
    obtain ⟨d', loose', o', hdropped, hopen, hloose', -, hshows'⟩ :=
      dropIndentation_open h hfirst hloose
    refine ⟨d', _, bind_of_some_ok (lift_of_some hdropped), ?_⟩
    have hattached := assembles_attach hopen hloose' hshows' hrest
    rwa [List.reverse_reverse] at hattached

/-- After an opening tag the run goes on with what becomes of the element that is now open. -/
theorem opened_agrees (h : Assembles d progress b) (raw : Octets) {next : NodeId → Progress}
    {read : Tag → Builder} (hnext : b.root = none → ∀ (d' : Document) (loose : List Tree) (o : Open)
      (around : List Open) (tag : Tag), around.map Open.id = progress.1 → d'.IsOpen loose o around →
        (∀ t ∈ loose, t.IsBlankText) →
        List.Forall₂ Open.Shows (o :: around) (⟨tag, []⟩ :: b.frames) →
          Assembles d' (next o.id) (read tag)) :
    Agrees ((openElement raw progress.1.head? progress.2 >>= fun i => pure (next i)) d.arena)
      (b.openTag raw >>= fun tag => pure (read tag)) := by
  obtain ⟨hnone, hopens⟩ := opens h raw
  cases hread : b.openTag raw with
  | error e =>
    rw [hread] at hopens
    obtain ⟨a, ha⟩ := hopens
    exact ⟨a, bind_of_some_error ha⟩
  | ok tag =>
    rw [hread] at hopens
    obtain ⟨d', loose, o, around, hopened, hids, hopen, hloose, hshows⟩ := hopens
    have hassembled := hnext (hnone tag hread) d' loose o around tag hids hopen hloose hshows
    exact ⟨d', _, bind_of_some_ok hopened, hassembled⟩

theorem step_agrees (h : Assembles d progress b) (event : Event) :
    Agrees (step progress event d.arena) (b.step event) := by
  have hroot := hasRoot_of_assembles h
  have hdecoded := decoded_agrees h
  have hclosing := closing_agrees h
  obtain ⟨stack, hasRoot⟩ := progress
  obtain ⟨frames, root⟩ := b
  cases event with
  | opening raw =>
    refine opened_agrees h raw fun hnone d' loose o around tag hids hopen hloose hshows => ?_
    obtain rfl : root = none := hnone
    obtain rfl : around.map Open.id = stack := hids
    rw [hroot]
    exact .within hopen hloose hshows
  | empty raw =>
    refine opened_agrees h raw fun hnone d' loose o around tag hids hopen hloose hshows => ?_
    obtain rfl : root = none := hnone
    obtain rfl : around.map Open.id = stack := hids
    obtain ⟨hfirst, hrest⟩ := List.forall₂_cons.1 hshows
    rw [hroot]
    exact assembles_attach hopen hloose hfirst hrest
  | closing => exact hclosing
  | text raw => exact hdecoded (decodeCharacters raw)
  | characters raw => exact hdecoded (decodeOctets raw)
  | reference name =>
    rw [Builder.step, step]
    cases decodeCharacters name with
    | error e => exact ⟨_, bind_of_some_error (e := e) rfl⟩
    | ok name =>
      rw [bind_of_some_ok (a := name) rfl]
      dsimp only [bind, Except.bind]
      cases resolve name with
      | error e => exact ⟨_, bind_of_some_error (e := XmlError.encoding e) rfl⟩
      | ok c => exact hdecoded (.ok (String.singleton c))
  | ignored => exact ⟨d, _, rfl, h⟩

/-- Parsing into nodes fails where reading the element fails, and for the same cause. -/
theorem run_agrees (h : Assembles d progress b) (events : List Event) :
    Agrees (events.foldlM step progress d.arena) (events.foldlM Builder.step b) := by
  induction events generalizing d progress b with
  | nil => exact ⟨d, progress, rfl, h⟩
  | cons event events ih =>
    have hstep := step_agrees h event
    rw [List.foldlM_cons, List.foldlM_cons]
    cases hb : b.step event with
    | error e =>
      rw [hb] at hstep
      obtain ⟨a, ha⟩ := hstep
      exact ⟨a, bind_of_some_error ha⟩
    | ok b₁ =>
      rw [hb] at hstep
      obtain ⟨d₁, progress₁, hd₁, h₁⟩ := hstep
      rw [bind_of_some_ok hd₁]
      exact ih h₁

end Steps

section Finished

/-- One tree has the element that was read, and the others are blank texts. -/
structure Finished (d : Document) (e : Element) : Prop where
  whole : d.Whole
  exists_trees : ∃ loose t, d.trees = loose ++ [t] ∧ t.id = d.root ∧
    (∀ u ∈ loose, u.IsBlankText) ∧ t.outline = (Content.element e.tag e.content).outline

theorem ofEvents_agrees (s : Events) :
    match Element.ofEvents s with
    | .ok e => ∃ d, ofEvents s .empty = some (.ok (), d.arena) ∧ Finished d e
    | .error fault => ∃ a, ofEvents s .empty = some (.error fault, a) := by
  have hrun : Agrees (s.events.foldlM step ([], false) .empty)
      (s.events.foldlM Builder.step Builder.start) := run_agrees .start s.events
  rw [Element.ofEvents]
  cases hb : s.events.foldlM Builder.step Builder.start with
  | error fault =>
    rw [hb] at hrun
    obtain ⟨a, ha⟩ := hrun
    exact ⟨a, bind_of_some_error ha⟩
  | ok b =>
    rw [hb] at hrun
    obtain ⟨d, progress, hd, h⟩ := hrun
    rw [ofEvents, bind_of_some_ok hd]
    dsimp only [bind, Except.bind]
    cases s.fault with
    | some fault => exact ⟨_, rfl⟩
    | none => cases h with
      | start => exact ⟨_, rfl⟩
      | within => exact ⟨_, rfl⟩
      | done h htrees hroot hloose hshows =>
        exact ⟨_, rfl, h, _, _, htrees, hroot, hloose, hshows⟩

end Finished

end Parsing

namespace Arena

/-- Every text is parsed or refused, with the same element or the same cause as it is read with. -/
theorem parse_agrees (s : Octets) :
    match Element.parse s with
    | .ok e => ∃ d : Document, parse s = some (.ok d.arena) ∧ Parsing.Finished d e
    | .error fault => parse s = some (.error fault) := by
  have hagrees := Parsing.ofEvents_agrees (Event.scan s)
  rw [Element.parse]
  cases hread : Element.ofEvents (Event.scan s) with
  | error fault =>
    rw [hread] at hagrees
    obtain ⟨a, ha⟩ := hagrees
    dsimp only
    rw [parse, ha]
    rfl
  | ok e =>
    rw [hread] at hagrees
    obtain ⟨d, hd, hfinished⟩ := hagrees
    refine ⟨d, ?_, hfinished⟩
    rw [parse, hd]
    rfl

end Arena

end ServiceClient.Xml
