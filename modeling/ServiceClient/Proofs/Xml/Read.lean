import ServiceClient.Proofs.Run
import ServiceClient.Proofs.Xml.Layout
import ServiceClient.Proofs.Xml.Walk

/-! Reading a value from its layout. In a parsed document a node shows its attributes first and its
content in settled form; the children with the name of a member are still those that the member has
laid out, so each reader finds its own part. -/

namespace ServiceClient.Xml

section Numbering

theorem attributeTrees_spec (next : NodeId) (l : List Attribute) :
    (Document.attributeTrees next l).2 = next + l.length ∧
      Tree.numbersAmong (Document.attributeTrees next l).1 = List.range' next l.length ∧
      (Document.attributeTrees next l).1.map Tree.shown = l.map Sum.inl := by
  induction l generalizing next with
  | nil => exact ⟨rfl, rfl, rfl⟩
  | cons a l ih =>
    obtain ⟨hstop, hnumbers, hshown⟩ := ih (next + 1)
    rw [Document.attributeTrees]
    refine ⟨?_, ?_, ?_⟩
    · rw [hstop, List.length_cons]
      ac_rfl
    · rw [Tree.numbersAmong_cons, hnumbers, Tree.numbers_node, Tree.numbersAmong_nil,
        List.length_cons, List.range'_succ, List.singleton_append]
    · rw [List.map_cons, hshown, List.map_cons]
      rfl

mutual

theorem contentTree_spec (next : NodeId) : ∀ c : Content,
    (∃ n, (Document.contentTree next c).2 = next + n ∧
      (Document.contentTree next c).1.numbers = List.range' next n) ∧
      (Document.contentTree next c).1.shown = .inr c
  | .text s => ⟨⟨1, rfl, rfl⟩, rfl⟩
  | .element tag content => by
    obtain ⟨hmiddle, hattributes, hshown⟩ := attributeTrees_spec (next + 1) tag.attributes
    obtain ⟨⟨n, hstop, hnumbers⟩, hshown'⟩ :=
      contentTrees_spec (Document.attributeTrees (next + 1) tag.attributes).2 content
    have hall : ((Document.attributeTrees (next + 1) tag.attributes).1 ++
        (Document.contentTrees (Document.attributeTrees (next + 1) tag.attributes).2 content).1).map
          Tree.shown = tag.attributes.map Sum.inl ++ content.map Sum.inr := by
      rw [List.map_append, hshown, hshown']
    have hleft : attributesOf (tag.attributes.map Sum.inl ++ content.map Sum.inr) =
        tag.attributes := by
      simp [attributesOf, List.filterMap_map, Function.comp_def]
    have hright : contentOf (tag.attributes.map Sum.inl ++ content.map Sum.inr) = content := by
      simp [contentOf, List.filterMap_map, Function.comp_def]
    rw [Document.contentTree]
    refine ⟨⟨tag.attributes.length + n + 1, ?_, ?_⟩, ?_⟩
    · rw [hstop, hmiddle]
      ac_rfl
    · rw [Tree.numbers_node, Tree.numbersAmong_append, hattributes, hnumbers, hmiddle,
        List.range'_append_1, List.range'_succ]
    · rw [Tree.shown]
      dsimp only
      rw [Tree.tag, attributes_eq, toContents_eq, hall, hleft, hright]

theorem contentTrees_spec (next : NodeId) : ∀ cs : List Content,
    (∃ n, (Document.contentTrees next cs).2 = next + n ∧
      Tree.numbersAmong (Document.contentTrees next cs).1 = List.range' next n) ∧
      (Document.contentTrees next cs).1.map Tree.shown = cs.map Sum.inr
  | [] => ⟨⟨0, rfl, rfl⟩, rfl⟩
  | c :: cs => by
    obtain ⟨⟨m, hmiddle, hnumbers⟩, hshown⟩ := contentTree_spec next c
    obtain ⟨⟨n, hstop, hnumbers'⟩, hshown'⟩ :=
      contentTrees_spec (Document.contentTree next c).2 cs
    rw [Document.contentTrees]
    refine ⟨⟨m + n, ?_, ?_⟩, ?_⟩
    · rw [hstop, hmiddle]
      ac_rfl
    · rw [Tree.numbersAmong_cons, hnumbers, hnumbers', hmiddle, List.range'_append_1]
    · rw [List.map_cons, hshown, hshown', List.map_cons]

end

namespace Document

variable (e : Element)

theorem trees_ofElement :
    (ofElement e).trees = [(contentTree 0 (.element e.tag e.content)).1] := rfl

theorem id_contentTree (next : NodeId) (c : Content) : (contentTree next c).1.id = next := by
  cases c <;> (rw [contentTree]; rfl)

theorem whole_ofElement : (ofElement e).Whole := by
  obtain ⟨⟨n, hstop, hnumbers⟩, _⟩ := contentTree_spec 0 (.element e.tag e.content)
  have hnext : (ofElement e).next = n := hstop.trans (Nat.zero_add n)
  have hroot : 0 ∈ (contentTree 0 (.element e.tag e.content)).1.numbers := by
    have hself := Tree.mem_numbers_self (contentTree 0 (.element e.tag e.content)).1
    rwa [id_contentTree] at hself
  refine ⟨?_, ?_⟩
  · rw [trees_ofElement, Tree.numbersAmong_singleton, hnumbers, hnext, List.range_eq_range']
  · rw [hnumbers, List.mem_range'_1] at hroot
    rw [hnext]
    exact hroot.2.trans_eq (Nat.zero_add n)

theorem rootTree_ofElement :
    (ofElement e).rootTree = (contentTree 0 (.element e.tag e.content)).1 := by
  have hfound : (ofElement e).find? (contentTree 0 (.element e.tag e.content)).1.id =
      some (contentTree 0 (.element e.tag e.content)).1 :=
    (whole_ofElement e).sound.find? (Tree.mem_nodesAmong_of_mem List.mem_cons_self)
  rw [id_contentTree] at hfound
  rw [rootTree, show (ofElement e).root = 0 from rfl, hfound]
  rfl

theorem shown_rootTree_ofElement :
    (ofElement e).rootTree.shown = .inr (.element e.tag e.content) := by
  rw [rootTree_ofElement, (contentTree_spec 0 _).2]

theorem toElement_ofElement : (ofElement e).toElement = e := by
  have hshown := shown_rootTree_ofElement e
  rw [toElement]
  rw [rootTree_ofElement, contentTree] at hshown ⊢
  obtain ⟨htag, hcontent⟩ := Content.element.inj (Sum.inr.inj hshown)
  rw [Tree.toElement, htag, hcontent]

end Document

theorem ofElement_spec (e : Element) : ∃ t, (Document.ofElement e).Sound ∧
    (Document.ofElement e).Holds t ∧ t.id = (Document.ofElement e).root ∧
      t.shown = .inr (.element e.tag e.content) := by
  have hwhole := Document.whole_ofElement e
  obtain ⟨hholds, hid⟩ := hwhole.exists_rootTree
  exact ⟨_, hwhole.sound, hholds, hid, Document.shown_rootTree_ofElement e⟩

end Numbering

section Settling

theorem gather_of_elements {cs : List Content} (h : ∀ c ∈ cs, c.isElement = true) :
    gather cs = cs := by
  have hfold : ∀ before : List Content, cs.foldl pile before = cs.reverse ++ before := by
    induction cs with
    | nil => exact fun _ => rfl
    | cons c cs ih =>
      intro before
      rw [List.forall_mem_cons] at h
      cases c with
      | text s => cases h.1
      | element tag content =>
        rw [List.foldl_cons, pile, ih h.2, List.reverse_cons, List.append_assoc,
          List.singleton_append]
  rw [gather, hfold, List.append_nil, List.reverse_reverse]

theorem settleContent_of_elements (scope : List Namespace) {cs : List Content}
    (h : ∀ c ∈ cs, c.isElement = true) :
    settleContent scope cs = cs.map (Content.settle scope) := by
  have hsettled : ∀ c ∈ cs.map (Content.settle scope), c.isElement = true := by
    intro c hc
    obtain ⟨d, hd, rfl⟩ := List.mem_map.1 hc
    cases d with
    | text s => exact h _ hd
    | element tag content => rfl
  have hnone : ∀ c ∈ cs.map (Content.settle scope), (!c.isBlankText) = true := by
    intro c hc
    cases c with
    | text s => cases hsettled _ hc
    | element tag content => rfl
  rw [settleContent, settleAll_eq_map, gather_of_elements hsettled, dropIndentation,
    List.filter_eq_self.2 hnone, ite_self]

theorem settleContent_text (scope : List Namespace) (s : String) :
    settleContent scope [.text s] = if s = "" then [] else [.text s] := by
  rw [settleContent, settleAll, settleAll, Content.settle, gather, List.foldl_cons, List.foldl_nil,
    pile, push]
  split_ifs <;> rfl

def Shown.settle (scope : List Namespace) : Shown → Shown
  | .inl a => .inl a
  | .inr c => .inr (c.settle scope)

theorem settle_enclosed (info : NodeInfo) (scope : List Namespace)
    (inside : List Namespace → List Shown) :
    (enclosed info scope inside).settle scope =
      .element ⟨info.name, none, info.ns.filter (· ∉ scope),
          attributesOf (inside ((info.ns.filter (· ∉ scope)).toList ++ scope))⟩
        (settleContent ((info.ns.filter (· ∉ scope)).toList ++ scope)
          (contentOf (inside ((info.ns.filter (· ∉ scope)).toList ++ scope)))) := by
  have hfilter : (info.ns.filter (· ∉ scope)).filter (· ∉ scope) = info.ns.filter (· ∉ scope) := by
    cases info.ns with
    | none => rfl
    | some ns => by_cases h : ns ∈ scope <;> simp [Option.filter, h]
  rw [enclosed, settle_element, Tag.within, Tag.scope]
  dsimp only
  rw [hfilter]

end Settling

section Matching

variable {t : Tree} {scope : List Namespace} {l : List Shown} {info : NodeInfo}

/-- The tree of an element that has been written around `l` and read back. -/
structure Tree.Bears (t : Tree) (scope : List Namespace) (l : List Shown) : Prop where
  element : t.value.info.location = .element
  attributes : attributesOf (t.children.map Tree.shown) = attributesOf l
  content : contentOf (t.children.map Tree.shown) = settleContent scope (contentOf l)

theorem bears_of_shown {tag : Tag} {content : List Content}
    (h : t.shown = .inr (.element tag (settleContent scope content)))
    (hattributes : tag.attributes = attributesOf l) (hcontent : content = contentOf l) :
    t.Bears scope l := by
  obtain ⟨i, ⟨⟨name, location, ns⟩, text, nsPrefix⟩, children⟩ := t
  cases location with
  | «attribute» => cases h
  | text => cases h
  | element =>
    rw [Tree.shown] at h
    obtain ⟨htag, hinner⟩ := Content.element.inj (Sum.inr.inj h)
    refine ⟨rfl, ?_, ?_⟩
    · rw [← hattributes, ← htag, ← attributes_eq]
      rfl
    · rw [← hcontent, ← hinner, ← toContents_eq]
      rfl

theorem bears_of_enclosed {inside : List Namespace → List Shown}
    (h : t.shown = Shown.settle scope (.inr (enclosed info scope inside))) :
    t.Bears ((info.ns.filter (· ∉ scope)).toList ++ scope)
      (inside ((info.ns.filter (· ∉ scope)).toList ++ scope)) := by
  rw [Shown.settle, settle_enclosed] at h
  exact bears_of_shown h rfl rfl

theorem name_of_shown {tag : Tag} {content : List Content}
    (h : t.shown = .inr (.element tag content)) : t.value.info.name = tag.name := by
  obtain ⟨i, ⟨⟨name, location, ns⟩, text, nsPrefix⟩, children⟩ := t
  cases location with
  | element =>
    rw [← (Content.element.inj (Sum.inr.inj h)).1]
    rfl
  | _ => cases h

theorem isLike_eq (t : Tree) (h : info.location ≠ .text) :
    t.value.info.isLike info = (t.shown.place == info.place) := by
  obtain ⟨i, ⟨⟨name, location, ns⟩, text, nsPrefix⟩, children⟩ := t
  obtain ⟨name', location', ns'⟩ := info
  cases location <;> cases location' <;> first | rfl | exact absurd rfl h

theorem filter_attributes (name : String) (l : List Shown) :
    l.filter (·.place == (.attribute, name)) =
      ((attributesOf l).filter (·.name == name)).map Sum.inl := by
  induction l with
  | nil => rfl
  | cons x l ih =>
    cases x with
    | inl a =>
      have hplace : (Shown.place (.inl a) == (Location.attribute, name)) = (a.name == name) :=
        Bool.true_and _
      rw [attributesOf_inl, List.filter_cons, List.filter_cons, hplace, ih]
      split_ifs <;> rfl
    | inr c =>
      rw [attributesOf_inr, List.filter_cons_of_neg, ih]
      cases c <;> exact Bool.false_ne_true

def Content.isNamed (name : String) : Content → Bool
  | .element tag _ => tag.name == name
  | .text _ => false

theorem filter_elements (name : String) (l : List Shown) :
    l.filter (·.place == (.element, name)) =
      ((contentOf l).filter (Content.isNamed name)).map Sum.inr := by
  induction l with
  | nil => rfl
  | cons x l ih =>
    cases x with
    | inl a =>
      rw [contentOf_inl, List.filter_cons_of_neg, ih]
      exact Bool.false_ne_true
    | inr c =>
      have hplace : (Shown.place (.inr c) == (Location.element, name)) = c.isNamed name := by
        cases c with
        | text s => rfl
        | element tag content => exact Bool.true_and _
      rw [contentOf_inr, List.filter_cons, List.filter_cons, hplace, ih]
      split_ifs <;> rfl

def Tree.named (info : NodeInfo) (t : Tree) : List Tree :=
  t.children.filter (·.value.info.isLike info)

theorem Tree.Bears.named (h : t.Bears scope l) (hl : ∀ x ∈ l, x.place.1 ≠ .text)
    (hinfo : info.location ≠ .text) : (t.named info).map Tree.shown =
      (l.filter (·.place == info.place)).map (Shown.settle scope) := by
  have helements : ∀ c ∈ contentOf l, c.isElement = true := by
    intro c hc
    have hplace := hl _ (mem_contentOf.1 hc)
    cases c with
    | text s => exact absurd rfl hplace
    | element tag content => rfl
  have hlike : (t.named info).map Tree.shown =
      (t.children.map Tree.shown).filter (·.place == info.place) := by
    rw [Tree.named, List.filter_map]
    congr 1
    exact List.filter_congr fun u _ => isLike_eq u hinfo
  rw [hlike, NodeInfo.place]
  cases hlocation : info.location with
  | text => exact absurd hlocation hinfo
  | «attribute» =>
    rw [filter_attributes, filter_attributes, h.attributes, List.map_map]
    rfl
  | element =>
    have hnamed : Content.isNamed info.name ∘ Content.settle scope = Content.isNamed info.name := by
      funext c
      cases c <;> rfl
    rw [filter_elements, filter_elements, h.content, settleContent_of_elements scope helements,
      List.filter_map, hnamed, List.map_map, List.map_map]
    rfl

end Matching

section Texts

variable {t : Tree} {scope : List Namespace} {info : NodeInfo} {s : String} {v : Value}

def Content.text? : Content → Option String
  | .text s => some s
  | .element _ _ => none

theorem texts_eq (ts : List Tree) :
    (ts.filter (Tree.isAt .text)).map (fun t => t.value.content.getD "") =
      (contentOf (ts.map Tree.shown)).filterMap Content.text? := by
  induction ts with
  | nil => rfl
  | cons t ts ih =>
    obtain ⟨i, ⟨⟨name, location, ns⟩, text, nsPrefix⟩, children⟩ := t
    cases location with
    | text =>
      rw [List.filter_cons_of_pos rfl, List.map_cons, ih]
      rfl
    | _ =>
      rw [List.filter_cons_of_neg Bool.false_ne_true, ih]
      rfl

theorem Tree.Bears.text_eq (h : t.Bears scope [.inr (.text s)]) : t.text = s := by
  have hcontent := h.content
  rw [show contentOf [.inr (.text s)] = [.text s] from rfl, settleContent_text] at hcontent
  obtain ⟨i, value, children⟩ := t
  have hlocation : value.info.location = .element := h.element
  rw [Tree.text, hlocation]
  dsimp only
  rw [texts_eq, show children.map Tree.shown = (Tree.node i value children).children.map Tree.shown
    from rfl, hcontent]
  split_ifs with hempty
  · rw [hempty]
    rfl
  · simp [Content.text?, String.join]

theorem text_of_attribute {a : Attribute} (h : t.shown = .inl a) : t.text = a.value := by
  obtain ⟨i, ⟨⟨name, location, ns⟩, text, nsPrefix⟩, children⟩ := t
  cases location with
  | «attribute» =>
    rw [← Sum.inl.inj h]
    rfl
  | _ => cases h

theorem text_of_shown (hinfo : info.IsProper) (hv : v.spelling = s)
    (h : t.shown = (shownAs info scope v fun _ => [.inr (.text s)]).settle scope) : t.text = s := by
  rcases hinfo.location with hl | ⟨hl, _⟩
  · rw [shownAs_element hl] at h
    exact (bears_of_enclosed h).text_eq
  · rw [shownAs_attribute hl] at h
    exact (text_of_attribute h).trans hv

end Texts

section Cursors

variable {d : Document} {t : Tree} {cur : Cursor} {info : NodeInfo}

theorem text?_eq (hd : d.Sound) (ht : d.Holds t) (hcur : cur.node = some t.id) :
    cur.text? d = some t.text := by
  rw [Cursor.text?, hcur, Option.map_some, Document.text, hd.find? ht]
  rfl

theorem childrenMatching_eq (hd : d.Sound) (ht : d.Holds t) (info : NodeInfo) :
    d.childrenMatching t.id info = (t.named info).map Tree.id := by
  rw [Document.childrenMatching, hd.find? ht]
  rfl

theorem descend_eq (hd : d.Sound) (ht : d.Holds t) (hcur : cur.node = some t.id) :
    cur.descend d info = ⟨some t.id, (t.named info).head?.map Tree.id, info⟩ := by
  rw [Cursor.descend, hcur, Option.bind_some, Document.firstChild?, childrenMatching_eq hd ht,
    List.head?_map]

theorem Document.Holds.named (ht : d.Holds t) : ∀ u ∈ t.named info, d.Holds u := fun _ hu =>
  ht.child (List.mem_of_mem_filter hu)

def standOn (place : NodeId) (info : NodeInfo) (u : Tree) : Cursor :=
  ⟨some place, some u.id, info⟩

theorem itemCursors_nested (hd : d.Sound) (ht : d.Holds t) (hcur : cur.node = some t.id)
    (item : NodeInfo) : itemCursors cur false item d =
      (.ok (some ((t.named item).map (standOn t.id item))), d) := by
  rw [itemCursors, Cursor.items?, hcur]
  change (Except.ok (some ((d.childrenMatching t.id item).map _)), d) = _
  rw [childrenMatching_eq hd ht, List.map_map]
  rfl

theorem itemCursors_flattened (hd : d.Sound) (ht : d.Holds t) {u : Tree} {us : List Tree}
    (hu : t.named info = u :: us) (item : NodeInfo) :
    itemCursors (standOn t.id info u) true item d =
      (.ok (some ((t.named info).map (standOn t.id info))), d) := by
  have hnodes : d.childrenMatching t.id info = u.id :: us.map Tree.id := by
    rw [childrenMatching_eq hd ht, hu, List.map_cons]
  change (if true = true ∧ (d.childrenMatching t.id info).isEmpty = true then pure none
    else pure (some ((d.childrenMatching t.id info).map _)) : Editing _) d = _
  rw [hnodes, hu]
  change (Except.ok (some ((u.id :: us.map Tree.id).map _)), d) = _
  rw [List.map_cons, List.map_map]
  rfl

end Cursors

section Items

variable {d : Document} {place : NodeId} {info : NodeInfo} {cur : Cursor} {s : String}

theorem reads_each {read : Cursor → Editing Value} {f : Value → Value} {g : Value → Shown} :
    ∀ (ts : List Tree) (vs : List Value), ts.map Tree.shown = vs.map g →
      (∀ u ∈ ts, ∀ v ∈ vs, u.shown = g v → read (standOn place info u) d = (.ok (f v), d)) →
      readEach read (ts.map (standOn place info)) d = (.ok (vs.map f), d)
  | [], [], _, _ => rfl
  | t :: ts, v :: vs, hshown, h => by
    obtain ⟨hfirst, hrest⟩ := List.cons.inj hshown
    have hread := h t List.mem_cons_self v List.mem_cons_self hfirst
    have hmore := reads_each ts vs hrest fun u hu w hw =>
      h u (List.mem_cons_of_mem t hu) w (List.mem_cons_of_mem v hw)
    rw [List.map_cons, readEach, bind_of_ok hread, bind_of_ok hmore]
    rfl

theorem insertKey_of_lt {α : Type} {key : String} {v : α} {entries : List (String × α)}
    (h : ∀ e ∈ entries, e.1 < key) : insertKey key v entries = entries ++ [(key, v)] := by
  induction entries with
  | nil => rfl
  | cons e entries ih =>
    rw [List.forall_mem_cons] at h
    obtain ⟨k, w⟩ := e
    have hlt : k < key := h.1
    rw [insertKey, if_neg (String.lt_asymm hlt), if_neg (String.ne_of_lt hlt).symm, ih h.2,
      List.cons_append]

theorem get_apply (d : Document) : (get : Editing Document) d = (.ok d, d) := rfl

theorem readRequired_apply {read : String → Editing Value} (h : cur.text? d = some s) :
    readRequired cur read d = read s d := by
  rw [readRequired, bind_of_ok (get_apply d), h]

theorem readText_apply {read : String → Editing Value} (h : cur.text? d = some s) :
    readText cur read d = read s d := by
  rw [readText, bind_of_ok (get_apply d), h]

structure ReadsEntry (keyInfo valueInfo : NodeInfo) (read : Cursor → Editing Value) (d : Document)
    (cur : Cursor) (key : String) (v : Value) : Prop where
  key : (cur.descend d keyInfo).text? d = some key
  value : read (cur.descend d valueInfo) d = (.ok v, d)

theorem reads_entries {keyInfo valueInfo : NodeInfo} {read : Cursor → Editing Value}
    {f : Value → Value} {g : String × Value → Shown} :
    ∀ (ts : List Tree) (es before : List (String × Value)), ts.map Tree.shown = es.map g →
      (before.map Prod.fst ++ es.map Prod.fst).Pairwise (· < ·) →
      (∀ u ∈ ts, ∀ e ∈ es, u.shown = g e →
        ReadsEntry keyInfo valueInfo read d (standOn place info u) e.1 (f e.2)) →
      readEntries keyInfo valueInfo read (ts.map (standOn place info)) before d =
        (.ok (before ++ es.map fun e => (e.1, f e.2)), d)
  | [], [], before, _, _, _ => by
    rw [show [].map (fun e : String × Value => (e.1, f e.2)) = [] from rfl, List.append_nil]
    rfl
  | t :: ts, e :: es, before, hshown, hsorted, h => by
    obtain ⟨hfirst, hrest⟩ := List.cons.inj hshown
    have hentry := h t List.mem_cons_self e List.mem_cons_self hfirst
    have hlt : ∀ b ∈ before, b.1 < e.1 := fun b hb =>
      (List.pairwise_append.1 hsorted).2.2 b.1 (List.mem_map_of_mem hb) e.1 List.mem_cons_self
    have hmore := reads_entries ts es (before ++ [(e.1, f e.2)]) hrest
      (by rwa [List.map_append, List.append_assoc]) fun u hu w hw =>
        h u (List.mem_cons_of_mem t hu) w (List.mem_cons_of_mem e hw)
    have hkey : readEntries keyInfo valueInfo read ((t :: ts).map (standOn place info)) before d =
        (read ((standOn place info t).descend d valueInfo) >>= fun v =>
          readEntries keyInfo valueInfo read (ts.map (standOn place info))
            (insertKey e.1 v before)) d := by
      rw [List.map_cons, readEntries, bind_of_ok (get_apply d), bind_of_ok (get_apply d),
        hentry.key]
      dsimp only
      rw [bind_of_ok (get_apply d)]
    rw [hkey, bind_of_ok hentry.value, insertKey_of_lt hlt, hmore, List.append_assoc]
    rfl

end Items

namespace Schema

variable {schema : Schema} {v : Value} {d : Document} {t : Tree} {cur : Cursor} {info : NodeInfo}
  {scope : List Namespace}

theorem settled_text (htext : schema.isText = true) (v : Value) : schema.settled v = v := by
  cases schema <;> first | (cases v <;> rfl) | cases htext

theorem settled_absent (schema : Schema) : schema.settled .absent = .absent := by
  cases schema <;> rfl

theorem read_text (htext : schema.isText = true) (hfit : schema.Fits v) (hv : v.isAbsent = false)
    (h : cur.text? d = some v.spelling) : schema.read cur d = (.ok v, d) := by
  cases schema with
  | scalar t =>
    cases v with
    | scalar x =>
      rw [Schema.read, readRequired_apply h, Value.spelling, readScalar, ScalarType.read_text hfit]
      rfl
    | absent => cases hv
    | _ => exact hfit.elim
  | «optional» t =>
    cases v with
    | scalar x =>
      rw [Schema.read, readText_apply h, Value.spelling, readScalar, ScalarType.read_text hfit]
      rfl
    | absent => cases hv
    | _ => exact hfit.elim
  | blob =>
    cases v with
    | octets s =>
      rw [Schema.read, readText_apply h, Value.spelling, readBlob,
        Text.Base64.decode?_trim_encode]
      rfl
    | absent => cases hv
    | _ => exact hfit.elim
  | _ => cases htext

theorem read_absent (hfit : schema.Fits v) (hv : v.isAbsent = true) (hcur : cur.node = none) :
    schema.read cur d = (.ok (schema.settled v), d) := by
  obtain ⟨parent, node, info⟩ := cur
  obtain rfl : node = none := hcur
  obtain rfl := v.eq_absent hv
  rw [settled_absent]
  cases schema with
  | «optional» t => rfl
  | blob => rfl
  | list opt item itemInfo flattened =>
    obtain rfl : opt = true := hfit
    rfl
  | map opt value keyInfo valueInfo flattened =>
    obtain rfl : opt = true := hfit
    rfl
  | record opt members =>
    obtain rfl : opt = true := hfit
    rfl
  | _ => cases hfit

theorem read_empty (hfit : schema.Fits v) (hv : v.isAbsent = false)
    (hflat : schema.isFlattened = true) (hempty : schema.inside info scope v = [])
    (hcur : cur.node = none) : schema.read cur d = (.ok (schema.settled v), d) := by
  obtain ⟨parent, node, info⟩ := cur
  obtain rfl : node = none := hcur
  cases schema with
  | list opt item itemInfo flattened =>
    obtain rfl : flattened = true := hflat
    obtain ⟨vs, rfl, _⟩ := hfit.exists_list hv
    obtain rfl : vs = [] := List.map_eq_nil_iff.1 hempty
    cases opt <;> rfl
  | map opt value keyInfo valueInfo flattened =>
    obtain rfl : flattened = true := hflat
    obtain ⟨es, rfl, _⟩ := hfit.exists_map hv
    obtain rfl : es = [] := List.map_eq_nil_iff.1 hempty
    cases opt <;> rfl
  | _ => cases hflat

/-- The schema gives its values back, in settled form, from a tree or from siblings that show their
layout. -/
structure ReadsLayout (schema : Schema) : Prop where
  inside : ∀ v, schema.Fits v → v.isAbsent = false → schema.isFlattened = false →
    ∀ (d : Document) (t : Tree) (cur : Cursor) (own : NodeInfo) (scope : List Namespace), d.Sound →
      d.Holds t → cur.node = some t.id → t.Bears scope (schema.inside own scope v) →
        schema.read cur d = (.ok (schema.settled v), d)
  items : ∀ v, schema.Fits v → v.isAbsent = false → schema.isFlattened = true →
    ∀ (d : Document) (t u : Tree) (us : List Tree) (info : NodeInfo) (scope : List Namespace),
      d.Sound → d.Holds t → info.location = .element → t.named info = u :: us →
      (t.named info).map Tree.shown = (schema.inside info scope v).map (Shown.settle scope) →
        schema.read (standOn t.id info u) d = (.ok (schema.settled v), d)

theorem ReadsLayout.node (h : schema.ReadsLayout) (hinfo : info.IsProper)
    (htext : info.location = .attribute → schema.isText = true) (hfit : schema.Fits v)
    (hv : v.isAbsent = false) (hflat : schema.isFlattened = false) (hd : d.Sound) (ht : d.Holds t)
    (hcur : cur.node = some t.id) (hshown : t.shown =
      (shownAs info scope v fun scope => schema.inside info scope v).settle scope) :
    schema.read cur d = (.ok (schema.settled v), d) := by
  rcases hinfo.location with hl | ⟨hl, _⟩
  · rw [shownAs_element hl] at hshown
    exact h.inside v hfit hv hflat d t cur info _ hd ht hcur (bears_of_enclosed hshown)
  · rw [shownAs_attribute hl] at hshown
    rw [settled_text (htext hl)]
    refine read_text (htext hl) hfit hv ?_
    rw [text?_eq hd ht hcur, text_of_attribute hshown]

theorem ReadsLayout.placed (h : schema.ReadsLayout) (hinfo : info.IsProper)
    (htext : info.location = .attribute → schema.isText = true) (hfit : schema.Fits v)
    (hd : d.Sound) (ht : d.Holds t) (hcur : cur.node = some t.id)
    (hshown : (t.named info).map Tree.shown =
      (schema.placed info scope v fun scope => schema.inside info scope v).map
        (Shown.settle scope)) :
    schema.read (cur.descend d info) d = (.ok (schema.settled v), d) := by
  rw [descend_eq hd ht hcur]
  cases hv : v.isAbsent with
  | true =>
    rw [placed_absent hv, List.map_nil, List.map_eq_nil_iff] at hshown
    rw [hshown]
    exact read_absent hfit hv rfl
  | false =>
    cases hflat : schema.isFlattened with
    | true =>
      rw [placed_flattened hv hflat] at hshown
      cases hnamed : t.named info with
      | nil =>
        rw [hnamed, List.map_nil] at hshown
        exact read_empty hfit hv hflat (List.map_eq_nil_iff.1 hshown.symm) rfl
      | cons u us =>
        exact h.items v hfit hv hflat d t u us info scope hd ht
          (element_of_flattened hflat hinfo htext) hnamed hshown
    | false =>
      rw [placed_node hv hflat, List.map_singleton] at hshown
      obtain ⟨u, hu, hshown⟩ := List.map_eq_singleton_iff.1 hshown
      have hmem : u ∈ t.named info := hu ▸ List.mem_cons_self
      rw [hu]
      exact h.node hinfo htext hfit hv hflat hd (ht.named u hmem) rfl hshown

theorem filter_place {l : List Shown} {p : Location × String} (h : ∀ x ∈ l, x.place = p) :
    l.filter (·.place == p) = l :=
  List.filter_eq_self.2 fun x hx => beq_iff_eq.2 (h x hx)

theorem filter_other_place {l : List Shown} {p : Location × String} (h : ∀ x ∈ l, x.place ≠ p) :
    l.filter (·.place == p) = [] :=
  List.filter_eq_nil_iff.2 fun x hx heq => h x hx (beq_iff_eq.1 heq)

theorem filter_first {x y : Shown} {p : Location × String} (hx : x.place = p) (hy : y.place ≠ p) :
    [x, y].filter (·.place == p) = [x] := by
  simp [hx, hy]

theorem filter_second {x y : Shown} {p : Location × String} (hx : x.place ≠ p) (hy : y.place = p) :
    [x, y].filter (·.place == p) = [y] := by
  simp [hx, hy]

theorem named_of_place {l : List Shown} (h : t.Bears scope l) (hinfo : info.location = .element)
    (hl : ∀ x ∈ l, x.place = info.place) :
    (t.named info).map Tree.shown = l.map (Shown.settle scope) := by
  have hne : info.location ≠ .text := by
    rw [hinfo]
    decide
  have hplaces : ∀ x ∈ l, x.place.1 ≠ .text := fun x hx => by
    rw [hl x hx]
    exact hne
  rw [h.named hplaces hne, filter_place hl]

theorem reads_entry {value : Schema} {keyInfo valueInfo : NodeInfo} {e : String × Value}
    (hkey : keyInfo.IsProper) (hvalueInfo : valueInfo.IsProper)
    (hne : keyInfo.name ≠ valueInfo.name)
    (htext : valueInfo.location = .attribute → value.isText = true)
    (hflat : value.isFlattened = false) (hvalue : value.ReadsLayout) (hv : e.2.isAbsent = false)
    (hfit : value.Fits e.2) (hd : d.Sound) (ht : d.Holds t) (hcur : cur.node = some t.id)
    (hshown : t.shown = Shown.settle scope (.inr (entryShown info keyInfo valueInfo scope e
      fun scope => value.inside valueInfo scope e.2))) :
    ReadsEntry keyInfo valueInfo (fun c => value.read c) d cur e.1 (value.settled e.2) := by
  have hbears := bears_of_enclosed hshown
  generalize (info.ns.filter (· ∉ scope)).toList ++ scope = inner at hbears
  have hplaces : keyInfo.place ≠ valueInfo.place := fun h => hne (congrArg Prod.snd h)
  have hkeyPlace : (shownAs keyInfo inner (.scalar (.string e.1)) fun _ =>
      keyShown e.1).place = keyInfo.place := hkey.place_shownAs
  have hvaluePlace : (shownAs valueInfo inner e.2 fun scope =>
      value.inside valueInfo scope e.2).place = valueInfo.place := hvalueInfo.place_shownAs
  have hnodes : ∀ x ∈ [shownAs keyInfo inner (.scalar (.string e.1)) fun _ => keyShown e.1,
      shownAs valueInfo inner e.2 fun scope => value.inside valueInfo scope e.2],
      x.place.1 ≠ .text := by
    simp only [List.forall_mem_cons]
    refine ⟨?_, ?_, nofun⟩
    · rw [hkeyPlace]
      exact hkey.ne_text
    · rw [hvaluePlace]
      exact hvalueInfo.ne_text
  constructor
  · have hnamed := hbears.named hnodes hkey.ne_text
    rw [filter_first hkeyPlace (hvaluePlace ▸ hplaces.symm), List.map_singleton] at hnamed
    obtain ⟨u, hu, hshown⟩ := List.map_eq_singleton_iff.1 hnamed
    have hmem : u ∈ t.named keyInfo := hu ▸ List.mem_cons_self
    rw [descend_eq hd ht hcur, hu]
    rw [text?_eq hd (ht.named u hmem) rfl, text_of_shown hkey rfl hshown]
    rfl
  · have hnamed := hbears.named hnodes hvalueInfo.ne_text
    rw [filter_second (hkeyPlace ▸ hplaces) hvaluePlace, ← placed_node hv hflat] at hnamed
    exact hvalue.placed hvalueInfo htext hfit hd ht hcur hnamed

theorem reads_members : ∀ (members : List (Member × Schema)) (fields : List (String × Value)),
    FitAll members fields → (members.map (·.1.info.place)).Nodup →
    (∀ m ∈ members, m.1.info.IsProper ∧ (m.1.info.location = .attribute → m.2.isText = true) ∧
      m.2.ReadsLayout) → d.Sound → d.Holds t → cur.node = some t.id →
    (∀ m ∈ members, (t.named m.1.info).map Tree.shown = ((membersShown members scope fields).filter
      (·.place == m.1.info.place)).map (Shown.settle scope)) →
    readMembers members cur d = (.ok (settledAll members fields), d)
  | [], [], _, _, _, _, _, _, _ => rfl
  | (m, schema) :: rest, (key, v) :: fields, hfit, hplaces, hmembers, hd, ht, hcur, hnamed => by
    rw [List.map_cons, List.nodup_cons] at hplaces
    rw [List.forall_mem_cons] at hmembers hnamed
    obtain ⟨rfl, hfirst, hrest⟩ := hfit
    obtain ⟨⟨hinfo, htext, hreads⟩, hmore⟩ := hmembers
    have hown : ∀ x ∈ schema.placed m.info scope v fun scope => schema.inside m.info scope v,
        x.place = m.info.place := place_of_mem_placed hinfo htext
    have hothers : ∀ x ∈ membersShown rest scope fields, x.place ∈ rest.map (·.1.info.place) :=
      place_of_mem_membersShown fun m hm => ⟨(hmore m hm).1, (hmore m hm).2.1⟩
    have hfirstNamed : (t.named m.info).map Tree.shown =
        (schema.placed m.info scope v fun scope => schema.inside m.info scope v).map
          (Shown.settle scope) := by
      rw [hnamed.1, membersShown, List.filter_append, filter_place hown, filter_other_place,
        List.append_nil]
      exact fun x hx heq => hplaces.1 (heq ▸ hothers x hx)
    have hread : schema.read (cur.descend d m.info) d = (.ok (schema.settled v), d) :=
      hreads.placed hinfo htext hfirst hd ht hcur hfirstNamed
    have hreadMore := reads_members rest fields hrest hplaces.2 hmore hd ht hcur fun n hn => by
      have hne : m.info.place ≠ n.1.info.place := fun heq =>
        hplaces.1 (heq ▸ List.mem_map_of_mem hn)
      rw [hnamed.2 n hn, membersShown, List.filter_append, filter_other_place, List.nil_append]
      exact fun x hx heq => hne ((hown x hx).symm.trans heq)
    change (schema.read (cur.descend d m.info) >>= fun v => readMembers rest cur >>= fun more =>
      pure ((m.key, v) :: more)) d = _
    rw [bind_of_ok hread, bind_of_ok hreadMore]
    rfl

theorem readsLayout_text (htext : schema.isText = true) : schema.ReadsLayout := by
  refine ⟨fun v hfit hv _ d t cur own scope hd ht hcur hbears => ?_, fun _ _ _ hflat => ?_⟩
  · rw [inside_text htext] at hbears
    rw [settled_text htext]
    exact read_text htext hfit hv (by rw [text?_eq hd ht hcur, hbears.text_eq])
  · rw [not_isText hflat] at htext
    cases htext

theorem reads_items {item : Schema} {vs : List Value} (info : NodeInfo)
    (hitem : item.ReadsLayout) (hflat : item.isFlattened = false)
    (hfit : ∀ v ∈ vs, v.isAbsent = false ∧ item.Fits v) (hd : d.Sound) (ht : d.Holds t)
    (hnamed : (t.named info).map Tree.shown = (vs.map fun v =>
      .inr (enclosed info scope fun scope => item.inside info scope v)).map (Shown.settle scope)) :
    readEach (fun c => item.read c) ((t.named info).map (standOn t.id info)) d =
      (.ok (vs.map fun v => item.settled v), d) := by
  rw [List.map_map] at hnamed
  refine reads_each _ vs hnamed fun u hu v hv hshown => ?_
  exact hitem.inside v (hfit v hv).2 (hfit v hv).1 hflat d u _ info _ hd (ht.named u hu) rfl
    (bears_of_enclosed hshown)

theorem readsLayout_list {item : Schema} {itemInfo : NodeInfo} (opt flattened : Bool)
    (hl : itemInfo.location = .element) (hflat : item.isFlattened = false)
    (hitem : item.ReadsLayout) : ReadsLayout (.list opt item itemInfo flattened) := by
  refine ⟨fun v hfit hv hown d t cur own scope hd ht hcur hbears => ?_,
    fun v hfit hv hown d t u us info scope hd ht hinfo hu hshown => ?_⟩
  · obtain rfl : flattened = false := hown
    obtain ⟨vs, rfl, hvs⟩ := hfit.exists_list hv
    have hplaces : ∀ x ∈ Schema.inside (.list opt item itemInfo false) own scope (.list vs),
        x.place = itemInfo.place := by
      intro x hx
      obtain ⟨_, _, rfl⟩ := List.mem_map.1 hx
      exact place_enclosed hl
    have hread := reads_items itemInfo hitem hflat hvs hd ht (named_of_place hbears hl hplaces)
    rw [Schema.read, bind_of_ok (itemCursors_nested hd ht hcur itemInfo)]
    dsimp only
    rw [bind_of_ok hread, settled, if_neg fun h => Bool.false_ne_true h.2.1]
    rfl
  · obtain rfl : flattened = true := hown
    obtain ⟨vs, rfl, hvs⟩ := hfit.exists_list hv
    have hne : vs ≠ [] := by
      rintro rfl
      rw [hu] at hshown
      cases hshown
    have hread := reads_items info hitem hflat hvs hd ht hshown
    rw [Schema.read, bind_of_ok (itemCursors_flattened hd ht hu itemInfo)]
    dsimp only
    rw [bind_of_ok hread, settled, if_neg fun h => hne h.2.2]
    rfl

theorem readsLayout_map {value : Schema} {keyInfo valueInfo : NodeInfo} (opt flattened : Bool)
    (hkey : keyInfo.IsProper) (hvalueInfo : valueInfo.IsProper)
    (hne : keyInfo.name ≠ valueInfo.name)
    (htext : valueInfo.location = .attribute → value.isText = true)
    (hflat : value.isFlattened = false) (hvalue : value.ReadsLayout) :
    ReadsLayout (.map opt value keyInfo valueInfo flattened) := by
  -- Entries are read alike below a node of their own and beside it.
  have hentries : ∀ es : List (String × Value), (es.map Prod.fst).Pairwise (· < ·) →
      (∀ e ∈ es, e.2.isAbsent = false ∧ value.Fits e.2) →
      ∀ (d : Document) (t : Tree) (info : NodeInfo) (scope : List Namespace), d.Sound → d.Holds t →
        (t.named info).map Tree.shown = (es.map fun e => .inr (entryShown info keyInfo valueInfo
          scope e fun scope => value.inside valueInfo scope e.2)).map (Shown.settle scope) →
        readEntries keyInfo valueInfo (fun c => value.read c)
          ((t.named info).map (standOn t.id info)) [] d =
            (.ok (es.map fun e => (e.1, value.settled e.2)), d) := by
    intro es hsorted hes d t info scope hd ht hnamed
    rw [List.map_map] at hnamed
    refine reads_entries _ es [] hnamed hsorted fun u hu e he hshown => ?_
    exact reads_entry hkey hvalueInfo hne htext hflat hvalue (hes e he).1 (hes e he).2 hd
      (ht.named u hu) rfl hshown
  refine ⟨fun v hfit hv hown d t cur own scope hd ht hcur hbears => ?_,
    fun v hfit hv hown d t u us info scope hd ht hinfo hu hshown => ?_⟩
  · obtain rfl : flattened = false := hown
    obtain ⟨es, rfl, hsorted, hes⟩ := hfit.exists_map hv
    have hplaces : ∀ x ∈ Schema.inside (.map opt value keyInfo valueInfo false) own scope (.map es),
        x.place = entryInfo.place := by
      intro x hx
      obtain ⟨_, _, rfl⟩ := List.mem_map.1 hx
      exact place_enclosed rfl
    have hread := hentries es hsorted hes d t entryInfo scope hd ht
      (named_of_place hbears rfl hplaces)
    rw [Schema.read, bind_of_ok (itemCursors_nested hd ht hcur entryInfo)]
    dsimp only
    rw [bind_of_ok hread, settled, if_neg fun h => Bool.false_ne_true h.2.1]
    rfl
  · obtain rfl : flattened = true := hown
    obtain ⟨es, rfl, hsorted, hes⟩ := hfit.exists_map hv
    have hnonempty : es ≠ [] := by
      rintro rfl
      rw [hu] at hshown
      cases hshown
    have hread := hentries es hsorted hes d t info scope hd ht hshown
    rw [Schema.read, bind_of_ok (itemCursors_flattened hd ht hu entryInfo)]
    dsimp only
    rw [bind_of_ok hread, settled, if_neg fun h => hnonempty h.2.2]
    rfl

theorem readsLayout_record {members : List (Member × Schema)} (opt : Bool)
    (hplaces : (members.map (·.1.info.place)).Nodup)
    (hmembers : ∀ m ∈ members, m.1.info.IsProper ∧
      (m.1.info.location = .attribute → m.2.isText = true) ∧ m.2.ReadsLayout) :
    ReadsLayout (.record opt members) := by
  refine ⟨fun v hfit hv _ d t cur own scope hd ht hcur hbears => ?_,
    fun _ _ _ hown => (Bool.false_ne_true hown).elim⟩
  obtain ⟨fields, rfl, hfields⟩ := hfit.exists_record hv
  have hproper : ∀ m ∈ members, m.1.info.IsProper ∧
      (m.1.info.location = .attribute → m.2.isText = true) := fun m hm =>
    ⟨(hmembers m hm).1, (hmembers m hm).2.1⟩
  have hnodes : ∀ x ∈ membersShown members scope fields, x.place.1 ≠ .text := by
    intro x hx
    obtain ⟨m, hm, hplace⟩ := List.mem_map.1 (place_of_mem_membersShown hproper x hx)
    rw [← hplace]
    exact (hproper m hm).1.ne_text
  have hread := reads_members members fields hfields hplaces hmembers hd ht hcur fun m hm =>
    hbears.named hnodes (hproper m hm).1.ne_text
  have hpresent : cur.isPresent = true := by
    rw [Cursor.isPresent, hcur]
    rfl
  rw [Schema.read, if_neg fun h => absurd h.2 (by rw [hpresent]; decide), bind_of_ok hread]
  rfl

theorem hereditary_readsLayout : Hereditary ReadsLayout where
  text := fun _ htext => readsLayout_text htext
  list := fun opt _ _ flattened _ hl hflat hitem => readsLayout_list opt flattened hl hflat hitem
  map := fun opt _ _ _ flattened hkey hvalueInfo hne htext hflat hvalue =>
    readsLayout_map opt flattened hkey hvalueInfo hne htext hflat hvalue
  record := fun opt _ _ hplaces hmembers => readsLayout_record opt hplaces hmembers

end Schema

end ServiceClient.Xml
