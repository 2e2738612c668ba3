import ServiceClient.Proofs.Xml.Normal
import ServiceClient.Proofs.Xml.Resolution
import ServiceClient.Proofs.Xml.Spelling

/-! Parsed documents that are written and parsed again. Names need not be names here: a tag comes
back wherever it is clear in its written form. What may change is which of its declarations it takes
for its own, and that only if it had none of its own left but declared some. -/

namespace ServiceClient.Xml

open Text (Octets encode)

section Again

variable {l : List Namespace} {others : List Attribute} {p : String} {t : RawTag}

def Tag.IsSettled (t : Tag) : Prop :=
  t.ns = none → ∀ a ∈ t.attributes, a.declares? = none

instance (t : Tag) : Decidable t.IsSettled :=
  inferInstanceAs (Decidable (_ → _))

theorem takeNamespace_map_append (hothers : ∀ a ∈ others, a.declares? = none) :
    takeNamespace p (l.map Namespace.attribute ++ others) =
      let i := (l.findIdx? (·.nsPrefix == p)).getD 0
      (l[i]?, (l.eraseIdx i).map Namespace.attribute ++ others) := by
  have hdeclares : Attribute.declares? ∘ Namespace.attribute = some := by
    funext ns
    exact ns.declares?_attribute
  have hdeclared : (l.map Namespace.attribute ++ others).filterMap Attribute.declares? = l := by
    rw [List.filterMap_append, List.filterMap_map, hdeclares, List.filterMap_some,
      List.filterMap_eq_nil_iff.2 hothers, List.append_nil]
  have hrest : (l.map Namespace.attribute ++ others).filter (·.declares?.isNone) = others := by
    rw [List.filter_append, List.filter_eq_nil_iff.2, List.filter_eq_self.2, List.nil_append]
    · exact fun a ha => by rw [hothers a ha]; rfl
    · intro a ha
      obtain ⟨ns, -, rfl⟩ := List.mem_map.1 ha
      rw [Namespace.attribute, ns.declares?_attribute]
      exact Bool.false_ne_true
  rw [takeNamespace, hdeclared, hrest]
  rfl

theorem length_takeNamespace_lt (hothers : ∀ a ∈ others, a.declares? = none) (hl : l ≠ []) :
    (takeNamespace p (l.map Namespace.attribute ++ others)).2.length <
      (l.map Namespace.attribute ++ others).length := by
  have hindex : (l.findIdx? (·.nsPrefix == p)).getD 0 < l.length := by
    cases hfind : l.findIdx? (·.nsPrefix == p) with
    | none => exact List.length_pos_iff.2 hl
    | some i => exact (List.findIdx?_eq_some_iff_getElem.1 hfind).1
  rw [takeNamespace_map_append hothers]
  simp only [List.length_append, List.length_map]
  rw [List.length_eraseIdx_of_lt hindex]
  omega

theorem exists_attributes_tagIn (scope : List Namespace) (t : RawTag) :
    ∃ rest others, (t.own.toList ++ rest).Perm t.declared ∧ (∀ a ∈ others, a.declares? = none) ∧
      (t.tagIn scope).attributes = rest.map Namespace.attribute ++ others := by
  refine ⟨_, t.attributes.filter (·.declares?.isNone), ?_, fun a ha => ?_, rfl⟩
  · rw [← takeNamespace_own]
    exact getElem?_append_eraseIdx_perm t.declared _
  · simpa using (List.mem_filter.1 ha).2

/-- What a tag has taken for its own it takes again, if that comes first. -/
theorem findIdx?_own {ns : Namespace} {rest : List Namespace} (hown : t.own = some ns)
    (hperm : (ns :: rest).Perm t.declared) :
    ((ns :: rest).findIdx? (·.nsPrefix == t.nsPrefix)).getD 0 = 0 := by
  by_cases hns : ns.nsPrefix = t.nsPrefix
  · simp [List.findIdx?_cons, hns]
  · -- It was the first one because none was for the prefix, and none is among the others.
    have hnone : t.declared.find? (·.nsPrefix == t.nsPrefix) = none := by
      rw [RawTag.own] at hown
      cases hfind : t.declared.find? (·.nsPrefix == t.nsPrefix) with
      | none => rfl
      | some found =>
        rw [hfind] at hown
        obtain rfl := Option.some.inj hown
        exact absurd (by simpa using List.find?_some hfind) hns
    have hnot : (ns :: rest).findIdx? (·.nsPrefix == t.nsPrefix) = none := by
      rw [List.findIdx?_eq_none_iff]
      intro more hmore
      simpa using List.find?_eq_none.1 hnone more (hperm.subset hmore)
    rw [hnot]
    rfl

theorem tagIn_raw_tagIn (scope again : List Namespace) (t : RawTag) :
    (t.tagIn scope).raw.tagIn again = { t.tagIn scope with
      ns := (takeNamespace t.nsPrefix (t.tagIn scope).written).1.filter (· ∉ again)
      attributes := (takeNamespace t.nsPrefix (t.tagIn scope).written).2 } := by
  rw [RawTag.tagIn, t.nsPrefix_raw]
  rfl

/-- A tag is read again as it is if it has a namespace of its own. Without one it takes one if it
declares any. -/
theorem tagIn_raw_tagIn_iff (scope : List Namespace) (t : RawTag) :
    (t.tagIn scope).raw.tagIn scope = t.tagIn scope ↔ (t.tagIn scope).IsSettled := by
  obtain ⟨rest, others, hperm, hothers, hattributes⟩ := exists_attributes_tagIn scope t
  have hfilter : (t.tagIn scope).ns = t.own.filter (· ∉ scope) := by
    rw [← takeNamespace_own]
    rfl
  have hwritten : (t.tagIn scope).written =
      ((t.tagIn scope).ns.toList ++ rest).map Namespace.attribute ++ others := by
    rw [Tag.written, hattributes]
    cases (t.tagIn scope).ns <;> rfl
  rw [tagIn_raw_tagIn, hwritten, Tag.IsSettled]
  generalize t.tagIn scope = tag at hfilter hattributes
  obtain ⟨name, nsPrefix, ns, attributes⟩ := tag
  dsimp only at hfilter hattributes ⊢
  cases hns : ns with
  | some ns =>
    rw [hns] at hfilter
    obtain ⟨hown, hscope⟩ := Option.filter_eq_some_iff.1 hfilter.symm
    rw [hown, Option.toList_some, List.singleton_append] at hperm
    rw [takeNamespace_map_append hothers, Option.toList_some, List.singleton_append,
      findIdx?_own hown hperm, hattributes]
    simp [Option.filter, of_decide_eq_true hscope]
  | none =>
    rw [Option.toList_none, List.nil_append, hattributes]
    cases rest with
    | nil =>
      rw [takeNamespace_map_append hothers]
      simpa using hothers
    | cons ns rest =>
      refine iff_of_false (fun heq => ?_) fun hnone => ?_
      · have hless := length_takeNamespace_lt (p := t.nsPrefix) hothers (List.cons_ne_nil ns rest)
        have hlength := congrArg (fun tag : Tag => tag.attributes.length) heq
        exact absurd hlength (Nat.ne_of_lt hless)
      · have hdeclares := hnone rfl ns.attribute (List.mem_append_left _ List.mem_cons_self)
        rw [Namespace.attribute, ns.declares?_attribute] at hdeclares
        cases hdeclares

theorem filter_takeNamespace (p : String) (attributes : List Attribute) :
    (takeNamespace p attributes).2.filter (·.declares?.isNone) =
      attributes.filter (·.declares?.isNone) := by
  rw [takeNamespace]
  dsimp only
  rw [List.filter_append, List.filter_eq_nil_iff.2, List.filter_filter, List.nil_append]
  · simp only [Bool.and_self]
  · intro a ha
    obtain ⟨ns, -, rfl⟩ := List.mem_map.1 ha
    rw [ns.declares?_attribute]
    exact Bool.false_ne_true

theorem filter_written (tag : Tag) :
    tag.written.filter (·.declares?.isNone) = tag.attributes.filter (·.declares?.isNone) := by
  rw [Tag.written]
  cases tag.ns with
  | none => rfl
  | some ns =>
    dsimp only
    rw [List.singleton_append, List.filter_cons_of_neg]
    rw [ns.declares?_attribute]
    exact Bool.false_ne_true

end Again

section Outlines

namespace Outline

def isDeclaration (o : Outline) : Bool :=
  o.isAt .attribute && (Attribute.mk o.info.name o.text).declares?.isSome

mutual

def compact : Outline → Outline
  | .node info nsPrefix text children =>
    .node info nsPrefix text ((compacts children).filter (!·.isEmptyText))

def compacts : List Outline → List Outline
  | [] => []
  | o :: os => o.compact :: compacts os

end

mutual

def bare : Outline → Outline
  | .node info nsPrefix text children => .node { info with ns := none } nsPrefix text
      ((bares children).filter fun o => !o.isEmptyText && !o.isDeclaration)

def bares : List Outline → List Outline
  | [] => []
  | o :: os => o.bare :: bares os

end

theorem compacts_eq_map (os : List Outline) : compacts os = os.map compact := by
  induction os with
  | nil => rfl
  | cons o os ih => rw [compacts, ih, List.map_cons]

theorem bares_eq_map (os : List Outline) : bares os = os.map bare := by
  induction os with
  | nil => rfl
  | cons o os ih => rw [bares, ih, List.map_cons]

end Outline

def Content.isEmptyText : Content → Bool
  | .text s => s == ""
  | .element _ _ => false

theorem outline_element (tag : Tag) (content : List Content) :
    (Content.element tag content).outline = .node ⟨tag.name, .element, tag.ns⟩ tag.nsPrefix ""
      (tag.attributes.map Attribute.outline ++ content.map Content.outline) := by
  rw [Content.outline, contentOutlines_eq_map]

theorem compact_element (tag : Tag) (content : List Content) :
    (Content.element tag content).outline.compact =
      .node ⟨tag.name, .element, tag.ns⟩ tag.nsPrefix "" (tag.attributes.map Attribute.outline ++
        (content.filter (!·.isEmptyText)).map (Outline.compact ∘ Content.outline)) := by
  have hattributes : (tag.attributes.map Attribute.outline).map Outline.compact =
      tag.attributes.map Attribute.outline := by
    rw [List.map_map]
    rfl
  have hkept : ∀ o ∈ tag.attributes.map Attribute.outline, (!o.isEmptyText) = true := by
    intro o ho
    obtain ⟨a, -, rfl⟩ := List.mem_map.1 ho
    rfl
  have hcontent : (fun o : Outline => !o.isEmptyText) ∘ Outline.compact ∘ Content.outline =
      (!·.isEmptyText) := by
    funext c
    cases c <;> rfl
  rw [outline_element, Outline.compact, Outline.compacts_eq_map, List.map_append, hattributes,
    List.filter_append, List.filter_eq_self.2 hkept, List.map_map, List.filter_map, hcontent]

theorem bare_element (tag : Tag) (content : List Content) :
    (Content.element tag content).outline.bare = .node ⟨tag.name, .element, none⟩ tag.nsPrefix ""
      ((tag.attributes.filter (·.declares?.isNone)).map Attribute.outline ++
        (content.filter (!·.isEmptyText)).map (Outline.bare ∘ Content.outline)) := by
  have hattributes : (tag.attributes.map Attribute.outline).map Outline.bare =
      tag.attributes.map Attribute.outline := by
    rw [List.map_map]
    rfl
  have hkept : (fun o : Outline => !o.isEmptyText && !o.isDeclaration) ∘ Attribute.outline =
      (·.declares?.isNone) := by
    funext a
    exact Option.not_isSome _
  have hcontent : (fun o : Outline => !o.isEmptyText && !o.isDeclaration) ∘
      Outline.bare ∘ Content.outline = (!·.isEmptyText) := by
    funext c
    cases c with
    | text s => exact Bool.and_true _
    | element tag inner => rfl
  rw [outline_element, Outline.bare, Outline.bares_eq_map, List.map_append, hattributes,
    List.filter_append, List.filter_map, hkept, List.map_map, List.filter_map, hcontent]

end Outlines

section Trimmed

variable {content before : List Content}

theorem Apart.head? {c : Content} (h : Apart (c :: content)) (hc : c.isElement = false) :
    ∀ d ∈ content.head?, d.isElement = true := by
  cases h with
  | singleton => exact nofun
  | cons_cons hcd _ =>
    intro d hd
    obtain rfl := Option.some.inj hd
    exact hcd.resolve_left (by rw [hc]; exact Bool.false_ne_true)

theorem foldl_pile_of_apart (h : Apart content)
    (hbefore : ∀ c ∈ content.head?, c.isElement = false → ∀ b ∈ before.head?, b.isElement = true) :
    content.foldl pile before = (content.filter (!·.isEmptyText)).reverse ++ before := by
  induction content generalizing before with
  | nil => rfl
  | cons c cs ih =>
    rw [List.foldl_cons]
    cases c with
    | element tag inner =>
      rw [pile, ih h.tail fun _ _ _ b hb => by obtain rfl := Option.some.inj hb; rfl,
        List.filter_cons_of_pos rfl, List.reverse_cons, List.append_assoc]
      rfl
    | text s =>
      have hnext := h.head? rfl
      have hgoes : ∀ {more : List Content}, ∀ c ∈ cs.head?, c.isElement = false →
          ∀ b ∈ more.head?, b.isElement = true := by
        intro more c hc hfalse
        rw [hnext c hc] at hfalse
        cases hfalse
      rw [pile, ih h.tail hgoes]
      by_cases hs : s = ""
      · rw [hs, push_empty, List.filter_cons_of_neg (by exact Bool.false_ne_true)]
      · have hkept : (Content.text s :: cs).filter (!·.isEmptyText) =
            .text s :: cs.filter (!·.isEmptyText) :=
          List.filter_cons_of_pos (by simpa [Content.isEmptyText] using hs)
        rw [push_eq_append s (hbefore _ rfl rfl), push_of_ne hs, hkept, List.reverse_cons,
          List.append_assoc]
        rfl

theorem gather_of_apart (h : Apart content) : gather content = content.filter (!·.isEmptyText) := by
  rw [gather, foldl_pile_of_apart h (by simp), List.append_nil, List.reverse_reverse]

theorem Solid.filter (h : Solid content) (p : Content → Bool) : Solid (content.filter p) := by
  intro hany c hc
  obtain ⟨d, hd, helement⟩ := List.any_eq_true.1 hany
  exact h (List.any_eq_true.2 ⟨d, List.mem_of_mem_filter hd, helement⟩) c (List.mem_of_mem_filter hc)

theorem dropIndentation_of_solid (h : Solid content) : dropIndentation content = content := by
  rw [dropIndentation]
  split_ifs with hany
  · exact List.filter_eq_self.2 fun c hc => by rw [h hany c hc]; rfl
  · rfl

theorem rereadAll_eq_map (scope : List Namespace) (content : List Content) :
    rereadAll scope content = content.map (Content.reread scope) := by
  induction content with
  | nil => rfl
  | cons c cs ih => rw [rereadAll, ih, List.map_cons]

theorem isElement_reread (scope : List Namespace) (c : Content) :
    (c.reread scope).isElement = c.isElement := by
  cases c <;> rfl

theorem isBlankText_reread (scope : List Namespace) (c : Content) :
    (c.reread scope).isBlankText = c.isBlankText := by
  cases c <;> rfl

theorem filter_map_reread (scope : List Namespace) (content : List Content) :
    (content.map (Content.reread scope)).filter (!·.isEmptyText) =
      (content.filter (!·.isEmptyText)).map (Content.reread scope) := by
  have hempty : (fun c : Content => !c.isEmptyText) ∘ Content.reread scope = (!·.isEmptyText) := by
    funext c
    cases c <;> rfl
  rw [List.filter_map, hempty]

/-- Of trimmed content nothing is lost but empty texts. -/
theorem rereadContent_of_trimmed (scope : List Namespace) (hapart : Apart content)
    (hsolid : Solid content) : rereadContent scope content =
      (content.filter (!·.isEmptyText)).map (Content.reread scope) := by
  have hapart' : Apart (content.map (Content.reread scope)) := by
    rw [Apart, List.isChain_map]
    exact hapart.imp fun a b hab => by rwa [isElement_reread, isElement_reread]
  have hsolid' : Solid (content.map (Content.reread scope)) := by
    intro hany
    obtain ⟨_, hmem, helement⟩ := List.any_eq_true.1 hany
    obtain ⟨d, hd, rfl⟩ := List.mem_map.1 hmem
    rw [isElement_reread] at helement
    refine List.forall_mem_map.2 fun c hc => ?_
    rw [isBlankText_reread, hsolid (List.any_eq_true.2 ⟨d, hd, helement⟩) c hc]
  rw [rereadContent, rereadAll_eq_map, gather_of_apart hapart',
    dropIndentation_of_solid (hsolid'.filter _), filter_map_reread]

theorem reread_element (scope : List Namespace) (tag : Tag) (hapart : Apart content)
    (hsolid : Solid content) : (Content.element tag content).reread scope =
      .element (tag.raw.tagIn scope) ((content.filter (!·.isEmptyText)).map
        (Content.reread ((tag.raw.tagIn scope).scope scope))) := by
  rw [← rereadContent_of_trimmed _ hapart hsolid]
  rfl

end Trimmed

section Comparing

mutual

/-- Whatever becomes of the declarations of a tag, and inside which namespaces, all else stays. -/
theorem bare_reread (scope around : List Namespace) : ∀ c : Content, c.IsTrimmed →
    c.IsRead around → (c.reread scope).outline.bare = c.outline.bare
  | .text s, _, _ => rfl
  | .element tag content, ⟨hapart, hsolid, htrimmed⟩, ⟨⟨raw, t, _, htag⟩, _, hread⟩ => by
    have hinner := bare_rereadAll ((tag.raw.tagIn scope).scope scope) _ content htrimmed hread
    have hcontent : (content.filter (!·.isEmptyText)).map ((Outline.bare ∘ Content.outline) ∘
        Content.reread ((tag.raw.tagIn scope).scope scope)) =
          (content.filter (!·.isEmptyText)).map (Outline.bare ∘ Content.outline) :=
      List.map_congr_left fun c hc => hinner c (List.mem_of_mem_filter hc)
    have hagain := tagIn_raw_tagIn around scope t
    rw [← htag] at hagain
    have hattributes := (filter_takeNamespace t.nsPrefix tag.written).trans (filter_written tag)
    rw [reread_element scope tag hapart hsolid, bare_element, bare_element, filter_map_reread,
      List.filter_filter, List.map_map]
    simp only [Bool.and_self]
    rw [hcontent, hagain, hattributes]

theorem bare_rereadAll (scope around : List Namespace) : ∀ cs : List Content, AreTrimmed cs →
    AreRead around cs → ∀ c ∈ cs, (c.reread scope).outline.bare = c.outline.bare
  | [], _, _ => nofun
  | c :: cs, htrimmed, hread => List.forall_mem_cons.2
    ⟨bare_reread scope around c htrimmed.1 hread.1, bare_rereadAll scope around cs htrimmed.2 hread.2⟩

end

theorem outline_injective : Function.Injective Attribute.outline := by
  rintro ⟨name, value⟩ ⟨name', value'⟩ h
  obtain ⟨hinfo, -, rfl, -⟩ := Outline.node.inj h
  obtain rfl : name = name' := congrArg NodeInfo.name hinfo
  rfl

theorem eq_of_outlines_append {l l' : List Attribute} {os os' : List Outline}
    (hos : ∀ o ∈ os, ¬ o.isAt .attribute = true) (hos' : ∀ o ∈ os', ¬ o.isAt .attribute = true)
    (h : l.map Attribute.outline ++ os = l'.map Attribute.outline ++ os') : l = l' ∧ os = os' := by
  have hkept : ∀ l : List Attribute,
      (l.map Attribute.outline).filter (Outline.isAt .attribute) = l.map Attribute.outline := by
    intro l
    exact List.filter_eq_self.2 (List.forall_mem_map.2 fun a _ => rfl)
  have hattributes := congrArg (List.filter (Outline.isAt .attribute)) h
  rw [List.filter_append, List.filter_append, hkept, hkept, List.filter_eq_nil_iff.2 hos,
    List.filter_eq_nil_iff.2 hos', List.append_nil, List.append_nil] at hattributes
  rw [hattributes] at h
  exact ⟨List.map_injective_iff.2 outline_injective hattributes, List.append_cancel_left h⟩

theorem Tag.eq_of_parts {t u : Tag} (hname : t.name = u.name) (hqualifier : t.nsPrefix = u.nsPrefix)
    (hns : t.ns = u.ns) (hattributes : t.attributes = u.attributes) : t = u := by
  obtain ⟨_, _, _, _⟩ := t
  obtain ⟨_, _, _, _⟩ := u
  cases hname
  cases hqualifier
  cases hns
  cases hattributes
  rfl

mutual

/-- A tree is read again as it is, but for empty texts, if and only if all its tags are. -/
theorem outline_reread_iff (scope : List Namespace) : ∀ c : Content, c.IsTrimmed → c.IsRead scope →
    ((c.reread scope).outline = c.outline.compact ↔ c.Every fun tag _ => tag.IsSettled)
  | .text s, _, _ => iff_of_true rfl trivial
  | .element tag content, ⟨hapart, hsolid, htrimmed⟩, ⟨⟨raw, t, _, htag⟩, _, hread⟩ => by
    have hsettled : tag.raw.tagIn scope = tag ↔ tag.IsSettled := by
      rw [htag]
      exact tagIn_raw_tagIn_iff scope t
    have hinner := outline_rereadAll_iff (tag.scope scope) content htrimmed hread
    rw [reread_element scope tag hapart hsolid, outline_element, compact_element, List.map_map]
    constructor
    · -- What is inside can only be compared once the tag, and with it the scope, is the same.
      intro h
      obtain ⟨hinfo, hqualifier, -, hchildren⟩ := Outline.node.inj h
      obtain ⟨hname, -, hns⟩ := NodeInfo.mk.inj hinfo
      obtain ⟨hattributes, hcontent⟩ := eq_of_outlines_append
        (List.forall_mem_map.2 fun c _ => by cases c <;> exact Bool.false_ne_true)
        (List.forall_mem_map.2 fun c _ => by cases c <;> exact Bool.false_ne_true) hchildren
      have hself := Tag.eq_of_parts hname hqualifier hns hattributes
      rw [hself] at hcontent
      exact ⟨hsettled.1 hself, hinner.1 hcontent⟩
    · rintro ⟨hself, hcontent⟩
      rw [hsettled.2 hself, hinner.2 hcontent]

theorem outline_rereadAll_iff (scope : List Namespace) : ∀ cs : List Content, AreTrimmed cs →
    AreRead scope cs → ((cs.filter (!·.isEmptyText)).map (Content.outline ∘ Content.reread scope) =
      (cs.filter (!·.isEmptyText)).map (Outline.compact ∘ Content.outline) ↔
        EveryIn (fun tag _ => tag.IsSettled) cs)
  | [], _, _ => iff_of_true rfl trivial
  | c :: cs, htrimmed, hread => by
    have hfirst := outline_reread_iff scope c htrimmed.1 hread.1
    have hmore := outline_rereadAll_iff scope cs htrimmed.2 hread.2
    by_cases hempty : c.isEmptyText = true
    · cases c with
      | text s =>
        rw [List.filter_cons_of_neg (by simp [hempty]), EveryIn]
        exact hmore.trans (and_iff_right trivial).symm
      | element tag inner => cases hempty
    · rw [List.filter_cons_of_pos (by simp [hempty]), List.map_cons, List.map_cons, EveryIn,
        List.cons.injEq]
      exact and_congr hfirst hmore

end

end Comparing

section Clear

/-- A tag whose parts can be told apart where it is written, that neither starts nor ends like other
markup, and whose end is found. It is `hollow` if there is nothing inside the element. -/
structure Tag.IsClear (t : Tag) (hollow : Bool) : Prop where
  colon : t.nsPrefix = none → ':' ∉ t.name.toList
  distinct : (t.written.map Attribute.name).Nodup
  stop : tagEnd .outside (t.octets ++ [octet '>']) = .ok (t.octets, [])
  first : ∀ b ∈ (t.octets ++ [octet (if hollow then '/' else '>')]).head?,
    b ≠ octet '!' ∧ b ≠ octet '/' ∧ b ≠ octet '?'
  last : hollow = false → t.octets.getLast? ≠ some (octet '/')

instance (t : Tag) (hollow : Bool) : Decidable (t.IsClear hollow) :=
  decidable_of_iff ((t.nsPrefix = none → ':' ∉ t.name.toList) ∧
      (t.written.map Attribute.name).Nodup ∧
      tagEnd .outside (t.octets ++ [octet '>']) = .ok (t.octets, []) ∧
      (∀ b ∈ (t.octets ++ [octet (if hollow then '/' else '>')]).head?,
        b ≠ octet '!' ∧ b ≠ octet '/' ∧ b ≠ octet '?') ∧
      (hollow = false → t.octets.getLast? ≠ some (octet '/')))
    ⟨fun ⟨a, b, c, d, e⟩ => ⟨a, b, c, d, e⟩, fun h => ⟨h.colon, h.distinct, h.stop, h.first, h.last⟩⟩

variable {raw : Octets} {t : RawTag} {tag : Tag} {scope : List Namespace}

theorem RawTag.solid_of_read (h : RawTag.read raw = .ok t) :
    ∀ b ∈ encode (t.tagIn scope).qualifiedName, isSpace b = false := by
  intro b hb
  have hmem : b ∈ tagName raw := by
    rcases RawTag.tagName_eq h scope with heq | heq
    · exact heq ▸ hb
    · exact heq ▸ List.mem_cons_of_mem _ hb
  exact isSpace_of_mem_tagName hmem

theorem colon_of_read (h : RawTag.read raw = .ok t) {p : String}
    (hp : (t.tagIn scope).nsPrefix = some p) : ∀ b ∈ encode p, (b == octet ':') = false := by
  rw [RawTag.tagIn] at hp
  dsimp only at hp
  split_ifs at hp with hempty
  obtain rfl := Option.some.inj hp
  rcases RawTag.tagName_cases h with ⟨hnil, -⟩ | ⟨-, hcolon⟩
  · rw [hnil] at hempty
    exact absurd rfl hempty
  · exact hcolon

theorem words_written (hwords : ∀ a ∈ t.attributes, IsWord (encode a.name)) :
    ∀ a ∈ (t.tagIn scope).written, IsWord (encode a.name) := by
  obtain ⟨rest, hperm, hwritten⟩ := exists_written_tagIn scope t
  have hdeclared : ∀ ns ∈ t.declared, IsWord (encode ns.attributeName) := by
    intro ns hns
    obtain ⟨a, ha, hdeclares⟩ := List.mem_filterMap.1 hns
    rcases a.name_cases hdeclares with hname | ⟨hname, -⟩
    · exact hname ▸ hwords a ha
    · have hdefault : IsKey "xmlns" := ⟨by decide, by decide⟩
      exact hname ▸ hdefault.isWord
  have hown : ∀ ns ∈ (t.own.filter (· ∉ scope)).toList ++ rest, ns ∈ t.own.toList ++ rest := by
    intro ns hns
    rw [List.mem_append, Option.mem_toList] at hns ⊢
    exact hns.imp_left fun h => (Option.mem_filter_iff.1 h).1
  rw [hwritten]
  refine List.forall_mem_append.2 ⟨List.forall_mem_map.2 fun ns hns => ?_, fun a ha => ?_⟩
  · exact hdeclared ns (hperm.subset (hown ns hns))
  · exact hwords a (List.mem_of_mem_filter ha)

theorem Tag.IsClear.isReadable {hollow : Bool} (h : (t.tagIn scope).IsClear hollow)
    (hread : RawTag.read raw = .ok t)
    (hclose : hollow = false → Steady (encode (t.tagIn scope).qualifiedName)) :
    (t.tagIn scope).IsReadable hollow where
  solid := RawTag.solid_of_read hread
  split := by
    cases hp : (t.tagIn scope).nsPrefix with
    | none =>
      refine splitName_of_none hp fun b hb => ?_
      rw [beq_eq_false_iff_ne]
      rintro rfl
      exact octet_not_mem_encode (by decide) (h.colon hp) hb
    | some p => exact splitName_of_some hp (colon_of_read hread hp)
  words := by
    obtain ⟨_, _, _, hwords⟩ := RawTag.exists_of_read hread
    exact words_written hwords
  distinct := h.distinct
  steady := steady_of_tagEnd (z := []) nofun (by rw [List.append_nil]; exact h.stop)
  first := h.first
  last := h.last
  close := hclose

theorem areReadable_of_clear (scope : List Namespace) : ∀ content : List Content,
    AreRead scope content → EveryIn (fun tag content => tag.IsClear content.isEmpty) content →
      AreReadable content
  | [], _, _ => trivial
  | .text _ :: cs, hread, hclear => ⟨trivial, areReadable_of_clear scope cs hread.2 hclear.2⟩
  | .element tag inner :: cs, ⟨⟨⟨raw, t, ht, htag⟩, hclose, hinner⟩, hread⟩, hclear => by
    have hself : tag.IsReadable inner.isEmpty := by
      rw [htag] at hclear hclose ⊢
      exact hclear.1.1.isReadable ht fun hempty => hclose (by simpa using hempty)
    exact ⟨⟨hself, areReadable_of_clear _ inner hinner hclear.1.2⟩,
      areReadable_of_clear scope cs hread hclear.2⟩

end Clear

section Every

variable {p : Tag → List Content → Prop}

mutual

def decidableEvery [∀ tag content, Decidable (p tag content)] : ∀ c : Content,
    Decidable (c.Every p)
  | .text _ => isTrue trivial
  | .element tag content =>
    have := decidableEveryIn content
    inferInstanceAs (Decidable (p tag content ∧ EveryIn p content))

def decidableEveryIn [∀ tag content, Decidable (p tag content)] : ∀ content : List Content,
    Decidable (EveryIn p content)
  | [] => isTrue trivial
  | c :: cs =>
    have := decidableEvery c
    have := decidableEveryIn cs
    inferInstanceAs (Decidable (c.Every p ∧ EveryIn p cs))

end

instance [∀ tag content, Decidable (p tag content)] (c : Content) : Decidable (c.Every p) :=
  decidableEvery c

end Every

namespace Document

variable {s : Octets} {d : Document}

def Every (d : Document) (p : Tag → List Content → Prop) : Prop :=
  (Content.element d.toElement.tag d.toElement.content).Every p

instance (d : Document) (p : Tag → List Content → Prop) [∀ tag content, Decidable (p tag content)] :
    Decidable (d.Every p) :=
  inferInstanceAs (Decidable (Content.Every p _))

/-- What is written of a parsed document with clear tags is parsed as the same tree, but for elements
that declare a namespace and have none of their own: these take one. -/
theorem parse_octets_iff (h : parse s = .ok d)
    (hclear : d.Every fun tag content => tag.IsClear content.isEmpty) :
    ∃ d', parse d.octets = .ok d' ∧ d'.rootTree.outline.bare = d.rootTree.outline.bare ∧
      (d'.rootTree.outline = d.rootTree.outline.compact ↔ d.Every fun tag _ => tag.IsSettled) := by
  obtain ⟨e, hparse, rfl⟩ := exists_ofElement_of_parse h
  have htrimmed := Element.isTrimmed_content hparse
  have hread := Element.isRead_of_parse hparse
  rw [Every, toElement_ofElement] at hclear ⊢
  obtain ⟨hreadable, -⟩ := areReadable_of_clear [] [.element e.tag e.content] ⟨hread, trivial⟩
    ⟨hclear, trivial⟩
  have hagain := parse_of_parse (parse_octets_of_readable hreadable.1 hreadable.2)
  rw [octets, toElement_ofElement]
  refine ⟨_, hagain, ?_, ?_⟩
  · rw [rootTree_ofElement, rootTree_ofElement, outline_contentTree, outline_contentTree]
    exact bare_reread [] [] _ htrimmed hread
  · rw [rootTree_ofElement, rootTree_ofElement, outline_contentTree, outline_contentTree]
    exact outline_reread_iff [] _ htrimmed hread

/-- A parsed document with clear tags is parsed again from what is written of it, with all its names,
attributes and texts; nothing else changes either if no element without a namespace of its own
declares one. -/
theorem exists_parse_octets_of_parse (h : parse s = .ok d)
    (hclear : d.Every fun tag content => tag.IsClear content.isEmpty) :
    ∃ d', parse d.octets = .ok d' ∧ d'.rootTree.outline.bare = d.rootTree.outline.bare ∧
      ((d.Every fun tag _ => tag.IsSettled) → d'.rootTree.outline = d.rootTree.outline.compact) := by
  obtain ⟨d', hd', hbare, hiff⟩ := parse_octets_iff h hclear
  exact ⟨d', hd', hbare, hiff.2⟩

def unusualText : Octets :=
  encode "<a xmlns='u' k'='x' l'='y'>t<b xmlns='u'/><:c xmlns:p='v' =='>'>&lt;</:c></a>"

def unusual : Document :=
  ofElement ⟨⟨"a", none, some ⟨"", "u"⟩, [⟨"k'", "x"⟩, ⟨"l'", "y"⟩]⟩,
    [.text "t", .element ⟨"b", none, none, []⟩ [],
      .element ⟨"c", none, some ⟨"p", "v"⟩, [⟨"=", ">"⟩]⟩ [.text "<"]]⟩

theorem exists_parse_octets_of_parse_unusual : parse unusualText = .ok unusual ∧
    (unusual.Every fun tag content => tag.IsClear content.isEmpty) ∧
      ∃ d', parse unusual.octets = .ok d' ∧
        d'.rootTree.outline = unusual.rootTree.outline.compact := by
  have hparse : parse unusualText = .ok unusual := by cbv
  have hclear : unusual.Every fun tag content => tag.IsClear content.isEmpty := by decide +kernel
  have hsettled : unusual.Every fun tag _ => tag.IsSettled := by decide
  obtain ⟨d', hd', -, heq⟩ := exists_parse_octets_of_parse hparse hclear
  exact ⟨hparse, hclear, d', hd', heq hsettled⟩

def Loses (s : Octets) : Prop :=
  ∃ d, parse s = .ok d ∧
    ¬ ∃ d', parse d.octets = .ok d' ∧ d'.rootTree.outline = d.rootTree.outline.compact

theorem loses_of_error (h : parse s = .ok d) {e : XmlError} (herror : parse d.octets = .error e) :
    Loses s := by
  refine ⟨d, h, ?_⟩
  rintro ⟨d', hd', -⟩
  rw [herror] at hd'
  cases hd'

theorem loses_of_ne {d' : Document} (h : parse s = .ok d) (hagain : parse d.octets = .ok d')
    (hne : d'.rootTree.outline ≠ d.rootTree.outline.compact) : Loses s := by
  refine ⟨d, h, ?_⟩
  rintro ⟨_, hd', heq⟩
  obtain rfl := Except.ok.inj (hagain.symm.trans hd')
  exact hne heq

/-- In each of these texts one thing about a tag is not clear where it is written: the parts of its
name, its keys, its end, how it starts and how it ends. -/
theorem loses_unclear : Loses (encode "<:a:b/>") ∧ Loses (encode "<a xmlns='u' xmlns:='v'/>") ∧
    Loses (encode "<a k'='\"' k\"=\"\"/>") ∧ Loses (encode "<></>") ∧
      Loses (encode "<a/ >x</a/>") := by
  have hname : parse (encode "<:a:b/>") = .ok (ofElement ⟨⟨"a:b", none, none, []⟩, []⟩) := by cbv
  have hsplit : parse (ofElement ⟨⟨"a:b", none, none, []⟩, []⟩).octets =
      .ok (ofElement ⟨⟨"b", some "a", none, []⟩, []⟩) := by cbv
  have hkeys : parse (encode "<a xmlns='u' xmlns:='v'/>") =
      .ok (ofElement ⟨⟨"a", none, some ⟨"", "u"⟩, [⟨"xmlns", "v"⟩]⟩, []⟩) := by cbv
  have hend : parse (encode "<a k'='\"' k\"=\"\"/>") =
      .ok (ofElement ⟨⟨"a", none, none, [⟨"k'", "\""⟩, ⟨"k\"", ""⟩]⟩, []⟩) := by cbv
  have hstarts : parse (encode "<></>") = .ok (ofElement ⟨⟨"", none, none, []⟩, []⟩) := by cbv
  have hends : parse (encode "<a/ >x</a/>") =
      .ok (ofElement ⟨⟨"a/", none, none, []⟩, [.text "x"]⟩) := by cbv
  exact ⟨loses_of_ne hname hsplit fun heq => absurd (congrArg Outline.info heq) (by decide),
    loses_of_error hkeys (e := .attribute (.duplicated 12 2)) (by cbv),
    loses_of_error hend (e := .markup (.unclosedValue '\'')) (by cbv),
    loses_of_error hstarts (e := .markup (.unmatchedClose "")) (by cbv),
    loses_of_error hends (e := .malformed .textOutsideRoot) (by cbv)⟩

end Document

end ServiceClient.Xml
