import Mathlib
import ServiceClient.Proofs.Xml.Path
import ServiceClient.Proofs.Xml.Shape

/-! What names mean. A tag that takes for its own the declaration that a tag around it has taken
does not declare it again when it is written. Names then mean what they mean without these
declarations, which is the same unless a nearer declaration of the prefix stands between the
two. -/

namespace ServiceClient.Xml

open Text (Octets encode)

section Meaning

def RawTag.declared (t : RawTag) : List Namespace :=
  t.attributes.filterMap Attribute.declares?

/-- Of the declarations of a tag the one that it takes for its own: that of its prefix, or else the
first. -/
def RawTag.own (t : RawTag) : Option Namespace :=
  (t.declared.find? (·.nsPrefix == t.nsPrefix)).or t.declared.head?

def declarations (path : List RawTag) : List Namespace :=
  path.flatMap RawTag.declared

/-- What the tags of a path declare, but for what a tag takes for its own as one around it has. -/
def unrepeated : List RawTag → List Namespace
  | [] => []
  | t :: around => t.declared.filter
      (fun ns => ¬(t.own = some ns ∧ ns ∈ around.filterMap RawTag.own)) ++ unrepeated around

def binding? (p : String) (declared : List Namespace) : Option String :=
  (declared.find? (·.nsPrefix == p)).map (·.uri)

/-- What a namespace is called; the one of the prefix `xml` is fixed, whatever its name is. -/
inductive NamespaceName where
  | declared (uri : String)
  | xml
  deriving DecidableEq, Repr

/-- The namespace of a prefix under declarations; an empty binding is none. -/
def namespace? (p : String) (declared : List Namespace) : Option NamespaceName :=
  if p = "xml" then some .xml
  else (binding? p declared).bind fun uri => if uri = "" then none else some (.declared uri)

def Site.name (e : Site RawTag) : Option NamespaceName × String :=
  (namespace? e.tag.nsPrefix (declarations e.path), e.tag.name)

/-- What the name of an element is without the declarations that are repeated. -/
def Site.unrepeatedName (e : Site RawTag) : Option NamespaceName × String :=
  (namespace? e.tag.nsPrefix (unrepeated e.path), e.tag.name)

def namesOf (s : Octets) : Except XmlError (List (Option NamespaceName × String)) :=
  (sitesOf s).map (List.map Site.name)

end Meaning

section WellFormed

def splitQName (s : String) : String × String :=
  match Text.splitFirst? (· == ':') s.toList with
  | some (p, rest) => (String.ofList p, String.ofList rest)
  | none => ("", s)

def IsQName (s : String) : Prop :=
  (':' ∈ s.toList → IsName (splitQName s).1) ∧ IsName (splitQName s).2

def IsBound (p : String) (declared : List Namespace) : Prop :=
  p = "" ∨ p = "xml" ∨ (binding? p declared).isSome = true

/-- Attributes without a prefix are in no namespace. -/
def expandedName (declared : List Namespace) (a : Attribute) : Option NamespaceName × String :=
  let (p, base) := splitQName a.name
  (if p = "" then none else namespace? p declared, base)

structure Site.IsWellFormed (e : Site RawTag) : Prop where
  name : (e.tag.nsPrefix = "" ∨ IsName e.tag.nsPrefix) ∧ IsName e.tag.name
  attributes : ∀ a ∈ e.tag.attributes, IsQName a.name
  distinct : (e.tag.attributes.map Attribute.name).Nodup
  declared : ∀ ns ∈ e.tag.declared, ns.nsPrefix ≠ "xmlns" ∧ (ns.nsPrefix ≠ "" → ns.uri ≠ "")
  bound : IsBound e.tag.nsPrefix (declarations e.path)
  attributes_bound : ∀ a ∈ e.tag.attributes, a.declares? = none →
    IsBound (splitQName a.name).1 (declarations e.path)
  expanded : ((e.tag.attributes.filter (·.declares?.isNone)).map
    (expandedName (declarations e.path))).Nodup

def IsNamespaceWellFormed (s : Octets) : Prop :=
  ∃ es, sitesOf s = .ok es ∧ ∀ e ∈ es, e.IsWellFormed

def NeedsNoRepeats (s : Octets) : Prop :=
  ∃ es, sitesOf s = .ok es ∧ ∀ e ∈ es, e.unrepeatedName = e.name

instance (s : String) : Decidable (IsQName s) :=
  inferInstanceAs (Decidable (_ ∧ _))

instance (p : String) (declared : List Namespace) : Decidable (IsBound p declared) :=
  inferInstanceAs (Decidable (_ ∨ _))

instance (e : Site RawTag) : Decidable e.IsWellFormed :=
  decidable_of_iff
    (((e.tag.nsPrefix = "" ∨ IsName e.tag.nsPrefix) ∧ IsName e.tag.name) ∧
      (∀ a ∈ e.tag.attributes, IsQName a.name) ∧ (e.tag.attributes.map Attribute.name).Nodup ∧
      (∀ ns ∈ e.tag.declared, ns.nsPrefix ≠ "xmlns" ∧ (ns.nsPrefix ≠ "" → ns.uri ≠ "")) ∧
      IsBound e.tag.nsPrefix (declarations e.path) ∧
      (∀ a ∈ e.tag.attributes, a.declares? = none →
        IsBound (splitQName a.name).1 (declarations e.path)) ∧
      ((e.tag.attributes.filter (·.declares?.isNone)).map
        (expandedName (declarations e.path))).Nodup)
    ⟨fun ⟨a, b, c, d, e, f, g⟩ => ⟨a, b, c, d, e, f, g⟩,
      fun h => ⟨h.name, h.attributes, h.distinct, h.declared, h.bound, h.attributes_bound,
        h.expanded⟩⟩

end WellFormed

section Declarations

variable {l m : List Namespace} {p : String} {ns : Namespace} {t : RawTag}

theorem find?_prefix_iff (h : (l.map Namespace.nsPrefix).Nodup) :
    l.find? (·.nsPrefix == p) = some ns ↔ ns ∈ l ∧ ns.nsPrefix = p := by
  constructor
  · exact fun hfind => ⟨List.mem_of_find?_eq_some hfind, by simpa using List.find?_some hfind⟩
  · rintro ⟨hns, rfl⟩
    cases hfind : l.find? (·.nsPrefix == ns.nsPrefix) with
    | none => simpa using List.find?_eq_none.1 hfind ns hns
    | some found =>
      have heq : found.nsPrefix = ns.nsPrefix := by simpa using List.find?_some hfind
      rw [List.inj_on_of_nodup_map h (List.mem_of_find?_eq_some hfind) hns heq]

theorem find?_of_perm (h : (l.map Namespace.nsPrefix).Nodup) (hperm : m.Perm l) :
    m.find? (·.nsPrefix == p) = l.find? (·.nsPrefix == p) := by
  have hm : (m.map Namespace.nsPrefix).Nodup := (hperm.map _).nodup_iff.2 h
  ext ns
  rw [find?_prefix_iff h, find?_prefix_iff hm, hperm.mem_iff]

def Namespace.attribute (ns : Namespace) : Attribute := ⟨ns.attributeName, ns.uri⟩

theorem takeNamespace_own (t : RawTag) :
    (takeNamespace t.nsPrefix t.attributes).1 = t.own := by
  rw [takeNamespace, RawTag.own]
  change t.declared[(t.declared.findIdx? (·.nsPrefix == t.nsPrefix)).getD 0]? = _
  cases hindex : t.declared.findIdx? (·.nsPrefix == t.nsPrefix) with
  | none =>
    rw [List.find?_eq_none.2 fun ns hns => by
      simpa using List.findIdx?_eq_none_iff.1 hindex ns hns]
    exact List.head?_eq_getElem?.symm
  | some i =>
    obtain ⟨hi, hat, hbefore⟩ := List.findIdx?_eq_some_iff_getElem.1 hindex
    have hfind : t.declared.find? (·.nsPrefix == t.nsPrefix) = some t.declared[i] :=
      List.find?_eq_some_iff_getElem.2 ⟨hat, i, hi, rfl, by simpa using hbefore⟩
    rw [hfind]
    exact List.getElem?_eq_getElem hi

theorem getElem?_append_eraseIdx_perm (l : List Namespace) (i : Nat) :
    (l[i]?.toList ++ l.eraseIdx i).Perm l := by
  by_cases hi : i < l.length
  · rw [List.getElem?_eq_getElem hi]
    exact List.getElem_cons_eraseIdx_perm hi
  · have hlength := Nat.le_of_not_lt hi
    rw [List.getElem?_eq_none hlength, List.eraseIdx_of_length_le hlength]
    exact .refl l

/-- Declarations that a tag does not take for its own are written all the same. -/
theorem exists_written_tagIn (scope : List Namespace) (t : RawTag) :
    ∃ rest, (t.own.toList ++ rest).Perm t.declared ∧
      (t.tagIn scope).written = ((t.own.filter (· ∉ scope)).toList ++ rest).map
        Namespace.attribute ++ t.attributes.filter (·.declares?.isNone) := by
  have hown := takeNamespace_own t
  refine ⟨t.declared.eraseIdx ((t.declared.findIdx? (·.nsPrefix == t.nsPrefix)).getD 0), ?_, ?_⟩
  · rw [← hown]
    exact getElem?_append_eraseIdx_perm t.declared _
  · rw [Tag.written, RawTag.tagIn]
    dsimp only
    rw [hown]
    cases t.own.filter (· ∉ scope) <;> rfl

theorem exists_declared_tagIn (scope : List Namespace) (t : RawTag) :
    ∃ rest, (t.own.toList ++ rest).Perm t.declared ∧
      (t.tagIn scope).raw.declared = (t.own.filter (· ∉ scope)).toList ++ rest := by
  obtain ⟨rest, hperm, hwritten⟩ := exists_written_tagIn scope t
  have hothers : (t.attributes.filter (·.declares?.isNone)).filterMap Attribute.declares? = [] :=
    List.filterMap_eq_nil_iff.2 fun a ha => by simpa using (List.mem_filter.1 ha).2
  have hdeclares : Attribute.declares? ∘ Namespace.attribute = some := by
    funext ns
    exact ns.declares?_attribute
  refine ⟨rest, hperm, ?_⟩
  rw [RawTag.declared, Tag.raw]
  dsimp only
  rw [hwritten, List.filterMap_append, hothers, List.append_nil, List.filterMap_map, hdeclares,
    List.filterMap_some]

end Declarations

section Bindings

theorem mem_scope_iff (path : List RawTag) (ns : Namespace) :
    ns ∈ (settledTags path).filterMap (·.ns) ↔ ns ∈ path.filterMap RawTag.own := by
  have hcons : ∀ {α : Type} (f : α → Option Namespace) (a : α) (l : List α),
      (a :: l).filterMap f = (f a).toList ++ l.filterMap f := by
    intro α f a l
    rw [List.filterMap_cons]
    cases f a <;> rfl
  induction path with
  | nil => exact Iff.rfl
  | cons t path ih =>
    rw [settledTags, hcons, hcons, RawTag.tagIn]
    dsimp only
    rw [mem_filter_append_iff, takeNamespace_own, List.mem_append, List.mem_append]
    exact or_congr_right ih

theorem IsQName.name_eq {a : Attribute} (h : IsQName a.name) {ns : Namespace}
    (hns : a.declares? = some ns) : a.name = ns.attributeName := by
  rcases a.name_cases hns with hname | ⟨-, hname⟩
  · exact hname.symm
  · rw [hname] at h
    exact absurd h (by decide)

theorem map_attributeName_declares {l : List Attribute} (h : ∀ a ∈ l, IsQName a.name) :
    (l.filterMap Attribute.declares?).map Namespace.attributeName =
      (l.filter (·.declares?.isSome)).map Attribute.name := by
  induction l with
  | nil => rfl
  | cons a l ih =>
    rw [List.forall_mem_cons] at h
    rw [List.filterMap_cons, List.filter_cons]
    cases hns : a.declares? with
    | none => exact ih h.2
    | some ns =>
      dsimp only
      rw [List.map_cons, ih h.2, ← h.1.name_eq hns, Option.isSome_some, if_pos rfl, List.map_cons]

theorem Site.IsWellFormed.nodup_declared {e : Site RawTag} (h : e.IsWellFormed) :
    (e.tag.declared.map Namespace.nsPrefix).Nodup := by
  have hsublist := (List.filter_sublist (p := (·.declares?.isSome)) (l := e.tag.attributes)).map
    Attribute.name
  have hnodup := hsublist.nodup h.distinct
  rw [← map_attributeName_declares h.attributes] at hnodup
  exact List.Nodup.of_map (fun p => if p.isEmpty then "xmlns" else "xmlns:" ++ p)
    (by rwa [List.map_map])

theorem declared_tagIn_perm {t : RawTag} (hnodup : t.declared.Nodup) (scope : List Namespace) :
    (t.tagIn scope).raw.declared.Perm
      (t.declared.filter fun ns => ¬(t.own = some ns ∧ ns ∈ scope)) := by
  obtain ⟨rest, hperm, hdeclared⟩ := exists_declared_tagIn scope t
  have hnodup : (t.own.toList ++ rest).Nodup := hperm.nodup_iff.2 hnodup
  have hrest : rest.filter (fun ns => ¬(t.own = some ns ∧ ns ∈ scope)) = rest := by
    rw [List.filter_eq_self]
    intro ns hns
    have hown : t.own ≠ some ns := by
      intro heq
      rw [heq] at hnodup
      exact (List.nodup_cons.1 hnodup).1 hns
    simp [hown]
  have hown : t.own.toList.filter (fun ns => ¬(t.own = some ns ∧ ns ∈ scope)) =
      (t.own.filter (· ∉ scope)).toList := by
    cases t.own with
    | none => rfl
    | some ns => by_cases hns : ns ∈ scope <;> simp [Option.filter, hns]
  rw [hdeclared, ← hown]
  conv_lhs => rw [← hrest]
  rw [← List.filter_append]
  exact hperm.filter _

/-- The tags of a path, each as it is read, bind a prefix as they do without what is repeated. -/
theorem binding?_settledTags (p : String) {path : List RawTag}
    (hwell : ∀ e : Site RawTag, e.path <:+ path → e.IsWellFormed) :
    binding? p (declarations ((settledTags path).map Tag.raw)) = binding? p (unrepeated path) := by
  rw [binding?, binding?]
  refine congrArg (Option.map Namespace.uri) ?_
  induction path with
  | nil => rfl
  | cons t around ih =>
    have haround := ih fun e he => hwell e (he.trans (List.suffix_cons t around))
    have hnodup := (hwell ⟨t, around⟩ (List.suffix_refl _)).nodup_declared
    have hscope : ∀ ns, (t.own = some ns ∧ ns ∈ (settledTags around).filterMap (·.ns)) ↔
        (t.own = some ns ∧ ns ∈ around.filterMap RawTag.own) :=
      fun ns => and_congr_right' (mem_scope_iff around ns)
    have hperm := declared_tagIn_perm (.of_map _ hnodup) ((settledTags around).filterMap (·.ns))
    have htag := find?_of_perm (p := p)
      (((List.filter_sublist (l := t.declared)).map Namespace.nsPrefix).nodup hnodup) hperm
    simp only [hscope] at htag
    rw [settledTags, List.map_cons, declarations, List.flatMap_cons, List.find?_append, htag,
      unrepeated, List.find?_append]
    exact congrArg _ haround

end Bindings

section Legible

theorem IsQName.isKey {s : String} (h : IsQName s) : IsKey s := by
  obtain ⟨hqualifier, hbase⟩ := h
  cases hsplit : Text.splitFirst? (· == ':') s.toList with
  | none =>
    rw [splitQName, hsplit] at hbase
    exact hbase.toIsKey
  | some parts =>
    obtain ⟨p, rest⟩ := parts
    obtain ⟨c, hc, hlist⟩ := Text.append_of_splitFirst? hsplit
    obtain rfl : c = ':' := by simpa using hc
    have hmem : ':' ∈ s.toList := by
      rw [hlist]
      exact List.mem_append_right p List.mem_cons_self
    rw [splitQName, hsplit] at hbase hqualifier
    have hs : s = String.ofList p ++ ":" ++ String.ofList rest := by
      rw [← String.ofList_toList (s := s), hlist, String.append_assoc, ← List.singleton_append,
        String.ofList_append, String.ofList_append]
    rw [hs]
    exact ((hqualifier hmem).toIsKey.append (by decide)).append hbase.marks

theorem exists_names_written (scope : List Namespace) {t : RawTag}
    (h : ∀ a ∈ t.attributes, IsQName a.name) :
    ∃ names, ((t.tagIn scope).written.map Attribute.name).Sublist names ∧
      names.Perm (t.attributes.map Attribute.name) := by
  obtain ⟨rest, hperm, hwritten⟩ := exists_written_tagIn scope t
  refine ⟨(t.own.toList ++ rest).map Namespace.attributeName ++
    (t.attributes.filter (·.declares?.isNone)).map Attribute.name, ?_, ?_⟩
  · rw [hwritten, List.map_append, List.map_map]
    refine List.Sublist.append_right (List.Sublist.map _ (List.Sublist.append_right ?_ _)) _
    cases t.own with
    | none => exact .slnil
    | some ns => by_cases hns : ns ∈ scope <;> simp [Option.filter, hns]
  · refine ((hperm.map _).append_right _).trans ?_
    have hnone : (fun a : Attribute => a.declares?.isNone) = fun a => !a.declares?.isSome :=
      funext fun a => (Option.not_isSome _).symm
    rw [RawTag.declared, map_attributeName_declares h, ← List.map_append, hnone]
    exact (List.filter_append_perm _ _).map _

theorem Site.IsWellFormed.isLegible {e : Site RawTag} (h : e.IsWellFormed)
    (scope : List Namespace) : (e.tag.tagIn scope).IsLegible := by
  obtain ⟨names, hsublist, hperm⟩ := exists_names_written scope h.attributes
  refine ⟨h.name.2, fun p hp => ?_, fun a ha => ?_, ?_⟩
  · rw [RawTag.tagIn] at hp
    dsimp only at hp
    split_ifs at hp with hempty
    · cases hp
    · obtain rfl := Option.some.inj hp
      exact h.name.1.resolve_left fun hnil => hempty (by rw [hnil]; rfl)
  · have hmem := hperm.subset (hsublist.subset (List.mem_map_of_mem ha))
    obtain ⟨b, hb, hname⟩ := List.mem_map.1 hmem
    exact hname ▸ (h.attributes b hb).isKey
  · exact hsublist.nodup (hperm.nodup_iff.2 h.distinct)

theorem name_settle (e : Site RawTag)
    (hwell : ∀ f : Site RawTag, f.path <:+ e.path → f.IsWellFormed) :
    (e.settle.map Tag.raw).name = e.unrepeatedName := by
  have hprefix : (e.settle.map Tag.raw).tag.nsPrefix = e.tag.nsPrefix :=
    e.tag.nsPrefix_raw _
  have hpath : (e.settle.map Tag.raw).path = (settledTags e.path).map Tag.raw := rfl
  rw [Site.name, Site.unrepeatedName, hprefix, namespace?, namespace?, hpath,
    binding?_settledTags _ hwell]
  rfl

end Legible

namespace Document

variable {s : Octets} {d : Document}

theorem sitesOf_octets (h : parse s = .ok d) (hwell : IsNamespaceWellFormed s) :
    ∃ es, sitesOf s = .ok es ∧ sitesOf d.octets = .ok (es.map fun e => e.settle.map Tag.raw) := by
  obtain ⟨e, hparse, rfl⟩ := exists_ofElement_of_parse h
  obtain ⟨es, hes, hsites⟩ := Element.exists_sitesOf_of_parse hparse
  obtain ⟨_, hes', hwell⟩ := hwell
  obtain rfl := Except.ok.inj (hes.symm.trans hes')
  have hlegible : ∀ site ∈ e.sites, site.tag.IsLegible := by
    rw [hsites, List.forall_mem_map]
    exact fun site hsite => (hwell site hsite).isLegible _
  refine ⟨es, hes, ?_⟩
  rw [octets, toElement_ofElement, Element.sitesOf_octets hlegible, hsites, List.map_map]
  rfl

/-- Reading and writing leave the elements and their local names as they are, and their names mean
the same exactly if none of them needs a declaration that is repeated. -/
theorem namesOf_octets (h : parse s = .ok d) (hwell : IsNamespaceWellFormed s) :
    ∃ names written, namesOf s = .ok names ∧ namesOf d.octets = .ok written ∧
      written.map Prod.snd = names.map Prod.snd ∧ (written = names ↔ NeedsNoRepeats s) := by
  obtain ⟨es, hes, hoctets⟩ := sitesOf_octets h hwell
  obtain ⟨_, hes', hwell⟩ := hwell
  obtain rfl := Except.ok.inj (hes.symm.trans hes')
  have hmem : ∀ e ∈ es, ∀ f : Site RawTag, f.path <:+ e.path → f ∈ es := by
    intro e he f hf
    rcases mem_sites_of_suffix (sites_of_sitesOf hes) he hf with hmem | hnil
    · exact hmem
    · cases List.suffix_nil.1 hnil
  refine ⟨es.map Site.name, es.map Site.unrepeatedName, ?_, ?_, ?_, ?_⟩
  · rw [namesOf, hes]
    rfl
  · rw [namesOf, hoctets]
    refine congrArg Except.ok ?_
    rw [List.map_map]
    exact List.map_congr_left fun e he => name_settle e fun f hf => hwell f (hmem e he f hf)
  · rw [List.map_map, List.map_map]
    rfl
  · rw [List.map_inj_left]
    constructor
    · exact fun hneeds => ⟨es, hes, hneeds⟩
    · rintro ⟨_, hes', hneeds⟩
      obtain rfl := Except.ok.inj (hes.symm.trans hes')
      exact hneeds

def repeatedText : Octets :=
  encode "<p:a xmlns:p='u' xmlns='d'><p:b xmlns:p='u'><c/></p:b></p:a>"

def repeatedSites : List (Site RawTag) :=
  let a : RawTag := ⟨"p", "a", [⟨"xmlns:p", "u"⟩, ⟨"xmlns", "d"⟩]⟩
  let b : RawTag := ⟨"p", "b", [⟨"xmlns:p", "u"⟩]⟩
  [⟨a, []⟩, ⟨b, [a]⟩, ⟨⟨"", "c", []⟩, [b, a]⟩]

theorem namesOf_octets_repeatedText : IsNamespaceWellFormed repeatedText ∧
    ∃ d, parse repeatedText = .ok d ∧
      ∃ names, namesOf repeatedText = .ok names ∧ namesOf d.octets = .ok names := by
  have hsites : sitesOf repeatedText = .ok repeatedSites := by cbv
  have hparse : parse repeatedText =
      .ok (ofElement ⟨⟨"a", some "p", some ⟨"p", "u"⟩, [⟨"xmlns", "d"⟩]⟩,
        [.element ⟨"b", some "p", none, []⟩ [.element ⟨"c", none, none, []⟩ []]]⟩) := by
    cbv
  have hwell : IsNamespaceWellFormed repeatedText := ⟨_, hsites, by decide⟩
  have hneeds : NeedsNoRepeats repeatedText := ⟨_, hsites, by decide⟩
  obtain ⟨names, written, hnames, hwritten, _, hiff⟩ := namesOf_octets hparse hwell
  exact ⟨hwell, _, hparse, names, hnames, hiff.2 hneeds ▸ hwritten⟩

/-- Between the declaration that `p:c` repeats and `p:c` itself the prefix is bound anew. -/
def hiddenText : Octets :=
  encode "<a xmlns:p='u'><b xmlns:p='v'><p:c xmlns:p='u'/></b></a>"

def hiddenSites : List (Site RawTag) :=
  let a : RawTag := ⟨"", "a", [⟨"xmlns:p", "u"⟩]⟩
  let b : RawTag := ⟨"", "b", [⟨"xmlns:p", "v"⟩]⟩
  [⟨a, []⟩, ⟨b, [a]⟩, ⟨⟨"p", "c", [⟨"xmlns:p", "u"⟩]⟩, [b, a]⟩]

/-- Names need not mean the same: here the written text has another namespace for `p:c`. -/
theorem namesOf_octets_hiddenText : IsNamespaceWellFormed hiddenText ∧
    namesOf hiddenText = .ok [(none, "a"), (none, "b"), (some (.declared "u"), "c")] ∧
    ∃ d, parse hiddenText = .ok d ∧
      namesOf d.octets = .ok [(none, "a"), (none, "b"), (some (.declared "v"), "c")] := by
  have hsites : sitesOf hiddenText = .ok hiddenSites := by cbv
  have hparse : parse hiddenText = .ok (ofElement ⟨⟨"a", none, some ⟨"p", "u"⟩, []⟩,
      [.element ⟨"b", none, some ⟨"p", "v"⟩, []⟩ [.element ⟨"c", some "p", none, []⟩ []]]⟩) := by
    cbv
  have hnames : namesOf (ofElement ⟨⟨"a", none, some ⟨"p", "u"⟩, []⟩,
      [.element ⟨"b", none, some ⟨"p", "v"⟩, []⟩
        [.element ⟨"c", some "p", none, []⟩ []]]⟩).octets =
      .ok [(none, "a"), (none, "b"), (some (.declared "v"), "c")] := by
    cbv
  refine ⟨⟨_, hsites, by decide⟩, ?_, _, hparse, hnames⟩
  rw [namesOf, hsites]
  decide

end Document

end ServiceClient.Xml
