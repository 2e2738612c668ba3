import Mathlib.Data.List.Nodup
import ServiceClient.Proofs.Text.Base64
import ServiceClient.Proofs.Wire.Scalar
import ServiceClient.Proofs.Xml.Parse
import ServiceClient.Xml.Schema

/-! What a value looks like in a document, as far as its schema is one that gives it back. Values
below a node show there as attributes, texts and elements; the elements of a flattened collection
stand where the element of another value would. -/

namespace ServiceClient.Xml

/-- An element or attribute with a name for its name, whose namespace has a name for its prefix or
the empty one. -/
structure NodeInfo.IsProper (info : NodeInfo) : Prop where
  name : IsName info.name
  location : info.location = .element ∨ info.location = .attribute ∧ info.name ≠ "xmlns"
  ns : ∀ ns ∈ info.ns, ns.nsPrefix = "" ∨ IsName ns.nsPrefix

instance (info : NodeInfo) : Decidable info.IsProper :=
  decidable_of_iff (IsName info.name ∧
      (info.location = .element ∨ info.location = .attribute ∧ info.name ≠ "xmlns") ∧
      ∀ ns ∈ info.ns, ns.nsPrefix = "" ∨ IsName ns.nsPrefix)
    ⟨fun h => ⟨h.1, h.2.1, h.2.2⟩, fun h => ⟨h.name, h.location, h.ns⟩⟩

/-- Members of one structure differ in this. -/
def NodeInfo.place (info : NodeInfo) : Location × String := (info.location, info.name)

namespace Schema

def isText : Schema → Bool
  | .scalar _ | .optional _ | .blob => true
  | _ => false

def isFlattened : Schema → Bool
  | .list _ _ _ flattened | .map _ _ _ _ flattened => flattened
  | _ => false

/-- Absence is a value of its own here; binary data may be absent too, but need not be. -/
def isOptional : Schema → Bool
  | .optional _ => true
  | .list opt _ _ _ | .map opt _ _ _ _ | .record opt _ => opt
  | _ => false

mutual

/-- Flattened collections stand only in structures, attributes hold text, and the members of a
structure, like key and value of a map, can be told apart. -/
def IsLegal : Schema → Prop
  | .scalar _ | .optional _ | .blob => True
  | .list _ item info _ =>
    info.IsProper ∧ info.location = .element ∧ item.isFlattened = false ∧ item.IsLegal
  | .map _ value keyInfo valueInfo _ =>
    keyInfo.IsProper ∧ valueInfo.IsProper ∧ keyInfo.name ≠ valueInfo.name ∧
      (valueInfo.location = .attribute → value.isText = true) ∧ value.isFlattened = false ∧
      value.IsLegal
  | .record _ members =>
    (members.map (·.1.key)).Nodup ∧ (members.map (·.1.info.place)).Nodup ∧ AreLegal members
  | .timestamp _ | .optionalTimestamp _ | .taken _ | .inspection => False

def AreLegal : List (Member × Schema) → Prop
  | [] => True
  | (m, schema) :: rest =>
    m.info.IsProper ∧ (m.info.location = .attribute → schema.isText = true) ∧ schema.IsLegal ∧
      AreLegal rest

end

mutual

/-- The values of the schema. Maps list their keys in order, structures their members. -/
def Fits : Schema → Value → Prop
  | .scalar t, .scalar x => t.Holds x
  | .optional t, .scalar x => t.Holds x
  | .blob, .octets _ => True
  | .list _ item _ _, .list vs => ∀ v ∈ vs, v.isAbsent = false ∧ item.Fits v
  | .map _ value _ _ _, .map es =>
    (es.map Prod.fst).Pairwise (· < ·) ∧ ∀ e ∈ es, e.2.isAbsent = false ∧ value.Fits e.2
  | .record _ members, .record fields => FitAll members fields
  | .blob, .absent => True
  | schema, .absent => schema.isOptional = true
  | _, _ => False

def FitAll : List (Member × Schema) → List (String × Value) → Prop
  | [], [] => True
  | (m, schema) :: rest, (key, v) :: fields => key = m.key ∧ schema.Fits v ∧ FitAll rest fields
  | _, _ => False

end

mutual

/-- The value as it is given back: an optional flattened collection without items is absent. -/
def settled : Schema → Value → Value
  | .list opt item _ flattened, .list vs =>
    if opt ∧ flattened ∧ vs = [] then .absent else .list (vs.map fun v => item.settled v)
  | .map opt value _ _ flattened, .map es =>
    if opt ∧ flattened ∧ es = [] then .absent
    else .map (es.map fun e => (e.1, value.settled e.2))
  | .record _ members, .record fields => .record (settledAll members fields)
  | _, v => v

def settledAll : List (Member × Schema) → List (String × Value) → List (String × Value)
  | (_, schema) :: rest, (key, v) :: fields => (key, schema.settled v) :: settledAll rest fields
  | _, _ => []

end

end Schema

def Value.spelling : Value → String
  | .scalar x => x.text
  | .octets s => Text.Base64.encode s
  | _ => ""

def Value.fields : Value → List (String × Value)
  | .record fields => fields
  | _ => []

theorem Value.eq_absent {v : Value} (h : v.isAbsent = true) : v = .absent := by
  cases v <;> first | rfl | cases h

section Shown

abbrev Shown := Attribute ⊕ Content

def attributesOf (l : List Shown) : List Attribute := l.filterMap Sum.getLeft?

def contentOf (l : List Shown) : List Content := l.filterMap Sum.getRight?

theorem attributesOf_inl (a : Attribute) (l : List Shown) :
    attributesOf (.inl a :: l) = a :: attributesOf l := rfl

theorem attributesOf_inr (c : Content) (l : List Shown) :
    attributesOf (.inr c :: l) = attributesOf l := rfl

theorem contentOf_inl (a : Attribute) (l : List Shown) :
    contentOf (.inl a :: l) = contentOf l := rfl

theorem contentOf_inr (c : Content) (l : List Shown) :
    contentOf (.inr c :: l) = c :: contentOf l := rfl

theorem attributesOf_append (l m : List Shown) :
    attributesOf (l ++ m) = attributesOf l ++ attributesOf m := List.filterMap_append

def Tree.shown : Tree → Shown
  | .node _ value children =>
    match value.info.location with
    | .attribute => .inl ⟨value.info.name, value.content.getD ""⟩
    | .text => .inr (.text (value.content.getD ""))
    | .element => .inr (.element (Tree.tag value children) (Tree.toContents children))

theorem shown_of_element {i : NodeId} {value : Node} (children : List Tree)
    (h : value.info.location = .element) : (Tree.node i value children).shown =
      .inr (.element (Tree.tag value children) (Tree.toContents children)) := by
  rw [Tree.shown, h]

theorem shown_of_attribute {i : NodeId} {value : Node} (children : List Tree)
    (h : value.info.location = .attribute) : (Tree.node i value children).shown =
      .inl ⟨value.info.name, value.content.getD ""⟩ := by
  rw [Tree.shown, h]

theorem asAttribute?_eq (t : Tree) : t.asAttribute? = t.shown.getLeft? := by
  obtain ⟨i, ⟨⟨name, location, ns⟩, content, nsPrefix⟩, children⟩ := t
  cases location <;> rfl

theorem toContent?_eq (t : Tree) : t.toContent? = t.shown.getRight? := by
  obtain ⟨i, ⟨⟨name, location, ns⟩, content, nsPrefix⟩, children⟩ := t
  cases location <;> rw [Tree.toContent?] <;> rfl

theorem attributes_eq (ts : List Tree) :
    ts.filterMap Tree.asAttribute? = attributesOf (ts.map Tree.shown) := by
  rw [attributesOf, List.filterMap_map]
  exact List.filterMap_congr fun t _ => asAttribute?_eq t

theorem toContents_eq (ts : List Tree) :
    Tree.toContents ts = contentOf (ts.map Tree.shown) := by
  induction ts with
  | nil => rfl
  | cons t ts ih =>
    rw [Tree.toContents, toContent?_eq, ih, List.map_cons, contentOf, contentOf,
      List.filterMap_cons]
    cases t.shown.getRight? <;> rfl

def enclosed (info : NodeInfo) (scope : List Namespace) (inside : List Namespace → List Shown) :
    Content :=
  let ns := info.ns.filter (· ∉ scope)
  let shown := inside (ns.toList ++ scope)
  .element ⟨info.name, none, ns, attributesOf shown⟩ (contentOf shown)

def shownAs (info : NodeInfo) (scope : List Namespace) (v : Value)
    (inside : List Namespace → List Shown) : Shown :=
  match info.location with
  | .attribute => .inl ⟨info.name, v.spelling⟩
  | _ => .inr (enclosed info scope inside)

/-- What a value adds to its parent: nothing if it is absent, and the items of a flattened
collection one by one. -/
def Schema.placed (schema : Schema) (info : NodeInfo) (scope : List Namespace) (v : Value)
    (inside : List Namespace → List Shown) : List Shown :=
  if v.isAbsent then []
  else if schema.isFlattened then inside scope
  else [shownAs info scope v inside]

def keyShown (key : String) : List Shown := [.inr (.text key)]

def entryShown (info keyInfo valueInfo : NodeInfo) (scope : List Namespace) (entry : String × Value)
    (inside : List Namespace → List Shown) : Content :=
  enclosed info scope fun scope =>
    [shownAs keyInfo scope (.scalar (.string entry.1)) fun _ => keyShown entry.1,
      shownAs valueInfo scope entry.2 inside]

mutual

/-- What a value shows below its node, which is called `own`, inside the given namespaces; for a
flattened collection, what it shows below its parent. -/
def Schema.inside : Schema → NodeInfo → List Namespace → Value → List Shown
  | .list _ item info flattened, own, scope, v =>
    let info := if flattened then own else info
    v.items.map fun v => .inr (enclosed info scope fun scope => item.inside info scope v)
  | .map _ value keyInfo valueInfo flattened, own, scope, v =>
    let info := if flattened then own else entryInfo
    v.entries.map fun e => .inr (entryShown info keyInfo valueInfo scope e fun scope =>
      value.inside valueInfo scope e.2)
  | .record _ members, _, scope, v => membersShown members scope v.fields
  | .scalar _, _, _, v => [.inr (.text v.spelling)]
  | .optional _, _, _, v => [.inr (.text v.spelling)]
  | .blob, _, _, v => [.inr (.text v.spelling)]
  | .timestamp _, _, _, _ => []
  | .optionalTimestamp _, _, _, _ => []
  | .taken _, _, _, _ => []
  | .inspection, _, _, _ => []

def membersShown : List (Member × Schema) → List Namespace → List (String × Value) → List Shown
  | (m, schema) :: rest, scope, (_, v) :: fields =>
    (schema.placed m.info scope v fun scope => schema.inside m.info scope v) ++
      membersShown rest scope fields
  | _, _, _ => []

end

def Schema.rootElement (schema : Schema) (root : NodeInfo) (v : Value) : Element :=
  let shown := schema.inside root root.ns.toList v
  ⟨⟨root.name, none, root.ns, attributesOf shown⟩, contentOf shown⟩

end Shown

namespace Schema

section Induction

structure Hereditary (P : Schema → Prop) : Prop where
  text : ∀ schema : Schema, schema.isText = true → P schema
  list : ∀ opt item info flattened, info.IsProper → info.location = .element →
    item.isFlattened = false → P item → P (.list opt item info flattened)
  map : ∀ opt value keyInfo valueInfo flattened, keyInfo.IsProper → valueInfo.IsProper →
    keyInfo.name ≠ valueInfo.name → (valueInfo.location = .attribute → value.isText = true) →
    value.isFlattened = false → P value → P (.map opt value keyInfo valueInfo flattened)
  record : ∀ opt members, (members.map (·.1.key)).Nodup → (members.map (·.1.info.place)).Nodup →
    (∀ m ∈ members, m.1.info.IsProper ∧
      (m.1.info.location = .attribute → m.2.isText = true) ∧ P m.2) → P (.record opt members)

mutual

theorem IsLegal.induction {P : Schema → Prop} (hP : Hereditary P) :
    ∀ schema : Schema, schema.IsLegal → P schema
  | .scalar _, _ => hP.text _ rfl
  | .optional _, _ => hP.text _ rfl
  | .blob, _ => hP.text _ rfl
  | .list opt item info flattened, h =>
    hP.list opt item info flattened h.1 h.2.1 h.2.2.1 (IsLegal.induction hP item h.2.2.2)
  | .map opt value keyInfo valueInfo flattened, h =>
    hP.map opt value keyInfo valueInfo flattened h.1 h.2.1 h.2.2.1 h.2.2.2.1 h.2.2.2.2.1
      (IsLegal.induction hP value h.2.2.2.2.2)
  | .record opt members, h => hP.record opt members h.1 h.2.1 (AreLegal.induction hP members h.2.2)

theorem AreLegal.induction {P : Schema → Prop} (hP : Hereditary P) :
    ∀ members : List (Member × Schema), AreLegal members → ∀ m ∈ members, m.1.info.IsProper ∧
      (m.1.info.location = .attribute → m.2.isText = true) ∧ P m.2
  | [], _ => by simp
  | (m, schema) :: rest, h => by
    rw [List.forall_mem_cons]
    exact ⟨⟨h.1, h.2.1, IsLegal.induction hP schema h.2.2.1⟩, AreLegal.induction hP rest h.2.2.2⟩

end

end Induction

end Schema

section Places

def Shown.place : Shown → Location × String
  | .inl a => (.attribute, a.name)
  | .inr (.element tag _) => (.element, tag.name)
  | .inr (.text _) => (.text, "")

variable {info : NodeInfo} {scope : List Namespace} {v : Value}
  {inside : List Namespace → List Shown}

theorem place_enclosed (h : info.location = .element) :
    Shown.place (.inr (enclosed info scope inside)) = info.place := by
  rw [enclosed, Shown.place, NodeInfo.place, h]

theorem shownAs_element (h : info.location = .element) :
    shownAs info scope v inside = .inr (enclosed info scope inside) := by
  rw [shownAs, h]

theorem shownAs_attribute (h : info.location = .attribute) :
    shownAs info scope v inside = .inl ⟨info.name, v.spelling⟩ := by
  rw [shownAs, h]

theorem NodeInfo.IsProper.place_shownAs (h : info.IsProper) :
    (shownAs info scope v inside).place = info.place := by
  rcases h.location with hl | ⟨hl, _⟩
  · rw [shownAs_element hl, place_enclosed hl]
  · rw [shownAs_attribute hl, Shown.place, NodeInfo.place, hl]

theorem NodeInfo.IsProper.ne_text (h : info.IsProper) : info.location ≠ .text := by
  rcases h.location with hl | ⟨hl, _⟩ <;> rw [hl] <;> decide

namespace Schema

variable {schema : Schema}

theorem Fits.exists_list {opt flattened : Bool} {item : Schema} {itemInfo : NodeInfo}
    (h : Fits (.list opt item itemInfo flattened) v) (hv : v.isAbsent = false) :
    ∃ vs, v = .list vs ∧ ∀ w ∈ vs, w.isAbsent = false ∧ item.Fits w := by
  cases v with
  | list vs => exact ⟨vs, rfl, h⟩
  | absent => cases hv
  | _ => exact h.elim

theorem Fits.exists_map {opt flattened : Bool} {value : Schema} {keyInfo valueInfo : NodeInfo}
    (h : Fits (.map opt value keyInfo valueInfo flattened) v) (hv : v.isAbsent = false) :
    ∃ es, v = .map es ∧ (es.map Prod.fst).Pairwise (· < ·) ∧
      ∀ e ∈ es, e.2.isAbsent = false ∧ value.Fits e.2 := by
  cases v with
  | map es => exact ⟨es, rfl, h⟩
  | absent => cases hv
  | _ => exact h.elim

theorem Fits.exists_record {opt : Bool} {members : List (Member × Schema)}
    (h : Fits (.record opt members) v) (hv : v.isAbsent = false) :
    ∃ fields, v = .record fields ∧ FitAll members fields := by
  cases v with
  | record fields => exact ⟨fields, rfl, h⟩
  | absent => cases hv
  | _ => exact h.elim

theorem not_isText (h : schema.isFlattened = true) : schema.isText = false := by
  cases schema <;> first | rfl | cases h

theorem inside_text (htext : schema.isText = true) (own : NodeInfo) (scope : List Namespace)
    (v : Value) : schema.inside own scope v = [.inr (.text v.spelling)] := by
  cases schema <;> first | rfl | cases htext

theorem element_of_flattened (h : schema.isFlattened = true) (hinfo : info.IsProper)
    (htext : info.location = .attribute → schema.isText = true) : info.location = .element := by
  rcases hinfo.location with hl | ⟨hl, _⟩
  · exact hl
  · exact absurd (htext hl) (by rw [not_isText h]; exact Bool.false_ne_true)

theorem placed_absent (h : v.isAbsent = true) : schema.placed info scope v inside = [] :=
  if_pos h

theorem placed_flattened (hv : v.isAbsent = false) (h : schema.isFlattened = true) :
    schema.placed info scope v inside = inside scope := by
  rw [placed, hv, h]
  rfl

theorem placed_node (hv : v.isAbsent = false) (h : schema.isFlattened = false) :
    schema.placed info scope v inside = [shownAs info scope v inside] := by
  rw [placed, hv, h]
  rfl

theorem place_of_flattened (h : schema.isFlattened = true) (hl : info.location = .element) :
    ∀ x ∈ schema.inside info scope v, x.place = info.place := by
  intro x hx
  cases schema with
  | list opt item itemInfo flattened =>
    obtain rfl : flattened = true := h
    rw [Schema.inside, List.mem_map] at hx
    obtain ⟨_, _, rfl⟩ := hx
    exact place_enclosed hl
  | map opt value keyInfo valueInfo flattened =>
    obtain rfl : flattened = true := h
    rw [Schema.inside, List.mem_map] at hx
    obtain ⟨_, _, rfl⟩ := hx
    exact place_enclosed hl
  | _ => cases h

theorem place_of_mem_placed (h : info.IsProper)
    (htext : info.location = .attribute → schema.isText = true) :
    ∀ x ∈ schema.placed info scope v fun scope => schema.inside info scope v,
      x.place = info.place := by
  intro x hx
  cases hv : v.isAbsent with
  | true =>
    rw [placed_absent hv] at hx
    cases hx
  | false =>
    cases hf : schema.isFlattened with
    | true =>
      rw [placed_flattened hv hf] at hx
      exact place_of_flattened hf (element_of_flattened hf h htext) x hx
    | false =>
      rw [placed_node hv hf, List.mem_singleton] at hx
      rw [hx]
      exact h.place_shownAs

theorem place_of_mem_membersShown {members : List (Member × Schema)}
    {fields : List (String × Value)} (h : ∀ m ∈ members, m.1.info.IsProper ∧
      (m.1.info.location = .attribute → m.2.isText = true)) :
    ∀ x ∈ membersShown members scope fields, x.place ∈ members.map (·.1.info.place) := by
  intro x hx
  induction members generalizing fields with
  | nil => cases hx
  | cons m rest ih =>
    rw [List.forall_mem_cons] at h
    cases fields with
    | nil => cases hx
    | cons f fields =>
      rw [membersShown, List.mem_append] at hx
      rw [List.map_cons, List.mem_cons]
      rcases hx with hx | hx
      · exact .inl (place_of_mem_placed h.1.1 h.1.2 x hx)
      · exact .inr (ih h.2 hx)

end Schema

end Places

section Tidy

theorem mem_attributesOf {a : Attribute} {l : List Shown} : a ∈ attributesOf l ↔ .inl a ∈ l := by
  rw [attributesOf, List.mem_filterMap]
  constructor
  · rintro ⟨x, hx, ha⟩
    rw [Sum.getLeft?_eq_some_iff] at ha
    exact ha ▸ hx
  · exact fun h => ⟨_, h, rfl⟩

theorem mem_contentOf {c : Content} {l : List Shown} : c ∈ contentOf l ↔ .inr c ∈ l := by
  rw [contentOf, List.mem_filterMap]
  constructor
  · rintro ⟨x, hx, hc⟩
    rw [Sum.getRight?_eq_some_iff] at hc
    exact hc ▸ hx
  · exact fun h => ⟨_, h, rfl⟩

def Shown.IsPlain : Shown → Prop
  | .inl a => IsName a.name ∧ a.name ≠ "xmlns"
  | .inr c => c.IsPlain

/-- What can be written into one element and read back. -/
structure Tidy (l : List Shown) : Prop where
  plain : ∀ x ∈ l, x.IsPlain
  distinct : ((attributesOf l).map Attribute.name).Nodup

variable {info : NodeInfo} {scope : List Namespace} {v : Value}
  {inside : List Namespace → List Shown} {l m : List Shown}

theorem Tidy.nil : Tidy [] := ⟨nofun, List.nodup_nil⟩

theorem Tidy.append (hl : Tidy l) (hm : Tidy m)
    (hne : ∀ a ∈ attributesOf l, ∀ b ∈ attributesOf m, a.name ≠ b.name) : Tidy (l ++ m) := by
  refine ⟨fun x hx => ?_, ?_⟩
  · exact (List.mem_append.1 hx).elim (hl.plain x) (hm.plain x)
  · rw [attributesOf_append, List.map_append, List.nodup_append]
    refine ⟨hl.distinct, hm.distinct, ?_⟩
    rintro x hx y hy
    obtain ⟨a, ha, rfl⟩ := List.mem_map.1 hx
    obtain ⟨b, hb, rfl⟩ := List.mem_map.1 hy
    exact hne a ha b hb

theorem Tidy.singleton {x : Shown} (h : x.IsPlain) : Tidy [x] := by
  refine ⟨fun y hy => List.mem_singleton.1 hy ▸ h, ?_⟩
  cases x with
  | inl a => exact List.nodup_singleton _
  | inr c => exact List.nodup_nil

theorem Tidy.arePlain (h : Tidy l) : ArePlain (contentOf l) :=
  (arePlain_iff _).2 fun c hc => h.plain (.inr c) (mem_contentOf.1 hc)

theorem tidy_map {α : Type} {items : List α} {f : α → Content} (h : ∀ a ∈ items, (f a).IsPlain) :
    Tidy (items.map fun a => .inr (f a)) := by
  refine ⟨fun x hx => ?_, ?_⟩
  · obtain ⟨a, ha, rfl⟩ := List.mem_map.1 hx
    exact h a ha
  · have hnone : attributesOf (items.map fun a => .inr (f a)) = [] := by
      refine List.eq_nil_iff_forall_not_mem.2 fun a ha => ?_
      obtain ⟨_, _, hx⟩ := List.mem_map.1 (mem_attributesOf.1 ha)
      cases hx
    rw [hnone]
    exact List.nodup_nil

theorem NodeInfo.IsProper.enclosed_isPlain (h : info.IsProper)
    (hinside : ∀ scope, Tidy (inside scope)) : (enclosed info scope inside).IsPlain := by
  have htidy := hinside ((info.ns.filter (· ∉ scope)).toList ++ scope)
  refine ⟨⟨h.name, nofun, fun ns hns => h.ns ns ?_, fun a ha => ?_, htidy.distinct⟩,
    htidy.arePlain⟩
  · exact (Option.mem_filter_iff.1 hns).1
  · exact htidy.plain (.inl a) (mem_attributesOf.1 ha)

theorem NodeInfo.IsProper.shownAs_isPlain (h : info.IsProper)
    (hinside : ∀ scope, Tidy (inside scope)) : (shownAs info scope v inside).IsPlain := by
  rcases h.location with hl | ⟨hl, hne⟩
  · rw [shownAs_element hl]
    exact h.enclosed_isPlain hinside
  · rw [shownAs_attribute hl]
    exact ⟨h.name, hne⟩

theorem isProper_entryInfo : entryInfo.IsProper := by decide

theorem tidy_keyShown (key : String) : Tidy (keyShown key) := Tidy.singleton trivial

theorem entryShown_isPlain {keyInfo valueInfo : NodeInfo} (h : info.IsProper)
    (hkey : keyInfo.IsProper) (hvalue : valueInfo.IsProper) (hne : keyInfo.name ≠ valueInfo.name)
    (entry : String × Value) (hinside : ∀ scope, Tidy (inside scope)) :
    (entryShown info keyInfo valueInfo scope entry inside).IsPlain := by
  refine h.enclosed_isPlain fun scope => ?_
  have hk : Tidy [shownAs keyInfo scope (.scalar (.string entry.1)) fun _ => keyShown entry.1] :=
    Tidy.singleton (hkey.shownAs_isPlain fun _ => tidy_keyShown entry.1)
  have hv : Tidy [shownAs valueInfo scope entry.2 inside] :=
    Tidy.singleton (hvalue.shownAs_isPlain hinside)
  refine hk.append hv fun a ha b hb heq => hne ?_
  have hplace : Shown.place (.inl a) = keyInfo.place := by
    rw [List.mem_singleton.1 (mem_attributesOf.1 ha), hkey.place_shownAs]
  have hplace' : Shown.place (.inl b) = valueInfo.place := by
    rw [List.mem_singleton.1 (mem_attributesOf.1 hb), hvalue.place_shownAs]
  have hname : a.name = keyInfo.name := congrArg Prod.snd hplace
  have hname' : b.name = valueInfo.name := congrArg Prod.snd hplace'
  rw [← hname, ← hname', heq]

namespace Schema

theorem tidy_placed {schema : Schema}
    (h : ∀ scope v, info.IsProper → Tidy (schema.inside info scope v)) (hinfo : info.IsProper) :
    Tidy (schema.placed info scope v fun scope => schema.inside info scope v) := by
  rw [placed]
  split_ifs
  · exact Tidy.nil
  · exact h scope v hinfo
  · exact Tidy.singleton (hinfo.shownAs_isPlain fun scope => h scope v hinfo)

theorem tidy_membersShown {members : List (Member × Schema)} {fields : List (String × Value)}
    (hplaces : (members.map (·.1.info.place)).Nodup)
    (h : ∀ m ∈ members, m.1.info.IsProper ∧ (m.1.info.location = .attribute → m.2.isText = true) ∧
      ∀ info scope v, info.IsProper → Tidy (m.2.inside info scope v)) :
    Tidy (membersShown members scope fields) := by
  induction members generalizing fields with
  | nil => exact Tidy.nil
  | cons m rest ih =>
    rw [List.forall_mem_cons] at h
    rw [List.map_cons, List.nodup_cons] at hplaces
    cases fields with
    | nil => exact Tidy.nil
    | cons f fields =>
      obtain ⟨hinfo, htext, hinside⟩ := h.1
      refine (tidy_placed (hinside m.1.info) hinfo).append (ih hplaces.2 h.2) ?_
      intro a ha b hb heq
      have hfirst := place_of_mem_placed hinfo htext _ (mem_attributesOf.1 ha)
      have hmore := place_of_mem_membersShown (fun m hm => ⟨(h.2 m hm).1, (h.2 m hm).2.1⟩) _
        (mem_attributesOf.1 hb)
      rw [Shown.place] at hfirst hmore
      rw [← heq, hfirst] at hmore
      exact hplaces.1 hmore

theorem hereditary_tidy_inside : Hereditary fun schema =>
    ∀ info scope v, info.IsProper → Tidy (schema.inside info scope v) where
  text := by
    intro schema htext info scope v _
    cases schema with
    | scalar t => exact Tidy.singleton trivial
    | «optional» t => exact Tidy.singleton trivial
    | blob => exact Tidy.singleton trivial
    | _ => cases htext
  list := by
    intro opt item itemInfo flattened hitemInfo _ _ hitem info scope v hinfo
    have hown : (if flattened then info else itemInfo).IsProper := by
      split_ifs
      · exact hinfo
      · exact hitemInfo
    exact tidy_map fun v _ => hown.enclosed_isPlain fun scope => hitem _ scope v hown
  map := by
    intro opt value keyInfo valueInfo flattened hkey hvalue hne _ _ hinside info scope v hinfo
    have hown : (if flattened then info else entryInfo).IsProper := by
      split_ifs
      · exact hinfo
      · exact isProper_entryInfo
    exact tidy_map fun e _ => entryShown_isPlain hown hkey hvalue hne e fun scope =>
      hinside valueInfo scope e.2 hvalue
  record := by
    intro opt members _ hplaces hmembers info scope v _
    exact tidy_membersShown hplaces hmembers

theorem IsLegal.tidy_inside {schema : Schema} (h : schema.IsLegal) (info : NodeInfo)
    (scope : List Namespace) (v : Value) (hinfo : info.IsProper) :
    Tidy (schema.inside info scope v) :=
  IsLegal.induction hereditary_tidy_inside schema h info scope v hinfo

end Schema

end Tidy

end ServiceClient.Xml
