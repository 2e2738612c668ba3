import ServiceClient.Proofs.Run
import ServiceClient.Proofs.Xml.Document
import ServiceClient.Proofs.Xml.Layout

/-! Writing a value puts its layout into the document. Each action of a writer adds, below the node
it stands on, trees that show a known list of attributes and content; sequences of actions add one
list after the other. -/

namespace ServiceClient.Xml

open Document (Sound Has Holds Grown Budded)

/-- Below node `i`, inside the namespaces of `scope`, the action adds what shows as `shown`. -/
def Writes {α : Type} (x : Editing α) (i : NodeId) (scope : List Namespace) (shown : List Shown) :
    Prop :=
  ∀ d : Document, d.Sound → d.Has i → d.scope i = scope →
    ∃ a d' ts, x d = (.ok a, d') ∧ d.Grown d' i ts ∧ ts.map Tree.shown = shown

def Fills {α : Type} (x : Editing α) (i : NodeId) (scope : List Namespace) (shown : List Shown) :
    Prop :=
  ∀ (d : Document) (n : Node), d.Sound → d.Holds (.node i n []) → n.info.location = .element →
    d.scope i = scope → ∃ a d' ts, x d = (.ok a, d') ∧ d.Grown d' i ts ∧ ts.map Tree.shown = shown

section Rules

variable {α β : Type} {x : Editing α} {f : α → Editing β} {i : NodeId} {scope : List Namespace}
  {l m : List Shown} {cur : Cursor} {info : NodeInfo} {inside : List Namespace → List Shown}

theorem Writes.fills (h : Writes x i scope l) : Fills x i scope l :=
  fun d _ hd hi _ hscope => h d hd hi.has hscope

theorem writes_pure (a : α) : Writes (pure a : Editing α) i scope [] :=
  fun d hd _ _ => ⟨a, d, [], rfl, hd.grown_nil i, rfl⟩

theorem Writes.after {d d' : Document} {ts : List Tree} (h : Writes x i scope m)
    (hgrown : d.Grown d' i ts) (hts : ts.map Tree.shown = l) (hd : d.Sound) (hi : d.Has i)
    (hscope : d.scope i = scope) :
    ∃ a d'' us, x d' = (.ok a, d'') ∧ d.Grown d'' i us ∧ us.map Tree.shown = l ++ m := by
  obtain ⟨a, d'', us, hrun, hmore, hus⟩ :=
    h d' hgrown.sound (hgrown.has hd hi hi) ((hgrown.scope hd hi).trans hscope)
  exact ⟨a, d'', ts ++ us, hrun, hgrown.trans hmore hd hi, by rw [List.map_append, hts, hus]⟩

theorem Writes.bind (hx : Writes x i scope l) (hf : ∀ a, Writes (f a) i scope m) :
    Writes (x >>= f) i scope (l ++ m) := by
  intro d hd hi hscope
  obtain ⟨a, d', ts, hrun, hgrown, hts⟩ := hx d hd hi hscope
  obtain ⟨b, d'', us, hrun', hmore, hus⟩ := (hf a).after hgrown hts hd hi hscope
  exact ⟨b, d'', us, (bind_of_ok hrun).trans hrun', hmore, hus⟩

theorem Writes.pure_bind (hx : Writes x i scope l) {g : α → β} :
    Writes (x >>= fun a => pure (g a)) i scope l := by
  have hall := hx.bind (m := []) fun a => writes_pure (g a)
  rwa [List.append_nil] at hall

theorem extend_apply (hcur : cur.node = some i) (info : NodeInfo) (d : Document) :
    cur.extend info d = (.ok ⟨some i, some d.next, info⟩, (d.addChild i info).1) := by
  rw [Cursor.extend, hcur]
  rfl

theorem writes_extend (hcur : cur.node = some i) {f : Cursor → Editing α}
    (h : ∀ (d d' : Document) (c : NodeId), d.scope i = scope →
      d.Budded d' i c (Document.leaveScope scope (.ofInfo info)) →
      ∃ a d'' ts, f ⟨some i, some c, info⟩ d' = (.ok a, d'') ∧ d.Grown d'' i ts ∧
        List.map Tree.shown ts = l) :
    Writes (cur.extend info >>= f) i scope l := by
  intro d hd hi hscope
  have hbudded := (hd.addChild hi info).2
  rw [hscope] at hbudded
  obtain ⟨a, d'', ts, hrun, hgrown, hts⟩ := h d _ d.next hscope hbudded
  exact ⟨a, d'', ts, (bind_of_ok (extend_apply hcur info d)).trans hrun, hgrown, hts⟩

theorem shown_element {c : NodeId} {ts : List Tree} (hl : info.location = .element)
    (hts : ts.map Tree.shown = inside ((info.ns.filter (· ∉ scope)).toList ++ scope)) :
    (Tree.node c (Document.leaveScope scope (.ofInfo info)) ts).shown =
      .inr (enclosed info scope inside) := by
  have hleaf : (Document.leaveScope scope (.ofInfo info)).info.location = .element := hl
  rw [shown_of_element ts hleaf, enclosed, ← hts, ← attributes_eq, ← toContents_eq]
  rfl

theorem writes_element (hcur : cur.node = some i) (hl : info.location = .element)
    {f : Cursor → Editing α} (h : ∀ c, Fills (f ⟨some i, some c, info⟩) c
      ((info.ns.filter (· ∉ scope)).toList ++ scope)
      (inside ((info.ns.filter (· ∉ scope)).toList ++ scope))) :
    Writes (cur.extend info >>= f) i scope [.inr (enclosed info scope inside)] := by
  refine writes_extend hcur fun d d' c hscope hbudded => ?_
  have hinner : d'.scope c = (info.ns.filter (· ∉ scope)).toList ++ scope := by
    rw [hbudded.scope_leaf, hscope]
    rfl
  obtain ⟨a, d'', ts, hrun, hgrown, hts⟩ := h c d' _ hbudded.sound hbudded.holds hl hinner
  refine ⟨a, d'', _, hrun, hbudded.grown hgrown, ?_⟩
  rw [List.map_singleton, shown_element hl hts]

theorem writes_detach (hcur : cur.node = some i) :
    Writes (cur.extend info >>= fun c => c.detach) i scope [] :=
  writes_extend hcur fun _ d' c _ hbudded =>
    ⟨⟨some i, none, info⟩, d'.detach c, [], rfl, hbudded.detach, rfl⟩

end Rules

section Text

variable {α : Type} {f : Cursor → Editing α} {s : String} {i : NodeId} {scope : List Namespace}
  {cur : Cursor} {info : NodeInfo} {v : Value}

def Spells (f : Cursor → Editing α) (s : String) : Prop :=
  ∀ (cur : Cursor) (i : NodeId) (d : Document), cur.node = some i →
    ∃ a, f cur d = (.ok a, d.setText i s)

theorem spells_setText (s : String) : Spells (fun cur => cur.setText s) s := by
  intro cur i d hcur
  dsimp only
  rw [Cursor.setText, hcur]
  exact ⟨(), rfl⟩

theorem spells_writeText (s : String) : Spells (fun cur => writeText cur s) s := by
  intro cur i d hcur
  obtain ⟨a, hrun⟩ := spells_setText s cur i d hcur
  dsimp only
  rw [writeText, bind_of_ok hrun]
  exact ⟨cur, rfl⟩

theorem fills_text (hf : Spells f s) (hcur : cur.node = some i) :
    Fills (f cur) i scope [.inr (.text s)] := by
  intro d n hd hleaf hl _
  obtain ⟨a, hrun⟩ := hf cur i d hcur
  have hfind : d.find? i = some (.node i n []) := hd.find? hleaf
  have hnode : d.node i = n := by
    rw [Document.node, hfind]
    rfl
  have hchildren : d.children i = [] := by
    rw [Document.children, hfind]
    rfl
  have hset : d.setText i s = (d.addChild i .forText).1.setContent d.next s := by
    rw [Document.setText, hnode, hl]
    dsimp only
    rw [hchildren]
    rfl
  have hbudded := (hd.addChild hleaf.has .forText).2
  exact ⟨a, _, _, hset ▸ hrun, hbudded.setContent s, rfl⟩

theorem writes_attribute (hf : Spells f s) (hcur : cur.node = some i)
    (hl : info.location = .attribute) :
    Writes (cur.extend info >>= f) i scope [.inl ⟨info.name, s⟩] := by
  refine writes_extend hcur fun d d' c _ hbudded => ?_
  obtain ⟨a, hrun⟩ := hf ⟨some i, some c, info⟩ c d' rfl
  have hleaf : (Document.leaveScope scope (.ofInfo info)).info.location = .attribute := hl
  have hfind : d'.find? c = some (.node c _ []) := hbudded.sound.find? hbudded.holds
  have hnode : d'.node c = Document.leaveScope scope (.ofInfo info) := by
    rw [Document.node, hfind]
    rfl
  have hset : d'.setText c s = d'.setContent c s := by
    rw [Document.setText, hnode, hleaf]
  refine ⟨a, _, _, hset ▸ hrun, hbudded.setContent s, ?_⟩
  rw [List.map_singleton]
  exact congrArg (fun x => [x]) (shown_of_attribute [] hleaf)

theorem writes_text (hf : Spells f s) (hcur : cur.node = some i) (hinfo : info.IsProper)
    (hv : v.spelling = s) : Writes (cur.extend info >>= f) i scope
      [shownAs info scope v fun _ => [.inr (.text s)]] := by
  rcases hinfo.location with hl | ⟨hl, _⟩
  · rw [shownAs_element hl]
    exact writes_element hcur hl fun c => fills_text hf rfl
  · rw [shownAs_attribute hl, hv]
    exact writes_attribute hf hcur hl

end Text

section Collections

variable {α : Type} {i : NodeId} {scope : List Namespace} {cur : Cursor} {info item : NodeInfo}
  {l : List Shown} {g : NodeId → NodeInfo → Editing Unit}

def collect (cur : Cursor) (flattened : Bool) (item : NodeInfo)
    (g : NodeId → NodeInfo → Editing Unit) : Editing Cursor := do
  let (cur, place) ← cur.openItems flattened item
  if let some (place, info) := place then
    g place info
  pure cur

theorem writes_collect (hcur : cur.node = some i) (hg : Writes (g i item) i scope l) :
    Writes (collect cur false item g) i scope l := by
  intro d hd hi hscope
  obtain ⟨a, d', ts, hrun, hgrown, hts⟩ := hg d hd hi hscope
  have hopen : cur.openItems false item d = (.ok (cur, some (i, item)), d) := by
    rw [Cursor.openItems, Cursor.items?, hcur]
    rfl
  refine ⟨cur, d', ts, ?_, hgrown, hts⟩
  rw [collect, bind_of_ok hopen]
  exact (bind_of_ok hrun).trans rfl

theorem writes_flattened (hcur : cur.node = some i) (hg : Writes (g i info) i scope l) :
    Writes (cur.extend info >>= fun cur => collect cur true item g) i scope l := by
  refine writes_extend hcur fun d d' c hscope hbudded => ?_
  obtain ⟨a, d'', ts, hrun, hgrown, hts⟩ :=
    hg.after hbudded.detach rfl hbudded.source hbudded.has hscope
  have hopen : Cursor.openItems ⟨some i, some c, info⟩ true item d' =
      (.ok (⟨some i, none, info⟩, some (i, info)), d'.detach c) := rfl
  refine ⟨⟨some i, none, info⟩, d'', ts, ?_, hgrown, hts⟩
  rw [collect, bind_of_ok hopen]
  exact (bind_of_ok hrun).trans rfl

theorem appendItem_eq (place : NodeId) (info : NodeInfo) :
    appendItem place info = Cursor.extend ⟨none, some place, info⟩ info := rfl

theorem discard_bind {β : Type} (x : Editing α) (y : Editing β) :
    (discard x >>= fun _ => y) = (x >>= fun _ => y) := by
  change (x >>= fun _ => pure ()) >>= _ = _
  rw [bind_assoc]
  simp only [pure_bind]

theorem writes_each {write : Value → Cursor → Editing Cursor} {f : Value → List Shown}
    (vs : List Value) (h : ∀ v ∈ vs, ∀ cur : Cursor, cur.node = some i →
      Writes (cur.extend info >>= write v) i scope (f v)) :
    Writes (writeEach i info write vs) i scope (vs.flatMap f) := by
  induction vs with
  | nil => exact writes_pure ()
  | cons v vs ih =>
    rw [List.forall_mem_cons] at h
    have hfirst := h.1 ⟨none, some i, info⟩ rfl
    have hall := hfirst.bind (f := fun _ => writeEach i info write vs) fun _ => ih h.2
    rw [bind_assoc] at hall
    rw [writeEach, appendItem_eq, List.flatMap_cons]
    simp only [discard_bind]
    exact hall

theorem writes_entry {keyInfo valueInfo : NodeInfo} {write : Cursor → Editing Cursor}
    {added : List Namespace → List Shown} (key : String) (scope : List Namespace)
    (cur : Cursor) (hcur : cur.node = some i) (hl : info.location = .element)
    (hkey : keyInfo.IsProper)
    (h : ∀ (cur : Cursor) (c : NodeId) (scope : List Namespace), cur.node = some c →
      Writes (cur.extend valueInfo >>= write) c scope (added scope)) :
    Writes (cur.extend info >>= fun cur => (cur.extend keyInfo >>= fun cur => cur.setText key)
      >>= fun _ => cur.extend valueInfo >>= write) i scope
      [.inr (enclosed info scope fun scope =>
        (shownAs keyInfo scope (.scalar (.string key)) fun _ => keyShown key) :: added scope)] :=
  writes_element hcur hl fun c => Writes.fills
    (Writes.bind (writes_text (spells_setText key) rfl hkey rfl) fun _ => h _ c _ rfl)

theorem writes_entries {keyInfo valueInfo : NodeInfo} {write : Value → Cursor → Editing Cursor}
    (added : Value → List Namespace → List Shown) (es : List (String × Value))
    (hl : info.location = .element) (hkey : keyInfo.IsProper)
    (h : ∀ e ∈ es, ∀ (cur : Cursor) (c : NodeId) (scope : List Namespace), cur.node = some c →
      Writes (cur.extend valueInfo >>= write e.2) c scope (added e.2 scope)) :
    Writes (writeEntries i info keyInfo valueInfo write es) i scope
      (es.map fun e => .inr (enclosed info scope fun scope =>
        (shownAs keyInfo scope (.scalar (.string e.1)) fun _ => keyShown e.1) ::
          added e.2 scope)) := by
  induction es with
  | nil => exact writes_pure ()
  | cons e es ih =>
    rw [List.forall_mem_cons] at h
    have hfirst := writes_entry e.1 scope ⟨none, some i, info⟩ rfl hl hkey h.1
    have hall := hfirst.bind (f := fun _ => writeEntries i info keyInfo valueInfo write es)
      fun _ => ih h.2
    simp only [bind_assoc] at hall
    rw [writeEntries, appendItem_eq]
    simp only [discard_bind]
    exact hall

end Collections

namespace Schema

variable {schema : Schema} {v : Value} {i : NodeId} {scope : List Namespace} {cur : Cursor}
  {info : NodeInfo}

theorem write_absent (hfit : schema.Fits v) (hv : v.isAbsent = true) (cur : Cursor) :
    schema.write v cur = cur.detach := by
  obtain rfl := v.eq_absent hv
  cases schema with
  | «optional» t => rfl
  | blob => rfl
  | list opt item itemInfo flattened => rfl
  | map opt value keyInfo valueInfo flattened => rfl
  | record opt members =>
    obtain rfl : opt = true := hfit
    rfl
  | _ => cases hfit

theorem write_text (htext : schema.isText = true) (hfit : schema.Fits v)
    (hv : v.isAbsent = false) (cur : Cursor) : schema.write v cur = writeText cur v.spelling := by
  cases schema with
  | scalar t => cases v <;> first | rfl | exact hfit.elim | cases hfit
  | «optional» t => cases v <;> first | rfl | exact hfit.elim | cases hv
  | blob => cases v <;> first | rfl | exact hfit.elim | cases hv
  | _ => cases htext

theorem writes_node {inside : List Namespace → List Shown} (hinfo : info.IsProper)
    (htext : info.location = .attribute → schema.isText = true) (hfit : schema.Fits v)
    (hv : v.isAbsent = false) (hcur : cur.node = some i)
    (h : ∀ (cur : Cursor) (i : NodeId) (scope : List Namespace), cur.node = some i →
      Fills (schema.write v cur) i scope (inside scope)) :
    Writes (cur.extend info >>= schema.write v) i scope [shownAs info scope v inside] := by
  rcases hinfo.location with hl | ⟨hl, _⟩
  · rw [shownAs_element hl]
    exact writes_element hcur hl fun c => h _ c _ rfl
  · rw [shownAs_attribute hl, funext (write_text (htext hl) hfit hv)]
    exact writes_attribute (spells_writeText v.spelling) hcur hl

/-- What is written for a value is placed like the value itself, be it under another schema. -/
theorem writes_placed {layout : Schema} {w : Value} {inside : List Namespace → List Shown}
    (hlayout : layout.isFlattened = schema.isFlattened) (habsent : w.isAbsent = v.isAbsent)
    (hspelling : w.spelling = v.spelling) (hinfo : info.IsProper)
    (htext : info.location = .attribute → schema.isText = true) (hfit : schema.Fits v)
    (hcur : cur.node = some i)
    (hnode : v.isAbsent = false → schema.isFlattened = false →
      ∀ (cur : Cursor) (i : NodeId) (scope : List Namespace), cur.node = some i →
        Fills (schema.write v cur) i scope (inside scope))
    (hitems : v.isAbsent = false → schema.isFlattened = true → info.location = .element →
      Writes (cur.extend info >>= schema.write v) i scope (inside scope)) :
    Writes (cur.extend info >>= schema.write v) i scope (layout.placed info scope w inside) := by
  cases hv : v.isAbsent with
  | true =>
    rw [placed_absent (habsent.trans hv), funext (write_absent hfit hv)]
    exact writes_detach hcur
  | false =>
    cases hflat : schema.isFlattened with
    | true =>
      rw [placed_flattened (habsent.trans hv) (hlayout.trans hflat)]
      exact hitems hv hflat (element_of_flattened hflat hinfo htext)
    | false =>
      have hshown : shownAs info scope w inside = shownAs info scope v inside := by
        rw [shownAs, shownAs, hspelling]
      rw [placed_node (habsent.trans hv) (hlayout.trans hflat), hshown]
      exact writes_node hinfo htext hfit hv hcur (hnode hv hflat)

/-- The schema writes its values as they are laid out. -/
structure WritesLayout (schema : Schema) : Prop where
  inside : ∀ v, schema.Fits v → v.isAbsent = false → schema.isFlattened = false →
    ∀ (cur : Cursor) (i : NodeId) (own : NodeInfo) (scope : List Namespace), cur.node = some i →
      Fills (schema.write v cur) i scope (schema.inside own scope v)
  items : ∀ v, schema.Fits v → v.isAbsent = false → schema.isFlattened = true →
    ∀ (cur : Cursor) (i : NodeId) (info : NodeInfo) (scope : List Namespace), cur.node = some i →
      info.location = .element →
        Writes (cur.extend info >>= schema.write v) i scope (schema.inside info scope v)

theorem WritesLayout.placed (h : schema.WritesLayout) (hinfo : info.IsProper)
    (htext : info.location = .attribute → schema.isText = true) (hfit : schema.Fits v)
    (hcur : cur.node = some i) :
    Writes (cur.extend info >>= schema.write v) i scope
      (schema.placed info scope v fun scope => schema.inside info scope v) :=
  writes_placed rfl rfl rfl hinfo htext hfit hcur
    (fun hv hflat cur i scope hcur => h.inside v hfit hv hflat cur i info scope hcur)
    fun hv hflat hl => h.items v hfit hv hflat cur i info scope hcur hl

theorem FitAll.keys : ∀ {members : List (Member × Schema)} {fields : List (String × Value)},
    FitAll members fields → fields.map Prod.fst = members.map (·.1.key)
  | [], [], _ => rfl
  | (m, schema) :: rest, (key, v) :: fields, h => by
    rw [List.map_cons, List.map_cons, FitAll.keys h.2.2]
    exact congrArg (· :: _) h.1

theorem member_record {fields : List (String × Value)} (h : (fields.map Prod.fst).Nodup) :
    ∀ f ∈ fields, (Value.record fields).member f.1 = f.2 := by
  intro f hf
  rw [Value.member]
  induction fields with
  | nil => cases hf
  | cons g fields ih =>
    rw [List.map_cons, List.nodup_cons] at h
    rcases List.mem_cons.1 hf with rfl | hf
    · rw [List.lookup_cons_self]
      rfl
    · have hne : f.1 ≠ g.1 := fun heq => h.1 (heq ▸ List.mem_map_of_mem hf)
      rw [List.lookup_cons, beq_eq_false_iff_ne.2 hne]
      exact ih h.2 hf

theorem writes_members {shown : Member × Schema → String × Value → List Shown} (record : Value)
    (hcur : cur.node = some i) : ∀ (members : List (Member × Schema))
    (fields : List (String × Value)), FitAll members fields →
      (∀ f ∈ fields, record.member f.1 = f.2) →
      (∀ m ∈ members, ∀ f : String × Value, m.2.Fits f.2 →
        Writes (cur.extend m.1.info >>= m.2.write f.2) i scope (shown m f)) →
      Writes (writeMembers members record cur) i scope
        (List.zipWith shown members fields).flatten
  | [], [], _, _, _ => writes_pure ()
  | (m, schema) :: rest, (key, v) :: fields, hfit, hrecord, hmembers => by
    rw [List.forall_mem_cons] at hmembers hrecord
    obtain ⟨rfl, hfirst, hrest⟩ := hfit
    have hmember := hmembers.1 (m.key, v) hfirst
    have hall := hmember.bind (f := fun _ => writeMembers rest record cur) fun _ =>
      writes_members record hcur rest fields hrest hrecord.2 hmembers.2
    rw [bind_assoc] at hall
    rw [writeMembers, hrecord.1]
    simp only [discard_bind]
    exact hall

theorem fills_record {shown : Member × Schema → String × Value → List Shown}
    {members : List (Member × Schema)} {fields : List (String × Value)} (opt : Bool)
    (hkeys : (members.map (·.1.key)).Nodup) (hfit : FitAll members fields)
    (hcur : cur.node = some i) (hmembers : ∀ m ∈ members, ∀ f : String × Value, m.2.Fits f.2 →
      Writes (cur.extend m.1.info >>= m.2.write f.2) i scope (shown m f)) :
    Fills (Schema.write (.record opt members) (.record fields) cur) i scope
      (List.zipWith shown members fields).flatten := by
  have hrecord := member_record (FitAll.keys hfit ▸ hkeys)
  have hwrites := writes_members (.record fields) hcur members fields hfit hrecord hmembers
  rw [Schema.write, if_neg fun h => Bool.false_ne_true h.2]
  exact hwrites.pure_bind.fills

theorem membersShown_eq (scope : List Namespace) : ∀ (members : List (Member × Schema))
    (fields : List (String × Value)), membersShown members scope fields =
      (List.zipWith (fun m f => m.2.placed m.1.info scope f.2 fun scope =>
        m.2.inside m.1.info scope f.2) members fields).flatten
  | [], _ => rfl
  | _ :: _, [] => rfl
  | _ :: rest, _ :: fields => congrArg (_ ++ ·) (membersShown_eq scope rest fields)

theorem writesLayout_text (htext : schema.isText = true) : schema.WritesLayout := by
  refine ⟨fun v hfit hv _ cur i own scope hcur => ?_, fun _ _ _ hflat => ?_⟩
  · rw [write_text htext hfit hv, inside_text htext]
    exact fills_text (spells_writeText v.spelling) hcur
  · rw [not_isText hflat] at htext
    cases htext

theorem writes_items {item : Schema} {vs : List Value} (hitem : item.WritesLayout)
    (hflat : item.isFlattened = false) (hfit : ∀ v ∈ vs, v.isAbsent = false ∧ item.Fits v)
    (hl : info.location = .element) :
    Writes (writeEach i info (fun v c => item.write v c) vs) i scope
      (vs.map fun v => .inr (enclosed info scope fun scope => item.inside info scope v)) := by
  rw [List.map_eq_flatMap]
  refine writes_each vs fun v hv cur hcur => ?_
  exact writes_element hcur hl fun c =>
    hitem.inside v (hfit v hv).2 (hfit v hv).1 hflat _ c info _ rfl

theorem writesLayout_list {item : Schema} {itemInfo : NodeInfo} (opt flattened : Bool)
    (hl : itemInfo.location = .element) (hflat : item.isFlattened = false)
    (hitem : item.WritesLayout) : WritesLayout (.list opt item itemInfo flattened) := by
  refine ⟨fun v hfit hv hown cur i own scope hcur => ?_,
    fun v hfit hv hown cur i info scope hcur hinfo => ?_⟩
  · obtain rfl : flattened = false := hown
    obtain ⟨vs, rfl, hvs⟩ := hfit.exists_list hv
    exact (writes_collect hcur (writes_items hitem hflat hvs hl)).fills
  · obtain rfl : flattened = true := hown
    obtain ⟨vs, rfl, hvs⟩ := hfit.exists_list hv
    exact writes_flattened hcur (writes_items hitem hflat hvs hinfo)

theorem writesLayout_map {value : Schema} {keyInfo valueInfo : NodeInfo} (opt flattened : Bool)
    (hkey : keyInfo.IsProper) (hvalueInfo : valueInfo.IsProper)
    (htext : valueInfo.location = .attribute → value.isText = true)
    (hflat : value.isFlattened = false) (hvalue : value.WritesLayout) :
    WritesLayout (.map opt value keyInfo valueInfo flattened) := by
  have hentries : ∀ es : List (String × Value), (∀ e ∈ es, e.2.isAbsent = false ∧ value.Fits e.2) →
      ∀ (i : NodeId) (info : NodeInfo) (scope : List Namespace), info.location = .element →
        Writes (writeEntries i info keyInfo valueInfo (fun v c => value.write v c) es) i scope
          (es.map fun e => .inr (entryShown info keyInfo valueInfo scope e fun scope =>
            value.inside valueInfo scope e.2)) := by
    intro es hes i info scope hl
    refine writes_entries (fun v scope => [shownAs valueInfo scope v fun scope =>
      value.inside valueInfo scope v]) es hl hkey fun e he cur c scope hcur => ?_
    exact writes_node hvalueInfo htext (hes e he).2 (hes e he).1 hcur fun cur c scope hcur =>
      hvalue.inside e.2 (hes e he).2 (hes e he).1 hflat cur c valueInfo scope hcur
  refine ⟨fun v hfit hv hown cur i own scope hcur => ?_,
    fun v hfit hv hown cur i info scope hcur hinfo => ?_⟩
  · obtain rfl : flattened = false := hown
    obtain ⟨es, rfl, _, hes⟩ := hfit.exists_map hv
    exact (writes_collect hcur (hentries es hes i entryInfo scope rfl)).fills
  · obtain rfl : flattened = true := hown
    obtain ⟨es, rfl, _, hes⟩ := hfit.exists_map hv
    exact writes_flattened hcur (hentries es hes i info scope hinfo)

theorem writesLayout_record {members : List (Member × Schema)} (opt : Bool)
    (hkeys : (members.map (·.1.key)).Nodup)
    (hmembers : ∀ m ∈ members, m.1.info.IsProper ∧
      (m.1.info.location = .attribute → m.2.isText = true) ∧ m.2.WritesLayout) :
    WritesLayout (.record opt members) := by
  refine ⟨fun v hfit hv _ cur i own scope hcur => ?_,
    fun _ _ _ hown => (Bool.false_ne_true hown).elim⟩
  obtain ⟨fields, rfl, hfields⟩ := hfit.exists_record hv
  rw [show Schema.inside (.record opt members) own scope (.record fields) =
    membersShown members scope fields from rfl, membersShown_eq]
  refine fills_record opt hkeys hfields hcur fun m hm f hfit => ?_
  obtain ⟨hinfo, htext, hwrites⟩ := hmembers m hm
  exact hwrites.placed hinfo htext hfit hcur

theorem hereditary_writesLayout : Hereditary WritesLayout where
  text := fun _ htext => writesLayout_text htext
  list := fun opt _ _ flattened _ hl hflat hitem => writesLayout_list opt flattened hl hflat hitem
  map := fun opt _ _ _ flattened hkey hvalueInfo _ htext hflat hvalue =>
    writesLayout_map opt flattened hkey hvalueInfo htext hflat hvalue
  record := fun opt _ hkeys _ hmembers => writesLayout_record opt hkeys hmembers

theorem writeDocument_of_fills {layout : Schema} {w : Value} {root : NodeInfo}
    (hroot : root.location = .element)
    (hwrites : Fills (schema.write v (.atRoot (Document.new root))) 0 root.ns.toList
      (layout.inside root root.ns.toList w)) :
    writeDocument root schema v = .ok (layout.rootElement root w).octets := by
  have hleaf : (Document.new root).Holds (.node 0 (.ofInfo root) []) := List.mem_cons_self
  have hsound : (Document.new root).Sound :=
    ⟨List.nodup_singleton _, fun j hj => by rw [List.mem_singleton.1 hj]; exact Nat.one_pos⟩
  have hscope : (Document.new root).scope 0 = root.ns.toList := by
    cases hns : root.ns <;> simp [Document.scope, Document.new, Tree.pathAmong?, Tree.path?,
      Tree.value, Node.ofInfo, hns]
  obtain ⟨a, d, ts, hrun, hgrown, hts⟩ := hwrites _ _ hsound hleaf hroot hscope
  obtain ⟨loose, htrees⟩ := hgrown.trees
  have hholds : d.Holds (.node 0 (.ofInfo root) ts) := by
    rw [Document.Holds, htrees, Tree.nodesAmong_append]
    exact List.mem_append_right _ List.mem_cons_self
  have hfind : d.find? d.root = some (.node 0 (.ofInfo root) ts) := by
    rw [hgrown.root]
    exact hgrown.sound.find? hholds
  have hoctets : d.octets = Element.octets ⟨Tree.tag (.ofInfo root) ts, Tree.toContents ts⟩ := by
    rw [Document.octets, Document.toElement, Document.rootTree, hfind]
    rfl
  have hdone : writeDocument root schema v = .ok d.octets := by
    have hrun' : (schema.write v (.atRoot (Document.new root))).run (Document.new root) =
      (.ok a, d) := hrun
    rw [writeDocument, hrun']
  rw [hdone, hoctets, Tree.tag, attributes_eq, toContents_eq, hts]
  rfl

/-- Writing a legal value gives the root element around its layout. -/
theorem writeDocument_eq {root : NodeInfo} (h : schema.IsLegal) (hflat : schema.isFlattened = false)
    (hroot : root.location = .element) (hfit : schema.Fits v) (hv : v.isAbsent = false) :
    writeDocument root schema v = .ok (schema.rootElement root v).octets :=
  writeDocument_of_fills hroot ((IsLegal.induction hereditary_writesLayout schema h).inside v hfit
    hv hflat (.atRoot (Document.new root)) 0 root root.ns.toList rfl)

end Schema

end ServiceClient.Xml
