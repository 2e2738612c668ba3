import ServiceClient.Proofs.Xml.Read
import ServiceClient.Proofs.Xml.Write

/-! Flattened collections anywhere. Of a flattened collection among items or in an entry only its
own items are written, so what is written is the layout of another value, under a legal schema in
which maps are lists of pairs and the flattened items of a list have become one list. -/

namespace ServiceClient.Xml.Schema

section Definitions

def isRow : Schema → Bool
  | .list _ item _ flattened => flattened && item.isText
  | .map _ value _ _ flattened => flattened && value.isText
  | _ => false

mutual

/-- As legal schemas, but flattened collections may also be the values of a map and, if they hold
text, the items of a list. -/
def IsBroad : Schema → Prop
  | .scalar _ | .optional _ | .blob => True
  | .list _ item info flattened =>
    (flattened = false → info.IsProper ∧ info.location = .element) ∧
      (item.isFlattened = true → item.isRow = true) ∧ item.IsBroad
  | .map _ value keyInfo valueInfo _ =>
    keyInfo.IsProper ∧ valueInfo.IsProper ∧ keyInfo.name ≠ valueInfo.name ∧
      (valueInfo.location = .attribute → value.isText = true) ∧ value.IsBroad
  | .record _ members =>
    (members.map (·.1.key)).Nodup ∧ (members.map (·.1.info.place)).Nodup ∧ AreBroad members
  | .timestamp _ | .optionalTimestamp _ | .taken _ | .inspection => False

def AreBroad : List (Member × Schema) → Prop
  | [] => True
  | (m, schema) :: rest =>
    m.info.IsProper ∧ (m.info.location = .attribute → schema.isText = true) ∧ schema.IsBroad ∧
      AreBroad rest

end

def item : Schema → Schema
  | .list _ item _ _ => item
  | schema => schema

def pair (keyInfo valueInfo : NodeInfo) (value : Schema) : Schema :=
  .record false [(⟨"key", keyInfo⟩, .scalar .string), (⟨"value", valueInfo⟩, value)]

mutual

/-- The legal schema that lays out what this one writes. -/
def spread : Schema → Schema
  | .list opt item info flattened =>
    .list opt (if item.isFlattened then item.spread.item else item.spread)
      (if flattened then entryInfo else info) flattened
  | .map opt value keyInfo valueInfo flattened =>
    .list opt (pair keyInfo valueInfo value.spread) entryInfo flattened
  | .record opt members => .record opt (spreadAll members)
  | schema => schema

def spreadAll : List (Member × Schema) → List (Member × Schema)
  | [] => []
  | (m, schema) :: rest => (m, schema.spread) :: spreadAll rest

end

def pairValue (key : String) (v : Value) : Value :=
  .record [("key", .scalar (.string key)), ("value", v)]

mutual

def reduce : Schema → Value → Value
  | .list _ item _ _, .list vs =>
    .list (if item.isFlattened then vs.flatMap fun v => (item.reduce v).items
      else vs.map fun v => item.reduce v)
  | .map _ value _ _ _, .map es => .list (es.map fun e => pairValue e.1 (value.reduce e.2))
  | .record _ members, .record fields => .record (reduceAll members fields)
  | _, v => v

def reduceAll : List (Member × Schema) → List (String × Value) → List (String × Value)
  | (_, schema) :: rest, (key, v) :: fields => (key, schema.reduce v) :: reduceAll rest fields
  | _, _ => []

end

mutual

/-- The value that is read where the spread schema reads the given one. The items of all flattened
collections in a list are siblings, and each of the collections takes them all. -/
def restore : Schema → Value → Value
  | .list _ item _ _, .list ws =>
    .list (ws.map fun w => item.restore (if item.isFlattened then .list ws else w))
  | .map _ value _ _ _, .list ws =>
    .map (ws.foldl (fun es w =>
      insertKey (w.member "key").spelling (value.restore (w.member "value")) es) [])
  | .record _ members, .record fields => .record (restoreAll members fields)
  | _, w => w

def restoreAll : List (Member × Schema) → List (String × Value) → List (String × Value)
  | (_, schema) :: rest, (key, w) :: fields => (key, schema.restore w) :: restoreAll rest fields
  | _, _ => []

end

end Definitions

section Induction

structure Pervasive (P : Schema → Prop) : Prop where
  text : ∀ schema : Schema, schema.isText = true → P schema
  list : ∀ opt item info flattened, (flattened = false → info.IsProper ∧ info.location = .element) →
    (item.isFlattened = true → item.isRow = true) → P item → P (.list opt item info flattened)
  map : ∀ opt value keyInfo valueInfo flattened, keyInfo.IsProper → valueInfo.IsProper →
    keyInfo.name ≠ valueInfo.name → (valueInfo.location = .attribute → value.isText = true) →
    P value → P (.map opt value keyInfo valueInfo flattened)
  record : ∀ opt members, (members.map (·.1.key)).Nodup → (members.map (·.1.info.place)).Nodup →
    (∀ m ∈ members, m.1.info.IsProper ∧
      (m.1.info.location = .attribute → m.2.isText = true) ∧ P m.2) → P (.record opt members)

mutual

theorem IsBroad.induction {P : Schema → Prop} (hP : Pervasive P) :
    ∀ schema : Schema, schema.IsBroad → P schema
  | .scalar _, _ => hP.text _ rfl
  | .optional _, _ => hP.text _ rfl
  | .blob, _ => hP.text _ rfl
  | .list opt item info flattened, h =>
    hP.list opt item info flattened h.1 h.2.1 (IsBroad.induction hP item h.2.2)
  | .map opt value keyInfo valueInfo flattened, h =>
    hP.map opt value keyInfo valueInfo flattened h.1 h.2.1 h.2.2.1 h.2.2.2.1
      (IsBroad.induction hP value h.2.2.2.2)
  | .record opt members, h => hP.record opt members h.1 h.2.1 (AreBroad.induction hP members h.2.2)

theorem AreBroad.induction {P : Schema → Prop} (hP : Pervasive P) :
    ∀ members : List (Member × Schema), AreBroad members → ∀ m ∈ members, m.1.info.IsProper ∧
      (m.1.info.location = .attribute → m.2.isText = true) ∧ P m.2
  | [], _ => by simp
  | (m, schema) :: rest, h => by
    rw [List.forall_mem_cons]
    exact ⟨⟨h.1, h.2.1, IsBroad.induction hP schema h.2.2.1⟩, AreBroad.induction hP rest h.2.2.2⟩

end

end Induction

section Shape

variable {schema : Schema} {v : Value} {opt flattened : Bool} {info keyInfo valueInfo : NodeInfo}

theorem spread_text (h : schema.isText = true) : schema.spread = schema := by
  cases schema <;> first | rfl | cases h

theorem reduce_text (h : schema.isText = true) (v : Value) : schema.reduce v = v := by
  cases schema <;> first | rfl | cases h

theorem restore_text (h : schema.isText = true) (w : Value) : schema.restore w = w := by
  cases schema <;> first | rfl | cases h

theorem isText_spread (schema : Schema) : schema.spread.isText = schema.isText := by
  cases schema <;> rfl

theorem isFlattened_spread (schema : Schema) : schema.spread.isFlattened = schema.isFlattened := by
  cases schema <;> rfl

theorem isAbsent_reduce (schema : Schema) (v : Value) :
    (schema.reduce v).isAbsent = v.isAbsent := by
  cases schema <;> cases v <;> rfl

theorem spelling_reduce (schema : Schema) (v : Value) :
    (schema.reduce v).spelling = v.spelling := by
  cases schema <;> cases v <;> rfl

theorem reduce_absent (schema : Schema) : schema.reduce .absent = .absent := by
  cases schema <;> rfl

theorem restore_absent (schema : Schema) : schema.restore .absent = .absent := by
  cases schema <;> rfl

theorem isFlattened_of_isText (h : schema.isText = true) : schema.isFlattened = false := by
  cases schema <;> first | rfl | cases h

theorem exists_spread_of_isFlattened (h : schema.isFlattened = true) :
    ∃ opt, schema.spread = .list opt schema.spread.item entryInfo true := by
  cases schema with
  | list opt item info flattened =>
    obtain rfl : flattened = true := h
    exact ⟨opt, rfl⟩
  | map opt value keyInfo valueInfo flattened =>
    obtain rfl : flattened = true := h
    exact ⟨opt, rfl⟩
  | _ => cases h

theorem map_spreadAll {α : Type} (f : Member → α) (members : List (Member × Schema)) :
    (spreadAll members).map (fun m => f m.1) = members.map fun m => f m.1 := by
  induction members with
  | nil => rfl
  | cons m rest ih => rw [spreadAll, List.map_cons, List.map_cons, ih]

end Shape

section Legal

variable {schema value : Schema} {v : Value} {opt flattened : Bool}
  {info keyInfo valueInfo : NodeInfo}

theorem Fits.list_cases {item : Schema} (h : Fits (.list opt item info flattened) v) :
    v = .absent ∨ ∃ vs, v = .list vs ∧ ∀ w ∈ vs, w.isAbsent = false ∧ item.Fits w := by
  cases hv : v.isAbsent with
  | true => exact .inl (v.eq_absent hv)
  | false => exact .inr (h.exists_list hv)

theorem Fits.map_cases (h : Fits (.map opt value keyInfo valueInfo flattened) v) :
    v = .absent ∨ ∃ es, v = .map es ∧ (es.map Prod.fst).Pairwise (· < ·) ∧
      ∀ e ∈ es, e.2.isAbsent = false ∧ value.Fits e.2 := by
  cases hv : v.isAbsent with
  | true => exact .inl (v.eq_absent hv)
  | false => exact .inr (h.exists_map hv)

theorem Fits.record_cases {members : List (Member × Schema)} (h : Fits (.record opt members) v) :
    v = .absent ∨ ∃ fields, v = .record fields ∧ FitAll members fields := by
  cases hv : v.isAbsent with
  | true => exact .inl (v.eq_absent hv)
  | false => exact .inr (h.exists_record hv)

/-- The schema spreads to a legal one, and its values reduce to values of that. -/
structure SpreadsLegally (schema : Schema) : Prop where
  legal : schema.spread.IsLegal
  fits : ∀ v, schema.Fits v → schema.spread.Fits (schema.reduce v)

theorem SpreadsLegally.items (h : schema.SpreadsLegally) (hflat : schema.isFlattened = true)
    (hfit : schema.Fits v) (hv : v.isAbsent = false) :
    ∃ ws, schema.reduce v = .list ws ∧
      ∀ w ∈ ws, w.isAbsent = false ∧ schema.spread.item.Fits w := by
  obtain ⟨opt, hspread⟩ := exists_spread_of_isFlattened hflat
  have hfits := h.fits v hfit
  rw [hspread] at hfits
  exact hfits.exists_list ((isAbsent_reduce schema v).trans hv)

theorem SpreadsLegally.item (h : schema.SpreadsLegally) (hflat : schema.isFlattened = true) :
    schema.spread.item.isFlattened = false ∧ schema.spread.item.IsLegal := by
  obtain ⟨opt, hspread⟩ := exists_spread_of_isFlattened hflat
  have hlegal := h.legal
  rw [hspread] at hlegal
  exact hlegal.2.2

theorem isProper_own (h : flattened = false → info.IsProper ∧ info.location = .element) :
    (if flattened then entryInfo else info).IsProper ∧
      (if flattened then entryInfo else info).location = .element := by
  cases flattened with
  | true => exact ⟨isProper_entryInfo, rfl⟩
  | false => exact h rfl

theorem spreadsLegally_list {item : Schema} (opt : Bool)
    (hinfo : flattened = false → info.IsProper ∧ info.location = .element)
    (hitem : item.SpreadsLegally) : SpreadsLegally (.list opt item info flattened) := by
  have hown := isProper_own hinfo
  by_cases hflat : item.isFlattened = true
  · refine ⟨?_, fun v hfit => ?_⟩
    · rw [spread, if_pos hflat]
      exact ⟨hown.1, hown.2, hitem.item hflat⟩
    · obtain rfl | ⟨vs, rfl, hvs⟩ := hfit.list_cases
      · exact hfit
      · rw [spread, reduce, if_pos hflat, if_pos hflat]
        intro w hw
        obtain ⟨v, hv, hmem⟩ := List.mem_flatMap.1 hw
        obtain ⟨ws, hws, hall⟩ := hitem.items hflat (hvs v hv).2 (hvs v hv).1
        rw [hws] at hmem
        exact hall w hmem
  · have hplain : item.spread.isFlattened = false :=
      (isFlattened_spread item).trans (Bool.eq_false_of_not_eq_true hflat)
    refine ⟨?_, fun v hfit => ?_⟩
    · rw [spread, if_neg hflat]
      exact ⟨hown.1, hown.2, hplain, hitem.legal⟩
    · obtain rfl | ⟨vs, rfl, hvs⟩ := hfit.list_cases
      · exact hfit
      · rw [spread, reduce, if_neg hflat, if_neg hflat]
        intro w hw
        obtain ⟨v, hv, rfl⟩ := List.mem_map.1 hw
        exact ⟨(isAbsent_reduce item v).trans (hvs v hv).1, hitem.fits v (hvs v hv).2⟩

theorem legal_pair (hkey : keyInfo.IsProper) (hvalueInfo : valueInfo.IsProper)
    (hne : keyInfo.name ≠ valueInfo.name)
    (htext : valueInfo.location = .attribute → value.isText = true) (hvalue : value.IsLegal) :
    (pair keyInfo valueInfo value).IsLegal := by
  have hplaces : [keyInfo.place, valueInfo.place].Nodup := by
    simpa using fun h : keyInfo.place = valueInfo.place => hne (congrArg Prod.snd h)
  have hkeys : ["key", "value"].Nodup := by decide
  exact ⟨hkeys, hplaces, hkey, fun _ => rfl, trivial, hvalueInfo, htext, hvalue, trivial⟩

theorem spreadsLegally_map (opt flattened : Bool) (hkey : keyInfo.IsProper)
    (hvalueInfo : valueInfo.IsProper) (hne : keyInfo.name ≠ valueInfo.name)
    (htext : valueInfo.location = .attribute → value.isText = true)
    (hvalue : value.SpreadsLegally) :
    SpreadsLegally (.map opt value keyInfo valueInfo flattened) := by
  have hspreadText : valueInfo.location = .attribute → value.spread.isText = true := fun h =>
    (isText_spread value).trans (htext h)
  refine ⟨?_, fun v hfit => ?_⟩
  · exact ⟨isProper_entryInfo, rfl, rfl, legal_pair hkey hvalueInfo hne hspreadText hvalue.legal⟩
  · obtain rfl | ⟨es, rfl, _, hes⟩ := hfit.map_cases
    · exact hfit
    · intro w hw
      obtain ⟨e, he, rfl⟩ := List.mem_map.1 hw
      exact ⟨rfl, rfl, trivial, rfl, hvalue.fits e.2 (hes e he).2, trivial⟩

theorem areLegal_spreadAll : ∀ members : List (Member × Schema),
    (∀ m ∈ members, m.1.info.IsProper ∧ (m.1.info.location = .attribute → m.2.isText = true) ∧
      m.2.SpreadsLegally) → AreLegal (spreadAll members)
  | [], _ => trivial
  | (m, schema) :: rest, h => by
    rw [List.forall_mem_cons] at h
    obtain ⟨⟨hinfo, htext, hschema⟩, hrest⟩ := h
    exact ⟨hinfo, fun hl => (isText_spread schema).trans (htext hl), hschema.legal,
      areLegal_spreadAll rest hrest⟩

theorem fitAll_spreadAll : ∀ (members : List (Member × Schema)) (fields : List (String × Value)),
    (∀ m ∈ members, m.2.SpreadsLegally) → FitAll members fields →
      FitAll (spreadAll members) (reduceAll members fields)
  | [], [], _, _ => trivial
  | (m, schema) :: rest, (key, v) :: fields, h, hfit => by
    rw [List.forall_mem_cons] at h
    exact ⟨hfit.1, h.1.fits v hfit.2.1, fitAll_spreadAll rest fields h.2 hfit.2.2⟩

theorem spreadsLegally_record {members : List (Member × Schema)} (opt : Bool)
    (hkeys : (members.map (·.1.key)).Nodup) (hplaces : (members.map (·.1.info.place)).Nodup)
    (hmembers : ∀ m ∈ members, m.1.info.IsProper ∧
      (m.1.info.location = .attribute → m.2.isText = true) ∧ m.2.SpreadsLegally) :
    SpreadsLegally (.record opt members) := by
  refine ⟨⟨?_, ?_, areLegal_spreadAll members hmembers⟩, fun v hfit => ?_⟩
  · rwa [map_spreadAll Member.key]
  · rwa [map_spreadAll fun m => m.info.place]
  · obtain rfl | ⟨fields, rfl, hfields⟩ := hfit.record_cases
    · exact hfit
    · exact fitAll_spreadAll members fields (fun m hm => (hmembers m hm).2.2) hfields

theorem pervasive_spreadsLegally : Pervasive SpreadsLegally where
  text := by
    intro schema htext
    refine ⟨?_, fun v hfit => ?_⟩
    · rw [spread_text htext]
      cases schema <;> trivial
    · rwa [spread_text htext, reduce_text htext]
  list := fun opt _ _ _ hinfo _ hitem => spreadsLegally_list opt hinfo hitem
  map := fun opt _ _ _ flattened hkey hvalueInfo hne htext hvalue =>
    spreadsLegally_map opt flattened hkey hvalueInfo hne htext hvalue
  record := fun opt _ hkeys hplaces hmembers => spreadsLegally_record opt hkeys hplaces hmembers

end Legal

section Writing

variable {schema value : Schema} {v : Value} {flattened : Bool} {i : NodeId}
  {scope : List Namespace} {cur : Cursor} {info keyInfo valueInfo : NodeInfo}

/-- The schema writes its values as the spread schema lays out what they are reduced to. -/
structure WritesSpread (schema : Schema) : Prop where
  inside : ∀ v, schema.Fits v → v.isAbsent = false → schema.isFlattened = false →
    ∀ (cur : Cursor) (i : NodeId) (own : NodeInfo) (scope : List Namespace), cur.node = some i →
      Fills (schema.write v cur) i scope (schema.spread.inside own scope (schema.reduce v))
  items : ∀ v, schema.Fits v → v.isAbsent = false → schema.isFlattened = true →
    ∀ (cur : Cursor) (i : NodeId) (info : NodeInfo) (scope : List Namespace), cur.node = some i →
      info.location = .element → Writes (cur.extend info >>= schema.write v) i scope
        (schema.spread.inside info scope (schema.reduce v))

theorem WritesSpread.placed (h : schema.WritesSpread) (hinfo : info.IsProper)
    (htext : info.location = .attribute → schema.isText = true) (hfit : schema.Fits v)
    (hcur : cur.node = some i) :
    Writes (cur.extend info >>= schema.write v) i scope
      (schema.spread.placed info scope (schema.reduce v) fun scope =>
        schema.spread.inside info scope (schema.reduce v)) :=
  writes_placed (isFlattened_spread schema) (isAbsent_reduce schema v) (spelling_reduce schema v)
    hinfo htext hfit hcur
    (fun hv hflat cur i scope hcur => h.inside v hfit hv hflat cur i info scope hcur)
    fun hv hflat hl => h.items v hfit hv hflat cur i info scope hcur hl

theorem inside_spread_of_isFlattened (h : schema.isFlattened = true) (own : NodeInfo)
    (scope : List Namespace) (w : Value) : schema.spread.inside own scope w =
      w.items.map fun w => .inr (enclosed own scope fun scope =>
        schema.spread.item.inside own scope w) := by
  obtain ⟨opt, hspread⟩ := exists_spread_of_isFlattened h
  rw [hspread, Schema.inside]
  rfl

theorem writes_spreadItems {item : Schema} {vs : List Value} (hitem : item.WritesSpread)
    (hfit : ∀ v ∈ vs, v.isAbsent = false ∧ item.Fits v) (hl : info.location = .element) :
    Writes (writeEach i info (fun v c => item.write v c) vs) i scope
      ((if item.isFlattened then vs.flatMap fun v => (item.reduce v).items
        else vs.map fun v => item.reduce v).map fun w => .inr (enclosed info scope fun scope =>
          (if item.isFlattened then item.spread.item else item.spread).inside info scope w)) := by
  by_cases hflat : item.isFlattened = true
  · rw [if_pos hflat, if_pos hflat, List.map_flatMap]
    refine writes_each vs fun v hv cur hcur => ?_
    rw [← inside_spread_of_isFlattened hflat]
    exact hitem.items v (hfit v hv).2 (hfit v hv).1 hflat cur i info scope hcur hl
  · have hplain := Bool.eq_false_of_not_eq_true hflat
    rw [if_neg hflat, if_neg hflat, List.map_map, List.map_eq_flatMap]
    refine writes_each vs fun v hv cur hcur => ?_
    exact writes_element hcur hl fun c =>
      hitem.inside v (hfit v hv).2 (hfit v hv).1 hplain _ c info _ rfl

theorem writesSpread_text (htext : schema.isText = true) : schema.WritesSpread := by
  refine ⟨fun v hfit hv _ cur i own scope hcur => ?_, fun _ _ _ hflat => ?_⟩
  · rw [write_text htext hfit hv, spread_text htext, reduce_text htext, inside_text htext]
    exact fills_text (spells_writeText v.spelling) hcur
  · rw [not_isText hflat] at htext
    cases htext

theorem writesSpread_list {item : Schema} (opt : Bool)
    (hinfo : flattened = false → info.IsProper ∧ info.location = .element)
    (hitem : item.WritesSpread) : WritesSpread (.list opt item info flattened) := by
  refine ⟨fun v hfit hv hown cur i own scope hcur => ?_,
    fun v hfit hv hown cur i own scope hcur hl => ?_⟩
  · obtain rfl : flattened = false := hown
    obtain ⟨vs, rfl, hvs⟩ := hfit.exists_list hv
    exact (writes_collect hcur (writes_spreadItems hitem hvs (hinfo rfl).2)).fills
  · obtain rfl : flattened = true := hown
    obtain ⟨vs, rfl, hvs⟩ := hfit.exists_list hv
    exact writes_flattened hcur (writes_spreadItems hitem hvs hl)

theorem inside_pair (keyInfo valueInfo own : NodeInfo) (scope : List Namespace) (key : String)
    (w : Value) : (pair keyInfo valueInfo value).inside own scope (pairValue key w) =
      (shownAs keyInfo scope (.scalar (.string key)) fun _ => keyShown key) ::
        value.placed valueInfo scope w fun scope => value.inside valueInfo scope w :=
  congrArg (_ :: ·) (List.append_nil _)

theorem writesSpread_map (opt flattened : Bool) (hkey : keyInfo.IsProper)
    (hvalueInfo : valueInfo.IsProper)
    (htext : valueInfo.location = .attribute → value.isText = true)
    (hvalue : value.WritesSpread) : WritesSpread (.map opt value keyInfo valueInfo flattened) := by
  have hentries : ∀ es : List (String × Value), (∀ e ∈ es, e.2.isAbsent = false ∧ value.Fits e.2) →
      ∀ (i : NodeId) (info : NodeInfo) (scope : List Namespace), info.location = .element →
        Writes (writeEntries i info keyInfo valueInfo (fun v c => value.write v c) es) i scope
          ((es.map fun e => pairValue e.1 (value.reduce e.2)).map fun w =>
            .inr (enclosed info scope fun scope =>
              (pair keyInfo valueInfo value.spread).inside info scope w)) := by
    intro es hes i info scope hl
    simp only [List.map_map, Function.comp_def, inside_pair]
    refine writes_entries (fun v scope => value.spread.placed valueInfo scope (value.reduce v)
      fun scope => value.spread.inside valueInfo scope (value.reduce v)) es hl hkey
      fun e he cur c scope hcur => ?_
    exact hvalue.placed hvalueInfo htext (hes e he).2 hcur
  refine ⟨fun v hfit hv hown cur i own scope hcur => ?_,
    fun v hfit hv hown cur i info scope hcur hl => ?_⟩
  · obtain rfl : flattened = false := hown
    obtain ⟨es, rfl, _, hes⟩ := hfit.exists_map hv
    exact (writes_collect hcur (hentries es hes i entryInfo scope rfl)).fills
  · obtain rfl : flattened = true := hown
    obtain ⟨es, rfl, _, hes⟩ := hfit.exists_map hv
    exact writes_flattened hcur (hentries es hes i info scope hl)

theorem membersShown_spreadAll (scope : List Namespace) : ∀ (members : List (Member × Schema))
    (fields : List (String × Value)),
      membersShown (spreadAll members) scope (reduceAll members fields) =
        (List.zipWith (fun m f => m.2.spread.placed m.1.info scope (m.2.reduce f.2) fun scope =>
          m.2.spread.inside m.1.info scope (m.2.reduce f.2)) members fields).flatten
  | [], _ => rfl
  | _ :: _, [] => rfl
  | _ :: rest, _ :: fields => congrArg (_ ++ ·) (membersShown_spreadAll scope rest fields)

theorem writesSpread_record {members : List (Member × Schema)} (opt : Bool)
    (hkeys : (members.map (·.1.key)).Nodup)
    (hmembers : ∀ m ∈ members, m.1.info.IsProper ∧
      (m.1.info.location = .attribute → m.2.isText = true) ∧ m.2.WritesSpread) :
    WritesSpread (.record opt members) := by
  refine ⟨fun v hfit hv _ cur i own scope hcur => ?_,
    fun _ _ _ hown => (Bool.false_ne_true hown).elim⟩
  obtain ⟨fields, rfl, hfields⟩ := hfit.exists_record hv
  rw [show (Schema.record opt members).spread.inside own scope
      (reduce (.record opt members) (.record fields)) =
    membersShown (spreadAll members) scope (reduceAll members fields) from rfl,
    membersShown_spreadAll]
  refine fills_record opt hkeys hfields hcur fun m hm f hfit => ?_
  obtain ⟨hinfo, htext, hwrites⟩ := hmembers m hm
  exact hwrites.placed hinfo htext hfit hcur

theorem pervasive_writesSpread : Pervasive WritesSpread where
  text := fun _ htext => writesSpread_text htext
  list := fun opt _ _ _ hinfo _ hitem => writesSpread_list opt hinfo hitem
  map := fun opt _ _ _ flattened hkey hvalueInfo _ htext hvalue =>
    writesSpread_map opt flattened hkey hvalueInfo htext hvalue
  record := fun opt _ hkeys _ hmembers => writesSpread_record opt hkeys hmembers

end Writing

end ServiceClient.Xml.Schema
