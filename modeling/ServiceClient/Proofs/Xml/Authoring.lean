import ServiceClient.Proofs.Xml.Declared
import ServiceClient.Proofs.Xml.Write

/-! Writers at work. A writer makes children and places for items and is not used again until what
it has made is left; so the open ones are a stack, and whatever is called, in whatever order, is
called on the innermost one. What a single call keeps is kept by all that can be written. -/

namespace ServiceClient.Xml

open Document (Continues DeclaresOnce)

/-- A writer on a node, or the items of a collection that go below a node under one name. -/
inductive Desk where
  | writer (cur : Cursor)
  | items (place : NodeId) (info : NodeInfo)

abbrev Office := List Desk × Document

/-- One call. Every desk can be left at any time, be it for a failure. -/
inductive Call : Office → Office → Prop
  | start (d : Document) : Call ([], d) ([.writer (.atRoot d)], d)
  | child {cur sub : Cursor} {info : NodeInfo} {d d' : Document} {desks : List Desk}
      (h : cur.extend info d = (.ok sub, d')) :
      Call (.writer cur :: desks, d) (.writer sub :: .writer cur :: desks, d')
  | setText {cur : Cursor} {s : String} {d d' : Document} {desks : List Desk}
      (h : cur.setText s d = (.ok (), d')) :
      Call (.writer cur :: desks, d) (.writer cur :: desks, d')
  | detach {cur cur' : Cursor} {d d' : Document} {desks : List Desk}
      (h : cur.detach d = (.ok cur', d')) :
      Call (.writer cur :: desks, d) (.writer cur' :: desks, d')
  | collect {cur cur' : Cursor} {flattened : Bool} {item info : NodeInfo} {place : NodeId}
      {d d' : Document} {desks : List Desk}
      (h : cur.openItems flattened item d = (.ok (cur', some (place, info)), d')) :
      Call (.writer cur :: desks, d) (.items place info :: .writer cur' :: desks, d')
  | item {place : NodeId} {info : NodeInfo} {cur : Cursor} {d d' : Document} {desks : List Desk}
      (h : appendItem place info d = (.ok cur, d')) :
      Call (.items place info :: desks, d) (.writer cur :: .items place info :: desks, d')
  | leave {desk : Desk} {d : Document} {desks : List Desk} : Call (desk :: desks, d) (desks, d)

abbrev Calls : Office → Office → Prop := Relation.ReflTransGen Call

section Keeping

variable {d d' : Document} {cur cur' sub : Cursor} {info item : NodeInfo} {place : NodeId}
  {s s' : Office}

def Desk.IsIn (d : Document) : Desk → Prop
  | .writer cur => (∀ i ∈ cur.node, i < d.next) ∧ ∀ p ∈ cur.parent, p < d.next
  | .items place _ => place < d.next

theorem Desk.IsIn.mono {desk : Desk} (h : desk.IsIn d) (hle : d.next ≤ d'.next) : desk.IsIn d' := by
  cases desk with
  | writer cur =>
    exact ⟨fun i hi => Nat.lt_of_lt_of_le (h.1 i hi) hle,
      fun p hp => Nat.lt_of_lt_of_le (h.2 p hp) hle⟩
  | items place info => exact Nat.lt_of_lt_of_le h hle

theorem forall_isIn_mono {desks : List Desk} (h : ∀ desk ∈ desks, desk.IsIn d)
    (hle : d.next ≤ d'.next) : ∀ desk ∈ desks, desk.IsIn d' :=
  fun desk hdesk => (h desk hdesk).mono hle

variable (h : d.Whole)

include h

theorem continues_extend (hcur : (Desk.writer cur).IsIn d)
    (hextend : cur.extend info d = (.ok sub, d')) :
    Continues d d' ∧ (Desk.writer sub).IsIn d' := by
  obtain ⟨parent, node, own⟩ := cur
  cases node with
  | none =>
    cases hextend
    exact ⟨h.continues_refl, fun i => (Option.not_mem_none i).elim,
      fun p => (Option.not_mem_none p).elim⟩
  | some i =>
    cases hextend
    have hadded := h.continues_addChild (hcur.1 i rfl) info
    refine ⟨hadded, fun j hj => ?_, fun j hj => ?_⟩
    · obtain rfl := Option.some.inj hj
      exact Nat.lt_of_lt_of_eq (Nat.lt_succ_self _) (Document.next_addChild d i info).symm
    · exact Nat.lt_of_lt_of_le (hcur.1 j hj) hadded.next_le

theorem continues_setText (hcur : (Desk.writer cur).IsIn d) {s : String}
    (hset : cur.setText s d = (.ok (), d')) : Continues d d' := by
  obtain ⟨parent, node, own⟩ := cur
  cases node with
  | none =>
    cases hset
    exact h.continues_refl
  | some i =>
    cases hset
    exact h.continues_setText (hcur.1 i rfl) s

theorem continues_detach (hcur : (Desk.writer cur).IsIn d)
    (hdetach : cur.detach d = (.ok cur', d')) :
    Continues d d' ∧ (Desk.writer cur').IsIn d' := by
  obtain ⟨parent, node, own⟩ := cur
  cases node with
  | none =>
    cases hdetach
    exact ⟨h.continues_refl, hcur⟩
  | some i =>
    cases hdetach
    have hdetached := h.continues_detach i
    exact ⟨hdetached, fun j => (Option.not_mem_none j).elim,
      fun p hp => Nat.lt_of_lt_of_le (hcur.2 p hp) hdetached.next_le⟩

/-- The items of a collection go below the writer's node, or beside it and then that node goes. -/
theorem continues_openItems (hcur : (Desk.writer cur).IsIn d) {flattened : Bool}
    (hopen : cur.openItems flattened item d = (.ok (cur', some (place, info)), d')) :
    Continues d d' ∧ (Desk.writer cur').IsIn d' ∧ place < d'.next := by
  obtain ⟨parent, node, own⟩ := cur
  cases node with
  | none => cases hopen
  | some i =>
    cases flattened with
    | false =>
      cases hopen
      exact ⟨h.continues_refl, hcur, hcur.1 _ rfl⟩
    | true =>
      cases parent with
      | none => cases hopen
      | some p =>
        cases hopen
        obtain ⟨hdetached, hcur'⟩ := continues_detach h hcur rfl
        exact ⟨hdetached, hcur', Nat.lt_of_lt_of_le (hcur.2 _ rfl) hdetached.next_le⟩

omit h

theorem Call.continues (hcall : Call s s') (h : s.2.Whole) (hin : ∀ desk ∈ s.1, desk.IsIn s.2) :
    Continues s.2 s'.2 ∧ ∀ desk ∈ s'.1, desk.IsIn s'.2 := by
  cases hcall with
  | start d =>
    refine ⟨h.continues_refl, List.forall_mem_singleton.2 ⟨fun i hi => ?_, nofun⟩⟩
    obtain rfl := Option.some.inj hi
    exact h.root_lt
  | child hextend =>
    obtain ⟨hcur, hdesks⟩ := List.forall_mem_cons.1 hin
    obtain ⟨hcontinues, hsub⟩ := continues_extend h hcur hextend
    exact ⟨hcontinues, List.forall_mem_cons.2 ⟨hsub, forall_isIn_mono hin hcontinues.next_le⟩⟩
  | setText hset =>
    have hcontinues := continues_setText h (List.forall_mem_cons.1 hin).1 hset
    exact ⟨hcontinues, forall_isIn_mono hin hcontinues.next_le⟩
  | detach hdetach =>
    obtain ⟨hcur, hdesks⟩ := List.forall_mem_cons.1 hin
    obtain ⟨hcontinues, hcur'⟩ := continues_detach h hcur hdetach
    exact ⟨hcontinues, List.forall_mem_cons.2 ⟨hcur', forall_isIn_mono hdesks hcontinues.next_le⟩⟩
  | collect hopen =>
    obtain ⟨hcur, hdesks⟩ := List.forall_mem_cons.1 hin
    obtain ⟨hcontinues, hcur', hplace⟩ := continues_openItems h hcur hopen
    exact ⟨hcontinues, List.forall_mem_cons.2 ⟨hplace, List.forall_mem_cons.2
      ⟨hcur', forall_isIn_mono hdesks hcontinues.next_le⟩⟩⟩
  | @item place info cur d d' desks hitem =>
    obtain ⟨hplace, hdesks⟩ := List.forall_mem_cons.1 hin
    have hcur : (Desk.writer ⟨none, some place, info⟩).IsIn d :=
      ⟨fun i hi => Option.some.inj hi ▸ hplace, nofun⟩
    rw [appendItem_eq] at hitem
    obtain ⟨hcontinues, hcur'⟩ := continues_extend h hcur hitem
    exact ⟨hcontinues, List.forall_mem_cons.2 ⟨hcur', forall_isIn_mono hin hcontinues.next_le⟩⟩
  | leave => exact ⟨h.continues_refl, (List.forall_mem_cons.1 hin).2⟩

theorem Calls.continues (hcalls : Calls s s') (h : s.2.Whole)
    (hin : ∀ desk ∈ s.1, desk.IsIn s.2) : Continues s.2 s'.2 ∧ ∀ desk ∈ s'.1, desk.IsIn s'.2 := by
  induction hcalls with
  | refl => exact ⟨h.continues_refl, hin⟩
  | tail _ hcall ih =>
    obtain ⟨hbefore, hin'⟩ := ih
    obtain ⟨hcontinues, hin''⟩ := hcall.continues hbefore.whole hin'
    exact ⟨hbefore.trans hcontinues, hin''⟩

end Keeping

section Performing

/-- Where these desks are open, the action comes of calls and ends with the desks of its result, or
somewhere else if it fails. -/
structure Performs {α : Type} (desks : List Desk) (x : Editing α) (desks' : α → List Desk) :
    Prop where
  ok : ∀ {d d' : Document} {a : α}, x d = (.ok a, d') → Calls (desks, d) (desks' a, d')
  error : ∀ {d d' : Document} {e : XmlError}, x d = (.error e, d') →
    ∃ left, Calls (desks, d) (left, d')

variable {α β : Type} {desks : List Desk} {after : α → List Desk} {last : β → List Desk}
  {x : Editing α} {f : α → Editing β} {cur : Cursor} {info : NodeInfo} {place : NodeId}

theorem performs_pure (a : α) (h : desks = after a) :
    Performs desks (pure a : Editing α) after where
  ok hrun := by
    cases hrun
    rw [h]
  error hrun := by cases hrun

theorem performs_fail (e : XmlError) : Performs desks (fail e : Editing α) after where
  ok hrun := by cases hrun
  error hrun := by
    cases hrun
    exact ⟨desks, .refl⟩

theorem Performs.bind (hx : Performs desks x after) (hf : ∀ a, Performs (after a) (f a) last) :
    Performs desks (x >>= f) last where
  ok {d d'' b} hrun := by
    cases hfirst : x d with
    | mk r d' =>
      cases r with
      | error e =>
        rw [bind_of_error hfirst] at hrun
        cases hrun
      | ok a =>
        rw [bind_of_ok hfirst] at hrun
        exact (hx.ok hfirst).trans ((hf a).ok hrun)
  error {d d'' e} hrun := by
    cases hfirst : x d with
    | mk r d' =>
      cases r with
      | error e =>
        rw [bind_of_error hfirst] at hrun
        cases hrun
        exact hx.error hfirst
      | ok a =>
        rw [bind_of_ok hfirst] at hrun
        obtain ⟨left, hcalls⟩ := (hf a).error hrun
        exact ⟨left, (hx.ok hfirst).trans hcalls⟩

theorem performs_call (h : ∀ d, ∃ a d', x d = (.ok a, d') ∧ Calls (desks, d) (after a, d')) :
    Performs desks x after where
  ok {d _ _} hrun := by
    obtain ⟨a, d', hok, hcalls⟩ := h d
    rw [hok] at hrun
    cases hrun
    exact hcalls
  error {d _ _} hrun := by
    obtain ⟨a, d', hok, _⟩ := h d
    rw [hok] at hrun
    cases hrun

theorem performs_extend (cur : Cursor) (info : NodeInfo) (desks : List Desk) :
    Performs (.writer cur :: desks) (cur.extend info)
      fun sub => .writer sub :: .writer cur :: desks :=
  performs_call fun d => by
    obtain ⟨parent, node, own⟩ := cur
    cases node with
    | none => exact ⟨_, d, rfl, .single (.child rfl)⟩
    | some i => exact ⟨_, _, rfl, .single (.child rfl)⟩

theorem performs_detach (cur : Cursor) (desks : List Desk) :
    Performs (.writer cur :: desks) cur.detach fun cur' => .writer cur' :: desks :=
  performs_call fun d => by
    obtain ⟨parent, node, own⟩ := cur
    cases node with
    | none => exact ⟨_, d, rfl, .single (.detach rfl)⟩
    | some i => exact ⟨_, _, rfl, .single (.detach rfl)⟩

theorem performs_setText (cur : Cursor) (s : String) (desks : List Desk) :
    Performs (.writer cur :: desks) (cur.setText s) fun _ => .writer cur :: desks :=
  performs_call fun d => by
    obtain ⟨parent, node, own⟩ := cur
    cases node with
    | none => exact ⟨_, d, rfl, .single (@Call.setText _ s _ _ _ rfl)⟩
    | some i => exact ⟨_, _, rfl, .single (@Call.setText _ s _ _ _ rfl)⟩

theorem performs_appendItem (place : NodeId) (info : NodeInfo) (desks : List Desk) :
    Performs (.items place info :: desks) (appendItem place info)
      fun cur => .writer cur :: .items place info :: desks :=
  performs_call fun _ => ⟨_, _, rfl, .single (.item rfl)⟩

theorem Performs.leave {desk : α → Desk} (h : Performs desks x fun a => desk a :: after a) :
    Performs desks x after where
  ok hrun := (h.ok hrun).tail .leave
  error hrun := h.error hrun

theorem Performs.discard {left : List Desk} (h : Performs desks x fun _ => left) :
    Performs desks (discard x) fun _ => left :=
  h.bind fun _ => performs_pure PUnit.unit rfl

theorem performs_liftWire (r : Except WireError α) :
    Performs desks (liftWire r) fun _ => desks := by
  cases r with
  | error e => exact performs_fail (.value e)
  | ok a => exact performs_pure a rfl

/-- The action is calls of the writer that it is given. -/
def Serves (write : Cursor → Editing Cursor) : Prop :=
  ∀ (cur : Cursor) (desks : List Desk),
    Performs (.writer cur :: desks) (write cur) fun cur' => .writer cur' :: desks

theorem serves_writeText (s : String) : Serves fun cur => writeText cur s := fun cur desks =>
  (performs_setText cur s desks).bind fun _ => performs_pure cur rfl

theorem serves_writeScalar (t : ScalarType) (v : Value) : Serves (writeScalar t v) := by
  intro cur desks
  cases v with
  | scalar x => exact serves_writeText x.text cur desks
  | literal s =>
    exact (performs_liftWire (t.read s)).bind fun x => serves_writeText x.text cur desks
  | _ => exact performs_detach cur desks

theorem serves_writeTimestamp (f : Time.TimestampFormat) (v : Value) :
    Serves (writeTimestamp f v) := by
  intro cur desks
  cases v with
  | instant t => exact serves_writeText (f.format t) cur desks
  | _ => exact performs_detach cur desks

theorem serves_writeBlob (v : Value) : Serves (writeBlob v) := by
  intro cur desks
  cases v with
  | octets s => exact serves_writeText (Text.Base64.encode s) cur desks
  | _ => exact performs_detach cur desks

section Collections

variable {write : Value → Cursor → Editing Cursor} {keyInfo valueInfo : NodeInfo}

theorem performs_openItems (cur : Cursor) (flattened : Bool) (item : NodeInfo)
    (desks : List Desk) : Performs (.writer cur :: desks) (cur.openItems flattened item) fun r =>
      (r.2.map fun (place, info) => Desk.items place info).toList ++ .writer r.1 :: desks :=
  performs_call fun d => by
    obtain ⟨parent, node, own⟩ := cur
    cases node with
    | none => exact ⟨_, d, rfl, .refl⟩
    | some i =>
      cases flattened with
      | false => exact ⟨_, d, rfl, .single (@Call.collect _ _ false item _ _ _ _ _ rfl)⟩
      | true =>
        cases parent with
        | none => exact ⟨_, d, rfl, .refl⟩
        | some p => exact ⟨_, _, rfl, .single (@Call.collect _ _ true item _ _ _ _ _ rfl)⟩

theorem serves_collect {g : NodeId → NodeInfo → Editing Unit} (flattened : Bool) (item : NodeInfo)
    (hg : ∀ place info desks,
      Performs (.items place info :: desks) (g place info) fun _ => .items place info :: desks) :
    Serves fun cur => collect cur flattened item g := by
  intro cur desks
  refine (performs_openItems cur flattened item desks).bind fun r => ?_
  obtain ⟨cur', place⟩ := r
  cases place with
  | none => exact performs_pure cur' rfl
  | some place => exact (hg place.1 place.2 _).leave.bind fun _ => performs_pure cur' rfl

theorem performs_writeEach (hwrite : ∀ v, Serves (write v)) (place : NodeId) (info : NodeInfo)
    (desks : List Desk) (vs : List Value) : Performs (.items place info :: desks)
      (writeEach place info write vs) fun _ => .items place info :: desks := by
  induction vs with
  | nil => exact performs_pure PUnit.unit rfl
  | cons v vs ih =>
    exact (performs_appendItem place info desks).bind fun cur =>
      (hwrite v cur _).leave.discard.bind fun _ => ih

theorem performs_writeEntries (hwrite : ∀ v, Serves (write v)) (place : NodeId) (info : NodeInfo)
    (desks : List Desk) (entries : List (String × Value)) :
    Performs (.items place info :: desks)
      (writeEntries place info keyInfo valueInfo write entries)
      fun _ => .items place info :: desks := by
  induction entries with
  | nil => exact performs_pure PUnit.unit rfl
  | cons e entries ih =>
    exact (performs_appendItem place info desks).bind fun entry =>
      (performs_extend entry keyInfo _).bind fun key =>
        (performs_setText key e.1 _).leave.bind fun _ =>
          (performs_extend entry valueInfo _).bind fun cur =>
            (hwrite e.2 cur _).leave.leave.discard.bind fun _ => ih

end Collections

mutual

theorem Schema.serves_write : ∀ (schema : Schema) (v : Value), Serves (schema.write v)
  | .scalar t, v => serves_writeScalar t v
  | .optional t, v => serves_writeScalar t v
  | .timestamp f, v => serves_writeTimestamp f v
  | .optionalTimestamp f, v => serves_writeTimestamp f v
  | .blob, v => serves_writeBlob v
  | .list _ item info flattened, v => by
    intro cur desks
    rw [Schema.write]
    split_ifs
    · exact performs_detach cur desks
    · exact serves_collect flattened info (fun place info desks =>
        performs_writeEach (Schema.serves_write item) place info desks v.items) cur desks
  | .map _ value keyInfo valueInfo flattened, v => by
    intro cur desks
    rw [Schema.write]
    split_ifs
    · exact performs_detach cur desks
    · exact serves_collect flattened entryInfo (fun place info desks =>
        performs_writeEntries (Schema.serves_write value) place info desks v.entries) cur desks
  | .record _ members, v => by
    intro cur desks
    rw [Schema.write]
    split_ifs
    · exact performs_detach cur desks
    · exact (performs_writeMembers members v cur desks).bind fun _ => performs_pure cur rfl
  | .taken inner, v => Schema.serves_write inner v
  | .inspection, _ => fun cur _ => performs_pure cur rfl

theorem performs_writeMembers : ∀ (members : List (Member × Schema)) (v : Value) (cur : Cursor)
    (desks : List Desk),
    Performs (.writer cur :: desks) (writeMembers members v cur) fun _ => .writer cur :: desks
  | [], _, _, _ => performs_pure PUnit.unit rfl
  | (m, schema) :: members, v, cur, desks =>
    (performs_extend cur m.info desks).bind fun sub =>
      (Schema.serves_write schema (v.member m.key) sub _).leave.discard.bind fun _ =>
        performs_writeMembers members v cur desks

end

end Performing

namespace Document

theorem declaresOnce_new (info : NodeInfo) : (new info).DeclaresOnce := by
  intro i a ns hpath
  obtain ⟨hi, ha⟩ := (whole_new info).lt_of_transGen hpath
  obtain rfl := Nat.lt_one_iff.1 hi
  obtain rfl := Nat.lt_one_iff.1 ha
  exact absurd hpath ((whole_new info).sound.acyclic 0)

theorem declaresOnce_of_calls {info : NodeInfo} {desks : List Desk} {d : Document}
    (h : Calls ([], new info) (desks, d)) : d.DeclaresOnce :=
  (h.continues (whole_new info) nofun).1.once (declaresOnce_new info)

theorem declaresOnce_write (info : NodeInfo) (schema : Schema) (v : Value) :
    (schema.write v (.atRoot (new info)) (new info)).2.DeclaresOnce := by
  have hstart : Calls ([], new info) ([.writer (.atRoot (new info))], new info) :=
    .single (.start (new info))
  have hserves := schema.serves_write v (.atRoot (new info)) []
  cases hrun : schema.write v (.atRoot (new info)) (new info) with
  | mk r d =>
    cases r with
    | ok cur => exact declaresOnce_of_calls (hstart.trans (hserves.ok hrun))
    | error e =>
      obtain ⟨left, hcalls⟩ := hserves.error hrun
      exact declaresOnce_of_calls (hstart.trans hcalls)

/-- In a document that is read, and in one that comes of calls of writers, no namespace is declared
below a node that declares it. A new child has its namespace just where no node above it declares
that one, and nothing but the moving of a node takes the namespace from it. -/
theorem declares_once :
    (∀ s d, parse s = .ok d → d.DeclaresOnce) ∧
      (∀ info desks d, Calls ([], new info) (desks, d) → d.DeclaresOnce) ∧
      (∀ info (schema : Schema) v,
        (schema.write v (.atRoot (new info)) (new info)).2.DeclaresOnce) ∧
      (∀ d : Document, d.Whole → ∀ p < d.next, ∀ info ns, info.ns = some ns →
        (((d.addChild p info).1.node (d.addChild p info).2).info.ns = some ns ↔
            ∀ a ∈ d.ancestors p, (d.node a).info.ns ≠ some ns) ∧
          ∀ cur : Cursor, cur.node = some p → ∃ sub c d', cur.extend info d = (.ok sub, d') ∧
            sub.node = some c ∧ ((d'.node c).info.ns = some ns ↔
              ∀ a ∈ d.ancestors p, (d.node a).info.ns ≠ some ns)) ∧
      (∀ d : Document, d.Whole → ∀ e : Edit, (∀ i ∈ e.nodes, i < d.next) → ∀ j < d.next,
        (∀ p, e ≠ .appendChild p j) → ((d.edit e).1.node j).info.ns = (d.node j).info.ns) ∧
      ∀ s s' : Office, Calls s s' → s.2.Whole → (∀ desk ∈ s.1, desk.IsIn s.2) → ∀ j < s.2.next,
        (s'.2.node j).info.ns = (s.2.node j).info.ns := by
  refine ⟨fun s d hparse => ?_, fun info desks d hcalls => declaresOnce_of_calls hcalls,
    declaresOnce_write,
    fun d h p hp info ns hns => ⟨h.ns_child_iff hp info hns, fun cur hcur => ?_⟩,
    fun d h e he j hj hmoved => h.ns_edit he hj hmoved,
    fun s s' hcalls h hin j hj => (hcalls.continues h hin).1.ns_eq j hj⟩
  · obtain ⟨e, hread, rfl⟩ := exists_ofElement_of_parse hparse
    exact declaresOnce_ofElement (Element.isRead_of_parse hread)
  · exact ⟨_, d.next, _, extend_apply hcur info d, rfl, h.ns_child_iff hp info hns⟩

def shop : NodeInfo := ⟨"Shop", .element, some ⟨"", "urn:shop"⟩⟩

def shelved : Document :=
  (((new shop).addChild 0 { shop with name := "Shelf" }).1.addChild 1
    ⟨"Label", .element, some ⟨"x", "urn:label"⟩⟩).1

theorem declares_once_shelved :
    (parse (Text.encode "<a xmlns='u'><b xmlns='u'/></a>") =
        .ok (ofElement ⟨⟨"a", none, some ⟨"", "u"⟩, []⟩, [.element ⟨"b", none, none, []⟩ []]⟩) ∧
      (ofElement ⟨⟨"a", none, some ⟨"", "u"⟩, []⟩,
        [.element ⟨"b", none, none, []⟩ []]⟩).DeclaresOnce) ∧
    (∃ desks, Calls ([], new shop) (desks, shelved) ∧ shelved.DeclaresOnce ∧
      (shelved.node 0).info.ns = ((new shop).node 0).info.ns) ∧
    ((new shop).Whole ∧ (((new shop).addChild 0 shop).1.node 1).info.ns ≠ shop.ns ∧
      ∃ sub c d', (Cursor.atRoot (new shop)).extend shop (new shop) = (.ok sub, d') ∧
        sub.node = some c ∧ (d'.node c).info.ns ≠ shop.ns) ∧
    shelved.Whole ∧ ((shelved.edit (.detach 1)).1.node 2).info.ns = (shelved.node 2).info.ns := by
  obtain ⟨hparse, hcalls, -, hchild, hedit, hkept⟩ := declares_once
  have hread : parse (Text.encode "<a xmlns='u'><b xmlns='u'/></a>") =
      .ok (ofElement ⟨⟨"a", none, some ⟨"", "u"⟩, []⟩,
        [.element ⟨"b", none, none, []⟩ []]⟩) := by cbv
  have hrun : Calls ([], new shop) (_, shelved) :=
    .tail (.tail (.single (.start (new shop))) (.child rfl)) (.child rfl)
  have hshop := whole_new shop
  have hshelved : shelved.Whole := ⟨by decide, by decide⟩
  have hinherited : ¬ ∀ a ∈ (new shop).ancestors 0, ((new shop).node a).info.ns ≠ shop.ns :=
    fun hnone => hnone 0 (by decide) rfl
  obtain ⟨hadded, hextended⟩ := hchild (new shop) hshop 0 (by decide) shop ⟨"", "urn:shop"⟩ rfl
  obtain ⟨sub, c, d', hrun', hsub, hns⟩ := hextended (.atRoot (new shop)) rfl
  exact ⟨⟨hread, hparse _ _ hread⟩,
    ⟨_, hrun, hcalls _ _ _ hrun, hkept _ _ hrun hshop (List.forall_mem_nil _) 0 (by decide)⟩,
    ⟨hshop, mt hadded.1 hinherited, sub, c, d', hrun', hsub, mt hns.1 hinherited⟩,
    hshelved, hedit shelved hshelved (.detach 1) (by decide) 2 (by decide)
      fun _ h => Edit.noConfusion h⟩

end Document

end ServiceClient.Xml
