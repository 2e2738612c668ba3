import ServiceClient.Proofs.Xml.Spread

/-! Reading by a spread schema. The readers of flattened collections among items all look at the
same siblings, and the reader of a map takes its entries apart as that of a list of pairs does. -/

namespace ServiceClient.Xml.Schema

section Reading

variable {schema value : Schema} {v : Value} {d : Document} {cur : Cursor} {opt flattened : Bool}
  {info keyInfo valueInfo : NodeInfo}

/-- Reading is reading by the spread schema and restoring what it gives. -/
def ReadsSpread (schema : Schema) : Prop :=
  ∀ cur, schema.read cur = schema.restore <$> schema.spread.read cur

theorem readEach_map {read other : Cursor → Editing Value} {f : Value → Value}
    (h : ∀ cur, read cur = f <$> other cur) (cursors : List Cursor) :
    readEach read cursors = List.map f <$> readEach other cursors := by
  induction cursors with
  | nil => rfl
  | cons cur cursors ih =>
    rw [readEach, readEach, h, ih]
    simp only [map_eq_pure_bind, bind_assoc, pure_bind, List.map_cons]

theorem exists_itemCursors (cur : Cursor) (flattened : Bool) (info : NodeInfo) (d : Document) :
    ∃ found, itemCursors cur flattened info d = (.ok found, d) ∧
      ∀ cursors, found = some cursors → ∀ c ∈ cursors, ∀ info,
        itemCursors c true info d = (.ok (some cursors), d) := by
  rw [itemCursors]
  cases cur.items? flattened info with
  | none => exact ⟨none, rfl, fun _ h => absurd h.symm (Option.some_ne_none _)⟩
  | some place =>
    obtain ⟨place, name⟩ := place
    dsimp only
    rw [bind_of_ok (get_apply d)]
    split_ifs with hnone
    · exact ⟨none, rfl, fun _ h => absurd h.symm (Option.some_ne_none _)⟩
    · refine ⟨_, rfl, fun cursors hcursors c hc info => ?_⟩
      obtain rfl := Option.some.inj hcursors
      obtain ⟨node, hnode, rfl⟩ := List.mem_map.1 hc
      have hsome : ¬ (true = true ∧ (d.childrenMatching place name).isEmpty = true) := fun h =>
        List.ne_nil_of_mem hnode (List.isEmpty_iff.1 h.2)
      rw [itemCursors]
      dsimp only [Cursor.items?]
      rw [if_pos rfl, Option.map_some]
      dsimp only
      rw [bind_of_ok (get_apply d), if_neg hsome]
      rfl

section Keeping

variable {α β : Type}

def Keeps (x : Editing α) : Prop := ∀ d, (x d).2 = d

theorem keeps_pure (a : α) : Keeps (pure a : Editing α) := fun _ => rfl

theorem Keeps.bind {x : Editing α} {f : α → Editing β} (hx : Keeps x) (hf : ∀ a, Keeps (f a)) :
    Keeps (x >>= f) := by
  intro d
  have hd := hx d
  rcases hrun : x d with ⟨_ | a, after⟩
  · rw [bind_of_error hrun]
    rwa [hrun] at hd
  · rw [bind_of_ok hrun, hf a after]
    rwa [hrun] at hd

theorem keeps_get : Keeps (get : Editing Document) := fun _ => rfl

theorem keeps_liftWire (x : Except WireError α) : Keeps (liftWire x) := by
  cases x <;> exact fun _ => rfl

theorem keeps_readText (cur : Cursor) {read : String → Editing Value}
    (h : ∀ s, Keeps (read s)) : Keeps (readText cur read) := by
  refine keeps_get.bind fun d => ?_
  cases cur.text? d with
  | none => exact keeps_pure _
  | some s => exact h s

theorem keeps_readRequired (cur : Cursor) {read : String → Editing Value}
    (h : ∀ s, Keeps (read s)) : Keeps (readRequired cur read) := by
  refine keeps_get.bind fun d => ?_
  cases cur.text? d with
  | none => exact fun _ => rfl
  | some s => exact h s

theorem keeps_readScalar (t : ScalarType) (s : String) : Keeps (readScalar t s) :=
  (keeps_liftWire _).bind fun _ => keeps_pure _

theorem keeps_readBlob (s : String) : Keeps (readBlob s) := by
  rw [readBlob]
  cases Text.Base64.decode? (Text.trim s) <;> exact fun _ => rfl

theorem keeps_read_text (h : schema.isText = true) (cur : Cursor) : Keeps (schema.read cur) := by
  cases schema with
  | scalar t => exact keeps_readRequired cur (keeps_readScalar t)
  | «optional» t => exact keeps_readText cur (keeps_readScalar t)
  | blob => exact keeps_readText cur keeps_readBlob
  | _ => cases h

theorem keeps_readMembers (cur : Cursor) : ∀ members : List (Member × Schema),
    (∀ m ∈ members, ∀ cur, Keeps (m.2.read cur)) → Keeps (readMembers members cur)
  | [], _ => keeps_pure _
  | (m, schema) :: rest, h => by
    rw [List.forall_mem_cons] at h
    exact keeps_get.bind fun d => (h.1 _).bind fun _ =>
      (keeps_readMembers cur rest h.2).bind fun _ => keeps_pure _

theorem keeps_read_pair (h : value.isText = true) (cur : Cursor) :
    Keeps ((pair keyInfo valueInfo value).read cur) := by
  rw [pair, Schema.read, if_neg fun h => Bool.false_ne_true h.1]
  refine (keeps_readMembers cur _ ?_).bind fun _ => keeps_pure _
  simp only [List.forall_mem_cons]
  exact ⟨keeps_read_text rfl, keeps_read_text h, List.forall_mem_nil _⟩

theorem keeps_read_row (h : schema.isRow = true) (cur : Cursor) :
    Keeps (schema.spread.item.read cur) := by
  cases schema with
  | list opt item info flattened =>
    obtain ⟨_, htext⟩ := Bool.and_eq_true_iff.1 h
    rw [spread, isFlattened_of_isText htext, spread_text htext]
    exact keeps_read_text htext cur
  | map opt value keyInfo valueInfo flattened =>
    obtain ⟨_, htext⟩ := Bool.and_eq_true_iff.1 h
    rw [spread, spread_text htext]
    exact keeps_read_pair htext cur
  | _ => cases h

theorem keeps_readEach {read : Cursor → Editing Value} (h : ∀ cur, Keeps (read cur)) :
    ∀ cursors, Keeps (readEach read cursors)
  | [] => keeps_pure _
  | cur :: cursors => (h cur).bind fun _ => (keeps_readEach h cursors).bind fun _ => keeps_pure _

end Keeping

section Siblings

variable {read inner : Cursor → Editing Value} {cursors : List Cursor}

theorem length_of_readEach {after : Document} {ws : List Value}
    (h : readEach read cursors d = (.ok ws, after)) : ws.length = cursors.length := by
  induction cursors generalizing d ws with
  | nil =>
    cases h
    rfl
  | cons cur cursors ih =>
    rw [readEach] at h
    rcases hfirst : read cur d with ⟨_ | w, between⟩
    · rw [bind_of_error hfirst] at h
      cases h
    · rw [bind_of_ok hfirst] at h
      rcases hmore : readEach read cursors between with ⟨_ | more, last⟩
      · rw [bind_of_error hmore] at h
        cases h
      · rw [bind_of_ok hmore] at h
        cases h
        exact congrArg (· + 1) (ih hmore)

theorem readEach_const (h : ∀ cur ∈ cursors, read cur d = (.ok v, d)) :
    readEach read cursors d = (.ok (cursors.map fun _ => v), d) := by
  induction cursors with
  | nil => rfl
  | cons cur cursors ih =>
    rw [List.forall_mem_cons] at h
    rw [readEach, bind_of_ok h.1, bind_of_ok (ih h.2)]
    rfl

theorem readEach_siblings {f : List Value → Value} (hkeeps : Keeps (readEach inner cursors))
    (hread : ∀ c ∈ cursors,
      read c d = (readEach inner cursors >>= fun ws => pure (f ws)) d) :
    readEach read cursors d =
      (readEach inner cursors >>= fun ws => pure (ws.map fun _ => f ws)) d := by
  have hd := hkeeps d
  rcases hrun : readEach inner cursors d with ⟨e | ws, after⟩
  · rw [hrun] at hd
    obtain rfl : after = d := hd
    cases cursors with
    | nil => cases hrun
    | cons c cursors =>
      have hfirst := (hread c List.mem_cons_self).trans (bind_of_error hrun)
      rw [bind_of_error hrun, readEach]
      exact bind_of_error hfirst
  · rw [hrun] at hd
    obtain rfl : after = d := hd
    have hall := readEach_const fun c hc => (hread c hc).trans (bind_of_ok hrun)
    rw [hall, bind_of_ok hrun, List.map_const', List.map_const', ← length_of_readEach hrun]
    rfl

end Siblings

theorem itemCursors_own (cur : Cursor) (flattened : Bool) (info other : NodeInfo) :
    itemCursors cur flattened (if flattened then other else info) =
      itemCursors cur flattened info := by
  cases flattened <;> rfl

theorem readsSpread_list_plain {item : Schema} (opt : Bool) (hflat : ¬ item.isFlattened = true)
    (hitem : item.ReadsSpread) : ReadsSpread (.list opt item info flattened) := by
  intro cur
  have hitems := readEach_map hitem
  rw [spread, Schema.read, Schema.read, itemCursors_own]
  simp only [if_neg hflat, map_bind]
  refine congrArg _ (funext fun found => ?_)
  cases found with
  | none =>
    cases opt <;> rfl
  | some cursors =>
    dsimp only
    rw [hitems]
    simp only [map_eq_pure_bind, bind_assoc, pure_bind, restore, if_neg hflat]

theorem readsSpread_list_rows {item : Schema} (opt : Bool) (hflat : item.isFlattened = true)
    (hrow : item.isRow = true) (hitem : item.ReadsSpread) :
    ReadsSpread (.list opt item info flattened) := by
  intro cur
  refine funext fun d => ?_
  obtain ⟨found, hfound, hsiblings⟩ := exists_itemCursors cur flattened info d
  rw [spread, Schema.read, Schema.read, itemCursors_own, map_bind, bind_of_ok hfound,
    bind_of_ok hfound, if_pos hflat]
  cases found with
  | none =>
    cases opt <;> rfl
  | some cursors =>
    dsimp only
    have hkeeps := keeps_readEach (keeps_read_row hrow) cursors
    obtain ⟨itemOpt, hspread⟩ := exists_spread_of_isFlattened hflat
    generalize item.spread.item = inner at hkeeps hspread ⊢
    -- Every item is read from the same siblings.
    have hread : ∀ c ∈ cursors, item.read c d =
        (readEach (fun c => inner.read c) cursors >>= fun ws =>
          pure (item.restore (.list ws))) d := by
      intro c hc
      rw [hitem c, hspread, Schema.read, map_bind,
        bind_of_ok (hsiblings cursors rfl c hc entryInfo)]
      simp only [map_eq_pure_bind, bind_assoc, pure_bind]
    rw [bind_eq_of_eq (readEach_siblings hkeeps hread)]
    simp only [map_eq_pure_bind, bind_assoc, pure_bind, restore, if_pos hflat]

section Entries

def readKey (keyInfo : NodeInfo) (c : Cursor) : Editing String := do
  let keyCursor := c.descend (← get) keyInfo
  match keyCursor.text? (← get) with
  | none => missing keyCursor
  | some key => pure key

theorem readEntries_cons (read : Cursor → Editing Value) (c : Cursor) (cursors : List Cursor)
    (es : List (String × Value)) : readEntries keyInfo valueInfo read (c :: cursors) es =
      (readKey keyInfo c >>= fun key => get >>= fun d => read (c.descend d valueInfo) >>= fun v =>
        readEntries keyInfo valueInfo read cursors (insertKey key v es)) := by
  funext d
  rw [readEntries, readKey]
  simp only [bind_assoc]
  rw [bind_of_ok (get_apply d), bind_of_ok (get_apply d), bind_of_ok (get_apply d),
    bind_of_ok (get_apply d)]
  cases (c.descend d keyInfo).text? d <;> rfl

theorem read_pair (c : Cursor) : (pair keyInfo valueInfo value).read c =
    (readKey keyInfo c >>= fun key => get >>= fun d => value.read (c.descend d valueInfo) >>=
      fun v => pure (pairValue key v)) := by
  funext d
  rw [pair, Schema.read, if_neg fun h => Bool.false_ne_true h.1, readKey]
  simp only [readMembers, bind_assoc, pure_bind]
  rw [bind_of_ok (get_apply d), bind_of_ok (get_apply d), bind_of_ok (get_apply d), Schema.read]
  cases htext : (c.descend d keyInfo).text? d with
  | none =>
    have hrun : readRequired (c.descend d keyInfo) (readScalar .string) d =
        missing (c.descend d keyInfo) d := by
      rw [readRequired, bind_of_ok (get_apply d), htext]
    exact (bind_of_error hrun).trans rfl
  | some key =>
    have hrun : readRequired (c.descend d keyInfo) (readScalar .string) d =
        (.ok (.scalar (.string key)), d) := (readRequired_apply htext).trans rfl
    rw [bind_of_ok hrun]
    rfl

theorem readEntries_eq {read : Cursor → Editing Value}
    (h : ∀ c, read c = value.restore <$> value.spread.read c) (cursors : List Cursor)
    (es : List (String × Value)) :
    readEntries keyInfo valueInfo read cursors es =
      (List.foldl (fun es w =>
        insertKey (w.member "key").spelling (value.restore (w.member "value")) es) es) <$>
        readEach (fun c => (pair keyInfo valueInfo value.spread).read c) cursors := by
  induction cursors generalizing es with
  | nil => rfl
  | cons c cursors ih =>
    rw [readEntries_cons, readEach, read_pair]
    simp only [h, ih, map_eq_pure_bind, bind_assoc, pure_bind, List.foldl_cons]
    rfl

end Entries

theorem readsSpread_map (opt flattened : Bool) (keyInfo valueInfo : NodeInfo)
    (hvalue : value.ReadsSpread) : ReadsSpread (.map opt value keyInfo valueInfo flattened) := by
  intro cur
  rw [spread, Schema.read, Schema.read, map_bind]
  refine congrArg _ (funext fun found => ?_)
  cases found with
  | none =>
    cases opt <;> rfl
  | some cursors =>
    dsimp only
    rw [readEntries_eq hvalue]
    simp only [map_eq_pure_bind, bind_assoc, pure_bind, restore]

theorem readMembers_eq (cur : Cursor) : ∀ members : List (Member × Schema),
    (∀ m ∈ members, m.2.ReadsSpread) →
      readMembers members cur = restoreAll members <$> readMembers (spreadAll members) cur
  | [], _ => rfl
  | (m, schema) :: rest, h => by
    rw [List.forall_mem_cons] at h
    have hrest := readMembers_eq cur rest h.2
    rw [spreadAll, readMembers, readMembers, hrest]
    simp only [h.1 _, map_eq_pure_bind, bind_assoc, pure_bind, restoreAll]

theorem readsSpread_record {members : List (Member × Schema)} (opt : Bool)
    (hmembers : ∀ m ∈ members, m.2.ReadsSpread) : ReadsSpread (.record opt members) := by
  intro cur
  rw [spread, Schema.read, Schema.read]
  split_ifs
  · rfl
  · rw [readMembers_eq cur members hmembers]
    simp only [map_eq_pure_bind, bind_assoc, pure_bind, restore]

theorem pervasive_readsSpread : Pervasive ReadsSpread where
  text := by
    intro schema htext cur
    rw [spread_text htext, funext (restore_text htext)]
    exact (id_map _).symm
  list := by
    intro opt item info flattened _ hrow hitem
    by_cases hflat : item.isFlattened = true
    · exact readsSpread_list_rows opt hflat (hrow hflat) hitem
    · exact readsSpread_list_plain opt hflat hitem
  map := fun opt _ keyInfo valueInfo flattened _ _ _ _ hvalue =>
    readsSpread_map opt flattened keyInfo valueInfo hvalue
  record := fun opt _ _ _ hmembers => readsSpread_record opt fun m hm => (hmembers m hm).2.2

end Reading

end ServiceClient.Xml.Schema
