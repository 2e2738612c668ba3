import ServiceClient.Proofs.Xml.Restore
import ServiceClient.Proofs.Xml.RoundTrip

/-! Flattened collections, wherever they stand. As members of structures and values of maps they are
read back as written. In a list all of them become one row of siblings, and in the root of a
document nothing is written for them. -/

namespace ServiceClient.Xml.Schema

def regained (schema : Schema) (v : Value) : Value :=
  schema.restore (schema.spread.settled (schema.reduce v))

/-- Collections that can all be told from their items in one row: none at all, a list with a single
item, or maps of the same single entry. -/
def AreApart (vs : List Value) : Prop :=
  vs = [] ∨ (∃ x, vs = [.list [x]]) ∨ ∃ e, ∀ v ∈ vs, v = .map [e]

mutual

def KeepsApart : Schema → Value → Prop
  | .list _ item _ _, .list vs =>
    if item.isFlattened then AreApart vs else ∀ v ∈ vs, item.KeepsApart v
  | .map _ value _ _ _, .map es => ∀ e ∈ es, value.KeepsApart e.2
  | .record _ members, .record fields => AllKeepApart members fields
  | _, _ => True

def AllKeepApart : List (Member × Schema) → List (String × Value) → Prop
  | (_, schema) :: rest, (_, v) :: fields => schema.KeepsApart v ∧ AllKeepApart rest fields
  | _, _ => True

end

section Rows

variable {vs : List Value} {t : Schema} {opt : Bool} {info keyInfo valueInfo : NodeInfo}

theorem eq_one_of_length_flatMap {α β : Type} {xs : List α} {f : α → List β} {n : ℕ}
    (hne : xs ≠ []) (hf : ∀ x ∈ xs, (f x).length = n) (h : (xs.flatMap f).length = xs.length) :
    n = 1 := by
  -- All parts together are `xs.length * n`.
  rw [List.length_flatMap, List.map_congr_left hf, List.map_const', List.sum_replicate_nat] at h
  have hpos : 0 < xs.length := List.length_pos_iff.2 hne
  exact Nat.eq_of_mul_eq_mul_left hpos (by omega)

/-- If each of the values is what is read from all the parts in a row, each has one part. -/
theorem rows_cases {β : Type} {parts : Value → List β} {r : Value} {f : Value → Value}
    (h : ((vs.flatMap parts).map fun _ => r) = vs.map f) (hf : ∀ v ∈ vs, f v = r → v = r) :
    vs = [] ∨ (vs.flatMap parts).length = vs.length ∧ (parts r).length = 1 ∧ ∀ v ∈ vs, v = r := by
  by_cases hne : vs = []
  · exact .inl hne
  have hlength : (vs.flatMap parts).length = vs.length := by
    simpa using congrArg List.length h
  have hall : ∀ v ∈ vs, v = r := by
    intro v hv
    have hmem := List.mem_map_of_mem (f := f) hv
    rw [← h, List.map_const'] at hmem
    exact hf v hv (List.eq_of_mem_replicate hmem)
  have hparts : ∀ v ∈ vs, (parts v).length = (parts r).length := fun v hv => by rw [hall v hv]
  exact .inr ⟨hlength, eq_one_of_length_flatMap hne hparts hlength, hall⟩

theorem map_settled_text (h : t.isText = true) (vs : List Value) :
    (vs.map fun v => t.settled v) = vs := by
  rw [funext (settled_text h)]
  exact List.map_id vs

theorem map_settled_entries (h : t.isText = true) (es : List (String × Value)) :
    (es.map fun e => (e.1, t.settled e.2)) = es := by
  simp only [settled_text h]
  exact List.map_id es

theorem rows_list_iff (opt : Bool) (info : NodeInfo) (htext : t.isText = true)
    (hvs : ∀ v ∈ vs, ∃ us, v = .list us) :
    ((vs.flatMap Value.items).map fun _ => Value.list (vs.flatMap Value.items)) =
        vs.map (settled (.list opt t info true)) ↔ AreApart vs := by
  constructor
  · intro h
    obtain rfl | ⟨hlength, hone, hall⟩ := rows_cases h fun v hv hsettled => by
      obtain ⟨us, rfl⟩ := hvs v hv
      rw [settled, map_settled_text htext] at hsettled
      split_ifs at hsettled
      exact hsettled
    · exact .inl rfl
    obtain ⟨x, hx⟩ := List.length_eq_one_iff.1 hone
    obtain ⟨v, rfl⟩ := List.length_eq_one_iff.1 (hlength.symm.trans hone)
    have hv := hall v List.mem_cons_self
    exact .inr (.inl ⟨x, congrArg (fun v => [v]) (hv.trans (congrArg Value.list hx))⟩)
  · rintro (rfl | ⟨x, rfl⟩ | ⟨e, he⟩)
    · rfl
    · rw [List.map_singleton, settled, map_settled_text htext, if_neg fun h => List.cons_ne_nil _ _ h.2.2]
      rfl
    · cases vs with
      | nil => rfl
      | cons v vs =>
        obtain ⟨us, hus⟩ := hvs v List.mem_cons_self
        cases hus.symm.trans (he v List.mem_cons_self)

def merged (vs : List Value) : List (String × Value) :=
  (vs.flatMap Value.entries).foldl (fun es e => insertKey e.1 e.2 es) []

theorem foldl_insertKey_replicate (e : String × Value) (n : ℕ) :
    (List.replicate n e).foldl (fun es e => insertKey e.1 e.2 es) [e] = [e] := by
  induction n with
  | zero => rfl
  | succ n ih =>
    have hsame : insertKey e.1 e.2 [e] = [e] := by
      rw [insertKey, if_neg (String.lt_irrefl e.1), if_pos rfl]
    rw [List.replicate_succ, List.foldl_cons, hsame, ih]

theorem flatMap_entries_replicate (e : String × Value) (n : ℕ) :
    (List.replicate n (Value.map [e])).flatMap Value.entries = List.replicate n e := by
  rw [List.flatMap_replicate]
  exact List.flatten_replicate_singleton

theorem merged_replicate (e : String × Value) (n : ℕ) :
    merged (List.replicate (n + 1) (.map [e])) = [e] := by
  rw [merged, flatMap_entries_replicate, List.replicate_succ, List.foldl_cons]
  exact foldl_insertKey_replicate e n

theorem rows_map_iff (opt : Bool) (keyInfo valueInfo : NodeInfo) (htext : t.isText = true)
    (hvs : ∀ v ∈ vs, ∃ es, v = .map es) :
    ((vs.flatMap Value.entries).map fun _ => Value.map (merged vs)) =
        vs.map (settled (.map opt t keyInfo valueInfo true)) ↔ AreApart vs := by
  constructor
  · intro h
    obtain rfl | ⟨_, hone, hall⟩ := rows_cases h fun v hv hsettled => by
      obtain ⟨es, rfl⟩ := hvs v hv
      rw [settled, map_settled_entries htext] at hsettled
      split_ifs at hsettled
      exact hsettled
    · exact .inl rfl
    obtain ⟨e, he⟩ := List.length_eq_one_iff.1 hone
    exact .inr (.inr ⟨e, fun v hv => (hall v hv).trans (congrArg Value.map he)⟩)
  · rintro (rfl | ⟨x, rfl⟩ | ⟨e, he⟩)
    · rfl
    · obtain ⟨es, hes⟩ := hvs _ List.mem_cons_self
      cases hes
    · rw [List.eq_replicate_of_mem he]
      cases vs.length with
      | zero => rfl
      | succ n =>
        rw [merged_replicate, flatMap_entries_replicate, List.map_replicate, List.map_replicate,
          settled, map_settled_entries htext, if_neg fun h => List.cons_ne_nil _ _ h.2.2]

def rowOf (item : Schema) (vs : List Value) : List Value :=
  vs.flatMap fun v => (item.reduce v).items

/-- What is read for the collections from the row of all their items is right just when they are
apart. -/
structure ReadsRow (item : Schema) (vs : List Value) : Prop where
  settled : (rowOf item vs).map (fun w => item.spread.item.settled w) = rowOf item vs
  apart : ((rowOf item vs).map fun _ => item.restore (.list (rowOf item vs))) =
    vs.map item.settled ↔ AreApart vs

theorem readsRow_list (htext : t.isText = true)
    (hvs : ∀ v ∈ vs, v.isAbsent = false ∧ Fits (.list opt t info true) v) :
    ReadsRow (.list opt t info true) vs := by
  have hplain : ¬ t.isFlattened = true := by
    rw [isFlattened_of_isText htext]
    exact Bool.false_ne_true
  have hlists : ∀ v ∈ vs, ∃ us, v = .list us := by
    intro v hv
    obtain ⟨us, rfl, _⟩ := (hvs v hv).2.exists_list (hvs v hv).1
    exact ⟨us, rfl⟩
  have hreduce : ∀ v ∈ vs, (reduce (.list opt t info true) v).items = v.items := by
    intro v hv
    obtain ⟨us, rfl⟩ := hlists v hv
    rw [reduce, if_neg hplain, funext (reduce_text htext), List.map_id']
  have hrow : rowOf (.list opt t info true) vs = vs.flatMap Value.items :=
    List.flatMap_congr hreduce
  refine ⟨?_, ?_⟩
  · rw [spread, if_neg hplain, spread_text htext]
    exact map_settled_text htext _
  · rw [hrow, ← rows_list_iff opt info htext hlists, restore]
    simp only [if_neg hplain, restore_text htext, List.map_id']

theorem settled_pair (value : Schema) (key : String) (w : Value) :
    (pair keyInfo valueInfo value).settled (pairValue key w) = pairValue key (value.settled w) :=
  rfl

theorem key_pairValue (key : String) (w : Value) :
    ((pairValue key w).member "key").spelling = key := rfl

theorem value_pairValue (key : String) (w : Value) : (pairValue key w).member "value" = w := rfl

theorem restore_pairs (opt flattened : Bool) (value : Schema) (es : List (String × Value)) :
    restore (.map opt value keyInfo valueInfo flattened)
        (.list (es.map fun e => pairValue e.1 e.2)) =
      .map (es.foldl (fun es e => insertKey e.1 (value.restore e.2) es) []) := by
  rw [restore, List.foldl_map]
  simp only [key_pairValue, value_pairValue]

theorem readsRow_map (htext : t.isText = true)
    (hvs : ∀ v ∈ vs, v.isAbsent = false ∧ Fits (.map opt t keyInfo valueInfo true) v) :
    ReadsRow (.map opt t keyInfo valueInfo true) vs := by
  have hmaps : ∀ v ∈ vs, ∃ es, v = .map es := by
    intro v hv
    obtain ⟨es, rfl, _⟩ := (hvs v hv).2.exists_map (hvs v hv).1
    exact ⟨es, rfl⟩
  have hreduce : ∀ v ∈ vs, (reduce (.map opt t keyInfo valueInfo true) v).items =
      v.entries.map fun e => pairValue e.1 e.2 := by
    intro v hv
    obtain ⟨es, rfl⟩ := hmaps v hv
    rw [reduce]
    simp only [reduce_text htext]
    rfl
  have hrow : rowOf (.map opt t keyInfo valueInfo true) vs =
      (vs.flatMap Value.entries).map fun e => pairValue e.1 e.2 := by
    rw [rowOf, List.flatMap_congr hreduce, List.map_flatMap]
  refine ⟨?_, ?_⟩
  · rw [hrow, spread, spread_text htext, List.map_map]
    refine List.map_congr_left fun e _ => ?_
    rw [Function.comp, item, settled_pair, settled_text htext]
  · rw [hrow, ← rows_map_iff opt keyInfo valueInfo htext hmaps,
      restore_pairs, merged, List.map_map]
    simp only [restore_text htext]
    rfl

theorem readsRow {item : Schema} (hrow : item.isRow = true)
    (hvs : ∀ v ∈ vs, v.isAbsent = false ∧ item.Fits v) : ReadsRow item vs := by
  cases item with
  | list opt t info flattened =>
    obtain ⟨rfl, htext⟩ := Bool.and_eq_true_iff.1 hrow
    exact readsRow_list htext hvs
  | map opt t keyInfo valueInfo flattened =>
    obtain ⟨rfl, htext⟩ := Bool.and_eq_true_iff.1 hrow
    exact readsRow_map htext hvs
  | _ => cases hrow

end Rows

section Regaining

variable {schema value item : Schema} {v : Value} {vs : List Value} {opt flattened : Bool}
  {info keyInfo valueInfo : NodeInfo}

/-- Two collections are the same when their items are, also where those without items count as
absent. -/
theorem emptied_eq_iff {α β γ : Type} {wrap : List γ → Value} {xs : List α} {ys : List β}
    {as bs : List γ} [Decidable (opt = true ∧ flattened = true ∧ xs = [])]
    [Decidable (opt = true ∧ flattened = true ∧ ys = [])] (hwrap : Function.Injective wrap)
    (hne : ∀ l, wrap l ≠ .absent) (has : as.length = xs.length) (hbs : bs.length = ys.length) :
    ((if opt = true ∧ flattened = true ∧ xs = [] then Value.absent else wrap as) =
      if opt = true ∧ flattened = true ∧ ys = [] then Value.absent else wrap bs) ↔ as = bs := by
  have hxs : as = [] ↔ xs = [] := by
    rw [← List.length_eq_zero_iff, has, List.length_eq_zero_iff]
  have hys : bs = [] ↔ ys = [] := by
    rw [← List.length_eq_zero_iff, hbs, List.length_eq_zero_iff]
  split_ifs with hx hy hy
  · exact iff_of_true rfl ((hxs.2 hx.2.2).trans (hys.2 hy.2.2).symm)
  · exact iff_of_false (hne bs).symm fun h =>
      hy ⟨hx.1, hx.2.1, hys.1 (h.symm.trans (hxs.2 hx.2.2))⟩
  · exact iff_of_false (hne as) fun h => hx ⟨hy.1, hy.2.1, hxs.1 (h.trans (hys.2 hy.2.2))⟩
  · exact hwrap.eq_iff

def RegainsApart (schema : Schema) : Prop :=
  ∀ v, schema.Fits v → (schema.regained v = schema.settled v ↔ schema.KeepsApart v)

theorem regained_absent_iff (schema : Schema) :
    schema.regained .absent = schema.settled .absent ↔ schema.KeepsApart .absent := by
  rw [regained, reduce_absent, settled_absent, settled_absent, restore_absent]
  refine iff_of_true rfl ?_
  cases schema <;> trivial

theorem regained_list (vs : List Value) (hflat : ¬ item.isFlattened = true) :
    regained (.list opt item info flattened) (.list vs) =
      if opt = true ∧ flattened = true ∧ (vs.map fun v => item.reduce v) = [] then .absent
      else .list (vs.map fun v => item.regained v) := by
  rw [regained, reduce, if_neg hflat, spread, if_neg hflat, settled]
  split_ifs
  · rfl
  · rw [restore]
    simp only [if_neg hflat, List.map_map]
    rfl

theorem regainsApart_list_plain (opt flattened : Bool) (info : NodeInfo)
    (hflat : ¬ item.isFlattened = true) (hitem : item.RegainsApart) :
    RegainsApart (.list opt item info flattened) := by
  intro v hfit
  obtain rfl | ⟨vs, rfl, hvs⟩ := hfit.list_cases
  · exact regained_absent_iff _
  · rw [regained_list vs hflat, settled, KeepsApart, if_neg hflat,
      emptied_eq_iff (fun _ _ => Value.list.inj) (fun _ h => Value.noConfusion h) (by simp)
        (by simp), List.map_inj_left]
    exact forall₂_congr fun v hv => hitem v (hvs v hv).2

theorem regained_rows (vs : List Value) (hflat : item.isFlattened = true) :
    regained (.list opt item info flattened) (.list vs) =
      if opt = true ∧ flattened = true ∧ rowOf item vs = [] then .absent
      else
        let ws := (rowOf item vs).map fun w => item.spread.item.settled w
        .list (ws.map fun _ => item.restore (.list ws)) := by
  rw [regained, reduce, if_pos hflat, spread, if_pos hflat, settled, rowOf]
  split_ifs
  · rfl
  · rw [restore]
    simp only [if_pos hflat]

theorem regainsApart_list_rows (opt flattened : Bool) (info : NodeInfo)
    (hflat : item.isFlattened = true) (hrow : item.isRow = true) :
    RegainsApart (.list opt item info flattened) := by
  intro v hfit
  obtain rfl | ⟨vs, rfl, hvs⟩ := hfit.list_cases
  · exact regained_absent_iff _
  · obtain ⟨hsettled, hapart⟩ := readsRow hrow hvs
    rw [regained_rows vs hflat, settled, KeepsApart, if_pos hflat, ← hapart, hsettled]
    exact emptied_eq_iff (fun _ _ => Value.list.inj) (fun _ h => Value.noConfusion h) (by simp)
      (by simp)

theorem foldl_insertKey_of_sorted {f : Value → Value} (es before : List (String × Value))
    (h : (before.map Prod.fst ++ es.map Prod.fst).Pairwise (· < ·)) :
    es.foldl (fun es e => insertKey e.1 (f e.2) es) before =
      before ++ es.map fun e => (e.1, f e.2) := by
  induction es generalizing before with
  | nil => exact (List.append_nil before).symm
  | cons e es ih =>
    have hlt : ∀ b ∈ before, b.1 < e.1 := fun b hb =>
      (List.pairwise_append.1 h).2.2 b.1 (List.mem_map_of_mem hb) e.1 List.mem_cons_self
    rw [List.foldl_cons, insertKey_of_lt hlt, ih _ (by rwa [List.map_append, List.append_assoc]),
      List.append_assoc]
    rfl

theorem regained_map {es : List (String × Value)} (hsorted : (es.map Prod.fst).Pairwise (· < ·)) :
    regained (.map opt value keyInfo valueInfo flattened) (.map es) =
      if opt = true ∧ flattened = true ∧
          (es.map fun e => pairValue e.1 (value.reduce e.2)) = [] then .absent
      else .map (es.map fun e => (e.1, value.regained e.2)) := by
  rw [regained, reduce, spread, settled]
  split_ifs
  · rfl
  · have hpairs : ((es.map fun e => pairValue e.1 (value.reduce e.2)).map fun w =>
        (pair keyInfo valueInfo value.spread).settled w) =
          (es.map fun e => (e.1, value.spread.settled (value.reduce e.2))).map fun e =>
            pairValue e.1 e.2 := by
      simp only [List.map_map, Function.comp_def, settled_pair]
    have hkeys : ((es.map fun e : String × Value =>
        (e.1, value.spread.settled (value.reduce e.2))).map Prod.fst).Pairwise (· < ·) := by
      rwa [List.map_map]
    rw [hpairs, restore_pairs, foldl_insertKey_of_sorted _ [] hkeys, List.nil_append, List.map_map]
    rfl

theorem regainsApart_map (opt flattened : Bool) (keyInfo valueInfo : NodeInfo)
    (hvalue : value.RegainsApart) :
    RegainsApart (.map opt value keyInfo valueInfo flattened) := by
  intro v hfit
  obtain rfl | ⟨es, rfl, hsorted, hes⟩ := hfit.map_cases
  · exact regained_absent_iff _
  · rw [regained_map hsorted, settled, KeepsApart,
      emptied_eq_iff (fun _ _ => Value.map.inj) (fun _ h => Value.noConfusion h) (by simp)
        (by simp), List.map_inj_left]
    refine forall₂_congr fun e he => ?_
    rw [← hvalue e.2 (hes e he).2, Prod.mk.injEq, and_iff_right rfl]

theorem regainedAll_iff : ∀ (members : List (Member × Schema)) (fields : List (String × Value)),
    (∀ m ∈ members, m.2.RegainsApart) → FitAll members fields →
      (restoreAll members (settledAll (spreadAll members) (reduceAll members fields)) =
        settledAll members fields ↔ AllKeepApart members fields)
  | [], [], _, _ => iff_of_true rfl trivial
  | (m, schema) :: rest, (key, v) :: fields, h, hfit => by
    rw [List.forall_mem_cons] at h
    have hrest := regainedAll_iff rest fields h.2 hfit.2.2
    rw [reduceAll, spreadAll, settledAll, restoreAll, settledAll, AllKeepApart, List.cons.injEq,
      hrest, Prod.mk.injEq, and_iff_right rfl]
    exact and_congr_left' (h.1 v hfit.2.1)

theorem regainsApart_record {members : List (Member × Schema)} (opt : Bool)
    (hmembers : ∀ m ∈ members, m.2.RegainsApart) : RegainsApart (.record opt members) := by
  intro v hfit
  obtain rfl | ⟨fields, rfl, hfields⟩ := hfit.record_cases
  · exact regained_absent_iff _
  · rw [KeepsApart, ← regainedAll_iff members fields hmembers hfields]
    exact ⟨Value.record.inj, congrArg Value.record⟩

theorem pervasive_regainsApart : Pervasive RegainsApart where
  text := by
    intro schema htext v hfit
    rw [regained, spread_text htext, reduce_text htext, restore_text htext]
    refine iff_of_true rfl ?_
    cases schema <;> trivial
  list := by
    intro opt item info flattened _ hrow hitem
    by_cases hflat : item.isFlattened = true
    · exact regainsApart_list_rows opt flattened info hflat (hrow hflat)
    · exact regainsApart_list_plain opt flattened info hflat hitem
  map := fun opt _ keyInfo valueInfo flattened _ _ _ _ hvalue =>
    regainsApart_map opt flattened keyInfo valueInfo hvalue
  record := fun opt _ _ _ hmembers => regainsApart_record opt fun m hm => (hmembers m hm).2.2

end Regaining

section Documents

variable {schema : Schema} {root : NodeInfo} {v : Value}

theorem node_root {d : Document} {t : Tree} (hsound : d.Sound) (hholds : d.Holds t)
    (hid : t.id = d.root) : d.node d.root = t.value := by
  rw [Document.node, ← hid, hsound.find? hholds]
  rfl

/-- What has been written is read back as far as the value can be restored from what it is reduced
to. -/
theorem readDocument_spread (h : schema.IsBroad) (hflat : schema.isFlattened = false)
    (hinfo : root.IsProper) (hroot : root.location = .element) (hfit : schema.Fits v)
    (hv : v.isAbsent = false) :
    ∃ s, writeDocument root schema v = .ok s ∧
      readDocument root.name schema s = .ok (schema.regained v) := by
  obtain ⟨hlegal, hfits⟩ := IsBroad.induction pervasive_spreadsLegally schema h
  have hwrite := writeDocument_of_fills hroot ((IsBroad.induction pervasive_writesSpread schema
    h).inside v hfit hv hflat (.atRoot (Document.new root)) 0 root root.ns.toList rfl)
  obtain ⟨d, t, hparse, hsound, hholds, hid, hname, hbears⟩ :=
    exists_bears_of_octets hlegal hinfo (schema.reduce v)
  have hfound : (d.node d.root).info.name = root.name := by rw [node_root hsound hholds hid, hname]
  have hspread : schema.spread.read (.atRoot d) d =
      (.ok (schema.spread.settled (schema.reduce v)), d) :=
    (IsLegal.induction hereditary_readsLayout _ hlegal).inside _ (hfits v hfit)
      ((isAbsent_reduce schema v).trans hv) ((isFlattened_spread schema).trans hflat) d t
      (.atRoot d) root root.ns.toList hsound hholds (congrArg some hid.symm) hbears
  have hread : schema.read (.atRoot d) d = (.ok (schema.regained v), d) := by
    rw [IsBroad.induction pervasive_readsSpread schema h, map_eq_pure_bind, bind_of_ok hspread]
    rfl
  exact ⟨_, hwrite, readDocument_of_parse hparse hfound hread⟩

def vacant : Schema → Value
  | .list opt _ _ _ => if opt then .absent else .list []
  | .map opt _ _ _ _ => if opt then .absent else .map []
  | _ => .absent

theorem write_atRoot (hflat : schema.isFlattened = true) (hv : v.isAbsent = false) (i : NodeId)
    (info : NodeInfo) : schema.write v ⟨none, some i, info⟩ = pure ⟨none, some i, info⟩ := by
  have hne : ¬ v.isAbsent = true := by
    rw [hv]
    exact Bool.false_ne_true
  cases schema with
  | list opt item itemInfo flattened =>
    obtain rfl : flattened = true := hflat
    rw [Schema.write, if_neg hne]
    rfl
  | map opt value keyInfo valueInfo flattened =>
    obtain rfl : flattened = true := hflat
    rw [Schema.write, if_neg hne]
    rfl
  | _ => cases hflat

theorem read_atRoot (hflat : schema.isFlattened = true) (i : NodeId) (info : NodeInfo)
    (d : Document) : schema.read ⟨none, some i, info⟩ d = (.ok schema.vacant, d) := by
  cases schema with
  | list opt item itemInfo flattened =>
    obtain rfl : flattened = true := hflat
    cases opt <;> rfl
  | map opt value keyInfo valueInfo flattened =>
    obtain rfl : flattened = true := hflat
    cases opt <;> rfl
  | _ => cases hflat

theorem vacant_eq_settled_iff (hflat : schema.isFlattened = true) (hfit : schema.Fits v)
    (hv : v.isAbsent = false) :
    schema.vacant = schema.settled v ↔ v.items = [] ∧ v.entries = [] := by
  cases schema with
  | list opt item itemInfo flattened =>
    obtain rfl : flattened = true := hflat
    obtain ⟨vs, rfl, _⟩ := hfit.exists_list hv
    cases opt <;> cases vs <;> simp [vacant, settled, Value.items, Value.entries]
  | map opt value keyInfo valueInfo flattened =>
    obtain rfl : flattened = true := hflat
    obtain ⟨es, rfl, _⟩ := hfit.exists_map hv
    cases opt <;> cases es <;> simp [vacant, settled, Value.items, Value.entries]
  | _ => cases hflat

/-- In the root of a document nothing is written for a flattened collection. -/
theorem readDocument_flattened (hflat : schema.isFlattened = true) (hinfo : root.IsProper)
    (hroot : root.location = .element) (hv : v.isAbsent = false) :
    ∃ s, writeDocument root schema v = .ok s ∧
      readDocument root.name schema s = .ok schema.vacant := by
  have hempty : IsLegal (.record false []) := ⟨List.nodup_nil, List.nodup_nil, trivial⟩
  have hfills : Fills (schema.write v (.atRoot (Document.new root))) 0 root.ns.toList
      (Schema.inside (.record false []) root root.ns.toList (.record [])) := by
    rw [Cursor.atRoot, write_atRoot hflat hv]
    exact (writes_pure _).fills
  obtain ⟨d, t, hparse, hsound, hholds, hid, hname, _⟩ :=
    exists_bears_of_octets hempty hinfo (.record [])
  have hfound : (d.node d.root).info.name = root.name := by rw [node_root hsound hholds hid, hname]
  exact ⟨_, writeDocument_of_fills hroot hfills, readDocument_of_parse hparse hfound
    (read_atRoot hflat _ _ d)⟩

/-- A value with flattened collections anywhere can be written and read. It is given back as long as
those among the items of a list are kept apart; of a flattened collection in the root nothing is
left. -/
theorem readDocument_writeDocument_iff (h : schema.IsBroad) (hinfo : root.IsProper)
    (hroot : root.location = .element) (hfit : schema.Fits v) (hv : v.isAbsent = false) :
    ∃ s w, writeDocument root schema v = .ok s ∧ readDocument root.name schema s = .ok w ∧
      (w = schema.settled v ↔
        if schema.isFlattened then v.items = [] ∧ v.entries = [] else schema.KeepsApart v) := by
  by_cases hflat : schema.isFlattened = true
  · obtain ⟨s, hwrite, hread⟩ := readDocument_flattened hflat hinfo hroot hv
    rw [if_pos hflat]
    exact ⟨s, _, hwrite, hread, vacant_eq_settled_iff hflat hfit hv⟩
  · obtain ⟨s, hwrite, hread⟩ :=
      readDocument_spread h (Bool.eq_false_of_not_eq_true hflat) hinfo hroot hfit hv
    rw [if_neg hflat]
    exact ⟨s, _, hwrite, hread, IsBroad.induction pervasive_regainsApart schema h v hfit⟩

def shelfSchema : Schema :=
  .record false [
    (⟨"tags", .forElement "Tags"⟩, .map false (.list true (.scalar .string) (.forElement "member")
      true) (.forAttribute "key") (.forElement "Tag") true),
    (⟨"counts", .forElement "Counts"⟩, .list false (.map false (.scalar .string)
      (.forElement "Key") (.forElement "Value") true) (.forElement "Count") false)]

def shelf (fewer : Value) : Value :=
  .record [
    ("tags", .map [("a", fewer), ("b", .list [.scalar (.string "<"), .scalar (.string "")])]),
    ("counts", .list [.map [("k", .scalar (.string "1"))], .map [("k", .scalar (.string "1"))]])]

/-- Under a key of the map an empty list is read back as none; all else is as it was. -/
theorem readDocument_writeDocument_shelf :
    shelfSchema.IsBroad ∧ NodeInfo.IsProper (.forElement "Shelf") ∧
      shelfSchema.Fits (shelf (.list [])) ∧
      ∃ s, writeDocument (.forElement "Shelf") shelfSchema (shelf (.list [])) = .ok s ∧
        readDocument "Shelf" shelfSchema s = .ok (shelf .absent) := by
  have hbroad : shelfSchema.IsBroad := by
    simp only [shelfSchema, IsBroad, AreBroad]
    decide
  have hproper : NodeInfo.IsProper (.forElement "Shelf") := by decide
  have hfit : shelfSchema.Fits (shelf (.list [])) := by
    have hkeys : ["a", "b"].Pairwise (· < ·) := by decide
    have hkey : ["k"].Pairwise (· < ·) := by decide
    simp only [shelfSchema, shelf, Fits, FitAll, ScalarType.Holds, List.forall_mem_cons,
      List.not_mem_nil, false_imp_iff, implies_true, true_and, and_true]
    exact ⟨⟨hkeys, rfl, rfl, rfl, rfl⟩, ⟨rfl, hkey, rfl⟩, rfl, hkey, rfl⟩
  obtain ⟨s, w, hwrite, hread, hsame⟩ :=
    readDocument_writeDocument_iff hbroad hproper rfl hfit rfl
  have hapart : shelfSchema.KeepsApart (shelf (.list [])) := by
    simp only [shelfSchema, shelf, KeepsApart, AllKeepApart, isFlattened, Bool.false_eq_true,
      if_false, if_true, List.forall_mem_cons, List.not_mem_nil, false_imp_iff, implies_true,
      true_and, and_true]
    exact .inr (.inr ⟨("k", .scalar (.string "1")), by simp⟩)
  rw [if_neg (show ¬ shelfSchema.isFlattened = true by decide)] at hsame
  exact ⟨hbroad, hproper, hfit, s, hwrite, hread.trans (congrArg Except.ok (hsame.2 hapart))⟩

def row : Schema := .list false (.scalar .string) (.forElement "member") true

/-- An item of a flattened list is not written in the root, and two lists of one item each are two
lists of both items afterwards. -/
theorem readDocument_writeDocument_rows :
    (∃ s, writeDocument (.forElement "Rows") row (.list [.scalar (.string "1")]) = .ok s ∧
      readDocument "Rows" row s = .ok (.list [])) ∧
    ∃ s, writeDocument (.forElement "Rows") (.list false row (.forElement "Row") false)
        (.list [.list [.scalar (.string "1")], .list [.scalar (.string "2")]]) = .ok s ∧
      readDocument "Rows" (.list false row (.forElement "Row") false) s =
        .ok (.list [.list [.scalar (.string "1"), .scalar (.string "2")],
          .list [.scalar (.string "1"), .scalar (.string "2")]]) := by
  have hproper : NodeInfo.IsProper (.forElement "Rows") := by decide
  refine ⟨?_, ?_⟩
  · exact readDocument_flattened rfl hproper rfl rfl
  · have hbroad : IsBroad (.list false row (.forElement "Row") false) := by
      simp only [row, IsBroad]
      decide
    have hfit : Fits (.list false row (.forElement "Row") false)
        (.list [.list [.scalar (.string "1")], .list [.scalar (.string "2")]]) := by
      simp only [row, Fits, ScalarType.Holds, List.forall_mem_cons, List.not_mem_nil,
        false_imp_iff, implies_true, and_true]
      exact ⟨⟨rfl, rfl⟩, rfl, rfl⟩
    exact readDocument_spread hbroad rfl hproper rfl hfit rfl

end Documents

end ServiceClient.Xml.Schema
