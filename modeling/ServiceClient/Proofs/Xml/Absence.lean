import ServiceClient.Proofs.Xml.Lookup
import ServiceClient.Proofs.Xml.Write

/-! What is absent leaves no trace. Writing it takes out the node that was made for it, and what is
then in the document under the numbers from before is what was there before. -/

namespace ServiceClient.Xml

namespace Document

variable {d d' : Document} {i j c : NodeId}

theorem Grown.find?_eq (h : Grown d d' i []) (hd : d.Sound) (hj : d.Has j) :
    d'.find? j = d.find? j := by
  obtain ⟨t, ht, rfl⟩ := hj.exists_holds
  obtain ⟨loose, htrees⟩ := h.trees
  rw [Tree.modifyAmong_addAll_nil] at htrees
  have ht' : d'.Holds t := by
    rw [Holds, htrees, Tree.nodesAmong_append]
    exact List.mem_append_right _ ht
  rw [h.sound.find? ht', hd.find? ht]

theorem Whole.detach_addChild (h : d.Whole) (hi : i < d.next) (info : NodeInfo) :
    ((d.addChild i info).1.detach d.next).Whole ∧
      Grown d ((d.addChild i info).1.detach d.next) i [] :=
  ⟨(h.addChild info hi).detach d.next,
    (h.sound.addChild ((h.has_iff i).2 hi) info).2.detach⟩

theorem octets_congr (h : d'.rootTree = d.rootTree) : d'.octets = d.octets := by
  rw [octets, octets, toElement, toElement, h]

end Document

namespace Schema

variable {schema : Schema} {v : Value} {cur : Cursor}

/-- No node is written for the value: it is absent where it may be, or it is a flattened collection
without items. -/
def omits (v : Value) : Schema → Bool
  | .optional _ | .optionalTimestamp _ | .blob => v.isAbsent
  | .list _ _ _ flattened => v.isAbsent || flattened && v.items.isEmpty
  | .map _ _ _ _ flattened => v.isAbsent || flattened && v.entries.isEmpty
  | .record opt _ => opt && v.isAbsent
  | _ => false

theorem collect_nothing {g : NodeId → NodeInfo → Editing Unit} (hg : ∀ i info, g i info = pure ())
    (hcur : cur.node.isSome → cur.parent.isSome) (item : NodeInfo) :
    collect cur true item g = cur.detach := by
  obtain ⟨parent, node, info⟩ := cur
  cases node with
  | none => rfl
  | some i =>
    obtain ⟨p, rfl⟩ := Option.isSome_iff_exists.1 (hcur rfl)
    have hopen : collect ⟨some p, some i, info⟩ true item g =
        Cursor.detach ⟨some p, some i, info⟩ >>= fun cur => g p info >>= fun _ => pure cur := rfl
    rw [hopen, hg]
    rfl

theorem write_of_omits (hv : schema.omits v = true) (hcur : cur.node.isSome → cur.parent.isSome) :
    schema.write v cur = cur.detach := by
  cases schema with
  | «optional» t =>
    obtain rfl := v.eq_absent hv
    rfl
  | optionalTimestamp format =>
    obtain rfl := v.eq_absent hv
    rfl
  | blob =>
    obtain rfl := v.eq_absent hv
    rfl
  | list opt item info flattened =>
    rw [Schema.write]
    split_ifs with habsent
    · rfl
    · obtain ⟨rfl, hitems⟩ : flattened = true ∧ v.items = [] := by
        simpa [omits, habsent] using hv
      exact collect_nothing (fun _ _ => by rw [hitems, writeEach]) hcur info
  | map opt value keyInfo valueInfo flattened =>
    rw [Schema.write]
    split_ifs with habsent
    · rfl
    · obtain ⟨rfl, hentries⟩ : flattened = true ∧ v.entries = [] := by
        simpa [omits, habsent] using hv
      exact collect_nothing (fun _ _ => by rw [hentries, writeEntries]) hcur entryInfo
  | record opt members =>
    obtain ⟨rfl, habsent⟩ : opt = true ∧ v.isAbsent = true := by
      simpa [omits] using hv
    obtain rfl := v.eq_absent habsent
    rfl
  | _ => cases hv

end Schema

namespace Document

/-- A child that is made for a value and for which nothing is then written: all that the document
had it has as before, the nodes apart from the root's tree as well, and it is written as before. -/
theorem Whole.extend_write_omitted {d : Document} (h : d.Whole) (cur : Cursor)
    (hcur : ∀ i ∈ cur.node, i < d.next) (info : NodeInfo) {schema : Schema} {v : Value}
    (hv : schema.omits v = true) :
    ∃ cur' d', (cur.extend info >>= schema.write v) d = (.ok cur', d') ∧ cur'.node = none ∧
      d'.Whole ∧ (∀ i < d.next, d'.find? i = d.find? i) ∧ d'.rootTree = d.rootTree ∧
      d'.octets = d.octets := by
  cases hnode : cur.node with
  | none =>
    have hextend : cur.extend info = pure ⟨none, none, info⟩ := by
      rw [Cursor.extend, hnode]
    have hwrite : schema.write v ⟨none, none, info⟩ = Cursor.detach ⟨none, none, info⟩ :=
      Schema.write_of_omits hv fun h => absurd h Bool.false_ne_true
    rw [hextend, pure_bind, hwrite]
    exact ⟨⟨none, none, info⟩, d, rfl, rfl, h, fun _ _ => rfl, rfl, rfl⟩
  | some i =>
    obtain ⟨hwhole, hgrown⟩ := h.detach_addChild (hcur i hnode) info
    have hkept : ∀ j < d.next, ((d.addChild i info).1.detach d.next).find? j = d.find? j :=
      fun j hj => hgrown.find?_eq h.sound ((h.has_iff j).2 hj)
    have hroot : ((d.addChild i info).1.detach d.next).rootTree = d.rootTree := by
      rw [rootTree, rootTree, hgrown.root, hkept d.root h.root_lt]
    refine ⟨⟨some i, none, info⟩, _, ?_, rfl, hwhole, hkept, hroot, octets_congr hroot⟩
    rw [bind_of_ok (extend_apply hnode info d), Schema.write_of_omits hv fun _ => rfl]
    rfl

def stocked : Document :=
  [.addChild 0 (.forElement "Item"), .setText 1 "a", .create (.forElement "Item")].foldl
    (fun d e => (d.edit e).1) (new ⟨"Items", .element, some ⟨"", "urn:items"⟩⟩)

/-- A flattened list without items, in the namespace of the element that it would come into. -/
theorem Whole.extend_write_omitted_stocked : stocked.Whole ∧
    ∃ cur' d', ((Cursor.atRoot stocked).extend ⟨"Item", .element, some ⟨"", "urn:items"⟩⟩ >>=
        (Schema.list true (.scalar .string) (.forElement "member") true).write (.list [])) stocked =
          (.ok cur', d') ∧ cur'.node = none ∧ d'.Whole ∧
      (∀ i < stocked.next, d'.find? i = stocked.find? i) ∧ d'.rootTree = stocked.rootTree ∧
        d'.octets = stocked.octets := by
  have hwhole : stocked.Whole := ⟨by decide, by decide⟩
  exact ⟨hwhole, hwhole.extend_write_omitted (.atRoot stocked) (by decide) _ (by decide)⟩

end Document

end ServiceClient.Xml
