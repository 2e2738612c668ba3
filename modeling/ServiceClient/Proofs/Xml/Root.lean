import ServiceClient.Proofs.Xml.Links
import ServiceClient.Proofs.Xml.Shape
import ServiceClient.Proofs.Xml.Texts

/-! The root among the other nodes. A node comes under another one when it is made there or moved
there, so the root stays where it is as long as it is not moved itself; then the nodes that are
written are those that hang on it by elements. -/

namespace ServiceClient.Xml

namespace Tree

variable {i : NodeId}

section Paths

mutual

theorem mem_numbers_of_path? {p : List Tree} : ∀ t : Tree, t.path? i = some p →
    ∀ u ∈ p, i ∈ u.numbers
  | .node j value children, hp => by
    have hi : i ∈ (Tree.node j value children).numbers := by
      by_contra hi
      rw [path?_of_notMem _ hi] at hp
      cases hp
    intro u hu
    rw [path?] at hp
    split_ifs at hp with h
    · obtain rfl := Option.some.inj hp
      rwa [List.mem_singleton.1 hu]
    · obtain ⟨q, hq, rfl⟩ := Option.map_eq_some_iff.1 hp
      rcases List.mem_append.1 hu with hu | hu
      · exact mem_numbers_of_pathAmong? children hq u hu
      · rwa [List.mem_singleton.1 hu]

theorem mem_numbers_of_pathAmong? {p : List Tree} : ∀ ts : List Tree, pathAmong? i ts = some p →
    ∀ u ∈ p, i ∈ u.numbers
  | [], hp => nomatch hp
  | t :: ts, hp => by
    rw [pathAmong?] at hp
    cases ht : t.path? i with
    | none =>
      rw [ht] at hp
      exact mem_numbers_of_pathAmong? ts hp
    | some q =>
      rw [ht] at hp
      obtain rfl := Option.some.inj hp
      exact mem_numbers_of_path? t ht

end

theorem pathAmong?_of_mem {t : Tree} {ts : List Tree} (h : (numbersAmong ts).Nodup) (ht : t ∈ ts)
    (hi : i ∈ t.numbers) : pathAmong? i ts = t.path? i := by
  induction ts with
  | nil => cases ht
  | cons s ss ih =>
    obtain ⟨_, hss, hdisjoint⟩ := nodup_cons_split h
    rcases List.mem_cons.1 ht with rfl | ht
    · exact pathAmong?_of_mem_left hi
    · have hmem := numbers_subset (mem_nodesAmong_of_mem ht) hi
      rw [pathAmong?_of_mem_right (hdisjoint i hmem), ih hss ht]

end Paths

section Written

theorem eq_of_mem_nodes {t u : Tree} (h : t.numbers.Nodup) (hu : u ∈ t.nodes) (hid : u.id = t.id) :
    u = t := by
  obtain ⟨j, value, children⟩ := t
  rw [numbers_node, List.nodup_cons] at h
  refine (mem_nodes_node hu).resolve_right fun hbelow => h.1 ?_
  rw [Tree.id] at hid
  exact hid ▸ id_mem_numbersAmong hbelow

mutual

/-- What is written with a tree is what is in it with only elements between. -/
theorem mem_written_iff : ∀ t : Tree, t.numbers.Nodup → (i ∈ t.written ↔
    ∃ p, t.path? i = some p ∧ ∀ u ∈ p, u.id ≠ i → u.id ≠ t.id → u.value.info.location = .element)
  | .node j value children, hnodup => by
    rw [numbers_node, List.nodup_cons] at hnodup
    rw [written, path?, List.mem_cons]
    by_cases h : j = i
    · refine iff_of_true (.inl h.symm) ⟨_, if_pos h, fun u hu hne _ => ?_⟩
      rw [List.mem_singleton.1 hu] at hne
      exact absurd h hne
    · have hbelow : ∀ p, pathAmong? i children = some p → ∀ u ∈ p, u.id ≠ j := fun p hp u hu heq =>
        hnodup.1 (heq ▸ id_mem_numbersAmong (mem_of_pathAmong? children hp u hu))
      rw [if_neg h, or_iff_right (Ne.symm h), mem_writtenAmong_iff children hnodup.2]
      constructor
      · rintro ⟨p, hp, hall⟩
        refine ⟨p ++ [.node j value children], by rw [hp]; rfl, fun u hu hne hj => ?_⟩
        rcases List.mem_append.1 hu with hu | hu
        · exact hall u hu hne
        · rw [List.mem_singleton.1 hu] at hj
          exact absurd rfl hj
      · rintro ⟨_, hpath, hall⟩
        obtain ⟨p, hp, rfl⟩ := Option.map_eq_some_iff.1 hpath
        exact ⟨p, hp, fun u hu hne => hall u (List.mem_append_left _ hu) hne (hbelow p hp u hu)⟩

theorem mem_writtenAmong_iff : ∀ ts : List Tree, (numbersAmong ts).Nodup → (i ∈ writtenAmong ts ↔
    ∃ p, pathAmong? i ts = some p ∧ ∀ u ∈ p, u.id ≠ i → u.value.info.location = .element)
  | [], _ => ⟨nofun, fun ⟨_, hp, _⟩ => nomatch hp⟩
  | t :: ts, hnodup => by
    obtain ⟨ht, hts, hdisjoint⟩ := nodup_cons_split hnodup
    by_cases hi : i ∈ t.numbers
    · have hrest : i ∉ writtenAmong ts := fun hmem =>
        hdisjoint i ((sublist_writtenAmong ts).subset hmem) hi
      rw [pathAmong?_of_mem_left hi, writtenAmong]
      split
      · rename_i hl
        rw [List.mem_append, or_iff_left hrest, mem_written_iff t ht]
        refine exists_congr fun p => and_congr_right fun hp => forall₂_congr fun u hu =>
          imp_congr_right fun _ => ⟨fun h => ?_, fun h _ => h⟩
        by_cases hid : u.id = t.id
        · rwa [eq_of_mem_nodes ht (mem_of_path? t hp u hu) hid]
        · exact h hid
      · rename_i hl
        rw [List.mem_cons, or_iff_left hrest]
        constructor
        · rintro rfl
          exact ⟨[t], path?_self t, fun u hu hne => absurd (List.mem_singleton.1 hu ▸ rfl) hne⟩
        · rintro ⟨p, hp, hall⟩
          by_contra hne
          obtain ⟨q, hq, hmem⟩ := exists_path?_through hi t ht (mem_nodes_self t)
          obtain rfl := Option.some.inj (hq.symm.trans hp)
          exact hl (hall t hmem (Ne.symm hne))
    · have hid : i ≠ t.id := fun heq => hi (heq ▸ mem_numbers_self t)
      have hfirst : i ∉ t.written := fun hmem => hi ((sublist_written t).subset hmem)
      rw [pathAmong?_of_mem_right hi, ← mem_writtenAmong_iff ts hts, writtenAmong]
      split
      · rw [List.mem_append, or_iff_right hfirst]
      · rw [List.mem_cons, or_iff_right hid]

end

end Written

end Tree

namespace Document

variable {d d' start : Document} {i c p : NodeId} {e : Edit}

section Edits

theorem Move.root_eq (h : Move d d') : d'.root = d.root := by
  cases h with
  | create info => rfl
  | link ht hp hbelow => exact root_link _ _ _
  | detach i => exact root_detach _ _
  | setContent hi s => rfl

theorem Moves.root_eq (h : Moves d d') : d'.root = d.root := by
  induction h with
  | refl => rfl
  | tail _ hmove ih => exact hmove.root_eq.trans ih

theorem Whole.mem_children_edit (h : d.Whole) (he : ∀ i ∈ e.nodes, i < d.next)
    (hc : c ∈ (d.edit e).1.children p) :
    c ∈ d.children p ∨ c = d.next ∨ e = .appendChild p c ∧ (d.edit e).2 = none := by
  cases e with
  | create info =>
    rw [Document.edit, h.children_create] at hc
    exact .inl hc
  | addChild q info =>
    rw [Document.edit, h.children_addChild info (he q List.mem_cons_self), List.mem_append] at hc
    refine hc.imp_right fun hc => .inl ?_
    split_ifs at hc
    · exact List.mem_singleton.1 hc
    · cases hc
  | appendChild q b =>
    rw [Document.edit, appendChild] at hc ⊢
    by_cases hb : b ∈ d.ancestors q
    · rw [if_pos hb] at hc
      exact .inl hc
    · rw [if_neg hb] at hc ⊢
      obtain ⟨t, ht, rfl⟩ := ((h.has_iff b).2 (he b (by simp [Edit.nodes]))).exists_holds
      have hq := (h.has_iff q).2 (he q List.mem_cons_self)
      have hbelow : q ∉ t.numbers := fun hmem =>
        hb (h.sound.mem_ancestors_of_mem_numbers ht hmem)
      dsimp only at hc
      rw [h.children_link ht hq hbelow, List.mem_append] at hc
      refine hc.imp List.mem_of_mem_filter fun hc => .inr ?_
      split_ifs at hc with hpq
      · rw [List.mem_singleton.1 hc, hpq]
        exact ⟨rfl, rfl⟩
      · cases hc
  | detach i =>
    rw [Document.edit, h.children_detach] at hc
    exact .inl (List.mem_of_mem_filter hc)
  | setText i s =>
    rw [Document.edit] at hc
    by_cases hl : (d.node i).info.location = .element
    · rw [h.children_setText (he i List.mem_cons_self) s hl] at hc
      split_ifs at hc with hpi
      · rw [hpi]
        refine (List.mem_append.1 hc).imp List.mem_of_mem_filter fun hc => .inl ?_
        exact List.mem_singleton.1 hc
      · exact .inl hc
    · rw [setText_of_ne hl, h.children_setContent] at hc
      exact .inl hc

end Edits

section Top

/-- Edits of nodes that are there. None of them puts the root under another node. -/
inductive Rooted (start : Document) : Document → Prop
  | start : Rooted start start
  | edit {d : Document} {e : Edit} (h : Rooted start d) (he : ∀ i ∈ e.nodes, i < d.next)
      (hroot : ∀ p, e = .appendChild p d.root → (d.edit e).2 ≠ none) : Rooted start (d.edit e).1

theorem Rooted.reached (h : Rooted start d) : Reached start d := by
  induction h with
  | start => exact .start
  | edit _ he _ ih => exact ih.edit he

theorem Rooted.notMem_children (h : Rooted start d) (hstart : start.Whole)
    (htop : ∀ p, start.root ∉ start.children p) (p : NodeId) : d.root ∉ d.children p := by
  induction h with
  | start => exact htop p
  | @edit d e hrooted he hroot ih =>
    have hwhole := hrooted.reached.whole hstart
    rw [(hwhole.moves_edit he).root_eq]
    intro hmem
    rcases hwhole.mem_children_edit he hmem with hmem | hnew | ⟨happend, haccepted⟩
    · exact ih hmem
    · exact absurd hwhole.root_lt (hnew ▸ Nat.lt_irrefl _)
    · exact hroot p happend haccepted

theorem Whole.rootTree_mem (h : d.Whole) (htop : d.parent? d.root = none) :
    d.rootTree ∈ d.trees := by
  obtain ⟨hholds, hid⟩ := h.exists_rootTree
  obtain ⟨path, hpath⟩ := Option.isSome_iff_exists.1 (Tree.isSome_pathAmong? d.trees hholds.has)
  rw [hid] at hpath
  rw [parent?, ancestors, hpath] at htop
  cases Tree.startsAt_of_pathAmong? d.trees hpath with
  | @top t ht hmem =>
    have hsame := Tree.eq_of_id_eq h.sound.nodup hholds (Tree.mem_nodesAmong_of_mem hmem)
      (hid.trans ht.symm)
    rwa [hsame]
  | child ht hmem => cases htop

theorem Whole.mem_written_iff (h : d.Whole) (htop : d.parent? d.root = none) :
    i ∈ d.rootTree.written ↔ d.root ∈ d.ancestors i ∧ ∀ a ∈ d.ancestors i, a ≠ i → a ≠ d.root →
      (d.node a).info.location = .element := by
  obtain ⟨hholds, hid⟩ := h.exists_rootTree
  have hmem := h.rootTree_mem htop
  have hnodup := (Tree.numbers_sublist_among hholds).nodup h.sound.nodup
  by_cases hi : i ∈ d.rootTree.numbers
  · obtain ⟨path, hpath⟩ := Option.isSome_iff_exists.1 (Tree.isSome_path? d.rootTree hi)
    have hancestors : d.ancestors i = path.map Tree.id := by
      rw [ancestors, Tree.pathAmong?_of_mem h.sound.nodup hmem hi, hpath]
      rfl
    have hnode : ∀ u ∈ path, d.node u.id = u.value := fun u hu => h.sound.node_eq
      ((Tree.nodes_sublist_among _ hholds).subset (Tree.mem_of_path? _ hpath u hu))
    have habove := h.sound.mem_ancestors_of_mem_numbers hholds hi
    rw [hid] at habove
    rw [Tree.mem_written_iff _ hnodup, hid, and_iff_right habove, hancestors, List.forall_mem_map]
    constructor
    · rintro ⟨q, hq, hall⟩ u hu
      obtain rfl := Option.some.inj (hq.symm.trans hpath)
      rw [hnode u hu]
      exact hall u hu
    · intro hall
      refine ⟨path, hpath, fun u hu => ?_⟩
      rw [← hnode u hu]
      exact hall u hu
  -- Outside the tree of the root, the root is not above the node.
  · refine iff_of_false (fun hwritten => hi ((Tree.sublist_written _).subset hwritten)) ?_
    rintro ⟨habove, -⟩
    rw [ancestors] at habove
    cases hpath : Tree.pathAmong? i d.trees with
    | none =>
      rw [hpath] at habove
      cases habove
    | some path =>
      rw [hpath] at habove
      obtain ⟨u, hu, heq⟩ := List.mem_map.1 habove
      have hsame := Tree.eq_of_id_eq h.sound.nodup (Tree.mem_of_pathAmong? _ hpath u hu) hholds
        (heq.trans hid.symm)
      exact hi (hsame ▸ Tree.mem_numbers_of_pathAmong? _ hpath u hu)

theorem whole_top_of_start
    (hstart : (∃ info, start = new info) ∨ ∃ s, parse s = .ok start) :
    start.Whole ∧ start.parent? start.root = none := by
  rcases hstart with ⟨info, rfl⟩ | ⟨s, hparse⟩
  · exact ⟨whole_new info, rfl⟩
  · obtain ⟨e, -, rfl⟩ := exists_ofElement_of_parse hparse
    exact ⟨whole_ofElement e, parent?_root_ofElement e⟩

theorem Whole.parent?_appendChild_root (h : d.Whole) (hp : p < d.next)
    (hfree : d.root ∉ d.ancestors p) :
    (d.edit (.appendChild p d.root)).1.parent? d.root = some p := by
  obtain ⟨ht, hid⟩ := h.exists_rootTree
  have hbelow : p ∉ d.rootTree.numbers := fun hmem =>
    hfree (hid ▸ h.sound.mem_ancestors_of_mem_numbers ht hmem)
  have hmoved : Moves d (d.edit (.appendChild p d.root)).1 := h.moves_appendChild hp h.root_lt
  have hwhole := hmoved.whole h
  refine hwhole.sound.mem_children_iff.1 ?_
  have hlinked := h.children_link ht ((h.has_iff p).2 hp) hbelow p
  rw [hid, if_pos rfl] at hlinked
  rw [Document.edit, appendChild, if_neg hfree]
  dsimp only
  rw [hlinked]
  exact List.mem_append_right _ List.mem_cons_self

/-- Whatever is made, moved, taken out or written, the root stays at the top if it is not moved
itself, and the nodes that are written are those that hang on it by elements. It can be moved under
every node that is not below it. -/
theorem Rooted.root_top (hstart : (∃ info, start = new info) ∨ ∃ s, parse s = .ok start)
    (h : Rooted start d) :
    d.parent? d.root = none ∧ (∀ p, d.root ∉ d.children p) ∧
      (∃ written, (∀ ids e, d.Writes d.root ids e ↔ ids = written ∧ e = d.toElement) ∧
        ∀ i, i ∈ written ↔ d.root ∈ d.ancestors i ∧ ∀ a ∈ d.ancestors i, a ≠ i → a ≠ d.root →
          (d.node a).info.location = .element) ∧
      ∀ p < d.next, d.root ∉ d.ancestors p →
        (d.edit (.appendChild p d.root)).1.parent? d.root = some p := by
  obtain ⟨hwhole, htop⟩ := whole_top_of_start hstart
  have hchildren := h.notMem_children hwhole (hwhole.parent?_eq_none_iff.1 htop)
  replace hwhole := h.reached.whole hwhole
  replace htop := hwhole.parent?_eq_none_iff.2 hchildren
  obtain ⟨hroot, hid⟩ := hwhole.exists_rootTree
  refine ⟨htop, hchildren, ⟨d.rootTree.written, fun ids e => ?_, fun i =>
    hwhole.mem_written_iff htop⟩, fun p hp hfree => hwhole.parent?_appendChild_root hp hfree⟩
  have hwrites := hwhole.sound.writes_iff ids e d.rootTree hroot
  rwa [hid] at hwrites

def branchedEdits : List Edit :=
  [.create (.forElement "B"), .addChild 1 (.forElement "C"), .appendChild 0 1, .setText 2 "t",
    .addChild 1 (.forAttribute "k"), .appendChild 1 0, .detach 1]

def branched : Document := branchedEdits.foldl (fun d e => (d.edit e).1) (new (.forElement "A"))

theorem Rooted.root_top_branched : Rooted (new (.forElement "A")) branched ∧
    branched.parent? 0 = none ∧ (∀ p, 0 ∉ branched.children p) ∧
      (branched.edit (.appendChild 1 0)).1.parent? 0 = some 1 := by
  have hrooted : Rooted (new (.forElement "A")) branched := by
    refine .edit (.edit (.edit (.edit (.edit (.edit (.edit .start
      (by decide) nofun) (by decide) nofun) (by decide) ?_) (by decide) nofun) (by decide) nofun)
      (by decide) ?_) (by decide) nofun
    · intro p h
      cases h
    · intro p _
      decide
  obtain ⟨htop, hchildren, -, hmoved⟩ := Rooted.root_top (.inl ⟨_, rfl⟩) hrooted
  exact ⟨hrooted, htop, hchildren, hmoved 1 (by decide) (by decide)⟩

def adopted : Document :=
  [.create (.forElement "X"), .appendChild 1 0].foldl (fun d e => (d.edit e).1)
    (new (.forElement "R"))

def overlooked : Document :=
  [.addChild 0 .forText, .addChild 1 (.forElement "E")].foldl (fun d e => (d.edit e).1)
    (new (.forElement "Root"))

/-- The root comes under a node that is not below it, and an element below a text is below the root
without being written. -/
theorem not_root_top_adopted :
    (Reached (new (.forElement "R")) adopted ∧ adopted.parent? adopted.root = some 1 ∧
      adopted.root ∈ adopted.children 1) ∧
    Reached (new (.forElement "Root")) overlooked ∧ overlooked.root ∈ overlooked.ancestors 2 ∧
      overlooked.octets = Text.encode "<Root></Root>" ∧
      ∀ ids e, overlooked.Writes overlooked.root ids e → 2 ∉ ids := by
  refine ⟨⟨.edit (.edit .start (by decide)) (by decide), by decide, by decide⟩,
    .edit (.edit .start (by decide)) (by decide), by decide, by cbv, fun ids e hwrites => ?_⟩
  have hwhole : overlooked.Whole := ⟨by decide, by decide⟩
  obtain ⟨hroot, hid⟩ := hwhole.exists_rootTree
  rw [← hid, hwhole.sound.writes_iff ids e _ hroot] at hwrites
  rw [hwrites.1]
  decide

end Top

end Document

end ServiceClient.Xml
