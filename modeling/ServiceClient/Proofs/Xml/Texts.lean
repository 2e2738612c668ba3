import ServiceClient.Proofs.Xml.Lookup

/-! The text of a node. When it is set, an element gets one text as its last child for all those
that it had, and any other node gets the text as its value. Nothing else changes but the text of an
element whose text child it is. -/

namespace ServiceClient.Xml

namespace Tree

variable {t : Tree}

theorem text_of_element (ht : t.value.info.location = .element) : t.text =
    String.join ((t.children.filter (isAt .text)).map fun u => u.value.content.getD "") := by
  cases t
  rw [text]
  split
  · rfl
  · contradiction

theorem text_of_ne (ht : t.value.info.location ≠ .element) : t.text = t.value.content.getD "" := by
  cases t
  rw [text]
  split
  · contradiction
  · rfl

end Tree

namespace Document

open Xml.Tree (numbersAmong)

variable {d d' : Document} {i j : NodeId}

def othersOf (d : Document) (i : NodeId) : List NodeId :=
  (d.children i).filter fun c => (d.node c).info.location != .text

section Reading

variable (h : d.Whole) (hi : i < d.next)

include h hi

theorem Whole.text_of_element (hl : (d.node i).info.location = .element) :
    d.text i = String.join ((d.textsOf i).map fun c => (d.node c).content.getD "") := by
  obtain ⟨t, ht, rfl⟩ := ((h.has_iff i).2 hi).exists_holds
  have hbelow : ∀ u ∈ t.children, d.node u.id = u.value := fun u hu =>
    h.sound.node_eq (ht.child hu)
  have htexts : t.children.filter ((fun c => (d.node c).info.location == .text) ∘ Tree.id) =
      t.children.filter (Tree.isAt .text) := List.filter_congr fun u hu => by
    rw [Function.comp_apply, hbelow u hu, Tree.isAt]
  rw [h.sound.node_eq ht] at hl
  rw [text, h.sound.find? ht, textsOf, h.sound.children_eq ht, List.filter_map, htexts,
    List.map_map]
  refine (Tree.text_of_element hl).trans (congrArg String.join (List.map_congr_left fun u hu => ?_))
  rw [Function.comp_apply, hbelow u (List.mem_of_mem_filter hu)]

theorem Whole.text_of_ne (hl : (d.node i).info.location ≠ .element) :
    d.text i = (d.node i).content.getD "" := by
  obtain ⟨t, ht, rfl⟩ := ((h.has_iff i).2 hi).exists_holds
  rw [h.sound.node_eq ht] at hl ⊢
  rw [text, h.sound.find? ht]
  exact Tree.text_of_ne hl

end Reading

section Setting

def cleared (d : Document) (i : NodeId) : Document :=
  (d.textsOf i).foldl Document.detach d

theorem next_cleared (d : Document) (i : NodeId) : (d.cleared i).next = d.next :=
  next_detachAll d (d.textsOf i)

theorem setText_eq (hl : (d.node i).info.location = .element) (s : String) :
    d.setText i s = ((d.cleared i).addChild i .forText).1.setContent d.next s := by
  rw [setText_of_element hl, next_detachAll]
  rfl

variable (h : d.Whole)

include h

theorem Whole.cleared (i : NodeId) : (d.cleared i).Whole := h.detachAll (d.textsOf i)

theorem Whole.node_cleared (i j : NodeId) : (d.cleared i).node j = d.node j :=
  h.node_detachAll (d.textsOf i) j

theorem Whole.children_cleared (i j : NodeId) :
    (d.cleared i).children j = if j = i then d.othersOf i else d.children j := by
  rw [Document.cleared, h.children_detachAll]
  split_ifs with hj
  · rw [hj]
    refine List.filter_congr fun c hc => ?_
    rw [Bool.eq_iff_iff]
    simp [textsOf, hc]
  · refine List.filter_eq_self.2 fun c hc => decide_eq_true fun hmem => hj ?_
    have hbelow := h.sound.mem_children_iff.1 (List.mem_of_mem_filter hmem)
    exact Option.some.inj ((h.sound.mem_children_iff.1 hc).symm.trans hbelow)

variable (hi : i < d.next) (s : String)

include hi

theorem Whole.setText : (d.setText i s).Whole := (h.moves_setText hi s).whole h

variable (hl : (d.node i).info.location = .element)

include hl

theorem Whole.children_setText (j : NodeId) : (d.setText i s).children j =
    if j = i then d.othersOf i ++ [d.next] else d.children j := by
  have hi' : i < (d.cleared i).next := (next_cleared d i).symm ▸ hi
  have hadded := (h.cleared i).addChild .forText hi'
  rw [setText_eq hl, hadded.children_setContent, (h.cleared i).children_addChild .forText hi',
    h.children_cleared, next_cleared]
  split_ifs
  · rfl
  · exact List.append_nil _

theorem Whole.node_setText (j : NodeId) : (d.setText i s).node j =
    if j = d.next then ⟨.forText, some s, none⟩ else d.node j := by
  have hi' : i < (d.cleared i).next := (next_cleared d i).symm ▸ hi
  have hadded := (h.cleared i).addChild .forText hi'
  have hnew : d.next < ((d.cleared i).addChild i .forText).1.next := by
    rw [next_addChild, next_cleared]
    exact Nat.lt_succ_self _
  rw [setText_eq hl, hadded.node_setContent _ s hnew]
  by_cases hj : j = d.next
  · have hleaf := (h.cleared i).node_child .forText hi'
    rw [next_cleared] at hleaf
    rw [if_pos hj, if_pos hj, hj, hleaf]
    rfl
  · rw [if_neg hj, if_neg hj, (h.cleared i).node_addChild .forText hi' (next_cleared d i ▸ hj),
      h.node_cleared]

end Setting

section Frame

structure Reworded (d d' : Document) (i : NodeId) (s : String) : Prop where
  text_eq : d'.text i = s
  others_eq : d'.othersOf i = d.othersOf i
  find?_others : ∀ c ∈ d.othersOf i, d'.find? c = d.find? c
  unchanged : ∀ j < d.next, j ≠ i → d'.node j = d.node j ∧ d'.children j = d.children j
  text_unchanged : ∀ j < d.next, j ≠ i → ((d.node i).info.location = .text → ¬ d.IsParent i j) →
    d'.text j = d.text j

variable (h : d.Whole) (h' : d'.Whole)

include h

theorem Whole.notMem_numbers {t : Tree} (ht : d.Holds t) (hi : t.id ∈ d.children i) :
    i ∉ t.numbers := by
  intro hmem
  have hparent := h.sound.mem_children_iff.1 hi
  have habove := h.sound.mem_ancestors_of_mem_numbers ht hmem
  rw [h.sound.mem_ancestors_iff (h.sound.has_of_isParent hparent).2] at habove
  exact h.sound.acyclic i (.tail' habove hparent)

include h'

theorem Whole.text_congr (hj : j < d.next) (hj' : j < d'.next) (hnode : d'.node j = d.node j)
    (hchildren : d'.children j = d.children j)
    (hlocation : ∀ c ∈ d.children j, (d'.node c).info.location = (d.node c).info.location)
    (hcontent : ∀ c ∈ d.textsOf j, (d'.node c).content = (d.node c).content) :
    d'.text j = d.text j := by
  by_cases hl : (d.node j).info.location = .element
  · have htexts : d'.textsOf j = d.textsOf j := by
      rw [textsOf, hchildren]
      exact List.filter_congr fun c hc => by rw [hlocation c hc]
    rw [h.text_of_element hj hl, h'.text_of_element hj' (hnode ▸ hl), htexts]
    exact congrArg String.join (List.map_congr_left fun c hc => by rw [hcontent c hc])
  · rw [h.text_of_ne hj hl, h'.text_of_ne hj' (hnode ▸ hl), hnode]

theorem Whole.reworded {s : String} (hnext : d.next ≤ d'.next) (htext : d'.text i = s)
    (hothers : d'.othersOf i = d.othersOf i)
    (hsame : ∀ j < d.next, j ≠ i → d'.node j = d.node j ∧ d'.children j = d.children j)
    (hlocation : (d'.node i).info.location = (d.node i).info.location) :
    Reworded d d' i s := by
  refine ⟨htext, hothers, fun c hc => ?_, hsame, fun j hj hne hparent => ?_⟩
  · obtain ⟨t, u, _, ht, _, _, rfl⟩ :=
      h.sound.exists_of_mem_children (List.mem_of_mem_filter hc)
    have hi := h.notMem_numbers ht (List.mem_of_mem_filter hc)
    have hfound := h.sound.holds_congr h'.sound u ht fun j hj => by
      have hlt := (h.has_iff j).1 (Tree.numbers_subset ht hj)
      exact ⟨(h'.has_iff j).2 (Nat.lt_of_lt_of_le hlt hnext), hsame j hlt fun heq => hi (heq ▸ hj)⟩
    rw [h.sound.find? ht, h'.sound.find? hfound]
  · obtain ⟨hnode, hchildren⟩ := hsame j hj hne
    refine h.text_congr h' hj (Nat.lt_of_lt_of_le hj hnext) hnode hchildren (fun c hc => ?_)
      fun c hc => ?_
    · by_cases hci : c = i
      · rw [hci, hlocation]
      · rw [(hsame c (h.lt_of_mem_children hc).2 hci).1]
    · have hbelow := List.mem_of_mem_filter hc
      by_cases hci : c = i
      · have hl : (d.node i).info.location = .text := by
          simpa [hci] using List.of_mem_filter hc
        exact absurd (h.sound.mem_children_iff.1 (hci ▸ hbelow)) (hparent hl)
      · rw [(hsame c (h.lt_of_mem_children hbelow).2 hci).1]

end Frame

section Setting

theorem next_le_setText (d : Document) (i : NodeId) (s : String) :
    d.next ≤ (d.setText i s).next := by
  by_cases hl : (d.node i).info.location = .element
  · rw [setText_eq hl]
    change d.next ≤ ((d.cleared i).addChild i .forText).1.next
    rw [next_addChild, next_cleared]
    exact Nat.le_succ _
  · rw [setText_of_ne hl]
    exact Nat.le_refl _

variable (h : d.Whole) (hi : i < d.next) (s : String)

include h hi

theorem Whole.location_setText (hj : j < d.next) :
    ((d.setText i s).node j).info.location = (d.node j).info.location := by
  by_cases hl : (d.node i).info.location = .element
  · rw [h.node_setText hi s hl, if_neg (Nat.ne_of_lt hj)]
  · rw [setText_of_ne hl, h.node_setContent i s hi]
    split_ifs <;> rfl

theorem Whole.location_others :
    ∀ c ∈ d.othersOf i, ((d.setText i s).node c).info.location ≠ .text := by
  intro c hc
  rw [h.location_setText hi s (h.lt_of_mem_children (List.mem_of_mem_filter hc)).2]
  simpa [bne] using List.of_mem_filter hc

section Element

variable (hl : (d.node i).info.location = .element)

include hl

theorem Whole.location_newText : ((d.setText i s).node d.next).info.location = .text := by
  rw [h.node_setText hi s hl, if_pos rfl]
  rfl

theorem Whole.textsOf_setText : (d.setText i s).textsOf i = [d.next] := by
  rw [textsOf, h.children_setText hi s hl, if_pos rfl, List.filter_append, List.filter_eq_nil_iff.2]
  · simp [h.location_newText hi s hl]
  · simpa using h.location_others hi s

theorem Whole.othersOf_setText : (d.setText i s).othersOf i = d.othersOf i := by
  rw [othersOf, h.children_setText hi s hl, if_pos rfl, List.filter_append, List.filter_eq_self.2]
  · simp [h.location_newText hi s hl]
  · simpa [bne] using h.location_others hi s

end Element

theorem Whole.reworded_setText : Reworded d (d.setText i s) i s := by
  have h' := h.setText hi s
  have hi' := Nat.lt_of_lt_of_le hi (next_le_setText d i s)
  have hlocation := h.location_setText hi s hi
  by_cases hl : (d.node i).info.location = .element
  · refine h.reworded h' (next_le_setText d i s) ?_ (h.othersOf_setText hi s hl)
      (fun j hj hne => ⟨?_, ?_⟩) hlocation
    · rw [h'.text_of_element hi' (hlocation.trans hl), h.textsOf_setText hi s hl,
        List.map_singleton,
        h.node_setText hi s hl, if_pos rfl]
      rfl
    · rw [h.node_setText hi s hl, if_neg (Nat.ne_of_lt hj)]
    · rw [h.children_setText hi s hl, if_neg hne]
  · have hset := setText_of_ne hl s
    refine h.reworded h' (next_le_setText d i s) ?_ ?_ (fun j _ hne => ⟨?_, ?_⟩) hlocation
    · rw [h'.text_of_ne hi' (hlocation ▸ hl), hset, h.node_setContent i s hi, if_pos rfl]
      rfl
    · have hchildren : (d.setText i s).children i = d.children i := by
        rw [hset, h.children_setContent]
      rw [othersOf, hchildren]
      exact List.filter_congr fun c hc => by
        rw [h.location_setText hi s (h.lt_of_mem_children hc).2]
    · rw [hset, h.node_setContent i s hi, if_neg hne]
    · rw [hset, h.children_setContent]

end Setting

section Repeating

def setTexts (d : Document) (texts : List (NodeId × String)) : Document :=
  texts.foldl (fun d t => d.setText t.1 t.2) d

theorem Whole.textsOf_setText_of_ne (h : d.Whole) (hi : i < d.next) (s : String) (hj : j < d.next)
    (hne : j ≠ i) : (d.setText i s).textsOf j = d.textsOf j := by
  rw [textsOf, ((h.reworded_setText hi s).unchanged j hj hne).2]
  exact List.filter_congr fun c hc => by
    rw [h.location_setText hi s (h.lt_of_mem_children hc).2]

theorem Whole.exists_textsOf_setTexts (h : d.Whole) (texts : List (NodeId × String))
    (htexts : ∀ t ∈ texts, t.1 < d.next) (hi : i < d.next)
    (hl : (d.node i).info.location = .element)
    (hset : i ∈ texts.map Prod.fst ∨ ∃ c, d.textsOf i = [c]) :
    ∃ c, (d.setTexts texts).textsOf i = [c] := by
  induction texts generalizing d with
  | nil => exact hset.resolve_left List.not_mem_nil
  | cons t texts ih =>
    rw [List.forall_mem_cons] at htexts
    have hle := next_le_setText d t.1 t.2
    refine ih (h.setText htexts.1 t.2) (fun u hu => Nat.lt_of_lt_of_le (htexts.2 u hu) hle)
      (Nat.lt_of_lt_of_le hi hle) ((h.location_setText htexts.1 t.2 hi).trans hl) ?_
    by_cases hti : i = t.1
    · subst hti
      exact .inr ⟨d.next, h.textsOf_setText hi t.2 hl⟩
    · rw [h.textsOf_setText_of_ne htexts.1 t.2 hi hti]
      exact hset.imp_left fun hmem => (List.mem_cons.1 hmem).resolve_left hti

/-- In a forest of nodes a text that is set is that of its node, no other node changes, and no other
text but that of the element whose text child it is. An element whose text is set once or more among
others has one text. -/
theorem Whole.setText_rewords (h : d.Whole) :
    (∀ i < d.next, ∀ s, Reworded d (d.setText i s) i s) ∧
      ∀ texts : List (NodeId × String), (∀ t ∈ texts, t.1 < d.next) → ∀ t ∈ texts,
        (d.node t.1).info.location = .element → ((d.setTexts texts).textsOf t.1).length = 1 := by
  refine ⟨fun i hi s => h.reworded_setText hi s, fun texts htexts t ht hl => ?_⟩
  obtain ⟨c, hc⟩ := h.exists_textsOf_setTexts texts htexts (htexts t ht) hl
    (.inl (List.mem_map_of_mem ht))
  rw [hc]
  rfl

def wordyEdits : List Edit :=
  [.addChild 0 .forText, .setText 1 "a", .addChild 0 (.forAttribute "k"), .setText 2 "v",
    .addChild 0 .forText, .setText 3 "b", .addChild 0 (.forElement "B"), .setText 4 "c",
    .addChild 0 .forText]

def wordy : Document := wordyEdits.foldl (fun d e => (d.edit e).1) (new (.forElement "A"))

theorem Whole.setText_rewords_wordy : wordy.Whole ∧
    Reworded wordy (wordy.setText 0 "d") 0 "d" ∧ Reworded wordy (wordy.setText 3 "d") 3 "d" ∧
      (((wordy.setTexts [(0, "d"), (3, "x"), (4, "y"), (0, "e")]).textsOf 0).length = 1) := by
  have hwhole : wordy.Whole := ⟨by decide, by decide⟩
  obtain ⟨hreworded, hsingle⟩ := hwhole.setText_rewords
  exact ⟨hwhole, hreworded 0 (by decide) "d", hreworded 3 (by decide) "d",
    hsingle _ (by decide) (0, "d") (by decide) (by decide)⟩

end Repeating

end Document

end ServiceClient.Xml
