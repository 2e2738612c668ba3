import ServiceClient.Proofs.Run
import ServiceClient.Proofs.Xml.Links
import ServiceClient.Proofs.Xml.Texts
import ServiceClient.Xml.Arena

/-! A forest as it is kept. Each node of a document has a cell with its children and its parent, and
work on the cells, one after the other, comes to what the edits of the forest say. -/

namespace ServiceClient.Xml

namespace Arena

variable {a b : Arena} {i j : NodeId} {c : Cell} {f g : Cell → Cell}

@[simp] theorem size_modify : (a.modify i f).size = a.size := Array.size_modify

theorem cell?_modify :
    (a.modify i f).cell? j = if i = j then (a.cell? j).map f else a.cell? j := by
  rw [cell?, modify, Array.getElem?_modify]
  rfl

@[simp] theorem size_push : (a.push c).size = a.size + 1 := Array.size_push c

theorem cell?_push : (a.push c).cell? j = if j = a.size then some c else a.cell? j :=
  Array.getElem?_push

theorem cell?_eq_none (h : a.size ≤ i) : a.cell? i = none := Array.getElem?_eq_none h

theorem exists_cell? (h : i < a.size) : ∃ c, a.cell? i = some c :=
  ⟨_, Array.getElem?_eq_getElem h⟩

theorem lt_of_cell? (h : a.cell? i = some c) : i < a.size := by
  by_contra hi
  rw [cell?_eq_none (Nat.not_lt.1 hi)] at h
  cases h

theorem eq_of_cell? (hsize : a.size = b.size) (hroot : a.root = b.root)
    (hcell : ∀ i < a.size, a.cell? i = b.cell? i) : a = b := by
  obtain ⟨cells, root⟩ := a
  obtain ⟨cells', root'⟩ := b
  obtain rfl : root = root' := hroot
  replace hsize : cells.size = cells'.size := hsize
  obtain rfl : cells = cells' := Array.ext_getElem? fun i => by
    by_cases hi : i < cells.size
    · exact hcell i hi
    · rw [Array.getElem?_eq_none (Nat.not_lt.1 hi), Array.getElem?_eq_none]
      exact hsize ▸ Nat.not_lt.1 hi
  rfl

theorem modify_congr (h : ∀ c, a.cell? i = some c → f c = g c) : a.modify i f = a.modify i g :=
  eq_of_cell? (by rw [size_modify, size_modify]) rfl fun j _ => by
    rw [cell?_modify, cell?_modify]
    split_ifs with hij
    · subst hij
      exact Option.map_congr h
    · rfl

theorem modify_eq_self (h : ∀ c, a.cell? i = some c → f c = c) : a.modify i f = a :=
  eq_of_cell? size_modify rfl fun j _ => by
    rw [cell?_modify]
    split_ifs with hij
    · subst hij
      exact (Option.map_congr h).trans Option.map_id'
    · rfl

end Arena

namespace Handling

variable {a : Arena} {i : NodeId} {c : Cell}

theorem cell_apply (h : a.cell? i = some c) : cell i a = some (c, a) := by
  change (a.cell? i).bind (fun c => some (c, a)) = _
  rw [h]
  rfl

theorem update_apply (h : i < a.size) (f : Cell → Cell) :
    update i f a = some ((), a.modify i f) := by
  obtain ⟨c, hc⟩ := Arena.exists_cell? h
  rw [update, bind_of_some (cell_apply hc)]
  rfl

theorem create_apply (a : Arena) (info : NodeInfo) :
    create info a = some (a.size, a.push (.ofInfo info)) := rfl

end Handling

namespace Document

open Xml.Tree (numbersAmong)

def cell (d : Document) (i : NodeId) : Cell := ⟨d.node i, d.children i, d.parent? i⟩

def arena (d : Document) : Arena := ⟨.ofFn fun i : Fin d.next => d.cell i, d.root⟩

variable {d d' : Document} {i j c p : NodeId} {t : Tree} {a : Arena}

@[simp] theorem size_arena (d : Document) : d.arena.size = d.next := Array.size_ofFn

@[simp] theorem root_arena (d : Document) : d.arena.root = d.root := rfl

theorem cell?_arena (hi : i < d.next) : d.arena.cell? i = some (d.cell i) := by
  rw [Arena.cell?, arena, Array.getElem?_ofFn]
  exact dif_pos hi

theorem eq_arena (hsize : a.size = d.next) (hroot : a.root = d.root)
    (hcell : ∀ i < d.next, a.cell? i = some (d.cell i)) : a = d.arena :=
  Arena.eq_of_cell? (hsize.trans (size_arena d).symm) hroot fun i hi => by
    rw [hcell i (hsize ▸ hi), cell?_arena (hsize ▸ hi)]

theorem cell_arena (hi : i < d.next) : Handling.cell i d.arena = some (d.cell i, d.arena) :=
  Handling.cell_apply (cell?_arena hi)

section Walks

variable (h : d.Whole) (hi : i < d.next)

include h hi

theorem Whole.anyAbove_steps (q : NodeId → Cell → Bool) {steps : Nat}
    (hsteps : (d.ancestors i).length ≤ steps) :
    d.arena.anyAbove q steps i = some ((d.ancestors i).any fun j => q j (d.cell j)) := by
  induction steps generalizing i with
  | zero =>
    rw [h.sound.ancestors_eq ((h.has_iff i).2 hi)] at hsteps
    cases hsteps
  | succ steps ih =>
    rw [h.sound.ancestors_eq ((h.has_iff i).2 hi)] at hsteps ⊢
    rw [Arena.anyAbove, cell?_arena hi, List.any_cons]
    dsimp only [bind, Option.bind]
    cases hq : q i (d.cell i) with
    | true => rfl
    | false =>
      rw [if_neg Bool.false_ne_true, cell]
      dsimp only
      cases hparent : d.parent? i with
      | none => rfl
      | some p =>
        rw [hparent] at hsteps
        have hp := (h.has_iff p).1 (h.sound.has_of_isParent hparent).2
        exact ih hp (Nat.le_of_succ_le_succ hsteps)

theorem Whole.anyAbove_arena (q : NodeId → Cell → Bool) : Handling.anyAbove q i d.arena =
    some ((d.ancestors i).any fun j => q j (d.cell j), d.arena) := by
  change (d.arena.anyAbove q d.arena.size i).bind (fun b => some (b, d.arena)) = _
  rw [size_arena, h.anyAbove_steps hi q (h.length_ancestors_le hi)]
  rfl

end Walks

section Edits

variable (h : d.Whole)

include h

theorem Whole.create_arena (info : NodeInfo) :
    Handling.create info d.arena = some (d.next, (d.create info).1.arena) := by
  have hleaf : (d.create info).1.Holds (.node d.next (.ofInfo info) []) := List.mem_cons_self
  have hnode := (h.create info).sound.node_eq hleaf
  have hparent : d.parent? d.next = none := h.parent?_eq_none_iff.2 fun p hmem =>
    Nat.lt_irrefl _ (h.lt_of_mem_children hmem).2
  have hkept : d.arena.push (.ofInfo info) = (d.create info).1.arena := by
    refine eq_arena (Arena.size_push.trans ?_) rfl fun i hi => ?_
    · rw [size_arena]
      rfl
    · rw [Arena.cell?_push, size_arena, cell, h.children_create, h.parent?_create]
      by_cases hnew : i = d.next
      · rw [if_pos hnew, hnew, hparent, h.children_of_le (Nat.le_refl _)]
        exact congrArg (fun n => some (⟨n, [], none⟩ : Cell)) hnode.symm
      · rw [if_neg hnew, cell?_arena (Nat.lt_of_le_of_ne (Nat.le_of_lt_succ hi) hnew), cell,
          node_create d info hnew]
  rw [Handling.create_apply, size_arena, hkept]

theorem Whole.update_arena (hi : i < d.next) (g : Node → Node) :
    Handling.update i (fun c => { c with toNode := g c.toNode }) d.arena =
      some ((), (d.modify i (Tree.mapValue g)).arena) := by
  have hset : d.arena.modify i (fun c => { c with toNode := g c.toNode }) =
      (d.modify i (Tree.mapValue g)).arena := by
    refine eq_arena (Arena.size_modify.trans (size_arena d)) rfl fun j hj => ?_
    rw [Arena.cell?_modify, cell?_arena (d := d) hj, cell, cell, h.node_mapValue i g hi,
      h.children_mapValue, h.parent?_mapValue]
    by_cases hij : i = j
    · rw [if_pos hij, if_pos hij.symm]
      rfl
    · rw [if_neg hij, if_neg (Ne.symm hij)]
  rw [Handling.update_apply (by rwa [size_arena]), hset]

theorem Whole.setContent_arena (hi : i < d.next) (s : String) :
    Handling.setContent i s d.arena = some ((), (d.setContent i s).arena) :=
  h.update_arena hi fun n => { n with content := some s }

theorem Whole.children_detach_of_parent? (hparent : d.parent? i ≠ some j) :
    (d.detach i).children j = d.children j := by
  rw [h.children_detach]
  refine List.filter_eq_self.2 fun c hc => decide_eq_true fun heq => hparent ?_
  exact h.parent?_eq_some_iff.2 (heq ▸ hc)

theorem Whole.detach_arena (hi : i < d.next) :
    Handling.detach i d.arena = some ((), (d.detach i).arena) := by
  rw [Handling.detach, bind_of_some (cell_arena hi)]
  dsimp only [cell]
  cases hparent : d.parent? i with
  | none =>
    have hkept : d.arena = (d.detach i).arena := by
      refine eq_arena ?_ (root_detach d i).symm fun j hj => ?_
      · rw [size_arena, next_detach]
      · rw [next_detach] at hj
        rw [cell?_arena hj, cell, cell, h.node_detach,
          h.children_detach_of_parent? (hparent ▸ nofun), h.parent?_detach]
        by_cases hij : j = i
        · rw [if_pos hij, hij, hparent]
        · rw [if_neg hij]
    exact congrArg (fun a => some ((), a)) hkept
  | some p =>
    have hp := (h.lt_of_mem_children (h.parent?_eq_some_iff.1 hparent)).1
    have htaken : (d.arena.modify i fun c => { c with parent := none }).modify p
        (fun c => { c with children := c.children.filter (· ≠ i) }) = (d.detach i).arena := by
      refine eq_arena ?_ (root_detach d i).symm fun j hj => ?_
      · rw [Arena.size_modify, Arena.size_modify, size_arena, next_detach]
      · rw [next_detach] at hj
        rw [Arena.cell?_modify, Arena.cell?_modify, cell?_arena hj, cell, cell, h.node_detach,
          h.parent?_detach]
        by_cases hpj : p = j
        · subst hpj
          rw [if_pos rfl, h.children_detach]
          by_cases hij : i = p
          · rw [if_pos hij, if_pos hij.symm]
            rfl
          · rw [if_neg hij, if_neg (Ne.symm hij)]
            rfl
        · have hother : d.parent? i ≠ some j := fun heq =>
            hpj (Option.some.inj (hparent.symm.trans heq))
          rw [if_neg hpj, h.children_detach_of_parent? hother]
          by_cases hij : i = j
          · rw [if_pos hij, if_pos hij.symm]
            rfl
          · rw [if_neg hij, if_neg (Ne.symm hij)]
    dsimp only
    rw [bind_of_some (Handling.update_apply (by rwa [size_arena]) _),
      Handling.update_apply (by rwa [Arena.size_modify, size_arena]), htaken]

end Edits

section Moving

variable (h : d.Whole)

include h

theorem Whole.leaveScope_arena (hi : i < d.next) (hp : p < d.next) :
    Handling.leaveScope p i d.arena = some ((),
      d.arena.modify i fun c => { c with toNode := leaveScope (d.scope p) c.toNode }) := by
  -- Without such a declaration nothing is written, which is to write the same.
  have hkept (hns : ∀ ns, (d.node i).info.ns = some ns → ns ∉ d.scope p) :
      (d.arena.modify i fun c => { c with toNode := leaveScope (d.scope p) c.toNode }) =
        d.arena := by
    refine Arena.modify_eq_self fun c hc => ?_
    obtain rfl := Option.some.inj ((cell?_arena hi).symm.trans hc)
    exact congrArg (fun n => (⟨n, d.children i, d.parent? i⟩ : Cell)) (leaveScope_eq_self hns)
  rw [Handling.leaveScope, bind_of_some (cell_arena hi)]
  dsimp only [cell]
  cases hns : (d.node i).info.ns with
  | none =>
    rw [hkept fun ns hmem => nomatch hns.symm.trans hmem]
    rfl
  | some ns =>
    have habove : (d.ancestors p).any (fun j => (d.cell j).info.ns == some ns) = true ↔
        ns ∈ d.scope p := by
      rw [h.scope_eq_filterMap, List.any_eq_true, List.mem_filterMap]
      exact exists_congr fun a => and_congr_right fun _ => beq_iff_eq
    dsimp only
    rw [bind_of_some (h.anyAbove_arena hp _)]
    by_cases hmem : ns ∈ d.scope p
    · rw [if_pos (habove.2 hmem), Handling.update_apply (by rwa [size_arena])]
      refine congrArg (fun a => some ((), a)) (Arena.modify_congr fun c hc => ?_)
      obtain rfl := Option.some.inj ((cell?_arena hi).symm.trans hc)
      exact congrArg (fun n => (⟨n, d.children i, d.parent? i⟩ : Cell))
        (leaveScope_of_mem hns hmem).symm
    · have hnone : ∀ ns', (d.node i).info.ns = some ns' → ns' ∉ d.scope p := fun ns' hns' =>
        Option.some.inj (hns.symm.trans hns') ▸ hmem
      rw [if_neg (mt habove.1 hmem), hkept hnone]
      rfl

theorem Whole.link_arena (ht : d.Holds t) (hp : d.Has p) (hbelow : p ∉ t.numbers) :
    Handling.link p t.id d.arena = some ((), (d.link p t.id).arena) := by
  have hi := (h.has_iff t.id).1 ht.has
  have hlt := (h.has_iff p).1 hp
  have hdetached := h.detach t.id
  have hi' : t.id < (d.detach t.id).next := by rwa [next_detach]
  have hlt' : p < (d.detach t.id).next := by rwa [next_detach]
  rw [Handling.link, bind_of_some (h.detach_arena hi),
    bind_of_some (hdetached.leaveScope_arena hi' hlt'),
    bind_of_some (Handling.update_apply (by rwa [Arena.size_modify, size_arena]) _),
    Handling.update_apply (by rwa [Arena.size_modify, Arena.size_modify, size_arena])]
  refine congrArg (fun a => some ((), a)) (eq_arena ?_ ?_ fun j hj => ?_)
  · rw [Arena.size_modify, Arena.size_modify, Arena.size_modify, size_arena, next_detach, next_link]
  · rw [root_link, ← root_detach d t.id]
    rfl
  · have hne : t.id ≠ p := fun heq => hbelow (heq ▸ Tree.mem_numbers_self t)
    rw [next_link, ← next_detach d t.id] at hj
    rw [Arena.cell?_modify, Arena.cell?_modify, Arena.cell?_modify, cell?_arena hj, cell, cell,
      h.children_link ht hp hbelow, h.parent?_link ht hp hbelow, h.node_detach, h.children_detach,
      h.parent?_detach]
    -- The node that moves has a new parent, that one has a new child, all others are as before.
    by_cases hj : j = t.id
    · subst hj
      rw [if_neg (Ne.symm hne), if_pos rfl, if_pos rfl, if_neg hne, if_pos rfl, if_pos rfl,
        List.append_nil, h.node_link_self ht hp hbelow]
      rfl
    · rw [h.node_link ht hp hbelow hj, if_neg (Ne.symm hj), if_neg (Ne.symm hj), if_neg hj,
        if_neg hj]
      by_cases hpj : p = j
      · subst hpj
        rw [if_pos rfl, if_pos rfl]
        rfl
      · rw [if_neg hpj, if_neg (Ne.symm hpj), List.append_nil]

/-- A node is refused where it is the new parent or above it, and nothing has changed then. -/
theorem Whole.appendChild_arena (hp : p < d.next) (hc : c < d.next) :
    Handling.appendChild p c d.arena = match d.appendChild p c with
      | .ok d' => some (.ok (), d'.arena)
      | .error e => some (.error e, d.arena) := by
  have habove : (d.ancestors p).any (fun i => i == c) = true ↔ c ∈ d.ancestors p := by
    rw [List.any_beq']
    exact List.contains_iff_mem
  rw [Handling.appendChild, bind_of_some (h.anyAbove_arena hp _), appendChild]
  by_cases hmem : c ∈ d.ancestors p
  · rw [if_pos (habove.2 hmem), if_pos hmem]
    rfl
  · obtain ⟨t, ht, rfl⟩ := ((h.has_iff c).2 hc).exists_holds
    have hbelow : p ∉ t.numbers := fun hin => hmem (h.sound.mem_ancestors_of_mem_numbers ht hin)
    rw [if_neg (mt habove.1 hmem), if_neg hmem,
      bind_of_some (h.link_arena ht ((h.has_iff p).2 hp) hbelow)]
    rfl

theorem Whole.addChild_arena (hp : p < d.next) (info : NodeInfo) :
    Handling.addChild p info d.arena = some (d.next, (d.addChild p info).1.arena) := by
  obtain ⟨hnew, hp', hbelow⟩ := h.created hp info
  have hlinked : Handling.link p d.next (d.create info).1.arena =
      some ((), (d.addChild p info).1.arena) := (h.create info).link_arena hnew hp' hbelow
  rw [Handling.addChild, bind_of_some (h.create_arena info), bind_of_some hlinked]
  rfl

theorem Whole.addValue_arena (hp : p < d.next) (info : NodeInfo) (s : String) :
    Handling.addValue p info s d.arena =
      some ((), ((d.addChild p info).1.setContent d.next s).arena) := by
  have hnew : d.next < (d.addChild p info).1.next := by
    rw [next_addChild]
    exact Nat.lt_succ_self _
  rw [Handling.addValue, bind_of_some (h.addChild_arena hp info),
    (h.addChild info hp).setContent_arena hnew]

theorem Whole.detachAll_arena {is : List NodeId} (his : ∀ i ∈ is, i < d.next) :
    is.forM Handling.detach d.arena = some ((), (is.foldl Document.detach d).arena) := by
  induction is generalizing d with
  | nil => rfl
  | cons i is ih =>
    rw [List.forall_mem_cons] at his
    change (Handling.detach i >>= fun _ => is.forM Handling.detach) d.arena = _
    rw [bind_of_some (h.detach_arena his.1)]
    exact ih (h.detach i) fun j hj => by rw [next_detach]; exact his.2 j hj

end Moving

section Reads

variable (h : d.Whole) (hi : i < d.next)

include h hi

theorem Whole.family?_arena :
    d.arena.family? i = some ((d.children i).map fun c => (c, d.cell c)) := by
  have hfound : ∀ c ∈ d.children i,
      ((d.arena.cell? c).map fun x => (c, x)) = some (c, d.cell c) := fun c hc => by
    rw [cell?_arena (h.lt_of_mem_children hc).2]
    rfl
  rw [Arena.family?, cell?_arena hi]
  exact mapM_of_forall hfound

theorem Whole.family_arena : Handling.family i d.arena =
    some ((d.children i).map fun c => (c, d.cell c), d.arena) := by
  change (d.arena.family? i).bind (fun l => some (l, d.arena)) = _
  rw [h.family?_arena hi]
  rfl

theorem Whole.childrenMatching_arena (info : NodeInfo) :
    Handling.childrenMatching i info d.arena = some (d.childrenMatching i info, d.arena) := by
  obtain ⟨t, ht, rfl⟩ := ((h.has_iff i).2 hi).exists_holds
  have hlike : t.children.filter (fun u => (d.cell u.id).info.isLike info) =
      t.children.filter (·.value.info.isLike info) := List.filter_congr fun u hu => by
    rw [cell, h.sound.node_eq (ht.child hu)]
  have hmatching : (((d.children t.id).map fun c => (c, d.cell c)).filter
      fun x => x.2.info.isLike info).map Prod.fst = d.childrenMatching t.id info := by
    rw [childrenMatching, h.sound.find? ht, h.sound.children_eq ht, List.map_map, List.filter_map,
      List.map_map]
    exact congrArg (List.map Tree.id) hlike
  rw [Handling.childrenMatching, bind_of_some (h.family_arena hi), ← hmatching]
  rfl

theorem Whole.firstChild?_arena (info : NodeInfo) :
    Handling.firstChild? i info d.arena = some (d.firstChild? i info, d.arena) := by
  rw [Handling.firstChild?, bind_of_some (h.childrenMatching_arena hi info)]
  rfl

omit h hi in
theorem filter_family (d : Document) (i : NodeId) :
    ((d.children i).map fun c => (c, d.cell c)).filter (fun x => x.2.isAt .text) =
      (d.textsOf i).map fun c => (c, d.cell c) := by
  rw [List.filter_map]
  rfl

theorem Whole.text_arena : Handling.text i d.arena = some (d.text i, d.arena) := by
  rw [Handling.text, bind_of_some (cell_arena hi)]
  by_cases hl : (d.node i).info.location = .element
  · rw [h.text_of_element hi hl, cell]
    dsimp only
    rw [hl]
    dsimp only
    rw [bind_of_some (h.family_arena hi), filter_family, List.map_map]
    rfl
  · rw [h.text_of_ne hi hl, cell]
    dsimp only
    cases hloc : (d.node i).info.location with
    | element => contradiction
    | _ => rfl

theorem Whole.setText_arena (s : String) :
    Handling.setText i s d.arena = some ((), (d.setText i s).arena) := by
  rw [Handling.setText, bind_of_some (cell_arena hi), cell]
  dsimp only
  by_cases hl : (d.node i).info.location = .element
  · have hstale : ∀ c ∈ d.textsOf i, c < d.next := fun c hc =>
      (h.lt_of_mem_children (List.mem_of_mem_filter hc)).2
    have hi' : i < (d.cleared i).next := by rwa [next_cleared]
    have hids : ((d.textsOf i).map fun c => (c, d.cell c)).map Prod.fst = d.textsOf i := by
      rw [List.map_map]
      exact List.map_id' _
    have hadded := (h.cleared i).addValue_arena hi' .forText s
    rw [next_cleared] at hadded
    rw [hl, setText_eq hl]
    dsimp only
    rw [bind_of_some (h.family_arena hi), filter_family, hids,
      bind_of_some (h.detachAll_arena hstale), ← Document.cleared, hadded]
  · rw [setText_of_ne hl, ← h.setContent_arena hi]
    cases hloc : (d.node i).info.location with
    | element => contradiction
    | _ => rfl

end Reads

end Document

end ServiceClient.Xml
