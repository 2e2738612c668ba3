import ServiceClient.Proofs.Xml.Output

/-! Nodes that are kept in one array under any sequence of calls. The children of a node and its
parent are stored apart; what keeps them in step is that no call puts a node below itself, so that
the nodes are a forest at all times. -/

namespace ServiceClient.Xml

open Document (Edit)

namespace Handling

def edit : Edit → Handling (Except XmlError Unit)
  | .create info => do
    let _ ← create info
    pure (.ok ())
  | .addChild p info => do
    let _ ← addChild p info
    pure (.ok ())
  | .appendChild p c => appendChild p c
  | .detach i => do
    detach i
    pure (.ok ())
  | .setText i s => do
    setText i s
    pure (.ok ())

end Handling

namespace Arena

def children (a : Arena) (i : NodeId) : List NodeId := ((a.cell? i).map Cell.children).getD []

def parent? (a : Arena) (i : NodeId) : Option NodeId := (a.cell? i).bind Cell.parent

def IsParent (a : Arena) (c p : NodeId) : Prop := a.parent? c = some p

inductive Reached (start : Arena) : Arena → Prop
  | start : Reached start start
  | edit {a a' : Arena} {e : Edit} {r : Except XmlError Unit} (h : Reached start a)
      (he : ∀ i ∈ e.nodes, i < a.size) (hrun : Handling.edit e a = some (r, a')) : Reached start a'

/-- Parents and children agree, all numbers that are stored are those of nodes, nothing is below
itself, and walks up and down come to an end; what is written has no node twice. -/
structure IsForest (a : Arena) : Prop where
  mem_children_iff : ∀ p c, c ∈ a.children p ↔ a.IsParent c p
  nodup_children : ∀ p, (a.children p).Nodup
  root_lt : a.root < a.size
  child_lt : ∀ p, ∀ c ∈ a.children p, c < a.size
  parent_lt : ∀ c p, a.parent? c = some p → p < a.size
  acyclic : ∀ i, ¬ Relation.TransGen a.IsParent i i
  exists_anyAbove : ∀ i < a.size, ∀ q : NodeId → Cell → Bool, ∃ found,
    a.anyAbove q a.size i = some found ∧ (found = true ↔
      ∃ j c, Relation.ReflTransGen a.IsParent i j ∧ a.cell? j = some c ∧ q j c = true)
  exists_output : ∃ out, a.output = some out ∧ out.ids.Nodup

end Arena

namespace Document

variable {d : Document} (h : d.Whole)

include h

theorem Whole.edit_arena {e : Edit} (he : ∀ i ∈ e.nodes, i < d.next) :
    Handling.edit e d.arena = some ((d.edit e).2.elim (.ok ()) .error, (d.edit e).1.arena) := by
  cases e with
  | create info =>
    rw [Handling.edit, bind_of_some (h.create_arena info)]
    rfl
  | addChild p info =>
    rw [Handling.edit, bind_of_some (h.addChild_arena (he p List.mem_cons_self) info)]
    rfl
  | appendChild p c =>
    have hp := he p List.mem_cons_self
    have hc := he c (List.mem_cons_of_mem p List.mem_cons_self)
    rw [Handling.edit, h.appendChild_arena hp hc, Document.edit]
    cases d.appendChild p c <;> rfl
  | detach i =>
    rw [Handling.edit, bind_of_some (h.detach_arena (he i List.mem_cons_self))]
    rfl
  | setText i s =>
    rw [Handling.edit, bind_of_some (h.setText_arena (he i List.mem_cons_self) s)]
    rfl

theorem Whole.children_arena (i : NodeId) : d.arena.children i = d.children i := by
  rw [Arena.children]
  by_cases hi : i < d.next
  · rw [cell?_arena hi]
    rfl
  · rw [Arena.cell?_eq_none (by rwa [size_arena, ← Nat.not_lt]), h.children_of_le (Nat.not_lt.1 hi)]
    rfl

theorem Whole.parent?_arena (i : NodeId) : d.arena.parent? i = d.parent? i := by
  rw [Arena.parent?]
  by_cases hi : i < d.next
  · rw [cell?_arena hi]
    rfl
  · have hnone : d.parent? i = none := h.parent?_eq_none_iff.2 fun p hmem =>
      hi (h.lt_of_mem_children hmem).2
    rw [Arena.cell?_eq_none (by rwa [size_arena, ← Nat.not_lt]), hnone]
    rfl

theorem Whole.isParent_arena : d.arena.IsParent = d.IsParent := by
  funext c p
  rw [Arena.IsParent, h.parent?_arena, IsParent]

theorem Whole.isForest_arena : d.arena.IsForest where
  mem_children_iff p c := by rw [h.children_arena, h.isParent_arena, h.sound.mem_children_iff]
  nodup_children p := h.children_arena p ▸ h.sound.nodup_children p
  root_lt := by rw [size_arena]; exact h.root_lt
  child_lt p c hc := by
    rw [h.children_arena] at hc
    rw [size_arena]
    exact (h.lt_of_mem_children hc).2
  parent_lt c p hp := by
    rw [h.parent?_arena, h.parent?_eq_some_iff] at hp
    rw [size_arena]
    exact (h.lt_of_mem_children hp).1
  acyclic i := h.isParent_arena ▸ h.sound.acyclic i
  exists_anyAbove i hi q := by
    rw [size_arena] at hi ⊢
    refine ⟨_, h.anyAbove_steps hi q (h.length_ancestors_le hi), ?_⟩
    rw [List.any_eq_true, h.isParent_arena]
    refine exists_congr fun j => ?_
    rw [h.sound.mem_ancestors_iff ((h.has_iff i).2 hi)]
    constructor
    · rintro ⟨habove, hq⟩
      have hmem := (h.sound.mem_ancestors_iff ((h.has_iff i).2 hi)).2 habove
      exact ⟨_, habove, cell?_arena (h.lt_of_mem_ancestors hi j hmem), hq⟩
    · rintro ⟨c, habove, hc, hq⟩
      have hmem := (h.sound.mem_ancestors_iff ((h.has_iff i).2 hi)).2 habove
      rw [cell?_arena (h.lt_of_mem_ancestors hi j hmem)] at hc
      exact ⟨habove, Option.some.inj hc ▸ hq⟩
  exists_output := ⟨_, h.output_arena, ((Tree.sublist_written d.rootTree).trans
    (Tree.numbers_sublist_among h.exists_rootTree.1)).nodup h.sound.nodup⟩

theorem Whole.exists_arena_of_reached {a : Arena} (hreached : Arena.Reached d.arena a) :
    ∃ d' : Document, Reached d d' ∧ d'.Whole ∧ a = d'.arena := by
  induction hreached with
  | start => exact ⟨d, .start, h, rfl⟩
  | edit _ he hrun ih =>
    obtain ⟨d', hd', hwhole, rfl⟩ := ih
    rw [size_arena] at he
    rw [hwhole.edit_arena he] at hrun
    exact ⟨_, hd'.edit he, (hwhole.moves_edit he).whole hwhole,
      (congrArg Prod.snd (Option.some.inj hrun)).symm⟩

omit h in
theorem arena_new (root : NodeInfo) : (new root).arena = .new root := rfl

end Document

namespace Arena

variable {a : Arena} {root : NodeInfo}

/-- Whatever is made, moved, taken out or written, the nodes stay a forest. Every call comes to an
end; it can only be refused when it would put a node under itself or one below it, and then nothing
has changed. -/
theorem isForest_of_reached (h : Reached (new root) a) :
    a.IsForest ∧
      (∀ e : Edit, (∀ i ∈ e.nodes, i < a.size) → ∃ r a', Handling.edit e a = some (r, a') ∧
        ∀ fault, r = .error fault → fault = .cyclicMove ∧ a' = a) ∧
      ∀ p < a.size, ∀ c < a.size, ((∃ a', Handling.appendChild p c a =
        some (.error .cyclicMove, a')) ↔ Relation.ReflTransGen a.IsParent p c) := by
  rw [← Document.arena_new] at h
  obtain ⟨d, -, hwhole, rfl⟩ := (Document.whole_new root).exists_arena_of_reached h
  refine ⟨hwhole.isForest_arena, fun e he => ?_, fun p hp c hc => ?_⟩
  · rw [Document.size_arena] at he
    refine ⟨_, _, hwhole.edit_arena he, fun fault hfault => ?_⟩
    cases hanswer : (d.edit e).2 with
    | none =>
      rw [hanswer] at hfault
      cases hfault
    | some fault' =>
      rw [hanswer] at hfault
      obtain ⟨hsame, hcyclic, _⟩ := Document.edit_of_fault hanswer
      exact ⟨(Except.error.inj hfault).symm.trans hcyclic, congrArg Document.arena hsame⟩
  · rw [Document.size_arena] at hp hc
    rw [hwhole.isParent_arena, ← hwhole.appendChild_eq_error_iff hp, hwhole.appendChild_arena hp hc]
    cases happend : d.appendChild p c with
    | ok d' => exact iff_of_false (fun ⟨a', ha'⟩ => nomatch ha') nofun
    | error fault =>
      constructor
      · rintro ⟨a', ha'⟩
        exact congrArg Except.error (Except.error.inj (Prod.mk.inj (Option.some.inj ha')).1)
      · intro hfault
        rw [Except.error.inj hfault]
        exact ⟨_, rfl⟩

def after (a : Arena) (e : Edit) : Arena := ((Handling.edit e a).map Prod.snd).getD a

theorem Reached.after {start : Arena} {e : Edit} (h : Reached start a)
    (he : ∀ i ∈ e.nodes, i < a.size) (hrun : (Handling.edit e a).isSome) :
    Reached start (a.after e) := by
  obtain ⟨⟨r, a'⟩, hrun⟩ := Option.isSome_iff_exists.1 hrun
  refine h.edit he (r := r) ?_
  rw [Arena.after, hrun]
  rfl

/-- A leaf that has moved from one branch to the other, and the first branch below that leaf; the
other branch is refused below it. -/
def moved : Arena :=
  [.addChild 0 (.forElement "Branch"), .addChild 0 (.forElement "Branch"),
    .addChild 1 (.forElement "Leaf"), .appendChild 2 3, .detach 1, .appendChild 3 1,
    .setText 3 "t", .appendChild 3 2].foldl after (new (.forElement "Root"))

theorem isForest_of_reached_moved : Reached (new (.forElement "Root")) moved ∧ moved.IsForest ∧
    moved.cells.toList.map (fun c => (c.children, c.parent)) =
      [([2], none), ([], some 3), ([3], some 0), ([1, 4], some 2), ([], some 3)] ∧
    Handling.appendChild 1 2 moved = some (.error .cyclicMove, moved) := by
  have h : Reached (new (.forElement "Root")) moved := by
    rw [moved]
    dsimp only [List.foldl]
    iterate 8 refine .after ?_ (by decide) (by decide)
    exact .start
  obtain ⟨hforest, _, hcyclic⟩ := isForest_of_reached h
  exact ⟨h, hforest, by decide, rfl⟩

end Arena

end ServiceClient.Xml
