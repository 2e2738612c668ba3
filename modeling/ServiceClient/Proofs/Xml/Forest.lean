import Mathlib.Data.List.Nodup
import Mathlib.Data.List.Perm.Basic
import ServiceClient.Xml.Document

/-! Numbered trees. Where no number occurs twice, a search by number finds the one tree with it, and
what is changed or taken out at a number leaves all else alone. -/

namespace ServiceClient.Xml

namespace Tree

mutual

def nodes : Tree → List Tree
  | .node i value children => .node i value children :: nodesAmong children

def nodesAmong : List Tree → List Tree
  | [] => []
  | t :: ts => t.nodes ++ nodesAmong ts

end

def numbers (t : Tree) : List NodeId := t.nodes.map Tree.id

def numbersAmong (ts : List Tree) : List NodeId := (nodesAmong ts).map Tree.id

def label (t : Tree) : NodeId × Node := (t.id, t.value)

def labels (t : Tree) : List (NodeId × Node) := t.nodes.map Tree.label

def labelsAmong (ts : List Tree) : List (NodeId × Node) := (nodesAmong ts).map Tree.label

def addAll (ts : List Tree) : Tree → Tree
  | .node i value children => .node i value (children ++ ts)

theorem nodesAmong_append (ts us : List Tree) :
    nodesAmong (ts ++ us) = nodesAmong ts ++ nodesAmong us := by
  induction ts with
  | nil => rfl
  | cons t ts ih => rw [List.cons_append, nodesAmong, ih, nodesAmong, List.append_assoc]

section Numbers

variable (i : NodeId) (value : Node) (t : Tree) (ts us : List Tree)

theorem numbers_node : (Tree.node i value ts).numbers = i :: numbersAmong ts := by
  rw [numbers, nodes, List.map_cons]
  rfl

theorem numbersAmong_nil : numbersAmong [] = [] := rfl

theorem numbersAmong_cons : numbersAmong (t :: ts) = t.numbers ++ numbersAmong ts := by
  rw [numbersAmong, nodesAmong, List.map_append]
  rfl

theorem numbersAmong_append : numbersAmong (ts ++ us) = numbersAmong ts ++ numbersAmong us := by
  rw [numbersAmong, nodesAmong_append, List.map_append]
  rfl

theorem numbersAmong_singleton : numbersAmong [t] = t.numbers := by
  rw [numbersAmong_cons, numbersAmong_nil, List.append_nil]

theorem labels_node : (Tree.node i value ts).labels = (i, value) :: labelsAmong ts := by
  rw [labels, nodes, List.map_cons]
  rfl

theorem labelsAmong_cons : labelsAmong (t :: ts) = t.labels ++ labelsAmong ts := by
  rw [labelsAmong, nodesAmong, List.map_append]
  rfl

theorem labelsAmong_append : labelsAmong (ts ++ us) = labelsAmong ts ++ labelsAmong us := by
  rw [labelsAmong, nodesAmong_append, List.map_append]
  rfl

theorem labelsAmong_singleton : labelsAmong [t] = t.labels := by
  rw [labelsAmong_cons]
  exact List.append_nil _

theorem map_fst_labels : t.labels.map Prod.fst = t.numbers := List.map_map

theorem map_fst_labelsAmong : (labelsAmong ts).map Prod.fst = numbersAmong ts := List.map_map

theorem mem_nodes_self : t ∈ t.nodes := by
  cases t
  rw [nodes]
  exact List.mem_cons_self

theorem mem_numbers_self : t.id ∈ t.numbers := List.mem_map_of_mem (mem_nodes_self t)

theorem addLast_eq_addAll : addLast t = addAll [t] := by
  funext u
  cases u
  rfl

theorem addAll_nil : addAll [] t = t := by
  cases t
  rw [addAll, List.append_nil]

theorem addAll_addAll : addAll us (addAll ts t) = addAll (ts ++ us) t := by
  cases t
  rw [addAll, addAll, addAll, List.append_assoc]

end Numbers

section Nodes

theorem nodes_subset_nodesAmong {t : Tree} {ts : List Tree} (ht : t ∈ ts) :
    ∀ u ∈ t.nodes, u ∈ nodesAmong ts := by
  intro u hu
  induction ts with
  | nil => cases ht
  | cons s ss ih =>
    rw [nodesAmong, List.mem_append]
    rcases List.mem_cons.1 ht with rfl | ht
    · exact .inl hu
    · exact .inr (ih ht)

mutual

theorem child_mem_nodes {t u : Tree} (ht : t ∈ u.children) :
    ∀ s : Tree, u ∈ s.nodes → t ∈ s.nodes
  | .node i value children, hu => by
    rw [nodes, List.mem_cons] at hu ⊢
    rcases hu with rfl | hu
    · exact .inr (nodes_subset_nodesAmong ht t (mem_nodes_self t))
    · exact .inr (child_mem_nodesAmong ht children hu)

theorem child_mem_nodesAmong {t u : Tree} (ht : t ∈ u.children) :
    ∀ ss : List Tree, u ∈ nodesAmong ss → t ∈ nodesAmong ss
  | [], hu => nomatch hu
  | s :: ss, hu => by
    rw [nodesAmong, List.mem_append] at hu ⊢
    rcases hu with hu | hu
    · exact .inl (child_mem_nodes ht s hu)
    · exact .inr (child_mem_nodesAmong ht ss hu)

end

mutual

theorem find?_eq_find? (i : NodeId) : ∀ t : Tree, t.find? i = t.nodes.find? (·.id == i)
  | .node j value children => by
    rw [find?, nodes]
    by_cases h : j = i
    · rw [if_pos h, List.find?_cons_of_pos]
      exact beq_iff_eq.2 h
    · rw [if_neg h, List.find?_cons_of_neg, findAmong?_eq_find? i children]
      exact fun heq => h (beq_iff_eq.1 heq)

theorem findAmong?_eq_find? (i : NodeId) :
    ∀ ts : List Tree, findAmong? i ts = (nodesAmong ts).find? (·.id == i)
  | [] => rfl
  | t :: ts => by
    rw [findAmong?, nodesAmong, List.find?_append, find?_eq_find? i t, findAmong?_eq_find? i ts]
    cases t.nodes.find? (·.id == i) <;> rfl

end

theorem findAmong?_of_mem {ts : List Tree} (h : (numbersAmong ts).Nodup) {t : Tree}
    (ht : t ∈ nodesAmong ts) : findAmong? t.id ts = some t := by
  rw [numbersAmong] at h
  rw [findAmong?_eq_find?]
  generalize nodesAmong ts = l at h ht
  induction l with
  | nil => cases ht
  | cons a l ih =>
    rw [List.map_cons, List.nodup_cons] at h
    rcases List.mem_cons.1 ht with rfl | ht
    · exact List.find?_cons_of_pos (beq_self_eq_true _)
    · have hne : ¬ (a.id == t.id) = true := fun heq =>
        h.1 (beq_iff_eq.1 heq ▸ List.mem_map_of_mem ht)
      rw [List.find?_cons_of_neg (p := fun u : Tree => u.id == t.id) hne]
      exact ih h.2 ht

end Nodes

section Absent

variable {i : NodeId}

mutual

theorem modify_of_notMem (f : Tree → Tree) : ∀ t : Tree, i ∉ t.numbers → t.modify i f = t
  | .node j value children, h => by
    rw [numbers_node, List.mem_cons, not_or] at h
    rw [modify, if_neg (Ne.symm h.1), modifyAmong_of_notMem f children h.2]

theorem modifyAmong_of_notMem (f : Tree → Tree) :
    ∀ ts : List Tree, i ∉ numbersAmong ts → modifyAmong i f ts = ts
  | [], _ => rfl
  | t :: ts, h => by
    rw [numbersAmong_cons, List.mem_append, not_or] at h
    rw [modifyAmong, modify_of_notMem f t h.1, modifyAmong_of_notMem f ts h.2]

end

mutual

theorem prune_of_notMem : ∀ t : Tree, i ∉ t.numbers → t.prune i = t
  | .node j value children, h => by
    rw [numbers_node, List.mem_cons, not_or] at h
    rw [prune, pruneAmong_of_notMem children h.2]

theorem pruneAmong_of_notMem : ∀ ts : List Tree, i ∉ numbersAmong ts → pruneAmong i ts = ts
  | [], _ => rfl
  | t :: ts, h => by
    rw [numbersAmong_cons, List.mem_append, not_or] at h
    have ht : t.id ≠ i := fun heq => h.1 (heq ▸ mem_numbers_self t)
    rw [pruneAmong, if_neg ht, prune_of_notMem t h.1, pruneAmong_of_notMem ts h.2]

end

mutual

theorem path?_of_notMem : ∀ t : Tree, i ∉ t.numbers → t.path? i = none
  | .node j value children, h => by
    rw [numbers_node, List.mem_cons, not_or] at h
    rw [path?, if_neg (Ne.symm h.1), pathAmong?_of_notMem children h.2]
    rfl

theorem pathAmong?_of_notMem : ∀ ts : List Tree, i ∉ numbersAmong ts → pathAmong? i ts = none
  | [], _ => rfl
  | t :: ts, h => by
    rw [numbersAmong_cons, List.mem_append, not_or] at h
    rw [pathAmong?, path?_of_notMem t h.1, pathAmong?_of_notMem ts h.2]

end

theorem modifyAmong_append (f : Tree → Tree) (ts us : List Tree) :
    modifyAmong i f (ts ++ us) = modifyAmong i f ts ++ modifyAmong i f us := by
  induction ts with
  | nil => rfl
  | cons t ts ih => rw [List.cons_append, modifyAmong, ih, modifyAmong, List.cons_append]

theorem pruneAmong_append (ts us : List Tree) :
    pruneAmong i (ts ++ us) = pruneAmong i ts ++ pruneAmong i us := by
  induction ts with
  | nil => rfl
  | cons t ts ih =>
    rw [List.cons_append, pruneAmong, ih, pruneAmong]
    split_ifs <;> rfl

theorem pathAmong?_append_of_notMem {ts : List Tree} (h : i ∉ numbersAmong ts) (us : List Tree) :
    pathAmong? i (ts ++ us) = pathAmong? i us := by
  induction ts with
  | nil => rfl
  | cons t ts ih =>
    rw [numbersAmong_cons, List.mem_append, not_or] at h
    rw [List.cons_append, pathAmong?, path?_of_notMem t h.1, ih h.2]

end Absent

section Growing

variable {i c : NodeId}

mutual

theorem modify_addAll_addAll (ts us : List Tree) : ∀ t : Tree,
    (t.modify i (addAll ts)).modify i (addAll us) = t.modify i (addAll (ts ++ us))
  | .node j value children => by
    by_cases h : j = i
    · rw [modify, if_pos h, modify, if_pos h, addAll, modify, if_pos h, ← addAll, addAll_addAll]
    · rw [modify, if_neg h, modify, if_neg h, modify, if_neg h,
        modifyAmong_addAll_addAll ts us children]

theorem modifyAmong_addAll_addAll (ts us : List Tree) : ∀ vs : List Tree,
    modifyAmong i (addAll us) (modifyAmong i (addAll ts) vs) = modifyAmong i (addAll (ts ++ us)) vs
  | [] => rfl
  | v :: vs => by
    rw [modifyAmong, modifyAmong, modifyAmong, modify_addAll_addAll ts us v,
      modifyAmong_addAll_addAll ts us vs]

end

mutual

theorem modify_addAll_nil : ∀ t : Tree, t.modify i (addAll []) = t
  | .node j value children => by
    rw [modify, addAll_nil, modifyAmong_addAll_nil children, ite_self]

theorem modifyAmong_addAll_nil : ∀ ts : List Tree, modifyAmong i (addAll []) ts = ts
  | [] => rfl
  | t :: ts => by rw [modifyAmong, modify_addAll_nil t, modifyAmong_addAll_nil ts]

end

mutual

theorem mem_nodes_addAll {u : Tree} {us : List Tree} (hu : u ∈ us) : ∀ t : Tree, i ∈ t.numbers →
    u ∈ (t.modify i (addAll us)).nodes
  | .node j value children, hi => by
    by_cases h : j = i
    · rw [modify, if_pos h, addAll, nodes, List.mem_cons]
      exact .inr (nodes_subset_nodesAmong (List.mem_append_right _ hu) u (mem_nodes_self u))
    · rw [numbers_node] at hi
      have hi : i ∈ numbersAmong children := (List.mem_cons.1 hi).resolve_left (Ne.symm h)
      rw [modify, if_neg h, nodes, List.mem_cons]
      exact .inr (mem_nodesAmong_addAll hu children hi)

theorem mem_nodesAmong_addAll {u : Tree} {us : List Tree} (hu : u ∈ us) : ∀ ts : List Tree,
    i ∈ numbersAmong ts → u ∈ nodesAmong (modifyAmong i (addAll us) ts)
  | [], hi => nomatch hi
  | t :: ts, hi => by
    rw [numbersAmong_cons, List.mem_append] at hi
    rw [modifyAmong, nodesAmong, List.mem_append]
    rcases hi with hi | hi
    · exact .inl (mem_nodes_addAll hu t hi)
    · exact .inr (mem_nodesAmong_addAll hu ts hi)

end

mutual

theorem isSome_path? : ∀ t : Tree, i ∈ t.numbers → (t.path? i).isSome
  | .node j value children, hi => by
    by_cases h : j = i
    · rw [path?, if_pos h]
      rfl
    · rw [numbers_node] at hi
      have hi : i ∈ numbersAmong children := (List.mem_cons.1 hi).resolve_left (Ne.symm h)
      rw [path?, if_neg h, Option.isSome_map]
      exact isSome_pathAmong? children hi

theorem isSome_pathAmong? : ∀ ts : List Tree, i ∈ numbersAmong ts → (pathAmong? i ts).isSome
  | [], hi => nomatch hi
  | t :: ts, hi => by
    rw [numbersAmong_cons, List.mem_append] at hi
    rw [pathAmong?]
    rcases hi with hi | hi
    · obtain ⟨p, hp⟩ := Option.isSome_iff_exists.1 (isSome_path? t hi)
      rw [hp]
      rfl
    · cases t.path? i with
      | none => exact isSome_pathAmong? ts hi
      | some p => rfl

end

section Leaf

variable {v : Node} {us : List Tree}

mutual

theorem modify_addAll_leaf {f : Tree → Tree} : ∀ t : Tree, c ∉ t.numbers →
    (t.modify i (addAll [.node c v us])).modify c f = t.modify i (addAll [f (.node c v us)])
  | .node j value children, h => by
    rw [numbers_node, List.mem_cons, not_or] at h
    by_cases hj : j = i
    · rw [modify, if_pos hj, addAll, modify, if_neg (Ne.symm h.1), modifyAmong_append,
        modifyAmong_of_notMem f children h.2, modifyAmong, modify, if_pos rfl, modify, if_pos hj]
      rfl
    · rw [modify, if_neg hj, modify, if_neg (Ne.symm h.1), modify, if_neg hj,
        modifyAmong_addAll_leaf children h.2]

theorem modifyAmong_addAll_leaf {f : Tree → Tree} : ∀ ts : List Tree, c ∉ numbersAmong ts →
    modifyAmong c f (modifyAmong i (addAll [.node c v us]) ts) =
      modifyAmong i (addAll [f (.node c v us)]) ts
  | [], _ => rfl
  | t :: ts, h => by
    rw [numbersAmong_cons, List.mem_append, not_or] at h
    rw [modifyAmong, modifyAmong, modifyAmong, modify_addAll_leaf t h.1,
      modifyAmong_addAll_leaf ts h.2]

end

mutual

theorem prune_addAll_leaf : ∀ t : Tree, c ∉ t.numbers →
    (t.modify i (addAll [.node c v us])).prune c = t
  | .node j value children, h => by
    rw [numbers_node, List.mem_cons, not_or] at h
    by_cases hj : j = i
    · rw [modify, if_pos hj, addAll, prune, pruneAmong_append, pruneAmong_of_notMem children h.2,
        pruneAmong, if_pos (Tree.id.eq_1 c v us), pruneAmong, List.append_nil]
    · rw [modify, if_neg hj, prune, pruneAmong_addAll_leaf children h.2]

theorem pruneAmong_addAll_leaf : ∀ ts : List Tree, c ∉ numbersAmong ts →
    pruneAmong c (modifyAmong i (addAll [.node c v us]) ts) = ts
  | [], _ => rfl
  | t :: ts, h => by
    rw [numbersAmong_cons, List.mem_append, not_or] at h
    have ht : (t.modify i (addAll [.node c v us])).id = t.id := by
      cases t
      rw [modify]
      split_ifs <;> rfl
    have hne : (t.modify i (addAll [.node c v us])).id ≠ c := fun heq =>
      h.1 (heq ▸ ht ▸ mem_numbers_self t)
    rw [modifyAmong, pruneAmong, if_neg hne, prune_addAll_leaf t h.1, pruneAmong_addAll_leaf ts h.2]

end

mutual

theorem values_path?_leaf : ∀ t : Tree, c ∉ t.numbers →
    ((t.modify i (addAll [.node c v us])).path? c).map (List.map value) =
      (t.path? i).map fun p => v :: p.map value
  | .node j value children, hc => by
    rw [numbers_node, List.mem_cons, not_or] at hc
    by_cases h : j = i
    · have hleaf : pathAmong? c (children ++ [.node c v us]) = some [.node c v us] := by
        rw [pathAmong?_append_of_notMem hc.2, pathAmong?, path?, if_pos rfl]
      rw [modify, if_pos h, addAll, path?, if_neg (Ne.symm hc.1), hleaf, path?, if_pos h]
      rfl
    · rw [modify, if_neg h, path?, if_neg (Ne.symm hc.1), path?, if_neg h]
      have hih := values_pathAmong?_leaf children hc.2
      cases hp : pathAmong? i children with
      | none =>
        rw [hp, Option.map_none, Option.map_eq_none_iff] at hih
        rw [hih]
        rfl
      | some p =>
        rw [hp] at hih
        obtain ⟨q, hq, hvalues⟩ := Option.map_eq_some_iff.1 hih
        simp only [hq, Option.map_some, List.map_append, hvalues]
        rfl

theorem values_pathAmong?_leaf : ∀ ts : List Tree, c ∉ numbersAmong ts →
    (pathAmong? c (modifyAmong i (addAll [.node c v us]) ts)).map (List.map value) =
      (pathAmong? i ts).map fun p => v :: p.map value
  | [], _ => rfl
  | t :: ts, hc => by
    rw [numbersAmong_cons, List.mem_append, not_or] at hc
    have ht := values_path?_leaf t hc.1
    rw [modifyAmong, pathAmong?, pathAmong?]
    cases hp : t.path? i with
    | none =>
      rw [hp, Option.map_none, Option.map_eq_none_iff] at ht
      rw [ht]
      exact values_pathAmong?_leaf ts hc.2
    | some p =>
      rw [hp] at ht
      obtain ⟨q, hq, hvalues⟩ := Option.map_eq_some_iff.1 ht
      rw [hq]
      exact congrArg some hvalues

end

end Leaf

mutual

theorem labels_modify_addAll (us : List Tree) : ∀ t : Tree, i ∈ t.numbers → t.numbers.Nodup →
    (t.modify i (addAll us)).labels.Perm (t.labels ++ labelsAmong us)
  | .node j value children, hi, hnodup => by
    rw [numbers_node] at hi hnodup
    by_cases h : j = i
    · rw [modify, if_pos h, addAll, labels_node, labelsAmong_append, labels_node]
      exact .rfl
    · have hi : i ∈ numbersAmong children := (List.mem_cons.1 hi).resolve_left (Ne.symm h)
      rw [modify, if_neg h, labels_node, labels_node]
      exact (labelsAmong_modify_addAll us children hi (List.nodup_cons.1 hnodup).2).cons _

theorem labelsAmong_modify_addAll (us : List Tree) : ∀ ts : List Tree, i ∈ numbersAmong ts →
    (numbersAmong ts).Nodup →
      (labelsAmong (modifyAmong i (addAll us) ts)).Perm (labelsAmong ts ++ labelsAmong us)
  | [], hi, _ => nomatch hi
  | t :: ts, hi, hnodup => by
    rw [numbersAmong_cons] at hi hnodup
    rw [modifyAmong, labelsAmong_cons, labelsAmong_cons]
    obtain ⟨ht, hts, hdisjoint⟩ := List.nodup_append.1 hnodup
    rcases List.mem_append.1 hi with hi | hi
    · have hrest : i ∉ numbersAmong ts := fun hmem => hdisjoint i hi i hmem rfl
      rw [modifyAmong_of_notMem _ ts hrest]
      refine ((labels_modify_addAll us t hi ht).append_right (labelsAmong ts)).trans ?_
      rw [List.append_assoc, List.append_assoc]
      exact List.perm_append_comm.append_left _
    · have hfirst : i ∉ t.numbers := fun hmem => hdisjoint i hmem i hi rfl
      rw [modify_of_notMem _ t hfirst, List.append_assoc]
      exact (labelsAmong_modify_addAll us ts hi hts).append_left _

end

theorem numbersAmong_modify_addAll (us ts : List Tree) (hi : i ∈ numbersAmong ts)
    (h : (numbersAmong ts).Nodup) :
    (numbersAmong (modifyAmong i (addAll us) ts)).Perm (numbersAmong ts ++ numbersAmong us) := by
  have hlabels := (labelsAmong_modify_addAll us ts hi h).map Prod.fst
  rwa [List.map_append, map_fst_labelsAmong, map_fst_labelsAmong, map_fst_labelsAmong] at hlabels

mutual

theorem values_path?_modify (us : List Tree) : ∀ t : Tree,
    ((t.modify i (addAll us)).path? i).map (List.map value) = (t.path? i).map (List.map value)
  | .node j value children => by
    by_cases h : j = i
    · rw [modify, if_pos h, addAll, path?, if_pos h, path?, if_pos h]
      rfl
    · rw [modify, if_neg h, path?, if_neg h, path?, if_neg h]
      have hih := values_pathAmong?_modify us children
      cases hp : pathAmong? i children with
      | none =>
        rw [hp, Option.map_none, Option.map_eq_none_iff] at hih
        rw [hih]
        rfl
      | some p =>
        rw [hp] at hih
        obtain ⟨q, hq, hvalues⟩ := Option.map_eq_some_iff.1 hih
        simp only [hq, Option.map_some, List.map_append, hvalues]
        rfl

theorem values_pathAmong?_modify (us : List Tree) : ∀ ts : List Tree,
    (pathAmong? i (modifyAmong i (addAll us) ts)).map (List.map value) =
      (pathAmong? i ts).map (List.map value)
  | [] => rfl
  | t :: ts => by
    have ht := values_path?_modify us t
    rw [modifyAmong, pathAmong?, pathAmong?]
    cases hp : t.path? i with
    | none =>
      rw [hp, Option.map_none, Option.map_eq_none_iff] at ht
      rw [ht]
      exact values_pathAmong?_modify us ts
    | some p =>
      rw [hp] at ht
      obtain ⟨q, hq, hvalues⟩ := Option.map_eq_some_iff.1 ht
      rw [hq]
      exact congrArg some hvalues

end

end Growing

end Tree

end ServiceClient.Xml
