import Mathlib.Data.List.TakeWhile
import ServiceClient.Text.Blank

/-! Text without blanks stays as it is when blanks are dropped, and a list splits at the first item
that has been put between two parts. -/

namespace ServiceClient.Text

-- Before the instance that would try all characters there are.
instance (priority := high) decidableForallMem {p : Char → Prop} [DecidablePred p]
    (cs : List Char) : Decidable (∀ c ∈ cs, p c) :=
  List.decidableBAll p cs

variable {α : Type} {p : α → Bool}

theorem dropWhile_of_stops {l : List α} (h : ∀ a ∈ l.head?, p a = false) : l.dropWhile p = l := by
  cases l with
  | nil => rfl
  | cons a l => rw [List.dropWhile_cons_of_neg (by simp [h a rfl])]

theorem dropWhile_of_solid {l : List α} (h : ∀ a ∈ l, p a = false) : l.dropWhile p = l :=
  dropWhile_of_stops fun a ha => h a (List.mem_of_mem_head? ha)

theorem stripBoth_of_ends {l : List α} (hfirst : ∀ a ∈ l.head?, p a = false)
    (hlast : ∀ a ∈ l.getLast?, p a = false) : stripBoth p l = l := by
  rw [stripBoth, dropWhile_of_stops hfirst, dropWhile_of_stops, List.reverse_reverse]
  rwa [List.head?_reverse]

theorem stripBoth_of_solid {l : List α} (h : ∀ a ∈ l, p a = false) : stripBoth p l = l := by
  rw [stripBoth, dropWhile_of_solid h, dropWhile_of_solid fun a ha => h a (List.mem_reverse.1 ha),
    List.reverse_reverse]

theorem trim_of_solid {s : String} (h : ∀ c ∈ s.toList, isBlank c = false) : trim s = s := by
  rw [trim, stripBoth_of_solid h, String.ofList_toList]

theorem trim_of_ends {s : String} (hfirst : ∀ c ∈ s.toList.head?, isBlank c = false)
    (hlast : ∀ c ∈ s.toList.getLast?, isBlank c = false) : trim s = s := by
  rw [trim, stripBoth_of_ends hfirst hlast, String.ofList_toList]

theorem stops_append {x y : List α} {a : α} (h : y.getLast? = some a) (ha : p a = false) :
    ∀ b ∈ (x ++ y).getLast?, p b = false := by
  rw [List.getLast?_append, h]
  rintro b ⟨⟩
  exact ha

theorem stripBoth_eq_nil_iff {l : List α} : stripBoth p l = [] ↔ ∀ a ∈ l, p a = true := by
  rw [stripBoth, List.reverse_eq_nil_iff, List.dropWhile_eq_nil_iff]
  constructor
  · intro h a ha
    rw [← List.takeWhile_append_dropWhile (p := p) (l := l), List.mem_append] at ha
    rcases ha with ha | ha
    · exact List.mem_takeWhile_imp ha
    · exact h a (List.mem_reverse.2 ha)
  · intro h a ha
    exact h a ((List.dropWhile_suffix p).subset (List.mem_reverse.1 ha))

theorem trim_eq_empty_iff {s : String} : trim s = "" ↔ allBlank s = true := by
  rw [trim, ← String.toList_inj, String.toList_ofList, allBlank, List.all_eq_true]
  exact stripBoth_eq_nil_iff

theorem splitFirst?_append {x y : List α} {a : α} (hx : ∀ b ∈ x, p b = false) (ha : p a = true) :
    splitFirst? p (x ++ a :: y) = some (x, y) := by
  induction x with
  | nil => simp [splitFirst?, ha]
  | cons b x ih =>
    have hb := hx b List.mem_cons_self
    have hrest := ih fun c hc => hx c (List.mem_cons_of_mem b hc)
    simp [splitFirst?, hb, hrest]

theorem splitFirst?_of_solid {l : List α} (h : ∀ a ∈ l, p a = false) : splitFirst? p l = none := by
  induction l with
  | nil => rfl
  | cons a l ih =>
    have ha := h a List.mem_cons_self
    have hrest := ih fun b hb => h b (List.mem_cons_of_mem a hb)
    simp [splitFirst?, ha, hrest]

theorem solid_of_splitFirst? {l x y : List α}
    (h : splitFirst? p l = some (x, y)) : ∀ a ∈ x, p a = false := by
  induction l generalizing x with
  | nil => cases h
  | cons a l ih =>
    rw [splitFirst?] at h
    split_ifs at h with ha
    · obtain ⟨rfl, -⟩ := Prod.mk.inj (Option.some.inj h)
      exact fun a ha => absurd ha List.not_mem_nil
    · obtain ⟨⟨x', y'⟩, hmore, heq⟩ := Option.map_eq_some_iff.1 h
      obtain ⟨rfl, rfl⟩ := Prod.mk.inj heq
      exact List.forall_mem_cons.2 ⟨by simpa using ha, ih hmore⟩

theorem append_of_splitLast? {l x y : List α} (h : splitLast? p l = some (x, y)) :
    ∃ a, p a = true ∧ l = x ++ a :: y := by
  induction l generalizing x with
  | nil => cases h
  | cons b l ih =>
    rw [splitLast?] at h
    cases hmore : splitLast? p l with
    | some parts =>
      obtain ⟨x', y'⟩ := parts
      simp only [hmore, Option.some.injEq, Prod.mk.injEq] at h
      obtain ⟨rfl, rfl⟩ := h
      obtain ⟨a, ha, rfl⟩ := ih hmore
      exact ⟨a, ha, rfl⟩
    | none =>
      simp only [hmore] at h
      split_ifs at h with hb
      obtain ⟨rfl, rfl⟩ := Prod.mk.inj (Option.some.inj h)
      exact ⟨b, hb, rfl⟩

theorem splitLast?_of_solid {l : List α} (h : ∀ a ∈ l, p a = false) : splitLast? p l = none := by
  induction l with
  | nil => rfl
  | cons a l ih =>
    rw [splitLast?, ih fun b hb => h b (List.mem_cons_of_mem a hb)]
    simp [h a List.mem_cons_self]

theorem solid_of_splitLast?_eq_none {l : List α} (h : splitLast? p l = none) :
    ∀ a ∈ l, p a = false := by
  induction l with
  | nil => exact fun a ha => absurd ha List.not_mem_nil
  | cons b l ih =>
    rw [splitLast?] at h
    cases hmore : splitLast? p l with
    | some parts => simp [hmore] at h
    | none =>
      simp only [hmore] at h
      split_ifs at h with hb
      exact List.forall_mem_cons.2 ⟨by simpa using hb, ih hmore⟩

theorem solid_of_splitLast? {l x y : List α} (h : splitLast? p l = some (x, y)) :
    ∀ a ∈ y, p a = false := by
  induction l generalizing x with
  | nil => cases h
  | cons b l ih =>
    rw [splitLast?] at h
    cases hmore : splitLast? p l with
    | some parts =>
      obtain ⟨x', y'⟩ := parts
      simp only [hmore, Option.some.injEq, Prod.mk.injEq] at h
      obtain ⟨-, rfl⟩ := h
      exact ih hmore
    | none =>
      simp only [hmore] at h
      split_ifs at h with hb
      obtain ⟨-, rfl⟩ := Prod.mk.inj (Option.some.inj h)
      exact solid_of_splitLast?_eq_none hmore

theorem splitLast?_append {x y : List α} {a : α} (hy : ∀ b ∈ y, p b = false) (ha : p a = true) :
    splitLast? p (x ++ a :: y) = some (x, y) := by
  induction x with
  | nil => simp [splitLast?, splitLast?_of_solid hy, ha]
  | cons b x ih => simp [splitLast?, ih]

theorem takeWhile_append_of_stops {x y : List α} (hx : ∀ a ∈ x, p a = true)
    (hy : ∀ a ∈ y.head?, p a = false) : (x ++ y).takeWhile p = x := by
  rw [List.takeWhile_append_of_pos hx]
  cases y with
  | nil => simp
  | cons a y => rw [List.takeWhile_cons_of_neg (by simp [hy a rfl]), List.append_nil]

theorem drop_length_takeWhile (p : α → Bool) (l : List α) :
    l.drop (l.takeWhile p).length = l.dropWhile p := by
  have h : (l.takeWhile p ++ l.dropWhile p).drop (l.takeWhile p).length = l.dropWhile p :=
    List.drop_left
  rwa [List.takeWhile_append_dropWhile] at h

theorem stops_dropWhile {l : List α} : ∀ a ∈ (l.dropWhile p).head?, p a = false := by
  intro a ha
  have hnot := List.head?_dropWhile_not p l
  rw [Option.mem_def.1 ha] at hnot
  exact hnot

section Marks

variable [BEq α] [LawfulBEq α] {a : α}

theorem append_of_splitFirst?_beq {l x y : List α} (h : splitFirst? (· == a) l = some (x, y)) :
    l = x ++ a :: y ∧ a ∉ x := by
  obtain ⟨b, hb, rfl⟩ := append_of_splitFirst? h
  obtain rfl : b = a := eq_of_beq hb
  exact ⟨rfl, fun hmem => by simpa using solid_of_splitFirst? h b hmem⟩

theorem splitFirst?_beq_append {x y : List α} (h : a ∉ x) :
    splitFirst? (· == a) (x ++ a :: y) = some (x, y) :=
  splitFirst?_append (fun b hb => by simpa using ne_of_mem_of_not_mem hb h) (beq_self_eq_true a)

theorem splitFirst?_beq_eq_none_iff {l : List α} : splitFirst? (· == a) l = none ↔ a ∉ l := by
  constructor
  · intro h hmem
    obtain ⟨x, y, rfl, hx⟩ := List.eq_append_cons_of_mem hmem
    rw [splitFirst?_beq_append hx] at h
    cases h
  · exact fun h => splitFirst?_of_solid fun b hb => by simpa using ne_of_mem_of_not_mem hb h

end Marks

end ServiceClient.Text
