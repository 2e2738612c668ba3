import Mathlib
import ServiceClient.Proofs.Xml.Building
import ServiceClient.Proofs.Xml.Read

/-! The shape of every element that is read. What is under construction keeps its texts apart from
the first event on, and blank text goes when its element closes. -/

namespace ServiceClient.Xml

section Content

def Apart (content : List Content) : Prop :=
  content.IsChain fun a b => a.isElement = true ∨ b.isElement = true

def Solid (content : List Content) : Prop :=
  content.any Content.isElement = true → ∀ c ∈ content, c.isBlankText = false

mutual

def Content.IsTrimmed : Content → Prop
  | .text _ => True
  | .element _ content => Apart content ∧ Solid content ∧ AreTrimmed content

def AreTrimmed : List Content → Prop
  | [] => True
  | c :: cs => c.IsTrimmed ∧ AreTrimmed cs

end

theorem areTrimmed_iff (content : List Content) :
    AreTrimmed content ↔ ∀ c ∈ content, c.IsTrimmed := by
  induction content with
  | nil => simp [AreTrimmed]
  | cons c cs ih => rw [AreTrimmed, ih, List.forall_mem_cons]

variable {content : List Content}

theorem apart_nil : Apart [] := .nil

theorem Apart.reverse (h : Apart content) : Apart content.reverse := by
  rw [Apart, List.isChain_reverse]
  exact h.imp fun _ _ => Or.symm

theorem Apart.cons_element (h : Apart content) {c : Content} (hc : c.isElement = true) :
    Apart (c :: content) := by
  cases h with
  | nil => exact .singleton c
  | singleton d => exact .cons_cons (.inl hc) (.singleton d)
  | cons_cons hab hrest => exact .cons_cons (.inl hc) (.cons_cons hab hrest)

theorem Apart.pushText (h : Apart content) (s : String) : Apart (pushText s content) := by
  cases content with
  | nil => exact .singleton _
  | cons c cs => cases c with
    | text t =>
      cases h with
      | singleton => exact .singleton _
      | cons_cons hab hrest => exact .cons_cons hab hrest
    | element tag inner => exact .cons_cons (.inr rfl) h

theorem Apart.filter (h : Apart content) {p : Content → Bool}
    (hp : ∀ c, c.isElement = true → p c = true) : Apart (content.filter p) := by
  induction content with
  | nil => exact h
  | cons c cs ih =>
    have hcs : Apart cs := h.tail
    rw [List.filter_cons]
    split_ifs with hc
    · by_cases helement : c.isElement = true
      · exact (ih hcs).cons_element helement
      · -- Next to a text that stays is an element, and that stays too.
        cases h with
        | singleton => exact .singleton c
        | cons_cons hab hrest =>
          rename_i d ds
          have hd := hab.resolve_left helement
          have hrest' := ih hcs
          rw [List.filter_cons_of_pos (hp d hd)] at hrest' ⊢
          exact .cons_cons hab hrest'
    · exact ih hcs

theorem Apart.dropIndentation (h : Apart content) : Apart (dropIndentation content) := by
  rw [Xml.dropIndentation]
  split_ifs
  · refine h.filter fun c hc => ?_
    cases c with
    | text s => cases hc
    | element tag inner => rfl
  · exact h

theorem solid_dropIndentation (content : List Content) : Solid (dropIndentation content) := by
  intro hany c hc
  rw [dropIndentation] at hany hc
  split_ifs at hany hc with helement
  · simpa using (List.mem_filter.1 hc).2
  · exact absurd hany helement

theorem mem_of_mem_dropIndentation {c : Content} (h : c ∈ dropIndentation content) :
    c ∈ content := by
  rw [dropIndentation] at h
  split_ifs at h
  · exact List.mem_of_mem_filter h
  · exact h

end Content

namespace Builder

variable {b b' : Builder} {event : Event}

/-- The content of all open elements is trimmed as far as it goes, and so is the finished one. -/
structure IsTrimmed (b : Builder) : Prop where
  frames : ∀ f ∈ b.frames, Apart f.content ∧ AreTrimmed f.content
  root : ∀ e ∈ b.root, (Content.element e.tag e.content).IsTrimmed

theorem isTrimmed_start : start.IsTrimmed := ⟨nofun, nofun⟩

theorem areTrimmed_pushText {content : List Content} (h : AreTrimmed content) (s : String) :
    AreTrimmed (pushText s content) := by
  cases content with
  | nil => exact ⟨trivial, trivial⟩
  | cons c cs => cases c with
    | text t => exact h
    | element tag inner => exact ⟨trivial, h⟩

theorem IsTrimmed.attach (h : b.IsTrimmed) (tag : Tag) {content : List Content}
    (hcontent : (Content.element tag content).IsTrimmed) : (b.attach tag content).IsTrimmed := by
  obtain ⟨frames, root⟩ := b
  cases frames with
  | nil => exact ⟨nofun, fun e he => Option.some.inj he ▸ hcontent⟩
  | cons f frames =>
    have hframes := List.forall_mem_cons.1 h.frames
    refine ⟨List.forall_mem_cons.2 ⟨⟨hframes.1.1.cons_element rfl, hcontent, hframes.1.2⟩,
      hframes.2⟩, h.root⟩

theorem Outcome.isTrimmed (houtcome : Outcome b event b') (h : b.IsTrimmed) : b'.IsTrimmed := by
  cases houtcome with
  | opening htag => exact ⟨List.forall_mem_cons.2 ⟨⟨apart_nil, trivial⟩, h.frames⟩, h.root⟩
  | empty htag => exact h.attach _ ⟨apart_nil, nofun, trivial⟩
  | @closing f frames hframes =>
    have hall := h.frames
    rw [hframes, List.forall_mem_cons] at hall
    have hinner : AreTrimmed (dropIndentation f.content.reverse) :=
      (areTrimmed_iff _).2 fun c hc => (areTrimmed_iff _).1 hall.1.2 c
        (List.mem_reverse.1 (mem_of_mem_dropIndentation hc))
    have hrest : (Builder.mk frames b.root).IsTrimmed := ⟨hall.2, h.root⟩
    exact hrest.attach f.tag ⟨hall.1.1.reverse.dropIndentation, solid_dropIndentation _, hinner⟩
  | unopened hframes => exact h
  | @text _ f frames hevent s hframes =>
    have hall := h.frames
    rw [hframes, List.forall_mem_cons] at hall
    exact ⟨List.forall_mem_cons.2 ⟨⟨hall.1.1.pushText s, areTrimmed_pushText hall.1.2 s⟩, hall.2⟩,
      h.root⟩
  | blank hevent hframes => exact h
  | ignored => exact h

end Builder

theorem Element.isTrimmed_content {s : Text.Octets} {e : Element} (h : Element.parse s = .ok e) :
    (Content.element e.tag e.content).IsTrimmed := by
  obtain ⟨b, hrun, _, _, hroot⟩ := Element.exists_run_of_parse h
  have htrimmed : b.IsTrimmed := Builder.run_induction (I := fun _ b => b.IsTrimmed)
    (fun h houtcome => houtcome.isTrimmed h) Builder.isTrimmed_start hrun
  exact htrimmed.root e hroot

namespace Document

theorem parent?_root_ofElement (e : Element) : (ofElement e).parent? (ofElement e).root = none := by
  have hwhole := whole_ofElement e
  rw [← hwhole.exists_rootTree.2]
  refine hwhole.sound.parent?_of_mem_trees ?_
  rw [rootTree_ofElement, trees_ofElement]
  exact List.mem_cons_self

theorem exists_ofElement_of_parse {s : Text.Octets} {d : Document}
    (h : parse s = .ok d) :
    ∃ e, Element.parse s = .ok e ∧ d = ofElement e := by
  cases hparse : Element.parse s with
  | error e => rw [parse, hparse] at h; cases h
  | ok e =>
    rw [parse, hparse] at h
    exact ⟨e, rfl, (Except.ok.inj h).symm⟩

end Document

end ServiceClient.Xml
