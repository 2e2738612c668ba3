import Mathlib.Tactic.SplitIfs
import ServiceClient.Proofs.Run
import ServiceClient.Xml.Parse

/-! Elements under construction. One event opens an element, closes the innermost one, adds to its
text or does nothing, and what every event keeps holds of the element that reading ends with. -/

namespace ServiceClient.Xml

def Event.isCharacterData : Event → Bool
  | .text _ | .characters _ | .reference _ => true
  | _ => false

namespace Builder

inductive Outcome (b : Builder) : Event → Builder → Prop
  | opening {raw : Text.Octets} {tag : Tag} (htag : b.openTag raw = .ok tag) :
      Outcome b (.opening raw) ⟨⟨tag, []⟩ :: b.frames, b.root⟩
  | empty {raw : Text.Octets} {tag : Tag} (htag : b.openTag raw = .ok tag) :
      Outcome b (.empty raw) (b.attach tag [])
  | closing {f : Frame} {frames : List Frame} (hframes : b.frames = f :: frames) :
      Outcome b .closing (attach ⟨frames, b.root⟩ f.tag (dropIndentation f.content.reverse))
  | unopened (hframes : b.frames = []) : Outcome b .closing b
  | text {event : Event} {f : Frame} {frames : List Frame}
      (hevent : event.isCharacterData = true) (s : String) (hframes : b.frames = f :: frames) :
      Outcome b event ⟨⟨f.tag, pushText s f.content⟩ :: frames, b.root⟩
  | blank {event : Event} (hevent : event.isCharacterData = true) (hframes : b.frames = []) :
      Outcome b event b
  | ignored : Outcome b .ignored b

variable {b b' : Builder} {event : Event} {events : List Event}

theorem outcome_of_addText {s : String} (hevent : event.isCharacterData = true)
    (h : b.addText s = .ok b') : Outcome b event b' := by
  rw [addText] at h
  split at h
  · rename_i hframes
    split_ifs at h
    obtain rfl := Except.ok.inj h
    exact .blank hevent hframes
  · rename_i hframes
    obtain rfl := Except.ok.inj h
    exact .text hevent s hframes

theorem step_outcome (h : b.step event = .ok b') : Outcome b event b' := by
  cases event with
  | opening raw =>
    obtain ⟨tag, htag, hb⟩ := exists_of_bind h
    obtain rfl := Except.ok.inj hb
    exact .opening htag
  | empty raw =>
    obtain ⟨tag, htag, hb⟩ := exists_of_bind h
    obtain rfl := Except.ok.inj hb
    exact .empty htag
  | closing =>
    rw [step] at h
    split at h
    · rename_i hframes
      obtain rfl := Except.ok.inj h
      exact .unopened hframes
    · rename_i hframes
      obtain rfl := Except.ok.inj h
      exact .closing hframes
  | text raw =>
    obtain ⟨s, _, hb⟩ := exists_of_bind h
    exact outcome_of_addText rfl hb
  | characters raw =>
    obtain ⟨s, _, hb⟩ := exists_of_bind h
    exact outcome_of_addText rfl hb
  | reference name =>
    obtain ⟨s, _, hb⟩ := exists_of_bind h
    split at hb
    · exact outcome_of_addText rfl hb
    · cases hb
  | ignored =>
    obtain rfl := Except.ok.inj h
    exact .ignored

theorem run_induction {I : List Event → Builder → Prop}
    (hstep : ∀ {event events b b'}, I (event :: events) b → Outcome b event b' → I events b')
    (h : I events b) (hrun : events.foldlM step b = .ok b') : I [] b' := by
  induction events generalizing b with
  | nil =>
    obtain rfl := Except.ok.inj hrun
    exact h
  | cons event events ih =>
    rw [List.foldlM_cons] at hrun
    obtain ⟨b₁, hb₁, hrun⟩ := exists_of_bind hrun
    exact ih (hstep h (step_outcome hb₁)) hrun

end Builder

/-- An element that is read comes of events without a fault, and nothing is left open. -/
theorem Element.exists_run_of_parse {s : Text.Octets} {e : Element} (h : Element.parse s = .ok e) :
    ∃ b, (Event.scan s).events.foldlM Builder.step Builder.start = .ok b ∧
      (Event.scan s).fault = none ∧ b.frames = [] ∧ b.root = some e := by
  obtain ⟨b, hrun, h⟩ := exists_of_bind h
  refine ⟨b, hrun, ?_⟩
  split at h
  · cases h
  · rename_i hfault
    rw [Builder.finish] at h
    split_ifs at h with hframes
    split at h
    · rename_i hroot
      obtain rfl := Except.ok.inj h
      exact ⟨hfault, by simpa using hframes, hroot⟩
    · cases h

end ServiceClient.Xml
