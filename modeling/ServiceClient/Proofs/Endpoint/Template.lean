import ServiceClient.Endpoint.Template
import ServiceClient.Proofs.Text.Blank

/-! Which templates give a host, and which one. A pattern is a template taken apart into literals and
variables. Names and the literal behind the last variable have to be free of braces, but the
literals in front of variables only of opening ones: a closing brace there closes nothing and is
kept. -/

namespace ServiceClient.Endpoint

def IsBare (s : List Char) : Prop := '{' ∉ s ∧ '}' ∉ s

def IsName (s : List Char) : Prop := s ≠ [] ∧ IsBare s

structure Slot where
  literal : List Char
  name : List Char

structure Pattern where
  slots : List Slot
  last : List Char

variable {lookup : String → Option String} {s host : List Char}

def Slot.text (v : Slot) : List Char := v.literal ++ '{' :: (v.name ++ ['}'])

def Slot.filled? (lookup : String → Option String) (v : Slot) : Option (List Char) :=
  (lookup (String.ofList v.name)).map fun value => v.literal ++ value.toList

namespace Pattern

def text (p : Pattern) : List Char := p.slots.flatMap Slot.text ++ p.last

def filled? (lookup : String → Option String) (p : Pattern) : Option (List Char) :=
  (p.slots.mapM (Slot.filled? lookup)).map fun parts => parts.flatten ++ p.last

structure IsProper (p : Pattern) : Prop where
  literals : ∀ v ∈ p.slots, IsBare v.literal
  names : ∀ v ∈ p.slots, IsName v.name
  last : IsBare p.last

structure IsReadable (p : Pattern) : Prop where
  literals : ∀ v ∈ p.slots, '{' ∉ v.literal
  names : ∀ v ∈ p.slots, IsName v.name
  last : IsBare p.last

theorem text_nil (last : List Char) : text ⟨[], last⟩ = last := by
  simp [text]

theorem text_cons (v : Slot) (vs : List Slot) (last : List Char) : text ⟨v :: vs, last⟩ =
    v.literal ++ '{' :: (v.name ++ '}' :: text ⟨vs, last⟩) := by
  simp [text, Slot.text]

theorem filled?_cons {v : Slot} {vs : List Slot} {last : List Char} :
    filled? lookup ⟨v :: vs, last⟩ = some host ↔ ∃ value more,
      lookup (String.ofList v.name) = some value ∧ filled? lookup ⟨vs, last⟩ = some more ∧
        host = v.literal ++ value.toList ++ more := by
  simp only [filled?, List.mapM_cons, Slot.filled?]
  cases lookup (String.ofList v.name) with
  | none => simp
  | some value => cases List.mapM (Slot.filled? lookup) vs <;> simp [eq_comm]

theorem IsReadable.of_cons {v : Slot} {vs : List Slot} {last : List Char}
    (h : IsReadable ⟨v :: vs, last⟩) : IsReadable ⟨vs, last⟩ :=
  ⟨fun w hw => h.literals w (List.mem_cons_of_mem v hw),
    fun w hw => h.names w (List.mem_cons_of_mem v hw), h.last⟩

theorem isReadable_cons {v : Slot} {p : Pattern} (hliteral : '{' ∉ v.literal) (hname : IsName v.name)
    (h : p.IsReadable) : IsReadable ⟨v :: p.slots, p.last⟩ :=
  ⟨List.forall_mem_cons.2 ⟨hliteral, h.literals⟩, List.forall_mem_cons.2 ⟨hname, h.names⟩, h.last⟩

theorem IsProper.isReadable {p : Pattern} (h : p.IsProper) : p.IsReadable :=
  ⟨fun v hv => (h.literals v hv).1, h.names, h.last⟩

end Pattern

theorem renderChars_of_notMem (h : '{' ∉ s) :
    renderChars lookup s = if '}' ∈ s then .error .malformed else .ok s := by
  have hsplit := Text.splitFirst?_beq_eq_none_iff.2 h
  rw [renderChars]
  split
  · rfl
  · simp_all

theorem renderChars_slot {v : Slot} {rest : List Char} (hliteral : '{' ∉ v.literal)
    (hname : IsName v.name) : renderChars lookup (v.literal ++ '{' :: (v.name ++ '}' :: rest)) =
      match lookup (String.ofList v.name) with
      | none => .error (.unresolved (String.ofList v.name))
      | some value => (renderChars lookup rest).map (v.literal ++ value.toList ++ ·) := by
  have hopening := Text.splitFirst?_beq_append (y := v.name ++ '}' :: rest) hliteral
  have hclosing := Text.splitFirst?_beq_append (y := rest) hname.2.2
  rw [renderChars]
  split
  · simp_all
  · rename_i literal after hs
    obtain ⟨rfl, rfl⟩ := Prod.mk.inj (Option.some.inj (hopening.symm.trans hs))
    split
    · simp_all
    · rename_i name rest' ha
      obtain ⟨rfl, rfl⟩ := Prod.mk.inj (Option.some.inj (hclosing.symm.trans ha))
      rw [if_neg (by simp [hname.1, hname.2.1])]
      cases lookup (String.ofList v.name) with
      | none => rfl
      | some value => cases renderChars lookup rest <;> rfl

theorem renderChars_text {p : Pattern} (hp : p.IsReadable) (hfilled : p.filled? lookup = some host) :
    renderChars lookup p.text = .ok host := by
  obtain ⟨slots, last⟩ := p
  induction slots generalizing host with
  | nil =>
    obtain rfl : last = host := by simpa [Pattern.filled?] using hfilled
    rw [Pattern.text_nil, renderChars_of_notMem hp.last.1, if_neg hp.last.2]
  | cons v vs ih =>
    obtain ⟨value, more, hvalue, hmore, rfl⟩ := Pattern.filled?_cons.1 hfilled
    rw [Pattern.text_cons, renderChars_slot (hp.literals v List.mem_cons_self)
      (hp.names v List.mem_cons_self), hvalue]
    simp only [ih hp.of_cons hmore]
    rfl

theorem exists_isReadable (h : renderChars lookup s = .ok host) :
    ∃ p : Pattern, p.IsReadable ∧ p.text = s ∧ p.filled? lookup = some host := by
  fun_induction renderChars lookup s generalizing host with
  | case2 s hs hclosing =>
    obtain rfl : s = host := Except.ok.inj h
    have hopening := Text.splitFirst?_beq_eq_none_iff.1 hs
    exact ⟨⟨[], s⟩, ⟨by simp, by simp, hopening, hclosing⟩, Pattern.text_nil s,
      by simp [Pattern.filled?]⟩
  | case6 s literal after hs name rest ha _ hname value hvalue more hmore ih =>
    obtain rfl : literal ++ value.toList ++ more = host := Except.ok.inj h
    obtain ⟨p, hp, rfl, hfilled⟩ := ih hmore
    obtain ⟨rfl, hliteral⟩ := Text.append_of_splitFirst?_beq hs
    obtain ⟨rfl, hclosing⟩ := Text.append_of_splitFirst?_beq ha
    rw [not_or, List.isEmpty_iff] at hname
    refine ⟨⟨⟨literal, name⟩ :: p.slots, p.last⟩,
      Pattern.isReadable_cons hliteral ⟨hname.1, hname.2, hclosing⟩ hp, Pattern.text_cons .., ?_⟩
    exact Pattern.filled?_cons.2 ⟨value, more, hvalue, hfilled, rfl⟩
  | case1 => cases h
  | case3 => cases h
  | case4 => cases h
  | case5 => cases h
  | case7 => cases h

section Braces

def isBrace (c : Char) : Bool := c == '{' || c == '}'

def lastBrace? (s : List Char) : Option Char := s.reverse.find? isBrace

/-- A closing brace that closes nothing, since the brace before it does not open anything. -/
def HasStrayClosing (s : List Char) : Prop := ∃ u v, s = u ++ '}' :: v ∧ lastBrace? u ≠ some '{'

def HasLateStray (s : List Char) : Prop :=
  ∃ u v, s = u ++ '}' :: v ∧ lastBrace? u ≠ some '{' ∧ '{' ∉ v

/-- An opening brace that is not closed, or not behind a name. -/
def HasLooseOpening (s : List Char) : Prop :=
  ∃ u v, s = u ++ '{' :: v ∧ ∀ name w, v = name ++ '}' :: w → ¬ IsName name

variable {u v : List Char}

theorem lastBrace?_append (u v : List Char) :
    lastBrace? (u ++ v) = (lastBrace? v).or (lastBrace? u) := by
  simp [lastBrace?, List.find?_append]

theorem lastBrace?_of_bare (h : IsBare s) : lastBrace? s = none := by
  rw [lastBrace?, List.find?_eq_none]
  intro c hc
  have hmem := List.mem_reverse.1 hc
  simpa [isBrace] using ⟨ne_of_mem_of_not_mem hmem h.1, ne_of_mem_of_not_mem hmem h.2⟩

theorem lastBrace?_ne_of_notMem (h : '{' ∉ s) : lastBrace? s ≠ some '{' := fun hbrace =>
  h (List.mem_reverse.1 (List.mem_of_find?_eq_some hbrace))

theorem lastBrace?_opening (literal : List Char) {name : List Char} (h : IsBare name) :
    lastBrace? (literal ++ '{' :: name) = some '{' := by
  rw [List.append_cons, lastBrace?_append, lastBrace?_of_bare h, lastBrace?_append]
  rfl

theorem part_of_append_eq {α : Type} {a : α} {x y u v : List α} (h : x ++ y = u ++ a :: v) :
    (∃ w, u = x ++ w ∧ y = w ++ a :: v) ∨ ∃ w, x = u ++ a :: w ∧ v = w ++ y := by
  obtain ⟨w, rfl, rfl⟩ | ⟨w, rfl, hw⟩ := List.append_eq_append_iff.1 h
  · exact .inl ⟨w, rfl, rfl⟩
  · cases w with
    | nil => exact .inl ⟨[], by simp, by simpa using hw.symm⟩
    | cons b w =>
      obtain ⟨rfl, rfl⟩ := List.cons.inj hw
      exact .inr ⟨w, rfl, rfl⟩

theorem back_of_append_eq {α : Type} {a : α} {x y u v : List α} (h : x ++ y = u ++ a :: v)
    (ha : a ∉ x) : ∃ w, u = x ++ w ∧ y = w ++ a :: v := by
  refine (part_of_append_eq h).resolve_right ?_
  rintro ⟨w, rfl, -⟩
  simp at ha

namespace Pattern

theorem exists_name_of_text {p : Pattern} (hp : p.IsReadable) (h : p.text = u ++ '{' :: v) :
    ∃ name w, v = name ++ '}' :: w ∧ IsName name := by
  obtain ⟨slots, last⟩ := p
  induction slots generalizing u with
  | nil =>
    rw [text_nil] at h
    exact absurd (h ▸ List.mem_append_right u List.mem_cons_self) hp.last.1
  | cons x xs ih =>
    have hname := hp.names x List.mem_cons_self
    rw [text_cons] at h
    obtain ⟨w, -, hw⟩ := back_of_append_eq h (hp.literals x List.mem_cons_self)
    cases w with
    | nil =>
      obtain rfl := (List.cons.inj hw).2
      exact ⟨x.name, _, rfl, hname⟩
    | cons c w =>
      have hrest : (x.name ++ ['}']) ++ text ⟨xs, last⟩ = w ++ '{' :: v := by
        simpa using (List.cons.inj hw).2
      obtain ⟨w', -, hw'⟩ := back_of_append_eq hrest (by simp [hname.2.1])
      exact ih hp.of_cons hw'

/-- Whatever closes in a readable pattern is a variable, or stands in a literal in front of one. -/
theorem closes_of_text {p : Pattern} (hp : p.IsReadable) (h : p.text = u ++ '}' :: v) :
    lastBrace? u = some '{' ∨ '{' ∈ v ∧ ∃ x ∈ p.slots, '}' ∈ x.literal := by
  obtain ⟨slots, last⟩ := p
  induction slots generalizing u with
  | nil =>
    rw [text_nil] at h
    exact absurd (h ▸ List.mem_append_right u List.mem_cons_self) hp.last.2
  | cons x xs ih =>
    have hname := hp.names x List.mem_cons_self
    rw [text_cons] at h
    obtain ⟨w, rfl, hvariable⟩ | ⟨w, hliteral, rfl⟩ := part_of_append_eq h
    · rw [← List.cons_append] at hvariable
      obtain ⟨w, rfl, hrest⟩ := back_of_append_eq hvariable (by simp [hname.2.2])
      cases w with
      | nil =>
        rw [List.append_nil]
        exact .inl (lastBrace?_opening x.literal hname.2)
      | cons c w =>
        rw [← List.append_assoc, List.append_cons, lastBrace?_append]
        rcases ih hp.of_cons (List.cons.inj hrest).2 with hbrace | ⟨hmem, y, hy, hclosing⟩
        · rw [hbrace]
          exact .inl rfl
        · exact .inr ⟨hmem, y, List.mem_cons_of_mem x hy, hclosing⟩
    · refine .inr ⟨by simp, x, List.mem_cons_self, ?_⟩
      rw [hliteral]
      simp

theorem hasStrayClosing_of_mem {p : Pattern} (hp : p.IsReadable) {x : Slot} (hx : x ∈ p.slots)
    (hclosing : '}' ∈ x.literal) : HasStrayClosing p.text := by
  obtain ⟨slots, last⟩ := p
  induction slots with
  | nil => cases hx
  | cons y ys ih =>
    rw [text_cons]
    rcases List.mem_cons.1 hx with rfl | hx
    · obtain ⟨u, v, hliteral, -⟩ := List.eq_append_cons_of_mem hclosing
      have hopening : '{' ∉ u := fun h =>
        hp.literals x List.mem_cons_self (hliteral ▸ List.mem_append_left _ h)
      rw [hliteral, List.append_assoc]
      exact ⟨u, _, rfl, lastBrace?_ne_of_notMem hopening⟩
    · obtain ⟨u, v, htext, hu⟩ := ih hp.of_cons hx
      refine ⟨y.literal ++ '{' :: y.name ++ '}' :: u, v, by simp [htext], ?_⟩
      rw [List.append_cons, lastBrace?_append, lastBrace?_append _ ['}']]
      cases hbrace : lastBrace? u with
      | none => simp [lastBrace?, isBrace]
      | some c => simpa [hbrace] using hu

theorem isProper_iff {p : Pattern} : p.IsProper ↔ p.IsReadable ∧ ¬ HasStrayClosing p.text := by
  constructor
  · refine fun hp => ⟨hp.isReadable, ?_⟩
    rintro ⟨u, v, htext, hu⟩
    obtain ⟨-, x, hx, hclosing⟩ := (closes_of_text hp.isReadable htext).resolve_left hu
    exact (hp.literals x hx).2 hclosing
  · rintro ⟨hp, hstray⟩
    exact ⟨fun x hx => ⟨hp.literals x hx, fun hclosing => hstray (hasStrayClosing_of_mem hp hx hclosing)⟩,
      hp.names, hp.last⟩

end Pattern

end Braces

theorem renderTemplate_eq_ok {template host : String} : renderTemplate lookup template = .ok host ↔
    renderChars lookup template.toList = .ok host.toList := by
  rw [renderTemplate]
  split <;> simp_all [String.ext_iff]

/-- A template gives a host just if it has a readable pattern, which is proper unless some closing
brace closes nothing. Braces that open nothing, and those that close nothing behind the last
variable, are refused. -/
theorem renderTemplate_eq_ok_iff (lookup : String → Option String) (template host : String) :
    let Reads (p : Pattern) : Prop :=
      p.text = template.toList ∧ p.filled? lookup = some host.toList
    (renderTemplate lookup template = .ok host ↔ ∃ p : Pattern, p.IsReadable ∧ Reads p) ∧
    (renderTemplate lookup template = .ok host ∧ ¬ HasStrayClosing template.toList ↔
      ∃ p : Pattern, p.IsProper ∧ Reads p) ∧
    (HasLooseOpening template.toList ∨ HasLateStray template.toList →
      ∃ e, renderTemplate lookup template = .error e) := by
  intro Reads
  have hread : renderTemplate lookup template = .ok host ↔
      ∃ p : Pattern, p.IsReadable ∧ Reads p := by
    rw [renderTemplate_eq_ok]
    refine ⟨exists_isReadable, ?_⟩
    rintro ⟨p, hp, htext, hfilled⟩
    exact htext ▸ renderChars_text hp hfilled
  refine ⟨hread, ?_, fun hfault => ?_⟩
  · rw [hread]
    constructor
    · rintro ⟨⟨p, hp, htext, hfilled⟩, hstray⟩
      exact ⟨p, Pattern.isProper_iff.2 ⟨hp, htext ▸ hstray⟩, htext, hfilled⟩
    · rintro ⟨p, hp, htext, hfilled⟩
      obtain ⟨hreadable, hstray⟩ := Pattern.isProper_iff.1 hp
      exact ⟨⟨p, hreadable, htext, hfilled⟩, htext ▸ hstray⟩
  · cases hrender : renderTemplate lookup template with
    | error e => exact ⟨e, rfl⟩
    | ok host =>
      obtain ⟨p, hp, htext, -⟩ := exists_isReadable (renderTemplate_eq_ok.1 hrender)
      rcases hfault with ⟨u, v, heq, hloose⟩ | ⟨u, v, heq, hstray, hlate⟩
      · obtain ⟨name, w, hv, hname⟩ := Pattern.exists_name_of_text hp (htext.trans heq)
        exact absurd hname (hloose name w hv)
      · rcases Pattern.closes_of_text hp (htext.trans heq) with hbrace | ⟨hopening, -⟩
        · exact absurd hbrace hstray
        · exact absurd hopening hlate

def serviceOnly (name : String) : Option String := if name = "service" then some "queue" else none

theorem renderTemplate_eq_ok_iff_service :
    renderTemplate serviceOnly "\x7bservice\x7d.com" = .ok "queue.com" ∧
    ∃ e, renderTemplate serviceOnly "\x7bservice.com" = .error e := by
  have hname : IsName "service".toList := by unfold IsName IsBare; decide
  have hloose : HasLooseOpening "\x7bservice.com".toList := by
    refine ⟨[], "service.com".toList, rfl, fun name w hv => ?_⟩
    have hmem : '}' ∈ "service.com".toList := hv ▸ List.mem_append_right name List.mem_cons_self
    exact absurd hmem (by decide)
  refine ⟨(renderTemplate_eq_ok_iff serviceOnly _ "queue.com").1.2
    ⟨⟨[⟨[], "service".toList⟩], ".com".toList⟩, ⟨?_, ?_, ?_⟩, rfl, rfl⟩,
    (renderTemplate_eq_ok_iff serviceOnly _ "").2.2 (.inl hloose)⟩
  · simp
  · exact fun v hv => List.mem_singleton.1 hv ▸ hname
  · unfold IsBare
    decide

/-- In front of a variable a closing brace is kept that closes nothing, and behind the last one it is
refused. -/
theorem renderTemplate_stray :
    renderTemplate serviceOnly "a\x7db.\x7bservice\x7d" = .ok "a\x7db.queue" ∧
    HasStrayClosing "a\x7db.\x7bservice\x7d".toList ∧
    (¬ ∃ p : Pattern, p.IsProper ∧ p.text = "a\x7db.\x7bservice\x7d".toList) ∧
    renderTemplate serviceOnly "\x7bservice\x7d.a\x7db" =
      .error (.malformedTemplate "\x7bservice\x7d.a\x7db") := by
  have hstray : HasStrayClosing "a\x7db.\x7bservice\x7d".toList :=
    ⟨['a'], "b.\x7bservice\x7d".toList, rfl, by decide⟩
  refine ⟨by cbv, hstray, ?_, by cbv⟩
  rintro ⟨p, hp, htext⟩
  exact (Pattern.isProper_iff.1 hp).2 (htext ▸ hstray)

end ServiceClient.Endpoint
