import ServiceClient.Proofs.Xml.Building
import ServiceClient.Proofs.Xml.Tag

/-! A written element is read back in settled form: texts that stand side by side are one, empty
text is gone, blank text beside elements is dropped, and a namespace that is known above is not
declared again. What its tags come to in general is what they are as they are read where they are
written; with names for names, and one declaration at most, they stay as they are. -/

namespace ServiceClient.Xml

open Text (Octets encode)

section Settling

def push (s : String) (content : List Content) : List Content :=
  if s = "" then content else pushText s content

def pile (content : List Content) : Content → List Content
  | .text s => push s content
  | .element tag inner => .element tag inner :: content

def gather (content : List Content) : List Content :=
  (content.foldl pile []).reverse

def Tag.within (scope : List Namespace) (t : Tag) : Tag :=
  { t with ns := t.ns.filter (· ∉ scope) }

/-- A namespace that is left out is in scope all the same. -/
theorem mem_filter_append_iff (own : Option Namespace) (scope : List Namespace) (ns : Namespace) :
    ns ∈ (own.filter (· ∉ scope)).toList ++ scope ↔ ns ∈ own.toList ++ scope := by
  cases own with
  | none => exact Iff.rfl
  | some own =>
    by_cases hown : own ∈ scope
    · simpa [Option.filter, hown] using fun heq : ns = own => heq ▸ hown
    · simp [Option.filter, hown]

def Tag.scope (t : Tag) (scope : List Namespace) : List Namespace :=
  t.ns.toList ++ scope

mutual

def Content.settle (scope : List Namespace) : Content → Content
  | .text s => .text s
  | .element tag content =>
    let tag := tag.within scope
    .element tag (dropIndentation (gather (settleAll (tag.scope scope) content)))

def settleAll (scope : List Namespace) : List Content → List Content
  | [] => []
  | c :: cs => c.settle scope :: settleAll scope cs

end

mutual

def Content.reread (scope : List Namespace) : Content → Content
  | .text s => .text s
  | .element tag content =>
    let tag := tag.raw.tagIn scope
    .element tag (dropIndentation (gather (rereadAll (tag.scope scope) content)))

def rereadAll (scope : List Namespace) : List Content → List Content
  | [] => []
  | c :: cs => c.reread scope :: rereadAll scope cs

end

def rereadContent (scope : List Namespace) (content : List Content) : List Content :=
  dropIndentation (gather (rereadAll scope content))

mutual

def Content.Every (p : Tag → List Content → Prop) : Content → Prop
  | .text _ => True
  | .element tag content => p tag content ∧ EveryIn p content

def EveryIn (p : Tag → List Content → Prop) : List Content → Prop
  | [] => True
  | c :: cs => c.Every p ∧ EveryIn p cs

end

def AreReadable : List Content → Prop :=
  EveryIn fun tag content => tag.IsReadable content.isEmpty

mutual

/-- All tags declare at most their own namespace, with names for names. -/
def Content.IsPlain : Content → Prop
  | .text _ => True
  | .element tag content => tag.IsPlain ∧ ArePlain content

def ArePlain : List Content → Prop
  | [] => True
  | c :: cs => c.IsPlain ∧ ArePlain cs

end

def settleContent (scope : List Namespace) (content : List Content) : List Content :=
  dropIndentation (gather (settleAll scope content))

theorem settle_element (scope : List Namespace) (tag : Tag) (content : List Content) :
    Content.settle scope (.element tag content) =
      .element (tag.within scope) (settleContent ((tag.within scope).scope scope) content) := rfl

theorem settleAll_eq_map (scope : List Namespace) (content : List Content) :
    settleAll scope content = content.map (Content.settle scope) := by
  induction content with
  | nil => rfl
  | cons c cs ih => rw [settleAll, ih, List.map_cons]

theorem arePlain_iff (content : List Content) : ArePlain content ↔ ∀ c ∈ content, c.IsPlain := by
  induction content with
  | nil => simp [ArePlain]
  | cons c cs ih => rw [ArePlain, ih, List.forall_mem_cons]

theorem push_empty (content : List Content) : push "" content = content := if_pos rfl

theorem push_of_ne {s : String} (h : s ≠ "") (content : List Content) :
    push s content = pushText s content := if_neg h

theorem pushText_pushText (s t : String) (content : List Content) :
    pushText t (pushText s content) = pushText (s ++ t) content := by
  cases content with
  | nil => rfl
  | cons c cs => cases c with
    | text u => simp only [pushText, String.append_assoc]
    | element tag inner => rfl

theorem push_push (s t : String) (content : List Content) :
    push t (push s content) = push (s ++ t) content := by
  by_cases hs : s = ""
  · rw [hs, push_empty, String.empty_append]
  by_cases ht : t = ""
  · rw [ht, push_empty, String.append_empty]
  · have hst : s ++ t ≠ "" := fun h => hs (String.append_eq_empty_iff.1 h).1
    rw [push_of_ne hs, push_of_ne ht, push_of_ne hst, pushText_pushText]

end Settling

namespace Builder

def resume (b : Builder) (opened : List Octets) (s : Octets) : Except XmlError Element := do
  let b ← (Event.scanFrom opened s).events.foldlM step b
  match (Event.scanFrom opened s).fault with
  | some e => .error (.markup e)
  | none => b.finish

theorem scanFrom_cons {opened : List Octets} {a : UInt8} {s : Octets} {t : Step}
    (h : scanNext opened a s = .ok t) :
    Event.scanFrom opened (a :: s) = ⟨t.event :: (Event.scanFrom t.opened t.rest).events,
      (Event.scanFrom t.opened t.rest).fault⟩ := by
  rw [Event.scanFrom]
  split
  · rename_i hscan
    rw [h] at hscan
    cases hscan
  · rename_i hscan
    rw [h] at hscan
    obtain rfl := Except.ok.inj hscan
    rfl

variable {b b' : Builder} {opened : List Octets} {s : Octets}

theorem resume_cons {a : UInt8} {t : Step} (hscan : scanNext opened a s = .ok t)
    (hstep : b.step t.event = .ok b') : b.resume opened (a :: s) = b'.resume t.opened t.rest := by
  rw [resume, scanFrom_cons hscan, List.foldlM_cons, hstep]
  rfl

theorem resume_error {a : UInt8} {t : Step} {e : XmlError}
    (hscan : scanNext opened a s = .ok t) (hstep : b.step t.event = .error e) :
    b.resume opened (a :: s) = .error e := by
  rw [resume, scanFrom_cons hscan, List.foldlM_cons, hstep]
  rfl

theorem resume_nil (b : Builder) : b.resume opened [] = b.finish := by
  rw [resume, Event.scanFrom]
  rfl

section Text

variable {tag : Tag} {content : List Content} {frames : List Frame} {root : Option Element}

abbrev inside (tag : Tag) (content : List Content) (frames : List Frame) (root : Option Element) :
    Builder := ⟨⟨tag, content⟩ :: frames, root⟩

/-- What is scanned in `x` before `y` is character data, and it spells the text `s`. -/
def Spells (opened : List Octets) (x y : Octets) (s : String) : Prop :=
  ∃ events : List Event, (∀ event ∈ events, event.isCharacterData = true) ∧
    Event.scanFrom opened x =
      ⟨events ++ (Event.scanFrom opened y).events, (Event.scanFrom opened y).fault⟩ ∧
    ∀ tag content frames root, events.foldlM step (inside tag content frames root) =
      .ok (inside tag (push s content) frames root)

theorem Spells.refl (opened : List Octets) (x : Octets) : Spells opened x x "" := by
  refine ⟨[], nofun, rfl, fun tag content frames root => ?_⟩
  rw [push_empty]
  rfl

theorem Spells.trans {x y z : Octets} {s t : String} (hx : Spells opened x y s)
    (hy : Spells opened y z t) : Spells opened x z (s ++ t) := by
  obtain ⟨before, hbefore, hscan, hrun⟩ := hx
  obtain ⟨after, hafter, hscan', hrun'⟩ := hy
  refine ⟨before ++ after, List.forall_mem_append.2 ⟨hbefore, hafter⟩, ?_,
    fun tag content frames root => ?_⟩
  · rw [hscan, hscan', List.append_assoc]
  · rw [List.foldlM_append, hrun, ← push_push, ← hrun']
    rfl

theorem Spells.of_scanNext {a : UInt8} {x y : Octets} (event : Event) {s : String} (hs : s ≠ "")
    (hscan : scanNext opened a x = .ok ⟨event, opened, y⟩) (hevent : event.isCharacterData = true)
    (hstep : ∀ tag content frames root, (inside tag content frames root).step event =
      .ok (inside tag (pushText s content) frames root)) : Spells opened (a :: x) y s := by
  refine ⟨[event], List.forall_mem_singleton.2 hevent, scanFrom_cons hscan,
    fun tag content frames root => ?_⟩
  rw [List.foldlM_cons, hstep, push_of_ne hs]
  rfl

theorem Spells.resume_eq {x y : Octets} {s : String} (h : Spells opened x y s) :
    (inside tag content frames root).resume opened x =
      (inside tag (push s content) frames root).resume opened y := by
  obtain ⟨events, _, hscan, hrun⟩ := h
  rw [resume, resume, hscan, List.foldlM_append, hrun]
  rfl

theorem isCharacter_encode {cs : List Char} (h : ∀ c ∈ cs, c ≠ '<' ∧ c ≠ '&') :
    ∀ b ∈ cs.flatMap String.utf8EncodeChar, isCharacter b = true := by
  intro b hb
  have hbracket : b ≠ octet '<' := by
    rintro rfl
    exact octet_not_mem_encode (by decide) (fun hc => (h _ hc).1 rfl) hb
  have hampersand : b ≠ octet '&' := by
    rintro rfl
    exact octet_not_mem_encode (by decide) (fun hc => (h _ hc).2 rfl) hb
  simp [isCharacter, hbracket, hampersand]

theorem step_text (cs : List Char) :
    (inside tag content frames root).step (.text (cs.flatMap String.utf8EncodeChar)) =
      .ok (inside tag (pushText (String.ofList cs) content) frames root) := by
  rw [step, ← Text.encode_ofList, decodeCharacters_encode]
  rfl

theorem spells_characters {cs : List Char} (h : ∀ c ∈ cs, c ≠ '<' ∧ c ≠ '&') {mark : UInt8}
    (hmark : isCharacter mark = false) (rest : Octets) :
    Spells opened (cs.flatMap String.utf8EncodeChar ++ mark :: rest) (mark :: rest)
      (String.ofList cs) := by
  have hall := isCharacter_encode h
  cases hcs : cs with
  | nil => exact .refl opened _
  | cons c cs' =>
    obtain ⟨a, x, hx⟩ : ∃ a x, cs.flatMap String.utf8EncodeChar = a :: x := by
      obtain ⟨a, x, hc, _⟩ := Text.firstScalar_encodeChar c
      exact ⟨a, x ++ cs'.flatMap String.utf8EncodeChar, by rw [hcs, List.flatMap_cons, hc]; rfl⟩
    have hne : String.ofList cs ≠ "" := by
      rw [hcs]
      simp
    rw [← hcs, hx, List.cons_append]
    refine .of_scanNext (.text (a :: x)) hne ?_ rfl fun tag content frames root => ?_
    · rw [hx, List.forall_mem_cons] at hall
      have ha := hall.1
      rw [isCharacter, Bool.and_eq_true, bne_iff_ne, bne_iff_ne] at ha
      rw [scanNext, if_neg ha.1, if_neg ha.2, takeWhile_key hall.2 hmark,
        dropWhile_key hall.2 hmark]
    · rw [← hx]
      exact step_text cs

theorem scanNext_reference {name : List Char} (h : ∀ x ∈ name, x ≠ '&' ∧ x ≠ ';' ∧ x ≠ '<')
    (rest : Octets) :
    scanNext opened (octet '&') (name.flatMap String.utf8EncodeChar ++ octet ';' :: rest) =
      .ok ⟨.reference (name.flatMap String.utf8EncodeChar), opened, rest⟩ := by
  have hname : ∀ b ∈ name.flatMap String.utf8EncodeChar,
      (!(b == octet ';' || b == octet '&' || b == octet '<')) = true := by
    intro b hb
    have hne : ∀ d, d.toNat < 128 → d ∉ name → b ≠ octet d := by
      rintro d hd hmem rfl
      exact octet_not_mem_encode hd hmem hb
    have hsemicolon := hne ';' (by decide) fun hx => (h _ hx).2.1 rfl
    have hampersand := hne '&' (by decide) fun hx => (h _ hx).1 rfl
    have hbracket := hne '<' (by decide) fun hx => (h _ hx).2.2 rfl
    simp [hsemicolon, hampersand, hbracket]
  rw [scanNext, if_neg (by decide), if_pos rfl, scanReference]
  dsimp only
  rw [dropWhile_key hname (by decide), takeWhile_key hname (by decide)]
  exact if_pos rfl

theorem step_reference (b : Builder) (name : List Char) :
    b.step (.reference (name.flatMap String.utf8EncodeChar)) =
      (match resolve (String.ofList name) with
        | .ok c => b.addText (String.singleton c)
        | .error e => .error (.encoding e)) := by
  rw [step, ← Text.encode_ofList, decodeCharacters_encode]
  rfl

theorem spells_reference {name : List Char} {c : Char} (h : Names name c) (rest : Octets) :
    Spells opened (octet '&' :: (name.flatMap String.utf8EncodeChar ++ octet ';' :: rest)) rest
      (String.singleton c) := by
  have hname : ∀ x ∈ name, x ≠ '&' ∧ x ≠ ';' ∧ x ≠ '<' := fun x hx =>
    ⟨(h.ne_mark hx).1, (h.ne_mark hx).2.1, (h.ne_mark hx).2.2.1⟩
  have hne : String.singleton c ≠ "" := by simp
  refine .of_scanNext _ hne (scanNext_reference hname rest) rfl fun tag content frames root => ?_
  rw [step_reference, h.resolves]
  rfl

theorem spells_escapeChars (cs before : List Char) (h : ∀ c ∈ before, c ≠ '<' ∧ c ≠ '&')
    (rest : Octets) :
    Spells opened (before.flatMap String.utf8EncodeChar ++
        ((cs.flatMap escapeChar).flatMap String.utf8EncodeChar ++ octet '<' :: rest))
      (octet '<' :: rest) (String.ofList (before ++ cs)) := by
  induction cs generalizing before with
  | nil =>
    rw [List.append_nil]
    exact spells_characters h (by decide) rest
  | cons c cs ih =>
    rw [List.flatMap_cons, List.flatMap_append]
    rcases escapeChar_cases c with ⟨hc, hlt, hamp, _⟩ | ⟨name, hc, hname⟩
    · have hmore : ∀ x ∈ before ++ [c], x ≠ '<' ∧ x ≠ '&' := by
        intro x hx
        rcases List.mem_append.1 hx with hx | hx
        · exact h x hx
        · rw [List.mem_singleton.1 hx]
          exact ⟨hlt, hamp⟩
      have hih := ih (before ++ [c]) hmore
      rw [List.flatMap_append, List.append_assoc, List.append_assoc, List.singleton_append] at hih
      rw [hc, List.append_assoc]
      exact hih
    · have hspelled : ('&' :: (name ++ [';'])).flatMap String.utf8EncodeChar =
          octet '&' :: (name.flatMap String.utf8EncodeChar ++ [octet ';']) := by
        rw [List.flatMap_cons, List.flatMap_append]
        rfl
      have hih := ih [] nofun
      rw [List.flatMap_nil, List.nil_append, List.nil_append] at hih
      rw [hc, hspelled]
      simp only [List.cons_append, List.append_assoc, List.nil_append]
      have hall := (spells_characters h (by decide) _).trans ((spells_reference hname _).trans hih)
      rwa [show String.singleton c = String.ofList [c] from rfl, ← String.ofList_append,
        ← String.ofList_append] at hall

theorem spells_escape (s : String) (rest : Octets) :
    Spells opened (encode (escape s) ++ octet '<' :: rest) (octet '<' :: rest) s := by
  have hall : Spells opened _ (octet '<' :: rest) _ :=
    spells_escapeChars s.toList [] nofun rest
  rwa [List.flatMap_nil, List.nil_append, List.nil_append, String.ofList_toList,
    ← Text.encode_ofList] at hall

theorem resume_escape (s : String) (rest : Octets) :
    (inside tag content frames root).resume opened (encode (escape s) ++ octet '<' :: rest) =
      (inside tag (push s content) frames root).resume opened (octet '<' :: rest) :=
  (spells_escape s rest).resume_eq

end Text

section Elements

variable {tag : Tag}

theorem openTag_octets {hollow : Bool} (h : tag.IsReadable hollow)
    (hroot : b.frames = [] → b.root = none) :
    b.openTag tag.octets = .ok (tag.raw.tagIn b.scope) := by
  have hopen : ¬ (b.frames.isEmpty = true ∧ b.root.isSome = true) := by
    rintro ⟨hempty, hsome⟩
    rw [hroot (List.isEmpty_iff.1 hempty)] at hsome
    cases hsome
  rw [openTag, readTag_eq, h.read_octets]
  exact if_neg hopen

/-- Markup that starts with none of the three marks is a tag that opens an element. -/
theorem scanMarkup_eq {s : Octets}
    (h : ∀ a ∈ s.head?, a ≠ octet '!' ∧ a ≠ octet '/' ∧ a ≠ octet '?') :
    scanMarkup opened s = scanOpening opened s := by
  cases s with
  | nil => rfl
  | cons a s =>
    obtain ⟨hbang, hslash, hquestion⟩ := h a rfl
    rw [scanMarkup, if_neg hbang, if_neg hslash, if_neg hquestion]

theorem head?_append_cons (x : Octets) (a : UInt8) (y : Octets) :
    (x ++ a :: y).head? = (x ++ [a]).head? := by
  cases x <;> rfl

theorem scanNext_hollow {raw : Octets} (hsteady : Steady raw)
    (hfirst : ∀ a ∈ (raw ++ [octet '/']).head?, a ≠ octet '!' ∧ a ≠ octet '/' ∧ a ≠ octet '?')
    (rest : Octets) : scanNext opened (octet '<') (raw ++ octet '/' :: octet '>' :: rest) =
      .ok ⟨.empty raw, opened, rest⟩ := by
  have hslash : Steady (raw ++ [octet '/']) := hsteady.append (steady_singleton (by decide))
  have hend := hslash.tagEnd_close rest
  rw [List.append_assoc, List.singleton_append] at hend
  rw [← head?_append_cons raw _ (octet '>' :: rest)] at hfirst
  rw [scanNext, if_pos rfl, scanMarkup_eq hfirst, scanOpening, hend]
  dsimp only
  rw [if_pos List.getLast?_concat, List.dropLast_concat]

theorem scanNext_empty (h : tag.IsReadable true) (rest : Octets) :
    scanNext opened (octet '<') (tag.octets ++ octet '/' :: octet '>' :: rest) =
      .ok ⟨.empty tag.octets, opened, rest⟩ :=
  scanNext_hollow h.steady h.first rest

theorem scanNext_opening (h : tag.IsReadable false) (rest : Octets) :
    scanNext opened (octet '<') (tag.octets ++ octet '>' :: rest) =
      .ok ⟨.opening tag.octets, encode tag.qualifiedName :: opened, rest⟩ := by
  have hfirst := h.first
  rw [if_neg Bool.false_ne_true, ← head?_append_cons _ _ rest] at hfirst
  rw [scanNext, if_pos rfl, scanMarkup_eq hfirst, scanOpening, h.steady.tagEnd_close]
  dsimp only
  rw [if_neg (h.last rfl), h.tagName_octets]

theorem closingName_of_solid {name : Octets} (h : ∀ a ∈ name, isSpace a = false) :
    closingName name = name := by
  have hsolid : ∀ a ∈ name.reverse, isSpace a = false := fun a ha => h a (List.mem_reverse.1 ha)
  rw [closingName, Text.dropWhile_of_solid hsolid, List.reverse_reverse, ite_self]

theorem scanNext_closing (h : tag.IsReadable false) (rest : Octets) :
    scanNext (encode tag.qualifiedName :: opened) (octet '<')
      (octet '/' :: (encode tag.qualifiedName ++ octet '>' :: rest)) =
        .ok ⟨.closing, opened, rest⟩ := by
  have hsteady : Steady ([octet '/'] ++ encode tag.qualifiedName) :=
    (steady_singleton (by decide)).append (h.close rfl)
  have hend := hsteady.tagEnd_close rest
  rw [List.singleton_append, List.cons_append] at hend
  rw [scanNext, if_pos rfl, scanMarkup, if_neg (by decide), if_pos rfl, scanClosing, hend]
  dsimp only
  rw [List.drop_succ_cons, List.drop_zero, closingName_of_solid h.solid, if_pos rfl]

theorem enclose_none_append (tag : Tag) (rest : Octets) : tag.enclose none ++ rest =
    octet '<' :: (tag.octets ++ octet '/' :: octet '>' :: rest) := by
  rw [Tag.enclose, show encode "<" = [octet '<'] from rfl,
    show encode "/>" = [octet '/', octet '>'] from rfl]
  simp

theorem enclose_some_append (tag : Tag) (inner rest : Octets) : tag.enclose (some inner) ++ rest =
    octet '<' :: (tag.octets ++ octet '>' ::
      (inner ++ octet '<' :: octet '/' :: (encode tag.qualifiedName ++ octet '>' :: rest))) := by
  rw [Tag.enclose, show encode "<" = [octet '<'] from rfl,
    show encode "</" = [octet '<', octet '/'] from rfl, show encode ">" = [octet '>'] from rfl]
  simp

theorem resume_empty (h : tag.IsReadable true) (hroot : b.frames = [] → b.root = none)
    (rest : Octets) : b.resume opened (tag.enclose none ++ rest) =
      (b.attach (tag.raw.tagIn b.scope) []).resume opened rest := by
  have hstep : b.step (.empty tag.octets) = .ok (b.attach (tag.raw.tagIn b.scope) []) := by
    rw [step, openTag_octets h hroot]
    rfl
  rw [enclose_none_append, resume_cons (scanNext_empty h rest) hstep]

theorem resume_opening (h : tag.IsReadable false) (hroot : b.frames = [] → b.root = none)
    (rest : Octets) : b.resume opened (octet '<' :: (tag.octets ++ octet '>' :: rest)) =
      (inside (tag.raw.tagIn b.scope) [] b.frames b.root).resume
        (encode tag.qualifiedName :: opened) rest := by
  have hstart : b.step (.opening tag.octets) =
      .ok (inside (tag.raw.tagIn b.scope) [] b.frames b.root) := by
    rw [step, openTag_octets h hroot]
    rfl
  rw [resume_cons (scanNext_opening h rest) hstart]

theorem resume_enclose (h : tag.IsReadable false) (hroot : b.frames = [] → b.root = none)
    {inner : Octets} {content : List Content}
    (hinner : ∀ rest opened, (inside (tag.raw.tagIn b.scope) [] b.frames b.root).resume opened
        (inner ++ octet '<' :: rest) =
      (inside (tag.raw.tagIn b.scope) content b.frames b.root).resume opened (octet '<' :: rest))
    (rest : Octets) :
    b.resume opened (tag.enclose (some inner) ++ rest) =
      (b.attach (tag.raw.tagIn b.scope) (dropIndentation content.reverse)).resume opened rest := by
  have hclose : (inside (tag.raw.tagIn b.scope) content b.frames b.root).step .closing =
      .ok (b.attach (tag.raw.tagIn b.scope) (dropIndentation content.reverse)) := rfl
  rw [enclose_some_append, resume_opening h hroot, hinner,
    resume_cons (scanNext_closing h rest) hclose]

/-- Up to the next bracket, `content` adds to an open element what is read of it, also behind text
that has not been read yet. -/
def Resumes (content : List Content) : Prop :=
  ∀ (text : String) (tag : Tag) (before : List Content) (frames : List Frame)
    (root : Option Element) (opened : List Octets) (rest : Octets),
    (inside tag before frames root).resume opened
        (encode (escape text) ++ (contentOctets content ++ octet '<' :: rest)) =
      (inside tag ((rereadAll (inside tag before frames root).scope content).foldl pile
        (push text before)) frames root).resume opened (octet '<' :: rest)

theorem scope_inside (tag : Tag) (before : List Content) (frames : List Frame)
    (root : Option Element) : (inside tag before frames root).scope =
      tag.scope (Builder.mk frames root).scope := by
  rw [scope, List.filterMap_cons, Tag.scope]
  cases tag.ns <;> rfl

theorem Resumes.element {content : List Content} (hcontent : Resumes content)
    (h : tag.IsReadable content.isEmpty) (hroot : b.frames = [] → b.root = none)
    (opened : List Octets) (rest : Octets) :
    b.resume opened ((Content.element tag content).octets ++ rest) =
      (b.attach (tag.raw.tagIn b.scope)
        (rereadContent ((tag.raw.tagIn b.scope).scope b.scope) content)).resume opened rest := by
  rw [Content.octets]
  cases content with
  | nil => exact resume_empty h hroot rest
  | cons c cs =>
    refine resume_enclose h hroot (fun rest opened => ?_) rest
    have hinner := hcontent "" (tag.raw.tagIn b.scope) [] b.frames b.root opened rest
    rw [scope_inside] at hinner
    exact hinner

theorem exists_cons_octets (tag : Tag) (content : List Content) :
    ∃ x, (Content.element tag content).octets = octet '<' :: x := by
  rw [Content.octets]
  cases content with
  | nil => exact ⟨_, rfl⟩
  | cons c cs => exact ⟨_, rfl⟩

theorem resumes : ∀ content : List Content, AreReadable content → Resumes content
  | [], _ => by
    intro text tag before frames root opened rest
    exact resume_escape text rest
  | .text t :: cs, h => by
    intro text tag before frames root opened rest
    have hcs := resumes cs h.2 (text ++ t) tag before frames root opened rest
    rw [escape_append, Text.encode_append, List.append_assoc, ← push_push] at hcs
    rw [contentOctets, Content.octets, List.append_assoc]
    exact hcs
  | .element t inner :: cs, h => by
    intro text tag before frames root opened rest
    obtain ⟨x, hx⟩ := exists_cons_octets t inner
    have hframes : (inside tag (push text before) frames root).frames = [] → root = none := nofun
    have helement := (resumes inner h.1.2).element (b := inside tag (push text before) frames root)
      h.1.1 hframes opened (contentOctets cs ++ octet '<' :: rest)
    have hcs := resumes cs h.2 "" tag (.element (t.raw.tagIn (inside tag before frames root).scope)
      (rereadContent ((t.raw.tagIn (inside tag before frames root).scope).scope
        (inside tag before frames root).scope) inner) :: push text before) frames root opened rest
    rw [hx, List.cons_append] at helement
    rw [contentOctets, List.append_assoc, hx, List.cons_append, resume_escape, helement]
    exact hcs

end Elements

end Builder

/-- What is written is read with each tag as it is read there. -/
theorem parse_octets_of_readable {e : Element} (h : e.tag.IsReadable e.content.isEmpty)
    (hcontent : AreReadable e.content) : Element.parse e.octets = .ok ⟨e.tag.raw.tagIn [],
      rereadContent ((e.tag.raw.tagIn []).scope []) e.content⟩ := by
  obtain ⟨x, hx⟩ := Builder.exists_cons_octets e.tag e.content
  have helement := (Builder.resumes e.content hcontent).element (b := Builder.start) h
    (fun _ => rfl) [] []
  rw [List.append_nil, Builder.resume_nil] at helement
  have hscan : Event.scan e.octets = Event.scanFrom [] e.octets := by
    rw [Element.octets, hx]
    rfl
  rw [Element.parse, Element.ofEvents, hscan]
  exact helement

section Plain

mutual

theorem reread_of_plain (scope : List Namespace) : ∀ c : Content, c.IsPlain →
    c.reread scope = c.settle scope
  | .text _, _ => rfl
  | .element tag content, h => by
    have htag : tag.raw.tagIn scope = tag.within scope := h.1.tagIn_raw scope
    have hcontent := rereadAll_of_plain ((tag.within scope).scope scope) content h.2
    rw [Content.reread, Content.settle, htag, hcontent]

theorem rereadAll_of_plain (scope : List Namespace) : ∀ content : List Content, ArePlain content →
    rereadAll scope content = settleAll scope content
  | [], _ => rfl
  | c :: cs, h => by
    rw [rereadAll, settleAll, reread_of_plain scope c h.1, rereadAll_of_plain scope cs h.2]

end

theorem areReadable_of_plain : ∀ content : List Content, ArePlain content → AreReadable content
  | [], _ => trivial
  | .text _ :: cs, h => ⟨trivial, areReadable_of_plain cs h.2⟩
  | .element _ inner :: cs, h =>
    ⟨⟨h.1.1.isLegible.isReadable _, areReadable_of_plain inner h.1.2⟩,
      areReadable_of_plain cs h.2⟩

theorem parse_octets {e : Element} (h : e.tag.IsPlain) (hcontent : ArePlain e.content) :
    Element.parse e.octets = .ok ⟨e.tag.within [],
      settleContent ((e.tag.within []).scope []) e.content⟩ := by
  have htag : e.tag.raw.tagIn [] = e.tag.within [] := h.tagIn_raw []
  rw [parse_octets_of_readable (h.isLegible.isReadable _) (areReadable_of_plain _ hcontent), htag,
    rereadContent, rereadAll_of_plain _ _ hcontent]
  rfl

end Plain

end ServiceClient.Xml
