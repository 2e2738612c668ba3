import ServiceClient.Proofs.Xml.Path
import ServiceClient.Proofs.Xml.Shape

/-! What reading says about the spelling of a tag: how its name is made of its parts, that its keys
are words, and that no value is open where its closing tag ends. It holds of every tag of a parsed
element, in its place. -/

namespace ServiceClient.Xml

open Text (Octets encode)

section Ends

def Quoting.IsProper (q : Quoting) : Prop :=
  q = .outside ∨ q = .inside (octet '\'') ∨ q = .inside (octet '"')

theorem Quoting.IsProper.after {q : Quoting} (h : q.IsProper) (b : UInt8) : (q.after b).IsProper := by
  rcases h with rfl | rfl | rfl
  · rw [Quoting.after]
    split_ifs with hb
    · rcases hb with rfl | rfl
      · exact .inr (.inl rfl)
      · exact .inr (.inr rfl)
    · exact .inl rfl
  · rw [Quoting.after]
    split_ifs
    · exact .inl rfl
    · exact .inr (.inl rfl)
  · rw [Quoting.after]
    split_ifs
    · exact .inl rfl
    · exact .inr (.inr rfl)

theorem Quoting.IsProper.after_space {q : Quoting} (h : q.IsProper) {b : UInt8}
    (hb : isSpace b = true) : q.after b = q := by
  have hsingle : b ≠ octet '\'' := by rintro rfl; exact absurd hb (by decide)
  have hdouble : b ≠ octet '"' := by rintro rfl; exact absurd hb (by decide)
  rcases h with rfl | rfl | rfl
  · exact after_outside_of_ne ⟨hsingle, hdouble⟩
  · exact after_inside_of_ne hsingle
  · exact after_inside_of_ne hdouble

variable {q : Quoting} {b : UInt8} {s x y : Octets}

theorem exists_of_tagEnd_cons (hb : ¬ (q = .outside ∧ b = octet '>'))
    (h : tagEnd q (b :: s) = .ok (x, y)) : ∃ x', x = b :: x' ∧ tagEnd (q.after b) s = .ok (x', y) := by
  rw [tagEnd_cons hb] at h
  cases hmore : tagEnd (q.after b) s with
  | error e => rw [hmore] at h; cases h
  | ok r =>
    rw [hmore] at h
    obtain ⟨rfl, rfl⟩ := Prod.mk.inj (Except.ok.inj h)
    exact ⟨_, rfl, rfl⟩

theorem eq_append_of_tagEnd (h : tagEnd q s = .ok (x, y)) : s = x ++ octet '>' :: y := by
  induction s generalizing q x with
  | nil => cases h
  | cons b s ih =>
    by_cases hb : q = .outside ∧ b = octet '>'
    · rw [tagEnd, if_pos hb] at h
      obtain ⟨rfl, rfl⟩ := Prod.mk.inj (Except.ok.inj h)
      rw [hb.2]
      rfl
    · obtain ⟨x', rfl, hmore⟩ := exists_of_tagEnd_cons hb h
      rw [ih hmore]
      rfl

/-- Where a bracket behind blanks ends the tag, no value is open before them. -/
theorem outside_of_tagEnd (hq : q.IsProper) (hx : ∀ b ∈ x, isSpace b = true)
    (h : tagEnd q (x ++ octet '>' :: y) = .ok (x, y)) : q = .outside := by
  induction x with
  | nil =>
    by_contra hne
    obtain ⟨x', hx', -⟩ := exists_of_tagEnd_cons (fun h => hne h.1) h
    cases hx'
  | cons b x ih =>
    rw [List.forall_mem_cons] at hx
    have hb : b ≠ octet '>' := by rintro rfl; exact absurd hx.1 (by decide)
    obtain ⟨x', hx', hmore⟩ := exists_of_tagEnd_cons (fun h => hb h.2) h
    rw [hq.after_space hx.1, ← (List.cons.inj hx').2] at hmore
    exact ih hx.2 hmore

theorem tagEnd_append_of_tagEnd (hq : q.IsProper) {z : Octets} (hz : ∀ b ∈ z, isSpace b = true)
    (h : tagEnd q (x ++ (z ++ octet '>' :: y)) = .ok (x ++ z, y)) (more : Octets) :
    tagEnd q (x ++ more) = (tagEnd .outside more).map fun (a, b) => (x ++ a, b) := by
  induction x generalizing q with
  | nil =>
    obtain rfl := outside_of_tagEnd hq hz h
    exact steady_nil more
  | cons b x ih =>
    by_cases hb : q = .outside ∧ b = octet '>'
    · rw [List.cons_append, tagEnd, if_pos hb] at h
      cases h
    · obtain ⟨x', hx', hmore⟩ := exists_of_tagEnd_cons hb h
      rw [← (List.cons.inj hx').2] at hmore
      rw [List.cons_append, tagEnd_cons hb, ih (hq.after b) hmore]
      cases tagEnd .outside more <;> rfl

theorem steady_of_tagEnd {z : Octets} (hz : ∀ b ∈ z, isSpace b = true)
    (h : tagEnd .outside (x ++ (z ++ octet '>' :: y)) = .ok (x ++ z, y)) : Steady x :=
  tagEnd_append_of_tagEnd (.inl rfl) hz h

theorem Steady.of_cons (hb : b ≠ octet '>' ∧ b ≠ octet '\'' ∧ b ≠ octet '"')
    (h : Steady (b :: x)) : Steady x := by
  intro y
  have hcons := h y
  rw [List.cons_append, tagEnd_cons fun h => hb.1 h.2, after_outside_of_ne hb.2] at hcons
  cases hleft : tagEnd .outside (x ++ y) with
  | error e =>
    rw [hleft] at hcons
    cases hright : tagEnd .outside y with
    | error e' => rw [hright] at hcons; exact hcons
    | ok r => rw [hright] at hcons; cases hcons
  | ok l =>
    rw [hleft] at hcons
    cases hright : tagEnd .outside y with
    | error e' => rw [hright] at hcons; cases hcons
    | ok r =>
      rw [hright] at hcons
      obtain ⟨hx, hy⟩ := Prod.mk.inj (Except.ok.inj hcons)
      exact congrArg Except.ok (Prod.ext (List.cons.inj hx).2 hy)

end Ends

section Words

variable {position : Nat} {s raw : Octets}

theorem encode_of_decodeOctets {t : String} (h : decodeOctets s = .ok t) : encode t = s := by
  rw [decodeOctets] at h
  split at h
  · rename_i hdecode
    obtain rfl := Except.ok.inj h
    exact Text.encode_of_decode hdecode
  · cases h

theorem isWord_of_scanKey {k : KeyStep} (h : scanKey position s = .ok (some k)) : IsWord k.key := by
  rw [scanKey] at h
  dsimp only at h
  split at h
  · cases h
  · rename_i b rest hs
    have hb : isSpace b = false := by
      have hhead := List.head?_dropWhile_not isSpace s
      rw [hs] at hhead
      simpa using hhead
    split at h
    · cases h
    · split_ifs at h
      obtain rfl := Option.some.inj (Except.ok.inj h)
      exact ⟨hb, fun c hc => List.mem_takeWhile_imp hc⟩

theorem isWord_of_readAttributes {seen : List (Octets × Nat)} {l : List Attribute}
    (h : readAttributes seen position s = .ok l) : ∀ a ∈ l, IsWord (encode a.name) := by
  fun_induction readAttributes seen position s generalizing l with
  | case2 seen position s hkey =>
    obtain rfl := Except.ok.inj h
    exact nofun
  | case8 seen position s k hkey hseen v hvalue hlength key hname raw hraw value hunescape more hmore
      ih =>
    obtain rfl := Except.ok.inj h
    refine List.forall_mem_cons.2 ⟨?_, ih hmore⟩
    rw [encode_of_decodeOctets hname]
    exact isWord_of_scanKey hkey
  | _ => cases h

end Words

section Reading

variable {raw : Octets} {t : RawTag}

theorem splitName_cases {name base : Octets} {p : Option Octets}
    (h : splitName name = (p, base)) : p = none ∧ name = base ∨
      ∃ q, p = some q ∧ name = q ++ octet ':' :: base ∧ ∀ b ∈ q, (b == octet ':') = false := by
  rw [splitName] at h
  split at h
  · rename_i q rest hsplit
    obtain ⟨rfl, rfl⟩ := Prod.mk.inj h
    obtain ⟨b, hb, hname⟩ := Text.append_of_splitFirst? hsplit
    rw [beq_iff_eq.1 hb] at hname
    exact .inr ⟨q, rfl, hname, Text.solid_of_splitFirst? hsplit⟩
  · obtain ⟨rfl, rfl⟩ := Prod.mk.inj h
    exact .inl ⟨rfl, rfl⟩

theorem RawTag.exists_of_read (h : RawTag.read raw = .ok t) :
    ∃ p, splitName (tagName raw) = (p, encode t.name) ∧ encode t.nsPrefix = p.getD [] ∧
      ∀ a ∈ t.attributes, IsWord (encode a.name) := by
  obtain ⟨base, hbase, h⟩ := exists_of_bind h
  obtain ⟨p, hqualifier, h⟩ := exists_of_bind h
  obtain ⟨attributes, hattributes, h⟩ := exists_of_bind h
  obtain rfl := Except.ok.inj h
  exact ⟨(splitName (tagName raw)).1, Prod.ext rfl (encode_of_decodeOctets hbase).symm,
    encode_of_decodeOctets hqualifier, isWord_of_readAttributes hattributes⟩

theorem RawTag.tagName_cases (h : RawTag.read raw = .ok t) :
    t.nsPrefix = "" ∧ tagName raw = encode t.name ∨
      tagName raw = encode t.nsPrefix ++ octet ':' :: encode t.name ∧
        ∀ b ∈ encode t.nsPrefix, (b == octet ':') = false := by
  obtain ⟨p, hsplit, hqualifier, -⟩ := RawTag.exists_of_read h
  rcases splitName_cases hsplit with ⟨rfl, hname⟩ | ⟨q, rfl, hname, hq⟩
  · exact .inl ⟨Text.encode_injective hqualifier, hname⟩
  · rw [Option.getD_some] at hqualifier
    rw [hqualifier]
    exact .inr ⟨hname, hq⟩

theorem isSpace_of_mem_tagName {b : UInt8} (hb : b ∈ tagName raw) : isSpace b = false := by
  simpa using List.mem_takeWhile_imp hb

theorem qualifiedName_tagIn (scope : List Namespace) (t : RawTag) :
    (t.tagIn scope).qualifiedName =
      if t.nsPrefix.isEmpty then t.name else t.nsPrefix ++ ":" ++ t.name := by
  rw [Tag.qualifiedName, RawTag.tagIn]
  split_ifs <;> rfl

/-- A tag is written by the name that it was read by, but for a colon with nothing in front. -/
theorem RawTag.tagName_eq (h : RawTag.read raw = .ok t) (scope : List Namespace) :
    tagName raw = encode (t.tagIn scope).qualifiedName ∨
      tagName raw = octet ':' :: encode (t.tagIn scope).qualifiedName := by
  rw [qualifiedName_tagIn]
  rcases RawTag.tagName_cases h with ⟨hempty, hname⟩ | ⟨hname, -⟩
  · rw [if_pos (by rw [hempty]; rfl)]
    exact .inl hname
  · split_ifs with hempty
    · have hnil : t.nsPrefix = "" := by simpa using hempty
      rw [hname, hnil]
      exact .inr rfl
    · rw [hname, Text.encode_append, Text.encode_append, List.append_assoc]
      exact .inl rfl

end Reading

section Closing

/-- Of the tags that are open, and those that events open, each that is closed has a steady name. -/
def Closes : List Octets → List Event → Prop
  | _, [] => True
  | opened, .opening raw :: events => Closes (tagName raw :: opened) events
  | name :: opened, .closing :: events => Steady name ∧ Closes opened events
  | opened, _ :: events => Closes opened events

variable {opened : List Octets} {b : UInt8} {s : Octets} {t : Step} {events : List Event}

theorem exists_blanks_of_closingName (tag : Octets) :
    ∃ z, (∀ b ∈ z, isSpace b = true) ∧ tag = closingName tag ++ z := by
  rw [closingName]
  split_ifs
  · exact ⟨[], fun b hb => absurd hb List.not_mem_nil, (List.append_nil _).symm⟩
  · refine ⟨(tag.reverse.takeWhile isSpace).reverse,
      fun b hb => List.mem_takeWhile_imp (List.mem_reverse.1 hb), ?_⟩
    rw [← List.reverse_append, List.takeWhile_append_dropWhile, List.reverse_reverse]

theorem closes_of_scanClosing (h : scanClosing opened (octet '/' :: s) = .ok t)
    (hmore : Closes t.opened events) : Closes opened (t.event :: events) := by
  rw [scanClosing] at h
  split at h
  · cases h
  · rename_i tag rest htag
    obtain ⟨inner, rfl, hinner⟩ := exists_of_tagEnd_cons (by decide) htag
    dsimp only at h
    split at h
    · cases h
    · rename_i expected opened
      split_ifs at h with hname
      obtain rfl := Except.ok.inj h
      obtain ⟨z, hz, hsplit⟩ := exists_blanks_of_closingName inner
      rw [List.drop_succ_cons, List.drop_zero] at hname
      rw [hname] at hsplit
      rw [eq_append_of_tagEnd hinner, after_outside_of_ne (by decide), hsplit, List.append_assoc]
        at hinner
      exact ⟨steady_of_tagEnd hz hinner, hmore⟩

theorem closes_of_scanDeclaration (h : scanDeclaration opened s = .ok t)
    (hmore : Closes t.opened events) : Closes opened (t.event :: events) := by
  rw [scanDeclaration] at h
  repeat' split at h
  all_goals cases h
  all_goals exact hmore

theorem closes_of_scanNext (h : scanNext opened b s = .ok t)
    (hmore : Closes t.opened events) : Closes opened (t.event :: events) := by
  rw [scanNext] at h
  split_ifs at h with hbracket hampersand
  · rw [scanMarkup.eq_def] at h
    split at h
    · cases h
    · rename_i a rest
      split_ifs at h with hbang hslash hquestion
      · exact closes_of_scanDeclaration h hmore
      · rw [hslash] at h
        exact closes_of_scanClosing h hmore
      · rw [scanInstruction] at h
        repeat' split at h
        all_goals cases h
        all_goals exact hmore
      · rw [scanOpening] at h
        repeat' split at h
        all_goals cases h
        all_goals exact hmore
  · rw [scanReference] at h
    dsimp only at h
    repeat' split at h
    all_goals cases h
    exact hmore
  · obtain rfl := Except.ok.inj h
    exact hmore

theorem closes_scanFrom (opened : List Octets) (s : Octets) :
    Closes opened (Event.scanFrom opened s).events := by
  fun_induction Event.scanFrom opened s with
  | case1 opened => cases opened <;> trivial
  | case2 opened => cases opened <;> trivial
  | case3 opened b rest t hscan hlength more ih => exact closes_of_scanNext hscan ih

theorem closes_scan (s : Octets) : Closes [] (Event.scan s).events := by
  unfold Event.scan
  split
  · exact closes_scanFrom _ _
  · exact closes_scanFrom _ _

end Closing

section Origins

mutual

def Content.IsRead (scope : List Namespace) : Content → Prop
  | .text _ => True
  | .element tag content =>
    (∃ raw t, RawTag.read raw = .ok t ∧ tag = t.tagIn scope) ∧
      (content ≠ [] → Steady (encode tag.qualifiedName)) ∧ AreRead (tag.scope scope) content

def AreRead (scope : List Namespace) : List Content → Prop
  | [] => True
  | c :: cs => c.IsRead scope ∧ AreRead scope cs

end

variable {scope : List Namespace} {content : List Content}

theorem areRead_iff : AreRead scope content ↔ ∀ c ∈ content, c.IsRead scope := by
  induction content with
  | nil => simp [AreRead]
  | cons c cs ih => rw [AreRead, ih, List.forall_mem_cons]

theorem areRead_pushText (h : AreRead scope content) (s : String) :
    AreRead scope (pushText s content) := by
  cases content with
  | nil => exact ⟨trivial, trivial⟩
  | cons c cs => cases c with
    | text t => exact h
    | element tag inner => exact ⟨trivial, h⟩

namespace Builder

inductive Opened : List Octets → List Frame → Prop
  | nil : Opened [] []
  | cons {raw : Octets} {t : RawTag} {scope : List Namespace} {content : List Content}
      {names : List Octets} {frames : List Frame} (hread : RawTag.read raw = .ok t)
      (hscope : scope = frames.filterMap (·.tag.ns))
      (hcontent : AreRead ((t.tagIn scope).scope scope) content) (h : Opened names frames) :
      Opened (tagName raw :: names) (⟨t.tagIn scope, content⟩ :: frames)

structure IsRead (b : Builder) (names : List Octets) : Prop where
  opened : Opened names b.frames
  root : ∀ e ∈ b.root, (Content.element e.tag e.content).IsRead []

theorem isRead_start : start.IsRead [] := ⟨.nil, nofun⟩

variable {b b' : Builder} {names : List Octets} {event : Event} {events : List Event}

theorem IsRead.attach (h : b.IsRead names) {tag : Tag}
    (hread : (Content.element tag content).IsRead b.scope) : (b.attach tag content).IsRead names := by
  obtain ⟨frames, root⟩ := b
  obtain ⟨hopened, hroot⟩ := h
  cases hopened with
  | nil => exact ⟨.nil, fun e he => Option.some.inj he ▸ hread⟩
  | cons hfirst hscope hcontent hmore =>
    subst hscope
    rw [scope_inside] at hread
    exact ⟨.cons hfirst rfl ⟨hread, hcontent⟩ hmore, hroot⟩

theorem closes_of_isCharacterData (hevent : event.isCharacterData = true)
    (h : Closes names (event :: events)) : Closes names events := by
  cases event with
  | opening _ | empty _ | closing | ignored => cases hevent
  | _ => exact h

theorem steady_qualifiedName {raw : Octets} {t : RawTag} (hread : RawTag.read raw = .ok t)
    (hname : Steady (tagName raw)) (scope : List Namespace) :
    Steady (encode (t.tagIn scope).qualifiedName) := by
  rcases RawTag.tagName_eq hread scope with heq | heq
  · exact heq ▸ hname
  · rw [heq] at hname
    exact hname.of_cons (by decide)

theorem Outcome.isRead (houtcome : Outcome b event b')
    (h : ∃ names, Closes names (event :: events) ∧ b.IsRead names) :
    ∃ names, Closes names events ∧ b'.IsRead names := by
  obtain ⟨names, hcloses, hread⟩ := h
  cases houtcome with
  | @opening raw tag htag =>
    obtain ⟨t, ht, rfl, -⟩ := exists_read_of_openTag htag
    exact ⟨tagName raw :: names, hcloses, .cons ht rfl trivial hread.opened, hread.root⟩
  | @empty raw tag htag =>
    obtain ⟨t, ht, rfl, -⟩ := exists_read_of_openTag htag
    exact ⟨names, hcloses, hread.attach ⟨⟨raw, t, ht, rfl⟩, fun h => absurd rfl h, trivial⟩⟩
  | @closing f frames hframes =>
    obtain ⟨opened, root⟩ := b
    obtain rfl : opened = f :: frames := hframes
    obtain ⟨hopened, hroot⟩ := hread
    cases hopened with
    | cons ht hscope hcontent hmore =>
      subst hscope
      have hrest : (Builder.mk frames root).IsRead _ := ⟨hmore, hroot⟩
      refine ⟨_, hcloses.2, hrest.attach ⟨⟨_, _, ht, rfl⟩, fun _ => ?_, ?_⟩⟩
      · exact steady_qualifiedName ht hcloses.1 _
      · exact areRead_iff.2 fun c hc => areRead_iff.1 hcontent c
          (List.mem_reverse.1 (mem_of_mem_dropIndentation hc))
  | unopened hframes =>
    obtain ⟨hopened, hroot⟩ := hread
    rw [hframes] at hopened
    cases hopened with
    | nil => exact ⟨[], hcloses, hframes ▸ .nil, hroot⟩
  | @text _ f frames hevent s hframes =>
    obtain ⟨opened, root⟩ := b
    obtain rfl : opened = f :: frames := hframes
    obtain ⟨hopened, hroot⟩ := hread
    refine ⟨names, closes_of_isCharacterData hevent hcloses, ?_, hroot⟩
    cases hopened with
    | cons ht hscope hcontent hmore => exact .cons ht hscope (areRead_pushText hcontent s) hmore
  | blank hevent hframes => exact ⟨names, closes_of_isCharacterData hevent hcloses, hread⟩
  | ignored => exact ⟨names, hcloses, hread⟩

end Builder

theorem Element.isRead_of_parse {s : Octets} {e : Element} (h : Element.parse s = .ok e) :
    (Content.element e.tag e.content).IsRead [] := by
  obtain ⟨b, hrun, _, _, hroot⟩ := Element.exists_run_of_parse h
  obtain ⟨_, _, hread⟩ := Builder.run_induction
    (I := fun events b => ∃ names, Closes names events ∧ b.IsRead names)
    (fun h houtcome => houtcome.isRead h)
    ⟨[], closes_scan s, Builder.isRead_start⟩ hrun
  exact hread.root e hroot

end Origins

end ServiceClient.Xml
