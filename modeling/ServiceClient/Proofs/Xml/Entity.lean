import ServiceClient.Proofs.Number.Numeral
import ServiceClient.Proofs.Xml.Parse
import ServiceClient.Xml.Cursor

/-! A reference in text and the same one as the value of an attribute. Each place has its own
reading; the two come to the same unless the number has a sign, an upper-case mark or is zero. -/

namespace ServiceClient.Xml

open Text (Octets encode)

/-- Neither the reference nor the value that it stands in ends in its name. -/
def IsReferenceName (r : String) : Prop :=
  ∀ c ∈ [';', '&', '<', '"', '\''], c ∉ r.toList

instance (r : String) : Decidable (IsReferenceName r) :=
  inferInstanceAs (Decidable (∀ c ∈ _, _))

def numberMarks : List String := ["#", "#x", "#X"]

def IsSigned (r : String) : Prop :=
  ∃ mark ∈ numberMarks, mark.toList ++ ['+'] <+: r.toList

instance (r : String) : Decidable (IsSigned r) :=
  inferInstanceAs (Decidable (∃ _ ∈ _, _))

def IsNull (r : String) : Prop :=
  ∃ mark ∈ numberMarks, ∃ n, r.toList = mark.toList ++ List.replicate (n + 1) '0'

def bare (p : Option String) (name : String) : Tag := ⟨name, p, none, []⟩

def textElement (tag : Tag) (r : String) : Octets :=
  encode ("<" ++ tag.qualifiedName ++ ">&" ++ r ++ ";</" ++ tag.qualifiedName ++ ">")

def attributeElement (tag : Tag) (key : String) (quote : Char) (r : String) : Octets :=
  encode ("<" ++ tag.qualifiedName ++ " " ++ key ++ "=" ++ String.singleton quote ++ "&" ++ r ++
    ";" ++ String.singleton quote ++ "/>")

def rootText (s : Octets) : Except XmlError (Option String) :=
  (Document.parse s).map fun d => (Cursor.atRoot d).text? d

def rootAttribute (key : String) (s : Octets) : Except XmlError (Option String) :=
  (Document.parse s).map fun d => ((Cursor.atRoot d).descend d (.forAttribute key)).text? d

section Numbers

variable {base limit n : Nat} {s : List Char}

theorem digitValue?_eq_zero {c : Char} (h : Number.digitValue? base c = some 0) : c = '0' := by
  rw [Number.digitValue?, Option.filter_eq_some_iff] at h
  obtain ⟨hvalue, -⟩ := h
  unfold Text.Hex.digitValue? at hvalue
  split_ifs at hvalue with hdigit hlower hupper
  · have hzero := Option.some.inj hvalue
    have hlow : '0'.toNat ≤ c.toNat := hdigit.1
    exact Char.toNat_inj.1 (by omega)
  · have hzero := Option.some.inj hvalue
    omega
  · have hzero := Option.some.inj hvalue
    omega

theorem eq_replicate_of_readDigits (hbase : 0 < base)
    (h : Number.readDigits base limit n s = .ok 0) : n = 0 ∧ s = List.replicate s.length '0' := by
  induction s generalizing n with
  | nil => exact ⟨Except.ok.inj h, rfl⟩
  | cons c s ih =>
    rw [Number.readDigits] at h
    split at h
    · cases h
    · rename_i d hd
      split_ifs at h
      obtain ⟨hsum, hs⟩ := ih h
      have hzero : d = 0 ∧ n * base = 0 := by omega
      rw [hzero.1] at hd
      refine ⟨(Nat.mul_eq_zero.1 hzero.2).resolve_right (Nat.ne_of_gt hbase), ?_⟩
      rw [digitValue?_eq_zero hd, List.length_cons, List.replicate_succ, ← hs]

theorem eq_replicate_of_readNatural (hbase : 0 < base) (hsign : s.head? ≠ some '+')
    (h : Number.readNatural base limit s = .ok 0) : ∃ n, s = List.replicate (n + 1) '0' := by
  rw [Number.readNatural.eq_def] at h
  split at h
  · cases h
  · exact absurd rfl hsign
  · rename_i hne _
    obtain ⟨-, hs⟩ := eq_replicate_of_readDigits hbase h
    obtain ⟨c, rest, rfl⟩ := List.exists_cons_of_ne_nil hne
    exact ⟨rest.length, hs⟩

theorem readNatural_of_not_digit {c : Char} (hc : Number.digitValue? base c = none)
    (hsign : c ≠ '+') (s : List Char) :
    Number.readNatural base limit (c :: s) = .error .invalidDigit := by
  rw [Number.readNatural.eq_def]
  split
  · contradiction
  · rename_i hcons
    exact absurd (List.cons.inj hcons).1 hsign
  · rw [Number.readDigits, hc]

end Numbers

section Agreement

variable {r : String}

def numbered? (base : Nat) (digits : List Char) : Option Char :=
  (Number.readNatural base wordLimit digits).toOption.bind codepoint?

theorem toOption_resolve {code : List Char} (hr : r.toList = '#' :: code) :
    (resolve r).toOption =
      numbered? (referenceDigits true code).1 (referenceDigits true code).2 := by
  rw [resolve, hr]
  split
  · rename_i code' hcode
    obtain rfl := (List.cons.inj hcode).2
    obtain ⟨base, digits⟩ := referenceDigits true code
    dsimp only
    rw [numbered?]
    cases (Number.readNatural base wordLimit digits).toOption.bind codepoint? <;> rfl
  · rename_i hother
    exact absurd rfl (hother code)

theorem toOption_referencedCharacter {code digits : List Char} {base : Nat}
    (hcode : referenceDigits false code = (base, digits)) (hbase : 0 < base)
    (hminus : Number.digitValue? base '-' = none) (hsign : digits.head? ≠ some '+')
    (hnull : ∀ n, digits ≠ List.replicate (n + 1) '0') :
    (referencedCharacter code).toOption = numbered? base digits := by
  rw [referencedCharacter, hcode, numbered?]
  dsimp only
  by_cases hnegative : digits.head? = some '-'
  · obtain ⟨rest, rfl⟩ := List.head?_eq_some_iff.1 hnegative
    rw [if_pos (.inr hnegative), readNatural_of_not_digit hminus (by decide)]
    rfl
  · rw [if_neg (not_or.2 ⟨hsign, hnegative⟩)]
    split
    · rename_i hread
      rw [hread]
      rfl
    · rename_i hread
      obtain ⟨n, hzeros⟩ := eq_replicate_of_readNatural hbase hsign hread
      exact absurd hzeros (hnull n)
    · rename_i n _ hread
      rw [hread]
      cases hpoint : codepoint? n <;> simp [Except.toOption, hpoint]

theorem toOption_unescapeName (start stop : Nat) (code : List Char) :
    (unescapeName start stop ('#' :: code)).toOption = (referencedCharacter code).toOption := by
  rw [unescapeName]
  cases referencedCharacter code <;> rfl

theorem toOption_resolve_entity (h : r.toList.head? ≠ some '#') :
    (resolve r).toOption = entity? r := by
  rw [resolve.eq_def]
  split
  · rename_i hr
    rw [hr] at h
    exact absurd rfl h
  · cases entity? r <;> rfl

theorem toOption_unescapeName_entity (start stop : Nat) {name : List Char}
    (h : name.head? ≠ some '#') :
    (unescapeName start stop name).toOption = entity? (String.ofList name) := by
  rw [unescapeName.eq_def]
  split
  · exact absurd rfl h
  · cases entity? (String.ofList name) <;> rfl

theorem referenceDigits_decimal {code : List Char} (hx : code.head? ≠ some 'x')
    (hX : code.head? ≠ some 'X') {upperX : Bool} : referenceDigits upperX code = (10, code) := by
  rw [referenceDigits.eq_def]
  split
  · exact absurd rfl hx
  · exact absurd rfl hX
  · rfl

theorem toOption_unescapeName_upper (start stop : Nat) (digits : List Char) :
    (unescapeName start stop ('#' :: 'X' :: digits)).toOption = none := by
  have hread : numbered? 10 ('X' :: digits) = none := by
    rw [numbered?, readNatural_of_not_digit (by decide) (by decide)]
    rfl
  rw [toOption_unescapeName, ← hread]
  refine toOption_referencedCharacter rfl (by decide) (by decide) (by simp) fun n => ?_
  simp [List.replicate_succ]

theorem resolve_upper (digits : String) :
    (resolve ("#X" ++ digits)).toOption = (resolve ("#x" ++ digits)).toOption := by
  have hupper : ("#X" ++ digits).toList = '#' :: 'X' :: digits.toList := String.toList_append
  have hlower : ("#x" ++ digits).toList = '#' :: 'x' :: digits.toList := String.toList_append
  rw [toOption_resolve hupper, toOption_resolve hlower]
  rfl

/-- The two readings of a reference know the same entities and the same numbers. -/
theorem resolve_eq_unescapeName (hsign : ¬ IsSigned r) (hnull : ¬ IsNull r)
    (hupper : ¬ "#X".toList <+: r.toList) (start stop : Nat) :
    (resolve r).toOption = (unescapeName start stop r.toList).toOption := by
  have hhead : ∀ mark ∈ numberMarks, ∀ digits, r.toList = mark.toList ++ digits →
      digits.head? ≠ some '+' := by
    rintro mark hmark digits hr hplus
    obtain ⟨rest, rfl⟩ := List.head?_eq_some_iff.1 hplus
    refine hsign ⟨mark, hmark, rest, ?_⟩
    rw [hr, List.append_assoc]
    rfl
  have hzeros : ∀ mark ∈ numberMarks, ∀ digits, r.toList = mark.toList ++ digits →
      ∀ n, digits ≠ List.replicate (n + 1) '0' := by
    rintro mark hmark digits hr n rfl
    exact hnull ⟨mark, hmark, n, hr⟩
  by_cases hnumber : r.toList.head? = some '#'
  · obtain ⟨code, hr⟩ := List.head?_eq_some_iff.1 hnumber
    rw [toOption_resolve hr, hr, toOption_unescapeName]
    by_cases hx : code.head? = some 'x'
    · obtain ⟨digits, rfl⟩ := List.head?_eq_some_iff.1 hx
      have hcode : referenceDigits false ('x' :: digits) = (16, digits) := rfl
      exact (toOption_referencedCharacter hcode (by decide) (by decide)
        (hhead "#x" (by decide) digits hr) (hzeros "#x" (by decide) digits hr)).symm
    · have hX : code.head? ≠ some 'X' := by
        intro hX
        obtain ⟨digits, rfl⟩ := List.head?_eq_some_iff.1 hX
        exact hupper ⟨digits, hr.symm⟩
      rw [referenceDigits_decimal hx hX, toOption_referencedCharacter
        (referenceDigits_decimal hx hX) (by decide) (by decide)
        (hhead "#" (by decide) code hr) (hzeros "#" (by decide) code hr)]
  · rw [toOption_resolve_entity hnumber, toOption_unescapeName_entity start stop hnumber,
      String.ofList_toList]

end Agreement

section Elements

variable {p : Option String} {name key r : String} {quote : Char}

theorem IsReferenceName.ne_mark (h : IsReferenceName r) {x : Char} (hx : x ∈ r.toList) :
    x ≠ '&' ∧ x ≠ ';' ∧ x ≠ '<' ∧ x ≠ '"' := by
  refine ⟨?_, ?_, ?_, ?_⟩ <;> (rintro rfl; exact h _ (by decide) hx)

theorem isPlain_bare (hp : ∀ q ∈ p, IsName q) (hname : IsName name) : (bare p name).IsPlain :=
  ⟨hname, hp, nofun, nofun, .nil⟩

theorem encode_eq (s : String) : encode s = s.toList.flatMap String.utf8EncodeChar := rfl

theorem textElement_eq (p : Option String) (name r : String) : textElement (bare p name) r =
    octet '<' :: ((bare p name).octets ++ octet '>' :: octet '&' ::
      (r.toList.flatMap String.utf8EncodeChar ++ octet ';' :: octet '<' :: octet '/' ::
        (encode (bare p name).qualifiedName ++ [octet '>']))) := by
  rw [textElement, Tag.octets, ← encode_eq]
  simp only [Text.encode_append, show encode "<" = [octet '<'] from rfl,
    show encode ">&" = [octet '>', octet '&'] from rfl,
    show encode ";</" = [octet ';', octet '<', octet '/'] from rfl,
    show encode ">" = [octet '>'] from rfl]
  simp [bare, Tag.written]

theorem parse_textElement (hp : ∀ q ∈ p, IsName q) (hname : IsName name)
    (hr : IsReferenceName r) :
    Element.parse (textElement (bare p name) r) =
      (match resolve r with
        | .ok c => .ok ⟨bare p name, [.text (String.singleton c)]⟩
        | .error e => .error (.encoding e)) := by
  have hreadable := (isPlain_bare hp hname).isLegible.isReadable false
  have htag : (bare p name).raw.tagIn Builder.start.scope = bare p name :=
    (isPlain_bare hp hname).tagIn_raw []
  have hmarks : ∀ x ∈ r.toList, x ≠ '&' ∧ x ≠ ';' ∧ x ≠ '<' := fun x hx =>
    ⟨(hr.ne_mark hx).1, (hr.ne_mark hx).2.1, (hr.ne_mark hx).2.2.1⟩
  have hparse : Element.parse (textElement (bare p name) r) =
      Builder.start.resume [] (textElement (bare p name) r) := by
    rw [Element.parse, Element.ofEvents, textElement_eq]
    rfl
  have hstep := Builder.step_reference
    (Builder.inside (bare p name) [] Builder.start.frames Builder.start.root) r.toList
  rw [String.ofList_toList] at hstep
  rw [hparse, textElement_eq, Builder.resume_opening hreadable fun _ => rfl, htag]
  cases hresolve : resolve r with
  | error e =>
    rw [hresolve] at hstep
    exact Builder.resume_error (Builder.scanNext_reference hmarks _) hstep
  | ok c =>
    rw [hresolve] at hstep
    rw [Builder.resume_cons (Builder.scanNext_reference hmarks _) hstep,
      Builder.resume_cons (Builder.scanNext_closing hreadable []) rfl]
    exact Builder.resume_nil _

def attributeOctets (tag : Tag) (key : String) (quote : Char) (r : String) : Octets :=
  encode tag.qualifiedName ++ octet ' ' :: (encode key ++ octet '=' :: octet quote ::
    (encode ("&" ++ r ++ ";") ++ [octet quote]))

theorem attributeElement_eq (tag : Tag) (key r : String) (hquote : quote = '"' ∨ quote = '\'') :
    attributeElement tag key quote r =
      octet '<' :: (attributeOctets tag key quote r ++ octet '/' :: octet '>' :: []) := by
  have hencode : encode (String.singleton quote) = [octet quote] := by
    rcases hquote with rfl | rfl <;> rfl
  rw [attributeElement, attributeOctets]
  simp only [Text.encode_append, hencode, show encode "<" = [octet '<'] from rfl,
    show encode " " = [octet ' '] from rfl, show encode "=" = [octet '='] from rfl,
    show encode "/>" = [octet '/', octet '>'] from rfl]
  simp

theorem IsReferenceName.not_mem_quoted (h : IsReferenceName r)
    (hquote : quote = '"' ∨ quote = '\'') : octet quote ∉ encode ("&" ++ r ++ ";") := by
  have hr : quote ∉ r.toList := h _ (by rcases hquote with rfl | rfl <;> decide)
  refine octet_not_mem_encode (by rcases hquote with rfl | rfl <;> decide) ?_
  rw [String.toList_append, String.toList_append, List.mem_append, List.mem_append]
  rcases hquote with rfl | rfl <;> simpa using hr

theorem unescape_reference (hr : IsReferenceName r) :
    ∃ start stop, unescape ("&" ++ r ++ ";") =
      (unescapeName start stop r.toList).map String.singleton := by
  have hlist : ("&" ++ r ++ ";").toList = '&' :: (r.toList ++ [';']) := by
    rw [String.toList_append, String.toList_append]
    rfl
  refine ⟨0 + 1, 0 + 1 + octetCount (r.toList.reverse ++ []), ?_⟩
  rw [unescape, hlist, unescapeFrom, if_pos rfl,
    unescapeFrom_name _ _ _ _ _ fun x hx => hr.ne_mark hx, unescapeFrom, if_neg (by decide),
    if_pos rfl, List.append_nil, List.reverse_reverse]
  dsimp only
  cases unescapeName (0 + 1) (0 + 1 + octetCount r.toList.reverse) r.toList <;> rfl

theorem declares?_eq_none (hkey : key ≠ "xmlns" ∧ ¬ "xmlns:".toList <+: key.toList)
    (value : String) : Attribute.declares? ⟨key, value⟩ = none := by
  rw [Attribute.declares?, if_neg hkey.1, Option.map_eq_none_iff]
  cases hprefix : "xmlns:".toList.isPrefixOf? key.toList with
  | none => rfl
  | some rest => exact absurd ⟨rest, List.isPrefixOf?_eq_some_iff_append_eq.1 hprefix⟩ hkey.2

theorem tagIn_attribute (hp : ∀ q ∈ p, IsName q)
    (hkey : key ≠ "xmlns" ∧ ¬ "xmlns:".toList <+: key.toList) (value : String) :
    RawTag.tagIn [] ⟨p.getD "", name, [⟨key, value⟩]⟩ = ⟨name, p, none, [⟨key, value⟩]⟩ := by
  have hown : (if (p.getD "").isEmpty then none else some (p.getD "")) = p := by
    cases p with
    | none => rfl
    | some q => simp [(hp q rfl).ne_empty]
  rw [RawTag.tagIn, takeNamespace]
  dsimp only
  rw [hown]
  simp [declares?_eq_none hkey]

theorem read_attributeOctets (hp : ∀ q ∈ p, IsName q) (hname : IsName name) (hkey : IsKey key)
    (hquote : quote = '"' ∨ quote = '\'') (hr : IsReferenceName r) :
    RawTag.read (attributeOctets (bare p name) key quote r) =
      (match unescape ("&" ++ r ++ ";") with
        | .ok value => .ok ⟨p.getD "", name, [⟨key, value⟩]⟩
        | .error e => .error (.encoding e)) := by
  have hlegible := (isPlain_bare hp hname).isLegible
  have hoctet : octet quote = octet '\'' ∨ octet quote = octet '"' := by
    rcases hquote with rfl | rfl <;> decide
  have htagName : tagName (attributeOctets (bare p name) key quote r) =
      encode (bare p name).qualifiedName :=
    takeWhile_key
      (fun b hb => by rw [hlegible.isKey_qualifiedName.isSpace_eq_false hb]; rfl) (by decide)
  have hdecoded : decodeOctets ((p.map encode).getD []) = .ok (p.getD "") := by
    cases p with
    | none => exact decodeOctets_encode ""
    | some q => exact decodeOctets_encode q
  have hsplit : splitName (encode (bare p name).qualifiedName) = (p.map encode, encode name) :=
    hlegible.splitName_qualifiedName
  obtain ⟨start, stop, hscan⟩ := scanKey_word hkey.isWord
    (encode (bare p name).qualifiedName).length
    (octet quote :: (encode ("&" ++ r ++ ";") ++ [octet quote]))
  obtain ⟨after, hvalue⟩ := scanValue_quoted hoctet (hr.not_mem_quoted hquote) stop []
  rw [RawTag.read, htagName, hsplit, attributeOctets, List.drop_left]
  dsimp only
  rw [hdecoded, readAttributes_eq hscan rfl hvalue (decodeOctets_encode key)
    (decodeOctets_encode _), decodeOctets_encode]
  cases unescape ("&" ++ r ++ ";") with
  | error e => rfl
  | ok value =>
    dsimp only
    rw [readAttributes_nil]
    rfl

theorem steady_attributeOctets {tag : Tag} (htag : tag.IsPlain) (hkey : IsKey key)
    (hquote : quote = '"' ∨ quote = '\'') (hr : IsReferenceName r) :
    Steady (attributeOctets tag key quote r) := by
  have hoctet : octet quote = octet '\'' ∨ octet quote = octet '"' := by
    rcases hquote with rfl | rfl <;> decide
  have hblank : Steady [octet ' '] := steady_singleton (by decide)
  have hequals : Steady [octet '='] := steady_singleton (by decide)
  have hquoted := steady_quoted hoctet (hr.not_mem_quoted hquote)
  have hall := (htag.isLegible.isKey_qualifiedName.steady.append hblank).append
    ((hkey.steady.append hequals).append hquoted)
  rw [attributeOctets]
  simpa using hall

theorem first_attributeOctets {tag : Tag} (htag : tag.IsPlain) :
    ∀ a ∈ (attributeOctets tag key quote r ++ [octet '/']).head?,
      a ≠ octet '!' ∧ a ≠ octet '/' ∧ a ≠ octet '?' := by
  have hname := htag.isLegible.isKey_qualifiedName
  obtain ⟨a, rest, hcons⟩ := hname.exists_cons
  have hmark := fun d hd => hname.ne_octet (c := d) (hcons ▸ List.mem_cons_self) hd
  rw [attributeOctets, hcons]
  intro b hb
  obtain rfl := Option.some.inj hb
  exact ⟨hmark _ (by decide), hmark _ (by decide), hmark _ (by decide)⟩

theorem parse_attributeElement (hp : ∀ q ∈ p, IsName q) (hname : IsName name) (hkey : IsKey key)
    (hplain : key ≠ "xmlns" ∧ ¬ "xmlns:".toList <+: key.toList)
    (hquote : quote = '"' ∨ quote = '\'') (hr : IsReferenceName r) :
    Element.parse (attributeElement (bare p name) key quote r) =
      (match unescape ("&" ++ r ++ ";") with
        | .ok value => .ok ⟨⟨name, p, none, [⟨key, value⟩]⟩, []⟩
        | .error e => .error (.encoding e)) := by
  have htag := isPlain_bare hp hname
  have hparse : Element.parse (attributeElement (bare p name) key quote r) =
      Builder.start.resume [] (attributeElement (bare p name) key quote r) := by
    rw [Element.parse, Element.ofEvents, attributeElement_eq _ key r hquote]
    rfl
  have hopen : Builder.start.openTag (attributeOctets (bare p name) key quote r) =
      (RawTag.read (attributeOctets (bare p name) key quote r)).map (RawTag.tagIn []) := by
    rw [Builder.openTag, readTag_eq]
    cases RawTag.read (attributeOctets (bare p name) key quote r) <;> rfl
  have hscan : scanNext [] (octet '<') (attributeOctets (bare p name) key quote r ++ _) = _ :=
    Builder.scanNext_hollow (steady_attributeOctets htag hkey hquote hr)
      (first_attributeOctets htag) []
  rw [hparse, attributeElement_eq _ key r hquote]
  rw [read_attributeOctets hp hname hkey hquote hr] at hopen
  cases hvalue : unescape ("&" ++ r ++ ";") with
  | error e =>
    rw [hvalue] at hopen
    refine Builder.resume_error hscan ?_
    rw [Builder.step, hopen]
    rfl
  | ok value =>
    have hstep : Builder.start.step (.empty (attributeOctets (bare p name) key quote r)) =
        .ok (Builder.start.attach ⟨name, p, none, [⟨key, value⟩]⟩ []) := by
      rw [hvalue] at hopen
      rw [Builder.step, hopen, ← tagIn_attribute hp hplain]
      rfl
    rw [Builder.resume_cons hscan hstep]
    exact Builder.resume_nil _

theorem text_ofElement (tag : Tag) (htag : tag.attributes = []) (s : String) :
    (Cursor.atRoot (.ofElement ⟨tag, [.text s]⟩)).text? (.ofElement ⟨tag, [.text s]⟩) = some s := by
  obtain ⟨name, p, ns, attributes⟩ := tag
  obtain rfl : attributes = [] := htag
  exact congrArg some (String.empty_append)

theorem attribute_ofElement (tag : Tag) (a : Attribute) (htag : tag.attributes = [a]) :
    ((Cursor.atRoot (.ofElement ⟨tag, []⟩)).descend (.ofElement ⟨tag, []⟩)
      (.forAttribute a.name)).text? (.ofElement ⟨tag, []⟩) = some a.value := by
  obtain ⟨name, p, ns, attributes⟩ := tag
  obtain rfl : attributes = [a] := htag
  have hmatching : Tree.matching (.forAttribute a.name) (.node 0 ⟨⟨name, .element, ns⟩, none, p⟩
      [.node 1 ⟨.forAttribute a.name, some a.value, none⟩ []]) = [1] := by
    simp [Tree.matching, Tree.children, Tree.value, Tree.id, NodeInfo.isLike]
  have hfirst : (Document.ofElement ⟨⟨name, p, ns, [a]⟩, []⟩).firstChild? 0
      (.forAttribute a.name) = some 1 := congrArg List.head? hmatching
  change ((Document.ofElement ⟨⟨name, p, ns, [a]⟩, []⟩).firstChild? 0 (.forAttribute a.name)).map
    (Document.text _) = _
  rw [hfirst]
  rfl

theorem rootText_textElement (hp : ∀ q ∈ p, IsName q) (hname : IsName name)
    (hr : IsReferenceName r) : (rootText (textElement (bare p name) r)).toOption =
      (resolve r).toOption.map fun c => some (String.singleton c) := by
  rw [rootText, Document.parse, parse_textElement hp hname hr]
  cases resolve r with
  | error e => rfl
  | ok c => exact congrArg some (text_ofElement (bare p name) rfl _)

theorem rootAttribute_attributeElement (hp : ∀ q ∈ p, IsName q) (hname : IsName name)
    (hkey : IsKey key) (hplain : key ≠ "xmlns" ∧ ¬ "xmlns:".toList <+: key.toList)
    (hquote : quote = '"' ∨ quote = '\'') (hr : IsReferenceName r) :
    ∃ start stop, (rootAttribute key (attributeElement (bare p name) key quote r)).toOption =
      (unescapeName start stop r.toList).toOption.map fun c => some (String.singleton c) := by
  obtain ⟨start, stop, hvalue⟩ := unescape_reference hr
  refine ⟨start, stop, ?_⟩
  rw [rootAttribute, Document.parse, parse_attributeElement hp hname hkey hplain hquote hr, hvalue]
  cases unescapeName start stop r.toList with
  | error e => rfl
  | ok c => exact congrArg some (attribute_ofElement _ ⟨key, _⟩ rfl)

end Elements

/-- A reference without a sign and not to zero comes to the same in text and in an attribute, but
for a number with an upper-case mark: it is read in text alone, as one with a lower-case mark. -/
theorem rootText_eq_rootAttribute {p : Option String} {name key : String} {quote : Char}
    (hp : ∀ q ∈ p, IsName q) (hname : IsName name) (hkey : IsKey key)
    (hplain : key ≠ "xmlns" ∧ ¬ "xmlns:".toList <+: key.toList)
    (hquote : quote = '"' ∨ quote = '\'') (r : String) (hr : IsReferenceName r)
    (hsign : ¬ IsSigned r) (hnull : ¬ IsNull r) :
    (¬ "#X".toList <+: r.toList →
      (rootText (textElement (bare p name) r)).toOption =
        (rootAttribute key (attributeElement (bare p name) key quote r)).toOption) ∧
    ∀ digits, r = "#X" ++ digits →
      (rootAttribute key (attributeElement (bare p name) key quote r)).toOption = none ∧
      (rootText (textElement (bare p name) r)).toOption =
        (rootText (textElement (bare p name) ("#x" ++ digits))).toOption := by
  obtain ⟨start, stop, hattribute⟩ :=
    rootAttribute_attributeElement hp hname hkey hplain hquote hr
  rw [hattribute, rootText_textElement hp hname hr]
  constructor
  · intro hupper
    rw [resolve_eq_unescapeName hsign hnull hupper start stop]
  · rintro digits rfl
    have hmark : ∀ c ∈ [';', '&', '<', '"', '\''], c ∉ "#x".toList := by decide
    have hlower : IsReferenceName ("#x" ++ digits) := by
      intro c hc hmem
      rw [String.toList_append, List.mem_append] at hmem
      refine hmem.elim (hmark c hc) fun hdigits => hr c hc ?_
      rw [String.toList_append]
      exact List.mem_append_right _ hdigits
    have hlist : ("#X" ++ digits).toList = '#' :: 'X' :: digits.toList := String.toList_append
    rw [hlist, toOption_unescapeName_upper, rootText_textElement hp hname hlower, resolve_upper]
    exact ⟨rfl, rfl⟩

theorem rootText_eq_rootAttribute_lower : IsReferenceName "#x41" ∧ ¬ IsSigned "#x41" ∧
    ¬ IsNull "#x41" ∧ (rootText (textElement (bare none "r") "#x41")).toOption =
      (rootAttribute "a" (attributeElement (bare none "r") "a" '"' "#x41")).toOption := by
  have hname : IsName "r" := by decide
  have hkey : IsName "a" := by decide
  have hr : IsReferenceName "#x41" := by decide
  have hsign : ¬ IsSigned "#x41" := by decide
  have hnull : ¬ IsNull "#x41" := by
    rintro ⟨mark, -, n, h⟩
    have hlast := congrArg List.getLast? h
    rw [List.replicate_succ', ← List.append_assoc, List.getLast?_concat] at hlast
    exact absurd hlast (by decide)
  exact ⟨hr, hsign, hnull, (rootText_eq_rootAttribute (p := none) nofun hname hkey.toIsKey
    (by decide) (.inl rfl) "#x41" hr hsign hnull).1 (by decide)⟩

/-- Number 65 with an upper-case mark is read in text, and in an attribute it is not. -/
theorem rootText_ne_rootAttribute_upper : IsReferenceName "#X41" ∧
    (rootText (textElement (bare none "r") "#X41")).toOption = some (some "A") ∧
    (rootAttribute "a" (attributeElement (bare none "r") "a" '"' "#X41")).toOption = none := by
  have hname : IsName "r" := by decide
  have hkey : IsName "a" := by decide
  have hr : IsReferenceName "#X41" := by decide
  have hresolve : (resolve "#X41").toOption = some 'A' := by decide +kernel
  obtain ⟨start, stop, hattribute⟩ := rootAttribute_attributeElement (p := none) nofun hname
    hkey.toIsKey (by decide) (.inl rfl) hr
  rw [hattribute, rootText_textElement (p := none) nofun hname hr, hresolve]
  exact ⟨hr, rfl, congrArg (Option.map _) (toOption_unescapeName_upper start stop ['4', '1'])⟩

end ServiceClient.Xml
