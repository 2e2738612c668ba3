import ServiceClient.Xml.Error

/-!
A document as a sequence of tags, references and runs of characters. `Event.scan` cuts the octets
at the first bracket or ampersand, checks that tags close in order, and gives the events up to the
end or up to the first fault.
-/

namespace ServiceClient.Xml

open Text (Octets encode)

/-- Contents are the octets between the delimiters. -/
inductive Event where
  | opening (tag : Octets)
  | empty (tag : Octets)
  | closing
  | text (raw : Octets)
  | characters (raw : Octets)
  | reference (name : Octets)
  | ignored
  deriving DecidableEq, Repr

def isSpace (b : UInt8) : Bool :=
  b == 0x20 || b == 0x09 || b == 0x0A || b == 0x0D

def octet (c : Char) : UInt8 := c.toUInt8

def breakOn (pattern : Octets) : Octets → Option (Octets × Octets)
  | [] => none
  | b :: rest =>
    if pattern.isPrefixOf (b :: rest) then some ([], (b :: rest).drop pattern.length)
    else (breakOn pattern rest).map fun (x, y) => (b :: x, y)

/-- Whether a bracket ends the tag or stands in a quoted value. -/
inductive Quoting where
  | outside
  | inside (quote : UInt8)
  deriving DecidableEq, Repr

def Quoting.after (q : Quoting) (b : UInt8) : Quoting :=
  match q with
  | .outside => if b = octet '\'' ∨ b = octet '"' then .inside b else .outside
  | .inside quote => if b = quote then .outside else .inside quote

def Quoting.fault : Quoting → MarkupFault
  | .outside => .unclosedTag
  | .inside quote => .unclosedValue (Char.ofNat quote.toNat)

def tagEnd : Quoting → Octets → Except MarkupFault (Octets × Octets)
  | q, [] => .error q.fault
  | q, b :: rest =>
    if q = .outside ∧ b = octet '>' then .ok ([], rest)
    else match tagEnd (q.after b) rest with
      | .ok (x, y) => .ok (b :: x, y)
      | .error e => .error e

/-- Where a document type declaration stands in its grammar. Declarations that can hold literals are
`quoted`; all other markup in the subset ends at the first bracket. -/
inductive DoctypePart where
  | outer (q : Quoting)
  | subset
  | quoted (q : Quoting)
  | plain
  | comment (seen : Octets)
  | instructionMark
  | instruction (question : Bool)
  | closed
  deriving DecidableEq, Repr

def quotedDeclarations : List Octets :=
  ["!ENTITY", "!ATTLIST", "!NOTATION"].map encode

/-- The part that starts at a bracket in the subset, by the octets after it. -/
def DoctypePart.ofMarkup (rest : Octets) : DoctypePart :=
  if (encode "!--").isPrefixOf rest then .comment []
  else if (encode "?").isPrefixOf rest then .instructionMark
  else if quotedDeclarations.any (·.isPrefixOf rest) then .quoted .outside
  else .plain

/-- The part after an octet, with the octets that follow it at hand; none at the end. -/
def DoctypePart.after (p : DoctypePart) (b : UInt8) (rest : Octets) : Option DoctypePart :=
  match p with
  | .outer .outside =>
    if b = octet '>' then none
    else if b = octet '[' then some .subset
    else some (.outer (Quoting.outside.after b))
  | .outer q => some (.outer (q.after b))
  | .subset =>
    if b = octet ']' then some .closed
    else if b = octet '<' then some (.ofMarkup rest)
    else some .subset
  | .quoted .outside =>
    if b = octet '>' then some .subset else some (.quoted (Quoting.outside.after b))
  | .quoted q => some (.quoted (q.after b))
  | .plain => if b = octet '>' then some .subset else some .plain
  | .comment seen =>
    if b = octet '>' ∧ (encode "--").isPrefixOf seen ∧ 5 ≤ seen.length then some .subset
    else some (.comment (b :: seen))
  | .instructionMark => some (.instruction false)
  | .instruction question =>
    if b = octet '>' ∧ question then some .subset else some (.instruction (b = octet '?'))
  | .closed => if b = octet '>' then none else some .closed

def doctypeEnd : DoctypePart → Octets → Option (Octets × Octets)
  | _, [] => none
  | p, b :: rest =>
    match p.after b rest with
    | none => some ([], rest)
    | some p => (doctypeEnd p rest).map fun (x, y) => (b :: x, y)

/-- An event, the names of the tags open after it, and the octets after it. -/
structure Step where
  event : Event
  opened : List Octets
  rest : Octets

def tagName (tag : Octets) : Octets :=
  tag.takeWhile (!isSpace ·)

def lowerOctet (b : UInt8) : UInt8 :=
  if 0x41 ≤ b ∧ b ≤ 0x5A then b + 0x20 else b

def scanDeclaration (opened : List Octets) (s : Octets) : Except MarkupFault Step :=
  match s[1]? with
  | none => .error .unknownMarkup
  | some b =>
    if b = octet '[' then
      if (encode "![CDATA[").isPrefixOf s then
        match breakOn (encode "]]>") (s.drop 8) with
        | some (x, y) => .ok ⟨.characters x, opened, y⟩
        | none => .error .unclosedCData
      else .error .unclosedCData
    else if b = octet '-' then
      if (encode "!--").isPrefixOf s then
        match breakOn (encode "-->") (s.drop 3) with
        | some (_, y) => .ok ⟨.ignored, opened, y⟩
        | none => .error .unclosedComment
      else .error .unclosedComment
    else if b = octet 'D' ∨ b = octet 'd' then
      match doctypeEnd (.outer .outside) s with
      | some (x, y) =>
        if (x.take 8).map lowerOctet = encode "!doctype" then
          if (x.drop 8).all isSpace then .error .missingDoctypeName
          else .ok ⟨.ignored, opened, y⟩
        else .error .unclosedDoctype
      | none => .error .unclosedDoctype
    else .error .unknownMarkup

def scanInstruction (opened : List Octets) (s : Octets) : Except MarkupFault Step :=
  match breakOn (encode "?>") s with
  | some (x, y) => if x.isEmpty then .error .unclosedInstruction else .ok ⟨.ignored, opened, y⟩
  | none =>
    if (encode "?xml").isPrefixOf s ∧ (s.drop 4).head?.all (fun b => isSpace b || b == octet '?')
    then .error .unclosedDeclaration
    else .error .unclosedInstruction

/-- A name that is not UTF-8 shows as empty. -/
def shownName (name : Octets) : String :=
  (Text.decode? name).getD ""

/-- The name in a closing tag; blanks after it do not count. -/
def closingName (tag : Octets) : Octets :=
  if tag.all isSpace then tag else (tag.reverse.dropWhile isSpace).reverse

def scanClosing (opened : List Octets) (s : Octets) : Except MarkupFault Step :=
  match tagEnd .outside s with
  | .error e => .error e
  | .ok (tag, rest) =>
    let name := closingName (tag.drop 1)
    match opened with
    | [] => .error (.unmatchedClose (shownName name))
    | expected :: opened =>
      if name = expected then .ok ⟨.closing, opened, rest⟩
      else .error (.mismatchedClose (shownName expected) (shownName name))

def scanOpening (opened : List Octets) (s : Octets) : Except MarkupFault Step :=
  match tagEnd .outside s with
  | .error e => .error e
  | .ok (tag, rest) =>
    if tag.getLast? = some (octet '/') then .ok ⟨.empty tag.dropLast, opened, rest⟩
    else .ok ⟨.opening tag, tagName tag :: opened, rest⟩

def scanMarkup (opened : List Octets) (s : Octets) : Except MarkupFault Step :=
  match s with
  | [] => .error .unclosedTag
  | b :: _ =>
    if b = octet '!' then scanDeclaration opened s
    else if b = octet '/' then scanClosing opened s
    else if b = octet '?' then scanInstruction opened s
    else scanOpening opened s

/-- A reference after its ampersand: it ends at a semicolon before any other markup. -/
def scanReference (opened : List Octets) (s : Octets) : Except MarkupFault Step :=
  let isEnd (b : UInt8) : Bool := b == octet ';' || b == octet '&' || b == octet '<'
  match s.dropWhile (!isEnd ·) with
  | b :: rest =>
    if b = octet ';' then .ok ⟨.reference (s.takeWhile (!isEnd ·)), opened, rest⟩
    else .error .unclosedReference
  | [] => .error .unclosedReference

def isCharacter (b : UInt8) : Bool :=
  b != octet '<' && b != octet '&'

def scanNext (opened : List Octets) (b : UInt8) (rest : Octets) : Except MarkupFault Step :=
  if b = octet '<' then scanMarkup opened rest
  else if b = octet '&' then scanReference opened rest
  else .ok ⟨.text (b :: rest.takeWhile isCharacter), opened, rest.dropWhile isCharacter⟩

theorem length_of_breakOn {pattern s x y : Octets} (h : breakOn pattern s = some (x, y)) :
    y.length ≤ s.length := by
  induction s generalizing x with
  | nil => simp [breakOn] at h
  | cons b s ih =>
    simp only [breakOn] at h
    split at h
    · simp only [Option.some.injEq, Prod.mk.injEq] at h
      rw [← h.2]; simp
    · simp only [Option.map_eq_some_iff, Prod.mk.injEq, Prod.exists] at h
      obtain ⟨x', y', h', _, rfl⟩ := h
      have := ih h'
      simp; omega

theorem length_of_tagEnd {q : Quoting} {s x y : Octets} (h : tagEnd q s = .ok (x, y)) :
    y.length ≤ s.length := by
  induction s generalizing q x with
  | nil => simp [tagEnd] at h
  | cons b s ih =>
    simp only [tagEnd] at h
    split at h
    · simp only [Except.ok.injEq, Prod.mk.injEq] at h
      rw [← h.2]; simp
    · split at h
      · rename_i h'
        simp only [Except.ok.injEq, Prod.mk.injEq] at h
        obtain ⟨_, rfl⟩ := h
        have := ih h'
        simp; omega
      · simp at h

theorem length_of_doctypeEnd {p : DoctypePart} {s x y : Octets}
    (h : doctypeEnd p s = some (x, y)) : y.length ≤ s.length := by
  induction s generalizing p x with
  | nil => simp [doctypeEnd] at h
  | cons b s ih =>
    simp only [doctypeEnd] at h
    split at h
    · simp only [Option.some.injEq, Prod.mk.injEq] at h
      rw [← h.2]; simp
    · simp only [Option.map_eq_some_iff, Prod.mk.injEq, Prod.exists] at h
      obtain ⟨x', y', h', _, rfl⟩ := h
      have := ih h'
      simp; omega

theorem length_of_scanDeclaration {opened : List Octets} {s : Octets} {t : Step}
    (h : scanDeclaration opened s = .ok t) : t.rest.length ≤ s.length := by
  unfold scanDeclaration at h
  split at h
  · simp at h
  · repeat' split at h
    all_goals try (simp at h; done)
    all_goals simp only [Except.ok.injEq] at h
    all_goals subst h
    · rename_i h'
      have := length_of_breakOn h'
      simp at this ⊢; omega
    · rename_i h'
      have := length_of_breakOn h'
      simp at this ⊢; omega
    · rename_i h' _ _
      exact length_of_doctypeEnd h'

theorem length_of_scanMarkup {opened : List Octets} {s : Octets} {t : Step}
    (h : scanMarkup opened s = .ok t) : t.rest.length ≤ s.length := by
  unfold scanMarkup at h
  split at h
  · simp at h
  · split at h
    · exact length_of_scanDeclaration h
    · split at h
      · unfold scanClosing at h
        split at h
        · simp at h
        · rename_i h'
          have := length_of_tagEnd h'
          dsimp only at h
          split at h
          · simp at h
          · split at h
            · simp only [Except.ok.injEq] at h; subst h; exact this
            · simp at h
      · split at h
        · unfold scanInstruction at h
          split at h
          · rename_i h'
            have := length_of_breakOn h'
            split at h
            · simp at h
            · simp only [Except.ok.injEq] at h; subst h; exact this
          · split at h <;> simp at h
        · unfold scanOpening at h
          split at h
          · simp at h
          · rename_i h'
            have := length_of_tagEnd h'
            split at h <;> (simp only [Except.ok.injEq] at h; subst h; exact this)

theorem length_of_scanNext {opened : List Octets} {b : UInt8} {s : Octets} {t : Step}
    (h : scanNext opened b s = .ok t) : t.rest.length ≤ s.length := by
  unfold scanNext at h
  split at h
  · exact length_of_scanMarkup h
  · split at h
    · unfold scanReference at h
      dsimp only at h
      split at h
      · rename_i b' rest h'
        split at h
        · simp only [Except.ok.injEq] at h
          subst h
          have := (List.dropWhile_suffix (fun b => !(b == octet ';' || b == octet '&' || b == octet '<')) (l := s)).length_le
          rw [h'] at this
          simp at this ⊢; omega
        · simp at h
      · simp at h
    · simp only [Except.ok.injEq] at h
      subst h
      exact (List.dropWhile_suffix _).length_le

/-- The events of a text, and the fault that ends them if it is no well-formed sequence. -/
structure Events where
  events : List Event
  fault : Option MarkupFault
  deriving Repr

def Event.scanFrom (opened : List Octets) (s : Octets) : Events :=
  match s with
  | [] => ⟨[], none⟩
  | b :: rest =>
    match h : scanNext opened b rest with
    | .error e => ⟨[], some e⟩
    | .ok t =>
      have : t.rest.length < rest.length + 1 := Nat.lt_succ_of_le (length_of_scanNext h)
      let more := scanFrom t.opened t.rest
      ⟨t.event :: more.events, more.fault⟩
  termination_by s.length

/-- A byte order mark in front does not count. -/
def Event.scan (s : Octets) : Events :=
  match s with
  | 0xEF :: 0xBB :: 0xBF :: rest => scanFrom [] rest
  | s => scanFrom [] s

end ServiceClient.Xml
