import Mathlib.Data.List.Basic
import ServiceClient.Proofs.Xml.Reference
import ServiceClient.Xml.Parse

/-! A written tag is read back: its end is found behind all quoted values, its name goes up to the
first blank, each attribute has its key and value between an equals sign and quotes, and the one
declaration among them is its namespace. -/

namespace ServiceClient.Xml

open Text (Octets encode)

def nameMarks : List Char :=
  [' ', '\t', '\n', '\r', '"', '\'', '/', '<', '=', '>', '!', '?']

structure IsKey (s : String) : Prop where
  ne_empty : s ≠ ""
  marks : ∀ c ∈ nameMarks, c ∉ s.toList

/-- A name without a colon. All colon-free XML names are such names. -/
structure IsName (s : String) : Prop extends IsKey s where
  colon : ':' ∉ s.toList

instance (s : String) : Decidable (IsName s) :=
  decidable_of_iff ((s ≠ "" ∧ ∀ c ∈ nameMarks, c ∉ s.toList) ∧ ':' ∉ s.toList)
    ⟨fun h => ⟨⟨h.1.1, h.1.2⟩, h.2⟩, fun h => ⟨⟨h.ne_empty, h.marks⟩, h.colon⟩⟩

namespace IsKey

variable {s t : String}

theorem ne_octet (h : IsKey s) {b : UInt8} (hb : b ∈ encode s) {c : Char} (hc : c ∈ nameMarks) :
    b ≠ octet c := by
  rintro rfl
  have hlow : ∀ c ∈ nameMarks, c.toNat < 128 := by decide
  exact octet_not_mem_encode (hlow c hc) (h.marks c hc) hb

theorem isSpace_eq_false (h : IsKey s) {b : UInt8} (hb : b ∈ encode s) : isSpace b = false := by
  have hblank : b ≠ octet ' ' := h.ne_octet hb (by decide)
  have htab : b ≠ octet '\t' := h.ne_octet hb (by decide)
  have hfeed : b ≠ octet '\n' := h.ne_octet hb (by decide)
  have hreturn : b ≠ octet '\r' := h.ne_octet hb (by decide)
  simp only [isSpace, Bool.or_eq_false_iff, beq_eq_false_iff_ne]
  exact ⟨⟨⟨hblank, htab⟩, hfeed⟩, hreturn⟩

theorem exists_cons (h : IsKey s) : ∃ b rest, encode s = b :: rest := by
  refine List.exists_cons_of_ne_nil fun hnil => h.ne_empty ?_
  exact Text.encode_injective hnil

theorem append (h : IsKey s) (ht : ∀ c ∈ nameMarks, c ∉ t.toList) : IsKey (s ++ t) := by
  refine ⟨fun hempty => h.ne_empty (String.append_eq_empty_iff.1 hempty).1, fun c hc hmem => ?_⟩
  rw [String.toList_append, List.mem_append] at hmem
  exact hmem.elim (h.marks c hc) (ht c hc)

end IsKey

section Scanning

/-- Octets that neither end a tag nor leave a quoted value open. -/
def Steady (x : Octets) : Prop :=
  ∀ y, tagEnd .outside (x ++ y) = (tagEnd .outside y).map fun (a, b) => (x ++ a, b)

theorem steady_nil : Steady [] := by
  intro y
  cases h : tagEnd .outside y <;> rw [List.nil_append, h] <;> rfl

theorem Steady.append {x y : Octets} (hx : Steady x) (hy : Steady y) : Steady (x ++ y) := by
  intro z
  rw [List.append_assoc, hx, hy]
  cases tagEnd .outside z with
  | error e => rfl
  | ok p => simp [Except.map]

theorem steady_flatMap {α : Type} {l : List α} {f : α → Octets} (h : ∀ a ∈ l, Steady (f a)) :
    Steady (l.flatMap f) := by
  induction l with
  | nil => exact steady_nil
  | cons a l ih =>
    rw [List.flatMap_cons]
    exact (h a List.mem_cons_self).append (ih fun b hb => h b (List.mem_cons_of_mem a hb))

theorem tagEnd_cons {q : Quoting} {b : UInt8} (h : ¬ (q = .outside ∧ b = octet '>')) (x : Octets) :
    tagEnd q (b :: x) = (tagEnd (q.after b) x).map fun (a, y) => (b :: a, y) := by
  rw [tagEnd, if_neg h]
  cases tagEnd (q.after b) x <;> rfl

theorem after_inside_self (quote : UInt8) : (Quoting.inside quote).after quote = .outside :=
  if_pos rfl

theorem after_inside_of_ne {quote b : UInt8} (hb : b ≠ quote) :
    (Quoting.inside quote).after b = .inside quote :=
  if_neg hb

theorem after_outside_of_ne {b : UInt8} (hb : b ≠ octet '\'' ∧ b ≠ octet '"') :
    Quoting.outside.after b = .outside :=
  if_neg fun h => h.elim hb.1 hb.2

theorem steady_singleton {b : UInt8} (hb : b ≠ octet '>' ∧ b ≠ octet '\'' ∧ b ≠ octet '"') :
    Steady [b] := by
  intro y
  rw [List.singleton_append, tagEnd_cons fun h => hb.1 h.2, after_outside_of_ne hb.2]
  rfl

theorem steady_of_forall {x : Octets}
    (h : ∀ b ∈ x, b ≠ octet '>' ∧ b ≠ octet '\'' ∧ b ≠ octet '"') : Steady x := by
  have hx := steady_flatMap (f := fun b => [b]) fun b hb => steady_singleton (h b hb)
  rwa [List.flatMap_singleton'] at hx

theorem tagEnd_inside {quote : UInt8} {x : Octets} (hx : quote ∉ x) (y : Octets) :
    tagEnd (.inside quote) (x ++ quote :: y) =
      (tagEnd .outside y).map fun (a, b) => (x ++ quote :: a, b) := by
  induction x with
  | nil =>
    rw [List.nil_append, tagEnd_cons (by simp), after_inside_self]
    rfl
  | cons b x ih =>
    have hb : b ≠ quote := fun h => hx (h ▸ List.mem_cons_self)
    rw [List.cons_append, tagEnd_cons (by simp), after_inside_of_ne hb,
      ih fun h => hx (List.mem_cons_of_mem b h)]
    cases tagEnd .outside y <;> rfl

theorem steady_quoted {quote : UInt8} (hquote : quote = octet '\'' ∨ quote = octet '"')
    {x : Octets} (hx : quote ∉ x) : Steady (quote :: (x ++ [quote])) := by
  intro y
  have hopen : Quoting.outside.after quote = .inside quote := if_pos hquote
  have hbracket : quote ≠ octet '>' := by rcases hquote with rfl | rfl <;> decide
  rw [List.cons_append, List.append_assoc, List.singleton_append,
    tagEnd_cons fun h => hbracket h.2, hopen, tagEnd_inside hx]
  cases tagEnd .outside y with
  | error e => rfl
  | ok p => simp [Except.map]

theorem IsKey.steady {s : String} (h : IsKey s) : Steady (encode s) :=
  steady_of_forall fun _ hb =>
    ⟨h.ne_octet hb (by decide), h.ne_octet hb (by decide), h.ne_octet hb (by decide)⟩

theorem tagEnd_close (x : Octets) : tagEnd .outside (octet '>' :: x) = .ok ([], x) := by
  rw [tagEnd, if_pos ⟨rfl, rfl⟩]

theorem Steady.tagEnd_close {x : Octets} (hx : Steady x) (y : Octets) :
    tagEnd .outside (x ++ octet '>' :: y) = .ok (x, y) := by
  rw [hx, Xml.tagEnd_close]
  simp [Except.map]

end Scanning

section Attributes

theorem Attribute.octets_eq (a : Attribute) : a.octets = octet ' ' :: (encode a.name ++
    octet '=' :: octet '"' :: (encode (escape a.value) ++ [octet '"'])) := by
  rw [octets, show encode " " = [octet ' '] from rfl,
    show encode "=\"" = [octet '=', octet '"'] from rfl, show encode "\"" = [octet '"'] from rfl]
  simp

theorem Attribute.steady_octets {a : Attribute} (h : IsKey a.name) : Steady a.octets := by
  have hblank : Steady [octet ' '] := steady_singleton (by decide)
  have hequals : Steady [octet '='] := steady_singleton (by decide)
  have hquoted := steady_quoted (.inr rfl) (quote_not_mem_escape a.value)
  have hall := (hblank.append h.steady).append (hequals.append hquoted)
  rw [octets_eq]
  simpa using hall

theorem takeWhile_key {p : UInt8 → Bool} {x : Octets} {b : UInt8} {y : Octets}
    (hx : ∀ a ∈ x, p a = true) (hb : p b = false) : (x ++ b :: y).takeWhile p = x := by
  rw [List.takeWhile_append_of_pos hx, List.takeWhile_cons_of_neg (by simp [hb]), List.append_nil]

theorem dropWhile_key {p : UInt8 → Bool} {x : Octets} {b : UInt8} {y : Octets}
    (hx : ∀ a ∈ x, p a = true) (hb : p b = false) : (x ++ b :: y).dropWhile p = b :: y := by
  rw [List.dropWhile_append_of_pos hx, List.dropWhile_cons_of_neg (by simp [hb])]

/-- Octets that are taken whole for a key: the first may be any but a blank. -/
def IsWord : Octets → Prop
  | [] => False
  | b :: rest => isSpace b = false ∧ ∀ c ∈ rest, isKeyOctet c = true

theorem IsWord.exists_cons {x : Octets} (h : IsWord x) :
    ∃ b rest, x = b :: rest ∧ isSpace b = false ∧ ∀ c ∈ rest, isKeyOctet c = true := by
  cases x with
  | nil => exact h.elim
  | cons b rest => exact ⟨b, rest, rfl, h⟩

theorem IsKey.isWord {s : String} (h : IsKey s) : IsWord (encode s) := by
  obtain ⟨b, rest, hcons⟩ := h.exists_cons
  have hrest : ∀ c ∈ rest, isKeyOctet c = true := by
    intro c hc
    have hmem : c ∈ encode s := hcons ▸ List.mem_cons_of_mem b hc
    have hequals : c ≠ octet '=' := h.ne_octet hmem (by decide)
    simp [isKeyOctet, hequals, h.isSpace_eq_false hmem]
  rw [hcons]
  exact ⟨h.isSpace_eq_false (hcons ▸ List.mem_cons_self), hrest⟩

theorem scanKey_word {key : Octets} (h : IsWord key) (position : Nat) (rest : Octets) :
    ∃ start stop, scanKey position (octet ' ' :: (key ++ octet '=' :: rest)) =
      .ok (some ⟨key, start, stop, rest⟩) := by
  obtain ⟨b, more, rfl, hb, hisKey⟩ := h.exists_cons
  have hequals : isKeyOctet (octet '=') = false := by decide
  have hspace : isSpace (octet ' ') = true := by decide
  rw [scanKey]
  simp only [List.cons_append]
  rw [List.dropWhile_cons_of_pos hspace, List.dropWhile_cons_of_neg (by simp [hb])]
  dsimp only
  rw [takeWhile_key hisKey hequals, dropWhile_key hisKey hequals,
    List.dropWhile_cons_of_neg (by decide)]
  dsimp only
  rw [if_pos rfl]
  exact ⟨_, _, rfl⟩

theorem scanValue_quoted {quote : UInt8} (hquote : quote = octet '\'' ∨ quote = octet '"')
    {x : Octets} (hx : quote ∉ x) (position : Nat) (rest : Octets) :
    ∃ stop, scanValue position (quote :: (x ++ quote :: rest)) = .ok ⟨x, stop, rest⟩ := by
  have hsplit : Text.splitFirst? (· == quote) (x ++ quote :: rest) = some (x, rest) := by
    refine Text.splitFirst?_append (fun b hb => ?_) (beq_self_eq_true _)
    rw [beq_eq_false_iff_ne]
    rintro rfl
    exact hx hb
  have hspace : ¬ isSpace quote = true := by rcases hquote with rfl | rfl <;> decide
  rw [scanValue, List.dropWhile_cons_of_neg hspace]
  dsimp only
  rw [if_pos hquote.symm, hsplit]
  exact ⟨_, rfl⟩

theorem decodeOctets_encode (s : String) : decodeOctets (encode s) = .ok s := by
  rw [decodeOctets, Text.decode_encode]

theorem decodeCharacters_encode (s : String) : decodeCharacters (encode s) = .ok s := by
  rw [decodeCharacters, Text.decode_encode]

theorem readAttributes_eq {seen : List (Octets × Nat)} {position : Nat} {s : Octets} {k : KeyStep}
    {v : ValueStep} {key raw : String} (hkey : scanKey position s = .ok (some k))
    (hseen : seen.lookup k.key = none) (hvalue : scanValue k.position k.rest = .ok v)
    (hname : decodeOctets k.key = .ok key) (hraw : decodeOctets v.value = .ok raw) :
    readAttributes seen position s = (match unescape raw with
      | .error e => .error (.encoding e)
      | .ok value => (readAttributes ((k.key, k.start) :: seen) v.position v.rest).map
        (⟨key, value⟩ :: ·)) := by
  -- All that can be wrong with a key or a value has been ruled out; the text of the value is left.
  rw [readAttributes]
  split
  · rename_i hk
    rw [hkey] at hk
    cases hk
  · rename_i hk
    rw [hkey] at hk
    cases hk
  · rename_i k' hk
    rw [hkey] at hk
    obtain rfl := Option.some.inj (Except.ok.inj hk)
    dsimp only
    rw [hseen]
    dsimp only
    split
    · rename_i hv
      rw [hvalue] at hv
      cases hv
    · rename_i v' hv
      rw [hvalue] at hv
      obtain rfl := Except.ok.inj hv
      rw [hname, hraw]
      dsimp only
      cases unescape raw with
      | error e => rfl
      | ok value =>
        dsimp only
        cases readAttributes ((k.key, k.start) :: seen) v.position v.rest <;> rfl

theorem readAttributes_nil (seen : List (Octets × Nat)) (position : Nat) :
    readAttributes seen position [] = .ok [] := by
  rw [readAttributes]
  rfl

theorem readAttributes_octets (l : List Attribute) (seen : List (Octets × Nat)) (position : Nat)
    (hkeys : ∀ a ∈ l, IsWord (encode a.name)) (hdistinct : (l.map Attribute.name).Nodup)
    (hseen : ∀ a ∈ l, seen.lookup (encode a.name) = none) :
    readAttributes seen position (l.flatMap Attribute.octets) = .ok l := by
  induction l generalizing seen position with
  | nil => exact readAttributes_nil seen position
  | cons a l ih =>
    rw [List.map_cons, List.nodup_cons] at hdistinct
    rw [List.forall_mem_cons] at hkeys hseen
    obtain ⟨start, stop, hkey⟩ := scanKey_word hkeys.1 position
      (octet '"' :: (encode (escape a.value) ++ octet '"' :: l.flatMap Attribute.octets))
    obtain ⟨after, hvalue⟩ :=
      scanValue_quoted (.inr rfl) (quote_not_mem_escape a.value) stop (l.flatMap Attribute.octets)
    have hmore : ∀ b ∈ l, ((encode a.name, start) :: seen).lookup (encode b.name) = none := by
      intro b hb
      have hne : encode b.name ≠ encode a.name := fun h =>
        hdistinct.1 (Text.encode_injective h ▸ List.mem_map_of_mem hb)
      rw [List.lookup_cons, beq_eq_false_iff_ne.2 hne]
      exact hseen.2 b hb
    rw [List.flatMap_cons, Attribute.octets_eq]
    simp only [List.cons_append, List.append_assoc, List.nil_append]
    rw [readAttributes_eq hkey hseen.1 hvalue (decodeOctets_encode _) (decodeOctets_encode _),
      unescape_escape]
    dsimp only
    rw [ih _ _ hkeys.2 hdistinct.2 hmore]
    rfl

end Attributes

section Namespaces

variable {ns : Namespace} {a : Attribute}

theorem Namespace.isKey_attributeName (h : ns.nsPrefix = "" ∨ IsName ns.nsPrefix) :
    IsKey ns.attributeName := by
  have hdefault : IsKey "xmlns" := ⟨by decide, by decide⟩
  have hprefixed : IsKey "xmlns:" := ⟨by decide, by decide⟩
  rw [attributeName]
  split_ifs with hempty
  · exact hdefault
  · rcases h with h | h
    · rw [h] at hempty
      exact absurd rfl hempty
    · exact hprefixed.append h.marks

theorem Namespace.declares?_attribute (ns : Namespace) :
    Attribute.declares? ⟨ns.attributeName, ns.uri⟩ = some ns := by
  obtain ⟨p, uri⟩ := ns
  rw [Attribute.declares?, attributeName]
  by_cases hempty : p = ""
  · subst hempty
    rfl
  · have hne : p.isEmpty = false := by simpa using hempty
    have hlist : ("xmlns:" ++ p).toList = "xmlns:".toList ++ p.toList := String.toList_append
    have hname : ("xmlns:" ++ p : String) ≠ "xmlns" := by
      intro h
      rw [← String.toList_inj, hlist] at h
      simpa using congrArg List.length h
    have hprefix : "xmlns:".toList.isPrefixOf? ("xmlns:" ++ p).toList = some p.toList := by
      rw [hlist]
      rfl
    simp only [hne, Bool.false_eq_true, if_false, if_neg hname, hprefix, Option.map_some,
      String.ofList_toList]

/-- A declaration keeps its name, but for a colon with nothing behind it. -/
theorem Attribute.name_cases (hns : a.declares? = some ns) :
    ns.attributeName = a.name ∨ ns.attributeName = "xmlns" ∧ a.name = "xmlns:" := by
  rw [Attribute.declares?] at hns
  split_ifs at hns with hdefault
  · obtain rfl := Option.some.inj hns
    exact .inl hdefault.symm
  · obtain ⟨rest, hrest, rfl⟩ := Option.map_eq_some_iff.1 hns
    rw [List.isPrefixOf?_eq_some_iff_append_eq] at hrest
    have hlist : (String.ofList rest).toList = rest := String.toList_ofList
    have hname : a.name = "xmlns:" ++ String.ofList rest := by
      rw [← String.toList_inj, ← hrest, String.toList_append, hlist]
    cases rest with
    | nil => exact .inr ⟨rfl, hname⟩
    | cons c cs =>
      have hne : (String.ofList (c :: cs)).isEmpty = false := by simp
      rw [Namespace.attributeName, hne, hname]
      exact .inl rfl

theorem IsName.declares?_eq_none (h : IsName a.name) (hne : a.name ≠ "xmlns") :
    a.declares? = none := by
  rw [Attribute.declares?, if_neg hne, Option.map_eq_none_iff]
  cases hprefix : "xmlns:".toList.isPrefixOf? a.name.toList with
  | none => rfl
  | some rest =>
    refine absurd ?_ h.colon
    rw [List.isPrefixOf?_eq_some_iff_append_eq] at hprefix
    rw [← hprefix]
    exact List.mem_append_left rest (by decide)

theorem IsName.ne_attributeName (h : IsName a.name) (hne : a.name ≠ "xmlns") :
    a.name ≠ ns.attributeName := by
  intro heq
  have hnone := h.declares?_eq_none hne
  have hsome := ns.declares?_attribute
  rw [← heq] at hsome
  rw [Attribute.declares?, if_neg hne] at hnone hsome
  obtain ⟨p, hp, _⟩ := Option.map_eq_some_iff.1 hsome
  rw [hp] at hnone
  cases hnone

end Namespaces

section Raw

/-- A tag as it stands, with the empty prefix if its name has none. -/
structure RawTag where
  nsPrefix : String
  name : String
  attributes : List Attribute
  deriving DecidableEq, Repr

def RawTag.read (raw : Octets) : Except XmlError RawTag := do
  let name := tagName raw
  let (p, base) := splitName name
  let base ← decodeOctets base
  let nsPrefix ← decodeOctets (p.getD [])
  let attributes ← readAttributes [] name.length (raw.drop name.length)
  pure ⟨nsPrefix, base, attributes⟩

def RawTag.tagIn (scope : List Namespace) (t : RawTag) : Tag :=
  ⟨t.name, if t.nsPrefix.isEmpty then none else some t.nsPrefix,
    (takeNamespace t.nsPrefix t.attributes).1.filter (· ∉ scope),
    (takeNamespace t.nsPrefix t.attributes).2⟩

theorem readTag_eq (scope : List Namespace) (raw : Octets) :
    readTag scope raw = (RawTag.read raw).map (RawTag.tagIn scope) := by
  rw [readTag, RawTag.read]
  dsimp only
  cases decodeOctets (splitName (tagName raw)).2 with
  | error e => rfl
  | ok base =>
    cases decodeOctets ((splitName (tagName raw)).1.getD []) with
    | error e => rfl
    | ok nsPrefix =>
      cases readAttributes [] (tagName raw).length (raw.drop (tagName raw).length) <;> rfl

def Tag.raw (t : Tag) : RawTag := ⟨t.nsPrefix.getD "", t.name, t.written⟩

theorem RawTag.nsPrefix_raw (scope : List Namespace) (t : RawTag) :
    (t.tagIn scope).raw.nsPrefix = t.nsPrefix := by
  change (if t.nsPrefix.isEmpty then none else some t.nsPrefix).getD "" = _
  split_ifs with hempty
  · simpa using hempty.symm
  · rfl

end Raw

section Names

variable {t : Tag}

theorem splitName_of_none (hp : t.nsPrefix = none)
    (hname : ∀ b ∈ encode t.name, (b == octet ':') = false) :
    splitName (encode t.qualifiedName) = (none, encode t.name) := by
  rw [splitName, Tag.qualifiedName, hp]
  dsimp only
  rw [Text.splitFirst?_of_solid hname]

theorem splitName_of_some {p : String} (hp : t.nsPrefix = some p)
    (hcolon : ∀ b ∈ encode p, (b == octet ':') = false) :
    splitName (encode t.qualifiedName) = (some (encode p), encode t.name) := by
  rw [splitName, Tag.qualifiedName, hp]
  dsimp only
  rw [Text.encode_append, Text.encode_append, show encode ":" = [octet ':'] from rfl,
    List.append_assoc, List.singleton_append, Text.splitFirst?_append hcolon (beq_self_eq_true _)]

end Names

theorem Tag.written_octets_cases (t : Tag) : t.written.flatMap Attribute.octets = [] ∨
    ∃ x, t.written.flatMap Attribute.octets = octet ' ' :: x := by
  cases t.written with
  | nil => exact .inl rfl
  | cons a l => exact .inr ⟨_, by rw [List.flatMap_cons, a.octets_eq, List.cons_append]⟩

/-- A tag that is read back where it is written: its parts can be told apart, no other markup starts
or ends with it, and its end is found. It is `hollow` if there is nothing inside the element. -/
structure Tag.IsReadable (t : Tag) (hollow : Bool) : Prop where
  solid : ∀ b ∈ encode t.qualifiedName, isSpace b = false
  split : splitName (encode t.qualifiedName) = (t.nsPrefix.map encode, encode t.name)
  words : ∀ a ∈ t.written, IsWord (encode a.name)
  distinct : (t.written.map Attribute.name).Nodup
  steady : Steady t.octets
  first : ∀ b ∈ (t.octets ++ [octet (if hollow then '/' else '>')]).head?,
    b ≠ octet '!' ∧ b ≠ octet '/' ∧ b ≠ octet '?'
  last : hollow = false → t.octets.getLast? ≠ some (octet '/')
  close : hollow = false → Steady (encode t.qualifiedName)

namespace Tag.IsReadable

variable {t : Tag} {hollow : Bool} (h : t.IsReadable hollow)

include h

theorem tagName_octets : tagName t.octets = encode t.qualifiedName := by
  have hsolid : ∀ b ∈ encode t.qualifiedName, (!isSpace b) = true := fun b hb => by
    rw [h.solid b hb]
    rfl
  rw [octets]
  rcases t.written_octets_cases with hnil | ⟨x, hx⟩
  · rw [hnil, tagName, List.takeWhile_append_of_pos hsolid, List.takeWhile_nil, List.append_nil]
  · rw [hx]
    exact takeWhile_key hsolid (by decide)

theorem read_octets : RawTag.read t.octets = .ok t.raw := by
  have hattributes := readAttributes_octets t.written [] (encode t.qualifiedName).length
    h.words h.distinct fun _ _ => rfl
  have hprefix : decodeOctets ((t.nsPrefix.map encode).getD []) = .ok (t.nsPrefix.getD "") := by
    cases t.nsPrefix with
    | none => exact decodeOctets_encode ""
    | some p => exact decodeOctets_encode p
  rw [RawTag.read, h.tagName_octets, h.split]
  dsimp only
  rw [decodeOctets_encode, hprefix, octets, List.drop_left, hattributes]
  rfl

end Tag.IsReadable

structure Tag.IsLegible (t : Tag) : Prop where
  name : IsName t.name
  nsPrefix : ∀ p ∈ t.nsPrefix, IsName p
  keys : ∀ a ∈ t.written, IsKey a.name
  distinct : (t.written.map Attribute.name).Nodup

namespace Tag.IsLegible

variable {t : Tag} (h : t.IsLegible)

include h

theorem isKey_qualifiedName : IsKey t.qualifiedName := by
  rw [qualifiedName]
  cases hp : t.nsPrefix with
  | none => exact h.name.toIsKey
  | some p =>
    refine IsKey.append ((h.nsPrefix p hp).toIsKey.append ?_) h.name.marks
    decide

theorem splitName_qualifiedName :
    splitName (encode t.qualifiedName) = (t.nsPrefix.map encode, encode t.name) := by
  have hsolid : ∀ {s : String}, IsName s → ∀ b ∈ encode s, (b == octet ':') = false := by
    intro s hs b hb
    rw [beq_eq_false_iff_ne]
    rintro rfl
    exact octet_not_mem_encode (by decide) hs.colon hb
  cases hp : t.nsPrefix with
  | none => exact splitName_of_none hp (hsolid h.name)
  | some p => exact splitName_of_some hp (hsolid (h.nsPrefix p hp))

theorem steady_octets : Steady t.octets :=
  h.isKey_qualifiedName.steady.append
    (steady_flatMap fun a ha => a.steady_octets (h.keys a ha))

theorem first_octets (b : UInt8) : ∀ c ∈ (t.octets ++ [b]).head?, c ≠ octet '!' ∧ c ≠ octet '/' ∧
    c ≠ octet '?' := by
  obtain ⟨c, rest, hname⟩ := h.isKey_qualifiedName.exists_cons
  have hc : c ∈ encode t.qualifiedName := hname ▸ List.mem_cons_self
  have hmark := fun d hd => h.isKey_qualifiedName.ne_octet (c := d) hc hd
  rw [octets, hname]
  intro d hd
  obtain rfl := Option.some.inj hd
  exact ⟨hmark _ (by decide), hmark _ (by decide), hmark _ (by decide)⟩

theorem getLast?_octets : t.octets.getLast? ≠ some (octet '/') := by
  rw [octets]
  rcases List.eq_nil_or_concat t.written with hnil | ⟨l, a, hconcat⟩
  · rw [hnil, List.flatMap_nil, List.append_nil]
    intro hlast
    exact h.isKey_qualifiedName.ne_octet (List.mem_of_getLast? hlast) (by decide) rfl
  · rw [hconcat, List.concat_eq_append, List.flatMap_append, List.flatMap_singleton,
      Attribute.octets, ← List.append_assoc, ← List.append_assoc,
      show encode "\"" = [octet '"'] from rfl, List.getLast?_concat]
    decide

theorem isReadable (hollow : Bool) : t.IsReadable hollow where
  solid _ hb := h.isKey_qualifiedName.isSpace_eq_false hb
  split := h.splitName_qualifiedName
  words a ha := (h.keys a ha).isWord
  distinct := h.distinct
  steady := h.steady_octets
  first := h.first_octets _
  last _ := h.getLast?_octets
  close _ := h.isKey_qualifiedName.steady

end Tag.IsLegible

structure Tag.IsPlain (t : Tag) : Prop where
  name : IsName t.name
  nsPrefix : ∀ p ∈ t.nsPrefix, IsName p
  ns : ∀ ns ∈ t.ns, ns.nsPrefix = "" ∨ IsName ns.nsPrefix
  attributes : ∀ a ∈ t.attributes, IsName a.name ∧ a.name ≠ "xmlns"
  distinct : (t.attributes.map Attribute.name).Nodup

namespace Tag.IsPlain

variable {t : Tag} (h : t.IsPlain)

include h

theorem isKey_written : ∀ a ∈ t.written, IsKey a.name := by
  intro a ha
  rw [written, List.mem_append] at ha
  rcases ha with ha | ha
  · cases hns : t.ns with
    | none => rw [hns] at ha; cases ha
    | some ns =>
      rw [hns, List.mem_singleton] at ha
      rw [ha]
      exact Namespace.isKey_attributeName (h.ns ns hns)
  · exact (h.attributes a ha).1.toIsKey

theorem nodup_written : (t.written.map Attribute.name).Nodup := by
  rw [written, List.map_append, List.nodup_append]
  refine ⟨?_, h.distinct, ?_⟩
  · cases t.ns <;> simp
  · intro x hx y hy
    obtain ⟨a, ha, rfl⟩ := List.mem_map.1 hy
    have hname := h.attributes a ha
    cases hns : t.ns with
    | none => rw [hns] at hx; cases hx
    | some ns =>
      rw [hns, List.map_singleton, List.mem_singleton] at hx
      rw [hx]
      exact (hname.1.ne_attributeName hname.2).symm

theorem isLegible : t.IsLegible :=
  ⟨h.name, h.nsPrefix, h.isKey_written, h.nodup_written⟩

theorem takeNamespace_written (p : String) : takeNamespace p t.written = (t.ns, t.attributes) := by
  have hdeclared : t.attributes.filterMap Attribute.declares? = [] :=
    List.filterMap_eq_nil_iff.2 fun a ha =>
      (h.attributes a ha).1.declares?_eq_none (h.attributes a ha).2
  have hothers : t.attributes.filter (·.declares?.isNone) = t.attributes :=
    List.filter_eq_self.2 fun a ha => by
      rw [(h.attributes a ha).1.declares?_eq_none (h.attributes a ha).2]
      rfl
  rw [takeNamespace, written, List.filterMap_append, List.filter_append, hdeclared, hothers]
  cases t.ns with
  | none => rfl
  | some ns =>
    have hns := ns.declares?_attribute
    by_cases hp : ns.nsPrefix == p
    · simp [hns, hp, List.findIdx?_cons]
    · simp [hns, hp, List.findIdx?_cons]

theorem tagIn_raw (scope : List Namespace) :
    t.raw.tagIn scope = { t with ns := t.ns.filter (· ∉ scope) } := by
  have hown : (if (t.nsPrefix.getD "").isEmpty then none else some (t.nsPrefix.getD "")) =
      t.nsPrefix := by
    cases hp : t.nsPrefix with
    | none => rfl
    | some p => simp [(h.nsPrefix p hp).ne_empty]
  rw [RawTag.tagIn, raw]
  dsimp only
  rw [h.takeNamespace_written, hown]

end Tag.IsPlain

end ServiceClient.Xml
