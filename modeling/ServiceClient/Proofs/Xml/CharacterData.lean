import Mathlib.Logic.Relation
import ServiceClient.Proofs.Xml.Boundary
import ServiceClient.Proofs.Xml.Entity

/-! The spellings of character data. A run of text, references and sections inside an element comes
to one text, however it is cut into pieces and whatever comments and instructions stand between
them, so two documents that differ in such runs alone are read alike. -/

namespace ServiceClient.Xml

open Text (Octets encode)

section Spellings

def IsDigitOf (c : Char) (d : Nat) : Prop :=
  "0123456789abcdef".toList[d]? = some c ∨ "0123456789ABCDEF".toList[d]? = some c

def IsNumeral (base : Nat) (digits : String) (n : Nat) : Prop :=
  ∃ values, values ≠ [] ∧ (∀ d ∈ values, d < base) ∧
    List.Forall₂ IsDigitOf digits.toList values ∧ n = Nat.ofDigits base values.reverse

def predefinedEntities : List (String × Char) :=
  [("amp", '&'), ("lt", '<'), ("gt", '>'), ("quot", '"'), ("apos", '\'')]

inductive IsPiece : Octets → Option String → Prop
  | raw {s : String} (hs : s ≠ "") (hmarks : ∀ c ∈ s.toList, c ≠ '<' ∧ c ≠ '&') :
      IsPiece (encode s) (some s)
  | entity {name : String} {c : Char} (h : (name, c) ∈ predefinedEntities) :
      IsPiece (encode ("&" ++ name ++ ";")) (some (String.singleton c))
  | decimal {digits : String} {c : Char} (h : IsNumeral 10 digits c.toNat) :
      IsPiece (encode ("&#" ++ digits ++ ";")) (some (String.singleton c))
  | hexadecimal {digits : String} {c : Char} (h : IsNumeral 16 digits c.toNat) :
      IsPiece (encode ("&#x" ++ digits ++ ";")) (some (String.singleton c))
  | cdata {s : String} (h : ¬ encode "]]>" <:+: encode s) :
      IsPiece (encode ("<![CDATA[" ++ s ++ "]]>")) (some s)
  | comment {body : Octets} (h : ¬ encode "-->" <:+: body) :
      IsPiece (encode "<!--" ++ body ++ encode "-->") none
  | instruction {body : Octets} (h : ¬ encode "?>" <:+: octet '?' :: body) :
      IsPiece (encode "<?" ++ body ++ encode "?>") none

inductive IsRun : Octets → Option String → Prop
  | nil : IsRun [] none
  | cons {x y : Octets} {s t : Option String} (hx : IsPiece x s) (hy : IsRun y t) :
      IsRun (x ++ y) (s.merge (· ++ ·) t)

def Respells (x y : Octets) : Prop :=
  ∃ before run run' after t, EndsInside before ∧ IsRun run (some t) ∧ IsRun run' (some t) ∧
    x = before ++ (run ++ after) ∧ y = before ++ (run' ++ after)

end Spellings

section Numerals

variable {base limit n d : Nat} {c : Char} {digits : String}

theorem hexValue_of_isDigitOf (h : IsDigitOf c d) : Text.Hex.digitValue? c = some d := by
  have hlt : d < 16 := by
    rcases h with h | h
    · exact (List.getElem?_eq_some_iff.1 h).1
    · exact (List.getElem?_eq_some_iff.1 h).1
  rcases h with h | h
  · interval_cases d <;> (obtain rfl := Option.some.inj h; rfl)
  · interval_cases d <;> (obtain rfl := Option.some.inj h; rfl)

theorem IsNumeral.not_mem (h : IsNumeral base digits n) (hc : Text.Hex.digitValue? c = none) :
    c ∉ digits.toList := by
  obtain ⟨values, -, -, hdigits, -⟩ := h
  intro hmem
  generalize digits.toList = cs at hdigits hmem
  induction hdigits with
  | nil => cases hmem
  | cons hfirst _ ih =>
    rcases List.mem_cons.1 hmem with rfl | hmem
    · rw [hexValue_of_isDigitOf hfirst] at hc
      cases hc
    · exact ih hmem

theorem IsNumeral.ne_mark (h : IsNumeral base digits n) {m : String}
    (hm : ∀ x ∈ m.toList, x ≠ '&' ∧ x ≠ ';' ∧ x ≠ '<') :
    ∀ x ∈ (m ++ digits).toList, x ≠ '&' ∧ x ≠ ';' ∧ x ≠ '<' := by
  intro x hx
  rw [String.toList_append, List.mem_append] at hx
  rcases hx with hx | hx
  · exact hm x hx
  · refine ⟨?_, ?_, ?_⟩ <;> (rintro rfl; exact h.not_mem rfl hx)

theorem le_foldl_digits (hbase : 0 < base) (values : List Nat) (n : Nat) :
    n ≤ values.foldl (fun m d => d + base * m) n := by
  induction values generalizing n with
  | nil => exact Nat.le_refl n
  | cons d values ih =>
    have hstep : n ≤ d + base * n :=
      Nat.le_trans (Nat.le_mul_of_pos_left n hbase) (Nat.le_add_left _ d)
    exact Nat.le_trans hstep (ih _)

theorem readDigits_foldl (hbase : 0 < base) {cs : List Char} {values : List Nat}
    (hdigits : List.Forall₂ IsDigitOf cs values) (hvalues : ∀ d ∈ values, d < base)
    (hlimit : values.foldl (fun m d => d + base * m) n ≤ limit) :
    Number.readDigits base limit n cs = .ok (values.foldl (fun m d => d + base * m) n) := by
  induction hdigits generalizing n with
  | nil => rfl
  | @cons c d cs values hc hcs ih =>
    obtain ⟨hd, hvalues⟩ := List.forall_mem_cons.1 hvalues
    have hstep : n * base + d = d + base * n := by rw [Nat.mul_comm, Nat.add_comm]
    have hfirst : d + base * n ≤ limit := Nat.le_trans (le_foldl_digits hbase values _) hlimit
    rw [Number.readDigits, Number.digitValue?, hexValue_of_isDigitOf hc, Option.filter_some,
      if_pos (decide_eq_true hd)]
    dsimp only
    rw [hstep, if_pos hfirst]
    exact ih hvalues hlimit

theorem IsNumeral.readNatural (hbase : 0 < base) (h : IsNumeral base digits n) (hn : n ≤ limit) :
    Number.readNatural base limit digits.toList = .ok n := by
  have hplus : '+' ∉ digits.toList := h.not_mem rfl
  obtain ⟨values, hne, hvalues, hdigits, rfl⟩ := h
  rw [Nat.ofDigits_eq_foldr, List.foldr_reverse] at hn ⊢
  have hread := readDigits_foldl (n := 0) hbase hdigits hvalues hn
  rw [Number.readNatural.eq_def]
  split
  · rename_i hnil
    rw [hnil] at hdigits
    cases hdigits
    exact absurd rfl hne
  · rename_i hcons
    rw [hcons] at hplus
    exact absurd List.mem_cons_self hplus
  · exact hread

theorem codepoint?_toNat (c : Char) : codepoint? c.toNat = some c := by
  have hvalid := Text.char_valid c
  rw [codepoint?, if_pos (by omega), Char.ofNat_toNat]

theorem IsNumeral.numbered? (hbase : 0 < base) (h : IsNumeral base digits c.toNat) :
    numbered? base digits.toList = some c := by
  have hlimit : c.toNat ≤ wordLimit := by
    have hvalid := Text.char_valid c
    have hword : wordLimit = 4294967295 := rfl
    omega
  rw [Xml.numbered?, h.readNatural hbase hlimit]
  exact codepoint?_toNat c

theorem resolve_decimal (h : IsNumeral 10 digits c.toNat) : resolve ("#" ++ digits) = .ok c := by
  have hx : digits.toList.head? ≠ some 'x' := fun hx => h.not_mem rfl (List.mem_of_head? hx)
  have hX : digits.toList.head? ≠ some 'X' := fun hX => h.not_mem rfl (List.mem_of_head? hX)
  have hlist : ("#" ++ digits).toList = '#' :: digits.toList := String.toList_append
  refine eq_ok_of_toOption ?_
  rw [toOption_resolve hlist, referenceDigits_decimal hx hX]
  exact h.numbered? (Nat.succ_pos 9)

theorem resolve_hexadecimal (h : IsNumeral 16 digits c.toNat) :
    resolve ("#x" ++ digits) = .ok c := by
  have hlist : ("#x" ++ digits).toList = '#' :: 'x' :: digits.toList := String.toList_append
  refine eq_ok_of_toOption ?_
  rw [toOption_resolve hlist]
  exact h.numbered? (Nat.succ_pos 15)

theorem resolve_entity {name : String} (h : (name, c) ∈ predefinedEntities) :
    resolve name = .ok c := by
  simp only [predefinedEntities, List.mem_cons, Prod.mk.injEq, List.not_mem_nil, or_false] at h
  rcases h with ⟨rfl, rfl⟩ | ⟨rfl, rfl⟩ | ⟨rfl, rfl⟩ | ⟨rfl, rfl⟩ | ⟨rfl, rfl⟩ <;> rfl

end Numerals

section Patterns

/-- No two places of a pattern overlap if its last octet is no other one of it. -/
theorem not_prefix_of_overlap {q x m z : Octets} {b e : UInt8} (he : e ∉ q) (hne : m ≠ [])
    (hm : b :: x ++ m = q ++ [e]) : ¬ q ++ [e] <+: b :: x ++ (q ++ e :: z) := by
  intro h
  obtain ⟨m, e', rfl⟩ := (List.eq_nil_or_concat m).resolve_left hne
  rw [← hm, List.prefix_append_right_inj] at h
  rw [List.concat_eq_append] at h hm
  rw [← List.append_assoc] at hm
  obtain ⟨hq, he'⟩ := List.append_inj' hm rfl
  obtain rfl := (List.cons.inj he').1
  have hlength : (m ++ [e']).length ≤ q.length := by
    rw [← hq, List.length_append, List.length_append, List.length_singleton, List.length_cons]
    omega
  have hinside := List.prefix_of_prefix_length_le h (List.prefix_append q _) hlength
  exact he (hinside.subset (List.mem_append_right _ List.mem_cons_self))

theorem breakOn_pattern {q x : Octets} {e : UInt8} (he : e ∉ q) (hx : ¬ q ++ [e] <:+: x)
    (z : Octets) : breakOn (q ++ [e]) (x ++ (q ++ e :: z)) = some (x, z) := by
  have hall : q ++ e :: z = (q ++ [e]) ++ z := by rw [List.append_assoc, List.singleton_append]
  induction x with
  | nil =>
    have hcons : ∃ b rest, q ++ e :: z = b :: rest := by
      cases q with
      | nil => exact ⟨e, z, rfl⟩
      | cons b q => exact ⟨b, q ++ e :: z, rfl⟩
    obtain ⟨b, rest, hcons⟩ := hcons
    have hprefix : (q ++ [e]).isPrefixOf (b :: rest) = true := by
      rw [← hcons, hall, List.isPrefixOf_iff_prefix]
      exact List.prefix_append _ z
    rw [List.nil_append, hcons, breakOn, if_pos hprefix, ← hcons, hall, List.drop_left]
  | cons b x ih =>
    have hprefix : ¬ q ++ [e] <+: b :: (x ++ (q ++ e :: z)) := by
      rw [← List.cons_append]
      intro h
      rcases List.prefix_or_prefix_of_prefix h (List.prefix_append (b :: x) _) with h' | ⟨m, hm⟩
      · exact hx h'.isInfix
      · refine not_prefix_of_overlap he ?_ hm h
        rintro rfl
        rw [List.append_nil] at hm
        exact hx (hm ▸ List.infix_refl _)
    rw [List.cons_append, breakOn, if_neg fun h => hprefix (List.isPrefixOf_iff_prefix.1 h),
      ih fun h => hx (h.trans (List.infix_cons (List.infix_refl x)))]
    rfl

end Patterns

namespace Builder

variable {tag : Tag} {content : List Content} {frames : List Frame} {root : Option Element}
  {opened : List Octets} {x y z : Octets} {s t : Option String}

def add (content : List Content) : Option String → List Content
  | none => content
  | some s => pushText s content

theorem add_add (content : List Content) (s t : Option String) :
    add (add content s) t = add content (s.merge (· ++ ·) t) := by
  cases s with
  | none => cases t <;> rfl
  | some s => cases t with
    | none => rfl
    | some t => exact pushText_pushText s t content

section Raw

theorem toOption_resume_text (hx : x ≠ []) (hall : ∀ c ∈ x, isCharacter c = true)
    (hy : ∀ c ∈ y.head?, isCharacter c = false) :
    ((inside tag content frames root).resume opened (x ++ y)).toOption =
      (Text.decode x).toOption.bind fun s =>
        ((inside tag (pushText s content) frames root).resume opened y).toOption := by
  obtain ⟨b, x, rfl⟩ := List.exists_cons_of_ne_nil hx
  obtain ⟨hb, hmore⟩ := List.forall_mem_cons.1 hall
  have hmarks : b ≠ octet '<' ∧ b ≠ octet '&' := by simpa [isCharacter] using hb
  have htake : (x ++ y).takeWhile isCharacter = x := by
    cases y with
    | nil => rw [List.append_nil, List.takeWhile_eq_self_iff.2 hmore]
    | cons c y => exact takeWhile_key hmore (hy c rfl)
  have hdrop : (x ++ y).dropWhile isCharacter = y := by
    cases y with
    | nil => rw [List.append_nil, List.dropWhile_eq_nil_iff.2 hmore]
    | cons c y => exact dropWhile_key hmore (hy c rfl)
  have hscan : scanNext opened b (x ++ y) = .ok ⟨.text (b :: x), opened, y⟩ := by
    rw [scanNext, if_neg hmarks.1, if_neg hmarks.2, htake, hdrop]
  cases hdecode : Text.decode (b :: x) with
  | error e =>
    have hstep : (inside tag content frames root).step (.text (b :: x)) =
        .error (.encoding (.characterData e)) := by
      rw [step, decodeCharacters, hdecode]
      rfl
    rw [List.cons_append, resume_error hscan hstep]
    rfl
  | ok s =>
    have hstep : (inside tag content frames root).step (.text (b :: x)) =
        .ok (inside tag (pushText s content) frames root) := by
      rw [step, decodeCharacters, hdecode]
      rfl
    rw [List.cons_append, resume_cons hscan hstep]
    rfl

theorem isCharacter_of_head {z : Octets} :
    ∀ c ∈ (z.dropWhile isCharacter).head?, isCharacter c = false := by
  intro c hc
  have hhead := List.head?_dropWhile_not isCharacter z
  rw [hc] at hhead
  simpa using hhead

theorem toOption_resume_split (hx : x ≠ []) (hall : ∀ c ∈ x, isCharacter c = true) (z : Octets) :
    ((inside tag content frames root).resume opened (x ++ z)).toOption =
      (Text.decode (x ++ z.takeWhile isCharacter)).toOption.bind fun s =>
        ((inside tag (pushText s content) frames root).resume opened
          (z.dropWhile isCharacter)).toOption := by
  have hwhole : ∀ c ∈ x ++ z.takeWhile isCharacter, isCharacter c = true :=
    List.forall_mem_append.2 ⟨hall, fun c hc => List.mem_takeWhile_imp hc⟩
  have hne : x ++ z.takeWhile isCharacter ≠ [] := fun h => hx (List.append_eq_nil_iff.1 h).1
  rw [← toOption_resume_text hne hwhole isCharacter_of_head, List.append_assoc,
    List.takeWhile_append_dropWhile]

theorem toOption_resume_encode {u : String} (hall : ∀ c ∈ encode u, isCharacter c = true)
    (z : Octets) : ((inside tag content frames root).resume opened (encode u ++ z)).toOption =
      ((inside tag (push u content) frames root).resume opened z).toOption := by
  by_cases hu : u = ""
  · rw [hu, push_empty]
    rfl
  have hne : encode u ≠ [] := fun h => hu (Text.encode_injective h)
  rw [push_of_ne hu]
  rw [toOption_resume_split hne hall, Text.toOption_decode_append]
  by_cases hz : z.takeWhile isCharacter = []
  · have hdrop : z.dropWhile isCharacter = z := by
      simpa [hz] using List.takeWhile_append_dropWhile (p := isCharacter) (l := z)
    have hempty : Text.decode [] = .ok "" := Text.decode_encode ""
    rw [hz, hempty, hdrop]
    change ((inside tag (pushText (u ++ "") content) frames root).resume opened z).toOption = _
    rw [String.append_empty]
  · have hmore : ((inside tag (pushText u content) frames root).resume opened
        (z.takeWhile isCharacter ++ z.dropWhile isCharacter)).toOption = _ :=
      toOption_resume_text hz (fun c hc => List.mem_takeWhile_imp hc) isCharacter_of_head
    rw [List.takeWhile_append_dropWhile] at hmore
    rw [hmore, Option.bind_map]
    refine Option.bind_congr fun s _ => ?_
    rw [pushText_pushText]
    rfl

theorem toOption_resume_cut (hx : ∀ u, x ≠ encode u) (hall : ∀ c ∈ x, isCharacter c = true)
    (hz : ∀ b ∈ z.head?, Text.IsFirst b) :
    ((inside tag content frames root).resume opened (x ++ z)).toOption = none := by
  have hne : x ≠ [] := fun h => hx "" h
  have hfirst : ∀ b ∈ (z.takeWhile isCharacter).head?, Text.IsFirst b := by
    cases z with
    | nil => exact hz
    | cons c z =>
      by_cases hc : isCharacter c = true
      · rw [List.takeWhile_cons_of_pos hc]
        exact hz
      · rw [List.takeWhile_cons_of_neg hc]
        exact nofun
  rw [toOption_resume_split hne hall]
  cases hdecode : Text.decode (x ++ z.takeWhile isCharacter) with
  | error e => rfl
  | ok s =>
    obtain ⟨u, hu⟩ := Text.exists_encode_of_decode_append hdecode hfirst
    exact absurd hu (hx u)

end Raw

section Pieces

theorem resume_reference {name : String} {c : Char}
    (hname : ∀ x ∈ name.toList, x ≠ '&' ∧ x ≠ ';' ∧ x ≠ '<') (h : resolve name = .ok c)
    (z : Octets) :
    (inside tag content frames root).resume opened (encode ("&" ++ name ++ ";") ++ z) =
      (inside tag (pushText (String.singleton c) content) frames root).resume opened z := by
  have hoctets : encode ("&" ++ name ++ ";") ++ z =
      octet '&' :: (name.toList.flatMap String.utf8EncodeChar ++ octet ';' :: z) := by
    rw [Text.encode_append, Text.encode_append, show encode "&" = [octet '&'] from rfl,
      show encode ";" = [octet ';'] from rfl, encode_eq]
    simp
  have hstep : (inside tag content frames root).step
      (.reference (name.toList.flatMap String.utf8EncodeChar)) =
        .ok (inside tag (pushText (String.singleton c) content) frames root) := by
    rw [step_reference, String.ofList_toList, h]
    rfl
  rw [hoctets, resume_cons (scanNext_reference hname z) hstep]

theorem scanNext_cdata (opened : List Octets) (x : Octets) :
    scanNext opened (octet '<') (encode "![CDATA[" ++ x) = (match breakOn (encode "]]>") x with
      | some (x, y) => .ok ⟨.characters x, opened, y⟩
      | none => .error .unclosedCData) := rfl

theorem scanNext_comment (opened : List Octets) (x : Octets) :
    scanNext opened (octet '<') (encode "!--" ++ x) = (match breakOn (encode "-->") x with
      | some (_, y) => .ok ⟨.ignored, opened, y⟩
      | none => .error .unclosedComment) := rfl

theorem scanNext_instruction {body : Octets}
    (h : breakOn (encode "?>") (octet '?' :: x) = some (octet '?' :: body, y)) :
    scanNext opened (octet '<') (octet '?' :: x) = .ok ⟨.ignored, opened, y⟩ := by
  change scanInstruction opened (octet '?' :: x) = _
  rw [scanInstruction, h]
  rfl

theorem resume_cdata {u : String} (h : ¬ encode "]]>" <:+: encode u) (z : Octets) :
    (inside tag content frames root).resume opened (encode ("<![CDATA[" ++ u ++ "]]>") ++ z) =
      (inside tag (pushText u content) frames root).resume opened z := by
  have hoctets : encode ("<![CDATA[" ++ u ++ "]]>") ++ z =
      octet '<' :: (encode "![CDATA[" ++ (encode u ++ (encode "]]" ++ octet '>' :: z))) := by
    rw [Text.encode_append, Text.encode_append,
      show encode "<![CDATA[" = octet '<' :: encode "![CDATA[" from rfl,
      show encode "]]>" = encode "]]" ++ [octet '>'] from rfl]
    simp
  have hbreak : breakOn (encode "]]>") (encode u ++ (encode "]]" ++ octet '>' :: z)) =
      some (encode u, z) := breakOn_pattern (q := encode "]]") (e := octet '>') (by decide) h z
  have hscan := scanNext_cdata opened (encode u ++ (encode "]]" ++ octet '>' :: z))
  rw [hbreak] at hscan
  have hstep : (inside tag content frames root).step (.characters (encode u)) =
      .ok (inside tag (pushText u content) frames root) := by
    rw [step, decodeOctets_encode]
    rfl
  rw [hoctets, resume_cons hscan hstep]

theorem resume_comment (b : Builder) {body : Octets} (h : ¬ encode "-->" <:+: body) (z : Octets) :
    b.resume opened (encode "<!--" ++ body ++ encode "-->" ++ z) = b.resume opened z := by
  have hoctets : encode "<!--" ++ body ++ encode "-->" ++ z =
      octet '<' :: (encode "!--" ++ (body ++ (encode "--" ++ octet '>' :: z))) := by
    rw [show encode "<!--" = octet '<' :: encode "!--" from rfl,
      show encode "-->" = encode "--" ++ [octet '>'] from rfl]
    simp
  have hbreak : breakOn (encode "-->") (body ++ (encode "--" ++ octet '>' :: z)) =
      some (body, z) := breakOn_pattern (q := encode "--") (e := octet '>') (by decide) h z
  have hscan := scanNext_comment opened (body ++ (encode "--" ++ octet '>' :: z))
  rw [hbreak] at hscan
  have hstep : b.step .ignored = .ok b := rfl
  rw [hoctets, resume_cons hscan hstep]

theorem resume_instruction (b : Builder) {body : Octets}
    (h : ¬ encode "?>" <:+: octet '?' :: body) (z : Octets) :
    b.resume opened (encode "<?" ++ body ++ encode "?>" ++ z) = b.resume opened z := by
  have hoctets : encode "<?" ++ body ++ encode "?>" ++ z =
      octet '<' :: octet '?' :: (body ++ (encode "?" ++ octet '>' :: z)) := by
    rw [show encode "<?" = [octet '<', octet '?'] from rfl,
      show encode "?>" = encode "?" ++ [octet '>'] from rfl]
    simp
  have hbreak : breakOn (encode "?>") (octet '?' :: (body ++ (encode "?" ++ octet '>' :: z))) =
      some (octet '?' :: body, z) :=
    breakOn_pattern (q := encode "?") (e := octet '>') (by decide) h z
  have hstep : b.step .ignored = .ok b := rfl
  rw [hoctets, resume_cons (scanNext_instruction hbreak) hstep]

end Pieces

theorem toOption_resume_piece (h : IsPiece x s) (z : Octets) :
    ((inside tag content frames root).resume opened (x ++ z)).toOption =
      ((inside tag (add content s) frames root).resume opened z).toOption := by
  cases h with
  | raw hne hmarks =>
    rw [toOption_resume_encode (isCharacter_encode hmarks), push_of_ne hne]
    rfl
  | @entity name c hname =>
    have hmarks : ∀ p ∈ predefinedEntities, ∀ x ∈ p.1.toList, x ≠ '&' ∧ x ≠ ';' ∧ x ≠ '<' := by
      decide
    exact congrArg Except.toOption (resume_reference (hmarks _ hname) (resolve_entity hname) z)
  | @decimal digits c hdigits =>
    have hmarks := hdigits.ne_mark (m := "#") (by decide)
    have hsplit : "&#" ++ digits ++ ";" = "&" ++ ("#" ++ digits) ++ ";" := by
      rw [show "&#" = "&" ++ "#" from rfl]
      simp only [String.append_assoc]
    rw [hsplit]
    exact congrArg Except.toOption (resume_reference hmarks (resolve_decimal hdigits) z)
  | @hexadecimal digits c hdigits =>
    have hmarks := hdigits.ne_mark (m := "#x") (by decide)
    have hsplit : "&#x" ++ digits ++ ";" = "&" ++ ("#x" ++ digits) ++ ";" := by
      rw [show "&#x" = "&" ++ "#x" from rfl]
      simp only [String.append_assoc]
    rw [hsplit]
    exact congrArg Except.toOption (resume_reference hmarks (resolve_hexadecimal hdigits) z)
  | cdata hu => exact congrArg Except.toOption (resume_cdata hu z)
  | comment hbody => exact congrArg Except.toOption (resume_comment _ hbody z)
  | instruction hbody => exact congrArg Except.toOption (resume_instruction _ hbody z)

theorem toOption_resume_run (h : IsRun x s) (z : Octets) :
    ((inside tag content frames root).resume opened (x ++ z)).toOption =
      ((inside tag (add content s) frames root).resume opened z).toOption := by
  induction h generalizing content with
  | nil => rfl
  | cons hx hy ih => rw [List.append_assoc, toOption_resume_piece hx, ih, add_add]

theorem length_attach (b : Builder) (tag : Tag) (content : List Content) :
    (b.attach tag content).frames.length = b.frames.length := by
  obtain ⟨frames, root⟩ := b
  cases frames <;> rfl

theorem openedAfter_of_isCharacterData {event : Event} (h : event.isCharacterData = true)
    (names : List Octets) : event.openedAfter names = names := by
  cases event with
  | opening _ | closing => cases h
  | _ => rfl

theorem Outcome.length_frames {b b' : Builder} {event : Event} (h : Outcome b event b')
    {names : List Octets} (hlength : b.frames.length = names.length) :
    b'.frames.length = (event.openedAfter names).length := by
  cases h with
  | opening htag => exact congrArg (· + 1) hlength
  | empty htag => exact (length_attach b _ _).trans hlength
  | closing hframes =>
    rw [hframes] at hlength
    rw [length_attach, Event.openedAfter, List.length_tail, ← hlength]
    rfl
  | unopened hframes =>
    rw [hframes] at hlength
    rw [hframes, Event.openedAfter, List.length_tail, ← hlength]
    rfl
  | text hevent s hframes =>
    rw [hframes] at hlength
    rw [openedAfter_of_isCharacterData hevent]
    exact hlength
  | blank hevent hframes =>
    rw [openedAfter_of_isCharacterData hevent]
    exact hlength
  | ignored => exact hlength

theorem length_frames_of_run {events : List Event} {b : Builder}
    (hrun : events.foldlM step start = .ok b) :
    b.frames.length = (openedBy [] events).length := by
  obtain ⟨names, hnames, hlength⟩ := run_induction
    (I := fun rest b => ∃ names, openedBy names rest = openedBy [] events ∧
      b.frames.length = names.length)
    (fun ⟨_, hnames, hlength⟩ houtcome => ⟨_, hnames, houtcome.length_frames hlength⟩)
    ⟨[], rfl, rfl⟩ hrun
  rw [← hnames]
  exact hlength

end Builder

section Documents

variable {before run run' after x y : Octets} {s : Option String} {t : String}

theorem IsPiece.exists_cons (h : IsPiece x s) : ∃ b rest, x = b :: rest ∧ Text.IsFirst b := by
  have hampersand : Text.IsFirst (octet '&') := .inl (by decide)
  have hbracket : Text.IsFirst (octet '<') := .inl (by decide)
  cases h with
  | @raw s hs hmarks =>
    obtain ⟨c, cs, hcs⟩ := List.exists_cons_of_ne_nil fun h => hs (String.toList_inj.1 h)
    obtain ⟨b, inner, hc, hb, -⟩ := Text.isFirst_encodeChar c
    refine ⟨b, inner ++ cs.flatMap String.utf8EncodeChar, ?_, hb⟩
    rw [encode_eq, hcs, List.flatMap_cons, hc]
    rfl
  | entity | decimal | hexadecimal =>
    rw [Text.encode_append, Text.encode_append]
    exact ⟨_, _, rfl, hampersand⟩
  | cdata =>
    rw [Text.encode_append, Text.encode_append]
    exact ⟨_, _, rfl, hbracket⟩
  | comment | instruction => exact ⟨_, _, rfl, hbracket⟩

theorem IsRun.isFirst_head (h : IsRun run s) (hs : s ≠ none) (z : Octets) :
    ∀ b ∈ (run ++ z).head?, Text.IsFirst b := by
  cases h with
  | nil => exact absurd rfl hs
  | cons hx hy =>
    obtain ⟨b, rest, rfl, hb⟩ := hx.exists_cons
    intro c hc
    obtain rfl := Option.some.inj hc
    exact hb

/-- Inside an element, what comes of the rest of a document depends on the text of a run alone. -/
theorem toOption_parse_run (hbefore : EndsInside before) (h : IsRun run (some t))
    (h' : IsRun run' (some t)) (after : Octets) :
    (Element.parse (before ++ (run ++ after))).toOption =
      (Element.parse (before ++ (run' ++ after))).toOption := by
  have hinside := hbefore
  rw [EndsInside, scan_eq] at hinside
  obtain ⟨events, w, hw, hopened, hscan⟩ := exists_scanFrom_append hinside.1
  rw [hopened] at hinside
  have hparse : ∀ z, Element.parse (before ++ z) = (events.foldlM Builder.step Builder.start >>=
      fun b => b.resume (openedBy [] events) (w ++ z)) := by
    intro z
    rw [Element.parse, Element.ofEvents, scan_eq, hbefore.withoutMark_append, hscan,
      List.foldlM_append]
    cases events.foldlM Builder.step Builder.start <;> rfl
  rw [hparse, hparse]
  cases hrun : events.foldlM Builder.step Builder.start with
  | error e => rfl
  | ok b =>
    have hlength := Builder.length_frames_of_run hrun
    obtain ⟨frames, root⟩ := b
    have hopen : frames ≠ [] := by
      rw [← List.length_pos_iff, hlength, List.length_pos_iff]
      exact hinside.2
    obtain ⟨f, frames, rfl⟩ := List.exists_cons_of_ne_nil hopen
    change ((Builder.inside f.tag f.content frames root).resume _ _).toOption =
      ((Builder.inside f.tag f.content frames root).resume _ _).toOption
    -- What is in front can end in characters that the run goes on with.
    by_cases hwhole : ∃ u, w = encode u
    · obtain ⟨u, rfl⟩ := hwhole
      rw [Builder.toOption_resume_encode hw, Builder.toOption_resume_encode hw,
        Builder.toOption_resume_run h, Builder.toOption_resume_run h']
    · rw [not_exists] at hwhole
      rw [Builder.toOption_resume_cut hwhole hw (h.isFirst_head (Option.some_ne_none t) after),
        Builder.toOption_resume_cut hwhole hw (h'.isFirst_head (Option.some_ne_none t) after)]

theorem toOption_parse (s : Octets) :
    (Document.parse s).toOption = (Element.parse s).toOption.map Document.ofElement := by
  rw [Document.parse]
  cases Element.parse s <;> rfl

/-- Documents that differ in the spelling of character data alone are both refused, or both are read
as the same tree. -/
theorem toOption_parse_respelled (h : Relation.ReflTransGen Respells x y) :
    (Document.parse x).toOption = (Document.parse y).toOption := by
  induction h with
  | refl => rfl
  | tail _ hstep ih =>
    obtain ⟨before, run, run', after, t, hbefore, hrun, hrun', rfl, rfl⟩ := hstep
    rw [ih, toOption_parse, toOption_parse, toOption_parse_run hbefore hrun hrun']

theorem toOption_parse_respelled_cdata :
    Relation.ReflTransGen Respells (encode "<a>A&lt;</a>")
        (encode "<a><!--c--><![CDATA[A<]]></a>") ∧
      (Document.parse (encode "<a>A&lt;</a>")).toOption =
        (Document.parse (encode "<a><!--c--><![CDATA[A<]]></a>")).toOption := by
  have hbefore : EndsInside (encode "<a>") := by
    have hscan : scanNext [] (octet '<') (encode "a>") =
        .ok ⟨.opening (encode "a"), [encode "a"], []⟩ := rfl
    have hevents : Event.scan (encode "<a>") = ⟨[.opening (encode "a")], none⟩ := by
      rw [scan_eq]
      change Event.scanFrom [] (octet '<' :: encode "a>") = _
      rw [Builder.scanFrom_cons hscan, Event.scanFrom]
    rw [EndsInside, hevents]
    exact ⟨rfl, List.cons_ne_nil _ _⟩
  have hmarks : ∀ c ∈ "A".toList, c ≠ '<' ∧ c ≠ '&' := by decide
  have hentity : IsPiece (encode "&lt;") (some "<") :=
    .entity (show ("lt", '<') ∈ predefinedEntities by decide)
  have hcomment : IsPiece (encode "<!--c-->") none :=
    .comment (show ¬ encode "-->" <:+: encode "c" by decide)
  have hrun : IsRun (encode "A" ++ (encode "&lt;" ++ [])) (some "A<") :=
    .cons (.raw (by decide) hmarks) (.cons hentity .nil)
  have hrun' : IsRun (encode "<!--c-->" ++ (encode "<![CDATA[A<]]>" ++ [])) (some "A<") :=
    .cons hcomment (.cons (.cdata (s := "A<") (by decide)) .nil)
  have hall : Relation.ReflTransGen Respells (encode "<a>A&lt;</a>")
      (encode "<a><!--c--><![CDATA[A<]]></a>") :=
    .single ⟨encode "<a>", _, _, encode "</a>", "A<", hbefore, hrun, hrun', rfl, rfl⟩
  exact ⟨hall, toOption_parse_respelled hall⟩

end Documents

end ServiceClient.Xml
