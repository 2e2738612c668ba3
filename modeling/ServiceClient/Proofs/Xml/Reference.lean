import ServiceClient.Proofs.Text.Blank
import ServiceClient.Proofs.Text.Utf8
import ServiceClient.Xml.Event
import ServiceClient.Xml.Reference

/-! Escaped text holds no bracket, no quote and no ampersand but those of its references, and both
readings of a reference give back the character that it was written for. -/

namespace ServiceClient.Xml

open Text (Octets encode)

/-- A name that `escape` uses for `c`. Both readings know it, and none of its letters ends a
reference. -/
structure Names (name : List Char) (c : Char) : Prop where
  letters : ∀ x ∈ name, 'a' ≤ x ∧ x ≤ 'z'
  resolves : resolve (String.ofList name) = .ok c
  unescapes : ∀ start stop, unescapeName start stop name = .ok c

theorem escapeChar_cases (c : Char) :
    escapeChar c = [c] ∧ c ≠ '<' ∧ c ≠ '&' ∧ c ≠ '"' ∨
      ∃ name, escapeChar c = '&' :: (name ++ [';']) ∧ Names name c := by
  by_cases hlt : c = '<'
  · subst hlt
    exact .inr ⟨['l', 't'], by decide, by decide, by decide, fun _ _ => rfl⟩
  by_cases hgt : c = '>'
  · subst hgt
    exact .inr ⟨['g', 't'], by decide, by decide, by decide, fun _ _ => rfl⟩
  by_cases hamp : c = '&'
  · subst hamp
    exact .inr ⟨['a', 'm', 'p'], by decide, by decide, by decide, fun _ _ => rfl⟩
  by_cases hapos : c = '\''
  · subst hapos
    exact .inr ⟨['a', 'p', 'o', 's'], by decide, by decide, by decide, fun _ _ => rfl⟩
  by_cases hquot : c = '"'
  · subst hquot
    exact .inr ⟨['q', 'u', 'o', 't'], by decide, by decide, by decide, fun _ _ => rfl⟩
  · refine .inl ⟨?_, hlt, hamp, hquot⟩
    rw [escapeChar, if_neg hlt, if_neg hgt, if_neg hamp, if_neg hapos, if_neg hquot]

theorem Names.ne_mark {name : List Char} {c x : Char} (h : Names name c) (hx : x ∈ name) :
    x ≠ '&' ∧ x ≠ ';' ∧ x ≠ '<' ∧ x ≠ '"' := by
  have hlow := (h.letters x hx).1
  refine ⟨?_, ?_, ?_, ?_⟩ <;> (rintro rfl; exact absurd hlow (by decide))

theorem escape_append (s t : String) : escape (s ++ t) = escape s ++ escape t := by
  rw [escape, String.toList_append, List.flatMap_append, String.ofList_append]
  rfl

theorem ne_mark_of_mem_escapeChar {c x : Char} (h : x ∈ escapeChar c) : x ≠ '<' ∧ x ≠ '"' := by
  rcases escapeChar_cases c with ⟨hc, hlt, _, hquot⟩ | ⟨name, hc, hname⟩
  · rw [hc, List.mem_singleton] at h
    subst h
    exact ⟨hlt, hquot⟩
  · simp only [hc, List.mem_cons, List.mem_append, List.not_mem_nil, or_false] at h
    rcases h with rfl | h | rfl
    · decide
    · exact ⟨(hname.ne_mark h).2.2.1, (hname.ne_mark h).2.2.2⟩
    · decide

theorem unescapeFrom_name (size offset : Nat) (read name rest : List Char)
    (h : ∀ x ∈ name, x ≠ '&' ∧ x ≠ ';' ∧ x ≠ '<' ∧ x ≠ '"') :
    unescapeFrom size (some read) offset (name ++ rest) =
      unescapeFrom size (some (name.reverse ++ read)) offset rest := by
  induction name generalizing read with
  | nil => rfl
  | cons x name ih =>
    have hx := h x List.mem_cons_self
    have hrest := ih (x :: read) fun y hy => h y (List.mem_cons_of_mem x hy)
    rw [List.cons_append, unescapeFrom, if_neg hx.1, if_neg hx.2.1, hrest, List.reverse_cons,
      List.append_assoc, List.singleton_append]

theorem unescapeFrom_escapeChars (size : Nat) (cs : List Char) (offset : Nat) :
    unescapeFrom size none offset (cs.flatMap escapeChar) = .ok cs := by
  induction cs generalizing offset with
  | nil => rfl
  | cons c cs ih =>
    rw [List.flatMap_cons]
    rcases escapeChar_cases c with ⟨hc, _, hamp, _⟩ | ⟨name, hc, hname⟩
    · rw [hc, List.singleton_append, unescapeFrom, if_neg hamp, ih]
    · rw [hc, List.cons_append, unescapeFrom, if_pos rfl, List.append_assoc,
        unescapeFrom_name _ _ _ _ _ fun x hx => hname.ne_mark hx, List.singleton_append,
        unescapeFrom, if_neg (by decide), if_pos rfl]
      simp only [List.append_nil, List.reverse_reverse, hname.unescapes, ih]

theorem unescape_escape (s : String) : unescape (escape s) = .ok s := by
  rw [unescape, escape, String.toList_ofList, unescapeFrom_escapeChars]
  exact congrArg Except.ok (String.ofList_toList)

theorem toNat_octet {d : Char} (hd : d.toNat < 128) : (octet d).toNat = d.toNat :=
  Text.toNat_ofNat (Nat.lt_trans hd (by decide))

theorem octet_not_mem_encode {cs : List Char} {d : Char} (hd : d.toNat < 128) (h : d ∉ cs) :
    octet d ∉ cs.flatMap String.utf8EncodeChar := by
  intro hmem
  obtain ⟨c, hc, hoctet⟩ := List.mem_flatMap.1 hmem
  have hlow : octet d < 0x80 := by
    rw [UInt8.lt_iff_toNat_lt, toNat_octet hd]
    exact hd
  have heq := Text.eq_of_mem_encodeChar hlow hoctet
  rw [toNat_octet hd, Char.toNat_inj] at heq
  exact h (heq ▸ hc)

theorem quote_not_mem_escape (s : String) : octet '"' ∉ encode (escape s) := by
  rw [escape, Text.encode_ofList]
  refine octet_not_mem_encode (by decide) fun h => ?_
  obtain ⟨c, _, hc⟩ := List.mem_flatMap.1 h
  exact (ne_mark_of_mem_escapeChar hc).2 rfl

end ServiceClient.Xml
