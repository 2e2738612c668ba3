import Mathlib.Data.List.Basic
import ServiceClient.Proofs.Xml.Parse

/-! What stands behind a token does not change it: a part of a document that is scanned without a
fault gives the same events whatever follows it. Only characters at its end may be part of a longer
text. -/

namespace ServiceClient.Xml

open Text (Octets encode)

section Ends

variable {pattern s x y : Octets}

theorem isPrefixOf_append (h : pattern.isPrefixOf s = true) (z : Octets) :
    pattern.isPrefixOf (s ++ z) = true := by
  rw [List.isPrefixOf_iff_prefix] at h ⊢
  exact h.trans (List.prefix_append s z)

theorem isPrefixOf_append_of_length (h : pattern.length ≤ s.length) (z : Octets) :
    pattern.isPrefixOf (s ++ z) = pattern.isPrefixOf s := by
  rw [Bool.eq_iff_iff, List.isPrefixOf_iff_prefix, List.isPrefixOf_iff_prefix]
  exact ⟨fun hz => List.prefix_of_prefix_length_le hz (List.prefix_append s z) h,
    fun hs => hs.trans (List.prefix_append s z)⟩

theorem isPrefixOf_append_of_mem {b : UInt8} (hs : b ∈ s) (hpattern : b ∉ pattern) (z : Octets) :
    pattern.isPrefixOf (s ++ z) = pattern.isPrefixOf s := by
  rw [Bool.eq_iff_iff, List.isPrefixOf_iff_prefix, List.isPrefixOf_iff_prefix]
  refine ⟨fun hz => ?_, fun h => h.trans (List.prefix_append s z)⟩
  rcases List.prefix_or_prefix_of_prefix hz (List.prefix_append s z) with h | h
  · exact h
  · exact absurd (h.subset hs) hpattern

theorem length_le_of_breakOn (h : breakOn pattern s = some (x, y)) : pattern.length ≤ s.length := by
  induction s generalizing x y with
  | nil => cases h
  | cons b s ih =>
    rw [breakOn] at h
    split_ifs at h with hprefix
    · exact (List.isPrefixOf_iff_prefix.1 hprefix).length_le
    · obtain ⟨⟨x', y'⟩, hmore, -⟩ := Option.map_eq_some_iff.1 h
      exact Nat.le_succ_of_le (ih hmore)

theorem breakOn_append (h : breakOn pattern s = some (x, y)) (z : Octets) :
    breakOn pattern (s ++ z) = some (x, y ++ z) := by
  induction s generalizing x with
  | nil => cases h
  | cons b s ih =>
    have hlength := length_le_of_breakOn h
    rw [breakOn] at h
    rw [List.cons_append, breakOn, ← List.cons_append, isPrefixOf_append_of_length hlength]
    split_ifs at h ⊢ with hprefix
    · obtain ⟨rfl, rfl⟩ := Prod.mk.inj (Option.some.inj h)
      rw [List.drop_append_of_le_length hlength]
    · obtain ⟨⟨x', y'⟩, hmore, hxy⟩ := Option.map_eq_some_iff.1 h
      obtain ⟨rfl, rfl⟩ := Prod.mk.inj hxy
      rw [ih hmore]
      rfl

theorem tagEnd_append {q : Quoting} (h : tagEnd q s = .ok (x, y)) (z : Octets) :
    tagEnd q (s ++ z) = .ok (x, y ++ z) := by
  induction s generalizing q x with
  | nil => cases h
  | cons b s ih =>
    rw [tagEnd] at h
    rw [List.cons_append, tagEnd]
    split_ifs at h ⊢ with hend
    · obtain ⟨rfl, rfl⟩ := Prod.mk.inj (Except.ok.inj h)
      rfl
    · split at h
      · rename_i hmore
        obtain ⟨rfl, rfl⟩ := Prod.mk.inj (Except.ok.inj h)
        rw [ih hmore]
      · cases h

namespace DoctypePart

variable {p : DoctypePart} {b : UInt8} {rest : Octets}

/-- A declaration ends with a bracket alone, whatever follows. -/
theorem after_eq_none (h : p.after b rest = none) :
    b = octet '>' ∧ ∀ z, p.after b z = none := by
  cases p with
  | outer q =>
    cases q with
    | outside =>
      rw [after] at h
      split_ifs at h with hb
      exact ⟨hb, fun z => by rw [after, if_pos hb]⟩
    | inside quote => cases h
  | closed =>
    rw [after] at h
    split_ifs at h with hb
    exact ⟨hb, fun z => by rw [after, if_pos hb]⟩
  | quoted q =>
    cases q with
    | outside => rw [after] at h; split_ifs at h
    | inside quote => cases h
  | subset | plain | comment _ | instruction _ => rw [after] at h; split_ifs at h
  | instructionMark => cases h

theorem ofMarkup_append (h : octet '>' ∈ rest) (z : Octets) :
    ofMarkup (rest ++ z) = ofMarkup rest := by
  have hquoted : quotedDeclarations.any (·.isPrefixOf (rest ++ z)) =
      quotedDeclarations.any (·.isPrefixOf rest) := by
    have hmarks : ∀ pattern ∈ quotedDeclarations, octet '>' ∉ pattern := by decide
    rw [Bool.eq_iff_iff, List.any_eq_true, List.any_eq_true]
    refine exists_congr fun pattern => and_congr_right fun hpattern => ?_
    rw [isPrefixOf_append_of_mem h (hmarks pattern hpattern)]
  rw [ofMarkup, ofMarkup, isPrefixOf_append_of_mem h (by decide),
    isPrefixOf_append_of_mem h (by decide), hquoted]

theorem after_append (h : octet '>' ∈ rest) (z : Octets) :
    p.after b (rest ++ z) = p.after b rest := by
  cases p with
  | outer q | quoted q => cases q <;> rfl
  | subset => rw [after, after, ofMarkup_append h]
  | _ => rfl

end DoctypePart

theorem mem_of_doctypeEnd {p : DoctypePart} (h : doctypeEnd p s = some (x, y)) :
    octet '>' ∈ s := by
  induction s generalizing p x y with
  | nil => cases h
  | cons b s ih =>
    rw [doctypeEnd] at h
    split at h
    · rename_i hafter
      exact (DoctypePart.after_eq_none hafter).1 ▸ List.mem_cons_self
    · obtain ⟨⟨x', y'⟩, hmore, -⟩ := Option.map_eq_some_iff.1 h
      exact List.mem_cons_of_mem b (ih hmore)

theorem doctypeEnd_append {p : DoctypePart} (h : doctypeEnd p s = some (x, y)) (z : Octets) :
    doctypeEnd p (s ++ z) = some (x, y ++ z) := by
  induction s generalizing p x with
  | nil => cases h
  | cons b s ih =>
    rw [doctypeEnd] at h
    rw [List.cons_append, doctypeEnd]
    split at h
    · rename_i hafter
      obtain ⟨rfl, rfl⟩ := Prod.mk.inj (Option.some.inj h)
      rw [(DoctypePart.after_eq_none hafter).2]
    · rename_i p' hafter
      obtain ⟨⟨x', y'⟩, hmore, hxy⟩ := Option.map_eq_some_iff.1 h
      obtain ⟨rfl, rfl⟩ := Prod.mk.inj hxy
      rw [DoctypePart.after_append (mem_of_doctypeEnd hmore), hafter]
      dsimp only
      rw [ih hmore]
      rfl

end Ends

theorem dropWhile_append_of_cons {p : UInt8 → Bool} {s rest : Octets} {b : UInt8}
    (h : s.dropWhile p = b :: rest) (z : Octets) : (s ++ z).dropWhile p = b :: (rest ++ z) := by
  rw [List.dropWhile_append, h]
  rfl

theorem takeWhile_append_of_cons {p : UInt8 → Bool} {s rest : Octets} {b : UInt8}
    (h : s.dropWhile p = b :: rest) (z : Octets) : (s ++ z).takeWhile p = s.takeWhile p := by
  rw [List.takeWhile_append, if_neg]
  intro hlength
  have hsum := congrArg List.length (List.takeWhile_append_dropWhile (p := p) (l := s))
  rw [List.length_append, h, List.length_cons] at hsum
  omega

section Tokens

variable {opened : List Octets} {b : UInt8} {s : Octets} {t : Step}

def Step.before (t : Step) (z : Octets) : Step := { t with rest := t.rest ++ z }

theorem scanDeclaration_append (h : scanDeclaration opened s = .ok t) (z : Octets) :
    scanDeclaration opened (s ++ z) = .ok (t.before z) := by
  rw [scanDeclaration] at h ⊢
  split at h
  · cases h
  rename_i b hb
  rw [List.getElem?_append_left (List.getElem?_eq_some_iff.1 hb).1, hb]
  dsimp only
  by_cases hbracket : b = octet '['
  · rw [if_pos hbracket] at h ⊢
    split_ifs at h with hmark
    have hlength : 8 ≤ s.length := (List.isPrefixOf_iff_prefix.1 hmark).length_le
    rw [if_pos (isPrefixOf_append hmark z), List.drop_append_of_le_length hlength]
    split at h
    · rename_i hbreak
      obtain rfl := Except.ok.inj h
      rw [breakOn_append hbreak]
      rfl
    · cases h
  rw [if_neg hbracket] at h ⊢
  by_cases hdash : b = octet '-'
  · rw [if_pos hdash] at h ⊢
    split_ifs at h with hmark
    have hlength : 3 ≤ s.length := (List.isPrefixOf_iff_prefix.1 hmark).length_le
    rw [if_pos (isPrefixOf_append hmark z), List.drop_append_of_le_length hlength]
    split at h
    · rename_i hbreak
      obtain rfl := Except.ok.inj h
      rw [breakOn_append hbreak]
      rfl
    · cases h
  rw [if_neg hdash] at h ⊢
  split_ifs at h ⊢ with hdoctype
  split at h
  · rename_i hend
    rw [doctypeEnd_append hend]
    dsimp only
    split_ifs at h ⊢
    obtain rfl := Except.ok.inj h
    rfl
  · cases h

theorem scanInstruction_append (h : scanInstruction opened s = .ok t) (z : Octets) :
    scanInstruction opened (s ++ z) = .ok (t.before z) := by
  rw [scanInstruction] at h ⊢
  split at h
  · rename_i hbreak
    rw [breakOn_append hbreak]
    dsimp only
    split_ifs at h ⊢
    obtain rfl := Except.ok.inj h
    rfl
  · split_ifs at h

theorem scanClosing_append (h : scanClosing opened s = .ok t) (z : Octets) :
    scanClosing opened (s ++ z) = .ok (t.before z) := by
  rw [scanClosing] at h ⊢
  split at h
  · cases h
  rename_i hend
  rw [tagEnd_append hend]
  dsimp only at h ⊢
  split at h
  · cases h
  · split_ifs at h ⊢
    obtain rfl := Except.ok.inj h
    rfl

theorem scanOpening_append (h : scanOpening opened s = .ok t) (z : Octets) :
    scanOpening opened (s ++ z) = .ok (t.before z) := by
  rw [scanOpening] at h ⊢
  split at h
  · cases h
  rename_i hend
  rw [tagEnd_append hend]
  dsimp only
  split_ifs at h ⊢
  · obtain rfl := Except.ok.inj h
    rfl
  · obtain rfl := Except.ok.inj h
    rfl

theorem scanMarkup_append (h : scanMarkup opened s = .ok t) (z : Octets) :
    scanMarkup opened (s ++ z) = .ok (t.before z) := by
  cases s with
  | nil => cases h
  | cons b s =>
    rw [scanMarkup] at h
    rw [List.cons_append, scanMarkup, ← List.cons_append]
    split_ifs at h ⊢
    · exact scanDeclaration_append h z
    · exact scanClosing_append h z
    · exact scanInstruction_append h z
    · exact scanOpening_append h z

theorem scanReference_append (h : scanReference opened s = .ok t) (z : Octets) :
    scanReference opened (s ++ z) = .ok (t.before z) := by
  rw [scanReference] at h ⊢
  dsimp only at h ⊢
  split at h
  · rename_i b rest hrest
    split_ifs at h with hb
    obtain rfl := Except.ok.inj h
    rw [dropWhile_append_of_cons hrest, takeWhile_append_of_cons hrest]
    exact if_pos hb
  · cases h

/-- A token is scanned as it is whatever follows; a text that the octets end with may go on. -/
theorem scanNext_append (h : scanNext opened b s = .ok t) :
    (t = ⟨.text (b :: s), opened, []⟩ ∧ ∀ c ∈ b :: s, isCharacter c = true) ∨
      ∀ z, scanNext opened b (s ++ z) = .ok (t.before z) := by
  rw [scanNext] at h
  split_ifs at h with hbracket hampersand
  · refine .inr fun z => ?_
    rw [scanNext, if_pos hbracket]
    exact scanMarkup_append h z
  · refine .inr fun z => ?_
    rw [scanNext, if_neg hbracket, if_pos hampersand]
    exact scanReference_append h z
  · obtain rfl := Except.ok.inj h
    cases hrest : s.dropWhile isCharacter with
    | nil =>
      have hall : s.takeWhile isCharacter = s := by
        simpa [hrest] using List.takeWhile_append_dropWhile (p := isCharacter) (l := s)
      have hb : isCharacter b = true := by simp [isCharacter, hbracket, hampersand]
      refine .inl ⟨by rw [hall], List.forall_mem_cons.2 ⟨hb, fun c hc => ?_⟩⟩
      exact List.mem_takeWhile_imp (hall.symm ▸ hc)
    | cons c rest =>
      refine .inr fun z => ?_
      rw [scanNext, if_neg hbracket, if_neg hampersand, dropWhile_append_of_cons hrest,
        takeWhile_append_of_cons hrest]
      rfl

def Event.openedAfter (opened : List Octets) : Event → List Octets
  | .opening raw => tagName raw :: opened
  | .closing => opened.tail
  | _ => opened

theorem opened_of_scanDeclaration (h : scanDeclaration opened s = .ok t) :
    t.opened = t.event.openedAfter opened := by
  rw [scanDeclaration] at h
  repeat' split at h
  all_goals cases h
  all_goals rfl

theorem opened_of_scanMarkup (h : scanMarkup opened s = .ok t) :
    t.opened = t.event.openedAfter opened := by
  cases s with
  | nil => cases h
  | cons b s =>
    rw [scanMarkup] at h
    split_ifs at h
    · exact opened_of_scanDeclaration h
    · rw [scanClosing] at h
      split at h
      · cases h
      dsimp only at h
      repeat' split at h
      all_goals cases h
      rfl
    · rw [scanInstruction] at h
      repeat' split at h
      all_goals cases h
      rfl
    · rw [scanOpening] at h
      repeat' split at h
      all_goals cases h
      all_goals rfl

theorem opened_of_scanNext (h : scanNext opened b s = .ok t) :
    t.opened = t.event.openedAfter opened := by
  rw [scanNext] at h
  split_ifs at h
  · exact opened_of_scanMarkup h
  · rw [scanReference] at h
    dsimp only at h
    repeat' split at h
    all_goals cases h
    rfl
  · obtain rfl := Except.ok.inj h
    rfl

end Tokens

section Documents

variable {opened : List Octets} {s : Octets}

def openedBy (opened : List Octets) (events : List Event) : List Octets :=
  events.foldl Event.openedAfter opened

/-- A part without a fault, and what is scanned after it: characters that it ends with are one text
with what follows. -/
theorem exists_scanFrom_append (h : (Event.scanFrom opened s).fault = none) :
    ∃ events w, (∀ c ∈ w, isCharacter c = true) ∧
      openedBy opened (Event.scanFrom opened s).events = openedBy opened events ∧
      ∀ z, Event.scanFrom opened (s ++ z) =
        ⟨events ++ (Event.scanFrom (openedBy opened events) (w ++ z)).events,
          (Event.scanFrom (openedBy opened events) (w ++ z)).fault⟩ := by
  fun_induction Event.scanFrom opened s with
  | case1 opened => exact ⟨[], [], nofun, rfl, fun z => rfl⟩
  | case2 opened b rest e hscan => cases h
  | case3 opened b rest t hscan hlength more ih =>
    have hopened := opened_of_scanNext hscan
    rcases scanNext_append hscan with ⟨rfl, hall⟩ | happend
    · have hend : Event.scanFrom opened [] = ⟨[], none⟩ := by rw [Event.scanFrom]
      refine ⟨[], b :: rest, hall, ?_, fun z => rfl⟩
      change openedBy opened (.text (b :: rest) :: (Event.scanFrom opened []).events) = opened
      rw [hend]
      rfl
    · obtain ⟨events, w, hw, hmore, hrest⟩ := ih h
      refine ⟨t.event :: events, w, hw, ?_, fun z => ?_⟩
      · rw [hopened] at hmore
        change openedBy (t.event.openedAfter opened) (Event.scanFrom t.opened t.rest).events = _
        rw [hopened, hmore]
        rfl
      · rw [List.cons_append, Builder.scanFrom_cons (happend z)]
        have hz := hrest z
        rw [hopened] at hz
        change Events.mk (t.event :: (Event.scanFrom t.opened (t.rest ++ z)).events)
          (Event.scanFrom t.opened (t.rest ++ z)).fault = _
        rw [hopened, hz]
        rfl

/-- The octets end between two tokens or in character data, and an element is open there. -/
def EndsInside (s : Octets) : Prop :=
  (Event.scan s).fault = none ∧ openedBy [] (Event.scan s).events ≠ []

def byteOrderMark : Octets := [0xEF, 0xBB, 0xBF]

def withoutMark (s : Octets) : Octets :=
  if byteOrderMark.isPrefixOf s then s.drop 3 else s

theorem withoutMark_of_head {b : UInt8} (hb : b ≠ 0xEF) (s : Octets) :
    withoutMark (b :: s) = b :: s := by
  have hmark : byteOrderMark.isPrefixOf (b :: s) = false := by
    rw [byteOrderMark, List.isPrefixOf, beq_eq_false_iff_ne.2 hb.symm]
    rfl
  rw [withoutMark, hmark]
  rfl

theorem withoutMark_of_length (h : s.length < 3) : withoutMark s = s := by
  refine if_neg fun hmark => ?_
  have hlength := (List.isPrefixOf_iff_prefix.1 hmark).length_le
  exact Nat.not_le_of_lt h hlength

theorem scan_eq (s : Octets) : Event.scan s = Event.scanFrom [] (withoutMark s) := by
  unfold Event.scan
  split
  · rfl
  · rename_i hne
    rw [withoutMark, if_neg]
    intro hmark
    obtain ⟨rest, hrest⟩ := List.isPrefixOf_iff_prefix.1 hmark
    exact hne rest hrest.symm

theorem scanFrom_error {b : UInt8} {e : MarkupFault} (h : scanNext opened b s = .error e) :
    Event.scanFrom opened (b :: s) = ⟨[], some e⟩ := by
  rw [Event.scanFrom]
  split
  · rename_i hscan
    rw [h] at hscan
    cases hscan
    rfl
  · rename_i hscan
    rw [h] at hscan
    cases hscan

theorem not_endsInside_single : ¬ EndsInside [0xEF] := by
  intro h
  refine h.2 ?_
  rw [scan_eq, withoutMark_of_length (by decide)]
  have hscan : scanNext [] 0xEF [] = .ok ⟨.text [0xEF], [], []⟩ := rfl
  rw [Builder.scanFrom_cons hscan, Event.scanFrom]
  rfl

theorem not_endsInside_pair (b : UInt8) : ¬ EndsInside [0xEF, b] := by
  have hkeep : withoutMark [0xEF, b] = [0xEF, b] := withoutMark_of_length (by simp)
  rw [EndsInside, scan_eq, hkeep]
  rintro ⟨hfault, hopened⟩
  by_cases hb : isCharacter b = true
  · have hscan : scanNext [] 0xEF [b] = .ok ⟨.text [0xEF, b], [], []⟩ := by
      rw [scanNext, if_neg (by decide), if_neg (by decide), List.takeWhile_cons_of_pos hb,
        List.dropWhile_cons_of_pos hb]
      rfl
    rw [Builder.scanFrom_cons hscan, Event.scanFrom] at hopened
    exact hopened rfl
  · have hscan : scanNext [] 0xEF [b] = .ok ⟨.text [0xEF], [], [b]⟩ := by
      rw [scanNext, if_neg (by decide), if_neg (by decide), List.takeWhile_cons_of_neg hb,
        List.dropWhile_cons_of_neg hb]
    have herror : ∃ e, scanNext [] b [] = .error e := by
      rw [scanNext]
      split_ifs with hbracket hampersand
      · exact ⟨_, rfl⟩
      · exact ⟨_, rfl⟩
      · simp [isCharacter, hbracket, hampersand] at hb
    obtain ⟨e, herror⟩ := herror
    rw [Builder.scanFrom_cons hscan, scanFrom_error herror] at hfault
    cases hfault

theorem EndsInside.withoutMark_append (h : EndsInside s) (z : Octets) :
    withoutMark (s ++ z) = withoutMark s ++ z := by
  by_cases hlength : byteOrderMark.length ≤ s.length
  · have hmark : byteOrderMark.isPrefixOf (s ++ z) = byteOrderMark.isPrefixOf s :=
      isPrefixOf_append_of_length hlength z
    rw [withoutMark, withoutMark, hmark]
    split_ifs
    · exact List.drop_append_of_le_length hlength
    · rfl
  have hkeep : withoutMark s = s := withoutMark_of_length (Nat.lt_of_not_le hlength)
  match s with
  | [] =>
    refine absurd ?_ h.2
    rw [scan_eq, hkeep, Event.scanFrom]
    rfl
  | b :: s =>
    have hb : b ≠ 0xEF := by
      rintro rfl
      cases s with
      | nil => exact not_endsInside_single h
      | cons b s => cases s with
        | nil => exact not_endsInside_pair b h
        | cons c s => simp [byteOrderMark] at hlength
    rw [hkeep, List.cons_append, withoutMark_of_head hb]

end Documents

end ServiceClient.Xml
