import ServiceClient.Proofs.Http.Uri

/-! Which authorities are accepted. A scan looks at one character at a time: brackets open and close
once, and what has been counted is forgotten behind a user and behind the closing bracket. So the
brackets of an authority are paired, but those of its host need not be: the user or the port can have
the other one. -/

namespace ServiceClient.Http.Uri

def isOrdinary (c : Char) : Bool := isUriChar c && !":[]@".toList.contains c

theorem ne_of_isOrdinary {c d : Char} (hc : isOrdinary c = true) (hd : isOrdinary d = false) :
    c ≠ d := by
  rintro rfl
  rw [hc] at hd
  cases hd

namespace AuthorityScan

def start : AuthorityScan := ⟨0, false, false, false⟩

inductive Step (a : AuthorityScan) : Char → AuthorityScan → Prop where
  | colon (h : a.colons < 8) : Step a ':' { a with colons := a.colons + 1 }
  | opening (hpercent : a.percent = false) (hopened : a.opened = false) :
      Step a '[' { a with opened := true }
  | closing (hopened : a.opened = true) (hclosed : a.closed = false) :
      Step a ']' { a with closed := true, colons := 0, percent := false }
  | user : Step a '@' { a with colons := 0, percent := false }
  | percent : Step a '%' { a with percent := true }
  | ordinary {c : Char} (hc : isOrdinary c = true) : Step a c a

variable {a b m : AuthorityScan} {c : Char} {s t : List Char}

theorem step_eq_ok_iff : a.step c = .ok b ↔ a.Step c b := by
  constructor
  · intro h
    unfold step at h
    split_ifs at h with hcolon hcount hopening hbad hclosing hbad huser hpercent hplain
    · obtain rfl := hcolon
      cases h
      exact .colon (by omega)
    · obtain rfl := hopening
      cases h
      simp only [not_or, Bool.not_eq_true] at hbad
      exact .opening hbad.1 hbad.2
    · obtain rfl := hclosing
      cases h
      simp only [not_or, Bool.not_eq_true, Bool.not_eq_true', Bool.not_eq_false] at hbad
      exact .closing hbad.1 hbad.2
    · obtain rfl := huser
      cases h
      exact .user
    · obtain rfl := hpercent
      cases h
      exact .percent
    · cases h
      exact .ordinary (by simp [isOrdinary, hplain, hcolon, hopening, hclosing, huser])
  · rintro (h | ⟨hpercent, hopened⟩ | ⟨hopened, hclosed⟩ | _ | _ | hc)
    · simp [step, h]
    · simp [step, hpercent, hopened]
    · simp [step, hopened, hclosed]
    · simp [step]
    · simp [step]
    · have hplain : isUriChar c = true := (Bool.and_eq_true_iff.1 hc).1
      simp [step, hplain, ne_of_isOrdinary hc (d := ':') (by decide),
        ne_of_isOrdinary hc (d := '[') (by decide), ne_of_isOrdinary hc (d := ']') (by decide),
        ne_of_isOrdinary hc (d := '@') (by decide), ne_of_isOrdinary hc (d := '%') (by decide)]

namespace Step

theorem opened_iff (h : a.Step c b) : b.opened = true ↔ a.opened = true ∨ '[' = c := by
  cases h with
  | ordinary hc => simp [(ne_of_isOrdinary hc (d := '[') (by decide)).symm]
  | _ => simp

theorem closed_iff (h : a.Step c b) : b.closed = true ↔ a.closed = true ∨ ']' = c := by
  cases h with
  | ordinary hc => simp [(ne_of_isOrdinary hc (d := ']') (by decide)).symm]
  | _ => simp

theorem opened_of_closed (h : a.Step c b) (ha : a.closed = true → a.opened = true)
    (hb : b.closed = true) : b.opened = true := by
  cases h with
  | closing hopened _ => exact hopened
  | opening _ _ => rfl
  | _ => exact ha hb

theorem percent_iff (h : a.Step c b) (huser : '@' ≠ c) (hclosing : ']' ≠ c) :
    b.percent = true ↔ a.percent = true ∨ '%' = c := by
  cases h with
  | ordinary hc => simp [(ne_of_isOrdinary hc (d := '%') (by decide)).symm]
  | user => exact absurd rfl huser
  | closing _ _ => exact absurd rfl hclosing
  | _ => simp

theorem colons_eq_zero (h : a.Step c b) (hcolon : ':' ≠ c) (ha : a.colons = 0) : b.colons = 0 := by
  cases h with
  | colon _ => exact absurd rfl hcolon
  | user => rfl
  | closing _ _ => rfl
  | _ => exact ha

theorem not_opened (h : a.Step '[' b) : a.opened = false := by
  cases h with
  | opening _ hopened => exact hopened
  | ordinary hc => exact absurd hc (by decide)

theorem not_closed (h : a.Step ']' b) : a.closed = false := by
  cases h with
  | closing _ hclosed => exact hclosed
  | ordinary hc => exact absurd hc (by decide)

end Step

inductive Scans : AuthorityScan → List Char → AuthorityScan → Prop where
  | nil {a : AuthorityScan} : Scans a [] a
  | cons {a m b : AuthorityScan} {c : Char} {s : List Char} (h : a.Step c m) (hs : Scans m s b) :
      Scans a (c :: s) b

theorem foldlM_eq_ok_iff : s.foldlM step a = .ok b ↔ Scans a s b := by
  constructor
  · intro h
    induction s generalizing a with
    | nil =>
      cases h
      exact .nil
    | cons c s ih =>
      obtain ⟨m, hstep, hs⟩ := exists_of_bind h
      exact .cons (step_eq_ok_iff.1 hstep) (ih hs)
  · intro h
    induction h with
    | nil => rfl
    | cons h _ ih =>
      rw [List.foldlM_cons, step_eq_ok_iff.2 h]
      exact ih

namespace Scans

theorem append (hs : Scans a s m) (ht : Scans m t b) : Scans a (s ++ t) b := by
  induction hs with
  | nil => exact ht
  | cons h _ ih => exact .cons h (ih ht)

theorem exists_of_append (h : Scans a (s ++ t) b) : ∃ m, Scans a s m ∧ Scans m t b := by
  induction s generalizing a with
  | nil => exact ⟨a, .nil, h⟩
  | cons c s ih =>
    obtain _ | ⟨hstep, hmore⟩ := h
    obtain ⟨m, hs, ht⟩ := ih hmore
    exact ⟨m, .cons hstep hs, ht⟩

theorem of_ordinary (h : ∀ c ∈ s, isOrdinary c = true) : Scans a s a := by
  induction s with
  | nil => exact .nil
  | cons c s ih =>
    obtain ⟨hc, hs⟩ := List.forall_mem_cons.1 h
    exact .cons (.ordinary hc) (ih hs)

theorem exists_step (h : Scans a s b) (hc : c ∈ s) : ∃ x m n, Scans a x m ∧ m.Step c n := by
  obtain ⟨x, y, rfl⟩ := List.append_of_mem hc
  obtain ⟨m, hx, _ | ⟨hstep, -⟩⟩ := h.exists_of_append
  exact ⟨x, m, _, hx, hstep⟩

theorem mem (h : Scans a s b) (hc : c ∈ s) :
    isOrdinary c = true ∨ c ∈ [':', '[', ']', '@', '%'] := by
  obtain ⟨_, _, _, -, hstep⟩ := h.exists_step hc
  cases hstep with
  | ordinary hc => exact .inl hc
  | _ => exact .inr (by decide)

theorem opened_iff (h : Scans a s b) : b.opened = true ↔ a.opened = true ∨ '[' ∈ s := by
  induction h with
  | nil => simp
  | cons h _ ih => rw [ih, h.opened_iff, or_assoc, List.mem_cons]

theorem closed_iff (h : Scans a s b) : b.closed = true ↔ a.closed = true ∨ ']' ∈ s := by
  induction h with
  | nil => simp
  | cons h _ ih => rw [ih, h.closed_iff, or_assoc, List.mem_cons]

theorem opened_of_closed (h : Scans a s b) (ha : a.closed = true → a.opened = true) :
    b.closed = true → b.opened = true := by
  induction h with
  | nil => exact ha
  | cons h _ ih => exact ih (h.opened_of_closed ha)

theorem percent_iff (h : Scans a s b) (huser : '@' ∉ s) (hclosing : ']' ∉ s) :
    b.percent = true ↔ a.percent = true ∨ '%' ∈ s := by
  induction h with
  | nil => simp
  | cons h _ ih =>
    rw [List.mem_cons, not_or] at huser hclosing
    rw [ih huser.2 hclosing.2, h.percent_iff huser.1 hclosing.1, or_assoc, List.mem_cons]

theorem colons_eq_zero (h : Scans a s b) (hcolon : ':' ∉ s) (ha : a.colons = 0) : b.colons = 0 := by
  induction h with
  | nil => exact ha
  | cons h _ ih =>
    rw [List.mem_cons, not_or] at hcolon
    exact ih hcolon.2 (h.colons_eq_zero hcolon.1 ha)

theorem not_opened (h : Scans a s b) (hmem : '[' ∈ s) : a.opened = false := by
  obtain ⟨_, _, _, hx, hstep⟩ := h.exists_step hmem
  have hm := hstep.not_opened
  rw [Bool.eq_false_iff, Ne, hx.opened_iff, not_or] at hm
  exact Bool.eq_false_iff.2 hm.1

theorem not_closed (h : Scans a s b) (hmem : ']' ∈ s) : a.closed = false := by
  obtain ⟨_, _, _, hx, hstep⟩ := h.exists_step hmem
  have hm := hstep.not_closed
  rw [Bool.eq_false_iff, Ne, hx.closed_iff, not_or] at hm
  exact Bool.eq_false_iff.2 hm.1

end Scans

structure IsDone (a : AuthorityScan) : Prop where
  brackets : a.opened = a.closed
  percent : a.percent = false

end AuthorityScan

open AuthorityScan (Scans start)

variable {s : List Char}

theorem checkAuthority_eq_ok_iff : checkAuthority s = .ok () ↔
    (∃ a, Scans start s a ∧ a.IsDone ∧ a.colons ≤ 1) ∧ s.getLast? ≠ some '@' := by
  unfold checkAuthority
  constructor
  · intro h
    obtain ⟨a, hscan, h⟩ := exists_of_bind h
    split_ifs at h with hbad
    simp only [not_or, not_not, Nat.not_lt, Bool.not_eq_true] at hbad
    obtain ⟨hbrackets, hcolons, huser, hpercent⟩ := hbad
    exact ⟨⟨a, AuthorityScan.foldlM_eq_ok_iff.1 hscan, ⟨hbrackets, hpercent⟩, hcolons⟩, huser⟩
  · rintro ⟨⟨a, hscan, hdone, hcolons⟩, huser⟩
    have hfold := AuthorityScan.foldlM_eq_ok_iff.2 hscan
    rw [start] at hfold
    rw [hfold]
    change (if _ then _ else _) = _
    rw [if_neg]
    simp [hdone.brackets, hdone.percent, hcolons, huser]

/-- An opening bracket has its closing one, and percent signs are in brackets. -/
structure IsClear (s : List Char) : Prop where
  brackets : '[' ∈ s ↔ ']' ∈ s
  percent : '%' ∈ s → '[' ∈ s

theorem isClear_of_checkAuthority (h : checkAuthority s = .ok ()) (huser : '@' ∉ s) :
    IsClear s := by
  obtain ⟨⟨a, hscan, hdone, -⟩, -⟩ := checkAuthority_eq_ok_iff.1 h
  have hopened : a.opened = true ↔ '[' ∈ s := by simpa [start] using hscan.opened_iff
  have hclosed : a.closed = true ↔ ']' ∈ s := by simpa [start] using hscan.closed_iff
  have hbrackets : '[' ∈ s ↔ ']' ∈ s := by rw [← hopened, ← hclosed, hdone.brackets]
  refine ⟨hbrackets, fun hpercent => ?_⟩
  by_contra hnone
  have hleft := (hscan.percent_iff huser (mt hbrackets.2 hnone)).2 (.inr hpercent)
  rw [hdone.percent] at hleft
  cases hleft

/-- Where a host is found in an authority: behind the user if there is one. -/
structure HostAt (front host back authority : List Char) : Prop where
  text : authority = front ++ (host ++ back)
  user : ∀ c ∈ front.getLast?, c = '@'
  solid : '@' ∉ host ++ back
  form : IsHostForm host

variable {front host back authority : List Char} {port : Option Nat}

theorem exists_of_afterLast (s : List Char) : ∃ front, s = front ++ (afterLast '@' s).getD s ∧
    (∀ c ∈ front.getLast?, c = '@') ∧ '@' ∉ (afterLast '@' s).getD s := by
  unfold afterLast
  cases h : Text.splitLast? (· == '@') s with
  | none =>
    refine ⟨[], rfl, by simp, fun hmem => ?_⟩
    simpa using Text.solid_of_splitLast?_eq_none h '@' hmem
  | some parts =>
    obtain ⟨x, y⟩ := parts
    obtain ⟨a, ha, htext⟩ := Text.append_of_splitLast? h
    obtain rfl : a = '@' := eq_of_beq ha
    refine ⟨x ++ ['@'], by simpa using htext, by simp, fun hmem => ?_⟩
    simpa using Text.solid_of_splitLast? h '@' hmem

namespace AuthorityScan.Scans

variable {a b : AuthorityScan}

theorem exists_of_concat {c : Char} (h : Scans a (s ++ [c]) b) : ∃ m, Scans a s m ∧ m.Step c b := by
  obtain ⟨m, hs, hc⟩ := h.exists_of_append
  obtain _ | ⟨hstep, _ | _⟩ := hc
  exact ⟨m, hs, hstep⟩

theorem reset (h : Scans start front a) (huser : ∀ c ∈ front.getLast?, c = '@') :
    a.colons = 0 ∧ a.percent = false := by
  obtain rfl | ⟨x, c, rfl⟩ := List.eq_nil_or_concat' front
  · cases h
    exact ⟨rfl, rfl⟩
  · obtain rfl : c = '@' := huser c (by simp)
    obtain ⟨m, -, hstep⟩ := h.exists_of_concat
    cases hstep with
    | user => exact ⟨rfl, rfl⟩
    | ordinary hc => exact absurd hc (by decide)

/-- A bracket that opens behind a user is the first one, so that the scan is as at its start. -/
theorem eq_start (hfront : Scans start front a) (huser : ∀ c ∈ front.getLast?, c = '@')
    (h : Scans a s b) (hmem : '[' ∈ s) : a = start := by
  obtain ⟨hcolons, hpercent⟩ := hfront.reset huser
  have hopened := h.not_opened hmem
  have hclosed : a.closed = false := by
    have hnested := hfront.opened_of_closed (by simp [start])
    rw [hopened] at hnested
    simpa using hnested
  obtain ⟨colons, opened, closed, percent⟩ := a
  rw [start, AuthorityScan.mk.injEq]
  exact ⟨hcolons, hopened, hclosed, hpercent⟩

end AuthorityScan.Scans

section Host

variable {u : Uri}

theorem closing_mem (hcheck : checkAuthority (front ++ '[' :: s) = .ok ())
    (huser : ∀ c ∈ front.getLast?, c = '@') : ']' ∈ s := by
  obtain ⟨⟨b, hscan, hdone, -⟩, -⟩ := checkAuthority_eq_ok_iff.1 hcheck
  obtain ⟨a, hfront, hscan⟩ := hscan.exists_of_append
  obtain rfl := hfront.eq_start huser hscan List.mem_cons_self
  have hopened := hscan.opened_iff.2 (.inr List.mem_cons_self)
  rw [hdone.brackets, hscan.closed_iff] at hopened
  simpa [start] using hopened

theorem exists_hostAt {name : String} (hcheck : checkAuthority u.authority.toList = .ok ())
    (hhost : u.host? = some name) (hne : name ≠ "") :
    ∃ front back, HostAt front name.toList back u.authority.toList := by
  obtain ⟨front, htext, huser, hsolid⟩ := exists_of_afterLast u.authority.toList
  unfold host? at hhost
  split at hhost
  · cases hhost
  dsimp only at hhost
  generalize (afterLast '@' u.authority.toList).getD u.authority.toList = s at htext hsolid hhost
  split_ifs at hhost with hbracket
  · obtain ⟨t, rfl⟩ := List.head?_eq_some_iff.1 hbracket
    obtain ⟨x, y, rfl, hx⟩ := List.eq_append_cons_of_mem (closing_mem (htext ▸ hcheck) huser)
    have hwhole : ('[' :: (x ++ ']' :: y)).takeWhile (· != ']') = '[' :: x := by
      rw [← List.cons_append]
      refine Text.takeWhile_append_of_stops
        (List.forall_mem_cons.2 ⟨by decide, fun c hc => ?_⟩) (by simp)
      simpa using ne_of_mem_of_not_mem hc hx
    have hname : name.toList = '[' :: (x ++ [']']) := by
      rw [← Option.some.inj hhost, String.toList_ofList, hwhole]
      rfl
    refine ⟨front, y, ?_, huser, ?_, hname ▸ .literal hx⟩
    · simpa [hname] using htext
    · simpa [hname] using hsolid
  · have hname : name.toList = s.takeWhile (· != ':') := by
      rw [← Option.some.inj hhost, String.toList_ofList]
    have hsplit : name.toList ++ s.dropWhile (· != ':') = s := by
      rw [hname, List.takeWhile_append_dropWhile]
    have hnil : name.toList ≠ [] := by rwa [Ne, String.toList_eq_nil_iff]
    refine ⟨front, s.dropWhile (· != ':'), by rwa [hsplit], huser, by rwa [hsplit],
      .name hnil ?_ fun hmem => ?_⟩
    · rwa [← hsplit, List.head?_append_of_ne_nil _ hnil] at hbracket
    · rw [hname] at hmem
      simpa using List.mem_takeWhile_imp hmem

namespace HostAt

theorem not_mem (h : HostAt front host back authority) : '@' ∉ host := fun hmem =>
  h.solid (List.mem_append_left back hmem)

theorem exists_scans (h : HostAt front host back authority)
    (hcheck : checkAuthority authority = .ok ()) (hclear : IsClear host) :
    ∃ m, Scans start host m ∧ m.IsDone ∧ m.colons = 0 := by
  obtain ⟨⟨b, hscan, hdone, -⟩, -⟩ := checkAuthority_eq_ok_iff.1 hcheck
  rw [h.text] at hscan
  obtain ⟨a, hfront, hscan⟩ := hscan.exists_of_append
  obtain ⟨m, hhost, hback⟩ := hscan.exists_of_append
  by_cases hopen : '[' ∈ host
  · obtain rfl := hfront.eq_start h.user hhost hopen
    have hopened := hhost.opened_iff.2 (.inr hopen)
    have hclosed := hhost.closed_iff.2 (.inr (hclear.brackets.1 hopen))
    have hpercent : m.percent = false := by
      by_contra hleft
      -- Once the bracket has closed, what is behind the host takes no percent sign back.
      have hclosing : ']' ∉ back := fun hmem => by simpa [hclosed] using hback.not_closed hmem
      have huser : '@' ∉ back := fun hmem => h.solid (List.mem_append_right host hmem)
      have hkept := (hback.percent_iff huser hclosing).2 (.inl (by simpa using hleft))
      rw [hdone.percent] at hkept
      cases hkept
    refine ⟨m, hhost, ⟨hopened.trans hclosed.symm, hpercent⟩, ?_⟩
    cases h.form with
    | name _ _ hcolon => exact hhost.colons_eq_zero hcolon rfl
    | literal _ =>
      rw [← List.cons_append] at hhost
      obtain ⟨_, -, hstep⟩ := hhost.exists_of_concat
      cases hstep with
      | closing _ _ => rfl
      | ordinary hc => exact absurd hc (by decide)
  · have hclosing := mt hclear.brackets.2 hopen
    have hpercent := mt hclear.percent hopen
    have hcolon : ':' ∉ host := by
      cases h.form with
      | name _ _ hcolon => exact hcolon
      | literal _ => exact absurd List.mem_cons_self hopen
    -- Nothing in such a host counts, so that a scan is where it starts.
    refine ⟨start, .of_ordinary fun c hc => ?_, ⟨rfl, rfl⟩, rfl⟩
    refine (hhost.mem hc).resolve_right fun hmark => ?_
    simp only [List.mem_cons, List.not_mem_nil, or_false] at hmark
    rcases hmark with rfl | rfl | rfl | rfl | rfl
    · exact hcolon hc
    · exact hopen hc
    · exact hclosing hc
    · exact h.not_mem hc
    · exact hpercent hc

end HostAt

theorem mem_of_concat_eq {α : Type} {a d : α} {x y z : List α} (h : z ++ [d] = x ++ a :: y)
    (hne : d ≠ a) : d ∈ y := by
  obtain rfl | ⟨y, c, rfl⟩ := List.eq_nil_or_concat' y
  · exact absurd (List.singleton_inj.1 (List.append_inj' h rfl).2) hne
  · rw [← List.cons_append, ← List.append_assoc] at h
    obtain rfl : d = c := List.singleton_inj.1 (List.append_inj' h rfl).2
    simp

/-- Without an opening bracket there is no closing one either, nor a percent sign behind the user. -/
theorem HostAt.isClear_of_notMem (h : HostAt front host back authority)
    (hcheck : checkAuthority authority = .ok ()) (hopen : '[' ∉ authority) : IsClear host := by
  obtain ⟨⟨b, hscan, hdone, -⟩, -⟩ := checkAuthority_eq_ok_iff.1 hcheck
  have hopened : ¬ b.opened = true := by
    rw [hscan.opened_iff]
    simpa [start] using hopen
  have hclosing : ']' ∉ authority := fun hmem =>
    hopened (hdone.brackets ▸ hscan.closed_iff.2 (.inr hmem))
  rw [h.text] at hscan hopen hclosing
  obtain ⟨a, -, hscan⟩ := hscan.exists_of_append
  simp only [List.mem_append, not_or] at hopen hclosing
  have hpercent : '%' ∉ host ++ back := fun hmem => by
    have hleft := (hscan.percent_iff h.solid (by simp [hclosing])).2 (.inr hmem)
    rw [hdone.percent] at hleft
    cases hleft
  exact ⟨iff_of_false hopen.2.1 hclosing.2.1,
    fun hmem => absurd (List.mem_append_left back hmem) hpercent⟩

theorem IsHostForm.isClear (h : IsHostForm host) (hopen : host.head? = some '[') :
    IsClear host := by
  cases h with
  | name _ hhead _ => exact absurd hopen hhead
  | literal _ => exact ⟨by simp, fun _ => List.mem_cons_self⟩

/-- A colon of the user or the host has an at-sign or a closing bracket behind it. -/
theorem HostAt.mark_behind (h : HostAt front host back authority) {x y : List Char}
    (hcolon : front ++ host = x ++ ':' :: y) : '@' ∈ y ∨ ']' ∈ y := by
  cases h.form with
  | literal _ =>
    rw [← List.cons_append, ← List.append_assoc] at hcolon
    exact .inr (mem_of_concat_eq hcolon (by decide))
  | name _ _ hname =>
    obtain ⟨z, -, rfl⟩ | ⟨z, hfront, hz⟩ := List.append_eq_append_iff.1 hcolon
    · simp at hname
    cases z with
    | nil =>
      obtain rfl : ':' :: y = host := hz
      simp at hname
    | cons c z =>
      obtain ⟨rfl, rfl⟩ := List.cons.inj hz
      obtain rfl | ⟨w, d, rfl⟩ := List.eq_nil_or_concat' front
      · simp at hfront
      · obtain rfl : d = '@' := h.user d (by simp)
        exact .inl (List.mem_append_left host (mem_of_concat_eq hfront (by decide)))

theorem HostAt.port_in_back (h : HostAt front host back u.authority.toList) {p : Nat}
    (hport : u.port? = some p) :
    ∃ x y, back = x ++ ':' :: y ∧ Number.readNatural 10 65535 y = .ok p := by
  obtain ⟨y, hy, hread⟩ := Option.bind_eq_some_iff.1 hport
  obtain ⟨⟨x, y⟩, hsplit, rfl⟩ := Option.map_eq_some_iff.1 hy
  obtain ⟨c, hc, htext⟩ := Text.append_of_splitLast? hsplit
  obtain rfl : c = ':' := eq_of_beq hc
  have hread := eq_ok_of_toOption hread
  obtain ⟨sign, digits, hspells, -⟩ := Number.readNatural_eq_ok_iff.1 hread
  rw [h.text, ← List.append_assoc] at htext
  obtain ⟨z, -, hback⟩ | ⟨z, hfront, hz⟩ := List.append_eq_append_iff.1 htext
  · exact ⟨z, y, hback, hread⟩
  cases z with
  | nil => exact ⟨[], y, hz.symm, hread⟩
  | cons c z =>
    obtain ⟨rfl, rfl⟩ := List.cons.inj hz
    rcases h.mark_behind hfront with hmem | hmem
    · exact absurd (List.mem_append_left back hmem) (hspells.not_mem (by decide) (by decide))
    · exact absurd (List.mem_append_left back hmem) (hspells.not_mem (by decide) (by decide))

theorem isOrdinary_of_isDigit {c : Char} (h : Number.isDigit c = true) : isOrdinary c = true := by
  have hmarks : ∀ d ∈ ":[]@".toList, Number.isDigit d = false := by decide
  have hplain : isUriChar c = true := by simp [isUriChar, isAlphanumeric, h]
  rw [isOrdinary, hplain, Bool.true_and, Bool.not_eq_true', Bool.eq_false_iff]
  intro hc
  exact Number.ne_of_isDigit h (hmarks c (List.contains_iff_mem.1 hc)) rfl

theorem scans_portText {m : AuthorityScan} (hcolons : m.colons = 0) (port : Option Nat) :
    ∃ b, Scans m (portText port) b ∧ b.opened = m.opened ∧ b.closed = m.closed ∧
      b.percent = m.percent ∧ b.colons ≤ 1 := by
  cases port with
  | none => exact ⟨m, .nil, rfl, rfl, rfl, by omega⟩
  | some p =>
    have hdigits : ∀ c ∈ Nat.toDigits 10 p, isOrdinary c = true := fun c hc =>
      isOrdinary_of_isDigit (Number.areDigits_toDigits p c hc)
    refine ⟨_, .cons (.colon (by omega)) (.of_ordinary hdigits), rfl, rfl, rfl, ?_⟩
    simp [hcolons]

theorem IsClear.of_portText (h : IsClear (host ++ portText port)) : IsClear host := by
  have hmarks : ∀ c ∈ ['[', ']', '%'], c ≠ ':' ∧ Number.isDigit c = false := by decide
  have hout : ∀ c ∈ ['[', ']', '%'], (c ∈ host ++ portText port ↔ c ∈ host) := by
    intro c hc
    rw [List.mem_append, or_iff_left]
    intro hmem
    obtain ⟨hcolon, hdigit⟩ := hmarks c hc
    rcases isDigit_of_mem_portText hmem with h | h
    · exact hcolon h
    · exact Number.ne_of_isDigit h hdigit rfl
  obtain ⟨hbrackets, hpercent⟩ := h
  rw [hout '[' (by decide), hout ']' (by decide)] at hbrackets
  rw [hout '[' (by decide), hout '%' (by decide)] at hpercent
  exact ⟨hbrackets, hpercent⟩

/-- With a port or without, a host is an authority of its own just if it is clear. -/
theorem HostAt.checkAuthority_iff (h : HostAt front host back authority)
    (hcheck : checkAuthority authority = .ok ()) (port : Option Nat) :
    checkAuthority (host ++ portText port) = .ok () ↔ IsClear host := by
  have huser : '@' ∉ host ++ portText port := by
    rw [List.mem_append, not_or]
    exact ⟨h.not_mem, fun hmem => (plain_of_colon_or (mem_portText hmem)).1 rfl⟩
  constructor
  · exact fun hok => (isClear_of_checkAuthority hok huser).of_portText
  · intro hclear
    obtain ⟨m, hscan, hdone, hcolons⟩ := h.exists_scans hcheck hclear
    obtain ⟨b, hport, hopened, hclosed, hpercent, hcount⟩ := scans_portText hcolons port
    refine checkAuthority_eq_ok_iff.2 ⟨⟨b, hscan.append hport, ⟨?_, ?_⟩, hcount⟩, fun hlast => ?_⟩
    · rw [hopened, hclosed, hdone.brackets]
    · rw [hpercent, hdone.percent]
    · exact huser (List.mem_of_getLast? hlast)

end Host

end ServiceClient.Http.Uri
