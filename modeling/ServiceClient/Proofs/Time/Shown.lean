import ServiceClient.Proofs.Time.Epoch

/-! Whatever is read from a text is an instant that a clock can show: offsets and names of zones are whole
minutes, so that a leap second stays at the end of its minute. -/

namespace ServiceClient.Time

namespace Scan

variable {α β : Type} {p : Scan α} {f : α → Scan β} {P : α → Prop} {Q : β → Prop}

def Yields (p : Scan α) (P : α → Prop) : Prop :=
  ∀ s a rest, p s = some (a, rest) → P a

theorem Yields.bind (hp : Yields p P) (hf : ∀ a, P a → Yields (f a) Q) : Yields (p >>= f) Q := by
  intro s b rest h
  obtain ⟨⟨a, s'⟩, ha, hb⟩ := Option.bind_eq_some_iff.1 h
  exact hf a (hp s a s' ha) s' b rest hb

theorem Yields.after (hf : ∀ a, Yields (f a) Q) : Yields (p >>= f) Q :=
  Yields.bind (P := fun _ => True) (fun _ _ _ _ => trivial) fun a _ => hf a

theorem yields_fail : Yields fail P :=
  fun _ _ _ h => by cases h

theorem yields_pure {a : α} (h : P a) : Yields (pure a) P := by
  intro s b rest hb
  cases hb
  exact h

theorem yields_option {o : Option α} (h : ∀ a, o = some a → P a) : Yields (o : Scan α) P := by
  intro s a rest ha
  obtain ⟨b, hb, hpair⟩ := Option.bind_eq_some_iff.1 ha
  cases hpair
  exact h a hb

theorem yields_offset (minusSign : Bool) (colon : Scan Unit) :
    Yields (offset minusSign colon) (fun seconds => seconds % 60 = 0) := by
  refine .after fun negative => .after fun hours => .after fun _ => .after fun minutes => ?_
  by_cases hminutes : 60 ≤ minutes
  · rw [if_pos hminutes]
    exact yields_fail
  · rw [if_neg hminutes]
    refine yields_pure ?_
    split_ifs <;> omega

theorem Yields.complete {s : String} {a : α} (hp : Yields p P) (h : complete p s = some a) : P a := by
  unfold Scan.complete at h
  split at h
  · next b hb =>
    cases h
    exact hp _ _ _ hb
  · cases h

end Scan

namespace TimestampFormat

open Scan (Yields)

theorem yields_offsetOrZulu : Yields offsetOrZulu (fun seconds => seconds % 60 = 0) := by
  intro s seconds rest h
  unfold offsetOrZulu at h
  split at h
  · cases h
    rfl
  · cases h
    rfl
  · exact Scan.yields_offset _ _ _ _ _ h

theorem yields_zone : Yields zone (fun seconds => seconds % 60 = 0) := by
  intro s seconds rest h
  unfold zone at h
  dsimp only at h
  split at h
  · exact Scan.yields_offset _ _ _ _ _ h
  · split at h
    · cases h
      omega
    · split_ifs at h
      cases h
      rfl

variable {s : String} {t : Instant}

theorem yields_scanDateTime :
    Yields scanDateTime (fun t => t.IsShown ∧ Instant.IsDated t.seconds) := by
  unfold scanDateTime
  refine .after fun year => .after fun _ => .after fun month => .after fun _ => .after fun day => ?_
  refine .after fun _ => .after fun hour => .after fun _ => .after fun minute => .after fun _ => ?_
  refine .after fun second => .after fun nanos => .bind yields_offsetOrZulu fun offset hoffset => ?_
  split_ifs
  · exact Scan.yields_fail
  · exact Scan.yields_option fun t => Instant.isShown_of_ofCivil? hoffset

theorem yields_scanHttpDate :
    Yields scanHttpDate (fun t => t.IsShown ∧ Instant.IsDated t.seconds) := by
  unfold scanHttpDate
  refine .after fun _ => .after fun weekday => .after fun _ => .after fun day => .after fun _ => ?_
  refine .after fun month => .after fun _ => .after fun ⟨value, digits⟩ => .after fun _ => ?_
  refine .after fun hour => .after fun _ => .after fun _ => .after fun _ => .after fun minute => ?_
  refine .after fun second => .after fun _ => .bind yields_zone fun offset hoffset => ?_
  refine .after fun _ => ?_
  dsimp only
  split_ifs
  · exact Scan.yields_fail
  · exact Scan.yields_option fun t => Instant.isShown_of_ofCivil? hoffset

theorem isShown_of_readEpoch (h : readEpoch s = some t) : t.IsShown ∧ Instant.IsDated t.seconds := by
  obtain ⟨x, hx, -, hdated, rfl⟩ := readEpoch_eq_some_iff.1 h
  have hlt : x.fractionNanos < 10 ^ 9 := Number.Numeral.fractionNanos_lt hx
  exact ⟨⟨by dsimp only; omega, by dsimp only; omega⟩, hdated⟩

/-- No format reads a leap second that is not at the end of a minute, nor a year that has no dates. -/
theorem isShown_of_parse {f : TimestampFormat} (h : f.parse s = .ok t) :
    t.IsShown ∧ Instant.IsDated t.seconds := by
  have hread := parse_eq_ok_iff_read?.1 h
  cases f with rw [read?] at hread
  | epochSeconds => exact isShown_of_readEpoch hread
  | dateTime => exact yields_scanDateTime.complete hread
  | httpDate => exact yields_scanHttpDate.complete hread

end TimestampFormat

end ServiceClient.Time
