import ServiceClient.Proofs.Number.Padded
import ServiceClient.Proofs.Text.Blank
import ServiceClient.Time.Scan

/-! The small readers in front of what they are for: each takes what was written for it and leaves the
rest as it is. -/

namespace ServiceClient.Time.Scan

open Number (AreDigits paddedDigits placeValue)

variable {α β : Type} {s rest : List Char}

theorem bind_of_some {p : Scan α} {f : α → Scan β} {a : α} (h : p s = some (a, rest)) :
    (p >>= f) s = f a rest := by
  change StateT.bind p f s = _
  rw [StateT.bind, h]
  rfl

theorem digitsOf_eq (s : List Char) : digitsOf s = placeValue s := by
  simp only [digitsOf, Number.placeValue_eq, Nat.ofDigitChars_eq_foldl, Nat.mul_comm 10]

theorem char_cons (c : Char) (rest : List Char) : char c (c :: rest) = some ((), rest) :=
  if_pos rfl

theorem oneOf_cons {cs : List Char} {c : Char} (h : c ∈ cs) :
    oneOf cs (c :: rest) = some ((), rest) :=
  if_pos h

theorem blanks_of_stops (h : ∀ c ∈ s.head?, Text.isBlank c = false) : blanks s = some ((), s) := by
  rw [blanks, Text.dropWhile_of_stops h]

theorem blanks_space (h : ∀ c ∈ rest.head?, Text.isBlank c = false) :
    blanks (' ' :: rest) = some ((), rest) := by
  change some ((), rest.dropWhile Text.isBlank) = _
  rw [Text.dropWhile_of_stops h]

theorem someBlanks_space (h : ∀ c ∈ rest.head?, Text.isBlank c = false) :
    someBlanks (' ' :: rest) = some ((), rest) := by
  change some ((), rest.dropWhile Text.isBlank) = _
  rw [Text.dropWhile_of_stops h]

section Padded

variable {least width n : Nat}

theorem number_padded (hleast : least ≤ width) (h : n < 10 ^ width) (rest : List Char) :
    number least width (paddedDigits width n ++ rest) = some (n, rest) := by
  have hfront : (paddedDigits width n ++ rest).take width = paddedDigits width n :=
    List.take_left' (Number.length_paddedDigits width n)
  have hdigits : (paddedDigits width n).takeWhile Number.isDigit = paddedDigits width n :=
    List.takeWhile_eq_self_iff.2 (Number.areDigits_paddedDigits width n)
  have hrest : (paddedDigits width n ++ rest).drop width = rest :=
    List.drop_left' (Number.length_paddedDigits width n)
  simp only [number, hfront, hdigits, Number.length_paddedDigits, Nat.not_lt.2 hleast, if_false,
    digitsOf_eq, Number.placeValue_paddedDigits h, hrest]

theorem isBlank_of_head_padded (hwidth : 0 < width) :
    ∀ c ∈ (paddedDigits width n ++ rest).head?, Text.isBlank c = false := by
  intro c hc
  have hne : paddedDigits width n ≠ [] := by
    rw [← List.length_pos_iff, Number.length_paddedDigits]
    exact hwidth
  rw [List.head?_append_of_ne_nil _ hne] at hc
  exact Number.isBlank_of_isDigit
    (Number.areDigits_paddedDigits width n c (List.mem_of_mem_head? hc))

theorem takeWhile_padded (h : ∀ c ∈ rest.head?, Number.isDigit c = false) :
    (paddedDigits width n ++ rest).takeWhile Number.isDigit = paddedDigits width n :=
  Text.takeWhile_append_of_stops (Number.areDigits_paddedDigits width n) h

theorem longNumber_padded (hleast : least ≤ width) (h : n < 10 ^ width)
    (hrest : ∀ c ∈ rest.head?, Number.isDigit c = false) :
    longNumber least (paddedDigits width n ++ rest) = some ((n, width), rest) := by
  have hback : (paddedDigits width n ++ rest).drop width = rest :=
    List.drop_left' (Number.length_paddedDigits width n)
  simp only [longNumber, takeWhile_padded hrest, Number.length_paddedDigits, Nat.not_lt.2 hleast,
    if_false, digitsOf_eq, Number.placeValue_paddedDigits h, hback]

theorem fraction_padded (hwidth : 0 < width) (hnine : width ≤ 9) (h : n < 10 ^ width)
    (hrest : ∀ c ∈ rest.head?, Number.isDigit c = false) :
    fraction (paddedDigits width n ++ rest) = some (n * 10 ^ (9 - width), rest) := by
  have hne : (paddedDigits width n).isEmpty = false := by
    rw [List.isEmpty_eq_false_iff, ← List.length_pos_iff, Number.length_paddedDigits]
    exact hwidth
  have hnine : (paddedDigits width n).take 9 = paddedDigits width n :=
    List.take_of_length_le (by rwa [Number.length_paddedDigits])
  have hback : (paddedDigits width n ++ rest).drop width = rest :=
    List.drop_left' (Number.length_paddedDigits width n)
  simp only [fraction, takeWhile_padded hrest, hne, Bool.false_eq_true, if_false, hnine,
    Number.length_paddedDigits, digitsOf_eq, Number.placeValue_paddedDigits h, hback, Nat.pow_eq]

end Padded

theorem word_append {words : List String} {w : List Char} {i : Nat} (hlength : w.length = 3)
    (h : words.findIdx? (fun v => Text.lowerAscii v == String.ofList (w.map Char.toLower)) = some i) :
    word words (w ++ rest) = some (i, rest) := by
  have hfront : (w ++ rest).take 3 = w := List.take_left' hlength
  have hback : (w ++ rest).drop 3 = rest := List.drop_left' hlength
  simp only [word, hfront, h, Option.map_some, hback]

theorem complete_of_nil {p : Scan α} {s : String} {a : α} (h : p s.toList = some (a, [])) :
    complete p s = some a := by
  rw [complete, h]

end ServiceClient.Time.Scan
