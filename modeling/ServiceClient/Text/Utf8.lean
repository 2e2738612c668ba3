/-!
Octet strings and their UTF-8 reading. `decode` accepts the sequences of well-formed characters
and names the first spot that belongs to none; `decodeLossy` puts one U+FFFD for each such spot.
-/

namespace ServiceClient.Text

abbrev Octets := List UInt8

/-- Where decoding stops, and how many octets there are wrong: none when the text ends inside a
character. -/
structure Utf8Fault where
  offset : Nat
  size : Option Nat
  deriving DecidableEq, Repr

def Utf8Fault.message : Utf8Fault → String
  | ⟨i, some n⟩ => s!"invalid utf-8 sequence of {n} bytes from index {i}"
  | ⟨i, none⟩ => s!"incomplete utf-8 byte sequence from index {i}"

def encode (s : String) : Octets :=
  s.toList.flatMap String.utf8EncodeChar

inductive Scalar where
  | char (c : Char) (size : Nat) (rest : Octets)
  | malformed (size : Nat) (rest : Octets)
  | truncated

/-- For the first octet of a longer character: how many octets follow, what it adds to the value,
and the range of the second. -/
def leadOctet (b : UInt8) : Option (Nat × Nat × UInt8 × UInt8) :=
  if b < 0xC2 then none
  else if b < 0xE0 then some (1, b.toNat - 0xC0, 0x80, 0xBF)
  else if b < 0xF0 then
    some (2, b.toNat - 0xE0, if b = 0xE0 then 0xA0 else 0x80, if b = 0xED then 0x9F else 0xBF)
  else if b < 0xF5 then
    some (3, b.toNat - 0xF0, if b = 0xF0 then 0x90 else 0x80, if b = 0xF4 then 0x8F else 0xBF)
  else none

def tailOctets (size value : Nat) (low high : UInt8) : Nat → Octets → Scalar
  | 0, rest => .char (Char.ofNat value) size rest
  | _ + 1, [] => .truncated
  | k + 1, b :: rest =>
    if low ≤ b ∧ b ≤ high then
      tailOctets (size + 1) (value * 64 + (b.toNat - 0x80)) 0x80 0xBF k rest
    else .malformed size (b :: rest)

def firstScalar (b : UInt8) (rest : Octets) : Scalar :=
  if b < 0x80 then .char (Char.ofNat b.toNat) 1 rest
  else match leadOctet b with
    | none => .malformed 1 rest
    | some (k, value, low, high) => tailOctets 1 value low high k rest

theorem tailOctets_char_le {size value : Nat} {low high : UInt8} {k : Nat} {s : Octets}
    {c : Char} {n : Nat} {rest : Octets}
    (h : tailOctets size value low high k s = .char c n rest) : rest.length ≤ s.length := by
  induction k generalizing size value low high s with
  | zero => simp [tailOctets] at h; simp [h]
  | succ k ih =>
    cases s with
    | nil => simp [tailOctets] at h
    | cons b s =>
      simp only [tailOctets] at h
      split at h
      · have := ih h
        simp; omega
      · simp at h

theorem tailOctets_malformed_le {size value : Nat} {low high : UInt8} {k : Nat} {s : Octets}
    {n : Nat} {rest : Octets}
    (h : tailOctets size value low high k s = .malformed n rest) : rest.length ≤ s.length := by
  induction k generalizing size value low high s with
  | zero => simp [tailOctets] at h
  | succ k ih =>
    cases s with
    | nil => simp [tailOctets] at h
    | cons b s =>
      simp only [tailOctets] at h
      split at h
      · have := ih h
        simp; omega
      · simp at h; simp [← h.2]

theorem firstScalar_char_le {b : UInt8} {s : Octets} {c : Char} {n : Nat} {rest : Octets}
    (h : firstScalar b s = .char c n rest) : rest.length ≤ s.length := by
  unfold firstScalar at h
  split at h
  · simp at h; simp [h.2.2]
  · split at h
    · simp at h
    · exact tailOctets_char_le h

theorem firstScalar_malformed_le {b : UInt8} {s : Octets} {n : Nat} {rest : Octets}
    (h : firstScalar b s = .malformed n rest) : rest.length ≤ s.length := by
  unfold firstScalar at h
  split at h
  · simp at h
  · split at h
    · simp at h; simp [← h.2]
    · exact tailOctets_malformed_le h

def decodeFrom (offset : Nat) (s : Octets) : Except Utf8Fault (List Char) :=
  match s with
  | [] => .ok []
  | b :: s' =>
    match h : firstScalar b s' with
    | .char c n rest =>
      have : rest.length < s'.length + 1 := Nat.lt_succ_of_le (firstScalar_char_le h)
      match decodeFrom (offset + n) rest with
      | .ok cs => .ok (c :: cs)
      | .error e => .error e
    | .malformed n _ => .error ⟨offset, some n⟩
    | .truncated => .error ⟨offset, none⟩
  termination_by s.length

def decode (s : Octets) : Except Utf8Fault String :=
  (decodeFrom 0 s).map String.ofList

def decode? (s : Octets) : Option String :=
  (decode s).toOption

def replacement : Char := '\uFFFD'

def lossyChars (s : Octets) : List Char :=
  match s with
  | [] => []
  | b :: s' =>
    match h : firstScalar b s' with
    | .char c _ rest =>
      have : rest.length < s'.length + 1 := Nat.lt_succ_of_le (firstScalar_char_le h)
      c :: lossyChars rest
    | .malformed _ rest =>
      have : rest.length < s'.length + 1 := Nat.lt_succ_of_le (firstScalar_malformed_le h)
      replacement :: lossyChars rest
    | .truncated => [replacement]
  termination_by s.length

def decodeLossy (s : Octets) : String :=
  String.ofList (lossyChars s)

end ServiceClient.Text
