/-!
White space and letter case. `isBlank` is the Unicode property `White_Space`; `isAsciiBlank` its
part below 128 without the vertical tab; case folding touches the letters A to Z alone.
-/

namespace ServiceClient.Text

def isBlank (c : Char) : Bool :=
  let n := c.toNat
  (9 ≤ n && n ≤ 13) || n == 0x20 || n == 0x85 || n == 0xA0 || n == 0x1680 ||
    (0x2000 ≤ n && n ≤ 0x200A) || n == 0x2028 || n == 0x2029 || n == 0x202F || n == 0x205F ||
    n == 0x3000

def isAsciiBlank (b : UInt8) : Bool :=
  b == 0x20 || b == 0x09 || b == 0x0A || b == 0x0C || b == 0x0D

def stripBoth {α : Type} (p : α → Bool) (l : List α) : List α :=
  ((l.dropWhile p).reverse.dropWhile p).reverse

def trim (s : String) : String :=
  String.ofList (stripBoth isBlank s.toList)

def allBlank (s : String) : Bool :=
  s.toList.all isBlank

def lowerAscii (s : String) : String :=
  String.ofList (s.toList.map Char.toLower)

/-- Splits before and after the first item that satisfies `p`, which is in neither part. -/
def splitFirst? {α : Type} (p : α → Bool) : List α → Option (List α × List α)
  | [] => none
  | a :: l =>
    if p a then some ([], l) else (splitFirst? p l).map fun (x, y) => (a :: x, y)

def splitLast? {α : Type} (p : α → Bool) : List α → Option (List α × List α)
  | [] => none
  | a :: l =>
    match splitLast? p l with
    | some (x, y) => some (a :: x, y)
    | none => if p a then some ([], l) else none

theorem append_of_splitFirst? {α : Type} {p : α → Bool} {l x y : List α}
    (h : splitFirst? p l = some (x, y)) : ∃ a, p a = true ∧ l = x ++ a :: y := by
  induction l generalizing x with
  | nil => simp [splitFirst?] at h
  | cons b l ih =>
    by_cases hb : p b = true
    · simp [splitFirst?, hb] at h
      exact ⟨b, hb, by simp [← h.1, ← h.2]⟩
    · simp [splitFirst?, hb] at h
      obtain ⟨x', hl, rfl⟩ := h
      obtain ⟨a, ha, rfl⟩ := ih hl
      exact ⟨a, ha, by simp⟩

end ServiceClient.Text
