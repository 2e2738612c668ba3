import ServiceClient.Text.Blank
import ServiceClient.Text.Utf8

/-!
Header fields. A name is kept in lower case and may have several values, which keep their order;
setting a field drops its earlier values, adding to it keeps them.
-/

namespace ServiceClient.Http

open Text (Octets)

structure Header where
  name : String
  value : Octets
  deriving DecidableEq, Repr

structure Headers where
  fields : List Header
  deriving DecidableEq, Repr

namespace Headers

def empty : Headers := ⟨[]⟩

def values (h : Headers) (name : String) : List Octets :=
  (h.fields.filter (·.name == Text.lowerAscii name)).map (·.value)

def get? (h : Headers) (name : String) : Option Octets :=
  (h.values name).head?

def contains (h : Headers) (name : String) : Bool :=
  (h.get? name).isSome

def add (h : Headers) (name : String) (value : Octets) : Headers :=
  ⟨h.fields ++ [⟨Text.lowerAscii name, value⟩]⟩

def remove (h : Headers) (name : String) : Headers :=
  ⟨h.fields.filter (·.name != Text.lowerAscii name)⟩

def set (h : Headers) (name : String) (value : Octets) : Headers :=
  (h.remove name).add name value

def addAll (h more : Headers) : Headers :=
  ⟨h.fields ++ more.fields⟩

def names (h : Headers) : List String :=
  (h.fields.map (·.name)).eraseDups

/-- Takes over the fields of `more`: each name that it has loses its values here. -/
def replaceAll (h more : Headers) : Headers :=
  ⟨h.fields.filter (fun f => f.name ∉ more.names) ++ more.fields⟩

def ofList (fields : List (String × Octets)) : Headers :=
  fields.foldl (fun h (name, value) => h.add name value) empty

def sorted (h : Headers) : List Header :=
  (h.names.mergeSort (· ≤ ·)).flatMap fun name => h.fields.filter (·.name == name)

def isVisible (b : UInt8) : Bool :=
  (0x20 ≤ b && b < 0x7F) || b == 0x09

def valueText? (value : Octets) : Option String :=
  if value.all isVisible then some (String.ofList (value.map fun b => Char.ofNat b.toNat)) else none

def text? (h : Headers) (name : String) : Option String :=
  (h.get? name).bind valueText?

end Headers

end ServiceClient.Http
