import ServiceClient.Text.Utf8
import ServiceClient.Xml.Reference

/-!
Elements as they are written: a tag with its attributes, and content that is text or elements. The
printer puts the namespace first, then the attributes; an element without content is one empty
tag. No declaration is written.
-/

namespace ServiceClient.Xml

/-- A declaration of a namespace; the empty prefix is that of the default namespace. -/
structure Namespace where
  nsPrefix : String
  uri : String
  deriving DecidableEq, Repr

def Namespace.attributeName (ns : Namespace) : String :=
  if ns.nsPrefix.isEmpty then "xmlns" else "xmlns:" ++ ns.nsPrefix

structure Attribute where
  name : String
  value : String
  deriving DecidableEq, Repr

structure Tag where
  name : String
  nsPrefix : Option String
  ns : Option Namespace
  attributes : List Attribute
  deriving DecidableEq, Repr

def Tag.qualifiedName (t : Tag) : String :=
  match t.nsPrefix with
  | some p => p ++ ":" ++ t.name
  | none => t.name

def Tag.written (t : Tag) : List Attribute :=
  (match t.ns with
    | some ns => [⟨ns.attributeName, ns.uri⟩]
    | none => []) ++ t.attributes

inductive Content where
  | text (s : String)
  | element (tag : Tag) (content : List Content)
  deriving Repr

structure Element where
  tag : Tag
  content : List Content
  deriving Repr

open Text (Octets encode)

def Attribute.octets (a : Attribute) : Octets :=
  encode " " ++ encode a.name ++ encode "=\"" ++ encode (escape a.value) ++ encode "\""

def Tag.octets (t : Tag) : Octets :=
  encode t.qualifiedName ++ t.written.flatMap Attribute.octets

def Tag.enclose (t : Tag) (content : Option Octets) : Octets :=
  match content with
  | none => encode "<" ++ t.octets ++ encode "/>"
  | some inner =>
    encode "<" ++ t.octets ++ encode ">" ++ inner ++ encode "</" ++ encode t.qualifiedName ++
      encode ">"

mutual

def Content.octets : Content → Octets
  | .text s => encode (escape s)
  | .element tag content =>
    tag.enclose (if content.isEmpty then none else some (contentOctets content))

def contentOctets : List Content → Octets
  | [] => []
  | c :: cs => c.octets ++ contentOctets cs

end

def Element.octets (e : Element) : Octets :=
  (Content.element e.tag e.content).octets

end ServiceClient.Xml
