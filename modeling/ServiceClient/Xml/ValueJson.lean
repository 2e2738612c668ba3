import ServiceClient.Xml.SchemaJson

/-!
Values as JSON. A schema tells how a JSON value is meant: scalars are strings in any spelling,
octets are hexadecimal, instants are pairs of seconds and nanoseconds, and maps are lists of pairs.
What is not given is absent if its schema allows for that; a collection or record then is empty.
-/

namespace ServiceClient.Xml

def literalOfJson : Json → Value
  | .string s => .literal s
  | _ => .absent

def entryOfJson (read : Json → Value) : Json → Option (String × Value)
  | .array [.string key, v] => some (key, read v)
  | _ => none

mutual

def Schema.ofJson : Schema → Json → Value
  | .scalar _, j => literalOfJson j
  | .optional _, j => literalOfJson j
  | .timestamp _, j => ((j.instantPair?).map .instant).getD .absent
  | .optionalTimestamp _, j => ((j.instantPair?).map .instant).getD .absent
  | .blob, j => (j.string?.bind Text.Hex.decode?).elim .absent .octets
  | .list optional item _ _, j =>
    match j with
    | .array items => .list (items.map fun j => item.ofJson j)
    | _ => if optional then .absent else .list []
  | .map optional value _ _ _, j =>
    match j with
    | .array items => .map (sortedByKey (items.filterMap (entryOfJson fun j => value.ofJson j)))
    | _ => if optional then .absent else .map []
  | .record optional members, j =>
    match j with
    | .null => if optional then .absent else .record (membersOfJson members j)
    | j => .record (membersOfJson members j)
  | .taken inner, j => inner.ofJson j
  | .inspection, _ => .absent

def membersOfJson : List (Member × Schema) → Json → List (String × Value)
  | [], _ => []
  | (m, schema) :: rest, j => (m.key, schema.ofJson (j.member m.key)) :: membersOfJson rest j

end

def Inspection.toJson (i : Inspection) : Json :=
  .ofMembers [("info", .string i.label), ("ns", .ofOption Namespace.toJson i.ns),
    ("has_content", .bool i.present), ("node", .bool i.present),
    ("text", .ofOption .string i.text)]

mutual

def Value.toJson : Value → Json
  | .absent => .null
  | .scalar x => .string x.text
  | .literal s => .string s
  | .instant t => Json.ofInstantPair t
  | .octets s => .string (Text.Hex.encode s)
  | .list items => .array (itemsJson items)
  | .map entries => .array (entriesJson entries)
  | .record members => .ofMembers (membersJson members)
  | .taken inner present => .array [inner.toJson, .bool present]
  | .inspection i => i.toJson

def itemsJson : List Value → List Json
  | [] => []
  | v :: vs => v.toJson :: itemsJson vs

def entriesJson : List (String × Value) → List Json
  | [] => []
  | (key, v) :: rest => .array [.string key, v.toJson] :: entriesJson rest

def membersJson : List (String × Value) → List (String × Json)
  | [] => []
  | (key, v) :: rest => (key, v.toJson) :: membersJson rest

end

end ServiceClient.Xml
