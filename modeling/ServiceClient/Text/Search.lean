/-!
Text up to a mark, the mark included.
-/

namespace ServiceClient.Text

def upToFirstIn (mark : List Char) : List Char → Option (List Char)
  | [] => none
  | c :: rest =>
    if mark.isPrefixOf (c :: rest) then some mark else (upToFirstIn mark rest).map (c :: ·)

def upToLastIn (mark : List Char) : List Char → Option (List Char)
  | [] => none
  | c :: rest =>
    match upToLastIn mark rest with
    | some found => some (c :: found)
    | none => if mark.isPrefixOf (c :: rest) then some mark else none

def upToFirst? (mark s : String) : Option String :=
  (upToFirstIn mark.toList s.toList).map String.ofList

def upToLast? (mark s : String) : Option String :=
  (upToLastIn mark.toList s.toList).map String.ofList

end ServiceClient.Text
