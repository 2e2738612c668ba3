import ServiceClient.Error
import ServiceClient.Pipeline.Step

/-!
Steps over lists of words. Each middleware leaves a word with what is left of the step and then acts
in its own way, so that a run shows which ones it went through and in what order.
-/

namespace ServiceClient.Pipeline.Words

abbrev Speaking (α : Type) := Except ClientError α

/-- Run the rest, leave it out, fail, add a word after it, turn its failure into a word, or run it
again on its own result. -/
inductive Act where
  | pass
  | stop
  | fail
  | wrap
  | recover
  | twice
  deriving DecidableEq, Repr

def Act.run (act : Act) (id : String) (words : List String)
    (next : List String → Speaking (List String)) : Speaking (List String) :=
  match act with
  | .pass => next words
  | .stop => .ok words
  | .fail => .error (.unknown (",".intercalate words))
  | .wrap => (next words).map (· ++ ["/" ++ id])
  | .recover =>
    match next words with
    | .ok words => .ok words
    | .error e => .ok [s!"{id} caught {e.message}"]
  | .twice => do next (← next words)

def middleware (id label : String) (act : Act) :
    Middleware Speaking (List String) (List String) where
  id := id
  handle words next := act.run id (words ++ [s!"{label}:{next.remaining}"]) next.run

def terminal (words : List String) : Speaking (List String) :=
  .ok (words ++ ["terminal"])

end ServiceClient.Pipeline.Words
