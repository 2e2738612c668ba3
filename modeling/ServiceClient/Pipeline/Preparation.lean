import ServiceClient.Pipeline.Stack

/-!
Middleware for the first step: the path that an input asks for, and a token where the input has
none, so that the service can tell a repeated call.
-/

namespace ServiceClient.Pipeline

open Call (Calling TokenSource)

def joinPath (start path : String) : String :=
  let start := Http.Request.dropTrailingSlashes start
  if path.toList.head? = some '/' then start ++ path else start ++ "/" ++ path

def urlPath {ι ω : Type} (start : String) (path? : ι → Option String) :
    Middleware Calling ι ω where
  id := "UrlPath"
  handle input next := do
    match path? input with
    | some path =>
      Calling.modifyContext fun c => { c with path := joinPath start path }
      next.run input
    | none =>
      let c ← Calling.context
      Calling.fail (.serializationFailed s!"failed to build URL path for '{c.operation}'")

def drawToken : TokenSource → Calling String
  | .fixed token => pure token
  | .random => Calling.drawIdentifier

def idempotencyToken {ι ω : Type} (token? : ι → Option String) (withToken : ι → String → ι) :
    Middleware Calling ι ω where
  id := "IdempotencyToken"
  handle input next := do
    match token? input with
    | some _ => next.run input
    | none =>
      let token ← drawToken (← Calling.context).tokens
      next.run (withToken input token)

end ServiceClient.Pipeline
