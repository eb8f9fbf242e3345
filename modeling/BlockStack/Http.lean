import BlockStack.Metrics

/-!
# BlockStack.Http

What the two servers answer. Only the path of a request matters.

* `Http.path`: the path of a request's target.
* `Http.health`: whether the controller runs, and whether it has loaded its document.
* `Http.metrics`: the counters.
-/

namespace BlockStack
namespace Http

/-- An answer of a server. -/
structure Response where
  status : Nat := 200
  contentType : Option String := none
  body : String
  deriving DecidableEq, Repr, Inhabited

/-- The path of a target: what comes before a question mark or a number sign. -/
def path (target : String) : String :=
  String.ofList (target.toList.takeWhile (fun c => c ≠ '?' && c ≠ '#'))

def notFound : Response where
  status := 404
  body := "not found"

def health (loaded : Bool) (target : String) : Response :=
  match path target with
  | "/healthz" | "/livez" => { body := "ok" }
  | "/readyz" => if loaded then { body := "ok" } else { status := 503, body := "not loaded" }
  | _ => notFound

def metrics (counters : Metrics) (target : String) : Response :=
  match path target with
  | "/metrics" =>
    { contentType := some "text/plain; version=0.0.4", body := counters.exposition }
  | _ => notFound

/-- The answer to a request that asks for no body. -/
def withoutBody (response : Response) : Response := { response with body := "" }

/-- The answer to a request with a method. -/
def answer (method : String) (response : Response) : Response :=
  if method = "HEAD" then withoutBody response else response

end Http
end BlockStack
