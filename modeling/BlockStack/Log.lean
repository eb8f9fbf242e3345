/-!
# BlockStack.Log

What the program writes about its doings, as data.

* `Log.Entry`: a level, where it comes from, a message and named values.
* `Log.Level.atLeast`: the order of the levels.
* `Log.Origin.path`: the parts of the program by the paths that filters use.
-/

namespace BlockStack
namespace Log

/-- How grave an entry is. -/
inductive Level where
  | trace
  | debug
  | info
  | warn
  | error
  deriving DecidableEq, Repr, Inhabited

def Level.name : Level → String
  | trace => "TRACE"
  | debug => "DEBUG"
  | info => "INFO"
  | warn => "WARN"
  | error => "ERROR"

def Level.rank : Level → Nat
  | trace => 0
  | debug => 1
  | info => 2
  | warn => 3
  | error => 4

/-- Whether a level is as grave as another, or graver. -/
def Level.atLeast (a b : Level) : Bool := b.rank ≤ a.rank

/-- The part of the program that an entry comes from. -/
inductive Origin where
  | loader
  | store
  | registry
  | service
  | merge
  | layers
  | backend
  | program
  deriving DecidableEq, Repr, Inhabited

/-- The path by which filters choose a part of the program. -/
def Origin.path : Origin → String
  | loader => "layerstack_controller::persistence::loader"
  | store => "layerstack_controller::persistence::store"
  | registry => "layerstack_controller::controller::registry"
  | service => "layerstack_controller::controller::service"
  | merge => "layerstack_controller::reconcile::engine"
  | layers => "layerstack_controller::reconcile::layers"
  | backend => "layerstack_controller::storage::adapter"
  | program => "layerstack_controller"

/-- A named value of an entry: a text as it is, a text in quotes, a number or a truth value. -/
inductive Value where
  | text (s : String)
  | quoted (s : String)
  | number (n : Nat)
  | flag (b : Bool)
  deriving DecidableEq, Repr, Inhabited

/-- An entry of the log. -/
structure Entry where
  level : Level
  origin : Origin
  message : String
  fields : List (String × Value) := []
  deriving DecidableEq, Repr, Inhabited

end Log
end BlockStack
