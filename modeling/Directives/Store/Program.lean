/-
Calls on a store, as data.

* `Store.Call`: one call on a store.
* `Store.call`: what a call answers, and the store after it.
* `Store.callAll`: the store after calls in order.
-/
import Directives.Store.Basic

namespace Directives.Store

/-- One call on a store. -/
inductive Call
  | declare (spelling description : Text)
  | reference (spelling : Text)
  | resolve (text : Text)
  deriving Repr

/-- What a call answers, and the store after it. -/
def call (s : Store) : Call → Text × Store
  | .declare spelling description => s.declare spelling description
  | .reference spelling => s.reference spelling
  | .resolve text => s.resolve text

/-- The store after calls in order. -/
def callAll (s : Store) (calls : List Call) : Store :=
  calls.foldl (fun s call => (s.call call).2) s

end Directives.Store
