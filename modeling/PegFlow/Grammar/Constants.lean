/-
# PegFlow.Grammar.Constants — the values of constants

Constants are evaluated in the order in which they are written; each may use
those before it and the host functions. There is no match to refer to, so the
scope is that of an empty match in an empty text.
-/
import PegFlow.Grammar.Error
import PegFlow.Grammar
import PegFlow.Template.Eval

namespace PegFlow

set_option autoImplicit false

/-- The scope of a constant. -/
def Scope.ofLibrary (library : Library) : Scope :=
  { library, layout := [], slots := [], start := 0, stop := 0, input := Buffer.complete "" }

/-- The values of constants by name, added to those in `known`. -/
def Constant.evaluate? (callbacks : Callbacks) (known : Keyed Value) :
    List Constant → Except GrammarError (Keyed Value)
  | [] => .ok known
  | c :: rest =>
    match c.value.eval (Scope.ofLibrary { constants := known, callbacks }) with
    | .ok v => evaluate? callbacks (known.insert c.name v) rest
    | .error e => .error (.invalidConstant c.name e.message)

end PegFlow
