/-
# PegFlow.Grammar.Json — grammars as JSON
-/
import PegFlow.Grammar.Format
import PegFlow.Json.Format

namespace PegFlow

set_option autoImplicit false

def Template.toJson (t : Template) : Json := t.toDatum.toJson

namespace Grammar

def toJson (g : Grammar) : Json := g.toDatum.toJson

/-- The text of the document of a grammar. -/
def toText (g : Grammar) : String := g.toJson.toText

/-- The grammar that a text holds. -/
def ofText? (text : String) : Option Grammar := read? Json.format text

end Grammar

end PegFlow
