/-!
# Letter case

Names of strategies, flags and environment variables ignore the case of ASCII letters.
Other letters have no case here.
-/

namespace FactEngine.Text

/-- The text with every ASCII capital made small. -/
def lower (s : String) : String :=
  String.ofList (s.toList.map Char.toLower)

end FactEngine.Text
