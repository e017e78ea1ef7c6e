/-!
# The version of the library
-/

namespace Dialogue

/-- The version of the language that the library reads and runs. -/
def version : String := "0.1.0"

end Dialogue
