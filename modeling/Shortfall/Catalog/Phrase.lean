import Shortfall.Catalog.Disguise
import Shortfall.Text.Blank
import Shortfall.Text.Case

/-!
# Phrases and category tags

Requirements and triggers are compared as phrases: without disguise, in lower case, with hyphens
and underscores read as spaces and single spaces between words. Category tags are compared in
upper case with underscores.
-/

namespace Shortfall.Catalog

/-- The form in which phrases are compared. -/
def normalizePhrase (text : Text) : Text :=
  let lowered := (unmask text).trim.lower
  let spaced := lowered.map fun byte => if byte = 0x2D || byte = 0x5F then 0x20 else byte
  Text.joinWith " " (Text.words spaced)

/-- The form of a category tag: `sql-injection` and `SQL_INJECTION` are the same tag. -/
def normalizeId (id : Text) : Text :=
  id.trim.upper.map fun byte => if byte = 0x2D || byte = 0x20 then 0x5F else byte

end Shortfall.Catalog
