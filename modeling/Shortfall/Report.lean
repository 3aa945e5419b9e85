import Shortfall.Text.Utf8

/-!
# Reports

What the tool prints is a text made of lines. The reports of the single commands are in the modules
below this one; here is what they share.
-/

namespace Shortfall.Report

/-- The line around a title. -/
def heavyRule : Text := "═══════════════════════════════════════════════════════"

/-- The line between sections. -/
def lightRule : Text := "───────────────────────────────────────────────────────"

/-- Lines, each with its end. -/
def lines (parts : List Text) : Text := parts.flatMap fun part => part ++ [0x0A]

/-- A title between two rules. -/
def banner (title : Text) : List Text := [heavyRule, "  " ++ title, heavyRule]

def commas (items : List Text) : Text := Text.joinWith ", " items

end Shortfall.Report
