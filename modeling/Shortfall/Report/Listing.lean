import Shortfall.Catalog.Pack
import Shortfall.Gap.Registry
import Shortfall.Report

/-!
# Listings of categories, packs and strategies
-/

namespace Shortfall.Report

def categoryLines (category : Category) : List Text :=
  let cwe : Text := if category.cwe.isEmpty then [] else "  " ++ commas category.cwe
  [("  " : Text) ++ category.id.padRight 20 ++ " " ++ category.name ++ cwe,
    ("  " : Text) ++ Text.padRight 20 [] ++ " triggers: " ++ commas category.triggers]

def categoryReport (catalog : Catalog) : Text :=
  lines ([("Vulnerability categories:" : Text), lightRule]
    ++ catalog.categories.flatMap categoryLines ++ [lightRule])

/-! ## Packs -/

def packStatus (info : Catalog.PackInfo) : Text :=
  if info.error?.isSome then "invalid " else if info.enabled then "enabled " else "disabled"

def packLines (info : Catalog.PackInfo) : List Text :=
  [("  " : Text) ++ packStatus info ++ "  " ++ info.name.padRight 20 ++ " " ++ info.description]
  ++ match info.error? with
    | some error => [("            " : Text) ++ error.message]
    | none =>
        if info.version.isEmpty then []
        else [("            v" : Text) ++ info.version ++ " by " ++ info.author ++ "  ("
          ++ Text.ofNat info.categoryCount ++ " categories)"]

def packReport (directory : Text) (infos : List Catalog.PackInfo) : Text :=
  if infos.isEmpty then
    lines ["No category packs installed.", [],
      "To install packs, copy YAML files to: " ++ directory]
  else
    lines ([("Installed Category Packs:" : Text), lightRule] ++ infos.flatMap packLines
      ++ [lightRule, [], "Packs directory: " ++ directory])

/-! ## Strategies -/

def strategyDescription (key : Text) : Text :=
  if key = Gap.Strategy.defaultKey then
    "intent mapping, coverage gaps, risk mismatches and unaddressed vulnerabilities"
  else if key = Gap.Strategy.semanticKey then
    "every intent/vulnerability pair, including matches inferred from test names"
  else if key = Gap.Strategy.riskBasedKey then
    "only tests whose declared risk is below a related finding's severity"
  else if key = Gap.Strategy.coverageBasedKey then
    "only vulnerabilities no test declares a requirement for"
  else []

/-- The strategies to choose from; the one in use is marked. -/
def strategyReport (inUse : Text) : Text :=
  let keys := Gap.Strategy.defaultKey :: Gap.Registry.standard.keys
  lines ([("Gap strategies:" : Text), lightRule]
    ++ keys.map (fun key =>
        let mark : Text := if key = inUse then "*" else " "
        " " ++ mark ++ " " ++ key.padRight 16 ++ " " ++ strategyDescription key)
    ++ [lightRule, "* primary strategy in the current configuration"])

end Shortfall.Report
