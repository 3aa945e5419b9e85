import Shortfall.Catalog.Builtin
import Shortfall.Gap.Input
import Shortfall.Gap.Result

/-!
# Matching tests with findings

The analyses that the strategies are made of. A test and a vulnerability are related when one of
the test's security requirements relates to the category of the vulnerability.

* A related pair gives a *mapping* gap.
* A test without security requirements gives a *coverage* gap.
* A related pair in which the test declares a lower risk gives a *mismatch* gap.
* A vulnerability that no test is related to gives an *orphan* gap.
-/

namespace Shortfall.Gap

/-! ## Texts and risks -/

/-- The test name of a gap that no test covers. -/
def unknownTest : Text := "unknown"

/-- Words in the name of a test that exercises authentication. -/
def authTerms : List Text :=
  ["auth", "login", "logon", "signin", "sign-in", "sign in", "password", "credential", "session"]

def isAuthTest (name : Text) : Bool :=
  let lowered := name.lower
  authTerms.any fun term => term.occursIn lowered

/-- The risk of a related pair. It is that of the vulnerability; an SQL injection behind a test of
authentication is always critical. -/
def mappedRisk (intent : TestIntent) (v : Vulnerability) : Risk :=
  if Catalog.normalizeId v.type = "SQL_INJECTION"
      && (Severity.isCritical v.severity || isAuthTest intent.testName) then .critical
  else Severity.risk v.severity

/-- What a test claims to verify. -/
def intentionText (intent : TestIntent) : Text :=
  let trimmed := intent.expectedBehavior.trim
  let behavior := if trimmed.isEmpty then "Test " ++ intent.testName.quoted else trimmed
  if intent.securityRequirements.isEmpty then behavior
  else behavior ++ " (security requirements: "
    ++ Text.joinWith ", " intent.securityRequirements ++ ")"

/-- A text with a lead in front of it; nothing where there is no text. -/
def ledBy (lead text : Text) : Text := if text.isEmpty then [] else lead ++ text

/-- A vulnerability in words. -/
def describe (v : Vulnerability) : Text :=
  v.type ++ " vulnerability" ++ ledBy " " v.id
    ++ " with " ++ (Severity.risk v.severity).name ++ " severity detected"
    ++ ledBy " from " v.source.text ++ ledBy " to " v.sink.text

/-- What a coverage gap says. -/
def noRequirements : Text := "No security requirements are defined for this test"

/-! ## The analyses -/

/-- Who looks for gaps: the catalog in use, and the name that the gaps are marked with. -/
structure Finder where
  catalog : Catalog
  name : Text

namespace Finder

def related (finder : Finder) (intent : TestIntent) (v : Vulnerability) : Bool :=
  finder.catalog.relatesAny intent.securityRequirements v.type

def relatedTo (finder : Finder) (intent : TestIntent) (vs : List Vulnerability) :
    List Vulnerability :=
  vs.filter (finder.related intent)

def mappingGap (finder : Finder) (intent : TestIntent) (v : Vulnerability) : SecurityGap where
  testName := intent.testName
  intention := intentionText intent
  actualImplementation := describe v
  risk := mappedRisk intent v
  recommendations :=
    ("Extend " ++ intent.testName.quoted ++ " so it fails while the " ++ v.type
      ++ " flow remains exploitable") :: finder.catalog.recommendations v.type
  detectedBy := finder.name

/-- One gap for each related pair, in the order of the tests. -/
def mappingGaps (finder : Finder) (input : Input) : List SecurityGap :=
  input.intents.flatMap fun intent =>
    (finder.relatedTo intent input.vulnerabilities).map (finder.mappingGap intent)

def coverageGap (finder : Finder) (intent : TestIntent) : SecurityGap where
  testName := intent.testName
  intention := intentionText intent
  actualImplementation := noRequirements
  risk := .medium
  recommendations := [
    "Define the security requirements this test is meant to verify",
    "Map the test to the vulnerability categories it guards against"]
  detectedBy := finder.name

/-- One gap for each test without security requirements. -/
def coverageGaps (finder : Finder) (input : Input) : List SecurityGap :=
  (input.intents.filter (·.securityRequirements.isEmpty)).map finder.coverageGap

def mismatchGap (finder : Finder) (intent : TestIntent) (v : Vulnerability) : SecurityGap :=
  let actual := Severity.risk v.severity
  { testName := intent.testName
    intention := intentionText intent ++ " declared with " ++ intent.risk.name ++ " risk"
    actualImplementation := "Risk under-estimated: " ++ describe v ++ ", above the declared "
      ++ intent.risk.name
    risk := actual
    recommendations := [
      "Raise the declared risk level of " ++ intent.testName.quoted ++ " to " ++ actual.name,
      "Prioritize review of the " ++ v.type ++ " finding " ++ v.id]
    detectedBy := finder.name }

/-- Whether a test declares less risk than a vulnerability has. -/
def isUnderestimated (intent : TestIntent) (v : Vulnerability) : Bool :=
  intent.risk.rank < (Severity.risk v.severity).rank

/-- One gap for each related pair whose risk is declared too low. -/
def mismatchGaps (finder : Finder) (input : Input) : List SecurityGap :=
  input.intents.flatMap fun intent =>
    ((finder.relatedTo intent input.vulnerabilities).filter (isUnderestimated intent)).map
      (finder.mismatchGap intent)

def orphanGap (finder : Finder) (v : Vulnerability) : SecurityGap where
  testName := unknownTest
  intention := "No test declares a security requirement covering " ++ v.type
  actualImplementation := describe v
  risk := Severity.risk v.severity
  recommendations := finder.catalog.recommendations v.type
  detectedBy := finder.name

/-- Whether some test is related to a vulnerability. -/
def isCovered (finder : Finder) (intents : List TestIntent) (v : Vulnerability) : Bool :=
  intents.any fun intent => finder.related intent v

/-- One gap for each vulnerability that no test is related to. -/
def orphanGaps (finder : Finder) (input : Input) : List SecurityGap :=
  (input.vulnerabilities.filter fun v => !finder.isCovered input.intents v).map finder.orphanGap

/-- A mapping gap for a pair that is related only by the description of the test. -/
def inferredGap (finder : Finder) (intent : TestIntent) (v : Vulnerability) : SecurityGap :=
  let gap := finder.mappingGap intent v
  { gap with
    actualImplementation := gap.actualImplementation
      ++ " (inferred from the test description; no security requirement names this category)"
    recommendations := ("Declare the " ++ v.type ++ " requirement this test appears to exercise")
      :: gap.recommendations }

/-- Whether only the description of a test relates it to a vulnerability. -/
def isInferred (finder : Finder) (intent : TestIntent) (v : Vulnerability) : Bool :=
  !finder.related intent v
    && finder.catalog.relatesAny [intent.testName, intent.expectedBehavior] v.type

/-- The gap of a pair, related or inferred. -/
def semanticGap? (finder : Finder) (intent : TestIntent) (v : Vulnerability) :
    Option SecurityGap :=
  if finder.related intent v then some (finder.mappingGap intent v)
  else if finder.isInferred intent v then some (finder.inferredGap intent v)
  else none

/-- One gap for each pair that is related or inferred to be. -/
def semanticGaps (finder : Finder) (input : Input) : List SecurityGap :=
  input.intents.flatMap fun intent =>
    input.vulnerabilities.filterMap (finder.semanticGap? intent)

/-- All analyses of the default strategy, one after the other. -/
def defaultGaps (finder : Finder) (input : Input) : List SecurityGap :=
  finder.mappingGaps input ++ finder.coverageGaps input ++ finder.mismatchGaps input
    ++ finder.orphanGaps input

end Finder

end Shortfall.Gap
