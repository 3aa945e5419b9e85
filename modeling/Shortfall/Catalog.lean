import Shortfall.Catalog.Phrase
import Shortfall.Distinct
import Shortfall.Yaml.Record

/-!
# The category catalog

A catalog is an ordered list of vulnerability categories with distinct tags. A phrase relates to
a category when it contains one of the category's triggers, both compared in their normal form.
-/

namespace Shortfall

/-- A vulnerability category: the phrases that relate a test to it, and the advice it comes
with. -/
structure Category where
  id : Text := []
  name : Text := []
  triggers : List Text := []
  recommendations : List Text := []
  cwe : List Text := []
  deriving DecidableEq, Repr, Inhabited

/-- The triggers in normal form; a trigger of which nothing remains is left out. -/
def Category.normalTriggers (category : Category) : List Text :=
  (category.triggers.map Catalog.normalizePhrase).filter (!·.isEmpty)

structure Catalog where
  categories : List Category
  deriving DecidableEq, Repr, Inhabited

namespace Catalog

/-- Advice for categories that the catalog has none for. -/
def genericRecommendations : List Text := [
  "Trace the flow from its source to the sink and add a sanitizer or validator on the path",
  "Add a test that submits a malicious payload and asserts it is rejected"]

/-- Why categories make no catalog. -/
inductive Error where
  | malformed (fault : Yaml.Fault)
  | noId (name : Text)
  | duplicate (id : Text)
  deriving DecidableEq, Repr

def Error.message : Error → Text
  | malformed fault => "parsing catalog: " ++ fault.message
  | noId name => "category " ++ name.quoted ++ " has no id"
  | duplicate id => "duplicate category " ++ id

/-- Adds categories to those that were accepted before. -/
def buildFrom (accepted : List Category) : List Category → Except Error (List Category)
  | [] => .ok accepted
  | category :: rest =>
      let id := normalizeId category.id
      if id.isEmpty then .error (.noId category.name)
      else if accepted.any fun known => known.id = id then .error (.duplicate id)
      else buildFrom (accepted ++ [{ category with id }]) rest

/-- A catalog of the given categories, whose tags must be present and distinct. -/
def build (categories : List Category) : Except Error Catalog :=
  match buildFrom [] categories with
  | .ok accepted => .ok ⟨accepted⟩
  | .error error => .error error

def lookup? (catalog : Catalog) (id : Text) : Option Category :=
  catalog.categories.find? fun category => category.id = normalizeId id

/-- Whether a phrase relates to a category. Nothing relates to an unknown category. -/
def relates (catalog : Catalog) (phrase id : Text) : Bool :=
  match catalog.lookup? id with
  | none => false
  | some category =>
      let normal := normalizePhrase phrase
      category.normalTriggers.any fun trigger => trigger.occursIn normal

def relatesAny (catalog : Catalog) (phrases : List Text) (id : Text) : Bool :=
  phrases.any fun phrase => catalog.relates phrase id

/-- The advice for a category. -/
def recommendations (catalog : Catalog) (id : Text) : List Text :=
  match catalog.lookup? id with
  | some category =>
      if category.recommendations.isEmpty then genericRecommendations
      else category.recommendations
  | none => genericRecommendations

/-! ## Documents -/

/-- The layout of a catalog document and of an override pack. -/
structure Document where
  version : Text := []
  name : Text := []
  description : Text := []
  author : Text := []
  categories : List Category := []
  deriving DecidableEq, Repr, Inhabited

open Yaml.Read in
/-- A field that holds a list of texts; a missing list is empty. -/
def textsField (name : Text) (get : Category → List Text) (set : Category → List Text → Category) :
    Yaml.Read.Field Category :=
  .of name texts (fun c => some (get c)) (fun c v => set c (v.getD []))

open Yaml.Read in
def categoryFields : List (Yaml.Read.Field Category) := [
  .of "id" text (·.id) (fun c v => { c with id := v }),
  .of "name" text (·.name) (fun c v => { c with name := v }),
  textsField "triggers" (·.triggers) (fun c v => { c with triggers := v }),
  textsField "recommendations" (·.recommendations) (fun c v => { c with recommendations := v }),
  textsField "cwe" (·.cwe) (fun c v => { c with cwe := v })]

open Yaml.Read in
def documentReader (fuel : Nat) : Reader Document :=
  record "catalog.Document" [
    .of "version" text (·.version) (fun d v => { d with version := v }),
    .of "name" text (·.name) (fun d v => { d with name := v }),
    .of "description" text (·.description) (fun d v => { d with description := v }),
    .of "author" text (·.author) (fun d v => { d with author := v }),
    .of "categories"
      (list "[]catalog.Category" (record "catalog.Category" categoryFields fuel) {})
      (fun d => some d.categories) (fun d v => { d with categories := v.getD [] })] fuel

def Document.parse (text : Text) : Except Yaml.Fault Document :=
  Yaml.read documentReader {} text

/-- Reads a catalog. -/
def parse (text : Text) : Except Error Catalog :=
  match Document.parse text with
  | .error fault => .error (.malformed fault)
  | .ok document => build document.categories

end Catalog

end Shortfall
