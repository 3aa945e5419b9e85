import Shortfall.Text

/-!
# File paths

Paths are texts with slashes between their components. Cleaning a path removes empty and `.`
components and lets `..` take the component before it away; a path that leads nowhere else is `.`.
-/

namespace Shortfall.Path

def slash : UInt8 := 0x2F

def isAbsolute (path : Text) : Bool := path.head? = some slash

/-- Adds a component to a cleaned path, whose components are given in reverse. -/
def push (absolute : Bool) (reversed : List Text) (component : Text) : List Text :=
  if component.isEmpty || component = "." then reversed
  else if component = ".." then
    match reversed with
    | [] => if absolute then [] else [component]
    | last :: rest => if last = ".." then component :: reversed else rest
  else component :: reversed

/-- The components of a path after cleaning. -/
def components (path : Text) : List Text :=
  ((path.splitAtByte slash).foldl (push (isAbsolute path)) []).reverse

def clean (path : Text) : Text :=
  let body := Text.joinWith [slash] (components path)
  if isAbsolute path then slash :: body else if body.isEmpty then "." else body

/-- The cleaned path made of two parts; an empty part is left out. -/
def join (front back : Text) : Text :=
  if front.isEmpty then (if back.isEmpty then [] else clean back)
  else if back.isEmpty then clean front
  else clean (front ++ [slash] ++ back)

/-- The path without the slashes at its end. -/
def dropSlashes (path : Text) : Text := (path.reverse.dropWhile (· = slash)).reverse

/-- What is written in front of the last component, without the slash between them. -/
def parent? (path : Text) : Option Text :=
  match Text.cutAtLastByte? slash (dropSlashes path) with
  | some (front, _) => if front.isEmpty then none else some front
  | none => none

/-- The first `bound` paths that are written in front of a path, the longest first. -/
def ancestorsWithin : (bound : Nat) → Text → List Text
  | 0, _ => []
  | bound + 1, path =>
      match parent? path with
      | some front => front :: ancestorsWithin bound front
      | none => []

/-- The paths that are written in front of a path, the longest first. -/
def ancestors (path : Text) : List Text := ancestorsWithin path.length path

/-- The path of the directory that holds a file. -/
def directory (path : Text) : Text :=
  match path.cutAtLastByte? slash with
  | some (front, _) => clean (front ++ [slash])
  | none => "."

/-- The last component of a path, without the slashes behind it. -/
def base (path : Text) : Text :=
  if path.isEmpty then "."
  else
    let trimmed := dropSlashes path
    match trimmed.cutAtLastByte? slash with
    | some (_, last) => last
    | none => if trimmed.isEmpty then [slash] else trimmed

/-- The ending of the last component, from its last point on. -/
def extension (path : Text) : Text :=
  let last := match path.cutAtLastByte? slash with
    | some (_, last) => last
    | none => path
  match last.cutAtLastByte? 0x2E with
  | some (_, ending) => 0x2E :: ending
  | none => []

/-- A file name without its extension. -/
def stem (name : Text) : Text := (base name).dropEnding (extension name)

end Shortfall.Path
