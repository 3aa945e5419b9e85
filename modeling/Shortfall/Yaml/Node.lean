import Shortfall.Yaml.Token

/-!
# Nodes of a YAML document

A document is a tree of scalars, sequences and mappings. An anchored node can be referred to from
elsewhere, even from inside itself; such a reference keeps the number of the node it means, and
the document lists the anchored nodes by number. Every reference has a number of its own, by
which a reader notices that it is following one in a circle.

Tags are kept in their short form, in which the standard tags start with two exclamation marks.
-/

namespace Shortfall.Yaml

inductive Node where
  | scalar (line : Nat) (tag text : Text)
  | sequence (line : Nat) (tag : Text) (items : List Node)
  | mapping (line : Nat) (tag : Text) (entries : List (Node × Node))
  | reference (line : Nat) (name : Text) (number anchor : Nat)
  deriving Repr, Inhabited

structure Document where
  root : Node
  anchored : List (Nat × Node) := []
  deriving Repr

/-! ## Tags -/

namespace Tag

def str : Text := "!!str"

def null : Text := "!!null"

def bool : Text := "!!bool"

def int : Text := "!!int"

def float : Text := "!!float"

def timestamp : Text := "!!timestamp"

def binary : Text := "!!binary"

def merge : Text := "!!merge"

def seq : Text := "!!seq"

def map : Text := "!!map"

def standard : Text := "tag:yaml.org,2002:"

def shorten (tag : Text) : Text :=
  if tag.startsWith standard then "!!" ++ tag.drop standard.length else tag

end Tag

namespace Node

def line : Node → Nat
  | scalar line _ _ => line
  | sequence line _ _ => line
  | mapping line _ _ => line
  | reference line _ _ _ => line

/-- The tag of a node; a reference has none. -/
def tag : Node → Text
  | scalar _ tag _ => tag
  | sequence _ tag _ => tag
  | mapping _ tag _ => tag
  | reference _ _ _ _ => []

/-- The text of a node: that of a scalar, the name of a reference, and nothing for a
collection. -/
def text : Node → Text
  | scalar _ _ text => text
  | sequence _ _ _ => []
  | mapping _ _ _ => []
  | reference _ name _ _ => name

/-- Whether two nodes are of one kind. -/
def sameKind : Node → Node → Bool
  | scalar .., scalar .. => true
  | sequence .., sequence .. => true
  | mapping .., mapping .. => true
  | reference .., reference .. => true
  | _, _ => false

/-- Whether a node is the key of entries to be taken over from another mapping. -/
def isMerge : Node → Bool
  | scalar _ tag text => text = "<<" && tag = Tag.merge
  | _ => false

end Node

end Shortfall.Yaml
