import Shortfall.Yaml.Node
import Shortfall.Yaml.Scalar
import Shortfall.Yaml.Token.Queue

/-!
# Building nodes from tokens

The grammar of nodes, read from the token queue. A collection may be written in block style, where
indentation delimits it, or in flow style between brackets. A missing key or value is an empty
plain scalar.

Only the first document of a text is read. Tokens behind it are not looked at further than the
queue looks ahead.

A problem is reported when it is met, with two exceptions, in which it waits until a part of the
structure is complete and gives way to any problem that is met until then: characters that cannot
be read where a comment was looked for, and a token that cannot be scanned behind the dash of a
sequence entry with a comment in front of it. There scanning is taken up again where it halted.
-/

namespace Shortfall.Yaml

/-- What is known while nodes are being built. -/
structure Builder where
  queue : Queue
  /-- The tag handles with the text each stands for. -/
  handles : List (Text × Text) := []
  /-- The latest node of each anchor name. -/
  anchors : List (Text × Nat) := []
  anchored : List (Nat × Node) := []
  nextAnchor : Nat := 0
  nextReference : Nat := 0
  /-- A fault that waits to be reported. -/
  setback? : Option Fault := none

/-- A fault as it is reported. Characters that cannot be read behind a setback are put down to the
line in front of it. -/
def Builder.reported (b : Builder) (fault : Fault) : Fault :=
  match fault, b.setback? with
  | .malformed problem none, some (.malformed _ (some line)) =>
      .malformed problem (if problem.isOfCharacters then some (line - 1) else none)
  | _, _ => fault

abbrev Build := StateT Builder (Except Fault)

namespace Build

def peek : Build Token := do
  let b ← get
  match b.queue.peek with
  | .error halt => throw (b.reported halt.fault)
  | .ok (token, queue) =>
      set { b with queue }
      return token

def skip : Build PUnit := modify fun b => { b with queue := b.queue.skip }

/-- Reports a fault that waits. This is done wherever a part of the structure is complete: the
start or the end of a collection, a scalar, an alias. -/
def settle : Build PUnit := do
  let b ← get
  match b.queue.cursor.refusal?, b.setback? with
  | some fault, _ => throw (b.reported fault)
  | none, some fault => throw fault
  | none, none => return

/-- Forgets the comments in front of a token, which belong to the part that is complete now. -/
def settleHead : Build PUnit := do
  settle
  modify fun b => { b with queue := { b.queue with head := [] } }

/-- Looks at the token behind a dash in front of which comments of some length stand. In front of a
collection they belong to the collection. A token that cannot be scanned is a setback. -/
def peekBehindDash (length : Nat) : Build PUnit := do
  if length = 0 then return
  let b ← get
  match b.queue.peek with
  | .error halt =>
      let queue := { halt.state with cursor := { halt.state.cursor with refused := false } }
      set { b with queue, setback? := some (b.reported halt.fault) }
  | .ok (token, queue) =>
      if token.kind = .blockSequenceStart || token.kind = .blockMappingStart then
        set { b with queue := { queue with head := queue.head.drop (length + 1) } }
      else set { b with queue }

/-- Takes a dash, and returns the token behind it. -/
def passDash : Build Token := do
  let length := (← get).queue.head.length
  skip
  peekBehindDash length
  peek

/-- A problem with the structure around a place, met at another. Lines count from zero here, as
the token that shows the problem is usually on the line behind it. -/
def structureFault (problem : Problem) (start here : Mark) : Fault :=
  .malformed problem
    (if start.line ≠ 0 then some start.line else if here.line ≠ 0 then some here.line else none)

def emptyScalar (mark : Mark) : Build Node := do
  settle
  return .scalar (mark.line + 1) Tag.null []

/-- The anchor and the tag in front of a node. -/
structure Properties where
  anchor? : Option Text := none
  tag? : Option (Text × Text) := none
  tagMark : Mark := {}
  start : Mark

/-- Reads an anchor and a tag, in either order. -/
def properties : Build Properties := do
  let token ← peek
  match token.kind with
  | .anchor name =>
      skip
      let next ← peek
      match next.kind with
      | .tag handle suffix =>
          skip
          return {
            anchor? := some name, tag? := some (handle, suffix), tagMark := next.start
            start := token.start }
      | _ => return { anchor? := some name, start := token.start }
  | .tag handle suffix =>
      skip
      let next ← peek
      match next.kind with
      | .anchor name =>
          skip
          return {
            anchor? := some name, tag? := some (handle, suffix), tagMark := token.start
            start := token.start }
      | _ => return { tag? := some (handle, suffix), tagMark := token.start, start := token.start }
  | _ => return { start := token.start }

/-- The tag that a handle and a suffix stand for; nothing when the node has none. -/
def resolveTag (p : Properties) : Build Text := do
  match p.tag? with
  | none => return []
  | some (handle, suffix) =>
      if handle.isEmpty then return suffix
      let tag :=
        match (← get).handles.find? fun (known, _) => known = handle with
        | some (_, start) => start ++ suffix
        | none => []
      if tag.isEmpty then throw (structureFault .undefinedTagHandle p.start p.tagMark)
      return tag

/-- The tag of a node: the one written, or else the default. -/
def tagOr (written standard : Text) : Text :=
  if written.isEmpty || written = [0x21] then standard else Tag.shorten written

/-- Gives the node that is about to be built the next number under its anchor. -/
def openAnchor (p : Properties) : Build (Option Nat) := do
  match p.anchor? with
  | none => return none
  | some name =>
      let b ← get
      set { b with anchors := (name, b.nextAnchor) :: b.anchors, nextAnchor := b.nextAnchor + 1 }
      return some b.nextAnchor

def closeAnchor (number? : Option Nat) (node : Node) : Build Node := do
  match number? with
  | none => return node
  | some number =>
      modify fun b => { b with anchored := (number, node) :: b.anchored }
      return node

/-- The default tag of a scalar. -/
def scalarTag (text : Text) (style : ScalarStyle) : Text :=
  if style = .plain then
    if text = "<<" then Tag.merge else (implicitValue text).1
  else Tag.str

mutual

/-- Reads a node. `block` allows block collections, and `indentless` a block sequence that is not
indented. -/
def node : (fuel : Nat) → (block indentless : Bool) → Build Node
  | 0, _, _ => return .scalar 0 Tag.null []
  | fuel + 1, block, indentless => do
      let token ← peek
      if let .alias name := token.kind then
        skip
        settleHead
        let b ← get
        match b.anchors.lookup name with
        | none => throw (.unknownAnchor name)
        | some anchor =>
            set { b with nextReference := b.nextReference + 1 }
            return .reference (token.start.line + 1) name b.nextReference anchor
      let p ← properties
      let token ← peek
      let written ← resolveTag p
      let line := p.start.line + 1
      match token.kind with
      | .blockEntry =>
          if indentless then
            settle
            let number? ← openAnchor p
            let items ← indentlessItems fuel
            return ← closeAnchor number? (.sequence line (tagOr written Tag.seq) items)
      | .scalar text style =>
          settleHead
          let number? ← openAnchor p
          skip
          return ← closeAnchor number?
            (.scalar line (tagOr written (scalarTag text style)) text)
      | .flowSequenceStart =>
          settleHead
          let number? ← openAnchor p
          skip
          let items ← flowItems fuel token.start true
          return ← closeAnchor number? (.sequence line (tagOr written Tag.seq) items)
      | .flowMappingStart =>
          settleHead
          let number? ← openAnchor p
          skip
          let entries ← flowEntries fuel token.start true
          return ← closeAnchor number? (.mapping line (tagOr written Tag.map) entries)
      | .blockSequenceStart =>
          if block then
            settle
            let number? ← openAnchor p
            skip
            let items ← blockItems fuel token.start
            return ← closeAnchor number? (.sequence line (tagOr written Tag.seq) items)
      | .blockMappingStart =>
          if block then
            settle
            let number? ← openAnchor p
            skip
            let entries ← blockEntries fuel token.start
            return ← closeAnchor number? (.mapping line (tagOr written Tag.map) entries)
      | _ => pure ()
      if p.anchor?.isSome || !written.isEmpty then
        settle
        let number? ← openAnchor p
        closeAnchor number? (.scalar line (tagOr written Tag.null) [])
      else throw (structureFault .noContent p.start token.start)

/-- The items of a block sequence up to its end. -/
def blockItems : (fuel : Nat) → (start : Mark) → Build (List Node)
  | 0, _ => return []
  | fuel + 1, start => do
      let token ← peek
      match token.kind with
      | .blockEntry =>
          let next ← passDash
          let item ←
            if next.kind = .blockEntry || next.kind = .blockEnd then emptyScalar token.stop
            else node fuel true false
          return item :: (← blockItems fuel start)
      | .blockEnd =>
          skip
          settle
          return []
      | _ => throw (structureFault .noBlockEntry start token.start)

/-- The items of a block sequence that stands at the indentation of its parent. -/
def indentlessItems : (fuel : Nat) → Build (List Node)
  | 0 => return []
  | fuel + 1 => do
      let token ← peek
      if token.kind ≠ .blockEntry then
        settle
        return []
      let next ← passDash
      let item ←
        if next.kind = .blockEntry || next.kind = .key || next.kind = .value
            || next.kind = .blockEnd then
          emptyScalar token.stop
        else node fuel true false
      return item :: (← indentlessItems fuel)

/-- A part of a block mapping entry: what follows its mark, or an empty scalar. -/
def blockPart : (fuel : Nat) → (mark : Mark) → Build Node
  | 0, mark => emptyScalar mark
  | fuel + 1, mark => do
      let next ← peek
      if next.kind = .key || next.kind = .value || next.kind = .blockEnd then
        return ← emptyScalar mark
      node fuel true true

/-- The entries of a block mapping up to its end. -/
def blockEntries : (fuel : Nat) → (start : Mark) → Build (List (Node × Node))
  | 0, _ => return []
  | fuel + 1, start => do
      let token ← peek
      match token.kind with
      | .key =>
          skip
          let key ← blockPart fuel token.stop
          let colon ← peek
          let value ←
            if colon.kind = .value then do
              skip
              blockPart fuel colon.stop
            else emptyScalar colon.start
          return (key, value) :: (← blockEntries fuel start)
      | .blockEnd =>
          skip
          settleHead
          return []
      | _ => throw (structureFault .noBlockKey start token.start)

/-- The items of a flow sequence up to its end. An item may be a single mapping entry. -/
def flowItems : (fuel : Nat) → (start : Mark) → (first : Bool) → Build (List Node)
  | 0, _, _ => return []
  | fuel + 1, start, first => do
      let token ← peek
      if token.kind = .flowSequenceEnd then
        skip
        settleHead
        return []
      if !first && token.kind ≠ .flowEntry then
        throw (structureFault .noFlowSequenceSeparator start token.start)
      if !first then skip
      let token ← peek
      if token.kind = .flowSequenceEnd then
        skip
        settleHead
        return []
      let item ←
        if token.kind = .key then do
          skip
          settle
          let entry ← flowPair fuel
          let _ ← peek
          settle
          pure (.mapping (token.start.line + 1) Tag.map [entry])
        else node fuel false false
      return item :: (← flowItems fuel start false)

/-- A single mapping entry in a flow sequence. A key that is missing takes the token in its place
with it. -/
def flowPair : (fuel : Nat) → Build (Node × Node)
  | 0 => return (.scalar 0 Tag.null [], .scalar 0 Tag.null [])
  | fuel + 1 => do
      let token ← peek
      let missing :=
        token.kind = .value || token.kind = .flowEntry || token.kind = .flowSequenceEnd
      let key ←
        if missing then do
          skip
          emptyScalar token.stop
        else node fuel false false
      let token ← peek
      if token.kind = .value then
        skip
        let next ← peek
        let value ←
          if next.kind = .flowEntry || next.kind = .flowSequenceEnd then
            emptyScalar token.start
          else node fuel false false
        return (key, value)
      return (key, ← emptyScalar token.start)

/-- The entries of a flow mapping up to its end. A key without a mark has no value. -/
def flowEntries : (fuel : Nat) → (start : Mark) → (first : Bool) →
    Build (List (Node × Node))
  | 0, _, _ => return []
  | fuel + 1, start, first => do
      let token ← peek
      if token.kind = .flowMappingEnd then
        skip
        settleHead
        return []
      if !first && token.kind ≠ .flowEntry then
        throw (structureFault .noFlowMappingSeparator start token.start)
      if !first then skip
      let token ← peek
      if token.kind = .flowMappingEnd then
        skip
        settleHead
        return []
      if token.kind = .key then
        skip
        let next ← peek
        let key ←
          if next.kind = .value || next.kind = .flowEntry || next.kind = .flowMappingEnd then
            emptyScalar next.start
          else node fuel false false
        let colon ← peek
        let value ←
          if colon.kind = .value then do
            skip
            let next ← peek
            if next.kind = .flowEntry || next.kind = .flowMappingEnd then
              emptyScalar next.start
            else node fuel false false
          else emptyScalar colon.start
        return (key, value) :: (← flowEntries fuel start false)
      else
        let key ← node fuel false false
        let next ← peek
        let value ← emptyScalar next.start
        return (key, value) :: (← flowEntries fuel start false)

end

/-! ## Documents -/

def standardHandles : List (Text × Text) := [("!", "!"), ("!!", Tag.standard)]

/-- Reads the directives in front of a document. -/
def directives : (fuel : Nat) → (versioned : Bool) → Build PUnit
  | 0, _ => return
  | fuel + 1, versioned => do
      let token ← peek
      match token.kind with
      | .versionDirective major minor =>
          if versioned then throw (structureFault .duplicateVersion {} token.start)
          if major ≠ 1 || minor ≠ 1 then
            throw (structureFault .incompatibleVersion {} token.start)
          skip
          directives fuel true
      | .tagDirective handle start =>
          let b ← get
          if b.handles.any fun (known, _) => known = handle then
            throw (structureFault .duplicateTagHandle {} token.start)
          set { b with handles := b.handles ++ [(handle, start)] }
          skip
          directives fuel versioned
      | _ => return

/-- Reads the first document, if there is one. -/
def document (fuel : Nat) : Build (Option Node) := do
  let _ ← peek
  skip
  settle
  let token ← peek
  let explicit := match token.kind with
    | .versionDirective .. => true
    | .tagDirective .. => true
    | .documentStart => true
    | _ => false
  if token.kind = .streamEnd then
    settle
    return none
  if explicit then
    directives fuel false
    let token ← peek
    if token.kind ≠ .documentStart then
      throw (structureFault .noDocumentStart {} token.start)
    skip
  settle
  modify fun b =>
    { b with
      handles := b.handles ++ standardHandles
      queue :=
        if explicit then b.queue
        else { b.queue with head := HeadComment.afterGaps b.queue.head } }
  let token ← peek
  let isEmpty := match token.kind with
    | .versionDirective .. => true
    | .tagDirective .. => true
    | .documentStart => true
    | .documentEnd => true
    | .streamEnd => true
    | _ => false
  let root ←
    if explicit && isEmpty then emptyScalar token.start else node fuel true false
  let _ ← peek
  settle
  return some root

end Build

/-- Reads the first document of a text; a text without one yields nothing. -/
def Document.parse (text : Text) : Except Fault (Option Document) := do
  let (root?, builder) ←
    (Build.document (8 * text.length + 64)).run { queue := Queue.ofText text }
  return root?.map fun root => { root, anchored := builder.anchored }

end Shortfall.Yaml
