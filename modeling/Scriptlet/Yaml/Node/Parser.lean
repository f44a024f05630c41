import Scriptlet.Yaml.Node
import Scriptlet.Yaml.Token.Scan

/-! # From tokens to nodes

A recursive-descent parser over the tokens of a text, which reads the first document and looks no
further. The recursion is on a budget that grows with the number of tokens; `parse` supplies it.
-/
namespace Scriptlet

namespace Yaml

/-- The tokens still to be read, the anchors met so far, the newest first, and what the handles of
tags stand for. A node with an anchor is known once it is complete. -/
structure Reader where
  rest : List Token
  anchors : List (Bytes × Option Node) := []
  shorthands : List (Bytes × Bytes) := []

abbrev Read := StateT Reader (Except Fault)

/-- What stands before a node. -/
structure Properties where
  anchor : Option Bytes := none
  tag : Option (Bytes × Bytes) := none
  tagLine : Nat := 0
  deriving DecidableEq, Repr

namespace Read

/-- The next token, unless the text makes no sense there. -/
def peek : Read Token := do
  match (← get).rest with
  | [] => return ⟨.streamEnd, 0⟩
  | t :: _ =>
    match t.kind with
    | .fault f => throw f
    | _ => return t

def advance : Read Unit := modify fun r => { r with rest := r.rest.tail }

def fail {α : Type} (problem : Problem) (start here : Nat) : Read α :=
  throw (.structural problem start here)

/-- A scalar that is not there, on a line counted from zero. -/
def emptyNode (line : Nat) : Node := .scalar (line + 1) .null []

/-- Reads an anchor and a tag in either order. -/
def properties : Read Properties := do
  let anchor? (p : Properties) : Read Properties := do
    match (← peek).kind with
    | .anchor name => advance; return { p with anchor := some name }
    | _ => return p
  let tag? (p : Properties) : Read Properties := do
    let t ← peek
    match t.kind with
    | .tag front name => advance; return { p with tag := some (front, name), tagLine := t.line }
    | _ => return p
  let p ← anchor? {}
  let p ← tag? p
  if p.anchor.isSome then return p else anchor? p

/-- The full text of a tag, with its handle replaced by what it stands for. -/
def tagOf (line : Nat) (p : Properties) : Read Bytes := do
  match p.tag with
  | none => return []
  | some ([], name) => return name
  | some (front, name) =>
    match (← get).shorthands.lookup front with
    | some expansion => return expansion ++ name
    | none => fail .unknownShorthand line p.tagLine

/-- The tag of a node that has one of its own, or else the one it gets by default. -/
def tagOr (given : Bytes) (default : Tag) : Tag :=
  if given = [] ∨ given = utf8 "!" then default else Tag.ofText given

/-- The tag of a scalar by default: by its spelling, or a string if it has quotes. -/
def scalarTag (text : Bytes) (isPlain : Bool) : Tag :=
  if !isPlain then .string else if text = utf8 "<<" then .merge else kindOf true text

/-- Makes an anchor known, together with its node if that is complete. -/
def setAnchor (p : Properties) (n : Option Node) : Read Unit :=
  match p.anchor with
  | none => return
  | some name => modify fun r => { r with anchors := (name, n) :: r.anchors }

/-- Completes the newest entry of a name that has no node yet. -/
def completeEntry (name : Bytes) (n : Node) :
    List (Bytes × Option Node) → List (Bytes × Option Node)
  | [] => []
  | (other, none) :: rest =>
    if other = name then (name, some n) :: rest else (other, none) :: completeEntry name n rest
  | (other, some m) :: rest => (other, some m) :: completeEntry name n rest

/-- A collection that is complete, for its anchor too. -/
def complete (p : Properties) (n : Node) : Read Node := do
  match p.anchor with
  | none => return n
  | some name =>
    modify fun r => { r with anchors := completeEntry name n r.anchors }
    return n

/-- A scalar, known by its anchor at once. -/
def scalar (p : Properties) (n : Node) : Read Node := do
  setAnchor p (some n)
  return n

def referenceTo (line : Nat) (name : Bytes) : Read Node := do
  match (← get).anchors.lookup name with
  | none => throw ⟨.unknownAnchor name, 0⟩
  | some none => return .cycle line name
  | some (some target) => return .reference line name target

mutual

/-- Reads a node. In a block it may be a collection told by indentation; as the value of a key it
may be a list that is indented no further than the key. -/
def node : Nat → Bool → Bool → Read Node
  | 0, _, _ => throw ⟨.tooDeep, 0⟩
  | budget + 1, inBlock, indentless => do
    let first ← peek
    match first.kind with
    | .reference name =>
      advance
      referenceTo (first.line + 1) name
    | _ =>
      let p ← properties
      let given ← tagOf first.line p
      let t ← peek
      let line := first.line + 1
      match t.kind with
      | .scalar text isPlain =>
        advance
        scalar p (.scalar line (tagOr given (scalarTag text isPlain)) text)
      | .blockEntry =>
        if indentless then do
          setAnchor p none
          let items ← indentlessItems budget
          complete p (.sequence line (tagOr given .sequence) items)
        else missing budget p given first.line t.line
      | .flowSequenceStart =>
        advance
        setAnchor p none
        let items ← flowItems budget t.line true
        complete p (.sequence line (tagOr given .sequence) items)
      | .flowMappingStart =>
        advance
        setAnchor p none
        let entries ← flowEntries budget t.line true
        complete p (.mapping line (tagOr given .mapping) entries)
      | .blockSequenceStart =>
        if inBlock then do
          advance
          setAnchor p none
          let items ← blockItems budget t.line
          complete p (.sequence line (tagOr given .sequence) items)
        else missing budget p given first.line t.line
      | .blockMappingStart =>
        if inBlock then do
          advance
          setAnchor p none
          let entries ← blockEntries budget t.line
          complete p (.mapping line (tagOr given .mapping) entries)
        else missing budget p given first.line t.line
      | _ => missing budget p given first.line t.line

/-- A node of which only the properties are there. -/
def missing : Nat → Properties → Bytes → Nat → Nat → Read Node
  | _, p, given, start, here =>
    if p.anchor.isSome || !given.isEmpty then
      scalar p (.scalar (start + 1) (tagOr given .null) [])
    else fail .contentMissing start here

def indentlessItems : Nat → Read (List Node)
  | 0 => throw ⟨.tooDeep, 0⟩
  | budget + 1 => do
    let t ← peek
    match t.kind with
    | .blockEntry =>
      advance
      let item ← match (← peek).kind with
        | .blockEntry | .key | .value | .blockEnd => pure (emptyNode t.line)
        | _ => node budget true false
      return item :: (← indentlessItems budget)
    | _ => return []

def blockItems : Nat → Nat → Read (List Node)
  | 0, _ => throw ⟨.tooDeep, 0⟩
  | budget + 1, start => do
    let t ← peek
    match t.kind with
    | .blockEntry =>
      advance
      let item ← match (← peek).kind with
        | .blockEntry | .blockEnd => pure (emptyNode t.line)
        | _ => node budget true false
      return item :: (← blockItems budget start)
    | .blockEnd => advance; return []
    | _ => fail .blockEntryMissing start t.line

def blockEntries : Nat → Nat → Read (List (Node × Node))
  | 0, _ => throw ⟨.tooDeep, 0⟩
  | budget + 1, start => do
    let t ← peek
    match t.kind with
    | .key =>
      advance
      let key ← blockPart budget t.line
      let v ← peek
      let value ← match v.kind with
        | .value => advance; blockPart budget v.line
        | _ => pure (emptyNode v.line)
      return (key, value) :: (← blockEntries budget start)
    | .blockEnd => advance; return []
    | _ => fail .blockKeyMissing start t.line

/-- The key or the value of an entry, either of which may be left out. -/
def blockPart : Nat → Nat → Read Node
  | 0, _ => throw ⟨.tooDeep, 0⟩
  | budget + 1, line => do
    match (← peek).kind with
    | .key | .value | .blockEnd => return emptyNode line
    | _ => node budget true true

def flowItems : Nat → Nat → Bool → Read (List Node)
  | 0, _, _ => throw ⟨.tooDeep, 0⟩
  | budget + 1, start, isFirst => do
    let t ← peek
    match t.kind with
    | .flowSequenceEnd => advance; return []
    | .flowEntry =>
      if !isFirst then advance
      flowItem budget start
    | _ => if isFirst then flowItem budget start else fail .flowSequenceOpen start t.line

/-- An item of a list in brackets, and the items behind it. A key makes it a mapping with one
entry. -/
def flowItem : Nat → Nat → Read (List Node)
  | 0, _ => throw ⟨.tooDeep, 0⟩
  | budget + 1, start => do
    let t ← peek
    match t.kind with
    | .flowSequenceEnd => advance; return []
    | .key =>
      advance
      let k ← peek
      let key ← match k.kind with
        | .value | .flowEntry | .flowSequenceEnd => advance; pure (emptyNode k.line)
        | _ => node budget false false
      let v ← peek
      let value ← match v.kind with
        | .value =>
          advance
          match (← peek).kind with
          | .flowEntry | .flowSequenceEnd => pure (emptyNode v.line)
          | _ => node budget false false
        | _ => pure (emptyNode v.line)
      return .mapping (t.line + 1) .mapping [(key, value)] :: (← flowItems budget start false)
    | _ =>
      let item ← node budget false false
      return item :: (← flowItems budget start false)

def flowEntries : Nat → Nat → Bool → Read (List (Node × Node))
  | 0, _, _ => throw ⟨.tooDeep, 0⟩
  | budget + 1, start, isFirst => do
    let t ← peek
    match t.kind with
    | .flowMappingEnd => advance; return []
    | .flowEntry =>
      if !isFirst then advance
      flowPair budget start
    | _ => if isFirst then flowPair budget start else fail .flowMappingOpen start t.line

/-- An entry of a mapping in brackets, and the entries behind it. Without a key token the value is
left out. -/
def flowPair : Nat → Nat → Read (List (Node × Node))
  | 0, _ => throw ⟨.tooDeep, 0⟩
  | budget + 1, start => do
    let t ← peek
    match t.kind with
    | .flowMappingEnd => advance; return []
    | .key =>
      advance
      let k ← peek
      let key ← match k.kind with
        | .value | .flowEntry | .flowMappingEnd => pure (emptyNode k.line)
        | _ => node budget false false
      let v ← peek
      let value ← match v.kind with
        | .value =>
          advance
          match (← peek).kind with
          | .flowEntry | .flowMappingEnd => pure (emptyNode v.line)
          | _ => node budget false false
        | _ => pure (emptyNode v.line)
      return (key, value) :: (← flowEntries budget start false)
    | _ =>
      let key ← node budget false false
      let value := emptyNode (← peek).line
      return (key, value) :: (← flowEntries budget start false)

end

/-- Reads the directives before a document. The budget bounds their number. -/
def directives : Nat → Bool → Read Unit
  | 0, _ => return
  | budget + 1, versioned => do
    let t ← peek
    match t.kind with
    | .version major minor =>
      if versioned then fail .versionRepeated 0 t.line
      else if major ≠ 1 ∨ minor ≠ 1 then fail .versionUnsupported 0 t.line
      else
        advance
        directives budget true
    | .shorthand front expansion =>
      if ((← get).shorthands.lookup front).isSome then fail .shorthandRepeated 0 t.line
      else
        modify fun r => { r with shorthands := (front, expansion) :: r.shorthands }
        advance
        directives budget versioned
    | _ => return

/-- What handles stand for unless directives say otherwise. -/
def standardShorthands : List (Bytes × Bytes) :=
  [(utf8 "!", utf8 "!"), (utf8 "!!", Tag.commonSpace)]

/-- Reads the first document up to its end, if there is one. -/
def document (budget : Nat) : Read (Option Node) := do
  match (← peek).kind with
  | .streamEnd => return none
  | .version .. | .shorthand .. | .documentStart =>
    directives budget false
    modify fun r => { r with shorthands := r.shorthands ++ standardShorthands }
    let t ← peek
    if t.kind ≠ .documentStart then fail .documentStartMissing 0 t.line
    else
      advance
      let c ← peek
      let root ← match c.kind with
        | .version .. | .shorthand .. | .documentStart | .documentEnd | .streamEnd =>
          pure (emptyNode c.line)
        | _ => node budget true false
      let _ ← peek
      return some root
  | _ =>
    modify fun r => { r with shorthands := standardShorthands }
    let root ← node budget true false
    let _ ← peek
    return some root

end Read

/-- Reads a document from the tokens of a text; nothing if the text is empty. -/
def Document.ofTokens (tokens : List Token) : Except Fault (Option Document) := do
  let budget := 4 * tokens.length + 4
  let (root, _) ← (Read.document budget).run { rest := tokens }
  .ok (root.map (⟨·, budget⟩))

def Document.parse (text : Bytes) : Except Fault (Option Document) := do
  let c ← cursorOf text
  Document.ofTokens (tokensOf c)

end Yaml

end Scriptlet
