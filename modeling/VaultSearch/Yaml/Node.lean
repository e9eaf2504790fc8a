import VaultSearch.Yaml.Token

/-!
# YAML documents

`Document.parse?` reads a text that holds one document. Its value is a
tree of nodes in which a reference stays a reference: an anchor takes as
its number the count of distinct anchor names before it, and a reference
names the last node that took its number (`Document.resolve`).
-/

namespace VaultSearch.Yaml

/-- A value. Only a plain scalar may stand for something else than its text. -/
inductive Node where
  | scalar (tag : Option String) (text : String) (plain : Bool)
  | sequence (tag : Option String) (items : List Node)
  | mapping (tag : Option String) (entries : List (Node × Node))
  | reference (anchor : Nat)

/-- A missing value. -/
def Node.empty : Node := .scalar none "" true

structure Document where
  root : Node
  /-- The anchored nodes with their numbers, in the order of their starts. -/
  anchored : List (Nat × Node)

/-- The node itself, or the one that it refers to. -/
def Document.resolve (d : Document) : Node → Option Node
  | .reference anchor => (d.anchored.reverse.find? (·.1 = anchor)).map (·.2)
  | n => some n

/-! ## Reading -/

/-- What is left to read and the anchors met so far. -/
structure Reading where
  tokens : List Token
  /-- The leading part that each tag handle stands for. -/
  handles : List (String × String)
  names : List (String × Nat) := []
  anchored : List (Nat × Node) := []

/-- A reading step; `none` for tokens out of place. -/
abbrev Reader (α : Type) := StateT Reading Option α

namespace Reader

def next? : Reader (Option Token) := return (← get).tokens.head?

def skip : Reader Unit := modify fun r => { r with tokens := r.tokens.tail }

/-- Whether the next token is `t`; if so, it is read. -/
def take? (t : Token) : Reader Bool := do
  if (← next?) = some t then
    skip
    return true
  else return false

def expect (t : Token) : Reader Unit := do
  if !(← take? t) then failure

/-- Whether the next token is one of `ts`. -/
def sees (ts : List Token) : Reader Bool := return (← next?).any (ts.contains ·)

/-- The tag in full. -/
def fullTag (handle suffix : String) : Reader String := do
  if handle.isEmpty then return suffix
  else
    let some lead := (← get).handles.lookup handle | failure
    return lead ++ suffix

def tag? : Reader (Option String) := do
  match ← next? with
  | some (.tag handle suffix) =>
    skip
    return some (← fullTag handle suffix)
  | _ => return none

/-- An anchor, which takes a number and a place among the anchored nodes. -/
def anchor? : Reader (Option (Nat × Nat)) := do
  match ← next? with
  | some (.anchor name) =>
    skip
    let r ← get
    let number := r.names.length
    set { r with names := (name, number) :: r.names.filter (·.1 ≠ name) }
    return some (number, r.anchored.length)
  | _ => return none

/-- A tag and an anchor in either order. -/
def properties : Reader (Option String × Option (Nat × Nat)) := do
  match ← anchor? with
  | some a => return (← tag?, some a)
  | none =>
    let tag ← tag?
    return (tag, ← anchor?)

/-- Give an anchored node its place, before the anchored nodes inside it. -/
def place (anchor : Option (Nat × Nat)) (n : Node) : Reader Node := do
  if let some (number, at_) := anchor then
    modify fun r => { r with
      anchored := r.anchored.take at_ ++ (number, n) :: r.anchored.drop at_ }
  return n

mutual

/-- A node. `block` allows block collections, and `loose` a sequence that is not
indented. -/
def node (block loose : Bool) : (fuel : Nat) → Reader Node
  | 0 => failure
  | fuel + 1 => do
    if let some (.reference name) ← next? then
      skip
      let some number := (← get).names.lookup name | failure
      return .reference number
    let (tag, anchor) ← properties
    match ← next? with
    | some .blockEntry =>
      if loose then place anchor (.sequence tag (← looseItems fuel))
      else missing tag anchor
    | some (.scalar text plain) =>
      skip
      place anchor (.scalar (if tag = some "!" then none else tag) text plain)
    | some .flowSequenceStart =>
      skip
      place anchor (.sequence tag (← flowItems fuel true))
    | some .flowMappingStart =>
      skip
      place anchor (.mapping tag (← flowEntries fuel true))
    | some .blockSequenceStart =>
      if block then
        skip
        place anchor (.sequence tag (← blockItems fuel))
      else missing tag anchor
    | some .blockMappingStart =>
      if block then
        skip
        place anchor (.mapping tag (← blockEntries fuel))
      else missing tag anchor
    | _ => missing tag anchor

/-- A node that consists of its properties only. -/
def missing (tag : Option String) (anchor : Option (Nat × Nat)) : Reader Node := do
  if tag.isNone && anchor.isNone then failure
  place anchor (.scalar tag "" true)

/-- A node, or a missing value before one of `ends`. -/
def nodeOrEmpty (block loose : Bool) (ends : List Token) : (fuel : Nat) → Reader Node
  | 0 => failure
  | fuel + 1 => do
    if ← sees ends then return .empty else node block loose fuel

def blockItems : (fuel : Nat) → Reader (List Node)
  | 0 => failure
  | fuel + 1 => do
    if ← take? .blockEntry then
      let n ← nodeOrEmpty true false [.blockEntry, .blockEnd] fuel
      return n :: (← blockItems fuel)
    expect .blockEnd
    return []

def looseItems : (fuel : Nat) → Reader (List Node)
  | 0 => failure
  | fuel + 1 => do
    if ← take? .blockEntry then
      let n ← nodeOrEmpty true false [.blockEntry, .key, .value, .blockEnd] fuel
      return n :: (← looseItems fuel)
    return []

def blockEntries : (fuel : Nat) → Reader (List (Node × Node))
  | 0 => failure
  | fuel + 1 => do
    if ← take? .key then
      let k ← nodeOrEmpty true true [.key, .value, .blockEnd] fuel
      let v ←
        if ← take? .value then nodeOrEmpty true true [.key, .value, .blockEnd] fuel
        else pure .empty
      return (k, v) :: (← blockEntries fuel)
    expect .blockEnd
    return []

/-- The items of a flow sequence up to its end; an item may be a single entry of
a mapping. -/
def flowItems : (fuel : Nat) → (first : Bool) → Reader (List Node)
  | 0, _ => failure
  | fuel + 1, first => do
    if ← take? .flowSequenceEnd then return []
    if !first then expect .flowEntry
    if ← take? .flowSequenceEnd then return []
    let n ←
      if ← take? .key then
        let k ←
          if ← sees [.value, .flowEntry, .flowSequenceEnd] then
            skip
            pure Node.empty
          else node false false fuel
        let v ←
          if ← take? .value then
            nodeOrEmpty false false [.flowEntry, .flowSequenceEnd] fuel
          else pure .empty
        pure (.mapping none [(k, v)])
      else node false false fuel
    return n :: (← flowItems fuel false)

def flowEntries : (fuel : Nat) → (first : Bool) → Reader (List (Node × Node))
  | 0, _ => failure
  | fuel + 1, first => do
    if ← take? .flowMappingEnd then return []
    if !first then expect .flowEntry
    if ← take? .flowMappingEnd then return []
    let entry ←
      if ← take? .key then
        let k ← nodeOrEmpty false false [.value, .flowEntry, .flowMappingEnd] fuel
        let v ←
          if ← take? .value then
            nodeOrEmpty false false [.flowEntry, .flowMappingEnd] fuel
          else pure .empty
        pure (k, v)
      else
        let k ← node false false fuel
        pure (k, .empty)
    return entry :: (← flowEntries fuel false)

end

/-- The directives before a document: at most one version, which has to be 1.1 or
1.2, and no handle twice. -/
def directives : (fuel : Nat) → (version : Bool) → (handles : List (String × String)) →
    Reader (List (String × String))
  | 0, _, handles => return handles
  | fuel + 1, version, handles => do
    match ← next? with
    | some (.version major minor) =>
      if version || major ≠ 1 || (minor ≠ 1 && minor ≠ 2) then failure
      skip
      directives fuel true handles
    | some (.tagHandle handle lead) =>
      if (handles.lookup handle).isSome then failure
      skip
      directives fuel version ((handle, lead) :: handles)
    | _ => return handles

/-- The single document of a text. -/
def document : Reader Node := do
  let fuel := 4 * (← get).tokens.length + 8
  let start ← next?
  if start.isNone then failure
  let explicit := match start with
    | some (.version ..) | some (.tagHandle ..) | some .documentStart => true
    | _ => false
  if explicit then
    let handles ← directives fuel false []
    modify fun r => { r with
      handles := handles ++ [("!", "!"), ("!!", "tag:yaml.org,2002:")] }
    expect .documentStart
  let bare ← match ← next? with
    | none | some .documentStart | some .documentEnd | some (.version ..)
    | some (.tagHandle ..) => pure explicit
    | _ => pure false
  let root ← if bare then pure Node.empty else node true false fuel
  modify fun r => { r with tokens := r.tokens.dropWhile (· = .documentEnd) }
  if (← next?).isSome then failure
  return root

end Reader

/-- Read a text that holds one document; `none` for any other text. -/
def Document.parse? (text : List Char) : Option Document := do
  let tokens ← Token.scan text
  let (root, r) ← Reader.document.run
    { tokens, handles := [("!", "!"), ("!!", "tag:yaml.org,2002:")] }
  some ⟨root, r.anchored⟩

end VaultSearch.Yaml
