import VaultSearch.VaultFolder

/-!
# File trees with symbolic links

A `LinkedTree` is a file tree and the symbolic links that lie among its
files and folders, each by its location and the path that it stands for.
What is looked up at a path follows the links on its way, one at its end
included, `maxLinks` of them at most. What is listed below a path does
not: a link in a folder is neither a file nor a folder that is entered.
A renaming follows the links on the way of a path but moves one at its
end.
-/

namespace VaultSearch

structure LinkedTree where
  tree : FileTree := {}
  /-- The path that the link at a location stands for. -/
  links : Std.TreeMap Location String := {}

namespace LinkedTree

open VaultSearch.Path (Part)

/-! ## Looking -/

/-- How many links are followed on the way of one path. -/
def maxLinks : Nat := 40

/-- Where the components of a path lead without following a link. -/
inductive Reach where
  | there (at_ : Location)
  /-- A link comes first: the folder in which it lies, the path that it stands for and the
  components that are left. -/
  | link (folder : Location) (path : String) (rest : List (List Char))
  deriving Repr, DecidableEq

def reach (s : LinkedTree) (at_ : Location) : List (List Char) → Except FileProblem Reach
  | [] => .ok (.there at_)
  | piece :: rest => do
      let next ← s.tree.follow at_ piece
      match s.links[next]? with
      | some path => .ok (.link at_ path rest)
      | none => s.reach next rest

/-- Where the components of a path lead, through so many links at most. -/
def walk (s : LinkedTree) : Nat → Location → List (List Char) → Except FileProblem Location
  | 0, at_, pieces => do
      match ← s.reach at_ pieces with
      | .there l => .ok l
      | .link .. => .error .tooManyLinks
  | left + 1, at_, pieces => do
      match ← s.reach at_ pieces with
      | .there l => .ok l
      | .link folder path rest =>
          s.walk left (if Path.isAbsolute path then [] else folder) (Path.pieces path ++ rest)

/-- The location of a path, where something may lie or not. -/
def locate (s : LinkedTree) (path : String) : Except FileProblem Location :=
  if path.isEmpty then .error .missing
  else s.walk maxLinks (s.tree.startOf path) (Path.pieces path)

/-- What lies at a path. -/
def lookup? (s : LinkedTree) (path : String) : Option FileNode :=
  (s.locate path).toOption.bind s.tree.entryAt?

instance : FileSystem LinkedTree where
  isFile s path :=
    match s.lookup? path with
    | some (.file _) => true
    | _ => false
  exists? s path := (s.lookup? path).isSome
  read s path := do s.tree.readAt (← s.locate path)
  filesBelow s path :=
    match s.locate path with
    | .error _ => []
    | .ok at_ => s.tree.filesUnder at_

/-! ## Renaming -/

/-- The location of a path given by its components, the last one first, where a link may lie. A
last one that counts for nothing stands for a folder. -/
def placeOf (s : LinkedTree) (start : Location) : List (List Char) → Option Location
  | [] => some start
  | last :: front =>
      match Part.ofPiece? last with
      | none => (s.placeOf start front).filter s.tree.isFolderAt
      | some _ => do
          let folder ← (s.walk maxLinks start front.reverse).toOption
          (s.tree.follow folder last).toOption

/-- The location that a path names, where a link may lie. -/
def place? (s : LinkedTree) (path : String) : Option Location :=
  if path.isEmpty then none else s.placeOf (s.tree.startOf path) (Path.pieces path).reverse

/-- Where a link lies after what lay at `a` was moved to `b`; `none` if it was replaced. -/
def movedTo? (a b l : Location) : Option Location :=
  match a.isPrefixOf? l with
  | some way => some (b ++ way)
  | none => if l = b then none else some l

/-- Move what lies at `a` to `b`, with the links that lie below. A link is replaced like a
file, and a folder with a link in it is not empty. -/
def move? (s : LinkedTree) (a b : Location) : Option LinkedTree :=
  let links := Std.TreeMap.ofList <|
    s.links.toList.filterMap fun (l, path) => (movedTo? a b l).map (·, path)
  let inTheWay (l : Location) : Bool :=
    if l = b then s.tree.isFolderAt a else b.isPrefixOf l
  if s.links.contains a then
    if s.tree.isFolderAt b then none else some ⟨s.tree.cut b, links⟩
  else if a != b && s.links.keys.any inTheWay then none
  else (s.tree.move? a b).map (⟨·, links⟩)

/-- Move a link, a file or a folder. -/
def rename? (s : LinkedTree) (source target : String) : Option LinkedTree := do
  s.move? (← s.place? source) (← s.place? target)

end LinkedTree

end VaultSearch
