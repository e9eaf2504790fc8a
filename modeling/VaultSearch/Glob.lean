/-!
# Path patterns

A pattern matches a whole path. `?` stands for one character, `*` for
any characters, `[…]` and `[!…]` for one character inside or outside a
set, and `**`, which has to be a whole path component, for any number of
components. `Glob.parse?` refuses text that is no pattern.
-/

namespace VaultSearch

/-- A member of a bracket set. -/
inductive CharSpec where
  | one (c : Char)
  | range (first last : Char)
  deriving Repr, DecidableEq

def CharSpec.holds (c : Char) : CharSpec → Bool
  | one d => c = d
  | range first last => first ≤ c && c ≤ last

/-- The members of a bracket set, where `a-z` is a range. -/
def CharSpec.parse : List Char → List CharSpec
  | a :: '-' :: b :: rest => .range a b :: CharSpec.parse rest
  | a :: rest => .one a :: CharSpec.parse rest
  | [] => []

inductive GlobToken where
  | char (c : Char)
  | anyChar
  | anyText
  | anyFolders
  | within (specs : List CharSpec)
  | except (specs : List CharSpec)
  deriving Repr, DecidableEq

/-- A well-formed pattern. -/
abbrev Glob := List GlobToken

namespace Glob

/-- The body of a bracket set that begins at `cs`, and what follows its closing
bracket. The first character belongs to the set whatever it is. -/
def bracket? : List Char → Option (List Char × List Char)
  | [] => none
  | c :: cs =>
    match cs.span (· ≠ ']') with
    | (_, []) => none
    | (more, _ :: rest) => some (c :: more, rest)

/-- Whether a `**` may begin after the tokens read so far, last one first, given
the character before it. -/
def startsComponent (before : Option Char) : Bool := before = none || before = some '/'

/-- Read a pattern. `before` is the character before `cs`, and `done` holds the
tokens read so far, last one first; `fuel` bounds the characters left. -/
def parseFrom : (fuel : Nat) → (before : Option Char) → (done : List GlobToken) →
    List Char → Option Glob
  | 0, _, done, _ => some done.reverse
  | _ + 1, _, done, [] => some done.reverse
  | fuel + 1, before, done, c :: cs =>
    match c with
    | '?' => parseFrom fuel c (.anyChar :: done) cs
    | '*' =>
      match cs with
      | '*' :: '*' :: _ => none
      | '*' :: rest =>
        if !startsComponent before then none
        else
          let done' := match done with
            | .anyFolders :: _ :: _ => done
            | _ => .anyFolders :: done
          match rest with
          | [] => some done'.reverse
          | '/' :: rest => parseFrom fuel (some '/') done' rest
          | _ => none
      | _ => parseFrom fuel c (.anyText :: done) cs
    | '[' =>
      match cs with
      | '!' :: rest =>
        (bracket? rest).bind fun (body, rest) =>
          parseFrom fuel (some ']') (.except (CharSpec.parse body) :: done) rest
      | _ =>
        (bracket? cs).bind fun (body, rest) =>
          parseFrom fuel (some ']') (.within (CharSpec.parse body) :: done) rest
    | _ => parseFrom fuel c (.char c :: done) cs

/-- Read a pattern; `none` for text that is no pattern. -/
def parse? (raw : String) : Option Glob :=
  parseFrom raw.toList.length none [] raw.toList

/-- The rests of a path that `**` can leave: the path itself, what follows each
of its separators, and nothing. -/
def folderRests : List Char → List (List Char)
  | cs => cs :: after cs
where
  after : List Char → List (List Char)
    | [] => [[]]
    | c :: cs => if c = '/' then cs :: after cs else after cs

/-- The rests of a text that `*` can leave. -/
def textRests : List Char → List (List Char)
  | [] => [[]]
  | c :: cs => (c :: cs) :: textRests cs

/-- Whether the pattern matches the whole of a path. -/
def matchesChars : Glob → List Char → Bool
  | [], cs => cs.isEmpty
  | .anyText :: g, cs => (textRests cs).any (matchesChars g)
  | .anyFolders :: g, cs => (folderRests cs).any (matchesChars g)
  | .char d :: g, c :: cs => c = d && matchesChars g cs
  | .anyChar :: g, _ :: cs => matchesChars g cs
  | .within specs :: g, c :: cs => specs.any (·.holds c) && matchesChars g cs
  | .except specs :: g, c :: cs => !specs.any (·.holds c) && matchesChars g cs
  | _ :: _, [] => false

/-- Whether the pattern matches the whole of a path. -/
def accepts (g : Glob) (path : String) : Bool := matchesChars g path.toList

end Glob

end VaultSearch
