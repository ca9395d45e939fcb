/-
  Patterns of paths.

  * `?` stands for a character, `*` for any number of them, and `[ ]` for one of
    a set, or with `[! ]` for one outside of it.  All of these take slashes too.
  * `**` is a whole component, and stands for any number of components.
  * Everything else stands for itself.

  `Glob.parse?` reads a pattern and `Glob.accepts` compares it with a text.
-/
import StyleServer.Text.Utf8

namespace StyleServer

/-- Characters of a set: those from `low` to `high`. -/
structure CharRange where
  low : Char
  high : Char
deriving DecidableEq

/-- A part of a pattern. -/
inductive GlobToken where
  | literal (c : Char)
  | anyChar
  /-- Any number of characters. -/
  | anyText
  /-- Any number of components, each with the slash behind it. -/
  | anyDepth
  | oneOf (set : List CharRange)
  | noneOf (set : List CharRange)
deriving DecidableEq

/-- A pattern. -/
abbrev Glob := List GlobToken

namespace Glob

/-- The set of characters written between brackets; `a-z` is a range. -/
def setOf : Text → List CharRange
  | low :: '-' :: high :: rest => ⟨low, high⟩ :: setOf rest
  | c :: rest => ⟨c, c⟩ :: setOf rest
  | [] => []

/-- The characters of a set, of which the first may be a bracket, and what follows the
    closing bracket. -/
def brackets? : Text → Option (Text × Text)
  | [] => none
  | c :: rest =>
    match rest.dropWhile (· != ']') with
    | _ :: after => some (c :: rest.takeWhile (· != ']'), after)
    | [] => none

/-- The parts of a pattern of which `atStart` says whether a component begins here;
    `fuel` bounds their number. -/
def parseFrom : Nat → Bool → Text → Option Glob
  | 0, _, _ => none
  | fuel + 1, atStart, text =>
    match text with
    | [] => some []
    | '?' :: rest => (parseFrom fuel false rest).map (.anyChar :: ·)
    | '*' :: '*' :: rest =>
      if atStart then
        match rest with
        | [] => some [.anyDepth]
        | '/' :: more => (parseFrom fuel true more).map (.anyDepth :: ·)
        | _ => none
      else none
    | '*' :: rest => (parseFrom fuel false rest).map (.anyText :: ·)
    | '[' :: '!' :: rest => do
      let (set, more) ← brackets? rest
      return .noneOf (setOf set) :: (← parseFrom fuel false more)
    | '[' :: rest => do
      let (set, more) ← brackets? rest
      return .oneOf (setOf set) :: (← parseFrom fuel false more)
    | c :: rest => (parseFrom fuel (c == '/') rest).map (.literal c :: ·)

/-- The pattern that a text writes; `none` when `**` is not a whole component, or a
    bracket is not closed. -/
def parse? (pattern : Text) : Option Glob := parseFrom (pattern.length + 1) true pattern

/-- A character lies in a set. -/
def inSet (set : List CharRange) (c : Char) : Bool := set.any fun r => r.low ≤ c && c ≤ r.high

/-- A character matches a part that stands for one. -/
def acceptsChar : GlobToken → Char → Bool
  | .literal d, c => c == d
  | .anyChar, _ => true
  | .oneOf set, c => inSet set c
  | .noneOf set, c => !inSet set c
  | .anyText, _ | .anyDepth, _ => false

/-! ## Comparison

A mark belongs to each place of a text, from before the first character to behind the
last, and says that the rest of a pattern matches the rest of the text. -/

/-- The first of some marks. -/
def firstMark (marks : List Bool) : Bool := marks.head?.getD false

/-- The marks of the places from which a marked place follows, or which are marked. -/
def anyMark : List Bool → List Bool
  | [] => []
  | mark :: marks =>
    let rest := anyMark marks
    (mark || firstMark rest) :: rest

/-- The marks of the places from which a marked place follows behind a slash, or at the
    end. -/
def anyMarkAtSlash : Text → List Bool → List Bool
  | [], marks => marks
  | _ :: _, [] => []
  | c :: cs, _ :: marks =>
    let rest := anyMarkAtSlash cs marks
    ((c == '/' && firstMark marks) || firstMark rest) :: rest

/-- The marks of a part, from those of what follows it. -/
def marksBefore (text : Text) (token : GlobToken) (marks : List Bool) : List Bool :=
  match token with
  | .anyText => anyMark marks
  | .anyDepth => marks.zipWith (· || ·) (anyMarkAtSlash text marks)
  | token => text.zipWith (fun c mark => acceptsChar token c && mark) marks.tail ++ [false]

/-- The marks of a pattern. -/
def marks (g : Glob) (text : Text) : List Bool :=
  g.foldr (marksBefore text) (List.replicate text.length false ++ [true])

/-- The pattern matches a whole text. -/
def accepts (g : Glob) (text : Text) : Bool := firstMark (marks g text)

/-- The text that a pattern of nothing but characters stands for. -/
def literal? : Glob → Option Text
  | [] => some []
  | .literal c :: rest => (literal? rest).map (c :: ·)
  | _ :: _ => none

end Glob

/-- A pattern as written matches a text.  One that is malformed matches nothing. -/
def globMatches (pattern : String) (text : Text) : Bool :=
  ((Glob.parse? pattern.toList).map (Glob.accepts · text)).getD false

end StyleServer
