import Mathlib.Data.List.Basic

/-!
# Patterns over text

Backtracking patterns: a pattern has, at a position of a text, the list of positions where
its matches end, in the order in which a backtracking matcher tries them.  The first one is
the match.  What counts as a character of a word is a parameter of every operation.
-/

/-- A place in a text: the text before it, the last character first, the text after it, and
the groups that matched on the way to it. -/
structure TextPosition where
  before : List Char
  after : List Char
  groups : List (ℕ × List Char)
  deriving DecidableEq, Repr

inductive TextPattern where
  /-- No text. -/
  | nothing
  /-- One character. -/
  | one (accepts : Char → Bool)
  /-- A run of characters, the longest first. -/
  | many (accepts : Char → Bool)
  | both (first second : TextPattern)
  | either (first second : TextPattern)
  | group (index : ℕ) (body : TextPattern)
  /-- The text of a group again. -/
  | again (index : ℕ)
  /-- Between a character of a word and one that is none. -/
  | wordEdge
  | textStart
  /-- At the end of the text, or before the line feed that ends it. -/
  | textEnd

namespace TextPosition

def start (text : List Char) : TextPosition :=
  ⟨[], text, []⟩

/-- The position behind the next character. -/
def next (position : TextPosition) : Option TextPosition :=
  match position.after with
  | [] => none
  | c :: rest => some { position with before := c :: position.before, after := rest }

/-- The text from the position to a later one. -/
def textTo (position later : TextPosition) : List Char :=
  position.after.take (position.after.length - later.after.length)

def group (position : TextPosition) (index : ℕ) : List Char :=
  ((position.groups.find? fun found => found.1 = index).map Prod.snd).getD []

/-- The ends of a run of accepted characters, the longest run first. -/
@[grind =] def runEnds (accepts : Char → Bool) (groups : List (ℕ × List Char)) :
    List Char → List Char → List TextPosition
  | before, [] => [⟨before, [], groups⟩]
  | before, c :: rest =>
      if accepts c then runEnds accepts groups (c :: before) rest ++ [⟨before, c :: rest, groups⟩]
      else [⟨before, c :: rest, groups⟩]

/-- The position behind the given text, if it is the text after the position. -/
def behind (position : TextPosition) : List Char → Option TextPosition
  | [] => some position
  | c :: rest =>
      match position.after with
      | [] => none
      | found :: after =>
          if found = c then
            behind { position with before := found :: position.before, after := after } rest
          else none

end TextPosition

namespace TextPattern

/-- A text, each of whose characters is accepted for the one of the pattern. -/
def text (same : Char → Char → Bool) : List Char → TextPattern
  | [] => .nothing
  | c :: rest => .both (.one (same c)) (text same rest)

def all : List TextPattern → TextPattern
  | [] => .nothing
  | [only] => only
  | first :: rest => .both first (all rest)

def any : List TextPattern → TextPattern
  | [] => .one fun _ => false
  | [only] => only
  | first :: rest => .either first (any rest)

def maybe (body : TextPattern) : TextPattern :=
  .either body .nothing

/-- The ends of the matches at a position. -/
@[grind =] def ends (isWord : Char → Bool) : TextPattern → TextPosition → List TextPosition
  | .nothing, position => [position]
  | .one accepts, position =>
      match position.after with
      | [] => []
      | c :: rest =>
          if accepts c then [{ position with before := c :: position.before, after := rest }]
          else []
  | .many accepts, position =>
      TextPosition.runEnds accepts position.groups position.before position.after
  | .both first second, position => (first.ends isWord position).flatMap (second.ends isWord)
  | .either first second, position => first.ends isWord position ++ second.ends isWord position
  | .group index body, position =>
      (body.ends isWord position).map fun found =>
        { found with groups := (index, position.textTo found) :: found.groups }
  | .again index, position => (position.behind (position.group index)).toList
  | .wordEdge, position =>
      if (position.before.head?.any isWord) != (position.after.head?.any isWord) then [position]
      else []
  | .textStart, position => if position.before.isEmpty then [position] else []
  | .textEnd, position =>
      if position.after.isEmpty || position.after == ['\n'] then [position] else []

/-- The end of the match at a position. -/
def matchAt (isWord : Char → Bool) (pattern : TextPattern) (position : TextPosition) :
    Option TextPosition :=
  (pattern.ends isWord position).head?

/-- A match of a pattern, from its start to its end. -/
structure Found where
  start : TextPosition
  stop : TextPosition
  deriving DecidableEq, Repr

/-- The matches that do not overlap, from left to right; the fuel is used up one by one. -/
def findFrom (isWord : Char → Bool) (pattern : TextPattern) : ℕ → TextPosition → List Found
  | 0, _ => []
  | fuel + 1, position =>
      match pattern.matchAt isWord position with
      | none =>
          match position.next with
          | none => []
          | some later => findFrom isWord pattern fuel later
      | some stop =>
          let resumed :=
            if stop.after.length < position.after.length then some stop else position.next
          ⟨position, stop⟩ ::
            match resumed with
            | none => []
            | some later => findFrom isWord pattern fuel { later with groups := [] }

def findAll (isWord : Char → Bool) (pattern : TextPattern) (text : List Char) : List Found :=
  pattern.findFrom isWord (text.length + 1) (.start text)

def occursIn (isWord : Char → Bool) (pattern : TextPattern) (text : List Char) : Bool :=
  !(pattern.findAll isWord text).isEmpty

/-! ## Letters of either case -/

/-- The further characters that match an ASCII letter when the case is ignored: both forms of
the dotted and the dotless i, the long s and the Kelvin sign. -/
def foreignVariants (lower : Char) : List Char :=
  if lower = 'i' then [Char.ofNat 0x130, Char.ofNat 0x131]
  else if lower = 's' then [Char.ofNat 0x17F]
  else if lower = 'k' then [Char.ofNat 0x212A]
  else []

/-- The characters that match an ASCII character when the case is ignored. -/
def caseVariants (c : Char) : List Char :=
  c.toLower :: c.toUpper :: foreignVariants c.toLower

def sameIgnoringCase (expected c : Char) : Bool :=
  (caseVariants expected).contains c

/-- A class of ASCII characters when the case is ignored. -/
def classIgnoringCase (accepts : Char → Bool) (c : Char) : Bool :=
  accepts c || accepts c.toLower || accepts c.toUpper ||
    (['i', 's', 'k'].any fun letter =>
      (foreignVariants letter).contains c && (accepts letter || accepts letter.toUpper))

end TextPattern
