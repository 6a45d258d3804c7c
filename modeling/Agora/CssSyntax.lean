import Mathlib.Data.List.Basic

/-!
# The tokens of CSS

The tokenizer of the CSS syntax rules, as far as it decides what a stylesheet refers to
through `url()`.  An escape belongs to the token around it: it ends neither a name, a
string nor a URL.
-/

namespace CssSyntax

inductive CssToken where
  | space
  | string (value : List Char)
  | badString
  | ident (name : List Char)
  | function (name : List Char)
  | url (value : List Char)
  | badUrl
  | hash (name : List Char)
  | atKeyword (name : List Char)
  | numeric
  | comment
  | delim (c : Char)
  deriving DecidableEq, Repr

/-- Line breaks become line feeds and null characters are replaced. -/
def preprocess : List Char → List Char
  | '\r' :: '\n' :: rest => '\n' :: preprocess rest
  | c :: rest =>
      (if c = '\r' ∨ c = '\x0c' then '\n' else if c = '\x00' then Char.ofNat 0xFFFD else c) ::
        preprocess rest
  | [] => []

/-! ## Characters -/

def isSpace (c : Char) : Bool :=
  c == '\n' || c == '\t' || c == ' '

def isHexDigit (c : Char) : Bool :=
  c.isDigit || ('a' ≤ c && c ≤ 'f') || ('A' ≤ c && c ≤ 'F')

def isNameStart (c : Char) : Bool :=
  c.isAlpha || c == '_' || 0x80 ≤ c.toNat

def isNameChar (c : Char) : Bool :=
  isNameStart c || c.isDigit || c == '-'

def isNonPrintable (c : Char) : Bool :=
  c.toNat ≤ 8 || c.toNat = 0xB || (0xE ≤ c.toNat && c.toNat ≤ 0x1F) || c.toNat = 0x7F

/-- A backslash that is not followed by a line break starts an escape. -/
def startsEscape : List Char → Bool
  | '\\' :: '\n' :: _ => false
  | '\\' :: _ => true
  | _ => false

def startsName : List Char → Bool
  | '-' :: rest => rest.head?.any (fun c => isNameStart c || c == '-') || startsEscape rest
  | c :: rest => isNameStart c || startsEscape (c :: rest)
  | [] => false

def startsUnsigned : List Char → Bool
  | '.' :: rest => rest.head?.any Char.isDigit
  | c :: _ => c.isDigit
  | [] => false

def startsNumber : List Char → Bool
  | '+' :: rest => startsUnsigned rest
  | '-' :: rest => startsUnsigned rest
  | text => startsUnsigned text

/-! ## Consuming -/

def digitValue (c : Char) : ℕ :=
  if c.isDigit then c.toNat - '0'.toNat
  else if 'a' ≤ c ∧ c ≤ 'f' then c.toNat - 'a'.toNat + 10
  else c.toNat - 'A'.toNat + 10

/-- The character of a hexadecimal escape. -/
def escapedCharacter (value : ℕ) : Char :=
  if value = 0 ∨ 0x10FFFF < value ∨ (0xD800 ≤ value ∧ value ≤ 0xDFFF) then Char.ofNat 0xFFFD
  else Char.ofNat value

/-- The text without the space at its start, if there is one. -/
def dropSpace : List Char → List Char
  | c :: rest => if isSpace c then rest else c :: rest
  | [] => []

/-- The escaped character behind a backslash, and the text behind the escape. -/
def consumeEscape : List Char → Char × List Char
  | [] => (Char.ofNat 0xFFFD, [])
  | c :: rest =>
      if isHexDigit c then
        let digits := ((c :: rest).take 6).takeWhile isHexDigit
        (escapedCharacter (digits.foldl (fun value digit => value * 16 + digitValue digit) 0),
          dropSpace ((c :: rest).drop digits.length))
      else (c, rest)

/-- A name and the text behind it; the fuel is used up one by one. -/
def consumeName : ℕ → List Char → List Char × List Char
  | fuel + 1, c :: rest =>
      if isNameChar c then
        let (name, behind) := consumeName fuel rest
        (c :: name, behind)
      else if startsEscape (c :: rest) then
        let (escaped, later) := consumeEscape rest
        let (name, behind) := consumeName fuel later
        (escaped :: name, behind)
      else ([], c :: rest)
  | _, text => ([], text)

/-- The value of a string, if no line break ends it, and the text behind the string. -/
def consumeString (quote : Char) : ℕ → List Char → Option (List Char) × List Char
  | fuel + 1, c :: rest =>
      if c = quote then (some [], rest)
      else if c = '\n' then (none, c :: rest)
      else if c = '\\' then
        match rest with
        | [] => (some [], [])
        | '\n' :: later => consumeString quote fuel later
        | _ =>
            let (escaped, later) := consumeEscape rest
            let (value, behind) := consumeString quote fuel later
            (value.map (escaped :: ·), behind)
      else
        let (value, behind) := consumeString quote fuel rest
        (value.map (c :: ·), behind)
  | _, text => (some [], text)

/-- The text behind a URL that is none. -/
def consumeBadUrl : ℕ → List Char → List Char
  | fuel + 1, c :: rest =>
      if c = ')' then rest
      else if startsEscape (c :: rest) then consumeBadUrl fuel (consumeEscape rest).2
      else consumeBadUrl fuel rest
  | _, text => text

/-- The value of a URL without quotes, if it is one, and the text behind it. -/
def consumeUrl : ℕ → List Char → Option (List Char) × List Char
  | fuel + 1, c :: rest =>
      if c = ')' then (some [], rest)
      else if isSpace c then
        match rest.dropWhile isSpace with
        | [] => (some [], [])
        | ')' :: behind => (some [], behind)
        | later => (none, consumeBadUrl fuel later)
      else if c = '"' ∨ c = '\'' ∨ c = '(' ∨ isNonPrintable c = true then
        (none, consumeBadUrl fuel rest)
      else if c = '\\' then
        if startsEscape (c :: rest) then
          let (escaped, later) := consumeEscape rest
          let (value, behind) := consumeUrl fuel later
          (value.map (escaped :: ·), behind)
        else (none, consumeBadUrl fuel rest)
      else
        let (value, behind) := consumeUrl fuel rest
        (value.map (c :: ·), behind)
  | _, text => (some [], text)

def isUrlName (name : List Char) : Bool :=
  name.map Char.toLower = "url".toList

/-- The token of a name that starts the text, and the text behind the token. -/
def consumeNamed (text : List Char) : CssToken × List Char :=
  match consumeName text.length text with
  | (name, '(' :: rest) =>
      let argument := rest.dropWhile isSpace
      if isUrlName name then
        if argument.head?.any (fun c => c == '"' || c == '\'') then (.function name, rest)
        else
          match consumeUrl argument.length argument with
          | (some value, behind) => (.url value, behind)
          | (none, behind) => (.badUrl, behind)
      else (.function name, rest)
  | (name, rest) => (.ident name, rest)

/-- The text behind the digits of a fraction and of an exponent. -/
def dropExponent (text : List Char) : List Char :=
  let behindSign : List Char → List Char
    | '+' :: rest => rest
    | '-' :: rest => rest
    | rest => rest
  match text with
  | c :: rest =>
      if (c = 'e' ∨ c = 'E') ∧ (behindSign rest).head?.any Char.isDigit = true then
        (behindSign rest).dropWhile Char.isDigit
      else text
  | [] => []

def dropFraction : List Char → List Char
  | '.' :: c :: rest => if c.isDigit then rest.dropWhile Char.isDigit else '.' :: c :: rest
  | text => text

/-- The text behind a number and its unit. -/
def consumeNumeric (text : List Char) : List Char :=
  let unsigned :=
    match text with
    | '+' :: rest => rest
    | '-' :: rest => rest
    | rest => rest
  let behind := dropExponent (dropFraction (unsigned.dropWhile Char.isDigit))
  if startsName behind then (consumeName behind.length behind).2
  else if behind.head? = some '%' then behind.tail
  else behind

/-- The text behind a comment. -/
def dropComment : List Char → List Char
  | '*' :: '/' :: rest => rest
  | _ :: rest => dropComment rest
  | [] => []

/-- The token that a character starts, and the text behind the token. -/
def consumeToken (c : Char) (rest : List Char) : CssToken × List Char :=
  let text := c :: rest
  if c = '/' ∧ rest.head? = some '*' then (.comment, dropComment rest.tail)
  else if isSpace c then (.space, rest.dropWhile isSpace)
  else if c = '"' ∨ c = '\'' then
    match consumeString c rest.length rest with
    | (some value, behind) => (.string value, behind)
    | (none, behind) => (.badString, behind)
  else if c = '#' ∧ (rest.head?.any isNameChar = true ∨ startsEscape rest = true) then
    let (name, behind) := consumeName rest.length rest
    (.hash name, behind)
  else if startsNumber text then (.numeric, consumeNumeric text)
  else if "-->".toList.isPrefixOf text then (.delim c, text.drop 3)
  else if "<!--".toList.isPrefixOf text then (.delim c, text.drop 4)
  else if c = '@' ∧ startsName rest = true then
    let (name, behind) := consumeName rest.length rest
    (.atKeyword name, behind)
  else if startsName text then consumeNamed text
  else (.delim c, rest)

/-- The tokens of a text; the fuel is used up one by one. -/
def tokensFrom : ℕ → List Char → List CssToken
  | fuel + 1, c :: rest =>
      let (token, behind) := consumeToken c rest
      token :: tokensFrom fuel behind
  | _, _ => []

def tokens (text : List Char) : List CssToken :=
  tokensFrom (preprocess text).length (preprocess text)

/-! ## References -/

/-- The string that is the first argument of a function. -/
def stringArgument (arguments : List CssToken) : Option (List Char) :=
  match arguments.dropWhile (· = .space) with
  | .string value :: _ => some value
  | _ => none

/-- The targets of the URL tokens and of the URL functions. -/
def urlTargets : List CssToken → List (List Char)
  | [] => []
  | .url value :: rest => value :: urlTargets rest
  | .function name :: rest =>
      (if isUrlName name then (stringArgument rest).toList else []) ++ urlTargets rest
  | _ :: rest => urlTargets rest

/-! ## Places -/

/-- The texts that the tokens of a text start; the fuel is used up one by one. -/
def tokenStarts : ℕ → List Char → List (List Char)
  | fuel + 1, c :: rest => (c :: rest) :: tokenStarts fuel (consumeToken c rest).2
  | _, _ => []

/-- The text behind the parenthesis of a URL and behind the space after it. -/
def urlArgument (text : List Char) : List Char :=
  ((consumeName text.length text).2.drop 1).dropWhile isSpace

def isQuoted (argument : List Char) : Bool :=
  argument.head?.any fun c => c == '"' || c == '\''

/-- The string in quotes at the start of a text, and the text behind it. -/
def quotedString : List Char → Option (List Char) × List Char
  | quote :: later => consumeString quote later.length later
  | [] => (none, [])

/-- The target of the URL token or of the URL function that starts a text. -/
def urlAt : List Char → Option (List Char)
  | [] => none
  | c :: rest =>
      match (consumeToken c rest).1 with
      | .url value => some value
      | .function name =>
          if isUrlName name then (quotedString (urlArgument (c :: rest))).1 else none
      | _ => none

/-- A parenthesis that is not escaped closes a URL without quotes. -/
def closesUrl : ℕ → List Char → Bool
  | fuel + 1, c :: rest =>
      if c = ')' then true
      else if startsEscape (c :: rest) then closesUrl fuel (consumeEscape rest).2
      else closesUrl fuel rest
  | _, _ => false

/-- The URL that starts a text is closed: without quotes by a parenthesis, in quotes by the
quote and, behind nothing but space, a parenthesis. -/
def closedUrl (text : List Char) : Bool :=
  let argument := urlArgument text
  if isQuoted argument then ((quotedString argument).2.dropWhile isSpace).head? = some ')'
  else closesUrl argument.length argument

end CssSyntax
