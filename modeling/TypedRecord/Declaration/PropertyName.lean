import TypedRecord.Declaration.LetterCase

/-!
# Property names

A field without a name of its own gets one from its identifier: the words of the identifier, each
capitalised, put together. Words end at separators and wherever letters change between small and
capital, next to a digit, and before the last capital of an acronym that a small letter follows.
-/
namespace TypedRecord.PropertyName

open LetterCase (isUpper isLower)

/-- Whether a character stands between words. -/
def isSeparator (c : Char) : Bool := c == '_' || c == '-' || c == ' '

/-- Whether a word ends between two characters, by the characters after them. -/
def isBoundary (c next : Char) (after : List Char) : Bool :=
  isLower c && (isUpper next || next.isDigit) ||
  isUpper c && next.isDigit ||
  c.isDigit && (isLower next || isUpper next) ||
  isUpper c && isUpper next && match after with
    | [] => false
    | third :: _ => isLower third

/-- The first word of characters and the words after it; words may be empty. -/
def split : List Char → List Char × List (List Char)
  | [] => ([], [])
  | c :: rest =>
    let (word, words) := split rest
    if isSeparator c then ([], word :: words)
    else match rest with
      | [] => ([c], [])
      | next :: after =>
        if isBoundary c next after then ([c], word :: words) else (c :: word, words)

/-- A word with its first letter capital and the others small. -/
def capitalise : List Char → List Char
  | [] => []
  | c :: rest => LetterCase.upper c ++ LetterCase.lowerAll rest

/-- Characters without the marks of a raw identifier in front. -/
def stripRaw : List Char → List Char
  | 'r' :: '#' :: rest => stripRaw rest
  | chars => chars

/-- The property name of an identifier. -/
def ofIdentifier (ident : String) : String :=
  let (word, words) := split (stripRaw ident.toList)
  String.ofList ((word :: words).flatMap capitalise)

end TypedRecord.PropertyName
