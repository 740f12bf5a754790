import TypedRecord.Json.Token

/-!
# JSON terms and their tokens

A term is written as its tokens without blanks. Reading is a machine over tokens: its state says
which token may follow and holds the containers that are still open, innermost first. Reading the
tokens of one part and then of another is one run, so what a run leaves after the tokens of a term
is the state in which that term is complete.
-/
namespace TypedRecord.Json

namespace Term

mutual

/-- The tokens of a term. -/
def tokens : Term → List Token
  | .null => [.null]
  | .bool truth => [.bool truth]
  | .number numeral => [.number numeral]
  | .string pieces => [.string pieces]
  | .array items => .openArray :: itemTokens items ++ [.closeArray]
  | .object members => .openObject :: memberTokens members ++ [.closeObject]

/-- The tokens of items and of the commas between them. -/
def itemTokens : List Term → List Token
  | [] => []
  | item :: rest => item.tokens ++ laterItemTokens rest

/-- The tokens of items that follow an item. -/
def laterItemTokens : List Term → List Token
  | [] => []
  | item :: rest => .comma :: item.tokens ++ laterItemTokens rest

/-- The tokens of members and of the commas between them. -/
def memberTokens : List (List Piece × Term) → List Token
  | [] => []
  | (key, item) :: rest => .string key :: .colon :: item.tokens ++ laterMemberTokens rest

/-- The tokens of members that follow a member. -/
def laterMemberTokens : List (List Piece × Term) → List Token
  | [] => []
  | (key, item) :: rest =>
    .comma :: .string key :: .colon :: item.tokens ++ laterMemberTokens rest

end

/-- The characters of a term. -/
def chars (term : Term) : List Char := term.tokens.flatMap Token.chars

/-- The text of a term. -/
def render (term : Term) : String := String.ofList term.chars

end Term

namespace Parser

/-- A container that is still open. The items and members before the open place are reversed. -/
inductive Frame where
  /-- An array. -/
  | array (before : List Term)
  /-- An object whose member with a key is being read. -/
  | member (before : List (List Piece × Term)) (key : List Piece)

/-- Which token may follow, with the open containers. -/
inductive State where
  /-- A value has to follow. -/
  | value (frames : List Frame)
  /-- An array was opened: a value or its end follows. -/
  | firstItem (frames : List Frame)
  /-- An object was opened: a key or its end follows. -/
  | firstKey (frames : List Frame)
  /-- Another key has to follow. -/
  | key (frames : List Frame) (before : List (List Piece × Term))
  /-- The colon after a key has to follow. -/
  | colon (frames : List Frame) (before : List (List Piece × Term)) (key : List Piece)
  /-- A value is complete. -/
  | complete (frames : List Frame) (term : Term)

/-- The state after the first token of a value. -/
def open? (frames : List Frame) : Token → Option State
  | .openArray => some (.firstItem frames)
  | .openObject => some (.firstKey frames)
  | .null => some (.complete frames .null)
  | .bool truth => some (.complete frames (.bool truth))
  | .number numeral => some (.complete frames (.number numeral))
  | .string pieces => some (.complete frames (.string pieces))
  | _ => none

/-- The state after a token. -/
def step? : State → Token → Option State
  | .value frames, token => open? frames token
  | .firstItem frames, .closeArray => some (.complete frames (.array []))
  | .firstItem frames, token => open? (.array [] :: frames) token
  | .firstKey frames, .closeObject => some (.complete frames (.object []))
  | .firstKey frames, .string key => some (.colon frames [] key)
  | .key frames before, .string key => some (.colon frames before key)
  | .colon frames before key, .colon => some (.value (.member before key :: frames))
  | .complete (.array before :: frames) term, .comma =>
    some (.value (.array (term :: before) :: frames))
  | .complete (.array before :: frames) term, .closeArray =>
    some (.complete frames (.array (term :: before).reverse))
  | .complete (.member before key :: frames) term, .comma =>
    some (.key frames ((key, term) :: before))
  | .complete (.member before key :: frames) term, .closeObject =>
    some (.complete frames (.object ((key, term) :: before).reverse))
  | _, _ => none

/-- The state after a run of tokens. -/
def run? : State → List Token → Option State
  | state, [] => some state
  | state, token :: rest => match step? state token with
    | some next => run? next rest
    | none => none

end Parser

namespace Term

/-- The term that a run of tokens writes. -/
def ofTokens? (tokens : List Token) : Option Term :=
  match Parser.run? (.value []) tokens with
  | some (.complete [] term) => some term
  | _ => none

/-- The term that a text writes. -/
def parse? (text : String) : Option Term := (Token.ofText? text.toList).bind ofTokens?

end Term

end TypedRecord.Json
