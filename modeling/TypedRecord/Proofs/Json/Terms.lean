import TypedRecord.Proofs.Entries
import TypedRecord.Proofs.Json.Tokens

/-!
# Terms from their texts

The text of a term is cut into its tokens, and the tokens of a term take the reader from any place
that wants a value to the state in which the term is complete there. So a term is read back from its
text.
-/
namespace TypedRecord.Json

namespace Term

/-- An item is smaller than its array. -/
theorem sizeOf_item_lt {items : List Term} {item : Term} (member : item ∈ items) :
    sizeOf item < sizeOf (Term.array items) := by
  have smaller := List.sizeOf_lt_of_mem member
  rw [Term.array.sizeOf_spec]
  omega

/-- The term of a member is smaller than its object. -/
theorem sizeOf_member_lt {members : List (List Piece × Term)} {entry : List Piece × Term}
    (member : entry ∈ members) : sizeOf entry.2 < sizeOf (Term.object members) := by
  have smaller := Entries.sizeOf_snd_lt member
  rw [Term.object.sizeOf_spec]
  omega

/-- Induction over a term, with the claim for every item of an array and every member of an
object. -/
@[elab_as_elim] theorem induction {motive : Term → Prop} (null : motive .null)
    (bool : ∀ truth, motive (.bool truth)) (number : ∀ numeral, motive (.number numeral))
    (string : ∀ pieces, motive (.string pieces))
    (array : ∀ items, (∀ item ∈ items, motive item) → motive (.array items))
    (object : ∀ members : List (List Piece × Term),
      (∀ member ∈ members, motive member.2) → motive (.object members))
    (term : Term) : motive term :=
  match term with
  | .null => null
  | .bool truth => bool truth
  | .number numeral => number numeral
  | .string pieces => string pieces
  | .array items => array items fun item _ =>
    induction null bool number string array object item
  | .object members => object members fun member _ =>
    induction null bool number string array object member.2
termination_by sizeOf term
decreasing_by
  · next member => exact sizeOf_item_lt member
  · next member => exact sizeOf_member_lt member

mutual

/-- Whether every string of a term is written as what it is read from. -/
def Written : Term → Prop
  | .string pieces => ∀ piece ∈ pieces, piece.Written
  | .array items => WrittenItems items
  | .object members => WrittenMembers members
  | _ => True

/-- Whether every string of a list of items is written as what it is read from. -/
def WrittenItems : List Term → Prop
  | [] => True
  | item :: rest => item.Written ∧ WrittenItems rest

/-- Whether every string of a list of members is written as what it is read from. -/
def WrittenMembers : List (List Piece × Term) → Prop
  | [] => True
  | (key, item) :: rest =>
    (∀ piece ∈ key, piece.Written) ∧ item.Written ∧ WrittenMembers rest

end

/-- A list of written items. -/
theorem writtenItems_iff {items : List Term} :
    WrittenItems items ↔ ∀ item ∈ items, item.Written := by
  induction items with
  | nil => simp [WrittenItems]
  | cons item rest ih => simp [WrittenItems, ih]

/-- A list of written members. -/
theorem writtenMembers_iff {members : List (List Piece × Term)} :
    WrittenMembers members ↔ ∀ member ∈ members,
      (∀ piece ∈ member.1, piece.Written) ∧ member.2.Written := by
  induction members with
  | nil => simp [WrittenMembers]
  | cons member rest ih => simp [WrittenMembers, ih, and_assoc]

end Term

namespace Token

/-- Whether tokens in front of a text are cut off as they are. -/
def Cut (tokens : List Token) (rest : List Char) : Prop :=
  ofText? (tokens.flatMap chars ++ rest) = (ofText? rest).map (tokens ++ ·)

/-- No tokens are cut off. -/
theorem cut_nil (rest : List Char) : Cut [] rest := by
  rw [Cut, List.flatMap_nil, List.nil_append]
  simp

/-- A token is cut off in front of tokens that are. -/
theorem Cut.cons {token : Token} {tokens : List Token} {rest : List Char} (written : token.Written)
    (ends : ∀ numeral, token = .number numeral → EndsNumeral (tokens.flatMap chars ++ rest))
    (cut : Cut tokens rest) : Cut (token :: tokens) rest := by
  rw [Cut, List.flatMap_cons, List.append_assoc, ofText?_chars written ends, cut, Option.map_map]
  rfl

/-- Tokens are cut off in front of tokens that are. -/
theorem Cut.append {first second : List Token} {rest : List Char}
    (before : Cut first (second.flatMap chars ++ rest)) (after : Cut second rest) :
    Cut (first ++ second) rest := by
  rw [Cut, List.flatMap_append, List.append_assoc, before, after, Option.map_map]
  congr 1
  funext tokens
  rw [Function.comp_apply, List.append_assoc]

end Token

namespace Term

open Token

/-- A token that is no number is cut off in front of tokens that are. -/
theorem cut_sign {token : Token} {tokens : List Token} {rest : List Char}
    (sign : ∀ numeral, token ≠ .number numeral) (written : token.Written) (cut : Cut tokens rest) :
    Cut (token :: tokens) rest :=
  cut.cons written fun numeral same => absurd same (sign numeral)

/-- What follows an item of an array ends a number. -/
theorem endsNumeral_laterItems (items : List Term) (rest : List Char) :
    EndsNumeral ((laterItemTokens items ++ [Token.closeArray]).flatMap Token.chars ++ rest) := by
  cases items with
  | nil => exact @endsNumeral_cons ']' (by decide) _
  | cons item later => exact @endsNumeral_cons ',' (by decide) _

/-- What follows a member of an object ends a number. -/
theorem endsNumeral_laterMembers (members : List (List Piece × Term)) (rest : List Char) :
    EndsNumeral
      ((laterMemberTokens members ++ [Token.closeObject]).flatMap Token.chars ++ rest) := by
  cases members with
  | nil => exact @endsNumeral_cons '\x7d' (by decide) _
  | cons member later => exact @endsNumeral_cons ',' (by decide) _

/-- The tokens of an item and of what follows it are cut off. -/
theorem cut_item {item : Term} {later : List Term} {rest : List Char}
    (first : ∀ rest, EndsNumeral rest → Cut item.tokens rest)
    (after : Cut (laterItemTokens later ++ [.closeArray]) rest) :
    Cut (item.tokens ++ laterItemTokens later ++ [.closeArray]) rest := by
  -- The sign behind the item ends it, even where the item is a number.
  rw [List.append_assoc]
  exact (first _ (endsNumeral_laterItems later rest)).append after

/-- The tokens of later items are cut off with the end of their array. -/
theorem cut_laterItems {items : List Term}
    (each : ∀ item ∈ items, ∀ rest, EndsNumeral rest → Cut item.tokens rest) (rest : List Char) :
    Cut (laterItemTokens items ++ [.closeArray]) rest := by
  induction items with
  | nil => exact cut_sign (by simp) trivial (cut_nil rest)
  | cons item later ih =>
    obtain ⟨first, others⟩ := List.forall_mem_cons.mp each
    exact cut_sign (by simp) trivial (cut_item first (ih others))

/-- The tokens of items are cut off with the end of their array. -/
theorem cut_items {items : List Term}
    (each : ∀ item ∈ items, ∀ rest, EndsNumeral rest → Cut item.tokens rest) (rest : List Char) :
    Cut (itemTokens items ++ [.closeArray]) rest := by
  cases items with
  | nil => exact cut_sign (by simp) trivial (cut_nil rest)
  | cons item later =>
    obtain ⟨first, others⟩ := List.forall_mem_cons.mp each
    exact cut_item first (cut_laterItems others rest)

/-- The tokens of a member and of what follows it are cut off. -/
theorem cut_member {key : List Piece} {item : Term} {later : List (List Piece × Term)}
    {rest : List Char} (written : ∀ piece ∈ key, piece.Written)
    (first : ∀ rest, EndsNumeral rest → Cut item.tokens rest)
    (after : Cut (laterMemberTokens later ++ [.closeObject]) rest) :
    Cut (.string key :: .colon :: item.tokens ++ laterMemberTokens later ++ [.closeObject])
      rest := by
  rw [List.append_assoc]
  have member := (first _ (endsNumeral_laterMembers later rest)).append after
  exact cut_sign (by simp) written (cut_sign (by simp) trivial member)

/-- The tokens of later members are cut off with the end of their object. -/
theorem cut_laterMembers {members : List (List Piece × Term)}
    (each : ∀ member ∈ members, (∀ piece ∈ member.1, piece.Written) ∧
      ∀ rest, EndsNumeral rest → Cut member.2.tokens rest)
    (rest : List Char) : Cut (laterMemberTokens members ++ [.closeObject]) rest := by
  induction members with
  | nil => exact cut_sign (by simp) trivial (cut_nil rest)
  | cons member later ih =>
    obtain ⟨⟨written, first⟩, others⟩ := List.forall_mem_cons.mp each
    exact cut_sign (by simp) trivial (cut_member written first (ih others))

/-- The tokens of members are cut off with the end of their object. -/
theorem cut_members {members : List (List Piece × Term)}
    (each : ∀ member ∈ members, (∀ piece ∈ member.1, piece.Written) ∧
      ∀ rest, EndsNumeral rest → Cut member.2.tokens rest)
    (rest : List Char) : Cut (memberTokens members ++ [.closeObject]) rest := by
  cases members with
  | nil => exact cut_sign (by simp) trivial (cut_nil rest)
  | cons member later =>
    obtain ⟨⟨written, first⟩, others⟩ := List.forall_mem_cons.mp each
    exact cut_member written first (cut_laterMembers others rest)

/-- The tokens of a written term are cut off its text. -/
theorem cut_tokens {term : Term} (written : term.Written) {rest : List Char}
    (ends : EndsNumeral rest) : Cut term.tokens rest := by
  induction term using Term.induction generalizing rest with
  | null | bool _ => exact cut_sign (by simp) trivial (cut_nil rest)
  | number numeral => exact (cut_nil rest).cons trivial fun _ _ => ends
  | string pieces => exact cut_sign (by simp) written (cut_nil rest)
  | array items ih =>
    have inner := writtenItems_iff.mp written
    have items := cut_items (fun item member rest => ih item member (inner item member)) rest
    exact cut_sign (by simp) trivial items
  | object members ih =>
    have inner := writtenMembers_iff.mp written
    have members := cut_members (fun entry member =>
      ⟨(inner entry member).1, fun rest => ih entry member (inner entry member).2⟩) rest
    exact cut_sign (by simp) trivial members

end Term

namespace Parser

/-- An array that was just opened takes a value like any other place for an item. -/
theorem run?_firstItem (term : Term) (frames : List Frame) (rest : List Token) :
    run? (.firstItem frames) (term.tokens ++ rest) =
      run? (.value (.array [] :: frames)) (term.tokens ++ rest) := by
  cases term <;> rfl

/-- The tokens of later items complete their array. -/
theorem run?_laterItems {items : List Term}
    (each : ∀ item ∈ items, ∀ frames rest,
      run? (.value frames) (item.tokens ++ rest) = run? (.complete frames item) rest)
    (before : List Term) (term : Term) (frames : List Frame) (rest : List Token) :
    run? (.complete (.array before :: frames) term)
        (Term.laterItemTokens items ++ .closeArray :: rest) =
      run? (.complete frames (.array ((term :: before).reverse ++ items))) rest := by
  -- The reader keeps the items before this one in reverse, so the claim is for all of them.
  induction items generalizing before term with
  | nil =>
    rw [List.append_nil]
    rfl
  | cons item later ih =>
    obtain ⟨first, others⟩ := List.forall_mem_cons.mp each
    have next := first (.array (term :: before) :: frames)
      (Term.laterItemTokens later ++ .closeArray :: rest)
    rw [ih others, List.reverse_cons, List.append_assoc, List.singleton_append] at next
    rw [← next, ← List.append_assoc]
    rfl

/-- The tokens of later members complete their object. -/
theorem run?_laterMembers {members : List (List Piece × Term)}
    (each : ∀ member ∈ members, ∀ frames rest,
      run? (.value frames) (member.2.tokens ++ rest) = run? (.complete frames member.2) rest)
    (before : List (List Piece × Term)) (key : List Piece) (term : Term) (frames : List Frame)
    (rest : List Token) :
    run? (.complete (.member before key :: frames) term)
        (Term.laterMemberTokens members ++ .closeObject :: rest) =
      run? (.complete frames (.object (((key, term) :: before).reverse ++ members))) rest := by
  induction members generalizing before key term with
  | nil =>
    rw [List.append_nil]
    rfl
  | cons member later ih =>
    obtain ⟨nextKey, item⟩ := member
    obtain ⟨first, others⟩ := List.forall_mem_cons.mp each
    have next := first (.member ((key, term) :: before) nextKey :: frames)
      (Term.laterMemberTokens later ++ .closeObject :: rest)
    rw [ih others, List.reverse_cons, List.append_assoc, List.singleton_append] at next
    rw [← next, ← List.append_assoc]
    rfl

/-- The tokens of a term complete it in any place that wants a value. -/
theorem run?_tokens (term : Term) (frames : List Frame) (rest : List Token) :
    run? (.value frames) (term.tokens ++ rest) = run? (.complete frames term) rest := by
  induction term using Term.induction generalizing frames rest with
  | null | bool _ | number _ | string _ => rfl
  | array items ih =>
    -- The first item stands in a place of its own, where the array may also end.
    have opening : run? (.value frames) ((Term.array items).tokens ++ rest) =
        run? (.firstItem frames) (Term.itemTokens items ++ .closeArray :: rest) := by
      rw [Term.tokens, List.cons_append, List.cons_append, List.append_assoc]
      rfl
    rw [opening]
    cases items with
    | nil => rfl
    | cons item later =>
      obtain ⟨first, others⟩ := List.forall_mem_cons.mp ih
      rw [Term.itemTokens, List.append_assoc, run?_firstItem, first, run?_laterItems others]
      rfl
  | object members ih =>
    have opening : run? (.value frames) ((Term.object members).tokens ++ rest) =
        run? (.firstKey frames) (Term.memberTokens members ++ .closeObject :: rest) := by
      rw [Term.tokens, List.cons_append, List.cons_append, List.append_assoc]
      rfl
    rw [opening]
    cases members with
    | nil => rfl
    | cons member later =>
      obtain ⟨key, item⟩ := member
      have keyed : run? (.firstKey frames)
          (Term.memberTokens ((key, item) :: later) ++ .closeObject :: rest) =
            run? (.value (.member [] key :: frames))
              (item.tokens ++ (Term.laterMemberTokens later ++ .closeObject :: rest)) := by
        rw [← List.append_assoc]
        rfl
      obtain ⟨first, others⟩ := List.forall_mem_cons.mp ih
      rw [keyed, first, run?_laterMembers others]
      rfl

end Parser

namespace Term

/-- A written term is read back from its text. -/
theorem parse?_render {term : Term} (written : term.Written) : parse? term.render = some term := by
  have cut := cut_tokens written Token.endsNumeral_nil
  have tokens : Token.ofText? term.chars = some term.tokens := by
    have nothing : Token.ofText? [] = some [] := by rw [Token.ofText?]
    rwa [Token.Cut, nothing, Option.map_some, List.append_nil, List.append_nil] at cut
  have ran := Parser.run?_tokens term [] []
  rw [List.append_nil] at ran
  rw [parse?, render, String.toList_ofList, tokens, Option.bind_some, ofTokens?, ran]
  rfl

end Term

end TypedRecord.Json
