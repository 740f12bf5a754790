/-!
# Entries

A map from text keys is the list of its entries in strictly ascending order of the keys, so two maps
with the same look-ups are the same list. Keys are compared by code points, which is also the order
of their UTF-8 bytes. Insertion passes once over the list and replaces on a match, so its look-up
laws hold of every list, sorted or not.
-/
namespace TypedRecord

/-- The entries of a map from text keys. -/
abbrev Entries (α : Type) := List (String × α)

namespace Entries

variable {α β : Type}

/-- The keys stand in strictly ascending order. -/
def Sorted (entries : Entries α) : Prop := entries.Pairwise fun first second => first.1 < second.1

instance (entries : Entries α) : Decidable entries.Sorted :=
  inferInstanceAs (Decidable (List.Pairwise _ _))

/-- The value under a key. -/
def find? (entries : Entries α) (key : String) : Option α :=
  match entries with
  | [] => none
  | (held, value) :: rest => if held = key then some value else find? rest key

/-- Whether a key is present. -/
def contains (entries : Entries α) (key : String) : Bool := (entries.find? key).isSome

/-- The entries with a value under a key; a value that was there is replaced. -/
def insert (entries : Entries α) (key : String) (value : α) : Entries α :=
  match entries with
  | [] => [(key, value)]
  | (held, old) :: rest =>
    if key < held then (key, value) :: (held, old) :: rest
    else if key = held then (key, value) :: rest
    else (held, old) :: insert rest key value

/-- The entries without a key. -/
def erase (entries : Entries α) (key : String) : Entries α :=
  entries.filter fun entry => entry.1 ≠ key

/-- The keys in order. -/
def keys (entries : Entries α) : List String := entries.map Prod.fst

/-- The map of a list of pairs; of two pairs with one key the later one counts. -/
def ofList (pairs : List (String × α)) : Entries α :=
  pairs.foldl (fun entries pair => insert entries pair.1 pair.2) []

/-- The map of a list of pairs; of two pairs with one key the earlier one counts. -/
def ofFirst (pairs : List (String × α)) : Entries α :=
  pairs.foldr (fun pair entries => insert entries pair.1 pair.2) []

/-- The list with the first value under a key replaced. -/
def replace (entries : Entries α) (key : String) (value : α) : Entries α :=
  match entries with
  | [] => []
  | (held, old) :: rest =>
    if held = key then (held, value) :: rest else (held, old) :: replace rest key value

/-- A map with the entries of a second one put over those of a first one. -/
def overlay (entries later : Entries α) : Entries α :=
  later.foldl (fun entries pair => insert entries pair.1 pair.2) entries

/-- A map with every value changed. -/
def mapValues (change : α → β) (entries : Entries α) : Entries β :=
  entries.map fun entry => (entry.1, change entry.2)

/-- An inserted value is found under its key. -/
@[simp] theorem find?_insert_self (entries : Entries α) (key : String) (value : α) :
    find? (insert entries key value) key = some value := by
  induction entries with
  | nil => simp [insert, find?]
  | cons entry rest ih =>
    obtain ⟨held, old⟩ := entry
    rw [insert]
    split
    · simp [find?]
    · split
      · simp [find?]
      · next different => simp [find?, Ne.symm different, ih]

/-- An insertion leaves every other key as it was. -/
theorem find?_insert_of_ne (entries : Entries α) {key other : String} (value : α)
    (different : key ≠ other) : find? (insert entries key value) other = find? entries other := by
  induction entries with
  | nil => simp [insert, find?, different]
  | cons entry rest ih =>
    obtain ⟨held, old⟩ := entry
    rw [insert]
    split
    · simp [find?, different]
    · split
      · next same => subst same; simp [find?, different]
      · by_cases match_ : held = other <;> simp [find?, match_, ih]

end Entries

end TypedRecord
