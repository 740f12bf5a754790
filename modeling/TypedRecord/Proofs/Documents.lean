import TypedRecord.Proofs.Normal
import TypedRecord.Proofs.RuleTrees
import TypedRecord.Renaming.Document

/-!
# Reading documents of renaming rules

A document can be read exactly when every value is a text or a map, at every level, and every
container is named by a text. Entries are read one after another. Each changes the rules at the path
of its key, and a map is read as a document of its own first, without the name of its container. The
rules that are read have their keys in order at every level.
-/
namespace TypedRecord

open Entries TypedRecord.Path

/-- The entries of a map inside a document, without the one that names the container. -/
abbrev Mapping.contents (inside : Mapping) : Mapping := erase inside Rules.containerKey

/-- A value can be read as rules when it is a text, or a map whose container is named by a text, if
at all, and whose other values can be read. -/
inductive Value.Readable : Value → Prop
  /-- A text. -/
  | text (target : String) : Readable (.text target)
  /-- A map. -/
  | map {inside : Mapping}
      (named : ∀ held, find? inside Rules.containerKey = some held → ∃ name, held = .text name)
      (within : ∀ entry ∈ inside.contents, Readable entry.2) : Readable (.map inside)

/-- A document can be read when all its values can. -/
def Mapping.Readable (document : Mapping) : Prop := ∀ entry ∈ document, entry.2.Readable

/-- What a value declares where no rule is held yet: a text is a name, and a map is its name with
the rules of its contents. -/
inductive Value.Gives : Value → Rule → Prop
  /-- A text. -/
  | text (target : String) : Gives (.text target) (.mk (some target) [])
  /-- A map. -/
  | map {inside : Mapping} {name : Option String} {inner : Rules}
      (named : find? inside Rules.containerKey = name.map .text)
      (read : Rules.ofDocument inside.contents = .ok inner) : Gives (.map inside) (.mk name inner)

/-- A map gives a rule of its name and the rules of its contents. -/
theorem Value.Gives.of_map {inside : Mapping} {rule : Rule}
    (gives : (Value.map inside).Gives rule) :
    ∃ name inner, find? inside Rules.containerKey = name.map .text ∧
      Rules.ofDocument inside.contents = .ok inner ∧ rule = .mk name inner := by
  cases gives with
  | map named read => exact ⟨_, _, named, read, rfl⟩

namespace Mapping

/-- The contents of a map are entries of the map. -/
theorem mem_of_mem_contents {inside : Mapping} {entry : String × Value}
    (member : entry ∈ inside.contents) : entry ∈ inside := (List.mem_filter.mp member).1

end Mapping

namespace Rules

/-! ### Reading -/

/-- The entries of a map inside a document are read as a document is, but for the name of the
container. -/
theorem declareInner_eq (rules : Rules) (inside : Mapping) :
    declareInner rules inside = declareAll rules inside.contents := by
  induction inside generalizing rules with
  | nil => rfl
  | cons entry rest ih =>
    obtain ⟨key, value⟩ := entry
    by_cases container : key = containerKey
    · have left : Mapping.contents ((key, value) :: rest) = Mapping.contents rest := by
        simp [erase, container]
      rw [declareInner, if_pos container, ih, left]
    · have kept :
          Mapping.contents ((key, value) :: rest) = (key, value) :: Mapping.contents rest := by
        simp [erase, container]
      rw [declareInner, if_neg container, kept, declareAll]
      cases declare rules key value with
      | error error => rfl
      | ok middle => exact ih middle

/-- The name of a container is read when it is a text or there is none. -/
theorem containerName_eq_ok {key : String} {inside : Mapping} {name : Option String} :
    containerName key inside = .ok name ↔ find? inside containerKey = name.map .text := by
  rw [containerName]
  cases find? inside containerKey with
  | none => cases name <;> simp
  | some held => cases held <;> cases name <;> simp [eq_comm]

/-- A container is refused when it is named by something else than a text. -/
theorem exists_of_containerName_eq_error {key : String} {inside : Mapping} {error : Error}
    (refused : containerName key inside = .error error) :
    (∃ held, find? inside containerKey = some held ∧ ∀ name, held ≠ .text name) ∧
      ∃ refusal, error = .refuse refusal := by
  rw [containerName] at refused
  split at refused
  · cases refused
  · cases refused
  · next held noText found =>
    cases refused
    exact ⟨⟨held, found, fun name same => noText name same⟩, _, rfl⟩

/-- A map is read when the name of its container and its other entries are, and is merged then. -/
theorem declare_map_eq_ok {rules out : Rules} {key : String} {inside : Mapping} :
    declare rules key (.map inside) = .ok out ↔
      ∃ name inner, find? inside containerKey = name.map .text ∧
        ofDocument inside.contents = .ok inner ∧ out = rules.merge key name inner := by
  simp only [declare, declareInner_eq, ← @containerName_eq_ok key, ofDocument]
  cases containerName key inside with
  | error error => simp
  | ok name => cases declareAll [] (Mapping.contents inside) <;> simp [eq_comm]

/-- A document is read entry by entry. -/
theorem declareAll_cons_eq_ok {rules out : Rules} {entry : String × Value} {rest : Mapping} :
    declareAll rules (entry :: rest) = .ok out ↔
      ∃ middle, declare rules entry.1 entry.2 = .ok middle ∧ declareAll middle rest = .ok out := by
  rw [declareAll]
  cases declare rules entry.1 entry.2 <;> simp

/-- Whatever is declared at a key changes the rule at its path and nothing else. -/
theorem exists_updatePath_of_declare {rules out : Rules} {key : String} {value : Value}
    (read : declare rules key value = .ok out) : ∃ change, out = rules.updatePath key change := by
  cases value with
  | text target =>
    cases read
    exact ⟨_, rfl⟩
  | map inside =>
    obtain ⟨name, inner, -, -, rfl⟩ := declare_map_eq_ok.mp read
    exact ⟨_, rfl⟩
  | _ => nomatch read

/-- A document makes rules for the first segments of its keys and for no other key. -/
theorem isSome_find?_declareAll {rules out : Rules} {document : Mapping}
    (read : declareAll rules document = .ok out) (key : String) :
    (find? out key).isSome ↔
      (find? rules key).isSome ∨ ∃ entry ∈ document, (segments entry.1).1 = key := by
  induction document generalizing rules with
  | nil =>
    cases read
    simp
  | cons entry rest ih =>
    obtain ⟨middle, first, later⟩ := declareAll_cons_eq_ok.mp read
    obtain ⟨change, rfl⟩ := exists_updatePath_of_declare first
    rw [ih later, isSome_find?_updatePath, or_assoc, List.exists_mem_cons_iff]

/-- What is read from a document in which every value keeps rules ordered is ordered. -/
theorem Ordered.declareAll_of {document : Mapping}
    (kept : ∀ entry ∈ document, ∀ rules key out, rules.Ordered →
      declare rules key entry.2 = .ok out → out.Ordered) {rules out : Rules}
    (ordered : rules.Ordered) (read : declareAll rules document = .ok out) : out.Ordered := by
  induction document generalizing rules with
  | nil =>
    cases read
    exact ordered
  | cons entry rest ih =>
    obtain ⟨here, further⟩ := List.forall_mem_cons.mp kept
    obtain ⟨middle, first, later⟩ := declareAll_cons_eq_ok.mp read
    exact ih further (here rules entry.1 middle ordered first) later

/-- A value that is read keeps rules ordered. -/
theorem Ordered.declare {value : Value} : ∀ {rules out : Rules} {key : String}, rules.Ordered →
    Rules.declare rules key value = .ok out → out.Ordered := by
  induction value using Value.induction with
  | text target =>
    rintro rules out key ordered ⟨⟩
    exact ordered.rename key target
  | map inside ih =>
    intro rules out key ordered read
    obtain ⟨name, inner, -, within, rfl⟩ := declare_map_eq_ok.mp read
    have nested : inner.Ordered := ordered_nil.declareAll_of (fun entry member rules key out =>
      ih entry (Mapping.mem_of_mem_contents member)) within
    exact ordered.merge key name nested
  | _ => exact fun _ read => nomatch read

/-- The rules of a document are in order. -/
theorem ordered_ofDocument {document : Mapping} {rules : Rules}
    (read : ofDocument document = .ok rules) : rules.Ordered :=
  ordered_nil.declareAll_of (fun _ _ _ _ _ ordered => ordered.declare) read

/-! ### Which documents can be read -/

/-- A document is read when all its values are, and refused otherwise, if each of its values is read
or refused. -/
theorem readable_or_refused_of {document : Mapping}
    (each : ∀ entry ∈ document, ∀ rules key,
      (entry.2.Readable ∧ ∃ out, declare rules key entry.2 = .ok out) ∨
        (¬ entry.2.Readable ∧ ∃ refusal, declare rules key entry.2 = .error (.refuse refusal)))
    (rules : Rules) :
    (document.Readable ∧ ∃ out, declareAll rules document = .ok out) ∨
      (¬ document.Readable ∧ ∃ refusal, declareAll rules document = .error (.refuse refusal)) := by
  induction document generalizing rules with
  | nil => exact .inl ⟨fun _ member => (nomatch member), rules, rfl⟩
  | cons entry rest ih =>
    obtain ⟨here, further⟩ := List.forall_mem_cons.mp each
    rw [Mapping.Readable, List.forall_mem_cons, declareAll]
    rcases here rules entry.1 with ⟨first, middle, read⟩ | ⟨unfit, refusal, refused⟩
    · rw [read]
      rcases ih further middle with ⟨later, out, rest⟩ | ⟨unfit, refusal, refused⟩
      · exact .inl ⟨⟨first, later⟩, out, rest⟩
      · exact .inr ⟨fun both => unfit both.2, refusal, refused⟩
    · rw [refused]
      exact .inr ⟨fun both => unfit both.1, refusal, rfl⟩

/-- A value is read when it can be and refused otherwise. -/
theorem readable_or_refused (value : Value) : ∀ (rules : Rules) (key : String),
    (value.Readable ∧ ∃ out, declare rules key value = .ok out) ∨
      (¬ value.Readable ∧ ∃ refusal, declare rules key value = .error (.refuse refusal)) := by
  induction value using Value.induction with
  | text target => exact fun rules key => .inl ⟨.text target, rules.rename key target, rfl⟩
  | map inside ih =>
    intro rules key
    have contents := @readable_or_refused_of inside.contents
      (fun entry member => ih entry (Mapping.mem_of_mem_contents member)) []
    rw [← declareInner_eq] at contents
    rw [declare]
    cases naming : containerName key inside with
    | error error =>
      obtain ⟨⟨held, found, noText⟩, refusal, rfl⟩ := exists_of_containerName_eq_error naming
      refine .inr ⟨?_, refusal, rfl⟩
      rintro ⟨⟩
      next named _ =>
      obtain ⟨name, text⟩ := named held found
      exact noText name text
    | ok name =>
      have found := containerName_eq_ok.mp naming
      rcases contents with ⟨within, inner, read⟩ | ⟨unfit, refusal, refused⟩
      · refine .inl ⟨.map (fun held present => ?_) within, _, by rw [read]⟩
        obtain ⟨text, -, rfl⟩ := Option.map_eq_some_iff.mp (found.symm.trans present)
        exact ⟨text, rfl⟩
      · refine .inr ⟨?_, refusal, by rw [refused]⟩
        rintro ⟨⟩
        next within => exact unfit within
  | _ => exact fun rules key => .inr ⟨nofun, _, rfl⟩

/-- A document is read exactly when it can be, and is a bad argument otherwise. -/
theorem ofDocument_eq_ok_iff (document : Mapping) :
    ((∃ rules, ofDocument document = .ok rules) ↔ document.Readable) ∧
      (¬ document.Readable → ∃ error, ofDocument document = .error error ∧
        error.kind = .badArgument) := by
  rw [ofDocument]
  rcases readable_or_refused_of (fun entry _ => readable_or_refused entry.2) [] with
    ⟨readable, rules, read⟩ | ⟨unfit, refusal, refused⟩
  · exact ⟨iff_of_true ⟨rules, read⟩ readable, fun unfit => absurd readable unfit⟩
  · refine ⟨iff_of_false ?_ unfit, fun _ => ⟨_, refused, rfl⟩⟩
    rintro ⟨rules, read⟩
    cases refused.symm.trans read

end Rules

end TypedRecord
