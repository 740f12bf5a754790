import TypedRecord.Error

/-!
# Progress

Work that changes a state step by step may stop at an error, and the state it had reached by then
counts. Work that is all or nothing keeps the state only when nothing stopped it.
-/
namespace TypedRecord

/-- The state some work has reached, and the error that stopped it. -/
structure Progress (α : Type) where
  /-- The state. -/
  state : α
  /-- The error, unless the work is complete. -/
  stopped : Option Error

namespace Progress

variable {α β : Type}

/-- Complete work. -/
def complete (state : α) : Progress α := ⟨state, none⟩

/-- Work that was stopped. -/
def stop (state : α) (error : Error) : Progress α := ⟨state, some error⟩

/-- Further work, unless the work was stopped. -/
def andThen (progress : Progress α) (next : α → Progress α) : Progress α :=
  match progress.stopped with
  | none => next progress.state
  | some _ => progress

/-- The same progress of a state that holds this one. -/
def map (change : α → β) (progress : Progress α) : Progress β :=
  ⟨change progress.state, progress.stopped⟩

/-- The same progress below a property. -/
def within (progress : Progress α) (name : String) : Progress α :=
  ⟨progress.state, progress.stopped.map fun error => error.within name⟩

/-- A step that changes the state or leaves it as it was. -/
def ofStep (state : α) (outcome : Except Error α) : Progress α :=
  match outcome with
  | .ok next => complete next
  | .error error => stop state error

/-- The state of complete work, or the error. -/
def result (progress : Progress α) : Except Error α :=
  match progress.stopped with
  | none => .ok progress.state
  | some error => .error error

/-- The error, or nothing. -/
def outcome (progress : Progress α) : Except Error Unit := progress.result.map fun _ => ()

/-- The state if the work is complete, and otherwise the one before it. -/
def allOrNothing (before : α) (progress : Progress α) : Progress α :=
  match progress.stopped with
  | none => progress
  | some error => stop before error

/-- The work of a step for each item, up to the first that is stopped. -/
def each (items : List β) (step : α → β → Progress α) (state : α) : Progress α :=
  match items with
  | [] => complete state
  | item :: rest => (step state item).andThen (each rest step)

end Progress

end TypedRecord
