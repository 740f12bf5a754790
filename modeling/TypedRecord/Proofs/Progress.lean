import TypedRecord.Progress

/-!
# Laws of progress

Work over a list of items is complete when the work of its first item is complete and so is the work
of the others from the state that leaves; a fact that every complete step keeps is kept by the whole
work.
-/
namespace TypedRecord.Progress

variable {α β : Type}

/-- Further work is complete when it completes what complete work left. -/
theorem andThen_eq_complete {progress : Progress α} {next : α → Progress α} {final : α} :
    progress.andThen next = complete final ↔
      ∃ middle, progress = complete middle ∧ next middle = complete final := by
  obtain ⟨state, stopped⟩ := progress
  cases stopped with
  | none => simp [andThen, complete]
  | some error => simp [andThen, complete]

/-- Further work that agrees on what complete work leaves comes to the same. -/
theorem andThen_congr {progress : Progress α} {next other : α → Progress α}
    (same : ∀ middle, progress = complete middle → next middle = other middle) :
    progress.andThen next = progress.andThen other := by
  obtain ⟨state, stopped⟩ := progress
  cases stopped with
  | none => exact same state rfl
  | some error => rfl

/-- A change that further work may come before or after may come before or after all the work. -/
theorem map_andThen {progress : Progress α} {change : α → α} {next : α → Progress α}
    (same : ∀ state, next (change state) = (next state).map change) :
    (progress.map change).andThen next = (progress.andThen next).map change := by
  obtain ⟨state, stopped⟩ := progress
  cases stopped with
  | none => exact same state
  | some error => rfl

/-- Work below a property is complete when the work is. -/
theorem within_eq_complete {progress : Progress α} {name : String} {final : α} :
    progress.within name = complete final ↔ progress = complete final := by
  obtain ⟨state, stopped⟩ := progress
  cases stopped with
  | none => simp [within, complete]
  | some error => simp [within, complete]

/-- The progress of a state that holds another one is complete when that of the other one is. -/
theorem map_eq_complete {progress : Progress α} {change : α → β} {final : β} :
    progress.map change = complete final ↔
      ∃ inner, progress = complete inner ∧ final = change inner := by
  obtain ⟨state, stopped⟩ := progress
  cases stopped with
  | none => simp [map, complete, eq_comm]
  | some error => simp [map, complete]

/-- The work of no items is complete where it starts. -/
theorem each_nil_eq_complete {step : α → β → Progress α} {state final : α} :
    each [] step state = complete final ↔ state = final := by
  simp [each, complete]

/-- The work of a list is complete when its first step is and so is the rest from there. -/
theorem each_cons_eq_complete {item : β} {rest : List β} {step : α → β → Progress α}
    {state final : α} :
    each (item :: rest) step state = complete final ↔
      ∃ middle, step state item = complete middle ∧ each rest step middle = complete final :=
  andThen_eq_complete

/-- Work that is complete is complete with other steps as well, when these complete every item as
the first ones do in the states that the work goes through; what holds of these states holds at the
end. -/
theorem each_eq_complete_of_steps {items : List β} {step other : α → β → Progress α}
    {holds : α → Prop}
    (agree : ∀ item ∈ items, ∀ state next, holds state → step state item = complete next →
      other state item = complete next ∧ holds next)
    {state final : α} (start : holds state) (done : each items step state = complete final) :
    each items other state = complete final ∧ holds final := by
  induction items generalizing state with
  | nil =>
    cases done
    exact ⟨rfl, start⟩
  | cons item rest ih =>
    obtain ⟨here, later⟩ := List.forall_mem_cons.mp agree
    obtain ⟨middle, started, finished⟩ := each_cons_eq_complete.mp done
    obtain ⟨same, reached⟩ := here state middle start started
    obtain ⟨sameRest, kept⟩ := ih later reached finished
    exact ⟨each_cons_eq_complete.mpr ⟨middle, same, sameRest⟩, kept⟩

/-- Work that stops has completed the items before one of them, and that one stopped it where it
was. -/
theorem exists_of_stopped {items : List β} {step : α → β → Progress α} {state : α} {error : Error}
    (stopped : (each items step state).stopped = some error) :
    ∃ before item after reached, items = before ++ item :: after ∧
      each before step state = complete reached ∧
      (step reached item).stopped = some error ∧ each items step state = step reached item := by
  induction items generalizing state with
  | nil => simp [each, complete] at stopped
  | cons item rest ih =>
    cases first : step state item with
    | mk middle outcome =>
      have unfolded : each (item :: rest) step state = andThen ⟨middle, outcome⟩ (each rest step) :=
        first ▸ rfl
      rw [unfolded] at stopped ⊢
      cases outcome with
      | some failure => exact ⟨[], item, rest, state, rfl, rfl, first ▸ stopped, first.symm⟩
      | none =>
        obtain ⟨before, failing, after, reached, split, completed, failed, same⟩ := ih stopped
        have started : each (item :: before) step state = complete reached :=
          each_cons_eq_complete.mpr ⟨middle, first, completed⟩
        exact ⟨item :: before, failing, after, reached, by rw [split, List.cons_append], started,
          failed, same⟩

/-- A step that changes the state or fails is complete when it changes it. -/
theorem ofStep_eq_complete {state final : α} {outcome : Except Error α} :
    ofStep state outcome = complete final ↔ outcome = .ok final := by
  cases outcome with
  | ok next => simp [ofStep, complete]
  | error error => simp [ofStep, complete, stop]

/-- A step that changes the state or fails is complete or leaves the state. -/
theorem ofStep_cases (state : α) (outcome : Except Error α) :
    (∃ next, ofStep state outcome = complete next) ∨
      ∃ error, ofStep state outcome = stop state error := by
  cases outcome with
  | ok next => exact .inl ⟨next, rfl⟩
  | error error => exact .inr ⟨error, rfl⟩

/-- The result of work is a state when the work is complete there. -/
theorem result_eq_ok {progress : Progress α} {final : α} :
    progress.result = .ok final ↔ progress = complete final := by
  obtain ⟨state, stopped⟩ := progress
  cases stopped with
  | none => simp [result, complete]
  | some error => simp [result, complete]

/-- What work leaves, if it is complete. -/
def final? (progress : Progress α) : Option α :=
  match progress.stopped with
  | none => some progress.state
  | some _ => none

/-- Work leaves something when it is complete. -/
theorem final?_eq_some {progress : Progress α} {final : α} :
    progress.final? = some final ↔ progress = complete final := by
  obtain ⟨state, stopped⟩ := progress
  cases stopped with
  | none => simp [final?, complete]
  | some error => simp [final?, complete]

/-- Work that is all or nothing stops at what the work stops at. -/
theorem stopped_allOrNothing (before : α) (progress : Progress α) :
    (progress.allOrNothing before).stopped = progress.stopped := by
  obtain ⟨state, outcome⟩ := progress
  cases outcome <;> rfl

/-- Work that is all or nothing leaves the state before it when the work stops. -/
theorem allOrNothing_of_stopped {before : α} {progress : Progress α} {error : Error}
    (stopped : progress.stopped = some error) :
    progress.allOrNothing before = stop before error := by
  rw [allOrNothing, stopped]

/-- Work that is all or nothing is complete when the work is. -/
theorem allOrNothing_eq_complete {before final : α} {progress : Progress α} :
    progress.allOrNothing before = complete final ↔ progress = complete final := by
  obtain ⟨state, stopped⟩ := progress
  cases stopped with
  | none => simp [allOrNothing, complete]
  | some error => simp [allOrNothing, complete, stop]

end TypedRecord.Progress
