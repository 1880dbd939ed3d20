import Mathlib.Logic.Basic

/-!
# Logs of updates to a store of cells

An update writes some cells and leaves the others alone.  A log of writes is replayed
over a view of the store; it is serial when every write has read the current value of
each cell that it replaces.
-/

namespace UpdateLog

variable {Cell : Type*} {Value : Cell → Type*}

/-- The new values of the cells that are written. -/
abbrev Update (Value : Cell → Type*) := (cell : Cell) → Option (Value cell)

abbrev View (Value : Cell → Type*) := (cell : Cell) → Value cell

def apply (view : View Value) (update : Update Value) : View Value :=
  fun cell => (update cell).getD (view cell)

/-- What has to be written to get from one view to the other. -/
def changes [∀ cell, DecidableEq (Value cell)] (before after : View Value) :
    Update Value :=
  fun cell => if after cell = before cell then none else some (after cell)

theorem apply_of_none {view : View Value} {update : Update Value} {cell : Cell}
    (kept : update cell = none) : apply view update cell = view cell := by
  rw [apply, kept, Option.getD_none]

theorem apply_of_some {view : View Value} {update : Update Value} {cell : Cell}
    {value : Value cell} (written : update cell = some value) :
    apply view update cell = value := by
  rw [apply, written, Option.getD_some]

theorem apply_changes [∀ cell, DecidableEq (Value cell)] (before after : View Value) :
    apply before (changes before after) = after := by
  funext cell
  by_cases same : after cell = before cell
  · rw [apply_of_none (if_pos same), same]
  · exact apply_of_some (if_neg same)

/-- An update with the view that its writer has read. -/
structure Write (Value : Cell → Type*) where
  seen : View Value
  update : Update Value

/-- The view after all writes of the log. -/
def result (view : View Value) (log : List (Write Value)) : View Value :=
  log.foldl (fun view write => apply view write.update) view

/-- No write replaces a value that its writer has not read. -/
def ReadsCurrent (view : View Value) (write : Write Value) : Prop :=
  ∀ cell, (write.update cell).isSome → write.seen cell = view cell

def Serial : View Value → List (Write Value) → Prop
  | _, [] => True
  | view, write :: log => ReadsCurrent view write ∧ Serial (apply view write.update) log

theorem result_concat (view : View Value) (log : List (Write Value))
    (write : Write Value) :
    result view (log ++ [write]) = apply (result view log) write.update := by
  unfold result
  rw [List.foldl_append]
  rfl

theorem serial_concat (view : View Value) (log : List (Write Value))
    (write : Write Value) :
    Serial view (log ++ [write]) ↔
      Serial view log ∧ ReadsCurrent (result view log) write := by
  induction log generalizing view with
  | nil => exact and_comm
  | cons head log ih =>
      rw [List.cons_append, Serial, Serial, ih, and_assoc]
      rfl

end UpdateLog
