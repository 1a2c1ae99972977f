/-!
Per-computation lifecycle as a pure transition table. Every state change of
the scheduler goes through `transition`; a pair outside the table is the
source's IllegalTransitionError and is `none` here.
-/
namespace Grafy.Lifecycle

inductive ComputationState
  | pending
  | ready
  | running
  | succeeded
  | failed
  | skipped
  | cancelled
  deriving DecidableEq, Repr

inductive ComputationEvent
  | dependenciesSatisfied
  | start
  | succeed
  | fail
  | skip
  | cancel
  deriving DecidableEq, Repr

open ComputationState ComputationEvent

def terminalStates : List ComputationState := [succeeded, failed, skipped, cancelled]

def transition : ComputationState → ComputationEvent → Option ComputationState
  | pending, dependenciesSatisfied => some ready
  | ready, start => some running
  | running, succeed => some succeeded
  | running, fail => some failed
  | pending, skip => some skipped
  | pending, .cancel => some cancelled
  | ready, .cancel => some cancelled
  | running, .cancel => some cancelled
  | _, _ => none

def ComputationState.Terminal (state : ComputationState) : Prop := state ∈ terminalStates

instance (state : ComputationState) : Decidable state.Terminal :=
  inferInstanceAs (Decidable (state ∈ terminalStates))

theorem terminal_iff (state : ComputationState) :
    state.Terminal ↔ state ≠ pending ∧ state ≠ ready ∧ state ≠ running := by
  cases state <;> simp [ComputationState.Terminal, terminalStates]

variable {state : ComputationState}

theorem transition_eq_none_of_terminal (h : state.Terminal) (event : ComputationEvent) :
    transition state event = none := by
  cases state <;> cases event <;> simp_all [ComputationState.Terminal, terminalStates, transition]

theorem transition_cancel_of_not_terminal (h : ¬ state.Terminal) :
    transition state .cancel = some cancelled := by
  cases state <;> simp_all [ComputationState.Terminal, terminalStates, transition]

theorem transition_succeed {state state' : ComputationState}
    (h : transition state .succeed = some state') : state' = succeeded := by
  cases state <;> simp_all [transition]

end Grafy.Lifecycle
