import InteractionBinding.Listeners.Reentrant
/-!
# Scripted listeners

Listeners whose behaviour is a list of actions on the set they listen to: subscribe a further
listener, unsubscribe or look for one, or notify the set again. Names stand for the tokens they got
last.
-/

namespace InteractionBinding

/-- An action on a set of scripted listeners. A listener that is subscribed brings the actions it
performs whenever it is called. -/
inductive ListenerAction where
  | subscribe (name : String) (onCall : List ListenerAction)
  | unsubscribe (name : String)
  | contains (name : String)
  | notify (value : Int)
deriving Inhabited

/-- A listener of a scripted run. -/
structure ScriptedListener where
  name : String
  onCall : List ListenerAction

namespace ListenerAction

/-- What an action answers: a truth value for a name that has a token and is unsubscribed or looked
for. -/
abbrev Answer := Option Bool

/-- What scripted listeners share: the token that each name got last, and the answer of the last
step of the run. -/
structure Env where
  tokens : List (String × Token)
  answer : Answer

/-- The token that a name got last. -/
def Env.token? (env : Env) (name : String) : Option Token :=
  (env.tokens.find? fun entry => entry.1 = name).map Prod.snd

abbrev Program := Reentrant.Program Env ScriptedListener Int

abbrev State := Reentrant.State Env ScriptedListener Int

def State.initial : State := ⟨.empty, ⟨[], none⟩, []⟩

/-- Performs an action, and then what follows its answer. -/
def program (env : Env) (next : Env → Answer → Program) : ListenerAction → Program
  | .subscribe name onCall =>
    .subscribe ⟨name, onCall⟩ fun token =>
      next { env with tokens := (name, token) :: env.tokens } none
  | .unsubscribe name =>
    match env.token? name with
    | none => next env none
    | some token => .unsubscribe token fun found => next env (some found)
  | .contains name =>
    match env.token? name with
    | none => next env none
    | some token => .contains token fun found => next env (some found)
  | .notify value => .notify value env fun env => next env none

/-- Performs actions one after the other. -/
def programOf : List ListenerAction → Env → Program
  | [], env => .done env
  | action :: rest, env => action.program env fun env _ => programOf rest env

/-- A scripted listener performs its actions, whatever value it is called with. -/
def react (listener : ScriptedListener) (_ : Int) (env : Env) : Program :=
  programOf listener.onCall env

/-- Performs a step of a run with the given fuel for nested notifications. -/
def perform (fuel : Nat) (state : State) (action : ListenerAction) : Option State :=
  Reentrant.perform (Reentrant.notify react fuel 0)
    (action.program state.env fun env answer => .done { env with answer := answer }) state

/-- The name that a call calls, with the value that is delivered. -/
def call? : Reentrant.Event ScriptedListener Int → Option (String × Int)
  | .called _ entry value => some (entry.2.name, value)
  | _ => none

/-- What a step of a scripted run shows: its answer, the calls it made and the size of the set. -/
structure Outcome where
  answer : Answer
  calls : List (String × Int)
  size : Nat
  isEmpty : Bool

/-- Performs steps one after the other. -/
def run (fuel : Nat) : List ListenerAction → State → Option (List Outcome)
  | [], _ => some []
  | action :: rest, state => do
    let state ← perform fuel { state with log := [] } action
    let outcome : Outcome :=
      ⟨state.env.answer, state.log.filterMap call?, state.set.size, state.set.isEmpty⟩
    return outcome :: (← run fuel rest state)

mutual

/-- The number of actions in an action, those of the listeners it subscribes included. -/
def count : ListenerAction → Nat
  | .subscribe _ onCall => countAll onCall + 1
  | _ => 1

/-- The number of actions in a list of actions. -/
def countAll : List ListenerAction → Nat
  | [] => 0
  | action :: rest => action.count + countAll rest

end

/-- Performs steps on an empty set. A listener that notifies the set while it is subscribed is
called again by its own notification, and so on without end. In a run that ends, listeners leave the
set before they notify it, so that the depth of nesting is bounded by their number; the fuel is
ample for that. -/
def runAll (steps : List ListenerAction) : Option (List Outcome) :=
  run ((countAll steps + 1) * (countAll steps + 1)) steps .initial

end ListenerAction

end InteractionBinding
