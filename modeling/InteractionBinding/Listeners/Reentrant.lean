import InteractionBinding.Listeners
/-!
# Re-entrant listeners

A listener may use the set that calls it: it may subscribe further listeners, unsubscribe itself or
others, look for a token, or notify the set again before it returns. What it does is a program of
these operations, in which every step may depend on the answers to earlier ones and on an
environment that the listeners share.

A state logs what happens to the set. A call is logged with the number of notifications that its
own notification is nested in, which tells the calls of a notification from those of the
notifications within it.
-/

namespace InteractionBinding

namespace Reentrant

/-- What is done with a set of listeners of type `α`, which delivers values of type `ν`. Listeners
share an environment of type `ε`. Whatever runs during a nested notification may change it, so the
program hands it over there and gets it back. -/
inductive Program (ε α ν : Type) where
  | done (env : ε)
  | subscribe (listener : α) (next : Token → Program ε α ν)
  | unsubscribe (token : Token) (next : Bool → Program ε α ν)
  | contains (token : Token) (next : Bool → Program ε α ν)
  | notify (value : ν) (env : ε) (next : ε → Program ε α ν)

/-- What happens to a set. -/
inductive Event (α ν : Type) where
  | subscribed (token : Token) (listener : α)
  /-- A token was given up, which was in the set if it was `found`. -/
  | unsubscribed (token : Token) (found : Bool)
  /-- A call by a notification that is nested in `depth` others. -/
  | called (depth : Nat) (entry : Token × α) (value : ν)
deriving DecidableEq, Repr

structure State (ε α ν : Type) where
  set : ListenerSet α
  env : ε
  /-- What has happened so far, the latest event last. -/
  log : List (Event α ν)

variable {ε α ν : Type}

/-- Performs a program. Notifications are performed by `notify`. -/
def perform (notify : ν → State ε α ν → Option (State ε α ν)) :
    Program ε α ν → State ε α ν → Option (State ε α ν)
  | .done env, state => some { state with env := env }
  | .subscribe listener next, state =>
    let (set, token) := state.set.subscribe listener
    perform notify (next token)
      { state with set := set, log := state.log ++ [.subscribed token listener] }
  | .unsubscribe token next, state =>
    let found := state.set.contains token
    perform notify (next found)
      { state with
        set := state.set.unsubscribe token
        log := state.log ++ [.unsubscribed token found] }
  | .contains token next, state => perform notify (next (state.set.contains token)) state
  | .notify value env next, state =>
    (notify value { state with env := env }).bind fun state =>
      perform notify (next state.env) state

/-- Calls a listener, which does what it does on a value. -/
def call (react : α → ν → ε → Program ε α ν) (notify : ν → State ε α ν → Option (State ε α ν))
    (depth : Nat) (value : ν) (entry : Token × α) (state : State ε α ν) : Option (State ε α ν) :=
  perform notify (react entry.2 value state.env)
    { state with log := state.log ++ [.called depth entry value] }

/-- Delivers a value to the listeners of a set, within `depth` other notifications. Nested
notifications need not end, so there is fuel for the depth of their nesting, and no answer when it
runs out. -/
def notify (react : α → ν → ε → Program ε α ν) (fuel depth : Nat) (value : ν)
    (state : State ε α ν) : Option (State ε α ν) :=
  match fuel with
  | 0 => none
  | fuel + 1 =>
    ListenerSet.deliver? State.set (call react (notify react fuel (depth + 1)) depth value)
      state.set.entries state

end Reentrant

end InteractionBinding
