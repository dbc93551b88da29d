/-!
# Listener sets

An ordered set of listeners, each of them known by the token that its subscription answered. A
delivery calls the listeners that were subscribed when it began, in the order of subscription, and
skips those that an earlier call of the same delivery has unsubscribed.

Tokens count up and are never given again, so a token stands for one subscription for good.
-/

namespace InteractionBinding

/-- A handle of a subscription. -/
abbrev Token := Nat

/-- An ordered set of listeners of type `α` by their tokens. -/
structure ListenerSet (α : Type) where
  /-- The token of the next subscription. -/
  next : Token
  entries : List (Token × α)
deriving DecidableEq, Repr

namespace ListenerSet

variable {α σ : Type}

def empty : ListenerSet α := ⟨1, []⟩

instance : Inhabited (ListenerSet α) := ⟨empty⟩

/-- Adds a listener behind the others. -/
def subscribe (set : ListenerSet α) (listener : α) : ListenerSet α × Token :=
  (⟨set.next + 1, set.entries ++ [(set.next, listener)]⟩, set.next)

/-- Removes the listener of a token, if there is one. -/
def unsubscribe (set : ListenerSet α) (token : Token) : ListenerSet α :=
  { set with entries := set.entries.filter fun entry => entry.1 ≠ token }

def contains (set : ListenerSet α) (token : Token) : Bool :=
  set.entries.any fun entry => entry.1 = token

def size (set : ListenerSet α) : Nat := set.entries.length

def isEmpty (set : ListenerSet α) : Bool := set.entries.isEmpty

/-- The listeners with a property, in the order of subscription. -/
def snapshot (set : ListenerSet α) (p : α → Bool) : List (Token × α) :=
  set.entries.filter fun entry => p entry.2

/-- Calls the listeners of a snapshot that are still subscribed when their turn comes. Calls change
a state that holds the set. -/
def deliver (setOf : σ → ListenerSet α) (call : α → σ → σ) (snapshot : List (Token × α))
    (state : σ) : σ :=
  snapshot.foldl
    (fun state entry =>
      if (setOf state).contains entry.1 then call entry.2 state else state)
    state

/-- `deliver` for calls that may not end, and that may depend on the token. -/
def deliver? (setOf : σ → ListenerSet α) (call : Token × α → σ → Option σ) :
    List (Token × α) → σ → Option σ
  | [], state => some state
  | entry :: rest, state =>
    if (setOf state).contains entry.1 then (call entry state).bind (deliver? setOf call rest)
    else deliver? setOf call rest state

theorem deliver?_some (setOf : σ → ListenerSet α) (call : α → σ → σ)
    (snapshot : List (Token × α)) (state : σ) :
    deliver? setOf (fun entry state => some (call entry.2 state)) snapshot state =
      some (deliver setOf call snapshot state) := by
  induction snapshot generalizing state with
  | nil => rfl
  | cons entry rest ih =>
    rw [deliver?, deliver, List.foldl_cons]
    split
    · exact ih _
    · exact ih _

@[simp]
theorem contains_subscribe_self (set : ListenerSet α) (listener : α) :
    (set.subscribe listener).1.contains (set.subscribe listener).2 = true := by
  simp [subscribe, contains]

@[simp]
theorem contains_unsubscribe_self (set : ListenerSet α) (token : Token) :
    (set.unsubscribe token).contains token = false := by
  simp [unsubscribe, contains]

end ListenerSet

end InteractionBinding
