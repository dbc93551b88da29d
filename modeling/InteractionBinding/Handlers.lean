import InteractionBinding.Config.Basic
/-!
# Trigger handlers

Which handler serves which trigger kind. Kinds keep the order of their first registration, and a
later registration of a kind replaces its handler in place. Teardown goes to every handler that
serves some kind, once to each.
-/

namespace InteractionBinding

/-- The identity of a handler of the host. -/
abbrev HandlerId := Nat

/-- The handlers by trigger kind, in the order in which kinds were registered first. -/
structure HandlerTable where
  entries : List (TriggerKind × HandlerId)
deriving DecidableEq, Repr

namespace HandlerTable

def empty : HandlerTable := ⟨[]⟩

instance : Inhabited HandlerTable := ⟨empty⟩

/-- Replaces the handler of a kind that has one, or adds the kind behind the others. -/
def registerEntry (kind : TriggerKind) (handler : HandlerId) :
    List (TriggerKind × HandlerId) → List (TriggerKind × HandlerId)
  | [] => [(kind, handler)]
  | (k, h) :: rest =>
    if k = kind then (k, handler) :: rest else (k, h) :: registerEntry kind handler rest

/-- Lets a handler serve a kind. -/
def register (table : HandlerTable) (kind : TriggerKind) (handler : HandlerId) : HandlerTable :=
  ⟨registerEntry kind handler table.entries⟩

/-- The handler that serves a kind. -/
def get? (table : HandlerTable) (kind : TriggerKind) : Option HandlerId :=
  (table.entries.find? fun entry => entry.1 = kind).map Prod.snd

/-- Keeps the first of equal members of a list. -/
def firstOccurrences : List HandlerId → List HandlerId
  | [] => []
  | h :: rest => h :: (firstOccurrences rest).filter fun other => other ≠ h

/-- Every handler that serves some kind, once each, in the order of the kinds. -/
def all (table : HandlerTable) : List HandlerId :=
  firstOccurrences (table.entries.map Prod.snd)

/-- The number of kinds that are served. -/
def size (table : HandlerTable) : Nat := table.entries.length

def isEmpty (table : HandlerTable) : Bool := table.entries.isEmpty

/-- The handler of a kind is the one registered last for it. -/
theorem get?_register (table : HandlerTable) (kind other : TriggerKind) (handler : HandlerId) :
    (table.register kind handler).get? other =
      if kind = other then some handler else table.get? other := by
  obtain ⟨entries⟩ := table
  simp only [register, get?]
  induction entries with
  | nil => by_cases h : kind = other <;> simp [registerEntry, h]
  | cons entry rest ih =>
    obtain ⟨k, h⟩ := entry
    rw [registerEntry]
    split
    next heq =>
      subst heq
      by_cases hk : k = other <;> simp [hk]
    next hne =>
      by_cases hk : k = other
      · subst hk
        simp [Ne.symm hne]
      · simp [hk, ih]

end HandlerTable

/-- Why a handler does not wire a plan. -/
inductive Refusal where
  | invalidEffect (effectId reason : String)
  /-- The handler cannot wire sequences at all. -/
  | unsupportedSequence (sequenceId : String)
deriving DecidableEq, Repr

namespace Refusal

def message : Refusal → String
  | .invalidEffect effectId reason => "effect `" ++ effectId ++ "` cannot be built: " ++ reason
  | .unsupportedSequence sequenceId =>
    "sequence `" ++ sequenceId ++ "` cannot be wired: handler has no sequence support"

def code : Refusal → String
  | .invalidEffect _ _ => "interweave::handler::invalid_effect"
  | .unsupportedSequence _ => "interweave::handler::unsupported_sequence"

def help : Refusal → Option String
  | .invalidEffect _ _ =>
    some "Check the effect payload against what the animation engine accepts."
  | .unsupportedSequence _ => none

end Refusal

end InteractionBinding
