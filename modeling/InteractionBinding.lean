import InteractionBinding.Config.Builder
import InteractionBinding.Config.Encode
import InteractionBinding.Engine.Wiring
import InteractionBinding.Json.Order
import InteractionBinding.Json.Printer
import InteractionBinding.Listeners.Script
import InteractionBinding.Session.View
import InteractionBinding.Proofs.Graph.CrossReferences
import InteractionBinding.Proofs.Wiring.AtMostOnce
import InteractionBinding.Proofs.Wiring.Cascades
import InteractionBinding.Proofs.Wiring.Histories
import InteractionBinding.Proofs.Wiring.Justified
import InteractionBinding.Proofs.Wiring.ListDelta
import InteractionBinding.Proofs.Wiring.ListItems
import InteractionBinding.Proofs.Wiring.Updating
import InteractionBinding.Proofs.Keys.InteractionIds
import InteractionBinding.Proofs.Keys.Templates
import InteractionBinding.Proofs.Config.TextAndValue
import InteractionBinding.Proofs.Sequences.ConnectionOrder
import InteractionBinding.Proofs.Sequences.Performances
import InteractionBinding.Proofs.Subscriptions.Ledger
import InteractionBinding.Proofs.Lifecycle.Replacing
import InteractionBinding.Proofs.Wiring.Newcomers
import InteractionBinding.Proofs.Engine.Moves
import InteractionBinding.Proofs.Graph.Selectors
import InteractionBinding.Proofs.Lifecycle.Covering
import InteractionBinding.Proofs.Lifecycle.Destroying
import InteractionBinding.Proofs.Lifecycle.Neighbours
import InteractionBinding.Proofs.Wiring.ListCalls
import InteractionBinding.Proofs.Wiring.Removals
import InteractionBinding.Proofs.Subscriptions.Guarding
import InteractionBinding.Proofs.Graph.Naming
import InteractionBinding.Proofs.Wiring.CallSides
import InteractionBinding.Proofs.Lifecycle.EffectStates
import InteractionBinding.Proofs.Lifecycle.Belongings
import InteractionBinding.Proofs.Subscriptions.Hearing
import InteractionBinding.Proofs.Sequences.Predicates
import InteractionBinding.Proofs.Sequences.Sources
import InteractionBinding.Proofs.Graph.BackLinks
import InteractionBinding.Proofs.Graph.Numbering
import InteractionBinding.Proofs.Lifecycle.StoredKeys
import InteractionBinding.Proofs.Wiring.Credits
import InteractionBinding.Proofs.Wiring.Counterparts
import InteractionBinding.Proofs.Wiring.Confinement
import InteractionBinding.Proofs.Lifecycle.Departing
import InteractionBinding.Proofs.Graph.Appending
import InteractionBinding.Proofs.Graph.Trimming
import InteractionBinding.Proofs.Keys.DecodedIds
import InteractionBinding.Proofs.Config.Layers
import InteractionBinding.Proofs.Lifecycle.Broadcasts
import InteractionBinding.Proofs.Wiring.Gates
import InteractionBinding.Proofs.Subscriptions.Reentrancy
import InteractionBinding.Proofs.Config.SequenceForms
import InteractionBinding.Proofs.Keys.Cuts
import InteractionBinding.Proofs.Keys.NormalForms
import InteractionBinding.Proofs.Lifecycle.Activations
import InteractionBinding.Proofs.Graph.EdgeWalks
