import InteractionBinding.Config.Builder
import InteractionBinding.Proofs.Wiring.Mounting
/-!
# The order in which keys connect

Keys that are added to a fresh engine one after the other end with the wires that they settle
(`Engine.Site.Stands.run`). Whether every order of keys ends with the same wires is therefore
decided by pairs of keys (`Engine.orders_converge_iff`). It is not always so: the two sides of a
rule whose keys have different numbers of placeholders do not meet.
-/

namespace InteractionBinding.Engine

/-- An engine after keys have been added to one instance, the last one coming first: the scene shows
them, and what they settle has been applied and wired. -/
structure Site.Stands (site : Site) (connected : List String) (engine : Engine) : Prop where
  hosts : ∃ mounted, site.Hosts mounted engine.scene
  isConnected (key : String) : engine.scene.IsConnected key ↔ key ∈ connected
  applied (text : String) : (site.settle connected text).isSome → text ∈ (engine.inst 0).memo
  settled (text : String) : text ∈ (engine.inst 0).memo →
    (site.settle connected text).isSome ∨ ∃ key ∈ connected, text ∈ site.sequenceTexts key
  wires (wire : Wire) : wire ∈ engine.wires ↔ site.Settled connected wire

namespace Site.Stands

variable {site : Site} {connected keys : List String} {engine : Engine} {key : String}

/-- A text that a key can settle has been applied exactly if the connected keys have settled it. -/
theorem mem_memo_iff (h : site.Stands connected engine) (hlegible : site.Legible keys)
    (hkeys : key :: connected ⊆ keys) {text : String}
    (hoffer : (site.offer key connected text).isSome) :
    text ∈ (engine.inst 0).memo ↔ (site.settle connected text).isSome := by
  refine ⟨fun hmem => (h.settled text hmem).resolve_right ?_, h.applied text⟩
  rintro ⟨other, hother, hsequence⟩
  obtain ⟨link, hlink, rfl⟩ := exists_link_of_isSome_offer hoffer
  exact hlegible.sequences key (hkeys (.head _)) link hlink other (hkeys (.tail _ hother)) hsequence

theorem addNode (h : site.Stands connected engine) (hlegible : site.Legible keys)
    (hkeys : key :: connected ⊆ keys) (hkey : key ≠ "") (hnew : key ∉ connected) :
    site.Stands (key :: connected) (engine.addNode (site.nodeOf key) key).1 := by
  obtain ⟨mounted, hhosts⟩ := h.hosts
  obtain ⟨hconnected, -⟩ | ⟨-, mounted', c, after, hjoins, heq⟩ :=
    addNode_cases hhosts.toSeated hkey
  · exact absurd ((h.isConnected key).mp hconnected) hnew
  have hsettles := hhosts.settles hjoins h.isConnected
  obtain ⟨hresolved, hconnected⟩ := hhosts.resolved hjoins
  rw [← heq] at hsettles hresolved hconnected
  have hadd : engine.addNode (site.ground.nodeOf key) key = engine.addNode (site.nodeOf key) key :=
    rfl
  rw [hadd] at hsettles hresolved hconnected
  refine ⟨⟨mounted', hresolved⟩, fun other => ?_, fun text hsettled => ?_, fun text hmem => ?_,
    fun wire => ?_⟩
  · rw [hconnected, h.isConnected, List.mem_cons]
  · rw [settle, Option.isSome_or, Bool.or_eq_true] at hsettled
    exact hsettles.applied text (hsettled.imp_left (h.applied text))
  · rw [settle, Option.isSome_or, Bool.or_eq_true]
    rcases hsettles.settled text hmem with hmem | hoffer | hsequence
    · rcases h.settled text hmem with hsettled | ⟨other, hother, hsequence⟩
      · exact .inl (.inl hsettled)
      · exact .inr ⟨other, .tail _ hother, hsequence⟩
    · exact .inl (.inr hoffer)
    · exact .inr hsequence
  · rw [hsettles.wires, h.wires, settled_cons]
    refine or_congr_right (and_congr_left ?_)
    rintro ⟨wires, hoffer, -⟩
    rw [h.mem_memo_iff hlegible hkeys (Option.isSome_of_eq_some hoffer),
      Option.not_isSome_iff_eq_none]

/-- What keys have settled after they have been added. -/
theorem run (h : site.Stands connected engine) (hlegible : site.Legible keys) {order : List String}
    (hkeys : order.reverse ++ connected ⊆ keys) (hnonempty : "" ∉ order)
    (hnodup : (order.reverse ++ connected).Nodup) :
    site.Stands (order.reverse ++ connected)
      (engine.run (order.map fun key => .addNode (site.nodeOf key) key)) := by
  induction order generalizing engine connected with
  | nil => exact h
  | cons key rest ih =>
    rw [List.reverse_cons, List.append_assoc, List.singleton_append] at hkeys hnodup ⊢
    obtain ⟨-, hnodup', -⟩ := List.nodup_append.mp hnodup
    have hadd := h.addNode hlegible (fun other hother => hkeys (List.mem_append_right _ hother))
      (fun heq => hnonempty (heq ▸ .head _)) (List.nodup_cons.mp hnodup').1
    obtain ⟨mounted, hhosts⟩ := h.hosts
    have hperform : (engine.perform (.addNode (site.nodeOf key) key)).1 =
        (engine.addNode (site.nodeOf key) key).1 := by
      have hrunning : engine.running = true := hhosts.running
      rw [perform, whenRunning_of_running hrunning]
      rfl
    rw [List.map_cons, run_cons, hperform]
    exact ih hadd hkeys (fun hmem => hnonempty (.tail _ hmem)) hnodup

end Site.Stands

/-! ### Orders of keys -/

/-- A fresh engine after an instance has been created and keys have been added in an order. -/
def added (host : Host) (options : EngineOptions) (config : Config) (nodeOf : String → NodeId)
    (order : List String) : Engine :=
  (start host options).run (.create config :: order.map fun key => .addNode (nodeOf key) key)

variable {host : Host} {config : Config} {nodeOf : String → NodeId} {keys order : List String}

theorem stands_create (options : EngineOptions) (haccepts : ∀ id, (host.handler id).Accepts) :
    (siteOf host config nodeOf).Stands [] ((start host options).create config).1 := by
  obtain ⟨hhosts, hconnected, hmemo, hwires⟩ := hosts_create config nodeOf options haccepts
  refine ⟨⟨[], hhosts⟩, fun key => ?_, fun text hsettled => ?_, fun text hmem => ?_, fun wire => ?_⟩
  · exact iff_of_false (hconnected key) List.not_mem_nil
  · cases hsettled
  · rw [hmemo] at hmem
    cases hmem
  · rw [hwires]
    exact iff_of_false List.not_mem_nil fun ⟨_, hsettle, _⟩ => by cases hsettle

/-- The wires after keys have been added are those that the keys settle. -/
theorem mem_wires_added (options : EngineOptions) (haccepts : ∀ id, (host.handler id).Accepts)
    (hlegible : (siteOf host config nodeOf).Legible keys) (hnonempty : "" ∉ keys)
    (hnodup : order.Nodup) (hkeys : order ⊆ keys) (wire : Wire) :
    wire ∈ (added host options config nodeOf order).wires ↔
      (siteOf host config nodeOf).Settled order.reverse wire := by
  have hkeys' : order.reverse ++ [] ⊆ keys := by simpa using hkeys
  have hnodup' : (order.reverse ++ []).Nodup := by simpa using hnodup
  have hstands := (stands_create options haccepts).run hlegible hkeys'
    (fun hmem => hnonempty (hkeys hmem)) hnodup'
  rw [List.append_nil] at hstands
  exact hstands.wires wire

/-- The wires after keys have been added do not depend on their order exactly if pairs of the keys
settle texts alike in both orders. -/
theorem orders_converge_iff (options : EngineOptions) (haccepts : ∀ id, (host.handler id).Accepts)
    (hlegible : (siteOf host config nodeOf).Legible keys) (hnonempty : "" ∉ keys) :
    (∀ order order', order.Perm order' → order.Nodup → order ⊆ keys →
      ∀ wire, wire ∈ (added host options config nodeOf order).wires ↔
        wire ∈ (added host options config nodeOf order').wires) ↔
      (siteOf host config nodeOf).OrderFree keys := by
  rw [← Site.orderFree_iff hlegible]
  constructor
  · intro h order order' hperm hnodup hkeys wire hsettled
    have hnodup' : order'.Nodup := hperm.nodup_iff.mp hnodup
    have hkeys' : order' ⊆ keys := fun key hkey => hkeys (hperm.mem_iff.mpr hkey)
    have hiff := h order.reverse order'.reverse
      (order.reverse_perm.trans (hperm.trans order'.reverse_perm.symm))
      (List.nodup_reverse.mpr hnodup) (fun key hkey => hkeys (List.mem_reverse.mp hkey)) wire
    rw [mem_wires_added options haccepts hlegible hnonempty (List.nodup_reverse.mpr hnodup)
        (fun key hkey => hkeys (List.mem_reverse.mp hkey)),
      mem_wires_added options haccepts hlegible hnonempty (List.nodup_reverse.mpr hnodup')
        (fun key hkey => hkeys' (List.mem_reverse.mp hkey)),
      List.reverse_reverse, List.reverse_reverse] at hiff
    exact hiff.mp hsettled
  · intro h order order' hperm hnodup hkeys wire
    have hnodup' : order'.Nodup := hperm.nodup_iff.mp hnodup
    have hkeys' : order' ⊆ keys := fun key hkey => hkeys (hperm.mem_iff.mpr hkey)
    have hreverse : order.reverse.Perm order'.reverse :=
      order.reverse_perm.trans (hperm.trans order'.reverse_perm.symm)
    rw [mem_wires_added options haccepts hlegible hnonempty hnodup hkeys,
      mem_wires_added options haccepts hlegible hnonempty hnodup' hkeys']
    refine ⟨h _ _ hreverse (List.nodup_reverse.mpr hnodup) ?_ wire,
      h _ _ hreverse.symm (List.nodup_reverse.mpr hnodup') ?_ wire⟩
    · exact fun key hkey => hkeys (List.mem_reverse.mp hkey)
    · exact fun key hkey => hkeys' (List.mem_reverse.mp hkey)

/-- A list item and a target without a placeholder: the item that connects last finds the target,
but the target that connects last does not find the item. -/
theorem orders_diverge_without_placeholder :
    let config := Config.ofInteractions
      [(Interaction.ofTrigger "card[]" .click).withEffect ((Effect.byId "f").on "button")]
    let nodeOf (key : String) := if key = "card[0]" then 1 else 2
    ¬∀ order order', order.Perm order' → order.Nodup → order ⊆ ["card[0]", "button"] →
      ∀ wire, wire ∈ (added .bare .standard config nodeOf order).wires ↔
        wire ∈ (added .bare .standard config nodeOf order').wires := by
  intro config nodeOf
  have hlegible : (siteOf .bare config nodeOf).Legible ["card[0]", "button"] :=
    ⟨by decide +kernel, by decide +kernel, by decide +kernel⟩
  rw [orders_converge_iff .standard (fun _ => Handler.accepts_accepting) hlegible (by decide)]
  intro hfree
  have hitem : (siteOf .bare config nodeOf).settle ["card[0]", "button"] "button::f::0" =
      some [⟨1, 2, ⟨"button", "f", 0⟩⟩] := by
    decide +kernel
  have htarget : (siteOf .bare config nodeOf).settle ["button", "card[0]"] "button::f::0" =
      none := by
    decide +kernel
  have hsome := hfree.mirrored "card[0]" (by simp) "button" (by simp) _ _ hitem (by simp)
  rw [htarget] at hsome
  cases hsome

end InteractionBinding.Engine
