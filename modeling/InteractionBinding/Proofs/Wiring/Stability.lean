import InteractionBinding.Proofs.Wiring.Attention
import InteractionBinding.Proofs.Wiring.Joining
/-!
# Stable engines

An engine is stable if its live wires are exactly those of the variants that its scene expects, and
if it heeds every variant (`Engine.Stable`). Between some keys a change may still have to be made up
for: these pairs are pending, and the engine is stable apart from them. Connecting and disconnecting
keep an engine stable, and an update of a key settles every pending pair of the key
(`Engine.Stable.update`).
-/

namespace InteractionBinding.Engine

/-- Pairs of a source key and a target key. -/
abbrev Pending := String → String → Prop

namespace Pending

/-- No pair. -/
def none : Pending := fun _ _ => False

/-- The pairs that a key takes no part in. -/
def without (pending : Pending) (key : String) : Pending :=
  fun source target => pending source target ∧ source ≠ key ∧ target ≠ key

/-- Whether the keys of a variant are pending. -/
def Has (pending : Pending) (variant : Variant) : Prop :=
  pending variant.rule.key variant.effect.target

theorem not_has_without {pending : Pending} {key : String} {variant : Variant} :
    ¬(pending.without key).Has variant ↔ ¬pending.Has variant ∨ variant.Touches key := by
  rw [Has, without, Variant.Touches, Has]
  tauto

end Pending

/-- An engine that wires what its scene expects, and listens for what may change it, apart from what
is pending. -/
structure Wired (ground : Ground) (configs : List Config) (pending : Pending) (engine : Engine) :
    Prop where
  reflects : ∃ wiring, Reflects ground configs wiring engine ∧ ∀ i variant, ¬pending.Has variant →
    (wiring i variant ↔ engine.scene.Expects configs i variant)
  heeds (i : InstanceId) (variant : Variant) : ¬pending.Has variant → Heeds configs engine i variant

/-- An engine with an orderly scene, which is wired as long as its keys own nodes of their own. -/
structure Stable (ground : Ground) (configs : List Config) (keys : List String) (pending : Pending)
    (engine : Engine) : Prop where
  scene : engine.scene.Orderly ground configs keys
  attuned : engine.Attuned (interestOf configs scene.plain)
  wired : ground.Apart configs keys → Wired ground configs pending engine

variable {ground : Ground} {configs : List Config} {keys keys' : List String} {pending : Pending}
  {engine : Engine} {c : ControllerId} {key : String}

namespace Stable

theorem mono {pending' : Pending} (h : Stable ground configs keys pending engine)
    (himp : ∀ source target, pending source target → pending' source target) :
    Stable ground configs keys pending' engine := by
  refine ⟨h.scene, h.attuned, fun hapart => ?_⟩
  obtain ⟨⟨wiring, hreflects, hwiring⟩, hheeds⟩ := h.wired hapart
  exact ⟨⟨wiring, hreflects, fun i variant hsettled =>
    hwiring i variant fun hpending => hsettled (himp _ _ hpending)⟩,
    fun i variant hsettled => hheeds i variant fun hpending => hsettled (himp _ _ hpending)⟩

/-- Nothing is to be made up for at a key that is not connected. -/
theorem without_of_not_connected (h : Stable ground configs keys pending engine)
    (hkey : ¬engine.scene.IsConnected key) :
    Stable ground configs keys (pending.without key) engine := by
  refine ⟨h.scene, h.attuned, fun hapart => ?_⟩
  obtain ⟨⟨wiring, hreflects, hwiring⟩, hheeds⟩ := h.wired hapart
  refine ⟨⟨wiring, hreflects, fun i variant hsettled => ?_⟩, fun i variant hsettled => ?_⟩
  · rcases Pending.not_has_without.mp hsettled with hsettled | rfl | rfl
    · exact hwiring i variant hsettled
    · exact iff_of_false (fun hwired => hkey (hreflects.connected i variant hwired).1)
        fun hexpects => hkey hexpects.source
    · exact iff_of_false (fun hwired => hkey (hreflects.connected i variant hwired).2)
        fun hexpects => hkey hexpects.target
  · rcases Pending.not_has_without.mp hsettled with hsettled | rfl | rfl
    · exact hheeds i variant hsettled
    · exact fun _ _ _ hsource => absurd hsource hkey
    · exact fun _ _ _ _ htarget => absurd htarget hkey

end Stable

/-! ### Disconnecting -/

/-- After a disconnection the scene expects what it expected, apart from the variants of the key. -/
theorem Parts.expects_iff {evict : Bool} {after : Engine}
    (h : Parts c key evict engine after)
    (horderly : engine.scene.Orderly ground configs keys)
    (hregistered : engine.scene.registry.get? key = some c) (i : InstanceId) (variant : Variant) :
    engine.scene.Expects configs i variant ∧ ¬variant.Touches key ↔
      after.scene.Expects configs i variant := by
  have hstate := h.queryState
  have hconnected := h.isConnected_iff horderly.toSeated hregistered
  rw [Variant.Touches, not_or]
  constructor
  · rintro ⟨hexpects, hsource, htarget⟩
    exact ⟨hstate.symm ▸ hexpects.chosen, (hconnected _).mpr ⟨hexpects.source, hsource⟩,
      (hconnected _).mpr ⟨hexpects.target, htarget⟩⟩
  · rintro ⟨hchosen, hsource, htarget⟩
    obtain ⟨hsource, hsource_ne⟩ := (hconnected _).mp hsource
    obtain ⟨htarget, htarget_ne⟩ := (hconnected _).mp htarget
    exact ⟨⟨hstate ▸ hchosen, hsource, htarget⟩, hsource_ne, htarget_ne⟩

theorem Quells.heeds {interest : Interest} {after : Engine} {evict : Bool} {i : InstanceId}
    {variant : Variant} (h : Quells interest key engine after)
    (hparts : Parts c key evict engine after)
    (horderly : engine.scene.Orderly ground configs keys)
    (hregistered : engine.scene.registry.get? key = some c)
    (hheeds : Heeds configs engine i variant) :
    Heeds configs after i variant := by
  intro config hi hreaches hsource htarget query hquery
  rw [hparts.queryState] at hreaches
  rw [hparts.isConnected_iff horderly.toSeated hregistered] at hsource htarget
  obtain ⟨listener, hmem, hid, hlistener_source, hlistener_target, hlistener_query⟩ :=
    hheeds config hi hreaches hsource.1 htarget.1 query hquery
  refine ⟨listener, h.listeners i listener hmem ?_ ?_, hid, hlistener_source, hlistener_target,
    hlistener_query⟩
  · exact hlistener_source ▸ hsource.2
  · exact hlistener_target ▸ htarget.2

/-- A disconnection leaves nothing to be made up for at its key. -/
theorem Stable.disconnect (h : Stable ground configs keys pending engine)
    (hregistered : engine.scene.registry.get? key = some c) (evict : Bool) :
    Stable ground configs keys (pending.without key) (engine.disconnect c evict) := by
  have hparts := parts_disconnect h.scene.toSeated hregistered evict
  have hquells := quells_disconnect (interestOf configs h.scene.plain) h.scene.toSeated
    hregistered evict
  have horderly := hparts.orderly h.scene hregistered
  have hkey : ¬(engine.disconnect c evict).scene.IsConnected key := fun hconnected =>
    ((hparts.isConnected_iff h.scene.toSeated hregistered key).mp hconnected).2 rfl
  refine without_of_not_connected ⟨horderly, hquells.attuned h.attuned, fun hapart => ?_⟩ hkey
  obtain ⟨⟨wiring, hreflects, hwiring⟩, hheeds⟩ := h.wired hapart
  refine ⟨⟨_, hreflects.disconnect h.scene hapart hregistered evict, fun i variant hsettled => ?_⟩,
    fun i variant hsettled => hquells.heeds hparts h.scene hregistered (hheeds i variant hsettled)⟩
  rw [hwiring i variant hsettled]
  exact hparts.expects_iff h.scene hregistered i variant

/-! ### Connecting -/

namespace Joins

variable {after : Engine}

/-- What is expected after a connection, apart from the variants of the key, was expected before. -/
theorem expects_iff (h : Joins ground keys keys' c key engine after) (i : InstanceId)
    (variant : Variant) :
    engine.scene.Expects configs i variant ∨
        variant.Touches key ∧ after.scene.Expects configs i variant ↔
      after.scene.Expects configs i variant := by
  constructor
  · rintro (hexpects | ⟨-, hexpects⟩)
    · exact ⟨h.queryState.symm ▸ hexpects.chosen, (h.isConnected_iff _).mpr (.inr hexpects.source),
        (h.isConnected_iff _).mpr (.inr hexpects.target)⟩
    · exact hexpects
  · intro hexpects
    by_cases htouches : variant.Touches key
    · exact .inr ⟨htouches, hexpects⟩
    · rw [Variant.Touches, not_or] at htouches
      exact .inl ⟨h.queryState ▸ hexpects.chosen,
        ((h.isConnected_iff _).mp hexpects.source).resolve_left htouches.1,
        ((h.isConnected_iff _).mp hexpects.target).resolve_left htouches.2⟩

/-- Resolving a key that has just been connected makes the engine stable again. -/
theorem stable (h : Joins ground keys keys' c key engine after)
    (hstable : Stable ground configs keys pending engine) (hindices : KeyTemplate.indices key = [])
    (hoff : ¬engine.scene.IsConnected key) :
    Stable ground configs keys' pending
      ((after.instancesFor key).foldl (resolveIn c key) after) := by
  have horderly := h.orderly hstable.scene hindices
  have hattuned : after.Attuned (interestOf configs horderly.plain) :=
    h.deaf.attuned hstable.attuned
  have hattends := attends_resolve (c := c) horderly.plain horderly hindices
  refine ⟨hattends.scene ▸ horderly, hattends.attuned hattuned, fun hapart => ?_⟩
  obtain ⟨⟨wiring, hreflects, hwiring⟩, hheeds⟩ :=
    hstable.wired (hapart.mono (List.Subset.refl _) h.kept)
  have hnone (i : InstanceId) (variant : Variant) (hwired : wiring i variant) :
      ¬variant.Touches key := by
    obtain ⟨hsource, htarget⟩ := hreflects.connected i variant hwired
    rintro (rfl | rfl)
    · exact hoff hsource
    · exact hoff htarget
  have hjoined : Reflects ground configs wiring after := by
    refine ⟨fun wire => ?_, fun i text => ?_, hreflects.declared, fun i variant hwired => ?_⟩
    · rw [h.wires_eq]
      exact hreflects.wires wire
    · rw [h.inst_eq]
      exact hreflects.memo i text
    · obtain ⟨hsource, htarget⟩ := hreflects.connected i variant hwired
      exact ⟨(h.isConnected_iff _).mpr (.inr hsource), (h.isConnected_iff _).mpr (.inr htarget)⟩
  refine ⟨⟨_, hjoined.resolve horderly h.connectedController?_self fun i variant hwired htouches =>
      absurd htouches (hnone i variant hwired), fun i variant hsettled => ?_⟩,
    fun i variant hsettled => ?_⟩
  · rw [hattends.scene, hwiring i variant hsettled]
    exact h.expects_iff i variant
  · by_cases htouches : variant.Touches key
    · exact heeds_resolve hjoined horderly hindices hattuned hnone htouches
    · refine Heeds.attends (fun config hi hreaches hsource htarget query hquery => ?_) hattends
      rw [Variant.Touches, not_or] at htouches
      rw [h.queryState] at hreaches
      obtain ⟨listener, hmem, hlistener⟩ := hheeds i variant hsettled config hi hreaches
        (((h.isConnected_iff _).mp hsource).resolve_left htouches.1)
        (((h.isConnected_iff _).mp htarget).resolve_left htouches.2) query hquery
      exact ⟨listener, (h.deaf.listeners i).symm ▸ hmem, hlistener⟩

end Joins

/-- The keys of an orderly scene have no indices. -/
theorem indices_of_registered (horderly : engine.scene.Orderly ground configs keys)
    (hregistered : engine.scene.registry.get? key = some c) : KeyTemplate.indices key = [] :=
  horderly.indices key (List.mem_of_getElem? (horderly.registered key c hregistered))

namespace Stable

theorem connect (h : Stable ground configs keys pending engine)
    (hregistered : engine.scene.registry.get? key = some c) (requested : Option String) :
    Stable ground configs keys pending (engine.connect c requested).1 := by
  rcases connect_cases h.scene.toSeated hregistered requested with
    ⟨-, heq⟩ | ⟨hoff, after, hjoins, heq⟩ <;> rw [heq]
  · exact h
  · exact hjoins.stable h (indices_of_registered h.scene hregistered) hoff

/-- An update makes up for everything at its key. -/
theorem update (h : Stable ground configs keys pending engine)
    (hregistered : engine.scene.registry.get? key = some c) :
    Stable ground configs keys (pending.without key) (engine.update c).1 :=
  (h.disconnect hregistered false).connect
    (registered_disconnect h.scene.toSeated hregistered) none

theorem addNode (h : Stable ground configs keys pending engine) (hkey : key ≠ "")
    (hindices : KeyTemplate.indices key = []) :
    ∃ keys', keys' ⊆ keys ++ [key] ∧
      Stable ground configs keys' pending (engine.addNode (ground.nodeOf key) key).1 := by
  rcases addNode_cases h.scene.toSeated hkey with ⟨-, heq⟩ |
    ⟨hoff, keys', c, after, hjoins, heq⟩ <;>
    rw [heq]
  · exact ⟨keys, List.subset_append_left .., h⟩
  · exact ⟨keys', hjoins.added, hjoins.stable h hindices hoff⟩

theorem removeKey (h : Stable ground configs keys pending engine) (key : String) :
    Stable ground configs keys pending (engine.removeKey key).1 :=
  removeKey_ind h fun _ hregistered =>
    (h.disconnect hregistered true).mono fun _ _ hpending => hpending.1

theorem queryState_removeKey (h : Stable ground configs keys pending engine) (key : String) :
    (engine.removeKey key).1.scene.queryState = engine.scene.queryState :=
  removeKey_ind (P := fun after : Engine => after.scene.queryState = _) rfl
    fun _ hregistered => (parts_disconnect h.scene.toSeated hregistered true).queryState

end Stable

/-! ### What is retained -/

/-- One engine comes from another with the same states of the queries and without losing a
listener. -/
structure Retains (before after : Engine) : Prop where
  queryState : after.scene.queryState = before.scene.queryState
  listeners (i : InstanceId) : (before.inst i).listeners ⊆ (after.inst i).listeners

namespace Retains

theorem refl (engine : Engine) : Retains engine engine := ⟨rfl, fun _ => List.Subset.refl _⟩

theorem trans {before middle after : Engine} (first : Retains before middle)
    (second : Retains middle after) : Retains before after :=
  ⟨second.queryState.trans first.queryState,
    fun i => List.Subset.trans (first.listeners i) (second.listeners i)⟩

end Retains

theorem Joins.retains {after : Engine}
    (h : Joins ground keys keys' c key engine after)
    (horderly : engine.scene.Orderly ground configs keys)
    (hindices : KeyTemplate.indices key = []) :
    Retains engine ((after.instancesFor key).foldl (resolveIn c key) after) := by
  have horderly' := h.orderly horderly hindices
  have hattends := attends_resolve (c := c) horderly'.plain horderly' hindices
  refine ⟨?_, fun i => h.deaf.listeners i ▸ hattends.listeners i⟩
  rw [hattends.scene, h.queryState]

namespace Stable

theorem retains_connect (h : Stable ground configs keys pending engine)
    (hregistered : engine.scene.registry.get? key = some c) (requested : Option String) :
    Retains engine (engine.connect c requested).1 := by
  rcases connect_cases h.scene.toSeated hregistered requested with
    ⟨-, heq⟩ | ⟨-, after, hjoins, heq⟩ <;> rw [heq]
  · exact .refl engine
  · exact hjoins.retains h.scene (indices_of_registered h.scene hregistered)

theorem retains_update (h : Stable ground configs keys pending engine)
    (hregistered : engine.scene.registry.get? key = some c) :
    Retains engine (engine.update c).1 := by
  have hparts := parts_disconnect h.scene.toSeated hregistered false
  have hdisconnect : Retains engine (engine.disconnect c false) :=
    ⟨hparts.queryState, fun i =>
      (deaf_disconnect h.scene.toSeated hregistered).listeners i ▸ List.Subset.refl _⟩
  exact hdisconnect.trans ((h.disconnect hregistered false).retains_connect
    (registered_disconnect h.scene.toSeated hregistered) none)

theorem retains_addNode (h : Stable ground configs keys pending engine) (hkey : key ≠ "")
    (hindices : KeyTemplate.indices key = []) :
    Retains engine (engine.addNode (ground.nodeOf key) key).1 := by
  rcases addNode_cases h.scene.toSeated hkey with ⟨-, heq⟩ |
    ⟨-, keys', c, after, hjoins, heq⟩ <;> rw [heq]
  · exact .refl engine
  · exact hjoins.retains h.scene hindices

end Stable

end InteractionBinding.Engine
