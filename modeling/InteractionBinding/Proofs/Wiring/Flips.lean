import InteractionBinding.Engine.Delivery
import InteractionBinding.Proofs.Wiring.Stability
/-!
# Flips of queries

When a query flips, a choice can change only for pairs of keys on whose behalf some instance listens
to the query (`Engine.Stable.flipped`). These pairs are pending until their listeners are called,
and each call settles the pair of its listener. Delivering the flip calls all of them, so the engine
is stable again afterwards (`Engine.Stable.setQuery`).
-/

namespace InteractionBinding.Engine

variable {ground : Ground} {configs : List Config} {keys : List String} {pending : Pending}
  {engine : Engine} {i : InstanceId} {c : ControllerId} {key source target : String}
  {config : Config} {query : Query} {isMatch : Bool}

/-- The engine in which a query has flipped and nobody has been told. -/
def flipped (engine : Engine) (query : Query) (isMatch : Bool) : Engine :=
  { engine with
    host := { engine.host with
      queryState := fun other => if other = query then isMatch else engine.host.queryState other } }

/-- The pairs of keys on whose behalf some instance listens to a query. -/
def awaiting (engine : Engine) (query : Query) : Pending := fun source target =>
  ∃ i, ∃ listener ∈ (engine.inst i).listeners,
    listener.source = source ∧ listener.target = target ∧ listener.query = query

/-- A flip leaves the alternatives of an id as they are if nobody awaits the query for its keys. -/
theorem chooses_and_reaches_flipped (hi : configs[i]? = some config) {variant : Variant}
    (hdeclares : config.Declares variant) (hheeds : ∀ other, Heeds configs engine i other)
    (hsource : engine.scene.IsConnected variant.rule.key)
    (htarget : engine.scene.IsConnected variant.effect.target)
    (hnobody : ¬(engine.awaiting query).Has variant) :
    (config.Chooses (config.isOpen (engine.flipped query isMatch).scene.queryState) variant ↔
        config.Chooses (config.isOpen engine.scene.queryState) variant) ∧
      (config.Reaches (config.isOpen (engine.flipped query isMatch).scene.queryState) variant ↔
        config.Reaches (config.isOpen engine.scene.queryState) variant) := by
  refine Config.chooses_and_reaches_congr fun other hreaches hid => ?_
  have hrule := hreaches.declares.rule_eq hdeclares hid
  have hlands : other.effect.target = variant.effect.target := by
    rw [← hreaches.declares.target_eq, ← hdeclares.target_eq, hid]
  refine Config.isOpen_congr fun asked hasked => ?_
  have hne : asked ≠ query := by
    rintro rfl
    obtain ⟨listener, hmem, -, hlistener⟩ := hheeds other config hi hreaches (hrule ▸ hsource)
      (hlands ▸ htarget) asked hasked
    exact hnobody ⟨i, listener, hmem, hrule ▸ hlistener.1, hlands ▸ hlistener.2.1, hlistener.2.2⟩
  exact (if_neg hne).symm

/-- After a flip only those pairs are pending that await the query. -/
theorem Stable.flipped (h : Stable ground configs keys .none engine) (query : Query)
    (isMatch : Bool) :
    Stable ground configs keys (engine.awaiting query) (engine.flipped query isMatch) := by
  have hdeaf : Deaf engine (engine.flipped query isMatch) := ⟨rfl, fun _ => rfl⟩
  refine ⟨h.scene.withQueries _, hdeaf.attuned h.attuned, fun hapart => ?_⟩
  obtain ⟨⟨wiring, hreflects, hwiring⟩, hheeds⟩ := h.wired hapart
  have hheeds (i : InstanceId) (variant : Variant) := hheeds i variant id
  have hconnected (key : String) : (engine.flipped query isMatch).scene.IsConnected key ↔
      engine.scene.IsConnected key := Iff.rfl
  refine ⟨⟨wiring, ⟨hreflects.wires, hreflects.memo, hreflects.declared, hreflects.connected⟩,
    fun i variant hnobody => ?_⟩, fun i variant hnobody config hi hreaches hsource htarget => ?_⟩
  · rw [hwiring i variant id]
    constructor
    · rintro ⟨⟨config, hi, hchooses⟩, hsource, htarget⟩
      have hsame := @chooses_and_reaches_flipped configs engine i config query isMatch hi variant
        hchooses.declares (hheeds i) hsource htarget hnobody
      exact ⟨⟨config, hi, hsame.1.mpr hchooses⟩, hsource, htarget⟩
    · rintro ⟨⟨config, hi, hchooses⟩, hsource, htarget⟩
      have hsame := @chooses_and_reaches_flipped configs engine i config query isMatch hi variant
        hchooses.declares (hheeds i) hsource htarget hnobody
      exact ⟨⟨config, hi, hsame.1.mp hchooses⟩, hsource, htarget⟩
  · have hsame := @chooses_and_reaches_flipped configs engine i config query isMatch hi variant
      hreaches.declares (hheeds i) hsource htarget hnobody
    exact hheeds i variant config hi (hsame.2.mp hreaches) hsource htarget

/-! ### Calling listeners -/

/-- Updating a key, if it is connected, makes up for everything at the key. -/
theorem Stable.updateKey (h : Stable ground configs keys pending engine) (key : String) :
    let updated := match engine.connectedController? key with
      | some c => (engine.update c).1
      | none => engine
    Stable ground configs keys (pending.without key) updated ∧ Retains engine updated := by
  dsimp only
  cases hconnected : engine.connectedController? key with
  | none =>
    rw [Engine.connectedController?_eq] at hconnected
    refine ⟨h.without_of_not_connected fun hkey => ?_, .refl engine⟩
    rw [Scene.IsConnected, hconnected] at hkey
    cases hkey
  | some c =>
    have hregistered : engine.scene.registry.get? key = some c :=
      (Option.filter_eq_some_iff.mp hconnected).1
    exact ⟨h.update hregistered, h.retains_update hregistered⟩

/-- Calling the listener of a pair of keys makes up for the pair. -/
theorem Stable.reconcile (h : Stable ground configs keys pending engine) (source target : String) :
    Stable ground configs keys (pending.without source) (engine.reconcile source target) ∧
      Retains engine (engine.reconcile source target) := by
  obtain ⟨hsource, hretains⟩ := h.updateKey source
  simp only [Engine.reconcile]
  split
  · exact ⟨hsource, hretains⟩
  · obtain ⟨htarget, hretains'⟩ := hsource.updateKey target
    exact ⟨htarget.mono fun _ _ hpending => hpending.1, hretains.trans hretains'⟩

/-! ### Delivering -/

/-- Every pending pair has a listener that is still to be called. -/
def Heralds (engine : Engine) (pending : Pending) (rest : List (Token × QuerySubscription)) :
    Prop :=
  ∀ source target, pending source target → ∃ i, ∃ listener ∈ (engine.inst i).listeners,
    listener.source = source ∧ listener.target = target ∧
      (listener.token, subscriptionOf listener) ∈ rest

/-- Calling the listeners of pending pairs one after the other makes the engine stable. -/
theorem Stable.deliver {rest : List (Token × QuerySubscription)}
    (h : Stable ground configs keys pending engine) (hheralds : Heralds engine pending rest) :
    let delivered :=
      ListenerSet.deliver (fun engine => engine.host.subscriptions) callListener rest engine
    Stable ground configs keys .none delivered ∧ Retains engine delivered := by
  dsimp only
  induction rest generalizing engine pending with
  | nil =>
    refine ⟨h.mono fun source target hpending => ?_, .refl engine⟩
    obtain ⟨i, listener, -, -, -, hmem⟩ := hheralds source target hpending
    cases hmem
  | cons entry rest ih =>
    have hcons : ListenerSet.deliver (fun engine : Engine => engine.host.subscriptions) callListener
        (entry :: rest) engine =
          ListenerSet.deliver (fun engine => engine.host.subscriptions) callListener rest
            (if engine.host.subscriptions.contains entry.1 then callListener entry.2 engine
              else engine) := rfl
    rw [hcons]
    split
    next =>
      rw [callListener]
      split
      next hinert =>
        refine ih h fun source target hpending => ?_
        obtain ⟨i, listener, hmem, hsource, htarget, hentry⟩ := hheralds source target hpending
        rcases List.mem_cons.mp hentry with rfl | hentry
        · cases hinert
        · exact ⟨i, listener, hmem, hsource, htarget, hentry⟩
      next source target hcalled =>
        have hrunning : engine.running = true := h.scene.running
        rw [if_pos hrunning]
        obtain ⟨hreconciled, hretains⟩ := h.reconcile source target
        obtain ⟨hstable, hretains'⟩ := ih hreconciled fun source' target' hpending => by
          obtain ⟨hpending, hother, -⟩ := hpending
          obtain ⟨i, listener, hmem, hsource, htarget, hentry⟩ :=
            hheralds source' target' hpending
          rcases List.mem_cons.mp hentry with rfl | hentry
          · exact absurd (QueryListener.reconcile.inj hcalled).1 (hsource.symm ▸ hother)
          · exact ⟨i, listener, hretains.listeners i hmem, hsource, htarget, hentry⟩
        exact ⟨hstable, hretains.trans hretains'⟩
    next hended =>
      -- a pending pair whose listener were the one that has been skipped would still have it
      refine ih h fun source target hpending => ?_
      obtain ⟨i, listener, hmem, hsource, htarget, hentry⟩ := hheralds source target hpending
      rcases List.mem_cons.mp hentry with rfl | hentry
      · refine absurd (List.any_eq_true.mpr ⟨_, h.attuned.subscribed i listener hmem, ?_⟩) hended
        exact decide_eq_true rfl
      · exact ⟨i, listener, hmem, hsource, htarget, hentry⟩

/-- An engine stays stable when a query flips. -/
theorem Stable.setQuery (h : Stable ground configs keys .none engine) (query : Query)
    (isMatch : Bool) :
    Stable ground configs keys .none (engine.setQuery query isMatch).1 ∧
      (engine.setQuery query isMatch).1.scene.queryState = fun other =>
        if other = query then isMatch else engine.scene.queryState other := by
  rw [Engine.setQuery]
  split
  next hsame =>
    refine ⟨h, funext fun other => ?_⟩
    split
    next heq => rw [heq, ← hsame]; rfl
    next => rfl
  · have hheralds : Heralds (engine.flipped query isMatch) (engine.awaiting query)
        (engine.host.subscriptions.snapshot fun subscription => subscription.query = query) := by
      rintro source target ⟨i, listener, hmem, hsource, htarget, hquery⟩
      refine ⟨i, listener, hmem, hsource, htarget, List.mem_filter.mpr ⟨?_, decide_eq_true hquery⟩⟩
      exact h.attuned.subscribed i listener hmem
    obtain ⟨hstable, hretains⟩ := (h.flipped query isMatch).deliver hheralds
    exact ⟨hstable, hretains.queryState⟩

end InteractionBinding.Engine
