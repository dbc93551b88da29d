import InteractionBinding.Proofs.Wiring.Stability
/-!
# Founding an instance

A new instance resolves the registered controllers that are connected under keys it knows, one after
the other. Every variant of the new instance between connected keys is reached from its source, so
the engine is stable afterwards (`Engine.Stable.create`).
-/

namespace InteractionBinding.Engine

variable {ground : Ground} {configs : List Config} {keys : List String} {engine : Engine}
  {i : InstanceId} {c : ControllerId} {key : String} {config : Config}

/-- The engine with a new live instance, for which nothing has been resolved. -/
def founded (engine : Engine) (config : Config) : Engine :=
  { engine with
    instances := engine.instances ++ [Instance.ofConfig config]
    live := engine.live ++ [engine.instances.length] }

theorem scene_founded (engine : Engine) (config : Config) :
    (engine.founded config).scene = engine.scene.found config := by
  simp only [scene, founded, Scene.found, List.map_append, List.map_singleton, List.length_map]
  rfl

/-- The new instance holds nothing. -/
theorem inst_founded (engine : Engine) (config : Config) (i : InstanceId) :
    ((engine.founded config).inst i).memo = (engine.inst i).memo ∧
      ((engine.founded config).inst i).listeners = (engine.inst i).listeners := by
  rw [inst, founded, getD_append_singleton]
  split
  next heq =>
    rw [inst_eq_default (Nat.le_of_eq heq.symm)]
    exact ⟨rfl, rfl⟩
  next => exact ⟨rfl, rfl⟩

/-- What is covered by an interest may be covered by another. -/
theorem Attuned.mono {interest interest' : Interest} (h : engine.Attuned interest)
    (himp : ∀ i id source target query, interest.Covers i id source target query →
      interest'.Covers i id source target query) : engine.Attuned interest' :=
  ⟨fun i listener hmem => himp _ _ _ _ _ (h.covered i listener hmem), h.subscribed, h.fresh,
    h.distinct⟩

theorem getElem?_append_singleton_of_some {α : Type} {l : List α} {a b : α} {n : Nat}
    (h : l[n]? = some b) : (l ++ [a])[n]? = some b := by
  obtain ⟨hlength, -⟩ := List.getElem?_eq_some_iff.mp h
  rw [List.getElem?_append_left hlength, h]

theorem attuned_founded (hplain : ∀ config ∈ configs, config.IsPlain)
    (hplain' : ∀ other ∈ configs ++ [config], other.IsPlain)
    (h : engine.Attuned (interestOf configs hplain)) :
    (engine.founded config).Attuned (interestOf (configs ++ [config]) hplain') := by
  have hdeaf : Deaf engine (engine.founded config) :=
    ⟨rfl, fun i => (inst_founded engine config i).2⟩
  refine (hdeaf.attuned h).mono fun i id source target query => ?_
  rintro ⟨other, variant, hi, hcovers⟩
  exact ⟨other, variant, getElem?_append_singleton_of_some hi, hcovers⟩

theorem expects_founded_iff (scene : Scene) (i : InstanceId) (variant : Variant) :
    (scene.found config).Expects (configs ++ [config]) i variant ↔
      scene.Expects configs i variant ∨
        i = configs.length ∧ (scene.found config).Expects (configs ++ [config]) i variant := by
  constructor
  · intro hexpects
    obtain ⟨other, hi, hchooses⟩ := hexpects.chosen
    by_cases hnew : i = configs.length
    · exact .inr ⟨hnew, hexpects⟩
    · have hold := Scene.getElem?_of_append hnew hi
      exact .inl ⟨⟨other, hold, hchooses⟩, hexpects.source, hexpects.target⟩
  · rintro (⟨⟨other, hi, hchooses⟩, hsource, htarget⟩ | ⟨-, hexpects⟩)
    · exact ⟨⟨other, getElem?_append_singleton_of_some hi, hchooses⟩, hsource, htarget⟩
    · exact hexpects

/-- A new instance has wired nothing yet. -/
theorem Reflects.founded (h : Reflects ground configs (engine.scene.Expects configs) engine) :
    Reflects ground (configs ++ [config]) (engine.scene.Expects configs)
    (engine.founded config) where
  wires := h.wires
  memo i text := by
    rw [(inst_founded engine config i).1]
    exact h.memo i text
  declared i variant hexpects := by
    obtain ⟨other, hi, hdeclares⟩ := h.declared i variant hexpects
    exact ⟨other, getElem?_append_singleton_of_some hi, hdeclares⟩
  connected i variant hexpects := by
    rw [scene_founded]
    exact ⟨hexpects.source, hexpects.target⟩

/-! ### Resolving what is registered -/

theorem resolveForInstance_eq (horderly : engine.scene.Orderly ground configs keys)
    (hregistered : engine.scene.registry.get? key = some c) :
    resolveForInstance i engine c =
      if (engine.controller c).connected && (engine.inst i).graph.knows key then
        (engine.instancesFor key).foldl (resolveIn c key) engine
      else engine := by
  obtain ⟨-, hkey, -⟩ := registered_spec horderly.toSeated hregistered
  have hget : engine.registry.get? key = some c := hregistered
  simp only [resolveForInstance, hkey]
  cases (engine.controller c).connected with
  | false => rfl
  | true => rw [← resolve_of_registered hget]; rfl

/-- The controller registered under a connected key is connected. -/
theorem connected_of_isConnected (hregistered : engine.scene.registry.get? key = some c)
    (hkey : engine.scene.IsConnected key) : (engine.controller c).connected = true := by
  obtain ⟨d, hd⟩ := Option.isSome_iff_exists.mp hkey
  obtain ⟨hget, hconnected⟩ := Option.filter_eq_some_iff.mp hd
  obtain rfl := Option.some.inj (hget.symm.trans hregistered)
  rw [scene_controller] at hconnected
  exact hconnected

theorem attends_resolveForInstance (hplain : ∀ config ∈ configs, config.IsPlain) {start : Engine}
    (horderly : start.scene.Orderly ground configs keys)
    (hc : ∃ key, start.scene.registry.get? key = some c) (hscene : engine.scene = start.scene) :
    Attends (interestOf configs hplain) engine (resolveForInstance i engine c) ∧
      (resolveForInstance i engine c).scene = start.scene := by
  obtain ⟨key, hregistered⟩ := hc
  have horderly' : engine.scene.Orderly ground configs keys := hscene ▸ horderly
  have hindices := horderly.indices key
    (List.mem_of_getElem? (horderly.registered key c hregistered))
  rw [resolveForInstance_eq horderly' (hscene ▸ hregistered)]
  split
  · have hattends := attends_resolve (c := c) hplain horderly' hindices
    exact ⟨hattends, hattends.scene.trans hscene⟩
  · exact ⟨.refl _, hscene⟩

/-- Resolving a registered controller for an instance adds variants that are expected, among them
those of its key. -/
theorem Reflects.resolveForInstance {wiring : Wiring} (h : Reflects ground configs wiring engine)
    (horderly : engine.scene.Orderly ground configs keys)
    (hregistered : engine.scene.registry.get? key = some c)
    (hexpected : ∀ j variant, wiring j variant → engine.scene.Expects configs j variant) :
    ∃ wiring', Reflects ground configs wiring' (Engine.resolveForInstance i engine c) ∧
      (∀ j variant, wiring j variant → wiring' j variant) ∧
      (∀ j variant, wiring' j variant → engine.scene.Expects configs j variant) ∧
      (engine.scene.IsConnected key → (engine.inst i).graph.knows key = true →
        ∀ j variant, variant.Touches key → engine.scene.Expects configs j variant →
          wiring' j variant) := by
  rw [resolveForInstance_eq horderly hregistered]
  split
  next hresolved =>
    have hself : engine.connectedController? key = some c := by
      have hconnected := (Bool.and_eq_true_iff.mp hresolved).1
      rw [Engine.connectedController?, show engine.registry.get? key = some c from hregistered,
        Option.filter_some, if_pos hconnected]
    refine ⟨_, h.resolve horderly hself fun j variant hwired _ => hexpected j variant hwired,
      fun j variant => .inl, fun j variant hwired => ?_, fun _ _ j variant htouches hexpects =>
        .inr ⟨htouches, hexpects⟩⟩
    exact hwired.elim (hexpected j variant) And.right
  next hunresolved =>
    refine ⟨wiring, h, fun _ _ hwired => hwired, hexpected, fun hkey hknows => ?_⟩
    have hconnected := connected_of_isConnected hregistered hkey
    exact absurd (Bool.and_eq_true_iff.mpr ⟨hconnected, hknows⟩) hunresolved

theorem Reflects.foldl_resolveForInstance {controllers : List ControllerId} {wiring : Wiring}
    (h : Reflects ground configs wiring engine)
    (horderly : engine.scene.Orderly ground configs keys)
    (hregistered : ∀ c ∈ controllers, ∃ key, engine.scene.registry.get? key = some c)
    (hexpected : ∀ j variant, wiring j variant → engine.scene.Expects configs j variant) :
    ∃ wiring', Reflects ground configs wiring'
        (controllers.foldl (Engine.resolveForInstance i) engine) ∧
      (∀ j variant, wiring j variant → wiring' j variant) ∧
      (∀ j variant, wiring' j variant → engine.scene.Expects configs j variant) ∧
      (∀ c ∈ controllers, ∀ key, engine.scene.registry.get? key = some c →
        engine.scene.IsConnected key → (engine.inst i).graph.knows key = true →
          ∀ j variant, variant.Touches key → engine.scene.Expects configs j variant →
            wiring' j variant) := by
  induction controllers generalizing engine wiring with
  | nil => exact ⟨wiring, h, fun _ _ hwired => hwired, hexpected, fun _ hc => nomatch hc⟩
  | cons c rest ih =>
    obtain ⟨key, hkey⟩ := hregistered c (.head _)
    obtain ⟨-, hscene⟩ :=
      attends_resolveForInstance (i := i) horderly.plain horderly ⟨key, hkey⟩ rfl
    obtain ⟨middle, hmiddle, hkept, hmiddle_expected, hown⟩ :=
      h.resolveForInstance (i := i) horderly hkey hexpected
    obtain ⟨wiring', hrest, hkept', hrest_expected, hothers⟩ := ih hmiddle (hscene ▸ horderly)
      (fun d hd => hscene.symm ▸ hregistered d (.tail _ hd)) (hscene.symm ▸ hmiddle_expected)
    rw [hscene] at hrest_expected hothers
    refine ⟨wiring', hrest, fun j variant hwired => hkept' j variant (hkept j variant hwired),
      hrest_expected, fun d hd other hother hconnected hknows j variant htouches hexpects => ?_⟩
    rcases List.mem_cons.mp hd with rfl | hd
    · have hsame : other = key := by
        have hfirst := horderly.registered other d hother
        rw [horderly.registered key d hkey] at hfirst
        exact (Option.some.inj hfirst).symm
      subst hsame
      exact hkept' j variant (hown hconnected hknows j variant htouches hexpects)
    · refine hothers d hd other hother hconnected ?_ j variant htouches hexpects
      rw [graph_inst_eq, hscene, ← graph_inst_eq]
      exact hknows

/-! ### Creating -/

theorem create_eq (engine : Engine) (config : Config) :
    (engine.create config).1 = engine.registry.values.foldl
      (resolveForInstance engine.instances.length) (engine.founded config) :=
  rfl

/-- A resolution of the registered controllers attends to what the plain configurations listen for.
-/
theorem attends_foldl_resolveForInstance (horderly : engine.scene.Orderly ground configs keys)
    {controllers : List ControllerId}
    (hregistered : ∀ c ∈ controllers, ∃ key, engine.scene.registry.get? key = some c) :
    Attends (interestOf configs horderly.plain) engine
      (controllers.foldl (Engine.resolveForInstance i) engine) :=
  (attends_foldl (P := fun state => state.scene = engine.scene)
    (fun _ c hc hscene =>
      attends_resolveForInstance horderly.plain horderly (hregistered c hc) hscene) rfl).1

/-- An instance hears the queries of its variants between connected keys once the controllers of
their sources have been resolved for it. -/
theorem heeds_foldl_resolveForInstance (horderly : engine.scene.Orderly ground configs keys)
    {controllers : List ControllerId}
    (hregistered : ∀ c ∈ controllers, ∃ key, engine.scene.registry.get? key = some c)
    (hcomplete : ∀ key c, engine.scene.registry.get? key = some c → c ∈ controllers)
    (hattuned : engine.Attuned (interestOf configs horderly.plain)) (variant : Variant) :
    Heeds configs (controllers.foldl (Engine.resolveForInstance i) engine) i variant := by
  intro config hi hreaches hsource htarget query hquery
  have hattends := attends_foldl_resolveForInstance (i := i) horderly hregistered
  rw [hattends.scene] at hreaches hsource htarget
  obtain ⟨c, hc⟩ := Option.isSome_iff_exists.mp hsource
  have hget := (Option.filter_eq_some_iff.mp hc).1
  have hindices := horderly.indices _ (horderly.mem_keys_of_connected hsource)
  refine hears_foldl (P := fun state => state.scene = engine.scene)
    (fun _ d hd hscene =>
      attends_resolveForInstance horderly.plain horderly (hregistered d hd) hscene) rfl hattuned
    (hcomplete _ c hget) fun state hscene hstate => ?_
  have horderly' : state.scene.Orderly ground configs keys := hscene ▸ horderly
  have hknows : (state.inst i).graph.knows variant.rule.key = true := by
    rw [graph_inst_eq]
    exact horderly'.knows_of_touches hi hindices hreaches.declares (.inl rfl)
  have hconnected := connected_of_isConnected (hscene.symm ▸ hget) (hscene.symm ▸ hsource)
  rw [resolveForInstance_eq horderly' (hscene.symm ▸ hget), hconnected, hknows]
  have hattends' := attends_resolve (c := c) horderly'.plain horderly' hindices
  refine heeds_resolve_source horderly' hindices hstate rfl config hi ?_ ?_ ?_ query hquery <;>
    rw [hattends'.scene, hscene]
  · exact hreaches
  · exact hsource
  · exact htarget

theorem Stable.founded {pending : Pending} (h : Stable ground configs keys pending engine)
    (hplain : config.IsPlain) :
    (engine.founded config).scene.Orderly ground (configs ++ [config]) keys :=
  scene_founded engine config ▸ h.scene.found hplain

theorem Stable.length_instances {pending : Pending}
    (h : Stable ground configs keys pending engine) :
    engine.instances.length = configs.length := by
  have hinstances := congrArg List.length h.scene.instances
  rwa [Engine.scene, List.length_map, List.length_map] at hinstances

/-- The registered controllers are those that a new instance resolves. -/
theorem mem_values_iff_founded (engine : Engine) (config : Config) (c : ControllerId) :
    c ∈ engine.registry.values ↔
      ∃ key, (engine.founded config).scene.registry.get? key = some c :=
  KeyMap.mem_values_iff

theorem attends_create {pending : Pending} (h : Stable ground configs keys pending engine)
    (hplain : config.IsPlain) :
    Attends (interestOf (configs ++ [config]) (h.founded hplain).plain) (engine.founded config)
      (engine.create config).1 := by
  rw [create_eq]
  exact attends_foldl_resolveForInstance (h.founded hplain) fun c hc =>
    (mem_values_iff_founded engine config c).mp hc

/-- Creating an instance changes the scene only by the new instance. -/
theorem Stable.scene_create {pending : Pending} (h : Stable ground configs keys pending engine)
    (hplain : config.IsPlain) : (engine.create config).1.scene = engine.scene.found config :=
  (attends_create h hplain).scene.trans (scene_founded engine config)

/-- Creating an instance adds the variants of the new instance that are expected. -/
theorem reflects_create (h : Stable ground configs keys .none engine) (hplain : config.IsPlain)
    (hreflects : Reflects ground configs (engine.scene.Expects configs) engine) :
    Reflects ground (configs ++ [config])
      ((engine.create config).1.scene.Expects (configs ++ [config])) (engine.create config).1 := by
  have horderly := h.founded hplain
  obtain ⟨wiring, hwired, hkept, hexpected, hnew⟩ :=
    hreflects.founded.foldl_resolveForInstance (i := engine.instances.length) horderly
      (fun c hc => (mem_values_iff_founded engine config c).mp hc) fun i variant hexpects =>
        scene_founded engine config ▸
          (expects_founded_iff engine.scene i variant).mpr (.inl hexpects)
  refine hwired.congr fun i variant => ?_
  rw [(attends_create h hplain).scene]
  refine ⟨hexpected i variant, fun hexpects => ?_⟩
  rcases (expects_founded_iff engine.scene i variant).mp
    (scene_founded engine config ▸ hexpects) with hold | ⟨rfl, -⟩
  · exact hkept i variant hold
  · -- a variant of the new instance is reached from its source
    obtain ⟨c, hc⟩ := Option.isSome_iff_exists.mp hexpects.source
    have hget := (Option.filter_eq_some_iff.mp hc).1
    have hindices := horderly.indices _ (horderly.mem_keys_of_connected hexpects.source)
    obtain ⟨config', hi, hchooses⟩ := hexpects.chosen
    refine hnew c ((mem_values_iff_founded engine config c).mpr ⟨_, hget⟩) _ hget hexpects.source
      ?_ _ variant (.inl rfl) hexpects
    rw [h.length_instances, graph_inst_eq]
    exact horderly.knows_of_touches hi hindices hchooses.declares (.inl rfl)

/-- Creating an instance leaves the old instances as heedful as they are, and the new one heeds all
its variants. -/
theorem heeds_create (h : Stable ground configs keys .none engine) (hplain : config.IsPlain)
    (hheeds : ∀ i variant, Heeds configs engine i variant) (i : InstanceId) (variant : Variant) :
    Heeds (configs ++ [config]) (engine.create config).1 i variant := by
  have horderly := h.founded hplain
  by_cases hi : i = engine.instances.length
  · subst hi
    rw [create_eq]
    exact heeds_foldl_resolveForInstance horderly
      (fun c hc => (mem_values_iff_founded engine config c).mp hc)
      (fun key c hget => (mem_values_iff_founded engine config c).mpr ⟨key, hget⟩)
      (attuned_founded h.scene.plain horderly.plain h.attuned) variant
  · refine Heeds.attends (fun other hother hreaches hsource htarget query hquery => ?_)
      (attends_create h hplain)
    rw [scene_founded] at hreaches hsource htarget
    obtain ⟨listener, hmem, hlistener⟩ := hheeds i variant other
      (Scene.getElem?_of_append (h.length_instances ▸ hi) hother) hreaches hsource htarget query
      hquery
    exact ⟨listener, (inst_founded engine config i).2.symm ▸ hmem, hlistener⟩

/-- An engine stays stable when an instance is created. -/
theorem Stable.create (h : Stable ground configs keys .none engine) (hplain : config.IsPlain) :
    Stable ground (configs ++ [config]) keys .none (engine.create config).1 := by
  have hattends := attends_create h hplain
  refine ⟨hattends.scene ▸ h.founded hplain,
    hattends.attuned (attuned_founded h.scene.plain (h.founded hplain).plain h.attuned),
    fun hapart => ?_⟩
  obtain ⟨⟨wiring, hreflects, hwiring⟩, hheeds⟩ :=
    h.wired (hapart.mono (List.subset_append_left ..) (List.Subset.refl _))
  have hexpects := hreflects.congr fun i variant => hwiring i variant id
  exact ⟨⟨_, reflects_create h hplain hexpects, fun _ _ _ => .rfl⟩,
    fun i variant _ => heeds_create h hplain (fun i variant => hheeds i variant id) i variant⟩

end InteractionBinding.Engine
