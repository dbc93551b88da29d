import InteractionBinding.Config.Builder
import InteractionBinding.Proofs.Subscriptions.Vigils
import InteractionBinding.Proofs.Lifecycle.Covering
import InteractionBinding.Proofs.Wiring.ListCalls
/-!
# Runs on guard

Every operation keeps the vigil over lists, unless it stops the engine, keeps an id or registers a
controller by hand, or reads a document in which containers are not where they were
(`Engine.Undisturbed`). So in a run of undisturbed operations the owner of a list for which an id is
kept as applied observes the container (`Engine.run_attended`).

The container has to be there when the id is kept. An id is kept all the same if it is not, and
nobody observes the container that appears later. If two lists find the same container by different
selectors, it is observed under one of them only.
-/

namespace InteractionBinding.Engine

variable {engine before after : Engine} {c : ControllerId} {i : InstanceId} {key : String}

/-- An engine on its vigil in which no live instance has been destroyed and every instance is
compiled. -/
structure OnGuard (engine : Engine) : Prop where
  tidy : engine.Tidy
  compiled : engine.Compiled
  vigil : engine.Vigil

theorem OnGuard.of_evolves {occasion : Occasion} (h : before.OnGuard)
    (hevolves : Evolves occasion before after) (hvigil : after.Vigil) : after.OnGuard := by
  obtain ⟨hsteps, htidy, -⟩ := hevolves.evolution h.tidy
  exact ⟨htidy, hsteps.compiled h.compiled, hvigil⟩

theorem OnGuard.foldl {α : Type} {f : Engine → α → Engine} {l : List α} (h : engine.OnGuard)
    (hstep : ∀ state : Engine, ∀ a ∈ l, state.OnGuard → (f state a).OnGuard) :
    (l.foldl f engine).OnGuard :=
  List.foldlRecOn (motive := OnGuard) l f h fun state hstate a hmem => hstep state a hmem hstate

/-! ### Controllers -/

/-- A controller that connects keeps the key that it has. -/
theorem Vigil.connecting (h : engine.Vigil)
    (hown : ∀ own, (engine.controller c).key = some own → own = key) :
    (engine.connecting c key).Vigil := by
  have hobservers (d : ControllerId) : ((engine.connecting c key).controller d).observers =
      (engine.controller d).observers := by
    rw [controller_connecting]
    split <;> rfl
  have hkeys (d : ControllerId) (own : String) (hkey : (engine.controller d).key = some own) :
      ((engine.connecting c key).controller d).key = some own := by
    rw [controller_connecting]
    split
    next hself => exact congrArg some (hown own (hself.1 ▸ hkey)).symm
    next => exact hkey
  refine h.carry ⟨rfl, fun d _ => ?_, fun d own hkey => ?_, fun d hd => ?_, fun d => ?_⟩ rfl rfl
    hobservers (fun d hd => ?_) (fun name d hget => hkeys d name (h.registered name d hget))
    (keptFrom_of_instances rfl rfl)
  · rw [controller_connecting]
    split <;> exact ⟨rfl, rfl⟩
  · exact hkeys d own hkey
  · rw [controller_connecting]
    split
    · rfl
    · exact hd
  · rw [hobservers]
    exact List.Subset.refl _
  · rw [controller_connecting] at hd ⊢
    split
    next => rfl
    next hother =>
      rw [if_neg hother] at hd
      exact h.keyed d hd

theorem OnGuard.connect (h : engine.OnGuard) (c : ControllerId) (requested : Option String) :
    (engine.connect c requested).1.OnGuard := by
  have hevolves : Evolves .none engine (engine.connect c requested).1 := evolves_connect ..
  refine h.of_evolves hevolves (connect_ind h.vigil fun key _ hc _ hkey => ?_)
  have hself := controller_connecting_self hc key
  exact (h.vigil.connecting fun _ hown => key_eq_of_connectionKey? hown hkey).resolve h.tidy
    h.compiled (by rw [hself]) (by rw [hself])

theorem OnGuard.disconnect (h : engine.OnGuard) (c : ControllerId) (evict : Bool) :
    (engine.disconnect c evict).OnGuard := by
  have hevolves : Evolves .none engine (engine.disconnect c evict) :=
    (releases_disconnect ..).evolves
  exact h.of_evolves hevolves (h.vigil.disconnect c evict)

theorem OnGuard.update (h : engine.OnGuard) (c : ControllerId) : (engine.update c).1.OnGuard :=
  (h.disconnect c false).connect c none

theorem OnGuard.newController (h : engine.OnGuard) (node : NodeId) (useFirstChild : Bool) :
    (engine.newController node useFirstChild).1.OnGuard := by
  have hevolves : Evolves .none engine (engine.newController node useFirstChild).1 :=
    evolves_newController ..
  refine h.of_evolves hevolves ?_
  have hsame (d : ControllerId) :
      ((engine.newController node useFirstChild).1.controller d) =
        if d = engine.controllers.length then .ofNode node useFirstChild
        else engine.controller d := getD_append_singleton ..
  have hnone : engine.controller engine.controllers.length = default :=
    controller_eq_default (Nat.le_refl _)
  have hobservers (d : ControllerId) :
      ((engine.newController node useFirstChild).1.controller d).observers =
        (engine.controller d).observers := by
    rw [hsame]
    split
    next heq =>
      rw [heq, hnone]
      rfl
    next => rfl
  have hkeys (d : ControllerId) (own : String) (hkey : (engine.controller d).key = some own) :
      ((engine.newController node useFirstChild).1.controller d).key = some own := by
    rwa [hsame, if_neg (Nat.ne_of_lt (lt_of_key_isSome (Option.isSome_of_eq_some hkey)))]
  refine h.vigil.carry ⟨rfl, fun d hd => ?_, fun d own hkey => ?_, fun d hd => ?_, fun d => ?_⟩ rfl
    rfl hobservers (fun d hd => ?_)
    (fun name d hget => hkeys d name (h.vigil.registered name d hget))
    (keptFrom_of_instances rfl rfl)
  · rw [hsame, if_neg (Nat.ne_of_lt hd)]
    exact ⟨rfl, rfl⟩
  · exact hkeys d own hkey
  · rwa [hsame, if_neg (Nat.ne_of_lt (lt_of_connected hd))]
  · rw [hobservers]
    exact List.Subset.refl _
  · rw [hsame] at hd ⊢
    split at hd
    next => cases hd
    next hne =>
      rw [if_neg hne]
      exact h.vigil.keyed d hd

theorem OnGuard.addNode (h : engine.OnGuard) (node : NodeId) (key : String) :
    (engine.addNode node key).1.OnGuard :=
  addNode_ind (P := fun result => result.1.OnGuard) (fun c _ _ => h.connect c (some key))
    ((h.newController node false).connect _ (some key))

/-! ### Instances -/

theorem OnGuard.create (h : engine.OnGuard) (config : Config) :
    (engine.create config).1.OnGuard := by
  let founded : Engine := { engine with
    instances := engine.instances ++ [Instance.ofConfig config]
    live := engine.live ++ [engine.instances.length] }
  have hinst (j : InstanceId) : founded.inst j =
      if j = engine.instances.length then .ofConfig config else engine.inst j :=
    getD_append_singleton ..
  have hfounded : founded.OnGuard := by
    have htidy : founded.Tidy := fun j hj => by
      rw [hinst]
      split
      next => rfl
      next hne =>
        exact h.tidy j ((List.mem_append.mp hj).resolve_right fun hnew =>
          hne (List.mem_singleton.mp hnew))
    have hcompiled : founded.Compiled := fun j => by
      rw [hinst]
      split
      · exact ⟨config, rfl⟩
      · exact h.compiled j
    refine ⟨htidy, hcompiled, h.vigil.of_controllers rfl rfl rfl rfl h.vigil.registered
      fun j hj text htext => ?_⟩
    rw [hinst] at htext ⊢
    split at htext
    next => cases htext
    next hne =>
      rw [if_neg hne]
      refine ⟨(List.mem_append.mp hj).resolve_right fun hnew => hne (List.mem_singleton.mp hnew),
        htext, rfl⟩
  refine hfounded.foldl fun state d _ hstate => ?_
  have hevolves : Evolves .none state (resolveForInstance engine.instances.length state d) :=
    evolves_resolveForInstance ..
  exact hstate.of_evolves hevolves <| resolveForInstance_ind hstate.vigil
    fun key hconnected hkeyed _ =>
      hstate.vigil.resolve hstate.tidy hstate.compiled hconnected hkeyed

theorem Vigil.foldl_disconnect (h : engine.Vigil) (controllers : List ControllerId) :
    (controllers.foldl (fun engine c => engine.disconnect c false) engine).Vigil :=
  List.foldlRecOn (motive := Vigil) _ _ h fun _ hstate c _ => hstate.disconnect c false

theorem Vigil.destroyInstance (h : engine.Vigil) (i : InstanceId) :
    (engine.destroyInstance i).Vigil := by
  cases hdestroyed : (engine.inst i).destroyed with
  | true =>
    rw [Engine.destroyInstance, hdestroyed]
    exact h
  | false =>
    rw [destroyInstance_of_standing hdestroyed]
    have hcondemning : (engine.condemning i).Vigil := by
      refine h.of_controllers rfl dom_condemning (observations_unsubscribeAll ..) rfl
        h.registered fun j hj text htext => ⟨hj, ?_, graph_condemning j⟩
      change text ∈ ((engine.modifyInstance i Instance.condemned).inst j).memo at htext
      rw [inst_modifyInstance_eq] at htext
      split at htext <;> exact htext
    have hended := hcondemning.foldl_disconnect (engine.inst i).controllers.values
    refine hended.of_controllers rfl rfl rfl rfl hended.registered
      fun j hj text htext => ⟨(List.mem_filter.mp hj).1, ?_, graph_retiring j⟩
    have hne : j ≠ i := of_decide_eq_true (List.mem_filter.mp hj).2
    change text ∈ ((modifyInstance _ i fun inst => { inst with memo := [] }).inst j).memo at htext
    rwa [inst_modifyInstance_eq, if_neg fun hand => hne hand.1.symm] at htext

theorem Vigil.destroy (h : engine.Vigil) : engine.destroy.Vigil := by
  have hended : (engine.live.foldl Engine.destroyInstance engine).Vigil :=
    List.foldlRecOn (motive := Vigil) _ _ h fun _ hstate i _ => hstate.destroyInstance i
  rw [destroy_eq]
  generalize engine.live.foldl Engine.destroyInstance engine = ended at hended ⊢
  have hforgotten : ({ ended with registry := .empty } : Engine).Vigil :=
    hended.of_controllers rfl rfl rfl rfl (fun _ _ hget => by cases hget)
      (keptFrom_of_instances rfl rfl)
  exact hforgotten.foldl_disconnect _

/-! ### Changes of the host -/

theorem OnGuard.setQuery (h : engine.OnGuard) (query : Query) (isMatch : Bool) :
    (engine.setQuery query isMatch).1.OnGuard :=
  setQuery_ind (P := OnGuard) h
    ⟨h.tidy, h.compiled, h.vigil.of_controllers rfl rfl rfl rfl h.vigil.registered
      (keptFrom_of_instances rfl rfl)⟩
    fun _ _ c _ hstate => hstate.update c

/-- Adding items keeps no new id. -/
theorem memo_addListItems (engine : Engine) (c : ControllerId) (key container : String)
    (added : List NodeId) (i : InstanceId) (text : String) :
    text ∈ ((engine.addListItems c key container added).inst i).memo ↔
      text ∈ (engine.inst i).memo := by
  have hkept {pass : Pass} {selected : List Candidate} {before after : Engine}
      (hscope : pass.scope ≠ none) (h : pass.Wires selected before after) :
      text ∈ (after.inst i).memo ↔ text ∈ (before.inst i).memo := by
    obtain ⟨offers, -, hextends⟩ := h
    exact (hextends.memo i text).trans
      (or_iff_left fun hmark => hscope (Pass.mem_marks.mp hmark.2.2).1)
  refine List.foldlRecOn (motive := fun state : Engine => text ∈ (state.inst i).memo ↔ _) _ _
    .rfl fun state hstate j _ => ?_
  have hscope : (Pass.mk j (some ⟨c, container, added⟩)).scope ≠ none := Option.some_ne_none _
  exact ((hkept hscope (Pass.resolveIncoming_spec ..)).trans
    (hkept hscope (Pass.resolveOutgoing_spec ..))).trans hstate

theorem Vigil.tell (h : engine.Vigil) (event : Event) : (engine.tell event).Vigil :=
  h.of_controllers rfl rfl rfl rfl h.registered (keptFrom_of_instances rfl rfl)

theorem Vigil.onChildList (h : engine.Vigil) (observation : Observation)
    (added removed : List NodeId) : (onChildList observation added removed engine).Vigil := by
  refine onChildList_ind (P := Vigil) (fun _ => h) (fun _ => ?_)
    fun _ _ _ hconnected _ hforgot => (moves_addListItems hconnected ..).vigil hforgot
      fun j _ text htext => .inl ((memo_addListItems ..).mp htext)
  have htorn : (engine.teardown removed).Vigil :=
    List.foldlRecOn (motive := Vigil) _ _ h fun _ hstate event _ => hstate.tell event
  exact htorn.modifyController observation.owner (fun _ => rfl) fun _ => rfl

theorem Vigil.renderStyle (h : engine.Vigil) (c : ControllerId) (rules : List String) :
    (engine.renderStyle c rules).1.Vigil :=
  renderStyle_ind (P := Vigil) h
    ((h.tell _).of_controllers rfl rfl rfl rfl h.registered (keptFrom_of_instances rfl rfl))
    (fun _ _ hstate => hstate.tell _)
    fun _ _ hstate => hstate.modifyController c (fun _ => rfl) fun _ => rfl

theorem Vigil.toggleEffect (h : engine.Vigil) (c : ControllerId) (effectId : String)
    (action : EffectStateAction) (item : Option NodeId) :
    (engine.toggleEffect c effectId action item).1.Vigil := by
  rcases engine.toggleEffect_cases c effectId action item with
    heq | ⟨node, active, -, -, -, heq⟩ <;> rw [heq]
  · exact h
  · exact (h.tell _).modifyController c (fun _ => rfl) fun _ => rfl

/-! ### Changes by hand -/

theorem Vigil.forgetKey (h : engine.Vigil) (i : InstanceId) (key : String) :
    (engine.forgetKey i key).Vigil := by
  refine h.of_controllers rfl rfl rfl rfl h.registered fun j hj text htext => ⟨hj, ?_,
    graph_modifyInstance i j (·.clearKey key) fun _ => rfl⟩
  change text ∈ ((engine.modifyInstance i (·.clearKey key)).inst j).memo at htext
  rw [inst_modifyInstance_eq] at htext
  split at htext
  · exact (List.mem_filter.mp htext).1
  · exact htext

theorem Vigil.unregister (h : engine.Vigil) (key : String) (c : ControllerId) :
    (engine.unregister key c).1.Vigil := by
  rw [Engine.unregister]
  split
  · refine h.of_controllers rfl rfl rfl rfl (fun name d hget => ?_) (keptFrom_of_instances rfl rfl)
    change (engine.registry.erase key).get? name = some d at hget
    rw [KeyMap.get?_erase] at hget
    split at hget
    · cases hget
    · exact h.registered name d hget
  · exact h

/-! ### Documents -/

/-- The containers that an engine goes by: those of the lists in the graphs of its live instances,
and those that are observed. -/
def containers (engine : Engine) : List String :=
  (engine.live.flatMap fun i => (engine.inst i).graph.nodes.values.flatMap fun node =>
    node.triggers.flatMap fun interaction => interaction.rule.listContainer.toList ++
      interaction.effects.flatMap fun effect => effect.effect.listContainer.toList) ++
    engine.host.observations.entries.map fun entry => entry.2.containerSelector

/-- A document has the anchors and the containers where they are. -/
def KeepsPlaces (engine : Engine) (dom : Dom) : Prop :=
  ∀ c < engine.controllers.length, (engine.readDocument dom).anchor c = engine.anchor c ∧
    ∀ selector ∈ engine.containers,
      (engine.readDocument dom).container? c selector = engine.container? c selector

instance (engine : Engine) (dom : Dom) : Decidable (engine.KeepsPlaces dom) :=
  inferInstanceAs (Decidable (∀ c < engine.controllers.length, _))

theorem mem_containers_of_isDeclared {warrant : Warrant} (hi : i ∈ engine.live)
    (h : warrant.IsDeclared (engine.inst i).graph) {selector : String}
    (hselector : warrant.interaction.rule.listContainer.or warrant.effect.effect.listContainer =
      some selector) : selector ∈ engine.containers := by
  obtain ⟨node, hnode, hinteraction⟩ := h.interaction
  refine List.mem_append_left _ (List.mem_flatMap.mpr ⟨i, hi, List.mem_flatMap.mpr ⟨node,
    KeyMap.mem_values_iff.mpr ⟨_, hnode⟩, List.mem_flatMap.mpr ⟨_, hinteraction, ?_⟩⟩⟩)
  cases hrule : warrant.interaction.rule.listContainer with
  | some container =>
    rw [hrule] at hselector
    exact List.mem_append_left _ (Option.mem_toList.mpr hselector)
  | none =>
    rw [hrule, Option.none_or] at hselector
    exact List.mem_append_right _ (List.mem_flatMap.mpr
      ⟨_, h.effect, Option.mem_toList.mpr hselector⟩)

theorem Vigil.readDocument (h : engine.Vigil) {dom : Dom} (hkeeps : engine.KeepsPlaces dom) :
    (engine.readDocument dom).Vigil where
  running := h.running
  posted := by
    refine ⟨h.posted.issued, fun c node token hmem => ?_⟩
    obtain ⟨observation, hentry, howner, hcontainer, hfound⟩ := h.posted.holds c node token hmem
    refine ⟨observation, hentry, howner, hcontainer, ?_⟩
    rwa [(hkeeps c (lt_of_mem_observers hmem)).2 _
      (List.mem_append_right _ (List.mem_map_of_mem hentry))]
  keyed := h.keyed
  registered := h.registered
  grounds i hi text htext := by
    cases h.grounds i hi text htext with
    | sequence hdeclares => exact .sequence hdeclares
    | effect warrant hdeclared htext hkeyed hattended =>
      refine .effect warrant hdeclared htext (hkeyed.congr fun _ _ => id) fun key hkey hmem => ?_
      obtain ⟨hconnected, hobserves⟩ := hattended key hkey hmem
      refine ⟨hconnected, fun node hnode => hobserves node (Eq.trans (Eq.symm ?_) hnode)⟩
      refine listNode?_congr (hkeeps _ (lt_of_key_isSome hkeyed.key_isSome_source)).1
        (hkeeps _ (lt_of_key_isSome hkeyed.key_isSome_target)).1 fun selector hselector => ?_
      refine (hkeeps _ (lt_of_connected hconnected)).2 selector ?_
      exact mem_containers_of_isDeclared hi hdeclared hselector

/-! ### Runs -/

/-- An operation does not stop the engine, keeps no id as applied by hand and registers nobody under
a key of another. A document that is read has the containers of lists where they were. -/
def Undisturbed (engine : Engine) : Operation → Prop
  | .readDocument dom => engine.KeepsPlaces dom
  | .register key c => (engine.controller c).key = some key
  | .markApplied _ _ | .stop => False
  | _ => True

/-- An undisturbed operation keeps an engine on guard. -/
theorem OnGuard.perform (h : engine.OnGuard) {operation : Operation}
    (hundisturbed : engine.Undisturbed operation) : (engine.perform operation).1.OnGuard := by
  obtain ⟨hsteps, htidy⟩ := perform_steps h.tidy operation
  refine ⟨htidy, hsteps.compiled h.compiled, ?_⟩
  have hwhen {result : Engine × Answer} (hresult : result.1.Vigil) :
      (engine.whenRunning result).1.Vigil :=
    whenRunning_ind h.vigil fun _ => hresult
  cases operation with
  | readDocument dom => exact h.vigil.readDocument hundisturbed
  | answerWith handler =>
    exact h.vigil.of_controllers rfl rfl rfl rfl h.vigil.registered (keptFrom_of_instances rfl rfl)
  | setQuery query isMatch => exact (h.setQuery query isMatch).vigil
  | childListChanged container added removed =>
    exact List.foldlRecOn (motive := Vigil) _ _ h.vigil fun _ hstate entry _ =>
      hstate.onChildList entry.2 added removed
  | stop => exact hundisturbed.elim
  | connect c key => exact (h.connect c key).vigil
  | disconnect c evict => exact h.vigil.disconnect c evict
  | update c => exact (h.update c).vigil
  | toggle c effectId action item => exact h.vigil.toggleEffect c effectId action item
  | watch c container item =>
    rw [Engine.perform, if_pos h.vigil.running]
    exact h.vigil.watchChildList c container item
  | style c rules => exact h.vigil.renderStyle c rules
  | destroyInstance i => exact h.vigil.destroyInstance i
  | markApplied i id => exact hundisturbed.elim
  | clearKey i key => exact h.vigil.forgetKey i key
  | unlistenKey i key =>
    exact h.vigil.of_quiet (quiet_unlistenKey ..) (observations_unsubscribeAll ..) rfl
  | listen i id source target query =>
    refine h.vigil.of_quiet (quiet_listen ..) ?_ ?_ <;>
    · simp only [Engine.perform, answering, Engine.listen]
      split <;> rfl
  | setController i key c => exact h.vigil.of_quiet (quiet_setController ..) rfl rfl
  | deleteController i key => exact h.vigil.of_quiet (quiet_deleteController ..) rfl rfl
  | releaseController i key c =>
    exact releaseController_ind h.vigil fun _ =>
      h.vigil.of_quiet (quiet_deleteController ..) rfl rfl
  | create config => exact hwhen (h.create config).vigil
  | addNode node key => exact hwhen (h.addNode node key).vigil
  | newController node useFirstChild => exact hwhen (h.newController node useFirstChild).vigil
  | removeKey key => exact hwhen (removeKey_ind h.vigil fun c _ => h.vigil.disconnect c true)
  | destroy => exact hwhen h.vigil.destroy
  | register key c => exact hwhen (h.vigil.register hundisturbed)
  | unregister key c => exact hwhen (h.vigil.unregister key c)
  | active | ownedNodes | anchor | usesFirstChild | isApplied | interactionIds | controllerCount =>
    exact h.vigil
  | instances | instancesFor | instanceFor | controllerFor | reducedMotion | mediaMatches
  | connectedFor | isRegistered => exact hwhen h.vigil

theorem onGuard_run {operations : List Operation} (h : engine.OnGuard)
    (hundisturbed : Follows Undisturbed engine operations) : (engine.run operations).OnGuard := by
  induction operations generalizing engine with
  | nil => exact h
  | cons operation rest ih => exact ih (h.perform hundisturbed.1) hundisturbed.2

/-- The owner of a list observes the container, as far as there is one to find. The host reports the
changes of the container under a selector that finds it, which is the one of the list if no other
does. -/
def Warrant.IsWatched (warrant : Warrant) (engine : Engine) : Prop :=
  ∀ selector, warrant.interaction.rule.listContainer.or warrant.effect.effect.listContainer =
    some selector → ∀ node, warrant.listNode? engine = some node →
      ∃ token observation, (node, token) ∈ (engine.controller warrant.listOwner).observers ∧
        (token, observation) ∈ engine.host.observations.entries ∧
        observation.owner = warrant.listOwner ∧ observation.container = node ∧
        engine.container? warrant.listOwner observation.containerSelector = some node ∧
        ((∀ other ∈ engine.containers,
            engine.container? warrant.listOwner other = some node → other = selector) →
          observation.containerSelector = selector)

/-- What the owner of a list observes is held by the host. -/
theorem Vigil.isWatched (h : engine.Vigil) {warrant : Warrant}
    (hattended : warrant.Attended engine) : warrant.IsWatched engine := by
  intro selector _ node hnode
  obtain ⟨token, hmem⟩ := hattended.observes node hnode
  obtain ⟨observation, hentry, howner, hcontainer, hfound⟩ := h.posted.holds _ node token hmem
  exact ⟨token, observation, hmem, hentry, howner, hcontainer, hfound, fun hsingle =>
    hsingle _ (List.mem_append_right _ (List.mem_map_of_mem hentry)) hfound⟩

/-- A warrant upholds an id that an instance keeps as applied. The id is that of an effect of the
instance between two controllers under the declared keys. If it is among the ids of the key of the
list owner, as it is if no indices are filled in, the list owner is connected and observes the
container. -/
structure Warrant.Upholds (warrant : Warrant) (engine : Engine) (i : InstanceId) (text : String) :
    Prop where
  declared : warrant.IsDeclared (engine.inst i).graph
  keyed : warrant.Keyed (engine.inst i).graph engine
  encodes : warrant.plan.id.encode = text
  mem_ids (key : String) : (engine.controller warrant.listOwner).key = some key →
    KeyTemplate.indices warrant.key = [] → KeyTemplate.indices key = [] →
      text ∈ (engine.inst i).interactionIdsFor key
  connected (key : String) : (engine.controller warrant.listOwner).key = some key →
    text ∈ (engine.inst i).interactionIdsFor key →
      (engine.controller warrant.listOwner).connected = true
  watched (key : String) : (engine.controller warrant.listOwner).key = some key →
    text ∈ (engine.inst i).interactionIdsFor key → warrant.IsWatched engine

/-- After an undisturbed run, every id that a live instance keeps as applied is that of a sequence,
or some warrant upholds it: whoever owns the list that the id is bound to observes the container. -/
theorem run_attended {host : Host} {options : EngineOptions} {operations : List Operation}
    (hissued : host.observations.Issued)
    (hundisturbed : Follows Undisturbed (start host options) operations) :
    let engine := (start host options).run operations
    ∀ i ∈ engine.live, ∀ text ∈ (engine.inst i).memo,
      DeclaresSequence (engine.inst i).graph text ∨
        ∃ warrant : Warrant, warrant.Upholds engine i text := by
  intro engine i hi text htext
  have hguard : engine.OnGuard := onGuard_run
    ⟨tidy_start host options, compiled_start host options, vigil_start hissued options⟩ hundisturbed
  cases hguard.vigil.grounds i hi text htext with
  | sequence hdeclares => exact .inl hdeclares
  | effect warrant hdeclared htext hkeyed hattended =>
    obtain ⟨config, hgraph⟩ := hguard.compiled i
    refine .inr ⟨warrant, hdeclared, hkeyed, htext, fun key hkey hplain hplain' => ?_,
      fun key hkey hmem => (hattended key hkey hmem).connected,
      fun key hkey hmem => hguard.vigil.isWatched (hattended key hkey hmem)⟩
    exact htext ▸ hkeyed.mem_interactionIdsFor hgraph hdeclared hplain hplain' hkey

/-- If nobody's key has indices, the only one who has the key of a source that is bound to a list
observes the container, under the selector of the list if no other finds it. -/
theorem Warrant.Upholds.exists_observation {warrant : Warrant} {selector : String} {node : NodeId}
    (h : warrant.Upholds engine i text)
    (hplain : ∀ d own, (engine.controller d).key = some own → KeyTemplate.indices own = [])
    (hlist : warrant.interaction.rule.listContainer = some selector)
    (halone : ∀ d, (engine.controller d).key = some warrant.interaction.rule.key → d = c)
    (hanchor : (engine.anchor warrant.target).isSome = true)
    (hfound : engine.container? c selector = some node)
    (hsingle : ∀ other ∈ engine.containers, engine.container? c other = some node →
      other = selector) :
    ∃ token observation, (node, token) ∈ (engine.controller c).observers ∧
      (token, observation) ∈ engine.host.observations.entries ∧ observation.owner = c ∧
      observation.container = node ∧ observation.containerSelector = selector := by
  have hbound := Rule.isListBound_of_some hlist
  have howner : warrant.listOwner = warrant.source := if_pos hbound
  obtain ⟨own, hown⟩ := Option.isSome_iff_exists.mp h.keyed.key_isSome_source
  have hindices : KeyTemplate.indices warrant.key = [] := by
    cases h.keyed with
    | ofSource hresolve hsource hself hother => exact hplain _ _ hsource
    | ofTarget hresolve htarget hsource => exact hplain _ _ htarget
  -- a key without indices that stands for the key of the rule is the key of the rule
  obtain ⟨declaring, hdeclaring, -⟩ := h.declared.interaction
  have hresolve := h.keyed.resolveKey_source hindices
    (by rw [KeyMap.contains, hdeclaring]; rfl) hown
  obtain rfl : own = warrant.interaction.rule.key := by
    rw [Graph.resolveKey, KeyTemplate.template_of_indices (hplain _ _ hown)] at hresolve
    grind
  obtain rfl := halone _ hown
  rw [← howner] at hown hfound hsingle ⊢
  have hmem := h.mem_ids _ hown hindices (hplain _ _ hown)
  have hnode : warrant.listNode? engine = some node := by
    obtain ⟨anchor, hanchor⟩ := Option.isSome_iff_exists.mp hanchor
    obtain ⟨root, hroot, -⟩ := Option.bind_eq_some_iff.mp hfound
    rw [howner] at hroot hfound
    rw [Warrant.listNode?, Engine.listNode?, hanchor, hroot, hlist, if_pos hbound]
    exact hfound
  obtain ⟨token, observation, hobserver, hentry, hobserved, hcontainer, -, hselector⟩ :=
    h.watched _ hown hmem selector (by rw [hlist, Option.some_or]) node hnode
  exact ⟨token, observation, hobserver, hentry, hobserved, hcontainer, hselector hsingle⟩

/-- The case attends to its shelf, also after a book has been put on it. -/
theorem run_attended_shelf :
    let host := { Host.bare with dom := shelfDom [] }
    let operations := shelfOperations ++
      [.readDocument (shelfDom [4]), .childListChanged 2 [4] []]
    let engine := (start host .standard).run operations
    (host.observations.Issued ∧ Follows Undisturbed (start host .standard) operations) ∧
      "desk::open::0" ∈ (engine.inst 0).memo ∧
      ∃ token observation, (2, token) ∈ (engine.controller 1).observers ∧
        (token, observation) ∈ engine.host.observations.entries ∧ observation.owner = 1 ∧
        observation.container = 2 ∧ observation.containerSelector = ".shelf" := by
  intro host operations engine
  have hkeeps : KeepsPlaces ((start host .standard).run shelfOperations) (shelfDom [4]) := by
    decide +kernel
  have hundisturbed : Follows Undisturbed (start host .standard) operations :=
    ⟨trivial, trivial, trivial, hkeeps, trivial, trivial⟩
  have hmem : "desk::open::0" ∈ (engine.inst 0).memo := by decide +kernel
  refine ⟨⟨ListenerSet.issued_empty, hundisturbed⟩, hmem, ?_⟩
  -- the graph has one interaction, and the controllers have the keys of its sides
  have hgraph : ∀ node ∈ (engine.inst 0).graph.nodes.values, ∀ interaction ∈ node.triggers,
      interaction.sequences = [] ∧ interaction.rule.key = "case" ∧
        interaction.rule.listContainer = some ".shelf" := by decide +kernel
  have hlength : engine.controllers.length = 2 := by decide +kernel
  have hdesk : (engine.controller 0).key = some "desk" := by decide +kernel
  have hcase : (engine.controller 1).key = some "case" := by decide +kernel
  have hanchors : ∀ c < 2, (engine.anchor c).isSome = true := by decide +kernel
  have hfound : engine.container? 1 ".shelf" = some 2 := by decide +kernel
  have hsingle : ∀ other ∈ engine.containers, engine.container? 1 other = some 2 →
      other = ".shelf" := by decide +kernel
  have hattended := @run_attended host .standard operations ListenerSet.issued_empty hundisturbed 0
    (by decide +kernel) _ hmem
  change DeclaresSequence (engine.inst 0).graph _ ∨ ∃ warrant : Warrant, warrant.Upholds engine 0 _
    at hattended
  clear_value engine
  have hkeys (d : ControllerId) (own : String) (hown : (engine.controller d).key = some own) :
      d = 0 ∧ own = "desk" ∨ d = 1 ∧ own = "case" := by
    have hd : d < 2 := hlength ▸ lt_of_key_isSome (Option.isSome_of_eq_some hown)
    obtain rfl | rfl := Nat.le_one_iff_eq_zero_or_eq_one.mp (Nat.le_of_lt_succ hd)
    · exact .inl ⟨rfl, Option.some.inj (hown.symm.trans hdesk)⟩
    · exact .inr ⟨rfl, Option.some.inj (hown.symm.trans hcase)⟩
  obtain ⟨key, node, interaction, sequence, hnode, hinteraction, hsequence, -⟩ |
    ⟨warrant, hupholds⟩ := hattended
  · obtain ⟨graphKey, -, hget⟩ := Option.bind_eq_some_iff.mp hnode
    rw [(hgraph node (KeyMap.mem_values_iff.mpr ⟨_, hget⟩) interaction hinteraction).1] at hsequence
    cases hsequence
  · obtain ⟨node, hnode, hinteraction⟩ := hupholds.declared.interaction
    obtain ⟨-, hrule, hlist⟩ := hgraph node (KeyMap.mem_values_iff.mpr ⟨_, hnode⟩) _ hinteraction
    refine hupholds.exists_observation (fun d own hown => ?_) hlist (fun d hd => ?_) ?_ hfound
      hsingle
    · obtain ⟨-, rfl⟩ | ⟨-, rfl⟩ := hkeys d own hown <;> decide +kernel
    · obtain ⟨-, hname⟩ | ⟨rfl, -⟩ := hkeys d _ hd
      · exact absurd (hrule.symm.trans hname) (by decide)
      · rfl
    · exact hanchors _ (hlength ▸ lt_of_key_isSome hupholds.keyed.key_isSome_target)

-- An id is kept as applied also if there is no shelf, and nobody observes the one that comes later.
example :
    let host := { Host.bare with dom := { shelfDom [] with queryAll := fun _ _ => [] } }
    let engine := (start host .standard).run (shelfOperations ++ [.readDocument (shelfDom [])])
    (engine.inst 0).memo = ["desk::open::0"] ∧ (engine.controller 1).connected = true ∧
      engine.container? 1 ".shelf" = some 2 ∧ (engine.controller 1).observers = [] := by
  decide +kernel

end InteractionBinding.Engine
