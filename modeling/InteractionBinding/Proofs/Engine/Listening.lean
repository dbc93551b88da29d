import InteractionBinding.Proofs.Engine.Steps
/-!
# What instances listen for

The listeners of instances are records of subscriptions at the host. While an engine is attuned to
an interest (`Engine.Attuned`), every record is subscribed under a token of its own, and an instance
listens to a query for an id once it has asked for it (`Engine.hears_listen`). Passes only add
records (`Pass.attends_gateFor`), for the queries of the gates that they look at.
-/

namespace InteractionBinding.Engine

/-- What instances may listen for: an id with its source key and its target key, and a query. -/
structure Interest where
  Covers (i : InstanceId) (id source target : String) (query : Query) : Prop
  /-- The id and the text of the query tell the rest. -/
  unique {i : InstanceId} {id source target source' target' : String} {query query' : Query} :
    Covers i id source target query → Covers i id source' target' query' →
      query.text = query'.text → source = source' ∧ target = target' ∧ query = query'

/-- The subscription that a listener stands for. -/
def subscriptionOf (listener : ConditionListener) : QuerySubscription :=
  ⟨listener.query, .reconcile listener.source listener.target⟩

/-- Every listener is within the interest and subscribed at the host, under a token of its own. -/
structure Attuned (interest : Interest) (engine : Engine) : Prop where
  covered (i : InstanceId) (listener : ConditionListener) :
    listener ∈ (engine.inst i).listeners →
      interest.Covers i listener.id listener.source listener.target listener.query
  subscribed (i : InstanceId) (listener : ConditionListener) :
    listener ∈ (engine.inst i).listeners →
      (listener.token, subscriptionOf listener) ∈ engine.host.subscriptions.entries
  fresh (i : InstanceId) (listener : ConditionListener) :
    listener ∈ (engine.inst i).listeners → listener.token < engine.host.subscriptions.next
  distinct (i j : InstanceId) (listener listener' : ConditionListener) :
    listener ∈ (engine.inst i).listeners → listener' ∈ (engine.inst j).listeners →
      listener.token = listener'.token → i = j ∧ listener = listener'

/-- An instance listens to a query on behalf of an id between two keys. -/
def Hears (engine : Engine) (i : InstanceId) (id source target : String) (query : Query) : Prop :=
  ∃ listener ∈ (engine.inst i).listeners, listener.id = id ∧ listener.source = source ∧
    listener.target = target ∧ listener.query = query

/-- One engine comes from another without a change of the scene and without losing a listener, and
stays attuned. -/
structure Attends (interest : Interest) (before after : Engine) : Prop where
  scene : after.scene = before.scene
  attuned : before.Attuned interest → after.Attuned interest
  listeners (i : InstanceId) : (before.inst i).listeners ⊆ (after.inst i).listeners

variable {interest : Interest} {before middle after engine : Engine} {i : InstanceId}
  {id source target : String} {query : Query}

namespace Attends

theorem refl (engine : Engine) : Attends interest engine engine :=
  ⟨rfl, fun h => h, fun _ => List.Subset.refl _⟩

theorem trans (first : Attends interest before middle) (second : Attends interest middle after) :
    Attends interest before after :=
  ⟨second.scene.trans first.scene, fun h => second.attuned (first.attuned h),
    fun i => List.Subset.trans (first.listeners i) (second.listeners i)⟩

theorem hears (h : Attends interest before after) (hhears : before.Hears i id source target query) :
    after.Hears i id source target query := by
  obtain ⟨listener, hmem, hlistener⟩ := hhears
  exact ⟨listener, h.listeners i hmem, hlistener⟩

end Attends

/-- One engine comes from another without a change of subscriptions and listeners. -/
structure Deaf (before after : Engine) : Prop where
  subscriptions : after.host.subscriptions = before.host.subscriptions
  listeners (i : InstanceId) : (after.inst i).listeners = (before.inst i).listeners

namespace Deaf

theorem refl (engine : Engine) : Deaf engine engine := ⟨rfl, fun _ => rfl⟩

theorem trans (first : Deaf before middle) (second : Deaf middle after) : Deaf before after :=
  ⟨second.subscriptions.trans first.subscriptions,
    fun i => (second.listeners i).trans (first.listeners i)⟩

theorem attuned (h : Deaf before after) (hattuned : before.Attuned interest) :
    after.Attuned interest := by
  refine ⟨?_, ?_, ?_, ?_⟩ <;> simp only [h.subscriptions, h.listeners]
  · exact hattuned.covered
  · exact hattuned.subscribed
  · exact hattuned.fresh
  · exact hattuned.distinct

theorem attends (h : Deaf before after) (hscene : after.scene = before.scene) :
    Attends interest before after :=
  ⟨hscene, h.attuned, fun i => (h.listeners i).symm ▸ List.Subset.refl _⟩

end Deaf

theorem deaf_modifyInstance (engine : Engine) (i : InstanceId) (f : Instance → Instance)
    (hf : ∀ inst, (f inst).listeners = inst.listeners) :
    Deaf engine (engine.modifyInstance i f) := by
  refine ⟨rfl, fun j => ?_⟩
  rw [inst_modifyInstance_eq]
  split
  · exact hf _
  · rfl

theorem deaf_markApplied (engine : Engine) (i : InstanceId) (id : String) :
    Deaf engine (engine.modifyInstance i (·.markApplied id)) := by
  refine deaf_modifyInstance engine i _ fun inst => ?_
  rw [Instance.markApplied]
  split <;> rfl

/-- What an instance asks to listen for it hears afterwards. -/
theorem hears_listen (hattuned : engine.Attuned interest) (hlength : i < engine.instances.length)
    (hstanding : (engine.inst i).destroyed = false)
    (hcovers : interest.Covers i id source target query) :
    (engine.listen i id source target query (.reconcile source target)).1.Hears i id source target
      query := by
  simp only [listen, hstanding, Bool.false_or]
  split
  next hlistening =>
    obtain ⟨listener, hmem, hmatch⟩ := List.any_eq_true.mp hlistening
    simp only [Bool.and_eq_true, decide_eq_true_eq] at hmatch
    obtain ⟨rfl, htext⟩ := hmatch
    obtain ⟨rfl, rfl, rfl⟩ := interest.unique (hattuned.covered i listener hmem) hcovers htext
    exact ⟨listener, hmem, rfl, rfl, rfl, rfl⟩
  next =>
    refine ⟨⟨id, query, source, target, engine.host.subscriptions.next⟩, ?_, rfl, rfl, rfl, rfl⟩
    rw [inst_modifyInstance_eq, if_pos ⟨rfl, hlength⟩]
    exact List.mem_append_right _ (List.mem_singleton_self _)

/-- The engine in which an instance has subscribed to a query. -/
def subscribed (engine : Engine) (i : InstanceId) (listener : ConditionListener) : Engine :=
  ({ engine with host :=
    (engine.host.subscribe (subscriptionOf listener)).1 } : Engine).modifyInstance i fun inst =>
      { inst with listeners := inst.listeners ++ [listener] }

theorem mem_listeners_subscribed {listener other : ConditionListener} {j : InstanceId} :
    other ∈ ((engine.subscribed i listener).inst j).listeners ↔
      other ∈ (engine.inst j).listeners ∨
        i = j ∧ j < engine.instances.length ∧ other = listener := by
  rw [subscribed, inst_modifyInstance_eq]
  split
  next h =>
    rw [List.mem_append, List.mem_singleton, and_iff_right h.1, and_iff_right h.2]
    rfl
  next h =>
    refine (or_iff_left fun hnew => h ⟨hnew.1, hnew.2.1⟩).symm

/-- Subscribing to a query within the interest keeps an engine attuned. -/
theorem attends_subscribed (listener : ConditionListener)
    (htoken : listener.token = engine.host.subscriptions.next)
    (hcovers : interest.Covers i listener.id listener.source listener.target listener.query) :
    Attends interest engine (engine.subscribed i listener) := by
  refine ⟨scene_modifyInstance fun _ => rfl, fun h => ⟨?_, ?_, ?_, ?_⟩, ?_⟩
  · intro j other hmem
    rcases mem_listeners_subscribed.mp hmem with hmem | ⟨rfl, -, rfl⟩
    · exact h.covered j other hmem
    · exact hcovers
  · intro j other hmem
    refine List.mem_append.mpr ?_
    rcases mem_listeners_subscribed.mp hmem with hmem | ⟨rfl, -, rfl⟩
    · exact .inl (h.subscribed j other hmem)
    · exact .inr (List.mem_singleton.mpr (by rw [htoken]))
  · intro j other hmem
    refine Nat.lt_succ_iff.mpr ?_
    rcases mem_listeners_subscribed.mp hmem with hmem | ⟨rfl, -, rfl⟩
    · exact Nat.le_of_lt (h.fresh j other hmem)
    · exact Nat.le_of_eq htoken
  · intro j j' other other' hmem hmem' heq
    rcases mem_listeners_subscribed.mp hmem with hmem | ⟨hj, -, hother⟩
    · rcases mem_listeners_subscribed.mp hmem' with hmem' | ⟨-, -, hother'⟩
      · exact h.distinct j j' other other' hmem hmem' heq
      · rw [hother', htoken] at heq
        exact absurd heq (Nat.ne_of_lt (h.fresh j other hmem))
    · rcases mem_listeners_subscribed.mp hmem' with hmem' | ⟨hj', -, hother'⟩
      · rw [hother, htoken] at heq
        exact absurd heq.symm (Nat.ne_of_lt (h.fresh j' other' hmem'))
      · exact ⟨hj.symm.trans hj', hother.trans hother'.symm⟩
  · exact fun j other hmem => mem_listeners_subscribed.mpr (.inl hmem)

/-- Listening for what is within the interest keeps an engine attuned. -/
theorem attends_listen (hcovers : interest.Covers i id source target query) :
    Attends interest engine
      (engine.listen i id source target query (.reconcile source target)).1 :=
  listen_ind (.refl engine) (attends_subscribed ⟨id, query, source, target, _⟩ rfl hcovers)

/-! ### Folds -/

section Folds

variable {α : Type} {f : Engine → α → Engine} {l : List α} {P : Engine → Prop}

theorem attends_foldl (h : ∀ state, ∀ a ∈ l, P state → Attends interest state (f state a) ∧
      P (f state a)) (hP : P engine) :
    Attends interest engine (l.foldl f engine) ∧ P (l.foldl f engine) := by
  refine List.foldlRecOn (motive := fun state => Attends interest engine state ∧ P state) l f
    ⟨.refl engine, hP⟩ fun state hstate a hmem => ?_
  obtain ⟨hattends, hstep⟩ := h state a hmem hstate.2
  exact ⟨hstate.1.trans hattends, hstep⟩

/-- What one member of a list makes an instance hear, it hears after a walk over the list. -/
theorem hears_foldl (h : ∀ state, ∀ a ∈ l, P state → Attends interest state (f state a) ∧
      P (f state a)) (hP : P engine) (hattuned : engine.Attuned interest) {a : α} (ha : a ∈ l)
    (hhears : ∀ state, P state → state.Attuned interest →
      (f state a).Hears i id source target query) :
    (l.foldl f engine).Hears i id source target query := by
  obtain ⟨front, back, rfl⟩ := List.append_of_mem ha
  rw [List.foldl_append, List.foldl_cons]
  obtain ⟨hfront, hP'⟩ := attends_foldl (l := front)
    (fun state b hb => h state b (List.mem_append_left _ hb)) hP
  obtain ⟨-, hmember⟩ := h _ a ha hP'
  obtain ⟨hback, -⟩ := attends_foldl (l := back)
    (fun state b hb => h state b (List.mem_append_right _ (.tail _ hb))) hmember
  exact hback.hears (hhears _ hP' (hfront.attuned hattuned))

end Folds

/-- An instance that can listen: it exists and has not been destroyed. -/
structure Listens (engine : Engine) (i : InstanceId) : Prop where
  length : i < engine.instances.length
  standing : (engine.inst i).destroyed = false

theorem Listens.congr (h : engine.Listens i) (hscene : after.scene = engine.scene) :
    after.Listens i := by
  have hinstances := congrArg Scene.instances hscene
  refine ⟨?_, ?_⟩
  · rw [length_instances_eq hinstances]
    exact h.length
  · rw [destroyed_eq hinstances]
    exact h.standing

namespace Pass

variable {pass : Pass} {lists : List (List String)}

theorem attends_gateFor (hcovers : ∀ query ∈ (pass.currentGate engine lists).liveQueries,
      interest.Covers pass.instanceId id source target query) :
    Attends interest engine (pass.gateFor engine id source target lists).1 :=
  (attends_foldl (P := fun _ => True)
    (fun _ query hmem _ => ⟨attends_listen (hcovers query hmem), trivial⟩) trivial).1

theorem hears_gateFor (hlistens : engine.Listens pass.instanceId)
    (hattuned : engine.Attuned interest)
    (hcovers : ∀ query ∈ (pass.currentGate engine lists).liveQueries,
      interest.Covers pass.instanceId id source target query)
    (hquery : query ∈ (pass.currentGate engine lists).liveQueries) :
    (pass.gateFor engine id source target lists).1.Hears
      pass.instanceId id source target query := by
  refine hears_foldl (P := fun state => state.scene = engine.scene) ?_ rfl hattuned hquery ?_
  · intro state query hmem hscene
    exact ⟨attends_listen (hcovers query hmem), (scene_listen ..).trans hscene⟩
  · intro state hscene hstate
    have hlistens' := hlistens.congr hscene
    exact hears_listen hstate hlistens'.length hlistens'.standing (hcovers query hquery)

/-! ### Wiring -/

theorem deaf_watchChildList (engine : Engine) (c : ControllerId) (container : String)
    (item : Option String) : Deaf engine (engine.watchChildList c container item).1 :=
  watchChildList_ind (.refl engine) fun _ _ => ⟨rfl, fun _ => rfl⟩

theorem deaf_markItem (engine : Engine) (c : ControllerId) (id : String) (item : NodeId) :
    Deaf engine (engine.markItem c id item).1 :=
  markItem_ind (fun _ => .refl engine) ⟨rfl, fun _ => rfl⟩

theorem deaf_listItems (pass : Pass) (engine : Engine) (owner : ControllerId) (container : String)
    (item : Option String) : Deaf engine (pass.listItems engine owner container item).1 := by
  simp only [listItems]
  split
  · exact .refl _
  · split
    · exact .refl _
    · exact deaf_watchChildList ..

theorem deaf_pairs (pass : Pass) (engine : Engine) (candidate : Candidate) :
    Deaf engine (pass.pairs engine candidate).1 := by
  simp only [pairs]
  split
  · split
    · exact pass.deaf_listItems ..
    · exact pass.deaf_listItems ..
    · exact .refl _
  · exact .refl _

theorem deaf_wirePair (pass : Pass) (handler : HandlerId) (candidate : Candidate)
    (context : HandlerContext) (progress : Progress) (pair : NodePair) :
    Deaf progress.engine (pass.wirePair handler candidate context progress pair).engine := by
  have hdecide : Deaf progress.engine (pass.decideItem candidate progress pair.item).1.engine := by
    cases pair.item with
    | none => exact .refl _
    | some item =>
      simp only [decideItem]
      split
      · exact .refl _
      · exact deaf_markItem ..
  simp only [wirePair]
  split
  · exact hdecide.trans ⟨rfl, fun _ => rfl⟩
  · exact hdecide

theorem deaf_applyCandidate (pass : Pass) (engine : Engine) (candidate : Candidate) :
    Deaf engine (pass.applyCandidate engine candidate) := by
  simp only [applyCandidate]
  split
  · exact .refl _
  next handler _ =>
    have hpairs := pass.deaf_pairs engine candidate
    have hwired : Deaf (pass.pairs engine candidate).1
        ((pass.pairs engine candidate).2.foldl (pass.wirePair handler candidate
          (handlerContext engine candidate.id
            (some candidate.target) candidate.gate candidate.rule))
          ⟨(pass.pairs engine candidate).1, [], false⟩).engine :=
      List.foldlRecOn (motive := fun (progress : Progress) =>
        Deaf (pass.pairs engine candidate).1 progress.engine) _ _ (.refl _)
        fun progress hprogress pair _ => hprogress.trans (pass.deaf_wirePair ..)
    split
    · exact (hpairs.trans hwired).trans (deaf_markApplied ..)
    · exact hpairs.trans hwired

theorem deaf_applySelected (pass : Pass) (engine : Engine) (selected : List Candidate) :
    Deaf engine (pass.applySelected engine selected) :=
  List.foldlRecOn _ _ (.refl engine) fun state hstate candidate _ =>
    hstate.trans (pass.deaf_applyCandidate state candidate)

theorem attends_applySelected (pass : Pass) (engine : Engine) (selected : List Candidate) :
    Attends interest engine (pass.applySelected engine selected) :=
  (pass.deaf_applySelected engine selected).attends
    (Wires.scene (pass.applySelected_spec engine selected))

theorem attends_watchRule (pass : Pass) (engine : Engine) (c : ControllerId) (rule : Rule) :
    Attends interest engine (pass.watchRule engine c rule) := by
  refine Deaf.attends ?_ (pass.quiet_watchRule engine c rule).scene
  rw [watchRule]
  split
  · split
    · exact deaf_watchChildList ..
    · exact .refl _
  · exact .refl _

/-! ### Source sides -/

/-- Listens to the queries of an effect whose source is resolved. -/
def listenOutgoing (pass : Pass) (key : String) (rule : Rule) (engine : Engine)
    (effect : CompiledEffect) : Engine :=
  (pass.gateFor engine (effect.id.interpolate (KeyTemplate.indices key)).encode key
    (KeyTemplate.interpolate effect.target (KeyTemplate.indices key))
    [rule.conditions, effect.effect.conditions]).1

/-- Listens to the queries of the effects of an interaction whose source is resolved. -/
def listenInteraction (pass : Pass) (c : ControllerId) (key : String) (engine : Engine)
    (interaction : CompiledInteraction) : Engine :=
  interaction.effects.foldl (pass.listenOutgoing key interaction.rule)
    (pass.watchRule engine c interaction.rule)

theorem fst_foldl_selectOutgoing (pass : Pass) (c : ControllerId) (key : String) (rule : Rule)
    (effects : List CompiledEffect) (engine : Engine) (selected : List Candidate) :
    (effects.foldl (pass.selectOutgoing c key rule) (engine, selected)).1 =
      effects.foldl (pass.listenOutgoing key rule) engine := by
  induction effects generalizing engine selected with
  | nil => rfl
  | cons effect rest ih =>
    rw [List.foldl_cons, List.foldl_cons, selectOutgoing_eq, ih]
    rfl

theorem fst_foldl_selectInteraction (pass : Pass) (c : ControllerId) (key : String)
    (triggers : List CompiledInteraction) (engine : Engine) (selected : List Candidate) :
    (triggers.foldl (pass.selectInteraction c key) (engine, selected)).1 =
      triggers.foldl (pass.listenInteraction c key) engine := by
  induction triggers generalizing engine selected with
  | nil => rfl
  | cons interaction rest ih =>
    have hfst := pass.fst_foldl_selectOutgoing c key interaction.rule interaction.effects
      (pass.watchRule engine c interaction.rule) selected
    rw [List.foldl_cons, List.foldl_cons, listenInteraction, ← hfst]
    exact ih ..

/-- The queries of a rule and an effect in a scene are within an interest, for a source that is
resolved. -/
def CoversOutgoing (interest : Interest) (pass : Pass) (scene : Scene) (key : String) (rule : Rule)
    (effect : CompiledEffect) : Prop :=
  ∀ query ∈ (scene.gate pass.instanceId [rule.conditions, effect.effect.conditions]).liveQueries,
    interest.Covers pass.instanceId (effect.id.interpolate (KeyTemplate.indices key)).encode key
      (KeyTemplate.interpolate effect.target (KeyTemplate.indices key)) query

variable {c : ControllerId} {key : String}

theorem attends_listenOutgoing {scene : Scene} {rule : Rule} {effect : CompiledEffect}
    (hcovers : CoversOutgoing interest pass scene key rule effect) (hscene : engine.scene = scene) :
    Attends interest engine (pass.listenOutgoing key rule engine effect) ∧
      (pass.listenOutgoing key rule engine effect).scene = scene := by
  subst hscene
  have hattends : Attends interest engine (pass.listenOutgoing key rule engine effect) :=
    attends_gateFor fun query hquery => hcovers query (currentGate_eq engine .. ▸ hquery)
  exact ⟨hattends, hattends.scene⟩

theorem attends_listenInteraction {scene : Scene} {interaction : CompiledInteraction}
    (hcovers : ∀ effect ∈ interaction.effects,
      CoversOutgoing interest pass scene key interaction.rule effect)
    (hscene : engine.scene = scene) :
    Attends interest engine (pass.listenInteraction c key engine interaction) ∧
      (pass.listenInteraction c key engine interaction).scene = scene := by
  have hwatch := @attends_watchRule interest pass engine c interaction.rule
  obtain ⟨hattends, hscene'⟩ := attends_foldl (P := fun state => state.scene = scene)
    (fun state effect hmem => attends_listenOutgoing (hcovers effect hmem))
    (hwatch.scene.trans hscene)
  exact ⟨hwatch.trans hattends, hscene'⟩

theorem hears_listenInteraction {interaction : CompiledInteraction} {effect : CompiledEffect}
    (hlistens : engine.Listens pass.instanceId) (hattuned : engine.Attuned interest)
    (hcovers : ∀ effect ∈ interaction.effects,
      CoversOutgoing interest pass engine.scene key interaction.rule effect)
    (heffect : effect ∈ interaction.effects)
    (hquery : query ∈ (engine.scene.gate pass.instanceId
      [interaction.rule.conditions, effect.effect.conditions]).liveQueries) :
    (pass.listenInteraction c key engine interaction).Hears pass.instanceId
      (effect.id.interpolate (KeyTemplate.indices key)).encode key
      (KeyTemplate.interpolate effect.target (KeyTemplate.indices key)) query := by
  have hwatch := @attends_watchRule interest pass engine c interaction.rule
  refine hears_foldl (P := fun state => state.scene = engine.scene)
    (fun state effect hmem => attends_listenOutgoing (hcovers effect hmem)) hwatch.scene
    (hwatch.attuned hattuned) heffect ?_
  intro state hscene hstate
  have hgate := pass.currentGate_eq state [interaction.rule.conditions, effect.effect.conditions]
  rw [hscene] at hgate
  refine hears_gateFor (hlistens.congr hscene) hstate ?_ (hgate ▸ hquery)
  exact fun query hquery => hcovers effect heffect query (hgate ▸ hquery)

/-- Resolving a source keeps an engine attuned. -/
theorem attends_resolveOutgoing (hcovers : ∀ node, pass.node? engine key = some node →
      ∀ interaction ∈ node.triggers, ∀ effect ∈ interaction.effects,
        CoversOutgoing interest pass engine.scene key interaction.rule effect) :
    Attends interest engine (pass.resolveOutgoing engine c key) := by
  simp only [resolveOutgoing]
  split
  · exact .refl _
  next node hnode =>
    rw [fst_foldl_selectInteraction]
    obtain ⟨hattends, -⟩ := attends_foldl (P := fun state => state.scene = engine.scene)
      (fun state interaction hmem => attends_listenInteraction (c := c)
        (hcovers node hnode interaction hmem)) rfl
    exact hattends.trans (pass.attends_applySelected _ _)

/-- Once a source has been resolved, the instance hears the queries of all its effects. -/
theorem hears_resolveOutgoing {node : GraphNode} (hnode : pass.node? engine key = some node)
    (hlistens : engine.Listens pass.instanceId) (hattuned : engine.Attuned interest)
    (hcovers : ∀ interaction ∈ node.triggers, ∀ effect ∈ interaction.effects,
      CoversOutgoing interest pass engine.scene key interaction.rule effect)
    {interaction : CompiledInteraction} (htrigger : interaction ∈ node.triggers)
    {effect : CompiledEffect} (heffect : effect ∈ interaction.effects)
    (hquery : query ∈ (engine.scene.gate pass.instanceId
      [interaction.rule.conditions, effect.effect.conditions]).liveQueries) :
    (pass.resolveOutgoing engine c key).Hears pass.instanceId
      (effect.id.interpolate (KeyTemplate.indices key)).encode key
      (KeyTemplate.interpolate effect.target (KeyTemplate.indices key)) query := by
  simp only [resolveOutgoing, hnode]
  rw [fst_foldl_selectInteraction]
  refine (@attends_applySelected interest pass _ _).hears ?_
  refine hears_foldl (P := fun state => state.scene = engine.scene)
    (fun state interaction hmem => attends_listenInteraction
      (hcovers interaction hmem)) rfl hattuned
    htrigger ?_
  intro state hscene hstate
  exact hears_listenInteraction (hlistens.congr hscene) hstate
    (hscene ▸ hcovers interaction htrigger) heffect (hscene ▸ hquery)

/-! ### Target sides -/

/-- The members of a list up to the first one with a property, which is the last of them. -/
def upTo {α : Type} (p : α → Bool) : List α → List α
  | [] => []
  | a :: rest => if p a then [a] else a :: upTo p rest

/-- Listens to the queries of the alternatives of an id whose target is resolved, up to the first
open one, unless the id has been applied. -/
def listenIncoming (pass : Pass) (key : String) (engine : Engine) (entry : TargetEffects) :
    Engine :=
  let id := (entry.id.interpolate (KeyTemplate.indices key)).encode
  if pass.alreadyApplied engine id then engine
  else (pass.firstOpen key id engine entry.variants).1

theorem fst_selectIncoming (pass : Pass) (c : ControllerId) (key : String) (engine : Engine)
    (selected : List Candidate) (entry : TargetEffects) :
    (pass.selectIncoming c key (engine, selected) entry).1 =
      pass.listenIncoming key engine entry := by
  simp only [selectIncoming, listenIncoming]
  split
  · rfl
  · generalize pass.firstOpen key (entry.id.interpolate (KeyTemplate.indices key)).encode engine
      entry.variants = result
    obtain ⟨heard, found⟩ := result
    cases found with
    | none => rfl
    | some found =>
      dsimp only
      split
      · rfl
      · split <;> rfl

theorem fst_foldl_selectIncoming (pass : Pass) (c : ControllerId) (key : String)
    (entries : List TargetEffects) (engine : Engine) (selected : List Candidate) :
    (entries.foldl (pass.selectIncoming c key) (engine, selected)).1 =
      entries.foldl (pass.listenIncoming key) engine := by
  induction entries generalizing engine selected with
  | nil => rfl
  | cons entry rest ih =>
    rw [List.foldl_cons, List.foldl_cons, ← pass.fst_selectIncoming c key engine selected entry]
    exact ih ..

/-- The queries of a variant in a scene are within an interest, for a target that is resolved. -/
def CoversIncoming (interest : Interest) (pass : Pass) (scene : Scene) (key id : String)
    (variant : Variant) : Prop :=
  ∀ query ∈ (scene.gate pass.instanceId
      [variant.rule.conditions, variant.effect.effect.conditions]).liveQueries,
    interest.Covers pass.instanceId id
      (KeyTemplate.interpolate variant.rule.key (KeyTemplate.indices key)) key query

theorem firstOpen_cons (pass : Pass) (key id : String) (engine : Engine) (variant : Variant)
    (rest : List Variant) :
    (pass.firstOpen key id engine (variant :: rest)).1 =
      let gated := (pass.gateFor engine id
        (KeyTemplate.interpolate variant.rule.key (KeyTemplate.indices key)) key
        [variant.rule.conditions, variant.effect.effect.conditions]).1
      if pass.isOpen engine variant then gated else (pass.firstOpen key id gated rest).1 := by
  rw [firstOpen]
  exact apply_ite Prod.fst _ _ _

theorem attends_firstOpen {scene : Scene} {variants : List Variant}
    (hcovers : ∀ variant ∈ variants, CoversIncoming interest pass scene key id variant)
    (hscene : engine.scene = scene) :
    Attends interest engine (pass.firstOpen key id engine variants).1 := by
  induction variants generalizing engine with
  | nil => exact .refl _
  | cons variant rest ih =>
    have hgate := currentGate_eq engine pass
      [variant.rule.conditions, variant.effect.effect.conditions]
    have hgated : Attends interest engine (pass.gateFor engine id
        (KeyTemplate.interpolate variant.rule.key (KeyTemplate.indices key)) key
        [variant.rule.conditions, variant.effect.effect.conditions]).1 :=
      attends_gateFor fun query hquery =>
        hcovers variant (.head _) query (hscene ▸ hgate ▸ hquery)
    rw [firstOpen_cons]
    dsimp only
    split
    · exact hgated
    · exact hgated.trans (ih (fun variant hmem => hcovers variant (.tail _ hmem))
        (hgated.scene.trans hscene))

theorem hears_firstOpen {scene : Scene} {variants : List Variant}
    (hcovers : ∀ variant ∈ variants, CoversIncoming interest pass scene key id variant)
    (hscene : engine.scene = scene) (hlistens : engine.Listens pass.instanceId)
    (hattuned : engine.Attuned interest) {variant : Variant}
    (hmem : variant ∈ upTo (pass.isOpen engine) variants)
    (hquery : query ∈ (scene.gate pass.instanceId
      [variant.rule.conditions, variant.effect.effect.conditions]).liveQueries) :
    (pass.firstOpen key id engine variants).1.Hears pass.instanceId id
      (KeyTemplate.interpolate variant.rule.key (KeyTemplate.indices key)) key query := by
  induction variants generalizing engine with
  | nil => cases hmem
  | cons first rest ih =>
    have hgate := currentGate_eq engine pass [first.rule.conditions, first.effect.effect.conditions]
    have hfirst : ∀ query ∈ (pass.currentGate engine
        [first.rule.conditions, first.effect.effect.conditions]).liveQueries,
        interest.Covers pass.instanceId id
          (KeyTemplate.interpolate first.rule.key (KeyTemplate.indices key)) key query :=
      fun query hquery => hcovers first (.head _) query (hscene ▸ hgate ▸ hquery)
    have hgated := attends_gateFor hfirst
    have hself (heq : variant = first) : (pass.gateFor engine id
        (KeyTemplate.interpolate first.rule.key (KeyTemplate.indices key)) key
        [first.rule.conditions, first.effect.effect.conditions]).1.Hears pass.instanceId id
        (KeyTemplate.interpolate variant.rule.key (KeyTemplate.indices key)) key query := by
      subst heq
      exact hears_gateFor hlistens hattuned hfirst (hgate ▸ hscene ▸ hquery)
    rw [firstOpen_cons]
    rw [upTo] at hmem
    dsimp only
    split at hmem
    next hopen =>
      rw [if_pos hopen]
      exact hself (List.mem_singleton.mp hmem)
    next hclosed =>
      rw [if_neg hclosed]
      have hscene' := hgated.scene.trans hscene
      have hrest : ∀ variant ∈ rest, CoversIncoming interest pass scene key id variant :=
        fun variant hmem => hcovers variant (.tail _ hmem)
      rcases List.mem_cons.mp hmem with heq | hmem
      · exact (attends_firstOpen hrest hscene').hears (hself heq)
      · refine ih hrest hscene' (hlistens.congr hgated.scene) (hgated.attuned hattuned) ?_
        rwa [isOpen_congr (pass.quiet_gateFor ..)]

theorem attends_listenIncoming {start : Engine} {entry : TargetEffects}
    (hcovers : ∀ variant ∈ entry.variants, CoversIncoming interest pass start.scene key
      (entry.id.interpolate (KeyTemplate.indices key)).encode variant)
    (hquiet : Quiet start engine) :
    Attends interest engine (pass.listenIncoming key engine entry) ∧
      Quiet start (pass.listenIncoming key engine entry) := by
  simp only [listenIncoming]
  split
  · exact ⟨.refl _, hquiet⟩
  · exact ⟨attends_firstOpen hcovers hquiet.scene, (firstOpen_eq pass key _ _ hquiet).1⟩

/-- Resolving a target keeps an engine attuned. -/
theorem attends_resolveIncoming (hcovers : ∀ node, pass.node? engine key = some node →
      ∀ entry ∈ node.effects, ∀ variant ∈ entry.variants,
        CoversIncoming interest pass engine.scene key
          (entry.id.interpolate (KeyTemplate.indices key)).encode variant) :
    Attends interest engine (pass.resolveIncoming engine c key) := by
  simp only [resolveIncoming]
  split
  · exact .refl _
  next node hnode =>
    rw [fst_foldl_selectIncoming]
    obtain ⟨hattends, -⟩ := attends_foldl (P := fun state => Quiet engine state)
      (fun state entry hmem => attends_listenIncoming (hcovers node hnode entry hmem))
      (.refl engine)
    exact hattends.trans (pass.attends_applySelected _ _)

/-- Once a target has been resolved, the instance hears the queries of the alternatives of an id
that had not been applied, up to the first open one. -/
theorem hears_resolveIncoming {node : GraphNode} (hnode : pass.node? engine key = some node)
    (hlistens : engine.Listens pass.instanceId) (hattuned : engine.Attuned interest)
    (hcovers : ∀ entry ∈ node.effects, ∀ variant ∈ entry.variants,
      CoversIncoming interest pass engine.scene key
        (entry.id.interpolate (KeyTemplate.indices key)).encode variant)
    {entry : TargetEffects} (hentry : entry ∈ node.effects)
    (hunapplied :
      pass.alreadyApplied engine (entry.id.interpolate (KeyTemplate.indices key)).encode = false)
    {variant : Variant} (hmem : variant ∈ upTo (pass.isOpen engine) entry.variants)
    (hquery : query ∈ (engine.scene.gate pass.instanceId
      [variant.rule.conditions, variant.effect.effect.conditions]).liveQueries) :
    (pass.resolveIncoming engine c key).Hears pass.instanceId
      (entry.id.interpolate (KeyTemplate.indices key)).encode
      (KeyTemplate.interpolate variant.rule.key (KeyTemplate.indices key)) key query := by
  simp only [resolveIncoming, hnode]
  rw [fst_foldl_selectIncoming]
  refine (@attends_applySelected interest pass _ _).hears ?_
  refine hears_foldl (P := fun state => Quiet engine state)
    (fun state entry hmem => attends_listenIncoming (hcovers entry hmem)) (.refl engine) hattuned
    hentry ?_
  intro state hquiet hstate
  have happlied : pass.alreadyApplied state
      (entry.id.interpolate (KeyTemplate.indices key)).encode = false := by
    rw [hquiet.alreadyApplied, hunapplied]
  simp only [listenIncoming, happlied, Bool.false_eq_true, if_false]
  exact hears_firstOpen (hcovers entry hentry) hquiet.scene (hlistens.congr hquiet.scene) hstate
    (isOpen_congr hquiet pass ▸ hmem) hquery

end Pass

end InteractionBinding.Engine
