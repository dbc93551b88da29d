import InteractionBinding.Proofs.Engine.Deeds
/-!
# What operations do to subscriptions

There are few places where an engine subscribes to queries or gives subscriptions up, and every
operation comes down to them (`Engine.posts_perform`): an instance is founded, listens for an id,
gives up what it holds on behalf of a key, or is condemned. All else leaves subscriptions, listeners
and the ends of instances as they are.

## Main definitions

* `Engine.Idle` — a change that has nothing to do with subscriptions.
* `Engine.Posting` — one step that may have to do with them.
* `Engine.AsksExisting` — an operation that asks an instance to listen names one that exists.

## Main results

* `Engine.posts_perform` — every operation is a sequence of postings.
-/

namespace InteractionBinding

/-- What has to do with the subscriptions of an instance: its listeners, and whether it is
destroyed. -/
def Instance.book (inst : Instance) : List ConditionListener × Bool :=
  (inst.listeners, inst.destroyed)

namespace Engine

variable {before after engine : Engine}

/-- One engine comes from another without a change that has to do with subscriptions. -/
structure Idle (before after : Engine) : Prop where
  subscriptions : after.host.subscriptions = before.host.subscriptions
  books : after.instances.map Instance.book = before.instances.map Instance.book

/-- A step as far as it has to do with subscriptions. -/
inductive Posting : Engine → Engine → Prop
  | idle {before after : Engine} (h : Idle before after) : Posting before after
  | found (engine : Engine) (config : Config) :
    Posting engine { engine with
      instances := engine.instances ++ [Instance.ofConfig config]
      live := engine.live ++ [engine.instances.length] }
  | listen (engine : Engine) (i : InstanceId) (id source target : String) (query : Query)
      (listener : QueryListener) (h : i < engine.instances.length) :
    Posting engine (engine.listen i id source target query listener).1
  | unlisten (engine : Engine) (i : InstanceId) (key : String) :
    Posting engine (engine.unlistenKey i key)
  | condemn (engine : Engine) (i : InstanceId) :
    Posting engine
      ((engine.modifyInstance i Instance.condemned).unsubscribeAll (engine.inst i).listeners)

/-- Any number of postings. -/
abbrev Posts : Engine → Engine → Prop := Relation.ReflTransGen Posting

/-! ### Idle changes -/

theorem Idle.of_deaf (h : Deaf before after)
    (hinstances : after.scene.instances = before.scene.instances) : Idle before after where
  subscriptions := h.subscriptions
  books := by
    refine List.ext_getElem (by simp [length_instances_eq hinstances]) fun i hi hi' => ?_
    rw [List.getElem_map, List.getElem_map, ← inst_eq_getElem, ← inst_eq_getElem, Instance.book,
      Instance.book, h.listeners, destroyed_eq hinstances]

theorem idle_modifyInstance (engine : Engine) (i : InstanceId) (f : Instance → Instance)
    (hlisteners : ∀ inst, (f inst).listeners = inst.listeners)
    (hface : ∀ inst, (f inst).face = inst.face) : Idle engine (engine.modifyInstance i f) :=
  .of_deaf (deaf_modifyInstance engine i f hlisteners)
    (congrArg Scene.instances (scene_modifyInstance hface))

theorem idle_watchChildList (engine : Engine) (c : ControllerId) (container : String)
    (item : Option String) : Idle engine (engine.watchChildList c container item).1 :=
  .of_deaf (Pass.deaf_watchChildList ..) (congrArg Scene.instances (scene_watchChildList ..))

theorem idle_markApplied (engine : Engine) (i : InstanceId) (id : String) :
    Idle engine (engine.modifyInstance i (·.markApplied id)) :=
  .of_deaf (deaf_markApplied engine i id) (congrArg Scene.instances (scene_markApplied i id))

theorem idle_forgetKey (engine : Engine) (i : InstanceId) (key : String) :
    Idle engine (engine.forgetKey i key) := by
  obtain ⟨hsubscriptions, hbooks⟩ := idle_modifyInstance engine i (·.clearKey key) (fun _ => rfl)
    fun _ => rfl
  exact ⟨hsubscriptions, hbooks⟩

/-! ### Postings -/

/-- A move that does not listen has nothing to do with subscriptions. -/
theorem Move.posting (h : Move before after) : Posting before after := by
  cases h with
  | listen i id source target query listener hi =>
    exact .listen before i id source target query listener hi
  | watch c container item => exact .idle (idle_watchChildList before c container item)
  | markItem c id item =>
    exact .idle (.of_deaf (Pass.deaf_markItem before c id item)
      (congrArg Scene.instances (scene_markItem ..)))
  | tell => exact .idle ⟨rfl, rfl⟩
  | markApplied i id => exact .idle (idle_markApplied before i id)

/-- A deed is a posting, and most deeds are idle ones. -/
theorem Deed.posting (h : Deed before after) : Posting before after := by
  cases h with
  | move h => exact h.posting
  | answer host hsubscriptions => exact .idle ⟨hsubscriptions, rfl⟩
  | enlist | arrive | amend | lose => exact .idle ⟨rfl, rfl⟩
  | file i f => exact .idle (idle_modifyInstance before i _ (fun _ => rfl) fun _ => rfl)
  | release c evict =>
    have hdrops := drops_releaseHost (before.modifyController c (Controller.released · evict)) c
      (before.controller c)
    exact .idle ⟨hdrops.subscriptions, congrArg _ hdrops.instances⟩
  | forget i key => exact .idle (idle_forgetKey before i key)
  | unlisten i key => exact .unlisten before i key
  | found config => exact .found before config
  | condemn i => exact .condemn before i
  | retire i =>
    obtain ⟨hsubscriptions, hbooks⟩ := idle_modifyInstance before i
      (fun inst => { inst with memo := [] }) (fun _ => rfl) fun _ => rfl
    exact .idle ⟨hsubscriptions, hbooks⟩

theorem Deeds.posts (h : Deeds before after) : Posts before after := by
  induction h with
  | refl => exact .refl
  | tail _ hstep ih => exact ih.tail hstep.posting

/-! ### Operations -/

/-- An operation that asks an instance to listen names an instance that exists. -/
def AsksExisting (engine : Engine) : Operation → Prop
  | .listen i _ _ _ _ => i < engine.instances.length
  | _ => True

/-- Every operation is a sequence of postings. -/
theorem posts_perform {operation : Operation} (h : engine.AsksExisting operation) :
    Posts engine (engine.perform operation).1 := by
  have hdeeds (operation : Operation) (hnames : engine.NamesExisting operation)
      (hwatches : engine.WatchesConnected operation) : Posts engine (engine.perform operation).1 :=
    (deeds_perform hnames hwatches).posts
  cases operation with
  | stop => exact .single (.idle ⟨rfl, rfl⟩)
  | watch c container item =>
    rw [perform]
    split
    · exact .single (.idle (idle_watchChildList ..))
    · exact .refl
  | listen => exact hdeeds _ h trivial
  | _ => exact hdeeds _ trivial trivial

end Engine

end InteractionBinding
