import InteractionBinding.Proofs.Engine.Moves
import InteractionBinding.Proofs.Subscriptions.Ledger
/-!
# What instances hear

A full pass resolves gates on behalf of ids, and has its instance listen to the live queries of each
(`Engine.Consultation`). Which gates these are is known before the pass: those of the outgoing
effects, those of the alternatives of an id up to the first open one, and those of sequences and
their members (`Engine.consultations`). To anything else the pass is deaf
(`Engine.consults_resolveIn`).

An instance keeps one listener for an id and a query text, whatever the kind of the query. Of the
queries with one text that are asked for on behalf of one id, those of the alternatives and of the
members of a sequence included, it hears the first one and no other (`Engine.hears_resolveIn`).

## Main definitions

* `Engine.Consultation` — a gate that is resolved for an id.
* `Engine.Pass.Consults` — consultations are all that a part of a pass does to listeners.
* `firstAsked` — the first query with a text that an id asks for.
-/

namespace InteractionBinding

/-- A query that an id asks for. -/
abbrev Ask := String × Query

/-- The first query with a text that an id asks for. -/
def firstAsked (asks : List Ask) (id text : String) : Option Query :=
  (asks.find? fun ask => ask.1 = id && ask.2.text = text).map Prod.snd

theorem firstAsked_append (asks asks' : List Ask) (id text : String) :
    firstAsked (asks ++ asks') id text = (firstAsked asks id text).or (firstAsked asks' id text) := by
  rw [firstAsked, List.find?_append, Option.map_or]
  rfl

theorem mem_of_firstAsked {asks : List Ask} {id text : String} {query : Query}
    (h : firstAsked asks id text = some query) : (id, query) ∈ asks ∧ query.text = text := by
  obtain ⟨ask, hfind, rfl⟩ := Option.map_eq_some_iff.mp h
  obtain ⟨rfl, rfl⟩ : ask.1 = id ∧ ask.2.text = text := by
    simpa using List.find?_some hfind
  exact ⟨List.mem_of_find?_eq_some hfind, rfl⟩

theorem firstAsked_isSome {asks : List Ask} {id : String} {query : Query}
    (h : (id, query) ∈ asks) : (firstAsked asks id query.text).isSome = true := by
  rw [firstAsked, Option.isSome_map, List.find?_isSome]
  exact ⟨_, h, by simp⟩

/-- What an instance listens for. -/
def Instance.asks (inst : Instance) : List Ask :=
  inst.listeners.map fun listener => (listener.id, listener.query)

theorem Instance.isListening_eq (inst : Instance) (id text : String) :
    inst.isListening id text = (firstAsked inst.asks id text).isSome := by
  rw [firstAsked, Option.isSome_map, List.isSome_find?, Instance.asks, List.any_map]
  rfl

/-- An instance in order listens once for an id and a text, and so for no other query. -/
theorem Instance.InOrder.firstAsked_eq {inst : Instance} (h : inst.InOrder)
    {listener : ConditionListener} (hmem : listener ∈ inst.listeners) :
    firstAsked inst.asks listener.id listener.query.text = some listener.query := by
  have hask : (listener.id, listener.query) ∈ inst.asks :=
    List.mem_map_of_mem (f := fun listener => (listener.id, listener.query)) hmem
  obtain ⟨query, hfirst⟩ := Option.isSome_iff_exists.mp (firstAsked_isSome hask)
  obtain ⟨hquery, htext⟩ := mem_of_firstAsked hfirst
  obtain ⟨other, hother, heq⟩ := List.mem_map.mp hquery
  obtain ⟨hid, rfl⟩ := Prod.mk.inj heq
  have hslot : (other.id, other.query.text) = (listener.id, listener.query.text) := by
    rw [hid, htext]
  rw [hfirst, List.inj_on_of_nodup_map h.single hother hmem hslot]

namespace Engine

variable {before middle after engine : Engine} {i : InstanceId} {id text : String}

/-- A gate that is resolved for an id between two keys. -/
structure Consultation where
  /-- The text of the id. -/
  id : String
  source : String
  target : String
  /-- The lists of condition names. -/
  lists : List (List String)
deriving DecidableEq, Repr

/-- The live queries of the gate. -/
def Consultation.queries (consultation : Consultation) (scene : Scene) (i : InstanceId) :
    List Query :=
  (scene.gate i consultation.lists).liveQueries

def Consultation.asks (consultation : Consultation) (scene : Scene) (i : InstanceId) : List Ask :=
  (consultation.queries scene i).map (consultation.id, ·)

/-! ### Asking -/

/-- Whether an instance comes to listen depends on its listeners and the scene alone. -/
theorem Deaf.listen (h : Deaf before after) (hscene : after.scene = before.scene)
    (i : InstanceId) (id source target : String) (query : Query) (listener : QueryListener) :
    Deaf (before.listen i id source target query listener).1
      (after.listen i id source target query listener).1 := by
  have hinstances := congrArg Scene.instances hscene
  have hlength := length_instances_eq hinstances
  have hcondition : ((after.inst i).destroyed || (after.inst i).isListening id query.text) =
      ((before.inst i).destroyed || (before.inst i).isListening id query.text) := by
    rw [destroyed_eq hinstances, Instance.isListening, Instance.isListening, h.listeners]
  simp only [Engine.listen, hcondition]
  split
  · exact h
  · refine ⟨congrArg (fun set => (set.subscribe ⟨query, listener⟩).1) h.subscriptions, fun j => ?_⟩
    have hlisteners (engine : Engine) : ((({ engine with
        host := (engine.host.subscribe ⟨query, listener⟩).1 } : Engine).modifyInstance i fun inst =>
          { inst with listeners := inst.listeners ++
            [⟨id, query, source, target, engine.host.subscriptions.next⟩] }).inst j).listeners =
        if i = j ∧ j < engine.instances.length
          then (engine.inst j).listeners ++
            [⟨id, query, source, target, engine.host.subscriptions.next⟩]
          else (engine.inst j).listeners := by
      refine (congrArg _ (inst_modifyInstance_eq i j _)).trans ?_
      split <;> rfl
    refine (hlisteners after).trans (Eq.trans ?_ (hlisteners before).symm)
    rw [h.listeners, h.subscriptions, hlength]

/-- An instance that can listen hears the first query that it is asked to listen to. -/
theorem firstAsked_listen (h : engine.Listens i) (id' source target : String) (query : Query)
    (listener : QueryListener) :
    firstAsked ((engine.listen i id' source target query listener).1.inst i).asks id text =
      firstAsked ((engine.inst i).asks ++ [(id', query)]) id text := by
  simp only [listen, h.standing, Bool.false_or, Instance.isListening_eq]
  split
  next hheard =>
    -- the slot is taken, so that the query is not the first one
    rw [firstAsked_append]
    by_cases hslot : id' = id ∧ query.text = text
    · obtain ⟨rfl, rfl⟩ := hslot
      rw [Option.or_of_isSome hheard]
    · have hnone : firstAsked [(id', query)] id text = none := by
        simpa [firstAsked] using not_and.mp hslot
      rw [hnone, Option.or_none]
  next =>
    refine congrArg (firstAsked · id text) ((congrArg Instance.asks
      (inst_modifyInstance_eq i i _)).trans ?_)
    rw [if_pos ⟨rfl, h.length⟩]
    exact List.map_append

namespace Pass

variable {pass : Pass} {consultations consultations' : List Consultation}

/-- Resolves the gate of a consultation. -/
def consult (pass : Pass) (engine : Engine) (consultation : Consultation) : Engine :=
  (pass.gateFor engine consultation.id consultation.source consultation.target
    consultation.lists).1

/-- A part of a pass leaves the scene as it is and does nothing to listeners but by consultations,
in their order. -/
structure Consults (pass : Pass) (consultations : List Consultation) (before after : Engine) :
    Prop where
  heard : Deaf (consultations.foldl pass.consult before) after
  scene : after.scene = before.scene

theorem quiet_consult (pass : Pass) (engine : Engine) (consultation : Consultation) :
    Quiet engine (pass.consult engine consultation) :=
  pass.quiet_gateFor ..

theorem scene_consult (pass : Pass) (engine : Engine) (consultation : Consultation) :
    (pass.consult engine consultation).scene = engine.scene :=
  (pass.quiet_consult engine consultation).scene

theorem scene_foldl_consult (pass : Pass) (consultations : List Consultation) (engine : Engine) :
    (consultations.foldl pass.consult engine).scene = engine.scene :=
  List.foldlRecOn (motive := fun state : Engine => state.scene = engine.scene) _ _ rfl
    fun state h consultation _ => (pass.scene_consult state consultation).trans h

theorem deaf_consult (h : Deaf before after) (hscene : after.scene = before.scene)
    (consultation : Consultation) :
    Deaf (pass.consult before consultation) (pass.consult after consultation) := by
  simp only [consult, gateFor]
  rw [currentGate_eq, currentGate_eq, hscene]
  generalize (before.scene.gate pass.instanceId consultation.lists).liveQueries = queries
  induction queries generalizing before after with
  | nil => exact h
  | cons query rest ih =>
    exact ih (h.listen hscene ..) (by rw [scene_listen, scene_listen, hscene])

namespace Consults

theorem of_deaf (h : Deaf before after) (hscene : after.scene = before.scene) :
    pass.Consults [] before after :=
  ⟨h, hscene⟩

theorem refl (engine : Engine) : pass.Consults [] engine engine := .of_deaf (.refl engine) rfl

theorem single (pass : Pass) (engine : Engine) (consultation : Consultation) :
    pass.Consults [consultation] engine (pass.consult engine consultation) :=
  ⟨.refl _, pass.scene_consult engine consultation⟩

theorem trans (first : pass.Consults consultations before middle)
    (second : pass.Consults consultations' middle after) :
    pass.Consults (consultations ++ consultations') before after := by
  refine ⟨?_, second.scene.trans first.scene⟩
  rw [List.foldl_append]
  refine Deaf.trans ?_ second.heard
  -- what the first part does beside its consultations is not heard by the second one
  have hsame : middle.scene = (consultations.foldl pass.consult before).scene := by
    rw [first.scene, scene_foldl_consult]
  clear second
  induction consultations' using List.reverseRecOn with
  | nil => exact first.heard
  | append_singleton front consultation ih =>
    rw [List.foldl_append, List.foldl_append]
    refine deaf_consult ih ?_ consultation
    rw [scene_foldl_consult, scene_foldl_consult, hsame]

theorem deaf_trans (first : Deaf before middle) (hscene : middle.scene = before.scene)
    (second : pass.Consults consultations middle after) :
    pass.Consults consultations before after :=
  trans (of_deaf first hscene) second

theorem trans_deaf (first : pass.Consults consultations before middle)
    (second : Deaf middle after) (hscene : after.scene = middle.scene) :
    pass.Consults consultations before after :=
  List.append_nil consultations ▸ trans first (of_deaf second hscene)

theorem listens (h : pass.Consults consultations before after) (hlistens : before.Listens i) :
    after.Listens i :=
  hlistens.congr h.scene

/-- What a walk over a list consults, step by step. -/
theorem foldl {α : Type} {f : Engine → α → Engine} {l : List α} {P : Engine → Prop}
    (asked : α → List Consultation) (hP : P engine)
    (h : ∀ state, ∀ a ∈ l, P state → pass.Consults (asked a) state (f state a) ∧ P (f state a)) :
    pass.Consults (l.flatMap asked) engine (l.foldl f engine) := by
  induction l generalizing engine with
  | nil => exact .refl engine
  | cons a rest ih =>
    obtain ⟨hfirst, hP'⟩ := h engine a (.head _) hP
    exact hfirst.trans (ih hP' fun state b hmem => h state b (.tail _ hmem))

end Consults

/-- The queries of a gate are heard if they are the first ones. -/
theorem firstAsked_consult (hlistens : engine.Listens pass.instanceId)
    (consultation : Consultation) :
    firstAsked ((pass.consult engine consultation).inst pass.instanceId).asks id text =
      firstAsked ((engine.inst pass.instanceId).asks ++
        consultation.asks engine.scene pass.instanceId) id text := by
  rw [consult, gateFor, currentGate_eq, Consultation.asks, Consultation.queries]
  dsimp only
  generalize (engine.scene.gate pass.instanceId consultation.lists).liveQueries = queries
  induction queries generalizing engine with
  | nil => rw [List.map_nil, List.append_nil, List.foldl_nil]
  | cons query rest ih =>
    rw [List.foldl_cons, ih (hlistens.congr (scene_listen ..)), firstAsked_append,
      firstAsked_listen hlistens, List.map_cons, ← firstAsked_append, List.append_assoc]
    rfl

/-- Of what the instance has listened for before and is asked to listen for, the first query is
heard. -/
theorem Consults.firstAsked (h : pass.Consults consultations before after)
    (hlistens : before.Listens pass.instanceId) (id text : String) :
    firstAsked (after.inst pass.instanceId).asks id text =
      firstAsked ((before.inst pass.instanceId).asks ++
        consultations.flatMap (·.asks before.scene pass.instanceId)) id text := by
  have hheard : (after.inst pass.instanceId).asks =
      ((consultations.foldl pass.consult before).inst pass.instanceId).asks := by
    rw [Instance.asks, h.heard.listeners]
    rfl
  rw [hheard]
  clear h hheard
  induction consultations generalizing before with
  | nil => rw [List.flatMap_nil, List.append_nil, List.foldl_nil]
  | cons consultation rest ih =>
    have hscene := pass.scene_consult before consultation
    rw [List.foldl_cons, ih (hlistens.congr hscene), hscene, firstAsked_append,
      firstAsked_consult hlistens, ← firstAsked_append, List.append_assoc, List.flatMap_cons]

/-! ### Effects -/

/-- The consultation for an effect of a rule whose source is resolved. -/
def effectConsultation (key : String) (rule : Rule) (effect : CompiledEffect) : Consultation :=
  ⟨(effect.id.interpolate (KeyTemplate.indices key)).encode, key,
    KeyTemplate.interpolate effect.target (KeyTemplate.indices key),
    [rule.conditions, effect.effect.conditions]⟩

/-- The consultations for the effects of a key as a source. -/
def outgoingConsultations (pass : Pass) (engine : Engine) (key : String) : List Consultation :=
  match pass.node? engine key with
  | none => []
  | some node => node.triggers.flatMap fun interaction =>
    interaction.effects.map (effectConsultation key interaction.rule)

/-- The consultation for an alternative of an id whose target is resolved. -/
def variantConsultation (key id : String) (variant : Variant) : Consultation :=
  ⟨id, KeyTemplate.interpolate variant.rule.key (KeyTemplate.indices key), key,
    [variant.rule.conditions, variant.effect.effect.conditions]⟩

/-- The consultations for an id of a target: those for its alternatives up to the first open one,
unless the id has been applied. -/
def entryConsultations (pass : Pass) (engine : Engine) (key : String) (entry : TargetEffects) :
    List Consultation :=
  let id := (entry.id.interpolate (KeyTemplate.indices key)).encode
  if pass.alreadyApplied engine id then []
  else (upTo (pass.isOpen engine) entry.variants).map (variantConsultation key id)

/-- The consultations for the ids of a key as a target. -/
def incomingConsultations (pass : Pass) (engine : Engine) (key : String) : List Consultation :=
  match pass.node? engine key with
  | none => []
  | some node => node.effects.flatMap (pass.entryConsultations engine key)

theorem consults_watchRule (pass : Pass) (engine : Engine) (c : ControllerId) (rule : Rule) :
    pass.Consults [] engine (pass.watchRule engine c rule) := by
  refine .of_deaf ?_ (pass.quiet_watchRule engine c rule).scene
  rw [watchRule]
  split
  · split
    · exact deaf_watchChildList ..
    · exact .refl _
  · exact .refl _

theorem consults_listenInteraction (pass : Pass) (c : ControllerId) (key : String)
    (engine : Engine) (interaction : CompiledInteraction) :
    pass.Consults (interaction.effects.map (effectConsultation key interaction.rule)) engine
      (pass.listenInteraction c key engine interaction) := by
  refine (consults_watchRule pass engine c interaction.rule).trans ?_
  rw [List.map_eq_flatMap]
  exact .foldl (P := fun _ => True) _ trivial fun state effect _ _ =>
    ⟨.single pass state (effectConsultation key interaction.rule effect), trivial⟩

theorem Consults.applySelected (h : pass.Consults consultations before after)
    (selected : List Candidate) :
    pass.Consults consultations before (pass.applySelected after selected) :=
  h.trans_deaf (pass.deaf_applySelected after selected)
    (Wires.scene (pass.applySelected_spec after selected))

theorem consults_resolveOutgoing (pass : Pass) (engine : Engine) (c : ControllerId)
    (key : String) : pass.Consults (pass.outgoingConsultations engine key) engine
      (pass.resolveOutgoing engine c key) := by
  rw [outgoingConsultations, resolveOutgoing]
  cases pass.node? engine key with
  | none => exact .refl engine
  | some node =>
    refine Consults.applySelected ?_ _
    rw [fst_foldl_selectInteraction]
    exact .foldl (P := fun _ => True) _ trivial
      fun state interaction _ _ => ⟨consults_listenInteraction pass c key state interaction, trivial⟩

theorem consults_firstOpen (pass : Pass) (key id : String) (engine : Engine)
    (variants : List Variant) :
    pass.Consults ((upTo (pass.isOpen engine) variants).map (variantConsultation key id)) engine
      (pass.firstOpen key id engine variants).1 := by
  induction variants generalizing engine with
  | nil => exact .refl engine
  | cons variant rest ih =>
    have hfirst := Consults.single pass engine (variantConsultation key id variant)
    rw [firstOpen_cons, upTo]
    dsimp only
    split
    · exact hfirst
    · have hrest := ih (pass.consult engine (variantConsultation key id variant))
      rw [isOpen_congr (pass.quiet_consult ..)] at hrest
      exact hfirst.trans hrest

theorem consults_listenIncoming (pass : Pass) (key : String) (engine : Engine)
    (entry : TargetEffects) :
    pass.Consults (pass.entryConsultations engine key entry) engine
      (pass.listenIncoming key engine entry) := by
  simp only [listenIncoming, entryConsultations]
  split
  · exact .refl engine
  · exact consults_firstOpen pass key _ engine entry.variants

theorem quiet_listenIncoming (pass : Pass) (key : String) (engine : Engine)
    (entry : TargetEffects) : Quiet engine (pass.listenIncoming key engine entry) := by
  rw [listenIncoming]
  split
  · exact .refl engine
  · exact (firstOpen_eq pass key _ _ (.refl engine)).1

theorem consults_resolveIncoming (pass : Pass) (engine : Engine) (c : ControllerId)
    (key : String) : pass.Consults (pass.incomingConsultations engine key) engine
      (pass.resolveIncoming engine c key) := by
  rw [incomingConsultations, resolveIncoming]
  cases pass.node? engine key with
  | none => exact .refl engine
  | some node =>
    refine Consults.applySelected ?_ _
    rw [fst_foldl_selectIncoming]
    -- listening applies nothing, so every id is decided on as in the engine at the start
    refine .foldl (P := fun state => Quiet engine state) _ (.refl engine)
      fun state entry _ hquiet => ⟨?_, hquiet.trans (pass.quiet_listenIncoming key state entry)⟩
    have hheard := consults_listenIncoming pass key state entry
    rwa [entryConsultations, hquiet.alreadyApplied, isOpen_congr hquiet pass] at hheard

end Pass

/-! ### Sequences -/

namespace Cue

/-- A member that lets the whole sequence wait: its gate is open and it has no target. -/
def waits (cue : Cue) (scene : Scene) (i : InstanceId) (effect : CompiledEffect) : Bool :=
  scene.admits i effect && (cue.target? scene effect).isNone

/-- The consultation for a member of a sequence. -/
def memberConsultation (cue : Cue) (effect : CompiledEffect) : Consultation :=
  ⟨cue.text, cue.key, KeyTemplate.interpolate effect.target (KeyTemplate.indices cue.key),
    [effect.effect.conditions]⟩

/-- The consultations for a sequence that has not been applied: that of the sequence, and if its gate
is open those for its members, up to the first one that waits. -/
def consultations (cue : Cue) (engine : Engine) (i : InstanceId) : List Consultation :=
  if cue.text ∈ (engine.inst i).memo then []
  else
    ⟨cue.text, cue.key, cue.key, [cue.rule.conditions, cue.sequence.conditions]⟩ ::
      if (cue.gate engine.scene i).isOpen then
        (Pass.upTo (cue.waits engine.scene i) cue.sequence.effects).map cue.memberConsultation
      else []

end Cue

/-- The consultations for sequences, each of them in the engine that those before it have left. -/
def cueConsultations (i : InstanceId) (engine : Engine) : List Cue → List Consultation
  | [] => []
  | cue :: rest => cue.consultations engine i ++ cueConsultations i (applyCue i engine cue) rest

/-- The consultations of a full pass over an instance. -/
def consultations (engine : Engine) (i : InstanceId) (c : ControllerId) (key : String) :
    List Consultation :=
  let pass : Pass := ⟨i, none⟩
  let sourced := pass.resolveOutgoing (engine.setController i key c) c key
  let targeted := pass.resolveIncoming sourced c key
  pass.outgoingConsultations engine key ++ pass.incomingConsultations sourced key ++
    cueConsultations i targeted (engine.scene.cues i c key)

theorem Pass.deaf_effectNodes (pass : Pass) (engine : Engine) (target : ControllerId)
    (effect : Effect) : Deaf engine (pass.effectNodes engine target effect).1 := by
  rw [effectNodes]
  split
  · exact .refl engine
  · split
    · exact pass.deaf_listItems ..
    · exact .refl engine

namespace Cue

theorem consults_sequenceMembers (cue : Cue) (i : InstanceId) (engine : Engine)
    (effects : List CompiledEffect) :
    (Pass.mk i none).Consults
      ((Pass.upTo (cue.waits engine.scene i) effects).map cue.memberConsultation) engine
      ((Pass.mk i none).sequenceMembers cue.source cue.key cue.text cue.rule engine effects).1 := by
  induction effects generalizing engine with
  | nil => exact .refl engine
  | cons effect rest ih =>
    have hfirst : (Pass.mk i none).Consults [cue.memberConsultation effect] engine
        ((Pass.mk i none).gateFor engine cue.text cue.key
          (KeyTemplate.interpolate effect.target (KeyTemplate.indices cue.key))
          [effect.effect.conditions]).1 :=
      .single (Pass.mk i none) engine (cue.memberConsultation effect)
    have hopen : ((Pass.mk i none).gateFor engine cue.text cue.key
        (KeyTemplate.interpolate effect.target (KeyTemplate.indices cue.key))
        [effect.effect.conditions]).2.isOpen = engine.scene.admits i effect := by
      rw [Scene.admits, ← Pass.currentGate_eq engine ⟨i, none⟩]
      rfl
    simp only [Pass.sequenceMembers, hopen]
    generalize ((Pass.mk i none).gateFor engine cue.text cue.key
      (KeyTemplate.interpolate effect.target (KeyTemplate.indices cue.key))
      [effect.effect.conditions]).1 = heard at hfirst ⊢
    have htarget : (if effect.target = cue.rule.key then some cue.source
        else heard.connectedController?
          (KeyTemplate.interpolate effect.target (KeyTemplate.indices cue.key))) =
        cue.target? engine.scene effect := by
      rw [connectedController?_eq, hfirst.scene]
      rfl
    have hrest {state : Engine} (hscene : state.scene = engine.scene) := hscene ▸ ih state
    cases hadmits : engine.scene.admits i effect with
    | false =>
      have hgoesOn : cue.waits engine.scene i effect = false := by rw [waits, hadmits, Bool.false_and]
      rw [Pass.upTo, hgoesOn]
      exact hfirst.trans (hrest hfirst.scene)
    | true =>
      have hwaits : cue.waits engine.scene i effect = (cue.target? engine.scene effect).isNone := by
        rw [waits, hadmits, Bool.true_and]
      rw [Pass.upTo, hwaits]
      simp only [htarget, Bool.not_true, Bool.false_eq_true, if_false]
      cases cue.target? engine.scene effect with
      | none => exact hfirst
      | some target =>
        have hnodes := hfirst.trans_deaf
          (Pass.deaf_effectNodes (Pass.mk i none) heard target effect.effect)
          (Pass.effectNodes_spec i heard target effect.effect).1.scene
        have hmembers := hnodes.trans (hrest hnodes.scene)
        simp only [Option.isNone_some, Bool.false_eq_true, if_false]
        split <;> exact hmembers

theorem deaf_wireSequence (pass : Pass) (handler : HandlerId) (plan : SequencePlan)
    (params : KeyMap Json) (context : HandlerContext) (engine : Engine) (nodes : List NodeId) :
    Deaf engine (pass.wireSequence handler plan params context engine nodes).1 := by
  rw [Pass.wireSequence]
  refine List.foldlRecOn (motive := fun (state : Engine × Bool) => Deaf engine state.1) _ _
    (.refl engine) fun state hstate node _ => hstate.trans ⟨rfl, fun _ => rfl⟩

/-- Applying a cue consults, and then wires what is ready without listening to anything else. -/
theorem consults_applyCue (cue : Cue) (i : InstanceId) (engine : Engine) :
    (Pass.mk i none).Consults (cue.consultations engine i) engine (applyCue i engine cue) := by
  rw [consultations]
  split
  next happlied =>
    rw [applyCue_of_applied happlied]
    exact .refl engine
  next hfresh =>
    have happlied : (Pass.mk i none).alreadyApplied engine cue.text = false := by
      simpa [Pass.alreadyApplied, Instance.isApplied] using hfresh
    have hid : cue.sequence.id.interpolate (KeyTemplate.indices cue.key) = cue.id := rfl
    have htext : cue.id.encode = cue.text := rfl
    have hgate := cue.snd_gateFor i engine
    have hfirst : (Pass.mk i none).Consults
        [⟨cue.text, cue.key, cue.key, [cue.rule.conditions, cue.sequence.conditions]⟩] engine
        ((Pass.mk i none).gateFor engine cue.text cue.key cue.key
          [cue.rule.conditions, cue.sequence.conditions]).1 :=
      .single (Pass.mk i none) engine
        ⟨cue.text, cue.key, cue.key, [cue.rule.conditions, cue.sequence.conditions]⟩
    have hscene := scene_applyCue i engine cue
    simp only [applyCue, Pass.applySequence, hid, htext, happlied, hgate, Bool.false_eq_true,
      if_false] at hscene ⊢
    generalize ((Pass.mk i none).gateFor engine cue.text cue.key cue.key
      [cue.rule.conditions, cue.sequence.conditions]).1 = heard at hfirst hscene ⊢
    cases hopen : (cue.gate engine.scene i).isOpen with
    | false => exact hfirst
    | true =>
      have hmembers := hfirst.trans (hfirst.scene ▸
        cue.consults_sequenceMembers i heard cue.sequence.effects)
      simp only [hopen, Bool.not_true, Bool.false_eq_true, if_false] at hscene ⊢
      refine ⟨hmembers.heard.trans ?_, hscene⟩
      generalize (Pass.mk i none).sequenceMembers cue.source cue.key cue.text cue.rule heard
        cue.sequence.effects = result
      obtain ⟨ready, members⟩ := result
      cases members with
      | none => exact .refl ready
      | some members =>
        cases members with
        | nil => exact .refl ready
        | cons first others =>
          dsimp only
          split
          · split
            · exact (deaf_wireSequence ..).trans (deaf_markApplied ..)
            · exact deaf_wireSequence ..
          · exact .refl ready

end Cue

theorem consults_cues (i : InstanceId) (engine : Engine) (cues : List Cue) :
    (Pass.mk i none).Consults (cueConsultations i engine cues) engine
      (cues.foldl (applyCue i) engine) := by
  induction cues generalizing engine with
  | nil => exact .refl engine
  | cons cue rest ih => exact (cue.consults_applyCue i engine).trans (ih _)

/-- A full pass does nothing to listeners but by its consultations. -/
theorem consults_resolveIn (engine : Engine) (i : InstanceId) (c : ControllerId) (key : String) :
    (Pass.mk i none).Consults (engine.consultations i c key) engine
      (resolveIn c key engine i) := by
  let pass : Pass := ⟨i, none⟩
  have hset := engine.quiet_setController i key c
  have hfiled : Deaf engine (engine.setController i key c) :=
    deaf_modifyInstance engine i _ fun _ => rfl
  have hout := pass.consults_resolveOutgoing (engine.setController i key c) c key
  rw [Pass.outgoingConsultations, hset.node?, ← Pass.outgoingConsultations] at hout
  have hin := pass.consults_resolveIncoming
    (pass.resolveOutgoing (engine.setController i key c) c key) c key
  have heffects := (hout.deaf_trans hfiled hset.scene).trans hin
  have hcues := heffects.trans (consults_cues i _ (engine.scene.cues i c key))
  rw [Scene.cues, List.foldl_append] at hcues
  rw [resolveIn, Pass.resolveIncomingSequences_eq, Pass.resolveOutgoingSequences_eq,
    scene_foldl_applyCue, heffects.scene]
  exact hcues

/-! ### Full passes -/

theorem posts_resolveIn {c : ControllerId} (hi : i < engine.instances.length)
    (hconnected : (engine.controller c).connected = true) (key : String) :
    Posts engine (resolveIn c key engine i) := by
  have hfiled : Posting engine (engine.setController i key c) :=
    .idle (idle_modifyInstance engine i _ (fun _ => rfl) fun _ => rfl)
  exact .head hfiled (moves_resolveIn hi hconnected key).deeds.posts

/-- What an instance listens for is recorded. -/
theorem mem_recorded (hi : i < engine.instances.length) {listener : ConditionListener}
    (hmem : listener ∈ (engine.inst i).listeners) : listener.ticket ∈ engine.recorded := by
  rw [inst_eq_getElem hi] at hmem
  exact List.mem_flatMap.mpr ⟨_, List.getElem_mem hi, List.mem_map_of_mem hmem⟩

/-- The instance of a full pass has a listener for every query of every gate that the pass resolves
for an id: a listener for the id and the text of the query, which is subscribed at the host. It is a
listener for the query itself exactly if the query is the first one with this text that the id asks
for, of what the instance has listened for before and of the gates of the pass in their order. -/
theorem hears_resolveIn {host : Host} {options : EngineOptions} {operations : List Operation}
    (hissued : host.subscriptions.Issued)
    (hasks : Follows AsksExisting (start host options) operations)
    (hposts : Posts ((start host options).run operations) engine) (hlistens : engine.Listens i)
    {c : ControllerId} (hconnected : (engine.controller c).connected = true) (key : String) :
    let after := resolveIn c key engine i
    let consultations := engine.consultations i c key
    let asks := (engine.inst i).asks ++ consultations.flatMap (·.asks engine.scene i)
    ∀ consultation ∈ consultations, ∀ query ∈ consultation.queries engine.scene i,
      (∃ listener ∈ (after.inst i).listeners, listener.id = consultation.id ∧
        listener.query.text = query.text ∧ listener.ticket ∈ after.host.tickets) ∧
      ((∃ listener ∈ (after.inst i).listeners, listener.id = consultation.id ∧
        listener.query = query) ↔ firstAsked asks consultation.id query.text = some query) := by
  intro after consultations asks consultation hconsultation query hquery
  have hconsults := consults_resolveIn engine i c key
  have hlistens' : after.Listens i := hconsults.listens hlistens
  have hfirst : firstAsked (after.inst i).asks consultation.id query.text =
      firstAsked asks consultation.id query.text := hconsults.firstAsked hlistens ..
  have hasked : (consultation.id, query) ∈ asks :=
    List.mem_append_right _ (List.mem_flatMap.mpr
      ⟨consultation, hconsultation, List.mem_map_of_mem hquery⟩)
  have haccounted : after.Accounted host.tickets :=
    Posts.accounted (hposts.trans (posts_resolveIn hlistens.length hconnected key))
      (accounted_run (accounted_start hissued options) hasks)
  clear_value after asks
  refine ⟨?_, fun ⟨listener, hmem, hid, hlistener⟩ => ?_, fun h => ?_⟩
  · have hlistening : (after.inst i).isListening consultation.id query.text = true := by
      rw [Instance.isListening_eq, hfirst]
      exact firstAsked_isSome hasked
    obtain ⟨listener, hmem, hslot⟩ := List.any_eq_true.mp hlistening
    rw [Bool.and_eq_true, decide_eq_true_eq, decide_eq_true_eq] at hslot
    refine ⟨listener, hmem, hslot.1, hslot.2, haccounted.ledger.symm.subset ?_⟩
    exact List.mem_append_right _ (mem_recorded hlistens'.length hmem)
  · rw [← hfirst, ← hid, ← hlistener]
    exact (haccounted.inOrder i).firstAsked_eq hmem
  · obtain ⟨hmem, -⟩ := mem_of_firstAsked (hfirst.trans h)
    obtain ⟨listener, hlistener, heq⟩ := List.mem_map.mp hmem
    exact ⟨listener, hlistener, Prod.mk.inj heq⟩

/-- A rule depends on the viewport and on a container being wide. The two queries have one text, so
that the second one is not heard. -/
theorem hears_resolveIn_wide :
    let media : Query := ⟨.media, "(min-width: 1px)"⟩
    let container : Query := ⟨.container, "(min-width: 1px)"⟩
    let config := ((Config.ofInteractions [(Interaction.ofTrigger "a" .click).withEffect
      (((Effect.byId "f").on "b").withConditions ["wide", "roomy"])]).withCondition "wide"
        ⟨.media, "min-width: 1px"⟩).withCondition "roomy" ⟨.container, "min-width: 1px"⟩
    let engine := (start .bare .standard).run
      [.create config, .addNode 2 "b", .addNode 1 "a", .unlistenKey 0 "a"]
    let after := resolveIn 1 "a" engine 0
    (∃ consultation ∈ engine.consultations 0 1 "a", consultation.id = "b::f::0" ∧
        consultation.queries engine.scene 0 = [media, container]) ∧
      (∃ listener ∈ (after.inst 0).listeners, listener.id = "b::f::0" ∧ listener.query = media) ∧
      ¬∃ listener ∈ (after.inst 0).listeners,
        listener.id = "b::f::0" ∧ listener.query = container := by
  intro media container config engine after
  have hconsultations : engine.consultations 0 1 "a" =
      [⟨"b::f::0", "a", "b", [[], ["wide", "roomy"]]⟩] := by decide +kernel
  have hqueries : Consultation.queries ⟨"b::f::0", "a", "b", [[], ["wide", "roomy"]]⟩ engine.scene 0 =
      [media, container] := by decide +kernel
  have hasks : Follows AsksExisting (start .bare .standard)
      [.create config, .addNode 2 "b", .addNode 1 "a", .unlistenKey 0 "a"] :=
    ⟨trivial, trivial, trivial, trivial, trivial⟩
  have hlistens : engine.Listens 0 := ⟨by decide +kernel, by decide +kernel⟩
  have hconnected : (engine.controller 1).connected = true := by decide +kernel
  have hheard := @hears_resolveIn engine 0 .bare .standard _ ListenerSet.issued_empty hasks .refl
    hlistens 1 hconnected "a"
  rw [hconsultations] at hheard ⊢
  have hboth := hheard _ (List.mem_singleton_self _)
  rw [hqueries] at hboth
  -- the media query is asked for first
  refine ⟨⟨_, List.mem_singleton_self _, rfl, hqueries⟩,
    (hboth media (.head _)).2.mpr (by decide +kernel), ?_⟩
  exact mt (hboth container (.tail _ (.head _))).2.mp (by decide +kernel)

end Engine

end InteractionBinding
