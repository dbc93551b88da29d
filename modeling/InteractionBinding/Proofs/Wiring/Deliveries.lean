import InteractionBinding.Proofs.Lifecycle.Turning
import InteractionBinding.Proofs.Wiring.AtMostOnce
import InteractionBinding.Proofs.Wiring.Charges
import InteractionBinding.Proofs.Wiring.ListDelta
/-!
# What a change of a list tells

While a change of the children of a container is delivered, handlers are told to drop the removed
nodes, and are asked for wires through added ones (`Engine.Delivers`). A pass with a scope asks for
the pairs of those items that have not been kept as wired for the id, and keeps them as wired from
then on (`Pass.applyCandidate_scoped`). So if a document finds every node once and no node is added
twice, a change spares what is kept as wired (`Engine.course_childListChanged`).
-/

namespace InteractionBinding.Engine

variable {engine before middle after : Engine} {occasion : Occasion}

/-! ### Wiring through items -/

namespace Warrant

/-- The controller whose list an effect is bound to, if it is bound to one. -/
def listOwner (warrant : Warrant) : ControllerId :=
  if warrant.interaction.rule.isListBound then warrant.source else warrant.target

/-- The selector that reaches a node of the list side from an item. -/
def reach (warrant : Warrant) : Option String :=
  if warrant.interaction.rule.isListBound then warrant.interaction.rule.selector
  else warrant.effect.effect.selector

/-- An effect that is bound to a list goes through an item: the node of the list side is reached
from it. -/
structure Through (warrant : Warrant) (dom : Dom) (item source target : NodeId) : Prop where
  bound : warrant.interaction.rule.isListBound = true ∨
    warrant.effect.effect.listContainer.isSome = true
  reached : (if warrant.interaction.rule.isListBound then source else target) ∈
    dom.select item warrant.reach

/-- What goes through an item without a selector touches it. -/
theorem Through.touches {warrant : Warrant} {dom : Dom} {item source target : NodeId}
    (h : warrant.Through dom item source target) (hreach : warrant.reach = none)
    (id : InteractionId) : (Wire.mk source target id).touches item = true := by
  have hreached := h.reached
  rw [hreach, Dom.select, List.mem_singleton] at hreached
  rw [Wire.touches, Bool.or_eq_true, decide_eq_true_eq, decide_eq_true_eq]
  split at hreached
  · exact .inl hreached
  · exact .inr hreached

end Warrant

/-- What a change of a list tells in a scene: a removed node is torn down, or a wire is asked for
through an added one, at the expense of the item and the owner of the list. -/
def Delivers (occasion : Occasion) (added removed : List NodeId) (scene : Scene) : Charge → Prop
  | ⟨.told (.add i handler source target plan params context _) told, some account⟩ =>
    told = scene ∧ account.item ∈ added ∧ ∃ warrant,
      Justifies occasion scene warrant i handler source target plan params context ∧
        warrant.listOwner = account.owner ∧ warrant.Through scene.dom account.item source target
  | ⟨.told (.remove handler node) told, none⟩ =>
    told = scene ∧ handler ∈ scene.handlers.all ∧ node ∈ removed
  | _ => False

/-- Everyone keeps the items as wired that were kept before. -/
def Remembers (before after : Engine) : Prop :=
  ∀ c, ∀ entry ∈ (before.controller c).wiredItems, entry ∈ (after.controller c).wiredItems

theorem Remembers.refl (engine : Engine) : engine.Remembers engine := fun _ _ => id

theorem Remembers.trans (first : before.Remembers middle) (second : middle.Remembers after) :
    before.Remembers after := fun c entry hmem => second c entry (first c entry hmem)

theorem remembers_markItem (engine : Engine) (c : ControllerId) (text : String) (item : NodeId) :
    engine.Remembers (engine.markItem c text item).1 := by
  intro d entry hmem
  refine markItem_ind (P := fun after : Engine => entry ∈ (after.controller d).wiredItems)
    (fun _ => hmem) ?_
  rw [controller_modifyController_eq]
  split
  · exact List.mem_append_left _ hmem
  · exact hmem

theorem mem_markItem_self {c : ControllerId} {text : String} {item : NodeId}
    (hc : c < engine.controllers.length) :
    (text, item) ∈ ((engine.markItem c text item).1.controller c).wiredItems := by
  refine markItem_ind (P := fun after : Engine => (text, item) ∈ (after.controller c).wiredItems)
    id ?_
  rw [controller_modifyController_eq, if_pos ⟨rfl, hc⟩]
  exact List.mem_append_right _ (List.mem_singleton_self _)

theorem length_controllers_eq (h : after.scene = before.scene) :
    after.controllers.length = before.controllers.length := by
  simpa only [scene, List.length_map] using congrArg (List.length <| Scene.controllers ·) h

namespace Pass

variable {pass : Pass} {scope : ListScope} {candidate : Candidate} {progress : Progress}
  {handler : HandlerId}

/-! ### Items in a scope -/

/-- What is decided on the items of a candidate follows from what was kept as wired at the start. -/
structure Decides (candidate : Candidate) (start : Engine) (progress : Progress) : Prop where
  decided : ∀ entry ∈ progress.decided, (entry.2 = true ↔
    (candidate.memoKey, entry.1) ∉ (start.controller (listOwner candidate)).wiredItems)
  marked : ∀ entry ∈ progress.decided,
    (candidate.memoKey, entry.1) ∈ (progress.engine.controller (listOwner candidate)).wiredItems
  undecided (item : NodeId) : (∀ entry ∈ progress.decided, entry.1 ≠ item) →
    (candidate.memoKey, item) ∈ (progress.engine.controller (listOwner candidate)).wiredItems →
      (candidate.memoKey, item) ∈ (start.controller (listOwner candidate)).wiredItems
  remembers : start.Remembers progress.engine

theorem decides_start (candidate : Candidate) (engine : Engine) :
    Decides candidate engine ⟨engine, [], false⟩ :=
  ⟨fun _ h => absurd h List.not_mem_nil, fun _ h => absurd h List.not_mem_nil, fun _ _ => id,
    .refl engine⟩

/-- A pass with a scope allows an item that was not kept as wired, and keeps it from then on. -/
theorem decideItem_scoped (hscope : pass.scope = some scope) {start : Engine}
    (howner : listOwner candidate < progress.engine.controllers.length)
    (h : Decides candidate start progress) (item : NodeId) :
    let decision := pass.decideItem candidate progress (some item)
    (decision.2 = true ↔
        (candidate.memoKey, item) ∉ (start.controller (listOwner candidate)).wiredItems) ∧
      Decides candidate start decision.1 ∧ Quiet progress.engine decision.1.engine ∧
      progress.engine.Remembers decision.1.engine ∧ (candidate.memoKey, item) ∈
        (decision.1.engine.controller (listOwner candidate)).wiredItems := by
  simp only [decideItem]
  split
  next entry known allowed hfind =>
    have hmem := List.mem_of_find?_eq_some hfind
    obtain rfl : known = item := by simpa using List.find?_some hfind
    exact ⟨h.decided _ hmem, h, .refl _, .refl _, h.marked _ hmem⟩
  next hfind =>
    have hundecided : ∀ entry ∈ progress.decided, entry.1 ≠ item := by
      simpa using List.find?_eq_none.mp hfind
    have hfresh : ((progress.engine.markItem (listOwner candidate) candidate.memoKey item).2 ||
        pass.scope.isNone) = true ↔
        (candidate.memoKey, item) ∉ (start.controller (listOwner candidate)).wiredItems := by
      rw [hscope, Option.isNone_some, Bool.or_false, markItem]
      split
      next hmem =>
        exact iff_of_false Bool.false_ne_true fun hnew => hnew (h.undecided item hundecided hmem)
      next hnew => exact iff_of_true rfl fun hmem => hnew (h.remembers _ _ hmem)
    have hself : (candidate.memoKey, item) ∈ ((progress.engine.markItem (listOwner candidate)
        candidate.memoKey item).1.controller (listOwner candidate)).wiredItems :=
      mem_markItem_self howner
    have hremembers :=
      remembers_markItem progress.engine (listOwner candidate) candidate.memoKey item
    refine ⟨hfresh, ⟨?_, ?_, fun other hother hmem => ?_, h.remembers.trans hremembers⟩,
      quiet_markItem .., hremembers, hself⟩
    · exact List.forall_mem_cons.mpr ⟨hfresh, h.decided⟩
    · exact List.forall_mem_cons.mpr
        ⟨hself, fun entry hmem => hremembers _ _ (h.marked entry hmem)⟩
    · rw [List.forall_mem_cons] at hother
      rcases mem_wiredItems_markItem hmem with hold | hnew
      · exact h.undecided other hother.2 hold
      · exact absurd (Prod.mk.inj hnew).2.symm hother.1

/-- Whether the item of a pair was not kept as wired for a candidate. -/
def isNew (engine : Engine) (candidate : Candidate) (pair : NodePair) : Bool :=
  pair.item.all fun item =>
    !(engine.controller (listOwner candidate)).wiredItems.contains (candidate.memoKey, item)

theorem isNew_iff {pair : NodePair} {item : NodeId} (hitem : pair.item = some item) :
    isNew engine candidate pair = true ↔
      (candidate.memoKey, item) ∉ (engine.controller (listOwner candidate)).wiredItems := by
  rw [isNew, hitem, Option.all_some, Bool.not_eq_true', ← Bool.not_eq_true, List.contains_iff_mem]

/-- A pass with a scope asks for a pair if its item was not kept as wired, and keeps the item. -/
theorem wirePair_scoped (hscope : pass.scope = some scope) {start : Engine}
    (howner : listOwner candidate < progress.engine.controllers.length)
    (h : Decides candidate start progress) {pair : NodePair} {item : NodeId}
    (hitem : pair.item = some item) :
    let wired := pass.wirePair handler candidate (context progress.engine.scene candidate)
      progress pair
    ∃ offers : List Offer, offers.map Offer.toProposal =
        ([pair].filter (isNew start candidate)).map (⟨candidate, handler, ·⟩) ∧
      Extends pass.instanceId (offers.map (Offer.event pass.instanceId progress.engine.scene)) []
        progress.engine wired.engine ∧
      Decides candidate start wired ∧ progress.engine.Remembers wired.engine ∧
      (candidate.memoKey, item) ∈ (wired.engine.controller (listOwner candidate)).wiredItems := by
  obtain ⟨hallowed, hdecides, hquiet, hremembers, hmarked⟩ :=
    decideItem_scoped hscope howner h item
  simp only [wirePair, hitem]
  generalize pass.decideItem candidate progress (some item) = decision
    at hallowed hdecides hquiet hremembers hmarked ⊢
  obtain ⟨decided, allowed⟩ := decision
  dsimp only at hallowed hdecides hquiet hremembers hmarked ⊢
  have hnew : isNew start candidate pair = allowed := by
    rw [Bool.eq_iff_iff, hallowed, isNew_iff hitem]
  cases allowed with
  | false =>
    refine ⟨[], ?_, hquiet.extends _, hdecides, hremembers, hmarked⟩
    rw [List.filter_cons_of_neg (by simp [hnew])]
    rfl
  | true =>
    let proposal : Proposal := ⟨candidate, handler, pair⟩
    let offer : Offer := ⟨proposal, proposal.answer progress.engine.scene decided.engine.events⟩
    have htold : decided.engine.offer pass.instanceId handler pair.source pair.target
        candidate.plan candidate.rule.params (context progress.engine.scene candidate) =
        (decided.engine.tell (offer.event pass.instanceId progress.engine.scene),
          offer.refusal.isNone) := by
      simp only [offer, proposal, Proposal.answer, ← hquiet.scene]
      rfl
    have htell := hquiet.extends pass.instanceId |>.trans (extends_tell decided.engine
      pass.instanceId (offer.event pass.instanceId progress.engine.scene))
    rw [if_pos rfl, show (⟨candidate.id, candidate.effect.effectId, candidate.effect.effect⟩ :
      EffectPlan) = candidate.plan from rfl, htold]
    refine ⟨[offer], ?_, htell,
      ⟨hdecides.decided, hdecides.marked, hdecides.undecided, hdecides.remembers⟩, hremembers,
      hmarked⟩
    rw [List.filter_cons_of_pos hnew]
    rfl

/-- A pass with a scope asks for the pairs whose items were not kept as wired, and keeps these. -/
theorem foldl_wirePair_scoped (hscope : pass.scope = some scope) {start : Engine}
    (howner : listOwner candidate < progress.engine.controllers.length)
    (h : Decides candidate start progress) {pairs : List NodePair}
    (hitems : ∀ pair ∈ pairs, ∃ item, pair.item = some item) :
    let wired := pairs.foldl (pass.wirePair handler candidate
      (context progress.engine.scene candidate)) progress
    ∃ offers : List Offer, offers.map Offer.toProposal =
        (pairs.filter (isNew start candidate)).map (⟨candidate, handler, ·⟩) ∧
      Extends pass.instanceId (offers.map (Offer.event pass.instanceId progress.engine.scene)) []
        progress.engine wired.engine ∧
      progress.engine.Remembers wired.engine ∧
      ∀ pair ∈ pairs, ∀ item ∈ pair.item, (candidate.memoKey, item) ∈
        (wired.engine.controller (listOwner candidate)).wiredItems := by
  induction pairs generalizing progress with
  | nil =>
    exact ⟨[], rfl, (Quiet.refl _).extends _, .refl _, fun _ hmem => absurd hmem List.not_mem_nil⟩
  | cons pair rest ih =>
    obtain ⟨⟨item, hitem⟩, hrest⟩ := List.forall_mem_cons.mp hitems
    obtain ⟨first, hfirst, hextends, hdecides, hremembers, hmarked⟩ :=
      @wirePair_scoped _ _ _ _ handler hscope start howner h _ _ hitem
    rw [List.foldl_cons]
    generalize pass.wirePair handler candidate (context progress.engine.scene candidate) progress
      pair = middle at hextends hdecides hremembers hmarked ⊢
    have howner' : listOwner candidate < middle.engine.controllers.length := by
      rwa [length_controllers_eq hextends.scene]
    obtain ⟨offers, hoffers, hextends', hkept, hlater⟩ := ih howner' hdecides hrest
    rw [hextends.scene] at hextends' hkept hlater
    refine ⟨first ++ offers, ?_, ?_, hremembers.trans hkept,
      List.forall_mem_cons.mpr ⟨fun other hother => ?_, hlater⟩⟩
    · rw [List.map_append, hfirst, hoffers, ← List.map_append, ← List.filter_append,
        List.singleton_append]
    · rw [List.map_append]
      exact hextends.trans hextends'
    · obtain rfl := Option.some.inj (hitem.symm.trans hother)
      exact hkept _ _ hmarked

/-- A pass with a scope wires a candidate on the pairs whose items were not kept as wired, and keeps
these. -/
theorem applyCandidate_scoped (hscope : pass.scope = some scope)
    (hin : pass.inScope candidate.rule candidate.effect candidate.source candidate.target = true)
    (howner : listOwner candidate < engine.controllers.length) :
    ∃ offers : List Offer, offers.map Offer.toProposal =
        (pass.proposals engine.scene candidate).filter
          (fun proposal => isNew engine candidate proposal.pair) ∧
      Extends pass.instanceId (offers.map (Offer.event pass.instanceId engine.scene)) [] engine
        (pass.applyCandidate engine candidate) ∧
      engine.Remembers (pass.applyCandidate engine candidate) ∧
      ∀ offer ∈ offers, ∀ item ∈ offer.pair.item, (candidate.memoKey, item) ∈
        ((pass.applyCandidate engine candidate).controller (listOwner candidate)).wiredItems := by
  have hhandlers : engine.scene.handlers = engine.host.handlers := rfl
  rw [proposals, applyCandidate, hhandlers]
  cases engine.host.handlers.get? candidate.rule.trigger with
  | none =>
    exact ⟨[], rfl, (Quiet.refl _).extends _, .refl _, fun _ hmem => absurd hmem List.not_mem_nil⟩
  | some handler =>
    have hitems : ∀ pair ∈ pass.pairsIn engine.scene candidate, ∃ item, pair.item = some item :=
      fun pair hpair => (exists_throughItem hscope hin hpair).imp fun _ h => h.2.1
    let blank : Progress := ⟨engine, [], false⟩
    have howner' : listOwner candidate < blank.engine.controllers.length := howner
    obtain ⟨offers, hoffers, hextends, hremembers, hmarked⟩ :=
      @foldl_wirePair_scoped _ _ _ _ handler hscope engine howner'
        (decides_start candidate engine) _ hitems
    have hcontext : handlerContext engine candidate.id (some candidate.target) candidate.gate
        candidate.rule = context engine.scene candidate := rfl
    simp only [pairs_scoped hscope, hcontext, hscope, Option.isNone_some, Bool.false_and,
      Bool.false_eq_true, if_false]
    refine ⟨offers, ?_, hextends, hremembers, fun offer hoffer => hmarked _ ?_⟩
    · rw [hoffers, List.filter_map]
      rfl
    · have hmem := List.mem_map_of_mem (f := Offer.toProposal) hoffer
      rw [hoffers] at hmem
      obtain ⟨pair, hpair, heq⟩ := List.mem_map.mp hmem
      rw [← heq]
      exact (List.mem_filter.mp hpair).1

/-- Pairs of which both nodes can be told come once, if every node comes once. -/
theorem nodup_flatMap_pairs {firsts seconds : List NodeId} {pairOf : NodeId → NodeId → NodePair}
    (hfirsts : firsts.Nodup) (hseconds : seconds.Nodup)
    (hinj : ∀ a b a' b', pairOf a b = pairOf a' b' → a = a' ∧ b = b') :
    (firsts.flatMap fun a => seconds.map (pairOf a)).Nodup := by
  have hsecond (a : NodeId) : Function.Injective (pairOf a) :=
    fun b b' heq => (hinj a b a b' heq).2
  refine List.nodup_flatMap.mpr ⟨fun a _ => hseconds.map (hsecond a), ?_⟩
  refine hfirsts.imp fun hne => List.disjoint_left.mpr fun pair hpair hpair' => ?_
  obtain ⟨b, -, rfl⟩ := List.mem_map.mp hpair
  obtain ⟨b', -, heq⟩ := List.mem_map.mp hpair'
  exact hne (hinj _ _ _ _ heq).1.symm

/-- Pairs that go through different items are different. -/
theorem nodup_flatMap_items {items : List NodeId} {pairsOf : NodeId → List NodePair}
    (hitems : items.Nodup) (hnodup : ∀ item ∈ items, (pairsOf item).Nodup)
    (hitem : ∀ item, ∀ pair ∈ pairsOf item, pair.item = some item) :
    (items.flatMap pairsOf).Nodup := by
  refine List.nodup_flatMap.mpr ⟨hnodup, hitems.imp fun hne => ?_⟩
  refine List.disjoint_left.mpr fun pair hpair hpair' => hne ?_
  exact Option.some.inj ((hitem _ pair hpair).symm.trans (hitem _ pair hpair'))

/-- In a scope without repetitions, no pair comes twice. -/
theorem nodup_pairsIn_scoped (hscope : pass.scope = some scope) {scene : Scene}
    (hdom : scene.dom.FindsOnce) (hnodes : scope.nodes.Nodup) :
    (pass.pairsIn scene candidate).Nodup := by
  have hselect := hdom.nodup_select
  have hitems (owner : ControllerId) (container : String) (itemSelector : Option String) :
      (pass.itemsIn scene owner container itemSelector).Nodup := by
    rw [itemsIn, hscope]
    dsimp only
    split
    · exact hnodes
    · exact List.nodup_nil
  simp only [pairsIn]
  split
  next =>
    split
    next =>
      refine nodup_flatMap_items (hitems ..) (fun item _ => ?_) fun item pair hpair => ?_
      · exact nodup_flatMap_pairs (hselect ..) (hselect ..) fun _ _ _ _ heq => by simpa using heq
      · obtain ⟨source, -, hpair⟩ := List.mem_flatMap.mp hpair
        obtain ⟨target, -, rfl⟩ := List.mem_map.mp hpair
        rfl
    next =>
      refine nodup_flatMap_items (hitems ..) (fun item _ => ?_) fun item pair hpair => ?_
      · exact nodup_flatMap_pairs (hselect ..) (hselect ..) fun _ _ _ _ heq => by
          simpa [and_comm] using heq
      · obtain ⟨target, -, hpair⟩ := List.mem_flatMap.mp hpair
        obtain ⟨source, -, rfl⟩ := List.mem_map.mp hpair
        rfl
    next =>
      exact nodup_flatMap_pairs (hselect ..) (hselect ..) fun _ _ _ _ heq => by simpa using heq
  next => exact List.nodup_nil

/-- A pair of a candidate with a warrant goes through its item. -/
theorem Warranted.through {warrant : Warrant} {scene : Scene} {pair : NodePair} {item : NodeId}
    (h : Warranted occasion scene pass candidate warrant)
    (hpair : pair ∈ pass.pairsIn scene candidate) (hitem : pair.item = some item) :
    warrant.listOwner = listOwner candidate ∧
      warrant.Through scene.dom item pair.source pair.target := by
  rw [h.candidate] at hpair ⊢
  refine ⟨rfl, ?_⟩
  simp only [pairsIn] at hpair
  split at hpair
  next =>
    split at hpair
    next hrule =>
      obtain ⟨other, -, hpair⟩ := List.mem_flatMap.mp hpair
      obtain ⟨source, hsource, hpair⟩ := List.mem_flatMap.mp hpair
      obtain ⟨target, -, rfl⟩ := List.mem_map.mp hpair
      obtain rfl := Option.some.inj hitem
      have hbound := Rule.isListBound_of_some hrule
      refine ⟨.inl hbound, ?_⟩
      rw [if_pos hbound, Warrant.reach, if_pos hbound]
      exact hsource
    next hrule heffect =>
      obtain ⟨other, -, hpair⟩ := List.mem_flatMap.mp hpair
      obtain ⟨target, htarget, hpair⟩ := List.mem_flatMap.mp hpair
      obtain ⟨source, -, rfl⟩ := List.mem_map.mp hpair
      obtain rfl := Option.some.inj hitem
      have hunbound := Rule.not_isListBound_of_none hrule
      refine ⟨.inr (by rw [heffect]; rfl), ?_⟩
      rw [if_neg hunbound, Warrant.reach, if_neg hunbound]
      exact htarget
    next =>
      obtain ⟨source, -, hpair⟩ := List.mem_flatMap.mp hpair
      obtain ⟨target, -, rfl⟩ := List.mem_map.mp hpair
      cases hitem
  next => exact absurd hpair List.not_mem_nil

end Pass

/-! ### Courses -/

/-- A course of a change of a list: what it tells is charged, and spares what is kept as wired if
the document finds every node once and no node is added twice. -/
structure Course (occasion : Occasion) (added removed : List NodeId) (charges : List Charge)
    (before after : Engine) : Prop where
  scene : after.scene = before.scene
  log : after.log = before.log ++ charges.map Charge.entry
  delivers : ∀ charge ∈ charges, Delivers occasion added removed before.scene charge
  sparing : before.host.dom.FindsOnce → added.Nodup → Sparing charges before after

namespace Course

variable {added removed : List NodeId} {charges charges' : List Charge}

theorem of_quiet (h : Quiet before after) (hcontrollers : after.controllers = before.controllers) :
    Course occasion added removed [] before after where
  scene := h.scene
  log := by rw [h.log, List.map_nil, List.append_nil]
  delivers _ hmem := absurd hmem List.not_mem_nil
  sparing _ _ := .silent h.log (congrArg Scene.handlers h.scene) hcontrollers

theorem trans (first : Course occasion added removed charges before middle)
    (second : Course occasion added removed charges' middle after) :
    Course occasion added removed (charges ++ charges') before after where
  scene := second.scene.trans first.scene
  log := by rw [second.log, first.log, List.map_append, List.append_assoc]
  delivers := List.forall_mem_append.mpr ⟨first.delivers, first.scene ▸ second.delivers⟩
  sparing hdom hadded := by
    have hdom' : middle.host.dom = before.host.dom := congrArg Scene.dom first.scene
    exact (first.sparing hdom hadded).trans (second.sparing (hdom' ▸ hdom) hadded)

end Course

theorem course_foldl {added removed : List NodeId} {α : Type} (f : Engine → α → Engine) (l : List α)
    (h : ∀ state, ∀ a ∈ l, state.scene = engine.scene →
      ∃ charges, Course occasion added removed charges state (f state a)) :
    ∃ charges, Course occasion added removed charges engine (l.foldl f engine) := by
  refine List.foldlRecOn (motive := fun state => ∃ charges,
    Course occasion added removed charges engine state) l f
    ⟨[], .of_quiet (.refl engine) rfl⟩ fun state ⟨charges, hstate⟩ a hmem => ?_
  obtain ⟨charges', hstep⟩ := h state a hmem hstate.scene
  exact ⟨charges ++ charges', hstate.trans hstep⟩

section Wiring

attribute [ext] NodePair Proposal

variable {added removed : List NodeId} {pass : Pass} {scope : ListScope} {candidate : Candidate}
  {warrant : Warrant}

theorem Pass.Warranted.listOwner_lt
    (h : Pass.Warranted occasion engine.scene pass candidate warrant) :
    Pass.listOwner candidate < engine.controllers.length := by
  have hlt {c : ControllerId} (hc : (engine.scene.controller c).connected = true) :
      c < engine.controllers.length := by
    rw [scene_controller] at hc
    exact lt_of_connected hc
  rw [h.candidate, Pass.listOwner]
  split
  · exact hlt h.sourceConnected
  · exact hlt h.targetConnected

/-- What an offer of a candidate is charged to. -/
def Offer.charge (i : InstanceId) (scene : Scene) (offer : Offer) : Charge :=
  ⟨.told (offer.event i scene) scene, offer.pair.item.map (⟨Pass.listOwner offer.candidate, ·⟩)⟩

theorem Offer.bills_charge {i : InstanceId} {scene : Scene} {offer : Offer} {account : Account}
    {wire : Wire} : (offer.charge i scene).bills account wire = true ↔
      account.owner = Pass.listOwner offer.candidate ∧ offer.pair.item = some account.item ∧
        wire = offer.toProposal.wire := by
  obtain ⟨owner, item⟩ := account
  rw [charge, Charge.bills, Bool.and_eq_true, decide_eq_true_eq, Option.map_eq_some_iff]
  simp only [Account.mk.injEq]
  have hcalls : (Entry.told (offer.event i scene) scene).callsFor wire = true ↔
      wire = offer.toProposal.wire := decide_eq_true_iff
  rw [hcalls]
  grind

/-- Offers of a candidate for new items, of which no two are for one pair, spare what is kept as
wired. -/
theorem sparing_offers {i : InstanceId} {offers : List Offer}
    (hlog : after.log = engine.log ++
      (offers.map (Offer.charge i engine.scene)).map Charge.entry)
    (hhandlers : after.host.handlers = engine.host.handlers)
    (hoffers : ∀ offer ∈ offers, offer.candidate = candidate ∧
      engine.scene.handlers.get? candidate.rule.trigger = some offer.handler ∧
      Pass.isNew engine candidate offer.pair = true)
    (hnodup : (offers.map Offer.toProposal).Nodup) (hremembers : engine.Remembers after)
    (hmarked : ∀ offer ∈ offers, ∀ item ∈ offer.pair.item, (candidate.memoKey, item) ∈
      (after.controller (Pass.listOwner candidate)).wiredItems) :
    Sparing (offers.map (Offer.charge i engine.scene)) engine after := by
  refine .of_kept hlog hhandlers (List.forall_mem_map.mpr fun offer hoffer => ?_)
    (List.forall_mem_map.mpr fun _ _ _ => rfl)
    (List.forall_mem_map.mpr fun offer hoffer account wire hbills => ?_) ?_
    (fun account wire hkeeps => keeps_iff.mpr (hremembers _ _ (keeps_iff.mp hkeeps)))
    (List.forall_mem_map.mpr fun offer hoffer account wire hbills => ?_)
  · exact HandlerTable.exists_mem_all (Option.isSome_of_eq_some (hoffers offer hoffer).2.1)
  · obtain ⟨howner, hitem, rfl⟩ := Offer.bills_charge.mp hbills
    obtain ⟨hcandidate, -, hnew⟩ := hoffers offer hoffer
    rw [Pass.isNew_iff hitem] at hnew
    rw [← Bool.not_eq_true, keeps_iff, howner, hcandidate]
    exact hcandidate ▸ hnew
  · refine List.pairwise_map.mpr ((List.pairwise_map.mp hnodup).imp_of_mem ?_)
    intro offer offer' hoffer hoffer' hne account wire hbills hbills'
    obtain ⟨-, hitem, rfl⟩ := Offer.bills_charge.mp hbills
    obtain ⟨-, hitem', hwire⟩ := Offer.bills_charge.mp hbills'
    obtain ⟨hcandidate, hhandler, -⟩ := hoffers offer hoffer
    obtain ⟨hcandidate', hhandler', -⟩ := hoffers offer' hoffer'
    refine hne (Proposal.ext (hcandidate.trans hcandidate'.symm)
      (Option.some.inj (hhandler.symm.trans hhandler')) ?_)
    exact NodePair.ext (congrArg Wire.source hwire) (congrArg Wire.target hwire)
      (hitem.trans hitem'.symm)
  · obtain ⟨howner, hitem, rfl⟩ := Offer.bills_charge.mp hbills
    obtain ⟨hcandidate, -, -⟩ := hoffers offer hoffer
    have hmem := hmarked offer hoffer account.item hitem
    rw [keeps_iff, howner, hcandidate]
    exact hcandidate ▸ hmem

/-- Wiring a candidate in a scope charges what is asked for to the items. -/
theorem course_applyCandidate (hscope : pass.scope = some scope)
    (hnodes : scope.nodes.Sublist added)
    (hin : pass.inScope candidate.rule candidate.effect candidate.source candidate.target = true)
    (hwarrant : Pass.Warranted occasion engine.scene pass candidate warrant) :
    ∃ charges, Course occasion added removed charges engine
      (pass.applyCandidate engine candidate) := by
  obtain ⟨offers, hoffers, hextends, hremembers, hmarked⟩ :=
    Pass.applyCandidate_scoped hscope hin hwarrant.listOwner_lt
  have hproposal : ∀ offer ∈ offers, offer.candidate = candidate ∧
      engine.scene.handlers.get? candidate.rule.trigger = some offer.handler ∧
      offer.pair ∈ pass.pairsIn engine.scene candidate ∧
      Pass.isNew engine candidate offer.pair = true := by
    intro offer hoffer
    have hmem := List.mem_map_of_mem (f := Offer.toProposal) hoffer
    rw [hoffers, List.mem_filter] at hmem
    obtain ⟨hcandidate, hhandler, hpair⟩ := Pass.mem_proposals.mp hmem.1
    exact ⟨hcandidate, hhandler, hpair, hmem.2⟩
  have hlog : (pass.applyCandidate engine candidate).log = engine.log ++
      (offers.map (Offer.charge pass.instanceId engine.scene)).map Charge.entry := by
    rw [hextends.log, List.map_map, List.map_map]
    rfl
  refine ⟨offers.map (Offer.charge pass.instanceId engine.scene), hextends.scene, hlog,
    List.forall_mem_map.mpr fun offer hoffer => ?_, fun hdom hadded => ?_⟩
  · obtain ⟨hcandidate, hhandler, hpair, -⟩ := hproposal offer hoffer
    obtain ⟨item, hitem, heq, -⟩ := Pass.exists_throughItem hscope hin hpair
    obtain ⟨howner, hthrough⟩ := hwarrant.through hpair heq
    rw [Offer.charge, heq]
    refine ⟨rfl, hnodes.subset hitem, warrant, ?_, hcandidate ▸ howner, hthrough⟩
    have hsame : offer.toProposal ∈ pass.proposals engine.scene offer.candidate :=
      Pass.mem_proposals.mpr ⟨rfl, hcandidate ▸ hhandler, hcandidate ▸ hpair⟩
    exact (hcandidate ▸ hwarrant : Pass.Warranted occasion engine.scene pass offer.candidate
      warrant).justifies hsame
  · have hnodup : (offers.map Offer.toProposal).Nodup := by
      rw [hoffers]
      refine List.Nodup.filter _ ?_
      rw [Pass.proposals]
      split
      · exact List.nodup_nil
      · exact (Pass.nodup_pairsIn_scoped hscope hdom (hadded.sublist hnodes)).map
          fun _ _ heq => congrArg Proposal.pair heq
    refine sparing_offers hlog (congrArg Scene.handlers hextends.scene) (fun offer hoffer => ?_)
      hnodup hremembers hmarked
    obtain ⟨hcandidate, hhandler, -, hnew⟩ := hproposal offer hoffer
    exact ⟨hcandidate, hhandler, hnew⟩

end Wiring

/-! ### Deliveries -/

section Deliveries

variable {added removed : List NodeId} {c : ControllerId} {key : String}

/-- The removed nodes are torn down before they are kept as wired no more. -/
theorem course_unlisted (engine : Engine) (c : ControllerId) (added removed : List NodeId) :
    Course occasion added removed ((removals engine.scene removed).map (⟨·, none⟩)) engine
      (Site.unlisted engine c removed) := by
  have hunbilled : ∀ charge ∈ (removals engine.scene removed).map (Charge.mk · none),
      charge.account = none := List.forall_mem_map.mpr fun _ _ => rfl
  have hlog : (Site.unlisted engine c removed).log = engine.log ++
      ((removals engine.scene removed).map (Charge.mk · none)).map Charge.entry := by
    rw [List.map_map]
    exact (log_teardown engine removed).trans (congrArg _ (List.map_id _).symm)
  have hnever {charge : Charge} (hmem : charge ∈ (removals engine.scene removed).map (⟨·, none⟩))
      {account : Account} {wire : Wire} : ¬charge.bills account wire = true := by
    rw [Charge.bills, hunbilled charge hmem]
    exact Bool.false_ne_true
  refine ⟨Site.scene_unlisted .., hlog, List.forall_mem_map.mpr fun entry hmem => ?_, fun _ _ =>
    ⟨hlog, congrArg Scene.handlers (Site.scene_unlisted ..), fun charge _ _ hmem hbills =>
      absurd hbills (hnever hmem), fun front charge back hsplit _ _ hbills =>
      absurd hbills (hnever (by simp [hsplit])), fun account wire hserved hheld => ?_⟩⟩
  · obtain ⟨handler, hhandler, node, hnode, rfl⟩ := mem_removals_iff.mp hmem
    exact ⟨rfl, hhandler, hnode⟩
  · obtain ⟨handler, hhandler⟩ := hserved
    obtain ⟨hkeeps, huntorn⟩ := held_of_unbilled hunbilled hheld
    have hitem : account.item ∉ removed := fun hmem => by
      have hremove := List.forall_mem_map.mp huntorn _
        (mem_removals_iff.mpr ⟨handler, hhandler, account.item, hmem, rfl⟩)
      simp [Entry.removes] at hremove
    have htorn : (engine.teardown removed).controllers = engine.controllers := by
      rw [teardown, foldl_tell]
      rfl
    have hsame (d : ControllerId) :
        (engine.teardown removed).controller d = engine.controller d := by
      rw [controller, controller, htorn]
    rw [keeps_iff] at hkeeps ⊢
    rw [Site.unlisted, controller_modifyController_eq]
    split
    · rw [Controller.forgetItems, List.mem_filter, hsame]
      exact ⟨hkeeps, decide_eq_true hitem⟩
    · rw [hsame]
      exact hkeeps

variable {pass : Pass} {scope : ListScope}

theorem course_applySelected (hscope : pass.scope = some scope) (hnodes : scope.nodes.Sublist added)
    {heard : Engine} (hquiet : Quiet engine heard)
    (hcontrollers : heard.controllers = engine.controllers) {selected : List Candidate}
    (hselected : ∀ candidate ∈ selected, pass.inScope candidate.rule candidate.effect
        candidate.source candidate.target = true ∧
      ∃ warrant, Pass.Warranted occasion engine.scene pass candidate warrant) :
    ∃ charges,
      Course occasion added removed charges engine (pass.applySelected heard selected) := by
  have happly : ∀ state, ∀ candidate ∈ selected.reverse, state.scene = heard.scene →
      ∃ charges,
        Course occasion added removed charges state (pass.applyCandidate state candidate) := by
    intro state candidate hmem hscene
    obtain ⟨hin, warrant, hwarrant⟩ := hselected candidate (List.mem_reverse.mp hmem)
    rw [← hquiet.scene, ← hscene] at hwarrant
    exact course_applyCandidate hscope hnodes hin hwarrant
  obtain ⟨charges, hcourse⟩ := course_foldl pass.applyCandidate selected.reverse happly
  exact ⟨[] ++ charges, (Course.of_quiet hquiet hcontrollers).trans hcourse⟩

/-- Resolving a key in a scope, from the source and from the target. -/
theorem course_resolveScoped (hscope : pass.scope = some scope)
    (hnodes : scope.nodes.Sublist added) (hcompiled : engine.Compiled)
    (hentitled : Entitled occasion engine.scene pass c key) :
    ∃ charges, Course occasion added removed charges engine
      (pass.resolveIncoming (pass.resolveOutgoing engine c key) c key) := by
  have hout : ∃ charges, Course occasion added removed charges engine
      (pass.resolveOutgoing engine c key) := by
    obtain ⟨heard, hquiet, hcontrollers, heq⟩ := Pass.exists_heard_outgoing hscope engine c key
    rw [heq]
    exact course_applySelected hscope hnodes hquiet hcontrollers fun candidate hmem =>
      ⟨Pass.inScope_of_mem_outgoingOf hmem,
        Pass.exists_warranted_of_mem_outgoingOf hcompiled hentitled hmem⟩
  obtain ⟨charges, hout⟩ := hout
  generalize pass.resolveOutgoing engine c key = resolved at hout ⊢
  have hcompiled' : resolved.Compiled := compiled_congr hout.scene hcompiled
  rw [← hout.scene] at hentitled
  obtain ⟨heard, hquiet, hcontrollers, heq⟩ := pass.exists_heard_incoming resolved c key
  rw [heq]
  have hin : ∃ charges, Course occasion added removed charges resolved
      (pass.applySelected heard (pass.incomingOf resolved c key)) := by
    exact course_applySelected hscope hnodes hquiet hcontrollers fun candidate hmem =>
      ⟨Pass.inScope_of_mem_incomingOf hmem,
        Pass.exists_warranted_of_mem_incomingOf hcompiled' hentitled hmem⟩
  obtain ⟨charges', hin⟩ := hin
  exact ⟨charges ++ charges', hout.trans hin⟩

theorem course_addListItems {container : String} {nodes : List NodeId} (htidy : engine.Tidy)
    (hcompiled : engine.Compiled) (hconnected : (engine.controller c).connected = true)
    (hkeyed : (engine.controller c).key = some key) (hnodes : nodes.Sublist added)
    (hreports : ∃ itemSelector, occasion.reports itemSelector ⟨c, container, nodes⟩) :
    ∃ charges, Course occasion added removed charges engine
      (engine.addListItems c key container nodes) := by
  refine course_foldl _ _ fun state i hmem hscene => ?_
  have hentitled : Entitled occasion state.scene ⟨i, some ⟨c, container, nodes⟩⟩ c key :=
    hscene ▸ entitled_of_mem_instancesFor htidy hconnected hkeyed hmem fun scope hscope =>
      Option.some.inj hscope ▸ ⟨hreports, rfl⟩
  exact course_resolveScoped rfl hnodes (compiled_congr hscene hcompiled) hentitled

/-- An observer that is connected tears the removed nodes down first, whatever it does next. -/
theorem course_onChildList {observation : Observation} (htidy : engine.Tidy)
    (hcompiled : engine.Compiled) (hreports : occasion.reports observation.itemSelector
      ⟨observation.owner, observation.containerSelector, added.filter fun node =>
        observation.itemSelector.all fun selector =>
          engine.host.dom.matchesSelector node selector⟩) :
    ∃ charges, Course occasion added removed charges engine
        (onChildList observation added removed engine) ∧
      (engine.running = true → (engine.controller observation.owner).connected = true →
        (engine.controller observation.owner).key.isSome = true →
          (removals engine.scene removed).map (Charge.mk · none) ⊆ charges) := by
  refine onChildList_ind (P := fun after => ∃ charges, Course occasion added removed charges engine
    after ∧ (engine.running = true → (engine.controller observation.owner).connected = true →
      (engine.controller observation.owner).key.isSome = true →
        (removals engine.scene removed).map (Charge.mk · none) ⊆ charges)) ?_ ?_ ?_
  · exact fun hoff => ⟨[], .of_quiet (.refl engine) rfl, fun hrunning hconnected hkeyed =>
      absurd ⟨hrunning, hconnected, hkeyed⟩ hoff⟩
  · exact fun _ => ⟨_, course_unlisted engine observation.owner added removed,
      fun _ _ _ => List.Subset.refl _⟩
  · rintro released key hscene hconnected hkeyed ⟨charges, hcourse, hremovals⟩
    have htidy' : released.Tidy := (tidy_congr (congrArg Scene.live hscene)
      (congrArg Scene.instances hscene)).mpr htidy
    obtain ⟨others, hadded⟩ := course_addListItems htidy' (compiled_congr hscene hcompiled)
      hconnected hkeyed List.filter_sublist ⟨_, hreports⟩
    exact ⟨_, hcourse.trans hadded, fun hrunning hon hkey =>
      List.subset_append_of_subset_left _ (hremovals hrunning hon hkey)⟩

/-- Somebody who is connected under a key observes a container. -/
def IsObserved (engine : Engine) (container : NodeId) : Prop :=
  engine.running = true ∧ ∃ entry ∈ engine.host.observations.entries,
    entry.2.container = container ∧ (engine.controller entry.2.owner).connected = true ∧
      (engine.controller entry.2.owner).key.isSome = true

/-- A change of the children of a container tears the removed nodes down, if somebody observes the
container, and asks for wires through added nodes. If the document finds every node once and no node
is added twice, it spares what is kept as wired. -/
theorem course_childListChanged (htidy : engine.Tidy) (hcompiled : engine.Compiled)
    (container : NodeId) (added removed : List NodeId) :
    ∃ charges, Course (engine.occasion (.childListChanged container added removed)) added removed
        charges engine (engine.childListChanged container added removed).1 ∧
      (engine.IsObserved container →
        (removals engine.scene removed).map (Charge.mk · none) ⊆ charges) := by
  let occasion := engine.occasion (.childListChanged container added removed)
  let observers := engine.host.observations.snapshot fun observation =>
    observation.container = container
  let notify (state : Engine) (entry : Token × Observation) : Engine :=
    onChildList entry.2 added removed state
  have hstep (state : Engine) (entry : Token × Observation) (hentry : entry ∈ observers)
      (hscene : state.scene = engine.scene) :
      ∃ charges, Course occasion added removed charges state (notify state entry) ∧
        (state.running = true → (state.controller entry.2.owner).connected = true →
          (state.controller entry.2.owner).key.isSome = true →
            (removals state.scene removed).map (Charge.mk · none) ⊆ charges) := by
    obtain ⟨hmem, hcontainer⟩ := List.mem_filter.mp hentry
    have hdom : state.host.dom = engine.host.dom := congrArg Scene.dom hscene
    refine course_onChildList ((tidy_congr (congrArg Scene.live hscene)
      (congrArg Scene.instances hscene)).mpr htidy) (compiled_congr hscene hcompiled) ?_
    exact ⟨entry.1, entry.2, hmem, of_decide_eq_true hcontainer, rfl, rfl, rfl, by rw [hdom]⟩
  have hcourse (state : Engine) (hscene : state.scene = engine.scene)
      (entries : List (Token × Observation)) (hentries : entries ⊆ observers) :
      ∃ charges, Course occasion added removed charges state (entries.foldl notify state) :=
    course_foldl notify entries fun next entry hentry hnext =>
      (hstep next entry (hentries hentry) (hnext.trans hscene)).imp fun _ => And.left
  change ∃ charges, Course occasion added removed charges engine (observers.foldl notify engine) ∧ _
  by_cases hobserved : engine.IsObserved container
  · obtain ⟨hrunning, entry, hmem, hcontainer, hconnected, hkeyed⟩ := hobserved
    obtain ⟨front, back, hsplit⟩ : ∃ front back, observers = front ++ entry :: back :=
      List.append_of_mem (List.mem_filter.mpr ⟨hmem, decide_eq_true hcontainer⟩)
    obtain ⟨charges, hfront⟩ := hcourse engine rfl front fun _ h => by simp [hsplit, h]
    obtain ⟨charges', hentry, hremovals⟩ := hstep _ entry (by simp [hsplit]) hfront.scene
    obtain ⟨charges'', hback⟩ := hcourse _ (hentry.scene.trans hfront.scene) back
      fun _ h => by simp [hsplit, h]
    have hface := face_controller_eq hfront.scene entry.2.owner
    refine ⟨charges ++ (charges' ++ charges''), ?_, fun _ => ?_⟩
    · rw [hsplit, List.foldl_append, List.foldl_cons]
      exact hfront.trans (hentry.trans hback)
    · rw [← hfront.scene]
      refine List.Subset.trans (hremovals ?_ ?_ ?_) (List.subset_append_of_subset_right _
        (List.subset_append_left ..))
      · exact (congrArg Scene.running hfront.scene).trans hrunning
      · exact (congrArg Controller.Face.connected hface).trans hconnected
      · exact (congrArg Option.isSome (congrArg Controller.Face.key hface)).trans hkeyed
  · obtain ⟨charges, hcourse⟩ := hcourse engine rfl observers (List.Subset.refl _)
    exact ⟨charges, hcourse, fun h => absurd h hobserved⟩

end Deliveries

end InteractionBinding.Engine
