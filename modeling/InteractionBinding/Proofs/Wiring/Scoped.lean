import InteractionBinding.Proofs.Wiring.Accepting
/-!
# Passes with a scope

A pass with a scope leaves out the items that are kept as wired for an id. Where none of its nodes
is, it offers all pairs of what it selects (`Pass.gains_resolveOutgoing`,
`Pass.gains_resolveIncoming`).

It selects as a full pass does that finds nothing applied, restricted to the rules bound to its
container (`Pass.mem_outgoingOf_scoped`, `Pass.mem_incomingOf_scoped`), and pairs them through its
nodes only (`Pass.mem_pairsIn_scoped`).
-/

namespace InteractionBinding.Engine

variable {engine before middle after : Engine} {c : ControllerId} {text : String}
  {texts texts' : List String} {gained gained' : List Wire}

/-- One engine comes from another by wiring: the gained wires are live beside those of before, and
items have been kept as wired at a controller for some texts only. -/
structure Gains (c : ControllerId) (texts : List String) (gained : List Wire)
    (before after : Engine) : Prop where
  scene : after.scene = before.scene
  wires (wire : Wire) : wire ∈ after.wires ↔ wire ∈ before.wires ∨ wire ∈ gained
  items : ∀ entry ∈ (after.controller c).wiredItems,
    entry ∈ (before.controller c).wiredItems ∨ entry.1 ∈ texts

/-- None of some items is kept as wired for a text at a controller. -/
def Unwired (engine : Engine) (c : ControllerId) (text : String) (items : List NodeId) : Prop :=
  ∀ item ∈ items, (text, item) ∉ (engine.controller c).wiredItems

namespace Gains

theorem refl (c : ControllerId) (engine : Engine) : Gains c [] [] engine engine :=
  ⟨rfl, fun _ => by simp, fun _ h => .inl h⟩

theorem trans (first : Gains c texts gained before middle)
    (second : Gains c texts' gained' middle after) :
    Gains c (texts ++ texts') (gained ++ gained') before after := by
  refine ⟨second.scene.trans first.scene, fun wire => ?_, fun entry hentry => ?_⟩
  · rw [second.wires, first.wires, List.mem_append, or_assoc]
  · rw [List.mem_append]
    rcases second.items entry hentry with hmiddle | htext
    · exact (first.items entry hmiddle).imp_right .inl
    · exact .inr (.inr htext)

theorem congr (h : Gains c texts gained before after) (htexts : texts ⊆ texts')
    (hgained : ∀ wire, wire ∈ gained ↔ wire ∈ gained') : Gains c texts' gained' before after :=
  ⟨h.scene, fun wire => by rw [h.wires, hgained],
    fun entry hentry => (h.items entry hentry).imp_right (@htexts _)⟩

theorem of_quiet (h : Quiet before after) (hcontrollers : after.controllers = before.controllers) :
    Gains c [] [] before after where
  scene := h.scene
  wires wire := by simp [h.wires_eq]
  items entry hentry := by
    rw [controller, hcontrollers] at hentry
    exact .inl hentry

theorem unwired {items : List NodeId} (h : Gains c texts gained before after)
    (hbefore : before.Unwired c text items) (htext : text ∉ texts) : after.Unwired c text items :=
  fun item hitem hentry => (h.items _ hentry).elim (hbefore item hitem) htext

end Gains

/-- An accepted plan becomes live. -/
theorem gains_offer (haccepts : engine.scene.Accepts) (i : InstanceId) (handler : HandlerId)
    (source target : NodeId) (plan : EffectPlan) (params : KeyMap Json) (context : HandlerContext) :
    Gains c [] [⟨source, target, plan.id⟩] engine
      (engine.offer i handler source target plan params context).1 where
  scene := rfl
  wires wire := by
    have hrefusal : (engine.host.handler handler).add engine.events source target plan params
        context = none := haccepts handler ..
    rw [offer, hrefusal, (extends_tell engine i _).wires_eq, List.foldl_cons, List.foldl_nil,
      Event.mem_wire_add, List.mem_singleton]
  items _ hentry := .inl hentry

theorem mem_wiredItems_markItem {item : NodeId} {entry : String × NodeId}
    (h : entry ∈ ((engine.markItem c text item).1.controller c).wiredItems) :
    entry ∈ (engine.controller c).wiredItems ∨ entry = (text, item) := by
  revert h
  refine markItem_ind (P := fun after : Engine => entry ∈ (after.controller c).wiredItems → _)
    (fun _ => .inl) fun h => ?_
  rw [controller_modifyController_eq] at h
  split at h
  next => exact (List.mem_append.mp h).imp_right List.mem_singleton.mp
  next => exact .inl h

namespace Pass

variable {candidate : Candidate} {progress : Progress} {items : List NodeId}

/-! ### Wiring -/

/-- What has been decided so far leaves items free to be wired for a candidate. -/
structure Free (candidate : Candidate) (items : List NodeId) (progress : Progress) : Prop where
  allowed : ∀ entry ∈ progress.decided, entry.2 = true
  unwired : ∀ item ∈ items, (∀ entry ∈ progress.decided, entry.1 ≠ item) →
    (candidate.memoKey, item) ∉ (progress.engine.controller (listOwner candidate)).wiredItems

theorem decideItem_of_free (pass : Pass) (h : Free candidate items progress) {item : Option NodeId}
    (hitem : ∀ node ∈ item, node ∈ items) :
    (pass.decideItem candidate progress item).2 = true ∧
      Free candidate items (pass.decideItem candidate progress item).1 ∧
      Gains (listOwner candidate) [candidate.memoKey] [] progress.engine
        (pass.decideItem candidate progress item).1.engine := by
  have hrefl := (Gains.refl (listOwner candidate) progress.engine).congr
    (List.nil_subset [candidate.memoKey]) fun _ => Iff.rfl
  cases item with
  | none => exact ⟨rfl, h, hrefl⟩
  | some node =>
    simp only [decideItem]
    split
    next entry known allowed hfind =>
      exact ⟨h.allowed _ (List.mem_of_find?_eq_some hfind), h, hrefl⟩
    next hfind =>
      have hundecided : ∀ entry ∈ progress.decided, entry.1 ≠ node := by
        simpa using List.find?_eq_none.mp hfind
      have hfresh := h.unwired node (hitem node rfl) hundecided
      have hmark : (progress.engine.markItem (listOwner candidate) candidate.memoKey node).2 =
          true := by
        rw [markItem, if_neg hfresh]
      refine ⟨by simp [hmark], ⟨?_, fun other hother hdecided hentry => ?_⟩, ?_⟩
      · simpa [hmark] using h.allowed
      · rw [List.forall_mem_cons] at hdecided
        rcases mem_wiredItems_markItem hentry with hold | hnew
        · exact h.unwired other hother hdecided.2 hold
        · exact hdecided.1 (Prod.mk.inj hnew).2.symm
      · refine ⟨scene_markItem .., fun wire => ?_, fun entry hentry => ?_⟩
        · simp [(quiet_markItem ..).wires_eq]
        · refine (mem_wiredItems_markItem hentry).imp_right fun hnew => ?_
          rw [hnew, List.mem_singleton]

theorem wirePair_of_free (pass : Pass) (handler : HandlerId) (context : HandlerContext)
    (haccepts : progress.engine.scene.Accepts) (h : Free candidate items progress)
    {pair : NodePair} (hitem : ∀ node ∈ pair.item, node ∈ items) :
    Free candidate items (pass.wirePair handler candidate context progress pair) ∧
      Gains (listOwner candidate) [candidate.memoKey] [⟨pair.source, pair.target, candidate.id⟩]
        progress.engine (pass.wirePair handler candidate context progress pair).engine := by
  obtain ⟨hallowed, hfree, hgains⟩ := decideItem_of_free pass h hitem
  rw [wirePair]
  generalize pass.decideItem candidate progress pair.item = decision at hallowed hfree hgains ⊢
  obtain ⟨decided, allowed⟩ := decision
  dsimp only at hallowed hfree hgains ⊢
  rw [if_pos hallowed]
  have hoffer := gains_offer (c := listOwner candidate) (hgains.scene ▸ haccepts) pass.instanceId
    handler pair.source pair.target
    ⟨candidate.id, candidate.effect.effectId, candidate.effect.effect⟩ candidate.rule.params context
  exact ⟨⟨hfree.allowed, hfree.unwired⟩, hgains.trans hoffer⟩

theorem foldl_wirePair_of_free (pass : Pass) (handler : HandlerId) (context : HandlerContext)
    (pairs : List NodePair) (haccepts : progress.engine.scene.Accepts)
    (h : Free candidate items progress)
    (hitems : ∀ pair ∈ pairs, ∀ node ∈ pair.item, node ∈ items) :
    Gains (listOwner candidate) [candidate.memoKey]
      (pairs.map fun pair => ⟨pair.source, pair.target, candidate.id⟩) progress.engine
      (pairs.foldl (pass.wirePair handler candidate context) progress).engine := by
  induction pairs generalizing progress with
  | nil => exact (Gains.refl ..).congr (List.nil_subset _) fun _ => Iff.rfl
  | cons pair rest ih =>
    rw [List.forall_mem_cons] at hitems
    obtain ⟨hfree, hgains⟩ := wirePair_of_free pass handler context haccepts h hitems.1
    have hrest := ih (hgains.scene ▸ haccepts) hfree hitems.2
    exact (hgains.trans hrest).congr (by simp) fun _ => Iff.rfl

variable {pass : Pass} {scope : ListScope}

theorem pairs_scoped (hscope : pass.scope = some scope) :
    pass.pairs engine candidate = (engine, pass.pairsIn engine.scene candidate) := by
  have hsame : (pass.pairs engine candidate).1 = engine := by
    simp only [pairs, listItems, hscope]
    split <;> [split <;> rfl; rfl]
  exact Prod.ext hsame (pass.pairs_spec engine candidate).2

/-- What a pass with a scope can wire for a controller: a candidate whose list belongs to the
controller, which is wired through nodes of the scope only. -/
structure Wireable (pass : Pass) (scene : Scene) (scope : ListScope) (candidate : Candidate) :
    Prop where
  owner : listOwner candidate = scope.owner
  items : ∀ pair ∈ pass.pairsIn scene candidate, ∀ node ∈ pair.item, node ∈ scope.nodes

theorem gains_applyCandidate (hscope : pass.scope = some scope) (haccepts : engine.scene.Accepts)
    (hwireable : pass.Wireable engine.scene scope candidate)
    (hunwired : engine.Unwired scope.owner candidate.memoKey scope.nodes) :
    Gains scope.owner [candidate.memoKey]
      ((pass.proposals engine.scene candidate).map Proposal.wire) engine
      (pass.applyCandidate engine candidate) := by
  have hhandlers : engine.scene.handlers = engine.host.handlers := rfl
  rw [proposals, applyCandidate, hhandlers]
  cases engine.host.handlers.get? candidate.rule.trigger with
  | none => exact (Gains.refl ..).congr (List.nil_subset _) fun _ => Iff.rfl
  | some handler =>
    have hfree : Free candidate scope.nodes ⟨engine, [], false⟩ :=
      ⟨by simp, fun item hitem _ => hwireable.owner ▸ hunwired item hitem⟩
    have hgains := foldl_wirePair_of_free pass handler
      (handlerContext engine candidate.id (some candidate.target) candidate.gate candidate.rule)
      (pass.pairsIn engine.scene candidate) haccepts hfree hwireable.items
    rw [hwireable.owner] at hgains
    simp only [pairs_scoped hscope, hscope, Option.isNone_some, Bool.false_and, Bool.false_eq_true,
      if_false, List.map_map]
    exact hgains

/-- Candidates with different texts do not get in each other's way. -/
theorem gains_foldl_applyCandidate (hscope : pass.scope = some scope) {candidates : List Candidate}
    (hkeys : (candidates.map Candidate.memoKey).Nodup) (haccepts : engine.scene.Accepts)
    (hwireable : ∀ candidate ∈ candidates, pass.Wireable engine.scene scope candidate)
    (hunwired : ∀ candidate ∈ candidates,
      engine.Unwired scope.owner candidate.memoKey scope.nodes) :
    Gains scope.owner (candidates.map Candidate.memoKey)
      ((candidates.flatMap (pass.proposals engine.scene)).map Proposal.wire) engine
      (candidates.foldl pass.applyCandidate engine) := by
  induction candidates generalizing engine with
  | nil => exact .refl ..
  | cons candidate rest ih =>
    rw [List.map_cons, List.nodup_cons] at hkeys
    rw [List.forall_mem_cons] at hwireable hunwired
    have hfirst := gains_applyCandidate hscope haccepts hwireable.1 hunwired.1
    have hunwired' : ∀ other ∈ rest,
        (pass.applyCandidate engine candidate).Unwired scope.owner other.memoKey scope.nodes :=
      fun other hother => hfirst.unwired (hunwired.2 other hother) fun hsame =>
        hkeys.1 (List.mem_singleton.mp hsame ▸ List.mem_map_of_mem hother)
    have hrest := ih hkeys.2 (hfirst.scene ▸ haccepts) (hfirst.scene ▸ hwireable.2) hunwired'
    rw [hfirst.scene] at hrest
    rw [List.map_cons, List.flatMap_cons, List.map_append]
    exact hfirst.trans hrest

theorem gains_applySelected (hscope : pass.scope = some scope) {selected : List Candidate}
    (hkeys : (selected.map Candidate.memoKey).Nodup) (haccepts : engine.scene.Accepts)
    (hwireable : ∀ candidate ∈ selected, pass.Wireable engine.scene scope candidate)
    (hunwired : ∀ candidate ∈ selected,
      engine.Unwired scope.owner candidate.memoKey scope.nodes) :
    Gains scope.owner (selected.map Candidate.memoKey)
      ((selected.flatMap (pass.proposals engine.scene)).map Proposal.wire) engine
      (pass.applySelected engine selected) := by
  have hkeys' : (selected.reverse.map Candidate.memoKey).Nodup := by
    rw [List.map_reverse]
    exact List.nodup_reverse.mpr hkeys
  have hgains := gains_foldl_applyCandidate hscope hkeys' haccepts (by simpa using hwireable)
    (by simpa using hunwired)
  exact hgains.congr (by simp [List.map_reverse]) fun wire => by simp

/-! ### Selecting -/

theorem controllers_gateFor (pass : Pass) (engine : Engine) (memoKey source target : String)
    (lists : List (List String)) :
    (pass.gateFor engine memoKey source target lists).1.controllers = engine.controllers := by
  rw [gateFor]
  refine List.foldlRecOn
    (motive := fun state : Engine => state.controllers = engine.controllers) _ _ rfl
    fun state hstate query _ => Eq.trans ?_ hstate
  exact listen_ind (P := fun after : Engine => after.controllers = _) rfl rfl

theorem controllers_selectInteraction (hscope : pass.scope = some scope) (key : String)
    (state : Engine × List Candidate) (interaction : CompiledInteraction) :
    (pass.selectInteraction c key state interaction).1.controllers = state.1.controllers := by
  have hwatch : pass.watchRule state.1 c interaction.rule = state.1 := by
    rw [watchRule, hscope]
  rw [selectInteraction, hwatch]
  refine List.foldlRecOn (motive := fun (made : Engine × List Candidate) =>
    made.1.controllers = state.1.controllers) _ _ rfl fun made hmade effect _ => ?_
  rw [selectOutgoing_eq]
  exact (pass.controllers_gateFor ..).trans hmade

theorem controllers_firstOpen (pass : Pass) (engine : Engine) (key memoKey : String)
    (variants : List Variant) :
    (pass.firstOpen key memoKey engine variants).1.controllers = engine.controllers := by
  induction variants generalizing engine with
  | nil => rfl
  | cons variant rest ih =>
    have hgate := pass.controllers_gateFor engine memoKey
      (KeyTemplate.interpolate variant.rule.key (KeyTemplate.indices key)) key
      [variant.rule.conditions, variant.effect.effect.conditions]
    rw [firstOpen]
    dsimp only
    split
    · exact hgate
    · exact (ih _).trans hgate

theorem controllers_selectIncoming (pass : Pass) (key : String) (state : Engine × List Candidate)
    (entry : TargetEffects) :
    (pass.selectIncoming c key state entry).1.controllers = state.1.controllers := by
  have hfirst := pass.controllers_firstOpen state.1 key
    (entry.id.interpolate (KeyTemplate.indices key)).encode entry.variants
  rw [selectIncoming]
  split
  · rfl
  · generalize pass.firstOpen key (entry.id.interpolate (KeyTemplate.indices key)).encode state.1
      entry.variants = found at hfirst
    obtain ⟨heard, found⟩ := found
    cases found with
    | none => exact hfirst
    | some found =>
      dsimp only
      split
      · exact hfirst
      · split <;> exact hfirst

/-- Resolving a source in a scope wires what is selected, and selecting changes no controller. -/
theorem exists_heard_outgoing (hscope : pass.scope = some scope) (engine : Engine)
    (c : ControllerId) (key : String) :
    ∃ heard, Quiet engine heard ∧ heard.controllers = engine.controllers ∧
      pass.resolveOutgoing engine c key =
        pass.applySelected heard (pass.outgoingOf engine c key) := by
  rw [outgoingOf]
  cases hnode : pass.node? engine key with
  | none =>
    refine ⟨engine, .refl engine, rfl, ?_⟩
    rw [resolveOutgoing, hnode]
    rfl
  | some node =>
    obtain ⟨hquiet, heq⟩ := @resolveOutgoing_eq engine pass c key node hnode
    refine ⟨_, hquiet, ?_, heq⟩
    exact List.foldlRecOn (motive := fun (state : Engine × List Candidate) =>
      state.1.controllers = engine.controllers) _ _ rfl fun state hstate interaction _ =>
        (controllers_selectInteraction hscope key state interaction).trans hstate

/-- Resolving a target wires what is selected, and selecting changes no controller. -/
theorem exists_heard_incoming (pass : Pass) (engine : Engine) (c : ControllerId) (key : String) :
    ∃ heard, Quiet engine heard ∧ heard.controllers = engine.controllers ∧
      pass.resolveIncoming engine c key =
        pass.applySelected heard (pass.incomingOf engine c key) := by
  rw [incomingOf]
  cases hnode : pass.node? engine key with
  | none =>
    refine ⟨engine, .refl engine, rfl, ?_⟩
    rw [resolveIncoming, hnode]
    rfl
  | some node =>
    obtain ⟨hquiet, heq⟩ := @resolveIncoming_eq engine pass c key node hnode
    refine ⟨_, hquiet, ?_, heq⟩
    exact List.foldlRecOn (motive := fun (state : Engine × List Candidate) =>
      state.1.controllers = engine.controllers) _ _ rfl fun state hstate entry _ =>
        (pass.controllers_selectIncoming key state entry).trans hstate

/-- Selecting changes nothing that wiring in a scope goes by. -/
theorem gains_of_quiet (hscope : pass.scope = some scope) {heard : Engine}
    (hquiet : Quiet engine heard) (hcontrollers : heard.controllers = engine.controllers)
    {selected : List Candidate} (hkeys : (selected.map Candidate.memoKey).Nodup)
    (haccepts : engine.scene.Accepts)
    (hwireable : ∀ candidate ∈ selected, pass.Wireable engine.scene scope candidate)
    (hunwired : ∀ candidate ∈ selected,
      engine.Unwired scope.owner candidate.memoKey scope.nodes) :
    Gains scope.owner (selected.map Candidate.memoKey)
      ((selected.flatMap (pass.proposals engine.scene)).map Proposal.wire) engine
      (pass.applySelected heard selected) := by
  have hselect : Gains scope.owner [] [] engine heard := .of_quiet hquiet hcontrollers
  have hgains := gains_applySelected hscope hkeys (hquiet.scene ▸ haccepts)
    (hquiet.scene ▸ hwireable)
    fun candidate hmem => hselect.unwired (hunwired candidate hmem) List.not_mem_nil
  rw [hquiet.scene] at hgains
  exact hselect.trans hgains

theorem nodup_memoKey_outgoingOf {key : String} :
    ((pass.outgoingOf engine c key).map Candidate.memoKey).Nodup := by
  rw [outgoingOf]
  cases pass.node? engine key with
  | none => exact List.nodup_nil
  | some node => exact nodup_foldl_selectCandidate _

/-- Resolving a source in a scope wires what is selected. -/
theorem gains_resolveOutgoing (hscope : pass.scope = some scope) {key : String}
    (haccepts : engine.scene.Accepts)
    (hwireable : ∀ candidate ∈ pass.outgoingOf engine c key,
      pass.Wireable engine.scene scope candidate)
    (hunwired : ∀ candidate ∈ pass.outgoingOf engine c key,
      engine.Unwired scope.owner candidate.memoKey scope.nodes) :
    Gains scope.owner ((pass.outgoingOf engine c key).map Candidate.memoKey)
      (((pass.outgoingOf engine c key).flatMap (pass.proposals engine.scene)).map Proposal.wire)
      engine (pass.resolveOutgoing engine c key) := by
  obtain ⟨heard, hquiet, hcontrollers, heq⟩ := exists_heard_outgoing hscope engine c key
  rw [heq]
  exact gains_of_quiet hscope hquiet hcontrollers nodup_memoKey_outgoingOf haccepts hwireable
    hunwired

/-- Resolving a target in a scope wires what is selected. -/
theorem gains_resolveIncoming (hscope : pass.scope = some scope) {key : String}
    (hkeys : ((pass.incomingOf engine c key).map Candidate.memoKey).Nodup)
    (haccepts : engine.scene.Accepts)
    (hwireable : ∀ candidate ∈ pass.incomingOf engine c key,
      pass.Wireable engine.scene scope candidate)
    (hunwired : ∀ candidate ∈ pass.incomingOf engine c key,
      engine.Unwired scope.owner candidate.memoKey scope.nodes) :
    Gains scope.owner ((pass.incomingOf engine c key).map Candidate.memoKey)
      (((pass.incomingOf engine c key).flatMap (pass.proposals engine.scene)).map Proposal.wire)
      engine (pass.resolveIncoming engine c key) := by
  obtain ⟨heard, hquiet, hcontrollers, heq⟩ := pass.exists_heard_incoming engine c key
  rw [heq]
  exact gains_of_quiet hscope hquiet hcontrollers hkeys haccepts hwireable hunwired

/-! ### What is selected -/

section Selected

variable {i : InstanceId} {key : String} {fresh : Engine}

/-- Whether a candidate is bound to the container of a scope. -/
def admits (scope : ListScope) (candidate : Candidate) : Bool :=
  (Pass.mk 0 (some scope)).inScope candidate.rule candidate.effect candidate.source candidate.target

theorem currentGate_congr (hscene : fresh.scene = engine.scene) (lists : List (List String)) :
    (Pass.mk i (some scope)).currentGate engine lists =
      (Pass.mk i none).currentGate fresh lists := by
  rw [currentGate_eq, currentGate_eq, hscene]

theorem outgoing?_scoped (hscene : fresh.scene = engine.scene) (hmemo : (fresh.inst i).memo = [])
    (rule : Rule) (effect : CompiledEffect) :
    (Pass.mk i (some scope)).outgoing? engine c key rule effect =
      ((Pass.mk i none).outgoing? fresh c key rule effect).filter (admits scope) := by
  have htarget : targetController? fresh c rule effect
      (KeyTemplate.interpolate effect.target (KeyTemplate.indices key)) =
      targetController? engine c rule effect
        (KeyTemplate.interpolate effect.target (KeyTemplate.indices key)) := by
    rw [targetController?, targetController?, connectedController?_eq, connectedController?_eq,
      hscene]
  simp only [outgoing?, currentGate_congr hscene, htarget, alreadyApplied, Instance.isApplied,
    hmemo, Option.isNone_some, Option.isNone_none, Bool.false_and, Bool.true_and,
    List.not_mem_nil, decide_false, Bool.or_false]
  split
  · rfl
  · cases targetController? engine c rule effect
      (KeyTemplate.interpolate effect.target (KeyTemplate.indices key)) with
    | none => rfl
    | some target =>
      have hfull : (Pass.mk i none).inScope rule effect c target = true := rfl
      simp only [hfull, if_true, Option.filter_some]
      rfl

theorem incoming?_scoped (hscene : fresh.scene = engine.scene) (hmemo : (fresh.inst i).memo = [])
    (entry : TargetEffects) :
    (Pass.mk i (some scope)).incoming? engine c key entry =
      ((Pass.mk i none).incoming? fresh c key entry).filter (admits scope) := by
  have hopen : (Pass.mk i (some scope)).isOpen engine = (Pass.mk i none).isOpen fresh :=
    funext fun variant => by rw [isOpen, isOpen, currentGate_congr hscene]
  have hsource (sourceKey : String) :
      fresh.connectedController? sourceKey = engine.connectedController? sourceKey := by
    rw [connectedController?_eq, connectedController?_eq, hscene]
  simp only [incoming?, currentGate_congr hscene, hopen, hsource, alreadyApplied,
    Instance.isApplied, hmemo, Option.isNone_some, Option.isNone_none, Bool.false_and,
    Bool.true_and, List.not_mem_nil, decide_false, Bool.false_eq_true, if_false]
  cases entry.variants.find? ((Pass.mk i none).isOpen fresh) with
  | none => rfl
  | some variant =>
    dsimp only
    cases engine.connectedController?
        (KeyTemplate.interpolate variant.rule.key (KeyTemplate.indices key)) with
    | none => rfl
    | some source =>
      have hfull : (Pass.mk i none).inScope variant.rule variant.effect source c = true := rfl
      simp only [hfull, if_true, Option.filter_some]
      rfl

theorem node?_scoped (hscene : fresh.scene = engine.scene) :
    (Pass.mk i (some scope)).node? engine key = (Pass.mk i none).node? fresh key := by
  rw [node?_eq, node?_eq, hscene]

/-- A filter leaves the first one that is found in its place, if those to be found are alike under
the filter. -/
theorem find?_filter_eq_some {α : Type} {l : List α} {p q : α → Bool} {a : α}
    (h : ∀ b ∈ l, ∀ b' ∈ l, q b = true → q b' = true → p b = p b') :
    (l.filter p).find? q = some a ↔ l.find? q = some a ∧ p a = true := by
  induction l with
  | nil => simp
  | cons first rest ih =>
    have hrest := ih fun b hb b' hb' => h b (.tail _ hb) b' (.tail _ hb')
    rw [List.filter_cons, List.find?_cons]
    cases hp : p first with
    | true =>
      rw [if_pos rfl, List.find?_cons]
      cases hq : q first with
      | true =>
        simp only [Option.some.injEq]
        exact ⟨fun heq => ⟨heq, heq ▸ hp⟩, And.left⟩
      | false => exact hrest
    | false =>
      rw [if_neg Bool.false_ne_true]
      cases hq : q first with
      | true =>
        refine iff_of_false (fun hfind => ?_) fun ⟨heq, ha⟩ => ?_
        · obtain ⟨hfind, ha⟩ := hrest.mp hfind
          have hpa := h first (.head _) a (.tail _ (List.mem_of_find?_eq_some hfind)) hq
            (List.find?_some hfind)
          exact Bool.false_ne_true (hp.symm.trans (hpa.trans ha))
        · exact Bool.false_ne_true (hp.symm.trans (Option.some.inj heq ▸ ha))
      | false => exact hrest

/-- In a scope the candidates of a source are those of a full pass that finds nothing applied and
that are bound to the container, if candidates with one id are bound alike. -/
theorem mem_outgoingOf_scoped (hscene : fresh.scene = engine.scene)
    (hmemo : (fresh.inst i).memo = [])
    (halike : ∀ node, (Pass.mk i none).node? fresh key = some node →
      ∀ first ∈ (Pass.mk i none).offered fresh c key node,
      ∀ second ∈ (Pass.mk i none).offered fresh c key node,
        first.memoKey = second.memoKey → admits scope first = admits scope second) :
    candidate ∈ (Pass.mk i (some scope)).outgoingOf engine c key ↔
      candidate ∈ (Pass.mk i none).outgoingOf fresh c key ∧ admits scope candidate = true := by
  rw [outgoingOf, outgoingOf, node?_scoped hscene]
  cases hnode : (Pass.mk i none).node? fresh key with
  | none => simp
  | some node =>
    have halike := halike node hnode
    have hoffered : (Pass.mk i (some scope)).offered engine c key node =
        ((Pass.mk i none).offered fresh c key node).filter (admits scope) := by
      simp only [offered, List.filter_flatMap, List.filter_filterMap]
      refine List.flatMap_congr fun interaction _ => List.filterMap_congr fun effect _ => ?_
      exact outgoing?_scoped hscene hmemo ..
    dsimp only
    rw [outgoing, outgoing, mem_foldl_selectCandidate, mem_foldl_selectCandidate, hoffered]
    generalize (Pass.mk i none).offered fresh c key node = offers at halike
    rw [← List.filter_reverse]
    refine find?_filter_eq_some fun first hfirst second hsecond hkey hkey' => ?_
    rw [List.mem_reverse] at hfirst hsecond
    rw [decide_eq_true_eq] at hkey hkey'
    exact halike first hfirst second hsecond (hkey.trans hkey'.symm)

theorem mem_incomingOf_scoped (hscene : fresh.scene = engine.scene)
    (hmemo : (fresh.inst i).memo = []) :
    candidate ∈ (Pass.mk i (some scope)).incomingOf engine c key ↔
      candidate ∈ (Pass.mk i none).incomingOf fresh c key ∧ admits scope candidate = true := by
  rw [incomingOf, incomingOf, node?_scoped hscene]
  cases (Pass.mk i none).node? fresh key with
  | none => simp
  | some node =>
    have hincoming : (Pass.mk i (some scope)).incoming engine c key node =
        ((Pass.mk i none).incoming fresh c key node).filter (admits scope) := by
      rw [incoming, incoming, List.filter_filterMap]
      exact List.filterMap_congr fun entry _ => incoming?_scoped hscene hmemo entry
    dsimp only
    rw [hincoming, List.mem_filter]

end Selected

/-! ### Pairs of added nodes -/

section Added

variable {scene : Scene} {i : InstanceId}

/-- A candidate joins no two lists, unless they are the same list of one controller. -/
def Unjoined (candidate : Candidate) : Prop :=
  ∀ own other, candidate.rule.listContainer = some own →
    candidate.effect.effect.listContainer = some other →
    own = other ∧ candidate.source = candidate.target

/-- The selector of the items of the list that a rule and an effect are bound to. -/
def itemSelector (rule : Rule) (effect : Effect) : Option String :=
  if rule.isListBound then rule.listItemSelector else effect.listItemSelector

/-- What is bound to the container of a scope has its list below the owner of the scope. -/
theorem list_of_admits (hadmits : admits scope candidate = true) (hunjoined : Unjoined candidate) :
    candidate.rule.listContainer = some scope.container ∧ candidate.source = scope.owner ∨
      candidate.rule.listContainer = none ∧
        candidate.effect.effect.listContainer = some scope.container ∧
        candidate.target = scope.owner := by
  simp only [admits, inScope, Bool.or_eq_true, Bool.and_eq_true, decide_eq_true_eq] at hadmits
  rcases hadmits with hsource | ⟨hcontainer, htarget⟩
  · exact .inl hsource
  · cases hrule : candidate.rule.listContainer with
    | none => exact .inr ⟨rfl, hcontainer, htarget⟩
    | some own =>
      obtain ⟨rfl, hsame⟩ := hunjoined own _ hrule hcontainer
      exact .inl ⟨rfl, hsame.trans htarget⟩

theorem listOwner_of_admits (hadmits : admits scope candidate = true)
    (hunjoined : Unjoined candidate) : listOwner candidate = scope.owner := by
  rcases list_of_admits hadmits hunjoined with ⟨hrule, howner⟩ | ⟨hrule, -, howner⟩
  · rw [listOwner, Rule.isListBound, hrule]
    exact howner
  · rw [listOwner, Rule.isListBound, hrule]
    exact howner

theorem mem_flatMap_of_subset {pairsOf : NodeId → List NodePair} {nodes items : List NodeId}
    {pair : NodePair} (hitem : ∀ item, ∀ pair ∈ pairsOf item, pair.item = some item)
    (hsubset : nodes ⊆ items) :
    pair ∈ nodes.flatMap pairsOf ↔
      pair ∈ items.flatMap pairsOf ∧ ∃ node ∈ nodes, pair.item = some node := by
  simp only [List.mem_flatMap]
  constructor
  · rintro ⟨node, hnode, hpair⟩
    exact ⟨⟨node, hsubset hnode, hpair⟩, node, hnode, hitem node pair hpair⟩
  · rintro ⟨⟨item, -, hpair⟩, node, hnode, heq⟩
    obtain rfl := Option.some.inj ((hitem item pair hpair).symm.trans heq)
    exact ⟨item, hnode, hpair⟩

/-- In a scope the pairs of a candidate are those of a full pass that go through a node of the
scope, if the nodes are items by the selector of the candidate. -/
theorem mem_pairsIn_scoped (hadmits : admits scope candidate = true)
    (hunjoined : Unjoined candidate) {anchor : NodeId}
    (hanchor : scene.anchor scope.owner = some anchor)
    (hnodes : scope.nodes ⊆ scene.dom.queryAll anchor (itemsSelector scope.container
      (itemSelector candidate.rule candidate.effect.effect))) {pair : NodePair} :
    pair ∈ (Pass.mk i (some scope)).pairsIn scene candidate ↔
      pair ∈ (Pass.mk i none).pairsIn scene candidate ∧
        ∃ node ∈ scope.nodes, pair.item = some node := by
  rw [pairsIn, pairsIn]
  cases scene.anchor candidate.source with
  | none => simp
  | some source =>
    cases scene.anchor candidate.target with
    | none => simp
    | some target =>
      dsimp only
      rcases list_of_admits hadmits hunjoined with ⟨hrule, howner⟩ | ⟨hrule, heffect, howner⟩
      · rw [itemSelector, Rule.isListBound, hrule] at hnodes
        simp only [hrule, itemsIn, howner, hanchor, decide_true, Bool.and_self, if_true]
        refine mem_flatMap_of_subset ?_ hnodes
        simp only [List.mem_flatMap, List.mem_map]
        rintro item pair ⟨node, -, other, -, rfl⟩
        rfl
      · rw [itemSelector, Rule.isListBound, hrule] at hnodes
        simp only [hrule, heffect, itemsIn, howner, hanchor, decide_true, Bool.and_self, if_true]
        refine mem_flatMap_of_subset ?_ hnodes
        simp only [List.mem_flatMap, List.mem_map]
        rintro item pair ⟨node, -, other, -, rfl⟩
        rfl

theorem wireable_of_admits (hadmits : admits scope candidate = true)
    (hunjoined : Unjoined candidate) {anchor : NodeId}
    (hanchor : scene.anchor scope.owner = some anchor)
    (hnodes : scope.nodes ⊆ scene.dom.queryAll anchor (itemsSelector scope.container
      (itemSelector candidate.rule candidate.effect.effect))) :
    (Pass.mk i (some scope)).Wireable scene scope candidate where
  owner := listOwner_of_admits hadmits hunjoined
  items pair hpair node hnode := by
    obtain ⟨-, item, hitem, heq⟩ := (mem_pairsIn_scoped hadmits hunjoined hanchor hnodes).mp hpair
    exact Option.some.inj (heq.symm.trans hnode) ▸ hitem

end Added

/-! ### Items of a scope -/

section Items

variable {scene : Scene}

/-- A wiring between two controllers goes through an item of a scope: the rule is bound to the
container on the side of the source, and the source node is selected at the item, or else the effect
is on the side of the target, and the target node is. -/
inductive ThroughItem (dom : Dom) (scope : ListScope) (rule : Rule) (effect : Effect)
    (c d : ControllerId) (item source target : NodeId) : Prop
  | ofSource (hlist : rule.listContainer = some scope.container) (howner : c = scope.owner)
      (hreach : source ∈ dom.select item rule.selector)
  | ofTarget (hlist : rule.listContainer = none)
      (hlist' : effect.listContainer = some scope.container) (howner : d = scope.owner)
      (hreach : target ∈ dom.select item effect.selector)

/-- In a scope a candidate is paired through nodes of the scope only, and only if the list that it is
paired through belongs to the owner of the scope. -/
theorem exists_throughItem (hscope : pass.scope = some scope)
    (hin : pass.inScope candidate.rule candidate.effect candidate.source candidate.target = true)
    {pair : NodePair} (h : pair ∈ pass.pairsIn scene candidate) :
    ∃ item ∈ scope.nodes, pair.item = some item ∧ ThroughItem scene.dom scope candidate.rule
      candidate.effect.effect candidate.source candidate.target item pair.source pair.target := by
  have hitems {owner : ControllerId} {container : String} {selector : Option String} {item : NodeId}
      (hitem : item ∈ pass.itemsIn scene owner container selector) :
      container = scope.container ∧ owner = scope.owner ∧ item ∈ scope.nodes := by
    simp only [itemsIn, hscope, Bool.and_eq_true, decide_eq_true_eq] at hitem
    split at hitem
    next hsame => exact ⟨hsame.1.symm, hsame.2, hitem⟩
    next => cases hitem
  rw [pairsIn] at h
  split at h
  next sourceAnchor targetAnchor hsource htarget =>
    split at h
    next _ container hlist =>
      obtain ⟨item, hitem, h⟩ := List.mem_flatMap.mp h
      obtain ⟨source, hreach, h⟩ := List.mem_flatMap.mp h
      obtain ⟨target, -, rfl⟩ := List.mem_map.mp h
      obtain ⟨rfl, howner, hnode⟩ := hitems hitem
      exact ⟨item, hnode, rfl, .ofSource hlist howner hreach⟩
    next container hlist hlist' =>
      obtain ⟨item, hitem, h⟩ := List.mem_flatMap.mp h
      obtain ⟨target, hreach, h⟩ := List.mem_flatMap.mp h
      obtain ⟨source, -, rfl⟩ := List.mem_map.mp h
      obtain ⟨rfl, howner, hnode⟩ := hitems hitem
      exact ⟨item, hnode, rfl, .ofTarget hlist hlist' howner hreach⟩
    next hlist hlist' => simp [inScope, hscope, hlist, hlist'] at hin
  next => cases h

/-- The list of a candidate that is wired through an item belongs to the owner of the item. -/
theorem ThroughItem.listOwner_eq {dom : Dom} {item source target : NodeId}
    (h : ThroughItem dom scope candidate.rule candidate.effect.effect candidate.source
      candidate.target item source target) : listOwner candidate = scope.owner := by
  rw [listOwner]
  cases h with
  | ofSource hlist howner => rw [if_pos (Rule.isListBound_of_some hlist), howner]
  | ofTarget hlist hlist' howner =>
    rw [if_neg (Rule.not_isListBound_of_none hlist), howner]

end Items

end Pass

end InteractionBinding.Engine
