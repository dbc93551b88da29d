import InteractionBinding.Proofs.Engine.Origin
import InteractionBinding.Proofs.Wiring.Accepting
/-!
# Links between keys

The two sides of a resolution, freed of controllers: a key is linked to others by its own effects
(`Site.outgoing`) and by the effects that land on it (`Site.incoming`), each side filling in the
indices of the key that is resolved. In an engine that stands on a site, a full pass selects the
links whose other side is connected (`Site.mem_outgoingOf`, `Site.mem_incomingOf`).
-/

namespace InteractionBinding.Engine

/-- What the resolution of keys goes by: a graph, a document, handlers and the states of queries,
and the node that each key stands for. -/
structure Site where
  graph : Graph
  dom : Dom
  handlers : HandlerTable
  queryState : Query → Bool
  nodeOf : String → NodeId

/-- An effect of a rule between a key that is resolved and another one. -/
structure Link where
  /-- The id with the indices of the resolved key filled in. -/
  id : InteractionId
  rule : Rule
  effect : CompiledEffect
  other : String

/-- The text under which the link is kept as applied. -/
def Link.text (link : Link) : String := link.id.encode

/-- The pairs of nodes of a rule and an effect between two anchors. -/
def pairsBetween (dom : Dom) (rule : Rule) (effect : Effect) (source target : NodeId) :
    List NodePair :=
  match rule.listContainer, effect.listContainer with
  | some container, other =>
    (dom.queryAll source (itemsSelector container rule.listItemSelector)).flatMap fun item =>
      (dom.select item rule.selector).flatMap fun a =>
        (dom.select (if other = some container then item else target) effect.selector).map
          fun b => ⟨a, b, some item⟩
  | none, some container =>
    (dom.queryAll target (itemsSelector container effect.listItemSelector)).flatMap fun item =>
      (dom.select item effect.selector).flatMap fun b =>
        (dom.select source rule.selector).map fun a => ⟨a, b, some item⟩
  | none, none =>
    (dom.select source rule.selector).flatMap fun a =>
      (dom.select target effect.selector).map fun b => ⟨a, b, none⟩

namespace Site

variable (site : Site)

/-- The gate of a rule and an effect. -/
def gate (rule : Rule) (effect : CompiledEffect) : Gate :=
  .resolveAll site.graph.conditions site.queryState [rule.conditions, effect.effect.conditions]

/-- The effects of a key whose gates are open, in the order in which they are walked. -/
def outgoing (key : String) : List Link :=
  match site.graph.get? key with
  | none => []
  | some node =>
    node.triggers.flatMap fun interaction =>
      (interaction.effects.filter fun effect => (site.gate interaction.rule effect).isOpen).map
        fun effect =>
          ⟨effect.id.interpolate (KeyTemplate.indices key), interaction.rule, effect,
            if effect.target = interaction.rule.key then key
            else KeyTemplate.interpolate effect.target (KeyTemplate.indices key)⟩

/-- The first open alternatives of the ids that land on a key. -/
def incoming (key : String) : List Link :=
  match site.graph.get? key with
  | none => []
  | some node =>
    node.effects.filterMap fun entry =>
      (entry.variants.find? fun variant => (site.gate variant.rule variant.effect).isOpen).map
        fun variant =>
          ⟨entry.id.interpolate (KeyTemplate.indices key), variant.rule, variant.effect,
            KeyTemplate.interpolate variant.rule.key (KeyTemplate.indices key)⟩

/-- The wires of a link from a key to a key. -/
def wires (link : Link) (source target : String) : List Wire :=
  if (site.handlers.get? link.rule.trigger).isSome then
    (pairsBetween site.dom link.rule link.effect.effect (site.nodeOf source)
      (site.nodeOf target)).map fun pair => ⟨pair.source, pair.target, link.id⟩
  else []

/-- Whether a link from a key to a key is kept as applied once it has been wired. -/
def takes (link : Link) (source target : String) : Bool :=
  !(site.wires link source target).isEmpty ||
    (site.handlers.get? link.rule.trigger).isSome &&
      (link.rule.isListBound || link.effect.effect.listContainer.isSome)

end Site

/-- An instance of an engine stands on a site: what it goes by is that of the site, connected keys
are anchored at their nodes, and every handler accepts. -/
structure OnSite (site : Site) (i : InstanceId) (scene : Scene) : Prop where
  graph : (scene.inst i).graph = site.graph
  dom : scene.dom = site.dom
  handlers : scene.handlers = site.handlers
  queryState : scene.queryState = site.queryState
  anchored (key : String) (c : ControllerId) :
    scene.connectedController? key = some c → scene.anchor c = some (site.nodeOf key)
  accepts : scene.Accepts

namespace Site

variable {site : Site} {i : InstanceId} {engine : Engine} {c : ControllerId} {key : String}

/-- The candidate that a link makes for its source. -/
def outgoingCandidate (site : Site) (c : ControllerId) (link : Link) (target : ControllerId) :
    Candidate :=
  ⟨link.id, link.rule, link.effect, c, target, site.gate link.rule link.effect⟩

/-- The candidate that a link makes for its target. -/
def incomingCandidate (site : Site) (c : ControllerId) (link : Link) (source : ControllerId) :
    Candidate :=
  ⟨link.id, link.rule, link.effect, source, c, site.gate link.rule link.effect⟩

/-- Whether a link can be wired in an instance: its text has not been applied, and its other side
is connected. -/
def isReady (engine : Engine) (i : InstanceId) (link : Link) : Bool :=
  link.text ∉ (engine.inst i).memo && (engine.connectedController? link.other).isSome

theorem currentGate_eq (h : OnSite site i engine.scene) (rule : Rule) (effect : CompiledEffect) :
    (Pass.mk i none).currentGate engine [rule.conditions, effect.effect.conditions] =
      site.gate rule effect := by
  rw [Pass.currentGate_eq, Scene.gate, h.graph, h.queryState]
  rfl

theorem offered_eq (h : OnSite site i engine.scene)
    (hself : engine.connectedController? key = some c)
    {node : GraphNode} (hnode : site.graph.get? key = some node) :
    (Pass.mk i none).offered engine c key node =
      (site.outgoing key).filterMap fun link =>
        if link.text ∈ (engine.inst i).memo then none
        else (engine.connectedController? link.other).map (site.outgoingCandidate c link) := by
  simp only [Pass.offered, outgoing, hnode, List.filterMap_flatMap, List.filterMap_map]
  refine List.flatMap_congr fun interaction _ => ?_
  rw [List.filterMap_filter]
  refine List.filterMap_congr fun effect _ => ?_
  have hpartner : Pass.targetController? engine c interaction.rule effect
      (KeyTemplate.interpolate effect.target (KeyTemplate.indices key)) =
      engine.connectedController? (if effect.target = interaction.rule.key then key
        else KeyTemplate.interpolate effect.target (KeyTemplate.indices key)) := by
    rw [Pass.targetController?]
    split
    · rw [hself]
    · rfl
  simp only [Pass.outgoing?, hpartner, currentGate_eq h, Function.comp_apply, Pass.alreadyApplied,
    Option.isNone_none, Bool.true_and, Pass.inScope, if_true, Instance.isApplied, Link.text]
  cases (site.gate interaction.rule effect).isOpen with
  | false => rfl
  | true =>
    by_cases hmem : (effect.id.interpolate (KeyTemplate.indices key)).encode ∈ (engine.inst i).memo
    · simp [hmem]
    · simp only [hmem, decide_false, Bool.not_true, Bool.or_self, Bool.false_eq_true, if_false]
      cases engine.connectedController? (if effect.target = interaction.rule.key then key
        else KeyTemplate.interpolate effect.target (KeyTemplate.indices key)) <;> rfl

/-- A full pass selects a link of a source if it is the last one walked of those with its text that
are ready. -/
def Selects (site : Site) (engine : Engine) (i : InstanceId) (key : String) (link : Link) : Prop :=
  (site.outgoing key).reverse.find?
    (fun other => other.text = link.text && isReady engine i other) = some link

theorem Selects.ready {link : Link} (h : site.Selects engine i key link) :
    link.text ∉ (engine.inst i).memo ∧ (engine.connectedController? link.other).isSome := by
  rw [Selects] at h
  simpa [isReady] using List.find?_some h

theorem mem_outgoingOf (h : OnSite site i engine.scene)
    (hself : engine.connectedController? key = some c) {candidate : Candidate} :
    candidate ∈ (Pass.mk i none).outgoingOf engine c key ↔
      ∃ link target, site.Selects engine i key link ∧
        engine.connectedController? link.other = some target ∧
        candidate = site.outgoingCandidate c link target := by
  have hnode : (Pass.mk i none).node? engine key = site.graph.get? key := by
    rw [Pass.node?_eq, h.graph]
  rw [Pass.outgoingOf, hnode]
  split
  next hnone => simp [Selects, outgoing, hnone]
  next node hsome =>
    have hmatch (link : Link) : (fun other : Link => (if other.text ∈ (engine.inst i).memo then none
        else (engine.connectedController? other.other).map (site.outgoingCandidate c other)).any
          fun made => made.memoKey = link.text) =
        fun other => other.text = link.text && isReady engine i other := by
      funext other
      rw [isReady]
      by_cases hmem : other.text ∈ (engine.inst i).memo
      · simp [hmem]
      · have hkey (target : ControllerId) :
            (site.outgoingCandidate c other target).memoKey = other.text := rfl
        rw [if_neg hmem]
        cases engine.connectedController? other.other <;> simp [hmem, hkey]
    rw [Pass.outgoing, Pass.mem_foldl_selectCandidate, offered_eq h hself hsome,
      ← List.filterMap_reverse, List.find?_filterMap, Option.bind_eq_some_iff]
    constructor
    · rintro ⟨link, hfind, hmade⟩
      split at hmade
      · cases hmade
      · obtain ⟨target, htarget, rfl⟩ := Option.map_eq_some_iff.mp hmade
        rw [show (site.outgoingCandidate c link target).memoKey = link.text from rfl, hmatch link]
          at hfind
        exact ⟨link, target, hfind, htarget, rfl⟩
    · rintro ⟨link, target, hselects, htarget, rfl⟩
      refine ⟨link, ?_, ?_⟩
      · rw [show (site.outgoingCandidate c link target).memoKey = link.text from rfl, hmatch link]
        exact hselects
      · rw [if_neg hselects.ready.1, htarget, Option.map_some]

theorem mem_incomingOf (h : OnSite site i engine.scene) {candidate : Candidate} :
    candidate ∈ (Pass.mk i none).incomingOf engine c key ↔
      ∃ link ∈ site.incoming key, ∃ source, link.text ∉ (engine.inst i).memo ∧
        engine.connectedController? link.other = some source ∧
        candidate = site.incomingCandidate c link source := by
  have hnode : (Pass.mk i none).node? engine key = site.graph.get? key := by
    rw [Pass.node?_eq, h.graph]
  have hopen : (Pass.mk i none).isOpen engine =
      fun variant => (site.gate variant.rule variant.effect).isOpen := by
    funext variant
    rw [Pass.isOpen, currentGate_eq h]
  rw [Pass.incomingOf, incoming, hnode]
  cases site.graph.get? key with
  | none => simp
  | some node =>
    constructor
    · intro hmem
      obtain ⟨entry, hentry, hmade⟩ := List.mem_filterMap.mp hmem
      obtain ⟨variant, source, happlied, hfind, hsource, -, rfl⟩ := Pass.incoming?_eq_some.mp hmade
      rw [hopen] at hfind
      refine ⟨⟨entry.id.interpolate (KeyTemplate.indices key), variant.rule, variant.effect,
        KeyTemplate.interpolate variant.rule.key (KeyTemplate.indices key)⟩,
        List.mem_filterMap.mpr ⟨entry, hentry, ?_⟩, source, ?_, hsource, ?_⟩
      · rw [hfind, Option.map_some]
      · simpa [Pass.alreadyApplied, Instance.isApplied, Link.text] using happlied
      · rw [currentGate_eq h]
        rfl
    · rintro ⟨link, hlink, source, hmemo, hsource, rfl⟩
      obtain ⟨entry, hentry, hmade⟩ := List.mem_filterMap.mp hlink
      obtain ⟨variant, hfind, rfl⟩ := Option.map_eq_some_iff.mp hmade
      refine List.mem_filterMap.mpr ⟨entry, hentry, Pass.incoming?_eq_some.mpr
        ⟨variant, source, ?_, hopen ▸ hfind, hsource, rfl, ?_⟩⟩
      · simpa [Pass.alreadyApplied, Instance.isApplied, Link.text] using hmemo
      · rw [currentGate_eq h]
        rfl

/-! ### Wires of links -/

theorem pairsIn_eq (h : OnSite site i engine.scene) {candidate : Candidate} {source target : String}
    (hsource : engine.connectedController? source = some candidate.source)
    (htarget : engine.connectedController? target = some candidate.target) :
    (Pass.mk i none).pairsIn engine.scene candidate =
      pairsBetween site.dom candidate.rule candidate.effect.effect (site.nodeOf source)
        (site.nodeOf target) := by
  rw [connectedController?_eq] at hsource htarget
  rw [Pass.pairsIn, pairsBetween, h.anchored _ _ hsource, h.anchored _ _ htarget, h.dom]
  cases candidate.rule.listContainer with
  | some container => simp only [Pass.itemsIn, h.anchored _ _ hsource, h.dom]
  | none =>
    cases candidate.effect.effect.listContainer with
    | some container => simp only [Pass.itemsIn, h.anchored _ _ htarget, h.dom]
    | none => rfl

/-- The wires that a candidate of a link proposes are those of the link. -/
theorem exists_proposal_iff (h : OnSite site i engine.scene) (candidate : Candidate) {link : Link}
    {source target : String} {wire : Wire}
    (hid : candidate.id = link.id) (hrule : candidate.rule = link.rule)
    (heffect : candidate.effect = link.effect)
    (hsource : engine.connectedController? source = some candidate.source)
    (htarget : engine.connectedController? target = some candidate.target) :
    (∃ proposal ∈ (Pass.mk i none).proposals engine.scene candidate, proposal.wire = wire) ↔
      wire ∈ site.wires link source target := by
  rw [Pass.proposals, pairsIn_eq h hsource htarget, h.handlers, hrule, heffect, wires]
  cases site.handlers.get? link.rule.trigger with
  | none => simp
  | some handler => simp [Proposal.wire, hid]

theorem takes_iff (h : OnSite site i engine.scene) (candidate : Candidate) {link : Link}
    {source target : String} (hrule : candidate.rule = link.rule)
    (heffect : candidate.effect = link.effect)
    (hsource : engine.connectedController? source = some candidate.source)
    (htarget : engine.connectedController? target = some candidate.target) :
    (Pass.mk i none).Takes engine.scene candidate ↔ site.takes link source target = true := by
  rw [Pass.Takes, Pass.proposals, pairsIn_eq h hsource htarget, h.handlers, takes, wires,
    Candidate.isListBound, hrule, heffect]
  cases site.handlers.get? link.rule.trigger with
  | none => simp
  | some handler => simp

/-! ### Full passes -/

variable {after : Engine} {wire : Wire} {text : String}

/-- Resolving a source wires the links that it selects. -/
theorem mem_wires_outgoing (h : OnSite site i engine.scene)
    (hself : engine.connectedController? key = some c)
    (hwires : (Pass.mk i none).Wires ((Pass.mk i none).outgoingOf engine c key) engine after) :
    wire ∈ after.wires ↔ wire ∈ engine.wires ∨
      ∃ link, site.Selects engine i key link ∧ wire ∈ site.wires link key link.other := by
  rw [hwires.mem_wires rfl h.accepts]
  refine or_congr_right ?_
  constructor
  · rintro ⟨candidate, hmem, hproposal⟩
    obtain ⟨link, target, hselects, htarget, rfl⟩ := (mem_outgoingOf h hself).mp hmem
    exact ⟨link, hselects, (exists_proposal_iff h _ rfl rfl rfl hself htarget).mp hproposal⟩
  · rintro ⟨link, hselects, hwire⟩
    obtain ⟨target, htarget⟩ := Option.isSome_iff_exists.mp hselects.ready.2
    exact ⟨_, (mem_outgoingOf h hself).mpr ⟨link, target, hselects, htarget, rfl⟩,
      (exists_proposal_iff h (site.outgoingCandidate c link target) rfl rfl rfl hself
        htarget).mpr hwire⟩

/-- Resolving a source keeps as applied the links that it selects and that are taken. -/
theorem mem_memo_outgoing (h : OnSite site i engine.scene)
    (hself : engine.connectedController? key = some c)
    (hwires : (Pass.mk i none).Wires ((Pass.mk i none).outgoingOf engine c key) engine after)
    (hlength : i < engine.instances.length) :
    text ∈ (after.inst i).memo ↔ text ∈ (engine.inst i).memo ∨
      ∃ link, site.Selects engine i key link ∧ link.text = text ∧
        site.takes link key link.other = true := by
  rw [hwires.mem_memo rfl h.accepts, and_iff_right rfl, and_iff_right hlength]
  refine or_congr_right ?_
  constructor
  · rintro ⟨candidate, hmem, htext, htakes⟩
    obtain ⟨link, target, hselects, htarget, rfl⟩ := (mem_outgoingOf h hself).mp hmem
    exact ⟨link, hselects, htext, (takes_iff h _ rfl rfl hself htarget).mp htakes⟩
  · rintro ⟨link, hselects, htext, htakes⟩
    obtain ⟨target, htarget⟩ := Option.isSome_iff_exists.mp hselects.ready.2
    exact ⟨_, (mem_outgoingOf h hself).mpr ⟨link, target, hselects, htarget, rfl⟩, htext,
      (takes_iff h (site.outgoingCandidate c link target) rfl rfl hself htarget).mpr htakes⟩

/-- Resolving a target wires the links that land on it and whose source is connected. -/
theorem mem_wires_incoming (h : OnSite site i engine.scene)
    (hself : engine.connectedController? key = some c)
    (hwires : (Pass.mk i none).Wires ((Pass.mk i none).incomingOf engine c key) engine after) :
    wire ∈ after.wires ↔ wire ∈ engine.wires ∨
      ∃ link ∈ site.incoming key, isReady engine i link = true ∧
        wire ∈ site.wires link link.other key := by
  rw [hwires.mem_wires rfl h.accepts]
  refine or_congr_right ?_
  constructor
  · rintro ⟨candidate, hmem, hproposal⟩
    obtain ⟨link, hlink, source, hmemo, hsource, rfl⟩ := (mem_incomingOf h).mp hmem
    exact ⟨link, hlink, by simp [isReady, hmemo, hsource],
      (exists_proposal_iff h _ rfl rfl rfl hsource hself).mp hproposal⟩
  · rintro ⟨link, hlink, hready, hwire⟩
    simp only [isReady, Bool.and_eq_true, decide_eq_true_eq] at hready
    obtain ⟨source, hsource⟩ := Option.isSome_iff_exists.mp hready.2
    exact ⟨_, (mem_incomingOf h).mpr ⟨link, hlink, source, hready.1, hsource, rfl⟩,
      (exists_proposal_iff h (site.incomingCandidate c link source) rfl rfl rfl hsource
        hself).mpr hwire⟩

/-- Resolving a target keeps as applied the links that land on it and that are taken. -/
theorem mem_memo_incoming (h : OnSite site i engine.scene)
    (hself : engine.connectedController? key = some c)
    (hwires : (Pass.mk i none).Wires ((Pass.mk i none).incomingOf engine c key) engine after)
    (hlength : i < engine.instances.length) :
    text ∈ (after.inst i).memo ↔ text ∈ (engine.inst i).memo ∨
      ∃ link ∈ site.incoming key, isReady engine i link = true ∧ link.text = text ∧
        site.takes link link.other key = true := by
  rw [hwires.mem_memo rfl h.accepts, and_iff_right rfl, and_iff_right hlength]
  refine or_congr_right ?_
  constructor
  · rintro ⟨candidate, hmem, htext, htakes⟩
    obtain ⟨link, hlink, source, hmemo, hsource, rfl⟩ := (mem_incomingOf h).mp hmem
    exact ⟨link, hlink, by simp [isReady, hmemo, hsource], htext,
      (takes_iff h _ rfl rfl hsource hself).mp htakes⟩
  · rintro ⟨link, hlink, hready, htext, htakes⟩
    simp only [isReady, Bool.and_eq_true, decide_eq_true_eq] at hready
    obtain ⟨source, hsource⟩ := Option.isSome_iff_exists.mp hready.2
    exact ⟨_, (mem_incomingOf h).mpr ⟨link, hlink, source, hready.1, hsource, rfl⟩, htext,
      (takes_iff h (site.incomingCandidate c link source) rfl rfl hsource hself).mpr htakes⟩

end Site

end InteractionBinding.Engine
