import InteractionBinding.Proofs.Wiring.Mounting
import InteractionBinding.Proofs.Wiring.Scoped
/-!
# Added items

The nodes that are added to a container below a connected key are wired by a pass that sees only
them. Where the rules bound to the container have one item selector and texts tell the links of the
key apart (`Site.Undivided`), the pass gives the key exactly the wires through the nodes that a full
pass would give it (`Site.Receives.mem_wires_addListItems`).
-/

namespace InteractionBinding.Engine

/-- Whether a link between two keys is bound to a container below a key. -/
def Link.isBound (link : Link) (source target key container : String) : Bool :=
  link.rule.listContainer = some container && source = key ||
    link.effect.effect.listContainer = some container && target = key

namespace Site

/-- The wires of a link from a key to a key that go through items. -/
def wiresThrough (site : Site) (link : Link) (source target : String) (items : List NodeId) :
    List Wire :=
  if (site.handlers.get? link.rule.trigger).isSome then
    ((pairsBetween site.dom link.rule link.effect.effect (site.nodeOf source)
      (site.nodeOf target)).filter fun pair => pair.item.any (· ∈ items)).map
        fun pair => ⟨pair.source, pair.target, link.id⟩
  else []

/-- A wire that a key has for items of a container, beside other keys: one through the items, of a
link that the key settles the text of the wire with and that is bound to the container. -/
def Supplies (site : Site) (key : String) (others : List String) (container : String)
    (items : List NodeId) (wire : Wire) : Prop :=
  (∃ link, (linksTo (site.outgoing key) key others wire.id.encode).getLast? = some link ∧
    link.isBound key link.other key container = true ∧
    wire ∈ site.wiresThrough link key link.other items) ∨
  ∃ link ∈ linksTo (site.incoming key) key others wire.id.encode,
    link.isBound link.other key key container = true ∧
    wire ∈ site.wiresThrough link link.other key items

/-- What is bound to a container of a key has one item selector, and texts tell the links of the key
apart: which side they are on, which of those that land on the key they are, and whether they are
bound to the container. -/
structure Undivided (site : Site) (key container : String) (item : Option String) : Prop where
  outgoing_item : ∀ link ∈ site.outgoing key, link.isBound key link.other key container = true →
    Pass.itemSelector link.rule link.effect.effect = item
  incoming_item : ∀ link ∈ site.incoming key, link.isBound link.other key key container = true →
    Pass.itemSelector link.rule link.effect.effect = item
  alike : ∀ link ∈ site.outgoing key, ∀ link' ∈ site.outgoing key, link.text = link'.text →
    link.isBound key link.other key container = link'.isBound key link'.other key container
  apart : ((site.incoming key).map Link.text).Nodup
  sides : ∀ link ∈ site.outgoing key, ∀ link' ∈ site.incoming key, link.text ≠ link'.text

variable {site : Site} {key container : String} {item : Option String}
  {others mounted : List String}
  {engine : Engine} {c : ControllerId} {items : List NodeId} {wire : Wire} {config : Config}

theorem mem_wiresThrough {link : Link} {source target : String} :
    wire ∈ site.wiresThrough link source target items ↔
      (site.handlers.get? link.rule.trigger).isSome ∧
        ∃ pair ∈ pairsBetween site.dom link.rule link.effect.effect (site.nodeOf source)
          (site.nodeOf target), (∃ node ∈ items, pair.item = some node) ∧
            (⟨pair.source, pair.target, link.id⟩ : Wire) = wire := by
  rw [wiresThrough]
  split
  next h =>
    simp only [List.mem_map, List.mem_filter, Option.any_eq_true, decide_eq_true_eq, h, true_and]
    grind
  next h => simp [h]

theorem mem_wires_of_mem_wiresThrough {link : Link} {source target : String}
    (h : wire ∈ site.wiresThrough link source target items) :
    wire ∈ site.wires link source target := by
  obtain ⟨hhandler, pair, hpair, -, hwire⟩ := mem_wiresThrough.mp h
  rw [Site.wires, if_pos hhandler]
  exact List.mem_map.mpr ⟨pair, hpair, hwire⟩

/-! ### Lists that a link joins -/

/-- A link of a source joins no two lists, unless they are the same list of the source. -/
theorem lists_of_mem_outgoing (hgraph : site.graph = .ofConfig config) {link : Link}
    (hlink : link ∈ site.outgoing key) {own other : String}
    (hrule : link.rule.listContainer = some own)
    (heffect : link.effect.effect.listContainer = some other) : own = other ∧ link.other = key := by
  rw [outgoing] at hlink
  split at hlink
  next => cases hlink
  next node hnode =>
    obtain ⟨interaction, htrigger, hlink⟩ := List.mem_flatMap.mp hlink
    obtain ⟨effect, heffect', rfl⟩ := List.mem_map.mp hlink
    obtain ⟨graphKey, -, hget⟩ := Option.bind_eq_some_iff.mp hnode
    rw [hgraph] at hget
    obtain ⟨haccepted, -⟩ := (Graph.mem_triggers_iff hget).mp htrigger
    have hjoins := Compile.joinsLists_of_mem_effects haccepted (List.mem_filter.mp heffect').1
    dsimp only at hrule heffect ⊢
    rw [Compile.joinsLists, hrule, heffect] at hjoins
    simp only [Bool.or_eq_false_iff, decide_eq_false_iff_not, not_not] at hjoins
    exact ⟨hjoins.2, if_pos hjoins.1⟩

/-- A link that lands on a key joins no two lists. -/
theorem lists_of_mem_incoming (hgraph : site.graph = .ofConfig config) {link : Link}
    (hlink : link ∈ site.incoming key) {own : String} (hrule : link.rule.listContainer = some own) :
    link.effect.effect.listContainer = none := by
  rw [incoming] at hlink
  split at hlink
  next => cases hlink
  next node hnode =>
    obtain ⟨entry, hentry, hmade⟩ := List.mem_filterMap.mp hlink
    obtain ⟨variant, hfind, rfl⟩ := Option.map_eq_some_iff.mp hmade
    obtain ⟨graphKey, -, hget⟩ := Option.bind_eq_some_iff.mp hnode
    rw [hgraph] at hget
    obtain ⟨ci, haccepted, effect, heffect, rfl, -, hkey, hother⟩ :=
      Graph.exists_effect_of_mem_variants hget hentry (List.mem_of_find?_eq_some hfind)
    have hjoins := Compile.joinsLists_of_mem_effects haccepted heffect
    dsimp only at hrule ⊢
    cases hlist : effect.effect.listContainer with
    | none => rfl
    | some other =>
      rw [Compile.joinsLists, hrule, hlist] at hjoins
      simp only [Bool.or_eq_false_iff, decide_eq_false_iff_not, not_not] at hjoins
      exact absurd (hjoins.1.symm.trans hkey) hother

/-! ### Passes over added nodes -/

theorem Hosts.eq_iff {a b : String} {d : ControllerId} (h : site.Hosts mounted engine.scene)
    (ha : engine.connectedController? a = some c) (hb : engine.connectedController? b = some d) :
    d = c ↔ b = a := by
  rw [connectedController?_eq, h.connectedController?_eq_some_iff] at ha hb
  constructor
  · rintro rfl
    exact Option.some.inj (hb.1.symm.trans ha.1)
  · rintro rfl
    have hregistered := h.connected _ _ ha.1 ha.2
    exact Option.some.inj ((h.connected _ _ hb.1 hb.2).symm.trans hregistered)

theorem admits_outgoingCandidate (h : site.Hosts mounted engine.scene)
    (hself : engine.connectedController? key = some c) {link : Link} {target : ControllerId}
    (htarget : engine.connectedController? link.other = some target) :
    Pass.admits ⟨c, container, items⟩ (site.outgoingCandidate c link target) =
      link.isBound key link.other key container := by
  change (decide (link.rule.listContainer = some container) && decide (c = c) ||
    decide (link.effect.effect.listContainer = some container) && decide (target = c)) = _
  simp only [Link.isBound, h.eq_iff hself htarget]

theorem admits_incomingCandidate (h : site.Hosts mounted engine.scene)
    (hself : engine.connectedController? key = some c) {link : Link} {source : ControllerId}
    (hsource : engine.connectedController? link.other = some source) :
    Pass.admits ⟨c, container, items⟩ (site.incomingCandidate c link source) =
      link.isBound link.other key key container := by
  change (decide (link.rule.listContainer = some container) && decide (source = c) ||
    decide (link.effect.effect.listContainer = some container) && decide (c = c)) = _
  simp only [Link.isBound, h.eq_iff hself hsource]

theorem unjoined_outgoingCandidate (hgraph : site.graph = .ofConfig config)
    (hself : engine.connectedController? key = some c) {link : Link} {target : ControllerId}
    (hlink : link ∈ site.outgoing key)
    (htarget : engine.connectedController? link.other = some target) :
    Pass.Unjoined (site.outgoingCandidate c link target) := by
  intro own other hrule heffect
  obtain ⟨hsame, hother⟩ := lists_of_mem_outgoing hgraph hlink hrule heffect
  rw [hother, hself] at htarget
  exact ⟨hsame, Option.some.inj htarget⟩

theorem unjoined_incomingCandidate (hgraph : site.graph = .ofConfig config) {link : Link}
    {source : ControllerId} (hlink : link ∈ site.incoming key) :
    Pass.Unjoined (site.incomingCandidate c link source) := by
  intro own other hrule heffect
  exact absurd ((lists_of_mem_incoming hgraph hlink hrule).symm.trans heffect) (by simp)

/-- In a scope a candidate of a link is wired through the nodes of the scope. -/
theorem exists_proposal_scoped_iff (h : site.Hosts mounted engine.scene) {scope : ListScope}
    (candidate : Candidate) {link : Link} {source target : String} (hid : candidate.id = link.id)
    (hrule : candidate.rule = link.rule) (heffect : candidate.effect = link.effect)
    (hsource : engine.connectedController? source = some candidate.source)
    (htarget : engine.connectedController? target = some candidate.target)
    (hadmits : Pass.admits scope candidate = true) (hunjoined : Pass.Unjoined candidate)
    (hself : engine.connectedController? key = some scope.owner)
    (hnodes : scope.nodes ⊆ site.dom.queryAll (site.nodeOf key)
      (itemsSelector scope.container (Pass.itemSelector link.rule link.effect.effect))) :
    (∃ proposal ∈ (Pass.mk 0 (some scope)).proposals engine.scene candidate,
      proposal.wire = wire) ↔ wire ∈ site.wiresThrough link source target scope.nodes := by
  have hanchor : engine.scene.anchor scope.owner = some (site.nodeOf key) :=
    h.onSite.anchored key _ (connectedController?_eq engine key ▸ hself)
  have hpairs (pair : NodePair) :
      pair ∈ (Pass.mk 0 (some scope)).pairsIn engine.scene candidate ↔ _ :=
    Pass.mem_pairsIn_scoped hadmits hunjoined hanchor (h.onSite.dom ▸ hrule ▸ heffect ▸ hnodes)
  simp only [Site.pairsIn_eq h.onSite hsource htarget, hrule, heffect] at hpairs
  have hhandlers := h.onSite.handlers
  simp only [Pass.mem_proposals, mem_wiresThrough, hpairs, hhandlers, hrule]
  constructor
  · rintro ⟨⟨_, handler, pair⟩, ⟨rfl, hhandler, hpair, hnode⟩, rfl⟩
    exact ⟨Option.isSome_of_eq_some hhandler, pair, hpair, hnode, by rw [← hid]; rfl⟩
  · rintro ⟨hhandler, pair, hpair, hnode, rfl⟩
    obtain ⟨handler, hhandler⟩ := Option.isSome_iff_exists.mp hhandler
    exact ⟨⟨candidate, handler, pair⟩, ⟨rfl, hhandler, hpair, hnode⟩, by rw [← hid]; rfl⟩

theorem Hosts.compiled (h : site.Hosts mounted engine.scene)
    (hgraph : site.graph = .ofConfig config) :
    engine.Compiled := by
  intro i
  cases i with
  | zero => exact ⟨config, (graph_inst_eq engine 0).trans (h.graph.trans hgraph)⟩
  | succ i =>
    refine ⟨.empty, ?_⟩
    rw [inst_eq_default (h.length_instances ▸ Nat.le_add_left 1 i)]
    rfl

/-- A connected key of which a container has received items. None of the items is wired yet. -/
structure Receives (site : Site) (key container : String) (item : Option String)
    (others : List String) (items : List NodeId) (c : ControllerId) (engine : Engine) : Prop where
  hosts : ∃ mounted, site.Hosts mounted engine.scene
  compiled : ∃ config, site.graph = .ofConfig config
  self : engine.connectedController? key = some c
  connected (other : String) : (engine.connectedController? other).isSome ↔ other ∈ key :: others
  undivided : site.Undivided key container item
  found : items ⊆ site.dom.queryAll (site.nodeOf key) (itemsSelector container item)
  unwired (text : String) : engine.Unwired c text items

namespace Receives

variable {middle : Engine}

/-- The engine in which the instance has applied nothing. -/
private def unapplied (engine : Engine) : Engine :=
  engine.modifyInstance 0 fun inst => { inst with memo := [] }

private theorem scene_unapplied (engine : Engine) : (unapplied engine).scene = engine.scene :=
  scene_modifyInstance fun _ => rfl

private theorem connectedController?_unapplied (engine : Engine) (other : String) :
    (unapplied engine).connectedController? other = engine.connectedController? other := by
  rw [connectedController?_eq, connectedController?_eq, scene_unapplied]

private theorem memo_unapplied (h : site.Hosts mounted engine.scene) :
    ((unapplied engine).inst 0).memo = [] := by
  rw [unapplied, inst_modifyInstance_eq, if_pos ⟨rfl, h.length_instances ▸ Nat.one_pos⟩]

theorem mem_outgoingOf (h : site.Receives key container item others items c engine)
    {candidate : Candidate} :
    candidate ∈ (Pass.mk 0 (some ⟨c, container, items⟩)).outgoingOf engine c key ↔
      ∃ link target, (linksTo (site.outgoing key) key others link.text).getLast? = some link ∧
        engine.connectedController? link.other = some target ∧
        link.isBound key link.other key container = true ∧
        candidate = site.outgoingCandidate c link target := by
  obtain ⟨mounted, hhosts⟩ := h.hosts
  have hscene := scene_unapplied engine
  have honsite : OnSite site 0 (unapplied engine).scene := hscene ▸ hhosts.onSite
  have hpartner := connectedController?_unapplied engine
  have hself := (hpartner key).trans h.self
  have hmemo := memo_unapplied hhosts
  rw [Pass.mem_outgoingOf_scoped hscene hmemo, Site.mem_outgoingOf honsite hself]
  · have hselects {link : Link} : site.Selects (unapplied engine) 0 key link ↔
        (linksTo (site.outgoing key) key others link.text).getLast? = some link := by
      rw [selects_iff (fun other => by rw [hpartner, h.connected]), hmemo]
      exact and_iff_right List.not_mem_nil
    simp only [hselects, hpartner]
    constructor
    · rintro ⟨⟨link, target, hlast, htarget, rfl⟩, hadmits⟩
      rw [admits_outgoingCandidate hhosts h.self htarget] at hadmits
      exact ⟨link, target, hlast, htarget, hadmits, rfl⟩
    · rintro ⟨link, target, hlast, htarget, hbound, rfl⟩
      refine ⟨⟨link, target, hlast, htarget, rfl⟩, ?_⟩
      rw [admits_outgoingCandidate hhosts h.self htarget, hbound]
  · intro node hnode first hfirst second hsecond htext
    rw [Pass.node?_eq, honsite.graph] at hnode
    rw [Site.offered_eq honsite hself hnode] at hfirst hsecond
    simp only [hmemo, List.not_mem_nil, if_false, hpartner] at hfirst hsecond
    obtain ⟨link, hlink, hmade⟩ := List.mem_filterMap.mp hfirst
    obtain ⟨target, htarget, rfl⟩ := Option.map_eq_some_iff.mp hmade
    obtain ⟨link', hlink', hmade'⟩ := List.mem_filterMap.mp hsecond
    obtain ⟨target', htarget', rfl⟩ := Option.map_eq_some_iff.mp hmade'
    rw [admits_outgoingCandidate hhosts h.self htarget,
      admits_outgoingCandidate hhosts h.self htarget']
    exact h.undivided.alike link hlink link' hlink' htext

theorem mem_incomingOf (h : site.Receives key container item others items c engine)
    (hmiddle : middle.scene = engine.scene) {candidate : Candidate} :
    candidate ∈ (Pass.mk 0 (some ⟨c, container, items⟩)).incomingOf middle c key ↔
      ∃ link ∈ site.incoming key, ∃ source,
        engine.connectedController? link.other = some source ∧
        link.isBound link.other key key container = true ∧
        candidate = site.incomingCandidate c link source := by
  obtain ⟨mounted, hhosts⟩ := h.hosts
  have hscene := scene_unapplied engine
  have honsite : OnSite site 0 (unapplied engine).scene := hscene ▸ hhosts.onSite
  have hpartner := connectedController?_unapplied engine
  have hmemo := memo_unapplied hhosts
  rw [Pass.mem_incomingOf_scoped (hscene.trans hmiddle.symm) hmemo, Site.mem_incomingOf honsite]
  simp only [hmemo, List.not_mem_nil, not_false_eq_true, true_and, hpartner]
  constructor
  · rintro ⟨⟨link, hlink, source, hsource, rfl⟩, hadmits⟩
    rw [admits_incomingCandidate hhosts h.self hsource] at hadmits
    exact ⟨link, hlink, source, hsource, hadmits, rfl⟩
  · rintro ⟨link, hlink, source, hsource, hbound, rfl⟩
    refine ⟨⟨link, hlink, source, hsource, rfl⟩, ?_⟩
    rw [admits_incomingCandidate hhosts h.self hsource, hbound]

theorem wireable_outgoing (h : site.Receives key container item others items c engine)
    {candidate : Candidate}
    (hmem : candidate ∈ (Pass.mk 0 (some ⟨c, container, items⟩)).outgoingOf engine c key) :
    (Pass.mk 0 (some ⟨c, container, items⟩)).Wireable engine.scene ⟨c, container, items⟩
      candidate := by
  obtain ⟨mounted, hhosts⟩ := h.hosts
  obtain ⟨config, hgraph⟩ := h.compiled
  obtain ⟨link, target, hlast, htarget, hbound, rfl⟩ := h.mem_outgoingOf.mp hmem
  obtain ⟨hlink, -, -⟩ := mem_linksTo.mp (List.mem_of_getLast? hlast)
  refine Pass.wireable_of_admits ?_ (unjoined_outgoingCandidate hgraph h.self hlink htarget)
    (hhosts.onSite.anchored key c (connectedController?_eq engine key ▸ h.self)) ?_
  · rw [admits_outgoingCandidate hhosts h.self htarget, hbound]
  · rw [hhosts.onSite.dom]
    exact (h.undivided.outgoing_item link hlink hbound).symm ▸ h.found

theorem wireable_incoming (h : site.Receives key container item others items c engine)
    (hmiddle : middle.scene = engine.scene) {candidate : Candidate}
    (hmem : candidate ∈ (Pass.mk 0 (some ⟨c, container, items⟩)).incomingOf middle c key) :
    (Pass.mk 0 (some ⟨c, container, items⟩)).Wireable engine.scene ⟨c, container, items⟩
      candidate := by
  obtain ⟨mounted, hhosts⟩ := h.hosts
  obtain ⟨config, hgraph⟩ := h.compiled
  obtain ⟨link, hlink, source, hsource, hbound, rfl⟩ := (h.mem_incomingOf hmiddle).mp hmem
  refine Pass.wireable_of_admits ?_ (unjoined_incomingCandidate hgraph hlink)
    (hhosts.onSite.anchored key c (connectedController?_eq engine key ▸ h.self)) ?_
  · rw [admits_incomingCandidate hhosts h.self hsource, hbound]
  · rw [hhosts.onSite.dom]
    exact (h.undivided.incoming_item link hlink hbound).symm ▸ h.found

/-- The candidates that land on the key have different texts. -/
theorem nodup_incomingOf (h : site.Receives key container item others items c engine)
    (hmiddle : middle.scene = engine.scene) :
    (((Pass.mk 0 (some ⟨c, container, items⟩)).incomingOf middle c key).map
      Candidate.memoKey).Nodup := by
  obtain ⟨mounted, hhosts⟩ := h.hosts
  obtain ⟨config, hgraph⟩ := h.compiled
  have hcompiled : middle.Compiled :=
    (hmiddle ▸ hhosts : site.Hosts mounted middle.scene).compiled hgraph
  refine List.Nodup.map_on ?_ (Pass.nodup_id_incomingOf hcompiled).of_map
  intro first hfirst second hsecond htext
  obtain ⟨link, hlink, source, hsource, -, rfl⟩ := (h.mem_incomingOf hmiddle).mp hfirst
  obtain ⟨link', hlink', source', hsource', -, rfl⟩ := (h.mem_incomingOf hmiddle).mp hsecond
  obtain rfl := List.inj_on_of_nodup_map h.undivided.apart hlink hlink' htext
  obtain rfl := Option.some.inj (hsource.symm.trans hsource')
  rfl

theorem mem_outgoing_wires (h : site.Receives key container item others items c engine) :
    (∃ candidate ∈ (Pass.mk 0 (some ⟨c, container, items⟩)).outgoingOf engine c key,
      ∃ proposal ∈ (Pass.mk 0 (some ⟨c, container, items⟩)).proposals engine.scene candidate,
        proposal.wire = wire) ↔
      ∃ link, (linksTo (site.outgoing key) key others wire.id.encode).getLast? = some link ∧
        link.isBound key link.other key container = true ∧
        wire ∈ site.wiresThrough link key link.other items := by
  obtain ⟨mounted, hhosts⟩ := h.hosts
  obtain ⟨config, hgraph⟩ := h.compiled
  have hproposal {link : Link} {target : ControllerId} (hlink : link ∈ site.outgoing key)
      (htarget : engine.connectedController? link.other = some target)
      (hbound : link.isBound key link.other key container = true) :
      _ ↔ wire ∈ site.wiresThrough link key link.other items :=
    exists_proposal_scoped_iff hhosts (site.outgoingCandidate c link target) rfl rfl
      rfl h.self htarget ((admits_outgoingCandidate hhosts h.self htarget).trans hbound)
      (unjoined_outgoingCandidate hgraph h.self hlink htarget) h.self
      ((h.undivided.outgoing_item link hlink hbound).symm ▸ h.found)
  constructor
  · rintro ⟨candidate, hmem, hwire⟩
    obtain ⟨link, target, hlast, htarget, hbound, rfl⟩ := h.mem_outgoingOf.mp hmem
    have hlink := (mem_linksTo.mp (List.mem_of_getLast? hlast)).1
    have hthrough := (hproposal hlink htarget hbound).mp hwire
    rw [Link.text, ← id_eq_of_mem_wires (mem_wires_of_mem_wiresThrough hthrough)] at hlast
    exact ⟨link, hlast, hbound, hthrough⟩
  · rintro ⟨link, hlast, hbound, hthrough⟩
    obtain ⟨hlink, htext, hother⟩ := mem_linksTo.mp (List.mem_of_getLast? hlast)
    obtain ⟨target, htarget⟩ := Option.isSome_iff_exists.mp ((h.connected _).mpr hother)
    exact ⟨_, h.mem_outgoingOf.mpr ⟨link, target, htext ▸ hlast, htarget, hbound, rfl⟩,
      (hproposal hlink htarget hbound).mpr hthrough⟩

theorem mem_incoming_wires (h : site.Receives key container item others items c engine)
    (hmiddle : middle.scene = engine.scene) :
    (∃ candidate ∈ (Pass.mk 0 (some ⟨c, container, items⟩)).incomingOf middle c key,
      ∃ proposal ∈ (Pass.mk 0 (some ⟨c, container, items⟩)).proposals engine.scene candidate,
        proposal.wire = wire) ↔
      ∃ link ∈ linksTo (site.incoming key) key others wire.id.encode,
        link.isBound link.other key key container = true ∧
        wire ∈ site.wiresThrough link link.other key items := by
  obtain ⟨mounted, hhosts⟩ := h.hosts
  obtain ⟨config, hgraph⟩ := h.compiled
  have hproposal {link : Link} {source : ControllerId} (hlink : link ∈ site.incoming key)
      (hsource : engine.connectedController? link.other = some source)
      (hbound : link.isBound link.other key key container = true) :
      _ ↔ wire ∈ site.wiresThrough link link.other key items :=
    exists_proposal_scoped_iff hhosts (site.incomingCandidate c link source) rfl rfl
      rfl hsource h.self ((admits_incomingCandidate hhosts h.self hsource).trans hbound)
      (unjoined_incomingCandidate hgraph hlink) h.self
      ((h.undivided.incoming_item link hlink hbound).symm ▸ h.found)
  constructor
  · rintro ⟨candidate, hmem, hwire⟩
    obtain ⟨link, hlink, source, hsource, hbound, rfl⟩ := (h.mem_incomingOf hmiddle).mp hmem
    have hthrough := (hproposal hlink hsource hbound).mp hwire
    have hid := id_eq_of_mem_wires (mem_wires_of_mem_wiresThrough hthrough)
    have hother := (h.connected link.other).mp (Option.isSome_of_eq_some hsource)
    exact ⟨link, mem_linksTo.mpr ⟨hlink, by rw [Link.text, hid], hother⟩, hbound, hthrough⟩
  · rintro ⟨link, hlink, hbound, hthrough⟩
    obtain ⟨hlink, -, hother⟩ := mem_linksTo.mp hlink
    obtain ⟨source, hsource⟩ := Option.isSome_iff_exists.mp ((h.connected _).mpr hother)
    exact ⟨_, (h.mem_incomingOf hmiddle).mpr ⟨link, hlink, source, hsource, hbound, rfl⟩,
      (hproposal hlink hsource hbound).mpr hthrough⟩

/-- What lands on the key has other texts than what it sends. -/
theorem not_mem_outgoing (h : site.Receives key container item others items c engine)
    (hmiddle : middle.scene = engine.scene) {candidate : Candidate}
    (hmem : candidate ∈ (Pass.mk 0 (some ⟨c, container, items⟩)).incomingOf middle c key) :
    candidate.memoKey ∉
      ((Pass.mk 0 (some ⟨c, container, items⟩)).outgoingOf engine c key).map Candidate.memoKey := by
  intro hsame
  obtain ⟨other, hother, htext⟩ := List.mem_map.mp hsame
  obtain ⟨link, target, hlast, -, -, rfl⟩ := h.mem_outgoingOf.mp hother
  obtain ⟨link', hlink', source, -, -, rfl⟩ := (h.mem_incomingOf hmiddle).mp hmem
  exact h.undivided.sides link (mem_linksTo.mp (List.mem_of_getLast? hlast)).1 link' hlink' htext

/-- Adding the items gives the key what it has for them. -/
theorem mem_wires_addListItems (h : site.Receives key container item others items c engine) :
    (engine.addListItems c key container items).scene = engine.scene ∧
      ∀ wire, wire ∈ (engine.addListItems c key container items).wires ↔
        wire ∈ engine.wires ∨ site.Supplies key others container items wire := by
  obtain ⟨mounted, hhosts⟩ := h.hosts
  rw [addListItems, hhosts.instancesFor_eq]
  cases hnode : site.graph.get? key with
  | none =>
    refine ⟨rfl, fun wire => ?_⟩
    have hnone : ¬site.Supplies key others container items wire := by
      simp [Supplies, outgoing, incoming, hnode, linksTo]
    exact (or_iff_left hnone).symm
  | some node =>
    rw [Option.isSome_some, if_pos rfl, List.foldl_cons, List.foldl_nil]
    have hscope : (Pass.mk 0 (some ⟨c, container, items⟩)).scope = some ⟨c, container, items⟩ := rfl
    have hout := Pass.gains_resolveOutgoing hscope hhosts.accepts
      (fun _ => h.wireable_outgoing) fun _ _ => h.unwired _
    have hin := Pass.gains_resolveIncoming hscope (h.nodup_incomingOf hout.scene)
      (hout.scene ▸ hhosts.accepts) (hout.scene ▸ fun _ => h.wireable_incoming hout.scene)
      fun candidate hmem => hout.unwired (h.unwired _) (h.not_mem_outgoing hout.scene hmem)
    rw [hout.scene] at hin
    refine ⟨(hout.trans hin).scene, fun wire => ?_⟩
    rw [(hout.trans hin).wires, Supplies, ← h.mem_outgoing_wires, ← h.mem_incoming_wires hout.scene]
    simp only [List.mem_append, List.mem_map, List.mem_flatMap]
    grind

end Receives

end Site

end InteractionBinding.Engine
