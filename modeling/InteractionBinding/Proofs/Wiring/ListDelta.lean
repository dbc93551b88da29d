import InteractionBinding.Document
import InteractionBinding.Proofs.Wiring.AddedItems
import InteractionBinding.Proofs.Wiring.Reconnecting
/-!
# Changes of a list

When the children of a container change, the removed nodes are torn down and the added ones are
wired. A controller is current if an update of it would leave the wires as they are
(`Engine.IsCurrent`), as it is after every update (`Site.Hosts.isCurrent_update`). The owner of the
container stays current if the change concerns no other wires of it than those through items
(`Site.Alters`) and all that is bound to the container has the item selector of the observation
(`Engine.isCurrent_childListChanged`).

An observation keeps the item selector of the rule that asked for it first, so a rule with another
one misses nodes that are added later.
-/

namespace InteractionBinding.Engine

/-- An update of a controller leaves the wires as they are. -/
def IsCurrent (engine : Engine) (c : ControllerId) : Prop :=
  ∀ wire, wire ∈ (engine.update c).1.wires ↔ wire ∈ engine.wires

namespace Site

/-- The site with another document. -/
def reading (site : Site) (dom : Dom) : Site := { site with dom := dom }

/-- Whether a teardown of nodes ends a wire. -/
def Severs (site : Site) (nodes : List NodeId) (wire : Wire) : Prop :=
  ∃ handler ∈ site.handlers.all, ∃ node ∈ nodes, wire.touches node = true

/-- The nodes that an observation takes for items. -/
def itemsAmong (dom : Dom) (observation : Observation) (nodes : List NodeId) : List NodeId :=
  nodes.filter fun node =>
    observation.itemSelector.all fun selector => dom.matchesSelector node selector

/-- The wires of a link change with the document by the removal of nodes and, if the link is bound
to a container, by its items. -/
structure Turns (site : Site) (dom : Dom) (items removed : List NodeId) (link : Link)
    (source target : String) (bound : Bool) : Prop where
  kept : ∀ wire ∈ site.wires link source target,
    (∀ node ∈ removed, wire.touches node = false) →
      wire ∈ (site.reading dom).wires link source target
  gained : ∀ wire ∈ (site.reading dom).wires link source target,
    wire ∈ site.wires link source target ∧ (∀ node ∈ removed, wire.touches node = false) ∨
      bound = true ∧ wire ∈ (site.reading dom).wiresThrough link source target items

/-- A document in which the children of an observed container below a key have changed: what has
been added and is taken for an item is one, and the other wires of the key are those of before that
do not end at removed nodes. -/
structure Alters (site : Site) (dom : Dom) (key : String) (observation : Observation)
    (added removed : List NodeId) : Prop where
  found : itemsAmong dom observation added ⊆ dom.queryAll (site.nodeOf key)
    (itemsSelector observation.containerSelector observation.itemSelector)
  outgoing : ∀ link ∈ site.outgoing key, site.Turns dom (itemsAmong dom observation added) removed
    link key link.other (link.isBound key link.other key observation.containerSelector)
  incoming : ∀ link ∈ site.incoming key, site.Turns dom (itemsAmong dom observation added) removed
    link link.other key (link.isBound link.other key key observation.containerSelector)

instance (site : Site) (dom : Dom) (items removed : List NodeId) (link : Link)
    (source target : String) (bound : Bool) :
    Decidable (site.Turns dom items removed link source target bound) :=
  decidable_of_iff
    ((∀ wire ∈ site.wires link source target, (∀ node ∈ removed, wire.touches node = false) →
        wire ∈ (site.reading dom).wires link source target) ∧
      ∀ wire ∈ (site.reading dom).wires link source target,
        wire ∈ site.wires link source target ∧ (∀ node ∈ removed, wire.touches node = false) ∨
          bound = true ∧ wire ∈ (site.reading dom).wiresThrough link source target items)
    ⟨fun ⟨kept, gained⟩ => ⟨kept, gained⟩, fun ⟨kept, gained⟩ => ⟨kept, gained⟩⟩

variable {site : Site} {key : String} {others mounted : List String} {engine : Engine}
  {c : ControllerId} {wire : Wire} {config : Config} {dom : Dom} {observation : Observation}
  {added removed nodes : List NodeId}

theorem not_severs_iff : ¬site.Severs nodes wire ↔
    ∀ handler ∈ site.handlers.all, ∀ node ∈ nodes, wire.touches node = false := by
  simp [Severs]

/-! ### Updates -/

/-- A connected key and the other connected ones. -/
theorem Hosts.exists_others (h : site.Hosts mounted engine.scene)
    (hself : engine.connectedController? key = some c) :
    ∃ others, ∀ other, engine.scene.IsConnected other ↔ other ∈ key :: others := by
  have hkey : engine.scene.IsConnected key :=
    Option.isSome_of_eq_some (connectedController?_eq engine key ▸ hself)
  refine ⟨mounted.filter fun other => (engine.scene.connectedController? other).isSome,
    fun other => ?_⟩
  rw [List.mem_cons, h.mem_filter_connected, or_iff_right_of_imp fun hother => hother ▸ hkey]

/-- After an update of a connected key it has the wires that it offers, and of the other wires those
are left that do not end at its nodes. -/
theorem Hosts.mem_wires_update (h : site.Hosts mounted engine.scene)
    (hgraph : site.graph = .ofConfig config) (hself : engine.connectedController? key = some c)
    (hothers : ∀ other, engine.scene.IsConnected other ↔ other ∈ key :: others) :
    wire ∈ (engine.update c).1.wires ↔
      wire ∈ engine.wires ∧ ¬site.Severs (site.ownedNodes key) wire ∨
        ∃ wires, site.offer key others wire.id.encode = some wires ∧ wire ∈ wires := by
  rw [connectedController?_eq] at hself
  obtain ⟨hregistered, hconnected⟩ := Option.filter_eq_some_iff.mp hself
  have hparts := parts_disconnect h.toSeated hregistered false
  obtain ⟨after, hjoins, heq⟩ := h.exists_joins_update hregistered
  have hoff (other : String) : (engine.disconnect c false).scene.IsConnected other ↔
      other ∈ others.filter (· ≠ key) := by
    rw [hparts.isConnected_iff h.toSeated hregistered, hothers]
    by_cases hother : other = key <;> simp [hother]
  have hoffer : site.offer key (others.filter (· ≠ key)) wire.id.encode =
      site.offer key others wire.id.encode :=
    offer_congr fun other => by by_cases hother : other = key <;> simp [hother]
  rw [heq, ((h.disconnect hregistered).settles hjoins hoff).wires, hparts.wires, hoffer,
    h.mem_memo_disconnect hregistered, not_severs_iff]
  refine or_congr (and_congr_right fun _ => ?_) (and_iff_right_of_imp ?_)
  · have hhandlers : engine.host.handlers = site.handlers := h.handlers
    simp only [hhandlers, h.mem_ownedNodes_iff hregistered]
    exact imp_iff_right hconnected
  · rintro ⟨wires, hwires, -⟩ ⟨-, hforgotten⟩
    exact hforgotten (mem_texts_of_isSome_offer hgraph (Option.isSome_of_eq_some hwires))

/-- A controller is current after an update of it. -/
theorem Hosts.isCurrent_update (h : site.Hosts mounted engine.scene)
    (hgraph : site.graph = .ofConfig config) (hself : engine.connectedController? key = some c) :
    (engine.update c).1.IsCurrent c := by
  have hregistered : engine.scene.registry.get? key = some c :=
    (Option.filter_eq_some_iff.mp (connectedController?_eq engine key ▸ hself)).1
  obtain ⟨after, hjoins, heq⟩ := h.exists_joins_update hregistered
  have hself' : (engine.update c).1.connectedController? key = some c := by
    rw [connectedController?_eq, heq, scene_foldl_resolveIn, ← connectedController?_eq]
    exact hjoins.connectedController?_self
  obtain ⟨hhosts, hconnected⟩ := h.update hregistered
  obtain ⟨others, hothers⟩ := h.exists_others hself
  have hothers' (other : String) : (engine.update c).1.scene.IsConnected other ↔
      other ∈ key :: others := by
    rw [hconnected, hothers, List.mem_cons, or_self_left]
  intro wire
  rw [hhosts.mem_wires_update hgraph hself' hothers', h.mem_wires_update hgraph hself hothers]
  tauto

/-! ### Deliveries -/

theorem not_supplies_nil {container : String} : ¬site.Supplies key others container [] wire := by
  simp [Supplies, mem_wiresThrough]

/-- The engine once removed nodes are torn down and their owner has forgotten them. -/
def unlisted (engine : Engine) (c : ControllerId) (removed : List NodeId) : Engine :=
  (engine.teardown removed).modifyController c (·.forgetItems removed)

theorem scene_unlisted (engine : Engine) (c : ControllerId) (removed : List NodeId) :
    (unlisted engine c removed).scene = engine.scene := by
  rw [unlisted, scene_modifyController (f := (·.forgetItems removed)) fun _ => rfl, scene_teardown]

theorem mem_wires_unlisted (hhandlers : engine.host.handlers = site.handlers) :
    wire ∈ (unlisted engine c removed).wires ↔ wire ∈ engine.wires ∧ ¬site.Severs removed wire := by
  rw [not_severs_iff, ← hhandlers, ← mem_wires_teardown]
  rfl

theorem controller_unlisted (hc : c < engine.controllers.length) :
    (unlisted engine c removed).controller c = (engine.controller c).forgetItems removed := by
  have htorn : (engine.teardown removed).controllers = engine.controllers := by
    rw [teardown, foldl_tell]
    rfl
  rw [unlisted, controller_modifyController_eq, htorn, if_pos ⟨rfl, hc⟩, controller, htorn]
  rfl

/-- An observation that is told of a change ends the wires of the removed nodes, and gives its owner
what it has for the added ones. -/
theorem Hosts.mem_wires_onChildList (h : site.Hosts mounted engine.scene)
    (hgraph : site.graph = .ofConfig config)
    (hself : engine.connectedController? key = some observation.owner)
    (hothers : ∀ other, engine.scene.IsConnected other ↔ other ∈ key :: others)
    (hundivided : site.Undivided key observation.containerSelector observation.itemSelector)
    (hfound : itemsAmong site.dom observation added ⊆ site.dom.queryAll (site.nodeOf key)
      (itemsSelector observation.containerSelector observation.itemSelector))
    (hnew : ∀ entry ∈ (engine.controller observation.owner).wiredItems,
      entry.2 ∈ itemsAmong site.dom observation added → entry.2 ∈ removed) :
    (onChildList observation added removed engine).scene = engine.scene ∧
      ∀ wire, wire ∈ (onChildList observation added removed engine).wires ↔
        wire ∈ engine.wires ∧ ¬site.Severs removed wire ∨
          site.Supplies key others observation.containerSelector
            (itemsAmong site.dom observation added) wire := by
  have hself' := connectedController?_eq engine key ▸ hself
  obtain ⟨hregistered, hconnected⟩ := Option.filter_eq_some_iff.mp hself'
  obtain ⟨hlength, hkey, -⟩ := registered_spec h.toSeated hregistered
  have hrunning : engine.running = true := h.running
  have hconnected' : (engine.controller observation.owner).connected = true := by
    rw [scene_controller] at hconnected
    exact hconnected
  have htorn : (engine.teardown removed).modifyController observation.owner
      (·.forgetItems removed) = unlisted engine observation.owner removed := rfl
  have hscene := scene_unlisted engine observation.owner removed
  have hdom : (unlisted engine observation.owner removed).host.dom = site.dom :=
    (congrArg Scene.dom hscene).trans h.dom
  have hwires (wire : Wire) : wire ∈ (unlisted engine observation.owner removed).wires ↔ _ :=
    mem_wires_unlisted h.handlers
  have hitems : added.filter (fun node => observation.itemSelector.all fun selector =>
      site.dom.matchesSelector node selector) = itemsAmong site.dom observation added := rfl
  simp only [onChildList, hrunning, hconnected', hkey, Bool.and_self, htorn, hdom, hitems]
  generalize itemsAmong site.dom observation added = items at hfound hnew
  split
  next hempty =>
    rw [List.isEmpty_iff] at hempty
    exact ⟨hscene, fun wire => by rw [hwires, hempty, or_iff_left not_supplies_nil]⟩
  next =>
    have hreceives : site.Receives key observation.containerSelector observation.itemSelector others
        items observation.owner (unlisted engine observation.owner removed) := by
      refine ⟨⟨mounted, hscene ▸ h⟩, ⟨config, hgraph⟩, ?_, fun other => ?_, hundivided, hfound, ?_⟩
      · rw [connectedController?_eq, hscene]
        exact hself'
      · rw [connectedController?_eq, hscene]
        exact hothers other
      · intro text item hitem hentry
        rw [controller_unlisted hlength, Controller.forgetItems, List.mem_filter,
          decide_eq_true_eq] at hentry
        exact hentry.2 (hnew _ hentry.1 hitem)
    obtain ⟨hadded, hsupplied⟩ := hreceives.mem_wires_addListItems
    exact ⟨hadded.trans hscene, fun wire => by rw [hsupplied, hwires]⟩

/-! ### Changes of the document -/

theorem Undivided.reading {container : String} {item : Option String}
    (h : site.Undivided key container item) (dom : Dom) :
    (site.reading dom).Undivided key container item :=
  ⟨h.outgoing_item, h.incoming_item, h.alike, h.apart, h.sides⟩

/-- Where texts tell the sides of a key apart, the key offers the wires of its links for a text. -/
theorem Undivided.exists_mem_offer_iff {container : String} {item : Option String}
    (h : site.Undivided key container item) :
    (∃ wires, site.offer key others wire.id.encode = some wires ∧ wire ∈ wires) ↔
      (∃ link, (linksTo (site.outgoing key) key others wire.id.encode).getLast? = some link ∧
        wire ∈ site.wires link key link.other) ∨
      ∃ link ∈ linksTo (site.incoming key) key others wire.id.encode,
        wire ∈ site.wires link link.other key := by
  rw [Site.exists_mem_offer_iff]
  refine or_congr_right (and_iff_right_of_imp ?_)
  rintro ⟨link, hlink, -⟩ ⟨link', hlast, -⟩
  obtain ⟨hlink, htext, -⟩ := mem_linksTo.mp hlink
  obtain ⟨hlink', htext', -⟩ := mem_linksTo.mp (List.mem_of_getLast? hlast)
  exact h.sides link' hlink' link hlink (htext'.trans htext.symm)

theorem Turns.mem_wires_iff {items : List NodeId} {link : Link} {source target : String}
    {bound : Bool} (h : site.Turns dom items removed link source target bound) :
    wire ∈ (site.reading dom).wires link source target ↔
      wire ∈ site.wires link source target ∧ ¬site.Severs removed wire ∨
        bound = true ∧ wire ∈ (site.reading dom).wiresThrough link source target items := by
  rw [not_severs_iff]
  constructor
  · intro hwire
    exact (h.gained wire hwire).imp_left (And.imp_right fun huntouched _ _ => huntouched)
  · rintro (⟨hwire, huntouched⟩ | ⟨-, hthrough⟩)
    · obtain ⟨handler, hhandler⟩ := exists_handler_of_mem_wires hwire
      exact h.kept wire hwire (huntouched handler hhandler)
    · exact mem_wires_of_mem_wiresThrough hthrough

/-- After the change a key offers what it has offered and what does not end at removed nodes, and
what it has for the added items. -/
theorem Alters.exists_mem_offer_iff (h : site.Alters dom key observation added removed)
    (hundivided : site.Undivided key observation.containerSelector observation.itemSelector) :
    (∃ wires, (site.reading dom).offer key others wire.id.encode = some wires ∧ wire ∈ wires) ↔
      (∃ wires, site.offer key others wire.id.encode = some wires ∧ wire ∈ wires) ∧
          ¬site.Severs removed wire ∨
        (site.reading dom).Supplies key others observation.containerSelector
          (itemsAmong dom observation added) wire := by
  rw [(hundivided.reading dom).exists_mem_offer_iff, hundivided.exists_mem_offer_iff, Supplies]
  have houtgoing {link : Link}
      (hlast : (linksTo (site.outgoing key) key others wire.id.encode).getLast? = some link) :
      wire ∈ (site.reading dom).wires link key link.other ↔ _ :=
    (h.outgoing link (mem_linksTo.mp (List.mem_of_getLast? hlast)).1).mem_wires_iff
  have hincoming {link : Link}
      (hlink : link ∈ linksTo (site.incoming key) key others wire.id.encode) :
      wire ∈ (site.reading dom).wires link link.other key ↔ _ :=
    (h.incoming link (mem_linksTo.mp hlink).1).mem_wires_iff
  constructor
  · rintro (⟨link, hlast, hwire⟩ | ⟨link, hlink, hwire⟩)
    · rcases (houtgoing hlast).mp hwire with ⟨hold, hkept⟩ | ⟨hbound, hthrough⟩
      · exact .inl ⟨.inl ⟨link, hlast, hold⟩, hkept⟩
      · exact .inr (.inl ⟨link, hlast, hbound, hthrough⟩)
    · rcases (hincoming hlink).mp hwire with ⟨hold, hkept⟩ | ⟨hbound, hthrough⟩
      · exact .inl ⟨.inr ⟨link, hlink, hold⟩, hkept⟩
      · exact .inr (.inr ⟨link, hlink, hbound, hthrough⟩)
  · rintro (⟨⟨link, hlast, hold⟩ | ⟨link, hlink, hold⟩, hkept⟩ | ⟨link, hlast, hbound, hthrough⟩ |
      ⟨link, hlink, hbound, hthrough⟩)
    · exact .inl ⟨link, hlast, (houtgoing hlast).mpr (.inl ⟨hold, hkept⟩)⟩
    · exact .inr ⟨link, hlink, (hincoming hlink).mpr (.inl ⟨hold, hkept⟩)⟩
    · exact .inl ⟨link, hlast, (houtgoing hlast).mpr (.inr ⟨hbound, hthrough⟩)⟩
    · exact .inr ⟨link, hlink, (hincoming hlink).mpr (.inr ⟨hbound, hthrough⟩)⟩

theorem Hosts.reading (h : site.Hosts mounted engine.scene) (dom : Dom) :
    (site.reading dom).Hosts mounted (engine.readDocument dom).scene where
  running := h.running
  dom := rfl
  handlers := h.handlers
  accepts := h.accepts
  controllers := h.controllers
  controller := h.controller
  registered := h.registered
  connected := h.connected
  live := h.live
  count := h.count
  graph := h.graph
  queryState := h.queryState

end Site

variable {site : Site} {mounted : List String} {engine : Engine} {config : Config} {key : String}
  {dom : Dom} {container : NodeId} {token : Token} {added removed : List NodeId}

/-- If the owner of a container is current, it is current after the document has changed in the
children of the container and the change has been delivered to its observation, which keeps the item
selector of all that is bound to the container. -/
theorem isCurrent_childListChanged (observation : Observation)
    (hhosts : site.Hosts mounted engine.scene) (hgraph : site.graph = .ofConfig config)
    (hself : engine.connectedController? key = some observation.owner)
    (hobserved : engine.host.observations.snapshot (fun observation =>
      observation.container = container) = [(token, observation)])
    (hundivided : site.Undivided key observation.containerSelector observation.itemSelector)
    (halters : site.Alters dom key observation added removed)
    (hnew : ∀ entry ∈ (engine.controller observation.owner).wiredItems,
      entry.2 ∈ Site.itemsAmong dom observation added → entry.2 ∈ removed)
    (howned : ∀ node ∈ (site.reading dom).ownedNodes key, node ∈ site.ownedNodes key ∨
      ∀ wire ∈ engine.wires, wire.touches node = false)
    (hcurrent : engine.IsCurrent observation.owner) :
    (engine.run [.readDocument dom, .childListChanged container added removed]).IsCurrent
      observation.owner := by
  obtain ⟨others, hothers⟩ := hhosts.exists_others hself
  have hread := hhosts.reading dom
  obtain ⟨hscene, hwires⟩ := hread.mem_wires_onChildList hgraph hself hothers
    (hundivided.reading dom) halters.found hnew
  have hrun : engine.run [.readDocument dom, .childListChanged container added removed] =
      onChildList observation added removed (engine.readDocument dom) := by
    simp only [run_cons, run_nil, perform, answering, childListChanged, readDocument, hobserved]
    rfl
  rw [hrun]
  generalize onChildList observation added removed (engine.readDocument dom) = changed at *
  have hself' : changed.connectedController? key = some observation.owner := by
    rw [connectedController?_eq, hscene, ← connectedController?_eq]
    exact hself
  have hothers' (other : String) : changed.scene.IsConnected other ↔ other ∈ key :: others := by
    rw [hscene]
    exact hothers other
  intro wire
  have hsevers : wire ∈ engine.wires →
      (site.reading dom).Severs ((site.reading dom).ownedNodes key) wire →
      site.Severs (site.ownedNodes key) wire := by
    rintro hwire ⟨handler, hhandler, node, hnode, htouches⟩
    refine ⟨handler, hhandler, node, (howned node hnode).resolve_right fun hfree => ?_, htouches⟩
    exact Bool.false_ne_true ((hfree wire hwire).symm.trans htouches)
  have hold : wire ∈ engine.wires ↔ _ :=
    (hcurrent wire).symm.trans (hhosts.mem_wires_update hgraph hself hothers)
  have hchanged : wire ∈ changed.wires ↔ wire ∈ engine.wires ∧ ¬site.Severs removed wire ∨
    (site.reading dom).Supplies key others observation.containerSelector
      (Site.itemsAmong dom observation added) wire := hwires wire
  rw [(hscene ▸ hread : (site.reading dom).Hosts mounted changed.scene).mem_wires_update
    hgraph hself'
    hothers', halters.exists_mem_offer_iff hundivided, hchanged]
  constructor
  · rintro (⟨hwire, -⟩ | ⟨hoffer, hkept⟩ | hsupplied)
    · exact hwire
    · exact .inl ⟨hold.mpr (.inr hoffer), hkept⟩
    · exact .inr hsupplied
  · rintro (⟨hwire, hkept⟩ | hsupplied)
    · -- what ends at a node of the owner has been offered by the owner before
      by_cases hends : (site.reading dom).Severs ((site.reading dom).ownedNodes key) wire
      · rcases hold.mp hwire with ⟨-, hfree⟩ | hoffer
        · exact absurd (hsevers hwire hends) hfree
        · exact .inr (.inl ⟨hoffer, hkept⟩)
      · exact .inl ⟨.inl ⟨hwire, hkept⟩, hends⟩
    · exact .inr (.inr hsupplied)

/-- An item is replaced in a list that two rules are bound to, one of them from the other side,
while another list of the owner stays as it is. -/
theorem isCurrent_childListChanged_replaced :
    let config := Config.ofInteractions
      [((Interaction.ofTrigger "A" .click).withList ".items" (some ".a")).withEffect
          ((Effect.byId "f").on "B"),
        ((Interaction.ofTrigger "A" .click).withList ".rows" (some ".b")).withEffect
          ((Effect.byId "g").on "B"),
        (Interaction.ofTrigger "B" .click).withEffect
          (((Effect.byId "h").on "A").withList ".items" (some ".a"))]
    let document := ((((((Document.empty.put 1 none none [] .empty).put 2 none none [] .empty).put
      3 (some 1) none ["items"] .empty).put 4 (some 1) none ["rows"] .empty).put
      5 (some 3) none ["a"] .empty).put 6 (some 4) none ["b"] .empty)
    let changed := ((document.detach 5).put 7 (some 3) none ["a"] .empty).put
      8 (some 3) none ["b"] .empty
    let engine := ((start { Host.bare with dom := document.dom } .standard).create config).1.run
      [.addNode 2 "B", .addNode 1 "A"]
    let after := engine.run [.readDocument changed.dom, .childListChanged 3 [7, 8] [5]]
    engine.wires = [⟨6, 2, ⟨"B", "g", 1⟩⟩, ⟨5, 2, ⟨"B", "f", 0⟩⟩, ⟨2, 5, ⟨"A", "h", 2⟩⟩] ∧
      after.wires = [⟨6, 2, ⟨"B", "g", 1⟩⟩, ⟨7, 2, ⟨"B", "f", 0⟩⟩, ⟨2, 7, ⟨"A", "h", 2⟩⟩] ∧
      after.IsCurrent 1 := by
  intro config document changed engine after
  let nodeOf (key : String) := if key = "A" then 1 else 2
  let site := siteOf { Host.bare with dom := document.dom } config nodeOf
  have hlegible : site.Legible ["A", "B"] :=
    ⟨by decide +kernel, by decide +kernel, by decide +kernel⟩
  have hkeeps : site.Keeps ["A", "B"] engine :=
    (Site.keeps_create config nodeOf .standard fun _ => Handler.accepts_accepting).run
      ⟨⟨config, rfl⟩, hlegible, Site.reciprocal_of_forall_links (by decide +kernel)⟩
      ⟨⟨rfl, by decide, by decide⟩, ⟨rfl, by decide, by decide⟩, trivial⟩
  obtain ⟨mounted, -, hhosts⟩ := hkeeps.hosts
  have hself : engine.connectedController? "A" = some 1 := by decide +kernel
  have hobserved : engine.host.observations.snapshot (fun observation =>
      observation.container = 3) = [(1, ⟨3, 1, ".items", some ".a"⟩)] := by decide +kernel
  have hundivided : site.Undivided "A" ".items" (some ".a") :=
    ⟨by decide +kernel, by decide +kernel, by decide +kernel, by decide +kernel, by decide +kernel⟩
  have halters : site.Alters changed.dom "A" ⟨3, 1, ".items", some ".a"⟩ [7, 8] [5] :=
    ⟨by decide +kernel, by decide +kernel, by decide +kernel⟩
  have hsame : (engine.update 1).1.wires = engine.wires := by decide +kernel
  refine ⟨by decide +kernel, by decide +kernel, ?_⟩
  exact isCurrent_childListChanged ⟨3, 1, ".items", some ".a"⟩ hhosts rfl hself hobserved hundivided
    halters (by decide +kernel) (by decide +kernel) fun wire => by rw [hsame]

-- A rule misses an added node that only its own item selector matches.
example :
    let config := Config.ofInteractions
      [((Interaction.ofTrigger "A" .click).withList ".items" (some ".a")).withEffect
          ((Effect.byId "f").on "B"),
        ((Interaction.ofTrigger "A" .click).withList ".items" (some ".b")).withEffect
          ((Effect.byId "f").on "B")]
    let document := ((Document.empty.put 1 none none [] .empty).put 2 none none [] .empty).put
      3 (some 1) none ["items"] .empty
    let changed := document.put 4 (some 3) none ["b"] .empty
    let engine := ((start { Host.bare with dom := document.dom } .standard).create config).1.run
      [.addNode 2 "B", .addNode 1 "A", .readDocument changed.dom, .childListChanged 3 [4] []]
    engine.wires = [] ∧ (engine.update 1).1.wires = [⟨4, 2, ⟨"B", "f", 1⟩⟩] := by
  decide +kernel

end InteractionBinding.Engine
