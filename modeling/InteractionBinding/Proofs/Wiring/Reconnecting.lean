import InteractionBinding.Config.Builder
import InteractionBinding.Proofs.Wiring.Mounting
/-!
# Connecting a key again

Two keys couple under a text if one of them can settle the text only beside the other
(`Site.couple`). Where keys are reciprocal (`Site.Reciprocal`), the wires are at any time those of
the couples of connected keys (`Site.Keeps`), so that a controller that is disconnected softly and
connected again finds its wires restored (`Engine.wires_reconnected`).

Keys with different numbers of placeholders need not be reciprocal: a list item looks for a target
without a placeholder, but the target does not look for the item.
-/

namespace InteractionBinding.Engine

namespace Site

/-! ### Couples -/

/-- The texts of the ids that a key takes part in. -/
def texts (site : Site) (key : String) : List String :=
  match site.graph.get? key with
  | none => []
  | some node =>
    node.allInteractionIds.map fun id => (id.interpolate (KeyTemplate.indices key)).encode

/-- The nodes that a key owns: its own one, and those that its selectors reach below it. -/
def ownedNodes (site : Site) (key : String) : List NodeId :=
  site.nodeOf key :: match site.graph.get? key with
    | none => []
    | some node => node.selectors.keys.flatMap (site.dom.queryAll (site.nodeOf key))

/-- The wires that a key settles a text with beside another key, if it does so only beside it. -/
def couple (site : Site) (a b text : String) : Option (List Wire) :=
  if a = b ∨ site.offer a [] text = none then site.offer a [b] text else none

/-- The wires of a couple are its own: either key of the couple settles their text, no third key
takes part in it, and the wires end at nodes of the two keys and at no others. -/
structure Mutual (site : Site) (keys : List String) (a b text : String) (wires : List Wire) :
    Prop where
  answered : wires ≠ [] → (site.offer b [a] text).isSome
  exclusive : wires ≠ [] → ∀ key ∈ keys, text ∈ site.texts key → key = a ∨ key = b
  touching : ∀ wire ∈ wires, ∀ key ∈ keys,
    (∃ node ∈ site.ownedNodes key, wire.touches node = true) ↔ key = a ∨ key = b

/-- Keys are reciprocal under a text if whoever of them settles it does so with the same wires,
which are those of a couple. -/
structure Reciprocal (site : Site) (keys : List String) (text : String) : Prop where
  agree : ∀ a ∈ keys, ∀ b ∈ keys, ∀ a' ∈ keys, ∀ b' ∈ keys,
    ∀ wires ∈ site.offer a [b] text, ∀ wires' ∈ site.offer a' [b'] text,
      ∀ wire ∈ wires, wire ∈ wires'
  couples : ∀ a ∈ keys, ∀ b ∈ keys, ∀ wires ∈ site.couple a b text,
    site.Mutual keys a b text wires

instance (site : Site) (keys : List String) (a b text : String) (wires : List Wire) :
    Decidable (site.Mutual keys a b text wires) :=
  decidable_of_iff
    ((wires ≠ [] → (site.offer b [a] text).isSome) ∧
      (wires ≠ [] → ∀ key ∈ keys, text ∈ site.texts key → key = a ∨ key = b) ∧
      ∀ wire ∈ wires, ∀ key ∈ keys,
        (∃ node ∈ site.ownedNodes key, wire.touches node = true) ↔ key = a ∨ key = b)
    ⟨fun ⟨answered, exclusive, touching⟩ => ⟨answered, exclusive, touching⟩,
      fun ⟨answered, exclusive, touching⟩ => ⟨answered, exclusive, touching⟩⟩

instance (site : Site) (keys : List String) (text : String) :
    Decidable (site.Reciprocal keys text) :=
  decidable_of_iff
    ((∀ a ∈ keys, ∀ b ∈ keys, ∀ a' ∈ keys, ∀ b' ∈ keys, ∀ wires ∈ site.offer a [b] text,
        ∀ wires' ∈ site.offer a' [b'] text, ∀ wire ∈ wires, wire ∈ wires') ∧
      ∀ a ∈ keys, ∀ b ∈ keys, ∀ wires ∈ site.couple a b text, site.Mutual keys a b text wires)
    ⟨fun ⟨agree, couples⟩ => ⟨agree, couples⟩, fun ⟨agree, couples⟩ => ⟨agree, couples⟩⟩

variable {site : Site} {keys others mounted : List String} {a b a' b' key text : String}
  {wires wires' : List Wire}

theorem couple_eq_some :
    site.couple a b text = some wires ↔
      (a = b ∨ site.offer a [] text = none) ∧ site.offer a [b] text = some wires := by
  rw [couple]
  split
  next h => exact (and_iff_right h).symm
  next h => exact iff_of_false (by simp) fun hand => h hand.1

theorem mem_texts_of_mem_ids {node : GraphNode} (hnode : site.graph.get? key = some node)
    {id : InteractionId} (hid : id ∈ node.allInteractionIds) :
    (id.interpolate (KeyTemplate.indices key)).encode ∈ site.texts key := by
  rw [texts, hnode]
  exact List.mem_map_of_mem hid

/-- What a key can settle is among its texts. -/
theorem mem_texts_of_isSome_offer {config : Config} (hgraph : site.graph = .ofConfig config)
    (h : (site.offer key others text).isSome) : text ∈ site.texts key := by
  obtain ⟨link, hlink, rfl⟩ := exists_link_of_isSome_offer h
  rw [outgoing, incoming] at hlink
  cases hnode : site.graph.get? key with
  | none => simp [hnode] at hlink
  | some node =>
    simp only [hnode] at hlink
    rcases List.mem_append.mp hlink with hlink | hlink
    · obtain ⟨interaction, htrigger, hlink⟩ := List.mem_flatMap.mp hlink
      obtain ⟨effect, heffect, rfl⟩ := List.mem_map.mp hlink
      obtain ⟨graphKey, -, hget⟩ := Option.bind_eq_some_iff.mp hnode
      rw [hgraph] at hget
      obtain ⟨haccepted, hrule⟩ := (Graph.mem_triggers_iff hget).mp htrigger
      exact mem_texts_of_mem_ids hnode ((Graph.mem_allInteractionIds_iff hget).mpr
        ⟨interaction, haccepted, .inl ⟨effect, (List.mem_filter.mp heffect).1, rfl, .inl hrule⟩⟩)
    · obtain ⟨entry, hentry, hmade⟩ := List.mem_filterMap.mp hlink
      obtain ⟨variant, -, rfl⟩ := Option.map_eq_some_iff.mp hmade
      exact mem_texts_of_mem_ids hnode (List.mem_append_left _
        (List.mem_append_right _ (List.mem_map_of_mem hentry)))

/-- A key offers beside others what it couples with one of them for. -/
theorem isSome_offer_of_couple (hlegible : site.Legible keys) (ha : a ∈ keys)
    (hcouple : site.couple a b text = some wires) (hb : b ∈ a :: others) :
    (site.offer a others text).isSome := by
  obtain ⟨-, hoffer⟩ := couple_eq_some.mp hcouple
  rcases List.mem_cons.mp hb with rfl | hb
  · have hself : site.offer b [b] text = site.offer b [] text := offer_congr fun _ => by simp
    exact isSome_offer_mono hlegible ha (Option.isSome_of_eq_some (hself.symm.trans hoffer))
      (List.nil_subset _)
  · exact isSome_offer_mono hlegible ha (Option.isSome_of_eq_some hoffer)
      (List.cons_subset.mpr ⟨hb, List.nil_subset _⟩)

namespace Reciprocal

/-- What a key offers beside others, it couples with one of them for. -/
theorem exists_couple (h : site.Reciprocal keys text) (hlegible : site.Legible keys)
    (hkeys : key :: others ⊆ keys) (hoffer : site.offer key others text = some wires) {wire : Wire}
    (hwire : wire ∈ wires) :
    ∃ other ∈ key :: others, ∃ wires', site.couple key other text = some wires' ∧
      wire ∈ wires' := by
  have hkey : key ∈ keys := hkeys (.head _)
  obtain ⟨other, hother, hsingle⟩ := exists_offer_singleton hlegible hkey hoffer
  by_cases hnone : site.offer key [] text = none
  · exact ⟨other, hother, wires, couple_eq_some.mpr ⟨.inr hnone, hsingle⟩, hwire⟩
  · obtain ⟨wires', hwires'⟩ := Option.ne_none_iff_exists'.mp hnone
    have hself : site.offer key [key] text = some wires' := by
      rw [← hwires']
      exact offer_congr fun _ => by simp
    exact ⟨key, .head _, wires', couple_eq_some.mpr ⟨.inl rfl, hself⟩,
      h.agree key hkey other (hkeys hother) key hkey key hkey _ hsingle _ hself wire hwire⟩

/-- Couples that wire something under one text are the same two keys. -/
theorem mem_pair {config : Config} (h : site.Reciprocal keys text)
    (hgraph : site.graph = .ofConfig config) (ha : a ∈ keys) (hb : b ∈ keys)
    (hcouple : site.couple a b text = some wires) (hne : wires ≠ []) (ha' : a' ∈ keys)
    (hb' : b' ∈ keys) (hcouple' : site.couple a' b' text = some wires') :
    (a' = a ∨ a' = b) ∧ (b' = a ∨ b' = b) := by
  obtain ⟨wire, hwire⟩ := List.exists_mem_of_ne_nil _ hne
  have hoffer := (couple_eq_some.mp hcouple).2
  have hoffer' := (couple_eq_some.mp hcouple').2
  have hne' : wires' ≠ [] :=
    List.ne_nil_of_mem (h.agree a ha b hb a' ha' b' hb' _ hoffer _ hoffer' wire hwire)
  have hanswer := (h.couples a' ha' b' hb' _ hcouple').answered hne'
  have hexclusive := (h.couples a ha b hb _ hcouple).exclusive hne
  exact ⟨hexclusive a' ha' (mem_texts_of_isSome_offer hgraph (Option.isSome_of_eq_some hoffer')),
    hexclusive b' hb' (mem_texts_of_isSome_offer hgraph hanswer)⟩

/-- Either key of a couple offers the wires of the couple beside others, once the other key is among
them. -/
theorem offer_of_couple (h : site.Reciprocal keys text) (hlegible : site.Legible keys)
    (hkeys : key :: others ⊆ keys) (ha : a ∈ keys) (hb : b ∈ keys)
    (hcouple : site.couple a b text = some wires) (hne : wires ≠ [])
    (hkey : key = a ∧ b ∈ key :: others ∨ key = b ∧ a ∈ key :: others) :
    (site.offer key others text).isSome := by
  rcases hkey with ⟨rfl, hother⟩ | ⟨rfl, hother⟩
  · exact isSome_offer_of_couple hlegible ha hcouple hother
  · have hanswer := (h.couples a ha key hb _ hcouple).answered hne
    rcases List.mem_cons.mp hother with rfl | hother
    · exact isSome_offer_of_couple hlegible ha hcouple (.head _)
    · exact isSome_offer_mono hlegible hb hanswer (List.cons_subset.mpr ⟨hother, List.nil_subset _⟩)

end Reciprocal

/-! ### Owned nodes -/

theorem Hosts.mem_ownedNodes_iff {engine : Engine} {c : ControllerId}
    (h : site.Hosts mounted engine.scene) (hregistered : engine.scene.registry.get? key = some c)
    {node : NodeId} : node ∈ engine.ownedNodes c ↔ node ∈ site.ownedNodes key := by
  obtain ⟨-, hkey, -⟩ := registered_spec h.toSeated hregistered
  obtain ⟨connected, hcontroller⟩ := h.controller c key (h.registered key c hregistered)
  have hanchor : engine.anchor c = some (site.nodeOf key) := by
    rw [anchor_eq, Scene.anchor, hcontroller]
    rfl
  have hdom : engine.host.dom = site.dom := h.dom
  have hinst : (engine.inst 0).graph = site.graph := (graph_inst_eq engine 0).trans h.graph
  simp only [Engine.ownedNodes, hanchor, hkey, hdom, h.instancesFor_eq, ownedNodes]
  rw [mem_foldl_insert, List.mem_singleton, List.mem_cons]
  cases hnode : site.graph.get? key with
  | none => simp
  | some graphNode => simp [hinst, hnode]

/-- A soft disconnection lets the texts of the key be applied again. -/
theorem Hosts.mem_memo_disconnect {engine : Engine} {c : ControllerId}
    (h : site.Hosts mounted engine.scene) (hregistered : engine.scene.registry.get? key = some c) :
    text ∈ ((engine.disconnect c false).inst 0).memo ↔
      text ∈ (engine.inst 0).memo ∧ text ∉ site.texts key := by
  have hinst : (engine.inst 0).graph = site.graph := (graph_inst_eq engine 0).trans h.graph
  have hids : (0 ∈ engine.instancesFor key ∧ text ∈ (engine.inst 0).interactionIdsFor key) ↔
      text ∈ site.texts key := by
    rw [h.instancesFor_eq, Instance.interactionIdsFor, hinst, texts]
    cases site.graph.get? key <;> simp
  rw [(parts_disconnect h.toSeated hregistered false).memo, hids]

theorem Hosts.disconnect {engine : Engine} {c : ControllerId} (h : site.Hosts mounted engine.scene)
    (hregistered : engine.scene.registry.get? key = some c) :
    site.Hosts mounted (engine.disconnect c false).scene :=
  (parts_disconnect h.toSeated hregistered false).scene ▸ h.setConnected hregistered false

theorem Hosts.registered_disconnect {engine : Engine} {c : ControllerId}
    (h : site.Hosts mounted engine.scene) (hregistered : engine.scene.registry.get? key = some c) :
    (engine.disconnect c false).scene.registry.get? key = some c :=
  Engine.registered_disconnect h.toSeated hregistered

/-- An update disconnects a key and lets it join the other ones again. -/
theorem Hosts.exists_joins_update {engine : Engine} {c : ControllerId}
    (h : site.Hosts mounted engine.scene) (hregistered : engine.scene.registry.get? key = some c) :
    ∃ after, Joins site.ground mounted mounted c key (engine.disconnect c false) after ∧
      (engine.update c).1 = (after.instancesFor key).foldl (resolveIn c key) after := by
  have hparts := parts_disconnect h.toSeated hregistered false
  rcases connect_cases (h.disconnect hregistered).toSeated (h.registered_disconnect hregistered)
    none with ⟨hon, -⟩ | ⟨-, after, hjoins, heq⟩
  · exact absurd rfl ((hparts.isConnected_iff h.toSeated hregistered key).mp hon).2
  · exact ⟨after, hjoins, heq⟩

/-- After an update of a key it is connected, and every other key is as it was. -/
theorem Hosts.update {engine : Engine} {c : ControllerId} (h : site.Hosts mounted engine.scene)
    (hregistered : engine.scene.registry.get? key = some c) :
    site.Hosts mounted (engine.update c).1.scene ∧ ∀ other,
      (engine.update c).1.scene.IsConnected other ↔
        other = key ∨ engine.scene.IsConnected other := by
  obtain ⟨after, hjoins, heq⟩ := h.exists_joins_update hregistered
  obtain ⟨hhosts, hconnected⟩ := (h.disconnect hregistered).resolved hjoins
  have hoff := (parts_disconnect h.toSeated hregistered false).isConnected_iff h.toSeated
    hregistered
  rw [heq]
  refine ⟨hhosts, fun other => ?_⟩
  rw [hconnected, hoff]
  by_cases hother : other = key
  · simp [hother]
  · simp [hother]

theorem exists_handler_of_mem_wires {link : Link} {source target : String} {wire : Wire}
    (h : wire ∈ site.wires link source target) : ∃ handler, handler ∈ site.handlers.all := by
  rw [Site.wires] at h
  split at h
  next hsome => exact HandlerTable.exists_mem_all hsome
  next => cases h

theorem exists_handler_of_mem_offer (h : site.offer key others text = some wires) {wire : Wire}
    (hwire : wire ∈ wires) : ∃ handler, handler ∈ site.handlers.all := by
  rcases exists_mem_offer_iff.mp ⟨wires, h, hwire⟩ with ⟨link, -, hmem⟩ | ⟨-, link, -, hmem⟩
  · exact exists_handler_of_mem_wires hmem
  · exact exists_handler_of_mem_wires hmem

/-! ### What is kept -/

/-- The wires of the couples of keys. -/
def Coupled (site : Site) (connected : String → Prop) (wire : Wire) : Prop :=
  ∃ a b wires, connected a ∧ connected b ∧ site.couple a b wire.id.encode = some wires ∧
    wire ∈ wires

/-- An engine with one instance, in which the couples of connected keys are wired, and their texts
and no others of couples have been applied. -/
structure Keeps (site : Site) (keys : List String) (engine : Engine) : Prop where
  hosts : ∃ mounted, mounted ⊆ keys ∧ site.Hosts mounted engine.scene
  wires (wire : Wire) : wire ∈ engine.wires ↔ site.Coupled engine.scene.IsConnected wire
  memo : ∀ a ∈ keys, ∀ b ∈ keys, ∀ text wires, site.couple a b text = some wires → wires ≠ [] →
    (text ∈ (engine.inst 0).memo ↔ engine.scene.IsConnected a ∧ engine.scene.IsConnected b)

/-- A site of a configuration, on which keys are told apart by their texts and are reciprocal. -/
structure Amenable (site : Site) (keys : List String) : Prop where
  compiled : ∃ config, site.graph = .ofConfig config
  legible : site.Legible keys
  reciprocal (text : String) : site.Reciprocal keys text

/-- One engine comes from another by resolving a key that joins the connected ones. -/
structure Grows (site : Site) (keys others : List String) (key : String) (before after : Engine) :
    Prop where
  within : key :: others ⊆ keys
  old (other : String) : before.scene.IsConnected other ↔ other ∈ others
  connected (other : String) : after.scene.IsConnected other ↔ other ∈ key :: others
  settles : site.Settles key others before after

theorem Grows.kept {before after : Engine} (h : site.Grows keys others key before after)
    {other : String} (hother : before.scene.IsConnected other) : after.scene.IsConnected other :=
  (h.connected other).mpr (.tail _ ((h.old other).mp hother))

namespace Keeps

variable {engine after : Engine} {mounted' : List String} {c : ControllerId}

theorem mem_keys (h : site.Keeps keys engine) (hkey : engine.scene.IsConnected key) :
    key ∈ keys := by
  obtain ⟨mounted, hmounted, hhosts⟩ := h.hosts
  exact hmounted (hhosts.mem_keys_of_connected hkey)

/-- A couple that is complete once a key has joined has been wired before, or the key offers it. -/
theorem couple_cases (h : site.Keeps keys engine) (hamenable : site.Amenable keys)
    (hgrows : site.Grows keys others key engine after) {a b : String} {wires : List Wire}
    (ha : a ∈ key :: others) (hb : b ∈ key :: others)
    (hcouple : site.couple a b text = some wires) (hne : wires ≠ []) :
    text ∈ (engine.inst 0).memo ∧ engine.scene.IsConnected a ∧ engine.scene.IsConnected b ∨
      text ∉ (engine.inst 0).memo ∧ (site.offer key others text).isSome := by
  have ha_mem := hgrows.within ha
  have hb_mem := hgrows.within hb
  rw [h.memo a ha_mem b hb_mem text wires hcouple hne]
  by_cases hold : engine.scene.IsConnected a ∧ engine.scene.IsConnected b
  · exact .inl ⟨hold, hold⟩
  · refine .inr ⟨hold, (hamenable.reciprocal text).offer_of_couple hamenable.legible hgrows.within
      ha_mem hb_mem hcouple hne ?_⟩
    rcases List.mem_cons.mp ha with rfl | ha_old
    · exact .inl ⟨rfl, hb⟩
    · rcases List.mem_cons.mp hb with rfl | hb_old
      · exact .inr ⟨rfl, ha⟩
      · exact absurd ⟨(hgrows.old a).mpr ha_old, (hgrows.old b).mpr hb_old⟩ hold

/-- Once a key that has joined is resolved, its couples are wired. -/
theorem mem_wires_iff (h : site.Keeps keys engine) (hamenable : site.Amenable keys)
    (hgrows : site.Grows keys others key engine after) (wire : Wire) :
    wire ∈ after.wires ↔ site.Coupled after.scene.IsConnected wire := by
  have hreciprocal := hamenable.reciprocal wire.id.encode
  have hkey : key ∈ keys := hgrows.within (.head _)
  rw [hgrows.settles.wires, h.wires]
  constructor
  · rintro (⟨a, b, wires, ha, hb, hcouple, hwire⟩ | ⟨-, wires, hoffer, hwire⟩)
    · exact ⟨a, b, wires, hgrows.kept ha, hgrows.kept hb, hcouple, hwire⟩
    · obtain ⟨other, hother, wires', hcouple, hwire'⟩ :=
        hreciprocal.exists_couple hamenable.legible hgrows.within hoffer hwire
      exact ⟨key, other, wires', (hgrows.connected key).mpr (.head _),
        (hgrows.connected other).mpr hother, hcouple, hwire'⟩
  · rintro ⟨a, b, wires, ha, hb, hcouple, hwire⟩
    rw [hgrows.connected] at ha hb
    rcases h.couple_cases hamenable hgrows ha hb hcouple (List.ne_nil_of_mem hwire) with
      ⟨-, ha_old, hb_old⟩ | ⟨happlied, hoffer⟩
    · exact .inl ⟨a, b, wires, ha_old, hb_old, hcouple, hwire⟩
    · obtain ⟨wires', hwires'⟩ := Option.isSome_iff_exists.mp hoffer
      obtain ⟨other, hother, hsingle⟩ := exists_offer_singleton hamenable.legible hkey hwires'
      exact .inr ⟨happlied, wires', hwires', hreciprocal.agree a (hgrows.within ha) b
        (hgrows.within hb) key hkey other (hgrows.within hother) _ (couple_eq_some.mp hcouple).2 _
        hsingle wire hwire⟩

/-- A text that a key offers belongs to couples of the key only. -/
theorem mem_of_couple_of_offer (hamenable : site.Amenable keys)
    (hgrows : site.Grows keys others key engine after) {a b : String} {wires : List Wire}
    (ha : a ∈ keys) (hb : b ∈ keys) (hcouple : site.couple a b text = some wires)
    (hne : wires ≠ []) (hoffer : (site.offer key others text).isSome) :
    a ∈ key :: others ∧ b ∈ key :: others := by
  obtain ⟨config, hgraph⟩ := hamenable.compiled
  have hreciprocal := hamenable.reciprocal text
  have hkey : key ∈ keys := hgrows.within (.head _)
  obtain ⟨offered, hoffered⟩ := Option.isSome_iff_exists.mp hoffer
  obtain ⟨single, hsingle_mem, hsingle⟩ := exists_offer_singleton hamenable.legible hkey hoffered
  obtain ⟨wire, hwire⟩ := List.exists_mem_of_ne_nil _ hne
  have hwire' := hreciprocal.agree a ha b hb key hkey single (hgrows.within hsingle_mem) _
    (couple_eq_some.mp hcouple).2 _ hsingle wire hwire
  obtain ⟨other, hother, wires', hcouple', hwire''⟩ :=
    hreciprocal.exists_couple hamenable.legible hgrows.within hoffered hwire'
  obtain ⟨ha_pair, hb_pair⟩ := hreciprocal.mem_pair hgraph hkey (hgrows.within hother) hcouple'
    (List.ne_nil_of_mem hwire'') ha hb hcouple
  exact ⟨ha_pair.elim (· ▸ .head _) (· ▸ hother), hb_pair.elim (· ▸ .head _) (· ▸ hother)⟩

/-- Once a key that has joined is resolved, the texts of the couples of connected keys have been
applied. -/
theorem mem_memo_iff (h : site.Keeps keys engine) (hamenable : site.Amenable keys)
    (hgrows : site.Grows keys others key engine after) {a b : String} {wires : List Wire}
    (ha : a ∈ keys) (hb : b ∈ keys) (hcouple : site.couple a b text = some wires)
    (hne : wires ≠ []) :
    text ∈ (after.inst 0).memo ↔ after.scene.IsConnected a ∧ after.scene.IsConnected b := by
  constructor
  · intro hmemo
    rcases hgrows.settles.settled text hmemo with hold | hoffer | ⟨other, hother, hsequence⟩
    · exact ((h.memo a ha b hb text wires hcouple hne).mp hold).imp hgrows.kept hgrows.kept
    · rw [hgrows.connected, hgrows.connected]
      exact mem_of_couple_of_offer hamenable hgrows ha hb hcouple hne hoffer
    · obtain ⟨link, hlink, rfl⟩ := exists_link_of_isSome_offer
        (Option.isSome_of_eq_some (couple_eq_some.mp hcouple).2)
      exact absurd hsequence
        (hamenable.legible.sequences a ha link hlink other (hgrows.within hother))
  · rintro ⟨ha', hb'⟩
    rw [hgrows.connected] at ha' hb'
    refine hgrows.settles.applied text ?_
    exact (h.couple_cases hamenable hgrows ha' hb' hcouple hne).imp And.left And.right

/-- Resolving a key that joins the connected ones wires its couples. -/
theorem resolve (h : site.Keeps keys engine) (hamenable : site.Amenable keys) (hkey : key ∈ keys)
    (hmounted : mounted ⊆ keys) (hhosts : site.Hosts mounted engine.scene)
    (hjoins : Joins site.ground mounted mounted' c key engine after) :
    site.Keeps keys ((after.instancesFor key).foldl (resolveIn c key) after) := by
  have hothers (other : String) := (hhosts.mem_filter_connected other).symm
  generalize mounted.filter _ = others at hothers
  obtain ⟨hresolved, hconnected⟩ := hhosts.resolved hjoins
  have hgrows : site.Grows keys others key engine
      ((after.instancesFor key).foldl (resolveIn c key) after) := {
    within := List.cons_subset.mpr
      ⟨hkey, fun other hother => h.mem_keys ((hothers other).mpr hother)⟩
    old := hothers
    connected := fun other => by rw [hconnected, hothers, List.mem_cons]
    settles := hhosts.settles hjoins hothers }
  refine ⟨⟨mounted', fun other hother => ?_, hresolved⟩, h.mem_wires_iff hamenable hgrows,
    fun a ha b hb text wires hcouple hne => h.mem_memo_iff hamenable hgrows ha hb hcouple hne⟩
  rcases List.mem_append.mp (hjoins.added hother) with hother | hother
  · exact hmounted hother
  · exact List.mem_singleton.mp hother ▸ hkey

/-- A soft disconnection ends the wires of the couples of the key. -/
theorem disconnect (h : site.Keeps keys engine) (hamenable : site.Amenable keys)
    (hregistered : engine.scene.registry.get? key = some c) :
    site.Keeps keys (engine.disconnect c false) := by
  obtain ⟨config, hgraph⟩ := hamenable.compiled
  obtain ⟨mounted, hmounted, hhosts⟩ := h.hosts
  have hparts := parts_disconnect hhosts.toSeated hregistered false
  have hkey : key ∈ keys := hmounted (List.mem_of_getElem? (hhosts.registered key c hregistered))
  have hconnected := hparts.isConnected_iff hhosts.toSeated hregistered
  refine ⟨⟨mounted, hmounted, hhosts.disconnect hregistered⟩, fun wire => ?_,
    fun a ha b hb text wires hcouple hne => ?_⟩
  · have htouching {a b : String} {wires : List Wire} (ha : engine.scene.IsConnected a)
        (hb : engine.scene.IsConnected b)
        (hcouple : site.couple a b wire.id.encode = some wires) (hwire : wire ∈ wires) :
        (∃ node ∈ site.ownedNodes key, wire.touches node = true) ↔ key = a ∨ key = b :=
      ((hamenable.reciprocal _).couples a (h.mem_keys ha) b (h.mem_keys hb) _ hcouple).touching
        wire hwire key hkey
    rw [hparts.wires, h.wires]
    constructor
    · rintro ⟨⟨a, b, wires, ha, hb, hcouple, hwire⟩, hkept⟩
      have hother : ¬(key = a ∨ key = b) := by
        intro hpair
        obtain ⟨node, hnode, htouched⟩ := (htouching ha hb hcouple hwire).mpr hpair
        obtain ⟨handler, hhandler⟩ :=
          exists_handler_of_mem_offer (couple_eq_some.mp hcouple).2 hwire
        have hhandlers : engine.host.handlers = site.handlers := hhosts.handlers
        have hisConnected : engine.scene.IsConnected key := hpair.elim (· ▸ ha) (· ▸ hb)
        have huntouched := hkept ((Scene.isConnected_iff_of_registered hregistered).mp hisConnected)
          handler (hhandlers ▸ hhandler) node ((hhosts.mem_ownedNodes_iff hregistered).mpr hnode)
        exact Bool.false_ne_true (huntouched.symm.trans htouched)
      rw [not_or] at hother
      exact ⟨a, b, wires, (hconnected a).mpr ⟨ha, Ne.symm hother.1⟩,
        (hconnected b).mpr ⟨hb, Ne.symm hother.2⟩, hcouple, hwire⟩
    · rintro ⟨a, b, wires, ha, hb, hcouple, hwire⟩
      obtain ⟨ha, ha_ne⟩ := (hconnected a).mp ha
      obtain ⟨hb, hb_ne⟩ := (hconnected b).mp hb
      refine ⟨⟨a, b, wires, ha, hb, hcouple, hwire⟩, fun _ handler _ node hnode => ?_⟩
      rw [Bool.eq_false_iff]
      intro htouched
      rw [hhosts.mem_ownedNodes_iff hregistered] at hnode
      rcases (htouching ha hb hcouple hwire).mp ⟨node, hnode, htouched⟩ with rfl | rfl
      · exact ha_ne rfl
      · exact hb_ne rfl
  · have hmutual := (hamenable.reciprocal text).couples a ha b hb wires hcouple
    have hoffer := Option.isSome_of_eq_some (couple_eq_some.mp hcouple).2
    have hpair : text ∈ site.texts key ↔ key = a ∨ key = b := by
      refine ⟨hmutual.exclusive hne key hkey, ?_⟩
      rintro (rfl | rfl)
      · exact mem_texts_of_isSome_offer hgraph hoffer
      · exact mem_texts_of_isSome_offer hgraph (hmutual.answered hne)
    rw [hhosts.mem_memo_disconnect hregistered, hpair, hconnected, hconnected,
      h.memo a ha b hb text wires hcouple hne]
    grind

theorem connect (h : site.Keeps keys engine) (hamenable : site.Amenable keys)
    (hregistered : engine.scene.registry.get? key = some c) (requested : Option String) :
    site.Keeps keys (engine.connect c requested).1 := by
  obtain ⟨mounted, hmounted, hhosts⟩ := h.hosts
  have hkey : key ∈ keys := hmounted (List.mem_of_getElem? (hhosts.registered key c hregistered))
  rcases connect_cases hhosts.toSeated hregistered requested with
    ⟨-, heq⟩ | ⟨-, after, hjoins, heq⟩ <;> rw [heq]
  · exact h
  · exact h.resolve hamenable hkey hmounted hhosts hjoins

theorem addNode (h : site.Keeps keys engine) (hamenable : site.Amenable keys) (hkey : key ∈ keys)
    (hnonempty : key ≠ "") : site.Keeps keys (engine.addNode (site.nodeOf key) key).1 := by
  obtain ⟨mounted, hmounted, hhosts⟩ := h.hosts
  have hadd : engine.addNode (site.nodeOf key) key = engine.addNode (site.ground.nodeOf key) key :=
    rfl
  rw [hadd]
  rcases addNode_cases hhosts.toSeated hnonempty with
    ⟨-, heq⟩ | ⟨-, mounted', c, after, hjoins, heq⟩ <;> rw [heq]
  · exact h
  · exact h.resolve hamenable hkey hmounted hhosts hjoins

theorem update (h : site.Keeps keys engine) (hamenable : site.Amenable keys)
    (hregistered : engine.scene.registry.get? key = some c) :
    site.Keeps keys (engine.update c).1 := by
  obtain ⟨mounted, -, hhosts⟩ := h.hosts
  exact (h.disconnect hamenable hregistered).connect hamenable
    (hhosts.registered_disconnect hregistered) none

end Keeps

/-! ### Runs -/

/-- The operations that add keys on their nodes, and that disconnect them softly and connect them
again. -/
def Admits (site : Site) (keys : List String) (engine : Engine) : Operation → Prop
  | .addNode node key => node = site.nodeOf key ∧ key ∈ keys ∧ key ≠ ""
  | .disconnect c evict => evict = false ∧ engine.Registers c
  | .connect c requested => requested = none ∧ engine.Registers c
  | .update c => engine.Registers c
  | _ => False

variable {engine : Engine}

theorem Keeps.perform (h : site.Keeps keys engine) (hamenable : site.Amenable keys)
    {operation : Operation} (hadmits : site.Admits keys engine operation) :
    site.Keeps keys (engine.perform operation).1 := by
  cases operation with
  | addNode node key =>
    obtain ⟨rfl, hkey, hnonempty⟩ := hadmits
    obtain ⟨mounted, -, hhosts⟩ := h.hosts
    have hrunning : engine.running = true := hhosts.running
    rw [Engine.perform, whenRunning_of_running hrunning]
    exact h.addNode hamenable hkey hnonempty
  | disconnect c evict =>
    obtain ⟨rfl, key, hregistered⟩ := hadmits
    exact h.disconnect hamenable hregistered
  | connect c requested =>
    obtain ⟨-, key, hregistered⟩ := hadmits
    exact h.connect hamenable hregistered requested
  | update c =>
    obtain ⟨key, hregistered⟩ := hadmits
    exact h.update hamenable hregistered
  | _ => exact hadmits.elim

theorem Keeps.run (h : site.Keeps keys engine) (hamenable : site.Amenable keys)
    {operations : List Operation} (hfollows : engine.Follows (site.Admits keys) operations) :
    site.Keeps keys (engine.run operations) := by
  induction operations generalizing engine with
  | nil => exact h
  | cons operation rest ih =>
    obtain ⟨hadmits, hrest⟩ := hfollows
    exact ih (h.perform hamenable hadmits) hrest

/-- Nothing is wired between keys that are not connected. -/
theorem keeps_create {host : Host} (config : Config) (nodeOf : String → NodeId)
    (options : EngineOptions) (haccepts : ∀ id, (host.handler id).Accepts) :
    (siteOf host config nodeOf).Keeps keys ((start host options).create config).1 := by
  obtain ⟨hhosts, hconnected, hmemo, hwires⟩ := hosts_create config nodeOf options haccepts
  refine ⟨⟨[], List.nil_subset _, hhosts⟩, fun wire => ?_, fun a _ b _ text wires _ _ => ?_⟩
  · rw [hwires]
    exact iff_of_false List.not_mem_nil fun ⟨a, _, _, ha, _⟩ => hconnected a ha
  · rw [hmemo]
    exact iff_of_false List.not_mem_nil fun ⟨ha, _⟩ => hconnected a ha

/-- Texts that no link has are settled by no key. -/
theorem reciprocal_of_forall_links
    (h : ∀ key ∈ keys, ∀ link ∈ site.outgoing key ++ site.incoming key,
      site.Reciprocal keys link.text) (text : String) : site.Reciprocal keys text := by
  by_cases hlink : ∃ key ∈ keys, ∃ link ∈ site.outgoing key ++ site.incoming key, link.text = text
  · obtain ⟨key, hkey, link, hlink, rfl⟩ := hlink
    exact h key hkey link hlink
  · have hnone {a b : String} (ha : a ∈ keys) {wires : List Wire}
        (hoffer : site.offer a [b] text = some wires) : False := by
      obtain ⟨link, hmem, htext⟩ := exists_link_of_isSome_offer (Option.isSome_of_eq_some hoffer)
      exact hlink ⟨a, ha, link, hmem, htext⟩
    exact ⟨fun a ha b _ _ _ _ _ _ hoffer => (hnone ha hoffer).elim,
      fun a ha b _ _ hcouple => (hnone ha (couple_eq_some.mp hcouple).2).elim⟩

end Site

variable {host : Host} {config : Config} {nodeOf : String → NodeId} {keys : List String}
  {operations : List Operation} {c : ControllerId}

/-- Where keys are reciprocal, a soft disconnection of a connected controller and a connection after
it restore the wires, whichever keys have been added, disconnected softly and connected again
before. -/
theorem wires_reconnected (options : EngineOptions) (haccepts : ∀ id, (host.handler id).Accepts)
    (hlegible : (siteOf host config nodeOf).Legible keys)
    (hreciprocal : ∀ text, (siteOf host config nodeOf).Reciprocal keys text)
    (hfollows : ((start host options).create config).1.Follows
      ((siteOf host config nodeOf).Admits keys) operations)
    (hconnected : ((((start host options).create config).1.run operations).controller c).connected =
      true) (wire : Wire) :
    let engine := ((start host options).create config).1.run operations
    wire ∈ ((engine.disconnect c false).connect c none).1.wires ↔ wire ∈ engine.wires := by
  intro engine
  have hamenable : (siteOf host config nodeOf).Amenable keys :=
    ⟨⟨config, rfl⟩, hlegible, hreciprocal⟩
  have hkeeps : (siteOf host config nodeOf).Keeps keys engine :=
    (Site.keeps_create config nodeOf options haccepts).run hamenable hfollows
  obtain ⟨mounted, -, hhosts⟩ := hkeeps.hosts
  have hconnected' : (engine.scene.controller c).connected = true := by
    rw [scene_controller]
    exact hconnected
  obtain ⟨key, hregistered⟩ := hhosts.exists_registered hconnected'
  have hkey := (Scene.isConnected_iff_of_registered hregistered).mpr hconnected'
  have hsame : (engine.update c).1.scene.IsConnected = engine.scene.IsConnected := by
    funext other
    rw [(hhosts.update hregistered).2, or_iff_right_of_imp fun hother => hother ▸ hkey]
  have hwires := (hkeeps.update hamenable hregistered).wires wire
  rw [hsame, ← hkeeps.wires] at hwires
  exact hwires

/-- An item and its panel have the same placeholders, and restore what they have wired. -/
theorem wires_reconnected_panel :
    let config := Config.ofInteractions
      [(Interaction.ofTrigger "card[]" .click).withEffect ((Effect.byId "f").on "panel[]")]
    let nodeOf (key : String) := if key = "card[0]" then 1 else if key = "panel[0]" then 2 else
      if key = "card[1]" then 3 else 4
    let add (key : String) : Operation := .addNode (nodeOf key) key
    let engine := ((start .bare .standard).create config).1.run [add "panel[0]", add "card[0]",
      add "card[1]", .disconnect 1 false, add "panel[1]", .connect 1 none]
    ⟨1, 2, ⟨"panel[0]", "f", 0⟩⟩ ∈ engine.wires ∧
      ∀ wire, wire ∈ ((engine.disconnect 0 false).connect 0 none).1.wires ↔
        wire ∈ engine.wires := by
  intro config nodeOf add engine
  let keys := ["card[0]", "panel[0]", "card[1]", "panel[1]"]
  have hlegible : (siteOf .bare config nodeOf).Legible keys :=
    ⟨by decide +kernel, by decide +kernel, by decide +kernel⟩
  have hreciprocal : ∀ text, (siteOf .bare config nodeOf).Reciprocal keys text :=
    Site.reciprocal_of_forall_links (by decide +kernel)
  refine ⟨by decide +kernel, wires_reconnected .standard (fun _ => Handler.accepts_accepting)
    hlegible hreciprocal ?_ (by decide +kernel)⟩
  exact ⟨⟨rfl, by decide, by decide⟩, ⟨rfl, by decide, by decide⟩, ⟨rfl, by decide, by decide⟩,
    ⟨rfl, "card[0]", by decide +kernel⟩, ⟨rfl, by decide, by decide⟩,
    ⟨rfl, "card[0]", by decide +kernel⟩, trivial⟩

-- A target without a placeholder does not find the item again that has wired it.
example :
    let config := Config.ofInteractions
      [(Interaction.ofTrigger "card[]" .click).withEffect ((Effect.byId "f").on "button")]
    let engine := ((start .bare .standard).create config).1.run
      [.addNode 2 "button", .addNode 1 "card[0]"]
    engine.wires = [⟨1, 2, ⟨"button", "f", 0⟩⟩] ∧
      ((engine.disconnect 0 false).connect 0 none).1.wires = [] := by
  decide +kernel

end InteractionBinding.Engine
