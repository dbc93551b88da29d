import InteractionBinding.Proofs.Keys.InteractionIds
import InteractionBinding.Proofs.Keys.Templates
import InteractionBinding.Proofs.Wiring.Choices
import InteractionBinding.Proofs.Wiring.ConnectionOrder
/-!
# Items of a list template

The items of a list are looked up under one template and share its effects. The id of an effect
names its target and not its source, so an effect on a target without a placeholder has one text for
all items. The first item that connects settles the text, and the others are not wired
(`Engine.mem_wires_items`): every item is wired in every order exactly if the items agree on what
they wire (`Engine.items_wired_iff`).
-/

namespace InteractionBinding.Engine

/-- A variant waits for items: its rule stands under a template, its effect lands on a key without a
placeholder, its gate is open, and its target is among keys that connect before the items, while none
of these is an item, or what the template makes of the indices of one of them. -/
structure Site.Awaits (site : Site) (config : Config) (variant : Variant)
    (earlier items : List String) : Prop where
  declares : config.Declares variant
  template : KeyTemplate.isTemplate variant.rule.key = true
  concrete : KeyTemplate.isTemplate variant.effect.target = false
  isOpen : (site.gate variant.rule variant.effect).isOpen = true
  target : variant.effect.target ∈ earlier
  items : ∀ item ∈ items, site.graph.resolveKey item = some variant.rule.key
  noItems : ∀ key ∈ earlier, site.graph.resolveKey key ≠ some variant.rule.key ∧
    KeyTemplate.interpolate variant.rule.key (KeyTemplate.indices key) ∉ earlier

namespace Site

variable {site : Site} {config : Config} {variant : Variant} {link : Link} {key : String}
  {keys earlier items : List String}

/-- A link from a key under the text of a variant is made by the interaction of the variant, under
which the graph looks the key up. -/
theorem resolveKey_of_mem_outgoing (hgraph : site.graph = .ofConfig config)
    (hdeclares : config.Declares variant) (hlink : link ∈ site.outgoing key)
    (htext : link.text = variant.text) : site.graph.resolveKey key = some variant.rule.key := by
  obtain ⟨ci, hci, hrule, heffect⟩ := hdeclares
  rw [outgoing] at hlink
  split at hlink
  next => cases hlink
  next node hnode =>
    obtain ⟨graphKey, hresolve, hget⟩ := Option.bind_eq_some_iff.mp hnode
    obtain ⟨interaction, htrigger, hlink⟩ := List.mem_flatMap.mp hlink
    obtain ⟨effect, hmem, rfl⟩ := List.mem_map.mp hlink
    rw [hgraph] at hget
    obtain ⟨haccepted, hkey⟩ := (Graph.mem_triggers_iff hget).mp htrigger
    have hindex : (effect.id.interpolate (KeyTemplate.indices key)).index =
      variant.effect.id.index := InteractionId.index_eq_of_encode_eq htext
    rw [InteractionId.interpolate,
      Compile.id_eq_of_mem_effects haccepted (List.mem_filter.mp hmem).1,
      Compile.id_eq_of_mem_effects hci heffect] at hindex
    rw [hresolve, ← hkey, Compile.accepted_eq_of_index_eq haccepted hci hindex, hrule]

/-- A link to a key under the text of a variant comes from what the template of the variant makes of
the indices of the key, and the key is no item. -/
theorem other_of_mem_incoming (hgraph : site.graph = .ofConfig config)
    (hdeclares : config.Declares variant) (hlink : link ∈ site.incoming key)
    (htext : link.text = variant.text) :
    site.graph.resolveKey key ≠ some variant.rule.key ∧
      link.other = KeyTemplate.interpolate variant.rule.key (KeyTemplate.indices key) := by
  obtain ⟨ci, hci, hrule, heffect⟩ := hdeclares
  rw [incoming] at hlink
  split at hlink
  next => cases hlink
  next node hnode =>
    obtain ⟨graphKey, hresolve, hget⟩ := Option.bind_eq_some_iff.mp hnode
    obtain ⟨entry, hentry, hlink⟩ := List.mem_filterMap.mp hlink
    obtain ⟨made, hfind, rfl⟩ := Option.map_eq_some_iff.mp hlink
    rw [hgraph] at hget
    obtain ⟨ci', hci', hindex', hother, -, -, hvariants⟩ := Graph.variants_eq hget hentry
    have hindex : (entry.id.interpolate (KeyTemplate.indices key)).index =
      variant.effect.id.index := InteractionId.index_eq_of_encode_eq htext
    rw [InteractionId.interpolate, ← hindex', Compile.id_eq_of_mem_effects hci heffect] at hindex
    obtain rfl := Compile.accepted_eq_of_index_eq hci' hci hindex
    have hmade := List.mem_of_find?_eq_some hfind
    rw [hvariants] at hmade
    obtain ⟨effect, -, rfl⟩ := List.mem_map.mp hmade
    rw [hresolve, hrule]
    exact ⟨fun heq => hother (Option.some.inj heq).symm, rfl⟩

namespace Awaits

/-- The link from an item to the target. -/
theorem mem_outgoing (h : site.Awaits config variant earlier items)
    (hgraph : site.graph = .ofConfig config) {item : String} (hitem : item ∈ items) :
    ⟨variant.effect.id, variant.rule, variant.effect, variant.effect.target⟩ ∈
      site.outgoing item := by
  obtain ⟨ci, hci, hrule, heffect⟩ := h.declares
  obtain ⟨node, hnode, htrigger⟩ := Graph.exists_node_of_mem_accepted hci
  have hget : site.graph.get? item = some node := by
    rw [Graph.get?, h.items item hitem, Option.bind_some, hrule, hgraph, hnode]
  have hne : variant.effect.target ≠ ci.rule.key := fun heq =>
    Bool.false_ne_true (by rw [← h.concrete, heq, ← hrule, h.template])
  have hid (indices : List String) : variant.effect.id.interpolate indices = variant.effect.id := by
    rw [InteractionId.interpolate, h.declares.target_eq,
      KeyTemplate.interpolate_of_isTemplate_eq_false h.concrete, ← h.declares.target_eq]
  rw [outgoing, hget]
  refine List.mem_flatMap.mpr ⟨ci, htrigger, List.mem_map.mpr ⟨variant.effect, ?_, ?_⟩⟩
  · exact List.mem_filter.mpr ⟨heffect, hrule ▸ h.isOpen⟩
  · rw [if_neg hne, hid, KeyTemplate.interpolate_of_isTemplate_eq_false h.concrete, hrule]

/-- The keys that connect before the items do not settle the text. -/
theorem settle_earlier (h : site.Awaits config variant earlier items)
    (hgraph : site.graph = .ofConfig config) {order : List String} (horder : order ⊆ earlier) :
    site.settle order variant.text = none := by
  induction order with
  | nil => rfl
  | cons key rest ih =>
    obtain ⟨hkey, hrest⟩ := List.cons_subset.mp horder
    rw [settle, ih hrest, Option.none_or, ← Option.not_isSome_iff_eq_none, isSome_offer_iff]
    obtain ⟨hnoItem, hnone⟩ := h.noItems key hkey
    rintro (⟨link, hlast, -⟩ | ⟨link, hmem, -⟩)
    · obtain ⟨hlink, htext, -⟩ := mem_linksTo.mp (List.mem_of_getLast? hlast)
      exact hnoItem (resolveKey_of_mem_outgoing hgraph h.declares hlink htext)
    · obtain ⟨hlink, htext, hother⟩ := mem_linksTo.mp hmem
      rw [(other_of_mem_incoming hgraph h.declares hlink htext).2] at hother
      exact hnone (horder hother)

/-- What an item offers does not depend on which keys are connected beside the target. -/
theorem offer_eq (h : site.Awaits config variant earlier items)
    (hgraph : site.graph = .ofConfig config) (hlegible : site.Legible keys) {item : String}
    (hitem : item ∈ items) (hkey : item ∈ keys) {others : List String}
    (htarget : variant.effect.target ∈ others) :
    site.offer item others variant.text =
      site.offer item [variant.effect.target] variant.text := by
  have hincoming (others : List String) :
      linksTo (site.incoming item) item others variant.text = [] := by
    rw [List.eq_nil_iff_forall_not_mem]
    intro link hmem
    obtain ⟨hlink, htext, -⟩ := mem_linksTo.mp hmem
    exact (other_of_mem_incoming hgraph h.declares hlink htext).1 (h.items item hitem)
  have hlink (others : List String) (htarget : variant.effect.target ∈ others) :
      (⟨variant.effect.id, variant.rule, variant.effect, variant.effect.target⟩ : Link) ∈
        linksTo (site.outgoing item) item others variant.text :=
    mem_linksTo.mpr ⟨h.mem_outgoing hgraph hitem, rfl, .tail _ htarget⟩
  rw [offer, offer, hincoming, hincoming, linksTo_congr (hlegible.outgoing item hkey)
    (hlink [variant.effect.target] List.mem_cons_self) (hlink others htarget)]

/-- The items settle the text with what the first of them offers that has anything to offer. -/
theorem settle_items (h : site.Awaits config variant earlier items)
    (hgraph : site.graph = .ofConfig config) (hlegible : site.Legible keys) (hkeys : items ⊆ keys) :
    site.settle (items.reverse ++ earlier.reverse) variant.text =
      items.findSome? fun item => site.offer item [variant.effect.target] variant.text := by
  induction items using List.reverseRecOn with
  | nil => exact h.settle_earlier hgraph fun key hkey => List.mem_reverse.mp hkey
  | append_singleton front item ih =>
    obtain ⟨hfront, hitem⟩ := List.append_subset.mp hkeys
    have hawaits : site.Awaits config variant earlier front :=
      { h with items := fun other hother => h.items other (List.mem_append_left _ hother) }
    have hoffer : site.offer item (front.reverse ++ earlier.reverse) variant.text = _ :=
      h.offer_eq hgraph hlegible (by simp) (hitem List.mem_cons_self)
        (List.mem_append_right _ (List.mem_reverse.mpr h.target))
    rw [List.reverse_append, List.reverse_singleton, List.singleton_append, List.cons_append,
      settle, ih hawaits hfront, hoffer, List.findSome?_append, List.findSome?_singleton]

end Awaits

end Site

variable {host : Host} {config : Config} {nodeOf : String → NodeId} {variant : Variant}
  {keys earlier items : List String}

/-- The wires of an effect that awaits items are those of the first item to connect that has any. -/
theorem mem_wires_items (options : EngineOptions) (haccepts : ∀ id, (host.handler id).Accepts)
    (hlegible : (siteOf host config nodeOf).Legible keys) (hnonempty : "" ∉ keys)
    (hnodup : (earlier ++ items).Nodup) (hkeys : earlier ++ items ⊆ keys)
    (hawaits : (siteOf host config nodeOf).Awaits config variant earlier items) {wire : Wire}
    (htext : wire.id.encode = variant.text) :
    wire ∈ (added host options config nodeOf (earlier ++ items)).wires ↔
      ∃ wires, (items.findSome? fun item => (siteOf host config nodeOf).offer item
        [variant.effect.target] variant.text) = some wires ∧ wire ∈ wires := by
  rw [mem_wires_added options haccepts hlegible hnonempty hnodup hkeys, Site.Settled, htext,
    List.reverse_append, hawaits.settle_items rfl hlegible (List.append_subset.mp hkeys).2]

/-- After the items of a template have connected, each of them is wired to a target without a
placeholder, whatever the order in which they connect, exactly if the items do not differ in what
they wire to it. -/
theorem items_wired_iff (options : EngineOptions) (haccepts : ∀ id, (host.handler id).Accepts)
    (hlegible : (siteOf host config nodeOf).Legible keys) (hnonempty : "" ∉ keys)
    (hnodup : (earlier ++ items).Nodup) (hkeys : earlier ++ items ⊆ keys)
    (hawaits : (siteOf host config nodeOf).Awaits config variant earlier items) :
    let offered (item : String) :=
      (siteOf host config nodeOf).offer item [variant.effect.target] variant.text
    (∀ order, order.Perm items → ∀ item ∈ items, ∀ wires, offered item = some wires →
      ∀ wire ∈ wires, wire ∈ (added host options config nodeOf (earlier ++ order)).wires) ↔
    ∀ item ∈ items, ∀ other ∈ items, ∀ wires wires', offered item = some wires →
      offered other = some wires' → ∀ wire ∈ wires, wire ∈ wires' := by
  intro offered
  have hwires {order : List String} (hperm : order.Perm items) {wire : Wire}
      (htext : wire.id.encode = variant.text) :
      wire ∈ (added host options config nodeOf (earlier ++ order)).wires ↔
        ∃ wires, order.findSome? offered = some wires ∧ wire ∈ wires := by
    have hperm' : (earlier ++ order).Perm (earlier ++ items) := hperm.append_left earlier
    exact mem_wires_items options haccepts hlegible hnonempty (hperm'.nodup_iff.mpr hnodup)
      (fun key hkey => hkeys (hperm'.mem_iff.mp hkey))
      { hawaits with items := fun item hitem => hawaits.items item (hperm.mem_iff.mp hitem) } htext
  constructor
  · intro h item hitem other hother wires wires' hoffer hoffer' wire hwire
    -- the other item connects first
    have hperm := (List.perm_cons_erase hother).symm
    obtain ⟨settled, hfirst, hmem⟩ := (hwires hperm (Site.text_eq_of_mem_offer hoffer hwire)).mp
      (h _ hperm item hitem wires hoffer wire hwire)
    rw [List.findSome?_cons_of_isSome (by rw [hoffer']; rfl), hoffer'] at hfirst
    exact Option.some.inj hfirst ▸ hmem
  · intro h order hperm item hitem wires hoffer wire hwire
    rw [hwires hperm (Site.text_eq_of_mem_offer hoffer hwire)]
    obtain ⟨settled, hfirst⟩ := Option.isSome_iff_exists.mp (List.findSome?_isSome_iff.mpr
      ⟨item, hperm.mem_iff.mpr hitem, Option.isSome_of_eq_some hoffer⟩)
    obtain ⟨other, hother, hoffer'⟩ := List.exists_of_findSome?_eq_some hfirst
    exact ⟨settled, hfirst,
      h item hitem other (hperm.mem_iff.mp hother) wires settled hoffer hoffer' wire hwire⟩

/-- Of two cards on different nodes only the first one to connect is wired to the button. -/
theorem items_wired_iff_cards :
    let config := Config.ofInteractions
      [(Interaction.ofTrigger "card[]" .click).withEffect ((Effect.byId "f").on "button")]
    let nodeOf (key : String) := if key = "card[0]" then 1 else if key = "card[1]" then 2 else 3
    let items := ["card[0]", "card[1]"]
    let offered (item : String) :=
      (siteOf .bare config nodeOf).offer item ["button"] (InteractionId.encode ⟨"button", "f", 0⟩)
    ¬∀ order, order.Perm items → ∀ item ∈ items, ∀ wires, offered item = some wires →
      ∀ wire ∈ wires, wire ∈ (added .bare .standard config nodeOf (["button"] ++ order)).wires := by
  intro config nodeOf items offered hwired
  let variant : Variant := ⟨⟨0, "card[]", .click, .empty, [], none, none, none⟩,
    ⟨⟨"button", "f", 0⟩, "f", "button", (Effect.byId "f").on "button"⟩⟩
  have hlegible : (siteOf .bare config nodeOf).Legible ("button" :: items) :=
    ⟨by decide +kernel, by decide +kernel, by decide +kernel⟩
  have hawaits : (siteOf .bare config nodeOf).Awaits config variant ["button"] items :=
    ⟨⟨_, List.mem_cons_self, rfl, List.mem_cons_self⟩, by decide, by decide, by decide +kernel,
      List.mem_cons_self, by decide +kernel, by decide +kernel⟩
  have hagree := (items_wired_iff .standard (fun _ => Handler.accepts_accepting) hlegible
    (by decide) (by decide) (List.Subset.refl _) hawaits).mp hwired
  have hsame := hagree "card[0]" (by decide) "card[1]" (by decide) [⟨1, 3, ⟨"button", "f", 0⟩⟩]
    [⟨2, 3, ⟨"button", "f", 0⟩⟩] (by decide +kernel) (by decide +kernel) _ List.mem_cons_self
  revert hsame
  decide

end InteractionBinding.Engine
