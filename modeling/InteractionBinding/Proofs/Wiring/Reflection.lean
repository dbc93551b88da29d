import InteractionBinding.Proofs.Wiring.Releasing
/-!
# Wirings that an engine reflects

A wiring says which variants are wired in which instance. An engine reflects a wiring if its live
wires are those of the variants and if their ids have been applied (`Engine.Reflects`). Resolving a
key adds the variants that the scene expects for the key (`Engine.Reflects.resolveIn`).
-/

namespace InteractionBinding.Engine

/-- Which variants are wired in which instance. -/
abbrev Wiring := InstanceId → Variant → Prop

/-- The live wires and what has been applied are those of a wiring between connected keys. -/
structure Reflects (ground : Ground) (configs : List Config) (wiring : Wiring) (engine : Engine) :
    Prop where
  wires (wire : Wire) : wire ∈ engine.wires ↔
    ∃ i variant, wiring i variant ∧ wire ∈ ground.wiresOf variant
  memo (i : InstanceId) (text : String) : text ∈ (engine.inst i).memo ↔
    ∃ variant, wiring i variant ∧ variant.text = text ∧ ground.wiresOf variant ≠ []
  declared (i : InstanceId) (variant : Variant) : wiring i variant →
    ∃ config, configs[i]? = some config ∧ config.Declares variant
  connected (i : InstanceId) (variant : Variant) : wiring i variant →
    engine.scene.IsConnected variant.rule.key ∧ engine.scene.IsConnected variant.effect.target

variable {ground : Ground} {configs : List Config} {keys : List String} {wiring : Wiring}
  {engine : Engine} {i : InstanceId} {c : ControllerId} {key : String} {config : Config}

/-- A plain configuration has no ids of sequences. -/
theorem not_isSequenceId (horderly : engine.scene.Orderly ground configs keys)
    (hi : configs[i]? = some config) (id : String) :
    ¬(Pass.mk i none).IsSequenceId engine key id := by
  rintro ⟨sourceKey, node, interaction, sequence, -, hnode, htrigger, hsequence, -⟩
  obtain ⟨graphKey, -, hget⟩ := Pass.node?_eq_some.mp hnode
  rw [Pass.graph, graph_inst_eq, horderly.inst_eq hi] at hget
  obtain ⟨hci, -⟩ := (Graph.mem_triggers_iff hget).mp htrigger
  rw [(horderly.plain config (List.mem_of_getElem? hi)).sequences interaction hci] at hsequence
  cases hsequence

/-- What is expected for a connected key: what is chosen between the key and the connected keys. -/
theorem touches_and_expects_iff (horderly : engine.scene.Orderly ground configs keys)
    (hi : configs[i]? = some config) (hself : engine.scene.IsConnected key) {variant : Variant} :
    variant.Touches key ∧ engine.scene.Expects configs i variant ↔
      config.Chooses (ground.site config engine.scene.queryState).isOpen variant ∧
        Site.Meets variant key
          (keys.filter fun key => (engine.scene.connectedController? key).isSome) := by
  have hmem (other : String) : other ∈ key :: (keys.filter fun key =>
      (engine.scene.connectedController? key).isSome) ↔ engine.scene.IsConnected other := by
    rw [List.mem_cons, horderly.mem_filter_connected]
    exact or_iff_right_of_imp fun heq => heq ▸ hself
  rw [Ground.isOpen_site, Site.Meets, hmem, hmem]
  constructor
  · rintro ⟨htouches, ⟨config', hi', hchooses⟩, hsource, htarget⟩
    obtain rfl := Option.some.inj (hi.symm.trans hi')
    exact ⟨hchooses, htouches, hsource, htarget⟩
  · rintro ⟨hchooses, htouches, hsource, htarget⟩
    exact ⟨htouches, ⟨config, hi, hchooses⟩, hsource, htarget⟩

/-- Resolving a connected key in an instance applies and wires what is expected for the key. -/
theorem resolveIn_expected (horderly : engine.scene.Orderly ground configs keys)
    (hi : configs[i]? = some config) (hself : engine.connectedController? key = some c) :
    (∀ text, text ∈ ((resolveIn c key engine i).inst i).memo ↔ text ∈ (engine.inst i).memo ∨
      ∃ variant, (variant.Touches key ∧ engine.scene.Expects configs i variant) ∧
        variant.text = text ∧ ground.wiresOf variant ≠ []) ∧
    ∀ wire, wire ∈ (resolveIn c key engine i).wires ↔ wire ∈ engine.wires ∨
      wire.id.encode ∉ (engine.inst i).memo ∧
        ∃ variant, (variant.Touches key ∧ engine.scene.Expects configs i variant) ∧
          variant.text = wire.id.encode ∧ wire ∈ ground.wiresOf variant := by
  obtain ⟨middle, later, hout, hin, hsequences⟩ := resolveIn_spec c key engine i
  have hplain := horderly.plain config (List.mem_of_getElem? hi)
  have hsite := horderly.onSite hi
  have hkey : engine.scene.IsConnected key :=
    Option.isSome_of_eq_some (connectedController?_eq engine key ▸ hself)
  have hindices := horderly.indices key (horderly.mem_keys_of_connected hkey)
  have hlength : i < engine.instances.length := by
    have hlt := horderly.lt_of_getElem? hi
    rwa [scene, List.length_map] at hlt
  have hconnected (other : String) : (engine.connectedController? other).isSome ↔
      other ∈ key :: (keys.filter fun key => (engine.scene.connectedController? key).isSome) := by
    rw [List.mem_cons, horderly.mem_filter_connected, connectedController?_eq]
    exact (or_iff_right_of_imp fun heq => heq ▸ hkey).symm
  simp only [touches_and_expects_iff horderly hi hkey, and_assoc]
  refine ⟨fun text => ?_, fun wire => ?_⟩
  · obtain ⟨events, marked, hextends, -, hmarked⟩ := hsequences
    have hnone : text ∉ marked := fun hmem => not_isSequenceId horderly hi text (hmarked text hmem)
    rw [hextends.memo, or_iff_left (fun hmem => hnone hmem.2.2),
      Site.mem_memo_of_sides hsite hlength hself hconnected hout hin,
      Site.isSome_offer_plain_iff hplain hindices rfl]
    simp only [Ground.wiresOf_site]
  · rw [hsequences.wires_eq, Site.mem_wires_of_sides hsite hlength hself hconnected hout hin,
      Site.exists_mem_offer_plain_iff hplain hindices rfl]
    simp only [Ground.wiresOf_site]

namespace Reflects

theorem congr {wiring' : Wiring} (h : Reflects ground configs wiring engine)
    (hiff : ∀ i variant, wiring i variant ↔ wiring' i variant) :
    Reflects ground configs wiring' engine := by
  have heq : wiring = wiring' := funext fun i => funext fun variant => propext (hiff i variant)
  exact heq ▸ h

/-- Variants of one instance with the same text are the same if they are expected. -/
theorem eq_of_text_eq (horderly : engine.scene.Orderly ground configs keys)
    {variant other : Variant}
    (h : engine.scene.Expects configs i variant) (h' : engine.scene.Expects configs i other)
    (htext : variant.text = other.text) : variant = other := by
  obtain ⟨config, hi, hchooses⟩ := h.chosen
  obtain ⟨config', hi', hchooses'⟩ := h'.chosen
  obtain rfl := Option.some.inj (hi.symm.trans hi')
  have hplain := horderly.plain config (List.mem_of_getElem? hi)
  exact hchooses.unique hchooses'
    (hplain.ids variant other hchooses.declares hchooses'.declares htext)

/-- What has been applied under the text of a declared variant is between the same keys. -/
theorem exists_of_applied (h : Reflects ground configs wiring engine)
    (horderly : engine.scene.Orderly ground configs keys) (hi : configs[i]? = some config)
    {variant : Variant} (hdeclares : config.Declares variant)
    (happlied : variant.text ∈ (engine.inst i).memo) :
    ∃ other, wiring i other ∧ other.text = variant.text ∧
      ∀ key, other.Touches key ↔ variant.Touches key := by
  obtain ⟨other, hwired, htext, -⟩ := (h.memo i _).mp happlied
  obtain ⟨config', hi', hdeclares'⟩ := h.declared i other hwired
  obtain rfl := Option.some.inj (hi.symm.trans hi')
  have hplain := horderly.plain config (List.mem_of_getElem? hi)
  have hid := hplain.ids other variant hdeclares' hdeclares htext
  exact ⟨other, hwired, htext, hdeclares'.touches_iff hdeclares hid⟩

/-- What has been applied under the text of an expected variant is the variant itself. -/
theorem wired_of_applied (h : Reflects ground configs wiring engine)
    (horderly : engine.scene.Orderly ground configs keys)
    (hright : ∀ variant, wiring i variant → variant.Touches key →
      engine.scene.Expects configs i variant) {variant : Variant}
    (htouches : variant.Touches key) (hexpects : engine.scene.Expects configs i variant)
    (happlied : variant.text ∈ (engine.inst i).memo) : wiring i variant := by
  obtain ⟨config, hi, hchooses⟩ := hexpects.chosen
  obtain ⟨other, hwired, htext, hsame⟩ :=
    h.exists_of_applied horderly hi hchooses.declares happlied
  have hexpects' := hright other hwired ((hsame key).mpr htouches)
  exact eq_of_text_eq horderly hexpects' hexpects htext ▸ hwired

/-- Resolving a connected key in an instance wires what the scene expects for the key. -/
theorem resolveIn (h : Reflects ground configs wiring engine)
    (horderly : engine.scene.Orderly ground configs keys) (hi : configs[i]? = some config)
    (hself : engine.connectedController? key = some c)
    (hright : ∀ variant, wiring i variant → variant.Touches key →
      engine.scene.Expects configs i variant) :
    Reflects ground configs (fun j variant => wiring j variant ∨
      j = i ∧ variant.Touches key ∧ engine.scene.Expects configs i variant)
      (Engine.resolveIn c key engine i) := by
  obtain ⟨hmemo, hwires⟩ := resolveIn_expected horderly hi hself
  refine ⟨fun wire => ?_, fun j text => ?_, fun j variant => ?_, fun j variant => ?_⟩
  · rw [hwires, h.wires]
    constructor
    · rintro (⟨j, variant, hwired, hwire⟩ | ⟨-, variant, hexpected, -, hwire⟩)
      · exact ⟨j, variant, .inl hwired, hwire⟩
      · exact ⟨i, variant, .inr ⟨rfl, hexpected⟩, hwire⟩
    · rintro ⟨j, variant, hwired | ⟨rfl, htouches, hexpects⟩, hwire⟩
      · exact .inl ⟨j, variant, hwired, hwire⟩
      · have htext := Ground.text_eq_of_mem_wiresOf hwire
        by_cases happlied : wire.id.encode ∈ (engine.inst j).memo
        · have hwired := h.wired_of_applied horderly hright htouches hexpects (htext ▸ happlied)
          exact .inl ⟨j, variant, hwired, hwire⟩
        · exact .inr ⟨happlied, variant, ⟨htouches, hexpects⟩, htext.symm, hwire⟩
  · by_cases hj : j = i
    · subst hj
      rw [hmemo, h.memo]
      simp only [or_and_right, exists_or, true_and, and_assoc]
    · rw [mem_memo_resolveIn_of_ne hj, h.memo]
      simp only [hj, false_and, or_false]
  · rintro (hwired | ⟨rfl, -, hexpects⟩)
    · exact h.declared j variant hwired
    · obtain ⟨config', hi', hchooses⟩ := hexpects.chosen
      exact ⟨config', hi', hchooses.declares⟩
  · rw [scene_resolveIn]
    rintro (hwired | ⟨-, -, hexpects⟩)
    · exact h.connected j variant hwired
    · exact ⟨hexpects.source, hexpects.target⟩

theorem foldl_resolveIn (horderly : engine.scene.Orderly ground configs keys)
    (hself : engine.connectedController? key = some c) {instances : List InstanceId}
    (hinstances : ∀ i ∈ instances, i < configs.length) (h : Reflects ground configs wiring engine)
    (hright : ∀ i variant, wiring i variant → variant.Touches key →
      engine.scene.Expects configs i variant) :
    Reflects ground configs (fun i variant => wiring i variant ∨
      i ∈ instances ∧ variant.Touches key ∧ engine.scene.Expects configs i variant)
      (instances.foldl (Engine.resolveIn c key) engine) := by
  induction instances generalizing engine wiring with
  | nil => exact h.congr fun i variant => by simp
  | cons i rest ih =>
    have hi := List.getElem?_eq_getElem (hinstances i (.head _))
    have hscene := scene_resolveIn c key engine i
    have hself' : (Engine.resolveIn c key engine i).connectedController? key = some c := by
      rw [Engine.connectedController?_eq, hscene, ← Engine.connectedController?_eq, hself]
    have hresolved := h.resolveIn horderly hi hself (hright i)
    have horderly' : (Engine.resolveIn c key engine i).scene.Orderly ground configs keys := by
      rw [hscene]
      exact horderly
    have hrest := ih horderly' hself' (fun j hj => hinstances j (.tail _ hj)) hresolved <| by
      rw [hscene]
      rintro j variant (hwired | ⟨rfl, -, hexpects⟩) htouches
      · exact hright j variant hwired htouches
      · exact hexpects
    rw [hscene] at hrest
    rw [List.foldl_cons]
    refine hrest.congr fun j variant => ?_
    rw [List.mem_cons, or_and_right, or_assoc]
    refine or_congr_right (or_congr_left ⟨?_, ?_⟩)
    · rintro ⟨rfl, h⟩
      exact ⟨rfl, h⟩
    · rintro ⟨rfl, h⟩
      exact ⟨rfl, h⟩

/-- Resolving a connected key in the instances that know it wires what the scene expects for it. -/
theorem resolve (h : Reflects ground configs wiring engine)
    (horderly : engine.scene.Orderly ground configs keys)
    (hself : engine.connectedController? key = some c)
    (hright : ∀ i variant, wiring i variant → variant.Touches key →
      engine.scene.Expects configs i variant) :
    Reflects ground configs (fun i variant => wiring i variant ∨
      variant.Touches key ∧ engine.scene.Expects configs i variant)
      ((engine.instancesFor key).foldl (Engine.resolveIn c key) engine) := by
  have hmem (i : InstanceId) : i ∈ engine.instancesFor key ↔
      i < configs.length ∧ (engine.scene.inst i).graph.knows key = true := by
    rw [instancesFor_eq, List.mem_filter, horderly.live, List.mem_range]
  refine (foldl_resolveIn horderly hself (fun i hi => ((hmem i).mp hi).1) h hright).congr ?_
  intro i variant
  refine or_congr_right (and_iff_right_of_imp ?_)
  rintro ⟨htouches, hexpects⟩
  obtain ⟨config, hi, hchooses⟩ := hexpects.chosen
  have hconnected : engine.scene.IsConnected key :=
    htouches.elim (fun heq => heq ▸ hexpects.source) fun heq => heq ▸ hexpects.target
  have hindices := horderly.indices key (horderly.mem_keys_of_connected hconnected)
  rw [hmem]
  exact ⟨(List.getElem?_eq_some_iff.mp hi).1,
    horderly.knows_of_touches hi hindices hchooses.declares htouches⟩

/-- The wires of a wired variant end at nodes of its keys. -/
theorem owns (h : Reflects ground configs wiring engine)
    (horderly : engine.scene.Orderly ground configs keys) {variant : Variant}
    (hwired : wiring i variant) {wire : Wire} (hwire : wire ∈ ground.wiresOf variant) :
    ground.Owns configs variant.rule.key wire.source ∧
      ground.Owns configs variant.effect.target wire.target := by
  obtain ⟨config, hi, hdeclares⟩ := h.declared i variant hwired
  have hconfig := List.mem_of_getElem? hi
  exact Ground.owns_of_mem_wiresOf hconfig (horderly.plain config hconfig) hdeclares hwire

/-- The wires of the variants that a key takes part in, and no others, end at its nodes. -/
theorem touches_iff (h : Reflects ground configs wiring engine)
    (horderly : engine.scene.Orderly ground configs keys) (hapart : ground.Apart configs keys)
    (hkey : key ∈ keys) {variant : Variant} (hwired : wiring i variant) {wire : Wire}
    (hwire : wire ∈ ground.wiresOf variant) :
    variant.Touches key ↔ ∃ node, ground.Owns configs key node ∧ wire.touches node = true := by
  obtain ⟨hsource, htarget⟩ := h.owns horderly hwired hwire
  obtain ⟨hsource_connected, htarget_connected⟩ := h.connected i variant hwired
  have hsource_mem := horderly.mem_keys_of_connected hsource_connected
  have htarget_mem := horderly.mem_keys_of_connected htarget_connected
  constructor
  · rintro (rfl | rfl)
    · exact ⟨wire.source, hsource, by simp [Wire.touches]⟩
    · exact ⟨wire.target, htarget, by simp [Wire.touches]⟩
  · rintro ⟨node, howns, htouches⟩
    rw [Wire.touches, Bool.or_eq_true, decide_eq_true_eq, decide_eq_true_eq] at htouches
    -- keys that are not the same have no node in common
    refine htouches.imp (fun heq => ?_) fun heq => ?_ <;> by_contra hne
    · exact hapart _ hsource_mem key hkey hne node (heq ▸ hsource) howns
    · exact hapart _ htarget_mem key hkey hne node (heq ▸ htarget) howns

/-- Disconnecting a key takes away the variants of the key, and no others. -/
theorem disconnect (h : Reflects ground configs wiring engine)
    (horderly : engine.scene.Orderly ground configs keys) (hapart : ground.Apart configs keys)
    (hregistered : engine.scene.registry.get? key = some c) (evict : Bool) :
    Reflects ground configs (fun i variant => wiring i variant ∧ ¬variant.Touches key)
      (engine.disconnect c evict) := by
  have hparts := parts_disconnect horderly.toSeated hregistered evict
  have hkey := horderly.registered key c hregistered
  have hmem := List.mem_of_getElem? hkey
  have hindices := horderly.indices key hmem
  have hhandlers : engine.host.handlers = ground.handlers := horderly.handlers
  refine ⟨fun wire => ?_, fun i text => ?_, fun i variant hwired => h.declared i variant hwired.1,
    fun i variant hwired => ?_⟩
  · rw [hparts.wires, h.wires]
    constructor
    · rintro ⟨⟨i, variant, hwired, hwire⟩, hkept⟩
      refine ⟨i, variant, ⟨hwired, fun htouches => ?_⟩, hwire⟩
      -- a key that takes part is connected, so that its nodes have been torn down
      have hisConnected : engine.scene.IsConnected key := by
        obtain ⟨hsource, htarget⟩ := h.connected i variant hwired
        exact htouches.elim (fun heq => heq ▸ hsource) fun heq => heq ▸ htarget
      rw [Scene.isConnected_iff_of_registered hregistered] at hisConnected
      obtain ⟨handler, hhandler⟩ := HandlerTable.exists_mem_all (ground.isSome_of_mem_wiresOf hwire)
      obtain ⟨node, howns, hends⟩ := (h.touches_iff horderly hapart hmem hwired hwire).mp htouches
      have hfree := hkept hisConnected handler (hhandlers ▸ hhandler) node
        ((mem_ownedNodes_iff horderly hkey).mpr howns)
      exact Bool.false_ne_true (hfree.symm.trans hends)
    · rintro ⟨i, variant, ⟨hwired, hother⟩, hwire⟩
      refine ⟨⟨i, variant, hwired, hwire⟩, fun _ handler _ node hnode => ?_⟩
      rw [mem_ownedNodes_iff horderly hkey] at hnode
      rw [h.touches_iff horderly hapart hmem hwired hwire] at hother
      exact Bool.eq_false_iff.mpr fun hends => hother ⟨node, hnode, hends⟩
  · rw [hparts.memo, h.memo]
    constructor
    · rintro ⟨⟨variant, hwired, rfl, hne⟩, hkept⟩
      obtain ⟨config, hi, hdeclares⟩ := h.declared i variant hwired
      rw [← touches_iff_mem_interactionIdsFor horderly hindices hi hdeclares] at hkept
      exact ⟨variant, ⟨hwired, hkept⟩, rfl, hne⟩
    · rintro ⟨variant, ⟨hwired, hother⟩, rfl, hne⟩
      obtain ⟨config, hi, hdeclares⟩ := h.declared i variant hwired
      rw [← touches_iff_mem_interactionIdsFor horderly hindices hi hdeclares]
      exact ⟨⟨variant, hwired, rfl, hne⟩, hother⟩
  · obtain ⟨hwired, hother⟩ := hwired
    obtain ⟨hsource, htarget⟩ := h.connected i variant hwired
    rw [Variant.Touches, not_or] at hother
    rw [hparts.isConnected_iff horderly.toSeated hregistered,
      hparts.isConnected_iff horderly.toSeated hregistered]
    exact ⟨⟨hsource, hother.1⟩, ⟨htarget, hother.2⟩⟩

end Reflects

end InteractionBinding.Engine
