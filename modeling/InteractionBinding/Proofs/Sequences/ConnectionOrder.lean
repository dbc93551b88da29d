import InteractionBinding.Proofs.Sequences.Playing
import InteractionBinding.Proofs.Wiring.ConnectionOrder
/-!
# Sequences and the order in which keys connect

After keys without indices have been added to a fresh engine, handlers have accepted the plans of
the sequences that play with the keys (`Engine.accepts_added_iff`), in whatever order the keys have
been added (`Engine.sequences_converge`).

This holds as long as the sequences of an interaction are in harmony. Of several references to one
stored sequence the first has to be open if another one is: its source walks all of them, but a
member target finds the first one only.
-/

namespace InteractionBinding.Engine

open Compile

/-! ### Adding keys -/

/-- What an engine has made of sequences accords with keys: handlers have accepted the plans of the
sequences that play with the keys, and the ids of those that have a source node are kept as applied.
-/
structure Site.Accords (site : Site) (config : Config) (keys : List String) (engine : Engine) :
    Prop where
  applied (ci : CompiledInteraction) : ci ∈ accepted config → ∀ sequence ∈ ci.sequences,
    (sequence.id.encode ∈ (engine.inst 0).memo ↔ ∃ other ∈ ci.sequences, other.id = sequence.id ∧
      (∃ handler, site.Plays keys ci.rule other handler) ∧ site.sources ci.rule ≠ [])
  accepted (handler : HandlerId) (node : NodeId) (plan : SequencePlan) :
    engine.Accepts handler node plan ↔ ∃ ci ∈ accepted config, ∃ sequence ∈ ci.sequences,
      site.Plays keys ci.rule sequence handler ∧ node ∈ site.sources ci.rule ∧
      plan = site.sequencePlan sequence

namespace Site.Accords

variable {site : Site} {config : Config} {keys : List String} {engine before after : Engine}
  {key : String} {c : ControllerId} {selected : List Candidate}

theorem congr (h : site.Accords config keys before)
    (haccepted : ∀ handler node plan, after.Accepts handler node plan ↔
      before.Accepts handler node plan)
    (happlied : ∀ ci ∈ Compile.accepted config, ∀ sequence ∈ ci.sequences,
      sequence.id.encode ∈ (after.inst 0).memo ↔ sequence.id.encode ∈ (before.inst 0).memo) :
    site.Accords config keys after :=
  ⟨fun ci hci sequence hmem => (happlied ci hci sequence hmem).trans (h.applied ci hci sequence hmem),
    fun handler node plan => (haccepted handler node plan).trans (h.accepted handler node plan)⟩

/-- Wiring candidates, none of which has the text of a sequence, is nothing to sequences. -/
theorem wires (h : site.Accords config keys before)
    (hwires : (Pass.mk 0 none).Wires selected before after)
    (htexts : ∀ candidate ∈ selected, ∀ ci ∈ Compile.accepted config, ∀ sequence ∈ ci.sequences,
      candidate.memoKey ≠ sequence.id.encode) :
    site.Accords config keys after := by
  refine h.congr (fun handler node plan => hwires.accepts_iff) fun ci hci sequence hmem => ?_
  obtain ⟨offers, hoffers, hextends⟩ := hwires
  rw [hextends.memo, or_iff_left_iff_imp]
  rintro ⟨-, -, hmarked⟩
  obtain ⟨-, ⟨offer, hoffer, -, htext⟩ | ⟨candidate, hcandidate, -, htext⟩⟩ :=
    Pass.mem_marks.mp hmarked
  · have hselected := List.mem_reverse.mp (hoffers.candidate_mem hoffer).1
    exact absurd htext (htexts _ hselected ci hci sequence hmem)
  · exact absurd htext (htexts candidate hcandidate ci hci sequence hmem)

/-- Once a key is connected, applying its cues brings the sequences in accord with it, too. -/
theorem foldl_applyCue (h : site.Accords config keys engine)
    (hmounts : site.Mounts (keys ++ [key]) engine.scene) (hgraph : site.graph = .ofConfig config)
    (hharmony : site.Harmonious config)
    (hself : engine.scene.connectedController? key = some c) :
    site.Accords config (keys ++ [key])
      ((engine.scene.cues 0 c key).foldl (applyCue 0) engine) := by
  have hi : 0 < engine.instances.length := hmounts.length_instances ▸ Nat.one_pos
  have hsits {cue : Cue} (hcue : cue ∈ engine.scene.cues 0 c key) :
      cue.Sits config engine.scene := hmounts.sits_of_mem_cues hgraph hself hcue
  have hkept : keys ⊆ keys ++ [key] := List.subset_append_left ..
  refine ⟨fun ci hci sequence hmem => ?_, fun handler node plan => ?_⟩
  · rw [mem_memo_foldl_iff hmounts.accepts hi, h.applied ci hci sequence hmem]
    constructor
    · rintro (⟨other, hother, hid, ⟨handler, hplays⟩, hsources⟩ |
        ⟨cue, hcue, htext, ⟨handler, hgoes⟩, hsources⟩)
      · exact ⟨other, hother, hid, ⟨handler, hplays.mono hkept⟩, hsources⟩
      · obtain ⟨ci', hci', hrule, hcueMem⟩ := (hsits hcue).declared
        rw [Site.Mounts.text_eq hmounts (hsits hcue)] at htext
        obtain ⟨rfl, hid⟩ := eq_of_text_eq hci' hci hcueMem hmem htext
        rw [Site.Mounts.sources_eq hmounts (hsits hcue), ← hrule] at hsources
        have hplays := (Site.Mounts.goesOut_iff hmounts (hsits hcue)).mp hgoes
        exact ⟨cue.sequence, hcueMem, hid, ⟨handler, hrule ▸ hplays⟩, hsources⟩
    · rintro ⟨other, hother, hid, ⟨handler, hplays⟩, hsources⟩
      by_cases hbefore : site.Plays keys ci.rule other handler
      · exact .inl ⟨other, hother, hid, ⟨handler, hbefore⟩, hsources⟩
      · obtain ⟨cue, hcue, htext, hgoes, hcueSources, -⟩ :=
          hmounts.exists_goesOut hgraph hharmony hself hci hother hplays hbefore
        exact .inr ⟨cue, hcue, htext.trans (congrArg _ hid), ⟨handler, hgoes⟩,
          hcueSources ▸ hsources⟩
  · rw [accepts_foldl_iff hmounts.accepts hi fun cue hcue cue' hcue' =>
      hmounts.alike hharmony (hsits hcue) (hsits hcue'), h.accepted]
    constructor
    · rintro (⟨ci, hci, sequence, hmem, hplays, hrest⟩ | ⟨cue, hcue, -, hgoes, hnode, rfl⟩)
      · exact ⟨ci, hci, sequence, hmem, hplays.mono hkept, hrest⟩
      · obtain ⟨ci, hci, hrule, hmem⟩ := (hsits hcue).declared
        have hplays := (Site.Mounts.goesOut_iff hmounts (hsits hcue)).mp hgoes
        rw [Site.Mounts.sources_eq hmounts (hsits hcue), ← hrule] at hnode
        exact ⟨ci, hci, cue.sequence, hmem, hrule ▸ hplays, hnode,
          Site.Mounts.plan_eq hmounts (hsits hcue) hplays⟩
    · rintro ⟨ci, hci, sequence, hmem, hplays, hnode, rfl⟩
      by_cases hbefore : site.Plays keys ci.rule sequence handler
      · exact .inl ⟨ci, hci, sequence, hmem, hbefore, hnode, rfl⟩
      · obtain ⟨cue, hcue, htext, hgoes, hsources, hplan⟩ :=
          hmounts.exists_goesOut hgraph hharmony hself hci hmem hplays hbefore
        refine .inr ⟨cue, hcue, ?_, hgoes, hsources ▸ hnode, hplan.symm⟩
        -- had its id been applied, a sequence like it would have played before
        rw [htext, h.applied ci hci sequence hmem]
        rintro ⟨other, hother, hid, ⟨served, hplayed⟩, -⟩
        obtain ⟨heffects, -⟩ :=
          hharmony.alike hci hmem hother hplays.isOpen hplayed.isOpen hid.symm
        have hplayed' := hplayed.congr hplays.isOpen heffects
        exact hbefore { hplayed' with handler := hplays.handler }

end Site.Accords

namespace Site.Mounts

variable {site : Site} {config : Config} {keys : List String} {engine : Engine} {key : String}
  {c : ControllerId} {candidate : Candidate}

theorem compiled (h : site.Mounts keys engine.scene) (hgraph : site.graph = .ofConfig config) :
    engine.Compiled := by
  intro i
  cases i with
  | zero => exact ⟨config, by rw [graph_inst_eq, h.graph_eq, hgraph]⟩
  | succ i =>
    refine ⟨.empty, ?_⟩
    rw [inst_eq_default (by rw [h.length_instances]; omega)]
    rfl

/-- No candidate of a key without indices has the text of a sequence. -/
theorem memoKey_ne (h : site.Mounts keys engine.scene) (hgraph : site.graph = .ofConfig config)
    (hharmony : site.Harmonious config) (hkey : KeyTemplate.indices key = [])
    {declaring : CompiledInteraction}
    (hstems : Pass.Stems ((Pass.mk 0 none).graph engine) key candidate declaring)
    {ci : CompiledInteraction} (hci : ci ∈ accepted config) {sequence : CompiledSequence}
    (hmem : sequence ∈ ci.sequences) : candidate.memoKey ≠ sequence.id.encode := by
  obtain ⟨node, hnode, htrigger⟩ := hstems.declared
  rw [Pass.graph, graph_inst_eq, h.graph_eq, hgraph] at hnode
  obtain ⟨hdeclaring, -⟩ := (Graph.mem_triggers_iff hnode).mp htrigger
  intro htext
  rw [Candidate.memoKey, hstems.id, hkey, InteractionId.interpolate_nil] at htext
  have hindex := InteractionId.index_eq_of_encode_eq htext
  rw [hstems.index, id_eq_of_mem_sequences hci hmem] at hindex
  obtain rfl := accepted_eq_of_index_eq hdeclaring hci hindex
  exact hharmony.apart declaring hdeclaring candidate.effect hstems.effect sequence hmem htext

end Site.Mounts

/-- Keys have been added to an engine, and what it has made of sequences accords with them. -/
structure Site.Performs (site : Site) (config : Config) (keys : List String) (engine : Engine) :
    Prop where
  mounts : site.Mounts keys engine.scene
  accords : site.Accords config keys engine

namespace Site.Performs

variable {site : Site} {config : Config} {keys order : List String} {engine : Engine} {key : String}

theorem addNode (h : site.Performs config keys engine) (hgraph : site.graph = .ofConfig config)
    (hharmony : site.Harmonious config) (hkey : KeyTemplate.indices key = []) (hnonempty : key ≠ "")
    (hnew : key ∉ keys) :
    site.Performs config (keys ++ [key]) (engine.addNode (site.nodeOf key) key).1 := by
  have hregistry : engine.registry.get? key = none := by
    refine Option.eq_none_iff_forall_ne_some.mpr fun c hc => ?_
    exact hnew (List.mem_of_getElem? ((h.mounts.registry key c).mp hc))
  have hmounts := h.mounts.mount hkey hnew
  have hlength : engine.controllers.length = keys.length := by
    have hcontrollers := congrArg List.length h.mounts.controllers
    rwa [Engine.scene, List.length_map, List.length_map] at hcontrollers
  rw [← scene_mounted] at hmounts
  have haccords : site.Accords config keys (engine.mounted (site.nodeOf key) key) :=
    h.accords.congr (fun _ _ _ => Iff.rfl) fun _ _ _ _ => Iff.rfl
  rw [addNode_of_new h.mounts.running hnonempty hregistry]
  generalize engine.mounted (site.nodeOf key) key = mounted at hmounts haccords
  generalize engine.controllers.length = c at hlength
  subst hlength
  have hself : mounted.scene.connectedController? key = some keys.length := by
    rw [hmounts.connectedController?_eq_some_iff, List.getElem?_concat_length]
  refine ⟨by rwa [scene_foldl_resolveIn], ?_⟩
  rw [instancesFor_eq, hmounts.live, List.filter_singleton]
  cases hknows : (mounted.scene.inst 0).graph.knows key with
  | false =>
    have hcues : mounted.scene.cues 0 keys.length key = [] := by
      rw [← Graph.isSome_get?, Option.isSome_eq_false_iff, Option.isNone_iff_eq_none] at hknows
      rw [Scene.cues, Scene.outgoingCues, Scene.incomingCues, hknows]
      rfl
    have hnext := haccords.foldl_applyCue hmounts hgraph hharmony hself
    rw [hcues] at hnext
    exact hnext
  | true =>
    obtain ⟨middle, later, hout, hin, hcues⟩ := resolveIn_cues keys.length key mounted 0
    have hmiddle : site.Mounts (keys ++ [key]) middle.scene := hout.scene ▸ hmounts
    have hlater : later.scene = mounted.scene := hin.scene.trans hout.scene
    have haccords' := (haccords.wires hout fun candidate hcandidate ci hci sequence hmem => by
      obtain ⟨declaring, hstems⟩ :=
        Pass.exists_stems_of_mem_outgoingOf (hmounts.compiled hgraph) hcandidate
      exact hmounts.memoKey_ne hgraph hharmony hkey hstems hci hmem).wires hin
        fun candidate hcandidate ci hci sequence hmem => by
          obtain ⟨declaring, hstems⟩ :=
            Pass.exists_stems_of_mem_incomingOf (hmiddle.compiled hgraph) hcandidate
          exact hmiddle.memoKey_ne hgraph hharmony hkey hstems hci hmem
    rw [← hlater] at hmounts hself hcues
    rw [cond_true, List.foldl_cons, List.foldl_nil, hcues]
    exact haccords'.foldl_applyCue hmounts hgraph hharmony hself

/-- Adding keys one after the other. -/
theorem run (h : site.Performs config keys engine) (hgraph : site.graph = .ofConfig config)
    (hharmony : site.Harmonious config) (hindices : ∀ key ∈ order, KeyTemplate.indices key = [])
    (hnonempty : "" ∉ order) (hnodup : (keys ++ order).Nodup) :
    site.Performs config (keys ++ order)
      (engine.run (order.map fun key => .addNode (site.nodeOf key) key)) := by
  induction order generalizing engine keys with
  | nil =>
    rw [List.append_nil]
    exact h
  | cons key rest ih =>
    have hnew : key ∉ keys := fun hmem =>
      (List.nodup_append.mp hnodup).2.2 key hmem key List.mem_cons_self rfl
    have hadd := h.addNode hgraph hharmony (hindices key List.mem_cons_self)
      (fun heq => hnonempty (heq ▸ List.mem_cons_self)) hnew
    have hperform : (engine.perform (.addNode (site.nodeOf key) key)).1 =
        (engine.addNode (site.nodeOf key) key).1 := by
      have hrunning : engine.running = true := h.mounts.running
      rw [perform, whenRunning_of_running hrunning]
      rfl
    have hrest := ih hadd (fun other hother => hindices other (List.mem_cons_of_mem _ hother))
      (fun hmem => hnonempty (List.mem_cons_of_mem _ hmem)) (by simpa using hnodup)
    rw [List.map_cons, run_cons, hperform]
    simpa using hrest

end Site.Performs

/-! ### Orders of keys -/

variable {host : Host} {config : Config} {nodeOf : String → NodeId} {order order' : List String}
  {handler : HandlerId} {node : NodeId} {plan : SequencePlan}

theorem performs_create (options : EngineOptions)
    (haccepts : ∀ id, (host.handler id).AcceptsSequences) :
    (siteOf host config nodeOf).Performs config [] ((start host options).create config).1 where
  mounts :=
    { running := rfl
      dom := rfl
      handlers := rfl
      queryState := rfl
      live := rfl
      instances := rfl
      controllers := rfl
      registry := fun key c => iff_of_false nofun nofun
      indices := fun key hmem => absurd hmem List.not_mem_nil
      accepts := haccepts }
  accords :=
    { applied := fun ci hci sequence hmem => by
        refine iff_of_false List.not_mem_nil ?_
        rintro ⟨other, -, -, ⟨served, hplays⟩, -⟩
        exact absurd hplays.source List.not_mem_nil
      accepted := fun handler node plan => by
        refine iff_of_false (fun ⟨i, params, context, hmem⟩ => List.not_mem_nil hmem) ?_
        rintro ⟨ci, -, sequence, -, hplays, -⟩
        exact absurd hplays.source List.not_mem_nil }

/-- After keys without indices have been added, a handler has accepted the plans of the sequences
that play with the keys, on the nodes of their sources. -/
theorem accepts_added_iff (options : EngineOptions)
    (haccepts : ∀ id, (host.handler id).AcceptsSequences)
    (hharmony : (siteOf host config nodeOf).Harmonious config)
    (hindices : ∀ key ∈ order, KeyTemplate.indices key = []) (hnonempty : "" ∉ order)
    (hnodup : order.Nodup) :
    (added host options config nodeOf order).Accepts handler node plan ↔
      ∃ ci ∈ accepted config, ∃ sequence ∈ ci.sequences,
        (siteOf host config nodeOf).Plays order ci.rule sequence handler ∧
        node ∈ (siteOf host config nodeOf).sources ci.rule ∧
        plan = (siteOf host config nodeOf).sequencePlan sequence :=
  ((performs_create options haccepts).run rfl hharmony hindices hnonempty hnodup).accords.accepted
    handler node plan

/-- Whatever the order in which keys without indices are added, the same sequence plans have been
accepted in the end, as long as the sequences of the configuration are in harmony. -/
theorem sequences_converge (options : EngineOptions)
    (haccepts : ∀ id, (host.handler id).AcceptsSequences)
    (hharmony : (siteOf host config nodeOf).Harmonious config)
    (hindices : ∀ key ∈ order, KeyTemplate.indices key = []) (hnonempty : "" ∉ order)
    (hnodup : order.Nodup) (hperm : order.Perm order') :
    (added host options config nodeOf order).Accepts handler node plan ↔
      (added host options config nodeOf order').Accepts handler node plan := by
  have hindices' : ∀ key ∈ order', KeyTemplate.indices key = [] := fun key hmem =>
    hindices key (hperm.mem_iff.mpr hmem)
  rw [accepts_added_iff options haccepts hharmony hindices hnonempty hnodup,
    accepts_added_iff options haccepts hharmony hindices' (hperm.mem_iff.not.mp hnonempty)
      (hperm.nodup_iff.mp hnodup)]
  constructor
  · rintro ⟨ci, hci, sequence, hmem, hplays, hrest⟩
    exact ⟨ci, hci, sequence, hmem, hplays.mono hperm.subset, hrest⟩
  · rintro ⟨ci, hci, sequence, hmem, hplays, hrest⟩
    exact ⟨ci, hci, sequence, hmem, hplays.mono hperm.symm.subset, hrest⟩

/-- A sequence with two members has been accepted whether the source or a member connects first. -/
theorem sequences_converge_pair :
    let config := (Config.ofInteractions
      [(Interaction.ofTrigger "menu" .click).withSequence (.byId "open")]).withSequence "open"
        (.ofEffects [(Effect.byId "fade").on "panel", (Effect.byId "turn").on "icon"])
    let nodeOf (key : String) := if key = "menu" then 1 else if key = "panel" then 2 else 3
    let plan : SequencePlan := ⟨⟨"menu", "open", 0⟩, "open",
      [⟨⟨"panel", "fade", 0⟩, "fade", [2], (Effect.byId "fade").on "panel"⟩,
        ⟨⟨"icon", "turn", 0⟩, "turn", [3], (Effect.byId "turn").on "icon"⟩], .empty⟩
    (added .bare .standard config nodeOf ["menu", "panel", "icon"]).Accepts 0 1 plan ∧
      (added .bare .standard config nodeOf ["icon", "menu", "panel"]).Accepts 0 1 plan := by
  intro config nodeOf plan
  have haccepts (id : HandlerId) : (Host.bare.handler id).AcceptsSequences :=
    Handler.acceptsSequences_accepting
  have hharmony : (siteOf .bare config nodeOf).Harmonious config :=
    .of_nodup (by decide +kernel) (by decide +kernel)
  have hfirst : (added .bare .standard config nodeOf ["menu", "panel", "icon"]).Accepts 0 1 plan := by
    refine (accepts_added_iff .standard haccepts hharmony (by decide +kernel) (by decide)
      (by decide)).mpr ⟨_, List.mem_cons_self, _, List.mem_cons_self, ⟨?_, ?_, ?_, ?_, ?_⟩, ?_, ?_⟩
    · decide +kernel
    · decide +kernel
    · decide +kernel
    · rw [Ne, ← List.isEmpty_iff]
      decide +kernel
    · decide +kernel
    · decide +kernel
    · rfl
  exact ⟨hfirst, (sequences_converge .standard haccepts hharmony (by decide +kernel) (by decide)
    (by decide) (by decide)).mp hfirst⟩

-- Of two references to one sequence only the second is open: the source that connects last finds
-- it, but the member that connects last does not.
example :
    let config := ((Config.ofInteractions
      [((Interaction.ofTrigger "menu" .click).withSequence (.stored ⟨"open", ["wide"]⟩)).withSequence
        (.byId "open")]).withCondition "wide" ⟨.media, "min-width: 1px"⟩).withSequence "open"
          (.ofEffects [(Effect.byId "fade").on "panel"])
    let nodeOf (key : String) := if key = "menu" then 1 else 2
    ((added .bare .standard config nodeOf ["panel", "menu"]).inst 0).memo = ["menu::open::0"] ∧
      ((added .bare .standard config nodeOf ["menu", "panel"]).inst 0).memo = [] := by
  decide +kernel

end InteractionBinding.Engine
