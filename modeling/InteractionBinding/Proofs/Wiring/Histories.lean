import InteractionBinding.Config.Builder
import InteractionBinding.Engine.Operation
import InteractionBinding.Proofs.Wiring.Flips
import InteractionBinding.Proofs.Wiring.Founding
/-!
# Histories

A history is a run of operations on a ground: configurations without lists and sequences are
created, keys without indices are added, each on its own node, and removed, registered controllers
are disconnected softly, connected again and updated, and queries flip (`Ground.Admits`). Every
operation keeps an engine stable (`Engine.Stable.perform`). After a history the live wiring is
therefore what the configurations, the connected keys and the states of the queries make of it,
whatever the order in which they came to be (`Engine.mem_wires_run_iff`,
`Engine.wires_history_independent`).
-/

namespace InteractionBinding

open Compile

/-! ### Plain configurations -/

namespace Config

/-- The variants that a configuration declares. -/
def variants (config : Config) : List Variant :=
  (accepted config).flatMap fun ci => ci.effects.map (Variant.mk ci.rule)

theorem mem_variants {config : Config} {variant : Variant} :
    variant ∈ config.variants ↔ config.Declares variant := by
  simp only [variants, List.mem_flatMap, List.mem_map, Declares]
  constructor
  · rintro ⟨ci, hci, effect, heffect, rfl⟩
    exact ⟨ci, hci, rfl, heffect⟩
  · rintro ⟨ci, hci, hrule, heffect⟩
    exact ⟨ci, hci, variant.effect, heffect, by rw [← hrule]⟩

theorem isPlain_iff {config : Config} :
    config.IsPlain ↔
      (∀ ci ∈ accepted config, ci.rule.listContainer = none ∧
        ∀ effect ∈ ci.effects, effect.effect.listContainer = none) ∧
      (∀ ci ∈ accepted config, ci.sequences.isEmpty) ∧
      ∀ variant ∈ config.variants, ∀ variant' ∈ config.variants,
        (variant.text = variant'.text → variant.effect.id = variant'.effect.id) ∧
        ∀ query ∈ config.queriesOf variant, ∀ query' ∈ config.queriesOf variant',
          query.text = query'.text → query = query' := by
  simp only [mem_variants, List.isEmpty_iff]
  constructor
  · rintro ⟨hlists, hsequences, hids, hqueries⟩
    exact ⟨hlists, hsequences, fun variant h variant' h' =>
      ⟨hids variant variant' h h', hqueries variant variant' h h'⟩⟩
  · rintro ⟨hlists, hsequences, hvariants⟩
    exact ⟨hlists, hsequences, fun variant variant' h h' => (hvariants variant h variant' h').1,
      fun variant variant' h h' => (hvariants variant h variant' h').2⟩

instance (config : Config) : Decidable config.IsPlain := decidable_of_iff _ isPlain_iff.symm

end Config

namespace Engine

/-- The configurations that operations create instances of. -/
def created (operations : List Operation) : List Config :=
  operations.filterMap fun
    | .create config => some config
    | _ => none

/-- The keys that operations add. -/
def addedKeys (operations : List Operation) : List String :=
  operations.filterMap fun
    | .addNode _ key => some key
    | _ => none

/-- The states of the queries after an operation. -/
def Operation.queries (queryState : Query → Bool) : Operation → Query → Bool
  | .setQuery query isMatch => fun other => if other = query then isMatch else queryState other
  | _ => queryState

/-- The states of the queries after operations, one after the other. -/
def queriesAfter (queryState : Query → Bool) (operations : List Operation) : Query → Bool :=
  operations.foldl Operation.queries queryState

end Engine

namespace Ground

/-- A new engine on a ground. -/
def start (ground : Ground) (handler : HandlerId → Handler) (queryState : Query → Bool)
    (options : EngineOptions) : Engine :=
  .start (.fresh ground.dom handler ground.handlers queryState) options

/-- The operations of histories. -/
def Admits (ground : Ground) (engine : Engine) : Engine.Operation → Prop
  | .create config => config.IsPlain
  | .addNode node key => node = ground.nodeOf key ∧ key ≠ "" ∧ KeyTemplate.indices key = []
  | .removeKey _ => True
  | .disconnect c evict => evict = false ∧ engine.Registers c
  | .connect c requested => requested = none ∧ engine.Registers c
  | .update c => engine.Registers c
  | .setQuery _ _ => True
  | _ => False

end Ground

namespace Engine

variable {ground : Ground} {configs : List Config} {keys : List String} {engine : Engine}
  {operations : List Operation} {handler : HandlerId → Handler} {queryState : Query → Bool}
  {options : EngineOptions}

/-- An operation of a history keeps an engine stable. -/
theorem Stable.perform (h : Stable ground configs keys .none engine) {operation : Operation}
    (hadmits : ground.Admits engine operation) :
    (∃ keys', keys' ⊆ keys ++ addedKeys [operation] ∧ Stable ground
        (configs ++ created [operation]) keys' .none (engine.perform operation).1) ∧
      (engine.perform operation).1.scene.queryState =
        operation.queries engine.scene.queryState := by
  have hrunning : engine.running = true := h.scene.running
  have hsame (after : Engine) (hafter : Stable ground configs keys .none after)
      (hcreated : created [operation] = []) : ∃ keys', keys' ⊆ keys ++ addedKeys [operation] ∧
        Stable ground (configs ++ created [operation]) keys' .none after := by
    refine ⟨keys, List.subset_append_left .., ?_⟩
    rw [hcreated, List.append_nil]
    exact hafter
  cases operation with
  | create config =>
    rw [Engine.perform, whenRunning_of_running hrunning]
    refine ⟨⟨keys, List.subset_append_left .., h.create hadmits⟩, ?_⟩
    have hscene := h.scene_create hadmits
    exact (congrArg Scene.queryState hscene).trans rfl
  | addNode node key =>
    obtain ⟨rfl, hkey, hindices⟩ := hadmits
    obtain ⟨keys', hsubset, hstable⟩ := h.addNode hkey hindices
    rw [Engine.perform, whenRunning_of_running hrunning, created, List.filterMap_cons,
      List.filterMap_nil, List.append_nil]
    exact ⟨⟨keys', hsubset, hstable⟩, (h.retains_addNode hkey hindices).queryState⟩
  | removeKey key =>
    rw [Engine.perform, whenRunning_of_running hrunning]
    exact ⟨hsame _ (h.removeKey key) rfl, h.queryState_removeKey key⟩
  | disconnect c evict =>
    obtain ⟨-, key, hregistered⟩ := hadmits
    exact ⟨hsame _ ((h.disconnect hregistered evict).mono fun _ _ hpending => hpending.1) rfl,
      (parts_disconnect h.scene.toSeated hregistered evict).queryState⟩
  | connect c requested =>
    obtain ⟨-, key, hregistered⟩ := hadmits
    exact ⟨hsame _ (h.connect hregistered requested) rfl,
      (h.retains_connect hregistered requested).queryState⟩
  | update c =>
    obtain ⟨key, hregistered⟩ := hadmits
    exact ⟨hsame _ ((h.update hregistered).mono fun _ _ hpending => hpending.1) rfl,
      (h.retains_update hregistered).queryState⟩
  | setQuery query isMatch =>
    obtain ⟨hstable, hqueries⟩ := h.setQuery query isMatch
    exact ⟨hsame _ hstable rfl, hqueries⟩
  | _ => exact hadmits.elim

theorem Stable.run (h : Stable ground configs keys .none engine)
    (hplays : engine.Follows ground.Admits operations) :
    (∃ keys', keys' ⊆ keys ++ addedKeys operations ∧
        Stable ground (configs ++ created operations) keys' .none (engine.run operations)) ∧
      (engine.run operations).scene.queryState =
        queriesAfter engine.scene.queryState operations := by
  induction operations generalizing engine configs keys with
  | nil => exact ⟨⟨keys, List.subset_append_left .., by simpa [created] using h⟩, rfl⟩
  | cons operation rest ih =>
    obtain ⟨hadmits, hrest⟩ := hplays
    obtain ⟨⟨keys', hsubset, hperform⟩, hqueries⟩ := h.perform hadmits
    obtain ⟨⟨keys'', hsubset', hrun⟩, hqueries'⟩ := ih hperform hrest
    have hadded : addedKeys (operation :: rest) = addedKeys [operation] ++ addedKeys rest :=
      List.filterMap_append (l := [operation])
    have hcreated : created (operation :: rest) = created [operation] ++ created rest :=
      List.filterMap_append (l := [operation])
    refine ⟨⟨keys'', List.Subset.trans hsubset' ?_, ?_⟩, ?_⟩
    · rw [hadded, ← List.append_assoc]
      exact List.append_subset.mpr ⟨List.Subset.trans hsubset (List.subset_append_left ..),
        List.subset_append_right ..⟩
    · rw [hcreated, ← List.append_assoc]
      exact hrun
    · rw [run_cons, hqueries', hqueries]
      rfl

/-- A new engine has nothing to wire. -/
theorem stable_start (haccepts : ∀ id, (handler id).Accepts) :
    Stable ground [] [] .none (ground.start handler queryState options) := by
  have hscene : (ground.start handler queryState options).scene.Orderly ground [] [] :=
    { running := rfl
      dom := rfl
      handlers := rfl
      accepts := haccepts
      live := rfl
      instances := rfl
      plain := fun _ hmem => nomatch hmem
      controllers := rfl
      controller := fun _ _ hkey => nomatch hkey
      indices := fun _ hmem => nomatch hmem
      registered := fun _ _ hget => nomatch hget
      connected := fun _ _ hkey => nomatch hkey }
  have hinst (i : InstanceId) : (ground.start handler queryState options).inst i = default := rfl
  refine ⟨hscene, ⟨?_, ?_, ?_, ?_⟩, fun _ => ⟨⟨fun _ _ => False, ⟨?_, ?_, ?_, ?_⟩, ?_⟩, ?_⟩⟩
  · exact fun i listener hmem => nomatch hmem
  · exact fun i listener hmem => nomatch hmem
  · exact fun i listener hmem => nomatch hmem
  · exact fun i j listener listener' hmem => nomatch hmem
  · exact fun wire => iff_of_false List.not_mem_nil fun ⟨_, _, hwired, _⟩ => hwired
  · exact fun i text => iff_of_false List.not_mem_nil fun ⟨_, hwired, _⟩ => hwired
  · exact fun i variant hwired => hwired.elim
  · exact fun i variant hwired => hwired.elim
  · exact fun i variant _ => iff_of_false id fun hexpects => nomatch hexpects.chosen
  · exact fun i variant _ config hi => nomatch hi

/-- After a history exactly those wires are live that some variant is expected to have: one that an
instance chooses, and whose keys are both connected. -/
theorem mem_wires_run_iff (haccepts : ∀ id, (handler id).Accepts)
    (hplays : (ground.start handler queryState options).Follows ground.Admits operations)
    (hapart : ground.Apart (created operations) (addedKeys operations)) (wire : Wire) :
    let engine := (ground.start handler queryState options).run operations
    wire ∈ engine.wires ↔ ∃ config ∈ created operations, ∃ variant,
      config.Chooses (config.isOpen (queriesAfter queryState operations)) variant ∧
        engine.scene.IsConnected variant.rule.key ∧
          engine.scene.IsConnected variant.effect.target ∧ wire ∈ ground.wiresOf variant := by
  intro engine
  obtain ⟨⟨keys', hsubset, hstable⟩, hqueries⟩ := (stable_start haccepts).run hplays
  have hqueries : engine.scene.queryState = queriesAfter queryState operations := hqueries
  rw [List.nil_append] at hsubset hstable
  obtain ⟨⟨wiring, hreflects, hwiring⟩, -⟩ :=
    hstable.wired (hapart.mono (List.Subset.refl _) hsubset)
  rw [hreflects.wires, ← hqueries]
  constructor
  · rintro ⟨i, variant, hwired, hwire⟩
    obtain ⟨⟨config, hi, hchooses⟩, hsource, htarget⟩ := (hwiring i variant id).mp hwired
    exact ⟨config, List.mem_of_getElem? hi, variant, hchooses, hsource, htarget, hwire⟩
  · rintro ⟨config, hmem, variant, hchooses, hsource, htarget, hwire⟩
    obtain ⟨i, hi⟩ := List.getElem?_of_mem hmem
    exact ⟨i, variant, (hwiring i variant id).mpr ⟨⟨config, hi, hchooses⟩, hsource, htarget⟩, hwire⟩

/-- The live wiring after a history is that of the variants that are chosen between connected keys,
so it depends only on the configurations of which instances have been created, on the connected keys
and on the states of the queries. -/
theorem wires_history_independent (haccepts : ∀ id, (handler id).Accepts)
    (hplays : (ground.start handler queryState options).Follows ground.Admits operations)
    (hapart : ground.Apart (created operations) (addedKeys operations)) :
    let engine := (ground.start handler queryState options).run operations
    (∀ wire, wire ∈ engine.wires ↔ ∃ config ∈ created operations, ∃ variant,
      config.Chooses (config.isOpen (queriesAfter queryState operations)) variant ∧
        engine.scene.IsConnected variant.rule.key ∧
          engine.scene.IsConnected variant.effect.target ∧ wire ∈ ground.wiresOf variant) ∧
    ∀ (handler' : HandlerId → Handler) (queryState' : Query → Bool) (options' : EngineOptions)
      (operations' : List Operation), (∀ id, (handler' id).Accepts) →
      (ground.start handler' queryState' options').Follows ground.Admits operations' →
      ground.Apart (created operations') (addedKeys operations') →
      let engine' := (ground.start handler' queryState' options').run operations'
      (∀ config, config ∈ created operations ↔ config ∈ created operations') →
      (∀ key, engine.scene.IsConnected key ↔ engine'.scene.IsConnected key) →
      queriesAfter queryState operations = queriesAfter queryState' operations' →
      ∀ wire, wire ∈ engine.wires ↔ wire ∈ engine'.wires := by
  intro engine
  refine ⟨mem_wires_run_iff haccepts hplays hapart, ?_⟩
  intro handler' queryState' options' operations' haccepts' hplays' hapart' engine' hcreated
    hconnected hqueries wire
  have hwires := mem_wires_run_iff haccepts hplays hapart wire
  have hwires' := mem_wires_run_iff haccepts' hplays' hapart' wire
  simp only [engine, engine'] at hconnected
  simp only [hcreated, hconnected, hqueries] at hwires
  exact hwires.trans hwires'.symm

/-- A source that is reconnected after a flip is wired as if it had come after the flip. -/
theorem wires_history_independent_flip :
    let wide : Query := ⟨.media, "(wide)"⟩
    let config := (Config.ofInteractions [(Interaction.ofTrigger "a" .click).withEffect
      (((Effect.byId "f").on "b").withConditions ["wide"])]).withCondition "wide" ⟨.media, "wide"⟩
    let ground : Ground :=
      ⟨.bare, HandlerTable.empty.register .click 0, fun key => if key = "a" then 1 else 2⟩
    let start := ground.start (fun _ => .accepting) (fun _ => false) .standard
    let reconnected := start.run [.create config, .addNode 2 "b", .addNode 1 "a",
      .setQuery wide true, .disconnect 1 false, .update 0, .connect 1 none]
    let direct := start.run [.setQuery wide true, .addNode 2 "b", .addNode 1 "a", .create config]
    ⟨1, 2, ⟨"b", "f", 0⟩⟩ ∈ direct.wires ∧
      ∀ wire, wire ∈ reconnected.wires ↔ wire ∈ direct.wires := by
  intro wide config ground start reconnected direct
  have hplain : config.IsPlain := by decide +kernel
  have howns (configs : List Config) (key : String) (node : NodeId) :
      ground.Owns configs key node → node = ground.nodeOf key := by
    rintro (heq | ⟨_, _, _, _, _, _, hmem⟩)
    · exact heq
    · exact absurd hmem List.not_mem_nil
  have hapart (configs : List Config) : ground.Apart configs ["b", "a"] := by
    intro key hkey key' hkey' hne node hnode hnode'
    have hinjective : ∀ key ∈ ["b", "a"], ∀ key' ∈ ["b", "a"],
        ground.nodeOf key = ground.nodeOf key' → key = key' := by decide
    exact hne (hinjective key hkey key' hkey' ((howns _ _ _ hnode).symm.trans (howns _ _ _ hnode')))
  have hscene : reconnected.scene.registry = direct.scene.registry ∧
      reconnected.scene.controllers = direct.scene.controllers := by decide +kernel
  have haccepts (id : HandlerId) : ((fun _ => .accepting : HandlerId → Handler) id).Accepts :=
    Handler.accepts_accepting
  refine ⟨by decide +kernel, (wires_history_independent haccepts ?_
    (hapart _)).2 _ _ _ _ haccepts ?_
    (hapart _) (fun _ => Iff.rfl) (fun key => ?_) ?_⟩
  · exact ⟨hplain, ⟨rfl, by decide, by decide +kernel⟩, ⟨rfl, by decide, by decide +kernel⟩,
      trivial, ⟨rfl, "a", by decide +kernel⟩, ⟨"b", by decide +kernel⟩,
      ⟨rfl, "a", by decide +kernel⟩, trivial⟩
  · exact ⟨trivial, ⟨rfl, by decide, by decide +kernel⟩, ⟨rfl, by decide, by decide +kernel⟩,
      hplain, trivial⟩
  · rw [Scene.IsConnected, Scene.IsConnected, Scene.connectedController?,
      Scene.connectedController?]
    simp only [Scene.controller]
    rw [hscene.1, hscene.2]
  · rfl

end Engine

end InteractionBinding
