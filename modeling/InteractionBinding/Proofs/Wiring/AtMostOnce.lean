import InteractionBinding.Config.Builder
import InteractionBinding.Proofs.Engine.Origin
/-!
# Wires are asked for at most once

A handler that has accepted a wire on behalf of an instance is asked for it again only after a
teardown of one of the two nodes, or after the instance has let the id be applied again
(`Engine.run_at_most_once`). A disconnection lets ids be applied again in either case, but
it comes with a teardown only when the controller was connected.

The invariant (`Engine.Once`) is that the id of every wire that stands on behalf of a live instance
is kept as applied.
-/

namespace InteractionBinding

/-- Whether a plan belongs to an effect rule that is not bound to a list. -/
def Graph.isPlain (graph : Graph) (plan : EffectPlan) : Bool :=
  plan.effect.listContainer.isNone &&
    graph.nodes.entries.all fun entry => entry.2.triggers.all fun interaction =>
      interaction.rule.index ≠ plan.id.index || interaction.rule.listContainer.isNone

/-- Whether the document finds every descendant once, whatever the selector. -/
def Dom.FindsOnce (dom : Dom) : Prop := ∀ root selector, (dom.queryAll root selector).Nodup

theorem Dom.FindsOnce.nodup_select {dom : Dom} (h : dom.FindsOnce) (root : NodeId)
    (selector : Option String) : (dom.select root selector).Nodup := by
  cases selector with
  | none => exact List.nodup_singleton root
  | some selector => exact h root selector

namespace Entry

/-- Whether an entry asks for a wire of a plain effect rule on behalf of an instance. -/
def asks (i : InstanceId) (wire : Wire) : Entry → Bool
  | .told (.add j _ source target plan _ _ _) scene =>
    i = j && wire = ⟨source, target, plan.id⟩ && (scene.inst i).graph.isPlain plan
  | _ => false

/-- Whether an entry asks for a wiring that the handler accepts. -/
def isAccepted : Entry → Bool
  | .told (.add _ _ _ _ _ _ _ refusal) _ => refusal.isNone
  | _ => false

/-- Whether an entry asks for a wire and the handler accepts it. -/
def accepts (i : InstanceId) (wire : Wire) (entry : Entry) : Bool :=
  entry.asks i wire && entry.isAccepted

theorem asks_of_accepts {i : InstanceId} {wire : Wire} {entry : Entry}
    (h : entry.accepts i wire = true) : entry.asks i wire = true :=
  (Bool.and_eq_true_iff.mp h).1

/-- Whether an entry tears a wire down. -/
def tears (wire : Wire) : Entry → Bool
  | .told (.remove _ node) _ => wire.touches node
  | _ => false

/-- Whether an instance lets an id be applied again. -/
def forgets (i : InstanceId) (inst : Instance) (id : InteractionId) : Entry → Bool
  | .forgot j key => i = j && id.encode ∈ inst.interactionIdsFor key
  | _ => false

/-- Whether a wire may be asked for again after an entry. -/
def frees (i : InstanceId) (inst : Instance) (wire : Wire) (entry : Entry) : Bool :=
  entry.tears wire || entry.forgets i inst wire.id

end Entry

namespace Engine

/-- Whether a wire has been accepted on behalf of an instance and may not be asked for again yet. -/
def stands (engine : Engine) (i : InstanceId) (wire : Wire) (log : List Entry) : Bool :=
  log.foldl (fun stood entry =>
    entry.accepts i wire || stood && !entry.frees i (engine.inst i) wire) false

variable {engine before after : Engine} {occasion : Occasion} {i : InstanceId} {wire : Wire}

theorem stands_append_singleton (log : List Entry) (entry : Entry) :
    engine.stands i wire (log ++ [entry]) =
      (entry.accepts i wire ||
        engine.stands i wire log && !entry.frees i (engine.inst i) wire) := by
  rw [stands, List.foldl_append]
  rfl

theorem stands_congr (h : (after.inst i).graph = (before.inst i).graph) (log : List Entry) :
    after.stands i wire log = before.stands i wire log := by
  have hids (key : String) :
      (after.inst i).interactionIdsFor key = (before.inst i).interactionIdsFor key := by
    rw [Instance.interactionIdsFor, Instance.interactionIdsFor, h]
  have hfrees (entry : Entry) :
      entry.frees i (after.inst i) wire = entry.frees i (before.inst i) wire := by
    rw [Entry.frees, Entry.frees]
    cases entry with
    | told => rfl
    | forgot j key => simp only [Entry.forgets, hids]
  simp only [stands, hfrees]

/-- As long as nothing frees it, a wire stands if it stood before or has been accepted since. -/
theorem stands_append {log entries : List Entry}
    (h : ∀ entry ∈ entries, entry.frees i (engine.inst i) wire = false) :
    engine.stands i wire (log ++ entries) = true ↔
      engine.stands i wire log = true ∨ ∃ entry ∈ entries, entry.accepts i wire = true := by
  induction entries using List.reverseRecOn with
  | nil => simp
  | append_singleton front last ih =>
    rw [← List.append_assoc, stands_append_singleton, h last (by simp), Bool.not_false,
      Bool.and_true, Bool.or_eq_true, ih fun entry hmem => h entry (by simp [hmem])]
    simp only [List.mem_append, List.mem_singleton]
    grind

theorem exists_asks_of_stands {log : List Entry} (h : engine.stands i wire log = true) :
    ∃ entry ∈ log, entry.asks i wire = true := by
  induction log using List.reverseRecOn with
  | nil => cases h
  | append_singleton front last ih =>
    rw [stands_append_singleton, Bool.or_eq_true, Bool.and_eq_true] at h
    rcases h with haccepts | ⟨hstands, -⟩
    · exact ⟨last, by simp, Entry.asks_of_accepts haccepts⟩
    · obtain ⟨entry, hmem, hasks⟩ := ih hstands
      exact ⟨entry, List.mem_append_left _ hmem, hasks⟩

/-- The wires that stand on behalf of live instances are kept as applied, and no wire has been asked
for while it stood. -/
structure Once (engine : Engine) : Prop where
  known : ∀ entry ∈ engine.log, ∀ i wire, entry.asks i wire = true → i < engine.instances.length
  kept (i : InstanceId) (wire : Wire) : engine.stands i wire engine.log = true →
    i ∈ engine.live → wire.id.encode ∈ (engine.inst i).memo
  once (front : List Entry) (entry : Entry) (back : List Entry) :
    engine.log = front ++ entry :: back → ∀ i wire, entry.asks i wire = true →
      engine.stands i wire front = false

/-! ### Steps -/

/-- The invariant is kept when what is asked for does not stand yet, and what stands afterwards is
kept as applied. -/
theorem Once.extend (h : before.Once) {entries : List Entry}
    (hlog : after.log = before.log ++ entries)
    (hlength : before.instances.length ≤ after.instances.length)
    (hgraph : ∀ i < before.instances.length, (after.inst i).graph = (before.inst i).graph)
    (hknown : ∀ entry ∈ entries, ∀ i wire, entry.asks i wire = true → i < before.instances.length)
    (hkept : ∀ i wire, i < before.instances.length →
      before.stands i wire (before.log ++ entries) = true → i ∈ after.live →
        wire.id.encode ∈ (after.inst i).memo)
    (honce : ∀ front entry back, entries = front ++ entry :: back →
      ∀ i wire, entry.asks i wire = true → before.stands i wire (before.log ++ front) = false) :
    after.Once := by
  have hbound : ∀ entry ∈ after.log, ∀ i wire, entry.asks i wire = true →
      i < before.instances.length := by
    intro entry hmem
    rw [hlog, List.mem_append] at hmem
    exact hmem.elim (h.known entry) (hknown entry)
  refine ⟨fun entry hmem i wire hasks => ?_, fun i wire hstands hlive => ?_,
    fun front entry back hsplit i wire hasks => ?_⟩
  · exact Nat.lt_of_lt_of_le (hbound entry hmem i wire hasks) hlength
  · obtain ⟨entry, hmem, hasks⟩ := exists_asks_of_stands hstands
    have hi := hbound entry hmem i wire hasks
    rw [stands_congr (hgraph i hi), hlog] at hstands
    exact hkept i wire hi hstands hlive
  · have hi := hbound entry (by simp [hsplit]) i wire hasks
    rw [stands_congr (hgraph i hi)]
    rw [hlog] at hsplit
    rcases List.append_eq_append_iff.mp hsplit with ⟨rest, rfl, hentries⟩ | ⟨rest, hold, hentries⟩
    · exact honce rest entry back hentries i wire hasks
    · cases rest with
      | nil =>
        rw [List.append_nil] at hold
        have hnew := honce [] entry back hentries.symm i wire hasks
        rw [List.append_nil, hold] at hnew
        exact hnew
      | cons first rest =>
        obtain ⟨rfl, hback⟩ := List.cons.inj hentries
        exact h.once front entry rest hold i wire hasks

/-- A change that tells nothing keeps the invariant unless it drops what a live instance keeps. -/
theorem Once.silent (h : before.Once) (hlog : after.log = before.log)
    (hlength : before.instances.length ≤ after.instances.length)
    (hgraph : ∀ i < before.instances.length, (after.inst i).graph = (before.inst i).graph)
    (hkept : ∀ i < before.instances.length, i ∈ after.live →
      i ∈ before.live ∧ ∀ id ∈ (before.inst i).memo, id ∈ (after.inst i).memo) : after.Once := by
  have hnothing : after.log = before.log ++ [] := by rw [hlog, List.append_nil]
  refine h.extend hnothing hlength hgraph ?_ ?_ ?_
  · exact fun entry hmem => absurd hmem List.not_mem_nil
  · intro i wire hi hstands hlive
    rw [List.append_nil] at hstands
    obtain ⟨hlive, hmemo⟩ := hkept i hi hlive
    exact hmemo _ (h.kept i wire hstands hlive)
  · exact fun front entry back hsplit => absurd hsplit (by simp)

/-- An entry that asks for nothing keeps the invariant if every id that it does not free stays kept
as applied. -/
theorem Once.note (h : before.Once) {entry : Entry} (hlog : after.log = before.log ++ [entry])
    (hscene : after.scene = before.scene) (hasks : ∀ i wire, entry.asks i wire = false)
    (hkept : ∀ i wire, entry.frees i (before.inst i) wire = false →
      wire.id.encode ∈ (before.inst i).memo → wire.id.encode ∈ (after.inst i).memo) :
    after.Once := by
  have hinstances := congrArg Scene.instances hscene
  refine h.extend hlog (Nat.le_of_eq (length_instances_eq hinstances).symm)
    (fun i _ => graph_eq_of_instances hinstances i) ?_ (fun i wire _ hstands hlive => ?_) ?_
  · intro other hmem i wire hother
    rw [List.mem_singleton.mp hmem, hasks i wire] at hother
    cases hother
  · have haccepts : entry.accepts i wire = false := Bool.eq_false_iff.mpr fun haccepts =>
      Bool.false_ne_true ((hasks i wire).symm.trans (Entry.asks_of_accepts haccepts))
    rw [stands_append_singleton, haccepts, Bool.false_or, Bool.and_eq_true, Bool.not_eq_true']
      at hstands
    have hsame : after.live = before.live := congrArg Scene.live hscene
    rw [hsame] at hlive
    exact hkept i wire hstands.2 (h.kept i wire hstands.1 hlive)
  · intro front other back hsplit i wire hother
    have hmem : other ∈ [entry] := hsplit ▸ by simp
    rw [List.mem_singleton.mp hmem, hasks i wire] at hother
    cases hother

/-! ### Passes -/

theorem Offer.asks_event {i j : InstanceId} {wire : Wire} {offer : Offer} {scene : Scene} :
    (Entry.told (offer.event j scene) scene).asks i wire = true ↔
      i = j ∧ wire = offer.toProposal.wire ∧
        (scene.inst i).graph.isPlain offer.candidate.plan = true := by
  simp only [Offer.event, Entry.asks, Bool.and_eq_true, decide_eq_true_eq, and_assoc]
  rfl

theorem Offer.accepts_event {i j : InstanceId} {wire : Wire} {offer : Offer} {scene : Scene} :
    (Entry.told (offer.event j scene) scene).accepts i wire = true ↔
      (Entry.told (offer.event j scene) scene).asks i wire = true ∧ offer.refusal = none := by
  rw [Entry.accepts, Bool.and_eq_true, ← Option.isNone_iff_eq_none]
  rfl

theorem Pass.Stems.isListBound_eq_false {graph : Graph} {key : String} {candidate : Candidate}
    {interaction : CompiledInteraction} (h : Pass.Stems graph key candidate interaction)
    (hplain : graph.isPlain candidate.plan = true) : candidate.isListBound = false := by
  obtain ⟨heffect, hrules⟩ := Bool.and_eq_true_iff.mp hplain
  obtain ⟨node, hnode, htrigger⟩ := h.declared
  have hindex : interaction.rule.index = candidate.plan.id.index := by
    rw [Candidate.plan, h.id]
    exact h.index.symm
  have hrule := List.all_eq_true.mp (List.all_eq_true.mp hrules _
    (KeyMap.mem_entries_iff.mpr hnode)) _ htrigger
  have hnone : candidate.rule.listContainer.isNone = true := by
    rw [h.rule]
    simpa [hindex] using hrule
  rw [Candidate.isListBound, Rule.isListBound]
  simp_all [Candidate.plan]

theorem Pass.pairwise_pairsIn {pass : Pass} {scene : Scene} {candidate : Candidate}
    (hdom : scene.dom.FindsOnce)
    (hplain : candidate.isListBound = false) :
    (pass.pairsIn scene candidate).Pairwise fun pair other =>
      (pair.source, pair.target) ≠ (other.source, other.target) := by
  obtain ⟨hrule, heffect⟩ : candidate.rule.listContainer = none ∧
      candidate.effect.effect.listContainer = none := by
    simpa [Candidate.isListBound, Rule.isListBound] using hplain
  simp only [pairsIn, hrule, heffect]
  split
  next sourceAnchor targetAnchor _ _ =>
    refine List.pairwise_flatMap.mpr ⟨fun source _ => ?_, ?_⟩
    · refine List.pairwise_map.mpr ((hdom.nodup_select targetAnchor _).imp fun hne heq => ?_)
      exact hne (Prod.mk.inj heq).2
    · refine (hdom.nodup_select sourceAnchor _).imp fun hne pair hpair other hother heq => ?_
      obtain ⟨target, -, rfl⟩ := List.mem_map.mp hpair
      obtain ⟨target', -, rfl⟩ := List.mem_map.mp hother
      exact hne (Prod.mk.inj heq).1
  next => exact List.Pairwise.nil

/-- No two plain proposals of candidates with different ids ask for the same wire. -/
theorem Pass.pairwise_proposals {pass : Pass} {scene : Scene} {candidates : List Candidate}
    (hdom : scene.dom.FindsOnce)
    (hids : (candidates.map Candidate.id).Nodup) :
    (candidates.flatMap (pass.proposals scene)).Pairwise fun proposal other =>
      proposal.candidate.isListBound = false → proposal.wire ≠ other.wire := by
  refine List.pairwise_flatMap.mpr ⟨fun candidate _ => ?_, ?_⟩
  · rw [proposals]
    split
    · exact List.Pairwise.nil
    · by_cases hplain : candidate.isListBound = false
      · refine List.pairwise_map.mpr ((pairwise_pairsIn hdom hplain).imp fun hne _ heq => ?_)
        exact hne (Prod.ext (congrArg Wire.source heq) (congrArg Wire.target heq))
      · exact List.pairwise_map.mpr (List.pairwise_of_forall fun _ _ h => absurd h hplain)
  · rw [List.nodup_iff_pairwise_ne, List.pairwise_map] at hids
    refine hids.imp fun hne proposal hproposal other hother _ heq => hne ?_
    rw [← (mem_proposals.mp hproposal).1, ← (mem_proposals.mp hother).1]
    exact congrArg Wire.id heq

theorem Pass.Offers.pairwise {pass : Pass} {scene : Scene} {selected : List Candidate}
    {offers : List Offer}
    (h : Offers pass scene (selected.reverse.flatMap (pass.proposals scene)) offers)
    (hdom : scene.dom.FindsOnce)
    (hids : (selected.map Candidate.id).Nodup) :
    offers.Pairwise fun offer other => offer.candidate.isListBound = false →
      offer.toProposal.wire ≠ other.toProposal.wire := by
  have hreverse : (selected.reverse.map Candidate.id).Nodup := by
    rw [List.map_reverse]
    exact List.nodup_reverse.mpr hids
  exact List.pairwise_map.mp ((pairwise_proposals hdom hreverse).sublist h.sublist)

/-- Offers free nothing: after them a wire stands if it stood before or one of them is accepted. -/
theorem stands_offers {log : List Entry} {offers : List Offer} {j : InstanceId} {scene : Scene} :
    engine.stands i wire
        (log ++ (offers.map (Offer.event j scene)).map (Entry.told · scene)) = true ↔
      engine.stands i wire log = true ∨
        ∃ offer ∈ offers, (Entry.told (offer.event j scene) scene).accepts i wire = true := by
  have hfrees : ∀ entry ∈ (offers.map (Offer.event j scene)).map (Entry.told · scene),
      entry.frees i (engine.inst i) wire = false := by
    simp only [List.map_map, List.mem_map]
    rintro entry ⟨offer, -, rfl⟩
    rfl
  rw [stands_append hfrees]
  simp only [List.map_map, List.mem_map, exists_exists_and_eq_and, Function.comp_apply]

/-- An offer that asks for a wire, with an id that is bound to no list, is not bound to a list. -/
theorem Pass.Offers.unbound_of_asks {pass : Pass} {key : String} {selected : List Candidate}
    {offers : List Offer}
    (h : Offers pass engine.scene (selected.reverse.flatMap (pass.proposals engine.scene)) offers)
    (hstems : ∀ candidate ∈ selected,
      ∃ interaction, Pass.Stems (pass.graph engine) key candidate interaction)
    {offer : Offer} (hmem : offer ∈ offers)
    (hasks : (Entry.told (offer.event pass.instanceId engine.scene) engine.scene).asks i wire =
      true) :
    i = pass.instanceId ∧ wire = offer.toProposal.wire ∧ offer.candidate ∈ selected ∧
      offer.candidate.isListBound = false := by
  obtain ⟨rfl, hwire, hplain⟩ := Offer.asks_event.mp hasks
  have hselected := List.mem_reverse.mp (h.candidate_mem hmem).1
  obtain ⟨interaction, hstems⟩ := hstems offer.candidate hselected
  rw [← graph_inst_eq] at hplain
  exact ⟨rfl, hwire, hselected, hstems.isListBound_eq_false hplain⟩

/-- Wiring selected candidates keeps the invariant, as a full pass selects only ids that have not
been applied. -/
theorem Once.wires (h : before.Once) {pass : Pass} {key : String} {selected : List Candidate}
    (hwires : pass.Wires selected before after)
    (hdom : before.host.dom.FindsOnce)
    (hlive : pass.instanceId ∈ before.live)
    (hlength : pass.instanceId < before.instances.length)
    (hids : (selected.map Candidate.id).Nodup)
    (hstems : ∀ candidate ∈ selected,
      ∃ interaction, Pass.Stems (pass.graph before) key candidate interaction)
    (hfull : ∀ candidate ∈ selected, candidate.isListBound = false →
      pass.scope = none ∧ candidate.memoKey ∉ (before.inst pass.instanceId).memo) :
    after.Once := by
  obtain ⟨offers, hoffers, hextends⟩ := hwires
  have hinstances := congrArg Scene.instances hextends.scene
  refine h.extend hextends.log (Nat.le_of_eq (length_instances_eq hinstances).symm)
    (fun i _ => graph_eq_of_instances hinstances i) ?_ ?_ ?_
  · simp only [List.map_map, List.mem_map]
    rintro entry ⟨offer, hmem, rfl⟩ i wire hasks
    obtain ⟨rfl, -⟩ := hoffers.unbound_of_asks hstems hmem hasks
    exact hlength
  · intro i wire hi hstands hafter
    rw [hextends.memo]
    rcases stands_offers.mp hstands with hstands | ⟨offer, hmem, haccepts⟩
    · have hsame : after.live = before.live := congrArg Scene.live hextends.scene
      exact .inl (h.kept i wire hstands (hsame ▸ hafter))
    · obtain ⟨hasks, haccepted⟩ := Offer.accepts_event.mp haccepts
      obtain ⟨rfl, rfl, hselected, hunbound⟩ := hoffers.unbound_of_asks hstems hmem hasks
      obtain ⟨hscope, -⟩ := hfull _ hselected hunbound
      exact .inr ⟨rfl, hlength, Pass.mem_marks.mpr
        ⟨hscope, .inl ⟨offer, hmem, haccepted, rfl⟩⟩⟩
  · intro front entry back hsplit i wire hasks
    rw [List.map_map] at hsplit
    obtain ⟨earlier, later, rfl, rfl, hlater⟩ := List.map_eq_append_iff.mp hsplit
    obtain ⟨offer, rest, rfl, rfl, -⟩ := List.map_eq_cons_iff.mp hlater
    obtain ⟨rfl, rfl, hselected, hunbound⟩ := hoffers.unbound_of_asks hstems (by simp) hasks
    rw [Bool.eq_false_iff, ← List.map_map]
    intro hstands
    rcases stands_offers.mp hstands with hstands | ⟨other, hother, haccepts⟩
    · have hmemo := h.kept _ _ hstands hlive
      exact (hfull _ hselected hunbound).2 hmemo
    · -- two offers that are bound to no list ask for different wires
      have hmem : other ∈ earlier ++ offer :: rest := List.mem_append_left _ hother
      obtain ⟨hasks', -⟩ := Offer.accepts_event.mp haccepts
      obtain ⟨-, hwire, -, hunbound'⟩ := hoffers.unbound_of_asks hstems hmem hasks'
      have hpairwise := (List.pairwise_append.mp (hoffers.pairwise hdom hids)).2.2
      exact hpairwise other hother offer List.mem_cons_self hunbound' hwire.symm

theorem Once.sequences (h : before.Once) {P : String → Prop}
    (hsequences : WiresSequences i P before after) : after.Once := by
  obtain ⟨events, marked, hextends, hevents, -⟩ := hsequences
  have hasks (entry : Entry) (hmem : entry ∈ events.map (Entry.told · before.scene))
      (j : InstanceId) (wire : Wire) :
      entry.asks j wire = false ∧ entry.frees j (before.inst j) wire = false := by
    obtain ⟨event, hevent, rfl⟩ := List.mem_map.mp hmem
    have hsequence := hevents event hevent
    cases event with
    | addSequence => exact ⟨rfl, rfl⟩
    | _ => exact absurd hsequence id
  have hinstances := congrArg Scene.instances hextends.scene
  refine h.extend hextends.log (Nat.le_of_eq (length_instances_eq hinstances).symm)
    (fun i _ => graph_eq_of_instances hinstances i) ?_ ?_ ?_
  · intro entry hmem j wire hentry
    exact absurd hentry (Bool.eq_false_iff.mp (hasks entry hmem j wire).1)
  · intro j wire hi hstands hafter
    rw [stands_append fun entry hmem => (hasks entry hmem j wire).2] at hstands
    rcases hstands with hstands | ⟨entry, hentry, haccepts⟩
    · have hsame : after.live = before.live := congrArg Scene.live hextends.scene
      exact (hextends.memo j _).mpr (.inl (h.kept j wire hstands (hsame ▸ hafter)))
    · exact absurd (Entry.asks_of_accepts haccepts)
        (Bool.eq_false_iff.mp (hasks entry hentry j wire).1)
  · intro front entry back hsplit j wire hentry
    exact absurd hentry (Bool.eq_false_iff.mp (hasks entry (by simp [hsplit]) j wire).1)

/-- A pass with a scope selects only what is bound to a list. -/
theorem Pass.scope_eq_none {pass : Pass} {rule : Rule} {effect : CompiledEffect}
    {source target : ControllerId} (hscope : pass.inScope rule effect source target = true)
    (hrule : rule.listContainer = none) (heffect : effect.effect.listContainer = none) :
    pass.scope = none := by
  rw [inScope] at hscope
  split at hscope
  · assumption
  · simp [hrule, heffect] at hscope

theorem Pass.full_of_mem_outgoingOf {pass : Pass} {c : ControllerId} {key : String}
    {candidate : Candidate} (h : candidate ∈ pass.outgoingOf engine c key)
    (hplain : candidate.isListBound = false) :
    pass.scope = none ∧ candidate.memoKey ∉ (engine.inst pass.instanceId).memo := by
  obtain ⟨node, interaction, effect, -, -, -, hcandidate⟩ := mem_outgoingOf h
  obtain ⟨target, -, -, -, hscope, rfl⟩ := outgoing?_eq_some.mp hcandidate
  simp only [Candidate.isListBound, Rule.isListBound, Bool.or_eq_false_iff,
    Option.isSome_eq_false_iff, Option.isNone_iff_eq_none] at hplain
  have hnone := scope_eq_none hscope hplain.1 hplain.2
  exact ⟨hnone, not_mem_memo_of_mem_outgoingOf hnone h⟩

theorem Pass.full_of_mem_incomingOf {pass : Pass} {c : ControllerId} {key : String}
    {candidate : Candidate} (h : candidate ∈ pass.incomingOf engine c key)
    (hplain : candidate.isListBound = false) :
    pass.scope = none ∧ candidate.memoKey ∉ (engine.inst pass.instanceId).memo := by
  obtain ⟨node, entry, -, -, hcandidate⟩ := mem_incomingOf h
  obtain ⟨variant, source, -, -, -, hscope, rfl⟩ := incoming?_eq_some.mp hcandidate
  simp only [Candidate.isListBound, Rule.isListBound, Bool.or_eq_false_iff,
    Option.isSome_eq_false_iff, Option.isNone_iff_eq_none] at hplain
  have hnone := scope_eq_none hscope hplain.1 hplain.2
  exact ⟨hnone, not_mem_memo_of_mem_incomingOf hnone h⟩

theorem Release.once (h : Release before after) (honce : before.Once) : after.Once := by
  cases h with
  | calm h =>
    refine honce.silent h.log (Nat.le_of_eq (length_instances_eq h.instances).symm)
      (fun i _ => graph_eq_of_instances h.instances i) fun i _ hlive => ⟨h.live ▸ hlive, ?_⟩
    rw [h.memo]
    exact fun id hid => hid
  | remove | effectState | insertSheet | removeSheet =>
    exact honce.note rfl rfl (fun _ _ => rfl) fun _ _ _ hmemo => hmemo
  | forget i key =>
    refine honce.note rfl (scene_forgetKey before i key) (fun _ _ => rfl) ?_
    intro j wire hfrees hmemo
    change wire.id.encode ∈ ((before.modifyInstance i (·.clearKey key)).inst j).memo
    rw [inst_modifyInstance_eq]
    split
    next heq =>
      refine List.mem_filter.mpr ⟨hmemo, ?_⟩
      simpa [Entry.frees, Entry.tears, Entry.forgets, heq.1] using hfrees
    next => exact hmemo

theorem Once.found (h : before.Once) (config : Config) :
    Once { before with
      instances := before.instances ++ [Instance.ofConfig config]
      live := before.live ++ [before.instances.length] } := by
  have hinst (i : InstanceId) (hi : i < before.instances.length) :
      (Engine.inst { before with
        instances := before.instances ++ [Instance.ofConfig config]
        live := before.live ++ [before.instances.length] } i) = before.inst i := by
    rw [inst, getD_append_singleton, if_neg (Nat.ne_of_lt hi)]
    rfl
  refine h.silent rfl (by simp) (fun i hi => by rw [hinst i hi]) fun i hi hlive => ?_
  rcases List.mem_append.mp hlive with hlive | hlive
  · exact ⟨hlive, fun id hid => by rw [hinst i hi]; exact hid⟩
  · exact absurd (List.mem_singleton.mp hlive) (Nat.ne_of_lt hi)

/-- An instance that is not live any more may lose what it has kept as applied. -/
theorem Once.retire (h : before.Once) (i : InstanceId) :
    Once { before.modifyInstance i fun inst => { inst with memo := [] } with
      live := before.live.filter fun other => other ≠ i } := by
  refine h.silent rfl (Nat.le_of_eq (List.length_modify ..).symm)
    (fun j _ => graph_modifyInstance i j (fun inst => { inst with memo := [] }) fun _ => rfl)
    fun j _ hlive => ?_
  obtain ⟨hlive, hne⟩ := List.mem_filter.mp hlive
  have hne : j ≠ i := of_decide_eq_true hne
  refine ⟨hlive, ?_⟩
  change ∀ id ∈ (before.inst j).memo,
    id ∈ ((before.modifyInstance i fun inst => { inst with memo := [] }).inst j).memo
  rw [inst_modifyInstance_eq, if_neg fun hand => hne hand.1.symm]
  exact fun id hid => hid

theorem Step.once (h : Step occasion before after) (honce : before.Once)
    (hcompiled : before.Compiled)
    (hdom : before.host.dom.FindsOnce) : after.Once := by
  cases h with
  | release h => exact h.once honce
  | read dom hreads =>
    exact honce.silent rfl Nat.le.refl (fun _ _ => rfl) fun i _ hlive => ⟨hlive, fun id hid => hid⟩
  | mark i id =>
    have hinstances := congrArg Scene.instances (@scene_markApplied before i id)
    refine honce.silent rfl (Nat.le_of_eq (length_instances_eq hinstances).symm)
      (fun i _ => graph_eq_of_instances hinstances i) fun j _ hlive =>
        ⟨hlive, fun other hother => ?_⟩
    exact ((extends_markApplied before i id).memo j other).mpr (.inl hother)
  | found config => exact honce.found config
  | condemn i =>
    refine honce.silent rfl (Nat.le_of_eq (List.length_modify ..).symm)
      (fun j _ => graph_modifyInstance i j _ fun _ => rfl) fun j _ hlive => ⟨hlive, ?_⟩
    rw [inst_modifyInstance_eq]
    split <;> exact fun id hid => hid
  | retire i => exact honce.retire i
  | source pass c key hentitled hwires =>
    have hknows : (before.inst pass.instanceId).graph.knows key = true := by
      rw [graph_inst_eq]
      exact hentitled.knows
    exact honce.wires hwires hdom hentitled.live (lt_of_knows hknows) Pass.nodup_id_outgoingOf
      (fun _ => Pass.exists_stems_of_mem_outgoingOf hcompiled)
      fun _ => Pass.full_of_mem_outgoingOf
  | target pass c key hentitled hwires =>
    have hknows : (before.inst pass.instanceId).graph.knows key = true := by
      rw [graph_inst_eq]
      exact hentitled.knows
    exact honce.wires hwires hdom hentitled.live (lt_of_knows hknows)
      (Pass.nodup_id_incomingOf hcompiled)
      (fun _ => Pass.exists_stems_of_mem_incomingOf hcompiled)
      fun _ => Pass.full_of_mem_incomingOf
  | cue i cue h => exact honce.sequences (wiresSequences_applyCue ..)

/-! ### Runs -/

theorem Step.dom (h : Step occasion before after) :
    after.host.dom = before.host.dom ∨ occasion.reads after.host.dom := by
  have hscene (heq : after.scene = before.scene) : after.host.dom = before.host.dom :=
    congrArg Scene.dom heq
  cases h with
  | release h => exact .inl (Releases.frame (.single h)).1
  | read dom hreads => exact .inr hreads
  | mark | found | condemn | retire => exact .inl rfl
  | source pass c key hentitled hwires => exact .inl (hscene hwires.scene)
  | target pass c key hentitled hwires => exact .inl (hscene hwires.scene)
  | cue i cue h => exact .inl (hscene (scene_applyCue ..))

theorem eq_readDocument_of_reads {operation : Operation} {dom : Dom}
    (h : (engine.occasion operation).reads dom) : operation = .readDocument dom := by
  cases operation with
  | readDocument other =>
    have heq : dom = other := h
    rw [heq]
  | _ => exact absurd h id

theorem Steps.once (h : Steps occasion before after) (honce : before.Once)
    (hcompiled : before.Compiled) (hdom : before.host.dom.FindsOnce)
    (hreads : ∀ dom, occasion.reads dom → dom.FindsOnce) :
    after.Once ∧ after.host.dom.FindsOnce := by
  induction h with
  | refl => exact ⟨honce, hdom⟩
  | tail hsteps hstep ih =>
    refine ⟨hstep.once ih.1 (Steps.compiled hsteps hcompiled) ih.2, ?_⟩
    rcases hstep.dom with heq | hread
    · rw [heq]
      exact ih.2
    · exact hreads _ hread

theorem once_start (host : Host) (options : EngineOptions) : (start host options).Once :=
  ⟨fun _ hmem => absurd hmem List.not_mem_nil, fun _ _ hstands => absurd hstands Bool.false_ne_true,
    fun front entry back hsplit => absurd hsplit (by simp [start])⟩

theorem once_run (host : Host) (options : EngineOptions) (operations : List Operation)
    (hdom : host.dom.FindsOnce)
    (hreads : ∀ dom, .readDocument dom ∈ operations → dom.FindsOnce) :
    ((start host options).run operations).Once := by
  have hall := List.foldlRecOn (motive := fun (state : Engine) =>
      state.Tidy ∧ state.Compiled ∧ state.Once ∧ state.host.dom.FindsOnce) operations
    (fun state operation => (state.perform operation).1)
    ⟨tidy_start host options, compiled_start host options, once_start host options, hdom⟩
    fun state hstate operation hmem => by
      obtain ⟨htidy, hcompiled, honce, hdom⟩ := hstate
      obtain ⟨hsteps, htidy'⟩ := perform_steps htidy operation
      refine ⟨htidy', hsteps.compiled hcompiled, hsteps.once honce hcompiled hdom ?_⟩
      exact fun dom hread => hreads dom (eq_readDocument_of_reads hread ▸ hmem)
  exact hall.2.2.1

/-- A wire that was accepted on behalf of an instance is asked for again only after a teardown of
one of its nodes, or after the instance has let its id be applied again. -/
theorem run_at_most_once {host : Host} {options : EngineOptions} {operations : List Operation}
    (hdom : host.dom.FindsOnce)
    (hreads : ∀ dom, .readDocument dom ∈ operations → dom.FindsOnce)
    {i : InstanceId} {wire : Wire} {p q : Nat} (hlt : p < q)
    (haccepts : (((start host options).run operations).log[p]?).any (·.accepts i wire) = true)
    (hasks : (((start host options).run operations).log[q]?).any (·.asks i wire) = true) :
    ∃ r, p < r ∧ r < q ∧ (((start host options).run operations).log[r]?).any
      (·.frees i (((start host options).run operations).inst i) wire) = true := by
  have honce := once_run host options operations hdom hreads
  generalize (start host options).run operations = engine at *
  obtain ⟨first, hfirst, haccepts⟩ := (Option.any_eq_true _ _).mp haccepts
  obtain ⟨second, hsecond, hasks⟩ := (Option.any_eq_true _ _).mp hasks
  obtain ⟨hq, hsecond⟩ := List.getElem?_eq_some_iff.mp hsecond
  obtain ⟨hp, hfirst⟩ := List.getElem?_eq_some_iff.mp hfirst
  have hfront : engine.stands i wire (engine.log.take q) = false := by
    refine honce.once _ second (engine.log.drop (q + 1)) ?_ i wire hasks
    rw [← hsecond, ← List.drop_eq_getElem_cons, List.take_append_drop]
  by_contra hnone
  have hbetween : ∀ entry ∈ (engine.log.take q).drop (p + 1),
      entry.frees i (engine.inst i) wire = false := by
    intro entry hmem
    rw [Bool.eq_false_iff]
    intro hfrees
    obtain ⟨n, hn, hentry⟩ := List.mem_iff_getElem.mp hmem
    rw [List.length_drop, List.length_take] at hn
    rw [List.getElem_drop, List.getElem_take] at hentry
    refine hnone ⟨p + 1 + n, by omega, by omega, ?_⟩
    rw [List.getElem?_eq_getElem (by omega), hentry]
    exact hfrees
  have hstands : engine.stands i wire (engine.log.take p ++ [first]) = true := by
    rw [stands_append_singleton, haccepts, Bool.true_or]
  have hsplit : engine.log.take q =
      engine.log.take p ++ [first] ++ (engine.log.take q).drop (p + 1) := by
    have htake : (engine.log.take q).take (p + 1) = engine.log.take (p + 1) := by
      rw [List.take_take, Nat.min_eq_left hlt]
    rw [← hfirst, ← List.take_succ_eq_append_getElem hp, ← htake, List.take_append_drop]
  rw [hsplit, ← Bool.not_eq_true, stands_append hbetween] at hfront
  exact hfront (.inl hstands)

/-- A controller that another one has replaced is disconnected a second time. That tears nothing
down, and yet the wire of its successor is asked for again when the next instance is created. -/
theorem run_at_most_once_replaced :
    let config := Config.ofInteractions
      [(Interaction.ofTrigger "a" .click).withEffect ((Effect.byId "f").on "b")]
    let engine := (start .bare .standard).run [.create config, .addNode 2 "b", .addNode 1 "a",
      .disconnect 1 false, .addNode 3 "a", .disconnect 1 false, .create config]
    ∃ r, 3 < r ∧ r < 5 ∧
      (engine.log[r]?).any (·.frees 0 (engine.inst 0) ⟨3, 2, ⟨"b", "f", 0⟩⟩) = true := by
  intro config engine
  exact @run_at_most_once .bare .standard [.create config, .addNode 2 "b", .addNode 1 "a",
    .disconnect 1 false, .addNode 3 "a", .disconnect 1 false, .create config]
    (fun _ _ => List.nodup_nil) (by simp) 0 ⟨3, 2, ⟨"b", "f", 0⟩⟩ 3 5 (by decide)
    (by decide +kernel) (by decide +kernel)

end Engine

end InteractionBinding
