import InteractionBinding.Proofs.Wiring.Links
import Mathlib.Data.List.Dedup
import Mathlib.Data.List.Lattice
/-!
# Who settles an id

Keys that connect one after the other settle the texts of ids: a text is settled by the first key
that has a link to wire for it, and stays settled (`Site.settle`). Where every text that a key has
links for leads it to one other key (`Site.Legible`), two keys are enough to settle a text
(`Site.exists_settle_pair`), so the order in which keys connect makes no difference exactly if it
makes none for pairs of keys (`Site.orderFree_iff`).
-/

namespace InteractionBinding.Engine.Site

variable {site : Site} {key text : String} {keys others others' : List String} {wires : List Wire}

/-- The links for a text that lead from a key to itself or to one of the others. -/
def linksTo (links : List Link) (key : String) (others : List String) (text : String) : List Link :=
  links.filter fun link => link.text = text && link.other ∈ key :: others

/-- The wires that a key settles a text with when others are connected: those of the effect that its
source side selects, or else those of its target side. A key that wires nothing for the text does
not settle it. -/
def offer (site : Site) (key : String) (others : List String) (text : String) :
    Option (List Wire) :=
  let outgoing := linksTo (site.outgoing key) key others text
  match outgoing.getLast?.filter fun link => site.takes link key link.other with
  | some link => some (site.wires link key link.other)
  | none =>
    let incoming := linksTo (site.incoming key) key others text
    if incoming.any fun link => site.takes link link.other key then
      some (incoming.flatMap fun link => site.wires link link.other key)
    else none

/-- The wires that keys settle a text with, the key that connects last coming first. -/
def settle (site : Site) : List String → String → Option (List Wire)
  | [], _ => none
  | key :: earlier, text => (site.settle earlier text).or (site.offer key earlier text)

/-- The texts under which the sequences of a key are kept as applied. -/
def sequenceTexts (site : Site) (key : String) : List String :=
  match site.graph.get? key with
  | none => []
  | some node =>
    node.triggers.flatMap fun interaction =>
      interaction.sequences.map fun sequence =>
        (sequence.id.interpolate (KeyTemplate.indices key)).encode

/-- The text of a link tells which other key it leads to, on each side of a key, and that it is no
sequence. -/
structure Legible (site : Site) (keys : List String) : Prop where
  outgoing : ∀ key ∈ keys, ∀ link ∈ site.outgoing key, ∀ link' ∈ site.outgoing key,
    link.text = link'.text → link.other = link'.other
  incoming : ∀ key ∈ keys, ∀ link ∈ site.incoming key, ∀ link' ∈ site.incoming key,
    link.text = link'.text → link.other = link'.other
  sequences : ∀ key ∈ keys, ∀ link ∈ site.outgoing key ++ site.incoming key, ∀ other ∈ keys,
    link.text ∉ site.sequenceTexts other

/-! ### Offers -/

theorem mem_linksTo {links : List Link} {link : Link} :
    link ∈ linksTo links key others text ↔
      link ∈ links ∧ link.text = text ∧ link.other ∈ key :: others := by
  simp [linksTo]

/-- Links that are told apart by their texts all lead to a key if one of them does. -/
theorem linksTo_eq_of_mem {links : List Link} {link : Link}
    (hlegible : ∀ link ∈ links, ∀ link' ∈ links, link.text = link'.text → link.other = link'.other)
    (h : link ∈ linksTo links key others text) :
    linksTo links key others text = links.filter fun link => link.text = text := by
  obtain ⟨hmem, htext, hother⟩ := mem_linksTo.mp h
  refine List.filter_congr fun link' hmem' => ?_
  by_cases htext' : link'.text = text
  · have heq : link'.other = link.other := hlegible _ hmem' _ hmem (htext'.trans htext.symm)
    simp only [htext', decide_true, Bool.true_and, heq, hother]
  · simp [htext']

theorem linksTo_congr {links : List Link} {link : Link}
    (hlegible : ∀ link ∈ links, ∀ link' ∈ links, link.text = link'.text → link.other = link'.other)
    (h : link ∈ linksTo links key others text) (h' : link ∈ linksTo links key others' text) :
    linksTo links key others' text = linksTo links key others text := by
  rw [linksTo_eq_of_mem hlegible h, linksTo_eq_of_mem hlegible h']

theorem offer_congr (h : ∀ other, other ∈ key :: others ↔ other ∈ key :: others') :
    site.offer key others text = site.offer key others' text := by
  have hlinks (links : List Link) :
      linksTo links key others text = linksTo links key others' text := by
    simp only [linksTo, h]
  simp only [offer, hlinks]

/-- What a key settles a text with, it settles it with beside the one other key of its link. -/
theorem exists_offer_singleton (hlegible : site.Legible keys) (hkey : key ∈ keys)
    (h : site.offer key others text = some wires) :
    ∃ other ∈ key :: others, site.offer key [other] text = some wires := by
  simp only [offer] at h
  split at h
  next link hlink =>
    obtain ⟨hlast, htakes⟩ := Option.filter_eq_some_iff.mp hlink
    have hmem := List.mem_of_getLast? hlast
    obtain ⟨hlink, htext, hother⟩ := mem_linksTo.mp hmem
    have hmem' : link ∈ linksTo (site.outgoing key) key [link.other] text :=
      mem_linksTo.mpr ⟨hlink, htext, by simp⟩
    refine ⟨link.other, hother, ?_⟩
    rw [offer, linksTo_congr (hlegible.outgoing key hkey) hmem hmem', hlast]
    simpa [Option.filter, htakes] using h
  next hclosed =>
    split at h
    next hany =>
      obtain ⟨link, hmem, htakes⟩ := List.any_eq_true.mp hany
      obtain ⟨hlink, htext, hother⟩ := mem_linksTo.mp hmem
      have hmem' : link ∈ linksTo (site.incoming key) key [link.other] text :=
        mem_linksTo.mpr ⟨hlink, htext, by simp⟩
      have hsource : (linksTo (site.outgoing key) key [link.other] text).getLast?.filter
          (fun link => site.takes link key link.other) = none := by
        rcases hlist : linksTo (site.outgoing key) key [link.other] text with _ | ⟨first, rest⟩
        · rfl
        · have hfirst : first ∈ linksTo (site.outgoing key) key [link.other] text := by simp [hlist]
          obtain ⟨hout, htext', hother'⟩ := mem_linksTo.mp hfirst
          have hfirst' : first ∈ linksTo (site.outgoing key) key others text :=
            mem_linksTo.mpr ⟨hout, htext', by grind⟩
          rw [← hlist, linksTo_congr (hlegible.outgoing key hkey) hfirst' hfirst]
          exact hclosed
      refine ⟨link.other, hother, ?_⟩
      simp only [offer, hsource, linksTo_congr (hlegible.incoming key hkey) hmem hmem', hany,
        if_true]
      exact h
    next => cases h

/-- A key that settles a text settles it also when more keys are connected. -/
theorem isSome_offer_mono (hlegible : site.Legible keys) (hkey : key ∈ keys)
    (h : (site.offer key others text).isSome) (hsubset : others ⊆ others') :
    (site.offer key others' text).isSome := by
  have hcons : key :: others ⊆ key :: others' := List.cons_subset_cons key hsubset
  simp only [offer] at h ⊢
  split at h
  next link hlink =>
    obtain ⟨hlast, htakes⟩ := Option.filter_eq_some_iff.mp hlink
    have hmem := List.mem_of_getLast? hlast
    obtain ⟨hlink', htext, hother⟩ := mem_linksTo.mp hmem
    have hmem' : link ∈ linksTo (site.outgoing key) key others' text :=
      mem_linksTo.mpr ⟨hlink', htext, hcons hother⟩
    rw [linksTo_congr (hlegible.outgoing key hkey) hmem hmem', hlink]
    rfl
  next =>
    split at h
    next hany =>
      obtain ⟨link, hmem, htakes⟩ := List.any_eq_true.mp hany
      obtain ⟨hlink, htext, hother⟩ := mem_linksTo.mp hmem
      have hmem' : link ∈ linksTo (site.incoming key) key others' text :=
        mem_linksTo.mpr ⟨hlink, htext, hcons hother⟩
      split
      · rfl
      · rw [if_pos (List.any_eq_true.mpr ⟨link, hmem', htakes⟩)]
        rfl
    next => cases h

theorem takes_of_mem_wires {link : Link} {source target : String} {wire : Wire}
    (h : wire ∈ site.wires link source target) : site.takes link source target = true := by
  have hne : (site.wires link source target).isEmpty = false :=
    List.isEmpty_eq_false_iff.mpr (List.ne_nil_of_mem h)
  rw [takes, hne]
  rfl

theorem id_eq_of_mem_wires {link : Link} {source target : String} {wire : Wire}
    (h : wire ∈ site.wires link source target) : wire.id = link.id := by
  rw [Site.wires] at h
  split at h
  · obtain ⟨pair, -, rfl⟩ := List.mem_map.mp h
    rfl
  · cases h

/-- A key settles a text if the link that its source side selects is kept as applied, or a link of
its target side. -/
theorem isSome_offer_iff :
    (site.offer key others text).isSome ↔
      (∃ link, (linksTo (site.outgoing key) key others text).getLast? = some link ∧
        site.takes link key link.other = true) ∨
      ∃ link ∈ linksTo (site.incoming key) key others text,
        site.takes link link.other key = true := by
  simp only [offer]
  split
  next link hlink =>
    obtain ⟨hlast, htakes⟩ := Option.filter_eq_some_iff.mp hlink
    exact iff_of_true rfl (.inl ⟨link, hlast, htakes⟩)
  next hnone =>
    have hclosed : ¬∃ link, (linksTo (site.outgoing key) key others text).getLast? = some link ∧
        site.takes link key link.other = true := fun ⟨link, hlast, htakes⟩ =>
      Option.filter_eq_none_iff.mp hnone link hlast htakes
    rw [or_iff_right hclosed, ← List.any_eq_true]
    split
    next hany => exact iff_of_true rfl hany
    next hany => exact iff_of_false Bool.false_ne_true hany

/-- A key settles a text with the wires of the link that its source side selects, and with those of
its target side if that link is not kept as applied. -/
theorem exists_mem_offer_iff {wire : Wire} :
    (∃ wires, site.offer key others text = some wires ∧ wire ∈ wires) ↔
      (∃ link, (linksTo (site.outgoing key) key others text).getLast? = some link ∧
        wire ∈ site.wires link key link.other) ∨
      (¬∃ link, (linksTo (site.outgoing key) key others text).getLast? = some link ∧
        site.takes link key link.other = true) ∧
      ∃ link ∈ linksTo (site.incoming key) key others text,
        wire ∈ site.wires link link.other key := by
  simp only [offer]
  split
  next link hlink =>
    obtain ⟨hlast, htakes⟩ := Option.filter_eq_some_iff.mp hlink
    simp [hlast, htakes]
  next hnone =>
    have hclosed : ¬∃ link, (linksTo (site.outgoing key) key others text).getLast? = some link ∧
        site.takes link key link.other = true := fun ⟨link, hlast, htakes⟩ =>
      Option.filter_eq_none_iff.mp hnone link hlast htakes
    have hnowire : ¬∃ link, (linksTo (site.outgoing key) key others text).getLast? = some link ∧
        wire ∈ site.wires link key link.other := fun ⟨link, hlast, hwire⟩ =>
      hclosed ⟨link, hlast, takes_of_mem_wires hwire⟩
    rw [or_iff_right hnowire, and_iff_right hclosed]
    split
    next => simp
    next hany =>
      refine iff_of_false (by simp) fun ⟨link, hlink, hwire⟩ => hany ?_
      exact List.any_eq_true.mpr ⟨link, hlink, takes_of_mem_wires hwire⟩

theorem text_eq_of_mem_offer (h : site.offer key others text = some wires) {wire : Wire}
    (hmem : wire ∈ wires) : wire.id.encode = text := by
  rcases exists_mem_offer_iff.mp ⟨wires, h, hmem⟩ with
    ⟨link, hlast, hwire⟩ | ⟨-, link, hlink, hwire⟩
  · rw [id_eq_of_mem_wires hwire]
    exact (mem_linksTo.mp (List.mem_of_getLast? hlast)).2.1
  · rw [id_eq_of_mem_wires hwire]
    exact (mem_linksTo.mp hlink).2.1

theorem exists_link_of_isSome_offer (h : (site.offer key others text).isSome) :
    ∃ link ∈ site.outgoing key ++ site.incoming key, link.text = text := by
  rcases isSome_offer_iff.mp h with ⟨link, hlast, -⟩ | ⟨link, hlink, -⟩
  · obtain ⟨hmem, htext, -⟩ := mem_linksTo.mp (List.mem_of_getLast? hlast)
    exact ⟨link, List.mem_append_left _ hmem, htext⟩
  · obtain ⟨hmem, htext, -⟩ := mem_linksTo.mp hlink
    exact ⟨link, List.mem_append_right _ hmem, htext⟩

theorem offer_eq_none_of_get? (h : site.graph.get? key = none) :
    site.offer key others text = none := by
  by_contra hsome
  obtain ⟨link, hlink, -⟩ := exists_link_of_isSome_offer (Option.isSome_iff_ne_none.mpr hsome)
  simp [outgoing, incoming, h] at hlink

/-! ### Settling -/

theorem settle_append (h : site.settle others text = some wires) (later : List String) :
    site.settle (later ++ others) text = some wires := by
  induction later with
  | nil => exact h
  | cons key rest ih => rw [List.cons_append, settle, ih, Option.some_or]

/-- What some keys settle is settled when more keys connect in between. -/
theorem isSome_settle_of_sublist (hlegible : site.Legible keys) (hkeys : others' ⊆ keys)
    (hsublist : others.Sublist others') (h : (site.settle others text).isSome) :
    (site.settle others' text).isSome := by
  induction hsublist with
  | slnil => exact h
  | @cons earlier earlier' key hsub ih =>
    obtain ⟨-, hrest⟩ := List.cons_subset.mp hkeys
    rw [settle, Option.isSome_or, ih hrest h, Bool.true_or]
  | @cons_cons earlier earlier' key hsub ih =>
    obtain ⟨hkey, hrest⟩ := List.cons_subset.mp hkeys
    rw [settle, Option.isSome_or, Bool.or_eq_true] at h ⊢
    exact h.imp (ih hrest) fun hoffer => isSome_offer_mono hlegible hkey hoffer hsub.subset

/-- What keys settle, two of them settle. -/
theorem exists_settle_pair (hlegible : site.Legible keys) (hkeys : others ⊆ keys)
    (h : site.settle others text = some wires) :
    ∃ key ∈ others, ∃ other ∈ others, site.settle [key, other] text = some wires := by
  induction others with
  | nil => cases h
  | cons key earlier ih =>
    obtain ⟨hkey, hrest⟩ := List.cons_subset.mp hkeys
    rw [settle] at h
    rcases Option.or_eq_some_iff.mp h with hsettled | ⟨hnone, hoffer⟩
    · obtain ⟨key', hkey', other, hother, hpair⟩ := ih hrest hsettled
      exact ⟨key', .tail _ hkey', other, .tail _ hother, hpair⟩
    · obtain ⟨other, hother, hsingle⟩ := exists_offer_singleton hlegible hkey hoffer
      refine ⟨key, .head _, other, hother, ?_⟩
      rw [settle, hsingle, settle, settle, Option.none_or]
      rcases List.mem_cons.mp hother with rfl | hmem
      · have hself : site.offer other [] text = site.offer other [other] text :=
          offer_congr fun _ => by simp
        rw [hself, hsingle, Option.some_or]
      · have hfirst : site.offer other [] text = none := by
          by_contra hsome
          have hsettled := isSome_settle_of_sublist hlegible hrest (List.singleton_sublist.mpr hmem)
            (h := by rw [settle, settle, Option.none_or]; exact Option.isSome_iff_ne_none.mpr hsome)
          rw [hnone] at hsettled
          cases hsettled
        rw [hfirst, Option.none_or]

theorem settle_dedup_pair (site : Site) (a b text : String) :
    site.settle [a, b].dedup text = site.settle [a, b] text := by
  by_cases heq : a = b
  · subst heq
    have hself : site.offer a [] text = site.offer a [a] text := offer_congr fun _ => by simp
    have hdedup : [a, a].dedup = [a] := by simp
    simp only [hdedup, settle, Option.none_or, hself, Option.or_self]
  · rw [List.Nodup.dedup (by simp [heq])]

/-- Two keys that settle a text in both orders settle it in every order that they are part of. -/
theorem isSome_settle_of_pair (hlegible : site.Legible keys) (hkeys : others ⊆ keys) {a b : String}
    (ha : a ∈ others) (hb : b ∈ others) (h : (site.settle [a, b] text).isSome)
    (h' : (site.settle [b, a] text).isSome) : (site.settle others text).isSome := by
  by_cases heq : a = b
  · rw [← settle_dedup_pair, heq, List.dedup_cons_of_mem (by simp), (List.nodup_singleton b).dedup]
      at h
    exact isSome_settle_of_sublist hlegible hkeys (List.singleton_sublist.mpr hb) h
  · obtain ⟨front, back, rfl⟩ := List.append_of_mem ha
    rcases List.mem_append.mp hb with hfront | hback
    · have hsub := (List.singleton_sublist.mpr hfront).append
        (List.singleton_sublist.mpr (List.mem_cons_self (a := a) (l := back)))
      exact isSome_settle_of_sublist hlegible hkeys hsub h'
    · have hback := (List.mem_cons.mp hback).resolve_left (Ne.symm heq)
      have hsub := ((List.singleton_sublist.mpr hback).cons_cons a).trans
        (List.sublist_append_right front (a :: back))
      exact isSome_settle_of_sublist hlegible hkeys hsub h

theorem text_eq_of_mem_settle (h : site.settle others text = some wires) {wire : Wire}
    (hmem : wire ∈ wires) : wire.id.encode = text := by
  induction others with
  | nil => cases h
  | cons key earlier ih =>
    rw [settle] at h
    rcases Option.or_eq_some_iff.mp h with hsettled | ⟨-, hoffer⟩
    · exact ih hsettled
    · exact text_eq_of_mem_offer hoffer hmem

/-! ### Orders of keys -/

/-- The wires of keys that have connected, the last one coming first. -/
def Settled (site : Site) (order : List String) (wire : Wire) : Prop :=
  ∃ wires, site.settle order wire.id.encode = some wires ∧ wire ∈ wires

theorem settled_cons {order : List String} {wire : Wire} :
    site.Settled (key :: order) wire ↔ site.Settled order wire ∨
      site.settle order wire.id.encode = none ∧
        ∃ wires, site.offer key order wire.id.encode = some wires ∧ wire ∈ wires := by
  simp only [Settled, settle]
  cases site.settle order wire.id.encode <;> simp

/-- Pairs of keys leave no choice of how a text is settled: all that settle it do so with the same
wires, and a pair that settles it with wires in one order settles it in the other order too. -/
structure OrderFree (site : Site) (keys : List String) : Prop where
  agree : ∀ a ∈ keys, ∀ b ∈ keys, ∀ a' ∈ keys, ∀ b' ∈ keys, ∀ text wires wires',
    site.settle [a, b] text = some wires → site.settle [a', b'] text = some wires' →
      ∀ wire, wire ∈ wires → wire ∈ wires'
  mirrored : ∀ a ∈ keys, ∀ b ∈ keys, ∀ text wires,
    site.settle [a, b] text = some wires → wires ≠ [] → (site.settle [b, a] text).isSome

/-- Wires that two keys settle are settled by an order of four keys in which the two come first. -/
theorem settled_union {a b : String} {wire : Wire} (first : List String)
    (h : site.settle [a, b] wire.id.encode = some wires) (hmem : wire ∈ wires) :
    site.Settled (first ∪ [a, b].dedup) wire := by
  obtain ⟨later, hlater⟩ := List.suffix_union_right first [a, b].dedup
  rw [← settle_dedup_pair] at h
  exact ⟨wires, hlater ▸ settle_append h later, hmem⟩

theorem agree_of_forall_perm
    (h : ∀ order order', order.Perm order' → order.Nodup → order ⊆ keys →
      ∀ wire, site.Settled order wire → site.Settled order' wire)
    {a b a' b' : String} (ha : a ∈ keys) (hb : b ∈ keys) (ha' : a' ∈ keys) (hb' : b' ∈ keys)
    {wires' : List Wire} (hpair : site.settle [a, b] text = some wires)
    (hpair' : site.settle [a', b'] text = some wires') : ∀ wire ∈ wires, wire ∈ wires' := by
  intro wire hmem
  obtain rfl := text_eq_of_mem_settle hpair hmem
  have hnodup : ([a', b'] ∪ [a, b].dedup).Nodup := (List.nodup_dedup _).union _
  have hnodup' : ([a, b] ∪ [a', b'].dedup).Nodup := (List.nodup_dedup _).union _
  have hperm : ([a', b'] ∪ [a, b].dedup).Perm ([a, b] ∪ [a', b'].dedup) :=
    (List.perm_ext_iff_of_nodup hnodup hnodup').mpr fun key => by
      simp only [List.mem_union_iff, List.mem_dedup]
      exact or_comm
  have hsubset : [a', b'] ∪ [a, b].dedup ⊆ keys := by
    intro key hkey
    simp only [List.mem_union_iff, List.mem_dedup, List.mem_cons, List.not_mem_nil,
      or_false] at hkey
    grind
  obtain ⟨settled, hsettled, hwire⟩ := h _ _ hperm hnodup hsubset wire (settled_union _ hpair hmem)
  obtain ⟨later, hlater⟩ := List.suffix_union_right [a, b] [a', b'].dedup
  rw [← settle_dedup_pair] at hpair'
  rw [← hlater, settle_append hpair' later] at hsettled
  cases hsettled
  exact hwire

/-- The order in which keys connect makes no difference exactly if it makes none for pairs of them.
-/
theorem orderFree_iff (hlegible : site.Legible keys) :
    (∀ order order', order.Perm order' → order.Nodup → order ⊆ keys →
      ∀ wire, site.Settled order wire → site.Settled order' wire) ↔ site.OrderFree keys := by
  constructor
  · intro h
    refine ⟨fun a ha b hb a' ha' b' hb' text wires wires' hpair hpair' =>
      agree_of_forall_perm h ha hb ha' hb' hpair hpair', ?_⟩
    intro a ha b hb text wires hpair hne
    by_cases heq : a = b
    · rw [← heq] at hpair ⊢
      rw [hpair]
      rfl
    · obtain ⟨wire, hmem⟩ := List.exists_mem_of_ne_nil _ hne
      obtain rfl := text_eq_of_mem_settle hpair hmem
      obtain ⟨settled, hsettled, -⟩ := h [a, b] [b, a] (.swap b a []) (by simp [heq])
        (by simp [ha, hb]) wire ⟨wires, hpair, hmem⟩
      exact Option.isSome_of_eq_some hsettled
  · rintro horder order order' hperm - hkeys wire ⟨wires, hsettled, hmem⟩
    have hkeys' : order' ⊆ keys := fun key hkey => hkeys (hperm.mem_iff.mpr hkey)
    obtain ⟨a, ha, b, hb, hpair⟩ := exists_settle_pair hlegible hkeys hsettled
    have hmirrored := horder.mirrored a (hkeys ha) b (hkeys hb) _ _ hpair (List.ne_nil_of_mem hmem)
    have hsome := isSome_settle_of_pair hlegible hkeys' (hperm.mem_iff.mp ha) (hperm.mem_iff.mp hb)
      (Option.isSome_of_eq_some hpair) hmirrored
    obtain ⟨wires', hsettled'⟩ := Option.isSome_iff_exists.mp hsome
    obtain ⟨a', ha', b', hb', hpair'⟩ := exists_settle_pair hlegible hkeys' hsettled'
    exact ⟨wires', hsettled', horder.agree a (hkeys ha) b (hkeys hb) a' (hkeys' ha') b' (hkeys' hb')
      _ _ _ hpair hpair' wire hmem⟩

/-! ### Resolving both sides -/

section Sides

variable {i : InstanceId} {engine : Engine} {c : ControllerId}

theorem selects_iff
    (hconnected : ∀ other, (engine.connectedController? other).isSome ↔ other ∈ key :: others)
    {link : Link} :
    site.Selects engine i key link ↔ link.text ∉ (engine.inst i).memo ∧
      (linksTo (site.outgoing key) key others link.text).getLast? = some link := by
  by_cases hmemo : link.text ∈ (engine.inst i).memo
  · exact iff_of_false (fun h => h.ready.1 hmemo) fun h => h.1 hmemo
  · have hmatch : (fun other : Link => decide (other.text = link.text) && isReady engine i other) =
        fun other => decide (other.text = link.text) && decide (other.other ∈ key :: others) := by
      funext other
      by_cases htext : other.text = link.text
      · rw [isReady, htext, Bool.eq_iff_iff]
        simp [hmemo, hconnected]
      · simp [htext]
    rw [Selects, hmatch, and_iff_right hmemo, linksTo, List.getLast?_eq_head?_reverse,
      ← List.filter_reverse, List.head?_filter]

variable {middle later : Engine} {text : String} {wire : Wire}

theorem isReady_iff (hscene : middle.scene = engine.scene)
    (hconnected : ∀ other, (engine.connectedController? other).isSome ↔ other ∈ key :: others)
    {link : Link} :
    isReady middle i link = true ↔
      link.text ∉ (middle.inst i).memo ∧ link.other ∈ key :: others := by
  have hpartner : middle.connectedController? link.other =
      engine.connectedController? link.other := by
    rw [connectedController?_eq, connectedController?_eq, hscene]
  simp only [isReady, Bool.and_eq_true, decide_eq_true_eq, hpartner, hconnected]

/-- The texts that are kept as applied once the source side of a key has been resolved. -/
theorem mem_memo_of_source (h : OnSite site i engine.scene)
    (hlength : i < engine.instances.length) (hself : engine.connectedController? key = some c)
    (hconnected : ∀ other, (engine.connectedController? other).isSome ↔ other ∈ key :: others)
    (hout : (Pass.mk i none).Wires ((Pass.mk i none).outgoingOf engine c key) engine middle) :
    text ∈ (middle.inst i).memo ↔ text ∈ (engine.inst i).memo ∨
      ∃ link, (linksTo (site.outgoing key) key others text).getLast? = some link ∧
        site.takes link key link.other = true := by
  rw [mem_memo_outgoing h hself hout hlength]
  by_cases hmem : text ∈ (engine.inst i).memo
  · exact iff_of_true (.inl hmem) (.inl hmem)
  · refine or_congr_right ⟨?_, ?_⟩
    · rintro ⟨link, hselects, rfl, htakes⟩
      exact ⟨link, ((selects_iff hconnected).mp hselects).2, htakes⟩
    · rintro ⟨link, hlast, htakes⟩
      obtain ⟨-, rfl, -⟩ := mem_linksTo.mp (List.mem_of_getLast? hlast)
      exact ⟨link, (selects_iff hconnected).mpr ⟨hmem, hlast⟩, rfl, htakes⟩

/-- The texts that are kept as applied once both sides of a key have been resolved are those that
the key settles. -/
theorem mem_memo_of_sides (h : OnSite site i engine.scene)
    (hlength : i < engine.instances.length) (hself : engine.connectedController? key = some c)
    (hconnected : ∀ other, (engine.connectedController? other).isSome ↔ other ∈ key :: others)
    (hout : (Pass.mk i none).Wires ((Pass.mk i none).outgoingOf engine c key) engine middle)
    (hin : (Pass.mk i none).Wires ((Pass.mk i none).incomingOf middle c key) middle later) :
    text ∈ (later.inst i).memo ↔
      text ∈ (engine.inst i).memo ∨ (site.offer key others text).isSome := by
  have hself' : middle.connectedController? key = some c := by
    rw [← hself, connectedController?_eq, connectedController?_eq, hout.scene]
  have hlength' : i < middle.instances.length := by
    rwa [length_instances_eq (congrArg Scene.instances hout.scene)]
  have hmemo : text ∈ (middle.inst i).memo ↔ _ :=
    mem_memo_of_source h hlength hself hconnected hout
  rw [mem_memo_incoming (hout.scene ▸ h) hself' hin hlength', isSome_offer_iff, hmemo, or_assoc]
  by_cases htaken : text ∈ (middle.inst i).memo
  · exact iff_of_true ((hmemo.mp htaken).imp_right .inl) ((hmemo.mp htaken).imp_right .inl)
  · refine or_congr_right (or_congr_right ⟨?_, ?_⟩)
    · rintro ⟨link, hlink, hready, rfl, htakes⟩
      have hother := ((isReady_iff hout.scene hconnected).mp hready).2
      exact ⟨link, mem_linksTo.mpr ⟨hlink, rfl, hother⟩, htakes⟩
    · rintro ⟨link, hlink, htakes⟩
      obtain ⟨hmem, rfl, hother⟩ := mem_linksTo.mp hlink
      exact ⟨link, hmem, (isReady_iff hout.scene hconnected).mpr ⟨htaken, hother⟩, rfl, htakes⟩

/-- The wires of a key once both of its sides have been resolved are those that the key settles
texts with. -/
theorem mem_wires_of_sides (h : OnSite site i engine.scene)
    (hlength : i < engine.instances.length) (hself : engine.connectedController? key = some c)
    (hconnected : ∀ other, (engine.connectedController? other).isSome ↔ other ∈ key :: others)
    (hout : (Pass.mk i none).Wires ((Pass.mk i none).outgoingOf engine c key) engine middle)
    (hin : (Pass.mk i none).Wires ((Pass.mk i none).incomingOf middle c key) middle later) :
    wire ∈ later.wires ↔ wire ∈ engine.wires ∨ wire.id.encode ∉ (engine.inst i).memo ∧
      ∃ wires, site.offer key others wire.id.encode = some wires ∧ wire ∈ wires := by
  have hself' : middle.connectedController? key = some c := by
    rw [← hself, connectedController?_eq, connectedController?_eq, hout.scene]
  have hmemo : wire.id.encode ∈ (middle.inst i).memo ↔ _ :=
    mem_memo_of_source h hlength hself hconnected hout
  have htext {link : Link} {source target : String} (hwire : wire ∈ site.wires link source target) :
      link.text = wire.id.encode := by
    rw [id_eq_of_mem_wires hwire]
    rfl
  rw [mem_wires_incoming (hout.scene ▸ h) hself' hin, mem_wires_outgoing h hself hout, or_assoc,
    exists_mem_offer_iff]
  refine or_congr_right ⟨?_, ?_⟩
  · rintro (⟨link, hselects, hwire⟩ | ⟨link, hlink, hready, hwire⟩)
    · obtain ⟨hunmarked, hlast⟩ := (selects_iff hconnected).mp hselects
      rw [htext hwire] at hunmarked hlast
      exact ⟨hunmarked, .inl ⟨link, hlast, hwire⟩⟩
    · obtain ⟨hunmarked, hother⟩ := (isReady_iff hout.scene hconnected).mp hready
      rw [htext hwire, hmemo, not_or] at hunmarked
      exact ⟨hunmarked.1,
        .inr ⟨hunmarked.2, link, mem_linksTo.mpr ⟨hlink, htext hwire, hother⟩, hwire⟩⟩
  · rintro ⟨hunmarked, ⟨link, hlast, hwire⟩ | ⟨hclosed, link, hlink, hwire⟩⟩
    · rw [← htext hwire] at hunmarked hlast
      exact .inl ⟨link, (selects_iff hconnected).mpr ⟨hunmarked, hlast⟩, hwire⟩
    · obtain ⟨hlink, -, hother⟩ := mem_linksTo.mp hlink
      have hready : link.text ∉ (middle.inst i).memo := by
        rw [htext hwire, hmemo, not_or]
        exact ⟨hunmarked, hclosed⟩
      exact .inr ⟨link, hlink, (isReady_iff hout.scene hconnected).mpr ⟨hready, hother⟩, hwire⟩

end Sides

end InteractionBinding.Engine.Site
