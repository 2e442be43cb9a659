import SlotFlow.Proofs.Document.SlotPass
/-!
# The records of links

When the turn of the links comes, all slots are there, and the links are requested one after the
other. A request is granted because the link was there in the workflow that was saved: its ends fit,
and its target has no link yet, as inputs have one link at most. A slot on the border takes on no
type that it does not have, since what it is linked to inside agrees with it already.

The induction is on the links that are left, over the workflows that have those before them.

* `Workflow.Retraced` — a workflow that has the first links of another.

## Results

* `Workflow.Retraced.addRecordedLink` — the next link;
* `Workflow.Restorable.ofRecords_records` — a restorable workflow comes back from its records.
-/

namespace SlotFlow.Workflow

variable {μ : Type} {u v w : Workflow μ}

theorem recordedLinks_records (w : Workflow μ) :
    recordedLinks w.records = w.links.map w.linkData := by
  have hblocks : recordedLinks (w.blocks.map w.recordOfBlock) = [] :=
    filterMap_blocks_eq_nil fun _ _ => rfl
  have hslots : recordedLinks (w.ownedSlots.map recordOfSlot) = [] :=
    filterMap_slots_eq_nil fun _ _ => rfl
  have hlinks : recordedLinks (w.links.map w.recordOfLink) = w.links.map w.linkData := by
    rw [recordedLinks, List.filterMap_map, ← List.filterMap_eq_map]
    rfl
  have happend : ∀ first second : List Record,
      recordedLinks (first ++ second) = recordedLinks first ++ recordedLinks second :=
    fun _ _ => List.filterMap_append
  rw [records, happend, happend, hblocks, hslots, hlinks, List.nil_append, List.nil_append]

/-- A workflow that agrees with another apart from numbers and has the first of its links. -/
structure Retraced (w u : Workflow μ) (links : List Link) : Prop where
  wellFormed : u.WellFormed
  name : u.name = w.name
  tree : u.tree.map Block.outline = w.tree.map Block.outline
  links : u.links.map u.linkData = links.map w.linkData

/-- A change that leaves the slot of a number alone leaves the workflow alone. -/
theorem modifySlot_eq_self {id : SlotId} {f : Slot → Slot}
    (h : ∀ slot ∈ w.slots, slot.id = id → f slot = slot) : w.modifySlot id f = w := by
  have hslots : ∀ block ∈ w.blocks,
      block.slots.map (fun slot => if slot.id = id then f slot else slot) = block.slots := by
    intro block hb
    refine (List.map_congr_left fun slot hs => ?_).trans (List.map_id _)
    split
    · exact h slot (mem_slots.mpr ⟨block, hb, hs⟩) ‹_›
    · rfl
  have hblocks : ∀ block ∈ w.blocks, { block with
      slots := block.slots.map (fun slot => if slot.id = id then f slot else slot) } = block := by
    intro block hb
    rw [hslots block hb]
  exact mapBlocks_eq_self hblocks

/-- An output and an input that agree are compatible. -/
theorem compatible_of_agree {s t : Slot} (hout : s.direction = .output) (hin : t.direction = .input)
    (hagree : s.Agree t) : s.compatible t = true := by
  rw [Slot.compatible, hout, hin]
  cases hsext : s.external with
  | true => rfl
  | false => cases htext : t.external with
    | true => rfl
    | false => simpa using hagree.inside hsext htext

/-- An output may be linked to an input that is compatible with it and has no link. -/
theorem WellFormed.connection_of_compatible (hu : u.WellFormed) {s t : Slot} (hs : s ∈ u.slots)
    (ht : t ∈ u.slots) (hout : s.direction = .output) (hin : t.direction = .input)
    (hcompatible : s.compatible t = true) (hnone : ∀ link ∈ u.links, link.touches t.id = false) :
    u.connection s t = .ok ⟨s.id, t.id, adoptedType? s t⟩ := by
  refine connection_eq_ok.mpr ⟨?_, ?_, hcompatible, ?_, ?_, ?_, ?_⟩
  · intro heq
    rw [List.inj_on_of_nodup_map hu.slotIds hs ht heq, hin] at hout
    cases hout
  · rw [hout, hin]
    decide
  · rw [List.any_eq_false]
    intro other ho hj
    have htouch : other.touches t.id = true := by
      simp only [Link.joins, Bool.or_eq_true, Bool.and_eq_true, decide_eq_true_eq] at hj
      rcases hj with ⟨-, ht⟩ | ⟨ht, -⟩ <;> simp [Link.touches, ht]
    rw [hnone other ho] at htouch
    cases htouch
  · rw [isFull, Slot.maxLinks, hout]
  · have hempty : u.linksAt t.id = [] := by
      rw [linksAt, List.filter_eq_nil_iff]
      intro other ho
      rw [hnone other ho]
      exact Bool.false_ne_true
    rw [isFull, Slot.maxLinks, hin, hempty]
    rfl
  · rw [hout]

theorem WellFormed.connect_of_compatible (hu : u.WellFormed) {s t : Slot} (hs : s ∈ u.slots)
    (ht : t ∈ u.slots) (hout : s.direction = .output) (hin : t.direction = .input)
    (hcompatible : s.compatible t = true) (hnone : ∀ link ∈ u.links, link.touches t.id = false)
    (uid : Option String) :
    u.connect s.id t.id uid = .ok (⟨u.nextId⟩, u.addLink ⟨s.id, t.id, adoptedType? s t⟩ uid) := by
  obtain ⟨b, hb, hsb⟩ := mem_slots.mp hs
  obtain ⟨c, hc, htc⟩ := mem_slots.mp ht
  have hplan := hu.connection_of_compatible hs ht hout hin hcompatible hnone
  exact connect_eq_ok.mpr ⟨⟨b, s⟩, ⟨c, t⟩, _,
    getOwnedSlot_eq_ok.mpr (hu.ownedSlot?_eq_some.mpr ⟨hb, hsb, rfl⟩),
    getOwnedSlot_eq_ok.mpr (hu.ownedSlot?_eq_some.mpr ⟨hc, htc, rfl⟩), hplan, rfl⟩

namespace Retraced

variable {links : List Link}

theorem slotUids (h : Retraced w u links) (huids : (w.slots.map Slot.uid).Nodup) :
    (u.slots.map Slot.uid).Nodup := by
  rwa [map_eq_of_map_eq (outline_slots h.tree) fun s _ t _ => Slot.uid_eq_of_outline]

/-- The slots of the other workflow are there, under other numbers. -/
theorem exists_slot (h : Retraced w u links) {s : Slot} (hs : s ∈ w.slots) :
    ∃ t ∈ u.slots, t.outline = s.outline := by
  have hmem : s.outline ∈ u.slots.map Slot.outline :=
    outline_slots h.tree ▸ List.mem_map_of_mem hs
  exact List.mem_map.mp hmem

/-- An input whose link has not had its turn has no link. -/
theorem not_touches (h : Retraced w u links) (hw : w.WellFormed)
    (huids : (w.slots.map Slot.uid).Nodup) (hlinks : links ⊆ w.links) {t t' : Slot}
    (ht : t ∈ w.slots) (ht' : t' ∈ u.slots) (hsame : t'.outline = t.outline)
    (hin : t'.direction = .input) (hfree : ∀ link ∈ links, link.target ≠ t.id) :
    ∀ link ∈ u.links, link.touches t'.id = false := by
  intro link' hl'
  obtain ⟨source', hs', hsid', hout'⟩ := h.wellFormed.links.source link' hl'
  obtain ⟨target', htt', htid', -⟩ := h.wellFormed.links.target link' hl'
  rw [Link.touches, Bool.or_eq_false_iff, decide_eq_false_iff_not, decide_eq_false_iff_not]
  constructor
  · -- the source of a link is an output
    intro hsource
    have hslot : source' = t' :=
      List.inj_on_of_nodup_map h.wellFormed.slotIds hs' ht' (hsid'.trans hsource)
    rw [hslot, hin] at hout'
    cases hout'
  · intro htarget
    have hslot : target' = t' :=
      List.inj_on_of_nodup_map h.wellFormed.slotIds htt' ht' (htid'.trans htarget)
    have hrecorded : u.linkData link' ∈ links.map w.linkData := h.links ▸ List.mem_map_of_mem hl'
    obtain ⟨link, hl, hrecord⟩ := List.mem_map.mp hrecorded
    obtain ⟨source, hs, hsid, -⟩ := hw.links.source link (hlinks hl)
    obtain ⟨target, htt, htid, -⟩ := hw.links.target link (hlinks hl)
    rw [hw.linkData_eq hs htt hsid htid, h.wellFormed.linkData_eq hs' htt' hsid' htid'] at hrecord
    injection hrecord with _ _ huid
    rw [hslot, Slot.uid_eq_of_outline hsame] at huid
    refine hfree link hl ?_
    rw [← htid, List.inj_on_of_nodup_map huids htt ht huid]

/-- Slots that agree with others do so under other numbers, too. -/
theorem agree {s t s' t' : Slot} (h : s.Agree t) (hs : s'.outline = s.outline)
    (ht : t'.outline = t.outline) : s'.Agree t' := by
  have hfields : ∀ {x y : Slot}, y.outline = x.outline → y.kind = x.kind ∧ y.type = x.type :=
    fun hxy => ⟨Slot.eq_of_outline hxy Slot.kind fun _ => rfl,
      Slot.eq_of_outline hxy Slot.type fun _ => rfl⟩
  exact h.congr (hfields hs) (hfields ht)

/-- A slot takes on no type but the one it has. -/
theorem adopt_eq_self (hu : u.WellFormed) {s t : Slot} (hs : s ∈ u.slots) (ht : t ∈ u.slots)
    (hagree : s.Agree t) (hinside : s.external = false ∨ t.external = false) :
    u.adopt (adoptedType? s t) = u := by
  unfold adoptedType?
  split
  · rename_i hadopts
    have htype : t.type = .unknown :=
      hagree.source hadopts.1 (hinside.resolve_left (by simp [hadopts.1])) hadopts.2
    refine modifySlot_eq_self fun slot hslot hid => ?_
    obtain rfl := List.inj_on_of_nodup_map hu.slotIds hslot hs hid
    rw [htype, ← hadopts.2]
  · split
    · rename_i hadopts
      have htype : s.type = .unknown :=
        hagree.target hadopts.1 (hinside.resolve_right (by simp [hadopts.1])) hadopts.2
      refine modifySlot_eq_self fun slot hslot hid => ?_
      obtain rfl := List.inj_on_of_nodup_map hu.slotIds hslot ht hid
      rw [htype, ← hadopts.2]
    · rfl

/-- The record of the next link makes that link. -/
theorem addRecordedLink {registry : Registry μ} (hw : w.Restorable registry)
    {before after : List Link} {link : Link} (hlinks : w.links = before ++ link :: after)
    (h : Retraced w u before) :
    Retraced w (u.addRecordedLink (w.linkData link)) (before ++ [link]) := by
  have hl : link ∈ w.links := hlinks ▸ List.mem_append_right _ List.mem_cons_self
  have hbefore : before ⊆ w.links := hlinks ▸ List.subset_append_left ..
  obtain ⟨s, hs, hsid, hout⟩ := hw.wellFormed.links.source link hl
  obtain ⟨t, ht, htid, hin⟩ := hw.wellFormed.links.target link hl
  obtain ⟨s', hs', hss'⟩ := h.exists_slot hs
  obtain ⟨t', ht', htt'⟩ := h.exists_slot ht
  have huids := h.slotUids hw.slotUids
  have hsUid : s'.uid = s.uid := Slot.uid_eq_of_outline hss'
  have htUid : t'.uid = t.uid := Slot.uid_eq_of_outline htt'
  have hout' : s'.direction = .output :=
    (Slot.eq_of_outline hss' Slot.direction fun _ => rfl).trans hout
  have hin' : t'.direction = .input :=
    (Slot.eq_of_outline htt' Slot.direction fun _ => rfl).trans hin
  have hagree : s'.Agree t' := agree (hw.wellFormed.types link hl s hs t ht hsid htid) hss' htt'
  have hfree : ∀ other ∈ before, other.target ≠ t.id := by
    have htargets := hw.wellFormed.links.targets
    rw [hlinks, List.map_append, List.map_cons, List.nodup_append] at htargets
    intro other ho heq
    exact htargets.2.2 _ (List.mem_map_of_mem ho) _ List.mem_cons_self (heq.trans htid)
  have hnone := h.not_touches hw.wellFormed hw.slotUids hbefore ht ht' htt' hin' hfree
  -- the request is granted
  have hinside : s'.external = false ∨ t'.external = false := by
    have hborder := hw.border link hl s hs t ht hsid htid
    rwa [← Slot.eq_of_outline hss' Slot.external fun _ => rfl,
      ← Slot.eq_of_outline htt' Slot.external fun _ => rfl] at hborder
  have hconnect := h.wellFormed.connect_of_compatible hs' ht' hout' hin'
    (compatible_of_agree hout' hin' hagree) hnone (some link.uid)
  have hadd : u.addRecordedLink (w.linkData link) =
      u.addLink ⟨s'.id, t'.id, adoptedType? s' t'⟩ (some link.uid) := by
    rw [hw.wellFormed.linkData_eq hs ht hsid htid, Workflow.addRecordedLink,
      (slotWithUid?_eq_some huids).mpr ⟨hs', hsUid⟩, (slotWithUid?_eq_some huids).mpr ⟨ht', htUid⟩]
    dsimp only
    rw [hconnect]
  have hnext := h.wellFormed.addRecordedLink (w.linkData link)
  rw [hadd] at hnext ⊢
  rw [addLink, adopt_eq_self h.wellFormed hs' ht' hagree hinside] at hnext ⊢
  refine ⟨hnext, h.name, h.tree, ?_⟩
  have hnew : u.linkData ⟨⟨u.nextId⟩, link.uid, s'.id, t'.id⟩ = w.linkData link := by
    rw [h.wellFormed.linkData_eq hs' ht' rfl rfl, hw.wellFormed.linkData_eq hs ht hsid htid, hsUid,
      htUid]
  rw [List.map_append, List.map_append, ← h.links, List.map_singleton, List.map_singleton, ← hnew]
  rfl

theorem addRecordedLinks {registry : Registry μ} (hw : w.Restorable registry)
    (after : List Link) : ∀ {before : List Link} {u : Workflow μ}, w.links = before ++ after →
      Retraced w u before →
      Retraced w ((after.map w.linkData).foldl Workflow.addRecordedLink u) w.links := by
  induction after with
  | nil =>
    intro before u hlinks h
    rw [hlinks, List.append_nil]
    exact h
  | cons link after ih =>
    intro before u hlinks h
    refine ih ?_ (h.addRecordedLink hw hlinks)
    rw [hlinks, List.append_assoc, List.singleton_append]

end Retraced

-- ---------------------------------------------------------------------------
-- All records
-- ---------------------------------------------------------------------------

/-- **A restorable workflow comes back.** From its records, read over the same classes, a workflow is
built that differs from it in nothing but numbers and identifiers. -/
theorem Restorable.ofRecords_records {registry : Registry μ} (h : w.Restorable registry)
    (uidStem : String) :
    ∃ w', ofRecords uidStem w.records registry = .ok w' ∧ w.Isomorphic w' := by
  have hroot : recordedRoot? w.records =
      some ⟨w.root.uid, (w.parent? w.root.id).map Block.uid, some w.root.name⟩ := by
    rw [records, Workflow.blocks, tree, Forest.toList_tree, List.map_cons, recordOfBlock, h.root]
    rfl
  have hdraft := h.drafted uidStem
  have hsketch := h.outlined hdraft
  have hstart := hsketch.unlinked
  have hretraced := Retraced.addRecordedLinks h w.links (List.nil_append _).symm
    ⟨hstart.wellFormed, hsketch.name, hsketch.tree, by rw [hstart.links, List.map_nil, List.map_nil]⟩
  refine ⟨_, ?_, Alike.isomorphic ⟨h.wellFormed, hretraced.wellFormed, h.uids, h.slotUids,
    hretraced.name, hretraced.tree, hretraced.links⟩⟩
  rw [ofRecords, hroot, ← recordedLinks_records]
  rfl

end SlotFlow.Workflow
