import Woodshed.Sample
import Woodshed.Trimming

/-! Histories of the manifest: which of the ops that are accepted keep a state well formed, and
what opening and reading can rely on behind them. -/
namespace Woodshed
open Sequencing Framing

/-- The states that the open path and the readers are written for. -/
structure WellFormed (s : StoreState) : Prop where
  nodup : (s.segments.map (·.id)).Nodup
  dead : ∀ id ∈ s.dead, s.lists id = false
  /-- No live segment is unsealed but the active one. -/
  unsealed : ∀ seg ∈ s.segments, s.sealInfo seg.id = none → s.activeSegmentId = some seg.id
  active : s.isEmpty = false → ∃ seg, s.activeSegment = some seg ∧ s.sealInfo seg.id = none

/-- When an op that is accepted in `s` keeps the state well formed and the head from going back. -/
def Op.Keeps (s : StoreState) : Op → Prop
  | .createSegment id firstEntry => id ∉ s.dead ∧ s.seals id = none ∧ s.firstEntry ≤ firstEntry
  | .rollSegment sealedId _ _ _ _ newId _ =>
    newId ≠ sealedId ∧ s.lists newId = false ∧ newId ∉ s.dead ∧ s.seals newId = none
  | .truncateStart _ drop =>
    (∀ id ∈ s.activeSegmentId, id ∉ drop) ∨ ∀ seg ∈ s.segments, seg.id ∈ drop
  | .truncateEnd newActiveId _ drop =>
    (newActiveId ∉ drop ∧ ∀ id ∈ s.activeSegmentId, id ∈ drop ∨ id = newActiveId) ∨
      ∀ seg ∈ s.segments, seg.id ∈ drop
  | .segmentDeleted _ => True
  | .recordOrphan id => s.lists id = false
  | .metadata => True

instance (s : StoreState) (op : Op) : Decidable (op.Keeps s) := by
  cases op <;> unfold Op.Keeps <;> infer_instance

/-! ### Well-formed states by their ids -/

theorem isEmpty_false_iff (s : StoreState) : s.isEmpty = false ↔ ∃ id, s.lists id = true := by
  rw [StoreState.isEmpty, List.isEmpty_eq_false_iff_exists_mem]
  constructor
  · rintro ⟨seg, hseg⟩
    exact ⟨seg.id, (lists_iff s seg.id).mpr ⟨seg, hseg, rfl⟩⟩
  · rintro ⟨id, hid⟩
    obtain ⟨seg, hseg, _⟩ := (lists_iff s id).mp hid
    exact ⟨seg, hseg⟩

/-- The active segment is the first one with the active id. -/
theorem activeSegment_id {s : StoreState} {seg : SegmentEntry} (h : s.activeSegment = some seg) :
    s.activeSegmentId = some seg.id := by
  unfold StoreState.activeSegment at h
  cases hid : s.activeSegmentId with
  | none => rw [hid] at h; cases h
  | some id =>
    rw [hid] at h
    have heq : seg.id = id := by simpa using List.find?_some h
    rw [heq]

theorem exists_active_iff (s : StoreState) :
    (∃ seg, s.activeSegment = some seg ∧ s.sealInfo seg.id = none) ↔
      ∃ id ∈ s.activeSegmentId, s.lists id = true ∧ s.seals id = none := by
  constructor
  · rintro ⟨seg, hseg, hs⟩
    exact ⟨seg.id, activeSegment_id hseg, lists_of_mem (activeSegment_mem hseg), hs⟩
  · rintro ⟨id, hid, hl, hs⟩
    have hsome : (s.segments.find? (·.id = id)).isSome = true := by
      rw [List.find?_isSome]
      obtain ⟨seg, hseg, heq⟩ := (lists_iff s id).mp hl
      exact ⟨seg, hseg, decide_eq_true heq⟩
    obtain ⟨seg, hseg⟩ := Option.isSome_iff_exists.mp hsome
    have heq : seg.id = id := by simpa using List.find?_some hseg
    refine ⟨seg, ?_, by rw [heq]; exact hs⟩
    rw [StoreState.activeSegment, Option.mem_def.mp hid]
    exact hseg

theorem wellFormed_iff (s : StoreState) :
    WellFormed s ↔ (s.segments.map (·.id)).Nodup ∧ (∀ id ∈ s.dead, s.lists id = false) ∧
      (∀ id, s.lists id = true → s.seals id = none → s.activeSegmentId = some id) ∧
      ((∃ id, s.lists id = true) →
        ∃ id ∈ s.activeSegmentId, s.lists id = true ∧ s.seals id = none) := by
  constructor
  · intro h
    refine ⟨h.nodup, h.dead, ?_, ?_⟩
    · intro id hl hs
      obtain ⟨seg, hseg, rfl⟩ := (lists_iff s id).mp hl
      exact h.unsealed seg hseg hs
    · intro hl
      exact (exists_active_iff s).mp (h.active ((isEmpty_false_iff s).mpr hl))
  · rintro ⟨hn, hd, hu, ha⟩
    refine ⟨hn, hd, ?_, ?_⟩
    · intro seg hseg hs
      exact hu seg.id (lists_of_mem hseg) hs
    · intro he
      exact (exists_active_iff s).mpr (ha ((isEmpty_false_iff s).mp he))

theorem WellFormed.empty : WellFormed StoreState.empty := by
  refine ⟨List.nodup_nil, ?_, ?_, ?_⟩
  · intro id hid
    cases Finset.notMem_empty id hid
  · intro seg hseg
    cases hseg
  · intro he
    cases he

/-! ### What each op does to a well-formed state -/

section
variable {s : StoreState}

theorem lists_snoc (segs : List SegmentEntry) (seg : SegmentEntry) (id : SegmentId) :
    (segs ++ [seg]).any (·.id = id) = true ↔ segs.any (·.id = id) = true ∨ seg.id = id := by
  simp

/-- Where nothing is live, a new active segment has to be one that is not dead or sealed. -/
theorem wellFormed_createSegment_iff (hempty : s.segments = []) (id : SegmentId)
    (first : EntryId) :
    WellFormed { s with firstEntry := first, segments := s.segments ++ [⟨id, first⟩],
                        activeSegmentId := some id } ↔ id ∉ s.dead ∧ s.seals id = none := by
  have hlists (other : SegmentId) : StoreState.lists { s with
      firstEntry := first, segments := s.segments ++ [⟨id, first⟩],
      activeSegmentId := some id } other = true ↔ id = other := by
    simp [StoreState.lists, hempty]
  rw [wellFormed_iff]
  simp only [hlists]
  constructor
  · rintro ⟨_, hd, _, ha⟩
    obtain ⟨other, _, rfl, hs⟩ := ha ⟨id, rfl⟩
    refine ⟨fun hid => ?_, hs⟩
    have hno := hd id hid
    rw [(hlists id).mpr rfl] at hno
    cases hno
  · rintro ⟨hd, hs⟩
    refine ⟨by simp [hempty], ?_, ?_, ?_⟩
    · intro other hother
      rw [Bool.eq_false_iff, ne_eq, hlists]
      rintro rfl
      exact hd hother
    · rintro other rfl _
      rfl
    · intro _
      exact ⟨id, rfl, rfl, hs⟩

/-- The new segment has to be one that is not live, dead or sealed. -/
theorem WellFormed.rollSegment_iff (h : WellFormed s) {sealedId : SegmentId}
    (hactive : s.activeSegmentId = some sealedId) (info : SealInfo) (newId : SegmentId)
    (newFirst : EntryId) :
    WellFormed { s with seals := Function.update s.seals sealedId (some info)
                        segments := s.segments ++ [⟨newId, newFirst⟩]
                        activeSegmentId := some newId } ↔
      newId ≠ sealedId ∧ s.lists newId = false ∧ newId ∉ s.dead ∧ s.seals newId = none := by
  obtain ⟨hn, hd, hu, _⟩ := (wellFormed_iff s).mp h
  have hlists (other : SegmentId) : StoreState.lists { s with
      seals := Function.update s.seals sealedId (some info)
      segments := s.segments ++ [⟨newId, newFirst⟩]
      activeSegmentId := some newId } other = true ↔ s.lists other = true ∨ newId = other :=
    lists_snoc s.segments ⟨newId, newFirst⟩ other
  rw [wellFormed_iff]
  simp only [hlists]
  constructor
  · rintro ⟨hn', hd', _, ha'⟩
    obtain ⟨other, hother, _, hs⟩ := ha' ⟨newId, Or.inr rfl⟩
    obtain rfl : newId = other := Option.some.inj hother
    have hne : newId ≠ sealedId := by
      rintro rfl
      rw [Function.update_self] at hs
      cases hs
    rw [Function.update_of_ne hne] at hs
    refine ⟨hne, ?_, ?_, hs⟩
    · rw [Bool.eq_false_iff]
      intro hl
      obtain ⟨seg, hseg, heq⟩ := (lists_iff s newId).mp hl
      rw [List.map_append, List.nodup_append] at hn'
      exact hn'.2.2 seg.id (List.mem_map_of_mem hseg) newId (by simp) heq
    · intro hid
      have hno := hd' newId hid
      rw [(hlists newId).mpr (Or.inr rfl)] at hno
      cases hno
  · rintro ⟨hne, hl, hdead, hs⟩
    refine ⟨?_, ?_, ?_, ?_⟩
    · rw [List.map_append, List.nodup_append]
      refine ⟨hn, by simp, ?_⟩
      intro a ha b hb heq
      obtain ⟨seg, hseg, rfl⟩ := List.mem_map.mp ha
      obtain rfl : b = newId := by simpa using hb
      rw [← heq, lists_of_mem hseg] at hl
      cases hl
    · intro other hother
      rw [Bool.eq_false_iff, ne_eq, hlists]
      rintro (hlo | rfl)
      · rw [hd other hother] at hlo
        cases hlo
      · exact hdead hother
    · intro other hlo hso
      by_cases heq : other = sealedId
      · rw [heq, Function.update_self] at hso
        cases hso
      · rw [Function.update_of_ne heq] at hso
        rcases hlo with hlo | rfl
        · -- the only unsealed one was the one that is sealed now
          have hact := hu other hlo hso
          rw [hactive] at hact
          exact absurd (Option.some.inj hact).symm heq
        · rfl
    · intro _
      exact ⟨newId, rfl, Or.inr rfl, by rw [Function.update_of_ne hne]; exact hs⟩

/-- The active segment may be dropped only if all are. -/
theorem WellFormed.killed_iff (h : WellFormed s) (drop : List SegmentId) :
    WellFormed (killed s drop) ↔
      (∀ id ∈ s.activeSegmentId, id ∉ drop) ∨ ∀ seg ∈ s.segments, seg.id ∈ drop := by
  obtain ⟨hn, hd, hu, ha⟩ := (wellFormed_iff s).mp h
  have hseals (id : SegmentId) :
      (killed s drop).seals id = if id ∈ drop then none else s.seals id := rfl
  rw [wellFormed_iff]
  simp only [lists_killed]
  constructor
  · rintro ⟨_, _, _, ha'⟩
    by_cases hall : ∀ seg ∈ s.segments, seg.id ∈ drop
    · exact Or.inr hall
    · obtain ⟨seg, hseg, hnot⟩ : ∃ seg ∈ s.segments, seg.id ∉ drop := by
        push Not at hall
        exact hall
      obtain ⟨id, hid, ⟨_, hidd⟩, _⟩ := ha' ⟨seg.id, lists_of_mem hseg, hnot⟩
      refine Or.inl fun other hother => ?_
      have heq : other = id := Option.mem_unique hother hid
      rw [heq]
      exact hidd
  · intro hcond
    refine ⟨hn.sublist (List.filter_sublist.map _), ?_, ?_, ?_⟩
    · intro id hid
      rw [Bool.eq_false_iff, ne_eq, lists_killed]
      rintro ⟨hl, hnot⟩
      rcases Finset.mem_union.mp hid with hid | hid
      · exact hnot (List.mem_toFinset.mp hid)
      · rw [hd id hid] at hl
        cases hl
    · rintro id ⟨hl, hnot⟩ hs
      rw [hseals, if_neg hnot] at hs
      exact hu id hl hs
    · rintro ⟨other, hlo, hnot⟩
      obtain ⟨id, hid, hl, hs⟩ := ha ⟨other, hlo⟩
      rcases hcond with hkeep | hall
      · have hidd := hkeep id hid
        exact ⟨id, hid, ⟨hl, hidd⟩, by rw [hseals, if_neg hidd]; exact hs⟩
      · obtain ⟨seg, hseg, rfl⟩ := (lists_iff s other).mp hlo
        exact absurd (hall seg hseg) hnot

/-- The new active segment has to stay, and the old one has to go, unless all do. -/
theorem WellFormed.truncateEnd_iff (h : WellFormed s) {newActive : SegmentId}
    (hnew : s.lists newActive = true) (drop : List SegmentId) :
    WellFormed { killed s drop with
        seals := Function.update (killed s drop).seals newActive none
        activeSegmentId := some newActive } ↔
      (newActive ∉ drop ∧ ∀ id ∈ s.activeSegmentId, id ∈ drop ∨ id = newActive) ∨
        ∀ seg ∈ s.segments, seg.id ∈ drop := by
  obtain ⟨hn, hd, hu, ha⟩ := (wellFormed_iff s).mp h
  have hlists (id : SegmentId) : StoreState.lists { killed s drop with
      seals := Function.update (killed s drop).seals newActive none
      activeSegmentId := some newActive } id = true ↔ s.lists id = true ∧ id ∉ drop :=
    lists_killed s drop id
  have hseals (id : SegmentId) (hne : id ≠ newActive) (hnot : id ∉ drop) :
      Function.update (killed s drop).seals newActive none id = s.seals id := by
    rw [Function.update_of_ne hne]
    exact if_neg hnot
  rw [wellFormed_iff]
  simp only [hlists]
  constructor
  · rintro ⟨_, _, hu', ha'⟩
    by_cases hall : ∀ seg ∈ s.segments, seg.id ∈ drop
    · exact Or.inr hall
    · obtain ⟨seg, hseg, hnot⟩ : ∃ seg ∈ s.segments, seg.id ∉ drop := by
        push Not at hall
        exact hall
      obtain ⟨id, hid, ⟨_, hidd⟩, _⟩ := ha' ⟨seg.id, lists_of_mem hseg, hnot⟩
      obtain rfl : newActive = id := Option.some.inj hid
      refine Or.inl ⟨hidd, fun other hother => ?_⟩
      by_contra hcon
      push Not at hcon
      -- the old active segment is still there, and unsealed
      obtain ⟨old, hold, hlo, hso⟩ := ha ⟨newActive, hnew⟩
      obtain rfl : other = old := Option.mem_unique hother hold
      have heq := hu' other ⟨hlo, hcon.1⟩ (by rw [hseals other hcon.2 hcon.1]; exact hso)
      exact hcon.2 (Option.some.inj heq).symm
  · intro hcond
    refine ⟨hn.sublist (List.filter_sublist.map _), ?_, ?_, ?_⟩
    · intro id hid
      rw [Bool.eq_false_iff, ne_eq, hlists]
      rintro ⟨hl, hnot⟩
      rcases Finset.mem_union.mp hid with hid | hid
      · exact hnot (List.mem_toFinset.mp hid)
      · rw [hd id hid] at hl
        cases hl
    · rintro id ⟨hl, hnot⟩ hs
      rcases hcond with ⟨_, hold⟩ | hall
      · by_cases hne : id = newActive
        · rw [hne]
        · rw [hseals id hne hnot] at hs
          rcases hold id (hu id hl hs) with hin | heq
          · exact absurd hin hnot
          · exact absurd heq hne
      · obtain ⟨seg, hseg, rfl⟩ := (lists_iff s id).mp hl
        exact absurd (hall seg hseg) hnot
    · rintro ⟨other, hlo, hnot⟩
      rcases hcond with ⟨hstay, _⟩ | hall
      · exact ⟨newActive, rfl, ⟨hnew, hstay⟩, Function.update_self _ _ _⟩
      · obtain ⟨seg, hseg, rfl⟩ := (lists_iff s other).mp hlo
        exact absurd (hall seg hseg) hnot

/-- Fewer dead segments, or more that are not live. -/
theorem WellFormed.dead_iff (h : WellFormed s) (dead : Finset SegmentId) :
    WellFormed { s with dead := dead } ↔ ∀ id ∈ dead, s.lists id = false := by
  rw [wellFormed_iff] at h ⊢
  exact ⟨fun h' => h'.2.1, fun hd => ⟨h.1, hd, h.2.2⟩⟩

end

/-! ### Histories -/

theorem apply_eq_ok {entry : ManifestOp} {s s' : StoreState}
    (h : StoreState.apply entry s = .ok ⟨⟩ s') :
    ∃ t, StoreState.applyOp entry.op s = .ok ⟨⟩ t ∧
      s' = { t with metaPairs := entry.metaPairs.foldl StoreState.setMeta t.metaPairs } := by
  obtain ⟨u, t, hop, h⟩ := bind_eq_ok h
  cases h
  exact ⟨t, hop, rfl⟩

/-- One op: accepted, it keeps a well-formed state well formed and the head from going back exactly
if it is as `Op.Keeps` has it. -/
theorem WellFormed.applyOp_iff {s s' : StoreState} (h : WellFormed s) (op : Op)
    (ha : StoreState.applyOp op s = .ok ⟨⟩ s') :
    WellFormed s' ∧ s.firstEntry ≤ s'.firstEntry ↔ op.Keeps s := by
  cases op with
  | createSegment id first =>
    rw [StoreState.applyOp, StoreState.createSegment, get_bind] at ha
    by_cases hempty : s.isEmpty = false
    · rw [if_pos hempty] at ha
      cases ha
    · rw [if_neg hempty] at ha
      cases ha
      have hnil : s.segments = [] := by simpa [StoreState.isEmpty] using hempty
      rw [wellFormed_createSegment_iff hnil, Op.Keeps, and_assoc]
  | rollSegment sealedId first last count size newId newFirst =>
    rw [StoreState.applyOp, StoreState.rollSegment, get_bind] at ha
    by_cases hne : s.activeSegmentId ≠ some sealedId
    · rw [if_pos hne] at ha
      cases ha
    · rw [if_neg hne] at ha
      cases ha
      rw [h.rollSegment_iff (not_not.mp hne), Op.Keeps]
      exact and_iff_left le_rfl
  | truncateStart first drop =>
    rw [StoreState.applyOp, StoreState.truncateStart, get_bind] at ha
    by_cases hlt : first < s.firstEntry
    · rw [if_pos hlt] at ha
      cases ha
    · rw [if_neg hlt, modify_apply, foldl_killSegment] at ha
      cases ha
      have hsame : WellFormed { killed s drop with firstEntry := first } ↔
          WellFormed (killed s drop) := by
        rw [wellFormed_iff, wellFormed_iff]
        rfl
      rw [hsame, h.killed_iff, Op.Keeps]
      exact and_iff_left (not_lt.mp hlt)
  | truncateEnd newActiveId offset drop =>
    rw [StoreState.applyOp, StoreState.truncateEnd, get_bind] at ha
    cases hf : drop.find? (fun id => s.lists id = false) with
    | some id => rw [hf] at ha; cases ha
    | none =>
      rw [hf] at ha
      dsimp only at ha
      by_cases hl : s.lists newActiveId = false
      · rw [if_pos hl] at ha
        cases ha
      · rw [if_neg hl, modify_apply] at ha
        simp only [foldl_killSegment] at ha
        cases ha
        rw [h.truncateEnd_iff (by simpa using hl), Op.Keeps]
        exact and_iff_left le_rfl
  | segmentDeleted id =>
    rw [StoreState.applyOp, StoreState.segmentDeleted, get_bind] at ha
    by_cases hd : id ∈ s.dead
    · rw [if_pos hd] at ha
      cases ha
      have hdead : ∀ other ∈ s.dead.erase id, s.lists other = false := fun other hother =>
        h.dead other (Finset.mem_of_mem_erase hother)
      exact iff_of_true ⟨(h.dead_iff _).mpr hdead, le_rfl⟩ trivial
    · rw [if_neg hd] at ha
      cases ha
  | recordOrphan id =>
    cases ha
    rw [h.dead_iff, Op.Keeps]
    constructor
    · rintro ⟨hd, _⟩
      exact hd id (Finset.mem_insert_self _ _)
    · intro hl
      refine ⟨fun other hother => ?_, le_rfl⟩
      rcases Finset.mem_insert.mp hother with rfl | hother
      · exact hl
      · exact h.dead other hother
  | metadata =>
    cases ha
    exact iff_of_true ⟨h, le_rfl⟩ trivial

theorem WellFormed.apply_iff {s s' : StoreState} (h : WellFormed s) (entry : ManifestOp)
    (ha : StoreState.apply entry s = .ok ⟨⟩ s') :
    WellFormed s' ∧ s.firstEntry ≤ s'.firstEntry ↔ entry.op.Keeps s := by
  obtain ⟨t, hop, rfl⟩ := apply_eq_ok ha
  have hsame : WellFormed { t with
      metaPairs := entry.metaPairs.foldl StoreState.setMeta t.metaPairs } ↔ WellFormed t := by
    rw [wellFormed_iff, wellFormed_iff]
    rfl
  rw [hsame]
  exact h.applyOp_iff entry.op hop

/-- The ops are accepted one after the other, and every step is as `R` has it: the state before, the
op and the state behind. -/
def Along (R : StoreState → ManifestOp → StoreState → Prop) : StoreState → List ManifestOp → Prop
  | _, [] => True
  | s, op :: ops =>
    match StoreState.apply op s with
    | .ok _ s' => R s op s' ∧ Along R s' ops
    | .error _ _ => False

instance Along.decidable {R : StoreState → ManifestOp → StoreState → Prop}
    [∀ s op s', Decidable (R s op s')] :
    (s : StoreState) → (ops : List ManifestOp) → Decidable (Along R s ops)
  | _, [] => isTrue trivial
  | s, op :: ops =>
    match ha : StoreState.apply op s with
    | .ok _ s' =>
      have := Along.decidable (R := R) s' ops
      decidable_of_iff (R s op s' ∧ Along R s' ops) (by rw [Along, ha])
    | .error _ _ => isFalse (by rw [Along, ha]; exact not_false)

/-- The ops are accepted one after the other. -/
def Accepted : StoreState → List ManifestOp → Prop := Along fun _ _ _ => True

/-- Every state on the way is well formed, and the head never goes back. -/
def Orderly : StoreState → List ManifestOp → Prop :=
  Along fun s _ s' => WellFormed s' ∧ s.firstEntry ≤ s'.firstEntry

/-- Every op is one that keeps the state it comes to well formed. -/
def Keeping : StoreState → List ManifestOp → Prop := Along fun s op _ => op.op.Keeps s

instance (s : StoreState) (ops : List ManifestOp) : Decidable (Accepted s ops) :=
  Along.decidable s ops

instance (s : StoreState) (ops : List ManifestOp) : Decidable (Keeping s ops) :=
  Along.decidable s ops

theorem along_cons {R : StoreState → ManifestOp → StoreState → Prop} {s : StoreState}
    {op : ManifestOp} {ops : List ManifestOp} :
    Along R s (op :: ops) ↔ ∃ s', StoreState.apply op s = .ok ⟨⟩ s' ∧ R s op s' ∧ Along R s' ops := by
  rw [Along]
  cases ha : StoreState.apply op s with
  | ok u s' => simp
  | error e s' => simp

/-- A history stays well formed exactly if all its ops keep it so. -/
theorem WellFormed.orderlyFrom_iff {s : StoreState} (h : WellFormed s) (ops : List ManifestOp)
    (ha : Accepted s ops) : Orderly s ops ↔ Keeping s ops := by
  induction ops generalizing s with
  | nil => exact Iff.rfl
  | cons op ops ih =>
    obtain ⟨s', happ, _, ha'⟩ := along_cons.mp ha
    have hstep := h.apply_iff op happ
    constructor
    · intro ho
      obtain ⟨t, ht, hgood, hrest⟩ := along_cons.mp ho
      rw [happ] at ht
      cases ht
      exact along_cons.mpr ⟨s', happ, hstep.mp hgood, (ih hgood.1 ha').mp hrest⟩
    · intro hk
      obtain ⟨t, ht, hkeeps, hrest⟩ := along_cons.mp hk
      rw [happ] at ht
      cases ht
      have hgood := hstep.mpr hkeeps
      exact along_cons.mpr ⟨s', happ, hgood, (ih hgood.1 ha').mpr hrest⟩

/-! ### From one live segment to the next -/

/-- Where a segment stands. -/
def placeOf (segs : List SegmentEntry) (id : SegmentId) : Option ℕ := segs.findIdx? (·.id = id)

/-- The segments a reader comes through from `id` on, in at most `n` rounds. -/
def visited (segs : List SegmentEntry) : ℕ → SegmentId → List SegmentId
  | 0, _ => []
  | n+1, id => id :: match nextSegment segs id with
    | none => []
    | some next => visited segs n next

theorem placeOf_get {segs : List SegmentEntry} (h : (segs.map (·.id)).Nodup) {i : ℕ}
    {seg : SegmentEntry} (hi : segs[i]? = some seg) : placeOf segs seg.id = some i := by
  obtain ⟨hlt, rfl⟩ := List.getElem?_eq_some_iff.mp hi
  rw [placeOf, List.findIdx?_eq_some_iff_getElem]
  refine ⟨hlt, by simp, ?_⟩
  intro j hj heq
  have hlt' : j < segs.length := hj.trans hlt
  have hids : (segs.map (·.id)).get ⟨j, by simpa using hlt'⟩ =
      (segs.map (·.id)).get ⟨i, by simpa using hlt⟩ := by
    simpa using heq
  exact hj.ne (congrArg Fin.val (List.nodup_iff_injective_get.mp h hids))

/-- The next segment stands one place further on. -/
theorem placeOf_nextSegment {segs : List SegmentEntry} (h : (segs.map (·.id)).Nodup)
    {id next : SegmentId} (hn : nextSegment segs id = some next) :
    ∃ i, placeOf segs id = some i ∧ placeOf segs next = some (i+1) := by
  unfold nextSegment at hn
  cases hi : segs.findIdx? (·.id = id) with
  | none => rw [hi] at hn; cases hn
  | some i =>
    rw [hi] at hn
    cases hs : segs[i+1]? with
    | none =>
      simp only [Option.bind_eq_bind, Option.bind_some, hs, Option.bind_none] at hn
      cases hn
    | some seg =>
      simp only [Option.bind_eq_bind, Option.bind_some, hs] at hn
      cases hn
      exact ⟨i, hi, placeOf_get h hs⟩

theorem visited_later {segs : List SegmentEntry} (h : (segs.map (·.id)).Nodup) (n : ℕ)
    (id : SegmentId) : ∀ other ∈ (visited segs n id).tail,
      ∃ i j, placeOf segs id = some i ∧ placeOf segs other = some j ∧ i < j := by
  induction n generalizing id with
  | zero =>
    intro other hother
    cases hother
  | succ n ih =>
    intro other hother
    rw [visited, List.tail_cons] at hother
    cases hn : nextSegment segs id with
    | none => rw [hn] at hother; cases hother
    | some next =>
      rw [hn] at hother
      obtain ⟨i, hi, hnext⟩ := placeOf_nextSegment h hn
      cases n with
      | zero => cases hother
      | succ n =>
        dsimp only at hother
        rcases List.mem_cons.mp hother with rfl | hlater
        · exact ⟨i, i+1, hi, hnext, Nat.lt_succ_self i⟩
        · obtain ⟨k, j, hk, hj, hkj⟩ := ih next other hlater
          rw [hnext] at hk
          obtain rfl : i+1 = k := Option.some.inj hk
          exact ⟨i, j, hi, hj, by omega⟩

/-- No segment is visited twice. -/
theorem nodup_visited {segs : List SegmentEntry} (h : (segs.map (·.id)).Nodup) (n : ℕ)
    (id : SegmentId) : (visited segs n id).Nodup := by
  induction n generalizing id with
  | zero => exact List.nodup_nil
  | succ n ih =>
    rw [visited, List.nodup_cons]
    constructor
    · intro hin
      obtain ⟨i, j, hi, hj, hij⟩ := visited_later h (n+1) id id hin
      rw [hi] at hj
      cases hj
      exact lt_irrefl _ hij
    · cases hn : nextSegment segs id with
      | none => exact List.nodup_nil
      | some next => exact ih next

section
variable [Crates]

omit [Crates] in
/-- What comes of the loop of `next`: a reader at one of the segments visited, or as many segments
visited as there are rounds. -/
theorem StoreReader.nextLoop_visits (segs : List SegmentEntry) (rounds : ℕ) (r : StoreReader)
    (m : Machine) (hm : m.store.state.segments = segs) :
    match StoreReader.nextLoop rounds r m with
    | .ok (_, r') _ => ∀ id' s', r'.scanner = some (id', s') →
        ∃ id s, r.scanner = some (id, s) ∧ id' ∈ visited segs rounds id
    | .error _ _ => rounds = 0 ∨ ∃ id s, r.scanner = some (id, s) ∧
        (visited segs rounds id).length = rounds ∧
          ∀ other ∈ visited segs rounds id, other ∈ segs.map (·.id) := by
  induction rounds generalizing r m with
  | zero => exact Or.inl rfl
  | succ rounds ih =>
    rw [StoreReader.nextLoop]
    cases hr : r.scanner with
    | none =>
      intro id' s' h
      cases h
    | some p =>
      obtain ⟨current, s⟩ := p
      have hhere : current ∈ visited segs (rounds+1) current := by simp [visited]
      dsimp only
      cases hread : FrameScanner.read s with
      | error e s' =>
        intro id' t h
        cases h
        exact ⟨current, s, rfl, hhere⟩
      | ok x s' =>
        cases x with
        | some reader =>
          intro id' t h
          cases h
          exact ⟨current, s, rfl, hhere⟩
        | none =>
          -- the end of the segment: on to the next one, if there is one
          dsimp only
          rw [get_bind, hm]
          cases hn : nextSegment segs current with
          | none =>
            intro id' t h
            cases h
          | some next =>
            have hvisit : visited segs (rounds+1) current = current :: visited segs rounds next := by
              rw [visited, hn]
            have hlive : current ∈ segs.map (·.id) := by
              cases hi : segs.findIdx? (·.id = current) with
              | none =>
                unfold nextSegment at hn
                rw [hi] at hn
                cases hn
              | some i =>
                obtain ⟨hlt, hid, _⟩ := List.findIdx?_eq_some_iff_getElem.mp hi
                exact List.mem_map.mpr ⟨segs[i], List.getElem_mem hlt, of_decide_eq_true hid⟩
            dsimp only
            cases hopen : openSegment next m.world with
            | error e w =>
              rw [bind_ok (fs_ok (attempt_error hopen))]
              intro id' t h
              cases h
            | ok p w =>
              obtain ⟨file, offset⟩ := p
              rw [bind_ok (fs_ok (attempt_ok hopen))]
              dsimp only
              have hrest := ih ⟨some (next, FrameScanner.new file magicLen)⟩ ⟨m.store, w⟩ hm
              split at hrest
              · intro id' t h
                obtain ⟨id, u, hid, hin⟩ := hrest id' t h
                cases hid
                exact ⟨current, s, rfl, by rw [hvisit]; exact List.mem_cons_of_mem _ hin⟩
              · right
                refine ⟨current, s, rfl, ?_⟩
                rw [hvisit]
                rcases hrest with rfl | ⟨id, u, hid, hlen, hall⟩
                · exact ⟨rfl, by simpa [visited] using hlive⟩
                · cases hid
                  refine ⟨by rw [List.length_cons, hlen], ?_⟩
                  intro other hother
                  rcases List.mem_cons.mp hother with rfl | hother
                  · exact hlive
                  · exact hall other hother

omit [Crates] in
/-- Where the ids are distinct, `next` returns, and goes to later segments only. -/
theorem StoreReader.next_visits {m : Machine} (h : (m.store.state.segments.map (·.id)).Nodup)
    (r : StoreReader) :
    ∃ x r' m', r.next m = .ok (x, r') m' ∧ ∀ id' s', r'.scanner = some (id', s') →
      ∃ id s, r.scanner = some (id, s) ∧
        id' ∈ visited m.store.state.segments (m.store.state.segments.length+1) id := by
  have hloop := StoreReader.nextLoop_visits m.store.state.segments
    (m.store.state.segments.length+1) r m rfl
  unfold StoreReader.next
  rw [get_bind]
  split at hloop <;> rename_i heq
  · rw [heq]
    exact ⟨_, _, _, rfl, hloop⟩
  · -- more segments than there are would have been visited
    rcases hloop with h0 | ⟨id, s, _, hlen, hall⟩
    · cases h0
    · have hle := ((nodup_visited h _ id).subperm hall).length_le
      rw [hlen, List.length_map] at hle
      omega

/-! ### Opening -/

/-- The ops of a manifest. -/
def recordedOps (d : Dir) : List ManifestOp :=
  (frames.decode (((d.bytes manifestFileName).getD []).drop magicLen)).items.filterMap
    fun e => (ManifestOp.decode e.2).toOption

/-- What replays without error is a list of ops that are accepted one after the other. -/
theorem replayEntries_along {es : List Entry} {s st : StoreState} {p : ℕ}
    (h : replayEntries s p es = .ok st) :
    Accepted s (es.filterMap fun e => (ManifestOp.decode e.2).toOption) ∧
      (WellFormed s → Orderly s (es.filterMap fun e => (ManifestOp.decode e.2).toOption) →
        WellFormed st) := by
  induction es generalizing s p with
  | nil =>
    cases h
    exact ⟨trivial, fun hs _ => hs⟩
  | cons e es ih =>
    rw [replayEntries] at h
    cases hd : ManifestOp.decode e.2 with
    | error source => rw [hd] at h; cases h
    | ok op =>
      rw [hd] at h
      dsimp only at h
      cases ha : StoreState.apply op s with
      | error source t => rw [ha] at h; cases h
      | ok u t =>
        rw [ha] at h
        obtain ⟨hacc, hord⟩ := ih h
        have hops : (e :: es).filterMap (fun e => (ManifestOp.decode e.2).toOption) =
            op :: es.filterMap (fun e => (ManifestOp.decode e.2).toOption) := by
          rw [List.filterMap_cons, hd]
          rfl
        rw [hops]
        refine ⟨along_cons.mpr ⟨t, ha, trivial, hacc⟩, fun _ ho => ?_⟩
        obtain ⟨t', ht', hgood, hrest⟩ := along_cons.mp ho
        rw [ha] at ht'
        cases ht'
        exact hord hgood.1 hrest

/-- A scan without issues has replayed all ops, and has a report on every live segment. -/
theorem survey_intact {d : Dir} (h : (survey d).issues = []) :
    ∃ xs, d.bytes manifestFileName = some (manifestMagic ++ xs) ∧
      replayEntries StoreState.empty magicLen (frames.decode xs).items = .ok (survey d).state ∧
      (survey d).state.isEmpty = false ∧
      (survey d).segments = (surveySegments d (survey d).state).map (·.1) := by
  unfold survey at h ⊢
  by_cases hp : d.present = false
  · rw [if_pos hp] at h
    cases h
  · rw [if_neg hp] at h ⊢
    cases hb : d.bytes manifestFileName with
    | none => rw [hb] at h; cases h
    | some bytes =>
      rw [hb] at h
      dsimp only at h ⊢
      cases hx : behindMagic manifestMagic bytes with
      | none => rw [hx] at h; cases h
      | some xs =>
        rw [hx] at h
        dsimp only at h ⊢
        unfold surveyManifest at h ⊢
        dsimp only at h ⊢
        by_cases hc : (frames.decode xs).stop = .corrupt
        · rw [if_pos hc] at h
          cases h
        · rw [if_neg hc] at h ⊢
          unfold surveyReplay at h ⊢
          dsimp only at h ⊢
          cases hr : replayEntries StoreState.empty magicLen (frames.decode xs).items with
          | error e =>
            rw [hr] at h
            cases e <;> simp [emptyReport] at h
          | ok st =>
            rw [hr] at h
            dsimp only at h ⊢
            by_cases hs : (frames.decode xs).rest.length < headerLen
            · rw [if_pos hs] at h ⊢
              dsimp only at h ⊢
              by_cases he : st.isEmpty = true
              · rw [if_pos he] at h
                simp [emptyReport] at h
              · rw [if_neg he]
                exact ⟨xs, by rw [behindMagic_eq_some hx], hr, Bool.eq_false_iff.mpr he, rfl⟩
            · rw [if_neg hs] at h
              simp [emptyReport] at h

theorem survey_find {d : Dir} (h : (survey d).issues = []) {seg : SegmentEntry}
    (hseg : seg ∈ (survey d).state.segments) :
    ∃ report, (survey d).segments.find? (·.id = seg.id) = some report := by
  obtain ⟨_, _, _, _, hreports⟩ := survey_intact h
  rw [← Option.isSome_iff_exists, List.find?_isSome, hreports]
  exact ⟨_, List.mem_map_of_mem (List.mem_map.mpr ⟨seg, hseg, rfl⟩),
    decide_eq_true (surveySegment_id d seg.id _)⟩

/-- A manifest whose history is orderly, and that is scanned without issue, can be opened. -/
theorem fromScanReport_orderly {d : Dir} (ho : Orderly StoreState.empty (recordedOps d))
    (hi : (survey d).issues = []) :
    WellFormed (survey d).state ∧
      ∀ cfg, ∃ s, fromScanReport cfg (survey d) (calm d) = .ok s (calm d) := by
  obtain ⟨xs, hm, hreplay, hne, _⟩ := survey_intact hi
  have hops : recordedOps d =
      (frames.decode xs).items.filterMap fun e => (ManifestOp.decode e.2).toOption := by
    rw [recordedOps, hm]
    rfl
  rw [hops] at ho
  have hwf := (replayEntries_along hreplay).2 WellFormed.empty ho
  refine ⟨hwf, fun cfg => ?_⟩
  obtain ⟨active, hactive, _⟩ := hwf.active hne
  obtain ⟨activeReport, hfind⟩ := survey_find hi (activeSegment_mem hactive)
  exact ⟨_, fromScanReport_ok cfg hi hactive hfind hm⟩

/-- A history stays orderly exactly if each of its ops keeps the state it comes to well formed; the
store of such a history can be opened, and read from segment to segment without coming back. -/
theorem Accepted.orderly_iff (ops : List ManifestOp) (h : Accepted StoreState.empty ops) :
    (Orderly StoreState.empty ops ↔ Keeping StoreState.empty ops) ∧
      (Keeping StoreState.empty ops → ∀ (d : Dir) (report : ScanReport), recordedOps d = ops →
        scan (calm d) = .ok report (calm d) → report.issues = [] →
        (∀ cfg, ∃ s, fromScanReport cfg report (calm d) = .ok s (calm d)) ∧
        (∀ n id, (visited report.state.segments n id).Nodup) ∧
        ∀ (m : Machine) (r : StoreReader), m.store.state = report.state →
          ∃ x r' m', r.next m = .ok (x, r') m' ∧ ∀ id' s', r'.scanner = some (id', s') →
            ∃ id s, r.scanner = some (id, s) ∧
              id' ∈ visited report.state.segments (report.state.segments.length+1) id) := by
  have hiff := WellFormed.empty.orderlyFrom_iff ops h
  refine ⟨hiff, fun hk d report hops hscan hissues => ?_⟩
  rw [scan_calm] at hscan
  obtain rfl : survey d = report := by
    cases hscan
    rfl
  have ho := hiff.mpr hk
  rw [← hops] at ho
  obtain ⟨hwf, hopen⟩ := fromScanReport_orderly ho hissues
  refine ⟨hopen, nodup_visited hwf.nodup, fun m r hm => ?_⟩
  rw [← hm]
  exact StoreReader.next_visits (by rw [hm]; exact hwf.nodup) r

end

section
attribute [local instance] sample

/-- A roll from the first segment to the second. -/
def rolledOps : List ManifestOp :=
  [creation, ManifestOp.bare (.rollSegment ⟨1⟩ ⟨0⟩ ⟨0⟩ 0 8 ⟨2⟩ ⟨5⟩)]

theorem Accepted.orderly_rolled : Orderly StoreState.empty rolledOps :=
  (Accepted.orderly_iff rolledOps (by decide)).1.mpr (by decide)

/-- The active segment is dropped, and the sealed one kept. -/
def strayOps : List ManifestOp := rolledOps ++ [ManifestOp.bare (.truncateStart ⟨5⟩ [⟨2⟩])]

/-- A directory with both segment files. -/
def strayDir : Dir :=
  let d := ((⟨true, ∅⟩ : Dir).create (segmentPath ⟨1⟩) segmentMagic).create (segmentPath ⟨2⟩)
    segmentMagic
  d.create manifestFileName (manifestMagic ++ frames.encodeAll (strayOps.map opFrame))

/-- Whether a store built from what a scan reports, without issues, panics. -/
def panicsOnScan (d : Dir) : Bool :=
  match scan (calm d) with
  | .ok report w => decide (report.issues = []) && match fromScanReport ⟨0⟩ report w with
    | .error (.panic _) _ => true
    | _ => false
  | .error _ _ => false

/-- A history can leave the state without an active segment, and then the open panics. -/
theorem Accepted.not_orderly : (¬ ∀ ops, Accepted StoreState.empty ops →
    Orderly StoreState.empty ops) ∧ panicsOnScan strayDir = true := by
  refine ⟨fun hall => ?_, by decide +kernel⟩
  have hacc : Accepted StoreState.empty strayOps := by decide
  have hkeeping := (WellFormed.empty.orderlyFrom_iff strayOps hacc).mp (hall strayOps hacc)
  exact absurd hkeeping (by decide)

end
end Woodshed
