import Woodshed.Upright

/-! What `truncate_end` does to the state, the directory and the manifest. -/
namespace Woodshed
open Sequencing Framing PartitionPoint

/-! ### Which segment is cut -/

/-- The segments in front of the cut, the one that is cut and the ones behind it. -/
theorem truncateTarget_split (segs : List SegmentEntry) (lastValid : EntryId) (hne : segs ≠ []) :
    ∃ pre target post, segs = pre ++ target :: post ∧
      truncateTarget segs lastValid = some (target.id, post.map (·.id)) ∧
      ((∀ seg ∈ post.head?, lastValid < seg.firstEntry) ∨
        pre = [] ∧ lastValid < target.firstEntry) := by
  obtain ⟨hle, hmiss⟩ := partitionPoint_any (fun s : SegmentEntry => decide (s.firstEntry ≤ lastValid))
    segs
  unfold truncateTarget
  dsimp only
  rw [holdsAt] at hmiss
  set p := partitionPoint (fun s : SegmentEntry => decide (s.firstEntry ≤ lastValid)) segs with hp
  have hpos : 0 < segs.length := List.length_pos_of_ne_nil hne
  have hlt : p-1 < segs.length := by omega
  have hget : segs[p-1]? = some segs[p-1] := List.getElem?_eq_getElem hlt
  have hsplit : segs = segs.take (p-1) ++ segs[p-1] :: segs.drop (p-1+1) := by simp
  rw [hget, Option.map_some]
  refine ⟨segs.take (p-1), segs[p-1], segs.drop (p-1+1), hsplit, rfl, ?_⟩
  rcases Nat.eq_zero_or_pos p with h0 | h0
  · right
    simp only [h0, Nat.zero_sub, List.take_zero, true_and]
    rw [h0, List.getElem?_eq_getElem hpos, Option.any_some] at hmiss
    exact not_le.mp (of_decide_eq_false hmiss)
  · left
    intro seg hseg
    rw [show p-1+1 = p by omega, List.head?_drop] at hseg
    rw [Option.mem_def.mp hseg, Option.any_some] at hmiss
    exact not_le.mp (of_decide_eq_false hmiss)

/-! ### The scan for the cut -/

namespace FrameScanner

theorem peekHeader_start {s t : FrameScanner} {header : Bytes} {frameStart : ℕ}
    (hs : s.peeked = none) (h : peekHeader s = .ok (some (header, frameStart)) t) :
    frameStart = s.position := by
  unfold peekHeader at h
  rw [get_bind] at h
  simp only [hs] at h
  obtain ⟨first, t₁, hfirst, h⟩ := bind_eq_ok h
  split at h
  · cases h
  · obtain ⟨more, t₂, hmore, h⟩ := bind_eq_ok h
    rw [modify_bind, pure_apply] at h
    cases h
    rfl

theorem consumePeekedPayload_position {s t : FrameScanner} {n start : ℕ}
    (h : consumePeekedPayload n start s = .ok () t) :
    t.position = start+headerLen+n ∧ t.peeked = none := by
  obtain ⟨k, u, hskip, h⟩ := bind_eq_ok h
  split at h
  · cases h
  · cases h
    exact ⟨rfl, rfl⟩

/-- The offset found is behind where the scanner believes to be. -/
theorem scanToAfter_le {target : EntryId} {s t : FrameScanner} {off : ℕ} (hs : s.peeked = none)
    (h : scanToAfter target s = .ok off t) : s.position ≤ off := by
  induction s using FrameScanner.scanToAfter.induct target with
  | case1 s e u hp =>
    rw [scanToAfter] at h
    split at h <;> rename_i hc <;> rw [hp] at hc <;> cases hc
    cases h
  | case2 s u hp =>
    rw [scanToAfter] at h
    split at h <;> rename_i hc <;> rw [hp] at hc <;> cases hc
    cases h
  | case3 s header start u hp e u' hc =>
    rw [scanToAfter] at h
    split at h <;> rename_i hq <;> rw [hp] at hq <;> cases hq
    split at h <;> rename_i hq <;> rw [hc] at hq <;> cases hq
    cases h
  | case4 s header start u hp u' hc heq =>
    rw [scanToAfter] at h
    split at h <;> rename_i hq <;> rw [hp] at hq <;> cases hq
    split at h <;> rename_i hq <;> rw [hc] at hq <;> cases hq
    rw [if_pos heq] at h
    cases h
    rw [(consumePeekedPayload_position hc).1, peekHeader_start hs hp]
    omega
  | case5 s header start u hp u' hc hne ih =>
    rw [scanToAfter] at h
    split at h <;> rename_i hq <;> rw [hp] at hq <;> cases hq
    split at h <;> rename_i hq <;> rw [hc] at hq <;> cases hq
    rw [if_neg hne] at h
    obtain ⟨hpos, hpeek⟩ := consumePeekedPayload_position hc
    have hle := ih hpeek h
    rw [hpos, peekHeader_start hs hp] at hle
    omega

end FrameScanner

/-! ### The store behind a cut -/

section
variable [Crates]

/-- The state behind `truncate_end`: `target` is active again, and the segments behind it are
dead. -/
def cutState (st : StoreState) (target : SegmentEntry) (drop : List SegmentId) : StoreState :=
  { killed st drop with
    seals := Function.update (killed st drop).seals target.id none
    activeSegmentId := some target.id }

def cutOp (target : SegmentEntry) (off : ℕ) (drop : List SegmentId) : ManifestOp :=
  ManifestOp.bare (.truncateEnd target.id (UInt64.ofNat off) drop)

/-- The store behind a cut of `target` at `off`. -/
def Store.cut (s : Store) (target : SegmentEntry) (off : ℕ) (drop : List SegmentId)
    (lastValid : EntryId) : Store :=
  { s.recorded (cutOp target off drop) (cutState s.state target drop) with
    segments := (s.segments \ drop.toFinset).erase target.id
    activeId := target.id
    activeCursor := FrameCursor.new off
    lastEntryId := some lastValid
    rolloverPending := false
    index := s.index.truncateEnd lastValid
    activeFirstEntry := target.firstEntry
    activeEntryCount := 0 }

def Dir.cut (d : Dir) (target : SegmentEntry) (off : ℕ) : Dir :=
  (d.setLen (segmentPath target.id) off).sync (segmentPath target.id)

/-- `truncate_end` cuts `target` at `off`, with `pre` in front of it and `post` behind it. -/
structure CutsAt (s : Store) (d : Dir) (lastValid : EntryId) (pre : List SegmentEntry)
    (target : SegmentEntry) (post : List SegmentEntry) (off : ℕ) : Prop where
  above : ∃ last, s.lastEntryId = some last ∧ lastValid < last
  split : s.state.segments = pre ++ target :: post
  chosen : truncateTarget s.state.segments lastValid = some (target.id, post.map (·.id))
  bound : (∀ seg ∈ post.head?, lastValid < seg.firstEntry) ∨ pre = [] ∧ lastValid < target.firstEntry
  scanned : ∃ t, FrameScanner.scanToAfter lastValid
    ⟨⟨body d target.id, []⟩, startOffset s.index lastValid target.id, none⟩ = .ok off t

omit [Crates] in
theorem apply_cutOp {st : StoreState} {target : SegmentEntry} {drop : List SegmentId} {off : ℕ}
    (hdrop : ∀ id ∈ drop, st.lists id = true) (htarget : target ∈ st.segments) :
    StoreState.apply (cutOp target off drop) st = .ok ⟨⟩ (cutState st target drop) := by
  have hnone : drop.find? (fun id => decide (st.lists id = false)) = none := by
    rw [List.find?_eq_none]
    intro id hid
    simp [hdrop id hid]
  have happly : StoreState.truncateEnd target.id (UInt64.ofNat off) drop st =
      .ok ⟨⟩ (cutState st target drop) := by
    rw [StoreState.truncateEnd, get_bind]
    simp only [hnone, lists_of_mem htarget, Bool.true_eq_false, if_false, foldl_killSegment]
    rfl
  unfold StoreState.apply
  exact bind_ok happly

omit [Crates] in
theorem find_mem {x : SegmentIndex} {target : EntryId} {c : EntryId × ℕ}
    (h : x.find target = some c) : c ∈ x.checkpoints := by
  unfold SegmentIndex.find at h
  dsimp only at h
  split at h
  · cases h
  · exact List.mem_of_getElem? h

omit [Crates] in
/-- The scan starts behind the magic number. -/
theorem magicLen_le_startOffset {x : EntryIndex} (lastValid : EntryId) (target : SegmentId)
    (h : ∀ t ∈ x.segments, ∀ c ∈ t.2.checkpoints, magicLen ≤ c.2) :
    magicLen ≤ startOffset x lastValid target := by
  unfold startOffset
  cases hf : x.find lastValid with
  | none => exact le_rfl
  | some pos =>
    obtain ⟨t, ht, _, hpos⟩ := EntryIndex.find_segment hf
    dsimp only
    split
    · exact h t ht _ (find_mem hpos)
    · exact le_rfl

omit [Crates] in
theorem length_resize (old : Bytes) (len : ℕ) : (resize old len).length = len := by
  simp only [resize, List.length_take, List.length_append, List.length_replicate]
  omega

omit [Crates] in
/-- Cutting behind the magic number leaves the magic number. -/
theorem resize_magic (xs : Bytes) {off : ℕ} (h : magicLen ≤ off) :
    resize (segmentMagic ++ xs) off = segmentMagic ++ resize xs (off-magicLen) := by
  have hlen : segmentMagic.length = magicLen := rfl
  rw [resize, resize, List.append_assoc, List.length_append, hlen, List.take_append, hlen,
    List.take_of_length_le (by rw [hlen]; exact h)]
  rw [show off-(magicLen+xs.length) = off-magicLen-xs.length by omega]

section
variable {s : Store} {d : Dir} {active target : SegmentEntry} {pre post : List SegmentEntry}
  {lastValid : EntryId} {off : ℕ}

omit [Crates] in
/-- The live segments behind a cut. -/
theorem segments_cutState {st : StoreState} (hnd : (st.segments.map (·.id)).Nodup)
    (hsplit : st.segments = pre ++ target :: post) :
    (cutState st target (post.map (·.id))).segments = pre ++ [target] := by
  rw [hsplit, List.map_append, List.map_cons, List.nodup_append, List.nodup_cons] at hnd
  obtain ⟨_, ⟨hnot, _⟩, hdisj⟩ := hnd
  change (st.segments.filter fun seg => decide (seg.id ∉ post.map (·.id))) = _
  rw [hsplit, List.filter_append, List.filter_cons_of_pos (by simpa using hnot)]
  have hpre : pre.filter (fun seg => decide (seg.id ∉ post.map (·.id))) = pre := by
    refine List.filter_eq_self.mpr fun seg hseg => decide_eq_true fun hin => ?_
    exact hdisj _ (List.mem_map_of_mem hseg) _ (List.mem_cons_of_mem _ hin) rfl
  have hpost : post.filter (fun seg => decide (seg.id ∉ post.map (·.id))) = [] := by
    refine List.filter_eq_nil_iff.mpr fun seg hseg => ?_
    simp [List.mem_map_of_mem hseg]
  rw [hpre, hpost]

omit [Crates] in
/-- What was live and is not behind the cut is live. -/
theorem lists_cutState {st : StoreState} (drop : List SegmentId) (id : SegmentId) :
    (cutState st target drop).lists id = true ↔ st.lists id = true ∧ id ∉ drop :=
  lists_killed st drop id

omit [Crates] in
theorem Shaped.cut {st : StoreState} (h : Shaped st active)
    (hsplit : st.segments = pre ++ target :: post) :
    Shaped (cutState st target (post.map (·.id))) target := by
  have hsegs := segments_cutState h.nodup hsplit
  have hnd := h.nodup
  rw [hsplit, List.map_append, List.map_cons, List.nodup_append, List.nodup_cons] at hnd
  refine ⟨?_, ?_, rfl, ?_, ?_⟩
  · rw [hsegs, List.getLast?_concat]
  · have hsub : ((pre ++ [target]).map (·.id)).Sublist (st.segments.map (·.id)) := by
      rw [hsplit]
      exact ((List.Sublist.refl pre).append (List.cons_sublist_cons.mpr (List.nil_sublist post))).map _
    rw [hsegs]
    exact h.nodup.sublist hsub
  · intro id
    change (Function.update (Woodshed.killed st _).seals target.id none id).isSome = true ↔ _
    rw [lists_cutState]
    by_cases hid : id = target.id
    · rw [hid, Function.update_self]
      simp
    · rw [Function.update_of_ne hid]
      change (if id ∈ post.map (·.id) then none else st.seals id).isSome = true ↔ _
      by_cases hin : id ∈ post.map (·.id)
      · simp [hin]
      · rw [if_neg hin, h.seals]
        have hlast := h.last
        constructor
        · rintro ⟨hl, _⟩
          exact ⟨⟨hl, hin⟩, hid⟩
        · rintro ⟨⟨hl, _⟩, _⟩
          refine ⟨hl, ?_⟩
          rintro rfl
          -- the old active segment is the last one: the target or behind it
          rw [hsplit, List.getLast?_append_of_ne_nil _ (by simp)] at hlast
          rcases List.mem_cons.mp (List.mem_of_getLast? hlast) with heq | hmem
          · exact hid (by rw [heq])
          · exact hin (List.mem_map_of_mem hmem)
  · intro id hid
    rw [Bool.eq_false_iff, ne_eq, lists_cutState]
    rintro ⟨hl, hnot⟩
    rcases Finset.mem_union.mp hid with hid | hid
    · exact hnot (List.mem_toFinset.mp hid)
    · rw [h.dead id hid] at hl
      cases hl

omit [Crates] in
theorem CutsAt.magicLen_le (hcut : CutsAt s d lastValid pre target post off)
    (hoffsets : ∀ x ∈ s.index.segments, ∀ c ∈ x.2.checkpoints, magicLen ≤ c.2) : magicLen ≤ off := by
  obtain ⟨t, hscan⟩ := hcut.scanned
  exact (magicLen_le_startOffset lastValid target.id hoffsets).trans
    (FrameScanner.scanToAfter_le (s := ⟨⟨body d target.id, []⟩, _, none⟩) rfl hscan)

/-- The file that is cut. -/
theorem Upright.bytes_cut (h : Upright s d active) (hmem : target ∈ s.state.segments)
    (hoff : magicLen ≤ off) (pos : ℕ) (op : ManifestOp) :
    ((d.cut target off).appended pos op).bytes (segmentPath target.id) =
      some (segmentMagic ++ resize (body d target.id) (off-magicLen)) := by
  have hdiff := (d.cut target off).differs_appended pos op
  have hhas := h.files target hmem
  rw [HasSegment] at hhas
  rw [hdiff.bytes _ (segmentPath_ne_manifest _), Dir.cut, Dir.bytes_sync, Dir.bytes_setLen,
    if_pos rfl, hhas, Option.map_some, resize_magic _ hoff]

/-- The other segment files stay as they are. -/
theorem Upright.bytes_uncut (h : Upright s d active) (hmem : target ∈ s.state.segments)
    (off pos : ℕ) (op : ManifestOp) {seg : SegmentEntry} (hseg : seg ∈ s.state.segments)
    (hne : seg ≠ target) :
    ((d.cut target off).appended pos op).bytes (segmentPath seg.id) =
      d.bytes (segmentPath seg.id) := by
  have hdiff := (d.cut target off).differs_appended pos op
  rw [hdiff.bytes _ (segmentPath_ne_manifest _)]
  refine (d.differs_setLen_sync (segmentPath target.id) off).bytes _ fun heq => hne ?_
  exact h.shaped.inj hseg hmem (segmentPath_injective heq)

/-- The store behind a cut, its state up to date. -/
def Machine.rewound (target : SegmentId) (drop : List SegmentId) (off : ℕ) (lastValid : EntryId)
    (m : Machine) : Machine :=
  { m with store := { m.store with
    segments := (m.store.segments \ drop.toFinset).erase target
    activeId := target
    activeCursor := FrameCursor.new off
    lastEntryId := some lastValid
    rolloverPending := false
    index := m.store.index.truncateEnd lastValid
    activeFirstEntry := match m.store.state.sealInfo target with
      | some info => info.firstEntry
      | none => ((m.store.state.segments.find? (·.id = target)).map (·.firstEntry)).getD ⟨0⟩
    activeEntryCount := 0 } }

/-- What `truncate_end` does once it has found the cut. -/
theorem Store.truncateEnd_eq {w : World} {t : FrameScanner}
    (hall : ¬ s.lastEntryId.all (fun last => decide (last ≤ lastValid)) = true)
    (htarget : truncateTarget s.state.segments lastValid = some (target.id, post.map (·.id)))
    (hfile : HasSegment w.dir target.id) (hopens : w.faults.opens = [])
    (hscan : FrameScanner.scanToAfter lastValid
      ⟨⟨body w.dir target.id, []⟩, startOffset s.index lastValid target.id, none⟩ = .ok off t) :
    Store.truncateEnd lastValid ⟨s, w⟩ = (do
      fs (File.setLen (segmentPath target.id) .segment off)
      fs (File.syncAll (segmentPath target.id) .segment)
      Store.appendOp (cutOp target off (post.map (·.id))) "truncate_end op was pre-validated"
      modify (Machine.rewound target.id (post.map (·.id)) off lastValid) : StoreM Unit) ⟨s, w⟩ := by
  have hopen := openSegment_quiet hopens hfile
  have hto : scanTo ⟨segmentPath target.id, ⟨body w.dir target.id, []⟩⟩
      (startOffset s.index lastValid target.id) lastValid ⟨s, w⟩ = .ok off ⟨s, w⟩ := by
    unfold scanTo
    rw [FrameScanner.new]
    dsimp only
    rw [hscan]
    rfl
  unfold Store.truncateEnd
  rw [get_bind]
  refine (congrFun (if_neg hall) _).trans ?_
  dsimp only
  rw [htarget]
  dsimp only
  rw [bind_ok (fs_ok hopen), bind_ok hto, bind_ok (fs_ok hopen)]
  rfl

omit [Crates] in
/-- There is an entry behind the last valid one. -/
theorem CutsAt.not_all (hcut : CutsAt s d lastValid pre target post off) :
    ¬ s.lastEntryId.all (fun last => decide (last ≤ lastValid)) = true := by
  obtain ⟨last, hlast, hlt⟩ := hcut.above
  rw [hlast, Option.all_some, decide_eq_true_eq, not_le]
  exact hlt

theorem Upright.cut (h : Upright s d active) (hcut : CutsAt s d lastValid pre target post off) :
    Store.truncateEnd lastValid ⟨s, calm d⟩ =
        .ok ⟨⟩ ⟨s.cut target off (post.map (·.id)) lastValid,
          calm ((d.cut target off).appended s.manifestCursor.position
            (cutOp target off (post.map (·.id))))⟩ ∧
      Upright (s.cut target off (post.map (·.id)) lastValid)
        ((d.cut target off).appended s.manifestCursor.position
          (cutOp target off (post.map (·.id)))) target ∧
      Logged s d (s.cut target off (post.map (·.id)) lastValid)
        ((d.cut target off).appended s.manifestCursor.position
          (cutOp target off (post.map (·.id)))) [cutOp target off (post.map (·.id))] := by
  have hoff := hcut.magicLen_le h.offsets
  have hall := hcut.not_all
  obtain ⟨_, hsplit, hchosen, hbound, t, hscan⟩ := hcut
  set drop := post.map (·.id) with hdrop
  have hshape := h.shaped.cut hsplit
  rw [← hdrop] at hshape
  have hmem : target ∈ s.state.segments := by simp [hsplit]
  have hlive : ∀ id ∈ drop, s.state.lists id = true := by
    intro id hid
    obtain ⟨seg, hseg, rfl⟩ := List.mem_map.mp hid
    exact lists_of_mem (by simp [hsplit, hseg])
  have ha : StoreState.apply (cutOp target off drop) s.state =
      .ok ⟨⟩ (cutState s.state target drop) := apply_cutOp hlive hmem
  have hcutDiff := d.differs_setLen_sync (segmentPath target.id) off
  have hdiff := (d.cut target off).differs_appended s.manifestCursor.position (cutOp target off drop)
  have htarget := h.bytes_cut hmem hoff s.manifestCursor.position (cutOp target off drop)
  have hfiles : ∀ id ∈ drop, segmentPath id ∈ d.files := by
    intro id hid
    obtain ⟨seg, hseg, rfl⟩ := (lists_iff _ _).mp (hlive id hid)
    exact Dir.mem_of_bytes (h.files seg hseg)
  have hfiled := h.filed.killed hlive hfiles
  have hcutFiled : Filed d (cutState s.state target drop) := ⟨hfiled.known, hfiled.found⟩
  refine ⟨?_, ⟨hdiff.present.trans (hcutDiff.present.trans h.present), hshape, ?_,
    (hcutFiled.differs hcutDiff).differs hdiff, rfl, rfl, rfl, ?_, ?_⟩, ?_⟩
  · have hfind : (cutState s.state target drop).segments.find? (·.id = target.id) = some target :=
      hshape.find hshape.mem
    have hunsealed : (cutState s.state target drop).sealInfo target.id = none :=
      Function.update_self _ _ _
    rw [Store.truncateEnd_eq hall hchosen (h.files target hmem) rfl hscan,
      bind_ok (fs_ok (File.setLen_calm d _ _ _)), bind_ok (fs_ok (File.syncAll_calm _ _ _))]
    refine (bind_ok (h.appendOp ha (d.cut target off) _)).trans ?_
    rw [modify_apply, Machine.rewound]
    dsimp only [Store.recorded]
    rw [hunsealed]
    dsimp only
    rw [hfind]
    rfl
  · intro seg hseg
    have hold : seg ∈ s.state.segments := mem_killed hseg
    by_cases heq : seg = target
    · rw [heq]
      exact hasSegment_of htarget
    · rw [HasSegment, body, h.bytes_uncut hmem off _ _ hold heq]
      exact h.files seg hold
  · change off = _
    rw [body_eq htarget, List.length_append, length_resize]
    have hlen : segmentMagic.length = magicLen := rfl
    omega
  · intro x hx c hc
    obtain ⟨t, ht, _, hsub⟩ := checkpoints_truncateEnd s.index lastValid x hx
    exact h.offsets t ht c (hsub c hc)
  · have hmanifest : (d.cut target off).bytes manifestFileName = d.bytes manifestFileName :=
      hcutDiff.bytes _ (segmentPath_ne_manifest _).symm
    exact (logged_recorded ha hmanifest).congr rfl rfl rfl rfl

/-- An id at or behind the last one. -/
theorem Store.truncateEnd_beyond (w : World)
    (hall : s.lastEntryId.all (fun last => decide (last ≤ lastValid)) = true) :
    Store.truncateEnd lastValid ⟨s, w⟩ = .ok ⟨⟩ ⟨s, w⟩ := by
  unfold Store.truncateEnd
  rw [get_bind]
  exact congrFun (if_pos hall) _

/-- An entry that the segment has not is refused, and nothing changes. -/
theorem Store.truncateEnd_missing
    (hall : ¬ s.lastEntryId.all (fun last => decide (last ≤ lastValid)) = true)
    (htarget : truncateTarget s.state.segments lastValid = some (target.id, post.map (·.id)))
    (hfile : HasSegment d target.id) {e : ScanError} {t : FrameScanner}
    (hscan : FrameScanner.scanToAfter lastValid
      ⟨⟨body d target.id, []⟩, startOffset s.index lastValid target.id, none⟩ = .error e t) :
    Store.truncateEnd lastValid ⟨s, calm d⟩ = .error (.err ⟨.invalidData, e.toString⟩) ⟨s, calm d⟩ := by
  have hopen := openSegment_ok hfile
  have hto : scanTo ⟨segmentPath target.id, ⟨body d target.id, []⟩⟩
      (startOffset s.index lastValid target.id) lastValid ⟨s, calm d⟩ =
        .error (.err ⟨.invalidData, e.toString⟩) ⟨s, calm d⟩ := by
    unfold scanTo
    rw [FrameScanner.new]
    dsimp only
    rw [hscan]
    rfl
  unfold Store.truncateEnd
  rw [get_bind]
  dsimp only
  rw [if_neg hall, htarget]
  dsimp only
  rw [bind_ok (fs_ok hopen)]
  exact bind_error hto

theorem Upright.cases_truncateEnd (h : Upright s d active) (lastValid : EntryId) :
    Store.truncateEnd lastValid ⟨s, calm d⟩ = .ok ⟨⟩ ⟨s, calm d⟩ ∨
      (∃ e, Store.truncateEnd lastValid ⟨s, calm d⟩ = .error (.err e) ⟨s, calm d⟩) ∨
      ∃ pre target post off, CutsAt s d lastValid pre target post off := by
  by_cases hall : s.lastEntryId.all (fun last => decide (last ≤ lastValid)) = true
  · exact Or.inl (Store.truncateEnd_beyond (calm d) hall)
  · right
    have habove : ∃ last, s.lastEntryId = some last ∧ lastValid < last := by
      cases hl : s.lastEntryId with
      | none =>
        rw [hl] at hall
        exact absurd rfl hall
      | some last =>
        rw [hl, Option.all_some, decide_eq_true_eq, not_le] at hall
        exact ⟨last, rfl, hall⟩
    obtain ⟨pre, target, post, hsplit, htarget, hbound⟩ := truncateTarget_split s.state.segments
      lastValid (List.ne_nil_of_mem h.shaped.mem)
    have hmem : target ∈ s.state.segments := by simp [hsplit]
    cases hscan : FrameScanner.scanToAfter lastValid
        ⟨⟨body d target.id, []⟩, startOffset s.index lastValid target.id, none⟩ with
    | ok off t => exact Or.inr ⟨pre, target, post, off, habove, hsplit, htarget, hbound, t, hscan⟩
    | error e t => exact Or.inl ⟨_, Store.truncateEnd_missing hall htarget (h.files target hmem) hscan⟩

end

end
end Woodshed
