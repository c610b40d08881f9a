import Woodshed.Cutting
import Woodshed.Runs

/-! Which ids `truncate_end` refuses: the search goes through one segment, and what is not there is
not stored at all. -/
namespace Woodshed
open Sequencing Framing FrameScanner PartitionPoint

/-- Where the segments that start at or before an entry come first, the last of them is cut. -/
theorem truncateTarget_hit {segs : List SegmentEntry} {lastValid : EntryId}
    (hp : Partitioned (fun seg => decide (seg.firstEntry ≤ lastValid)) segs) {seg : SegmentEntry}
    (hseg : seg ∈ segs) (hle : seg.firstEntry ≤ lastValid) :
    ∃ pre target post, segs = pre ++ target :: post ∧
      truncateTarget segs lastValid = some (target.id, post.map (·.id)) ∧
      target.firstEntry ≤ lastValid ∧ ∀ next ∈ post, lastValid < next.firstEntry := by
  obtain ⟨htake, hdrop⟩ := take_partitionPoint _ segs hp
  unfold truncateTarget
  dsimp only
  set p := partitionPoint (fun seg : SegmentEntry => decide (seg.firstEntry ≤ lastValid)) segs
  have hin : seg ∈ segs.take p := by
    rw [htake, List.mem_filter]
    exact ⟨hseg, decide_eq_true hle⟩
  have hlen := List.length_pos_of_mem hin
  rw [List.length_take] at hlen
  -- the search stops behind a segment that starts early enough
  have hlt : p-1 < segs.length := by
    have hple := (partitionPoint_any (fun s : SegmentEntry => decide (s.firstEntry ≤ lastValid)) segs).1
    omega
  have hback : p-1+1 = p := by omega
  have hhit : segs[p-1] ∈ segs.take p := by
    rw [List.mem_take_iff_getElem]
    exact ⟨p-1, by omega, rfl⟩
  rw [htake, List.mem_filter, decide_eq_true_eq] at hhit
  refine ⟨segs.take (p-1), segs[p-1], segs.drop p, ?_, ?_, hhit.2, ?_⟩
  · calc segs = segs.take (p-1) ++ segs.drop (p-1) := (List.take_append_drop _ _).symm
      _ = segs.take (p-1) ++ segs[p-1] :: segs.drop p := by rw [List.drop_eq_getElem_cons hlt, hback]
  · rw [List.getElem?_eq_getElem hlt, Option.map_some, hback]
  · intro next hnext
    rw [hdrop, List.mem_filter] at hnext
    simpa using hnext.2

section
variable [Crates]

/-- The live segments hold whole frames whose ids ascend along them, each id not below the first entry
recorded for its segment and below the one of the next, and the store knows the last of them. -/
structure Stocked (s : Store) (d : Dir) (log : SegmentId → List Entry) : Prop where
  files : ∀ seg ∈ s.state.segments,
    d.bytes (segmentPath seg.id) = some (segmentMagic ++ frames.encodeAll (log seg.id))
  fits : ∀ seg ∈ s.state.segments, ∀ e ∈ log seg.id, Fits e
  ascending : (liveLog s.state log).Pairwise fun a b => a.1 < b.1
  above : ∀ seg ∈ s.state.segments, ∀ e ∈ log seg.id, seg.firstEntry ≤ e.1
  below : s.state.segments.IsChain fun seg next => ∀ e ∈ log seg.id, e.1 < next.firstEntry
  last : s.lastEntryId = (liveLog s.state log).getLast?.map (·.1)

/-- No call has an effect that a failure of it could leave behind. -/
theorem Store.appendOp_calm {op : ManifestOp} {s : Store} {st : StoreState} (message : String) (d : Dir)
    (ha : StoreState.apply op s.state = .ok ⟨⟩ st) :
    ∃ m, Store.appendOp op message ⟨s, calm d⟩ = .ok ⟨⟩ m := by
  unfold Store.appendOp Store.setManifestCursor
  rw [get_bind, modify_bind, get_bind]
  dsimp only
  rw [bind_ok (fs_ok (FrameCursor.flush_quiet _ manifestFileName rfl)), modify_bind]
  dsimp only
  rw [bind_ok (fs_ok (File.syncAll_quiet rfl))]
  unfold Store.applyExpect
  dsimp only
  rw [ha]
  exact ⟨_, rfl⟩

section
variable {s : Store} {d : Dir} {lastValid : EntryId} {pre : List SegmentEntry} {target : SegmentEntry}
  {post : List SegmentEntry}

/-- An entry that is found in the segment is the last one then. -/
theorem Store.truncateEnd_found
    (hall : ¬ s.lastEntryId.all (fun last => decide (last ≤ lastValid)) = true)
    (hsplit : s.state.segments = pre ++ target :: post)
    (htarget : truncateTarget s.state.segments lastValid = some (target.id, post.map (·.id)))
    (hfile : HasSegment d target.id) {off : ℕ} {t : FrameScanner}
    (hscan : scanToAfter lastValid
      ⟨⟨body d target.id, []⟩, startOffset s.index lastValid target.id, none⟩ = .ok off t) :
    ∃ m, Store.truncateEnd lastValid ⟨s, calm d⟩ = .ok ⟨⟩ m := by
  have hlive : ∀ id ∈ post.map (·.id), s.state.lists id = true := by
    intro id hid
    obtain ⟨seg, hseg, rfl⟩ := List.mem_map.mp hid
    exact lists_of_mem (by simp [hsplit, hseg])
  have happly : StoreState.apply (cutOp target off (post.map (·.id))) s.state =
      .ok ⟨⟩ (cutState s.state target (post.map (·.id))) := apply_cutOp hlive (by simp [hsplit])
  obtain ⟨m, hm⟩ := Store.appendOp_calm "truncate_end op was pre-validated"
    (d.cut target off) happly
  have hsync : File.syncAll (segmentPath target.id) .segment (calm (d.setLen (segmentPath target.id) off)) =
      .ok ⟨⟩ (calm (d.cut target off)) := File.syncAll_quiet rfl
  rw [Store.truncateEnd_eq hall htarget hfile rfl hscan, bind_ok (fs_ok (File.setLen_calm d _ _ _)),
    bind_ok (fs_ok hsync), bind_ok hm]
  exact ⟨_, rfl⟩

end

section
variable {s : Store} {d : Dir} {log : SegmentId → List Entry} {lastValid : EntryId}

theorem Stocked.hasSegment (h : Stocked s d log) {seg : SegmentEntry} (hseg : seg ∈ s.state.segments) :
    HasSegment d seg.id ∧ body d seg.id = frames.encodeAll (log seg.id) := by
  have hbody := body_eq (h.files seg hseg)
  refine ⟨?_, hbody⟩
  rw [HasSegment, hbody]
  exact h.files seg hseg

/-- A stored entry is in the segment that is cut. -/
theorem Stocked.found (h : Stocked s d log)
    (hp : Partitioned (fun seg => decide (seg.firstEntry ≤ lastValid)) s.state.segments)
    {e : Entry} (he : e ∈ liveLog s.state log) (hid : e.1 = lastValid) :
    ∃ pre target post, s.state.segments = pre ++ target :: post ∧
      truncateTarget s.state.segments lastValid = some (target.id, post.map (·.id)) ∧
      e ∈ log target.id := by
  obtain ⟨seg, hseg, heseg⟩ := List.mem_flatMap.mp he
  have hle : seg.firstEntry ≤ lastValid := hid ▸ h.above seg hseg e heseg
  obtain ⟨pre, target, post, hsplit, htarget, hstart, hpost⟩ := truncateTarget_hit hp hseg hle
  refine ⟨pre, target, post, hsplit, htarget, ?_⟩
  rw [hsplit, List.mem_append, List.mem_cons] at hseg
  rcases hseg with hpre | rfl | hback
  · -- the segment behind it starts after the entry, but not after the one that is cut
    obtain ⟨older, newer, rfl⟩ := List.append_of_mem hpre
    obtain ⟨next, rest, hnext⟩ := List.exists_cons_of_ne_nil
      (show newer ++ target :: post ≠ [] by simp)
    have hlist : s.state.segments = older ++ seg :: next :: rest := by
      rw [hsplit, List.append_assoc, List.cons_append, hnext]
    have hbelow : e.1 < next.firstEntry := by
      have hchain := h.below
      rw [hlist] at hchain
      exact (List.isChain_append_cons_cons.mp hchain).2.1 e heseg
    have hnextle : next.firstEntry ≤ lastValid := by
      cases newer with
      | nil =>
        obtain ⟨rfl, _⟩ := List.cons.inj hnext
        exact hstart
      | cons mid newer =>
        obtain ⟨rfl, hrest⟩ := List.cons.inj hnext
        rw [hlist] at hp
        have hpair := (List.pairwise_cons.mp (List.pairwise_cons.mp
          (List.pairwise_append.mp hp).2.1).2).1 target (by rw [← hrest]; simp)
        exact of_decide_eq_true (hpair (decide_eq_true hstart))
    exact absurd (hbelow.trans_le hnextle) (by rw [hid]; exact lt_irrefl _)
  · exact heseg
  · exact absurd hle (not_le.mpr (hpost seg hback))

/-- An entry of the segment that is cut is found. -/
theorem Stocked.truncateEnd_inTarget (h : Stocked s d log)
    (hall : ¬ s.lastEntryId.all (fun last => decide (last ≤ lastValid)) = true)
    {pre post : List SegmentEntry} {target : SegmentEntry}
    (hsplit : s.state.segments = pre ++ target :: post)
    (htarget : truncateTarget s.state.segments lastValid = some (target.id, post.map (·.id)))
    {e : Entry} (hin : e ∈ log target.id) (hid : e.1 = lastValid) :
    ∃ m, Store.truncateEnd lastValid ⟨s, calm d⟩ = .ok ⟨⟩ m := by
  have hmem : target ∈ s.state.segments := by simp [hsplit]
  obtain ⟨hhas, hbody⟩ := h.hasSegment hmem
  obtain ⟨before, rest, hlog⟩ := List.append_of_mem hin
  have hasc : (log target.id).Pairwise fun a b => a.1 < b.1 :=
    (List.pairwise_flatMap.mp h.ascending).1 target hmem
  have hne : ∀ x ∈ before, x.1 ≠ e.1 := by
    intro x hx
    rw [hlog] at hasc
    exact ((List.pairwise_append.mp hasc).2.2 x hx e (by simp)).ne
  have hscan := scanToAfter_facing before e (frames.encodeAll rest)
    (startOffset s.index lastValid target.id)
    (fun x hx => h.fits target hmem x (by simp [hlog, hx])) (h.fits target hmem e hin) hne
  rw [hid, ← frames_encode, ← Grammar.encodeAll_cons, ← Grammar.encodeAll_append, ← hlog, ← hbody]
    at hscan
  exact Store.truncateEnd_found hall hsplit htarget hhas hscan

/-- An id that the segment that is cut does not hold is refused, and nothing is changed. -/
theorem Stocked.truncateEnd_notInTarget (h : Stocked s d log)
    (hall : ¬ s.lastEntryId.all (fun last => decide (last ≤ lastValid)) = true)
    {pre post : List SegmentEntry} {target : SegmentEntry}
    (hsplit : s.state.segments = pre ++ target :: post)
    (htarget : truncateTarget s.state.segments lastValid = some (target.id, post.map (·.id)))
    (hnone : ∀ e ∈ log target.id, e.1 ≠ lastValid) :
    ∃ e, Store.truncateEnd lastValid ⟨s, calm d⟩ = .error (.err e) ⟨s, calm d⟩ := by
  have hmem : target ∈ s.state.segments := by simp [hsplit]
  obtain ⟨hhas, hbody⟩ := h.hasSegment hmem
  obtain ⟨t, hscan⟩ := scanToAfter_missing lastValid (log target.id)
    (startOffset s.index lastValid target.id) (h.fits target hmem) hnone
  rw [← hbody] at hscan
  exact ⟨_, Store.truncateEnd_missing hall htarget hhas hscan⟩

/-- There is a segment to cut in front of the last entry. -/
theorem Stocked.target (h : Stocked s d log)
    (hall : ¬ s.lastEntryId.all (fun last => decide (last ≤ lastValid)) = true) :
    ∃ pre target post, s.state.segments = pre ++ target :: post ∧
      truncateTarget s.state.segments lastValid = some (target.id, post.map (·.id)) := by
  have hne : s.state.segments ≠ [] := by
    intro hnil
    rw [h.last, liveLog, hnil] at hall
    exact hall rfl
  obtain ⟨pre, target, post, hsplit, htarget, _⟩ := truncateTarget_split s.state.segments lastValid hne
  exact ⟨pre, target, post, hsplit, htarget⟩

theorem Stocked.truncateEnd_notStored (h : Stocked s d log)
    (hall : ¬ s.lastEntryId.all (fun last => decide (last ≤ lastValid)) = true)
    (hnone : ∀ e ∈ liveLog s.state log, e.1 ≠ lastValid) :
    ∃ e, Store.truncateEnd lastValid ⟨s, calm d⟩ = .error (.err e) ⟨s, calm d⟩ := by
  obtain ⟨pre, target, post, hsplit, htarget⟩ := h.target hall
  exact h.truncateEnd_notInTarget hall hsplit htarget
    (fun e he => hnone e (List.mem_flatMap.mpr ⟨target, by simp [hsplit], he⟩))

/-- `truncate_end` fails on every id before the last one that is not stored, and only on ids before the
last one; where its search is one of a partitioned slice, only on those that are not stored. A failure
changes nothing, and neither does an id at or behind the last one. -/
theorem Stocked.truncateEnd_refuses (h : Stocked s d log) :
    ((∃ last, s.lastEntryId = some last ∧ lastValid < last) ∧
        (∀ seg ∈ s.state.segments, ∀ e ∈ log seg.id, e.1 ≠ lastValid) →
      ∃ e m, Store.truncateEnd lastValid ⟨s, calm d⟩ = .error (.err e) m) ∧
    ((∃ e m, Store.truncateEnd lastValid ⟨s, calm d⟩ = .error (.err e) m) →
      (∃ last, s.lastEntryId = some last ∧ lastValid < last) ∧
        (Partitioned (fun seg => decide (seg.firstEntry ≤ lastValid)) s.state.segments →
          ∀ seg ∈ s.state.segments, ∀ e ∈ log seg.id, e.1 ≠ lastValid)) ∧
    (∀ e m, Store.truncateEnd lastValid ⟨s, calm d⟩ = .error e m → m = ⟨s, calm d⟩) ∧
    ((∀ last, s.lastEntryId = some last → last ≤ lastValid) →
      Store.truncateEnd lastValid ⟨s, calm d⟩ = .ok ⟨⟩ ⟨s, calm d⟩) := by
  have habove : (¬ s.lastEntryId.all (fun last => decide (last ≤ lastValid)) = true) ↔
      ∃ last, s.lastEntryId = some last ∧ lastValid < last := by
    cases s.lastEntryId with
    | none => simp
    | some last => simp
  have hstored : (∀ seg ∈ s.state.segments, ∀ e ∈ log seg.id, e.1 ≠ lastValid) ↔
      ∀ e ∈ liveLog s.state log, e.1 ≠ lastValid := by
    simp only [liveLog, List.mem_flatMap, forall_exists_index, and_imp]
    exact ⟨fun hn e seg hseg he => hn seg hseg e he, fun hn seg hseg e he => hn e seg hseg he⟩
  rw [← habove, hstored]
  by_cases hall : s.lastEntryId.all (fun last => decide (last ≤ lastValid)) = true
  · have hrun := Store.truncateEnd_beyond (calm d) hall
    refine ⟨fun hn => absurd hall hn.1, ?_, ?_, fun _ => hrun⟩
    · rintro ⟨e, m, herr⟩
      rw [hrun] at herr
      cases herr
    · intro e m herr
      rw [hrun] at herr
      cases herr
  · have hnot : ¬ ∀ last, s.lastEntryId = some last → last ≤ lastValid := by
      obtain ⟨last, hlast, hlt⟩ := habove.mp hall
      exact fun hle => absurd (hle last hlast) (not_le.mpr hlt)
    refine ⟨?_, fun herr => ⟨hall, fun hp e he hid => ?_⟩, ?_, fun hle => absurd hle hnot⟩
    · rintro ⟨-, hnone⟩
      obtain ⟨e, hrun⟩ := h.truncateEnd_notStored hall hnone
      exact ⟨e, _, hrun⟩
    · -- what is stored is in the segment that a search of a partitioned slice finds
      obtain ⟨pre, target, post, hsplit, htarget, hin⟩ := h.found hp he hid
      obtain ⟨m, hrun⟩ := h.truncateEnd_inTarget hall hsplit htarget hin hid
      obtain ⟨e', m', herr⟩ := herr
      rw [hrun] at herr
      cases herr
    · intro e m herr
      obtain ⟨pre, target, post, hsplit, htarget⟩ := h.target hall
      by_cases hex : ∃ e ∈ log target.id, e.1 = lastValid
      · obtain ⟨f, hf, hid⟩ := hex
        obtain ⟨m', hrun⟩ := h.truncateEnd_inTarget hall hsplit htarget hf hid
        rw [hrun] at herr
        cases herr
      · obtain ⟨e', hrun⟩ := h.truncateEnd_notInTarget hall hsplit htarget
          (fun f hf hid => hex ⟨f, hf, hid⟩)
        rw [hrun] at herr
        cases herr
        rfl

end
end

section
attribute [local instance] sample

instance (s : Store) (d : Dir) (log : SegmentId → List Entry) : Decidable (Stocked s d log) :=
  have : ∀ e : Entry, Decidable (Fits e) := fun e => inferInstanceAs (Decidable (e.2.length < 2^32))
  decidable_of_iff
    ((∀ seg ∈ s.state.segments,
        d.bytes (segmentPath seg.id) = some (segmentMagic ++ frames.encodeAll (log seg.id))) ∧
      (∀ seg ∈ s.state.segments, ∀ e ∈ log seg.id, Fits e) ∧
      ((liveLog s.state log).Pairwise fun a b => a.1 < b.1) ∧
      (∀ seg ∈ s.state.segments, ∀ e ∈ log seg.id, seg.firstEntry ≤ e.1) ∧
      (s.state.segments.IsChain fun seg next => ∀ e ∈ log seg.id, e.1 < next.firstEntry) ∧
      s.lastEntryId = (liveLog s.state log).getLast?.map (·.1))
    ⟨fun ⟨hfiles, hfits, hasc, habove, hbelow, hlast⟩ => ⟨hfiles, hfits, hasc, habove, hbelow, hlast⟩,
      fun h => ⟨h.files, h.fits, h.ascending, h.above, h.below, h.last⟩⟩

/-- Whether a program is refused with an I/O error. -/
def refused (prog : StoreM Unit) (m : Machine) : Bool :=
  match prog m with
  | .error (.err _) _ => true
  | _ => false

theorem refused_iff (prog : StoreM Unit) (m : Machine) :
    refused prog m = true ↔ ∃ e m', prog m = .error (.err e) m' := by
  unfold refused
  cases hrun : prog m with
  | ok a m' => simp
  | error e m' => cases e <;> simp

/-- What a program comes to on a store that is created in an empty directory. -/
def ranOn (prog : StoreM Unit) : Option Machine :=
  (openedBlank ⟨1000⟩).bind fun m =>
    match prog m with
    | .ok _ m' => some m'
    | .error _ _ => none

/-- Two segments with entries, the second one rolled to. -/
def rolledOnce : StoreM Unit := do
  let _ ← Store.batch [(⟨1⟩, [10]), (⟨2⟩, [20])]
  Store.doRollover ⟨5⟩
  let _ ← Store.batch [(⟨5⟩, [30])]

def rolledOnceLog (id : SegmentId) : List Entry :=
  if id = ⟨1⟩ then [(⟨1⟩, [10]), (⟨2⟩, [20])] else [(⟨5⟩, [30])]

/-- Between two segments with entries an empty one, whose recorded first entry is above theirs. -/
def rolledTwice : StoreM Unit := do
  let _ ← Store.batch [(⟨1⟩, [10]), (⟨2⟩, [20])]
  Store.doRollover ⟨5⟩
  Store.doRollover ⟨3⟩
  let _ ← Store.batch [(⟨3⟩, [30]), (⟨4⟩, [40])]

def rolledTwiceLog (id : SegmentId) : List Entry :=
  if id = ⟨1⟩ then [(⟨1⟩, [10]), (⟨2⟩, [20])]
  else if id = ⟨2⟩ then []
  else [(⟨3⟩, [30]), (⟨4⟩, [40])]

theorem Stocked.truncateEnd_refuses_rolledOnce : ∃ m, ranOn rolledOnce = some m ∧
    ∃ e m', Store.truncateEnd ⟨3⟩ ⟨m.store, calm m.world.dir⟩ = .error (.err e) m' := by
  have hcheck : (ranOn rolledOnce).any (fun m => decide (Stocked m.store m.world.dir rolledOnceLog) &&
      (decide (m.store.lastEntryId = some ⟨5⟩) &&
      decide (∀ seg ∈ m.store.state.segments, ∀ e ∈ rolledOnceLog seg.id, e.1 ≠ ⟨3⟩))) = true := by
    decide +kernel
  obtain ⟨m, hm, hall⟩ := (Option.any_eq_true _ _).mp hcheck
  simp only [Bool.and_eq_true, decide_eq_true_eq] at hall
  obtain ⟨hstocked, hlast, hnone⟩ := hall
  exact ⟨m, hm, (Stocked.truncateEnd_refuses hstocked).1 ⟨⟨⟨5⟩, hlast, by decide⟩, hnone⟩⟩

/-- Behind an empty segment that starts late, the search misses a segment that starts early. -/
theorem Stocked.not_truncateEnd_error_iff : ¬ ∀ s d log lastValid, Stocked s d log →
    ((∃ e m, Store.truncateEnd lastValid ⟨s, calm d⟩ = .error (.err e) m) ↔
      (∃ last, s.lastEntryId = some last ∧ lastValid < last) ∧
        ∀ seg ∈ s.state.segments, ∀ e ∈ log seg.id, e.1 ≠ lastValid) := by
  have hcheck : (ranOn rolledTwice).any (fun m =>
      decide (Stocked m.store m.world.dir rolledTwiceLog) &&
      (refused (Store.truncateEnd ⟨3⟩) ⟨m.store, calm m.world.dir⟩ &&
      decide (∃ seg ∈ m.store.state.segments, ∃ e ∈ rolledTwiceLog seg.id, e.1 = ⟨3⟩))) = true := by
    decide +kernel
  obtain ⟨m, _, hall⟩ := (Option.any_eq_true _ _).mp hcheck
  rw [Bool.and_eq_true, Bool.and_eq_true, decide_eq_true_eq, decide_eq_true_eq, refused_iff] at hall
  obtain ⟨hstocked, hrefused, seg, hseg, e, he, hid⟩ := hall
  intro hclaim
  exact ((hclaim _ _ _ _ hstocked).mp hrefused).2 seg hseg e he hid

end
end Woodshed
