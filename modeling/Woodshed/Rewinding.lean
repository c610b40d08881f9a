import Woodshed.Recording
import Woodshed.Refusing
import Woodshed.Surviving

/-! A log that is cut behind one of its entries: where the cut is made, and the store behind it. -/
namespace Woodshed
open Sequencing Framing FrameScanner PartitionPoint

section
variable [Crates]

section
variable {s : Store} {d : Dir} {es : List Entry} {log : SegmentId → List Entry}
  {active target : SegmentEntry} {pre post : List SegmentEntry} {before after : List Entry} {e : Entry}

theorem Session.stocked (h : Session s d es log active) (he : e ∈ liveLog s.state log) :
    Stocked s d log := by
  refine ⟨h.kept.holds, h.whole, h.ordered.liveLog, h.ordered.first, h.ordered.across.isChain, ?_⟩
  rcases h.last with hl | ⟨hnil, _⟩
  · exact hl
  · rw [hnil] at he
    cases he

/-- The recorded first entries ascend, as every sealed segment has an entry. -/
theorem Session.partitioned (h : Session s d es log active) (lastValid : EntryId) :
    Partitioned (fun seg => decide (seg.firstEntry ≤ lastValid)) s.state.segments := by
  have hshape := h.kept.shaped
  have hfull {seg : SegmentEntry} (hseg : seg ∈ s.state.segments.dropLast) : ∃ f, f ∈ log seg.id := by
    obtain ⟨hmem, hne⟩ := hshape.dropLast hseg
    obtain ⟨_, f, _, hf, _⟩ := h.kept.sealsOk.full hshape hmem hne
    exact ⟨f, List.mem_of_getLast? hf⟩
  have hacross := (hshape.pairwise_iff _).mp h.ordered.across
  have hup {a b : SegmentEntry} (ha : a ∈ s.state.segments.dropLast)
      (hab : ∀ f ∈ log a.id, f.1 < b.firstEntry) :
      decide (b.firstEntry ≤ lastValid) = true → decide (a.firstEntry ≤ lastValid) = true := by
    intro hb
    obtain ⟨f, hf⟩ := hfull ha
    have hle := h.ordered.first a (hshape.dropLast ha).1 f hf
    exact decide_eq_true ((hle.trans (hab f hf).le).trans (of_decide_eq_true hb))
  refine (hshape.pairwise_iff _).mpr ⟨?_, fun a ha => hup ha (hacross.2 a ha)⟩
  exact hacross.1.imp_of_mem fun ha _ hab => hup ha hab

theorem Session.recording (h : Session s d es log active) : Recording s d active es := by
  refine ⟨h.upright, h.kept.recorded, h.kept.recorded.manifest, ?_⟩
  rw [h.manifestCursor, List.length_append]
  rfl

/-- Where a stored entry is cut. -/
structure Cutting (s : Store) (log : SegmentId → List Entry) (pre : List SegmentEntry)
    (target : SegmentEntry) (post : List SegmentEntry) (before : List Entry) (e : Entry)
    (after : List Entry) : Prop where
  split : s.state.segments = pre ++ target :: post
  chosen : truncateTarget s.state.segments e.1 = some (target.id, post.map (·.id))
  entries : log target.id = before ++ e :: after

omit [Crates] in
theorem Cutting.mem (hc : Cutting s log pre target post before e after) :
    target ∈ s.state.segments ∧ e ∈ log target.id := by
  rw [hc.split, hc.entries]
  simp

theorem Session.cutting (h : Session s d es log active) (he : e ∈ liveLog s.state log) :
    ∃ pre target post before after, Cutting s log pre target post before e after := by
  obtain ⟨pre, target, post, hsplit, hchosen, hin⟩ :=
    (h.stocked he).found (h.partitioned e.1) he rfl
  obtain ⟨before, after, hlog⟩ := List.append_of_mem hin
  exact ⟨pre, target, post, before, after, hsplit, hchosen, hlog⟩

/-- Where the scan for the cut ends: the frames up to the entry are counted from where it believes to
start. -/
def Store.cutOffset (s : Store) (target : SegmentEntry) (before : List Entry) (e : Entry) : ℕ :=
  startOffset s.index e.1 target.id+(frames.encodeAll (before ++ [e])).length

theorem Session.cutsAt (h : Session s d es log active) (hc : Cutting s log pre target post before e after)
    (hlast : s.lastEntryId ≠ some e.1) :
    CutsAt s d e.1 pre target post (s.cutOffset target before e) := by
  have hmem : target ∈ s.state.segments := by simp [hc.split]
  have hein : e ∈ log target.id := by simp [hc.entries]
  have he : e ∈ liveLog s.state log := List.mem_flatMap.mpr ⟨target, hmem, hein⟩
  have hstocked := h.stocked he
  have hsplit := hc.split
  refine ⟨?_, hsplit, hc.chosen, Or.inl ?_, ?_⟩
  · have hend := List.getLast?_eq_some_getLast (List.ne_nil_of_mem he)
    have hid : s.lastEntryId = some ((liveLog s.state log).getLast (List.ne_nil_of_mem he)).1 := by
      rw [hstocked.last, hend]
      rfl
    have hle := le_of_getLast h.ordered.liveLog hend he
    exact ⟨_, hid, lt_of_le_of_ne hle fun heq => hlast (heq ▸ hid)⟩
  · intro next hnext
    have hacross := h.ordered.across
    rw [hsplit] at hacross
    exact (List.pairwise_cons.mp (List.pairwise_append.mp hacross).2.1).1 next
      (List.mem_of_mem_head? hnext) e hein
  · have hasc := h.ordered.inside target hmem
    have hne : ∀ x ∈ before, x.1 ≠ e.1 := by
      intro x hx
      rw [hc.entries] at hasc
      exact ((List.pairwise_append.mp hasc).2.2 x hx e (by simp)).ne
    have hscan := scanToAfter_facing before e (frames.encodeAll after)
      (startOffset s.index e.1 target.id)
      (fun x hx => h.whole target hmem x (by simp [hc.entries, hx])) (h.whole target hmem e hein) hne
    rw [← frames_encode, ← Grammar.encodeAll_cons, ← Grammar.encodeAll_append, ← hc.entries,
      ← (h.kept.holds.hasSegment hmem).2] at hscan
    exact ⟨_, hscan⟩

omit [Crates] in
/-- The entries up to one of them. -/
theorem filter_upTo {front back : List Entry} (h : (front ++ e :: back).Pairwise fun a b => a.1 < b.1) :
    (front ++ e :: back).filter (fun x => decide (x.1 ≤ e.1)) = front ++ [e] := by
  obtain ⟨_, hback, hfront⟩ := List.pairwise_append.mp h
  rw [List.filter_append, List.filter_cons_of_pos (by simp)]
  have hall : front.filter (fun x => decide (x.1 ≤ e.1)) = front :=
    List.filter_eq_self.mpr fun x hx => decide_eq_true (hfront x hx e (by simp)).le
  have hnone : back.filter (fun x => decide (x.1 ≤ e.1)) = [] := by
    refine List.filter_eq_nil_iff.mpr fun x hx => ?_
    simpa using (List.pairwise_cons.mp hback).1 x hx
  rw [hall, hnone]

omit [Crates] in
/-- Fewer segments, with fewer entries. -/
theorem Ordered.sublist {st st' : StoreState} {log log' : SegmentId → List Entry} (h : Ordered st log)
    (hsegs : st'.segments.Sublist st.segments)
    (hlog : ∀ seg ∈ st'.segments, (log' seg.id).Sublist (log seg.id)) : Ordered st' log' := by
  refine ⟨?_, ?_, ?_⟩
  · exact fun seg hseg => (h.inside seg (hsegs.subset hseg)).sublist (hlog seg hseg)
  · exact fun seg hseg f hf => h.first seg (hsegs.subset hseg) f ((hlog seg hseg).subset hf)
  · refine (h.across.sublist hsegs).imp_of_mem ?_
    exact fun ha _ hab f hf => hab f ((hlog _ ha).subset hf)

/-- A mark that is not behind the cut stays one. -/
theorem Marks.upTo {xs : List Entry} {c : EntryId × ℕ} (h : Marks xs c)
    (hasc : xs.Pairwise fun a b => a.1 < b.1) {id : EntryId} (hle : c.1 ≤ id) :
    Marks (xs.filter fun x => decide (x.1 ≤ id)) c := by
  obtain ⟨front, f, back, rfl, rfl⟩ := h
  refine ⟨front, f, back.filter fun x => decide (x.1 ≤ id), ?_, rfl⟩
  rw [List.filter_append, List.filter_cons_of_pos (by simpa using hle)]
  congr 1
  refine List.filter_eq_self.mpr fun x hx => decide_eq_true ?_
  exact ((List.pairwise_append.mp hasc).2.2 x hx f (by simp)).le.trans hle

section
variable (h : Session s d es log active) (hc : Cutting s log pre target post before e after)
include h hc

theorem Session.target_entries :
    (log target.id).filter (fun x => decide (x.1 ≤ e.1)) = before ++ [e] := by
  have hasc := h.ordered.inside target (by simp [hc.split])
  rw [hc.entries] at hasc ⊢
  exact filter_upTo hasc

/-- In front of the target, segments have other ids; behind it, only larger entries. -/
theorem Session.sides : (∀ seg ∈ pre, seg.id ≠ target.id) ∧
    ∀ seg ∈ post, ∀ f ∈ log seg.id, e.1 < f.1 := by
  have hnd := h.kept.shaped.nodup
  have hacross := h.ordered.across_ids
  rw [hc.split] at hnd hacross
  rw [List.map_append, List.map_cons, List.nodup_append] at hnd
  refine ⟨fun seg hseg => hnd.2.2 _ (List.mem_map_of_mem hseg) _ (by simp), fun seg hseg f hf => ?_⟩
  exact (List.pairwise_cons.mp (List.pairwise_append.mp hacross).2.1).1 seg hseg e
    (by simp [hc.entries]) f hf

/-- The live entries when the target has others. -/
theorem Session.liveLog_update (ys : List Entry) :
    liveLog s.state (Function.update log target.id ys) =
      pre.flatMap (fun seg => log seg.id) ++ (ys ++ post.flatMap fun seg => log seg.id) ∧
    liveLog (cutState s.state target (post.map (·.id))) (Function.update log target.id ys) =
      pre.flatMap (fun seg => log seg.id) ++ ys := by
  have hnd := h.kept.shaped.nodup
  rw [hc.split, List.map_append, List.map_cons, List.nodup_append, List.nodup_cons] at hnd
  have hpre : pre.flatMap (fun seg => Function.update log target.id ys seg.id) =
      pre.flatMap fun seg => log seg.id :=
    List.flatMap_congr fun seg hseg => Function.update_of_ne ((h.sides hc).1 seg hseg) _ _
  have hpost : post.flatMap (fun seg => Function.update log target.id ys seg.id) =
      post.flatMap fun seg => log seg.id := by
    refine List.flatMap_congr fun seg hseg => Function.update_of_ne (fun hid => ?_) _ _
    exact hnd.2.1.1 (hid ▸ List.mem_map_of_mem hseg)
  constructor
  · rw [liveLog, hc.split, List.flatMap_append, List.flatMap_cons, hpre, hpost, Function.update_self]
  · rw [liveLog, segments_cutState h.kept.shaped.nodup hc.split, List.flatMap_append,
      List.flatMap_singleton, hpre, Function.update_self]

theorem Session.liveLog_eq : liveLog s.state log =
    pre.flatMap (fun seg => log seg.id) ++ (log target.id ++ post.flatMap fun seg => log seg.id) := by
  have hupdate := (h.liveLog_update hc (log target.id)).1
  rwa [Function.update_eq_self] at hupdate

/-- What is live behind the cut are the entries up to it. -/
theorem Session.liveLog_cut :
    liveLog (cutState s.state target (post.map (·.id)))
        (Function.update log target.id (before ++ [e])) =
      (liveLog s.state log).filter fun x => decide (x.1 ≤ e.1) := by
  have hlive : liveLog s.state log = (pre.flatMap (fun seg => log seg.id) ++ before) ++
      e :: (after ++ post.flatMap fun seg => log seg.id) := by
    rw [h.liveLog_eq hc, hc.entries]
    simp
  have hasc := h.ordered.liveLog
  rw [hlive] at hasc ⊢
  rw [filter_upTo hasc, (h.liveLog_update hc _).2, List.append_assoc]

theorem Session.index_cut : IndexOk (s.index.truncateEnd e.1)
    (cutState s.state target (post.map (·.id))) (Function.update log target.id (before ++ [e])) := by
  obtain ⟨hsorted, hwithin⟩ := h.index.sorted.truncateEnd e.1
  obtain ⟨hpre, hpost⟩ := h.sides hc
  have hnd := h.kept.shaped.nodup
  -- a checkpoint up to the cut is one of a segment that stays
  have hstays {t : SegmentId × SegmentIndex} (ht : t ∈ s.index.segments) {c : EntryId × ℕ}
      (hcin : c ∈ t.2.checkpoints) (hle : c.1 ≤ e.1) : ∃ seg ∈ pre ++ [target], seg.id = t.1 := by
    obtain ⟨seg, hseg, hid⟩ := (lists_iff _ _).mp (h.index.live t ht (List.ne_nil_of_mem hcin))
    rw [hc.split, List.append_cons, List.mem_append] at hseg
    refine ⟨seg, hseg.resolve_right fun hback => ?_, hid⟩
    obtain ⟨f, hf, hcf⟩ := (h.index.marks t ht c hcin).mem
    exact absurd (hcf ▸ hle) (not_le.mpr (hpost seg hback f (hid ▸ hf)))
  refine ⟨hsorted, ?_, ?_⟩
  · intro x hx hne
    obtain ⟨t, ht, hid, hsub⟩ := hwithin x hx
    obtain ⟨c, hcin⟩ := List.exists_mem_of_ne_nil _ hne
    obtain ⟨hct, hle⟩ := hsub c hcin
    obtain ⟨seg, hseg, hsegid⟩ := hstays ht hct hle
    rw [hid, ← hsegid]
    refine lists_of_mem ?_
    rw [segments_cutState hnd hc.split]
    exact hseg
  · intro x hx c hcin
    obtain ⟨t, ht, hid, hsub⟩ := hwithin x hx
    obtain ⟨hct, hle⟩ := hsub c hcin
    obtain ⟨seg, hseg, hsegid⟩ := hstays ht hct hle
    have hmarks := h.index.marks t ht c hct
    rw [hid]
    rcases List.mem_append.mp hseg with hseg | hseg
    · rw [Function.update_of_ne (hsegid ▸ hpre seg hseg)]
      exact hmarks
    · rw [List.mem_singleton.mp hseg] at hsegid
      rw [← hsegid] at hmarks ⊢
      rw [Function.update_self, ← h.target_entries hc]
      exact hmarks.upTo (h.ordered.inside target (by simp [hc.split])) hle

/-- The recorded sizes are those of segments that stay as they are. -/
theorem Session.sealsOk_cut : SealsOk (cutState s.state target (post.map (·.id)))
    (Function.update log target.id (before ++ [e])) := by
  obtain ⟨hpre, _⟩ := h.sides hc
  intro seg hseg info hi
  change Function.update (killed s.state (post.map (·.id))).seals target.id none seg.id = some info at hi
  rw [segments_cutState h.kept.shaped.nodup hc.split, List.mem_append, List.mem_singleton] at hseg
  rcases hseg with hseg | rfl
  · rw [Function.update_of_ne (hpre seg hseg)] at hi ⊢
    refine h.kept.sealsOk seg (by simp [hc.split, hseg]) info ?_
    change (if seg.id ∈ post.map (·.id) then none else s.state.seals seg.id) = some info at hi
    by_cases hin : seg.id ∈ post.map (·.id)
    · rw [if_pos hin] at hi
      cases hi
    · rwa [if_neg hin] at hi
  · rw [Function.update_self] at hi
    cases hi

/-- The files when the target is cut and nothing is recorded yet. -/
theorem Session.holds_unrecorded : Holds (d.cut target (segmentEnd (before ++ [e]))) s.state
    (Function.update log target.id (before ++ [e])) := by
  have hmem : target ∈ s.state.segments := by simp [hc.split]
  have hoff : magicLen ≤ segmentEnd (before ++ [e]) := Nat.le_add_right _ _
  intro seg hseg
  by_cases heq : seg = target
  · rw [heq, Dir.cut, Dir.bytes_sync, Dir.bytes_setLen, if_pos rfl, h.kept.holds target hmem,
      Option.map_some, resize_magic _ hoff, hc.entries, Function.update_self, segmentEnd,
      Nat.add_sub_cancel_left, List.append_cons before e after, Grammar.encodeAll_append,
      resize_of_le _ _ (by simp), List.take_left]
  · have hid : seg.id ≠ target.id := fun hid => heq (h.kept.shaped.inj hseg hmem hid)
    rw [Dir.cut, (d.differs_setLen_sync _ _).bytes _ fun hpath => hid (segmentPath_injective hpath),
      Function.update_of_ne hid]
    exact h.kept.holds seg hseg

/-- The files behind a cut at the end of the entry. -/
theorem Session.holds_cut (pos : ℕ) (op : ManifestOp) :
    Holds ((d.cut target (segmentEnd (before ++ [e]))).appended pos op)
      (cutState s.state target (post.map (·.id))) (Function.update log target.id (before ++ [e])) := by
  have hdiff := (d.cut target (segmentEnd (before ++ [e]))).differs_appended pos op
  intro seg hseg
  rw [hdiff.bytes _ (segmentPath_ne_manifest _)]
  exact h.holds_unrecorded hc seg (mem_killed hseg)

/-- The store behind a cut at the end of the entry is as good as any. -/
theorem Session.cut (hlast : s.lastEntryId ≠ some e.1)
    (hstart : startOffset s.index e.1 target.id = magicLen)
    (hfit : Fits (opFrame (cutOp target (segmentEnd (before ++ [e])) (post.map (·.id))))) :
    ∃ es', Session (s.cut target (segmentEnd (before ++ [e])) (post.map (·.id)) e.1)
      ((d.cut target (segmentEnd (before ++ [e]))).appended s.manifestCursor.position
        (cutOp target (segmentEnd (before ++ [e])) (post.map (·.id)))) es'
      (Function.update log target.id (before ++ [e])) target := by
  have hcut := h.cutsAt hc hlast
  rw [Store.cutOffset, hstart, ← segmentEnd] at hcut
  obtain ⟨_, hup, hlogged⟩ := h.upright.cut hcut
  obtain ⟨es', hrec⟩ := h.recording.logged hup hlogged (by simpa using hfit)
  set off := segmentEnd (before ++ [e]) with hoff
  set drop := post.map (·.id) with hdrop
  set log' := Function.update log target.id (before ++ [e]) with hlog'
  have hsegs := segments_cutState h.kept.shaped.nodup hc.split
  obtain ⟨hpre, _⟩ := h.sides hc
  have hknown (id : SegmentId) : (cutState s.state target drop).lists id = true ∨
      id ∈ (cutState s.state target drop).dead → s.state.lists id = true ∨ id ∈ s.state.dead := by
    refine (known_killed ?_ id).mp
    intro id hid
    obtain ⟨seg, hseg, rfl⟩ := List.mem_map.mp hid
    exact lists_of_mem (by simp [hc.split, hseg])
  have hsub : ∀ seg ∈ (cutState s.state target drop).segments,
      (log' seg.id).Sublist (log seg.id) := by
    intro seg hseg
    rw [hsegs, List.mem_append, List.mem_singleton] at hseg
    rcases hseg with hseg | rfl
    · rw [hlog', Function.update_of_ne (hpre seg hseg)]
    · rw [hlog', Function.update_self, ← h.target_entries hc]
      exact List.filter_sublist
  have hshort : (cutState s.state target drop).segments.Sublist s.state.segments := by
    rw [hsegs, hc.split]
    exact (List.Sublist.refl pre).append (List.cons_sublist_cons.mpr (List.nil_sublist post))
  have hkept : Kept ((d.cut target off).appended s.manifestCursor.position (cutOp target off drop)) es'
      (cutState s.state target drop) log' target :=
    ⟨hup.present, hrec.recorded, hup.shaped, h.holds_cut hc _ _, h.sealsOk_cut hc, hup.filed,
      fun id hid => h.kept.room id (hknown id hid)⟩
  have hrunning : Running (s.cut target off drop e.1)
      ((d.cut target off).appended s.manifestCursor.position (cutOp target off drop)) es' log' target := by
    refine ⟨hkept, ?_, rfl, rfl, ?_, fun id hid => h.next id (hknown id hid), ?_, Or.inl ?_⟩
    · rw [hrec.manifest.cursor, List.length_append]
      rfl
    · rw [hlog', Function.update_self]
      rfl
    · intro hp
      cases hp
    · change some e.1 = (liveLog (cutState s.state target drop) log').getLast?.map (·.1)
      rw [liveLog, hsegs, List.flatMap_append, List.flatMap_singleton, hlog', Function.update_self,
        ← List.append_assoc, List.getLast?_concat]
      rfl
  refine ⟨es', hrunning, ?_, h.ordered.sublist hshort hsub, h.index_cut hc, rfl, ?_⟩
  · exact fun seg hseg f hf => h.whole seg (hshort.subset hseg) f ((hsub seg hseg).subset hf)
  · intro hnil
    rw [hlog', Function.update_self] at hnil
    simp at hnil

end

end
end
end Woodshed
