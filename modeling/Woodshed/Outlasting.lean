import Woodshed.Interrupting
import Woodshed.Keeping

/-! `truncate_end` through crashes: when what a crash leaves of it opens to the entries from before or
to those that were to be kept. -/
namespace Woodshed
open Sequencing Framing FrameScanner

section
variable [Crates]

/-- A directory opens without approval, and stored are just these entries. -/
def OpensTo (d : Dir) (xs : List Entry) : Prop :=
  ∀ cfg, ∃ s w, Store.openStore cfg (calm d) = .ok s w ∧ Machine.Holds ⟨s, w⟩ xs

/-- Wherever `truncate_end` is interrupted, the directory opens without approval, and stored are the
entries from before or those up to the last valid one. -/
def CrashAtomic (m : Machine) (log : SegmentId → List Entry) (lastValid : EntryId) : Prop :=
  ∀ eff, OpensTo (m.cutShort lastValid eff) (liveLog m.store.state log) ∨
    OpensTo (m.cutShort lastValid eff)
      ((liveLog m.store.state log).filter fun e => decide (e.1 ≤ lastValid))

/-- The entries of a segment that are behind one of them. -/
def entriesBehind (e : Entry) (xs : List Entry) : List Entry := xs.filter fun x => decide (e.1 < x.1)

/-- The entries whose frames fit in `n` bytes, one behind the other. What is left of the bytes behind the
last frame are zeros, which are read as such. -/
def wholeWithin (n : ℕ) : List Entry → List Entry
  | [] => (frames.decode (List.replicate n 0)).items
  | x :: xs =>
    if (frames.encode x).length ≤ n then x :: wholeWithin (n-(frames.encode x).length) xs else []

omit [Crates] in
/-- How many bytes of a segment's frames are in front of the checkpoint from which an entry is
searched. -/
def Store.skipped (s : Store) (e : Entry) (id : SegmentId) : ℕ := startOffset s.index e.1 id-magicLen

/-- What is in front of the checkpoint is counted twice: as many bytes stay behind the entry. In the
active segment they have to hold none of the entries there, or all. A sealed segment has to end with
the entry, and nothing may stay behind it. -/
def Store.CutsClean (s : Store) (log : SegmentId → List Entry) (e : Entry) : Prop :=
  ∀ seg ∈ s.state.segments, e ∈ log seg.id →
    if seg.id = s.activeId then
      wholeWithin (s.skipped e seg.id) (entriesBehind e (log seg.id)) = [] ∨
        wholeWithin (s.skipped e seg.id) (entriesBehind e (log seg.id)) = entriesBehind e (log seg.id)
    else s.skipped e seg.id = 0 ∧ entriesBehind e (log seg.id) = []

/-! ### What an open makes of it -/

/-- What an open makes of what is nearly clean. -/
theorem Nearly.opened {d : Dir} {es : List Entry} {st : StoreState}
    {log : SegmentId → List Entry} {active : SegmentEntry} (h : Nearly d es st log active)
    (ho : Ordered st log) (cfg : StoreCfg) : ∃ s w, Store.openStore cfg (calm d) = .ok s w ∧
      s.firstEntryId = st.firstEntry ∧ Machine.Holds ⟨s, w⟩ (liveLog st log) := by
  obtain ⟨s, d', es', hopen, hclean, hst, _, s', hopen', heq⟩ := h.openStore cfg
  rw [heq] at hopen'
  have hsegs : s.state.segments = st.segments := by rw [hst]
  have hhead : s.state.firstEntry = st.firstEntry := by rw [hst]
  have ho' : Ordered s.state log := ho.sublist (by rw [hsegs]) fun _ _ => List.Sublist.refl _
  obtain ⟨s'', hopen'', hs', _⟩ := hclean.readable ho' cfg
  rw [hopen'] at hopen''
  obtain ⟨rfl, _⟩ := EStateM.Result.ok.inj hopen''
  have hholds := hs'.holds
  rw [liveLog, hsegs] at hholds
  exact ⟨s, calm d', hopen, hhead, hholds⟩

/-- What is nearly clean opens to its entries. -/
theorem Nearly.opensTo {d : Dir} {es : List Entry} {st : StoreState}
    {log : SegmentId → List Entry} {active : SegmentEntry} (h : Nearly d es st log active)
    (ho : Ordered st log) : OpensTo d (liveLog st log) := by
  intro cfg
  obtain ⟨s, w, hopen, _, hholds⟩ := h.opened ho cfg
  exact ⟨s, w, hopen, hholds⟩

/-- What an open finds are the valid frames of the live segments. -/
theorem Recorded.eq_of_opensTo {d : Dir} {es : List Entry} {st : StoreState}
    {log : SegmentId → List Entry} {active : SegmentEntry} {xs : List Entry} (hr : Recorded d es st)
    (hshape : Shaped st active)
    (hvalid : ∀ seg ∈ st.segments, validPrefix (body d seg.id) = frames.encodeAll (log seg.id))
    (hwhole : Whole st log) (hopens : OpensTo d xs) : Layout d es [] st ∧ xs = liveLog st log := by
  obtain ⟨s, w, hopen, hx⟩ := hopens ⟨0⟩
  obtain ⟨_, _, _, hlayout⟩ := layout_of_isAuto (isAuto_of_openStore hopen)
  have hl := hlayout.of_recorded hr
  obtain ⟨d', es', st', report, htodo, ht, _, _, _, hopen'⟩ := hl.openStore_ok ⟨0⟩ hshape.activeSegment
  rw [hopen] at hopen'
  obtain ⟨rfl, rfl⟩ := EStateM.Result.ok.inj hopen'
  obtain ⟨log', hlogs, rfl⟩ := hx.files
  have hsegs : (storeOf ⟨0⟩ (survey d') active report).state.segments = st.segments := by
    rw [storeOf, htodo.layout.survey_eq, ht.state]
  have hsame : ∀ seg ∈ st.segments, log' seg.id = log seg.id := by
    intro seg hseg
    obtain ⟨hfit, hbytes⟩ := hlogs seg (by rw [hsegs]; exact hseg)
    have hbody : body d' seg.id = frames.encodeAll (log' seg.id) := body_eq hbytes
    have hcuts := ht.cuts seg hseg
    have hdec := frames.decode_encodeAll (log seg.id) (hwhole seg hseg)
    have hdec' := frames.decode_encodeAll (log' seg.id) hfit
    rw [hbody, hvalid seg hseg, validPrefix_of_clean (by rw [hdec'])] at hcuts
    rw [hcuts, hdec] at hdec'
    exact (congrArg (fun D => D.items) hdec').symm
  refine ⟨hl, ?_⟩
  rw [← liveLog_congr hsame, liveLog, liveLog, hsegs]

/-- A sync makes no difference to a reader. -/
theorem Clean.unsynced {d : Dir} {es : List Entry} {st : StoreState} {log : SegmentId → List Entry}
    {active : SegmentEntry} {name : FileName} (h : Clean (d.sync name) es st log active) :
    Clean d es st log active := by
  refine h.congr ?_ ?_ ?_
  · rw [Dir.sync, Dir.present_edit]
  · exact fun other => (Dir.bytes_sync d name other).symm
  · exact fun other => (Dir.mem_edit d name other _).symm

theorem Recorded.unsynced {d : Dir} {es : List Entry} {st : StoreState} {name : FileName}
    (h : Recorded (d.sync name) es st) : Recorded d es st := by
  refine ⟨?_, h.fits, h.replays⟩
  rw [← Dir.bytes_sync d name]
  exact h.manifest

omit [Crates] in
/-- The segment files are those of a cut. -/
structure Dir.CutFiles (d d' : Dir) (target : SegmentEntry) (off : ℕ) : Prop where
  present : d'.present = d.present
  mem : ∀ name, name ∈ d'.files ↔ name ∈ d.files
  bytes : ∀ id, d'.bytes (segmentPath id) = (d.cut target off).bytes (segmentPath id)

section
variable {d d' : Dir} {target : SegmentEntry} {off : ℕ}

omit [Crates] in
theorem Dir.cutFiles_cut (d : Dir) (target : SegmentEntry) (off : ℕ) :
    d.CutFiles (d.cut target off) target off := by
  have hdiff := d.differs_setLen_sync (segmentPath target.id) off
  exact ⟨hdiff.present, hdiff.mem, fun _ => rfl⟩

theorem Dir.cutFiles_appended (d : Dir) (target : SegmentEntry) (off pos : ℕ) (op : ManifestOp) :
    d.CutFiles ((d.cut target off).appended pos op) target off := by
  have hcut := d.differs_setLen_sync (segmentPath target.id) off
  have hdiff := (d.cut target off).differs_appended pos op
  exact ⟨hdiff.present.trans hcut.present, fun name => (hdiff.mem name).trans (hcut.mem name),
    fun id => hdiff.bytes _ (segmentPath_ne_manifest id)⟩

omit [Crates] in
theorem Dir.CutFiles.unsynced {name : FileName} (h : d.CutFiles (d'.sync name) target off) :
    d.CutFiles d' target off := by
  refine ⟨?_, fun other => ?_, fun id => ?_⟩
  · rw [← h.present, Dir.sync, Dir.present_edit]
  · rw [← h.mem other, Dir.sync, Dir.mem_edit]
  · rw [← h.bytes id, Dir.bytes_sync]

end

omit [Crates] in
theorem resize_append (xs ys : Bytes) (n : ℕ) :
    resize (xs ++ ys) (xs.length+n) = xs ++ resize ys n := by
  have hrest : xs.length+n-(xs.length+ys.length) = n-ys.length := by omega
  rw [resize, resize, List.length_append, hrest, List.append_assoc, List.take_length_add_append]

/-- A frame that is cut short is not read, nor is what was behind it. -/
theorem decode_resize {xs : List Entry} (hf : ∀ x ∈ xs, Fits x) (n : ℕ) :
    (frames.decode (resize (frames.encodeAll xs) n)).items = wholeWithin n xs := by
  induction xs generalizing n with
  | nil => simp [wholeWithin, resize]
  | cons x xs ih =>
    obtain ⟨hx, hxs⟩ := List.forall_mem_cons.mp hf
    rw [wholeWithin, Grammar.encodeAll_cons]
    split
    · rename_i hle
      obtain ⟨k, rfl⟩ := Nat.exists_eq_add_of_le hle
      have hone : frames.encode x = frames.encodeAll [x] := by simp
      rw [resize_append, hone,
        frames.decode_encodeAll_append [x] _ (List.forall_mem_singleton.mpr hx), ← hone,
        Nat.add_sub_cancel_left, ← ih hxs]
      rfl
    · rename_i hlt
      -- the frame is cut short, and no frame is found in front of it
      have hcut : resize (frames.encode x ++ frames.encodeAll xs) n = (frames.encode x).take n := by
        rw [resize_of_le _ _ (by rw [List.length_append]; omega),
          List.take_append_of_le_length (by omega)]
      rw [hcut]
      by_cases hnil : (frames.encode x).take n = []
      · rw [hnil, Grammar.decode_nil]
      · have hshort : (frames.encode x).take n ≠ frames.encode x := by
          rw [Ne, List.take_eq_self_iff]
          exact hlt
        rw [Grammar.decode_torn (frames.head_torn x _ hx (List.take_prefix n _) hnil hshort)]
omit [Crates] in
/-- A cut of the active segment leaves the state. -/
theorem cutState_active {st : StoreState} {active : SegmentEntry} (h : Shaped st active) :
    cutState st active [] = st := by
  have hseals : Function.update (killed st []).seals active.id none = st.seals := by
    ext1 id
    by_cases hid : id = active.id
    · rw [hid, Function.update_self, h.unsealed]
    · rw [Function.update_of_ne hid]
      rfl
  have hsegs : (killed st []).segments = st.segments := List.filter_eq_self.mpr fun _ _ => rfl
  have hdead : (killed st []).dead = st.dead := Finset.empty_union _
  rw [cutState, hseals, ← h.activeId]
  exact StoreState.mk.injEq .. ▸ ⟨hsegs, rfl, rfl, hdead, rfl, rfl⟩

section
variable {s : Store} {d d' : Dir} {es es' : List Entry} {log : SegmentId → List Entry}
  {active target : SegmentEntry} {pre post : List SegmentEntry} {before after xs : List Entry}
  {e : Entry}

theorem Session.opensTo (h : Session s d es log active) : OpensTo d (liveLog s.state log) := by
  intro cfg
  obtain ⟨s', hopen, hs', _, hst, _⟩ := h.reopen cfg
  rw [← hst]
  exact ⟨s', calm d, hopen, hs'.holds⟩

/-- Where nothing is cut, every crash leaves the store as it was. -/
theorem Session.crashAtomic_last (h : Session s d es log active) (hlast : s.lastEntryId = some e.1) :
    CrashAtomic ⟨s, calm d⟩ log e.1 := by
  intro eff
  have hall : s.lastEntryId.all (fun last => decide (last ≤ e.1)) = true := by
    rw [hlast]
    simp
  have hbeyond := Store.truncateEnd_beyond (stopping d eff.call) hall
  have hshort : Machine.cutShort ⟨s, calm d⟩ e.1 eff = d :=
    congrArg (fun r : Outcome × Machine => r.2.world.dir) (outcomeOf_ok hbeyond)
  rw [hshort]
  exact Or.inl h.opensTo

/-- What the target has when it is cut. -/
def Store.leftIn (s : Store) (target : SegmentEntry) (before : List Entry) (e : Entry)
    (after : List Entry) : List Entry :=
  before ++ [e] ++ wholeWithin (s.skipped e target.id) after

theorem Session.cutOffset_eq (h : Session s d es log active) (target : SegmentEntry)
    (before : List Entry) (e : Entry) :
    s.cutOffset target before e = segmentEnd (before ++ [e])+s.skipped e target.id := by
  have hle := magicLen_le_startOffset e.1 target.id h.upright.offsets
  rw [Store.cutOffset, Store.skipped, segmentEnd]
  omega

theorem Session.recorded_unrecorded (h : Session s d es log active) (target : SegmentEntry) (off : ℕ) :
    Recorded (d.cut target off) es s.state := by
  refine ⟨?_, h.kept.recorded.fits, h.kept.recorded.replays⟩
  rw [Dir.cut, (d.differs_setLen_sync _ _).bytes _ (segmentPath_ne_manifest _).symm]
  exact h.kept.recorded.manifest

section
variable (h : Session s d es log active) (hc : Cutting s log pre target post before e after)
include h hc

theorem Session.entriesBehind_eq : entriesBehind e (log target.id) = after := by
  have hasc := h.ordered.inside target (hc.mem).1
  rw [hc.entries] at hasc ⊢
  obtain ⟨_, hback, hfront⟩ := List.pairwise_append.mp hasc
  have hnone : before.filter (fun x => decide (e.1 < x.1)) = [] :=
    List.filter_eq_nil_iff.mpr fun x hx => by simpa using (hfront x hx e (by simp)).le
  have hall : after.filter (fun x => decide (e.1 < x.1)) = after :=
    List.filter_eq_self.mpr fun x hx => decide_eq_true ((List.pairwise_cons.mp hback).1 x hx)
  rw [entriesBehind, List.filter_append, List.filter_cons_of_neg (by simp), hnone, hall,
    List.nil_append]

theorem Session.whole_after : ∀ x ∈ after, Fits x := fun x hx =>
  h.whole target (hc.mem).1 x (by rw [hc.entries]; simp [hx])

/-- The files when the target is cut. -/
theorem Session.body_cutFiles (hd : d.CutFiles d' target (s.cutOffset target before e))
    {seg : SegmentEntry} (hseg : seg ∈ s.state.segments) :
    HasSegment d' seg.id ∧ body d' seg.id =
      if seg.id = target.id then frames.encodeAll (before ++ [e]) ++
        resize (frames.encodeAll after) (s.skipped e target.id)
      else frames.encodeAll (log seg.id) := by
  have hmem := (hc.mem).1
  have hoff : magicLen ≤ s.cutOffset target before e := by
    rw [h.cutOffset_eq target before e, segmentEnd]
    omega
  by_cases hid : seg.id = target.id
  · have hlen : s.cutOffset target before e-magicLen =
        (frames.encodeAll (before ++ [e])).length+s.skipped e target.id := by
      rw [h.cutOffset_eq target before e, segmentEnd]
      omega
    have hbytes := hd.bytes target.id
    rw [Dir.cut, Dir.bytes_sync, Dir.bytes_setLen, if_pos rfl, h.kept.holds target hmem,
      Option.map_some, resize_magic _ hoff, hlen, hc.entries, List.append_cons before e after,
      Grammar.encodeAll_append, resize_append] at hbytes
    rw [if_pos hid, hid]
    exact ⟨hasSegment_of hbytes, body_eq hbytes⟩
  · have hbytes := hd.bytes seg.id
    rw [Dir.cut, (d.differs_setLen_sync _ _).bytes _ fun hpath => hid (segmentPath_injective hpath),
      h.kept.holds seg hseg] at hbytes
    rw [if_neg hid]
    exact ⟨hasSegment_of hbytes, body_eq hbytes⟩

theorem Session.valid_cutFiles (hd : d.CutFiles d' target (s.cutOffset target before e))
    {seg : SegmentEntry} (hseg : seg ∈ s.state.segments) :
    validPrefix (body d' seg.id) =
      frames.encodeAll (Function.update log target.id (s.leftIn target before e after) seg.id) := by
  rw [(h.body_cutFiles hc hd hseg).2]
  by_cases hid : seg.id = target.id
  · have hf : ∀ x ∈ before ++ [e], Fits x := fun x hx =>
      h.whole target (hc.mem).1 x (by rw [hc.entries]; simp at hx ⊢; tauto)
    rw [if_pos hid, hid, Function.update_self, validPrefix, frames.decode_encodeAll_append _ _ hf,
      decode_resize (h.whole_after hc), Store.leftIn]
  · rw [if_neg hid, Function.update_of_ne hid, validPrefix_of_clean]
    rw [frames.decode_encodeAll _ (h.whole seg hseg)]

theorem Session.whole_leftIn :
    Whole s.state (Function.update log target.id (s.leftIn target before e after)) := by
  intro seg hseg f hf
  by_cases hid : seg.id = target.id
  · rw [hid, Function.update_self, Store.leftIn] at hf
    rcases List.mem_append.mp hf with hf | hf
    · exact h.whole target (hc.mem).1 f (by rw [hc.entries]; simp at hf ⊢; tauto)
    · rw [← decode_resize (h.whole_after hc)] at hf
      exact (frames.decode_sound _).2.1 f hf
  · rw [Function.update_of_ne hid] at hf
    exact h.whole seg hseg f hf

theorem Session.upTo_eq : (liveLog s.state log).filter (fun x => decide (x.1 ≤ e.1)) =
    pre.flatMap (fun seg => log seg.id) ++ (before ++ [e]) :=
  (h.liveLog_cut hc).symm.trans (h.liveLog_update hc _).2

/-- The active segment is the last one. -/
theorem Session.active_mem : if target = active then post = [] else active ∈ post := by
  have hlast := h.kept.shaped.last
  rw [hc.split, List.getLast?_append_of_ne_nil _ (by simp)] at hlast
  have hnd := h.kept.shaped.nodup
  rw [hc.split, List.map_append, List.map_cons, List.nodup_append, List.nodup_cons] at hnd
  split
  · rename_i htarget
    by_contra hne
    rw [List.getLast?_cons_of_ne_nil hne, ← htarget] at hlast
    exact hnd.2.1.1 (List.mem_map_of_mem (List.mem_of_getLast? hlast))
  · rename_i htarget
    rcases List.mem_cons.mp (List.mem_of_getLast? hlast) with heq | hpost
    · exact absurd heq.symm htarget
    · exact hpost

/-- The active segment has entries, if any has. -/
theorem Session.active_ne_nil : log active.id ≠ [] := by
  intro hnil
  obtain ⟨hmem, hin⟩ := hc.mem
  rw [(h.start hnil).1] at hmem
  rw [List.mem_singleton.mp hmem, hnil] at hin
  cases hin

theorem Session.recorded_cut (hlast : s.lastEntryId ≠ some e.1)
    (hrec : (Command.truncateEnd e.1).Recordable ⟨s, calm d⟩) : ∃ es',
    Recorded ((d.cut target (s.cutOffset target before e)).appended s.manifestCursor.position
      (cutOp target (s.cutOffset target before e) (post.map (·.id)))) es'
      (cutState s.state target (post.map (·.id))) := by
  have hcut := h.cutsAt hc hlast
  obtain ⟨_, hup, hlogged⟩ := h.upright.cut hcut
  have hfit : Fits (opFrame (cutOp target (s.cutOffset target before e) (post.map (·.id)))) :=
    hrec _ (h.upright.recorded_cut hcut)
  obtain ⟨es', hr⟩ := h.recording.logged hup hlogged (by simpa using hfit)
  exact ⟨es', hr.recorded⟩

/-! ### The active segment -/

/-- An active segment that is cut is mended by an open. -/
theorem Session.nearly_cut (htarget : target = active)
    (hd : d.CutFiles d' target (s.cutOffset target before e)) (hr : Recorded d' es' s.state) :
    Nearly d' es' s.state (Function.update log target.id (s.leftIn target before e after)) active := by
  refine ⟨hd.present.trans h.kept.present, hr, h.kept.shaped,
    fun seg hseg => (h.body_cutFiles hc hd hseg).1, ?_, ?_, ?_, ?_, h.kept.room, h.whole_leftIn hc⟩
  · intro seg hseg hne
    have hid : seg.id ≠ target.id := fun hid => hne (h.kept.shaped.inj hseg h.kept.shaped.mem
      (htarget ▸ hid))
    rw [(h.body_cutFiles hc hd hseg).2, if_neg hid, Function.update_of_ne hid]
  · exact h.valid_cutFiles hc hd h.kept.shaped.mem
  · intro seg hseg info hi
    have hne : seg.id ≠ target.id := by
      intro hid
      rw [hid, htarget, h.kept.shaped.unsealed] at hi
      cases hi
    rw [Function.update_of_ne hne]
    exact h.kept.sealsOk seg hseg info hi
  · exact fun name hname => h.kept.filed.known name ((hd.mem name).mp hname)

theorem Session.opensTo_cut (htarget : target = active)
    (hd : d.CutFiles d' target (s.cutOffset target before e)) (hr : Recorded d' es' s.state)
    (hleft : wholeWithin (s.skipped e target.id) after = [] ∨
      wholeWithin (s.skipped e target.id) after = after) :
    OpensTo d' (liveLog s.state log) ∨
      OpensTo d' ((liveLog s.state log).filter fun x => decide (x.1 ≤ e.1)) := by
  have hnearly := h.nearly_cut hc htarget hd hr
  rcases hleft with hnone | hall
  · right
    have hpost := h.active_mem hc
    rw [if_pos htarget] at hpost
    have hlive := (h.liveLog_update hc (before ++ [e])).1
    rw [hpost, List.flatMap_nil, List.append_nil, ← h.upTo_eq hc] at hlive
    rw [Store.leftIn, hnone, List.append_nil] at hnearly
    rw [← hlive]
    refine hnearly.opensTo (h.ordered.sublist (List.Sublist.refl _) fun seg _ => ?_)
    by_cases hid : seg.id = target.id
    · rw [hid, Function.update_self, ← h.target_entries hc]
      exact List.filter_sublist
    · rw [Function.update_of_ne hid]
  · left
    have hsame : s.leftIn target before e after = log target.id := by
      rw [Store.leftIn, hall, hc.entries, ← List.append_cons]
    rw [hsame, Function.update_eq_self] at hnearly
    exact hnearly.opensTo h.ordered

theorem Session.crashAtomic_active (htarget : target = active) (hlast : s.lastEntryId ≠ some e.1)
    (hrec : (Command.truncateEnd e.1).Recordable ⟨s, calm d⟩)
    (hleft : wholeWithin (s.skipped e target.id) after = [] ∨
      wholeWithin (s.skipped e target.id) after = after) : CrashAtomic ⟨s, calm d⟩ log e.1 := by
  have hcut := h.cutsAt hc hlast
  have hpost := h.active_mem hc
  rw [if_pos htarget] at hpost
  have hstate : cutState s.state target (post.map (·.id)) = s.state := by
    rw [hpost, htarget]
    exact cutState_active h.kept.shaped
  have hr := h.recorded_unrecorded target (s.cutOffset target before e)
  obtain ⟨es', hr'⟩ := h.recorded_cut hc hlast hrec
  rw [hstate] at hr'
  have hbetween := d.cutFiles_cut target (s.cutOffset target before e)
  have hbehind := d.cutFiles_appended target (s.cutOffset target before e) s.manifestCursor.position
    (cutOp target (s.cutOffset target before e) (post.map (·.id)))
  intro eff
  rw [h.upright.cutShort hcut eff]
  unfold Effect.leavesCut
  split
  · exact Or.inl h.opensTo
  · exact h.opensTo_cut hc htarget hbetween.unsynced hr.unsynced hleft
  · exact h.opensTo_cut hc htarget hbetween hr hleft
  · exact h.opensTo_cut hc htarget hbehind.unsynced hr'.unsynced hleft
  · exact h.opensTo_cut hc htarget hbehind hr' hleft

/-! ### A sealed segment -/

/-- A cut behind the last frame of a segment changes nothing. -/
theorem Session.clean_end (hd : d.CutFiles d' target (s.cutOffset target before e))
    (hr : Recorded d' es s.state) (hskipped : s.skipped e target.id = 0) (hafter : after = []) :
    Clean d' es s.state log active := by
  refine ⟨⟨hd.present.trans h.kept.present, hr, h.kept.shaped, fun seg hseg => ?_, h.kept.sealsOk,
    ⟨fun name hname => h.kept.filed.known name ((hd.mem name).mp hname),
      fun id hid => (hd.mem _).mpr (h.kept.filed.found id hid)⟩, h.kept.room⟩, h.whole⟩
  obtain ⟨hfile, hbody⟩ := h.body_cutFiles hc hd hseg
  have hsame : body d' seg.id = frames.encodeAll (log seg.id) := by
    rw [hbody]
    by_cases hid : seg.id = target.id
    · rw [if_pos hid, hid, hc.entries, hafter, hskipped]
      simp [resize]
    · rw [if_neg hid]
  rw [HasSegment, hsame] at hfile
  exact hfile

theorem Session.crashAtomic_end (hlast : s.lastEntryId ≠ some e.1)
    (hrec : (Command.truncateEnd e.1).Recordable ⟨s, calm d⟩)
    (hskipped : s.skipped e target.id = 0) (hafter : after = []) :
    CrashAtomic ⟨s, calm d⟩ log e.1 := by
  have hcut := h.cutsAt hc hlast
  have hoff := h.cutOffset_eq target before e
  rw [hskipped, Nat.add_zero] at hoff
  have hstart : startOffset s.index e.1 target.id = magicLen := by
    have hle := magicLen_le_startOffset e.1 target.id h.upright.offsets
    rw [Store.skipped] at hskipped
    omega
  have hfit := hrec _ (h.upright.recorded_cut hcut)
  rw [hoff] at hfit
  obtain ⟨es', hs'⟩ := h.cut hc hlast hstart hfit
  have hbetween := d.cutFiles_cut target (s.cutOffset target before e)
  have hr := h.recorded_unrecorded target (s.cutOffset target before e)
  have hclean {d' : Dir} (hd' : Clean d' es s.state log active) : OpensTo d' (liveLog s.state log) :=
    hd'.nearly.opensTo h.ordered
  have hbehind {d' : Dir} (hd' : Clean d' es' (cutState s.state target (post.map (·.id)))
      (Function.update log target.id (before ++ [e])) target) :
      OpensTo d' ((liveLog s.state log).filter fun x => decide (x.1 ≤ e.1)) := by
    rw [← h.liveLog_cut hc]
    exact hd'.nearly.opensTo hs'.ordered
  intro eff
  rw [h.upright.cutShort hcut eff]
  unfold Effect.leavesCut
  split
  · exact Or.inl h.opensTo
  · exact Or.inl (hclean (h.clean_end hc hbetween.unsynced hr.unsynced hskipped hafter))
  · exact Or.inl (hclean (h.clean_end hc hbetween hr hskipped hafter))
  · rw [hoff]
    exact Or.inr (hbehind hs'.clean.unsynced)
  · rw [hoff]
    exact Or.inr (hbehind hs'.clean)

/-! ### What has to be left -/

/-- Between the cut and its record. -/
theorem Session.between_of_crashAtomic (hlast : s.lastEntryId ≠ some e.1)
    (hcrash : CrashAtomic ⟨s, calm d⟩ log e.1) :
    Layout (d.cut target (s.cutOffset target before e)) es [] s.state ∧
      (wholeWithin (s.skipped e target.id) after = after ∨
        wholeWithin (s.skipped e target.id) after = [] ∧ post.flatMap (fun seg => log seg.id) = []) := by
  have hopens := hcrash (.flush .manifest)
  rw [h.upright.cutShort (h.cutsAt hc hlast), Effect.leavesCut] at hopens
  have hbetween := d.cutFiles_cut target (s.cutOffset target before e)
  have hfound {xs : List Entry} (hx : OpensTo (d.cut target (s.cutOffset target before e)) xs) :=
    (h.recorded_unrecorded target _).eq_of_opensTo h.kept.shaped
      (fun seg hseg => h.valid_cutFiles hc hbetween hseg) (h.whole_leftIn hc) hx
  have hlive := (h.liveLog_update hc (s.leftIn target before e after)).1
  rcases hopens with hopens | hopens
  · obtain ⟨hlayout, heq⟩ := hfound hopens
    rw [show (Machine.mk s (calm d)).store.state = s.state from rfl, h.liveLog_eq hc, hlive] at heq
    have hsame := List.append_cancel_right (List.append_cancel_left heq)
    rw [hc.entries, Store.leftIn, List.append_cons] at hsame
    exact ⟨hlayout, Or.inl (List.append_cancel_left hsame).symm⟩
  · obtain ⟨hlayout, heq⟩ := hfound hopens
    rw [show (Machine.mk s (calm d)).store.state = s.state from rfl, h.upTo_eq hc, hlive] at heq
    have hsame := List.append_cancel_left heq
    rw [Store.leftIn, List.append_assoc, List.self_eq_append_right, List.append_eq_nil_iff] at hsame
    exact ⟨hlayout, Or.inr hsame⟩

/-- A sealed segment has to keep its size, and behind the record nothing may be left of what is behind
the entry. -/
theorem Session.end_of_crashAtomic (htarget : target ≠ active) (hlast : s.lastEntryId ≠ some e.1)
    (hrec : (Command.truncateEnd e.1).Recordable ⟨s, calm d⟩)
    (hcrash : CrashAtomic ⟨s, calm d⟩ log e.1) : s.skipped e target.id = 0 ∧ after = [] := by
  obtain ⟨hlayout, hleft⟩ := h.between_of_crashAtomic hc hlast hcrash
  have hpost := h.active_mem hc
  rw [if_neg htarget] at hpost
  have hne : post.flatMap (fun seg => log seg.id) ≠ [] := by
    obtain ⟨f, hf⟩ := List.exists_mem_of_ne_nil _ (h.active_ne_nil hc)
    exact List.ne_nil_of_mem (List.mem_flatMap.mpr ⟨active, hpost, hf⟩)
  have hall := hleft.resolve_right fun hnone => hne hnone.2
  have hcut := h.cutsAt hc hlast
  -- behind the record
  have hleaves : Effect.leavesCut .remove s d target (s.cutOffset target before e)
      (cutOp target (s.cutOffset target before e) (post.map (·.id))) =
        (d.cut target (s.cutOffset target before e)).appended s.manifestCursor.position
          (cutOp target (s.cutOffset target before e) (post.map (·.id))) := rfl
  have hopens := hcrash .remove
  rw [h.upright.cutShort hcut, hleaves] at hopens
  have hbehind := d.cutFiles_appended target (s.cutOffset target before e) s.manifestCursor.position
    (cutOp target (s.cutOffset target before e) (post.map (·.id)))
  obtain ⟨es', hr'⟩ := h.recorded_cut hc hlast hrec
  obtain ⟨_, hup, _⟩ := h.upright.cut hcut
  have hfound {xs : List Entry} (hx : OpensTo _ xs) := hr'.eq_of_opensTo hup.shaped
    (fun seg hseg => h.valid_cutFiles hc hbehind (mem_killed hseg))
    (fun seg hseg => h.whole_leftIn hc seg (mem_killed hseg)) hx
  have hlive := (h.liveLog_update hc (s.leftIn target before e after)).2
  have hafter : after = [] := by
    rcases hopens with hopens | hopens
    · have heq := (hfound hopens).2
      rw [show (Machine.mk s (calm d)).store.state = s.state from rfl, h.liveLog_eq hc, hlive,
        Store.leftIn, hall, hc.entries, List.append_cons] at heq
      have hlen := congrArg List.length (List.append_cancel_left heq)
      rw [List.length_append] at hlen
      exact absurd (List.eq_nil_of_length_eq_zero (by omega)) hne
    · have heq := (hfound hopens).2
      rw [show (Machine.mk s (calm d)).store.state = s.state from rfl, h.upTo_eq hc, hlive,
        Store.leftIn, hall] at heq
      exact List.self_eq_append_right.mp (List.append_cancel_left heq)
  -- a sealed file that is taken has whole frames only, so no zeros
  obtain ⟨hmem, _⟩ := hc.mem
  have hsealed := (h.kept.shaped.seals target.id).mpr
    ⟨lists_of_mem hmem, fun hid => htarget (h.kept.shaped.inj hmem h.kept.shaped.mem hid)⟩
  obtain ⟨info, hinfo⟩ := Option.isSome_iff_exists.mp hsealed
  obtain ⟨_, hstop⟩ := hlayout.sealedIntact target hmem info hinfo
  have hbetween := d.cutFiles_cut target (s.cutOffset target before e)
  have hvalid := h.valid_cutFiles hc hbetween hmem
  rw [validPrefix_of_clean hstop, (h.body_cutFiles hc hbetween hmem).2, if_pos rfl,
    Function.update_self, Store.leftIn, hall, hafter, List.append_nil] at hvalid
  have hlen := congrArg List.length hvalid
  rw [List.length_append, length_resize] at hlen
  exact ⟨by omega, hafter⟩

theorem Session.cutsClean_iff : s.CutsClean log e ↔
    if target = active then wholeWithin (s.skipped e target.id) after = [] ∨
      wholeWithin (s.skipped e target.id) after = after
    else s.skipped e target.id = 0 ∧ after = [] := by
  obtain ⟨hmem, hin⟩ := hc.mem
  have hid : target.id = s.activeId ↔ target = active := by
    rw [h.activeId]
    exact ⟨fun hid => h.kept.shaped.inj hmem h.kept.shaped.mem hid, fun heq => by rw [heq]⟩
  constructor
  · intro hall
    have hat := hall target hmem hin
    rw [h.entriesBehind_eq hc] at hat
    simpa only [hid] using hat
  · intro hat seg hseg hin'
    rw [h.eq_target hc hseg hin', h.entriesBehind_eq hc]
    simpa only [hid] using hat

theorem Session.crashAtomic_iff_clean (hlast : s.lastEntryId ≠ some e.1)
    (hrec : (Command.truncateEnd e.1).Recordable ⟨s, calm d⟩) :
    CrashAtomic ⟨s, calm d⟩ log e.1 ↔ s.CutsClean log e := by
  rw [h.cutsClean_iff hc]
  by_cases htarget : target = active
  · rw [if_pos htarget]
    constructor
    · intro hcrash
      exact (h.between_of_crashAtomic hc hlast hcrash).2.symm.imp_left fun hnone => hnone.1
    · exact h.crashAtomic_active hc htarget hlast hrec
  · rw [if_neg htarget]
    constructor
    · exact h.end_of_crashAtomic hc htarget hlast hrec
    · exact fun hend => h.crashAtomic_end hc hlast hrec hend.1 hend.2

end

/-- Only the entries of live segments count. -/
theorem CrashAtomic.congr {m : Machine} {log log' : SegmentId → List Entry} {lastValid : EntryId}
    (h : CrashAtomic m log lastValid)
    (hlog : ∀ seg ∈ m.store.state.segments, log' seg.id = log seg.id) :
    CrashAtomic m log' lastValid := by
  intro eff
  rw [liveLog_congr hlog]
  exact h eff

theorem Store.CutsClean.congr {log' : SegmentId → List Entry} (h : s.CutsClean log e)
    (hlog : ∀ seg ∈ s.state.segments, log' seg.id = log seg.id) : s.CutsClean log' e := by
  intro seg hseg he
  rw [hlog seg hseg] at he ⊢
  exact h seg hseg he

/-- What a crash leaves is what it should be just if there is nothing to cut or the cut is clean. -/
theorem Session.crashAtomic_iff_cutsClean (h : Session s d es log active)
    {log' : SegmentId → List Entry} (hlog : Machine.Logs ⟨s, calm d⟩ log')
    (he : e ∈ liveLog s.state log') (hrec : (Command.truncateEnd e.1).Recordable ⟨s, calm d⟩) :
    CrashAtomic ⟨s, calm d⟩ log' e.1 ↔ s.lastEntryId = some e.1 ∨ s.CutsClean log' e := by
  have hsame : ∀ seg ∈ s.state.segments, log' seg.id = log seg.id := fun seg hseg =>
    h.logs_eq hlog hseg
  have hback : ∀ seg ∈ s.state.segments, log seg.id = log' seg.id := fun seg hseg =>
    (hsame seg hseg).symm
  rw [liveLog_congr hsame] at he
  by_cases hlast : s.lastEntryId = some e.1
  · exact ⟨fun _ => Or.inl hlast, fun _ => (h.crashAtomic_last hlast).congr hsame⟩
  · obtain ⟨pre, target, post, before, after, hc⟩ := h.cutting he
    have hiff := h.crashAtomic_iff_clean hc hlast hrec
    rw [or_iff_right hlast]
    exact ⟨fun hcrash => (hiff.mp (hcrash.congr hback)).congr hsame,
      fun hclean => (hiff.mpr (hclean.congr hback)).congr hsame⟩

end

/-- In every run of batches of ascending ids, trims, clean-ups, metadata and opens, a crash in
`truncate_end` leaves what was stored before or the entries up to the last valid one, just if that is
the last entry or the cut is clean. Between the cut and its record the manifest has the size of a
sealed segment that is cut, and what is in front of a checkpoint is counted twice. -/
theorem Writes.crashAtomic_iff {d : Dir} (hd : Fresh d) {cfg : StoreCfg} {s : Store} {w : World}
    (hopen : Store.openOrCreate cfg (calm d) = .ok s w) {m : Machine} {xs : List Entry}
    (hw : Writes (fun _ => True) ⟨s, w⟩ [] m xs) {log : SegmentId → List Entry} (hlog : m.Logs log)
    {e : Entry} (he : e ∈ liveLog m.store.state log)
    (hrec : (Command.truncateEnd e.1).Recordable m) :
    CrashAtomic m log e.1 ↔ m.store.lastEntryId = some e.1 ∨ m.store.CutsClean log e := by
  obtain ⟨s, d, es, log', active, rfl, h⟩ := hd.written hopen hw
  exact h.crashAtomic_iff_cutsClean hlog he hrec

end

section
attribute [local instance] sample

instance (s : Store) (log : SegmentId → List Entry) (e : Entry) : Decidable (s.CutsClean log e) :=
  inferInstanceAs (Decidable (∀ seg ∈ s.state.segments, e ∈ log seg.id →
    if seg.id = s.activeId then
      wholeWithin (s.skipped e seg.id) (entriesBehind e (log seg.id)) = [] ∨
        wholeWithin (s.skipped e seg.id) (entriesBehind e (log seg.id)) = entriesBehind e (log seg.id)
    else s.skipped e seg.id = 0 ∧ entriesBehind e (log seg.id) = []))

/-- The middle one of three segments is cut behind its last entry. -/
theorem Writes.crashAtomic_iff_rolling : ∃ m, openedBlank ⟨0⟩ = some m ∧
    CrashAtomic (performAll m (rolling ++ [.reopen ⟨0⟩])) rollingLog ⟨3⟩ := by
  obtain ⟨m, _, _, _, _, _, hm, hd, hopen, hw, hlog, _⟩ := written_rolling
  have he := run_rolling hm (fun m => ((⟨3⟩, []) : Entry) ∈ liveLog m.store.state rollingLog)
    (by decide +kernel)
  have hrec := run_rolling hm (fun m => (Command.truncateEnd ⟨3⟩).Recordable m) (by decide +kernel)
  have hclean := run_rolling hm (fun m => m.store.CutsClean rollingLog (⟨3⟩, [])) (by decide +kernel)
  exact ⟨m, hm, (Writes.crashAtomic_iff hd hopen hw hlog he hrec).mpr (Or.inr hclean)⟩

/-- Cut behind its first entry, the middle segment has not the recorded size, and the directory does
not open. -/
theorem Writes.not_crashAtomic : ¬ ∀ d cfg s w, Fresh d → Store.openOrCreate cfg (calm d) = .ok s w →
    ∀ m xs, Writes (fun _ => True) ⟨s, w⟩ [] m xs → ∀ log, m.Logs log →
      ∀ e ∈ liveLog m.store.state log, CrashAtomic m log e.1 := by
  intro hall
  obtain ⟨m, d, cfg, s, w, xs, hm, hd, hopen, hw, hlog, _⟩ := written_rolling
  have he := run_rolling hm (fun m => ((⟨2⟩, []) : Entry) ∈ liveLog m.store.state rollingLog)
    (by decide +kernel)
  have hrec := run_rolling hm (fun m => (Command.truncateEnd ⟨2⟩).Recordable m) (by decide +kernel)
  have hlast := run_rolling hm (fun m => m.store.lastEntryId ≠ some ⟨2⟩) (by decide +kernel)
  have hclean := run_rolling hm (fun m => ¬ m.store.CutsClean rollingLog (⟨2⟩, [])) (by decide +kernel)
  have hcrash := hall d cfg s w hd hopen _ xs hw rollingLog hlog _ he
  obtain ⟨s', d', es', log', active', hmachine, h⟩ := hd.written hopen hw
  rw [hmachine] at hlog he hrec hlast hclean hcrash
  exact ((h.crashAtomic_iff_cutsClean hlog he hrec).mp hcrash).elim hlast hclean

end
end Woodshed
