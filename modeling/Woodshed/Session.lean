import Woodshed.Writing

/-! A store in use between calls: entries in the order of their ids, an index that marks some of
them, and no frame left in the buffer. A batch adds its entries at the end. -/
namespace Woodshed
open Sequencing Framing

section
variable [Crates]

/-- A batch: pushes, then a write. -/
def Store.batch (xs : List Entry) : StoreM Commit := do
  let w ← Store.pushAll xs
  w.write

/-- A store between calls that has only been given ascending ids. -/
structure Session (s : Store) (d : Dir) (es : List Entry) (log : SegmentId → List Entry)
    (active : SegmentEntry) : Prop extends Running s d es log active where
  whole : Whole s.state log
  ordered : Ordered s.state log
  index : IndexOk s.index s.state log
  idle : s.activeCursor.buf = ⟨[]⟩
  /-- Only the first segment of all is without entries, until the first batch. -/
  start : log active.id = [] → s.state.segments = [active] ∧ active.firstEntry = ⟨0⟩

theorem Session.clean {s : Store} {d : Dir} {es : List Entry} {log : SegmentId → List Entry}
    {active : SegmentEntry} (h : Session s d es log active) : Clean d es s.state log active :=
  ⟨h.kept, h.whole⟩

/-! ### Entries behind the others -/

omit [Crates] in
theorem Whole.append {st : StoreState} {log : SegmentId → List Entry} (h : Whole st log)
    (id : SegmentId) {xs : List Entry} (hx : ∀ e ∈ xs, Fits e) :
    Whole st (Function.update log id (log id ++ xs)) := by
  intro seg hseg e he
  by_cases heq : seg.id = id
  · rw [heq, Function.update_self] at he
    rcases List.mem_append.mp he with he | he
    · exact h seg hseg e (heq ▸ he)
    · exact hx e he
  · rw [Function.update_of_ne heq] at he
    exact h seg hseg e he

omit [Crates] in
/-- Larger ids behind the entries of the active segment. -/
theorem Ordered.append {st : StoreState} {log : SegmentId → List Entry} {active : SegmentEntry}
    (h : Ordered st log) (hs : Shaped st active) {xs : List Entry}
    (hasc : xs.Pairwise fun a b => a.1 < b.1) (hnew : ∀ f ∈ log active.id, ∀ e ∈ xs, f.1 < e.1)
    (hfirst : ∀ e ∈ xs, active.firstEntry ≤ e.1) :
    Ordered st (Function.update log active.id (log active.id ++ xs)) := by
  refine ⟨?_, ?_, ?_⟩
  · intro seg hseg
    by_cases heq : seg.id = active.id
    · rw [heq, Function.update_self, List.pairwise_append]
      exact ⟨h.inside active hs.mem, hasc, hnew⟩
    · rw [Function.update_of_ne heq]
      exact h.inside seg hseg
  · intro seg hseg e he
    by_cases heq : seg.id = active.id
    · rw [heq, Function.update_self] at he
      rw [hs.inj hseg hs.mem heq]
      rcases List.mem_append.mp he with he | he
      · exact h.first active hs.mem e he
      · exact hfirst e he
    · rw [Function.update_of_ne heq] at he
      exact h.first seg hseg e he
  · -- the segments before the active one are as they were
    have hold : ∀ a ∈ st.segments.dropLast,
        Function.update log active.id (log active.id ++ xs) a.id = log a.id := by
      intro a ha
      obtain ⟨hmem, hne⟩ := hs.dropLast ha
      exact Function.update_of_ne (fun heq => hne (hs.inj hmem hs.mem heq)) _ _
    have hacross := (hs.pairwise_iff _).mp h.across
    refine (hs.pairwise_iff _).mpr ⟨?_, ?_⟩
    · refine hacross.1.imp_of_mem ?_
      intro a b ha _ hab e he
      rw [hold a ha] at he
      exact hab e he
    · intro a ha e he
      rw [hold a ha] at he
      exact hacross.2 a ha e he

omit [Crates] in
theorem Whole.rolled {s : Store} {log : SegmentId → List Entry} (h : Whole s.state log)
    (first : EntryId) : Whole (rolledState s first) (Function.update log s.nextSegId []) := by
  intro seg hseg e he
  by_cases heq : seg.id = s.nextSegId
  · rw [heq, Function.update_self] at he
    cases he
  · rw [Function.update_of_ne heq] at he
    rcases List.mem_append.mp hseg with hseg | hseg
    · exact h seg hseg e he
    · rw [List.mem_singleton.mp hseg] at heq
      exact absurd rfl heq

omit [Crates] in
/-- A new segment behind the others, for ids above all that are stored. -/
theorem Ordered.rolled {s : Store} {log : SegmentId → List Entry} (h : Ordered s.state log)
    (hnew : s.state.lists s.nextSegId = false) {first : EntryId}
    (hfirst : ∀ e ∈ Woodshed.liveLog s.state log, e.1 < first) :
    Ordered (rolledState s first) (Function.update log s.nextSegId []) := by
  have hold {seg : SegmentEntry} (hseg : seg ∈ s.state.segments) :
      Function.update log s.nextSegId [] seg.id = log seg.id := by
    refine Function.update_of_ne ?_ _ _
    intro heq
    rw [← heq, lists_of_mem hseg] at hnew
    cases hnew
  refine ⟨?_, ?_, ?_⟩
  · intro seg hseg
    rcases List.mem_append.mp hseg with hseg | hseg
    · rw [hold hseg]
      exact h.inside seg hseg
    · rw [List.mem_singleton.mp hseg, Function.update_self]
      exact List.Pairwise.nil
  · intro seg hseg e he
    rcases List.mem_append.mp hseg with hseg | hseg
    · rw [hold hseg] at he
      exact h.first seg hseg e he
    · rw [List.mem_singleton.mp hseg, Function.update_self] at he
      cases he
  · refine List.pairwise_append.mpr ⟨?_, by simp, ?_⟩
    · refine h.across.imp_of_mem ?_
      intro a b ha _ hab e he
      rw [hold ha] at he
      exact hab e he
    · intro a ha b hb e he
      rw [hold ha] at he
      rw [List.mem_singleton.mp hb]
      exact hfirst e (List.mem_flatMap.mpr ⟨a, ha, he⟩)

omit [Crates] in
theorem Headed.append {st : StoreState} {log : SegmentId → List Entry} (h : Headed st log)
    {id : SegmentId} {xs : List Entry} (hx : ∀ e ∈ xs, st.firstEntry ≤ e.1) :
    Headed st (Function.update log id (log id ++ xs)) := by
  intro seg hseg e he
  by_cases heq : seg.id = id
  · rw [heq, Function.update_self] at he
    rcases List.mem_append.mp he with he | he
    · exact h seg hseg e (heq ▸ he)
    · exact hx e he
  · rw [Function.update_of_ne heq] at he
    exact h seg hseg e he

omit [Crates] in
theorem Headed.rolled {s : Store} {log : SegmentId → List Entry} (h : Headed s.state log)
    (first : EntryId) (hne : s.state.segments ≠ []) :
    Headed (rolledState s first) (Function.update log s.nextSegId []) := by
  intro seg hseg e he
  change seg ∈ (s.state.segments ++ [_]).tail at hseg
  rw [List.tail_append_of_ne_nil hne] at hseg
  by_cases heq : seg.id = s.nextSegId
  · rw [heq, Function.update_self] at he
    cases he
  · rw [Function.update_of_ne heq] at he
    rcases List.mem_append.mp hseg with hseg | hseg
    · exact h seg hseg e he
    · rw [List.mem_singleton.mp hseg] at heq
      exact absurd rfl heq

/-! ### Batches -/

section
variable {s : Store} {d : Dir} {es : List Entry} {log : SegmentId → List Entry}
  {active : SegmentEntry}

/-- A flush of larger ids leaves a session. -/
theorem Running.session_flushed (h : Running s d es log active) (hw : Whole s.state log)
    (ho : Ordered s.state log) (hi : IndexOk s.index s.state log) {xs : List Entry} {last : Entry}
    (hbuf : s.activeCursor.buf.buf = frames.encodeAll xs) (hlast : xs.getLast? = some last)
    (hfit : ∀ e ∈ xs, Fits e) (hasc : xs.Pairwise fun a b => a.1 < b.1)
    (hnew : ∀ f ∈ log active.id, ∀ e ∈ xs, f.1 < e.1)
    (hfirst : ∀ e ∈ xs, active.firstEntry ≤ e.1) (count : ℕ) :
    Session (s.flushed last.1 count) (d.flushed s) es
      (Function.update log active.id (log active.id ++ xs)) active := by
  have hshape := h.kept.shaped
  refine ⟨h.flushed hbuf hlast count, hw.append active.id hfit, ho.append hshape hasc hnew hfirst,
    hi.grow (fun _ hid => hid) ?_, rfl, ?_⟩
  · intro id _
    by_cases heq : id = active.id
    · rw [heq, Function.update_self]
      exact List.prefix_append _ _
    · rw [Function.update_of_ne heq]
  · intro hnil
    rw [Function.update_self] at hnil
    rw [(List.append_eq_nil_iff.mp hnil).2] at hlast
    cases hlast

/-- What a write needs of the machine it runs on, in a running store. -/
theorem Running.write_eq (h : Running s d es log active) {w : World} (hw : Steady w)
    (hd : w.dir = d) (first last : EntryId) (count : ℕ) (hroom : s.Room) :
    StoreWriter.write ⟨some first, some last, count⟩ ⟨s, w⟩ =
      let s' := s.readyFor first
      let d' := d.readyFor s first
      if w.flushFails then
        .error (.err faulted)
          ⟨{ s' with segments := insert s'.activeId s'.segments }, { w.popped with dir := d' }⟩
      else .ok (some s'.activeId)
        ⟨s'.flushed last count, { w.popped with dir := d'.flushed s' }⟩ := by
  subst hd
  obtain ⟨_, _, hnew⟩ := h.next_unused
  obtain ⟨_, _, _, hrun, _⟩ := h.readyFor first hroom
  have hact : s.state.activeSegmentId = some s.activeId := by
    rw [h.activeId]
    exact h.kept.shaped.activeId
  refine StoreWriter.write_eq hw (by rw [h.manifestCursor]) h.kept.present (fun _ => hnew) hact ?_
  rw [hrun.activeId]
  exact (hrun.kept.holds.hasSegment hrun.kept.shaped.mem).1

section
variable {xs rest : List Entry} {first last : Entry}

/-- The store with the frames of a batch in its buffer. -/
theorem Session.buffered (h : Session s d es log active) (xs : List Entry) :
    Running (s.buffered xs) d es log active ∧
      (s.buffered xs).activeCursor.buf.buf = frames.encodeAll xs := by
  refine ⟨⟨h.kept, h.manifestCursor, h.activeId, h.activeFirst, h.position, h.next, h.pending, h.last⟩,
    ?_⟩
  rw [Store.buffered, h.idle]
  rfl

/-- The run of a batch. -/
theorem Session.batch_eq (h : Session s d es log active) (hcons : xs = first :: rest)
    (hlast : xs.getLast? = some last) (hroom : s.Room) :
    Store.batch xs ⟨s, calm d⟩ = .ok (some ((s.buffered xs).readyFor first.1).activeId)
      ⟨((s.buffered xs).readyFor first.1).flushed last.1 xs.length,
        calm ((d.readyFor (s.buffered xs) first.1).flushed ((s.buffered xs).readyFor first.1))⟩ := by
  have hwriter : writerOf xs = ⟨some first.1, some last.1, xs.length⟩ := writerOf_eq hcons hlast
  have hwrite := (h.buffered xs).1.write_eq (steady_calm d) rfl first.1 last.1 xs.length hroom
  rw [Store.batch, bind_ok (Store.pushAll_eq xs s (calm d)), hwriter, hwrite]
  dsimp only
  rw [show (calm d).flushFails = false from rfl, if_neg Bool.false_ne_true, popped_calm]
  rfl

omit [Crates] in
/-- The first id of a batch is the least. -/
theorem first_le (hcons : xs = first :: rest) (hasc : xs.Pairwise fun a b => a.1 < b.1) :
    ∀ e ∈ xs, first.1 ≤ e.1 := by
  intro e he
  rw [hcons] at he hasc
  rcases List.mem_cons.mp he with rfl | he
  · exact le_rfl
  · exact ((List.pairwise_cons.mp hasc).1 e he).le

/-- When a rollover is pending, a new segment takes the entries. -/
theorem Session.batch_rolled (h : Session s d es log active) (hp : s.rolloverPending = true)
    (hcons : xs = first :: rest) (hlast : xs.getLast? = some last) (hfit : ∀ e ∈ xs, Fits e)
    (hasc : xs.Pairwise fun a b => a.1 < b.1) (hnew : ∀ f ∈ liveLog s.state log, ∀ e ∈ xs, f.1 < e.1)
    (hroom : s.Room) :
    Session (((s.buffered xs).rolled first.1).flushed last.1 xs.length)
      ((d.rolled (s.buffered xs) first.1).flushed ((s.buffered xs).rolled first.1))
      (es ++ [opFrame (rollOp (s.buffered xs) first.1)])
      (Function.update (Function.update log s.nextSegId []) s.nextSegId
        (Function.update log s.nextSegId [] s.nextSegId ++ xs)) ⟨s.nextSegId, first.1⟩ := by
  obtain ⟨hrun, hbuf⟩ := h.buffered xs
  obtain ⟨hnl, _⟩ := hrun.next_unused
  have hroll := hrun.rolled first.1 (hrun.pending hp) (hroom hp)
  have hindex : IndexOk (s.buffered xs).index (rolledState (s.buffered xs) first.1)
      (Function.update log s.nextSegId []) := by
    refine h.index.grow
      (fun id hid => (lists_rolledState (s.buffered xs) first.1 id).mpr (Or.inl hid)) ?_
    intro id hid
    rw [Function.update_of_ne]
    rintro rfl
    rw [show s.state.lists s.nextSegId = false from hnl] at hid
    cases hid
  have hfirst : ∀ f ∈ liveLog s.state log, f.1 < first.1 := fun f hf =>
    hnew f hf first (by rw [hcons]; simp)
  exact hroll.session_flushed (h.whole.rolled first.1) (h.ordered.rolled hnl hfirst) hindex hbuf hlast
    hfit hasc (by intro f hf; rw [Function.update_self] at hf; cases hf) (first_le hcons hasc) xs.length

/-- Otherwise the active segment takes them. -/
theorem Session.batch_same (h : Session s d es log active)
    (hlast : xs.getLast? = some last) (hfit : ∀ e ∈ xs, Fits e)
    (hasc : xs.Pairwise fun a b => a.1 < b.1)
    (hnew : ∀ f ∈ liveLog s.state log, ∀ e ∈ xs, f.1 < e.1) :
    Session ((s.buffered xs).flushed last.1 xs.length) (d.flushed (s.buffered xs)) es
      (Function.update log active.id (log active.id ++ xs)) active := by
  obtain ⟨hrun, hbuf⟩ := h.buffered xs
  have hmem : ∀ f ∈ log active.id, f ∈ liveLog s.state log := fun f hf =>
    List.mem_flatMap.mpr ⟨active, h.kept.shaped.mem, hf⟩
  have hfirst : ∀ e ∈ xs, active.firstEntry ≤ e.1 := by
    intro e he
    by_cases hnil : log active.id = []
    · rw [(h.start hnil).2]
      exact EntryId.zero_le _
    · obtain ⟨f, hf⟩ := List.exists_mem_of_ne_nil _ hnil
      exact (h.ordered.first active h.kept.shaped.mem f hf).trans (hnew f (hmem f hf) e he).le
  exact hrun.session_flushed h.whole h.ordered h.index hbuf hlast hfit hasc
    (fun f hf e he => hnew f (hmem f hf) e he) hfirst xs.length

end

/-- What a batch of entries does to a session: they are behind all the others then. -/
theorem Session.batch (h : Session s d es log active) {xs : List Entry} (hne : xs ≠ [])
    (hfit : ∀ e ∈ xs, Fits e) (hasc : xs.Pairwise fun a b => a.1 < b.1)
    (hnew : ∀ f ∈ liveLog s.state log, ∀ e ∈ xs, f.1 < e.1)
    (hroom : s.Room) :
    ∃ s' d' es' log' active', Store.batch xs ⟨s, calm d⟩ = .ok (some active'.id) ⟨s', calm d'⟩ ∧
      Session s' d' es' log' active' ∧ liveLog s'.state log' = liveLog s.state log ++ xs ∧
      s'.state.firstEntry = s.state.firstEntry ∧ s'.state.metaPairs = s.state.metaPairs ∧
      s'.cfg = s.cfg ∧ s'.index = s.index ∧
      (Headed s.state log → (∀ e ∈ xs, s.state.firstEntry ≤ e.1) → Headed s'.state log') := by
  obtain ⟨first, rest, hcons⟩ := List.exists_cons_of_ne_nil hne
  have hlast := List.getLast?_eq_some_getLast hne
  have hrun := h.batch_eq hcons hlast hroom
  by_cases hp : s.rolloverPending = true
  · have hs : (s.buffered xs).readyFor first.1 = (s.buffered xs).rolled first.1 := if_pos hp
    have hd : d.readyFor (s.buffered xs) first.1 = d.rolled (s.buffered xs) first.1 := if_pos hp
    rw [hs, hd] at hrun
    obtain ⟨hbuffered, _⟩ := h.buffered xs
    obtain ⟨hnl, _⟩ := hbuffered.next_unused
    have hroll := hbuffered.rolled first.1 (hbuffered.pending hp) (hroom hp)
    refine ⟨_, _, _, _, _, hrun, h.batch_rolled hp hcons hlast hfit hasc hnew hroom, ?_, rfl, rfl, rfl,
      rfl, ?_⟩
    · have hgrown := liveLog_update _ (Function.update log s.nextSegId []) _ hroll.kept.shaped xs
      exact hgrown.trans (congrArg (· ++ xs) (liveLog_rolled first.1 hnl))
    · exact fun hh hx => (hh.rolled (s := s.buffered xs) first.1 h.kept.shaped.nonempty).append hx
  · have hs : (s.buffered xs).readyFor first.1 = s.buffered xs := if_neg hp
    have hd : d.readyFor (s.buffered xs) first.1 = d := if_neg hp
    rw [hs, hd] at hrun
    refine ⟨_, _, _, _, _, hrun.trans ?_, h.batch_same hlast hfit hasc hnew,
      liveLog_update _ _ _ h.kept.shaped xs, rfl, rfl, rfl, rfl, fun hh hx => hh.append hx⟩
    rw [show (s.buffered xs).activeId = active.id from h.activeId]

/-- A batch without entries changes nothing. -/
theorem Session.batch_nil (h : Session s d es log active) :
    Store.batch [] ⟨s, calm d⟩ = .ok none ⟨s, calm d⟩ := by
  have hsame : s.buffered [] = s := by
    rw [Store.buffered, h.idle]
    obtain ⟨cfg, state, index, manifestCursor, segments, activeId, ⟨buf, position⟩, rest⟩ := s
    have hb : buf = ⟨[]⟩ := h.idle
    rw [hb]
    rfl
  rw [Store.batch, bind_ok (Store.pushAll_eq [] s (calm d)), hsame]
  rfl

end

end
end Woodshed
