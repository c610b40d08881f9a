import Woodshed.Revising

/-! Advancing the head and deleting what is dead: which files are left, and that each of them is
needed. -/
namespace Woodshed
open Framing

section
variable [Crates]

/-- There is nothing left to give back: the segment files are those of the live segments, of which
each but the active one has an entry from the head on, and only the first one an entry before it. -/
structure Reclaimed (m : Machine) (log : SegmentId → List Entry) : Prop where
  dead : m.store.state.dead = ∅
  files : ∀ name ∈ m.world.dir.files, ∀ id, parseSegmentPath name = some id →
    name = segmentPath id ∧ m.store.state.lists id = true
  logs : m.Logs log
  needed : ∀ seg ∈ m.store.state.segments, seg.id ≠ m.store.activeId →
    ∃ e ∈ log seg.id, m.store.state.firstEntry ≤ e.1
  trimmed : ∀ seg ∈ m.store.state.segments.tail, ∀ e ∈ log seg.id, m.store.state.firstEntry ≤ e.1

/-- A sealed segment that is not evicted ends in an entry from the new head on. -/
theorem needed_advanced {st : StoreState} {log : SegmentId → List Entry} {active : SegmentEntry}
    (hs : SealsOk st log) (hshape : Shaped st active) (first : EntryId) (metaPairs : Meta)
    {seg : SegmentEntry} (hseg : seg ∈ (advanced st first metaPairs).segments)
    (hne : seg.id ≠ active.id) : ∃ e ∈ log seg.id, first ≤ e.1 := by
  obtain ⟨hmem, hkeep⟩ := List.mem_filter.mp hseg
  have hlists : st.lists seg.id = true := (lists_iff _ _).mpr ⟨seg, hmem, rfl⟩
  obtain ⟨info, hi⟩ := Option.isSome_iff_exists.mp ((hshape.seals seg.id).mpr ⟨hlists, hne⟩)
  obtain ⟨-, last, hlast, heq⟩ := hs seg hmem info hi
  have hnot : seg.id ∉ toEvict st first := of_decide_eq_true hkeep
  refine ⟨last, List.mem_of_getLast? hlast, ?_⟩
  rw [← heq]
  exact not_lt.mp fun hlt => hnot (mem_toEvict.mpr ⟨hlists, info, hi, hlt⟩)

/-- In every run with `truncate_end`, too, a trim gives back all it can: behind `truncate_start` and
`delete_dead_segments` no file is left that holds only entries before the head, and none of the others
is lost. -/
theorem Ran.reclaims {m : Machine} {j : Journal} (h : Ran m j) {first : EntryId} {metaPairs : Meta}
    (hfirst : j.head ≤ first) (hrec : (Command.request (.truncateStart first metaPairs)).Recordable m) :
    ∃ m₁ n m₂ log, Store.truncateStart first metaPairs m = .ok ⟨⟩ m₁ ∧
      Store.deleteDeadSegments m₁ = .ok n m₂ ∧ m₂.store.state.firstEntry = first ∧
      Reclaimed m₂ log ∧
      entriesFrom first (liveLog m₂.store.state log) = entriesFrom first j.written := by
  obtain ⟨d, es, log, active, ha⟩ := h.agrees
  obtain ⟨s, w⟩ := m
  obtain rfl : w = calm d := ha.world
  have hs : Session s d es log active := ha.session
  have hhead : s.state.firstEntry = j.head := ha.head
  have hle : s.state.firstEntry ≤ first := by rwa [hhead]
  have hfit : Fits (opFrame (headOp s.state first metaPairs)) := by
    refine hrec _ ?_
    rw [Command.recorded, Request.recorded, if_neg (not_lt.mpr hle)]
    rfl
  -- the log of the session stays the same over both calls, less the segments that are evicted
  obtain ⟨s₁, d₁, es₁, hrun₁, hs₁, hst₁, -, -, hkeep, hheaded⟩ := hs.truncateStart hle hfit
  obtain ⟨s₂, d₂, es₂, hrun₂, hs₂, -, -, hst₂⟩ := hs₁.deleteDeadSegments
  have hsegs : s₂.state.segments = s₁.state.segments := by rw [hst₂]
  have hfirst₂ : s₂.state.firstEntry = first := by
    rw [hst₂]
    change s₁.state.firstEntry = first
    rw [hst₁]
    rfl
  have hfirst₁ : s₁.state.firstEntry = first := by
    rw [hst₁]
    rfl
  refine ⟨_, _, _, log, hrun₁, hrun₂, hfirst₂, ⟨?_, ?_, hs₂.logs, ?_, ?_⟩, ?_⟩
  · rw [hst₂]
  · -- a segment file is that of a live or of a dead segment, and no segment is dead any more
    intro name hname id hid
    obtain ⟨hpath, hl | hd⟩ := hs₂.kept.filed.known name hname id hid
    · exact ⟨hpath, hl⟩
    · rw [hst₂] at hd
      exact absurd hd (Finset.notMem_empty _)
  · intro seg hseg hne
    change seg ∈ s₂.state.segments at hseg
    change ∃ e ∈ log seg.id, s₂.state.firstEntry ≤ e.1
    rw [hfirst₂]
    rw [hsegs, hst₁] at hseg
    exact needed_advanced hs.kept.sealsOk hs.kept.shaped first metaPairs hseg
      fun heq => hne (heq.trans hs₂.activeId.symm)
  · intro seg hseg e he
    change seg ∈ s₂.state.segments.tail at hseg
    change s₂.state.firstEntry ≤ e.1
    rw [hsegs] at hseg
    rw [hfirst₂, ← hfirst₁]
    exact hheaded seg hseg e he
  · have hlive : liveLog s₂.state log = liveLog s₁.state log := by rw [liveLog, hsegs, liveLog]
    have hvisible : entriesFrom j.head (liveLog s.state log) = j.visible := ha.visible
    change entriesFrom first (liveLog s₂.state log) = _
    calc entriesFrom first (liveLog s₂.state log)
        = entriesFrom first (liveLog s.state log) := by
          rw [hlive]
          exact hkeep _ fun e he => decide_eq_false (not_le.mpr he)
      _ = entriesFrom first (entriesFrom j.head (liveLog s.state log)) :=
          (entriesFrom_entriesFrom hfirst _).symm
      _ = entriesFrom first j.written := by
          rw [hvisible, Journal.visible, entriesFrom_entriesFrom hfirst]

end

section
attribute [local instance] sample

/-- Two of three segments are given back. -/
theorem Ran.reclaims_revised : ∃ m₂ log, Reclaimed m₂ log ∧ m₂.store.state.firstEntry = ⟨5⟩ := by
  set cs := revised.take 3 with hcs
  obtain ⟨m, hm, hran⟩ := ran_openedBlank ⟨0⟩ cs (by decide +kernel)
  have hrec : (openedBlank ⟨0⟩).all (fun m =>
      decide ((Command.request (.truncateStart ⟨5⟩ [])).Recordable (commandAll m cs))) = true := by
    decide +kernel
  rw [hm] at hrec
  have hhead : (cs.foldl Journal.follow Journal.start).head ≤ ⟨5⟩ := by decide
  obtain ⟨_, _, m₂, log, -, -, hfirst, hreclaimed, -⟩ := hran.reclaims hhead (of_decide_eq_true hrec)
  exact ⟨m₂, log, hreclaimed, hfirst⟩

end
end Woodshed
