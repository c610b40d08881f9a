import Woodshed.Runs

/-! When a scan from an id is the rest of the full scan. The index is not extended by writes, so a
scan can start too early, and then yields entries of later segments that are before the id. -/
namespace Woodshed
open Framing Sequencing

section
variable [Crates]

/-- The frames a segment file holds. -/
def stored (d : Dir) (id : SegmentId) : List Entry := (frames.decode (body d id)).items

theorem Clean.stored {d : Dir} {es : List Entry} {st : StoreState} {log : SegmentId → List Entry}
    {active seg : SegmentEntry} (h : Clean d es st log active) (hseg : seg ∈ st.segments) :
    Woodshed.stored d seg.id = log seg.id := by
  rw [Woodshed.stored, (h.holds.hasSegment hseg).2, frames.decode_encodeAll _ (h.whole seg hseg)]

omit [Crates] in
theorem liveLog_congr {st : StoreState} {log log' : SegmentId → List Entry}
    (h : ∀ seg ∈ st.segments, log seg.id = log' seg.id) : liveLog st log = liveLog st log' := by
  rw [liveLog, liveLog, List.flatMap_def, List.flatMap_def, List.map_congr_left h]

omit [Crates] in
theorem covered_congr {x : EntryIndex} {st : StoreState} {log log' : SegmentId → List Entry}
    (h : ∀ seg ∈ st.segments, log seg.id = log' seg.id) (target : EntryId) :
    Covered x st log target ↔ Covered x st log' target := by
  have himp (log log' : SegmentId → List Entry) (h : ∀ seg ∈ st.segments, log seg.id = log' seg.id)
      (hc : Covered x st log target) : Covered x st log' target := by
    intro older seg newer hsplit hne he
    refine hc older seg newer hsplit hne ?_
    rw [h seg (by rw [hsplit]; simp)]
    exact he
  exact ⟨himp log log' h, himp log' log fun seg hseg => (h seg hseg).symm⟩

/-- The scan from `fromId` starts late enough: no live entry is left from it on, or every live
segment behind the first that stores an entry before it has a checkpoint up to it, or one behind
it has. -/
def Machine.StartsLate (m : Machine) (fromId : EntryId) : Prop :=
  (∀ e ∈ liveLog m.store.state (stored m.world.dir), e.1 < fromId) ∨
    Covered m.store.index m.store.state (stored m.world.dir) fromId

/-- In every run, and from every id from the head on: the scan is the full scan from the id on just
when it starts late enough. -/
theorem Reached.suffix_iff {m : Machine} {j : Journal} (h : Reached (fun m r => r.Recordable m) m j)
    {fromId : EntryId} (hge : m.store.firstEntryId ≤ fromId) :
    ∃ full, m.Yields m.store.firstEntryId full ∧
      (m.Yields fromId (entriesFrom fromId full) ↔ m.StartsLate fromId) := by
  obtain ⟨d, es, log, active, ha⟩ := h.agrees
  obtain ⟨s, w⟩ := m
  obtain rfl : w = calm d := ha.world
  have hs := ha.session
  have hstored : ∀ seg ∈ s.state.segments, stored d seg.id = log seg.id :=
    fun seg hseg => hs.clean.stored hseg
  have hge : s.state.firstEntry ≤ fromId := hge
  refine ⟨_, hs.readable.yields_head ha.headed, ?_⟩
  rw [entriesFrom_entriesFrom hge, hs.readable.yields_iff hge]
  change _ ↔ (∀ e ∈ liveLog s.state (stored d), e.1 < fromId) ∨
    Covered s.index s.state (stored d) fromId
  rw [liveLog_congr hstored, covered_congr hstored]

end

section
attribute [local instance] sample

/-- Three segments, of which none is in the index. -/
def rolling : List Request :=
  [.batch [(⟨1⟩, [])], .batch [(⟨2⟩, []), (⟨3⟩, [])], .batch [(⟨4⟩, []), (⟨5⟩, [])]]

/-- The run with three segments, and the scan from 5 in it. -/
theorem Reached.suffix_iff_rolling : ∃ m, openedBlank ⟨0⟩ = some m ∧ ∃ full,
    (performAll m rolling).Yields (performAll m rolling).store.firstEntryId full ∧
      ((performAll m rolling).Yields ⟨5⟩ (entriesFrom ⟨5⟩ full) ↔
        (performAll m rolling).StartsLate ⟨5⟩) := by
  have hproper : (openedBlank ⟨0⟩).all (fun m => properRun m Journal.start rolling) = true := by
    decide +kernel
  obtain ⟨m, hm, hreached⟩ := reached_openedBlank (P := fun m r => r.Recordable m) ⟨0⟩ rolling
    (by simp [rolling, Request.Recordable, Request.recorded]) hproper
  have hhead : (openedBlank ⟨0⟩).all (fun m =>
      decide ((performAll m rolling).store.firstEntryId ≤ ⟨5⟩)) = true := by decide +kernel
  rw [hm] at hhead
  exact ⟨m, hm, hreached.suffix_iff (of_decide_eq_true hhead)⟩

/-- The scan from 5 starts at the first segment, and yields 2, 3 and 4 on its way. -/
theorem Reached.not_suffix : ¬ ∀ m j, Reached (fun _ _ => True) m j → ∀ fromId full,
    m.store.firstEntryId ≤ fromId → m.Yields m.store.firstEntryId full →
      m.Yields fromId (entriesFrom fromId full) := by
  intro hall
  have hproper : (openedBlank ⟨0⟩).all (fun m => properRun m Journal.start rolling) = true := by
    decide +kernel
  obtain ⟨m, hm, hreached⟩ := reached_openedBlank (P := fun m r => r.Recordable m) ⟨0⟩ rolling (by simp [rolling, Request.Recordable, Request.recorded]) hproper
  -- what the model computes on this run
  have hrun (p : Machine → Prop) [DecidablePred p]
      (h : (openedBlank ⟨0⟩).all (fun m => decide (p (performAll m rolling))) = true) :
      p (performAll m rolling) := by
    rw [hm] at h
    exact of_decide_eq_true h
  have hhead : (performAll m rolling).store.firstEntryId = ⟨0⟩ :=
    hrun (fun m => m.store.firstEntryId = ⟨0⟩) (by decide +kernel)
  have hscan : returned (Store.scanAll 9 ⟨5⟩ (performAll m rolling)) =
      some [(⟨2⟩, []), (⟨3⟩, []), (⟨4⟩, []), (⟨5⟩, [])] :=
    hrun (fun m => returned (Store.scanAll 9 ⟨5⟩ m) = _) (by decide +kernel)
  obtain ⟨_, _, _, _, hagrees⟩ := hreached.agrees
  have hfull := hagrees.showsJournal.entries
  have hge : (performAll m rolling).store.firstEntryId ≤ ⟨5⟩ := by
    rw [hhead]
    exact EntryId.zero_le _
  have hsuffix := hall _ _ (Reached.mono (fun _ _ _ => trivial) hreached) ⟨5⟩ _ hge hfull 9 (by decide +kernel)
  have hne : entriesFrom ⟨5⟩ (rolling.foldl Journal.after Journal.start).visible ≠
      [(⟨2⟩, []), (⟨3⟩, []), (⟨4⟩, []), (⟨5⟩, [])] := by decide +kernel
  rw [hsuffix] at hscan
  exact hne (Option.some.inj hscan)

end
end Woodshed
