import Woodshed.Failing
import Woodshed.Revising
import Woodshed.TornBatch

/-! A rollover in which one of its I/O calls fails, and what becomes of the batch behind it. -/
namespace Woodshed
open Sequencing Framing

/-- The I/O calls of a rollover. -/
inductive RollStep where
  | create
  | writeMagic
  | syncSegment
  | flushManifest
  | syncManifest
deriving DecidableEq, Repr

namespace RollStep

def call : RollStep → Call
  | create => .create .segment
  | writeMagic => .writeMagic .segment
  | syncSegment => .sync .segment
  | flushManifest => .flush .manifest
  | syncManifest => .sync .manifest

/-- The call fails the next time it is made. -/
def fails (step : RollStep) : Faults := ⟨fun c => if c = step.call then [true] else [], []⟩

section
variable [Crates]

/-- The store behind a rollover that fails at a step. -/
def leaves (step : RollStep) (s : Store) (first : EntryId) : Store :=
  match step with
  | flushManifest =>
    { s with manifestCursor := s.manifestCursor.write ⟨0⟩ (rollOp s first).encode }
  | syncManifest =>
    { s with manifestCursor :=
      ⟨⟨[]⟩, s.manifestCursor.position+(frame (opFrame (rollOp s first))).length⟩ }
  | _ => s

/-- The directory behind a rollover that fails at a step. -/
def leavesIn (step : RollStep) (d : Dir) (s : Store) (first : EntryId) : Dir :=
  let name := segmentPath s.nextSegId
  match step with
  | create => d
  | writeMagic => d.put name ⟨[], []⟩
  | syncSegment => (d.put name ⟨[], []⟩).writeAt name 0 segmentMagic
  | flushManifest => d.create name segmentMagic
  | syncManifest => (d.create name segmentMagic).writeAt manifestFileName s.manifestCursor.position
      (frame (opFrame (rollOp s first)))

theorem present_leavesIn (step : RollStep) (d : Dir) (s : Store) (first : EntryId) :
    (step.leavesIn d s first).present = d.present := by
  cases step <;> simp [leavesIn, Dir.writeAt]

end
end RollStep

section
variable [Crates]

/-- A file that is not one of the store's. -/
theorem Nearly.strewn {d d' : Dir} {es : List Entry} {st : StoreState}
    {log : SegmentId → List Entry} {active : SegmentEntry} (h : Nearly d es st log active)
    {id : SegmentId} (hid : st.lists id = false) (hroom : id.val.toNat+1 < 2^32)
    (hp : d'.present = d.present)
    (hbytes : ∀ name, name ≠ segmentPath id → d'.bytes name = d.bytes name)
    (hmem : ∀ name ∈ d'.files, name = segmentPath id ∨ name ∈ d.files) :
    Littered d' es st log active := by
  have hlive {seg : SegmentEntry} (hseg : seg ∈ st.segments) :
      d'.bytes (segmentPath seg.id) = d.bytes (segmentPath seg.id) := by
    apply hbytes
    intro heq
    rw [← segmentPath_injective heq, lists_of_mem hseg] at hid
    cases hid
  have hbody {seg : SegmentEntry} (hseg : seg ∈ st.segments) : body d' seg.id = body d seg.id := by
    rw [body, body, hlive hseg]
  have hold := h.layout
  refine ⟨⟨hp.trans hold.present, ?_, hold.fits, hold.short, hold.replays, hold.nonempty, ?_, ?_⟩,
    h.shaped, ?_, ?_, h.sealsOk, ?_, ?_, h.whole⟩
  · rw [hbytes _ (segmentPath_ne_manifest id).symm]
    exact hold.manifest
  · intro seg hseg
    rw [HasSegment, hlive hseg, hbody hseg]
    exact hold.files seg hseg
  · intro seg hseg info hi
    rw [hbody hseg]
    exact hold.sealedIntact seg hseg info hi
  · intro seg hseg hne
    rw [hbody hseg]
    exact h.sealedBody seg hseg hne
  · rw [hbody h.shaped.mem]
    exact h.valid
  · intro name hname other hparse
    rcases hmem name hname with rfl | hname
    · rw [parseSegmentPath_segmentPath] at hparse
      rw [Option.some.inj hparse]
    · exact (h.known name hname other hparse).1
  · intro other hother
    rcases hother with hlist | hdisk
    · exact h.room other (Or.inl hlist)
    · obtain ⟨name, hname, hparse⟩ := (mem_diskIds d' other).mp hdisk
      rcases hmem name hname with rfl | hname
      · rw [parseSegmentPath_segmentPath] at hparse
        rw [← Option.some.inj hparse]
        exact hroom
      · exact h.room other (h.known name hname other hparse).2

section
variable {s : Store} {d : Dir} {es : List Entry} {log : SegmentId → List Entry}
  {active : SegmentEntry}

/-- Before the manifest has the rollover, the file of the new segment is the only change. -/
theorem Session.littered (h : Session s d es log active) {step : RollStep}
    (hstep : step ≠ .syncManifest) (first : EntryId) (hroom : s.nextSegId.val.toNat+1 < 2^32) :
    Littered (step.leavesIn d s first) es s.state log active := by
  obtain ⟨hnl, _, _⟩ := h.next_unused
  refine h.clean.nearly.strewn hnl hroom (step.present_leavesIn d s first) ?_ ?_
  · intro name hname
    cases step with
    | create => rfl
    | writeMagic =>
      rw [RollStep.leavesIn, Dir.bytes_put, if_neg hname]
    | syncSegment =>
      rw [RollStep.leavesIn, Dir.bytes_writeAt, if_neg hname, Dir.bytes_put, if_neg hname]
    | flushManifest =>
      rw [RollStep.leavesIn, Dir.bytes_create, if_neg hname]
    | syncManifest => exact absurd rfl hstep
  · intro name hname
    cases step with
    | create => exact Or.inr hname
    | writeMagic => exact (d.mem_put _ _ _).mp hname
    | syncSegment => exact (d.mem_put _ _ _).mp ((Dir.mem_edit _ _ _ _).mp hname)
    | flushManifest => exact (d.mem_create _ _ _).mp hname
    | syncManifest => exact absurd rfl hstep

end

end

section
attribute [local instance] sample

end
end Woodshed
