import Woodshed.PartitionPoint
import Woodshed.Types

/-! The in-memory index: for every segment a list of checkpoints, searched by partition point. It is that
of a release build: the `debug_assert!` of `add_segment` on the order of the first ids is left out. -/
namespace Woodshed
open PartitionPoint

structure SegmentIndex where
  checkpoints : List (EntryId × ℕ)
deriving DecidableEq, Repr

def SegmentIndex.new (checkpoints : List (EntryId × ℕ)) : SegmentIndex := ⟨checkpoints⟩

def SegmentIndex.firstId (x : SegmentIndex) : Option EntryId := x.checkpoints.head?.map (·.1)

/-- The checkpoint with the largest id that is not above `target`. -/
def SegmentIndex.find (x : SegmentIndex) (target : EntryId) : Option (EntryId × ℕ) :=
  let pos := partitionPoint (fun c => decide (c.1 ≤ target)) x.checkpoints
  if pos = 0 then none else x.checkpoints[pos-1]?

def SegmentIndex.truncateStart (x : SegmentIndex) (firstEntry : EntryId) : SegmentIndex :=
  let n := partitionPoint (fun c => decide (c.1 < firstEntry)) x.checkpoints
  ⟨x.checkpoints.drop n⟩

def SegmentIndex.truncateEnd (x : SegmentIndex) (lastValid : EntryId) : SegmentIndex :=
  let keep := partitionPoint (fun c => decide (c.1 ≤ lastValid)) x.checkpoints
  ⟨x.checkpoints.take keep⟩

structure IndexPosition where
  segment : SegmentId
  checkpoint : EntryId
  byteOffset : ℕ
deriving DecidableEq, Repr

structure EntryIndex where
  segments : List (SegmentId × SegmentIndex)
deriving DecidableEq, Repr

def EntryIndex.new : EntryIndex := ⟨[]⟩

def EntryIndex.addSegment (x : EntryIndex) (id : SegmentId) (index : SegmentIndex) : EntryIndex :=
  ⟨x.segments ++ [(id, index)]⟩

/-- The predicate of every search over the segments: the first checkpoint is not above `target`. -/
def startsBy (target : EntryId) (s : SegmentId × SegmentIndex) : Bool :=
  s.2.firstId.any (fun id => decide (id ≤ target))

def EntryIndex.find (x : EntryIndex) (target : EntryId) : Option IndexPosition :=
  let pos := partitionPoint (startsBy target) x.segments
  if pos = 0 then none
  else
    match x.segments[pos-1]? with
    | none => none
    | some (segId, segIdx) =>
      (segIdx.find target).map fun c => ⟨segId, c.1, c.2⟩

def EntryIndex.truncateStart (x : EntryIndex) (firstEntry : EntryId) : EntryIndex :=
  let pos := partitionPoint (startsBy firstEntry) x.segments
  if pos = 0 then x
  else
    match x.segments.drop (pos-1) with
    | [] => x
    | (id, idx) :: rest => ⟨(id, idx.truncateStart firstEntry) :: rest⟩

def EntryIndex.truncateEnd (x : EntryIndex) (lastValid : EntryId) : EntryIndex :=
  let pos := partitionPoint (startsBy lastValid) x.segments
  match (x.segments.take pos).getLast? with
  | none => ⟨x.segments.take pos⟩
  | some (id, idx) =>
    ⟨(x.segments.take pos).dropLast ++ [(id, idx.truncateEnd lastValid)]⟩

end Woodshed
