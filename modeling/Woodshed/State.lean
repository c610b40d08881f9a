import Woodshed.BaseDigits
import Woodshed.Sequencing
import Woodshed.Types

/-! The manifest state machine and the codec of its ops. -/
namespace Woodshed
open BaseDigits Sequencing

structure SegmentEntry where
  id : SegmentId
  firstEntry : EntryId
deriving DecidableEq, Repr

structure SealInfo where
  firstEntry : EntryId
  lastEntry : EntryId
  entryCount : UInt32
  finalSize : UInt64
deriving DecidableEq, Repr

abbrev Meta := List (UInt8 × Bytes)

@[ext]
structure StoreState where
  segments : List SegmentEntry
  seals : SegmentId → Option SealInfo
  activeSegmentId : Option SegmentId
  dead : Finset SegmentId
  firstEntry : EntryId
  metaPairs : Meta

inductive Op where
  | createSegment (id : SegmentId) (firstEntry : EntryId)
  | rollSegment (sealedId : SegmentId) (firstEntry lastEntry : EntryId) (entryCount : UInt32)
      (finalSize : UInt64) (newId : SegmentId) (newFirstEntry : EntryId)
  | truncateStart (firstEntry : EntryId) (drop : List SegmentId)
  | truncateEnd (newActiveId : SegmentId) (byteOffset : UInt64) (drop : List SegmentId)
  | segmentDeleted (id : SegmentId)
  | recordOrphan (id : SegmentId)
  | metadata
deriving DecidableEq, Repr

/-- A manifest record: a structural op with metadata pairs. -/
structure ManifestOp where
  op : Op
  metaPairs : Meta
deriving DecidableEq, Repr

def ManifestOp.bare (op : Op) : ManifestOp := ⟨op, []⟩
def ManifestOp.withMeta (op : Op) (metaPairs : Meta) : ManifestOp := ⟨op, metaPairs⟩

namespace StoreState

def empty : StoreState := ⟨[], fun _ => none, none, ∅, ⟨0⟩, []⟩

def sealInfo (s : StoreState) (id : SegmentId) : Option SealInfo := s.seals id

def metadata (s : StoreState) : Meta := s.metaPairs

def activeSegment (s : StoreState) : Option SegmentEntry := do
  let id ← s.activeSegmentId
  s.segments.find? (·.id = id)

def isEmpty (s : StoreState) : Bool := s.segments.isEmpty

/-- Whether `id` is listed in `segments`. -/
def lists (s : StoreState) (id : SegmentId) : Bool := s.segments.any (·.id = id)

end StoreState

/-! ### Applying an op -/

inductive ApplyError where
  | storeNotEmpty
  | notActiveSegment (id : SegmentId)
  | truncateStartBeforeFirst (firstEntry : EntryId)
  | segmentNotFound (id : SegmentId)
  | segmentNotDead (id : SegmentId)
deriving DecidableEq, Repr

abbrev Applying := EStateM ApplyError StoreState Unit

namespace StoreState

def createSegment (id : SegmentId) (firstEntry : EntryId) : Applying := do
  let s ← get
  if s.isEmpty = false then throw .storeNotEmpty
  else
    modify fun s => { s with
      firstEntry := firstEntry
      segments := s.segments ++ [⟨id, firstEntry⟩]
      activeSegmentId := some id }

def rollSegment (sealedId : SegmentId) (info : SealInfo) (newId : SegmentId)
    (newFirstEntry : EntryId) : Applying := do
  let s ← get
  if s.activeSegmentId ≠ some sealedId then throw (.notActiveSegment sealedId)
  else
    modify fun s => { s with
      seals := Function.update s.seals sealedId (some info)
      segments := s.segments ++ [⟨newId, newFirstEntry⟩]
      activeSegmentId := some newId }

def killSegment (s : StoreState) (id : SegmentId) : StoreState :=
  { s with
    segments := s.segments.filter (·.id ≠ id)
    seals := Function.update s.seals id none
    dead := insert id s.dead }

def truncateStart (firstEntry : EntryId) (drop : List SegmentId) : Applying := do
  let s ← get
  if firstEntry < s.firstEntry then throw (.truncateStartBeforeFirst firstEntry)
  else modify fun s => { drop.foldl killSegment s with firstEntry := firstEntry }

/-- The byte offset is recorded for readers of the manifest; replay does not use it. -/
def truncateEnd (newActiveId : SegmentId) (_byteOffset : UInt64) (drop : List SegmentId) :
    Applying := do
  let s ← get
  match drop.find? (fun id => s.lists id = false) with
  | some id => throw (.segmentNotFound id)
  | none =>
    if s.lists newActiveId = false then throw (.segmentNotFound newActiveId)
    else
      modify fun s =>
        let s' := drop.foldl killSegment s
        { s' with
          seals := Function.update s'.seals newActiveId none
          activeSegmentId := some newActiveId }

def segmentDeleted (id : SegmentId) : Applying := do
  let s ← get
  if id ∈ s.dead then modify fun s => { s with dead := s.dead.erase id }
  else throw (.segmentNotDead id)

def recordOrphan (id : SegmentId) : Applying :=
  modify fun s => { s with dead := insert id s.dead }

/-- Overwrite the pair with the same key, or add the pair at the end. -/
def setMeta : Meta → UInt8 × Bytes → Meta
  | [], p => [p]
  | q :: qs, p => if q.1 = p.1 then (q.1, p.2) :: qs else q :: setMeta qs p

def applyOp : Op → Applying
  | .createSegment id firstEntry => createSegment id firstEntry
  | .rollSegment sealedId firstEntry lastEntry entryCount finalSize newId newFirstEntry =>
    rollSegment sealedId ⟨firstEntry, lastEntry, entryCount, finalSize⟩ newId newFirstEntry
  | .truncateStart firstEntry drop => truncateStart firstEntry drop
  | .truncateEnd newActiveId byteOffset drop => truncateEnd newActiveId byteOffset drop
  | .segmentDeleted id => segmentDeleted id
  | .recordOrphan id => recordOrphan id
  | .metadata => return ()

/-- `StoreState::apply`. -/
def apply (entry : ManifestOp) : Applying := do
  applyOp entry.op
  modify fun s => { s with metaPairs := entry.metaPairs.foldl setMeta s.metaPairs }

end StoreState

/-! ### Codec -/

def tagOpType : UInt16 := 1
def tagSegmentId : UInt16 := 2
def tagFirstEntry : UInt16 := 3
def tagLastEntry : UInt16 := 4
def tagEntryCount : UInt16 := 5
def tagFinalSize : UInt16 := 6
def tagNewSegmentId : UInt16 := 7
def tagNewFirstEntry : UInt16 := 8
def tagByteOffset : UInt16 := 9
def tagDropId : UInt16 := 10
def tagMeta : UInt16 := 11
def tagMetaKey : UInt16 := 1
def tagMetaValue : UInt16 := 2

inductive DecodeError where
  | unknownOpType (tag : UInt8)
  /-- yatlv's own error: no frame, no field with the tag, or a field of another width. -/
  | format
deriving DecidableEq, Repr

/-! The fields that yatlv's builder adds. -/

def Field.u8 (tag : UInt16) (x : UInt8) : Field := ⟨tag, [x]⟩

def Field.u32 (tag : UInt16) (x : UInt32) : Field := ⟨tag, toBytes 4 x.toNat⟩

def Field.u64 (tag : UInt16) (x : UInt64) : Field := ⟨tag, toBytes 8 x.toNat⟩

@[simp] theorem Field.tag_u8 (tag : UInt16) (x : UInt8) : (Field.u8 tag x).tag = tag := rfl

@[simp] theorem Field.tag_u32 (tag : UInt16) (x : UInt32) : (Field.u32 tag x).tag = tag := rfl

@[simp] theorem Field.tag_u64 (tag : UInt16) (x : UInt64) : (Field.u64 tag x).tag = tag := rfl

@[simp] theorem Field.length_u8 (tag : UInt16) (x : UInt8) : (Field.u8 tag x).bytes.length = 1 := rfl

@[simp] theorem Field.length_u32 (tag : UInt16) (x : UInt32) : (Field.u32 tag x).bytes.length = 4 :=
  length_toBytes 4 _

@[simp] theorem Field.length_u64 (tag : UInt16) (x : UInt64) : (Field.u64 tag x).bytes.length = 8 :=
  length_toBytes 8 _

/-! yatlv's getters: the first field with the tag, or all of them in order. The getter of an integer also
takes the integers that are narrower. -/

/-- The bytes as an integer, if they are as many as one of the widths. -/
def uintOf (widths : List ℕ) (bs : Bytes) : Except DecodeError ℕ :=
  if bs.length ∈ widths then .ok (ofBytes bs) else .error .format

def fieldU8 (f : Field) : Except DecodeError UInt8 := (uintOf [1] f.bytes).map UInt8.ofNat

def fieldU32 (f : Field) : Except DecodeError UInt32 := (uintOf [1, 2, 4] f.bytes).map UInt32.ofNat

def fieldU64 (f : Field) : Except DecodeError UInt64 := (uintOf [1, 2, 4, 8] f.bytes).map UInt64.ofNat

def getField (fs : List Field) (tag : UInt16) : Except DecodeError Field :=
  match fs.find? (·.tag = tag) with
  | some f => .ok f
  | none => .error .format

def getU8 (fs : List Field) (tag : UInt16) : Except DecodeError UInt8 := getField fs tag >>= fieldU8

def getU32 (fs : List Field) (tag : UInt16) : Except DecodeError UInt32 := getField fs tag >>= fieldU32

def getU64 (fs : List Field) (tag : UInt16) : Except DecodeError UInt64 := getField fs tag >>= fieldU64

def getData (fs : List Field) (tag : UInt16) : Except DecodeError Bytes :=
  (getField fs tag).map (·.bytes)

def getU32s (fs : List Field) (tag : UInt16) : Except DecodeError (List UInt32) :=
  (fs.filter (·.tag = tag)).mapM fieldU32

section
variable [Crates]

def fieldFrame (f : Field) : Except DecodeError (List Field) :=
  match Crates.parse f.bytes with
  | some fs => .ok fs
  | none => .error .format

namespace Op

def typeTag : Op → UInt8
  | .createSegment .. => 0x01
  | .rollSegment .. => 0x02
  | .truncateStart .. => 0x03
  | .truncateEnd .. => 0x04
  | .segmentDeleted .. => 0x05
  | .recordOrphan .. => 0x06
  | .metadata => 0x07

def fields : Op → List Field
  | .createSegment id firstEntry =>
    [Field.u32 tagSegmentId id.val, Field.u64 tagFirstEntry firstEntry.val]
  | .rollSegment sealedId firstEntry lastEntry entryCount finalSize newId newFirstEntry =>
    [Field.u32 tagSegmentId sealedId.val, Field.u64 tagFirstEntry firstEntry.val,
      Field.u64 tagLastEntry lastEntry.val, Field.u32 tagEntryCount entryCount,
      Field.u64 tagFinalSize finalSize, Field.u32 tagNewSegmentId newId.val,
      Field.u64 tagNewFirstEntry newFirstEntry.val]
  | .truncateStart firstEntry drop =>
    Field.u64 tagFirstEntry firstEntry.val :: drop.map fun id => Field.u32 tagDropId id.val
  | .truncateEnd newActiveId byteOffset drop =>
    Field.u32 tagNewSegmentId newActiveId.val :: Field.u64 tagByteOffset byteOffset ::
      drop.map fun id => Field.u32 tagDropId id.val
  | .segmentDeleted id => [Field.u32 tagSegmentId id.val]
  | .recordOrphan id => [Field.u32 tagSegmentId id.val]
  | .metadata => []

def ofFields (fs : List Field) : Except DecodeError Op := do
  match ← getU8 fs tagOpType with
  | 0x01 => return .createSegment ⟨← getU32 fs tagSegmentId⟩ ⟨← getU64 fs tagFirstEntry⟩
  | 0x02 =>
    return .rollSegment ⟨← getU32 fs tagSegmentId⟩ ⟨← getU64 fs tagFirstEntry⟩
      ⟨← getU64 fs tagLastEntry⟩ (← getU32 fs tagEntryCount) (← getU64 fs tagFinalSize)
      ⟨← getU32 fs tagNewSegmentId⟩ ⟨← getU64 fs tagNewFirstEntry⟩
  | 0x03 =>
    let firstEntry ← getU64 fs tagFirstEntry
    let drop ← getU32s fs tagDropId
    return .truncateStart ⟨firstEntry⟩ (drop.map SegmentId.mk)
  | 0x04 =>
    let newActiveId ← getU32 fs tagNewSegmentId
    let byteOffset ← getU64 fs tagByteOffset
    let drop ← getU32s fs tagDropId
    return .truncateEnd ⟨newActiveId⟩ byteOffset (drop.map SegmentId.mk)
  | 0x05 => return .segmentDeleted ⟨← getU32 fs tagSegmentId⟩
  | 0x06 => return .recordOrphan ⟨← getU32 fs tagSegmentId⟩
  | 0x07 => return .metadata
  | tag => throw (.unknownOpType tag)

end Op

def metaField (p : UInt8 × Bytes) : Field :=
  ⟨tagMeta, Crates.build [Field.u8 tagMetaKey p.1, ⟨tagMetaValue, p.2⟩]⟩

def metaOfField (f : Field) : Except DecodeError (UInt8 × Bytes) := do
  let fs ← fieldFrame f
  let key ← getU8 fs tagMetaKey
  let value ← getData fs tagMetaValue
  return (key, value)

def ManifestOp.encode (m : ManifestOp) : Bytes :=
  Crates.build (Field.u8 tagOpType m.op.typeTag :: m.op.fields ++ m.metaPairs.map metaField)

def ManifestOp.decode (bytes : Bytes) : Except DecodeError ManifestOp :=
  match Crates.parse bytes with
  | none => .error .format
  | some fs => do
    let op ← Op.ofFields fs
    let metaPairs ← (fs.filter (·.tag = tagMeta)).mapM metaOfField
    return ⟨op, metaPairs⟩

end
end Woodshed
