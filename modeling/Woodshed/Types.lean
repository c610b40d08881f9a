import Mathlib

/-! Identifiers, configuration, errors and the third-party code the store calls. -/
namespace Woodshed

abbrev Bytes := List UInt8

/-- Caller-provided id of an entry, a `u64`. -/
structure EntryId where
  val : UInt64
deriving DecidableEq, Repr

/-- Id of a segment file, a `u32`. -/
structure SegmentId where
  val : UInt32
deriving DecidableEq, Repr

instance : LinearOrder EntryId :=
  LinearOrder.lift' (fun i => i.val.toNat) (by
    rintro ⟨a⟩ ⟨b⟩ h
    exact congrArg EntryId.mk (UInt64.toNat_inj.mp h))

instance : LinearOrder SegmentId :=
  LinearOrder.lift' (fun i => i.val.toNat) (by
    rintro ⟨a⟩ ⟨b⟩ h
    exact congrArg SegmentId.mk (UInt32.toNat_inj.mp h))

theorem EntryId.le_iff (a b : EntryId) : a ≤ b ↔ a.val.toNat ≤ b.val.toNat := Iff.rfl

theorem EntryId.lt_iff (a b : EntryId) : a < b ↔ a.val.toNat < b.val.toNat := Iff.rfl

theorem EntryId.zero_le (a : EntryId) : (⟨0⟩ : EntryId) ≤ a := Nat.zero_le _

theorem SegmentId.le_iff (a b : SegmentId) : a ≤ b ↔ a.val.toNat ≤ b.val.toNat := Iff.rfl

theorem SegmentId.lt_iff (a b : SegmentId) : a < b ↔ a.val.toNat < b.val.toNat := Iff.rfl

theorem SegmentId.ext_toNat {a b : SegmentId} (h : a.val.toNat = b.val.toNat) : a = b := by
  cases a; cases b
  exact congrArg SegmentId.mk (UInt32.toNat_inj.mp h)

/-- An entry of the log: its id and its payload. -/
abbrev Entry := EntryId × Bytes

/-- `StoreCfg`; the base directory is the one of the world a program runs in. -/
structure StoreCfg where
  segmentRolloverTriggerBytes : ℕ

inductive ErrorKind where
  | notFound
  | alreadyExists
  | invalidInput
  | invalidData
  | unexpectedEof
  | other
deriving DecidableEq, Repr

/-- `std::io::Error`. -/
structure IoError where
  kind : ErrorKind
  message : String
deriving DecidableEq, Repr

/-- How a call ends that does not return a value: with an error, in a panic, or never. -/
inductive Failure (ε : Type) where
  | err (e : ε)
  | panic (message : String)
  | diverges
deriving DecidableEq, Repr

/-- A yatlv field: its tag and its bytes, which do not say what they are. A sub-frame is the bytes it is
built to. -/
structure Field where
  tag : UInt16
  bytes : Bytes
deriving DecidableEq, Repr

/-- What the store takes from other crates and from `std`'s hash sets: the checksum of a byte
string, the yatlv frame builder and parser, and the order in which a call iterates its hash sets. Every
set has an order of its own: another call may come with another one. -/
class Crates where
  xxh64 : Bytes → UInt64
  build : List Field → Bytes
  parse : Bytes → Option (List Field)
  hashIter : Finset SegmentId → List SegmentId
  /-- A built frame parses back to its fields, in order. -/
  parse_build : ∀ fs, parse (build fs) = some fs
  /-- The empty byte string is not a frame. -/
  parse_nil : parse [] = none
  /-- A frame of at most eight fields of at most eight bytes is shorter than 4 GiB. -/
  build_short : ∀ fs, fs.length ≤ 8 → (∀ f ∈ fs, f.bytes.length ≤ 8) → (build fs).length < 2^32
  /-- Iteration visits every member of the set, once. -/
  hashIter_nodup : ∀ s, (hashIter s).Nodup
  mem_hashIter : ∀ s id, id ∈ hashIter s ↔ id ∈ s

end Woodshed
