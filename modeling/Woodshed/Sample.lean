import Woodshed.BaseDigits
import Woodshed.Types

/-! A concrete choice for the third-party code, to run the model on: a checksum that adds up the
bytes, a frame of flagged bytes, and iteration in the order of the ids. -/
namespace Woodshed
open BaseDigits

namespace Sample

/-- The sum of the bytes, each plus one. -/
def digest (bs : Bytes) : UInt64 := UInt64.ofNat (bs.map fun b => b.toNat+1).sum

/-- A byte string that marks its own end. -/
def flagged (bs : Bytes) : Bytes := bs.flatMap (fun b => [1, b]) ++ [0]

def fieldBytes (f : Field) : Bytes := toBytes 2 f.tag.toNat ++ f.bytes

def build (fs : List Field) : Bytes := 1 :: fs.flatMap fun f => flagged (fieldBytes f)

/-- The byte strings in a run of flagged ones; `acc` holds the current one, reversed. -/
def chunks : Bytes → Bytes → Option (List Bytes)
  | [], [] => some []
  | [], _ :: _ => none
  | 0 :: rest, acc => (chunks rest []).map (acc.reverse :: ·)
  | 1 :: b :: rest, acc => chunks rest (b :: acc)
  | _ :: _, _ => none

def fieldOf : Bytes → Option Field
  | a :: b :: rest => some ⟨UInt16.ofNat (ofBytes [a, b]), rest⟩
  | _ => none

def parse : Bytes → Option (List Field)
  | 1 :: rest => do
    let cs ← chunks rest []
    cs.mapM fieldOf
  | _ => none

theorem fieldOf_fieldBytes (f : Field) : fieldOf (fieldBytes f) = some f := by
  have htag : UInt16.ofNat (ofBytes (toBytes 2 f.tag.toNat)) = f.tag := by
    rw [ofBytes_toBytes, Nat.mod_eq_of_lt (by have := f.tag.toNat_lt; omega)]
    exact UInt16.ofNat_toNat
  obtain ⟨a, b, hab⟩ : ∃ a b, toBytes 2 f.tag.toNat = [a, b] :=
    List.length_eq_two.mp (length_toBytes 2 _)
  rw [hab] at htag
  rw [fieldBytes, hab]
  simp only [List.cons_append, List.nil_append, fieldOf, htag]

theorem chunks_flagged (bs rest acc : Bytes) :
    chunks (flagged bs ++ rest) acc = (chunks rest []).map ((acc.reverse ++ bs) :: ·) := by
  induction bs generalizing acc with
  | nil => simp [flagged, chunks]
  | cons b bs ih =>
    have hcons : flagged (b :: bs) ++ rest = 1 :: b :: (flagged bs ++ rest) := by
      simp [flagged]
    rw [hcons, chunks, ih]
    simp

theorem chunks_fields (fs : List Field) :
    chunks (fs.flatMap fun f => flagged (fieldBytes f)) [] = some (fs.map fieldBytes) := by
  induction fs with
  | nil => rfl
  | cons f fs ih =>
    rw [List.flatMap_cons, chunks_flagged, ih]
    rfl

theorem mapM_fieldOf (fs : List Field) : (fs.map fieldBytes).mapM fieldOf = some fs := by
  induction fs with
  | nil => rfl
  | cons f fs ih =>
    rw [List.map_cons, List.mapM_cons, fieldOf_fieldBytes, ih]
    rfl

theorem parse_build (fs : List Field) : parse (build fs) = some fs := by
  rw [build, parse, chunks_fields]
  exact mapM_fieldOf fs

theorem length_flagged (bs : Bytes) : (flagged bs).length = 2*bs.length+1 := by
  induction bs with
  | nil => rfl
  | cons b bs ih =>
    simp only [flagged, List.flatMap_cons, List.length_append, List.length_cons, List.length_nil]
      at ih ⊢
    omega

theorem build_short (fs : List Field) (hlen : fs.length ≤ 8)
    (hshort : ∀ f ∈ fs, f.bytes.length ≤ 8) : (build fs).length < 2^32 := by
  have hfield : ∀ f ∈ fs, (flagged (fieldBytes f)).length ≤ 21 := by
    intro f hf
    have h := hshort f hf
    rw [length_flagged, fieldBytes, List.length_append, length_toBytes]
    omega
  have hsum : (fs.flatMap fun f => flagged (fieldBytes f)).length ≤ fs.length*21 := by
    rw [List.length_flatMap, ← smul_eq_mul, ← List.length_map (fun f => (flagged (fieldBytes f)).length)]
    refine List.sum_le_card_nsmul _ 21 ?_
    intro n hn
    obtain ⟨f, hf, rfl⟩ := List.mem_map.mp hn
    exact hfield f hf
  rw [build, List.length_cons]
  omega

/-- Bytes at the end change the sum, unless it overflows. -/
theorem digest_append_ne (xs ys : Bytes) (hne : ys ≠ [])
    (hlen : 256*(xs ++ ys).length < 2^64) : digest xs ≠ digest (xs ++ ys) := by
  have hle (bs : Bytes) : (bs.map fun b => b.toNat+1).sum ≤ 256*bs.length ∧
      bs.length ≤ (bs.map fun b => b.toNat+1).sum := by
    induction bs with
    | nil => simp
    | cons b bs ih =>
      have hb := b.toNat_lt
      simp only [List.map_cons, List.sum_cons, List.length_cons]
      omega
  have hpos : 0 < ys.length := List.length_pos_of_ne_nil hne
  obtain ⟨hxu, _⟩ := hle xs
  obtain ⟨hyu, hyl⟩ := hle ys
  rw [List.length_append] at hlen
  intro heq
  have hnat := congrArg UInt64.toNat heq
  rw [digest, digest, List.map_append, List.sum_append, UInt64.toNat_ofNat', UInt64.toNat_ofNat',
    Nat.mod_eq_of_lt (by omega), Nat.mod_eq_of_lt (by omega)] at hnat
  omega

end Sample

/-- The concrete choice. -/
@[reducible]
def sample : Crates where
  xxh64 := Sample.digest
  build := Sample.build
  parse := Sample.parse
  hashIter := fun s => s.sort (· ≤ ·)
  parse_build := Sample.parse_build
  parse_nil := rfl
  build_short := Sample.build_short
  hashIter_nodup := fun s => s.sort_nodup (· ≤ ·)
  mem_hashIter := fun s id => by simp

end Woodshed
