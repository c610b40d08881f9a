import Woodshed.KeyedWrites
import Woodshed.State

/-! What applying ops, some of them refused, leaves of their metadata pairs. -/
namespace Woodshed
open Sequencing KeyedWrites

theorem setMeta_eq_put (m : Meta) (p : UInt8 × Bytes) : StoreState.setMeta m p = put m p := by
  induction m with
  | nil => rfl
  | cons q m ih => rw [StoreState.setMeta, put, ih]

theorem foldl_setMeta (m pairs : Meta) :
    pairs.foldl StoreState.setMeta m = pairs.foldl put m := by
  have heq : StoreState.setMeta = put := by
    funext m p
    exact setMeta_eq_put m p
  rw [heq]

namespace StoreState

/-- A structural op checks everything before it changes anything, and leaves the metadata alone. -/
theorem applyOp_cases (op : Op) (s : StoreState) :
    (∃ e, applyOp op s = .error e s) ∨
      ∃ s', applyOp op s = .ok ⟨⟩ s' ∧ s'.metaPairs = s.metaPairs := by
  have hkilled (ids : List SegmentId) (s : StoreState) :
      (ids.foldl killSegment s).metaPairs = s.metaPairs := by
    induction ids generalizing s with
    | nil => rfl
    | cons id ids ih => exact ih _
  cases op with
  | createSegment id first =>
    rw [applyOp, createSegment, get_bind]
    by_cases hc : s.isEmpty = false
    · exact Or.inl ⟨_, congrFun (if_pos hc) s⟩
    · exact Or.inr ⟨_, congrFun (if_neg hc) s, rfl⟩
  | rollSegment sealedId first last count size newId newFirst =>
    rw [applyOp, rollSegment, get_bind]
    by_cases hc : s.activeSegmentId ≠ some sealedId
    · exact Or.inl ⟨_, congrFun (if_pos hc) s⟩
    · exact Or.inr ⟨_, congrFun (if_neg hc) s, rfl⟩
  | truncateStart first drop =>
    rw [applyOp, truncateStart, get_bind]
    by_cases hc : first < s.firstEntry
    · exact Or.inl ⟨_, congrFun (if_pos hc) s⟩
    · exact Or.inr ⟨_, congrFun (if_neg hc) s, hkilled drop s⟩
  | truncateEnd newActive offset drop =>
    rw [applyOp, truncateEnd, get_bind]
    cases hd : drop.find? (fun id => s.lists id = false) with
    | some id => exact Or.inl ⟨_, rfl⟩
    | none =>
      dsimp only
      by_cases hc : s.lists newActive = false
      · exact Or.inl ⟨_, congrFun (if_pos hc) s⟩
      · exact Or.inr ⟨_, congrFun (if_neg hc) s, hkilled drop s⟩
  | segmentDeleted id =>
    rw [applyOp, segmentDeleted, get_bind]
    by_cases hc : id ∈ s.dead
    · exact Or.inr ⟨_, congrFun (if_pos hc) s, rfl⟩
    · exact Or.inl ⟨_, congrFun (if_neg hc) s⟩
  | recordOrphan id => exact Or.inr ⟨_, rfl, rfl⟩
  | metadata => exact Or.inr ⟨_, rfl, rfl⟩

/-- An op is refused and changes nothing, or its pairs are written over the metadata. -/
theorem apply_cases (entry : ManifestOp) (s : StoreState) :
    (∃ e, apply entry s = .error e s) ∨
      ∃ s', apply entry s = .ok ⟨⟩ s' ∧ s'.metaPairs = entry.metaPairs.foldl put s.metaPairs := by
  rcases applyOp_cases entry.op s with ⟨e, hop⟩ | ⟨t, hop, hmeta⟩
  · exact Or.inl ⟨e, bind_error hop⟩
  · refine Or.inr ⟨_, bind_ok hop, ?_⟩
    rw [← hmeta, ← foldl_setMeta]

/-- The state behind an op, accepted or not. -/
def behind (s : StoreState) (entry : ManifestOp) : StoreState :=
  match apply entry s with
  | .ok _ s' => s'
  | .error _ s' => s'

def accepts (s : StoreState) (entry : ManifestOp) : Bool := succeeds (apply entry s)

/-- The ops of a list that are accepted when their turn comes. -/
def accepted : StoreState → List ManifestOp → List ManifestOp
  | _, [] => []
  | s, op :: ops =>
    if s.accepts op then op :: accepted (s.behind op) ops else accepted (s.behind op) ops

/-- Ops from a state whose metadata is the last writes of `ps`. -/
theorem foldl_behind_metadata (ops : List ManifestOp) {s : StoreState} {ps : Meta}
    (h : LastWrites ps s.metadata) :
    LastWrites (ps ++ (s.accepted ops).flatMap (·.metaPairs)) (ops.foldl behind s).metadata := by
  induction ops generalizing s ps with
  | nil => simpa [accepted] using h
  | cons op ops ih =>
    rw [accepted, List.foldl_cons]
    rcases apply_cases op s with ⟨e, hrun⟩ | ⟨s', hrun, hmeta⟩
    · have hbehind : s.behind op = s := by rw [behind, hrun]
      have hnot : s.accepts op = false := by rw [accepts, hrun]; rfl
      rw [hbehind, hnot, if_neg Bool.false_ne_true]
      exact ih h
    · have hbehind : s.behind op = s' := by rw [behind, hrun]
      have hyes : s.accepts op = true := by rw [accepts, hrun]; rfl
      have hwritten : LastWrites (ps ++ op.metaPairs) s'.metadata := by
        rw [metadata, hmeta]
        exact h.foldl op.metaPairs
      rw [hbehind, hyes, if_pos rfl, List.flatMap_cons, ← List.append_assoc]
      exact ih hwritten

/-- Behind every list of ops the metadata is what the accepted ones wrote last, and a refused op
changes nothing. -/
theorem metadata_lastWrites (ops : List ManifestOp) :
    (((ops.foldl behind empty).metadata).map (·.1)).Nodup ∧
      LastWrites ((empty.accepted ops).flatMap (·.metaPairs)) (ops.foldl behind empty).metadata ∧
      ∀ op e s', apply op (ops.foldl behind empty) = .error e s' → s' = ops.foldl behind empty := by
  have h := foldl_behind_metadata ops (s := empty) LastWrites.nil
  rw [List.nil_append] at h
  refine ⟨h.nodup, h, fun op e s' hop => ?_⟩
  rcases apply_cases op (ops.foldl behind empty) with ⟨_, hrun⟩ | ⟨_, hrun, _⟩
  · rw [hrun] at hop
    cases hop
    rfl
  · rw [hrun] at hop
    cases hop

end StoreState
end Woodshed
