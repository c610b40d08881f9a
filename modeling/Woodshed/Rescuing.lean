import Woodshed.Approving

/-! What a recovery with approval keeps: the state but for the dead segments, and of every live segment
the valid frames in front. -/
namespace Woodshed
open Sequencing Framing

section
variable [Crates]

/-- A recovery that comes to its end had a fix-up for every issue. -/
theorem fixable_of_recover {d : Dir} {w : World} (h : Store.recover (calm d) = .ok ⟨⟩ w) :
    Fixable d := by
  unfold Store.recover at h
  rw [bind_ok (onDisk_ok (scan_calm d)), attemptRecovery, collectFixUps_eq] at h
  cases hv : (survey d).issues.findSome? (FileIssue.blocks true) with
  | some e => rw [hv] at h; cases h
  | none =>
    intro issue hi
    have hblocks := List.findSome?_eq_none_iff.mp hv issue hi
    unfold FileIssue.blocks at hblocks
    cases hf : createFixUp issue with
    | none => simp [hf] at hblocks
    | some f => rfl

/-- What an approved recovery leaves of the directory `d`. -/
structure Rescued (d d' : Dir) : Prop where
  /-- The manifest says the same of all segments that are not dead. -/
  state : (survey d').state = { (survey d).state with dead := (survey d').state.dead }
  /-- Dead are the segments with a file that were so or were not known. -/
  dead : ∀ id, id ∈ (survey d').state.dead ↔
    id ∈ diskIds d ∧ ((survey d).state.lists id = false ∨ id ∈ (survey d).state.dead)
  /-- The live segments keep their longest prefix of valid frames; one without a file gets it. -/
  live : ∀ seg ∈ (survey d).state.segments,
    d'.bytes (segmentPath seg.id) = some (segmentMagic ++ validPrefix (body d seg.id))
  /-- No other segment file is touched. -/
  others : ∀ id, (survey d).state.lists id = false →
    d'.bytes (segmentPath id) = d.bytes (segmentPath id)
  files : ∀ name, name ∈ d'.files ↔
    name ∈ d.files ∨ ∃ seg ∈ (survey d).state.segments, name = segmentPath seg.id

/-- A recovery with approval that comes to its end cuts every live segment to the valid frames in
front, and neither changes nor loses anything else. -/
theorem recover_rescues {d : Dir} {w : World} (hok : Store.recover (calm d) = .ok ⟨⟩ w) :
    ∃ d', w = calm d' ∧ Rescued d d' := by
  have hf := fixable_of_recover hok
  obtain ⟨es, tail, st, h⟩ := outline_of_fixable hf
  rcases h.recover hf with ⟨_, d', es', dead, hrun, hrec⟩ | ⟨_, e, w', hrun⟩
  · rw [hok] at hrun
    obtain ⟨_, rfl⟩ := EStateM.Result.ok.inj hrun
    have hst : (survey d).state = st := by rw [h.survey_eq]
    have hst' : (survey d').state = { st with dead := dead } := by rw [hrec.outline.survey_eq]
    refine ⟨d', rfl, ?_, ?_, ?_, ?_, ?_⟩
    · rw [hst, hst']
    · rw [hst, hst']
      exact hrec.deads
    · rw [hst]
      exact hrec.bytes
    · rw [hst]
      exact hrec.others
    · rw [hst]
      exact hrec.files
  · rw [hok] at hrun
    cases hrun

/-- With approval, only an issue without a fix-up stops a recovery. -/
theorem recover_refused {d : Dir} {issue : FileIssue} (hi : issue ∈ (survey d).issues)
    (hfatal : issue.Fatal) : Store.recover (calm d) = .error .notPossible (calm d) := by
  have hblocks : issue.blocks true = some .notPossible :=
    FileIssue.blocks_notPossible_iff.mpr hfatal
  have hfind : (survey d).issues.findSome? (FileIssue.blocks true) = some .notPossible := by
    cases hv : (survey d).issues.findSome? (FileIssue.blocks true) with
    | none =>
      rw [List.findSome?_eq_none_iff.mp hv issue hi] at hblocks
      cases hblocks
    | some e =>
      obtain ⟨x, _, hx⟩ := List.exists_of_findSome?_eq_some hv
      rcases FileIssue.blocks_eq hx with rfl | rfl
      · rfl
      · have happroved := (FileIssue.blocks_approvalRequired_iff.mp hx).1
        cases happroved
  unfold Store.recover
  rw [bind_ok (onDisk_ok (scan_calm d)), attemptRecovery, collectFixUps_eq, hfind]
  rfl

/-- Recovering a second time changes nothing any more: it has nothing to do, or it is refused over the
size of a sealed segment. -/
theorem recover_again {d : Dir} {w : World} (hok : Store.recover (calm d) = .ok ⟨⟩ w) :
    Store.recover w = .ok ⟨⟩ w ∨ Store.recover w = .error .notPossible w := by
  have hf := fixable_of_recover hok
  obtain ⟨es, tail, st, h⟩ := outline_of_fixable hf
  rcases h.recover hf with ⟨_, d', es', dead, hrun, hrecovered⟩ | ⟨_, e, w', hrun⟩
  · rw [hok] at hrun
    obtain ⟨_, rfl⟩ := EStateM.Result.ok.inj hrun
    by_cases hnil : (survey d').issues = []
    · left
      unfold Store.recover
      rw [bind_ok (onDisk_ok (scan_calm d')), attemptRecovery, hnil]
      rfl
    · -- a sealed segment was cut, and is not of the size on record any more
      right
      obtain ⟨issue, hi, hfatal⟩ := hrecovered.mem_fatal hnil
      exact recover_refused hi hfatal
  · rw [hok] at hrun
    cases hrun

end

section
attribute [local instance] sample

/-- A sealed segment with an altered frame is cut in front of it. -/
theorem recover_bruised : ∃ w, Store.recover (calm bruised) = .ok ⟨⟩ w := by
  obtain ⟨_, w, h⟩ := exists_of_succeeds
    (show succeeds (Store.recover (calm bruised)) = true by decide +kernel)
  exact ⟨w, h⟩

theorem recover_rescues_bruised : ∃ d, Store.recover (calm bruised) = .ok ⟨⟩ (calm d) ∧
    Rescued bruised d := by
  obtain ⟨w, hok⟩ := recover_bruised
  obtain ⟨d, rfl, h⟩ := recover_rescues hok
  exact ⟨d, hok, h⟩

theorem recover_again_bruised : ∃ w, Store.recover (calm bruised) = .ok ⟨⟩ w ∧
    (Store.recover w = .ok ⟨⟩ w ∨ Store.recover w = .error .notPossible w) := by
  obtain ⟨w, hok⟩ := recover_bruised
  exact ⟨w, hok, recover_again hok⟩

end
end Woodshed
