import Woodshed.Openable
import Woodshed.Verdict

/-! What opening comes to on every directory, and that opening again changes nothing. -/
namespace Woodshed
open Sequencing Framing

/-- The error of the first issue that keeps a directory from being opened. -/
def openVerdict (issues : IssueReport) : Option OpenError :=
  (issues.findSome? (FileIssue.blocks false)).map (openErrorOf issues)

section
variable [Crates]

omit [Crates] in
theorem isAuto_of_blocks {issue : FileIssue} (h : issue.blocks false = none) : IsAuto issue := by
  unfold FileIssue.blocks at h
  cases hf : createFixUp issue with
  | none => simp [hf] at h
  | some f =>
    refine ⟨f, hf, ?_⟩
    simpa [hf] using h

theorem layout_of_openVerdict {d : Dir} (h : openVerdict (survey d).issues = none) :
    ∃ es tail st, Layout d es tail st := by
  rw [openVerdict, Option.map_eq_none_iff, List.findSome?_eq_none_iff] at h
  exact layout_of_isAuto fun issue hi => isAuto_of_blocks (h issue hi)

/-- An open that is kept from recovering leaves the directory as it is. -/
theorem openStore_refused (cfg : StoreCfg) {d : Dir} {e : OpenError}
    (h : openVerdict (survey d).issues = some e) :
    Store.openStore cfg (calm d) = .error (.err e) (calm d) := by
  obtain ⟨e', hfind, rfl⟩ := Option.map_eq_some_iff.mp h
  have hne : (survey d).issues ≠ [] := by
    intro hnil
    rw [hnil] at hfind
    cases hfind
  have hrec : attemptRecovery (survey d) false (calm d) = .error e' (calm d) := by
    rw [attemptRecovery, collectFixUps_eq, hfind]
    rfl
  unfold Store.openStore
  rw [bind_ok (onScan_ok (scan_calm d)), if_neg hne, bind_error (onPart_id_error hrec)]

/-- Behind an open, a layout without issues is left, which opens to the same store. -/
theorem Layout.openStore_again {d : Dir} {es : List Entry} {tail : Bytes} {st : StoreState}
    (h : Layout d es tail st) (cfg : StoreCfg) {active : SegmentEntry}
    (ha : st.activeSegment = some active) :
    ∃ s w, Store.openStore cfg (calm d) = .ok s w ∧ s.activeId = active.id ∧
      Store.openStore cfg w = .ok s w := by
  obtain ⟨d', es', st', activeReport, htodo, ht, _, _, hfind, hopen⟩ := h.openStore_ok cfg ha
  -- the second open starts where there is nothing left to do, and ends there
  have hissues : layoutIssues d' es' [] st' = [] := by
    have hnil := htodo.issues_nil
    rwa [htodo.layout.survey_eq] at hnil
  obtain ⟨d'', _, _, activeReport', _, _, _, hsame, hfind', hopen'⟩ :=
    htodo.layout.openStore_ok cfg (ht.activeSegment.trans ha)
  obtain rfl := hsame hissues
  obtain rfl : activeReport' = activeReport := Option.some.inj (hfind'.symm.trans hfind)
  exact ⟨_, _, hopen, rfl, hopen'⟩

/-- What an open comes to is decided by the scan. The first issue that has no fix-up or needs approval
refuses it, and nothing is changed; if there is none, it succeeds just if the manifest has an active
segment. -/
theorem openStore_decides (cfg : StoreCfg) (d : Dir) :
    match openVerdict (survey d).issues with
    | some e => Store.openStore cfg (calm d) = .error (.err e) (calm d)
    | none =>
      match (survey d).state.activeSegment with
      | none => ∃ w, Store.openStore cfg (calm d) =
          .error (.panic "no issues guarantees a non-empty state with an active segment") w
      | some active => ∃ s w, Store.openStore cfg (calm d) = .ok s w ∧ s.activeId = active.id ∧
          scan w = .ok (survey w.dir) w ∧ (survey w.dir).issues = [] := by
  cases hv : openVerdict (survey d).issues with
  | some e => exact openStore_refused cfg hv
  | none =>
    obtain ⟨es, tail, st, h⟩ := layout_of_openVerdict hv
    have hst : (survey d).state = st := by rw [h.survey_eq]
    dsimp only
    rw [hst]
    cases ha : st.activeSegment with
    | none => exact h.openStore_panic cfg ha
    | some active =>
      obtain ⟨d', es', st', _, htodo, _, _, _, _, hopen⟩ := h.openStore_ok cfg ha
      exact ⟨_, _, hopen, rfl, scan_calm d', htodo.issues_nil⟩

/-- Opening is idempotent, whatever the directory holds: what recovery had to do is done, so opening
again gives the same store and leaves the directory as it is. -/
theorem openStore_idempotent {cfg : StoreCfg} {d : Dir} {s : Store} {w : World}
    (h : Store.openStore cfg (calm d) = .ok s w) : Store.openStore cfg w = .ok s w := by
  obtain ⟨es, tail, st, hl⟩ := layout_of_isAuto (isAuto_of_openStore h)
  cases ha : st.activeSegment with
  | none =>
    obtain ⟨w', hpanic⟩ := hl.openStore_panic cfg ha
    rw [hpanic] at h
    cases h
  | some active =>
    obtain ⟨s', w', hopen, _, hagain⟩ := hl.openStore_again cfg ha
    rw [h] at hopen
    obtain ⟨rfl, rfl⟩ := EStateM.Result.ok.inj hopen
    exact hagain

end

section
attribute [local instance] sample

/-- A torn manifest, a torn segment, an orphan and a dead segment without a file. -/
theorem openStore_idempotent_damaged : ∃ s w, (survey damaged).issues.length = 4 ∧
    Store.openStore ⟨0⟩ (calm damaged) = .ok s w ∧ Store.openStore ⟨0⟩ w = .ok s w := by
  obtain ⟨s, w, hopen⟩ := exists_of_succeeds
    (show succeeds (Store.openStore ⟨0⟩ (calm damaged)) = true by decide +kernel)
  exact ⟨s, w, by decide +kernel, hopen, openStore_idempotent hopen⟩

end
end Woodshed
