import Woodshed.Runs
import Woodshed.Survey

/-! What recovery says of a list of issues, and on which lists the order of the issues decides it. -/
namespace Woodshed
open Sequencing

/-! ### Issues -/

/-- There is no fix-up for the issue. -/
def FileIssue.Fatal (issue : FileIssue) : Prop := createFixUp issue = none

instance (issue : FileIssue) : Decidable issue.Fatal := inferInstanceAs (Decidable (_ = none))

def FileIssue.NeedsApproval (issue : FileIssue) : Prop :=
  ∃ fixUp ∈ createFixUp issue, fixUp.approvalRequired = true

/-- Why the loop over the issues stops at this one. -/
def FileIssue.blocks (approved : Bool) (issue : FileIssue) : Option RecoveryError :=
  match createFixUp issue with
  | none => some .notPossible
  | some fixUp => if fixUp.approvalRequired && !approved then some .approvalRequired else none

theorem FileIssue.blocks_notPossible_iff {approved : Bool} {issue : FileIssue} :
    issue.blocks approved = some .notPossible ↔ issue.Fatal := by
  unfold FileIssue.blocks FileIssue.Fatal
  cases createFixUp issue with
  | none => simp
  | some fixUp => by_cases h : (fixUp.approvalRequired && !approved) = true <;> simp [h]

theorem FileIssue.blocks_approvalRequired_iff {approved : Bool} {issue : FileIssue} :
    issue.blocks approved = some .approvalRequired ↔ approved = false ∧ issue.NeedsApproval := by
  unfold FileIssue.blocks FileIssue.NeedsApproval
  cases createFixUp issue with
  | none => simp
  | some fixUp => cases approved <;> cases h : fixUp.approvalRequired <;> simp [h]

theorem FileIssue.blocks_eq {approved : Bool} {issue : FileIssue} {e : RecoveryError}
    (h : issue.blocks approved = some e) : e = .notPossible ∨ e = .approvalRequired := by
  unfold FileIssue.blocks at h
  split at h
  · exact Or.inl (Option.some.inj h).symm
  · split at h
    · exact Or.inr (Option.some.inj h).symm
    · cases h

/-- The loop stops at the first issue that blocks it. -/
theorem collectFixUps_eq (approved : Bool) (issues : IssueReport) :
    collectFixUps approved issues = match issues.findSome? (FileIssue.blocks approved) with
      | some e => .error e
      | none => .ok (issues.filterMap createFixUp) := by
  induction issues with
  | nil => rfl
  | cons issue issues ih =>
    rw [collectFixUps, List.findSome?_cons, List.filterMap_cons]
    cases hfix : createFixUp issue with
    | none => simp [FileIssue.blocks, hfix]
    | some fixUp =>
      by_cases hneeds : (fixUp.approvalRequired && !approved) = true
      · simp [FileIssue.blocks, hfix, hneeds]
      · have hpass : issue.blocks approved = none := by
          rw [FileIssue.blocks, hfix]
          exact if_neg hneeds
        dsimp only
        rw [if_neg hneeds, hpass, ih]
        cases issues.findSome? (FileIssue.blocks approved) <;> rfl

/-- An issue that needs an approval stands before every fatal one, and there is a fatal one. -/
def Masked (issues : IssueReport) : Prop :=
  ∃ before issue behind, issues = before ++ issue :: behind ∧ issue.NeedsApproval ∧
    (∀ x ∈ before, ¬ x.Fatal ∧ ¬ x.NeedsApproval) ∧ ∃ x ∈ behind, x.Fatal

/-- The first issue that blocks an unapproved recovery needs an approval. -/
theorem findSome?_approvalRequired_iff {issues : IssueReport} :
    issues.findSome? (FileIssue.blocks false) = some .approvalRequired ↔
      ∃ before issue behind, issues = before ++ issue :: behind ∧ issue.NeedsApproval ∧
        ∀ x ∈ before, ¬ x.Fatal ∧ ¬ x.NeedsApproval := by
  have hpass (x : FileIssue) : x.blocks false = none ↔ ¬ x.Fatal ∧ ¬ x.NeedsApproval := by
    constructor
    · intro h
      refine ⟨fun hf => ?_, fun hn => ?_⟩
      · rw [FileIssue.blocks_notPossible_iff.mpr hf] at h
        cases h
      · rw [FileIssue.blocks_approvalRequired_iff.mpr ⟨rfl, hn⟩] at h
        cases h
    · rintro ⟨hf, hn⟩
      cases hb : x.blocks false with
      | none => rfl
      | some e =>
        rcases FileIssue.blocks_eq hb with rfl | rfl
        · exact absurd (FileIssue.blocks_notPossible_iff.mp hb) hf
        · exact absurd (FileIssue.blocks_approvalRequired_iff.mp hb).2 hn
  rw [List.findSome?_eq_some_iff]
  constructor
  · rintro ⟨before, issue, behind, heq, hb, hnone⟩
    exact ⟨before, issue, behind, heq, (FileIssue.blocks_approvalRequired_iff.mp hb).2,
      fun x hx => (hpass x).mp (hnone x hx)⟩
  · rintro ⟨before, issue, behind, heq, hn, hbefore⟩
    exact ⟨before, issue, behind, heq, FileIssue.blocks_approvalRequired_iff.mpr ⟨rfl, hn⟩,
      fun x hx => (hpass x).mpr (hbefore x hx)⟩

theorem masked_iff {issues : IssueReport} :
    Masked issues ↔ issues.findSome? (FileIssue.blocks false) = some .approvalRequired ∧
      ∃ x ∈ issues, x.Fatal := by
  rw [findSome?_approvalRequired_iff]
  constructor
  · rintro ⟨before, issue, behind, heq, hn, hbefore, x, hx, hf⟩
    exact ⟨⟨before, issue, behind, heq, hn, hbefore⟩, x, by simp [heq, hx], hf⟩
  · rintro ⟨⟨before, issue, behind, heq, hn, hbefore⟩, x, hx, hf⟩
    refine ⟨before, issue, behind, heq, hn, hbefore, x, ?_, hf⟩
    rw [heq, List.mem_append, List.mem_cons] at hx
    rcases hx with hx | rfl | hx
    · exact absurd hf (hbefore x hx).1
    · obtain ⟨fixUp, hfix, _⟩ := hn
      rw [FileIssue.Fatal] at hf
      rw [hf] at hfix
      cases hfix
    · exact hx

section
variable [Crates]

/-! ### The verdict -/

/-- What goes wrong while fix-ups are applied is an I/O error. -/
theorem applyFixUps_error {fixUps : List FixUp} {w w' : World} {e : RecoveryError}
    (h : applyFixUps fixUps w = .error e w') : ∃ io, e = .ioError io := by
  have hdisk {α : Type} {x : Fs α} {w : World} (h : onDisk x w = .error e w') :
      ∃ io, e = .ioError io := by
    unfold onDisk onPart at h
    split at h
    · cases h
    · cases h
      exact ⟨_, rfl⟩
  induction fixUps generalizing w with
  | nil => cases h
  | cons fixUp fixUps ih =>
    rw [applyFixUps, forM_cons] at h
    cases hfirst : fixUp.action.apply w with
    | ok _ w₁ =>
      rw [bind_ok hfirst] at h
      exact ih h
    | error e₁ w₁ =>
      rw [bind_error hfirst] at h
      cases h
      cases haction : fixUp.action with
      | orphanFound id => rw [haction] at hfirst; exact hdisk hfirst
      | deadSegmentMissing id => rw [haction] at hfirst; exact hdisk hfirst
      | truncateManifest offset => rw [haction] at hfirst; exact hdisk hfirst
      | truncateSegment id offset => rw [haction] at hfirst; exact hdisk hfirst
      | createActiveSegment id => rw [haction] at hfirst; exact hdisk hfirst

/-- A recovery ends with a verdict exactly if an issue blocks it, and the first one that does decides
which. -/
theorem attemptRecovery_error_iff {report : ScanReport} {approved : Bool} {w w' : World}
    {e : RecoveryError} (he : ∀ io, e ≠ .ioError io) :
    attemptRecovery report approved w = .error e w' ↔
      report.issues.findSome? (FileIssue.blocks approved) = some e ∧ w' = w := by
  rw [attemptRecovery, collectFixUps_eq]
  cases hblocked : report.issues.findSome? (FileIssue.blocks approved) with
  | some e' =>
    constructor
    · rintro ⟨⟩
      exact ⟨rfl, rfl⟩
    · rintro ⟨heq, rfl⟩
      rw [← Option.some.inj heq]
      rfl
  | none =>
    constructor
    · intro h
      obtain ⟨io, rfl⟩ := applyFixUps_error h
      exact absurd rfl (he io)
    · rintro ⟨⟨⟩, _⟩

/-- The verdict on the issues as a set: whether one of them is fatal, else whether one of them needs
an approval not given. A recovery that ends with a verdict has changed nothing. -/
structure Verdict (report : ScanReport) (approved : Bool) (w : World) : Prop where
  notPossible : (∃ w', attemptRecovery report approved w = .error .notPossible w') ↔
    ∃ x ∈ report.issues, x.Fatal
  approvalRequired : (∀ x ∈ report.issues, ¬ x.Fatal) →
    ((∃ w', attemptRecovery report approved w = .error .approvalRequired w') ↔
      approved = false ∧ ∃ x ∈ report.issues, x.NeedsApproval)
  unchanged : ∀ e w', attemptRecovery report approved w = .error e w' →
    e = .notPossible ∨ e = .approvalRequired → w' = w

/-- `open` asks for an approval only where `recover` finds a way. -/
def OpenLeadsToRecover (cfg : StoreCfg) (d : Dir) : Prop :=
  ∀ issues w, Store.openStore cfg (calm d) = .error (.err (.approvedRecoveredRequired issues)) w →
    ∀ w', Store.recover (calm d) ≠ .error .notPossible w'

/-- With approval, or where no issue is masked, the first issue that blocks stands for all. -/
theorem verdict_iff (report : ScanReport) (approved : Bool) (w : World) :
    Verdict report approved w ↔ (approved = true ∨ ¬ Masked report.issues) := by
  have hends {e : RecoveryError} (he : ∀ io, e ≠ .ioError io) :
      (∃ w', attemptRecovery report approved w = .error e w') ↔
        report.issues.findSome? (FileIssue.blocks approved) = some e := by
    simp only [attemptRecovery_error_iff he, exists_and_left, exists_eq, and_true]
  have hnotPossible := hends (e := .notPossible) (by simp)
  have hneeds := hends (e := .approvalRequired) (by simp)
  constructor
  · intro h
    by_contra hmasked
    obtain ⟨happroved, hnot⟩ := not_or.mp hmasked
    obtain rfl : approved = false := by simpa using happroved
    obtain ⟨hfirst, hfatal⟩ := masked_iff.mp (not_not.mp hnot)
    have hother := hnotPossible.mp (h.notPossible.mpr hfatal)
    rw [hfirst] at hother
    cases hother
  · intro h
    -- an issue that blocks makes the loop stop at one that does
    have hstops {x : FileIssue} {e : RecoveryError} (hx : x ∈ report.issues)
        (hb : x.blocks approved = some e) : ∃ y ∈ report.issues, ∃ e',
          y.blocks approved = some e' ∧
            report.issues.findSome? (FileIssue.blocks approved) = some e' := by
      cases hfirst : report.issues.findSome? (FileIssue.blocks approved) with
      | none =>
        rw [List.findSome?_eq_none_iff.mp hfirst x hx] at hb
        cases hb
      | some e' =>
        obtain ⟨y, hy, hyb⟩ := List.exists_of_findSome?_eq_some hfirst
        exact ⟨y, hy, e', hyb, rfl⟩
    refine ⟨hnotPossible.trans ⟨fun hfirst => ?_, ?_⟩, fun hnone => hneeds.trans ⟨fun hfirst => ?_, ?_⟩, ?_⟩
    · obtain ⟨x, hx, hb⟩ := List.exists_of_findSome?_eq_some hfirst
      exact ⟨x, hx, FileIssue.blocks_notPossible_iff.mp hb⟩
    · rintro ⟨x, hx, hf⟩
      obtain ⟨y, hy, e', hyb, hfirst⟩ := hstops hx (FileIssue.blocks_notPossible_iff.mpr hf)
      rcases FileIssue.blocks_eq hyb with rfl | rfl
      · exact hfirst
      · obtain ⟨rfl, _⟩ := FileIssue.blocks_approvalRequired_iff.mp hyb
        rcases h with h | h
        · cases h
        · exact absurd (masked_iff.mpr ⟨hfirst, x, hx, hf⟩) h
    · obtain ⟨x, hx, hb⟩ := List.exists_of_findSome?_eq_some hfirst
      obtain ⟨happroved, hn⟩ := FileIssue.blocks_approvalRequired_iff.mp hb
      exact ⟨happroved, x, hx, hn⟩
    · rintro ⟨happroved, x, hx, hn⟩
      obtain ⟨y, hy, e', hyb, hfirst⟩ :=
        hstops hx (FileIssue.blocks_approvalRequired_iff.mpr ⟨happroved, hn⟩)
      rcases FileIssue.blocks_eq hyb with rfl | rfl
      · exact absurd (FileIssue.blocks_notPossible_iff.mp hyb) (hnone y hy)
      · exact hfirst
    · rintro e w' hrun (rfl | rfl)
      · exact ((attemptRecovery_error_iff (by simp)).mp hrun).2
      · exact ((attemptRecovery_error_iff (by simp)).mp hrun).2

/-- The error of a store that is built from a report names no approval. -/
theorem fromScanReport_ne_approval (cfg : StoreCfg) (report : ScanReport) (w w' : World)
    (issues : IssueReport) :
    fromScanReport cfg report w ≠ .error (.err (.approvedRecoveredRequired issues)) w' := by
  intro h
  unfold fromScanReport at h
  by_cases hi : report.issues = []
  · rw [if_neg (not_not.mpr hi)] at h
    cases ha : report.state.activeSegment with
    | none => rw [ha] at h; cases h
    | some active =>
      rw [ha] at h
      dsimp only at h
      cases hf : report.segments.find? (·.id = active.id) with
      | none => rw [hf] at h; cases h
      | some activeReport =>
        rw [hf] at h
        dsimp only at h
        cases hopen : openManifest w with
        | ok r w₁ => rw [bind_ok (attempt_ok hopen)] at h; cases h
        | error e w₁ => rw [bind_ok (attempt_error hopen)] at h; cases h
  · rw [if_pos hi] at h
    cases h

omit [Crates] in
theorem onPart_id_ok {ε ε' α : Type} {err : ε → ε'} {x : EStateM ε World α} {w w' : World} {a : α}
    (h : x w = .ok a w') : onPart (fun w => w) (fun w _ => w) err x w = .ok a w' :=
  onPart_ok h

omit [Crates] in
theorem onPart_id_error {ε ε' α : Type} {err : ε → ε'} {x : EStateM ε World α} {w w' : World}
    {e : ε} (h : x w = .error e w') :
    onPart (fun w => w) (fun w _ => w) err x w = .error (err e) w' :=
  onPart_error h

theorem openStore_approval_iff (cfg : StoreCfg) (d : Dir) :
    (∃ issues w, Store.openStore cfg (calm d) =
      .error (.err (.approvedRecoveredRequired issues)) w) ↔
      (survey d).issues.findSome? (FileIssue.blocks false) = some .approvalRequired := by
  have hrun {e : RecoveryError} {w : World} (he : ∀ io, e ≠ .ioError io) :
      attemptRecovery (survey d) false (calm d) = .error e w ↔
        (survey d).issues.findSome? (FileIssue.blocks false) = some e ∧ w = calm d :=
    attemptRecovery_error_iff he
  unfold Store.openStore
  rw [bind_ok (onScan_ok (scan_calm d))]
  by_cases hno : (survey d).issues = []
  · rw [if_pos hno, hno]
    constructor
    · rintro ⟨issues, w, h⟩
      exact absurd h (fromScanReport_ne_approval cfg _ _ _ _)
    · rintro ⟨⟩
  · rw [if_neg hno]
    constructor
    · rintro ⟨issues, w, h⟩
      cases hrec : attemptRecovery (survey d) false (calm d) with
      | error e w₁ =>
        rw [bind_error (onPart_id_error hrec)] at h
        cases e with
        | approvalRequired => exact (hrun (by simp)).mp hrec |>.1
        | notPossible => cases h
        | remainingIssues issues => cases h
        | ioError io => cases h
      | ok _ w₁ =>
        rw [bind_ok (onPart_id_ok hrec)] at h
        cases hscan : scan w₁ with
        | error io w₂ =>
          have hfail : onScan scan w₁ = .error _ w₂ := onPart_id_error hscan
          rw [bind_error hfail] at h
          cases h
        | ok report w₂ =>
          rw [bind_ok (onScan_ok hscan)] at h
          cases hreport : fromScanReport cfg report w₂ with
          | ok s w₃ => rw [onPart_id_ok hreport] at h; cases h
          | error e w₃ =>
            rw [onPart_id_error hreport] at h
            refine absurd hreport ?_
            cases e with
            | panic message => cases h
            | diverges => cases h
            | err e =>
              cases e with
              | recoveryNotPossible issues => cases h
              | recoveryFailed e => cases h
              | approvedRecoveredRequired issues => exact fromScanReport_ne_approval cfg _ _ _ _
    · intro hfirst
      exact ⟨_, _, bind_error (onPart_id_error ((hrun (by simp)).mpr ⟨hfirst, rfl⟩))⟩

theorem openLeadsToRecover_iff (cfg : StoreCfg) (d : Dir) :
    OpenLeadsToRecover cfg d ↔ ¬ Masked (survey d).issues := by
  have hrecover : (∃ w', Store.recover (calm d) = .error .notPossible w') ↔
      ∃ x ∈ (survey d).issues, x.Fatal := by
    have hrun : Store.recover (calm d) = attemptRecovery (survey d) true (calm d) :=
      bind_ok (onPart_ok (scan_calm d))
    rw [hrun]
    exact ((verdict_iff (survey d) true (calm d)).mpr (Or.inl rfl)).notPossible
  rw [masked_iff, ← openStore_approval_iff cfg, ← hrecover]
  constructor
  · rintro h ⟨⟨issues, w, hopen⟩, w', hfail⟩
    exact h issues w hopen w' hfail
  · intro h issues w hopen w' hfail
    exact h ⟨⟨issues, w, hopen⟩, w', hfail⟩

/-- Recovery's verdict is that of the issues as a set, and `open` leads to a `recover` that finds a
way, exactly where no issue that needs an approval stands before every fatal one. -/
theorem attemptRecovery_verdict_iff :
    (∀ report approved w, Verdict report approved w ↔ (approved = true ∨ ¬ Masked report.issues)) ∧
      ∀ cfg d, OpenLeadsToRecover cfg d ↔ ¬ Masked (survey d).issues :=
  ⟨verdict_iff, openLeadsToRecover_iff⟩

end

section
attribute [local instance] sample

/-- Three segments; the first has a corrupt frame, the second is gone. -/
def gashed : Dir :=
  match openedBlank ⟨0⟩ with
  | none => blank
  | some m =>
    let d := (performAll m [.batch [(⟨1⟩, [])], .batch [(⟨2⟩, [])], .batch [(⟨3⟩, [])]]).world.dir
    let bytes := ((d.bytes (segmentPath ⟨1⟩)).getD []).set 27 0xee
    (d.put (segmentPath ⟨1⟩) ⟨bytes, bytes⟩).remove (segmentPath ⟨2⟩)

theorem masked_gashed : Masked (survey gashed).issues := by
  have hissues : (survey gashed).issues =
      [⟨.segment ⟨1⟩, .sealedSegmentChecksumCorrupt 8⟩, ⟨.segment ⟨2⟩, .sealedSegmentMissing⟩] := by
    decide +kernel
  rw [hissues]
  exact ⟨[], _, _, rfl, ⟨_, rfl, rfl⟩, by simp, _, List.mem_singleton_self _, rfl⟩

/-- The corrupt segment hides that another is gone: approval is asked for, and then of no use. -/
theorem attemptRecovery_not_verdict :
    (¬ ∀ report approved w, Verdict report approved w) ∧ ¬ ∀ cfg d, OpenLeadsToRecover cfg d := by
  constructor
  · intro hall
    rcases (verdict_iff (survey gashed) false (calm gashed)).mp (hall _ _ _) with h | h
    · cases h
    · exact h masked_gashed
  · intro hall
    exact (openLeadsToRecover_iff ⟨0⟩ gashed).mp (hall _ _) masked_gashed

end
end Woodshed
