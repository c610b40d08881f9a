import Woodshed.Iterating

/-! The documented way in, which recovers only where `open` asks for it, and recovering before every
open: on every directory they come to the same. -/
namespace Woodshed
open Sequencing Framing

/-- `Store::recover(&cfg)?; Store::open(cfg)?`. Each call has its own hash sets. -/
def Store.recoverThenOpen (c₁ c₂ : Crates) (cfg : StoreCfg) (w : World) : Option (Store × World) :=
  match @Store.recover c₁ w with
  | .ok _ w' => storeBehind (@Store.openStore c₂ cfg w')
  | .error _ _ => none

/-- The `match` in the documentation of `Store::recover`. -/
def Store.openOrRecover (c₁ c₂ c₃ : Crates) (cfg : StoreCfg) (w : World) : Option (Store × World) :=
  match @Store.openStore c₁ cfg w with
  | .ok s w' => some (s, w')
  | .error (.err (.approvedRecoveredRequired _)) w' => Store.recoverThenOpen c₂ c₃ cfg w'
  | .error _ _ => none

section
variable [c : Crates]

omit c in
/-- Which error it is makes no difference to what is returned. -/
theorem storeBehind_onPart {ε ε' : Type} (err : ε → ε') (x : EStateM ε World Store) (w : World) :
    storeBehind (onPart (fun w => w) (fun w _ => w) err x w) = storeBehind (x w) := by
  cases h : x w with
  | ok s w' => rw [onPart_id_ok h]; rfl
  | error e w' => rw [onPart_id_error h]; rfl

/-- What an open of a layout returns is what an open behind the recovery returns. -/
theorem Layout.open_behind {d : Dir} {es : List Entry} {tail : Bytes} {st : StoreState}
    (h : Layout d es tail st) (cfg : StoreCfg) :
    ∃ w, Store.recover (calm d) = .ok ⟨⟩ w ∧
      storeBehind (Store.openStore cfg (calm d)) = storeBehind (Store.openStore cfg w) := by
  obtain ⟨d', es', tail', st', hrec, htodo, -, -⟩ := h.recover true
  have hnil : tail' = [] := by
    rcases htodo.manifest with ⟨hnil, -⟩ | ⟨f, rest, heq, -⟩
    · exact hnil
    · cases heq
  subst hnil
  refine ⟨calm d', ?_, ?_⟩
  · unfold Store.recover
    rw [bind_ok (onDisk_ok (scan_calm d)), hrec]
  · -- every fix-up of a layout is one that needs no approval
    have hauto : attemptRecovery (survey d) false (calm d) = .ok ⟨⟩ (calm d') := by
      rw [h.attemptRecovery_eq, ← hrec, h.attemptRecovery_eq]
    by_cases hno : (survey d).issues = []
    · have hdone : attemptRecovery (survey d) false (calm d) = .ok ⟨⟩ (calm d) := by
        rw [attemptRecovery, hno]
        rfl
      rw [hauto] at hdone
      rw [(EStateM.Result.ok.inj hdone).2]
    · have hrun : onPart (fun w : World => w) (fun w _ => w)
          (fun e => Failure.err (openErrorOf (survey d).issues e))
          (attemptRecovery (survey d) false) (calm d) = .ok ⟨⟩ (calm d') := onPart_id_ok hauto
      unfold Store.openStore
      rw [bind_ok (onScan_ok (scan_calm d)), if_neg hno, bind_ok hrun,
        bind_ok (onScan_ok (scan_calm d')), storeBehind_onPart, bind_ok (onScan_ok (scan_calm d')),
        if_pos htodo.issues_nil]

/-- Asking first is recovering at once: in the calls behind the refusal, or else in the first one. -/
theorem openOrRecover_cases (cfg : StoreCfg) (d : Dir) :
    (∀ c₂ c₃ : Crates,
      Store.openOrRecover c c₂ c₃ cfg (calm d) = Store.recoverThenOpen c₂ c₃ cfg (calm d)) ∨
    ∀ c₂ c₃ : Crates,
      Store.openOrRecover c c₂ c₃ cfg (calm d) = Store.recoverThenOpen c c cfg (calm d) := by
  cases hv : (survey d).issues.findSome? (FileIssue.blocks false) with
  | some e =>
    have hopen := openStore_refused cfg (e := openErrorOf (survey d).issues e)
      (by rw [openVerdict, hv]; rfl)
    obtain ⟨issue, hi, hblocks⟩ := List.exists_of_findSome?_eq_some hv
    rcases FileIssue.blocks_eq hblocks with rfl | rfl
    · -- an issue without a fix-up stops the recovery with approval as well
      have hrec := recover_refused hi (FileIssue.blocks_notPossible_iff.mp hblocks)
      right
      intro c₂ c₃
      rw [Store.openOrRecover, hopen, Store.recoverThenOpen, hrec]
      rfl
    · left
      intro c₂ c₃
      rw [Store.openOrRecover, hopen]
      rfl
  | none =>
    right
    obtain ⟨es, tail, st, h⟩ := layout_of_openVerdict (d := d) (by rw [openVerdict, hv]; rfl)
    obtain ⟨w, hrec, hbehind⟩ := h.open_behind cfg
    have hplain : Store.recoverThenOpen c c cfg (calm d) = storeBehind (Store.openStore cfg w) := by
      rw [Store.recoverThenOpen, hrec]
    rw [hplain, ← hbehind]
    -- there is no need to ask: the open returns a store, or it panics
    cases ha : st.activeSegment with
    | none =>
      obtain ⟨w', hpanic⟩ := h.openStore_panic cfg ha
      intro c₂ c₃
      rw [Store.openOrRecover, hpanic]
      rfl
    | some active =>
      obtain ⟨s, w', hopen, -⟩ := h.openStore_again cfg ha
      intro c₂ c₃
      rw [Store.openOrRecover, hopen]
      rfl

/-- In whatever order the sets are iterated, a recovery and the open behind it come to the same. -/
theorem recoverThenOpen_agree (o₁ o₂ : HashOrder) (cfg : StoreCfg) (d : Dir) :
    Agree (Store.recoverThenOpen c c cfg (calm d))
      (Store.recoverThenOpen (c.reordered o₁) (c.reordered o₂) cfg (calm d)) := by
  unfold Store.recoverThenOpen
  cases hrun : Store.recover (calm d) with
  | ok _ w =>
    obtain ⟨w', hrun'⟩ := (recover_reordered c o₁ d).mpr ⟨w, hrun⟩
    obtain ⟨es, tail, st, h, -⟩ := recover_ok_iff.mp ⟨w, hrun⟩
    obtain ⟨d₁, es₁, dead₁, rfl, h₁⟩ := h.recovered hrun
    obtain ⟨d₂, es₂, dead₂, rfl, h₂⟩ :=
      @Outline.recovered (c.reordered o₁) _ _ _ _ ((outline_reordered c o₁).mpr h) _ hrun'
    rw [hrun']
    have h₂ := (recovered_reordered c o₁).mp h₂
    exact openStore_agree c o₂ h₁ ((recovered_reordered c o₂).mpr h₂) cfg
  | error e w =>
    cases hrun' : @Store.recover (c.reordered o₁) (calm d) with
    | ok _ w' =>
      obtain ⟨w'', hok⟩ := (recover_reordered c o₁ d).mp ⟨w', hrun'⟩
      rw [hrun] at hok
      cases hok
    | error e' w' => trivial

/-- Asking first or recovering at once: on every directory both come to the same store and leave the
same files, or neither comes to a store. Where each call iterates its sets in an order of its own, this
is so of the segments' files and of the store but for where the manifest ends. -/
theorem openOrRecover_alike (cfg : StoreCfg) (d : Dir) :
    Store.openOrRecover c c c cfg (calm d) = Store.recoverThenOpen c c cfg (calm d) ∧
      ∀ o₁ o₂ o₃ o₄ o₅ : HashOrder,
        Agree (Store.openOrRecover (c.reordered o₁) (c.reordered o₂) (c.reordered o₃) cfg (calm d))
          (Store.recoverThenOpen (c.reordered o₄) (c.reordered o₅) cfg (calm d)) := by
  refine ⟨(openOrRecover_cases cfg d).elim (fun h => h c c) (fun h => h c c),
    fun o₁ o₂ o₃ o₄ o₅ => ?_⟩
  have hplain := recoverThenOpen_agree o₄ o₅ cfg d
  rcases @openOrRecover_cases (c.reordered o₁) cfg d with hasked | hfirst
  · rw [hasked]
    exact (recoverThenOpen_agree o₂ o₃ cfg d).symm.trans hplain
  · rw [hfirst]
    exact (recoverThenOpen_agree o₁ o₁ cfg d).symm.trans hplain

end
end Woodshed
