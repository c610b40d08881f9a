import Woodshed.Creation
import Woodshed.Commands

/-! `truncate_end`, interrupted: what a crash between two of its effects leaves in the directory. -/
namespace Woodshed
open Sequencing Framing FrameScanner

section
variable [Crates]

/-- What is in the directory when `truncate_end` gets no further than to the first call of one kind. -/
def Machine.cutShort (m : Machine) (lastValid : EntryId) (eff : Effect) : Dir :=
  (outcomeOf (Store.truncateEnd lastValid) ⟨m.store, stopping m.world.dir eff.call⟩).2.world.dir

/-- The directory of a cut that stops before an effect. -/
def Effect.leavesCut (eff : Effect) (s : Store) (d : Dir) (target : SegmentEntry) (off : ℕ)
    (op : ManifestOp) : Dir :=
  match eff with
  | .setLen .segment => d
  | .sync .segment => d.setLen (segmentPath target.id) off
  | .flush .manifest => d.cut target off
  | .sync .manifest => (d.cut target off).writeAt manifestFileName s.manifestCursor.position
      (frame (opFrame op))
  | _ => (d.cut target off).appended s.manifestCursor.position op

omit [Crates] in
theorem Effect.call_injective {eff eff' : Effect} (h : eff.call = eff'.call) : eff = eff' := by
  cases eff <;> cases eff' <;> simp [Effect.call] at h ⊢ <;> exact h

/-! ### Where a cut stops -/

section
variable {s : Store} {d : Dir} {active target : SegmentEntry} {pre post : List SegmentEntry}
  {lastValid : EntryId} {off : ℕ}

omit [Crates] in
theorem setLen_stopping {c : Call} {name : FileName} {kind : FileKind} (len : ℕ)
    (hc : Call.setLen kind ≠ c) :
    File.setLen name kind len (stopping d c) = .ok ⟨⟩ (stopping (d.setLen name len) c) := by
  unfold File.setLen
  rw [bind_ok (call_quiet (stopping_calls hc))]
  rfl

omit [Crates] in
/-- A call that stops leaves the directory of its world. -/
theorem fs_halts {α β : Type} {m : Fs α} {k : α → StoreM β} {w : World} {d' : Dir}
    (h : Halts m w d') : ∃ e m', (fs m >>= k) ⟨s, w⟩ = .error e m' ∧ m'.world.dir = d' := by
  obtain ⟨e, w', hm, hd⟩ := h
  exact ⟨_, _, bind_error (fs_error hm), hd⟩

omit [Crates] in
theorem dir_outcomeOf_error {α : Type} {run : StoreM α} {m : Machine} {d' : Dir}
    (h : ∃ e m', run m = .error e m' ∧ m'.world.dir = d') :
    (outcomeOf run m).2.world.dir = d' := by
  obtain ⟨e, m', hrun, hd⟩ := h
  rw [outcomeOf_error hrun]
  exact hd

/-- The append of a frame, up to the call that fails. -/
theorem appendOp_halts (hbuf : s.manifestCursor.buf = ⟨[]⟩) (op : ManifestOp) (message : String)
    {c : Call} (hc : c = .flush .manifest ∨ c = .sync .manifest) :
    ∃ e m', Store.appendOp op message ⟨s, stopping d c⟩ = .error e m' ∧ m'.world.dir =
      if c = .flush .manifest then d
      else d.writeAt manifestFileName s.manifestCursor.position (frame (opFrame op)) := by
  have hwrite : s.manifestCursor.write ⟨0⟩ op.encode =
      ⟨⟨frame (opFrame op)⟩, s.manifestCursor.position⟩ := by
    rw [FrameCursor.write, hbuf]
    exact congrArg (FrameCursor.mk · _) (FrameBuffer.write_eq ⟨[]⟩ (opFrame op))
  unfold Store.appendOp Store.setManifestCursor
  rw [get_bind, modify_bind, get_bind]
  dsimp only
  rw [hwrite]
  rcases hc with rfl | rfl
  · rw [if_pos rfl]
    exact fs_halts (Halts.bind (Halts.bind (halts_call d _)))
  · have hquiet : (stopping d (.sync .manifest)).faults.calls (.flush .manifest) = [] :=
      stopping_calls Call.noConfusion
    have hflush := FrameCursor.flush_quiet ⟨⟨frame (opFrame op)⟩, s.manifestCursor.position⟩
      manifestFileName hquiet
    rw [if_neg Call.noConfusion, bind_ok (fs_ok hflush), modify_bind]
    exact fs_halts (Halts.bind (halts_call _ _))

/-- Where a cut stops. -/
theorem Upright.cutShort (h : Upright s d active)
    (hcut : CutsAt s d lastValid pre target post off) (eff : Effect) :
    Machine.cutShort ⟨s, calm d⟩ lastValid eff =
      eff.leavesCut s d target off (cutOp target off (post.map (·.id))) := by
  have hmem : target ∈ s.state.segments := by simp [hcut.split]
  have hlive : ∀ id ∈ post.map (·.id), s.state.lists id = true := by
    intro id hid
    obtain ⟨seg, hseg, rfl⟩ := List.mem_map.mp hid
    exact lists_of_mem (by simp [hcut.split, hseg])
  have ha : StoreState.apply (cutOp target off (post.map (·.id))) s.state =
      .ok ⟨⟩ (cutState s.state target (post.map (·.id))) := apply_cutOp hlive hmem
  obtain ⟨t, hscan⟩ := hcut.scanned
  have hrun := Store.truncateEnd_eq (w := stopping d eff.call) hcut.not_all hcut.chosen
    (h.files target hmem) rfl hscan
  by_cases hset : eff = .setLen .segment
  · subst hset
    obtain ⟨e, m', hstop, hdir⟩ := fs_halts (Halts.bind (halts_call d _))
    exact dir_outcomeOf_error ⟨e, m', hrun.trans hstop, hdir⟩
  rw [bind_ok (fs_ok (setLen_stopping off fun heq => hset (Effect.call_injective heq.symm)))] at hrun
  by_cases hsync : eff = .sync .segment
  · subst hsync
    obtain ⟨e, m', hstop, hdir⟩ := fs_halts (Halts.bind (halts_call _ _))
    exact dir_outcomeOf_error ⟨e, m', hrun.trans hstop, hdir⟩
  rw [bind_ok (fs_ok (syncAll_stopping fun heq => hsync (Effect.call_injective heq.symm)))] at hrun
  by_cases hmanifest : eff = .flush .manifest ∨ eff = .sync .manifest
  · have hcall : eff.call = .flush .manifest ∨ eff.call = .sync .manifest :=
      hmanifest.imp (congrArg Effect.call) (congrArg Effect.call)
    obtain ⟨e, m', happend, hdir⟩ := appendOp_halts (d := d.cut target off) h.recorded
      (cutOp target off (post.map (·.id))) "truncate_end op was pre-validated" hcall
    refine dir_outcomeOf_error ⟨e, m', hrun.trans (bind_error happend), hdir.trans ?_⟩
    rcases hmanifest with rfl | rfl
    · rfl
    · rfl
  · obtain ⟨hflush, hsyncManifest⟩ := not_or.mp hmanifest
    have hcursor : s.manifestCursor = ⟨⟨[]⟩, s.manifestCursor.position⟩ := by rw [← h.recorded]
    have happend := Store.appendOp_ok (w := stopping (d.cut target off) eff.call)
      "truncate_end op was pre-validated" hcursor
      (stopping_calls fun heq => hflush (Effect.call_injective heq.symm))
      (stopping_calls fun heq => hsyncManifest (Effect.call_injective heq.symm)) ha
    have hdone := hrun.trans ((bind_ok happend).trans (modify_apply _ _))
    refine (congrArg (fun r : Outcome × Machine => r.2.world.dir) (outcomeOf_ok hdone)).trans ?_
    unfold Effect.leavesCut
    split
    · exact absurd rfl hset
    · exact absurd rfl hsync
    · exact absurd rfl hflush
    · exact absurd rfl hsyncManifest
    · rfl

end

end
end Woodshed
