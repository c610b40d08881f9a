import Woodshed.Recording

/-! The manifest over whole runs: frames are added behind those that are there, so that the states a
store has been in are the replays of prefixes of it. -/
namespace Woodshed
open Sequencing Framing

section
variable [Crates]
variable {s : Store} {d : Dir} {active : SegmentEntry} {es : List Entry}

/-- The frames that a reopen leaves begin with those it found. -/
theorem Upright.reopen_grows (h : Upright s d active) (hr : Recorded d es s.state) {cfg : StoreCfg}
    {s' : Store} {w : World} (hopen : Store.openStore cfg (calm d) = .ok s' w) :
    ∃ d' more, w = calm d' ∧ Reopened cfg d s.state s' d' active (es ++ more) := by
  obtain ⟨d', es', rfl, hre⟩ := h.reopen hr hopen
  obtain ⟨_, _, _, hlayout⟩ := layout_of_isAuto (isAuto_of_openStore hopen)
  obtain ⟨d₁, es₁, _, _, htodo, _, ⟨ops, hes₁, _⟩, _, _, hopen₁⟩ :=
    (hlayout.of_recorded hr).openStore_ok cfg h.shaped.activeSegment
  rw [hopen] at hopen₁
  have hdir : d' = d₁ := congrArg World.dir (EStateM.Result.ok.inj hopen₁).2
  subst hdir
  -- both are the frames of the manifest that is left
  have hsame : es' = es₁ := by
    have hfirst := hre.recorded.manifest
    have hsecond := htodo.layout.manifest
    rw [hfirst] at hsecond
    have hbytes := List.append_cancel_left (Option.some.inj hsecond)
    rw [List.append_nil] at hbytes
    have hdecode := congrArg frames.decode hbytes
    rw [frames.decode_encodeAll _ hre.recorded.fits,
      frames.decode_encodeAll _ htodo.layout.fits] at hdecode
    exact congrArg Decoded.items hdecode
  rw [hsame, hes₁] at hre
  exact ⟨d', _, rfl, hre⟩

/-- A command puts its ops behind the frames that are there. -/
theorem Recording.perform_grows (h : Recording s d active es) (c : Command)
    (hgo : c.Goes ⟨s, calm d⟩) (hfit : c.Recordable ⟨s, calm d⟩) :
    ∃ s' d' active' more, (c.perform ⟨s, calm d⟩).2 = ⟨s', calm d'⟩ ∧
      Recording s' d' active' (es ++ more) := by
  by_cases hc : ∃ cfg, c = .request (.reopen cfg)
  · -- recovery appends as well: what it records comes behind the frames it found
    obtain ⟨cfg, rfl⟩ := hc
    obtain ⟨s', w', hopen, hperform⟩ := reopen_isDone hgo
    obtain ⟨d', more, rfl, hr⟩ := h.upright.reopen_grows h.recorded hopen
    exact ⟨s', d', active, more, congrArg Prod.snd hperform, hr.upright, hr.recorded, hr.manifest⟩
  · obtain ⟨o, s', d', active', ops, hrun, _, hp⟩ := h.upright.perform c (fun cfg heq => hc ⟨cfg, heq⟩)
      (fun xs heq => h.upright.unblocked (heq ▸ hgo))
    -- every other call writes its ops at the cursor, which is at the end of the manifest
    have hmanifest := hp.logged.manifest _ h.manifest
    rw [List.append_assoc, ← Grammar.encodeAll_append] at hmanifest
    refine ⟨s', d', active', ops.map opFrame, congrArg Prod.snd hrun, hp.upright,
      ⟨hmanifest.file, ?_, ?_⟩, hmanifest⟩
    · intro e he
      rcases List.mem_append.mp he with he | he
      · exact h.recorded.fits e he
      · obtain ⟨op, hop, rfl⟩ := List.mem_map.mp he
        rcases hp.ops op hop with hf | ⟨hrec, _⟩
        · exact hf
        · exact hfit op hrec
    · rw [replayEntries_append _ _ _ _ _ h.recorded.replays]
      exact hp.logged.replays _

/-- The manifest is append-only: over any run of all calls, reopens among them, the frames that record
an earlier state stay in front of those that record a later one. -/
theorem Follows.manifest_grows {d : Dir} (hd : Fresh d) {cfg : StoreCfg} {s : Store} {w : World}
    (hopen : Store.openOrCreate cfg (calm d) = .ok s w) {m₀ m : Machine}
    (hstart : Follows (fun m c => c.Goes m ∧ c.Recordable m) ⟨s, w⟩ m₀)
    (hrun : Follows (fun m c => c.Goes m ∧ c.Recordable m) m₀ m) :
    ∃ es more, Recorded m₀.world.dir es m₀.store.state ∧
      Recorded m.world.dir (es ++ more) m.store.state := by
  obtain ⟨s₀, d₀, active₀, es, rfl, h₀⟩ := hd.follows hopen hstart
  have hgrown : ∃ s d active more, m = ⟨s, calm d⟩ ∧ Recording s d active (es ++ more) := by
    refine hrun.invariant (I := fun m => ∃ s d active more, m = ⟨s, calm d⟩ ∧
      Recording s d active (es ++ more)) ⟨s₀, d₀, active₀, [], rfl, by rwa [List.append_nil]⟩ ?_
    rintro _ c ⟨s, d, active, more, rfl, h⟩ ⟨hgo, hfit⟩
    obtain ⟨s', d', active', more', hperform, h'⟩ := h.perform_grows c hgo hfit
    rw [List.append_assoc] at h'
    exact ⟨s', d', active', _, hperform, h'⟩
  obtain ⟨s', d', active', more, rfl, h⟩ := hgrown
  exact ⟨es, more, h₀.recorded, h.recorded⟩

end

section
attribute [local instance] sample

/-- The manifest of a fresh store, behind all calls. -/
theorem Follows.manifest_grows_worked : ∃ m₀ es more, openedBlank ⟨0⟩ = some m₀ ∧
    Recorded m₀.world.dir es m₀.store.state ∧
      Recorded (commandAll m₀ worked).world.dir (es ++ more) (commandAll m₀ worked).store.state := by
  obtain ⟨s, hopen, _⟩ := fresh_blank.session ⟨0⟩
  have hsome : openedBlank ⟨0⟩ = some ⟨s, calm blank.formatted⟩ := by rw [openedBlank, hopen]
  have hruns : (openedBlank ⟨0⟩).all (fun m => followsRun
      (fun m c => decide (c.Goes m ∧ c.Recordable m)) m worked) = true := by
    decide +kernel
  rw [hsome] at hruns
  obtain ⟨es, more, hfirst, hlast⟩ := Follows.manifest_grows fresh_blank hopen .here
    (Follows.here.run (fun m c hc => of_decide_eq_true hc) worked hruns)
  exact ⟨_, es, more, hsome, hfirst, hlast⟩

end
end Woodshed
