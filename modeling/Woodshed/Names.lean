import Woodshed.Openable

/-! Segment file names and the ids they are read as: which spellings are read back as they were
written, and what the others do to a directory. -/
namespace Woodshed
open Sequencing Framing BaseDigits

/-! ### Spellings -/

/-- A digit as the formatter writes it. -/
def isLowerHex (c : Char) : Bool :=
  (48 ≤ c.toNat && c.toNat ≤ 57) || (97 ≤ c.toNat && c.toNat ≤ 102)

/-- Eight digits without sign or capitals, and the extension. -/
def Canonical (name : FileName) : Prop :=
  name.length = 12 ∧ ∀ c ∈ name.take 8, isLowerHex c = true

instance (name : FileName) : Decidable (Canonical name) :=
  inferInstanceAs (Decidable (_ ∧ _))

theorem isLowerHex_hexDigit {d : ℕ} (h : d < 16) : isLowerHex (hexDigit d) = true := by
  interval_cases d <;> decide

/-- A digit that is read as the formatter writes it is written back the same. -/
theorem hexDigit_of_hexValue {c : Char} {d : ℕ} (hc : isLowerHex c = true)
    (h : hexValue c = some d) : d < 16 ∧ hexDigit d = c := by
  have hofNat : Char.ofNat c.toNat = c := Char.ofNat_toNat c
  simp only [isLowerHex, Bool.or_eq_true, Bool.and_eq_true, decide_eq_true_eq] at hc
  unfold hexValue at h
  rcases hc with hc | hc
  · rw [if_pos hc] at h
    obtain rfl := Option.some.inj h
    refine ⟨by omega, ?_⟩
    rw [hexDigit, if_pos (by omega), show 48+(c.toNat-48) = c.toNat by omega, hofNat]
  · rw [if_neg (by omega), if_pos hc] at h
    obtain rfl := Option.some.inj h
    refine ⟨by omega, ?_⟩
    rw [hexDigit, if_neg (by omega), show 87+(c.toNat-87) = c.toNat by omega, hofNat]

theorem digits_of_mapM {cs : List Char} {ds : List ℕ} (hc : ∀ c ∈ cs, isLowerHex c = true)
    (h : cs.mapM hexValue = some ds) : (∀ d ∈ ds, d < 16) ∧ ds.map hexDigit = cs := by
  induction cs generalizing ds with
  | nil =>
    obtain rfl : [] = ds := Option.some.inj h
    simp
  | cons c cs ih =>
    rw [List.mapM_cons] at h
    cases hv : hexValue c with
    | none => rw [hv] at h; cases h
    | some d =>
      cases hrest : cs.mapM hexValue with
      | none => rw [hv, hrest] at h; cases h
      | some rest =>
        rw [hv, hrest] at h
        obtain rfl : d :: rest = ds := Option.some.inj h
        obtain ⟨hlt, hdigit⟩ := hexDigit_of_hexValue (hc c (by simp)) hv
        obtain ⟨hlts, hdigits⟩ := ih (fun c' hc' => hc c' (by simp [hc'])) hrest
        refine ⟨?_, by rw [List.map_cons, hdigit, hdigits]⟩
        intro x hx
        rcases List.mem_cons.mp hx with rfl | hx
        · exact hlt
        · exact hlts x hx

/-- Digits as the formatter writes them are read as the number they are written for. -/
theorem fromStrRadix16_lower {cs : List Char} {x : UInt32} (hne : cs ≠ [])
    (hc : ∀ c ∈ cs, isLowerHex c = true) (h : fromStrRadix16 cs = some x) :
    ∃ ds : List ℕ, (∀ d ∈ ds, d < 16) ∧ ds.map hexDigit = cs ∧ x.toNat = ofDigits 16 ds := by
  obtain ⟨c, rest, rfl⟩ := List.exists_cons_of_ne_nil hne
  have hsign : c ≠ '+' := by
    rintro rfl
    exact absurd (hc '+' (by simp)) (by decide)
  rw [fromStrRadix16_cons rest hsign] at h
  cases hds : (c :: rest).mapM hexValue with
  | none => rw [hds] at h; cases h
  | some ds =>
    rw [hds, Option.bind_some] at h
    by_cases hlt : ofDigits 16 ds < 2^32
    · rw [if_pos hlt] at h
      obtain ⟨hds', hdigits⟩ := digits_of_mapM hc hds
      refine ⟨ds, hds', hdigits, ?_⟩
      rw [← Option.some.inj h, UInt32.toNat_ofNat']
      exact Nat.mod_eq_of_lt hlt
    · rw [if_neg hlt] at h
      cases h

/-- What is cut off at the last dot. -/
theorem rsplitFileAtDot_eq {name stem extension : FileName}
    (h : rsplitFileAtDot name = some (stem, extension)) : name = stem ++ '.' :: extension := by
  unfold rsplitFileAtDot at h
  split at h
  · cases h
  · cases hrev : name.reverse.dropWhile (· ≠ '.') with
    | nil => rw [hrev] at h; cases h
    | cons c before =>
      rw [hrev] at h
      dsimp only at h
      split at h
      · cases h
      · obtain ⟨rfl, rfl⟩ : before.reverse = stem ∧
            (name.reverse.takeWhile (· ≠ '.')).reverse = extension := by
          cases h
          exact ⟨rfl, rfl⟩
        have hdot : c = '.' := by
          have hhead := List.head?_dropWhile_not (fun c => decide (c ≠ '.')) name.reverse
          rw [hrev] at hhead
          simpa using hhead
        have hsplit : name.reverse.takeWhile (· ≠ '.') ++ c :: before = name.reverse := by
          rw [← hrev]
          exact List.takeWhile_append_dropWhile
        have hname := congrArg List.reverse hsplit
        rw [List.reverse_reverse, List.reverse_append, List.reverse_cons, hdot] at hname
        exact hname.symm.trans (List.append_assoc _ _ _)

theorem segmentPath_canonical (id : SegmentId) : Canonical (segmentPath id) := by
  refine ⟨by simp [segmentPath], fun c hc => ?_⟩
  rw [segmentPath, List.take_append_of_le_length (by simp), List.take_of_length_le (by simp)] at hc
  obtain ⟨d, hd, rfl⟩ := List.mem_map.mp hc
  exact isLowerHex_hexDigit (toDigits_lt 16 8 _ (by decide) d hd)

/-- A spelling that is read as an id is the one that is written for it exactly if it is canonical. -/
theorem parseSegmentPath_eq_some {name : FileName} {id : SegmentId}
    (h : parseSegmentPath name = some id) : name = segmentPath id ↔ Canonical name := by
  refine ⟨fun heq => heq ▸ segmentPath_canonical id, fun ⟨hlen, hlower⟩ => ?_⟩
  unfold parseSegmentPath at h
  cases hsplit : rsplitFileAtDot name with
  | none => rw [hsplit] at h; cases h
  | some p =>
    obtain ⟨stem, extension⟩ := p
    rw [hsplit, Option.bind_eq_bind, Option.bind_some] at h
    dsimp only at h
    by_cases hext : extension ≠ ['s', 'e', 'g']
    · rw [if_pos hext] at h
      cases h
    · obtain rfl : extension = ['s', 'e', 'g'] := by simpa using hext
      have hname := rsplitFileAtDot_eq hsplit
      have hstem : stem.length = 8 := by
        rw [hname, List.length_append] at hlen
        simpa using hlen
      have htake : name.take 8 = stem := by rw [hname, ← hstem, List.take_left]
      rw [htake] at hlower
      rw [if_neg hext] at h
      cases hradix : fromStrRadix16 stem with
      | none => rw [hradix] at h; cases h
      | some x =>
        rw [hradix] at h
        obtain rfl : SegmentId.mk x = id := Option.some.inj h
        obtain ⟨ds, hlt, hdigits, hx⟩ := fromStrRadix16_lower (by
          rintro rfl
          cases hstem) hlower hradix
        have hds : ds.length = 8 := by rw [← hstem, ← hdigits, List.length_map]
        have hback := toDigits_ofDigits 16 ds hlt
        rw [hds] at hback
        rw [segmentPath, hx, hback, hdigits]
        exact hname

/-! ### Directories -/

/-- Every segment file is named as its id is written. -/
def Spelled (d : Dir) : Prop :=
  ∀ name ∈ d.files, parseSegmentPath name = none ∨ Canonical name

theorem Spelled.eq {d : Dir} (h : Spelled d) {name : FileName} (hname : name ∈ d.files)
    {id : SegmentId} (hid : parseSegmentPath name = some id) : name = segmentPath id := by
  rcases h name hname with hnone | hcanon
  · rw [hnone] at hid
    cases hid
  · exact (parseSegmentPath_eq_some hid).mpr hcanon

/-- No two files of such a directory have one id. -/
theorem Spelled.nodup {d : Dir} (h : Spelled d) : (diskIds d).Nodup := by
  have hinj : (d.files.keys.filterMap parseSegmentPath).Nodup := by
    have hkeys := d.files.nodupKeys
    have hnd : d.files.keys.Nodup := AList.keys_nodup d.files
    have hmem : ∀ name ∈ d.files.keys, name ∈ d.files := fun name hname => AList.mem_keys.mpr hname
    generalize d.files.keys = names at hnd hmem
    induction names with
    | nil => simp
    | cons name names ih =>
      obtain ⟨hnot, hnd⟩ := List.nodup_cons.mp hnd
      have ih := ih hnd fun other ho => hmem other (by simp [ho])
      rw [List.filterMap_cons]
      cases hp : parseSegmentPath name with
      | none => exact ih
      | some id =>
        refine List.nodup_cons.mpr ⟨fun hin => ?_, ih⟩
        obtain ⟨other, ho, hpo⟩ := List.mem_filterMap.mp hin
        rw [h.eq (hmem name (by simp)) hp, ← h.eq (hmem other (by simp [ho])) hpo] at hnot
        exact hnot ho
  exact (List.perm_insertionSort _ _).nodup_iff.mpr hinj

section
variable [Crates]

/-- What one-to-one names are good for: a file is named as its id is written, an id is listed once,
and an orphan that was recorded and deleted does not come back. -/
structure OneToOne (d : Dir) : Prop where
  spelled : ∀ name ∈ d.files, ∀ id, parseSegmentPath name = some id → name = segmentPath id
  once : ∀ ids w, collectSegmentIds (calm d) = .ok ids w → ids.Nodup
  gone : ∀ cfg s w n m report w', Store.openStore cfg (calm d) = .ok s w →
    Store.deleteDeadSegments ⟨s, w⟩ = .ok n m → scan m.world = .ok report w' →
    ∀ id, ⟨.segment id, .orphanSegmentFound⟩ ∈ (survey d).issues →
      ⟨.segment id, .orphanSegmentFound⟩ ∉ report.issues

/-- A file of the directory behind a deletion is live. -/
theorem Spelled.gone {d d' : Dir} (h : Spelled d) {cfg : StoreCfg} {s : Store} {es : List Entry}
    (he : Entered cfg d s d' es) {n : ℕ} {m : Machine} {report : ScanReport} {w' : World}
    (hdel : Store.deleteDeadSegments ⟨s, calm d'⟩ = .ok n m) (hscan : scan m.world = .ok report w')
    (id : SegmentId) : ⟨.segment id, .orphanSegmentFound⟩ ∉ report.issues := by
  obtain ⟨s', d'', es', hrun, hm, _, hstate, _, hmem⟩ := he.matched.deleteDeadSegments_calm
  rw [hdel] at hrun
  obtain ⟨rfl, rfl⟩ := EStateM.Result.ok.inj hrun
  rw [scan_calm] at hscan
  obtain ⟨rfl, rfl⟩ := EStateM.Result.ok.inj hscan
  intro ho
  obtain ⟨hdisk, hlists, _⟩ := hm.recorded.orphan ho
  obtain ⟨name, hname, hparse⟩ := (mem_diskIds d'' id).mp hdisk
  obtain ⟨hname', hkept⟩ := (hmem name).mp hname
  have hpath := h.eq ((he.names name).mp hname') hparse
  -- the id was live or dead when the store was opened, and the dead ones are gone
  rcases he.known id ((mem_diskIds d' id).mpr ⟨name, hname', hparse⟩) with hlive | hdead
  · rw [hstate] at hlists
    exact absurd (hlists.symm.trans hlive) Bool.false_ne_true
  · exact hkept id hdead hpath

theorem oneToOne_iff (d : Dir) : OneToOne d ↔ Spelled d := by
  constructor
  · intro h name hname
    cases hp : parseSegmentPath name with
    | none => exact Or.inl rfl
    | some id => exact Or.inr ((parseSegmentPath_eq_some hp).mp (h.spelled name hname id hp))
  · intro h
    refine ⟨fun name hname id hp => h.eq hname hp, fun ids w hids => ?_, ?_⟩
    · by_cases hp : d.present = true
      · rw [collectSegmentIds_legible (legible_calm d) hp] at hids
        obtain ⟨rfl, _⟩ := EStateM.Result.ok.inj hids
        exact h.nodup
      · have habsent : (calm d).dir.present = false := by
          rw [Bool.not_eq_true] at hp
          exact hp
        unfold collectSegmentIds at hids
        rw [bind_ok (call_calm _ d), get_bind, if_pos habsent] at hids
        cases hids
    · intro cfg s w n m report w' hopen hdel hscan id _
      obtain ⟨d', es, rfl, he⟩ := openStore_entered hopen
      exact h.gone he hdel hscan id

/-- Every id is read back from its file name. A name that is read as an id is the one written for it
exactly if it is canonical, and the names of a directory are one-to-one exactly if all are. -/
theorem segmentPath_oneToOne_iff :
    (∀ id, parseSegmentPath (segmentPath id) = some id) ∧
      (∀ name id, parseSegmentPath name = some id → (name = segmentPath id ↔ Canonical name)) ∧
        ∀ d, OneToOne d ↔ Spelled d :=
  ⟨parseSegmentPath_segmentPath, fun _ _ h => parseSegmentPath_eq_some h, oneToOne_iff⟩

end

section
attribute [local instance] sample

/-- An empty store with a file `2.seg` beside it. -/
def misspelled : Dir := blank.formatted.put ['2', '.', 's', 'e', 'g'] ⟨segmentMagic, segmentMagic⟩

/-- The directory behind an open and the deletion of the dead segments. -/
def emptied (d : Dir) : Option Dir :=
  match Store.openStore ⟨0⟩ (calm d) with
  | .ok s w =>
    match Store.deleteDeadSegments ⟨s, w⟩ with
    | .ok _ m => some m.world.dir
    | .error _ _ => none
  | .error _ _ => none

/-- The orphan is recorded, its deletion removes no file, and it is found again. -/
theorem segmentPath_not_oneToOne :
    (¬ ∀ name id, parseSegmentPath name = some id → name = segmentPath id) ∧
      ¬ ∀ d, OneToOne d := by
  constructor
  · intro hall
    exact absurd (hall ['2', '.', 's', 'e', 'g'] ⟨2⟩ (by decide)) (by decide)
  · intro hall
    have hopens : succeeds (Store.openStore ⟨0⟩ (calm misspelled)) = true := by decide +kernel
    have horphan : ⟨.segment ⟨2⟩, .orphanSegmentFound⟩ ∈ (survey misspelled).issues := by
      decide +kernel
    obtain ⟨s, w, hopen⟩ := exists_of_succeeds hopens
    obtain ⟨d', es, rfl, he⟩ := openStore_entered hopen
    obtain ⟨s', d'', es', hdel, _⟩ := he.matched.deleteDeadSegments_calm
    have hagain : (emptied misspelled).all (fun d =>
        decide (⟨.segment ⟨2⟩, .orphanSegmentFound⟩ ∈ (survey d).issues)) = true := by decide +kernel
    rw [emptied, hopen] at hagain
    dsimp only at hagain
    rw [hdel] at hagain
    exact (hall misspelled).gone ⟨0⟩ s _ _ _ _ _ hopen hdel (scan_calm d'') ⟨2⟩ horphan
      (of_decide_eq_true hagain)

end
end Woodshed
