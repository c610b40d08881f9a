import Woodshed.BaseDigits
import Woodshed.Disk

/-! The files of a store directory: their names and magic numbers, and the calls that create,
open, list and delete them. -/
namespace Woodshed
open Sequencing BaseDigits

/-- `\xffWDSEGM\x01` -/
def segmentMagic : Bytes := [0xff, 0x57, 0x44, 0x53, 0x45, 0x47, 0x4d, 0x01]

/-- `\xffWDMNFT\x01` -/
def manifestMagic : Bytes := [0xff, 0x57, 0x44, 0x4d, 0x4e, 0x46, 0x54, 0x01]

def magicLen : ℕ := 8

def manifestFileName : FileName := ['M', 'A', 'N', 'I', 'F', 'E', 'S', 'T']

/-! ### Names -/

def hexDigit (d : ℕ) : Char := if d < 10 then Char.ofNat (48+d) else Char.ofNat (87+d)

def hexValue (c : Char) : Option ℕ :=
  if 48 ≤ c.toNat ∧ c.toNat ≤ 57 then some (c.toNat-48)
  else if 97 ≤ c.toNat ∧ c.toNat ≤ 102 then some (c.toNat-87)
  else if 65 ≤ c.toNat ∧ c.toNat ≤ 70 then some (c.toNat-55)
  else none

/-- `{:08x}.seg` -/
def segmentPath (id : SegmentId) : FileName :=
  (toDigits 16 8 id.val.toNat).map hexDigit ++ ['.', 's', 'e', 'g']

/-- A file name cut at its last dot, as `Path::file_stem` and `Path::extension` do: no extension
where there is no dot or only a leading one. -/
def rsplitFileAtDot (name : FileName) : Option (FileName × FileName) :=
  if name = ['.', '.'] then none
  else
    match name.reverse.dropWhile (· ≠ '.') with
    | [] => none
    | _ :: before =>
      if before = [] then none
      else some (before.reverse, (name.reverse.takeWhile (· ≠ '.')).reverse)

/-- `u32::from_str_radix` in base 16: an optional plus sign and at least one digit of either
case, with a value that fits. -/
def fromStrRadix16 (s : List Char) : Option UInt32 :=
  let digits := match s with
    | '+' :: rest => if rest = [] then s else rest
    | _ => s
  if digits = [] then none
  else
    match digits.mapM hexValue with
    | none => none
    | some ds => if ofDigits 16 ds < 2^32 then some (UInt32.ofNat (ofDigits 16 ds)) else none

def parseSegmentPath (name : FileName) : Option SegmentId := do
  let (stem, extension) ← rsplitFileAtDot name
  if extension ≠ ['s', 'e', 'g'] then none
  else
    let id ← fromStrRadix16 stem
    return ⟨id⟩

/-! ### Calls -/

def badMagic (name : FileName) : IoError := ⟨.invalidData, "invalid magic in " ++ String.ofList name⟩

/-- Read and compare the magic number; any failure to read it counts as a bad one. -/
def checkMagic (file : File) (expected : Bytes) : Fs File :=
  match Stream.readExact magicLen file.stream with
  | .error _ _ => throw (badMagic file.name)
  | .ok magic rest =>
    if magic ≠ expected then throw (badMagic file.name)
    else return { file with stream := rest }

/-- A path that cannot be looked at does not exist. -/
def manifestExists : Fs Bool := do
  let w ← get
  return w.dir.present && decide (manifestFileName ∈ w.dir.files)

def synchronizeDir : Fs Unit := call .syncDir

def createManifest : Fs (File × ℕ) := do
  let file ← File.createNew manifestFileName .manifest
  File.writeMagic file .manifest manifestMagic
  File.syncAll file.name .manifest
  synchronizeDir
  return (file, magicLen)

/-- `open_manifest_read` and `open_manifest_rw`, which differ in the access they ask for. -/
def openManifest : Fs (File × ℕ) := do
  let file ← File.open manifestFileName
  let file ← checkMagic file manifestMagic
  return (file, magicLen)

def createSegment (id : SegmentId) : Fs (File × ℕ) := do
  let file ← File.createNew (segmentPath id) .segment
  File.writeMagic file .segment segmentMagic
  File.syncAll file.name .segment
  return (file, magicLen)

/-- `open_segment` and `open_segment_rw`. The handle is behind the magic number. -/
def openSegment (id : SegmentId) : Fs (File × ℕ) := do
  let file ← File.open (segmentPath id)
  let file ← checkMagic file segmentMagic
  return (file, magicLen)

def segmentSize (id : SegmentId) : Fs ℕ := File.len (segmentPath id) .segment

/-- A file that is not there counts as deleted. -/
def deleteSegment (id : SegmentId) : Fs Unit := do
  match ← attempt (File.remove (segmentPath id)) with
  | .ok () => return ()
  | .error e => if e.kind = .notFound then return () else throw e

def collectSegmentIds : Fs (List SegmentId) := do
  call .readDir
  let w ← get
  if w.dir.present = false then throw notFound
  else return (w.dir.files.keys.filterMap parseSegmentPath).insertionSort (· ≤ ·)

/-! ### Facts about names -/

theorem hexValue_hexDigit (d : ℕ) (h : d < 16) : hexValue (hexDigit d) = some d := by
  interval_cases d <;> decide

theorem hexDigit_ne (d : ℕ) (h : d < 16) : hexDigit d ≠ '.' ∧ hexDigit d ≠ '+' := by
  interval_cases d <;> decide

theorem mapM_hexValue (ds : List ℕ) (h : ∀ d ∈ ds, d < 16) :
    (ds.map hexDigit).mapM hexValue = some ds := by
  induction ds with
  | nil => rfl
  | cons d ds ih =>
    rw [List.map_cons, List.mapM_cons, hexValue_hexDigit d (h d (by simp)),
      ih (fun e he => h e (by simp [he]))]
    rfl

/-- Without a sign in front every character is a digit. -/
theorem fromStrRadix16_cons {c : Char} (cs : List Char) (hc : c ≠ '+') :
    fromStrRadix16 (c :: cs) = ((c :: cs).mapM hexValue).bind fun ds =>
      if ofDigits 16 ds < 2^32 then some (UInt32.ofNat (ofDigits 16 ds)) else none := by
  have hsign : (match c :: cs with
      | '+' :: rest => if rest = [] then c :: cs else rest
      | _ => c :: cs) = c :: cs := by
    split
    · rename_i rest heq
      exact absurd (List.cons.inj heq).1 hc
    · rfl
  unfold fromStrRadix16
  simp only [hsign, if_neg (List.cons_ne_nil c cs)]
  cases (c :: cs).mapM hexValue <;> rfl

theorem fromStrRadix16_digits (n : ℕ) (hn : n < 2^32) :
    fromStrRadix16 ((toDigits 16 8 n).map hexDigit) = some (UInt32.ofNat n) := by
  have hlt : ∀ d ∈ toDigits 16 8 n, d < 16 := toDigits_lt 16 8 n (by decide)
  have hval : ofDigits 16 (toDigits 16 8 n) = n := by
    rw [ofDigits_toDigits, Nat.mod_eq_of_lt (by omega)]
  have hmap := mapM_hexValue _ hlt
  cases hds : toDigits 16 8 n with
  | nil =>
    have hlen := length_toDigits 16 8 n
    rw [hds] at hlen
    cases hlen
  | cons d ds =>
    have hd : d < 16 := hlt d (by rw [hds]; simp)
    rw [hds, List.map_cons] at hmap
    rw [List.map_cons, fromStrRadix16_cons _ (hexDigit_ne d hd).2, hmap, ← hds]
    exact if_pos (by rw [hval]; exact hn) |>.trans (by rw [hval])

theorem rsplitFileAtDot_seg (stem : FileName) (hne : stem ≠ []) :
    rsplitFileAtDot (stem ++ ['.', 's', 'e', 'g']) = some (stem, ['s', 'e', 'g']) := by
  unfold rsplitFileAtDot
  have hdots : stem ++ ['.', 's', 'e', 'g'] ≠ ['.', '.'] := by
    intro h
    have := congrArg List.length h
    simp at this
  rw [if_neg hdots]
  have hrev : stem.reverse ≠ [] := by simpa using hne
  simp [List.dropWhile, List.takeWhile, hrev]

/-- A segment's file name is read back as its id. -/
theorem parseSegmentPath_segmentPath (id : SegmentId) :
    parseSegmentPath (segmentPath id) = some id := by
  have hn : id.val.toNat < 2^32 := id.val.toNat_lt
  have hne : (toDigits 16 8 id.val.toNat).map hexDigit ≠ [] := by
    intro h0
    have := congrArg List.length h0
    simp at this
  unfold parseSegmentPath segmentPath
  simp [rsplitFileAtDot_seg _ hne, fromStrRadix16_digits _ hn]

theorem segmentPath_injective {a b : SegmentId} (h : segmentPath a = segmentPath b) : a = b := by
  have ha := parseSegmentPath_segmentPath a
  rw [h, parseSegmentPath_segmentPath b] at ha
  exact (Option.some.inj ha).symm

theorem parseSegmentPath_manifest : parseSegmentPath manifestFileName = none := by decide

theorem segmentPath_ne_manifest (id : SegmentId) : segmentPath id ≠ manifestFileName := by
  intro h
  have hp := parseSegmentPath_segmentPath id
  rw [h, parseSegmentPath_manifest] at hp
  cases hp

end Woodshed
