import Woodshed.Sample
import Woodshed.State

/-! Every manifest op decodes to itself. -/
namespace Woodshed
open BaseDigits

section
variable [Crates]

omit [Crates] in
/-- No field of an op's own carries the tag of the type or of metadata. -/
theorem Op.fields_tag (op : Op) : ∀ f ∈ op.fields, f.tag ≠ tagOpType ∧ f.tag ≠ tagMeta := by
  cases op <;> simp [Op.fields, tagOpType, tagSegmentId, tagFirstEntry, tagLastEntry, tagEntryCount,
    tagFinalSize, tagNewSegmentId, tagNewFirstEntry, tagByteOffset, tagDropId, tagMeta]

/-! What an integer's field reads back as. -/

omit [Crates] in
theorem fieldU8_u8 (tag : UInt16) (x : UInt8) : fieldU8 (Field.u8 tag x) = .ok x := by
  have h : UInt8.ofNat (ofBytes [x]) = x := by simp [ofBytes, ofDigits]
  rw [fieldU8, uintOf, if_pos (by simp), Except.map, Field.u8, h]

omit [Crates] in
theorem fieldU32_u32 (tag : UInt16) (x : UInt32) : fieldU32 (Field.u32 tag x) = .ok x := by
  have h : UInt32.ofNat (ofBytes (toBytes 4 x.toNat)) = x := by
    rw [ofBytes_toBytes, Nat.mod_eq_of_lt (by have := x.toNat_lt; omega)]
    exact UInt32.ofNat_toNat
  rw [fieldU32, uintOf, if_pos (by simp), Except.map, Field.u32, h]

omit [Crates] in
theorem fieldU64_u64 (tag : UInt16) (x : UInt64) : fieldU64 (Field.u64 tag x) = .ok x := by
  have h : UInt64.ofNat (ofBytes (toBytes 8 x.toNat)) = x := by
    rw [ofBytes_toBytes, Nat.mod_eq_of_lt (by have := x.toNat_lt; omega)]
    exact UInt64.ofNat_toNat
  rw [fieldU64, uintOf, if_pos (by simp), Except.map, Field.u64, h]

omit [Crates] in
theorem getU8_of {fs : List Field} {tag : UInt16} {x : UInt8}
    (h : getField fs tag = .ok (Field.u8 tag x)) : getU8 fs tag = .ok x :=
  (congrArg (· >>= fieldU8) h).trans (fieldU8_u8 tag x)

omit [Crates] in
theorem getU32_of {fs : List Field} {tag : UInt16} {x : UInt32}
    (h : getField fs tag = .ok (Field.u32 tag x)) : getU32 fs tag = .ok x :=
  (congrArg (· >>= fieldU32) h).trans (fieldU32_u32 tag x)

omit [Crates] in
theorem getU64_of {fs : List Field} {tag : UInt16} {x : UInt64}
    (h : getField fs tag = .ok (Field.u64 tag x)) : getU64 fs tag = .ok x :=
  (congrArg (· >>= fieldU64) h).trans (fieldU64_u64 tag x)

theorem metaOfField_metaField (p : UInt8 × Bytes) : metaOfField (metaField p) = .ok p := by
  set fs := [Field.u8 tagMetaKey p.1, ⟨tagMetaValue, p.2⟩] with hfs
  have hkey : getU8 fs tagMetaKey = .ok p.1 := getU8_of rfl
  have hframe : fieldFrame (metaField p) = .ok fs := by
    rw [fieldFrame, metaField, Crates.parse_build]
  rw [metaOfField, hframe]
  change (do
    let key ← getU8 fs tagMetaKey
    let value ← getData fs tagMetaValue
    return (key, value)) = _
  rw [hkey]
  rfl

theorem mapM_metaOfField (ps : Meta) : (ps.map metaField).mapM metaOfField = .ok ps := by
  induction ps with
  | nil => rfl
  | cons p ps ih =>
    rw [List.map_cons, List.mapM_cons, metaOfField_metaField, ih]
    rfl

omit [Crates] in
theorem mapM_fieldU32 (ids : List SegmentId) (tag : UInt16) :
    (ids.map fun id => Field.u32 tag id.val).mapM fieldU32 = .ok (ids.map (·.val)) := by
  induction ids with
  | nil => rfl
  | cons id ids ih =>
    rw [List.map_cons, List.mapM_cons, fieldU32_u32, ih]
    rfl

/-- The drop list among the fields, whatever metadata follows it. -/
theorem getU32s_drop (front : List Field) (ids : List SegmentId) (ps : Meta)
    (h : ∀ f ∈ front, f.tag ≠ tagDropId) :
    getU32s (front ++ (ids.map fun id => Field.u32 tagDropId id.val) ++ ps.map metaField) tagDropId =
      .ok (ids.map (·.val)) := by
  have hfront : front.filter (·.tag = tagDropId) = [] := by
    rw [List.filter_eq_nil_iff]
    intro f hf
    simpa using h f hf
  have hids : (ids.map fun id => Field.u32 tagDropId id.val).filter (·.tag = tagDropId) =
      ids.map fun id => Field.u32 tagDropId id.val := by
    rw [List.filter_eq_self]
    intro f hf
    obtain ⟨id, _, rfl⟩ := List.mem_map.mp hf
    rfl
  have hps : (ps.map metaField).filter (·.tag = tagDropId) = [] := by
    rw [List.filter_eq_nil_iff]
    intro f hf
    obtain ⟨p, _, rfl⟩ := List.mem_map.mp hf
    simp [metaField, tagMeta, tagDropId]
  rw [getU32s, List.filter_append, List.filter_append, hfront, hids, hps, List.nil_append,
    List.append_nil, mapM_fieldU32]

omit [Crates] in
theorem map_segmentId (ids : List SegmentId) : (ids.map (·.val)).map SegmentId.mk = ids := by
  rw [List.map_map, List.map_congr_left (g := id), List.map_id]
  intro id _
  rfl

theorem Op.ofFields_fields (op : Op) (ps : Meta) :
    Op.ofFields (Field.u8 tagOpType op.typeTag :: op.fields ++ ps.map metaField) = .ok op := by
  set fs := Field.u8 tagOpType op.typeTag :: op.fields ++ ps.map metaField with hfs
  have htype : getU8 fs tagOpType = .ok op.typeTag := getU8_of rfl
  rw [Op.ofFields, htype]
  cases op with
  | createSegment id firstEntry =>
    have hid : getU32 fs tagSegmentId = .ok id.val := getU32_of rfl
    have hfirst : getU64 fs tagFirstEntry = .ok firstEntry.val := getU64_of rfl
    dsimp only [Op.typeTag, bind, Except.bind]
    rw [hid, hfirst]
    rfl
  | rollSegment sealedId firstEntry lastEntry entryCount finalSize newId newFirstEntry =>
    have hsealed : getU32 fs tagSegmentId = .ok sealedId.val := getU32_of rfl
    have hfirst : getU64 fs tagFirstEntry = .ok firstEntry.val := getU64_of rfl
    have hlast : getU64 fs tagLastEntry = .ok lastEntry.val := getU64_of rfl
    have hcount : getU32 fs tagEntryCount = .ok entryCount := getU32_of rfl
    have hsize : getU64 fs tagFinalSize = .ok finalSize := getU64_of rfl
    have hnew : getU32 fs tagNewSegmentId = .ok newId.val := getU32_of rfl
    have hnewFirst : getU64 fs tagNewFirstEntry = .ok newFirstEntry.val := getU64_of rfl
    dsimp only [Op.typeTag, bind, Except.bind]
    rw [hsealed, hfirst, hlast, hcount, hsize, hnew, hnewFirst]
    rfl
  | truncateStart firstEntry drop =>
    have hfirst : getU64 fs tagFirstEntry = .ok firstEntry.val := getU64_of rfl
    have hdrop : getU32s fs tagDropId = .ok (drop.map (·.val)) :=
      getU32s_drop [Field.u8 tagOpType 0x03, Field.u64 tagFirstEntry firstEntry.val] drop ps
        (by simp [tagOpType, tagFirstEntry, tagDropId])
    dsimp only [Op.typeTag, bind, Except.bind]
    rw [hfirst, hdrop]
    change Except.ok (Op.truncateStart firstEntry ((drop.map (·.val)).map SegmentId.mk)) = _
    rw [map_segmentId]
  | truncateEnd newActiveId byteOffset drop =>
    have hactive : getU32 fs tagNewSegmentId = .ok newActiveId.val := getU32_of rfl
    have hoffset : getU64 fs tagByteOffset = .ok byteOffset := getU64_of rfl
    have hdrop : getU32s fs tagDropId = .ok (drop.map (·.val)) :=
      getU32s_drop [Field.u8 tagOpType 0x04, Field.u32 tagNewSegmentId newActiveId.val,
        Field.u64 tagByteOffset byteOffset] drop ps
        (by simp [tagOpType, tagNewSegmentId, tagByteOffset, tagDropId])
    dsimp only [Op.typeTag, bind, Except.bind]
    rw [hactive, hoffset, hdrop]
    change Except.ok (Op.truncateEnd newActiveId byteOffset
      ((drop.map (·.val)).map SegmentId.mk)) = _
    rw [map_segmentId]
  | segmentDeleted id =>
    have hid : getU32 fs tagSegmentId = .ok id.val := getU32_of rfl
    dsimp only [Op.typeTag, bind, Except.bind]
    rw [hid]
    rfl
  | recordOrphan id =>
    have hid : getU32 fs tagSegmentId = .ok id.val := getU32_of rfl
    dsimp only [Op.typeTag, bind, Except.bind]
    rw [hid]
    rfl
  | metadata => rfl

/-- Decoding an encoded op gives the op back. -/
theorem decode_encode (m : ManifestOp) : ManifestOp.decode m.encode = .ok m := by
  have hmeta : (Field.u8 tagOpType m.op.typeTag :: m.op.fields ++ m.metaPairs.map metaField).filter
      (·.tag = tagMeta) = m.metaPairs.map metaField := by
    have hfront : (Field.u8 tagOpType m.op.typeTag :: m.op.fields : List Field).filter
        (·.tag = tagMeta) = [] := by
      rw [List.filter_eq_nil_iff]
      intro f hf
      rcases List.mem_cons.mp hf with rfl | hf
      · simp [tagOpType, tagMeta]
      · simpa using (m.op.fields_tag f hf).2
    have hback : (m.metaPairs.map metaField).filter (·.tag = tagMeta) =
        m.metaPairs.map metaField := by
      rw [List.filter_eq_self]
      intro f hf
      obtain ⟨p, _, rfl⟩ := List.mem_map.mp hf
      rfl
    rw [List.filter_append, hfront, hback, List.nil_append]
  rw [ManifestOp.decode, ManifestOp.encode, Crates.parse_build]
  dsimp only
  rw [Op.ofFields_fields, hmeta, mapM_metaOfField]
  rfl

/-- An op's encoding is never empty. -/
theorem encode_ne_nil (m : ManifestOp) : m.encode ≠ [] := by
  intro h
  have hd := decode_encode m
  rw [h, ManifestOp.decode, Crates.parse_nil] at hd
  cases hd

/-- Ops without lists have short encodings. -/
theorem encode_short (op : Op) (hop : op.fields.length ≤ 7)
    (hshort : ∀ f ∈ op.fields, f.bytes.length ≤ 8) :
    (ManifestOp.bare op).encode.length < 2^32 := by
  apply Crates.build_short
  · simp only [ManifestOp.bare, List.map_nil, List.append_nil, List.length_cons]
    omega
  · intro f hf
    simp only [ManifestOp.bare, List.map_nil, List.append_nil] at hf
    rcases List.mem_cons.mp hf with rfl | hf
    · simp
    · exact hshort f hf

/-! ### Fields with other tags -/

omit [Crates] in
/-- The tags an op uses. -/
def knownTag (tag : UInt16) : Bool := decide (tagOpType ≤ tag ∧ tag ≤ tagMeta)

omit [Crates] in
theorem getField_known (fs : List Field) {tag : UInt16} (h : knownTag tag = true) :
    getField (fs.filter fun f => knownTag f.tag) tag = getField fs tag := by
  rw [getField, getField, List.find?_filter]
  congr 2
  funext f
  by_cases hf : f.tag = tag
  · simp [hf, h]
  · simp [hf]

omit [Crates] in
theorem filter_known (fs : List Field) {tag : UInt16} (h : knownTag tag = true) :
    (fs.filter fun f => knownTag f.tag).filter (·.tag = tag) = fs.filter (·.tag = tag) := by
  rw [List.filter_filter]
  apply List.filter_congr
  intro f _
  by_cases hf : f.tag = tag
  · simp [hf, h]
  · simp [hf]

omit [Crates] in
theorem Op.ofFields_known (fs : List Field) :
    Op.ofFields (fs.filter fun f => knownTag f.tag) = Op.ofFields fs := by
  have h8 {tag : UInt16} (h : knownTag tag = true) :
      getU8 (fs.filter fun f => knownTag f.tag) tag = getU8 fs tag := by
    rw [getU8, getU8, getField_known fs h]
  have h32 {tag : UInt16} (h : knownTag tag = true) :
      getU32 (fs.filter fun f => knownTag f.tag) tag = getU32 fs tag := by
    rw [getU32, getU32, getField_known fs h]
  have h64 {tag : UInt16} (h : knownTag tag = true) :
      getU64 (fs.filter fun f => knownTag f.tag) tag = getU64 fs tag := by
    rw [getU64, getU64, getField_known fs h]
  have hids {tag : UInt16} (h : knownTag tag = true) :
      getU32s (fs.filter fun f => knownTag f.tag) tag = getU32s fs tag := by
    rw [getU32s, getU32s, filter_known fs h]
  unfold Op.ofFields
  rw [h8 (by decide), h32 (by decide : knownTag tagSegmentId = true), h64 (by decide : knownTag tagFirstEntry = true),
    h64 (by decide : knownTag tagLastEntry = true), h32 (by decide : knownTag tagEntryCount = true),
    h64 (by decide : knownTag tagFinalSize = true), h32 (by decide : knownTag tagNewSegmentId = true),
    h64 (by decide : knownTag tagNewFirstEntry = true), hids (by decide : knownTag tagDropId = true),
    h64 (by decide : knownTag tagByteOffset = true)]

/-- The fields an op is encoded with. -/
def ManifestOp.allFields (m : ManifestOp) : List Field :=
  Field.u8 tagOpType m.op.typeTag :: m.op.fields ++ m.metaPairs.map metaField

omit [Crates] in
theorem Op.fields_known (op : Op) : ∀ f ∈ op.fields, knownTag f.tag = true := by
  cases op <;> simp [Op.fields, knownTag, tagOpType, tagSegmentId, tagFirstEntry, tagLastEntry,
    tagEntryCount, tagFinalSize, tagNewSegmentId, tagNewFirstEntry, tagByteOffset, tagDropId, tagMeta]

theorem ManifestOp.allFields_known (m : ManifestOp) :
    m.allFields.filter (fun f => knownTag f.tag) = m.allFields := by
  rw [List.filter_eq_self]
  intro f hf
  rw [ManifestOp.allFields, List.cons_append, List.mem_cons, List.mem_append] at hf
  rcases hf with rfl | hf | hf
  · rfl
  · exact m.op.fields_known f hf
  · obtain ⟨p, _, rfl⟩ := List.mem_map.mp hf
    rfl

/-- Decoding depends on the fields with known tags only. -/
theorem ManifestOp.decode_known (fs : List Field) :
    ManifestOp.decode (Crates.build (fs.filter fun f => knownTag f.tag)) =
      ManifestOp.decode (Crates.build fs) := by
  simp only [ManifestOp.decode, Crates.parse_build, Op.ofFields_known,
    filter_known fs (by decide : knownTag tagMeta = true)]

/-- Every op decodes to itself, also from a frame with more fields, of other tags, anywhere between
its own. -/
theorem ManifestOp.decode_fields (m : ManifestOp) :
    ManifestOp.decode m.encode = .ok m ∧
      ∀ fs : List Field, fs.filter (fun f => knownTag f.tag) = m.allFields →
        ManifestOp.decode (Crates.build fs) = .ok m := by
  refine ⟨decode_encode m, fun fs hfs => ?_⟩
  rw [← ManifestOp.decode_known, hfs]
  exact decode_encode m

end

section
attribute [local instance] sample

/-- A field with tag 99 in front of the others. -/
theorem ManifestOp.decode_fields_extra :
    ManifestOp.decode (Crates.build [Field.u8 99 1, Field.u8 tagOpType 5, Field.u32 tagSegmentId 7]) =
      .ok (ManifestOp.bare (.segmentDeleted ⟨7⟩)) :=
  (ManifestOp.decode_fields (ManifestOp.bare (.segmentDeleted ⟨7⟩))).2 _ rfl

end
end Woodshed
