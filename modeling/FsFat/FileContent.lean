import FsFat.BodyFile
import FsFat.DataStream

/-!
The content of a file, read from its begin to its end. The information tool calculates an MD5 in
this way: it reads the size of the file in buffers of 4096 bytes, and a read that gives less is an
error. So there is an MD5 exactly if the chain of the file has room for its size and the image has
the bytes, and it is that of all of them.
-/

namespace FsFat

open InfoHandle

/-- The functions of libfdata for a stream, from its segments and its offset. -/
structure StreamLib where
  seekOffset : List Extent → Nat → Except Error Nat
  readBuffer : List Extent → Nat → Nat → Except Error (List UInt8)

/-- The functions of libhmac for an MD5. -/
structure Md5Lib (κ : Type) where
  createContext : Except Error κ
  update : κ → List UInt8 → Except Error κ
  finalize : κ → Except Error (Vector UInt8 16)

/-- The image has the byte at the position. -/
def IsAt (image : List UInt8) (position : Int) (byte : UInt8) : Prop :=
  0 ≤ position ∧ image[position.toNat]? = some byte

/-- The image has the content: as many bytes as its size, at the first of the positions. -/
def IsContent (image : List UInt8) (positions : List Int) (size : Nat) (content : List UInt8) :
    Prop :=
  content.length = size ∧ List.Forall₂ (IsAt image) (positions.take size) content

/-- The content of a file entry that was not read before, at the segments of its data stream. -/
structure FileContent (containers : Containers) (fs : FileSystem) (image : List UInt8)
    (fileEntry : FileEntry) (segments : List Extent) (content : List UInt8) : Prop where
  supported : ¬ fileEntry.IsUnsupported
  stream : (fileEntry.ensureDataStream containers fs .create).2 = .ok segments
  content : IsContent image (positionsOf segments) fileEntry.getSize content

/-- The bytes of a stream are those at the positions of its segments. A read gives bytes behind the
offset, no more than it is asked for, and all of them if the image has them. -/
structure StreamLib.Reads (lib : StreamLib) (image : List UInt8) : Prop where
  seek : ∀ segments, lib.seekOffset segments 0 = .ok 0
  bytes : ∀ segments offset size data, lib.readBuffer segments offset size = .ok data →
    data.length ≤ size ∧ IsContent image ((positionsOf segments).drop offset) data.length data
  whole : ∀ segments offset size data,
    IsContent image ((positionsOf segments).drop offset) size data →
      lib.readBuffer segments offset size = .ok data

/-- A context has absorbed bytes, and the hash is that of the bytes in their order. -/
structure Md5Lib.Hashes {κ : Type} (lib : Md5Lib κ) (absorbed : κ → List UInt8 → Prop)
    (md5 : List UInt8 → Vector UInt8 16) : Prop where
  create : ∃ context, lib.createContext = .ok context ∧ absorbed context []
  update : ∀ context bytes buffer, absorbed context bytes →
    ∃ context', lib.update context buffer = .ok context' ∧ absorbed context' (bytes ++ buffer)
  finalize : ∀ context bytes, absorbed context bytes → lib.finalize context = .ok (md5 bytes)

section Calls

variable {κ : Type} (stream : StreamLib) (hash : Md5Lib κ) (containers : Containers)
  (fs : FileSystem) (fileEntry : FileEntry)

/-- What the calculation calls, for a file entry that was not read before. The content is the data
of the file entry and the offset of its stream. -/
def md5Calls : Md5Calls (FileEntryData × Nat) κ where
  seekStart :=
    let (data, result) := fileEntry.seekOffset containers fs .create (stream.seekOffset · 0)
    result.map fun offset => (data, offset)
  readBuffer content size :=
    let (data, result) :=
      fileEntry.readBuffer containers fs content.1 (stream.readBuffer · content.2 size)
    result.map fun buffer => (buffer, data, content.2 + buffer.length)
  createContext := hash.createContext
  update := hash.update
  finalize := hash.finalize

end Calls

section Content

variable {κ : Type} {stream : StreamLib} {hash : Md5Lib κ} {containers : Containers}
  {fs : FileSystem} {fileEntry : FileEntry} {image : List UInt8}
  {absorbed : κ → List UInt8 → Prop} {md5 : List UInt8 → Vector UInt8 16}

theorem IsContent.append {positions : List Int} {size rest : Nat} {first content : List UInt8}
    (hfirst : IsContent image positions size first)
    (hrest : IsContent image (positions.drop size) rest content) :
    IsContent image positions (size + rest) (first ++ content) := by
  refine ⟨by rw [List.length_append, hfirst.1, hrest.1], ?_⟩
  rw [List.take_add]
  exact List.rel_append hfirst.2 hrest.2

theorem IsContent.split {positions : List Int} {size rest : Nat} {content : List UInt8}
    (h : IsContent image positions (size + rest) content) :
    IsContent image positions size (content.take size) ∧
      IsContent image (positions.drop size) rest (content.drop size) := by
  obtain ⟨hlength, hbytes⟩ := h
  rw [List.take_add] at hbytes
  have hpositions : (positions.take size).length = size := by
    have heq := hbytes.length_eq
    rw [List.length_append, List.length_take, List.length_take, List.length_drop, hlength] at heq
    rw [List.length_take]
    omega
  have hfirst := List.forall₂_take size hbytes
  have hlast := List.forall₂_drop size hbytes
  rw [List.take_append_of_le_length hpositions.ge, List.take_of_length_le hpositions.le] at hfirst
  rw [List.drop_append_of_le_length hpositions.ge, List.drop_of_length_le hpositions.le,
    List.nil_append] at hlast
  refine ⟨⟨?_, hfirst⟩, ⟨?_, hlast⟩⟩
  · rw [List.length_take]
    omega
  · rw [List.length_drop]
    omega

/-- There is one content at the positions. -/
theorem IsContent.unique {positions : List Int} {size : Nat} {content other : List UInt8}
    (h : IsContent image positions size content) (hother : IsContent image positions size other) :
    content = other := by
  obtain ⟨-, hbytes⟩ := h
  obtain ⟨-, hotherBytes⟩ := hother
  generalize positions.take size = taken at hbytes hotherBytes
  induction hbytes generalizing other with
  | nil =>
    cases hotherBytes
    rfl
  | cons hbyte _ ih =>
    cases hotherBytes with
    | cons hotherByte hrest =>
      rw [Option.some.inj (hbyte.2.symm.trans hotherByte.2), ih hrest]

/-- Seeking the begin gets the data stream. -/
theorem seekStart_eq_ok_iff (hreads : stream.Reads image) {content : FileEntryData × Nat} :
    (md5Calls stream hash containers fs fileEntry).seekStart = .ok content ↔
      ¬ fileEntry.IsUnsupported ∧
        ∃ segments, (fileEntry.ensureDataStream containers fs .create).2 = .ok segments ∧
          content = ((fileEntry.ensureDataStream containers fs .create).1, 0) := by
  unfold md5Calls FileEntry.seekOffset FileEntry.withDataStream
  dsimp only
  by_cases hsupported : fileEntry.IsUnsupported
  · rw [if_pos hsupported]
    exact iff_of_false (by simp [Except.map]) fun h => h.1 hsupported
  · rw [if_neg hsupported]
    cases hstream : (fileEntry.ensureDataStream containers fs .create).2 with
    | error e => simp [Except.bind, Except.map]
    | ok segments =>
      simp only [Except.bind, hreads.seek, Except.map, hsupported, not_false_eq_true, true_and,
        Except.ok.injEq, exists_eq_left', eq_comm]

/-- Once the data stream is set, a read is one of the stream. -/
theorem readBuffer_of_stream (hsupported : ¬ fileEntry.IsUnsupported) {data : FileEntryData}
    {segments : List Extent} (hdata : data.clusterBlockStream = some segments) (offset size : Nat) :
    (md5Calls stream hash containers fs fileEntry).readBuffer (data, offset) size =
      (stream.readBuffer segments offset size).map fun buffer =>
        (buffer, data, offset + buffer.length) := by
  simp only [md5Calls, FileEntry.readBuffer, FileEntry.withDataStream, if_neg hsupported,
    FileEntry.ensureDataStream, hdata]
  rfl

/-- The loop absorbs the rest of the content. -/
theorem updateMd5_absorbed (hreads : stream.Reads image) (hhash : hash.Hashes absorbed md5)
    (hsupported : ¬ fileEntry.IsUnsupported) {data : FileEntryData} {segments : List Extent}
    (hdata : data.clusterBlockStream = some segments) {count dataSize offset : Nat}
    (hcount : dataSize ≤ 4096 * count) {context context' : κ} {bytes : List UInt8}
    (habsorbed : absorbed context bytes)
    (h : updateMd5 (md5Calls stream hash containers fs fileEntry) count dataSize (data, offset)
      context = .ok context') :
    ∃ rest, IsContent image ((positionsOf segments).drop offset) dataSize rest ∧
      absorbed context' (bytes ++ rest) := by
  induction count generalizing dataSize offset context bytes with
  | zero =>
    injection h with h
    obtain rfl : dataSize = 0 := by omega
    exact ⟨[], ⟨rfl, by simp⟩, by rwa [List.append_nil, ← h]⟩
  | succ count ih =>
    obtain ⟨⟨buffer, content⟩, hread, h⟩ := bind_eq_ok_iff.mp h
    rw [readBuffer_of_stream hsupported hdata] at hread
    obtain ⟨found, hfound, heq⟩ := map_eq_ok_iff.mp hread
    injection heq with hbuffer hcontent
    subst hbuffer hcontent
    dsimp only at h
    split_ifs at h with hlength
    obtain ⟨updated, hupdated, h⟩ := bind_eq_ok_iff.mp h
    obtain ⟨updated', hupdate, hupdatedBytes⟩ := hhash.update context bytes found habsorbed
    obtain rfl : updated' = updated := Except.ok.inj (hupdate.symm.trans hupdated)
    have hsize : found.length = min 4096 dataSize := not_not.mp hlength
    obtain ⟨rest, hrest, hall⟩ := ih (by omega) hupdatedBytes h
    refine ⟨found ++ rest, ?_, by rwa [← List.append_assoc]⟩
    have hbytes := (hreads.bytes _ _ _ _ hfound).2
    rw [← List.drop_drop] at hrest
    have hwhole := hbytes.append hrest
    rwa [hsize, Nat.add_sub_cancel' (Nat.min_le_right _ _)] at hwhole

variable (containers fs) in
/-- If the image has the rest of the content, the loop comes to its end. -/
theorem updateMd5_of_content (hreads : stream.Reads image) (hhash : hash.Hashes absorbed md5)
    (hsupported : ¬ fileEntry.IsUnsupported) {data : FileEntryData} {segments : List Extent}
    (hdata : data.clusterBlockStream = some segments) (count : Nat) {dataSize offset : Nat}
    {context : κ} {bytes rest : List UInt8} (habsorbed : absorbed context bytes)
    (hrest : IsContent image ((positionsOf segments).drop offset) dataSize rest) :
    ∃ context', updateMd5 (md5Calls stream hash containers fs fileEntry) count dataSize
      (data, offset) context = .ok context' := by
  induction count generalizing dataSize offset context bytes rest with
  | zero => exact ⟨context, rfl⟩
  | succ count ih =>
    have hsplit : dataSize = min 4096 dataSize + (dataSize - min 4096 dataSize) := by omega
    rw [hsplit] at hrest
    obtain ⟨hfirst, hlast⟩ := hrest.split
    obtain ⟨updated, hupdate, hupdatedBytes⟩ := hhash.update context bytes _ habsorbed
    have hread := hreads.whole _ _ _ _ hfirst
    rw [List.drop_drop] at hlast
    obtain ⟨context', hcontext⟩ := ih hupdatedBytes hlast
    refine ⟨context', ?_⟩
    have hupdateCall : (md5Calls stream hash containers fs fileEntry).update context
        (rest.take (min 4096 dataSize)) = .ok updated := hupdate
    rw [updateMd5]
    simp only [readBuffer_of_stream hsupported hdata, hread, Except.map, bind, Except.bind,
      hfirst.1, ne_eq, not_true_eq_false, if_false, hupdateCall, hcontext]

/-! ### The MD5 of the content -/

theorem length_positionsOf (extents : List Extent) :
    (positionsOf extents).length = totalSize extents := by
  induction extents with
  | nil => rfl
  | cons extent extents ih =>
    have hcons : positionsOf (extent :: extents) = extent.positions ++ positionsOf extents :=
      List.flatMap_cons
    rw [hcons, List.length_append, ih, totalSize_cons, Extent.length_positions]

/-- The data stream of a file entry that was not read before. -/
theorem getDataStream_of_ensureDataStream {segments : List Extent}
    (h : (fileEntry.ensureDataStream containers fs .create).2 = .ok segments) :
    (fileEntry.ensureDataStream containers fs .create).1.clusterBlockStream = some segments ∧
      ∃ extents, getDataStream fs fileEntry.clusterNumber fileEntry.getSize =
        .ok ⟨extents, segments⟩ := by
  have hcreate : ∀ segments, FileEntryData.create.clusterBlockStream = some segments →
      ∃ extents, getDataStream fs fileEntry.clusterNumber fileEntry.dataSize =
        .ok ⟨extents, segments⟩ := by
    intro segments hsome
    cases hsome
  obtain ⟨hstream, hok⟩ := ensureDataStream_stream containers hcreate
  exact ⟨hok segments h, hstream segments (hok segments h)⟩

/-- The chain has room for a content that the image has. -/
theorem FileContent.hasRoom (hblock : fs.ioHandle.clusterBlockSize < 2 ^ 64)
    {segments : List Extent} {content : List UInt8}
    (h : FileContent containers fs image fileEntry segments content) :
    HasRoom fs fileEntry.clusterNumber fileEntry.getSize := by
  obtain ⟨_, extents, hextents⟩ := getDataStream_of_ensureDataStream h.stream
  apply (totalSize_eq_size_iff hblock hextents).mp
  have hle : totalSize (DataStream.mk extents segments).segments ≤ fileEntry.getSize := by
    rw [(getDataStream_runs hblock hextents).1, totalSize_streamOfRuns]
    exact min_le_left _ _
  have hlength := h.content.2.length_eq
  rw [List.length_take, h.content.1, length_positionsOf, min_eq_left_iff] at hlength
  exact le_antisymm hle hlength

/-- An MD5 that was calculated is that of the content. -/
theorem content_of_fileEntryCalculateMd5 (hreads : stream.Reads image)
    (hhash : hash.Hashes absorbed md5) {string : List Char}
    (h : fileEntryCalculateMd5 (md5Calls stream hash containers fs fileEntry) fileEntry =
      .ok string) :
    ∃ segments content, FileContent containers fs image fileEntry segments content ∧
      string = digestHashString (md5 content).toList := by
  have hcount : fileEntry.getSize ≤ 4096 * ((fileEntry.getSize + 4095) / 4096) := by omega
  obtain ⟨created, hcreate, hempty⟩ := hhash.create
  obtain ⟨start, hseek, h⟩ := bind_eq_ok_iff.mp h
  obtain ⟨context, hcontext, h⟩ := bind_eq_ok_iff.mp h
  obtain ⟨context', hupdate, h⟩ := bind_eq_ok_iff.mp h
  obtain ⟨digestHash, hfinalize, h⟩ := bind_eq_ok_iff.mp h
  injection h with h
  obtain ⟨hsupported, segments, hsegments, rfl⟩ := (seekStart_eq_ok_iff hreads).mp hseek
  obtain ⟨hdata, _⟩ := getDataStream_of_ensureDataStream hsegments
  obtain rfl : created = context := Except.ok.inj (hcreate.symm.trans hcontext)
  obtain ⟨content, hcontent, habsorbed⟩ :=
    updateMd5_absorbed hreads hhash hsupported hdata hcount hempty hupdate
  obtain rfl : md5 content = digestHash :=
    Except.ok.inj ((hhash.finalize context' content habsorbed).symm.trans hfinalize)
  exact ⟨segments, content, ⟨hsupported, hsegments, hcontent⟩, h.symm⟩

/-- The MD5 of a content that the image has is calculated. -/
theorem FileContent.calculateMd5 (hreads : stream.Reads image)
    (hhash : hash.Hashes absorbed md5) {segments : List Extent} {content : List UInt8}
    (h : FileContent containers fs image fileEntry segments content) :
    fileEntryCalculateMd5 (md5Calls stream hash containers fs fileEntry) fileEntry =
      .ok (digestHashString (md5 content).toList) := by
  have hcount : fileEntry.getSize ≤ 4096 * ((fileEntry.getSize + 4095) / 4096) := by omega
  obtain ⟨created, hcreate, hempty⟩ := hhash.create
  obtain ⟨hdata, _⟩ := getDataStream_of_ensureDataStream h.stream
  have hseek : (md5Calls stream hash containers fs fileEntry).seekStart = .ok _ :=
    (seekStart_eq_ok_iff hreads).mpr ⟨h.supported, segments, h.stream, rfl⟩
  have hstart : IsContent image ((positionsOf segments).drop 0) fileEntry.getSize content :=
    h.content
  obtain ⟨context, hupdate⟩ := updateMd5_of_content containers fs hreads hhash h.supported
    hdata ((fileEntry.getSize + 4095) / 4096) hempty hstart
  obtain ⟨bytes, hbytes, habsorbed⟩ :=
    updateMd5_absorbed hreads hhash h.supported hdata hcount hempty hupdate
  obtain rfl : bytes = content := hbytes.unique h.content
  have hcreated : (md5Calls stream hash containers fs fileEntry).createContext = .ok created :=
    hcreate
  have hfinalize : (md5Calls stream hash containers fs fileEntry).finalize context =
      .ok (md5 bytes) := hhash.finalize context _ habsorbed
  simp only [fileEntryCalculateMd5, hseek, hcreated, hupdate, hfinalize, bind, Except.bind, pure,
    Except.pure]

/-- The MD5 of a file is calculated exactly if the image has its content, as many bytes as the size
of the file, and it is that of the content. The chain has room for the content then, and where the
data stream is that of a chain of clusters the content is at the first bytes of these clusters. -/
theorem fileEntryCalculateMd5_eq_ok_iff (hreads : stream.Reads image)
    (hhash : hash.Hashes absorbed md5) (hblock : fs.ioHandle.clusterBlockSize < 2 ^ 64)
    (containers : Containers) (fileEntry : FileEntry) :
    (∀ string,
      fileEntryCalculateMd5 (md5Calls stream hash containers fs fileEntry) fileEntry = .ok string ↔
        ∃ segments content, FileContent containers fs image fileEntry segments content ∧
          string = digestHashString (md5 content).toList) ∧
    ∀ segments content, FileContent containers fs image fileEntry segments content →
      HasRoom fs fileEntry.clusterNumber fileEntry.getSize ∧
        ∀ chain, StreamsContent fs fileEntry.clusterNumber chain fileEntry.getSize →
          IsContent image (chainPositions fs.ioHandle chain) fileEntry.getSize content := by
  refine ⟨fun string => ⟨content_of_fileEntryCalculateMd5 hreads hhash, ?_⟩, ?_⟩
  · rintro ⟨segments, content, hcontent, rfl⟩
    exact hcontent.calculateMd5 hreads hhash
  · intro segments content hcontent
    refine ⟨hcontent.hasRoom hblock, ?_⟩
    rintro chain ⟨built, hbuilt, hpositions⟩
    obtain ⟨_, extents, hextents⟩ := getDataStream_of_ensureDataStream hcontent.stream
    obtain rfl : DataStream.mk extents segments = built :=
      Except.ok.inj (hextents.symm.trans hbuilt)
    obtain ⟨hlength, hbytes⟩ := hcontent.content
    refine ⟨hlength, ?_⟩
    rwa [hpositions, List.take_take, min_self] at hbytes

end Content

/-! ### A file in two runs -/

/-- The bytes of the image at positions, up to the first that it does not have. -/
def bytesAt (image : List UInt8) : List Int → List UInt8
  | [] => []
  | position :: positions =>
    if position < 0 then []
    else
      match image[position.toNat]? with
      | none => []
      | some byte => byte :: bytesAt image positions

/-- libfdata, reading an image. -/
def imageStreamLib (image : List UInt8) : StreamLib where
  seekOffset _ offset := .ok offset
  readBuffer segments offset size :=
    .ok (bytesAt image (((positionsOf segments).drop offset).take size))

theorem forall₂_bytesAt (image : List UInt8) (positions : List Int) :
    List.Forall₂ (IsAt image) (positions.take (bytesAt image positions).length)
      (bytesAt image positions) := by
  induction positions with
  | nil => exact .nil
  | cons position positions ih =>
    rw [bytesAt]
    split
    · exact .nil
    · next hposition =>
      split
      · exact .nil
      · next byte hbyte => exact .cons ⟨not_lt.mp hposition, hbyte⟩ ih

theorem bytesAt_of_forall₂ {image : List UInt8} {positions : List Int} {content : List UInt8}
    (h : List.Forall₂ (IsAt image) positions content) : bytesAt image positions = content := by
  induction h with
  | nil => rfl
  | cons hbyte _ ih => rw [bytesAt, if_neg (not_lt.mpr hbyte.1), hbyte.2, ih]

theorem length_bytesAt_le (image : List UInt8) (positions : List Int) :
    (bytesAt image positions).length ≤ positions.length := by
  have hlength := (forall₂_bytesAt image positions).length_eq
  rw [List.length_take] at hlength
  omega

theorem reads_imageStreamLib (image : List UInt8) : (imageStreamLib image).Reads image := by
  refine ⟨fun _ => rfl, ?_, ?_⟩
  · intro segments offset size data h
    injection h with h
    subst h
    have hle : (bytesAt image (((positionsOf segments).drop offset).take size)).length ≤ size :=
      le_trans (length_bytesAt_le _ _) (List.length_take_le _ _)
    have hbytes := forall₂_bytesAt image (((positionsOf segments).drop offset).take size)
    rw [List.take_take, min_eq_left hle] at hbytes
    exact ⟨hle, rfl, hbytes⟩
  · intro segments offset size data h
    exact congrArg Except.ok (bytesAt_of_forall₂ h.2)

/-- libhmac where the hash of a content is known: a context is the bytes that it was updated
with. -/
def contentMd5Lib (digestHash : Vector UInt8 16) : Md5Lib (List UInt8) where
  createContext := .ok []
  update context buffer := .ok (context ++ buffer)
  finalize _ := .ok digestHash

theorem hashes_contentMd5Lib (digestHash : Vector UInt8 16) :
    (contentMd5Lib digestHash).Hashes (fun context bytes => context = bytes)
      fun _ => digestHash := by
  refine ⟨⟨[], rfl, rfl⟩, ?_, fun _ _ _ => rfl⟩
  rintro context bytes buffer rfl
  exact ⟨_, rfl, rfl⟩

/-- The MD5 of 700 times `a`. -/
def letterHash : Vector UInt8 16 :=
  #v[0xe5, 0x8f, 0x2d, 0xe3, 0x79, 0x16, 0xb1, 0xb9, 0x2f, 0x80, 0x0e, 0x0f, 0xcb, 0x20, 0x5f, 0xb6]

def letterImage : List UInt8 := List.replicate 2560 0x61

theorem forall₂_letterImage {positions : List Int}
    (h : ∀ position ∈ positions, 0 ≤ position ∧ position < 2560) :
    List.Forall₂ (IsAt letterImage) positions (List.replicate positions.length 0x61) := by
  induction positions with
  | nil => exact .nil
  | cons position positions ih =>
    obtain ⟨⟨hpos, hlt⟩, hrest⟩ := List.forall_mem_cons.mp h
    refine .cons ⟨hpos, ?_⟩ (ih hrest)
    rw [letterImage, List.getElem?_replicate, if_pos (by omega)]

theorem isContent_letterImage :
    IsContent letterImage (positionsOf [⟨1024, 512⟩, ⟨2048, 188⟩]) 700
      (List.replicate 700 0x61) := by
  have hlength : (positionsOf [⟨1024, 512⟩, ⟨2048, 188⟩]).length = 700 := length_positionsOf _
  refine ⟨List.length_replicate, ?_⟩
  rw [List.take_of_length_le hlength.le, ← hlength]
  apply forall₂_letterImage
  intro position hposition
  simp only [positionsOf, List.flatMap_cons, List.flatMap_nil, List.append_nil, List.mem_append,
    Extent.positions, List.mem_map, List.mem_range] at hposition
  rcases hposition with ⟨k, hk, rfl⟩ | ⟨k, hk, rfl⟩ <;> omega

theorem fileEntryCalculateMd5_gap :
    fileEntryCalculateMd5
        (md5Calls (imageStreamLib letterImage) (contentMd5Lib letterHash) .unlimited gapFileSystem
          gapFile) gapFile =
      .ok "e58f2de37916b1b92f800e0fcb205fb6".toList := by
  have hstream : (gapFile.ensureDataStream .unlimited gapFileSystem .create).2 =
      .ok [⟨1024, 512⟩, ⟨2048, 188⟩] := by decide +kernel
  have hblock : gapFileSystem.ioHandle.clusterBlockSize < 2 ^ 64 := by decide
  exact ((fileEntryCalculateMd5_eq_ok_iff (reads_imageStreamLib letterImage)
    (hashes_contentMd5Lib letterHash) hblock .unlimited gapFile).1 _).mpr
      ⟨_, _, ⟨by decide, hstream, isContent_letterImage⟩, by decide⟩

end FsFat
