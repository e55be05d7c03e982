import OrbitConsole.Core.FileFormat.PsfSpec

/-!
# The round trip of a PSF file

The layout of the file is computed once: where the key and the value of every entry
stand. Reading the entries back one by one then gives the values, and the keys that
stand at the offsets reduced to 16 bits.
-/

namespace OrbitConsole.FileFormat

open Exec Bytes

variable {psf : PSF}

/-! ### Sizes -/

def storedBytes (psf : PSF) (i : ℕ) : PSFEntryFmt → ByteString
  | .binary => (psf.map_binaries i).getD []
  | .text => (psf.map_strings i).getD [] ++ [0]
  | .integer => little 4 ((psf.map_integers i).getD 0).toUInt32.toNat

/-- What is left of the maximum length, computed with 32-bit numbers. -/
def padding (psf : PSF) (i : ℕ) (entry : Entry) : ℤ :=
  s32 entry.max_len - s32 (storedBytes psf i entry.param_fmt).length

def Fits (psf : PSF) (i : ℕ) (entry : Entry) : Prop :=
  0 ≤ padding psf i entry ∧ padding psf i entry < 2147483648

def AllFit (psf : PSF) : Prop :=
  ∀ i entry, psf.entry_list[i]? = some entry → Fits psf i entry

def keyTable (entries : List Entry) : ByteString :=
  entries.flatMap fun entry => entry.key ++ [0]

def keyOffset (entries : List Entry) (i : ℕ) : ℕ := (keyTable (entries.take i)).length

def front (psf : PSF) : ℕ := sizeofHeader + sizeofRawEntry * psf.entry_list.length

/-- The size rounded up to four bytes. -/
def align4 (size : ℕ) : ℕ := if size % 4 ≠ 0 then size + (4 - size % 4) else size

def dataEnd (psf : PSF) : ℕ → List Entry → ℕ → ℕ
  | _, [], size => size
  | i, entry :: rest, size =>
      dataEnd psf (i + 1) rest (align4 size + (storedBytes psf i entry.param_fmt).length +
        (padding psf i entry).toNat)

/-- Where the value of an entry stands in the data table. -/
def dataOffset (psf : PSF) (i : ℕ) : ℕ :=
  align4 (dataEnd psf 0 (psf.entry_list.take i) (front psf + (keyTable psf.entry_list).length)) -
    (front psf + (keyTable psf.entry_list).length)

/-- The offsets, and the lengths that `Open` reads, fit in their 32 bits. -/
def OffsetsFit (psf : PSF) : Prop :=
  front psf + (keyTable psf.entry_list).length < 4294967296 ∧
    ∀ i entry, psf.entry_list[i]? = some entry → dataOffset psf i < 4294967296 ∧
      (entry.param_fmt = .binary →
        (storedBytes psf i entry.param_fmt).length < 4294967296)

/-! ### The index and the keys -/

theorem keyTable_cons (entry : Entry) (rest : List Entry) :
    keyTable (entry :: rest) = entry.key ++ [0] ++ keyTable rest := rfl

theorem keyTable_take_succ {entries : List Entry} {i : ℕ} {entry : Entry}
    (h : entries[i]? = some entry) :
    keyTable (entries.take (i + 1)) = keyTable (entries.take i) ++ (entry.key ++ [0]) := by
  rw [List.take_add_one, h, keyTable, List.flatMap_append]
  simp [keyTable]

theorem keyTable_split {entries : List Entry} {i : ℕ} {entry : Entry}
    (h : entries[i]? = some entry) : ∃ after,
    keyTable entries = keyTable (entries.take i) ++ (entry.key ++ 0 :: after) := by
  refine ⟨keyTable (entries.drop (i + 1)), ?_⟩
  have hsplit : keyTable entries =
      keyTable (entries.take (i + 1)) ++ keyTable (entries.drop (i + 1)) := by
    rw [keyTable, keyTable, keyTable, ← List.flatMap_append, List.take_append_drop]
  rw [hsplit, keyTable_take_succ h]
  simp

/-- The index entry after the first loop of `Encode`. -/
def rawKey (offset : ℕ) (entry : Entry) : PSFRawEntry where
  key_offset := u16 offset
  param_fmt := entry.param_fmt.raw
  param_len := 0
  param_max_len := u32 entry.max_len
  data_offset := 0

theorem encodeKeys_spec (entries : List Entry) (body : ByteString) :
    ∃ raws, PSF.encodeKeys entries body = (raws, body ++ keyTable entries) ∧
      raws.length = entries.length ∧
      ∀ i entry, entries[i]? = some entry →
        raws[i]? = some (rawKey (body.length + keyOffset entries i) entry) := by
  induction entries generalizing body with
  | nil =>
      refine ⟨[], by simp [PSF.encodeKeys, keyTable], rfl, fun i entry h => ?_⟩
      cases h
  | cons head rest ih =>
      obtain ⟨raws, heq, hlen, hget⟩ := ih (body ++ head.key ++ [0])
      refine ⟨rawKey body.length head :: raws, ?_, ?_, fun i entry h => ?_⟩
      · rw [PSF.encodeKeys, heq, keyTable_cons]
        simp [rawKey]
      · rw [List.length_cons, List.length_cons, hlen]
      · cases i with
        | zero =>
            cases h
            simp [keyOffset, keyTable]
        | succ i =>
            rw [List.getElem?_cons_succ] at h ⊢
            have hoffset : (body ++ head.key ++ [0]).length + keyOffset rest i =
                body.length + keyOffset (head :: rest) (i + 1) := by
              rw [keyOffset, keyOffset, List.take_succ_cons, keyTable_cons]
              simp only [List.length_append]
              omega
            rw [hget i entry h, hoffset]

/-! ### The values -/

theorem storedValue_eq (h : WellFormed psf) {i : ℕ} {entry : Entry}
    (hentry : psf.entry_list[i]? = some entry) :
    psf.storedValue i entry.param_fmt = .ok (storedBytes psf i entry.param_fmt) := by
  cases hfmt : entry.param_fmt with
  | binary =>
      obtain ⟨v, hv⟩ := Option.isSome_iff_exists.mp ((h.binaries i).mpr ⟨entry, hentry, hfmt⟩)
      rw [PSF.storedValue, storedBytes, mapAt, hv]
      rfl
  | text =>
      obtain ⟨v, hv⟩ := Option.isSome_iff_exists.mp ((h.strings i).mpr ⟨entry, hentry, hfmt⟩)
      rw [PSF.storedValue, storedBytes, mapAt, hv]
      rfl
  | integer =>
      obtain ⟨v, hv⟩ := Option.isSome_iff_exists.mp ((h.integers i).mpr ⟨entry, hentry, hfmt⟩)
      rw [PSF.storedValue, storedBytes, mapAt, hv]
      rfl

/-- The index entry after the second loop of `Encode`. -/
def rawData (raw : PSFRawEntry) (param_len data_offset : ℕ) : PSFRawEntry :=
  { raw with param_len := u32 param_len, data_offset := u32 data_offset }

theorem encodeData_spec (h : WellFormed psf) (front data_table_offset : ℕ) (i : ℕ)
    (entries : List (Entry × PSFRawEntry)) (body : ByteString)
    (hentries : ∀ k p, entries[k]? = some p → psf.entry_list[i + k]? = some p.1 ∧
      p.2.param_max_len = p.1.max_len ∧ Fits psf (i + k) p.1) :
    ∃ raws after,
      psf.encodeData front data_table_offset i entries body = .ok (raws, body ++ after) ∧
      raws.length = entries.length ∧
      ∀ k p, entries[k]? = some p → ∃ before rest,
        body ++ after =
          body ++ before ++ (storedBytes psf (i + k) p.1.param_fmt ++ rest) ∧
        front + (body ++ before).length =
          align4 (dataEnd psf i ((entries.map Prod.fst).take k) (front + body.length)) ∧
        raws[k]? = some (rawData p.2 (storedBytes psf (i + k) p.1.param_fmt).length
          (front + (body ++ before).length - data_table_offset)) := by
  induction entries generalizing i body with
  | nil =>
      refine ⟨[], [], by rw [PSF.encodeData, List.append_nil]; rfl, rfl, ?_⟩
      intro k p hk
      cases hk
  | cons head rest ih =>
      obtain ⟨entry, raw⟩ := head
      obtain ⟨hentry, hmax, hfit, hfit'⟩ := hentries 0 (entry, raw) rfl
      simp only [Nat.add_zero] at hentry hmax hfit hfit'
      -- the padding in front of the value
      obtain ⟨pad, hpad, hsize⟩ : ∃ pad,
          (if (front + body.length) % 4 ≠ 0 then
            body ++ List.replicate (4 - (front + body.length) % 4) 0 else body) = body ++ pad ∧
          front + (body ++ pad).length = align4 (front + body.length) := by
        unfold align4
        split
        · exact ⟨_, rfl, by rw [List.length_append, List.length_replicate]; omega⟩
        · exact ⟨[], (List.append_nil body).symm, by rw [List.append_nil]⟩
      have hvalue := storedValue_eq h hentry
      have hsub : PSF.subtract32 (s32 raw.param_max_len)
          (s32 (u32 (storedBytes psf i entry.param_fmt).length)) = .ok (padding psf i entry) := by
        have hs32 : s32 (u32 (storedBytes psf i entry.param_fmt).length) =
            s32 (storedBytes psf i entry.param_fmt).length := by
          unfold s32 u32
          rw [Nat.mod_mod]
        rw [hs32, hmax]
        exact if_pos ⟨by unfold padding at hfit; omega, hfit'⟩
      obtain ⟨raws, after, heq, hcount, hget⟩ :=
        ih (i + 1) (body ++ pad ++ storedBytes psf i entry.param_fmt ++
          List.replicate (padding psf i entry).toNat 0) (by
          intro k p hk
          have hnext := hentries (k + 1) p hk
          rwa [show i + (k + 1) = i + 1 + k by omega] at hnext)
      refine ⟨rawData raw (storedBytes psf i entry.param_fmt).length
          (front + (body ++ pad).length - data_table_offset) :: raws,
        pad ++ storedBytes psf i entry.param_fmt ++
          List.replicate (padding psf i entry).toNat 0 ++ after, ?_, ?_, ?_⟩
      · rw [PSF.encodeData]
        dsimp only
        rw [hpad, hvalue]
        simp only [bind, Except.bind, hsub, assertMsg, if_pos hfit, heq]
        simp [rawData, pure, Except.pure]
      · rw [List.length_cons, List.length_cons, hcount]
      · have hbody : front + (body ++ pad ++ storedBytes psf i entry.param_fmt ++
            List.replicate (padding psf i entry).toNat 0).length =
            align4 (front + body.length) + (storedBytes psf i entry.param_fmt).length +
              (padding psf i entry).toNat := by
          rw [← hsize]
          simp only [List.length_append, List.length_replicate]
          omega
        intro k p hk
        cases k with
        | zero =>
            cases hk
            refine ⟨pad, List.replicate (padding psf i entry).toNat 0 ++ after, ?_, hsize, rfl⟩
            simp only [List.append_assoc]
            rfl
        | succ k =>
            obtain ⟨before, tail, hsplit, hoffset, hraw⟩ := hget k p hk
            rw [show i + (k + 1) = i + 1 + k by omega]
            refine ⟨pad ++ storedBytes psf i entry.param_fmt ++
              List.replicate (padding psf i entry).toNat 0 ++ before, tail, ?_, ?_, ?_⟩
            · simp only [List.append_assoc] at hsplit ⊢
              exact hsplit
            · rw [List.map_cons, List.take_succ_cons, dataEnd, ← hbody, ← hoffset]
              simp only [List.append_assoc]
            · rw [List.getElem?_cons_succ, hraw]
              simp only [List.append_assoc]

theorem encodeData_fits (h : WellFormed psf) {front data_table_offset : ℕ} {i : ℕ}
    {entries : List (Entry × PSFRawEntry)} {body : ByteString}
    (hentries : ∀ k p, entries[k]? = some p → psf.entry_list[i + k]? = some p.1 ∧
      p.2.param_max_len = p.1.max_len)
    {r : List PSFRawEntry × ByteString}
    (hok : psf.encodeData front data_table_offset i entries body = .ok r) :
    ∀ k p, entries[k]? = some p → Fits psf (i + k) p.1 := by
  induction entries generalizing i body r with
  | nil =>
      intro k p hk
      cases hk
  | cons head rest ih =>
      obtain ⟨entry, raw⟩ := head
      obtain ⟨hentry, hmax⟩ := hentries 0 (entry, raw) rfl
      simp only [Nat.add_zero] at hentry hmax
      have hs32 : s32 (u32 (storedBytes psf i entry.param_fmt).length) =
          s32 (storedBytes psf i entry.param_fmt).length := by
        unfold s32 u32
        rw [Nat.mod_mod]
      rw [PSF.encodeData] at hok
      dsimp only at hok
      rw [storedValue_eq h hentry] at hok
      simp only [bind, Except.bind, hs32, hmax] at hok
      split at hok
      · cases hok
      next left hsub =>
      split at hok
      · cases hok
      next hassert =>
      split at hok
      · cases hok
      next r' hrest =>
      have htail := ih (by
        intro k p hk
        have hnext := hentries (k + 1) p hk
        rwa [show i + (k + 1) = i + 1 + k by omega] at hnext) hrest
      have hfit : Fits psf i entry := by
        unfold PSF.subtract32 at hsub
        split at hsub
        · next hrange =>
            cases hsub
            unfold assertMsg at hassert
            split at hassert
            · next hnonneg => exact ⟨hnonneg, hrange.2⟩
            · cases hassert
        · cases hsub
      intro k p hk
      cases k with
      | zero =>
          cases hk
          exact hfit
      | succ k =>
          rw [show i + (k + 1) = i + 1 + k by omega]
          exact htail k p hk

/-! ### Reading the header and the index -/

theorem length_header (header : PSFHeader) : header.bytes.length = sizeofHeader := rfl

theorem length_raw (raw : PSFRawEntry) : raw.bytes.length = sizeofRawEntry := rfl

theorem length_raws (raws : List PSFRawEntry) :
    (raws.flatMap PSFRawEntry.bytes).length = sizeofRawEntry * raws.length := by
  induction raws with
  | nil => rfl
  | cons raw rest ih =>
      rw [List.flatMap_cons, List.length_append, length_raw, ih, List.length_cons, Nat.mul_succ,
        Nat.add_comm]

theorem readHeader_eq (header : PSFHeader) (rest : ByteString) :
    PSF.readHeader (header.bytes ++ rest) = .ok
      { magic := u32 header.magic
        version := u32 header.version
        key_table_offset := u32 header.key_table_offset
        data_table_offset := u32 header.data_table_offset
        index_table_entries := u32 header.index_table_entries } := by
  have hslice : slice (header.bytes ++ rest) 0 sizeofHeader = some header.bytes :=
    @slice_append [] _ _ _ _ rfl (length_header header).symm
  have hmagic : ofBig (header.bytes.take 4) = u32 header.magic := ofBig_big 4 header.magic
  have hversion : ofLittle ((header.bytes.drop 4).take 4) = u32 header.version :=
    ofLittle_little 4 header.version
  have hkeys : ofLittle ((header.bytes.drop 8).take 4) = u32 header.key_table_offset :=
    ofLittle_little 4 header.key_table_offset
  have hdata : ofLittle ((header.bytes.drop 12).take 4) = u32 header.data_table_offset :=
    ofLittle_little 4 header.data_table_offset
  have hcount : ofLittle ((header.bytes.drop 16).take 4) = u32 header.index_table_entries :=
    ofLittle_little 4 header.index_table_entries
  rw [PSF.readHeader, hslice]
  simp only [PSF.read, pure_bind, hmagic, hversion, hkeys, hdata, hcount]
  rfl

theorem readRawEntry_eq (header : PSFHeader) {raws : List PSFRawEntry} {i : ℕ}
    {raw : PSFRawEntry} (h : raws[i]? = some raw) (body : ByteString) :
    PSF.readRawEntry (header.bytes ++ raws.flatMap PSFRawEntry.bytes ++ body) i = .ok
      { key_offset := u16 raw.key_offset
        param_fmt := u16 raw.param_fmt
        param_len := u32 raw.param_len
        param_max_len := u32 raw.param_max_len
        data_offset := u32 raw.data_offset } := by
  have hsplit : raws.flatMap PSFRawEntry.bytes =
      (raws.take i).flatMap PSFRawEntry.bytes ++ raw.bytes ++
        (raws.drop (i + 1)).flatMap PSFRawEntry.bytes := by
    have htake : (raws.take (i + 1)).flatMap PSFRawEntry.bytes =
        (raws.take i).flatMap PSFRawEntry.bytes ++ raw.bytes := by
      rw [List.take_add_one, h, List.flatMap_append]
      simp
    rw [← htake, ← List.flatMap_append, List.take_append_drop]
  have hlt : i < raws.length := (List.getElem?_eq_some_iff.mp h).1
  have hslice : slice (header.bytes ++ raws.flatMap PSFRawEntry.bytes ++ body)
      (sizeofHeader + i * sizeofRawEntry) sizeofRawEntry = some raw.bytes := by
    rw [hsplit]
    rw [show header.bytes ++ ((raws.take i).flatMap PSFRawEntry.bytes ++ raw.bytes ++
        (raws.drop (i + 1)).flatMap PSFRawEntry.bytes) ++ body =
      (header.bytes ++ (raws.take i).flatMap PSFRawEntry.bytes) ++ raw.bytes ++
        ((raws.drop (i + 1)).flatMap PSFRawEntry.bytes ++ body) by
      simp only [List.append_assoc]]
    refine slice_append ?_ (length_raw raw).symm
    rw [List.length_append, length_header, length_raws, List.length_take,
      Nat.min_eq_left (Nat.le_of_lt hlt), Nat.mul_comm]
  have hkey : ofLittle (raw.bytes.take 2) = u16 raw.key_offset := ofLittle_little 2 raw.key_offset
  have hfmt : ofLittle ((raw.bytes.drop 2).take 2) = u16 raw.param_fmt :=
    ofLittle_little 2 raw.param_fmt
  have hlen : ofLittle ((raw.bytes.drop 4).take 4) = u32 raw.param_len :=
    ofLittle_little 4 raw.param_len
  have hmax : ofLittle ((raw.bytes.drop 8).take 4) = u32 raw.param_max_len :=
    ofLittle_little 4 raw.param_max_len
  have hdata : ofLittle ((raw.bytes.drop 12).take 4) = u32 raw.data_offset :=
    ofLittle_little 4 raw.data_offset
  rw [PSF.readRawEntry, hslice]
  simp only [PSF.read, pure_bind, hkey, hfmt, hlen, hmax, hdata]
  rfl

/-! ### The layout of the file -/

/-- What `Encode` writes: where the header, the keys and the values stand. -/
structure Layout (psf : PSF) (bytes : ByteString) : Prop where
  header : PSF.readHeader bytes = .ok
    { magic := psfMagic
      version := psfVersion11
      key_table_offset := front psf
      data_table_offset := front psf + (keyTable psf.entry_list).length
      index_table_entries := psf.entry_list.length }
  keys : ∃ before after, bytes = before ++ keyTable psf.entry_list ++ after ∧
    before.length = front psf
  entries : ∀ i entry, psf.entry_list[i]? = some entry → ∃ param_len data_offset before after,
    PSF.readRawEntry bytes i = .ok
      { key_offset := u16 (keyOffset psf.entry_list i)
        param_fmt := entry.param_fmt.raw
        param_len := param_len
        param_max_len := entry.max_len
        data_offset := data_offset } ∧
    (entry.param_fmt ≠ .text → param_len = (storedBytes psf i entry.param_fmt).length) ∧
    bytes = before ++ (storedBytes psf i entry.param_fmt ++ after) ∧
    before.length = front psf + (keyTable psf.entry_list).length + data_offset

theorem u32_eq {n : ℕ} (h : n < 4294967296) : u32 n = n := Nat.mod_eq_of_lt h

theorem encode_fits (h : WellFormed psf) {bytes : ByteString} (hok : psf.encode = .ok bytes) :
    AllFit psf := by
  obtain ⟨raws, heq, hlen, hget⟩ := encodeKeys_spec psf.entry_list []
  rw [PSF.encode, heq] at hok
  dsimp only at hok
  obtain ⟨r, hdata, -⟩ := bind_eq_ok.mp hok
  intro i entry hentry
  have hzip : (psf.entry_list.zip raws)[i]? =
      some (entry, rawKey (keyOffset psf.entry_list i) entry) := by
    rw [List.getElem?_zip_eq_some]
    refine ⟨hentry, ?_⟩
    rw [hget i entry hentry, List.length_nil, Nat.zero_add]
  have hfits := encodeData_fits h (fun k p hk => ?_) hdata i _ hzip
  · rwa [Nat.zero_add] at hfits
  · obtain ⟨h₁, h₂⟩ := List.getElem?_zip_eq_some.mp hk
    rw [Nat.zero_add]
    refine ⟨h₁, ?_⟩
    rw [hget k p.1 h₁] at h₂
    rw [← Option.some.inj h₂]
    exact u32_eq (h.max_len_lt p.1 (List.mem_of_getElem? h₁))

/-- The header `Encode` writes. -/
def fileHeader (psf : PSF) : PSFHeader where
  magic := psfMagic
  version := psfVersion11
  key_table_offset := u32 (front psf)
  data_table_offset := u32 (front psf + (keyTable psf.entry_list).length)
  index_table_entries := u32 psf.entry_list.length

theorem raw_lt (fmt : PSFEntryFmt) : fmt.raw < 65536 := by
  cases fmt <;> decide

theorem encode_layout (h : WellFormed psf) (hfit : AllFit psf)
    (hsize : OffsetsFit psf) :
    ∃ bytes, psf.encode = .ok bytes ∧ Layout psf bytes := by
  obtain ⟨raws, heq, hlen, hget⟩ := encodeKeys_spec psf.entry_list []
  rw [List.nil_append] at heq
  have hzip : ∀ {k : ℕ} {p : Entry × PSFRawEntry}, (psf.entry_list.zip raws)[k]? = some p →
      psf.entry_list[k]? = some p.1 ∧ p.2 = rawKey (keyOffset psf.entry_list k) p.1 := by
    intro k p hk
    obtain ⟨h₁, h₂⟩ := List.getElem?_zip_eq_some.mp hk
    refine ⟨h₁, ?_⟩
    rw [hget k p.1 h₁, List.length_nil, Nat.zero_add] at h₂
    exact (Option.some.inj h₂).symm
  obtain ⟨raws', after, hdata, hcount, hvalues⟩ :=
    encodeData_spec h (front psf) (front psf + (keyTable psf.entry_list).length) 0
      (psf.entry_list.zip raws) (keyTable psf.entry_list) (by
        intro k p hk
        obtain ⟨h₁, h₂⟩ := hzip hk
        rw [Nat.zero_add]
        refine ⟨h₁, ?_, hfit k p.1 h₁⟩
        rw [h₂]
        exact u32_eq (h.max_len_lt p.1 (List.mem_of_getElem? h₁)))
  have hfst : (psf.entry_list.zip raws).map Prod.fst = psf.entry_list :=
    List.map_fst_zip (Nat.le_of_eq hlen.symm)
  have hcount' : raws'.length = psf.entry_list.length := by
    rw [hcount, List.length_zip, hlen, Nat.min_self]
  obtain ⟨htables, hoffsets⟩ := hsize
  have hn : psf.entry_list.length < 4294967296 := by
    have : sizeofRawEntry * psf.entry_list.length ≤ front psf := Nat.le_add_left _ _
    rw [sizeofRawEntry] at this
    omega
  have hheader : ∀ header : PSFHeader, (header.bytes ++ raws'.flatMap PSFRawEntry.bytes).length =
      front psf := by
    intro header
    rw [List.length_append, length_header, length_raws, hcount']
    rfl
  refine ⟨(fileHeader psf).bytes ++ raws'.flatMap PSFRawEntry.bytes ++
    (keyTable psf.entry_list ++ after), ?_, ?_, ?_, ?_⟩
  · rw [PSF.encode, heq]
    dsimp only
    rw [show sizeofHeader + sizeofRawEntry * psf.entry_list.length = front psf from rfl, hdata]
    rfl
  · rw [List.append_assoc, readHeader_eq, fileHeader]
    dsimp only
    rw [u32_eq (n := psf.entry_list.length) hn, u32_eq (n := psf.entry_list.length) hn,
      u32_eq (n := front psf) (by omega), u32_eq (n := front psf) (by omega),
      u32_eq (n := front psf + (keyTable psf.entry_list).length) (by omega),
      u32_eq (n := front psf + (keyTable psf.entry_list).length) (by omega)]
    rfl
  · rw [← List.append_assoc]
    exact ⟨_, _, rfl, hheader _⟩
  · intro i entry hentry
    have hraw : (psf.entry_list.zip raws)[i]? =
        some (entry, rawKey (keyOffset psf.entry_list i) entry) := by
      rw [List.getElem?_zip_eq_some]
      refine ⟨hentry, ?_⟩
      rw [hget i entry hentry, List.length_nil, Nat.zero_add]
    obtain ⟨before, rest, hsplit, hat, hraw'⟩ := hvalues i _ hraw
    rw [Nat.zero_add] at hsplit hraw'
    dsimp only at hsplit hraw'
    have hoffset : front psf + (keyTable psf.entry_list ++ before).length -
        (front psf + (keyTable psf.entry_list).length) = before.length := by
      rw [List.length_append]
      omega
    rw [hoffset] at hraw'
    obtain ⟨hlt, hbinary⟩ := hoffsets i entry hentry
    rw [hfst] at hat
    have hbound : before.length < 4294967296 := by
      rwa [dataOffset, ← hat, hoffset] at hlt
    refine ⟨u32 (storedBytes psf i entry.param_fmt).length, before.length, (fileHeader psf).bytes ++ raws'.flatMap PSFRawEntry.bytes ++
      (keyTable psf.entry_list ++ before), rest, ?_, fun htext => ?_, ?_, ?_⟩
    · rw [readRawEntry_eq _ hraw']
      simp only [rawData, rawKey]
      rw [u32_eq (n := before.length) hbound, u32_eq (n := before.length) hbound,
        show u32 (u32 (storedBytes psf i entry.param_fmt).length) =
          u32 (storedBytes psf i entry.param_fmt).length from Nat.mod_mod _ _,
        u32_eq (h.max_len_lt entry (List.mem_of_getElem? hentry)),
        u32_eq (h.max_len_lt entry (List.mem_of_getElem? hentry))]
      rw [show u16 entry.param_fmt.raw = entry.param_fmt.raw from
        Nat.mod_eq_of_lt (raw_lt entry.param_fmt)]
      rw [show u16 (u16 (keyOffset psf.entry_list i)) = u16 (keyOffset psf.entry_list i) from
        Nat.mod_mod _ _]
    · cases hfmt : entry.param_fmt with
      | binary => exact u32_eq (hfmt ▸ hbinary hfmt)
      | text => exact absurd hfmt htext
      | integer => rfl
    · rw [hsplit]
      simp only [List.append_assoc]
    · rw [List.length_append, hheader, List.length_append, Nat.add_assoc]

/-! ### Reading the entries -/

def foundKey (psf : PSF) (i : ℕ) : ByteString :=
  ((keyTable psf.entry_list).drop (u16 (keyOffset psf.entry_list i))).takeWhile (· ≠ 0)

def KeysFound (psf : PSF) : Prop :=
  ∀ i entry, psf.entry_list[i]? = some entry → foundKey psf i = entry.key

def opened (psf : PSF) (i : ℕ) : PSF where
  entry_list := (psf.entry_list.take i).mapIdx fun k entry => { entry with key := foundKey psf k }
  map_binaries := fun k => if k < i then psf.map_binaries k else none
  map_strings := fun k => if k < i then psf.map_strings k else none
  map_integers := fun k => if k < i then psf.map_integers k else none

theorem ofRaw_raw (fmt : PSFEntryFmt) : PSFEntryFmt.ofRaw fmt.raw = some fmt := by
  cases fmt <;> rfl

theorem emplace_below {α : Type} {map : ℕ → Option α} {i : ℕ} {value : α}
    (h : map i = some value) :
    emplace (fun k => if k < i then map k else none) i value =
      fun k => if k < i + 1 then map k else none := by
  rw [emplace_new (if_neg (Nat.lt_irrefl i))]
  funext k
  obtain hk | rfl | hk := Nat.lt_trichotomy k i
  · rw [if_neg (Nat.ne_of_lt hk), if_pos hk, if_pos (Nat.lt_succ_of_lt hk)]
  · rw [if_pos rfl, if_pos (Nat.lt_succ_self k), h]
  · rw [if_neg (Nat.ne_of_gt hk), if_neg (Nat.lt_asymm hk), if_neg (by omega)]

theorem below_none {α : Type} {map : ℕ → Option α} {i : ℕ} (h : map i = none) :
    (fun k => if k < i then map k else none) = fun k => if k < i + 1 then map k else none := by
  funext k
  obtain hk | rfl | hk := Nat.lt_trichotomy k i
  · rw [if_pos hk, if_pos (Nat.lt_succ_of_lt hk)]
  · rw [if_neg (Nat.lt_irrefl k), if_pos (Nat.lt_succ_self k), h]
  · rw [if_neg (Nat.lt_asymm hk), if_neg (by omega)]

theorem Keyed.none_other {α : Type} {map : ℕ → Option α} {entries : List Entry}
    {fmt : PSFEntryFmt} (h : Keyed map entries fmt) {i : ℕ} {entry : Entry}
    (hentry : entries[i]? = some entry) (hne : entry.param_fmt ≠ fmt) : map i = none := by
  cases hmap : map i with
  | none => rfl
  | some value =>
      obtain ⟨e, he, hfmt⟩ := (h i).mp (by rw [hmap]; rfl)
      rw [hentry] at he
      exact absurd (Option.some.inj he ▸ hfmt) hne

theorem Keyed.some_of_entry {α : Type} {map : ℕ → Option α} {entries : List Entry}
    {fmt : PSFEntryFmt} (h : Keyed map entries fmt) {i : ℕ} {entry : Entry}
    (hentry : entries[i]? = some entry) (hfmt : entry.param_fmt = fmt) :
    ∃ value, map i = some value :=
  Option.isSome_iff_exists.mp ((h i).mpr ⟨entry, hentry, hfmt⟩)

theorem zero_mem_keyTable {entries : List Entry} {offset : ℕ}
    (h : offset < (keyTable entries).length) : 0 ∈ (keyTable entries).drop offset := by
  have hlast : ∃ init, keyTable entries = init ++ [0] := by
    cases entries.eq_nil_or_concat with
    | inl hnil =>
        rw [hnil] at h
        exact absurd h (Nat.not_lt_zero _)
    | inr hconcat =>
        obtain ⟨init, entry, rfl⟩ := hconcat
        refine ⟨keyTable init ++ entry.key, ?_⟩
        simp [keyTable]
  obtain ⟨init, hinit⟩ := hlast
  rw [hinit, List.length_append, List.length_singleton] at h
  rw [hinit, List.drop_append_of_le_length (by omega)]
  exact List.mem_append_right _ List.mem_cons_self

theorem Layout.key {bytes : ByteString} (h : Layout psf bytes) {i : ℕ} {entry : Entry}
    (hentry : psf.entry_list[i]? = some entry) :
    cstring bytes (front psf + u16 (keyOffset psf.entry_list i)) = some (foundKey psf i) := by
  obtain ⟨before, after, rfl, hlen⟩ := h.keys
  obtain ⟨rest, hsplit⟩ := keyTable_split hentry
  rw [← hlen, foundKey]
  refine cstring_within (zero_mem_keyTable ?_)
  have hmod : u16 (keyOffset psf.entry_list i) ≤ keyOffset psf.entry_list i := Nat.mod_le _ _
  have hlt := congrArg List.length hsplit
  rw [List.length_append, List.length_append, List.length_cons] at hlt
  rw [keyOffset] at hmod
  rw [keyOffset, hlt]
  omega

theorem openEntry_eq (h : WellFormed psf) {bytes : ByteString} (hlayout : Layout psf bytes)
    {header : PSFHeader} (hkeys : header.key_table_offset = front psf)
    (hdata : header.data_table_offset = front psf + (keyTable psf.entry_list).length)
    {i : ℕ} {entry : Entry} (hentry : psf.entry_list[i]? = some entry) :
    PSF.openEntry bytes header i (opened psf i) = .ok (opened psf (i + 1)) := by
  obtain ⟨param_len, data_offset, before, after, hraw, hparam, hbytes, hlen⟩ :=
    hlayout.entries i entry hentry
  have hkey := hlayout.key hentry
  have hslice : slice bytes (front psf + (keyTable psf.entry_list).length + data_offset)
      (storedBytes psf i entry.param_fmt).length = some (storedBytes psf i entry.param_fmt) := by
    rw [hbytes, ← List.append_assoc]
    exact slice_append hlen.symm rfl
  have hentries : (opened psf i).entry_list ++
      [(⟨foundKey psf i, entry.param_fmt, entry.max_len⟩ : Entry)] =
        (opened psf (i + 1)).entry_list := by
    have hlt : i < psf.entry_list.length := (List.getElem?_eq_some_iff.mp hentry).1
    rw [opened, opened]
    dsimp only
    rw [List.take_add_one, hentry]
    simp [List.mapIdx_append, Nat.min_eq_left (Nat.le_of_lt hlt)]
  rw [PSF.openEntry, hraw]
  simp only [bind, Except.bind, hkeys, hkey, PSF.read, pure, Except.pure, ofRaw_raw, hdata]
  cases hfmt : entry.param_fmt with
  | binary =>
      obtain ⟨value, hvalue⟩ := h.binaries.some_of_entry hentry hfmt
      have hstored : storedBytes psf i .binary = value := by
        rw [storedBytes, hvalue]
        rfl
      rw [hfmt, hstored] at hslice hparam
      obtain rfl := hparam (by rintro ⟨⟩)
      rw [hfmt] at hentries
      simp only [opened] at hentries
      simp only [hslice, opened]
      rw [emplace_below hvalue, below_none (h.strings.none_other hentry (by rw [hfmt]; rintro ⟨⟩)),
        below_none (h.integers.none_other hentry (by rw [hfmt]; rintro ⟨⟩)), hentries]
  | text =>
      obtain ⟨value, hvalue⟩ := h.strings.some_of_entry hentry hfmt
      have hstored : storedBytes psf i .text = value ++ [0] := by
        rw [storedBytes, hvalue]
        rfl
      rw [hfmt, hstored, List.append_assoc] at hbytes
      have hstring : cstring bytes (front psf + (keyTable psf.entry_list).length + data_offset) =
          some value := by
        rw [hbytes]
        exact cstring_append hlen.symm (h.string_nul i value hvalue)
      rw [hfmt] at hentries
      simp only [opened] at hentries
      simp only [hstring, opened]
      rw [emplace_below hvalue,
        below_none (h.binaries.none_other hentry (by rw [hfmt]; rintro ⟨⟩)),
        below_none (h.integers.none_other hentry (by rw [hfmt]; rintro ⟨⟩)), hentries]
  | integer =>
      obtain ⟨value, hvalue⟩ := h.integers.some_of_entry hentry hfmt
      have hstored : storedBytes psf i .integer = little 4 value.toUInt32.toNat := by
        rw [storedBytes, hvalue]
        rfl
      have hinteger :
          (UInt32.ofNat (ofLittle (little 4 value.toUInt32.toNat))).toInt32 = value := by
        have hpow : (256 : ℕ) ^ 4 = 2 ^ 32 := by decide
        rw [ofLittle_little, hpow, Nat.mod_eq_of_lt value.toUInt32.toNat_lt, UInt32.ofNat_toNat]
        rfl
      rw [hfmt, hstored, length_little] at hslice hparam
      obtain rfl := hparam (by rintro ⟨⟩)
      rw [hfmt] at hentries
      simp only [opened] at hentries
      simp only [assertMsg, if_true, hslice, hinteger, opened]
      rw [emplace_below hvalue,
        below_none (h.binaries.none_other hentry (by rw [hfmt]; rintro ⟨⟩)),
        below_none (h.strings.none_other hentry (by rw [hfmt]; rintro ⟨⟩)), hentries]

theorem openLoop_eq (h : WellFormed psf) {bytes : ByteString} (hlayout : Layout psf bytes)
    {header : PSFHeader} (hkeys : header.key_table_offset = front psf)
    (hdata : header.data_table_offset = front psf + (keyTable psf.entry_list).length)
    (n i : ℕ) (hn : i + n = psf.entry_list.length) :
    PSF.openLoop bytes header n i (opened psf i) = .ok (opened psf psf.entry_list.length) := by
  induction n generalizing i with
  | zero =>
      rw [← hn, Nat.add_zero]
      rfl
  | succ n ih =>
      have hentry : psf.entry_list[i]? = some psf.entry_list[i] :=
        List.getElem?_eq_getElem (by omega)
      rw [PSF.openLoop, openEntry_eq h hlayout hkeys hdata hentry]
      exact ih (i + 1) (by omega)

theorem openPsf_eq (h : WellFormed psf) {bytes : ByteString} (hlayout : Layout psf bytes) :
    PSF.openPsf bytes = .ok (true, opened psf psf.entry_list.length) := by
  let header : PSFHeader :=
    { magic := psfMagic
      version := psfVersion11
      key_table_offset := front psf
      data_table_offset := front psf + (keyTable psf.entry_list).length
      index_table_entries := psf.entry_list.length }
  have hkeys : header.key_table_offset = front psf := rfl
  have hloop := openLoop_eq h hlayout hkeys rfl psf.entry_list.length 0 (Nat.zero_add _)
  have hempty : opened psf 0 = PSF.empty := by
    rw [opened, PSF.empty, List.take_zero]
    rfl
  rw [hempty] at hloop
  rw [PSF.openPsf, hlayout.header]
  have hloop : PSF.openLoop bytes ⟨psfMagic, psfVersion11, front psf,
      front psf + (keyTable psf.entry_list).length, psf.entry_list.length⟩
      psf.entry_list.length 0 PSF.empty = .ok (opened psf psf.entry_list.length) := hloop
  simp only [bind, Except.bind, pure, Except.pure, hloop]
  rfl

theorem opened_all (h : WellFormed psf) :
    opened psf psf.entry_list.length = psf ↔ KeysFound psf := by
  have hall {α : Type} {map : ℕ → Option α} {fmt : PSFEntryFmt}
      (hkeyed : Keyed map psf.entry_list fmt) :
      (fun k => if k < psf.entry_list.length then map k else none) = map := by
    funext k
    split
    · rfl
    · next hk => rw [hkeyed.none_length (Nat.le_of_not_lt hk)]
  have hiff : opened psf psf.entry_list.length = psf ↔
      (psf.entry_list.mapIdx fun k entry => ({ entry with key := foundKey psf k } : Entry)) =
        psf.entry_list := by
    constructor
    · intro heq
      have hentries := congrArg PSF.entry_list heq
      rwa [opened, List.take_length] at hentries
    · intro hentries
      rw [opened, List.take_length, hentries, hall h.binaries, hall h.strings, hall h.integers]
  rw [hiff]
  constructor
  · intro heq i entry hentry
    have hget := congrArg (·[i]?) heq
    simp only [List.getElem?_mapIdx, hentry, Option.map_some] at hget
    exact congrArg Entry.key (Option.some.inj hget)
  · intro hfound
    refine List.ext_getElem? fun i => ?_
    rw [List.getElem?_mapIdx]
    cases hentry : psf.entry_list[i]? with
    | none => rfl
    | some entry => rw [Option.map_some, hfound i entry hentry]

/-! ### The result -/

/-- Encoding fires no assertion, the file opens with the same entries, and encoding these again
gives the same file. -/
def RoundTrips (psf : PSF) : Prop :=
  ∃ bytes psf', psf.encode = .ok bytes ∧ PSF.openPsf bytes = .ok (true, psf') ∧ psf' = psf ∧
    psf'.encode = .ok bytes

/-- A file whose offsets fit comes back exactly when every value fits in the maximum length of its
entry and every key is found at the 16 low bits of its offset. -/
theorem psf_round_trip (h : ReachablePsf psf) :
    (OffsetsFit psf ∧ AllFit psf ∧ KeysFound psf → RoundTrips psf) ∧
      (OffsetsFit psf → RoundTrips psf → AllFit psf ∧ KeysFound psf) := by
  have hwf := h.wellFormed
  constructor
  · rintro ⟨hsize, hfit, hfound⟩
    obtain ⟨bytes, hencode, hlayout⟩ := encode_layout hwf hfit hsize
    have hopen := openPsf_eq hwf hlayout
    rw [(opened_all hwf).mpr hfound] at hopen
    exact ⟨bytes, psf, hencode, hopen, rfl, hencode⟩
  · rintro hsize ⟨bytes, psf', hencode, hopen, rfl, -⟩
    have hfit := encode_fits hwf hencode
    obtain ⟨bytes', hencode', hlayout⟩ := encode_layout hwf hfit hsize
    rw [hencode] at hencode'
    cases hencode'
    have hopen' := openPsf_eq hwf hlayout
    rw [hopen] at hopen'
    injection hopen' with hpair
    injection hpair with _ hpsf
    exact ⟨hfit, (opened_all hwf).mp hpsf.symm⟩

def oneString (key value : ByteString) (max_len : ℕ) : PSF where
  entry_list := [⟨key, .text, max_len⟩]
  map_binaries := fun _ => none
  map_strings := emplace (fun _ => none) 0 value
  map_integers := fun _ => none

theorem psf_round_trip_titleId :
    RoundTrips (oneString (ascii "TITLE_ID") (ascii "CUSA00001") 12) := by
  have hreach : ReachablePsf (oneString (ascii "TITLE_ID") (ascii "CUSA00001") 12) :=
    .step (.string (ascii "TITLE_ID") (ascii "CUSA00001") false) .start ⟨by decide, by decide⟩ rfl
  have hone {P : ℕ → Entry → Prop} (h : P 0 ⟨ascii "TITLE_ID", .text, 12⟩) : ∀ i entry,
      (oneString (ascii "TITLE_ID") (ascii "CUSA00001") 12).entry_list[i]? = some entry →
        P i entry := by
    intro i entry hentry
    cases i with
    | zero =>
        cases hentry
        exact h
    | succ i => cases hentry
  exact (psf_round_trip hreach).1 ⟨⟨by decide, hone ⟨by decide, fun htext => nomatch htext⟩⟩,
    hone ⟨by decide, by decide⟩, hone rfl⟩

/-- The known size of a category is four bytes, and longer ones are accepted. -/
theorem long_category :
    ReachablePsf (oneString (ascii "CATEGORY") (ascii "gdext") 4) ∧
      ¬ RoundTrips (oneString (ascii "CATEGORY") (ascii "gdext") 4) := by
  have hreach : ReachablePsf (oneString (ascii "CATEGORY") (ascii "gdext") 4) :=
    .step (.string (ascii "CATEGORY") (ascii "gdext") false) .start ⟨by decide, by decide⟩ rfl
  refine ⟨hreach, ?_⟩
  rintro ⟨bytes, psf', hencode, -⟩
  have hfit := encode_fits hreach.wellFormed hencode 0 _ rfl
  exact absurd hfit.1 (by decide)

end OrbitConsole.FileFormat
