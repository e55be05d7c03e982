import OrbitConsole.Common.Machine
import OrbitConsole.Library.Bytes

/-!
# PSF files

A file holds a header, one index entry for each value, the keys and the values.
`Encode` fills the index while the keys and values are appended; here the three
parts are kept apart until the bytes are needed. Strings are byte strings.
-/

namespace OrbitConsole.FileFormat

open Exec Bytes

abbrev ByteString := List UInt8

def u32 (n : ℕ) : ℕ := n % 4294967296

def u16 (n : ℕ) : ℕ := n % 65536

def s32 (n : ℕ) : ℤ := if u32 n < 2147483648 then u32 n else (u32 n : ℤ) - 4294967296

def ascii (s : String) : ByteString := s.toList.map fun c => UInt8.ofNat c.toNat

def psfMagic : ℕ := 0x00505346
def psfVersion11 : ℕ := 0x00000101
def psfVersion10 : ℕ := 0x00000100

structure PSFHeader where
  magic : ℕ
  version : ℕ
  key_table_offset : ℕ
  data_table_offset : ℕ
  index_table_entries : ℕ
  deriving DecidableEq, Repr

def sizeofHeader : ℕ := 0x14

structure PSFRawEntry where
  key_offset : ℕ
  param_fmt : ℕ
  param_len : ℕ
  param_max_len : ℕ
  data_offset : ℕ
  deriving DecidableEq, Repr

def sizeofRawEntry : ℕ := 0x10

inductive PSFEntryFmt where
  | binary
  | text
  | integer
  deriving DecidableEq, Repr

def PSFEntryFmt.raw : PSFEntryFmt → ℕ
  | binary => 0x0004
  | text => 0x0204
  | integer => 0x0404

/-- The formats the `switch` of `Open` knows. -/
def PSFEntryFmt.ofRaw (n : ℕ) : Option PSFEntryFmt :=
  if n = 0x0004 then some binary
  else if n = 0x0204 then some text
  else if n = 0x0404 then some integer
  else none

structure Entry where
  key : ByteString
  param_fmt : PSFEntryFmt
  max_len : ℕ
  deriving DecidableEq, Repr

structure PSF where
  entry_list : List Entry
  map_binaries : ℕ → Option ByteString
  map_strings : ℕ → Option ByteString
  map_integers : ℕ → Option Int32

def emplace {α : Type} (map : ℕ → Option α) (i : ℕ) (value : α) : ℕ → Option α :=
  fun j => if j = i then (match map i with | none => some value | some old => some old) else map j

def mapAt {α : Type} (map : ℕ → Option α) (i : ℕ) : Exec α :=
  match map i with
  | none => throw .undefined
  | some value => pure value

def assign {α : Type} (map : ℕ → Option α) (i : ℕ) (value : α) : Exec (ℕ → Option α) :=
  match map i with
  | none => throw .undefined
  | some _ => pure fun j => if j = i then some value else map j

namespace PSF

def empty : PSF := ⟨[], fun _ => none, fun _ => none, fun _ => none⟩

/-! ### Adding values -/

def knownMaxSizes : List (ByteString × ℕ) :=
  [(ascii "ACCOUNT_ID", 8), (ascii "CATEGORY", 4), (ascii "DETAIL", 1024), (ascii "FORMAT", 4),
    (ascii "MAINTITLE", 128), (ascii "PARAMS", 1024), (ascii "SAVEDATA_BLOCKS", 8),
    (ascii "SAVEDATA_DIRECTORY", 32), (ascii "SUBTITLE", 128), (ascii "TITLE_ID", 12)]

def getMaxSize (key : ByteString) (default_value : ℕ) : ℕ :=
  match knownMaxSizes.lookup key with
  | some size => size
  | none => u32 default_value

def findEntry (psf : PSF) (key : ByteString) : ℕ :=
  psf.entry_list.findIdx fun entry => entry.key = key

def wrongFormat : String := "PSF: Change format is not supported"

/-- The part the three functions share: an entry for the key, or the changed one, with its
index; none when the key is there and may not be updated. -/
def addEntry (psf : PSF) (key : ByteString) (fmt : PSFEntryFmt) (max_len : ℕ) (update : Bool) :
    Exec (Option (List Entry × ℕ × Bool)) :=
  let index := psf.findEntry key
  match psf.entry_list[index]? with
  | some entry =>
      if update = false then pure none
      else if entry.param_fmt = fmt then
        pure (some (psf.entry_list.set index { entry with max_len := max_len }, index, true))
      else throw (.assertion wrongFormat)
  | none => pure (some (psf.entry_list ++ [⟨key, fmt, max_len⟩], psf.entry_list.length, false))

def addBinary (psf : PSF) (key value : ByteString) (update : Bool) : Exec PSF := do
  match ← psf.addEntry key .binary (getMaxSize key value.length) update with
  | none => return psf
  | some (entries, index, true) =>
      let map ← assign psf.map_binaries index value
      return { psf with entry_list := entries, map_binaries := map }
  | some (entries, index, false) =>
      return { psf with
        entry_list := entries, map_binaries := emplace psf.map_binaries index value }

def addBinary64 (psf : PSF) (key : ByteString) (value : UInt64) (update : Bool) : Exec PSF :=
  psf.addBinary key (little 8 value.toNat) update

def addString (psf : PSF) (key value : ByteString) (update : Bool) : Exec PSF := do
  match ← psf.addEntry key .text (getMaxSize key (value.length + 1)) update with
  | none => return psf
  | some (entries, index, true) =>
      let map ← assign psf.map_strings index value
      return { psf with entry_list := entries, map_strings := map }
  | some (entries, index, false) =>
      return { psf with
        entry_list := entries, map_strings := emplace psf.map_strings index value }

def addInteger (psf : PSF) (key : ByteString) (value : Int32) (update : Bool) : Exec PSF := do
  match ← psf.addEntry key .integer 4 update with
  | none => return psf
  | some (entries, index, true) =>
      let map ← assign psf.map_integers index value
      return { psf with entry_list := entries, map_integers := map }
  | some (entries, index, false) =>
      return { psf with
        entry_list := entries, map_integers := emplace psf.map_integers index value }

end PSF

/-! ### Encoding -/

def PSFHeader.bytes (h : PSFHeader) : ByteString :=
  big 4 h.magic ++ little 4 h.version ++ little 4 h.key_table_offset ++
    little 4 h.data_table_offset ++ little 4 h.index_table_entries

/-- `param_fmt` is declared big-endian, but written with `FromRaw` and read with `Raw`, which swap
no bytes. -/
def PSFRawEntry.bytes (e : PSFRawEntry) : ByteString :=
  little 2 e.key_offset ++ little 2 e.param_fmt ++ little 4 e.param_len ++
    little 4 e.param_max_len ++ little 4 e.data_offset

namespace PSF

/-- The first loop of `Encode`: the index entries and what has been appended. -/
def encodeKeys : List Entry → ByteString → List PSFRawEntry × ByteString
  | [], body => ([], body)
  | entry :: rest, body =>
      let raw : PSFRawEntry :=
        { key_offset := u16 body.length
          param_fmt := entry.param_fmt.raw
          param_len := 0
          param_max_len := u32 entry.max_len
          data_offset := 0 }
      let (raws, body) := encodeKeys rest (body ++ entry.key ++ [0])
      (raw :: raws, body)

def storedValue (psf : PSF) (i : ℕ) : PSFEntryFmt → Exec ByteString
  | .binary => mapAt psf.map_binaries i
  | .text => do
      let value ← mapAt psf.map_strings i
      return value ++ [0]
  | .integer => do
      let value ← mapAt psf.map_integers i
      return little 4 value.toUInt32.toNat

def sizeMismatch : String := "PSF entry max size mismatch"

/-- `additional_padding -= s32 (raw_entry.param_len)`. -/
def subtract32 (a b : ℤ) : Exec ℤ :=
  if -2147483648 ≤ a - b ∧ a - b < 2147483648 then pure (a - b) else throw .undefined

/-- The second loop of `Encode`. The buffer holds `front` bytes before the keys. -/
def encodeData (psf : PSF) (front data_table_offset : ℕ) :
    ℕ → List (Entry × PSFRawEntry) → ByteString → Exec (List PSFRawEntry × ByteString)
  | _, [], body => pure ([], body)
  | i, (entry, raw) :: rest, body => do
      let size := front + body.length
      let body := if size % 4 ≠ 0 then body ++ List.replicate (4 - size % 4) 0 else body
      let data_offset := u32 (front + body.length - data_table_offset)
      let value ← psf.storedValue i entry.param_fmt
      let param_len := u32 value.length
      let additional_padding ← subtract32 (s32 raw.param_max_len) (s32 param_len)
      assertMsg (0 ≤ additional_padding) sizeMismatch
      let body := body ++ value ++ List.replicate additional_padding.toNat 0
      let raw := { raw with param_len := param_len, data_offset := data_offset }
      let (raws, body) ← encodeData psf front data_table_offset (i + 1) rest body
      return (raw :: raws, body)

def encode (psf : PSF) : Exec ByteString := do
  let front := sizeofHeader + sizeofRawEntry * psf.entry_list.length
  let (raws, body) := encodeKeys psf.entry_list []
  let data_table_offset := front + body.length
  let header : PSFHeader :=
    { magic := psfMagic
      version := psfVersion11
      key_table_offset := u32 front
      data_table_offset := u32 data_table_offset
      index_table_entries := u32 psf.entry_list.length }
  let (raws, body) ← encodeData psf front data_table_offset 0 (psf.entry_list.zip raws) body
  return header.bytes ++ raws.flatMap PSFRawEntry.bytes ++ body

/-! ### Decoding -/

/-- A read from the buffer; outside of it the behaviour is undefined. -/
def read {α : Type} : Option α → Exec α
  | none => throw .undefined
  | some value => pure value

def readHeader (psf_data : ByteString) : Exec PSFHeader := do
  let b ← read (slice psf_data 0 sizeofHeader)
  return {
    magic := ofBig (b.take 4)
    version := ofLittle ((b.drop 4).take 4)
    key_table_offset := ofLittle ((b.drop 8).take 4)
    data_table_offset := ofLittle ((b.drop 12).take 4)
    index_table_entries := ofLittle ((b.drop 16).take 4) }

def readRawEntry (psf_data : ByteString) (i : ℕ) : Exec PSFRawEntry := do
  let b ← read (slice psf_data (sizeofHeader + i * sizeofRawEntry) sizeofRawEntry)
  return {
    key_offset := ofLittle (b.take 2)
    param_fmt := ofLittle ((b.drop 2).take 2)
    param_len := ofLittle ((b.drop 4).take 4)
    param_max_len := ofLittle ((b.drop 8).take 4)
    data_offset := ofLittle ((b.drop 12).take 4) }

/-- The body of the loop of `Open`. -/
def openEntry (psf_data : ByteString) (header : PSFHeader) (i : ℕ) (psf : PSF) : Exec PSF := do
  let raw_entry ← readRawEntry psf_data i
  let key ← read (cstring psf_data (header.key_table_offset + raw_entry.key_offset))
  let data := header.data_table_offset + raw_entry.data_offset
  match PSFEntryFmt.ofRaw raw_entry.param_fmt with
  | none => throw (.assertion "Unknown PSF entry format")
  | some fmt =>
      let psf := { psf with
        entry_list := psf.entry_list ++ [(⟨key, fmt, raw_entry.param_max_len⟩ : Entry)] }
      match fmt with
      | .binary =>
          let value ← read (slice psf_data data raw_entry.param_len)
          return { psf with map_binaries := emplace psf.map_binaries i value }
      | .text =>
          let c_str ← read (cstring psf_data data)
          return { psf with map_strings := emplace psf.map_strings i c_str }
      | .integer =>
          assertMsg (raw_entry.param_len = 4) "PSF integer entry size mismatch"
          let b ← read (slice psf_data data 4)
          let integer := (UInt32.ofNat (ofLittle b)).toInt32
          return { psf with map_integers := emplace psf.map_integers i integer }

/-- The loop of `Open`: `n` entries from `i` on. -/
def openLoop (psf_data : ByteString) (header : PSFHeader) : ℕ → ℕ → PSF → Exec PSF
  | 0, _, psf => pure psf
  | n + 1, i, psf => do
      let psf ← openEntry psf_data header i psf
      openLoop psf_data header n (i + 1) psf

/-- `PSF::Open` on a buffer: what it returns and the entries afterwards. -/
def openPsf (psf_buffer : ByteString) : Exec (Bool × PSF) := do
  let header ← readHeader psf_buffer
  if header.magic ≠ psfMagic then return (false, empty)
  if header.version ≠ psfVersion11 ∧ header.version ≠ psfVersion10 then return (false, empty)
  let psf ← openLoop psf_buffer header header.index_table_entries 0 empty
  return (true, psf)

end PSF

end OrbitConsole.FileFormat
