import Mathlib.Data.Int.Notation
import OrbitConsole.Core.Network.Http

/-!
# Status lines

`sceHttpParseStatusLine`. The memory from the status line on is a list, which may go on behind
the length that the caller gives; reading behind the memory is undefined, and so is a version
number that does not fit an `int32_t`.
-/

namespace OrbitConsole.Network

/-- What the caller hands over for reading: its length is a `u64`. -/
structure Buffer where
  bytes : List ℕ
  length_lt : bytes.length < 18446744073709551616

def readAt (mem : List ℕ) (i : ℕ) : Exec ℕ :=
  if i < mem.length then .ok (mem.getD i 0) else .error .undefined

/-- Where the results are stored; `reasonPhrase` counts from the status line. -/
structure StatusOut where
  httpMajorVer : ℕ
  httpMinorVer : ℕ
  responseCode : ℕ
  reasonPhrase : ℕ
  phraseLen : ℕ
  deriving DecidableEq

def parseHttpInvalidResponse : ℤ := (0x80432060 : ℤ) - 0x100000000

/-- `static_cast<int>` of a `u64`. -/
def toInt32 (n : ℕ) : ℤ :=
  if n % 0x100000000 < 0x80000000 then (n : ℤ) % 0x100000000
  else (n : ℤ) % 0x100000000 - 0x100000000

def httpSlash : List ℕ := [0x48, 0x54, 0x54, 0x50, 0x2f]

def chSpace : ℕ := 0x20
def chNewline : ℕ := 0x0a
def chReturn : ℕ := 0x0d

def int32Max : ℕ := 0x7fffffff

/-- The loops over the digits of a version: the number, where they end, and whether a byte
that is no ASCII character ends them. -/
def versionLoop (mem : List ℕ) : ℕ → ℕ → ℕ → ℕ → Exec (ℕ × ℕ × Bool)
  | 0, _, _, _ => .error .diverges
  | fuel + 1, pos, ch, version =>
      if isDigit ch = true then do
        let digit ← readAt mem pos
        let version := version * 10 + (digit - 0x30)
        if int32Max < version then .error .undefined
        else do
          let next ← readAt mem (pos + 1)
          if 0x80 ≤ next then .ok (version, pos + 1, true)
          else versionLoop mem fuel (pos + 1) next version
      else .ok (version, pos, false)

/-- The search for the end of the line. -/
def newlineScan (mem : List ℕ) (phraseStart maxScan : ℕ) : ℕ → ℕ → Exec (Option ℕ)
  | 0, _ => .error .diverges
  | fuel + 1, scanLen =>
      if scanLen ≤ maxScan then do
        let c ← readAt mem (phraseStart + scanLen)
        if c ≠ chNewline then newlineScan mem phraseStart maxScan fuel (scanLen + 1)
        else .ok (some scanLen)
      else .ok none

def phraseLength (mem : List ℕ) (phraseStart scanLen : ℕ) : Exec ℕ :=
  if scanLen = 0 then .ok 0
  else do
    let c ← readAt mem (phraseStart + scanLen - 1)
    .ok (scanLen - if c = chReturn then 1 else 0)

/-- The rest of the line, behind the code. -/
def statusPhrase (mem : List ℕ) (phraseStart maxScan : ℕ) (out : StatusOut) :
    Exec (ℤ × StatusOut) := do
  match ← newlineScan mem phraseStart maxScan (mem.length + 1) 0 with
  | none => .ok (parseHttpInvalidResponse, out)
  | some scanLen => do
      let phraseLen ← phraseLength mem phraseStart scanLen
      .ok (toInt32 (phraseStart + scanLen + 1),
        { out with reasonPhrase := phraseStart, phraseLen := phraseLen })

def statusCode (mem : List ℕ) (lineLen index : ℕ) (out : StatusOut) : Exec (ℤ × StatusOut) := do
  let remaining := sub64 lineLen index
  if remaining < 3 then .ok (parseHttpInvalidResponse, out)
  else do
    let c₀ ← readAt mem index
    if isDigit c₀ = false then .ok (parseHttpInvalidResponse, out)
    else do
      let c₁ ← readAt mem (index + 1)
      if isDigit c₁ = false then .ok (parseHttpInvalidResponse, out)
      else do
        let c₂ ← readAt mem (index + 2)
        if isDigit c₂ = false then .ok (parseHttpInvalidResponse, out)
        else
          statusPhrase mem (index + 3) (remaining - 3) { out with
            responseCode := (c₀ - 0x30) * 100 + (c₁ - 0x30) * 10 + (c₂ - 0x30) }

def statusVersion (mem : List ℕ) (pos version separator : ℕ) (store : ℕ → StatusOut)
    (out : StatusOut) (next : ℕ → StatusOut → Exec (ℤ × StatusOut)) : Exec (ℤ × StatusOut) := do
  let first ← readAt mem pos
  if isDigit first = false then .ok (parseHttpInvalidResponse, out)
  else do
    let (version, pos, rejected) ← versionLoop mem (mem.length + 1) pos first version
    if rejected = true then .ok (parseHttpInvalidResponse, store version)
    else do
      let c ← readAt mem pos
      if c ≠ separator then .ok (parseHttpInvalidResponse, store version)
      else next (pos + 1) (store version)

def statusMinor (mem : List ℕ) (lineLen pos : ℕ) (out : StatusOut) : Exec (ℤ × StatusOut) :=
  statusVersion mem pos out.httpMinorVer chSpace
    (fun version => { out with httpMinorVer := version })
    out (statusCode mem lineLen)

/-- `sceHttpParseStatusLine`: what it returns, and what it has stored then. -/
def parseStatusLine (mem : List ℕ) (lineLen : ℕ) (out : StatusOut) : Exec (ℤ × StatusOut) :=
  let out := { out with httpMajorVer := 0, httpMinorVer := 0 }
  if lineLen < 8 then .ok (parseHttpInvalidResponse, out)
  else if mem.length < 5 then .error .undefined
  else if mem.take 5 ≠ httpSlash then .ok (parseHttpInvalidResponse, out)
  else
    statusVersion mem 5 out.httpMajorVer chDot (fun version => { out with httpMajorVer := version })
      out (statusMinor mem lineLen)

end OrbitConsole.Network
