import OrbitConsole.Core.Network.StatusLine

/-!
# Response headers

`sceHttpParseResponseHeader`: the search for a field at the line starts of a header block, the
white space behind its colon, and the value with the lines it is folded over.
-/

namespace OrbitConsole.Network

def chTab : ℕ := 0x09

def isAsciiSpace (c : ℕ) : Bool := (0x09 ≤ c && c ≤ 0x0d) || c == 0x20

def parseHttpNotFound : ℤ := (0x80432025 : ℤ) - 0x100000000

/-- What a call returns, and `fieldValue` with `valueLen` if they are stored; a null value is
`none`. -/
structure HeaderResult where
  ret : ℤ
  value : Option (ℕ × ℕ)
  deriving DecidableEq

/-- The value that a call has found. -/
def HeaderResult.slice (r : HeaderResult) (header : List ℕ) : List ℕ :=
  match r.value with
  | some (start, len) => (header.drop start).take len
  | none => []

def caseInsensitiveEq (mem : List ℕ) : List ℕ → ℕ → Exec Bool
  | [], _ => .ok true
  | c :: field, pos => do
      let b ← readAt mem pos
      if toLower c ≠ toLower b then .ok false else caseInsensitiveEq mem field (pos + 1)

/-- The test for the field at a character that is at a line start. -/
def fieldHere (mem : List ℕ) (headerLen : ℕ) (field : List ℕ) (cur : ℕ) : Exec Bool := do
  let first ← readAt mem cur
  if isAsciiSpace first = true then .ok false
  else if field.length < headerLen - cur then do
    if (← caseInsensitiveEq mem field cur) = true then do
      let c ← readAt mem (cur + field.length)
      .ok (c == chColon)
    else .ok false
  else .ok false

def fieldAt (mem : List ℕ) (headerLen : ℕ) (field : List ℕ) (atLineStart : Bool) (cur : ℕ) :
    Exec Bool :=
  if atLineStart = true then fieldHere mem headerLen field cur else .ok false

/-- The search for the field: where its value begins, with the white space. -/
def headerSearch (mem : List ℕ) (headerLen : ℕ) (field : List ℕ) :
    ℕ → Bool → ℕ → Exec (Option ℕ)
  | 0, _, _ => .error .diverges
  | fuel + 1, atLineStart, cur => do
      if (← fieldAt mem headerLen field atLineStart cur) = true then
        .ok (some (cur + field.length + 1))
      else do
        let c ← readAt mem cur
        if headerLen ≤ cur + 1 then .ok none
        else headerSearch mem headerLen field fuel (c == chNewline) (cur + 1)

def skipSpace (mem : List ℕ) (headerLen : ℕ) : ℕ → ℕ → Exec ℕ
  | 0, _ => .error .diverges
  | fuel + 1, valueOffset =>
      if valueOffset < headerLen then do
        let c ← readAt mem valueOffset
        if isAsciiSpace c = false then .ok valueOffset
        else if c = chNewline then .ok (valueOffset + 1)
        else skipSpace mem headerLen fuel (valueOffset + 1)
      else .ok valueOffset

def walkLine (mem : List ℕ) (headerLen : ℕ) : ℕ → ℕ → Exec ℕ
  | 0, _ => .error .diverges
  | fuel + 1, pos =>
      if pos < headerLen then do
        let c ← readAt mem pos
        if c ≠ chNewline then walkLine mem headerLen fuel (pos + 1) else .ok pos
      else .ok pos

/-- Whether the byte at `pos` continues a value, if there is one. -/
def foldAt (mem : List ℕ) (headerLen pos : ℕ) : Exec Bool :=
  if pos < headerLen then do
    let c ← readAt mem pos
    .ok (c == chSpace || c == chTab)
  else .ok false

/-- `sawCR`, at a newline. -/
def returnBefore (mem : List ℕ) (valueStart pos : ℕ) : Exec Bool :=
  if valueStart < pos then do
    let c ← readAt mem (pos - 1)
    .ok (c == chReturn)
  else .ok false

/-- `lineEnd` and `lengthEnd`. -/
def valueScan (mem : List ℕ) (headerLen valueStart : ℕ) : ℕ → ℕ → Exec (ℕ × ℕ)
  | 0, _ => .error .diverges
  | fuel + 1, pos =>
      if pos < headerLen then do
        let pos ← walkLine mem headerLen (headerLen + 1) pos
        if headerLen ≤ pos then .ok (headerLen, headerLen)
        else do
          let sawCR ← returnBefore mem valueStart pos
          if (← foldAt mem headerLen (pos + 1)) = true then
            valueScan mem headerLen valueStart fuel (pos + 1)
          else .ok (pos + 1, if sawCR = true then pos - 1 else pos)
      else .ok (valueStart, valueStart)

/-- What is stored and returned for a value. -/
def headerResult (valueStart lineEnd lengthEnd : ℕ) : HeaderResult :=
  if lengthEnd - valueStart = 0 then { ret := 0, value := none }
  else { ret := toInt32 lineEnd, value := some (valueStart, lengthEnd - valueStart) }

/-- The first loop, which an empty header does without. -/
def findField (mem : List ℕ) (headerLen : ℕ) (field : List ℕ) : Exec (Option ℕ) :=
  if headerLen ≠ 0 then headerSearch mem headerLen field (headerLen + 1) true 0 else .ok none

def valueEnds (mem : List ℕ) (headerLen valueStart : ℕ) : Exec (ℕ × ℕ) :=
  if valueStart < headerLen then valueScan mem headerLen valueStart (headerLen + 1) valueStart
  else .ok (headerLen, headerLen)

def parseResponseHeader (mem : List ℕ) (headerLen : ℕ) (fieldStr : List ℕ) :
    Exec HeaderResult := do
  match ← findField mem headerLen (fieldStr.take 0xfff) with
  | none => .ok { ret := parseHttpNotFound, value := none }
  | some valueOffset => do
      let valueStart ← skipSpace mem headerLen (headerLen + 1) valueOffset
      let (lineEnd, lengthEnd) ← valueEnds mem headerLen valueStart
      .ok (headerResult valueStart lineEnd lengthEnd)

def headerValues (fieldStr : List ℕ) : ℕ → List ℕ → Exec (List (List ℕ))
  | 0, _ => .error .diverges
  | calls + 1, header => do
      let r ← parseResponseHeader header header.length fieldStr
      if r.ret = parseHttpNotFound then .ok []
      else if r.ret < 0 then .error .undefined
      else do
        let values ← headerValues fieldStr calls (header.drop r.ret.toNat)
        .ok (r.slice header :: values)

end OrbitConsole.Network
