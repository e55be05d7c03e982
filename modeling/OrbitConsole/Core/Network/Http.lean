import OrbitConsole.Common.Machine

/-!
# URIs

`sceHttpUriParse` and `sceHttpUriSweepPath`. A URI is the bytes before its terminator; the
pool is its bytes, or is not there when only the size is asked for. Reading behind the
terminator and writing behind the pool are undefined.
-/

namespace OrbitConsole.Network

/-- The codes that `sceHttpUriParse` returns. -/
inductive HttpError
  | invalidUrl
  | outOfMemory
  deriving DecidableEq

/-- A call returns a code, or stops. -/
inductive Failure
  | code (error : HttpError)
  | fault (fault : Fault)
  deriving DecidableEq

abbrev Http := Except Failure

def chNul : ℕ := 0
def chSlash : ℕ := 0x2f
def chColon : ℕ := 0x3a
def chAt : ℕ := 0x40
def chDot : ℕ := 0x2e
def chHash : ℕ := 0x23
def chQuestion : ℕ := 0x3f
def chOpen : ℕ := 0x5b
def chClose : ℕ := 0x5d

def isDigit (c : ℕ) : Bool := 0x30 ≤ c && c ≤ 0x39

def isAlpha (c : ℕ) : Bool := (0x41 ≤ c && c ≤ 0x5a) || (0x61 ≤ c && c ≤ 0x7a)

def isAlnum (c : ℕ) : Bool := isAlpha c || isDigit c

def byteAt (src : List ℕ) (i : ℕ) : Http ℕ :=
  if i ≤ src.length then .ok (src.getD i 0) else .error (.fault .undefined)

/-- `memcpy` out of `srcUri`. -/
def bytesAt (src : List ℕ) (i n : ℕ) : Http (List ℕ) :=
  if i + n ≤ src.length + 1 then .ok (((src ++ [0]).drop i).take n)
  else .error (.fault .undefined)

/-- `memcpy` into a block of memory. -/
def writeAt (block : List ℕ) (i : ℕ) (data : List ℕ) : Http (List ℕ) :=
  if i + data.length ≤ block.length then
    .ok (block.take i ++ data ++ block.drop (i + data.length))
  else .error (.fault .undefined)

/-- What a scan makes of a character. -/
inductive Verdict
  | more
  | stop
  | invalid
  deriving DecidableEq

/-- The loops that scan a component; the result is how far they come. -/
def scan (src : List ℕ) (classify : ℕ → ℕ → Verdict) (base : ℕ) : ℕ → ℕ → Http ℕ
  | 0, _ => .error (.fault .diverges)
  | fuel + 1, pos => do
      let c ← byteAt src (base + pos)
      match classify pos c with
      | .more => scan src classify base fuel (pos + 1)
      | .stop => .ok pos
      | .invalid => .error (.code .invalidUrl)

def scanFuel (src : List ℕ) : ℕ := src.length + 2

/-- What a component takes of the pool: what is asked for, how much it uses, and what is there
afterwards. -/
structure Piece where
  needed : ℕ
  size : ℕ
  image : Http (List ℕ)

/-- The part of a component that needs `writeOutput`. -/
def store (pool : Option (List ℕ)) (poolUsed : ℕ) (piece : Piece) : Http (Option (List ℕ)) :=
  match pool with
  | none => .ok none
  | some bytes =>
      if sub64 bytes.length poolUsed < piece.needed then .error (.code .outOfMemory)
      else do
        let data ← piece.image
        let bytes ← writeAt bytes poolUsed data
        .ok (some bytes)

/-- A string is copied and terminated. -/
def stringPiece (src : List ℕ) (offset len : ℕ) : Piece :=
  { needed := len + 1
    size := len + 1
    image := do
      let data ← bytesAt src offset len
      .ok (data ++ [0]) }

def classifyScheme (i c : ℕ) : Verdict :=
  if 0x20 ≤ i ∨ c = chNul ∨ c = chColon then .stop
  else if isAlnum c || c == 0x2b || c == 0x2d || c == chDot then .more
  else .stop

/-- The scheme, if there is one: without it an empty string is stored, but two bytes are asked
for. -/
def scheme (src : List ℕ) : Http (Piece × ℕ) := do
  let i ← scan src classifyScheme 0 (scanFuel src) 0
  let c ← byteAt src i
  let first ← byteAt src 0
  if 0 < i ∧ c = chColon ∧ isAlpha first = true then
    .ok (stringPiece src 0 i, i + 1)
  else .ok ({ needed := 2, size := 1, image := .ok [0] }, 0)

def classifySlash (_ c : ℕ) : Verdict := if c = chSlash then .more else .stop

/-- The slashes before the authority: where it starts, and whether the URI is opaque. -/
def slashes (src : List ℕ) (offset : ℕ) : Http (ℕ × Bool) := do
  let slashCount ← scan src classifySlash offset (scanFuel src) 0
  if 2 ≤ slashCount then .ok (offset + 2, false) else .ok (offset, true)

def userinfoPunct : List ℕ :=
  [0x21, 0x24, 0x25, 0x26, 0x27, 0x28, 0x29, 0x2a, 0x2b, 0x2c, 0x2d, 0x2e, 0x3a, 0x3b, 0x3d,
    0x5f, 0x7e]

/-- The loop over the authority: the first colon, and the `@`. -/
def scanUserinfo (src : List ℕ) (base : ℕ) : ℕ → ℕ → Option ℕ → Http (Option ℕ × Option ℕ)
  | 0, _, _ => .error (.fault .diverges)
  | fuel + 1, pos, colon => do
      let c ← byteAt src (base + pos)
      if c = chNul then .ok (colon, none)
      else if c = chAt then .ok (colon, some pos)
      else if colon = none ∧ c = chColon then scanUserinfo src base fuel (pos + 1) (some pos)
      else if c < 0x80 ∧ (isAlnum c || userinfoPunct.contains c) = true then
        scanUserinfo src base fuel (pos + 1) colon
      else .ok (colon, none)

/-- `userLen`, `passOffset` and `passLen`. -/
def userinfoParts (colon : Option ℕ) (atPos : ℕ) : ℕ × ℕ × ℕ :=
  match colon with
  | some colonPos => (colonPos, colonPos + 1, atPos - (colonPos + 1))
  | none => (atPos, atPos + 1, 0)

/-- User name and password, where the password is in the piece, and where the host starts. -/
def userinfo (src : List ℕ) (offset : ℕ) : Http (Piece × ℕ × ℕ) := do
  let (colon, at_) ← scanUserinfo src offset (scanFuel src) 0 none
  match at_ with
  | none => .ok ({ needed := 2, size := 2, image := .ok [0, 0] }, 1, offset)
  | some atPos =>
      let (userLen, passOffset, passLen) := userinfoParts colon atPos
      .ok ({
        needed := passOffset + passLen + 1
        size := passOffset + passLen + 1
        image := do
          let user ← bytesAt src offset userLen
          let pass ← bytesAt src (offset + passOffset) passLen
          .ok (user ++ [0] ++ pass ++ [0]) }, passOffset, offset + atPos + 1)

def hostChar (c : ℕ) : Bool := c < 0x80 && (isAlnum c || c == 0x2d || c == chDot || c == 0x5f)

def classifyHost (pos c : ℕ) : Verdict :=
  if pos = 0xff then .invalid else if c ≠ chNul ∧ hostChar c = true then .more else .stop

def classifyIpv6 (pos c : ℕ) : Verdict :=
  if pos = 0xff then .invalid
  else if c ≠ chNul ∧ c ≠ chClose ∧ (hostChar c || c == chColon) = true then .more
  else .stop

def host (src : List ℕ) (offset : ℕ) : Http (Piece × ℕ) := do
  let first ← byteAt src offset
  if first = chDot then .ok (stringPiece src offset 0, offset)
  else if first = chOpen then do
    let len ← scan src classifyIpv6 offset (scanFuel src) 1
    let c ← byteAt src (offset + len)
    if c ≠ chClose then .error (.code .invalidUrl)
    else .ok (stringPiece src (offset + 1) (len - 1), offset + len + 1)
  else do
    let len ← scan src classifyHost offset (scanFuel src) 0
    .ok (stringPiece src offset len, offset + len)

def toLower (c : ℕ) : ℕ := if 0x41 ≤ c ∧ c ≤ 0x5a then c + 0x20 else c

def prefixCaseEq (scheme target : List ℕ) : Bool :=
  target.length ≤ scheme.length && (scheme.take target.length).map toLower == target

/-- The port of a URI without one: of the prefixes `https`, `http` and `ttp` of its scheme. -/
def defaultPort (scheme : List ℕ) : ℕ :=
  if 0x20 < scheme.length then 0
  else if prefixCaseEq scheme [0x68, 0x74, 0x74, 0x70, 0x73] then 443
  else if prefixCaseEq scheme [0x68, 0x74, 0x74, 0x70] then 80
  else if prefixCaseEq scheme [0x74, 0x74, 0x70] then 80
  else 0

def classifyPort (pos c : ℕ) : Verdict :=
  if 5 ≤ pos then .stop else if isDigit c then .more else .stop

def port (src : List ℕ) (offset : ℕ) : Http (Option ℕ × ℕ) := do
  let c ← byteAt src offset
  if c = chColon then do
    let digitsLen ← scan src classifyPort (offset + 1) (scanFuel src) 0
    let digits ← bytesAt src (offset + 1) digitsLen
    let port32 := digits.foldl (fun value d => value * 10 + (d - 0x30)) 0
    if 0x10000 < port32 then .error (.code .invalidUrl)
    else do
      let afterPort ← byteAt src (offset + 1 + digitsLen)
      if afterPort ≠ chNul ∧ afterPort ≠ chSlash then .error (.code .invalidUrl)
      else if 0 < digitsLen then .ok (some (port32 % 65536), offset + 1 + digitsLen)
      else .ok (none, offset + 1 + digitsLen)
  else .ok (none, offset)

/-- A character of a string that a loop of `sceHttpUriSweepPath` reads. -/
def charAt (src : List ℕ) (i : ℕ) : Http ℕ :=
  if i < src.length then .ok (src.getD i 0) else .error (.fault .undefined)

/-- A character that is read only if a comparison before it succeeds. -/
def charIf (cond : Prop) [Decidable cond] (src : List ℕ) (i : ℕ) : Http ℕ :=
  if cond then charAt src i else .ok 1

def lastSlash (dst : List ℕ) : Http (Option ℕ) :=
  if 0 ∈ dst then
    .ok ((List.range (dst.findIdx (· == 0))).reverse.find? fun i => dst.getD i 0 == chSlash)
  else .error (.fault .undefined)

/-- The characters up to the next slash, and with it, of what is left of the path. -/
def segmentLength (src : List ℕ) (srcPos : ℕ) : ℕ :=
  let remaining := src.length - srcPos - 1
  let name := ((src.drop srcPos).takeWhile fun c => c != chSlash && c != chNul).length
  if src.getD (srcPos + name) 0 = chSlash then min (name + 1) remaining else remaining

/-- The loop of `sceHttpUriSweepPath`; `segmentEnd` is where the last slash is in `dst`. -/
def sweepLoop (src : List ℕ) : ℕ → ℕ → ℕ → List ℕ → Http (List ℕ)
  | 0, _, _, _ => .error (.fault .diverges)
  | fuel + 1, srcPos, segmentEnd, dst =>
      if srcPos < src.length - 1 then do
        let c ← charAt src srcPos
        let c₁ ← charIf (c = chDot) src (srcPos + 1)
        let c₂ ← charIf (c₁ = chDot) src (srcPos + 2)
        if c₁ = chSlash then sweepLoop src fuel (srcPos + 2) segmentEnd dst
        else if c₂ = chSlash then
          if segmentEnd = 0 then sweepLoop src fuel (srcPos + 3) 0 dst
          else do
            let dst ← writeAt dst segmentEnd [0]
            match ← lastSlash dst with
            -- the next segment would be copied to a null pointer
            | none => .error (.fault .undefined)
            | some prevSlash => do
                let dst ← writeAt dst (prevSlash + 1) [0]
                sweepLoop src fuel (srcPos + 3) prevSlash dst
        else do
          let copyLen := segmentLength src srcPos
          let dst ← writeAt dst (segmentEnd + 1) ((src.drop srcPos).take copyLen)
          let dst ← writeAt dst (segmentEnd + copyLen + 1) [0]
          sweepLoop src fuel (srcPos + copyLen) (segmentEnd + copyLen) dst
      else .ok dst

/-- `sceHttpUriSweepPath`; `srcSize` is the length of `src`, with its terminator. -/
def sweepPath (dst src : List ℕ) : Http (List ℕ) :=
  if src.length = 0 then .ok dst
  else if src.getD 0 0 ≠ chSlash then do
    let dst ← writeAt dst 0 (src.take (src.length - 1))
    writeAt dst (src.length - 1) [0]
  else do
    let dst ← writeAt dst 0 [chSlash, 0]
    if src.length - 1 ≤ 1 then .ok dst
    else sweepLoop src (src.length + 1) 1 0 dst

def classifyPath (pos c : ℕ) : Verdict :=
  if c = chNul ∨ c = chQuestion ∨ c = chHash then .stop
  else if 0x3fff ≤ pos then .invalid
  else .more

def path (src : List ℕ) (offset : ℕ) : Http (Piece × ℕ) := do
  let pathLen ← scan src classifyPath offset (scanFuel src) 0
  .ok ({
    needed := pathLen + 1
    size := pathLen + 1
    image := do
      let data ← bytesAt src offset pathLen
      sweepPath (data ++ [0]) (data ++ [0]) }, offset + pathLen)

def classifyQuery (pos c : ℕ) : Verdict :=
  if c = chNul ∨ c = chHash then .stop else if 0x3fff ≤ pos then .invalid else .more

def classifyFragment (pos c : ℕ) : Verdict :=
  if c = chNul then .stop else if 0x3fff ≤ pos then .invalid else .more

/-- The query and the fragment: a mark and what follows it. -/
def marked (mark : ℕ) (classify : ℕ → ℕ → Verdict) (src : List ℕ) (offset : ℕ) :
    Http (Piece × ℕ) := do
  let c ← byteAt src offset
  if c = mark then do
    let len ← scan src classify offset (scanFuel src) 1
    .ok (stringPiece src offset len, offset + len)
  else .ok (stringPiece src offset 0, offset)

def query : List ℕ → ℕ → Http (Piece × ℕ) := marked chQuestion classifyQuery

def fragment : List ℕ → ℕ → Http (Piece × ℕ) := marked chHash classifyFragment

/-- `OrbisHttpUriElement`; the strings are where they start in the pool. -/
structure UriElement where
  isOpaque : Bool
  scheme : ℕ
  username : ℕ
  password : ℕ
  hostname : ℕ
  path : ℕ
  query : ℕ
  fragment : ℕ
  port : ℕ
  deriving DecidableEq

/-- `sceHttpUriParse`: the bytes of the pool it uses, the pool and the elements. Without a pool
only the first is asked for. -/
def uriParse (src : List ℕ) (pool : Option (List ℕ)) :
    Http (ℕ × Option (List ℕ) × UriElement) := do
  let (schemePiece, offset) ← scheme src
  let pool ← store pool 0 schemePiece
  let username := schemePiece.size
  let (offset, isOpaque) ← slashes src offset
  let (userPiece, passOffset, offset) ← userinfo src offset
  let pool ← store pool username userPiece
  let hostname := username + userPiece.size
  let (hostPiece, offset) ← host src offset
  let pool ← store pool hostname hostPiece
  let (uriPort, offset) ← port src offset
  let pathStart := hostname + hostPiece.size
  let (pathPiece, offset) ← path src offset
  let pool ← store pool pathStart pathPiece
  let queryStart := pathStart + pathPiece.size
  let (queryPiece, offset) ← query src offset
  let pool ← store pool queryStart queryPiece
  let fragmentStart := queryStart + queryPiece.size
  let (fragmentPiece, _) ← fragment src offset
  let pool ← store pool fragmentStart fragmentPiece
  .ok (fragmentStart + fragmentPiece.size, pool, {
    isOpaque
    scheme := 0
    username
    password := username + passOffset
    hostname
    path := pathStart
    query := queryStart
    fragment := fragmentStart
    port := uriPort.getD (defaultPort (src.take (schemePiece.size - 1))) })

end OrbitConsole.Network
