import OrbitConsole.Core.Network.Http

/-!
# Escaping of URIs

`sceHttpUriEscape` and `sceHttpUriUnescape`: a pass that counts and a pass that writes. Both
read the string through its terminator, and behind it nothing may be read.
-/

namespace OrbitConsole.Network

def chPercent : ℕ := 0x25

/-- A NUL-terminated string, without its terminator. -/
structure CString where
  bytes : List ℕ
  isChar : ∀ c ∈ bytes, 0 < c ∧ c < 256

/-- The code that a conversion returns, `*require`, and the block of `out` afterwards. -/
structure Converted where
  result : Option HttpError
  require : ℕ
  out : Option (List ℕ)
  deriving DecidableEq

/-- What both conversions do between their passes. -/
def convert (needed : ℕ) (out : Option (List ℕ)) (prepare : ℕ)
    (write : List ℕ → Http (List ℕ)) : Http Converted :=
  match out with
  | none => .ok { result := none, require := needed, out := none }
  | some block =>
      if prepare < needed then
        .ok { result := some .outOfMemory, require := needed, out := some block }
      else do
        let block ← write block
        .ok { result := none, require := needed, out := some block }

def isUnreserved (c : ℕ) : Bool :=
  (0x41 ≤ c && c ≤ 0x5a) || (0x61 ≤ c && c ≤ 0x7a) || (0x30 ≤ c && c ≤ 0x39) ||
    c == 0x2d || c == 0x5f || c == chDot || c == 0x7e

def hexChars : List ℕ :=
  [0x30, 0x31, 0x32, 0x33, 0x34, 0x35, 0x36, 0x37, 0x38, 0x39, 0x41, 0x42, 0x43, 0x44, 0x45, 0x46]

/-- The first pass of `sceHttpUriEscape`. -/
def escapeCount (src : List ℕ) : ℕ → ℕ → ℕ → Http ℕ
  | 0, _, _ => .error (.fault .diverges)
  | fuel + 1, pos, needed => do
      let c ← byteAt src pos
      if c = chNul then .ok (needed + 1)
      else if isUnreserved c = true then escapeCount src fuel (pos + 1) (needed + 1)
      else escapeCount src fuel (pos + 1) (needed + 3)

/-- The second pass of `sceHttpUriEscape`; `dst` is how far it has written. -/
def escapeWrite (src : List ℕ) : ℕ → ℕ → ℕ → List ℕ → Http (List ℕ)
  | 0, _, _, _ => .error (.fault .diverges)
  | fuel + 1, pos, dst, out => do
      let c ← byteAt src pos
      if c = chNul then writeAt out dst [0]
      else if isUnreserved c = true then do
        let out ← writeAt out dst [c]
        escapeWrite src fuel (pos + 1) (dst + 1) out
      else do
        let out ← writeAt out dst
          [chPercent, hexChars.getD (c >>> 4 &&& 0xf) 0, hexChars.getD (c &&& 0xf) 0]
        escapeWrite src fuel (pos + 1) (dst + 3) out

def uriEscape (out : Option (List ℕ)) (prepare : ℕ) (src : List ℕ) : Http Converted := do
  let needed ← escapeCount src (scanFuel src) 0 0
  convert needed out prepare (escapeWrite src (scanFuel src) 0 0)

def isHex (c : ℕ) : Bool :=
  (0x30 ≤ c && c ≤ 0x39) || (0x41 ≤ c && c ≤ 0x46) || (0x61 ≤ c && c ≤ 0x66)

def hexToInt (c : ℕ) : ℕ :=
  if 0x30 ≤ c ∧ c ≤ 0x39 then c - 0x30
  else if 0x41 ≤ c ∧ c ≤ 0x46 then c - 0x41 + 10
  else if 0x61 ≤ c ∧ c ≤ 0x66 then c - 0x61 + 10
  else 0

/-- `IsValidPercentSequence`: no character is read behind a terminator. -/
def isValidPercentSequence (src : List ℕ) (pos : ℕ) : Http Bool := do
  let c ← byteAt src pos
  if c ≠ chPercent then .ok false
  else do
    let c₁ ← byteAt src (pos + 1)
    if c₁ = chNul then .ok false
    else do
      let c₂ ← byteAt src (pos + 2)
      if c₂ = chNul then .ok false
      else .ok (isHex c₁ && isHex c₂)

/-- The first pass of `sceHttpUriUnescape`. -/
def unescapeCount (src : List ℕ) : ℕ → ℕ → ℕ → Http ℕ
  | 0, _, _ => .error (.fault .diverges)
  | fuel + 1, pos, needed => do
      let c ← byteAt src pos
      if c = chNul then .ok (needed + 1)
      else if (← isValidPercentSequence src pos) = true then
        unescapeCount src fuel (pos + 3) (needed + 1)
      else unescapeCount src fuel (pos + 1) (needed + 1)

/-- The second pass of `sceHttpUriUnescape`. -/
def unescapeWrite (src : List ℕ) : ℕ → ℕ → ℕ → List ℕ → Http (List ℕ)
  | 0, _, _, _ => .error (.fault .diverges)
  | fuel + 1, pos, dst, out => do
      let c ← byteAt src pos
      if c = chNul then writeAt out dst [0]
      else if (← isValidPercentSequence src pos) = true then do
        let c₁ ← byteAt src (pos + 1)
        let c₂ ← byteAt src (pos + 2)
        let out ← writeAt out dst [(hexToInt c₁ <<< 4) ||| hexToInt c₂]
        unescapeWrite src fuel (pos + 3) (dst + 1) out
      else do
        let out ← writeAt out dst [c]
        unescapeWrite src fuel (pos + 1) (dst + 1) out

def uriUnescape (out : Option (List ℕ)) (prepare : ℕ) (src : List ℕ) : Http Converted := do
  let needed ← unescapeCount src (scanFuel src) 0 0
  convert needed out prepare (unescapeWrite src (scanFuel src) 0 0)

end OrbitConsole.Network
