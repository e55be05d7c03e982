import Mathlib.Logic.Function.Basic
import OrbitConsole.Library.Runs

/-!
# Bit arrays

`BitArray<N>` with its words, of which there are `wordCount`; what the function
has behind them is never part of the array. `avx` tells the two builds apart:
with AVX2 the loops over words begin with a loop over groups of four.
-/

namespace OrbitConsole.Common

abbrev BitArray := ℕ → BitVec 64

namespace BitArray

/-! ### Words -/

def countrZero (word : BitVec 64) : ℕ := Runs.scan word.getLsbD true 64 0

def countrOne (word : BitVec 64) : ℕ := Runs.scan word.getLsbD false 64 0

def countlZero (word : BitVec 64) : ℕ := 64 - Runs.findLast word.getLsbD true 64

def countlOne (word : BitVec 64) : ℕ := 64 - Runs.findLast word.getLsbD false 64

def lowBits (n : ℕ) : BitVec 64 := ((1 : BitVec 64) <<< n) - 1

def startMask (startBit : ℕ) : BitVec 64 := ~~~lowBits startBit

def endMask (endBit : ℕ) : BitVec 64 :=
  if endBit = 63 then BitVec.allOnes 64 else lowBits (endBit + 1)

/-! ### Loops over words -/

def storeWords (src : ℕ → BitVec 64) (last : ℕ) : ℕ → ℕ → BitArray → BitArray
  | 0, _, data => data
  | n + 1, i, data =>
      if i < last then storeWords src last n (i + 1) (Function.update data i (src i)) else data

/-- The loops that store four words at once, with where they end. -/
def storeVectors (src : ℕ → BitVec 64) (last : ℕ) : ℕ → ℕ → BitArray → ℕ × BitArray
  | 0, i, data => (i, data)
  | n + 1, i, data =>
      if i + 4 ≤ last then
        storeVectors src last n (i + 4) fun w => if i ≤ w ∧ w < i + 4 then src w else data w
      else (i, data)

def storeBetween (avx : Bool) (src : ℕ → BitVec 64) (i last : ℕ) (data : BitArray) : BitArray :=
  let (i, data) := if avx then storeVectors src last last i data else (i, data)
  storeWords src last last i data

/-! ### Ranges -/

/-- The constructor that copies a range. -/
def copyRange (avx : Bool) (wordCount : ℕ) (other : BitArray) (start stop : ℕ) : BitArray :=
  if stop ≤ start ∨ 64 * wordCount < stop then fun _ => 0
  else
    let firstWord := start / 64
    let lastWord := (stop - 1) / 64
    let startMask := startMask (start % 64)
    let endMask := endMask ((stop - 1) % 64)
    if firstWord = lastWord then
      Function.update (fun _ => 0) firstWord (other firstWord &&& (startMask &&& endMask))
    else
      let data := Function.update (fun _ => 0) firstWord (other firstWord &&& startMask)
      let data := storeBetween avx other (firstWord + 1) lastWord data
      Function.update data lastWord (other lastWord &&& endMask)

def setRange (avx : Bool) (wordCount : ℕ) (data : BitArray) (start stop : ℕ) : BitArray :=
  if stop ≤ start ∨ 64 * wordCount < stop then data
  else
    let firstWord := start / 64
    let lastWord := (stop - 1) / 64
    let startMask := startMask (start % 64)
    let endMask := endMask ((stop - 1) % 64)
    if firstWord = lastWord then
      Function.update data firstWord (data firstWord ||| (startMask &&& endMask))
    else
      let data := Function.update data firstWord (data firstWord ||| startMask)
      let data := storeBetween avx (fun _ => BitVec.allOnes 64) (firstWord + 1) lastWord data
      Function.update data lastWord (data lastWord ||| endMask)

def unsetRange (avx : Bool) (wordCount : ℕ) (data : BitArray) (start stop : ℕ) : BitArray :=
  if stop ≤ start ∨ 64 * wordCount < stop then data
  else
    let firstWord := start / 64
    let lastWord := (stop - 1) / 64
    let startMask := lowBits (start % 64)
    let endMask := if (stop - 1) % 64 = 63 then 0 else ~~~lowBits ((stop - 1) % 64 + 1)
    if firstWord = lastWord then
      Function.update data firstWord (data firstWord &&& (startMask ||| endMask))
    else
      let data := Function.update data firstWord (data firstWord &&& startMask)
      let data := storeBetween avx (fun _ => 0) (firstWord + 1) lastWord data
      Function.update data lastWord (data lastWord &&& endMask)

/-! ### Searches -/

/-- The loops that go up over groups of four words as long as each has a property. -/
def skipUp (p : ℕ → Bool) (wordCount : ℕ) : ℕ → ℕ → ℕ
  | 0, word => word
  | n + 1, word =>
      if word + 4 ≤ wordCount ∧ (List.range 4).all fun k => p (word + k) then
        skipUp p wordCount n (word + 4)
      else word

/-- The loops that go down over groups of four words as long as each has a property. -/
def skipDown (p : ℕ → Bool) : ℕ → ℕ → ℕ
  | 0, word => word
  | n + 1, word =>
      if 4 ≤ word ∧ (List.range 4).all fun k => p (word - 4 + k) then skipDown p n (word - 4)
      else word

section

variable (avx : Bool) (wordCount : ℕ) (data : BitArray)

def endBitFrom : ℕ → ℕ → ℕ
  | 0, _ => 64 * wordCount
  | n + 1, word =>
      if word < wordCount then
        if data word ≠ BitVec.allOnes 64 then word * 64 + countrOne (data word)
        else endBitFrom n (word + 1)
      else 64 * wordCount

def findEndBit (word : ℕ) : ℕ :=
  let word := if avx then skipUp (fun w => data w = BitVec.allOnes 64) wordCount wordCount word
    else word
  endBitFrom wordCount data (wordCount + 1) word

def wordBitsUp (index : ℕ) (word : BitVec 64) : ℕ × ℕ :=
  let emptyBits := countrZero word
  let onesCount := countrOne (word >>> emptyBits)
  let startBit := index * 64 + emptyBits
  if onesCount + emptyBits < 64 then (startBit, startBit + onesCount)
  else (startBit, findEndBit avx wordCount data (index + 1))

/-- The scalar loop of `FirstRangeFrom`. -/
def firstWordFrom : ℕ → ℕ → ℕ × ℕ
  | 0, _ => (64 * wordCount, 64 * wordCount)
  | n + 1, word =>
      if word < wordCount then
        if data word ≠ 0 then wordBitsUp avx wordCount data word (data word)
        else firstWordFrom n (word + 1)
      else (64 * wordCount, 64 * wordCount)

def firstRangeFrom (start : ℕ) : ℕ × ℕ :=
  if 64 * wordCount ≤ start then (64 * wordCount, 64 * wordCount)
  else
    let startWord := start / 64
    let maskedFirst := data startWord &&& startMask (start % 64)
    if maskedFirst ≠ 0 then wordBitsUp avx wordCount data startWord maskedFirst
    else
      let word := startWord + 1
      let word := if avx then skipUp (fun w => data w = 0) wordCount wordCount word else word
      firstWordFrom avx wordCount data (wordCount + 1) word

def startBitFrom : ℕ → ℕ
  | 0 => 0
  | word + 1 =>
      if data word ≠ BitVec.allOnes 64 then (word + 1) * 64 - countlOne (data word)
      else startBitFrom word

/-- `find_start_bit`. The loop over groups goes on over words that are zero. -/
def findStartBit (word : ℕ) : ℕ :=
  startBitFrom data (if avx then skipDown (fun w => data w = 0) word word else word)

def wordBitsDown (index : ℕ) (word : BitVec 64) : ℕ × ℕ :=
  let emptyBits := countlZero word
  let onesCount := countlOne (word <<< emptyBits)
  let endBit := index * 64 - emptyBits
  if emptyBits + onesCount < 64 then (endBit - onesCount, endBit)
  else (findStartBit avx data (index - 1), endBit)

/-- The scalar loop of `LastRangeFrom`. -/
def lastWordFrom : ℕ → ℕ × ℕ
  | 0 => (0, 0)
  | word + 1 =>
      if data word ≠ 0 then wordBitsDown avx data (word + 1) (data word) else lastWordFrom word

def lastRangeFrom (stop : ℕ) : ℕ × ℕ :=
  if stop = 0 then (0, 0)
  else
    let stop := if 64 * wordCount < stop then 64 * wordCount else stop
    let endWord := (stop - 1) / 64 + 1
    let endBit := (stop - 1) % 64
    let maskedLast := data (endWord - 1)
    let maskedLast := if endBit < 63 then maskedLast &&& lowBits (endBit + 1) else maskedLast
    if maskedLast ≠ 0 then wordBitsDown avx data endWord maskedLast
    else
      let word := endWord - 1
      lastWordFrom avx data (if avx then skipDown (fun w => data w = 0) word word else word)

/-- Iterating with a range of `begin` on until it is that of `end`; `none` when it does not end
within a number of steps. -/
def iterate : ℕ → ℕ × ℕ → Option (List (ℕ × ℕ))
  | 0, _ => none
  | n + 1, range =>
      if range = firstRangeFrom avx wordCount data (64 * wordCount) then some []
      else (iterate n (firstRangeFrom avx wordCount data range.2)).map (range :: ·)

end

end BitArray

end OrbitConsole.Common
