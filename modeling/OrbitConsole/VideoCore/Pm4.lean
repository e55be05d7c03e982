import Mathlib.Data.List.Basic
import Mathlib.Data.Nat.Notation
import OrbitConsole.Common.Machine

/-!
# PM4 packets

The fields of packet headers, as the command processor reads them off a dword.
-/

namespace OrbitConsole.VideoCore

namespace Pm4

def headerType (raw : ℕ) : ℕ := raw / 1073741824 % 4

def headerCount (raw : ℕ) : ℕ := raw / 65536 % 16384

def headerOpcode (raw : ℕ) : ℕ := raw / 256 % 256

def numWords (raw : ℕ) : ℕ := (headerCount raw + 1) % 16384

def packetLength (raw : ℕ) : ℕ := numWords raw + 1

theorem packetLength_pos (raw : ℕ) : 0 < packetLength raw := Nat.succ_pos _

theorem packetLength_le (raw : ℕ) : packetLength raw ≤ 16384 := by
  unfold packetLength numWords
  omega

end Pm4

end OrbitConsole.VideoCore
