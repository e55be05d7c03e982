import OrbitConsole.Core.Memory.Partition

/-!
# The bytes behind direct memory

`Free` unmaps the virtual bytes behind which the bytes of its range lie, and
releases bytes from the start of its range on: `directBacked` and `nonFreeFrom`
are these sets. `firstBytes` cuts the second at the number of bytes released.
-/

namespace OrbitConsole.Memory

variable {L : Layout} {s : MemoryManager} {physAddr size : ℕ}

theorem firstBytes_subset {S : Set ℕ} {n : ℕ} : firstBytes S n ⊆ S := fun _ hp => hp.1

/-! ### The virtual bytes `Free` unmaps -/

/-- The virtual bytes of Direct areas behind which the bytes of `R` lie. -/
def directBacked (m : VMAMap) (R : Set ℕ) : Set ℕ :=
  {x | ∃ c p t, cells m x = some c ∧ c.type = .direct ∧ c.backing = some (p, t) ∧ p ∈ R}

theorem mem_directBacked {m : VMAMap} {U R : Set ℕ} (V : VmaMapOk m U) {x : ℕ} :
    x ∈ directBacked m R ↔ ∃ k v i a, m.get? k = some v ∧ v.type = .direct ∧
      v.physAreas.get? i = some a ∧ k + i ≤ x ∧ x < k + i + a.size ∧
      a.base + (x - (k + i)) ∈ R := by
  constructor
  · rintro ⟨c, p, t, hc, htype, hback, hp⟩
    obtain ⟨k, v, hk, hle, hlt, rfl⟩ := V.tiles.view_eq_some_iff.1 hc
    obtain ⟨⟨q, l⟩, hbytes, heq⟩ := Option.map_eq_some_iff.1 hback
    have P := (V.area hk).backed (by
      simp only [VirtualMemoryArea.cell] at htype
      simp [hasPhysicalBacking, htype])
    obtain ⟨i, a, hi, hile, hilt, hbyte⟩ := P.tiles.view_eq_some_iff.1 hbytes
    cases hbyte
    cases heq
    refine ⟨k, v, i, a, hk, htype, hi, by omega, by omega, ?_⟩
    rwa [Nat.sub_add_eq]
  · rintro ⟨k, v, i, a, hk, htype, hi, hle, hlt, hp⟩
    have P := (V.area hk).backed (by simp [hasPhysicalBacking, htype])
    have hend := P.end_le hi
    refine ⟨v.cell (x - k), _, a.memoryType, V.cells_eq hk (by omega) (by omega), htype, ?_, hp⟩
    rw [VirtualMemoryArea.cell, P.bytes_eq hi (by omega) (by omega), Option.map_some,
      Nat.sub_add_eq]
    rfl

theorem directBacked_subset_remove {m : VMAMap} {U : Set ℕ} (V : VmaMapOk m U)
    (hbound : physAddr + size < 18446744073709551616) :
    directBacked m (Set.Ico physAddr (physAddr + size)) ⊆
      rangeSet (collectRemoveList m physAddr size) := by
  intro x hx
  obtain ⟨k, v, i, a, hk, htype, hi, hle, hlt, hp, hp'⟩ := (mem_directBacked V).1 hx
  refine ⟨_, (mem_collectRemoveList V (by omega)).2
    ⟨k, v, i, a, hk, htype, hi, ?_, by omega, rfl⟩, ?_, ?_⟩
  · rw [add64_eq hbound]
    omega
  · simp only [overlapStart]
    omega
  · simp only [overlapStart]
    omega

/-! ### The bytes `Free` releases -/

/-- The bytes from the start of the range on that are not free. -/
def nonFreeFrom (m : PhysMap) (physAddr : ℕ) : Set ℕ :=
  {p | physAddr ≤ p ∧ ∃ l, labels m p = some l ∧ l.dmaType ≠ .free}

theorem WellFormed.directSize_le (W : WellFormed L s) :
    L.directSize ≤ 9223372036854775808 := by
  by_contra hlarge
  obtain ⟨k, a, hk, -, hlt⟩ := (W.dmem.tiles.mem_iff 9223372036854775808).1
    (show 9223372036854775808 < L.directSize by omega)
  have := W.dmem.end_le hk
  omega

end OrbitConsole.Memory
