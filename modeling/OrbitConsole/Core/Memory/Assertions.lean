import OrbitConsole.Core.Memory.Pool

/-!
# Where assertions can fire

The helpers behind the calls assert with a handful of messages. A call that
avoids an assertion of its own therefore only has to show that this one holds
where it stands.
-/

namespace OrbitConsole.Memory

open Exec

def helperMessages : List String :=
  ["Assertion Failed!", "Physical address not in map",
    "Adding an allocation to already allocated region",
    "Adding a mapping to already mapped region", "Mapping cannot fit inside free region",
    "Failed to unmap physical memory", "Attempted to access invalid address",
    "Input address is out of bounds", "VMA to map is not free"]

variable {msg : String} {α : Type} {s : MemoryManager}

theorem assertMsg_helper {cond : Prop} [Decidable cond] {msg' : String}
    (h : msg ∉ helperMessages) (h' : msg' ∈ helperMessages) :
    Avoids msg (assertMsg cond msg') :=
  assertMsg_avoids (.inr fun heq => h (heq ▸ h'))

/-! ### Areas -/

theorem findArea_avoids (m : OrderedMap ℕ α) (target : ℕ) : Avoids msg (findArea m target) := by
  unfold findArea
  split
  · exact avoids_pure _
  · exact avoids_undefined

theorem deref_avoids (m : OrderedMap ℕ α) (handle : ℕ) : Avoids msg (deref m handle) := by
  unfold deref
  split
  · exact avoids_pure _
  · exact avoids_undefined

section Helpers

variable (h : msg ∉ helperMessages)
include h

theorem splitPhysArea_avoids (m : PhysMap) (handle off : ℕ) :
    Avoids msg (splitPhysArea m handle off) := by
  refine .bind (deref_avoids _ _) fun area _ => ?_
  exact .bind (assertMsg_helper h (by decide)) fun _ _ => avoids_pure _

theorem carvePhysArea_avoids (m : PhysMap) (addr size : ℕ) :
    Avoids msg (carvePhysArea m addr size) := by
  refine .bind (findArea_avoids _ _) fun e _ => ?_
  refine .bind (assertMsg_helper h (by decide)) fun _ _ => ?_
  refine .bind (assertMsg_helper h (by decide)) fun _ _ => ?_
  refine .bind (assertMsg_helper h (by decide)) fun _ _ => .bind ?_ fun m' _ => ?_
  · split
    · exact .map (splitPhysArea_avoids h _ _ _)
    · exact avoids_pure _
  · split
    · exact splitPhysArea_avoids h _ _ _
    · exact avoids_pure _

theorem relabelPhysArea_avoids (m : PhysMap) (addr size : ℕ)
    (f : PhysicalMemoryArea → PhysicalMemoryArea) :
    Avoids msg (relabelPhysArea m addr size f) := by
  refine .bind (carvePhysArea_avoids h _ _ _) fun r _ => ?_
  refine .bind (deref_avoids _ _) fun area _ => ?_
  exact .bind (.bind (deref_avoids _ _) fun _ _ => avoids_pure _) fun _ _ => avoids_pure _

theorem splitVMA_avoids (m : VMAMap) (handle off : ℕ) : Avoids msg (splitVMA m handle off) := by
  refine .bind (deref_avoids _ _) fun vma _ => ?_
  exact .bind (assertMsg_helper h (by decide)) fun _ _ => avoids_pure _

theorem carveVMA_avoids (m : VMAMap) (addr size : ℕ) : Avoids msg (carveVMA m addr size) := by
  refine .bind (findArea_avoids _ _) fun e _ => ?_
  refine .bind (assertMsg_helper h (by decide)) fun _ _ => ?_
  dsimp only
  split
  · exact avoids_pure _
  · refine .bind (assertMsg_helper h (by decide)) fun _ _ => .bind ?_ fun m' _ => ?_
    · split
      · exact .map (splitVMA_avoids h _ _ _)
      · exact avoids_pure _
    · split
      · exact splitVMA_avoids h _ _ _
      · exact avoids_pure _

end Helpers

theorem canMergeWith_avoids (v w : VirtualMemoryArea) : Avoids msg (v.canMergeWith w) := by
  have hcontinues : Avoids msg (v.backingContinues w) := by
    unfold VirtualMemoryArea.backingContinues
    split
    · split
      · exact avoids_pure _
      · exact avoids_undefined
    · exact avoids_pure _
  unfold VirtualMemoryArea.canMergeWith
  split
  · exact avoids_pure _
  split
  · exact avoids_pure _
  refine .bind hcontinues fun continues _ => ?_
  split
  · exact avoids_pure _
  split
  · exact avoids_pure _
  split <;> exact avoids_pure _

theorem mergeNextVMA_avoids (m : VMAMap) (handle : ℕ) (v : VirtualMemoryArea) :
    Avoids msg (mergeNextVMA m handle v) := by
  unfold mergeNextVMA
  split
  · refine .bind (canMergeWith_avoids _ _) fun merge _ => ?_
    split <;> exact avoids_pure _
  · exact avoids_pure _

theorem mergePrevVMA_avoids (m : VMAMap) (handle : ℕ) (v : VirtualMemoryArea) :
    Avoids msg (mergePrevVMA m handle v) := by
  unfold mergePrevVMA
  split
  · refine .bind (canMergeWith_avoids _ _) fun merge _ => ?_
    split <;> exact avoids_pure _
  · exact avoids_pure _

theorem mergeAdjacentVMA_avoids (m : VMAMap) (handle : ℕ) :
    Avoids msg (mergeAdjacentVMA m handle) := by
  refine .bind (deref_avoids _ _) fun vma _ => ?_
  exact .bind (mergeNextVMA_avoids _ _ _) fun r _ => mergePrevVMA_avoids _ _ _

/-! ### Mapping -/

section Mapping

variable (h : msg ∉ helperMessages)
include h

theorem releasePhys_avoids (type : VMAType) (physAddr size : ℕ) :
    Avoids msg (releasePhys type s physAddr size) := by
  unfold releasePhys
  split
  · exact .bind (relabelPhysArea_avoids h _ _ _ _) fun _ _ => avoids_pure _
  · exact .bind (relabelPhysArea_avoids h _ _ _ _) fun _ _ => avoids_pure _
  · exact avoids_pure _

theorem walkPhysAreas_avoids (type : VMAType) (start : ℕ) (l : List (ℕ × PhysicalMemoryArea))
    (n : ℕ) : Avoids msg (walkPhysAreas (releasePhys type) start l n s) := by
  induction l generalizing n s with
  | nil => exact avoids_pure _
  | cons e l ih =>
      unfold walkPhysAreas
      split
      · exact avoids_pure _
      · exact .bind (releasePhys_avoids h _ _ _) fun s' _ => ih _

theorem unmapBytesFromEntry_avoids (addr : ℕ) (v : VirtualMemoryArea) (size : ℕ) :
    Avoids msg (s.unmapBytesFromEntry addr v size) := by
  unfold MemoryManager.unmapBytesFromEntry
  dsimp only
  split
  · exact avoids_pure _
  refine .bind ?_ fun s' _ => ?_
  · unfold MemoryManager.releaseBytes
    split
    · refine .bind (findArea_avoids _ _) fun e _ => ?_
      refine .bind (walkPhysAreas_avoids h _ _ _ _) fun r _ => ?_
      exact .bind (assertMsg_helper h (by decide)) fun _ _ => avoids_pure _
    · exact avoids_pure _
  · refine .bind (carveVMA_avoids h _ _ _) fun r _ => ?_
    exact .bind (mergeAdjacentVMA_avoids _ _) fun _ _ => avoids_pure _

theorem createAreaUnmap_avoids (rounds addr size : ℕ) (v : VirtualMemoryArea) :
    Avoids msg (MemoryManager.createAreaUnmap rounds addr size v s) := by
  induction rounds generalizing addr size v s with
  | zero => exact avoids_diverges
  | succ rounds ih =>
      unfold MemoryManager.createAreaUnmap
      split
      · exact avoids_pure _
      · refine .bind (unmapBytesFromEntry_avoids h _ _ _) fun r _ => ?_
        exact .bind (findArea_avoids _ _) fun e _ => ih _ _ _

theorem createArea_avoids (addr size : ℕ) (prot : MemoryProt) (flags : MemoryMapFlags)
    (type : VMAType) (name : String) :
    Avoids msg (s.createArea addr size prot flags type name) := by
  refine .bind (findArea_avoids _ _) fun e _ => .bind ?_ fun s' _ => ?_
  · split
    · exact createAreaUnmap_avoids h _ _ _ _
    · exact avoids_pure _
  · refine .bind (findArea_avoids _ _) fun e _ => ?_
    refine .bind (assertMsg_helper h (by decide)) fun _ _ => ?_
    exact .bind (carveVMA_avoids h _ _ _) fun _ _ => avoids_pure _

theorem searchFree_avoids (addr size alignment : ℕ) :
    Avoids msg (s.searchFree addr size alignment) := by
  refine .bind (assertMsg_helper h (by decide)) fun _ _ => ?_
  dsimp only
  split
  · exact avoids_undefined
  · refine .bind (findArea_avoids _ _) fun e _ => ?_
    split <;> exact avoids_pure _

theorem placeMapping_avoids (addr size : ℕ) (flags : MemoryMapFlags) (alignment : ℕ) :
    Avoids msg (s.placeMapping addr size flags alignment) := by
  unfold MemoryManager.placeMapping
  split
  · refine .bind (assertMsg_helper h (by decide)) fun _ _ => ?_
    refine .bind (findArea_avoids _ _) fun e _ => ?_
    dsimp only
    split <;> exact avoids_pure _
  split
  · refine .bind (searchFree_avoids h _ _ _) fun r _ => ?_
    split <;> exact avoids_pure _
  · exact avoids_pure _

end Mapping

theorem validateDmemRange_avoids (physAddr size : ℕ) (validateDmem : Bool) :
    Avoids msg (s.validateDmemRange physAddr size validateDmem) := by
  unfold MemoryManager.validateDmemRange
  split
  · exact .bind (findArea_avoids _ _) fun e _ => avoids_pure _
  · exact avoids_pure _

end OrbitConsole.Memory
