import OrbitConsole.Library.Transition
import OrbitConsole.VideoCore.TextureTracking

/-!
# What images are uploaded from

Guest memory, the writes of the guest with the faults they cause, and `UpdateImage` of
single-sampled images the GPU does not write. The hash function is a parameter. An
upload takes the whole guest range of the image.
-/

namespace OrbitConsole.VideoCore

open WatchCall

/-- The fields of `ImageInfo` that say how much `RefreshImage` hashes. -/
structure ImageExtent where
  width : ℕ
  height : ℕ
  isBlock : Bool
  numBits : ℕ
  deriving DecidableEq

/-- The bytes of the first 64 pixels. -/
def ImageExtent.hashedSize (e : ImageExtent) : ℕ :=
  let w := min e.width 8
  let h := min e.height 8
  let sW := if e.isBlock then divCeil w 4 else w
  let sH := if e.isBlock then divCeil h 4 else h
  sW * sH * (e.numBits / 8)

def Image.Contains (image : Image) (b : ℕ) : Prop :=
  image.guestAddress ≤ b ∧ b < image.guestAddress + image.guestSize

instance (image : Image) : DecidablePred image.Contains :=
  fun _ => inferInstanceAs (Decidable (_ ∧ _))

structure TextureMemory where
  cache : TextureCache := {}
  memory : ℕ → ℕ := fun _ => 0
  extents : ℕ → ImageExtent := fun _ => ⟨0, 0, false, 0⟩
  uploaded : ℕ → ℕ → Option ℕ := fun _ _ => none

namespace TextureMemory

def contents (xxh3 : List ℕ → ℕ) (s : TextureMemory) (addr size : ℕ) : ℕ :=
  xxh3 ((List.range size).map fun i => s.memory (addr + i))

def registerImage (imageId guestAddress guestSize : ℕ) (extent : ImageExtent)
    (s : TextureMemory) : Except String TextureMemory := do
  let cache ← s.cache.registerImage imageId guestAddress guestSize
  .ok { s with
    cache := cache
    extents := fun x => if x = imageId then extent else s.extents x
    uploaded := fun x => if x = imageId then fun _ => none else s.uploaded x }

/-- A page that the write touches has a write watcher. -/
def Faults (s : TextureMemory) (addr size : ℕ) : Prop :=
  ∃ k < size, 0 < outstanding s.cache.calls false ((addr + k) / pageSize)

instance (s : TextureMemory) (addr size : ℕ) : Decidable (s.Faults addr size) :=
  inferInstanceAs (Decidable (∃ k < size, _))

def store (s : TextureMemory) (addr : ℕ) (bytes : List ℕ) : ℕ → ℕ :=
  fun b => if addr ≤ b then bytes.getD (b - addr) (s.memory b) else s.memory b

def guestWrite (xxh3 : List ℕ → ℕ) (addr : ℕ) (bytes : List ℕ) (s : TextureMemory) :
    Except String TextureMemory :=
  if s.Faults addr bytes.length then do
    let cache ← s.cache.invalidateMemory (s.contents xxh3) addr bytes.length
    .ok { s with cache := cache, memory := s.store addr bytes }
  else .ok { s with memory := s.store addr bytes }

def upload (s : TextureMemory) (imageId : ℕ) (image : Image) : TextureMemory :=
  { s with
    cache := s.cache.setImage imageId { image with cpuDirty := false, maybeCpuDirty := false }
    uploaded := fun x =>
      if x = imageId then fun b => if image.Contains b then some (s.memory b) else none
      else s.uploaded x }

def refreshImage (xxh3 : List ℕ → ℕ) (imageId : ℕ) (s : TextureMemory) :
    Except String TextureMemory := do
  let image ← s.cache.image imageId
  if image.cpuDirty = false ∧ image.maybeCpuDirty = false then .ok s
  else if image.maybeCpuDirty = true ∧ image.cpuDirty = false then
    let hash := s.contents xxh3 image.guestAddress (s.extents imageId).hashedSize
    if image.hash = hash then
      .ok { s with cache := s.cache.setImage imageId { image with maybeCpuDirty := false } }
    else .ok (s.upload imageId { image with hash := hash })
  else .ok (s.upload imageId image)

def updateImage (xxh3 : List ℕ → ℕ) (imageId : ℕ) (s : TextureMemory) :
    Except String TextureMemory := do
  let cache ← s.cache.trackImage imageId
  { s with cache := cache }.refreshImage xxh3 imageId

inductive Action where
  | registerImage (imageId guestAddress guestSize : ℕ) (extent : ImageExtent)
  | guestWrite (addr : ℕ) (bytes : List ℕ)
  | updateImage (imageId : ℕ)

/-- The state after a step that meets no assertion. -/
def step (xxh3 : List ℕ → ℕ) (s : TextureMemory) : Action → Option TextureMemory
  | .registerImage imageId addr size extent =>
      (s.registerImage imageId addr size extent).toOption
  | .guestWrite addr bytes => (s.guestWrite xxh3 addr bytes).toOption
  | .updateImage imageId => (s.updateImage xxh3 imageId).toOption

end TextureMemory

end OrbitConsole.VideoCore
