import OrbitConsole.Common.Machine
import OrbitConsole.Library.Weights
import OrbitConsole.VideoCore.WatchCalls

/-!
# Watching the pages of images

The part of `TextureCache` that asks the page manager to watch the pages of its
images: registration, `TrackImage` and its parts, `UntrackImage` and its parts,
and `InvalidateMemory`. The calls of `UpdatePageWatchers<track>` are kept in the
order they are made. A failed assertion is an error with its message.
-/

namespace OrbitConsole.VideoCore

def getPageAddr (addr : ℕ) : ℕ := alignDown addr pageSize

def getNextPageAddr (addr : ℕ) : ℕ := alignUp (add64 addr 1) pageSize

structure Image where
  guestAddress : ℕ
  guestSize : ℕ
  registered : Bool := false
  cpuDirty : Bool := true
  maybeCpuDirty : Bool := true
  hash : ℕ := 0
  trackAddr : ℕ := 0
  trackAddrEnd : ℕ := 0
  deriving DecidableEq

namespace Image

def imageEnd (image : Image) : ℕ := add64 image.guestAddress image.guestSize

def isTracked (image : Image) : Bool := image.trackAddr ≠ 0 ∧ image.trackAddrEnd ≠ 0

def overlaps (image : Image) (overlapCpuAddr overlapSize : ℕ) : Bool :=
  image.guestAddress < add64 overlapCpuAddr overlapSize ∧ overlapCpuAddr < image.imageEnd

end Image

structure TextureCache where
  slotImages : OrderedMap ℕ Image := OrderedMap.empty
  pageTable : ℕ → List ℕ := fun _ => []
  calls : List WatchCall := []

namespace TextureCache

def cachePageBits : ℕ := 20

def pagesOf (addr size : ℕ) : List ℕ :=
  let page := addr >>> cachePageBits
  let pageEnd := sub64 (add64 addr size) 1 >>> cachePageBits
  List.range' page (pageEnd + 1 - page)

def image (s : TextureCache) (imageId : ℕ) : Except String Image :=
  match s.slotImages.get? imageId with
  | some image => .ok image
  | none => .error "invalid slot"

def setImage (s : TextureCache) (imageId : ℕ) (image : Image) : TextureCache :=
  { s with slotImages := s.slotImages.insert imageId image }

def updatePageWatchers (track : Bool) (addr size : ℕ) (s : TextureCache) : TextureCache :=
  { s with calls := s.calls ++ [.pages track addr size] }

def check (cond : Bool) (msg : String) : Except String Unit :=
  if cond then .ok () else .error msg

def registerImage (imageId guestAddress guestSize : ℕ) (s : TextureCache) :
    Except String TextureCache :=
  if (s.slotImages.get? imageId).isSome then .error "slot is taken"
  else
    let s := s.setImage imageId
      { guestAddress := guestAddress, guestSize := guestSize, registered := true }
    .ok { s with
      pageTable := fun page =>
        if page ∈ pagesOf guestAddress guestSize then s.pageTable page ++ [imageId]
        else s.pageTable page }

def trackImageHead (imageId : ℕ) (s : TextureCache) : Except String TextureCache := do
  let image ← s.image imageId
  if !image.registered then .ok s
  else if image.guestAddress = image.trackAddr then .ok s
  else do
    check (image.trackAddr ≠ 0 ∧ image.guestAddress < image.trackAddr)
      "image.track_addr != 0 && image_begin < image.track_addr"
    let size := sub64 image.trackAddr image.guestAddress
    let s := s.setImage imageId { image with trackAddr := image.guestAddress }
    .ok (s.updatePageWatchers true image.guestAddress size)

def trackImageTail (imageId : ℕ) (s : TextureCache) : Except String TextureCache := do
  let image ← s.image imageId
  if !image.registered then .ok s
  else if image.imageEnd = image.trackAddrEnd then .ok s
  else do
    check (image.trackAddrEnd ≠ 0 ∧ image.trackAddrEnd < image.imageEnd)
      "image.track_addr_end != 0 && image.track_addr_end < image_end"
    let addr := image.trackAddrEnd
    let size := sub64 image.imageEnd image.trackAddrEnd
    let s := s.setImage imageId { image with trackAddrEnd := image.imageEnd }
    .ok (s.updatePageWatchers true addr size)

def trackImage (imageId : ℕ) (s : TextureCache) : Except String TextureCache := do
  let image ← s.image imageId
  if !image.registered then .ok s
  else if image.guestAddress = image.trackAddr ∧ image.imageEnd = image.trackAddrEnd then .ok s
  else if !image.isTracked then
    -- Re-track the whole image
    let s := s.setImage imageId
      { image with trackAddr := image.guestAddress, trackAddrEnd := image.imageEnd }
    .ok (s.updatePageWatchers true image.guestAddress image.guestSize)
  else do
    let s ← (if image.guestAddress < image.trackAddr then s.trackImageHead imageId else .ok s)
    -- the end is compared after the head was tracked, which does not change it
    if image.trackAddrEnd < image.imageEnd then s.trackImageTail imageId else .ok s

def untrackImage (imageId : ℕ) (s : TextureCache) : Except String TextureCache := do
  let image ← s.image imageId
  if !image.isTracked then .ok s
  else
    let addr := image.trackAddr
    let size := sub64 image.trackAddrEnd image.trackAddr
    let s := s.setImage imageId { image with trackAddr := 0, trackAddrEnd := 0 }
    .ok (if size ≠ 0 then s.updatePageWatchers false addr size else s)

/-- `MarkAsMaybeDirty`; `contents` hashes the guest memory of a range as it is now. -/
def markAsMaybeDirty (contents : ℕ → ℕ → ℕ) (imageId : ℕ) (s : TextureCache) :
    Except String TextureCache := do
  let image ← s.image imageId
  -- Initialize hash
  let hash := if image.hash = 0 then contents image.guestAddress image.guestSize else image.hash
  let s := s.setImage imageId { image with hash := hash, maybeCpuDirty := true }
  s.untrackImage imageId

def untrackImageHead (contents : ℕ → ℕ → ℕ) (imageId : ℕ) (s : TextureCache) :
    Except String TextureCache := do
  let image ← s.image imageId
  let imageBegin := image.guestAddress
  if !image.isTracked ∨ imageBegin < image.trackAddr then .ok s
  else do
    let addr := getNextPageAddr imageBegin
    let size := sub64 addr imageBegin
    let s := s.setImage imageId { image with trackAddr := addr }
    -- This image spans only 2 pages and both are modified,
    -- but the image itself was not directly affected.
    let s ← (if addr = image.trackAddrEnd then s.markAsMaybeDirty contents imageId else .ok s)
    .ok (s.updatePageWatchers false imageBegin size)

def untrackImageTail (contents : ℕ → ℕ → ℕ) (imageId : ℕ) (s : TextureCache) :
    Except String TextureCache := do
  let image ← s.image imageId
  if !image.isTracked ∨ image.trackAddrEnd < image.imageEnd then .ok s
  else do
    check (image.trackAddrEnd ≠ 0) "image.track_addr_end != 0"
    let addr := getPageAddr image.imageEnd
    let size := sub64 image.imageEnd addr
    let s := s.setImage imageId { image with trackAddrEnd := addr }
    let s ← (if image.trackAddr = addr then s.markAsMaybeDirty contents imageId else .ok s)
    .ok (s.updatePageWatchers false addr size)

def freeImage (imageId : ℕ) (s : TextureCache) : Except String TextureCache := do
  let s ← s.untrackImage imageId
  let image ← s.image imageId
  check image.registered "Trying to unregister an already unregistered image"
  let pages := pagesOf image.guestAddress image.guestSize
  check (pages.all fun page => (s.pageTable page).contains imageId)
    "Unregistering unregistered image in page"
  check (!image.isTracked) "Image was not untracked"
  .ok { s with
    slotImages := s.slotImages.erase imageId
    pageTable := fun page =>
      if page ∈ pages then (s.pageTable page).erase imageId else s.pageTable page }

/-- The loops of `ForEachImageInRegion`; `picked` are the images with the flag `Picked`. -/
def forEachImage (func : ℕ → TextureCache → Except String TextureCache) (cpuAddr size : ℕ) :
    List ℕ → List ℕ → TextureCache → Except String TextureCache
  | [], _, s => .ok s
  | imageId :: rest, picked, s => do
      let image ← s.image imageId
      if imageId ∈ picked ∨ !image.overlaps cpuAddr size then
        forEachImage func cpuAddr size rest picked s
      else do
        let s ← func imageId s
        forEachImage func cpuAddr size rest (imageId :: picked) s

def invalidateImage (contents : ℕ → ℕ → ℕ) (addr size pagesStart pagesEnd : ℕ) (imageId : ℕ)
    (s : TextureCache) : Except String TextureCache := do
  let image ← s.image imageId
  if image.overlaps addr size then
    -- Modified region overlaps image, so the image was definitely accessed by this fault.
    (s.setImage imageId { image with cpuDirty := true }).untrackImage imageId
  else if pagesEnd < image.imageEnd then
    -- Remove tracking from this page only.
    s.untrackImageHead contents imageId
  else if image.guestAddress < pagesStart then
    s.untrackImageTail contents imageId
  else
    -- Image begins and ends on this page so it can not receive any more invalidations.
    s.markAsMaybeDirty contents imageId

def invalidateMemory (contents : ℕ → ℕ → ℕ) (addr size : ℕ) (s : TextureCache) :
    Except String TextureCache :=
  let pagesStart := getPageAddr addr
  let pagesEnd := getNextPageAddr (sub64 (add64 addr size) 1)
  let pagesSize := sub64 pagesEnd pagesStart
  forEachImage (invalidateImage contents addr size pagesStart pagesEnd) pagesStart pagesSize
    ((pagesOf pagesStart pagesSize).flatMap s.pageTable) [] s

/-- The calls that change what is watched. -/
inductive Call where
  | registerImage (imageId : ℕ) (guestAddress : UInt64) (guestSize : UInt32)
  | freeImage (imageId : ℕ)
  | trackImage (imageId : ℕ)
  | trackImageHead (imageId : ℕ)
  | trackImageTail (imageId : ℕ)
  | untrackImage (imageId : ℕ)
  | untrackImageHead (contents : ℕ → ℕ → ℕ) (imageId : ℕ)
  | untrackImageTail (contents : ℕ → ℕ → ℕ) (imageId : ℕ)
  | invalidateMemory (contents : ℕ → ℕ → ℕ) (addr size : UInt64)

/-- The state after a call that meets no assertion. -/
def exec (s : TextureCache) : Call → Option TextureCache
  | .registerImage imageId addr size =>
      (s.registerImage imageId addr.toNat size.toNat).toOption
  | .freeImage imageId => (s.freeImage imageId).toOption
  | .trackImage imageId => (s.trackImage imageId).toOption
  | .trackImageHead imageId => (s.trackImageHead imageId).toOption
  | .trackImageTail imageId => (s.trackImageTail imageId).toOption
  | .untrackImage imageId => (s.untrackImage imageId).toOption
  | .untrackImageHead contents imageId => (s.untrackImageHead contents imageId).toOption
  | .untrackImageTail contents imageId => (s.untrackImageTail contents imageId).toOption
  | .invalidateMemory contents addr size =>
      (s.invalidateMemory contents addr.toNat size.toNat).toOption

end TextureCache

end OrbitConsole.VideoCore
