import OrbitConsole.VideoCore.ImageInfo

/-!
# The lookup of images

`FindImage` of the texture cache with the resolving of overlaps. Of an image there is its
description, when it was last accessed and whether it is bound as a target; what the images
contain, and how they are copied, is left out.
-/

namespace OrbitConsole.VideoCore

inductive BindingType where
  | texture
  | storage
  | renderTarget
  | depthTarget
  | videoOut
  deriving DecidableEq

/-- A description with the properties that only the lookup reads. -/
structure CachedInfo extends ImageInfo where
  is_depth : Bool := false
  has_stencil : Bool := false

structure CachedImage where
  info : CachedInfo
  tick_accessed_last : ℕ := 0
  is_target : Bool := false

/-- `slot_images`, the registered images, and the images that have been freed. The slot of a
freed image is only used again by a later submission. -/
structure ImageCache where
  image : ℕ → CachedImage
  next : ℕ
  registered : ℕ → Bool
  freed : List ℕ := []

structure LookupEnv where
  compatible : ℕ → ℕ → Bool
  tick : ℕ

namespace CachedInfo

def blockDim (info : CachedInfo) : ℕ × ℕ :=
  if info.is_block then (info.pitch >>> 2, info.size.height >>> 2)
  else (info.pitch, info.size.height)

def blockSize (info : CachedInfo) : ℕ := ImageInfo.u32 (info.num_bits * info.num_samples)

end CachedInfo

def SubresourceExtent.less (a b : SubresourceExtent) : Prop :=
  a.levels < b.levels ∨ a.levels = b.levels ∧ a.layers < b.layers

instance (a b : SubresourceExtent) : Decidable (a.less b) :=
  inferInstanceAs (Decidable (_ ∨ _ ∧ _))

namespace ImageCache

def freeImage (c : ImageCache) (id : ℕ) : Exec ImageCache :=
  if c.registered id then
    .ok { c with registered := Function.update c.registered id false, freed := id :: c.freed }
  else .error (.assertion "Trying to unregister an already unregistered image")

def insert (c : ImageCache) (info : CachedInfo) : ImageCache :=
  { c with
    image := Function.update c.image c.next { info := info }
    next := c.next + 1
    registered := Function.update c.registered c.next true }

def expandImage (c : ImageCache) (info : CachedInfo) (image_id : ℕ) : Exec (ImageCache × ℕ) := do
  let freed ← (c.insert info).freeImage image_id
  return (freed, c.next)

def depthRecreate (requested cached : CachedInfo) (binding : BindingType) : Exec Bool :=
  let recreate := decide (cached.resources.less requested.resources)
  let aspects_match := decide (requested.has_stencil = cached.has_stencil ∧
    requested.num_bits = cached.num_bits)
  match binding with
  | .texture => .ok (recreate || (requested.is_depth && !cached.is_depth))
  | .storage => .ok (recreate || cached.is_depth)
  | .renderTarget =>
      if requested.is_depth then .error (.assertion "!requested_info.props.is_depth")
      else .ok (recreate || cached.is_depth)
  | .depthTarget => .ok (recreate || !cached.is_depth || (cached.is_depth && !aspects_match))
  | .videoOut => .ok recreate

def resolveDepthOverlap (c : ImageCache) (requested : CachedInfo) (binding : BindingType)
    (cache_id : ℕ) : Exec (ImageCache × Option ℕ) := do
  let cached := (c.image cache_id).info
  if cached.is_depth = false ∧ requested.is_depth = false then return (c, none)
  else if (← depthRecreate requested cached binding) = true then
    let resources :=
      if requested.resources.less cached.resources then cached.resources else requested.resources
    let new_info := { requested with resources := resources }
    let freed ← (c.insert new_info).freeImage cache_id
    return (freed, some c.next)
  else return (c, some cache_id)

structure Resolved where
  cache : ImageCache
  image_id : Option ℕ
  view_mip : ℤ := -1
  view_slice : ℤ := -1

/-- An image that has not been used lately goes. -/
def freeIf (c : ImageCache) (safe_to_delete : Bool) (id : ℕ) : Exec ImageCache :=
  if safe_to_delete then c.freeImage id else .ok c

def resolveEqual (env : LookupEnv) (c : ImageCache) (info : CachedInfo) (binding : BindingType)
    (cache_id : ℕ) (merged_id : Option ℕ) (safe_to_delete : Bool) : Exec Resolved := do
  let cached := (c.image cache_id).info
  if info.blockDim ≠ cached.blockDim ∨ info.blockSize ≠ cached.blockSize then
    let c ← c.freeIf safe_to_delete cache_id
    return { cache := c, image_id := merged_id }
  else do
    let (c, depth_id) ← c.resolveDepthOverlap info binding cache_id
    if depth_id ≠ none then return { cache := c, image_id := depth_id }
    else if info.is_block = true ∧ cached.is_block = false then do
      let (c, id) ← c.expandImage info cache_id
      return { cache := c, image_id := some id }
    else if info.guest_size = cached.guest_size ∧
        (info.type = .color3D ∨ cached.type = .color3D) then do
      let (c, id) ← c.expandImage info cache_id
      return { cache := c, image_id := some id }
    else if info.pixel_format ≠ cached.pixel_format ∨ info.guest_size ≤ cached.guest_size then
      let result_id := merged_id.getD cache_id
      let is_compatible :=
        env.compatible (c.image result_id).info.pixel_format info.pixel_format
      return { cache := c, image_id := if is_compatible then some result_id else none }
    else if info.type = cached.type ∧ cached.resources.less info.resources then do
      let (c, id) ← c.expandImage info cache_id
      return { cache := c, image_id := some id }
    else if info.tile_mode ≠ cached.tile_mode then
      let c ← c.freeIf safe_to_delete cache_id
      return { cache := c, image_id := merged_id }
    else throw (.assertion "Encountered unresolvable image overlap with equal memory address.")

def subresource (a info : ImageInfo) : Exec (Option (ℕ × ℕ)) := do
  match ← a.mipOf info with
  | .negSucc _ => return none
  | .ofNat mip =>
      match ← a.sliceOf info mip with
      | .negSucc _ => return none
      | .ofNat slice => return some (mip, slice)

/-- A smaller image in the one that is looked up: it is copied into a larger one and goes. -/
def resolveLeft (c : ImageCache) (cache_id : ℕ) (merged_id : Option ℕ) : Exec ImageCache :=
  if (c.image cache_id).is_target then
    let image := match merged_id with
      | some id => Function.update c.image id { c.image id with is_target := true }
      | none => c.image
    { c with image := image }.freeImage cache_id
  else
    match merged_id with
    | some _ => c.freeImage cache_id
    | none => .ok c

def resolveOverlap (env : LookupEnv) (c : ImageCache) (info : CachedInfo) (binding : BindingType)
    (cache_id : ℕ) (merged_id : Option ℕ) : Exec Resolved := do
  let cached := (c.image cache_id).info
  let age := sub64 env.tick (c.image cache_id).tick_accessed_last
  let safe_to_delete := decide (32 < age)
  if info.guest_address = cached.guest_address then
    resolveEqual env c info binding cache_id merged_id safe_to_delete
  else if cached.guest_address < info.guest_address then do
    match ← subresource info.toImageInfo cached.toImageInfo with
    | some (mip, slice) =>
        return { cache := c, image_id := some cache_id, view_mip := mip, view_slice := slice }
    | none =>
        let c ← c.freeIf safe_to_delete cache_id
        return { cache := c, image_id := none }
  else do
    match ← subresource cached.toImageInfo info.toImageInfo with
    | some _ =>
        let c ← c.resolveLeft cache_id merged_id
        return { cache := c, image_id := merged_id }
    | none => return { cache := c, image_id := merged_id }

/-- One turn of the loop over the overlaps. -/
def resolveNext (env : LookupEnv) (info : CachedInfo) (binding : BindingType) (r : Resolved)
    (cache_id : ℕ) : Exec Resolved := do
  let merged_info := match r.image_id with
    | some id => (r.cache.image id).info
    | none => info
  let next ← resolveOverlap env r.cache merged_info binding cache_id r.image_id
  match next.image_id with
  | some _ => return next
  | none => return { cache := next.cache, image_id := r.image_id }

def perfectMatch (env : LookupEnv) (c : ImageCache) (info : CachedInfo) (exact_fmt : Bool)
    (id : ℕ) : Prop :=
  let cached := (c.image id).info
  cached.guest_address = info.guest_address ∧ cached.guest_size = info.guest_size ∧
    cached.size = info.size ∧ env.compatible cached.pixel_format info.pixel_format = true ∧
    (cached.type = info.type ∨ info.size = { width := 1, height := 1, depth := 1 }) ∧
    (exact_fmt = true → info.pixel_format = cached.pixel_format)

instance (env : LookupEnv) (c : ImageCache) (info : CachedInfo) (exact_fmt : Bool) (id : ℕ) :
    Decidable (c.perfectMatch env info exact_fmt id) := by
  unfold perfectMatch
  infer_instance

/-- The overlaps are resolved if there is no perfect match. The last match counts. -/
def resolveImages (env : LookupEnv) (c : ImageCache) (info : CachedInfo) (binding : BindingType)
    (exact_fmt : Bool) (image_ids : List ℕ) : Exec Resolved :=
  match (image_ids.filter fun id => c.perfectMatch env info exact_fmt id).getLast? with
  | some id => .ok { cache := c, image_id := some id }
  | none => image_ids.foldlM (resolveNext env info binding) { cache := c, image_id := none }

/-- An image that does not do is given up. -/
def rejectImage (r : Resolved) (info : CachedInfo) (exact_fmt : Bool) : Exec Resolved :=
  match r.image_id with
  | none => .ok r
  | some id =>
      let found := (r.cache.image id).info
      if exact_fmt = true ∧ info.pixel_format ≠ found.pixel_format then
        .ok { r with image_id := none }
      else if found.resources.less info.resources then do
        let c ← r.cache.freeImage id
        return { r with cache := c, image_id := none }
      else .ok r

/-- `FindImage` for an address that is not null, with the images that `ForEachImageInRegion`
visits: the cache, the image, and the level and the layer of the view base, which are zero on
entry. -/
def findImage (env : LookupEnv) (c : ImageCache) (info : CachedInfo) (binding : BindingType)
    (exact_fmt : Bool) (image_ids : List ℕ) : Exec (ImageCache × ℕ × ℕ × ℕ) := do
  let r ← resolveImages env c info binding exact_fmt image_ids
  let r ← rejectImage r info exact_fmt
  let (c, id) := match r.image_id with
    | some id => (r.cache, id)
    | none => (r.cache.insert info, r.cache.next)
  let touched := { c.image id with tick_accessed_last := env.tick }
  let c := { c with image := Function.update c.image id touched }
  return (c, id, r.view_mip.toNat, r.view_slice.toNat)

end ImageCache

end OrbitConsole.VideoCore
