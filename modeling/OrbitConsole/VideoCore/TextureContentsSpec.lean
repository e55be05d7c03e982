import Mathlib.Logic.Encodable.Basic
import Mathlib.Logic.Equiv.List
import OrbitConsole.VideoCore.TextureContents
import OrbitConsole.VideoCore.TextureTrackingSpec

/-!
# Guest writes to images

Calls that only track and mark images never clear a dirty flag, and they untrack an image
whole only with a dirty flag set. So a clean image watches its pages, except for the parts
of its first and last page that a write next to it has untracked, and a write to a watched
byte marks the image.
-/

namespace OrbitConsole.VideoCore

open WatchCall

namespace Image

def Clean (image : Image) : Prop := image.cpuDirty = false ∧ image.maybeCpuDirty = false

instance : DecidablePred Clean := fun _ => inferInstanceAs (Decidable (_ ∧ _))

structure Follows (image' image : Image) : Prop where
  guestAddress : image'.guestAddress = image.guestAddress
  guestSize : image'.guestSize = image.guestSize
  cpuDirty : image.cpuDirty = true → image'.cpuDirty = true
  maybeCpuDirty : image.maybeCpuDirty = true → image'.maybeCpuDirty = true
  tracked : image'.Clean → image.trackAddr ≠ 0 → image'.trackAddr ≠ 0

variable {image image' image'' : Image}

theorem Follows.refl (image : Image) : image.Follows image :=
  ⟨rfl, rfl, id, id, fun _ => id⟩

theorem Follows.cpuClean (h : image'.Follows image) (hclean : image'.cpuDirty = false) :
    image.cpuDirty = false := by
  rw [← Bool.not_eq_true]
  exact fun hdirty => Bool.false_ne_true (hclean.symm.trans (h.cpuDirty hdirty))

theorem Follows.clean (h : image'.Follows image) (hclean : image'.Clean) : image.Clean := by
  constructor
  · exact h.cpuClean hclean.1
  · rw [← Bool.not_eq_true]
    exact fun hdirty => Bool.false_ne_true (hclean.2.symm.trans (h.maybeCpuDirty hdirty))

theorem Follows.trans (h' : image''.Follows image') (h : image'.Follows image) :
    image''.Follows image where
  guestAddress := h'.guestAddress.trans h.guestAddress
  guestSize := h'.guestSize.trans h.guestSize
  cpuDirty hdirty := h'.cpuDirty (h.cpuDirty hdirty)
  maybeCpuDirty hdirty := h'.maybeCpuDirty (h.maybeCpuDirty hdirty)
  tracked hclean hne := h'.tracked hclean (h.tracked (h'.clean hclean) hne)

theorem Follows.overlaps (h : image'.Follows image) (addr size : ℕ) :
    image'.overlaps addr size = image.overlaps addr size := by
  rw [Bool.eq_iff_iff, Image.overlaps, Image.overlaps, decide_eq_true_eq, decide_eq_true_eq,
    imageEnd, imageEnd, h.guestAddress, h.guestSize]

theorem Follows.contains (h : image'.Follows image) (b : ℕ) :
    image'.Contains b ↔ image.Contains b := by
  simp only [Contains, h.guestAddress, h.guestSize]

end Image

namespace TextureCache

variable {s s' s₁ : TextureCache} {imageId : ℕ} {image image' : Image} {contents : ℕ → ℕ → ℕ}

structure Keeps (s s' : TextureCache) : Prop where
  pageTable : s'.pageTable = s.pageTable
  images : ∀ {imageId image'}, s'.slotImages.get? imageId = some image' →
    ∃ image, s.slotImages.get? imageId = some image ∧ image'.Follows image

theorem Keeps.refl (s : TextureCache) : s.Keeps s :=
  ⟨rfl, fun h => ⟨_, h, .refl _⟩⟩

theorem Keeps.trans (h : s.Keeps s₁) (h' : s₁.Keeps s') : s.Keeps s' where
  pageTable := h'.pageTable.trans h.pageTable
  images hx := by
    obtain ⟨image₁, hx₁, hf'⟩ := h'.images hx
    obtain ⟨image, hx₀, hf⟩ := h.images hx₁
    exact ⟨image, hx₀, hf'.trans hf⟩

theorem Keeps.setImage (h : s.slotImages.get? imageId = some image) (hf : image'.Follows image) :
    s.Keeps (s.setImage imageId image') where
  pageTable := rfl
  images {x y} hx := by
    rw [TextureCache.setImage, OrderedMap.get?_insert] at hx
    split at hx
    · next heq => exact ⟨image, heq ▸ h, Option.some.inj hx ▸ hf⟩
    · exact ⟨y, hx, .refl y⟩

theorem Keeps.updatePageWatchers (h : s.Keeps s') (track : Bool) (addr size : ℕ) :
    s.Keeps (s'.updatePageWatchers track addr size) :=
  ⟨h.pageTable, h.images⟩

theorem get?_setImage (s : TextureCache) (imageId : ℕ) (image : Image) :
    (s.setImage imageId image).slotImages.get? imageId = some image := by
  simp [setImage]

theorem Keeps.untrackImage (h : s.slotImages.get? imageId = some image) (hdirty : ¬ image.Clean)
    (hs' : s.untrackImage imageId = .ok s') : s.Keeps s' := by
  rw [untrackImage_eq h] at hs'
  obtain rfl := Except.ok.inj hs'
  have hset : s.Keeps (s.setImage imageId { image with trackAddr := 0, trackAddrEnd := 0 }) :=
    .setImage h ⟨rfl, rfl, id, id, fun hclean => absurd hclean hdirty⟩
  split
  · exact .refl s
  · split
    · exact hset.updatePageWatchers _ _ _
    · exact hset

theorem Keeps.markAsMaybeDirty (h : s.markAsMaybeDirty contents imageId = .ok s') :
    s.Keeps s' := by
  obtain ⟨image, himage, h⟩ := bind_eq_ok.1 h
  rw [image_eq_ok] at himage
  refine (Keeps.setImage himage ?_).trans (.untrackImage (get?_setImage _ _ _) ?_ h)
  · exact ⟨rfl, rfl, id, fun _ => rfl, fun hclean => absurd hclean.2 (by simp)⟩
  · exact fun hclean => absurd hclean.2 (by simp)

/-- Every image lies in the address space of the GPU. -/
def Bounded (s : TextureCache) : Prop := ∀ {imageId image},
  s.slotImages.get? imageId = some image →
    0 < image.guestSize ∧ image.guestAddress + image.guestSize ≤ 1099511627776

theorem Balanced.bounded (B : s.Balanced) : s.Bounded := fun h =>
  ⟨(B.images h).size_pos, (B.images h).bounded⟩

theorem Bounded.keeps (hb : s.Bounded) (k : s.Keeps s') : s'.Bounded := fun h => by
  obtain ⟨image, himage, hf⟩ := k.images h
  rw [hf.guestAddress, hf.guestSize]
  exact hb himage

theorem Keeps.untrackImageHead (hb : s.Bounded)
    (h : s.untrackImageHead contents imageId = .ok s') : s.Keeps s' := by
  obtain ⟨image, himage, h⟩ := bind_eq_ok.1 h
  rw [image_eq_ok] at himage
  obtain ⟨hsize, hbound⟩ := hb himage
  simp only at h
  split at h
  · exact Except.ok.inj h ▸ .refl s
  · obtain ⟨s₁, hs₁, h⟩ := bind_eq_ok.1 h
    obtain rfl := Except.ok.inj h
    refine Keeps.updatePageWatchers ?_ _ _ _
    have hset : s.Keeps (s.setImage imageId
        { image with trackAddr := getNextPageAddr image.guestAddress }) := by
      refine .setImage himage ⟨rfl, rfl, id, id, fun _ _ => ?_⟩
      simp only
      rw [getNextPageAddr_eq (by omega)]
      have : pageSize = 4096 := rfl
      omega
    split at hs₁
    · exact hset.trans (.markAsMaybeDirty hs₁)
    · exact Except.ok.inj hs₁ ▸ hset

theorem Keeps.untrackImageTail (h : s.untrackImageTail contents imageId = .ok s') :
    s.Keeps s' := by
  obtain ⟨image, himage, h⟩ := bind_eq_ok.1 h
  rw [image_eq_ok] at himage
  simp only at h
  split at h
  · exact Except.ok.inj h ▸ .refl s
  · obtain ⟨u, -, h⟩ := bind_eq_ok.1 h
    obtain ⟨s₁, hs₁, h⟩ := bind_eq_ok.1 h
    obtain rfl := Except.ok.inj h
    refine Keeps.updatePageWatchers ?_ _ _ _
    have hset : s.Keeps (s.setImage imageId
        { image with trackAddrEnd := getPageAddr image.imageEnd }) :=
      .setImage himage ⟨rfl, rfl, id, id, fun _ => id⟩
    split at hs₁
    · exact hset.trans (.markAsMaybeDirty hs₁)
    · exact Except.ok.inj hs₁ ▸ hset

/-! ### Invalidation -/

def Marked (addr size imageId : ℕ) (s : TextureCache) : Prop :=
  ∀ image, s.slotImages.get? imageId = some image → image.overlaps addr size = true →
    image.cpuDirty = true

theorem Marked.keeps {addr size : ℕ} (h : Marked addr size imageId s) (k : s.Keeps s') :
    Marked addr size imageId s' := by
  intro image' himage' hover
  obtain ⟨image, himage, hf⟩ := k.images himage'
  rw [hf.overlaps] at hover
  exact hf.cpuDirty (h image himage hover)

theorem invalidateImage_spec {addr size pagesStart pagesEnd : ℕ} (hb : s.Bounded)
    (h : invalidateImage contents addr size pagesStart pagesEnd imageId s = .ok s') :
    s.Keeps s' ∧ Marked addr size imageId s' := by
  obtain ⟨image, himage, h⟩ := bind_eq_ok.1 h
  rw [image_eq_ok] at himage
  split at h
  · have hset : s.Keeps (s.setImage imageId { image with cpuDirty := true }) :=
      .setImage himage ⟨rfl, rfl, fun _ => rfl, id, fun hclean => absurd hclean.1 (by simp)⟩
    have hrest := Keeps.untrackImage (get?_setImage _ _ _)
      (fun hclean => absurd hclean.1 (by simp)) h
    refine ⟨hset.trans hrest, Marked.keeps (fun image' himage' _ => ?_) hrest⟩
    rw [get?_setImage] at himage'
    exact Option.some.inj himage' ▸ rfl
  · next hover =>
      have hkeeps : s.Keeps s' := by
        split at h
        · exact .untrackImageHead hb h
        split at h
        · exact .untrackImageTail h
        · exact .markAsMaybeDirty h
      refine ⟨hkeeps, Marked.keeps (fun image' himage' hover' => ?_) hkeeps⟩
      obtain rfl := Option.some.inj (himage.symm.trans himage')
      exact absurd hover' hover

theorem forEachImage_spec {func : ℕ → TextureCache → Except String TextureCache}
    {cpuAddr n : ℕ} (addr size : ℕ)
    (hfunc : ∀ imageId s s', s.Bounded → func imageId s = .ok s' →
      s.Keeps s' ∧ Marked addr size imageId s')
    (l picked : List ℕ) (hb : s.Bounded) (hpicked : ∀ x ∈ picked, Marked addr size x s)
    (h : forEachImage func cpuAddr n l picked s = .ok s') :
    s.Keeps s' ∧ ∀ x ∈ l, ∀ image', s'.slotImages.get? x = some image' →
      image'.overlaps cpuAddr n = true → image'.overlaps addr size = true →
        image'.cpuDirty = true := by
  induction l generalizing picked s with
  | nil => exact ⟨Except.ok.inj h ▸ .refl s, fun x hx => by cases hx⟩
  | cons imageId l ih =>
      obtain ⟨image, himage, h⟩ := bind_eq_ok.1 h
      rw [image_eq_ok] at himage
      split at h
      · next hskip =>
          obtain ⟨hkeeps, hrest⟩ := ih picked hb hpicked h
          refine ⟨hkeeps, fun x hx image' himage' hregion hover => ?_⟩
          obtain rfl | hx := List.mem_cons.1 hx
          · rcases hskip with hin | hout
            · exact (hpicked x hin).keeps hkeeps image' himage' hover
            · obtain ⟨image₀, himage₀, hf⟩ := hkeeps.images himage'
              obtain rfl := Option.some.inj (himage.symm.trans himage₀)
              rw [hf.overlaps] at hregion
              simp [hregion] at hout
          · exact hrest x hx image' himage' hregion hover
      · obtain ⟨s₁, hs₁, h⟩ := bind_eq_ok.1 h
        obtain ⟨hkeeps₁, hmarked⟩ := hfunc imageId s s₁ hb hs₁
        obtain ⟨hkeeps, hrest⟩ := ih (imageId :: picked) (hb.keeps hkeeps₁) (fun x hx => by
          obtain rfl | hx := List.mem_cons.1 hx
          · exact hmarked
          · exact (hpicked x hx).keeps hkeeps₁) h
        refine ⟨hkeeps₁.trans hkeeps, fun x hx image' himage' hregion hover => ?_⟩
        obtain rfl | hx := List.mem_cons.1 hx
        · exact hmarked.keeps hkeeps image' himage' hover
        · exact hrest x hx image' himage' hregion hover

theorem mem_pagesOf {addr size b : ℕ} (hle : addr ≤ b) (hlt : b < addr + size)
    (hbound : addr + size < 18446744073709551616) :
    b >>> cachePageBits ∈ pagesOf addr size := by
  unfold pagesOf
  rw [add64_eq hbound, sub64_eq (by omega) hbound, List.mem_range'_1]
  simp only [Nat.shiftRight_eq_div_pow, cachePageBits]
  omega

def Listed (s : TextureCache) : Prop := ∀ {imageId image},
  s.slotImages.get? imageId = some image →
    ∀ page ∈ pagesOf image.guestAddress image.guestSize, imageId ∈ s.pageTable page

theorem invalidateMemory_spec {addr size : ℕ} (hb : s.Bounded) (hlisted : s.Listed)
    (hsize : 0 < size) (hbound : addr + size ≤ 1099511627776)
    (h : s.invalidateMemory contents addr size = .ok s') :
    s.Keeps s' ∧ ∀ imageId image', s'.slotImages.get? imageId = some image' →
      ∀ b, image'.Contains b → addr ≤ b → b < addr + size → image'.cpuDirty = true := by
  obtain ⟨hkeeps, hmarked⟩ := forEachImage_spec addr size
    (fun _ _ _ hb h => invalidateImage_spec hb h) _ [] hb (by simp) h
  refine ⟨hkeeps, fun imageId image' himage' b hin hle hlt => ?_⟩
  obtain ⟨image, himage, hf⟩ := hkeeps.images himage'
  obtain ⟨hpos, himageEnd⟩ := hb.keeps hkeeps himage'
  have hstart := getPageAddr_le addr
  have hend := getPageAddr_lt (addr + size - 1)
  have hlast := getPageAddr_le (addr + size - 1)
  have hnext : getNextPageAddr (sub64 (add64 addr size) 1) =
      getPageAddr (addr + size - 1) + pageSize := by
    rw [add64_eq (by omega), sub64_eq (by omega) (by omega), getNextPageAddr_eq (by omega)]
  have hpage : pageSize = 4096 := rfl
  rw [hnext, sub64_eq (by omega) (by omega)] at hmarked
  obtain ⟨hge, hlt'⟩ := hin
  refine hmarked imageId (List.mem_flatMap.2 ⟨b >>> cachePageBits, ?_, ?_⟩) image' himage' ?_ ?_
  · exact mem_pagesOf (by omega) (by omega) (by omega)
  · refine hlisted himage _ (mem_pagesOf ?_ ?_ ?_) <;>
      rw [← hf.guestAddress] <;> try rw [← hf.guestSize]
    all_goals omega
  · rw [Image.overlaps, decide_eq_true_eq, Image.imageEnd, add64_eq (by omega),
      add64_eq (by omega)]
    omega
  · rw [Image.overlaps, decide_eq_true_eq, Image.imageEnd, add64_eq (by omega),
      add64_eq (by omega)]
    omega

/-! ### Tracking -/

def Retracks (s s' : TextureCache) (imageId : ℕ) (image : Image) (lo hi : ℕ) : Prop :=
  s'.pageTable = s.pageTable ∧ ∀ x, s'.slotImages.get? x =
    if x = imageId then some { image with trackAddr := lo, trackAddrEnd := hi }
    else s.slotImages.get? x

theorem retracks_self (h : s.slotImages.get? imageId = some image) :
    Retracks s s imageId image image.trackAddr image.trackAddrEnd := by
  refine ⟨rfl, fun x => ?_⟩
  split
  · next heq => rw [heq, h]
  · rfl

theorem retracks_setImage (s : TextureCache) (imageId : ℕ) (image : Image)
    (lo hi addr size : ℕ) :
    Retracks s ((s.setImage imageId { image with trackAddr := lo, trackAddrEnd := hi
      }).updatePageWatchers true addr size) imageId image lo hi :=
  ⟨rfl, fun x => OrderedMap.get?_insert _ _ _ x⟩

theorem trackImageHead_spec (himage : s.slotImages.get? imageId = some image)
    (haddr : image.guestAddress ≠ 0) (hne : image.trackAddr ≠ 0)
    (h : s.trackImageHead imageId = .ok s') :
    ∃ lo, lo ≠ 0 ∧ Retracks s s' imageId image lo image.trackAddrEnd := by
  rw [trackImageHead, image_eq_ok.2 himage] at h
  simp only [bind, Except.bind] at h
  split at h
  · obtain rfl := Except.ok.inj h
    exact ⟨image.trackAddr, hne, retracks_self himage⟩
  split at h
  · obtain rfl := Except.ok.inj h
    exact ⟨image.trackAddr, hne, retracks_self himage⟩
  split at h
  · cases h
  · obtain rfl := Except.ok.inj h
    exact ⟨image.guestAddress, haddr, retracks_setImage s imageId image _ _ _ _⟩

theorem trackImageTail_spec (himage : s.slotImages.get? imageId = some image)
    (h : s.trackImageTail imageId = .ok s') :
    ∃ hi, Retracks s s' imageId image image.trackAddr hi := by
  rw [trackImageTail, image_eq_ok.2 himage] at h
  simp only [bind, Except.bind] at h
  split at h
  · obtain rfl := Except.ok.inj h
    exact ⟨image.trackAddrEnd, retracks_self himage⟩
  split at h
  · obtain rfl := Except.ok.inj h
    exact ⟨image.trackAddrEnd, retracks_self himage⟩
  split at h
  · cases h
  · obtain rfl := Except.ok.inj h
    exact ⟨image.imageEnd, retracks_setImage s imageId image _ _ _ _⟩

theorem trackImage_spec (himage : s.slotImages.get? imageId = some image) (hok : image.Ok)
    (h : s.trackImage imageId = .ok s') :
    ∃ lo hi, lo ≠ 0 ∧ Retracks s s' imageId image lo hi := by
  have haddr := hok.address_pos.ne'
  rw [trackImage, image_eq_ok.2 himage] at h
  simp only [bind, Except.bind] at h
  split at h
  · next hreg => simp [hok.registered] at hreg
  split at h
  · next heq =>
      obtain rfl := Except.ok.inj h
      exact ⟨image.trackAddr, image.trackAddrEnd, heq.1 ▸ haddr, retracks_self himage⟩
  split at h
  · obtain rfl := Except.ok.inj h
    exact ⟨image.guestAddress, image.imageEnd, haddr, retracks_setImage s imageId image _ _ _ _⟩
  · next htracked =>
      have hne : image.trackAddr ≠ 0 := by
        intro h0
        simp [Image.isTracked, h0] at htracked
      split at h
      · cases h
      next s₁ hs₁ =>
      obtain ⟨lo, hlo, hhead⟩ :
          ∃ lo, lo ≠ 0 ∧ Retracks s s₁ imageId image lo image.trackAddrEnd := by
        split at hs₁
        · exact trackImageHead_spec himage haddr hne hs₁
        · obtain rfl := Except.ok.inj hs₁
          exact ⟨image.trackAddr, hne, retracks_self himage⟩
      split at h
      · have himage₁ := hhead.2 imageId
        rw [if_pos rfl] at himage₁
        obtain ⟨hi, htail⟩ := trackImageTail_spec himage₁ h
        refine ⟨lo, hi, hlo, htail.1.trans hhead.1, fun x => ?_⟩
        rw [htail.2 x, hhead.2 x]
        split <;> rfl
      · obtain rfl := Except.ok.inj h
        exact ⟨lo, image.trackAddrEnd, hlo, hhead⟩

end TextureCache

namespace TextureMemory

open TextureCache

variable {xxh3 : List ℕ → ℕ} {s s' : TextureMemory} {imageId : ℕ} {image image' : Image}

/-- The write touches a page of the tracked range of an image. -/
def Watched (s : TextureMemory) (addr size : ℕ) : Prop :=
  ∃ k < size, ∃ e ∈ s.cache.slotImages.entries, e.2.Watches ((addr + k) / pageSize)

instance (s : TextureMemory) (addr size : ℕ) : Decidable (s.Watched addr size) :=
  inferInstanceAs (Decidable (∃ k < size, _))

def MissesNoWrite (s : TextureMemory) : Prop :=
  ∀ e ∈ s.cache.slotImages.entries, e.2.Clean → ∀ b, e.2.Contains b →
    s.uploaded e.1 b = some (s.memory b)

/-- The bytes an image was uploaded with last. -/
def uploadedBytes (s : TextureMemory) (imageId : ℕ) (image : Image) : List ℕ :=
  (List.range image.guestSize).map fun i =>
    (s.uploaded imageId (image.guestAddress + i)).getD 0

/-- Images and writes lie in the address space of the GPU. Where a write changes a byte of a
clean image outside the tracked range of that image, it touches a page some image tracks. Where
the hash of an image that may be dirty is the stored one, the pixels that are hashed are all the
image has, and the stored hash is that of the last upload. -/
def Conforms (xxh3 : List ℕ → ℕ) (s : TextureMemory) : Action → Prop
  | .registerImage _ addr size _ => 0 < addr ∧ 0 < size ∧ addr + size ≤ 1099511627776
  | .guestWrite addr bytes => addr + bytes.length ≤ 1099511627776 ∧
      ∀ e ∈ s.cache.slotImages.entries, e.2.Clean → ∀ k < bytes.length, e.2.Contains (addr + k) →
        addr + k < e.2.trackAddr ∨ e.2.trackAddrEnd ≤ addr + k →
          s.store addr bytes (addr + k) ≠ s.memory (addr + k) → s.Watched addr bytes.length
  | .updateImage imageId => ∀ e ∈ s.cache.slotImages.entries, e.1 = imageId →
      e.2.cpuDirty = false → e.2.maybeCpuDirty = true →
        e.2.hash = s.contents xxh3 e.2.guestAddress (s.extents imageId).hashedSize →
          (s.extents imageId).hashedSize = e.2.guestSize ∧
            e.2.hash = xxh3 (s.uploadedBytes imageId e.2)

structure Inv (s : TextureMemory) : Prop where
  balanced : s.cache.Balanced
  listed : s.cache.Listed
  tracked : ∀ {imageId image}, s.cache.slotImages.get? imageId = some image →
    image.Clean → image.trackAddr ≠ 0
  filled : ∀ {imageId image}, s.cache.slotImages.get? imageId = some image →
    image.cpuDirty = false → ∀ b, image.Contains b → (s.uploaded imageId b).isSome
  current : ∀ {imageId image}, s.cache.slotImages.get? imageId = some image →
    image.Clean → ∀ b, image.Contains b → s.uploaded imageId b = some (s.memory b)

/-- Equal hashes are those of equal bytes. -/
theorem Inv.unchanged (hinjective : Function.Injective xxh3) (I : s.Inv)
    (h : s.cache.slotImages.get? imageId = some image) (hclean : image.cpuDirty = false)
    (hsize : (s.extents imageId).hashedSize = image.guestSize)
    (hstored : image.hash = xxh3 (s.uploadedBytes imageId image))
    (hhash : image.hash = s.contents xxh3 image.guestAddress (s.extents imageId).hashedSize) :
    ∀ b, image.Contains b → s.uploaded imageId b = some (s.memory b) := by
  intro b hin
  have hbytes : s.uploadedBytes imageId image =
      (List.range image.guestSize).map fun i => s.memory (image.guestAddress + i) :=
    hinjective (by rw [← hstored, hhash, contents, hsize])
  obtain ⟨i, rfl⟩ := Nat.exists_eq_add_of_le hin.1
  have hbyte := List.map_inj_left.1 hbytes i
    (List.mem_range.2 (Nat.lt_of_add_lt_add_left hin.2))
  obtain ⟨value, hvalue⟩ := Option.isSome_iff_exists.1 (I.filled h hclean _ hin)
  rw [hvalue] at hbyte ⊢
  exact congrArg some hbyte

theorem faults_of_watched {addr size : ℕ} (B : s.cache.Balanced) (h : s.Watched addr size) :
    s.Faults addr size := by
  obtain ⟨k, hk, e, he, hw⟩ := h
  refine ⟨k, hk, ?_⟩
  rw [B.watchers]
  have hcount := OrderedMap.weight_ite
    (fun image : Image => image.Watches ((addr + k) / pageSize)) s.cache.slotImages
  have hpos : 0 < s.cache.slotImages.entries.countP
      fun e => e.2.Watches ((addr + k) / pageSize) :=
    List.countP_pos_iff.2 ⟨e, he, by simpa using hw⟩
  change 0 < OrderedMap.weight (fun image : Image =>
    if image.Watches ((addr + k) / pageSize) then (1 : ℤ) else 0) s.cache.slotImages
  rw [hcount]
  exact_mod_cast hpos

theorem store_of_lt {addr b : ℕ} {bytes : List ℕ} (h : b < addr ∨ addr + bytes.length ≤ b) :
    s.store addr bytes b = s.memory b := by
  unfold store
  split
  · rw [List.getD_eq_getElem?_getD, List.getElem?_eq_none (by omega), Option.getD_none]
  · rfl

theorem watched_of_tracked {addr size k : ℕ} (hk : k < size)
    (h : s.cache.slotImages.get? imageId = some image)
    (hle : image.trackAddr ≤ addr + k) (hlt : addr + k < image.trackAddrEnd) :
    s.Watched addr size := by
  refine ⟨k, hk, (imageId, image), OrderedMap.get?_eq_some_iff.1 h, ?_⟩
  simp only [Image.Watches, pageSize]
  omega

theorem Inv.store_eq {addr b : ℕ} {bytes : List ℕ} (I : s.Inv)
    (hconforms : Conforms xxh3 s (.guestWrite addr bytes))
    (hfaults : ¬ s.Faults addr bytes.length) (h : s.cache.slotImages.get? imageId = some image)
    (hclean : image.Clean) (hin : image.Contains b) : s.store addr bytes b = s.memory b := by
  by_contra hne
  have hrange : addr ≤ b ∧ b < addr + bytes.length := by
    by_contra hout
    exact hne (store_of_lt (by omega))
  obtain ⟨k, rfl⟩ := Nat.exists_eq_add_of_le hrange.1
  have hk : k < bytes.length := by omega
  refine hfaults (faults_of_watched I.balanced ?_)
  by_cases htracked : image.trackAddr ≤ addr + k ∧ addr + k < image.trackAddrEnd
  · exact watched_of_tracked hk h htracked.1 htracked.2
  · exact hconforms.2 _ (OrderedMap.get?_eq_some_iff.1 h) hclean k hk hin (by simp only; omega) hne

theorem Inv.guestWrite {addr : ℕ} {bytes : List ℕ} (I : s.Inv)
    (hconforms : Conforms xxh3 s (.guestWrite addr bytes))
    (h : s.guestWrite xxh3 addr bytes = .ok s') : s'.Inv := by
  unfold TextureMemory.guestWrite at h
  split at h
  · next hfaults =>
      obtain ⟨cache, hcache, h⟩ := bind_eq_ok.1 h
      obtain rfl := Except.ok.inj h
      have hlen : 0 < bytes.length := by
        obtain ⟨k, hk, -⟩ := hfaults
        omega
      have hbound := hconforms.1
      obtain ⟨hkeeps, hmarked⟩ :=
        invalidateMemory_spec I.balanced.bounded I.listed hlen hbound hcache
      refine ⟨I.balanced.invalidateMemory (by omega) hcache, fun {x y} hx page hpage => ?_,
        fun {x y} hx hclean => ?_, fun {x y} hx hclean b hin => ?_,
        fun {x y} hx hclean b hin => ?_⟩
      · obtain ⟨image, himage, hf⟩ := hkeeps.images hx
        rw [hf.guestAddress, hf.guestSize] at hpage
        simp only [hkeeps.pageTable]
        exact I.listed himage page hpage
      · obtain ⟨image, himage, hf⟩ := hkeeps.images hx
        exact hf.tracked hclean (I.tracked himage (hf.clean hclean))
      · obtain ⟨image, himage, hf⟩ := hkeeps.images hx
        exact I.filled himage (hf.cpuClean hclean) b ((hf.contains b).1 hin)
      · obtain ⟨image, himage, hf⟩ := hkeeps.images hx
        have hout : ¬ (addr ≤ b ∧ b < addr + bytes.length) := fun hr =>
          Bool.false_ne_true (hclean.1.symm.trans (hmarked x y hx b hin hr.1 hr.2))
        simp only [store_of_lt (show b < addr ∨ addr + bytes.length ≤ b by omega)]
        exact I.current himage (hf.clean hclean) b ((hf.contains b).1 hin)
  · next hfaults =>
      obtain rfl := Except.ok.inj h
      refine ⟨I.balanced, I.listed, I.tracked, I.filled, fun {x y} hx hclean b hin => ?_⟩
      simp only [I.store_eq hconforms hfaults hx hclean hin]
      exact I.current hx hclean b hin

theorem Inv.registerImage {addr size : ℕ} {extent : ImageExtent} (I : s.Inv) (haddr : 0 < addr)
    (hsize : 0 < size) (hbound : addr + size ≤ 1099511627776)
    (h : s.registerImage imageId addr size extent = .ok s') : s'.Inv := by
  obtain ⟨cache, hcache, h⟩ := bind_eq_ok.1 h
  obtain rfl := Except.ok.inj h
  have hbalanced := I.balanced.registerImage haddr hsize hbound hcache
  unfold TextureCache.registerImage at hcache
  split at hcache
  · cases hcache
  obtain rfl := Except.ok.inj hcache
  refine ⟨hbalanced, fun {x y} hx page hpage => ?_, fun {x y} hx hclean => ?_,
    fun {x y} hx hclean b hin => ?_, fun {x y} hx hclean b hin => ?_⟩
  · simp only [setImage, OrderedMap.get?_insert] at hx ⊢
    split at hx
    · next heq =>
        obtain rfl := Option.some.inj hx
        rw [if_pos hpage, heq]
        exact List.mem_append_right _ (List.mem_singleton_self _)
    · have hold := I.listed hx page hpage
      split
      · exact List.mem_append_left _ hold
      · exact hold
  · simp only [setImage, OrderedMap.get?_insert] at hx
    split at hx
    · exact absurd (Option.some.inj hx ▸ hclean).1 (by simp)
    · exact I.tracked hx hclean
  · simp only [setImage, OrderedMap.get?_insert] at hx
    split at hx
    · exact absurd (Option.some.inj hx ▸ hclean) (by simp)
    · next hne =>
        simp only [if_neg hne]
        exact I.filled hx hclean b hin
  · simp only [setImage, OrderedMap.get?_insert] at hx
    split at hx
    · exact absurd (Option.some.inj hx ▸ hclean).1 (by simp)
    · next hne =>
        simp only [if_neg hne]
        exact I.current hx hclean b hin

theorem Inv.retracked {cache : TextureCache} {lo hi : ℕ} (I : s.Inv)
    (h : s.cache.slotImages.get? imageId = some image) (hne : lo ≠ 0)
    (hr : Retracks s.cache cache imageId image lo hi) (B : cache.Balanced) :
    ({ s with cache := cache } : TextureMemory).Inv := by
  refine ⟨B, fun {x y} hx page hpage => ?_, fun {x y} hx hclean => ?_,
    fun {x y} hx hclean b hin => ?_, fun {x y} hx hclean b hin => ?_⟩
  · rw [hr.1]
    rw [hr.2 x] at hx
    split at hx
    · next heq =>
        have hold : s.cache.slotImages.get? x = some image := heq ▸ h
        obtain rfl := Option.some.inj hx
        exact I.listed hold page hpage
    · exact I.listed hx page hpage
  · rw [hr.2 x] at hx
    split at hx
    · exact Option.some.inj hx ▸ hne
    · exact I.tracked hx hclean
  · rw [hr.2 x] at hx
    split at hx
    · next heq =>
        have hold : s.cache.slotImages.get? x = some image := heq ▸ h
        obtain rfl := Option.some.inj hx
        exact I.filled hold hclean b hin
    · exact I.filled hx hclean b hin
  · rw [hr.2 x] at hx
    split at hx
    · next heq =>
        have hold : s.cache.slotImages.get? x = some image := heq ▸ h
        obtain rfl := Option.some.inj hx
        exact I.current hold hclean b hin
    · exact I.current hx hclean b hin

theorem Inv.cleaned (I : s.Inv) (h : s.cache.slotImages.get? imageId = some image)
    (hne : image.trackAddr ≠ 0) (hcache : s'.cache = s.cache.setImage imageId image')
    (hsame : image'.guestAddress = image.guestAddress ∧ image'.guestSize = image.guestSize ∧
      image'.registered = image.registered ∧ image'.trackAddr = image.trackAddr ∧
      image'.trackAddrEnd = image.trackAddrEnd)
    (hmemory : s'.memory = s.memory) (hother : ∀ x ≠ imageId, s'.uploaded x = s.uploaded x)
    (hcurrent : ∀ b, image.Contains b → s'.uploaded imageId b = some (s.memory b)) : s'.Inv := by
  obtain ⟨haddr, hsize, hreg, hstart, hend⟩ := hsame
  have hok := I.balanced.images h
  have hok' : image'.Ok := by
    refine ⟨haddr ▸ hok.address_pos, hsize ▸ hok.size_pos, ?_, hreg ▸ hok.registered, ?_⟩
    · rw [haddr, hsize]
      exact hok.bounded
    · rw [haddr, hsize, hstart, hend]
      exact hok.tracked
  refine ⟨?_, fun {x y} hx page hpage => ?_, fun {x y} hx hclean => ?_,
    fun {x y} hx hclean b hin => ?_, fun {x y} hx hclean b hin => ?_⟩
  · rw [hcache]
    refine I.balanced.moves h hok' rfl (List.append_nil _).symm fun i => ?_
    rw [Image.watch_eq, Image.watch_eq, hstart, hend]
    simp [outstanding]
  · rw [hcache] at hx ⊢
    rw [setImage, OrderedMap.get?_insert] at hx
    split at hx
    · next heq =>
        obtain rfl := Option.some.inj hx
        rw [haddr, hsize] at hpage
        exact I.listed (heq ▸ h) page hpage
    · exact I.listed hx page hpage
  · rw [hcache, setImage, OrderedMap.get?_insert] at hx
    split at hx
    · rw [← Option.some.inj hx, hstart]
      exact hne
    · exact I.tracked hx hclean
  · rw [hcache, setImage, OrderedMap.get?_insert] at hx
    split at hx
    · next heq =>
        obtain rfl := Option.some.inj hx
        rw [Image.Contains, haddr, hsize] at hin
        rw [heq, hcurrent b hin]
        rfl
    · next hne =>
        rw [hother x hne]
        exact I.filled hx hclean b hin
  · rw [hcache, setImage, OrderedMap.get?_insert] at hx
    rw [hmemory]
    split at hx
    · next heq =>
        obtain rfl := Option.some.inj hx
        rw [Image.Contains, haddr, hsize] at hin
        exact heq ▸ hcurrent b hin
    · next hne =>
        rw [hother x hne]
        exact I.current hx hclean b hin

theorem Inv.upload {hash : ℕ} (I : s.Inv) (h : s.cache.slotImages.get? imageId = some image)
    (hne : image.trackAddr ≠ 0) : (s.upload imageId { image with hash := hash }).Inv := by
  refine I.cleaned h hne rfl ⟨rfl, rfl, rfl, rfl, rfl⟩ rfl (fun x hx => ?_) fun b hin => ?_
  · simp only [TextureMemory.upload, if_neg hx]
  · have hin' : ({ image with hash := hash } : Image).Contains b := hin
    simp only [TextureMemory.upload, if_pos, if_pos hin']

theorem Inv.updateImage (hinjective : Function.Injective xxh3) (I : s.Inv) (hconforms : Conforms xxh3 s (.updateImage imageId))
    (h : s.updateImage xxh3 imageId = .ok s') : s'.Inv := by
  obtain ⟨cache, hcache, h⟩ := bind_eq_ok.1 h
  obtain ⟨image, himage, -⟩ := bind_eq_ok.1 hcache
  rw [image_eq_ok] at himage
  obtain ⟨lo, hi, hlo, hr⟩ := trackImage_spec himage (I.balanced.images himage) hcache
  have I₁ := I.retracked himage hlo hr (I.balanced.trackImage hcache)
  have himage₁ := hr.2 imageId
  rw [if_pos rfl] at himage₁
  rw [refreshImage, image_eq_ok.2 himage₁] at h
  simp only [bind, Except.bind] at h
  split at h
  · exact Except.ok.inj h ▸ I₁
  split at h
  · next hmaybe =>
      split at h
      · next hhash =>
          -- the hash says nothing changed
          obtain rfl := Except.ok.inj h
          obtain ⟨hsize, hstored⟩ := hconforms (imageId, image)
            (OrderedMap.get?_eq_some_iff.1 himage) rfl hmaybe.2 hmaybe.1 hhash
          have hcurrent := I₁.unchanged hinjective himage₁ hmaybe.2 hsize hstored hhash
          exact I₁.cleaned himage₁ hlo rfl ⟨rfl, rfl, rfl, rfl, rfl⟩ rfl (fun _ _ => rfl) hcurrent
      · exact Except.ok.inj h ▸ I₁.upload himage₁ hlo
  · exact Except.ok.inj h ▸ I₁.upload himage₁ hlo

/-- By induction on the run; the hash tells different contents apart. -/
theorem inv_of_reachable (hinjective : Function.Injective xxh3)
    (h : Transition.Reachable (step xxh3) (Conforms xxh3) {} s) : s.Inv := by
  refine h.invariant ⟨⟨fun _ => rfl, fun h => (by cases h)⟩, fun h => (by cases h),
    fun h => (by cases h), fun h => (by cases h), fun h => (by cases h)⟩ fun s s' a I hconforms hs => ?_
  cases a with
  | registerImage imageId addr size extent =>
      exact I.registerImage hconforms.1 hconforms.2.1 hconforms.2.2 (toOption_eq_some hs)
  | guestWrite addr bytes => exact I.guestWrite hconforms (toOption_eq_some hs)
  | updateImage imageId => exact I.updateImage hinjective hconforms (toOption_eq_some hs)

/-- In every state of every conforming run, after each `UpdateImage` in particular, a clean
image was uploaded with the bytes memory has. -/
theorem misses_no_write (hinjective : Function.Injective xxh3)
    (h : Transition.Reachable (step xxh3) (Conforms xxh3) {} s) : s.MissesNoWrite :=
  fun _ he hclean => (inv_of_reachable hinjective h).current (OrderedMap.get?_eq_some_iff.2 he) hclean

/-- Writes next to and in an image, and a write next to an image of a single byte. -/
def reportedWrites : List Action :=
  [.registerImage 0 0x1000100 0x2000 ⟨64, 32, false, 32⟩, .updateImage 0,
    .guestWrite 0x1000000 [7], .updateImage 0, .guestWrite 0x1000104 [7], .updateImage 0,
    .registerImage 1 0x1005000 1 ⟨1, 1, false, 8⟩, .updateImage 1, .guestWrite 0x1005800 [7],
    .updateImage 1]

instance : ∀ s a, Decidable (Conforms xxh3 s a) := fun _ a => match a with
  | .registerImage _ _ _ _ => inferInstanceAs (Decidable (_ ∧ _))
  | .guestWrite _ _ => inferInstanceAs (Decidable (_ ∧ _))
  | .updateImage _ => inferInstanceAs (Decidable (∀ e ∈ _, _))

theorem misses_no_write_sample : ∃ s,
    Transition.runChecked (step Encodable.encode) (Conforms Encodable.encode) {}
        reportedWrites = some s ∧ s.MissesNoWrite := by
  obtain ⟨s, hs⟩ := Option.isSome_iff_exists.1
    (by decide : (Transition.runChecked (step Encodable.encode)
      (Conforms Encodable.encode) {} reportedWrites).isSome = true)
  exact ⟨s, hs, misses_no_write Encodable.encode_injective (Transition.reachable_of_runChecked hs)⟩

def overlookedWrites : List Action :=
  [.registerImage 0 0x1000100 0x2000 ⟨64, 32, false, 32⟩, .updateImage 0,
    .guestWrite 0x1000000 [7], .guestWrite 0x1000104 [7], .updateImage 0]

/-- The write next to the image has untracked its first page, so the write inside it is not
reported, and the update leaves the image as it is. -/
theorem misses_no_write_fails : Function.Injective (Encodable.encode : List ℕ → ℕ) ∧
    ∃ s, Transition.run (step Encodable.encode) {} overlookedWrites = some s ∧
      ¬ s.MissesNoWrite := by
  refine ⟨Encodable.encode_injective, ?_⟩
  obtain ⟨s, hs, hstale⟩ := (Option.any_eq_true _ _).1
    (by decide : (Transition.run (step Encodable.encode) {} overlookedWrites).any
      (fun s => s.cache.slotImages.entries.any fun e => e.2.Clean ∧ e.2.Contains 0x1000104 ∧
        s.uploaded e.1 0x1000104 ≠ some (s.memory 0x1000104)) = true)
  obtain ⟨e, he, hbad⟩ := List.any_eq_true.1 hstale
  obtain ⟨hclean, hin, hne⟩ := of_decide_eq_true hbad
  exact ⟨s, hs, fun h => hne (h e he hclean _ hin)⟩

end TextureMemory

end OrbitConsole.VideoCore
