import OrbitConsole.Library.Transition
import OrbitConsole.VideoCore.TextureTracking

/-!
# Texture watchers balance

Every call on an image adds or removes the watchers of exactly the pages by
which its tracked range grows or shrinks. The two ends of the range only move
between the bounds of the image and the page boundaries next to them.
-/

namespace OrbitConsole.VideoCore

open WatchCall

/-! ### Ranges of pages -/

def span (lo hi i : ℕ) : ℤ :=
  if lo < hi ∧ lo < (i + 1) * pageSize ∧ i * pageSize < hi then 1 else 0

variable {lo mid hi i : ℕ}

theorem span_self : span lo lo i = 0 := by simp [span]

theorem span_add (hle : lo ≤ mid) (hle' : mid ≤ hi) (hmid : mid % pageSize = 0) :
    span lo hi i = span lo mid i + span mid hi i := by
  unfold span pageSize at *
  split_ifs <;> omega

theorem delta_pages (track : Bool) (hle : lo ≤ hi) (hempty : lo = hi → lo % pageSize = 0) :
    (pages track lo (hi - lo)).delta false i = if track then span lo hi i else -span lo hi i := by
  unfold WatchCall.delta span
  simp only [WatchCall.isRead, WatchCall.track, WatchCall.Selects, InBytes]
  unfold pageSize at *
  cases track <;> simp only [Bool.false_eq_true, if_false, if_true, true_and] <;>
    split_ifs <;> omega

theorem getPageAddr_mod (addr : ℕ) : getPageAddr addr % pageSize = 0 := by
  unfold getPageAddr alignDown pageSize
  omega

theorem getPageAddr_le (addr : ℕ) : getPageAddr addr ≤ addr := Nat.sub_le _ _

theorem getPageAddr_lt (addr : ℕ) : addr < getPageAddr addr + pageSize := by
  unfold getPageAddr alignDown pageSize
  omega

theorem getNextPageAddr_eq {addr : ℕ} (h : addr < 1099511627776) :
    getNextPageAddr addr = getPageAddr addr + pageSize := by
  unfold getNextPageAddr getPageAddr alignDown alignUp add64 pageSize
  simp only
  split <;> omega

/-! ### Images -/

namespace Image

def Watches (image : Image) (i : ℕ) : Prop :=
  image.trackAddr < image.trackAddrEnd ∧ image.trackAddr < (i + 1) * pageSize ∧
    i * pageSize < image.trackAddrEnd

instance (image : Image) : DecidablePred image.Watches :=
  fun _ => inferInstanceAs (Decidable (_ ∧ _))

def watch (i : ℕ) (image : Image) : ℤ := if image.Watches i then 1 else 0

theorem watch_eq (image : Image) : image.watch i = span image.trackAddr image.trackAddrEnd i := rfl

/-- An image lies in the address space of the GPU, and the ends of its tracked range are those
of the image or the page boundaries next to them. -/
structure Ok (image : Image) : Prop where
  address_pos : 0 < image.guestAddress
  size_pos : 0 < image.guestSize
  bounded : image.guestAddress + image.guestSize ≤ 1099511627776
  registered : image.registered = true
  tracked : (image.trackAddr = 0 ∧ image.trackAddrEnd = 0) ∨
    (image.trackAddr < image.trackAddrEnd ∧
      (image.trackAddr = image.guestAddress ∨
        image.trackAddr = getPageAddr image.guestAddress + pageSize) ∧
      (image.trackAddrEnd = image.guestAddress + image.guestSize ∨
        image.trackAddrEnd = getPageAddr (image.guestAddress + image.guestSize)))

theorem Ok.imageEnd_eq {image : Image} (h : image.Ok) :
    image.imageEnd = image.guestAddress + image.guestSize := by
  have := h.bounded
  exact add64_eq (by omega)

theorem Ok.isTracked_iff {image : Image} (h : image.Ok) :
    image.isTracked = true ↔ image.trackAddr < image.trackAddrEnd := by
  have hpos := h.address_pos
  have hle := getPageAddr_le image.guestAddress
  unfold isTracked
  rw [decide_eq_true_eq]
  rcases h.tracked with ⟨h0, h1⟩ | ⟨hlt, hb, -⟩
  · omega
  · have : pageSize = 4096 := rfl
    omega

end Image

structure TextureCache.Balanced (s : TextureCache) : Prop where
  watchers : ∀ i, outstanding s.calls false i = OrderedMap.weight (Image.watch i) s.slotImages
  images : ∀ {imageId image}, s.slotImages.get? imageId = some image → image.Ok

namespace TextureCache

variable {s s' : TextureCache} {imageId : ℕ} {image image' : Image} {calls : List WatchCall}

theorem outstanding_append_list (before after : List WatchCall) :
    outstanding (before ++ after) false i =
      outstanding before false i + outstanding after false i := by
  simp [outstanding]

theorem Balanced.moves (B : s.Balanced) (h : s.slotImages.get? imageId = some image)
    (hok : image'.Ok) (himages : s'.slotImages = s.slotImages.insert imageId image')
    (hcalls : s'.calls = s.calls ++ calls)
    (hdelta : ∀ i, outstanding calls false i = image'.watch i - image.watch i) : s'.Balanced where
  watchers i := by
    rw [hcalls, outstanding_append_list, B.watchers, himages, OrderedMap.weight_insert _ h, hdelta]
    omega
  images {x y} hx := by
    rw [himages, OrderedMap.get?_insert] at hx
    split at hx
    · exact Option.some.inj hx ▸ hok
    · exact B.images hx

theorem outstanding_single (call : WatchCall) :
    outstanding [call] false i = call.delta false i := by
  simp [outstanding]

theorem check_eq_ok {cond : Bool} {msg : String} {u : Unit} :
    check cond msg = .ok u ↔ cond = true := by
  unfold check
  split <;> simp_all

theorem image_eq_ok : s.image imageId = .ok image ↔ s.slotImages.get? imageId = some image := by
  unfold TextureCache.image
  cases s.slotImages.get? imageId <;> simp

theorem bind_eq_ok {α β : Type} {x : Except String α} {f : α → Except String β} {b : β} :
    x >>= f = .ok b ↔ ∃ a, x = .ok a ∧ f a = .ok b := by
  cases x with
  | error e => simp [bind, Except.bind]
  | ok a => simp [bind, Except.bind]

/-! ### The calls on one image -/

theorem Balanced.trackImageHead (B : s.Balanced) (h : s.trackImageHead imageId = .ok s') :
    s'.Balanced := by
  obtain ⟨image, himage, h⟩ := bind_eq_ok.1 h
  rw [image_eq_ok] at himage
  have hok := B.images himage
  have hbound := hok.bounded
  split_ifs at h with hreg heq
  · exact Except.ok.inj h ▸ B
  · exact Except.ok.inj h ▸ B
  · obtain ⟨u, hcheck, h⟩ := bind_eq_ok.1 h
    rw [check_eq_ok, decide_eq_true_eq] at hcheck
    obtain rfl := Except.ok.inj h
    rcases hok.tracked with ⟨h0, -⟩ | ⟨hlt, hb, he⟩
    · exact absurd h0 hcheck.1
    · have hstart := hb.resolve_left (Ne.symm heq)
      have hle := getPageAddr_le (image.guestAddress + image.guestSize)
      have hmod := getPageAddr_mod image.guestAddress
      refine B.moves himage ?_ rfl rfl fun i => ?_
      · exact ⟨hok.address_pos, hok.size_pos, hbound, hok.registered,
          .inr ⟨hcheck.2.trans hlt, .inl rfl, he⟩⟩
      rw [outstanding_single, sub64_eq hcheck.2.le (by omega),
        delta_pages true hcheck.2.le fun heq => absurd heq hcheck.2.ne, if_pos rfl,
        Image.watch_eq, Image.watch_eq]
      simp only
      rw [span_add hcheck.2.le hlt.le (by rw [hstart, Nat.add_mod_right, hmod])]
      omega

theorem Balanced.trackImageTail (B : s.Balanced) (h : s.trackImageTail imageId = .ok s') :
    s'.Balanced := by
  obtain ⟨image, himage, h⟩ := bind_eq_ok.1 h
  rw [image_eq_ok] at himage
  have hok := B.images himage
  have hbound := hok.bounded
  rw [hok.imageEnd_eq] at h
  split_ifs at h with hreg heq
  · exact Except.ok.inj h ▸ B
  · exact Except.ok.inj h ▸ B
  · obtain ⟨u, hcheck, h⟩ := bind_eq_ok.1 h
    rw [check_eq_ok, decide_eq_true_eq] at hcheck
    obtain rfl := Except.ok.inj h
    rcases hok.tracked with ⟨-, h0⟩ | ⟨hlt, hb, he⟩
    · exact absurd h0 hcheck.1
    · have hend := he.resolve_left (Ne.symm heq)
      have hmod := getPageAddr_mod (image.guestAddress + image.guestSize)
      refine B.moves himage ?_ rfl rfl fun i => ?_
      · exact ⟨hok.address_pos, hok.size_pos, hbound, hok.registered,
          .inr ⟨hlt.trans hcheck.2, hb, .inl rfl⟩⟩
      rw [outstanding_single, sub64_eq hcheck.2.le (by omega),
        delta_pages true hcheck.2.le fun heq => absurd heq hcheck.2.ne, if_pos rfl,
        Image.watch_eq, Image.watch_eq]
      simp only
      rw [span_add hlt.le hcheck.2.le (by rw [hend, hmod])]
      omega

theorem Balanced.trackImage (B : s.Balanced) (h : s.trackImage imageId = .ok s') :
    s'.Balanced := by
  obtain ⟨image, himage, h⟩ := bind_eq_ok.1 h
  rw [image_eq_ok] at himage
  have hok := B.images himage
  have hbound := hok.bounded
  have hsize := hok.size_pos
  split at h
  · exact Except.ok.inj h ▸ B
  split at h
  · exact Except.ok.inj h ▸ B
  split at h
  · next htracked =>
      obtain rfl := Except.ok.inj h
      rw [Bool.not_eq_true', ← Bool.not_eq_true, hok.isTracked_iff] at htracked
      obtain ⟨h0, h0'⟩ := hok.tracked.resolve_right fun hr => htracked hr.1
      rw [hok.imageEnd_eq]
      refine B.moves himage ?_ rfl rfl fun i => ?_
      · exact ⟨hok.address_pos, hsize, hbound, hok.registered,
          .inr ⟨Nat.lt_add_of_pos_right hsize, .inl rfl, .inl rfl⟩⟩
      have hsub : image.guestSize = image.guestAddress + image.guestSize - image.guestAddress := by
        omega
      rw [outstanding_single, hsub, delta_pages true (Nat.le_add_right _ _) (by omega), if_pos rfl,
        Image.watch_eq, Image.watch_eq]
      simp only [h0, h0', span_self, sub_zero, Nat.add_sub_cancel_left]
  · obtain ⟨s₁, hs₁, h⟩ := bind_eq_ok.1 h
    have B₁ : s₁.Balanced := by
      split at hs₁
      · exact B.trackImageHead hs₁
      · exact Except.ok.inj hs₁ ▸ B
    split at h
    · exact B₁.trackImageTail h
    · exact Except.ok.inj h ▸ B₁

theorem untrackImage_eq (h : s.slotImages.get? imageId = some image) :
    s.untrackImage imageId = .ok (if !image.isTracked then s
      else if sub64 image.trackAddrEnd image.trackAddr ≠ 0 then
        (s.setImage imageId { image with trackAddr := 0, trackAddrEnd := 0 }).updatePageWatchers
          false image.trackAddr (sub64 image.trackAddrEnd image.trackAddr)
      else s.setImage imageId { image with trackAddr := 0, trackAddrEnd := 0 }) := by
  simp only [TextureCache.untrackImage, TextureCache.image, h, bind, Except.bind]
  split <;> rfl

theorem Balanced.untrack (B : s.Balanced) (h : s.slotImages.get? imageId = some image)
    (hother : image'.guestAddress = image.guestAddress ∧ image'.guestSize = image.guestSize ∧
      image'.registered = image.registered ∧ image'.trackAddr = image.trackAddr ∧
      image'.trackAddrEnd = image.trackAddrEnd)
    (hs' : (s.setImage imageId image').untrackImage imageId = .ok s') : s'.Balanced := by
  have hok := B.images h
  have hbound := hok.bounded
  obtain ⟨haddr, hsize, hreg, hstart, hend⟩ := hother
  have hok' : image'.Ok := by
    refine ⟨haddr ▸ hok.address_pos, hsize ▸ hok.size_pos, ?_, hreg ▸ hok.registered, ?_⟩
    · rw [haddr, hsize]
      exact hbound
    · rw [haddr, hsize, hstart, hend]
      exact hok.tracked
  have hget : (s.setImage imageId image').slotImages.get? imageId = some image' := by
    simp [setImage]
  rw [untrackImage_eq hget] at hs'
  obtain rfl := Except.ok.inj hs'
  split
  · refine B.moves h hok' rfl (List.append_nil _).symm fun i => ?_
    rw [Image.watch_eq, Image.watch_eq, hstart, hend]
    simp [outstanding]
  · next htracked =>
      rw [Bool.not_eq_true', Bool.not_eq_false, hok'.isTracked_iff] at htracked
      rcases hok'.tracked with ⟨h0, h1⟩ | ⟨hlt, -, he⟩
      · omega
      · have hle := getPageAddr_le (image'.guestAddress + image'.guestSize)
        have hbound' := hok'.bounded
        rw [sub64_eq hlt.le (by omega), if_pos (by omega)]
        refine B.moves h ?_ (OrderedMap.insert_insert _ _ _ _) rfl fun i => ?_
        · exact ⟨hok'.address_pos, hok'.size_pos, hbound', hok'.registered, .inl ⟨rfl, rfl⟩⟩
        · rw [outstanding_single, delta_pages false hlt.le fun heq => absurd heq hlt.ne,
            Image.watch_eq, Image.watch_eq, ← hstart, ← hend]
          simp [span_self]

theorem Balanced.untrackImage (B : s.Balanced) (h : s.untrackImage imageId = .ok s') :
    s'.Balanced := by
  obtain ⟨image, himage, -⟩ := bind_eq_ok.1 h
  rw [image_eq_ok] at himage
  have hself : s.setImage imageId image = s := by
    have heq : s.slotImages.insert imageId image = s.slotImages := by
      refine OrderedMap.ext_get? fun x => ?_
      rw [OrderedMap.get?_insert]
      split
      · next hx => rw [hx, himage]
      · rfl
    rw [setImage, heq]
  exact B.untrack himage ⟨rfl, rfl, rfl, rfl, rfl⟩ (hself.symm ▸ h)

theorem Balanced.markAsMaybeDirty {contents : ℕ → ℕ → ℕ} (B : s.Balanced)
    (h : s.markAsMaybeDirty contents imageId = .ok s') : s'.Balanced := by
  obtain ⟨image, himage, h⟩ := bind_eq_ok.1 h
  rw [image_eq_ok] at himage
  refine B.untrack himage ?_ h
  exact ⟨rfl, rfl, rfl, rfl, rfl⟩

theorem setImage_setImage (s : TextureCache) (imageId : ℕ) (a b : Image) :
    (s.setImage imageId a).setImage imageId b = s.setImage imageId b := by
  simp only [setImage, OrderedMap.insert_insert]

theorem markAsMaybeDirty_of_empty (contents : ℕ → ℕ → ℕ)
    (h : s.slotImages.get? imageId = some image) (hne : image.trackAddr ≠ 0)
    (hempty : image.trackAddr = image.trackAddrEnd) (hlt : image.trackAddr < 18446744073709551616) :
    ∃ hash, s.markAsMaybeDirty contents imageId = .ok (s.setImage imageId
      { image with hash := hash, maybeCpuDirty := true, trackAddr := 0, trackAddrEnd := 0 }) := by
  refine ⟨if image.hash = 0 then contents image.guestAddress image.guestSize else image.hash, ?_⟩
  rw [TextureCache.markAsMaybeDirty, image_eq_ok.2 h]
  simp only [bind, Except.bind]
  have hget (a : Image) : (s.setImage imageId a).slotImages.get? imageId = some a := by
    simp [setImage]
  rw [untrackImage_eq (hget _)]
  simp only [Image.isTracked, hne, ne_eq, not_false_eq_true, and_self, decide_true,
    Bool.not_true, Bool.false_eq_true, if_false, ← hempty, sub64_eq le_rfl hlt, Nat.sub_self,
    not_true_eq_false, setImage_setImage]

theorem Balanced.untrackImageHead {contents : ℕ → ℕ → ℕ} (B : s.Balanced)
    (hcut : ∀ image, s.slotImages.get? imageId = some image →
      getNextPageAddr image.guestAddress ≤ image.imageEnd)
    (h : s.untrackImageHead contents imageId = .ok s') : s'.Balanced := by
  obtain ⟨image, himage, h⟩ := bind_eq_ok.1 h
  rw [image_eq_ok] at himage
  have hok := B.images himage
  have hbound := hok.bounded
  have hcut := hcut image himage
  have hnext := getNextPageAddr_eq (show image.guestAddress < 1099511627776 by
    have := hok.size_pos
    omega)
  have hlt := getPageAddr_lt image.guestAddress
  have hmod := getPageAddr_mod image.guestAddress
  rw [hok.imageEnd_eq, hnext] at hcut
  simp only [hnext] at h
  split at h
  · exact Except.ok.inj h ▸ B
  next hguard =>
  rw [not_or, Bool.not_eq_true', Bool.not_eq_false, hok.isTracked_iff] at hguard
  rcases hok.tracked with ⟨h0, h1⟩ | ⟨-, hb, he⟩
  · omega
  have hstart := hb.resolve_right (by omega)
  -- the boundary lies in the image, so it does not lie behind the tracked range
  have hle : getPageAddr image.guestAddress + pageSize ≤ image.trackAddrEnd := by
    rcases he with he | he
    · omega
    · rw [he]
      have := getPageAddr_mod (image.guestAddress + image.guestSize)
      have := getPageAddr_lt (image.guestAddress + image.guestSize)
      unfold pageSize at *
      omega
  have hle' : image.trackAddrEnd ≤ image.guestAddress + image.guestSize := by
    have := getPageAddr_le (image.guestAddress + image.guestSize)
    omega
  rw [sub64_eq hlt.le (by omega)] at h
  obtain ⟨s₁, hs₁, h⟩ := bind_eq_ok.1 h
  obtain rfl := Except.ok.inj h
  have hget (a : Image) : (s.setImage imageId a).slotImages.get? imageId = some a := by
    simp [setImage]
  split at hs₁
  · next heq =>
      obtain ⟨hash, hmark⟩ := markAsMaybeDirty_of_empty contents (hget
        { image with trackAddr := getPageAddr image.guestAddress + pageSize })
        (by simp only; omega) heq (by simp only; omega)
      rw [hmark] at hs₁
      obtain rfl := Except.ok.inj hs₁
      refine B.moves himage ?_ (OrderedMap.insert_insert _ _ _ _) rfl fun i => ?_
      · exact ⟨hok.address_pos, hok.size_pos, hbound, hok.registered, .inl ⟨rfl, rfl⟩⟩
      · rw [outstanding_single, delta_pages false hlt.le fun heq => absurd heq hlt.ne,
          Image.watch_eq, Image.watch_eq, hstart, heq]
        simp [span_self]
  · next hne =>
      obtain rfl := Except.ok.inj hs₁
      refine B.moves himage ?_ rfl rfl fun i => ?_
      · exact ⟨hok.address_pos, hok.size_pos, hbound, hok.registered,
          .inr ⟨by simp only; omega, .inr rfl, he⟩⟩
      · rw [outstanding_single, delta_pages false hlt.le fun heq => absurd heq hlt.ne,
          Image.watch_eq, Image.watch_eq, hstart]
        simp only [Bool.false_eq_true, if_false]
        rw [span_add hlt.le hle (by rw [Nat.add_mod_right, hmod])]
        omega

theorem Balanced.untrackImageTail {contents : ℕ → ℕ → ℕ} (B : s.Balanced)
    (hcut : ∀ image, s.slotImages.get? imageId = some image →
      image.guestAddress ≤ getPageAddr image.imageEnd)
    (h : s.untrackImageTail contents imageId = .ok s') : s'.Balanced := by
  obtain ⟨image, himage, h⟩ := bind_eq_ok.1 h
  rw [image_eq_ok] at himage
  have hok := B.images himage
  have hbound := hok.bounded
  have hcut := hcut image himage
  have hle := getPageAddr_le (image.guestAddress + image.guestSize)
  have hmod := getPageAddr_mod (image.guestAddress + image.guestSize)
  have hpos := hok.address_pos
  rw [hok.imageEnd_eq] at hcut h
  simp only at h
  split at h
  · exact Except.ok.inj h ▸ B
  next hguard =>
  rw [not_or, Bool.not_eq_true', Bool.not_eq_false, hok.isTracked_iff] at hguard
  obtain ⟨u, hcheck, h⟩ := bind_eq_ok.1 h
  rcases hok.tracked with ⟨h0, h1⟩ | ⟨htracked, hb, he⟩
  · omega
  have hend : image.trackAddrEnd = image.guestAddress + image.guestSize := by
    rcases he with he | he <;> omega
  -- the boundary lies in the image, so it does not lie in front of the tracked range
  have hle' : image.trackAddr ≤ getPageAddr (image.guestAddress + image.guestSize) := by
    rcases hb with hb | hb
    · omega
    · rw [hb]
      have := getPageAddr_mod image.guestAddress
      have := getPageAddr_lt (image.guestAddress + image.guestSize)
      unfold pageSize at *
      omega
  have hnonzero : image.trackAddr ≠ 0 := by
    have := getPageAddr_lt image.guestAddress
    omega
  rw [sub64_eq hle (by omega)] at h
  obtain ⟨s₁, hs₁, h⟩ := bind_eq_ok.1 h
  obtain rfl := Except.ok.inj h
  have hget (a : Image) : (s.setImage imageId a).slotImages.get? imageId = some a := by
    simp [setImage]
  split at hs₁
  · next heq =>
      obtain ⟨hash, hmark⟩ := markAsMaybeDirty_of_empty contents (hget
        { image with trackAddrEnd := getPageAddr (image.guestAddress + image.guestSize) })
        hnonzero heq (by simp only; omega)
      rw [hmark] at hs₁
      obtain rfl := Except.ok.inj hs₁
      refine B.moves himage ?_ (OrderedMap.insert_insert _ _ _ _) rfl fun i => ?_
      · exact ⟨hok.address_pos, hok.size_pos, hbound, hok.registered, .inl ⟨rfl, rfl⟩⟩
      · rw [outstanding_single, delta_pages false hle fun _ => hmod,
          Image.watch_eq, Image.watch_eq, hend, heq]
        simp [span_self]
  · next hne =>
      obtain rfl := Except.ok.inj hs₁
      refine B.moves himage ?_ rfl rfl fun i => ?_
      · exact ⟨hok.address_pos, hok.size_pos, hbound, hok.registered,
          .inr ⟨by simp only; omega, hb, .inr rfl⟩⟩
      · rw [outstanding_single, delta_pages false hle fun _ => hmod,
          Image.watch_eq, Image.watch_eq, hend]
        simp only [Bool.false_eq_true, if_false]
        rw [span_add hle' hle hmod]
        omega

/-! ### Registration -/

theorem Balanced.registerImage {addr size : ℕ} (B : s.Balanced) (haddr : 0 < addr)
    (hsize : 0 < size) (hbound : addr + size ≤ 1099511627776)
    (h : s.registerImage imageId addr size = .ok s') : s'.Balanced := by
  unfold TextureCache.registerImage at h
  split at h
  · cases h
  · next hfree =>
      rw [Option.isSome_iff_ne_none, ne_eq, not_not] at hfree
      obtain rfl := Except.ok.inj h
      refine ⟨fun i => ?_, fun {x y} hx => ?_⟩
      · simp only [setImage]
        rw [OrderedMap.weight_insert_new _ hfree, ← B.watchers, Image.watch_eq]
        simp [span_self]
      · simp only [setImage, OrderedMap.get?_insert] at hx
        split at hx
        · obtain rfl := Option.some.inj hx
          exact ⟨haddr, hsize, hbound, rfl, .inl ⟨rfl, rfl⟩⟩
        · exact B.images hx

theorem untrackImage_erase (h : s.untrackImage imageId = .ok s') :
    s'.slotImages.erase imageId = s.slotImages.erase imageId := by
  obtain ⟨image, himage, -⟩ := bind_eq_ok.1 h
  rw [untrackImage_eq (image_eq_ok.1 himage)] at h
  obtain rfl := Except.ok.inj h
  split
  · rfl
  · split <;> exact OrderedMap.erase_insert _ _ _

theorem Balanced.freeImage (B : s.Balanced) (h : s.freeImage imageId = .ok s') :
    s'.slotImages = s.slotImages.erase imageId ∧ s'.Balanced := by
  obtain ⟨s₁, hs₁, h⟩ := bind_eq_ok.1 h
  have B₁ := B.untrackImage hs₁
  obtain ⟨image, himage, h⟩ := bind_eq_ok.1 h
  obtain ⟨_, -, h⟩ := bind_eq_ok.1 h
  obtain ⟨_, -, h⟩ := bind_eq_ok.1 h
  obtain ⟨_, huntracked, h⟩ := bind_eq_ok.1 h
  rw [image_eq_ok] at himage
  have hok := B₁.images himage
  rw [check_eq_ok, Bool.not_eq_true', ← Bool.not_eq_true, hok.isTracked_iff] at huntracked
  obtain rfl := Except.ok.inj h
  refine ⟨untrackImage_erase hs₁, fun i => ?_, fun {x y} hx => ?_⟩
  · have hnone : image.watch i = 0 := if_neg fun hw => huntracked hw.1
    have hweight := OrderedMap.weight_erase (Image.watch i) himage
    rw [hnone, add_zero] at hweight
    exact (B₁.watchers i).trans hweight.symm
  · simp only [OrderedMap.get?_erase] at hx
    split at hx
    · cases hx
    · exact B₁.images hx

/-! ### Invalidation -/

theorem getNextPageAddr_mod (addr : ℕ) : getNextPageAddr addr % pageSize = 0 := by
  unfold getNextPageAddr alignUp add64 pageSize
  simp only
  split <;> omega

theorem getNextPageAddr_lt (addr : ℕ) : getNextPageAddr addr < 18446744073709551616 := by
  unfold getNextPageAddr alignUp add64 pageSize
  simp only
  split <;> omega

theorem Balanced.invalidateImage {contents : ℕ → ℕ → ℕ} {addr size pagesStart pagesEnd : ℕ}
    (B : s.Balanced) (hstart : pagesStart % pageSize = 0) (hend : pagesEnd % pageSize = 0)
    (hin : ∀ image, s.slotImages.get? imageId = some image →
      image.guestAddress < pagesEnd ∧ pagesStart < image.imageEnd)
    (h : invalidateImage contents addr size pagesStart pagesEnd imageId s = .ok s') :
    s'.Balanced := by
  obtain ⟨image, himage, h⟩ := bind_eq_ok.1 h
  rw [image_eq_ok] at himage
  obtain ⟨hbegin, hlast⟩ := hin image himage
  have hok := B.images himage
  have hbound := hok.bounded
  have hsize := hok.size_pos
  split at h
  · refine B.untrack himage ?_ h
    exact ⟨rfl, rfl, rfl, rfl, rfl⟩
  split at h
  · next hhead =>
      refine B.untrackImageHead (fun image' himage' => ?_) h
      obtain rfl := Option.some.inj (himage.symm.trans himage')
      rw [getNextPageAddr_eq (by omega)]
      have := getPageAddr_mod image.guestAddress
      have := getPageAddr_le image.guestAddress
      unfold pageSize at *
      omega
  split at h
  · next htail =>
      refine B.untrackImageTail (fun image' himage' => ?_) h
      obtain rfl := Option.some.inj (himage.symm.trans himage')
      have := getPageAddr_mod image.imageEnd
      have := getPageAddr_lt image.imageEnd
      unfold pageSize at *
      omega
  · exact B.markAsMaybeDirty h

theorem Balanced.forEachImage {func : ℕ → TextureCache → Except String TextureCache}
    {cpuAddr size : ℕ}
    (hfunc : ∀ imageId s s', s.Balanced →
      (∀ image, s.slotImages.get? imageId = some image → image.overlaps cpuAddr size = true) →
      func imageId s = .ok s' → s'.Balanced)
    (l picked : List ℕ) (B : s.Balanced) (h : forEachImage func cpuAddr size l picked s = .ok s') :
    s'.Balanced := by
  induction l generalizing picked s with
  | nil => exact Except.ok.inj h ▸ B
  | cons imageId l ih =>
      obtain ⟨image, himage, h⟩ := bind_eq_ok.1 h
      rw [image_eq_ok] at himage
      split at h
      · exact ih picked B h
      · next hover =>
          rw [not_or, Bool.not_eq_true', Bool.not_eq_false] at hover
          obtain ⟨s₁, hs₁, h⟩ := bind_eq_ok.1 h
          refine ih _ (hfunc imageId s s₁ B (fun image' himage' => ?_) hs₁) h
          obtain rfl := Option.some.inj (himage.symm.trans himage')
          exact hover.2

theorem Balanced.invalidateMemory {contents : ℕ → ℕ → ℕ} {addr size : ℕ} (B : s.Balanced)
    (haddr : addr < 18446744073709551616)
    (h : s.invalidateMemory contents addr size = .ok s') : s'.Balanced := by
  refine B.forEachImage (fun imageId s s' B hover h => ?_) _ _ h
  refine B.invalidateImage (getPageAddr_mod addr) (getNextPageAddr_mod _) (fun image himage => ?_) h
  have hover := hover image himage
  have hstart := (getPageAddr_le addr).trans_lt haddr
  have hend := getNextPageAddr_lt (sub64 (add64 addr size) 1)
  have hregion : add64 (getPageAddr addr)
      (sub64 (getNextPageAddr (sub64 (add64 addr size) 1)) (getPageAddr addr)) =
        getNextPageAddr (sub64 (add64 addr size) 1) := by
    generalize getNextPageAddr (sub64 (add64 addr size) 1) = pagesEnd at *
    unfold add64 sub64
    omega
  rw [Image.overlaps, decide_eq_true_eq, hregion] at hover
  exact hover

/-! ### Runs -/

/-- What the callers keep to: an image has an address and a size and lies in the address space
of the GPU, and only a page boundary inside the image is made an end of its tracked range. -/
def Admitted (s : TextureCache) : Call → Prop
  | .registerImage _ addr size =>
      0 < addr.toNat ∧ 0 < size.toNat ∧ addr.toNat + size.toNat ≤ 1099511627776
  | .untrackImageHead _ imageId => ∀ image, s.slotImages.get? imageId = some image →
      getNextPageAddr image.guestAddress ≤ image.imageEnd
  | .untrackImageTail _ imageId => ∀ image, s.slotImages.get? imageId = some image →
      image.guestAddress ≤ getPageAddr image.imageEnd
  | _ => True

theorem toOption_eq_some {α : Type} {x : Except String α} {a : α} (h : x.toOption = some a) :
    x = .ok a := by
  cases x with
  | error e => cases h
  | ok b => exact congrArg _ (Option.some.inj h)

/-- A call watches the pages that its image tracks afterwards, and no longer the others. -/
theorem Balanced.exec {call : Call} (B : s.Balanced) (hcall : Admitted s call)
    (h : s.exec call = some s') : s'.Balanced := by
  cases call with
  | registerImage imageId addr size =>
      exact B.registerImage hcall.1 hcall.2.1 hcall.2.2 (toOption_eq_some h)
  | freeImage imageId => exact (B.freeImage (toOption_eq_some h)).2
  | trackImage imageId => exact B.trackImage (toOption_eq_some h)
  | trackImageHead imageId => exact B.trackImageHead (toOption_eq_some h)
  | trackImageTail imageId => exact B.trackImageTail (toOption_eq_some h)
  | untrackImage imageId => exact B.untrackImage (toOption_eq_some h)
  | untrackImageHead contents imageId => exact B.untrackImageHead hcall (toOption_eq_some h)
  | untrackImageTail contents imageId => exact B.untrackImageTail hcall (toOption_eq_some h)
  | invalidateMemory contents addr size =>
      exact B.invalidateMemory addr.toNat_lt (toOption_eq_some h)

/-- By induction on the calls. -/
theorem balanced_of_reachable (h : Transition.Reachable exec Admitted {} s) : s.Balanced :=
  h.invariant ⟨fun _ => rfl, fun h => (by cases h)⟩ fun _ _ _ B hcall hs => B.exec hcall hs

/-- In every state of every run the watchers the cache has on a page are the live images whose
tracked range intersects it, tracked ranges lie in the pages of their images, and a freed image
leaves the watchers of the others. -/
theorem watchers_balance (h : Transition.Reachable exec Admitted {} s) :
    (∀ i, outstanding s.calls false i = (s.slotImages.entries.countP fun e => e.2.Watches i : ℕ)) ∧
      (∀ imageId image, s.slotImages.get? imageId = some image →
        image.trackAddr < image.trackAddrEnd →
          getPageAddr image.guestAddress ≤ image.trackAddr ∧
            image.trackAddrEnd ≤ divCeil image.imageEnd pageSize * pageSize) ∧
      ∀ imageId s', s.freeImage imageId = .ok s' → ∀ i, outstanding s'.calls false i =
        ((s.slotImages.erase imageId).entries.countP fun e => e.2.Watches i : ℕ) := by
  have B := balanced_of_reachable h
  have hcount (i : ℕ) (m : OrderedMap ℕ Image) :
      OrderedMap.weight (Image.watch i) m = (m.entries.countP fun e => e.2.Watches i : ℕ) :=
    OrderedMap.weight_ite (fun image : Image => image.Watches i) m
  refine ⟨fun i => by rw [B.watchers, hcount], fun imageId image himage hlt => ?_,
    fun imageId s' hfree i => ?_⟩
  · have hok := B.images himage
    have hle := getPageAddr_le image.guestAddress
    have hle' := getPageAddr_le (image.guestAddress + image.guestSize)
    rw [hok.imageEnd_eq]
    rcases hok.tracked with ⟨h0, h1⟩ | ⟨-, hb, he⟩
    · omega
    · unfold divCeil pageSize at *
      omega
  · obtain ⟨hslots, B'⟩ := B.freeImage hfree
    rw [B'.watchers, hslots, hcount]

def sharedPageCalls : List Call :=
  [.registerImage 0 0x1000100 0x100, .registerImage 1 0x1000200 0x2000, .trackImage 0,
    .trackImage 1, .invalidateMemory (fun _ _ => 1) 0x1000800 4]

instance : ∀ s call, Decidable (Admitted s call) := fun s call => match call with
  | .registerImage _ _ _ => inferInstanceAs (Decidable (_ ∧ _))
  | .untrackImageHead _ imageId => decidable_of_iff
      (∀ image ∈ s.slotImages.get? imageId, getNextPageAddr image.guestAddress ≤ image.imageEnd)
      Iff.rfl
  | .untrackImageTail _ imageId => decidable_of_iff
      (∀ image ∈ s.slotImages.get? imageId, image.guestAddress ≤ getPageAddr image.imageEnd)
      Iff.rfl
  | .freeImage _ | .trackImage _ | .trackImageHead _ | .trackImageTail _ | .untrackImage _
  | .invalidateMemory _ _ _ => isTrue True.intro

theorem watchers_balance_sample : ∃ s,
    Transition.runChecked exec Admitted {} sharedPageCalls = some s ∧
      outstanding s.calls false 0x1001 =
        (s.slotImages.entries.countP fun e => e.2.Watches 0x1001 : ℕ) := by
  obtain ⟨s, hs⟩ := Option.isSome_iff_exists.1
    (by decide : (Transition.runChecked exec Admitted {} sharedPageCalls).isSome = true)
  exact ⟨s, hs, (watchers_balance (Transition.reachable_of_runChecked hs)).1 0x1001⟩

def headAndTailCalls : List Call :=
  [.registerImage 0 0x1000100 0x100, .registerImage 1 0x1000200 0x100, .trackImage 0,
    .trackImage 1, .untrackImageHead (fun _ _ => 1) 0, .untrackImageTail (fun _ _ => 1) 0]

/-- The page loses the watcher of the other image too. -/
theorem watchers_balance_fails : ∃ s, Transition.run exec {} headAndTailCalls = some s ∧
    outstanding s.calls false 0x1000 ≠
      (s.slotImages.entries.countP fun e => e.2.Watches 0x1000 : ℕ) := by
  obtain ⟨s, hs, hne⟩ := (Option.any_eq_true _ _).1
    (by decide : (Transition.run exec {} headAndTailCalls).any (fun s =>
      outstanding s.calls false 0x1000 ≠
        (s.slotImages.entries.countP fun e => e.2.Watches 0x1000 : ℕ)) = true)
  exact ⟨s, hs, by simpa using hne⟩

end TextureCache

end OrbitConsole.VideoCore
