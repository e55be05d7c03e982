import OrbitConsole.VideoCore.ImageInfoSpec
import OrbitConsole.VideoCore.ImageLookup

/-!
# What the lookup of images finds

As long as no overlap is located as a subresource, the image found so far starts where the
request does. A location only reaches the view if it is that of the last overlap. Each overlap
that can be resolved is, and then the lookup returns.
-/

namespace OrbitConsole.VideoCore

open Function (update_of_ne update_self)

namespace ImageCache

variable {env : LookupEnv} {c c' : ImageCache} {info : CachedInfo} {binding : BindingType}
  {id cache_id : ℕ} {merged_id : Option ℕ} {res : Resolved}

structure Wf (c : ImageCache) : Prop where
  nodup : c.freed.Nodup
  freed : ∀ id ∈ c.freed, c.registered id = false ∧ id < c.next

/-- What an overlap may change: its image may be freed, and images may be added. -/
structure Step (c c' : ImageCache) (cache_id : ℕ) : Prop where
  wf : Wf c → Wf c'
  next : c.next ≤ c'.next
  info : ∀ id < c.next, (c'.image id).info = (c.image id).info
  kept : ∀ id < c.next, id ≠ cache_id → c'.registered id = c.registered id

theorem Step.refl (c : ImageCache) (cache_id : ℕ) : Step c c cache_id :=
  ⟨id, Nat.le_refl _, fun _ _ => rfl, fun _ _ _ => rfl⟩

theorem freeImage_step (hid : id < c.next) (h : c.freeImage id = .ok c') : Step c c' id := by
  unfold freeImage at h
  split at h
  · rename_i hregistered
    cases h
    refine ⟨fun hwf => ⟨?_, ?_⟩, Nat.le_refl _, fun _ _ => rfl, fun k _ hk =>
      update_of_ne hk _ _⟩
    · refine List.nodup_cons.2 ⟨fun hmem => ?_, hwf.nodup⟩
      rw [(hwf.freed id hmem).1] at hregistered
      cases hregistered
    · intro k hk
      by_cases hkid : k = id
      · subst hkid
        exact ⟨update_self _ _ _, hid⟩
      · dsimp only
        rw [update_of_ne hkid]
        exact hwf.freed k ((List.mem_cons.1 hk).resolve_left hkid)
  · cases h

theorem freeIf_step {b : Bool} (hid : id < c.next) (h : c.freeIf b id = .ok c') :
    Step c c' id := by
  unfold freeIf at h
  split at h
  · exact freeImage_step hid h
  · cases h
    exact Step.refl c id

theorem insert_wf (hwf : Wf c) : Wf (c.insert info) := by
  refine ⟨hwf.nodup, fun k hk => ?_⟩
  obtain ⟨hunregistered, hlt⟩ := hwf.freed k hk
  refine ⟨?_, hlt.trans (Nat.lt_succ_self _)⟩
  exact (update_of_ne hlt.ne _ _).trans hunregistered

theorem insert_freeImage (hid : id < c.next) (h : (c.insert info).freeImage id = .ok c') :
    Step c c' id ∧ c.next < c'.next ∧ c'.registered c.next = true ∧
      (c'.image c.next).info = info := by
  have hstep := freeImage_step (c := c.insert info) (hid.trans (Nat.lt_succ_self _)) h
  have himage : ((c.insert info).image c.next).info = info := by
    simp only [insert, update_self]
  have hregistered : (c.insert info).registered c.next = true := update_self _ _ _
  refine ⟨⟨fun hwf => hstep.wf (insert_wf hwf), (Nat.le_succ _).trans hstep.next,
    fun k hk => ?_, fun k hk hne => ?_⟩, hstep.next, ?_, ?_⟩
  · rw [hstep.info k (hk.trans (Nat.lt_succ_self _))]
    simp only [insert, update_of_ne hk.ne]
  · rw [hstep.kept k (hk.trans (Nat.lt_succ_self _)) hne]
    exact update_of_ne hk.ne _ _
  · rw [hstep.kept c.next (Nat.lt_succ_self _) hid.ne', hregistered]
  · rw [hstep.info c.next (Nat.lt_succ_self _), himage]

/-- The image that an overlap is resolved to: the one there was, that of the overlap or a new
one, where the last two start at the address that is looked up. -/
def Found (c : ImageCache) (info : CachedInfo) (cache_id : ℕ) (merged_id : Option ℕ)
    (c' : ImageCache) (id : ℕ) : Prop :=
  merged_id = some id ∨
    c'.registered id = true ∧ id < c'.next ∧ (id = cache_id ∨ c.next ≤ id) ∧
      (c'.image id).info.guest_address = info.guest_address

/-- An overlap that is not located as a subresource. -/
structure Unlocated (c : ImageCache) (info : CachedInfo) (cache_id : ℕ) (merged_id : Option ℕ)
    (res : Resolved) : Prop where
  step : Step c res.cache cache_id
  found : ∀ id, res.image_id = some id → Found c info cache_id merged_id res.cache id
  view : res.view_mip = -1 ∧ res.view_slice = -1

theorem unlocated_merged (hstep : Step c c' cache_id) :
    Unlocated c info cache_id merged_id { cache := c', image_id := merged_id } :=
  ⟨hstep, fun _ h => .inl h, rfl, rfl⟩

theorem unlocated_expand {r : ImageCache × ℕ} (hid : cache_id < c.next)
    (h : c.expandImage info cache_id = .ok r) :
    Unlocated c info cache_id merged_id { cache := r.1, image_id := some r.2 } := by
  unfold expandImage at h
  obtain ⟨freed, hfreed, h⟩ := Exec.bind_eq_ok.1 h
  cases h
  obtain ⟨hstep, hnext, hregistered, himage⟩ := insert_freeImage hid hfreed
  refine ⟨hstep, fun k hk => ?_, rfl, rfl⟩
  cases hk
  exact .inr ⟨hregistered, hnext, .inr (Nat.le_refl _), by rw [himage]⟩

theorem resolveDepthOverlap_eq_ok (merged_id : Option ℕ) {r : ImageCache × Option ℕ}
    (hid : cache_id < c.next)
    (hregistered : c.registered cache_id = true)
    (haddress : info.guest_address = (c.image cache_id).info.guest_address)
    (h : c.resolveDepthOverlap info binding cache_id = .ok r) :
    r = (c, none) ∨ r.2 ≠ none ∧
      Unlocated c info cache_id merged_id { cache := r.1, image_id := r.2 } := by
  unfold resolveDepthOverlap at h
  dsimp only at h
  split at h
  · cases h
    exact .inl rfl
  obtain ⟨recreate, -, h⟩ := Exec.bind_eq_ok.1 h
  split at h
  · obtain ⟨freed, hfreed, h⟩ := Exec.bind_eq_ok.1 h
    cases h
    obtain ⟨hstep, hnext, hnew, himage⟩ := insert_freeImage hid hfreed
    refine .inr ⟨nofun, hstep, fun k hk => ?_, rfl, rfl⟩
    cases hk
    exact .inr ⟨hnew, hnext, .inr (Nat.le_refl _), by rw [himage]⟩
  · cases h
    refine .inr ⟨nofun, Step.refl c cache_id, fun k hk => ?_, rfl, rfl⟩
    cases hk
    exact .inr ⟨hregistered, hid, .inl rfl, haddress.symm⟩

theorem resolveEqual_eq_ok {safe_to_delete : Bool} (hid : cache_id < c.next)
    (hregistered : c.registered cache_id = true)
    (haddress : info.guest_address = (c.image cache_id).info.guest_address)
    (h : resolveEqual env c info binding cache_id merged_id safe_to_delete = .ok res) :
    Unlocated c info cache_id merged_id res := by
  have hexpand : ∀ {res : Resolved}, (do
      let expanded ← c.expandImage info cache_id
      return ({ cache := expanded.1, image_id := some expanded.2 } : Resolved)) = .ok res →
      Unlocated c info cache_id merged_id res := fun h => by
    obtain ⟨r, hr, h⟩ := Exec.bind_eq_ok.1 h
    cases h
    exact unlocated_expand hid hr
  have hfree : ∀ {res : Resolved}, (do
      let c ← c.freeIf safe_to_delete cache_id
      return ({ cache := c, image_id := merged_id } : Resolved)) = .ok res →
      Unlocated c info cache_id merged_id res := fun h => by
    obtain ⟨freed, hfreed, h⟩ := Exec.bind_eq_ok.1 h
    cases h
    exact unlocated_merged (freeIf_step hid hfreed)
  unfold resolveEqual at h
  dsimp only at h
  split at h
  · exact hfree h
  obtain ⟨⟨c₁, depth_id⟩, hdepth, h⟩ := Exec.bind_eq_ok.1 h
  dsimp only at h
  obtain hnone | ⟨hsome, hdone⟩ :=
    resolveDepthOverlap_eq_ok merged_id hid hregistered haddress hdepth
  · cases hnone
    rw [if_neg (not_not.2 rfl)] at h
    split at h
    · exact hexpand h
    split at h
    · exact hexpand h
    split at h
    · cases h
      refine ⟨Step.refl c cache_id, fun k hk => ?_, rfl, rfl⟩
      dsimp only at hk
      split at hk
      · cases hk
        cases merged_id with
        | some k => exact .inl rfl
        | none => exact .inr ⟨hregistered, hid, .inl rfl, haddress.symm⟩
      · cases hk
    split at h
    · exact hexpand h
    split at h
    · exact hfree h
    · cases h
  · rw [if_pos hsome] at h
    cases h
    exact hdone

theorem freeImage_flags {image : ℕ → CachedImage} (hid : id < c.next)
    (himage : ∀ k, (image k).info = (c.image k).info)
    (h : freeImage { c with image := image } id = .ok c') : Step c c' id := by
  have hstep := freeImage_step (c := { c with image := image }) hid h
  exact ⟨fun hwf => hstep.wf ⟨hwf.nodup, hwf.freed⟩, hstep.next,
    fun k hk => (hstep.info k hk).trans (himage k), hstep.kept⟩

theorem resolveLeft_step (hid : cache_id < c.next) (h : c.resolveLeft cache_id merged_id = .ok c') :
    Step c c' cache_id := by
  unfold resolveLeft at h
  split at h
  · refine freeImage_flags hid (fun k => ?_) h
    cases merged_id with
    | none => rfl
    | some m =>
        dsimp only
        by_cases hk : k = m
        · subst hk
          rw [update_self]
        · rw [update_of_ne hk]
  · cases merged_id with
    | some _ => exact freeImage_step hid h
    | none =>
        cases h
        exact Step.refl c cache_id

def LocatedAt (c : ImageCache) (info : CachedInfo) (cache_id mip slice : ℕ) : Prop :=
  let cached := (c.image cache_id).info
  cached.guest_address < info.guest_address ∧
    subresource info.toImageInfo cached.toImageInfo = .ok (some (mip, slice))

theorem subresource_eq_some {a b : ImageInfo} {mip slice : ℕ}
    (h : subresource a b = .ok (some (mip, slice))) :
    a.mipOf b = .ok (mip : ℤ) ∧ a.sliceOf b mip = .ok (slice : ℤ) := by
  unfold subresource at h
  obtain ⟨m, hm, h⟩ := Exec.bind_eq_ok.1 h
  cases m with
  | negSucc _ => cases h
  | ofNat m =>
      obtain ⟨k, hk, h⟩ := Exec.bind_eq_ok.1 h
      cases k with
      | negSucc _ => cases h
      | ofNat k =>
          cases h
          exact ⟨hm, hk⟩

theorem subresource_returns {a b : ImageInfo} (h : a.Locatable b) :
    ∃ found, subresource a b = .ok found := by
  obtain ⟨m, hm⟩ := ImageInfo.mipOf_returns h
  cases m with
  | negSucc _ => exact ⟨none, Exec.bind_eq_ok.2 ⟨_, hm, rfl⟩⟩
  | ofNat m =>
      obtain ⟨k, hk⟩ := ImageInfo.sliceOf_returns h hm
      cases k with
      | negSucc _ => exact ⟨none, Exec.bind_eq_ok.2 ⟨_, hm, Exec.bind_eq_ok.2 ⟨_, hk, rfl⟩⟩⟩
      | ofNat k => exact ⟨some (m, k), Exec.bind_eq_ok.2 ⟨_, hm, Exec.bind_eq_ok.2 ⟨_, hk, rfl⟩⟩⟩

theorem resolveOverlap_eq_ok (hid : cache_id < c.next) (hregistered : c.registered cache_id = true)
    (h : resolveOverlap env c info binding cache_id merged_id = .ok res) :
    (∃ mip slice : ℕ, LocatedAt c info cache_id mip slice ∧ res =
      { cache := c, image_id := some cache_id, view_mip := mip, view_slice := slice }) ∨
    Unlocated c info cache_id merged_id res := by
  unfold resolveOverlap at h
  dsimp only at h
  split at h
  · rename_i haddress
    exact .inr (resolveEqual_eq_ok hid hregistered haddress h)
  split at h
  · rename_i hlt
    obtain ⟨found, hfound, h⟩ := Exec.bind_eq_ok.1 h
    cases found with
    | some p =>
        obtain ⟨mip, slice⟩ := p
        cases h
        exact .inl ⟨mip, slice, ⟨hlt, hfound⟩, rfl⟩
    | none =>
        obtain ⟨freed, hfreed, h⟩ := Exec.bind_eq_ok.1 h
        cases h
        exact .inr ⟨freeIf_step hid hfreed, nofun, rfl, rfl⟩
  · obtain ⟨found, -, h⟩ := Exec.bind_eq_ok.1 h
    cases found with
    | some p =>
        obtain ⟨left, hleft, h⟩ := Exec.bind_eq_ok.1 h
        cases h
        exact .inr (unlocated_merged (resolveLeft_step hid hleft))
    | none =>
        cases h
        exact .inr (unlocated_merged (Step.refl c cache_id))

/-- The description that the next overlap is resolved for. -/
def mergedInfo (info : CachedInfo) (r : Resolved) : CachedInfo :=
  match r.image_id with
  | some id => (r.cache.image id).info
  | none => info

/-- The lookup with some overlaps to go: the image so far is none of them, is registered and
starts where the request does. -/
structure Pending (c₀ : ImageCache) (info : CachedInfo) (rest : List ℕ) (r : Resolved) :
    Prop where
  wf : Wf r.cache
  next : c₀.next ≤ r.cache.next
  kept : ∀ id < c₀.next, (r.cache.image id).info = (c₀.image id).info
  overlaps : ∀ id ∈ rest, r.cache.registered id = true ∧ id < c₀.next
  image : ∀ id, r.image_id = some id → r.cache.registered id = true ∧ id < r.cache.next ∧
    id ∉ rest ∧ (r.cache.image id).info.guest_address = info.guest_address
  view : r.view_mip = -1 ∧ r.view_slice = -1

theorem Pending.mergedInfo_address {c₀ : ImageCache} {rest : List ℕ} {r : Resolved}
    (h : Pending c₀ info rest r) : (mergedInfo info r).guest_address = info.guest_address := by
  unfold mergedInfo
  split
  · rename_i id hid
    exact (h.image id hid).2.2.2
  · rfl

theorem resolveNext_eq_ok {c₀ : ImageCache} {rest : List ℕ} {r r' : Resolved}
    (hpending : Pending c₀ info (cache_id :: rest) r) (hnodup : cache_id ∉ rest)
    (h : resolveNext env info binding r cache_id = .ok r') :
    (∃ mip slice : ℕ, LocatedAt r.cache (mergedInfo info r) cache_id mip slice ∧ r' =
      { cache := r.cache, image_id := some cache_id, view_mip := mip, view_slice := slice }) ∨
    Pending c₀ info rest r' := by
  obtain ⟨hregistered, hold⟩ := hpending.overlaps cache_id List.mem_cons_self
  have hid := hold.trans_le hpending.next
  unfold resolveNext at h
  obtain ⟨next, hnext, h⟩ := Exec.bind_eq_ok.1 h
  obtain ⟨mip, slice, hlocated, rfl⟩ | hun :=
    resolveOverlap_eq_ok hid hregistered (show resolveOverlap env r.cache (mergedInfo info r)
      binding cache_id r.image_id = .ok next from hnext)
  · cases h
    exact .inl ⟨mip, slice, hlocated, rfl⟩
  have hkept : ∀ id, r.image_id = some id → next.cache.registered id = true ∧
      id < next.cache.next ∧ id ∉ rest ∧
      (next.cache.image id).info.guest_address = info.guest_address := fun id himage => by
    obtain ⟨hreg, hlt, hnot, haddress⟩ := hpending.image id himage
    have hne : id ≠ cache_id := fun heq => hnot (heq ▸ List.mem_cons_self)
    refine ⟨(hun.step.kept id hlt hne).trans hreg, hlt.trans_le hun.step.next,
      fun hmem => hnot (List.mem_cons_of_mem _ hmem), ?_⟩
    rw [hun.step.info id hlt, haddress]
  have hbase : ∀ image_id : Option ℕ, (∀ id, image_id = some id → next.cache.registered id = true ∧
      id < next.cache.next ∧ id ∉ rest ∧
      (next.cache.image id).info.guest_address = info.guest_address) →
      Pending c₀ info rest { cache := next.cache, image_id := image_id } := fun image_id himage =>
    { wf := hun.step.wf hpending.wf
      next := hpending.next.trans hun.step.next
      kept := fun id hlt =>
        (hun.step.info id (hlt.trans_le hpending.next)).trans (hpending.kept id hlt)
      overlaps := fun id hmem => by
        obtain ⟨hreg, hlt⟩ := hpending.overlaps id (List.mem_cons_of_mem _ hmem)
        have hne : id ≠ cache_id := fun heq => hnodup (heq ▸ hmem)
        exact ⟨(hun.step.kept id (hlt.trans_le hpending.next) hne).trans hreg, hlt⟩
      image := himage
      view := ⟨rfl, rfl⟩ }
  cases hsome : next.image_id with
  | none =>
      rw [hsome] at h
      cases h
      exact .inr (hbase _ hkept)
  | some id =>
      rw [hsome] at h
      have heq : next = r' := Except.ok.inj h
      subst heq
      obtain ⟨hmip, hslice⟩ := hun.view
      obtain ⟨cache, image_id, view_mip, view_slice⟩ := next
      dsimp only at hmip hslice hsome
      subst hmip hslice hsome
      refine .inr (hbase _ fun k hk => ?_)
      cases hk
      obtain hmerged | ⟨hreg, hlt, hwhere, haddress⟩ := hun.found id rfl
      · exact hkept id hmerged
      · refine ⟨hreg, hlt, fun hmem => ?_, haddress.trans hpending.mergedInfo_address⟩
        obtain rfl | hge := hwhere
        · exact hnodup hmem
        · have := (hpending.overlaps id (List.mem_cons_of_mem _ hmem)).2
          exact absurd (this.trans_le hpending.next) (Nat.not_lt.2 hge)

/-- The image that is found is given up. -/
def Rejected (c : ImageCache) (info : CachedInfo) (exact_fmt : Bool) (id : ℕ) : Prop :=
  (exact_fmt = true ∧ info.pixel_format ≠ (c.image id).info.pixel_format) ∨
    (c.image id).info.resources.less info.resources

/-- The overlap can be resolved: images at one address differ in their blocks, are depth images
that are not to be a render target, or one of the cases of colour images is theirs, and a
location divides by no zero. -/
def Resolvable (c : ImageCache) (info : CachedInfo) (binding : BindingType) (cache_id : ℕ) :
    Prop :=
  let cached := (c.image cache_id).info
  if info.guest_address = cached.guest_address then
    (info.blockDim ≠ cached.blockDim ∨ info.blockSize ≠ cached.blockSize) ∨
      if cached.is_depth = false ∧ info.is_depth = false then
        (info.is_block = true ∧ cached.is_block = false) ∨
          (info.pixel_format ≠ cached.pixel_format ∨ info.guest_size ≤ cached.guest_size) ∨
          (info.type = cached.type ∧ cached.resources.less info.resources) ∨
          info.tile_mode ≠ cached.tile_mode
      else binding = .renderTarget → info.is_depth = false
  else if cached.guest_address < info.guest_address then
    info.toImageInfo.Locatable cached.toImageInfo
  else cached.toImageInfo.Locatable info.toImageInfo

/-- The slices at which `merged` is located in `cached` are those of the request: it starts with
the mip, or `merged` is one slice long, and it takes whole slices that are among the layers. -/
def SlicesLocated (info merged cached : ImageInfo) (mip : ℕ) : Prop :=
  (info.guest_address = cached.mipBase mip ∨ merged.guest_size = cached.sliceSize mip) ∧
    cached.sliceSize mip ∣ info.guest_size ∧
    (info.guest_address - cached.mipBase mip + info.guest_size) / cached.sliceSize mip ≤
      cached.resources.layers

/-- Every overlap of the run can be resolved, and where one is located as a subresource it is
the last one, is not given up, and the slices are those of the request. -/
def Resolves (env : LookupEnv) (info : CachedInfo) (binding : BindingType)
    (exact_fmt : Bool) : Resolved → List ℕ → Prop
  | _, [] => True
  | r, id :: rest =>
      Resolvable r.cache (mergedInfo info r) binding id ∧
      (∀ mip slice, LocatedAt r.cache (mergedInfo info r) id mip slice →
        rest = [] ∧ ¬Rejected r.cache info exact_fmt id ∧
          SlicesLocated info.toImageInfo (mergedInfo info r).toImageInfo
            (r.cache.image id).info.toImageInfo mip) ∧
      ∀ r', resolveNext env info binding r id = .ok r' →
        Resolves env info binding exact_fmt r' rest

theorem LocatedAt.isSlices {c : ImageCache} {merged : CachedInfo} {mip slice : ℕ}
    (hat : LocatedAt c merged id mip slice)
    (hsize : ((c.image id).info.mips_layout mip).size < 4294967296)
    (haddress : merged.guest_address = info.guest_address)
    (h : SlicesLocated info.toImageInfo merged.toImageInfo (c.image id).info.toImageInfo mip) :
    info.toImageInfo.IsSlices (c.image id).info.toImageInfo mip slice := by
  obtain ⟨hmip, hslice⟩ := subresource_eq_some hat.2
  obtain ⟨hstart, hwhole, hfits⟩ := h
  obtain ⟨n, hn⟩ := hwhole
  obtain ⟨hpos, hdiff⟩ := ImageInfo.located_diff hsize hmip hslice (by rwa [haddress])
  rw [haddress] at hdiff
  rw [ImageInfo.IsSlices, hn, Nat.mul_div_cancel_left _ hpos, ImageInfo.slices_eq hpos]
  have hspan : ∀ k, (k + n) * (c.image id).info.sliceSize mip =
      k * (c.image id).info.sliceSize mip + info.guest_size := fun k => by
    rw [Nat.add_mul, Nat.mul_comm n, hn]
  constructor
  · rw [ImageInfo.bytes, hspan, hdiff, Nat.add_assoc]
  · have hlast : slice + n ≤ (c.image id).info.resources.layers := by
      rwa [hdiff, Nat.add_sub_cancel_left, ← hspan, Nat.mul_div_cancel _ hpos] at hfits
    exact fun k hk => hk.2.trans_le hlast

/-- The view designates the request in an image: they start at one address, or the request is
slices of a mip. -/
def Designates (info found : CachedInfo) (level layer : ℕ) : Prop :=
  found.guest_address = info.guest_address ∧ level = 0 ∧ layer = 0 ∨
    info.toImageInfo.IsSlices found.toImageInfo level layer

/-- What is found before an image may be given up. -/
def FoundBefore (info : CachedInfo) (exact_fmt : Bool) (r : Resolved) : Prop :=
  (∀ id, r.image_id = some id → r.cache.registered id = true ∧ id < r.cache.next) ∧
    Wf r.cache ∧
    (r.view_mip = -1 ∧ r.view_slice = -1 ∧ (∀ id, r.image_id = some id →
        (r.cache.image id).info.guest_address = info.guest_address) ∨
      ∃ (mip slice id : ℕ), r.view_mip = mip ∧ r.view_slice = slice ∧ r.image_id = some id ∧
        ¬Rejected r.cache info exact_fmt id ∧
        info.toImageInfo.IsSlices (r.cache.image id).info.toImageInfo mip slice)

theorem resolveAll_eq_ok {c₀ : ImageCache} {exact_fmt : Bool} {ids : List ℕ} {r r' : Resolved}
    (hpending : Pending c₀ info ids r) (hnodup : ids.Nodup)
    (hfields : ∀ id ∈ ids, ∀ mip, ((c₀.image id).info.mips_layout mip).size < 4294967296)
    (hlast : Resolves env info binding exact_fmt r ids)
    (h : ids.foldlM (resolveNext env info binding) r = .ok r') :
    FoundBefore info exact_fmt r' := by
  induction ids generalizing r with
  | nil =>
      cases h
      exact ⟨fun id hid => ⟨(hpending.image id hid).1, (hpending.image id hid).2.1⟩, hpending.wf,
        .inl ⟨hpending.view.1, hpending.view.2, fun id hid => (hpending.image id hid).2.2.2⟩⟩
  | cons id rest ih =>
      rw [List.foldlM_cons] at h
      obtain ⟨next, hnext, h⟩ := Exec.bind_eq_ok.1 h
      obtain ⟨hid, hrest⟩ := List.nodup_cons.1 hnodup
      obtain ⟨-, hlocated, htail⟩ := hlast
      obtain ⟨mip, slice, hat, rfl⟩ | hpending' := resolveNext_eq_ok hpending hid hnext
      · obtain ⟨rfl, hkeep, hslices⟩ := hlocated mip slice hat
        cases h
        obtain ⟨hregistered, hlt⟩ := hpending.overlaps id List.mem_cons_self
        have hsize : ((r.cache.image id).info.mips_layout mip).size < 4294967296 := by
          rw [hpending.kept id hlt]
          exact hfields id List.mem_cons_self mip
        refine ⟨fun k hk => ?_, hpending.wf, .inr ⟨mip, slice, id, rfl, rfl, rfl, hkeep,
          hat.isSlices hsize hpending.mergedInfo_address hslices⟩⟩
        cases hk
        exact ⟨hregistered, hlt.trans_le hpending.next⟩
      · exact ih hpending' hrest (fun k hk => hfields k (List.mem_cons_of_mem _ hk))
          (htail next hnext) h

theorem pending_start {image_ids : List ℕ}
    (hregistered : ∀ id ∈ image_ids, c.registered id = true ∧ id < c.next)
    (hfreed : c.freed = []) : Pending c info image_ids { cache := c, image_id := none } where
  wf := ⟨by rw [hfreed]; exact List.nodup_nil, by rw [hfreed]; exact nofun⟩
  next := Nat.le_refl _
  kept _ _ := rfl
  overlaps := hregistered
  image := nofun
  view := ⟨rfl, rfl⟩

theorem not_perfectMatch {exact_fmt : Bool} {image_ids : List ℕ}
    (h : (image_ids.filter fun id => c.perfectMatch env info exact_fmt id).getLast? = none) :
    ∀ id ∈ image_ids, ¬c.perfectMatch env info exact_fmt id := fun id hid hperfect => by
  have hmem := List.mem_filter (p := fun id => c.perfectMatch env info exact_fmt id).2
    ⟨hid, decide_eq_true hperfect⟩
  rw [List.getLast?_eq_none_iff.1 h] at hmem
  cases hmem

theorem resolveImages_eq_ok {exact_fmt : Bool} {image_ids : List ℕ} {r : Resolved}
    (hids : image_ids.Nodup)
    (hregistered : ∀ id ∈ image_ids, c.registered id = true ∧ id < c.next) (hfreed : c.freed = [])
    (hfields : ∀ id ∈ image_ids, ∀ mip, ((c.image id).info.mips_layout mip).size < 4294967296)
    (hlast : (∀ id ∈ image_ids, ¬c.perfectMatch env info exact_fmt id) →
      Resolves env info binding exact_fmt { cache := c, image_id := none } image_ids)
    (h : resolveImages env c info binding exact_fmt image_ids = .ok r) :
    FoundBefore info exact_fmt r := by
  have hpending : Pending c info image_ids { cache := c, image_id := none } :=
    pending_start hregistered hfreed
  unfold resolveImages at h
  cases hmatch : (image_ids.filter fun id => c.perfectMatch env info exact_fmt id).getLast? with
  | some id =>
      rw [hmatch] at h
      cases h
      obtain ⟨hmem, hperfect⟩ := List.mem_filter.1 (List.mem_of_getLast? hmatch)
      refine ⟨fun k hk => ?_, hpending.wf, .inl ⟨rfl, rfl, fun k hk => ?_⟩⟩
      · cases hk
        exact hregistered id hmem
      · cases hk
        exact (of_decide_eq_true hperfect).1
  | none =>
      rw [hmatch] at h
      exact resolveAll_eq_ok hpending hids hfields (hlast (not_perfectMatch hmatch)) h

theorem rejectImage_eq_ok {exact_fmt : Bool} {r r' : Resolved}
    (hr : FoundBefore info exact_fmt r) (h : rejectImage r info exact_fmt = .ok r') :
    Wf r'.cache ∧
    ((∃ id, r'.image_id = some id ∧ r'.cache.registered id = true ∧ id < r'.cache.next ∧
        Designates info (r'.cache.image id).info r'.view_mip.toNat r'.view_slice.toNat) ∨
      r'.image_id = none ∧ r'.view_mip.toNat = 0 ∧ r'.view_slice.toNat = 0) := by
  obtain ⟨himage, hwf, hview⟩ := hr
  unfold rejectImage at h
  cases hid : r.image_id with
  | none =>
      rw [hid] at h
      cases h
      obtain ⟨hmip, hslice, -⟩ | ⟨mip, slice, id, -, -, hsome, -⟩ := hview
      · exact ⟨hwf, .inr ⟨hid, by rw [hmip]; rfl, by rw [hslice]; rfl⟩⟩
      · rw [hid] at hsome
        cases hsome
  | some id =>
      rw [hid] at h
      dsimp only at h
      obtain ⟨hregistered, hlt⟩ := himage id hid
      obtain ⟨hmip, hslice, haddress⟩ | ⟨mip, slice, k, hmip, hslice, hk, hkeep, hslices⟩ := hview
      · have hzero : r.view_mip.toNat = 0 ∧ r.view_slice.toNat = 0 := by
          rw [hmip, hslice]
          exact ⟨rfl, rfl⟩
        split at h
        · cases h
          exact ⟨hwf, .inr ⟨rfl, hzero⟩⟩
        split at h
        · obtain ⟨freed, hfreed, h⟩ := Exec.bind_eq_ok.1 h
          cases h
          exact ⟨(freeImage_step hlt hfreed).wf hwf, .inr ⟨rfl, hzero⟩⟩
        · cases h
          exact ⟨hwf, .inl ⟨id, hid, hregistered, hlt, .inl ⟨haddress id hid, hzero⟩⟩⟩
      · rw [hid] at hk
        cases hk
        rw [if_neg fun h => hkeep (.inl h), if_neg fun h => hkeep (.inr h)] at h
        cases h
        refine ⟨hwf, .inl ⟨id, hid, hregistered, hlt, .inr ?_⟩⟩
        rw [hmip, hslice]
        exact hslices

section Returns

theorem freeImage_returns (h : c.registered id = true) : ∃ c', c.freeImage id = .ok c' :=
  ⟨_, if_pos h⟩

theorem freeIf_returns {b : Bool} (h : c.registered id = true) : ∃ c', c.freeIf b id = .ok c' :=
  ite_returns (fun _ => freeImage_returns h) fun _ => ⟨c, rfl⟩

theorem insert_freeImage_returns (hid : id < c.next) (h : c.registered id = true) :
    ∃ c', (c.insert info).freeImage id = .ok c' :=
  freeImage_returns ((update_of_ne hid.ne _ _).trans h)

theorem expandImage_returns (hid : cache_id < c.next) (h : c.registered cache_id = true) :
    ∃ r, c.expandImage info cache_id = .ok r :=
  bind_returns (insert_freeImage_returns hid h) fun _ _ => ⟨_, rfl⟩

theorem resolveDepthOverlap_returns (hid : cache_id < c.next) (h : c.registered cache_id = true)
    (hdepth : ¬((c.image cache_id).info.is_depth = false ∧ info.is_depth = false) →
      binding = .renderTarget → info.is_depth = false) :
    ∃ r, c.resolveDepthOverlap info binding cache_id = .ok r := by
  unfold resolveDepthOverlap
  refine ite_returns (fun _ => ⟨_, rfl⟩) fun hne => bind_returns ?_ fun _ _ =>
    ite_returns (fun _ => ?_) fun _ => ⟨_, rfl⟩
  · cases binding with
    | renderTarget =>
        exact ⟨_, if_neg fun hinfo => nomatch hinfo.symm.trans (hdepth hne rfl)⟩
    | texture => exact ⟨_, rfl⟩
    | storage => exact ⟨_, rfl⟩
    | depthTarget => exact ⟨_, rfl⟩
    | videoOut => exact ⟨_, rfl⟩
  · exact bind_returns (insert_freeImage_returns hid h) fun _ _ => ⟨_, rfl⟩

theorem resolveEqual_returns {safe_to_delete : Bool} (hid : cache_id < c.next)
    (h : c.registered cache_id = true)
    (haddress : info.guest_address = (c.image cache_id).info.guest_address)
    (hres : Resolvable c info binding cache_id) :
    ∃ res, resolveEqual env c info binding cache_id merged_id safe_to_delete = .ok res := by
  have hfree : ∃ res, (do
      let c ← c.freeIf safe_to_delete cache_id
      return ({ cache := c, image_id := merged_id } : Resolved)) = .ok res :=
    bind_returns (freeIf_returns h) fun _ _ => ⟨_, rfl⟩
  have hexpand : ∃ res, (c.expandImage info cache_id >>= fun r =>
      return ({ cache := r.1, image_id := some r.2 } : Resolved)) = .ok res :=
    bind_returns (expandImage_returns hid h) fun _ _ => ⟨_, rfl⟩
  rw [Resolvable, if_pos haddress] at hres
  unfold resolveEqual
  refine ite_returns (fun _ => hfree) fun hblock => ?_
  have hres := hres.resolve_left hblock
  by_cases hcolour : (c.image cache_id).info.is_depth = false ∧ info.is_depth = false
  · rw [if_pos hcolour] at hres
    have hnone : c.resolveDepthOverlap info binding cache_id = .ok (c, none) := if_pos hcolour
    refine bind_returns ⟨_, hnone⟩ fun r hr => ?_
    cases hnone.symm.trans hr
    dsimp only
    rw [if_neg (not_not.2 rfl)]
    refine ite_returns (fun _ => hexpand) fun hcompressed => ite_returns (fun _ => hexpand)
      fun _ => ite_returns (fun _ => ⟨_, rfl⟩) fun hsmaller => ite_returns (fun _ => hexpand)
      fun hlarger => ite_returns (fun _ => hfree) fun htile => ?_
    exact absurd
      (((hres.resolve_left hcompressed).resolve_left hsmaller).resolve_left hlarger) htile
  · rw [if_neg hcolour] at hres
    refine bind_returns (resolveDepthOverlap_returns hid h fun _ => hres) fun r hr => ?_
    obtain hnone | ⟨hsome, -⟩ := resolveDepthOverlap_eq_ok merged_id hid h haddress hr
    · unfold resolveDepthOverlap at hr
      rw [if_neg hcolour] at hr
      obtain ⟨_, -, hr⟩ := Exec.bind_eq_ok.1 hr
      split at hr
      · obtain ⟨_, -, hr⟩ := Exec.bind_eq_ok.1 hr
        cases hr
        cases hnone
      · cases hr
        cases hnone
    · exact ⟨_, if_pos hsome⟩

theorem resolveLeft_returns (h : c.registered cache_id = true) :
    ∃ c', c.resolveLeft cache_id merged_id = .ok c' := by
  unfold resolveLeft
  refine ite_returns (fun _ => freeImage_returns h) fun _ => ?_
  cases merged_id with
  | some _ => exact freeImage_returns h
  | none => exact ⟨_, rfl⟩

theorem resolveNext_returns {r : Resolved} (hid : cache_id < r.cache.next)
    (h : r.cache.registered cache_id = true)
    (hres : Resolvable r.cache (mergedInfo info r) binding cache_id) :
    ∃ r', resolveNext env info binding r cache_id = .ok r' := by
  have hoverlap : ∀ merged, Resolvable r.cache merged binding cache_id →
      ∃ next, resolveOverlap env r.cache merged binding cache_id r.image_id = .ok next :=
    fun merged hres => by
      unfold resolveOverlap
      refine ite_returns (fun haddress => resolveEqual_returns hid h haddress hres) fun hne => ?_
      rw [Resolvable, if_neg hne] at hres
      refine ite_returns (fun hlt => ?_) fun hge => ?_
      · rw [if_pos hlt] at hres
        refine bind_returns (subresource_returns hres) fun found _ => ?_
        cases found with
        | some _ => exact ⟨_, rfl⟩
        | none => exact bind_returns (freeIf_returns h) fun _ _ => ⟨_, rfl⟩
      · rw [if_neg hge] at hres
        refine bind_returns (subresource_returns hres) fun found _ => ?_
        cases found with
        | none => exact ⟨_, rfl⟩
        | some _ => exact bind_returns (resolveLeft_returns h) fun _ _ => ⟨_, rfl⟩
  refine bind_returns (hoverlap _ hres) fun next _ => ?_
  cases next.image_id with
  | some _ => exact ⟨_, rfl⟩
  | none => exact ⟨_, rfl⟩

theorem resolveAll_returns {c₀ : ImageCache} {exact_fmt : Bool} {ids : List ℕ} {r : Resolved}
    (hpending : Pending c₀ info ids r) (hnodup : ids.Nodup)
    (hlast : Resolves env info binding exact_fmt r ids) :
    ∃ r', ids.foldlM (resolveNext env info binding) r = .ok r' := by
  induction ids generalizing r with
  | nil => exact ⟨r, rfl⟩
  | cons id rest ih =>
      rw [List.foldlM_cons]
      obtain ⟨hid, hrest⟩ := List.nodup_cons.1 hnodup
      obtain ⟨hres, hlocated, htail⟩ := hlast
      obtain ⟨hregistered, hlt⟩ := hpending.overlaps id List.mem_cons_self
      refine bind_returns (resolveNext_returns (hlt.trans_le hpending.next) hregistered hres)
        fun next hnext => ?_
      obtain ⟨mip, slice, hat, rfl⟩ | hpending' := resolveNext_eq_ok hpending hid hnext
      · obtain ⟨rfl, -⟩ := hlocated mip slice hat
        exact ⟨_, rfl⟩
      · exact ih hpending' hrest (htail next hnext)

theorem rejectImage_returns {exact_fmt : Bool} {r : Resolved} (hr : FoundBefore info exact_fmt r) :
    ∃ r', rejectImage r info exact_fmt = .ok r' := by
  unfold rejectImage
  cases hid : r.image_id with
  | none => exact ⟨_, rfl⟩
  | some id =>
      refine ite_returns (fun _ => ⟨_, rfl⟩) fun _ => ite_returns (fun _ => ?_) fun _ => ⟨_, rfl⟩
      exact bind_returns (freeImage_returns (hr.1 id hid).1) fun _ _ => ⟨_, rfl⟩

end Returns

theorem resolveImages_returns {exact_fmt : Bool} {image_ids : List ℕ} (hids : image_ids.Nodup)
    (hregistered : ∀ id ∈ image_ids, c.registered id = true ∧ id < c.next) (hfreed : c.freed = [])
    (hlast : (∀ id ∈ image_ids, ¬c.perfectMatch env info exact_fmt id) →
      Resolves env info binding exact_fmt { cache := c, image_id := none } image_ids) :
    ∃ r, resolveImages env c info binding exact_fmt image_ids = .ok r := by
  unfold resolveImages
  cases hmatch : (image_ids.filter fun id => c.perfectMatch env info exact_fmt id).getLast? with
  | some id => exact ⟨_, rfl⟩
  | none =>
      exact resolveAll_returns (pending_start hregistered hfreed) hids
        (hlast (not_perfectMatch hmatch))

def sameFormats : LookupEnv := { compatible := fun a b => a = b, tick := 0 }

def layersAt (guest_address layers : ℕ) : CachedInfo :=
  { ImageInfo.rowsLaidOut guest_address layers with }

def overlappingLayers : ImageCache where
  image := fun id => if id = 0 then { info := layersAt 0x1000 4 } else { info := layersAt 0x1200 2 }
  next := 2
  registered := fun id => id < 2

end ImageCache

end OrbitConsole.VideoCore
