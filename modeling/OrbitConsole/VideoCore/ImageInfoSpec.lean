import Mathlib.Data.Set.Lattice
import Mathlib.Order.Interval.Set.Basic
import OrbitConsole.VideoCore.ImageInfo

/-!
# Where one image lies in another

`SliceOf` divides the distance by the size of the image where it locates a slice. The slices
that it names are the bytes of the image only if the image is one slice long or starts with
the mip, and nothing keeps the image within the layers.
-/

namespace OrbitConsole.VideoCore

theorem bind_returns {α β : Type} {x : Exec α} {f : α → Exec β} (hx : ∃ a, x = .ok a)
    (hf : ∀ a, x = .ok a → ∃ b, f a = .ok b) : ∃ b, x >>= f = .ok b := by
  obtain ⟨a, ha⟩ := hx
  obtain ⟨b, hb⟩ := hf a ha
  exact ⟨b, Exec.bind_eq_ok.2 ⟨a, ha, hb⟩⟩

theorem ite_returns {α : Type} {p : Prop} [Decidable p] {x y : Exec α}
    (hx : p → ∃ a, x = .ok a) (hy : ¬p → ∃ a, y = .ok a) : ∃ a, (if p then x else y) = .ok a := by
  split
  · exact hx ‹_›
  · exact hy ‹_›

namespace ImageInfo

variable {extents : MacroTileExtents} {a b info info' : ImageInfo} {m s : ℕ}

section Layout

theorem u32_lt (n : ℕ) : u32 n < 4294967296 := Nat.mod_lt _ (by decide)

theorem updateMip_eq_ok {mip : ℕ} (h : updateMip extents info mip = .ok info') :
    info'.resources = info.resources ∧ ∃ mip_info : MipInfo, mip_info.size < 4294967296 ∧
      info'.mips_layout = Function.update info.mips_layout mip mip_info := by
  unfold updateMip at h
  split at h
  · cases h
  · obtain ⟨_, _, h⟩ := Exec.bind_eq_ok.1 h
    obtain ⟨_, _, h⟩ := Exec.bind_eq_ok.1 h
    obtain ⟨_, _, h⟩ := Exec.bind_eq_ok.1 h
    obtain ⟨_, _, h⟩ := Exec.bind_eq_ok.1 h
    cases h
    exact ⟨rfl, _, u32_lt _, rfl⟩

theorem updateMips_eq_ok {l : List ℕ} (h : l.foldlM (updateMip extents) info = .ok info') :
    info'.resources = info.resources ∧
      ∀ m, m ∈ l ∨ (info.mips_layout m).size < 4294967296 →
        (info'.mips_layout m).size < 4294967296 := by
  induction l generalizing info with
  | nil =>
      cases h
      exact ⟨rfl, fun m hm => hm.resolve_left List.not_mem_nil⟩
  | cons mip rest ih =>
      rw [List.foldlM_cons, Exec.bind_eq_ok] at h
      obtain ⟨next, hnext, hrest⟩ := h
      obtain ⟨hresources, mip_info, hsize, hlayout⟩ := updateMip_eq_ok hnext
      obtain ⟨hresources', hih⟩ := ih hrest
      refine ⟨hresources'.trans hresources, fun m hm => hih m ?_⟩
      rw [hlayout]
      by_cases hmip : m = mip
      · subst hmip
        rw [Function.update_self]
        exact .inr hsize
      · rw [Function.update_of_ne hmip]
        exact hm.imp_left fun hm => (List.mem_cons.1 hm).resolve_left hmip

theorem updateSize_size (h : updateSize extents info = .ok info')
    (hm : m < info'.resources.levels) : (info'.mips_layout m).size < 4294967296 := by
  obtain ⟨hresources, hsize⟩ := updateMips_eq_ok h
  rw [hresources] at hm
  exact hsize m (.inl (List.mem_range.2 hm))

end Layout

section Located

theorem findMip_eq_some {address left mip : ℕ}
    (h : info.findMip address left mip = .ok (some m)) :
    m < mip + left ∧ info.mipBase m ≤ address ∧
      address < add64 (info.mipBase m) (info.mips_layout m).size ∧
      sub64 address (info.mipBase m) % info.sliceSize m = 0 := by
  induction left generalizing mip with
  | zero => cases h
  | succ left ih =>
      have hlater : info.findMip address left (mip + 1) = .ok (some m) → _ := fun h => by
        obtain ⟨hlt, hrest⟩ := ih h
        exact (⟨by omega, hrest⟩ : m < mip + (left + 1) ∧ _)
      rw [findMip] at h
      split at h
      · cases h
      dsimp only at h
      split at h
      · rename_i hrange
        split at h
        · cases h
        split at h
        · rename_i hmod
          cases h
          exact ⟨by omega, hrange.1, hrange.2, hmod⟩
        · exact hlater h
      · exact hlater h

theorem mipOf_eq_ok (h : mipOf a b = .ok (m : ℤ)) : m < b.resources.levels ∧
    b.mipBase m ≤ a.guest_address ∧
    a.guest_address < add64 (b.mipBase m) (b.mips_layout m).size ∧
    sub64 a.guest_address (b.mipBase m) % b.sliceSize m = 0 := by
  have hneg : ¬(Except.ok (-1) : Exec ℤ) = .ok (m : ℤ) := fun h => by
    have := Except.ok.inj h
    omega
  unfold mipOf at h
  split at h
  · exact absurd h hneg
  split at h
  · exact absurd h hneg
  split at h
  · exact absurd h hneg
  obtain ⟨found, hfound, h⟩ := Exec.bind_eq_ok.1 h
  cases found with
  | none => exact absurd h hneg
  | some mip =>
      have hmip : mip = m := by
        dsimp only at h
        split at h
        · exact absurd h hneg
        split at h
        · split at h
          · exact absurd h hneg
          · exact Int.ofNat.inj (Except.ok.inj h)
        · split at h
          · exact absurd h hneg
          · exact Int.ofNat.inj (Except.ok.inj h)
      subst hmip
      have hspec := findMip_eq_some hfound
      rwa [Nat.zero_add] at hspec

theorem sliceOf_eq_ok (h : sliceOf a b m = .ok (s : ℤ)) : b.sliceSize m ≠ 0 ∧
    a.guest_size ≠ 0 ∧ a.guest_size % b.sliceSize m = 0 ∧
    sub64 a.guest_address (b.mipBase m) % a.guest_size = 0 ∧
    s32 (sub64 a.guest_address (b.mipBase m) / a.guest_size) = s := by
  have hneg : ¬(Except.ok (-1) : Exec ℤ) = .ok (s : ℤ) := fun h => by
    have := Except.ok.inj h
    omega
  unfold sliceOf at h
  split at h
  · exact absurd h hneg
  split at h
  · exact absurd h hneg
  dsimp only at h
  split at h
  · exact absurd h hneg
  split at h
  · cases h
  rename_i hdefined
  split at h
  · exact absurd h hneg
  rename_i hsize
  split at h
  · cases h
  rename_i hguest
  split at h
  · exact absurd h hneg
  rename_i hdiff
  exact ⟨fun h0 => hdefined (.inr (.inr h0)), hguest, not_not.1 hsize, not_not.1 hdiff,
    Except.ok.inj h⟩

/-- A location of `a` in `b` is defined: it divides by no zero and stays in the table of mips. -/
def Locatable (a b : ImageInfo) : Prop :=
  a.isCompatible b → a.guest_size ≠ 0 ∧ b.resources.levels ≤ 16 ∧ b.resources.layers ≠ 0 ∧
    ∀ mip < b.resources.levels, b.sliceSize mip ≠ 0

theorem findMip_returns {address left mip : ℕ} (hlevels : mip + left ≤ 16)
    (hlayers : info.resources.layers ≠ 0) (hsize : ∀ k < mip + left, info.sliceSize k ≠ 0) :
    ∃ found, info.findMip address left mip = .ok found := by
  induction left generalizing mip with
  | zero => exact ⟨none, rfl⟩
  | succ left ih =>
      have hlater := ih (show mip + 1 + left ≤ 16 by omega) fun k hk => hsize k (by omega)
      rw [findMip, if_neg fun h => h.elim (by omega) hlayers]
      dsimp only
      split
      · rw [if_neg (hsize mip (by omega))]
        split
        · exact ⟨_, rfl⟩
        · exact hlater
      · exact hlater

theorem mipOf_returns (h : a.Locatable b) : ∃ found, mipOf a b = .ok found := by
  unfold mipOf
  refine ite_returns (fun _ => ⟨_, rfl⟩) fun hcompatible => ite_returns (fun _ => ⟨_, rfl⟩)
    fun _ => ite_returns (fun _ => ⟨_, rfl⟩) fun _ => ?_
  obtain ⟨-, hlevels, hlayers, hsize⟩ := h (not_not.1 hcompatible)
  refine bind_returns (findMip_returns (by omega) hlayers fun k hk => hsize k (by omega))
    fun found _ => ?_
  cases found with
  | none => exact ⟨_, rfl⟩
  | some mip =>
      refine ite_returns (fun _ => ⟨_, rfl⟩) fun _ => ite_returns (fun _ => ?_) fun _ => ?_
      · exact ite_returns (fun _ => ⟨_, rfl⟩) fun _ => ⟨_, rfl⟩
      · exact ite_returns (fun _ => ⟨_, rfl⟩) fun _ => ⟨_, rfl⟩

theorem sliceOf_returns (h : a.Locatable b) (hm : mipOf a b = .ok (m : ℤ)) :
    ∃ found, sliceOf a b m = .ok found := by
  unfold sliceOf
  refine ite_returns (fun _ => ⟨_, rfl⟩) fun hcompatible => ite_returns (fun _ => ⟨_, rfl⟩)
    fun _ => ite_returns (fun _ => ⟨_, rfl⟩) fun _ => ?_
  obtain ⟨hguest, hlevels, hlayers, hsize⟩ := h (not_not.1 hcompatible)
  have hlevel := (mipOf_eq_ok hm).1
  refine ite_returns (fun hundefined => ?_) fun _ => ite_returns (fun _ => ⟨_, rfl⟩) fun _ =>
    ite_returns (fun h => absurd h hguest) fun _ => ite_returns (fun _ => ⟨_, rfl⟩)
    fun _ => ⟨_, rfl⟩
  exact hundefined.elim (by omega) fun h => h.elim (absurd · hlayers) (absurd · (hsize m hlevel))

theorem s32_of_lt {n : ℕ} (hn : n < 4294967296) (h : s32 n = (s : ℤ)) : s = n := by
  unfold s32 u32 at h
  rw [Nat.mod_eq_of_lt hn] at h
  split at h
  · omega
  · omega

/-- The slice that is found is where the image starts, if it starts with the mip or is one slice
long. -/
theorem located_diff (hsize : (b.mips_layout m).size < 4294967296)
    (hm : mipOf a b = .ok (m : ℤ)) (hs : sliceOf a b m = .ok (s : ℤ))
    (hstart : a.guest_address = b.mipBase m ∨ a.guest_size = b.sliceSize m) :
    0 < b.sliceSize m ∧ a.guest_address = b.mipBase m + s * b.sliceSize m := by
  obtain ⟨-, hbase, hend, -⟩ := mipOf_eq_ok hm
  obtain ⟨hslice, -, -, hdiff, hindex⟩ := sliceOf_eq_ok hs
  have haddress : a.guest_address < 18446744073709551616 := hend.trans (add64_lt _ _)
  rw [sub64_eq hbase haddress] at hdiff hindex
  have hwithin : a.guest_address < b.mipBase m + (b.mips_layout m).size :=
    hend.trans_le (Nat.mod_le _ _)
  have hs := s32_of_lt ((Nat.div_le_self _ _).trans_lt (by omega)) hindex
  refine ⟨Nat.pos_of_ne_zero hslice, ?_⟩
  obtain hfirst | hone := hstart
  · rw [hs, hfirst, Nat.sub_self, Nat.zero_div, Nat.zero_mul, Nat.add_zero]
  · rw [hs, ← hone, Nat.div_mul_cancel (Nat.dvd_of_mod_eq_zero hdiff)]
    omega

end Located

section Exact

def bytes (a : ImageInfo) : Set ℕ := Set.Ico a.guest_address (a.guest_address + a.guest_size)

def slice (b : ImageInfo) (m k : ℕ) : Set ℕ :=
  Set.Ico (b.mipBase m + k * b.sliceSize m) (b.mipBase m + (k + 1) * b.sliceSize m)

/-- The image is the slices from `s` on, as many as it is long, and they are all among the
layers. -/
def IsSlices (a b : ImageInfo) (m s : ℕ) : Prop :=
  let n := a.guest_size / b.sliceSize m
  a.bytes = ⋃ k ∈ Set.Ico s (s + n), b.slice m k ∧
    ∀ k ∈ Set.Ico s (s + n), k < b.resources.layers

theorem slices_eq (hpos : 0 < b.sliceSize m) (s n : ℕ) :
    ⋃ k ∈ Set.Ico s (s + n), b.slice m k =
      Set.Ico (b.mipBase m + s * b.sliceSize m) (b.mipBase m + (s + n) * b.sliceSize m) := by
  ext x
  simp only [Set.mem_iUnion, Set.mem_Ico, slice, exists_prop]
  constructor
  · rintro ⟨k, ⟨hsk, hkn⟩, hle, hlt⟩
    have hlow : s * b.sliceSize m ≤ k * b.sliceSize m := Nat.mul_le_mul_right _ hsk
    have hhigh : (k + 1) * b.sliceSize m ≤ (s + n) * b.sliceSize m := Nat.mul_le_mul_right _ hkn
    exact ⟨by omega, by omega⟩
  · rintro ⟨hle, hlt⟩
    have hbase : b.mipBase m ≤ x := by omega
    have hdiv := Nat.div_add_mod (x - b.mipBase m) (b.sliceSize m)
    have hmod := Nat.mod_lt (x - b.mipBase m) hpos
    have hsx : s ≤ (x - b.mipBase m) / b.sliceSize m := (Nat.le_div_iff_mul_le hpos).2 (by omega)
    have hxn : (x - b.mipBase m) / b.sliceSize m < s + n :=
      (Nat.div_lt_iff_lt_mul hpos).2 (by omega)
    refine ⟨_, ⟨hsx, hxn⟩, ?_⟩
    rw [Nat.add_mul, Nat.one_mul, Nat.mul_comm _ (b.sliceSize m)]
    exact ⟨by omega, by omega⟩

/-- The slices that `SliceOf` names are the image exactly if the image is one slice long or
starts with its mip, and fits among the layers from there. -/
theorem slices_iff (hb : ∃ b₀, updateSize extents b₀ = .ok b) (hm : mipOf a b = .ok (m : ℤ))
    (hs : sliceOf a b m = .ok (s : ℤ)) :
    a.IsSlices b m s ↔
      (a.guest_address = b.mipBase m ∨ a.guest_size = b.sliceSize m) ∧
      (a.guest_address - b.mipBase m + a.guest_size) / b.sliceSize m ≤ b.resources.layers := by
  obtain ⟨b₀, hb⟩ := hb
  obtain ⟨hlevel, hbase, hend, hmod⟩ := mipOf_eq_ok hm
  obtain ⟨hslice, hguest, hn, hdiff, hindex⟩ := sliceOf_eq_ok hs
  have hsize := updateSize_size hb hlevel
  have haddress : a.guest_address < 18446744073709551616 := hend.trans (add64_lt _ _)
  rw [sub64_eq hbase haddress] at hmod hdiff hindex
  have hwithin : a.guest_address < b.mipBase m + (b.mips_layout m).size :=
    hend.trans_le (Nat.mod_le _ _)
  have hs := s32_of_lt ((Nat.div_le_self _ _).trans_lt (by omega)) hindex
  generalize hd : a.guest_address - b.mipBase m = diff at hmod hdiff hindex hs ⊢
  have haddr : a.guest_address = b.mipBase m + diff := by omega
  -- the image is `n` slices long, and starts `s * n` slices behind the base
  obtain ⟨n, hgn⟩ := Nat.dvd_of_mod_eq_zero hn
  have hds : diff = s * a.guest_size := by
    rw [hs]
    exact (Nat.div_mul_cancel (Nat.dvd_of_mod_eq_zero hdiff)).symm
  have hpos : 0 < b.sliceSize m := Nat.pos_of_ne_zero hslice
  have hnpos : 0 < n := Nat.pos_of_ne_zero fun h0 => hguest (by rw [hgn, h0, Nat.mul_zero])
  have hdiv : a.guest_size / b.sliceSize m = n := by rw [hgn, Nat.mul_div_cancel_left _ hpos]
  have hdn : diff = s * n * b.sliceSize m := by rw [hds, hgn, Nat.mul_comm _ n, Nat.mul_assoc]
  have hcount : (diff + a.guest_size) / b.sliceSize m = s * n + n := by
    rw [hdn, hgn, Nat.mul_comm (b.sliceSize m) n, ← Nat.add_mul, Nat.mul_div_cancel _ hpos]
  have hstarts : (a.guest_address = b.mipBase m ∨ a.guest_size = b.sliceSize m) ↔
      s * n = s := by
    have hfirst : a.guest_address = b.mipBase m ↔ s = 0 := by
      rw [haddr, Nat.add_eq_left, hds, Nat.mul_eq_zero, or_iff_left hguest]
    have hone : a.guest_size = b.sliceSize m ↔ n = 1 := by
      rw [hgn, Nat.mul_eq_left hslice]
    rw [hfirst, hone]
    exact ⟨fun h => by obtain rfl | rfl := h <;> simp, fun h =>
      (Nat.eq_zero_or_pos s).imp_right fun hs => Nat.eq_of_mul_eq_mul_left hs (by omega)⟩
  have hfits : (∀ k ∈ Set.Ico s (s + n), k < b.resources.layers) ↔ s + n ≤ b.resources.layers :=
    ⟨fun h => by have := h (s + n - 1) ⟨by omega, by omega⟩; omega,
      fun h k hk => hk.2.trans_le h⟩
  have hrange : Set.Ico a.guest_address (a.guest_address + a.guest_size) =
      Set.Ico (b.mipBase m + s * b.sliceSize m) (b.mipBase m + (s + n) * b.sliceSize m) ↔
      s * n = s := by
    have hspan : (s + n) * b.sliceSize m = s * b.sliceSize m + a.guest_size := by
      rw [hgn, Nat.add_mul, Nat.mul_comm n]
    rw [hspan, haddr, hdn, ← Nat.add_assoc]
    refine ⟨fun h => ?_, fun h => by rw [h]⟩
    have hmem : ∀ x, x ∈ Set.Ico (b.mipBase m + s * n * b.sliceSize m) _ ↔ x ∈ Set.Ico _ _ :=
      Set.ext_iff.1 h
    have hleft := (hmem _).1 ⟨Nat.le_refl _, Nat.lt_add_of_pos_right (Nat.pos_of_ne_zero hguest)⟩
    have hright := (hmem _).2 ⟨Nat.le_refl _, Nat.lt_add_of_pos_right (Nat.pos_of_ne_zero hguest)⟩
    have heq : s * n * b.sliceSize m = s * b.sliceSize m := by
      have h₁ := hleft.1
      have h₂ := hright.1
      omega
    exact Nat.eq_of_mul_eq_mul_right hpos heq
  unfold IsSlices
  dsimp only
  rw [hdiv, slices_eq hpos, hstarts, hcount, bytes, hrange, hfits]
  exact and_congr_right fun h => by rw [h]

def rows (guest_address layers : ℕ) : ImageInfo where
  type := .color2D
  resources := { layers := layers }
  size := { width := 64 }
  num_bits := 32
  pitch := 64
  guest_address := guest_address

def rowsLaidOut (guest_address layers : ℕ) : ImageInfo :=
  { rows guest_address layers with
    mips_layout := Function.update (fun _ => {}) 0
      { size := u32 (256 * u32 (1 * layers)), pitch := 64, height := 1 }
    guest_size := u32 (0 + u32 (256 * u32 (1 * layers))) }

theorem rowsLaidOut_size (guest_address layers mip : ℕ) :
    ((rowsLaidOut guest_address layers).mips_layout mip).size < 4294967296 := by
  by_cases hmip : mip = 0
  · subst hmip
    exact u32_lt _
  · dsimp only [rowsLaidOut]
    rw [Function.update_of_ne hmip]
    decide

/-- The rows of the tables for linear images. -/
def linearExtents : MacroTileExtents := fun _ _ _ _ => .ok (0, 0)

theorem updateSize_rows (guest_address layers : ℕ) :
    updateSize linearExtents (rows guest_address layers) =
      .ok (rowsLaidOut guest_address layers) := by
  have hlayer : imageSizeLinearAligned 64 1 32 1 = .ok { size := 256, pitch := 64, height := 1 } :=
    rfl
  have hmip : mipSize linearExtents (rows guest_address layers) 0 64 1 1 =
      .ok ({ size := 256, pitch := 64, height := 1 }, 1) := by
    change (imageSizeLinearAligned 64 1 32 1 >>= fun mip_info => pure (mip_info, 1)) = _
    rw [hlayer]
    rfl
  change ((mipSize linearExtents (rows guest_address layers) 0 64 1 1 >>= _) >>= _) = _
  rw [hmip]
  rfl

/-- The third layer of four. -/
theorem slices_iff_third : (rowsLaidOut 0x1200 1).IsSlices (rowsLaidOut 0x1000 4) 0 2 :=
  (slices_iff ⟨_, updateSize_rows 0x1000 4⟩ rfl rfl).2 ⟨.inr rfl, by decide⟩

/-- The last two layers of four are located at the second. -/
theorem last_layers_misplaced :
    updateSize linearExtents (rows 0x1200 2) = .ok (rowsLaidOut 0x1200 2) ∧
    updateSize linearExtents (rows 0x1000 4) = .ok (rowsLaidOut 0x1000 4) ∧
    mipOf (rowsLaidOut 0x1200 2) (rowsLaidOut 0x1000 4) = .ok 0 ∧
    sliceOf (rowsLaidOut 0x1200 2) (rowsLaidOut 0x1000 4) 0 = .ok 1 ∧
    ¬(rowsLaidOut 0x1200 2).IsSlices (rowsLaidOut 0x1000 4) 0 1 := by
  refine ⟨updateSize_rows _ _, updateSize_rows _ _, rfl, rfl, fun h => ?_⟩
  have hmem : 0x13ff ∈ (rowsLaidOut 0x1200 2).bytes := ⟨by decide, by decide⟩
  rw [h.1] at hmem
  obtain ⟨k, hk, -, hlt⟩ := Set.mem_iUnion₂.1 hmem
  have hk' : k < 1 + 2 := hk.2
  have hlt' : 0x13ff < 0x1000 + (k + 1) * 256 := hlt
  omega

end Exact

end ImageInfo

end OrbitConsole.VideoCore
