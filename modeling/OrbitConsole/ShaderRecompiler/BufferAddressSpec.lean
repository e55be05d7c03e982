import Mathlib.Data.Nat.ModEq
import Mathlib.Tactic.LinearCombination
import Mathlib.Tactic.Ring
import Mathlib.Tactic.Zify
import OrbitConsole.ShaderRecompiler.BufferAddress

/-!
# Buffer addresses and the descriptor

The address of an access is that of the descriptor, in elements of the access, as long as the
scalar offset leaves the element of the swizzle that the other offsets are in. In the descriptor it
is added to the address after the swizzle, here before it.
-/

namespace OrbitConsole.ShaderRecompiler

namespace BufferAddress

variable {inst : BufferInst} {buffer : Buffer} {lane : Lane} {address given : U32}
  {l_stage : LogicalStage} {bytes : ℕ}

/-! ### The address of the descriptor -/

section Descriptor

variable (inst : BufferInst) (buffer : Buffer) (lane : Lane)

def gcnIndex : ℕ :=
  (if inst.index_enable then (inst.index.eval lane).toNat else 0) +
    if buffer.add_tid_enable then lane.thread_id.toNat else 0

def gcnOffset : ℕ :=
  (if inst.voffset_enable then (inst.voffset.eval lane).toNat else 0) + inst.inst_offset.toNat

def scalarOffset : ℕ := (inst.soffset.eval lane).toNat

def gcnBufferOffset (index offset : ℕ) : ℕ :=
  let stride := buffer.stride.toNat
  let index_stride := buffer.getIndexStride.toNat
  let element_size := buffer.getElementSize.toNat
  if buffer.swizzle_enable then
    (index / index_stride * stride + offset / element_size * element_size) * index_stride +
      (index % index_stride * element_size + offset % element_size)
  else index * stride + offset

def gcnByteOffset : ℕ :=
  scalarOffset inst lane + gcnBufferOffset buffer (gcnIndex inst buffer lane) (gcnOffset inst lane)

/-- How far the scalar offset moves the access beyond its own size, when it is swizzled with the
other offsets: by a row for each element of the swizzle that it passes. -/
def carried : ℕ :=
  let element_size := buffer.getElementSize.toNat
  if buffer.swizzle_enable then
    ((gcnOffset inst lane + scalarOffset inst lane) / element_size -
      gcnOffset inst lane / element_size) * element_size * (buffer.getIndexStride.toNat - 1)
  else 0

end Descriptor

theorem indexStride_cases (buffer : Buffer) :
    buffer.getIndexStride.toNat = 8 ∨ buffer.getIndexStride.toNat = 16 ∨
      buffer.getIndexStride.toNat = 32 ∨ buffer.getIndexStride.toNat = 64 := by
  have h : ∀ x : BitVec 2, (8#32 <<< x.toNat).toNat = 8 ∨ (8#32 <<< x.toNat).toNat = 16 ∨
      (8#32 <<< x.toNat).toNat = 32 ∨ (8#32 <<< x.toNat).toNat = 64 := by decide
  exact h buffer.index_stride

/-! ### The size of the elements -/

theorem shift_cases (inst : BufferInst) (buffer : Buffer) :
    shift inst buffer = 0 ∨ shift inst buffer = 1 ∨ shift inst buffer = 2 ∨
      shift inst buffer = 3 := by
  unfold shift bufferAddressShift
  split <;> (try split) <;> simp

theorem elementBytes_eq (hop : inst.opcode ≠ .readConstBuffer)
    (hbytes : elementBytes inst buffer = some bytes) : bytes = 2 ^ shift inst buffer := by
  unfold elementBytes at hbytes
  unfold shift bufferAddressShift
  generalize dataFormat inst buffer = format at *
  split at hbytes <;> simp_all
  · cases format <;> simp_all [formatElementBytes]
  · cases format <;> simp_all [formatElementBytes]

/-! ### The emitted values -/

@[simp] theorem eval_imm (x : BitVec 32) : (U32.imm x).eval lane = x := rfl

@[simp] theorem eval_laneId : U32.laneId.eval lane = lane.thread_id.setWidth 32 := rfl

@[simp] theorem eval_iAdd (a b : U32) : (U32.iAdd a b).eval lane = a.eval lane + b.eval lane := rfl

@[simp] theorem eval_iMul (a b : U32) : (U32.iMul a b).eval lane = a.eval lane * b.eval lane := rfl

@[simp] theorem eval_iDiv (a b : U32) : (U32.iDiv a b).eval lane = a.eval lane / b.eval lane := rfl

@[simp] theorem eval_iMod (a b : U32) : (U32.iMod a b).eval lane = a.eval lane % b.eval lane := rfl

@[simp] theorem eval_shiftRightLogical (a b : U32) :
    (U32.shiftRightLogical a b).eval lane = a.eval lane >>> (b.eval lane).toNat := rfl

theorem toNat_instOffset : (instOffset inst).toNat = inst.inst_offset.toNat :=
  BitVec.toNat_setWidth_of_le (by decide)

theorem toNat_getStride : buffer.getStride.toNat = buffer.stride.toNat :=
  BitVec.toNat_setWidth_of_le (by decide)

theorem toNat_indexValue (inst : BufferInst) (buffer : Buffer) (lane : Lane) :
    ((indexValue inst buffer).eval lane).toNat = gcnIndex inst buffer lane % 2 ^ 32 := by
  have hthread : (lane.thread_id.setWidth 32).toNat = lane.thread_id.toNat :=
    BitVec.toNat_setWidth_of_le (by decide)
  have hzero : (0 : BitVec 32).toNat = 0 := rfl
  have hindex := (inst.index.eval lane).isLt
  have hlane := lane.thread_id.isLt
  unfold indexValue gcnIndex
  cases inst.index_enable <;> cases buffer.add_tid_enable <;>
    simp only [eval_iAdd, eval_imm, eval_laneId, BitVec.toNat_add, hthread, if_true, if_false,
      Bool.false_eq_true, hzero] <;>
    omega

theorem toNat_offsetValue :
    ((offsetValue inst).eval lane).toNat =
      (gcnOffset inst lane + scalarOffset inst lane) % 2 ^ 32 := by
  unfold offsetValue gcnOffset scalarOffset
  cases inst.voffset_enable <;>
    simp only [eval_iAdd, eval_imm, BitVec.toNat_add, toNat_instOffset, if_true, if_false,
      Bool.false_eq_true] <;>
    omega

theorem wrapped_div_mul (buffer : Buffer) (x : ℕ) :
    x % 2 ^ 32 / buffer.getIndexStride.toNat * buffer.getIndexStride.toNat ≡
      x / buffer.getIndexStride.toNat * buffer.getIndexStride.toNat [MOD 2 ^ 32] ∧
    x % 2 ^ 32 % buffer.getIndexStride.toNat = x % buffer.getIndexStride.toNat := by
  unfold Nat.ModEq
  obtain h | h | h | h := indexStride_cases buffer <;> rw [h] <;> omega

theorem le_gcnBufferOffset (buffer : Buffer) (index offset : ℕ) :
    offset ≤ gcnBufferOffset buffer index offset := by
  unfold gcnBufferOffset
  dsimp only
  split
  · have hrow : offset / buffer.getElementSize.toNat * buffer.getElementSize.toNat ≤
        offset / buffer.getElementSize.toNat * buffer.getElementSize.toNat *
          buffer.getIndexStride.toNat := by
      refine Nat.le_mul_of_pos_right _ ?_
      obtain h | h | h | h := indexStride_cases buffer <;> rw [h] <;> decide
    have hsplit := Nat.div_add_mod' offset buffer.getElementSize.toNat
    have hleft : offset / buffer.getElementSize.toNat * buffer.getElementSize.toNat *
          buffer.getIndexStride.toNat ≤
        (index / buffer.getIndexStride.toNat * buffer.stride.toNat +
          offset / buffer.getElementSize.toNat * buffer.getElementSize.toNat) *
          buffer.getIndexStride.toNat :=
      Nat.mul_le_mul_right _ (Nat.le_add_left ..)
    omega
  · exact Nat.le_add_left ..

theorem swizzled_scalar {A is es o so L : ℕ} (his : 1 ≤ is) :
    (A + (o + so) / es * es) * is + (L + (o + so) % es) =
      so + ((A + o / es * es) * is + (L + o % es)) +
        ((o + so) / es - o / es) * es * (is - 1) := by
  obtain ⟨j, rfl⟩ := Nat.exists_eq_add_of_le' his
  obtain ⟨k, hk⟩ := Nat.exists_eq_add_of_le (Nat.div_le_div_right (c := es) (Nat.le_add_right o so))
  have hall := Nat.div_add_mod' (o + so) es
  have hold := Nat.div_add_mod' o es
  rw [hk, Nat.add_sub_cancel_left, Nat.add_sub_cancel]
  rw [hk] at hall
  zify at hall hold ⊢
  linear_combination hall - hold

theorem toNat_bufferOffset (hfits : gcnByteOffset inst buffer lane < 2 ^ 32) :
    ((bufferOffset inst buffer buffer.getStride).eval lane).toNat =
      (gcnByteOffset inst buffer lane + carried inst buffer lane) % 2 ^ 32 := by
  have hoffset : gcnOffset inst lane + scalarOffset inst lane < 2 ^ 32 := by
    have hle := le_gcnBufferOffset buffer (gcnIndex inst buffer lane) (gcnOffset inst lane)
    unfold gcnByteOffset at hfits
    omega
  have hsum : ((offsetValue inst).eval lane).toNat =
      gcnOffset inst lane + scalarOffset inst lane := by
    rw [toNat_offsetValue, Nat.mod_eq_of_lt hoffset]
  have hindex := toNat_indexValue inst buffer lane
  unfold bufferOffset gcnByteOffset gcnBufferOffset carried
  dsimp only
  split
  · obtain ⟨hmsb, hlsb⟩ := wrapped_div_mul buffer (gcnIndex inst buffer lane)
    have his : 1 ≤ buffer.getIndexStride.toNat := by
      obtain h | h | h | h := indexStride_cases buffer <;> rw [h] <;> decide
    rw [← swizzled_scalar his]
    simp only [eval_iAdd, eval_iMul, eval_iDiv, eval_iMod, eval_imm, BitVec.toNat_add,
      BitVec.toNat_mul, BitVec.toNat_udiv, BitVec.toNat_umod, hsum, hindex, toNat_getStride, hlsb]
    refine (Nat.mod_modEq _ _).add ((Nat.mod_modEq _ _).trans ((Nat.mod_modEq _ _).add_right _))
      |>.trans (Nat.ModEq.add_right _ ?_)
    set q := (gcnOffset inst lane + scalarOffset inst lane) / buffer.getElementSize.toNat *
      buffer.getElementSize.toNat
    set is := buffer.getIndexStride.toNat
    set stride := buffer.stride.toNat
    have hinner : (gcnIndex inst buffer lane % 2 ^ 32 / is * stride % 2 ^ 32 + q % 2 ^ 32) % 2 ^ 32
        ≡ gcnIndex inst buffer lane % 2 ^ 32 / is * stride + q [MOD 2 ^ 32] :=
      (Nat.mod_modEq _ _).trans ((Nat.mod_modEq _ _).add (Nat.mod_modEq _ _))
    calc _ ≡ (gcnIndex inst buffer lane % 2 ^ 32 / is * stride + q) * is [MOD 2 ^ 32] :=
          hinner.mul_right _
      _ = gcnIndex inst buffer lane % 2 ^ 32 / is * is * stride + q * is := by ring
      _ ≡ gcnIndex inst buffer lane / is * is * stride + q * is [MOD 2 ^ 32] :=
          (hmsb.mul_right _).add_right _
      _ = (gcnIndex inst buffer lane / is * stride + q) * is := by ring
  · simp only [eval_iAdd, eval_iMul, eval_imm, BitVec.toNat_add, BitVec.toNat_mul, hsum, hindex,
      toNat_getStride]
    have hindex : gcnIndex inst buffer lane % 2 ^ 32 * buffer.stride.toNat % 2 ^ 32 ≡
        gcnIndex inst buffer lane * buffer.stride.toNat [MOD 2 ^ 32] :=
      (Nat.mod_modEq _ _).trans ((Nat.mod_modEq _ _).mul_right _)
    refine (hindex.add_right _).trans (congrArg (· % 2 ^ 32) ?_)
    omega

theorem toNat_general (hfits : gcnByteOffset inst buffer lane < 2 ^ 32) :
    ((general inst buffer buffer.getStride).eval lane).toNat =
      (gcnByteOffset inst buffer lane + carried inst buffer lane) % 2 ^ 32 /
        2 ^ shift inst buffer := by
  unfold general
  split
  · have hshift : (BitVec.ofNat 32 (shift inst buffer)).toNat = shift inst buffer := by
      obtain h | h | h | h := shift_cases inst buffer <;> rw [h] <;> rfl
    rw [eval_shiftRightLogical, BitVec.toNat_ushiftRight, toNat_bufferOffset hfits,
      Nat.shiftRight_eq_div_pow]
    exact congrArg _ (congrArg _ hshift)
  · next hzero =>
      rw [not_not.1 hzero, toNat_bufferOffset hfits, Nat.pow_zero, Nat.div_one]

/-! ### The strength-reduced path -/

theorem dvd_of_and_mask {x : BitVec 32} (h : x &&& mask inst buffer = 0) :
    2 ^ shift inst buffer ∣ x.toNat := by
  have hmask : (mask inst buffer).toNat = 2 ^ shift inst buffer - 1 := by
    unfold mask
    obtain h | h | h | h := shift_cases inst buffer <;> rw [h] <;> rfl
  have hand := congrArg BitVec.toNat h
  rw [BitVec.toNat_and, hmask, Nat.and_two_pow_sub_one_eq_mod] at hand
  exact Nat.dvd_of_mod_eq_zero hand

theorem eq_imm_of_immediate? {value : U32} {x : BitVec 32} (h : value.immediate? = some x) :
    value = .imm x := by
  cases value <;> simp_all [U32.immediate?]

theorem shifted_sum {I stride total S : ℕ} (hS : 0 < S) (hstride : S ∣ stride) (htotal : S ∣ total)
    (hfits : I * stride + total < 2 ^ 32) :
    (I * (stride / S) % 2 ^ 32 + total / S) % 2 ^ 32 * S = I * stride + total := by
  obtain ⟨a, rfl⟩ := hstride
  obtain ⟨b, rfl⟩ := htotal
  rw [Nat.mul_div_cancel_left a hS, Nat.mul_div_cancel_left b hS]
  have hsum : I * (S * a) + S * b = (I * a + b) * S := by ring
  rw [hsum] at hfits ⊢
  have hlt : I * a + b < 2 ^ 32 := Nat.lt_of_le_of_lt (Nat.le_mul_of_pos_right _ hS) hfits
  rw [Nat.mod_add_mod, Nat.mod_eq_of_lt hlt]

theorem strengthReduced_eq {reduced : U32} (hfits : gcnByteOffset inst buffer lane < 2 ^ 32)
    (h : strengthReduced inst buffer buffer.getStride = some reduced) :
    (reduced.eval lane).toNat * 2 ^ shift inst buffer = gcnByteOffset inst buffer lane ∧
      carried inst buffer lane = 0 := by
  unfold strengthReduced at h
  split at h
  · cases h
  · next soffset himm =>
      split at h
      · next hcond =>
          obtain ⟨hindex, hvoffset, hswizzle, htid, hstride⟩ := hcond
          dsimp only at h
          split at h
          · next htotal =>
              obtain rfl := Option.some.inj h
              refine ⟨?_, by rw [carried, if_neg hswizzle]⟩
              have hbyte : gcnByteOffset inst buffer lane =
                  (inst.index.eval lane).toNat * buffer.getStride.toNat +
                    (soffset.toNat + (instOffset inst).toNat) := by
                unfold gcnByteOffset gcnBufferOffset gcnIndex gcnOffset scalarOffset
                rw [eq_imm_of_immediate? himm, if_neg hswizzle, if_pos hindex, if_neg htid,
                  if_neg hvoffset, toNat_getStride, toNat_instOffset, eval_imm, Nat.add_zero]
                omega
              have hsum : (soffset + instOffset inst).toNat =
                  soffset.toNat + (instOffset inst).toNat := by
                rw [BitVec.toNat_add]
                refine Nat.mod_eq_of_lt (Nat.lt_of_le_of_lt ?_ hfits)
                rw [hbyte]
                exact Nat.le_add_left ..
              rw [hbyte, ← hsum] at hfits ⊢
              rw [eval_iAdd, eval_iMul, eval_imm, eval_imm, BitVec.toNat_add, BitVec.toNat_mul,
                BitVec.toNat_ushiftRight, BitVec.toNat_ushiftRight, Nat.shiftRight_eq_div_pow,
                Nat.shiftRight_eq_div_pow]
              exact shifted_sum (Nat.two_pow_pos _) (dvd_of_and_mask hstride)
                (dvd_of_and_mask htotal) hfits
          · cases h
      · cases h

/-! ### The address -/

theorem patchBufferArgs_eq (hop : inst.opcode ≠ .readConstBuffer)
    (h : patchBufferArgs inst buffer l_stage given = .ok address) :
    address = (strengthReduced inst buffer buffer.getStride).getD
      (general inst buffer buffer.getStride) := by
  rw [patchBufferArgs, if_neg hop] at h
  unfold calculateBufferAddress at h
  split at h
  · next hreduced =>
      rw [hreduced]
      exact (Except.ok.inj h).symm
  · next hreduced =>
      rw [hreduced]
      split at h
      · obtain ⟨_, -, h⟩ := Exec.bind_eq_ok.1 h
        exact (Exec.pure_eq_ok.1 h).symm
      · exact (Exec.pure_eq_ok.1 h).symm

/-- For an access whose byte offset fits 32 bits and is a multiple of its element size: the address
counts the elements up to the byte offset of the descriptor, the same with either path, iff the
scalar offset does not carry the access into another row of the swizzle. -/
theorem patchBufferArgs_iff (hop : inst.opcode ≠ .readConstBuffer)
    (hbytes : elementBytes inst buffer = some bytes)
    (haddress : patchBufferArgs inst buffer l_stage given = .ok address)
    (hfits : gcnByteOffset inst buffer lane < 2 ^ 32)
    (hdvd : bytes ∣ gcnByteOffset inst buffer lane) :
    ((address.eval lane).toNat * bytes = gcnByteOffset inst buffer lane ∧
      ∀ reduced, strengthReduced inst buffer buffer.getStride = some reduced →
        reduced.eval lane = (general inst buffer buffer.getStride).eval lane) ↔
    carried inst buffer lane % 2 ^ 32 < bytes := by
  have hgeneral : ((general inst buffer buffer.getStride).eval lane).toNat * bytes =
      gcnByteOffset inst buffer lane ↔ carried inst buffer lane % 2 ^ 32 < bytes := by
    rw [toNat_general hfits, elementBytes_eq hop hbytes]
    rw [elementBytes_eq hop hbytes] at hdvd
    generalize gcnByteOffset inst buffer lane = byteOffset at *
    obtain h | h | h | h := shift_cases inst buffer <;> rw [h] at hdvd ⊢ <;> omega
  rw [patchBufferArgs_eq hop haddress]
  cases hreduced : strengthReduced inst buffer buffer.getStride with
  | none => exact ⟨fun h => hgeneral.1 h.1, fun h => ⟨hgeneral.2 h, fun _ hr => nomatch hr⟩⟩
  | some reduced =>
      obtain ⟨heq, hcarried⟩ := strengthReduced_eq hfits hreduced
      rw [← elementBytes_eq hop hbytes] at heq
      have hpos : 0 < bytes := by
        rw [elementBytes_eq hop hbytes]
        exact Nat.two_pow_pos _
      have hsmall : carried inst buffer lane % 2 ^ 32 < bytes := by
        rw [hcarried]
        exact hpos
      refine iff_of_true ⟨heq, fun _ hr => ?_⟩ hsmall
      obtain rfl := Option.some.inj hr
      exact BitVec.eq_of_toNat_eq
        (Nat.eq_of_mul_eq_mul_right hpos (heq.trans (hgeneral.2 hsmall).symm))

def scalarLoad : BufferInst where
  opcode := .loadBufferU32
  index_enable := true
  voffset_enable := false
  inst_offset := 0
  inst_data_fmt := .formatInvalid
  index := .inst 0
  voffset := .imm 0
  soffset := .imm 16

def rows (swizzle_enable : Bool) : Buffer where
  stride := 16
  swizzle_enable := swizzle_enable
  data_format := .format32
  element_size := 1
  index_stride := 0
  add_tid_enable := false

def firstLane : Lane := ⟨fun _ => 0, 0⟩

theorem patchBufferArgs_iff_linear :
    ∃ address, patchBufferArgs scalarLoad (rows false) .vertex (.imm 0) = .ok address ∧
      (((address.eval firstLane).toNat * 4 = gcnByteOffset scalarLoad (rows false) firstLane ∧
        ∀ reduced, strengthReduced scalarLoad (rows false) (rows false).getStride = some reduced →
          reduced.eval firstLane =
            (general scalarLoad (rows false) (rows false).getStride).eval firstLane) ↔
        carried scalarLoad (rows false) firstLane % 2 ^ 32 < 4) :=
  have haddress : ∃ address, patchBufferArgs scalarLoad (rows false) .vertex (.imm 0) =
      .ok address := ⟨_, rfl⟩
  haddress.imp fun _ h => ⟨h, patchBufferArgs_iff (by decide) rfl h (by decide) (by decide)⟩

/-- Swizzled with the other offsets the scalar offset counts rows. -/
theorem scalarLoad_swizzled :
    ¬ ∀ address, patchBufferArgs scalarLoad (rows true) .vertex (.imm 0) = .ok address →
      (address.eval firstLane).toNat * 4 = gcnByteOffset scalarLoad (rows true) firstLane :=
  fun h => absurd (h _ rfl) (by decide)

end BufferAddress

end OrbitConsole.ShaderRecompiler
