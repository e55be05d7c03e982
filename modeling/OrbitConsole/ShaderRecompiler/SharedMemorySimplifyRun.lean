import OrbitConsole.ShaderRecompiler.SharedMemorySimplifySpec

/-!
# Invocations that interleave

With cells of its own an invocation runs as it does alone, whatever the others
do in between. This carries over to the instructions of 32 bits as long as no
store of a dword undoes a change of its other half.
-/

namespace OrbitConsole.ShaderRecompiler

variable {σ : Type} {own : ℕ → Prop} {mem : SharedMemory} {inst : Inst SharedValue}
  {info : SimplifyInfo}

/-! ### One access -/

/-- The operations that an access comes to after the pass. -/
inductive Replaced (next : Option SharedValue → σ) (inst : Inst SharedValue) : Micro σ → Prop
  | load16 {offset : BitVec 32} (hop : inst.op = .loadSharedU16)
      (hargs : inst.args = [.imm (.u32 offset)]) :
      Replaced next inst (.load (offset &&& ~~~(3 : BitVec 32)) fun x =>
        .ret (next (some (.u16
          ((BitField.uextract x ((offset &&& 2) * 8).toNat 16).setWidth 16)))))
  | write16 {offset : BitVec 32} {x : BitVec 16} (hop : inst.op = .writeSharedU16)
      (hargs : inst.args = [.imm (.u32 offset), .imm (.u16 x)]) :
      Replaced next inst (.load (offset &&& (offset &&& ~~~(3 : BitVec 32))) fun y =>
        .store (offset &&& ~~~(3 : BitVec 32))
          (BitField.insert y (x.setWidth 32) ((offset &&& 2) * 8).toNat 16) (.ret (next none)))
  | load64 {offset : BitVec 32} (hop : inst.op = .loadSharedU64)
      (hargs : inst.args = [.imm (.u32 offset)]) :
      Replaced next inst (.load offset fun x => .load (offset + 4) fun y =>
        .ret (next (some (.u64 (y ++ x)))))
  | write64 {offset : BitVec 32} {x : BitVec 64} (hop : inst.op = .writeSharedU64)
      (hargs : inst.args = [.imm (.u32 offset), .imm (.u64 x)]) :
      Replaced next inst (.store offset (x.extractLsb' 0 32)
        (.store (offset + 4) (x.extractLsb' 32 32) (.ret (next none))))

theorem replaced_of_simplify (hfits : Aligned own inst) {new : List (Inst SharedValue)}
    {result : Option (Value SharedValue)} (h : simplify info inst = some (new, result))
    (next : Option SharedValue → σ) : Replaced next inst (lowered new result next) := by
  have happlies : info.applies = true := by
    unfold simplify at h
    split at h
    · assumption
    · cases h
  have h16 : info.atomicU16 = false := by
    simp [SimplifyInfo.atomicU16, requires16BitSharedAtomic]
  have h64 : inst.op = .loadSharedU64 ∨ inst.op = .writeSharedU64 → info.atomicU64 = false := by
    intro hop
    by_contra h64
    cases hfits with
    | load64 hop' hargs _ _ => simp [simplify, happlies, hop', hargs, h64] at h
    | write64 hop' hargs _ _ => simp [simplify, happlies, hop', hargs, h64] at h
    | _ => simp_all
  cases hfits with
  | load16 hop hargs _ _ =>
      simp only [simplify, happlies, hop, hargs, h16, if_true, Bool.false_eq_true, if_false,
        Option.some.injEq, Prod.mk.injEq] at h
      obtain ⟨rfl, rfl⟩ := h
      exact .load16 hop hargs
  | write16 hop hargs _ _ =>
      simp only [simplify, happlies, hop, hargs, h16, if_true, Bool.false_eq_true, if_false,
        Option.some.injEq, Prod.mk.injEq] at h
      obtain ⟨rfl, rfl⟩ := h
      exact .write16 hop hargs
  | load64 hop hargs _ _ =>
      simp only [simplify, happlies, hop, hargs, h64 (.inl hop), if_true, Bool.false_eq_true,
        if_false, Option.some.injEq, Prod.mk.injEq] at h
      obtain ⟨rfl, rfl⟩ := h
      exact .load64 hop hargs
  | write64 hop hargs _ _ =>
      simp only [simplify, happlies, hop, hargs, h64 (.inr hop), if_true, Bool.false_eq_true,
        if_false, Option.some.injEq, Prod.mk.injEq] at h
      obtain ⟨rfl, rfl⟩ := h
      exact .write64 hop hargs
  | load32 hop hargs _ _ => simp [simplify, happlies, hop, hargs] at h
  | write32 hop hargs _ _ => simp [simplify, happlies, hop, hargs] at h

theorem Replaced.finish {next : Option SharedValue → σ} {m : Micro σ} (h : Replaced next inst m)
    (hfits : Aligned own inst) (mem : SharedMemory) :
    ∃ v r, perform inst mem = some (v, r) ∧ m.finish mem = some (next v, r) := by
  cases h with
  | @load16 offset hop hargs =>
      refine ⟨some (.u16 (mem (halfAt offset))), mem, by simp [perform, hop, hargs], ?_⟩
      simp only [Micro.finish, uextract_dword]
  | @write16 offset x hop hargs =>
      have hand : offset &&& (offset &&& ~~~(3 : BitVec 32)) = offset &&& ~~~(3 : BitVec 32) := by
        rw [← BitVec.and_assoc, BitVec.and_self]
      refine ⟨none, mem.write16 offset x, by simp [perform, hop, hargs], ?_⟩
      simp only [Micro.finish, hand, write32_dword]
  | @load64 offset hop hargs =>
      have haligned : 8 ∣ offset.toNat := by cases hfits <;> simp_all
      refine ⟨some (.u64 (mem.read64 offset)), mem, by simp [perform, hop, hargs], ?_⟩
      simp only [Micro.finish, read32_twice mem haligned]
  | @write64 offset x hop hargs =>
      have haligned : 8 ∣ offset.toNat := by cases hfits <;> simp_all
      refine ⟨none, mem.write64 offset x, by simp [perform, hop, hargs], ?_⟩
      simp only [Micro.finish, write32_twice mem haligned]

theorem Replaced.isLocal {next : Option SharedValue → σ} {m : Micro σ}
    (h : Replaced next inst m) (hfits : Aligned own inst) : m.Local own := by
  intro mem mem' hagree
  obtain ⟨v, r, r', hperform, hperform', hr, -⟩ := hfits.perform hagree
  obtain ⟨v₁, r₁, h₁, hf₁⟩ := h.finish hfits mem
  obtain ⟨v₂, r₂, h₂, hf₂⟩ := h.finish hfits mem'
  rw [hperform] at h₁
  rw [hperform'] at h₂
  cases h₁
  cases h₂
  exact ⟨next v, r, r', hf₁, hf₂, hr⟩

theorem Replaced.safe {next : Option SharedValue → σ} {m : Micro σ}
    (h : Replaced next inst m) (hfits : Aligned own inst) : m.Safe own := by
  have hlocal := h.isLocal hfits
  cases h with
  | load16 hop hargs => exact ⟨hlocal, fun x => Micro.local_ret _⟩
  | write16 hop hargs =>
      exact ⟨hlocal, fun x => ⟨(Micro.local_ret _).store _ _, Micro.local_ret _⟩⟩
  | @load64 offset hop hargs =>
      refine ⟨hlocal, fun x => ⟨Micro.Local.load (fun _ => Micro.local_ret _) ?_,
        fun _ => Micro.local_ret _⟩⟩
      cases hfits with
      | @load64 offset' hop' hargs' haligned hown =>
          obtain rfl : offset = offset' := by simpa [hargs] using hargs'
          intro i hi
          rw [halfAt_add_four haligned, Nat.add_assoc]
          exact hown (2 + i) (by omega)
      | _ => simp_all
  | write64 hop hargs => exact ⟨hlocal, (Micro.local_ret _).store _ _, Micro.local_ret _⟩

/-! ### The original program -/

def OriginalReachable (behaviour : ℕ → σ → Action σ) (start w : Workgroup σ) : Prop :=
  Transition.Reachable (originalStep behaviour) (fun _ _ => True) start w

/-- Every access is aligned, and no two invocations access the same half of a dword. -/
structure Separate (behaviour : ℕ → σ → Action σ) (start : Workgroup σ) (own : ℕ → ℕ → Prop) :
    Prop where
  disjoint : ∀ n n' h, own n h → own n' h → n = n'
  fits : ∀ w, OriginalReachable behaviour start w → ∀ n inst next,
    behaviour n (w.state n) = .access inst next → Aligned (own n) inst

/-- A step of an invocation without others; one that is done stays so. -/
def aloneStep (behaviour : σ → Action σ) (c : σ × SharedMemory) : σ × SharedMemory :=
  match behaviour c.1 with
  | .done => c
  | .local s => (s, c.2)
  | .access inst next =>
      match perform inst c.2 with
      | some r => (next r.1, r.2)
      | none => c

def alone (behaviour : σ → Action σ) (c : σ × SharedMemory) : ℕ → σ × SharedMemory
  | 0 => c
  | k + 1 => aloneStep behaviour (alone behaviour c k)

theorem alone_of_done {behaviour : σ → Action σ} {c : σ × SharedMemory} {k : ℕ}
    (h : behaviour (alone behaviour c k).1 = .done) {k' : ℕ} (hle : k ≤ k') :
    alone behaviour c k' = alone behaviour c k := by
  induction hle with
  | refl => rfl
  | step _ ih =>
      rw [alone, ih]
      unfold aloneStep
      rw [h]

theorem alone_done_unique {behaviour : σ → Action σ} {c : σ × SharedMemory} {k k' : ℕ}
    (h : behaviour (alone behaviour c k).1 = .done)
    (h' : behaviour (alone behaviour c k').1 = .done) :
    alone behaviour c k = alone behaviour c k' := by
  rcases Nat.le_total k k' with hle | hle
  · exact (alone_of_done h hle).symm
  · exact alone_of_done h' hle

variable {behaviour : ℕ → σ → Action σ} {start : Workgroup σ} {own : ℕ → ℕ → Prop}

/-- What an invocation comes to is what it comes to alone. -/
def AsAlone (behaviour : ℕ → σ → Action σ) (start : Workgroup σ) (own : ℕ → ℕ → Prop)
    (w : Workgroup σ) (n : ℕ) : Prop :=
  ∃ k, w.state n = (alone (behaviour n) (start.state n, start.mem) k).1 ∧
    Agree (own n) w.mem (alone (behaviour n) (start.state n, start.mem) k).2

theorem Separate.agree_other (hsep : Separate behaviour start own) {n n' : ℕ} (hne : n' ≠ n)
    {mem mem' : SharedMemory} (h : ∀ a, ¬ own n a → mem' a = mem a) :
    Agree (own n') mem' mem :=
  fun a ha => h a fun hown => hne (hsep.disjoint n' n a ha hown)

theorem AsAlone.of_agree {w w' : Workgroup σ} {n : ℕ} (h : AsAlone behaviour start own w n)
    (hstate : w'.state n = w.state n) (hmem : Agree (own n) w'.mem w.mem) :
    AsAlone behaviour start own w' n := by
  obtain ⟨k, hk, hagree⟩ := h
  exact ⟨k, hstate.trans hk, fun a ha => (hmem a ha).trans (hagree a ha)⟩

/-- The step of one invocation is no news for the others. -/
theorem asAlone_of_step (hsep : Separate behaviour start own) {w w' : Workgroup σ} {n : ℕ}
    (hreach : OriginalReachable behaviour start w)
    (h : ∀ m, AsAlone behaviour start own w m)
    (hunowned : ∀ a, (∀ m, ¬ own m a) → w.mem a = start.mem a)
    (hstep : originalStep behaviour w n = some w') :
    (∀ m, AsAlone behaviour start own w' m) ∧
      ∀ a, (∀ m, ¬ own m a) → w'.mem a = start.mem a := by
  obtain ⟨k, hk, hagree⟩ := h n
  unfold originalStep at hstep
  split at hstep
  case h_1 => cases hstep
  case h_2 s hlocal =>
    cases hstep
    refine ⟨fun m => ?_, hunowned⟩
    by_cases hm : m = n
    · subst hm
      refine ⟨k + 1, ?_, ?_⟩ <;> simp only [alone, aloneStep, ← hk, hlocal]
      · simp
      · exact hagree
    · exact (h m).of_agree (by simp [hm]) fun _ _ => rfl
  case h_3 inst next haccess =>
    obtain ⟨v, r, r', hperform, hperform', hr, hframe⟩ :=
      (hsep.fits w hreach n inst next haccess).perform hagree
    rw [hperform] at hstep
    cases hstep
    refine ⟨fun m => ?_, fun a ha => (hframe a (ha n)).trans (hunowned a ha)⟩
    by_cases hm : m = n
    · subst hm
      refine ⟨k + 1, ?_, ?_⟩ <;> simp only [alone, aloneStep, ← hk, haccess, hperform']
      · simp
      · exact hr
    · exact (h m).of_agree (by simp [hm]) (hsep.agree_other hm hframe)

theorem asAlone_of_reachable (hsep : Separate behaviour start own) {w : Workgroup σ}
    (hreach : OriginalReachable behaviour start w) :
    (∀ n, AsAlone behaviour start own w n) ∧
      ∀ a, (∀ n, ¬ own n a) → w.mem a = start.mem a := by
  refine Transition.Reachable.invariant' (P := fun w => (∀ n, AsAlone behaviour start own w n) ∧
    ∀ a, (∀ n, ¬ own n a) → w.mem a = start.mem a) hreach
    ⟨fun n => ⟨0, rfl, fun _ _ => rfl⟩, fun _ _ => rfl⟩ ?_
  intro w w' n hreach h _ hstep
  exact asAlone_of_step hsep hreach h.1 h.2 hstep

theorem original_outcome_unique (hsep : Separate behaviour start own) {w w' : Workgroup σ}
    (hw : OriginalReachable behaviour start w) (hw' : OriginalReachable behaviour start w')
    (hdone : ∀ n, behaviour n (w.state n) = .done)
    (hdone' : ∀ n, behaviour n (w'.state n) = .done) :
    w.mem = w'.mem ∧ ∀ n, w.state n = w'.state n := by
  obtain ⟨halone, hunowned⟩ := asAlone_of_reachable hsep hw
  obtain ⟨halone', hunowned'⟩ := asAlone_of_reachable hsep hw'
  have hsame : ∀ n, w.state n = w'.state n ∧ Agree (own n) w.mem w'.mem := by
    intro n
    obtain ⟨k, hk, hagree⟩ := halone n
    obtain ⟨k', hk', hagree'⟩ := halone' n
    have heq := alone_done_unique (hk ▸ hdone n) (hk' ▸ hdone' n)
    rw [← heq] at hk' hagree'
    exact ⟨hk.trans hk'.symm, fun a ha => (hagree a ha).trans (hagree' a ha).symm⟩
  refine ⟨?_, fun n => (hsame n).1⟩
  funext a
  by_cases hown : ∃ n, own n a
  · obtain ⟨n, hn⟩ := hown
    exact (hsame n).2 a hn
  · rw [hunowned a (not_exists.1 hown), hunowned' a (not_exists.1 hown)]

/-! ### After the pass -/

/-- Between two instructions an invocation is where the original one is, and within what replaces
an access its operations come to what the access does. -/
def Caught (behaviour : σ → Action σ) (own : ℕ → Prop) (mem mem₀ : SharedMemory) (s₀ : σ) :
    Progress σ → Prop
  | .at s => s = s₀ ∧ Agree own mem mem₀
  | .within m => m.Safe own ∧ ∃ inst next v r r₀, behaviour s₀ = .access inst next ∧
      m.finish mem = some (next v, r) ∧ perform inst mem₀ = some (v, r₀) ∧ Agree own r r₀

structure StandsFor (behaviour : ℕ → σ → Action σ) (own : ℕ → ℕ → Prop)
    (w : Workgroup (Progress σ)) (w₀ : Workgroup σ) : Prop where
  caught : ∀ n, Caught (behaviour n) (own n) w.mem w₀.mem (w₀.state n) (w.state n)
  unowned : ∀ a, (∀ n, ¬ own n a) → w.mem a = w₀.mem a

/-- The store of an invocation leaves the halves that it does not access as they are: no other
invocation has changed them since its dword was loaded. -/
def KeepsOthers (own : ℕ → ℕ → Prop) (w : Workgroup (Progress σ)) (n : ℕ) : Prop :=
  ∀ offset x rest, w.state n = .within (.store offset x rest) →
    (¬ own n (halfAt offset) → w.mem (halfAt offset) = x.extractLsb' 0 16) ∧
    (¬ own n (halfAt offset + 1) → w.mem (halfAt offset + 1) = x.extractLsb' 16 16)

theorem Caught.frame {behaviour : σ → Action σ} {own : ℕ → Prop}
    {mem mem' mem₀ mem₀' : SharedMemory} {s₀ : σ} {p : Progress σ}
    (h : Caught behaviour own mem mem₀ s₀ p)
    (hfits : ∀ inst next, behaviour s₀ = .access inst next → Aligned own inst)
    (hmem : Agree own mem' mem) (hmem₀ : Agree own mem₀' mem₀) :
    Caught behaviour own mem' mem₀' s₀ p := by
  cases p with
  | «at» s =>
      exact ⟨h.1, fun a ha => (hmem a ha).trans ((h.2 a ha).trans (hmem₀ a ha).symm)⟩
  | within m =>
      obtain ⟨hsafe, inst, next, v, r, r₀, haccess, hfinish, hperform, hr⟩ := h
      obtain ⟨s, r₁, r₁', hf, hf', hagree⟩ := hsafe.isLocal mem' mem hmem
      obtain ⟨v', r₂, r₂', hp, hp', hagree₀, -⟩ := (hfits inst next haccess).perform hmem₀
      rw [hfinish] at hf'
      rw [hperform] at hp'
      cases hf'
      cases hp'
      exact ⟨hsafe, inst, next, v, r₁, r₂, haccess, hf, hp,
        fun a ha => (hagree a ha).trans ((hr a ha).trans (hagree₀ a ha).symm)⟩

theorem StandsFor.update (hsep : Separate behaviour start own) {w : Workgroup (Progress σ)}
    {w₀ : Workgroup σ} {n : ℕ} (hreach : OriginalReachable behaviour start w₀)
    (h : StandsFor behaviour own w w₀) {mem mem₀ : SharedMemory} {p : Progress σ} {s₀ : σ}
    (hmem : ∀ a, ¬ own n a → mem a = w.mem a) (hmem₀ : ∀ a, ¬ own n a → mem₀ a = w₀.mem a)
    (hn : Caught (behaviour n) (own n) mem mem₀ s₀ p) :
    StandsFor behaviour own { mem := mem, state := Function.update w.state n p }
      { mem := mem₀, state := Function.update w₀.state n s₀ } := by
  constructor
  · intro m
    by_cases hm : m = n
    · subst hm
      simpa using hn
    · simp only [Function.update_of_ne hm]
      exact (h.caught m).frame (hsep.fits w₀ hreach m) (hsep.agree_other hm hmem)
        (hsep.agree_other hm hmem₀)
  · intro a ha
    exact (hmem a (ha n)).trans ((h.unowned a ha).trans (hmem₀ a (ha n)).symm)

theorem StandsFor.stay (hsep : Separate behaviour start own) {w : Workgroup (Progress σ)}
    {w₀ : Workgroup σ} {n : ℕ} (hreach : OriginalReachable behaviour start w₀)
    (h : StandsFor behaviour own w w₀) {mem : SharedMemory} {p : Progress σ}
    (hmem : ∀ a, ¬ own n a → mem a = w.mem a)
    (hn : Caught (behaviour n) (own n) mem w₀.mem (w₀.state n) p) :
    StandsFor behaviour own { mem := mem, state := Function.update w.state n p } w₀ := by
  have hupdate := h.update hsep hreach hmem (fun _ _ => rfl) hn
  rwa [Function.update_eq_self] at hupdate

theorem StandsFor.perform (hsep : Separate behaviour start own) {w : Workgroup (Progress σ)}
    {w₀ : Workgroup σ} {n : ℕ} (hreach : OriginalReachable behaviour start w₀)
    (h : StandsFor behaviour own w w₀) {inst : Inst SharedValue} {next : Option SharedValue → σ}
    (haccess : behaviour n (w₀.state n) = .access inst next) {v : Option SharedValue}
    {r r₀ : SharedMemory} (hperform : ShaderRecompiler.perform inst w₀.mem = some (v, r₀))
    (hr : Agree (own n) r r₀) (hframe : ∀ a, ¬ own n a → r a = w.mem a) :
    ∃ w₀', OriginalReachable behaviour start w₀' ∧
      StandsFor behaviour own
        { mem := r, state := Function.update w.state n (.at (next v)) } w₀' := by
  obtain ⟨v', r', -, hperform', -, -, hframe₀⟩ :=
    (hsep.fits w₀ hreach n inst next haccess).perform
      (fun _ _ => rfl : Agree (own n) w₀.mem w₀.mem)
  rw [hperform] at hperform'
  cases hperform'
  exact ⟨_, .step n hreach trivial (by simp [originalStep, haccess, hperform]),
    h.update hsep hreach hframe hframe₀ ⟨rfl, hr⟩⟩

/-- The original waits until the access is finished, and then makes it in one step. -/
theorem StandsFor.step (hsep : Separate behaviour start own) {w w' : Workgroup (Progress σ)}
    {w₀ : Workgroup σ} {n : ℕ} (hreach : OriginalReachable behaviour start w₀)
    (h : StandsFor behaviour own w w₀) (hok : KeepsOthers own w n)
    (hstep : simplifiedStep info behaviour w n = some w') :
    ∃ w₀', OriginalReachable behaviour start w₀' ∧ StandsFor behaviour own w' w₀' := by
  have hn := h.caught n
  unfold simplifiedStep at hstep
  split at hstep
  case h_1 s hs =>
    rw [hs] at hn
    obtain ⟨rfl, hagree⟩ := hn
    split at hstep
    case h_1 => cases hstep
    case h_2 s' hlocal =>
      cases hstep
      exact ⟨{ w₀ with state := Function.update w₀.state n s' },
        .step n hreach trivial (by simp [originalStep, hlocal]),
        h.update hsep hreach (fun _ _ => rfl) (fun _ _ => rfl) ⟨rfl, hagree⟩⟩
    case h_3 inst next haccess =>
      have hfit := hsep.fits w₀ hreach n inst next haccess
      obtain ⟨v, r, r₀, hperform, hperform₀, hr, hframe⟩ := hfit.perform hagree
      split at hstep
      case h_1 new result hnew =>
        cases hstep
        have hreplaced := replaced_of_simplify hfit hnew next
        obtain ⟨v', r', hperform', hfinish⟩ := hreplaced.finish hfit w.mem
        rw [hperform] at hperform'
        cases hperform'
        exact ⟨w₀, hreach, h.stay hsep hreach (fun _ _ => rfl)
          ⟨hreplaced.safe hfit, inst, next, v, r, r₀, haccess, hfinish, hperform₀, hr⟩⟩
      case h_2 =>
        rw [hperform] at hstep
        cases hstep
        exact h.perform hsep hreach haccess hperform₀ hr hframe
  case h_2 s hs =>
    cases hstep
    rw [hs] at hn
    obtain ⟨-, inst, next, v, r, r₀, haccess, hfinish, hperform, hr⟩ := hn
    cases hfinish
    exact h.perform hsep hreach haccess hperform hr fun _ _ => rfl
  case h_3 offset rest hs =>
    cases hstep
    rw [hs] at hn
    obtain ⟨hsafe, hrest⟩ := hn
    exact ⟨w₀, hreach, h.stay hsep hreach (fun _ _ => rfl) ⟨hsafe.2 _, hrest⟩⟩
  case h_4 offset x rest hs =>
    cases hstep
    rw [hs] at hn
    obtain ⟨hsafe, hrest⟩ := hn
    refine ⟨w₀, hreach, h.stay hsep hreach (fun a ha => ?_) ⟨hsafe.2, hrest⟩⟩
    obtain ⟨hlow, hhigh⟩ := hok offset x rest hs
    simp only [SharedMemory.write32, Function.update_apply]
    split
    case isTrue heq => exact heq ▸ (hhigh (heq ▸ ha)).symm
    case isFalse =>
      split
      case isTrue heq => exact heq ▸ (hlow (heq ▸ ha)).symm
      case isFalse => rfl
  case h_5 => cases hstep

/-- Before the first step. -/
def Workgroup.lift (w : Workgroup σ) : Workgroup (Progress σ) :=
  { mem := w.mem, state := fun n => .at (w.state n) }

theorem standsFor_of_reachable (hsep : Separate behaviour start own) {w : Workgroup (Progress σ)}
    (hreach : Transition.Reachable (simplifiedStep info behaviour) (KeepsOthers own) start.lift w) :
    ∃ w₀, OriginalReachable behaviour start w₀ ∧ StandsFor behaviour own w w₀ := by
  refine Transition.Reachable.invariant
    (P := fun w => ∃ w₀, OriginalReachable behaviour start w₀ ∧ StandsFor behaviour own w w₀) hreach
    ⟨start, .start, ⟨fun n => ⟨rfl, fun _ _ => rfl⟩, fun _ _ => rfl⟩⟩ ?_
  rintro w w' n ⟨w₀, hw₀, h⟩ hok hstep
  exact h.step hsep hw₀ hok hstep

theorem StandsFor.progress (hsep : Separate behaviour start own) {w : Workgroup (Progress σ)}
    {w₀ : Workgroup σ} (hreach : OriginalReachable behaviour start w₀)
    (h : StandsFor behaviour own w w₀) (n : ℕ) :
    (∃ s, w.state n = .at s ∧ behaviour n s = .done) ∨
      (simplifiedStep info behaviour w n).isSome = true := by
  have hn := h.caught n
  cases hstate : w.state n with
  | «at» s =>
      rw [hstate] at hn
      obtain ⟨rfl, hagree⟩ := hn
      cases haction : behaviour n (w₀.state n) with
      | done => exact .inl ⟨_, rfl, haction⟩
      | «local» s' => exact .inr (by simp [simplifiedStep, hstate, haction])
      | access inst next =>
          obtain ⟨v, r, r₀, hperform, -⟩ :=
            (hsep.fits w₀ hreach n inst next haction).perform hagree
          refine .inr ?_
          simp only [simplifiedStep, hstate, haction]
          split
          · rfl
          · simp [hperform]
  | within m =>
      rw [hstate] at hn
      refine .inr ?_
      cases m with
      | ret s => simp [simplifiedStep, hstate]
      | load offset rest => simp [simplifiedStep, hstate]
      | store offset x rest => simp [simplifiedStep, hstate]
      | stuck => exact hn.1.elim

theorem StandsFor.mem_eq {w : Workgroup (Progress σ)} {w₀ : Workgroup σ}
    (h : StandsFor behaviour own w w₀) {state : ℕ → σ} (hstate : ∀ n, w.state n = .at (state n)) :
    w.mem = w₀.mem ∧ ∀ n, state n = w₀.state n := by
  have hcaught : ∀ n, state n = w₀.state n ∧ Agree (own n) w.mem w₀.mem := by
    intro n
    have hn := h.caught n
    rw [hstate n] at hn
    exact hn
  refine ⟨?_, fun n => (hcaught n).1⟩
  funext a
  by_cases hown : ∃ n, own n a
  · obtain ⟨n, hn⟩ := hown
    exact (hcaught n).2 a hn
  · exact h.unowned a (not_exists.1 hown)

/-- While no store undoes another invocation's change, the invocations go through the states of
the original program, none is stuck, and what is left behind is the same. -/
theorem sharedMemorySimplifyPass_interleaving (info : SimplifyInfo)
    (behaviour : ℕ → σ → Action σ) (start : Workgroup σ) (own : ℕ → ℕ → Prop)
    (hsep : Separate behaviour start own) (w : Workgroup (Progress σ))
    (hreach : Transition.Reachable (simplifiedStep info behaviour) (KeepsOthers own) start.lift w) :
    (∃ w₀, OriginalReachable behaviour start w₀ ∧
      ∀ n s, w.state n = .at s → s = w₀.state n) ∧
    (∀ n, (∃ s, w.state n = .at s ∧ behaviour n s = .done) ∨
      (simplifiedStep info behaviour w n).isSome = true) ∧
    ((∀ n, ∃ s, w.state n = .at s ∧ behaviour n s = .done) →
      ∀ w₀, OriginalReachable behaviour start w₀ → (∀ n, behaviour n (w₀.state n) = .done) →
        w.mem = w₀.mem ∧ ∀ n, w.state n = .at (w₀.state n)) := by
  obtain ⟨w₁, hw₁, h⟩ := standsFor_of_reachable hsep hreach
  refine ⟨⟨w₁, hw₁, fun n s hs => ?_⟩, h.progress hsep hw₁, fun hdone w₀ hw₀ hdone₀ => ?_⟩
  · have hn := h.caught n
    rw [hs] at hn
    exact hn.1
  · choose state hstate hfinished using hdone
    obtain ⟨hmem, hsame⟩ := h.mem_eq hstate
    obtain ⟨hmem₀, hsame₀⟩ := original_outcome_unique hsep hw₁ hw₀
      (fun n => hsame n ▸ hfinished n) hdone₀
    exact ⟨hmem.trans hmem₀, fun n => by rw [hstate n, hsame n, hsame₀ n]⟩

/-! ### Two halves of one dword -/

def halfWriters (n : ℕ) (written : Bool) : Action Bool :=
  if n < 2 ∧ written = false then
    .access
      { id := 0, op := .writeSharedU16,
        args := [.imm (.u32 (BitVec.ofNat 32 (2 * n))), .imm (.u16 (BitVec.ofNat 16 (n + 1)))] }
      fun _ => true
  else .done

def halfWritersInfo : SimplifyInfo :=
  { isCompute := true, supports_workgroup_explicit_memory_layout := false,
    opcodes := [.writeSharedU16] }

def halfWritersStart : Workgroup Bool := { mem := fun _ => 0, state := fun _ => false }

theorem halfWriters_separate : Separate halfWriters halfWritersStart fun n a => a = n := by
  refine ⟨fun n n' a h h' => h.symm.trans h', fun w _ n inst next h => ?_⟩
  unfold halfWriters at h
  split at h
  case isTrue hlt =>
    cases h
    have hoffset : (BitVec.ofNat 32 (2 * n)).toNat = 2 * n := by
      rw [BitVec.toNat_ofNat]
      omega
    refine .write16 rfl rfl ?_ ?_ <;> simp only [halfAt, hoffset] <;> omega
  case isFalse => cases h

/-- One after the other the invocations do not disturb each other. -/
theorem sharedMemorySimplifyPass_interleaving_in_turn :
    ∃ w, Transition.run (simplifiedStep halfWritersInfo halfWriters) halfWritersStart.lift
        [0, 0, 0, 0, 1, 1, 1, 1] = some w ∧
      ∃ w₀, OriginalReachable halfWriters halfWritersStart w₀ ∧
        ∀ n s, w.state n = .at s → s = w₀.state n := by
  refine ⟨_, rfl, (sharedMemorySimplifyPass_interleaving halfWritersInfo halfWriters
    halfWritersStart (fun n a => a = n) halfWriters_separate _
    (Transition.reachable_of_run (l := [0, 0, 0, 0, 1, 1, 1, 1]) rfl ?_)).1⟩
  have hquiet : ∀ {w : Workgroup (Progress Bool)} {n : ℕ},
      (∀ offset x rest, w.state n ≠ .within (.store offset x rest)) →
      KeepsOthers (fun n a => a = n) w n := fun h offset x rest hs => absurd hs (h offset x rest)
  refine ⟨hquiet (fun _ _ _ h => by cases h), fun w h => ?_⟩
  cases h
  refine ⟨hquiet (fun _ _ _ h => by cases h), fun w h => ?_⟩
  cases h
  refine ⟨?_, fun w h => ?_⟩
  · intro offset x rest hs
    cases hs
    exact ⟨fun hne => absurd rfl hne, fun _ => by decide⟩
  cases h
  refine ⟨hquiet (fun _ _ _ h => by cases h), fun w h => ?_⟩
  cases h
  refine ⟨hquiet (fun _ _ _ h => by cases h), fun w h => ?_⟩
  cases h
  refine ⟨hquiet (fun _ _ _ h => by cases h), fun w h => ?_⟩
  cases h
  refine ⟨?_, fun w h => ?_⟩
  · intro offset x rest hs
    cases hs
    exact ⟨fun _ => by decide, fun hne => absurd rfl hne⟩
  cases h
  exact ⟨hquiet (fun _ _ _ h => by cases h), fun _ _ => trivial⟩

theorem sharedMemorySimplifyPass_interleaving_fails :
    ¬ ∀ (info : SimplifyInfo) (behaviour : ℕ → Bool → Action Bool) (start : Workgroup Bool)
      (own : ℕ → ℕ → Prop) (w : Workgroup (Progress Bool)) (w₀ : Workgroup Bool),
      Separate behaviour start own →
      Transition.Reachable (simplifiedStep info behaviour) (fun _ _ => True) start.lift w →
      (∀ n, ∃ s, w.state n = .at s ∧ behaviour n s = .done) →
      OriginalReachable behaviour start w₀ → (∀ n, behaviour n (w₀.state n) = .done) →
      w.mem = w₀.mem := by
  intro h
  have hboth := h halfWritersInfo halfWriters halfWritersStart (fun n a => a = n) _ _
    halfWriters_separate
    (Transition.reachable_of_run (l := [0, 1, 0, 1, 0, 1, 0, 1]) rfl
      (Transition.allOk_of_forall fun _ _ _ => trivial)) ?_
    (Transition.reachable_of_run (l := [0, 1]) rfl
      (Transition.allOk_of_forall fun _ _ _ => trivial)) ?_
  · exact absurd (congrFun hboth 0) (by decide)
  · intro n
    match n with
    | 0 => exact ⟨true, rfl, rfl⟩
    | 1 => exact ⟨true, rfl, rfl⟩
    | n + 2 => exact ⟨false, rfl, rfl⟩
  · intro n
    match n with
    | 0 => rfl
    | 1 => rfl
    | n + 2 => rfl

end OrbitConsole.ShaderRecompiler
