import Mathlib.Data.List.Pairwise
import Mathlib.Data.List.Perm.Subperm
import OrbitConsole.Common.LruCache
import OrbitConsole.Library.LinkedList
import OrbitConsole.Library.Transition

/-!
# The order of the least recently used objects

Over every run the list has the live items in the order of their ticks. A visit is called on the
items that are old enough, but the value it returns is not looked at.
-/

namespace OrbitConsole.Common

open Function (update update_eq_self update_idem update_of_ne update_self)

namespace Lru

open LinkedList

namespace Cache

variable {ObjectType : Type} {c : Cache ObjectType} {l a b : List ℕ} {id i tick : ℕ}
  {obj : ObjectType} {o : Option ℕ}

def content (c : Cache ObjectType) (i : ℕ) : ObjectType × ℕ := ((c.item i).obj, (c.item i).tick)

/-! ### Single assignments -/

theorem project_update {γ : Type} (g : Item ObjectType → γ) (x : Item ObjectType) :
    (fun i => g (update c.item id x i)) =
      update (fun i => g (c.item i)) id (g x) :=
  funext fun i => Function.apply_update (fun _ => g) c.item id x i

@[simp] theorem next_setNext : (c.setNext id o).next = update c.next id o :=
  project_update (·.next) _

@[simp] theorem prev_setNext : (c.setNext id o).prev = c.prev :=
  (project_update (·.prev) _).trans (update_eq_self id _)

@[simp] theorem content_setNext : (c.setNext id o).content = c.content :=
  (project_update (fun x => (x.obj, x.tick)) _).trans (update_eq_self id _)

@[simp] theorem next_setPrev : (c.setPrev id o).next = c.next :=
  (project_update (·.next) _).trans (update_eq_self id _)

@[simp] theorem prev_setPrev : (c.setPrev id o).prev = update c.prev id o :=
  project_update (·.prev) _

@[simp] theorem content_setPrev : (c.setPrev id o).content = c.content :=
  (project_update (fun x => (x.obj, x.tick)) _).trans (update_eq_self id _)

@[simp] theorem next_setTick : (c.setTick id tick).next = c.next :=
  (project_update (·.next) _).trans (update_eq_self id _)

@[simp] theorem prev_setTick : (c.setTick id tick).prev = c.prev :=
  (project_update (·.prev) _).trans (update_eq_self id _)

@[simp] theorem content_setTick : (c.setTick id tick).content =
    update c.content id ((c.content id).1, tick) :=
  project_update (fun x => (x.obj, x.tick)) _

@[simp] theorem next_setObj : (c.setObj id obj).next = c.next :=
  (project_update (·.next) _).trans (update_eq_self id _)

@[simp] theorem prev_setObj : (c.setObj id obj).prev = c.prev :=
  (project_update (·.prev) _).trans (update_eq_self id _)

@[simp] theorem content_setObj : (c.setObj id obj).content =
    update c.content id (obj, (c.content id).2) :=
  project_update (fun x => (x.obj, x.tick)) _

theorem setNext_eq_self (h : c.next id = o) : c.setNext id o = c := by
  subst h
  unfold setNext next
  rw [update_eq_self]

theorem setPrev_eq_self (h : c.prev id = o) : c.setPrev id o = c := by
  subst h
  unfold setPrev prev
  rw [update_eq_self]

/-! ### The list -/

structure Ordered (c : Cache ObjectType) (l : List ℕ) : Prop where
  first : c.first_item = l.head?
  last : c.last_item = l.getLast?
  linked : Linked c.next c.prev none l none
  nodup : l.Nodup

/-- What the list does not change. -/
structure SameItems (c c' : Cache ObjectType) : Prop where
  content : c'.content = c.content
  pool_size : c'.pool_size = c.pool_size
  free_items : c'.free_items = c.free_items

theorem bypass_eq (hprev : c.prev i ≠ some i) :
    (c.bypass i).next = setAt c.next (c.prev i) (c.next i) ∧
      (c.bypass i).prev = setAt c.prev (c.next i) (c.prev i) ∧
      (c.bypass i).first_item = c.first_item ∧ (c.bypass i).last_item = c.last_item ∧
      SameItems c (c.bypass i) := by
  unfold bypass
  cases hp : c.prev i with
  | none =>
      dsimp only
      cases hn : c.next i with
      | none => exact ⟨rfl, rfl, rfl, rfl, rfl, rfl, rfl⟩
      | some n => exact ⟨next_setPrev, by rw [prev_setPrev, hp]; rfl, rfl, rfl, content_setPrev,
          rfl, rfl⟩
  | some p =>
      dsimp only
      have hne : i ≠ p := fun heq => hprev (heq ▸ hp)
      have hnext : (c.setNext p (c.next i)).next i = c.next i := by
        rw [next_setNext, update_of_ne hne]
      rw [hnext, prev_setNext, hp]
      cases hn : c.next i with
      | none => exact ⟨next_setNext, prev_setNext, rfl, rfl, content_setNext, rfl, rfl⟩
      | some n =>
          refine ⟨next_setPrev.trans next_setNext, ?_, rfl, rfl,
            content_setPrev.trans content_setNext, rfl, rfl⟩
          rw [prev_setPrev, prev_setNext]
          rfl

theorem dropFirst_eq (hfirst : c.first_item = (a ++ i :: b).head?) (hia : i ∉ a)
    (hnext : c.next i = b.head?) (hprev : ∀ y, b.head? = some y → a = [] → c.prev y = none) :
    c.dropFirst i = { c with first_item := (a ++ b).head? } := by
  unfold dropFirst
  cases a with
  | nil =>
      have hfirst : c.first_item = some i := hfirst
      rw [if_pos hfirst, hnext]
      cases b with
      | nil => rfl
      | cons y b =>
          dsimp only [List.head?_cons]
          rw [setPrev_eq_self (hprev y rfl rfl)]
          rfl
  | cons x a =>
      have hne : c.first_item ≠ some i := fun heq =>
        hia (Option.some.inj (hfirst.symm.trans heq) ▸ List.mem_cons_self)
      rw [if_neg hne]
      cases c
      cases hfirst
      rfl

theorem dropLast_eq (hlast : c.last_item = (a ++ i :: b).getLast?) (hib : i ∉ b)
    (hprev : c.prev i = a.getLast?) (hnext : ∀ x, a.getLast? = some x → b = [] → c.next x = none) :
    c.dropLast i = { c with last_item := (a ++ b).getLast? } := by
  unfold dropLast
  cases b with
  | nil =>
      rw [List.getLast?_concat] at hlast
      rw [if_pos hlast, hprev, List.append_nil]
      cases hx : a.getLast? with
      | none => rfl
      | some x =>
          dsimp only
          rw [setNext_eq_self (hnext x hx rfl)]
  | cons y b =>
      have heq : (a ++ i :: y :: b).getLast? = (a ++ y :: b).getLast? := by
        simp [List.getLast?_append, List.getLast?_cons]
      rw [heq] at hlast
      have hmem : ∀ x, (a ++ y :: b).getLast? = some x → x ∈ y :: b := by
        intro x hx
        rw [List.getLast?_append_of_ne_nil a (List.cons_ne_nil y b)] at hx
        exact List.mem_of_getLast? hx
      rw [if_neg fun hi => hib (hmem i (hlast.symm.trans hi))]
      cases c
      cases hlast
      rfl

theorem detach_ordered (h : c.Ordered (a ++ i :: b)) :
    (c.detach i).Ordered (a ++ b) ∧ SameItems c (c.detach i) := by
  obtain ⟨hp, hn⟩ := h.linked.pointers
  obtain ⟨ha, hib, hdisjoint⟩ := List.nodup_append.1 h.nodup
  obtain ⟨hib, hb⟩ := List.nodup_cons.1 hib
  have hia : i ∉ a := fun hi => hdisjoint i hi i List.mem_cons_self rfl
  have hprev : c.prev i ≠ some i := fun heq =>
    hia (List.mem_of_getLast? (hp.symm.trans heq))
  obtain ⟨hnext', hprev', hfirst', hlast', hsame⟩ := bypass_eq hprev
  have hlinked := h.linked.unlink h.nodup
  rw [← hp, ← hn, ← hnext', ← hprev'] at hlinked
  have hni : (c.bypass i).next i = b.head? := by
    rw [hnext', setAt_of_ne hprev, hn]
  have hpi : (c.bypass i).prev i = a.getLast? := by
    rw [hprev', setAt_of_ne (fun heq => hib (List.mem_of_mem_head? (hn.symm.trans heq))), hp]
  have hfirst := dropFirst_eq (hfirst'.trans h.first) hia hni fun y hy ha => by
    rw [hprev', hn, hy, hp, ha]
    exact update_self _ _ _
  have hlast := dropLast_eq (c := (c.bypass i).dropFirst i) (a := a) (b := b) (i := i)
    (by rw [hfirst]; exact hlast'.trans h.last) hib (by rw [hfirst]; exact hpi) fun x hx hb => by
      rw [hfirst]
      change (c.bypass i).next x = none
      rw [hnext', hp, hx, hn, hb]
      exact update_self _ _ _
  have hdetach : c.detach i = { c.bypass i with
      first_item := (a ++ b).head?, last_item := (a ++ b).getLast? } := by
    unfold detach
    rw [hlast, hfirst]
  rw [hdetach]
  exact ⟨⟨rfl, rfl, hlinked, h.nodup.sublist
    ((List.sublist_cons_self i b).append_left a)⟩, hsame.1, hsame.2, hsame.3⟩

theorem attach_ordered (h : c.Ordered l) (hi : i ∉ l)
    (hempty : l = [] → c.next i = none ∧ c.prev i = none) :
    (c.attach i).Ordered (l ++ [i]) ∧ SameItems c (c.attach i) := by
  have hnodup : (l ++ [i]).Nodup := List.nodup_append.2 ⟨h.nodup, List.nodup_singleton i,
    fun j hj k hk heq => hi (List.mem_singleton.1 hk ▸ heq ▸ hj)⟩
  obtain rfl | ⟨a, x, rfl⟩ := List.eq_nil_or_concat' l
  · obtain ⟨hnext, hprev⟩ := hempty rfl
    have hattach : c.attach i = { c with first_item := some i, last_item := some i } := by
      have hfirst : c.first_item = none := h.first
      have hlast : c.last_item = none := h.last
      unfold attach
      rw [if_pos hfirst]
      dsimp only
      rw [hlast]
    rw [hattach]
    exact ⟨⟨rfl, rfl, ⟨hprev, hnext, True.intro⟩, hnodup⟩, rfl, rfl, rfl⟩
  · have hlast : c.last_item = some x := h.last.trans List.getLast?_concat
    have hfirst : c.first_item ≠ none := by
      rw [h.first]
      cases a <;> nofun
    have hattach : c.attach i = { ((c.setPrev i (some x)).setNext x (some i)).setNext i none with
        last_item := some i } := by
      unfold attach
      rw [if_neg hfirst]
      dsimp only
      rw [hlast]
    have hlinked := h.linked.concat h.nodup hi
    rw [List.getLast?_concat] at hlinked
    rw [hattach]
    refine ⟨⟨?_, List.getLast?_concat.symm, ?_, hnodup⟩, ?_, rfl, rfl⟩
    · change c.first_item = _
      rw [h.first]
      cases a <;> rfl
    · change Linked (((c.setPrev i (some x)).setNext x (some i)).setNext i none).next
        (((c.setPrev i (some x)).setNext x (some i)).setNext i none).prev none (a ++ [x] ++ [i]) none
      rw [next_setNext, next_setNext, next_setPrev, prev_setNext, prev_setNext, prev_setPrev]
      exact hlinked
    · change (((c.setPrev i (some x)).setNext x (some i)).setNext i none).content = c.content
      rw [content_setNext, content_setNext, content_setPrev]

/-! ### The operations -/

theorem Ordered.congr {c' : Cache ObjectType} (h : c.Ordered l)
    (hfirst : c'.first_item = c.first_item) (hlast : c'.last_item = c.last_item)
    (heq : ∀ i ∈ l, c'.next i = c.next i ∧ c'.prev i = c.prev i) : c'.Ordered l :=
  ⟨hfirst.trans h.first, hlast.trans h.last, h.linked.congr heq, h.nodup⟩

def tickOf (c : Cache ObjectType) (i : ℕ) : ℕ := (c.content i).2

/-- The list `l` has the items with what `live` says, in the order of their ticks, and the other
items of the pool are free. -/
structure Holds (c : Cache ObjectType) (live : ℕ → Option (ObjectType × ℕ)) (clock : ℕ)
    (l : List ℕ) : Prop where
  ordered : c.Ordered l
  sorted : l.Pairwise fun i j => c.tickOf i ≤ c.tickOf j
  old : ∀ i ∈ l, c.tickOf i ≤ clock
  live : ∀ i x, live i = some x ↔ i ∈ l ∧ c.content i = x
  pool : ∀ i, i < c.pool_size ↔ i ∈ l ∨ i ∈ c.free_items
  free : c.free_items.Nodup
  disjoint : ∀ i ∈ l, i ∉ c.free_items

variable {live : ℕ → Option (ObjectType × ℕ)} {clock : ℕ}

theorem Holds.mem_iff (h : c.Holds live clock l) : i ∈ l ↔ (live i).isSome = true := by
  rw [Option.isSome_iff_exists]
  exact ⟨fun hi => ⟨_, (h.live i _).2 ⟨hi, rfl⟩⟩, fun ⟨x, hx⟩ => ((h.live i x).1 hx).1⟩

theorem Holds.attach (h : c.Ordered l) (hsorted : l.Pairwise fun i j => c.tickOf i ≤ c.tickOf j)
    (hold : ∀ i ∈ l, c.tickOf i ≤ tick) (htick : c.tickOf id = tick) (hid : id ∉ l)
    (hempty : l = [] → c.next id = none ∧ c.prev id = none)
    (hlive : ∀ i x, live i = some x ↔ i ∈ l ++ [id] ∧ c.content i = x)
    (hpool : ∀ i, i < c.pool_size ↔ i ∈ l ++ [id] ∨ i ∈ c.free_items)
    (hfree : c.free_items.Nodup) (hdisjoint : ∀ i ∈ l ++ [id], i ∉ c.free_items) :
    (c.attach id).Holds live tick (l ++ [id]) := by
  obtain ⟨hordered, hsame⟩ := attach_ordered h hid hempty
  have htickOf : (c.attach id).tickOf = c.tickOf := by
    unfold tickOf
    rw [hsame.content]
  refine ⟨hordered, ?_, ?_, ?_, ?_, ?_, ?_⟩
  · rw [htickOf, List.pairwise_append]
    refine ⟨hsorted, List.pairwise_singleton _ _, fun i hi j hj => ?_⟩
    rw [List.mem_singleton.1 hj, htick]
    exact hold i hi
  · rw [htickOf]
    intro i hi
    rcases List.mem_append.1 hi with hi | hi
    · exact hold i hi
    · exact Nat.le_of_eq ((congrArg c.tickOf (List.mem_singleton.1 hi)).trans htick)
  · rw [hsame.content]
    exact hlive
  · rw [hsame.pool_size, hsame.free_items]
    exact hpool
  · rw [hsame.free_items]
    exact hfree
  · rw [hsame.free_items]
    exact hdisjoint

theorem build_spec (h : c.Holds live clock l) :
    c.build.1 ∉ l ∧ c.build.2.next c.build.1 = none ∧ c.build.2.prev c.build.1 = none ∧
      c.build.2.Ordered l ∧ c.build.2.content = c.content ∧
      (∀ i, i < c.build.2.pool_size ↔ i ∈ l ++ [c.build.1] ∨ i ∈ c.build.2.free_items) ∧
      c.build.2.free_items.Nodup ∧ ∀ i ∈ l ++ [c.build.1], i ∉ c.build.2.free_items := by
  have hassign : ∀ (c' : Cache ObjectType) (id : ℕ), c'.item = c.item →
      c'.first_item = c.first_item → c'.last_item = c.last_item → id ∉ l →
      ((c'.setNext id none).setPrev id none).next id = none ∧
      ((c'.setNext id none).setPrev id none).prev id = none ∧
      ((c'.setNext id none).setPrev id none).Ordered l ∧
      ((c'.setNext id none).setPrev id none).content = c.content := by
    intro c' id hitem hfirst hlast hid
    have hne : ∀ i ∈ l, i ≠ id := fun i hi heq => hid (heq ▸ hi)
    rw [next_setPrev, next_setNext, prev_setPrev, content_setPrev, content_setNext,
      update_self, update_self]
    refine ⟨rfl, rfl, h.ordered.congr hfirst hlast fun i hi => ?_, ?_⟩
    · rw [next_setPrev, next_setNext, prev_setPrev, prev_setNext,
        update_of_ne (hne i hi), update_of_ne (hne i hi)]
      unfold next prev
      rw [hitem]
      exact ⟨rfl, rfl⟩
    · unfold content
      rw [hitem]
  unfold build
  cases hfree : c.free_items with
  | nil =>
      dsimp only
      have hid : c.pool_size ∉ l := fun hmem => absurd ((h.pool _).2 (.inl hmem)) (Nat.lt_irrefl _)
      obtain ⟨hnext, hprev, hordered, hcontent⟩ :=
        hassign { c with pool_size := c.pool_size + 1, free_items := [] } c.pool_size rfl rfl rfl hid
      refine ⟨hid, hnext, hprev, hordered, hcontent, fun i => ?_, List.nodup_nil,
        fun i _ => List.not_mem_nil⟩
      have hpool := h.pool i
      change i < c.pool_size + 1 ↔ i ∈ l ++ [c.pool_size] ∨ i ∈ []
      rw [hfree] at hpool
      simp only [List.mem_append, List.mem_singleton, List.not_mem_nil, or_false] at hpool ⊢
      rw [Nat.lt_succ_iff_lt_or_eq, hpool]
  | cons id rest =>
      dsimp only
      have hnodup := h.free
      rw [hfree] at hnodup
      obtain ⟨hrest, hnodup⟩ := List.nodup_cons.1 hnodup
      have hid : id ∉ l := fun hmem => h.disjoint id hmem (hfree ▸ List.mem_cons_self)
      obtain ⟨hnext, hprev, hordered, hcontent⟩ :=
        hassign { c with free_items := rest } id rfl rfl rfl hid
      refine ⟨hid, hnext, hprev, hordered, hcontent, fun i => ?_, hnodup, fun i hi => ?_⟩
      · change i < c.pool_size ↔ _ ∨ i ∈ rest
        rw [h.pool i, hfree, List.mem_append, List.mem_singleton, List.mem_cons, or_assoc]
      · change i ∉ rest
        rcases List.mem_append.1 hi with hi | hi
        · exact fun hmem => h.disjoint i hi (hfree ▸ List.mem_cons_of_mem id hmem)
        · rw [List.mem_singleton.1 hi]
          exact hrest

theorem insert_holds (h : c.Holds live clock l) (htick : clock ≤ tick) :
    (c.insert obj tick).1 ∉ l ∧ (c.insert obj tick).2.Holds
      (update live (c.insert obj tick).1 (some (obj, tick))) tick
      (l ++ [(c.insert obj tick).1]) := by
  obtain ⟨hid, hnext, hprev, hordered, hcontent, hpool, hfree, hdisjoint⟩ := build_spec h
  unfold insert
  dsimp only
  generalize c.build.1 = id at *
  generalize c.build.2 = c' at *
  have hne : ∀ i ∈ l, i ≠ id := fun i hi heq => hid (heq ▸ hi)
  have hcontent' : ((c'.setObj id obj).setTick id tick).content =
      update c.content id (obj, tick) := by
    rw [content_setTick, content_setObj, update_self, update_idem, hcontent]
  have htickOf : ∀ i ∈ l, ((c'.setObj id obj).setTick id tick).tickOf i = c.tickOf i := by
    intro i hi
    unfold tickOf
    rw [hcontent', update_of_ne (hne i hi)]
  refine ⟨hid, Holds.attach ?_ ?_ ?_ ?_ hid (fun _ => ?_) ?_ hpool hfree hdisjoint⟩
  · have hnext' : ((c'.setObj id obj).setTick id tick).next = c'.next := by
      rw [next_setTick, next_setObj]
    have hprev' : ((c'.setObj id obj).setTick id tick).prev = c'.prev := by
      rw [prev_setTick, prev_setObj]
    exact hordered.congr rfl rfl fun i _ => ⟨congrFun hnext' i, congrFun hprev' i⟩
  · refine h.sorted.imp_of_mem fun {i j} hi hj hle => ?_
    rw [htickOf i hi, htickOf j hj]
    exact hle
  · intro i hi
    rw [htickOf i hi]
    exact Nat.le_trans (h.old i hi) htick
  · unfold tickOf
    rw [hcontent', update_self]
  · rw [next_setTick, next_setObj, prev_setTick, prev_setObj]
    exact ⟨hnext, hprev⟩
  · intro i x
    rw [hcontent']
    by_cases hi : i = id
    · subst hi
      simp
    · simp [hi, h.live i x]

theorem touch_holds (h : c.Holds live clock l) (hid : id ∈ l) (htick : clock ≤ tick) :
    ∃ l', (c.touch id tick).Holds (update live id (some ((c.content id).1, tick))) tick
      l' := by
  unfold touch
  split
  · next hle =>
      have heq : c.tickOf id = tick := Nat.le_antisymm (Nat.le_trans (h.old id hid) htick) hle
      have hlive : update live id (some ((c.content id).1, tick)) = live := by
        rw [← heq]
        exact (congrArg _ ((h.live id _).2 ⟨hid, rfl⟩).symm).trans (update_eq_self id live)
      refine ⟨l, h.ordered, h.sorted, fun i hi => Nat.le_trans (h.old i hi) htick, ?_, h.pool, h.free,
        h.disjoint⟩
      rw [hlive]
      exact h.live
  · obtain ⟨a, b, rfl⟩ := List.append_of_mem hid
    have hnodup := h.ordered.nodup
    have hperm : (a ++ id :: b).Perm (a ++ b ++ [id]) :=
      List.perm_middle.trans (List.perm_append_singleton id (a ++ b)).symm
    have hab : id ∉ a ++ b := (List.nodup_cons.1 (List.perm_middle.nodup_iff.1 hnodup)).1
    have hne : ∀ i ∈ a ++ b, i ≠ id := fun i hi heq => hab (heq ▸ hi)
    have hcontent : (c.setTick id tick).content =
        update c.content id ((c.content id).1, tick) := content_setTick
    have hordered : (c.setTick id tick).Ordered (a ++ id :: b) := h.ordered.congr rfl rfl
      fun i _ => ⟨congrFun next_setTick i, congrFun prev_setTick i⟩
    have hsub : (a ++ b).Sublist (a ++ id :: b) := (List.sublist_cons_self id b).append_left a
    have hsorted : (a ++ b).Pairwise fun i j =>
        (c.setTick id tick).tickOf i ≤ (c.setTick id tick).tickOf j := by
      refine (h.sorted.sublist hsub).imp_of_mem fun {i j} hi hj hle => ?_
      unfold tickOf
      rw [hcontent, update_of_ne (hne i hi), update_of_ne (hne j hj)]
      exact hle
    have hold : ∀ i ∈ a ++ b, (c.setTick id tick).tickOf i ≤ tick := by
      intro i hi
      unfold tickOf
      rw [hcontent, update_of_ne (hne i hi)]
      exact Nat.le_trans (h.old i (hsub.subset hi)) htick
    have hself : (c.setTick id tick).tickOf id = tick := by
      unfold tickOf
      rw [hcontent, update_self]
    have hlive : ∀ i x, update live id (some ((c.content id).1, tick)) i = some x ↔
        i ∈ a ++ b ++ [id] ∧ (c.setTick id tick).content i = x := by
      intro i x
      rw [hcontent, ← hperm.mem_iff]
      by_cases hi : i = id
      · subst hi
        simp
      · rw [update_of_ne hi, update_of_ne hi]
        exact h.live i x
    have hpool : ∀ i, i < c.pool_size ↔ i ∈ a ++ b ++ [id] ∨ i ∈ c.free_items := fun i => by
      rw [h.pool i, hperm.mem_iff]
    have hdisjoint : ∀ i ∈ a ++ b ++ [id], i ∉ c.free_items := fun i hi =>
      h.disjoint i (hperm.mem_iff.2 hi)
    dsimp only
    split
    · next hlast =>
        have hb : b = [] := by
          have hlast : (a ++ id :: b).getLast? = some id := hordered.last.symm.trans hlast
          by_contra hb
          obtain ⟨b', x, rfl⟩ := (List.eq_nil_or_concat' b).resolve_left hb
          rw [← List.cons_append, ← List.append_assoc, List.getLast?_concat] at hlast
          exact hne x (by simp) (Option.some.inj hlast)
        subst hb
        rw [List.append_nil] at *
        refine ⟨a ++ [id], hordered, ?_, ?_, hlive, hpool, h.free, hdisjoint⟩
        · rw [List.pairwise_append]
          refine ⟨hsorted, List.pairwise_singleton _ _, fun i hi j hj => ?_⟩
          rw [List.mem_singleton.1 hj, hself]
          exact hold i hi
        · intro i hi
          rcases List.mem_append.1 hi with hi | hi
          · exact hold i hi
          · exact Nat.le_of_eq
              ((congrArg (c.setTick id tick).tickOf (List.mem_singleton.1 hi)).trans hself)
    · next hlast =>
        obtain ⟨hdetach, hsame⟩ := detach_ordered hordered
        have htickOf : ((c.setTick id tick).detach id).tickOf = (c.setTick id tick).tickOf := by
          unfold tickOf
          rw [hsame.content]
        refine ⟨a ++ b ++ [id], Holds.attach hdetach ?_ ?_ ?_ hab (fun hnil => ?_) ?_ ?_ ?_ ?_⟩
        · rw [htickOf]
          exact hsorted
        · rw [htickOf]
          exact hold
        · rw [htickOf]
          exact hself
        · obtain ⟨rfl, rfl⟩ := List.append_eq_nil_iff.1 hnil
          exact absurd hordered.last hlast
        · rw [hsame.content]
          exact hlive
        · rw [hsame.pool_size, hsame.free_items]
          exact hpool
        · rw [hsame.free_items]
          exact h.free
        · rw [hsame.free_items]
          exact hdisjoint

theorem free_ordered (h : c.Ordered (a ++ id :: b)) :
    (c.free id).Ordered (a ++ b) ∧ (c.free id).content = c.content ∧
      (c.free id).pool_size = c.pool_size ∧ (c.free id).free_items = c.free_items ++ [id] := by
  obtain ⟨hdetach, hsame⟩ := detach_ordered h
  have hab : id ∉ a ++ b := (List.nodup_cons.1 (List.perm_middle.nodup_iff.1 h.nodup)).1
  refine ⟨hdetach.congr rfl rfl fun i hi => ?_, ?_, hsame.pool_size, ?_⟩
  · have hne : i ≠ id := fun heq => hab (heq ▸ hi)
    change (((c.detach id).setPrev id none).setNext id none).next i = _ ∧
      (((c.detach id).setPrev id none).setNext id none).prev i = _
    rw [next_setNext, prev_setNext, next_setPrev, prev_setPrev, update_of_ne hne,
      update_of_ne hne]
    exact ⟨rfl, rfl⟩
  · change (((c.detach id).setPrev id none).setNext id none).content = _
    rw [content_setNext, content_setPrev, hsame.content]
  · change (c.detach id).free_items ++ [id] = _
    rw [hsame.free_items]

theorem free_holds (h : c.Holds live clock l) (hid : id ∈ l) :
    ∃ l', (c.free id).Holds (update live id none) clock l' := by
  obtain ⟨a, b, rfl⟩ := List.append_of_mem hid
  obtain ⟨hordered, hcontent, hpool, hfree⟩ := free_ordered h.ordered
  have hab : id ∉ a ++ b := (List.nodup_cons.1 (List.perm_middle.nodup_iff.1 h.ordered.nodup)).1
  have hsub : (a ++ b).Sublist (a ++ id :: b) := (List.sublist_cons_self id b).append_left a
  have hmem : ∀ i, i ∈ a ++ id :: b ↔ i = id ∨ i ∈ a ++ b := fun i => by
    rw [List.perm_middle.mem_iff, List.mem_cons]
  have htickOf : (c.free id).tickOf = c.tickOf := by
    unfold tickOf
    rw [hcontent]
  refine ⟨a ++ b, hordered, ?_, ?_, ?_, ?_, ?_, ?_⟩
  · rw [htickOf]
    exact h.sorted.sublist hsub
  · rw [htickOf]
    exact fun i hi => h.old i (hsub.subset hi)
  · intro i x
    rw [hcontent]
    by_cases hi : i = id
    · subst hi
      simp [hab]
    · rw [update_of_ne hi, h.live i x, hmem, or_iff_right hi]
  · intro i
    rw [hpool, hfree, h.pool i, hmem]
    simp only [List.mem_append, List.mem_singleton]
    tauto
  · rw [hfree]
    refine List.nodup_append.2 ⟨h.free, List.nodup_singleton id, fun i hi j hj heq => ?_⟩
    rw [heq, List.mem_singleton.1 hj] at hi
    exact h.disjoint id hid hi
  · intro i hi
    rw [hfree, List.mem_append, List.mem_singleton]
    rintro (hmem | rfl)
    · exact h.disjoint i (hsub.subset hi) hmem
    · exact hab hi

end Cache

/-! ### Runs -/

structure Traced (ObjectType : Type) where
  cache : Cache ObjectType
  live : ℕ → Option (ObjectType × ℕ) := fun _ => none
  clock : ℕ := 0

inductive Op (ObjectType : Type)
  | insert (obj : ObjectType) (tick : ℕ)
  | touch (id tick : ℕ)
  | free (id : ℕ)

variable {ObjectType : Type}

def Traced.step (s : Traced ObjectType) :
    Op ObjectType → Option (Traced ObjectType)
  | .insert obj tick =>
      let (id, cache) := s.cache.insert obj tick
      if s.clock ≤ tick ∧ tick < 2 ^ 64 then
        some { cache := cache, live := update s.live id (some (obj, tick)), clock := tick }
      else none
  | .touch id tick =>
      match s.live id with
      | some (obj, _) =>
          if s.clock ≤ tick ∧ tick < 2 ^ 64 then
            some { cache := s.cache.touch id tick,
                   live := update s.live id (some (obj, tick)), clock := tick }
          else none
      | none => none
  | .free id =>
      if (s.live id).isSome then
        some { s with cache := s.cache.free id, live := update s.live id none }
      else none

def Reachable (empty : Cache ObjectType) : Traced ObjectType → Prop :=
  Transition.Reachable Traced.step (fun _ _ => True) { cache := empty }

def Cache.Empty (c : Cache ObjectType) : Prop :=
  c.pool_size = 0 ∧ c.free_items = [] ∧ c.first_item = none ∧ c.last_item = none

variable {s s' : Traced ObjectType} {op : Op ObjectType} {empty : Cache ObjectType} {l : List ℕ}

theorem step_holds (h : s.cache.Holds s.live s.clock l) (hs : s.step op = some s') :
    ∃ l', s'.cache.Holds s'.live s'.clock l' := by
  cases op with
  | insert obj tick =>
      unfold Traced.step at hs
      dsimp only at hs
      split at hs
      · next hle =>
          cases hs
          exact ⟨_, (Cache.insert_holds h hle.1).2⟩
      · cases hs
  | touch id tick =>
      unfold Traced.step at hs
      dsimp only at hs
      split at hs
      · next obj tick' hid =>
          split at hs
          · next hle =>
              cases hs
              obtain ⟨hmem, hcontent⟩ := (h.live id _).1 hid
              have htouch := Cache.touch_holds h hmem hle.1
              rw [hcontent] at htouch
              exact htouch
          · cases hs
      · cases hs
  | free id =>
      unfold Traced.step at hs
      dsimp only at hs
      split at hs
      · next hid =>
          cases hs
          exact Cache.free_holds h (h.mem_iff.2 hid)
      · cases hs

theorem reachable_holds (hempty : empty.Empty) (h : Reachable empty s) :
    ∃ l, s.cache.Holds s.live s.clock l := by
  refine h.invariant (P := fun s => ∃ l, s.cache.Holds s.live s.clock l) ⟨[], ⟨hempty.2.2.1, hempty.2.2.2, True.intro, List.nodup_nil⟩, .nil, nofun,
    fun i x => ⟨nofun, fun hx => absurd hx.1 List.not_mem_nil⟩, fun i => ?_, ?_, nofun⟩
    fun s s' op ⟨l, hl⟩ _ hs => step_holds hl hs
  · change i < empty.pool_size ↔ i ∈ [] ∨ i ∈ empty.free_items
    rw [hempty.1, hempty.2.1]
    exact ⟨nofun, fun hi => hi.elim (absurd · List.not_mem_nil) (absurd · List.not_mem_nil)⟩
  · change empty.free_items.Nodup
    rw [hempty.2.1]
    exact List.nodup_nil

theorem reachable_ticks (h : Reachable empty s) :
    s.clock < 2 ^ 64 := by
  refine h.invariant (P := fun s => s.clock < 2 ^ 64) (Nat.two_pow_pos 64)
    fun s s' op hclock _ hs => ?_
  cases op with
  | insert obj tick =>
      unfold Traced.step at hs
      dsimp only at hs
      split at hs
      · next hle =>
          cases hs
          exact hle.2
      · cases hs
  | touch id tick =>
      unfold Traced.step at hs
      dsimp only at hs
      split at hs
      · split at hs
        · next hle =>
            cases hs
            exact hle.2
        · cases hs
      · cases hs
  | free id =>
      unfold Traced.step at hs
      dsimp only at hs
      split at hs
      · cases hs
        exact hclock
      · cases hs

/-! ### The visit -/

section Visits

variable {σ : Type} {c : Cache ObjectType} {tick : ℕ} {func : σ → ObjectType → Visit σ}
  {content : ℕ → ObjectType × ℕ}

/-- The items that a visitor should be called on, of those that are old enough. -/
def expected (content : ℕ → ObjectType × ℕ) (func : σ → ObjectType → Visit σ) :
    σ → List ℕ → List ℕ
  | _, [] => []
  | s, i :: l =>
      let visit := func s (content i).1
      i :: if visit.result then [] else expected content func visit.state l

def StopsOnlyLast (content : ℕ → ObjectType × ℕ) (func : σ → ObjectType → Visit σ) :
    σ → List ℕ → Prop
  | _, [] => True
  | s, i :: l =>
      let visit := func s (content i).1
      (l ≠ [] → visit.result = false) ∧ StopsOnlyLast content func visit.state l

def SameSide (content : ℕ → ObjectType × ℕ) (tick : ℕ) : List ℕ → Prop
  | [] => True
  | i :: l => ((content i).2 < 2 ^ 63 ↔ tick < 2 ^ 63) ∧
      ((content i).2 ≤ tick → SameSide content tick l)

def due (content : ℕ → ObjectType × ℕ) (tick : ℕ) (l : List ℕ) : List ℕ :=
  l.takeWhile fun i => (content i).2 ≤ tick

theorem due_cons_of_le {i : ℕ} (h : (content i).2 ≤ tick) :
    due content tick (i :: l) = i :: due content tick l :=
  List.takeWhile_cons_of_pos (p := fun i => decide ((content i).2 ≤ tick)) (decide_eq_true h)

theorem due_cons_of_not_le {i : ℕ} (h : ¬(content i).2 ≤ tick) :
    due content tick (i :: l) = [] :=
  List.takeWhile_cons_of_neg (p := fun i => decide ((content i).2 ≤ tick))
    fun hle => h (of_decide_eq_true hle)

theorem isBelow_of_sameSide {t x : ℕ} (ht : t < 2 ^ 64) (hx : x < 2 ^ 64)
    (h : x < 2 ^ 63 ↔ t < 2 ^ 63) : isBelow t x = .ok (decide (t < x)) := by
  have hdiff : toSigned t - toSigned x = (t : ℤ) - x := by
    unfold toSigned
    by_cases ht' : t < 2 ^ 63
    · rw [if_pos ht', if_pos (h.2 ht')]
    · rw [if_neg ht', if_neg fun hx => ht' (h.1 hx)]
      omega
  unfold isBelow
  dsimp only
  rw [hdiff, if_pos (by omega)]
  congr 1
  rw [decide_eq_decide]
  omega

theorem isBelow_of_not_sameSide {t x : ℕ} (ht : t < 2 ^ 64) (hx : x < 2 ^ 64)
    (h : ¬(x < 2 ^ 63 ↔ t < 2 ^ 63)) :
    isBelow t x = .error .undefined ∨ isBelow t x = .ok (decide (x < t)) := by
  unfold isBelow
  dsimp only
  split
  · refine .inr ?_
    congr 1
    rw [decide_eq_decide]
    unfold toSigned
    by_cases ht' : t < 2 ^ 63
    · have hx' : ¬x < 2 ^ 63 := fun hx' => h ⟨fun _ => ht', fun _ => hx'⟩
      rw [if_pos ht', if_neg hx']
      omega
    · have hx' : x < 2 ^ 63 := by
        by_contra hx'
        exact h ⟨fun hlt => absurd hlt hx', fun hlt => absurd hlt ht'⟩
      rw [if_neg ht', if_pos hx']
      omega
  · exact .inl rfl

theorem visitFrom_visit {fuel i : ℕ} {s : σ} (h : isBelow tick (c.item i).tick = .ok false) :
    visitFrom tick func (fuel + 1) (some i) c s =
      (fun rest => { rest with called := i :: rest.called }) <$>
        visitFrom tick func fuel (c.next i)
          (if (func s (c.item i).obj).frees then c.free i else c) (func s (c.item i).obj).state := by
  rw [visitFrom, h]
  dsimp only [bind, Except.bind]
  rw [if_neg Bool.false_ne_true]
  rfl

theorem called_ne_nil {fuel i : ℕ} {s : σ} {r : Visited ObjectType σ}
    (h : isBelow tick (c.item i).tick = .ok false) (hfuel : 0 < fuel)
    (hr : visitFrom tick func fuel (some i) c s = .ok r) : r.called ≠ [] := by
  obtain ⟨fuel, rfl⟩ := Nat.exists_eq_succ_of_ne_zero (Nat.ne_of_gt hfuel)
  rw [visitFrom_visit h] at hr
  obtain ⟨rest, -, rfl⟩ := Exec.map_eq_ok.1 hr
  exact List.cons_ne_nil _ _

theorem visitFrom_below {fuel i : ℕ} {s : σ} (h : isBelow tick (c.item i).tick = .ok true) :
    visitFrom tick func (fuel + 1) (some i) c s = .ok { cache := c, state := s } := by
  rw [visitFrom, h]
  rfl

theorem visitFrom_undefined {fuel i : ℕ} {s : σ}
    (h : isBelow tick (c.item i).tick = .error .undefined) :
    visitFrom tick func (fuel + 1) (some i) c s = .error .undefined := by
  rw [visitFrom, h]
  rfl

theorem ordered_after_visit {a b : List ℕ} {i : ℕ} (frees : Bool)
    (h : c.Ordered (a ++ i :: b)) : ∃ a', (if frees then c.free i else c).Ordered (a' ++ b) ∧
      (if frees then c.free i else c).content = c.content := by
  cases frees with
  | false => exact ⟨a ++ [i], by simpa using h, rfl⟩
  | true =>
      obtain ⟨hordered, hcontent, -⟩ := Cache.free_ordered h
      exact ⟨a, hordered, hcontent⟩

theorem visitFrom_iff {a b : List ℕ} {fuel : ℕ} {s : σ} (ht : tick < 2 ^ 64)
    (hordered : c.Ordered (a ++ b)) (hcontent : c.content = content)
    (hsorted : b.Pairwise fun i j => (content i).2 ≤ (content j).2)
    (hlt : ∀ i ∈ b, (content i).2 < 2 ^ 64) (hfuel : b.length ≤ fuel) :
    (∃ r, visitFrom tick func fuel b.head? c s = .ok r ∧
      r.called = expected content func s (due content tick b)) ↔
    StopsOnlyLast content func s (due content tick b) ∧ SameSide content tick b := by
  induction b generalizing a c fuel s with
  | nil =>
      have hnil : visitFrom tick func fuel none c s = .ok { cache := c, state := s } := by
        cases fuel <;> rfl
      exact iff_of_true ⟨_, hnil, rfl⟩ ⟨True.intro, True.intro⟩
  | cons i b ih =>
      cases fuel with
      | zero => exact absurd hfuel (Nat.not_succ_le_zero _)
      | succ fuel =>
          have hi := hlt i List.mem_cons_self
          have htick : (c.item i).tick = (content i).2 := by rw [← hcontent]; rfl
          have hobj : (c.item i).obj = (content i).1 := by rw [← hcontent]; rfl
          have hnext : c.next i = b.head? := hordered.linked.pointers.2
          obtain ⟨hrest, hsorted⟩ := List.pairwise_cons.1 hsorted
          have hvisit : isBelow tick (content i).2 = .ok false →
              visitFrom tick func (fuel + 1) (i :: b).head? c s =
                (fun rest => { rest with called := i :: rest.called }) <$>
                  visitFrom tick func fuel b.head?
                    (if (func s (content i).1).frees then c.free i else c)
                    (func s (content i).1).state := fun h => by
            rw [List.head?_cons, visitFrom_visit (by rw [htick, h]), hnext, hobj]
          have hbelow : isBelow tick (content i).2 = .ok true →
              visitFrom tick func (fuel + 1) (i :: b).head? c s =
                .ok { cache := c, state := s } := fun h =>
            visitFrom_below (by rw [htick, h])
          by_cases hside : (content i).2 < 2 ^ 63 ↔ tick < 2 ^ 63
          · have hcompare := isBelow_of_sameSide ht hi hside
            by_cases hle : (content i).2 ≤ tick
            · rw [decide_eq_false (Nat.not_lt.2 hle)] at hcompare
              obtain ⟨a', hordered', hcontent'⟩ :=
                ordered_after_visit (func s (content i).1).frees hordered
              have ih := ih (s := (func s (content i).1).state) hordered'
                (hcontent'.trans hcontent) hsorted
                (fun j hj => hlt j (List.mem_cons_of_mem i hj)) (Nat.le_of_succ_le_succ hfuel)
              rw [hvisit hcompare, due_cons_of_le hle]
              simp only [Exec.map_eq_ok, expected, StopsOnlyLast, SameSide]
              cases hresult : (func s (content i).1).result with
              | false =>
                  rw [if_neg Bool.false_ne_true]
                  constructor
                  · rintro ⟨r, ⟨rest, hr, rfl⟩, hcalled⟩
                    obtain ⟨hstops, hsides⟩ := ih.1 ⟨rest, hr, (List.cons.inj hcalled).2⟩
                    exact ⟨⟨fun _ => rfl, hstops⟩, hside, fun _ => hsides⟩
                  · rintro ⟨⟨-, hstops⟩, -, hsides⟩
                    obtain ⟨rest, hr, hcalled⟩ := ih.2 ⟨hstops, hsides hle⟩
                    exact ⟨_, ⟨rest, hr, rfl⟩, congrArg (i :: ·) hcalled⟩
              | true =>
                  rw [if_pos rfl]
                  constructor
                  · rintro ⟨r, ⟨rest, hr, rfl⟩, hcalled⟩
                    have hnone : rest.called = [] := (List.cons.inj hcalled).2
                    have hnil : due content tick b = [] := by
                      cases b with
                      | nil => rfl
                      | cons j b =>
                          refine due_cons_of_not_le fun hj => ?_
                          have hij := hrest j List.mem_cons_self
                          have hcompare := isBelow_of_sameSide ht
                            (hlt j (List.mem_cons_of_mem i List.mem_cons_self))
                            ⟨fun h => hside.1 (Nat.lt_of_le_of_lt hij h),
                              fun h => Nat.lt_of_le_of_lt hj h⟩
                          rw [decide_eq_false (Nat.not_lt.2 hj), ← hcontent, ← hcontent'] at hcompare
                          exact called_ne_nil hcompare (Nat.lt_of_lt_of_le (Nat.succ_pos _)
                            (Nat.le_of_succ_le_succ hfuel)) hr hnone
                    rw [hnil] at ih ⊢
                    obtain ⟨-, hsides⟩ := ih.1 ⟨rest, hr, hnone⟩
                    exact ⟨⟨fun h => absurd rfl h, True.intro⟩, hside, fun _ => hsides⟩
                  · rintro ⟨⟨hlast, hstops⟩, -, hsides⟩
                    have hnil : due content tick b = [] := by
                      by_contra hne
                      exact absurd (hlast hne) nofun
                    obtain ⟨rest, hr, hcalled⟩ := ih.2 ⟨hstops, hsides hle⟩
                    rw [hnil] at hcalled
                    exact ⟨_, ⟨rest, hr, rfl⟩, congrArg (i :: ·) hcalled⟩
            · rw [decide_eq_true (Nat.not_le.1 hle)] at hcompare
              rw [hbelow hcompare, due_cons_of_not_le hle]
              exact iff_of_true ⟨_, rfl, rfl⟩ ⟨True.intro, hside, fun h => absurd h hle⟩
          · refine iff_of_false ?_ fun h => hside h.2.1
            rintro ⟨r, hr, hcalled⟩
            obtain hcompare | hcompare := isBelow_of_not_sameSide ht hi hside
            · rw [List.head?_cons, visitFrom_undefined (by rw [htick, hcompare])] at hr
              cases hr
            · by_cases hle : (content i).2 ≤ tick
              · have hlt' : (content i).2 < tick := by
                  refine Nat.lt_of_le_of_ne hle fun heq => hside ?_
                  rw [heq]
                rw [decide_eq_true hlt'] at hcompare
                rw [hbelow hcompare] at hr
                cases hr
                rw [due_cons_of_le hle] at hcalled
                cases hcalled
              · rw [decide_eq_false fun h => hle (Nat.le_of_lt h)] at hcompare
                rw [hvisit hcompare] at hr
                obtain ⟨rest, -, rfl⟩ := Exec.map_eq_ok.1 hr
                rw [due_cons_of_not_le hle] at hcalled
                cases hcalled

end Visits

def CalledRight {σ : Type} (s : Traced ObjectType) (l : List ℕ) (tick : ℕ)
    (func : σ → ObjectType → Visit σ) (start : σ) : Prop :=
  ∃ r, s.cache.forEachItemBelow tick func start = .ok r ∧
    r.called = expected s.cache.content func start (due s.cache.content tick l)

/-- In every state that a run leads to, the list has each live id once, in the order of the ticks
and with pointers in both directions, and a new id is not live. A visit is called on exactly the
items that are old enough and stops where it is asked to, whether it frees items or not, if and
only if it is not asked to stop before the last one and the signed comparisons are those of the
ticks. -/
theorem lru_ordered_iff (empty : Cache ObjectType) (hempty : empty.Empty)
    (s : Traced ObjectType) (h : Reachable empty s) :
    (∀ obj tick, s.live (s.cache.insert obj tick).1 = none) ∧
    ∃ l, s.cache.Ordered l ∧ (∀ i, i ∈ l ↔ (s.live i).isSome = true) ∧
      (∀ i ∈ l, s.live i = some (s.cache.content i)) ∧
      (l.Pairwise fun i j => s.cache.tickOf i ≤ s.cache.tickOf j) ∧
      ∀ (σ : Type) (tick : ℕ) (func : σ → ObjectType → Visit σ) (start : σ), tick < 2 ^ 64 →
        (CalledRight s l tick func start ↔
          StopsOnlyLast s.cache.content func start (due s.cache.content tick l) ∧
            SameSide s.cache.content tick l) := by
  obtain ⟨l, hl⟩ := reachable_holds hempty h
  have hclock := reachable_ticks h
  refine ⟨fun obj tick => ?_, l, hl.ordered, fun i => hl.mem_iff,
    fun i hi => (hl.live i _).2 ⟨hi, rfl⟩, hl.sorted, fun σ tick func start ht => ?_⟩
  · have hid := (Cache.build_spec hl).1
    rw [hl.mem_iff] at hid
    exact Option.not_isSome_iff_eq_none.1 hid
  · have hpool : l.length ≤ s.cache.pool_size := by
      have hsub : l ⊆ List.range s.cache.pool_size := fun i hi =>
        List.mem_range.2 ((hl.pool i).2 (.inl hi))
      have hle := (List.subperm_of_subset hl.ordered.nodup hsub).length_le
      rwa [List.length_range] at hle
    unfold CalledRight Cache.forEachItemBelow
    rw [hl.ordered.first]
    exact visitFrom_iff (a := []) ht hl.ordered rfl hl.sorted
      (fun i hi => Nat.lt_of_le_of_lt (hl.old i hi) hclock) hpool

def noItems : Cache ℕ := { item := fun _ => { obj := 0, tick := 0 } }

/-- Two objects with the ticks 1 and 2. -/
def twoItems : Traced ℕ :=
  let first := noItems.insert 10 1
  let second := first.2.insert 11 2
  { cache := second.2
    live := update (update (fun _ => none) first.1 (some (10, 1))) second.1
      (some (11, 2))
    clock := 2 }

theorem reachable_twoItems : Reachable noItems twoItems :=
  Transition.reachable_of_run (l := [.insert 10 1, .insert 11 2]) rfl
    (Transition.allOk_of_forall fun _ _ _ => True.intro)

/-- The list of the two objects. -/
theorem lru_ordered_iff_twoItems : ∃ l, twoItems.cache.Ordered l ∧
    ∀ i, i ∈ l ↔ (twoItems.live i).isSome = true := by
  obtain ⟨-, l, hordered, hmem, -⟩ :=
    lru_ordered_iff noItems ⟨rfl, rfl, rfl, rfl⟩ twoItems reachable_twoItems
  exact ⟨l, hordered, hmem⟩

/-- A visitor that asks to stop at once is called on both. -/
theorem visit_not_stopped : Reachable noItems twoItems ∧ twoItems.cache.Ordered [0, 1] ∧
    ¬CalledRight twoItems [0, 1] 5 (fun (_ : Unit) _ => { state := (), result := true }) () := by
  refine ⟨reachable_twoItems, ⟨rfl, rfl, ⟨rfl, rfl, rfl, rfl, True.intro⟩, by decide⟩, ?_⟩
  rintro ⟨r, hr, hcalled⟩
  have hcode : (twoItems.cache.forEachItemBelow 5
      (fun (_ : Unit) _ => { state := (), result := true }) ()).map (·.called) = .ok [0, 1] := rfl
  rw [hr] at hcode
  have hboth : r.called = [0, 1] := Except.ok.inj hcode
  rw [hboth] at hcalled
  exact absurd hcalled (by decide)

end Lru

end OrbitConsole.Common
