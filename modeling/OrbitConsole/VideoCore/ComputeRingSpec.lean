import OrbitConsole.VideoCore.ComputeRing

/-!
# Cutting a compute stream

A stream of whole packets and padding, cut into buffers so that no packet spreads
over more than two of them and no padding dword seems longer than what is left of
its buffer, is executed as the undivided stream is, and `read_addr` follows each
buffer.
-/

namespace OrbitConsole.VideoCore

open Pm4

inductive Item where
  | pad (dword : ℕ)
  | packet (dwords : List ℕ)

def Item.dwords : Item → List ℕ
  | pad dword => [dword]
  | packet dwords => dwords

def streamDwords (items : List Item) : List ℕ := items.flatMap Item.dwords

/-- In the given number of dwords from the first item on, no padding dword seems longer than
what is left. -/
def PadsFit : List Item → ℕ → Prop
  | [], _ => True
  | .pad dword :: rest, left => (left ≠ 0 → packetLength dword ≤ left) ∧ PadsFit rest (left - 1)
  | .packet dwords :: rest, left => PadsFit rest (left - dwords.length)

/-- The items that are not complete after so many dwords, and what there is of the first. -/
def afterDwords : List Item → ℕ → List Item × ℕ
  | [], _ => ([], 0)
  | item :: rest, left =>
      if item.dwords.length ≤ left then afterDwords rest (left - item.dwords.length)
      else (item :: rest, left)

/-- The buffers go on with the stream after `pending` dwords of its first item: that item ends
in the first of them, if it has begun, and padding fits in its buffer. -/
def CutFits : List Item → ℕ → List (List ℕ) → Prop
  | _, _, [] => True
  | items, pending, acb :: rest =>
      (pending ≠ 0 → ∀ item ∈ items.head?, item.dwords.length ≤ pending + acb.length) ∧
        PadsFit items (pending + acb.length) ∧
        CutFits (afterDwords items (pending + acb.length)).1
          (afterDwords items (pending + acb.length)).2 rest

/-- A well-formed stream with the packets it executes, those of its indirect buffers included,
and the fuel this takes. What is asked of an indirect buffer is `fit`. -/
inductive Runs (mem : ℕ → ℕ) (fit : List Item → Prop) :
    List Item → List (List ℕ) → ℕ → Prop
  | nil : Runs mem fit [] [] 1
  | pad {dword : ℕ} {rest : List Item} {packets : List (List ℕ)} {n : ℕ}
      (htype : headerType dword = 2) (hrest : Runs mem fit rest packets n) :
      Runs mem fit (.pad dword :: rest) packets (n + 1)
  | packet {header : ℕ} {body : List ℕ} {rest : List Item} {packets : List (List ℕ)} {n : ℕ}
      (htype : headerType header = 3) (hop : headerOpcode header ∈ computeOpcodes)
      (hlen : (header :: body).length = packetLength header)
      (hfits : packetLength header ≤ pm4BufferSize) (hrest : Runs mem fit rest packets n) :
      Runs mem fit (.packet (header :: body) :: rest) ((header :: body) :: packets) (n + 1)
  | indirect {header : ℕ} {body : List ℕ} {inner rest : List Item}
      {packets packets' : List (List ℕ)} {n n' : ℕ}
      (htype : headerType header = 3) (hop : headerOpcode header = opIndirectBuffer)
      (hlen : (header :: body).length = packetLength header) (hlong : 4 ≤ packetLength header)
      (hfits : packetLength header ≤ pm4BufferSize)
      (hmem : streamDwords inner = indirectBuffer mem (header :: body)) (hfit : fit inner)
      (hinner : Runs mem fit inner packets' n') (hrest : Runs mem fit rest packets n) :
      Runs mem fit (.packet (header :: body) :: rest) ((header :: body) :: packets' ++ packets)
        (max n n' + 1)

/-- The padding of an indirect buffer fits in it. -/
def WholePadsFit (items : List Item) : Prop := PadsFit items (streamDwords items).length

variable {mem : ℕ → ℕ} {items : List Item} {packets : List (List ℕ)} {n : ℕ}

theorem Runs.pos {fit : List Item → Prop} (h : Runs mem fit items packets n) : 0 < n := by
  cases h <;> omega

namespace AscQueueInfo

variable {queue queue' queue'' : AscQueueInfo} {isIndirect : Bool}

/-- The ring is one that `sceGnmMapComputeQueue` takes: its size is a power of two. -/
def RingOk (queue : AscQueueInfo) : Prop :=
  queue.ringSizeDw ≠ 0 ∧ queue.ringSizeDw ∣ 4294967296

/-- `read_addr` has gone on by so many dwords, if the buffer is one of the ring. -/
structure Advanced (isIndirect : Bool) (queue queue' : AscQueueInfo) (n : ℕ) : Prop where
  ring : queue'.ringSizeDw = queue.ringSizeDw
  addr : queue'.readAddr =
    if isIndirect ∨ n = 0 then queue.readAddr else (queue.readAddr + n) % queue.ringSizeDw

theorem Advanced.refl : Advanced isIndirect queue queue 0 := ⟨rfl, by simp⟩

theorem Advanced.trans {n n' : ℕ} (h : Advanced isIndirect queue queue' n)
    (h' : Advanced isIndirect queue' queue'' n') :
    Advanced isIndirect queue queue'' (n + n') := by
  refine ⟨h'.ring.trans h.ring, ?_⟩
  rw [h'.addr, h.addr, h.ring]
  cases isIndirect
  case true => simp
  case false =>
      by_cases hn : n = 0
      · simp [hn]
      · by_cases hn' : n' = 0
        · simp [hn, hn']
        · simp only [hn, hn', Bool.false_eq_true, or_self, if_false, Nat.add_eq_zero_iff,
            and_self, Nat.mod_add_mod, Nat.add_assoc]

theorem Advanced.of_indirect {n : ℕ} (h : Advanced true queue queue' n) :
    Advanced isIndirect queue queue' 0 :=
  ⟨h.ring, by simpa using h.addr⟩

theorem Advanced.ringOk {n : ℕ} (h : Advanced isIndirect queue queue' n) (hring : queue.RingOk) :
    queue'.RingOk := by
  unfold RingOk at hring ⊢
  rw [h.ring]
  exact hring

theorem advance_spec (isIndirect : Bool) (hring : queue.RingOk) {n : ℕ} (hn : n ≠ 0) :
    ∃ queue', queue.advance isIndirect n = .ok queue' ∧ Advanced isIndirect queue queue' n ∧
      queue'.tmpDwords = queue.tmpDwords ∧ queue'.tmpPacket = queue.tmpPacket := by
  unfold advance
  cases isIndirect
  case true => exact ⟨queue, rfl, ⟨rfl, by simp⟩, rfl, rfl⟩
  case false =>
      rw [if_neg (by simp), if_neg hring.1]
      refine ⟨_, rfl, ⟨rfl, ?_⟩, rfl, rfl⟩
      simp [hn, Nat.mod_mod_of_dvd _ hring.2]

end AscQueueInfo

section Steps

variable {fuel next : ℕ} {isIndirect : Bool} {acb source : List ℕ}
  {queue queue₁ queue₂ queue₃ : AscQueueInfo}

theorem fetch_plain (h : queue.tmpDwords = 0) :
    queue.fetch acb = .ok (acb, packetLength (acb.headD 0), queue) := by
  unfold AscQueueInfo.fetch
  rw [h, if_neg (by omega)]

theorem opIndirectBuffer_notMem : opIndirectBuffer ∉ computeOpcodes := by decide

theorem process_pad (hne : acb ≠ []) (hfetch : queue.fetch acb = .ok (source, next, queue₁))
    (hnext : next ≤ acb.length) (htype : headerType (source.headD 0) = 2)
    (hadvance : queue₁.advance isIndirect 1 = .ok queue₂)
    (hrest : processCompute mem fuel isIndirect (acb.drop 1) queue₂ = .ok (packets, queue₃)) :
    processCompute mem (fuel + 1) isIndirect acb queue = .ok (packets, queue₃) := by
  unfold processCompute
  rw [if_neg hne, hfetch]
  simp only [bind, Except.bind]
  rw [if_neg (by omega), if_pos htype, hadvance]
  exact hrest

theorem process_packet (hne : acb ≠ []) (hfetch : queue.fetch acb = .ok (source, next, queue₁))
    (hnext : next ≤ acb.length) (htype : headerType (source.headD 0) = 3)
    (hop : headerOpcode (source.headD 0) ∈ computeOpcodes)
    (hadvance : queue₁.advance isIndirect next = .ok queue₂)
    (hrest : processCompute mem fuel isIndirect (acb.drop next) queue₂ =
      .ok (packets, queue₃)) :
    processCompute mem (fuel + 1) isIndirect acb queue =
      .ok (source.take (packetLength (source.headD 0)) :: packets, queue₃) := by
  have hindirect : headerOpcode (source.headD 0) ≠ opIndirectBuffer := by
    intro h
    rw [h] at hop
    exact opIndirectBuffer_notMem hop
  unfold processCompute
  rw [if_neg hne, hfetch]
  simp only [bind, Except.bind]
  rw [if_neg (by omega), if_neg (by omega), if_neg (not_not.2 htype), if_neg hindirect,
    if_pos hop, hadvance]
  simp only
  rw [hrest]

theorem process_indirect {inner : List (List ℕ)} {queue' : AscQueueInfo} (hne : acb ≠ [])
    (hfetch : queue.fetch acb = .ok (source, next, queue₁)) (hnext : next ≤ acb.length)
    (htype : headerType (source.headD 0) = 3)
    (hop : headerOpcode (source.headD 0) = opIndirectBuffer)
    (hinner : processCompute mem fuel true
      (indirectBuffer mem (source.take (packetLength (source.headD 0)))) queue₁ =
        .ok (inner, queue'))
    (hadvance : queue'.advance isIndirect next = .ok queue₂)
    (hrest : processCompute mem fuel isIndirect (acb.drop next) queue₂ =
      .ok (packets, queue₃)) :
    processCompute mem (fuel + 1) isIndirect acb queue =
      .ok (source.take (packetLength (source.headD 0)) :: inner ++ packets, queue₃) := by
  unfold processCompute
  rw [if_neg hne, hfetch]
  simp only [bind, Except.bind]
  rw [if_neg (by omega), if_neg (by omega), if_neg (not_not.2 htype), if_pos hop, hinner]
  simp only
  rw [hadvance]
  simp only
  rw [hrest]

theorem process_split (hne : acb ≠ []) (hfetch : queue.fetch acb = .ok (source, next, queue₁))
    (hnext : acb.length < next) (hlen : acb.length ≤ pm4BufferSize)
    (hadvance : { queue₁ with
      tmpPacket := copyInto queue₁.tmpPacket 0 acb
      tmpDwords := acb.length }.advance isIndirect acb.length = .ok queue₂) :
    processCompute mem (fuel + 1) isIndirect acb queue = .ok ([], queue₂) := by
  unfold processCompute
  rw [if_neg hne, hfetch]
  simp only [bind, Except.bind]
  rw [if_pos hnext, if_neg (by omega), hadvance]

theorem process_nil : processCompute mem (fuel + 1) isIndirect [] queue = .ok ([], queue) := by
  unfold processCompute
  rw [if_pos rfl]

end Steps

structure Buffered (queue : AscQueueInfo) (pre : List ℕ) : Prop where
  len : queue.tmpDwords = pre.length
  take : queue.tmpPacket.take pre.length = pre

structure Leaves (mem : ℕ → ℕ) (isIndirect : Bool) (left k : ℕ) (later : List ℕ)
    (items : List Item) (packets : List (List ℕ)) (n : ℕ) (queue : AscQueueInfo)
    (done : List (List ℕ)) (queue' : AscQueueInfo) : Prop where
  exists_rest : ∃ items' pre packets' n', Runs mem WholePadsFit items' packets' n' ∧ n' ≤ n ∧
    packets = done ++ packets' ∧ pre ++ later = streamDwords items' ∧
    afterDwords items left = (items', pre.length) ∧ Buffered queue' pre ∧
    (pre ≠ [] → ∃ p rest, items' = .packet p :: rest ∧ pre.length < p.length)
  advanced : queue.Advanced isIndirect queue' k

theorem item_ne_nil {fit : List Item → Prop} (h : Runs mem fit items packets n) :
    ∀ item ∈ items, item.dwords ≠ [] := by
  induction h with
  | nil => simp
  | pad _ _ ih => simpa [Item.dwords] using ih
  | packet _ _ _ _ _ ih => simpa [Item.dwords] using ih
  | indirect _ _ _ _ _ _ _ _ _ _ ih => simpa [Item.dwords] using ih

theorem afterDwords_zero {fit : List Item → Prop} (h : Runs mem fit items packets n) :
    afterDwords items 0 = (items, 0) := by
  cases items with
  | nil => rfl
  | cons item rest =>
      have := List.length_pos_iff.2 (item_ne_nil h item List.mem_cons_self)
      unfold afterDwords
      rw [if_neg (by omega)]

theorem leaves_nil {isIndirect : Bool} {later : List ℕ} {queue : AscQueueInfo}
    (h : Runs mem WholePadsFit items packets n) (hlater : later = streamDwords items)
    (htmp : queue.tmpDwords = 0) :
    Leaves mem isIndirect 0 0 later items packets n queue [] queue where
  exists_rest := ⟨items, [], packets, n, h, Nat.le_refl _, rfl, hlater, afterDwords_zero h,
    ⟨htmp, rfl⟩, fun hne => absurd rfl hne⟩
  advanced := .refl

theorem Leaves.cons {isIndirect : Bool} {left k j m : ℕ} {later : List ℕ}
    {done : List (List ℕ)} {queue queue₁ queue' : AscQueueInfo} (item : Item)
    (front : List (List ℕ))
    (h : Leaves mem isIndirect left k later items packets n queue₁ done queue') (hm : n ≤ m)
    (hadvanced : queue.Advanced isIndirect queue₁ j) :
    Leaves mem isIndirect (item.dwords.length + left) (j + k) later (item :: items)
      (front ++ packets) m queue (front ++ done) queue' where
  exists_rest := by
    obtain ⟨items', pre, packets', n', hruns, hle, hpackets, hdwords, hafter, hbuf, hpre⟩ :=
      h.exists_rest
    refine ⟨items', pre, packets', n', hruns, Nat.le_trans hle hm,
      by rw [hpackets, List.append_assoc], hdwords, ?_, hbuf, hpre⟩
    unfold afterDwords
    rw [if_pos (Nat.le_add_right _ _), Nat.add_sub_cancel_left, hafter]
  advanced := hadvanced.trans h.advanced

theorem copyInto_take (tmp pre data : List ℕ) (h : tmp.take pre.length = pre) :
    (copyInto tmp pre.length data).take (pre.length + data.length) = pre ++ data := by
  unfold copyInto
  rw [h, List.take_append_of_le_length (by simp), List.take_of_length_le (by simp)]

theorem split_spec {isIndirect : Bool} {acb later packet : List ℕ} {rest : List Item}
    {queue : AscQueueInfo} (fuel : ℕ) (h : Runs mem WholePadsFit (.packet packet :: rest) packets n)
    (hpacket : packet.length = packetLength (packet.headD 0))
    (hfits : packet.length ≤ pm4BufferSize)
    (hdwords : acb ++ later = streamDwords (.packet packet :: rest)) (hne : acb ≠ [])
    (hlt : acb.length < packet.length) (htmp : queue.tmpDwords = 0) (hring : queue.RingOk) :
    ∃ queue', processCompute mem (fuel + 1) isIndirect acb queue = .ok ([], queue') ∧
      Leaves mem isIndirect acb.length acb.length later (.packet packet :: rest) packets n queue
        [] queue' := by
  have hhead : acb.headD 0 = packet.headD 0 := by
    have hpre : acb <+: packet ++ streamDwords rest := ⟨later, hdwords⟩
    cases acb with
    | nil => exact absurd rfl hne
    | cons d acb =>
        cases packet with
        | nil => simp at hlt
        | cons d' packet =>
            simp only [List.cons_append, List.cons_prefix_cons] at hpre
            simp [hpre.1]
  obtain ⟨queue', hadvance, hadvanced, hdw, htake⟩ :=
    AscQueueInfo.advance_spec isIndirect (show AscQueueInfo.RingOk { queue with
      tmpPacket := copyInto queue.tmpPacket 0 acb, tmpDwords := acb.length } from hring)
      (fun h => hne (List.length_eq_zero_iff.1 h))
  refine ⟨queue', process_split hne (fetch_plain htmp) (by rw [hhead, ← hpacket]; exact hlt)
    (by omega) hadvance, ⟨⟨_, acb, packets, n, h, Nat.le_refl _, rfl, hdwords, ?_, ⟨hdw, ?_⟩,
      fun _ => ⟨packet, rest, rfl, hlt⟩⟩, ⟨hadvanced.ring, hadvanced.addr⟩⟩⟩
  · unfold afterDwords
    rw [if_neg (by simpa [Item.dwords] using hlt)]
  · rw [htake]
    have := copyInto_take queue.tmpPacket [] acb rfl
    simpa using this

theorem nothing_left {fit : List Item → Prop} {pre : List ℕ} (h : Runs mem fit items packets n)
    (hdwords : pre = streamDwords items)
    (hpre : pre ≠ [] → ∃ p rest, items = .packet p :: rest ∧ pre.length < p.length) :
    packets = [] ∧ pre = [] := by
  have hnil : pre = [] := by
    by_contra hne
    obtain ⟨p, rest, rfl, hlt⟩ := hpre hne
    rw [hdwords] at hlt
    simp only [streamDwords, Item.dwords, List.flatMap_cons, List.length_append] at hlt
    omega
  subst hnil
  have hitems : items = [] := by
    cases items with
    | nil => rfl
    | cons item rest =>
        have := item_ne_nil h item List.mem_cons_self
        simp [streamDwords, this] at hdwords
  subst hitems
  cases h
  exact ⟨rfl, rfl⟩

theorem Leaves.whole {isIndirect : Bool} {left k : ℕ} {done : List (List ℕ)}
    {queue queue' : AscQueueInfo}
    (h : Leaves mem isIndirect left k [] items packets n queue done queue') :
    done = packets ∧ queue'.tmpDwords = 0 := by
  obtain ⟨items', pre, packets', n', hruns, -, hpackets, hdwords, -, hbuf, hpre⟩ := h.exists_rest
  rw [List.append_nil] at hdwords
  obtain ⟨rfl, rfl⟩ := nothing_left hruns hdwords hpre
  exact ⟨by rw [hpackets, List.append_nil], hbuf.len⟩

theorem exists_after_packet {acb later packet : List ℕ} {rest : List Item}
    (hdwords : acb ++ later = streamDwords (.packet packet :: rest))
    (hle : packet.length ≤ acb.length) :
    ∃ acb', acb = packet ++ acb' ∧ acb' ++ later = streamDwords rest := by
  have hpre : packet <+: acb ++ later := ⟨streamDwords rest, hdwords.symm⟩
  obtain ⟨acb', rfl⟩ :=
    List.prefix_of_prefix_length_le hpre (List.prefix_append acb later) hle
  refine ⟨acb', rfl, ?_⟩
  rw [List.append_assoc] at hdwords
  exact List.append_cancel_left hdwords

theorem take_packet {header : ℕ} {body : List ℕ} (acb : List ℕ)
    (hlen : (header :: body).length = packetLength header) :
    (header :: body ++ acb).take (packetLength header) = header :: body := by
  rw [← hlen, List.take_left]

theorem drop_packet {header : ℕ} {body : List ℕ} (acb : List ℕ)
    (hlen : (header :: body).length = packetLength header) :
    (header :: body ++ acb).drop (packetLength header) = acb := by
  rw [← hlen, List.drop_left]

theorem buffer_spec {isIndirect : Bool} {acb later : List ℕ} {fuel : ℕ} {queue : AscQueueInfo}
    (h : Runs mem WholePadsFit items packets n) (hdwords : acb ++ later = streamDwords items)
    (hpads : PadsFit items acb.length) (htmp : queue.tmpDwords = 0) (hring : queue.RingOk)
    (hfuel : n ≤ fuel) :
    ∃ done queue', processCompute mem fuel isIndirect acb queue = .ok (done, queue') ∧
      Leaves mem isIndirect acb.length acb.length later items packets n queue done queue' := by
  induction h generalizing isIndirect acb later fuel queue with
  | nil =>
      obtain ⟨fuel, rfl⟩ := Nat.exists_eq_succ_of_ne_zero (by omega : fuel ≠ 0)
      obtain ⟨rfl, rfl⟩ := List.append_eq_nil_iff.1 hdwords
      exact ⟨_, _, process_nil, leaves_nil .nil rfl htmp⟩
  | @pad dword rest packets n htype hrest ih =>
      obtain ⟨fuel, rfl⟩ := Nat.exists_eq_succ_of_ne_zero (by omega : fuel ≠ 0)
      cases acb with
      | nil => exact ⟨_, _, process_nil, leaves_nil (.pad htype hrest) hdwords htmp⟩
      | cons d acb =>
          obtain ⟨rfl, hdwords'⟩ := List.cons.inj hdwords
          have hlen : packetLength d ≤ (d :: acb).length := hpads.1 (by simp)
          have hfuel' : n ≤ fuel := by omega
          obtain ⟨queue₁, hadvance, hadvanced, hdw, -⟩ :=
            AscQueueInfo.advance_spec isIndirect hring Nat.one_ne_zero
          obtain ⟨done, queue', hrun, hleaves⟩ := ih hdwords' (by simpa using hpads.2)
            (hdw.trans htmp) (hadvanced.ringOk hring) hfuel'
          have hcons := hleaves.cons (.pad d) [] (Nat.le_succ _) hadvanced
          rw [Item.dwords, List.length_singleton, Nat.add_comm 1] at hcons
          exact ⟨done, queue', process_pad (by simp) (fetch_plain htmp) hlen htype hadvance hrun,
            hcons⟩
  | @packet header body rest packets n htype hop hlen hfits hrest ih =>
      obtain ⟨fuel, rfl⟩ := Nat.exists_eq_succ_of_ne_zero (by omega : fuel ≠ 0)
      have hruns := Runs.packet htype hop hlen hfits hrest
      by_cases hne : acb = []
      · subst hne
        exact ⟨_, _, process_nil, leaves_nil hruns hdwords htmp⟩
      by_cases hlt : acb.length < (header :: body).length
      · obtain ⟨queue', hrun, hleaves⟩ := split_spec fuel hruns hlen (by omega) hdwords
          hne hlt htmp hring
        exact ⟨_, _, hrun, hleaves⟩
      · obtain ⟨acb, rfl, hdwords'⟩ := exists_after_packet hdwords (Nat.not_lt.1 hlt)
        have hfuel' : n ≤ fuel := by omega
        obtain ⟨queue₁, hadvance, hadvanced, hdw, -⟩ :=
          AscQueueInfo.advance_spec isIndirect hring (Nat.ne_of_gt (packetLength_pos header))
        obtain ⟨done, queue', hrun, hleaves⟩ := ih hdwords'
          (by simpa [PadsFit] using hpads) (hdw.trans htmp) (hadvanced.ringOk hring) hfuel'
        have hprocess := process_packet (show header :: body ++ acb ≠ [] from hne)
          (fetch_plain htmp)
          (by rw [List.length_append, hlen]; exact Nat.le_add_right _ _) htype hop hadvance
          (by rw [List.cons_append, List.headD_cons, ← List.cons_append, drop_packet acb hlen]
              exact hrun)
        rw [List.cons_append, List.headD_cons, ← List.cons_append, take_packet acb hlen] at hprocess
        have hcons := hleaves.cons (.packet (header :: body)) [header :: body] (Nat.le_succ _)
          (hlen ▸ hadvanced)
        rw [Item.dwords, ← List.length_append] at hcons
        exact ⟨_, _, hprocess, hcons⟩
  | @indirect header body inner rest packets packets' n n' htype hop hlen hlong hfits hmem hfit
      hinner hrest ihinner ih =>
      obtain ⟨fuel, rfl⟩ := Nat.exists_eq_succ_of_ne_zero (by omega : fuel ≠ 0)
      have hruns := Runs.indirect htype hop hlen hlong hfits hmem hfit hinner hrest
      by_cases hne : acb = []
      · subst hne
        exact ⟨_, _, process_nil, leaves_nil hruns hdwords htmp⟩
      by_cases hlt : acb.length < (header :: body).length
      · obtain ⟨queue', hrun, hleaves⟩ := split_spec fuel hruns hlen (by omega) hdwords
          hne hlt htmp hring
        exact ⟨_, _, hrun, hleaves⟩
      · obtain ⟨acb, rfl, hdwords'⟩ := exists_after_packet hdwords (Nat.not_lt.1 hlt)
        have hfuel₁ : n' ≤ fuel := by omega
        have hfuel₂ : n ≤ fuel := by omega
        obtain ⟨done', queue₁, hrun', hleaves'⟩ := @ihinner true (streamDwords inner) [] fuel queue
          (List.append_nil _) hfit htmp hring hfuel₁
        obtain ⟨rfl, htmp₁⟩ := hleaves'.whole
        obtain ⟨queue₂, hadvance, hadvanced, hdw, -⟩ :=
          AscQueueInfo.advance_spec isIndirect (hleaves'.advanced.ringOk hring)
            (Nat.ne_of_gt (packetLength_pos header))
        obtain ⟨done, queue', hrun, hleaves⟩ := ih hdwords'
          (by simpa [PadsFit] using hpads) (hdw.trans htmp₁)
          (hadvanced.ringOk (hleaves'.advanced.ringOk hring)) hfuel₂
        have hprocess := process_indirect (show header :: body ++ acb ≠ [] from hne)
          (fetch_plain htmp)
          (by rw [List.length_append, hlen]; exact Nat.le_add_right _ _) htype hop
          (by rw [List.cons_append, List.headD_cons, ← List.cons_append, take_packet acb hlen,
                ← hmem]
              exact hrun') hadvance
          (by rw [List.cons_append, List.headD_cons, ← List.cons_append, drop_packet acb hlen]
              exact hrun)
        rw [List.cons_append, List.headD_cons, ← List.cons_append, take_packet acb hlen] at hprocess
        have hboth := hleaves'.advanced.of_indirect.trans (hlen ▸ hadvanced)
        rw [Nat.zero_add] at hboth
        have hcons := hleaves.cons (.packet (header :: body)) ((header :: body) :: done')
          (by omega : n ≤ max n n' + 1) hboth
        rw [Item.dwords, ← List.length_append] at hcons
        exact ⟨_, _, hprocess, hcons⟩

theorem fetch_buffered {acb later pre : List ℕ} {header : ℕ} {body : List ℕ} {rest : List Item}
    {queue : AscQueueInfo} (hbuf : Buffered queue pre) (hne : pre ≠ [])
    (hlt : pre.length < (header :: body).length)
    (hlen : (header :: body).length = packetLength header)
    (hfits : packetLength header ≤ pm4BufferSize)
    (hdwords : pre ++ (acb ++ later) = streamDwords (.packet (header :: body) :: rest))
    (hends : (header :: body).length ≤ pre.length + acb.length) :
    ∃ source, queue.fetch acb = .ok (source, packetLength header - pre.length,
        { queue with tmpPacket := source, tmpDwords := 0 }) ∧
      source.headD 0 = header ∧ source.take (packetLength header) = header :: body := by
  have hpacket : pre ++ acb.take (packetLength header - pre.length) = header :: body := by
    have htake := congrArg (List.take (header :: body).length) hdwords
    rw [show streamDwords (.packet (header :: body) :: rest) =
      header :: body ++ streamDwords rest from rfl, List.take_left, List.take_append,
      List.take_of_length_le (Nat.le_of_lt hlt), hlen, List.take_append_of_le_length (by omega)]
      at htake
    exact htake
  have hhead : ∀ {l : List ℕ} {k : ℕ}, l.take k <+: header :: body → l.take k ≠ [] →
      l.headD 0 = header := by
    rintro l k hpre hl
    cases l with
    | nil => simp at hl
    | cons d l =>
        cases k with
        | zero => simp at hl
        | succ k =>
            rw [List.take_succ_cons, List.cons_prefix_cons] at hpre
            simpa using hpre.1
  have htmp : queue.tmpPacket.headD 0 = header := by
    refine hhead (k := pre.length) ?_ (by rw [hbuf.take]; exact hne)
    rw [hbuf.take, ← hpacket]
    exact List.prefix_append _ _
  have hle := packetLength_le header
  have hnext : (packetLength header + 4294967296 - pre.length) % 4294967296 =
      packetLength header - pre.length := by omega
  have hsource : (copyInto queue.tmpPacket pre.length
      (acb.take (packetLength header - pre.length))).take (packetLength header) =
      header :: body := by
    have := copyInto_take queue.tmpPacket pre (acb.take (packetLength header - pre.length))
      hbuf.take
    rw [hpacket, List.length_take, Nat.min_eq_left (by omega),
      Nat.add_sub_cancel' (by omega)] at this
    exact this
  refine ⟨_, ?_, hhead (k := packetLength header)
    ⟨[], (List.append_nil _).trans hsource⟩ (by rw [hsource]; simp),
    hsource⟩
  unfold AscQueueInfo.fetch
  rw [hbuf.len, if_pos (List.length_pos_iff.2 hne), htmp]
  simp only [hnext]
  rw [if_neg (by omega)]

theorem pending_spec {acb later pre packet : List ℕ} {rest : List Item} {fuel : ℕ}
    {queue : AscQueueInfo} (h : Runs mem WholePadsFit (.packet packet :: rest) packets n)
    (hbuf : Buffered queue pre) (hne : pre ≠ []) (hlt : pre.length < packet.length)
    (hdwords : pre ++ (acb ++ later) = streamDwords (.packet packet :: rest))
    (hends : packet.length ≤ pre.length + acb.length)
    (hpads : PadsFit (.packet packet :: rest) (pre.length + acb.length))
    (hring : queue.RingOk) (hfuel : n ≤ fuel) :
    ∃ done queue', processCompute mem fuel false acb queue = .ok (done, queue') ∧
      Leaves mem false (pre.length + acb.length) acb.length later (.packet packet :: rest)
        packets n queue done queue' := by
  have hacb : acb ≠ [] := by
    rintro rfl
    simp at hends
    omega
  obtain ⟨fuel, rfl⟩ := Nat.exists_eq_succ_of_ne_zero
    (by have := h.pos; omega : fuel ≠ 0)
  have hsplit : acb.drop (packet.length - pre.length) ++ later = streamDwords rest := by
    have hdrop := congrArg (List.drop packet.length) hdwords
    rw [show streamDwords (.packet packet :: rest) = packet ++ streamDwords rest from rfl,
      List.drop_left, List.drop_append, List.drop_of_length_le (Nat.le_of_lt hlt),
      List.drop_append_of_le_length (by omega)] at hdrop
    exact hdrop
  have hpads' : PadsFit rest (acb.drop (packet.length - pre.length)).length := by
    rw [List.length_drop]
    have : acb.length - (packet.length - pre.length) =
        pre.length + acb.length - packet.length := by omega
    rw [this]
    exact hpads
  have hlengths : packet.length + (acb.drop (packet.length - pre.length)).length =
      pre.length + acb.length ∧
      packet.length - pre.length + (acb.drop (packet.length - pre.length)).length =
        acb.length := by
    rw [List.length_drop]
    omega
  have hnext : packet.length - pre.length ≠ 0 := by omega
  cases h with
  | @packet header body _ packets n htype hop hlen hfits hrest =>
      obtain ⟨source, hfetch, hhead, htake⟩ :=
        fetch_buffered hbuf hne hlt hlen hfits hdwords hends
      have hfuel' : n ≤ fuel := by omega
      obtain ⟨queue₁, hadvance, hadvanced, hdw, -⟩ := AscQueueInfo.advance_spec false
        (show AscQueueInfo.RingOk { queue with tmpPacket := source, tmpDwords := 0 } from hring)
        hnext
      obtain ⟨done, queue', hrun, hleaves⟩ :=
        buffer_spec hrest hsplit hpads' hdw (hadvanced.ringOk hring) hfuel'
      have hprocess := process_packet hacb hfetch (by omega) (by rw [hhead]; exact htype)
        (by rw [hhead]; exact hop) (hlen ▸ hadvance) (hlen ▸ hrun)
      rw [hhead, htake] at hprocess
      have hcons := hleaves.cons (.packet (header :: body)) [header :: body] (Nat.le_succ _)
        (⟨hadvanced.ring, hadvanced.addr⟩ : queue.Advanced false queue₁ _)
      rw [Item.dwords, hlengths.1, hlengths.2] at hcons
      exact ⟨_, _, hprocess, hcons⟩
  | @indirect header body inner _ packets packets' n n' htype hop hlen hlong hfits hmem hfit
      hinner hrest =>
      obtain ⟨source, hfetch, hhead, htake⟩ :=
        fetch_buffered hbuf hne hlt hlen hfits hdwords hends
      have hfuel₁ : n' ≤ fuel := by omega
      have hfuel₂ : n ≤ fuel := by omega
      have hring' : AscQueueInfo.RingOk { queue with tmpPacket := source, tmpDwords := 0 } := hring
      obtain ⟨done', queue₁, hrun', hleaves'⟩ :=
        buffer_spec hinner (List.append_nil _) hfit rfl hring' hfuel₁
      obtain ⟨rfl, htmp₁⟩ := hleaves'.whole
      obtain ⟨queue₂, hadvance, hadvanced, hdw, -⟩ := AscQueueInfo.advance_spec false
        (hleaves'.advanced.ringOk hring') hnext
      obtain ⟨done, queue', hrun, hleaves⟩ := buffer_spec hrest hsplit hpads'
        (hdw.trans htmp₁) (hadvanced.ringOk (hleaves'.advanced.ringOk hring')) hfuel₂
      have hprocess := process_indirect hacb hfetch (by omega) (by rw [hhead]; exact htype)
        (by rw [hhead]; exact hop) (by rw [hhead, htake, ← hmem]; exact hrun') (hlen ▸ hadvance)
        (hlen ▸ hrun)
      rw [hhead, htake] at hprocess
      have hboth := hleaves'.advanced.of_indirect.trans hadvanced
      rw [Nat.zero_add] at hboth
      have hcons := hleaves.cons (.packet (header :: body)) ((header :: body) :: done')
        (by omega : n ≤ max n n' + 1)
        (⟨hboth.ring, hboth.addr⟩ : queue.Advanced false queue₂ _)
      rw [Item.dwords, hlengths.1, hlengths.2] at hcons
      exact ⟨_, _, hprocess, hcons⟩

/-! ## Cut streams -/

/-- What `read_addr` points to after each buffer, when it follows them. -/
def ringAddrs (ringSizeDw : ℕ) : ℕ → List (List ℕ) → List ℕ
  | _, [] => []
  | addr, acb :: rest =>
      (addr + acb.length) % ringSizeDw ::
        ringAddrs ringSizeDw ((addr + acb.length) % ringSizeDw) rest

theorem submitAll_spec {buffers : List (List ℕ)} {pre : List ℕ} {fuel : ℕ} {queue : AscQueueInfo}
    (h : Runs mem WholePadsFit items packets n)
    (hdwords : pre ++ buffers.flatten = streamDwords items) (hbuf : Buffered queue pre)
    (hpre : pre ≠ [] → ∃ p rest, items = .packet p :: rest ∧ pre.length < p.length)
    (hne : ∀ acb ∈ buffers, acb ≠ []) (hfits : CutFits items pre.length buffers)
    (hring : queue.RingOk) (hfuel : n ≤ fuel) :
    submitAll mem fuel buffers queue =
      .ok (packets, ringAddrs queue.ringSizeDw queue.readAddr buffers) := by
  induction buffers generalizing items packets n pre queue with
  | nil =>
      obtain ⟨rfl, -⟩ := nothing_left h (by simpa using hdwords) hpre
      rfl
  | cons acb buffers ih =>
      obtain ⟨hends, hpads, hcut⟩ := hfits
      have hacb := hne acb List.mem_cons_self
      rw [List.flatten_cons] at hdwords
      have hstep : ∃ done queue', processCompute mem fuel false acb queue = .ok (done, queue') ∧
          Leaves mem false (pre.length + acb.length) acb.length buffers.flatten items packets n
            queue done queue' := by
        by_cases hnil : pre = []
        · subst hnil
          rw [List.nil_append] at hdwords
          rw [List.length_nil, Nat.zero_add] at hpads ⊢
          exact buffer_spec h hdwords hpads hbuf.len hring hfuel
        · obtain ⟨p, rest, rfl, hlt⟩ := hpre hnil
          exact pending_spec h hbuf hnil hlt hdwords
            (hends (by simpa using hnil) _ rfl) hpads hring hfuel
      obtain ⟨done, queue', hrun, hleaves⟩ := hstep
      obtain ⟨items', pre', packets', n', hruns, hle, rfl, hdwords', hafter, hbuf', hpre'⟩ :=
        hleaves.exists_rest
      rw [hafter] at hcut
      have hrest := ih hruns hdwords' hbuf' hpre' (fun a ha => hne a (List.mem_cons_of_mem _ ha))
        hcut (hleaves.advanced.ringOk hring) (Nat.le_trans hle hfuel)
      have haddr : queue'.readAddr = (queue.readAddr + acb.length) % queue.ringSizeDw := by
        rw [hleaves.advanced.addr]
        simp [hacb]
      unfold submitAll
      rw [hrun]
      simp only [bind, Except.bind]
      rw [hrest, hleaves.advanced.ring, haddr]
      rfl

theorem padsFit_add {left pending m : ℕ} {items' : List Item} (h : PadsFit items left)
    (hafter : afterDwords items left = (items', pending)) (h' : PadsFit items' (pending + m)) :
    PadsFit items (left + m) := by
  induction items generalizing left with
  | nil => exact True.intro
  | cons item rest ih =>
      unfold afterDwords at hafter
      split at hafter
      case isFalse =>
          cases hafter
          exact h'
      case isTrue hle =>
          cases item with
          | pad dword =>
              simp only [Item.dwords, List.length_singleton] at hle hafter
              refine ⟨fun _ => ?_, ?_⟩
              · have := h.1 (by omega)
                omega
              · rw [Nat.sub_add_comm hle]
                exact ih h.2 hafter
          | packet p =>
              simp only [Item.dwords] at hle hafter
              simp only [PadsFit] at h ⊢
              rw [Nat.sub_add_comm hle]
              exact ih h hafter

theorem padsFit_zero (items : List Item) : PadsFit items 0 := by
  induction items with
  | nil => exact True.intro
  | cons item rest ih =>
      cases item with
      | pad dword => exact ⟨fun h => absurd rfl h, ih⟩
      | packet p => simpa [PadsFit] using ih

theorem padsFit_afterDwords (items : List Item) (left : ℕ) :
    PadsFit (afterDwords items left).1 (afterDwords items left).2 := by
  induction items generalizing left with
  | nil => exact True.intro
  | cons item rest ih =>
      unfold afterDwords
      split
      case isTrue => exact ih _
      case isFalse hlt =>
          cases item with
          | pad dword =>
              simp only [Item.dwords, List.length_singleton] at hlt
              rw [show left = 0 by omega]
              exact padsFit_zero _
          | packet p =>
              simp only [Item.dwords] at hlt
              simp only [PadsFit]
              rw [show left - p.length = 0 by omega]
              exact padsFit_zero _

theorem CutFits.padsFit {buffers : List (List ℕ)} {pending : ℕ}
    (h : CutFits items pending buffers) (hpending : PadsFit items pending) :
    PadsFit items (pending + buffers.flatten.length) := by
  induction buffers generalizing items pending with
  | nil => exact hpending
  | cons acb rest ih =>
      have hrest := ih h.2.2 (padsFit_afterDwords _ _)
      rw [List.flatten_cons, List.length_append, ← Nat.add_assoc]
      exact padsFit_add h.2.1 rfl hrest

/-- A stream that is cut so that packets and padding fit runs as the undivided stream does, and
`read_addr` follows every buffer. -/
theorem cut_stream_runs {buffers : List (List ℕ)} {fuel : ℕ} {queue : AscQueueInfo}
    (h : Runs mem WholePadsFit items packets n) (hdwords : buffers.flatten = streamDwords items)
    (hne : ∀ acb ∈ buffers, acb ≠ []) (hfits : CutFits items 0 buffers)
    (htmp : queue.tmpDwords = 0) (hring : queue.RingOk) (hfuel : n ≤ fuel) :
    submitAll mem fuel buffers queue =
        .ok (packets, ringAddrs queue.ringSizeDw queue.readAddr buffers) ∧
      ∃ queue', processCompute mem fuel false (streamDwords items) queue =
        .ok (packets, queue') := by
  have hpads : PadsFit items (streamDwords items).length := by
    have := hfits.padsFit (padsFit_zero items)
    rwa [hdwords, Nat.zero_add] at this
  obtain ⟨done, queue', hrun, hleaves⟩ := @buffer_spec mem _ _ _ false _ _ _ _ h
    (List.append_nil _) hpads htmp hring hfuel
  obtain ⟨rfl, -⟩ := hleaves.whole
  have hbuf : Buffered queue [] := ⟨htmp, rfl⟩
  exact ⟨submitAll_spec h hdwords hbuf (fun hn => absurd rfl hn) hne hfits hring hfuel,
    queue', hrun⟩

def freshQueue : AscQueueInfo :=
  { readAddr := 0, ringSizeDw := 16, tmpPacket := List.replicate 8 0, tmpDwords := 0 }

theorem cut_stream_runs_sample :
    submitAll (fun _ => 0) 4 [[0x80000000, 0xC0011000], [1, 2]] freshQueue =
      .ok ([[0xC0011000, 1, 2]], [2, 4]) := by
  have hruns : Runs (fun _ => 0) WholePadsFit
      [.pad 0x80000000, .packet [0xC0011000, 1, 2]] [[0xC0011000, 1, 2]] 3 :=
    .pad (by decide) (.packet (by decide) (by decide) (by decide) (by decide) .nil)
  refine (@cut_stream_runs _ _ _ _ [[0x80000000, 0xC0011000], [1, 2]] _ _ hruns rfl (by decide)
    ?_ rfl ⟨by decide, by decide⟩ (by decide)).1.trans (by decide)
  simp [CutFits, PadsFit, afterDwords, Item.dwords, packetLength, numWords, headerCount]

/-- A packet of three dwords that is cut into three is read beyond the second buffer. A
padding dword at the end of a buffer is taken for the beginning of a packet. -/
theorem cut_stream_breaks :
    (Runs (fun _ => 0) WholePadsFit [.packet [0xC0011000, 1, 2]] [[0xC0011000, 1, 2]] 2 ∧
      submitAll (fun _ => 0) 9 [[0xC0011000], [1], [2]] freshQueue = .error .undefined) ∧
    Runs (fun _ => 0) WholePadsFit [.pad 0x80000000, .packet [0xC0001000, 0]]
        [[0xC0001000, 0]] 3 ∧
      submitAll (fun _ => 0) 9 [[0x80000000], [0xC0001000, 0]] freshQueue = .ok ([], [1, 3]) :=
  ⟨⟨.packet (by decide) (by decide) (by decide) (by decide) .nil, by decide⟩,
    .pad (by decide) (.packet (by decide) (by decide) (by decide) (by decide) .nil),
    by decide⟩

end OrbitConsole.VideoCore
