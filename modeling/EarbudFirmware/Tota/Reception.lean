import EarbudFirmware.Lib.Framing
import EarbudFirmware.Tota.Packets

/-!
# Packets taken out of the queue

Whatever the chunks are, the packets of the stream are taken out of the queue one after the other,
each when its last byte has come. A packet that fails a check ends the work on its chunk, and what
is behind it waits for the next one. So this takes that a packet that fails is the last one that its
chunk completes.

## Main definitions

* `IsPacket`, `ChecksOut` — the head and the length, the checksum and the tail
* `RxStore.packet` — what a packet does to the cache
* `FailuresLast` — no chunk completes a packet behind one that fails

## Main results

* `sAppTotaRx_received` — the packets that a chunk completes
* `received_run` — the packets that the chunks complete
-/

namespace EarbudFirmware.Tota

open NorMemory (Content)
open Framing (Pending complete)

/-- The head and the length of a packet. -/
structure IsPacket (p : List UInt8) : Prop where
  head : p.take 4 = totaHead
  len : leAt p 4 4 + totaPacketVerifySize = p.length
  pos : totaPacketVerifySize < p.length
  le : p.length ≤ maxSppPacketSize

/-- The bytes that a packet carries. -/
def packetBuf (p : List UInt8) : List UInt8 :=
  (p.drop totaPacketBufOffset).take (p.length - totaPacketVerifySize)

/-- The tail and the checksum are the right ones. -/
def ChecksOut (p : List UInt8) : Prop :=
  p.drop (p.length - 4) = totaTail ∧ (crc32C 0 (packetBuf p)).toNat = leAt p (p.length - 8) 4

instance (p : List UInt8) : Decidable (ChecksOut p) := inferInstanceAs (Decidable (_ ∧ _))

/-- What a packet does to the cache. -/
def RxStore.packet (e : Endpoint) (s : RxStore) (p : List UInt8) : RxStore :=
  if ChecksOut p then s.unpacked e (packetBuf p) else s

variable {e : Endpoint} {rx : TotaRx} {p d w r t : List UInt8} {ps qs : List (List UInt8)}

/-! ### The queue -/

/-- The queue is a well-formed one of the size that `tota_rx_queue_init` gives it. -/
structure TotaRx.WellFormed (rx : TotaRx) : Prop where
  queue : rx.rxDataQueue.WellFormed
  size : rx.rxDataQueue.size = totaRxBufSize

/-- The bytes in the queue. -/
def TotaRx.contents (rx : TotaRx) : List UInt8 := rx.rxDataQueue.contents

theorem TotaRx.totaRxQueueLength_eq : rx.totaRxQueueLength = rx.contents.length :=
  CQueue.length_contents.symm

/-- A chunk that fits is added to the queue. -/
theorem totaRxQueuePush_spec (h : rx.WellFormed)
    (hlen : rx.contents.length + d.length ≤ totaRxBufSize) :
    ∃ rx', rx.totaRxQueuePush d = some rx' ∧ rx'.WellFormed ∧ rx'.contents = rx.contents ++ d ∧
      rx'.store = rx.store := by
  have hfits : rx.rxDataQueue.len + d.length ≤ rx.rxDataQueue.size := by
    rw [h.size, ← CQueue.length_contents]
    exact hlen
  obtain ⟨q, hq, hwf, hsize, hcontents⟩ :=
    CQueue.enCQueue_spec (e := fun i => d.getD i 0) h.queue hfits
  refine ⟨{ rx with rxDataQueue := q }, ?_, ⟨hwf, hsize.trans h.size⟩, ?_, rfl⟩
  · rw [TotaRx.totaRxQueuePush, hq]
    rfl
  · exact hcontents.trans (congrArg _ map_range_getD)

/-- The first bytes of the queue are looked at. -/
theorem totaRxQueuePeek_spec {len : Nat} (h : rx.WellFormed) (hlen : len ≤ rx.contents.length) :
    rx.totaRxQueuePeek len = rx.contents.take len := by
  rw [← rx.totaRxQueueLength_eq] at hlen
  obtain ⟨f, hf, hbytes⟩ := CQueue.peekCQueueToBuf_spec (e := fun _ => 0) h.queue hlen
  rw [TotaRx.totaRxQueuePeek, hf]
  exact map_range_eq_take hbytes

/-- The first bytes of the queue are taken out. -/
theorem totaRxQueuePop_spec {len : Nat} (h : rx.WellFormed) (hlen : len ≤ rx.contents.length) :
    ∃ rx', rx.totaRxQueuePop len = some (rx', rx.contents.take len) ∧ rx'.WellFormed ∧
      rx'.contents = rx.contents.drop len ∧ rx'.store = rx.store := by
  rw [← rx.totaRxQueueLength_eq] at hlen
  obtain ⟨q, f, hq, hwf, hsize, hcontents, hbytes, -⟩ :=
    CQueue.deCQueue_spec (e := fun _ => 0) h.queue hlen
  refine ⟨{ rx with rxDataQueue := q }, ?_, ⟨hwf, hsize.trans h.size⟩, hcontents, rfl⟩
  rw [TotaRx.totaRxQueuePop, hq, Option.map_some, map_range_eq_take hbytes]
  rfl

/-! ### One packet -/

theorem totaPacketTotalSize_of_lt {len : Nat} (h : len + totaPacketVerifySize < 0x100000000) :
    totaPacketTotalSize len = len + totaPacketVerifySize :=
  Nat.mod_eq_of_lt h

/-- The total size that the length field of a packet gives. -/
theorem IsPacket.totalSize (h : IsPacket p) : totaPacketTotalSize (leAt p 4 4) = p.length := by
  have hle := h.le
  rw [totaPacketTotalSize_of_lt, h.len]
  rw [h.len]
  simp only [maxSppPacketSize] at hle
  omega

/-- What a packet looks like from its first bytes. -/
theorem IsPacket.verify (h : IsPacket p) (hw : p ++ r = w ++ t)
    (hlen : totaPacketVerifySize < w.length) :
    (w.take totaPacketBufOffset).take 4 = totaHead ∧
      leAt (w.take totaPacketBufOffset) 4 4 = leAt p 4 4 := by
  have hpos := h.pos
  simp only [totaPacketVerifySize] at hpos hlen
  have hsame : w.take totaPacketBufOffset = p.take totaPacketBufOffset := by
    have := congrArg (List.take totaPacketBufOffset) hw
    rw [List.take_append_of_le_length (by simp only [totaPacketBufOffset]; omega),
      List.take_append_of_le_length (by simp only [totaPacketBufOffset]; omega)] at this
    exact this.symm
  rw [hsame]
  refine ⟨?_, leAt_take (by simp only [totaPacketBufOffset]; omega)⟩
  rw [List.take_take]
  exact h.head

/-- A packet that is not complete is waited for. -/
theorem appTotaRxUnpack_incomplete (h : rx.WellFormed) (hp : IsPacket p)
    (hw : p ++ t = rx.contents ++ r) (hpos : totaPacketVerifySize < rx.contents.length)
    (hlt : rx.contents.length < p.length) :
    rx.appTotaRxUnpack e rx.contents.length = some (rx, -3) := by
  obtain ⟨hhead, hlen⟩ := hp.verify hw hpos
  have hle := hp.le
  have hpeek : rx.totaRxQueuePeek totaPacketBufOffset = rx.contents.take totaPacketBufOffset :=
    totaRxQueuePeek_spec h (Nat.le_trans (by decide) (Nat.le_of_lt hpos))
  unfold TotaRx.appTotaRxUnpack
  dsimp only
  rw [hpeek, if_neg (not_not.2 hhead), hlen, hp.totalSize, if_neg (by omega),
    if_pos (by split_ifs <;> omega)]

/-- A packet that is complete is taken out of the queue. -/
theorem appTotaRxUnpack_complete (h : rx.WellFormed) (hp : IsPacket p)
    (hw : rx.contents = p ++ t) :
    ∃ rx' ret, rx.appTotaRxUnpack e rx.contents.length = some (rx', ret) ∧
      (ret = 0 ↔ ChecksOut p) ∧ rx'.WellFormed ∧ rx'.contents = t ∧
      rx'.store = rx.store.packet e p := by
  have hpos := hp.pos
  have hle := hp.le
  have hplen : p.length ≤ rx.contents.length := by
    rw [hw, List.length_append]
    exact Nat.le_add_right _ _
  obtain ⟨hhead, hlen⟩ := hp.verify (w := rx.contents) (r := t) (t := [])
    (by rw [hw, List.append_nil]) (Nat.lt_of_lt_of_le hpos hplen)
  have hpeek : rx.totaRxQueuePeek totaPacketBufOffset = rx.contents.take totaPacketBufOffset :=
    totaRxQueuePeek_spec h (Nat.le_trans (by decide) (Nat.le_trans (Nat.le_of_lt hpos) hplen))
  obtain ⟨rx', hpop, hwf, hcontents, hstore⟩ := totaRxQueuePop_spec h hplen
  have htake : rx.contents.take p.length = p := by rw [hw, List.take_left]
  have hdrop : rx.contents.drop p.length = t := by rw [hw, List.drop_left]
  rw [htake] at hpop
  rw [hdrop] at hcontents
  -- the two offsets are counted from the end of the packet
  have hbuf := hp.len
  simp only [totaPacketVerifySize] at hpos hbuf
  have hcrc : totaPacketBufOffset + leAt p 4 4 = p.length - 8 := by
    simp only [totaPacketBufOffset]
    omega
  have htail : p.length - 8 + 4 = p.length - 4 := by omega
  have hpbuf : (p.drop totaPacketBufOffset).take (leAt p 4 4) = packetBuf p := by
    rw [packetBuf, ← hp.len, Nat.add_sub_cancel]
  unfold TotaRx.appTotaRxUnpack
  dsimp only
  rw [hpeek, if_neg (not_not.2 hhead), hlen, hp.totalSize, if_neg (by omega),
    if_neg (by split_ifs <;> omega), hpop]
  dsimp only
  rw [if_neg (by simp only [maxSppPacketSize] at *; omega), hcrc, htail, hpbuf]
  by_cases ht : p.drop (p.length - 4) = totaTail
  · rw [if_neg (not_not.2 ht)]
    by_cases hc : (crc32C 0 (packetBuf p)).toNat = leAt p (p.length - 8) 4
    · rw [if_neg (not_not.2 hc)]
      refine ⟨_, _, rfl, iff_of_true rfl ⟨ht, hc⟩, ⟨hwf.queue, hwf.size⟩, hcontents, ?_⟩
      rw [RxStore.packet, if_pos ⟨ht, hc⟩, ← hstore]
    · rw [if_pos hc]
      refine ⟨_, _, rfl, iff_of_false (by decide) fun h => hc h.2, hwf, hcontents, ?_⟩
      rw [RxStore.packet, if_neg fun h => hc h.2, hstore]
  · rw [if_pos ht]
    refine ⟨_, _, rfl, iff_of_false (by decide) fun h => ht h.1, hwf, hcontents, ?_⟩
    rw [RxStore.packet, if_neg fun h => ht h.1, hstore]

/-! ### The loop -/

/-- The loop takes the complete packets `ps` out of the queue when none but the last one fails. -/
theorem unpackLoop_spec (h : rx.WellFormed) (hpend : Pending rx.contents r (ps ++ qs))
    (hps : ∀ p ∈ ps ++ qs, IsPacket p) (hlast : ∀ p ∈ ps.dropLast, ChecksOut p)
    (hle : ps.flatten.length ≤ rx.contents.length)
    (hnext : ∀ q qs', qs = q :: qs' → rx.contents.length - ps.flatten.length < q.length)
    {fuel : Nat} (hfuel : rx.contents.length ≤ fuel) :
    ∃ rx', rx.unpackLoop e fuel = some rx' ∧ rx'.WellFormed ∧
      rx'.contents = rx.contents.drop ps.flatten.length ∧
      rx'.store = ps.foldl (RxStore.packet e) rx.store := by
  -- induction on the packets to be taken out; what is behind them stays
  induction ps generalizing rx fuel with
  | nil =>
    cases fuel with
    | zero => exact ⟨rx, rfl, h, rfl, rfl⟩
    | succ fuel =>
      by_cases hpos : totaPacketVerifySize < rx.contents.length
      · obtain ⟨q, qs', rfl⟩ := hpend.exists_frame
          (List.ne_nil_of_length_pos (Nat.lt_of_le_of_lt (Nat.zero_le _) hpos))
        have hq := hnext q qs' rfl
        have hinc := appTotaRxUnpack_incomplete (e := e) (t := qs'.flatten) (r := r) h
          (hps q List.mem_cons_self) hpend.symm hpos hq
        refine ⟨rx, ?_, h, rfl, rfl⟩
        rw [TotaRx.unpackLoop, rx.totaRxQueueLength_eq, if_pos hpos, hinc]
        rfl
      · refine ⟨rx, ?_, h, rfl, rfl⟩
        rw [TotaRx.unpackLoop, rx.totaRxQueueLength_eq, if_neg hpos]
  | cons p ps ih =>
    have hp := hps p List.mem_cons_self
    have hppos := hp.pos
    rw [List.flatten_cons, List.length_append] at hle
    have hplen : p.length ≤ rx.contents.length := by omega
    have hsplit : rx.contents = p ++ rx.contents.drop p.length := by
      have htake := congrArg (List.take p.length) hpend
      rw [List.take_append_of_le_length hplen, List.cons_append, List.flatten_cons,
        List.take_left] at htake
      nth_rewrite 1 [← List.take_append_drop p.length rx.contents]
      rw [htake]
    obtain ⟨rx', ret, hstep, hret, hwf, hcontents, hstore⟩ :=
      appTotaRxUnpack_complete (e := e) h hp hsplit
    have hdrop : ∀ l : List UInt8, (l.drop p.length).drop ps.flatten.length =
        l.drop (p :: ps).flatten.length := by
      intro l
      rw [List.drop_drop, List.flatten_cons, List.length_append]
    cases fuel with
    | zero => omega
    | succ fuel =>
      rw [TotaRx.unpackLoop, rx.totaRxQueueLength_eq, if_pos (by omega), hstep]
      simp only [Option.bind_some, List.foldl_cons]
      by_cases hok : ChecksOut p
      · rw [if_neg (not_not.2 (hret.2 hok))]
        have hlen : rx'.contents.length = rx.contents.length - p.length := by
          rw [hcontents, List.length_drop]
        obtain ⟨rx'', hloop, hwf', hcontents', hstore'⟩ :=
          ih hwf (by rw [hcontents]; exact hpend.drop_frame hplen)
            (fun q hq => hps q (List.mem_cons_of_mem p hq))
            (fun q hq => hlast q (by
              cases ps with
              | nil => exact absurd hq List.not_mem_nil
              | cons p' ps => exact List.mem_cons_of_mem p hq))
            (by omega)
            (fun q qs' hqs => by
              have := hnext q qs' hqs
              rw [List.flatten_cons, List.length_append] at this
              omega)
            (by omega : rx'.contents.length ≤ fuel)
        refine ⟨rx'', hloop, hwf', ?_, ?_⟩
        · rw [hcontents', hcontents, hdrop]
        · rw [hstore', hstore]
      · -- a packet that fails is the last one
        have hnil : ps = [] := by
          cases ps with
          | nil => rfl
          | cons p' ps => exact absurd (hlast p List.mem_cons_self) hok
        subst hnil
        rw [if_pos fun h0 => hok (hret.1 h0)]
        refine ⟨rx', rfl, hwf, ?_, hstore⟩
        rw [hcontents, List.flatten_cons, List.flatten_nil, List.append_nil]

/-! ### Chunks -/

/-- After `n` bytes of the stream of the packets, the complete ones have been taken out of the
queue; `r` is still to come. -/
structure Received (e : Endpoint) (ps : List (List UInt8)) (n : Nat) (r : List UInt8)
    (rx : TotaRx) : Prop where
  wellFormed : rx.WellFormed
  pending : Pending rx.contents r (ps.drop (complete ps n).length)
  length : rx.contents.length = n - (complete ps n).flatten.length
  store : rx.store = (complete ps n).foldl (RxStore.packet e) ⟨[], []⟩

/-- Less than a packet is left in the queue. -/
theorem Received.contents_lt {n : Nat} (h : Received e ps n r rx) (hps : ∀ p ∈ ps, IsPacket p) :
    rx.contents.length < maxSppPacketSize := by
  by_cases hnil : rx.contents = []
  · rw [hnil]
    decide
  · obtain ⟨q, qs, hqs⟩ := h.pending.exists_frame hnil
    have hlt := Framing.lt_of_drop_complete hqs
    have hq := (hps q (List.mem_of_mem_drop (hqs ▸ List.mem_cons_self))).le
    rw [h.length]
    omega

theorem received_initial (hps : ∀ p ∈ ps, IsPacket p) :
    Received e ps 0 ps.flatten TotaRx.initial := by
  have hnil : complete ps 0 = [] := by
    cases ps with
    | nil => rfl
    | cons p ps =>
      exact Framing.complete_cons_of_lt (Nat.lt_of_le_of_lt (Nat.zero_le _)
        (hps p List.mem_cons_self).pos)
  refine ⟨⟨CQueue.wellFormed_initCQueue (by decide), rfl⟩, ?_, ?_, ?_⟩ <;> rw [hnil] <;> rfl

/-- The packets that the next `m` of `n + m` bytes complete. -/
def newlyComplete (ps : List (List UInt8)) (n m : Nat) : List (List UInt8) :=
  (complete ps (n + m)).drop (complete ps n).length

/-- No chunk completes a packet behind one that fails; `n` bytes come before the chunks. -/
def FailuresLast (ps : List (List UInt8)) : Nat → List (List UInt8) → Prop
  | _, [] => True
  | n, d :: ds =>
    (∀ p ∈ (newlyComplete ps n d.length).dropLast, ChecksOut p) ∧ FailuresLast ps (n + d.length) ds

instance decidableFailuresLast (ps : List (List UInt8)) :
    ∀ (n : Nat) (ds : List (List UInt8)), Decidable (FailuresLast ps n ds)
  | _, [] => isTrue trivial
  | n, d :: ds =>
    have := decidableFailuresLast ps (n + d.length) ds
    inferInstanceAs (Decidable (_ ∧ _))

theorem newlyComplete_eq (ps : List (List UInt8)) (n m : Nat) :
    newlyComplete ps n m =
      complete (ps.drop (complete ps n).length) (n - (complete ps n).flatten.length + m) := by
  rw [newlyComplete, Framing.complete_add, List.drop_left]

/-- A chunk of the stream is received: the packets that it completes are taken out of the queue. -/
theorem sAppTotaRx_received {n : Nat} (h : Received e ps n (d ++ r) rx)
    (hps : ∀ p ∈ ps, IsPacket p) (hsize : d.length ≤ maxSppPacketSize)
    (hvendor : ¬e.TakesAsVendorCmd d)
    (hlast : ∀ p ∈ (newlyComplete ps n d.length).dropLast, ChecksOut p) :
    ∃ rx', sAppTotaRx e rx d = some rx' ∧ Received e ps (n + d.length) r rx' := by
  have hlt := h.contents_lt hps
  obtain ⟨rx₁, hpush, hwf, hcontents, hstore⟩ := totaRxQueuePush_spec h.wellFormed (d := d)
    (by simp only [totaRxBufSize]; omega)
  have hlen : rx₁.contents.length = n - (complete ps n).flatten.length + d.length := by
    rw [hcontents, List.length_append, h.length]
  -- the packets that are left: those that the chunk completes, and the others
  have hnew := newlyComplete_eq ps n d.length
  rw [hnew] at hlast
  have hsplit := Framing.complete_append_drop (ps.drop (complete ps n).length) rx₁.contents.length
  rw [← hlen] at hnew hlast
  have hpend := h.pending.arrive
  rw [← hcontents, ← hsplit] at hpend
  have hle := Framing.length_flatten_complete_le (ps.drop (complete ps n).length)
    rx₁.contents.length
  obtain ⟨rx', hloop, hwf', hcontents', hstore'⟩ := unpackLoop_spec (e := e) hwf hpend
    (by rw [hsplit]; exact fun p hp => hps p (List.mem_of_mem_drop hp)) hlast hle
    (fun q qs' hqs => Framing.lt_of_drop_complete hqs) (Nat.le_refl _)
  have hall : complete ps (n + d.length) = complete ps n ++
      complete (ps.drop (complete ps n).length) rx₁.contents.length := by
    rw [Framing.complete_add, hlen]
  refine ⟨rx', ?_, hwf', ?_, ?_, ?_⟩
  · rw [sAppTotaRx, if_neg hvendor, hpush, Option.bind_some, rx₁.totaRxQueueLength_eq, hloop]
  · rw [hcontents', hall, List.length_append, ← List.drop_drop]
    exact hpend.drop_flatten hle
  · have hn := Framing.length_flatten_complete_le ps n
    rw [hcontents', List.length_drop, hall, List.flatten_append, List.length_append, hlen]
    omega
  · rw [hstore', hstore, h.store, hall, List.foldl_append]

/-- The chunks of a stream are received: the packets that they complete are taken out of the queue,
in order. -/
theorem received_run {n : Nat} {ds : List (List UInt8)} (h : Received e ps n (ds.flatten ++ r) rx)
    (hps : ∀ p ∈ ps, IsPacket p) (hsize : ∀ d ∈ ds, d.length ≤ maxSppPacketSize)
    (hvendor : ∀ d ∈ ds, ¬e.TakesAsVendorCmd d) (hlast : FailuresLast ps n ds) :
    ∃ rx', ds.foldlM (sAppTotaRx e) rx = some rx' ∧
      Received e ps (n + ds.flatten.length) r rx' := by
  induction ds generalizing n rx with
  | nil => exact ⟨rx, rfl, h⟩
  | cons d ds ih =>
    rw [List.flatten_cons, List.append_assoc] at h
    obtain ⟨rx₁, hstep, h₁⟩ := sAppTotaRx_received h hps (hsize d List.mem_cons_self)
      (hvendor d List.mem_cons_self) hlast.1
    obtain ⟨rx₂, hrun, h₂⟩ := ih h₁ (fun d' hd => hsize d' (List.mem_cons_of_mem d hd))
      (fun d' hd => hvendor d' (List.mem_cons_of_mem d hd)) hlast.2
    refine ⟨rx₂, ?_, ?_⟩
    · rw [List.foldlM_cons, hstep]
      exact hrun
    · rwa [List.flatten_cons, List.length_append, ← Nat.add_assoc]

end EarbudFirmware.Tota
