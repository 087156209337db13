import EarbudFirmware.Tota.Reception

/-!
# Delivery of commands

The bytes of the packets of a command are put together in the cache until they are as many as its
length says. A command is delivered with its last packet. When only some of its packets arrive they
stay in the cache, so this takes that either all packets of a command arrive as they were sent, or
none does.

## Main definitions

* `Carries` — packets that carry a command
* `Group` — the packets of a command that arrive
* `delivered` — the commands that are delivered

## Main results

* `Carries.foldl_take`, `Carries.foldl_eq` — some packets of a command, and all of them
* `calls_received` — the commands that the first bytes of the stream deliver
-/

namespace EarbudFirmware.Tota

open Framing (complete)

variable {e : Endpoint} {s : RxStore} {p : List UInt8} {ps qs : List (List UInt8)}

/-! ### The cache -/

/-- The bytes that the receiver puts into the cache for the bytes of a packet. -/
def decoded (e : Endpoint) (pbuf : List UInt8) : List UInt8 :=
  match e.status with
  | .shakeHanded => totaDecrypt e.cipher pbuf
  | _ => pbuf

/-- The bytes for the cache, packet by packet. -/
def pieces (e : Endpoint) (ps : List (List UInt8)) : List (List UInt8) :=
  ps.map fun p => decoded e (packetBuf p)

@[simp] theorem length_pieces : (pieces e ps).length = ps.length := List.length_map _

/-- The pieces are the bytes of a command and bytes that fill the last one. -/
structure SplitsInto (payload : List UInt8) (pieces : List (List UInt8)) : Prop where
  flatten : ∃ pad, pieces.flatten = payload ++ pad
  proper : ∀ k < pieces.length, (pieces.take k).flatten.length < payload.length

/-- The packets carry the command. -/
structure Carries (e : Endpoint) (cmd : TotaCmd) (ps : List (List UInt8)) : Prop where
  status : e.status ≠ .disconnected
  checksOut : ∀ p ∈ ps, ChecksOut p
  cmdCode_lt : cmd.cmdCode < 0x10000
  paramLen_lt : cmd.paramLen < 0x10000
  paramLen_eq : cmd.paramLen = cmd.param.length
  splits : SplitsInto (cmdPayload cmd.cmdCode cmd.paramLen cmd.param) (pieces e ps)
  first : totaDataHeadSize ≤ ((pieces e ps).take 1).flatten.length
  fits : (pieces e ps).flatten.length ≤ totaDataCacheBufferSize

section Payload

variable {cmdCode paramLen : Nat} {param t : List UInt8}

theorem leAt_cmdPayload_zero (h : cmdCode < 0x10000) :
    leAt (cmdPayload cmdCode paramLen param ++ t) 0 2 = cmdCode := by
  rw [cmdPayload, List.append_assoc, List.append_assoc, leAt_leBytes]
  exact Nat.mod_eq_of_lt h

theorem leAt_cmdPayload_two (h : paramLen < 0x10000) :
    leAt (cmdPayload cmdCode paramLen param ++ t) 2 2 = paramLen := by
  have hsplit : leAt (cmdPayload cmdCode paramLen param ++ t) 2 2 =
      leAt (leBytes 2 cmdCode ++ (leBytes 2 paramLen ++ (param ++ t)))
        ((leBytes 2 cmdCode).length + 0) 2 := by
    rw [length_leBytes, cmdPayload, List.append_assoc, List.append_assoc]
  rw [hsplit, leAt_append_right, leAt_leBytes]
  exact Nat.mod_eq_of_lt h

@[simp] theorem length_cmdPayload :
    (cmdPayload cmdCode paramLen param).length = totaDataHeadSize + param.length := by
  rw [cmdPayload, List.length_append, List.length_append, length_leBytes, length_leBytes]
  rfl

/-- The command is read back, whatever fills the last block. -/
theorem commandOf_cmdPayload (hc : cmdCode < 0x10000) (hl : paramLen < 0x10000)
    (heq : paramLen = param.length) :
    commandOf (cmdPayload cmdCode paramLen param ++ t) = ⟨cmdCode, paramLen, param⟩ := by
  have hdrop : (cmdPayload cmdCode paramLen param ++ t).drop totaDataHeadSize = param ++ t := by
    have hhead : (leBytes 2 cmdCode ++ leBytes 2 paramLen).length = totaDataHeadSize := by
      rw [List.length_append, length_leBytes, length_leBytes]
      rfl
    rw [cmdPayload, List.append_assoc, ← hhead, List.drop_left]
  rw [commandOf, leAt_cmdPayload_zero hc, leAt_cmdPayload_two hl, hdrop, heq, List.take_left]

end Payload

/-- A packet that checks out puts its bytes into the cache. -/
theorem packet_eq (hp : ChecksOut p) (hstatus : e.status ≠ .disconnected)
    (hfits : s.cache.length + (decoded e (packetBuf p)).length ≤ totaDataCacheBufferSize) :
    s.packet e p =
      if (s.cache ++ decoded e (packetBuf p)).length <
          leAt (s.cache ++ decoded e (packetBuf p)) 2 2 + totaDataHeadSize then
        { s with cache := s.cache ++ decoded e (packetBuf p) }
      else { cache := [], calls := s.calls ++ [s.cache ++ decoded e (packetBuf p)] } := by
  have hstore : s.packet e p =
      let r := s.appTotaStore (decoded e (packetBuf p))
      if r.2 = .ok then { cache := [], calls := r.1.calls ++ [r.1.cache] } else r.1 := by
    rw [RxStore.packet, if_pos hp, RxStore.unpacked]
    unfold decoded
    cases h : e.status with
    | connected => rfl
    | shakeHanded => rfl
    | disconnected => exact absurd h hstatus
  rw [hstore, RxStore.appTotaStore, if_pos hfits]
  by_cases hlt : (s.cache ++ decoded e (packetBuf p)).length <
      leAt (s.cache ++ decoded e (packetBuf p)) 2 2 + totaDataHeadSize
  · simp only [if_pos hlt]
    rfl
  · simp only [if_neg hlt]
    rfl

/-! ### One command -/

namespace Carries

variable {cmd : TotaCmd} {calls : List (List UInt8)} {k : Nat}

/-- The first pieces are the start of all of them. -/
theorem exists_take (h : Carries e cmd ps) (k : Nat) :
    ∃ t, (cmdPayload cmd.cmdCode cmd.paramLen cmd.param ++ t).take
      ((pieces e ps).take k).flatten.length = ((pieces e ps).take k).flatten := by
  obtain ⟨t, ht⟩ := h.splits.flatten
  refine ⟨t, ?_⟩
  rw [← ht]
  nth_rewrite 2 [← List.take_append_drop k (pieces e ps)]
  rw [List.flatten_append, List.take_left]

/-- The length of the parameter comes with the first packet. -/
theorem leAt_pieces (h : Carries e cmd ps) (hk : 0 < k) :
    leAt ((pieces e ps).take k).flatten 2 2 = cmd.paramLen := by
  obtain ⟨t, ht⟩ := h.exists_take k
  have hfirst := h.first
  have hle : ((pieces e ps).take 1).flatten.length ≤ ((pieces e ps).take k).flatten.length := by
    have htake : (pieces e ps).take 1 = ((pieces e ps).take k).take 1 := by
      rw [List.take_take, Nat.min_eq_left hk]
    rw [htake]
    nth_rewrite 2 [← List.take_append_drop 1 ((pieces e ps).take k)]
    rw [List.flatten_append, List.length_append]
    exact Nat.le_add_right _ _
  simp only [totaDataHeadSize] at hfirst
  rw [← ht, leAt_take (by omega), leAt_cmdPayload_two h.paramLen_lt]

theorem length_take_le (h : Carries e cmd ps) (k : Nat) :
    ((pieces e ps).take k).flatten.length ≤ totaDataCacheBufferSize := by
  have hfits := h.fits
  rw [← List.take_append_drop k (pieces e ps), List.flatten_append, List.length_append] at hfits
  exact Nat.le_trans (Nat.le_add_right _ _) hfits

theorem take_succ_pieces (hk : k < ps.length) :
    ((pieces e ps).take (k + 1)).flatten =
      ((pieces e ps).take k).flatten ++ decoded e (packetBuf ps[k]) := by
  rw [List.take_add_one, List.flatten_append, pieces, List.getElem?_map,
    List.getElem?_eq_getElem hk]
  simp

/-- What a packet of the command does. -/
theorem packet_take (h : Carries e cmd ps) (hk : k < ps.length) :
    RxStore.packet e ⟨((pieces e ps).take k).flatten, calls⟩ ps[k] =
      if k + 1 < ps.length then ⟨((pieces e ps).take (k + 1)).flatten, calls⟩
      else ⟨[], calls ++ [(pieces e ps).flatten]⟩ := by
  have hfits := h.length_take_le (k + 1)
  have htake := take_succ_pieces (e := e) hk
  rw [htake, List.length_append] at hfits
  have hlen := h.leAt_pieces (Nat.succ_pos k)
  rw [packet_eq (h.checksOut _ (List.getElem_mem hk)) h.status hfits, ← htake, hlen]
  have hpayload : (cmdPayload cmd.cmdCode cmd.paramLen cmd.param).length =
      cmd.paramLen + totaDataHeadSize := by
    rw [length_cmdPayload, h.paramLen_eq, Nat.add_comm]
  by_cases hlast : k + 1 < ps.length
  · have hproper := h.splits.proper (k + 1) (by rwa [length_pieces])
    rw [hpayload] at hproper
    rw [if_pos hproper, if_pos hlast]
  · have hall : (pieces e ps).take (k + 1) = pieces e ps :=
      List.take_of_length_le (by rw [length_pieces]; omega)
    obtain ⟨t, ht⟩ := h.splits.flatten
    rw [if_neg hlast, hall, if_neg]
    rw [ht, List.length_append, hpayload]
    omega

/-- Some of the packets are put into the cache. -/
theorem foldl_take (h : Carries e cmd ps) (hk : k < ps.length) :
    (ps.take k).foldl (RxStore.packet e) ⟨[], calls⟩ =
      ⟨((pieces e ps).take k).flatten, calls⟩ := by
  induction k with
  | zero => rfl
  | succ k ih =>
    rw [List.take_add_one, List.getElem?_eq_getElem (by omega), Option.toList_some,
      List.foldl_append, ih (by omega), List.foldl_cons, List.foldl_nil,
      h.packet_take (by omega), if_pos hk]

theorem ne_nil (h : Carries e cmd ps) : ps ≠ [] := by
  rintro rfl
  have hfirst := h.first
  rw [pieces, List.map_nil, List.take_nil, List.flatten_nil] at hfirst
  exact absurd hfirst (by decide)

/-- The command is delivered with the last packet. -/
theorem foldl_eq (h : Carries e cmd ps) :
    ps.foldl (RxStore.packet e) ⟨[], calls⟩ = ⟨[], calls ++ [(pieces e ps).flatten]⟩ := by
  obtain ⟨k, hk⟩ : ∃ k, ps.length = k + 1 :=
    ⟨ps.length - 1, by have := List.length_pos_of_ne_nil h.ne_nil; omega⟩
  have hsplit : ps = ps.take k ++ [ps[k]] := by
    rw [List.take_append_getElem, List.take_of_length_le (by omega)]
  nth_rewrite 1 [hsplit]
  rw [List.foldl_append, h.foldl_take (by omega), List.foldl_cons, List.foldl_nil,
    h.packet_take (by omega), if_neg (by omega)]

/-- The delivered bytes are those of the command. -/
theorem commandOf_eq (h : Carries e cmd ps) : commandOf (pieces e ps).flatten = cmd := by
  obtain ⟨t, ht⟩ := h.splits.flatten
  rw [ht, commandOf_cmdPayload h.cmdCode_lt h.paramLen_lt h.paramLen_eq]

end Carries

/-! ### All commands -/

/-- The packets of a command that arrive, which are all as they were sent when it is `whole`. -/
structure Group where
  cmd : TotaCmd
  packets : List (List UInt8)
  whole : Bool

/-- Either all packets of the command check out, or none of those that arrive. -/
def Group.WellFormed (e : Endpoint) (g : Group) : Prop :=
  if g.whole then Carries e g.cmd g.packets else ∀ p ∈ g.packets, ¬ChecksOut p

/-- The whole commands among those whose last byte is among the first `n`. -/
def delivered : List Group → Nat → List TotaCmd
  | [], _ => []
  | g :: gs, n =>
    if g.packets.flatten.length ≤ n then
      (if g.whole then [g.cmd] else []) ++ delivered gs (n - g.packets.flatten.length)
    else []

theorem foldl_not_checksOut (h : ∀ p ∈ ps, ¬ChecksOut p) : ps.foldl (RxStore.packet e) s = s := by
  induction ps with
  | nil => rfl
  | cons p ps ih =>
    rw [List.foldl_cons, RxStore.packet, if_neg (h p List.mem_cons_self)]
    exact ih fun q hq => h q (List.mem_cons_of_mem p hq)

/-- The commands that the complete packets deliver. -/
theorem calls_complete {gs : List Group} (h : ∀ g ∈ gs, g.WellFormed e)
    (calls : List (List UInt8)) (n : Nat) :
    ((complete (gs.flatMap (·.packets)) n).foldl (RxStore.packet e) ⟨[], calls⟩).calls.map
        commandOf =
      calls.map commandOf ++ delivered gs n := by
  induction gs generalizing calls n with
  | nil => exact (List.append_nil _).symm
  | cons g gs ih =>
    have hg := h g List.mem_cons_self
    have hgs : ∀ g' ∈ gs, g'.WellFormed e := fun g' hg' => h g' (List.mem_cons_of_mem g hg')
    unfold Group.WellFormed at hg
    rw [List.flatMap_cons, delivered]
    by_cases hle : g.packets.flatten.length ≤ n
    · rw [Framing.complete_append_of_le hle, List.foldl_append, if_pos hle]
      by_cases hwhole : g.whole = true
      · rw [if_pos hwhole] at hg ⊢
        rw [hg.foldl_eq, ih hgs, List.map_append, List.map_singleton, hg.commandOf_eq,
          List.append_assoc]
      · rw [if_neg hwhole] at hg ⊢
        rw [foldl_not_checksOut hg, ih hgs, List.nil_append]
    · obtain ⟨k, hk, hcomplete⟩ : ∃ k < g.packets.length,
          complete (g.packets ++ gs.flatMap (·.packets)) n = g.packets.take k :=
        Framing.complete_append_of_lt (Nat.lt_of_not_le hle)
      rw [hcomplete, if_neg hle, List.append_nil]
      by_cases hwhole : g.whole = true
      · rw [if_pos hwhole] at hg
        rw [hg.foldl_take hk]
      · rw [if_neg hwhole] at hg
        rw [foldl_not_checksOut fun p hp => hg p (List.mem_of_mem_take hp)]

/-- The first bytes of the stream deliver the whole commands among them, in order. -/
theorem calls_received {gs : List Group} {ds : List (List UInt8)} {r : List UInt8}
    (hgs : ∀ g ∈ gs, g.WellFormed e)
    (hps : ∀ g ∈ gs, ∀ p ∈ g.packets, IsPacket p)
    (hds : ds.flatten ++ r = (gs.flatMap (·.packets)).flatten)
    (hsize : ∀ d ∈ ds, d.length ≤ maxSppPacketSize)
    (hvendor : ∀ d ∈ ds, ¬e.TakesAsVendorCmd d)
    (hlast : FailuresLast (gs.flatMap (·.packets)) 0 ds) :
    ∃ rx, ds.foldlM (sAppTotaRx e) TotaRx.initial = some rx ∧
      rx.store.calls.map commandOf = delivered gs ds.flatten.length := by
  have hpackets : ∀ p ∈ gs.flatMap (·.packets), IsPacket p := by
    intro p hp
    obtain ⟨g, hg, hp⟩ := List.mem_flatMap.1 hp
    exact hps g hg p hp
  have hinit := received_initial (e := e) hpackets
  rw [← hds] at hinit
  obtain ⟨rx, hrun, hrx⟩ := received_run hinit hpackets hsize hvendor hlast
  refine ⟨rx, hrun, ?_⟩
  rw [hrx.store, Nat.zero_add, calls_complete hgs]
  rfl

end EarbudFirmware.Tota
