import EarbudFirmware.Rpc.Calls
import EarbudFirmware.Utils.Bytes

/-!
# Packets in the shared buffer

A packet is written into the transmit buffer field by field, and only as far as it has fields to
write. The other side reads the buffer as a structure with all fields.

## Main definitions

* `RpcPkt.ofBuf` — the structure that lies over a buffer
* `setupBuf` — `rpc_setup_packet` on the bytes of the buffer
* `Decodes` — what is read is what was given
* `DecodedRun` — every packet of a sequence is read as it was given

## Main results

* `ofBuf_setupBuf` — on the structure, the bytes change as `setupPacket` says
* `decodedRun_iff` — the sequences whose packets are all read as they were given
-/

namespace EarbudFirmware.Rpc

open NorMemory (Content InRange overlay overlay_of_inRange overlay_of_not_inRange)

/-- `rpc_pkt` at the start of a buffer. -/
def RpcPkt.ofBuf (buf : Content) : RpcPkt where
  core := (le buf 0 4).toUInt32
  cmdRsp := (le buf 4 4).toUInt32
  cmdName := .ofFn fun i => buf (8 + i)
  argsLen := le buf 24 4
  args := (List.range rpcArgsMax).map fun i => buf (28 + i)

/-- `rpc_setup_packet` behind the lock: the buffer and the length of the packet. Without a name the
name is cleared. `none` is a failing assertion. -/
def setupBuf (buf : Content) (core rpcCmd : UInt32) (cmdName : Option (Vector UInt8 16))
    (args : Option (List UInt8)) : Option (Content × Nat) :=
  let buf := overlay 0 4 (leByte core.toNat) buf
  let buf := overlay 4 4 (leByte rpcCmd.toNat) buf
  let buf := overlay 8 16 (fun i => (cmdName.getD (.replicate 16 0)).toList.getD i 0) buf
  match args with
  | none => some (buf, 24)
  | some args =>
    if args.length ≠ 0 then
      if args.length ≤ rpcArgsMax then
        let buf := overlay 24 4 (leByte args.length) buf
        some (overlay 28 args.length (fun i => args.getD i 0) buf, 28 + args.length)
      else none
    else some (buf, 24)

/-! ### The bytes and the structure -/

section Fields

variable {buf buf' : Content} {a n v : Nat} {d : Nat → UInt8}

theorem le_overlay_self : le (overlay a n (leByte v) buf) a n = v % 256 ^ n := by
  have h : ∀ i < n, overlay a n (leByte v) buf (a + i) = leByte v (0 + i) := by
    intro i hi
    have hin : InRange a n (a + i) := ⟨Nat.le_add_right a i, by omega⟩
    rw [overlay_of_inRange hin, Nat.add_sub_cancel_left, Nat.zero_add]
  rw [le_leByte h, pow_zero, Nat.div_one]

theorem le_overlay_of_disjoint {b m : Nat} (h : b + m ≤ a ∨ a + n ≤ b) :
    le (overlay a n d buf) b m = le buf b m := by
  refine le_congr fun i hi => overlay_of_not_inRange (fun hin => ?_) _ _
  have := hi.1
  have := hi.2
  have := hin.1
  have := hin.2
  omega

theorem overlay_of_disjoint {i : Nat} (h : i < a ∨ a + n ≤ i) : overlay a n d buf i = buf i := by
  refine overlay_of_not_inRange (fun hin => ?_) _ _
  have := hin.1
  have := hin.2
  omega

theorem le_uint32 (x : UInt32) : (x.toNat % 256 ^ 4).toUInt32 = x := by
  rw [Nat.mod_eq_of_lt (by have := x.toNat_lt; omega)]
  exact UInt32.ofNat_toNat

/-- The structure depends on its own bytes only. -/
theorem ofBuf_eq {p : RpcPkt} (hcore : (le buf 0 4).toUInt32 = p.core)
    (hcmd : (le buf 4 4).toUInt32 = p.cmdRsp)
    (hname : ∀ i (hi : i < 16), buf (8 + i) = p.cmdName[i]) (hlen : le buf 24 4 = p.argsLen)
    (hargs : (List.range rpcArgsMax).map (fun i => buf (28 + i)) = p.args) :
    RpcPkt.ofBuf buf = p := by
  unfold RpcPkt.ofBuf
  obtain ⟨core, cmdRsp, cmdName, argsLen, args⟩ := p
  congr 1
  refine Vector.ext fun i hi => ?_
  rw [Vector.getElem_ofFn]
  exact hname i hi

/-- The fields in front of the arguments. -/
theorem ofBuf_header (buf : Content) (core rpcCmd : UInt32) (name : Vector UInt8 16) :
    RpcPkt.ofBuf (overlay 8 16 (fun i => name.toList.getD i 0)
        (overlay 4 4 (leByte rpcCmd.toNat) (overlay 0 4 (leByte core.toNat) buf))) =
      { RpcPkt.ofBuf buf with core := core, cmdRsp := rpcCmd, cmdName := name } := by
  refine ofBuf_eq ?_ ?_ ?_ ?_ ?_
  · rw [le_overlay_of_disjoint (.inl (by decide)), le_overlay_of_disjoint (.inl (by decide)),
      le_overlay_self, le_uint32]
  · rw [le_overlay_of_disjoint (.inl (by decide)), le_overlay_self, le_uint32]
  · intro i hi
    have hin : InRange 8 16 (8 + i) := ⟨Nat.le_add_right 8 i, by omega⟩
    rw [overlay_of_inRange hin, Nat.add_sub_cancel_left]
    simp [hi]
  · rw [le_overlay_of_disjoint (.inr (by decide)), le_overlay_of_disjoint (.inr (by decide)),
      le_overlay_of_disjoint (.inr (by decide))]
    rfl
  · dsimp only [RpcPkt.ofBuf]
    refine List.map_congr_left fun i _ => ?_
    rw [overlay_of_disjoint (.inr (by omega)), overlay_of_disjoint (.inr (by omega)),
      overlay_of_disjoint (.inr (by omega))]

/-- The arguments. -/
theorem ofBuf_args (buf : Content) {args : List UInt8} (hle : args.length ≤ rpcArgsMax) :
    RpcPkt.ofBuf (overlay 28 args.length (fun i => args.getD i 0)
        (overlay 24 4 (leByte args.length) buf)) =
      { RpcPkt.ofBuf buf with
        argsLen := args.length
        args := args ++ (RpcPkt.ofBuf buf).args.drop args.length } := by
  have hmax : args.length < 256 ^ 4 := Nat.lt_of_le_of_lt hle (by decide)
  refine ofBuf_eq ?_ ?_ ?_ ?_ ?_
  · rw [le_overlay_of_disjoint (.inl (by decide)), le_overlay_of_disjoint (.inl (by decide))]
    rfl
  · rw [le_overlay_of_disjoint (.inl (by decide)), le_overlay_of_disjoint (.inl (by decide))]
    rfl
  · intro i hi
    rw [overlay_of_disjoint (.inl (by omega)), overlay_of_disjoint (.inl (by omega))]
    simp [RpcPkt.ofBuf]
  · rw [le_overlay_of_disjoint (.inl (by decide)), le_overlay_self, Nat.mod_eq_of_lt hmax]
  · refine List.ext_getElem? fun i => ?_
    by_cases hi : i < rpcArgsMax
    · rw [List.getElem?_map, List.getElem?_range hi, Option.map_some]
      by_cases hlt : i < args.length
      · have hin : InRange 28 args.length (28 + i) := ⟨Nat.le_add_right 28 i, by omega⟩
        rw [overlay_of_inRange hin, Nat.add_sub_cancel_left, List.getElem?_append_left hlt,
          List.getD_eq_getElem _ _ hlt, List.getElem?_eq_getElem hlt]
      · rw [overlay_of_disjoint (.inr (by omega)), overlay_of_disjoint (.inr (by omega)),
          List.getElem?_append_right (by omega), List.getElem?_drop,
          Nat.add_sub_cancel' (by omega)]
        simp [RpcPkt.ofBuf, hi]
    · rw [List.getElem?_eq_none (by simp; omega), List.getElem?_eq_none (by
        simp [RpcPkt.ofBuf]; omega)]

end Fields

/-- On the structure, the bytes change as `setupPacket` says. -/
theorem ofBuf_setupBuf (buf : Content) (core rpcCmd : UInt32) (cmdName : Option (Vector UInt8 16))
    (args : Option (List UInt8)) :
    (setupBuf buf core rpcCmd cmdName args).map (fun r => RpcPkt.ofBuf r.1) =
      setupPacket (.ofBuf buf) core rpcCmd cmdName (args.getD []) := by
  unfold setupBuf setupPacket
  cases args with
  | none =>
    rw [Option.getD_none, if_pos rfl]
    exact congrArg some (ofBuf_header buf core rpcCmd _)
  | some args =>
    dsimp only [Option.getD_some]
    by_cases hnil : args = []
    · rw [if_neg (by simp [hnil]), if_pos hnil]
      exact congrArg some (ofBuf_header buf core rpcCmd _)
    · rw [if_pos (by simpa using hnil), if_neg hnil]
      by_cases hle : args.length ≤ rpcArgsMax
      · rw [if_pos hle, if_pos hle]
        rw [Option.map_some]
        dsimp only
        rw [ofBuf_args _ hle, ofBuf_header]
      · rw [if_neg hle, if_neg hle]
        rfl

/-! ### What is read -/

/-- What a packet is made of. A null pointer stands for no name and for no arguments. -/
structure Message where
  core : UInt32
  rpcCmd : UInt32
  cmdName : Option (Vector UInt8 16)
  args : Option (List UInt8)
  length_le : (args.getD []).length ≤ rpcArgsMax

/-- The bytes of the argument block. -/
def Message.bytes (m : Message) : List UInt8 := m.args.getD []

/-- What is read is what was given. -/
structure Decodes (p : RpcPkt) (m : Message) : Prop where
  core : p.core = m.core
  cmd : p.cmdRsp = m.rpcCmd
  name : p.cmdName = m.cmdName.getD (.replicate 16 0)
  argsLen : p.argsLen = m.bytes.length
  args : p.args.take p.argsLen = m.bytes

/-- Each packet is written, and is read as it was given before the next one is written. -/
def DecodedRun : Content → List Message → Prop
  | _, [] => True
  | buf, m :: ms => ∃ buf' len, setupBuf buf m.core m.rpcCmd m.cmdName m.args = some (buf', len) ∧
      Decodes (.ofBuf buf') m ∧ DecodedRun buf' ms

/-- A packet is always written; without arguments the old length stays. -/
theorem setupBuf_spec (buf : Content) (m : Message) :
    ∃ buf' len, setupBuf buf m.core m.rpcCmd m.cmdName m.args = some (buf', len) ∧
      (Decodes (.ofBuf buf') m ↔ (m.bytes = [] → le buf 24 4 = 0)) ∧
      le buf' 24 4 = if m.bytes = [] then le buf 24 4 else m.bytes.length := by
  have hrefine := ofBuf_setupBuf buf m.core m.rpcCmd m.cmdName m.args
  have hle : m.bytes.length ≤ rpcArgsMax := m.length_le
  rw [show m.args.getD [] = m.bytes from rfl, setupPacket] at hrefine
  by_cases hnil : m.bytes = []
  · rw [if_pos hnil] at hrefine
    obtain ⟨⟨buf', len⟩, hbuf, hp⟩ := Option.map_eq_some_iff.1 hrefine
    have hlen : le buf' 24 4 = le buf 24 4 := congrArg RpcPkt.argsLen hp
    refine ⟨buf', len, hbuf, ?_, by rw [if_pos hnil, hlen]⟩
    dsimp only at hp
    rw [hp]
    constructor
    · intro h _
      have hzero := h.argsLen
      rw [hnil] at hzero
      exact hzero
    · intro h
      have hzero : (RpcPkt.ofBuf buf).argsLen = 0 := h hnil
      refine ⟨rfl, rfl, rfl, ?_, ?_⟩
      · rw [hnil]
        exact hzero
      · dsimp only
        rw [hzero, hnil, List.take_zero]
  · rw [if_neg hnil, if_pos hle] at hrefine
    obtain ⟨⟨buf', len⟩, hbuf, hp⟩ := Option.map_eq_some_iff.1 hrefine
    have hlen : le buf' 24 4 = m.bytes.length := congrArg RpcPkt.argsLen hp
    refine ⟨buf', len, hbuf, ?_, by rw [if_neg hnil, hlen]⟩
    dsimp only at hp
    rw [hp]
    exact ⟨fun _ h => absurd h hnil, fun _ => ⟨rfl, rfl, rfl, rfl, List.take_left⟩⟩

/-- Every packet of a sequence is read as it was given if and only if no packet without arguments
comes behind one with arguments, nor into a buffer whose length is not zero. -/
theorem decodedRun_iff (buf : Content) (ms : List Message) :
    DecodedRun buf ms ↔ ∀ before m after, ms = before ++ m :: after → m.bytes = [] →
      le buf 24 4 = 0 ∧ ∀ m' ∈ before, m'.bytes = [] := by
  induction ms generalizing buf with
  | nil =>
    refine ⟨fun _ before m after h => ?_, fun _ => trivial⟩
    simp at h
  | cons m ms ih =>
    obtain ⟨buf', len, hbuf, hdecodes, hlen⟩ := setupBuf_spec buf m
    have hrun : DecodedRun buf (m :: ms) ↔
        (m.bytes = [] → le buf 24 4 = 0) ∧ DecodedRun buf' ms := by
      constructor
      · rintro ⟨buf₁, len₁, hbuf₁, h, hms⟩
        obtain ⟨rfl, rfl⟩ := Prod.mk.inj (Option.some.inj (hbuf.symm.trans hbuf₁))
        exact ⟨hdecodes.1 h, hms⟩
      · exact fun ⟨h, hms⟩ => ⟨buf', len, hbuf, hdecodes.2 h, hms⟩
    rw [hrun, ih]
    constructor
    · rintro ⟨hm, hms⟩ before m₁ after hsplit hnil
      cases before with
      | nil =>
        obtain ⟨rfl, -⟩ := List.cons.inj hsplit
        exact ⟨hm hnil, fun _ h => by cases h⟩
      | cons m₂ before =>
        obtain ⟨rfl, hsplit'⟩ := List.cons.inj hsplit
        obtain ⟨hzero, hbefore⟩ := hms before m₁ after hsplit' hnil
        -- the length is zero behind the first packet only if that has no arguments
        rw [hlen] at hzero
        split_ifs at hzero with hfirst
        · exact ⟨hzero, List.forall_mem_cons.2 ⟨hfirst, hbefore⟩⟩
        · exact absurd (List.length_eq_zero_iff.1 hzero) hfirst
    · intro h
      refine ⟨fun hnil => (h [] m ms rfl hnil).1, fun before m₁ after hsplit hnil => ?_⟩
      obtain ⟨hzero, hbefore⟩ := h (m :: before) m₁ after (by rw [hsplit]; rfl) hnil
      obtain ⟨hfirst, hbefore⟩ := List.forall_mem_cons.1 hbefore
      rw [hlen, if_pos hfirst]
      exact ⟨hzero, hbefore⟩

/-- A response without arguments behind one with an argument, into a cleared buffer, is read with
the length of the first one. -/
theorem not_decodedRun_empty_args :
    ¬DecodedRun (fun _ => 0)
      [⟨0, rpcRspTag, none, some [1], by decide⟩, ⟨0, rpcRspTag, none, none, by decide⟩] := by
  rintro ⟨buf₁, len₁, hbuf₁, -, buf₂, len₂, hbuf₂, hdecodes, -⟩
  obtain ⟨rfl, -⟩ := Prod.mk.inj (Option.some.inj hbuf₁)
  obtain ⟨rfl, -⟩ := Prod.mk.inj (Option.some.inj hbuf₂)
  exact absurd hdecodes.argsLen (by decide +kernel)

end EarbudFirmware.Rpc
