import EarbudFirmware.Rpc.Calls
import Mathlib.Data.List.GetD
import Mathlib.Data.List.TakeWhile

/-!
# Commands that the other core can call

Commands are registered in a table of fixed size, and called by name. A slot that has not been used
is zero, so its name is the empty one and its handler a null pointer.

## Main definitions

* `CmdTable` — `cmd_srv_tbl` and `cmd_idx`
* `CmdTable.register` — `rpc_register_backend_cmd`
* `CmdTable.receive` — a packet, up to the call of `rpc_exec_cmd`
* `Registered` — the table holds a list of commands
* `FailsCleanly`, `CallsRegistered` — an error leaves the table as it was, and only registered
  commands are called

## Main results

* `register_receive_iff` — when a call and a packet do so, after any calls
-/

namespace EarbudFirmware.Rpc

variable {κ : Type*}

/-- `RPC_MAX_CMD`. -/
def rpcMaxCmd : Nat := 20

/-- `RPC_SIGNAL_CMD`. -/
def rpcSignalCmd : UInt32 := 0x1004

/-- `RPC_CORE_T`. -/
inductive RpcCore where
  | bthM55 | bthDsp | bthSeshub | bthBtc
  deriving DecidableEq

/-- The number of a core. -/
def RpcCore.toUInt32 : RpcCore → UInt32
  | bthM55 => 0
  | bthDsp => 1
  | bthSeshub => 2
  | bthBtc => 3

/-! ### Strings -/

/-- A string up to its zero byte. -/
structure CString where
  bytes : List UInt8
  ne_zero : ∀ c ∈ bytes, c ≠ 0

/-- `strncmp(…) == 0` on two fields of the same length. -/
def strncmpEq : List UInt8 → List UInt8 → Bool
  | x :: a, y :: b => if x ≠ y then false else if x = 0 then true else strncmpEq a b
  | _, _ => true

/-- `strncpy`. -/
def strncpy (dst : Vector UInt8 16) (src : List UInt8) (n : Nat) : Vector UInt8 16 :=
  .ofFn fun i => if i.val < n then src.getD i 0 else dst[i]

/-- The string in a field that need not have a zero byte. -/
def cName (name : Vector UInt8 16) : List UInt8 := name.toList.takeWhile (· ≠ 0)

/-! ### The table -/

/-- `rpc_backend_cmd`. -/
structure BackendCmd (κ : Type*) where
  cmdName : Option CString
  handler : Option κ

/-- The name does not fit into a slot. -/
def BackendCmd.TooLong (c : BackendCmd κ) : Prop := ∃ name ∈ c.cmdName, 15 < name.bytes.length

instance (c : BackendCmd κ) : Decidable c.TooLong := by
  unfold BackendCmd.TooLong
  cases c.cmdName with
  | none => exact .isFalse (by simp)
  | some name => exact decidable_of_iff (15 < name.bytes.length) (by simp)

/-- `rpc_cmd_map`. -/
structure RpcCmdMap (κ : Type*) where
  handle : UInt32
  cmdName : Vector UInt8 16
  handler : Option κ

/-- `cmd_srv_tbl` and `cmd_idx`. -/
structure CmdTable (κ : Type*) where
  cmdSrvTbl : Vector (RpcCmdMap κ) rpcMaxCmd
  cmdIdx : Nat

/-- The arguments of a call: an array of commands, which takes 8 bytes for each of them, or no
array. -/
structure RegisterCall (κ : Type*) where
  core : RpcCore
  cmds : Option (List (BackendCmd κ))
  size_le : 8 * (cmds.getD []).length ≤ 0x100000000

namespace CmdTable

/-- The table after a start. -/
def init : CmdTable κ := ⟨.replicate rpcMaxCmd ⟨0, .replicate 16 0, none⟩, 0⟩

/-- `GENERATE_HANDLE`. -/
def generateHandle (core : RpcCore) (cmdIdx : Nat) : UInt32 :=
  (core.toUInt32 &&& 0xf) <<< 24 ||| cmdIdx.toUInt32

/-- The slot of a command. -/
def setSlot (core : RpcCore) (name : CString) (handler : Option κ) (t : CmdTable κ) : CmdTable κ :=
  match t.cmdSrvTbl[t.cmdIdx]? with
  | none => t
  | some slot =>
    { cmdSrvTbl := t.cmdSrvTbl.setIfInBounds t.cmdIdx
        { handle := generateHandle core t.cmdIdx
          cmdName := strncpy slot.cmdName name.bytes 15
          handler := handler }
      cmdIdx := t.cmdIdx + 1 }

/-- The loop of `rpc_register_backend_cmd`. -/
def registerLoop (core : RpcCore) : List (BackendCmd κ) → CmdTable κ → RpcStatus × CmdTable κ
  | [], t => (.rpcOk, t)
  | c :: cmds, t =>
    match c.cmdName with
    | none => registerLoop core cmds t
    | some name =>
      if 15 < name.bytes.length then (.rpcCmdErr, t)
      else registerLoop core cmds (t.setSlot core name c.handler)

/-- `rpc_register_backend_cmd`. -/
def register (t : CmdTable κ) (call : RegisterCall κ) : RpcStatus × CmdTable κ :=
  match call.cmds with
  | none => (.rpcCmdErr, t)
  | some cmds =>
    if cmds.length = 0 then (.rpcCmdErr, t)
    else if (cmds.length + t.cmdIdx) % 0x100000000 ≥ rpcMaxCmd then (.rpcCmdErr, t)
    else registerLoop call.core cmds t

end CmdTable

/-- `rpc_msg_receive`, `rpc_locol_thread` and `rpc_handle_recv_msg`: whether the packet gets to
`rpc_exec_cmd`, and whether an answer is wanted. Responses and handshakes do not. -/
def RpcPkt.execNeedRsp (pkt : RpcPkt) : Option Bool :=
  if pkt.cmdRsp &&& rpcRspTag = rpcRspTag then none
  else if pkt.cmdRsp &&& rpcCmdTag ≠ rpcCmdTag then none
  else if pkt.cmdRsp &&& 0x0fffffff = rpcHandshakeCmd then none
  else if pkt.cmdRsp &&& 0x0fffffff = rpcExecCmd then some true
  else if pkt.cmdRsp &&& 0x0fffffff = rpcSignalCmd then some false
  else none

/-- What becomes of a packet. `unknown` is answered if an answer is wanted. -/
inductive Dispatch (κ : Type*) where
  | other
  | unknown (needRsp : Bool)
  | call (slot : Nat) (handler : Option κ) (needRsp : Bool)

namespace CmdTable

/-- `rpc_exec_cmd`: the first slot with the name of the packet. -/
def execCmd (t : CmdTable κ) (pkt : RpcPkt) (needRsp : Bool) : Dispatch κ :=
  match t.cmdSrvTbl.toList.findIdx? fun m => strncmpEq m.cmdName.toList pkt.cmdName.toList with
  | none => .unknown needRsp
  | some i => .call i ((t.cmdSrvTbl[i]?).bind RpcCmdMap.handler) needRsp

/-- A received packet. -/
def receive (t : CmdTable κ) (pkt : RpcPkt) : Dispatch κ :=
  match pkt.execNeedRsp with
  | none => .other
  | some needRsp => t.execCmd pkt needRsp

end CmdTable

/-! ### Strings, compared -/

section Strings

variable {a b : List UInt8}

theorem strncmpEq_iff (h : a.length = b.length) :
    strncmpEq a b = true ↔ a.takeWhile (· ≠ 0) = b.takeWhile (· ≠ 0) := by
  induction a generalizing b with
  | nil =>
    obtain rfl : b = [] := List.length_eq_zero_iff.1 h.symm
    exact ⟨fun _ => rfl, fun _ => rfl⟩
  | cons x a ih =>
    obtain ⟨y, b, rfl⟩ := List.exists_cons_of_length_eq_add_one h.symm
    have ih := ih (Nat.succ.inj h)
    unfold strncmpEq
    by_cases hxy : x = y
    · subst hxy
      by_cases hx : x = 0
      · simp [hx]
      · rw [if_neg (not_not.2 rfl), if_neg hx, ih, List.takeWhile_cons_of_pos (by simpa using hx),
          List.takeWhile_cons_of_pos (by simpa using hx), List.cons_inj_right]
    · rw [if_pos hxy]
      simp only [Bool.false_eq_true, false_iff]
      intro heq
      by_cases hx : x = 0
      · have hy : y ≠ 0 := fun hy => hxy (hx.trans hy.symm)
        rw [List.takeWhile_cons_of_neg (by simpa using hx),
          List.takeWhile_cons_of_pos (by simpa using hy)] at heq
        cases heq
      · by_cases hy : y = 0
        · rw [List.takeWhile_cons_of_pos (by simpa using hx),
            List.takeWhile_cons_of_neg (by simpa using hy)] at heq
          cases heq
        · rw [List.takeWhile_cons_of_pos (by simpa using hx),
            List.takeWhile_cons_of_pos (by simpa using hy)] at heq
          exact hxy (List.cons.inj heq).1

theorem strncmpEq_names (v w : Vector UInt8 16) :
    strncmpEq v.toList w.toList = true ↔ cName v = cName w :=
  strncmpEq_iff (by simp)

/-- A name in a field that was zero. -/
def padded (name : CString) : Vector UInt8 16 := strncpy (.replicate 16 0) name.bytes 15

theorem cName_zero : cName (.replicate 16 0) = [] := by decide

/-- A name that fits is read back. -/
theorem cName_padded {name : CString} (h : name.bytes.length ≤ 15) :
    cName (padded name) = name.bytes := by
  have hlist : (padded name).toList = name.bytes ++ List.replicate (16 - name.bytes.length) 0 := by
    refine List.ext_getElem (by simp; omega) fun i hi hi' => ?_
    simp only [padded, strncpy, Vector.getElem_toList, Vector.getElem_ofFn]
    by_cases hlt : i < name.bytes.length
    · rw [if_pos (by omega), List.getElem_append_left hlt, List.getD_eq_getElem _ _ hlt]
    · rw [List.getElem_append_right (by omega), List.getElem_replicate]
      split_ifs
      · exact List.getD_eq_default _ _ (by omega)
      · simp
  unfold cName
  rw [hlist, List.takeWhile_append_of_pos fun c hc => by simpa using name.ne_zero c hc]
  have hpos : 16 - name.bytes.length = 16 - name.bytes.length - 1 + 1 := by omega
  rw [hpos, List.replicate_succ, List.takeWhile_cons_of_neg (by simp), List.append_nil]

end Strings

/-! ### What the table holds -/

/-- A command with a name. -/
structure NamedCmd (κ : Type*) where
  name : CString
  handler : Option κ

/-- The commands that a loop over `cmds` stores: those with a name, up to the first name that is too
long. -/
def storedBy : List (BackendCmd κ) → List (NamedCmd κ)
  | [] => []
  | c :: cmds =>
    match c.cmdName with
    | none => storedBy cmds
    | some name => if 15 < name.bytes.length then [] else ⟨name, c.handler⟩ :: storedBy cmds

/-- The call passes the checks in front of the loop. -/
def RegisterCall.Accepted (call : RegisterCall κ) (t : CmdTable κ) : Prop :=
  call.cmds.getD [] ≠ [] ∧ ((call.cmds.getD []).length + t.cmdIdx) % 0x100000000 < rpcMaxCmd

instance (call : RegisterCall κ) (t : CmdTable κ) : Decidable (call.Accepted t) :=
  inferInstanceAs (Decidable (_ ∧ _))

/-- The commands that a call stores. -/
def RegisterCall.stored (call : RegisterCall κ) (t : CmdTable κ) : List (NamedCmd κ) :=
  if call.Accepted t then storedBy (call.cmds.getD []) else []

/-- The slots hold the commands, and are zero behind them. -/
structure Registered (t : CmdTable κ) (cmds : List (NamedCmd κ)) : Prop where
  cmdIdx : t.cmdIdx = cmds.length
  lt : cmds.length < rpcMaxCmd
  slots : t.cmdSrvTbl.toList.map (fun m => (m.cmdName, m.handler)) =
    cmds.map (fun c => (padded c.name, c.handler)) ++
      List.replicate (rpcMaxCmd - cmds.length) (.replicate 16 0, none)
  length_le : ∀ c ∈ cmds, c.name.bytes.length ≤ 15

variable {t : CmdTable κ} {cmds : List (NamedCmd κ)}

theorem registered_init : Registered (CmdTable.init : CmdTable κ) [] where
  cmdIdx := rfl
  lt := Nat.zero_lt_succ _
  slots := by simp [CmdTable.init]
  length_le := by simp

/-- The next command comes into the first slot that is zero. -/
theorem Registered.setSlot (h : Registered t cmds) (core : RpcCore) {name : CString}
    (hname : name.bytes.length ≤ 15) (hlt : cmds.length + 1 < rpcMaxCmd) (handler : Option κ) :
    Registered (t.setSlot core name handler) (cmds ++ [⟨name, handler⟩]) := by
  have hidx : t.cmdIdx < rpcMaxCmd := h.cmdIdx ▸ h.lt
  have hslot : t.cmdSrvTbl[t.cmdIdx]? = some t.cmdSrvTbl[t.cmdIdx] :=
    Vector.getElem?_eq_getElem hidx
  have hzero : t.cmdSrvTbl[t.cmdIdx].cmdName = .replicate 16 0 := by
    have hget := congrArg (fun l => l[t.cmdIdx]?) h.slots
    rw [List.getElem?_map, List.getElem?_append_right (by simp [h.cmdIdx])] at hget
    have hget' := hget.trans (List.getElem?_replicate_of_lt (by simp [h.cmdIdx]; omega))
    rw [List.getElem?_eq_getElem (by simpa using hidx), Option.map_some, Vector.getElem_toList]
      at hget'
    exact (Prod.mk.inj (Option.some.inj hget')).1
  unfold CmdTable.setSlot
  rw [hslot]
  dsimp only
  rw [hzero]
  refine ⟨by simp [h.cmdIdx], by simpa using hlt, ?_, ?_⟩
  · have hrest : rpcMaxCmd - cmds.length = rpcMaxCmd - (cmds.length + 1) + 1 := by omega
    have hset : ∀ l : List (NamedCmd κ), l.length = t.cmdIdx →
        ∀ x : Vector UInt8 16 × Option κ, ∀ r : List (Vector UInt8 16 × Option κ), ∀ y,
        (l.map (fun c => (padded c.name, c.handler)) ++ x :: r).set t.cmdIdx y =
          l.map (fun c => (padded c.name, c.handler)) ++ y :: r := by
      intro l hl x r y
      rw [← hl, ← List.length_map (f := fun c : NamedCmd κ => (padded c.name, c.handler)),
        List.set_append_right _ _ (Nat.le_refl _), Nat.sub_self, List.set_cons_zero]
    rw [Vector.toList_setIfInBounds, List.map_set, h.slots, hrest, List.replicate_succ,
      hset cmds h.cmdIdx.symm, List.map_append, List.append_assoc, List.length_append]
    rfl
  · intro c hc
    obtain hc | hc := List.mem_append.1 hc
    · exact h.length_le c hc
    · obtain rfl := List.mem_singleton.1 hc
      exact hname

/-! ### Registration -/

section Registration

variable {l : List (BackendCmd κ)} {call : RegisterCall κ}

/-- The loop stores what it can, and fails at the first name that is too long. -/
theorem Registered.registerLoop (h : Registered t cmds) (core : RpcCore)
    (hroom : cmds.length + l.length < rpcMaxCmd) :
    Registered (t.registerLoop core l).2 (cmds ++ storedBy l) ∧
      ((t.registerLoop core l).1 = .rpcOk ↔ ∀ c ∈ l, ¬c.TooLong) := by
  induction l generalizing t cmds with
  | nil =>
    rw [storedBy, List.append_nil]
    exact ⟨h, ⟨fun _ c hc => (by cases hc), fun _ => rfl⟩⟩
  | cons c l ih =>
    rw [List.length_cons] at hroom
    unfold CmdTable.registerLoop storedBy
    cases hname : c.cmdName with
    | none =>
      have hc : ¬c.TooLong := fun ⟨name, hmem, _⟩ => by
        rw [hname] at hmem
        cases hmem
      obtain ⟨hreg, hok⟩ := ih h (by omega)
      refine ⟨hreg, hok.trans ?_⟩
      rw [List.forall_mem_cons]
      exact ⟨fun hl => ⟨hc, hl⟩, fun hl => hl.2⟩
    | some name =>
      dsimp only
      by_cases hlong : 15 < name.bytes.length
      · rw [if_pos hlong, if_pos hlong, List.append_nil]
        refine ⟨h, ⟨fun hstatus => (by cases hstatus), fun hall => ?_⟩⟩
        exact absurd ⟨name, hname, hlong⟩ (hall c List.mem_cons_self)
      · rw [if_neg hlong, if_neg hlong]
        have hc : ¬c.TooLong := fun ⟨name', hmem, hlt⟩ => by
          rw [hname] at hmem
          obtain rfl := Option.some.inj hmem
          exact hlong hlt
        obtain ⟨hreg, hok⟩ := ih (h.setSlot core (Nat.not_lt.1 hlong) (by omega) c.handler)
          (by rw [List.length_append, List.length_singleton]; omega)
        rw [List.append_assoc, List.singleton_append] at hreg
        refine ⟨hreg, hok.trans ?_⟩
        rw [List.forall_mem_cons]
        exact ⟨fun hl => ⟨hc, hl⟩, fun hl => hl.2⟩

theorem registerLoop_eq_self (core : RpcCore) (hnil : storedBy l = []) :
    (t.registerLoop core l).2 = t := by
  induction l with
  | nil => rfl
  | cons c l ih =>
    unfold storedBy at hnil
    unfold CmdTable.registerLoop
    cases hname : c.cmdName with
    | none =>
      rw [hname] at hnil
      exact ih hnil
    | some name =>
      rw [hname] at hnil
      dsimp only at hnil ⊢
      split_ifs at hnil ⊢ with hlong
      rfl

theorem register_eq_loop (h : call.Accepted t) :
    t.register call = t.registerLoop call.core (call.cmds.getD []) := by
  obtain ⟨hne, hlt⟩ := h
  unfold CmdTable.register
  cases hcmds : call.cmds with
  | none =>
    rw [hcmds] at hne
    exact absurd rfl hne
  | some l =>
    rw [hcmds, Option.getD_some] at hne hlt
    dsimp only
    rw [if_neg (by simpa using hne), if_neg (by omega)]
    rfl

theorem register_eq_error (h : ¬call.Accepted t) : t.register call = (.rpcCmdErr, t) := by
  unfold CmdTable.register
  cases hcmds : call.cmds with
  | none => rfl
  | some l =>
    dsimp only
    split_ifs with hnil hroom
    · rfl
    · rfl
    · refine absurd ⟨?_, ?_⟩ h
      · rw [hcmds, Option.getD_some]
        simpa using hnil
      · rw [hcmds, Option.getD_some]
        omega

/-- A call that is accepted has room for all of its commands. -/
theorem Registered.room (h : Registered t cmds) (hcall : call.Accepted t) :
    cmds.length + (call.cmds.getD []).length < rpcMaxCmd := by
  obtain ⟨-, hlt⟩ := hcall
  have hsize := call.size_le
  have hidx := h.lt
  rw [h.cmdIdx] at hlt
  unfold rpcMaxCmd at *
  omega

theorem Registered.register (h : Registered t cmds) (call : RegisterCall κ) :
    Registered (t.register call).2 (cmds ++ call.stored t) := by
  unfold RegisterCall.stored
  split_ifs with hcall
  · rw [register_eq_loop hcall]
    exact (h.registerLoop _ (h.room hcall)).1
  · rw [register_eq_error hcall, List.append_nil]
    exact h

/-- A call that returns an error leaves the table as it was. -/
def FailsCleanly (t : CmdTable κ) (call : RegisterCall κ) : Prop :=
  (t.register call).1 ≠ .rpcOk → (t.register call).2 = t

/-- The call is refused before the loop, or no name is too long, or the first one is. -/
def RegisterCall.Clean (call : RegisterCall κ) (t : CmdTable κ) : Prop :=
  ¬call.Accepted t ∨ (∀ c ∈ call.cmds.getD [], ¬c.TooLong) ∨ storedBy (call.cmds.getD []) = []

theorem Registered.failsCleanly_iff (h : Registered t cmds) (call : RegisterCall κ) :
    FailsCleanly t call ↔ call.Clean t := by
  unfold FailsCleanly RegisterCall.Clean
  by_cases hcall : call.Accepted t
  · obtain ⟨hreg, hok⟩ := h.registerLoop call.core (h.room hcall)
    rw [register_eq_loop hcall, ← hok]
    constructor
    · intro hclean
      by_cases hstatus : (t.registerLoop call.core (call.cmds.getD [])).1 = .rpcOk
      · exact .inr (.inl hstatus)
      · -- the index counts the commands that are stored
        have hidx := hreg.cmdIdx
        rw [hclean hstatus, h.cmdIdx, List.length_append] at hidx
        exact .inr (.inr (List.length_eq_zero_iff.1 (by omega)))
    · rintro (hrefused | hstatus | hnil) hfailed
      · exact absurd hcall hrefused
      · exact absurd hstatus hfailed
      · exact registerLoop_eq_self _ hnil
  · rw [register_eq_error hcall]
    exact ⟨fun _ => .inl hcall, fun _ _ => rfl⟩

end Registration

/-! ### Dispatch -/

section Dispatch

variable {pkt : RpcPkt}

/-- The first command of that name, or the first slot that is zero if the name is empty. -/
theorem Registered.findIdx? (h : Registered t cmds) (pkt : RpcPkt) :
    (t.cmdSrvTbl.toList.findIdx? fun m => strncmpEq m.cmdName.toList pkt.cmdName.toList) =
      (cmds.findIdx? fun c => c.name.bytes = cName pkt.cmdName).or
        (if cName pkt.cmdName = [] then some cmds.length else none) := by
  have hkey : (fun m : RpcCmdMap κ => strncmpEq m.cmdName.toList pkt.cmdName.toList) =
      (fun k : Vector UInt8 16 × Option κ => decide (cName k.1 = cName pkt.cmdName)) ∘
        fun m => (m.cmdName, m.handler) := by
    funext m
    exact Bool.eq_iff_iff.2 ((strncmpEq_names _ _).trans (by simp))
  have hcmds : (cmds.map fun c => (padded c.name, c.handler)).findIdx?
      (fun k : Vector UInt8 16 × Option κ => decide (cName k.1 = cName pkt.cmdName)) =
      cmds.findIdx? fun c => c.name.bytes = cName pkt.cmdName := by
    have hnames : cmds.map (fun c => cName (padded c.name)) = cmds.map fun c => c.name.bytes :=
      List.map_congr_left fun c hc => cName_padded (h.length_le c hc)
    have hfind := congrArg (List.findIdx? fun n => decide (n = cName pkt.cmdName)) hnames
    rw [List.findIdx?_map, List.findIdx?_map] at hfind
    rw [List.findIdx?_map]
    exact hfind
  have hpos : rpcMaxCmd - cmds.length = rpcMaxCmd - cmds.length - 1 + 1 := by
    have := h.lt
    omega
  rw [hkey, ← List.findIdx?_map, h.slots, List.findIdx?_append, hcmds, List.length_map]
  congr 1
  by_cases hnil : cName pkt.cmdName = []
  · rw [if_pos hnil, hpos, List.replicate_succ, List.findIdx?_cons, cName_zero, hnil]
    simp
  · rw [if_neg hnil, List.findIdx?_eq_none_iff.2]
    · rfl
    · intro k hk
      obtain ⟨-, rfl⟩ := List.mem_replicate.1 hk
      rw [cName_zero]
      simpa using fun heq => hnil heq

/-- A packet calls a command that is registered under exactly its name, if it calls any. -/
def CallsRegistered (cmds : List (NamedCmd κ)) (t : CmdTable κ) (pkt : RpcPkt) : Prop :=
  ∀ slot handler needRsp, t.receive pkt = .call slot handler needRsp →
    ∃ c, cmds[slot]? = some c ∧ c.name.bytes = cName pkt.cmdName ∧ c.handler = handler

/-- The packet calls no command, or has a name, or a command without a name is registered. -/
def RpcPkt.Named (cmds : List (NamedCmd κ)) (pkt : RpcPkt) : Prop :=
  pkt.execNeedRsp = none ∨ cName pkt.cmdName ≠ [] ∨ ∃ c ∈ cmds, c.name.bytes = []

theorem Registered.handler_eq (h : Registered t cmds) {i : Nat} {c : NamedCmd κ}
    (hc : cmds[i]? = some c) : (t.cmdSrvTbl[i]?).bind RpcCmdMap.handler = c.handler := by
  have hi : i < cmds.length := (List.getElem?_eq_some_iff.1 hc).1
  have hget := congrArg (fun l => l[i]?) h.slots
  rw [List.getElem?_append_left (by simpa using hi), List.getElem?_map, List.getElem?_map, hc]
    at hget
  obtain ⟨m, hm, hslot⟩ := Option.map_eq_some_iff.1 hget
  rw [Vector.getElem?_toList] at hm
  rw [hm, Option.bind_some]
  exact (Prod.mk.inj hslot).2

theorem Registered.callsRegistered_iff (h : Registered t cmds) (pkt : RpcPkt) :
    CallsRegistered cmds t pkt ↔ pkt.Named cmds := by
  unfold CallsRegistered RpcPkt.Named CmdTable.receive
  cases hexec : pkt.execNeedRsp with
  | none => exact ⟨fun _ => .inl rfl, fun _ slot handler needRsp hcall => by cases hcall⟩
  | some needRsp =>
    dsimp only
    unfold CmdTable.execCmd
    rw [h.findIdx?]
    cases hfind : cmds.findIdx? fun c => c.name.bytes = cName pkt.cmdName with
    | some i =>
      rw [Option.some_or]
      obtain ⟨hi, hname, -⟩ := List.findIdx?_eq_some_iff_getElem.1 hfind
      have hget : cmds[i]? = some cmds[i] := List.getElem?_eq_getElem hi
      have hname' : cmds[i].name.bytes = cName pkt.cmdName := by simpa using hname
      constructor
      · intro _
        by_cases hnil : cName pkt.cmdName = []
        · exact .inr (.inr ⟨cmds[i], List.getElem_mem hi, hname'.trans hnil⟩)
        · exact .inr (.inl hnil)
      · intro _ slot handler rsp hcall
        obtain ⟨rfl, rfl, -⟩ := Dispatch.call.inj hcall
        exact ⟨cmds[i], hget, hname', (h.handler_eq hget).symm⟩
    | none =>
      rw [Option.none_or]
      have hnone : ∀ c ∈ cmds, ¬c.name.bytes = cName pkt.cmdName := by
        simpa using List.findIdx?_eq_none_iff.1 hfind
      by_cases hnil : cName pkt.cmdName = []
      · -- the first slot that is zero has no command
        rw [if_pos hnil]
        constructor
        · intro hcalls
          obtain ⟨c, hc, -⟩ := hcalls _ _ _ rfl
          simp at hc
        · rintro (hexec' | hname | ⟨c, hc, hempty⟩)
          · cases hexec'
          · exact absurd hnil hname
          · exact absurd (hempty.trans hnil.symm) (hnone c hc)
      · rw [if_neg hnil]
        exact ⟨fun _ => .inr (.inl hnil), fun _ slot handler rsp hcall => by cases hcall⟩

end Dispatch

/-! ### Runs -/

/-- A call, and the commands that are stored. -/
def tracedRegister (r : CmdTable κ × List (NamedCmd κ)) (call : RegisterCall κ) :
    CmdTable κ × List (NamedCmd κ) :=
  ((r.1.register call).2, r.2 ++ call.stored r.1)

theorem registered_run (calls : List (RegisterCall κ)) {r : CmdTable κ × List (NamedCmd κ)}
    (h : Registered r.1 r.2) :
    Registered (calls.foldl tracedRegister r).1 (calls.foldl tracedRegister r).2 := by
  induction calls generalizing r with
  | nil => exact h
  | cons call calls ih => exact ih (h.register call)

/-- After any calls, a call leaves the table as it was when it fails if and only if it is clean, and
a packet calls nothing but a registered command of exactly its name if and only if it is named. -/
theorem register_receive_iff (calls : List (RegisterCall κ)) (call : RegisterCall κ)
    (pkt : RpcPkt) :
    let r := calls.foldl tracedRegister (.init, [])
    (FailsCleanly r.1 call ↔ call.Clean r.1) ∧ (CallsRegistered r.2 r.1 pkt ↔ pkt.Named r.2) :=
  have h := registered_run calls (r := (.init, [])) registered_init
  ⟨h.failsCleanly_iff call, h.callsRegistered_iff pkt⟩

/-- The second of two names is too long, so the call fails with the first one stored. A packet
without a name calls the first slot that is zero. -/
theorem not_failsCleanly_callsRegistered :
    ¬FailsCleanly (.init : CmdTable Unit)
        ⟨.bthDsp, some [⟨some ⟨[0x61], by simp⟩, some ()⟩,
          ⟨some ⟨List.replicate 16 0x61, by simp⟩, some ()⟩], by decide⟩ ∧
      ¬CallsRegistered [] (.init : CmdTable Unit) ⟨1, 0x10001003, .replicate 16 0, 0, []⟩ := by
  constructor
  · intro h
    have hidx := congrArg CmdTable.cmdIdx (h (by decide +kernel))
    exact absurd hidx (by decide +kernel)
  · intro h
    obtain ⟨c, hc, -⟩ := h 0 none true rfl
    cases hc

end EarbudFirmware.Rpc
