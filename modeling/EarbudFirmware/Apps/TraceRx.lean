import EarbudFirmware.Lib.NorMemory
import Mathlib.Data.List.TakeWhile
import Mathlib.Logic.Function.Basic

/-!
# Commands from the trace port

A command is a text in a buffer, `[name,args]` or `name:args`. The delimiters are overwritten with
zeros, the name is looked up in the list of handlers, and the handler is called with the arguments.
The buffer lies in a memory that goes on behind the text; every index that is read or written is
noted.

## Main definitions

* `RxBuf` — the memory and the indices that have been accessed
* `parse`, `processImpl` — the functions of the source
* `command`, `Handled` — what a text says, and that a command is handled as it says
* `Regular` — the texts that are handled so

## Main results

* `scan_spec`, `isInList_spec` — the loops
* `handled_iff_regular` — a text is handled as it says exactly when it is regular
-/

namespace EarbudFirmware.Apps

open NorMemory (Content)

/-! ### The memory -/

/-- The memory from the start of the text on, and the indices accessed so far. -/
structure RxBuf where
  bytes : Content
  accessed : List Nat

namespace RxBuf

def load (b : RxBuf) (i : Nat) : UInt8 × RxBuf :=
  (b.bytes i, { b with accessed := i :: b.accessed })

def store (b : RxBuf) (i : Nat) (c : UInt8) : RxBuf :=
  ⟨Function.update b.bytes i c, i :: b.accessed⟩

end RxBuf

/-- The loops that look for a delimiter at the `n` positions from `pos` on: the delimiter is
overwritten with zero. The result is its position, or the one behind the last. -/
def scan (stop : UInt8 → Bool) : Nat → Nat → RxBuf → Nat × RxBuf
  | 0, pos, b => (pos, b)
  | n + 1, pos, b =>
    let (c, b) := b.load pos
    if stop c then (pos, b.store pos 0) else scan stop n (pos + 1) b

/-! ### The list of handlers -/

/-- `APP_TRACE_RX_NAME_SIZE`, with the terminating zero. -/
def nameSize : Nat := 20

/-- `APP_TRACE_RX_HEAD_SIZE`. -/
def headSize : Nat := 4

/-- `APP_TRACE_RX_LIST_T`: a name that fits, up to its terminating zero, and whether there is a
callback. -/
structure RxSlot where
  name : List UInt8
  callback : Bool
  length_lt : name.length < nameSize
  zero_not_mem : 0 ∉ name

/-- `strcmp` of a name with the text at `pos`: whether they are equal. -/
def strcmp : List UInt8 → Nat → RxBuf → Bool × RxBuf
  | [], pos, b =>
    let (c, b) := b.load pos
    (c = 0, b)
  | x :: xs, pos, b =>
    let (c, b) := b.load pos
    if c = x then strcmp xs (pos + 1) b else (false, b)

/-- `app_trace_rx_is_in_list`; `none` is -1. -/
def isInList : List RxSlot → Nat → RxBuf → Option Nat × RxBuf
  | [], _, b => (none, b)
  | s :: slots, pos, b =>
    let (same, b) := strcmp s.name pos b
    if same then (some 0, b)
    else
      let (id, b) := isInList slots pos b
      (id.map (· + 1), b)

/-! ### Parsing and processing -/

/-- `APP_TRACE_RX_HEAD`. -/
def rxHead : UInt8 := 0x5B

/-- `APP_TRACE_RX_END`. -/
def isEnd (c : UInt8) : Bool := c = 0x5D

/-- `APP_TRACE_RX_SEPARATOR` and `APP_TRACE_RX_USR_SEPARATOR`. -/
def isSeparator (c : UInt8) : Bool := c = 0x3D ∨ c = 0x2C

/-- `APP_TRACE_RX_COLON_SEPARATOR`. -/
def isColon (c : UInt8) : Bool := c = 0x3A

/-- `APP_TRACE_RX_CFG_T`, with positions for pointers. -/
structure RxCfg where
  name : Nat
  len : Nat
  buf : Nat

/-- `app_trace_rx_parse`; an error is the return value. -/
def parse (b : RxBuf) (bufLen : Nat) : Except Nat RxCfg × RxBuf :=
  let (pos, b) := scan (· = rxHead) headSize 0 b
  if pos = headSize then (.error 3, b)
  else
    let name := pos + 1
    let (pos, b) := scan isSeparator (nameSize + headSize - name) name b
    if pos = nameSize then (.error 1, b)
    else
      let buf := pos + 1
      let (pos, b) := scan isEnd (bufLen - buf) buf b
      if pos = bufLen then (.error 2, b) else (.ok ⟨name, pos - buf, buf⟩, b)

/-- The branch of `app_trace_rx_process_impl` for a name and a colon. The length is a difference of
32 bits. -/
def splitColon (b : RxBuf) (len : Nat) : RxCfg × RxBuf :=
  let (pos, b) := scan isColon len 0 b
  let b := if pos = len then b.store len 0 else b
  (⟨0, (len + 0x100000000 - (pos + 1)) % 0x100000000, pos + 1⟩, b)

/-- A call of a handler: its place in the list, and what it is given. -/
structure HandlerCall where
  id : Nat
  buf : Nat
  len : Nat
  deriving DecidableEq

/-- The text behind the terminating zero has been parsed. -/
def parsed (b : RxBuf) (len : Nat) : Except Nat RxCfg × RxBuf :=
  let (c, b) := (b.store len 0).load 0
  if c = rxHead then parse b len
  else
    let (cfg, b) := splitColon b len
    (.ok cfg, b)

/-- `app_trace_rx_process_impl`: the return value, the memory, and the call of a handler. -/
def processImpl (slots : List RxSlot) (b : RxBuf) (len : Nat) : Nat × RxBuf × Option HandlerCall :=
  match parsed b len with
  | (.error _, b) => (2, b, none)
  | (.ok cfg, b) =>
    match isInList slots cfg.name b with
    | (none, b) => (3, b, none)
    | (some id, b) =>
      if (slots[id]?).any (·.callback) then (0, b, some ⟨id, cfg.buf, cfg.len⟩) else (4, b, none)

/-! ### What a text says -/

/-- The first position from `lo` up to `hi`, exclusively, where the predicate holds. -/
def firstIn (f : Content) (p : UInt8 → Bool) (lo hi : Nat) : Option Nat :=
  (List.range' lo (hi - lo)).find? fun i => p (f i)

/-- The bytes from `lo` up to `hi`, exclusively. -/
def slice (f : Content) (lo hi : Nat) : List UInt8 := (List.range' lo (hi - lo)).map f

/-- The name and the arguments of a text: `[name,args]`, where another separator may stand for the
comma, with a name that fits, or `name:args`. -/
def command (f : Content) (len : Nat) : Option (List UInt8 × List UInt8) :=
  if f 0 = rxHead then do
    let p ← firstIn f isSeparator 1 len
    let q ← firstIn f isEnd (p + 1) len
    if p - 1 < nameSize then some (slice f 1 p, slice f (p + 1) q) else none
  else do
    let p ← firstIn f isColon 0 len
    some (slice f 0 p, slice f (p + 1) len)

/-- The first handler of this name, when it has a callback. -/
def handlerOf (slots : List RxSlot) (name : List UInt8) : Option Nat :=
  (slots.findIdx? (·.name = name)).filter fun id => (slots[id]?).any (·.callback)

/-- The handler of a command, with its arguments. -/
def handler (slots : List RxSlot) (f : Content) (len : Nat) : Option (Nat × List UInt8) := do
  let (name, args) ← command f len
  let id ← handlerOf slots name
  some (id, args)

/-- The call gives the handler the arguments and their length. -/
structure Hands (b : RxBuf) (call : HandlerCall) (id : Nat) (args : List UInt8) : Prop where
  id : call.id = id
  len : call.len = args.length
  bytes : slice b.bytes call.buf (call.buf + args.length) = args

/-- A handler is called exactly when it is to be, and gets the arguments. -/
def Agrees (b : RxBuf) : Option (Nat × List UInt8) → Option HandlerCall → Prop
  | none, none => True
  | some (id, args), some call => Hands b call id args
  | _, _ => False

/-- **A text is handled as it says.** Nothing outside of the text and its terminating zero is
accessed, what is parsed without an error is a command, and a handler is called exactly when the
text is a command with its name, and gets the arguments. -/
structure Handled (slots : List RxSlot) (f : Content) (len : Nat) : Prop where
  inside : ∀ i ∈ (processImpl slots ⟨f, []⟩ len).2.1.accessed, i ≤ len
  accepted : f 0 = rxHead → ∀ cfg b, parsed ⟨f, []⟩ len = (.ok cfg, b) → (command f len).isSome
  called : Agrees (processImpl slots ⟨f, []⟩ len).2.1 (handler slots f len)
    (processImpl slots ⟨f, []⟩ len).2.2

/-- The name as `strcmp` sees it, which stops at a zero. -/
def cString (l : List UInt8) : List UInt8 := l.takeWhile fun c => c ≠ 0

/-- **The texts that are handled as they say.** In a text in brackets, the first separator is looked
for up to position 23. When an end follows it, it must not be behind position 20; at position 20 the
name must not be one of a handler, and before it the name must not become one when it is cut at a
zero. Without a separator there must be 25 bytes or more, and no end from position 25 on. In a text
without brackets, the name in front of the colon must not become one of a handler when it is cut at
a zero, and without a colon the whole text must not. -/
def Regular (slots : List RxSlot) (f : Content) (len : Nat) : Prop :=
  if f 0 = rxHead then
    match firstIn f isSeparator 1 (min len (nameSize + headSize)) with
    | some p =>
      firstIn f isEnd (p + 1) len = none ∨
        if p = nameSize then handlerOf slots (slice f 1 p) = none
        else p < nameSize ∧ (0 ∉ slice f 1 p ∨ handlerOf slots (cString (slice f 1 p)) = none)
    | none => nameSize + headSize < len ∧ firstIn f isEnd (nameSize + headSize + 1) len = none
  else
    match firstIn f isColon 0 len with
    | some p => 0 ∉ slice f 0 p ∨ handlerOf slots (cString (slice f 0 p)) = none
    | none => handlerOf slots (cString (slice f 0 len)) = none

/-! ### Positions and slices -/

section Positions

variable {f g : Content} {p : UInt8 → Bool} {lo hi q : Nat}

theorem firstIn_eq_none : firstIn f p lo hi = none ↔ ∀ i, lo ≤ i → i < hi → p (f i) = false := by
  rw [firstIn, List.find?_range'_eq_none]
  constructor
  · exact fun h i hlo hhi => by simpa using h i hlo (by omega)
  · exact fun h i hlo hhi => by simpa using h i hlo (by omega)

theorem firstIn_eq_some : firstIn f p lo hi = some q ↔
    lo ≤ q ∧ q < hi ∧ p (f q) = true ∧ ∀ i, lo ≤ i → i < q → p (f i) = false := by
  rw [firstIn, List.find?_range'_eq_some, List.mem_range'_1]
  constructor
  · rintro ⟨hq, ⟨hlo, hhi⟩, hmin⟩
    exact ⟨hlo, by omega, hq, fun i hi hlt => by simpa using hmin i hi hlt⟩
  · rintro ⟨hlo, hhi, hq, hmin⟩
    exact ⟨hq, ⟨hlo, by omega⟩, fun i hi hlt => by simpa using hmin i hi hlt⟩

theorem firstIn_congr (h : ∀ i, lo ≤ i → i < hi → g i = f i) :
    firstIn g p lo hi = firstIn f p lo hi := by
  cases hf : firstIn f p lo hi with
  | none =>
    rw [firstIn_eq_none] at hf ⊢
    exact fun i hlo hhi => by rw [h i hlo hhi, hf i hlo hhi]
  | some q =>
    rw [firstIn_eq_some] at hf ⊢
    obtain ⟨hlo, hhi, hq, hmin⟩ := hf
    exact ⟨hlo, hhi, by rw [h q hlo hhi, hq], fun i hi hlt => by
      rw [h i hi (by omega), hmin i hi hlt]⟩

theorem slice_self (f : Content) (lo : Nat) : slice f lo lo = [] := by
  rw [slice, Nat.sub_self, List.range'_zero, List.map_nil]

theorem slice_of_lt (h : lo < hi) : slice f lo hi = f lo :: slice f (lo + 1) hi := by
  rw [slice, slice, show hi - lo = hi - (lo + 1) + 1 by omega, List.range'_succ, List.map_cons]

theorem slice_congr (h : ∀ i, lo ≤ i → i < hi → g i = f i) : slice g lo hi = slice f lo hi := by
  refine List.map_congr_left fun i hi' => ?_
  obtain ⟨hlo, hhi⟩ := List.mem_range'_1.1 hi'
  exact h i hlo (by omega)

@[simp] theorem length_slice (f : Content) (lo hi : Nat) : (slice f lo hi).length = hi - lo := by
  rw [slice, List.length_map, List.length_range']

theorem cString_of_not_mem {l : List UInt8} (h : 0 ∉ l) : cString l = l :=
  List.takeWhile_eq_self_iff.2 fun _ hc => decide_eq_true fun h0 => h (h0 ▸ hc)

end Positions

/-! ### The loops -/

section Loops

variable {stop : UInt8 → Bool} {n pos q hi : Nat} {b : RxBuf} {slots : List RxSlot}

/-- Without a delimiter the loop looks at all positions. -/
theorem scan_of_none (h : firstIn b.bytes stop pos (pos + n) = none) :
    (scan stop n pos b).1 = pos + n ∧ (scan stop n pos b).2.bytes = b.bytes ∧
      ∀ i, i ∈ (scan stop n pos b).2.accessed ↔ i ∈ b.accessed ∨ pos ≤ i ∧ i < pos + n := by
  rw [firstIn_eq_none] at h
  induction n generalizing pos b with
  | zero => exact ⟨rfl, rfl, fun i => by grind [scan]⟩
  | succ n ih =>
    have hpos : stop (b.bytes pos) = false := h pos (Nat.le_refl _) (by omega)
    have hrest := @ih (pos + 1) (b.load pos).2 fun i hlo hhi => h i (by omega) (by omega)
    simp only [scan, RxBuf.load, hpos, Bool.false_eq_true, if_false] at hrest ⊢
    refine ⟨by rw [hrest.1]; omega, hrest.2.1, fun i => ?_⟩
    rw [hrest.2.2, List.mem_cons]
    grind

/-- The loop stops at the first delimiter. -/
theorem scan_of_some (h : firstIn b.bytes stop pos (pos + n) = some q) :
    (scan stop n pos b).1 = q ∧ (scan stop n pos b).2.bytes = Function.update b.bytes q 0 ∧
      ∀ i, i ∈ (scan stop n pos b).2.accessed ↔ i ∈ b.accessed ∨ pos ≤ i ∧ i ≤ q := by
  rw [firstIn_eq_some] at h
  obtain ⟨hlo, hhi, hq, hmin⟩ := h
  induction n generalizing pos b with
  | zero => omega
  | succ n ih =>
    rcases Nat.eq_or_lt_of_le hlo with rfl | hlt
    · simp only [scan, RxBuf.load, hq, if_true, RxBuf.store, List.mem_cons, true_and]
      grind
    · have hpos : stop (b.bytes pos) = false := hmin pos (Nat.le_refl _) hlt
      have hrest := @ih (pos + 1) (b.load pos).2 hlt (by omega) hq
        fun i hi => hmin i (by omega)
      simp only [scan, RxBuf.load, hpos, Bool.false_eq_true, if_false] at hrest ⊢
      refine ⟨hrest.1, hrest.2.1, fun i => ?_⟩
      rw [hrest.2.2, List.mem_cons]
      grind

/-- `strcmp` compares with the text up to its first zero. -/
theorem strcmp_spec {name : List UInt8} (hname : 0 ∉ name) (hpos : pos ≤ hi)
    (hzero : b.bytes hi = 0) :
    (strcmp name pos b).1 = decide (name = cString (slice b.bytes pos hi)) ∧
      (strcmp name pos b).2.bytes = b.bytes ∧
      ∀ i ∈ (strcmp name pos b).2.accessed, i ∈ b.accessed ∨ i ≤ hi := by
  induction name generalizing pos b with
  | nil =>
    refine ⟨?_, rfl, fun i hmem => ?_⟩
    · simp only [strcmp, RxBuf.load]
      rcases Nat.eq_or_lt_of_le hpos with rfl | hlt
      · simp [slice_self, cString, hzero]
      · by_cases hc : b.bytes pos = 0 <;> simp [slice_of_lt hlt, cString, hc]
    · simp only [strcmp, RxBuf.load, List.mem_cons] at hmem
      exact hmem.elim (fun h => .inr (by omega)) .inl
  | cons x xs ih =>
    obtain ⟨hx, hxs⟩ : x ≠ 0 ∧ 0 ∉ xs := by simpa [eq_comm] using hname
    have haccessed : ∀ i ∈ pos :: b.accessed, i ∈ b.accessed ∨ i ≤ hi := fun i h => by
      rcases List.mem_cons.1 h with rfl | h
      · exact .inr hpos
      · exact .inl h
    have hcons : strcmp (x :: xs) pos b =
        if b.bytes pos = x then strcmp xs (pos + 1) (b.load pos).2
        else (false, (b.load pos).2) := rfl
    rw [hcons]
    split
    · rename_i hc
      have hlt : pos < hi := Nat.lt_of_le_of_ne hpos fun h => hx (by rw [← hc, h, hzero])
      obtain ⟨hsame, hbytes, hacc⟩ := @ih (pos + 1) (b.load pos).2 hxs hlt hzero
      refine ⟨?_, hbytes, fun i h => ?_⟩
      · rw [hsame]
        simp [RxBuf.load, slice_of_lt hlt, cString, hc, hx]
      · exact (hacc i h).elim (haccessed i) .inr
    · rename_i hc
      refine ⟨?_, rfl, haccessed⟩
      rcases Nat.eq_or_lt_of_le hpos with rfl | hlt
      · simp [slice_self, cString]
      · by_cases h0 : b.bytes pos = 0 <;> simp [slice_of_lt hlt, cString, h0, Ne.symm hc]

/-- The list is searched for the text up to its first zero. -/
theorem isInList_spec (slots : List RxSlot) (hpos : pos ≤ hi) (hzero : b.bytes hi = 0) :
    (isInList slots pos b).1 =
        slots.findIdx? (fun s => s.name = cString (slice b.bytes pos hi)) ∧
      (isInList slots pos b).2.bytes = b.bytes ∧
      ∀ i ∈ (isInList slots pos b).2.accessed, i ∈ b.accessed ∨ i ≤ hi := by
  induction slots generalizing b with
  | nil => exact ⟨rfl, rfl, fun i h => .inl h⟩
  | cons s slots ih =>
    obtain ⟨hsame, hbytes, hacc⟩ := strcmp_spec s.zero_not_mem hpos hzero
    simp only [isInList, hsame, List.findIdx?_cons]
    split
    · exact ⟨rfl, hbytes, hacc⟩
    · obtain ⟨hid, hbytes', hacc'⟩ := ih (b := (strcmp s.name pos b).2) (by rw [hbytes, hzero])
      refine ⟨by rw [hid, hbytes], hbytes'.trans hbytes, fun i h => ?_⟩
      exact (hacc' i h).elim (hacc i) .inr

end Loops

/-! ### Accesses are kept -/

section Kept

variable {b : RxBuf} {i : Nat}

theorem mem_accessed_scan (stop : UInt8 → Bool) (n pos : Nat) (h : i ∈ b.accessed) :
    i ∈ (scan stop n pos b).2.accessed := by
  cases hfirst : firstIn b.bytes stop pos (pos + n) with
  | none => exact ((scan_of_none hfirst).2.2 i).2 (.inl h)
  | some q => exact ((scan_of_some hfirst).2.2 i).2 (.inl h)

theorem mem_accessed_strcmp (name : List UInt8) (pos : Nat) (h : i ∈ b.accessed) :
    i ∈ (strcmp name pos b).2.accessed := by
  induction name generalizing pos b with
  | nil => exact List.mem_cons_of_mem pos h
  | cons x xs ih =>
    simp only [strcmp]
    split
    · exact ih _ (List.mem_cons_of_mem pos h)
    · exact List.mem_cons_of_mem pos h

theorem mem_accessed_isInList (slots : List RxSlot) (pos : Nat) (h : i ∈ b.accessed) :
    i ∈ (isInList slots pos b).2.accessed := by
  induction slots generalizing b with
  | nil => exact h
  | cons s slots ih =>
    simp only [isInList]
    split
    · exact mem_accessed_strcmp s.name pos h
    · exact ih (mem_accessed_strcmp s.name pos h)

end Kept

/-! ### Looking the name up -/

section Lookup

variable (slots : List RxSlot) {f : Content} {len hi : Nat} {cfg : RxCfg} {b : RxBuf}

/-- A name with a zero is no handler's. -/
theorem handlerOf_of_zero_mem {name : List UInt8} (h : 0 ∈ name) : handlerOf slots name = none := by
  have hnone : slots.findIdx? (·.name = name) = none := by
    refine List.findIdx?_eq_none_iff.2 fun s _ => decide_eq_false fun heq => ?_
    exact s.zero_not_mem (heq ▸ h)
  rw [handlerOf, hnone, Option.filter_none]

/-- The handler of the name that the memory holds, up to its first zero, is called with what was
parsed. -/
theorem processImpl_of_ok (hparsed : parsed ⟨f, []⟩ len = (.ok cfg, b)) (hname : cfg.name ≤ hi)
    (hzero : b.bytes hi = 0) (hhi : hi ≤ len) (hinside : ∀ i ∈ b.accessed, i ≤ len) :
    (∀ i ∈ (processImpl slots ⟨f, []⟩ len).2.1.accessed, i ≤ len) ∧
      (processImpl slots ⟨f, []⟩ len).2.1.bytes = b.bytes ∧
      (processImpl slots ⟨f, []⟩ len).2.2 =
        (handlerOf slots (cString (slice b.bytes cfg.name hi))).map fun id =>
          ⟨id, cfg.buf, cfg.len⟩ := by
  obtain ⟨hid, hbytes, hacc⟩ := isInList_spec slots hname hzero
  have hacc' : ∀ i ∈ (isInList slots cfg.name b).2.accessed, i ≤ len := fun i h =>
    (hacc i h).elim (hinside i) fun h => Nat.le_trans h hhi
  simp only [processImpl, hparsed, handlerOf, ← hid]
  rcases hlist : isInList slots cfg.name b with ⟨_ | id, b'⟩
  · rw [hlist] at hbytes hacc'
    exact ⟨hacc', hbytes, rfl⟩
  · rw [hlist] at hbytes hacc'
    simp only [Option.filter_some]
    split
    · exact ⟨hacc', hbytes, rfl⟩
    · exact ⟨hacc', hbytes, rfl⟩

/-- What does not parse is not handed to a handler. -/
theorem processImpl_of_error {err : Nat} (hparsed : parsed ⟨f, []⟩ len = (.error err, b)) :
    processImpl slots ⟨f, []⟩ len = (2, b, none) := by
  simp only [processImpl, hparsed]

/-- What the parser has accessed stays accessed. -/
theorem mem_accessed_processImpl {i : Nat} (h : i ∈ (parsed ⟨f, []⟩ len).2.accessed) :
    i ∈ (processImpl slots ⟨f, []⟩ len).2.1.accessed := by
  rcases hparsed : parsed ⟨f, []⟩ len with ⟨err | cfg, b⟩
  · rw [hparsed] at h
    rwa [processImpl_of_error slots hparsed]
  · rw [hparsed] at h
    have hmem := mem_accessed_isInList slots cfg.name h
    simp only [processImpl, hparsed]
    rcases hlist : isInList slots cfg.name b with ⟨_ | id, b'⟩
    · rwa [hlist] at hmem
    · rw [hlist] at hmem
      simp only
      split <;> exact hmem

/-- A name is looked up as it is unless it becomes a handler's when it is cut at a zero. -/
theorem handlerOf_eq_cString_iff {name : List UInt8} :
    handlerOf slots name = handlerOf slots (cString name) ↔
      0 ∉ name ∨ handlerOf slots (cString name) = none := by
  by_cases h : 0 ∈ name
  · rw [handlerOf_of_zero_mem slots h]
    exact ⟨fun heq => .inr heq.symm, fun hor => (hor.resolve_left fun hno => hno h).symm⟩
  · rw [cString_of_not_mem h]
    exact ⟨fun _ => .inl h, fun _ => rfl⟩

/-- The handler of one name is called with the arguments, the handler of another was to be. -/
theorem agrees_iff {name name' args : List UInt8} {buf n : Nat} (hlen : n = args.length)
    (hbytes : slice b.bytes buf (buf + args.length) = args) :
    Agrees b ((handlerOf slots name).map (·, args))
        ((handlerOf slots name').map fun id => ⟨id, buf, n⟩) ↔
      handlerOf slots name = handlerOf slots name' := by
  cases handlerOf slots name with
  | none => cases handlerOf slots name' <;> simp [Agrees]
  | some id =>
    cases handlerOf slots name' with
    | none => simp [Agrees]
    | some id' =>
      simp only [Option.map_some, Agrees, Option.some.injEq]
      exact ⟨fun h => h.id.symm, fun h => ⟨h.symm, hlen, hbytes⟩⟩

end Lookup

/-! ### Texts without brackets -/

section Colon

variable {slots : List RxSlot} {f : Content} {len p : Nat}

/-- The text with its terminating zero, behind the look at its first byte. -/
def terminated (f : Content) (len : Nat) : RxBuf := (((⟨f, []⟩ : RxBuf).store len 0).load 0).2

theorem terminated_bytes (f : Content) (len : Nat) :
    (terminated f len).bytes = Function.update f len 0 := rfl

theorem terminated_of_lt {i : Nat} (h : i < len) : (terminated f len).bytes i = f i :=
  Function.update_of_ne (Nat.ne_of_lt h) _ _

theorem inside_terminated : ∀ i ∈ (terminated f len).accessed, i ≤ len := by
  simp [terminated, RxBuf.load, RxBuf.store]

theorem parsed_of_ne (hpos : 0 < len) (hhead : f 0 ≠ rxHead) :
    parsed ⟨f, []⟩ len =
      (.ok (splitColon (terminated f len) len).1, (splitColon (terminated f len) len).2) := by
  have hbyte : Function.update f len 0 0 = f 0 := Function.update_of_ne (Nat.ne_of_lt hpos) _ _
  simp only [parsed, RxBuf.store, RxBuf.load, hbyte, if_neg hhead]
  rfl

/-- A name, a colon and the arguments behind it. -/
theorem splitColon_of_some (hlen : len < 0x100000000)
    (hp : firstIn f isColon 0 len = some p) :
    (splitColon (terminated f len) len).1 = ⟨0, len - (p + 1), p + 1⟩ ∧
      (splitColon (terminated f len) len).2.bytes =
        Function.update (Function.update f len 0) p 0 ∧
      ∀ i ∈ (splitColon (terminated f len) len).2.accessed, i ≤ len := by
  obtain ⟨-, hlt, -, -⟩ := firstIn_eq_some.1 hp
  have hp' : firstIn (terminated f len).bytes isColon 0 (0 + len) = some p := by
    rw [Nat.zero_add, firstIn_congr fun i _ hi => terminated_of_lt hi, hp]
  obtain ⟨hpos, hbytes, hacc⟩ := scan_of_some hp'
  have hwrap : (len + 0x100000000 - (p + 1)) % 0x100000000 = len - (p + 1) := by
    rw [show len + 0x100000000 - (p + 1) = len - (p + 1) + 0x100000000 by omega,
      Nat.add_mod_right, Nat.mod_eq_of_lt (by omega)]
  simp only [splitColon, hpos, hwrap, if_neg (Nat.ne_of_lt hlt)]
  refine ⟨trivial, hbytes, fun i hi => ?_⟩
  rcases (hacc i).1 hi with h | ⟨-, h⟩
  · exact inside_terminated i h
  · exact Nat.le_trans h (Nat.le_of_lt hlt)

/-- Without a colon the arguments are said to start behind the terminating zero, and to fill the
address space. -/
theorem splitColon_of_none (hlen : len < 0x100000000) (hp : firstIn f isColon 0 len = none) :
    (splitColon (terminated f len) len).1 = ⟨0, 0xFFFFFFFF, len + 1⟩ ∧
      (splitColon (terminated f len) len).2.bytes = Function.update f len 0 ∧
      ∀ i ∈ (splitColon (terminated f len) len).2.accessed, i ≤ len := by
  have hp' : firstIn (terminated f len).bytes isColon 0 (0 + len) = none := by
    rw [Nat.zero_add, firstIn_congr fun i _ hi => terminated_of_lt hi, hp]
  obtain ⟨hpos, hbytes, hacc⟩ := scan_of_none hp'
  have hwrap : (len + 0x100000000 - (len + 1)) % 0x100000000 = 0xFFFFFFFF := by omega
  rw [Nat.zero_add] at hpos
  simp only [splitColon, hpos, hwrap, if_true, RxBuf.store, hbytes, terminated_bytes]
  refine ⟨trivial, Function.update_idem .., fun i hi => ?_⟩
  rcases List.mem_cons.1 hi with rfl | hi
  · exact Nat.le_refl _
  · rcases (hacc i).1 hi with h | ⟨-, h⟩
    · exact inside_terminated i h
    · omega

/-- A text without brackets. -/
theorem handled_iff_of_ne (hpos : 0 < len) (hlen : len < 0x100000000) (hhead : f 0 ≠ rxHead) :
    Handled slots f len ↔ Regular slots f len := by
  have hparsed := parsed_of_ne hpos hhead
  have hiff : Handled slots f len ↔
      (∀ i ∈ (processImpl slots ⟨f, []⟩ len).2.1.accessed, i ≤ len) ∧
        Agrees (processImpl slots ⟨f, []⟩ len).2.1 (handler slots f len)
          (processImpl slots ⟨f, []⟩ len).2.2 :=
    ⟨fun h => ⟨h.inside, h.called⟩, fun h => ⟨h.1, fun h0 => absurd h0 hhead, h.2⟩⟩
  rw [hiff, Regular, if_neg hhead]
  cases hp : firstIn f isColon 0 len with
  | some p =>
    obtain ⟨-, hlt, -, -⟩ := firstIn_eq_some.1 hp
    obtain ⟨hcfg, hbytes, hacc⟩ := splitColon_of_some hlen hp
    rw [hcfg] at hparsed
    obtain ⟨hinside, hbytes', hcall⟩ := processImpl_of_ok slots hparsed
      (Nat.zero_le p) (by rw [hbytes, Function.update_self]) (Nat.le_of_lt hlt) hacc
    have hname : slice (splitColon (terminated f len) len).2.bytes 0 p = slice f 0 p :=
      slice_congr fun i _ hi => by
        rw [hbytes, Function.update_of_ne (by omega), Function.update_of_ne (by omega)]
    have hargs : slice (splitColon (terminated f len) len).2.bytes (p + 1) len =
        slice f (p + 1) len :=
      slice_congr fun i hi _ => by
        rw [hbytes, Function.update_of_ne (by omega), Function.update_of_ne (by omega)]
    have hhandler : handler slots f len =
        (handlerOf slots (slice f 0 p)).map (·, slice f (p + 1) len) := by
      rw [handler, command, if_neg hhead, hp]
      simp only [Option.bind_eq_bind, Option.bind_some]
      cases handlerOf slots (slice f 0 p) <;> rfl
    rw [hcall, hname, hhandler, agrees_iff slots (by rw [length_slice]) ?_,
      handlerOf_eq_cString_iff]
    · exact and_iff_right hinside
    · rw [hbytes', length_slice]
      simp only
      rw [Nat.add_sub_cancel' (show p + 1 ≤ len by omega), hargs]
  | none =>
    obtain ⟨hcfg, hbytes, hacc⟩ := splitColon_of_none hlen hp
    rw [hcfg] at hparsed
    obtain ⟨hinside, -, hcall⟩ := processImpl_of_ok slots hparsed
      (Nat.zero_le len) (by rw [hbytes, Function.update_self]) (Nat.le_refl len) hacc
    have hname : slice (splitColon (terminated f len) len).2.bytes 0 len = slice f 0 len :=
      slice_congr fun i _ hi => by rw [hbytes, Function.update_of_ne (by omega)]
    have hhandler : handler slots f len = none := by
      rw [handler, command, if_neg hhead, hp]
      rfl
    rw [hcall, hname, hhandler]
    refine (and_iff_right hinside).trans ?_
    cases handlerOf slots (cString (slice f 0 len)) <;> simp [Agrees]

end Colon

/-! ### Texts in brackets -/

section Brackets

variable {slots : List RxSlot} {f : Content} {len p q : Nat}

/-- The text behind the head, which is overwritten. -/
def opened (f : Content) (len : Nat) : RxBuf :=
  (scan (fun c => c = rxHead) headSize 0 (terminated f len)).2

/-- The separator is looked for up to position 23. -/
def named (f : Content) (len : Nat) : Nat × RxBuf := scan isSeparator 23 1 (opened f len)

/-- The end is looked for behind the separator, or behind position 24. -/
def ended (f : Content) (len : Nat) : Nat × RxBuf :=
  scan isEnd (len - ((named f len).1 + 1)) ((named f len).1 + 1) (named f len).2

theorem scan_head (hpos : 0 < len) (hhead : f 0 = rxHead) :
    (scan (fun c => c = rxHead) headSize 0 (terminated f len)).1 = 0 ∧
      (opened f len).bytes = Function.update (Function.update f len 0) 0 0 ∧
      ∀ i ∈ (opened f len).accessed, i ≤ len := by
  have hfirst : firstIn (terminated f len).bytes (fun c => c = rxHead) 0 (0 + headSize) = some 0 :=
    firstIn_eq_some.2 ⟨Nat.le_refl _, by decide, by
      simp [terminated_of_lt hpos, hhead], fun i _ hi => absurd hi (Nat.not_lt_zero i)⟩
  obtain ⟨hzero, hbytes, hacc⟩ := scan_of_some hfirst
  refine ⟨hzero, hbytes, fun i hi => ?_⟩
  rcases (hacc i).1 hi with h | ⟨-, h⟩
  · exact inside_terminated i h
  · omega

theorem opened_of_lt (hpos : 0 < len) (hhead : f 0 = rxHead) {i : Nat} (hi : 0 < i)
    (hlt : i < len) : (opened f len).bytes i = f i := by
  rw [(scan_head hpos hhead).2.1, Function.update_of_ne (by omega),
    Function.update_of_ne (by omega)]

/-- The parser behind the head. -/
theorem parsed_of_eq (hpos : 0 < len) (hhead : f 0 = rxHead) :
    parsed ⟨f, []⟩ len =
      if (named f len).1 = nameSize then (.error 1, (named f len).2)
      else if (ended f len).1 = len then (.error 2, (ended f len).2)
      else (.ok ⟨1, (ended f len).1 - ((named f len).1 + 1), (named f len).1 + 1⟩,
        (ended f len).2) := by
  have hbyte : Function.update f len 0 0 = f 0 := Function.update_of_ne (Nat.ne_of_lt hpos) _ _
  have hparse : parsed ⟨f, []⟩ len = parse (terminated f len) len := by
    simp only [parsed, RxBuf.store, RxBuf.load, hbyte, if_pos hhead]
    rfl
  have hhead' := (scan_head hpos hhead).1
  rw [hparse, parse]
  simp only [hhead']
  rfl

/-- A separator in the text. -/
theorem named_of_some (hpos : 0 < len) (hhead : f 0 = rxHead)
    (hp : firstIn f isSeparator 1 (min len (nameSize + headSize)) = some p) :
    (named f len).1 = p ∧
      (named f len).2.bytes = Function.update (Function.update (Function.update f len 0) 0 0) p 0 ∧
      ∀ i ∈ (named f len).2.accessed, i ≤ len := by
  obtain ⟨hlo, hlt, hq, hmin⟩ := firstIn_eq_some.1 hp
  have hlt' : p < len ∧ p < 24 := Nat.lt_min.1 hlt
  have hp' : firstIn (opened f len).bytes isSeparator 1 (1 + 23) = some p :=
    firstIn_eq_some.2 ⟨hlo, hlt'.2, by rw [opened_of_lt hpos hhead hlo hlt'.1, hq],
      fun i hi hip => by rw [opened_of_lt hpos hhead hi (by omega), hmin i hi hip]⟩
  obtain ⟨hname, hbytes, hacc⟩ := scan_of_some hp'
  refine ⟨hname, by rw [named, hbytes, (scan_head hpos hhead).2.1], fun i hi => ?_⟩
  rcases (hacc i).1 hi with h | ⟨-, h⟩
  · exact (scan_head hpos hhead).2.2 i h
  · omega

/-- Without a separator in a text that is long enough, the parser goes on behind position 24. -/
theorem named_of_none (hlen : 23 ≤ len) (hhead : f 0 = rxHead)
    (hp : firstIn f isSeparator 1 (min len (nameSize + headSize)) = none) :
    (named f len).1 = 24 ∧ (named f len).2.bytes = (opened f len).bytes ∧
      ∀ i ∈ (named f len).2.accessed, i ≤ len := by
  have hpos : 0 < len := by omega
  have hnone := firstIn_eq_none.1 hp
  have hp' : firstIn (opened f len).bytes isSeparator 1 (1 + 23) = none := by
    refine firstIn_eq_none.2 fun i hi hlt => ?_
    rcases Nat.lt_or_ge i len with hin | hout
    · rw [opened_of_lt hpos hhead hi hin, hnone i hi (Nat.lt_min.2 ⟨hin, hlt⟩)]
    · -- the terminating zero at position 23
      obtain rfl : i = len := by omega
      rw [(scan_head hpos hhead).2.1, Function.update_of_ne (by omega), Function.update_self]
      rfl
  obtain ⟨hname, hbytes, hacc⟩ := scan_of_none hp'
  refine ⟨hname, hbytes, fun i hi => ?_⟩
  rcases (hacc i).1 hi with h | ⟨-, h⟩
  · exact (scan_head hpos hhead).2.2 i h
  · omega

/-- Without a separator in a short text, the byte behind the terminating zero is looked at. -/
theorem mem_accessed_named (hpos : 0 < len) (hlen : len < 23) (hhead : f 0 = rxHead)
    (hp : firstIn f isSeparator 1 (min len (nameSize + headSize)) = none) :
    len + 1 ∈ (named f len).2.accessed := by
  have hnone := firstIn_eq_none.1 hp
  have hbefore : ∀ i, 1 ≤ i → i ≤ len → isSeparator ((opened f len).bytes i) = false := by
    intro i hi hle
    rcases Nat.eq_or_lt_of_le hle with rfl | hlt
    · rw [(scan_head hpos hhead).2.1, Function.update_of_ne (by omega), Function.update_self]
      rfl
    · rw [opened_of_lt hpos hhead hi hlt, hnone i hi (Nat.lt_min.2 ⟨hlt, by
        rw [nameSize, headSize]; omega⟩)]
  cases hfirst : firstIn (opened f len).bytes isSeparator 1 (1 + 23) with
  | none => exact ((scan_of_none hfirst).2.2 (len + 1)).2 (.inr (by omega))
  | some q =>
    obtain ⟨hlo, -, hq, -⟩ := firstIn_eq_some.1 hfirst
    have hbehind : len < q := by
      by_contra hle
      rw [hbefore q hlo (by omega)] at hq
      exact Bool.false_ne_true hq
    exact ((scan_of_some hfirst).2.2 (len + 1)).2 (.inr (by omega))

/-- The text behind the name is as it was. -/
def Untouched (f : Content) (len : Nat) : Prop :=
  (∀ i, (named f len).1 < i → i < len → (named f len).2.bytes i = f i) ∧
    ∀ i ∈ (named f len).2.accessed, i ≤ len

theorem untouched_of_some (hpos : 0 < len) (hhead : f 0 = rxHead)
    (hp : firstIn f isSeparator 1 (min len (nameSize + headSize)) = some p) :
    Untouched f len := by
  obtain ⟨hname, hbytes, hacc⟩ := named_of_some hpos hhead hp
  refine ⟨fun i hi hlt => ?_, hacc⟩
  rw [hname] at hi
  rw [hbytes, Function.update_of_ne (by omega), Function.update_of_ne (by omega),
    Function.update_of_ne (by omega)]

theorem untouched_of_none (hlen : 23 ≤ len) (hhead : f 0 = rxHead)
    (hp : firstIn f isSeparator 1 (min len (nameSize + headSize)) = none) :
    Untouched f len := by
  obtain ⟨-, hbytes, hacc⟩ := named_of_none hlen hhead hp
  refine ⟨fun i hi hlt => ?_, hacc⟩
  rw [hbytes, opened_of_lt (by omega) hhead (by omega) hlt]

theorem ended_of_none (h : Untouched f len) (hstart : (named f len).1 + 1 ≤ len)
    (hq : firstIn f isEnd ((named f len).1 + 1) len = none) :
    (ended f len).1 = len ∧ ∀ i ∈ (ended f len).2.accessed, i ≤ len := by
  have hstop : (named f len).1 + 1 + (len - ((named f len).1 + 1)) = len := by omega
  have hq' : firstIn (named f len).2.bytes isEnd ((named f len).1 + 1)
      ((named f len).1 + 1 + (len - ((named f len).1 + 1))) = none := by
    rw [hstop, firstIn_congr fun i hi hlt => h.1 i hi hlt, hq]
  obtain ⟨hend, -, hacc⟩ := scan_of_none hq'
  refine ⟨hend.trans hstop, fun i hi => ?_⟩
  rcases (hacc i).1 hi with h' | ⟨-, h'⟩
  · exact h.2 i h'
  · omega

theorem ended_of_some (h : Untouched f len) (hstart : (named f len).1 + 1 ≤ len)
    (hq : firstIn f isEnd ((named f len).1 + 1) len = some q) :
    (ended f len).1 = q ∧ (ended f len).2.bytes = Function.update (named f len).2.bytes q 0 ∧
      ∀ i ∈ (ended f len).2.accessed, i ≤ len := by
  have hstop : (named f len).1 + 1 + (len - ((named f len).1 + 1)) = len := by omega
  have hlt := (firstIn_eq_some.1 hq).2.1
  have hq' : firstIn (named f len).2.bytes isEnd ((named f len).1 + 1)
      ((named f len).1 + 1 + (len - ((named f len).1 + 1))) = some q := by
    rw [hstop, firstIn_congr fun i hi hlt => h.1 i hi hlt, hq]
  obtain ⟨hend, hbytes, hacc⟩ := scan_of_some hq'
  refine ⟨hend, hbytes, fun i hi => ?_⟩
  rcases (hacc i).1 hi with h' | ⟨-, h'⟩
  · exact h.2 i h'
  · omega

/-! ### What the text says -/

/-- The first separator of the text, when it is one of those that are looked at. -/
theorem firstIn_of_min {k : Nat} (hp : firstIn f isSeparator 1 (min len k) = some p) :
    firstIn f isSeparator 1 len = some p := by
  obtain ⟨hlo, hlt, hq, hmin⟩ := firstIn_eq_some.1 hp
  exact firstIn_eq_some.2 ⟨hlo, (Nat.lt_min.1 hlt).1, hq, hmin⟩

theorem command_of_some (hhead : f 0 = rxHead)
    (hp : firstIn f isSeparator 1 (min len (nameSize + headSize)) = some p) :
    command f len = (firstIn f isEnd (p + 1) len).bind fun q =>
      if p - 1 < nameSize then some (slice f 1 p, slice f (p + 1) q) else none := by
  rw [command, if_pos hhead, firstIn_of_min hp]
  rfl

/-- Without a separator up to position 23, a name in brackets does not fit. -/
theorem command_of_none (hhead : f 0 = rxHead)
    (hp : firstIn f isSeparator 1 (min len (nameSize + headSize)) = none) :
    command f len = none := by
  have hnone := firstIn_eq_none.1 hp
  rw [command, if_pos hhead]
  cases hfirst : firstIn f isSeparator 1 len with
  | none => rfl
  | some p =>
    obtain ⟨hlo, hlt, hq, -⟩ := firstIn_eq_some.1 hfirst
    have hbehind : nameSize + headSize ≤ p := by
      by_contra hbefore
      rw [hnone p hlo (Nat.lt_min.2 ⟨hlt, by omega⟩)] at hq
      exact Bool.false_ne_true hq
    simp only [Option.bind_eq_bind, Option.bind_some]
    cases firstIn f isEnd (p + 1) len with
    | none => rfl
    | some q =>
      simp only [Option.bind_some]
      exact if_neg (by rw [headSize] at hbehind; omega)

theorem handler_of_command_none (h : command f len = none) : handler slots f len = none := by
  rw [handler, h]
  rfl

/-- A text that is rejected by the parser is handled as it says when no handler was to be called. -/
theorem handled_of_error {err : Nat} {b : RxBuf} (hparsed : parsed ⟨f, []⟩ len = (.error err, b))
    (hinside : ∀ i ∈ b.accessed, i ≤ len) :
    Handled slots f len ↔ handler slots f len = none := by
  have hprocess := processImpl_of_error slots hparsed
  constructor
  · intro h
    have hcalled := h.called
    rw [hprocess] at hcalled
    cases hhandler : handler slots f len with
    | none => rfl
    | some out =>
      rw [hhandler] at hcalled
      exact absurd hcalled id
  · intro h
    refine ⟨by rwa [hprocess], fun _ cfg b' hok => ?_, by rw [hprocess, h]; exact trivial⟩
    rw [hparsed, Prod.mk.injEq] at hok
    exact absurd hok.1 (by simp)

/-- What is parsed must be a command. -/
theorem not_handled_of_ok {cfg : RxCfg} {b : RxBuf} (hhead : f 0 = rxHead)
    (hparsed : parsed ⟨f, []⟩ len = (.ok cfg, b)) (hcommand : command f len = none) :
    ¬Handled slots f len := by
  intro h
  have hsome := h.accepted hhead cfg b hparsed
  rw [hcommand] at hsome
  exact Bool.false_ne_true hsome

/-- A name that fits, its separator and an end. -/
theorem handled_iff_of_end (hpos : 0 < len) (hhead : f 0 = rxHead)
    (hp : firstIn f isSeparator 1 (min len (nameSize + headSize)) = some p)
    (hfit : p < nameSize) (hq : firstIn f isEnd (p + 1) len = some q) :
    Handled slots f len ↔
      0 ∉ slice f 1 p ∨ handlerOf slots (cString (slice f 1 p)) = none := by
  obtain ⟨hlo, hlt, -, -⟩ := firstIn_eq_some.1 (firstIn_of_min hp)
  obtain ⟨hqlo, hqlt, -, -⟩ := firstIn_eq_some.1 hq
  obtain ⟨hname, hbytes, -⟩ := named_of_some hpos hhead hp
  have huntouched := untouched_of_some hpos hhead hp
  have hq' : firstIn f isEnd ((named f len).1 + 1) len = some q := by rw [hname, hq]
  obtain ⟨hend, hbytes', hacc⟩ := ended_of_some huntouched (by omega) hq'
  have hcommand : command f len = some (slice f 1 p, slice f (p + 1) q) := by
    rw [command_of_some hhead hp, hq, Option.bind_some, if_pos (by omega)]
  have hparsed : parsed ⟨f, []⟩ len = (.ok ⟨1, q - (p + 1), p + 1⟩, (ended f len).2) := by
    rw [parsed_of_eq hpos hhead, hname, if_neg (Nat.ne_of_lt hfit), hend,
      if_neg (Nat.ne_of_lt hqlt)]
  have hzero : (ended f len).2.bytes p = 0 := by
    rw [hbytes', Function.update_of_ne (by omega), hbytes, Function.update_self]
  obtain ⟨hinside, hbytes'', hcall⟩ :=
    processImpl_of_ok slots hparsed hlo hzero (Nat.le_of_lt hlt) hacc
  -- the zeros that have been written are outside of the name and of the arguments
  have hkept : ∀ i, 0 < i → i ≠ p → i < q → (ended f len).2.bytes i = f i := fun i h0 hip hiq => by
    rw [hbytes', Function.update_of_ne (by omega), hbytes, Function.update_of_ne hip,
      Function.update_of_ne (by omega), Function.update_of_ne (by omega)]
  have hnameText : slice (ended f len).2.bytes 1 p = slice f 1 p :=
    slice_congr fun i hi hip => hkept i hi (by omega) (by omega)
  have hargs : slice (ended f len).2.bytes (p + 1) q = slice f (p + 1) q :=
    slice_congr fun i hi hiq => hkept i (by omega) (by omega) hiq
  have hhandler : handler slots f len =
      (handlerOf slots (slice f 1 p)).map (·, slice f (p + 1) q) := by
    rw [handler, hcommand]
    simp only [Option.bind_eq_bind, Option.bind_some]
    cases handlerOf slots (slice f 1 p) <;> rfl
  have hiff : Handled slots f len ↔ Agrees (processImpl slots ⟨f, []⟩ len).2.1
      (handler slots f len) (processImpl slots ⟨f, []⟩ len).2.2 :=
    ⟨fun h => h.called, fun h => ⟨hinside, fun _ _ _ _ => by rw [hcommand]; rfl, h⟩⟩
  rw [hiff, hcall, hnameText, hhandler, agrees_iff slots (by rw [length_slice]) ?_,
    handlerOf_eq_cString_iff]
  rw [hbytes'', length_slice]
  simp only
  rw [Nat.add_sub_cancel' (show p + 1 ≤ q by omega), hargs]

/-- A separator in the text. -/
theorem handled_iff_of_separator (hpos : 0 < len) (hhead : f 0 = rxHead)
    (hp : firstIn f isSeparator 1 (min len (nameSize + headSize)) = some p) :
    Handled slots f len ↔ firstIn f isEnd (p + 1) len = none ∨
      if p = nameSize then handlerOf slots (slice f 1 p) = none
      else p < nameSize ∧
        (0 ∉ slice f 1 p ∨ handlerOf slots (cString (slice f 1 p)) = none) := by
  obtain ⟨hname, -, hacc⟩ := named_of_some hpos hhead hp
  have hlt := (firstIn_eq_some.1 (firstIn_of_min hp)).2.1
  have huntouched := untouched_of_some hpos hhead hp
  have hcommand := command_of_some hhead hp
  by_cases h20 : p = nameSize
  · -- the parser takes the separator for a missing one
    have hparsed : parsed ⟨f, []⟩ len = (.error 1, (named f len).2) := by
      rw [parsed_of_eq hpos hhead, hname, if_pos h20]
    rw [handled_of_error hparsed hacc, if_pos h20, handler, hcommand]
    cases firstIn f isEnd (p + 1) len with
    | none => simp
    | some q =>
      rw [Option.bind_some, if_pos (by rw [h20]; decide)]
      simp only [Option.bind_eq_bind, Option.bind_some, reduceCtorEq, false_or]
      cases handlerOf slots (slice f 1 p) <;> simp
  · rw [if_neg h20]
    cases hq : firstIn f isEnd (p + 1) len with
    | none =>
      have hq' : firstIn f isEnd ((named f len).1 + 1) len = none := by rw [hname, hq]
      obtain ⟨hend, hacc'⟩ := ended_of_none huntouched (by omega) hq'
      have hparsed : parsed ⟨f, []⟩ len = (.error 2, (ended f len).2) := by
        rw [parsed_of_eq hpos hhead, hname, if_neg h20, if_pos hend]
      rw [handled_of_error hparsed hacc']
      exact ⟨fun _ => .inl rfl,
        fun _ => handler_of_command_none (by rw [hcommand, hq, Option.bind_none])⟩
    | some q =>
      rcases Nat.lt_or_gt_of_ne h20 with hfit | hlong
      · rw [handled_iff_of_end hpos hhead hp hfit hq]
        simp [hfit]
      · have hq' : firstIn f isEnd ((named f len).1 + 1) len = some q := by rw [hname, hq]
        have hend := (ended_of_some huntouched (by omega) hq').1
        have hqlt := (firstIn_eq_some.1 hq).2.1
        have hparsed : parsed ⟨f, []⟩ len = (.ok ⟨1, q - (p + 1), p + 1⟩, (ended f len).2) := by
          rw [parsed_of_eq hpos hhead, hname, if_neg h20, hend, if_neg (Nat.ne_of_lt hqlt)]
        have hnone : command f len = none := by
          rw [hcommand, hq, Option.bind_some, if_neg (by omega)]
        refine ⟨fun h => absurd h (not_handled_of_ok hhead hparsed hnone), fun h => ?_⟩
        rcases h with h | ⟨h, -⟩
        · exact absurd h (by simp)
        · omega

/-- No separator among the positions that are looked at. -/
theorem handled_iff_of_no_separator (hpos : 0 < len) (hhead : f 0 = rxHead)
    (hp : firstIn f isSeparator 1 (min len (nameSize + headSize)) = none) :
    Handled slots f len ↔
      nameSize + headSize < len ∧ firstIn f isEnd (nameSize + headSize + 1) len = none := by
  have hcommand := command_of_none hhead hp
  have hparsed := parsed_of_eq hpos hhead
  rcases Nat.lt_or_ge len 23 with hshort | hlong
  · -- the parser looks behind the terminating zero
    refine ⟨fun h => ?_, fun h => absurd h.1 (by rw [nameSize, headSize]; omega)⟩
    have hmem : len + 1 ∈ (parsed ⟨f, []⟩ len).2.accessed := by
      have hnamed := mem_accessed_named hpos hshort hhead hp
      have hended : len + 1 ∈ (ended f len).2.accessed := mem_accessed_scan _ _ _ hnamed
      rw [hparsed]
      split
      · exact hnamed
      · split <;> exact hended
    exact absurd (h.inside _ (mem_accessed_processImpl slots hmem)) (by omega)
  · obtain ⟨hname, -, -⟩ := named_of_none hlong hhead hp
    have huntouched := untouched_of_none hlong hhead hp
    rw [hname, if_neg (by decide)] at hparsed
    rcases Nat.lt_or_ge 24 len with hlt | hle
    · cases hq : firstIn f isEnd 25 len with
      | none =>
        obtain ⟨hend, hacc⟩ := ended_of_none huntouched (by omega) (by rw [hname, hq])
        rw [if_pos hend] at hparsed
        rw [handled_of_error hparsed hacc]
        exact ⟨fun _ => ⟨hlt, hq⟩, fun _ => handler_of_command_none hcommand⟩
      | some q =>
        have hend := (ended_of_some huntouched (by omega) (by rw [hname, hq])).1
        have hqlt := (firstIn_eq_some.1 hq).2.1
        rw [hend, if_neg (Nat.ne_of_lt hqlt)] at hparsed
        refine ⟨fun h => absurd h (not_handled_of_ok hhead hparsed hcommand), fun h => ?_⟩
        exact absurd (hq.symm.trans h.2) (by simp)
    · -- the parser finds the end of the text neither before nor at position 25
      have hend : (ended f len).1 = 25 := by
        rw [ended, hname, Nat.sub_eq_zero_of_le (by omega)]
        rfl
      rw [hend, if_neg (by omega)] at hparsed
      refine ⟨fun h => absurd h (not_handled_of_ok hhead hparsed hcommand), fun h => ?_⟩
      exact absurd h.1 (by rw [nameSize, headSize]; omega)

end Brackets

/-- **Which texts are handled as they say.** For every list of handlers and every memory, a text is
handled as it says exactly when it is regular. -/
theorem handled_iff_regular (slots : List RxSlot) (f : Content) (len : Nat) (hpos : 0 < len)
    (hlen : len < 0x100000000) : Handled slots f len ↔ Regular slots f len := by
  by_cases hhead : f 0 = rxHead
  · rw [Regular, if_pos hhead]
    cases hp : firstIn f isSeparator 1 (min len (nameSize + headSize)) with
    | some p => exact handled_iff_of_separator hpos hhead hp
    | none => exact handled_iff_of_no_separator hpos hhead hp
  · exact handled_iff_of_ne hpos hlen hhead

/-! ### Some texts -/

/-- The handler `test`, and one whose name has the greatest length that fits. -/
def testSlot : RxSlot := ⟨[0x74, 0x65, 0x73, 0x74], true, by decide, by decide⟩

@[inherit_doc testSlot] def longSlot : RxSlot :=
  ⟨List.replicate 19 0x61, true, by decide, by decide⟩

/-- A memory with a text at its start. -/
def textAt (text : List UInt8) : Content := fun i => text.getD i 0

/-- For `test`, without a colon, the handler is called with the greatest length; for `[test`, a byte
behind the terminating zero is read; and for `[aaaaaaaaaaaaaaaaaaa,1]` the handler of this name is
not called. -/
theorem traceRx_not_handled :
    (processImpl [testSlot] ⟨textAt [0x74, 0x65, 0x73, 0x74], []⟩ 4).2.2 =
        some ⟨0, 5, 0xFFFFFFFF⟩ ∧
      handler [testSlot] (textAt [0x74, 0x65, 0x73, 0x74]) 4 = none ∧
      6 ∈ (processImpl [testSlot] ⟨textAt [0x5B, 0x74, 0x65, 0x73, 0x74], []⟩ 5).2.1.accessed ∧
      processImpl [longSlot] ⟨textAt ([0x5B] ++ List.replicate 19 0x61 ++ [0x2C, 0x31, 0x5D]), []⟩
        23 = (2, (processImpl [longSlot]
          ⟨textAt ([0x5B] ++ List.replicate 19 0x61 ++ [0x2C, 0x31, 0x5D]), []⟩ 23).2.1, none) ∧
      handler [longSlot] (textAt ([0x5B] ++ List.replicate 19 0x61 ++ [0x2C, 0x31, 0x5D])) 23 =
        some (0, [0x31]) ∧
      ¬Handled [testSlot] (textAt [0x74, 0x65, 0x73, 0x74]) 4 := by
  have hcall : (processImpl [testSlot] ⟨textAt [0x74, 0x65, 0x73, 0x74], []⟩ 4).2.2 =
      some ⟨0, 5, 0xFFFFFFFF⟩ := by decide
  have hnone : handler [testSlot] (textAt [0x74, 0x65, 0x73, 0x74]) 4 = none := by decide
  refine ⟨hcall, hnone, by decide, rfl, by decide, fun h => ?_⟩
  have hcalled := h.called
  rw [hcall, hnone] at hcalled
  exact hcalled

/-- `test:1` is handled as it says. -/
theorem handled_iff_regular_test :
    Handled [testSlot] (textAt [0x74, 0x65, 0x73, 0x74, 0x3A, 0x31]) 6 := by
  refine (handled_iff_regular [testSlot] (textAt [0x74, 0x65, 0x73, 0x74, 0x3A, 0x31]) 6
    (by decide) (by decide)).2 ?_
  rw [Regular, if_neg (by decide),
    show firstIn (textAt [0x74, 0x65, 0x73, 0x74, 0x3A, 0x31]) isColon 0 6 = some 4 by decide]
  exact .inl (by decide)

end EarbudFirmware.Apps
