import EarbudFirmware.Lib.Transition

/-!
# The drift of the Bluetooth clock

`bt_xtal_sync` reads the position of the remote clock on a circle of 625 bit offsets and the local
clock, which has 22 bits. Averages over three positions are compared, and the step between two of
them, with the ticks that have gone by, tunes the crystal.

## Main definitions

* `getDiffValue` — `get_diff_value`
* `XtalSync.btXtalSync` — `bt_xtal_sync`
* `DriftRun` — the positions and times behind what is read
* `Unwrapped` — averages and differences are the true ones

## Main results

* `getDiffValue_offset` — a step on the circle is read back from its ends
* `average_eq` — the average of three positions that do not cross the middle of the circle
-/

namespace EarbudFirmware.BtXtalSync

/-- The size of the circle, `MAX_BIT_OFFSET + 1`. -/
def circle : Nat := 625

/-- `BAD_BIT_OFFSET`, as `uint32_t`. -/
def badBitOffset : Nat := 0xFFFFFFFF

/-- `diff_value_valid`. -/
def diffValueValid (diff : Int) (size : Nat) : Bool :=
  Int.tdiv (-size) 2 ≤ diff && diff < Int.tdiv size 2

/-- `get_diff_value`. -/
def getDiffValue (a b : Int) (size : Nat) : Int :=
  let diff := a - b
  let diff :=
    if 0 < diff then
      if Int.tdiv size 2 ≤ diff then diff - size else diff
    else if diff < 0 then
      if Int.tdiv size 2 < -diff then diff + size else diff
    else diff
  if diffValueValid diff size then diff else 0

/-- The static variables of `bt_xtal_sync`. -/
structure XtalSync where
  lastCheckOffset : Nat
  prevValue : Nat
  prevTime : Nat
  lastCheckTime : Nat
  timerWrapCount : Nat
  prevValid : Bool
  bitOffsetCnt : Nat
  xtalBitOffset : Nat
  errConsecDiff : Nat
  diffWithPrev : Int

/-- What a call finds: an average, and the arguments of `time_to_ppb`. -/
structure SyncResult where
  avg : Option Nat
  ppb : Option (Int × Nat)

/-- The sum of the bit offsets, with a further one that may lie in the other half. -/
def addOffset (xtalBitOffset bitOffsetCnt curOffset : Nat) : Nat :=
  if bitOffsetCnt = 0 then curOffset
  else
    let avg := xtalBitOffset / bitOffsetCnt
    if avg < circle / 2 ∧ circle / 2 ≤ curOffset then
      xtalBitOffset + circle * bitOffsetCnt + curOffset
    else if circle / 2 ≤ avg ∧ curOffset < circle / 2 then
      xtalBitOffset + (curOffset + circle)
    else xtalBitOffset + curOffset

namespace XtalSync

variable (s : XtalSync)

/-- `reset_xtal_sync`. -/
def reset : XtalSync :=
  { s with
    prevValid := false
    bitOffsetCnt := 0
    xtalBitOffset := 0
    diffWithPrev := 0 }

/-- `get_real_ticks`. -/
def getRealTicks (ticks : Nat) : Nat :=
  if s.prevValid then (s.timerWrapCount <<< 22) % 0x100000000 ||| (ticks &&& 0x3FFFFF) else ticks

/-- The clock has been read. -/
def checkTime (curTime : Nat) : XtalSync :=
  { s with
    timerWrapCount :=
      if s.prevValid ∧ curTime ≤ s.lastCheckTime then (s.timerWrapCount + 1) % 0x10000
      else s.timerWrapCount
    lastCheckTime := curTime }

/-- The bit offset has been read; whether it is near the last one. -/
def checkOffset (curOffset : Nat) : XtalSync × Bool :=
  if s.lastCheckOffset ≠ curOffset then
    let consecDiff :=
      if s.lastCheckOffset = badBitOffset then 0
      else getDiffValue curOffset s.lastCheckOffset circle
    if 4 < consecDiff.natAbs then
      ({ s.reset with
          lastCheckOffset := curOffset
          -- `bt_reset_xtal_to_default`
          errConsecDiff := if 5 < s.errConsecDiff + 1 then 0 else s.errConsecDiff + 1 }, false)
    else
      ({ s with
          lastCheckOffset := curOffset
          errConsecDiff := 0 }, true)
  else (s, true)

/-- A bit offset is added to the others. -/
def accumulate (curOffset : Nat) : XtalSync :=
  { s with
    xtalBitOffset := addOffset s.xtalBitOffset s.bitOffsetCnt curOffset
    bitOffsetCnt := s.bitOffsetCnt + 1 }

/-- The average. -/
def average : Nat :=
  let avg := s.xtalBitOffset / s.bitOffsetCnt
  if circle ≤ avg then avg - circle else avg

/-- An average is the first one, or compared with the first one; `target` says that the fixed target
wants the crystal tuned. -/
def compare (avg curTime : Nat) (target : Bool) : XtalSync × Option (Int × Nat) :=
  if s.prevValid then
    let diff := getDiffValue avg s.prevValue circle
    if (0 < s.diffWithPrev ∧ diff < 0) ∨ (s.diffWithPrev < 0 ∧ 0 < diff) then (s.reset, none)
    else if 10 ≤ diff.natAbs ∨ target then
      let ticks := (s.getRealTicks curTime + 0x100000000 - s.prevTime) % 0x100000000
      (s.reset, if 10 ≤ diff.natAbs ∨ 4800 ≤ ticks then some (diff, ticks) else none)
    else ({ s with diffWithPrev := if s.diffWithPrev = 0 then diff else s.diffWithPrev }, none)
  else
    ({ s with
      prevValid := true
      prevValue := avg
      prevTime := curTime
      timerWrapCount := 0 }, none)

/-- `bt_xtal_sync` behind the check of the bit offset; `timeout` says that the initial target has
timed out. -/
def sample (curOffset curTime : Nat) (timeout target : Bool) : XtalSync × SyncResult :=
  let s := (if timeout then s.reset else s).accumulate curOffset
  if 3 ≤ s.bitOffsetCnt then
    let compared := { s with
      xtalBitOffset := 0
      bitOffsetCnt := 0 }.compare s.average curTime target
    (compared.1, ⟨some s.average, compared.2⟩)
  else (s, ⟨none, none⟩)

/-- `bt_xtal_sync` behind the call of `btdrv_rf_bit_offset_get`. -/
def btXtalSync (curOffset curTime : Nat) (timeout target : Bool) : XtalSync × SyncResult :=
  if s.lastCheckTime = curTime ∧ s.lastCheckOffset = curOffset then (s, ⟨none, none⟩)
  else
    let checked := (s.checkTime curTime).checkOffset curOffset
    if checked.2 then checked.1.sample curOffset curTime timeout target
    else (checked.1, ⟨none, none⟩)

end XtalSync

/-! ### Positions on the circle -/

/-- The bit offset of a position. -/
def offset (p : Int) : Nat := (p % 625).toNat

theorem offset_cast (p : Int) : (offset p : Int) = p % 625 := by
  unfold offset
  omega

theorem offset_lt (p : Int) : offset p < 625 := by
  unfold offset
  omega

/-- A step of less than half the circle is read back from its ends. -/
theorem getDiffValue_offset {p q : Int} (h : (p - q).natAbs ≤ 311) :
    getDiffValue (offset p) (offset q) circle = p - q := by
  unfold getDiffValue diffValueValid circle
  rw [offset_cast, offset_cast]
  have hlow : Int.tdiv (-((625 : Nat) : Int)) 2 = -312 := by decide
  have hhigh : Int.tdiv ((625 : Nat) : Int) 2 = 312 := by decide
  dsimp only
  rw [hlow, hhigh]
  simp only [Bool.and_eq_true, decide_eq_true_eq]
  split_ifs <;> omega

/-- The part of the circle between two crossings of its middle. -/
def lap (p : Int) : Int := (p - 312) / 625

/-- The sum of the bit offsets of a group, and their number. -/
def offsetSum (group : List Int) : Nat × Nat :=
  group.foldl (fun (c : Nat × Nat) p => (addOffset c.1 c.2 (offset p), c.2 + 1)) (0, 0)

theorem offsetSum_concat (group : List Int) (p : Int) :
    offsetSum (group ++ [p]) =
      (addOffset (offsetSum group).1 (offsetSum group).2 (offset p), (offsetSum group).2 + 1) := by
  rw [offsetSum, List.foldl_append]
  rfl

theorem foldl_snd {c : Nat × Nat} (group : List Int) :
    (group.foldl (fun (c : Nat × Nat) p => (addOffset c.1 c.2 (offset p), c.2 + 1)) c).2 =
      c.2 + group.length := by
  induction group generalizing c with
  | nil => rfl
  | cons p group ih =>
    rw [List.foldl_cons, ih, List.length_cons]
    omega

theorem offsetSum_snd (group : List Int) : (offsetSum group).2 = group.length :=
  (foldl_snd group).trans (Nat.zero_add _)

/-- The mean of a group of three, rounded down. -/
def mean (group : List Int) : Int := group.foldl (· + ·) 0 / 3

/-- A position is in the upper half of the circle, or in the lower half behind it. -/
theorem offset_eq_or (p : Int) : (offset p : Int) = p - 625 * lap p ∧ 312 ≤ offset p ∨
    (offset p : Int) = p - 625 * (lap p + 1) ∧ offset p < 312 := by
  unfold offset lap
  omega

section Average

variable {p q r l : Int}

/-- Two positions are counted from the same end of the circle. -/
theorem addOffset_one (hp : lap p = l) (hq : lap q = l) :
    ∃ k, (k = l ∧ 312 ≤ addOffset (offset p) 1 (offset q) / 2 ∨
        k = l + 1 ∧ addOffset (offset p) 1 (offset q) / 2 < 312) ∧
      (addOffset (offset p) 1 (offset q) : Int) = p + q - 1250 * k := by
  have h := offset_eq_or p
  have h' := offset_eq_or q
  rw [hp] at h
  rw [hq] at h'
  unfold addOffset circle
  rw [if_neg (by decide), Nat.div_one, Nat.mul_one]
  dsimp only
  by_cases hlow : offset p < 312 ∧ offset q < 312
  · refine ⟨l + 1, ?_⟩
    rw [if_neg (by omega), if_neg (by omega)]
    omega
  · refine ⟨l, ?_⟩
    split_ifs <;> omega

theorem addOffset_two (hp : lap p = l) (hq : lap q = l) (hr : lap r = l) :
    ∃ k, (k = l ∨ k = l + 1) ∧
      (addOffset (addOffset (offset p) 1 (offset q)) 2 (offset r) : Int) =
        p + q + r - 1875 * k := by
  obtain ⟨k, hk, hsum⟩ := addOffset_one hp hq
  have h := offset_eq_or r
  rw [hr] at h
  generalize addOffset (offset p) 1 (offset q) = sum at *
  unfold addOffset circle
  rw [if_neg (by decide)]
  dsimp only
  by_cases hlow : sum / 2 < 312 ∧ offset r < 312
  · refine ⟨l + 1, .inr rfl, ?_⟩
    rw [if_neg (by omega), if_neg (by omega)]
    omega
  · refine ⟨l, .inl rfl, ?_⟩
    split_ifs <;> omega

/-- The average of three positions between two crossings of the middle is their mean. -/
theorem average_eq (hp : lap p = l) (hq : lap q = l) (hr : lap r = l) :
    (let avg := (offsetSum [p, q, r]).1 / 3
      if circle ≤ avg then avg - circle else avg) = offset (mean [p, q, r]) := by
  obtain ⟨k, hk, hsum⟩ := addOffset_two hp hq hr
  have hcollected : (offsetSum [p, q, r]).1 =
      addOffset (addOffset (offset p) 1 (offset q)) 2 (offset r) := rfl
  have hmean : mean [p, q, r] = (0 + p + q + r) / 3 := rfl
  rw [hcollected, hmean]
  generalize addOffset (addOffset (offset p) 1 (offset q)) 2 (offset r) = sum at *
  unfold lap at hp hq hr
  unfold offset circle
  dsimp only
  split_ifs <;> omega

/-- The mean of three positions lies between them. -/
theorem exists_le_mean : ∃ lo ∈ [p, q, r], lo ≤ mean [p, q, r] := by
  by_contra h
  have hmean : mean [p, q, r] = (0 + p + q + r) / 3 := rfl
  have hlt : ∀ x ∈ [p, q, r], mean [p, q, r] < x :=
    fun x hx => Int.not_le.mp fun hle => h ⟨x, hx, hle⟩
  have hp := hlt p List.mem_cons_self
  have hq := hlt q (List.mem_cons_of_mem _ List.mem_cons_self)
  have hr := hlt r (List.mem_cons_of_mem _ (List.mem_cons_of_mem _ List.mem_cons_self))
  omega

theorem exists_mean_le : ∃ hi ∈ [p, q, r], mean [p, q, r] ≤ hi := by
  by_contra h
  have hmean : mean [p, q, r] = (0 + p + q + r) / 3 := rfl
  have hlt : ∀ x ∈ [p, q, r], x < mean [p, q, r] :=
    fun x hx => Int.not_le.mp fun hle => h ⟨x, hx, hle⟩
  have hp := hlt p List.mem_cons_self
  have hq := hlt q (List.mem_cons_of_mem _ List.mem_cons_self)
  have hr := hlt r (List.mem_cons_of_mem _ (List.mem_cons_of_mem _ List.mem_cons_self))
  omega

end Average

/-! ### Runs -/

/-- What a call reads, as a position and a time that do not go round; the decisions about the fixed
target. -/
structure SyncEvent where
  pos : Int
  time : Nat
  timeout : Bool
  target : Bool

/-- The variables, the last position and time, the positions that are being averaged, and the mean
and the time behind `prev_value`. -/
structure DriftRun where
  env : XtalSync
  last : Option (Int × Nat)
  group : List Int
  prev : Int × Nat

namespace DriftRun

variable (s : DriftRun) (e : SyncEvent)

/-- The call. -/
def call : XtalSync × SyncResult :=
  s.env.btXtalSync (offset e.pos) (e.time % 0x400000) e.timeout e.target

/-- The positions that are averaged, with the one just read. -/
def counted : List Int := (if e.timeout then [] else s.group) ++ [e.pos]

def next : DriftRun where
  env := (s.call e).1
  last := some (e.pos, e.time)
  group := if (s.counted e).length < 3 then s.counted e else []
  prev :=
    if (s.counted e).length < 3 ∨ (s.env.prevValid && !e.timeout) then s.prev
    else (mean (s.counted e), e.time)

def step : Option DriftRun := some (s.next e)

end DriftRun

/-- The position moves by at most 4 a call, and the clock by at least 1 and less than `2 ^ 22`. -/
def Smooth (s : DriftRun) (e : SyncEvent) : Prop :=
  ∀ l ∈ s.last, (e.pos - l.1).natAbs ≤ 4 ∧ l.2 < e.time ∧ e.time < l.2 + 0x400000

/-- The positions that are averaged do not cross the middle of the circle, and fewer than `2 ^ 32`
ticks have gone by since `prev_time`. -/
def Clear (s : DriftRun) (e : SyncEvent) : Prop :=
  Smooth s e ∧ (∀ p ∈ s.counted e, lap p = lap e.pos) ∧
    (s.env.prevValid = true → e.time < s.prev.2 + 0x100000000)

/-- An average lies between the three positions, and is their mean. What `time_to_ppb` gets is the
distance of two means and the ticks between them. -/
structure Unwrapped (s : DriftRun) (e : SyncEvent) : Prop where
  average : ∀ avg, (s.call e).2.avg = some avg →
    (s.counted e).length = 3 ∧ avg = offset (mean (s.counted e)) ∧
      (∃ lo ∈ s.counted e, lo ≤ mean (s.counted e)) ∧ ∃ hi ∈ s.counted e, mean (s.counted e) ≤ hi
  ppb : ∀ diff ticks, (s.call e).2.ppb = some (diff, ticks) →
    diff = mean (s.counted e) - s.prev.1 ∧ s.prev.2 + ticks = e.time

/-! ### The variables and the positions -/

/-- `prev_value` and `prev_time` are those of a mean near the last position. -/
structure Previous (env : XtalSync) (prev : Int × Nat) (p : Int) (t d : Nat) : Prop where
  value : env.prevValue = offset prev.1
  time : env.prevTime = prev.2 % 0x400000
  le : prev.2 ≤ t
  wraps : env.timerWrapCount = (t / 0x400000 - prev.2 / 0x400000) % 0x10000
  near : (p - prev.1).natAbs ≤ d

/-- The variables behind the position `p` at time `t`. -/
structure Tracks (env : XtalSync) (group : List Int) (prev : Int × Nat) (p : Int) (t d : Nat) :
    Prop where
  lastCheckOffset : env.lastCheckOffset = offset p
  lastCheckTime : env.lastCheckTime = t % 0x400000
  collected : (env.xtalBitOffset, env.bitOffsetCnt) = offsetSum group
  short : group.length < 3
  near : ∀ q ∈ group, (q - p).natAbs + 4 ≤ 4 * group.length + d
  prev : env.prevValid = true → Previous env prev p t (17 + 4 * group.length + d)

/-- What a run keeps: nothing has been read, or the variables follow what has. -/
inductive Inv (s : DriftRun) : Prop
  | initial (hlast : s.last = none) (hoffset : s.env.lastCheckOffset = badBitOffset)
    (hvalid : s.env.prevValid = false) (hgroup : s.group = [])
    (hcollected : (s.env.xtalBitOffset, s.env.bitOffsetCnt) = (0, 0))
  | tracks (p : Int) (t : Nat) (hlast : s.last = some (p, t))
    (h : Tracks s.env s.group s.prev p t 0)

variable {env : XtalSync} {group : List Int} {prev : Int × Nat} {p q : Int} {t t' d : Nat}

/-- The ticks since `prev_time`. -/
theorem Previous.ticks_eq (h : Previous env prev p t d) (hvalid : env.prevValid = true)
    (hlt : t < prev.2 + 0x100000000) :
    prev.2 + (env.getRealTicks (t % 0x400000) + 0x100000000 - env.prevTime) % 0x100000000 = t := by
  have hle := h.le
  have hmask : t % 0x400000 &&& 0x3FFFFF = t % 0x400000 :=
    (Nat.and_two_pow_sub_one_eq_mod (t % 0x400000) 22).trans (Nat.mod_mod _ _)
  have hshift : ∀ n, n <<< 22 = n * 0x400000 := fun n => Nat.shiftLeft_eq n 22
  have hwraps : (env.timerWrapCount <<< 22) % 0x100000000 =
      ((t / 0x400000 - prev.2 / 0x400000) % 1024) <<< 22 := by
    rw [h.wraps, hshift, hshift]
    omega
  have hor : ((t / 0x400000 - prev.2 / 0x400000) % 1024) <<< 22 ||| t % 0x400000 =
      (t / 0x400000 - prev.2 / 0x400000) % 1024 * 0x400000 + t % 0x400000 := by
    have hlow : t % 0x400000 < 0x400000 := Nat.mod_lt _ (by decide)
    rw [← hshift]
    exact (Nat.shiftLeft_add_eq_or_of_lt hlow _).symm
  have hreal : env.getRealTicks (t % 0x400000) =
      (t / 0x400000 - prev.2 / 0x400000) % 1024 * 0x400000 + t % 0x400000 := by
    unfold XtalSync.getRealTicks
    rw [if_pos hvalid, hmask, hwraps, hor]
  rw [hreal, h.time]
  omega

/-- The clock goes on, and the position moves. -/
theorem Previous.checkTime (h : Previous env prev p t d) (hvalid : env.prevValid = true)
    (htime : env.lastCheckTime = t % 0x400000) (hlt : t < t') (hlt' : t' < t + 0x400000)
    (hstep : (q - p).natAbs ≤ 4) :
    Previous (env.checkTime (t' % 0x400000)) prev q t' (d + 4) where
  value := h.value
  time := h.time
  le := Nat.le_trans h.le (Nat.le_of_lt hlt)
  wraps := by
    have hle := h.le
    have hwraps := h.wraps
    unfold XtalSync.checkTime
    rw [htime]
    dsimp only
    split_ifs with hwrap
    · have := hwrap.2
      omega
    · have : ¬t' % 0x400000 ≤ t % 0x400000 := fun hle => hwrap ⟨hvalid, hle⟩
      omega
  near := by
    have := h.near
    omega

/-- A step of at most 4 is valid. -/
theorem checkOffset_eq (h : env.lastCheckOffset = badBitOffset ∨
      ∃ p, env.lastCheckOffset = offset p ∧ (q - p).natAbs ≤ 4) :
    ∃ x, env.checkOffset (offset q) =
      ({ env with
          lastCheckOffset := offset q
          errConsecDiff := x }, true) := by
  unfold XtalSync.checkOffset
  by_cases hsame : env.lastCheckOffset = offset q
  · rw [if_neg (not_not.mpr hsame), ← hsame]
    exact ⟨_, rfl⟩
  · refine ⟨0, ?_⟩
    rw [if_pos hsame]
    dsimp only
    refine if_neg ?_
    rcases h with h | ⟨p, h, hstep⟩
    · rw [if_pos h]
      decide
    · have hbad : offset p ≠ badBitOffset := by
        have := offset_lt p
        unfold badBitOffset
        omega
      rw [h, if_neg hbad, getDiffValue_offset (by omega)]
      omega

/-- The variables behind the check. -/
theorem Inv.checked {s : DriftRun} {e : SyncEvent} (h : Inv s) (hg : Smooth s e) :
    ∃ env, s.call e = env.sample (offset e.pos) (e.time % 0x400000) e.timeout e.target ∧
      Tracks env s.group s.prev e.pos e.time 4 ∧ env.prevValid = s.env.prevValid := by
  unfold DriftRun.call XtalSync.btXtalSync
  cases h with
  | initial hlast hoffset hvalid hgroup hcollected =>
    obtain ⟨x, hx⟩ := @checkOffset_eq (s.env.checkTime (e.time % 0x400000)) e.pos (.inl hoffset)
    have hbad : s.env.lastCheckOffset ≠ offset e.pos := by
      have := offset_lt e.pos
      rw [hoffset]
      unfold badBitOffset
      omega
    rw [if_neg fun heq => hbad heq.2]
    dsimp only
    rw [hx, if_pos rfl, hgroup]
    exact ⟨_, rfl, ⟨rfl, rfl, hcollected, by decide, fun _ hq => absurd hq List.not_mem_nil,
      fun hv => absurd (hvalid.symm.trans hv) Bool.false_ne_true⟩, rfl⟩
  | tracks p t hlast h =>
    obtain ⟨hstep, hlt, hlt'⟩ := hg (p, t) hlast
    obtain ⟨x, hx⟩ := @checkOffset_eq (s.env.checkTime (e.time % 0x400000)) e.pos
      (.inr ⟨p, h.lastCheckOffset, hstep⟩)
    have hclock : s.env.lastCheckTime ≠ e.time % 0x400000 := by
      rw [h.lastCheckTime]
      omega
    rw [if_neg fun heq => hclock heq.1]
    dsimp only
    rw [hx, if_pos rfl]
    refine ⟨_, rfl, ⟨rfl, rfl, h.collected, h.short, fun q hq => ?_, fun hv => ?_⟩, rfl⟩
    · have := h.near q hq
      omega
    · have hprev := (h.prev hv).checkTime hv h.lastCheckTime hlt hlt' hstep
      exact ⟨hprev.value, hprev.time, hprev.le, hprev.wraps, hprev.near⟩

/-! ### One sample -/

/-- What `sample` leaves and finds, behind a sample that makes the group `counted`. -/
structure Sampled (r : XtalSync × SyncResult) (valid : Bool) (counted : List Int)
    (prev : Int × Nat) (p : Int) (t : Nat) : Prop where
  tracks : Tracks r.1 (if counted.length < 3 then counted else [])
    (if counted.length < 3 ∨ valid then prev else (mean counted, t)) p t 0
  average : ∀ avg, r.2.avg = some avg → counted.length = 3 ∧ avg = offset (mean counted) ∧
    (∃ lo ∈ counted, lo ≤ mean counted) ∧ ∃ hi ∈ counted, mean counted ≤ hi
  ppb : ∀ diff ticks, r.2.ppb = some (diff, ticks) →
    diff = mean counted - prev.1 ∧ prev.2 + ticks = t

/-- Nothing is compared any more. -/
theorem Tracks.reset (h : Tracks env group prev p t d) : Tracks env.reset [] prev p t d where
  lastCheckOffset := h.lastCheckOffset
  lastCheckTime := h.lastCheckTime
  collected := rfl
  short := by decide
  near _ hq := absurd hq List.not_mem_nil
  prev hv := Bool.noConfusion hv

/-- Behind an average. -/
theorem Tracks.averaged {m : Int} (h : Tracks env group prev p t 4)
    (hm : (m - p).natAbs ≤ 8) (hclock : env.prevValid = true → t < prev.2 + 0x100000000)
    (target : Bool) :
    let r := { env with
      xtalBitOffset := 0
      bitOffsetCnt := 0 }.compare (offset m) (t % 0x400000) target
    Tracks r.1 [] (if env.prevValid then prev else (m, t)) p t 0 ∧
      ∀ diff ticks, r.2 = some (diff, ticks) → diff = m - prev.1 ∧ prev.2 + ticks = t := by
  intro r
  have hshort := h.short
  obtain ⟨lastCheckOffset, prevValue, prevTime, lastCheckTime, timerWrapCount, prevValid,
    bitOffsetCnt, xtalBitOffset, errConsecDiff, diffWithPrev⟩ := env
  cases prevValid with
  | false =>
    refine ⟨⟨h.lastCheckOffset, h.lastCheckTime, rfl, by decide,
      fun _ hq => absurd hq List.not_mem_nil, fun _ => ⟨rfl, rfl, Nat.le_refl _, ?_, ?_⟩⟩,
      fun _ _ hr => by cases hr⟩
    · show 0 = (t / 0x400000 - t / 0x400000) % 0x10000
      rw [Nat.sub_self]
    · show (p - m).natAbs ≤ 17
      omega
  | true =>
    have hprev := h.prev rfl
    have hnear := hprev.near
    have hdiff : getDiffValue (offset m) prevValue circle = m - prev.1 := by
      have hvalue : prevValue = offset prev.1 := hprev.value
      rw [hvalue]
      exact getDiffValue_offset (by omega)
    have hreset : ∀ env' : XtalSync, env'.lastCheckOffset = lastCheckOffset →
        env'.lastCheckTime = lastCheckTime → Tracks env'.reset [] prev p t 0 := by
      intro env' hoffset htime
      exact ⟨hoffset.trans h.lastCheckOffset, htime.trans h.lastCheckTime, rfl, by decide,
        fun _ hq => absurd hq List.not_mem_nil, fun hv => Bool.noConfusion hv⟩
    dsimp only [r, XtalSync.compare]
    rw [if_pos rfl, if_pos rfl, hdiff]
    split
    · exact ⟨hreset _ rfl rfl, fun _ _ hr => by cases hr⟩
    · split
      · refine ⟨hreset _ rfl rfl, fun diff ticks hr => ?_⟩
        split at hr
        · obtain ⟨rfl, rfl⟩ := Prod.mk.inj (Option.some.inj hr)
          exact ⟨rfl, hprev.ticks_eq rfl (hclock rfl)⟩
        · cases hr
      next hsmall =>
        refine ⟨⟨h.lastCheckOffset, h.lastCheckTime, rfl, by decide,
          fun _ hq => absurd hq List.not_mem_nil,
          fun _ => ⟨hprev.value, hprev.time, hprev.le, hprev.wraps, ?_⟩⟩,
          fun _ _ hr => by cases hr⟩
        show (p - prev.1).natAbs ≤ 17
        have : ¬10 ≤ (m - prev.1).natAbs := fun hle => hsmall (.inl hle)
        omega

/-- A sample without a timeout. -/
theorem Tracks.sample (h : Tracks env group prev p t 4)
    (hlap : ∀ q ∈ group ++ [p], lap q = lap p)
    (hclock : env.prevValid = true → t < prev.2 + 0x100000000) (target : Bool) :
    Sampled (env.sample (offset p) (t % 0x400000) false target) env.prevValid (group ++ [p]) prev p
      t := by
  have hcnt : env.bitOffsetCnt = group.length :=
    (congrArg Prod.snd h.collected).trans (offsetSum_snd group)
  have haccumulated : ((env.accumulate (offset p)).xtalBitOffset,
      (env.accumulate (offset p)).bitOffsetCnt) = offsetSum (group ++ [p]) := by
    rw [offsetSum_concat, ← h.collected]
    rfl
  have hlength : (group ++ [p]).length = group.length + 1 := List.length_append
  have hcnt' : (env.accumulate (offset p)).bitOffsetCnt = group.length + 1 :=
    congrArg (· + 1) hcnt
  unfold XtalSync.sample
  rw [if_neg Bool.false_ne_true]
  dsimp only
  by_cases hfull : group.length < 2
  · have hshort : (group ++ [p]).length < 3 := by omega
    rw [if_neg (by omega)]
    refine ⟨?_, fun _ hr => absurd hr.symm (Option.some_ne_none _),
      fun _ _ hr => absurd hr.symm (Option.some_ne_none _)⟩
    rw [if_pos hshort, if_pos (.inl hshort)]
    refine ⟨h.lastCheckOffset, h.lastCheckTime, haccumulated, hshort, fun q hq => ?_, fun hv => ?_⟩
    · rcases List.mem_append.mp hq with hq | hq
      · have := h.near q hq
        omega
      · rw [List.mem_singleton.mp hq]
        omega
    · have hprev := h.prev hv
      refine ⟨hprev.value, hprev.time, hprev.le, hprev.wraps, ?_⟩
      have := hprev.near
      omega
  · have hshort := h.short
    have hlong : ¬(group ++ [p]).length < 3 := by omega
    obtain ⟨a, b, rfl⟩ : ∃ a b, group = [a, b] := List.length_eq_two.mp (by omega)
    rw [if_pos (by omega)]
    have haverage : (env.accumulate (offset p)).average = offset (mean [a, b, p]) := by
      have hmean := @average_eq a b p _ (hlap a List.mem_cons_self)
        (hlap b (List.mem_cons_of_mem _ List.mem_cons_self)) rfl
      have hsum' : (env.accumulate (offset p)).xtalBitOffset = (offsetSum [a, b, p]).1 :=
        congrArg Prod.fst haccumulated
      unfold XtalSync.average
      rw [hcnt', hsum']
      exact hmean
    have hm : (mean [a, b, p] - p).natAbs ≤ 8 := by
      have hmean : mean [a, b, p] = (0 + a + b + p) / 3 := rfl
      have ha := h.near a List.mem_cons_self
      have hb := h.near b (List.mem_cons_of_mem _ List.mem_cons_self)
      rw [List.length_cons, List.length_singleton] at ha hb
      omega
    rw [haverage]
    obtain ⟨htracks, hppb⟩ := h.averaged hm hclock target
    refine ⟨?_, fun avg hr => ?_, hppb⟩
    · rw [if_neg hlong]
      simp only [hlong, false_or]
      exact htracks
    · obtain rfl := Option.some.inj hr
      exact ⟨rfl, rfl, exists_le_mean, exists_mean_le⟩

/-! ### Every call -/

variable {s u : DriftRun} {e : SyncEvent}

/-- A call of a run that keeps clear of the middle. -/
theorem Inv.sampled (h : Inv s) (hg : Clear s e) :
    Sampled (s.call e) (s.env.prevValid && !e.timeout) (s.counted e) s.prev e.pos e.time := by
  obtain ⟨hsmooth, hlap, hclock⟩ := hg
  obtain ⟨env, hcall, htracks, hvalid⟩ := h.checked hsmooth
  rw [hcall, ← hvalid]
  rw [← hvalid] at hclock
  unfold DriftRun.counted at hlap ⊢
  cases htimeout : e.timeout with
  | false =>
    rw [htimeout] at hlap
    have hsampled := htracks.sample hlap hclock e.target
    rwa [Bool.not_false, Bool.and_true]
  | true =>
    rw [htimeout] at hlap
    have hsampled := htracks.reset.sample hlap (fun hv => Bool.noConfusion hv) e.target
    rwa [Bool.not_true, Bool.and_false]

theorem Inv.unwrapped (h : Inv s) (hg : Clear s e) : Unwrapped s e :=
  ⟨(h.sampled hg).average, (h.sampled hg).ppb⟩

theorem Inv.step (h : Inv s) (hg : Clear s e) (hu : s.step e = some u) : Inv u := by
  obtain rfl := Option.some.inj hu
  exact .tracks e.pos e.time rfl (h.sampled hg).tracks

/-- Behind `bt_init_xtal_sync`. -/
def DriftRun.initial : DriftRun :=
  ⟨⟨badBitOffset, 0, 0, 0, 0, false, 0, 0, 0, 0⟩, none, [], (0, 0)⟩

theorem inv_initial : Inv .initial := .initial rfl rfl rfl rfl rfl

end EarbudFirmware.BtXtalSync
