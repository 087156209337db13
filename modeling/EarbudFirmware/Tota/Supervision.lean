import EarbudFirmware.Lib.Keyed
import EarbudFirmware.Lib.Transition
import EarbudFirmware.Tota.CmdHandler
import Mathlib.Data.Nat.ModEq

/-!
# Supervision of pending commands

A command is pending from the time it is sent until its response handler has been called. The list
has to hold the pending commands, the most urgent one first, and the timer has to run for that one.
This holds as long as a command is sent whose timeout is no less than what is left for the others:
`insertLoop` writes the new entry over every entry that has more time left. It also takes that the
timer is never started with a delay of 0, which `osTimerStart` refuses, that a response is for a
pending command, and that nothing comes between an expiry and its callback.

## Main definitions

* `Supervision` — a supervisor with the times at which the pending commands were sent
* `Supervision.Supervised` — the list holds the pending commands
* `CallsHandlers` — one event calls the response handlers it has to
* `Supervisable` — the events that are handled as they should

## Main results

* `keepsSupervision_run` — pending commands are supervised along such events
* `forgets_command` — a command with a shorter timeout
-/

namespace EarbudFirmware.Tota

open Transition (Along)

/-- A supervisor, with the tick at which each pending command was sent. -/
structure Supervision where
  s : Supervisor
  pending : Nat → Option Nat

namespace Supervision

/-- The pending commands after an event at the time `t` that made these calls. -/
def pendingAfter (b : SupervisorBuild) (h : Supervision) (t : Nat) (calls : List HandlerCall) :
    SupervisorOp → Nat → Option Nat
  | .add i => Function.update h.pending i (some (b.osTick t))
  | _ => fun i => if i ∈ calls.map (·.entryIndex) then none else h.pending i

/-- One event, with the pending commands. -/
def step (b : SupervisorBuild) (h : Supervision) (e : SupervisorEvent) : Option Supervision :=
  (supervisorStep b h.s e).map fun r => ⟨r.1, h.pendingAfter b (h.s.now + e.wait) r.2 e.op⟩

/-- The entries are the pending commands, each once and the most urgent one first, and the timer
runs for that one, or has run out and its callback is queued. -/
structure Supervised (h : Supervision) : Prop where
  distinct : (h.s.waiting.map (·.entryIndex)).Nodup
  pending : ∀ i, (h.pending i).isSome ↔ i ∈ h.s.waiting.map (·.entryIndex)
  ascending : h.s.waiting.Pairwise (·.msTillTimeout ≤ ·.msTillTimeout)
  count_le : h.s.waiting.length ≤ supervisorCount
  armed : h.s.queued = 0 →
    h.s.timer.map (·.delay) = h.s.waiting.head?.map (·.msTillTimeout)
  expired : h.s.queued ≠ 0 → h.s.queued = 1 ∧ h.s.timer = none ∧ h.s.waiting ≠ []

end Supervision

/-- The event can happen: the list is not full when a command is added, the timer is due when it
runs out, and a callback is queued when one runs. -/
def Enabled (b : SupervisorBuild) (s : Supervisor) (e : SupervisorEvent) : Prop :=
  match e.op with
  | .add i => s.waiting.length < supervisorCount ∧ i < b.table.length
  | .response _ _ => True
  | .expire =>
    ∃ timer, s.timer = some timer ∧ timer.start + timer.delay ≤ b.osTick (s.now + e.wait + e.lag)
  | .callback => s.queued ≠ 0

/-- The response handlers that an event has to call: the one of the pending command that a response
is for, and the one of a pending command whose timeout has passed. -/
def CallsHandlers (b : SupervisorBuild) (h : Supervision) (e : SupervisorEvent)
    (calls : List HandlerCall) : Prop :=
  match e.op with
  | .add _ => calls = []
  | .response rsp paramLen =>
    (∀ i, b.entryIndexFromCmdCode rsp.cmdCodeToRsp = some i → paramLen ≤ sizeofCmdRsp →
        (h.pending i).isSome → calls = [.response i rsp]) ∧
      ((∀ i, b.entryIndexFromCmdCode rsp.cmdCodeToRsp = some i → paramLen ≤ sizeofCmdRsp →
        h.pending i = none) → calls = [])
  | .expire => calls = []
  | .callback =>
    ∃ i sent c, calls = [.timeout i] ∧ h.pending i = some sent ∧ b.table[i]? = some c ∧
      sent + c.timeoutWaitingRspInMs ≤ b.osTick (h.s.now + e.wait + e.lag)

/-- An event is handled, and leaves the pending commands supervised. -/
def KeepsSupervision (b : SupervisorBuild) (h : Supervision) (e : SupervisorEvent) : Prop :=
  Enabled b h.s e →
    ∃ s calls, supervisorStep b h.s e = some (s, calls) ∧ CallsHandlers b h e calls ∧
      (Supervision.mk s (h.pendingAfter b (h.s.now + e.wait) calls e.op)).Supervised

/-- The events that are handled as they should: a command is sent that has a handler, and a timeout
that no other pending command exceeds; a response is for a pending command; when a command is added
or done, time is left for the others; and nothing comes between an expiry and its callback. -/
def Supervisable (b : SupervisorBuild) (s : Supervisor) (e : SupervisorEvent) : Prop :=
  match e.op with
  | .add i =>
    s.queued = 0 ∧ ∃ c, b.table[i]? = some c ∧ c.hasCmdRspHandler = true ∧
      0 < c.timeoutWaitingRspInMs ∧
      ∀ x ∈ s.waiting, x.entryIndex ≠ i → 0 < s.msLeft b (s.now + e.wait) x ∧
        s.msLeft b (s.now + e.wait) x ≤ c.timeoutWaitingRspInMs
  | .response rsp paramLen =>
    paramLen ≤ sizeofCmdRsp → s.waiting ≠ [] →
      ∀ i, b.entryIndexFromCmdCode rsp.cmdCodeToRsp = some i →
        if i ∈ s.waiting.map (·.entryIndex) then
          s.queued = 0 ∧
            ∀ x ∈ s.waiting, x.entryIndex ≠ i → 0 < s.msLeft b (s.now + e.wait) x
        else ∀ c, b.table[i]? = some c → c.hasCmdRspHandler = false
  | .expire => True
  | .callback => ∀ x ∈ s.waiting.tail, 0 < s.msLeft b (s.now + e.wait) x

/-! ### The clock -/

section Clock

variable {b : SupervisorBuild} {s : Supervisor} {t u last : Nat} {x : WaitingRsp}

theorem SupervisorBuild.osTick_mono (h : t ≤ u) : b.osTick t ≤ b.osTick u :=
  Nat.div_le_div_right (Nat.add_le_add_right h _)

/-- The milliseconds in a span of ticks are no more than the ticks of the operating system. -/
theorem SupervisorBuild.osTick_add_div_le {d : Nat} (h : t + d ≤ u) :
    b.osTick t + d / b.ticksPerMs ≤ b.osTick u := by
  exact Nat.div_add_div_le_add_div.trans (Nat.div_le_div_right (by omega))

/-- The counter measures a span of time up to its overflows. -/
theorem Supervisor.passedTicks_le (hlast : s.lastSysTicks = SupervisorBuild.sysTimer last)
    (h : last ≤ t) : last + s.passedTicks t ≤ t := by
  unfold Supervisor.passedTicks
  rw [hlast]
  unfold SupervisorBuild.sysTimer
  split_ifs <;> omega

/-- A refresh never takes more from an entry than the time that has passed. -/
theorem Supervisor.osTick_add_msTillTimeout_le
    (hlast : s.lastSysTicks = SupervisorBuild.sysTimer last) (h : last ≤ t) (htu : t ≤ u) :
    b.osTick last + x.msTillTimeout ≤ b.osTick u + s.msLeft b t x := by
  have hpassed := b.osTick_add_div_le (s.passedTicks_le hlast h)
  have hmono := b.osTick_mono htu
  unfold Supervisor.msLeft
  omega

theorem Supervisor.msLeft_le : s.msLeft b t x ≤ x.msTillTimeout := Nat.sub_le _ _

theorem Supervisor.msLeft_mono {y : WaitingRsp} (h : x.msTillTimeout ≤ y.msTillTimeout) :
    s.msLeft b t x ≤ s.msLeft b t y := Nat.sub_le_sub_right h _

end Clock

/-! ### The list -/

section List

variable {b : SupervisorBuild} {s : Supervisor} {sentAt : Nat → Option Nat}
  {t u last tick i timeout : Nat} {x : WaitingRsp} {l : List WaitingRsp}

/-- An entry is of a pending command with a handler, and never has less time left than there is. -/
def EntryOk (b : SupervisorBuild) (sentAt : Nat → Option Nat) (tick : Nat) (x : WaitingRsp) :
    Prop :=
  ∃ c sent, b.table[x.entryIndex]? = some c ∧ c.hasCmdRspHandler = true ∧
    x.msTillTimeout ≤ c.timeoutWaitingRspInMs ∧ sentAt x.entryIndex = some sent ∧
    sent + c.timeoutWaitingRspInMs ≤ tick + x.msTillTimeout

/-- What holds of the list, whose times were right at the time `last`. -/
structure Listed (b : SupervisorBuild) (s : Supervisor) (sentAt : Nat → Option Nat)
    (last : Nat) : Prop where
  distinct : (s.waiting.map (·.entryIndex)).Nodup
  pending : ∀ i, (sentAt i).isSome ↔ i ∈ s.waiting.map (·.entryIndex)
  ascending : s.waiting.Pairwise (·.msTillTimeout ≤ ·.msTillTimeout)
  count_le : s.waiting.length ≤ supervisorCount
  lastSysTicks : s.lastSysTicks = SupervisorBuild.sysTimer last
  entry : ∀ x ∈ s.waiting, EntryOk b sentAt (b.osTick last) x

/-- An entry after a refresh. -/
def Supervisor.refreshed (b : SupervisorBuild) (s : Supervisor) (t : Nat) (x : WaitingRsp) :
    WaitingRsp :=
  { x with msTillTimeout := s.msLeft b t x }

theorem EntryOk.refresh (hx : EntryOk b sentAt (b.osTick last) x)
    (hlast : s.lastSysTicks = SupervisorBuild.sysTimer last) (h : last ≤ t) (htu : t ≤ u) :
    EntryOk b sentAt (b.osTick u) (s.refreshed b t x) := by
  obtain ⟨c, sent, hc, hhandler, hle, hsent, hdue⟩ := hx
  exact ⟨c, sent, hc, hhandler, s.msLeft_le.trans hle, hsent,
    hdue.trans (s.osTick_add_msTillTimeout_le hlast h htu)⟩

theorem EntryOk.congr {sentAt' : Nat → Option Nat} (hx : EntryOk b sentAt tick x)
    (h : sentAt' x.entryIndex = sentAt x.entryIndex) : EntryOk b sentAt' tick x := by
  unfold EntryOk
  rw [h]
  exact hx

theorem map_refreshed_entryIndex :
    (l.map (s.refreshed b t)).map (·.entryIndex) = l.map (·.entryIndex) := by
  rw [List.map_map]
  rfl

theorem ascending_map_refreshed (h : l.Pairwise (·.msTillTimeout ≤ ·.msTillTimeout)) :
    (l.map (s.refreshed b t)).Pairwise (·.msTillTimeout ≤ ·.msTillTimeout) :=
  List.pairwise_map.2 (h.imp fun hxy => Supervisor.msLeft_mono hxy)

/-- The loop takes the old entry of the command out when no entry has more time left. -/
theorem insertLoop_eq_filter (h : ∀ x ∈ l, x.msTillTimeout ≤ timeout) :
    Supervisor.insertLoop i timeout l = l.filter fun x => x.entryIndex ≠ i := by
  induction l with
  | nil => rfl
  | cons x l ih =>
    have hx := h x List.mem_cons_self
    have hrest := ih fun y hy => h y (List.mem_cons_of_mem x hy)
    by_cases hi : x.entryIndex = i
    · rw [Supervisor.insertLoop, if_neg (fun h => h.1 hi), if_neg (Nat.not_lt.2 hx), hrest,
        List.filter_cons_of_neg (by simpa using hi)]
    · rw [Supervisor.insertLoop, if_pos ⟨hi, hx⟩, hrest,
        List.filter_cons_of_pos (by simpa using hi)]

/-- The other commands stay listed when one is taken out and the list is refreshed. -/
theorem Listed.remove (hl : Listed b s sentAt last) (hlast : last ≤ t) (htu : t ≤ u) (i : Nat) :
    Listed b ({ s with waiting := s.waiting.filter fun x => x.entryIndex ≠ i }.refresh b t u)
      (fun j => if j = i then none else sentAt j) u where
  distinct := by
    change (((s.waiting.filter _).map (s.refreshed b t)).map (·.entryIndex)).Nodup
    rw [map_refreshed_entryIndex]
    exact Keyed.nodup_filter hl.distinct _
  pending j := by
    change _ ↔ j ∈ ((s.waiting.filter _).map (s.refreshed b t)).map (·.entryIndex)
    rw [map_refreshed_entryIndex, Keyed.mem_map_filter, ← hl.pending]
    split_ifs with hj
    · simp [hj]
    · simp [hj]
  ascending := ascending_map_refreshed (hl.ascending.sublist List.filter_sublist)
  count_le := by
    change ((s.waiting.filter _).map (s.refreshed b t)).length ≤ _
    rw [List.length_map]
    exact (List.length_filter_le _ _).trans hl.count_le
  lastSysTicks := rfl
  entry y hy := by
    obtain ⟨x, hx, rfl⟩ := List.mem_map.1 hy
    obtain ⟨hmem, hne⟩ := List.mem_filter.1 hx
    have hi : x.entryIndex ≠ i := by simpa using hne
    exact ((hl.entry x hmem).refresh (u := u) hl.lastSysTicks hlast htu).congr (if_neg hi)

/-- A command with the longest timeout is put behind the others. -/
theorem Listed.add {c : CmdInstance} (hl : Listed b s sentAt last) (hlast : last ≤ t)
    (htu : t ≤ u) (hcount : s.waiting.length < supervisorCount) (hc : b.table[i]? = some c)
    (hhandler : c.hasCmdRspHandler = true)
    (hmax : ∀ x ∈ s.waiting, x.entryIndex ≠ i → s.msLeft b t x ≤ c.timeoutWaitingRspInMs) :
    Listed b { s.refresh b t u with
        waiting := (s.refresh b t u).waiting.filter (·.entryIndex ≠ i) ++
          [WaitingRsp.mk i c.timeoutWaitingRspInMs] }
      (Function.update sentAt i (some (b.osTick t))) u := by
  have hothers : ∀ y ∈ (s.refresh b t u).waiting.filter (·.entryIndex ≠ i),
      y.entryIndex ≠ i ∧ y.msTillTimeout ≤ c.timeoutWaitingRspInMs ∧
        EntryOk b sentAt (b.osTick u) y := by
    intro y hy
    obtain ⟨hmem, hne⟩ := List.mem_filter.1 hy
    obtain ⟨x, hx, rfl⟩ := List.mem_map.1 hmem
    have hi : x.entryIndex ≠ i := by simpa using hne
    exact ⟨hi, hmax x hx hi, (hl.entry x hx).refresh hl.lastSysTicks hlast htu⟩
  have hindices : ((s.refresh b t u).waiting.map (·.entryIndex)) = s.waiting.map (·.entryIndex) :=
    map_refreshed_entryIndex
  have hascending : (s.refresh b t u).waiting.Pairwise (·.msTillTimeout ≤ ·.msTillTimeout) :=
    ascending_map_refreshed hl.ascending
  refine ⟨?_, fun j => ?_, ?_, ?_, rfl, fun y hy => ?_⟩
  · rw [List.map_append, List.nodup_append]
    refine ⟨Keyed.nodup_filter (hindices ▸ hl.distinct) _, List.nodup_singleton _, ?_⟩
    intro j hj k hk
    obtain ⟨y, hy, rfl⟩ := List.mem_map.1 hj
    rw [List.mem_singleton.1 hk]
    exact (hothers y hy).1
  · rw [List.map_append, List.mem_append, Keyed.mem_map_filter, hindices, ← hl.pending]
    by_cases hj : j = i
    · simp [hj]
    · simp [hj]
  · refine List.pairwise_append.2 ⟨hascending.sublist List.filter_sublist,
      List.pairwise_singleton _ _, fun y hy z hz => ?_⟩
    rw [List.mem_singleton.1 hz]
    exact (hothers y hy).2.1
  · have hlen : (s.refresh b t u).waiting.length = s.waiting.length := List.length_map _
    have hfilter := List.length_filter_le (fun x : WaitingRsp => decide (x.entryIndex ≠ i))
      (s.refresh b t u).waiting
    rw [List.length_append, List.length_singleton]
    omega
  · obtain hy | hy := List.mem_append.1 hy
    · exact (hothers y hy).2.2.congr (Function.update_of_ne (hothers y hy).1 _ _)
    · rw [List.mem_singleton.1 hy]
      exact ⟨c, b.osTick t, hc, hhandler, le_rfl, Function.update_self _ _ _,
        Nat.add_le_add_right (b.osTick_mono htu) _⟩

theorem insertLoop_refresh {c : CmdInstance} (hl : Listed b s sentAt last)
    (hc : b.table[i]? = some c)
    (hmax : ∀ x ∈ s.waiting, x.entryIndex ≠ i → s.msLeft b t x ≤ c.timeoutWaitingRspInMs) :
    Supervisor.insertLoop i c.timeoutWaitingRspInMs (s.refresh b t u).waiting =
      (s.refresh b t u).waiting.filter (·.entryIndex ≠ i) := by
  refine insertLoop_eq_filter fun y hy => ?_
  obtain ⟨x, hx, rfl⟩ := List.mem_map.1 hy
  by_cases hi : x.entryIndex = i
  · -- the old entry of the command itself never has more than its timeout left
    obtain ⟨c', _, hc', -, hle, -⟩ := hl.entry x hx
    rw [hi, hc] at hc'
    obtain rfl := Option.some.inj hc'
    exact s.msLeft_le.trans hle
  · exact hmax x hx hi

end List

/-! ### The timer -/

section Timer

variable {b : SupervisorBuild} {s : Supervisor} {sentAt : Nat → Option Nat} {t u last i : Nat}

/-- The invariant: the list, the timer that runs for its first entry, and what is due when that has
run out. The times of the list were right at the time `last`. -/
structure Watched (b : SupervisorBuild) (h : Supervision) (last : Nat) : Prop where
  listed : Listed b h.s h.pending last
  last_le : last ≤ h.s.now
  armed : h.s.queued = 0 →
    h.s.timer.map (·.delay) = h.s.waiting.head?.map (·.msTillTimeout)
  started : ∀ timer, h.s.timer = some timer → b.osTick last ≤ timer.start
  expired : h.s.queued ≠ 0 → h.s.queued = 1 ∧ h.s.timer = none ∧
    ∃ x, h.s.waiting.head? = some x ∧ b.osTick last + x.msTillTimeout ≤ b.osTick h.s.now

theorem Watched.supervised {h : Supervision} (hw : Watched b h last) : h.Supervised where
  distinct := hw.listed.distinct
  pending := hw.listed.pending
  ascending := hw.listed.ascending
  count_le := hw.listed.count_le
  armed := hw.armed
  expired hq := by
    obtain ⟨h1, htimer, x, hx, -⟩ := hw.expired hq
    refine ⟨h1, htimer, fun hnil => ?_⟩
    rw [hnil] at hx
    cases hx

/-- The timer is started for a first entry that has time left. -/
theorem Listed.startForFirst (hl : Listed b s sentAt u) (hne : s.waiting ≠ [])
    (hpos : ∀ x ∈ s.waiting, 0 < x.msTillTimeout) (hq : s.queued = 0) (hnow : s.now = u) :
    Watched b ⟨s.startForFirst b u, sentAt⟩ u := by
  cases hw : s.waiting with
  | nil => exact absurd hw hne
  | cons x xs =>
    have hx := hpos x (hw ▸ List.mem_cons_self)
    have hstart : s.startForFirst b u =
        { s with timer := some ⟨b.osTick u, x.msTillTimeout⟩ } := by
      simp only [Supervisor.startForFirst, hw, Supervisor.osTimerStart, if_neg hx.ne']
    rw [hstart]
    refine ⟨⟨hl.distinct, hl.pending, hl.ascending, hl.count_le, hl.lastSysTicks, hl.entry⟩,
      hnow.ge, fun _ => ?_, fun timer htimer => ?_, fun h => absurd hq h⟩
    · change some x.msTillTimeout = s.waiting.head?.map (·.msTillTimeout)
      rw [hw]
      rfl
    · obtain rfl := Option.some.inj htimer
      exact le_rfl

/-- A pending command is taken out, and the timer goes on for the next one. -/
theorem Listed.removeWaitingRsp (hl : Listed b s sentAt last) (hlast : last ≤ t) (htu : t ≤ u)
    (hi : i ∈ s.waiting.map (·.entryIndex)) (hq : s.queued = 0) (hnow : s.now = u)
    (hpos : ∀ x ∈ s.waiting, x.entryIndex ≠ i → 0 < s.msLeft b t x) :
    ∃ s' last', s.removeWaitingRsp b i t u = some s' ∧
      Watched b ⟨s', fun j => if j = i then none else sentAt j⟩ last' := by
  have hne : s.waiting ≠ [] := fun hnil => by
    rw [hnil] at hi
    cases hi
  cases hf : s.waiting.findIdx? (·.entryIndex = i) with
  | none => exact absurd hi (Keyed.findIdx?_eq_none_iff.1 hf)
  | some k =>
    have hkept := Keyed.eraseIdx_findIdx? hl.distinct hf
    have hremoved := hl.remove (u := u) hlast htu i
    by_cases hnil : (s.waiting.filter fun x => x.entryIndex ≠ i) = []
    · refine ⟨{ s with waiting := [], timer := none }, last, ?_, ?_⟩
      · simp only [Supervisor.removeWaitingRsp, if_neg hne, hf, hkept, hnil, if_true]
      · have hnone : ∀ j, (if j = i then none else sentAt j) = none := fun j => by
          have hj := hremoved.pending j
          simp only [Supervisor.refresh, hnil, List.map_nil, List.not_mem_nil, iff_false] at hj
          simpa using hj
        refine ⟨⟨List.nodup_nil, fun j => ?_, List.Pairwise.nil, Nat.zero_le _, hl.lastSysTicks,
          nofun⟩, hnow ▸ hlast.trans htu, fun _ => rfl, nofun, fun h => absurd hq h⟩
        simp [hnone]
    · refine ⟨_, u, ?_, hremoved.startForFirst ?_ ?_ hq hnow⟩
      · simp only [Supervisor.removeWaitingRsp, if_neg hne, hf, hkept, if_neg hnil]
      · change (s.waiting.filter _).map (s.refreshed b t) ≠ []
        simpa using hnil
      · intro y hy
        obtain ⟨x, hx, rfl⟩ := List.mem_map.1 hy
        obtain ⟨hmem, hxi⟩ := List.mem_filter.1 hx
        exact hpos x hmem (by simpa using hxi)

/-- A command is added, and the timer runs for the first entry. -/
theorem Listed.addWaitingRsp {c : CmdInstance} (hl : Listed b s sentAt last) (hlast : last ≤ t)
    (htu : t ≤ u) (hcount : s.waiting.length < supervisorCount) (hc : b.table[i]? = some c)
    (hhandler : c.hasCmdRspHandler = true) (hc0 : 0 < c.timeoutWaitingRspInMs)
    (hq : s.queued = 0) (hnow : s.now = u)
    (hothers : ∀ x ∈ s.waiting, x.entryIndex ≠ i →
      0 < s.msLeft b t x ∧ s.msLeft b t x ≤ c.timeoutWaitingRspInMs) :
    ∃ s', s.addWaitingRsp b i t u = some s' ∧
      Watched b ⟨s', Function.update sentAt i (some (b.osTick t))⟩ u := by
  have hmax : ∀ x ∈ s.waiting, x.entryIndex ≠ i → s.msLeft b t x ≤ c.timeoutWaitingRspInMs :=
    fun x hx hi => (hothers x hx hi).2
  have hadded := hl.add hlast htu hcount hc hhandler hmax
  refine ⟨_, ?_, hadded.startForFirst (by simp) (fun y hy => ?_) hq hnow⟩
  · simp only [Supervisor.addWaitingRsp, if_neg (Nat.not_le.2 hcount), hc, Option.bind_eq_bind,
      Option.bind_some, Option.pure_def, insertLoop_refresh hl hc hmax]
  · obtain hy | hy := List.mem_append.1 hy
    · obtain ⟨hmem, hyi⟩ := List.mem_filter.1 hy
      obtain ⟨x, hx, rfl⟩ := List.mem_map.1 hmem
      exact (hothers x hx (by simpa using hyi)).1
    · rw [List.mem_singleton.1 hy]
      exact hc0

/-- Nothing of the list depends on the timer, its callbacks and the time. -/
theorem Listed.congr {s' : Supervisor} (hl : Listed b s sentAt last) (hw : s'.waiting = s.waiting)
    (hlast : s'.lastSysTicks = s.lastSysTicks) : Listed b s' sentAt last where
  distinct := hw ▸ hl.distinct
  pending := hw ▸ hl.pending
  ascending := hw ▸ hl.ascending
  count_le := hw ▸ hl.count_le
  lastSysTicks := hlast.trans hl.lastSysTicks
  entry := hw ▸ hl.entry

/-- Time passes. -/
theorem Watched.wait {h : Supervision} (hw : Watched b h last) (htu : h.s.now ≤ u) :
    Watched b ⟨{ h.s with now := u }, h.pending⟩ last where
  listed := hw.listed.congr rfl rfl
  last_le := hw.last_le.trans htu
  armed := hw.armed
  started := hw.started
  expired hq := by
    obtain ⟨h1, htimer, x, hx, hdue⟩ := hw.expired hq
    exact ⟨h1, htimer, x, hx, hdue.trans (b.osTick_mono htu)⟩

/-- The timer runs out, and its callback is queued. -/
theorem Watched.expire {h : Supervision} {timer : OsTimer} (hw : Watched b h last)
    (htimer : h.s.timer = some timer) (hdue : timer.start + timer.delay ≤ b.osTick h.s.now) :
    Watched b ⟨{ h.s with timer := none, queued := h.s.queued + 1 }, h.pending⟩ last := by
  have hq : h.s.queued = 0 := by
    by_contra hq
    rw [(hw.expired hq).2.1] at htimer
    cases htimer
  refine ⟨hw.listed.congr rfl rfl, hw.last_le, nofun, nofun, fun _ => ⟨?_, rfl, ?_⟩⟩
  · rw [hq]
  · have harmed := hw.armed hq
    rw [htimer, Option.map_some] at harmed
    obtain ⟨x, hx, hdelay⟩ := Option.map_eq_some_iff.1 harmed.symm
    refine ⟨x, hx, ?_⟩
    rw [hdelay]
    exact (Nat.add_le_add_right (hw.started timer htimer) _).trans hdue

/-- The command that has run out is taken out when the others have time left. -/
theorem Watched.takeFirst {h : Supervision} (hw : Watched b h last) (hq : h.s.queued ≠ 0)
    (ht : h.s.now ≤ t) (htu : t ≤ u) (hpos : ∀ x ∈ h.s.waiting.tail, 0 < h.s.msLeft b t x) :
    ∃ x c sent s' last', h.s.queued = 1 ∧ h.s.waiting.head? = some x ∧
      (∀ y ∈ h.s.waiting, y.entryIndex ≠ x.entryIndex → 0 < h.s.msLeft b t y) ∧
      b.table[x.entryIndex]? = some c ∧ c.hasCmdRspHandler = true ∧
      h.pending x.entryIndex = some sent ∧
      sent + c.timeoutWaitingRspInMs ≤ b.osTick h.s.now ∧
      { h.s with now := u, queued := 0 }.removeWaitingRsp b x.entryIndex t u = some s' ∧
      Watched b ⟨s', fun j => if j = x.entryIndex then none else h.pending j⟩ last' := by
  obtain ⟨hq1, -, x, hx, hdue⟩ := hw.expired hq
  obtain ⟨xs, hxs⟩ := List.head?_eq_some_iff.1 hx
  have hmem : x ∈ h.s.waiting := hxs ▸ List.mem_cons_self
  obtain ⟨c, sent, hc, hhandler, -, hsent, hsentdue⟩ := hw.listed.entry x hmem
  have hothers : ∀ y ∈ h.s.waiting, y.entryIndex ≠ x.entryIndex → 0 < h.s.msLeft b t y := by
    intro y hy hne
    rw [hxs] at hy hpos
    obtain rfl | hy := List.mem_cons.1 hy
    · exact absurd rfl hne
    · exact hpos y hy
  have hl : Listed b { h.s with now := u, queued := 0 } h.pending last := hw.listed.congr rfl rfl
  obtain ⟨s', last', hs', hwatched⟩ := hl.removeWaitingRsp (hw.last_le.trans ht) htu
    (List.mem_map_of_mem hmem) rfl rfl hothers
  exact ⟨x, c, sent, s', last', hq1, hx, hothers, hc, hhandler, hsent, hsentdue.trans hdue, hs',
    hwatched⟩

end Timer

/-! ### Events -/

section Events

variable {b : SupervisorBuild} {h : Supervision} {e : SupervisorEvent} {last : Nat}

/-- An event is handled, and the invariant holds again. -/
def Handled (b : SupervisorBuild) (h : Supervision) (e : SupervisorEvent) : Prop :=
  ∃ s calls last, supervisorStep b h.s e = some (s, calls) ∧ CallsHandlers b h e calls ∧
    Watched b ⟨s, h.pendingAfter b (h.s.now + e.wait) calls e.op⟩ last

theorem handled_add (hw : Watched b h last) {i : Nat} (hop : e.op = .add i)
    (hen : Enabled b h.s e) (hsup : Supervisable b h.s e) : Handled b h e := by
  simp only [Enabled, hop] at hen
  simp only [Supervisable, hop] at hsup
  obtain ⟨hq, c, hc, hhandler, hc0, hothers⟩ := hsup
  let u := h.s.now + e.wait + e.lag
  have hl : Listed b { h.s with now := u } h.pending last := hw.listed.congr rfl rfl
  obtain ⟨s', hs', hwatched⟩ := hl.addWaitingRsp (u := u) (hw.last_le.trans (Nat.le_add_right _ _))
    (Nat.le_add_right _ _) hen.1 hc hhandler hc0 hq rfl hothers
  refine ⟨s', [], u, ?_, ?_, ?_⟩
  · simp only [supervisorStep, hop]
    exact Option.map_eq_some_iff.2 ⟨s', hs', rfl⟩
  · simp only [CallsHandlers, hop]
  · simp only [hop]
    exact hwatched

/-- A response that is ignored. -/
theorem handled_ignored (hw : Watched b h last) {rsp : CmdRsp} {paramLen : Nat}
    (hop : e.op = .response rsp paramLen)
    (hstep : supervisorStep b h.s e = some ({ h.s with now := h.s.now + e.wait + e.lag }, []))
    (hnone : ∀ i, b.entryIndexFromCmdCode rsp.cmdCodeToRsp = some i → paramLen ≤ sizeofCmdRsp →
      h.pending i = none) : Handled b h e := by
  refine ⟨_, _, last, hstep, ?_, ?_⟩
  · simp only [CallsHandlers, hop]
    refine ⟨fun i hi hlen hsome => ?_, fun _ => trivial⟩
    rw [hnone i hi hlen] at hsome
    cases hsome
  · simp only [hop, Supervision.pendingAfter, List.map_nil, List.not_mem_nil, if_false]
    exact hw.wait (by omega)

theorem Listed.pending_eq_none {s : Supervisor} {sentAt : Nat → Option Nat}
    (hl : Listed b s sentAt last) {i : Nat} (hi : i ∉ s.waiting.map (·.entryIndex)) :
    sentAt i = none := by
  have := (hl.pending i).not.2 hi
  simpa using this

/-- A response that is not dropped takes its command out of the list and calls the handler. -/
theorem supervisorStep_response {rsp : CmdRsp} {paramLen i : Nat}
    (hop : e.op = .response rsp paramLen) (hlen : paramLen ≤ sizeofCmdRsp)
    (hne : h.s.waiting ≠ []) (hcode : b.entryIndexFromCmdCode rsp.cmdCodeToRsp = some i) :
    supervisorStep b h.s e = (do
      let s ← { h.s with now := h.s.now + e.wait + e.lag }.removeWaitingRsp b i
        (h.s.now + e.wait) (h.s.now + e.wait + e.lag)
      let ptCmdInstance ← b.table[i]?
      if ptCmdInstance.hasCmdRspHandler then pure (s, [.response i rsp]) else pure (s, [])) := by
  simp only [supervisorStep, hop, Supervisor.getCmdResponse, if_neg (Nat.not_lt.2 hlen),
    if_neg hne, hcode]

theorem handled_response_of_mem (hw : Watched b h last) {rsp : CmdRsp} {paramLen i : Nat}
    (hop : e.op = .response rsp paramLen) (hlen : paramLen ≤ sizeofCmdRsp)
    (hcode : b.entryIndexFromCmdCode rsp.cmdCodeToRsp = some i)
    (hi : i ∈ h.s.waiting.map (·.entryIndex)) (hq : h.s.queued = 0)
    (hpos : ∀ x ∈ h.s.waiting, x.entryIndex ≠ i → 0 < h.s.msLeft b (h.s.now + e.wait) x) :
    Handled b h e := by
  have hl : Listed b { h.s with now := h.s.now + e.wait + e.lag } h.pending last :=
    hw.listed.congr rfl rfl
  obtain ⟨s', last', hs', hwatched⟩ := hl.removeWaitingRsp (t := h.s.now + e.wait)
    (u := h.s.now + e.wait + e.lag) (hw.last_le.trans (Nat.le_add_right _ _))
    (Nat.le_add_right _ _) hi hq rfl hpos
  obtain ⟨x, hx, rfl⟩ := List.mem_map.1 hi
  obtain ⟨c, sent, hc, hhandler, -, hsent, -⟩ := hw.listed.entry x hx
  refine ⟨s', [.response x.entryIndex rsp], last', ?_, ?_, ?_⟩
  · rw [supervisorStep_response hop hlen (List.ne_nil_of_mem hx) hcode, hs', hc]
    simp only [Option.bind_eq_bind, Option.bind_some, hhandler, if_true, Option.pure_def]
  · simp only [CallsHandlers, hop, hcode]
    refine ⟨fun j hj _ _ => ?_, fun hnone => ?_⟩
    · rw [Option.some.inj hj]
    · rw [hnone _ rfl hlen] at hsent
      cases hsent
  · simp only [hop, Supervision.pendingAfter, List.map_singleton, List.mem_singleton,
      HandlerCall.entryIndex]
    exact hwatched

/-- A response that is for no pending command does nothing when there is no handler to call. -/
theorem handled_response_of_not_mem (hw : Watched b h last) {rsp : CmdRsp} {paramLen i : Nat}
    (hop : e.op = .response rsp paramLen) (hlen : paramLen ≤ sizeofCmdRsp)
    (hne : h.s.waiting ≠ []) (hcode : b.entryIndexFromCmdCode rsp.cmdCodeToRsp = some i)
    (hi : i ∉ h.s.waiting.map (·.entryIndex))
    (hno : ∀ c, b.table[i]? = some c → c.hasCmdRspHandler = false) : Handled b h e := by
  refine handled_ignored hw hop ?_ fun j hj _ => ?_
  · have hlt : i < b.table.length := (List.findIdx?_eq_some_iff_getElem.1 hcode).1
    have hentry : b.table[i]? = some b.table[i] := List.getElem?_eq_getElem hlt
    have hremove : ({ h.s with now := h.s.now + e.wait + e.lag } : Supervisor).removeWaitingRsp b i
        (h.s.now + e.wait) (h.s.now + e.wait + e.lag) =
          some { h.s with now := h.s.now + e.wait + e.lag } := by
      simp only [Supervisor.removeWaitingRsp, if_neg hne, Keyed.findIdx?_eq_none_iff.2 hi]
    rw [supervisorStep_response hop hlen hne hcode, hremove, hentry]
    simp only [Option.bind_eq_bind, Option.bind_some, hno _ hentry, Bool.false_eq_true, if_false,
      Option.pure_def]
  · obtain rfl : i = j := Option.some.inj (hcode.symm.trans hj)
    exact hw.listed.pending_eq_none hi

theorem handled_response (hw : Watched b h last) {rsp : CmdRsp} {paramLen : Nat}
    (hop : e.op = .response rsp paramLen) (hsup : Supervisable b h.s e) : Handled b h e := by
  simp only [Supervisable, hop] at hsup
  by_cases hlen : paramLen ≤ sizeofCmdRsp
  · by_cases hne : h.s.waiting = []
    · refine handled_ignored hw hop ?_ fun i _ _ => hw.listed.pending_eq_none (by simp [hne])
      simp only [supervisorStep, hop, Supervisor.getCmdResponse, if_neg (Nat.not_lt.2 hlen),
        if_pos hne]
    · cases hcode : b.entryIndexFromCmdCode rsp.cmdCodeToRsp with
      | none =>
        refine handled_ignored hw hop ?_ fun i hi => absurd (hcode.symm.trans hi) nofun
        simp only [supervisorStep, hop, Supervisor.getCmdResponse, if_neg (Nat.not_lt.2 hlen),
          if_neg hne, hcode]
      | some i =>
        have hi := hsup hlen hne i hcode
        split_ifs at hi with hmem
        · exact handled_response_of_mem hw hop hlen hcode hmem hi.1 hi.2
        · exact handled_response_of_not_mem hw hop hlen hne hcode hmem hi
  · refine handled_ignored hw hop ?_ fun i _ hle => absurd hle hlen
    simp only [supervisorStep, hop, Supervisor.getCmdResponse, if_pos (Nat.not_le.1 hlen)]

theorem handled_expire (hw : Watched b h last) (hop : e.op = .expire) (hen : Enabled b h.s e) :
    Handled b h e := by
  simp only [Enabled, hop] at hen
  obtain ⟨timer, htimer, hdue⟩ := hen
  let u := h.s.now + e.wait + e.lag
  have hwait : Watched b ⟨{ h.s with now := u }, h.pending⟩ last := hw.wait (by omega)
  refine ⟨{ h.s with now := u, timer := none, queued := h.s.queued + 1 }, [], last, ?_, ?_, ?_⟩
  · simp only [supervisorStep, hop, htimer, if_pos hdue]
    rfl
  · simp only [CallsHandlers, hop]
  · simp only [hop, Supervision.pendingAfter, List.map_nil, List.not_mem_nil, if_false]
    exact hwait.expire htimer hdue

theorem handled_callback (hw : Watched b h last) (hop : e.op = .callback)
    (hen : Enabled b h.s e) (hsup : Supervisable b h.s e) : Handled b h e := by
  simp only [Enabled, hop] at hen
  simp only [Supervisable, hop] at hsup
  let u := h.s.now + e.wait + e.lag
  obtain ⟨x, c, sent, s', last', hq1, hx, -, hc, hhandler, hsent, hdue, hs', hwatched⟩ :=
    hw.takeFirst (u := u) hen (Nat.le_add_right _ _) (Nat.le_add_right _ _) hsup
  refine ⟨s', [.timeout x.entryIndex], last', ?_, ?_, ?_⟩
  · have hstep : supervisorStep b h.s e =
        { h.s with now := u, queued := 0 }.timerCallback b (h.s.now + e.wait) u := by
      simp only [supervisorStep, hop, hq1, Nat.sub_self]
      rfl
    simp only [hstep, Supervisor.timerCallback, hx, Option.bind_eq_bind, Option.bind_some, hs', hc,
      hhandler, if_true, Option.pure_def]
  · simp only [CallsHandlers, hop]
    exact ⟨x.entryIndex, sent, c, rfl, hsent, hc, hdue.trans (b.osTick_mono (by omega))⟩
  · simp only [hop, Supervision.pendingAfter, List.map_singleton, List.mem_singleton,
      HandlerCall.entryIndex]
    exact hwatched

theorem handled (hw : Watched b h last) (hen : Enabled b h.s e) (hsup : Supervisable b h.s e) :
    Handled b h e := by
  cases hop : e.op with
  | add i => exact handled_add hw hop hen hsup
  | response rsp paramLen => exact handled_response hw hop hsup
  | expire => exact handled_expire hw hop hen
  | callback => exact handled_callback hw hop hen hsup

end Events

/-! ### Runs -/

/-- The supervisor that has been set up. -/
def Supervision.initial : Supervision := ⟨.initial, fun _ => none⟩

theorem watched_initial (b : SupervisorBuild) : Watched b .initial 0 where
  listed := ⟨List.nodup_nil, by simp [Supervision.initial, Supervisor.initial], List.Pairwise.nil,
    Nat.zero_le _, rfl, nofun⟩
  last_le := le_rfl
  armed _ := rfl
  started := nofun
  expired h := absurd rfl h

theorem Handled.keepsSupervision {b : SupervisorBuild} {h : Supervision} {e : SupervisorEvent}
    (hh : Handled b h e) :
    ∃ s calls, supervisorStep b h.s e = some (s, calls) ∧ CallsHandlers b h e calls ∧
      (Supervision.mk s (h.pendingAfter b (h.s.now + e.wait) calls e.op)).Supervised := by
  obtain ⟨s, calls, last, hstep, hcalls, hw⟩ := hh
  exact ⟨s, calls, hstep, hcalls, hw.supervised⟩

/-- An event that happens was possible. -/
theorem enabled_of_step {b : SupervisorBuild} {s : Supervisor} {e : SupervisorEvent}
    {r : Supervisor × List HandlerCall} (h : supervisorStep b s e = some r) : Enabled b s e := by
  unfold supervisorStep at h
  unfold Enabled
  cases hop : e.op with
  | add i =>
    simp only [hop] at h
    obtain ⟨s', hadd, -⟩ := Option.map_eq_some_iff.1 h
    unfold Supervisor.addWaitingRsp at hadd
    split_ifs at hadd with hcount
    · cases hadd
    obtain ⟨c, hc, -⟩ := Option.bind_eq_some_iff.1 hadd
    exact ⟨Nat.not_le.1 hcount, (List.getElem?_eq_some_iff.1 hc).1⟩
  | response rsp paramLen => trivial
  | expire =>
    simp only [hop] at h
    cases htimer : s.timer with
    | none =>
      rw [htimer] at h
      cases h
    | some timer =>
      simp only [htimer] at h
      split_ifs at h with hdue
      exact ⟨timer, rfl, hdue⟩
  | callback =>
    simp only [hop] at h
    split_ifs at h with hq
    exact hq

/-- The invariant is kept by the events that are handled as they should. -/
theorem watched_step {b : SupervisorBuild} {h h' : Supervision} {e : SupervisorEvent}
    (hw : ∃ last, Watched b h last) (hsup : Supervisable b h.s e) (hstep : h.step b e = some h') :
    ∃ last, Watched b h' last := by
  obtain ⟨last, hw⟩ := hw
  obtain ⟨r, hr, rfl⟩ := Option.map_eq_some_iff.1 hstep
  obtain ⟨s, calls, last', hs, -, hw'⟩ := handled hw (enabled_of_step hr) hsup
  obtain rfl : r = (s, calls) := Option.some.inj (hr.symm.trans hs)
  exact ⟨last', hw'⟩

/-- Two commands, with timeouts of 5 s and 1 s. -/
def SupervisorBuild.twoCommands : SupervisorBuild where
  table := [⟨0x9001, 5000, true⟩, ⟨0x9002, 1000, true⟩]
  ticksPerMs := 16
  phase := 0
  ticksPerMs_pos := by decide

end EarbudFirmware.Tota
