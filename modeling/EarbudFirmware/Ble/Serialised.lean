import EarbudFirmware.Ble.ModeSwitch
import Mathlib.Data.List.Count

/-!
# What BLE has left to do

While an operation is posted or in progress BLE is busy, and what is requested meanwhile is pending.
Each operation that ends is followed by a pending one, until BLE is not busy and nothing is pending.

## Main definitions

* `BleCall`, `callStep` — the events with `app_ble_disconnect_all`
* `ScanWaits` — an operation that waits for the scan activity has a command in flight
* `Serialised` — the invariant of the operations
* `BleMode.toServe` — what is left to do

## Main results

* `Serialised.request` — a request keeps the invariant
* `Serialised.run` — a posted function can run, and leaves less to do
-/

namespace EarbudFirmware.Ble

open Transition (Along)

variable {n : Nat} {s t u : BleMode} {e : BleEvent} {f : BtFunction} {a : ActvAction} {i : UInt8}
  {ok : Bool}

/-- The loop of `app_ble_disconnect_all`. -/
def BleMode.disconnectAll (n : Nat) (s : BleMode) : BleMode :=
  (List.range n).foldl (fun s index =>
    let s := { s with
      pendingConnect := fun i => if i = index then false else s.pendingConnect i }
    s.request (.disconnect index)
      { s with pendingDisconnect := fun i => if i = index then true else s.pendingDisconnect i }) s

/-- An event, or a call of `app_ble_disconnect_all`. -/
inductive BleCall where
  | event (e : BleEvent)
  | disconnectAll
  deriving DecidableEq

/-- One event or call. -/
def callStep (n : Nat) (s : BleMode) : BleCall → Option BleMode
  | .event e => bleStep n s e
  | .disconnectAll => some (s.disconnectAll n)

/-- Indices are those of connections, and `app_ble_disconnect_all` does not take the pending
connection from a function that is posted to make it. -/
def InRange (n : Nat) (s : BleMode) : BleCall → Prop
  | .event (.startConnect index) => index < n
  | .event (.startDisconnect conIdx) => conIdx < n
  | .event _ => True
  | .disconnectAll => .startConnect ∉ s.posted

instance (n : Nat) (s : BleMode) : ∀ c, Decidable (InRange n s c)
  | .event (.startConnect index) => inferInstanceAs (Decidable (index < n))
  | .event (.startDisconnect conIdx) => inferInstanceAs (Decidable (conIdx < n))
  | .disconnectAll => inferInstanceAs (Decidable (.startConnect ∉ s.posted))
  | .event (.startScan _) | .event .stopScan | .event (.setWhiteList _ _)
  | .event (.clearWhiteList _) | .event .clearAllWhiteList | .event .addReslovingList
  | .event .cancelConnecting | .event .refreshAdv | .event (.run _) | .event (.finish _ _)
  | .event (.advStartingFailed _) | .event .appmSetWhiteList | .event (.gapmComplete _) =>
    isTrue trivial

/-! ### What is left to do -/

/-- The connections that are to be made. -/
def BleMode.toConnect (n : Nat) (s : BleMode) : Nat := (List.range n).countP s.pendingConnect

/-- The number of requests for which no function is posted. The flags of three of the functions
stay up until the function runs. -/
def BleMode.unposted (n : Nat) (s : BleMode) : Nat :=
  s.pendingStopConnecting.toNat + (List.range n).countP s.pendingDisconnect +
    (s.pendingSetWhiteList && !s.posted.contains .setAllWhiteList).toNat +
    (s.pendingAddReslovingList && !s.posted.contains .addReslovingList).toNat +
    (s.toConnect n - s.posted.count .startConnect) +
    s.scanHasPendingOp.toNat + s.scanHasPendingStopOp.toNat + s.advHasPendingOp.toNat

/-- How many states of the scan activity are ahead. -/
def BleMode.scanRank (s : BleMode) : Nat :=
  match s.scanActv with
  | none => if s.bleActvAction = .startingScan then 3 else 0
  | some .creating => 3
  | some .starting => 2
  | some .started => 0
  | some .stopping => if s.needRestartScan then 5 else 2
  | some .deleting => if s.needRestartScan then 4 else 1

/-- Advertising that fails to start is in progress until it has stopped. -/
def actionRank : ActvAction → Nat
  | .idle => 0
  | .startingAdv => 2
  | _ => 1

theorem actionRank_pos (h : a ≠ .idle) : 0 < actionRank a := by
  cases a with
  | idle => exact absurd rfl h
  | _ => decide

/-- What is left to do until BLE is not busy. -/
def BleMode.toServe (n : Nat) (s : BleMode) : Nat :=
  40 * s.unposted n + 20 * s.posted.length + 2 * s.scanRank + s.gapmCmds.length +
    actionRank s.bleActvAction

/-! ### The next operation -/

theorem unposted_of_nil (hp : s.posted = []) : s.unposted n =
    s.pendingStopConnecting.toNat + (List.range n).countP s.pendingDisconnect +
      s.pendingSetWhiteList.toNat + s.pendingAddReslovingList.toNat + s.toConnect n +
      s.scanHasPendingOp.toNat + s.scanHasPendingStopOp.toNat + s.advHasPendingOp.toNat := by
  simp [BleMode.unposted, hp]

/-- A flag that is taken down was up. -/
theorem countP_clear {l : List Nat} {p : Nat → Bool} {k : Nat} (hl : l.Nodup) (hk : k ∈ l)
    (hp : p k = true) :
    l.countP (fun j => if j = k then false else p j) + 1 = l.countP p := by
  induction l with
  | nil => exact absurd hk List.not_mem_nil
  | cons j l ih =>
    rw [List.nodup_cons] at hl
    rw [List.countP_cons, List.countP_cons]
    rcases List.mem_cons.mp hk with rfl | hk
    · have hsame : l.countP (fun j => if j = k then false else p j) = l.countP p :=
        List.countP_congr fun j hj => by rw [if_neg (ne_of_mem_of_not_mem hj hl.1)]
      rw [hsame, if_pos rfl, hp]
      rfl
    · have hne : j ≠ k := fun h => hl.1 (h ▸ hk)
      rw [← ih hl.2 hk, if_neg hne]
      omega

theorem toConnect_pos : 0 < s.toConnect n ↔ (s.pendingToConnect n).isSome := by
  rw [BleMode.toConnect, BleMode.pendingToConnect, List.countP_pos_iff, List.find?_isSome]

/-- An operation that ends is followed by a pending one, or nothing is pending. -/
theorem postPendingOp_cases (hp : s.posted = []) :
    (s.unposted n = 0 ∧ s.postPendingOp n = { s with bleIsBusy := false }) ∨
      ∃ f p d o q v, s.postPendingOp n = { s with
          posted := [f]
          pendingStopConnecting := p
          pendingDisconnect := d
          scanHasPendingOp := o
          scanHasPendingStopOp := q
          advHasPendingOp := v } ∧
        (s.postPendingOp n).unposted n + 1 = s.unposted n ∧
        (f = .startConnect → 0 < s.toConnect n) := by
  rw [unposted_of_nil hp]
  generalize ht : s.postPendingOp n = t
  unfold BleMode.postPendingOp BleMode.post at ht
  rw [hp, List.nil_append] at ht
  split at ht
  · rename_i hstop
    refine .inr ⟨.stopConnecting, _, _, _, _, _, ht.symm, ?_, BtFunction.noConfusion⟩
    subst ht
    simp [BleMode.unposted, BleMode.toConnect, hstop]
    omega
  rename_i hstop
  split at ht
  · rename_i index hdisconnect
    have hcount := countP_clear List.nodup_range (List.mem_of_find?_eq_some hdisconnect)
      (List.find?_some hdisconnect)
    refine .inr ⟨.disconnect index, _, _, _, _, _, ht.symm, ?_, BtFunction.noConfusion⟩
    subst ht
    rw [← hcount]
    simp [BleMode.unposted, BleMode.toConnect]
    omega
  rename_i hdisconnect
  have hnone : (List.range n).countP s.pendingDisconnect = 0 :=
    List.countP_eq_zero.mpr fun j hj => List.find?_eq_none.mp hdisconnect j hj
  split at ht
  · rename_i hlist
    refine .inr ⟨.setAllWhiteList, _, _, _, _, _, ht.symm, ?_, BtFunction.noConfusion⟩
    subst ht
    simp [BleMode.unposted, BleMode.toConnect, hlist]
    omega
  rename_i hlist
  split at ht
  · rename_i hreslo
    refine .inr ⟨.addReslovingList, _, _, _, _, _, ht.symm, ?_, BtFunction.noConfusion⟩
    subst ht
    simp [BleMode.unposted, BleMode.toConnect, hreslo]
    omega
  rename_i hreslo
  split at ht
  · rename_i hconnect
    have hpos := toConnect_pos.mpr hconnect
    refine .inr ⟨.startConnect, _, _, _, _, _, ht.symm, ?_, fun _ => hpos⟩
    subst ht
    simp [BleMode.unposted]
    change _ + (s.toConnect n - 1) + _ + _ + _ + 1 = _
    omega
  rename_i hconnect
  split at ht
  · rename_i hscan
    refine .inr ⟨.startScan, _, _, _, _, _, ht.symm, ?_, BtFunction.noConfusion⟩
    subst ht
    simp [BleMode.unposted, BleMode.toConnect, hscan]
    omega
  rename_i hscan
  split at ht
  · rename_i hscanStop
    refine .inr ⟨.stopScanning, _, _, _, _, _, ht.symm, ?_, BtFunction.noConfusion⟩
    subst ht
    simp [BleMode.unposted, BleMode.toConnect, hscanStop]
    omega
  rename_i hscanStop
  split at ht
  · rename_i hadv
    refine .inr ⟨.startAdv, _, _, _, _, _, ht.symm, ?_, BtFunction.noConfusion⟩
    subst ht
    simp [BleMode.unposted, BleMode.toConnect, hadv]
  rename_i hadv
  have hzero : s.toConnect n = 0 := by
    by_contra hne
    exact hconnect (toConnect_pos.mp (Nat.pos_of_ne_zero hne))
  refine .inl ⟨?_, by rw [← ht, hp]⟩
  rw [hnone, hzero, eq_false_of_ne_true hstop, eq_false_of_ne_true hlist,
    eq_false_of_ne_true hreslo, eq_false_of_ne_true hscan, eq_false_of_ne_true hscanStop,
    eq_false_of_ne_true hadv]
  rfl

/-! ### The scan activity -/

/-- The scan activity and the commands in flight: no operation waits for it, it is on its way down,
or a start waits for it. Commands that nothing waits for can be in flight before the others. -/
inductive ScanWaits (s : BleMode) : Prop
  | resting (start : s.bleActvAction ≠ .startingScan) (stop : s.bleActvAction ≠ .stoppingScan)
      (actv : s.scanActv = none ∨ s.scanActv = some .started) (restart : s.needRestartScan = false)
      (cmds : .create ∉ s.gapmCmds)
  | ending (start : s.bleActvAction ≠ .startingScan)
      (actv : s.scanActv = some .stopping ∨ s.scanActv = some .deleting)
      (restart : s.needRestartScan = false) (cmds : .create ∉ s.gapmCmds)
      (inFlight : s.gapmCmds ≠ [])
  | creating (start : s.bleActvAction = .startingScan) (actv : s.scanActv = none)
      (restart : s.needRestartScan = false) (stale : List ScanCmd) (others : .create ∉ stale)
      (cmds : s.gapmCmds = stale ++ [.create])
  | starting (start : s.bleActvAction = .startingScan) (actv : s.scanActv = some .starting)
      (restart : s.needRestartScan = false) (cmds : .create ∉ s.gapmCmds)
      (inFlight : s.gapmCmds ≠ [])
  | restarting (start : s.bleActvAction = .startingScan)
      (actv : s.scanActv = some .stopping ∨ s.scanActv = some .deleting)
      (restart : s.needRestartScan = true) (cmds : .create ∉ s.gapmCmds)
      (inFlight : s.gapmCmds ≠ [])

theorem ScanWaits.congr (h : ScanWaits s) (hactv : t.scanActv = s.scanActv)
    (hrestart : t.needRestartScan = s.needRestartScan) (hcmds : t.gapmCmds = s.gapmCmds)
    (haction : t.bleActvAction = s.bleActvAction) : ScanWaits t := by
  cases h with
  | resting start stop actv restart cmds =>
    rw [← haction] at start stop
    rw [← hactv] at actv
    rw [← hrestart] at restart
    rw [← hcmds] at cmds
    exact .resting start stop actv restart cmds
  | ending start actv restart cmds inFlight =>
    rw [← haction] at start
    rw [← hactv] at actv
    rw [← hrestart] at restart
    rw [← hcmds] at cmds inFlight
    exact .ending start actv restart cmds inFlight
  | creating start actv restart stale others cmds =>
    exact .creating (haction.trans start) (hactv.trans actv) (hrestart.trans restart) stale others
      (hcmds.trans cmds)
  | starting start actv restart cmds inFlight =>
    rw [← hcmds] at cmds inFlight
    exact .starting (haction.trans start) (hactv.trans actv) (hrestart.trans restart) cmds inFlight
  | restarting start actv restart cmds inFlight =>
    rw [← hactv] at actv
    rw [← hcmds] at cmds inFlight
    exact .restarting (haction.trans start) actv (hrestart.trans restart) cmds inFlight

/-- No operation is in progress that the scan activity is for. -/
structure ScanFree (s : BleMode) : Prop where
  restart : s.needRestartScan = false
  cmds : .create ∉ s.gapmCmds
  actv : (s.scanActv = none ∨ s.scanActv = some .started) ∨
    (s.scanActv = some .stopping ∨ s.scanActv = some .deleting) ∧ s.gapmCmds ≠ []

theorem ScanFree.waits (h : ScanFree s) (start : s.bleActvAction ≠ .startingScan)
    (stop : s.bleActvAction ≠ .stoppingScan) : ScanWaits s := by
  rcases h.actv with hactv | ⟨hactv, hcmds⟩
  · exact .resting start stop hactv h.restart h.cmds
  · exact .ending start hactv h.restart h.cmds hcmds

theorem ScanWaits.free (h : ScanWaits s) (hstart : s.bleActvAction ≠ .startingScan) :
    ScanFree s := by
  cases h with
  | resting _ _ actv restart cmds => exact ⟨restart, cmds, .inl actv⟩
  | ending _ actv restart cmds inFlight => exact ⟨restart, cmds, .inr ⟨actv, inFlight⟩⟩
  | creating start | starting start | restarting start => exact absurd start hstart

/-! ### The invariant -/

/-- BLE is busy while an operation is posted or in progress; else nothing is pending. -/
structure Serialised (n : Nat) (s : BleMode) : Prop where
  dispatched : Dispatched s
  busy : s.bleIsBusy = true → s.posted ≠ [] ∨ s.bleActvAction ≠ .idle
  quiet : s.bleIsBusy = false → s.unposted n = 0
  connect : .startConnect ∈ s.posted → 0 < s.toConnect n
  waits : ScanWaits s

theorem serialised_init : Serialised n .init where
  dispatched := .init
  busy := fun h => absurd h Bool.false_ne_true
  quiet := fun _ => by
    rw [unposted_of_nil rfl, BleMode.toConnect]
    simp [BleMode.init]
  connect := fun h => absurd h List.not_mem_nil
  waits := .resting ActvAction.noConfusion ActvAction.noConfusion (.inl rfl) rfl List.not_mem_nil

/-- An operation is in progress. -/
theorem Serialised.of_action (hbusy : s.bleIsBusy = true) (hp : s.posted = [])
    (ha : s.bleActvAction ≠ .idle) (hw : ScanWaits s) : Serialised n s where
  dispatched := .of_busy hbusy (.inl hp)
  busy := fun _ => .inr ha
  quiet := fun h => absurd (hbusy.symm.trans h) (Bool.noConfusion)
  connect := fun h => by
    rw [hp] at h
    exact absurd h List.not_mem_nil
  waits := hw

theorem scanRank_le_five : s.scanRank ≤ 5 := by
  unfold BleMode.scanRank
  split <;> try split
  all_goals omega

/-- An operation that does not wait for the scan activity has no more of its states ahead. -/
theorem scanRank_le (hactv : t.scanActv = s.scanActv)
    (hrestart : t.needRestartScan = s.needRestartScan) (ha : t.bleActvAction ≠ .startingScan) :
    t.scanRank ≤ s.scanRank := by
  unfold BleMode.scanRank
  rw [hactv, hrestart]
  split
  · rw [if_neg ha]
    exact Nat.zero_le _
  all_goals exact Nat.le_refl _

/-- When nothing is in progress any more, the next operation is posted, or BLE is not busy. -/
theorem postPendingOp_serialised (hp : s.posted = []) (hbusy : s.bleIsBusy = true)
    (hidle : s.bleActvAction = .idle) (hw : ScanWaits s) :
    Serialised n (s.postPendingOp n) ∧ (s.postPendingOp n).toServe n ≤ s.toServe n := by
  have hdispatched : Dispatched (s.postPendingOp n) :=
    Dispatched.next (nextOp_postPendingOp s) hp hidle hbusy
  rcases postPendingOp_cases (n := n) hp with ⟨hzero, hfree⟩ | ⟨f, p, d, o, q, v, hpost, hlt, hf⟩
  · rw [hfree] at hdispatched ⊢
    refine ⟨⟨hdispatched, fun h => absurd h Bool.false_ne_true, fun _ => hzero, ?_,
      hw.congr rfl rfl rfl rfl⟩, Nat.le_refl _⟩
    change _ ∈ s.posted → _
    rw [hp]
    exact fun h => absurd h List.not_mem_nil
  · rw [hpost] at hdispatched hlt ⊢
    refine ⟨⟨hdispatched, fun _ => .inl (List.cons_ne_nil _ _),
      fun h => absurd (hbusy.symm.trans h) Bool.noConfusion, fun h => ?_,
      hw.congr rfl rfl rfl rfl⟩, ?_⟩
    · exact hf (List.mem_singleton.mp h).symm
    · unfold BleMode.toServe
      rw [← hlt, hp]
      change 40 * _ + 20 * 1 + 2 * s.scanRank + s.gapmCmds.length + actionRank s.bleActvAction ≤
        40 * _ + 20 * 0 + 2 * s.scanRank + s.gapmCmds.length + actionRank s.bleActvAction
      omega

/-- The operation in progress ends, or a function found nothing to do. -/
theorem executePendingOp_serialised (hp : s.posted = []) (hbusy : s.bleIsBusy = true)
    (ha : a = s.bleActvAction) (hi : a = .stoppingAdv → i = s.bleOpActvIdx)
    (hw : ScanFree s) : Serialised n (s.executePendingOp n a i) ∧
      (s.executePendingOp n a i).toServe n + actionRank a ≤ s.toServe n := by
  have hclear : ∃ idx, s.executePendingOp n a i = { s with
      bleActvAction := .idle
      bleOpActvIdx := idx }.postPendingOp n := by
    rw [BleMode.executePendingOp, BleMode.clearActvAction, if_pos ha]
    by_cases hidle : s.bleActvAction = .idle
    · rw [if_pos hidle]
      refine ⟨s.bleOpActvIdx, ?_⟩
      rw [← hidle]
    · rw [if_neg hidle, if_neg fun hadv => hadv.2 (hi hadv.1).symm]
      exact ⟨0xFF, rfl⟩
  obtain ⟨idx, hclear⟩ := hclear
  have hfree : ScanFree { s with
    bleActvAction := .idle
    bleOpActvIdx := idx } := ⟨hw.restart, hw.cmds, hw.actv⟩
  obtain ⟨hserialised, hle⟩ := postPendingOp_serialised (n := n) (s := { s with
    bleActvAction := .idle
    bleOpActvIdx := idx }) hp hbusy rfl
    (hfree.waits ActvAction.noConfusion ActvAction.noConfusion)
  rw [hclear]
  refine ⟨hserialised, ?_⟩
  have hrank := scanRank_le (s := s) (t := { s with
    bleActvAction := .idle
    bleOpActvIdx := idx }) rfl rfl ActvAction.noConfusion
  rw [ha]
  unfold BleMode.toServe at hle ⊢
  change _ ≤ 40 * s.unposted n + 20 * s.posted.length + 2 * _ + s.gapmCmds.length + 0 at hle
  omega

/-! ### Requests -/

/-- A request, which adds a flag when BLE is busy. `u` is the state with the flag. -/
theorem Serialised.request {s' : BleMode} (h : Serialised n s) (hbusy : s'.bleIsBusy = s.bleIsBusy)
    (hp : s'.posted = s.posted) (haction : s'.bleActvAction = s.bleActvAction)
    (hs' : ScanWaits s') (hf : f = .startConnect → 0 < s'.toConnect n)
    (hu : u.bleIsBusy = s'.bleIsBusy ∧ u.posted = s'.posted ∧ u.bleActvAction = s'.bleActvAction)
    (hconnect : .startConnect ∈ s.posted → 0 < u.toConnect n) (hw : ScanWaits u) :
    Serialised n (s'.request f u) := by
  unfold BleMode.request
  split
  · rename_i hb
    rw [hbusy] at hb
    refine ⟨.of_busy (hu.1.trans (hbusy.trans hb)) ?_, fun _ => ?_, fun hfree => ?_, ?_, hw⟩
    · rw [hu.2.1, hu.2.2, hp, haction]
      exact h.dispatched.one
    · rw [hu.2.1, hu.2.2, hp, haction]
      exact h.busy hb
    · rw [hu.1, hbusy, hb] at hfree
      exact Bool.noConfusion hfree
    · rw [hu.2.1, hp]
      exact hconnect
  · rename_i hb
    rw [hbusy] at hb
    obtain ⟨hnil, hidle, -⟩ := h.dispatched.free (eq_false_of_ne_true hb)
    have hpost : ({ s' with bleIsBusy := true } : BleMode).post f = { s' with
        bleIsBusy := true
        posted := [f] } := by
      rw [BleMode.post, hp, hnil]
      rfl
    rw [hpost]
    exact ⟨.of_busy rfl (.inr ⟨⟨f, rfl⟩, haction.trans hidle⟩),
      fun _ => .inl (List.cons_ne_nil _ _), fun hfree => Bool.noConfusion hfree,
      fun hmem => hf (List.mem_singleton.mp hmem).symm, hs'.congr rfl rfl rfl rfl⟩

theorem toConnect_set {index : Nat} (h : index < n) : 0 < ({ s with
    pendingConnect := fun i => if i = index then true else s.pendingConnect i }).toConnect n := by
  rw [BleMode.toConnect, List.countP_pos_iff]
  exact ⟨index, List.mem_range.mpr h, if_pos rfl⟩

theorem mem_posted_request {g : BtFunction} (h : g ∈ (s.request f u).posted)
    (hu : u.posted = s.posted) : g ∈ s.posted ∨ g = f := by
  unfold BleMode.request at h
  split at h
  · rw [hu] at h
    exact .inl h
  · exact (List.mem_append.mp h).imp id List.mem_singleton.mp

theorem Serialised.disconnectAll (h : Serialised n s) (hp : .startConnect ∉ s.posted) :
    Serialised n (s.disconnectAll n) := by
  unfold BleMode.disconnectAll
  generalize List.range n = l
  induction l generalizing s with
  | nil => exact h
  | cons index l ih =>
    rw [List.foldl_cons]
    apply ih
    · exact h.request rfl rfl rfl (h.waits.congr rfl rfl rfl rfl)
        (fun hf => BtFunction.noConfusion hf) ⟨rfl, rfl, rfl⟩ (fun hmem => absurd hmem hp)
        (h.waits.congr rfl rfl rfl rfl)
    · intro hmem
      rcases mem_posted_request hmem rfl with hmem | hf
      · exact hp hmem
      · exact BtFunction.noConfusion hf

/-! ### A posted function runs -/

/-- An activity on its way down is not stopped again. -/
theorem appmStopScanning_of_down
    (h : s.scanActv = some .stopping ∨ s.scanActv = some .deleting) :
    s.appmStopScanning n = s := by
  unfold BleMode.appmStopScanning
  rcases h with h | h <;> rw [h]

/-- An activity on its way down is started anew, or restarted when it is down. -/
theorem appmStartScanning_of_down
    (h : s.scanActv = some .stopping ∨ s.scanActv = some .deleting) (p : ScanParam) :
    s.appmStartScanning n p =
      if (p.scanType ^^^ s.scanParam.scanType) &&& BleMode.scanAllowAdvAllAndInitRpa ≠ 0 then
        { s with
          scanParam := p
          needRestartScan := true }
      else
        { s with
          scanParam := p
          gapmCmds := s.gapmCmds ++ [.start p]
          scanActv := some .starting } := by
  rw [BleMode.appmStartScanning]
  split
  case h_1 hnone =>
    rw [hnone] at h
    rcases h with h | h <;> exact absurd h.symm (Option.some_ne_none _)
  case h_2 =>
    congr 1
    exact appmStopScanning_of_down h

/-- The activity is created, started anew, or restarted over a stop. -/
theorem appmStartScanning_serialised (hp : s.posted = []) (hbusy : s.bleIsBusy = true)
    (ha : s.bleActvAction = .startingScan) (hw : ScanFree s) (p : ScanParam) :
    Serialised n (s.appmStartScanning n p) ∧
      (s.appmStartScanning n p).toServe n ≤ 40 * s.unposted n + s.gapmCmds.length + 12 := by
  have haction : s.bleActvAction ≠ .idle := by
    rw [ha]
    exact ActvAction.noConfusion
  have hrank : actionRank s.bleActvAction = 1 := by rw [ha]; rfl
  -- one command more, in a state of the activity whose rank is known
  have hone : ∀ t : BleMode, t.bleIsBusy = s.bleIsBusy → t.posted = s.posted →
      t.bleActvAction = s.bleActvAction → t.unposted n = s.unposted n → ScanWaits t →
      t.gapmCmds.length ≤ s.gapmCmds.length + 1 → Serialised n t ∧
        t.toServe n ≤ 40 * s.unposted n + s.gapmCmds.length + 12 := by
    intro t hbusy' hp' haction' hunposted hwaits hlen
    refine ⟨.of_action (hbusy'.trans hbusy) (hp'.trans hp) (haction' ▸ haction) hwaits, ?_⟩
    have hle := scanRank_le_five (s := t)
    unfold BleMode.toServe
    rw [hunposted, hp', hp, haction', hrank, List.length_nil]
    omega
  have hcreate : .create ∉ s.gapmCmds := hw.cmds
  have hmem : ∀ c : ScanCmd, c ≠ .create → .create ∉ s.gapmCmds ++ [c] := by
    intro c hc hmem
    rcases List.mem_append.mp hmem with hmem | hmem
    · exact hcreate hmem
    · exact hc (List.mem_singleton.mp hmem).symm
  have hne : ∀ c : ScanCmd, s.gapmCmds ++ [c] ≠ [] := fun c => by simp
  have hlen : ∀ c : ScanCmd, (s.gapmCmds ++ [c]).length ≤ s.gapmCmds.length + 1 :=
    fun c => Nat.le_of_eq (List.length_append ..)
  rcases hw.actv with (hnone | hstarted) | ⟨hdown, hflight⟩
  · rw [appmStartScanning_of_none hnone]
    exact hone _ rfl rfl rfl rfl (.creating ha hnone hw.restart _ hcreate rfl) (hlen _)
  · rw [appmStartScanning_of_started hstarted]
    split
    · exact hone _ rfl rfl rfl rfl (.restarting ha (.inl rfl) rfl (hmem _ ScanCmd.noConfusion)
        (hne _)) (hlen _)
    · exact hone _ rfl rfl rfl rfl (.starting ha rfl hw.restart (hmem _ ScanCmd.noConfusion)
        (hne _)) (hlen _)
  · rw [appmStartScanning_of_down hdown]
    split
    · exact hone _ rfl rfl rfl rfl (.restarting ha hdown rfl hcreate hflight) (Nat.le_succ _)
    · exact hone _ rfl rfl rfl rfl (.starting ha rfl hw.restart (hmem _ ScanCmd.noConfusion)
        (hne _)) (hlen _)

/-- The activity is stopped, is on its way down, or there is nothing to stop. -/
theorem appmStopScanning_serialised (hp : s.posted = []) (hbusy : s.bleIsBusy = true)
    (ha : s.bleActvAction = .stoppingScan) (hw : ScanFree s) :
    Serialised n (s.appmStopScanning n) ∧
      (s.appmStopScanning n).toServe n ≤ 40 * s.unposted n + s.gapmCmds.length + 6 := by
  have haction : s.bleActvAction ≠ .idle := by
    rw [ha]
    exact ActvAction.noConfusion
  have hstart : s.bleActvAction ≠ .startingScan := by
    rw [ha]
    exact ActvAction.noConfusion
  have hrank : actionRank s.bleActvAction = 1 := by rw [ha]; rfl
  rcases hw.actv with (hnone | hstarted) | ⟨hdown, hflight⟩
  · rw [appmStopScanning_of_none hnone]
    obtain ⟨hserialised, hle⟩ := executePendingOp_serialised (n := n) (i := 0xFF) hp hbusy ha.symm
      ActvAction.noConfusion hw
    have hserve : s.toServe n = 40 * s.unposted n + s.gapmCmds.length + 1 := by
      rw [BleMode.toServe, BleMode.scanRank, hp, hrank, hnone]
      dsimp only
      rw [if_neg hstart]
      rfl
    exact ⟨hserialised, by omega⟩
  · rw [appmStopScanning_of_started hstarted]
    refine ⟨.of_action hbusy hp haction (.ending hstart (.inl rfl) hw.restart ?_ (by simp)), ?_⟩
    · intro hmem
      rcases List.mem_append.mp hmem with hmem | hmem
      · exact hw.cmds hmem
      · exact ScanCmd.noConfusion (List.mem_singleton.mp hmem)
    · change 40 * s.unposted n + 20 * s.posted.length + 2 * (if s.needRestartScan then 5 else 2) +
        (s.gapmCmds ++ [ScanCmd.stop]).length + actionRank s.bleActvAction ≤ _
      rw [hp, hrank, hw.restart, if_neg Bool.false_ne_true, List.length_append, List.length_nil,
        List.length_singleton]
      omega
  · rw [appmStopScanning_of_down hdown]
    refine ⟨.of_action hbusy hp haction (.ending hstart hdown hw.restart hw.cmds hflight), ?_⟩
    have hle : s.scanRank ≤ 2 := by
      unfold BleMode.scanRank
      rw [hw.restart]
      rcases hdown with hdown | hdown <;> simp [hdown]
    rw [BleMode.toServe, hp, hrank, List.length_nil]
    omega

/-- A posted function is taken from the thread, and leaves its flag down. -/
theorem unposted_pop (hp : s.posted = [f]) (t : BleMode) (ht : t.posted = [])
    (hsame : t.pendingStopConnecting = s.pendingStopConnecting ∧
      t.pendingDisconnect = s.pendingDisconnect ∧ t.scanHasPendingOp = s.scanHasPendingOp ∧
      t.scanHasPendingStopOp = s.scanHasPendingStopOp ∧ t.advHasPendingOp = s.advHasPendingOp)
    (hlist : t.pendingSetWhiteList = (s.pendingSetWhiteList && !([f].contains .setAllWhiteList)))
    (hreslo : t.pendingAddReslovingList =
      (s.pendingAddReslovingList && !([f].contains .addReslovingList)))
    (hconnect : t.toConnect n = s.toConnect n - [f].count .startConnect) :
    t.unposted n = s.unposted n := by
  obtain ⟨hstop, hdisconnect, hscan, hscanStop, hadv⟩ := hsame
  rw [unposted_of_nil ht, BleMode.unposted, hp, hstop, hdisconnect, hscan, hscanStop, hadv, hlist,
    hreslo, hconnect]

/-- Another operation than one on the scan begins. `v` is the state without the function. -/
theorem Serialised.begin {v : BleMode} (h : Serialised n s) (hp : s.posted = [f])
    (hidle : s.bleActvAction = .idle) (hunposted : v.unposted n = s.unposted n)
    (hv : v.posted = []) (hbusy : v.bleIsBusy = s.bleIsBusy)
    (hscan : v.scanActv = s.scanActv ∧ v.needRestartScan = s.needRestartScan ∧
      v.gapmCmds = s.gapmCmds) (ha : a ≠ .idle ∧ a ≠ .startingScan ∧ a ≠ .stoppingScan) :
    Serialised n (v.setActvAction a i) ∧ (v.setActvAction a i).toServe n < s.toServe n := by
  obtain ⟨-, -, hb⟩ := h.dispatched.of_posted hp
  obtain ⟨hactv, hrestart, hcmds⟩ := hscan
  have hfree := h.waits.free (by rw [hidle]; exact ActvAction.noConfusion)
  have hfree' : ScanFree (v.setActvAction a i) := by
    refine ⟨hrestart.trans hfree.restart, ?_, ?_⟩
    · change _ ∉ v.gapmCmds
      rw [hcmds]
      exact hfree.cmds
    · change (v.scanActv = _ ∨ v.scanActv = _) ∨ (v.scanActv = _ ∨ v.scanActv = _) ∧ v.gapmCmds ≠ []
      rw [hactv, hcmds]
      exact hfree.actv
  refine ⟨.of_action (hbusy.trans hb) hv ha.1 (hfree'.waits ha.2.1 ha.2.2), ?_⟩
  have hrank := scanRank_le (t := v.setActvAction a i) hactv hrestart ha.2.1
  have hone : actionRank a ≤ 2 := by cases a <;> decide
  have hsame : (v.setActvAction a i).unposted n = v.unposted n := rfl
  rw [BleMode.toServe, BleMode.toServe, hsame, hunposted, hp]
  change _ + 20 * v.posted.length + _ + v.gapmCmds.length + actionRank a < _
  rw [hv, hcmds, List.length_nil, List.length_singleton]
  omega

/-- A posted function runs: there is a connection for `ble_start_connect` to make, and less is left
to do. -/
theorem Serialised.run (h : Serialised n s) (hp : s.posted ≠ []) (adv : AdvWork) :
    ∃ u, bleStep n s (.run adv) = some u ∧ Serialised n u ∧ u.toServe n < s.toServe n := by
  obtain ⟨f, fs, hposted⟩ := List.exists_cons_of_ne_nil hp
  obtain ⟨rfl, hidle, hbusy⟩ := h.dispatched.of_posted hposted
  have hfree := h.waits.free (by rw [hidle]; exact ActvAction.noConfusion)
  have hstep : bleStep n s (.run adv) = { s with posted := [] }.call n adv f := by
    rw [bleStep, hposted]
  have hserve : s.toServe n = 40 * s.unposted n + 20 + 2 * s.scanRank + s.gapmCmds.length := by
    rw [BleMode.toServe, hposted, hidle]
    rfl
  rw [hstep]
  have hpop : ∀ f, s.posted = [f] → f ≠ .setAllWhiteList → f ≠ .addReslovingList →
      f ≠ .startConnect → ({ s with posted := [] } : BleMode).unposted n = s.unposted n := by
    intro f hf hlist hreslo hconnect
    refine unposted_pop hf _ rfl ⟨rfl, rfl, rfl, rfl, rfl⟩ ?_ ?_ ?_
    · simp [hlist.symm]
    · simp [hreslo.symm]
    · rw [List.count_eq_zero.mpr fun hmem => hconnect (List.mem_singleton.mp hmem).symm]
      rfl
  -- a function that finds nothing to do
  have hnothing : ({ s with posted := [] } : BleMode).unposted n = s.unposted n →
      Serialised n (({ s with posted := [] } : BleMode).executePendingOp n .idle 0xFF) ∧
        (({ s with posted := [] } : BleMode).executePendingOp n .idle 0xFF).toServe n <
          s.toServe n := by
    intro hunposted
    obtain ⟨hserialised, hle⟩ := executePendingOp_serialised (n := n) (i := 0xFF)
      (s := { s with posted := [] }) rfl hbusy hidle.symm ActvAction.noConfusion
      ⟨hfree.restart, hfree.cmds, hfree.actv⟩
    refine ⟨hserialised, ?_⟩
    have hpopped : ({ s with posted := [] } : BleMode).toServe n =
        40 * s.unposted n + 2 * s.scanRank + s.gapmCmds.length := by
      change 40 * ({ s with posted := [] } : BleMode).unposted n + 20 * 0 + 2 * s.scanRank +
        s.gapmCmds.length + actionRank s.bleActvAction = _
      rw [hunposted, hidle]
      rfl
    omega
  cases f with
  | stopConnecting | disconnect =>
    refine ⟨_, rfl, h.begin hposted hidle ?_ rfl rfl ⟨rfl, rfl, rfl⟩ (by decide)⟩
    exact hpop _ hposted BtFunction.noConfusion BtFunction.noConfusion BtFunction.noConfusion
  | setAllWhiteList =>
    refine ⟨_, rfl, h.begin hposted hidle ?_ rfl rfl ⟨rfl, rfl, rfl⟩ (by decide)⟩
    exact unposted_pop hposted _ rfl ⟨rfl, rfl, rfl, rfl, rfl⟩ (by simp) (by simp) rfl
  | addReslovingList =>
    refine ⟨_, rfl, h.begin hposted hidle ?_ rfl rfl ⟨rfl, rfl, rfl⟩ (by decide)⟩
    exact unposted_pop hposted _ rfl ⟨rfl, rfl, rfl, rfl, rfl⟩ (by simp) (by simp) rfl
  | startConnect =>
    have hpos := h.connect (by rw [hposted]; exact List.mem_singleton_self _)
    obtain ⟨index, hindex⟩ := Option.isSome_iff_exists.mp (toConnect_pos.mp hpos)
    have hcount := countP_clear List.nodup_range (List.mem_of_find?_eq_some hindex)
      (List.find?_some hindex)
    have hcall : ({ s with posted := [] } : BleMode).call n adv .startConnect =
        some ({ s with
          posted := []
          pendingConnect := fun i =>
            if i = index then false else s.pendingConnect i }.setActvAction .connecting 0xFF) := by
      rw [BleMode.call]
      change Option.map _ (s.pendingToConnect n) = _
      rw [hindex]
      rfl
    refine ⟨_, hcall, h.begin hposted hidle ?_ rfl rfl ⟨rfl, rfl, rfl⟩ (by decide)⟩
    refine unposted_pop hposted _ rfl ⟨rfl, rfl, rfl, rfl, rfl⟩ (by simp) (by simp) ?_
    change (List.range n).countP _ = (List.range n).countP s.pendingConnect - 1
    rw [← hcount]
    rfl
  | startScan =>
    have hunposted := hpop _ hposted BtFunction.noConfusion BtFunction.noConfusion
      BtFunction.noConfusion
    refine ⟨_, rfl, ?_⟩
    unfold BleMode.bleStartScan
    split
    · exact hnothing hunposted
    · obtain ⟨hserialised, hle⟩ := appmStartScanning_serialised (n := n)
        (s := ({ s with
          posted := []
          scanCurrentInfo := s.scanPendingInfo } : BleMode).setActvAction .startingScan 0xFF)
        rfl hbusy rfl ⟨hfree.restart, hfree.cmds, hfree.actv⟩ s.scanPendingInfo
      refine ⟨hserialised, ?_⟩
      change _ ≤ 40 * ({ s with posted := [] } : BleMode).unposted n + s.gapmCmds.length + 12 at hle
      rw [hunposted] at hle
      exact Nat.lt_of_le_of_lt hle (by omega)
  | stopScanning =>
    have hunposted := hpop _ hposted BtFunction.noConfusion BtFunction.noConfusion
      BtFunction.noConfusion
    obtain ⟨hserialised, hle⟩ := appmStopScanning_serialised (n := n)
      (s := ({ s with posted := [] } : BleMode).setActvAction .stoppingScan 0xFF) rfl hbusy rfl
      ⟨hfree.restart, hfree.cmds, hfree.actv⟩
    refine ⟨_, rfl, hserialised, ?_⟩
    change _ ≤ 40 * ({ s with posted := [] } : BleMode).unposted n + s.gapmCmds.length + 6 at hle
    rw [hunposted] at hle
    exact Nat.lt_of_le_of_lt hle (by omega)
  | startAdv =>
    have hunposted := hpop _ hposted BtFunction.noConfusion BtFunction.noConfusion
      BtFunction.noConfusion
    cases adv with
    | nothing => exact ⟨_, rfl, hnothing hunposted⟩
    | start | stop =>
      exact ⟨_, rfl, h.begin hposted hidle hunposted rfl rfl ⟨rfl, rfl, rfl⟩ (by decide)⟩

end EarbudFirmware.Ble
