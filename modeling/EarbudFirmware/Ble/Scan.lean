import EarbudFirmware.Ble.ModeSwitch

/-!
# The last scan request

Requests to start and to stop the scan leave separate flags behind while BLE is busy, and a start is
served first. What the posted and pending operations will leave the stack scanning with is a
function of the state, which the operations keep.

## Main definitions

* `BleMode.settled` — what the stack will scan with when the operations are done
* `ScanPhase` — the scan activity, by the operation in progress
* `InOrder` — no start is requested while a stop is pending, and no list stops the scan

## Main results

* `ScanInv.step` — a step keeps what is settled to what was requested last
* `last_scan_wins` — in a quiet state the stack scans as the last call asked it to
-/

namespace EarbudFirmware.Ble

open Transition (Along)

variable {n : Nat} {s t : BleMode} {e : BleEvent}

/-- What the posted function or the operation in progress will leave the stack scanning with. -/
def BleMode.underWay (s : BleMode) : Option ScanParam :=
  match s.posted with
  | .startScan :: _ => some s.scanPendingInfo
  | .stopScanning :: _ => none
  | _ =>
    match s.bleActvAction with
    | .startingScan => some s.scanCurrentInfo
    | .stoppingScan => none
    | _ => s.scanning

/-- What the stack will scan with when the posted and pending operations are done. A pending stop
is served behind a pending start. -/
def BleMode.settled (s : BleMode) : Option ScanParam :=
  if s.scanHasPendingStopOp then none
  else if s.scanHasPendingOp then some s.scanPendingInfo
  else s.underWay

/-- The operation in progress is not about the scan. -/
def BleMode.NoScanAction (s : BleMode) : Prop :=
  s.bleActvAction ≠ .startingScan ∧ s.bleActvAction ≠ .stoppingScan

/-- The scan activity and its command in flight: off, on, on its way up, also over a restart, and on
its way down. -/
inductive ScanPhase (s : BleMode) : Prop
  | off (ha : s.NoScanAction) (hactv : s.scanActv = none) (hcmds : s.gapmCmds = [])
      (hrestart : s.needRestartScan = false) (hscan : s.scanning = none)
  | on (ha : s.NoScanAction) (hactv : s.scanActv = some .started) (hcmds : s.gapmCmds = [])
      (hrestart : s.needRestartScan = false) (hscan : s.scanning = some s.scanCurrentInfo)
  | creating (ha : s.bleActvAction = .startingScan) (hactv : s.scanActv = none)
      (hcmds : s.gapmCmds = [.create]) (hrestart : s.needRestartScan = false)
      (hparam : s.scanParam = s.scanCurrentInfo)
  | starting (ha : s.bleActvAction = .startingScan) (hactv : s.scanActv = some .starting)
      (hcmds : s.gapmCmds = [.start s.scanCurrentInfo]) (hrestart : s.needRestartScan = false)
  | restartStopping (ha : s.bleActvAction = .startingScan) (hactv : s.scanActv = some .stopping)
      (hcmds : s.gapmCmds = [.stop]) (hrestart : s.needRestartScan = true)
      (hparam : s.scanParam = s.scanCurrentInfo)
  | restartDeleting (ha : s.bleActvAction = .startingScan) (hactv : s.scanActv = some .deleting)
      (hcmds : s.gapmCmds = [.delete]) (hrestart : s.needRestartScan = true)
      (hparam : s.scanParam = s.scanCurrentInfo)
  | stopping (ha : s.bleActvAction = .stoppingScan) (hactv : s.scanActv = some .stopping)
      (hcmds : s.gapmCmds = [.stop]) (hrestart : s.needRestartScan = false)
  | deleting (ha : s.bleActvAction = .stoppingScan) (hactv : s.scanActv = some .deleting)
      (hcmds : s.gapmCmds = [.delete]) (hrestart : s.needRestartScan = false)

/-- No start is requested while a stop is pending, and no white list of an operation in progress
finds the scan started. -/
def InOrder (s : BleMode) : BleEvent → Prop
  | .startScan _ => s.scanHasPendingStopOp = false
  | .appmSetWhiteList => s.scanActv ≠ some .started
  | _ => True

/-- The stack does not refuse to start the scan. -/
def StartSucceeds (s : BleMode) (e : BleEvent) : Prop :=
  ∀ p cmds, s.gapmCmds = .start p :: cmds → e ≠ .gapmComplete false

/-- What is settled is what the last call asked for. -/
structure ScanInv (s : BleMode) : Prop where
  dispatched : Dispatched s
  phase : ScanPhase s
  settled : s.settled = s.requestedScan

/-! ### What is settled -/

theorem noScanAction_of_idle (h : s.bleActvAction = .idle) : s.NoScanAction := by
  constructor <;> rw [h] <;> decide

/-- Without an operation on the scan, it stays as it is. -/
theorem underWay_of_noScanAction (ha : s.NoScanAction)
    (hp : ∀ f fs, s.posted = f :: fs → f ≠ .startScan ∧ f ≠ .stopScanning) :
    s.underWay = s.scanning := by
  unfold BleMode.underWay
  split
  · rename_i fs hposted
    exact absurd rfl (hp _ fs hposted).1
  · rename_i fs hposted
    exact absurd rfl (hp _ fs hposted).2
  · split
    · rename_i haction
      exact absurd haction ha.1
    · rename_i haction
      exact absurd haction ha.2
    · rfl

theorem underWay_of_nil (ha : s.NoScanAction) (hp : s.posted = []) : s.underWay = s.scanning :=
  underWay_of_noScanAction ha fun f fs h => by
    rw [hp] at h
    cases h

theorem underWay_of_single {f : BtFunction} (ha : s.NoScanAction) (hp : s.posted = [f])
    (hf : f ≠ .startScan ∧ f ≠ .stopScanning) : s.underWay = s.scanning :=
  underWay_of_noScanAction ha fun g fs h => by
    rw [hp] at h
    rw [← (List.cons.inj h).1]
    exact hf

theorem underWay_of_starting (ha : s.bleActvAction = .startingScan) (hp : s.posted = []) :
    s.underWay = some s.scanCurrentInfo := by
  rw [BleMode.underWay, hp, ha]

theorem underWay_of_stopping (ha : s.bleActvAction = .stoppingScan) (hp : s.posted = []) :
    s.underWay = none := by
  rw [BleMode.underWay, hp, ha]

/-- The flags come before what is under way. -/
theorem settled_congr (hstop : t.scanHasPendingStopOp = s.scanHasPendingStopOp)
    (hop : t.scanHasPendingOp = s.scanHasPendingOp)
    (hinfo : t.scanPendingInfo = s.scanPendingInfo) (h : t.underWay = s.underWay) :
    t.settled = s.settled := by
  rw [BleMode.settled, BleMode.settled, hstop, hop, hinfo, h]

/-! ### The next operation -/

/-- The scan is off or on. -/
structure Resting (s : BleMode) : Prop where
  cmds : s.gapmCmds = []
  restart : s.needRestartScan = false
  actv : s.scanActv = none ∧ s.scanning = none ∨
    s.scanActv = some .started ∧ s.scanning = some s.scanCurrentInfo

theorem Resting.phase (h : Resting s) (ha : s.NoScanAction) : ScanPhase s := by
  rcases h.actv with ⟨hactv, hscan⟩ | ⟨hactv, hscan⟩
  · exact .off ha hactv h.cmds h.restart hscan
  · exact .on ha hactv h.cmds h.restart hscan

theorem ScanPhase.resting (h : ScanPhase s) (ha : s.NoScanAction) : Resting s := by
  cases h with
  | off _ hactv hcmds hrestart hscan => exact ⟨hcmds, hrestart, .inl ⟨hactv, hscan⟩⟩
  | on _ hactv hcmds hrestart hscan => exact ⟨hcmds, hrestart, .inr ⟨hactv, hscan⟩⟩
  | creating haction | starting haction => exact absurd haction ha.1
  | restartStopping haction | restartDeleting haction => exact absurd haction ha.1
  | stopping haction | deleting haction => exact absurd haction ha.2

/-- Posting the next operation settles nothing else. -/
theorem NextOp.settled (h : NextOp s t) (hp : s.posted = []) (hidle : s.bleActvAction = .idle) :
    t.settled = s.settled := by
  have ha := noScanAction_of_idle hidle
  have hnow := underWay_of_nil ha hp
  cases h with
  | other f hf =>
    refine settled_congr rfl rfl rfl ?_
    rw [hnow]
    exact underWay_of_single ha (by rw [hp]; rfl) hf
  | startScan h =>
    unfold BleMode.settled
    rw [h]
    simp [BleMode.underWay, hp]
  | stopScan h hstop =>
    unfold BleMode.settled
    rw [h, hstop]
    simp [BleMode.underWay, hp]
  | free =>
    refine settled_congr rfl rfl rfl ?_
    rw [hnow]
    exact underWay_of_nil ha hp

theorem NextOp.resting (h : NextOp s t) (hs : Resting s) : Resting t := by
  cases h <;> exact ⟨hs.cmds, hs.restart, hs.actv⟩

theorem NextOp.noScanAction (h : NextOp s t) (ha : s.NoScanAction) : t.NoScanAction := by
  cases h <;> exact ha

theorem NextOp.requestedScan (h : NextOp s t) : t.requestedScan = s.requestedScan := by
  cases h <;> rfl

/-- The operation in progress ends, with the scan off or on. -/
theorem scanInv_next {idx : UInt8} (h : NextOp { s with
      bleActvAction := .idle
      bleOpActvIdx := idx } t) (hbusy : s.bleIsBusy = true) (hp : s.posted = [])
    (hrest : Resting s)
    (hsettled : { s with
      bleActvAction := .idle
      bleOpActvIdx := idx }.settled = s.requestedScan) : ScanInv t := by
  refine ⟨Dispatched.next h hp rfl hbusy, ?_, ?_⟩
  · apply Resting.phase
    · exact h.resting ⟨hrest.cmds, hrest.restart, hrest.actv⟩
    · exact h.noScanAction (noScanAction_of_idle rfl)
  · rw [h.settled hp rfl, h.requestedScan]
    exact hsettled

theorem scanInv_executePendingOp {a : ActvAction} {i : UInt8} (ha : a = s.bleActvAction)
    (hadv : a ≠ .stoppingAdv) (hbusy : s.bleIsBusy = true) (hp : s.posted = [])
    (hrest : Resting s)
    (hsettled : ∀ idx, { s with
      bleActvAction := .idle
      bleOpActvIdx := idx }.settled = s.requestedScan) :
    ScanInv (s.executePendingOp n a i) := by
  obtain ⟨idx, hnext⟩ := @executePendingOp_of_eq n s a i ha hadv
  exact scanInv_next hnext hbusy hp hrest (hsettled idx)

/-- An operation ends that is not about the scan. -/
theorem ScanInv.next (hs : ScanInv s) (ha : s.NoScanAction) (hbusy : s.bleIsBusy = true)
    (hp : s.posted = []) {idx : UInt8}
    (h : NextOp { s with
      bleActvAction := .idle
      bleOpActvIdx := idx } t) : ScanInv t := by
  refine scanInv_next h hbusy hp (hs.phase.resting ha) ?_
  rw [← hs.settled]
  refine settled_congr rfl rfl rfl ?_
  rw [underWay_of_nil ha hp]
  exact underWay_of_nil (noScanAction_of_idle rfl) hp

/-! ### Steps -/

/-- A step that does not touch the scan, its flags or what was requested. -/
structure ScanKept (s t : BleMode) : Prop where
  actv : t.scanActv = s.scanActv
  cmds : t.gapmCmds = s.gapmCmds
  restart : t.needRestartScan = s.needRestartScan
  scanning : t.scanning = s.scanning
  current : t.scanCurrentInfo = s.scanCurrentInfo
  flags : t.scanHasPendingOp = s.scanHasPendingOp ∧
    t.scanHasPendingStopOp = s.scanHasPendingStopOp ∧ t.scanPendingInfo = s.scanPendingInfo
  requested : t.requestedScan = s.requestedScan

theorem ScanKept.resting (h : ScanKept s t) (hs : Resting s) : Resting t := by
  refine ⟨h.cmds.trans hs.cmds, h.restart.trans hs.restart, ?_⟩
  rw [h.actv, h.scanning, h.current]
  exact hs.actv

/-- Another operation comes into progress or out of it. -/
theorem ScanKept.scanInv (h : ScanKept s t) (hs : ScanInv s) (ht : Dispatched t)
    (ha : s.NoScanAction) (ha' : t.NoScanAction) (hunder : t.underWay = s.underWay) :
    ScanInv t where
  dispatched := ht
  phase := (h.resting (hs.phase.resting ha)).phase ha'
  settled := by
    rw [settled_congr h.flags.2.1 h.flags.1 h.flags.2.2 hunder, h.requested]
    exact hs.settled

theorem phase_congr (hs : ScanPhase s) (haction : t.bleActvAction = s.bleActvAction)
    (hactv : t.scanActv = s.scanActv) (hcmds : t.gapmCmds = s.gapmCmds)
    (hrestart : t.needRestartScan = s.needRestartScan) (hscan : t.scanning = s.scanning)
    (hcurrent : t.scanCurrentInfo = s.scanCurrentInfo) (hparam : t.scanParam = s.scanParam) :
    ScanPhase t := by
  have hno : s.NoScanAction → t.NoScanAction := by
    rintro ⟨h, h'⟩
    exact ⟨haction ▸ h, haction ▸ h'⟩
  cases hs with
  | off ha h1 h2 h3 h4 =>
    exact .off (hno ha) (hactv.trans h1) (hcmds.trans h2) (hrestart.trans h3) (hscan.trans h4)
  | on ha h1 h2 h3 h4 =>
    refine .on (hno ha) (hactv.trans h1) (hcmds.trans h2) (hrestart.trans h3) ?_
    rw [hscan, hcurrent, h4]
  | creating ha h1 h2 h3 h4 =>
    refine .creating (haction.trans ha) (hactv.trans h1) (hcmds.trans h2) (hrestart.trans h3) ?_
    rw [hparam, hcurrent, h4]
  | starting ha h1 h2 h3 =>
    refine .starting (haction.trans ha) (hactv.trans h1) ?_ (hrestart.trans h3)
    rw [hcmds, hcurrent, h2]
  | restartStopping ha h1 h2 h3 h4 =>
    refine .restartStopping (haction.trans ha) (hactv.trans h1) (hcmds.trans h2)
      (hrestart.trans h3) ?_
    rw [hparam, hcurrent, h4]
  | restartDeleting ha h1 h2 h3 h4 =>
    refine .restartDeleting (haction.trans ha) (hactv.trans h1) (hcmds.trans h2)
      (hrestart.trans h3) ?_
    rw [hparam, hcurrent, h4]
  | stopping ha h1 h2 h3 =>
    exact .stopping (haction.trans ha) (hactv.trans h1) (hcmds.trans h2) (hrestart.trans h3)
  | deleting ha h1 h2 h3 =>
    exact .deleting (haction.trans ha) (hactv.trans h1) (hcmds.trans h2) (hrestart.trans h3)

/-- A request, also one for the scan: it leaves the activity alone, and a function is posted only
when no flag is set. -/
theorem scanInv_request {u : BleMode} {f : BtFunction} (hs : Dispatched s) (hphase : ScanPhase s)
    (hmode : u.bleIsBusy = s.bleIsBusy ∧ u.posted = s.posted ∧
      u.bleActvAction = s.bleActvAction)
    (hu : ScanPhase u) (hbusy : s.bleIsBusy = true → u.settled = u.requestedScan)
    (hfree : s.posted = [] → s.bleActvAction = .idle → s.scanHasPendingOp = false →
      s.scanHasPendingStopOp = false →
      { s with
        bleIsBusy := true
        posted := [f] }.settled = s.requestedScan) : ScanInv (s.request f u) := by
  have hdispatched := @Dispatched.request s f u hs hmode.1 hmode.2.1 hmode.2.2
  refine ⟨hdispatched, ?_, ?_⟩
  · rw [BleMode.request]
    split
    · exact hu
    · exact phase_congr hphase rfl rfl rfl rfl rfl rfl rfl
  · rw [BleMode.request]
    split
    · exact hbusy ‹_›
    · rename_i hb
      have h := hs.free (eq_false_of_ne_true hb)
      have hpost : ({ s with bleIsBusy := true } : BleMode).post f = { s with
          bleIsBusy := true
          posted := [f] } := by
        rw [BleMode.post, h.1]
        rfl
      rw [hpost]
      exact hfree h.1 h.2.1 h.2.2.1 h.2.2.2.1

/-- A request that is not about the scan. -/
theorem ScanInv.request {u : BleMode} {f : BtFunction} (hs : ScanInv s)
    (hf : f ≠ .startScan ∧ f ≠ .stopScanning)
    (hmode : u.bleIsBusy = s.bleIsBusy ∧ u.posted = s.posted ∧
      u.bleActvAction = s.bleActvAction)
    (hkept : ScanKept s u) (hparam : u.scanParam = s.scanParam) : ScanInv (s.request f u) := by
  refine scanInv_request hs.dispatched hs.phase hmode ?_ (fun _ => ?_) fun hp hidle _ _ => ?_
  · exact phase_congr hs.phase hmode.2.2 hkept.actv hkept.cmds hkept.restart hkept.scanning
      hkept.current hparam
  · have hunder : u.underWay = s.underWay := by
      unfold BleMode.underWay
      rw [hmode.2.1, hmode.2.2, hkept.scanning, hkept.current, hkept.flags.2.2]
    rw [settled_congr hkept.flags.2.1 hkept.flags.1 hkept.flags.2.2 hunder, hkept.requested]
    exact hs.settled
  · rw [← hs.settled]
    refine settled_congr rfl rfl rfl ?_
    have ha := noScanAction_of_idle hidle
    rw [underWay_of_nil ha hp]
    exact underWay_of_single ha rfl hf

/-- A call of `app_ble_start_scan` while no stop is pending. -/
theorem ScanInv.startScan (hs : ScanInv s) (hstop : s.scanHasPendingStopOp = false)
    (p : ScanParam) (ht : bleStep n s (.startScan p) = some t) : ScanInv t := by
  obtain rfl := Option.some.inj ht
  refine scanInv_request ?_ ?_ ⟨rfl, rfl, rfl⟩ ?_ (fun _ => ?_) fun _ _ hop _ => ?_
  · exact hs.dispatched.congr rfl rfl rfl rfl rfl rfl
  · exact phase_congr hs.phase rfl rfl rfl rfl rfl rfl rfl
  · exact phase_congr hs.phase rfl rfl rfl rfl rfl rfl rfl
  · simp [BleMode.settled, hstop]
  · change s.scanHasPendingOp = false at hop
    simp [BleMode.settled, hstop, hop, BleMode.underWay]

/-- A call of `app_ble_stop_scan`. -/
theorem ScanInv.stopScan (hs : ScanInv s) (ht : bleStep n s .stopScan = some t) : ScanInv t := by
  obtain rfl := Option.some.inj ht
  refine scanInv_request ?_ ?_ ⟨rfl, rfl, rfl⟩ ?_ (fun _ => ?_) fun _ _ hop hstop => ?_
  · exact hs.dispatched.congr rfl rfl rfl rfl rfl rfl
  · exact phase_congr hs.phase rfl rfl rfl rfl rfl rfl rfl
  · exact phase_congr hs.phase rfl rfl rfl rfl rfl rfl rfl
  · simp [BleMode.settled]
  · change s.scanHasPendingOp = false at hop
    change s.scanHasPendingStopOp = false at hstop
    simp [BleMode.settled, hstop, hop, BleMode.underWay]

/-! ### A posted function runs -/

/-- A function that is not about the scan is taken from the thread. -/
theorem ScanInv.pop (hs : ScanInv s) {f : BtFunction} (hp : s.posted = [f])
    (hf : f ≠ .startScan ∧ f ≠ .stopScanning) : ScanInv { s with posted := [] } := by
  obtain ⟨-, hidle, hbusy⟩ := hs.dispatched.of_posted hp
  have ha := noScanAction_of_idle hidle
  refine ⟨Dispatched.of_busy hbusy (.inl rfl), ?_, ?_⟩
  · exact phase_congr hs.phase rfl rfl rfl rfl rfl rfl rfl
  · change _ = s.requestedScan
    rw [← hs.settled]
    refine settled_congr rfl rfl rfl ?_
    rw [underWay_of_single ha hp hf]
    exact underWay_of_nil ha rfl

/-- Another operation begins. -/
theorem ScanInv.begin {a : ActvAction} (hs : ScanInv s) (hidle : s.bleActvAction = .idle)
    (hp : s.posted = []) (ht : Dispatched t) (hkept : ScanKept s t) (hp' : t.posted = [])
    (haction : t.bleActvAction = a) (ha' : a ≠ .startingScan ∧ a ≠ .stoppingScan) :
    ScanInv t := by
  have ha := noScanAction_of_idle hidle
  have hno : t.NoScanAction := by
    rw [← haction] at ha'
    exact ha'
  refine hkept.scanInv hs ht ha hno ?_
  rw [underWay_of_nil ha hp, underWay_of_nil hno hp', hkept.scanning]

/-- `app_ble_start_adv` finds nothing to do. -/
theorem ScanInv.nothing (hs : ScanInv s) (hidle : s.bleActvAction = .idle)
    (hbusy : s.bleIsBusy = true) (hp : s.posted = []) :
    ScanInv (s.executePendingOp n .idle 0xFF) := by
  obtain ⟨idx, hnext⟩ := @executePendingOp_of_eq n s .idle 0xFF hidle.symm (by decide)
  exact hs.next (noScanAction_of_idle hidle) hbusy hp hnext

/-- The activity is created, started anew, or restarted over a stop. -/
theorem scanInv_appmStartScanning (hd : Dispatched s) (ha : s.bleActvAction = .startingScan)
    (hcmds : s.gapmCmds = []) (hrestart : s.needRestartScan = false)
    (hactv : s.scanActv = none ∨ s.scanActv = some .started)
    (hsettled : s.settled = s.requestedScan) :
    ScanInv (s.appmStartScanning n s.scanCurrentInfo) := by
  have hdispatched := @Dispatched.appmStartScanning n s hd s.scanCurrentInfo
  rcases hactv with hnone | hstarted
  · rw [appmStartScanning_of_none hnone] at hdispatched ⊢
    refine ⟨hdispatched, .creating ha hnone ?_ hrestart rfl, hsettled⟩
    change s.gapmCmds ++ _ = _
    rw [hcmds]
    rfl
  · rw [appmStartScanning_of_started hstarted] at hdispatched ⊢
    split at hdispatched
    · -- another own address: the activity goes down and comes up again
      rw [if_pos ‹_›]
      refine ⟨hdispatched, .restartStopping ha rfl ?_ rfl rfl, hsettled⟩
      change s.gapmCmds ++ _ = _
      rw [hcmds]
      rfl
    · rw [if_neg ‹_›]
      refine ⟨hdispatched, .starting ha rfl ?_ hrestart, hsettled⟩
      change s.gapmCmds ++ _ = _
      rw [hcmds]
      rfl

/-- `ble_start_scan` runs. -/
theorem ScanInv.bleStartScan (hs : ScanInv s) (hp : s.posted = [.startScan]) :
    ScanInv ({ s with posted := [] }.bleStartScan n) := by
  obtain ⟨-, hidle, hbusy⟩ := hs.dispatched.of_posted hp
  have ha := noScanAction_of_idle hidle
  have hrest := hs.phase.resting ha
  have hunder : s.underWay = some s.scanPendingInfo := by rw [BleMode.underWay, hp]
  unfold BleMode.bleStartScan
  split
  · rename_i hsame
    have hactv : s.scanActv = some .started := hsame.1
    have hinfo : s.scanCurrentInfo = s.scanPendingInfo := hsame.2
    apply scanInv_executePendingOp
    · exact hidle.symm
    · decide
    · exact hbusy
    · rfl
    · exact ⟨hrest.cmds, hrest.restart, hrest.actv⟩
    · intro idx
      change _ = s.requestedScan
      rw [← hs.settled]
      refine settled_congr rfl rfl rfl ?_
      rw [hunder, ← hinfo]
      have hscanning : s.scanning = some s.scanCurrentInfo := by
        rcases hrest.actv with ⟨hnone, -⟩ | ⟨-, hscan⟩
        · rw [hactv] at hnone
          cases hnone
        · exact hscan
      rw [← hscanning]
      exact underWay_of_nil (noScanAction_of_idle rfl) rfl
  · apply scanInv_appmStartScanning
    · exact Dispatched.setActvAction rfl hbusy
    · rfl
    · exact hrest.cmds
    · exact hrest.restart
    · exact hrest.actv.imp And.left And.left
    · change _ = s.requestedScan
      rw [← hs.settled]
      refine settled_congr rfl rfl rfl ?_
      rw [hunder]
      exact underWay_of_starting rfl rfl

/-- The activity is stopped, or there is nothing to stop. -/
theorem scanInv_appmStopScanning (hd : Dispatched s) (ha : s.bleActvAction = .stoppingScan)
    (hrest : Resting s) (hsettled : s.settled = s.requestedScan) :
    ScanInv (s.appmStopScanning n) := by
  have hdispatched := @Dispatched.appmStopScanning n s hd
  obtain ⟨hbusy, hp⟩ := hd.busy_of_action (by rw [ha]; exact ActvAction.noConfusion)
  rcases hrest.actv with ⟨hnone, hscan⟩ | ⟨hstarted, -⟩
  · rw [appmStopScanning_of_none hnone]
    refine scanInv_executePendingOp ha.symm (by decide) hbusy hp hrest fun idx => ?_
    rw [← hsettled]
    refine settled_congr rfl rfl rfl ?_
    rw [underWay_of_stopping ha hp, ← hscan]
    exact underWay_of_nil (noScanAction_of_idle rfl) hp
  · rw [appmStopScanning_of_started hstarted] at hdispatched ⊢
    refine ⟨hdispatched, .stopping ha rfl ?_ hrest.restart, hsettled⟩
    change s.gapmCmds ++ _ = _
    rw [hrest.cmds]
    rfl

/-- `ble_stop_scanning` runs. -/
theorem ScanInv.bleStopScanning (hs : ScanInv s) (hp : s.posted = [.stopScanning]) :
    ScanInv ({ s with posted := [] }.bleStopScanning n) := by
  obtain ⟨-, hidle, hbusy⟩ := hs.dispatched.of_posted hp
  have hrest := hs.phase.resting (noScanAction_of_idle hidle)
  apply scanInv_appmStopScanning
  · exact Dispatched.setActvAction rfl hbusy
  · rfl
  · exact ⟨hrest.cmds, hrest.restart, hrest.actv⟩
  · change _ = s.requestedScan
    rw [← hs.settled]
    refine settled_congr rfl rfl rfl ?_
    have hunder : s.underWay = none := by rw [BleMode.underWay, hp]
    rw [hunder]
    exact underWay_of_stopping rfl rfl

theorem ScanInv.run (hs : ScanInv s) {f : BtFunction} {fs : List BtFunction}
    (hposted : s.posted = f :: fs) {adv : AdvWork}
    (ht : { s with posted := fs }.call n adv f = some t) : ScanInv t := by
  obtain ⟨rfl, hidle, hbusy⟩ := hs.dispatched.of_posted hposted
  have hdispatched := Dispatched.call ht rfl hidle hbusy
  cases f with
  | startScan =>
    obtain rfl := Option.some.inj ht
    exact hs.bleStartScan hposted
  | stopScanning =>
    obtain rfl := Option.some.inj ht
    exact hs.bleStopScanning hposted
  | startConnect =>
    simp only [BleMode.call, Option.map_eq_some_iff] at ht
    obtain ⟨index, -, rfl⟩ := ht
    refine (hs.pop hposted (by decide)).begin hidle rfl hdispatched ?_ rfl rfl
      ⟨ActvAction.noConfusion, ActvAction.noConfusion⟩
    exact ⟨rfl, rfl, rfl, rfl, rfl, ⟨rfl, rfl, rfl⟩, rfl⟩
  | startAdv =>
    have hpop := hs.pop hposted (by decide)
    cases adv with
    | nothing =>
      obtain rfl := Option.some.inj ht
      exact hpop.nothing hidle hbusy rfl
    | start | stop =>
      obtain rfl := Option.some.inj ht
      refine hpop.begin hidle rfl hdispatched ?_ rfl rfl
        ⟨ActvAction.noConfusion, ActvAction.noConfusion⟩
      exact ⟨rfl, rfl, rfl, rfl, rfl, ⟨rfl, rfl, rfl⟩, rfl⟩
  | stopConnecting | setAllWhiteList | addReslovingList =>
    obtain rfl := Option.some.inj ht
    refine (hs.pop hposted (by decide)).begin hidle rfl hdispatched ?_ rfl rfl
      ⟨ActvAction.noConfusion, ActvAction.noConfusion⟩
    exact ⟨rfl, rfl, rfl, rfl, rfl, ⟨rfl, rfl, rfl⟩, rfl⟩
  | disconnect conIdx =>
    obtain rfl := Option.some.inj ht
    have hf : BtFunction.disconnect conIdx ≠ .startScan ∧
        BtFunction.disconnect conIdx ≠ .stopScanning :=
      ⟨BtFunction.noConfusion, BtFunction.noConfusion⟩
    refine (hs.pop hposted hf).begin hidle rfl hdispatched ?_ rfl rfl
      ⟨ActvAction.noConfusion, ActvAction.noConfusion⟩
    exact ⟨rfl, rfl, rfl, rfl, rfl, ⟨rfl, rfl, rfl⟩, rfl⟩

/-! ### The stack completes a command -/

/-- An operation on the scan is still in progress. -/
theorem ScanInv.goOn (hs : ScanInv s) (ha : s.bleActvAction ≠ .idle) (ht : ScanPhase t)
    (hmode : t.bleIsBusy = s.bleIsBusy ∧ t.posted = s.posted ∧
      t.bleActvAction = s.bleActvAction)
    (hsettled : t.settled = s.settled) (hrequested : t.requestedScan = s.requestedScan) :
    ScanInv t := by
  have hbusy := hs.dispatched.busy_of_action ha
  refine ⟨Dispatched.of_busy (hmode.1.trans hbusy.1) (.inl (hmode.2.1.trans hbusy.2)), ht, ?_⟩
  rw [hsettled, hrequested]
  exact hs.settled

/-- The activity has been stopped and is deleted. -/
theorem gapmComplete_of_stopping {ok : Bool} (hactv : s.scanActv = some .stopping)
    (hcmds : s.gapmCmds = [.stop]) :
    s.gapmComplete n ok = { s with
      gapmCmds := [.delete]
      scanning := none
      scanActv := some .deleting } := by
  rw [gapmComplete_of_cons hcmds, BleMode.appmActvFsmNext, BleMode.completed, hactv]
  rfl

theorem ScanInv.gapmComplete (hs : ScanInv s) {ok : Bool}
    (hok : ∀ p cmds, s.gapmCmds = .start p :: cmds → ok = true) :
    ScanInv (s.gapmComplete n ok) := by
  cases hs.phase with
  | off _ _ hcmds | on _ _ hcmds =>
    rw [gapmComplete_of_nil hcmds]
    exact hs
  | creating ha hactv hcmds hrestart hparam =>
    rw [gapmComplete_of_cons hcmds]
    refine hs.goOn (by rw [ha]; decide) (.starting ha rfl ?_ hrestart) ⟨rfl, rfl, rfl⟩ rfl rfl
    exact congrArg (fun p => [ScanCmd.start p]) hparam
  | starting ha hactv hcmds hrestart =>
    obtain rfl := hok _ _ hcmds
    obtain ⟨hbusy, hp⟩ := hs.dispatched.busy_of_action (by rw [ha]; decide)
    have hstarted : s.gapmComplete n true = ({ s with
        gapmCmds := []
        scanning := some s.scanCurrentInfo
        scanActv := some .started } : BleMode).executePendingOp n .startingScan 0xFF := by
      rw [gapmComplete_of_cons hcmds, BleMode.appmActvFsmNext, BleMode.completed, hactv]
      rfl
    rw [hstarted]
    apply scanInv_executePendingOp
    · exact ha.symm
    · decide
    · exact hbusy
    · exact hp
    · exact ⟨rfl, hrestart, .inr ⟨rfl, rfl⟩⟩
    · intro idx
      change _ = s.requestedScan
      rw [← hs.settled]
      refine settled_congr rfl rfl rfl ?_
      rw [underWay_of_starting ha hp]
      exact underWay_of_nil (noScanAction_of_idle rfl) hp
  | restartStopping ha hactv hcmds hrestart hparam =>
    obtain ⟨-, hp⟩ := hs.dispatched.busy_of_action (by rw [ha]; decide)
    rw [gapmComplete_of_stopping hactv hcmds]
    refine hs.goOn (by rw [ha]; decide) (.restartDeleting ha rfl rfl hrestart hparam)
      ⟨rfl, rfl, rfl⟩ (settled_congr rfl rfl rfl ?_) rfl
    rw [underWay_of_starting ha hp]
    exact underWay_of_starting ha hp
  | restartDeleting ha hactv hcmds hrestart hparam =>
    obtain ⟨-, hp⟩ := hs.dispatched.busy_of_action (by rw [ha]; decide)
    have hcreate : s.gapmComplete n ok = { s with
        gapmCmds := [.create]
        scanning := none
        scanActv := none
        needRestartScan := false } := by
      rw [gapmComplete_of_cons hcmds, BleMode.appmActvFsmNext, BleMode.completed, hactv]
      dsimp only
      rw [if_pos hrestart]
      exact appmStartScanning_of_none rfl _
    rw [hcreate]
    refine hs.goOn (by rw [ha]; decide) (.creating ha rfl rfl rfl hparam)
      ⟨rfl, rfl, rfl⟩ (settled_congr rfl rfl rfl ?_) rfl
    rw [underWay_of_starting ha hp]
    exact underWay_of_starting ha hp
  | stopping ha hactv hcmds hrestart =>
    obtain ⟨-, hp⟩ := hs.dispatched.busy_of_action (by rw [ha]; decide)
    rw [gapmComplete_of_stopping hactv hcmds]
    refine hs.goOn (by rw [ha]; decide) (.deleting ha rfl rfl hrestart)
      ⟨rfl, rfl, rfl⟩ (settled_congr rfl rfl rfl ?_) rfl
    rw [underWay_of_stopping ha hp]
    exact underWay_of_stopping ha hp
  | deleting ha hactv hcmds hrestart =>
    obtain ⟨hbusy, hp⟩ := hs.dispatched.busy_of_action (by rw [ha]; decide)
    have hoff : s.gapmComplete n ok = ({ s with
        gapmCmds := []
        scanning := none
        scanActv := none } : BleMode).executePendingOp n .stoppingScan 0xFF := by
      rw [gapmComplete_of_cons hcmds, BleMode.appmActvFsmNext, BleMode.completed, hactv]
      dsimp only
      rw [if_neg (by rw [hrestart]; decide)]
    rw [hoff]
    apply scanInv_executePendingOp
    · exact ha.symm
    · decide
    · exact hbusy
    · exact hp
    · exact ⟨rfl, hrestart, .inl ⟨rfl, rfl⟩⟩
    · intro idx
      change _ = s.requestedScan
      rw [← hs.settled]
      refine settled_congr rfl rfl rfl ?_
      rw [underWay_of_stopping ha hp]
      exact underWay_of_nil (noScanAction_of_idle rfl) hp

/-! ### Executions -/

theorem scanInv_init : ScanInv .init :=
  ⟨.init, .off ⟨by decide, by decide⟩ rfl rfl rfl rfl, rfl⟩

/-- A change that is not about the scan or the posted functions. -/
theorem ScanInv.congr (hs : ScanInv s) (hkept : ScanKept s t)
    (hmode : t.bleIsBusy = s.bleIsBusy ∧ t.posted = s.posted ∧
      t.bleActvAction = s.bleActvAction)
    (hlist : t.pendingSetWhiteList = s.pendingSetWhiteList)
    (hparam : t.scanParam = s.scanParam) : ScanInv t where
  dispatched := hs.dispatched.congr hmode.1 hmode.2.1 hmode.2.2 hkept.flags.1 hkept.flags.2.1 hlist
  phase := phase_congr hs.phase hmode.2.2 hkept.actv hkept.cmds hkept.restart hkept.scanning
    hkept.current hparam
  settled := by
    have hunder : t.underWay = s.underWay := by
      unfold BleMode.underWay
      rw [hmode.2.1, hmode.2.2, hkept.scanning, hkept.current, hkept.flags.2.2]
    rw [settled_congr hkept.flags.2.1 hkept.flags.1 hkept.flags.2.2 hunder, hkept.requested]
    exact hs.settled

/-- The end of an operation that is not about the scan, also of one that was not in progress. -/
theorem ScanInv.finish (hs : ScanInv s) {a : ActvAction} (i : UInt8)
    (ha : ¬(a = .idle ∨ a = .startingScan ∨ a = .stoppingScan)) :
    ScanInv (s.executePendingOp n a i) := by
  rcases executePendingOp_cases s a i with hsame | ⟨haction, idx, hnext⟩
  · rw [hsame]
    exact hs
  · have hbusy := hs.dispatched.busy_of_action fun hidle => ha (.inl (haction.trans hidle))
    refine hs.next ⟨fun h => ?_, fun h => ?_⟩ hbusy.1 hbusy.2 hnext
    · exact ha (.inr (.inl (haction.trans h)))
    · exact ha (.inr (.inr (haction.trans h)))

/-- An event keeps what is settled to what was requested last. -/
theorem ScanInv.step (hs : ScanInv s) (he : InOrder s e) (hok : StartSucceeds s e)
    (ht : bleStep n s e = some t) : ScanInv t := by
  cases e with
  | startScan p => exact hs.startScan he p ht
  | stopScan => exact hs.stopScan ht
  | setWhiteList | clearWhiteList | clearAllWhiteList | startConnect =>
    obtain rfl := Option.some.inj ht
    refine ScanInv.request (hs.congr ?_ ⟨rfl, rfl, rfl⟩ rfl rfl)
      ⟨BtFunction.noConfusion, BtFunction.noConfusion⟩ ⟨rfl, rfl, rfl⟩ ?_ rfl
    · exact ⟨rfl, rfl, rfl, rfl, rfl, ⟨rfl, rfl, rfl⟩, rfl⟩
    · exact ⟨rfl, rfl, rfl, rfl, rfl, ⟨rfl, rfl, rfl⟩, rfl⟩
  | addReslovingList | cancelConnecting | startDisconnect | refreshAdv =>
    obtain rfl := Option.some.inj ht
    refine hs.request ⟨BtFunction.noConfusion, BtFunction.noConfusion⟩ ⟨rfl, rfl, rfl⟩ ?_ rfl
    exact ⟨rfl, rfl, rfl, rfl, rfl, ⟨rfl, rfl, rfl⟩, rfl⟩
  | run adv =>
    rw [bleStep] at ht
    split at ht
    · cases ht
    · exact hs.run ‹_› ht
  | finish a i =>
    rw [bleStep] at ht
    split at ht
    · cases ht
    · obtain rfl := Option.some.inj ht
      exact hs.finish i ‹_›
  | advStartingFailed i =>
    have hdispatched := hs.dispatched.step ht
    rw [bleStep] at ht
    split at ht
    · rename_i haction
      obtain rfl := Option.some.inj ht
      have ha : s.NoScanAction := by
        constructor <;> rw [haction] <;> exact ActvAction.noConfusion
      have hp := (hs.dispatched.busy_of_action (by rw [haction]; exact ActvAction.noConfusion)).2
      refine ScanKept.scanInv ?_ hs hdispatched ha ?_ ?_
      · exact ⟨rfl, rfl, rfl, rfl, rfl, ⟨rfl, rfl, rfl⟩, rfl⟩
      · exact ⟨ActvAction.noConfusion, ActvAction.noConfusion⟩
      · rw [underWay_of_nil ha hp]
        exact underWay_of_nil ⟨ActvAction.noConfusion, ActvAction.noConfusion⟩ hp
    · cases ht
  | appmSetWhiteList =>
    rw [bleStep] at ht
    split at ht
    · obtain rfl := Option.some.inj ht
      rw [if_neg he]
      exact hs
    · cases ht
  | gapmComplete ok =>
    obtain rfl := Option.some.inj ht
    refine hs.gapmComplete fun p cmds hcmds => ?_
    have hne := hok p cmds hcmds
    cases ok with
    | false => exact absurd rfl hne
    | true => rfl

/-- In a quiet state the scan is what is settled. -/
theorem ScanInv.scanning_eq (hs : ScanInv s) (hq : Quiet n s) : s.scanning = s.requestedScan := by
  rw [← hs.settled, BleMode.settled, hq.scanStop, hq.scan]
  exact (underWay_of_nil (noScanAction_of_idle hq.action) hq.posted).symm

/-- When no start is refused, no start is requested while a stop is pending, and no white list
finds the scan started, then in every quiet state the stack scans as the last of the calls to start
and to stop the scan asked it to. -/
theorem last_scan_wins {es : List BleEvent}
    (hes : Along (bleStep n) (fun s e => InOrder s e ∧ StartSucceeds s e) .init es)
    (hrun : es.foldlM (bleStep n) .init = some t) (hq : Quiet n t) :
    t.scanning = t.requestedScan := by
  have hinv := hes.preserves (fun s e t hs he ht => hs.step he.1 he.2 ht) hrun scanInv_init
  exact hinv.scanning_eq hq

/-- One start of the scan. -/
theorem last_scan_wins_started :
    ∃ t, [BleEvent.startScan ⟨0, 30, 60⟩, .run .nothing, .gapmComplete true,
      .gapmComplete true].foldlM (bleStep 1) .init = some t ∧ t.scanning = some ⟨0, 30, 60⟩ := by
  refine ⟨_, rfl, @last_scan_wins 1 _ [.startScan ⟨0, 30, 60⟩, .run .nothing, .gapmComplete true,
    .gapmComplete true] ?_ rfl ?_⟩
  · have hok : ∀ (s : BleMode) (e : BleEvent), e ≠ .gapmComplete false → StartSucceeds s e :=
      fun _ _ he _ _ _ => he
    refine ⟨⟨rfl, hok _ _ (by decide)⟩, ?_⟩
    rintro _ ⟨rfl⟩
    refine ⟨⟨trivial, hok _ _ (by decide)⟩, ?_⟩
    rintro _ ⟨rfl⟩
    refine ⟨⟨trivial, hok _ _ (by decide)⟩, ?_⟩
    rintro _ ⟨rfl⟩
    exact ⟨⟨trivial, hok _ _ (by decide)⟩, fun _ _ => trivial⟩
  · exact ⟨rfl, rfl, rfl, rfl, rfl, rfl, rfl, rfl, rfl, fun _ _ => ⟨rfl, rfl⟩⟩

/-- While the advertising is refreshed, the scan is asked to stop and then to start. The start is
served first, and the stop behind it. -/
theorem pending_stop_wins :
    ∃ (es : List BleEvent) (t : BleMode), es.foldlM (bleStep 1) .init = some t ∧ Quiet 1 t ∧
      (∀ e ∈ es, e ≠ .gapmComplete false) ∧
      t.requestedScan = some ⟨0, 30, 60⟩ ∧ t.scanning = none := by
  refine ⟨[.refreshAdv, .stopScan, .startScan ⟨0, 30, 60⟩, .run .nothing, .run .nothing,
    .gapmComplete true, .gapmComplete true, .run .nothing, .gapmComplete true,
    .gapmComplete true], _, rfl, ?_, by decide, rfl, rfl⟩
  exact ⟨rfl, rfl, rfl, rfl, rfl, rfl, rfl, rfl, rfl, fun _ _ => ⟨rfl, rfl⟩⟩

end EarbudFirmware.Ble
