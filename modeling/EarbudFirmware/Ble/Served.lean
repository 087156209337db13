import EarbudFirmware.Ble.Serialised

/-!
# BLE operations are served

The posted functions run and the stack completes what they began, in any order. Nothing waits for
ever, also when the scan activity is stopped under an operation that starts it or does not start.

## Main definitions

* `Serves` — the events that are no requests

## Main results

* `Serialised.step` — every event keeps the invariant
* `Serialised.serves` — every event that is no request leaves less to do
* `one_operation_at_a_time` — busy, posted and in progress, in every run
* `all_are_served` — from every state, in every order
-/

namespace EarbudFirmware.Ble

open Transition (Along)

variable {n : Nat} {s t : BleMode} {e : BleEvent} {a : ActvAction} {ok : Bool}

/-! ### The stack completes a command -/

/-- A command that does not create the activity changes no more than what the stack scans with. -/
theorem completed_of_ne {cmd : ScanCmd} (h : cmd ≠ .create) (cmds : List ScanCmd) (ok : Bool) :
    ∃ p, s.completed cmds ok cmd = { s with
      gapmCmds := cmds
      scanning := p } := by
  cases cmd with
  | create => exact absurd rfl h
  | start p => exact ⟨_, rfl⟩
  | stop | delete => exact ⟨none, rfl⟩

/-- A change of the scan activity only. -/
theorem Serialised.scan (h : Serialised n s) {v : Option ScanState} {r : Bool} {c : List ScanCmd}
    {o : Option ScanParam} {p : ScanParam} (hw : ScanWaits { s with
      scanActv := v
      needRestartScan := r
      gapmCmds := c
      scanning := o
      scanParam := p }) : Serialised n { s with
      scanActv := v
      needRestartScan := r
      gapmCmds := c
      scanning := o
      scanParam := p } where
  dispatched := h.dispatched.congr rfl rfl rfl rfl rfl rfl
  busy := h.busy
  quiet := h.quiet
  connect := h.connect
  waits := hw

theorem fsmNext_of_resting (h : s.scanActv = none ∨ s.scanActv = some .started) :
    s.appmActvFsmNext n ok = s := by
  unfold BleMode.appmActvFsmNext
  rcases h with h | h <;> simp only [h]

theorem fsmNext_of_stopping (h : s.scanActv = some .stopping) :
    s.appmActvFsmNext n ok = { s with
      scanActv := some .deleting
      gapmCmds := s.gapmCmds ++ [.delete] } := by
  unfold BleMode.appmActvFsmNext
  simp only [h]

theorem fsmNext_of_deleting (h : s.scanActv = some .deleting) :
    s.appmActvFsmNext n ok =
      if s.needRestartScan then
        { s with
          scanActv := none
          needRestartScan := false }.appmStartScanning n s.scanParam
      else { s with scanActv := none }.executePendingOp n .stoppingScan 0xFF := by
  unfold BleMode.appmActvFsmNext
  simp only [h]

/-- The activity goes down, unless it was started. -/
theorem fsmNext_of_starting (h : s.scanActv = some .starting) :
    s.appmActvFsmNext n ok =
      (if ok then { s with scanActv := some .started }
      else { s with
        scanActv := some .deleting
        gapmCmds := s.gapmCmds ++ [ScanCmd.delete] }).executePendingOp n .startingScan 0xFF := by
  unfold BleMode.appmActvFsmNext
  simp only [h]

/-- A completed command brings the activity on, or nothing waits for it. -/
theorem Serialised.gapmComplete (h : Serialised n s) (hcmds : s.gapmCmds ≠ []) (ok : Bool) :
    Serialised n (s.gapmComplete n ok) ∧ (s.gapmComplete n ok).toServe n < s.toServe n := by
  obtain ⟨cmd, cmds, hcmd⟩ := List.exists_cons_of_ne_nil hcmds
  rw [gapmComplete_of_cons hcmd]
  have hserve : s.toServe n = 40 * s.unposted n + 20 * s.posted.length + 2 * s.scanRank +
      (cmds.length + 1) + actionRank s.bleActvAction := by
    rw [BleMode.toServe, hcmd, List.length_cons]
  have hother : .create ∉ s.gapmCmds → cmd ≠ .create ∧ .create ∉ cmds := by
    rw [hcmd, List.mem_cons, not_or]
    exact fun hnot => ⟨Ne.symm hnot.1, hnot.2⟩
  have hdelete : .create ∉ cmds → .create ∉ cmds ++ [ScanCmd.delete] := by
    intro hnot hmem
    rcases List.mem_append.mp hmem with hmem | hmem
    · exact hnot hmem
    · exact ScanCmd.noConfusion (List.mem_singleton.mp hmem)
  have hflight : cmds ++ [ScanCmd.delete] ≠ [] := by simp
  cases h.waits with
  | resting start stop actv restart hcreate =>
    obtain ⟨hne, hnot⟩ := hother hcreate
    obtain ⟨p, hcompleted⟩ := completed_of_ne (s := s) hne cmds ok
    rw [hcompleted, fsmNext_of_resting (s := { s with
      gapmCmds := cmds
      scanning := p }) actv]
    refine ⟨h.scan (.resting start stop actv restart hnot), ?_⟩
    rw [hserve]
    change 40 * s.unposted n + 20 * s.posted.length + 2 * s.scanRank + cmds.length +
      actionRank s.bleActvAction < _
    omega
  | ending start actv restart hcreate inFlight =>
    obtain ⟨hne, hnot⟩ := hother hcreate
    obtain ⟨p, hcompleted⟩ := completed_of_ne (s := s) hne cmds ok
    rw [hcompleted]
    rcases actv with actv | actv
    · rw [fsmNext_of_stopping (s := { s with
        gapmCmds := cmds
        scanning := p }) actv]
      refine ⟨h.scan (.ending start (.inr rfl) restart (hdelete hnot) hflight), ?_⟩
      rw [hserve, BleMode.scanRank, actv]
      change 40 * s.unposted n + 20 * s.posted.length + 2 * (if s.needRestartScan then 4 else 1) +
        (cmds ++ [ScanCmd.delete]).length + actionRank s.bleActvAction < _
      rw [List.length_append, List.length_singleton]
      dsimp only
      rw [restart, if_neg Bool.false_ne_true, if_neg Bool.false_ne_true]
      omega
    · -- the activity is off, and who waits for that goes on
      rw [fsmNext_of_deleting (s := { s with
        gapmCmds := cmds
        scanning := p }) actv,
        if_neg (by rw [restart]; exact Bool.false_ne_true)]
      have hoff : ({ s with
          gapmCmds := cmds
          scanning := p
          scanActv := none } : BleMode).toServe n < s.toServe n := by
        rw [hserve]
        change 40 * s.unposted n + 20 * s.posted.length +
          2 * (if s.bleActvAction = .startingScan then 3 else 0) + cmds.length +
          actionRank s.bleActvAction < _
        rw [if_neg start]
        omega
      by_cases haction : s.bleActvAction = .stoppingScan
      · obtain ⟨hbusy, hp⟩ :=
          h.dispatched.busy_of_action (by rw [haction]; exact ActvAction.noConfusion)
        obtain ⟨hserialised, hle⟩ := executePendingOp_serialised (n := n) (i := 0xFF) (s := { s with
          gapmCmds := cmds
          scanning := p
          scanActv := none }) hp hbusy haction.symm ActvAction.noConfusion
          ⟨restart, hnot, .inl (.inl rfl)⟩
        exact ⟨hserialised, Nat.lt_of_le_of_lt (Nat.le_of_add_right_le hle) hoff⟩
      · dsimp only
        rw [executePendingOp_of_ne (s := { s with
          gapmCmds := cmds
          scanning := p
          scanActv := none }) (Ne.symm haction)]
        exact ⟨h.scan (.resting start haction (.inl rfl) restart hnot), hoff⟩
  | creating start actv restart stale others hlast =>
    have hrank : s.scanRank = 3 := by
      rw [BleMode.scanRank, actv]
      exact if_pos start
    rw [hrank] at hserve
    cases stale with
    | nil =>
      rw [hlast] at hcmd
      obtain ⟨rfl, rfl⟩ := List.cons.inj hcmd
      refine ⟨h.scan (.starting start rfl restart ?_ (List.cons_ne_nil _ _)), ?_⟩
      · exact fun hmem => ScanCmd.noConfusion (List.mem_singleton.mp hmem)
      · rw [hserve]
        change 40 * s.unposted n + 20 * s.posted.length + 2 * 2 + 1 +
          actionRank s.bleActvAction < _
        omega
    | cons c stale =>
      rw [hlast, List.cons_append] at hcmd
      obtain ⟨rfl, rfl⟩ := List.cons.inj hcmd
      rw [List.mem_cons, not_or] at others
      obtain ⟨p, hcompleted⟩ := completed_of_ne (s := s) (Ne.symm others.1)
        (stale ++ [.create]) ok
      rw [hcompleted, fsmNext_of_resting (s := { s with
        gapmCmds := stale ++ [.create]
        scanning := p }) (.inl actv)]
      refine ⟨h.scan (.creating start actv restart stale others.2 rfl), ?_⟩
      rw [hserve]
      change 40 * s.unposted n + 20 * s.posted.length + 2 * s.scanRank +
        (stale ++ [ScanCmd.create]).length + actionRank s.bleActvAction < _
      rw [hrank]
      omega
  | starting start actv restart hcreate inFlight =>
    obtain ⟨hne, hnot⟩ := hother hcreate
    obtain ⟨p, hcompleted⟩ := completed_of_ne (s := s) hne cmds ok
    obtain ⟨hbusy, hp⟩ := h.dispatched.busy_of_action (by rw [start]; exact ActvAction.noConfusion)
    rw [hcompleted, fsmNext_of_starting (s := { s with
      gapmCmds := cmds
      scanning := p }) actv]
    have hrank : s.scanRank = 2 := by rw [BleMode.scanRank, actv]
    rw [hrank] at hserve
    cases ok with
    | true =>
      rw [if_pos rfl]
      obtain ⟨hserialised, hle⟩ := executePendingOp_serialised (n := n) (i := 0xFF) (s := { s with
        gapmCmds := cmds
        scanning := p
        scanActv := some .started }) hp hbusy start.symm ActvAction.noConfusion
        ⟨restart, hnot, .inl (.inr rfl)⟩
      refine ⟨hserialised, Nat.lt_of_le_of_lt (Nat.le_of_add_right_le hle) ?_⟩
      rw [hserve]
      change 40 * s.unposted n + 20 * s.posted.length + 2 * 0 + cmds.length +
        actionRank s.bleActvAction < _
      omega
    | false =>
      rw [if_neg Bool.false_ne_true]
      obtain ⟨hserialised, hle⟩ := executePendingOp_serialised (n := n) (i := 0xFF) (s := { s with
        gapmCmds := cmds ++ [.delete]
        scanning := p
        scanActv := some .deleting }) hp hbusy start.symm ActvAction.noConfusion
        ⟨restart, hdelete hnot, .inr ⟨.inr rfl, hflight⟩⟩
      refine ⟨hserialised, Nat.lt_of_le_of_lt (Nat.le_of_add_right_le hle) ?_⟩
      rw [hserve]
      change 40 * s.unposted n + 20 * s.posted.length +
        2 * (if s.needRestartScan then 4 else 1) + (cmds ++ [ScanCmd.delete]).length +
        actionRank s.bleActvAction < _
      rw [restart, if_neg Bool.false_ne_true, List.length_append, List.length_singleton]
      omega
  | restarting start actv restart hcreate inFlight =>
    obtain ⟨hne, hnot⟩ := hother hcreate
    obtain ⟨p, hcompleted⟩ := completed_of_ne (s := s) hne cmds ok
    rw [hcompleted]
    rcases actv with actv | actv
    · rw [fsmNext_of_stopping (s := { s with
        gapmCmds := cmds
        scanning := p }) actv]
      refine ⟨h.scan (.restarting start (.inr rfl) restart (hdelete hnot) hflight), ?_⟩
      rw [hserve, BleMode.scanRank, actv]
      change 40 * s.unposted n + 20 * s.posted.length + 2 * (if s.needRestartScan then 4 else 1) +
        (cmds ++ [ScanCmd.delete]).length + actionRank s.bleActvAction < _
      rw [List.length_append, List.length_singleton]
      dsimp only
      rw [if_pos restart, if_pos restart]
      omega
    · -- down, and up again
      rw [fsmNext_of_deleting (s := { s with
        gapmCmds := cmds
        scanning := p }) actv,
        if_pos restart, appmStartScanning_of_none rfl]
      refine ⟨h.scan (.creating start rfl rfl cmds hnot rfl), ?_⟩
      rw [hserve, BleMode.scanRank, actv]
      change 40 * s.unposted n + 20 * s.posted.length +
        2 * (if s.bleActvAction = .startingScan then 3 else 0) + (cmds ++ [ScanCmd.create]).length +
        actionRank s.bleActvAction < _
      rw [List.length_append, List.length_singleton]
      dsimp only
      rw [if_pos start, if_pos restart]
      omega

/-! ### Events -/

/-- An operation ends that is not about the scan. -/
theorem Serialised.finish (h : Serialised n s)
    (ha : ¬(a = .idle ∨ a = .startingScan ∨ a = .stoppingScan)) (i : UInt8) :
    Serialised n (s.executePendingOp n a i) ∧
      (a = s.bleActvAction → (a = .stoppingAdv → i = s.bleOpActvIdx) →
        (s.executePendingOp n a i).toServe n < s.toServe n) := by
  rw [not_or, not_or] at ha
  by_cases haction : a = s.bleActvAction
  · by_cases hadv : a = .stoppingAdv → i = s.bleOpActvIdx
    · obtain ⟨hbusy, hp⟩ := h.dispatched.busy_of_action (haction ▸ ha.1)
      have hfree := h.waits.free (haction ▸ ha.2.1)
      obtain ⟨hserialised, hle⟩ := executePendingOp_serialised hp hbusy haction hadv hfree
      have hpos := actionRank_pos ha.1
      exact ⟨hserialised, fun _ _ => by omega⟩
    · -- another advertising has stopped than the one that is waited for
      have hne : s.bleActvAction ≠ .idle := haction ▸ ha.1
      have hother : a = .stoppingAdv ∧ s.bleOpActvIdx ≠ i := by
        rw [Classical.not_imp] at hadv
        exact ⟨hadv.1, Ne.symm hadv.2⟩
      have hsame : s.executePendingOp n a i = s := by
        rw [BleMode.executePendingOp, BleMode.clearActvAction, if_pos haction, if_neg hne,
          if_pos hother]
      rw [hsame]
      exact ⟨h, fun _ hi => absurd hi hadv⟩
  · rw [executePendingOp_of_ne haction]
    exact ⟨h, fun hsame => absurd hsame haction⟩

/-- Advertising fails to start, and is stopped. -/
theorem Serialised.advStartingFailed (h : Serialised n s) (ha : s.bleActvAction = .startingAdv)
    (i : UInt8) : Serialised n (s.setActvAction .stoppingAdv i) ∧
      (s.setActvAction .stoppingAdv i).toServe n < s.toServe n := by
  obtain ⟨hbusy, hp⟩ := h.dispatched.busy_of_action (by rw [ha]; exact ActvAction.noConfusion)
  have hfree := h.waits.free (by rw [ha]; exact ActvAction.noConfusion)
  have hfree' : ScanFree (s.setActvAction .stoppingAdv i) := ⟨hfree.restart, hfree.cmds, hfree.actv⟩
  refine ⟨.of_action hbusy hp ActvAction.noConfusion
    (hfree'.waits ActvAction.noConfusion ActvAction.noConfusion), ?_⟩
  have hrank := scanRank_le (s := s) (t := s.setActvAction .stoppingAdv i) rfl rfl
    ActvAction.noConfusion
  rw [BleMode.toServe, BleMode.toServe, ha]
  change 40 * s.unposted n + 20 * s.posted.length + 2 * _ + s.gapmCmds.length + 1 <
    40 * s.unposted n + 20 * s.posted.length + 2 * s.scanRank + s.gapmCmds.length + 2
  omega

/-- The white list stops the scan, and the activity goes down behind the operation. -/
theorem Serialised.appmSetWhiteList (h : Serialised n s) (ha : s.bleActvAction = .setWhiteList)
    (hactv : s.scanActv = some .started) : Serialised n (s.appmStopScanning n) := by
  have hfree := h.waits.free (by rw [ha]; exact ActvAction.noConfusion)
  rw [appmStopScanning_of_started hactv]
  refine h.scan (.ending (by rw [ha]; exact ActvAction.noConfusion) (.inl rfl) hfree.restart ?_ ?_)
  · intro hmem
    rcases List.mem_append.mp hmem with hmem | hmem
    · exact hfree.cmds hmem
    · exact ScanCmd.noConfusion (List.mem_singleton.mp hmem)
  · exact List.append_ne_nil_of_right_ne_nil _ (List.cons_ne_nil _ _)

/-- Every event keeps the invariant. -/
theorem Serialised.step (h : Serialised n s) {c : BleCall} (hc : InRange n s c)
    (ht : callStep n s c = some t) : Serialised n t := by
  cases c with
  | disconnectAll =>
    obtain rfl := Option.some.inj ht
    exact h.disconnectAll hc
  | event e =>
  change bleStep n s e = some t at ht
  cases e with
  | startScan | stopScan | setWhiteList | clearWhiteList | clearAllWhiteList | addReslovingList
  | cancelConnecting | refreshAdv | startDisconnect =>
    obtain rfl := Option.some.inj ht
    exact h.request rfl rfl rfl (h.waits.congr rfl rfl rfl rfl)
      (fun hf => BtFunction.noConfusion hf) ⟨rfl, rfl, rfl⟩ h.connect
      (h.waits.congr rfl rfl rfl rfl)
  | startConnect index =>
    obtain rfl := Option.some.inj ht
    exact h.request rfl rfl rfl (h.waits.congr rfl rfl rfl rfl) (fun _ => toConnect_set hc)
      ⟨rfl, rfl, rfl⟩ (fun _ => toConnect_set hc) (h.waits.congr rfl rfl rfl rfl)
  | run adv =>
    have hp : s.posted ≠ [] := by
      intro hnil
      rw [bleStep, hnil] at ht
      exact Option.noConfusion rfl (heq_of_eq ht)
    obtain ⟨u, hu, hserialised, -⟩ := h.run hp adv
    obtain rfl := Option.some.inj (hu.symm.trans ht)
    exact hserialised
  | finish a i =>
    rw [bleStep] at ht
    split at ht
    · cases ht
    · obtain rfl := Option.some.inj ht
      exact (h.finish ‹_› i).1
  | advStartingFailed i =>
    rw [bleStep] at ht
    split at ht
    · obtain rfl := Option.some.inj ht
      exact (h.advStartingFailed ‹_› i).1
    · cases ht
  | appmSetWhiteList =>
    rw [bleStep] at ht
    split at ht
    · rename_i ha
      obtain rfl := Option.some.inj ht
      split
      · exact h.appmSetWhiteList ha ‹_›
      · exact h
    · cases ht
  | gapmComplete ok =>
    obtain rfl := Option.some.inj ht
    by_cases hcmds : s.gapmCmds = []
    · rw [gapmComplete_of_nil hcmds]
      exact h
    · exact (h.gapmComplete hcmds ok).1

/-! ### Every run -/

/-- Nothing is pending if nothing is left to post. -/
theorem Serialised.isQuiet (h : Serialised n s) (hbusy : s.bleIsBusy = false) : Quiet n s := by
  obtain ⟨hp, hidle, hscan, hscanStop, hlist⟩ := h.dispatched.free hbusy
  have hzero := h.quiet hbusy
  rw [unposted_of_nil hp, BleMode.toConnect] at hzero
  have hstop : s.pendingStopConnecting.toNat = 0 := by omega
  have hreslo : s.pendingAddReslovingList.toNat = 0 := by omega
  have hadv : s.advHasPendingOp.toNat = 0 := by omega
  have hdisconnect : (List.range n).countP s.pendingDisconnect = 0 := by omega
  have hconnect : (List.range n).countP s.pendingConnect = 0 := by omega
  refine ⟨hbusy, hp, hidle, hlist, hscan, hscanStop, Bool.toNat_eq_zero.mp hstop,
    Bool.toNat_eq_zero.mp hreslo, Bool.toNat_eq_zero.mp hadv, fun i hi => ⟨?_, ?_⟩⟩
  · exact eq_false_of_ne_true (List.countP_eq_zero.mp hdisconnect i (List.mem_range.mpr hi))
  · exact eq_false_of_ne_true (List.countP_eq_zero.mp hconnect i (List.mem_range.mpr hi))

/-- While the advertising is refreshed, a connection and a scan are asked for, and then all
connections are let go. -/
def manyCalls : List BleCall :=
  [.event .refreshAdv, .event (.startConnect 1), .event (.startScan ⟨0, 30, 60⟩),
    .event (.run .start), .disconnectAll]

theorem inRange_manyCalls : Along (callStep 2) (InRange 2) .init manyCalls := by decide +kernel

/-- The BT thread calls a posted function, the operation in progress ends or turns out to have
failed, or the stack completes a command. -/
def Serves (s : BleMode) : BleEvent → Prop
  | .run _ => s.posted ≠ []
  | .finish a i => a = s.bleActvAction ∧ ¬(a = .idle ∨ a = .startingScan ∨ a = .stoppingScan) ∧
      (a = .stoppingAdv → i = s.bleOpActvIdx)
  | .advStartingFailed _ => s.bleActvAction = .startingAdv
  | .gapmComplete _ => s.gapmCmds ≠ []
  | _ => False

/-- Every event that is no request leaves less to do. -/
theorem Serialised.serves (h : Serialised n s) (he : Serves s e) :
    ∃ t, bleStep n s e = some t ∧ Serialised n t ∧ t.toServe n < s.toServe n := by
  cases e with
  | run adv => exact h.run he adv
  | finish a i =>
    obtain ⟨haction, ha, hi⟩ := he
    obtain ⟨hserialised, hlt⟩ := h.finish ha i
    exact ⟨_, if_neg ha, hserialised, hlt haction hi⟩
  | advStartingFailed i => exact ⟨_, if_pos he, h.advStartingFailed he i⟩
  | gapmComplete ok => exact ⟨_, rfl, h.gapmComplete he ok⟩
  | startScan | stopScan | setWhiteList | clearWhiteList | clearAllWhiteList | addReslovingList
  | startConnect | cancelConnecting | startDisconnect | refreshAdv | appmSetWhiteList =>
    exact False.elim he

/-- While BLE is busy, an event can come that serves it. -/
theorem Serialised.exists_serves (h : Serialised n s) (hbusy : s.bleIsBusy = true) :
    ∃ e, Serves s e := by
  by_cases hp : s.posted = []
  · have hidle := (h.busy hbusy).resolve_left (not_not_intro hp)
    cases h.waits with
    | resting start stop =>
      exact ⟨.finish s.bleActvAction s.bleOpActvIdx, rfl, by tauto, fun _ => rfl⟩
    | ending start actv restart cmds inFlight => exact ⟨.gapmComplete true, inFlight⟩
    | creating start actv restart stale others cmds =>
      refine ⟨.gapmComplete true, ?_⟩
      change s.gapmCmds ≠ []
      rw [cmds]
      exact List.append_ne_nil_of_right_ne_nil _ (List.cons_ne_nil _ _)
    | starting start actv restart cmds inFlight => exact ⟨.gapmComplete true, inFlight⟩
    | restarting start actv restart cmds inFlight => exact ⟨.gapmComplete true, inFlight⟩
  · exact ⟨.run .nothing, hp⟩

end EarbudFirmware.Ble
