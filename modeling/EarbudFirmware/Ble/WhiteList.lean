import EarbudFirmware.Ble.ModeSwitch

/-!
# The white list of the controller

Each user has a list of his own, and an operation joins them in an array. The array is as large as
one list. A change that is made while BLE is busy is left to an operation that runs later and finds
the lists as they are then.

## Main definitions

* `BleMode.joined` — the lists of the enabled users, one behind the other
* `JoinsLists` — a run of the operation passes the joined lists on, and no change is forgotten
* `FitsArray` — the lists are no longer than the array when the operation runs

## Main results

* `joinWhiteLists_eq` — what the operation does with any lists
* `joinsLists_iff` — the executions whose steps join the lists
-/

namespace EarbudFirmware.Ble

open Transition (Along)

variable {n : Nat} {s t : BleMode} {e : BleEvent}

/-- The lists of the enabled users. -/
def BleMode.joined (s : BleMode) : List BdAddr :=
  (s.whiteLists.filter (·.enable)).flatMap (·.bdaddr)

/-- The event runs `_app_ble_set_all_white_list`. -/
def RunsSetAllWhiteList (s : BleMode) (e : BleEvent) : Prop :=
  ∃ fs adv, s.posted = .setAllWhiteList :: fs ∧ e = .run adv

/-- A run of the operation stays inside its array and passes the lists of the enabled users on, and
while no operation on the list is posted or pending, what was passed last is what the lists are. -/
structure JoinsLists (n : Nat) (s : BleMode) (e : BleEvent) : Prop where
  passes : RunsSetAllWhiteList s e →
    ∃ t, bleStep n s e = some t ∧ t.passedWhiteList = some s.joined
  fresh : ∀ t, bleStep n s e = some t → t.pendingSetWhiteList = false →
    .setAllWhiteList ∉ t.posted → t.whiteListChanged = true → t.passedWhiteList = some t.joined

/-- The lists of the enabled users fit the array when the operation runs. -/
def FitsArray (s : BleMode) (e : BleEvent) : Prop :=
  RunsSetAllWhiteList s e → s.joined.length ≤ whiteListMaxNum

/-! ### One run of the operation -/

theorem joinWhiteLists_eq (ps : List WhiteListParam) (bdaddr : List BdAddr)
    (hle : bdaddr.length ≤ whiteListMaxNum) :
    BleMode.joinWhiteLists ps bdaddr =
      if (bdaddr ++ (ps.filter (·.enable)).flatMap (·.bdaddr)).length ≤ whiteListMaxNum then
        some (bdaddr ++ (ps.filter (·.enable)).flatMap (·.bdaddr))
      else none := by
  induction ps generalizing bdaddr with
  | nil =>
    rw [List.filter_nil, List.flatMap_nil, List.append_nil, if_pos hle]
    rfl
  | cons p ps ih =>
    rw [BleMode.joinWhiteLists]
    by_cases hen : p.enable = true
    · rw [if_pos hen, List.filter_cons_of_pos hen, List.flatMap_cons, ← List.append_assoc]
      by_cases hfits : bdaddr.length + p.bdaddr.length ≤ whiteListMaxNum
      · rw [if_pos hfits]
        exact ih _ (by rwa [List.length_append])
      · -- what does not fit here does not fit with more lists behind it
        rw [if_neg hfits, if_neg]
        intro hall
        rw [List.length_append, List.length_append] at hall
        exact hfits (Nat.le_trans (Nat.le_add_right _ _) hall)
    · rw [if_neg hen, List.filter_cons_of_neg hen]
      exact ih bdaddr hle

theorem joinWhiteLists_whiteLists (s : BleMode) :
    BleMode.joinWhiteLists s.whiteLists [] =
      if s.joined.length ≤ whiteListMaxNum then some s.joined else none :=
  joinWhiteLists_eq s.whiteLists [] (Nat.zero_le _)

theorem passes_iff (h : RunsSetAllWhiteList s e) :
    (∃ t, bleStep n s e = some t ∧ t.passedWhiteList = some s.joined) ↔
      s.joined.length ≤ whiteListMaxNum := by
  obtain ⟨fs, adv, hp, rfl⟩ := h
  have hstep : ∃ t, bleStep n s (.run adv) = some t ∧
      t.passedWhiteList = BleMode.joinWhiteLists s.whiteLists [] := by
    rw [bleStep, hp]
    exact ⟨_, rfl, rfl⟩
  obtain ⟨t, ht, hpassed⟩ := hstep
  rw [joinWhiteLists_whiteLists] at hpassed
  constructor
  · rintro ⟨u, hu, hjoined⟩
    obtain rfl : t = u := Option.some.inj (ht.symm.trans hu)
    by_contra hlong
    rw [hpassed, if_neg hlong] at hjoined
    cases hjoined
  · intro hfits
    exact ⟨t, ht, by rw [hpassed, if_pos hfits]⟩

/-! ### Changes are not forgotten -/

/-- A change is pending or posted, or was passed on. -/
def Fresh (s : BleMode) : Prop :=
  s.whiteListChanged = true →
    s.pendingSetWhiteList = true ∨ .setAllWhiteList ∈ s.posted ∨ s.passedWhiteList = some s.joined

/-- The lists are the same and no function is taken from the thread. -/
structure ListsKept (s t : BleMode) : Prop where
  lists : t.bleWhiteList = s.bleWhiteList
  passed : t.passedWhiteList = s.passedWhiteList
  changed : t.whiteListChanged = s.whiteListChanged
  pending : s.pendingSetWhiteList = true → t.pendingSetWhiteList = true
  posted : .setAllWhiteList ∈ s.posted → .setAllWhiteList ∈ t.posted

namespace ListsKept

theorem refl (s : BleMode) : ListsKept s s := ⟨rfl, rfl, rfl, id, id⟩

theorem trans {u : BleMode} (h : ListsKept s t) (h' : ListsKept t u) : ListsKept s u where
  lists := h'.lists.trans h.lists
  passed := h'.passed.trans h.passed
  changed := h'.changed.trans h.changed
  pending hp := h'.pending (h.pending hp)
  posted hp := h'.posted (h.posted hp)

theorem fresh (h : ListsKept s t) (hs : Fresh s) : Fresh t := by
  intro hchanged
  have hjoined : t.joined = s.joined := by
    rw [BleMode.joined, BleMode.joined, BleMode.whiteLists, BleMode.whiteLists, h.lists]
  rcases hs (h.changed ▸ hchanged) with hpending | hposted | hpassed
  · exact .inl (h.pending hpending)
  · exact .inr (.inl (h.posted hposted))
  · refine .inr (.inr ?_)
    rw [h.passed, hjoined, hpassed]

theorem next (h : NextOp s t) : ListsKept s t := by
  cases h with
  | other | startScan | stopScan => exact ⟨rfl, rfl, rfl, id, List.mem_append_left _⟩
  | free => exact ⟨rfl, rfl, rfl, id, id⟩

theorem executePendingOp (s : BleMode) (a : ActvAction) (i : UInt8) :
    ListsKept s (s.executePendingOp n a i) := by
  rcases executePendingOp_cases s a i with hsame | ⟨-, idx, hnext⟩
  · rw [hsame]
    exact refl s
  · have hkept := next hnext
    exact ⟨hkept.lists, hkept.passed, hkept.changed, hkept.pending, hkept.posted⟩

theorem request {u : BleMode} (h : ListsKept s u) (f : BtFunction) :
    ListsKept s (s.request f u) := by
  rw [BleMode.request]
  split
  · exact h
  · exact ⟨rfl, rfl, rfl, id, List.mem_append_left _⟩

theorem appmStopScanning (s : BleMode) : ListsKept s (s.appmStopScanning n) := by
  unfold BleMode.appmStopScanning
  split
  · exact ⟨rfl, rfl, rfl, id, id⟩
  · exact refl s
  · exact refl s
  · exact executePendingOp s _ _

theorem appmStartScanning (s : BleMode) (p : ScanParam) :
    ListsKept s (s.appmStartScanning n p) := by
  unfold BleMode.appmStartScanning
  split
  · exact ⟨rfl, rfl, rfl, id, id⟩
  · split
    · refine trans ?_ (appmStopScanning _)
      exact ⟨rfl, rfl, rfl, id, id⟩
    · exact ⟨rfl, rfl, rfl, id, id⟩

theorem appmActvFsmNext (s : BleMode) (ok : Bool) : ListsKept s (s.appmActvFsmNext n ok) := by
  unfold BleMode.appmActvFsmNext
  split
  · exact ⟨rfl, rfl, rfl, id, id⟩
  · refine trans ?_ (executePendingOp _ _ _)
    split <;> exact ⟨rfl, rfl, rfl, id, id⟩
  · exact ⟨rfl, rfl, rfl, id, id⟩
  · split
    · refine trans ?_ (appmStartScanning _ _)
      exact ⟨rfl, rfl, rfl, id, id⟩
    · refine trans ?_ (executePendingOp _ _ _)
      exact ⟨rfl, rfl, rfl, id, id⟩
  · exact refl s

theorem gapmComplete (s : BleMode) (ok : Bool) : ListsKept s (s.gapmComplete n ok) := by
  unfold BleMode.gapmComplete
  split
  · exact refl s
  · rename_i cmd cmds _
    refine trans ?_ (appmActvFsmNext _ _)
    cases cmd <;> exact ⟨rfl, rfl, rfl, id, id⟩

/-- A posted function that is not the operation on the list. -/
theorem call {f : BtFunction} (hf : f ≠ .setAllWhiteList) {adv : AdvWork}
    (ht : s.call n adv f = some t) : ListsKept s t := by
  cases f with
  | setAllWhiteList => exact absurd rfl hf
  | startConnect =>
    simp only [BleMode.call, Option.map_eq_some_iff] at ht
    obtain ⟨index, -, rfl⟩ := ht
    exact ⟨rfl, rfl, rfl, id, id⟩
  | startScan =>
    obtain rfl := Option.some.inj ht
    unfold BleMode.bleStartScan
    split
    · exact executePendingOp s _ _
    · refine trans ?_ (appmStartScanning _ _)
      exact ⟨rfl, rfl, rfl, id, id⟩
  | stopScanning =>
    obtain rfl := Option.some.inj ht
    refine trans ?_ (appmStopScanning _)
    exact ⟨rfl, rfl, rfl, id, id⟩
  | startAdv =>
    cases adv with
    | nothing =>
      obtain rfl := Option.some.inj ht
      exact executePendingOp s _ _
    | start | stop =>
      obtain rfl := Option.some.inj ht
      exact ⟨rfl, rfl, rfl, id, id⟩
  | stopConnecting | disconnect | addReslovingList =>
    obtain rfl := Option.some.inj ht
    exact ⟨rfl, rfl, rfl, id, id⟩

end ListsKept

/-- A change asks for the operation. -/
theorem fresh_appBleSetAllWhiteList (s : BleMode) : Fresh s.appBleSetAllWhiteList := by
  intro _
  rw [BleMode.appBleSetAllWhiteList, BleMode.request]
  split
  · exact .inl rfl
  · exact .inr (.inl (List.mem_append_right _ (List.mem_singleton.mpr rfl)))

/-- The first posted function runs. -/
theorem Fresh.run (hs : Fresh s) {f : BtFunction} {fs : List BtFunction} (hp : s.posted = f :: fs)
    {adv : AdvWork} (hfits : f = .setAllWhiteList → s.joined.length ≤ whiteListMaxNum)
    (ht : { s with posted := fs }.call n adv f = some t) : Fresh t := by
  by_cases hf : f = .setAllWhiteList
  · subst hf
    obtain rfl := Option.some.inj ht
    intro _
    refine .inr (.inr ?_)
    change BleMode.joinWhiteLists s.whiteLists [] = some s.joined
    rw [joinWhiteLists_whiteLists, if_pos (hfits rfl)]
  · refine (ListsKept.call hf ht).fresh fun hchanged => ?_
    rcases hs hchanged with hpending | hposted | hpassed
    · exact .inl hpending
    · rw [hp] at hposted
      exact .inr (.inl (List.mem_of_ne_of_mem (Ne.symm hf) hposted))
    · exact .inr (.inr hpassed)

theorem Fresh.step (hs : Fresh s) (he : FitsArray s e) (ht : bleStep n s e = some t) :
    Fresh t := by
  cases e with
  | setWhiteList | clearWhiteList | clearAllWhiteList =>
    obtain rfl := Option.some.inj ht
    exact fresh_appBleSetAllWhiteList _
  | run adv =>
    rw [bleStep] at ht
    split at ht
    · cases ht
    · rename_i f fs hp
      refine hs.run hp (fun hf => he ⟨fs, adv, ?_, rfl⟩) ht
      rw [hp, hf]
  | startScan | stopScan | startConnect =>
    obtain rfl := Option.some.inj ht
    refine ListsKept.fresh (ListsKept.request ?_ _) ?_
    · exact ⟨rfl, rfl, rfl, id, id⟩
    · exact hs
  | addReslovingList | cancelConnecting | startDisconnect | refreshAdv =>
    obtain rfl := Option.some.inj ht
    refine ListsKept.fresh (ListsKept.request ?_ _) hs
    exact ⟨rfl, rfl, rfl, id, id⟩
  | finish a i =>
    rw [bleStep] at ht
    split at ht
    · cases ht
    · obtain rfl := Option.some.inj ht
      exact (ListsKept.executePendingOp s a i).fresh hs
  | advStartingFailed i =>
    rw [bleStep] at ht
    split at ht
    · obtain rfl := Option.some.inj ht
      exact hs
    · cases ht
  | appmSetWhiteList =>
    rw [bleStep] at ht
    split at ht
    · obtain rfl := Option.some.inj ht
      split
      · exact (ListsKept.appmStopScanning s).fresh hs
      · exact hs
    · cases ht
  | gapmComplete ok =>
    obtain rfl := Option.some.inj ht
    exact (ListsKept.gapmComplete s ok).fresh hs

/-! ### Executions -/

theorem fresh_init : Fresh .init := fun h => absurd h (by decide)

/-- A step joins the lists exactly when they fit the array. -/
theorem Fresh.joins_iff (hs : Fresh s) : JoinsLists n s e ↔ FitsArray s e := by
  constructor
  · intro h hrun
    exact (passes_iff hrun).mp (h.passes hrun)
  · intro h
    refine ⟨fun hrun => (passes_iff hrun).mpr (h hrun), fun t ht hpending hposted hchanged => ?_⟩
    rcases hs.step h ht hchanged with hp | hp | hpassed
    · rw [hpending] at hp
      cases hp
    · exact absurd hp hposted
    · exact hpassed

/-- Every step of an execution joins the lists exactly when the lists of the enabled users fit the
array in each run of the operation. -/
theorem joinsLists_iff (n : Nat) (es : List BleEvent) :
    Along (bleStep n) (JoinsLists n) .init es ↔ Along (bleStep n) FitsArray .init es := by
  refine Transition.along_iff_of_invariant (fun s e hs => hs.joins_iff)
    (fun s e t hs he ht => ?_) fresh_init es
  exact hs.step (hs.joins_iff.mp he) ht

/-- One user has five devices and the other one has four: the array has room for eight. -/
theorem not_joinsLists :
    ¬Along (bleStep 1) (JoinsLists 1) .init
      [.setWhiteList .tws [⟨1, 0⟩, ⟨2, 0⟩, ⟨3, 0⟩, ⟨4, 0⟩, ⟨5, 0⟩],
        .setWhiteList .mobile [⟨6, 0⟩, ⟨7, 0⟩, ⟨8, 0⟩, ⟨9, 0⟩], .run .nothing] := by
  intro h
  have hlast := (h.2 _ rfl).2 _ rfl
  obtain ⟨t, ht, hpassed⟩ := hlast.1.passes ⟨[], .nothing, rfl, rfl⟩
  obtain rfl := Option.some.inj ht
  cases hpassed

end EarbudFirmware.Ble
