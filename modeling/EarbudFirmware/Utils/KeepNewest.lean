import EarbudFirmware.Utils.ByteDeque

/-!
# Adding a block at the cost of old bytes

`EnCQueue_AI` makes room in the queue: it removes the frames that a getter names until the block
fits, or, without a getter, as many bytes as the block has. The answers of the functions it calls
are ignored.

## Main definitions

* `CQueue.enCQueueAI` — the function of the same name
* `KeepsNewest` — the block is in the queue, behind the newest of the old bytes

## Main results

* `keepsNewest_iff` — when the block gets into the queue
-/

namespace EarbudFirmware

open NorMemory (Content)

namespace CQueue

/-- `CQ_OK` and `CQ_ERR`. -/
inductive CQStatus where
  | cqOk
  | cqErr
  deriving DecidableEq

/-- `DeCQueue` and `EnCQueue` with their answers ignored. -/
def deCQueueIgnored (q : CQueue) (len : Nat) : CQueue := (q.deCQueueNull len).getD q

def enCQueueIgnored (q : CQueue) (e : Content) (len : Nat) : CQueue := (q.enCQueue e len).getD q

/-- The loop of `EnCQueue_AI`; `none` when `fuel` rounds do not end it. -/
def discardFrames (getter : CQueue → UInt16) (len : Nat) : Nat → CQueue → Option CQueue
  | 0, _ => none
  | fuel + 1, q =>
    let q := q.deCQueueIgnored (getter q).toNat
    if q.availableOfCQueue < len then discardFrames getter len fuel q else some q

/-- `EnCQueue_AI`, with at most `fuel` rounds of the loop. -/
def enCQueueAI (fuel : Nat) (q : CQueue) (e : Content) (len : Nat)
    (getter : Option (CQueue → UInt16)) : Option (CQueue × CQStatus) :=
  if q.availableOfCQueue < len then
    match getter with
    | some getter =>
      (discardFrames getter len fuel q).map fun q => (q.enCQueueIgnored e len, .cqErr)
    | none => some ((q.deCQueueIgnored len).enCQueueIgnored e len, .cqErr)
  else some (q.enCQueueIgnored e len, .cqOk)

/-- Behind the call the queue holds the block behind a suffix of its bytes, and `CQ_ERR` says that
there was not enough room for it. -/
structure KeepsNewest (q : CQueue) (e : Content) (len : Nat) (q' : CQueue) (ret : CQStatus) :
    Prop where
  newest : ∃ k, q'.contents = q.contents.drop k ++ (List.range len).map e
  complete : ret = .cqOk → q'.contents = q.contents ++ (List.range len).map e
  status : ret = .cqErr ↔ q.availableOfCQueue < len

/-- The getter gives the length of a frame in every queue that is not empty. -/
def GivesFrames (getter : CQueue → UInt16) : Prop :=
  ∀ q : CQueue, q.WellFormed → 0 < q.len → 1 ≤ (getter q).toNat ∧ (getter q).toNat ≤ q.len

variable {q q' : CQueue} {e : Content} {len : Nat} {getter : CQueue → UInt16}

/-- Removing bytes that are there. -/
theorem deCQueueIgnored_spec (h : q.WellFormed) (hlen : len ≤ q.len) :
    (q.deCQueueIgnored len).WellFormed ∧ (q.deCQueueIgnored len).size = q.size ∧
      (q.deCQueueIgnored len).contents = q.contents.drop len := by
  obtain ⟨q', hq', hwf, hsize, hdrop⟩ := deCQueueNull_spec h hlen
  rw [deCQueueIgnored, hq', Option.getD_some]
  exact ⟨hwf, hsize, hdrop⟩

/-- Adding a block that fits. -/
theorem contents_enCQueueIgnored (h : q.WellFormed) (hlen : len ≤ q.availableOfCQueue) :
    (q.enCQueueIgnored e len).contents = q.contents ++ (List.range len).map e := by
  have hle := h.len_le
  unfold availableOfCQueue at hlen
  obtain ⟨q', hq', -, -, hcontents⟩ := enCQueue_spec (e := e) h (show q.len + len ≤ q.size by omega)
  rw [enCQueueIgnored, hq', Option.getD_some, hcontents]

/-- A round of the loop shortens the queue, so the loop ends with room for the block. -/
theorem discardFrames_spec (hgetter : GivesFrames getter) (h : q.WellFormed) (hlen : len ≤ q.size)
    (hfull : q.availableOfCQueue < len) :
    ∃ fuel q' k, discardFrames getter len fuel q = some q' ∧ q'.WellFormed ∧
      len ≤ q'.availableOfCQueue ∧ q'.contents = q.contents.drop k := by
  induction hn : q.len using Nat.strongRecOn generalizing q with
  | ind n ih =>
    subst hn
    have hpos : 0 < q.len := by
      unfold availableOfCQueue at hfull
      omega
    obtain ⟨hone, hframe⟩ := hgetter q h hpos
    obtain ⟨hwf, hsize, hdrop⟩ := deCQueueIgnored_spec h hframe
    have hlen' : (q.deCQueueIgnored (getter q).toNat).len = q.len - (getter q).toNat := by
      rw [← length_contents, hdrop, List.length_drop, length_contents]
    by_cases hroom : (q.deCQueueIgnored (getter q).toNat).availableOfCQueue < len
    · obtain ⟨fuel, q', k, hq', hwf', havailable, hcontents⟩ :=
        ih _ (by omega) hwf (by rw [hsize]; exact hlen) hroom rfl
      refine ⟨fuel + 1, q', (getter q).toNat + k, ?_, hwf', havailable, ?_⟩
      · simp only [discardFrames, if_pos hroom, hq']
      · rw [hcontents, hdrop, List.drop_drop]
    · refine ⟨1, _, (getter q).toNat, ?_, hwf, Nat.le_of_not_lt hroom, hdrop⟩
      simp only [discardFrames, if_neg hroom]

/-- Behind discarding, the block goes behind what is left. -/
theorem keepsNewest_of_discarded {k : Nat} (hfull : q.availableOfCQueue < len) (h : q'.WellFormed)
    (hroom : len ≤ q'.availableOfCQueue) (hcontents : q'.contents = q.contents.drop k) :
    KeepsNewest q e len (q'.enCQueueIgnored e len) .cqErr :=
  ⟨⟨k, by rw [contents_enCQueueIgnored h hroom, hcontents]⟩, fun h => (by cases h),
    fun _ => hfull, fun _ => rfl⟩

/-- Without a getter, a block that is longer than what is stored is not added. -/
theorem enCQueueAI_lost {fuel : Nat} (hfull : q.availableOfCQueue < len) (hlong : q.len < len) :
    enCQueueAI fuel q e len none = some (q, .cqErr) := by
  have hde : q.deCQueueNull len = none := if_pos hlong
  have hen : q.enCQueue e len = none := if_pos hfull
  rw [enCQueueAI, if_pos hfull]
  simp only [deCQueueIgnored, enCQueueIgnored, hde, hen, Option.getD_none]

/-- A block that fits, or that is not longer than what is stored, or for which a getter makes room,
gets into the queue; any other block is lost. -/
theorem keepsNewest_iff (h : q.WellFormed) (hlen : len ≤ q.size)
    (getter : Option (CQueue → UInt16)) (hgetter : ∀ g ∈ getter, GivesFrames g) :
    (∃ fuel q' ret, enCQueueAI fuel q e len getter = some (q', ret) ∧ KeepsNewest q e len q' ret) ↔
      getter.isSome ∨ len ≤ q.availableOfCQueue ∨ len ≤ q.len := by
  constructor
  · rintro ⟨fuel, q', ret, hcall, hkeeps⟩
    cases getter with
    | some g => exact .inl rfl
    | none =>
      by_contra hnot
      obtain ⟨-, hroom, hstored⟩ : _ ∧ ¬ len ≤ q.availableOfCQueue ∧ ¬ len ≤ q.len := by
        simpa only [not_or] using hnot
      rw [enCQueueAI_lost (Nat.lt_of_not_le hroom) (Nat.lt_of_not_le hstored)] at hcall
      obtain ⟨rfl, -⟩ := Prod.mk.inj (Option.some.inj hcall)
      -- the old bytes are too few to end with the block
      obtain ⟨k, hk⟩ := hkeeps.newest
      have hlength := congrArg List.length hk
      rw [List.length_append, List.length_map, List.length_range, length_contents] at hlength
      omega
  · intro hor
    by_cases hroom : len ≤ q.availableOfCQueue
    · refine ⟨0, q.enCQueueIgnored e len, .cqOk, if_neg (Nat.not_lt.2 hroom), ?_⟩
      have hcontents := contents_enCQueueIgnored (e := e) h hroom
      exact ⟨⟨0, hcontents⟩, fun _ => hcontents, fun h => (by cases h),
        fun hfull => absurd hfull (Nat.not_lt.2 hroom)⟩
    · have hfull := Nat.lt_of_not_le hroom
      cases getter with
      | some g =>
        obtain ⟨fuel, q', k, hq', hwf, hroom', hcontents⟩ :=
          discardFrames_spec (hgetter g rfl) h hlen hfull
        refine ⟨fuel, _, .cqErr, ?_, keepsNewest_of_discarded hfull hwf hroom' hcontents⟩
        rw [enCQueueAI, if_pos hfull]
        simp only [hq', Option.map_some]
      | none =>
        have hstored : len ≤ q.len := by simpa [hroom] using hor
        obtain ⟨hwf, hsize, hdrop⟩ := deCQueueIgnored_spec h hstored
        have hroom' : len ≤ (q.deCQueueIgnored len).availableOfCQueue := by
          have hle := h.len_le
          unfold availableOfCQueue
          rw [← length_contents, hdrop, List.length_drop, length_contents, hsize]
          omega
        refine ⟨0, _, .cqErr, ?_, keepsNewest_of_discarded hfull hwf hroom' hdrop⟩
        rw [enCQueueAI, if_pos hfull]

/-- A getter that takes single bytes. -/
theorem keepsNewest_bytes :
    ∃ fuel q' ret, enCQueueAI fuel ⟨1, 0, 3, 2, fun i => i.toUInt8⟩ (fun _ => 7) 2
        (some fun _ => 1) = some (q', ret) ∧
      KeepsNewest ⟨1, 0, 3, 2, fun i => i.toUInt8⟩ (fun _ => 7) 2 q' ret :=
  (keepsNewest_iff ⟨by decide, by decide, by decide⟩ (by decide) _ fun g hg q _ hq => by
    obtain rfl := Option.some.inj hg
    exact ⟨Nat.le_refl 1, hq⟩).2 (.inl rfl)

/-- A queue of ten bytes that holds four does not take a block of eight. -/
theorem not_keepsNewest_eight :
    ¬ ∀ (q : CQueue) (e : Content) (len : Nat), q.WellFormed → len ≤ q.size →
      ∃ fuel q' ret, enCQueueAI fuel q e len none = some (q', ret) ∧
        KeepsNewest q e len q' ret := by
  intro h
  obtain ⟨fuel, q', ret, hcall, hkeeps⟩ := h ⟨0, 4, 10, 4, fun _ => 0⟩ (fun _ => 0) 8
    ⟨by decide, by decide, by decide⟩ (by decide)
  rw [enCQueueAI_lost (by decide) (by decide)] at hcall
  obtain ⟨rfl, -⟩ := Prod.mk.inj (Option.some.inj hcall)
  obtain ⟨k, hk⟩ := hkeeps.newest
  have hlength := congrArg List.length hk
  rw [List.length_append, List.length_map, List.length_range, length_contents] at hlength
  change 4 = _ + 8 at hlength
  omega

end CQueue

end EarbudFirmware
