import EarbudFirmware.Tota.Survival

/-!
# Damaged packets

A packet may be lost, or arrive with other bytes behind its length, which its checksum or its tail
then shows. What the receiver has of a command when another packet of it is missing stays in the
cache, and the next packets are put behind it. A packet that fails a check ends the work on the
chunk, and the packets behind it wait. So no false command is delivered and none is late when the
packets of a command arrive all or none, and when no chunk completes a packet behind one that fails.

## Main definitions

* `Fate`, `Trip` — what happens to the packets of a call
* `Transmitted` — the packets that arrive
* `DeliveredInTime` — what is delivered is what was sent, in order and not late

## Main results

* `no_false_command` — commands whose packets arrive all or none
* `delivers_false_command` — the first packet of a command and the packets of the next one
-/

namespace EarbudFirmware.Tota

/-- What happens to a packet. -/
inductive Fate where
  | arrives
  | lost
  | damaged (p' : List UInt8)
  deriving DecidableEq

/-- The head and the length are not damaged, and the checks detect the damage. -/
def Fate.Possible (p : List UInt8) : Fate → Prop
  | .damaged p' =>
    p'.length = p.length ∧ p'.take totaPacketBufOffset = p.take totaPacketBufOffset ∧ ¬ChecksOut p'
  | _ => True

/-- What arrives for a packet. -/
def Fate.received (p : List UInt8) : Fate → List (List UInt8)
  | .arrives => [p]
  | .lost => []
  | .damaged p' => [p']

/-- A call and what happens to its packets. -/
structure Trip where
  op : SendOp
  link : Nat → Bool
  fates : List Fate

/-- All packets of the call arrive, or none as it was sent. -/
def Trip.AllOrNone (t : Trip) : Prop :=
  (∀ f ∈ t.fates, f = .arrives) ∨ ∀ f ∈ t.fates, f ≠ .arrives

/-- The calls return `true`, and these packets arrive. -/
inductive Transmitted (e : Endpoint) : List Trip → List Group → Prop
  | nil : Transmitted e [] []
  | cons {t : Trip} {ps : List (List UInt8)} {ts : List Trip} {gs : List Group}
      (registered : t.op.Registered e) (call : t.op.call e t.link = some (true, ps))
      (possible : List.Forall₂ Fate.Possible ps t.fates) (rest : Transmitted e ts gs) :
      Transmitted e (t :: ts)
        (⟨t.op.command, (List.zipWith Fate.received ps t.fates).flatten,
          decide (∀ f ∈ t.fates, f = .arrives)⟩ :: gs)

/-- After the chunks `ds` every call of `app_tota_cmd_received` is for one of the commands, in their
order, and every command is delivered whose packets have all arrived as they were sent. -/
def DeliveredInTime (e : Endpoint) (gs : List Group) (ds : List (List UInt8)) : Prop :=
  ∃ rx, ds.foldlM (sAppTotaRx e) TotaRx.initial = some rx ∧
    (rx.store.calls.map commandOf).Sublist (gs.map (·.cmd)) ∧
    (delivered gs ds.flatten.length).Sublist (rx.store.calls.map commandOf)

variable {e : Endpoint} {ps ds : List (List UInt8)} {fates : List Fate} {gs : List Group}
  {ts : List Trip} {p : List UInt8} {f : Fate}

/-- A damaged packet is still taken out of the queue as one. -/
theorem Fate.Possible.isPacket (h : f.Possible p) (hp : IsPacket p) :
    ∀ q ∈ f.received p, IsPacket q := by
  intro q hq
  cases f with
  | arrives =>
    obtain rfl := List.mem_singleton.1 hq
    exact hp
  | lost => exact absurd hq List.not_mem_nil
  | damaged p' =>
    obtain rfl := List.mem_singleton.1 hq
    obtain ⟨hlen, htake, -⟩ := h
    refine ⟨?_, ?_, hlen ▸ hp.pos, hlen ▸ hp.le⟩
    · have := congrArg (List.take 4) htake
      rw [List.take_take, List.take_take] at this
      exact this.trans hp.head
    · have hle : 4 + 4 ≤ totaPacketBufOffset := by decide
      rw [← leAt_take hle, htake, leAt_take hle, hlen]
      exact hp.len

/-- The packets that arrive are packets. -/
theorem isPacket_received (h : List.Forall₂ Fate.Possible ps fates) (hps : ∀ p ∈ ps, IsPacket p) :
    ∀ q ∈ (List.zipWith Fate.received ps fates).flatten, IsPacket q := by
  induction h with
  | nil => exact fun q hq => absurd hq List.not_mem_nil
  | cons hpf _ ih =>
    intro q hq
    rw [List.zipWith_cons_cons, List.flatten_cons, List.mem_append] at hq
    rcases hq with hq | hq
    · exact hpf.isPacket (hps _ List.mem_cons_self) q hq
    · exact ih (fun p hp => hps p (List.mem_cons_of_mem _ hp)) q hq

/-- All packets arrive. -/
theorem received_of_arrives (h : List.Forall₂ Fate.Possible ps fates)
    (hall : ∀ f ∈ fates, f = .arrives) : (List.zipWith Fate.received ps fates).flatten = ps := by
  induction h with
  | nil => rfl
  | cons _ _ ih =>
    rw [List.zipWith_cons_cons, List.flatten_cons, hall _ List.mem_cons_self,
      ih fun f hf => hall f (List.mem_cons_of_mem _ hf)]
    rfl

/-- No packet arrives as it was sent. -/
theorem not_checksOut_received (h : List.Forall₂ Fate.Possible ps fates)
    (hnone : ∀ f ∈ fates, f ≠ .arrives) :
    ∀ q ∈ (List.zipWith Fate.received ps fates).flatten, ¬ChecksOut q := by
  induction h with
  | nil => exact fun q hq => absurd hq List.not_mem_nil
  | @cons p f ps fates hpf _ ih =>
    intro q hq
    rw [List.zipWith_cons_cons, List.flatten_cons, List.mem_append] at hq
    rcases hq with hq | hq
    · cases f with
      | arrives => exact absurd rfl (hnone _ List.mem_cons_self)
      | lost => exact absurd hq List.not_mem_nil
      | damaged p' =>
        obtain rfl := List.mem_singleton.1 hq
        exact hpf.2.2
    · exact ih (fun f hf => hnone f (List.mem_cons_of_mem _ hf)) q hq

/-- What arrives of commands that are carried, each with all or none of its packets. -/
theorem Transmitted.wellFormed (h : Transmitted e ts gs)
    (hcarried : ∀ t ∈ ts, t.op.Carried e t.link) (hall : ∀ t ∈ ts, t.AllOrNone) :
    ∀ g ∈ gs, g.WellFormed e ∧ ∀ p ∈ g.packets, IsPacket p := by
  induction h with
  | nil => exact fun g hg => absurd hg List.not_mem_nil
  | @cons t ps ts gs hr hcall hposs _ ih =>
    intro g hg
    rcases List.mem_cons.1 hg with rfl | hg
    · obtain ⟨hcarries, hpackets⟩ := (hcarried t List.mem_cons_self).carries hr hcall
      refine ⟨?_, isPacket_received hposs hpackets⟩
      unfold Group.WellFormed
      by_cases harr : ∀ f ∈ t.fates, f = .arrives
      · rw [if_pos (decide_eq_true harr), received_of_arrives hposs harr]
        exact hcarries
      · rw [if_neg (by rw [decide_eq_true_iff]; exact harr)]
        exact not_checksOut_received hposs ((hall t List.mem_cons_self).resolve_left harr)
    · exact ih (fun t ht => hcarried t (List.mem_cons_of_mem _ ht))
        (fun t ht => hall t (List.mem_cons_of_mem _ ht)) g hg

/-- The delivered commands are some of the sent ones, in their order. -/
theorem delivered_sublist (gs : List Group) (n : Nat) :
    (delivered gs n).Sublist (gs.map (·.cmd)) := by
  induction gs generalizing n with
  | nil => exact List.Sublist.refl _
  | cons g gs ih =>
    rw [delivered, List.map_cons]
    split_ifs
    · exact (ih _).cons_cons g.cmd
    · exact (ih _).cons g.cmd
    · exact List.nil_sublist _

/-- Damage delivers no false command and delays none when all packets of a command arrive or none,
and no chunk completes a packet behind one that fails. -/
theorem no_false_command {r : List UInt8} (h : Transmitted e ts gs)
    (hds : ds.flatten ++ r = (gs.flatMap (·.packets)).flatten)
    (hsize : ∀ d ∈ ds, d.length ≤ maxSppPacketSize)
    (hcarried : ∀ t ∈ ts, t.op.Carried e t.link)
    (hvendor : ∀ d ∈ ds, ¬e.TakesAsVendorCmd d)
    (hall : ∀ t ∈ ts, t.AllOrNone)
    (hlast : FailuresLast (gs.flatMap (·.packets)) 0 ds) : DeliveredInTime e gs ds := by
  have hwf := h.wellFormed hcarried hall
  obtain ⟨rx, hrun, hcalls⟩ := calls_received (fun g hg => (hwf g hg).1)
    (fun g hg => (hwf g hg).2) hds hsize hvendor hlast
  refine ⟨rx, hrun, ?_, ?_⟩
  · rw [hcalls]
    exact delivered_sublist gs _
  · rw [hcalls]

/-- The packet of an echo test. -/
def echoPacket (b : UInt8) : List UInt8 := totaPacket (cmdPayload 0x6101 1 [b])

/-- The packet with another byte at its end. -/
def brokenPacket (b : UInt8) : List UInt8 := (echoPacket b).dropLast ++ [0]

/-- The first of two commands arrives broken, and both packets come in pieces. -/
theorem no_false_command_echo :
    DeliveredInTime (echoEndpoint .connected)
      [⟨⟨0x6101, 1, [1]⟩, [brokenPacket 1], false⟩, ⟨⟨0x6101, 1, [2]⟩, [echoPacket 2], true⟩]
      [(brokenPacket 1).take 9, (brokenPacket 1).drop 9 ++ (echoPacket 2).take 20,
        (echoPacket 2).drop 20] := by
  have hsent := Transmitted.cons (e := echoEndpoint .connected)
    (t := ⟨.send 0x6101 [1], fun _ => true, [.damaged (brokenPacket 1)]⟩) (by decide) rfl
    (.cons (by decide +kernel : _ = _ ∧ _ = _ ∧ ¬_) .nil)
    (Transmitted.cons (t := ⟨.send 0x6101 [2], fun _ => true, [.arrives]⟩) (by decide) rfl
      (.cons trivial .nil) .nil)
  refine no_false_command (r := []) hsent ?_ ?_ ?_ ?_ ?_ ?_
  · decide +kernel
  · decide +kernel
  · intro t ht
    rcases List.mem_cons.1 ht with rfl | ht
    · exact ⟨rfl, by decide⟩
    · rw [List.mem_singleton.1 ht]
      exact ⟨rfl, by decide⟩
  · decide +kernel
  · intro t ht
    rcases List.mem_cons.1 ht with rfl | ht
    · exact Or.inr (by decide)
    · rw [List.mem_singleton.1 ht]
      exact Or.inl (by decide)
  · decide +kernel

/-- 700 bytes, in two packets. -/
def longCommand (b : UInt8) : SendOp := .data 0x6101 (List.replicate 700 b)

theorem registered_longCommand (b : UInt8) :
    (longCommand b).Registered (echoEndpoint .shakeHanded) := by
  show (echoEndpoint .shakeHanded).handlers.entryIndexFromCmdCode 0x6101 ≠ none
  decide

/-- The two packets of a long command. -/
theorem longCommand_packets (b : UInt8)
    (hpieces : ((longCommand b).call (echoEndpoint .shakeHanded) fun _ => true).map
        (fun r => (r.1, pieces (echoEndpoint .shakeHanded) r.2)) =
      some (true, [(cmdPayload 0x6101 700 (List.replicate 700 b)).take 624,
        (cmdPayload 0x6101 700 (List.replicate 700 b)).drop 624])) :
    ∃ p q, (longCommand b).call (echoEndpoint .shakeHanded) (fun _ => true) = some (true, [p, q]) ∧
      Carries (echoEndpoint .shakeHanded) (longCommand b).command [p, q] ∧
      (∀ p' ∈ [p, q], IsPacket p') ∧
      decoded (echoEndpoint .shakeHanded) (packetBuf p) =
        (cmdPayload 0x6101 700 (List.replicate 700 b)).take 624 := by
  obtain ⟨⟨ret, ps⟩, hcall, hr⟩ := Option.map_eq_some_iff.1 hpieces
  obtain ⟨rfl, hps⟩ := Prod.mk.inj hr
  have hcarried : (longCommand b).Carried (echoEndpoint .shakeHanded) fun _ => true :=
    ⟨fun _ _ => rfl, Nat.le_trans (Nat.le_of_eq List.length_replicate) (by decide)⟩
  obtain ⟨hcarries, hpackets⟩ := hcarried.carries (registered_longCommand b) hcall
  have hlen : ps.length = 2 := by
    rw [← length_pieces (e := echoEndpoint .shakeHanded), hps]
    rfl
  obtain ⟨p, q, rfl⟩ := List.length_eq_two.1 hlen
  exact ⟨p, q, hcall, hcarries, hpackets, (List.cons.inj hps).1⟩

/-- The second packet of a command is lost, and the first one is put before the next command. -/
theorem delivers_false_command :
    ∃ e ts gs ds r, Transmitted e ts gs ∧ ds.flatten ++ r = (gs.flatMap (·.packets)).flatten ∧
      (∀ d ∈ ds, d.length ≤ maxSppPacketSize) ∧ ¬DeliveredInTime e gs ds := by
  obtain ⟨p, q, hcall, hcarries, hpackets, hp⟩ := longCommand_packets 1 (by decide +kernel)
  obtain ⟨p', q', hcall', hcarries', hpackets', hp'⟩ := longCommand_packets 2 (by decide +kernel)
  have hsent := Transmitted.cons (t := ⟨longCommand 1, fun _ => true, [.arrives, .lost]⟩)
    (registered_longCommand 1) hcall (.cons trivial (.cons trivial .nil))
    (Transmitted.cons (t := ⟨longCommand 2, fun _ => true, [.arrives, .arrives]⟩)
      (registered_longCommand 2) hcall' (.cons trivial (.cons trivial .nil)) .nil)
  have hstream : [p, p'].flatten ++ q' = [p, p', q'].flatten := by simp
  refine ⟨_, _, _, [p, p'], q', hsent, hstream, ?_, ?_⟩
  · intro d hd
    rcases List.mem_cons.1 hd with rfl | hd
    · exact (hpackets _ List.mem_cons_self).le
    · rw [List.mem_singleton.1 hd]
      exact (hpackets' _ List.mem_cons_self).le
  · rintro ⟨rx, hrun, hsub, -⟩
    have hall : ∀ d ∈ [p, p', q'], IsPacket d ∧ ChecksOut d := by
      intro d hd
      rcases List.mem_cons.1 hd with rfl | hd
      · exact ⟨hpackets _ List.mem_cons_self, hcarries.checksOut _ List.mem_cons_self⟩
      · exact ⟨hpackets' d hd, hcarries'.checksOut d hd⟩
    have hchunks : ∀ d ∈ [p, p'], IsPacket d := fun d hd =>
      (hall d (List.mem_append_left [q'] hd)).1
    have hinit := received_initial (e := echoEndpoint .shakeHanded) fun d hd => (hall d hd).1
    rw [← hstream] at hinit
    obtain ⟨rx', hrun', hrx⟩ := received_run hinit (fun d hd => (hall d hd).1)
      (fun d hd => (hchunks d hd).le)
      (fun d hd hvendor => absurd (hchunks d hd).pos (by rw [hvendor.2.2.2]; decide))
      (failuresLast_of_checksOut (fun d hd => (hall d hd).2) 0 _)
    obtain rfl := Option.some.inj (hrun.symm.trans hrun')
    have hcomplete : Framing.complete [p, p', q'] (0 + [p, p'].flatten.length) = [p, p'] := by
      have happend : Framing.complete ([p, p'] ++ [q']) [p, p'].flatten.length = _ :=
        Framing.complete_append_of_le (Nat.le_refl _)
      rw [Nat.sub_self, Framing.complete_cons_of_lt (Nat.lt_of_le_of_lt (Nat.zero_le _)
        (hall q' (by simp)).1.pos), List.append_nil] at happend
      rw [Nat.zero_add]
      exact happend
    -- the bytes of the first packet stay in the cache, and the second one makes a command of them
    have hstore : rx.store.calls = [(cmdPayload 0x6101 700 (List.replicate 700 1)).take 624 ++
        (cmdPayload 0x6101 700 (List.replicate 700 2)).take 624] := by
      rw [hrx.store, hcomplete, List.foldl_cons, List.foldl_cons, List.foldl_nil,
        packet_eq (hall p List.mem_cons_self).2 (by decide) (by rw [hp]; decide +kernel), hp,
        if_pos (by decide +kernel), packet_eq (hall p' (by simp)).2 (by decide)
          (by rw [hp']; decide +kernel), hp', if_neg (by decide +kernel)]
      rfl
    rw [hstore] at hsub
    have hmem : commandOf _ ∈ [(longCommand 1).command, (longCommand 2).command] :=
      hsub.subset List.mem_cons_self
    exact absurd hmem (by decide +kernel)

end EarbudFirmware.Tota
