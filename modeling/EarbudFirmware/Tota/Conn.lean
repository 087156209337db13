import EarbudFirmware.Lib.Transition
import EarbudFirmware.Tota.Packets

/-!
# The key agreement

The peer initiates a connection with a list of random bytes, and gets one in the response. Both
sides fill up the shorter list with zeros, combine the lists byte by byte and hash the result. The
peer confirms with this hash, of which every second byte is a byte of the key. The length of the
peer's list is one byte that is not checked against the array, and a confirmation is read whether
its parameter is that long or not.

## Main definitions

* `calculateEncryptKey` — `_calculate_encrypt_key`, `none` when it leaves an array
* `connAndUpdateKeyHandle` — `_tota_conn_and_update_key_handle`
* `combined` — what two lists are combined to
* `KeyAgreement` — the contract of a run
* `ConnEvent.Fits` — the events that keep it

## Main results

* `calculateEncryptKey_eq` — lists that fit are combined as `combined` says
* `keyAgreement_iff` — the runs that keep the contract
-/

namespace EarbudFirmware.Tota

/-- `HASH_KEY_SIZE`. -/
def hashKeySize : Nat := 32

/-- `MAX_RANDOM_KEY_SIZE`. -/
def maxRandomKeySize : Nat := 128

/-- `OP_TOTA_CONN_INITIATE`. -/
def opTotaConnInitiate : Nat := 0x1001

/-- `OP_TOTA_CONN_RESPONSE`. -/
def opTotaConnResponse : Nat := 0x1002

/-- `SHA256_hash`. -/
structure Sha256 where
  hash : List UInt8 → List UInt8
  length_hash : ∀ l, (hash l).length = hashKeySize

/-- `TOTA_CONN_STRUCT_T`. -/
structure TotaConnStruct where
  length : UInt8
  randomKey : List UInt8
  size : randomKey.length = maxRandomKeySize

/-- `TOTA_CONN_PARAMETER_T`, without the field that nothing uses. -/
structure KeyManager where
  randomA : TotaConnStruct
  randomB : TotaConnStruct
  hashKey : List UInt8

/-- The bytes from `ptrParam` on: the parameter, and what is behind it in `RxDataCacheBuffer`. -/
structure ConnParam where
  param : List UInt8
  behind : List UInt8
  enough : 1 + maxRandomKeySize ≤ (param ++ behind).length

/-- `pConn`. -/
def ConnParam.pConn (p : ConnParam) : TotaConnStruct where
  length := (p.param ++ p.behind).headD 0
  randomKey := ((p.param ++ p.behind).drop 1).take maxRandomKeySize
  size := by
    rw [List.length_take, List.length_drop]
    exact Nat.min_eq_left (Nat.le_sub_of_add_le' p.enough)

/-- `_generate_random_algorithm`. -/
def generateRandomAlgorithm (id : Nat) (a b : UInt8) : UInt8 :=
  match id % 6 with
  | 0 => a + b
  | 1 => a * b
  | 2 => a &&& b
  | 3 => a ||| b
  | 4 => a ^^^ b
  | 5 => a * a + b * b
  | _ => 0

/-! ### The list of this side -/

/-- The length that `_generate_random_key` draws; `rand n` is the result of the `n`-th `rand()`. -/
def randomLength (rand : Nat → Nat) : Nat :=
  let length := rand 0 % (maxRandomKeySize + 1)
  if length < 16 then length + 16 else length

/-- The first words of the list, one call of `rand()` each. -/
def randomWords (rand : Nat → Nat) : (words : Nat) → List UInt8
  | 0 => []
  | i + 1 => randomWords rand i ++ leBytes 4 (rand (i + 1))

theorem length_randomWords (rand : Nat → Nat) (words : Nat) :
    (randomWords rand words).length = 4 * words := by
  induction words with
  | zero => rfl
  | succ i ih => rw [randomWords, List.length_append, ih, length_leBytes, Nat.mul_succ]

theorem randomLength_le (rand : Nat → Nat) : randomLength rand ≤ maxRandomKeySize := by
  rw [randomLength]
  split_ifs with h
  · exact Nat.le_trans (Nat.add_le_add_right (Nat.le_of_lt h) 16) (by decide)
  · exact Nat.le_of_lt_succ (Nat.mod_lt _ (Nat.succ_pos _))

/-- The words that are drawn fit the array. -/
theorem four_mul_le (rand : Nat → Nat) : 4 * ((randomLength rand + 3) / 4) ≤ maxRandomKeySize := by
  have := randomLength_le rand
  simp only [maxRandomKeySize] at *
  omega

/-- `_generate_random_key`. What is behind the last word stays. -/
def generateRandomKey (rand : Nat → Nat) (r : TotaConnStruct) : TotaConnStruct where
  length := UInt8.ofNat (randomLength rand)
  randomKey :=
    let words := (randomLength rand + 3) / 4
    randomWords rand words ++ r.randomKey.drop (4 * words)
  size := by
    have hfits := four_mul_le rand
    rw [List.length_append, length_randomWords, List.length_drop, r.size]
    exact Nat.add_sub_of_le hfits

/-! ### The key -/

/-- A list is filled up with zeros: `memset` behind its bytes, and the length is set. -/
def TotaConnStruct.pad (r : TotaConnStruct) (length : UInt8) : Option TotaConnStruct :=
  if h : r.length.toNat + (length.toNat - r.length.toNat) ≤ maxRandomKeySize then
    some {
      length := length
      randomKey := r.randomKey.take r.length.toNat ++
        List.replicate (length.toNat - r.length.toNat) 0 ++
        r.randomKey.drop (r.length.toNat + (length.toNat - r.length.toNat))
      size := by
        have := r.size
        simp only [List.length_append, List.length_take, List.length_drop, List.length_replicate]
        omega }
  else none

/-- The loop over the bytes of both lists. `randomKey` are the bytes of `random_key` that are
written, as many as the index. -/
def combineLoop (a b : TotaConnStruct) : (fuel i : Nat) → List UInt8 → Option (List UInt8)
  | 0, _, randomKey => some randomKey
  | fuel + 1, i, randomKey => do
    let x ← a.randomKey[i]?
    let y ← b.randomKey[i]?
    if i < maxRandomKeySize then
      combineLoop a b fuel (i + 1) (randomKey ++ [generateRandomAlgorithm i x y])
    else none

/-- `_calculate_encrypt_key`, `none` when it reads or writes outside of an array. -/
def calculateEncryptKey (sha : Sha256) (k : KeyManager) : Option KeyManager := do
  let (a, b) ←
    if k.randomB.length < k.randomA.length then
      (k.randomB.pad k.randomA.length).map fun b => (k.randomA, b)
    else if k.randomA.length < k.randomB.length then
      (k.randomA.pad k.randomB.length).map fun a => (a, k.randomB)
    else some (k.randomA, k.randomB)
  let randomKey ← combineLoop a b a.length.toNat 0 []
  pure { randomA := a, randomB := b, hashKey := sha.hash randomKey }

/-! ### The commands -/

/-- What leaves this side: commands to the peer, and the key to the other earbud. -/
inductive ConnOutput where
  | send (opCode : Nat) (pdata : List UInt8)
  | syncTotaEncodeStatus (hashKey : List UInt8)

/-- `_is_tota_initiate`, `keyManager`, the key of the encryption, the connect status, and what was
sent. -/
structure ConnState where
  isTotaInitiate : Bool
  keyManager : KeyManager
  key : List UInt8
  connectStatus : ConnectStatus
  outputs : List ConnOutput

/-- The bytes of a string without its end. -/
def strBytes (str : String) : List UInt8 := str.toList.map fun c => UInt8.ofNat c.toNat

/-- `tota_set_encrypt_key_from_hash_key`. -/
def setEncryptKeyFromHashKey (hashKey : List UInt8) : List UInt8 :=
  (List.range encryptKeySize).map fun i => hashKey.getD (2 * i) 0

/-- The lists of an `OP_TOTA_CONN_INITIATE`. -/
def KeyManager.initiate (k : KeyManager) (p : ConnParam) (rand : Nat → Nat) : KeyManager :=
  { k with
    randomA := generateRandomKey rand k.randomA
    randomB := p.pConn }

/-- `_tota_conn_and_update_key_handle`. -/
def connAndUpdateKeyHandle (sha : Sha256) (funcCode : Nat) (p : ConnParam) (rand : Nat → Nat)
    (s : ConnState) : Option ConnState :=
  if funcCode = opTotaConnInitiate then
    let k := s.keyManager.initiate p rand
    -- the response is sent before the lists are filled up
    let response := (k.randomA.length :: k.randomA.randomKey).take (k.randomA.length.toNat + 1)
    (calculateEncryptKey sha k).map fun k =>
      { s with
        isTotaInitiate := true
        keyManager := k
        outputs := s.outputs ++ [.send opTotaConnResponse response] }
  else if funcCode = opTotaConnConfirm then
    if s.isTotaInitiate then
      if p.pConn.randomKey.take hashKeySize = s.keyManager.hashKey then
        some { s with
          isTotaInitiate := false
          key := setEncryptKeyFromHashKey s.keyManager.hashKey
          connectStatus := .shakeHanded
          outputs := s.outputs ++ [.syncTotaEncodeStatus s.keyManager.hashKey,
            .send opTotaString (strBytes "connect success.")] }
      else
        some { s with
          isTotaInitiate := false
          connectStatus := .connected
          outputs := s.outputs ++ [.send opTotaString (strBytes "shake hand failed.")] }
    else some s
  else some s

/-- The commands, with the random numbers that they draw, and the connection. -/
inductive ConnEvent where
  | command (funcCode : Nat) (p : ConnParam) (rand : Nat → Nat)
  | connected
  | disconnected

/-- What an event does to the state. -/
def connStep (sha : Sha256) (s : ConnState) : ConnEvent → Option ConnState
  | .command funcCode p rand => connAndUpdateKeyHandle sha funcCode p rand s
  | .connected => some { s with connectStatus := .connected }
  | .disconnected => some { s with connectStatus := .disconnected }

/-- Before the first command. -/
def ConnState.initial (k : KeyManager) (key : List UInt8) (status : ConnectStatus) : ConnState where
  isTotaInitiate := false
  keyManager := k
  key := key
  connectStatus := status
  outputs := []

/-! ### The contract -/

/-- The random list of a side. -/
def TotaConnStruct.list (r : TotaConnStruct) : List UInt8 := r.randomKey.take r.length.toNat

/-- The random list that is generated. -/
def generatedList (rand : Nat → Nat) : List UInt8 :=
  (randomWords rand ((randomLength rand + 3) / 4)).take (randomLength rand)

/-- The lists are combined byte by byte, the shorter one with zeros behind it. -/
def combined (as bs : List UInt8) : List UInt8 :=
  (List.range (max as.length bs.length)).map fun i =>
    generateRandomAlgorithm i (as.getD i 0) (bs.getD i 0)

/-- The peer has the lists the other way round, with whatever is behind them. -/
structure PeerOf (k peer : KeyManager) : Prop where
  lengthA : peer.randomB.length = k.randomA.length
  lengthB : peer.randomA.length = k.randomB.length
  listA : peer.randomB.list = k.randomA.list
  listB : peer.randomA.list = k.randomB.list

/-- The lists that an event brings. -/
def ConnEvent.lists : ConnEvent → Option (List UInt8 × List UInt8)
  | .command funcCode p rand =>
    if funcCode = opTotaConnInitiate then some (generatedList rand, p.pConn.list) else none
  | .connected => none
  | .disconnected => none

/-- The lists of the most recent `OP_TOTA_CONN_INITIATE`. -/
def lastLists (es : List ConnEvent) : Option (List UInt8 × List UInt8) :=
  es.reverse.findSome? ConnEvent.lists

/-- The parameter has the hash in its place. -/
def ConnParam.Carries (p : ConnParam) (hash : List UInt8) : Prop :=
  hashKeySize < p.param.length ∧ (p.param.drop 1).take hashKeySize = hash

/-- What an event must do, after the events `done`. -/
structure Agrees (sha : Sha256) (done : List ConnEvent) (s : ConnState) (e : ConnEvent)
    (t : ConnState) : Prop where
  sameKey : ∀ p rand, e = .command opTotaConnInitiate p rand →
    ∀ peer, PeerOf (s.keyManager.initiate p rand) peer →
      ∃ k, calculateEncryptKey sha peer = some k ∧ k.hashKey = t.keyManager.hashKey
  shakeHanded : s.connectStatus ≠ .shakeHanded → t.connectStatus = .shakeHanded →
    ∃ p rand lists, e = .command opTotaConnConfirm p rand ∧ lastLists done = some lists ∧
      p.Carries (sha.hash (combined lists.1 lists.2))

/-- Every event stays inside the arrays, the peer gets the same key, and the status becomes
`TOTA_SHAKE_HANDED` only when the hash of the most recent lists is confirmed. -/
def KeyAgreement (sha : Sha256) (s : ConnState) (es : List ConnEvent) : Prop :=
  ∀ done e, done ++ [e] <+: es →
    ∃ t u, done.foldlM (connStep sha) s = some t ∧ connStep sha t e = some u ∧ Agrees sha done t e u

/-- The list of an `OP_TOTA_CONN_INITIATE` fits its array, and a confirmation that is too short is
not completed by what is behind it. -/
def ConnEvent.Fits (s : ConnState) : ConnEvent → Prop
  | .command funcCode p _ =>
    (funcCode = opTotaConnInitiate → p.pConn.length.toNat ≤ maxRandomKeySize) ∧
    (funcCode = opTotaConnConfirm → s.isTotaInitiate = true → s.connectStatus ≠ .shakeHanded →
      p.pConn.randomKey.take hashKeySize = s.keyManager.hashKey → hashKeySize < p.param.length)
  | .connected => True
  | .disconnected => True

variable {sha : Sha256} {k peer : KeyManager} {r a b : TotaConnStruct} {rand : Nat → Nat}
  {p : ConnParam} {s t u : ConnState}

/-! ### The operations do not depend on the side -/

theorem generateRandomAlgorithm_comm (id : Nat) (x y : UInt8) :
    generateRandomAlgorithm id x y = generateRandomAlgorithm id y x := by
  rw [generateRandomAlgorithm, generateRandomAlgorithm]
  split
  · exact UInt8.add_comm x y
  · exact UInt8.mul_comm x y
  · exact UInt8.and_comm x y
  · exact UInt8.or_comm x y
  · exact UInt8.xor_comm x y
  · exact UInt8.add_comm _ _
  · rfl

theorem combined_comm (as bs : List UInt8) : combined as bs = combined bs as := by
  rw [combined, combined, Nat.max_comm]
  exact List.map_congr_left fun i _ => generateRandomAlgorithm_comm i _ _

/-! ### Lists that fit -/

/-- The first bytes of the array are those of the list, and behind them there are zeros. -/
def Padded (r : TotaConnStruct) (l : List UInt8) : Prop :=
  ∀ i < r.length.toNat, r.randomKey[i]? = some (l.getD i 0)

theorem TotaConnStruct.length_list (h : r.length.toNat ≤ maxRandomKeySize) :
    r.list.length = r.length.toNat := by
  rw [TotaConnStruct.list, List.length_take, r.size]
  exact Nat.min_eq_left h

theorem TotaConnStruct.padded_list (h : r.length.toNat ≤ maxRandomKeySize) : Padded r r.list := by
  intro i hi
  have hlt : i < r.randomKey.length := by
    rw [r.size]
    exact Nat.lt_of_lt_of_le hi h
  rw [TotaConnStruct.list, List.getD_eq_getElem?_getD, List.getElem?_take_of_lt hi,
    List.getElem?_eq_getElem hlt, Option.getD_some]

/-- A list is filled up inside its array. -/
theorem TotaConnStruct.pad_of_le {length : UInt8} (hle : r.length.toNat ≤ length.toNat)
    (h : length.toNat ≤ maxRandomKeySize) :
    ∃ r', r.pad length = some r' ∧ r'.length = length ∧ Padded r' r.list := by
  have hend : r.length.toNat + (length.toNat - r.length.toNat) = length.toNat :=
    Nat.add_sub_of_le hle
  have hlist := TotaConnStruct.length_list (Nat.le_trans hle h)
  refine ⟨_, dif_pos (hend.le.trans h), rfl, fun i hi => ?_⟩
  change (r.list ++ List.replicate _ 0 ++ _)[i]? = _
  have hlt : i < (r.list ++ List.replicate (length.toNat - r.length.toNat) (0 : UInt8)).length := by
    rw [List.length_append, List.length_replicate, hlist, hend]
    exact hi
  rw [List.getElem?_append_left hlt, List.getD_eq_getElem?_getD]
  by_cases hin : i < r.list.length
  · rw [List.getElem?_append_left hin, List.getElem?_eq_getElem hin, Option.getD_some]
  · rw [List.getElem?_append_right (Nat.not_lt.mp hin), List.getElem?_eq_none (Nat.not_lt.mp hin),
      Option.getD_none, List.getElem?_replicate, if_pos]
    rw [hlist] at *
    exact Nat.sub_lt_sub_right (Nat.not_lt.mp hin) hi

/-- The loop combines the bytes of both lists. -/
theorem combineLoop_eq {as bs : List UInt8} (ha : Padded a as) (hb : Padded b bs)
    (hlen : b.length = a.length) (hmax : a.length.toNat ≤ maxRandomKeySize) {fuel i : Nat}
    (hfuel : i + fuel ≤ a.length.toNat) (randomKey : List UInt8) :
    combineLoop a b fuel i randomKey = some (randomKey ++ (List.range' i fuel).map fun j =>
      generateRandomAlgorithm j (as.getD j 0) (bs.getD j 0)) := by
  induction fuel generalizing i randomKey with
  | zero => rw [combineLoop, List.range'_zero, List.map_nil, List.append_nil]
  | succ fuel ih =>
    have hi : i < a.length.toNat := by omega
    have hi' : i < b.length.toNat := hlen ▸ hi
    rw [combineLoop, ha i hi, hb i hi']
    simp only [Option.bind_eq_bind, Option.bind_some]
    rw [if_pos (Nat.lt_of_lt_of_le hi hmax), ih (by omega), List.range'_succ, List.map_cons,
      List.append_assoc, List.singleton_append]

/-- Lists that fit are combined, and both of them get the greater length. -/
theorem calculateEncryptKey_eq (ha : k.randomA.length.toNat ≤ maxRandomKeySize)
    (hb : k.randomB.length.toNat ≤ maxRandomKeySize) :
    ∃ a b, calculateEncryptKey sha k =
      some ⟨a, b, sha.hash (combined k.randomA.list k.randomB.list)⟩ := by
  have hlistA := TotaConnStruct.length_list ha
  have hlistB := TotaConnStruct.length_list hb
  have hfinish {a b : TotaConnStruct} (hpa : Padded a k.randomA.list)
      (hpb : Padded b k.randomB.list) (hlen : b.length = a.length)
      (hmax : a.length.toNat = max k.randomA.list.length k.randomB.list.length) :
      combineLoop a b a.length.toNat 0 [] = some (combined k.randomA.list k.randomB.list) := by
    have hle : a.length.toNat ≤ maxRandomKeySize := by
      rw [hmax, hlistA, hlistB]
      exact Nat.max_le.mpr ⟨ha, hb⟩
    rw [combineLoop_eq hpa hpb hlen hle (Nat.zero_add _).le, List.nil_append, combined, ← hmax,
      List.range_eq_range']
  rw [calculateEncryptKey]
  by_cases hlt : k.randomB.length < k.randomA.length
  · have hlt' : k.randomB.length.toNat < k.randomA.length.toNat := hlt
    obtain ⟨b, hpad, hlen, hpb⟩ := TotaConnStruct.pad_of_le hlt'.le ha
    rw [if_pos hlt, hpad, Option.map_some, Option.bind_eq_bind, Option.bind_some]
    dsimp only
    rw [hfinish (TotaConnStruct.padded_list ha) hpb hlen (by
      rw [hlistA, hlistB]
      exact (Nat.max_eq_left hlt'.le).symm)]
    exact ⟨k.randomA, b, rfl⟩
  · rw [if_neg hlt]
    by_cases hgt : k.randomA.length < k.randomB.length
    · have hgt' : k.randomA.length.toNat < k.randomB.length.toNat := hgt
      obtain ⟨a, hpad, hlen, hpa⟩ := TotaConnStruct.pad_of_le hgt'.le hb
      rw [if_pos hgt, hpad, Option.map_some, Option.bind_eq_bind, Option.bind_some]
      dsimp only
      rw [hfinish hpa (TotaConnStruct.padded_list hb) hlen.symm (by
        rw [hlistA, hlistB, hlen]
        exact (Nat.max_eq_right hgt'.le).symm)]
      exact ⟨a, k.randomB, rfl⟩
    · have heq : k.randomB.length.toNat = k.randomA.length.toNat :=
        Nat.le_antisymm (Nat.not_lt.mp hgt) (Nat.not_lt.mp hlt)
      rw [if_neg hgt, Option.bind_eq_bind, Option.bind_some]
      dsimp only
      rw [hfinish (TotaConnStruct.padded_list ha) (TotaConnStruct.padded_list hb)
        (UInt8.toNat_inj.mp heq) (by rw [hlistA, hlistB, heq, Nat.max_self])]
      exact ⟨k.randomA, k.randomB, rfl⟩

/-- A list that is longer than the array is not filled up with. -/
theorem calculateEncryptKey_eq_none (ha : k.randomA.length.toNat ≤ maxRandomKeySize)
    (hb : maxRandomKeySize < k.randomB.length.toNat) : calculateEncryptKey sha k = none := by
  have hlt : k.randomA.length.toNat < k.randomB.length.toNat := Nat.lt_of_le_of_lt ha hb
  have hgt : ¬k.randomB.length < k.randomA.length := Nat.not_lt.mpr hlt.le
  have hlt' : k.randomA.length < k.randomB.length := hlt
  rw [calculateEncryptKey, if_neg hgt, if_pos hlt', TotaConnStruct.pad, dif_neg]
  · rfl
  · rw [Nat.add_sub_of_le hlt.le]
    exact Nat.not_le.mpr hb

/-- The peer gets the same key. -/
theorem PeerOf.hashKey (h : PeerOf k peer) (ha : k.randomA.length.toNat ≤ maxRandomKeySize)
    (hb : k.randomB.length.toNat ≤ maxRandomKeySize) :
    ∃ k', calculateEncryptKey sha peer = some k' ∧
      k'.hashKey = sha.hash (combined k.randomA.list k.randomB.list) := by
  obtain ⟨a, b, hcalc⟩ := @calculateEncryptKey_eq sha peer (h.lengthB ▸ hb) (h.lengthA ▸ ha)
  refine ⟨_, hcalc, ?_⟩
  rw [h.listA, h.listB, combined_comm]

/-! ### The generated list -/

theorem toNat_generated :
    (generateRandomKey rand r).length.toNat = randomLength rand :=
  UInt8.toNat_ofNat_of_lt' (Nat.lt_of_le_of_lt (randomLength_le rand) (by decide))

theorem list_generated : (generateRandomKey rand r).list = generatedList rand := by
  rw [TotaConnStruct.list, toNat_generated, generatedList, generateRandomKey]
  refine List.take_append_of_le_length ?_
  rw [length_randomWords]
  omega

/-- The array of the peer's list is the one that may be too short. -/
theorem initiate_fits (k : KeyManager) (p : ConnParam) (rand : Nat → Nat) :
    (k.initiate p rand).randomA.length.toNat ≤ maxRandomKeySize :=
  toNat_generated.le.trans (randomLength_le rand)

/-! ### Events -/

/-- While a confirmation is awaited, the key is that of the most recent lists. -/
def Awaited (sha : Sha256) (done : List ConnEvent) (s : ConnState) : Prop :=
  s.isTotaInitiate = true → ∃ lists, lastLists done = some lists ∧
    s.keyManager.hashKey = sha.hash (combined lists.1 lists.2)

theorem lastLists_append (done : List ConnEvent) (e : ConnEvent) :
    lastLists (done ++ [e]) = e.lists.or (lastLists done) := by
  rw [lastLists, List.reverse_append, List.reverse_singleton, List.singleton_append,
    List.findSome?_cons]
  cases e.lists <;> rfl

/-- A parameter that is long enough carries what is compared. -/
theorem ConnParam.carries_iff {hash : List UInt8} :
    p.Carries hash ↔ hashKeySize < p.param.length ∧ p.pConn.randomKey.take hashKeySize = hash := by
  refine and_congr_right fun hlong => ?_
  have hdrop : (p.param ++ p.behind).drop 1 = p.param.drop 1 ++ p.behind :=
    List.drop_append_of_le_length (Nat.le_trans (by decide) hlong.le)
  have htake : p.pConn.randomKey.take hashKeySize = (p.param.drop 1).take hashKeySize := by
    rw [ConnParam.pConn, List.take_take, hdrop, Nat.min_eq_left (by decide)]
    refine List.take_append_of_le_length ?_
    rw [List.length_drop]
    omega
  rw [htake]

/-- The key of an initiation is that of its lists. -/
theorem initiate_spec (hle : p.pConn.length.toNat ≤ maxRandomKeySize) :
    ∃ a b, calculateEncryptKey sha (s.keyManager.initiate p rand) =
      some ⟨a, b, sha.hash (combined (generatedList rand) p.pConn.list)⟩ := by
  rw [← @list_generated s.keyManager.randomA rand]
  exact calculateEncryptKey_eq (initiate_fits s.keyManager p rand) hle

/-- Every event leaves the key that is awaited. -/
theorem Awaited.step {done : List ConnEvent} {e : ConnEvent} (h : Awaited sha done s)
    (ht : connStep sha s e = some t) : Awaited sha (done ++ [e]) t := by
  have hkeep (hlists : e.lists = none)
      (hinitiate : t.isTotaInitiate = true → s.isTotaInitiate = true)
      (hkey : t.keyManager = s.keyManager) : Awaited sha (done ++ [e]) t := by
    intro ht
    rw [lastLists_append, hlists, Option.none_or, hkey]
    exact h (hinitiate ht)
  cases e with
  | command funcCode p rand =>
    rw [connStep, connAndUpdateKeyHandle] at ht
    by_cases hinitiate : funcCode = opTotaConnInitiate
    · rw [if_pos hinitiate] at ht
      have hle : p.pConn.length.toNat ≤ maxRandomKeySize := by
        by_contra hlong
        dsimp only at ht
        rw [calculateEncryptKey_eq_none (initiate_fits s.keyManager p rand) (Nat.not_le.mp hlong),
          Option.map_none] at ht
        exact Option.some_ne_none t ht.symm
      obtain ⟨a, b, hcalc⟩ := @initiate_spec sha rand p s hle
      dsimp only at ht
      rw [hcalc, Option.map_some] at ht
      obtain rfl := Option.some.inj ht
      refine fun _ => ⟨(generatedList rand, p.pConn.list), ?_, rfl⟩
      rw [lastLists_append, ConnEvent.lists, if_pos hinitiate, Option.some_or]
    · have hlists : (ConnEvent.command funcCode p rand).lists = none := if_neg hinitiate
      rw [if_neg hinitiate] at ht
      split_ifs at ht
      · obtain rfl := Option.some.inj ht
        exact hkeep hlists (fun h => absurd h Bool.false_ne_true) rfl
      · obtain rfl := Option.some.inj ht
        exact hkeep hlists (fun h => absurd h Bool.false_ne_true) rfl
      · obtain rfl := Option.some.inj ht
        exact hkeep hlists id rfl
      · obtain rfl := Option.some.inj ht
        exact hkeep hlists id rfl
  | connected =>
    obtain rfl := Option.some.inj ht
    exact hkeep rfl id rfl
  | disconnected =>
    obtain rfl := Option.some.inj ht
    exact hkeep rfl id rfl

/-- An initiation keeps the contract exactly when the list fits. -/
theorem initiate_agrees_iff {done : List ConnEvent} :
    (∃ t, connStep sha s (.command opTotaConnInitiate p rand) = some t ∧
      Agrees sha done s (.command opTotaConnInitiate p rand) t) ↔
      p.pConn.length.toNat ≤ maxRandomKeySize := by
  have hfits := initiate_fits s.keyManager p rand
  rw [connStep, connAndUpdateKeyHandle, if_pos rfl]
  dsimp only
  constructor
  · rintro ⟨t, ht, -⟩
    by_contra hlong
    rw [calculateEncryptKey_eq_none hfits (Nat.not_le.mp hlong), Option.map_none] at ht
    exact Option.some_ne_none t ht.symm
  · intro hle
    obtain ⟨a, b, hcalc⟩ := @calculateEncryptKey_eq sha (s.keyManager.initiate p rand) hfits hle
    rw [hcalc, Option.map_some]
    refine ⟨_, rfl, ?_, fun hs ht => absurd ht hs⟩
    intro p' rand' he peer hpeer
    obtain ⟨-, rfl, rfl⟩ := ConnEvent.command.inj he
    exact hpeer.hashKey hfits hle

/-- An event that is no initiation, and does not make the status `TOTA_SHAKE_HANDED`, does what it
must. -/
theorem agrees_of_ne {done : List ConnEvent} {e : ConnEvent}
    (hcode : ∀ p rand, e ≠ .command opTotaConnInitiate p rand)
    (hstatus : t.connectStatus = .shakeHanded → s.connectStatus = .shakeHanded) :
    Agrees sha done s e t :=
  ⟨fun p rand he => absurd he (hcode p rand), fun hs ht => absurd (hstatus ht) hs⟩

/-- A command with another code is no initiation. -/
theorem command_ne {funcCode : Nat} (h : funcCode ≠ opTotaConnInitiate) (p' : ConnParam)
    (rand' : Nat → Nat) :
    ConnEvent.command funcCode p rand ≠ .command opTotaConnInitiate p' rand' :=
  fun he => h (ConnEvent.command.inj he).1

/-- A confirmation keeps the contract exactly when it is not completed by what is behind it. -/
theorem confirm_agrees_iff {done : List ConnEvent} (hawaited : Awaited sha done s) :
    (∃ t, connStep sha s (.command opTotaConnConfirm p rand) = some t ∧
      Agrees sha done s (.command opTotaConnConfirm p rand) t) ↔
      (s.isTotaInitiate = true → s.connectStatus ≠ .shakeHanded →
        p.pConn.randomKey.take hashKeySize = s.keyManager.hashKey →
          hashKeySize < p.param.length) := by
  have hne : opTotaConnConfirm ≠ opTotaConnInitiate := by decide
  rw [connStep, connAndUpdateKeyHandle, if_neg hne, if_pos rfl]
  by_cases hflag : s.isTotaInitiate = true
  · rw [if_pos hflag, forall_prop_of_true hflag]
    obtain ⟨lists, hlast, hkey⟩ := hawaited hflag
    by_cases hmatch : p.pConn.randomKey.take hashKeySize = s.keyManager.hashKey
    · rw [if_pos hmatch]
      constructor
      · rintro ⟨t, ht, hagrees⟩ hs -
        obtain rfl := Option.some.inj ht
        obtain ⟨p', rand', lists', he, -, hcarries⟩ := hagrees.shakeHanded hs rfl
        obtain ⟨-, rfl, -⟩ := ConnEvent.command.inj he
        exact hcarries.1
      · intro hlong
        refine ⟨_, rfl, fun p' rand' he => absurd he (command_ne hne p' rand'), fun hs _ => ?_⟩
        exact ⟨p, rand, lists, rfl, hlast,
          ConnParam.carries_iff.mpr ⟨hlong hs hmatch, hmatch.trans hkey⟩⟩
    · rw [if_neg hmatch]
      refine iff_of_true ⟨_, rfl, agrees_of_ne (command_ne hne) fun h => ?_⟩
        fun _ h => absurd h hmatch
      exact ConnectStatus.noConfusion h
  · rw [if_neg hflag]
    exact iff_of_true ⟨s, rfl, agrees_of_ne (command_ne hne) id⟩ fun h => absurd h hflag

/-- An event keeps the contract exactly when it fits. -/
theorem agrees_iff {done : List ConnEvent} (hawaited : Awaited sha done s) (e : ConnEvent) :
    (∃ t, connStep sha s e = some t ∧ Agrees sha done s e t) ↔ e.Fits s := by
  cases e with
  | command funcCode p rand =>
    rw [ConnEvent.Fits]
    by_cases hinitiate : funcCode = opTotaConnInitiate
    · subst hinitiate
      rw [initiate_agrees_iff, forall_prop_of_true rfl, iff_self_and]
      exact fun _ h => absurd h (by decide)
    · rw [and_iff_right fun h => absurd h hinitiate]
      by_cases hconfirm : funcCode = opTotaConnConfirm
      · subst hconfirm
        rw [confirm_agrees_iff hawaited, forall_prop_of_true rfl]
      · have hstep : connStep sha s (.command funcCode p rand) = some s := by
          rw [connStep, connAndUpdateKeyHandle, if_neg hinitiate, if_neg hconfirm]
        exact iff_of_true ⟨s, hstep, agrees_of_ne (command_ne hinitiate) id⟩
          fun h => absurd h hconfirm
  | connected =>
    exact iff_of_true ⟨_, rfl, agrees_of_ne (fun _ _ => ConnEvent.noConfusion)
      ConnectStatus.noConfusion⟩ trivial
  | disconnected =>
    exact iff_of_true ⟨_, rfl, agrees_of_ne (fun _ _ => ConnEvent.noConfusion)
      ConnectStatus.noConfusion⟩ trivial

/-! ### Runs -/

/-- A run stays inside the arrays, agrees on every key, and shakes hands only on the hash of the
most recent lists, exactly when no list of the peer is longer than its array and no confirmation is
completed by what is behind it. -/
theorem keyAgreement_iff (sha : Sha256) (k : KeyManager) (key : List UInt8)
    (status : ConnectStatus) (es : List ConnEvent) :
    KeyAgreement sha (.initial k key status) es ↔
      Transition.Along (connStep sha) (fun s e => e.Fits s) (.initial k key status) es :=
  @Transition.lawful_iff_along _ _ (connStep sha) (fun s e => e.Fits s) (Agrees sha) (Awaited sha)
    (fun _ _ e hawaited => agrees_iff hawaited e)
    (fun _ _ _ _ hawaited ht _ => hawaited.step ht)
    [] _ (fun h => absurd h Bool.false_ne_true) es

/-- No list. -/
def TotaConnStruct.zero : TotaConnStruct where
  length := 0
  randomKey := List.replicate maxRandomKeySize 0
  size := List.length_replicate

/-- Some function in the place of the hash function. -/
def Sha256.zero : Sha256 where
  hash _ := List.replicate hashKeySize 0
  length_hash _ := List.length_replicate

/-- A list of 129 bytes, after which nothing is promised. The hash function is not called. -/
theorem initiate_not_agreeing :
    ¬KeyAgreement .zero (.initial ⟨.zero, .zero, []⟩ [] .connected)
      [.command opTotaConnInitiate
        ⟨129 :: List.replicate 129 1, [], by simp [maxRandomKeySize]⟩ fun _ => 0] := by
  intro h
  obtain ⟨t, u, ht, hu, -⟩ := h [] _ List.prefix_rfl
  obtain rfl := Option.some.inj ht
  exact absurd hu.symm (Option.some_ne_none u)

end EarbudFirmware.Tota
