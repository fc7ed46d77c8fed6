import Mathlib.Data.Finset.Basic
import Mathlib.Data.List.Range
import Mathlib.Tactic.IntervalCases
import OpenBlue.Mesh.Model.PbAdv
/-!
# Mesh — transactions of the provisioning bearer

A provisioning PDU is cut into segments by the sender and put together by
the receiver, in whatever order and however often the segments arrive. A
receiver that took some of the segments in is described by which it took:
the bits of `link.rx.seg` are those of the rest, and each byte of the
message whose segment arrived is in its place. Sender and receiver count
the segments apart, and disagree when the last segment is full.
-/

namespace OpenBlue

namespace PbAdv

open List

variable {msg : Bytes} {n i j k last : ℕ}

/-! ## Segments -/

/-- The segment that carries byte `i` of a message. -/
def home (i : ℕ) : ℕ := if i < startPayloadMax then 0 else 1 + (i - startPayloadMax) / contPayloadMax

/-- Where segment `k` begins in the message. -/
def offset (k : ℕ) : ℕ := if k = 0 then 0 else xactSegOffset k

/-- The bytes that segment `k` carries. -/
def chunk (msg : Bytes) (k : ℕ) : Bytes :=
  (msg.drop (offset k)).take (if k = 0 then startPayloadMax else contPayloadMax)

/-- How many segments a message of `n` bytes is sent in. -/
def segments (n : ℕ) : ℕ :=
  if n ≤ startPayloadMax then 1 else 1 + (n - startPayloadMax + 22) / contPayloadMax

/-- The segment `k` of a message, as it is sent. -/
def segment (id : ℕ) (x : UInt8) (msg : Bytes) (k : ℕ) : Bytes :=
  beBytes 4 id ++ [x] ++
    if k = 0 then
      [gpcStart (lastSeg msg.length)] ++ beBytes 2 msg.length ++ [fcsCalc msg] ++ chunk msg 0
    else [gpcCont k] ++ chunk msg k

theorem home_eq (i : ℕ) : home i = if i < 20 then 0 else 1 + (i - 20) / 23 := rfl

theorem segments_eq (n : ℕ) : segments n = if n ≤ 20 then 1 else 1 + (n - 20 + 22) / 23 := rfl

theorem lastSeg_eq (n : ℕ) : lastSeg n = if n ≤ 20 then 0 else (1 + (n - 20) / 23) % 2 ^ 8 := rfl

theorem offset_eq (k : ℕ) : offset k = if k = 0 then 0 else 20 + (k - 1) * 23 := rfl

theorem length_chunk (msg : Bytes) (k : ℕ) :
    (chunk msg k).length = min (if k = 0 then 20 else 23) (msg.length - offset k) := by
  rw [chunk, length_take, length_drop]
  rfl

theorem home_lt_segments (hi : i < n) : home i < segments n := by
  rw [home_eq, segments_eq]
  split <;> split <;> omega

theorem getElem?_chunk (hi : home i = k) : (chunk msg k)[i - offset k]? = msg[i]? := by
  subst hi
  rw [chunk, getElem?_take, getElem?_drop]
  rw [home_eq, offset_eq]
  by_cases hstart : i < 20
  · simp [hstart, startPayloadMax]
  · simp only [hstart, if_false, Nat.add_eq_zero_iff, Nat.one_ne_zero, false_and, contPayloadMax]
    rw [if_pos (by omega)]
    congr 1
    omega

theorem home_eq_iff (hi : i < msg.length) :
    home i = k ↔ offset k ≤ i ∧ i < offset k + (chunk msg k).length := by
  rw [length_chunk, home_eq, offset_eq]
  by_cases hk : k = 0
  · simp only [hk, if_true]
    split <;> omega
  · simp only [hk, if_false]
    split <;> omega

theorem offset_add_length_le (hk : k < segments msg.length) :
    offset k + (chunk msg k).length ≤ msg.length := by
  rw [segments_eq] at hk
  rw [length_chunk, offset_eq]
  rcases Nat.eq_zero_or_pos k with rfl | hpos
  · simp only [if_true]
    omega
  · rw [if_neg (by omega), if_neg (by omega)]
    split at hk <;> omega

/-- **Where sender and receiver agree on the segments**: the receiver waits
for one more than is sent when the last is full, which only 43 bytes are. -/
theorem segments_eq_iff (hmax : n ≤ rxBufferMax) : segments n = lastSeg n + 1 ↔ n ≠ 43 := by
  rw [rxBufferMax] at hmax
  rw [segments_eq, lastSeg_eq]
  split
  · omega
  · constructor
    · omega
    · intro hne
      have : n - 20 ≠ 23 := by omega
      omega

theorem segments_le (hmax : n ≤ rxBufferMax) : segments n ≤ lastSeg n + 1 := by
  rw [rxBufferMax] at hmax
  rw [segments_eq, lastSeg_eq]
  split <;> omega

theorem lastSeg_le (hmax : n ≤ rxBufferMax) : lastSeg n ≤ 2 := by
  rw [rxBufferMax] at hmax
  rw [lastSeg_eq]
  split <;> omega

/-! ## Sending -/

theorem sendConts_eq {adv : ℕ → Bool} {hdr : Bytes} {room : ℕ} {conts : List Bytes}
    (h : sendConts adv hdr k room msg = .ok conts) :
    conts = (List.range ((msg.length + 22) / contPayloadMax)).map fun j =>
      hdr ++ [gpcCont (k + j)] ++ (msg.drop (j * contPayloadMax)).take contPayloadMax := by
  induction room generalizing k msg conts with
  | zero =>
    cases msg with
    | nil =>
      rw [sendConts] at h
      obtain rfl := Except.ok.inj h
      rfl
    | cons b msg => exact nomatch h
  | succ room ih =>
    cases msg with
    | nil =>
      rw [sendConts] at h
      obtain rfl := Except.ok.inj h
      rfl
    | cons b msg =>
      rw [sendConts] at h
      split at h
      · cases hrest : sendConts adv hdr (k + 1) room ((b :: msg).drop contPayloadMax) with
        | error e => rw [hrest] at h; exact nomatch h
        | ok rest =>
          rw [hrest] at h
          obtain rfl := Except.ok.inj h
          have hcount : ((b :: msg).length + 22) / contPayloadMax =
              (((b :: msg).drop contPayloadMax).length + 22) / contPayloadMax + 1 := by
            rw [length_drop]
            simp only [length_cons, contPayloadMax]
            omega
          rw [hcount, range_succ_eq_map, map_cons, map_map, ih hrest]
          simp [Function.comp_def, Nat.add_mul, Nat.add_comm, Nat.add_left_comm]
      · exact nomatch h

/-- **What is sent is the segments of the message**, in order. -/
theorem provSendAdv_segments {adv : ℕ → Bool} {s s' : Link}
    (h : provSendAdv adv msg s = (s', none)) :
    s'.tx.adv = (List.range (segments msg.length)).map (segment s'.id s'.tx.id msg) := by
  simp only [provSendAdv] at h
  split at h
  · split at h
    next conts hconts =>
      obtain ⟨rfl, -⟩ := Prod.mk.inj h
      have hcount : segments msg.length =
          ((msg.drop startPayloadMax).length + 22) / contPayloadMax + 1 := by
        rw [length_drop, segments_eq]
        change _ = (msg.length - 20 + 22) / 23 + 1
        split <;> omega
      rw [hcount, range_succ_eq_map, map_cons, map_map, sendConts_eq hconts]
      refine congrArg₂ List.cons ?_ (map_congr_left fun j _ => ?_)
      · simp [segment, chunk, offset, provClearTx]
      · have hoff : offset (j + 1) = startPayloadMax + j * contPayloadMax := by
          simp [offset, xactSegOffset, startPayloadMax, contPayloadMax]
        simp [segment, chunk, hoff, provClearTx, drop_drop, Nat.add_comm]
    next => exact nomatch (Prod.mk.inj h).2
  · exact nomatch (Prod.mk.inj h).2

/-! ## Bits and bytes -/

theorem getLsbD_xactSegRecv (missing : BitVec 8) (hi : i < 8) :
    (xactSegRecv missing k).getLsbD i = (missing.getLsbD i && decide (i ≠ k)) := by
  rw [xactSegRecv, BitVec.getLsbD_and, BitVec.getLsbD_not, BitVec.getLsbD_shiftLeft,
    BitVec.getLsbD_one]
  by_cases hik : i = k
  · subst hik
    simp [hi]
  · have : ¬ (i - k = 0 ∧ k ≤ i) := by omega
    by_cases hle : i < k
    · simp [hi, hik, hle]
    · have hsub : i - k ≠ 0 := by omega
      simp [hi, hik, hle, hsub]

theorem eq_zero_iff (missing : BitVec 8) : missing = 0 ↔ ∀ i < 8, missing.getLsbD i = false := by
  constructor
  · rintro rfl i -
    exact BitVec.getLsbD_zero
  · intro h
    refine BitVec.eq_of_getLsbD_eq fun i hi => ?_
    rw [h i hi]
    exact BitVec.getLsbD_zero.symm

theorem length_memcpy {data src : Bytes} (h : k + src.length ≤ data.length) :
    (memcpy data k src).length = data.length := by
  simp only [memcpy, length_append, length_take, length_drop]
  omega

/-- **A copy changes the bytes it writes and no others.** -/
theorem getElem?_memcpy {data src : Bytes} (h : k + src.length ≤ data.length) :
    (memcpy data k src)[i]? = if k ≤ i ∧ i < k + src.length then src[i - k]? else data[i]? := by
  have hmin : min k data.length = k := by omega
  rw [memcpy, getElem?_append, getElem?_append]
  simp only [length_append, length_take, hmin]
  by_cases hlow : i < k
  · rw [if_pos (by omega), if_pos hlow, if_neg (by omega), getElem?_take, if_pos hlow]
  · by_cases hmid : i < k + src.length
    · rw [if_pos hmid, if_neg hlow, if_pos (by omega)]
    · rw [if_neg hmid, if_neg (by omega), getElem?_drop]
      congr 1
      omega

theorem fcsCheck_fcsCalc (data : Bytes) : fcsCheck data (fcsCalc data) = true := by
  rw [fcsCheck, fcsCalc, crcByte]
  generalize data.foldl crcByte 0xff = fcs
  have hxor : fcs ^^^ (0xff - fcs) = 0xff := by
    rw [← UInt8.toBitVec_inj]
    simp only [UInt8.toBitVec_xor, UInt8.toBitVec_sub]
    generalize fcs.toBitVec = b
    revert b
    decide +kernel
  rw [hxor]
  decide +kernel

theorem findMsbSet_le {op : ℕ} (h : ∀ i, op.testBit i = true → i ≤ last) :
    findMsbSet op - 1 ≤ last := by
  rw [findMsbSet]
  split
  · exact Nat.zero_le _
  next hne =>
    rw [Nat.add_sub_cancel]
    exact h _ (Nat.testBit_log2 hne)

/-! ## Receiving

`R` is the set of the segments that arrived. -/

section Receive

variable {id : ℕ} {x gpc : UInt8} {env : Env} {l l' : Link} {R : Finset ℕ} {os os' : List Out}

/-- The messages handed to the layer above. -/
def delivered (os : List Out) : List Bytes :=
  os.filterMap fun | .recv m => some m | _ => none

/-- The errors reported to the layer above. -/
def failures (os : List Out) : List ℕ :=
  os.filterMap fun | .error e => some e | _ => none

@[simp] theorem delivered_append :
    delivered (os ++ os') = delivered os ++ delivered os' := filterMap_append

@[simp] theorem failures_append : failures (os ++ os') = failures os ++ failures os' :=
  filterMap_append

/-- Every segment the receiver waits for arrived. -/
def Complete (n : ℕ) (R : Finset ℕ) : Prop := Finset.range (lastSeg n + 1) ⊆ R

instance : Decidable (Complete n R) :=
  inferInstanceAs (Decidable (Finset.range (lastSeg n + 1) ⊆ R))

theorem Complete.mem (h : Complete n R) (hi : i ≤ lastSeg n) : i ∈ R :=
  h (Finset.mem_range.2 (Nat.lt_succ_of_le hi))

theorem not_complete (hmax : n ≤ rxBufferMax) (hk : k < segments n) (hkR : k ∉ R) :
    ¬ Complete n R := fun h =>
  hkR (h.mem (Nat.le_of_lt_succ (hk.trans_le (segments_le hmax))))

/-- A link that hears the segments of link `id`. -/
structure Hears (id : ℕ) (l : Link) : Prop where
  cb : l.cb = true
  active : l.active = true
  invalid : l.invalid = false
  linkId : l.id = id
  storage : l.rx.data.length = rxBufferMax

/-- A receiver that waits for the transaction `x`: it completed the one
before and sends nothing of its own. -/
structure Fresh (id : ℕ) (x : UInt8) (l : Link) : Prop extends Hears id l where
  seg : l.rx.seg = 0
  next : x = nextTransactionId l.rx.id
  idle : l.tx.adv = []

/-- A receiver that took the segments `R` of the transaction `x`. -/
structure Took (id : ℕ) (x : UInt8) (msg : Bytes) (R : Finset ℕ) (l : Link) : Prop
    extends Hears id l where
  xact : l.rx.id = x
  missing : ∀ i < 8, l.rx.seg.getLsbD i = true ↔ i ∉ R ∧ (0 ∈ R → i ≤ lastSeg msg.length)
  started : 0 ∈ R → l.rx.lastSeg = lastSeg msg.length ∧ l.rx.len = msg.length ∧
    l.rx.fcs = fcsCalc msg
  unstarted : 0 ∉ R → l.rx.lastSeg = segNval
  kept : ∀ i < msg.length, home i ∈ R → l.rx.data[i]? = msg[i]?
  sent : ∀ k ∈ R, k < segments msg.length
  idle : ¬ Complete msg.length R → l.tx.adv = []

/-- A reception that takes the receiver from `R` to `R'`: the message is
delivered where it becomes complete, and nowhere else. -/
structure Takes (id : ℕ) (x : UInt8) (msg : Bytes) (R R' : Finset ℕ) (r : Link × List Out) :
    Prop where
  took : Took id x msg R' r.1
  delivered : delivered r.2 =
    if Complete msg.length R' ∧ ¬ Complete msg.length R then [msg] else []
  failures : failures r.2 = []

theorem Takes.same (h : Took id x msg R l) (hd : PbAdv.delivered os = [])
    (hf : PbAdv.failures os = []) : Takes id x msg R R (l, os) :=
  ⟨h, by rw [hd, if_neg fun h => h.2 h.1], hf⟩

theorem Took.seg_eq_zero_iff (h : Took id x msg R l) (hmax : msg.length ≤ rxBufferMax) :
    l.rx.seg = 0 ↔ Complete msg.length R := by
  have hlast := lastSeg_le hmax
  rw [eq_zero_iff]
  constructor
  · intro hzero
    have hstart : 0 ∈ R := by
      by_contra hno
      have hbit := (h.missing 0 (by omega)).2 ⟨hno, fun hyes => absurd hyes hno⟩
      rw [hzero 0 (by omega)] at hbit
      exact nomatch hbit
    intro i hi
    have hle : i ≤ lastSeg msg.length := Nat.le_of_lt_succ (Finset.mem_range.1 hi)
    by_contra hno
    have hbit := (h.missing i (by omega)).2 ⟨hno, fun _ => hle⟩
    rw [hzero i (by omega)] at hbit
    exact nomatch hbit
  · intro hall i hi
    rw [Bool.eq_false_iff]
    intro hbit
    obtain ⟨hno, hle⟩ := (h.missing i hi).1 hbit
    exact hno (hall.mem (hle (hall.mem (Nat.zero_le _))))

/-- **A receiver that took all holds the message.** -/
theorem Took.message (h : Took id x msg R l) (hmax : msg.length ≤ rxBufferMax)
    (hall : Complete msg.length R) : l.rx.data.take l.rx.len = msg := by
  rw [(h.started (hall.mem (Nat.zero_le _))).2.1]
  refine ext_getElem? fun i => ?_
  rw [getElem?_take]
  split
  next hi =>
    have hhome := home_lt_segments hi
    have hle := segments_le hmax
    exact h.kept i hi (hall.mem (by omega))
  next hi => exact (getElem?_eq_none (by omega)).symm

/-- What sending an acknowledgment leaves of a link. -/
structure AckOnly (l : Link) (r : Link × List Out) : Prop where
  cb : r.1.cb = l.cb
  active : r.1.active = l.active
  invalid : r.1.invalid = l.invalid
  id : r.1.id = l.id
  rx : r.1.rx = l.rx
  adv : r.1.tx.adv = l.tx.adv
  delivered : delivered r.2 = []
  failures : failures r.2 = []

theorem genProvAckSend_ackOnly (env : Env) (x : UInt8) (l : Link) :
    AckOnly l (genProvAckSend env x l) := by
  rw [genProvAckSend]
  split
  · exact ⟨rfl, rfl, rfl, rfl, rfl, rfl, rfl, rfl⟩
  · split
    · by_cases hpending : l.ackPending <;> by_cases hroom : env.unacked <;>
        simp only [hpending, hroom, if_true, if_false, Bool.false_eq_true] <;>
        exact ⟨rfl, rfl, rfl, rfl, rfl, rfl, rfl, rfl⟩
    · exact ⟨rfl, rfl, rfl, rfl, rfl, rfl, rfl, rfl⟩

theorem resendAck_ackOnly (env : Env) (x : UInt8) (l : Link) : AckOnly l (resendAck env x l) := by
  rw [resendAck]
  split
  · exact ⟨rfl, rfl, rfl, rfl, rfl, rfl, rfl, rfl⟩
  · exact genProvAckSend_ackOnly env x l

theorem Hears.congr (h : Hears id l) (hcb : l'.cb = l.cb) (hactive : l'.active = l.active)
    (hinvalid : l'.invalid = l.invalid) (hid : l'.id = l.id) (hrx : l'.rx = l.rx) : Hears id l' :=
  ⟨hcb.trans h.cb, hactive.trans h.active, hinvalid.trans h.invalid, hid.trans h.linkId,
    hrx ▸ h.storage⟩

theorem Took.congr (h : Took id x msg R l) (hhears : Hears id l') (hrx : l'.rx = l.rx)
    (hidle : ¬ Complete msg.length R → l'.tx.adv = []) : Took id x msg R l' :=
  ⟨hhears, hrx ▸ h.xact, hrx ▸ h.missing, hrx ▸ h.started, hrx ▸ h.unstarted, hrx ▸ h.kept, h.sent,
    hidle⟩

theorem AckOnly.hears {r : Link × List Out} (ha : AckOnly l r) (h : Hears id l) : Hears id r.1 :=
  h.congr ha.cb ha.active ha.invalid ha.id ha.rx

theorem AckOnly.takes {r : Link × List Out} (ha : AckOnly l r) (h : Took id x msg R l) :
    Takes id x msg R R r :=
  .same (h.congr (ha.hears h.toHears) ha.rx fun hno => ha.adv.trans (h.idle hno)) ha.delivered
    ha.failures

/-- **A segment that was missing is taken**, and with the last of them the
message is delivered. -/
theorem Took.finish (h : Took id x msg (insert k R) l) (hmax : msg.length ≤ rxBufferMax)
    (hno : ¬ Complete msg.length R) :
    Takes id x msg R (insert k R) (if l.rx.seg = 0 then provMsgRecv env l else (l, [])) := by
  split
  next hzero =>
    have hall := (h.seg_eq_zero_iff hmax).1 hzero
    have hmsg := h.message hmax hall
    have hfcs := (h.started (hall.mem (Nat.zero_le _))).2.2
    have hack := genProvAckSend_ackOnly env l.rx.id l
    have hvalid := hack.invalid.trans h.invalid
    rw [provMsgRecv]
    simp only [hmsg, hfcs, fcsCheck_fcsCalc, if_true, hvalid, Bool.false_eq_true, if_false]
    refine ⟨h.congr ?_ hack.rx fun hno => absurd hall hno, ?_, ?_⟩
    · exact (hack.hears h.toHears).congr rfl rfl hvalid.symm rfl rfl
    · rw [delivered_append, hack.delivered, if_pos ⟨hall, hno⟩]
      rfl
    · rw [failures_append, hack.failures]
      rfl
  next hzero =>
    have hmissing : ¬ Complete msg.length (insert k R) := fun hall =>
      hzero ((h.seg_eq_zero_iff hmax).2 hall)
    exact ⟨h, by rw [if_neg fun hall => hmissing hall.1]; rfl, rfl⟩

theorem kept_memcpy {data : Bytes} (hmax : msg.length ≤ data.length)
    (hk : k < segments msg.length) (h : ∀ i < msg.length, home i ∈ R → data[i]? = msg[i]?) :
    ∀ i < msg.length, home i ∈ insert k R → (memcpy data (offset k) (chunk msg k))[i]? = msg[i]? := by
  intro i hi hhome
  rw [getElem?_memcpy ((offset_add_length_le hk).trans hmax)]
  by_cases hik : home i = k
  · rw [if_pos ((home_eq_iff hi).1 hik), getElem?_chunk hik]
  · rw [if_neg fun hin => hik ((home_eq_iff hi).2 hin)]
    exact h i hi ((Finset.mem_insert.1 hhome).resolve_left hik)

theorem length_last (hk : k ≠ 0) (hlast : k = lastSeg msg.length) (hsent : k < segments msg.length)
    (hmax : msg.length ≤ rxBufferMax) :
    ((msg.length : Int) - 20 - ((k : Int) - 1) * 23) % 2 ^ 8 = (chunk msg k).length := by
  rw [rxBufferMax] at hmax
  rw [segments_eq] at hsent
  rw [lastSeg_eq] at hlast
  rw [length_chunk, if_neg hk, offset_eq, if_neg hk]
  split at hlast <;> split at hsent <;> omega

/-- **A Continuation is taken**, before the Start or after it. -/
theorem Took.contStore (h : Took id x msg R l) (hmax : msg.length ≤ rxBufferMax) (hk : k ≠ 0)
    (hsent : k < segments msg.length) :
    Takes id x msg R (insert k R) (contStore env k (chunk msg k) l) := by
  have hle := segments_le hmax
  have hlast := lastSeg_le hmax
  have hvalid : ¬ (k > l.rx.lastSeg ∨ k = 0) := by
    by_cases hstart : 0 ∈ R
    · rw [(h.started hstart).1]
      omega
    · rw [h.unstarted hstart, segNval]
      omega
  rw [PbAdv.contStore, if_neg hvalid]
  by_cases hkR : k ∈ R
  · have hbit : ¬ l.rx.seg.getLsbD k = true := fun hbit =>
      ((h.missing k (by omega)).1 hbit).1 hkR
    rw [if_pos hbit, Finset.insert_eq_of_mem hkR]
    exact .same h rfl rfl
  have hbit : l.rx.seg.getLsbD k = true :=
    (h.missing k (by omega)).2 ⟨hkR, fun _ => by omega⟩
  have hoff : xactSegOffset k = offset k := by rw [offset, if_neg hk]
  have hroom : ¬ xactSegOffset k + (chunk msg k).length > rxBufferMax := by
    have := offset_add_length_le hsent
    omega
  have hno := not_complete hmax hsent hkR
  have hdata : msg.length ≤ l.rx.data.length := hmax.trans h.storage.ge
  have htook : Took id x msg (insert k R) { l with rx := { l.rx with
      data := memcpy l.rx.data (xactSegOffset k) (chunk msg k),
      seg := xactSegRecv l.rx.seg k } } := by
    have hzero : 0 ∈ insert k R ↔ 0 ∈ R := by
      rw [Finset.mem_insert, or_iff_right (Ne.symm hk)]
    refine ⟨⟨h.cb, h.active, h.invalid, h.linkId, ?_⟩, h.xact, ?_, ?_, ?_, ?_, ?_, ?_⟩
    · rw [← h.storage]
      exact length_memcpy (by rw [hoff]; exact (offset_add_length_le hsent).trans hdata)
    · intro i hi
      rw [getLsbD_xactSegRecv _ hi, Bool.and_eq_true, h.missing i hi, decide_eq_true_iff, hzero,
        Finset.mem_insert, not_or]
      tauto
    · intro hstart
      exact h.started (hzero.1 hstart)
    · intro hstart
      exact h.unstarted fun hin => hstart (hzero.2 hin)
    · rw [hoff]
      exact kept_memcpy hdata hsent h.kept
    · intro j hj
      obtain rfl | hj := Finset.mem_insert.1 hj
      · exact hsent
      · exact h.sent j hj
    · exact fun _ => h.idle hno
  rw [if_neg (not_not_intro hbit), if_neg hroom]
  refine Eq.mpr (congrArg _ (if_neg ?_)) (htook.finish hmax hno)
  -- the length of the last segment is checked once the Start is here
  rintro ⟨hseg, hbit0, hlen⟩
  change k = l.rx.lastSeg at hseg
  change ((l.rx.len : Int) - 20 - ((l.rx.lastSeg : Int) - 1) * 23) % 2 ^ 8 ≠ _ at hlen
  have hstart : 0 ∈ R := by
    by_contra hstart
    rw [h.unstarted hstart, segNval] at hseg
    omega
  obtain ⟨hlastSeg, hlength, -⟩ := h.started hstart
  rw [hlength, ← hseg] at hlen
  exact hlen (length_last hk (hseg.trans hlastSeg) hsent hmax)

theorem startLost_took (h : Fresh id x l) : Took id x msg ∅ (startLost x l) := by
  refine ⟨⟨h.cb, h.active, h.invalid, h.linkId, h.storage⟩, rfl, ?_, ?_, fun _ => rfl, ?_, ?_,
    fun _ => rfl⟩
  · intro i hi
    refine iff_of_true ?_ ⟨Finset.notMem_empty i, fun h => absurd h (Finset.notMem_empty 0)⟩
    change (BitVec.ofNat 8 segNval).getLsbD i = true
    revert i
    decide
  · exact fun h => absurd h (Finset.notMem_empty 0)
  · exact fun i _ h => absurd h (Finset.notMem_empty _)
  · exact fun i h => absurd h (Finset.notMem_empty i)

/-- What holds when a Start that is accepted is stored: the segments `R`
came before it, and the buffer has the length and the check sequence that
it carries. -/
structure Starting (id : ℕ) (x : UInt8) (msg : Bytes) (R : Finset ℕ) (l : Link) : Prop
    extends Hears id l where
  xact : l.rx.id = x
  missing : ∀ i < 8,
    (if l.rx.seg ≠ 0 then l.rx.seg else BitVec.ofNat 8 segNval).getLsbD i = true ↔ i ∉ R
  start : 0 ∉ R
  past : pastLast l.rx.seg (lastSeg msg.length) = false
  len : l.rx.len = msg.length
  fcs : l.rx.fcs = fcsCalc msg
  kept : ∀ i < msg.length, home i ∈ R → l.rx.data[i]? = msg[i]?
  sent : ∀ k ∈ R, k < segments msg.length

theorem getLsbD_ofNat_pred (hlast : last ≤ 2) (hi : i < 8) :
    (BitVec.ofNat 8 (2 ^ (last + 1) - 1)).getLsbD i = decide (i ≤ last) := by
  revert i
  interval_cases last <;> decide

/-- **The Start is taken**, and the mask of the missing segments narrowed
to those there are. -/
theorem Starting.startStore (h : Starting id x msg R l) (hpos : 0 < msg.length)
    (hmax : msg.length ≤ rxBufferMax) :
    Takes id x msg R (insert 0 R) (startStore env (lastSeg msg.length) (chunk msg 0) l) := by
  have hsent : 0 < segments msg.length := (Nat.zero_le _).trans_lt (home_lt_segments hpos)
  have hno := not_complete hmax hsent h.start
  have hlast := lastSeg_le hmax
  have hdata : msg.length ≤ l.rx.data.length := hmax.trans h.storage.ge
  have hmem : 0 ∈ insert 0 R := Finset.mem_insert_self 0 R
  have htook : Took id x msg (insert 0 R) { provClearTx l with rx := { l.rx with
      lastSeg := lastSeg msg.length,
      seg := xactSegRecv ((if l.rx.seg ≠ 0 then l.rx.seg else BitVec.ofNat 8 segNval) &&&
        BitVec.ofNat 8 (2 ^ (lastSeg msg.length + 1) - 1)) 0,
      data := memcpy l.rx.data 0 (chunk msg 0) } } := by
    refine ⟨⟨h.cb, h.active, h.invalid, h.linkId, ?_⟩, h.xact, ?_, fun _ => ⟨rfl, h.len, h.fcs⟩,
      fun hstart => absurd hmem hstart, kept_memcpy hdata hsent h.kept, ?_, fun _ => rfl⟩
    · rw [← h.storage]
      exact length_memcpy ((offset_add_length_le hsent).trans hdata)
    · intro i hi
      rw [getLsbD_xactSegRecv _ hi, BitVec.getLsbD_and, Bool.and_eq_true, Bool.and_eq_true,
        h.missing i hi, getLsbD_ofNat_pred hlast hi, decide_eq_true_iff, decide_eq_true_iff,
        Finset.mem_insert, not_or]
      tauto
    · intro j hj
      obtain rfl | hj := Finset.mem_insert.1 hj
      · exact hsent
      · exact h.sent j hj
  rw [PbAdv.startStore]
  exact Eq.mpr (congrArg _ (if_neg (Bool.eq_false_iff.1 h.past))) (htook.finish hmax hno)

/-! ### One segment -/

theorem nextTransactionId_ne (x : UInt8) : nextTransactionId x ≠ x := by
  rw [← UInt8.toBitVec_inj.ne]
  simp only [nextTransactionId, UInt8.toBitVec_or, UInt8.toBitVec_and, UInt8.toBitVec_add]
  generalize x.toBitVec = b
  revert b
  decide +kernel

theorem gpcCont_seg (hk : k ≤ 2) : (gpcCont k).toNat / 4 = k ∧ (gpcCont k).toNat % 4 = 2 := by
  interval_cases k <;> decide

theorem gpcStart_last (hk : k ≤ 2) : (gpcStart k).toNat / 4 = k ∧ (gpcStart k).toNat % 4 = 0 := by
  interval_cases k <;> decide

theorem genProvCont_fresh (h : Fresh id x l) (hmax : msg.length ≤ rxBufferMax) (hk : k ≠ 0)
    (hsent : k < segments msg.length) :
    Takes id x msg ∅ {k} (genProvCont env x (gpcCont k) (chunk msg k) l) := by
  have hle : k ≤ 2 := by
    have := segments_le hmax
    have := lastSeg_le hmax
    omega
  have hne : ¬ (l.rx.seg = 0 ∧ l.rx.id = x) := fun hin =>
    nextTransactionId_ne l.rx.id (h.next.symm.trans hin.2.symm)
  rw [genProvCont]
  rw [(gpcCont_seg hle).1, if_neg hne, if_neg (not_not_intro h.idle), if_pos ⟨h.seg, h.next.symm⟩]
  exact (startLost_took h).contStore hmax hk hsent

theorem Took.genProvCont (h : Took id x msg R l) (hmax : msg.length ≤ rxBufferMax) (hk : k ≠ 0)
    (hsent : k < segments msg.length) :
    Takes id x msg R (insert k R) (genProvCont env x (gpcCont k) (chunk msg k) l) := by
  have hseg := segments_le hmax
  have hle : k ≤ 2 := by
    have := lastSeg_le hmax
    omega
  rw [PbAdv.genProvCont]
  rw [(gpcCont_seg hle).1]
  by_cases hall : Complete msg.length R
  · rw [if_pos ⟨(h.seg_eq_zero_iff hmax).2 hall, h.xact⟩,
      Finset.insert_eq_of_mem (hall.mem (by omega))]
    exact (resendAck_ackOnly env x l).takes h
  · have hzero : l.rx.seg ≠ 0 := fun hzero => hall ((h.seg_eq_zero_iff hmax).1 hzero)
    rw [if_neg fun hin => hzero hin.1, if_neg (not_not_intro (h.idle hall)),
      if_neg fun hin => hzero hin.1, if_neg (not_not_intro h.xact.symm)]
    exact h.contStore hmax hk hsent

/-- The link once a Start is accepted, with what the Start says of the
message. -/
def announced (x : UInt8) (msg : Bytes) (l : Link) : Link :=
  { l with rx := { l.rx with len := msg.length, id := x, fcs := fcsCalc msg } }

theorem genProvStart_accepted (hpos : 0 < msg.length) (hmax : msg.length ≤ rxBufferMax)
    (hresend : ¬ (x = l.rx.id ∧ l.rx.seg = 0)) (hidle : l.tx.adv = [])
    (hdup : ¬ (x = l.rx.id ∧ ¬ l.rx.seg.getLsbD 0 = true))
    (hxact : ¬ (x ≠ l.rx.id ∧ x ≠ nextTransactionId l.rx.id)) :
    genProvStart env x (gpcStart (lastSeg msg.length))
        (beBytes 2 msg.length ++ [fcsCalc msg] ++ chunk msg 0) l =
      startStore env (lastSeg msg.length) (chunk msg 0) (announced x msg l) := by
  have hsmall : msg.length < 256 ^ 2 := by
    rw [rxBufferMax] at hmax
    omega
  have hlen : beNat ((beBytes 2 msg.length ++ [fcsCalc msg] ++ chunk msg 0).take 2) =
      msg.length := by
    rw [append_assoc, take_left' (length_beBytes 2 _), beNat_beBytes hsmall]
  have hfcs : ((beBytes 2 msg.length ++ [fcsCalc msg] ++ chunk msg 0).drop 2).headD 0 =
      fcsCalc msg := by
    rw [append_assoc, drop_left' (length_beBytes 2 _)]
    rfl
  have hbuf : (beBytes 2 msg.length ++ [fcsCalc msg] ++ chunk msg 0).drop 3 = chunk msg 0 :=
    drop_left' (by rw [length_append, length_beBytes]; rfl)
  have hchunk : ¬ msg.length < (chunk msg 0).length := by
    have := offset_add_length_le ((Nat.zero_le _).trans_lt (home_lt_segments hpos))
    omega
  have hmulti : ¬ (lastSeg msg.length > 0 ∧ msg.length ≤ 20) := by
    rw [lastSeg_eq]
    split <;> omega
  rw [genProvStart]
  dsimp only
  rw [if_neg hresend, if_neg (not_not_intro hidle), if_neg hdup, if_neg hxact, hlen, hfcs, hbuf,
    (gpcStart_last (lastSeg_le hmax)).1, if_neg (by omega), if_neg (by omega), if_neg hchunk,
    if_neg hmulti, if_neg (not_not_intro rfl)]
  rfl

theorem Hears.announced (h : Hears id l) : Hears id (announced x msg l) :=
  ⟨h.cb, h.active, h.invalid, h.linkId, h.storage⟩

theorem genProvStart_fresh (h : Fresh id x l) (hpos : 0 < msg.length)
    (hmax : msg.length ≤ rxBufferMax) :
    Takes id x msg ∅ {0} (genProvStart env x (gpcStart (lastSeg msg.length))
      (beBytes 2 msg.length ++ [fcsCalc msg] ++ chunk msg 0) l) := by
  have hne : x ≠ l.rx.id := fun hx => nextTransactionId_ne l.rx.id (h.next.symm.trans hx)
  rw [genProvStart_accepted hpos hmax (fun hin => hne hin.1) h.idle (fun hin => hne hin.1)
    fun hin => hin.2 h.next]
  refine Starting.startStore ⟨h.toHears.announced, rfl, ?_, Finset.notMem_empty 0, ?_, rfl, rfl,
    fun i _ hin => absurd hin (Finset.notMem_empty _),
    fun i hin => absurd hin (Finset.notMem_empty i)⟩ hpos hmax
  · intro i hi
    have hseg : ¬ (announced x msg l).rx.seg ≠ 0 := not_not_intro h.seg
    rw [if_neg hseg]
    refine iff_of_true ?_ (Finset.notMem_empty i)
    revert i
    decide
  · have hseg : (announced x msg l).rx.seg = 0 := h.seg
    rw [hseg]
    rfl

theorem Took.genProvStart (h : Took id x msg R l) (hpos : 0 < msg.length)
    (hmax : msg.length ≤ rxBufferMax) :
    Takes id x msg R (insert 0 R) (genProvStart env x (gpcStart (lastSeg msg.length))
      (beBytes 2 msg.length ++ [fcsCalc msg] ++ chunk msg 0) l) := by
  by_cases hall : Complete msg.length R
  · rw [PbAdv.genProvStart]
    dsimp only
    rw [if_pos ⟨h.xact.symm, (h.seg_eq_zero_iff hmax).2 hall⟩,
      Finset.insert_eq_of_mem (hall.mem (Nat.zero_le _))]
    exact (resendAck_ackOnly env x l).takes h
  have hzero : l.rx.seg ≠ 0 := fun hzero => hall ((h.seg_eq_zero_iff hmax).1 hzero)
  by_cases hstart : 0 ∈ R
  · have hbit : ¬ l.rx.seg.getLsbD 0 = true := fun hbit =>
      ((h.missing 0 (by omega)).1 hbit).1 hstart
    rw [PbAdv.genProvStart]
    dsimp only
    rw [if_neg fun hin => hzero hin.2, if_neg (not_not_intro (h.idle hall)),
      if_pos ⟨h.xact.symm, hbit⟩, Finset.insert_eq_of_mem hstart]
    exact .same h rfl rfl
  have hbit : l.rx.seg.getLsbD 0 = true :=
    (h.missing 0 (by omega)).2 ⟨hstart, fun hin => absurd hin hstart⟩
  rw [genProvStart_accepted hpos hmax (fun hin => hzero hin.2) (h.idle hall)
    (fun hin => hin.2 hbit) fun hin => hin.1 h.xact.symm]
  refine Starting.startStore ⟨h.toHears.announced, rfl, ?_, hstart, ?_, rfl, rfl, h.kept, h.sent⟩
    hpos hmax
  · intro i hi
    have hseg : (announced x msg l).rx.seg ≠ 0 := hzero
    rw [if_pos hseg]
    exact (h.missing i hi).trans (and_iff_left fun hin => absurd hin hstart)
  · have hpast : findMsbSet (~~~l.rx.seg).toNat - 1 ≤ lastSeg msg.length := by
      refine findMsbSet_le fun i hi => ?_
      rw [BitVec.testBit_toNat, BitVec.getLsbD_not, Bool.and_eq_true, decide_eq_true_iff,
        Bool.not_eq_true'] at hi
      have hin : i ∈ R := by
        by_contra hno
        rw [(h.missing i hi.1).2 ⟨hno, fun hin => absurd hin hstart⟩] at hi
        exact nomatch hi.2
      have := h.sent i hin
      have := segments_le hmax
      omega
    change pastLast l.rx.seg (lastSeg msg.length) = false
    simp only [pastLast, gt_iff_lt, Nat.not_lt.2 hpast, decide_false, Bool.and_false]

/-! ## A whole transaction -/

theorem btMeshPbAdvRecv_eq (h : Hears id l) (hid : id < 2 ^ 32) (buf : Bytes) :
    btMeshPbAdvRecv env (beBytes 4 id ++ x :: gpc :: buf) l = genProvRecv env x gpc buf l := by
  have htake : (beBytes 4 id ++ x :: gpc :: buf).take 4 = beBytes 4 id :=
    take_left' (length_beBytes 4 id)
  have hdrop : (beBytes 4 id ++ x :: gpc :: buf).drop 4 = x :: gpc :: buf :=
    drop_left' (length_beBytes 4 id)
  have hdrop' (n : ℕ) : (beBytes 4 id ++ x :: gpc :: buf).drop (4 + n) =
      (x :: gpc :: buf).drop n := by
    rw [← drop_drop, hdrop]
  have hlen : ¬ (beBytes 4 id ++ x :: gpc :: buf).length < 6 := by
    rw [length_append, length_beBytes, length_cons, length_cons]
    omega
  have hlink : ¬ (l.active = true ∧ l.id ≠ beNat (beBytes 4 id)) := fun hin =>
    hin.2 (h.linkId.trans (beNat_beBytes (n := 4) hid).symm)
  rw [btMeshPbAdvRecv, if_neg (not_not_intro h.cb), if_neg hlen, htake, if_neg hlink, hdrop,
    hdrop' 1, hdrop' 2]
  rfl

theorem recv_start (h : Hears id l) (hid : id < 2 ^ 32) (hmax : msg.length ≤ rxBufferMax) :
    btMeshPbAdvRecv env (segment id x msg 0) l = genProvStart env x (gpcStart (lastSeg msg.length))
        (beBytes 2 msg.length ++ [fcsCalc msg] ++ chunk msg 0) l := by
  have hlen : ¬ (beBytes 2 msg.length ++ [fcsCalc msg] ++ chunk msg 0).length < 3 := by
    rw [length_append, length_append, length_beBytes, length_singleton]
    omega
  have hsegment : segment id x msg 0 = beBytes 4 id ++ x :: gpcStart (lastSeg msg.length) ::
      (beBytes 2 msg.length ++ [fcsCalc msg] ++ chunk msg 0) := by
    simp [segment]
  rw [hsegment, btMeshPbAdvRecv_eq h hid, genProvRecv, (gpcStart_last (lastSeg_le hmax)).2]
  exact (if_neg hlen).trans (if_pos h.active)

theorem recv_cont (h : Hears id l) (hid : id < 2 ^ 32) (hk : k ≠ 0) (hle : k ≤ 2) :
    btMeshPbAdvRecv env (segment id x msg k) l = genProvCont env x (gpcCont k) (chunk msg k) l := by
  have hsegment : segment id x msg k = beBytes 4 id ++ x :: gpcCont k :: chunk msg k := by
    simp [segment, hk]
  rw [hsegment, btMeshPbAdvRecv_eq h hid, genProvRecv, (gpcCont_seg hle).2]
  exact if_pos h.active

theorem le_two_of_lt_segments (hmax : msg.length ≤ rxBufferMax) (hk : k < segments msg.length) :
    k ≤ 2 := by
  have := segments_le hmax
  have := lastSeg_le hmax
  omega

theorem recv_fresh (env : Env) (h : Fresh id x l) (hid : id < 2 ^ 32) (hpos : 0 < msg.length)
    (hmax : msg.length ≤ rxBufferMax) (hk : k < segments msg.length) :
    Takes id x msg ∅ {k} (btMeshPbAdvRecv env (segment id x msg k) l) := by
  by_cases hzero : k = 0
  · subst hzero
    rw [recv_start h.toHears hid hmax]
    exact genProvStart_fresh h hpos hmax
  · rw [recv_cont h.toHears hid hzero (le_two_of_lt_segments hmax hk)]
    exact genProvCont_fresh h hmax hzero hk

/-- **One segment is taken**, whichever it is and whatever came before. -/
theorem Took.recv (env : Env) (h : Took id x msg R l) (hid : id < 2 ^ 32) (hpos : 0 < msg.length)
    (hmax : msg.length ≤ rxBufferMax) (hk : k < segments msg.length) :
    Takes id x msg R (insert k R) (btMeshPbAdvRecv env (segment id x msg k) l) := by
  by_cases hzero : k = 0
  · subst hzero
    rw [recv_start h.toHears hid hmax]
    exact h.genProvStart hpos hmax
  · rw [recv_cont h.toHears hid hzero (le_two_of_lt_segments hmax hk)]
    exact h.genProvCont hmax hzero hk

theorem Takes.trans {R₁ R₂ R₃ : Finset ℕ} {r r' : Link × List Out} (hsub : R₁ ⊆ R₂)
    (hsub' : R₂ ⊆ R₃) (h : Takes id x msg R₁ R₂ r) (h' : Takes id x msg R₂ R₃ r') :
    Takes id x msg R₁ R₃ (r'.1, r.2 ++ r'.2) := by
  refine ⟨h'.took, ?_, ?_⟩
  · have hmono : Complete msg.length R₁ → Complete msg.length R₂ := fun h => h.trans hsub
    have hmono' : Complete msg.length R₂ → Complete msg.length R₃ := fun h => h.trans hsub'
    rw [delivered_append, h.delivered, h'.delivered]
    by_cases h₁ : Complete msg.length R₁
    · simp [h₁, hmono h₁]
    · by_cases h₂ : Complete msg.length R₂
      · simp [h₁, h₂, hmono' h₂]
      · simp [h₁, h₂]
  · rw [failures_append, h.failures, h'.failures]
    rfl

variable {es : List Event}

/-- The segments of the message that a run of events brings. -/
def Brings (id : ℕ) (x : UInt8) (msg : Bytes) (es : List Event) (R : Finset ℕ) : Prop :=
  ∀ env pdu, .recv env pdu ∈ es → ∃ k ∈ R, pdu = segment id x msg k

/-- Only segments of the message come. -/
def OnlySegments (id : ℕ) (x : UInt8) (msg : Bytes) (es : List Event) : Prop :=
  ∀ env pdu, .recv env pdu ∈ es → ∃ k < segments msg.length, pdu = segment id x msg k

/-- **A run of segments is taken**, from a receiver that took some. -/
theorem Took.run (h : Took id x msg R l) (hid : id < 2 ^ 32) (hpos : 0 < msg.length)
    (hmax : msg.length ≤ rxBufferMax) (hes : OnlySegments id x msg es) :
    ∃ R', R ⊆ R' ∧ Brings id x msg es R' ∧ Takes id x msg R R' (l.run es) := by
  induction es generalizing l R with
  | nil => exact ⟨R, subset_rfl, nofun, .same h rfl rfl⟩
  | cons e es ih =>
    have hes' : OnlySegments id x msg es := fun env pdu hin =>
      hes env pdu (mem_cons_of_mem e hin)
    cases e with
    | ackComplete =>
      have htook : Took id x msg R (PbAdv.ackComplete l) :=
        h.congr (h.toHears.congr rfl rfl rfl rfl rfl) rfl h.idle
      obtain ⟨R', hsub, hbrings, htakes⟩ := ih htook hes'
      refine ⟨R', hsub, fun env pdu hin => ?_, htakes⟩
      exact hbrings env pdu ((mem_cons.1 hin).resolve_left nofun)
    | recv env pdu =>
      obtain ⟨k, hk, rfl⟩ := hes env pdu mem_cons_self
      have hstep := h.recv env hid hpos hmax hk
      obtain ⟨R', hsub, hbrings, htakes⟩ := ih hstep.took hes'
      refine ⟨R', (Finset.subset_insert k R).trans hsub, fun env' pdu' hin => ?_,
        hstep.trans (Finset.subset_insert k R) hsub htakes⟩
      obtain hin | hin := mem_cons.1 hin
      · obtain ⟨-, rfl⟩ := Event.recv.inj hin
        exact ⟨k, hsub (Finset.mem_insert_self k R), rfl⟩
      · exact hbrings env' pdu' hin

/-- **A run that brings a segment is taken** from a receiver that waits. -/
theorem Fresh.run (h : Fresh id x l) (hid : id < 2 ^ 32) (hpos : 0 < msg.length)
    (hmax : msg.length ≤ rxBufferMax) (hes : OnlySegments id x msg es)
    (hsome : ∃ env pdu, Event.recv env pdu ∈ es) :
    ∃ R', Brings id x msg es R' ∧ Takes id x msg ∅ R' (l.run es) := by
  induction es generalizing l with
  | nil =>
    obtain ⟨env, pdu, hin⟩ := hsome
    exact nomatch hin
  | cons e es ih =>
    have hes' : OnlySegments id x msg es := fun env pdu hin =>
      hes env pdu (mem_cons_of_mem e hin)
    cases e with
    | ackComplete =>
      have hfresh : Fresh id x (PbAdv.ackComplete l) :=
        ⟨h.toHears.congr rfl rfl rfl rfl rfl, h.seg, h.next, h.idle⟩
      obtain ⟨env, pdu, hin⟩ := hsome
      have hsome' : ∃ env pdu, Event.recv env pdu ∈ es :=
        ⟨env, pdu, (mem_cons.1 hin).resolve_left nofun⟩
      obtain ⟨R', hbrings, htakes⟩ := ih hfresh hes' hsome'
      refine ⟨R', fun env pdu hin => ?_, htakes⟩
      exact hbrings env pdu ((mem_cons.1 hin).resolve_left nofun)
    | recv env pdu =>
      obtain ⟨k, hk, rfl⟩ := hes env pdu mem_cons_self
      have hstep := recv_fresh env h hid hpos hmax hk
      obtain ⟨R', hsub, hbrings, htakes⟩ := hstep.took.run hid hpos hmax hes'
      refine ⟨R', fun env' pdu' hin => ?_, hstep.trans (Finset.empty_subset _) hsub htakes⟩
      obtain hin | hin := mem_cons.1 hin
      · obtain ⟨-, rfl⟩ := Event.recv.inj hin
        exact ⟨k, hsub (Finset.mem_singleton_self k), rfl⟩
      · exact hbrings env' pdu' hin

theorem segment_inj (hj : j ≤ 2) (hk : k ≤ 2) (hmax : msg.length ≤ rxBufferMax)
    (h : segment id x msg j = segment id x msg k) : j = k := by
  have hstart := (gpcStart_last (lastSeg_le hmax)).2
  have hrest := append_cancel_left h
  by_cases hj0 : j = 0 <;> by_cases hk0 : k = 0
  · exact hj0.trans hk0.symm
  · simp only [hj0, hk0, if_true, if_false, cons_append, List.cons.injEq] at hrest
    rw [hrest.1, (gpcCont_seg hk).2] at hstart
    exact absurd hstart (by decide)
  · simp only [hj0, hk0, if_true, if_false, cons_append, List.cons.injEq] at hrest
    rw [← hrest.1, (gpcCont_seg hj).2] at hstart
    exact absurd hstart (by decide)
  · simp only [hj0, hk0, if_false, singleton_append, List.cons.injEq] at hrest
    rw [← (gpcCont_seg hj).1, hrest.1, (gpcCont_seg hk).1]

end Receive

/-! ## Delivery -/

theorem provSendAdv_id {adv : ℕ → Bool} {s s' : Link} {e : Option Err}
    (h : provSendAdv adv msg s = (s', e)) : s'.id = s.id := by
  simp only [provSendAdv] at h
  split at h
  · split at h <;> obtain ⟨rfl, -⟩ := Prod.mk.inj h <;> rfl
  · obtain ⟨rfl, -⟩ := Prod.mk.inj h
    rfl

/-- **A provisioning PDU is delivered once and unchanged, unless it has 43
bytes.** Its segments come in any order and any number of times, each at
least once; a message of 43 bytes ends with a full Continuation, and the
receiver waits for one more that is never sent. -/
theorem transaction_delivered {adv : ℕ → Bool} {s s' l : Link} {es : List Event}
    (hpos : 1 ≤ msg.length) (hmax : msg.length ≤ rxBufferMax) (hid : s.id < 2 ^ 32)
    (hsend : provSendAdv adv msg s = (s', none)) (hl : Fresh s'.id s'.tx.id l)
    (hsent : ∀ env pdu, .recv env pdu ∈ es → pdu ∈ s'.tx.adv)
    (hall : ∀ pdu ∈ s'.tx.adv, ∃ env, .recv env pdu ∈ es) :
    (delivered (l.run es).2 = [msg] ∧ failures (l.run es).2 = []) ↔ msg.length ≠ 43 := by
  have hsegments := provSendAdv_segments hsend
  rw [← provSendAdv_id hsend] at hid
  have hmem : ∀ pdu, pdu ∈ s'.tx.adv ↔
      ∃ k < segments msg.length, segment s'.id s'.tx.id msg k = pdu := by
    intro pdu
    rw [hsegments]
    simp [List.mem_map, List.mem_range]
  have hes : OnlySegments s'.id s'.tx.id msg es := fun env pdu hin => by
    obtain ⟨k, hk, heq⟩ := (hmem pdu).1 (hsent env pdu hin)
    exact ⟨k, hk, heq.symm⟩
  have hfirst : 0 < segments msg.length := (Nat.zero_le _).trans_lt (home_lt_segments hpos)
  obtain ⟨env, hin⟩ := hall _ ((hmem _).2 ⟨0, hfirst, rfl⟩)
  obtain ⟨R, hbrings, htakes⟩ := hl.run hid hpos hmax hes ⟨env, _, hin⟩
  -- the segments taken are all that are sent
  have htaken : ∀ k, k ∈ R ↔ k < segments msg.length := by
    refine fun k => ⟨htakes.took.sent k, fun hk => ?_⟩
    obtain ⟨env, hin⟩ := hall _ ((hmem _).2 ⟨k, hk, rfl⟩)
    obtain ⟨j, hj, heq⟩ := hbrings env _ hin
    have hj2 := le_two_of_lt_segments hmax (htakes.took.sent j hj)
    rwa [segment_inj (le_two_of_lt_segments hmax hk) hj2 hmax heq]
  have hcomplete : Complete msg.length R ↔ msg.length ≠ 43 := by
    rw [← segments_eq_iff hmax]
    have hle := segments_le hmax
    constructor
    · intro h
      have := (htaken _).1 (h.mem le_rfl)
      omega
    · intro h i hi
      rw [htaken, h]
      exact Finset.mem_range.1 hi
  have hbegin : ¬ Complete msg.length ∅ := fun h =>
    absurd (h.mem (Nat.zero_le _)) (Finset.notMem_empty 0)
  rw [htakes.delivered, htakes.failures, ← hcomplete]
  by_cases h : Complete msg.length R <;> simp [h, hbegin]

/-- A link just opened, at either end. -/
def openedLink (rxId txId : UInt8) : Link where
  id := 0x2a
  cb := true
  active := true
  invalid := false
  closing := false
  ackPending := false
  rx := ⟨rxId, 0, 0, 0, List.replicate rxBufferMax 0, 0⟩
  tx := ⟨txId, [], 0xff⟩

/-- The PDUs the provisioner sends for a message. -/
def sentPdus (msg : Bytes) : List Bytes :=
  (provSendAdv (fun _ => true) msg (openedLink 0xff 0x7f)).1.tx.adv

/-- The Continuation of a message of two segments comes first, and again
after the Start. -/
theorem transaction_delivered_sample :
    (delivered ((openedLink 0x7f 0xff).run
        ((sentPdus (List.replicate 30 7)).reverse ++ sentPdus (List.replicate 30 7) |>.map
          (.recv {}))).2 = [List.replicate 30 7] ∧
      failures ((openedLink 0x7f 0xff).run
        ((sentPdus (List.replicate 30 7)).reverse ++ sentPdus (List.replicate 30 7) |>.map
          (.recv {}))).2 = []) ↔ (List.replicate 30 (7 : UInt8)).length ≠ 43 := by
  have hsend : provSendAdv (fun _ => true) (List.replicate 30 7) (openedLink 0xff 0x7f) =
      ((provSendAdv (fun _ => true) (List.replicate 30 7) (openedLink 0xff 0x7f)).1, none) := rfl
  refine transaction_delivered (by decide) (by decide) (by decide) hsend
    ⟨⟨rfl, rfl, rfl, rfl, rfl⟩, rfl, by decide, rfl⟩ ?_ ?_
  · intro env pdu hin
    obtain ⟨pdu', hpdu, heq⟩ := List.mem_map.1 hin
    obtain ⟨-, rfl⟩ := Event.recv.inj heq
    exact (List.mem_append.1 hpdu).elim List.mem_reverse.1 id
  · intro pdu hpdu
    exact ⟨{}, List.mem_map_of_mem (List.mem_append_right _ hpdu)⟩

/-- **A message of 43 bytes is never delivered**, though both its segments
arrive: the Start announces a third. -/
theorem full_last_segment_lost :
    ∃ (msg : Bytes) (s s' l : Link) (es : List Event), 1 ≤ msg.length ∧
      msg.length ≤ rxBufferMax ∧ provSendAdv (fun _ => true) msg s = (s', none) ∧
      Fresh s'.id s'.tx.id l ∧ (∀ env pdu, .recv env pdu ∈ es → pdu ∈ s'.tx.adv) ∧
      (∀ pdu ∈ s'.tx.adv, ∃ env, .recv env pdu ∈ es) ∧ delivered (l.run es).2 = [] := by
  refine ⟨List.replicate 43 7, openedLink 0xff 0x7f, _, openedLink 0x7f 0xff,
    (sentPdus (List.replicate 43 7)).map (.recv {}), by decide, by decide, rfl,
    ⟨⟨rfl, rfl, rfl, rfl, rfl⟩, rfl, by decide, rfl⟩, ?_, ?_, by decide +kernel⟩
  · intro env pdu hin
    obtain ⟨pdu', hpdu, heq⟩ := List.mem_map.1 hin
    obtain ⟨-, rfl⟩ := Event.recv.inj heq
    exact hpdu
  · intro pdu hpdu
    exact ⟨{}, List.mem_map_of_mem hpdu⟩

end PbAdv

end OpenBlue
