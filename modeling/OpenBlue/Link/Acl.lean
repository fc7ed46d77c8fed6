import OpenBlue.Common.Run
import OpenBlue.Link.Model.Acl
/-!
# Link — fragmentation and reassembly

What `send_buf` cuts off a PDU starts once and concatenates to it, for
any MTU (`sendPdu_spec`). What `bt_acl_recv` holds is a strict prefix of a
frame, from one start and the continuations right after it, whatever the
controller hands up (`RxOk`); a buffer it hands on as complete has the
length its header says, up to the frames whose length a 16-bit sum holds.
-/

namespace OpenBlue

namespace Link

open List

variable {mtu : UInt16} {nextIsFrag : Bool} {buf : List UInt8} {len fuel : ℕ}

/-! ## Sending -/

/-- **The fragments of a PDU**: the first has the start flag, unless one
was sent before, the others continue; together they are the bytes. -/
theorem sendPdu_spec (hmtu : 0 < mtu.toNat) (nextIsFrag : Bool) (hfuel : len ≤ fuel)
    (hlen : 0 < len) (hbuf : len ≤ buf.length) :
    ∃ frag frags, sendPdu mtu fuel nextIsFrag buf len = (frag :: frags, false, buf.drop len) ∧
      frag.boundary = (if nextIsFrag then .cont else .start) ∧ (∀ f ∈ frags, f.boundary = .cont) ∧
      (∀ f ∈ frag :: frags, f.data.length ≤ mtu.toNat) ∧
      (frag :: frags).flatMap AclFrag.data = buf.take len := by
  induction fuel generalizing nextIsFrag buf len with
  | zero => omega
  | succ fuel ih =>
    rw [sendPdu, if_neg (by omega)]
    simp only [sendBuf]
    rcases Nat.lt_or_ge mtu.toNat len with hlt | hge
    · -- A full fragment, and the rest of the PDU.
      obtain ⟨g, gs, heq, hg, hgs, hmax, hcat⟩ := ih true
        (show len - mtu.toNat ≤ fuel by omega) (by omega)
        (show len - mtu.toNat ≤ (buf.drop mtu.toNat).length by rw [length_drop]; omega)
      have hmin : min mtu.toNat len = mtu.toNat := by omega
      simp only [hmin, hlt, decide_true, if_true, heq, drop_drop]
      refine ⟨⟨(if nextIsFrag then FragFlags.cont else .start).boundary, buf.take mtu.toNat⟩,
        g :: gs, ?_, ?_, ?_, ?_, ?_⟩
      · rw [Nat.add_sub_cancel' hlt.le]
      · cases nextIsFrag <;> rfl
      · intro f hf
        rcases mem_cons.1 hf with rfl | hf
        · exact hg
        · exact hgs f hf
      · intro f hf
        rcases mem_cons.1 hf with rfl | hf
        · exact (length_take ..).trans_le (by omega)
        · exact hmax f hf
      · rw [flatMap_cons, hcat, ← take_add, Nat.add_sub_cancel' hlt.le]
    · -- The last fragment.
      have hmin : min mtu.toNat len = len := by omega
      have hrest : sendPdu mtu fuel false (buf.drop len) (len - mtu.toNat) =
          ([], false, buf.drop len) := by
        rw [Nat.sub_eq_zero_of_le hge]
        cases fuel <;> rfl
      have hnot : ¬ mtu.toNat < len := by omega
      simp only [hmin, hnot, decide_false, if_false, hrest]
      refine ⟨⟨(if nextIsFrag then FragFlags.end else .single).boundary, buf.take len⟩,
        [], rfl, ?_, by simp, ?_, by simp⟩
      · cases nextIsFrag <;> rfl
      · intro f hf
        obtain rfl := mem_singleton.1 hf
        exact (length_take ..).trans_le (by omega)

/-! ## Receiving -/

/-- A strict prefix of a frame: its length is not known yet, or not
reached. -/
def StrictPrefix (data : List UInt8) : Prop :=
  data.length < 2 ∨ data.length < 4 + getLe16 data

/-- The bytes come from one start and the continuations right after it, at
the end of what was received. -/
def FromOneStart (history : List AclPacket) (data : List UInt8) : Prop :=
  ∃ pre first rest, history = pre ++ first :: rest ∧ first.flags = .start ∧
    (∀ p ∈ rest, p.flags = .cont) ∧
    data = first.buf.data ++ rest.flatMap fun p => p.buf.data

theorem FromOneStart.start {history : List AclPacket} {p : AclPacket} (hp : p.flags = .start) :
    FromOneStart (history ++ [p]) p.buf.data :=
  ⟨history, p, [], rfl, hp, by simp, by simp⟩

theorem FromOneStart.cont {history : List AclPacket} {data : List UInt8} {p : AclPacket}
    (h : FromOneStart history data) (hp : p.flags = .cont) :
    FromOneStart (history ++ [p]) (data ++ p.buf.data) := by
  obtain ⟨pre, first, rest, rfl, hfirst, hrest, rfl⟩ := h
  refine ⟨pre, first, rest ++ [p], by simp, hfirst, fun q hq => ?_, by simp⟩
  rcases mem_append.1 hq with hq | hq
  · exact hrest q hq
  · rw [mem_singleton.1 hq, hp]

/-- What `conn->rx` holds. -/
def RxOk (rx : Option AclBuf) (history : List AclPacket) : Prop :=
  ∀ r ∈ rx, StrictPrefix r.data ∧ FromOneStart history r.data

/-- What is handed on. -/
structure DeliveredOk (history : List AclPacket) (d : Delivered) : Prop where
  /-- A frame handed on as complete is as long as its header says. -/
  complete : d.complete = true → getLe16 d.data + 4 < 2 ^ 16 →
    d.data.length = 4 + getLe16 d.data ∧ FromOneStart history d.data
  /-- What is handed on as incomplete was held before. -/
  incomplete : d.complete = false → StrictPrefix d.data ∧
    ∃ before p, history = before ++ [p] ∧ p.flags = .cont ∧ FromOneStart before d.data

theorem aclTotalLen_le (data : List UInt8) : aclTotalLen data ≤ 4 + getLe16 data := by
  have := Nat.mod_le (getLe16 data + 4) (2 ^ 16)
  unfold aclTotalLen
  omega

theorem aclCheck_spec {rx : AclBuf} {history : List AclPacket} (h : FromOneStart history rx.data) :
    RxOk (aclCheck rx).1 history ∧ ∀ d ∈ (aclCheck rx).2, DeliveredOk history d := by
  have hle := aclTotalLen_le rx.data
  unfold aclCheck
  split
  · refine ⟨fun r hr => ?_, by simp⟩
    obtain rfl : rx = r := Option.some.inj hr
    exact ⟨.inl ‹_›, h⟩
  · split
    · refine ⟨fun r hr => ?_, by simp⟩
      obtain rfl : rx = r := Option.some.inj hr
      exact ⟨.inr (by omega), h⟩
    · split
      · exact ⟨by simp [RxOk], by simp⟩
      · refine ⟨by simp [RxOk], fun d hd => ?_⟩
        obtain rfl := Option.some.inj hd
        refine ⟨fun _ hlt => ⟨?_, h⟩, fun h => absurd h (by simp)⟩
        have : aclTotalLen rx.data = getLe16 rx.data + 4 := Nat.mod_eq_of_lt hlt
        simp only
        omega

/-- **One fragment**, whatever its flag and bytes. -/
theorem aclRecv_spec {rx : Option AclBuf} {history : List AclPacket} (h : RxOk rx history)
    (p : AclPacket) : RxOk (aclRecv rx p).1 (history ++ [p]) ∧
      ∀ d ∈ (aclRecv rx p).2, DeliveredOk (history ++ [p]) d := by
  unfold aclRecv
  cases hp : p.flags with
  | start => exact aclCheck_spec (.start hp)
  | other => exact ⟨by simp [RxOk], by simp⟩
  | cont =>
    cases rx with
    | none => exact ⟨by simp [RxOk], by simp⟩
    | some r =>
      obtain ⟨hpre, hone⟩ := h r rfl
      simp only
      split
      · -- An empty continuation adds nothing.
        rename_i hnil
        refine ⟨fun r' hr => ?_, by simp⟩
        obtain rfl : r = r' := Option.some.inj hr
        have := hone.cont hp
        rw [length_eq_zero_iff.1 hnil, append_nil] at this
        exact ⟨hpre, this⟩
      · split
        · exact aclCheck_spec (hone.cont hp)
        · refine ⟨by simp [RxOk], fun d hd => ?_⟩
          obtain rfl := Option.some.inj hd
          exact ⟨fun h => absurd h (by simp), fun _ => ⟨hpre, history, p, rfl, hp, hone⟩⟩

/-- **Fragmentation and reassembly.** The fragments of a PDU of any length
start once and concatenate to it. After any sequence of fragments,
`conn->rx` is empty or a strict prefix of a frame from one start; what the
next fragment makes it hand on as complete has exactly the length of its
header, and what it hands on as incomplete is what it held. -/
theorem acl_fragments (mtu : UInt16) (ps : List AclPacket) :
    (∀ frame : List UInt8, 0 < mtu.toNat → frame ≠ [] →
      ∃ first rest, sendPdu mtu frame.length false frame frame.length =
          (first :: rest, false, []) ∧
        first.boundary = .start ∧ (∀ f ∈ rest, f.boundary = .cont) ∧
        (∀ f ∈ first :: rest, f.data.length ≤ mtu.toNat) ∧
        (first :: rest).flatMap AclFrag.data = frame) ∧
    RxOk (run aclStep none ps) ps ∧
    ∀ p, ∀ d ∈ (aclRecv (run aclStep none ps) p).2, DeliveredOk (ps ++ [p]) d := by
  have hrx : RxOk (run aclStep none ps) ps :=
    history_run RxOk (fun _ p _ h => (aclRecv_spec h p).1) (by simp [RxOk]) ps
  refine ⟨fun frame hmtu hframe => ?_, hrx, fun p => (aclRecv_spec hrx p).2⟩
  obtain ⟨first, rest, heq, hfirst, hrest, hmax, hcat⟩ := sendPdu_spec hmtu false
    le_rfl (List.length_pos_iff.2 hframe) le_rfl
  rw [List.drop_length] at heq
  rw [List.take_length] at hcat
  exact ⟨first, rest, heq, hfirst, hrest, hmax, hcat⟩

/-- A packet with these bytes and this room after them. -/
def packet (flags : AclFlags) (data : List UInt8) (tailroom : ℕ)
    (h : data.length + tailroom < 2 ^ 16 := by decide) : AclPacket :=
  ⟨flags, data, tailroom, h⟩

/-- A frame of two bytes in two fragments, cut by the sender and put
together by the receiver. -/
theorem acl_fragments_example :
    ((sendPdu 4 6 false [2, 0, 4, 0, 8, 9] 6).1.flatMap AclFrag.data = [2, 0, 4, 0, 8, 9]) ∧
      ∀ d ∈ (aclRecv (run aclStep none [packet .start [2, 0, 4, 0] 8]) (packet .cont [8, 9] 0)).2,
        d.data.length = 4 + getLe16 d.data := by
  obtain ⟨hsend, -, hrecv⟩ := acl_fragments 4 [packet .start [2, 0, 4, 0] 8]
  refine ⟨?_, fun d hd => ?_⟩
  · obtain ⟨first, rest, heq, -, -, -, hcat⟩ := hsend [2, 0, 4, 0, 8, 9] (by decide) (by decide)
    rw [show 6 = [2, 0, 4, 0, 8, (9 : UInt8)].length from rfl, heq]
    exact hcat
  · have hok := hrecv (packet .cont [8, 9] 0) d hd
    obtain rfl : d = ⟨[2, 0, 4, 0, 8, 9], true⟩ := by
      simpa [aclRecv, aclCheck, aclStep, packet, AclBuf.add, aclTotalLen, getLe16] using hd.symm
    exact (hok.complete rfl (by decide)).1

/-- **An incomplete frame is handed on**: a continuation that does not fit
the receive buffer makes it hand on a buffer shorter than its header
says. -/
theorem incomplete_handed_on :
    (aclRecv (run aclStep none [packet .start [9, 0, 4, 0] 1]) (packet .cont [8, 9] 0)).2 =
        some ⟨[9, 0, 4, 0], false⟩ ∧ [9, 0, 4, (0 : UInt8)].length ≠ 4 + getLe16 [9, 0, 4, 0] := by
  decide

end Link

end OpenBlue
