import OpenBlue.Classic.Model.RetRecv
import OpenBlue.Common.Pack
import Mathlib.Data.Nat.Bitwise
/-!
# BR/EDR L2CAP — what a frame carries over

The control field of each format is a sum of fields that do not overlap,
so each field is read back. A frame that is built with one channel's
configuration passes the checks of a channel with the mirrored one exactly
where the two parameters of eight bits hold what they are given.
-/

namespace OpenBlue

namespace Classic

open List Endpoint Bool Chan

/-! ## Control fields -/

theorem and_0x3f (n : ℕ) : n &&& 0x3f = n % 0x40 := Nat.and_two_pow_sub_one_eq_mod n 6

theorem and_0x3fff (n : ℕ) : n &&& 0x3fff = n % 0x4000 := Nat.and_two_pow_sub_one_eq_mod n 14

theorem and_3 (n : ℕ) : n &&& 3 = n % 4 := Nat.and_two_pow_sub_one_eq_mod n 2

theorem or_shiftLeft_eq {a b n : ℕ} (h : b < 2 ^ n) : b ||| a <<< n = b + a * 2 ^ n := by
  rw [Nat.or_comm, shiftLeft_or_eq h, Nat.add_comm]

theorem toNat_mod_two (b : Bool) : b.toNat % 2 = b.toNat := by cases b <;> rfl

theorem Sar.toNat_lt (s : Sar) : s.toNat < 4 := by cases s <;> decide

theorem SType.toNat_lt (s : SType) : s.toNat < 4 := by cases s <;> decide

@[simp] theorem Sar.ofBits_toNat (s : Sar) : .ofBits s.toNat = s := by cases s <;> rfl

@[simp] theorem SType.ofBits_toNat (s : SType) : .ofBits s.toNat = s := by cases s <;> rfl

theorem IControl.set_std (c : IControl) : c.set .std =
    c.txSeq % 0x40 * 2 + c.r.toNat * 2 ^ 7 + c.reqSeq % 0x40 * 2 ^ 8 + c.sar.toNat * 2 ^ 14 := by
  have hsar := c.sar.toNat_lt
  have hr := toNat_le c.r
  rw [set, and_0x3f, and_0x3f, Nat.and_one_is_mod, and_3, toNat_mod_two, Nat.mod_eq_of_lt hsar,
    Nat.shiftLeft_eq (c.txSeq % 0x40), or_shiftLeft_eq (n := 7) (by omega),
    or_shiftLeft_eq (n := 8) (by omega), or_shiftLeft_eq (n := 14) (by omega)]

theorem IControl.set_enh (c : IControl) : c.set .enh =
    c.txSeq % 0x40 * 2 + c.f.toNat * 2 ^ 7 + c.reqSeq % 0x40 * 2 ^ 8 + c.sar.toNat * 2 ^ 14 :=
  set_std { c with r := c.f }

theorem IControl.set_ext (c : IControl) : c.set .ext =
    c.f.toNat * 2 + c.reqSeq % 0x4000 * 2 ^ 2 + c.sar.toNat * 2 ^ 16 +
      c.txSeq % 0x4000 * 2 ^ 18 := by
  have hsar := c.sar.toNat_lt
  have hf := toNat_le c.f
  rw [set, and_0x3fff, and_0x3fff, Nat.and_one_is_mod, and_3, toNat_mod_two,
    Nat.mod_eq_of_lt hsar, Nat.shiftLeft_eq c.f.toNat, or_shiftLeft_eq (n := 2) (by omega),
    or_shiftLeft_eq (n := 16) (by omega), or_shiftLeft_eq (n := 18) (by omega)]

theorem SControl.set_std (c : SControl) : c.set .std =
    1 + c.s.toNat * 2 ^ 2 + c.r.toNat * 2 ^ 7 + c.reqSeq % 0x40 * 2 ^ 8 := by
  have hs := c.s.toNat_lt
  have hr := toNat_le c.r
  rw [set, and_0x3f, Nat.and_one_is_mod, and_3, toNat_mod_two, Nat.mod_eq_of_lt hs,
    or_shiftLeft_eq (n := 2) (by omega), or_shiftLeft_eq (n := 7) (by omega),
    or_shiftLeft_eq (n := 8) (by omega)]

theorem SControl.set_enh (c : SControl) : c.set .enh =
    1 + c.s.toNat * 2 ^ 2 + c.p.toNat * 2 ^ 4 + c.f.toNat * 2 ^ 7 + c.reqSeq % 0x40 * 2 ^ 8 := by
  have hs := c.s.toNat_lt
  have hp := toNat_le c.p
  have hf := toNat_le c.f
  rw [set, and_0x3f, Nat.and_one_is_mod, Nat.and_one_is_mod, and_3, toNat_mod_two, toNat_mod_two,
    Nat.mod_eq_of_lt hs, or_shiftLeft_eq (n := 2) (by omega), or_shiftLeft_eq (n := 4) (by omega),
    or_shiftLeft_eq (n := 7) (by omega), or_shiftLeft_eq (n := 8) (by omega)]

theorem SControl.set_ext (c : SControl) : c.set .ext =
    1 + c.f.toNat * 2 + c.reqSeq % 0x4000 * 2 ^ 2 + c.s.toNat * 2 ^ 16 + c.p.toNat * 2 ^ 18 := by
  have hs := c.s.toNat_lt
  have hp := toNat_le c.p
  have hf := toNat_le c.f
  rw [set, and_0x3fff, Nat.and_one_is_mod, Nat.and_one_is_mod, and_3, toNat_mod_two,
    toNat_mod_two, Nat.mod_eq_of_lt hs, or_shiftLeft_eq (n := 1) (by omega),
    or_shiftLeft_eq (n := 2) (by omega), or_shiftLeft_eq (n := 16) (by omega),
    or_shiftLeft_eq (n := 18) (by omega), Nat.pow_one]

theorem sar_eq {n : ℕ} {s : Sar} (h : n % 4 = s.toNat) : .ofBits (n &&& 3) = s := by
  rw [and_3, h, Sar.ofBits_toNat]

theorem sType_eq {n : ℕ} {s : SType} (h : n % 4 = s.toNat) : .ofBits (n &&& 3) = s := by
  rw [and_3, h, SType.ofBits_toNat]

theorem bit_eq {n : ℕ} {b : Bool} (h : n % 2 = b.toNat) : decide (n &&& 1 ≠ 0) = b := by
  rw [Nat.and_one_is_mod, h]
  cases b <;> rfl

/-- **The fields of an I-frame are read back.** -/
theorem IControl.get_set {l : Layout} {c : IControl} (htx : c.txSeq < l.seqMax)
    (hreq : c.reqSeq < l.seqMax) : get (c.set l) l = c.on l := by
  have hsar := c.sar.toNat_lt
  have hr := toNat_le c.r
  have hf := toNat_le c.f
  cases l with
  | std =>
    simp only [Layout.seqMax] at htx hreq
    rw [get, on, set_std]
    simp only [Nat.shiftRight_eq_div_pow]
    rw [sar_eq (s := c.sar) (by omega), bit_eq (b := c.r) (by omega), and_0x3f, and_0x3f]
    congr 1 <;> omega
  | enh =>
    simp only [Layout.seqMax] at htx hreq
    rw [get, on, set_enh]
    simp only [Nat.shiftRight_eq_div_pow]
    rw [sar_eq (s := c.sar) (by omega), bit_eq (b := c.f) (by omega), and_0x3f, and_0x3f]
    congr 1 <;> omega
  | ext =>
    simp only [Layout.seqMax] at htx hreq
    rw [get, on, set_ext]
    simp only [Nat.shiftRight_eq_div_pow]
    rw [sar_eq (s := c.sar) (by omega), bit_eq (b := c.f) (by omega), and_0x3fff, and_0x3fff]
    congr 1 <;> omega

/-- **The fields of an S-frame are read back.** -/
theorem SControl.get_set {l : Layout} {c : SControl} (hreq : c.reqSeq < l.seqMax) :
    get (c.set l) l = c.on l := by
  have hs := c.s.toNat_lt
  have hp := toNat_le c.p
  have hr := toNat_le c.r
  have hf := toNat_le c.f
  cases l with
  | std =>
    simp only [Layout.seqMax] at hreq
    rw [get, on, set_std]
    simp only [Nat.shiftRight_eq_div_pow]
    rw [sType_eq (s := c.s) (by omega), bit_eq (b := c.r) (by omega), and_0x3f]
    congr 1
    omega
  | enh =>
    simp only [Layout.seqMax] at hreq
    rw [get, on, set_enh]
    simp only [Nat.shiftRight_eq_div_pow]
    rw [sType_eq (s := c.s) (by omega), bit_eq (b := c.p) (by omega), bit_eq (b := c.f) (by omega),
      and_0x3f]
    congr 1
    omega
  | ext =>
    simp only [Layout.seqMax] at hreq
    rw [get, on, set_ext]
    simp only [Nat.shiftRight_eq_div_pow]
    rw [sType_eq (s := c.s) (by omega), bit_eq (b := c.p) (by omega), bit_eq (b := c.f) (by omega),
      and_0x3fff]
    congr 1
    omega

theorem IControl.set_lt (c : IControl) (l : Layout) : c.set l < 256 ^ l.size := by
  have hsar := c.sar.toNat_lt
  have hr := toNat_le c.r
  have hf := toNat_le c.f
  cases l with
  | std => rw [set_std, Layout.size]; omega
  | enh => rw [set_enh, Layout.size]; omega
  | ext => rw [set_ext, Layout.size]; omega

theorem SControl.set_lt (c : SControl) (l : Layout) : c.set l < 256 ^ l.size := by
  have hs := c.s.toNat_lt
  have hp := toNat_le c.p
  have hr := toNat_le c.r
  have hf := toNat_le c.f
  cases l with
  | std => rw [set_std, Layout.size]; omega
  | enh => rw [set_enh, Layout.size]; omega
  | ext => rw [set_ext, Layout.size]; omega

theorem IControl.set_type (c : IControl) (l : Layout) : c.set l &&& 1 = 0 := by
  rw [Nat.and_one_is_mod]
  cases l with
  | std => rw [set_std]; omega
  | enh => rw [set_enh]; omega
  | ext => rw [set_ext]; omega

theorem SControl.set_type (c : SControl) (l : Layout) : c.set l &&& 1 = 1 := by
  rw [Nat.and_one_is_mod]
  cases l with
  | std => rw [set_std]; omega
  | enh => rw [set_enh]; omega
  | ext => rw [set_ext]; omega

@[simp] theorem Layout.length_bytes (l : Layout) (n : ℕ) : (l.bytes n).length = l.size :=
  length_leBytes _ _

theorem Layout.leNat_bytes {l : Layout} {n : ℕ} (h : n < 256 ^ l.size) (info : Bytes) :
    leNat ((l.bytes n ++ info).take l.size) = n := by
  rw [take_left' (l.length_bytes n), Layout.bytes, leNat_leBytes h]

theorem Layout.parse_i {l : Layout} {ctl : IControl} (htx : ctl.txSeq < l.seqMax)
    (hreq : ctl.reqSeq < l.seqMax) (info : Bytes) :
    l.parse (l.bytes (ctl.set l) ++ info) = .i (ctl.on l) info := by
  rw [parse, leNat_bytes (ctl.set_lt l), ctl.set_type, drop_left' (l.length_bytes _),
    IControl.get_set htx hreq]
  rfl

theorem Layout.parse_s {l : Layout} {ctl : SControl} (hreq : ctl.reqSeq < l.seqMax) :
    l.parse (l.bytes (ctl.set l)) = .s (ctl.on l) := by
  have h := leNat_bytes (ctl.set_lt l) []
  rw [append_nil] at h
  rw [parse, h, ctl.set_type, SControl.get_set hreq]
  rfl

/-! ## The checks of the receiver -/

/-- The receiving direction of one channel has the configuration of the
sending direction of another. -/
structure Mirrors (e r : Endpoint) : Prop where
  mode : r.mode = e.mode
  fcs : r.fcs = e.fcs
  extendedControl : r.extendedControl = e.extendedControl
  mps : r.mps = e.mps

variable {e r : Endpoint}

theorem Mirrors.layout (h : Mirrors e r) : r.layout = e.layout := by
  rw [Endpoint.layout, Endpoint.layout, h.mode, h.extendedControl]

theorem fcsOf_lt (b : Bytes) : fcsOf b < 2 ^ 16 := (crc16Reflect 0xa001 0 b).isLt

theorem Mirrors.checkFcs (h : Mirrors e r) (b : Bytes) : r.checkFcs (e.addFcs b) = some b := by
  rw [Endpoint.checkFcs, addFcs, Endpoint.tailSize, h.mode, h.fcs]
  split
  · rfl
  cases e.fcs with
  | false => rfl
  | true =>
    have hlen : (b ++ le16 (fcsOf b)).length - 2 = b.length := by simp
    have hread := getLe16_le16 (fcsOf_lt b) []
    rw [append_nil] at hread
    simp only [if_true, ne_eq, OfNat.ofNat_ne_zero, not_false_eq_true, hlen, take_left,
      drop_left, hread]

theorem length_addFcs (e : Endpoint) (b : Bytes) : (e.addFcs b).length = b.length + e.tailSize := by
  rw [addFcs, Endpoint.tailSize]
  split_ifs <;> simp_all

theorem getLe16_addFcs {n : ℕ} (hn : n < 2 ^ 16) (e : Endpoint) (b : Bytes) :
    getLe16 (e.addFcs (le16 n ++ b)) = n := by
  rw [addFcs]
  split
  · rw [append_assoc, getLe16_le16 hn]
  · rw [getLe16_le16 hn]

/-- **The checks of the receiver**, on a frame with a length field, a
channel identifier and a body. -/
theorem Mirrors.parse (h : Mirrors e r) {n : ℕ} (hn : n < 2 ^ 16) (cid : ℕ) (body : Bytes) :
    r.parse (e.addFcs (le16 n ++ le16 cid ++ body)) = if n < r.requiredLen then .disconnect
      else if body.length + e.tailSize ≠ n then .discard
      else if e.mps < body.length then .disconnect else .frame (e.layout.parse body) := by
  have hdrop : (le16 n ++ le16 cid ++ body).drop 4 = body := by
    rw [drop_left' (by simp)]
  have hlen : (le16 n ++ le16 cid ++ body).length = body.length + 4 := by
    simp only [length_append, length_le16]
    omega
  rw [Endpoint.parse, append_assoc, getLe16_addFcs hn, ← append_assoc, length_addFcs,
    hlen, h.checkFcs, h.mps, h.layout]
  dsimp only
  rw [hdrop]
  have hlong : body.length + 4 + e.tailSize ≠ n + 4 ↔ body.length + e.tailSize ≠ n := by omega
  simp only [hlong]

/-! ## Frames that are carried over -/

/-- What `l2cap_br_ret_fc_data_pull` builds: an S-frame with these S bits,
or the I-frame of a window with this sequence number and payload. -/
inductive Asked
  | s (s : SType)
  | i (txSeq : ℕ) (sar : Sar) (info : Bytes)
  deriving DecidableEq, Repr

/-- The frame that is built, and its bytes. -/
def Chan.build (c : Chan) : Asked → Option (Frame × Bytes)
  | .s s => (c.packSFrameHeader s).1.map fun ctl => (.s ctl, c.tx.sFrame ctl)
  | .i txSeq sar info =>
    let ctl := (c.packIFrameHeader sar txSeq).1
    some (.i ctl info, c.tx.iFrame ctl info)

/-- The frame that a channel takes bytes for: an S-frame is not looked at
in streaming mode, and a frame with an F bit that answers no poll is
discarded. -/
def Chan.takes (c : Chan) (b : Bytes) : Option Frame :=
  match c.rx.parse b with
  | .frame (.s ctl) =>
    if c.rx.mode ≠ .stream ∧ (c.updateF ctl.f).1 then some (.s ctl) else none
  | .frame (.i ctl info) => if (c.updateF ctl.f).1 then some (.i ctl info) else none
  | _ => none

/-- **A frame is carried over**: its length field says how many bytes
follow the header, and the receiver takes it for what it is. -/
def Carried (peer : Chan) (f : Frame) (b : Bytes) : Prop :=
  getLe16 b + 4 = b.length ∧ peer.takes b = some f

/-- The values that a mode has: sequence numbers of its sequence space, and
payloads up to the MPS. -/
def Asked.InRange (c : Chan) : Asked → Prop
  | .s _ => c.expectedTxSeq < c.tx.layout.seqMax ∧ c.tx.pduLen [] ≤ c.tx.mps
  | .i txSeq _ info => c.expectedTxSeq < c.tx.layout.seqMax ∧ txSeq < c.tx.layout.seqMax ∧
      c.tx.pduLen info ≤ c.tx.mps

/-- The values that the parameters of `bt_l2cap_br_pack_i_frame_header`
hold; an S-frame has no use in streaming mode. -/
def Asked.Narrow (e : Endpoint) : Asked → Prop
  | .s _ => e.mode ≠ .stream
  | .i txSeq _ info => e.pduLen info < 2 ^ 8 ∧ txSeq < 2 ^ 8

/-- The extended control field belongs to two of the modes. -/
def Endpoint.Consistent (e : Endpoint) : Prop :=
  e.extendedControl = true → e.mode = .eret ∨ e.mode = .stream

theorem Endpoint.size_cases (hmode : e.mode ≠ .basic) :
    (e.Consistent ∧ e.hdrSize = e.layout.size + 2 ∧ e.requiredLen = e.layout.size + e.tailSize) ∨
      (¬ e.Consistent ∧ e.layout.size = 2 ∧ e.hdrSize = 6) := by
  obtain ⟨_, _, _, mode, fcs, ext, _, _⟩ := e
  cases mode <;> cases ext <;> cases fcs <;>
    simp_all [Consistent, hdrSize, layout, Layout.size, requiredLen, tailSize]

theorem updateF_fst (c : Chan) (f : Bool) : (c.updateF f).1 =
    (decide (c.rx.mode = .stream) || !f || c.flags.sendFramePChanged || c.flags.sendFrameP) := by
  rw [updateF]
  by_cases hs : c.rx.mode = .stream
  · simp [hs]
  cases f <;> cases h₁ : c.flags.sendFramePChanged <;> cases h₂ : c.flags.sendFrameP <;>
    simp [hs, h₁]

theorem updateF_of_imp {c : Chan} {p f : Bool} (hpoll : p = true → (c.updateF true).1 = true)
    (hf : f = true → p = true) : (c.updateF f).1 = true := by
  cases f with
  | true => exact hpoll (hf rfl)
  | false => simp [updateF_fst]

@[simp] theorem IControl.on_on (ctl : IControl) (l : Layout) : (ctl.on l).on l = ctl.on l := by
  cases l <;> rfl

@[simp] theorem SControl.on_on (ctl : SControl) (l : Layout) : (ctl.on l).on l = ctl.on l := by
  cases l <;> rfl

theorem IControl.on_txSeq (ctl : IControl) (l : Layout) (n : ℕ) :
    { ctl.on l with txSeq := n } = { ctl with txSeq := n }.on l := by cases l <;> rfl

@[simp] theorem IControl.on_reqSeq (ctl : IControl) (l : Layout) : (ctl.on l).reqSeq = ctl.reqSeq := by
  cases l <;> rfl

@[simp] theorem IControl.on_tx (ctl : IControl) (l : Layout) : (ctl.on l).txSeq = ctl.txSeq := by
  cases l <;> rfl

theorem IControl.on_f {ctl : IControl} {l : Layout} (h : (ctl.on l).f = true) : ctl.f = true := by
  cases l with
  | std => exact absurd h Bool.false_ne_true
  | enh => exact h
  | ext => exact h

@[simp] theorem SControl.on_reqSeq (ctl : SControl) (l : Layout) : (ctl.on l).reqSeq = ctl.reqSeq := by
  cases l <;> rfl

theorem SControl.on_f {ctl : SControl} {l : Layout} (h : (ctl.on l).f = true) : ctl.f = true := by
  cases l with
  | std => exact absurd h Bool.false_ne_true
  | enh => exact h
  | ext => exact h

variable {c peer : Chan} {l : Layout}

theorem packReqSeq_lt (h : c.expectedTxSeq < c.tx.layout.seqMax) :
    c.packReqSeq.reqSeq < c.tx.layout.seqMax := by
  rw [packReqSeq]
  dsimp only
  split
  · exact h
  · cases c.tx.layout <;> decide

theorem packRej_spec (c : Chan) (s : SType) : ∃ flags : Flags,
    (c.packRej s).2 = { c with flags } ∧ flags.recvFrameP = c.flags.recvFrameP := by
  rw [packRej]
  split
  · exact ⟨_, rfl, rfl⟩
  · exact ⟨_, rfl, rfl⟩

theorem packRr_spec (c : Chan) : ∃ s p, ∃ flags : Flags,
    c.packRr = (s, c.flags.recvFrameP, p, { c with flags }) := by
  rw [packRr]
  cases hp : c.flags.recvFrameP with
  | true => exact ⟨_, _, _, rfl⟩
  | false =>
    rw [if_neg Bool.false_ne_true]
    dsimp only
    split
    · exact ⟨_, _, _, rfl⟩
    · exact ⟨_, _, _, rfl⟩

theorem packSFrameHeader_spec {s : SType} {ctl : SControl}
    (h : (c.packSFrameHeader s).1 = some ctl) :
    ∃ x : SControl, ctl = x.on c.tx.layout ∧ x.reqSeq = c.packReqSeq.reqSeq ∧
      (x.f = true → c.flags.recvFrameP = true) := by
  obtain ⟨flags, hrej, hp⟩ := packRej_spec c s
  rw [packSFrameHeader] at h
  generalize c.packRej s = x at h hrej
  obtain ⟨s₁, c₁⟩ := x
  dsimp only at h hrej
  subst hrej
  obtain ⟨s₂, p₂, flags₂, hrr⟩ := packRr_spec { c with flags }
  by_cases hs : s₁ = .rr
  · rw [if_pos hs, hrr] at h
    dsimp only at h
    split at h
    · cases h
    · cases h
      exact ⟨_, rfl, rfl, fun hf => hp ▸ hf⟩
  · rw [if_neg hs] at h
    dsimp only at h
    split at h
    · cases h
    · cases h
      exact ⟨_, rfl, rfl, nofun⟩

/-! ## What is built and what is taken -/

theorem takes_iFrame (hm : Mirrors c.tx peer.rx) (hmode : c.tx.mode ≠ .basic)
    (hcons : c.tx.Consistent) {x : IControl} {info : Bytes} (htx : x.txSeq < c.tx.layout.seqMax)
    (hreq : x.reqSeq < c.tx.layout.seqMax) (hmps : c.tx.pduLen info ≤ c.tx.mps)
    (hlen : c.tx.pduLen info < 2 ^ 8) (hf : (peer.updateF (x.on c.tx.layout).f).1 = true) :
    peer.takes (c.tx.iFrame (x.on c.tx.layout) info) =
      some (.i { x.on c.tx.layout with txSeq := x.txSeq % 2 ^ 8 } info) := by
  obtain ⟨-, hsize, hrequired⟩ | ⟨hn, -⟩ := size_cases hmode
  · have hrequired' : peer.rx.requiredLen = c.tx.layout.size + c.tx.tailSize := by
      rw [← hrequired, Endpoint.requiredLen, Endpoint.requiredLen, hm.mode, hm.fcs,
        hm.extendedControl]
    rw [pduLen] at hlen hmps
    have hmod : x.txSeq % 2 ^ 8 < c.tx.layout.seqMax := (Nat.mod_le _ _).trans_lt htx
    rw [takes, iFrame, append_assoc, hm.parse (by omega), pduLen,
      Nat.mod_eq_of_lt hlen, hrequired', if_neg (by omega), length_append,
      Layout.length_bytes, if_neg (by omega), if_neg (by omega), Layout.parse_i]
    · dsimp only
      rw [IControl.on_tx, IControl.on_txSeq, IControl.on_on, ← IControl.on_txSeq, if_pos hf]
    · simpa using hmod
    · simpa using hreq
  · exact absurd hcons hn

theorem takes_sFrame (hm : Mirrors c.tx peer.rx) (hmode : c.tx.mode ≠ .basic)
    (hstream : c.tx.mode ≠ .stream) (hcons : c.tx.Consistent) {x : SControl}
    (hreq : x.reqSeq < c.tx.layout.seqMax) (hmps : c.tx.pduLen [] ≤ c.tx.mps)
    (hf : (peer.updateF (x.on c.tx.layout).f).1 = true) :
    peer.takes (c.tx.sFrame (x.on c.tx.layout)) = some (.s (x.on c.tx.layout)) := by
  obtain ⟨-, hsize, hrequired⟩ | ⟨hn, -⟩ := size_cases hmode
  · have hrequired' : peer.rx.requiredLen = c.tx.layout.size + c.tx.tailSize := by
      rw [← hrequired, Endpoint.requiredLen, Endpoint.requiredLen, hm.mode, hm.fcs,
        hm.extendedControl]
    have hbound : c.tx.layout.size + 2 + c.tx.tailSize - 2 < 2 ^ 16 := by
      have htail : c.tx.tailSize ≤ 2 := by
        rw [Endpoint.tailSize]
        split_ifs <;> decide
      cases hl : c.tx.layout <;> simp only [Layout.size] <;> omega
    rw [pduLen, length_nil] at hmps
    rw [takes, sFrame, hsize, hm.parse hbound, hrequired', if_neg (by omega),
      Layout.length_bytes, if_neg (by omega), if_neg (by omega), Layout.parse_s]
    · dsimp only
      rw [SControl.on_on, if_pos ⟨by rwa [hm.mode], hf⟩]
    · simpa using hreq
  · exact absurd hcons hn

theorem length_iFrame (e : Endpoint) (ctl : IControl) (info : Bytes) :
    getLe16 (e.iFrame ctl info) = e.pduLen info % 2 ^ 8 ∧
      (e.iFrame ctl info).length = e.layout.size + info.length + e.tailSize + 4 := by
  rw [iFrame, append_assoc, append_assoc]
  refine ⟨getLe16_addFcs (by omega) _ _, ?_⟩
  simp only [length_addFcs, length_append, length_le16, Layout.length_bytes]
  omega

theorem length_sFrame (e : Endpoint) (ctl : SControl) :
    getLe16 (e.sFrame ctl) = e.hdrSize + e.tailSize - 2 ∧
      (e.sFrame ctl).length = e.layout.size + e.tailSize + 4 := by
  have hhdr : e.hdrSize ≤ 6 := by
    rw [Endpoint.hdrSize]
    split_ifs <;> decide
  have htail : e.tailSize ≤ 2 := by
    rw [Endpoint.tailSize]
    split_ifs <;> decide
  rw [sFrame, append_assoc]
  refine ⟨getLe16_addFcs (by omega) _ _, ?_⟩
  simp only [length_addFcs, length_append, length_le16, Layout.length_bytes]
  omega

theorem carried_i_iff (hm : Mirrors c.tx peer.rx) (hmode : c.tx.mode ≠ .basic)
    (hpoll : c.flags.recvFrameP = true → (peer.updateF true).1 = true) {txSeq : ℕ} {sar : Sar}
    {info : Bytes} (hin : (Asked.i txSeq sar info).InRange c) {f : Frame} {b : Bytes}
    (hb : c.build (.i txSeq sar info) = some (f, b)) :
    Carried peer f b ↔ c.tx.Consistent ∧ (Asked.i txSeq sar info).Narrow c.tx := by
  obtain ⟨hexp, htx, hmps⟩ := hin
  cases hb
  set x : IControl := ⟨txSeq, c.packReqSeq.reqSeq, sar, c.flags.recvFrameP,
    c.flags.recvFrameRChanged && c.flags.recvFrameR⟩
  have hctl : (c.packIFrameHeader sar txSeq).1 = x.on c.tx.layout := rfl
  rw [hctl]
  have hf : (peer.updateF (x.on c.tx.layout).f).1 = true :=
    updateF_of_imp hpoll fun h => IControl.on_f h
  obtain ⟨hget, hlength⟩ := length_iFrame c.tx (x.on c.tx.layout) info
  have hpdu : c.tx.pduLen info = info.length + c.tx.hdrSize + c.tx.tailSize - 2 := rfl
  constructor
  · rintro ⟨hlen, htakes⟩
    rw [hget, hlength] at hlen
    obtain ⟨hcons, hsize, -⟩ | ⟨-, hsize, hhdr⟩ := size_cases hmode
    · have hfits : c.tx.pduLen info < 2 ^ 8 := by omega
      refine ⟨hcons, hfits, ?_⟩
      rw [takes_iFrame hm hmode hcons htx (packReqSeq_lt hexp) hmps hfits hf] at htakes
      have heq := congrArg IControl.txSeq (Frame.i.inj (Option.some.inj htakes)).1
      rw [IControl.on_tx] at heq
      have hmod : txSeq % 2 ^ 8 = txSeq := heq
      have := Nat.mod_lt txSeq (Nat.two_pow_pos 8)
      omega
    · omega
  · rintro ⟨hcons, hfits, hnarrow⟩
    obtain ⟨-, hsize, -⟩ | ⟨hn, -⟩ := size_cases hmode
    · refine ⟨?_, ?_⟩
      · rw [hget, hlength, Nat.mod_eq_of_lt hfits]
        omega
      · rw [takes_iFrame hm hmode hcons htx (packReqSeq_lt hexp) hmps hfits hf]
        rw [show x.txSeq % 2 ^ 8 = (x.on c.tx.layout).txSeq by
          rw [IControl.on_tx]
          exact Nat.mod_eq_of_lt hnarrow]
    · exact absurd hcons hn

theorem carried_s_iff (hm : Mirrors c.tx peer.rx) (hmode : c.tx.mode ≠ .basic)
    (hpoll : c.flags.recvFrameP = true → (peer.updateF true).1 = true) {s : SType}
    (hin : (Asked.s s).InRange c) {f : Frame} {b : Bytes} (hb : c.build (.s s) = some (f, b)) :
    Carried peer f b ↔ c.tx.Consistent ∧ (Asked.s s).Narrow c.tx := by
  obtain ⟨hexp, hmps⟩ := hin
  rw [build, Option.map_eq_some_iff] at hb
  obtain ⟨ctl, hpack, heq⟩ := hb
  cases heq
  obtain ⟨x, rfl, hreq, hxf⟩ := packSFrameHeader_spec hpack
  have hf : (peer.updateF (x.on c.tx.layout).f).1 = true :=
    updateF_of_imp hpoll fun h => hxf (SControl.on_f h)
  have hreq' : x.reqSeq < c.tx.layout.seqMax := hreq ▸ packReqSeq_lt hexp
  obtain ⟨hget, hlength⟩ := length_sFrame c.tx (x.on c.tx.layout)
  constructor
  · rintro ⟨hlen, htakes⟩
    rw [hget, hlength] at hlen
    obtain ⟨hcons, hsize, -⟩ | ⟨-, hsize, hhdr⟩ := size_cases hmode
    · refine ⟨hcons, fun hstream => ?_⟩
      rw [takes] at htakes
      split at htakes
      · rw [if_neg (fun h => h.1 (hm.mode.trans hstream))] at htakes
        cases htakes
      · split at htakes <;> cases htakes
      · cases htakes
    · omega
  · rintro ⟨hcons, hstream⟩
    obtain ⟨-, hsize, -⟩ | ⟨hn, -⟩ := size_cases hmode
    · refine ⟨?_, takes_sFrame hm hmode hstream hcons hreq' hmps hf⟩
      rw [hget, hlength]
      omega
    · exact absurd hcons hn

/-- **What is built and what is taken**: between channels with mirrored
configurations, and an F bit that answers a poll, a frame is carried over
exactly where the control field belongs to the mode and the length and the
sequence number fit eight bits. -/
theorem frame_carried_iff (hm : Mirrors c.tx peer.rx) (hmode : c.tx.mode ≠ .basic)
    (hpoll : c.flags.recvFrameP = true → (peer.updateF true).1 = true) {a : Asked}
    (hin : a.InRange c) {f : Frame} {b : Bytes} (hb : c.build a = some (f, b)) :
    Carried peer f b ↔ c.tx.Consistent ∧ a.Narrow c.tx := by
  cases a with
  | s s => exact carried_s_iff hm hmode hpoll hin hb
  | i txSeq sar info => exact carried_i_iff hm hmode hpoll hin hb

/-! ## Building -/

theorem build_i (c : Chan) (txSeq : ℕ) (sar : Sar) (info : Bytes) :
    c.build (.i txSeq sar info) = some (.i (c.packIFrameHeader sar txSeq).1 info,
      c.tx.iFrame (c.packIFrameHeader sar txSeq).1 info) := rfl

theorem packSFrameHeader_chan (c : Chan) (s : SType) :
    ∃ flags reqSeq, (c.packSFrameHeader s).2 = { c with flags, reqSeq } := by
  obtain ⟨flags, hrej, -⟩ := packRej_spec c s
  rw [packSFrameHeader]
  generalize c.packRej s = x at hrej
  obtain ⟨s₁, c₁⟩ := x
  dsimp only at hrej ⊢
  subst hrej
  obtain ⟨s₂, p₂, flags₂, hrr⟩ := packRr_spec { c with flags }
  by_cases hs : s₁ = .rr
  · rw [if_pos hs, hrr]
    dsimp only
    split
    · exact ⟨_, _, rfl⟩
    · exact ⟨_, _, rfl⟩
  · rw [if_neg hs]
    dsimp only
    split
    · exact ⟨_, _, rfl⟩
    · exact ⟨_, _, rfl⟩

/-! ## Two frames that are not carried over -/

/-- Two channels in enhanced retransmission mode, with an MPS of 300. -/
def sampleChan : Chan :=
  { tx := { cid := 0x40, mps := 300, mode := .eret }
    rx := { cid := 0x40, mps := 300, mode := .eret }
    windows := 8
    room := 300
    free := [0, 1, 2, 3, 4, 5, 6, 7] }

theorem frame_carried_iff_sample :
    Carried sampleChan (.i ⟨5, 0, .unseg, false, false⟩ [7, 8, 9])
      [5, 0, 0x40, 0, 0x0a, 0, 7, 8, 9] :=
  (frame_carried_iff (c := sampleChan) (a := .i 5 .unseg [7, 8, 9]) ⟨rfl, rfl, rfl, rfl⟩ nofun nofun
    ⟨by decide, by decide, by decide⟩ (by decide)).2 ⟨nofun, by decide, by decide⟩

/-- The same with the extended control field. -/
def sampleExtChan : Chan :=
  { sampleChan with tx.extendedControl := true, rx.extendedControl := true }

/-- **A frame of 256 bytes says that it has none**, and the frame 256 of
the extended sequence space says that it is the frame 0. -/
theorem frame_not_carried :
    (Mirrors sampleChan.tx sampleChan.rx ∧
      (Asked.i 0 .unseg (List.replicate 254 0)).InRange sampleChan ∧
      ∃ f b, sampleChan.build (.i 0 .unseg (List.replicate 254 0)) = some (f, b) ∧
        ¬ Carried sampleChan f b) ∧
    (Mirrors sampleExtChan.tx sampleExtChan.rx ∧
      (Asked.i 256 .unseg [7]).InRange sampleExtChan ∧
      ∃ f b, sampleExtChan.build (.i 256 .unseg [7]) = some (f, b) ∧
        sampleExtChan.takes b = some (.i ⟨0, 0, .unseg, false, false⟩ [7]) ∧
        ¬ Carried sampleExtChan f b) := by
  refine ⟨⟨⟨rfl, rfl, rfl, rfl⟩, ⟨by decide, by decide, ?_⟩, _, _, build_i _ _ _ _, fun h => ?_⟩,
    ⟨rfl, rfl, rfl, rfl⟩, ⟨by decide, by decide, by decide⟩, _, _, build_i _ _ _ _, by decide,
    fun h => ?_⟩
  · rw [Endpoint.pduLen, List.length_replicate]
    decide
  · have hlen := h.1
    rw [(length_iFrame _ _ _).1, (length_iFrame _ _ _).2, Endpoint.pduLen,
      List.length_replicate] at hlen
    revert hlen
    decide
  · have htakes := h.2
    revert htakes
    decide

end Classic

end OpenBlue
