import OpenBlue.Common.Run
import OpenBlue.Mesh.PbAdv
import OpenBlue.Mesh.Model.PbAdvLink
/-!
# Mesh — what a provisioning link acknowledges

That a transaction is complete is no more than `link.rx.seg` being 0 with
its id in `link.rx.id`. A link that is just opened is in that state, and so
is one whose Start was refused after its id was stored, whose last segment
or frame check sequence was wrong, or whose protocol timer fired. Where a
run meets none of these (`AckOk`), what is acknowledged was delivered
(`acks_delivered`).
-/

namespace OpenBlue

namespace PbAdv

open List

variable {uuid : Bytes} {env : Env} {x gpc : UInt8} {buf pdu : Bytes} {l : Link} {b : Bearer}

/-! ## What a link has seen -/

/-- The transaction id of a PDU. -/
def xactOf (pdu : Bytes) : UInt8 := (pdu.drop 4).headD 0

/-- The generic provisioning control byte of a PDU. -/
def gpcOf (pdu : Bytes) : UInt8 := (pdu.drop 5).headD 0

/-- What a link has seen since it was opened. -/
structure Seen where
  /-- A transaction has begun. -/
  begun : Bool
  /-- The message of the transaction `link.rx.id` was reassembled with a
  correct frame check sequence. -/
  delivered : Bool
  deriving DecidableEq, Repr

/-- A message is handed to the layer above, or refused because the link is
invalid. -/
def delivers (outs : List Out) : Bool :=
  outs.any fun
    | .recv _ => true
    | .error err => err = provErrUnexpPdu
    | _ => false

/-- What the transactions do in a step. -/
def xactOuts (outs : List LinkOut) : List Out :=
  outs.filterMap fun
    | .xact out => some out
    | _ => none

/-- What a link has seen after a step. -/
def Seen.after (b : Bearer) (r : Bearer × List LinkOut) (s : Seen) : Seen where
  begun := r.1.link.active && b.link.active && (s.begun || r.1.link.rx.id != b.link.rx.id)
  delivered := r.1.link.active && (delivers (xactOuts r.2) ||
    (b.link.active && s.delivered && r.1.link.rx.id == b.link.rx.id))

/-- A step, with what the link has seen. -/
def watch (uuid : Bytes) (s : Bearer × Seen) (e : LinkEvent) : Bearer × Seen :=
  ((s.1.step uuid e).1, s.2.after s.1 (s.1.step uuid e))

/-! ## When an acknowledgment is due -/

/-- The PDU is for the link, which is open. -/
def Heard (l : Link) (pdu : Bytes) : Prop :=
  l.cb ∧ 6 ≤ pdu.length ∧ l.active ∧ l.id = beNat (pdu.take 4)

/-- The PDU is a Start or a Continuation. -/
def IsSegment (pdu : Bytes) : Prop :=
  (gpcOf pdu).toNat % 4 = 0 ∧ 3 ≤ (pdu.drop 6).length ∨ (gpcOf pdu).toNat % 4 = 2

/-- `gen_prov_ack_send` is called for a transaction: by the retransmission
of one that counts as received, or with a message; or its PDU goes out. -/
def AckCalled (uuid : Bytes) (s : Bearer × Seen) (e : LinkEvent) (x : UInt8) : Prop :=
  (∃ env pdu, e = .recv env pdu ∧ Heard s.1.link pdu ∧ IsSegment pdu ∧ xactOf pdu = x ∧
      s.1.link.rx.seg = 0 ∧ s.1.link.rx.id = x) ∨
    (delivers (xactOuts (s.1.step uuid e).2) ∧ (s.1.step uuid e).1.link.rx.id = x) ∨
    ∃ ack, .ack ack ∈ xactOuts (s.1.step uuid e).2 ∧ xactOf ack = x

/-- A Start is taken: its transaction is not complete, nothing is being
sent, and it is the next transaction or the one whose Start is missing. -/
def StartTaken (x : UInt8) (l : Link) : Prop :=
  ¬ (x = l.rx.id ∧ l.rx.seg = 0) ∧ l.tx.adv = [] ∧ ¬ (x = l.rx.id ∧ ¬ l.rx.seg.getLsbD 0) ∧
    ¬ (x ≠ l.rx.id ∧ x ≠ nextTransactionId l.rx.id)

/-- The length and the last segment of a Start are right. -/
def StartValid (gpc : UInt8) (buf : Bytes) : Prop :=
  1 ≤ beNat (buf.take 2) ∧ beNat (buf.take 2) ≤ rxBufferMax ∧
    (buf.drop 3).length ≤ beNat (buf.take 2) ∧
    (gpc.toNat / 4 = 0 ∨ 20 < beNat (buf.take 2)) ∧
    gpc.toNat / 4 = lastSeg (beNat (buf.take 2))

/-- The segments missing after a Start, where `seg` were before. -/
def startMissing (last : ℕ) (seg : BitVec 8) : BitVec 8 :=
  xactSegRecv ((if seg ≠ 0 then seg else BitVec.ofNat 8 segNval) &&&
    BitVec.ofNat 8 (2 ^ (last + 1) - 1)) 0

/-- The message that a Start completes has the frame check sequence that it
names. -/
def StartFcsOk (gpc : UInt8) (buf : Bytes) (l : Link) : Prop :=
  pastLast l.rx.seg (gpc.toNat / 4) = false → startMissing (gpc.toNat / 4) l.rx.seg = 0 →
    fcsCheck ((memcpy l.rx.data 0 (buf.drop 3)).take (beNat (buf.take 2)))
      ((buf.drop 2).headD 0) = true

/-- The message that a Continuation completes has the length and the frame
check sequence that its Start named. -/
def ContOk (x gpc : UInt8) (buf : Bytes) (l : Link) : Prop :=
  let seg := gpc.toNat / 4
  x = l.rx.id → l.tx.adv = [] → seg ≠ 0 → seg ≤ l.rx.lastSeg → l.rx.seg.getLsbD seg = true →
    xactSegOffset seg + buf.length ≤ rxBufferMax → xactSegRecv l.rx.seg seg = 0 →
    ¬ (seg = l.rx.lastSeg ∧
        ((l.rx.len : Int) - 20 - ((l.rx.lastSeg : Int) - 1) * 23) % 2 ^ 8 ≠ buf.length) ∧
      fcsCheck ((memcpy l.rx.data (xactSegOffset seg) buf).take l.rx.len) l.rx.fcs = true

/-- A Start or Continuation that leaves no transaction complete that was not
delivered: its transaction is not the one the link began with, where none
has begun; a Start that follows a complete transaction is right; and a
message that is completed is. -/
def SegmentOk (s : Bearer × Seen) (pdu : Bytes) : Prop :=
  (s.2.begun ∨ s.1.link.rx.seg ≠ 0 ∨ xactOf pdu ≠ s.1.link.rx.id) ∧
    ((gpcOf pdu).toNat % 4 = 0 → StartTaken (xactOf pdu) s.1.link →
      (s.1.link.rx.seg = 0 → StartValid (gpcOf pdu) (pdu.drop 6)) ∧
      (StartValid (gpcOf pdu) (pdu.drop 6) → StartFcsOk (gpcOf pdu) (pdu.drop 6) s.1.link)) ∧
    ((gpcOf pdu).toNat % 4 = 2 → ContOk (xactOf pdu) (gpcOf pdu) (pdu.drop 6) s.1.link)

/-- The protocol timer finds no transaction being received, or closes the
link at once. -/
def TimerOk (b : Bearer) (env : LinkEnv) : Prop :=
  b.link.active → b.link.rx.seg = 0 ∨
    b.link.closing = false ∧ (env.adv = false ∨ b.unacked.all Option.isSome)

/-- What keeps the acknowledgments of a run to what was delivered. -/
def AckOk (s : Bearer × Seen) : LinkEvent → Prop
  | .recv _ pdu => Heard s.1.link pdu → IsSegment pdu → SegmentOk s pdu
  | .protTimer env => TimerOk s.1 env
  | _ => True

instance (l : Link) (pdu : Bytes) : Decidable (Heard l pdu) := by delta Heard; infer_instance

instance (pdu : Bytes) : Decidable (IsSegment pdu) := by delta IsSegment; infer_instance

instance (x : UInt8) (l : Link) : Decidable (StartTaken x l) := by delta StartTaken; infer_instance

instance (gpc : UInt8) (buf : Bytes) : Decidable (StartValid gpc buf) := by
  delta StartValid; infer_instance

instance (gpc : UInt8) (buf : Bytes) (l : Link) : Decidable (StartFcsOk gpc buf l) := by
  delta StartFcsOk; infer_instance

instance (x gpc : UInt8) (buf : Bytes) (l : Link) : Decidable (ContOk x gpc buf l) := by
  delta ContOk; infer_instance

instance (s : Bearer × Seen) (pdu : Bytes) : Decidable (SegmentOk s pdu) := by
  delta SegmentOk; infer_instance

instance (b : Bearer) (env : LinkEnv) : Decidable (TimerOk b env) := by
  delta TimerOk; infer_instance

instance (s : Bearer × Seen) : ∀ e : LinkEvent, Decidable (AckOk s e)
  | .recv _ pdu => inferInstanceAs (Decidable (Heard s.1.link pdu → IsSegment pdu → SegmentOk s pdu))
  | .protTimer env => inferInstanceAs (Decidable (TimerOk s.1 env))
  | .txWork | .sendEnd .. | .retransmit .. | .linkOpen .. | .linkAccept .. | .linkClose ..
  | .send .. | .clearTx | .reset .. => .isTrue trivial

/-! ## What is left as it was -/

/-- Nothing is received in a step, and a link that stays open has its
transaction as before. -/
structure Keeps (b : Bearer) (r : Bearer × List LinkOut) : Prop where
  quiet : xactOuts r.2 = []
  rx : r.1.link.active → b.link.active →
    r.1.link.rx.id = b.link.rx.id ∧ r.1.link.rx.seg = b.link.rx.seg

theorem Keeps.refl (b : Bearer) : Keeps b (b, []) := ⟨rfl, fun _ _ => ⟨rfl, rfl⟩⟩

theorem resetAdvLink_active (provisioned : Bool) (b : Bearer) :
    (resetAdvLink provisioned b).link.active = false := by
  unfold resetAdvLink
  dsimp only
  split <;> rfl

variable {r : Bearer × List LinkOut}

theorem keeps_of_inactive (hquiet : xactOuts r.2 = []) (h : r.1.link.active = false) : Keeps b r :=
  ⟨hquiet, fun hactive => absurd hactive (by rw [h]; exact Bool.false_ne_true)⟩

theorem closeLink_keeps (provisioned : Bool) (reason : ℕ) (b b' : Bearer) :
    Keeps b (closeLink provisioned reason b') :=
  keeps_of_inactive rfl (resetAdvLink_active provisioned b')

theorem bearerCtlSendUnacked_link (adv : Bool) (pdu : Bytes) (reason : ℕ) (b : Bearer) :
    (bearerCtlSendUnacked adv pdu reason b).1.link.active = b.link.active ∧
      (bearerCtlSendUnacked adv pdu reason b).1.link.rx = b.link.rx := by
  unfold bearerCtlSendUnacked
  split
  · dsimp only
    split <;> exact ⟨rfl, rfl⟩
  · exact ⟨rfl, rfl⟩

theorem provLinkClose_keeps (env : LinkEnv) (status : ℕ) (b : Bearer) :
    Keeps b (provLinkClose env status b) := by
  unfold provLinkClose
  split
  · exact Keeps.refl b
  · dsimp only
    have hlink := bearerCtlSendUnacked_link env.adv (ctlPdu linkCloseOp [UInt8.ofNat status]
      { b.link with closing := true }) status { b with link := { b.link with closing := true } }
    split
    next b' heq =>
      rw [heq] at hlink
      exact ⟨rfl, fun _ _ => ⟨congrArg Rx.id hlink.2, congrArg Rx.seg hlink.2⟩⟩
    next b' heq => exact closeLink_keeps ..

theorem bufSent_keeps (provisioned : Bool) (reason : ℕ) (b : Bearer) :
    Keeps b (bufSent provisioned reason b) := by
  unfold bufSent
  dsimp only
  split
  · exact closeLink_keeps ..
  · exact ⟨rfl, fun _ _ => ⟨rfl, rfl⟩⟩

theorem delayedAdvSendEnd_keeps (provisioned unacked : Bool) (b : Bearer) :
    Keeps b (delayedAdvSendEnd provisioned unacked b) := by
  unfold delayedAdvSendEnd
  split
  next ctx _ =>
    split
    · cases hcb : ctx.cb with
      | none => exact ⟨rfl, fun _ _ => ⟨rfl, rfl⟩⟩
      | ackComplete => exact ⟨rfl, fun _ _ => ⟨rfl, rfl⟩⟩
      | bufSent reason =>
        have h := bufSent_keeps provisioned reason b
        exact ⟨h.quiet, h.rx⟩
    · exact Keeps.refl b
  · exact Keeps.refl b

theorem txWorkHandler_keeps (b : Bearer) : Keeps b (txWorkHandler b) := by
  unfold txWorkHandler
  dsimp only
  split
  · exact ⟨rfl, fun _ _ => ⟨rfl, rfl⟩⟩
  · exact Keeps.refl b

theorem linkOpen_keeps (env : LinkEnv) (linkId : ℕ) (buf : Bytes) (b : Bearer) :
    Keeps b (linkOpen uuid env linkId buf b) := by
  unfold linkOpen
  split
  · exact Keeps.refl b
  split
  · split
    · exact Keeps.refl b
    split
    · exact Keeps.refl b
    · have hlink := bearerCtlSendUnacked_link env.adv (ctlPdu linkAckOp [] b.link) statusSuccess
        { b with linkAckSending := true }
      exact ⟨rfl, fun _ _ => ⟨congrArg Rx.id hlink.2, congrArg Rx.seg hlink.2⟩⟩
  split
  · exact Keeps.refl b
  next hactive _ =>
    -- the link is opened only now
    dsimp only
    split
    · exact ⟨rfl, fun _ h => absurd h hactive⟩
    · exact ⟨rfl, fun _ h => absurd h hactive⟩

theorem genProvCtl_keeps (env : LinkEnv) (linkId : ℕ) (gpc : UInt8) (buf : Bytes) (b : Bearer) :
    Keeps b (genProvCtl uuid env linkId gpc buf b) := by
  unfold genProvCtl
  split
  · exact linkOpen_keeps env linkId buf b
  split
  · split
    · unfold linkAck
      split
      · split
        · exact Keeps.refl b
        · exact ⟨rfl, fun _ _ => ⟨rfl, rfl⟩⟩
      · exact Keeps.refl b
    · exact Keeps.refl b
  split
  · split
    · unfold linkClose
      split
      · exact closeLink_keeps ..
      · exact Keeps.refl b
    · exact Keeps.refl b
  · exact Keeps.refl b

/-! ## The equations a segment satisfies -/

/-- The link once the length, the transaction and the frame check sequence of
a Start are stored. -/
def startNamed (x : UInt8) (buf : Bytes) (l : Link) : Link :=
  { l with rx := { l.rx with
    len := beNat (buf.take 2), id := x, fcs := (buf.drop 2).headD 0 } }

/-- The link that a Continuation finds: its Start is lost where its
transaction is the next. -/
def contFound (x : UInt8) (l : Link) : Link :=
  if l.rx.seg = 0 ∧ nextTransactionId l.rx.id = x then startLost x l else l

theorem genProvStart_eq (env : Env) (x gpc : UInt8) (buf : Bytes) (l : Link) :
    genProvStart env x gpc buf l = if x = l.rx.id ∧ l.rx.seg = 0 then resendAck env x l
      else if ¬ StartTaken x l then (l, [])
      else if ¬ StartValid gpc buf then provFailed provErrNvalFmt (startNamed x buf l)
      else startStore env (gpc.toNat / 4) (buf.drop 3) (startNamed x buf l) := by
  unfold genProvStart
  split
  · rfl
  next hre =>
  by_cases htaken : StartTaken x l
  · obtain ⟨-, hidle, hdup, hnext⟩ := id htaken
    rw [if_neg (not_not.2 hidle), if_neg hdup, if_neg hnext, if_neg (not_not.2 htaken)]
    -- the five checks of the length and the last segment
    have hvalid : StartValid gpc buf ↔ ¬ beNat (buf.take 2) < 1 ∧ ¬ beNat (buf.take 2) > rxBufferMax ∧
        ¬ beNat (buf.take 2) < (buf.drop 3).length ∧
        ¬ (gpc.toNat / 4 > 0 ∧ beNat (buf.take 2) ≤ 20) ∧
        ¬ gpc.toNat / 4 ≠ lastSeg (beNat (buf.take 2)) := by
      unfold StartValid
      omega
    dsimp only
    split
    next h => exact (if_pos fun hv => (hvalid.1 hv).1 h).symm
    next h1 =>
    split
    next h => exact (if_pos fun hv => (hvalid.1 hv).2.1 h).symm
    next h2 =>
    split
    next h => exact (if_pos fun hv => (hvalid.1 hv).2.2.1 h).symm
    next h3 =>
    split
    next h => exact (if_pos fun hv => (hvalid.1 hv).2.2.2.1 h).symm
    next h4 =>
    split
    next h => exact (if_pos fun hv => (hvalid.1 hv).2.2.2.2 h).symm
    next h5 => exact (if_neg (not_not.2 (hvalid.2 ⟨h1, h2, h3, h4, h5⟩))).symm
  · rw [if_pos htaken]
    split
    · rfl
    next hidle =>
    split
    · rfl
    next hdup =>
    split
    · rfl
    next hnext => exact absurd ⟨hre, not_not.1 hidle, hdup, hnext⟩ htaken

theorem genProvCont_eq (env : Env) (x gpc : UInt8) (buf : Bytes) (l : Link) :
    genProvCont env x gpc buf l = if l.rx.seg = 0 ∧ l.rx.id = x then resendAck env x l
      else if l.tx.adv ≠ [] ∨ x ≠ (contFound x l).rx.id then (l, [])
      else contStore env (gpc.toNat / 4) buf (contFound x l) := by
  unfold genProvCont contFound
  dsimp only
  split
  · rfl
  by_cases hidle : l.tx.adv = []
  · rw [if_neg (not_not.2 hidle)]
    by_cases hnext : l.rx.seg = 0 ∧ nextTransactionId l.rx.id = x
    · rw [if_pos hnext, if_pos hnext]
      exact (if_neg fun h => h.elim (fun h => h hidle) fun h => h rfl).symm
    · rw [if_neg hnext, if_neg hnext]
      by_cases hid : x = l.rx.id
      · rw [if_neg (not_not.2 hid), if_neg fun h => h.elim (fun h => h hidle) fun h => h hid]
      · rw [if_pos hid, if_pos (.inr hid)]
  · rw [if_pos hidle, if_pos (.inl hidle)]

/-- The link when the payload of a Continuation is stored. -/
def contWritten (seg : ℕ) (buf : Bytes) (l : Link) : Link :=
  { l with rx := { l.rx with
    data := memcpy l.rx.data (xactSegOffset seg) buf, seg := xactSegRecv l.rx.seg seg } }

/-- A Continuation is stored in the link it finds. -/
def ContFits (seg : ℕ) (buf : Bytes) (l : Link) : Prop :=
  ¬ (seg > l.rx.lastSeg ∨ seg = 0) ∧ l.rx.seg.getLsbD seg = true ∧
    xactSegOffset seg + buf.length ≤ rxBufferMax

/-- The last Continuation does not have the length that its Start named. -/
def LastLengthWrong (seg : ℕ) (buf : Bytes) (l : Link) : Prop :=
  seg = l.rx.lastSeg ∧ ((l.rx.len : Int) - 20 - ((l.rx.lastSeg : Int) - 1) * 23) % 2 ^ 8 ≠ buf.length

instance (seg : ℕ) (buf : Bytes) (l : Link) : Decidable (ContFits seg buf l) := by
  delta ContFits; infer_instance

instance (seg : ℕ) (buf : Bytes) (l : Link) : Decidable (LastLengthWrong seg buf l) := by
  delta LastLengthWrong; infer_instance

theorem contStore_fits {seg : ℕ} (hfits : ContFits seg buf l) : contStore env seg buf l =
    if LastLengthWrong seg buf l ∧ (xactSegRecv l.rx.seg seg).getLsbD 0 = false then
      provFailed provErrNvalFmt (contWritten seg buf l)
    else if xactSegRecv l.rx.seg seg = 0 then provMsgRecv env (contWritten seg buf l)
    else (contWritten seg buf l, []) := by
  obtain ⟨hseg, hbit, hroom⟩ := hfits
  unfold contStore
  rw [if_neg hseg, if_neg (by rw [hbit]; decide), if_neg (by omega)]
  refine if_congr ⟨fun h => ⟨⟨h.1, h.2.2⟩, Bool.eq_false_of_not_eq_true h.2.1⟩,
    fun h => ⟨h.1.1, by rw [h.2]; decide, h.1.2⟩⟩ rfl rfl

theorem contStore_not_fits {seg : ℕ} (hfits : ¬ ContFits seg buf l) : contStore env seg buf l =
    if seg > l.rx.lastSeg ∨ seg = 0 then provFailed provErrNvalFmt l else (l, []) := by
  unfold contStore
  split
  · rfl
  next hseg =>
  split
  · rfl
  next hbit =>
  split
  · rfl
  next hroom => exact absurd ⟨hseg, by simpa using hbit, by omega⟩ hfits

/-! ## What a segment does -/

/-- What a segment of transaction `x` may do: nothing but an acknowledgment
of a transaction that counts as received; leave segments missing; or
complete a message that is delivered. -/
def SegmentDoes (x : UInt8) (l : Link) (r : Link × List Out) : Prop :=
  r.1.active = l.active ∧
    ((r.1.rx = l.rx ∧ delivers r.2 = false ∧
        ∀ ack, .ack ack ∈ r.2 → xactOf ack = x ∧ l.rx.seg = 0 ∧ l.rx.id = x) ∨
      (r.1.rx.seg ≠ 0 ∧ delivers r.2 = false ∧ ∀ ack, .ack ack ∉ r.2) ∨
      (delivers r.2 = true ∧ ∀ ack, .ack ack ∈ r.2 → xactOf ack = r.1.rx.id))

theorem xactOf_ack (id : ℕ) (x : UInt8) : xactOf (beBytes 4 id ++ [x, gpcAck]) = x := by
  rw [xactOf, drop_left' (length_beBytes 4 id)]
  rfl

theorem genProvAckSend_outs (env : Env) (x : UInt8) (l : Link) :
    ∀ out ∈ (genProvAckSend env x l).2, ∃ ack, out = .ack ack ∧ xactOf ack = x := by
  intro out hout
  unfold genProvAckSend at hout
  split at hout
  · exact absurd hout not_mem_nil
  split at hout
  · dsimp only at hout
    split at hout
    · obtain rfl := mem_singleton.1 hout
      exact ⟨_, rfl, xactOf_ack l.id x⟩
    · exact absurd hout not_mem_nil
  · exact absurd hout not_mem_nil

theorem delivers_genProvAckSend (env : Env) (x : UInt8) (l : Link) :
    delivers (genProvAckSend env x l).2 = false := by
  refine any_eq_false.2 fun out hout => ?_
  obtain ⟨ack, rfl, -⟩ := genProvAckSend_outs env x l out hout
  exact Bool.false_ne_true

theorem SegmentDoes.nothing (x : UInt8) (l : Link) : SegmentDoes x l (l, []) :=
  ⟨rfl, .inl ⟨rfl, rfl, fun _ h => absurd h not_mem_nil⟩⟩

theorem resendAck_does (env : Env) (hseg : l.rx.seg = 0) (hid : l.rx.id = x) :
    SegmentDoes x l (resendAck env x l) := by
  unfold resendAck
  split
  · exact SegmentDoes.nothing x l
  · have hack := genProvAckSend_ackOnly env x l
    refine ⟨hack.active, .inl ⟨hack.rx, delivers_genProvAckSend env x l, fun ack hmem => ?_⟩⟩
    obtain ⟨ack', heq, hx⟩ := genProvAckSend_outs env x l _ hmem
    cases heq
    exact ⟨hx, hseg, hid⟩

variable {l' : Link}

theorem provFailed_does (x : UInt8) (hactive : l'.active = l.active)
    (hseg : l'.rx.seg ≠ 0) : SegmentDoes x l (provFailed provErrNvalFmt l') :=
  ⟨hactive, .inr (.inl ⟨hseg, rfl, fun ack h => by simp [provFailed] at h⟩)⟩

theorem missing_does (x : UInt8) (hactive : l'.active = l.active)
    (hseg : l'.rx.seg ≠ 0) : SegmentDoes x l (l', []) :=
  ⟨hactive, .inr (.inl ⟨hseg, rfl, fun _ => not_mem_nil⟩)⟩

/-- **A message with a correct frame check sequence is delivered.** -/
theorem provMsgRecv_does (x : UInt8) (hactive : l'.active = l.active)
    (hfcs : fcsCheck (l'.rx.data.take l'.rx.len) l'.rx.fcs = true) :
    SegmentDoes x l (provMsgRecv env l') := by
  have hack := genProvAckSend_ackOnly env l'.rx.id l'
  have hacks (ack : Bytes) (hmem : .ack ack ∈ (genProvAckSend env l'.rx.id l').2) :
      xactOf ack = (genProvAckSend env l'.rx.id l').1.rx.id := by
    obtain ⟨ack', heq, hx⟩ := genProvAckSend_outs env l'.rx.id l' _ hmem
    cases heq
    exact hx.trans (congrArg Rx.id hack.rx).symm
  unfold provMsgRecv
  rw [if_pos hfcs]
  dsimp only
  -- refused or handed on, with the acknowledgment before it
  split
  · refine ⟨hack.active.trans hactive, .inr (.inr ⟨by simp [provFailed, delivers], ?_⟩)⟩
    intro ack hmem
    rcases mem_append.1 hmem with h | h
    · exact hacks ack h
    · simp [provFailed] at h
  · refine ⟨hack.active.trans hactive, .inr (.inr ⟨by simp [delivers], ?_⟩)⟩
    intro ack hmem
    rcases mem_append.1 hmem with h | h
    · exact hacks ack h
    · simp at h

/-- The link when the payload of a Start is stored. -/
def startStored (last : ℕ) (payload : Bytes) (l : Link) : Link :=
  provClearTx { l with rx := { l.rx with
    lastSeg := last, seg := startMissing last l.rx.seg, data := memcpy l.rx.data 0 payload } }

theorem startStore_eq (env : Env) (last : ℕ) (payload : Bytes) (l : Link) :
    startStore env last payload l = if pastLast l.rx.seg last then
        provFailed provErrNvalFmt (provClearTx { l with rx := { l.rx with lastSeg := last } })
      else if startMissing last l.rx.seg = 0 then provMsgRecv env (startStored last payload l)
      else (startStored last payload l, []) :=
  rfl

theorem startStore_does (x : UInt8) {last : ℕ} {payload : Bytes}
    (hactive : l'.active = l.active) (hpast : pastLast l'.rx.seg last = true → l'.rx.seg ≠ 0)
    (hfcs : pastLast l'.rx.seg last = false → startMissing last l'.rx.seg = 0 →
      fcsCheck ((memcpy l'.rx.data 0 payload).take l'.rx.len) l'.rx.fcs = true) :
    SegmentDoes x l (startStore env last payload l') := by
  rw [startStore_eq]
  split
  next h => exact provFailed_does x hactive (hpast h)
  next h =>
    split
    next hzero =>
      exact provMsgRecv_does x hactive (hfcs (Bool.eq_false_of_not_eq_true h) hzero)
    next hne => exact missing_does x hactive hne

theorem pastLast_ne_zero {seg : BitVec 8} {last : ℕ} (h : pastLast seg last = true) : seg ≠ 0 := by
  rintro rfl
  simp [pastLast] at h

theorem genProvStart_does (env : Env) (hvalid : StartTaken x l → l.rx.seg = 0 → StartValid gpc buf)
    (hfcs : StartTaken x l → StartValid gpc buf → StartFcsOk gpc buf l) :
    SegmentDoes x l (genProvStart env x gpc buf l) := by
  rw [genProvStart_eq]
  split
  next h => exact resendAck_does env h.2 h.1.symm
  split
  · exact SegmentDoes.nothing x l
  next htaken =>
  have htaken : StartTaken x l := not_not.1 htaken
  split
  next hbad =>
    -- a Start that is refused leaves the segments of another missing
    exact provFailed_does x rfl fun h0 => hbad (hvalid htaken h0)
  next hv => exact startStore_does x rfl pastLast_ne_zero (hfcs htaken (not_not.1 hv))

theorem contStore_does (env : Env) {seg : ℕ} (hactive : l'.active = l.active) (hne : l'.rx.seg ≠ 0)
    (hok : seg ≠ 0 → seg ≤ l'.rx.lastSeg → l'.rx.seg.getLsbD seg = true →
      xactSegOffset seg + buf.length ≤ rxBufferMax → xactSegRecv l'.rx.seg seg = 0 →
      ¬ (seg = l'.rx.lastSeg ∧
          ((l'.rx.len : Int) - 20 - ((l'.rx.lastSeg : Int) - 1) * 23) % 2 ^ 8 ≠ buf.length) ∧
        fcsCheck ((memcpy l'.rx.data (xactSegOffset seg) buf).take l'.rx.len) l'.rx.fcs = true) :
    SegmentDoes x l (contStore env seg buf l') := by
  by_cases hfits : ContFits seg buf l'
  · rw [contStore_fits hfits]
    by_cases hzero : xactSegRecv l'.rx.seg seg = 0
    · obtain ⟨hseg, hbit, hroom⟩ := hfits
      obtain ⟨hlen, hfcs⟩ := hok (by omega) (by omega) hbit hroom hzero
      rw [if_neg (fun h => hlen h.1), if_pos hzero]
      exact provMsgRecv_does x hactive hfcs
    · rw [if_neg hzero]
      split
      · exact provFailed_does x hactive hzero
      · exact missing_does x hactive hzero
  · rw [contStore_not_fits hfits]
    split
    · exact provFailed_does x hactive hne
    · exact missing_does x hactive hne

theorem genProvCont_does (env : Env) (hok : ContOk x gpc buf l) :
    SegmentDoes x l (genProvCont env x gpc buf l) := by
  rw [genProvCont_eq]
  split
  next h => exact resendAck_does env h.1 h.2
  next hre =>
  split
  · exact SegmentDoes.nothing x l
  next htaken =>
  obtain ⟨hidle, hid⟩ := not_or.1 htaken
  have hid : x = (contFound x l).rx.id := not_not.1 hid
  by_cases h : l.rx.seg = 0 ∧ nextTransactionId l.rx.id = x
  · -- with the Start lost, segment 0 stays missing
    rw [contFound, if_pos h]
    have hall : (startLost x l).rx.seg = BitVec.ofNat 8 segNval := rfl
    refine contStore_does env rfl (by rw [hall]; decide) fun hseg _ _ _ hzero => ?_
    have hbit := (eq_zero_iff _).1 hzero 0 (by decide)
    rw [hall, getLsbD_xactSegRecv _ (by decide), decide_eq_true (Ne.symm hseg)] at hbit
    exact absurd hbit (by decide)
  · rw [contFound, if_neg h] at hid ⊢
    refine contStore_does env rfl (fun h0 => hre ⟨h0, hid.symm⟩) ?_
    exact hok hid (not_not.1 hidle)

/-! ## The run -/

/-- In an open link a transaction that counts as received was delivered, or
is the one the link began with. -/
def AckInv (s : Bearer × Seen) : Prop :=
  s.1.link.active = true → s.1.link.rx.seg = 0 → s.2.delivered = true ∨ s.2.begun = false

theorem xactOuts_map (outs : List Out) : xactOuts (outs.map .xact) = outs := by
  induction outs with
  | nil => rfl
  | cons out outs ih => exact congrArg (out :: ·) ih

variable {s : Bearer × Seen}

theorem AckInv.keep (h : AckInv s) (hkeep : Keeps s.1 r) : AckInv (r.1, s.2.after s.1 r) := by
  intro hactive' hseg'
  cases hactive : s.1.link.active with
  | false => exact .inr (by simp [Seen.after, hactive])
  | true =>
    obtain ⟨hid, hseg⟩ := hkeep.rx hactive' hactive
    rcases h hactive (hseg ▸ hseg') with hdone | hbegun
    · exact .inl (by simp_all [Seen.after])
    · exact .inr (by simp_all [Seen.after])

theorem Keeps.not_called {e : LinkEvent} (hkeep : Keeps s.1 (s.1.step uuid e))
    (hno : ∀ env pdu, e = .recv env pdu → Heard s.1.link pdu → (gpcOf pdu).toNat % 4 = 3) :
    ¬ AckCalled uuid s e x := by
  rintro (⟨env, pdu, he, hheard, hsegment, -⟩ | ⟨hdel, -⟩ | ⟨ack, hack, -⟩)
  · have hctl := hno env pdu he hheard
    rcases hsegment with ⟨h, -⟩ | h <;> omega
  · rw [hkeep.quiet] at hdel
    exact absurd hdel Bool.false_ne_true
  · rw [hkeep.quiet] at hack
    exact absurd hack not_mem_nil

theorem recv_heard {env : LinkEnv} (hheard : Heard b.link pdu)
    (hctl : (gpcOf pdu).toNat % 4 ≠ 3) : b.recv uuid env pdu =
    b.ofXact (genProvRecv (xactEnv env b) (xactOf pdu) (gpcOf pdu) (pdu.drop 6) b.link) := by
  obtain ⟨hcb, hlen, -, hid⟩ := hheard
  unfold Bearer.recv
  rw [if_neg (not_not.2 hcb), if_neg (by omega), if_neg (fun h => h.2 hid)]
  exact if_neg hctl

theorem genProvRecv_inactive {env : Env} (hctl : gpc.toNat % 4 ≠ 3) (hactive : ¬ l.active) :
    genProvRecv env x gpc buf l = (l, []) := by
  unfold genProvRecv
  obtain h | h | h : gpc.toNat % 4 = 0 ∨ gpc.toNat % 4 = 1 ∨ gpc.toNat % 4 = 2 := by omega
  all_goals simp only [h, hactive, if_false, ite_self, Bool.false_eq_true]

theorem recv_keeps (env : LinkEnv) (hno : Heard b.link pdu → (gpcOf pdu).toNat % 4 = 3) :
    Keeps b (b.recv uuid env pdu) := by
  unfold Bearer.recv
  split
  · exact Keeps.refl b
  next hcb =>
  split
  · exact Keeps.refl b
  next hlen =>
  split
  · exact Keeps.refl b
  next hid =>
  split
  · exact genProvCtl_keeps ..
  next hctl =>
    -- the link is not open
    have hactive : ¬ b.link.active := fun hactive => hctl (hno
      ⟨not_not.1 hcb, by omega, hactive, not_not.1 fun h => hid ⟨hactive, h⟩⟩)
    rw [genProvRecv_inactive hctl hactive]
    exact ⟨rfl, fun _ _ => ⟨rfl, rfl⟩⟩

theorem genProvAck_does (x : UInt8) (l : Link) : SegmentDoes x l (genProvAck x l) := by
  unfold genProvAck
  split
  · exact SegmentDoes.nothing x l
  split
  · split
    · exact ⟨rfl, .inl ⟨rfl, rfl, fun ack h => by simp at h⟩⟩
    · exact ⟨rfl, .inl ⟨rfl, rfl, fun ack h => by simp at h⟩⟩
  · exact SegmentDoes.nothing x l

theorem genProvRecv_does (env : Env) (hctl : (gpcOf pdu).toNat % 4 ≠ 3)
    (hok : IsSegment pdu → SegmentOk s pdu) : SegmentDoes (xactOf pdu) s.1.link
      (genProvRecv env (xactOf pdu) (gpcOf pdu) (pdu.drop 6) s.1.link) := by
  unfold genProvRecv
  obtain h | h | h : (gpcOf pdu).toNat % 4 = 0 ∨ (gpcOf pdu).toNat % 4 = 1 ∨
    (gpcOf pdu).toNat % 4 = 2 := by omega
  · rw [h]
    simp only
    split
    · exact SegmentDoes.nothing ..
    next hshort =>
    split
    · have hok := (hok (.inl ⟨h, by omega⟩)).2.1 h
      exact genProvStart_does env (fun ht => (hok ht).1) fun ht => (hok ht).2
    · exact SegmentDoes.nothing ..
  · rw [h]
    simp only
    split
    · exact genProvAck_does ..
    · exact SegmentDoes.nothing ..
  · rw [h]
    simp only
    split
    · exact genProvCont_does env ((hok (.inr h)).2.2 h)
    · exact SegmentDoes.nothing ..

theorem genProvRecv_resend (env : Env) (hsegment : IsSegment pdu) (hactive : l.active = true)
    (hseg : l.rx.seg = 0) (hid : l.rx.id = xactOf pdu) :
    genProvRecv env (xactOf pdu) (gpcOf pdu) (pdu.drop 6) l = resendAck env (xactOf pdu) l := by
  unfold genProvRecv
  rcases hsegment with ⟨h0, hlen⟩ | h2
  · rw [h0]
    refine (if_neg (by omega)).trans ((if_pos hactive).trans ?_)
    unfold genProvStart
    exact if_pos ⟨hid.symm, hseg⟩
  · rw [h2]
    refine (if_pos hactive).trans ?_
    unfold genProvCont
    exact if_pos ⟨hseg, hid⟩

theorem genProvRecv_no_ack (env : Env) (hctl : (gpcOf pdu).toNat % 4 ≠ 3)
    (hsegment : ¬ IsSegment pdu) (ack : Bytes) :
    .ack ack ∉ (genProvRecv env (xactOf pdu) (gpcOf pdu) (pdu.drop 6) l).2 := by
  have hkind : (gpcOf pdu).toNat % 4 ≠ 2 := fun h => hsegment (.inr h)
  unfold genProvRecv
  obtain h | h : (gpcOf pdu).toNat % 4 = 0 ∨ (gpcOf pdu).toNat % 4 = 1 := by omega
  · have hshort : (pdu.drop 6).length < 3 := by
      by_contra hlen
      exact hsegment (.inl ⟨h, by omega⟩)
    rw [h]
    simp only [if_pos hshort, not_mem_nil, not_false_eq_true]
  · rw [h]
    simp only
    split
    · unfold genProvAck
      split
      · exact not_mem_nil
      split <;> simp
    · exact not_mem_nil

theorem Seen.after_delivers {s : Seen}
    (hactive : r.1.link.active = true) (h : delivers (xactOuts r.2) = true) :
    (s.after b r).delivered = true := by
  simp [Seen.after, hactive, h]

theorem Seen.after_kept {s : Seen} (hactive : r.1.link.active = true)
    (hopen : b.link.active = true) (hid : r.1.link.rx.id = b.link.rx.id)
    (h : s.delivered = true) : (s.after b r).delivered = true := by
  simp [Seen.after, hactive, hopen, hid, h]

/-- **A transaction PDU in a run that meets `AckOk`.** -/
theorem recv_acks {env : LinkEnv} (hinv : AckInv s)
    (hheard : Heard s.1.link pdu) (hctl : (gpcOf pdu).toNat % 4 ≠ 3)
    (hok : IsSegment pdu → SegmentOk s pdu) :
    AckInv (watch uuid s (.recv env pdu)) ∧ ∀ x, AckCalled uuid s (.recv env pdu) x →
      (watch uuid s (.recv env pdu)).2.delivered = true ∧
        (watch uuid s (.recv env pdu)).1.link.rx.id = x := by
  have hactive : s.1.link.active = true := hheard.2.2.1
  have hstep : s.1.step uuid (.recv env pdu) = s.1.ofXact
      (genProvRecv (xactEnv env s.1) (xactOf pdu) (gpcOf pdu) (pdu.drop 6) s.1.link) :=
    recv_heard hheard hctl
  -- a transaction that counts as received was delivered, for it is not the first
  have hcounts (hsegment : IsSegment pdu) (hseg : s.1.link.rx.seg = 0)
      (hid : s.1.link.rx.id = xactOf pdu) : s.2.delivered = true := by
    rcases (hok hsegment).1 with hbegun | hmissing | hother
    · rcases hinv hactive hseg with h | h
      · exact h
      · exact absurd hbegun (by rw [h]; exact Bool.false_ne_true)
    · exact absurd hseg hmissing
    · exact absurd hid.symm hother
  have hdoes := genProvRecv_does (xactEnv env s.1) hctl hok
  have hresend := @genProvRecv_resend pdu s.1.link (xactEnv env s.1)
  have hnone := @genProvRecv_no_ack pdu s.1.link (xactEnv env s.1) hctl
  unfold AckCalled watch
  rw [hstep]
  generalize genProvRecv (xactEnv env s.1) (xactOf pdu) (gpcOf pdu) (pdu.drop 6) s.1.link = r at *
  have houts : xactOuts (s.1.ofXact r).2 = r.2 := xactOuts_map r.2
  have hopen : (s.1.ofXact r).1.link.active = true := hdoes.1.trans hactive
  constructor
  · intro _ hseg
    rcases hdoes.2 with ⟨hrx, -, -⟩ | ⟨hne, -, -⟩ | ⟨hdel, -⟩
    · have hid : (s.1.ofXact r).1.link.rx.id = s.1.link.rx.id := congrArg Rx.id hrx
      rcases hinv hactive ((congrArg Rx.seg hrx).symm.trans hseg) with h | h
      · exact .inl (Seen.after_kept hopen hactive hid h)
      · exact .inr (by simp [Seen.after, hid, h])
    · exact absurd hseg hne
    · exact .inl (Seen.after_delivers hopen (by rw [houts]; exact hdel))
  · rintro x (⟨_, _, he, -, hsegment, hx, hseg, hid⟩ | ⟨hdel, hid⟩ | ⟨ack, hack, hx⟩)
    · cases he
      have hrx : r.1.rx = s.1.link.rx := by
        rw [hresend hsegment hactive hseg (hid.trans hx.symm)]
        exact (resendAck_ackOnly ..).rx
      exact ⟨Seen.after_kept hopen hactive (congrArg Rx.id hrx)
        (hcounts hsegment hseg (hid.trans hx.symm)), (congrArg Rx.id hrx).trans hid⟩
    · exact ⟨Seen.after_delivers hopen hdel, hid⟩
    · rw [houts] at hack
      rcases hdoes.2 with ⟨hrx, -, hacks⟩ | ⟨-, -, hacks⟩ | ⟨hdel, hacks⟩
      · obtain ⟨hxact, hseg, hid⟩ := hacks ack hack
        have hsegment : IsSegment pdu := by
          by_contra hno
          exact hnone hno ack hack
        exact ⟨Seen.after_kept hopen hactive (congrArg Rx.id hrx) (hcounts hsegment hseg hid),
          (congrArg Rx.id hrx).trans (hid.trans (hxact.symm.trans hx))⟩
      · exact absurd hack (hacks ack)
      · exact ⟨Seen.after_delivers hopen (by rw [houts]; exact hdel), (hacks ack hack).symm.trans hx⟩

theorem sendUnacked_full {ctx : UnackedCtx} {places : List (Option UnackedCtx)}
    (h : places.all Option.isSome = true) : sendUnacked ctx places = none := by
  induction places with
  | nil => rfl
  | cons place places ih =>
    rw [all_cons, Bool.and_eq_true] at h
    cases place with
    | none => exact absurd h.1 Bool.false_ne_true
    | some c => rw [sendUnacked, ih h.2, Option.map_none]

theorem protocolTimeout_keeps {env : LinkEnv} (hok : TimerOk b env) :
    Keeps b (protocolTimeout env b) := by
  unfold protocolTimeout
  split
  next hactive =>
    rcases hok hactive with hseg | ⟨hclosing, hfull⟩
    · have h := provLinkClose_keeps env statusTimeout
        { b with link := { b.link with rx := { b.link.rx with seg := 0 } } }
      refine ⟨h.quiet, fun h1 h2 => ?_⟩
      obtain ⟨hid, hseg'⟩ := h.rx h1 h2
      exact ⟨hid, hseg'.trans hseg.symm⟩
    · unfold provLinkClose bearerCtlSendUnacked
      dsimp only
      rw [if_neg (by rw [hclosing]; exact Bool.false_ne_true)]
      rcases hfull with hadv | hfull
      · rw [hadv, if_neg Bool.false_ne_true]
        exact closeLink_keeps ..
      · split
        next h =>
          split at h
          · rw [sendUnacked_full hfull] at h
            exact nomatch h
          · exact nomatch h
        · exact closeLink_keeps ..
  · exact Keeps.refl b

theorem provSendAdv_link (adv : ℕ → Bool) (msg : Bytes) (l : Link) :
    (provSendAdv adv msg l).1.active = l.active ∧ (provSendAdv adv msg l).1.rx = l.rx := by
  unfold provSendAdv
  dsimp only
  split
  · split <;> exact ⟨rfl, rfl⟩
  · exact ⟨rfl, rfl⟩

theorem step_keeps {e : LinkEvent} (hok : AckOk s e)
    (hno : ∀ env pdu, e = .recv env pdu → Heard s.1.link pdu → (gpcOf pdu).toNat % 4 = 3) :
    Keeps s.1 (s.1.step uuid e) := by
  cases e with
  | recv env pdu => exact recv_keeps env (hno env pdu rfl)
  | txWork => exact txWorkHandler_keeps s.1
  | sendEnd provisioned unacked => exact delayedAdvSendEnd_keeps provisioned unacked s.1
  | protTimer env => exact protocolTimeout_keeps hok
  | retransmit env late =>
    show Keeps s.1 (provRetransmit env late s.1)
    unfold provRetransmit
    split
    · exact provLinkClose_keeps env statusTimeout s.1
    · exact Keeps.refl s.1
  | linkOpen enabled env id uuid =>
    refine ⟨rfl, fun _ hactive => ?_⟩
    have h : provLinkOpen enabled env id uuid s.1 = s.1 := if_pos (.inr hactive)
    exact ⟨congrArg (·.link.rx.id) h, congrArg (·.link.rx.seg) h⟩
  | linkAccept enabled =>
    refine ⟨rfl, fun _ hactive => ?_⟩
    have h : provLinkAccept enabled s.1 = s.1 := if_pos (.inr hactive)
    exact ⟨congrArg (·.link.rx.id) h, congrArg (·.link.rx.seg) h⟩
  | linkClose env status => exact provLinkClose_keeps env status s.1
  | send adv msg =>
    have h := provSendAdv_link adv msg s.1.link
    exact ⟨rfl, fun _ _ => ⟨congrArg Rx.id h.2, congrArg Rx.seg h.2⟩⟩
  | clearTx => exact ⟨rfl, fun _ _ => ⟨rfl, rfl⟩⟩
  | reset provisioned => exact keeps_of_inactive rfl (resetAdvLink_active provisioned s.1)

/-- **One step.** -/
theorem step_acks {e : LinkEvent} (hinv : AckInv s) (hok : AckOk s e) :
    AckInv (watch uuid s e) ∧ ∀ x, AckCalled uuid s e x →
      (watch uuid s e).2.delivered = true ∧ (watch uuid s e).1.link.rx.id = x := by
  by_cases h : ∃ env pdu, e = .recv env pdu ∧ Heard s.1.link pdu ∧ (gpcOf pdu).toNat % 4 ≠ 3
  · obtain ⟨env, pdu, rfl, hheard, hctl⟩ := h
    exact recv_acks hinv hheard hctl (hok hheard)
  · have hno (env : LinkEnv) (pdu : Bytes) (he : e = .recv env pdu) (hheard : Heard s.1.link pdu) :
        (gpcOf pdu).toNat % 4 = 3 := by
      by_contra hctl
      exact h ⟨env, pdu, he, hheard, hctl⟩
    have hkeep : Keeps s.1 (s.1.step uuid e) := step_keeps hok hno
    exact ⟨hinv.keep hkeep, fun x hcalled => absurd hcalled (hkeep.not_called hno)⟩

/-- **What is acknowledged was delivered**, in a run that leaves no
transaction complete that was not. -/
theorem acks_delivered (uuid : Bytes) (es : List LinkEvent)
    (h : Along (watch uuid) AckOk (Bearer.init, ⟨false, false⟩) es) :
    Along (watch uuid) (fun s e => ∀ x, AckCalled uuid s e x →
      (watch uuid s e).2.delivered = true ∧ (watch uuid s e).1.link.rx.id = x)
      (Bearer.init, ⟨false, false⟩) es :=
  inv_along AckInv (fun _ _ hinv hok => step_acks hinv hok)
    (fun hactive => absurd hactive Bool.false_ne_true) h

/-- The UUID of a device, and the PDU that opens a link to it. -/
def sampleUuid : Bytes := List.replicate 16 0x11

/-- A Link Open PDU for the device. -/
def openPdu : Bytes := beBytes 4 0x2a ++ [0x00, gpcCtl linkOpenOp] ++ sampleUuid

/-- The Start of transaction 0 with a message of one byte, all of whose
segments it holds if `last` is 0. -/
def startPdu (last : ℕ) : Bytes :=
  beBytes 4 0x2a ++ [0x00, gpcStart last] ++ beBytes 2 1 ++ [fcsCalc [7]] ++ [7]

/-- A message is delivered; its Start comes again when the acknowledgment
was sent, and is acknowledged again. -/
theorem acks_delivered_again :
    Along (watch sampleUuid) AckOk (Bearer.init, ⟨false, false⟩)
      [.linkAccept true, .recv {} openPdu, .txWork, .sendEnd false true, .recv {} (startPdu 0),
        .txWork, .sendEnd false true, .recv {} (startPdu 0)] ∧
    Along (watch sampleUuid) (fun s e => ∀ x, AckCalled sampleUuid s e x →
      (watch sampleUuid s e).2.delivered = true ∧ (watch sampleUuid s e).1.link.rx.id = x)
      (Bearer.init, ⟨false, false⟩)
      [.linkAccept true, .recv {} openPdu, .txWork, .sendEnd false true, .recv {} (startPdu 0),
        .txWork, .sendEnd false true, .recv {} (startPdu 0)] :=
  ⟨by decide +kernel, acks_delivered sampleUuid _ (by decide +kernel)⟩

/-- **A Start that was refused is acknowledged when it comes again**: its
last segment is not that of its length, and its message is not delivered. -/
theorem refused_start_acked :
    let s := run (watch sampleUuid) (Bearer.init, ⟨false, false⟩)
      [.linkAccept true, .recv {} openPdu, .recv {} (startPdu 1)]
    AckCalled sampleUuid s (.recv {} (startPdu 1)) 0 ∧
      (watch sampleUuid s (.recv {} (startPdu 1))).2.delivered = false ∧
      (s.1.step sampleUuid (.recv {} (startPdu 1))).2 =
        [.xact (.ack (beBytes 4 0x2a ++ [0x00, gpcAck]))] := by
  refine ⟨.inr (.inr ⟨beBytes 4 0x2a ++ [0x00, gpcAck], by decide +kernel, rfl⟩), by decide +kernel,
    by decide +kernel⟩

end PbAdv

end OpenBlue
