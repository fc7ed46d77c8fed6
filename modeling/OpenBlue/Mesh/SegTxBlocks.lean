import OpenBlue.Mesh.Blocking
import OpenBlue.Mesh.SegLoops
/-!
# Mesh — the blocks of the transmit contexts

The `nack_count` of a transmit context is the number of blocks it holds,
and none of them is past `seg_n`. Acks and resets keep that, whatever they
are; a send keeps it if its segments fit the array of the context, and if
there is one.
-/

namespace OpenBlue

namespace Mesh

open List Segs SegTx

variable {cfg : TransCfg} {env : SendEnv} {tx : NetTx} {ids : List (Option ℕ)} {free : List ℕ}

/-! ## Transmit contexts -/

variable {t t' : SegTx} {i : ℕ} {s : Trans} {g : Segs} {pool : List ℕ}
variable {rows : List (List (Option ℕ))} {l l' : List SegTx}

/-- **The account of a transmit context**: `nack_count` is the number of
blocks it holds, none of them past `seg_n`. -/
structure TxHeld (cfg : TransCfg) (t : SegTx) (ids : List (Option ℕ)) : Prop where
  length : t.seg.length = cfg.txSegMax
  same : SameHeld ids t.seg
  nack : t.nackCount = count ids
  last : ∀ o, (ids.getD o none).isSome → o ≤ t.segN

/-- What `seg_tx_reset` needs to find every block of a context. -/
structure TxFound (cfg : TransCfg) (t : SegTx) (ids : List (Option ℕ)) : Prop where
  length : t.seg.length = cfg.txSegMax
  same : SameHeld ids t.seg
  nack : count ids ≤ t.nackCount
  last : ∀ o, (ids.getD o none).isSome → o ≤ t.segN

theorem TxHeld.found (h : TxHeld cfg t ids) : TxFound cfg t ids :=
  ⟨h.length, h.same, h.nack.ge, h.last⟩

theorem getD_of_count (h : count ids = 0) (o : ℕ) : ids.getD o none = none := by
  rw [getD_eq_getElem?_getD]
  cases ho : ids[o]? with
  | none => rfl
  | some p => exact count_eq_zero.1 h p (mem_of_getElem? ho)

/-- **`seg_tx_reset` leaves nothing behind.** -/
theorem TxFound.reset (h : TxFound cfg t ids) (free : List ℕ) :
    TxHeld cfg t.reset (txFree t.nackCount (t.segN + 1) ids free).1 := by
  have hcount := count_txFree free h.nack fun o ho => Nat.lt_succ_iff.2 (h.last o ho)
  refine ⟨(length_dropSegs _ _ _).trans h.length, h.same.txFree _ _ _, hcount.symm, fun o ho => ?_⟩
  rw [getD_of_count hcount] at ho
  exact nomatch ho

/-- What the account reads of a transmit context. -/
def SegTx.hold (t : SegTx) : List (Option Bytes) × ℕ × ℕ := (t.seg, t.nackCount, t.segN)

theorem TxHeld.congr (h : TxHeld cfg t ids) (heq : t'.hold = t.hold) : TxHeld cfg t' ids := by
  simp only [SegTx.hold, Prod.mk.injEq] at heq
  obtain ⟨hseg, hnack, hlast⟩ := heq
  exact ⟨hseg ▸ h.length, hseg ▸ h.same, hnack.trans h.nack, hlast ▸ h.last⟩

/-- The account of the sending side: that of its contexts, and that of the
pool. The pointers of the other side are `rows`. -/
structure TxSide (cfg : TransCfg) (pool : List ℕ) (rows : List (List (Option ℕ)))
    (l : List SegTx) (g : Segs) : Prop where
  held : l.Forall₂ (TxHeld cfg) g.tx
  rx : g.rx = rows
  pool : Conserved pool g.free (g.tx ++ g.rx)

theorem TxSide.congr (h : TxSide cfg pool rows l g) (heq : l'.map SegTx.hold = l.map SegTx.hold) :
    TxSide cfg pool rows l' g :=
  ⟨forall₂_map_congr (fun _ _ _ heq h => h.congr heq) h.held heq, h.rx, h.pool⟩

theorem TxSide.put {r : List (Option ℕ) × List ℕ} (h : TxSide cfg pool rows l g)
    (hi : g.tx[i]? = some ids) (hm : Moved (ids, g.free) r) (ht : TxHeld cfg t r.1) :
    TxSide cfg pool rows (l.set i t) (g.putTx i r) := by
  refine ⟨forall₂_set h.held ht, h.rx, ?_⟩
  have hlt := (List.getElem?_eq_some_iff.1 hi).1
  have hset := h.pool.set (i := i) (by rwa [getElem?_append_left hlt]) hm
  rwa [set_append_left _ _ hlt] at hset

theorem putTx_putTx (g : Segs) (i : ℕ) (r r' : List (Option ℕ) × List ℕ) :
    (g.putTx i r).putTx i r' = g.putTx i r' := by
  simp [putTx]

theorem putTx_txReset {r : List (Option ℕ) × List ℕ} (hi : g.tx[i]? = some ids) :
    (g.putTx i r).txReset i t = g.putTx i (txFree t.nackCount (t.segN + 1) r.1 r.2) := by
  have hlt := (List.getElem?_eq_some_iff.1 hi).1
  rw [txReset, putTx_putTx]
  simp [putTx, hlt]

theorem segTxReset_segTx (cfg : TransCfg) (i : ℕ) (s : Trans) :
    (segTxReset cfg i s).segTx = s.segTx.modify i reset := rfl

/-- **`seg_tx_reset` keeps the account.** -/
theorem TxSide.reset (h : TxSide cfg pool rows s.segTx g) (i : ℕ) :
    TxSide cfg pool rows (segTxReset cfg i s).segTx (g.txReset i (s.segTx.getD i default)) := by
  rw [segTxReset_segTx]
  cases hi : s.segTx[i]? with
  | none =>
    have hlen : g.tx.length ≤ i := h.held.length_eq ▸ List.getElem?_eq_none_iff.1 hi
    have hsegs : g.txReset i (s.segTx.getD i default) = g := by
      simp [txReset, putTx, hlen, set_eq_of_length_le]
    rwa [hsegs, modify_eq_self (List.getElem?_eq_none_iff.1 hi)]
  | some t =>
    obtain ⟨ids, hids, ht⟩ := forall₂_getElem? h.held hi
    have hget : g.tx.getD i [] = ids := by simp [hids]
    rw [txReset, hget, List.modify_eq_set, ← getD_eq_getElem?_getD,
      show s.segTx.getD i default = t by simp [hi]]
    exact h.put hids (moved_txFree _ _ _ _) (ht.found.reset _)

theorem map_modify {α κ : Type*} {f : α → κ} {m : α → α} {φ : κ → κ}
    (hf : ∀ x, f (m x) = φ (f x)) (l : List α) (i : ℕ) :
    (l.modify i m).map f = (l.map f).modify i φ := by
  refine ext_getElem? fun k => ?_
  rw [getElem?_map, getElem?_modify, getElem?_modify, getElem?_map]
  cases l[k]? with
  | none => rfl
  | some x => by_cases hk : i = k <;> simp [hk, hf]

theorem hold_modify {m : SegTx → SegTx} (hm : ∀ t, (m t).hold = t.hold) (l : List SegTx) (i : ℕ) :
    (l.modify i m).map SegTx.hold = l.map SegTx.hold := by
  rw [map_modify (φ := id) hm, modify_id]

theorem hold_set (hi : l[i]? = some t) (heq : t'.hold = t.hold) :
    (l.set i t').map SegTx.hold = l.map SegTx.hold := by
  rw [map_set, heq]
  exact set_of_getElem? (by rw [getElem?_map, hi]; rfl)

theorem hold_segTxUnblockCheck (i : ℕ) (s : Trans) :
    (segTxUnblockCheck i s).segTx.map SegTx.hold = s.segTx.map SegTx.hold := by
  rw [segTxUnblockCheck]
  split
  · rfl
  · split
    · rfl
    · refine hold_modify ?_ _ _
      exact fun _ => rfl

theorem hold_segTxComplete (cfg : TransCfg) (i : ℕ) (s : Trans) :
    (segTxComplete cfg i s).segTx.map SegTx.hold = (segTxReset cfg i s).segTx.map SegTx.hold := by
  have hreset (t : SegTx) : t.reset.hold =
      (dropSegs t.hold.2.1 (t.hold.2.2 + 1) t.hold.1, 0, t.hold.2.2) := rfl
  rw [segTxComplete, segTxReset_segTx, segTxReset_segTx,
    map_modify (φ := fun h => (dropSegs h.2.1 (h.2.2 + 1) h.1, 0, h.2.2)) hreset,
    map_modify (φ := fun h => (dropSegs h.2.1 (h.2.2 + 1) h.1, 0, h.2.2)) hreset,
    hold_segTxUnblockCheck]

theorem TxSide.complete (h : TxSide cfg pool rows s.segTx g) (i : ℕ) :
    TxSide cfg pool rows (segTxComplete cfg i s).segTx (g.txReset i (s.segTx.getD i default)) :=
  (h.reset i).congr (hold_segTxComplete cfg i s)

theorem segTxSendUnacked_hold (cfg : TransCfg) (env : SendEnv) (hi : s.segTx[i]? = some t) :
    (t.nackCount ≠ 0 ∧ t.runOut = true ∧ (segTxSendUnacked cfg env i s).s = segTxComplete cfg i s) ∨
      ¬ (t.nackCount ≠ 0 ∧ t.runOut = true) ∧
        (segTxSendUnacked cfg env i s).s.segTx.map SegTx.hold = s.segTx.map SegTx.hold := by
  rw [segTxSendUnacked, hi]
  dsimp only
  split
  next hnack => exact .inr ⟨fun hin => hin.1 hnack, rfl⟩
  next hnack =>
    split
    next hprog => exact .inl ⟨hnack, by simp [runOut, hprog], rfl⟩
    next hprog =>
      split
      next hatt => exact .inl ⟨hnack, by simp [runOut, hatt], rfl⟩
      next hatt =>
        refine .inr ⟨fun hin => ?_, ?_⟩
        · simp only [runOut, Bool.or_eq_true, beq_iff_eq] at hin
          exact hin.2.elim hprog hatt
        · split
          · exact hold_set hi rfl
          · simp only [sendSegment]
            split
            · exact hold_set hi rfl
            · split
              · rw [Trans.put, netSend_segTx]
                exact hold_set hi rfl
              · rw [Trans.put, netSend_segTx]
                exact hold_set hi rfl

theorem TxSide.sendUnacked (h : TxSide cfg pool rows s.segTx g) (env : SendEnv) (i : ℕ) :
    TxSide cfg pool rows (segTxSendUnacked cfg env i s).s.segTx
      (g.txSendUnacked i (s.segTx.getD i default)) := by
  cases hi : s.segTx[i]? with
  | none =>
    rw [segTxSendUnacked, hi, txSendUnacked, if_neg fun hin => hin.1 (by simp [hi]; rfl)]
    exact h
  | some t =>
    have hget : s.segTx.getD i default = t := by simp [hi]
    rw [txSendUnacked]
    rcases segTxSendUnacked_hold cfg env hi with ⟨hnack, hout, heq⟩ | ⟨hno, heq⟩
    · rw [heq, hget, if_pos ⟨hnack, hout⟩, ← hget]
      exact h.complete i
    · rw [hget, if_neg hno]
      exact h.congr heq

/-! ## Acknowledgements -/

theorem hold_ackedBy (cfg : TransCfg) (ack : ℕ) (t : SegTx) :
    (t.ackedBy cfg ack).hold = (t.acked ack).hold := by
  rw [ackedBy]
  split <;> rfl

theorem hold_goOn (t : SegTx) : t.goOn.hold = t.hold := by
  rw [goOn]
  split <;> rfl

/-- **Each segment acked for the first time is one less**, in the context as
among its blocks. -/
theorem TxHeld.acked (h : TxHeld cfg t ids) (hmax : cfg.txSegMax ≤ 32) (ack : ℕ) (free : List ℕ) :
    TxHeld cfg (t.acked ack) (ackFree ack 0 ids free).1 := by
  have hcount := h.same.count_ackFree ack 0 (h.length.le.trans hmax) free
  have hsame := h.same.ackFree ack 0 free
  simp only [Nat.zero_add] at hcount hsame
  refine ⟨?_, hsame, ?_, fun o ho => ?_⟩
  · rw [SegTx.acked, length_mapIdx, h.length]
  · have hnack : (t.acked ack).nackCount = t.nackCount - ((List.range 32).filter fun o =>
        ack.testBit o && (t.seg.getD o none).isSome).length := rfl
    rw [hnack, h.nack]
    omega
  · refine h.last o ?_
    rw [h.same.getD]
    rw [hsame.getD, getD_eq_getElem?_getD, getElem?_mapIdx] at ho
    rw [getD_eq_getElem?_getD]
    cases hx : t.seg[o]? with
    | none => simp [hx] at ho
    | some x =>
      simp only [hx, Option.map_some, Option.getD_some] at ho ⊢
      split at ho
      · cases ho
      · exact ho

/-- **`trans_ack` keeps the account**, whatever the bitmap. -/
theorem TxSide.ackContext (h : TxSide cfg pool rows s.segTx g) (hmax : cfg.txSegMax ≤ 32)
    (i ack : ℕ) : TxSide cfg pool rows (ackContext cfg i ack s).1.segTx
      (g.ackContext i ack (s.segTx.getD i default)) := by
  cases hi : s.segTx[i]? with
  | none =>
    rw [ackContext_none cfg ack hi, Segs.ackContext, if_pos]
    · exact h
    · rw [getD_eq_getElem?_getD, hi]
      rfl
  | some t =>
    have hget : s.segTx.getD i default = t := by simp [hi]
    obtain ⟨ids, hids, ht⟩ := forall₂_getElem? h.held hi
    have hgetG : g.tx.getD i [] = ids := by simp [hids]
    obtain ⟨hlt, -⟩ := List.getElem?_eq_some_iff.1 hi
    rw [ackContext_eq cfg ack hget, Segs.ackContext, hget, hgetG]
    split
    · exact h
    · split
      · have := h.complete i
        rwa [hget] at this
      · split
        · exact h
        · have hput := h.put hids (moved_ackFree ack 0 ids g.free) (ht.acked hmax ack g.free)
          have hnack := ackedBy_nackCount cfg ack t
          dsimp only
          rw [hnack]
          split
          next hleft =>
            refine hput.congr ?_
            rw [Trans.put, map_set, map_set, hold_goOn, hold_ackedBy]
          next hleft =>
            have hput' : TxSide cfg pool rows (s.put i (t.ackedBy cfg ack)).segTx
                (g.putTx i (Mesh.ackFree ack 0 ids g.free)) := by
              refine hput.congr ?_
              rw [Trans.put, map_set, map_set, hold_ackedBy]
            have hend := hput'.complete i
            have hgetD : (s.put i (t.ackedBy cfg ack)).segTx.getD i default =
                t.ackedBy cfg ack := by simp [Trans.put, hlt]
            rw [hgetD, putTx_txReset hids] at hend
            rw [putTx_txReset hids]
            have hhold := hold_ackedBy cfg ack t
            simp only [SegTx.hold, Prod.mk.injEq] at hhold
            rwa [hhold.2.1, hhold.2.2] at hend

theorem TxSide.transAck (h : TxSide cfg pool rows s.segTx g) (hmax : cfg.txSegMax ≤ 32)
    (addr : ℕ) (obo : Bool) (sz ack : ℕ) :
    TxSide cfg pool rows (transAck cfg addr obo sz ack s).1.segTx
      (g.transAck addr obo sz ack s) := by
  rw [Mesh.transAck, Segs.transAck]
  cases segTxLookup sz obo addr 0 s.segTx with
  | none => exact h
  | some r =>
    obtain ⟨i, viaFriend⟩ := r
    cases viaFriend with
    | false => exact h.ackContext hmax i ack
    | true =>
      have hmod : TxSide cfg pool rows (s.segTx.modify i fun t => { t with ackSrc := addr }) g := by
        refine h.congr (hold_modify ?_ _ _)
        exact fun _ => rfl
      have hget : g.ackContext i ack ((s.segTx.modify i fun t => { t with ackSrc := addr }).getD i
          default) = g.ackContext i ack (s.segTx.getD i default) := by
        rw [getD_eq_getElem?_getD, getElem?_modify_eq, getD_eq_getElem?_getD]
        cases s.segTx[i]? <;> rfl
      dsimp only
      rw [← hget]
      exact TxSide.ackContext
        (s := { s with segTx := s.segTx.modify i fun t => { t with ackSrc := addr } }) hmod hmax i
        ack

/-! ## Sending -/

variable {sdu : Bytes} {ctlOp : Option ℕ}

/-- A segmented send gets to its segmentation loop: a context is free, and
the Friend queue does not refuse the message. -/
def Cuts (cfg : TransCfg) (env : SendEnv) (tx : NetTx) (l : List SegTx) : Prop :=
  (segTxScan tx.src tx.addr 0 (false, none) l).2 ≠ none ∧
    ¬ (cfg.friend && !env.friendSpace && isUnicast tx.addr) = true

/-- There is a segment, unless the Friend queue is there to take an empty
message, and the array has a place for each segment that gets a block. -/
def Room (cfg : TransCfg) (ctl : Bool) (len blocks : ℕ) : Prop :=
  (0 < len ∨ cfg.friend = true) ∧ min (segCount ctl len) blocks ≤ cfg.txSegMax

instance (cfg : TransCfg) (env : SendEnv) (tx : NetTx) (l : List SegTx) :
    Decidable (Cuts cfg env tx l) := inferInstanceAs (Decidable (_ ∧ _))

instance (cfg : TransCfg) (ctl : Bool) (len blocks : ℕ) :
    Decidable (Room cfg ctl len blocks) := inferInstanceAs (Decidable (_ ∧ _))

/-- The context of a new message before it has any segment: it holds no
block, and counts them all. -/
structure TxSetUp (cfg : TransCfg) (ctl : Bool) (len : ℕ) (t : SegTx) (ids : List (Option ℕ)) :
    Prop where
  length : t.seg.length = cfg.txSegMax
  same : SameHeld ids t.seg
  empty : count ids = 0
  kind : t.ctl = ctl
  segN : t.segN = (len - 1) / segLen ctl
  nack : t.nackCount = t.segN + 1

theorem TxHeld.setup (h : TxHeld cfg t ids) (hidle : t.nackCount = 0) (tx : NetTx) (sdu : Bytes)
    (ctlOp : Option ℕ) (blocked : Bool) (net : Net) :
    TxSetUp cfg ctlOp.isSome sdu.length (segTxSetup cfg tx sdu ctlOp blocked net t) ids :=
  ⟨h.length, h.same, h.nack.symm.trans hidle, rfl, rfl, rfl⟩

theorem TxSetUp.found {ctl : Bool} {len : ℕ} (h : TxSetUp cfg ctl len t ids) : TxFound cfg t ids := by
  refine ⟨h.length, h.same, h.empty.le.trans (Nat.zero_le _), fun o ho => ?_⟩
  rw [getD_of_count h.empty] at ho
  exact nomatch ho

theorem TxSetUp.segCount_le {ctl : Bool} {len : ℕ} (h : TxSetUp cfg ctl len t ids) :
    segCount ctl len ≤ t.segN + 1 := by
  rw [h.segN]
  rcases Nat.eq_zero_or_pos len with rfl | hpos
  · simp
  · exact (segCount_of_pos ctl hpos).le

theorem TxSetUp.cut {ctl : Bool} {r : List (Option ℕ) × List ℕ × Bool}
    (h : TxSetUp cfg ctl sdu.length t ids) (hcut : Cut 0 (segCount ctl sdu.length) ids free r)
    (hheld : SameHeld r.1 (t.cut cfg env tx sdu).1.seg) :
    TxFound cfg (t.cut cfg env tx sdu).1 r.1 := by
  have hn := h.segCount_le
  have hnack : (t.cut cfg env tx sdu).1.nackCount = t.segN + 1 := h.nack
  refine ⟨(length_cutSegs ..).trans h.length, hheld, ?_, fun o ho => ?_⟩
  · have := hcut.count_le
    rw [h.empty] at this
    omega
  · rcases hcut.last o ho with hold | hnew
    · rw [getD_of_count h.empty] at hold
      exact nomatch hold
    · exact Nat.lt_succ_iff.1 ((hnew.trans_le (Nat.zero_add _).le).trans_le hn)

/-- **A message whose segments all got a block counts them.** -/
theorem TxSetUp.cut_held {ctl : Bool} {r : List (Option ℕ) × List ℕ × Bool}
    (h : TxSetUp cfg ctl sdu.length t ids) (hcut : Cut 0 (segCount ctl sdu.length) ids free r)
    (hheld : SameHeld r.1 (t.cut cfg env tx sdu).1.seg) (hok : r.2.2 = true)
    (hlen : 0 < sdu.length ∨ cfg.friend = true)
    (hfirst : ¬ (cfg.friend && (r.1.getD 0 none).isNone) = true) :
    TxHeld cfg (t.cut cfg env tx sdu).1 r.1 := by
  have hfound := h.cut hcut hheld
  have hcount := hcut.count_eq hok
  rw [h.empty, Nat.zero_add] at hcount
  have hpos : 0 < sdu.length := by
    refine Nat.pos_of_ne_zero fun hzero => hfirst ?_
    rw [hzero, segCount_zero] at hcount
    rw [getD_of_count hcount, hlen.resolve_left (by omega)]
    rfl
  have hnack : (t.cut cfg env tx sdu).1.nackCount = t.segN + 1 := h.nack
  refine ⟨hfound.length, hfound.same, ?_, hfound.last⟩
  rw [hnack, hcount, segCount_of_pos ctl hpos, h.segN]

/-- **`send_seg` keeps the account**, where its segments have room. -/
theorem TxSide.sendSeg (h : TxSide cfg pool rows s.segTx g)
    (hfriend : ∀ o, friendOnly cfg env tx o = false)
    (hpool : ∀ o, env.segAlloc o = decide (o < g.free.length))
    (hroom : Cuts cfg env tx s.segTx → Room cfg ctlOp.isSome sdu.length g.free.length) :
    TxSide cfg pool rows (sendSeg cfg env tx sdu ctlOp s).s.segTx
      (g.sendSeg cfg env tx sdu ctlOp s) := by
  rw [Mesh.sendSeg, Segs.sendSeg]
  rcases hscan : segTxScan tx.src tx.addr 0 (false, none) s.segTx with ⟨blocked, - | i⟩
  · exact h
  obtain ⟨-, hfree⟩ := segTxScan_spec hscan
  obtain ⟨m, t₀, him, hi, hidle⟩ := hfree.resolve_left (by simp)
  rw [Nat.zero_add] at him
  subst him
  obtain ⟨ids, hids, ht₀⟩ := forall₂_getElem? h.held hi
  have hget : s.segTx.getD i default = t₀ := by simp [hi]
  have hgetG : g.tx.getD i [] = ids := by simp [hids]
  obtain ⟨hlt, -⟩ := List.getElem?_eq_some_iff.1 hi
  have ht := ht₀.setup hidle tx sdu ctlOp blocked s.net
  simp only [hget, hgetG]
  generalize segTxSetup cfg tx sdu ctlOp blocked s.net t₀ = t at ht
  -- the context is reset again, with whatever it holds by then
  have hreset {t' : SegTx} {r : List (Option ℕ) × List ℕ} (hm : Moved (ids, g.free) r)
      (hfound : TxFound cfg t' r.1) :
      TxSide cfg pool rows (segTxReset cfg i (s.put i t')).segTx
        (g.putTx i (txFree t'.nackCount (t'.segN + 1) r.1 r.2)) := by
    have hmod : (segTxReset cfg i (s.put i t')).segTx = s.segTx.set i t'.reset := by
      rw [segTxReset_segTx, Trans.put, List.modify_eq_set]
      simp [hlt]
    rw [hmod]
    exact h.put hids (hm.trans (moved_txFree _ _ _ _)) (hfound.reset _)
  split
  next hspace =>
    rw [txReset, hgetG]
    exact hreset (.refl _) ht.found
  next hspace =>
    obtain ⟨hlen, hfits⟩ := hroom ⟨by simp [hscan], hspace⟩
    obtain ⟨hok, hheld⟩ := cutBlocks_cutSegs (o := 0) hfriend t.ctl sdu.length sdu
      (by simpa using hpool) ht.same
    have hcut : Cut 0 (segCount t.ctl sdu.length) ids g.free
        (cutBlocks cfg env tx t.ctl sdu.length 0 sdu ids g.free) := by
      refine cutBlocks_cut t.ctl hfriend le_rfl (fun j _ => getD_of_count ht.empty j) ?_
      rw [ht.same.length, ht.length, Nat.zero_add, ht.kind]
      exact hfits
    generalize cutBlocks cfg env tx t.ctl sdu.length 0 sdu ids g.free = r at hok hheld hcut
    rw [ht.kind] at hcut
    have hfound := ht.cut hcut hheld
    have hok' : (t.cut cfg env tx sdu).2 = r.2.2 := hok.symm
    have hfirst : ((t.cut cfg env tx sdu).1.seg.getD 0 none).isNone = (r.1.getD 0 none).isNone := by
      rw [← Option.not_isSome, ← Option.not_isSome, hfound.same.getD]
    rw [hok', hfirst, putTx_txReset hids]
    split
    · exact hreset hcut.moved hfound
    next hall =>
      split
      · exact hreset hcut.moved hfound
      next hkept =>
        have hput := h.put hids hcut.moved (ht.cut_held hcut hheld (by simpa using hall) hlen hkept)
        split
        · exact hput
        · have hsend := TxSide.sendUnacked (s := s.put i (t.cut cfg env tx sdu).1) hput env i
          have hgetT : (s.put i (t.cut cfg env tx sdu).1).segTx.getD i default =
              (t.cut cfg env tx sdu).1 := by simp [Trans.put, hlt]
          rwa [hgetT] at hsend

/-- What a send relies on: the Friend queue keeps no segment to itself, and
the encryption adds a MIC of the length asked for. -/
def TransEvent.Proper (cfg : TransCfg) : TransEvent → Prop
  | .send env tx _ _ => (∀ o, friendOnly cfg env tx o = false) ∧
      ∀ c msg sdu, env.encrypt c msg = some sdu → sdu.length = msg.length + appMicLen c.aszmic
  | .ctl env tx _ _ => ∀ o, friendOnly cfg env tx o = false
  | _ => True

/-- A send whose segments have room in the array of its context. -/
def TransEvent.Fits (cfg : TransCfg) (s : Trans) (blocks : ℕ) : TransEvent → Prop
  | .send env tx msg tailroom =>
      ∀ p, sendPlan cfg env tx msg tailroom s.net = .ok p → p.1.sendRel = true →
        Cuts cfg env p.1 s.segTx → Room cfg false (msg.length + appMicLen p.1.aszmic) blocks
  | .ctl env tx _ data =>
      ∀ tx', ctlPlan cfg tx data = .ok tx' → tx'.sendRel = true → Cuts cfg env tx' s.segTx →
        Room cfg true data.length blocks
  | _ => True

theorem sendPlan_ok {msg : Bytes} {tailroom : ℕ} {net : Net} {tx' : NetTx}
    (h : sendPlan cfg env tx msg tailroom net = .ok (tx', sdu)) :
    tx'.addr = tx.addr ∧ ∃ c : AppCrypto, c.aszmic = tx'.aszmic ∧ env.encrypt c msg = some sdu := by
  simp only [sendPlan] at h
  split at h
  · exact nomatch h
  · split at h
    · exact nomatch h
    · split at h
      · exact nomatch h
      · split at h
        · exact nomatch h
        · split at h
          · exact nomatch h
          · split at h
            · exact nomatch h
            · split at h
              · exact nomatch h
              next hencrypt =>
                obtain ⟨rfl, rfl⟩ := Prod.mk.inj (Except.ok.inj h)
                exact ⟨rfl, _, rfl, hencrypt⟩

theorem ctlPlan_ok {data : Bytes} {tx' : NetTx} (h : ctlPlan cfg tx data = .ok tx') :
    tx'.addr = tx.addr := by
  simp only [ctlPlan] at h
  split at h
  · exact nomatch h
  · split at h
    · exact nomatch h
    · obtain rfl := Except.ok.inj h
      rfl

theorem pooled_segAlloc (hfriend : ∀ o, friendOnly cfg env tx o = false) (free : List ℕ) (o : ℕ) :
    (env.pooled cfg tx free).segAlloc o = decide (o < free.length) := by
  simp [SendEnv.pooled, hfriend]

theorem TxSide.sendSdu (h : TxSide cfg pool rows s.segTx g)
    (hfriend : ∀ o, friendOnly cfg env tx o = false)
    (hpool : ∀ o, env.segAlloc o = decide (o < g.free.length))
    (hroom : tx.sendRel = true → Cuts cfg env tx s.segTx →
      Room cfg ctlOp.isSome sdu.length g.free.length) :
    TxSide cfg pool rows (sendSdu cfg env tx sdu ctlOp s).s.segTx
      (g.sendSdu cfg env tx sdu ctlOp s) := by
  rw [Mesh.sendSdu, Segs.sendSdu]
  split
  next hrel => exact h.sendSeg hfriend hpool (hroom hrel)
  next =>
    simp only [sendUnseg]
    split
    · exact h
    · split
      · exact h
      · split
        · exact h
        · rwa [netSend_segTx]

/-- **One step of the sending side keeps the account.** -/
theorem TxSide.transStep {e : TransEvent} (h : TxSide cfg pool rows s.segTx g)
    (hmax : cfg.txSegMax ≤ 32) (he : e.Proper cfg) (hfits : e.Fits cfg s g.free.length) :
    TxSide cfg pool rows (transStep cfg s (e.pooled cfg g.free)).segTx
      (g.transStep cfg s (e.pooled cfg g.free)) := by
  cases e with
  | send env tx msg tailroom =>
    simp only [Mesh.transStep, transRet, TransEvent.pooled, Segs.transStep, transSend,
      Segs.transSend]
    cases hplan : sendPlan cfg (env.pooled cfg tx g.free) tx msg tailroom s.net with
    | error err => exact h
    | ok p =>
      obtain ⟨tx', sdu⟩ := p
      obtain ⟨haddr, c, hmic, hencrypt⟩ := sendPlan_ok hplan
      have hfriend (o : ℕ) : friendOnly cfg (env.pooled cfg tx g.free) tx' o = false := by
        rw [friendOnly, haddr]
        exact he.1 o
      refine h.sendSdu hfriend (pooled_segAlloc he.1 g.free) fun hrel hcuts => ?_
      have hlen : sdu.length = msg.length + appMicLen tx'.aszmic := hmic ▸ he.2 c msg sdu hencrypt
      rw [hlen]
      exact hfits (tx', sdu) hplan hrel hcuts
  | ctl env tx op data =>
    simp only [Mesh.transStep, transRet, TransEvent.pooled, Segs.transStep, ctlSend, Segs.ctlSend]
    cases hplan : ctlPlan cfg tx data with
    | error err => exact h
    | ok tx' =>
      have hfriend (o : ℕ) : friendOnly cfg (env.pooled cfg tx g.free) tx' o = false := by
        rw [friendOnly, ctlPlan_ok hplan]
        exact he o
      exact h.sendSdu hfriend (pooled_segAlloc he g.free) fun hrel hcuts =>
        hfits tx' hplan hrel hcuts
  | retransmit env i =>
    have hmod : TxSide cfg pool rows (s.segTx.modify i ({ · with timer := false })) g := by
      refine h.congr (hold_modify ?_ _ _)
      exact fun _ => rfl
    have hget : g.txSendUnacked i ((s.segTx.modify i ({ · with timer := false })).getD i default) =
        g.txSendUnacked i (s.segTx.getD i default) := by
      rw [getD_eq_getElem?_getD, getElem?_modify_eq, getD_eq_getElem?_getD]
      cases s.segTx[i]? <;> rfl
    simp only [Mesh.transStep, transRet, TransEvent.pooled, Segs.transStep]
    rw [← hget]
    exact TxSide.sendUnacked
      (s := { s with segTx := s.segTx.modify i ({ · with timer := false }) }) hmod env i
  | segSent i =>
    refine h.congr (hold_modify (fun t => ?_) _ _)
    split <;> rfl
  | ack addr obo sz ack => exact h.transAck hmax addr obo sz ack
  | ivUpdate iv flag => exact h
  | ivuRefresh => exact h
  | transmit => exact h

end Mesh

end OpenBlue
