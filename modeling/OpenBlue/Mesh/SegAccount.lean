import OpenBlue.Mesh.Discard
import OpenBlue.Mesh.SegTxBlocks
/-!
# Mesh — the account of the segment buffers

A receive context in use holds a block for each bit of its bitmap, and one
out of use holds none. With the account of the transmit contexts this
makes the account of a node: in a run whose sends have room for their
segments, every block of the pool is free or in one place of one context.
-/

namespace OpenBlue

namespace Mesh

open List Segs Bool

variable {cfg : TransCfg} {env : RecvEnv} {rx : NetRx} {h : SegHdr} {chk : RplCheck}
variable {ids : List (Option ℕ)} {free pool : List ℕ} {rows : List (List (Option ℕ))}
variable {c c' : SegRx} {s : Receiver} {l : List SegRx} {g : Segs} {auth i : ℕ} {pdu : Bytes}

/-! ## Receive contexts -/

/-- **The account of a receive context**: it holds the blocks of its bitmap
while it is in use. -/
structure RxHeld (cfg : TransCfg) (c : SegRx) (ids : List (Option ℕ)) : Prop where
  length : ids.length = cfg.rxSegMax
  held : ∀ o, (ids.getD o none).isSome = (c.inUse && c.block.testBit o)
  last : c.inUse = true → ∀ o, c.block.testBit o = true → o ≤ c.segN
  fits : c.inUse = true → c.segN < cfg.rxSegMax

theorem RxHeld.idle (hc : RxHeld cfg c ids) (hidle : c.inUse = false) (o : ℕ) :
    (ids.getD o none).isSome = false := by
  rw [hc.held, hidle]
  rfl

theorem RxHeld.stay (hc : RxHeld cfg c ids) (hidle : c.inUse = false) (hidle' : c'.inUse = false) :
    RxHeld cfg c' ids := by
  refine ⟨hc.length, fun o => ?_, fun huse => ?_, fun huse => ?_⟩
  · rw [hc.idle hidle, hidle']
    rfl
  · exact nomatch hidle'.symm.trans huse
  · exact nomatch hidle'.symm.trans huse

@[simp] theorem rxFree_nil (k : ℕ) (free : List ℕ) : rxFree k [] free = ([], free) := by
  cases k <;> rfl

theorem length_rxFree (k : ℕ) (ids : List (Option ℕ)) (free : List ℕ) :
    (rxFree k ids free).1.length = ids.length := by
  fun_induction rxFree k ids free with
  | case1 | case2 => rfl
  | case3 k ids free r ih | case4 k b ids free r ih =>
    exact congrArg Nat.succ ih

/-- **`seg_rx_reset` leaves nothing behind.** -/
theorem RxHeld.reset (hc : RxHeld cfg c ids) (full : Bool) (free : List ℕ) :
    RxHeld cfg (c.reset full) (rxFree (c.segN + 1) ids free).1 := by
  have hcount := rxFree_none (k := c.segN + 1) free fun o ho => by
    rw [hc.held, and_eq_true] at ho
    exact Nat.lt_succ_iff.2 (hc.last ho.1 o ho.2)
  refine ⟨(length_rxFree ..).trans hc.length, fun o => ?_, nofun, nofun⟩
  rw [getD_of_count hcount]
  rfl

theorem RxHeld.open (hc : RxHeld cfg c ids) (hidle : c.inUse = false) (rx : NetRx) (auth : ℕ)
    (hfits : h.segN < cfg.rxSegMax) : RxHeld cfg (c.open rx h auth) ids := by
  refine ⟨hc.length, fun o => ?_, fun _ o ho => ?_, fun _ => hfits⟩
  · rw [hc.idle hidle]
    simp [SegRx.open]
  · simp [SegRx.open] at ho

theorem RxHeld.expect (hc : RxHeld cfg c ids) (env : RecvEnv) (h : SegHdr) :
    RxHeld cfg (c.expect cfg env h) ids :=
  ⟨hc.length, hc.held, hc.last, hc.fits⟩

theorem RxHeld.store (hc : RxHeld cfg c ids) (huse : c.inUse = true) (hlast : h.segO ≤ c.segN)
    (b : ℕ) : RxHeld cfg (c.store h) (ids.set h.segO (some b)) := by
  have hlt : h.segO < ids.length := by
    rw [hc.length]
    exact hlast.trans_lt (hc.fits huse)
  have hbit (o : ℕ) : (c.store h).block.testBit o = (c.block.testBit o || decide (h.segO = o)) := by
    rw [SegRx.store, Nat.testBit_or, Nat.one_shiftLeft, Nat.testBit_two_pow]
  refine ⟨(length_set ..).trans hc.length, fun o => ?_, fun _ o ho => ?_, hc.fits⟩
  · rw [hbit, getD_eq_getElem?_getD]
    by_cases hoo : h.segO = o
    · subst hoo
      simp [hlt, huse, SegRx.store]
    · have := hc.held o
      rw [getElem?_set_ne hoo, ← getD_eq_getElem?_getD, this]
      simp [hoo, SegRx.store]
  · rw [hbit, or_eq_true, decide_eq_true_eq] at ho
    exact ho.elim (hc.last huse o) fun heq => heq ▸ hlast

/-- The account of the receiving side. The pointers of the other side are
`rows`. -/
structure RxSide (cfg : TransCfg) (pool : List ℕ) (rows : List (List (Option ℕ)))
    (l : List SegRx) (g : Segs) : Prop where
  held : l.Forall₂ (RxHeld cfg) g.rx
  tx : g.tx = rows
  pool : Conserved pool g.free (g.tx ++ g.rx)

theorem RxHeld.congr (hc : RxHeld cfg c ids)
    (heq : (c'.inUse, c'.block, c'.segN) = (c.inUse, c.block, c.segN)) : RxHeld cfg c' ids := by
  simp only [Prod.mk.injEq] at heq
  obtain ⟨huse, hblock, hsegN⟩ := heq
  exact ⟨hc.length, huse ▸ hblock ▸ hc.held, huse ▸ hblock ▸ hsegN ▸ hc.last,
    huse ▸ hsegN ▸ hc.fits⟩

theorem RxSide.congr {l' : List SegRx} (hs : RxSide cfg pool rows l g)
    (heq : (l'.map fun c => (c.inUse, c.block, c.segN)) =
      l.map fun c => (c.inUse, c.block, c.segN)) : RxSide cfg pool rows l' g :=
  ⟨forall₂_map_congr (fun _ _ _ heq hc => hc.congr heq) hs.held heq, hs.tx, hs.pool⟩

theorem RxSide.put {r : List (Option ℕ) × List ℕ} (hs : RxSide cfg pool rows l g)
    (hi : g.rx[i]? = some ids) (hm : Moved (ids, g.free) r) (hc : RxHeld cfg c r.1) :
    RxSide cfg pool rows (l.set i c) (g.putRx i r) := by
  refine ⟨forall₂_set hs.held hc, hs.tx, ?_⟩
  have hle := Nat.le_add_right g.tx.length i
  have hset := hs.pool.set (i := g.tx.length + i)
    (by rwa [getElem?_append_right hle, Nat.add_sub_cancel_left]) hm
  rwa [set_append_right _ _ hle, Nat.add_sub_cancel_left] at hset

theorem RxSide.reset (hs : RxSide cfg pool rows l g) (full : Bool) (hi : l[i]? = some c)
    (hc' : ∀ ids, RxHeld cfg c ids → RxHeld cfg c' ids) (hsegN : c'.segN = c.segN) :
    RxSide cfg pool rows (l.set i (c'.reset full)) (g.rxReset i c) := by
  obtain ⟨ids, hids, hc⟩ := forall₂_getElem? hs.held hi
  have hget : g.rx.getD i [] = ids := by simp [hids]
  rw [Segs.rxReset, hget, ← hsegN]
  exact hs.put hids (moved_rxFree _ _ _) ((hc' ids hc).reset full _)

theorem RxSide.modify {f : SegRx → SegRx} (hs : RxSide cfg pool rows l g)
    (hf : ∀ c ids free, RxHeld cfg c ids → RxHeld cfg (f c) (rxFree (c.segN + 1) ids free).1)
    (i : ℕ) : RxSide cfg pool rows (l.modify i f) (g.rxReset i (l.getD i default)) := by
  cases hi : l[i]? with
  | none =>
    have hlen : g.rx.length ≤ i := hs.held.length_eq ▸ List.getElem?_eq_none_iff.1 hi
    have hsegs : g.rxReset i (l.getD i default) = g := by
      simp [Segs.rxReset, putRx, hlen, set_eq_of_length_le]
    rwa [hsegs, modify_eq_self (List.getElem?_eq_none_iff.1 hi)]
  | some c =>
    obtain ⟨ids, hids, hc⟩ := forall₂_getElem? hs.held hi
    have hget : g.rx.getD i [] = ids := by simp [hids]
    rw [Segs.rxReset, hget, List.modify_eq_set, ← getD_eq_getElem?_getD,
      show l.getD i default = c by simp [hi]]
    exact hs.put hids (moved_rxFree _ _ _) (hf c ids _ hc)

theorem putRx_rxReset {r : List (Option ℕ) × List ℕ} (hi : g.rx[i]? = some ids) :
    (g.putRx i r).rxReset i c = g.putRx i (rxFree (c.segN + 1) r.1 r.2) := by
  have hlt := (List.getElem?_eq_some_iff.1 hi).1
  simp [Segs.rxReset, putRx, hlt]

/-! ## Reception -/

theorem rxAlloc_eq (hi : g.rx[i]? = some ids) (ho : ids[h.segO]? = some none) :
    (g.free = [] ∧ g.rxAlloc i h.segO = g) ∨ ∃ b free, g.free = b :: free ∧
      g.rxAlloc i h.segO = g.putRx i (ids.set h.segO (some b), free) := by
  have hget : g.rx.getD i [] = ids := by simp [hi]
  rw [rxAlloc, hget]
  cases hfree : g.free with
  | nil =>
    refine .inl ⟨rfl, ?_⟩
    simp only [putRx, set_of_getElem? ho, set_of_getElem? hi]
    rw [← hfree]
  | cons b free => exact .inr ⟨b, free, rfl, rfl⟩

/-- **The label `found_rx` keeps the account.** -/
theorem RxSide.segFound (hs : RxSide cfg pool rows s.segRx g) (hi : s.segRx[i]? = some c)
    (huse : c.inUse = true) (hsegN : h.segN = c.segN) (hsegO : h.segO ≤ h.segN)
    (hpool : env.segAlloc = !g.free.isEmpty) :
    RxSide cfg pool rows (segFound cfg env rx chk h auth i s).s.segRx (g.segFound cfg h i c) := by
  obtain ⟨ids, hids, hc⟩ := forall₂_getElem? hs.held hi
  have hgetS : s.segRx.getD i default = c := by simp [hi]
  simp only [Mesh.segFound, Segs.segFound, hgetS]
  split
  · exact hs
  next hbit =>
    split
    · exact hs.reset true hi (fun _ hc => ⟨hc.length, hc.held, hc.last, hc.fits⟩) rfl
    · split
      · exact hs
      · have hlast : h.segO ≤ c.segN := hsegN ▸ hsegO
        have ho : ids[h.segO]? = some none := by
          have hlt : h.segO < ids.length := by
            rw [hc.length]
            exact hlast.trans_lt (hc.fits huse)
          have hnone := hc.held h.segO
          rw [eq_false_iff.2 hbit, Bool.and_false, Option.isSome_eq_false_iff,
            Option.isNone_iff_eq_none, getD_eq_getElem?_getD,
            getElem?_eq_getElem hlt] at hnone
          rw [getElem?_eq_getElem hlt]
          exact congrArg some hnone
        rcases rxAlloc_eq (g := g) hids ho with ⟨hnil, heq⟩ | ⟨b, free, hcons, heq⟩
        · have halloc : env.segAlloc = false := by simp [hpool, hnil]
          simp only [halloc, Bool.not_false, if_true, if_pos hnil, heq]
          have hput := hs.put hids (.refl _) (hc.expect env h)
          rwa [putRx, set_of_getElem? hids] at hput
        · have halloc : env.segAlloc = true := by simp [hpool, hcons]
          have hsome : g.free ≠ [] := by simp [hcons]
          have hmoved : Moved (ids, g.free) (ids.set h.segO (some b), free) :=
            hcons ▸ moved_take ho
          have hstore := (hc.expect env h).store huse hlast b
          simp only [halloc, Bool.not_true, false_eq_true, if_false, if_neg hsome, heq]
          split
          next hblock =>
            rw [if_pos (by exact hblock)]
            exact hs.put hids hmoved hstore
          next hblock =>
            rw [if_neg (by exact hblock), segComplete_segRx, putRx_rxReset hids]
            exact hs.put hids (hmoved.trans (moved_rxFree _ _ _)) (hstore.reset false _)

theorem RxSide.segKnown (hs : RxSide cfg pool rows s.segRx g) (hi : s.segRx[i]? = some c)
    (hsegO : h.segO ≤ h.segN) (hpool : env.segAlloc = !g.free.isEmpty) :
    RxSide cfg pool rows (segKnown cfg env rx chk h auth i s).s.segRx
      (g.segKnown cfg rx h auth i c) := by
  have hgetS : s.segRx.getD i default = c := by simp [hi]
  simp only [Mesh.segKnown, Segs.segKnown, hgetS]
  split
  · exact hs
  · split
    · exact hs
    next hvalid =>
      split
      next huse =>
        have hsegN : h.segN = c.segN := by
          simp only [SegRx.isValid, not_eq_true', not_eq_false, and_eq_true,
            beq_iff_eq] at hvalid
          exact hvalid.1.1.1.2.symm
        exact hs.segFound hi huse hsegN hsegO hpool
      · split
        · rwa [Receiver.enter_segRx]
        · exact hs

theorem RxSide.segNew (hs : RxSide cfg pool rows s.segRx g) (hsegO : h.segO ≤ h.segN)
    (hfree : env.segFree = !g.free.isEmpty) (hpool : env.segAlloc = !g.free.isEmpty) :
    RxSide cfg pool rows (segNew cfg env rx chk h auth s).s.segRx
      (g.segNew cfg env rx chk h auth s) := by
  rw [Mesh.segNew, Segs.segNew]
  split
  · exact hs
  next hmax =>
    split
    · exact hs
    · split
      · exact hs
      · by_cases hnil : g.free = []
        · rw [if_pos hnil, if_pos (by simp [hfree, hnil])]
          exact hs
        · rw [if_neg hnil, if_neg (by simp [hfree, hnil])]
          cases hctx : segRxFree s.segRx with
          | none => exact hs
          | some i =>
            obtain ⟨hlt, hidle, -⟩ := findIdx?_eq_some_iff_getElem.1 hctx
            have hi : s.segRx[i]? = some (s.segRx.getD i default) := getElem?_eq_getD hlt
            obtain ⟨ids, hids, hc⟩ := forall₂_getElem? hs.held hi
            have huse : (s.segRx.getD i default).inUse = false := by
              rw [getD_eq_getElem?_getD, getElem?_eq_getElem hlt]
              simpa using hidle
            have hput := hs.put hids (.refl _)
              (hc.open huse rx auth (Nat.lt_of_not_le hmax))
            rw [putRx, set_of_getElem? hids] at hput
            exact RxSide.segFound (s := s.put i _) hput (getElem?_set_self hlt) rfl rfl hsegO
              hpool

theorem RxSide.find (hs : RxSide cfg pool rows l g) (addr dst auth : ℕ) :
    RxSide cfg pool rows (segRxFind addr dst auth l).1 (g.segRxFind addr dst auth l) := by
  rw [Mesh.segRxFind, Segs.segRxFind]
  cases hfind : l.findIdx? (·.stops addr dst auth) with
  | none => exact hs
  | some i =>
    dsimp only
    split
    · exact hs
    · exact hs.modify (fun _ _ _ hc => hc.reset true _) i

/-- **`trans_seg` keeps the account.** -/
theorem RxSide.transSeg (hs : RxSide cfg pool rows s.segRx g)
    (hfree : env.segFree = !(g.segRxFind rx.addr rx.recvDst (s.authOf rx pdu) s.segRx).free.isEmpty)
    (hpool : env.segAlloc =
      !(g.segRxFind rx.addr rx.recvDst (s.authOf rx pdu) s.segRx).free.isEmpty) :
    RxSide cfg pool rows (transSeg cfg env rx pdu s).s.segRx (g.transSeg cfg env rx pdu s) := by
  rw [Mesh.transSeg, Segs.transSeg]
  split
  · exact hs
  · split
    · exact hs
    · dsimp only
      split
      · exact hs
      next hseg =>
        have hs' := hs.find rx.addr rx.recvDst (s.authOf rx pdu)
        rw [Receiver.authOf] at hs' hfree hpool
        cases hctx : (segRxFind rx.addr rx.recvDst (rxSeqAuth (s.net.iviRx rx.oldIv).toNat rx.seq
            (segParse pdu).seqZero) s.segRx).2 with
        | none =>
          exact RxSide.segNew (s := { s with segRx := _ }) hs' (Nat.le_of_not_lt hseg) hfree hpool
        | some i =>
          refine RxSide.segKnown (s := { s with segRx := _ }) hs' ?_ (Nat.le_of_not_lt hseg) hpool
          rcases segRxFind_cases rx.addr rx.recvDst (rxSeqAuth (s.net.iviRx rx.oldIv).toNat rx.seq
            (segParse pdu).seqZero) s.segRx with ⟨heq, -⟩ | ⟨j, heq, hj, -⟩ | ⟨j, heq, -⟩
          · rw [heq] at hctx
            cases hctx
          · rw [heq] at hctx ⊢
            obtain rfl := Option.some.inj hctx
            exact getElem?_eq_getD hj
          · rw [heq] at hctx
            cases hctx

/-- **One step of the receiving side keeps the account.** -/
theorem RxSide.segStep (hs : RxSide cfg pool rows s.segRx g) (e : SegEvent) :
    RxSide cfg pool rows (segStep cfg s (e.pooled g s)).segRx (g.segStep cfg s (e.pooled g s)) := by
  cases e with
  | recv env rx pdu => exact hs.transSeg rfl rfl
  | ackTimer i =>
    refine hs.congr (map_modify (φ := id) (fun c => ?_) _ _ |>.trans (by rw [modify_id]))
    obtain ⟨ack, attempts, heq⟩ := ackTimer_eq cfg c
    rw [heq]
    rfl
  | discardTimer i =>
    exact hs.modify (fun _ _ _ hc => (hc.reset false _).stay rfl rfl) i

/-! ## Every run -/

variable {n : Node} {blocks : ℕ}

/-- The account of a node: that of its contexts, and that of the pool. -/
structure Node.Held (cfg : TransCfg) (blocks : ℕ) (n : Node) : Prop where
  tx : n.segTx.Forall₂ (TxHeld cfg) n.segs.tx
  rx : n.segRx.Forall₂ (RxHeld cfg) n.segs.rx
  pool : Conserved (List.range blocks) n.segs.free (n.segs.tx ++ n.segs.rx)

theorem Node.Held.txSide (hn : n.Held cfg blocks) :
    TxSide cfg (List.range blocks) n.segs.rx n.trans.segTx n.segs :=
  ⟨hn.tx, rfl, hn.pool⟩

theorem Node.Held.rxSide (hn : n.Held cfg blocks) :
    RxSide cfg (List.range blocks) n.segs.tx n.receiver.segRx n.segs :=
  ⟨hn.rx, rfl, hn.pool⟩

theorem Node.Held.of_txSide {segTx : List SegTx} (hn : n.Held cfg blocks) (net : Net)
    (ht : TxSide cfg (List.range blocks) n.segs.rx segTx g) :
    ({ n with net := net, segTx := segTx, segs := g } : Node).Held cfg blocks :=
  ⟨ht.held, ht.rx ▸ hn.rx, ht.pool⟩

theorem Node.Held.of_rxSide {segRx : List SegRx} (hn : n.Held cfg blocks) (net : Net)
    (hr : RxSide cfg (List.range blocks) n.segs.tx segRx g) :
    ({ n with net := net, segRx := segRx, segs := g } : Node).Held cfg blocks :=
  ⟨hr.tx ▸ hn.tx, hr.held, hr.pool⟩

theorem nodeInit_held (cfg : TransCfg) (net : Net) (blocks txs rxs : ℕ) :
    (nodeInit cfg net blocks txs rxs).Held cfg blocks := by
  have hnone (k : ℕ) : count (List.replicate k none) = 0 :=
    count_eq_zero.2 fun p hp => eq_of_mem_replicate hp
  refine ⟨forall₂_replicate txs ⟨?_, ?_, (hnone _).symm, fun o ho => ?_⟩,
    forall₂_replicate rxs ⟨length_replicate, fun o => ?_, by simp, by simp⟩, fun b => ?_⟩
  · exact length_replicate
  · simp [SameHeld]
  · rw [getD_of_count (hnone _)] at ho
    cases ho
  · rw [getD_of_count (hnone _)]
    rfl
  · simp [nodeInit, segsInit, refs, count_replicate]

theorem Node.Held.rxResetAt (hn : n.Held cfg blocks) (i : ℕ) : (n.rxResetAt i).Held cfg blocks :=
  hn.of_rxSide n.net (hn.rxSide.modify (fun _ _ _ hc => hc.reset true _) i)

theorem Node.Held.txResetAt (hn : n.Held cfg blocks) (i : ℕ) :
    (n.txResetAt cfg i).Held cfg blocks :=
  hn.of_txSide _ (hn.txSide.reset i)

theorem held_foldl {f : Node → ℕ → Node} (hf : ∀ n i, n.Held cfg blocks → (f n i).Held cfg blocks)
    (hn : n.Held cfg blocks) (is : List ℕ) : (is.foldl f n).Held cfg blocks := by
  induction is generalizing n with
  | nil => exact hn
  | cons i is ih => exact ih (hf n i hn)

/-- What the sends of a step rely on. -/
def NodeEvent.Proper (cfg : TransCfg) : NodeEvent → Prop
  | .tx e => e.Proper cfg
  | _ => True

/-- A step whose send, if it is one, has room for its segments. -/
def NodeEvent.Fits (cfg : TransCfg) (n : Node) : NodeEvent → Prop
  | .tx e => e.Fits cfg n.trans n.segs.free.length
  | _ => True

theorem Node.Held.rxReset (hn : n.Held cfg blocks) : n.rxReset.Held cfg blocks :=
  held_foldl (fun _ i hn => hn.rxResetAt i) hn _

/-- **One step of the node keeps the account.** -/
theorem Node.Held.step {e : NodeEvent} (hn : n.Held cfg blocks) (hmax : cfg.txSegMax ≤ 32)
    (he : e.Proper cfg) (hfits : e.Fits cfg n) : (nodeStep cfg n e).Held cfg blocks := by
  cases e with
  | tx e => exact hn.of_txSide _ (hn.txSide.transStep hmax he hfits)
  | rx e => exact hn.of_rxSide _ (hn.rxSide.segStep e)
  | rxReset => exact hn.rxReset
  | transReset =>
    have hreset := held_foldl (f := Node.txResetAt cfg) (fun _ i hn => hn.txResetAt i) hn.rxReset
      (List.range n.rxReset.segTx.length)
    exact ⟨hreset.tx, hreset.rx, hreset.pool⟩

/-- **Segment buffers are conserved, and acknowledgement accounting is
exact**: the blocks taken from the pool are those in `seg[]`, each in one
place; `nack_count` is the number of those up to `seg_n`; and a context
that counts none has none. -/
structure Node.Accounted (blocks : ℕ) (n : Node) : Prop where
  taken : (held (n.segs.tx ++ n.segs.rx)).Perm
    ((List.range blocks).filter fun b => decide (b ∉ n.segs.free))
  free : n.segs.free.Nodup
  nack : n.segTx.Forall₂ (fun t ids => t.nackCount = count (ids.take (t.segN + 1))) n.segs.tx
  idle : n.segTx.Forall₂ (fun t ids => t.nackCount = 0 → ∀ p ∈ ids, p = none) n.segs.tx

theorem TxHeld.count_take {t : SegTx} (ht : TxHeld cfg t ids) :
    t.nackCount = count (ids.take (t.segN + 1)) := by
  have hrest : count (ids.drop (t.segN + 1)) = 0 := by
    refine count_eq_zero.2 fun p hp => ?_
    obtain ⟨o, ho⟩ := mem_iff_getElem?.1 hp
    rw [getElem?_drop] at ho
    cases p with
    | none => rfl
    | some b =>
      have := ht.last (t.segN + 1 + o) (by rw [getD_eq_getElem?_getD, ho]; rfl)
      omega
  have hsplit : count ids = count (ids.take (t.segN + 1)) + count (ids.drop (t.segN + 1)) := by
    rw [count, count, count, ← countP_append, take_append_drop]
  rw [ht.nack]
  omega

theorem Node.Held.accounted (hn : n.Held cfg blocks) : n.Accounted blocks :=
  ⟨hn.pool.perm nodup_range, hn.pool.nodup nodup_range, hn.tx.imp fun _ _ ht => ht.count_take,
    hn.tx.imp fun _ _ ht hzero => count_eq_zero.1 (ht.nack.symm.trans hzero)⟩

/-- **The account holds in every run whose sends have room for their
segments.** -/
theorem segments_conserved (cfg : TransCfg) (hmax : cfg.txSegMax ≤ 32) (net : Net)
    (blocks txs rxs : ℕ) {es : List NodeEvent}
    (hrun : Along (nodeStep cfg) (fun n e => e.Proper cfg ∧ e.Fits cfg n)
      (nodeInit cfg net blocks txs rxs) es) :
    (run (nodeStep cfg) (nodeInit cfg net blocks txs rxs) es).Accounted blocks := by
  have hheld : (run (nodeStep cfg) (nodeInit cfg net blocks txs rxs) es).Held cfg blocks :=
    inv_run (Node.Held cfg blocks) (fun n e hn he => hn.step hmax he.1 he.2)
      (nodeInit_held cfg net blocks txs rxs) hrun
  exact hheld.accounted

/-- A node with eight blocks, one transmit and one receive context. -/
def node8 : Node := nodeInit {} (provision 2 false 5 true) 8 1 1

/-- A message of two segments is sent and its first segment acked, the
first segment of another message arrives, and all is reset. -/
def accountedEvents : List NodeEvent :=
  [.tx (.send plainEnv { src := 1, addr := 2 } (List.replicate 14 7) 4),
   .tx (.ack 2 false 0 1),
   .rx (.recv {} { addr := 8, recvDst := 1, seq := 5 } ([0xc0, 0, 0x04, 1] ++ List.replicate 12 3)),
   .transReset]

theorem segments_conserved_sample :
    (run (nodeStep {}) node8 (accountedEvents.take 3)).segs =
        { free := [2, 3, 4, 5, 6, 7], tx := [[none, some 1, none]], rx := [[some 0, none, none]] } ∧
      (run (nodeStep {}) node8 (accountedEvents.take 3)).Accounted 8 := by
  refine ⟨by decide +kernel, segments_conserved {} (by decide) _ 8 1 1
    ⟨⟨⟨?_, ?_⟩, ?_⟩, ⟨trivial, trivial⟩, ⟨trivial, trivial⟩, trivial⟩⟩
  · exact fun _ => rfl
  · rintro c msg sdu ⟨⟩
    simp
  · rintro p ⟨⟩
    exact fun _ _ => by decide

/-- **A long MIC does not fit.** The size of a message is checked with the
short MIC, and the long one is taken where there is tailroom for it: of a
message of 32 bytes the fourth segment is written past an array of three. -/
theorem long_mic_overruns :
    let n := nodeStep {} node8
      (.tx (.send plainEnv { src := 1, addr := 2 } (List.replicate 32 7) 8))
    (n.segTx.map fun t => (t.nackCount, t.segN)) = [(4, 3)] ∧
      n.segs.tx = [[some 0, some 1, some 2]] ∧ n.segs.free = [4, 5, 6, 7] ∧
      ¬ n.Accounted 8 := by
  refine ⟨by decide +kernel, by decide +kernel, by decide +kernel, fun h => ?_⟩
  exact absurd h.nack (by decide +kernel)

/-- Nor is an empty control message accounted for that is to be segmented. -/
example : ¬ (nodeStep {} node8
    (.tx (.ctl plainEnv { src := 1, addr := 2, sendRel := true } 10 []))).Accounted 8 :=
  fun h => absurd h.nack (by decide +kernel)

end Mesh

end OpenBlue
