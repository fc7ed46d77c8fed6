import OpenBlue.Mesh.IvIndex
import OpenBlue.Mesh.Model.Transport
/-!
# Mesh — SeqAuth over runs of the sending side

A message is given the pair (transmit IV index, sequence number) that the
next transmission would use, and the pair is spent only when a header is
written. This file follows the pair through every path of the send
functions: each step moves the network layer by one event at most
(`NetMoves`), an accepted message that spends its pair moves it past the
pair (`sendSdu_spends`), and the paths that accept a message without
spending it are exactly the ones named in `Spends`.
-/

namespace OpenBlue

namespace Mesh

open List Option

variable {cfg : TransCfg} {env : SendEnv} {s : Trans} {i : ℕ}

/-- The network layer has taken one step at most. -/
def NetMoves (cfg : NetCfg) (n n' : Net) : Prop := n' = n ∨ ∃ e, n' = netStep cfg n e

theorem NetMoves.refl {cfg : NetCfg} (n : Net) : NetMoves cfg n n := .inl rfl

/-- The network layer has used a sequence number. -/
def NetSpends (cfg : NetCfg) (n n' : Net) : Prop := n' = netStep cfg n .transmit

/-! ## Contexts -/

theorem segLen_pos (ctl : Bool) : 0 < segLen ctl := by cases ctl <;> decide

theorem segTxReset_net (cfg : TransCfg) (i : ℕ) (s : Trans) :
    NetMoves cfg.net s.net (segTxReset cfg i s).net :=
  .inr ⟨.segTxReset (txInProgress (s.segTx.modify i SegTx.reset)), rfl⟩

@[simp] theorem segTxUnblockCheck_net (i : ℕ) (s : Trans) :
    (segTxUnblockCheck i s).net = s.net := by
  unfold segTxUnblockCheck
  split
  · rfl
  · split <;> rfl

theorem segTxComplete_net (cfg : TransCfg) (i : ℕ) (s : Trans) :
    NetMoves cfg.net s.net (segTxComplete cfg i s).net := by
  have h := segTxReset_net cfg i (segTxUnblockCheck i s)
  rwa [segTxUnblockCheck_net] at h

theorem ackContext_net (cfg : TransCfg) (i ack : ℕ) (s : Trans) :
    NetMoves cfg.net s.net (ackContext cfg i ack s).1.net := by
  simp only [ackContext]
  split_ifs
  all_goals first
    | exact NetMoves.refl _
    | exact segTxComplete_net cfg i _

theorem transAck_net (cfg : TransCfg) (addr : ℕ) (obo : Bool) (sz ack : ℕ) (s : Trans) :
    NetMoves cfg.net s.net (transAck cfg addr obo sz ack s).1.net := by
  unfold transAck
  split
  · exact NetMoves.refl _
  · exact ackContext_net cfg _ ack s
  next i _ =>
    exact ackContext_net cfg i ack
      { s with segTx := s.segTx.modify i fun t => { t with ackSrc := addr } }

/-! ## Transmission -/

theorem netSend_net (cfg : TransCfg) (env : SendEnv) (auth : ℕ) (pdu : Bytes) (s : Trans) :
    NetMoves cfg.net s.net (netSend cfg env auth pdu s).s.net := by
  unfold netSend
  split
  · exact NetMoves.refl _
  · exact .inr ⟨.transmit, rfl⟩
  · exact .inr ⟨.transmit, rfl⟩

theorem netSend_spends {auth : ℕ} {pdu : Bytes} (h : env.netSend ≠ .header) :
    NetSpends cfg.net s.net (netSend cfg env auth pdu s).s.net := by
  unfold netSend
  split
  · exact absurd ‹_› h
  · rfl
  · rfl

theorem sendSegment_net (cfg : TransCfg) (env : SendEnv) (i : ℕ) (tx : SegTx) (o : ℕ)
    (s : Trans) : NetMoves cfg.net s.net (sendSegment cfg env i tx o s).s.net := by
  simp only [sendSegment]
  split_ifs
  · exact NetMoves.refl _
  · exact netSend_net cfg env _ _ s
  · exact netSend_net cfg env _ _ s

theorem sendSegment_spends {tx : SegTx} {o : ℕ} (hadv : env.adv = true)
    (hnet : env.netSend ≠ .header) :
    NetSpends cfg.net s.net (sendSegment cfg env i tx o s).s.net := by
  simp only [sendSegment, hadv, Bool.not_true, Bool.false_eq_true, if_false]
  split_ifs
  · exact netSend_spends hnet
  · exact netSend_spends hnet

theorem segTxSendUnacked_net (cfg : TransCfg) (env : SendEnv) (i : ℕ) (s : Trans) :
    NetMoves cfg.net s.net (segTxSendUnacked cfg env i s).s.net := by
  unfold segTxSendUnacked
  split
  · exact NetMoves.refl _
  · split_ifs
    · exact NetMoves.refl _
    · exact segTxComplete_net cfg i s
    · exact segTxComplete_net cfg i s
    · split
      · exact NetMoves.refl _
      · exact sendSegment_net cfg env i _ _ s

theorem nextSeg_isSome {tx : SegTx} (ho : tx.segO = 0) (hseg : (tx.seg.getD 0 none).isSome) :
    (nextSeg tx).isSome := by
  rw [nextSeg, find?_isSome, ho]
  exact ⟨0, by simp [mem_range'_1], hseg⟩

theorem segTxSendUnacked_spends {tx : SegTx} (htx : s.segTx[i]? = some tx)
    (hnack : tx.nackCount ≠ 0) (hprog : tx.attemptsLeftWithoutProgress ≠ 0)
    (hatt : tx.attemptsLeft ≠ 0) (hseg : (nextSeg tx).isSome) (hadv : env.adv = true)
    (hnet : env.netSend ≠ .header) :
    NetSpends cfg.net s.net (segTxSendUnacked cfg env i s).s.net := by
  obtain ⟨o, ho⟩ := isSome_iff_exists.1 hseg
  simp only [segTxSendUnacked, htx, hnack, if_false, ho]
  rw [if_neg (by simp [hprog]), if_neg hatt]
  exact sendSegment_spends hadv hnet

/-! ## Segmented sends -/

variable {tx : NetTx} {sdu : Bytes} {ctlOp : Option ℕ}

@[simp] theorem length_cutSegs (ctl : Bool) (fuel o : ℕ) (sdu : Bytes)
    (segs : List (Option Bytes)) :
    (cutSegs cfg env tx ctl fuel o sdu segs).1.length = segs.length := by
  induction fuel generalizing o sdu segs with
  | zero => rfl
  | succ fuel ih =>
    simp only [cutSegs]
    split_ifs <;> simp [ih]

theorem cutSegs_getD_of_lt (ctl : Bool) {j o : ℕ} (hj : j < o) (fuel : ℕ) (sdu : Bytes)
    (segs : List (Option Bytes)) :
    (cutSegs cfg env tx ctl fuel o sdu segs).1.getD j none = segs.getD j none := by
  induction fuel generalizing o sdu segs with
  | zero => rfl
  | succ fuel ih =>
    simp only [cutSegs]
    split
    · rfl
    · split
      · rfl
      · rw [ih (by omega)]
        simp only [getD_eq_getElem?_getD]
        rw [getElem?_set_ne (by omega)]

theorem cutSegs_zero_isSome {ctl : Bool} {segs : List (Option Bytes)} (hsdu : sdu ≠ [])
    (hlen : 0 < segs.length) (hfriend : friendOnly cfg env tx 0 = false)
    (halloc : (cutSegs cfg env tx ctl sdu.length 0 sdu segs).2 = true) :
    ((cutSegs cfg env tx ctl sdu.length 0 sdu segs).1.getD 0 none).isSome := by
  obtain ⟨n, hn⟩ : ∃ n, sdu.length = n + 1 :=
    ⟨sdu.length - 1, by have := length_pos_iff.2 hsdu; omega⟩
  rw [hn] at halloc ⊢
  simp only [cutSegs, List.isEmpty_iff, hsdu, if_false, hfriend, Bool.false_eq_true] at halloc ⊢
  split at halloc
  · exact absurd halloc (by simp)
  · rename_i hseg
    rw [if_neg hseg, cutSegs_getD_of_lt ctl (by omega)]
    simp [hlen]

theorem SegTx.cut_zero_isSome {t : SegTx} (hsdu : sdu ≠ []) (hlen : 0 < t.seg.length)
    (hfriend : friendOnly cfg env tx 0 = false) (halloc : (t.cut cfg env tx sdu).2 = true) :
    ((t.cut cfg env tx sdu).1.seg.getD 0 none).isSome :=
  cutSegs_zero_isSome hsdu hlen hfriend halloc

theorem segTxScan_lt {src dst : ℕ} {ts : List SegTx} {j : ℕ} {b b' : Bool} {free : Option ℕ}
    (h : segTxScan src dst j (b, free) ts = (b', some i)) :
    free = some i ∨ (j ≤ i ∧ i < j + ts.length) := by
  induction ts generalizing j b free with
  | nil =>
    simp only [segTxScan, Prod.mk.injEq] at h
    exact .inl h.2
  | cons t ts ih =>
    simp only [segTxScan] at h
    split at h
    · rcases ih h with hfree | hlt
      · exact .inl hfree
      · exact .inr (by simp only [length_cons]; omega)
    · rcases ih h with hfree | hlt
      · cases free with
        | none =>
          obtain rfl : j = i := by simpa using hfree
          exact .inr (by simp)
        | some k => exact .inl (by simpa using hfree)
      · exact .inr (by simp only [length_cons]; omega)

theorem sendSeg_net (cfg : TransCfg) (env : SendEnv) (tx : NetTx) (sdu : Bytes)
    (ctlOp : Option ℕ) (s : Trans) :
    NetMoves cfg.net s.net (sendSeg cfg env tx sdu ctlOp s).s.net := by
  unfold sendSeg
  split
  · exact NetMoves.refl _
  next i _ =>
    simp only
    split_ifs
    · exact segTxReset_net cfg i (s.put i _)
    · exact segTxReset_net cfg i (s.put i _)
    · exact segTxReset_net cfg i (s.put i _)
    · exact .inr ⟨.transmit, rfl⟩
    · exact segTxSendUnacked_net cfg env i (s.put i _)

/-- Every context has its array of segment pointers. -/
def Trans.Wf (cfg : TransCfg) (s : Trans) : Prop := ∀ t ∈ s.segTx, t.seg.length = cfg.txSegMax

theorem Trans.Wf.length_getD (h : s.Wf cfg) (hi : i < s.segTx.length) :
    (s.segTx.getD i default).seg.length = cfg.txSegMax := by
  rw [getD_eq_getElem?_getD, getElem?_eq_getElem hi]
  exact h _ (getElem_mem hi)

/-- The SDU has a first segment, and its segments fit the array. -/
def SegFits (cfg : TransCfg) (ctl : Bool) (sdu : Bytes) : Prop :=
  sdu ≠ [] ∧ (sdu.length - 1) / segLen ctl < cfg.txSegMax

/-- **A segmented message spends its pair** when it is blocked, or when
its first segment gets as far as its header. -/
theorem sendSeg_spends (hwf : s.Wf cfg) (hfits : SegFits cfg ctlOp.isSome sdu)
    (hfriend : friendOnly cfg env tx 0 = false)
    (hpath : s.blocked tx = true ∨ env.adv = true ∧ env.netSend ≠ .header)
    (herr : (sendSeg cfg env tx sdu ctlOp s).err = none) :
    NetSpends cfg.net s.net (sendSeg cfg env tx sdu ctlOp s).s.net := by
  rcases hscan : segTxScan tx.src tx.addr 0 (false, none) s.segTx with ⟨b, - | i⟩
  · simp [sendSeg, hscan] at herr
  have hi : i < s.segTx.length := by
    have := segTxScan_lt hscan
    simp only [reduceCtorEq, false_or] at this
    omega
  have hb : s.blocked tx = b := by rw [Trans.blocked, hscan]
  -- The segments that were cut, and the first of them.
  have hlen : 0 < (segTxSetup cfg tx sdu ctlOp b s.net (s.segTx.getD i default)).seg.length := by
    rw [segTxSetup, hwf.length_getD hi]
    exact Nat.pos_of_ne_zero fun h0 => by simp [SegFits, h0] at hfits
  have hget : ∀ t, (s.put i t).segTx[i]? = some t := fun t => by simp [Trans.put, hi]
  unfold sendSeg at herr ⊢
  simp only [hscan] at herr ⊢
  split_ifs at herr ⊢ with h1 h2 h3 h4
  · -- Only the Friend queue has it: not this message.
    rw [Bool.not_eq_true, Bool.not_eq_false'] at h2
    have hfirst := SegTx.cut_zero_isSome hfits.1 hlen hfriend h2
    rw [Bool.and_eq_true, isNone_iff_eq_none] at h3
    rw [h3.2] at hfirst
    exact absurd hfirst (by simp)
  · rfl
  · rw [Bool.not_eq_true, Bool.not_eq_false'] at h2
    have hfirst := SegTx.cut_zero_isSome hfits.1 hlen hfriend h2
    obtain ⟨hadv, hnet⟩ := hpath.resolve_left (by rw [hb]; exact h4)
    refine segTxSendUnacked_spends (hget _) ?_ ?_ ?_ (nextSeg_isSome rfl hfirst) hadv hnet
    · simp [segTxSetup, SegTx.cut]
    · simp [segTxSetup, SegTx.cut]
    · simp [segTxSetup, SegTx.cut]

/-! ## Both send functions -/

theorem sendUnseg_net (cfg : TransCfg) (env : SendEnv) (tx : NetTx) (sdu : Bytes)
    (ctlOp : Option ℕ) (s : Trans) :
    NetMoves cfg.net s.net (sendUnseg cfg env tx sdu ctlOp s).s.net := by
  simp only [sendUnseg]
  split_ifs
  · exact NetMoves.refl _
  · exact NetMoves.refl _
  · exact NetMoves.refl _
  · exact netSend_net cfg env _ _ s

theorem sendUnseg_spends (hfriend : ¬(env.friendSpace && friendOnly cfg env tx 0) = true)
    (herr : (sendUnseg cfg env tx sdu ctlOp s).err = none) :
    NetSpends cfg.net s.net (sendUnseg cfg env tx sdu ctlOp s).s.net := by
  simp only [sendUnseg] at herr ⊢
  split_ifs at herr ⊢
  refine netSend_spends fun hhdr => ?_
  simp [netSend, hhdr] at herr

/-- The message is refused: no context is free, the Friend queue has no
space, or the segment buffers run out. -/
def SegRefused (cfg : TransCfg) (env : SendEnv) (tx : NetTx) (sdu : Bytes) (ctl : Bool)
    (s : Trans) : Prop :=
  (segTxScan tx.src tx.addr 0 (false, none) s.segTx).2 = none ∨
  (cfg.friend && !env.friendSpace && isUnicast tx.addr) = true ∨
  (sdu ≠ [] ∧ ∃ o, o ≤ (sdu.length - 1) / segLen ctl ∧ env.segAlloc o = false)

/-- **When a message spends its pair.** Unsegmented: unless only the
Friend queue takes it. Segmented: its segments fit, the Friend queue
does not keep the first one, and either a transfer to the same peer
blocks it or its first segment gets an advertising buffer and a header. -/
def SpendsPair (cfg : TransCfg) (env : SendEnv) (tx : NetTx) (sdu : Bytes) (ctl : Bool)
    (s : Trans) : Prop :=
  if tx.sendRel then
    SegRefused cfg env tx sdu ctl s ∨
      (SegFits cfg ctl sdu ∧ friendOnly cfg env tx 0 = false ∧
        (s.blocked tx = true ∨ env.adv = true ∧ env.netSend ≠ .header))
  else ¬(env.friendSpace && friendOnly cfg env tx 0) = true

theorem sendSdu_net (cfg : TransCfg) (env : SendEnv) (tx : NetTx) (sdu : Bytes)
    (ctlOp : Option ℕ) (s : Trans) :
    NetMoves cfg.net s.net (sendSdu cfg env tx sdu ctlOp s).s.net := by
  unfold sendSdu
  split
  · exact sendSeg_net cfg env tx sdu ctlOp s
  · exact sendUnseg_net cfg env tx sdu ctlOp s

theorem cutSegs_snd_eq_false {ctl : Bool} {o : ℕ} (halloc : env.segAlloc o = false) :
    ∀ (fuel j : ℕ) (sdu : Bytes) (segs : List (Option Bytes)), sdu.length ≤ fuel → j ≤ o →
      o ≤ j + (sdu.length - 1) / segLen ctl → sdu ≠ [] →
      (cutSegs cfg env tx ctl fuel j sdu segs).2 = false := by
  intro fuel
  induction fuel with
  | zero =>
    intro j sdu segs hlen _ _ hne
    exact absurd (length_eq_zero_iff.1 (by omega)) hne
  | succ fuel ih =>
    intro j sdu segs hlen hj ho hne
    have hpos : 0 < segLen ctl := by cases ctl <;> decide
    have hsdu : 0 < sdu.length := length_pos_iff.2 hne
    simp only [cutSegs, List.isEmpty_iff, hne, if_false]
    split
    · rfl
    · rename_i hj'
      have hne' : j ≠ o := fun h => hj' (by simp [h, halloc])
      -- There is a segment behind this one, so the SDU goes on.
      have hdiv : 0 < (sdu.length - 1) / segLen ctl := by omega
      have hlong : segLen ctl ≤ sdu.length - 1 := by
        by_contra hc
        rw [Nat.div_eq_of_lt (by omega)] at hdiv
        omega
      have hrest : (sdu.length - segLen ctl - 1) / segLen ctl + 1 =
          (sdu.length - 1) / segLen ctl := by
        rw [← Nat.add_div_right _ hpos]
        congr 1
        omega
      refine ih (j + 1) _ _ ?_ (by omega) ?_ ?_
      · rw [length_drop]; omega
      · rw [length_drop]; omega
      · exact ne_nil_of_length_pos (by rw [length_drop]; omega)

theorem sendSeg_err_of_refused (h : SegRefused cfg env tx sdu ctlOp.isSome s) :
    (sendSeg cfg env tx sdu ctlOp s).err ≠ none := by
  rcases hscan : segTxScan tx.src tx.addr 0 (false, none) s.segTx with ⟨b, - | i⟩
  · simp [sendSeg, hscan]
  · rcases h with h | h | ⟨hsdu, o, ho, halloc⟩
    · simp [hscan] at h
    · simp [sendSeg, hscan, h]
    · simp only [sendSeg, hscan]
      split
      · simp
      · rw [if_pos (by
          rw [SegTx.cut, cutSegs_snd_eq_false halloc _ 0 _ _ le_rfl (Nat.zero_le _) ?_ hsdu]
          · rfl
          · simpa [segTxSetup] using ho)]
        simp

/-- **An accepted message that spends its pair** moves the network layer
by a transmission. -/
theorem sendSdu_spends (hwf : s.Wf cfg) (h : SpendsPair cfg env tx sdu ctlOp.isSome s)
    (herr : (sendSdu cfg env tx sdu ctlOp s).err = none) :
    NetSpends cfg.net s.net (sendSdu cfg env tx sdu ctlOp s).s.net := by
  unfold sendSdu at herr ⊢
  unfold SpendsPair at h
  split at h
  · rename_i hrel
    rw [if_pos hrel] at herr ⊢
    rcases h with h | ⟨hfits, hfriend, hpath⟩
    · exact absurd herr (sendSeg_err_of_refused h)
    · exact sendSeg_spends hwf hfits hfriend hpath herr
  · rename_i hrel
    rw [if_neg hrel] at herr ⊢
    exact sendUnseg_spends h herr

/-! ## The arrays keep their length -/

theorem length_dropSegs (nack k : ℕ) (l : List (Option Bytes)) :
    (dropSegs nack k l).length = l.length := by
  induction l generalizing nack k with
  | nil => cases nack <;> cases k <;> rfl
  | cons b l ih =>
    cases nack with
    | zero => simp [dropSegs]
    | succ nack =>
      cases k with
      | zero => simp [dropSegs]
      | succ k => cases b <;> simp [dropSegs, ih]

theorem mem_modify {α : Type*} {l : List α} {f : α → α} {i : ℕ} {x : α}
    (h : x ∈ l.modify i f) : x ∈ l ∨ ∃ y ∈ l, x = f y := by
  obtain ⟨j, hj⟩ := mem_iff_getElem?.1 h
  rw [getElem?_modify] at hj
  obtain ⟨y, hy, rfl⟩ := map_eq_some_iff.1 hj
  split
  · exact .inr ⟨y, mem_of_getElem? hy, rfl⟩
  · exact .inl (mem_of_getElem? hy)

theorem Trans.Wf.modify {f : SegTx → SegTx} (h : s.Wf cfg) (i : ℕ)
    (hf : ∀ t, t.seg.length = cfg.txSegMax → (f t).seg.length = cfg.txSegMax) (net : Net) :
    Trans.Wf cfg { net := net, segTx := s.segTx.modify i f } := by
  intro t ht
  rcases mem_modify ht with ht | ⟨u, hu, rfl⟩
  · exact h t ht
  · exact hf u (h u hu)

theorem Trans.Wf.put {t : SegTx} (h : s.Wf cfg) (i : ℕ) (ht : t.seg.length = cfg.txSegMax) :
    (s.put i t).Wf cfg := by
  intro u hu
  rcases mem_or_eq_of_mem_set hu with hu | rfl
  · exact h u hu
  · exact ht

theorem Trans.Wf.segTxReset (h : s.Wf cfg) (i : ℕ) : (segTxReset cfg i s).Wf cfg :=
  h.modify i (fun _ ht => (length_dropSegs _ _ _).trans ht) _

theorem Trans.Wf.segTxComplete (h : s.Wf cfg) (i : ℕ) : (segTxComplete cfg i s).Wf cfg := by
  refine Trans.Wf.segTxReset ?_ i
  unfold segTxUnblockCheck
  split
  · exact h
  · split
    · exact h
    · refine h.modify _ ?_ _
      exact fun _ ht => ht

theorem Trans.Wf.getD (h : s.Wf cfg) (i : ℕ) :
    s.segTx.getD i default = default ∨ (s.segTx.getD i default).seg.length = cfg.txSegMax := by
  rw [getD_eq_getElem?_getD]
  cases ht : s.segTx[i]? with
  | none => exact .inl rfl
  | some t => exact .inr (h t (mem_of_getElem? ht))

theorem Trans.Wf.ackContext (h : s.Wf cfg) (i ack : ℕ) : (ackContext cfg i ack s).1.Wf cfg := by
  rcases h.getD i with hdef | hlen
  · simp only [Mesh.ackContext, hdef]
    exact h
  · have hacked : ((s.segTx.getD i default).acked ack).seg.length = cfg.txSegMax := by
      simpa [SegTx.acked] using hlen
    simp only [Mesh.ackContext]
    split_ifs
    all_goals first
      | exact h
      | exact h.segTxComplete i
      | exact h.put i hacked
      | (refine Trans.Wf.segTxComplete ?_ i; exact h.put i hacked)

theorem Trans.Wf.sendSegment {t : SegTx} (h : s.Wf cfg) (i o : ℕ)
    (ht : t.seg.length = cfg.txSegMax) : (sendSegment cfg env i t o s).s.Wf cfg := by
  have hnet : (netSend cfg env t.seqAuth (segTxBufBuild { t with segO := o } o) s).s.Wf cfg := by
    unfold netSend
    split <;> exact h
  simp only [Mesh.sendSegment]
  split_ifs
  · exact h.put i ht
  · exact hnet.put i ht
  · exact hnet.put i ht

theorem Trans.Wf.segTxSendUnacked (h : s.Wf cfg) (i : ℕ) :
    (segTxSendUnacked cfg env i s).s.Wf cfg := by
  unfold Mesh.segTxSendUnacked
  split
  · exact h
  · rename_i t ht
    have hlen := h t (mem_of_getElem? ht)
    split_ifs
    · exact h
    · exact h.segTxComplete i
    · exact h.segTxComplete i
    · split
      · exact h.put i hlen
      · exact h.sendSegment i _ hlen

theorem Trans.Wf.sendSeg (h : s.Wf cfg) : (sendSeg cfg env tx sdu ctlOp s).s.Wf cfg := by
  rcases hscan : segTxScan tx.src tx.addr 0 (false, none) s.segTx with ⟨b, - | i⟩
  · simp only [Mesh.sendSeg, hscan]
    exact h
  have hsetup : (segTxSetup cfg tx sdu ctlOp b s.net (s.segTx.getD i default)).seg.length =
      cfg.txSegMax := by
    have hlt := segTxScan_lt hscan
    simp only [reduceCtorEq, false_or] at hlt
    exact h.length_getD (by omega)
  have hcut : ((segTxSetup cfg tx sdu ctlOp b s.net (s.segTx.getD i default)).cut cfg env tx
      sdu).1.seg.length = cfg.txSegMax := (length_cutSegs _ _ _ _ _).trans hsetup
  simp only [Mesh.sendSeg, hscan]
  split_ifs
  · exact (h.put i hsetup).segTxReset i
  · exact (h.put i hcut).segTxReset i
  · exact (h.put i hcut).segTxReset i
  · exact h.put i hcut
  · exact (h.put i hcut).segTxSendUnacked i

theorem Trans.Wf.sendSdu (h : s.Wf cfg) : (sendSdu cfg env tx sdu ctlOp s).s.Wf cfg := by
  unfold Mesh.sendSdu
  split
  · exact h.sendSeg
  · simp only [sendUnseg, netSend]
    split_ifs
    · exact h
    · exact h
    · exact h
    · split <;> exact h

/-! ## Steps and runs -/

variable {e : TransEvent}

theorem transStep_net (cfg : TransCfg) (s : Trans) (e : TransEvent) :
    NetMoves cfg.net s.net (transStep cfg s e).net := by
  cases e with
  | send env tx msg tailroom =>
    simp only [transStep, transRet, transSend]
    split
    · exact NetMoves.refl _
    · exact sendSdu_net cfg env _ _ none s
  | ctl env tx op data =>
    simp only [transStep, transRet, ctlSend]
    split
    · exact NetMoves.refl _
    · exact sendSdu_net cfg env _ data (some op) s
  | retransmit env i => exact segTxSendUnacked_net cfg env i _
  | segSent i => exact NetMoves.refl _
  | ack addr obo sz ack => exact transAck_net cfg addr obo sz ack s
  | ivUpdate iv flag => exact .inr ⟨.ivUpdate iv flag _, rfl⟩
  | ivuRefresh => exact .inr ⟨.ivuRefresh _, rfl⟩
  | transmit => exact .inr ⟨.transmit, rfl⟩

theorem Trans.Wf.transStep (h : s.Wf cfg) : (transStep cfg s e).Wf cfg := by
  cases e with
  | send env tx msg tailroom =>
    simp only [Mesh.transStep, transRet, transSend]
    split
    · exact h
    · exact h.sendSdu
  | ctl env tx op data =>
    simp only [Mesh.transStep, transRet, ctlSend]
    split
    · exact h
    · exact h.sendSdu
  | retransmit env i =>
    refine Trans.Wf.segTxSendUnacked ?_ i
    refine h.modify i ?_ _
    exact fun _ ht => ht
  | segSent i =>
    refine h.modify i ?_ _
    intro t ht
    split <;> exact ht
  | ack addr obo sz ack =>
    simp only [Mesh.transStep, transRet, transAck]
    split
    · exact h
    · exact h.ackContext _ ack
    · refine Trans.Wf.ackContext ?_ _ ack
      refine h.modify _ ?_ _
      exact fun _ ht => ht
  | ivUpdate iv flag => exact h
  | ivuRefresh => exact h
  | transmit => exact h

/-- The message a step sends, if it passes the checks, spends its pair. -/
def Spends (cfg : TransCfg) (s : Trans) : TransEvent → Prop
  | .send env tx msg tailroom => ∀ tx' sdu,
      sendPlan cfg env tx msg tailroom s.net = .ok (tx', sdu) → SpendsPair cfg env tx' sdu false s
  | .ctl env tx _ data => ∀ tx', ctlPlan cfg tx data = .ok tx' →
      SpendsPair cfg env tx' data true s
  | _ => True

/-- There is a sequence number left in 32 bits. -/
def SeqLeft (s : Trans) (_ : TransEvent) : Prop := s.net.seq.toNat + 1 < 2 ^ 32

theorem spends_of_mem_transAccepted (hwf : s.Wf cfg) (h : Spends cfg s e)
    {p : UInt32 × UInt32} (hp : p ∈ transAccepted cfg s e) :
    p = s.pair ∧ NetSpends cfg.net s.net (transStep cfg s e).net := by
  cases e with
  | send env tx msg tailroom =>
    simp only [transAccepted, transRet, transStep, transSend] at hp ⊢
    cases hplan : sendPlan cfg env tx msg tailroom s.net with
    | error err => simp [hplan] at hp
    | ok plan =>
      simp only [hplan, isNone_iff_eq_none] at hp ⊢
      split at hp
      · exact ⟨mem_singleton.1 hp, sendSdu_spends hwf (h _ _ hplan) ‹_›⟩
      · exact absurd hp (by simp)
  | ctl env tx op data =>
    simp only [transAccepted, transRet, transStep, ctlSend] at hp ⊢
    cases hplan : ctlPlan cfg tx data with
    | error err => simp [hplan] at hp
    | ok tx' =>
      simp only [hplan, isNone_iff_eq_none] at hp ⊢
      split at hp
      · exact ⟨mem_singleton.1 hp, sendSdu_spends hwf (h _ hplan) ‹_›⟩
      · exact absurd hp (by simp)
  | _ => exact absurd hp (by simp [transAccepted])

/-- **No SeqAuth is given twice.** Along every run in which each message
that passes the checks spends its pair, and the counter does not wrap
its 32 bits, the accepted messages have pairwise distinct pairs (transmit
IV index, sequence number). -/
theorem transAccepted_nodup {es : List TransEvent} (hw : s.net.Indexed) (hwf : s.Wf cfg)
    (hleft : Along (transStep cfg) SeqLeft s es) (hspend : Along (transStep cfg) (Spends cfg) s es) :
    (emitted (transStep cfg) (transAccepted cfg) s es).Nodup := by
  have hclock : ∀ n n', n.Indexed → n.seq.toNat + 1 < 2 ^ 32 → NetMoves cfg.net n n' →
      n'.Indexed ∧ n.clock ≤ n'.clock := by
    rintro n n' hn hseq (rfl | ⟨e, rfl⟩)
    · exact ⟨hn, le_rfl⟩
    · exact ⟨hn.netStep, clock_le_netStep hn fun _ => hseq⟩
  have hpair : (emitted (transStep cfg) (transAccepted cfg) s es).Pairwise fun p q =>
      toLex (p.1.toNat, p.2.toNat) < toLex (q.1.toNat, q.2.toNat) := by
    refine emitted_pairwise (fun t : Trans => t.net.Indexed ∧ t.Wf cfg) (fun t => t.net.clock)
      (fun p : UInt32 × UInt32 => toLex (p.1.toNat, p.2.toNat)) ?_ ?_ ?_ ?_ ⟨hw, hwf⟩
      (along_and.2 ⟨hleft, hspend⟩)
    · exact fun t e ht he => ⟨(hclock _ _ ht.1 he.1 (transStep_net cfg t e)).1, ht.2.transStep⟩
    · exact fun t e ht he => (hclock _ _ ht.1 he.1 (transStep_net cfg t e)).2
    · intro t e ht he p hp
      obtain ⟨rfl, hsp⟩ := spends_of_mem_transAccepted ht.2 he.2 hp
      refine ⟨le_rfl, ?_⟩
      rw [hsp]
      exact (transmit_clock cfg.net fun _ => he.1).2
    · intro t e _ _
      cases e <;> simp only [transAccepted] <;> try exact List.Pairwise.nil
      all_goals split <;> simp
  exact hpair.imp fun h heq => absurd (heq ▸ h) (lt_irrefl _)

/-! ## Messages with the same SeqAuth -/

/-- A node with two transmit contexts, at IV index 5. -/
def sender5 : Trans := transInit {} (provision 2 false 5 true) 2

/-- An application key that appends a zero MIC. -/
def plainEnv : SendEnv where
  encrypt := fun c msg => some (msg ++ List.replicate (appMicLen c.aszmic) 0)

/-- Two segmented messages and a control message between them. -/
theorem transAccepted_nodup_example :
    (emitted (transStep {}) (transAccepted {}) sender5
      [.send plainEnv { src := 1, addr := 2 } (List.replicate 12 7) 8,
       .ctl plainEnv { src := 1, addr := 3 } 10 [1, 2],
       .send plainEnv { src := 1, addr := 2 } (List.replicate 12 8) 8]).Nodup ∧
    emitted (transStep {}) (transAccepted {}) sender5
      [.send plainEnv { src := 1, addr := 2 } (List.replicate 12 7) 8,
       .ctl plainEnv { src := 1, addr := 3 } 10 [1, 2],
       .send plainEnv { src := 1, addr := 2 } (List.replicate 12 8) 8] =
      [(5, 0), (5, 1), (5, 2)] := by
  refine ⟨transAccepted_nodup (by unfold Net.Indexed; decide) (by unfold Trans.Wf; decide) ?_ ?_,
    by decide⟩
  · refine ⟨?_, ?_, ?_, trivial⟩ <;> unfold SeqLeft <;> decide
  · refine ⟨?_, ?_, ?_, trivial⟩
    · rintro tx' sdu ⟨⟩
      exact .inr ⟨⟨by decide, by decide⟩, rfl, .inr ⟨rfl, by decide⟩⟩
    · rintro tx' ⟨⟩
      exact Bool.false_ne_true
    · rintro tx' sdu ⟨⟩
      exact .inr ⟨⟨by decide, by decide⟩, rfl, .inl (by decide)⟩

/-- **Two messages on air with one SeqAuth.** The first message finds no
advertising buffer: `send_seg` returns 0 and the sequence number stays.
The second one, to the same peer, is blocked behind it and gets the same
pair. The timer sends the first, the ack for it releases the second, and
the timer sends that: two messages with one SeqAuth and one nonce. -/
theorem seqAuth_reused_after_adv_failure :
    emitted (transStep {}) (transAccepted {}) sender5
      [.send { plainEnv with adv := false } { src := 1, addr := 2 } (List.replicate 12 7) 4,
       .send plainEnv { src := 1, addr := 2 } (List.replicate 12 8) 4] = [(5, 0), (5, 0)] ∧
    emitted (transStep {}) (transOnAir {}) sender5
      [.send { plainEnv with adv := false } { src := 1, addr := 2 } (List.replicate 12 7) 4,
       .send plainEnv { src := 1, addr := 2 } (List.replicate 12 8) 4,
       .retransmit plainEnv 0, .ack 2 false 0 3, .retransmit plainEnv 1] =
      [(5 * 2 ^ 24, [0xc0, 0, 0, 1] ++ List.replicate 12 7),
       (5 * 2 ^ 24, [0xc0, 0, 0, 1] ++ List.replicate 12 8)] := by
  decide

end Mesh

end OpenBlue
