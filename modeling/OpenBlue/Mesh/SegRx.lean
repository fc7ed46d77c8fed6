import OpenBlue.Mesh.SeqAuth
import OpenBlue.Mesh.Model.SegRx
/-!
# Mesh — the receive contexts

What `trans_seg` can do to the contexts `seg_rx`, context by context: it
works on one context of its own source, opened in the first free place,
and leaves the others alone. In every reachable state a peer has at most
one context in use.
-/

namespace OpenBlue

namespace Mesh

open List

/-! ## What a segment can do to the contexts -/

section Frame

variable {cfg : TransCfg} {env : RecvEnv} {rx : NetRx} {s : Receiver} {h : SegHdr}
variable {chk : RplCheck} {auth i j : ℕ} {l : List SegRx} {c c' : SegRx}

@[simp] theorem Receiver.enter_segRx : (s.enter cfg chk rx).segRx = s.segRx := by
  cases chk <;> rfl

@[simp] theorem Receiver.enterSeg_segRx : (s.enterSeg chk i).segRx = s.segRx := by
  cases chk <;> rfl

/-- What a segment makes of the context it is for: it stays with its
peer or is cleared, and is not taken into use. -/
structure CtxKept (c c' : SegRx) : Prop where
  length : c'.seg.length = c.seg.length
  inUse : c'.inUse = true → c.inUse = true
  peer : (c'.src = c.src ∧ c'.dst = c.dst) ∨ (c'.src = 0 ∧ c'.inUse = false)

theorem CtxKept.refl (c : SegRx) : CtxKept c c := ⟨rfl, id, .inl ⟨rfl, rfl⟩⟩

theorem CtxKept.expect (c : SegRx) : CtxKept c (c.expect cfg env h) := ⟨rfl, id, .inl ⟨rfl, rfl⟩⟩

theorem CtxKept.store (hk : CtxKept c c') : CtxKept c (c'.store h) :=
  ⟨by simp [SegRx.store, hk.length], hk.inUse, hk.peer⟩

theorem CtxKept.reset (hk : CtxKept c c') (full : Bool) : CtxKept c (c'.reset full) := by
  refine ⟨by simp [SegRx.reset, hk.length], by simp [SegRx.reset], ?_⟩
  cases full with
  | true => exact .inr ⟨rfl, rfl⟩
  | false => exact hk.peer.imp_right fun h => ⟨h.1, rfl⟩

theorem getElem?_eq_getD (hi : i < l.length) : l[i]? = some (l.getD i default) := by
  rw [getD_eq_getElem?_getD, getElem?_eq_getElem hi]
  rfl

theorem set_getD_self (hi : i < l.length) : l.set i (l.getD i default) = l := by
  rw [getD_eq_getElem?_getD, getElem?_eq_getElem hi]
  exact set_getElem_self hi

@[simp] theorem segComplete_segRx :
    (segComplete cfg env rx chk h auth i c s).s.segRx = s.segRx.set i (c.reset false) := by
  simp only [segComplete, Receiver.put]
  split <;> simp

theorem segFound_segRx (cfg : TransCfg) (env : RecvEnv) (rx : NetRx) (chk : RplCheck)
    (h : SegHdr) (auth : ℕ) (hi : i < s.segRx.length) :
    ∃ c', (segFound cfg env rx chk h auth i s).s.segRx = s.segRx.set i c' ∧
      CtxKept (s.segRx.getD i default) c' := by
  have hself := (set_getD_self hi).symm
  simp only [segFound]
  split_ifs
  · exact ⟨_, hself, .refl _⟩
  · refine ⟨_, rfl, CtxKept.reset ?_ true⟩
    exact ⟨rfl, id, .inl ⟨rfl, rfl⟩⟩
  · exact ⟨_, hself, .refl _⟩
  · exact ⟨_, rfl, .expect _⟩
  · exact ⟨_, rfl, (CtxKept.expect _).store⟩
  · exact ⟨_, segComplete_segRx, (CtxKept.expect _).store.reset false⟩

theorem segKnown_segRx (cfg : TransCfg) (env : RecvEnv) (rx : NetRx) (chk : RplCheck)
    (h : SegHdr) (auth : ℕ) (hi : i < s.segRx.length) :
    ∃ c', (segKnown cfg env rx chk h auth i s).s.segRx = s.segRx.set i c' ∧
      CtxKept (s.segRx.getD i default) c' := by
  have hself := (set_getD_self hi).symm
  simp only [segKnown]
  split_ifs
  · exact ⟨_, hself, .refl _⟩
  · exact ⟨_, hself, .refl _⟩
  · exact segFound_segRx cfg env rx chk h auth hi
  · exact ⟨_, Receiver.enter_segRx.trans hself, .refl _⟩
  · exact ⟨_, Receiver.enter_segRx.trans hself, .refl _⟩
  · exact ⟨_, hself, .refl _⟩

theorem segNew_segRx (cfg : TransCfg) (env : RecvEnv) (rx : NetRx) (chk : RplCheck)
    (h : SegHdr) (auth : ℕ) (s : Receiver) : (segNew cfg env rx chk h auth s).s.segRx = s.segRx ∨
    ∃ i c', segRxFree s.segRx = some i ∧
      (segNew cfg env rx chk h auth s).s.segRx = s.segRx.set i c' ∧
      CtxKept ((s.segRx.getD i default).open rx h auth) c' := by
  simp only [segNew]
  split_ifs
  · exact .inl rfl
  · exact .inl rfl
  · exact .inl rfl
  · exact .inl rfl
  · split
    · exact .inl rfl
    · rename_i i hfree
      have hi : i < s.segRx.length := (findIdx?_eq_some_iff_findIdx_eq.1 hfree).1
      have hi' : i < (s.put i ((s.segRx.getD i default).open rx h auth)).segRx.length := by
        simpa [Receiver.put] using hi
      obtain ⟨c', hset, hkept⟩ := segFound_segRx cfg env rx chk h auth hi'
      refine .inr ⟨i, c', hfree, ?_, ?_⟩
      · rw [hset]
        simp [Receiver.put]
      · simpa [Receiver.put, hi] using hkept

variable {addr dst : ℕ}

theorem src_of_stops (hstop : c.stops addr dst auth = true) : c.src = addr ∧ c.dst = dst := by
  simp only [SegRx.stops, Bool.and_eq_true, beq_iff_eq] at hstop
  exact hstop.1

theorem stops_of_findIdx? (hi : l.findIdx? (·.stops addr dst auth) = some i) :
    i < l.length ∧ (l.getD i default).stops addr dst auth = true := by
  obtain ⟨hlt, hstop, -⟩ := findIdx?_eq_some_iff_getElem.1 hi
  refine ⟨hlt, ?_⟩
  rw [getD_eq_getElem?_getD, getElem?_eq_getElem hlt]
  exact hstop

theorem segRxFind_cases (addr dst auth : ℕ) (l : List SegRx) :
    (segRxFind addr dst auth l = (l, none) ∧ ∀ c ∈ l, c.stops addr dst auth = false) ∨
    (∃ i, segRxFind addr dst auth l = (l, some i) ∧ i < l.length ∧
      l.findIdx? (·.stops addr dst auth) = some i ∧ auth ≤ (l.getD i default).seqAuth) ∨
    (∃ i, segRxFind addr dst auth l = (l.modify i (SegRx.reset true), none) ∧ i < l.length ∧
      (l.getD i default).stops addr dst auth = true ∧ (l.getD i default).seqAuth < auth) := by
  unfold segRxFind
  split
  · rename_i hnone
    exact .inl ⟨rfl, by simpa [findIdx?_eq_none_iff] using hnone⟩
  · rename_i i hi
    obtain ⟨hlt, hstop⟩ := stops_of_findIdx? hi
    split
    · exact .inr (.inl ⟨i, rfl, hlt, hi, ‹_›⟩)
    · exact .inr (.inr ⟨i, rfl, hlt, hstop, by omega⟩)

theorem mem_segRxFind (hc : c ∈ (segRxFind addr dst auth l).1) :
    c ∈ l ∨ ∃ d ∈ l, c = d.reset true := by
  rcases segRxFind_cases addr dst auth l with
    ⟨hfind, -⟩ | ⟨i, hfind, -⟩ | ⟨i, hfind, -⟩ <;> rw [hfind] at hc
  · exact .inl hc
  · exact .inl hc
  · exact mem_modify hc

theorem length_segRxFind {n : ℕ} (hl : ∀ c ∈ l, c.seg.length = n) :
    ∀ c ∈ (segRxFind addr dst auth l).1, c.seg.length = n := by
  intro c hc
  rcases mem_segRxFind hc with hc | ⟨d, hd, rfl⟩
  · exact hl c hc
  · simpa [SegRx.reset] using hl d hd

theorem segRxFind_free (hfree : ∃ c ∈ l, c.inUse = false) :
    ∃ c ∈ (segRxFind addr dst auth l).1, c.inUse = false := by
  obtain ⟨c, hc, huse⟩ := hfree
  rcases segRxFind_cases addr dst auth l with
    ⟨hfind, -⟩ | ⟨i, hfind, -⟩ | ⟨i, hfind, hi, -⟩ <;> rw [hfind]
  · exact ⟨c, hc, huse⟩
  · exact ⟨c, hc, huse⟩
  · refine ⟨(l.getD i default).reset true, mem_of_getElem? (i := i) ?_, rfl⟩
    rw [getElem?_modify_eq, getElem?_eq_getD hi]
    rfl

/-- At most one context of a peer is in use. -/
def OnePerPeer (l : List SegRx) : Prop :=
  ∀ (i j : ℕ) (c d : SegRx), l[i]? = some c → l[j]? = some d → c.src = d.src → c.dst = d.dst →
    c.inUse = true → d.inUse = true → i = j

theorem segRxFind_idle (hone : OnePerPeer l) (hnone : (segRxFind addr dst auth l).2 = none) :
    ∀ c ∈ (segRxFind addr dst auth l).1, c.src = addr → c.dst = dst → c.inUse = false := by
  intro c hc hcs hcd
  rcases segRxFind_cases addr dst auth l with
    ⟨hfind, hno⟩ | ⟨i, hfind, -⟩ | ⟨i, hfind, hi, hstop, hlt⟩
  · rw [hfind] at hc
    have := hno c hc
    simp only [SegRx.stops, hcs, hcd, beq_self_eq_true, Bool.and_self, Bool.true_and,
      Bool.or_eq_false_iff] at this
    exact this.2
  · rw [hfind] at hnone
    exact absurd hnone (by simp)
  · rw [hfind] at hc
    obtain ⟨j, hj⟩ := mem_iff_getElem?.1 hc
    have hgeti := getElem?_eq_getD hi
    by_cases hij : i = j
    · -- The context cleared is not in use.
      subst hij
      rw [getElem?_modify_eq, hgeti] at hj
      obtain rfl : (l.getD i default).reset true = c := by simpa using hj
      rfl
    · rw [getElem?_modify_ne _ _ hij] at hj
      by_contra huse
      have hiUse : (l.getD i default).inUse = true := by
        simp only [SegRx.stops, Bool.and_eq_true, Bool.or_eq_true, decide_eq_true_eq] at hstop
        exact hstop.2.resolve_left (by omega)
      obtain ⟨his, hid⟩ := src_of_stops hstop
      exact hij (hone i j _ c hgeti hj (his.trans hcs.symm) (hid.trans hcd.symm) hiUse
        (by simpa using huse))

theorem segRxFree_modify_reset {k : ℕ}
    (hfree : segRxFree (l.modify k (SegRx.reset true)) = some i) :
    i = k ∨ segRxFree l = some i := by
  obtain ⟨hlt, hi, hmin⟩ := findIdx?_eq_some_iff_getElem.1 hfree
  rw [length_modify] at hlt
  by_cases hik : i = k
  · exact .inl hik
  · refine .inr (findIdx?_eq_some_iff_getElem.2 ⟨hlt, ?_, ?_⟩)
    · simpa [getElem_modify, Ne.symm hik] using hi
    · intro j hj
      have hjk : k ≠ j := by
        rintro rfl
        simpa [getElem_modify, SegRx.reset] using hmin k hj
      simpa [getElem_modify, hjk] using hmin j hj

/-- What a segment from `addr` can do, context by context: a context it
changes was of this source or the first free one, and is of this source
or cleared. -/
def CtxMoves (addr : ℕ) (l l' : List SegRx) : Prop :=
  ∀ j, l'[j]? = l[j]? ∨ ∃ c c', l[j]? = some c ∧ l'[j]? = some c' ∧
    c'.seg.length = c.seg.length ∧ (c'.src = addr ∨ c'.src = 0) ∧
    (c.src = addr ∨ segRxFree l = some j)

theorem CtxMoves.refl (addr : ℕ) (l : List SegRx) : CtxMoves addr l l := fun _ => .inl rfl

theorem CtxMoves.set (hi : i < l.length)
    (hlen : c'.seg.length = (l.getD i default).seg.length) (hsrc : c'.src = addr ∨ c'.src = 0)
    (hold : (l.getD i default).src = addr ∨ segRxFree l = some i) :
    CtxMoves addr l (l.set i c') := by
  intro j
  by_cases hij : i = j
  · subst hij
    exact .inr ⟨l.getD i default, c', getElem?_eq_getD hi, by simp [hi], hlen, hsrc, hold⟩
  · exact .inl (getElem?_set_ne hij)

theorem CtxMoves.of_reset {k : ℕ} {l' : List SegRx} (hk : k < l.length)
    (hsrc : (l.getD k default).src = addr)
    (hmv : CtxMoves addr (l.modify k (SegRx.reset true)) l') : CtxMoves addr l l' := by
  have hgetk := getElem?_eq_getD hk
  intro j
  rcases hmv j with heq | ⟨c, c', hc, hc', hlen, hnew, hold⟩
  · by_cases hkj : k = j
    · subst hkj
      refine .inr ⟨_, (l.getD k default).reset true, hgetk, ?_, ?_, .inr ?_, .inl hsrc⟩
      · rw [heq, getElem?_modify_eq, hgetk]
        rfl
      · simp [SegRx.reset]
      · simp [SegRx.reset]
    · rw [getElem?_modify_ne _ _ hkj] at heq
      exact .inl heq
  · by_cases hkj : k = j
    · subst hkj
      rw [getElem?_modify_eq, hgetk] at hc
      obtain rfl : (l.getD k default).reset true = c := by simpa using hc
      exact .inr ⟨_, c', hgetk, hc', by simpa [SegRx.reset] using hlen, hnew, .inl hsrc⟩
    · rw [getElem?_modify_ne _ _ hkj] at hc
      refine .inr ⟨c, c', hc, hc', hlen, hnew, hold.imp_right fun hfree => ?_⟩
      exact (segRxFree_modify_reset hfree).resolve_left (Ne.symm hkj)

theorem segNew_moves : CtxMoves rx.addr s.segRx (segNew cfg env rx chk h auth s).s.segRx := by
  rcases segNew_segRx cfg env rx chk h auth s with heq | ⟨i, c', hfree, hset, hkept⟩
  · rw [heq]
    exact .refl _ _
  · rw [hset]
    have hi : i < s.segRx.length := (findIdx?_eq_some_iff_findIdx_eq.1 hfree).1
    refine .set hi hkept.length ?_ (.inr hfree)
    rcases hkept.peer with ⟨hsrc, -⟩ | ⟨hsrc, -⟩
    · exact .inl hsrc
    · exact .inr hsrc

/-- **The frame of `trans_seg`.** -/
theorem transSeg_moves (cfg : TransCfg) (env : RecvEnv) (rx : NetRx) (pdu : Bytes)
    (s : Receiver) : CtxMoves rx.addr s.segRx (transSeg cfg env rx pdu s).s.segRx := by
  simp only [transSeg]
  split_ifs
  · exact .refl _ _
  · exact .refl _ _
  · exact .refl _ _
  · rcases segRxFind_cases rx.addr rx.recvDst
      (rxSeqAuth (s.net.iviRx rx.oldIv).toNat rx.seq (segParse pdu).seqZero) s.segRx with
      ⟨hfind, -⟩ | ⟨i, hfind, hi, hidx, -⟩ | ⟨i, hfind, hi, hstop, -⟩
    · rw [hfind]
      exact segNew_moves
    · rw [hfind]
      have hsrc := (src_of_stops (stops_of_findIdx? hidx).2).1
      obtain ⟨c', hset, hkept⟩ := segKnown_segRx cfg env rx (rplCheck s.net.rpl rx false)
        (segParse pdu) _ hi
      rw [hset]
      refine .set hi hkept.length ?_ (.inl hsrc)
      rcases hkept.peer with ⟨hsrc', -⟩ | ⟨hsrc', -⟩
      · exact .inl (hsrc'.trans hsrc)
      · exact .inr hsrc'
    · rw [hfind]
      exact .of_reset hi (src_of_stops hstop).1 segNew_moves

end Frame

/-! ## Every reachable state -/

section Wf

variable {cfg : TransCfg} {env : RecvEnv} {rx : NetRx} {s : Receiver} {h : SegHdr}
variable {chk : RplCheck} {auth i : ℕ} {l : List SegRx} {c' : SegRx}

theorem OnePerPeer.set (hone : OnePerPeer l)
    (hc' : c'.inUse = true → ∀ j d, l[j]? = some d → j ≠ i → d.src = c'.src → d.dst = c'.dst →
      d.inUse = false) : OnePerPeer (l.set i c') := by
  -- A context in use beside the new one would be of another peer.
  have hclash : ∀ j d e, (l.set i c')[i]? = some e → (l.set i c')[j]? = some d → i ≠ j →
      e.src = d.src → e.dst = d.dst → e.inUse = true → d.inUse = true → False := by
    intro j d e he hd hij hs hdst heu hdu
    rw [getElem?_set_ne hij] at hd
    have hi : i < l.length := by
      simpa using (List.getElem?_eq_some_iff.1 he).1
    obtain rfl : e = c' := by simpa [hi] using he.symm
    have := hc' heu j d hd (Ne.symm hij) hs.symm hdst.symm
    rw [hdu] at this
    exact absurd this (by simp)
  intro j k d e hd he hs hdst hdu heu
  by_contra hjk
  by_cases hij : i = j
  · subst hij
    exact hclash k e d hd he hjk hs hdst hdu heu
  · by_cases hik : i = k
    · subst hik
      exact hclash j d e he hd hij hs.symm hdst.symm heu hdu
    · rw [getElem?_set_ne hij] at hd
      rw [getElem?_set_ne hik] at he
      exact hjk (hone j k d e hd he hs hdst hdu heu)

theorem OnePerPeer.modify {f : SegRx → SegRx} (hone : OnePerPeer l) (i : ℕ)
    (hf : ∀ c, (f c).inUse = true → (f c).src = c.src ∧ (f c).dst = c.dst ∧ c.inUse = true) :
    OnePerPeer (l.modify i f) := by
  intro j k c d hc hd hs hdst hcu hdu
  rw [getElem?_modify] at hc hd
  obtain ⟨c₀, hc₀, rfl⟩ := Option.map_eq_some_iff.1 hc
  obtain ⟨d₀, hd₀, rfl⟩ := Option.map_eq_some_iff.1 hd
  have hkeep : ∀ (n : ℕ) (e : SegRx), (if i = n then f e else e).inUse = true →
      (if i = n then f e else e).src = e.src ∧ (if i = n then f e else e).dst = e.dst ∧
        e.inUse = true := by
    intro n e he
    split_ifs at he ⊢
    · exact hf e he
    · exact ⟨rfl, rfl, he⟩
  obtain ⟨hcs, hcd, hcu'⟩ := hkeep j c₀ hcu
  obtain ⟨hds, hdd, hdu'⟩ := hkeep k d₀ hdu
  exact hone j k c₀ d₀ hc₀ hd₀ (hcs.symm.trans (hs.trans hds)) (hcd.symm.trans (hdst.trans hdd))
    hcu' hdu'

theorem OnePerPeer.segRxFind {addr dst : ℕ} (hone : OnePerPeer l) :
    OnePerPeer (segRxFind addr dst auth l).1 := by
  rcases segRxFind_cases addr dst auth l with
    ⟨hfind, -⟩ | ⟨i, hfind, -⟩ | ⟨i, hfind, -⟩ <;> rw [hfind]
  · exact hone
  · exact hone
  · exact hone.modify i fun c h => absurd h (by simp [SegRx.reset])

theorem OnePerPeer.segKnown (hone : OnePerPeer s.segRx) (hi : i < s.segRx.length) :
    OnePerPeer (segKnown cfg env rx chk h auth i s).s.segRx := by
  obtain ⟨c', hset, hkept⟩ := segKnown_segRx cfg env rx chk h auth hi
  rw [hset]
  refine hone.set fun huse j d hd hji hs hdst => ?_
  by_contra hdu
  rcases hkept.peer with ⟨hs', hd'⟩ | ⟨-, hno⟩
  · exact hji (hone j i d _ hd (getElem?_eq_getD hi) (hs.trans hs') (hdst.trans hd')
      (by simpa using hdu) (hkept.inUse huse))
  · rw [huse] at hno
    exact absurd hno (by simp)

theorem OnePerPeer.segNew (hone : OnePerPeer s.segRx)
    (hidle : ∀ c ∈ s.segRx, c.src = rx.addr → c.dst = rx.recvDst → c.inUse = false) :
    OnePerPeer (segNew cfg env rx chk h auth s).s.segRx := by
  rcases segNew_segRx cfg env rx chk h auth s with heq | ⟨i, c', -, hset, hkept⟩
  · rw [heq]
    exact hone
  · rw [hset]
    refine hone.set fun huse j d hd hji hs hdst => ?_
    rcases hkept.peer with ⟨hs', hd'⟩ | ⟨-, hno⟩
    · exact hidle d (mem_of_getElem? hd) (hs.trans hs') (hdst.trans hd')
    · rw [huse] at hno
      exact absurd hno (by simp)

theorem OnePerPeer.transSeg {pdu : Bytes} (hone : OnePerPeer s.segRx) :
    OnePerPeer (transSeg cfg env rx pdu s).s.segRx := by
  simp only [Mesh.transSeg]
  split_ifs
  · exact hone
  · exact hone
  · exact hone
  · split
    · rename_i i hfind
      refine OnePerPeer.segKnown hone.segRxFind ?_
      rcases segRxFind_cases rx.addr rx.recvDst
        (rxSeqAuth (s.net.iviRx rx.oldIv).toNat rx.seq (segParse pdu).seqZero) s.segRx with
        ⟨hf, -⟩ | ⟨k, hf, hk, -⟩ | ⟨k, hf, -⟩
      · rw [hf] at hfind
        exact absurd hfind (by simp)
      · rw [hf] at hfind ⊢
        obtain rfl : k = i := by simpa using hfind
        exact hk
      · rw [hf] at hfind
        exact absurd hfind (by simp)
    · rename_i hfind
      exact OnePerPeer.segNew hone.segRxFind (segRxFind_idle hone hfind)

/-- Every context has its array of segment pointers, and a peer has at
most one in use. -/
structure Receiver.Wf (cfg : TransCfg) (s : Receiver) : Prop where
  length : ∀ c ∈ s.segRx, c.seg.length = cfg.rxSegMax
  once : OnePerPeer s.segRx

theorem receiverInit_wf (cfg : TransCfg) (net : Net) (contexts : ℕ) :
    (receiverInit cfg net contexts).Wf cfg := by
  have hmem : ∀ c ∈ (receiverInit cfg net contexts).segRx,
      c = { seg := List.replicate cfg.rxSegMax none } := fun c hc => eq_of_mem_replicate hc
  refine ⟨fun c hc => by simp [hmem c hc], fun i j c d hc _ _ _ huse => ?_⟩
  rw [hmem c (mem_of_getElem? hc)] at huse
  exact absurd huse (by simp)

theorem ackTimer_eq (cfg : TransCfg) (c : SegRx) :
    ∃ ack attempts, c.ackTimer cfg = { c with ack := ack, attemptsLeft := attempts } := by
  unfold SegRx.ackTimer
  split_ifs
  · exact ⟨_, _, rfl⟩
  · exact ⟨_, _, rfl⟩
  · exact ⟨_, _, rfl⟩

theorem Receiver.Wf.segStep (h : s.Wf cfg) (e : SegEvent) : (segStep cfg s e).Wf cfg := by
  cases e with
  | recv env rx pdu =>
    refine ⟨fun c hc => ?_, h.once.transSeg⟩
    obtain ⟨j, hj⟩ := mem_iff_getElem?.1 hc
    rcases transSeg_moves cfg env rx pdu s j with heq | ⟨d, d', hd, hd', hlen, -⟩
    · exact h.length c (mem_of_getElem? (heq ▸ hj))
    · obtain rfl : c = d' := by
        rw [Mesh.segStep, hd'] at hj
        simpa using hj.symm
      rw [hlen]
      exact h.length d (mem_of_getElem? hd)
  | ackTimer i =>
    refine ⟨fun c hc => ?_, h.once.modify i fun c hu => ?_⟩
    · rcases mem_modify hc with hc | ⟨d, hd, rfl⟩
      · exact h.length c hc
      · obtain ⟨a, n, heq⟩ := ackTimer_eq cfg d
        rw [heq]
        exact h.length d hd
    · obtain ⟨a, n, heq⟩ := ackTimer_eq cfg c
      rw [heq] at hu ⊢
      exact ⟨rfl, rfl, hu⟩
  | discardTimer i =>
    refine ⟨fun c hc => ?_, h.once.modify i fun c hu => absurd hu (by simp [SegRx.reset])⟩
    rcases mem_modify hc with hc | ⟨d, hd, rfl⟩
    · exact h.length c hc
    · simpa [SegRx.reset] using h.length d hd

end Wf

end Mesh

end OpenBlue
