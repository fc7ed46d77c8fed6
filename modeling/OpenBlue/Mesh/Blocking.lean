import OpenBlue.Mesh.SeqAuth
/-!
# Mesh — one segmented transfer to a peer at a time

A message to a peer that already has a transfer under way waits in its
context, blocked, and the end of a transfer unblocks one of those that
wait for the same peer. Of a context only its face matters here: the
pair, whether it waits and whether it is in use. Every step leaves the
faces as they are, opens a transfer, or ends one; and the end of a
transfer that itself still waited lets a second one in.
-/

namespace OpenBlue

namespace Mesh

open List SegTx

/-! ## Faces -/

/-- What blocking reads of a transmit context. -/
structure Face where
  src : ℕ
  dst : ℕ
  blocked : Bool
  busy : Bool
  deriving DecidableEq, Repr

/-- The face of a context that `seg_tx_reset` has cleared. -/
def Face.free : Face := ⟨0, 0, false, false⟩

def SegTx.face (t : SegTx) : Face := ⟨t.src, t.dst, t.blocked, t.nackCount != 0⟩

/-- A transfer under way. -/
def Face.Active (f : Face) : Prop := f.busy = true ∧ f.blocked = false

/-- Two contexts to the same peer, from the same element. -/
def Face.Peer (f g : Face) : Prop := f.src = g.src ∧ f.dst = g.dst

/-- **One active transfer for each pair, and none stranded.** -/
structure OneActive (fs : List Face) : Prop where
  once : ∀ (i j : ℕ) (f g : Face), fs[i]? = some f → fs[j]? = some g → f.Active → g.Active → f.Peer g → i = j
  served : ∀ f ∈ fs, f.blocked = true → ∃ g ∈ fs, g.Active ∧ g.Peer f

/-- Only a context in use waits, and one not in use has no peer. -/
structure Faced (fs : List Face) : Prop where
  waits : ∀ f ∈ fs, f.blocked = true → f.busy = true
  idle : ∀ f ∈ fs, f.busy = false → f = .free

def Trans.faces (s : Trans) : List Face := s.segTx.map SegTx.face

variable {cfg : TransCfg} {env : SendEnv} {s s' : Trans} {t t' : SegTx} {i j : ℕ}
variable {f g x : Face} {fs fs' : List Face}

@[simp] theorem faces_getElem? : s.faces[i]? = s.segTx[i]?.map face := getElem?_map

theorem Face.Peer.symm (h : f.Peer g) : g.Peer f := ⟨h.1.symm, h.2.symm⟩

theorem Face.Peer.trans {k : Face} (h : f.Peer g) (h' : g.Peer k) : f.Peer k :=
  ⟨h.1.trans h'.1, h.2.trans h'.2⟩

theorem faces_modify {m : SegTx → SegTx} {φ : Face → Face}
    (hface : ∀ t, (m t).face = φ t.face) (net : Net) :
    ({ net := net, segTx := s.segTx.modify i m } : Trans).faces = s.faces.modify i φ := by
  refine ext_getElem? fun k => ?_
  rw [faces_getElem?, getElem?_modify, getElem?_modify, faces_getElem?]
  cases s.segTx[k]? with
  | none => rfl
  | some t =>
    simp only [Option.map_eq_map, Option.map_some]
    split
    · rw [hface]
    · rfl

theorem modify_eq_set {φ : Face → Face} (hi : fs[i]? = some f) :
    fs.modify i φ = fs.set i (φ f) := by
  obtain ⟨hlt, rfl⟩ := List.getElem?_eq_some_iff.1 hi
  refine ext_getElem? fun k => ?_
  rw [getElem?_modify, getElem?_set]
  by_cases hk : i = k
  · subst hk
    simp [hlt]
  · simp [hk]

theorem set_self (hi : fs[i]? = some f) : fs.set i f = fs := by
  obtain ⟨hlt, rfl⟩ := List.getElem?_eq_some_iff.1 hi
  exact set_getElem_self hlt

theorem faces_set (net : Net) :
    ({ net := net, segTx := s.segTx.set i t } : Trans).faces = s.faces.set i t.face :=
  map_set

theorem faces_put (hi : s.segTx[i]? = some t) (hface : t'.face = t.face) :
    (s.put i t').faces = s.faces := by
  rw [Trans.put, faces_set, hface]
  exact set_self (by rw [faces_getElem?, hi]; rfl)

/-! ## The end of a transfer -/

/-- What `seg_tx_unblock_check` looks for beside context `i`: a context
that waits for the same peer. -/
def Waits (i : ℕ) (f : Face) (fs : List Face) (j : ℕ) (g : Face) : Prop :=
  j ≠ i ∧ fs[j]? = some g ∧ g.blocked = true ∧ g.Peer f

/-- **The end of the transfer in context `i`**: the context is free, and one
that waits for its peer, where there is one, is let in. -/
inductive Ended (i : ℕ) (f : Face) (fs : List Face) : List Face → Prop
  | alone (hnone : ∀ j g, ¬ Waits i f fs j g) : Ended i f fs (fs.set i .free)
  | next {j : ℕ} {g : Face} (hwaits : Waits i f fs j g) :
      Ended i f fs ((fs.set j { g with blocked := false }).set i .free)

theorem findBlocked_none {tx : SegTx} {k : ℕ} {best : Option (ℕ × ℕ)} {ts : List SegTx}
    (h : findBlocked i tx k best ts = none) : best = none ∧ ∀ m u, ts[m]? = some u →
      ¬ (k + m ≠ i ∧ u.blocked = true ∧ tx.blocks u.src u.dst = true) := by
  induction ts generalizing k best with
  | nil =>
    rw [findBlocked, Option.map_eq_none_iff] at h
    exact ⟨h, nofun⟩
  | cons t ts ih =>
    rw [findBlocked] at h
    split at h
    next => exact nomatch (ih h).1
    next hno =>
      obtain ⟨rfl, hrest⟩ := ih h
      refine ⟨rfl, fun m u hm => ?_⟩
      cases m with
      | zero =>
        obtain rfl := Option.some.inj hm
        exact fun hin => hno ⟨hin.1, hin.2.1, hin.2.2, rfl⟩
      | succ m =>
        have := hrest m u hm
        rwa [Nat.add_right_comm, Nat.add_assoc] at this

theorem findBlocked_some {tx : SegTx} {k r : ℕ} {best : Option (ℕ × ℕ)} {ts : List SegTx}
    (h : findBlocked i tx k best ts = some r) :
    best.map (·.1) = some r ∨ ∃ m u, r = k + m ∧ ts[m]? = some u ∧ r ≠ i ∧ u.blocked = true ∧
      tx.blocks u.src u.dst = true := by
  induction ts generalizing k best with
  | nil => exact .inl h
  | cons t ts ih =>
    rw [findBlocked] at h
    have hskip (m : ℕ) : k + 1 + m = k + (m + 1) := by omega
    split at h
    next hyes =>
      rcases ih h with hbest | ⟨m, u, hr, hu⟩
      · obtain rfl : k = r := Option.some.inj hbest
        exact .inr ⟨0, t, rfl, rfl, hyes.1, hyes.2.1, hyes.2.2.1⟩
      · exact .inr ⟨m + 1, u, hr.trans (hskip m), hu⟩
    next =>
      rcases ih h with hbest | ⟨m, u, hr, hu⟩
      · exact .inl hbest
      · exact .inr ⟨m + 1, u, hr.trans (hskip m), hu⟩

theorem faces_segTxReset (cfg : TransCfg) (i : ℕ) (s : Trans) :
    (segTxReset cfg i s).faces = s.faces.modify i fun _ => .free :=
  faces_modify (fun _ => rfl) _

/-- **`seg_tx_complete` ends a transfer.** -/
theorem ended_segTxComplete (cfg : TransCfg) (hi : s.segTx[i]? = some t) :
    Ended i t.face s.faces (segTxComplete cfg i s).faces := by
  have hface : s.faces[i]? = some t.face := by
    rw [faces_getElem?, hi]
    rfl
  have hblocks (u : SegTx) : t.blocks u.src u.dst = true ↔ u.face.Peer t.face := by
    simp only [blocks, Bool.and_eq_true, beq_iff_eq]
    exact ⟨fun h => ⟨h.1.symm, h.2.symm⟩, fun h => ⟨h.1.symm, h.2.symm⟩⟩
  rw [segTxComplete, faces_segTxReset, segTxUnblockCheck, hi]
  dsimp only
  cases hfind : findBlocked i t 0 none s.segTx with
  | none =>
    dsimp only
    rw [modify_eq_set hface]
    refine .alone fun j g hw => ?_
    obtain ⟨hne, hj, hblocked, hpeer⟩ := hw
    rw [faces_getElem?] at hj
    obtain ⟨u, hu, rfl⟩ := Option.map_eq_some_iff.1 hj
    refine (findBlocked_none hfind).2 j u hu ⟨?_, hblocked, (hblocks u).2 hpeer⟩
    rwa [Nat.zero_add]
  | some r =>
    obtain hbest | ⟨m, u, hr, hu, hne, hblocked, hpeer⟩ := findBlocked_some hfind
    · exact nomatch hbest
    · rw [Nat.zero_add] at hr
      subst hr
      have hw : Waits i t.face s.faces r u.face :=
        ⟨hne, by rw [faces_getElem?, hu]; rfl, hblocked, (hblocks u).1 hpeer⟩
      dsimp only
      rw [faces_modify (φ := fun g => { g with blocked := false }) (fun _ => rfl),
        modify_eq_set hw.2.1, modify_eq_set (f := t.face)]
      · exact .next hw
      · rwa [getElem?_set_ne hne]

theorem lt_of_getElem? (hi : fs[i]? = some f) : i < fs.length :=
  (List.getElem?_eq_some_iff.1 hi).1

theorem set_getElem?_cases (hg : (fs.set i x)[j]? = some g) :
    i = j ∧ x = g ∨ i ≠ j ∧ fs[j]? = some g := by
  rw [getElem?_set] at hg
  split at hg
  next hij =>
    split at hg
    · exact .inl ⟨hij, Option.some.inj hg⟩
    · exact nomatch hg
  next hij => exact .inr ⟨hij, hg⟩

theorem Faced.set (h : Faced fs) (hwaits : x.blocked = true → x.busy = true)
    (hidle : x.busy = false → x = .free) : Faced (fs.set i x) := by
  refine ⟨fun f hf => ?_, fun f hf => ?_⟩
  · obtain hf | rfl := mem_or_eq_of_mem_set hf
    · exact h.waits f hf
    · exact hwaits
  · obtain hf | rfl := mem_or_eq_of_mem_set hf
    · exact h.idle f hf
    · exact hidle

theorem Faced.ended (h : Faced fs) (he : Ended i f fs fs') : Faced fs' := by
  cases he with
  | alone hnone => exact h.set nofun fun _ => rfl
  | next hw =>
    obtain ⟨-, hj, hblocked, -⟩ := hw
    have hbusy := h.waits _ (mem_of_getElem? hj) hblocked
    refine Faced.set (h.set ?_ fun hidle => ?_) nofun fun _ => rfl
    · exact fun _ => hbusy
    · exact nomatch hbusy.symm.trans hidle

theorem OneActive.alone (h : OneActive fs) (hi : fs[i]? = some f)
    (hnone : ∀ j g, ¬ Waits i f fs j g) : OneActive (fs.set i .free) := by
  refine ⟨fun a b u v ha hb hu hv => ?_, fun u hu hblocked => ?_⟩
  · obtain ⟨-, rfl⟩ | ⟨-, ha⟩ := set_getElem?_cases ha
    · exact nomatch hu.1
    obtain ⟨-, rfl⟩ | ⟨-, hb⟩ := set_getElem?_cases hb
    · exact nomatch hv.1
    exact h.once a b u v ha hb hu hv
  · obtain ⟨a, ha⟩ := mem_iff_getElem?.1 hu
    obtain ⟨-, rfl⟩ | ⟨hai, ha⟩ := set_getElem?_cases ha
    · exact nomatch hblocked
    obtain ⟨g, hg, hactive, hpeer⟩ := h.served u (mem_of_getElem? ha) hblocked
    obtain ⟨b, hb⟩ := mem_iff_getElem?.1 hg
    have hbi : i ≠ b := by
      rintro rfl
      obtain rfl := Option.mem_unique hi hb
      exact hnone a u ⟨hai.symm, ha, hblocked, hpeer.symm⟩
    exact ⟨g, mem_of_getElem? (by rwa [getElem?_set_ne hbi]), hactive, hpeer⟩

theorem OneActive.next (h : OneActive fs) (hf : Faced fs) (hi : fs[i]? = some f)
    (hactive : f.Active) (hw : Waits i f fs j g) :
    OneActive ((fs.set j { g with blocked := false }).set i .free) := by
  obtain ⟨hji, hj, hblocked, hpeer⟩ := hw
  have hbusy := hf.waits g (mem_of_getElem? hj) hblocked
  -- an active transfer to this peer in the list was the one that ends
  have honly : ∀ a u, fs[a]? = some u → u.Active → u.Peer g → a = i := fun a u ha hu hp =>
    h.once a i u f ha hi hu hactive (hp.trans hpeer)
  refine ⟨fun a b u v ha hb hu hv hp => ?_, fun u hu hwait => ?_⟩
  · obtain ⟨-, rfl⟩ | ⟨hai, ha⟩ := set_getElem?_cases ha
    · exact nomatch hu.1
    obtain ⟨-, rfl⟩ | ⟨hbi, hb⟩ := set_getElem?_cases hb
    · exact nomatch hv.1
    obtain ⟨rfl, rfl⟩ | ⟨-, ha⟩ := set_getElem?_cases ha <;>
      obtain ⟨rfl, rfl⟩ | ⟨-, hb⟩ := set_getElem?_cases hb
    · rfl
    · exact absurd (honly b v hb hv hp.symm).symm hbi
    · exact absurd (honly a u ha hu hp).symm hai
    · exact h.once a b u v ha hb hu hv hp
  · obtain ⟨a, ha⟩ := mem_iff_getElem?.1 hu
    obtain ⟨-, rfl⟩ | ⟨hai, ha⟩ := set_getElem?_cases ha
    · exact nomatch hwait
    obtain ⟨-, rfl⟩ | ⟨haj, ha⟩ := set_getElem?_cases ha
    · exact nomatch hwait
    obtain ⟨k, hk, hkactive, hkpeer⟩ := h.served u (mem_of_getElem? ha) hwait
    obtain ⟨b, hb⟩ := mem_iff_getElem?.1 hk
    by_cases hbi : i = b
    · subst hbi
      obtain rfl := Option.mem_unique hi hb
      refine ⟨{ g with blocked := false }, mem_of_getElem? (i := j) ?_, ⟨hbusy, rfl⟩,
        hpeer.trans hkpeer⟩
      rw [getElem?_set_ne hji.symm, getElem?_set_self (lt_of_getElem? hj)]
    · have hbj : j ≠ b := by
        rintro rfl
        obtain rfl := Option.mem_unique hj hb
        exact absurd (hblocked.symm.trans hkactive.2) nofun
      exact ⟨k, mem_of_getElem? (by
        rwa [getElem?_set_ne hbi, getElem?_set_ne hbj]), hkactive, hkpeer⟩

theorem OneActive.not_next (h : OneActive fs) (hf : Faced fs) (hi : fs[i]? = some f)
    (hwaiting : f.blocked = true) (hw : Waits i f fs j g) :
    ¬ OneActive ((fs.set j { g with blocked := false }).set i .free) := by
  intro hafter
  obtain ⟨hji, hj, hblocked, hpeer⟩ := hw
  have hbusy := hf.waits g (mem_of_getElem? hj) hblocked
  obtain ⟨k, hk, hkactive, hkpeer⟩ := h.served g (mem_of_getElem? hj) hblocked
  obtain ⟨b, hb⟩ := mem_iff_getElem?.1 hk
  have hbi : i ≠ b := by
    rintro rfl
    obtain rfl := Option.mem_unique hi hb
    exact absurd (hwaiting.symm.trans hkactive.2) nofun
  have hbj : j ≠ b := by
    rintro rfl
    obtain rfl := Option.mem_unique hj hb
    exact absurd (hblocked.symm.trans hkactive.2) nofun
  refine hbj (hafter.once j b { g with blocked := false } k ?_ ?_ ⟨hbusy, rfl⟩ hkactive
    hkpeer.symm)
  · rw [getElem?_set_ne hji.symm, getElem?_set_self (lt_of_getElem? hj)]
  · rwa [getElem?_set_ne hbi, getElem?_set_ne hbj]

/-- **The end of a transfer keeps one active transfer for each pair, unless
the transfer itself still waited and so does another for its peer.** -/
theorem Ended.oneActive_iff (he : Ended i f fs fs') (hi : fs[i]? = some f) (hbusy : f.busy = true)
    (h : OneActive fs) (hf : Faced fs) :
    OneActive fs' ↔ ¬ (f.blocked = true ∧ ∃ j g, Waits i f fs j g) := by
  cases he with
  | alone hnone =>
    exact iff_of_true (h.alone hi hnone) fun hin => hin.2.elim fun j hj =>
      hj.elim fun g hg => hnone j g hg
  | @next j g hw =>
    by_cases hwaiting : f.blocked = true
    · exact iff_of_false (h.not_next hf hi hwaiting hw) fun hno => hno ⟨hwaiting, j, g, hw⟩
    · exact iff_of_true (h.next hf hi ⟨hbusy, Bool.eq_false_iff.2 hwaiting⟩ hw) fun hin =>
        hwaiting hin.1

/-! ## Transmission -/

theorem netSend_faces (auth : ℕ) (pdu : Bytes) :
    (netSend cfg env auth pdu s).s.faces = s.faces := by
  rw [netSend]
  split <;> rfl

theorem netSend_segTx (auth : ℕ) (pdu : Bytes) :
    (netSend cfg env auth pdu s).s.segTx = s.segTx := by
  rw [netSend]
  split <;> rfl

theorem sendSegment_faces (o : ℕ) (hi : s.segTx[i]? = some t) :
    (sendSegment cfg env i t o s).s.faces = s.faces := by
  simp only [sendSegment]
  split
  · exact faces_put hi (by rfl)
  · have hi' (auth : ℕ) (pdu : Bytes) : (netSend cfg env auth pdu s).s.segTx[i]? = some t := by
      rwa [netSend_segTx]
    split
    · exact (faces_put (hi' _ _) (by rfl)).trans (netSend_faces _ _)
    · exact (faces_put (hi' _ _) (by rfl)).trans (netSend_faces _ _)

/-- The retransmit timer finds the transfer out of attempts. -/
def SegTx.Exhausted (t : SegTx) : Prop :=
  t.nackCount ≠ 0 ∧
    ((isUnicast t.dst && t.attemptsLeftWithoutProgress == 0) = true ∨ t.attemptsLeft = 0)

/-- **`seg_tx_send_unacked` ends a transfer out of attempts** and leaves the
faces alone otherwise. -/
theorem segTxSendUnacked_faces (cfg : TransCfg) (env : SendEnv) (hi : s.segTx[i]? = some t) :
    t.Exhausted ∧ (segTxSendUnacked cfg env i s).s = segTxComplete cfg i s ∨
      ¬ t.Exhausted ∧ (segTxSendUnacked cfg env i s).s.faces = s.faces := by
  rw [segTxSendUnacked, hi]
  dsimp only
  split
  next hnack => exact .inr ⟨fun hin => hin.1 hnack, rfl⟩
  next hnack =>
    split
    next hprog => exact .inl ⟨⟨hnack, .inl hprog⟩, rfl⟩
    next hprog =>
      split
      next hatt => exact .inl ⟨⟨hnack, .inr hatt⟩, rfl⟩
      next hatt =>
        refine .inr ⟨fun hin => hin.2.elim hprog hatt, ?_⟩
        split
        · exact faces_put hi (by rfl)
        · exact sendSegment_faces _ hi

/-! ## Sending -/

variable {tx : NetTx} {sdu : Bytes} {ctlOp : Option ℕ}

theorem segTxScan_spec {src dst k : ℕ} {b b' : Bool} {free : Option ℕ} {ts : List SegTx}
    (h : segTxScan src dst k (b, free) ts = (b', some i)) :
    (b' = true ↔ b = true ∨ ∃ t ∈ ts, t.nackCount ≠ 0 ∧ t.blocks src dst = true) ∧
      (free = some i ∨ ∃ m t, i = k + m ∧ ts[m]? = some t ∧ t.nackCount = 0) := by
  induction ts generalizing k b free with
  | nil =>
    obtain ⟨rfl, rfl⟩ := Prod.mk.inj h
    exact ⟨by simp, .inl rfl⟩
  | cons t ts ih =>
    have hskip (m : ℕ) : k + 1 + m = k + (m + 1) := by omega
    rw [segTxScan] at h
    split at h
    next hbusy =>
      obtain ⟨hb, hfree⟩ := ih h
      refine ⟨?_, ?_⟩
      · rw [hb, Bool.or_eq_true, or_assoc]
        simp [hbusy]
      · refine hfree.imp_right ?_
        rintro ⟨m, u, hm, hu⟩
        exact ⟨m + 1, u, hm.trans (hskip m), hu⟩
    next hidle =>
      obtain ⟨hb, hfree⟩ := ih h
      refine ⟨?_, ?_⟩
      · rw [hb]
        simp [hidle]
      · obtain hfree | ⟨m, u, hm, hu⟩ := hfree
        · cases free with
          | none =>
            obtain rfl : k = i := by simpa using hfree
            exact .inr ⟨0, t, rfl, rfl, not_not.1 hidle⟩
          | some j => exact .inl (by simpa using hfree)
        · exact .inr ⟨m + 1, u, hm.trans (hskip m), hu⟩

/-- A transfer that is opened waits exactly where its peer has one. -/
structure Opened (i : ℕ) (f : Face) (fs : List Face) : Prop where
  free : fs[i]? = some .free
  busy : f.busy = true
  blocked : f.blocked = true ↔ ∃ g ∈ fs, g.busy = true ∧ g.Peer f

theorem Opened.faced (ho : Opened i f fs) (h : Faced fs) : Faced (fs.set i f) :=
  h.set (fun _ => ho.busy) fun hidle => by
    rw [ho.busy] at hidle
    exact nomatch hidle

/-- **Opening a transfer keeps one active transfer for each pair.** -/
theorem Opened.oneActive (ho : Opened i f fs) (h : OneActive fs) : OneActive (fs.set i f) := by
  have hlt := lt_of_getElem? ho.free
  -- what serves another context is not the free one
  have hkeep : ∀ g ∈ fs, g.Active → g ∈ fs.set i f := by
    intro g hg hactive
    obtain ⟨a, ha⟩ := mem_iff_getElem?.1 hg
    have hai : i ≠ a := by
      rintro rfl
      obtain rfl := Option.mem_unique ho.free ha
      exact nomatch hactive.1
    exact mem_of_getElem? (by rwa [getElem?_set_ne hai])
  refine ⟨fun a b u v ha hb hu hv hp => ?_, fun u hu hwait => ?_⟩
  · obtain ⟨rfl, rfl⟩ | ⟨-, ha⟩ := set_getElem?_cases ha <;>
      obtain ⟨rfl, rfl⟩ | ⟨-, hb⟩ := set_getElem?_cases hb
    · rfl
    · have hblocked := ho.blocked.2 ⟨v, mem_of_getElem? hb, hv.1, hp.symm⟩
      exact absurd (hblocked.symm.trans hu.2) nofun
    · have hblocked := ho.blocked.2 ⟨u, mem_of_getElem? ha, hu.1, hp⟩
      exact absurd (hblocked.symm.trans hv.2) nofun
    · exact h.once a b u v ha hb hu hv hp
  · obtain hu | rfl := mem_or_eq_of_mem_set hu
    · obtain ⟨g, hg, hactive, hpeer⟩ := h.served u hu hwait
      exact ⟨g, hkeep g hg hactive, hactive, hpeer⟩
    · obtain ⟨g, hg, hbusy, hpeer⟩ := ho.blocked.1 hwait
      cases hblocked : g.blocked with
      | false => exact ⟨g, hkeep g hg ⟨hbusy, hblocked⟩, ⟨hbusy, hblocked⟩, hpeer⟩
      | true =>
        obtain ⟨k, hk, hactive, hkpeer⟩ := h.served g hg hblocked
        exact ⟨k, hkeep k hk hactive, hactive, hkpeer.trans hpeer⟩

/-- What `send_seg` shows: nothing, a transfer opened, or one opened that
ends at once. -/
inductive Sent (fs fs' : List Face) : Prop
  | same (heq : fs' = fs)
  | opened (i : ℕ) (f : Face) (ho : Opened i f fs) (heq : fs' = fs.set i f)
  | ended (i : ℕ) (f : Face) (ho : Opened i f fs) (hblocked : f.blocked = false)
      (he : Ended i f (fs.set i f) fs')

theorem sendSeg_faces (cfg : TransCfg) (env : SendEnv) (tx : NetTx) (sdu : Bytes)
    (ctlOp : Option ℕ) (h : Faced s.faces) :
    Sent s.faces (sendSeg cfg env tx sdu ctlOp s).s.faces := by
  rcases hscan : segTxScan tx.src tx.addr 0 (false, none) s.segTx with ⟨b, - | i⟩
  · simp only [sendSeg, hscan]
    exact .same rfl
  obtain ⟨hblocked, hfree⟩ := segTxScan_spec hscan
  obtain ⟨m, u, him, hu, hidle⟩ := hfree.resolve_left (by simp)
  rw [Nat.zero_add] at him
  subst him
  let f : Face := ⟨tx.src, tx.addr, b, true⟩
  have hface : s.faces[i]? = some .free := by
    rw [faces_getElem?, hu, Option.map_some, h.idle u.face ?_ ?_]
    · exact mem_map_of_mem (mem_of_getElem? hu)
    · simp [face, hidle]
  have hopened : Opened i f s.faces := by
    refine ⟨hface, rfl, hblocked.trans ?_⟩
    rw [or_iff_right Bool.false_ne_true]
    constructor
    · rintro ⟨t, ht, hbusy, hblocks⟩
      simp only [blocks, Bool.and_eq_true, beq_iff_eq] at hblocks
      exact ⟨t.face, mem_map_of_mem ht, bne_iff_ne.2 hbusy, hblocks⟩
    · rintro ⟨g, hg, hbusy, hpeer⟩
      obtain ⟨t, ht, rfl⟩ := mem_map.1 hg
      refine ⟨t, ht, bne_iff_ne.1 hbusy, ?_⟩
      simp only [blocks, Bool.and_eq_true, beq_iff_eq]
      exact hpeer
  obtain ⟨hlt, -⟩ := List.getElem?_eq_some_iff.1 hu
  have hput (t : SegTx) (ht : t.face = f) : (s.put i t).faces = s.faces.set i f := by
    rw [Trans.put, faces_set, ht]
  have hreset (t : SegTx) : (segTxReset cfg i (s.put i t)).faces = s.faces := by
    rw [faces_segTxReset, Trans.put, faces_set, modify_eq_set (f := t.face)]
    · rw [List.set_set, set_self hface]
    · exact getElem?_set_self (lt_of_getElem? hface)
  simp only [sendSeg, hscan]
  split
  · exact .same (hreset _)
  · split
    · exact .same (hreset _)
    · split
      · exact .same (hreset _)
      · split
        · exact .opened i f hopened (hput _ rfl)
        next hb =>
          have hget (t : SegTx) : (s.put i t).segTx[i]? = some t := getElem?_set_self hlt
          rcases segTxSendUnacked_faces cfg env (hget _) with ⟨-, heq⟩ | ⟨-, heq⟩
          · rw [heq]
            have hended := ended_segTxComplete cfg (hget ((segTxSetup cfg tx sdu ctlOp b s.net
              (s.segTx.getD i default)).cut cfg env tx sdu).1)
            rw [hput _ rfl] at hended
            exact .ended i f hopened (Bool.eq_false_iff.2 hb) hended
          · exact .opened i f hopened (heq.trans (hput _ rfl))

theorem Sent.faced (hs : Sent fs fs') (h : Faced fs) : Faced fs' := by
  cases hs with
  | same heq => rwa [heq]
  | opened i f ho heq => exact heq ▸ ho.faced h
  | ended i f ho _ he => exact (ho.faced h).ended he

theorem Sent.oneActive (hs : Sent fs fs') (h : OneActive fs) (hf : Faced fs) : OneActive fs' := by
  cases hs with
  | same heq => rwa [heq]
  | opened i f ho heq => exact heq ▸ ho.oneActive h
  | ended i f ho hblocked he =>
    refine (he.oneActive_iff (getElem?_set_self (lt_of_getElem? ho.free)) ho.busy
      (ho.oneActive h) (ho.faced hf)).2 fun hin => ?_
    exact absurd (hblocked.symm.trans hin.1) nofun

theorem sendSdu_faces (cfg : TransCfg) (env : SendEnv) (tx : NetTx) (sdu : Bytes)
    (ctlOp : Option ℕ) (h : Faced s.faces) :
    Sent s.faces (sendSdu cfg env tx sdu ctlOp s).s.faces := by
  rw [sendSdu]
  split
  · exact sendSeg_faces cfg env tx sdu ctlOp h
  · simp only [sendUnseg]
    split
    · exact .same rfl
    · split
      · exact .same rfl
      · split
        · exact .same rfl
        · exact .same (netSend_faces _ _)

/-! ## Acknowledgements -/

/-- The ack ends the transfer: it cancels it, or acknowledges all the
segments still held. -/
def SegTx.EndedBy (t : SegTx) (ack : ℕ) : Prop :=
  isUnicast t.dst = true ∧ (ack = 0 ∨ ack.log2 ≤ t.segN ∧ (t.acked ack).nackCount = 0)

theorem Ended.of_set (hsrc : g.src = f.src) (hdst : g.dst = f.dst)
    (h : Ended i g (fs.set i g) fs') : Ended i f fs fs' := by
  have hwaits (j : ℕ) (x : Face) : Waits i g (fs.set i g) j x ↔ Waits i f fs j x := by
    refine and_congr_right fun hne => ?_
    rw [getElem?_set_ne hne.symm, Face.Peer, Face.Peer, hsrc, hdst]
  cases h with
  | alone hnone =>
    rw [List.set_set]
    exact .alone fun j x hw => hnone j x ((hwaits j x).2 hw)
  | @next j x hw =>
    rw [set_comm _ _ hw.1.symm, List.set_set]
    exact .next ((hwaits j x).1 hw)

/-- The context once the acked segments are gone. -/
def SegTx.ackedBy (cfg : TransCfg) (ack : ℕ) (t : SegTx) : SegTx :=
  if (List.range 32).any fun o => ack.testBit o && (t.seg.getD o none).isSome then
    { t.acked ack with
      attemptsLeftWithoutProgress := cfg.unicastRetransWithoutProgCount + 1 }
  else t.acked ack

/-- A transfer with segments left goes on. -/
def SegTx.goOn (t : SegTx) : SegTx :=
  if t.segO = 0 then { t with timer := true } else { t with ackReceived := true }

theorem ackContext_eq (cfg : TransCfg) (ack : ℕ) (hget : s.segTx.getD i default = t) :
    ackContext cfg i ack s = if !isUnicast t.dst then (s, some .inval)
      else if ack = 0 then (segTxComplete cfg i s, none)
      else if ack.log2 > t.segN then (s, some .inval)
      else if (t.ackedBy cfg ack).nackCount ≠ 0 then (s.put i (t.ackedBy cfg ack).goOn, none)
      else (segTxComplete cfg i (s.put i (t.ackedBy cfg ack)), none) := by
  subst hget
  rfl

theorem ackedBy_nackCount (cfg : TransCfg) (ack : ℕ) (t : SegTx) :
    (t.ackedBy cfg ack).nackCount = (t.acked ack).nackCount := by
  rw [ackedBy]
  split <;> rfl

theorem ackedBy_peer (cfg : TransCfg) (ack : ℕ) (t : SegTx) :
    (t.ackedBy cfg ack).src = t.src ∧ (t.ackedBy cfg ack).dst = t.dst ∧
      (t.ackedBy cfg ack).blocked = t.blocked := by
  rw [ackedBy]
  split <;> exact ⟨rfl, rfl, rfl⟩

theorem face_goOn (t : SegTx) : t.goOn.face = t.face := by
  rw [goOn]
  split <;> rfl

/-- **An ack ends a transfer or leaves the faces alone.** -/
theorem ackContext_faces (cfg : TransCfg) (ack : ℕ) (hi : s.segTx[i]? = some t) :
    t.EndedBy ack ∧ Ended i t.face s.faces (ackContext cfg i ack s).1.faces ∨
      ¬ t.EndedBy ack ∧ (ackContext cfg i ack s).1.faces = s.faces := by
  obtain ⟨hlt, -⟩ := List.getElem?_eq_some_iff.1 hi
  have hget : s.segTx.getD i default = t := by
    rw [getD_eq_getElem?_getD, hi]
    rfl
  obtain ⟨hsrc, hdst, hblocked⟩ := ackedBy_peer cfg ack t
  have hnack := ackedBy_nackCount cfg ack t
  rw [ackContext_eq cfg ack hget]
  split
  next hgroup => exact .inr ⟨fun hin => by simp [hin.1] at hgroup, rfl⟩
  next hgroup =>
    have hunicast : isUnicast t.dst = true := by simpa using hgroup
    split
    next hzero => exact .inl ⟨⟨hunicast, .inl hzero⟩, ended_segTxComplete cfg hi⟩
    next hzero =>
      split
      next hlarge =>
        refine .inr ⟨fun hin => ?_, rfl⟩
        exact absurd (hin.2.resolve_left hzero).1 (by omega)
      next hlarge =>
        split
        next hleft =>
          rw [hnack] at hleft
          have hbusy : t.nackCount ≠ 0 := fun hz => hleft (by simp [acked, hz])
          refine .inr ⟨fun hin => hleft (hin.2.resolve_left hzero).2, faces_put hi ?_⟩
          rw [face_goOn]
          simp only [face, hsrc, hdst, hblocked, hnack, bne_iff_ne.2 hleft, bne_iff_ne.2 hbusy]
        next hleft =>
          rw [hnack, not_not] at hleft
          have hended := ended_segTxComplete cfg (s := s.put i (t.ackedBy cfg ack))
            (getElem?_set_self hlt)
          rw [Trans.put, faces_set] at hended
          exact .inl ⟨⟨hunicast, .inr ⟨by omega, hleft⟩⟩, hended.of_set hsrc hdst⟩

/-! ## Every run -/

/-- Context `i` waits itself, and so does another for the same peer. -/
def Trans.WaitsTwice (s : Trans) (i : ℕ) (t : SegTx) : Prop :=
  t.blocked = true ∧ ∃ (j : ℕ) (u : SegTx), j ≠ i ∧ s.segTx[j]? = some u ∧ u.blocked = true ∧
    u.src = t.src ∧ u.dst = t.dst

/-- **A step that ends no transfer that still waits, unless it is the only
one that waits for its peer.** -/
def EndsInTurn (s : Trans) : TransEvent → Prop
  | .retransmit _ i => ∀ t, s.segTx[i]? = some t → t.Exhausted → ¬ s.WaitsTwice i t
  | .ack addr obo sz ack => ∀ i viaFriend, segTxLookup sz obo addr 0 s.segTx = some (i, viaFriend) →
      ∀ t, s.segTx[i]? = some t → t.EndedBy ack → ¬ s.WaitsTwice i t
  | _ => True

theorem waitsTwice_iff :
    s.WaitsTwice i t ↔ t.face.blocked = true ∧ ∃ j g, Waits i t.face s.faces j g := by
  refine and_congr_right fun _ => ⟨?_, ?_⟩
  · rintro ⟨j, u, hne, hj, hblocked, hsrc, hdst⟩
    refine ⟨j, u.face, hne, ?_, hblocked, hsrc, hdst⟩
    rw [faces_getElem?, hj]
    rfl
  · rintro ⟨j, g, hne, hj, hblocked, hsrc, hdst⟩
    rw [faces_getElem?] at hj
    obtain ⟨u, hu, rfl⟩ := Option.map_eq_some_iff.1 hj
    exact ⟨j, u, hne, hu, hblocked, hsrc, hdst⟩

theorem face_busy : t.face.busy = true ↔ t.nackCount ≠ 0 := bne_iff_ne

theorem Faced.busy_of_endedBy (h : Faced s.faces) (hi : s.segTx[i]? = some t) {ack : ℕ}
    (hends : t.EndedBy ack) : t.face.busy = true := by
  by_contra hidle
  have hfree := h.idle t.face (mem_map_of_mem (mem_of_getElem? hi))
    (Bool.eq_false_iff.2 hidle)
  have hdst : t.dst = 0 := congrArg Face.dst hfree
  have hunicast := hends.1
  rw [hdst] at hunicast
  exact nomatch hunicast

theorem modify_same {m : SegTx → SegTx} (hface : ∀ t, (m t).face = t.face) (net : Net) :
    ({ net := net, segTx := s.segTx.modify i m } : Trans).faces = s.faces := by
  rw [faces_modify (φ := id) hface, modify_id]

theorem retransmit_cases (cfg : TransCfg) (env : SendEnv) (i : ℕ) (s : Trans) :
    EndsInTurn s (.retransmit env i) ∧ (transStep cfg s (.retransmit env i)).faces = s.faces ∨
      ∃ t, s.segTx[i]? = some t ∧ t.face.busy = true ∧
        Ended i t.face s.faces (transStep cfg s (.retransmit env i)).faces ∧
        (EndsInTurn s (.retransmit env i) ↔ ¬ s.WaitsTwice i t) := by
  have hsame : ({ s with segTx := s.segTx.modify i ({ · with timer := false }) } : Trans).faces =
      s.faces := modify_same (by exact fun _ => rfl) _
  cases hi : s.segTx[i]? with
  | none =>
    refine .inl ⟨fun t ht => (nomatch hi.symm.trans ht), ?_⟩
    rw [transStep, transRet, segTxSendUnacked, getElem?_modify_eq, hi]
    exact hsame
  | some t =>
    have hi' : ({ s with segTx := s.segTx.modify i ({ · with timer := false }) } : Trans).segTx[i]? =
        some { t with timer := false } := by
      rw [getElem?_modify_eq, hi]
      rfl
    have hturn : EndsInTurn s (.retransmit env i) ↔ (t.Exhausted → ¬ s.WaitsTwice i t) :=
      ⟨fun h => h t hi, fun h u hu => Option.mem_unique hi hu ▸ h⟩
    rcases segTxSendUnacked_faces cfg env hi' with ⟨hends, heq⟩ | ⟨hno, heq⟩
    · refine .inr ⟨t, rfl, face_busy.2 hends.1, ?_, ?_⟩
      · have hended := ended_segTxComplete cfg hi'
        rw [hsame, ← heq] at hended
        exact hended
      · exact hturn.trans ⟨fun h => h hends, fun h _ => h⟩
    · exact .inl ⟨hturn.2 fun hin => absurd hin hno, heq.trans hsame⟩

theorem ackContext_none (cfg : TransCfg) (ack : ℕ) (hi : s.segTx[i]? = none) :
    (ackContext cfg i ack s).1 = s := by
  have hget : s.segTx.getD i default = default := by
    rw [getD_eq_getElem?_getD, hi]
    rfl
  rw [ackContext_eq cfg ack hget]
  rfl

theorem transAck_found {addr sz ack : ℕ} {obo viaFriend : Bool} (cfg : TransCfg)
    (hfind : segTxLookup sz obo addr 0 s.segTx = some (i, viaFriend)) :
    ∃ s₀ : Trans, transAck cfg addr obo sz ack s = ackContext cfg i ack s₀ ∧
      (s.segTx[i]? = none → s₀.segTx[i]? = none) ∧
      (∀ t, s.segTx[i]? = some t → ∃ t₀, s₀.segTx[i]? = some t₀ ∧ t₀.face = t.face ∧
        (t₀.EndedBy ack ↔ t.EndedBy ack)) ∧ s₀.faces = s.faces := by
  rw [transAck, hfind]
  cases viaFriend with
  | false => exact ⟨s, rfl, id, fun t ht => ⟨t, ht, rfl, Iff.rfl⟩, rfl⟩
  | true =>
    refine ⟨_, rfl, fun hi => ?_, fun t hi => ⟨{ t with ackSrc := addr }, ?_, rfl, Iff.rfl⟩,
      modify_same (by exact fun _ => rfl) _⟩
    · rw [getElem?_modify_eq, hi]
      rfl
    · rw [getElem?_modify_eq, hi]
      rfl

theorem ack_cases (cfg : TransCfg) (addr : ℕ) (obo : Bool) (sz ack : ℕ) (hf : Faced s.faces) :
    EndsInTurn s (.ack addr obo sz ack) ∧ (transStep cfg s (.ack addr obo sz ack)).faces = s.faces ∨
      ∃ i t, s.segTx[i]? = some t ∧ t.face.busy = true ∧
        Ended i t.face s.faces (transStep cfg s (.ack addr obo sz ack)).faces ∧
        (EndsInTurn s (.ack addr obo sz ack) ↔ ¬ s.WaitsTwice i t) := by
  rcases hfind : segTxLookup sz obo addr 0 s.segTx with - | ⟨i, viaFriend⟩
  · refine .inl ⟨fun i b hin => ?_, by rw [transStep, transRet, transAck, hfind]⟩
    cases hfind.symm.trans hin
  have hturn (t : SegTx) (hi : s.segTx[i]? = some t) :
      EndsInTurn s (.ack addr obo sz ack) ↔ (t.EndedBy ack → ¬ s.WaitsTwice i t) := by
    refine ⟨fun h => h i viaFriend hfind t hi, fun h j b hj u hu => ?_⟩
    obtain ⟨rfl, -⟩ := Prod.mk.inj (Option.mem_unique hfind hj)
    exact Option.mem_unique hi hu ▸ h
  obtain ⟨s₀, hs₀, hnone, hsome, hsame⟩ := transAck_found cfg hfind
  rw [transStep, transRet, hs₀]
  cases hi : s.segTx[i]? with
  | none =>
    refine .inl ⟨fun j b hj u hu => ?_, ?_⟩
    · obtain ⟨rfl, -⟩ := Prod.mk.inj (Option.mem_unique hfind hj)
      cases hi.symm.trans hu
    · rw [ackContext_none cfg ack (hnone hi), hsame]
  | some t =>
    obtain ⟨t₀, ht₀, hface, hends⟩ := hsome t hi
    rcases ackContext_faces cfg ack ht₀ with ⟨hend, hended⟩ | ⟨hno, heq⟩
    · rw [hface, hsame] at hended
      refine .inr ⟨i, t, hi, hf.busy_of_endedBy hi (hends.1 hend), hended, ?_⟩
      exact (hturn t hi).trans ⟨fun h => h (hends.1 hend), fun h _ => h⟩
    · exact .inl ⟨(hturn t hi).2 fun hin => absurd (hends.2 hin) hno, heq.trans hsame⟩

/-- **What a step shows**: it opens a transfer at most, or ends one, in turn
or not. -/
theorem transStep_cases (cfg : TransCfg) (e : TransEvent) (hf : Faced s.faces) :
    EndsInTurn s e ∧ Sent s.faces (transStep cfg s e).faces ∨
      ∃ i t, s.segTx[i]? = some t ∧ t.face.busy = true ∧
        Ended i t.face s.faces (transStep cfg s e).faces ∧
        (EndsInTurn s e ↔ ¬ s.WaitsTwice i t) := by
  cases e with
  | send env tx msg tailroom =>
    refine .inl ⟨trivial, ?_⟩
    rw [transStep, transRet, transSend]
    split
    · exact .same rfl
    · exact sendSdu_faces cfg env _ _ none hf
  | ctl env tx op data =>
    refine .inl ⟨trivial, ?_⟩
    rw [transStep, transRet, ctlSend]
    split
    · exact .same rfl
    · exact sendSdu_faces cfg env _ data (some op) hf
  | retransmit env i =>
    obtain ⟨hturn, heq⟩ | ⟨t, h⟩ := retransmit_cases cfg env i s
    · exact .inl ⟨hturn, .same heq⟩
    · exact .inr ⟨i, t, h⟩
  | segSent i =>
    refine .inl ⟨trivial, .same (modify_same ?_ _)⟩
    intro t
    split <;> rfl
  | ack addr obo sz ack => exact (ack_cases cfg addr obo sz ack hf).imp_left fun h => ⟨h.1, .same h.2⟩
  | ivUpdate iv flag => exact .inl ⟨trivial, .same rfl⟩
  | ivuRefresh => exact .inl ⟨trivial, .same rfl⟩
  | transmit => exact .inl ⟨trivial, .same rfl⟩

theorem Faced.transStep (e : TransEvent) (hf : Faced s.faces) :
    Faced (transStep cfg s e).faces := by
  rcases transStep_cases cfg e hf with ⟨-, hsent⟩ | ⟨i, t, -, -, hended, -⟩
  · exact hsent.faced hf
  · exact hf.ended hended

/-- **One step** keeps one active transfer for each pair exactly when it
ends no transfer out of turn. -/
theorem transStep_oneActive_iff (e : TransEvent) (hf : Faced s.faces) (h : OneActive s.faces) :
    OneActive (transStep cfg s e).faces ↔ EndsInTurn s e := by
  rcases transStep_cases cfg e hf with ⟨hturn, hsent⟩ | ⟨i, t, hi, hbusy, hended, hturn⟩
  · exact iff_of_true (hsent.oneActive h hf) hturn
  · rw [hturn, waitsTwice_iff]
    exact hended.oneActive_iff (by rw [faces_getElem?, hi]; rfl) hbusy h hf

/-- **One segmented transfer to a peer at a time, and none stranded**,
throughout a run exactly when no transfer that still waits is ended by an
ack, or by its timer, while another waits for the same peer. -/
theorem one_active_iff (cfg : TransCfg) (net : Net) (contexts : ℕ) (es : List TransEvent) :
    (∀ es', es' <+: es → OneActive (run (transStep cfg) (transInit cfg net contexts) es').faces) ↔
      Along (transStep cfg) EndsInTurn (transInit cfg net contexts) es := by
  have hfree : ∀ f ∈ (transInit cfg net contexts).faces, f = .free := by
    intro f hf
    obtain ⟨t, ht, rfl⟩ := List.mem_map.1 hf
    rw [List.eq_of_mem_replicate ht]
    rfl
  refine prefix_iff_along (fun s : Trans => Faced s.faces) (fun s => OneActive s.faces)
    (fun s e => Faced.transStep e) (fun s e => transStep_oneActive_iff e) ?_ ?_ es
  · exact ⟨fun f hf => (hfree f hf) ▸ nofun, fun f hf _ => hfree f hf⟩
  · refine ⟨fun i j f g hi _ hactive _ _ => ?_, fun f hf hwait => ?_⟩
    · rw [hfree f (List.mem_of_getElem? hi)] at hactive
      exact nomatch hactive.1
    · rw [hfree f hf] at hwait
      exact nomatch hwait

/-- A message of two segments to node 2. -/
def sendTwo : TransEvent := .send plainEnv { src := 1, addr := 2 } (List.replicate 14 7) 4

/-- **Two transfers to one peer at once.** Of three messages to node 2 one
is under way and two wait. Node 2 cancels the second, which has not been
sent yet, and the third is let in beside the first. -/
theorem cancelled_in_wait :
    ¬ OneActive (run (transStep {}) (transInit {} (provision 2 false 5 true) 3)
      [sendTwo, sendTwo, sendTwo, .ack 2 false 1 0]).faces := by
  intro h
  exact absurd (h.once 0 2 ⟨1, 2, false, true⟩ ⟨1, 2, false, true⟩ (by decide +kernel)
    (by decide +kernel) ⟨rfl, rfl⟩ ⟨rfl, rfl⟩ ⟨rfl, rfl⟩) (by decide)

end Mesh

end OpenBlue
