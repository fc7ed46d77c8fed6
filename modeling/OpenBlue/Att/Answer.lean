import OpenBlue.Att.Prepare
import OpenBlue.Att.Model.Recv
/-!
# ATT — one answer to every request

What a handler puts on its bearer, counted: a handler that returns an
error has put nothing, and leaves the answer to the dispatcher; one that
returns none has put one PDU, or, by design, none where the client has
been told before that it is out of sync.
-/

namespace OpenBlue

namespace Att

open List Op Err

variable {σ : Type*}

/-- The PDUs among the events. -/
def answers (evs : List Ev) : ℕ :=
  evs.countP fun
    | .sent _ => true
    | _ => false

@[simp] theorem answers_nil : answers [] = 0 := rfl

@[simp] theorem answers_append (evs evs' : List Ev) :
    answers (evs ++ evs') = answers evs + answers evs' := countP_append

namespace Server

/-- From `s` to `s'`, `n` PDUs have been queued; what decides about
buffers is the same. -/
structure Serves (s s' : Server σ) (n : ℕ) : Prop where
  log : ∃ evs, s'.log = s.log ++ evs ∧ answers evs = n
  buffers : s'.buffers = s.buffers
  mtu : s'.mtu = s.mtu

/-- Every PDU asked for is allocated, on a bearer with a valid MTU. -/
structure Roomy (s : Server σ) : Prop where
  buffers : ∀ n, s.buffers n = true
  mtu : 23 ≤ s.mtu

variable {s : Server σ}

theorem Serves.rfl : s.Serves s 0 := ⟨⟨[], by simp, by simp⟩, Eq.refl _, Eq.refl _⟩

variable {t s' : Server σ}

theorem Serves.trans {n m : ℕ} (h : s.Serves s' n) (h' : s'.Serves t m) : s.Serves t (n + m) := by
  obtain ⟨evs, hlog, hcount⟩ := h.log
  obtain ⟨evs', hlog', hcount'⟩ := h'.log
  refine ⟨⟨evs ++ evs', ?_, ?_⟩, h'.buffers.trans h.buffers, h'.mtu.trans h.mtu⟩
  · rw [hlog', hlog, append_assoc]
  · rw [answers_append, hcount, hcount']

theorem Serves.silent {m : ℕ} (h : s.Serves s' 0) (h' : s'.Serves t m) : s.Serves t m := by
  have htrans := h.trans h'
  rwa [Nat.zero_add] at htrans

theorem Roomy.serves {n : ℕ} (h : s.Roomy) (hs : s.Serves s' n) : s'.Roomy where
  buffers := by rw [hs.buffers]; exact h.buffers
  mtu := by rw [hs.mtu]; exact h.mtu

theorem serves_changeAware (s : Server σ) (req : Bool) : s.Serves (s.changeAware req).2 0 := by
  simp only [changeAware]
  split
  · exact .rfl
  · split_ifs
    all_goals exact ⟨⟨[], by simp, by simp⟩, Eq.refl _, Eq.refl _⟩

theorem changeAware_false {req : Bool} (h : (s.changeAware req).1 = false) :
    (s.changeAware req).2 = s := by
  simp only [changeAware] at h ⊢
  split at h
  · simp at h
  · split_ifs at h ⊢
    all_goals rfl

theorem serves_outOfSync (s : Server σ) (req : Bool) : s.Serves (s.outOfSync req).2 0 := by
  have haware := s.serves_changeAware req
  rw [outOfSync]
  split
  next heq => simpa [heq] using haware
  next heq =>
    rw [heq] at haware
    split_ifs
    · exact haware
    · exact ⟨haware.log, haware.buffers, haware.mtu⟩

/-- A client that has been told already that it is out of sync. -/
def Unaware (s : Server σ) : Prop := (s.changeAware true).1 = false ∧ s.oosSent = true

theorem outOfSync_unaware (h : s.Unaware) : s.outOfSync true = (some 0, s) := by
  have hself := changeAware_false h.1
  have hfalse : s.changeAware true = (false, s) := Prod.ext h.1 hself
  rw [outOfSync, hfalse]
  exact if_pos h.2

theorem outOfSync_ne_zero (h : ¬ s.Unaware) : (s.outOfSync true).1 ≠ some 0 := by
  have hself : (s.changeAware true).1 = false → (s.changeAware true).2 = s := changeAware_false
  rw [outOfSync]
  split
  next => simp
  next s' heq =>
    rw [heq] at hself
    obtain rfl : s' = s := hself rfl
    have hsent : ¬ s'.oosSent = true := fun hs => h ⟨by rw [heq], hs⟩
    rw [if_neg hsent]
    simp [dbOutOfSync]

theorem createPdu_roomy (h : s.Roomy) {len : ℕ} (hlen : len < 23) :
    ∃ s', s.createPdu len = (true, s') ∧ s.Serves s' 0 := by
  have := h.mtu
  rw [createPdu, if_neg (by omega), h.buffers]
  exact ⟨_, rfl, ⟨[], by simp, by simp⟩, rfl, rfl⟩

theorem serves_sendRsp (s : Server σ) (pdu : List UInt8) : s.Serves (s.sendRsp pdu) 1 :=
  ⟨⟨[.sent pdu], rfl, rfl⟩, rfl, rfl⟩

theorem serves_sendErrRsp (h : s.Roomy) {req : UInt8} (hreq : req ≠ 0)
    (handle : UInt16) (err : UInt8) : s.Serves (s.sendErrRsp req handle err) 1 := by
  obtain ⟨s', hpdu, hserves⟩ := createPdu_roomy h (show 4 < 23 by decide)
  rw [sendErrRsp, if_neg hreq, hpdu]
  exact hserves.silent (s'.serves_sendRsp _)

theorem serves_callWrite (s : Server σ) (attr : AttrOps σ) (handle : UInt16)
    (value : List UInt8) (offset : UInt16) (flags : ℕ) :
    s.Serves (s.callWrite attr handle value offset flags).2 0 := by
  rw [callWrite]
  split
  · exact .rfl
  · exact ⟨⟨_, rfl, rfl⟩, rfl, rfl⟩

theorem serves_callRead (s : Server σ) (attr : AttrOps σ) (len : ℕ) (offset : UInt16) :
    s.Serves (s.callRead attr len offset).2 0 := by
  rw [callRead]
  split
  · exact .rfl
  · split <;> exact ⟨⟨[], by simp, by simp⟩, rfl, rfl⟩

theorem serves_attChanRead (s : Server σ) (attr : AttrOps σ) (used : ℕ) (offset : UInt16) :
    s.Serves (s.attChanRead attr used offset).2 0 := by
  rw [attChanRead]
  split
  · exact .rfl
  · exact s.serves_callRead attr _ offset

/-! ## The callbacks -/

/-- A callback over attributes, whose data holds the server, queues
nothing. -/
def Quiet {δ : Type*} (server : δ → Server σ) (func : Gatt.AttrFunc (AttrOps σ) δ) : Prop :=
  ∀ attr handle data, (server data).Serves (server (func attr handle data).2) 0

/-- **An iteration over attributes queues nothing.** -/
theorem Quiet.foreachAttr {δ : Type*} {server : δ → Server σ}
    {func : Gatt.AttrFunc (AttrOps σ) δ} (h : Quiet server func) (d : Gatt.Db (AttrOps σ))
    (start last : UInt16) (data : δ) :
    (server data).Serves (server (d.foreachAttr start last func data)) 0 := by
  have hkeeps : Gatt.Keeps start last none func (fun x => (server data).Serves (server x) 0)
      fun _ => False :=
    fun attr handle x _ hx => Gatt.kept_of_keep (hx.silent (h attr handle x))
  exact (d.foreachAttrType_kept hkeeps 0 .rfl).resolve_right id

theorem quiet_writeCb (req : UInt8) (value : List UInt8) (offset : UInt16) :
    Quiet (σ := σ) Prod.snd (writeCb req value offset) := by
  rintro attr handle ⟨err, s⟩
  simp only [writeCb]
  generalize (if req = 0 then writeFlagCmd
    else if req = execWriteReq then writeFlagExecute else 0) = flags
  have hcall := s.serves_callWrite attr.data handle value offset flags
  split
  · exact .rfl
  · split
    · exact .rfl
    · split
      all_goals exact hcall

theorem quiet_prepWriteCb (value : List UInt8) (offset : UInt16) :
    Quiet (σ := σ) (fun x => x.2.2) (prepWriteCb value offset) := by
  rintro attr handle ⟨err, buf, s⟩
  have hcall : s.Serves (if attr.data.perm &&& permPrepareWrite = 0 then (0, s)
      else s.callWrite attr.data handle value offset writeFlagPrepare).2 0 := by
    split
    · exact .rfl
    · exact s.serves_callWrite attr.data handle value offset writeFlagPrepare
  simp only [prepWriteCb]
  generalize (if attr.data.perm &&& permPrepareWrite = 0 then (0, s)
    else s.callWrite attr.data handle value offset writeFlagPrepare) = r at hcall ⊢
  split
  · exact .rfl
  · split
    · exact .rfl
    · split
      · exact hcall
      · split
        · exact hcall
        · exact ⟨hcall.log, hcall.buffers, hcall.mtu⟩

theorem quiet_readCb (offset : UInt16) : Quiet (σ := σ) ReadData.server (readCb offset) := by
  rintro attr handle data
  have hread := data.server.serves_attChanRead attr.data data.buf.length offset
  simp only [readCb]
  split
  · exact .rfl
  · split
    all_goals
      rename_i heq
      rw [heq] at hread
      exact hread

theorem quiet_readVlCb : Quiet (σ := σ) ReadData.server readVlCb := by
  rintro attr handle data
  have hread := data.server.serves_attChanRead attr.data (data.buf.length + 2) 0
  simp only [readVlCb]
  split
  · exact .rfl
  · split
    · exact .rfl
    · split
      all_goals
        rename_i heq
        rw [heq] at hread
        exact hread

theorem quiet_findTypeCb (value : List UInt8) :
    Quiet (σ := σ) FindTypeData.server (findTypeCb value) := by
  rintro attr handle data
  have hread := data.server.serves_callRead attr.data 16 0
  simp only [findTypeCb]
  split
  · exact .rfl
  · split
    · split
      all_goals exact .rfl
    · split
      · exact .rfl
      · split
        next heq =>
          rw [heq] at hread
          split
          all_goals exact hread
        next heq =>
          rw [heq] at hread
          exact hread

theorem quiet_readTypeCb (uuid : Gatt.Uuid) :
    Quiet (σ := σ) ReadTypeData.server (readTypeCb uuid) := by
  rintro attr handle data
  have hread := data.server.serves_attChanRead attr.data
    (2 + (data.items ++ le16 handle.toNat).length) 0
  simp only [readTypeCb]
  split
  · exact .rfl
  · split
    · exact .rfl
    · split
      · exact .rfl
      · split
        next heq =>
          rw [heq] at hread
          exact hread
        next heq =>
          rw [heq] at hread
          exact hread
        next heq =>
          rw [heq] at hread
          split
          all_goals exact hread

theorem quiet_readGroupCb (uuid : Gatt.Uuid) :
    Quiet (σ := σ) ReadGroupData.server (readGroupCb uuid) := by
  rintro attr handle data
  have hread := data.server.serves_attChanRead attr.data (data.used + 4) 0
  simp only [readGroupCb]
  split
  · split
    all_goals exact .rfl
  · split
    · exact .rfl
    · split
      · exact .rfl
      · split
        next heq =>
          rw [heq] at hread
          exact hread
        next heq =>
          rw [heq] at hread
          exact hread
        next heq =>
          rw [heq] at hread
          split
          all_goals exact hread

/-! ## The handlers -/

/-- **What a handler owes.** With an error it has put nothing on the
bearer; without one it has put one answer, or none where it drops the
request. -/
structure Handled (s : Server σ) (drops : Prop) (r : UInt8 × Server σ) : Prop where
  failed : r.1 ≠ 0 → s.Serves r.2 0
  answered : r.1 = 0 → ¬ drops → ∃ evs, r.2.log = s.log ++ evs ∧ answers evs = 1
  dropped : drops → r.1 = 0 ∧ r.2.log = s.log

variable {drops : Prop}

theorem handled_of_answer (h : s.Serves t 1) (hno : ¬ drops) : s.Handled drops (0, t) where
  failed h := absurd rfl h
  answered _ _ := h.log
  dropped hd := absurd hd hno

theorem handled_of_error {err : UInt8} (h : s.Serves t 0)
    (herr : err ≠ 0) (hno : ¬ drops) : s.Handled drops (err, t) where
  failed _ := h
  answered h := absurd h herr
  dropped hd := absurd hd hno

variable {op : UInt8}

theorem handled_ite (h : s.Roomy) (ht : s.Serves t 0) (hop : op ≠ 0)
    (handle : UInt16) (err : UInt8) (pdu : List UInt8) (c : Prop) [Decidable c] :
    s.Handled False (if c then (0, t.sendErrRsp op handle err) else (0, t.sendRsp pdu)) := by
  split
  · exact handled_of_answer (ht.silent (serves_sendErrRsp (h.serves ht) hop handle err)) id
  · exact handled_of_answer (ht.silent (t.serves_sendRsp pdu)) id

variable {r : UInt8 × Server σ}

theorem Handled.after (h : s'.Handled False r)
    (hs : s.Serves s' 0) (hno : ¬ drops) : s.Handled drops r where
  failed herr := hs.silent (h.failed herr)
  answered hzero _ := by
    obtain ⟨evs, hlog, hcount⟩ := hs.log
    obtain ⟨evs', hlog', hcount'⟩ := h.answered hzero id
    refine ⟨evs ++ evs', ?_, ?_⟩
    · rw [hlog', hlog, append_assoc]
    · rw [answers_append, hcount, hcount']
  dropped hd := absurd hd hno

theorem handled_outOfSync {f : Server σ → UInt8 × Server σ}
    (hf : ∀ s', s.Serves s' 0 → s'.Handled False (f s')) :
    s.Handled s.Unaware (match s.outOfSync true with
      | (some err, s) => (err, s)
      | (none, s) => f s) := by
  by_cases h : s.Unaware
  · rw [outOfSync_unaware h]
    exact ⟨fun herr => absurd rfl herr, fun _ hn => absurd h hn, fun _ => ⟨rfl, rfl⟩⟩
  · have hne := outOfSync_ne_zero h
    have hserves := s.serves_outOfSync true
    generalize s.outOfSync true = r at hne hserves ⊢
    rcases r with ⟨_ | err, s'⟩
    · exact (hf s' hserves).after hserves h
    · exact handled_of_error hserves (fun herr => hne (congrArg some herr)) h

theorem handled_attReadRsp (h : s.Roomy) (hop : op ≠ 0) (rsp : UInt8)
    (handle offset : UInt16) : s.Handled s.Unaware (s.attReadRsp op rsp handle offset) := by
  rw [attReadRsp]
  refine handled_outOfSync fun s' hs => ?_
  split
  · exact handled_of_error .rfl (by simp [invalidHandle]) id
  · obtain ⟨t, hpdu, ht⟩ := createPdu_roomy (h.serves hs) (show 0 < 23 by decide)
    rw [hpdu]
    exact handled_ite (h.serves hs)
      (ht.silent ((quiet_readCb offset).foreachAttr t.db handle handle
        ⟨invalidHandle, [rsp], t⟩)) hop _ _ _ _

theorem serves_readHandles (hop : op ≠ 0)
    {cb : Gatt.AttrFunc (AttrOps σ) (ReadData σ)} (hcb : Quiet ReadData.server cb)
    (handles buf : List UInt8) (h : s.Roomy) : s.Serves (readHandles op cb handles buf s) 1 := by
  fun_induction readHandles op cb handles buf s with
  | case1 lo hi rest buf s handle data herr =>
    have hdata := hcb.foreachAttr s.db handle handle ⟨invalidHandle, buf, s⟩
    exact hdata.silent (serves_sendErrRsp (h.serves hdata) hop handle _)
  | case2 lo hi rest buf s handle data herr ih =>
    have hdata := hcb.foreachAttr s.db handle handle ⟨invalidHandle, buf, s⟩
    exact hdata.silent (ih (h.serves hdata))
  | case3 handles buf s => exact s.serves_sendRsp buf

theorem handled_attReadHandles (h : s.Roomy) (hop : op ≠ 0)
    (rsp : UInt8) {cb : Gatt.AttrFunc (AttrOps σ) (ReadData σ)}
    (hcb : Quiet ReadData.server cb) (buf : List UInt8) :
    s.Handled s.Unaware (s.attReadHandles op rsp cb buf) := by
  rw [attReadHandles]
  refine handled_outOfSync fun s' hs => ?_
  obtain ⟨t, hpdu, ht⟩ := createPdu_roomy (h.serves hs) (show 0 < 23 by decide)
  rw [hpdu]
  exact handled_of_answer
    (ht.silent (serves_readHandles hop hcb buf [rsp] ((h.serves hs).serves ht))) id

theorem handled_attWriteReq (h : s.Roomy) (buf : List UInt8) :
    s.Handled s.Unaware (s.attWriteReq buf) := by
  rw [attWriteReq, attWriteRsp]
  refine handled_outOfSync fun s' hs => ?_
  split
  · exact handled_of_error .rfl (by simp [invalidHandle]) id
  · obtain ⟨t, hpdu, ht⟩ := createPdu_roomy (h.serves hs) (show 0 < 23 by decide)
    have hroom := (h.serves hs).serves ht
    rw [if_neg (by decide), hpdu]
    have hquiet := (quiet_writeCb writeReq (buf.drop 2) 0).foreachAttr t.db
      (UInt16.ofNat (getLe16 buf)) (UInt16.ofNat (getLe16 buf)) (invalidHandle, t)
    have hdata := ht.silent hquiet
    simp only [if_neg (show ¬ writeRsp = 0 by decide),
      if_neg (show ¬ writeReq = execWriteReq by decide)]
    split
    · exact handled_of_answer
        (hdata.silent (serves_sendErrRsp (hroom.serves hquiet) (by decide) _ _)) id
    · exact handled_of_answer (hdata.silent (serves_sendRsp _ _)) id

theorem handled_attPrepWriteRsp (h : s.Roomy) (handle offset : UInt16)
    (value : List UInt8) (len : UInt8) :
    s.Handled s.Unaware (s.attPrepWriteRsp handle offset value len) := by
  rw [attPrepWriteRsp]
  refine handled_outOfSync fun s' hs => ?_
  split
  · exact handled_of_error .rfl (by simp [invalidHandle]) id
  · dsimp only
    generalize value.take len.toNat = value
    have hquiet := (quiet_prepWriteCb value offset).foreachAttr s'.db handle handle
      (invalidHandle, none, s')
    generalize s'.db.foreachAttr handle handle (prepWriteCb value offset)
      (invalidHandle, none, s') = data at hquiet ⊢
    obtain ⟨err, entry, t⟩ := data
    dsimp only at hquiet ⊢
    have hroom := (h.serves hs).serves hquiet
    split
    · exact handled_of_answer (hquiet.silent (serves_sendErrRsp hroom (by decide) _ _)) id
    · have hput : s'.Serves { t with prepQueue := t.prepQueue ++ entry.toList } 0 :=
        ⟨hquiet.log, hquiet.buffers, hquiet.mtu⟩
      obtain ⟨u, hpdu, hu⟩ := createPdu_roomy ((h.serves hs).serves hput) (show 0 < 23 by decide)
      rw [hpdu]
      exact handled_of_answer ((hput.silent hu).silent (serves_sendRsp _ _)) id

theorem handled_attMtuReq (h : s.Roomy) (buf : List UInt8) : s.Handled False (s.attMtuReq buf) := by
  rw [attMtuReq]
  split_ifs
  · exact handled_of_error .rfl (by simp [notSupported]) id
  · exact handled_of_error .rfl (by simp [invalidPdu]) id
  · obtain ⟨t, hpdu, ht⟩ := createPdu_roomy h (show 0 < 23 by decide)
    have hsent := ht.silent (t.serves_sendRsp (mtuRsp :: le16 t.cfg.localMtuUatt))
    rw [hpdu]
    exact ⟨fun herr => absurd rfl herr, fun _ _ => hsent.log, False.elim⟩

theorem handled_attFindInfoReq (h : s.Roomy) (buf : List UInt8) :
    s.Handled False (s.attFindInfoReq buf) := by
  rw [attFindInfoReq]
  split
  · exact handled_of_answer (serves_sendErrRsp h (by decide) _ _) id
  · obtain ⟨t, hpdu, ht⟩ := createPdu_roomy h (show 0 < 23 by decide)
    rw [attFindInfoRsp, hpdu]
    dsimp only
    split
    · exact handled_of_answer (ht.silent (serves_sendErrRsp (h.serves ht) (by decide) _ _)) id
    · exact handled_of_answer (ht.silent (serves_sendRsp _ _)) id

theorem handled_attFindTypeRsp (h : s.Roomy) (start last : UInt16)
    (value : List UInt8) (valueLen : UInt8) :
    s.Handled False (s.attFindTypeRsp start last value valueLen) := by
  obtain ⟨t, hpdu, ht⟩ := createPdu_roomy h (show 0 < 23 by decide)
  rw [attFindTypeRsp, hpdu]
  have hdata := (quiet_findTypeCb (value.take valueLen.toNat)).foreachAttr t.db start last
    ⟨[], false, attributeNotFound, t⟩
  exact handled_ite h (ht.silent hdata) (by decide) _ _ _ _

theorem handled_attFindTypeReq (h : s.Roomy) (buf : List UInt8) :
    s.Handled False (s.attFindTypeReq buf) := by
  rw [attFindTypeReq]
  split
  · exact handled_of_answer (serves_sendErrRsp h (by decide) _ _) id
  · split
    · exact handled_of_answer (serves_sendErrRsp h (by decide) _ _) id
    · exact handled_attFindTypeRsp h _ _ _ _

theorem handled_attReadTypeRsp (h : s.Roomy) (uuid : Gatt.Uuid)
    (start last : UInt16) : s.Handled False (s.attReadTypeRsp uuid start last) := by
  obtain ⟨t, hpdu, ht⟩ := createPdu_roomy h (show 0 < 23 by decide)
  rw [attReadTypeRsp, hpdu]
  have hdata := (quiet_readTypeCb uuid).foreachAttr t.db start last
    ⟨0, [], attributeNotFound, t⟩
  exact handled_ite h (ht.silent hdata) (by decide) _ _ _ _

theorem handled_attReadGroupRsp (h : s.Roomy) (uuid : Gatt.Uuid)
    (start last : UInt16) : s.Handled False (s.attReadGroupRsp uuid start last) := by
  obtain ⟨t, hpdu, ht⟩ := createPdu_roomy h (show 0 < 23 by decide)
  rw [attReadGroupRsp, hpdu]
  have hdata := (quiet_readGroupCb uuid).foreachAttr t.db start last ⟨0, [], false, t⟩
  exact handled_ite h (ht.silent hdata) (by decide) _ _ _ _

/-- A Read By Type request that is turned down only for the client being
out of sync. -/
def ReadTypeGuarded (buf : List UInt8) : Prop :=
  let uuidLen := UInt8.ofNat (buf.length - 4)
  let start := UInt16.ofNat (getLe16 buf)
  let last := UInt16.ofNat (getLe16 (buf.drop 2))
  (uuidLen = 2 ∨ uuidLen = 16) ∧ rangeErr start last = none ∧
    ∀ uuid ∈ uuidCreate (buf.drop 4) uuidLen.toNat, readTypeExempt uuid start last = false

theorem handled_attReadTypeReq (h : s.Roomy) (buf : List UInt8) :
    s.Handled (s.Unaware ∧ ReadTypeGuarded buf) (s.attReadTypeReq buf) := by
  have hserves := s.serves_changeAware true
  have hself : (s.changeAware true).1 = false → (s.changeAware true).2 = s := changeAware_false
  rw [attReadTypeReq]
  dsimp only
  split
  next hlen =>
    refine handled_of_error .rfl (by simp [invalidPdu]) fun hd => ?_
    exact hd.2.1.elim hlen.1 hlen.2
  next hlen =>
    split
    next hnone =>
      refine handled_of_error .rfl (by simp [unlikely]) fun hd => ?_
      rcases hd.2.1 with h2 | h16
      · simp [h2, uuidCreate] at hnone
      · simp [h16, uuidCreate] at hnone
    next uuid huuid =>
      split
      next hrange =>
        refine handled_of_answer (serves_sendErrRsp h (by decide) _ _) fun hd => ?_
        exact absurd (hd.2.2.1.symm.trans hrange) (by simp)
      next hrange =>
        split
        next t heq =>
          rw [heq] at hserves
          exact (handled_attReadTypeRsp (h.serves hserves) _ _ _).after hserves
            fun hd => absurd hd.1.1 (by simp [heq])
        next t heq =>
          rw [heq] at hself
          obtain rfl : t = s := hself rfl
          split
          next hexempt =>
            exact (handled_attReadTypeRsp h _ _ _).after .rfl
              fun hd => absurd (hd.2.2.2 _ huuid) (by simp [hexempt])
          next hexempt =>
            split
            next hsent =>
              refine ⟨fun herr => absurd rfl herr, fun _ hno => absurd ?_ hno, fun _ => ⟨rfl, rfl⟩⟩
              refine ⟨⟨by rw [heq], hsent⟩, ?_, hrange, ?_⟩
              · tauto
              · intro other hother
                obtain rfl := Option.mem_unique huuid hother
                simpa using hexempt
            next hsent =>
              exact handled_of_error ⟨⟨[], by simp, rfl⟩, rfl, rfl⟩ (by simp [dbOutOfSync])
                fun hd => hsent hd.1.2

theorem handled_attReadGroupReq (h : s.Roomy) (buf : List UInt8) :
    s.Handled False (s.attReadGroupReq buf) := by
  rw [attReadGroupReq]
  dsimp only
  split
  · exact handled_of_error .rfl (by simp [invalidPdu]) id
  · split
    · exact handled_of_error .rfl (by simp [unlikely]) id
    · split
      · exact handled_of_answer (serves_sendErrRsp h (by decide) _ _) id
      · split
        · exact handled_of_answer (serves_sendErrRsp h (by decide) _ _) id
        · exact handled_attReadGroupRsp h _ _ _

/-! ## Execute Write -/

theorem serves_attWriteRsp_exec (s : Server σ) (handle offset : UInt16) (value : List UInt8) :
    s.Serves (s.attWriteRsp execWriteReq 0 handle offset value).2 0 := by
  have hsync := s.serves_outOfSync (decide (execWriteReq ≠ 0))
  rw [attWriteRsp]
  generalize s.outOfSync (decide (execWriteReq ≠ 0)) = r at hsync ⊢
  rcases r with ⟨_ | err, s'⟩
  · have hdata := (quiet_writeCb execWriteReq value offset).foreachAttr s'.db handle handle
      (invalidHandle, s')
    simp only [if_true]
    split
    · exact hsync
    · split
      all_goals exact hsync.silent hdata
  · exact hsync

theorem serves_makeWrite (h : s.Roomy) (flags : UInt8) (g : Prep) :
    s.Serves (s.makeWrite flags g).2 (if (s.makeWrite flags g).1 = 0 then 0 else 1) := by
  have hwrite := s.serves_attWriteRsp_exec g.handle g.offset g.data
  rw [makeWrite]
  by_cases hflags : flags = flagExec
  · simp only [if_pos hflags, ne_eq, ite_not]
    split
    · exact hwrite
    · exact hwrite.silent (serves_sendErrRsp (h.serves hwrite) (by decide) _ _)
  · simp only [if_neg hflags]
    exact .rfl

theorem AcceptsAllButLast.head {g : Prep} {gs : List Prep}
    (h : s.AcceptsAllButLast (g :: gs)) (hne : gs ≠ []) :
    (s.makeWrite flagExec g).1 = 0 ∧ (s.makeWrite flagExec g).2.AcceptsAllButLast gs := by
  match gs with
  | [] => exact absurd rfl hne
  | g' :: gs =>
    obtain ⟨hzero, hrest⟩ := h
    rcases s.makeWrite_exec g with ⟨-, hmake, -⟩ | ⟨herr, -⟩
    · rw [hmake]
      exact ⟨hzero, hrest⟩
    · exact absurd hzero herr

theorem makeWrite_discard {flags : UInt8} (h : flags ≠ flagExec) (s : Server σ) (g : Prep) :
    (s.makeWrite flags g).1 = 0 := by
  simp [makeWrite, h]

theorem groups_ne_nil {size fuel : ℕ} {queue : List Prep} (hfuel : queue.length ≤ fuel)
    (hne : queue ≠ []) : groups size fuel queue ≠ [] := by
  match fuel, queue with
  | 0, queue => exact absurd (length_eq_zero_iff.1 (by omega)) hne
  | _ + 1, [] => exact absurd rfl hne
  | fuel + 1, buf :: queue => simp [groups]

theorem Serves.withQueue {n : ℕ} (h : s.Serves t n) (queue : List Prep)
    (free : ℕ) : s.Serves (t.withQueue queue free) n := ⟨h.log, h.buffers, h.mtu⟩

/-- **The loop answers at most once**, where no write is refused but in the
last round. -/
theorem serves_execLoop (flags : UInt8) {size fuel : ℕ} {queue : List Prep}
    (hfuel : queue.length ≤ fuel) (h : s.Roomy)
    (hsize : s.cfg.reassembledSize = size) (free : ℕ)
    (haccepts : flags = flagExec → s.AcceptsAllButLast (groups size fuel queue)) :
    let r := execLoop flags fuel 0 (s.withQueue queue free)
    s.Serves r.2 (if r.1 = some 0 then 0 else 1) := by
  induction fuel generalizing queue s free with
  | zero =>
    obtain rfl : queue = [] := length_eq_zero_iff.1 (by omega)
    exact Serves.rfl.withQueue [] free
  | succ fuel ih =>
    match queue with
    | [] => exact Serves.rfl.withQueue [] free
    | buf :: queue =>
      have hlen := @execWriteReassemble_length size buf.handle buf.offset queue buf.data
      simp only [length_cons] at hfuel hlen
      simp only [groups] at haccepts
      rw [execLoop_succ, hsize]
      generalize execWriteReassemble size buf.handle buf.offset queue buf.data = r at *
      by_cases herr : r.err ≠ 0
      · rw [if_pos herr]
        exact (serves_sendErrRsp h (by decide) _ _).withQueue _ _
      · rw [if_neg herr] at haccepts ⊢
        have hround := serves_makeWrite h flags { buf with data := r.data }
        have hcfg := s.makeWrite_cfg flags { buf with data := r.data }
        by_cases hzero : (s.makeWrite flags { buf with data := r.data }).1 = 0
        · rw [if_pos hzero] at hround
          rw [hzero]
          refine hround.silent (ih (by omega) (h.serves hround)
            ((congrArg _ hcfg).trans hsize) _ fun hflags => ?_)
          by_cases hnil : groups size fuel r.list = []
          · rw [hnil]
            trivial
          · subst hflags
            exact ((haccepts rfl).head hnil).2
        · rw [if_neg hzero] at hround
          have hflags : flags = flagExec := by_contra fun hf => hzero (makeWrite_discard hf s _)
          have hlist : r.list = [] := by
            by_contra hne
            subst hflags
            exact hzero ((haccepts rfl).head (groups_ne_nil (by omega) hne)).1
          have hend : ∀ (t : Server σ) (err : UInt8) (n : ℕ),
              execLoop flags fuel err (t.withQueue [] n) = (some err, t.withQueue [] n) := by
            intro t err n
            cases fuel with
            | zero => rfl
            | succ fuel => rfl
          rw [hlist, hend]
          dsimp only
          rw [if_neg fun hs => hzero (Option.some.inj hs)]
          exact hround.withQueue [] _

theorem handled_attExecWriteRsp (h : s.Roomy) (flags : UInt8) (haccepts : flags = flagExec →
      s.AcceptsAllButLast (merged s.cfg.reassembledSize s.prepQueue)) :
    s.Handled False (s.attExecWriteRsp flags) := by
  have hloop := serves_execLoop flags le_rfl h rfl s.prepFree haccepts
  rw [attExecWriteRsp]
  rw [show s.withQueue s.prepQueue s.prepFree = s from rfl] at hloop
  dsimp only at hloop
  generalize execLoop flags s.prepQueue.length 0 s = r at hloop ⊢
  rcases r with ⟨_ | err, t⟩
  · exact handled_of_answer hloop id
  · by_cases herr : err = 0
    · subst herr
      obtain ⟨u, hpdu, hu⟩ := createPdu_roomy (h.serves hloop) (show 0 < 23 by decide)
      rw [if_pos rfl] at hloop
      simp only [ne_eq, not_true, if_false, hpdu]
      exact handled_of_answer ((hloop.silent hu).silent (u.serves_sendRsp _)) id
    · rw [if_neg fun hs => herr (Option.some.inj hs)] at hloop
      simp only [ne_eq, herr, not_false_eq_true, if_true]
      exact handled_of_answer hloop id

/-! ## The dispatcher -/

/-- The requests that a client out of sync makes in vain: those for
attributes of handles it names, and Read By Type where it is guarded. -/
def SyncGuarded (op : UInt8) (buf : List UInt8) : Prop :=
  op ∈ [Op.readReq, Op.readBlobReq, Op.readMultReq, Op.readMultVlReq, Op.writeReq,
    Op.prepareWriteReq] ∨ op = Op.readTypeReq ∧ ReadTypeGuarded buf

/-- **The requests that go unanswered by design**: on a bearer that is not
connected any more, and those of a client that has been told already that
it is out of sync. -/
def Ignores (s : Server σ) (op : UInt8) (buf : List UInt8) : Prop :=
  s.connected = false ∨ s.attached = false ∨
    s.Unaware ∧ SyncGuarded op buf ∧
      ∃ entry : Handler σ, handler s.cfg op = some entry ∧ entry.expectLen ≤ buf.length

theorem Handled.congr {drops' : Prop}
    (h : s.Handled drops r) (hiff : drops ↔ drops') : s.Handled drops' r :=
  ⟨h.failed, fun hz hn => h.answered hz fun hd => hn (hiff.1 hd), fun hd => h.dropped (hiff.2 hd)⟩

theorem Handled.unguarded {buf : List UInt8} (h : s.Handled False r)
    (hop : op ∉ [readReq, readBlobReq, readMultReq, readMultVlReq, writeReq,
      prepareWriteReq, readTypeReq]) : s.Handled (s.Unaware ∧ SyncGuarded op buf) r := by
  refine h.congr ⟨False.elim, fun ⟨_, hguard⟩ => hop ?_⟩
  simp only [mem_cons, not_mem_nil, or_false, SyncGuarded] at hguard ⊢
  tauto

theorem Handled.guarded {buf : List UInt8} (h : s.Handled s.Unaware r)
    (hop : op ∈ [readReq, readBlobReq, readMultReq, readMultVlReq, writeReq,
      prepareWriteReq]) : s.Handled (s.Unaware ∧ SyncGuarded op buf) r :=
  h.congr ⟨fun hu => ⟨hu, Or.inl hop⟩, And.left⟩

/-- **Every handler of the table owes one answer.** -/
theorem handled_handler (h : s.Roomy) {entry : Handler σ}
    (hentry : entry ∈ handlers s.cfg) (htype : entry.type = .request) (buf : List UInt8)
    (haccepts : entry.op = execWriteReq → buf.headD 0 = flagExec →
      s.AcceptsAllButLast (merged s.cfg.reassembledSize s.prepQueue)) :
    s.Handled (s.Unaware ∧ SyncGuarded entry.op buf) (entry.func s buf) := by
  have hother : readTypeReq ∉ [readReq, readBlobReq, readMultReq, readMultVlReq,
    writeReq, prepareWriteReq] := by decide
  simp only [handlers, mem_append, mem_cons, not_mem_nil, or_false, mem_ite_nil_right] at hentry
  rcases hentry with (((((rfl | rfl | rfl | rfl | rfl | rfl) | ⟨-, rfl⟩) | ⟨-, rfl⟩) |
    (rfl | rfl)) | ⟨-, rfl | rfl⟩) | rfl
  all_goals dsimp only
  · exact (handled_attMtuReq h buf).unguarded (by decide)
  · exact (handled_attFindInfoReq h buf).unguarded (by decide)
  · exact (handled_attFindTypeReq h buf).unguarded (by decide)
  · refine (handled_attReadTypeReq h buf).congr (and_congr_right fun _ => ?_)
    simp [SyncGuarded, hother]
  · exact (handled_attReadRsp h (by decide) _ _ _).guarded (by decide)
  · exact (handled_attReadRsp h (by decide) _ _ _).guarded (by decide)
  · exact (handled_attReadHandles h (by decide) _ (quiet_readCb 0) buf).guarded (by decide)
  · exact (handled_attReadHandles h (by decide) _ quiet_readVlCb buf).guarded (by decide)
  · exact (handled_attReadGroupReq h buf).unguarded (by decide)
  · exact (handled_attWriteReq h buf).guarded (by decide)
  · exact (handled_attPrepWriteRsp h _ _ _ _).guarded (by decide)
  · exact (handled_attExecWriteRsp h _ (haccepts rfl)).unguarded (by decide)
  · simp at htype

theorem handlers_type {cfg : Config} {entry : Handler σ} (h : entry ∈ handlers cfg) :
    entry.type = opGetType entry.op := by
  simp only [handlers, mem_append, mem_cons, not_mem_nil, or_false, mem_ite_nil_right] at h
  rcases h with (((((rfl | rfl | rfl | rfl | rfl | rfl) | ⟨-, rfl⟩) | ⟨-, rfl⟩) |
    (rfl | rfl)) | ⟨-, rfl | rfl⟩) | rfl
  all_goals rfl

end Server

/-- **One answer to every request**, but for those the server ignores by
design. -/
theorem one_answer_per_request {s : Server σ} (h : s.Roomy) {op : UInt8}
    (hop : opGetType op = .request) (buf : List UInt8)
    (haccepts : op = Op.execWriteReq → buf.headD 0 = flagExec →
      s.AcceptsAllButLast (merged s.cfg.reassembledSize s.prepQueue)) :
    ∃ evs, (s.recv (op :: buf)).log = s.log ++ evs ∧
      (s.Ignores op buf → evs = []) ∧ (¬ s.Ignores op buf → answers evs = 1) := by
  have hzero : op ≠ 0 := fun h0 => absurd (h0 ▸ hop) (by decide)
  rw [Server.recv]
  by_cases hconn : s.connected = true
  swap
  · rw [if_pos hconn]
    exact ⟨[], by simp, fun _ => rfl, fun hn => absurd (Or.inl (by simpa using hconn)) hn⟩
  by_cases hatt : s.attached = true
  swap
  · rw [if_neg (not_not.2 hconn), if_pos hatt]
    exact ⟨[], by simp, fun _ => rfl, fun hn => absurd (Or.inr (Or.inl (by simpa using hatt))) hn⟩
  rw [if_neg (not_not.2 hconn), if_neg (not_not.2 hatt)]
  have hup : s.Ignores op buf → s.Unaware ∧ Server.SyncGuarded op buf ∧
      ∃ entry : Server.Handler σ, Server.handler s.cfg op = some entry ∧
        entry.expectLen ≤ buf.length := by
    rintro (hd | hd | hd)
    · simp [hconn] at hd
    · simp [hatt] at hd
    · exact hd
  rcases hhandler : Server.handler s.cfg op with _ | entry
  · obtain ⟨evs, hlog, hcount⟩ :=
      (Server.serves_sendErrRsp h hzero 0 Err.notSupported).log
    simp only [hop, ne_eq, reduceCtorEq, not_false_eq_true, and_self, if_true]
    refine ⟨evs, hlog, fun hd => ?_, fun _ => hcount⟩
    obtain ⟨-, -, entry, hentry, -⟩ := hup hd
    simp [hhandler] at hentry
  · have hmem : entry ∈ Server.handlers s.cfg := List.mem_of_find?_eq_some hhandler
    obtain rfl : entry.op = op := by simpa using List.find?_some hhandler
    have htype : entry.type = .request := by rw [Server.handlers_type hmem, hop]
    simp only [htype, true_and]
    by_cases hlen : buf.length < entry.expectLen
    · have herr : Err.invalidPdu ≠ 0 := by decide
      obtain ⟨evs, hlog, hcount⟩ :=
        (Server.serves_sendErrRsp h hzero 0 Err.invalidPdu).log
      simp only [if_pos hlen, if_pos herr]
      refine ⟨evs, hlog, fun hd => ?_, fun _ => hcount⟩
      obtain ⟨-, -, other, hother, hle⟩ := hup hd
      obtain rfl := Option.some.inj (hhandler.symm.trans hother)
      omega
    · have hdone := Server.handled_handler h hmem htype buf haccepts
      simp only [if_neg hlen]
      generalize entry.func s buf = r at hdone ⊢
      by_cases herr : r.1 = 0
      · rw [if_neg (not_not.2 herr)]
        by_cases hd : s.Ignores entry.op buf
        · obtain ⟨hunaware, hguard, -⟩ := hup hd
          have hlog := (hdone.dropped ⟨hunaware, hguard⟩).2
          exact ⟨[], by rw [hlog, List.append_nil], fun _ => rfl, fun hn => absurd hd hn⟩
        · have hno : ¬ (s.Unaware ∧ Server.SyncGuarded entry.op buf) := fun hg =>
            hd (Or.inr (Or.inr ⟨hg.1, hg.2, entry, hhandler, not_lt.1 hlen⟩))
          obtain ⟨evs, hlog, hcount⟩ := hdone.answered herr hno
          exact ⟨evs, hlog, fun hi => absurd hi hd, fun _ => hcount⟩
      · rw [if_pos herr]
        have hserves := hdone.failed herr
        obtain ⟨evs, hlog, hcount⟩ := (hserves.silent
          (Server.serves_sendErrRsp (h.serves hserves) hzero 0 r.1)).log
        refine ⟨evs, hlog, fun hd => ?_, fun _ => hcount⟩
        obtain ⟨hunaware, hguard, -⟩ := hup hd
        exact absurd (hdone.dropped ⟨hunaware, hguard⟩).1 herr

/-- An Execute Write of two prepared values, of which the last is refused, is
answered once. -/
theorem one_answer_sample :
    let s := samplePrepared [[2, 0, 0, 0, 7], [1, 0, 0, 0, 8]]
    ∃ evs, (s.recv [Op.execWriteReq, flagExec]).log = s.log ++ evs ∧
      (¬ s.Ignores Op.execWriteReq [flagExec] → answers evs = 1) := by
  intro s
  have hroomy : s.Roomy := ⟨fun _ => rfl, by decide⟩
  have haccepts : s.AcceptsAllButLast (merged s.cfg.reassembledSize s.prepQueue) :=
    ⟨by decide, trivial⟩
  have hop : opGetType Op.execWriteReq = .request := by decide
  obtain ⟨evs, hlog, -, hone⟩ := one_answer_per_request hroomy hop [flagExec] fun _ _ => haccepts
  exact ⟨evs, hlog, hone⟩

/-- A client on several bearers that has missed a change. -/
def sampleUnaware : Server Unit :=
  { sampleServer with cf := some ⟨true, false, false⟩, fixedOnly := false }

/-- Its first request is answered, and its second is not. -/
theorem request_unanswered :
    (sampleUnaware.recv [Op.readReq, 1, 0]).log =
        [.sent (Server.errorPdu Op.readReq 0 Err.dbOutOfSync)] ∧
      (sampleUnaware.recv [Op.readReq, 1, 0]).Roomy ∧
      ((sampleUnaware.recv [Op.readReq, 1, 0]).recv [Op.readReq, 1, 0]).log =
        (sampleUnaware.recv [Op.readReq, 1, 0]).log :=
  ⟨by decide, ⟨fun _ => rfl, by decide⟩, by decide⟩

end Att

end OpenBlue
