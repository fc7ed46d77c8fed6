import OpenBlue.Gatt.Db
import OpenBlue.Att.Model.Server
/-!
# ATT — executing the prepare queue

Execute Write takes the queue apart into writes, each put together from
the entries of one handle, and passes them to the attributes. Where every
write but the last goes through, and the queue can be taken apart
(`Mergeable`), nothing stays behind and the first failure is the one
reported. A queue that cannot be taken apart is left half way, and a
write that fails does not keep the later ones from being made.
-/

namespace OpenBlue

namespace Att

open List Op Err

variable {σ : Type*} {size : ℕ}

/-! ## Reassembly -/

/-- The entries, all of one handle, continue a write that has `len` bytes
from `offset` on, or start a new one at offset zero. -/
def Continues (size : ℕ) : (offset : UInt16) → (len : ℕ) → List Prep → Prop
  | _, _, [] => True
  | offset, len, entry :: rest =>
    if entry.offset = 0 then Continues size entry.offset entry.data.length rest
    else entry.offset.toNat = len + offset.toNat ∧ len + entry.data.length ≤ size ∧
      Continues size offset (len + entry.data.length) rest

/-- The entries of one handle, in order, make up whole writes. -/
def Chained (size : ℕ) : List Prep → Prop
  | [] => True
  | entry :: rest => Continues size entry.offset entry.data.length rest

/-- The entries of `handle`. -/
def entriesOf (handle : UInt16) (queue : List Prep) : List Prep :=
  queue.filter (·.handle = handle)

/-- For every handle, the prepared parts follow one another and fit. -/
def Mergeable (size : ℕ) (queue : List Prep) : Prop :=
  ∀ handle, Chained size (entriesOf handle queue)

variable {handle : UInt16}

theorem entriesOf_cons_self {entry : Prep} (h : entry.handle = handle) (queue : List Prep) :
    entriesOf handle (entry :: queue) = entry :: entriesOf handle queue := by
  simp [entriesOf, h]

theorem entriesOf_cons_ne {entry : Prep} (h : entry.handle ≠ handle)
    (queue : List Prep) : entriesOf handle (entry :: queue) = entriesOf handle queue := by
  simp [entriesOf, h]

theorem execWriteReassemble_length (handle offset : UInt16) (queue : List Prep)
    (buf : List UInt8) :
    let r := Server.execWriteReassemble size handle offset queue buf
    r.list.length + r.freed = queue.length := by
  induction queue generalizing buf with
  | nil => rfl
  | cons entry queue ih =>
    have htaken := ih (buf ++ entry.data)
    have hleft := ih buf
    simp only [Server.execWriteReassemble, length_cons]
    split_ifs
    iterate 3 rfl
    · dsimp only at htaken ⊢
      omega
    · dsimp only [length_cons] at hleft ⊢
      omega

theorem entriesOf_execWriteReassemble {other : UInt16} (h : other ≠ handle)
    (offset : UInt16) (queue : List Prep) (buf : List UInt8) :
    entriesOf other (Server.execWriteReassemble size handle offset queue buf).list =
      entriesOf other queue := by
  induction queue generalizing buf with
  | nil => rfl
  | cons entry queue ih =>
    simp only [Server.execWriteReassemble]
    split_ifs with hhandle
    iterate 3 rfl
    · rw [entriesOf_cons_ne (hhandle ▸ h.symm)]
      exact ih _
    · by_cases heq : entry.handle = other
      · rw [entriesOf_cons_self heq, entriesOf_cons_self heq, ih]
      · rw [entriesOf_cons_ne heq, entriesOf_cons_ne heq, ih]

/-- **A write is put together where its entries continue it**, and what is
left of its handle starts anew. -/
theorem continues_iff (handle offset : UInt16) (queue : List Prep) (buf : List UInt8) :
    let r := Server.execWriteReassemble size handle offset queue buf
    Continues size offset buf.length (entriesOf handle queue) ↔
      r.err = 0 ∧ Chained size (entriesOf handle r.list) := by
  induction queue generalizing buf with
  | nil => simp [Server.execWriteReassemble, entriesOf, Continues, Chained]
  | cons entry queue ih =>
    simp only [Server.execWriteReassemble]
    by_cases hhandle : entry.handle = handle
    · rw [entriesOf_cons_self hhandle, Continues, if_pos hhandle]
      by_cases hzero : entry.offset = 0
      · simp [hzero, entriesOf_cons_self hhandle, Chained]
      · have hinvalid : invalidOffset ≠ 0 := by decide
        have hlen : invalidAttributeLen ≠ 0 := by decide
        rw [if_neg hzero, if_neg hzero]
        split_ifs with hoffset hsize
        · simp [hinvalid, hoffset]
        · simp only [hlen, false_and, iff_false, not_and]
          omega
        · have htaken := ih (buf ++ entry.data)
          rw [length_append] at htaken
          exact ⟨fun h => htaken.1 h.2.2, fun h => ⟨by omega, by omega, htaken.2 h⟩⟩
    · rw [entriesOf_cons_ne hhandle, if_neg hhandle, entriesOf_cons_ne hhandle]
      exact ih buf

/-- **A queue can be taken apart where its first write can**, and the rest. -/
theorem mergeable_cons_iff (entry : Prep) (queue : List Prep) :
    let r := Server.execWriteReassemble size entry.handle entry.offset queue entry.data
    Mergeable size (entry :: queue) ↔ r.err = 0 ∧ Mergeable size r.list := by
  have hfirst := @continues_iff size entry.handle entry.offset queue entry.data
  constructor
  · intro h
    have hself := h entry.handle
    rw [entriesOf_cons_self rfl, Chained] at hself
    obtain ⟨herr, hchained⟩ := hfirst.1 hself
    refine ⟨herr, fun handle => ?_⟩
    by_cases heq : entry.handle = handle
    · exact heq ▸ hchained
    · have hother := h handle
      rw [entriesOf_cons_ne heq] at hother
      rwa [entriesOf_execWriteReassemble (Ne.symm heq)]
  · rintro ⟨herr, h⟩ handle
    by_cases heq : entry.handle = handle
    · subst heq
      rw [entriesOf_cons_self rfl, Chained]
      exact hfirst.2 ⟨herr, h _⟩
    · have hother := h handle
      rw [entriesOf_execWriteReassemble (Ne.symm heq)] at hother
      rwa [entriesOf_cons_ne heq]

/-- The writes a queue holds, in the order they are made, up to one that
cannot be put together. -/
def groups (size : ℕ) : ℕ → List Prep → List Prep
  | 0, _ => []
  | _ + 1, [] => []
  | fuel + 1, buf :: queue =>
    let r := Server.execWriteReassemble size buf.handle buf.offset queue buf.data
    { buf with data := r.data } :: if r.err ≠ 0 then [] else groups size fuel r.list

/-- The writes of the whole queue. -/
def merged (size : ℕ) (queue : List Prep) : List Prep := groups size queue.length queue

/-! ## One write -/

/-- The attribute of `handle` took the whole value. -/
def Ev.Took (handle : UInt16) (ev : Ev) : Prop :=
  ∃ value offset flags, ev = .wrote handle value offset flags value.length

/-- The attribute of `handle` did not take the value, which makes `err`. -/
def Ev.Failed (handle : UInt16) (err : UInt8) (ev : Ev) : Prop :=
  ∃ value offset flags result, ev = .wrote handle value offset flags result ∧
    result ≠ value.length ∧ err = errToAtt result

/-- What a write does that goes through: the attribute takes it. -/
def Passed (handle : UInt16) (evs : List Ev) : Prop := ∀ ev ∈ evs, ev.Took handle

/-- What a write does that ends in `err`: the last call of the attribute
failed with it, or the attribute was not called. -/
def Refused (handle : UInt16) (err : UInt8) (evs : List Ev) : Prop :=
  ∃ took, Passed handle took ∧ (evs = took ∨ ∃ ev, ev.Failed handle err ∧ evs = took ++ [ev])

theorem passed_nil (handle : UInt16) : Passed handle [] := by simp [Passed]

variable {evs evs' : List Ev}

theorem passed_append : Passed handle (evs ++ evs') ↔ Passed handle evs ∧ Passed handle evs' := by
  simp only [Passed, mem_append, or_imp, forall_and]

theorem refused_nil (handle : UInt16) (err : UInt8) : Refused handle err [] :=
  ⟨[], passed_nil handle, Or.inl rfl⟩

variable {err : UInt8}

theorem Passed.refused (h : Passed handle evs) : Refused handle err evs := ⟨evs, h, Or.inl rfl⟩

theorem Refused.prepend
    (h : Passed handle evs) (h' : Refused handle err evs') : Refused handle err (evs ++ evs') := by
  obtain ⟨took, htook, hevs⟩ := h'
  refine ⟨evs ++ took, passed_append.2 ⟨h, htook⟩, ?_⟩
  rcases hevs with rfl | ⟨ev, hev, rfl⟩
  · exact Or.inl rfl
  · exact Or.inr ⟨ev, hev, by rw [append_assoc]⟩

theorem errToAtt_ne_zero (err : ℤ) : errToAtt err ≠ 0 := by
  rw [errToAtt]
  split_ifs with h
  · intro heq
    have := congrArg UInt8.toNat heq
    rw [UInt8.toNat_ofNat', UInt8.toNat_zero] at this
    omega
  · decide

/-- The states differ in what a write can change, and the log has grown by
`evs`. -/
structure Server.Logged (s s' : Server σ) (evs : List Ev) : Prop where
  log : s'.log = s.log ++ evs
  cfg : s'.cfg = s.cfg
  db : s'.db = s.db

theorem Server.Logged.rfl {s : Server σ} : s.Logged s [] := ⟨by simp, Eq.refl _, Eq.refl _⟩

theorem Server.Logged.trans {s s' t : Server σ} (h : s.Logged s' evs)
    (h' : s'.Logged t evs') : s.Logged t (evs ++ evs') where
  log := by rw [h'.log, h.log, append_assoc]
  cfg := h'.cfg.trans h.cfg
  db := h'.db.trans h.db

theorem Server.logged_outOfSync (s : Server σ) (req : Bool) : s.Logged (s.outOfSync req).2 [] := by
  have haware : s.Logged (s.changeAware req).2 [] := by
    simp only [changeAware]
    split
    · exact .rfl
    · split_ifs
      all_goals exact ⟨by simp, Eq.refl _, Eq.refl _⟩
  rw [outOfSync]
  split
  next heq => simpa [heq] using haware
  next heq =>
    rw [heq] at haware
    split_ifs
    · exact haware
    · exact ⟨haware.log, haware.cfg, haware.db⟩

theorem Server.callWrite_logged (s : Server σ) (attr : AttrOps σ) (handle : UInt16)
    (value : List UInt8) (offset : UInt16) (flags : ℕ) :
    let r := s.callWrite attr handle value offset flags
    ∃ evs, s.Logged r.2 evs ∧ (evs = [] ∨ evs = [.wrote handle value offset flags r.1]) := by
  rw [callWrite]
  split
  · exact ⟨[], .rfl, Or.inl rfl⟩
  · exact ⟨_, ⟨rfl, rfl, rfl⟩, Or.inr rfl⟩

/-- **One call of `write_cb`.** The attribute takes the value, or the
iteration stops with an error. -/
theorem Server.writeCb_spec (req : UInt8) (value : List UInt8) (offset : UInt16)
    (attr : Gatt.Attr (AttrOps σ)) (handle : UInt16) (x : UInt8 × Server σ) :
    let r := writeCb req value offset attr handle x
    (r.1 = .continue ∧ r.2.1 = 0 ∧ ∃ evs, x.2.Logged r.2.2 evs ∧ Passed handle evs) ∨
      (r.1 = .stop ∧ r.2.1 ≠ 0 ∧ ∃ evs, x.2.Logged r.2.2 evs ∧ Refused handle r.2.1 evs) := by
  simp only [writeCb]
  split
  next hperm => exact Or.inr ⟨rfl, hperm, [], .rfl, refused_nil _ _⟩
  next =>
    split
    next => exact Or.inr ⟨rfl, by simp [authorization], [], .rfl, refused_nil _ _⟩
    next =>
      generalize (if req = 0 then writeFlagCmd
        else if req = execWriteReq then writeFlagExecute else 0) = flags
      obtain ⟨evs, hlogged, hevs⟩ := x.2.callWrite_logged attr.data handle value offset flags
      generalize x.2.callWrite attr.data handle value offset flags = r at hlogged hevs ⊢
      split
      next hwrite =>
        refine Or.inr ⟨rfl, errToAtt_ne_zero r.1, evs, hlogged, [], passed_nil _, ?_⟩
        rcases hevs with rfl | rfl
        · exact Or.inl rfl
        · exact Or.inr ⟨_, ⟨value, offset, flags, r.1, rfl, by omega, rfl⟩, rfl⟩
      next hwrite =>
        refine Or.inl ⟨rfl, rfl, evs, hlogged, ?_⟩
        rcases hevs with rfl | rfl
        · exact passed_nil _
        · have hresult : r.1 = value.length := by omega
          exact fun ev hev => ⟨value, offset, flags, by rw [mem_singleton.1 hev, hresult]⟩

theorem Server.logged_foreachWrite (s : Server σ) (req : UInt8) (value : List UInt8)
    (handle offset : UInt16) :
    let r := s.db.foreachAttr handle handle (writeCb req value offset) (invalidHandle, s)
    ∃ evs, s.Logged r.2 evs ∧ (Passed handle evs ∨ r.1 ≠ 0 ∧ Refused handle r.1 evs) := by
  have hkeeps : Gatt.Keeps handle handle none (writeCb req value offset)
      (fun x => ∃ evs, s.Logged x.2 evs ∧ Passed handle evs)
      fun x => ∃ evs, s.Logged x.2 evs ∧ x.1 ≠ 0 ∧ Refused handle x.1 evs := by
    rintro attr h x hsel ⟨evs, hlogged, hpassed⟩
    obtain rfl : h = handle := by
      simp only [Gatt.selected, Option.all_none, Bool.and_true, Bool.and_eq_true,
        decide_eq_true_eq] at hsel
      exact UInt16.le_antisymm hsel.2 hsel.1
    rcases writeCb_spec req value offset attr h x with
      ⟨hv, -, evs', hlogged', hpassed'⟩ | ⟨hv, herr, evs', hlogged', hrefused⟩
    · exact Gatt.kept_of_keep
        ⟨evs ++ evs', hlogged.trans hlogged', passed_append.2 ⟨hpassed, hpassed'⟩⟩
    · exact ⟨by simp [hv],
        Or.inr ⟨evs ++ evs', hlogged.trans hlogged', herr, hrefused.prepend hpassed⟩⟩
  have hstart : ∃ evs, s.Logged (invalidHandle, s).2 evs ∧ Passed handle evs :=
    ⟨[], .rfl, passed_nil handle⟩
  rcases s.db.foreachAttrType_kept hkeeps 0 hstart with
    ⟨evs, hlogged, hpassed⟩ | ⟨evs, hlogged, hrefused⟩
  · exact ⟨evs, hlogged, Or.inl hpassed⟩
  · exact ⟨evs, hlogged, Or.inr hrefused⟩

/-- **A write of the queue**: it passes, or is refused. -/
theorem Server.attWriteRsp_exec (s : Server σ) (handle offset : UInt16) (value : List UInt8) :
    let r := s.attWriteRsp execWriteReq 0 handle offset value
    ∃ evs, s.Logged r.2 evs ∧ (r.1 = 0 ∧ Passed handle evs ∨ r.1 ≠ 0 ∧ Refused handle r.1 evs) := by
  have hsync := s.logged_outOfSync (decide (execWriteReq ≠ 0))
  simp only [attWriteRsp]
  split
  next err s' heq =>
    rw [heq] at hsync
    refine ⟨[], hsync, ?_⟩
    by_cases herr : err = 0
    · exact Or.inl ⟨herr, passed_nil handle⟩
    · exact Or.inr ⟨herr, refused_nil handle err⟩
  next s' heq =>
    rw [heq] at hsync
    simp only [if_true]
    split
    next => exact ⟨[], hsync, Or.inr ⟨by simp [invalidHandle], refused_nil _ _⟩⟩
    next =>
      have hrule := logged_foreachWrite s' execWriteReq value handle offset
      generalize s'.db.foreachAttr handle handle (writeCb execWriteReq value offset)
        (invalidHandle, s') = r at hrule ⊢
      obtain ⟨evs, hlogged, hrule⟩ := hrule
      refine ⟨evs, ?_, ?_⟩
      · split
        all_goals exact hsync.trans hlogged
      · split
        next herr => exact Or.inr ⟨herr, hrule.elim Passed.refused And.right⟩
        next herr => exact Or.inl ⟨rfl, hrule.resolve_right fun h => herr h.1⟩

/-! ## The loop -/

/-- The queue and the pool, put in the place of those of the state. -/
def Server.withQueue (s : Server σ) (queue : List Prep) (free : ℕ) : Server σ :=
  { s with prepQueue := queue, prepFree := free }

section WithQueue

variable (s : Server σ) (queue : List Prep) (free : ℕ)

theorem Server.changeAware_withQueue (req : Bool) : (s.withQueue queue free).changeAware req =
      Prod.map id (·.withQueue queue free) (s.changeAware req) := by
  have hcf : (s.withQueue queue free).cf = s.cf := rfl
  rw [changeAware, changeAware, hcf]
  split
  next => rfl
  next cf _ =>
    by_cases hrobust : cf.robust
    · by_cases haware : cf.aware
      · simp [hrobust, haware]
      · by_cases hlearnt : (cf.hashRead || s.fixedOnly && s.oosSent) = true
        · cases req <;> simp [hrobust, haware, hlearnt, withQueue]
        · have hlearnt' : ¬ (cf.hashRead || (s.withQueue queue free).fixedOnly &&
            (s.withQueue queue free).oosSent) = true := hlearnt
          cases req <;> simp [hrobust, haware, hlearnt, hlearnt']
    · simp [hrobust]

theorem Server.outOfSync_withQueue (req : Bool) : (s.withQueue queue free).outOfSync req =
      Prod.map id (·.withQueue queue free) (s.outOfSync req) := by
  rw [outOfSync, outOfSync, changeAware_withQueue]
  rcases s.changeAware req with ⟨_ | _, s'⟩
  · have hsent : (s'.withQueue queue free).oosSent = s'.oosSent := rfl
    simp only [Prod.map, id, hsent]
    cases s'.oosSent <;> rfl
  · rfl

theorem Server.createPdu_withQueue (len : ℕ) : (s.withQueue queue free).createPdu len =
      Prod.map id (·.withQueue queue free) (s.createPdu len) := by
  have hmtu : (s.withQueue queue free).mtu = s.mtu := rfl
  rw [createPdu, createPdu, hmtu]
  by_cases h : s.mtu < len + 1
  · rw [if_pos h, if_pos h]
    rfl
  · rw [if_neg h, if_neg h]
    rfl

theorem Server.sendErrRsp_withQueue (req : UInt8) (handle : UInt16) (err : UInt8) :
    (s.withQueue queue free).sendErrRsp req handle err =
      (s.sendErrRsp req handle err).withQueue queue free := by
  simp only [sendErrRsp, createPdu_withQueue]
  split_ifs
  · rfl
  · rcases s.createPdu 4 with ⟨_ | _, s'⟩
    all_goals rfl

theorem Server.writeCb_passes (req : UInt8) (value : List UInt8) (offset : UInt16) :
    Gatt.Passes (writeCb (σ := σ) req value offset)
      (Prod.map id (·.withQueue queue free)) := by
  rintro attr handle ⟨err, s⟩
  have hperm : (s.withQueue queue free).checkPerm attr.data permWriteMask =
      s.checkPerm attr.data permWriteMask := rfl
  have hcall : ∀ flags, (s.withQueue queue free).callWrite attr.data handle value offset flags =
      Prod.map id (·.withQueue queue free)
        (s.callWrite attr.data handle value offset flags) := by
    intro flags
    simp only [callWrite]
    split <;> rfl
  simp only [writeCb, Prod.map, id] at hcall ⊢
  simp only [hperm, hcall]
  split_ifs <;> first | rfl | contradiction

theorem Server.attWriteRsp_withQueue (handle offset : UInt16) (value : List UInt8) :
    (s.withQueue queue free).attWriteRsp execWriteReq 0 handle offset value =
      Prod.map id (·.withQueue queue free)
        (s.attWriteRsp execWriteReq 0 handle offset value) := by
  simp only [attWriteRsp, outOfSync_withQueue]
  rcases s.outOfSync (decide (execWriteReq ≠ 0)) with ⟨_ | err, s'⟩
  · have hdb : (s'.withQueue queue free).db = s'.db := rfl
    have hmap : s'.db.foreachAttr handle handle (writeCb execWriteReq value offset)
        (invalidHandle, s'.withQueue queue free) = Prod.map id (·.withQueue queue free)
          (s'.db.foreachAttr handle handle (writeCb execWriteReq value offset)
            (invalidHandle, s')) :=
      s'.db.foreachAttrType_map (writeCb_passes queue free execWriteReq value offset) 0
        (invalidHandle, s')
    simp only [Prod.map, id, if_true, hdb] at hmap ⊢
    split
    · rfl
    · rw [hmap]
      split <;> rfl
  · rfl

/-- One round of the loop: a write, and the report where it is refused. -/
def Server.makeWrite (s : Server σ) (flags : UInt8) (g : Prep) : UInt8 × Server σ :=
  let r : UInt8 × Server σ :=
    if flags = flagExec then s.attWriteRsp Op.execWriteReq 0 g.handle g.offset g.data else (0, s)
  (r.1, if r.1 ≠ 0 then r.2.sendErrRsp Op.execWriteReq g.handle r.1 else r.2)

theorem Server.makeWrite_withQueue (flags : UInt8) (g : Prep) :
    (s.withQueue queue free).makeWrite flags g =
      Prod.map id (·.withQueue queue free) (s.makeWrite flags g) := by
  rw [makeWrite, makeWrite]
  by_cases h : flags = flagExec
  · simp only [if_pos h, attWriteRsp_withQueue, Prod.map, id, sendErrRsp_withQueue]
    split <;> rfl
  · simp only [if_neg h]
    rfl

end WithQueue

/-- The rounds of the loop, on the writes the queue holds. -/
def Server.writeAll (flags : UInt8) : List Prep → UInt8 → Server σ → UInt8 × Server σ
  | [], err, s => (err, s)
  | g :: gs, _, s => writeAll flags gs (s.makeWrite flags g).1 (s.makeWrite flags g).2

theorem Server.logged_sendErrRsp (s : Server σ) {req : UInt8} (h : req ≠ 0) (handle : UInt16)
    (err : UInt8) : ∃ ev, s.Logged (s.sendErrRsp req handle err) [ev] ∧
      (ev = .sent (errorPdu req handle err) ∨ ev = .lost (errorPdu req handle err)) := by
  have hpdu : s.Logged (s.createPdu 4).2 [] := by
    rw [createPdu]
    split_ifs <;> exact ⟨by simp, Eq.refl _, Eq.refl _⟩
  rw [sendErrRsp, if_neg h]
  split
  next heq =>
    rw [heq] at hpdu
    exact ⟨_, hpdu.trans ⟨rfl, rfl, rfl⟩, Or.inl rfl⟩
  next heq =>
    rw [heq] at hpdu
    exact ⟨_, hpdu.trans ⟨rfl, rfl, rfl⟩, Or.inr rfl⟩

theorem Server.makeWrite_logged (s : Server σ) (flags : UInt8) (g : Prep) :
    ∃ evs, s.Logged (s.makeWrite flags g).2 evs := by
  obtain ⟨evs, hlogged, -⟩ := s.attWriteRsp_exec g.handle g.offset g.data
  rw [makeWrite]
  by_cases h : flags = flagExec
  · simp only [if_pos h]
    split
    · obtain ⟨ev, hrep, -⟩ := Server.logged_sendErrRsp
        (s.attWriteRsp execWriteReq 0 g.handle g.offset g.data).2
        (show execWriteReq ≠ 0 by decide) g.handle
        (s.attWriteRsp execWriteReq 0 g.handle g.offset g.data).1
      exact ⟨evs ++ [ev], hlogged.trans hrep⟩
    · exact ⟨evs, hlogged⟩
  · simp only [if_neg h]
    exact ⟨[], .rfl⟩

theorem Server.makeWrite_cfg (s : Server σ) (flags : UInt8) (g : Prep) :
    (s.makeWrite flags g).2.cfg = s.cfg := by
  obtain ⟨evs, hlogged⟩ := s.makeWrite_logged flags g
  exact hlogged.cfg

theorem Server.execLoop_succ (flags : UInt8) (fuel : ℕ) (err : UInt8) (s : Server σ) (buf : Prep)
    (queue : List Prep) (free : ℕ) :
    let r := execWriteReassemble s.cfg.reassembledSize buf.handle buf.offset queue buf.data
    let x := s.makeWrite flags { buf with data := r.data }
    execLoop flags (fuel + 1) err (s.withQueue (buf :: queue) free) = if r.err ≠ 0 then
        (none, (s.sendErrRsp execWriteReq buf.handle r.err).withQueue r.list (free + r.freed))
      else execLoop flags fuel x.1 (x.2.withQueue r.list (free + r.freed + 1)) := by
  intro r x
  -- the round runs with the list that reassembly has left
  have hround : execLoop flags (fuel + 1) err (s.withQueue (buf :: queue) free) =
      let s' := s.withQueue r.list (free + r.freed)
      if r.err ≠ 0 then (none, s'.sendErrRsp execWriteReq buf.handle r.err)
      else
        let y := s'.makeWrite flags { buf with data := r.data }
        execLoop flags fuel y.1 (y.2.withQueue y.2.prepQueue (y.2.prepFree + 1)) := rfl
  have hx : (s.withQueue r.list (free + r.freed)).makeWrite flags { buf with data := r.data } =
      Prod.map id (·.withQueue r.list (free + r.freed)) x := s.makeWrite_withQueue _ _ flags _
  rw [hround]
  simp only [sendErrRsp_withQueue, hx]
  rfl

/-- **A queue that can be taken apart is**: the loop makes its writes, and
returns every entry to the pool. -/
theorem Server.execLoop_mergeable (flags : UInt8) {fuel : ℕ} {queue : List Prep}
    (hfuel : queue.length ≤ fuel) {s : Server σ} (hsize : s.cfg.reassembledSize = size)
    (free : ℕ) (err : UInt8) (h : Mergeable size queue) :
    let r := writeAll flags (groups size fuel queue) err s
    execLoop flags fuel err (s.withQueue queue free) =
      (some r.1, r.2.withQueue [] (free + queue.length)) := by
  induction fuel generalizing queue s free err with
  | zero =>
    obtain rfl : queue = [] := length_eq_zero_iff.1 (by omega)
    rfl
  | succ fuel ih =>
    match queue with
    | [] => rfl
    | buf :: queue =>
      obtain ⟨herr, hrest⟩ := (mergeable_cons_iff buf queue).1 h
      have hlen := @execWriteReassemble_length size buf.handle buf.offset queue buf.data
      simp only [length_cons] at hfuel hlen ⊢
      rw [execLoop_succ, hsize, if_neg (not_not.2 herr),
        ih (by omega) ((congrArg _ (s.makeWrite_cfg flags _)).trans hsize) _ _ hrest]
      rw [show free + (queue.length + 1) = free +
        (execWriteReassemble size buf.handle buf.offset queue buf.data).freed + 1 +
        (execWriteReassemble size buf.handle buf.offset queue buf.data).list.length by omega,
        groups, if_neg (not_not.2 herr)]
      rfl

/-- **A queue that cannot be taken apart is left half way**, with the entry
at hand out of its pool. -/
theorem Server.execLoop_not_mergeable (flags : UInt8) {fuel : ℕ} {queue : List Prep}
    (hfuel : queue.length ≤ fuel) {s : Server σ} (hsize : s.cfg.reassembledSize = size)
    (free : ℕ) (err : UInt8) (h : ¬ Mergeable size queue) :
    let r := execLoop flags fuel err (s.withQueue queue free)
    r.1 = none ∧ r.2.prepFree + r.2.prepQueue.length + 1 = free + queue.length := by
  induction fuel generalizing queue s free err with
  | zero =>
    obtain rfl : queue = [] := length_eq_zero_iff.1 (by omega)
    exact absurd (fun _ => trivial) h
  | succ fuel ih =>
    match queue with
    | [] => exact absurd (fun _ => trivial) h
    | buf :: queue =>
      have hcons := @mergeable_cons_iff size buf queue
      have hlen := @execWriteReassemble_length size buf.handle buf.offset queue buf.data
      simp only [length_cons] at hfuel hlen ⊢
      rw [execLoop_succ, hsize]
      split
      next herr =>
        refine ⟨rfl, ?_⟩
        simp only [withQueue]
        omega
      next herr =>
        obtain ⟨hnone, hcount⟩ := ih (by omega) ((congrArg _ (s.makeWrite_cfg flags _)).trans hsize)
          (free + (execWriteReassemble size buf.handle buf.offset queue buf.data).freed + 1) _
          fun hm => h (hcons.2 ⟨not_not.1 herr, hm⟩)
        refine ⟨hnone, ?_⟩
        rw [hcount]
        omega

/-! ## The first failure -/

/-- The report of `err` at `handle` as the answer to an Execute Write. -/
def Ev.Reports (handle : UInt16) (err : UInt8) (ev : Ev) : Prop :=
  ev = .sent (Server.errorPdu Op.execWriteReq handle err) ∨
    ev = .lost (Server.errorPdu Op.execWriteReq handle err)

/-- Nothing follows the report of an error, and a write that an attribute
did not take is followed by its report. -/
def FirstFailure : List Ev → Prop
  | [] => True
  | ev :: post =>
    ((∃ handle err, ev.Reports handle err) → post = []) ∧
      (∀ handle err, ev.Failed handle err → ∃ rep, rep.Reports handle err ∧ post = [rep]) ∧
      FirstFailure post

/-- Every event is a write that an attribute took. -/
def AllTook (evs : List Ev) : Prop := ∀ ev ∈ evs, ∃ handle, ev.Took handle

theorem Ev.Took.not_reports {ev : Ev} {h : UInt16} (htook : ev.Took handle) :
    ¬ ev.Reports h err := by
  obtain ⟨value, offset, flags, rfl⟩ := htook
  simp [Ev.Reports]

theorem Ev.Took.not_failed {ev : Ev} {h : UInt16} (htook : ev.Took handle) : ¬ ev.Failed h err := by
  obtain ⟨value, offset, flags, rfl⟩ := htook
  rintro ⟨value', offset', flags', result, heq, hne, -⟩
  obtain ⟨-, rfl, -, -, rfl⟩ := Ev.wrote.inj heq
  exact hne rfl

theorem Ev.Failed.not_reports {ev : Ev} {h : UInt16} {err' : UInt8}
    (hfailed : ev.Failed handle err) : ¬ ev.Reports h err' := by
  obtain ⟨value, offset, flags, result, rfl, -⟩ := hfailed
  simp [Ev.Reports]

theorem Ev.Reports.not_failed {ev : Ev} {h : UInt16} {err' : UInt8}
    (hreports : ev.Reports handle err) : ¬ ev.Failed h err' :=
  fun hfailed => hfailed.not_reports hreports

theorem Passed.allTook (h : Passed handle evs) : AllTook evs :=
  fun ev hev => ⟨handle, h ev hev⟩

theorem allTook_append : AllTook (evs ++ evs') ↔ AllTook evs ∧ AllTook evs' := by
  simp only [AllTook, mem_append, or_imp, forall_and]

theorem firstFailure_append {took : List Ev} (h : AllTook took) :
    FirstFailure (took ++ evs) ↔ FirstFailure evs := by
  induction took with
  | nil => rfl
  | cons ev took ih =>
    obtain ⟨handle, htook⟩ := h ev (by simp)
    rw [cons_append, FirstFailure, ih fun e he => h e (by simp [he])]
    refine ⟨fun h => h.2.2, fun h => ⟨?_, ?_, h⟩⟩
    · exact fun ⟨_, _, hreports⟩ => absurd hreports htook.not_reports
    · exact fun _ _ hfailed => absurd hfailed htook.not_failed

theorem firstFailure_end {rep : Ev} (h : Refused handle err evs) (hrep : rep.Reports handle err) :
    FirstFailure (evs ++ [rep]) := by
  have hend : FirstFailure [rep] :=
    ⟨fun _ => rfl, fun _ _ hfailed => absurd hfailed hrep.not_failed, trivial⟩
  obtain ⟨took, htook, rfl | ⟨ev, hfailed, rfl⟩⟩ := h
  · exact (firstFailure_append htook.allTook).2 hend
  · rw [append_assoc, firstFailure_append htook.allTook]
    refine ⟨fun ⟨_, _, hreports⟩ => absurd hreports hfailed.not_reports, ?_, hend⟩
    rintro h' err' ⟨value, offset, flags, result, heq, -, rfl⟩
    obtain ⟨value', offset', flags', result', rfl, -, rfl⟩ := hfailed
    obtain ⟨rfl, -, -, -, rfl⟩ := Ev.wrote.inj heq
    exact ⟨rep, hrep, rfl⟩

theorem not_firstFailure {rep : Ev} (hrep : rep.Reports handle err)
    (pre : List Ev) {post : List Ev} (hpost : post ≠ []) : ¬ FirstFailure (pre ++ rep :: post) := by
  induction pre with
  | nil => exact fun h => hpost (h.1 ⟨handle, err, hrep⟩)
  | cons ev pre ih => exact fun h => ih h.2.2

/-- Every write but the last goes through, each in the state the ones
before it have left. -/
def Server.AcceptsAllButLast : Server σ → List Prep → Prop
  | _, [] => True
  | _, [_] => True
  | s, g :: g' :: gs =>
    (s.attWriteRsp Op.execWriteReq 0 g.handle g.offset g.data).1 = 0 ∧
      AcceptsAllButLast (s.attWriteRsp Op.execWriteReq 0 g.handle g.offset g.data).2 (g' :: gs)

/-- **One round with the execute flag.** The write passes, or its refusal is
reported. -/
theorem Server.makeWrite_exec (s : Server σ) (g : Prep) :
    let r := s.attWriteRsp execWriteReq 0 g.handle g.offset g.data
    (r.1 = 0 ∧ s.makeWrite flagExec g = r ∧ ∃ evs, s.Logged r.2 evs ∧ AllTook evs) ∨
      (r.1 ≠ 0 ∧ (s.makeWrite flagExec g).1 = r.1 ∧
        ∃ evs rep, s.Logged (s.makeWrite flagExec g).2 (evs ++ [rep]) ∧
          Refused g.handle r.1 evs ∧ rep.Reports g.handle r.1) := by
  intro r
  obtain ⟨evs, hlogged, ⟨hzero, hpassed⟩ | ⟨herr, hrefused⟩⟩ :=
    s.attWriteRsp_exec g.handle g.offset g.data
  · refine Or.inl ⟨hzero, ?_, evs, hlogged, hpassed.allTook⟩
    simp only [makeWrite, if_true]
    rw [if_neg (not_not.2 hzero)]
  · obtain ⟨rep, hsent, hrep⟩ := r.2.logged_sendErrRsp (show execWriteReq ≠ 0 by decide)
      g.handle r.1
    have hmake : s.makeWrite flagExec g = (r.1, r.2.sendErrRsp execWriteReq g.handle r.1) := by
      simp only [makeWrite, if_true]
      rw [if_pos herr]
    rw [hmake]
    exact Or.inr ⟨herr, rfl, evs, rep, hlogged.trans hsent, hrefused, hrep⟩

theorem Server.writeAll_accepts {gs : List Prep} {s : Server σ} (h : s.AcceptsAllButLast gs) :
    let r := writeAll flagExec gs 0 s
    ∃ evs, s.Logged r.2 evs ∧ (r.1 = 0 ∧ AllTook evs ∨ r.1 ≠ 0 ∧ FirstFailure evs) := by
  induction gs generalizing s with
  | nil => exact ⟨[], .rfl, Or.inl ⟨rfl, by simp [AllTook]⟩⟩
  | cons g gs ih =>
    match gs with
    | [] =>
      rcases s.makeWrite_exec g with
        ⟨hzero, hmake, evs, hlogged, htook⟩ | ⟨herr, hmake, evs, rep, hlogged, hrefused, hrep⟩
      · refine ⟨evs, ?_, Or.inl ⟨?_, htook⟩⟩
        · rwa [writeAll, hmake]
        · rwa [writeAll, hmake]
      · refine ⟨evs ++ [rep], hlogged, Or.inr ⟨?_, firstFailure_end hrefused hrep⟩⟩
        rwa [writeAll, writeAll, hmake]
    | g' :: gs =>
      obtain ⟨hfirst, hrest⟩ := h
      obtain ⟨-, hmake, evs, hlogged, htook⟩ :=
        (s.makeWrite_exec g).resolve_right fun hr => hr.1 hfirst
      obtain ⟨evs', hlogged', hend⟩ := ih hrest
      rw [← hmake] at hlogged hlogged' hend
      refine ⟨evs ++ evs', hlogged.trans hlogged', ?_⟩
      rcases hend with ⟨hzero, htook'⟩ | ⟨herr, hfirst'⟩
      · exact Or.inl ⟨hzero, allTook_append.2 ⟨htook, htook'⟩⟩
      · exact Or.inr ⟨herr, (firstFailure_append htook).2 hfirst'⟩

theorem Server.writeAll_logged {gs : List Prep} (s : Server σ) (hne : gs ≠ []) (err : UInt8) :
    let r := writeAll flagExec gs err s
    ∃ evs, s.Logged r.2 evs ∧ (r.1 ≠ 0 → evs ≠ []) := by
  induction gs generalizing s err with
  | nil => exact absurd rfl hne
  | cons g gs ih =>
    have hround : ∃ evs, s.Logged (s.makeWrite flagExec g).2 evs ∧
        ((s.makeWrite flagExec g).1 ≠ 0 → evs ≠ []) := by
      rcases s.makeWrite_exec g with
        ⟨hzero, hmake, evs, hlogged, -⟩ | ⟨-, -, evs, rep, hlogged, -, -⟩
      · exact ⟨evs, hmake ▸ hlogged, fun h => absurd (hmake ▸ hzero) h⟩
      · exact ⟨evs ++ [rep], hlogged, fun _ => by simp⟩
    obtain ⟨evs, hlogged, herr⟩ := hround
    by_cases hgs : gs = []
    · subst hgs
      exact ⟨evs, hlogged, herr⟩
    · obtain ⟨evs', hlogged', herr'⟩ :=
        ih (s.makeWrite flagExec g).2 hgs (s.makeWrite flagExec g).1
      exact ⟨evs ++ evs', hlogged.trans hlogged', fun h => by simp [herr' h]⟩

theorem Server.writeAll_refuses {gs : List Prep} {s : Server σ} (err : UInt8)
    (h : ¬ s.AcceptsAllButLast gs) :
    let r := writeAll flagExec gs err s
    ∃ pre rep post handle err', s.Logged r.2 (pre ++ rep :: post) ∧
      rep.Reports handle err' ∧ (r.1 ≠ 0 → post ≠ []) := by
  induction gs generalizing s err with
  | nil => exact absurd trivial h
  | cons g gs ih =>
    match gs with
    | [] => exact absurd trivial h
    | g' :: gs =>
      rcases s.makeWrite_exec g with
        ⟨hzero, hmake, evs, hlogged, -⟩ | ⟨-, -, evs, rep, hlogged, -, hrep⟩
      · obtain ⟨pre, rep, post, handle, err', hlogged', hrep, hpost⟩ :=
          ih (s.makeWrite flagExec g).1 fun hrest => h ⟨hzero, hmake ▸ hrest⟩
        rw [← hmake] at hlogged
        refine ⟨evs ++ pre, rep, post, handle, err', ?_, hrep, hpost⟩
        rw [append_assoc]
        exact hlogged.trans hlogged'
      · obtain ⟨post, hlogged', hpost⟩ :=
          (s.makeWrite flagExec g).2.writeAll_logged (cons_ne_nil g' gs)
            (s.makeWrite flagExec g).1
        refine ⟨evs, rep, post, _, _, ?_, hrep, hpost⟩
        have htrans := hlogged.trans hlogged'
        rwa [append_assoc] at htrans

/-! ## Execute Write -/

/-- **What Execute Write owes**: an empty queue, every entry back in its
pool; with any flag but the execute flag, no write and a response; with
the execute flag, no write after the first failure, and its report. -/
def Server.LeavesNoResidue (s : Server σ) (flags : UInt8) : Prop :=
  let r := s.attExecWriteRsp flags
  r.2.prepQueue = [] ∧ r.2.prepFree = s.prepFree + s.prepQueue.length ∧
    ∃ evs, r.2.log = s.log ++ evs ∧
      (flags ≠ flagExec → r.1 = 0 ∧ evs = [.sent [Op.execWriteRsp]]) ∧
      (flags = flagExec → FirstFailure evs ∧
        ((∃ ev ∈ evs, ∃ handle err, Ev.Reports handle err ev) → r.1 = 0))

/-- A buffer can be had for a response without parameters. -/
def Server.HasBuffer (s : Server σ) : Prop := 0 < s.mtu ∧ s.buffers s.tried = true

/-- What is left to do behind the loop. -/
def Server.execDone (s : Server σ) : UInt8 × Server σ :=
  match s.createPdu 0 with
  | (false, s) => (Err.unlikely, s)
  | (true, s) => (0, s.sendRsp [Op.execWriteRsp])

theorem Server.execDone_spec (s : Server σ) :
    let r := s.execDone
    r.2.prepQueue = s.prepQueue ∧ r.2.prepFree = s.prepFree ∧
      (s.HasBuffer ∧ r.1 = 0 ∧ r.2.log = s.log ++ [.sent [execWriteRsp]] ∨
        ¬ s.HasBuffer ∧ r.1 ≠ 0 ∧ r.2.log = s.log) := by
  simp only [execDone, createPdu, HasBuffer]
  by_cases hmtu : s.mtu < 0 + 1
  · rw [if_pos hmtu]
    exact ⟨rfl, rfl, Or.inr ⟨by omega, by simp [unlikely], rfl⟩⟩
  · rw [if_neg hmtu]
    rcases hbuf : s.buffers s.tried with _ | _
    · exact ⟨rfl, rfl, Or.inr ⟨by simp, by simp [unlikely], rfl⟩⟩
    · exact ⟨rfl, rfl, Or.inl ⟨⟨by omega, rfl⟩, rfl, rfl⟩⟩

/-- The state in which the loop leaves a queue that it has taken apart. -/
def Server.drained (s : Server σ) (flags : UInt8) : UInt8 × Server σ :=
  let r := writeAll flags (merged s.cfg.reassembledSize s.prepQueue) 0 s
  (r.1, r.2.withQueue [] (s.prepFree + s.prepQueue.length))

theorem Server.attExecWriteRsp_mergeable {s : Server σ} (flags : UInt8)
    (h : Mergeable s.cfg.reassembledSize s.prepQueue) : s.attExecWriteRsp flags =
      if (s.drained flags).1 ≠ 0 then (0, (s.drained flags).2)
      else (s.drained flags).2.execDone := by
  have hloop : execLoop flags s.prepQueue.length 0 s =
      (some (s.drained flags).1, (s.drained flags).2) :=
    execLoop_mergeable (s := s) flags le_rfl rfl s.prepFree 0 h
  rw [attExecWriteRsp, hloop]
  rfl

theorem Server.writeAll_discard {flags : UInt8} (h : flags ≠ flagExec) (gs : List Prep)
    (s : Server σ) : writeAll flags gs 0 s = (0, s) := by
  have hround : ∀ g, s.makeWrite flags g = (0, s) := by
    intro g
    simp [makeWrite, h]
  induction gs with
  | nil => rfl
  | cons g gs ih => rw [writeAll, hround, ih]

theorem Server.hasBuffer_discard {flags : UInt8} (h : flags ≠ flagExec) (s : Server σ) :
    (s.drained flags).2.HasBuffer ↔ s.HasBuffer := by
  rw [drained, writeAll_discard h]
  rfl

theorem AllTook.firstFailure (h : AllTook evs) : FirstFailure evs := by
  have happend : FirstFailure (evs ++ []) ↔ FirstFailure [] := firstFailure_append h
  rw [append_nil] at happend
  exact happend.2 trivial

theorem Server.leavesNoResidue_exec {s : Server σ} (h : Mergeable s.cfg.reassembledSize s.prepQueue)
    (haccepts : s.AcceptsAllButLast (merged s.cfg.reassembledSize s.prepQueue)) :
    s.LeavesNoResidue flagExec := by
  have hrsp : FirstFailure [.sent [execWriteRsp]] :=
    ⟨fun _ => rfl, fun _ _ ⟨_, _, _, _, hfailed, _⟩ => by simp at hfailed, trivial⟩
  obtain ⟨evs, hlogged, hends⟩ := writeAll_accepts haccepts
  have hlog : (s.drained flagExec).2.log = s.log ++ evs := hlogged.log
  have hend : (s.drained flagExec).1 = 0 ∧ AllTook evs ∨
      (s.drained flagExec).1 ≠ 0 ∧ FirstFailure evs := hends
  rw [LeavesNoResidue, attExecWriteRsp_mergeable flagExec h]
  rcases hend with ⟨hzero, htook⟩ | ⟨herr, hfirst⟩
  · rw [if_neg (not_not.2 hzero)]
    obtain ⟨hqueue, hfree, hdone⟩ := (s.drained flagExec).2.execDone_spec
    have hnone : ¬ ∃ ev ∈ evs, ∃ handle err, Ev.Reports handle err ev := by
      rintro ⟨ev, hev, handle, err, hreports⟩
      obtain ⟨h', htook⟩ := htook ev hev
      exact htook.not_reports hreports
    refine ⟨hqueue, hfree, ?_⟩
    rcases hdone with ⟨-, hcode, hlog'⟩ | ⟨-, -, hlog'⟩
    · refine ⟨evs ++ [.sent [execWriteRsp]], by rw [hlog', hlog, append_assoc],
        fun hne => absurd rfl hne, fun _ => ⟨(firstFailure_append htook).2 hrsp, fun _ => hcode⟩⟩
    · exact ⟨evs, by rw [hlog', hlog], fun hne => absurd rfl hne,
        fun _ => ⟨htook.firstFailure, fun hex => absurd hex hnone⟩⟩
  · rw [if_pos herr]
    exact ⟨rfl, rfl, evs, hlog, fun hne => absurd rfl hne, fun _ => ⟨hfirst, fun _ => rfl⟩⟩

theorem Server.not_leavesNoResidue_exec {s : Server σ}
    (h : Mergeable s.cfg.reassembledSize s.prepQueue)
    (haccepts : ¬ s.AcceptsAllButLast (merged s.cfg.reassembledSize s.prepQueue)) :
    ¬ s.LeavesNoResidue flagExec := by
  obtain ⟨pre, rep, post, handle, err, hlogged, hrep, hpost⟩ := writeAll_refuses 0 haccepts
  have hlog : (s.drained flagExec).2.log = s.log ++ (pre ++ rep :: post) := hlogged.log
  rw [LeavesNoResidue, attExecWriteRsp_mergeable flagExec h]
  rintro ⟨-, -, evs, hevs, -, hexec⟩
  obtain ⟨hfirst, hcode⟩ := hexec rfl
  by_cases herr : (s.drained flagExec).1 ≠ 0
  · rw [if_pos herr] at hevs
    obtain rfl := append_cancel_left (hlog.symm.trans hevs)
    exact not_firstFailure hrep pre (hpost herr) hfirst
  · rw [if_neg herr] at hevs hcode
    obtain ⟨-, -, hdone⟩ := (s.drained flagExec).2.execDone_spec
    rcases hdone with ⟨-, -, hlog'⟩ | ⟨-, hne, hlog'⟩
    · rw [hlog', hlog, append_assoc] at hevs
      obtain rfl := append_cancel_left hevs
      rw [append_assoc, cons_append] at hfirst
      exact not_firstFailure hrep pre (by simp) hfirst
    · rw [hlog', hlog] at hevs
      obtain rfl := append_cancel_left hevs
      exact hne (hcode ⟨rep, by simp, handle, err, hrep⟩)

/-- **When Execute Write leaves no residue**: where the queue can be taken
apart and, with the execute flag, every write but the last goes through;
without it, where a response can be had. -/
theorem execute_leaves_no_residue (s : Server σ) (flags : UInt8) :
    s.LeavesNoResidue flags ↔
      Mergeable s.cfg.reassembledSize s.prepQueue ∧
        (flags = flagExec →
          s.AcceptsAllButLast (merged s.cfg.reassembledSize s.prepQueue)) ∧
        (flags ≠ flagExec → s.HasBuffer) := by
  by_cases hmerge : Mergeable s.cfg.reassembledSize s.prepQueue
  · by_cases hflags : flags = flagExec
    · subst hflags
      have hexec : s.LeavesNoResidue flagExec ↔
          s.AcceptsAllButLast (merged s.cfg.reassembledSize s.prepQueue) :=
        ⟨fun h => by_contra fun hn => Server.not_leavesNoResidue_exec hmerge hn h,
          Server.leavesNoResidue_exec hmerge⟩
      simp [hexec, hmerge]
    · have hzero : (s.drained flags).1 = 0 := by
        rw [Server.drained, Server.writeAll_discard hflags]
      have hlog : (s.drained flags).2.log = s.log := by
        rw [Server.drained, Server.writeAll_discard hflags]
        rfl
      obtain ⟨hqueue, hfree, hdone⟩ := (s.drained flags).2.execDone_spec
      rw [Server.hasBuffer_discard hflags, hlog] at hdone
      rw [Server.LeavesNoResidue, Server.attExecWriteRsp_mergeable flags hmerge,
        if_neg (not_not.2 hzero)]
      refine ⟨fun ⟨_, _, _, _, hcancel, _⟩ => ⟨hmerge, fun he => absurd he hflags, fun _ => ?_⟩,
        fun ⟨_, _, hbuf⟩ => ⟨hqueue, hfree, ?_⟩⟩
      · rcases hdone with ⟨hbuf, -⟩ | ⟨-, hne, -⟩
        · exact hbuf
        · exact absurd (hcancel hflags).1 hne
      · rcases hdone with ⟨-, hcode, hlog'⟩ | ⟨hno, -⟩
        · exact ⟨_, hlog', fun _ => ⟨hcode, rfl⟩, fun he => absurd he hflags⟩
        · exact absurd (hbuf hflags) hno
  · refine ⟨fun h => ?_, fun h => absurd h.1 hmerge⟩
    obtain ⟨hnone, hcount⟩ :=
      Server.execLoop_not_mergeable (s := s) flags le_rfl rfl s.prepFree 0 hmerge
    have hret : s.attExecWriteRsp flags =
        (0, (Server.execLoop flags s.prepQueue.length 0 s).2) := by
      have hs : (Server.execLoop flags s.prepQueue.length 0 s).1 = none := hnone
      rw [Server.attExecWriteRsp]
      split
      next heq => rw [heq]
      next heq => simp [heq] at hs
    have hcount' : (Server.execLoop flags s.prepQueue.length 0 s).2.prepFree +
        (Server.execLoop flags s.prepQueue.length 0 s).2.prepQueue.length + 1 =
        s.prepFree + s.prepQueue.length := hcount
    rw [Server.LeavesNoResidue, hret] at h
    obtain ⟨hqueue, hfree, -⟩ := h
    rw [hqueue, hfree, List.length_nil] at hcount'
    omega

/-- A writable attribute that answers a write with `result`. -/
def sampleAttr (result : List UInt8 → ℤ) : Gatt.Attr (AttrOps Unit) where
  uuid := .u16 0x2a00
  handle := 0
  autoAssignedHandle := false
  data :=
    { perm := permWrite
      read := none
      write := some fun app value _ _ => (result value, app)
      readAuthorize := fun _ => true
      writeAuthorize := fun _ => true }

/-- A server whose attribute at handle 1 turns every write down, and whose
attribute at handle 2 takes it. -/
def sampleServer : Server Unit where
  cfg := ⟨false, true, 64, 64, 4, true, true⟩
  connected := true
  attached := true
  db := .init ⟨[[sampleAttr fun _ => -0x80, sampleAttr fun value => value.length]], by decide⟩
  app := ()
  sec := ⟨false, false, 1, false⟩
  cf := none
  enhanced := false
  fixedOnly := true
  oosSent := false
  rxMtu := 64
  txMtu := 64
  prepQueue := []
  prepFree := 4
  buffers := fun _ => true
  tried := 0
  log := []

/-- The sample server after some Prepare Write requests. -/
def samplePrepared (reqs : List (List UInt8)) : Server Unit :=
  reqs.foldl (fun s req => (s.attPrepareWriteReq req).2) sampleServer

/-- Two parts of which the second does not follow the first stay in the
queue when it is cancelled; and where the first of two writes fails, the
second is made all the same. -/
theorem execute_leaves_residue :
    ¬ (samplePrepared [[2, 0, 0, 0, 7], [2, 0, 5, 0, 8]]).LeavesNoResidue flagCancel ∧
      ¬ (samplePrepared [[1, 0, 0, 0, 7], [2, 0, 0, 0, 8]]).LeavesNoResidue flagExec := by
  constructor
  · intro h
    have hqueue : ((samplePrepared [[2, 0, 0, 0, 7], [2, 0, 5, 0, 8]]).attExecWriteRsp
        flagCancel).2.prepQueue ≠ [] := by decide
    exact hqueue h.1
  · rintro ⟨-, -, evs, hevs, -, hexec⟩
    have hlog : ((samplePrepared [[1, 0, 0, 0, 7], [2, 0, 0, 0, 8]]).attExecWriteRsp
        flagExec).2.log = (samplePrepared [[1, 0, 0, 0, 7], [2, 0, 0, 0, 8]]).log ++
          [.wrote 1 [7] 0 writeFlagExecute (-0x80),
            .sent (Server.errorPdu Op.execWriteReq 1 0x80),
            .wrote 2 [8] 0 writeFlagExecute 1,
            .sent [Op.execWriteRsp]] := by decide
    obtain rfl := List.append_cancel_left (hlog.symm.trans hevs)
    exact not_firstFailure (Or.inl rfl) [_] (by simp) (hexec rfl).1

end Att

end OpenBlue
