import OpenBlue.Att.Answer
import OpenBlue.Common.Pack
import OpenBlue.Gatt.Model.Write
/-!
# GATT — the long write, end to end

A client cuts a value into chunks of the MTU, the server stores each and
echoes it, and the client goes on behind what has been echoed. The server
takes the length of a chunk as one byte, so that of a chunk of 256 bytes
or more only the length modulo 256 is stored and echoed: the client makes
up for the rest, until a chunk of exactly 256 bytes is stored as none.
The write arrives exactly where no chunk is that long.
-/

namespace OpenBlue

namespace Gatt

open List LongWrite Nat

open Att

variable {σ : Type*}

/-! ## The server's half -/

/-- The server lets the client write the attribute: the bearer is up, the
client is aware of every change, and the attribute is there, is permitted,
and takes prepared values. -/
structure Serving (s : Server σ) (attr : Attr (AttrOps σ)) (handle : UInt16) : Prop where
  connected : s.connected = true
  attached : s.attached = true
  roomy : s.Roomy
  prepares : 0 < s.cfg.prepareCount
  aware : s.cf.all (fun cf => !cf.robust || cf.aware) = true
  ordered : s.db.Ordered
  mem : (attr, handle) ∈ s.db.all
  handle_ne_zero : handle ≠ 0
  perm : s.checkPerm attr.data permWriteMask = 0
  authorize : ∀ app, attr.data.writeAuthorize app = true
  accepts : attr.data.perm &&& permPrepareWrite ≠ 0 → ∀ write ∈ attr.data.write,
    ∀ app value offset, (write app value offset writeFlagPrepare).1 = 0

/-- The states differ in what handling a write changes. -/
structure Follows (s s' : Server σ) : Prop where
  cfg : s'.cfg = s.cfg
  connected : s'.connected = s.connected
  attached : s'.attached = s.attached
  db : s'.db = s.db
  sec : s'.sec = s.sec
  cf : s'.cf = s.cf
  rxMtu : s'.rxMtu = s.rxMtu
  txMtu : s'.txMtu = s.txMtu
  buffers : s'.buffers = s.buffers

variable {attr : Attr (AttrOps σ)} {s : Server σ} {handle : UInt16}

theorem Serving.follows {s' : Server σ}
    (h : Serving s attr handle) (hs : Follows s s') : Serving s' attr handle where
  connected := hs.connected.trans h.connected
  attached := hs.attached.trans h.attached
  roomy := ⟨by rw [hs.buffers]; exact h.roomy.buffers,
    by rw [Server.mtu, hs.rxMtu, hs.txMtu]; exact h.roomy.mtu⟩
  prepares := by rw [hs.cfg]; exact h.prepares
  aware := by rw [hs.cf]; exact h.aware
  ordered := by rw [hs.db]; exact h.ordered
  mem := by rw [hs.db]; exact h.mem
  handle_ne_zero := h.handle_ne_zero
  perm := by rw [Server.checkPerm, hs.cfg, hs.sec]; exact h.perm
  authorize := h.authorize
  accepts := h.accepts

theorem Serving.outOfSync
    (h : Serving s attr handle) (req : Bool) : s.outOfSync req = (none, s) := by
  have haware : s.changeAware req = (true, s) := by
    have hcf := h.aware
    rw [Server.changeAware]
    split
    next => rfl
    next cf heq =>
      rw [heq] at hcf
      rcases hrobust : cf.robust with _ | _
      · simp
      · have haware : cf.aware = true := by simpa [hrobust] using hcf
        simp [haware]
  rw [Server.outOfSync, haware]

theorem Serving.write_isSome
    (h : Serving s attr handle) : ∃ write, attr.data.write = some write := by
  have hperm := h.perm
  rcases hwrite : attr.data.write with _ | write
  · have hread : permWriteMask &&& permRead = 0 := by decide
    have hmask : permWriteMask &&& permWrite ≠ 0 := by decide
    have herr : Err.writeNotPermitted ≠ 0 := by decide
    simp [Server.checkPerm, hwrite, hread, hmask, herr] at hperm
  · exact ⟨write, rfl⟩

theorem createPdu_eq (h : s.Roomy) {len : ℕ} (hlen : len < 23) :
    s.createPdu len = (true, { s with tried := s.tried + 1 }) := by
  have := h.mtu
  rw [Server.createPdu, if_neg (by omega), h.buffers]

theorem handler_prepare {cfg : Config} (h : 0 < cfg.prepareCount) :
    Server.handler (σ := σ) cfg Op.prepareWriteReq =
      some ⟨Op.prepareWriteReq, 4, .request, Server.attPrepareWriteReq⟩ := by
  rw [Server.handler, Server.handlers, if_pos h]
  split_ifs <;> rfl

theorem handler_exec {cfg : Config} (h : 0 < cfg.prepareCount) :
    Server.handler (σ := σ) cfg Op.execWriteReq =
      some ⟨Op.execWriteReq, 1, .request, Server.attExecWriteReq⟩ := by
  rw [Server.handler, Server.handlers, if_pos h]
  split_ifs <;> rfl

/-- What a value of a Prepare Write comes down to in the server. -/
def stored (value : List UInt8) : List UInt8 := value.take (value.length % 256)

/-- Calls of the write callback to ask whether it takes a prepared value. -/
def Asked (evs : List Ev) : Prop :=
  ∀ ev ∈ evs, ∃ handle value offset, ev = .wrote handle value offset writeFlagPrepare 0

/-- **One call of `prep_write_cb`** at the attribute. -/
theorem Serving.prepWriteCb
    (h : Serving s attr handle) (value : List UInt8) (offset : UInt16) (err : UInt8)
    (buf : Option Prep) :
    ∃ app evs, Asked evs ∧ (Server.prepWriteCb value offset attr handle (err, buf, s)).2 =
        if s.prepFree = 0 then
          (Err.prepareQueueFull, none, { s with app, log := s.log ++ evs })
        else
          (0, some ⟨handle, offset, value⟩,
            { s with app, prepFree := s.prepFree - 1, log := s.log ++ evs }) := by
  obtain ⟨write, hwrite⟩ := h.write_isSome
  have hauth := h.authorize s.app
  simp only [Server.prepWriteCb, h.perm, ne_eq, not_true, if_false, hauth]
  by_cases hasks : attr.data.perm &&& permPrepareWrite = 0
  · refine ⟨s.app, [], by simp [Asked], ?_⟩
    simp only [hasks, if_true, not_true, if_false, append_nil]
    split <;> rfl
  · have hzero := h.accepts hasks write hwrite s.app value offset
    refine ⟨(write s.app value offset writeFlagPrepare).2,
      [.wrote handle value offset writeFlagPrepare 0], by simp [Asked], ?_⟩
    simp only [hasks, if_false, Server.callWrite, hwrite, hzero, not_true]
    split <;> rfl

/-- The response to a Prepare Write. -/
def echoPdu (handle offset : UInt16) (value : List UInt8) : List UInt8 :=
  Op.prepareWriteRsp :: (le16 handle.toNat ++ le16 offset.toNat ++ value)

/-- **The server on a Prepare Write**: the value, cut by the one byte of
its length, is stored and echoed, unless the pool is empty. -/
theorem Serving.recv_prepare
    (h : Serving s attr handle) (offset : UInt16) (value : List UInt8) :
    ∃ app tried evs, Asked evs ∧ s.recv (WriteReq.pdu (.prepare handle offset value)) =
        if s.prepFree = 0 then
          { s with
            app, tried
            log := s.log ++ (evs ++
              [.sent (Server.errorPdu Op.prepareWriteReq handle Err.prepareQueueFull)]) }
        else
          { s with
            app, tried
            prepQueue := s.prepQueue ++ [⟨handle, offset, stored value⟩]
            prepFree := s.prepFree - 1
            log := s.log ++ (evs ++ [.sent (echoPdu handle offset (stored value))]) } := by
  have hlen : ¬ (le16 handle.toNat ++ (le16 offset.toNat ++ value)).length < 4 := by simp; omega
  have hhandle : UInt16.ofNat (getLe16 (le16 handle.toNat ++ (le16 offset.toNat ++ value))) =
      handle := by rw [getLe16_le16 handle.toNat_lt, UInt16.ofNat_toNat]
  have hoffset : UInt16.ofNat (getLe16 ((le16 handle.toNat ++ (le16 offset.toNat ++ value)).drop
      2)) = offset := by
    have hdrop : (le16 handle.toNat ++ (le16 offset.toNat ++ value)).drop 2 =
        le16 offset.toNat ++ value := rfl
    rw [hdrop, getLe16_le16 offset.toNat_lt, UInt16.ofNat_toNat]
  have hvalue : (le16 handle.toNat ++ (le16 offset.toNat ++ value)).drop 4 = value := rfl
  have htake : value.take (UInt8.ofNat value.length).toNat = stored value := by
    rw [UInt8.toNat_ofNat']
    rfl
  have hdispatch : s.recv (WriteReq.pdu (.prepare handle offset value)) =
      let r := s.attPrepWriteRsp handle offset value (UInt8.ofNat value.length)
      if r.1 ≠ 0 then r.2.sendErrRsp Op.prepareWriteReq 0 r.1 else r.2 := by
    simp only [WriteReq.pdu, Server.recv, h.connected, h.attached, not_true, if_false,
      handler_prepare h.prepares, hlen, true_and, Server.attPrepareWriteReq, hhandle, hoffset,
      hvalue]
  obtain ⟨app, evs, hasked, hcb⟩ := h.prepWriteCb (stored value) offset Err.invalidHandle none
  have hforeach := h.ordered.foreachAttr_single h.mem (Server.prepWriteCb (stored value) offset)
    (Err.invalidHandle, none, s)
  rw [hdispatch, Server.attPrepWriteRsp, h.outOfSync]
  simp only [h.handle_ne_zero, if_false, htake]
  dsimp only at hforeach
  rw [hforeach, hcb]
  by_cases hfree : s.prepFree = 0
  · have hroom : ({ s with app, log := s.log ++ evs } : Server σ).Roomy :=
      ⟨h.roomy.buffers, h.roomy.mtu⟩
    have hfull : Err.prepareQueueFull ≠ 0 := by decide
    have hreq : Op.prepareWriteReq ≠ 0 := by decide
    refine ⟨app, s.tried + 1, evs, hasked, ?_⟩
    simp only [if_pos hfree, if_pos hfull, Server.sendErrRsp, if_neg hreq, not_true, if_false,
      ne_eq, createPdu_eq hroom (show 4 < 23 by decide), Server.sendRsp, append_assoc]
  · have hroom : ({ s with
        app, prepFree := s.prepFree - 1, log := s.log ++ evs
        prepQueue := s.prepQueue ++ [⟨handle, offset, stored value⟩] } : Server σ).Roomy :=
      ⟨h.roomy.buffers, h.roomy.mtu⟩
    refine ⟨app, s.tried + 1, evs, hasked, ?_⟩
    simp only [if_neg hfree, not_true, if_false, ne_eq, Option.toList_some,
      createPdu_eq hroom (show 0 < 23 by decide), Server.sendRsp, echoPdu, append_assoc]

/-- What the execute phase has brought to the attributes. -/
def executed (evs : List Ev) : List (UInt16 × List UInt8 × UInt16) :=
  evs.filterMap fun
    | .wrote handle value offset flags _ =>
      if flags = writeFlagExecute then some (handle, value, offset) else none
    | _ => none

theorem executed_append (evs evs' : List Ev) :
    executed (evs ++ evs') = executed evs ++ executed evs' := by
  rw [executed, filterMap_append]
  rfl

theorem Asked.executed {evs : List Ev} (h : Asked evs) : executed evs = [] := by
  refine filterMap_eq_nil_iff.2 fun ev hev => ?_
  obtain ⟨handle, value, offset, rfl⟩ := h ev hev
  rfl

/-- **One call of `write_cb`** at the attribute. -/
theorem Serving.foreach_write
    (h : Serving s attr handle) (req : UInt8) (value : List UInt8) (offset : UInt16) :
    ∃ (result : ℤ) (app : σ),
      s.db.foreachAttr handle handle (Server.writeCb req value offset) (Err.invalidHandle, s) =
        (if result < 0 ∨ result ≠ value.length then errToAtt result else 0,
          { s with
            app
            log := s.log ++ [.wrote handle value offset
              (if req = 0 then writeFlagCmd
                else if req = Op.execWriteReq then writeFlagExecute else 0) result] }) := by
  obtain ⟨write, hwrite⟩ := h.write_isSome
  have hforeach := h.ordered.foreachAttr_single h.mem (Server.writeCb req value offset)
    (Err.invalidHandle, s)
  dsimp only at hforeach
  generalize hflags : (if req = 0 then writeFlagCmd
    else if req = Op.execWriteReq then writeFlagExecute else 0) = flags
  obtain ⟨result, app, hcall⟩ : ∃ result app, write s.app value offset flags = (result, app) :=
    ⟨_, _, rfl⟩
  refine ⟨result, app, ?_⟩
  simp only [hforeach, Server.writeCb, h.perm, ne_eq, not_true, if_false, h.authorize s.app,
    hflags, Server.callWrite, hwrite, hcall]
  split <;> rfl

/-- **One round of the execute phase**: the attribute is called with the
value, and what follows are responses. -/
theorem Serving.makeWrite (h : Serving s attr handle) (offset : UInt16) (data : List UInt8) :
    ∃ result evs, (s.makeWrite flagExec ⟨handle, offset, data⟩).2.log =
      s.log ++ .wrote handle data offset writeFlagExecute result :: evs ∧ executed evs = [] := by
  obtain ⟨result, app, hforeach⟩ := h.foreach_write Op.execWriteReq data offset
  have hexec : Op.execWriteReq ≠ 0 := by decide
  simp only [hexec, if_false, if_true] at hforeach
  have hwrote : s.attWriteRsp Op.execWriteReq 0 handle offset data =
      (if result < 0 ∨ result ≠ data.length then errToAtt result else 0,
        { s with app, log := s.log ++ [.wrote handle data offset writeFlagExecute result] }) := by
    rw [Server.attWriteRsp, h.outOfSync]
    simp only [h.handle_ne_zero, if_false, if_true, hforeach, ne_eq]
    by_cases hbad : result < 0 ∨ ¬ result = data.length
    · have hne := errToAtt_ne_zero result
      simp only [if_pos hbad, hne, not_false_eq_true, if_true]
    · simp only [if_neg hbad, not_true, if_false]
  generalize (if result < 0 ∨ result ≠ data.length then errToAtt result else 0) = err at hwrote
  refine ⟨result, ?_⟩
  simp only [Server.makeWrite, if_true, hwrote]
  split
  · obtain ⟨ev, hlogged, hev⟩ := Server.logged_sendErrRsp
      { s with app, log := s.log ++ [.wrote handle data offset writeFlagExecute result] } hexec
      handle err
    refine ⟨[ev], by rw [hlogged.log]; simp, ?_⟩
    rcases hev with rfl | rfl <;> rfl
  · exact ⟨[], rfl, rfl⟩

theorem execLoop_log (flags : UInt8) (fuel : ℕ) (err : UInt8) (s : Server σ) :
    ∃ evs, (Server.execLoop flags fuel err s).2.log = s.log ++ evs := by
  induction fuel generalizing err s with
  | zero => exact ⟨[], by simp [Server.execLoop]⟩
  | succ fuel ih =>
    rcases hqueue : s.prepQueue with _ | ⟨buf, queue⟩
    · exact ⟨[], by simp [Server.execLoop, hqueue]⟩
    · have hround := s.execLoop_succ flags fuel err buf queue s.prepFree
      have hs : s.withQueue (buf :: queue) s.prepFree = s := by rw [← hqueue]; rfl
      have hexec : Op.execWriteReq ≠ 0 := by decide
      rw [hs] at hround
      dsimp only at hround
      generalize Server.execWriteReassemble s.cfg.reassembledSize buf.handle buf.offset queue
        buf.data = r at hround
      rw [hround]
      split
      · obtain ⟨ev, hlogged, -⟩ := s.logged_sendErrRsp hexec buf.handle r.err
        exact ⟨[ev], hlogged.log⟩
      · obtain ⟨evs, hlogged⟩ := s.makeWrite_logged flags { buf with data := r.data }
        obtain ⟨evs', hevs'⟩ := ih (s.makeWrite flags { buf with data := r.data }).1
          ((s.makeWrite flags { buf with data := r.data }).2.withQueue r.list
            (s.prepFree + r.freed + 1))
        refine ⟨evs ++ evs', ?_⟩
        rw [hevs', ← append_assoc, ← hlogged.log]
        rfl

theorem Serving.recv_exec_log (h : Serving s attr handle) (flags : UInt8) :
    ∃ evs, (s.recv (WriteReq.pdu (.exec flags))).log =
      (Server.execLoop flags s.prepQueue.length 0 s).2.log ++ evs ∧ executed evs = [] := by
  have hexec : Op.execWriteReq ≠ 0 := by decide
  have hdispatch : s.recv (WriteReq.pdu (.exec flags)) = let r := s.attExecWriteRsp flags
      if r.1 ≠ 0 then r.2.sendErrRsp Op.execWriteReq 0 r.1 else r.2 := by
    simp [WriteReq.pdu, Server.recv, h.connected, h.attached, handler_exec h.prepares,
      Server.attExecWriteReq]
  have hend : ∃ evs, (s.attExecWriteRsp flags).2.log =
      (Server.execLoop flags s.prepQueue.length 0 s).2.log ++ evs ∧ executed evs = [] := by
    rw [Server.attExecWriteRsp]
    split
    next heq => exact ⟨[], by simp [heq], rfl⟩
    next err s' heq =>
      rw [heq]
      split
      · exact ⟨[], by simp, rfl⟩
      · obtain ⟨-, -, ⟨-, -, hlog⟩ | ⟨-, -, hlog⟩⟩ := s'.execDone_spec
        · exact ⟨_, hlog, rfl⟩
        · exact ⟨[], by rw [append_nil]; exact hlog, rfl⟩
  obtain ⟨evs, hevs, hnone⟩ := hend
  rw [hdispatch]
  dsimp only
  split
  · obtain ⟨ev, hlogged, hev⟩ := (s.attExecWriteRsp flags).2.logged_sendErrRsp hexec 0
      (s.attExecWriteRsp flags).1
    refine ⟨evs ++ [ev], by rw [hlogged.log, hevs, append_assoc], ?_⟩
    rw [executed_append, hnone]
    rcases hev with rfl | rfl <;> rfl
  · exact ⟨evs, hevs, hnone⟩

/-- **The server on an Execute Write** of the entries of one handle: the
attribute is called with what the first of them are put together to, unless
they cannot be. -/
theorem Serving.recv_exec {offset : UInt16}
    {data : List UInt8} {queue : List Prep} (h : Serving s attr handle)
    (hqueue : s.prepQueue = ⟨handle, offset, data⟩ :: queue) :
    let r := Server.execWriteReassemble s.cfg.reassembledSize handle offset queue data
    ∃ evs, (s.recv (WriteReq.pdu (.exec flagExec))).log = s.log ++ evs ∧
      (r.err ≠ 0 → executed evs = []) ∧
      (r.err = 0 → ∃ tail, executed evs = (handle, r.data, offset) :: tail ∧
        (r.list = [] → tail = [])) := by
  obtain ⟨evs, hevs, hnone⟩ := h.recv_exec_log flagExec
  have hround := s.execLoop_succ flagExec queue.length 0 ⟨handle, offset, data⟩ queue s.prepFree
  have hs : s.withQueue (⟨handle, offset, data⟩ :: queue) s.prepFree = s := by rw [← hqueue]; rfl
  have hexec : Op.execWriteReq ≠ 0 := by decide
  rw [hs] at hround
  dsimp only at hround ⊢
  rw [hqueue, length_cons, hround] at hevs
  generalize Server.execWriteReassemble s.cfg.reassembledSize handle offset queue data = r
    at hevs ⊢
  by_cases herr : r.err = 0
  · rw [if_neg (not_not.2 herr)] at hevs
    obtain ⟨result, made, hmade, hmadeNone⟩ := h.makeWrite offset r.data
    obtain ⟨rest, hrest⟩ := execLoop_log flagExec queue.length
      (s.makeWrite flagExec ⟨handle, offset, r.data⟩).1
      ((s.makeWrite flagExec ⟨handle, offset, r.data⟩).2.withQueue r.list
        (s.prepFree + r.freed + 1))
    have hlog : (s.recv (WriteReq.pdu (.exec flagExec))).log =
        s.log ++ (.wrote handle r.data offset writeFlagExecute result :: made ++ rest ++ evs) := by
      rw [hevs, hrest]
      simp only [Server.withQueue, hmade, append_assoc]
    have hfirst : executed [.wrote handle r.data offset writeFlagExecute result] =
        [(handle, r.data, offset)] := rfl
    refine ⟨_, hlog, fun hne => absurd herr hne, fun _ => ⟨executed rest, ?_, fun hlist => ?_⟩⟩
    · rw [← singleton_append, executed_append, executed_append, executed_append, hfirst,
        hmadeNone, hnone]
      simp
    · have hstop : Server.execLoop flagExec queue.length
          (s.makeWrite flagExec ⟨handle, offset, r.data⟩).1
          ((s.makeWrite flagExec ⟨handle, offset, r.data⟩).2.withQueue r.list
            (s.prepFree + r.freed + 1)) =
          (some (s.makeWrite flagExec ⟨handle, offset, r.data⟩).1,
            (s.makeWrite flagExec ⟨handle, offset, r.data⟩).2.withQueue r.list
              (s.prepFree + r.freed + 1)) := by
        rw [hlist]
        cases queue.length <;> rfl
      rw [hstop] at hrest
      have hnil : rest = [] := self_eq_append_right.1 hrest
      rw [hnil]
      rfl
  · rw [if_pos herr] at hevs
    obtain ⟨ev, hlogged, hev⟩ := s.logged_sendErrRsp hexec handle r.err
    have hlog : (s.recv (WriteReq.pdu (.exec flagExec))).log = s.log ++ ([ev] ++ evs) := by
      rw [hevs, ← append_assoc, ← hlogged.log]
      rfl
    refine ⟨_, hlog, fun _ => ?_, fun h0 => absurd h0 herr⟩
    rw [executed_append, hnone]
    rcases hev with rfl | rfl <;> rfl

/-! ## The queue of a value -/

/-- The entries a value leaves in the queue, chunk by chunk. -/
def entries (handle : UInt16) : ℕ → List (List UInt8) → List Prep
  | _, [] => []
  | offset, c :: cs => ⟨handle, UInt16.ofNat offset, c⟩ :: entries handle (offset + c.length) cs

theorem entries_append (handle : UInt16) (offset : ℕ) (cs : List (List UInt8)) (c : List UInt8) :
    entries handle offset (cs ++ [c]) = entries handle offset cs ++
        [⟨handle, UInt16.ofNat (offset + cs.flatten.length), c⟩] := by
  induction cs generalizing offset with
  | nil => simp [entries]
  | cons d cs ih => simp [entries, ih, Nat.add_assoc]

/-- Every chunk starts at an offset that 16 bits can say. -/
def Below : ℕ → List (List UInt8) → Prop
  | _, [] => True
  | offset, c :: cs => offset < 2 ^ 16 ∧ Below (offset + c.length) cs

variable {cs : List (List UInt8)}

theorem Below.start {offset : ℕ} {cs' : List (List UInt8)} {c : List UInt8}
    (h : Below offset (cs ++ c :: cs')) : offset + cs.flatten.length < 2 ^ 16 := by
  induction cs generalizing offset with
  | nil => exact h.1
  | cons d cs ih =>
    have := ih h.2
    rw [flatten_cons, length_append]
    omega

theorem below_pieces_iff {n : ℕ} (hn : 0 < n) {data : List UInt8} (hdata : data ≠ []) (offset : ℕ) :
    Below offset (pieces n data) ↔ offset + (data.length - 1) / n * n < 2 ^ 16 := by
  induction hlen : data.length using Nat.strong_induction_on generalizing data offset with
  | _ len ih =>
    have hpos : 0 < data.length := length_pos_iff.2 hdata
    rw [pieces_eq_cons hn hdata, Below, length_take, hlen]
    by_cases hle : len ≤ n
    · have hnil : data.drop n = [] := drop_eq_nil_of_le (by omega)
      rw [hnil, pieces_nil, div_eq_of_lt (by omega)]
      simp [Below]
    · have hdrop : (data.drop n).length = len - n := by rw [length_drop, hlen]
      have hne : data.drop n ≠ [] := by
        rw [← length_pos_iff, hdrop]
        omega
      have hdiv : (len - 1) / n = (len - n - 1) / n + 1 := by
        rw [show len - 1 = len - n - 1 + n by omega, add_div_right _ hn]
      rw [ih (len - n) (by omega) hne (offset + min n len) hdrop, hdiv, Nat.add_mul]
      omega

/-- **The chunks of a value are put together** where none starts behind the
offsets there are; else they are not, or only the first of them. -/
theorem reassemble_entries {size : ℕ} (handle offset : UInt16) (cs : List (List UInt8))
    (buf : List UInt8) (hbuf : buf ≠ []) (hcs : ∀ c ∈ cs, c ≠ [] ∧ c.length < 256)
    (hstart : offset.toNat + buf.length < 2 ^ 16 + 256)
    (hsize : buf.length + cs.flatten.length ≤ size) :
    let r := Server.execWriteReassemble size handle offset
      (entries handle (offset.toNat + buf.length) cs) buf
    (Below (offset.toNat + buf.length) cs → r = ⟨0, buf ++ cs.flatten, [], cs.length⟩) ∧
      (¬ Below (offset.toNat + buf.length) cs →
        r.err ≠ 0 ∨ r.data.length < buf.length + cs.flatten.length) := by
  induction cs generalizing buf with
  | nil => simp [entries, Server.execWriteReassemble, Below]
  | cons c cs ih =>
    obtain ⟨hc, hshort⟩ := hcs c (by simp)
    have hc : 0 < c.length := length_pos_iff.2 hc
    have hb : 0 < buf.length := length_pos_iff.2 hbuf
    have hat : (UInt16.ofNat (offset.toNat + buf.length)).toNat =
        (offset.toNat + buf.length) % 2 ^ 16 := UInt16.toNat_ofNat'
    rw [flatten_cons, length_append] at hsize ⊢
    rw [entries, Server.execWriteReassemble, if_pos rfl, Below]
    by_cases hlt : offset.toNat + buf.length < 2 ^ 16
    · have hzero : UInt16.ofNat (offset.toNat + buf.length) ≠ 0 := by
        intro h0
        rw [h0, UInt16.toNat_zero] at hat
        omega
      have hrest := ih (buf ++ c) (by simp [hbuf]) (fun d hd => hcs d (by simp [hd]))
        (by rw [length_append]; omega) (by rw [length_append]; omega)
      rw [length_append, ← Nat.add_assoc] at hrest
      rw [if_neg hzero, if_neg (by rw [hat, mod_eq_of_lt hlt]; omega),
        if_neg (by simp only; omega)]
      refine ⟨fun h => ?_, fun h => ?_⟩
      · simp [hrest.1 h.2]
      · have hlonger := hrest.2 fun h' => h ⟨hlt, h'⟩
        rwa [Nat.add_assoc buf.length] at hlonger
    · refine ⟨fun h => absurd h.1 hlt, fun _ => ?_⟩
      by_cases hzero : UInt16.ofNat (offset.toNat + buf.length) = 0
      · rw [if_pos hzero]
        exact Or.inr (by simp only; omega)
      · have hinvalid : Err.invalidOffset ≠ 0 := by decide
        rw [if_neg hzero, if_pos (by rw [hat]; omega)]
        exact Or.inl hinvalid

/-! ## The client's half -/

theorem Follows.rfl : Follows s s :=
  ⟨Eq.refl _, Eq.refl _, Eq.refl _, Eq.refl _, Eq.refl _, Eq.refl _, Eq.refl _, Eq.refl _,
    Eq.refl _⟩

theorem Follows.trans {s' t : Server σ} (h : Follows s s') (h' : Follows s' t) : Follows s t where
  cfg := h'.cfg.trans h.cfg
  connected := h'.connected.trans h.connected
  attached := h'.attached.trans h.attached
  db := h'.db.trans h.db
  sec := h'.sec.trans h.sec
  cf := h'.cf.trans h.cf
  rxMtu := h'.rxMtu.trans h.rxMtu
  txMtu := h'.txMtu.trans h.txMtu
  buffers := h'.buffers.trans h.buffers

theorem Follows.mtu {s' : Server σ} (h : Follows s s') : s'.mtu = s.mtu := by
  rw [Server.mtu, h.rxMtu, h.txMtu, Server.mtu]

/-- The request behind which `rest` is left to write. -/
def nextReq (mtu : ℕ) (params : WriteParams) : WriteReq :=
  if params.data = [] then .exec flagExec else btGattWrite mtu params

/-- **The invariant of the procedure**: the chunks `cs` are in the queue, and
the client goes on with `rest`. -/
structure Storing (s : Server σ) (params : WriteParams) (cs : List (List UInt8))
    (rest : List UInt8) (x : LongWrite σ) : Prop where
  follows : Follows s x.server
  left : x.params = ⟨params.handle, UInt16.ofNat (params.offset.toNat + cs.flatten.length), rest⟩
  stage : x.stage = .waiting (nextReq s.mtu x.params)
  queue : x.server.prepQueue = entries params.handle params.offset.toNat cs
  free : x.server.prepFree + cs.length = s.prepFree
  log : ∃ evs, x.server.log = s.log ++ evs ∧ executed evs = []

variable {params : WriteParams}

theorem Storing.start (hqueue : s.prepQueue = [])
    (hdata : params.data ≠ []) : Storing s params [] params.data (.start s params) where
  follows := .rfl
  left := by simp [LongWrite.start]
  stage := by simp [LongWrite.start, nextReq, hdata]
  queue := hqueue
  free := Eq.refl _
  log := ⟨[], by simp [LongWrite.start], Eq.refl _⟩

theorem answerSince_append {log evs : List Ev} {pdu : List UInt8}
    (hasked : Asked evs) (hlog : s.log = log ++ (evs ++ [.sent pdu])) :
    answerSince log.length s = some pdu := by
  rw [answerSince, hlog, drop_left, findSome?_append]
  refine Option.or_eq_some_iff.2 (Or.inr ⟨findSome?_eq_none_iff.2 fun ev hev => ?_, rfl⟩)
  obtain ⟨handle, value, offset, rfl⟩ := hasked ev hev
  rfl

theorem length_stored (value : List UInt8) : (stored value).length = value.length % 256 := by
  rw [stored, length_take]
  have := mod_le value.length 256
  omega

theorem gattPrepareWriteRsp_echo (mtu : ℕ) (params : WriteParams) {value : List UInt8}
    (hvalue : value = params.data.take value.length) :
    let params' : WriteParams :=
      { params with
        offset := params.offset + UInt16.ofNat value.length
        data := params.data.drop value.length }
    gattPrepareWriteRsp mtu params (rspErr (echoPdu params.handle params.offset value))
      (echoPdu params.handle params.offset value).tail =
      (params', .waiting (nextReq mtu params')) := by
  have hop : Op.prepareWriteRsp ≠ Op.errorRsp := by decide
  have hle : value.length ≤ params.data.length := by
    have := congrArg List.length hvalue
    rw [length_take] at this
    omega
  have htail : (echoPdu params.handle params.offset value).tail =
      le16 params.handle.toNat ++ (le16 params.offset.toNat ++ value) := by simp [echoPdu]
  have hlen : (le16 params.handle.toNat ++ (le16 params.offset.toNat ++ value)).length =
      value.length + 4 := by simp; omega
  have hoffset : getLe16 ((le16 params.handle.toNat ++ (le16 params.offset.toNat ++ value)).drop
      2) = params.offset.toNat := by
    have hdrop : (le16 params.handle.toNat ++ (le16 params.offset.toNat ++ value)).drop 2 =
        le16 params.offset.toNat ++ value := rfl
    rw [hdrop, getLe16_le16 params.offset.toNat_lt]
  have hdata : (le16 params.handle.toNat ++ (le16 params.offset.toNat ++ value)).drop 4 = value :=
    rfl
  rw [htail, echoPdu, rspErr, if_neg hop, gattPrepareWriteRsp, if_neg (not_not.2 rfl), hlen,
    if_neg (by omega), hoffset, hdata]
  simp only [Nat.add_sub_cancel, not_lt.2 hle, if_false, ne_eq, not_true, false_or, ← hvalue,
    nextReq, length_eq_zero_iff]
  split <;> rfl

variable {x : LongWrite σ}

theorem LongWrite.round_prepare {offset : UInt16}
    {value rsp : List UInt8} (hstage : x.stage = .waiting (.prepare handle offset value))
    (hrsp : answerSince x.server.log.length
      (x.server.recv (WriteReq.pdu (.prepare handle offset value))) = some rsp) : x.round =
      { params := (gattPrepareWriteRsp x.server.mtu x.params (rspErr rsp) rsp.tail).1
        stage := (gattPrepareWriteRsp x.server.mtu x.params (rspErr rsp) rsp.tail).2
        server := x.server.recv (WriteReq.pdu (.prepare handle offset value)) } := by
  rw [LongWrite.round, hstage]
  simp only [hrsp]

/-- **One round with a Prepare Write**: the client goes on behind what has
been stored of its chunk, or is told that the pool is empty. -/
theorem Serving.round_prepare
    (h : Serving s attr params.handle) (hfollows : Follows s x.server)
    (hparams : x.params = params) (hstage : x.stage = .waiting (gattPrepareWrite s.mtu params)) :
    let value := stored (params.data.take (s.mtu - 5))
    Follows s x.round.server ∧
      (∃ evs, x.round.server.log = x.server.log ++ evs ∧ executed evs = []) ∧
      ((x.server.prepFree = 0 ∧ ∃ err, x.round.stage = .finished err) ∨ (0 < x.server.prepFree ∧
          x.round.params =
            { params with
              offset := params.offset + UInt16.ofNat value.length
              data := params.data.drop value.length } ∧
          x.round.stage = .waiting (nextReq s.mtu x.round.params) ∧
          x.round.server.prepQueue = x.server.prepQueue ++ [⟨params.handle, params.offset, value⟩] ∧
          x.round.server.prepFree + 1 = x.server.prepFree)) := by
  intro value
  have hchunk : gattPrepareWrite s.mtu params =
      .prepare params.handle params.offset (params.data.take (s.mtu - 5)) := by
    rw [gattPrepareWrite, Nat.sub_sub]
    congr 1
    rw [take_eq_take_iff]
    omega
  have hvalue : value = params.data.take value.length := by
    simp only [value, stored, take_take, length_take]
    rw [take_eq_take_iff]
    have := mod_le (min (s.mtu - 5) params.data.length) 256
    omega
  obtain ⟨app, tried, evs, hasked, hrecv⟩ :=
    (h.follows hfollows).recv_prepare params.offset (params.data.take (s.mtu - 5))
  rw [hchunk] at hstage
  have hnone : ∀ pdu, executed (evs ++ [.sent pdu]) = [] := by
    intro pdu
    rw [executed_append, hasked.executed]
    rfl
  by_cases hfree : x.server.prepFree = 0
  · rw [if_pos hfree] at hrecv
    have hround := LongWrite.round_prepare hstage (answerSince_append hasked (by rw [hrecv]))
    rw [hround, hrecv]
    refine ⟨hfollows.trans ⟨rfl, rfl, rfl, rfl, rfl, rfl, rfl, rfl, rfl⟩, ⟨_, rfl, hnone _⟩,
      Or.inl ⟨hfree, Err.prepareQueueFull, ?_⟩⟩
    have herr : rspErr (Server.errorPdu Op.prepareWriteReq params.handle Err.prepareQueueFull) =
        Err.prepareQueueFull := rfl
    have hne : Err.prepareQueueFull ≠ 0 := by decide
    simp only [herr, gattPrepareWriteRsp, if_pos hne]
  · rw [if_neg hfree] at hrecv
    have hround := LongWrite.round_prepare hstage (answerSince_append hasked (by rw [hrecv]))
    rw [hfollows.mtu, hparams, gattPrepareWriteRsp_echo s.mtu params hvalue, hrecv] at hround
    rw [hround]
    refine ⟨hfollows.trans ⟨rfl, rfl, rfl, rfl, rfl, rfl, rfl, rfl, rfl⟩, ⟨_, rfl, hnone _⟩,
      Or.inr ⟨by omega, rfl, rfl, rfl, ?_⟩⟩
    simp only
    omega

theorem Storing.round {rest : List UInt8}
    (hs : Serving s attr params.handle) (h : Storing s params cs rest x)
    (hreq : nextReq s.mtu x.params = gattPrepareWrite s.mtu x.params)
    (hshort : rest.length < 256 ∨ s.mtu < 261) (hfree : cs.length < s.prepFree) :
    Storing s params (cs ++ [rest.take (s.mtu - 5)]) (rest.drop (s.mtu - 5)) x.round := by
  have hstage := h.stage
  rw [hreq] at hstage
  have hs' : Serving s attr x.params.handle := by
    rw [h.left]
    exact hs
  obtain ⟨hfollows, ⟨evs, hlog, hnone⟩, hend⟩ := hs'.round_prepare h.follows rfl hstage
  rw [h.left] at hend
  dsimp only at hend
  have hstored : stored (rest.take (s.mtu - 5)) = rest.take (s.mtu - 5) := by
    rw [stored, take_eq_self_iff, length_take]
    exact (mod_eq_of_lt (by omega)).ge
  have hcount := h.free
  have hdrop : rest.drop (rest.take (s.mtu - 5)).length = rest.drop (s.mtu - 5) := by
    rw [length_take, drop_eq_drop_iff]
    omega
  rcases hend with ⟨hzero, -⟩ | ⟨-, hparams, hnext, hqueue, hfree'⟩
  · omega
  · rw [hstored] at hparams hqueue
    obtain ⟨before, hbefore, hbeforeNone⟩ := h.log
    refine ⟨hfollows, ?_, hnext, ?_, ?_, before ++ evs, ?_, ?_⟩
    · rw [hparams, hdrop, ← UInt16.ofNat_add]
      simp [Nat.add_assoc]
    · rw [hqueue, h.queue, entries_append]
    · rw [length_append, length_singleton]
      omega
    · rw [hlog, hbefore, append_assoc]
    · rw [executed_append, hbeforeNone, hnone]
      rfl

theorem LongWrite.round_server {req : WriteReq} (h : x.stage = .waiting req) :
    x.round.server = x.server.recv req.pdu := by
  rw [LongWrite.round, h]
  dsimp only
  split
  · rfl
  · cases req <;> rfl

theorem LongWrite.round_last {req : WriteReq} (h : x.stage = .waiting req)
    (hreq : ∀ handle offset value, req ≠ .prepare handle offset value) :
    ∃ err, x.round.stage = .finished err := by
  rw [LongWrite.round, h]
  dsimp only
  split
  · exact ⟨_, rfl⟩
  · cases req with
    | prepare handle offset value => exact absurd rfl (hreq handle offset value)
    | write => exact ⟨_, rfl⟩
    | exec => exact ⟨_, rfl⟩

theorem LongWrite.rounds_finished {err : UInt8} (h : x.stage = .finished err)
    (n : ℕ) : x.rounds n = x := by
  have hround : x.round = x := by rw [LongWrite.round, h]
  induction n with
  | zero => rfl
  | succ n ih => rw [LongWrite.rounds, hround, ih]

theorem LongWrite.rounds_add (x : LongWrite σ) (m n : ℕ) :
    x.rounds (m + n) = (x.rounds m).rounds n := by
  induction m generalizing x with
  | zero => rw [Nat.zero_add, LongWrite.rounds]
  | succ m ih => rw [succ_add, LongWrite.rounds, ih, LongWrite.rounds]

theorem LongWrite.rounds_unique {m n : ℕ} {err err' : UInt8}
    (h : (x.rounds m).stage = .finished err) (h' : (x.rounds n).stage = .finished err') :
    x.rounds m = x.rounds n := by
  rcases Nat.le_total m n with hle | hle
  · obtain ⟨k, rfl⟩ := Nat.exists_eq_add_of_le hle
    rw [rounds_add, rounds_finished h]
  · obtain ⟨k, rfl⟩ := Nat.exists_eq_add_of_le hle
    rw [rounds_add, rounds_finished h']

theorem handler_write (cfg : Config) : Server.handler (σ := σ) cfg Op.writeReq =
      some ⟨Op.writeReq, 2, .request, Server.attWriteReq⟩ := by
  rw [Server.handler, Server.handlers]
  split_ifs <;> rfl

theorem Serving.recv_write (h : Serving s attr handle) (value : List UInt8) :
    ∃ evs, (s.recv (WriteReq.pdu (.write handle value))).log = s.log ++ evs ∧
      executed evs = [] := by
  have hlen : ¬ (le16 handle.toNat ++ value).length < 2 := by
    rw [length_append, length_le16]
    omega
  have hhandle : UInt16.ofNat (getLe16 (le16 handle.toNat ++ value)) = handle := by
    rw [getLe16_le16 handle.toNat_lt, UInt16.ofNat_toNat]
  have hvalue : (le16 handle.toNat ++ value).drop 2 = value := rfl
  have hreq : Op.writeReq ≠ 0 := by decide
  have hrsp : Op.writeRsp ≠ 0 := by decide
  have hexec : Op.writeReq ≠ Op.execWriteReq := by decide
  have hflags : 0 ≠ writeFlagExecute := by decide
  have htried : Serving { s with tried := s.tried + 1 } attr handle :=
    h.follows ⟨rfl, rfl, rfl, rfl, rfl, rfl, rfl, rfl, rfl⟩
  obtain ⟨result, app, hforeach⟩ := htried.foreach_write Op.writeReq value 0
  simp only [hreq, hexec, if_false] at hforeach
  generalize (if result < 0 ∨ result ≠ value.length then errToAtt result else 0) = err at hforeach
  have hdispatch : s.recv (WriteReq.pdu (.write handle value)) =
      let r := s.attWriteRsp Op.writeReq Op.writeRsp handle 0 value
      if r.1 ≠ 0 then r.2.sendErrRsp Op.writeReq 0 r.1 else r.2 := by
    simp only [WriteReq.pdu, Server.recv, h.connected, h.attached, not_true, if_false,
      handler_write, hlen, true_and, Server.attWriteReq, hhandle, hvalue]
  rw [hdispatch, Server.attWriteRsp, h.outOfSync]
  simp only [h.handle_ne_zero, if_false, hrsp, createPdu_eq h.roomy (show 0 < 23 by decide),
    hforeach, ne_eq, hexec]
  by_cases herr : err = 0
  · simp only [herr, not_true, if_false, Server.sendRsp]
    refine ⟨[_, _], append_assoc _ _ _, ?_⟩
    simp [executed, hflags]
  · simp only [herr, not_false_eq_true, if_true, not_true, if_false]
    obtain ⟨ev, hlogged, hev⟩ := Server.logged_sendErrRsp
      { s with tried := s.tried + 1, app, log := s.log ++ [.wrote handle value 0 0 result] } hreq
      handle err
    refine ⟨[.wrote handle value 0 0 result, ev], by rw [hlogged.log]; simp, ?_⟩
    rcases hev with rfl | rfl <;> simp [executed, hflags]

/-! ## The whole procedure -/

/-- The procedure ends, and in the execute phase the attributes have got the
value at its offset, once, and nothing else. -/
def Delivered (s : Server σ) (params : WriteParams) : Prop :=
  ∃ n err,
    let x := (LongWrite.start s params).rounds n
    x.stage = .finished err ∧
      executed (x.server.log.drop s.log.length) = [(params.handle, params.data, params.offset)]

theorem delivered_iff {n : ℕ} {err : UInt8} {evs : List Ev}
    (h : ((start s params).rounds n).stage = .finished err)
    (hlog : ((start s params).rounds n).server.log = s.log ++ evs) :
    Delivered s params ↔ executed evs = [(params.handle, params.data, params.offset)] := by
  constructor
  · rintro ⟨m, err', hm, hexec⟩
    rwa [rounds_unique hm h, hlog, drop_left] at hexec
  · intro hexec
    exact ⟨n, err, h, by rwa [hlog, drop_left]⟩

/-- **A run over chunks that are short enough**: it comes to the end of the
value, or falls back to a plain write where the offset starts over. -/
theorem Storing.run {rest : List UInt8}
    (hs : Serving s attr params.handle) (h : Storing s params cs rest x)
    (hlong : cs = [] → params.offset ≠ 0 ∨ s.mtu - 1 < 2 + params.data.length)
    (hcs : ∀ c ∈ cs, c ≠ []) (hall : cs ++ pieces (s.mtu - 5) rest = pieces (s.mtu - 5) params.data)
    (hshort : rest.length < 256 ∨ s.mtu < 261)
    (hfree : (pieces (s.mtu - 5) params.data).length ≤ s.prepFree) :
    ∃ n, Storing s params (pieces (s.mtu - 5) params.data) [] (x.rounds n) ∨
      (¬ Below params.offset.toNat (pieces (s.mtu - 5) params.data) ∧ ∃ cs rest value,
        Storing s params cs rest (x.rounds n) ∧
          nextReq s.mtu (x.rounds n).params = .write params.handle value) := by
  have hmtu : 0 < s.mtu - 5 := by
    have := hs.roomy.mtu
    omega
  induction hlen : rest.length using Nat.strong_induction_on generalizing cs rest x with
  | _ len ih =>
    by_cases hrest : rest = []
    · subst hrest
      rw [pieces_nil, append_nil] at hall
      exact ⟨0, Or.inl (hall ▸ h)⟩
    · have hcons := pieces_eq_cons hmtu hrest
      have hleft := h.left
      by_cases hprepare : x.params.offset ≠ 0 ∨ s.mtu - 1 < 2 + rest.length
      · have hreq : nextReq s.mtu x.params = gattPrepareWrite s.mtu x.params := by
          have hdata : x.params.data = rest := by rw [hleft]
          rw [nextReq, hdata, if_neg hrest, btGattWrite, hdata, if_pos hprepare]
        have hcount : cs.length < s.prepFree := by
          rw [← hall, hcons, length_append, length_cons] at hfree
          omega
        have hround := h.round hs hreq hshort hcount
        have hpos : 0 < rest.length := length_pos_iff.2 hrest
        have hne : ∀ c ∈ cs ++ [rest.take (s.mtu - 5)], c ≠ [] := by
          intro c hc
          rcases mem_append.1 hc with hc | hc
          · exact hcs c hc
          · rw [mem_singleton.1 hc, ← length_pos_iff, length_take]
            omega
        have hsplit : cs ++ [rest.take (s.mtu - 5)] ++ pieces (s.mtu - 5) (rest.drop (s.mtu - 5)) =
            pieces (s.mtu - 5) params.data := by
          rw [append_assoc, singleton_append, ← hcons, hall]
        obtain ⟨n, hn⟩ := ih (rest.drop (s.mtu - 5)).length (by rw [length_drop]; omega) hround
          (by simp) hne hsplit (by rw [length_drop]; omega) rfl
        exact ⟨n + 1, hn⟩
      · -- the offset has come to zero again, and the rest fits one PDU
        obtain ⟨hzero, hfits⟩ := not_or.1 hprepare
        refine ⟨0, Or.inr ⟨fun hbelow => ?_, cs, rest, rest, h, ?_⟩⟩
        · rw [← hall, hcons] at hbelow
          have hstart := hbelow.start
          rw [hleft, not_not] at hzero
          have hat := congrArg UInt16.toNat hzero
          rw [UInt16.toNat_ofNat', mod_eq_of_lt hstart, UInt16.toNat_zero] at hat
          cases cs with
          | nil =>
            have hsame : rest = params.data := by
              rw [← flatten_pieces hmtu rest, ← flatten_pieces hmtu params.data, ← hall]
              rfl
            rcases hlong rfl with hoffset | hmore
            · exact hoffset (UInt16.toNat_inj.1 (by rw [UInt16.toNat_zero]; omega))
            · exact hfits (hsame ▸ hmore)
          | cons c cs =>
            have hc : 0 < c.length := length_pos_iff.2 (hcs c (by simp))
            rw [flatten_cons, length_append] at hat
            omega
        · rw [hleft] at hprepare
          rw [rounds, nextReq, hleft, if_neg hrest, btGattWrite, if_neg hprepare]

theorem LongWrite.rounds_succ (x : LongWrite σ) (n : ℕ) : x.rounds (n + 1) = (x.rounds n).round :=
  x.rounds_add n 1

/-- **The execute phase** of a value whose chunks are all in the queue. -/
theorem Storing.delivered_iff {n : ℕ} (hs : Serving s attr params.handle) (hdata : params.data ≠ [])
    (hsize : params.data.length ≤ s.cfg.reassembledSize)
    (hshort : params.data.length < 256 ∨ s.mtu < 261)
    (h : Storing s params (pieces (s.mtu - 5) params.data) []
      ((LongWrite.start s params).rounds n)) :
    Delivered s params ↔ Below params.offset.toNat (pieces (s.mtu - 5) params.data) := by
  have hmtu : 0 < s.mtu - 5 := by
    have := hs.roomy.mtu
    omega
  generalize hx : (LongWrite.start s params).rounds n = x at h
  have hstage : x.stage = .waiting (.exec flagExec) := by
    rw [h.stage, h.left, nextReq, if_pos rfl]
  obtain ⟨err, hfinished⟩ := round_last hstage (by simp)
  have hserver := round_server hstage
  rw [← hx, ← rounds_succ] at hfinished hserver
  -- the queue, entry by entry
  have hflat := flatten_pieces hmtu params.data
  have hcons := pieces_eq_cons hmtu hdata
  have hc : ∀ c ∈ pieces (s.mtu - 5) params.data, c ≠ [] ∧ c.length < 256 := by
    intro c hc
    have hle := length_le_of_mem_pieces hc
    have hsub := (sublist_flatten_of_mem hc).length_le
    rw [hflat] at hsub
    exact ⟨ne_nil_of_mem_pieces hmtu hc, by omega⟩
  have hfirst := hc _ (by rw [hcons]; exact mem_cons_self)
  have hqueue := h.queue
  rw [hcons] at hflat hc
  rw [hcons, entries, UInt16.ofNat_toNat] at hqueue
  rw [flatten_cons] at hflat
  have hlength := congrArg List.length hflat
  rw [length_append] at hlength
  have hoffset := params.offset.toNat_lt
  obtain ⟨hgood, hbad⟩ := @reassemble_entries s.cfg.reassembledSize params.handle
    params.offset (pieces (s.mtu - 5) (params.data.drop (s.mtu - 5)))
    (params.data.take (s.mtu - 5)) hfirst.1 (fun c hmem => hc c (mem_cons_of_mem _ hmem))
    (by omega) (by omega)
  obtain ⟨evs, hlog, hnone, hsome⟩ := (hs.follows h.follows).recv_exec hqueue
  obtain ⟨before, hbefore, hbeforeNone⟩ := h.log
  rw [h.follows.cfg] at hnone hsome
  have hall : ((LongWrite.start s params).rounds (n + 1)).server.log = s.log ++ (before ++ evs) := by
    rw [hserver, hx, hlog, hbefore, append_assoc]
  rw [OpenBlue.Gatt.delivered_iff hfinished hall, executed_append, hbeforeNone, nil_append,
    hcons, Below]
  constructor
  · intro hexec
    refine ⟨hoffset, by_contra fun hbelow => ?_⟩
    rcases hbad hbelow with herr | hshorter
    · rw [hnone herr] at hexec
      exact absurd hexec (by simp)
    · by_cases herr : (Server.execWriteReassemble s.cfg.reassembledSize params.handle params.offset
          (entries params.handle (params.offset.toNat + (params.data.take (s.mtu - 5)).length)
            (pieces (s.mtu - 5) (params.data.drop (s.mtu - 5))))
          (params.data.take (s.mtu - 5))).err = 0
      · obtain ⟨tail, htail, -⟩ := hsome herr
        rw [htail, List.cons.injEq, Prod.mk.injEq, Prod.mk.injEq] at hexec
        rw [hexec.1.2.1] at hshorter
        omega
      · rw [hnone herr] at hexec
        exact absurd hexec (by simp)
  · rintro ⟨-, hbelow⟩
    rw [hgood hbelow] at hsome
    obtain ⟨tail, htail, hnil⟩ := hsome rfl
    rw [htail, hnil rfl, hflat]

/-- **The invariant of a run that gets nowhere**: 256 bytes at least are
left to write, or the procedure has ended, and nothing has been executed. -/
structure Stuck (s : Server σ) (handle : UInt16) (x : LongWrite σ) : Prop where
  log : ∃ evs, x.server.log = s.log ++ evs ∧ executed evs = []
  stage : (∃ err, x.stage = .finished err) ∨
    (Follows s x.server ∧
      ((∃ value, x.stage = .waiting (.write handle value)) ∨
        (x.params.handle = handle ∧ 256 ≤ x.params.data.length ∧
          x.stage = .waiting (gattPrepareWrite s.mtu x.params))))

theorem Stuck.start (hlen : 256 ≤ params.data.length)
    (hlong : params.offset ≠ 0 ∨ s.mtu - 1 < 2 + params.data.length) :
    Stuck s params.handle (LongWrite.start s params) where
  log := ⟨[], by simp [LongWrite.start], rfl⟩
  stage := by
    refine Or.inr ⟨.rfl, Or.inr ⟨rfl, hlen, ?_⟩⟩
    simp only [LongWrite.start, btGattWrite, if_pos hlong]

theorem Stuck.round (hs : Serving s attr handle) (hmtu : 261 ≤ s.mtu) (h : Stuck s handle x) :
    Stuck s handle x.round := by
  obtain ⟨before, hbefore, hbeforeNone⟩ := h.log
  have hgrown : ∀ {evs : List Ev}, x.round.server.log = x.server.log ++ evs → executed evs = [] →
      ∃ evs, x.round.server.log = s.log ++ evs ∧ executed evs = [] := by
    intro evs hlog hnone
    refine ⟨before ++ evs, by rw [hlog, hbefore, append_assoc], ?_⟩
    rw [executed_append, hbeforeNone, hnone]
    rfl
  rcases h.stage with ⟨err, hstage⟩ | ⟨hfollows, ⟨value, hstage⟩ | ⟨hhandle, hlen, hstage⟩⟩
  · have hround : x.round = x := by rw [LongWrite.round, hstage]
    rwa [hround]
  · obtain ⟨evs, hlog, hnone⟩ := (hs.follows hfollows).recv_write value
    rw [← round_server hstage] at hlog
    exact ⟨hgrown hlog hnone, Or.inl (round_last hstage (by simp))⟩
  · have hs' : Serving s attr x.params.handle := hhandle ▸ hs
    obtain ⟨hfollows', ⟨evs, hlog, hnone⟩, hend⟩ := hs'.round_prepare hfollows rfl hstage
    refine ⟨hgrown hlog hnone, ?_⟩
    rcases hend with ⟨-, hfinished⟩ | ⟨-, hparams, hnext, -, -⟩
    · exact Or.inl hfinished
    · have hstored := length_stored (x.params.data.take (s.mtu - 5))
      rw [length_take] at hstored
      have hleft : 256 ≤ x.round.params.data.length := by
        rw [hparams, length_drop, hstored]
        omega
      have hne : x.round.params.data ≠ [] := by
        rw [← length_pos_iff]
        omega
      have hhandle' : x.round.params.handle = handle := by rw [hparams, hhandle]
      rw [nextReq, if_neg hne, btGattWrite, hhandle'] at hnext
      split at hnext
      · exact Or.inr ⟨hfollows', Or.inr ⟨hhandle', hleft, hnext⟩⟩
      · exact Or.inr ⟨hfollows', Or.inl ⟨_, hnext⟩⟩

theorem Stuck.not_delivered
    (hs : Serving s attr params.handle) (hmtu : 261 ≤ s.mtu)
    (h : Stuck s params.handle (LongWrite.start s params)) : ¬ Delivered s params := by
  have hrun : ∀ n, Stuck s params.handle ((LongWrite.start s params).rounds n) := by
    intro n
    induction n with
    | zero => exact h
    | succ n ih =>
      rw [LongWrite.rounds_succ]
      exact ih.round hs hmtu
  rintro ⟨n, err, -, hexec⟩
  obtain ⟨evs, hlog, hnone⟩ := (hrun n).log
  rw [hlog, List.drop_left, hnone] at hexec
  exact absurd hexec (by simp)

/-- **When a long write arrives**: where no chunk is of 256 bytes or more,
and none starts behind the offsets there are. -/
theorem long_write_delivered
    (h : Serving s attr params.handle) (hqueue : s.prepQueue = []) (hdata : params.data ≠ [])
    (hlong : params.offset ≠ 0 ∨ s.mtu - 1 < 2 + params.data.length)
    (hsize : params.data.length ≤ s.cfg.reassembledSize)
    (hfree : params.data.length ⌈/⌉ (s.mtu - 5) ≤ s.prepFree) :
    Delivered s params ↔
      (params.data.length < 256 ∨ s.mtu < 261) ∧
        params.offset.toNat + (params.data.length - 1) / (s.mtu - 5) * (s.mtu - 5) < 2 ^ 16 := by
  have hmtu : 0 < s.mtu - 5 := by
    have := h.roomy.mtu
    omega
  have hbelow := below_pieces_iff hmtu hdata params.offset.toNat
  by_cases hshort : params.data.length < 256 ∨ s.mtu < 261
  · rw [← hbelow]
    obtain ⟨n, hn | ⟨hnot, cs, rest, value, hstoring, hwrite⟩⟩ :=
      (Storing.start hqueue hdata).run h (fun _ => hlong) (by simp) (by simp) hshort
        (by rwa [length_pieces])
    · rw [hn.delivered_iff h hdata hsize hshort]
      exact ⟨fun hb => ⟨hshort, hb⟩, fun hb => hb.2⟩
    · refine iff_of_false ?_ fun hb => hnot hb.2
      have hstage := hstoring.stage
      rw [hwrite] at hstage
      obtain ⟨err, hfinished⟩ := LongWrite.round_last hstage (by simp)
      obtain ⟨before, hbefore, hbeforeNone⟩ := hstoring.log
      obtain ⟨evs, hlog, hnone⟩ := (h.follows hstoring.follows).recv_write value
      rw [← LongWrite.round_server hstage, ← LongWrite.rounds_succ, hbefore,
        List.append_assoc] at hlog
      rw [← LongWrite.rounds_succ] at hfinished
      rw [delivered_iff hfinished hlog, executed_append, hbeforeNone, hnone]
      simp
  · obtain ⟨hlength, hlarge⟩ := not_or.1 hshort
    exact iff_of_false ((Stuck.start (by omega) hlong).not_delivered h (by omega))
      fun hb => hshort hb.1

/-- The sample server on a bearer of some MTU, with its second attribute. -/
def sampleLong (mtu : ℕ) : Server Unit :=
  { sampleServer with
    cfg := { sampleServer.cfg with localMtuUatt := mtu }
    rxMtu := mtu
    txMtu := mtu }

theorem serving_sampleLong {mtu : ℕ} (h : 23 ≤ mtu) :
    Serving (sampleLong mtu) (sampleAttr fun value => value.length) 2 where
  connected := rfl
  attached := rfl
  roomy := ⟨fun _ => rfl, by simp [sampleLong, Server.mtu]; omega⟩
  prepares := by simp [sampleLong, sampleServer]
  aware := rfl
  ordered := Db.ordered_init _
  mem := by exact List.Mem.tail _ (List.Mem.head _)
  handle_ne_zero := by decide
  perm := by rfl
  authorize := fun _ => rfl
  accepts := fun h => absurd rfl h

theorem long_write_delivered_sample :
    Delivered (sampleLong 64) ⟨2, 0, List.replicate 100 7⟩ :=
  (long_write_delivered (serving_sampleLong (by decide)) rfl (by decide) (by decide) (by decide)
    (by decide)).2 (by decide)

/-- With an MTU of 261 the first of two chunks is of 256 bytes: nothing of
it is stored, and the client sends it again until the pool is empty. -/
theorem long_write_not_delivered :
    let params : WriteParams := ⟨2, 0, List.replicate 259 7⟩
    Serving (sampleLong 261) (sampleAttr fun value => value.length) params.handle ∧
      (sampleLong 261).prepQueue = [] ∧ params.data ≠ [] ∧
      (sampleLong 261).mtu - 1 < 2 + params.data.length ∧
      params.data.length ≤ (sampleLong 261).cfg.reassembledSize ∧
      params.data.length ⌈/⌉ ((sampleLong 261).mtu - 5) ≤ (sampleLong 261).prepFree ∧
      params.offset.toNat + params.data.length ≤ 512 ∧
      ¬ Delivered (sampleLong 261) params := by
  intro params
  have hmtu : (sampleLong 261).mtu = 261 := rfl
  have hsize : (sampleLong 261).cfg.reassembledSize = 512 := rfl
  have hoffset : params.offset.toNat = 0 := rfl
  have hlen : params.data.length = 259 := List.length_replicate
  have hserving : Serving (sampleLong 261) (sampleAttr fun value => value.length) params.handle :=
    serving_sampleLong (by decide)
  generalize params = p at *
  have hne : p.data ≠ [] := by
    rw [← List.length_pos_iff]
    omega
  have hlong : (sampleLong 261).mtu - 1 < 2 + p.data.length := by omega
  refine ⟨hserving, rfl, hne, hlong, by omega, ?_, by omega,
    (Stuck.start (by omega) (Or.inr hlong)).not_delivered hserving hmtu.ge⟩
  rw [hlen, hmtu]
  decide

end Gatt

end OpenBlue
