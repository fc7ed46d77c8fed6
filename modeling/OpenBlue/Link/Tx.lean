import Mathlib.Algebra.Order.BigOperators.Group.Multiset
import Mathlib.Data.Multiset.Range
import Mathlib.Tactic.Abel
import OpenBlue.Common.Run
import OpenBlue.Common.Sum
import OpenBlue.Link.Model.Tx
/-!
# Link — TX accounting over runs

Three totals over the connections do not change: the contexts, free or in
a list; the controller buffers, free or taken by a pending packet; and the
callbacks, invoked or still carried by a context (`TxInv`). Each step
moves a context from one place to another (`Moved`). Three things go wrong,
the conditions of `tx_accounting`: a driver that fails after its packet was
completed or reclaimed; a link lost between the check of
`bt_conn_tx_processor` and the list of `send_buf`, whose context is lost
with the next use of the object; and a disconnection with packets pending,
which leaves `in_ll` behind.
-/

namespace OpenBlue

namespace Link

open Finset TxState
open Function List

variable {cfg : TxCfg} {s s' : TxState} {k : ℕ} {c : TxConn} {tx : Tx}

/-! ## The totals -/

/-- The contexts in the lists of a connection. -/
def TxConn.ids (c : TxConn) : Multiset ℕ := ↑((c.pending ++ c.complete).map Tx.id)

/-- The callbacks carried by the contexts of a connection. -/
def TxConn.cbs (c : TxConn) : Multiset ℕ := ↑((c.pending ++ c.complete).filterMap Tx.cb)

/-- All contexts. -/
def TxState.contexts (cfg : TxCfg) (s : TxState) : Multiset ℕ :=
  ↑s.free + ∑ k ∈ range cfg.maxConn, (s.conns k).ids

/-- The packets outstanding on all connections. -/
def TxState.outstanding (cfg : TxCfg) (s : TxState) : ℕ :=
  ∑ k ∈ range cfg.maxConn, (s.conns k).pending.length

/-- All callbacks, invoked or still to be. -/
def TxState.callbacks (cfg : TxCfg) (s : TxState) : Multiset ℕ :=
  ↑s.called + ∑ k ∈ range cfg.maxConn, (s.conns k).cbs

theorem contexts_setConn (hk : k < cfg.maxConn) :
    (s.setConn k c).contexts cfg + (s.conns k).ids = s.contexts cfg + c.ids := by
  rw [TxState.contexts, TxState.contexts, add_assoc, add_assoc]
  exact congrArg _ (sum_update_add TxConn.ids s.conns (mem_range.2 hk) c)

theorem outstanding_setConn (hk : k < cfg.maxConn) :
    (s.setConn k c).outstanding cfg + (s.conns k).pending.length =
      s.outstanding cfg + c.pending.length :=
  sum_update_add (fun c => c.pending.length) s.conns (mem_range.2 hk) c

theorem callbacks_setConn (hk : k < cfg.maxConn) :
    (s.setConn k c).callbacks cfg + (s.conns k).cbs = s.callbacks cfg + c.cbs := by
  rw [TxState.callbacks, TxState.callbacks, add_assoc, add_assoc]
  exact congrArg _ (sum_update_add TxConn.cbs s.conns (mem_range.2 hk) c)

/-- The totals are the same in both states. -/
structure Moved (cfg : TxCfg) (s s' : TxState) : Prop where
  contexts : s'.contexts cfg = s.contexts cfg
  sem : s'.sem + s'.outstanding cfg = s.sem + s.outstanding cfg
  callbacks : s'.callbacks cfg = s.callbacks cfg
  nextPdu : s'.nextPdu = s.nextPdu

theorem Moved.refl (s : TxState) : Moved cfg s s := ⟨rfl, rfl, rfl, rfl⟩

theorem Moved.trans {s₁ s₂ s₃ : TxState} (h : Moved cfg s₁ s₂) (h' : Moved cfg s₂ s₃) :
    Moved cfg s₁ s₃ :=
  ⟨h'.contexts.trans h.contexts, h'.sem.trans h.sem, h'.callbacks.trans h.callbacks,
    h'.nextPdu.trans h.nextPdu⟩

theorem Moved.iterate {f : TxState → TxState} (hf : ∀ s, Moved cfg s (f s)) (n : ℕ)
    (s : TxState) : Moved cfg s (Nat.iterate f n s) := by
  induction n generalizing s with
  | zero => exact .refl s
  | succ n ih => exact (hf s).trans (ih (f s))

theorem moved_setConn (hk : k < cfg.maxConn) (hids : c.ids = (s.conns k).ids)
    (hcbs : c.cbs = (s.conns k).cbs) (sem : ℕ)
    (hsem : sem + c.pending.length = s.sem + (s.conns k).pending.length) :
    Moved cfg s { s.setConn k c with sem := sem } := by
  have hctx := contexts_setConn (s := s) (c := c) hk
  have hout := outstanding_setConn (s := s) (c := c) hk
  have hcb := callbacks_setConn (s := s) (c := c) hk
  rw [hids] at hctx
  rw [hcbs] at hcb
  refine ⟨add_right_cancel hctx, ?_, add_right_cancel hcb, rfl⟩
  change sem + (s.setConn k c).outstanding cfg = s.sem + s.outstanding cfg
  omega

theorem moved_setPhase (hk : k < cfg.maxConn) (phase : TxPhase) :
    Moved cfg s (s.setPhase k phase) :=
  moved_setConn (c := { s.conns k with phase := phase }) hk rfl rfl s.sem rfl

theorem moved_destroy (hk : k < cfg.maxConn) (hids : (s.conns k).ids = tx.id ::ₘ c.ids)
    (hcbs : (s.conns k).cbs = tx.cb.toList + c.cbs) (sem : ℕ)
    (hsem : sem + c.pending.length = s.sem + (s.conns k).pending.length) :
    Moved cfg s { (s.setConn k c).destroy tx with sem := sem } := by
  have hctx := contexts_setConn (s := s) (c := c) hk
  have hout := outstanding_setConn (s := s) (c := c) hk
  have hcb := callbacks_setConn (s := s) (c := c) hk
  refine ⟨?_, ?_, ?_, rfl⟩
  · have hfree : TxState.contexts cfg { (s.setConn k c).destroy tx with sem := sem } =
        tx.id ::ₘ (s.setConn k c).contexts cfg := by
      simp only [TxState.contexts, destroy, ← Multiset.coe_add, ← Multiset.singleton_add,
        Multiset.coe_singleton]
      rw [add_right_comm]
      exact add_comm _ _
    rw [hids, Multiset.add_cons, ← Multiset.cons_add] at hctx
    rw [hfree]
    exact add_right_cancel hctx
  · change sem + (s.setConn k c).outstanding cfg = s.sem + s.outstanding cfg
    omega
  · have hcalled : TxState.callbacks cfg { (s.setConn k c).destroy tx with sem := sem } =
        (s.setConn k c).callbacks cfg + tx.cb.toList := by
      simp only [TxState.callbacks, destroy, ← Multiset.coe_add]
      rw [add_right_comm]
    rw [hcbs, ← add_assoc] at hcb
    rw [hcalled]
    exact add_right_cancel hcb

/-! ## The steps -/

theorem completeOne_nil (h : (s.conns k).pending = []) : completeOne k s = s := by
  simp [completeOne, h]

theorem completeOne_cons {rest : List Tx} (h : (s.conns k).pending = tx :: rest) :
    completeOne k s = setConn { s with sem := s.sem + 1 } k
      { s.conns k with
        pending := rest, complete := (s.conns k).complete ++ [tx], inLl := (s.conns k).inLl - 1 } := by
  simp [completeOne, h]

theorem notifyOne_nil (h : (s.conns k).complete = []) : notifyOne k s = s := by
  simp [notifyOne, h]

theorem notifyOne_cons {rest : List Tx} (h : (s.conns k).complete = tx :: rest) :
    notifyOne k s = (s.setConn k { s.conns k with complete := rest }).destroy tx := by
  simp [notifyOne, h]

theorem unackOne_nil (h : (s.conns k).pending = []) : unackOne k s = s := by
  simp [unackOne, h]

theorem unackOne_cons {rest : List Tx} (h : (s.conns k).pending = tx :: rest) :
    unackOne k s =
      { (s.setConn k { s.conns k with pending := rest }).destroy tx with sem := s.sem + 1 } := by
  simp [unackOne, h, setConn, destroy]

theorem cbs_cons (tx : Tx) (l : List Tx) : ((((tx :: l).filterMap Tx.cb : List ℕ)) : Multiset ℕ) =
      ↑tx.cb.toList + ↑(l.filterMap Tx.cb) := by
  rw [filterMap_cons]
  cases tx.cb <;> rfl

/-- **A packet is completed**: its context moves to the other list, and its
buffer is free. -/
theorem moved_completeOne (hk : k < cfg.maxConn) (s : TxState) : Moved cfg s (completeOne k s) := by
  cases hp : (s.conns k).pending with
  | nil =>
    rw [completeOne_nil hp]
    exact .refl s
  | cons tx rest =>
    rw [completeOne_cons hp]
    have hperm : (rest ++ ((s.conns k).complete ++ [tx])).Perm
        ((s.conns k).pending ++ (s.conns k).complete) := by
      rw [hp, ← append_assoc]
      exact (perm_append_comm).trans (by simp)
    refine moved_setConn hk (Multiset.coe_eq_coe.2 (hperm.map _))
      (Multiset.coe_eq_coe.2 (hperm.filterMap _)) (s.sem + 1) ?_
    rw [hp, length_cons]
    simp only
    omega

theorem moved_notifyOne (hk : k < cfg.maxConn) (s : TxState) : Moved cfg s (notifyOne k s) := by
  cases hc : (s.conns k).complete with
  | nil =>
    rw [notifyOne_nil hc]
    exact .refl s
  | cons tx rest =>
    rw [notifyOne_cons hc]
    have hperm : ((s.conns k).pending ++ (s.conns k).complete).Perm
        (tx :: ((s.conns k).pending ++ rest)) := by
      rw [hc]
      exact perm_middle
    exact moved_destroy (c := { s.conns k with complete := rest }) hk
      (Multiset.coe_eq_coe.2 (hperm.map Tx.id))
      ((Multiset.coe_eq_coe.2 (hperm.filterMap Tx.cb)).trans (cbs_cons tx _)) s.sem rfl

theorem moved_unackOne (hk : k < cfg.maxConn) (s : TxState) : Moved cfg s (unackOne k s) := by
  cases hp : (s.conns k).pending with
  | nil =>
    rw [unackOne_nil hp]
    exact .refl s
  | cons tx rest =>
    rw [unackOne_cons hp]
    refine moved_destroy (c := { s.conns k with pending := rest }) hk ?_ ?_ (s.sem + 1) ?_
    · rw [TxConn.ids, hp]
      rfl
    · rw [TxConn.cbs, hp]
      exact cbs_cons tx _
    · rw [hp, length_cons]
      simp only
      omega

theorem moved_sendEnd (err : Bool)
    (hok : err = true → ∀ d ∈ s.driver, d.1 < cfg.maxConn ∧ d.2 ∈ (s.conns d.1).pending) :
    Moved cfg s (sendEnd err s) := by
  unfold sendEnd
  cases hd : s.driver with
  | none => exact .refl s
  | some d =>
    obtain ⟨k, tx⟩ := d
    cases err with
    | false => exact ⟨rfl, rfl, rfl, rfl⟩
    | true =>
      obtain ⟨hk, hmem⟩ : k < cfg.maxConn ∧ tx ∈ (s.conns k).pending := hok rfl (k, tx) hd
      have hperm : ((s.conns k).pending ++ (s.conns k).complete).Perm
          (tx :: ((s.conns k).pending.erase tx ++ (s.conns k).complete)) :=
        (perm_cons_erase hmem).append_right _
      have hlen := length_erase_of_mem hmem
      have hpos := length_pos_of_mem hmem
      have hdriver : Moved cfg s { s with driver := none } := ⟨rfl, rfl, rfl, rfl⟩
      refine hdriver.trans (moved_destroy (s := { s with driver := none })
        (c := { s.conns k with
          inLl := (s.conns k).inLl - 1, pending := (s.conns k).pending.erase tx }) hk
        (Multiset.coe_eq_coe.2 (hperm.map Tx.id))
        ((Multiset.coe_eq_coe.2 (hperm.filterMap Tx.cb)).trans (cbs_cons tx _)) (s.sem + 1)
        ?_)
      simp only
      omega

theorem lookupHandle_spec {handle : ℕ} (h : s.lookupHandle cfg handle = some k) :
    k < cfg.maxConn ∧ (s.conns k).phase ≠ .unused := by
  have hvalid := find?_some h
  simp only [Bool.and_eq_true] at hvalid
  refine ⟨List.mem_range.1 (mem_of_find?_eq_some h), fun hph => ?_⟩
  rw [hph] at hvalid
  exact absurd hvalid.1 (by decide)

theorem moved_numCompleted (handle count : ℕ) (s : TxState) :
    Moved cfg s (numCompleted cfg handle count s) := by
  unfold numCompleted
  cases hk : s.lookupHandle cfg handle with
  | none => exact .refl s
  | some k => exact .iterate (moved_completeOne (lookupHandle_spec hk).1) count s

/-! ## The invariant -/

/-- The totals, as they are at boot. -/
structure Totals (cfg : TxCfg) (s : TxState) : Prop where
  contexts : s.contexts cfg = Multiset.range cfg.contexts
  sem : s.sem + s.outstanding cfg = cfg.pkts
  nodup : (s.callbacks cfg).Nodup
  fresh : ∀ p ∈ s.callbacks cfg, p < s.nextPdu

theorem Totals.moved (h : Totals cfg s) (hm : Moved cfg s s') : Totals cfg s' where
  contexts := hm.contexts.trans h.contexts
  sem := hm.sem.trans h.sem
  nodup := hm.callbacks ▸ h.nodup
  fresh := hm.callbacks ▸ hm.nextPdu ▸ h.fresh

/-- An object not in use has nothing to notify. -/
def Phased (c : TxConn) : Prop := c.phase = .unused → c.complete = []

/-- What `bt_conn_tx_processor` has at hand. -/
def TxState.held (s : TxState) : Option ℕ × Option (ℕ × Tx) := (s.picked, s.driver)

/-- The send under way is on a connection of the array. -/
def HeldOk (cfg : TxCfg) (held : Option ℕ × Option (ℕ × Tx)) : Prop :=
  (∀ k ∈ held.1, k < cfg.maxConn) ∧ ∀ d ∈ held.2, d.1 < cfg.maxConn

theorem heldOk_none {driver : Option (ℕ × Tx)} (h : ∀ d ∈ driver, d.1 < cfg.maxConn) :
    HeldOk cfg (none, driver) := ⟨fun k hk => absurd hk (Option.not_mem_none k), h⟩

/-- **What a run keeps.** -/
structure TxInv (cfg : TxCfg) (s : TxState) : Prop where
  totals : Totals cfg s
  phased : ∀ k, Phased (s.conns k)
  held : HeldOk cfg s.held

theorem phased_update {conns : ℕ → TxConn} (h : ∀ j, j ≠ k → Phased (conns j)) (hc : Phased c) :
    ∀ j, Phased (update conns k c j) := by
  intro j
  by_cases hj : j = k
  · subst hj
    rwa [update_self]
  · rw [update_of_ne hj]
    exact h j hj

theorem phased_setConn (h : ∀ j, Phased (s.conns j)) (hc : Phased c) :
    ∀ j, Phased ((s.setConn k c).conns j) := phased_update (fun j _ => h j) hc

theorem phased_completeOne (h : (∀ j, Phased (s.conns j)) ∧ (s.conns k).phase ≠ .unused) :
    (∀ j, Phased ((completeOne k s).conns j)) ∧ ((completeOne k s).conns k).phase ≠ .unused := by
  cases hp : (s.conns k).pending with
  | nil => rwa [completeOne_nil hp]
  | cons tx rest =>
    rw [completeOne_cons hp]
    refine ⟨phased_setConn (s := { s with sem := s.sem + 1 }) h.1 fun hph => absurd hph h.2, ?_⟩
    simpa only [setConn, update_self] using h.2

theorem phased_notifyOne (h : ∀ j, Phased (s.conns j)) : ∀ j, Phased ((notifyOne k s).conns j) := by
  cases hc : (s.conns k).complete with
  | nil => rwa [notifyOne_nil hc]
  | cons tx rest =>
    rw [notifyOne_cons hc]
    refine phased_setConn h fun hph => ?_
    have := h k hph
    rw [hc] at this
    exact absurd this (by simp)

theorem held_iterate {f : TxState → TxState} (hf : ∀ s, (f s).held = s.held) (n : ℕ)
    (s : TxState) : (Nat.iterate f n s).held = s.held := by
  induction n generalizing s with
  | zero => rfl
  | succ n ih => exact (ih (f s)).trans (hf s)

theorem held_completeOne (s : TxState) : (completeOne k s).held = s.held := by
  cases hp : (s.conns k).pending with
  | nil => rw [completeOne_nil hp]
  | cons tx rest =>
    rw [completeOne_cons hp]
    rfl

theorem held_notifyOne (s : TxState) : (notifyOne k s).held = s.held := by
  cases hc : (s.conns k).complete with
  | nil => rw [notifyOne_nil hc]
  | cons tx rest =>
    rw [notifyOne_cons hc]
    rfl

theorem held_unackOne (s : TxState) : (unackOne k s).held = s.held := by
  cases hp : (s.conns k).pending with
  | nil => rw [unackOne_nil hp]
  | cons tx rest =>
    rw [unackOne_cons hp]
    rfl

theorem conns_processUnackTx (s : TxState) :
    (processUnackTx k s).conns = update s.conns k { s.conns k with pending := [] } := by
  unfold processUnackTx
  generalize hn : (s.conns k).pending.length = n
  induction n generalizing s with
  | zero =>
    have hp : (s.conns k).pending = [] := length_eq_zero_iff.1 hn
    rw [← hp]
    exact (update_eq_self k s.conns).symm
  | succ n ih =>
    obtain ⟨tx, rest, hp⟩ := exists_cons_of_length_eq_add_one hn
    rw [iterate_succ_apply, unackOne_cons hp, ih]
    · simp [setConn, destroy]
    · rw [hp, length_cons] at hn
      simp only [setConn, destroy, update_self]
      omega

theorem conns_txNotifyProcess (s : TxState) :
    (txNotifyProcess k s).conns = update s.conns k { s.conns k with complete := [] } := by
  unfold txNotifyProcess
  generalize hn : (s.conns k).complete.length = n
  induction n generalizing s with
  | zero =>
    have hc : (s.conns k).complete = [] := length_eq_zero_iff.1 hn
    rw [← hc]
    exact (update_eq_self k s.conns).symm
  | succ n ih =>
    obtain ⟨tx, rest, hc⟩ := exists_cons_of_length_eq_add_one hn
    rw [iterate_succ_apply, notifyOne_cons hc, ih]
    · simp [setConn, destroy]
    · rw [hc, length_cons] at hn
      simp only [setConn, destroy, update_self]
      omega

/-! ## Runs -/

/-- **What the totals need.** The context of a failed send is still pending:
it was neither completed nor reclaimed while the driver was running. And a
connection object is taken anew with nothing pending: no context was put
there after the disconnection had reclaimed the others. -/
def SendOk (s : TxState) : TxEvent → Prop
  | .sendEnd true => ∀ d ∈ s.driver, d.2 ∈ (s.conns d.1).pending
  | .connect k _ => (s.conns k).phase = .unused → (s.conns k).pending = []
  | _ => True

/-- **What a disconnection needs** for `in_ll`: nothing is pending. -/
def UnackOk (s : TxState) : TxEvent → Prop
  | .disconnectComplete k => (s.conns k).pending = []
  | _ => True

instance (s : TxState) : (e : TxEvent) → Decidable (SendOk s e)
  | .sendEnd true => inferInstanceAs (Decidable (∀ d ∈ s.driver, d.2 ∈ (s.conns d.1).pending))
  | .connect k _ =>
    inferInstanceAs (Decidable ((s.conns k).phase = .unused → (s.conns k).pending = []))
  | .sendEnd false | .sendCheck .. | .sendBegin .. | .numCompleted .. | .notify .. |
    .disconnecting .. | .disconnectComplete .. | .disconnected .. => .isTrue trivial

instance (s : TxState) : (e : TxEvent) → Decidable (UnackOk s e)
  | .disconnectComplete k => inferInstanceAs (Decidable ((s.conns k).pending = []))
  | .sendEnd .. | .connect .. | .sendCheck .. | .sendBegin .. | .numCompleted .. | .notify .. |
    .disconnecting .. | .disconnected .. => .isTrue trivial

theorem sendBegin_cases (pulled : Option Bool) (s : TxState) :
    sendBegin pulled s = { s with picked := none } ∨
    ∃ last : Bool, ∃ cb nextPdu, cb = (if last then some s.nextPdu else none) ∧
      nextPdu = (if last then s.nextPdu + 1 else s.nextPdu) ∧
      (sendBegin pulled s =
          { s with picked := none, nextPdu := nextPdu, called := s.called ++ cb.toList } ∨
        ∃ k id free sem, s.picked = some k ∧ s.free = id :: free ∧ s.sem = sem + 1 ∧
          sendBegin pulled s =
            { s with
              picked := none
              nextPdu := nextPdu
              free := free
              sem := sem
              conns := update s.conns k
                { s.conns k with
                  inLl := (s.conns k).inLl + 1
                  pending := (s.conns k).pending ++ [⟨id, cb⟩] }
              driver := some (k, ⟨id, cb⟩) }) := by
  obtain ⟨free, conns, sem, picked, driver, called, nextPdu⟩ := s
  cases picked with
  | none => exact .inl rfl
  | some k =>
    cases pulled with
    | none => exact .inl rfl
    | some last =>
      refine .inr ⟨last, _, _, rfl, rfl, ?_⟩
      -- Without a controller buffer or a context `send_buf` gives the PDU up.
      cases sem with
      | zero => exact .inl rfl
      | succ sem =>
        cases free with
        | nil => exact .inl rfl
        | cons id free => exact .inr ⟨k, id, free, sem, rfl, rfl, rfl, rfl⟩

theorem Totals.numbered (h : Totals cfg s) {last : Bool} {cb : Option ℕ}
    (hcb : cb = if last then some s.nextPdu else none)
    (hcontexts : s'.contexts cfg = s.contexts cfg)
    (hsem : s'.sem + s'.outstanding cfg = s.sem + s.outstanding cfg)
    (hcallbacks : s'.callbacks cfg = s.callbacks cfg + cb.toList)
    (hnext : s'.nextPdu = if last then s.nextPdu + 1 else s.nextPdu) : Totals cfg s' := by
  subst hcb
  refine ⟨hcontexts.trans h.contexts, hsem.trans h.sem, ?_, ?_⟩ <;>
    rw [hcallbacks] <;> cases last with
  | false =>
    simp only [Bool.false_eq_true, if_false, Option.toList_none, Multiset.coe_nil, add_zero] at *
    first | exact h.nodup | exact hnext ▸ h.fresh
  | true =>
    simp only [if_true, Option.toList_some, Multiset.coe_singleton] at *
    first
    | rw [add_comm, Multiset.singleton_add, Multiset.nodup_cons]
      exact ⟨fun hmem => lt_irrefl _ (h.fresh _ hmem), h.nodup⟩
    | intro p hp
      rw [hnext]
      rcases Multiset.mem_add.1 hp with hp | hp
      · exact Nat.lt_succ_of_lt (h.fresh p hp)
      · rw [Multiset.mem_singleton.1 hp]
        exact Nat.lt_succ_self _

theorem Totals.sendBegin (h : Totals cfg s) (hheld : HeldOk cfg s.held) (pulled : Option Bool) :
    Totals cfg (sendBegin pulled s) := by
  rcases sendBegin_cases pulled s with heq | ⟨last, cb, nextPdu, hcb, hnext,
    heq | ⟨k, id, free, sem, hpicked, hfree, hsem, heq⟩⟩ <;> rw [heq]
  · exact h.moved ⟨rfl, rfl, rfl, rfl⟩
  · refine h.numbered hcb rfl rfl ?_ hnext
    simp only [TxState.callbacks, ← Multiset.coe_add]
    rw [add_right_comm]
  · have hk : k < cfg.maxConn := hheld.1 k hpicked
    generalize htx : (⟨id, cb⟩ : Tx) = tx
    generalize hc : ({ s.conns k with
      inLl := (s.conns k).inLl + 1, pending := (s.conns k).pending ++ [tx] } : TxConn) = c
    have hpending : c.pending = (s.conns k).pending ++ [tx] := by rw [← hc]
    have hcomplete : c.complete = (s.conns k).complete := by rw [← hc]
    have hperm : (c.pending ++ c.complete).Perm
        (tx :: ((s.conns k).pending ++ (s.conns k).complete)) := by
      rw [hpending, hcomplete, append_assoc]
      exact perm_middle
    have hids : c.ids = {tx.id} + (s.conns k).ids := Multiset.coe_eq_coe.2 (hperm.map Tx.id)
    have hcbs : c.cbs = tx.cb.toList + (s.conns k).cbs :=
      (Multiset.coe_eq_coe.2 (hperm.filterMap Tx.cb)).trans (cbs_cons tx _)
    have hctx := sum_update_add TxConn.ids s.conns (mem_range.2 hk) c
    have hout := sum_update_add (fun c => c.pending.length) s.conns (mem_range.2 hk) c
    have hsum := sum_update_add TxConn.cbs s.conns (mem_range.2 hk) c
    rw [hids, ← add_assoc] at hctx
    rw [hcbs, ← add_assoc] at hsum
    have hctx := add_right_cancel hctx
    have hsum := add_right_cancel hsum
    refine h.numbered hcb ?_ ?_ ?_ hnext
    · simp only [TxState.contexts, hctx, hfree, ← htx]
      rw [← Multiset.cons_coe, ← Multiset.singleton_add]
      abel
    · simp only [outstanding, hsem]
      rw [hpending, length_append, length_singleton] at hout
      omega
    · simp only [TxState.callbacks, hsum, ← htx]
      rw [add_assoc]

theorem TxInv.numCompleted (h : TxInv cfg s) (handle count : ℕ) :
    TxInv cfg (numCompleted cfg handle count s) := by
  refine ⟨h.totals.moved (moved_numCompleted handle count s), ?_, ?_⟩ <;>
    unfold Link.numCompleted <;> split
  · exact h.phased
  · rename_i k hk
    exact (Function.Iterate.rec
      (fun s : TxState => (∀ j, Phased (s.conns j)) ∧ (s.conns k).phase ≠ .unused)
      ⟨h.phased, (lookupHandle_spec hk).2⟩ (fun _ hs => phased_completeOne hs) count).1
  · exact h.held
  · rw [held_iterate held_completeOne]
    exact h.held

theorem TxInv.foldl_numCompleted (h : TxInv cfg s) (handles : List (ℕ × ℕ)) :
    TxInv cfg (handles.foldl (fun s h => Link.numCompleted cfg h.1 h.2 s) s) := by
  induction handles generalizing s with
  | nil => exact h
  | cons hc handles ih => exact ih (h.numCompleted hc.1 hc.2)

/-- **One step.** -/
theorem TxInv.step (h : TxInv cfg s) {e : TxEvent} (hok : SendOk s e) : TxInv cfg (txStep cfg s e) := by
  cases e with
  | connect k handle =>
    simp only [txStep]
    split
    · rename_i hk
      have hlists : (s.conns k).pending ++ (s.conns k).complete = [] := by
        rw [hok hk.2.1, h.phased k hk.2.1]
        rfl
      refine ⟨h.totals.moved (moved_setConn (c := { phase := .connected, handle := handle }) hk.1
        ?_ ?_ s.sem ?_), phased_setConn h.phased fun _ => rfl, h.held⟩
      · rw [TxConn.ids, TxConn.ids, hlists]
        rfl
      · rw [TxConn.cbs, TxConn.cbs, hlists]
        rfl
      · rw [hok hk.2.1]
    · exact h
  | sendCheck k =>
    simp only [txStep, sendCheck]
    split
    · rename_i hk
      refine ⟨h.totals.moved ⟨rfl, rfl, rfl, rfl⟩, h.phased, fun j hj => ?_, h.held.2⟩
      obtain rfl := Option.some.inj hj
      exact hk.1
    · exact h
  | sendBegin pulled =>
    refine ⟨h.totals.sendBegin h.held pulled, ?_, ?_⟩ <;> simp only [txStep] <;>
      rcases sendBegin_cases pulled s with heq | ⟨last, cb, nextPdu, -, -,
        heq | ⟨k, id, free, sem, hpicked, -, -, heq⟩⟩ <;> rw [heq]
    · exact h.phased
    · exact h.phased
    · exact phased_setConn h.phased (h.phased k)
    · exact heldOk_none h.held.2
    · exact heldOk_none h.held.2
    · refine heldOk_none fun d hd => ?_
      obtain rfl := Option.some.inj hd
      exact h.held.1 k hpicked
  | sendEnd err =>
    have hmoved : Moved cfg s (sendEnd err s) := by
      refine moved_sendEnd err fun herr d hd => ?_
      subst herr
      exact ⟨h.held.2 d hd, hok d hd⟩
    refine ⟨h.totals.moved hmoved, ?_, ?_⟩ <;> simp only [txStep, Link.sendEnd] <;> split
    · exact h.phased
    · rename_i k tx hd
      cases err with
      | false => exact h.phased
      | true => exact phased_setConn h.phased (h.phased k)
    · exact h.held
    · cases err <;> exact ⟨h.held.1, fun d hd => absurd hd (Option.not_mem_none d)⟩
  | numCompleted handles => exact h.foldl_numCompleted handles
  | notify k =>
    simp only [txStep]
    split
    · refine ⟨h.totals.moved (moved_notifyOne ‹_› s), phased_notifyOne h.phased, ?_⟩
      rw [held_notifyOne]
      exact h.held
    · exact h
  | disconnecting k =>
    simp only [txStep]
    split
    · rename_i hk
      exact ⟨h.totals.moved (moved_setPhase hk.1 _),
        phased_setConn h.phased fun hph => by simp at hph, h.held⟩
    · exact h
  | disconnectComplete k =>
    simp only [txStep]
    split
    · rename_i hk
      refine ⟨h.totals.moved ((moved_setPhase hk.1 _).trans
        (.iterate (moved_unackOne hk.1) _ _)), ?_, ?_⟩
      · rw [conns_processUnackTx]
        refine phased_update (fun j hj => ?_) fun hph => ?_
        · simp only [setPhase, setConn, update_of_ne hj]
          exact h.phased j
        · simp [setPhase, setConn] at hph
      · rw [processUnackTx, held_iterate held_unackOne]
        exact h.held
    · exact h
  | disconnected k =>
    simp only [txStep]
    split
    · rename_i hk
      refine ⟨h.totals.moved ((moved_setPhase hk.1 _).trans
        (.iterate (moved_notifyOne hk.1) _ _)), ?_, ?_⟩
      · rw [conns_txNotifyProcess]
        refine phased_update (fun j hj => ?_) fun _ => rfl
        simp only [setPhase, setConn, update_of_ne hj]
        exact h.phased j
      · rw [txNotifyProcess, held_iterate held_notifyOne]
        exact h.held
    · exact h

theorem txInv_boot (cfg : TxCfg) : TxInv cfg (txBoot cfg) := by
  have hids : ∑ k ∈ range cfg.maxConn, ((txBoot cfg).conns k).ids = 0 :=
    sum_eq_zero fun _ _ => rfl
  have hcbs : ∑ k ∈ range cfg.maxConn, ((txBoot cfg).conns k).cbs = 0 :=
    sum_eq_zero fun _ _ => rfl
  have hout : (txBoot cfg).outstanding cfg = 0 := sum_eq_zero fun _ _ => rfl
  refine ⟨⟨?_, ?_, ?_, ?_⟩, fun _ _ => rfl,
    heldOk_none fun d hd => absurd hd (Option.not_mem_none d)⟩
  · rw [TxState.contexts, hids, add_zero]
    rfl
  · rw [hout]
    rfl
  · rw [TxState.callbacks, hcbs]
    exact Multiset.nodup_zero
  · rw [TxState.callbacks, hcbs]
    exact fun p hp => absurd hp (Multiset.notMem_zero p)

/-! ## The pending counter -/

/-- `in_ll` counts the pending packets. -/
def Counted (s : TxState) : Prop := ∀ k, (s.conns k).inLl = (s.conns k).pending.length

theorem counted_update {conns : ℕ → TxConn}
    (h : ∀ j, (conns j).inLl = (conns j).pending.length) (hc : c.inLl = c.pending.length) :
    ∀ j, (update conns k c j).inLl = (update conns k c j).pending.length := by
  intro j
  by_cases hj : j = k
  · subst hj
    rwa [update_self]
  · rw [update_of_ne hj]
    exact h j

theorem Counted.completeOne (h : Counted s) : Counted (completeOne k s) := by
  cases hp : (s.conns k).pending with
  | nil => rwa [completeOne_nil hp]
  | cons tx rest =>
    rw [completeOne_cons hp]
    refine counted_update h ?_
    have := h k
    rw [hp, length_cons] at this
    simp only
    omega

theorem Counted.step (h : Counted s) {e : TxEvent} (hok : SendOk s e) (hun : UnackOk s e) :
    Counted (txStep cfg s e) := by
  cases e with
  | connect k handle =>
    simp only [txStep]
    split
    · exact counted_update h rfl
    · exact h
  | sendCheck k =>
    simp only [txStep, sendCheck]
    split <;> exact h
  | sendBegin pulled =>
    rcases sendBegin_cases pulled s with heq | ⟨last, cb, nextPdu, -, -,
      heq | ⟨k, id, free, sem, -, -, -, heq⟩⟩ <;> simp only [txStep, heq]
    · exact h
    · exact h
    · refine counted_update h ?_
      have := h k
      simp only [length_append, length_singleton]
      omega
  | sendEnd err =>
    simp only [txStep, sendEnd]
    split
    · exact h
    · rename_i k tx hd
      cases err with
      | false => exact h
      | true =>
        refine counted_update h ?_
        have hmem : tx ∈ (s.conns k).pending := hok (k, tx) hd
        have := h k
        have := length_erase_of_mem hmem
        have := length_pos_of_mem hmem
        simp only
        omega
  | numCompleted handles =>
    simp only [txStep]
    induction handles generalizing s with
    | nil => exact h
    | cons hc handles ih =>
      refine ih ?_ trivial trivial
      change Counted (numCompleted cfg hc.1 hc.2 s)
      unfold numCompleted
      split
      · exact h
      · exact Function.Iterate.rec Counted h (fun _ hs => hs.completeOne) hc.2
  | notify k =>
    simp only [txStep]
    split
    · cases hc : (s.conns k).complete with
      | nil => rwa [notifyOne_nil hc]
      | cons tx rest =>
        rw [notifyOne_cons hc]
        exact counted_update h (h k)
    · exact h
  | disconnecting k =>
    simp only [txStep]
    split
    · exact counted_update h (h k)
    · exact h
  | disconnectComplete k =>
    simp only [txStep]
    split
    · unfold Counted
      rw [conns_processUnackTx]
      refine counted_update (counted_update h (h k)) ?_
      have hnil : (s.conns k).pending = [] := hun
      have := h k
      rw [hnil] at this
      simpa [setPhase, setConn] using this
    · exact h
  | disconnected k =>
    simp only [txStep]
    split
    · unfold Counted
      rw [conns_txNotifyProcess]
      refine counted_update (counted_update h (h k)) ?_
      simpa [setPhase, setConn] using h k
    · exact h

/-- **TX accounting.** In every state a run from boot reaches in which no
failing send finds its context gone, and no object is taken anew with a
context pending: the contexts, free or in a list, are the whole array, each
once; the free controller buffers and the packets outstanding are all
buffers; and no callback was invoked twice. Where also no connection was
lost with packets pending, `in_ll` counts the pending packets. -/
theorem tx_accounting (cfg : TxCfg) (es : List TxEvent)
    (hrun : Along (txStep cfg) SendOk (txBoot cfg) es) :
    let s := run (txStep cfg) (txBoot cfg) es
    s.contexts cfg = Multiset.range cfg.contexts ∧
    s.sem + s.outstanding cfg = cfg.pkts ∧
    s.called.Nodup ∧
    (Along (txStep cfg) UnackOk (txBoot cfg) es →
      ∀ k, (s.conns k).inLl = (s.conns k).pending.length) := by
  intro s
  have hinv : TxInv cfg s := inv_run (TxInv cfg) (fun _ _ h hok => h.step hok) (txInv_boot cfg) hrun
  refine ⟨hinv.totals.contexts, hinv.totals.sem, ?_, fun hun => ?_⟩
  · exact Multiset.coe_nodup.1 (Multiset.nodup_of_le (Multiset.le_add_right _ _) hinv.totals.nodup)
  · exact inv_run Counted (fun _ _ h hok => h.step hok.1 hok.2) (fun _ => rfl)
      (along_and.2 ⟨hrun, hun⟩)

/-- Two packets are sent, one of them completed and one refused by the
driver; the link is lost and comes up again. -/
def twoSends : List TxEvent :=
  [.connect 0 7, .sendCheck 0, .sendBegin (some false), .sendEnd false, .sendCheck 0,
    .sendBegin (some true), .sendEnd true, .numCompleted [(7, 1), (9, 3)], .notify 0,
    .sendCheck 0, .disconnectComplete 0, .sendBegin none, .disconnected 0, .connect 0 8]

theorem tx_accounting_twoSends :
    let s := run (txStep ⟨1, 3, 2⟩) (txBoot ⟨1, 3, 2⟩) twoSends
    s.sem + s.outstanding ⟨1, 3, 2⟩ = 2 ∧ s.called.Nodup ∧
      (s.conns 0).inLl = (s.conns 0).pending.length := by
  obtain ⟨-, hsem, hnodup, hcounted⟩ := tx_accounting ⟨1, 3, 2⟩ twoSends (by decide)
  exact ⟨hsem, hnodup, hcounted (by decide) 0⟩

/-- **`in_ll` is left behind**: the link is lost with a packet pending, which
is reclaimed and still counted. And where the link is lost between the check
and the list of `send_buf`, the next connection loses the context. -/
theorem unacked_still_counted :
    (let s := run (txStep ⟨1, 3, 2⟩) (txBoot ⟨1, 3, 2⟩)
      [.connect 0 7, .sendCheck 0, .sendBegin (some true), .sendEnd false, .disconnectComplete 0]
    (s.conns 0).pending = [] ∧ (s.conns 0).inLl = 1) ∧
    let s := run (txStep ⟨1, 3, 2⟩) (txBoot ⟨1, 3, 2⟩)
      [.connect 0 7, .sendCheck 0, .disconnectComplete 0, .sendBegin (some true), .sendEnd false,
        .disconnected 0, .connect 0 8]
    s.contexts ⟨1, 3, 2⟩ = {1, 2} ∧ s.sem + s.outstanding ⟨1, 3, 2⟩ = 1 := by
  decide

end Link

end OpenBlue
