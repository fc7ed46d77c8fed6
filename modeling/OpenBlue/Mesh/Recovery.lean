import OpenBlue.Mesh.Replay
/-!
# Mesh — IV Index Recovery and the replay list

Recovery clears the whole list. What was accepted under an index that is
gone cannot come back, since nothing decodes it; what was accepted under
the index just before the new one can. This file says exactly when that
matters: when recovery moves by one index only, and a message was
accepted under the index it leaves.
-/

namespace OpenBlue

namespace Mesh

open List

variable {cfg : NetCfg} {net : Net}

/-- The node once a call of `bt_mesh_net_iv_update` and the clearing it
asked for are done: at once without settings, with them when the pending
store has run. -/
def afterRecovery (cfg : NetCfg) (txInProgress : Bool) (ivIndex : UInt32) (ivUpdate : Bool)
    (net : Net) : Net :=
  let net := (netIvUpdate cfg txInProgress ivIndex ivUpdate net).1
  { net with rpl := rplPendingStore cfg.settings net.rpl }

/-! ## The array keeps its length -/

@[simp] theorem length_zeroSlots (slots : List RplEntry) (start n : ℕ) :
    (zeroSlots slots start n).length = slots.length := by
  simp [zeroSlots]

theorem length_foldl_rplResetTurn (is : List ℕ) (c : Compaction) :
    (is.foldl rplResetTurn c).slots.length = c.slots.length := by
  induction is generalizing c with
  | nil => rfl
  | cons i is ih =>
    rw [foldl_cons, ih]
    simp only [rplResetTurn]
    split
    · split
      · simp
      · dsimp only
        split <;> simp
    · rfl

theorem length_rplClear (settings : Bool) (rpl : Rpl) :
    (rplClear settings rpl).slots.length = rpl.slots.length := by
  unfold rplClear
  split <;> simp

theorem length_rplReset (settings : Bool) (rpl : Rpl) :
    (rplReset settings rpl).slots.length = rpl.slots.length := by
  unfold rplReset
  split
  · simp
  · simp [rplCompact, length_foldl_rplResetTurn]

theorem length_netStep (cfg : NetCfg) (net : Net) (e : NetEvent) :
    (netStep cfg net e).rpl.slots.length = net.rpl.slots.length := by
  obtain ⟨-, hprep⟩ | ⟨net₀, tx, iv, flag, hprep, -, hstep, -⟩ := netStep_cases cfg net e
  · rw [hprep.rpl]
  · rw [hstep, ← hprep.rpl]
    unfold netIvUpdate
    split
    case h_1 | h_2 | h_5 => rfl
    case h_3 => exact length_rplClear _ _
    case h_4 => exact length_rplReset _ _

/-! ## What a run has accepted -/

/-- A message taken from a decoded PDU, under an index the node has
reached. -/
def Accepted.Within (m : Accepted) (net : Net) : Prop :=
  (∃ rx : NetRx, rx.addr = m.src ∧ rx.seq = m.seq) ∧ m.ivIndex ≤ net.ivIndex.toNat

theorem within_of_mem_rxAccepted {ev : RxEvent} {m : Accepted} (h : m ∈ rxAccepted net ev) :
    m.Within net := by
  have hrx : ∃ rx, m = net.acceptedAs rx := by
    cases ev with
    | recv rx accepted handler =>
      cases accepted with
      | false => exact absurd h (by simp [rxAccepted])
      | true =>
        simp only [rxAccepted] at h
        split at h
        · exact ⟨rx, mem_singleton.1 h⟩
        · exact absurd h (by simp)
    | recvNull rx bridge =>
      simp only [rxAccepted] at h
      split at h
      · exact ⟨rx, mem_singleton.1 h⟩
      · exact absurd h (by simp)
    | net e => exact absurd h (by simp [rxAccepted])
  obtain ⟨rx, rfl⟩ := hrx
  refine ⟨⟨rx, rfl, rfl⟩, ?_⟩
  simp only [Net.acceptedAs, Net.rxIndex]
  split <;> omega

theorem rxStep_frame (cfg : NetCfg) (net : Net) (ev : RxEvent) :
    net.ivIndex.toNat ≤ (rxStep cfg net ev).ivIndex.toNat ∧
      (rxStep cfg net ev).rpl.slots.length = net.rpl.slots.length := by
  have hrun : ∀ handler, (run (netStep cfg) net handler).rpl.slots.length =
      net.rpl.slots.length := fun handler =>
    inv_run_of_forall (fun n : Net => n.rpl.slots.length = net.rpl.slots.length)
      (fun n e hn => (length_netStep cfg n e).trans hn) rfl handler
  cases ev with
  | recv rx accepted handler =>
    have hiv := ivIndex_le_run cfg net handler
    simp only [rxStep, recvUnseg]
    split
    · exact ⟨le_rfl, rfl⟩
    · exact ⟨hiv, hrun handler⟩
    · split
      · exact ⟨hiv, by simp [rplUpdate, hrun handler]⟩
      · exact ⟨hiv, hrun handler⟩
  | recvNull rx bridge =>
    simp only [rxStep, rplCheckNull]
    refine ⟨le_rfl, ?_⟩
    split <;> simp [rplUpdate]
  | net e => exact ⟨ivIndex_le_netStep cfg net e, length_netStep cfg net e⟩

theorem within_of_mem_emitted {es : List RxEvent} {m : Accepted}
    (h : m ∈ emitted (rxStep cfg) rxAccepted net es) : m.Within (run (rxStep cfg) net es) := by
  induction es generalizing net with
  | nil => exact absurd h (by simp)
  | cons ev es ih =>
    rw [emitted_cons, mem_append] at h
    rw [run_cons]
    rcases h with h | h
    · obtain ⟨hrx, hle⟩ := within_of_mem_rxAccepted h
      have hstep := (rxStep_frame cfg net ev).1
      have hrest := clock_le_run_of_forall (fun n : Net => n.ivIndex.toNat)
        (fun n ev => (rxStep_frame cfg n ev).1) (rxStep cfg net ev) es
      exact ⟨hrx, by omega⟩
    · exact ih h

/-! ## The list after recovery -/

theorem foldl_rplStoreTurn_clear (rst : Bool) (n : ℕ) (p : PendingStore) :
    ((List.range n).foldl (rplStoreTurn true rst) p).slots = p.slots ∧
      ((List.range n).foldl (rplStoreTurn true rst) p).shift = p.shift + n ∧
      (0 < n → ((List.range n).foldl (rplStoreTurn true rst) p).last + 1 = n) := by
  induction n with
  | zero => simp
  | succ n ih =>
    obtain ⟨hslots, hshift, -⟩ := ih
    rw [range_succ, foldl_append]
    simp only [foldl_cons, foldl_nil, rplStoreTurn, if_true, hslots, hshift]
    exact ⟨trivial, by omega, fun _ => trivial⟩

theorem zeroSlots_all (slots : List RplEntry) :
    zeroSlots slots 0 slots.length = List.replicate slots.length {} := by
  simpa using zeroSlots_append [] slots []

/-- **Recovery empties the list**, with or without settings. -/
theorem slots_afterRecovery {tx flag : Bool} {iv : UInt32}
    (hrec : ivuAction cfg tx iv flag net = .recover) :
    (afterRecovery cfg tx iv flag net).rpl.slots = List.replicate net.rpl.slots.length {} := by
  simp only [afterRecovery, netIvUpdate, hrec, rplClear]
  cases hs : cfg.settings with
  | false => simp [rplPendingStore, zeroSlots_all]
  | true =>
    obtain ⟨hslots, hshift, hlast⟩ := foldl_rplStoreTurn_clear net.rpl.pendingReset
      net.rpl.slots.length { slots := net.rpl.slots, store := net.rpl.store }
    simp only [rplPendingStore, Bool.not_true, Bool.false_eq_true, if_false, if_true, hslots,
      hshift, Nat.zero_add]
    rcases Nat.eq_zero_or_pos net.rpl.slots.length with h0 | hpos
    · simp [length_eq_zero_iff.1 h0]
    · rw [hlast hpos, Nat.sub_self, zeroSlots_all]

theorem rplCheck_of_empty {rpl : Rpl} {rx : NetRx} {n : ℕ} (hslots : rpl.slots = List.replicate n {})
    (hn : 0 < n) (hif : rx.netIf ≠ .loopback) (hlocal : rx.localMatch = true) :
    rplCheck rpl rx false = .slot 0 := by
  obtain ⟨k, rfl⟩ : ∃ k, n = k + 1 := ⟨n - 1, by omega⟩
  simp [rplCheck, hif, hlocal, hslots, replicate_succ, rplFind]

/-- **When recovery reopens no replay.** Over every history of receptions
and updates, a recovery to `iv` keeps out what was accepted before it,
under each index it leaves decodable, if and only if it moves by two
indices or more, or nothing was accepted under the index it leaves. -/
theorem recovery_keeps_out_iff {es : List RxEvent} {tx flag : Bool} {iv : UInt32}
    (hlen : 0 < net.rpl.slots.length)
    (hrec : ivuAction cfg tx iv flag (run (rxStep cfg) net es) = .recover) :
    (∀ m ∈ emitted (rxStep cfg) rxAccepted net es, ∀ rx : NetRx,
      rx.netIf ≠ .loopback → rx.localMatch = true → rx.addr = m.src → rx.seq = m.seq →
      (afterRecovery cfg tx iv flag (run (rxStep cfg) net es)).rxIndex rx.oldIv = m.ivIndex →
      rplCheck (afterRecovery cfg tx iv flag (run (rxStep cfg) net es)).rpl rx false = .replay) ↔
    ((run (rxStep cfg) net es).ivIndex.toNat + 2 ≤ iv.toNat ∨
      ∀ m ∈ emitted (rxStep cfg) rxAccepted net es,
        m.ivIndex ≠ (run (rxStep cfg) net es).ivIndex.toNat) := by
  have hfwd := (of_ivuAction_recover hrec).1
  have hiv : (afterRecovery cfg tx iv flag (run (rxStep cfg) net es)).ivIndex = iv := by
    simp only [afterRecovery, netIvUpdate, hrec]
  have hslots := slots_afterRecovery hrec
  have hlen' : 0 < (run (rxStep cfg) net es).rpl.slots.length :=
    inv_run_of_forall (fun n : Net => 0 < n.rpl.slots.length)
      (fun n ev hn => (rxStep_frame cfg n ev).2 ▸ hn) hlen es
  constructor
  · intro h
    by_contra hcon
    simp only [not_or, not_le, not_forall, not_not] at hcon
    obtain ⟨hnear, m, hm, hmiv⟩ := hcon
    obtain ⟨⟨rx, hsrc, hseq⟩, -⟩ := within_of_mem_emitted hm
    -- The same message again: under `iv` its index is the old one.
    have hcheck := h m hm
      { netIf := .adv, addr := rx.addr, seq := rx.seq, oldIv := true, localMatch := true,
        addr_pos := rx.addr_pos, addr_lt := rx.addr_lt, seq_lt := rx.seq_lt }
      (by simp) rfl hsrc hseq (by simp only [Net.rxIndex, hiv, if_true]; omega)
    rw [rplCheck_of_empty hslots hlen' (by simp) rfl] at hcheck
    exact absurd hcheck (by simp)
  · -- No message accepted before decodes under `iv` or the index before it.
    intro h m hm rx _ _ _ _ hidx
    obtain ⟨-, hle⟩ := within_of_mem_emitted hm
    simp only [Net.rxIndex, hiv] at hidx
    rcases h with h | h
    · split at hidx <;> omega
    · have := h m hm
      split at hidx <;> omega

/-- A recovery over three indices keeps out a message of the old index. -/
theorem recovery_keeps_out_jump :
    emitted (rxStep {}) rxAccepted node5 [.recv { addr := 2, seq := 7 } true []] =
      [⟨2, 5, 7⟩] ∧
    ∀ m ∈ emitted (rxStep {}) rxAccepted node5 [.recv { addr := 2, seq := 7 } true []],
      ∀ rx : NetRx, rx.netIf ≠ .loopback → rx.localMatch = true → rx.addr = m.src →
      rx.seq = m.seq →
      (afterRecovery {} false 8 true (run (rxStep {}) node5
        [.recv { addr := 2, seq := 7 } true []])).rxIndex rx.oldIv = m.ivIndex →
      rplCheck (afterRecovery {} false 8 true (run (rxStep {}) node5
        [.recv { addr := 2, seq := 7 } true []])).rpl rx false = .replay :=
  ⟨by decide, (recovery_keeps_out_iff (by decide) (by decide)).2 (.inl (by decide))⟩

/-- A node that joined during an update, at IV index 5. -/
def joining5 : Net := provision 3 true 5 true

/-- **A replay through recovery.** The node accepts SEQ 7 under index 5
while the update to 5 is in progress. A beacon for index 6 with the
update flag makes it recover: index 5 is the old one now, and the same
message is accepted again. -/
theorem replayed_after_recovery :
    ivuAction {} false 6 true (run (rxStep {}) joining5
      [.recv { addr := 2, seq := 7 } true []]) = .recover ∧
    emitted (rxStep {}) rxAccepted joining5
      [.recv { addr := 2, seq := 7 } true [], .net (.ivUpdate 6 true false),
       .recv { addr := 2, seq := 7, oldIv := true } true []] =
      [⟨2, 5, 7⟩, ⟨2, 5, 7⟩] := by
  decide

end Mesh

end OpenBlue
