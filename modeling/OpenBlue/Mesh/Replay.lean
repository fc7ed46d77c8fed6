import Mathlib.Tactic.Linarith
import OpenBlue.Mesh.IvIndex
import OpenBlue.Mesh.Rpl
import OpenBlue.Mesh.Model.Receive
/-!
# Mesh — replay protection over runs

Without settings, every operation keeps the shape of the list, and for
each source there is a least pair (IV index, SEQ) the list still lets
through: just above the source's entry, or the start of the previous
index where it has none (`Net.bound`). The bound never falls, and an
accepted message moves it past itself; that makes accepted messages
increasing. The one way out is a handler that starts an IV update: the
slot its message was matched to is written after the list has moved.
-/

namespace OpenBlue

namespace Mesh

open List Net

variable {cfg : NetCfg} {net : Net} {e : NetEvent} {a : ℕ}

/-- The occupied slots, where they come first. -/
def occupiedPart (slots : List RplEntry) : List RplEntry := slots.takeWhile (·.src != 0)

variable {slots occ : List RplEntry}

theorem Occupied.occupiedPart_eq (h : Occupied slots occ) : occupiedPart slots = occ := by
  rw [occupiedPart, h.eq_append, takeWhile_append_of_pos (by simpa using h.src_ne)]
  cases slots.length - occ.length <;> simp [replicate_succ]

/-- The list between operations: in shape, and no reset outstanding. -/
structure Net.ListOk (net : Net) : Prop where
  occupied : Occupied net.rpl.slots (occupiedPart net.rpl.slots)
  pending : net.rpl.pendingReset = false

/-- The least pair from `a` that is not a replay. -/
def Net.bound (a : ℕ) (net : Net) : ℤ ×ₗ ℕ :=
  match entryOf (occupiedPart net.rpl.slots) a with
  | some e => toLex (net.rxIndex e.oldIv, e.seq + 1)
  | none => toLex (net.rxIndex true, 0)

/-! ## Network steps -/

/-- The step is not an IV Index Recovery. -/
def Regular (cfg : NetCfg) (net : Net) (e : NetEvent) : Prop := netAction cfg net e ≠ .recover

instance : Decidable (Regular cfg net e) := inferInstanceAs (Decidable (_ ≠ _))

theorem netStep_rpl (hcfg : cfg.settings = false) (hreg : Regular cfg net e) :
    (netAction cfg net e = .start ∧
      (netStep cfg net e).rpl = { net.rpl with slots := rplCompact net.rpl.slots } ∧
      (netStep cfg net e).ivIndex.toNat = net.ivIndex.toNat + 1) ∨
    (netAction cfg net e ≠ .start ∧ (netStep cfg net e).rpl = net.rpl ∧
      (netStep cfg net e).ivIndex = net.ivIndex) := by
  unfold Regular at hreg
  obtain ⟨hact, hprep⟩ | ⟨net₀, tx, iv, flag, hprep, hact, hstep, -⟩ := netStep_cases cfg net e
  · exact .inr ⟨by rw [hact]; decide, hprep.rpl, hprep.ivIndex⟩
  · rw [hact] at hreg ⊢
    rw [hstep]
    cases h : ivuAction cfg tx iv flag net₀ with
    | recover => exact absurd h hreg
    | start =>
      obtain ⟨rfl, -, -⟩ := of_ivuAction_start h
      have hnext := (toNat_le_of_ivuAction (by rw [h]; decide)).2
      refine .inl ⟨rfl, ?_, ?_⟩
      · simp only [netIvUpdate, h, rplReset, hcfg, hprep.rpl]
        rfl
      · rw [← hprep.ivIndex, ← hnext]
        simp only [netIvUpdate, h]
    | ignore | defer | normal =>
      refine .inr ⟨by decide, ?_, ?_⟩
      · simp only [netIvUpdate, h, hprep.rpl]
      · simp only [netIvUpdate, h, hprep.ivIndex]

theorem Net.ListOk.netStep (h : net.ListOk) (hcfg : cfg.settings = false)
    (hreg : Regular cfg net e) : (netStep cfg net e).ListOk := by
  obtain ⟨-, hrpl, -⟩ | ⟨-, hrpl, -⟩ := netStep_rpl hcfg hreg
  · have hocc := h.occupied.compact
    refine ⟨?_, by rw [hrpl]; exact h.pending⟩
    rw [hrpl, hocc.occupiedPart_eq]
    exact hocc
  · exact ⟨by rw [hrpl]; exact h.occupied, by rw [hrpl]; exact h.pending⟩

theorem bound_le_netStep (h : net.ListOk) (hcfg : cfg.settings = false)
    (hreg : Regular cfg net e) : net.bound a ≤ (netStep cfg net e).bound a := by
  obtain ⟨-, hrpl, hiv⟩ | ⟨-, hrpl, hiv⟩ := netStep_rpl hcfg hreg
  · -- An update ages the entries as it raises the index.
    have hentry : entryOf (occupiedPart (netStep cfg net e).rpl.slots) a =
        (entryOf (occupiedPart net.rpl.slots) a).bind fun e =>
          if e.oldIv then none else some { e with oldIv := true } := by
      rw [hrpl, h.occupied.compact.occupiedPart_eq, entryOf_aged h.occupied.nodup]
    simp only [bound, hentry]
    cases hold : entryOf (occupiedPart net.rpl.slots) a with
    | none =>
      simp only [Option.bind_none, rxIndex, hiv]
      exact Prod.Lex.toLex_le_toLex.2 (.inl (by simp))
    | some e =>
      cases ho : e.oldIv with
      | true =>
        simp only [Option.bind_some, ho, if_true, rxIndex, hiv]
        exact Prod.Lex.toLex_le_toLex.2 (.inl (by simp))
      | false =>
        simp only [Option.bind_some, ho, Bool.false_eq_true, if_false, rxIndex, hiv]
        exact le_of_eq (by simp)
  · simp only [bound, rxIndex, hrpl, hiv]
    exact le_rfl

/-! ## Receiving -/

/-- Every update the step makes is a regular one. -/
def RxRegular (cfg : NetCfg) (net : Net) : RxEvent → Prop
  | .recv rx _ handler =>
    rplCheck net.rpl rx false ≠ .replay → Along (netStep cfg) (Regular cfg) net handler
  | .recvNull _ _ => True
  | .net e => Regular cfg net e

instance : (ev : RxEvent) → Decidable (RxRegular cfg net ev)
  | .recv _ _ _ => inferInstanceAs (Decidable (_ → _))
  | .recvNull _ _ => .isTrue trivial
  | .net _ => inferInstanceAs (Decidable (Regular _ _ _))

/-- An update that the handler of an accepted message starts leaves the
message's slot in place. -/
def RxKeepsSlot (cfg : NetCfg) (net : Net) : RxEvent → Prop
  | .recv rx true handler => ∀ i, rplCheck net.rpl rx false = .slot i →
      Along (netStep cfg)
        (fun n e => netAction cfg n e = .start → SlotKept n.rpl.slots i) net handler
  | _ => True

variable {rx : NetRx} {i : ℕ} {bridge accepted : Bool} {handler : List NetEvent}

theorem Net.ListOk.run (h : net.ListOk) (hcfg : cfg.settings = false)
    (hreg : Along (Mesh.netStep cfg) (Regular cfg) net handler) :
    (OpenBlue.run (Mesh.netStep cfg) net handler).ListOk :=
  inv_run Net.ListOk (fun _ _ hn he => hn.netStep hcfg he) h hreg

theorem slotFor_run (h : net.ListOk) (hcfg : cfg.settings = false)
    (hslot : SlotFor net.rpl.slots (occupiedPart net.rpl.slots) i a)
    (hreg : Along (netStep cfg) (Regular cfg) net handler) (hkeep : Along (netStep cfg)
      (fun n e => netAction cfg n e = .start → SlotKept n.rpl.slots i) net handler) :
    SlotFor (run (netStep cfg) net handler).rpl.slots
      (occupiedPart (run (netStep cfg) net handler).rpl.slots) i a := by
  refine (inv_run (fun n : Net => n.ListOk ∧ SlotFor n.rpl.slots (occupiedPart n.rpl.slots) i a)
    ?_ ⟨h, hslot⟩ (along_and.2 ⟨hreg, hkeep⟩)).2
  rintro n e ⟨hn, hslot⟩ ⟨hreg, hkept⟩
  refine ⟨hn.netStep hcfg hreg, ?_⟩
  obtain ⟨hact, hrpl, -⟩ | ⟨-, hrpl, -⟩ := netStep_rpl hcfg hreg
  · rw [hrpl, hn.occupied.compact.occupiedPart_eq]
    exact hslot.compact hn.occupied (hkept hact)
  · rw [hrpl]
    exact hslot

/-- **What entering a message does.** The list keeps its shape, the
source's bound moves just past the message, and no other bound moves. -/
theorem update_spec (cfg : NetCfg) (h : net.ListOk)
    (hslot : SlotFor net.rpl.slots (occupiedPart net.rpl.slots) i rx.addr) :
    let net' := { net with rpl := rplUpdate cfg.settings net.rpl i rx }
    net'.ListOk ∧ net'.bound rx.addr = toLex (net.rxIndex rx.oldIv, rx.seq + 1) ∧
      ∀ b, b ≠ rx.addr → net'.bound b = net.bound b := by
  obtain ⟨occ', hocc', ⟨e, he, hseq, hold⟩, hother⟩ := h.occupied.update hslot
  have hslots : (rplUpdate cfg.settings net.rpl i rx).slots =
      net.rpl.slots.modify i (·.update rx) := rfl
  have hpart := hocc'.occupiedPart_eq
  refine ⟨⟨?_, ?_⟩, ?_, fun b hb => ?_⟩
  · rw [hslots, hpart]
    exact hocc'
  · exact h.pending
  · simp only [bound, hslots, hpart, he, rxIndex, hold, hseq]
  · simp only [bound, hslots, hpart, hother b hb, rxIndex]

theorem bound_le_of_rplCheck (h : net.ListOk) (hcheck : rplCheck net.rpl rx bridge = .slot i) :
    net.bound rx.addr ≤ toLex (net.rxIndex rx.oldIv, rx.seq) := by
  obtain ⟨hnew, -⟩ := h.occupied.of_rplCheck h.pending hcheck
  unfold bound
  split
  · rename_i e he
    obtain ⟨hiv, hseq⟩ := hnew e he
    replace hseq : e.oldIv = rx.oldIv → e.seq + 1 ≤ rx.seq := hseq
    rw [Prod.Lex.toLex_le_toLex]
    simp only [rxIndex]
    cases hr : rx.oldIv <;> cases ho : e.oldIv <;> simp_all
  · rw [Prod.Lex.toLex_le_toLex]
    simp only [rxIndex]
    cases rx.oldIv <;> simp

theorem recvUnseg_cases (hcfg : cfg.settings = false) (h : net.ListOk)
    (hreg : RxRegular cfg net (.recv rx accepted handler))
    (hkeep : RxKeepsSlot cfg net (.recv rx accepted handler)) :
    (rxAccepted net (.recv rx accepted handler) = [] ∧
      recvUnseg cfg rx accepted handler net = net) ∨
    (rxAccepted net (.recv rx accepted handler) = [] ∧
      Along (netStep cfg) (Regular cfg) net handler ∧
      recvUnseg cfg rx accepted handler net = run (netStep cfg) net handler) ∨
    ∃ i, rplCheck net.rpl rx false = .slot i ∧
      rxAccepted net (.recv rx accepted handler) = [net.acceptedAs rx] ∧
      Along (netStep cfg) (Regular cfg) net handler ∧
      (let net' := run (netStep cfg) net handler
       SlotFor net'.rpl.slots (occupiedPart net'.rpl.slots) i rx.addr ∧
       recvUnseg cfg rx accepted handler net =
         { net' with rpl := rplUpdate cfg.settings net'.rpl i rx }) := by
  cases hcheck : rplCheck net.rpl rx false with
  | replay =>
    refine .inl ⟨?_, by simp [recvUnseg, hcheck]⟩
    cases accepted <;> simp [rxAccepted, hcheck]
  | exempt =>
    refine .inr (.inl ⟨?_, hreg (by simp [hcheck]), by simp [recvUnseg, hcheck]⟩)
    cases accepted <;> simp [rxAccepted, hcheck]
  | slot i =>
    have hrun := hreg (by simp [hcheck])
    cases accepted with
    | false => exact .inr (.inl ⟨rfl, hrun, by simp [recvUnseg, hcheck]⟩)
    | true =>
      obtain ⟨-, hslot⟩ := h.occupied.of_rplCheck h.pending hcheck
      refine .inr (.inr ⟨i, rfl, by simp [rxAccepted, hcheck], hrun,
        slotFor_run h hcfg hslot hrun (hkeep i hcheck), by simp [recvUnseg, hcheck]⟩)

/-- What a step of the receiving node does to one source's bound. -/
structure RxStepOk (a : ℕ) (net net' : Net) (out : List Accepted) : Prop where
  listOk : net'.ListOk
  bound_le : net.bound a ≤ net'.bound a
  accepted : ∀ m ∈ out, m.src = a →
    net.bound a ≤ toLex (m.ivIndex, m.seq) ∧ toLex (m.ivIndex, m.seq) < net'.bound a

theorem bound_le_run (h : net.ListOk) (hcfg : cfg.settings = false)
    (hreg : Along (netStep cfg) (Regular cfg) net handler) :
    net.bound a ≤ (run (netStep cfg) net handler).bound a :=
  clock_le_run Net.ListOk (bound a) (fun _ _ hn he => hn.netStep hcfg he)
    (fun _ _ hn he => bound_le_netStep hn hcfg he) h hreg

theorem ivIndex_le_run (cfg : NetCfg) (net : Net) (handler : List NetEvent) :
    net.ivIndex.toNat ≤ (run (netStep cfg) net handler).ivIndex.toNat :=
  clock_le_run_of_forall (fun n : Net => n.ivIndex.toNat) (ivIndex_le_netStep cfg) net handler

theorem rxStepOk_update {net₁ : Net} (h₁ : net₁.ListOk)
    (hslot : SlotFor net₁.rpl.slots (occupiedPart net₁.rpl.slots) i rx.addr)
    (hle : net.bound rx.addr ≤ toLex (net.rxIndex rx.oldIv, rx.seq))
    (hmono : ∀ b, net.bound b ≤ net₁.bound b)
    (hiv : net.ivIndex.toNat ≤ net₁.ivIndex.toNat) :
    RxStepOk a net { net₁ with rpl := rplUpdate cfg.settings net₁.rpl i rx }
      [net.acceptedAs rx] := by
  obtain ⟨hok, hbound, hother⟩ := update_spec cfg h₁ hslot
  have hlt : toLex (net.rxIndex rx.oldIv, rx.seq) < toLex (net₁.rxIndex rx.oldIv, rx.seq + 1) := by
    rw [Prod.Lex.toLex_lt_toLex]
    simp only [rxIndex]
    omega
  refine ⟨hok, ?_, ?_⟩
  · by_cases ha : a = rx.addr
    · rw [ha, hbound]
      exact hle.trans hlt.le
    · rw [hother a ha]
      exact hmono a
  · intro m hm ha
    rw [mem_singleton] at hm
    subst hm
    obtain rfl : rx.addr = a := ha
    exact ⟨hle, by rw [hbound]; exact hlt⟩

/-- **One step.** Every step of the receiving node whose updates are
regular and leave matched slots in place keeps the list and the bounds. -/
theorem rxStep_ok {ev : RxEvent} (hcfg : cfg.settings = false) (h : net.ListOk)
    (hreg : RxRegular cfg net ev) (hkeep : RxKeepsSlot cfg net ev) :
    RxStepOk a net (rxStep cfg net ev) (rxAccepted net ev) := by
  cases ev with
  | recv rx accepted handler =>
    obtain ⟨hout, hstep⟩ | ⟨hout, hrun, hstep⟩ | ⟨i, hcheck, hout, hrun, hslot, hstep⟩ :=
      recvUnseg_cases hcfg h hreg hkeep
    · rw [hout, rxStep, hstep]
      exact ⟨h, le_rfl, by simp⟩
    · rw [hout, rxStep, hstep]
      exact ⟨h.run hcfg hrun, bound_le_run h hcfg hrun, by simp⟩
    · rw [hout, rxStep, hstep]
      exact rxStepOk_update (h.run hcfg hrun) hslot (bound_le_of_rplCheck h hcheck)
        (fun b => bound_le_run h hcfg hrun) (ivIndex_le_run cfg net handler)
  | recvNull rx bridge =>
    simp only [rxStep, rxAccepted, rplCheckNull]
    cases hcheck : rplCheck net.rpl rx bridge with
    | replay => exact ⟨h, le_rfl, by simp⟩
    | exempt => exact ⟨h, le_rfl, by simp⟩
    | slot i =>
      exact rxStepOk_update h (h.occupied.of_rplCheck h.pending hcheck).2
        (bound_le_of_rplCheck h hcheck) (fun b => le_rfl) le_rfl
  | net e => exact ⟨h.netStep hcfg hreg, bound_le_netStep h hcfg hreg, by simp [rxAccepted]⟩

/-! ## Runs -/

/-- No source has two slots. -/
def OneSlotPerSource (slots : List RplEntry) : Prop :=
  ∀ (i j : ℕ) (e e' : RplEntry), slots[i]? = some e → slots[j]? = some e' → e.src ≠ 0 →
    e.src = e'.src → i = j

/-- An occupied slot has no empty slot before it. -/
def OccupiedPrefix (slots : List RplEntry) : Prop :=
  ∀ (i j : ℕ) (e e' : RplEntry), slots[i]? = some e → slots[j]? = some e' → i ≤ j →
    e'.src ≠ 0 → e.src ≠ 0

theorem Occupied.lt_of_src_ne (h : Occupied slots occ) {j : ℕ}
    {e : RplEntry} (he : slots[j]? = some e) (hsrc : e.src ≠ 0) : j < occ.length := by
  by_contra hge
  rw [h.eq_append, getElem?_append_right (by omega), getElem?_replicate] at he
  split_ifs at he
  obtain rfl : ({} : RplEntry) = e := by simpa using he
  exact hsrc rfl

theorem Occupied.getElem?_eq (h : Occupied slots occ) {j : ℕ}
    (hj : j < occ.length) : slots[j]? = occ[j]? := by
  conv_lhs => rw [h.eq_append]
  exact getElem?_append_left hj

theorem Occupied.oneSlotPerSource (h : Occupied slots occ) : OneSlotPerSource slots := by
  intro i j e e' he he' hsrc heq
  have hi := h.lt_of_src_ne he hsrc
  have hj := h.lt_of_src_ne he' (heq ▸ hsrc)
  rw [h.getElem?_eq hi] at he
  rw [h.getElem?_eq hj] at he'
  refine (getElem?_inj (l := occ.map (·.src)) (by simpa using hi) h.nodup).1 ?_
  simp [he, he', heq]

theorem Occupied.occupiedPrefix (h : Occupied slots occ) : OccupiedPrefix slots := by
  intro i j e e' he he' hij hsrc
  have hi : i < occ.length := lt_of_le_of_lt hij (h.lt_of_src_ne he' hsrc)
  rw [h.getElem?_eq hi] at he
  exact h.src_ne e (mem_of_getElem? he)

theorem occupied_rplInit (crpl : ℕ) : Occupied (rplInit crpl).slots [] :=
  ⟨by simp [rplInit], by simp, by simp⟩

theorem listOk_of_rplInit {crpl : ℕ} (h : net.rpl = rplInit crpl) : net.ListOk := by
  have hocc := occupied_rplInit crpl
  refine ⟨?_, by rw [h]; rfl⟩
  rw [h, hocc.occupiedPart_eq]
  exact hocc

/-- **Replay protection.** From an empty list, over every run in which
IV updates are regular and none that a handler starts moves the slot of
the message it is handling: the messages accepted from one source come
in increasing order of IV index and SEQ, no source has two slots, and
the occupied slots come first. -/
theorem accepted_increasing (crpl : ℕ) {es : List RxEvent} (hcfg : cfg.settings = false)
    (h0 : net.rpl = rplInit crpl) (hreg : Along (rxStep cfg) (RxRegular cfg) net es)
    (hkeep : Along (rxStep cfg) (RxKeepsSlot cfg) net es) :
    (∀ a, (emitted (rxStep cfg) (rxAcceptedFrom a) net es).Pairwise fun m m' =>
      toLex (m.ivIndex, m.seq) < toLex (m'.ivIndex, m'.seq)) ∧
    OneSlotPerSource (run (rxStep cfg) net es).rpl.slots ∧
    OccupiedPrefix (run (rxStep cfg) net es).rpl.slots := by
  have hstart := listOk_of_rplInit h0
  have hguard := along_and.2 ⟨hreg, hkeep⟩
  have hstep : ∀ n ev, n.ListOk → RxRegular cfg n ev ∧ RxKeepsSlot cfg n ev →
      (rxStep cfg n ev).ListOk := fun n ev hn hev =>
    (rxStep_ok (a := 0) hcfg hn hev.1 hev.2).listOk
  refine ⟨fun a => ?_, ?_⟩
  · refine emitted_pairwise Net.ListOk (Net.bound a)
      (fun m : Accepted => toLex (m.ivIndex, m.seq)) hstep
      (fun n ev hn hev => (rxStep_ok hcfg hn hev.1 hev.2).bound_le) ?_ ?_ hstart hguard
    · intro n ev hn hev m hm
      rw [rxAcceptedFrom, List.mem_filter, beq_iff_eq] at hm
      exact (rxStep_ok hcfg hn hev.1 hev.2).accepted m hm.1 hm.2
    · intro n ev _ _
      -- A step accepts one message at most.
      refine List.Pairwise.filter _ ?_
      cases ev with
      | recv rx accepted handler =>
        cases accepted with
        | false => exact List.Pairwise.nil
        | true => simp only [rxAccepted]; split <;> simp
      | recvNull rx bridge => simp only [rxAccepted]; split <;> simp
      | net e => exact List.Pairwise.nil
  · have hend := (inv_run Net.ListOk hstep hstart hguard).occupied
    exact ⟨hend.oneSlotPerSource, hend.occupiedPrefix⟩

/-- A normal-operation node at IV index 5, three slots free, 96 hours in. -/
def node5 : Net := { provision 3 false 5 true with ivuDuration := 96 }

/-- Two sources, an update between messages, and traffic under the old
and the new index after it. -/
theorem accepted_increasing_example :
    (emitted (rxStep {}) (rxAcceptedFrom 2) node5
      [.recv { addr := 1, seq := 1, oldIv := true } true [],
       .recv { addr := 2, seq := 5 } true [], .net (.ivUpdate 6 true false),
       .recv { addr := 2, seq := 6, oldIv := true } true [],
       .recv { addr := 2, seq := 6, oldIv := true } true [],
       .recv { addr := 2, seq := 0 } true []]).Pairwise
        (fun m m' => toLex (m.ivIndex, m.seq) < toLex (m'.ivIndex, m'.seq)) ∧
    emitted (rxStep {}) (rxAcceptedFrom 2) node5
      [.recv { addr := 1, seq := 1, oldIv := true } true [],
       .recv { addr := 2, seq := 5 } true [], .net (.ivUpdate 6 true false),
       .recv { addr := 2, seq := 6, oldIv := true } true [],
       .recv { addr := 2, seq := 6, oldIv := true } true [],
       .recv { addr := 2, seq := 0 } true []] = [⟨2, 5, 5⟩, ⟨2, 5, 6⟩, ⟨2, 6, 0⟩] := by
  refine ⟨(accepted_increasing 3 rfl rfl ?_ ?_).1 2, by decide⟩
  · decide
  · simp [RxKeepsSlot]

/-- **A slot written after the list moved.** Source 1 has an old entry in
slot 0 and the Friend, source 2, an entry in slot 1. The Friend's next
message is a Friend Update that starts an IV update: the reset drops
slot 0 and moves the Friend there, and the message is entered in slot 1.
The Friend now has two slots, and the same message is accepted again. -/
theorem replayed_after_update_in_handler :
    emitted (rxStep {}) (rxAcceptedFrom 2) node5
      [.recv { addr := 1, seq := 1, oldIv := true } true [],
       .recv { addr := 2, seq := 5 } true [],
       .recv { addr := 2, seq := 6 } true [.ivUpdate 6 true false],
       .recv { addr := 2, seq := 6, oldIv := true } true []] =
        [⟨2, 5, 5⟩, ⟨2, 5, 6⟩, ⟨2, 5, 6⟩] ∧
    (run (rxStep {}) node5
      [.recv { addr := 1, seq := 1, oldIv := true } true [],
       .recv { addr := 2, seq := 5 } true [],
       .recv { addr := 2, seq := 6 } true [.ivUpdate 6 true false]]).rpl.slots.map (·.src) =
        [2, 2, 0] := by
  decide

end Mesh

end OpenBlue
