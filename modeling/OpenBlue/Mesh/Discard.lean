import OpenBlue.Mesh.SegRx
/-!
# Mesh — the discard timer of a receive context

A context is taken into use by `seg_rx_alloc`, and the timer that gives it
up is set further down in `trans_seg`. Between the two the segment is
still checked: one that is not the last and has the wrong size is refused
when its context is already open. Elsewhere every context in use has its
timer set, and one expiry frees it.
-/

namespace OpenBlue

namespace Mesh

open List

variable {cfg : TransCfg} {env : RecvEnv} {rx : NetRx} {s : Receiver} {h : SegHdr}
variable {chk : RplCheck} {auth i j : ℕ} {l : List SegRx} {c c' : SegRx} {pdu : Bytes}

/-- A context in use will be given up: its discard work is scheduled. -/
def SegRx.Armed (c : SegRx) : Prop := c.inUse = true → c.discard = true

/-- Only a context in use has its discard work scheduled. -/
def SegRx.Quiet (c : SegRx) : Prop := c.discard = true → c.inUse = true

/-- Not the last segment, and not of the size that all but the last have. -/
def SegHdr.MisSized (h : SegHdr) (ctl : Bool) : Prop :=
  h.segO ≠ h.segN ∧ h.data.length ≠ segLen ctl

instance (h : SegHdr) (ctl : Bool) : Decidable (h.MisSized ctl) :=
  inferInstanceAs (Decidable (_ ∧ _))

/-- The SeqAuth that `trans_seg` works out. -/
def Receiver.authOf (s : Receiver) (rx : NetRx) (pdu : Bytes) : ℕ :=
  rxSeqAuth (s.net.iviRx rx.oldIv).toNat rx.seq (segParse pdu).seqZero

/-- `trans_seg` gets as far as `seg_rx_alloc`, and that finds a context:
the segment is the first of its message. -/
def Opens (cfg : TransCfg) (env : RecvEnv) (rx : NetRx) (pdu : Bytes) (s : Receiver) : Prop :=
  5 ≤ pdu.length ∧ rplCheck s.net.rpl rx false ≠ .replay ∧
    (segParse pdu).segO ≤ (segParse pdu).segN ∧
    (segRxFind rx.addr rx.recvDst (s.authOf rx pdu) s.segRx).2 = none ∧
    (segParse pdu).segN < cfg.rxSegMax ∧
    ¬ (cfg.friend && rx.friendMatch && !rx.localMatch && !env.friendSpace) = true ∧
    ¬ segSurpassed s.net.rpl (rplCheck s.net.rpl rx false) rx (s.authOf rx pdu % 2 ^ 24) = true ∧
    env.segFree = true ∧
    (segRxFree (segRxFind rx.addr rx.recvDst (s.authOf rx pdu) s.segRx).1).isSome = true

/-- A step that opens no context for a segment of the wrong size. -/
def Sized (cfg : TransCfg) (s : Receiver) : SegEvent → Prop
  | .recv env rx pdu => Opens cfg env rx pdu s → ¬ (segParse pdu).MisSized rx.ctl
  | _ => True

/-- Every context in use will be given up. -/
def AllArmed (l : List SegRx) : Prop := ∀ c ∈ l, c.Armed

/-- No context out of use has its discard work scheduled. -/
def AllQuiet (l : List SegRx) : Prop := ∀ c ∈ l, c.Quiet

theorem reset_armed (full : Bool) (c : SegRx) : (c.reset full).Armed := nofun

theorem reset_quiet (full : Bool) (c : SegRx) : (c.reset full).Quiet := nofun

/-- **What `found_rx` does to a context in use**: it refuses the segment and
leaves the context alone, or sets the timer, or clears it. -/
theorem segFound_cases (cfg : TransCfg) (env : RecvEnv) (rx : NetRx) (chk : RplCheck)
    (h : SegHdr) (auth : ℕ) (huse : (s.segRx.getD i default).inUse = true) :
    ((segFound cfg env rx chk h auth i s).s = s ∧
      ((s.segRx.getD i default).block.testBit h.segO = true ∨
        h.MisSized (s.segRx.getD i default).ctl)) ∨
    ¬ ((s.segRx.getD i default).block.testBit h.segO = true ∨
        h.MisSized (s.segRx.getD i default).ctl) ∧
      ∃ c', (segFound cfg env rx chk h auth i s).s.segRx = s.segRx.set i c' ∧ c'.Armed ∧
        c'.Quiet := by
  simp only [segFound]
  split
  next hbit => exact .inl ⟨rfl, .inl hbit⟩
  next hbit =>
    split
    next hlarge =>
      refine .inr ⟨?_, _, rfl, reset_armed true _, reset_quiet true _⟩
      rintro (hin | ⟨hne, -⟩)
      · exact hbit hin
      · exact hne hlarge.1
    next =>
      split
      next hsize => exact .inl ⟨rfl, .inr hsize⟩
      next hsize =>
        refine .inr ⟨fun hin => hin.elim hbit hsize, ?_⟩
        split
        · exact ⟨_, rfl, fun _ => rfl, fun _ => huse⟩
        · split
          · exact ⟨_, rfl, fun _ => rfl, fun _ => huse⟩
          · exact ⟨_, segComplete_segRx, reset_armed false _, reset_quiet false _⟩

theorem forall_mem_set {P : SegRx → Prop} (h : ∀ c ∈ l, P c) (hc : P c') :
    ∀ c ∈ l.set i c', P c := fun c hin =>
  (mem_or_eq_of_mem_set hin).elim (h c) fun heq => heq ▸ hc

theorem forall_mem_modify {P : SegRx → Prop} {f : SegRx → SegRx} (h : ∀ c ∈ l, P c)
    (hf : ∀ c, P c → P (f c)) : ∀ c ∈ l.modify i f, P c := by
  intro c hc
  obtain hc | ⟨d, hd, rfl⟩ := mem_modify hc
  · exact h c hc
  · exact hf d (h d hd)

theorem forall_mem_segRxFind {P : SegRx → Prop} {addr dst : ℕ} (h : ∀ c ∈ l, P c)
    (hreset : ∀ c : SegRx, P (c.reset true)) : ∀ c ∈ (segRxFind addr dst auth l).1, P c := by
  intro c hc
  obtain hc | ⟨d, hd, rfl⟩ := mem_segRxFind hc
  · exact h c hc
  · exact hreset d

/-! ## One segment -/

theorem segKnown_keeps {P : SegRx → Prop} (hall : ∀ c ∈ s.segRx, P c)
    (hset : ∀ c : SegRx, c.Armed → c.Quiet → P c) :
    ∀ c ∈ (segKnown cfg env rx chk h auth i s).s.segRx, P c := by
  simp only [segKnown]
  split_ifs with hold hvalid huse hblock
  · exact hall
  · exact hall
  · rcases segFound_cases cfg env rx chk h auth
      huse with ⟨heq, -⟩ | ⟨-, c', heq, harmed, hquiet⟩
    · rwa [heq]
    · rw [heq]
      exact forall_mem_set hall (hset c' harmed hquiet)
  · rwa [Receiver.enter_segRx]
  · rwa [Receiver.enter_segRx]
  · exact hall

/-- The checks between `seg_rx_find` and `seg_rx_alloc`, and that there is
a free context. -/
def Allocates (cfg : TransCfg) (env : RecvEnv) (rx : NetRx) (chk : RplCheck) (h : SegHdr)
    (auth : ℕ) (s : Receiver) : Prop :=
  h.segN < cfg.rxSegMax ∧
    ¬ (cfg.friend && rx.friendMatch && !rx.localMatch && !env.friendSpace) = true ∧
    ¬ segSurpassed s.net.rpl chk rx (auth % 2 ^ 24) = true ∧ env.segFree = true ∧
    (segRxFree s.segRx).isSome = true

/-- **What the first segment of a message does**: a context is opened or
not, and where it is, the segment is of the wrong size, or the timer is
set or the context cleared again. -/
theorem segNew_cases (cfg : TransCfg) (env : RecvEnv) (rx : NetRx) (chk : RplCheck)
    (h : SegHdr) (auth : ℕ) (s : Receiver) : (¬ Allocates cfg env rx chk h auth s ∧
      (segNew cfg env rx chk h auth s).s.segRx = s.segRx) ∨
    ∃ i, Allocates cfg env rx chk h auth s ∧ segRxFree s.segRx = some i ∧
      (h.MisSized rx.ctl ∧ (segNew cfg env rx chk h auth s).s.segRx =
          s.segRx.set i ((s.segRx.getD i default).open rx h auth) ∨
        ¬ h.MisSized rx.ctl ∧ ∃ c', (segNew cfg env rx chk h auth s).s.segRx = s.segRx.set i c' ∧
          c'.Armed ∧ c'.Quiet) := by
  rw [segNew]
  split
  next hmax => exact .inl ⟨fun hin => absurd hin.1 (by omega), rfl⟩
  next hmax =>
    split
    next hfriend => exact .inl ⟨fun hin => hin.2.1 hfriend, rfl⟩
    next hfriend =>
      split
      next hold => exact .inl ⟨fun hin => hin.2.2.1 hold, rfl⟩
      next hold =>
        split
        next hfull =>
          refine .inl ⟨fun hin => ?_, rfl⟩
          rw [hin.2.2.2.1] at hfull
          cases hfull
        next hfull =>
          split
          next hfree =>
            refine .inl ⟨fun hin => ?_, rfl⟩
            rw [Allocates, hfree] at hin
            cases hin.2.2.2.2
          next i hfree =>
            have hi : i < s.segRx.length := (findIdx?_eq_some_iff_findIdx_eq.1 hfree).1
            have hget : (s.put i ((s.segRx.getD i default).open rx h auth)).segRx.getD i default =
                (s.segRx.getD i default).open rx h auth := by
              simp [Receiver.put, hi]
            have hopen : Allocates cfg env rx chk h auth s :=
              ⟨by omega, hfriend, hold, by simpa using hfull, by rw [hfree]; rfl⟩
            refine .inr ⟨i, hopen, hfree, ?_⟩
            have hfound := segFound_cases cfg env rx chk h auth
              (s := s.put i ((s.segRx.getD i default).open rx h auth)) (i := i)
              (by rw [hget]; rfl)
            rw [hget] at hfound
            have hbit : ¬ ((s.segRx.getD i default).open rx h auth).block.testBit h.segO = true := by
              simp [SegRx.open]
            rcases hfound with ⟨heq, hbad⟩ | ⟨hgood, c', heq, harmed, hquiet⟩
            · exact .inl ⟨hbad.resolve_left hbit, by rw [heq]; rfl⟩
            · refine .inr ⟨fun hin => hgood (.inr hin), c', ?_, harmed, hquiet⟩
              rw [heq]
              exact List.set_set ..

theorem open_not_armed (hquiet : c.Quiet) (hfree : c.inUse = false) :
    ¬ (c.open rx h auth).Armed := by
  intro harmed
  have hdiscard : c.discard = true := harmed rfl
  rw [hquiet hdiscard] at hfree
  exact nomatch hfree

theorem segNew_armed_iff (hall : AllArmed s.segRx) (hquiet : AllQuiet s.segRx) :
    AllArmed (segNew cfg env rx chk h auth s).s.segRx ↔
      (Allocates cfg env rx chk h auth s → ¬ h.MisSized rx.ctl) := by
  rcases segNew_cases cfg env rx chk h auth s with
    ⟨hno, heq⟩ | ⟨i, hopen, hfree, ⟨hbad, heq⟩ | ⟨hgood, c', heq, harmed, -⟩⟩
  · rw [heq]
    exact iff_of_true hall fun hin => absurd hin hno
  · refine iff_of_false (fun hin => ?_) fun hin => hin hopen hbad
    obtain ⟨hi, hidle, -⟩ := findIdx?_eq_some_iff_getElem.1 hfree
    have hget : s.segRx.getD i default = s.segRx[i] := by
      rw [getD_eq_getElem?_getD, getElem?_eq_getElem hi]
      rfl
    rw [heq] at hin
    refine open_not_armed (c := s.segRx.getD i default) ?_ ?_ (hin _ (mem_set hi _))
    · rw [hget]
      exact hquiet _ (getElem_mem hi)
    · rw [hget]
      simpa using hidle
  · rw [heq]
    exact iff_of_true (forall_mem_set hall harmed) fun _ => hgood

theorem segNew_quiet (hquiet : AllQuiet s.segRx) :
    AllQuiet (segNew cfg env rx chk h auth s).s.segRx := by
  rcases segNew_cases cfg env rx chk h auth s with
    ⟨-, heq⟩ | ⟨i, -, -, ⟨-, heq⟩ | ⟨-, c', heq, -, hc'⟩⟩
  · rwa [heq]
  · rw [heq]
    exact forall_mem_set hquiet fun _ => rfl
  · rw [heq]
    exact forall_mem_set hquiet hc'

/-- **One segment.** It leaves a context in use without its timer exactly
where it opens one and has the wrong size. -/
theorem transSeg_armed_iff (hall : AllArmed s.segRx) (hquiet : AllQuiet s.segRx) :
    AllArmed (transSeg cfg env rx pdu s).s.segRx ↔
      (Opens cfg env rx pdu s → ¬ (segParse pdu).MisSized rx.ctl) := by
  rw [transSeg]
  split
  next hlen => exact iff_of_true hall fun hin => absurd hin.1 (by omega)
  next hlen =>
    split
    next hreplay => exact iff_of_true hall fun hin => absurd hreplay hin.2.1
    next hreplay =>
      dsimp only
      split
      next hseg => exact iff_of_true hall fun hin => absurd hin.2.2.1 (by omega)
      next hseg =>
        have hall' : AllArmed (segRxFind rx.addr rx.recvDst (s.authOf rx pdu) s.segRx).1 :=
          forall_mem_segRxFind hall (reset_armed true)
        have hquiet' : AllQuiet (segRxFind rx.addr rx.recvDst (s.authOf rx pdu) s.segRx).1 :=
          forall_mem_segRxFind hquiet (reset_quiet true)
        split
        next i hfind =>
          refine iff_of_true ?_ fun hin => ?_
          · exact segKnown_keeps (s := { s with segRx := _ }) hall' fun c harmed _ => harmed
          · rw [Opens, Receiver.authOf, hfind] at hin
            cases hin.2.2.2.1
        next hfind =>
          refine (segNew_armed_iff (s := { s with segRx := _ }) hall' hquiet').trans ?_
          refine imp_congr_left ⟨fun hin => ?_, fun hin => hin.2.2.2.2⟩
          exact ⟨by omega, hreplay, by omega, hfind, hin⟩

theorem transSeg_quiet (hquiet : AllQuiet s.segRx) :
    AllQuiet (transSeg cfg env rx pdu s).s.segRx := by
  rw [transSeg]
  split
  · exact hquiet
  · split
    · exact hquiet
    · dsimp only
      split
      · exact hquiet
      · have hquiet' : AllQuiet (segRxFind rx.addr rx.recvDst (s.authOf rx pdu) s.segRx).1 :=
          forall_mem_segRxFind hquiet (reset_quiet true)
        split
        · exact segKnown_keeps (s := { s with segRx := _ }) hquiet' fun c _ hc => hc
        · exact segNew_quiet (s := { s with segRx := _ }) hquiet'

/-! ## Every run -/

theorem ackTimer_armed (h : c.Armed) : (c.ackTimer cfg).Armed := by
  obtain ⟨ack, attempts, heq⟩ := ackTimer_eq cfg c
  rw [heq]
  exact h

theorem ackTimer_quiet (h : c.Quiet) : (c.ackTimer cfg).Quiet := by
  obtain ⟨ack, attempts, heq⟩ := ackTimer_eq cfg c
  rw [heq]
  exact h

theorem segStep_quiet (e : SegEvent) (hquiet : AllQuiet s.segRx) :
    AllQuiet (segStep cfg s e).segRx := by
  cases e with
  | recv env rx pdu => exact transSeg_quiet hquiet
  | ackTimer i => exact forall_mem_modify hquiet fun c => ackTimer_quiet
  | discardTimer i => exact forall_mem_modify hquiet fun c _ => nofun

theorem segStep_armed_iff (e : SegEvent) (hall : AllArmed s.segRx) (hquiet : AllQuiet s.segRx) :
    AllArmed (segStep cfg s e).segRx ↔ Sized cfg s e := by
  cases e with
  | recv env rx pdu => exact transSeg_armed_iff hall hquiet
  | ackTimer i => exact iff_of_true (forall_mem_modify hall fun c => ackTimer_armed) trivial
  | discardTimer i => exact iff_of_true (forall_mem_modify hall fun c _ => nofun) trivial

/-- A timer of a context, and no input. -/
def SegEvent.IsTimer : SegEvent → Prop
  | .recv _ _ _ => False
  | _ => True

/-- Context `i` is free once its discard timer has expired, whatever other
timers do before and after. -/
def FreedByTimer (cfg : TransCfg) (s : Receiver) (i : ℕ) : Prop :=
  ∀ ts : List SegEvent, (∀ e ∈ ts, e.IsTimer) → .discardTimer i ∈ ts →
    ∀ c, (run (segStep cfg) s ts).segRx[i]? = some c → c.inUse = false

theorem segStep_timer_free {e : SegEvent} (he : e.IsTimer)
    (hfree : ∀ c, s.segRx[i]? = some c → c.inUse = false) :
    ∀ c, (segStep cfg s e).segRx[i]? = some c → c.inUse = false := by
  intro c hc
  cases e with
  | recv env rx pdu => exact he.elim
  | ackTimer j =>
    rw [segStep, getElem?_modify] at hc
    obtain ⟨d, hd, rfl⟩ := Option.map_eq_some_iff.1 hc
    split
    · obtain ⟨ack, attempts, heq⟩ := ackTimer_eq cfg d
      rw [heq]
      exact hfree d hd
    · exact hfree d hd
  | discardTimer j =>
    rw [segStep, segDiscard, getElem?_modify] at hc
    obtain ⟨d, hd, rfl⟩ := Option.map_eq_some_iff.1 hc
    split
    · rfl
    · exact hfree d hd

theorem freedByTimer (cfg : TransCfg) (s : Receiver) (i : ℕ) : FreedByTimer cfg s i := by
  intro ts hts hin
  induction ts generalizing s with
  | nil => exact nomatch hin
  | cons e ts ih =>
    have hts' : ∀ e ∈ ts, e.IsTimer := fun e he => hts e (mem_cons_of_mem _ he)
    rw [run_cons]
    obtain rfl | hin := mem_cons.1 hin
    · have hfree : ∀ c, (segStep cfg s (.discardTimer i)).segRx[i]? = some c → c.inUse = false := by
        intro c hc
        rw [segStep, segDiscard, getElem?_modify_eq] at hc
        obtain ⟨d, -, rfl⟩ := Option.map_eq_some_iff.1 hc
        rfl
      exact inv_run (fun s : Receiver => ∀ c, s.segRx[i]? = some c → c.inUse = false)
        (fun s e hfree he => segStep_timer_free he hfree) hfree (along_of_mem hts' _)
    · exact ih _ hts' hin

/-- **A context is given up, unless its message began with a segment of the
wrong size.** Throughout a run every context in use has its discard work
scheduled, whose expiry frees it, exactly when no context was opened for a
segment that is not the last and has not the size of one. -/
theorem contexts_given_up_iff (cfg : TransCfg) (net : Net) (contexts : ℕ) (es : List SegEvent) :
    (∀ es', es' <+: es → ∀ i c,
      (run (segStep cfg) (receiverInit cfg net contexts) es').segRx[i]? = some c →
        c.inUse = true → c.discard = true ∧
          FreedByTimer cfg (run (segStep cfg) (receiverInit cfg net contexts) es') i) ↔
      Along (segStep cfg) (Sized cfg) (receiverInit cfg net contexts) es := by
  have hmem : ∀ c ∈ (receiverInit cfg net contexts).segRx,
      c = { seg := List.replicate cfg.rxSegMax none } := fun c hc => List.eq_of_mem_replicate hc
  have hall : AllArmed (receiverInit cfg net contexts).segRx := fun c hc => by
    rw [hmem c hc]
    exact nofun
  have hquiet : AllQuiet (receiverInit cfg net contexts).segRx := fun c hc => by
    rw [hmem c hc]
    exact nofun
  rw [← prefix_iff_along (fun s => AllQuiet s.segRx) (fun s => AllArmed s.segRx)
    (fun s e => segStep_quiet e) (fun s e hquiet hall => segStep_armed_iff e hall hquiet) hquiet
    hall]
  refine forall₂_congr fun es' _ => ⟨fun h c hc huse => ?_, fun h i c hi huse => ?_⟩
  · obtain ⟨i, hi⟩ := List.mem_iff_getElem?.1 hc
    exact (h i c hi huse).1
  · exact ⟨h c (List.mem_of_getElem? hi) huse, freedByTimer _ _ _⟩

/-- The first of two segments, with three bytes where it has twelve. -/
def shortFirst : Bytes := [0xc0, 0, 0, 1, 7, 7, 7]

/-- **A context leaks.** A node with two free contexts receives one segment
of the wrong size: a context is in use, and nothing will free it. -/
theorem short_first_segment_leaks :
    ∃ c ∈ (run (segStep {}) (receiverInit {} (provision 3 false 5 true) 2)
        [.recv {} { addr := 1, recvDst := 2, seq := 0 } shortFirst]).segRx,
      c.inUse = true ∧ c.discard = false ∧ c.ack = false := by
  decide

end Mesh

end OpenBlue
