import OpenBlue.Common.Run
import OpenBlue.Host.Model.Iso
/-!
# Host — isochronous SDUs as they were announced

An SDU is a run of fragments: one that starts it, any that continue it and
one that ends it, or a single one. `sdus_exact_iff` has exactly the packets
after which what is being put together is a strict prefix of one SDU, and
with which only whole SDUs of their announced length are handed on: nothing
checks the announced length when the last fragment has come. What becomes of
the buffers does not depend on it (`buffers_released`).
-/

namespace OpenBlue

namespace Iso

open List Conn

/-- The packets end with fragments of one SDU of `n` bytes that is not ended
yet, which have the data `d`. -/
inductive Open : List Packet → ℕ → Bytes → Prop
  | start (ps : List Packet) (p : Packet) (h : p.pb = .start) :
    Open (ps ++ [p]) p.sduLength p.payload
  | cont {ps : List Packet} {n : ℕ} {d : Bytes} (p : Packet) (h : Open ps n d)
    (hp : p.pb = .cont) : Open (ps ++ [p]) n (d ++ p.load)

/-- The packets end with the fragments of one whole SDU that announced `n`
bytes, which have the data `d`. A start with all of the data is whole, too. -/
inductive Whole : List Packet → ℕ → Bytes → Prop
  | single (ps : List Packet) (p : Packet) (h : p.pb = .start ∨ p.pb = .single) :
    Whole (ps ++ [p]) p.sduLength p.payload
  | last {ps : List Packet} {n : ℕ} {d : Bytes} (p : Packet) (h : Open ps n d)
    (hp : p.pb = .last) : Whole (ps ++ [p]) n (d ++ p.load)

variable {listens : Bool} {s : Conn} {p : Packet} {ps : List Packet} {n n' : ℕ}
  {d d' : Bytes} {info : RecvInfo}

/-- The connection with the packets it has taken. -/
def watch (listens : Bool) (t : List Packet × Conn) (p : Packet) : List Packet × Conn :=
  (t.1 ++ [p], (t.2.recv listens p).1)

/-- What is being put together is a strict prefix of one SDU, and as many
bytes are missing as `rx_len` says. -/
def Partial (t : List Packet × Conn) : Prop :=
  ∀ rx, t.2.rx = some rx →
    ∃ n, Open t.1 n rx.data ∧ rx.data.length + t.2.rxLen = n ∧ 0 < t.2.rxLen

/-- With the packet only a whole SDU of the announced length is handed on. -/
def Exact (listens : Bool) (t : List Packet × Conn) (p : Packet) : Prop :=
  ∀ info d, Out.recv info d ∈ (t.2.recv listens p).2 → Whole (t.1 ++ [p]) d.length d

/-- The packet does not carry more than its SDU needs, and the last one not
less, either. What does not fit the buffer is dropped. -/
def Fits (listens : Bool) (t : List Packet × Conn) (p : Packet) : Prop :=
  match p.pb with
  | .start => p.payload.length ≤ p.sduLength
  | .single => True
  | .cont => ∀ rx, t.2.rx = some rx → p.load.length ≤ rx.tailroom → p.load.length < t.2.rxLen
  | .last => listens = true → ∀ rx, t.2.rx = some rx → p.load.length ≤ rx.tailroom →
      p.load.length = t.2.rxLen

instance (t : List Packet × Conn) (p : Packet) : Decidable (Fits listens t p) := by
  unfold Fits
  cases p.pb with
  | start | single => exact inferInstance
  | cont | last =>
    cases t.2.rx with
    | none => exact .isTrue (by simp)
    | some rx => exact decidable_of_iff _ (by simp only [Option.some.injEq, forall_eq']; rfl)

/-! ## Fragments -/

theorem Open.unique (h : Open ps n d) (h' : Open ps n' d') : n' = n ∧ d' = d := by
  induction h generalizing n' d' with
  | start ps p hp =>
    generalize hps : ps ++ [p] = qs at h'
    cases h' with
    | start ps' p' _ =>
      obtain ⟨-, hlast⟩ := append_inj' hps rfl
      cases hlast
      exact ⟨rfl, rfl⟩
    | cont p' _ hp' =>
      obtain ⟨-, hlast⟩ := append_inj' hps rfl
      cases hlast
      exact absurd (hp.symm.trans hp') nofun
  | @cont ps n d p _ hp ih =>
    generalize hps : ps ++ [p] = qs at h'
    cases h' with
    | start ps' p' hp' =>
      obtain ⟨-, hlast⟩ := append_inj' hps rfl
      cases hlast
      exact absurd (hp.symm.trans hp') nofun
    | cont p' h' _ =>
      obtain ⟨rfl, hlast⟩ := append_inj' hps rfl
      cases hlast
      obtain ⟨rfl, rfl⟩ := ih h'
      exact ⟨rfl, rfl⟩

theorem open_start_iff (hp : p.pb = .start) :
    Open (ps ++ [p]) n d ↔ n = p.sduLength ∧ d = p.payload := by
  refine ⟨fun h => (Open.start ps p hp).unique h, ?_⟩
  rintro ⟨rfl, rfl⟩
  exact .start ps p hp

theorem open_cont_iff (hopen : Open ps n d) (hp : p.pb = .cont) :
    Open (ps ++ [p]) n' d' ↔ n' = n ∧ d' = d ++ p.load := by
  refine ⟨(hopen.cont p hp).unique, ?_⟩
  rintro ⟨rfl, rfl⟩
  exact hopen.cont p hp

theorem whole_last_iff (hopen : Open ps n d) (hp : p.pb = .last) :
    Whole (ps ++ [p]) n' (d ++ p.load) ↔ n' = n := by
  refine ⟨fun h => ?_, fun h => h ▸ .last p hopen hp⟩
  generalize hps : ps ++ [p] = qs, d ++ p.load = d' at h
  cases h with
  | single ps' p' hp' =>
    obtain ⟨-, hlast⟩ := append_inj' hps rfl
    cases hlast
    rw [hp] at hp'
    exact absurd hp' (by simp)
  | last p' h' _ =>
    obtain ⟨rfl, hlast⟩ := append_inj' hps rfl
    cases hlast
    exact (hopen.unique h').1

/-! ## One packet -/

theorem sub16_le {a b : ℕ} (ha : a < 2 ^ 16) (h : b ≤ a) : sub16 a b = a - b := by
  rw [sub16, show a + 2 ^ 16 - b = a - b + 2 ^ 16 by omega, Nat.add_mod_right]
  exact Nat.mod_eq_of_lt (by omega)

theorem sub16_lt {a b : ℕ} (h : a < b) : sub16 a b = a + 2 ^ 16 - b :=
  Nat.mod_eq_of_lt (by omega)

theorem sub16_pos_iff {a b : ℕ} (ha : a < 2 ^ 16) (hb : b < 2 ^ 14) : sub16 a b = 0 ↔ a = b := by
  rcases Nat.lt_or_ge a b with h | h
  · rw [sub16_lt h]
    omega
  · rw [sub16_le ha h]
    omega

theorem Packet.sduLength_lt (p : Packet) : p.sduLength < 2 ^ 12 := Nat.mod_lt _ (by decide)

theorem Packet.payload_lt (p : Packet) : p.payload.length < 2 ^ 14 := by
  have hshort := p.short
  rw [Packet.payload, length_drop]
  omega

@[simp] theorem rx_resetRxState : s.resetRxState.1.rx = none := by
  rw [resetRxState]
  split
  · assumption
  · rfl

theorem recv_not_mem_resetRxState : Out.recv info d ∉ s.resetRxState.2 := by
  rw [resetRxState]
  split <;> simp

@[simp] theorem rx_deliver (listens : Bool) (s : Conn) : (s.deliver listens).1.rx = none :=
  rx_resetRxState

theorem recv_mem_deliver_iff : Out.recv info d ∈ (s.deliver listens).2 ↔
      listens = true ∧ ∃ rx, s.rx = some rx ∧ rx.info = info ∧ rx.data = d := by
  rw [deliver, mem_append, or_iff_left recv_not_mem_resetRxState]
  cases s.rx with
  | none => simp
  | some rx => cases listens <;> simp [eq_comm]

theorem partial_of_none (h : s.rx = none) : Partial (ps, s) := fun _ hrx =>
  absurd (h.symm.trans hrx) nofun

/-- **A first fragment** goes as it should unless it is a start with more
data than it announces. -/
theorem first_iff (ps : List Packet) (s : Conn) (hp : p.pb = .start ∨ p.pb = .single) :
    Partial (ps ++ [p], (s.recvFirst listens p).1) ∧
        (∀ info d, Out.recv info d ∈ (s.recvFirst listens p).2 → Whole (ps ++ [p]) d.length d) ↔
      (p.pb = .start → p.payload.length ≤ p.sduLength) := by
  have hn := p.sduLength_lt
  have hlen := p.payload_lt
  have hzero : sub16 p.sduLength p.payload.length = 0 ↔ p.sduLength = p.payload.length :=
    sub16_pos_iff (by omega) hlen
  rw [recvFirst]
  by_cases hall : p.sduLength = p.payload.length
  · -- all there is has come, and is handed on
    dsimp only
    rw [if_neg (not_not.mpr (hzero.mpr hall))]
    refine iff_of_true ⟨partial_of_none (rx_deliver listens _), fun info d hd => ?_⟩ fun _ => hall.ge
    rcases mem_append.mp hd with hd | hd
    · exact absurd hd recv_not_mem_resetRxState
    · obtain ⟨-, rx, hrx, -, rfl⟩ := recv_mem_deliver_iff.mp hd
      obtain rfl := Option.some.inj hrx
      rw [← hall]
      exact .single ps p hp
  · dsimp only
    rw [if_pos (fun h => hall (hzero.mp h))]
    have hnone : ∀ info d, Out.recv info d ∈ s.resetRxState.2 → Whole (ps ++ [p]) d.length d :=
      fun info d hd => absurd hd recv_not_mem_resetRxState
    by_cases hsingle : p.pb = .single
    · rw [if_pos hsingle]
      refine iff_of_true ⟨partial_of_none rx_resetRxState, fun info d hd => ?_⟩ fun h =>
        absurd (h.symm.trans hsingle) nofun
      rcases mem_append.mp hd with hd | hd <;> exact absurd hd recv_not_mem_resetRxState
    · have hstart := hp.resolve_right hsingle
      rw [if_neg hsingle, and_iff_left hnone]
      simp only [Partial, Option.some.injEq, forall_eq', open_start_iff hstart]
      constructor
      · rintro ⟨n, ⟨rfl, -⟩, hsum, -⟩ -
        omega
      · intro hle
        have hle := hle hstart
        rw [sub16_le (by omega) hle]
        exact ⟨_, ⟨rfl, trivial⟩, by omega, by omega⟩

/-- **A later fragment** goes as it should if and only if it carries what is
missing: less, where the SDU goes on, and all of it with the last one. -/
theorem more_iff (listens : Bool) (hp : p.pb = .cont ∨ p.pb = .last) (hs : Partial (ps, s))
    (hlt : s.rxLen < 2 ^ 16) : Partial (ps ++ [p], (s.recvMore listens p).1) ∧
        (∀ info d, Out.recv info d ∈ (s.recvMore listens p).2 → Whole (ps ++ [p]) d.length d) ↔
      ∀ rx, s.rx = some rx → p.load.length ≤ rx.tailroom →
        (p.pb = .cont → p.load.length < s.rxLen) ∧
          (p.pb = .last → listens = true → p.load.length = s.rxLen) := by
  rw [recvMore]
  cases hrx : s.rx with
  | none => exact iff_of_true ⟨partial_of_none hrx, by simp⟩ (by simp)
  | some rx =>
    obtain ⟨n, hopen, hsum, hpos⟩ := hs rx hrx
    dsimp only at hopen hsum hpos ⊢
    rcases Nat.lt_or_ge rx.tailroom p.load.length with hfull | hroom
    · rw [if_pos hfull]
      refine iff_of_true ⟨partial_of_none rx_resetRxState, fun info d hd => ?_⟩ ?_
      · rcases mem_append.mp hd with hd | hd
        · exact absurd hd recv_not_mem_resetRxState
        · exact absurd hd (by simp)
      · intro rx' hrx' hle
        obtain rfl := Option.some.inj hrx'
        omega
    · rw [if_neg (by omega)]
      simp only [Option.some.injEq, forall_eq', hroom, true_imp_iff]
      rcases hp with hp | hp
      · rw [if_neg (by rw [hp]; nofun)]
        have hnone : ∀ info d, Out.recv info d ∈ [Out.unref p.id] → Whole (ps ++ [p]) d.length d :=
          by simp
        rw [and_iff_left hnone, hp]
        simp only [Partial, Option.some.injEq, forall_eq', open_cont_iff hopen hp,
          length_append, true_imp_iff, reduceCtorEq, false_imp_iff, and_true]
        have hshort := p.short
        constructor
        · rintro ⟨n', rfl, hsum', hpos'⟩
          by_contra hge
          rcases Nat.lt_or_ge s.rxLen p.load.length with hmore | hless
          · rw [sub16_lt hmore] at hsum'
            omega
          · rw [sub16_le hlt hless] at hpos'
            omega
        · intro hless
          rw [sub16_le hlt hless.le]
          exact ⟨n, rfl, by omega, by omega⟩
      · rw [if_pos hp, and_iff_right (partial_of_none (rx_deliver listens _)), hp]
        simp only [mem_cons, reduceCtorEq, false_or, recv_mem_deliver_iff,
          Option.some.injEq, exists_eq_left', false_imp_iff, true_and, true_imp_iff]
        constructor
        · intro h hlistens
          have hwhole := h _ _ ⟨hlistens, rfl, rfl⟩
          rw [whole_last_iff hopen hp, length_append] at hwhole
          omega
        · rintro h info d ⟨hlistens, -, rfl⟩
          rw [whole_last_iff hopen hp, length_append]
          have := h hlistens
          omega

theorem rxLen_recv_lt (hlt : s.rxLen < 2 ^ 16) : (s.recv listens p).1.rxLen < 2 ^ 16 := by
  have hsub : ∀ a b, sub16 a b < 2 ^ 16 := fun a b => Nat.mod_lt _ (by decide)
  have hreset : ∀ t : Conn, t.resetRxState.1.rxLen = t.rxLen := fun t => by
    rw [resetRxState]
    split <;> rfl
  rw [recv, recvFirst, recvMore]
  repeat' split
  all_goals simp only [deliver, hreset]
  all_goals first | exact hsub .. | exact hlt

/-! ## The buffers -/

/-- The buffers given back. -/
def released (outs : List Out) : List ℕ := outs.filterMap fun
  | .unref id => some id
  | .recv .. => none

/-- The buffer that is held. -/
def Conn.held (s : Conn) : List ℕ := s.rx.toList.map Buf.id

@[simp] theorem released_append (outs outs' : List Out) :
    released (outs ++ outs') = released outs ++ released outs' := filterMap_append

@[simp] theorem released_unref (id : ℕ) (outs : List Out) :
    released (.unref id :: outs) = id :: released outs := rfl

@[simp] theorem released_nil : released [] = [] := rfl

@[simp] theorem released_resetRxState : released s.resetRxState.2 = s.held := by
  rw [resetRxState, Conn.held]
  cases s.rx <;> rfl

@[simp] theorem held_resetRxState : s.resetRxState.1.held = [] := by
  rw [Conn.held, rx_resetRxState]
  rfl

@[simp] theorem released_deliver : released (s.deliver listens).2 = s.held := by
  rw [deliver, released_append, released_resetRxState]
  cases s.rx with
  | none => rfl
  | some rx => cases listens <;> rfl

@[simp] theorem held_deliver : (s.deliver listens).1.held = [] := held_resetRxState

/-- **A buffer is given back or held**: that of the packet, and the one held
before. -/
theorem released_recv (listens : Bool) (s : Conn) (p : Packet) :
    (released (s.recv listens p).2 ++ (s.recv listens p).1.held).Perm (s.held ++ [p.id]) := by
  have hfirst : (released (s.recvFirst listens p).2 ++ (s.recvFirst listens p).1.held).Perm
      (s.held ++ [p.id]) := by
    rw [recvFirst]
    dsimp only
    split
    · split <;> simp [Conn.held]
    · simp [Conn.held]
  have hmore : (released (s.recvMore listens p).2 ++ (s.recvMore listens p).1.held).Perm
      (s.held ++ [p.id]) := by
    rw [recvMore]
    split
    next hrx => simp [Conn.held, hrx]
    next rx hrx =>
      have hheld : s.held = [rx.id] := by rw [Conn.held, hrx]; rfl
      split
      · simp [hheld]
      · dsimp only
        split <;> simpa [Conn.held, hrx] using List.Perm.swap ..
  rw [recv]
  cases p.pb <;> assumption

/-! ## Every run -/

/-- What a packet leads to. -/
def outs (listens : Bool) (t : List Packet × Conn) (p : Packet) : List Out :=
  (t.2.recv listens p).2

theorem buffers_released (listens : Bool) (ps : List Packet) :
    (released (emitted (watch listens) (outs listens) ([], {}) ps) ++
      (run (watch listens) ([], {}) ps).2.held).Perm (ps.map Packet.id) := by
  have htaken : (run (watch listens) ([], {}) ps).1 = ps :=
    history_run (fun (t : List Packet × Conn) ps => t.1 = ps)
      (fun t p _ h => congrArg (· ++ [p]) h) rfl ps
  have hstep : ∀ (t : List Packet × Conn) (p : Packet) (log : List Out),
      (released log ++ t.2.held).Perm (t.1.map Packet.id) → True →
        (released (log ++ outs listens t p) ++ (watch listens t p).2.held).Perm
          ((watch listens t p).1.map Packet.id) := by
    intro t p log h _
    rw [released_append, append_assoc, watch, map_append, map_singleton]
    refine ((released_recv listens t.2 p).append_left (released log)).trans ?_
    rw [← append_assoc]
    exact h.append_right [p.id]
  have hnil : (released [] ++ ({} : Conn).held).Perm (([] : List Packet).map Packet.id) := .nil
  have hperm := log_run (outs listens)
    (fun t log => (released log ++ t.2.held).Perm (t.1.map Packet.id)) hstep hnil
    (along_of_forall (fun _ _ => trivial) ([], {}) ps)
  rwa [htaken, nil_append] at hperm

/-- **SDUs are exact**: after every packet what is being put together is a
strict prefix of one SDU and `rx_len` says how much is missing, and every
SDU that is handed on has its announced length and is made of consecutive
fragments, if and only if along the run no start carries more than its SDU
has, no continuation as much as is missing, and every last fragment just
that. In every run each buffer is given back once, but for the one held. -/
theorem sdus_exact_iff (listens : Bool) (ps : List Packet) :
    ((∀ ps', ps' <+: ps → Partial (run (watch listens) ([], {}) ps')) ∧
        Along (watch listens) (Exact listens) ([], {}) ps ↔
      Along (watch listens) (Fits listens) ([], {}) ps) ∧
      (released (emitted (watch listens) (outs listens) ([], {}) ps) ++
        (run (watch listens) ([], {}) ps).2.held).Perm (ps.map Packet.id) := by
  refine ⟨?_, buffers_released listens ps⟩
  refine prefix_along_iff (fun t => t.2.rxLen < 2 ^ 16) Partial (Exact listens)
    (fun t p => rxLen_recv_lt) (fun t p hlt ht => ?_) (by decide) (partial_of_none rfl) ps
  rw [watch, Exact, Fits, Conn.recv]
  cases hp : p.pb with
  | start => simpa [hp] using first_iff t.1 t.2 (.inl hp)
  | single => simpa [hp] using first_iff t.1 t.2 (.inr hp)
  | cont => simpa [hp] using more_iff listens (.inl hp) ht hlt
  | last =>
    have h := more_iff listens (.inr hp) ht hlt
    simp only [hp, reduceCtorEq, false_imp_iff, true_and, true_imp_iff] at h
    exact h.trans ⟨fun h hl rx hrx hle => h rx hrx hle hl, fun h rx hrx hle hl => h hl rx hrx hle⟩

/-- A start with so many bytes of an SDU of four, and its last fragment. -/
def sample (pb : Pb) (load : Bytes) (h : load.length < 2 ^ 14) (h' : 4 ≤ load.length ∨ pb = .last) :
    Packet :=
  ⟨0, pb, false, load, 16, h, by rintro (rfl | rfl) <;> exact h'.resolve_right nofun⟩

/-- **An SDU that announced four bytes is handed on with three.** -/
theorem not_exact :
    ¬ Along (watch true) (Exact true) ([], {})
      [sample .start [0, 0, 4, 0, 1, 2] (by decide) (by decide),
        sample .last [3] (by decide) (by decide)] := by
  rintro ⟨-, hlast, -⟩
  have hwhole := hlast ⟨0, 0, 1⟩ [1, 2, 3] (by decide)
  have hopen : Open ([] ++ [sample .start [0, 0, 4, 0, 1, 2] (by decide) (by decide)]) 4 [1, 2] :=
    .start [] (sample .start [0, 0, 4, 0, 1, 2] (by decide) (by decide)) rfl
  exact absurd ((whole_last_iff hopen rfl).mp hwhole) (by decide)

end Iso

end OpenBlue
