import OpenBlue.Rfcomm.Links
/-!
# RFCOMM — the life of a DLC

Every frame, timer, work and call keeps the invariant of `Links`, under
what is asked of it (`Meets`), and so every run is sound. Where a frame
does not meet it, callbacks come twice and buffers are lost.
-/

namespace OpenBlue

namespace Rfcomm

namespace Lifecycle

open Function List State Lifecycle.Dlc Option Out

variable {s s' t : State} {d e σ τ : ℕ} {x : Dlc} {os os' : List Out}

/-! ## When nothing goes wrong -/

/-- The DLC that the server gives is free and has an MTU that is valid. -/
def Accepts (s : State) (server : Option (ℕ × ℕ)) : Prop :=
  ∀ d mtu, server = some (d, mtu) → (s.dlcs d).state = .idle ∧ checkMtu mtu = true

/-- A SABM does not start a DLC once more that was connected. -/
def StartsOnce (x : Dlc) (sec : Security) (uaSent : Bool) : Prop :=
  x.handler = false ∨ sec = .passed ∧ uaSent = false ∨ sec = .reject ∧ x.txQueue = []

/-- What is asked of a frame. -/
def State.Frame.Meets (s : State) (σ : ℕ) : State.Frame → Prop
  | .sabm dlci server sec uaSent => dlci ≠ 0 →
      match s.lookup σ dlci with
      | some d => StartsOnce (s.dlcs d) sec uaSent
      | none => Accepts s server
  | .ua dlci _ _ => dlci ≠ 0 → ∀ d, s.lookup σ dlci = some d →
      (s.dlcs d).state = .disconnecting → (s.dlcs d).txQueue = []
  | .dm dlci => ∀ d, s.lookup σ dlci = some d → Drained (s.dlcs d)
  | .disc dlci =>
      if dlci = 0 then
        (s.sessions σ).state ≠ .disconnected → ∀ d ∈ (s.sessions σ).dlcs, Drained (s.dlcs d)
      else ∀ d, s.lookup σ dlci = some d → Drained (s.dlcs d) ∧
        ((s.sessions σ).dlcs = [d] → (s.dlcs d).state = .connected)
  | .pn dlci cr mtu _ server =>
      s.lookup σ dlci = none → cr = true → checkMtu mtu = true → Accepts s server
  | _ => True

/-- A session lets a DLC that the application connects start. -/
def CanStart (v : Session) (l2capOk : Bool) (sec : Security) : Prop :=
  match v.state with
  | .init => v.role = .acceptor ∨ l2capOk = true
  | .connecting => True
  | .connected => sec ≠ .reject
  | _ => False

/-- **What is asked of an event**: no DLC is connected twice or by a call
that fails, what the server and the application give is free, a DLC that
is dropped has nothing in its queue, L2CAP takes what is sent, and the
last DLC of a session is up when the peer disconnects it. -/
def Meets (s : State) : Event → Prop
  | .connect conn d channel l2capOk sec => ∀ t σ, s.connectTo conn = some (t, σ) →
      1 ≤ channel → channel ≤ 0x1e → checkMtu (s.dlcs d).mtu = true →
      t.lookup σ (State.dlciOf (t.sessions σ).role channel) = none →
      (s.dlcs d).state = .idle ∧ CanStart (t.sessions σ) l2capOk sec
  | .l2capDisconnected σ =>
      ((s.sessions σ).state = .disconnected → (s.sessions σ).dlcs = []) ∧
      ∀ d ∈ (s.sessions σ).dlcs, Drained (s.dlcs d)
  | .recv σ f => f.Meets s σ
  | .dlcTimeout d => (s.dlcs d).timer = true → (s.dlcs d).txQueue = []
  | .work d flow sent => (s.dlcs d).submitted = true →
      (s.dlcs d).state = .connected ∨ (s.dlcs d).state = .userDisconnect →
      (s.dlcs d).txQueue ≠ [] → flow = .open → sent = true
  | _ => True

/-! ## Frames -/

theorem Inv.setMtu (h : Inv s) {mtu : ℕ} : Inv (s.setDlc d { s.dlcs d with mtu := mtu }) := by
  have hok := h.books.ok d
  exact h.setDlc ⟨hok.idle, hok.session, hok.fresh, hok.up, hok.empty, hok.timer, hok.submitted,
    hok.draining⟩ rfl rfl rfl rfl

theorem Inv.setTimer (h : Inv s) {timer : Bool} :
    Inv (s.setSession σ { s.sessions σ with timer := timer }) :=
  h.setSession rfl (h.links.conn σ)

theorem Inv.setState (h : Inv s) {q : DlcState} :
    Inv (s.setSession σ { s.sessions σ with state := q }) :=
  h.setSession rfl (h.links.conn σ)

variable {dlci : ℕ}

theorem lookup_setMtu {mtu : ℕ} :
    (s.setDlc d { s.dlcs d with mtu := mtu }).lookup σ dlci = s.lookup σ dlci := by
  have hsame : ∀ e, ((s.setDlc d { s.dlcs d with mtu := mtu }).dlcs e).dlci = (s.dlcs e).dlci := by
    intro e
    by_cases he : e = d
    · rw [he, setDlc_self]
    · rw [dlcs_setDlc, update_of_ne he]
  rw [State.lookup, State.lookup, sessions_setDlc]
  simp only [hsame]

variable {server : Option (ℕ × ℕ)}

theorem Inv.dlcAccept (h : Inv s) (haccepts : Accepts s server) (hconn : (s.sessions σ).conn ≠ none)
    (hlookup : s.lookup σ dlci = none) :
    Inv (s.dlcAccept σ dlci server).1 ∧ ∀ d, (s.dlcAccept σ dlci server).2 = some d →
      ((s.dlcAccept σ dlci server).1.dlcs d).state = .init := by
  cases server with
  | none => exact ⟨h, nofun⟩
  | some server =>
    obtain ⟨d, mtu⟩ := server
    obtain ⟨hidle, hmtu⟩ := haccepts d mtu rfl
    simp only [State.dlcAccept, if_pos hmtu]
    refine ⟨?_, fun e he => ?_⟩
    · have hset : Inv (s.setDlc d { s.dlcs d with mtu := mtu }) := h.setMtu
      have hinit : Inv ((s.setDlc d { s.dlcs d with mtu := mtu }).dlcInit d σ dlci .acceptor) :=
        hset.dlcInit_self (by simpa using hidle) (lookup_setMtu.trans hlookup) hconn
      exact hinit.setMtu
    · obtain rfl := Option.some.inj he
      simp [State.dlcInit]

variable {sec : Security}

theorem Inv.sabmDlc (h : Inv s) (hidle : (s.dlcs d).state ≠ .idle)
    (hdisc : (s.dlcs d).state ≠ .disconnected) {uaSent : Bool}
    (honce : StartsOnce (s.dlcs d) sec uaSent) : Inv (s.sabmDlc σ d sec uaSent) := by
  have hok := h.books.ok d
  obtain ⟨τ, hsession, -⟩ := h.linked hidle hdisc
  unfold State.sabmDlc
  rw [deref_of_session hsession]
  cases sec with
  | pending =>
    have hhandler : (s.dlcs d).handler = false := by simpa [StartsOnce] using honce
    exact h.move hhandler hidle .securityPending ⟨nofun, nofun, nofun, nofun⟩
  | reject =>
    refine h.dlcDrop hidle hdisc ?_
    obtain hhandler | ⟨hno, -⟩ | ⟨-, hqueue⟩ := honce
    · exact (hok.empty hhandler).1
    · nomatch hno
    · exact hqueue
  | passed =>
    cases uaSent with
    | false => exact h
    | true =>
      have hhandler : (s.dlcs d).handler = false := by simpa [StartsOnce] using honce
      have htimer : Inv (s.setSession σ { s.sessions σ with timer := false }) := h.setTimer
      exact htimer.dlcConnected hhandler hidle

theorem Inv.handleSabm (h : Inv s) (hconn : (s.sessions σ).conn ≠ none) {uaSent : Bool}
    (hmeets : (State.Frame.sabm dlci server sec uaSent).Meets s σ) :
    Inv (s.handleSabm σ dlci server sec uaSent) := by
  rw [State.handleSabm]
  split
  · split
    · exact h.setState
    · exact h
  next hdlci =>
    have hmeets := hmeets hdlci
    cases hlookup : s.lookup σ dlci with
    | some d =>
      rw [hlookup] at hmeets
      obtain ⟨-, hidle, hdisc⟩ := h.of_mem (lookup_eq_some hlookup).1
      exact h.sabmDlc hidle hdisc hmeets
    | none =>
      rw [hlookup] at hmeets
      obtain ⟨haccept, hinit⟩ := h.dlcAccept hmeets hconn hlookup
      dsimp only
      generalize s.dlcAccept σ dlci server = r at haccept hinit
      obtain ⟨t, _ | d⟩ := r
      · exact haccept
      · have hstate : (t.dlcs d).state = .init := hinit d rfl
        have hhandler := (haccept.books.ok d).fresh (.inl hstate)
        exact haccept.sabmDlc (by simp [hstate]) (by simp [hstate]) (.inl hhandler)

theorem Inv.startOne (h : Inv s) {sec : ℕ → Security} : Inv (s.startOne sec d) := by
  rw [State.startOne]
  split
  next hinit =>
    exact h.dlcStart ((h.books.ok d).fresh (.inl hinit.2)) (by simp [hinit.2])
  · exact h

theorem Inv.encryptOne (h : Inv s) {met : ℕ → Bool} : Inv (s.encryptOne met d) := by
  rw [State.encryptOne]
  split
  · exact h
  next hpending =>
    have hstate : (s.dlcs d).state = .securityPending := not_not.mp hpending
    have hhandler := (h.books.ok d).fresh (.inr (.inl hstate))
    split
    · exact h.dlcClose
    split
    · exact h.dlcConnected hhandler (by simp [hstate])
    · exact h.dlcStart hhandler (by simp [hstate])

theorem Inv.foldl {f : State → ℕ → State} (hf : ∀ {s}, Inv s → ∀ d, Inv (f s d)) (h : Inv s)
    (ds : List ℕ) : Inv (ds.foldl f s) := by
  induction ds generalizing s with
  | nil => exact h
  | cons d ds ih => exact ih (hf h d)

variable {l2capOk : Bool}

theorem Inv.handleUa (h : Inv s) {sec : ℕ → Security}
    (hmeets : (State.Frame.ua dlci sec l2capOk).Meets s σ) :
    Inv (s.handleUa σ dlci sec l2capOk) := by
  rw [State.handleUa]
  split
  · split
    · exact (Inv.foldl (fun h _ => h.startOne) h.setState _).sessionDisconnect
    · have htimer : Inv (s.setSession σ { s.sessions σ with timer := false }) := h.setTimer
      exact htimer.setState
    · exact h
  next hdlci =>
    cases hlookup : s.lookup σ dlci with
    | none => exact h
    | some d =>
      dsimp only
      split
      next hstate =>
        have hhandler := (h.books.ok d).fresh (by simp [hstate])
        exact h.dlcConnected hhandler (by simp [hstate])
      next hstate =>
        have hqueue := hmeets hdlci d hlookup hstate
        exact (h.dlcDrop (by simp [hstate]) (by simp [hstate]) hqueue).sessionDisconnect
      · exact h

theorem Inv.dlcDisconnect (h : Inv s) (hd : d ∈ (s.sessions σ).dlcs)
    (hdrained : Drained (s.dlcs d)) : Inv ((s.removeDlci σ (s.dlcs d).dlci).dlcDisconnect d) :=
  (h.removeDlci hd).dlcDisconnect not_mem_nil (by rwa [dlcs_removeDlci h hd])

theorem Inv.handleDm (h : Inv s) (hmeets : (State.Frame.dm dlci).Meets s σ) :
    Inv (s.handleDm σ dlci) := by
  rw [State.handleDm]
  cases hlookup : s.lookup σ dlci with
  | none => exact h
  | some d =>
    obtain ⟨hmem, rfl⟩ := lookup_eq_some hlookup
    exact (h.dlcDisconnect hmem (hmeets d hlookup)).sessionDisconnect

theorem Inv.handleMsc (h : Inv s) {cr gives : Bool} : Inv (s.handleMsc σ dlci cr gives) := by
  rw [State.handleMsc]
  cases hlookup : s.lookup σ dlci with
  | none => exact h
  | some d =>
    obtain ⟨hsession, -⟩ := h.of_mem (lookup_eq_some hlookup).1
    dsimp only
    rw [deref_of_session hsession]
    split
    · exact h
    split
    · exact h.txTrigger d
    · exact h

theorem Inv.handleRls (h : Inv s) {cr : Bool} : Inv (s.handleRls σ dlci cr) := by
  rw [State.handleRls]
  split
  · exact h
  cases hlookup : s.lookup σ dlci with
  | none => exact h
  | some d =>
    obtain ⟨hsession, -⟩ := h.of_mem (lookup_eq_some hlookup).1
    dsimp only
    rwa [deref_of_session hsession]

theorem Inv.give (h : Inv s) (d : ℕ) (gives : Bool) : Inv (if gives then s.txTrigger d else s) := by
  split
  · exact h.txTrigger d
  · exact h

theorem give_dlcs (s : State) (d : ℕ) (gives : Bool) :
    ((if gives then s.txTrigger d else s).dlcs d).state = (s.dlcs d).state ∧
      ((if gives then s.txTrigger d else s).dlcs d).session = (s.dlcs d).session := by
  split
  · rw [txTrigger_eq, setDlc_self]
    exact ⟨rfl, rfl⟩
  · exact ⟨rfl, rfl⟩

theorem Inv.handlePn (h : Inv s) (hconn : (s.sessions σ).conn ≠ none) {mtu : ℕ} {cr gives : Bool}
    (hmeets : (State.Frame.pn dlci cr mtu gives server).Meets s σ) :
    Inv (s.handlePn σ dlci cr mtu gives server) := by
  rw [State.handlePn]
  cases hlookup : s.lookup σ dlci with
  | none =>
    dsimp only
    split
    · exact h
    next hcr =>
    split
    · exact h
    next hmtu =>
    obtain ⟨haccept, hinit⟩ := h.dlcAccept (hmeets hlookup (by simpa using hcr)
      (by simpa using hmtu)) hconn hlookup
    generalize s.dlcAccept σ dlci server = r at haccept hinit
    obtain ⟨t, _ | d⟩ := r
    · exact haccept
    · have hstate : (t.dlcs d).state = .init := hinit d rfl
      have hset : Inv (t.setDlc d { t.dlcs d with mtu := min (t.dlcs d).mtu mtu }) :=
        haccept.setMtu
      have hgive := hset.give d gives
      obtain ⟨hsame, -⟩ :=
        give_dlcs (t.setDlc d { t.dlcs d with mtu := min (t.dlcs d).mtu mtu }) d gives
      rw [setDlc_self] at hsame
      dsimp only
      generalize (if gives then (t.setDlc d { t.dlcs d with
        mtu := min (t.dlcs d).mtu mtu }).txTrigger d else _) = u at hgive hsame
      have hu : (u.dlcs d).state = .init := hsame.trans hstate
      obtain ⟨τ, hsession⟩ := isSome_iff_exists.mp
        ((hgive.books.ok d).session (by simp [hu]))
      have hmove : Inv (u.setDlc d { u.dlcs d with state := .config }) :=
        hgive.move ((hgive.books.ok d).fresh (.inl hu)) (by simp [hu]) .config
          ⟨nofun, nofun, nofun, nofun⟩
      rw [deref_of_session (σ := τ) (by simpa using hsession)]
      exact hmove.setTimer
  | some d =>
    obtain ⟨hsession, hidle, -⟩ := h.of_mem (lookup_eq_some hlookup).1
    have hset : Inv (s.setDlc d { s.dlcs d with mtu := min (s.dlcs d).mtu mtu }) := h.setMtu
    dsimp only
    split
    · split
      · exact h.dlcClose
      · rw [deref_of_session (σ := σ) (by simpa using hsession)]
        exact hset
    split
    · exact h
    next hconfig =>
      have hgive := hset.give d gives
      obtain ⟨hsame, -⟩ :=
        give_dlcs (s.setDlc d { s.dlcs d with mtu := min (s.dlcs d).mtu mtu }) d gives
      rw [setDlc_self] at hsame
      generalize (if gives then (s.setDlc d { s.dlcs d with
        mtu := min (s.dlcs d).mtu mtu }).txTrigger d else _) = u at hgive hsame
      have hu : (u.dlcs d).state = .config := hsame.trans (not_not.mp hconfig)
      exact hgive.move ((hgive.books.ok d).fresh (by simp [hu])) (by simp [hu]) .connecting
        ⟨nofun, nofun, nofun, nofun⟩

theorem Inv.handleDisc (h : Inv s) (hmeets : (State.Frame.disc dlci).Meets s σ) :
    Inv (s.handleDisc σ dlci) := by
  rw [State.handleDisc]
  rw [State.Frame.Meets] at hmeets
  split
  next hdlci =>
    rw [if_pos hdlci] at hmeets
    have htimer : Inv (s.setSession σ { s.sessions σ with timer := false }) := h.setTimer
    exact htimer.sessionDisconnected (by simpa using hmeets)
  next hdlci =>
    rw [if_neg hdlci] at hmeets
    cases hlookup : s.lookup σ dlci with
    | none => exact h
    | some d =>
      obtain ⟨hmem, rfl⟩ := lookup_eq_some hlookup
      obtain ⟨hdrained, hlast⟩ := hmeets d hlookup
      have hinv := h.dlcDisconnect hmem hdrained
      dsimp only
      split
      · exact hinv
      next hnil =>
      -- the last DLC keeps its session: its work is still to be done
      have herase : (s.sessions σ).dlcs.erase d = [] := by
        rw [not_not, sessions_dlcDisconnect, h.removeDlci_eq hmem] at hnil
        simpa using hnil
      have hstate : (s.dlcs d).state = .connected := by
        have hlen := length_erase_of_mem hmem
        have hpos := length_pos_of_mem hmem
        rw [herase, length_nil] at hlen
        obtain ⟨e, he⟩ := length_eq_one_iff.mp (by omega : (s.sessions σ).dlcs.length = 1)
        rw [he, mem_singleton] at hmem
        exact hlast (by rw [he, hmem])
      obtain ⟨hsession, -⟩ := h.of_mem hmem
      have hdlcs := dlcs_removeDlci h hmem
      rw [deref_of_session (σ := σ)]
      · exact hinv.setTimer
      · rw [dlcDisconnect_eq, hdlcs, if_neg (by simp [hstate]), if_pos hstate, setDlc_self]
        exact hsession

theorem Inv.handleData (h : Inv s) {gives data starved : Bool} :
    Inv (s.handleData σ dlci gives data starved) := by
  rw [State.handleData]
  cases hlookup : s.lookup σ dlci with
  | none => exact h
  | some d =>
    obtain ⟨hsession, -⟩ := h.of_mem (lookup_eq_some hlookup).1
    have hgive := h.give d gives
    obtain ⟨-, hsame⟩ := give_dlcs s d gives
    dsimp only
    split
    · exact h
    generalize (if gives then s.txTrigger d else s) = u at hgive hsame
    rw [deref_of_session (hsame.trans hsession)]
    split
    · exact hgive
    split
    · exact hgive.dlcClose
    · exact hgive

/-- **The step lemma of the frames.** -/
theorem Inv.recv (h : Inv s) (hconn : (s.sessions σ).conn ≠ none) {f : State.Frame}
    (hmeets : f.Meets s σ) : Inv (s.recv σ f) := by
  cases f with
  | sabm dlci server sec uaSent => exact h.handleSabm hconn hmeets
  | ua dlci sec l2capOk => exact h.handleUa hmeets
  | dm dlci => exact h.handleDm hmeets
  | disc dlci => exact h.handleDisc hmeets
  | pn dlci cr mtu gives server => exact h.handlePn hconn hmeets
  | msc dlci cr gives => exact h.handleMsc
  | rls dlci cr => exact h.handleRls
  | fcon => exact Inv.foldl Inv.txTrigger h _
  | data dlci gives data starved => exact h.handleData

/-! ## Timers and work -/

theorem Inv.dlcTimeout (h : Inv s)
    (hqueue : (s.dlcs d).timer = true → (s.dlcs d).txQueue = []) : Inv (s.dlcTimeout d) := by
  have hok := h.books.ok d
  rw [State.dlcTimeout]
  split
  · exact h
  next htimer =>
    have htimer : (s.dlcs d).timer = true := by simpa using htimer
    have hidle : (s.dlcs d).state ≠ .idle := fun hstate =>
      absurd (htimer.symm.trans (hok.timer (.inl hstate))) nofun
    have hdisc : (s.dlcs d).state ≠ .disconnected := fun hstate =>
      absurd (htimer.symm.trans (hok.timer (.inr (.inr hstate)))) nofun
    have hset : Inv (s.setDlc d { s.dlcs d with timer := false }) :=
      h.setDlc ⟨hok.idle, hok.session, hok.fresh, hok.up, hok.empty, fun _ => rfl, hok.submitted,
        hok.draining⟩ rfl rfl rfl rfl
    obtain ⟨σ, hsession, hmem⟩ := h.linked hidle hdisc
    have hdisconnect := hset.dlcDisconnect hmem (.inr (by simpa using hqueue htimer))
    dsimp only
    rw [deref_of_session (σ := σ) (by simpa using hsession)]
    exact hdisconnect.sessionDisconnect

theorem Inv.sessionTimeout (h : Inv s) : Inv (s.sessionTimeout σ l2capOk) := by
  have htimer : Inv (s.setSession σ { s.sessions σ with timer := false }) := h.setTimer
  rw [State.sessionTimeout]
  split
  · exact h
  dsimp only
  split
  · exact htimer.sessionDisconnect
  · exact htimer.setState
  · exact htimer

/-- What is seen where buffers leave the queue of a DLC. -/
structure Gone (d : ℕ) (os : List Out) (bufs : List ℕ) : Prop where
  about : ∀ o ∈ os, About d o
  phase : ∀ p, phaseFrom d p os = some p
  queued : os.filterMap (Out.queuedOf d) = []
  gone : os.filterMap (Out.goneOf d) = bufs

variable {bufs bufs' : List ℕ}

theorem Gone.nil : Gone d [] [] := ⟨by simp, fun _ => rfl, rfl, rfl⟩

theorem Gone.handed (d buf : ℕ) : Gone d [.handed d buf] [buf] :=
  ⟨by simp [About], fun _ => rfl, rfl, by simp [goneOf]⟩

theorem Gone.append (h : Gone d os bufs) (h' : Gone d os' bufs') :
    Gone d (os ++ os') (bufs ++ bufs') where
  about o ho := (mem_append.mp ho).elim (h.about o) (h'.about o)
  phase p := by rw [phaseFrom_append, h.phase, bind_some, h'.phase]
  queued := by rw [filterMap_append, h.queued, h'.queued, append_nil]
  gone := by rw [filterMap_append, h.gone, h'.gone]

theorem Gone.released (d : ℕ) (bufs : List ℕ) : Gone d (bufs.map (Out.released d)) bufs := by
  induction bufs with
  | nil => exact Gone.nil
  | cons buf bufs ih =>
    have hone : Gone d [.released d buf] [buf] :=
      ⟨by simp [About], fun _ => rfl, rfl, by simp [goneOf]⟩
    exact hone.append ih

theorem Inv.leave (h : Inv s) (hgone : Gone d os bufs)
    (hqueue : (s.dlcs d).txQueue = bufs ++ x.txQueue)
    (hdlcs : s'.dlcs = update s.dlcs d x) (hsessions : s'.sessions = s.sessions)
    (hlog : s'.log = s.log ++ os) (hok : x.Ok) (hphase : x.phase = (s.dlcs d).phase)
    (hlink : x.link = (s.dlcs d).link) (hdlci : x.dlci = (s.dlcs d).dlci) : Inv s' := by
  refine h.change (h.books.change hdlcs hlog hgone.about hok ?_ ?_) hdlcs hsessions hlink hdlci
  · rw [hgone.phase, hphase]
  · rw [hgone.queued, hgone.gone, append_nil, hqueue]

/-- The worker took some buffers of a DLC and goes on with the rest. -/
structure Took (s t : State) (d : ℕ) (os : List Out) (bufs rest : List ℕ) : Prop where
  gone : Gone d os bufs
  queue : (s.dlcs d).txQueue = bufs ++ rest
  dlcs : t.dlcs = update s.dlcs d { s.dlcs d with submitted := false, txQueue := rest }
  sessions : t.sessions = s.sessions
  log : t.log = s.log ++ os

variable {rest : List ℕ}

theorem Took.dlc (h : Took s t d os bufs rest) :
    t.dlcs d = { s.dlcs d with submitted := false, txQueue := rest } := by
  rw [h.dlcs, update_self]

theorem Inv.workDone (h : Inv s) (htook : Took s t d os bufs rest)
    (hstate : (s.dlcs d).state = .connected) : Inv t := by
  have hok := h.books.ok d
  have hhandler := hok.up (.inl hstate)
  refine h.leave htook.gone htook.queue htook.dlcs htook.sessions htook.log ?_ rfl rfl rfl
  exact ⟨by simp [hstate], hok.session, hok.fresh, hok.up,
    fun hno => absurd (hhandler.symm.trans hno) nofun, hok.timer, by simp [hstate],
    by simp [hstate]⟩

/-- **The queue of a DLC that goes down is released**: nothing is lost. -/
theorem Inv.txCleanup (h : Inv s) (htook : Took s t d os bufs rest)
    (hhandler : (s.dlcs d).handler = true)
    (hstate : (s.dlcs d).state = .userDisconnect ∨ (s.dlcs d).state = .disconnecting) :
    Inv (t.txCleanup d) := by
  have hok := h.books.ok d
  have hidle : (s.dlcs d).state ≠ .idle := by
    rintro hidle
    simp [hidle] at hstate
  have hdisc : (s.dlcs d).state ≠ .disconnected := by
    rintro hdisc
    simp [hdisc] at hstate
  obtain ⟨σ, hsession⟩ := isSome_iff_exists.mp (hok.session hidle)
  have hnext : (if (s.dlcs d).state = .userDisconnect then .disconnecting
      else (s.dlcs d).state) = DlcState.disconnecting := by
    obtain hstate | hstate := hstate
    · rw [if_pos hstate]
    · rw [if_neg (by simp [hstate]), hstate]
  have heq : t.txCleanup d = setDlc { t with log := t.log ++ rest.map (released d) } d
      { s.dlcs d with submitted := false, txQueue := [], state := .disconnecting, timer := true } := by
    rw [State.txCleanup]
    dsimp only
    rw [htook.dlc]
    dsimp only
    rw [hnext, setDlc_self, if_pos rfl, deref_of_session (σ := σ) (by simp [hsession]),
      setDlc_setDlc]
  rw [heq]
  refine h.leave (x := { s.dlcs d with
    submitted := false, txQueue := [], state := .disconnecting, timer := true })
    (htook.gone.append (Gone.released d rest)) (by simp [htook.queue]) ?_ htook.sessions ?_
    ⟨nofun, fun _ => by simp [hsession], by simp, by simp,
      fun hno => absurd (hhandler.symm.trans hno) nofun, by simp, nofun, fun _ hno => absurd rfl hno⟩
    ?_ ?_ rfl
  · rw [dlcs_setDlc]
    dsimp only
    rw [htook.dlcs, update_idem]
  · rw [log_setDlc]
    dsimp only
    rw [htook.log, append_assoc]
  · rw [Dlc.phase, Dlc.phase, if_neg nofun, if_neg hidle]
  · rw [link, link, if_neg (by simp), if_neg (by simp [hidle, hdisc])]

theorem Inv.txDestroy (h : Inv s) (hstate : (s.dlcs d).state = .disconnected) :
    Inv ((s.setDlc d { s.dlcs d with submitted := false }).txCleanup d) := by
  have hgone := Gone.released d (s.dlcs d).txQueue
  have hidle : (s.dlcs d).state ≠ .idle := by simp [hstate]
  have heq : (s.setDlc d { s.dlcs d with submitted := false }).txCleanup d =
      (setDlc { s with log := s.log ++ (s.dlcs d).txQueue.map (released d) } d
        { (s.dlcs d).destroyed with txQueue := [] }).note (.disconnected d) := by
    rw [State.txCleanup]
    simp [hstate, destroy, setDlc, note, destroyed]
  have hok : Dlc.Ok { (s.dlcs d).destroyed with txQueue := [] } :=
    destroyed_ok (x := { s.dlcs d with txQueue := [] }) rfl
  have hlog : ((setDlc { s with log := s.log ++ (s.dlcs d).txQueue.map (released d) } d
      { (s.dlcs d).destroyed with txQueue := [] }).note (.disconnected d)).log =
      s.log ++ ((s.dlcs d).txQueue.map (released d) ++ [.disconnected d]) :=
    append_assoc ..
  rw [heq]
  refine h.change (h.books.change rfl hlog ?_ hok ?_ ?_) rfl rfl ?_ rfl
  · intro o ho
    obtain ho | ho := mem_append.mp ho
    · exact hgone.about o ho
    · rw [mem_singleton.mp ho]
      rfl
  · rw [phaseFrom_append, hgone.phase, bind_some]
    simp [phaseFrom, Phase.next, phase_of_not_idle hidle]
    rfl
  · rw [filterMap_append, filterMap_append, hgone.queued, hgone.gone]
    simp only [append_nil, nil_append]
    rfl
  · simp [link, destroyed, hstate]

theorem Inv.txUserDisconnect (h : Inv s) (htook : Took s t d os bufs rest)
    (hstate : (s.dlcs d).state = .connected ∨ (s.dlcs d).state = .userDisconnect) :
    Inv (t.txUserDisconnect d) := by
  have hhandler := (h.books.ok d).up (by tauto)
  have hsame : (t.dlcs d).state = (s.dlcs d).state := by rw [htook.dlc]
  rw [State.txUserDisconnect, hsame]
  split
  next huser => exact h.txCleanup htook hhandler (.inl huser)
  next huser => exact h.workDone htook (hstate.resolve_right huser)

theorem Inv.txMore (h : Inv s) (htook : Took s t d os bufs rest)
    (hstate : (s.dlcs d).state = .connected ∨ (s.dlcs d).state = .userDisconnect) :
    Inv (t.txTrigger d) := by
  have hok := h.books.ok d
  have hhandler := hok.up (by tauto)
  rw [txTrigger_eq, htook.dlc]
  refine h.leave (x := triggered { s.dlcs d with submitted := false, txQueue := rest })
    htook.gone htook.queue (by rw [dlcs_setDlc, htook.dlcs, update_idem])
    htook.sessions htook.log ⟨fun hidle => ?_, hok.session, hok.fresh, hok.up,
      fun hno => absurd (hhandler.symm.trans hno) nofun, hok.timer, fun hdisc => ?_,
      fun hdisc => ?_⟩ rfl rfl rfl
  · have : (s.dlcs d).state = .idle := hidle
    simp [this] at hstate
  · simp [triggered, hhandler]
  · simp [triggered, hhandler]

theorem Inv.txSend (h : Inv s) (htook : Took s t d [] [] (s.dlcs d).txQueue)
    (hstate : (s.dlcs d).state = .connected ∨ (s.dlcs d).state = .userDisconnect) {flow : Flow}
    {sent : Bool} (hsent : (s.dlcs d).txQueue ≠ [] → flow = .open → sent = true) :
    Inv (t.txWorker d flow sent) := by
  have hdlc := htook.dlc
  obtain ⟨σ, hsession⟩ := isSome_iff_exists.mp ((h.books.ok d).session fun hidle => by
    simp [hidle] at hstate)
  have hsession : (t.dlcs d).session = some σ := by rw [hdlc, hsession]
  have hcase : (t.dlcs d).state = .connected ∨ (t.dlcs d).state = .userDisconnect := by rwa [hdlc]
  rw [txWorker]
  obtain hcase | hcase := hcase
  all_goals
    rw [hcase]
    cases hqueue : (t.dlcs d).txQueue with
    | nil => exact h.txUserDisconnect htook hstate
    | cons buf bufs =>
      have hold : (s.dlcs d).txQueue = buf :: bufs := by rwa [hdlc] at hqueue
      cases flow with
      | noCredit => exact h.txUserDisconnect htook hstate
      | stopped =>
        dsimp only
        rw [deref_of_session hsession]
        exact h.txUserDisconnect htook hstate
      | «open» =>
        obtain rfl := hsent (by simp [hold]) rfl
        have htook : Took s ((t.setDlc d { t.dlcs d with txQueue := bufs }).note (.handed d buf)) d
            [.handed d buf] [buf] bufs := by
          refine ⟨Gone.handed d buf, hold, ?_, htook.sessions, ?_⟩
          · rw [dlcs_note, dlcs_setDlc, hdlc, htook.dlcs, update_idem]
          · rw [log_note, log_setDlc, htook.log, append_nil]
        dsimp only
        rw [deref_of_session hsession, if_neg (by simp)]
        split
        · exact h.txMore htook hstate
        · exact h.txUserDisconnect htook hstate

/-- **The work of a DLC keeps the invariant**, where L2CAP takes what is
sent. -/
theorem Inv.work (h : Inv s) {flow : Flow} {sent : Bool}
    (hmeets : Meets s (.work d flow sent)) : Inv (s.work d flow sent) := by
  have hok := h.books.ok d
  rw [State.work]
  split
  · exact h
  next hsubmitted =>
  have hsubmitted : (s.dlcs d).submitted = true := by simpa using hsubmitted
  have hhandler : (s.dlcs d).handler = true := by
    cases hhandler : (s.dlcs d).handler with
    | true => rfl
    | false => exact absurd (hsubmitted.symm.trans (hok.empty hhandler).2) nofun
  have htook : Took s (s.setDlc d { s.dlcs d with submitted := false }) d [] []
      (s.dlcs d).txQueue := ⟨Gone.nil, rfl, rfl, rfl, (append_nil _).symm⟩
  have hpending : ∀ q, (s.dlcs d).state = q → q ≠ .securityPending ∧ q ≠ .init ∧
      q ≠ .connecting ∧ q ≠ .config := by
    rintro q rfl
    refine ⟨fun hq => ?_, fun hq => ?_, fun hq => ?_, fun hq => ?_⟩ <;>
      exact absurd (hhandler.symm.trans (hok.fresh (by simp [hq]))) nofun
  by_cases hup : (s.dlcs d).state = .connected ∨ (s.dlcs d).state = .userDisconnect
  · exact h.txSend htook hup (hmeets hsubmitted hup)
  rw [txWorker, setDlc_self]
  dsimp only
  split
  next hstate =>
    refine h.leave (x := { s.dlcs d with submitted := false }) htook.gone htook.queue htook.dlcs
      htook.sessions htook.log ?_ rfl rfl rfl
    exact ⟨hok.idle, hok.session, hok.fresh, hok.up, fun hno => absurd (hhandler.symm.trans hno) nofun,
      hok.timer, by simp [hstate], by simp [hstate]⟩
  next hstate => exact absurd rfl (hpending _ hstate).2.1
  next hstate => exact absurd rfl (hpending _ hstate).1
  next hstate => exact absurd rfl (hpending _ hstate).2.2.1
  next hstate => exact absurd rfl (hpending _ hstate).2.2.2
  next hstate => exact h.txCleanup htook hhandler (.inr hstate)
  next hstate => exact h.txDestroy hstate
  next hstate => exact absurd (.inl hstate) hup
  next hstate => exact absurd (.inr hstate) hup

/-! ## L2CAP and the application -/

theorem Inv.sessionNew (h : Inv s) {role : Role} (hnew : s.sessionNew role = some (t, σ)) :
    Inv t ∧ (t.sessions σ).state = .init ∧ (t.sessions σ).role = role ∧ t.dlcs = s.dlcs := by
  rw [State.sessionNew] at hnew
  split at hnew
  · nomatch hnew
  next τ _ =>
    obtain ⟨rfl, rfl⟩ := Prod.mk.inj (Option.some.inj hnew)
    refine ⟨h.setSession rfl (h.links.conn τ), ?_, ?_, rfl⟩ <;> simp

theorem Inv.l2capAccept (h : Inv s) {conn : ℕ} : Inv (s.l2capAccept conn) := by
  rw [State.l2capAccept]
  split
  · exact h
  next t σ hnew => exact (h.sessionNew hnew).1.setSession rfl nofun

theorem Inv.l2capDisconnected (h : Inv s) (hmeets : Meets s (.l2capDisconnected σ)) :
    Inv (s.l2capDisconnected σ) := by
  obtain ⟨hnil, hdrained⟩ := hmeets
  have htimer : Inv (s.setSession σ { s.sessions σ with timer := false }) := h.setTimer
  have hinv := htimer.sessionDisconnected (σ := σ) (by simpa using fun _ => hdrained)
  have hdlcs := @sessionDisconnected_dlcs (s.setSession σ { s.sessions σ with timer := false }) σ
    (by simpa using hnil)
  rw [State.l2capDisconnected]
  exact hinv.setSession rfl fun _ => hdlcs

/-- **A DLC that the application connects** is put into the list of its
session and starts. -/
theorem Inv.connectSession (h : Inv s) {conn : ℕ}
    (hidle : (s.dlcs d).state = .idle) (hlookup : s.lookup σ dlci = none)
    (hconn : (s.sessions σ).conn ≠ none ∨
      (s.sessions σ).state = .init ∧ (s.sessions σ).role = .initiator)
    (hstart : CanStart (s.sessions σ) l2capOk sec) :
    Inv (s.connectSession conn d σ dlci l2capOk sec) := by
  have hinit : (s.sessions σ).conn ≠ none → Inv (s.dlcInit d σ dlci .initiator) :=
    h.dlcInit_self hidle hlookup
  have hsessions := sessions_dlcInit s d σ dlci .initiator
  rw [State.connectSession]
  dsimp only
  rw [hsessions]
  dsimp only
  split
  next hstate =>
    split
    next hrole => exact hinit (hconn.resolve_right fun hno => by simp [hrole] at hno)
    next hrole =>
    split
    · exact h.dlcInit hidle hlookup rfl nofun
    next hno =>
      rw [CanStart, hstate] at hstart
      exact absurd (hstart.resolve_left hrole) hno
  next hstate => exact hinit (hconn.resolve_right fun hno => by simp [hstate] at hno)
  next hstate =>
    have hinv := hinit (hconn.resolve_right fun hno => by simp [hstate] at hno)
    have hup : ((s.dlcInit d σ dlci .initiator).dlcs d).state = .init := by simp [State.dlcInit]
    rw [CanStart, hstate] at hstart
    rw [if_neg hstart]
    exact (hinv.dlcStart ((hinv.books.ok d).fresh (.inl hup)) (by simp [hup])).setTimer
  next hstate₁ hstate₂ hstate₃ =>
    rw [CanStart] at hstart
    split at hstart
    all_goals contradiction

theorem Inv.connect (h : Inv s) {conn channel : ℕ}
    (hmeets : Meets s (.connect conn d channel l2capOk sec)) :
    Inv (s.connect conn d channel l2capOk sec) := by
  rw [State.connect]
  split
  · exact h
  next hchannel =>
  split
  · exact h
  next hmtu =>
  cases hto : s.connectTo conn with
  | none => exact h
  | some r =>
    obtain ⟨t, σ⟩ := r
    have ht : Inv t := by
      rw [connectTo] at hto
      split at hto
      · obtain ⟨rfl, -⟩ := Prod.mk.inj (Option.some.inj hto)
        exact h
      · exact (h.sessionNew hto).1
    dsimp only
    split
    · exact ht
    next hlookup =>
    have hlookup : t.lookup σ (dlciOf (t.sessions σ).role channel) = none := by
      simpa using hlookup
    obtain ⟨hidle, hstart⟩ := hmeets t σ hto (by omega) (by omega) (by simpa using hmtu) hlookup
    rw [connectTo] at hto
    split at hto
    next τ hfound =>
      obtain ⟨rfl, rfl⟩ := Prod.mk.inj (Option.some.inj hto)
      have hconn := find?_some hfound
      exact h.connectSession hidle hlookup (.inl (by simp_all)) hstart
    next =>
      obtain ⟨hinv, hstate, hrole, hdlcs⟩ := h.sessionNew hto
      exact hinv.connectSession (by rwa [hdlcs]) hlookup (.inr ⟨hstate, hrole⟩) hstart

theorem Inv.disconnect (h : Inv s) : Inv (s.disconnect d) := by
  have hok := h.books.ok d
  rw [State.disconnect]
  split
  next hstate =>
    have hhandler := hok.up (.inl hstate)
    dsimp only
    rw [txTrigger_eq, setDlc_self, setDlc_setDlc, setDlc_self, setDlc_setDlc]
    refine h.setDlc ⟨nofun, fun _ => hok.session (by simp [hstate]), by simp [triggered],
      fun _ => hhandler, fun hno => absurd (hhandler.symm.trans hno) nofun, by simp [triggered],
      by simp [triggered], by simp [triggered]⟩ ?_ rfl ?_ rfl
    · have hidle : (s.dlcs d).state ≠ .idle := by simp [hstate]
      rw [Dlc.phase, Dlc.phase, if_neg hidle, if_neg (by simp [triggered])]
      rfl
    · simp [link, triggered, hstate]
  · exact h.dlcClose

theorem Inv.send (h : Inv s) {buf len : ℕ} : Inv (s.send d buf len) := by
  have hok := h.books.ok d
  rw [State.send]
  split
  · exact h
  next hconn =>
  split
  · exact h
  have hstate : (s.dlcs d).state = .connected := not_not.mp hconn
  have hhandler := hok.up (.inl hstate)
  obtain ⟨σ, hsession⟩ := isSome_iff_exists.mp (hok.session (by simp [hstate]))
  rw [deref_of_session hsession]
  refine Inv.txTrigger ?_ d
  refine h.change (x := { s.dlcs d with txQueue := (s.dlcs d).txQueue ++ [buf] })
    (h.books.change rfl rfl (by simp [About]) ⟨by simp [hstate], hok.session, hok.fresh, hok.up,
      fun hno => absurd (hhandler.symm.trans hno) nofun, hok.timer, hok.submitted,
      by simp [hstate]⟩ rfl ?_) rfl rfl rfl rfl
  simp [queuedOf, goneOf]

/-- **The step lemma.** -/
theorem Inv.step (h : Inv s) {ev : Event} (hmeets : Meets s ev) : Inv (s.step ev) := by
  cases ev with
  | connect conn d channel l2capOk sec => exact h.connect hmeets
  | disconnect d => exact h.disconnect
  | send d buf len => exact h.send
  | setMtu d mtu => exact h.setMtu
  | l2capAccept conn => exact h.l2capAccept
  | l2capConnected σ mtu => exact h.setSession rfl (h.links.conn σ)
  | l2capDisconnected σ => exact h.l2capDisconnected hmeets
  | recv σ f =>
    rw [State.step]
    split
    · exact h
    next hconn => exact h.recv hconn hmeets
  | encryptChange σ met => exact Inv.foldl (fun h _ => h.encryptOne) h _
  | dlcTimeout d => exact h.dlcTimeout hmeets
  | sessionTimeout σ l2capOk => exact h.sessionTimeout
  | work d flow sent => exact h.work hmeets
  | sent d => exact h.txTrigger d

theorem inv_start (pool : ℕ) : Inv { pool := pool } := by
  refine ⟨⟨fun d => ?_, fun d => rfl, fun d => rfl, by simp⟩,
    ⟨fun σ d => ?_, fun σ => nodup_nil, fun σ d hd => (nomatch hd), fun σ _ => rfl⟩, by simp⟩
  · exact destroyed_ok (x := {}) rfl
  · simp [link]

/-! ## Every run -/

/-- **What the life of a DLC has to be**, in a state that a run reaches. -/
structure Sound (s : State) : Prop where
  /-- A DLC is linked at most once, in the list of the session it has. -/
  nodup : ∀ σ, (s.sessions σ).dlcs.Nodup
  session : ∀ σ, ∀ d ∈ (s.sessions σ).dlcs, (s.dlcs d).session = some σ
  /-- No session is read where there is none. -/
  deref : ∀ d, Out.nullDeref d ∉ s.log
  /-- The callbacks came in turn, and `disconnected` is still to come just
  where the DLC is in use. -/
  phase : ∀ d, ∃ p, phase d s.log = some p ∧ (p = .free ↔ (s.dlcs d).state = .idle)
  /-- One that is in use is in the list of a session that has its channel,
  or its work, which destroys it, is submitted. -/
  used : ∀ d, (s.dlcs d).state ≠ .idle →
    (∃ σ, (s.sessions σ).conn ≠ none ∧ d ∈ (s.sessions σ).dlcs) ∨
      (s.dlcs d).state = .disconnected ∧ (s.dlcs d).submitted = true
  /-- What was put into the queue was handed to L2CAP or released, in
  order, or is still there, and the work of one that goes down takes it. -/
  buffers : ∀ d, s.log.filterMap (Out.queuedOf d) =
    s.log.filterMap (Out.goneOf d) ++ (s.dlcs d).txQueue
  drained : ∀ d, (s.dlcs d).state = .idle → (s.dlcs d).txQueue = []
  draining : ∀ d, (s.dlcs d).state = .disconnecting → (s.dlcs d).txQueue ≠ [] →
    (s.dlcs d).submitted = true

theorem Dlc.phase_eq_free : x.phase = .free ↔ x.state = .idle := by
  refine ⟨fun hphase => ?_, fun hidle => if_pos hidle⟩
  by_contra hidle
  exact Dlc.phase_of_not_idle hidle hphase

theorem Inv.sound (h : Inv s) : Sound s where
  nodup := h.links.nodup
  session σ d hd := (h.of_mem hd).1
  deref := h.books.deref
  phase d := ⟨(s.dlcs d).phase, h.books.phase d, phase_eq_free⟩
  used d hidle := by
    by_cases hdisc : (s.dlcs d).state = .disconnected
    · exact .inr ⟨hdisc, (h.books.ok d).submitted hdisc⟩
    · obtain ⟨σ, -, hmem⟩ := h.linked hidle hdisc
      refine .inl ⟨σ, fun hnone => ?_, hmem⟩
      rw [h.links.conn σ hnone] at hmem
      nomatch hmem
  buffers := h.books.buffers
  drained d := (h.books.ok d).idle
  draining d := (h.books.ok d).draining

/-- **Every run is sound** where nothing goes wrong. -/
theorem lifecycle_sound {pool : ℕ} {es : List Event}
    (hrun : Along State.step Meets { pool := pool } es) :
    Sound (run State.step { pool := pool } es) :=
  Inv.sound (inv_run Inv (fun _ _ h hmeets => h.step hmeets) (inv_start pool) hrun)

/-- A run with a DLC that comes up, sends and goes down. -/
theorem lifecycle_sound_sample : Sound (run State.step { pool := 1 }
    [.l2capAccept 0, .l2capConnected 0 600, .recv 0 (.sabm 0 none .passed true),
      .recv 0 (.sabm 2 (some (0, 127)) .passed true), .send 0 7 10, .work 0 .open true,
      .send 0 8 10, .recv 0 (.disc 2), .work 0 .open true]) := by
  refine lifecycle_sound ⟨trivial, trivial, fun h => absurd rfl h, fun _ d mtu h => ?_, trivial,
    fun _ _ _ _ => rfl, trivial, ?_, fun _ _ _ _ => rfl, trivial⟩
  · obtain ⟨rfl, rfl⟩ := Prod.mk.inj (Option.some.inj h)
    decide
  · intro d h
    obtain rfl := Option.some.inj h
    exact ⟨.inl rfl, fun _ => rfl⟩

/-- **A second SABM connects a DLC again**: `connected` comes twice, and
what was in the queue is lost. -/
theorem second_sabm : ¬ Sound (run State.step { pool := 1 }
    [.l2capAccept 0, .l2capConnected 0 600, .recv 0 (.sabm 0 none .passed true),
      .recv 0 (.sabm 2 (some (0, 127)) .passed true), .send 0 7 10,
      .recv 0 (.sabm 2 none .passed true)]) := by
  intro h
  obtain ⟨p, hp, -⟩ := h.phase 0
  nomatch hp

end Lifecycle

end Rfcomm

end OpenBlue
