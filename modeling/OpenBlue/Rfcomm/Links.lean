import OpenBlue.Rfcomm.Model.Lifecycle
/-!
# RFCOMM — the DLCs and their lists

The invariant of the sessions and their DLCs: a DLC in use is in the list
of its session and in no other, one that is disconnected is in none and
its work is submitted; and the books of what the application saw, which
callbacks came and where each buffer went. `Cut` is the invariant with
some DLCs taken out of the lists and not yet disconnected. Here it is kept
by what starts, moves and ends one DLC.
-/

namespace OpenBlue

namespace Rfcomm

namespace Lifecycle

open Function State Lifecycle.Dlc Option

/-! ## What is seen of one DLC -/

/-- Where a DLC is between `rfcomm_dlc_init` and `ops->disconnected`. -/
inductive Phase
  | free
  | initialised
  | up
  deriving DecidableEq, Repr

/-- The phase after something was seen; `none` where a callback is out of
turn. -/
def Phase.next (d : ℕ) : Phase → Out → Option Phase
  | p, .initialised e => if e ≠ d then some p else if p = .free then some .initialised else none
  | p, .connected e => if e ≠ d then some p else if p = .initialised then some .up else none
  | p, .disconnected e => if e ≠ d then some p else if p = .free then none else some .free
  | p, _ => some p

/-- The phases of a DLC over what was seen. -/
def phaseFrom (d : ℕ) : Phase → List Out → Option Phase
  | p, [] => some p
  | p, o :: os => (p.next d o).bind fun p => phaseFrom d p os

/-- The phase of a DLC; `none` where `connected` came twice for one
initialisation, or `disconnected` not once. -/
def phase (d : ℕ) (log : List Out) : Option Phase := phaseFrom d .free log

/-- The buffer that went into the queue of a DLC. -/
def Out.queuedOf (d : ℕ) : Out → Option ℕ
  | .queued e buf => if e = d then some buf else none
  | _ => none

/-- The buffer of a DLC that was handed to L2CAP or released. -/
def Out.goneOf (d : ℕ) : Out → Option ℕ
  | .handed e buf => if e = d then some buf else none
  | .released e buf => if e = d then some buf else none
  | _ => none

variable {s s' : State} {d e σ τ : ℕ} {x : Dlc} {v : Session} {o : Out} {os os' : List Out}

theorem phaseFrom_append {p : Phase} :
    phaseFrom d p (os ++ os') = (phaseFrom d p os).bind fun p => phaseFrom d p os' := by
  induction os generalizing p with
  | nil => rfl
  | cons o os ih =>
    rw [List.cons_append, phaseFrom, phaseFrom]
    cases p.next d o with
    | none => rfl
    | some p => exact ih

/-! ## The invariant -/

/-- The session in whose list a DLC has to be. -/
def Dlc.link (x : Dlc) : Option ℕ :=
  if x.state = .idle ∨ x.state = .disconnected then none else x.session

/-- The phase that a DLC is in. -/
def Dlc.phase (x : Dlc) : Phase :=
  if x.state = .idle then .free else if x.handler then .up else .initialised

/-- **What holds of every DLC.** -/
structure Dlc.Ok (x : Dlc) : Prop where
  idle : x.state = .idle → x.txQueue = []
  session : x.state ≠ .idle → x.session.isSome
  fresh : x.state = .init ∨ x.state = .securityPending ∨ x.state = .connecting ∨
    x.state = .config → x.handler = false
  up : x.state = .connected ∨ x.state = .userDisconnect ∨ x.state = .disconnected →
    x.handler = true
  empty : x.handler = false → x.txQueue = [] ∧ x.submitted = false
  timer : x.state = .idle ∨ x.state = .connected ∨ x.state = .disconnected → x.timer = false
  submitted : x.state = .disconnected → x.submitted = true
  draining : x.state = .disconnecting → x.txQueue ≠ [] → x.submitted = true

/-- The books: what was seen of every DLC is what it is now. -/
structure Books (s : State) : Prop where
  ok : ∀ d, (s.dlcs d).Ok
  phase : ∀ d, phase d s.log = some (s.dlcs d).phase
  buffers : ∀ d, s.log.filterMap (Out.queuedOf d) =
    s.log.filterMap (Out.goneOf d) ++ (s.dlcs d).txQueue
  deref : ∀ d, Out.nullDeref d ∉ s.log

/-- The lists: a DLC is in the list that `link` says, and in no other, and
a session without its channel has none. -/
structure Links (s : State) (link : ℕ → Option ℕ) : Prop where
  mem : ∀ σ d, d ∈ (s.sessions σ).dlcs ↔ link d = some σ
  nodup : ∀ σ, (s.sessions σ).dlcs.Nodup
  dlci : ∀ σ, ∀ d ∈ (s.sessions σ).dlcs, ∀ e ∈ (s.sessions σ).dlcs,
    (s.dlcs d).dlci = (s.dlcs e).dlci → d = e
  conn : ∀ σ, (s.sessions σ).conn = none → (s.sessions σ).dlcs = []

/-- **The invariant**, with some DLCs out of the lists that are not yet
disconnected. -/
structure Cut (s : State) (ds : List ℕ) : Prop where
  books : Books s
  links : Links s fun d => if d ∈ ds then none else (s.dlcs d).link
  cut : ∀ d ∈ ds, (s.dlcs d).link ≠ none

/-- **The invariant.** -/
def Inv (s : State) : Prop := Cut s []

/-! ## What changes one DLC -/

@[simp] theorem dlcs_setDlc (s : State) (d : ℕ) (x : Dlc) :
    (s.setDlc d x).dlcs = update s.dlcs d x := rfl

@[simp] theorem sessions_setDlc (s : State) (d : ℕ) (x : Dlc) :
    (s.setDlc d x).sessions = s.sessions := rfl

@[simp] theorem log_setDlc (s : State) (d : ℕ) (x : Dlc) : (s.setDlc d x).log = s.log := rfl

@[simp] theorem setDlc_self (s : State) (d : ℕ) (x : Dlc) : (s.setDlc d x).dlcs d = x := by
  simp [setDlc]

@[simp] theorem setDlc_setDlc (s : State) (d : ℕ) (x y : Dlc) :
    (s.setDlc d x).setDlc d y = s.setDlc d y := by
  simp [setDlc]

@[simp] theorem setDlc_eq_self (s : State) (d : ℕ) : s.setDlc d (s.dlcs d) = s := by
  simp [setDlc]

@[simp] theorem dlcs_setSession (s : State) (σ : ℕ) (v : Session) :
    (s.setSession σ v).dlcs = s.dlcs := rfl

@[simp] theorem sessions_setSession (s : State) (σ : ℕ) (v : Session) :
    (s.setSession σ v).sessions = update s.sessions σ v := rfl

@[simp] theorem setSession_eq_self (s : State) (σ : ℕ) : s.setSession σ (s.sessions σ) = s := by
  simp [setSession]

@[simp] theorem log_setSession (s : State) (σ : ℕ) (v : Session) :
    (s.setSession σ v).log = s.log := rfl

@[simp] theorem dlcs_note (s : State) (o : Out) : (s.note o).dlcs = s.dlcs := rfl

@[simp] theorem sessions_note (s : State) (o : Out) : (s.note o).sessions = s.sessions := rfl

@[simp] theorem log_note (s : State) (o : Out) : (s.note o).log = s.log ++ [o] := rfl

/-- A DLC as `rfcomm_dlc_tx_trigger` leaves it. -/
def Dlc.triggered (x : Dlc) : Dlc := { x with submitted := x.handler || x.submitted }

theorem txTrigger_eq (s : State) (d : ℕ) : s.txTrigger d = s.setDlc d (s.dlcs d).triggered := by
  rw [txTrigger]
  split
  next hhandler =>
    have htrue : ((s.dlcs d).handler || (s.dlcs d).submitted) = true := by simp [hhandler]
    rw [triggered, htrue]
  next hhandler =>
    have hsame : ((s.dlcs d).handler || (s.dlcs d).submitted) = (s.dlcs d).submitted := by
      simp [hhandler]
    rw [triggered, hsame]
    exact (setDlc_eq_self s d).symm

/-- A DLC as `rfcomm_dlc_destroy` leaves it. -/
def Dlc.destroyed (x : Dlc) : Dlc :=
  { x with timer := false, submitted := false, state := .idle, session := none }

/-- A connected DLC as `rfcomm_dlc_disconnect` leaves it. -/
def Dlc.dropped (x : Dlc) : Dlc := Dlc.triggered { x with state := .disconnected }

theorem dlcDisconnect_eq (s : State) (d : ℕ) : s.dlcDisconnect d =
      if (s.dlcs d).state = .disconnected then s
      else if (s.dlcs d).state = .connected then s.setDlc d (s.dlcs d).dropped
      else (s.setDlc d (s.dlcs d).destroyed).note (.disconnected d) := by
  rw [dlcDisconnect]
  dsimp only
  rw [txTrigger_eq, destroy, setDlc_self, setDlc_setDlc, setDlc_setDlc]
  rfl

/-- What is seen is all of one DLC, and is no read of a session it has
not. -/
def About (d : ℕ) : Out → Prop
  | .initialised e | .connected e | .disconnected e => e = d
  | .queued e _ | .handed e _ | .released e _ => e = d
  | .nullDeref _ => False

theorem About.next (h : About d o) (hne : e ≠ d) (p : Phase) : p.next e o = some p := by
  cases o <;> simp_all [About, Phase.next, Ne.symm]

theorem phaseFrom_of_about (h : ∀ o ∈ os, About d o) (hne : e ≠ d) (p : Phase) :
    phaseFrom e p os = some p := by
  induction os with
  | nil => rfl
  | cons o os ih =>
    rw [List.forall_mem_cons] at h
    rw [phaseFrom, h.1.next hne]
    exact ih h.2

theorem filterMap_of_about (h : ∀ o ∈ os, About d o) (hne : e ≠ d) :
    os.filterMap (Out.queuedOf e) = [] ∧ os.filterMap (Out.goneOf e) = [] := by
  simp only [List.filterMap_eq_nil_iff]
  constructor
  · intro o ho
    have := h o ho
    cases o <;> simp_all [About, Out.queuedOf, Ne.symm]
  · intro o ho
    have := h o ho
    cases o <;> simp_all [About, Out.goneOf, Ne.symm]

/-- **The books are kept** where one DLC changes and what is seen of it
says so. -/
theorem Books.change (h : Books s) (hdlcs : s'.dlcs = update s.dlcs d x)
    (hlog : s'.log = s.log ++ os) (habout : ∀ o ∈ os, About d o) (hok : x.Ok)
    (hphase : phaseFrom d (s.dlcs d).phase os = some x.phase)
    (hbuffers : (s.dlcs d).txQueue ++ os.filterMap (Out.queuedOf d) =
      os.filterMap (Out.goneOf d) ++ x.txQueue) : Books s' where
  ok e := by
    rw [hdlcs]
    by_cases he : e = d
    · subst he
      rwa [update_self]
    · rw [update_of_ne he]
      exact h.ok e
  phase e := by
    have hold : phaseFrom e .free s.log = some (s.dlcs e).phase := h.phase e
    rw [hdlcs, hlog, Lifecycle.phase, phaseFrom_append, hold, bind_some]
    by_cases he : e = d
    · subst he
      rw [update_self, hphase]
    · rw [update_of_ne he, phaseFrom_of_about habout he]
  buffers e := by
    rw [hdlcs, hlog, List.filterMap_append, List.filterMap_append, h.buffers e]
    by_cases he : e = d
    · subst he
      rw [update_self, List.append_assoc, hbuffers, List.append_assoc]
    · obtain ⟨hq, hg⟩ := filterMap_of_about habout he
      rw [update_of_ne he, hq, hg, List.append_nil, List.append_nil]
  deref e he := by
    rw [hlog, List.mem_append] at he
    exact he.elim (h.deref e) fun he => habout _ he

theorem Books.congr (h : Books s) (hdlcs : s'.dlcs = s.dlcs) (hlog : s'.log = s.log) :
    Books s' where
  ok := by rw [hdlcs]; exact h.ok
  phase := by rw [hdlcs, hlog]; exact h.phase
  buffers := by rw [hdlcs, hlog]; exact h.buffers
  deref := by rw [hlog]; exact h.deref

theorem Books.setDlc (h : Books s) (hok : x.Ok) (hphase : x.phase = (s.dlcs d).phase)
    (hqueue : x.txQueue = (s.dlcs d).txQueue) : Books (s.setDlc d x) :=
  @Books.change s _ d x [] h rfl (by simp) (by simp) hok (by rw [hphase]; rfl) (by simp [hqueue])

/-! ## The lists -/

variable {link link' : ℕ → Option ℕ} {ds : List ℕ}

theorem Links.congr (h : Links s link) (hsessions : s'.sessions = s.sessions)
    (hdlci : ∀ d, (s'.dlcs d).dlci = (s.dlcs d).dlci) (hlink : ∀ d, link' d = link d) :
    Links s' link' where
  mem σ d := by rw [hsessions, hlink]; exact h.mem σ d
  nodup σ := by rw [hsessions]; exact h.nodup σ
  dlci σ d hd e he hde := by
    rw [hsessions] at hd he
    rw [hdlci, hdlci] at hde
    exact h.dlci σ d hd e he hde
  conn σ := by rw [hsessions]; exact h.conn σ

theorem Links.setDlc (h : Links s link) (hd : link d = none) : Links (s.setDlc d x) link := by
  refine ⟨h.mem, h.nodup, fun τ e he f hf hef => ?_, h.conn⟩
  have hnot : d ∉ (s.sessions τ).dlcs := by
    rw [h.mem τ d, hd]
    nofun
  have hne : ∀ e ∈ (s.sessions τ).dlcs, e ≠ d := fun e he heq => hnot (heq ▸ he)
  rw [dlcs_setDlc, update_of_ne (hne e he), update_of_ne (hne f hf)] at hef
  exact h.dlci τ e he f hf hef

theorem Links.setSession (h : Links s link) (hdlcs : v.dlcs = (s.sessions σ).dlcs)
    (hconn : v.conn = none → v.dlcs = []) : Links (s.setSession σ v) link := by
  have hlists : ∀ τ, ((s.setSession σ v).sessions τ).dlcs = (s.sessions τ).dlcs := by
    intro τ
    rw [sessions_setSession]
    by_cases hτ : τ = σ
    · rw [hτ, update_self, hdlcs]
    · rw [update_of_ne hτ]
  refine ⟨fun τ d => ?_, fun τ => ?_, fun τ d hd e he hde => ?_, fun τ hnone => ?_⟩
  · rw [hlists]
    exact h.mem τ d
  · rw [hlists]
    exact h.nodup τ
  · rw [hlists] at hd he
    exact h.dlci τ d hd e he hde
  · rw [sessions_setSession] at hnone ⊢
    by_cases hτ : τ = σ
    · subst hτ
      rw [update_self] at hnone ⊢
      exact hconn hnone
    · rw [update_of_ne hτ] at hnone ⊢
      exact h.conn τ hnone

theorem Links.erase (h : Links s link) (hd : link d = some σ) :
    Links (s.setSession σ { s.sessions σ with dlcs := (s.sessions σ).dlcs.erase d })
      (update link d none) := by
  have hmem := (h.mem σ d).mpr hd
  have hsub : ∀ τ e, e ∈ ((s.setSession σ { s.sessions σ with
      dlcs := (s.sessions σ).dlcs.erase d }).sessions τ).dlcs ↔
      e ≠ d ∧ e ∈ (s.sessions τ).dlcs := by
    intro τ e
    rw [sessions_setSession]
    by_cases hτ : τ = σ
    · subst hτ
      rw [update_self, (h.nodup τ).mem_erase_iff]
    · rw [update_of_ne hτ]
      refine ⟨fun he => ⟨?_, he⟩, And.right⟩
      rintro rfl
      exact hτ (Option.some.inj (((h.mem τ e).mp he).symm.trans hd))
  refine ⟨fun τ e => ?_, fun τ => ?_, fun τ e he f hf hef => ?_, fun τ hnone => ?_⟩
  · rw [hsub]
    by_cases he : e = d
    · simp [he]
    · rw [update_of_ne he, h.mem τ e]
      exact and_iff_right he
  · rw [sessions_setSession]
    by_cases hτ : τ = σ
    · subst hτ
      rw [update_self]
      exact (h.nodup τ).erase d
    · rw [update_of_ne hτ]
      exact h.nodup τ
  · rw [hsub] at he hf
    exact h.dlci τ e he.2 f hf.2 hef
  · have hnil : (s.sessions τ).dlcs = [] := by
      rw [sessions_setSession] at hnone
      by_cases hτ : τ = σ
      · subst hτ
        rw [update_self] at hnone
        exact h.conn τ hnone
      · rw [update_of_ne hτ] at hnone
        exact h.conn τ hnone
    exact List.eq_nil_iff_forall_not_mem.mpr fun e he => by
      have := ((hsub τ e).mp he).2
      simp [hnil] at this

theorem Links.insert (h : Links s link) (hd : link d = none)
    (hdlcs : v.dlcs = d :: (s.sessions σ).dlcs) (hconn : v.conn ≠ none)
    (hdlci : ∀ e ∈ (s.sessions σ).dlcs, (s.dlcs e).dlci ≠ (s.dlcs d).dlci) :
    Links (s.setSession σ v) (update link d (some σ)) := by
  have hnot : ∀ τ, d ∉ (s.sessions τ).dlcs := by
    intro τ hmem
    rw [h.mem τ d, hd] at hmem
    nomatch hmem
  refine ⟨fun τ e => ?_, fun τ => ?_, fun τ e he f hf hef => ?_, fun τ hnone => ?_⟩
  · rw [sessions_setSession]
    by_cases he : e = d
    · subst he
      rw [update_self]
      by_cases hτ : τ = σ
      · simp [hτ, hdlcs]
      · rw [update_of_ne hτ]
        simp [hnot τ, Ne.symm hτ]
    · rw [update_of_ne he, ← h.mem τ e]
      by_cases hτ : τ = σ
      · simp [hτ, hdlcs, he]
      · rw [update_of_ne hτ]
  · rw [sessions_setSession]
    by_cases hτ : τ = σ
    · subst hτ
      rw [update_self, hdlcs]
      exact List.nodup_cons.mpr ⟨hnot τ, h.nodup τ⟩
    · rw [update_of_ne hτ]
      exact h.nodup τ
  · rw [sessions_setSession] at he hf
    by_cases hτ : τ = σ
    · subst hτ
      rw [update_self, hdlcs, List.mem_cons] at he hf
      obtain rfl | he := he
      · obtain rfl | hf := hf
        · rfl
        · exact absurd hef.symm (hdlci f hf)
      · obtain rfl | hf := hf
        · exact absurd hef (hdlci e he)
        · exact h.dlci τ e he f hf hef
    · rw [update_of_ne hτ] at he hf
      exact h.dlci τ e he f hf hef
  · rw [sessions_setSession] at hnone ⊢
    by_cases hτ : τ = σ
    · subst hτ
      rw [update_self] at hnone
      exact absurd hnone hconn
    · rw [update_of_ne hτ] at hnone ⊢
      exact h.conn τ hnone

/-! ## The invariant -/

theorem Cut.change (h : Cut s ds) (hbooks : Books s')
    (hdlcs : s'.dlcs = update s.dlcs d x) (hsessions : s'.sessions = s.sessions)
    (hlink : x.link = (s.dlcs d).link) (hdlci : x.dlci = (s.dlcs d).dlci) : Cut s' ds := by
  have hsame : ∀ e, (s'.dlcs e).link = (s.dlcs e).link ∧ (s'.dlcs e).dlci = (s.dlcs e).dlci := by
    intro e
    rw [hdlcs]
    by_cases he : e = d
    · rw [he, update_self]
      exact ⟨hlink, hdlci⟩
    · rw [update_of_ne he]
      exact ⟨rfl, rfl⟩
  refine ⟨hbooks, h.links.congr hsessions (fun e => (hsame e).2) fun e => ?_, fun e he => ?_⟩
  · rw [(hsame e).1]
  · rw [(hsame e).1]
    exact h.cut e he

theorem Cut.setDlc (h : Cut s ds) (hok : x.Ok)
    (hphase : x.phase = (s.dlcs d).phase) (hqueue : x.txQueue = (s.dlcs d).txQueue)
    (hlink : x.link = (s.dlcs d).link) (hdlci : x.dlci = (s.dlcs d).dlci) : Cut (s.setDlc d x) ds :=
  h.change (h.books.setDlc hok hphase hqueue) rfl rfl hlink hdlci

theorem Cut.setSession (h : Cut s ds) (hdlcs : v.dlcs = (s.sessions σ).dlcs)
    (hconn : v.conn = none → v.dlcs = []) : Cut (s.setSession σ v) ds :=
  ⟨h.books.congr rfl rfl, h.links.setSession hdlcs hconn, h.cut⟩

theorem Dlc.session_of_link (h : x.link = some σ) :
    x.session = some σ ∧ x.state ≠ .idle ∧ x.state ≠ .disconnected := by
  rw [Dlc.link] at h
  split at h
  · nomatch h
  next hne => exact ⟨h, not_or.mp hne⟩

theorem Dlc.Ok.exists_link (h : x.Ok) (hidle : x.state ≠ .idle) (hdisc : x.state ≠ .disconnected) :
    ∃ σ, x.link = some σ := by
  rw [Dlc.link, if_neg (by simp [hidle, hdisc])]
  exact isSome_iff_exists.mp (h.session hidle)

theorem Cut.mem_iff (h : Cut s ds) :
    d ∈ (s.sessions σ).dlcs ↔ d ∉ ds ∧ (s.dlcs d).link = some σ := by
  rw [h.links.mem]
  by_cases hd : d ∈ ds <;> simp [hd]

theorem lookup_eq_some {dlci : ℕ} (hd : s.lookup σ dlci = some d) :
    d ∈ (s.sessions σ).dlcs ∧ (s.dlcs d).dlci = dlci := by
  have hprop := List.find?_some hd
  exact ⟨List.mem_of_find?_eq_some hd, by simpa using hprop⟩

theorem eraseP_congr {l : List ℕ} {p q : ℕ → Bool} (h : ∀ f ∈ l, p f = q f) :
    l.eraseP p = l.eraseP q := by
  induction l with
  | nil => rfl
  | cons f l ih =>
    rw [List.forall_mem_cons] at h
    rw [List.eraseP_cons, List.eraseP_cons, h.1, ih h.2]

theorem Cut.removeDlci_eq (h : Cut s ds) (hd : d ∈ (s.sessions σ).dlcs) :
    s.removeDlci σ (s.dlcs d).dlci =
      s.setSession σ { s.sessions σ with dlcs := (s.sessions σ).dlcs.erase d } := by
  have hdlci := h.links.dlci σ
  have hlink : ∀ e ∈ (s.sessions σ).dlcs, (s.dlcs e).session = some σ := fun e he =>
    (session_of_link (h.mem_iff.mp he).2).1
  rw [State.removeDlci]
  generalize (s.sessions σ).dlcs = l at hd hdlci hlink
  cases l with
  | nil => simp at hd
  | cons e l =>
    dsimp only
    by_cases he : (s.dlcs e).dlci = (s.dlcs d).dlci
    · obtain rfl := hdlci e List.mem_cons_self d hd he
      rw [if_pos rfl, State.deref, hlink e List.mem_cons_self, List.erase_cons_head]
    · have hne : e ≠ d := fun heq => he (by rw [heq])
      have hp : ∀ f ∈ l, ((s.dlcs f).dlci = (s.dlcs d).dlci) = (f = d) := fun f hf =>
        propext ⟨hdlci f (List.mem_cons_of_mem e hf) d hd, fun heq => by rw [heq]⟩
      have hp : l.eraseP (fun f => (s.dlcs f).dlci = (s.dlcs d).dlci) = l.erase d := by
        rw [List.erase_eq_eraseP]
        exact eraseP_congr fun f hf => by simp [hp f hf, eq_comm, beq_eq_decide]
      rw [if_neg he, List.erase_cons_tail (by simpa using hne), hp]

/-! ## Out of the lists -/

theorem Cut.removeDlci (h : Cut s ds) (hd : d ∈ (s.sessions σ).dlcs) :
    Cut (s.removeDlci σ (s.dlcs d).dlci) (d :: ds) := by
  obtain ⟨hds, hlink⟩ := h.mem_iff.mp hd
  rw [h.removeDlci_eq hd]
  refine ⟨h.books.congr rfl rfl, ?_, ?_⟩
  · refine (h.links.erase (by rw [if_neg hds, hlink])).congr rfl (fun _ => rfl) fun e => ?_
    by_cases he : e = d
    · simp [he]
    · simp [he]
  · rw [List.forall_mem_cons]
    exact ⟨by simp [hlink], h.cut⟩

theorem Inv.clear (h : Inv s) (hdlcs : v.dlcs = []) :
    Cut (s.setSession σ v) (s.sessions σ).dlcs := by
  have hmem : ∀ {d}, d ∈ (s.sessions σ).dlcs ↔ (s.dlcs d).link = some σ := by
    intro d
    simpa using @Cut.mem_iff s d σ [] h
  refine ⟨h.books.congr rfl rfl, ⟨fun τ d => ?_, fun τ => ?_, fun τ d hd e he hde => ?_,
    fun τ hnone => ?_⟩, fun d hd => ?_⟩
  · rw [sessions_setSession, dlcs_setSession]
    by_cases hτ : τ = σ
    · subst hτ
      rw [update_self, hdlcs]
      by_cases hd : d ∈ (s.sessions τ).dlcs
      · simp [hd]
      · simp [hd, hmem.symm]
    · rw [update_of_ne hτ, h.links.mem]
      by_cases hd : d ∈ (s.sessions σ).dlcs
      · simp [hd, hmem.mp hd, Ne.symm hτ]
      · simp [hd]
  · rw [sessions_setSession]
    by_cases hτ : τ = σ
    · rw [hτ, update_self, hdlcs]
      exact List.nodup_nil
    · rw [update_of_ne hτ]
      exact h.links.nodup τ
  · rw [sessions_setSession] at hd he
    by_cases hτ : τ = σ
    · rw [hτ, update_self, hdlcs] at hd
      nomatch hd
    · rw [update_of_ne hτ] at hd he
      exact h.links.dlci τ d hd e he hde
  · rw [sessions_setSession] at hnone ⊢
    by_cases hτ : τ = σ
    · rw [hτ, update_self, hdlcs]
    · rw [update_of_ne hτ] at hnone ⊢
      exact h.links.conn τ hnone
  · rw [dlcs_setSession, hmem.mp hd]
    nofun

theorem Cut.release (h : Cut s (d :: ds)) (hd : d ∉ ds) (hbooks : Books s')
    (hdlcs : s'.dlcs = update s.dlcs d x) (hsessions : s'.sessions = s.sessions)
    (hlink : x.link = none) (hdlci : x.dlci = (s.dlcs d).dlci) : Cut s' ds := by
  have hsame : ∀ e, e ≠ d → s'.dlcs e = s.dlcs e := fun e he => by
    rw [hdlcs, update_of_ne he]
  refine ⟨hbooks, h.links.congr hsessions (fun e => ?_) fun e => ?_, fun e he => ?_⟩
  · by_cases he : e = d
    · rw [he, hdlcs, update_self, hdlci]
    · rw [hsame e he]
  · by_cases he : e = d
    · simp [he, hdlcs, hlink]
    · simp [he, hsame e he]
  · rw [hsame e fun heq => hd (heq ▸ he)]
    exact h.cut e (List.mem_cons_of_mem d he)

/-! ## The end of a DLC -/

/-- Nothing is lost where the DLC is disconnected. -/
def Drained (x : Dlc) : Prop := x.state = .connected ∨ x.txQueue = []

instance (x : Dlc) : Decidable (Drained x) := inferInstanceAs (Decidable (_ ∨ _))

theorem Dlc.phase_of_not_idle (h : x.state ≠ .idle) : x.phase ≠ .free := by
  rw [Dlc.phase, if_neg h]
  split <;> nofun

theorem Dlc.destroyed_ok (hqueue : x.txQueue = []) : x.destroyed.Ok where
  idle _ := hqueue
  session h := absurd rfl h
  fresh := nofun
  up := nofun
  empty _ := ⟨hqueue, rfl⟩
  timer _ := rfl
  submitted := nofun
  draining := nofun

theorem Books.destroy (h : Books s) (hidle : (s.dlcs d).state ≠ .idle)
    (hqueue : (s.dlcs d).txQueue = []) : Books (s.destroy d) := by
  refine @Books.change s _ d (s.dlcs d).destroyed [.disconnected d] h rfl rfl (by simp [About])
    (destroyed_ok hqueue) ?_ ?_
  · simp [phaseFrom, Phase.next, phase_of_not_idle hidle]
    rfl
  · exact List.append_nil _

theorem Cut.destroy (h : Cut s (d :: ds)) (hd : d ∉ ds) (hqueue : (s.dlcs d).txQueue = []) :
    Cut (s.destroy d) ds := by
  have hidle : (s.dlcs d).state ≠ .idle := by
    intro hidle
    exact h.cut d List.mem_cons_self (by rw [Dlc.link, if_pos (.inl hidle)])
  exact @Cut.release s _ d (s.dlcs d).destroyed ds h hd (h.books.destroy hidle hqueue) rfl rfl
    (if_pos (.inl rfl)) rfl

theorem Cut.dlcDisconnect (h : Cut s (d :: ds)) (hd : d ∉ ds) (hdrained : Drained (s.dlcs d)) :
    Cut (s.dlcDisconnect d) ds := by
  have hok := h.books.ok d
  obtain ⟨σ, hlink⟩ := ne_none_iff_exists'.mp (h.cut d List.mem_cons_self)
  obtain ⟨hsession, hidle, hdisc⟩ := session_of_link hlink
  rw [dlcDisconnect_eq, if_neg hdisc]
  by_cases hconn : (s.dlcs d).state = .connected
  · have hhandler := hok.up (.inl hconn)
    have hdropped : (s.dlcs d).dropped.Ok :=
      ⟨nofun, fun _ => by simp [dropped, triggered, hsession], nofun, fun _ => hhandler,
        fun hno => absurd (hhandler.symm.trans hno) nofun, fun _ => hok.timer (.inr (.inl hconn)),
        fun _ => by simp [dropped, triggered, hhandler], nofun⟩
    have hphase : (s.dlcs d).dropped.phase = (s.dlcs d).phase := by
      rw [Dlc.phase, Dlc.phase, if_neg hidle, if_neg nofun]
      rfl
    rw [if_pos hconn]
    exact h.release hd (h.books.setDlc hdropped hphase rfl) rfl rfl (if_pos (.inr rfl)) rfl
  · rw [if_neg hconn]
    exact h.destroy hd (hdrained.resolve_left hconn)

theorem dlcDisconnect_of_ne (hne : e ≠ d) : (s.dlcDisconnect d).dlcs e = s.dlcs e := by
  rw [dlcDisconnect_eq]
  split
  · rfl
  split
  · rw [dlcs_setDlc, update_of_ne hne]
  · rw [dlcs_note, dlcs_setDlc, update_of_ne hne]

theorem dlcDisconnect_setSession (s : State) (d σ : ℕ) (v : Session) :
    (s.setSession σ v).dlcDisconnect d = (s.dlcDisconnect d).setSession σ v := by
  rw [dlcDisconnect_eq, dlcDisconnect_eq, dlcs_setSession]
  split
  · rfl
  split <;> rfl

theorem sessions_dlcDisconnect (s : State) (d : ℕ) : (s.dlcDisconnect d).sessions = s.sessions := by
  rw [dlcDisconnect_eq]
  split
  · rfl
  split <;> rfl

theorem Cut.disconnectAll (h : Cut s ds) (hnodup : ds.Nodup)
    (hdrained : ∀ d ∈ ds, Drained (s.dlcs d)) : Inv (ds.foldl State.dlcDisconnect s) := by
  induction ds generalizing s with
  | nil => exact h
  | cons d ds ih =>
    rw [List.nodup_cons] at hnodup
    rw [List.forall_mem_cons] at hdrained
    rw [List.foldl_cons]
    refine ih (h.dlcDisconnect hnodup.1 hdrained.1) hnodup.2 fun e he => ?_
    have hne : e ≠ d := fun heq => hnodup.1 (heq ▸ he)
    rw [dlcDisconnect_of_ne hne]
    exact hdrained.2 e he

theorem foldl_dlcDisconnect_setSession (s : State) (σ : ℕ) (v : Session) (ds : List ℕ) :
    ds.foldl dlcDisconnect (s.setSession σ v) = (ds.foldl dlcDisconnect s).setSession σ v := by
  induction ds generalizing s with
  | nil => rfl
  | cons d ds ih => rw [List.foldl_cons, List.foldl_cons, dlcDisconnect_setSession, ih]

theorem sessions_foldl_dlcDisconnect (s : State) (ds : List ℕ) :
    (ds.foldl dlcDisconnect s).sessions = s.sessions := by
  induction ds generalizing s with
  | nil => rfl
  | cons d ds ih => rw [List.foldl_cons, ih, sessions_dlcDisconnect]

theorem Inv.sessionDisconnected (h : Inv s) (hdrained : (s.sessions σ).state ≠ .disconnected →
      ∀ d ∈ (s.sessions σ).dlcs, Drained (s.dlcs d)) : Inv (s.sessionDisconnected σ) := by
  rw [State.sessionDisconnected]
  by_cases hstate : (s.sessions σ).state = .disconnected
  · rw [if_pos hstate]
    exact h
  · rw [if_neg hstate]
    dsimp only
    rw [sessions_foldl_dlcDisconnect, ← foldl_dlcDisconnect_setSession]
    exact (h.clear rfl).disconnectAll (h.links.nodup σ) (hdrained hstate)

theorem sessionDisconnected_dlcs (h : (s.sessions σ).state = .disconnected →
    (s.sessions σ).dlcs = []) : ((s.sessionDisconnected σ).sessions σ).dlcs = [] := by
  rw [sessionDisconnected]
  by_cases hstate : (s.sessions σ).state = .disconnected
  · rw [if_pos hstate]
    exact h hstate
  · rw [if_neg hstate]
    simp

theorem Inv.sessionDisconnect (h : Inv s) : Inv (s.sessionDisconnect σ) := by
  rw [State.sessionDisconnect]
  split
  · exact h
  next hnil => exact h.setSession rfl fun _ => not_not.mp hnil

/-! ## The start of a DLC -/

/-- The DLC as `rfcomm_dlc_init` leaves it. -/
def Dlc.initialised (x : Dlc) (σ dlci : ℕ) (role : Role) : Dlc :=
  { x with
    handler := false, submitted := false, dlci := dlci, session := some σ, state := .init
    role := role, timer := true }

theorem Dlc.initialised_ok (hqueue : x.txQueue = []) {dlci : ℕ} {role : Role} :
    (x.initialised σ dlci role).Ok where
  idle _ := hqueue
  session _ := rfl
  fresh _ := rfl
  up := nofun
  empty _ := ⟨hqueue, rfl⟩
  timer := nofun
  submitted := nofun
  draining := nofun

theorem lookup_eq_none {dlci : ℕ} (h : s.lookup σ dlci = none) :
    ∀ e ∈ (s.sessions σ).dlcs, (s.dlcs e).dlci ≠ dlci := by
  rw [lookup, List.find?_eq_none] at h
  exact fun e he => by simpa using h e he

/-- **A free DLC is put into the list** of a session that has its channel,
or gets it. -/
theorem Inv.dlcInit (h : Inv s) {dlci : ℕ} {role : Role} (hidle : (s.dlcs d).state = .idle)
    (hlookup : s.lookup σ dlci = none) (hdlcs : v.dlcs = d :: (s.sessions σ).dlcs)
    (hconn : v.conn ≠ none) : Inv ((s.dlcInit d σ dlci role).setSession σ v) := by
  have hok := h.books.ok d
  have hnone : (s.dlcs d).link = none := if_pos (.inl hidle)
  have heq : (s.dlcInit d σ dlci role).setSession σ v =
      ((s.setDlc d ((s.dlcs d).initialised σ dlci role)).setSession σ v).note
        (.initialised d) := by
    simp [State.dlcInit, setDlc, setSession, note, Dlc.initialised]
  rw [heq]
  refine ⟨?_, ?_, by simp⟩
  · refine @Books.change s _ d ((s.dlcs d).initialised σ dlci role) [.initialised d] h.books rfl rfl
      (by simp [About]) (initialised_ok (hok.idle hidle)) ?_ ?_
    · simp [phaseFrom, Phase.next, Dlc.phase, hidle, Dlc.initialised]
    · exact List.append_nil _
  · have hlinks : Links s fun e => (s.dlcs e).link := by simpa using h.links
    have hset := hlinks.setDlc hnone (x := (s.dlcs d).initialised σ dlci role)
    refine (hset.insert (σ := σ) (v := v) hnone hdlcs hconn ?_).congr rfl (fun _ => rfl)
      fun e => ?_
    · rw [sessions_setDlc, setDlc_self]
      intro e he
      have hne : e ≠ d := by
        rintro rfl
        have := (hlinks.mem σ e).mp he
        simp [hnone] at this
      rw [dlcs_setDlc, update_of_ne hne]
      exact lookup_eq_none hlookup e he
    · by_cases he : e = d
      · simp [he, Dlc.initialised, Dlc.link]
      · simp [he]

theorem sessions_dlcInit (s : State) (d σ dlci : ℕ) (role : Role) :
    (s.dlcInit d σ dlci role).sessions σ =
      { s.sessions σ with dlcs := d :: (s.sessions σ).dlcs } := by
  simp [dlcInit]

theorem Inv.dlcInit_self (h : Inv s) {dlci : ℕ} {role : Role} (hidle : (s.dlcs d).state = .idle)
    (hlookup : s.lookup σ dlci = none) (hconn : (s.sessions σ).conn ≠ none) :
    Inv (s.dlcInit d σ dlci role) := by
  have hinit : Inv ((s.dlcInit d σ dlci role).setSession σ
      ((s.dlcInit d σ dlci role).sessions σ)) :=
    h.dlcInit hidle hlookup (by rw [sessions_dlcInit]) (by rwa [sessions_dlcInit])
  rwa [setSession_eq_self] at hinit

/-! ## What moves one DLC -/

theorem deref_of_session (h : (s.dlcs d).session = some σ) (next : ℕ → State) :
    s.deref d next = next σ := by
  rw [State.deref, h]

theorem Inv.linked (h : Inv s) (hidle : (s.dlcs d).state ≠ .idle)
    (hdisc : (s.dlcs d).state ≠ .disconnected) :
    ∃ σ, (s.dlcs d).session = some σ ∧ d ∈ (s.sessions σ).dlcs := by
  obtain ⟨σ, hσ⟩ := (h.books.ok d).exists_link hidle hdisc
  exact ⟨σ, (session_of_link hσ).1, h.mem_iff.mpr ⟨List.not_mem_nil, hσ⟩⟩

theorem Inv.of_mem (h : Inv s) (hd : d ∈ (s.sessions σ).dlcs) :
    (s.dlcs d).session = some σ ∧ (s.dlcs d).state ≠ .idle ∧ (s.dlcs d).state ≠ .disconnected :=
  session_of_link (h.mem_iff.mp hd).2

theorem Inv.txTrigger (h : Inv s) (d : ℕ) : Inv (s.txTrigger d) := by
  have hok := h.books.ok d
  rw [txTrigger_eq]
  refine h.setDlc ⟨hok.idle, hok.session, hok.fresh, hok.up, fun hhandler => ?_, hok.timer,
    fun hstate => ?_, fun hstate hqueue => ?_⟩ rfl rfl rfl rfl
  · obtain ⟨hqueue, hsubmitted⟩ := hok.empty hhandler
    have hno : (s.dlcs d).handler = false := hhandler
    exact ⟨hqueue, by simp [triggered, hno, hsubmitted]⟩
  · simp [triggered, hok.submitted hstate]
  · simp [triggered, hok.draining hstate hqueue]

/-- The states of a DLC that is on its way up or down. -/
def Moving (q : DlcState) : Prop :=
  q ≠ .idle ∧ q ≠ .connected ∧ q ≠ .userDisconnect ∧ q ≠ .disconnected

theorem Inv.move (h : Inv s) (hhandler : (s.dlcs d).handler = false)
    (hidle : (s.dlcs d).state ≠ .idle) (q : DlcState) (hq : Moving q) {mtu : ℕ} {timer : Bool} :
    Inv (s.setDlc d { s.dlcs d with state := q, mtu := mtu, timer := timer }) := by
  have hok := h.books.ok d
  have hdisc : (s.dlcs d).state ≠ .disconnected := fun hstate =>
    absurd (hhandler.symm.trans (hok.up (.inr (.inr hstate)))) nofun
  obtain ⟨hqueue, hsubmitted⟩ := hok.empty hhandler
  obtain ⟨hq₁, hq₂, hq₃, hq₄⟩ := hq
  refine h.setDlc ⟨fun _ => hqueue, fun _ => hok.session hidle, fun _ => hhandler, fun hstate => ?_,
    fun _ => ⟨hqueue, hsubmitted⟩, fun hstate => ?_, fun hstate => absurd hstate hq₄,
    fun _ hne => absurd hqueue hne⟩ ?_ rfl ?_ rfl
  · simp [hq₂, hq₃, hq₄] at hstate
  · simp [hq₁, hq₂, hq₄] at hstate
  · simp [Dlc.phase, hq₁, hidle]
  · simp [Dlc.link, hq₁, hq₄, hidle, hdisc]

theorem Inv.dlcConnected (h : Inv s) (hhandler : (s.dlcs d).handler = false)
    (hidle : (s.dlcs d).state ≠ .idle) : Inv (s.dlcConnected d) := by
  have hok := h.books.ok d
  have hdisc : (s.dlcs d).state ≠ .disconnected := fun hstate =>
    absurd (hhandler.symm.trans (hok.up (.inr (.inr hstate)))) nofun
  obtain ⟨hqueue, -⟩ := hok.empty hhandler
  obtain ⟨σ, hsession, -⟩ := h.linked hidle hdisc
  have heq : s.dlcConnected d = (s.setDlc d { s.dlcs d with
      state := .connected, timer := false, txQueue := [], handler := true
      submitted := false }).note (.connected d) := by
    rw [State.dlcConnected]
    dsimp only
    rw [deref_of_session (σ := σ) (by simp [hsession]), setDlc_self, setDlc_setDlc]
  rw [heq]
  refine h.change (h.books.change rfl rfl (by simp [About]) ⟨fun _ => rfl, fun _ => by simp [hsession],
    by simp, fun _ => rfl, by simp, fun _ => rfl, by simp, by simp⟩ ?_ ?_) rfl rfl ?_ rfl
  · simp [phaseFrom, Phase.next, Dlc.phase, hidle, hhandler]
  · rw [hqueue]
    rfl
  · simp [Dlc.link, hidle, hdisc]

theorem dlcs_removeDlci (h : Cut s ds) (hd : d ∈ (s.sessions σ).dlcs) :
    (s.removeDlci σ (s.dlcs d).dlci).dlcs = s.dlcs := by
  rw [h.removeDlci_eq hd]
  rfl

theorem Inv.dlcDrop (h : Inv s) (hidle : (s.dlcs d).state ≠ .idle)
    (hdisc : (s.dlcs d).state ≠ .disconnected) (hqueue : (s.dlcs d).txQueue = []) :
    Inv (s.dlcDrop d) := by
  obtain ⟨σ, hsession, hmem⟩ := h.linked hidle hdisc
  rw [State.dlcDrop, deref_of_session hsession]
  exact (h.removeDlci hmem).destroy List.not_mem_nil (by rwa [dlcs_removeDlci h hmem])

theorem Inv.dlcClose (h : Inv s) : Inv (s.dlcClose d) := by
  have hok := h.books.ok d
  rw [State.dlcClose]
  split
  next hstate =>
    have hhandler := hok.fresh (by simp [hstate])
    exact h.dlcDrop (by simp [hstate]) (by simp [hstate]) (hok.empty hhandler).1
  next hstate =>
    have hhandler := hok.fresh (by simp [hstate])
    exact h.dlcDrop (by simp [hstate]) (by simp [hstate]) (hok.empty hhandler).1
  next hstate =>
    have hhandler := hok.fresh (by simp [hstate])
    obtain ⟨σ, hsession⟩ := isSome_iff_exists.mp (hok.session (by simp [hstate]))
    rw [deref_of_session hsession]
    exact h.move hhandler (by simp [hstate]) .disconnecting ⟨nofun, nofun, nofun, nofun⟩
  next hstate =>
    have hhandler := hok.fresh (by simp [hstate])
    obtain ⟨σ, hsession⟩ := isSome_iff_exists.mp (hok.session (by simp [hstate]))
    rw [deref_of_session hsession]
    exact h.move hhandler (by simp [hstate]) .disconnecting ⟨nofun, nofun, nofun, nofun⟩
  next hstate =>
    have hhandler := hok.up (.inl hstate)
    rw [txTrigger_eq, setDlc_self, setDlc_setDlc]
    refine h.setDlc ⟨nofun, fun _ => hok.session (by simp [hstate]), nofun, nofun,
      fun hno => absurd (hhandler.symm.trans hno) nofun, nofun, nofun, fun _ _ => ?_⟩ ?_ rfl ?_ rfl
    · simp [triggered, hhandler]
    · simp [Dlc.phase, triggered, hstate, hhandler]
    · simp [Dlc.link, triggered, hstate]
  all_goals exact h

theorem Inv.dlcStart (h : Inv s) (hhandler : (s.dlcs d).handler = false)
    (hidle : (s.dlcs d).state ≠ .idle) {sec : Security} : Inv (s.dlcStart d sec) := by
  have hok := h.books.ok d
  have hdisc : (s.dlcs d).state ≠ .disconnected := fun hstate =>
    absurd (hhandler.symm.trans (hok.up (.inr (.inr hstate)))) nofun
  obtain ⟨σ, hsession, -⟩ := h.linked hidle hdisc
  rw [State.dlcStart, deref_of_session hsession]
  cases sec with
  | passed => exact h.move hhandler hidle .config ⟨nofun, nofun, nofun, nofun⟩
  | pending => exact h.move hhandler hidle .securityPending ⟨nofun, nofun, nofun, nofun⟩
  | reject => exact h.dlcDrop hidle hdisc (hok.empty hhandler).1

end Lifecycle

end Rfcomm

end OpenBlue
