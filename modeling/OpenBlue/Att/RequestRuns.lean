import OpenBlue.Att.Requests
/-!
# ATT requests — from sending to the end

Over every run, each request that was sent is in one place, or its `func`
was called once, or it was cancelled; and it is freed once, when it leaves
its place. Where no bearer is left, all have left. The search by user data
reads the request of every bearer on its way, and so goes wrong at the
first that has none, or, for `NULL`, at the placeholder of one cancelled.
-/

namespace OpenBlue

namespace Att

open List

namespace Bearers

variable {K : Finset ℕ} {s s' : Bearers}

/-! ## One event -/

theorem Tidy.chans_ne_nil (h : Tidy s) (hget : s.attGet = true) : s.chans ≠ [] := by
  rw [attGet, Bool.and_eq_true] at hget
  exact ne_nil_of_mem ((h.attached _).1 (h.connected _ hget.2))

/-- **A request is sent**: it waits, and goes on from there. -/
theorem kept_btAttReqSend (h : Orderly s) (req : Req) (buf : Buf)
    (hbuf : buf.op ≠ Op.signedWriteCmd) :
    Kept (if s.attGet then [req.id] else []) [] [] s (btAttReqSend onSent s req buf).2 := by
  rw [btAttReqSend]
  by_cases hget : s.attGet = true
  swap
  · rw [if_pos hget, if_neg hget]
    exact h.kept Passed.rfl.toTold
  rw [if_neg (not_not.2 hget), if_pos hget]
  set u : Bearers := { s with
    held := s.held.erase buf, reqs := s.reqs ++ [{ req with buf := some buf }] }
  have hne := h.toTidy.chans_ne_nil hget
  have hu : Orderly u := by
    refine ⟨⟨h.nodup, h.attached, h.connected, h.idle, fun r hr b hb => ?_⟩, fun hnil =>
      absurd hnil hne⟩
    rcases mem_append.1 hr with hr | hr
    · exact h.plain r hr b hb
    · rw [mem_singleton.1 hr] at hb
      exact Option.some.inj hb ▸ hbuf
  have hwait : ∀ i, waiting i u = waiting i s + [req.id].count i := fun i => by
    simp only [u, waiting, map_append, map_cons, map_nil, count_append]
  have hbooked : Booked [req.id] [] [] s u := by
    refine ⟨fun i => ?_, fun _ => rfl⟩
    have hout : outstanding u.chans.toFinset i u = outstanding s.chans.toFinset i s := rfl
    have hcalled : called i u = called i s := rfl
    have := hwait i
    rw [places, places, List.count_nil]
    omega
  have hm := passed_attReqSendProcess onSent hu.plain
  exact ⟨hbooked.trans hm.toTold.booked, hu.told hm.toTold⟩

theorem kept_attach (h : Orderly s) {c : ℕ} (enhanced : Bool)
    (hc : ¬ ((s.chan c).attached = true ∨ c ∈ s.chans)) :
    Kept [] [] [] s ({ s with chans := c :: s.chans }.setChan c
      ⟨true, false, enhanced, false, false, 23, 23, .idle, []⟩) := by
  obtain ⟨-, hmem⟩ := not_or.1 hc
  set chan : Chan := ⟨true, false, enhanced, false, false, 23, 23, .idle, []⟩
  set u : Bearers := { s with chans := c :: s.chans }.setChan c chan
  have hself : u.chan c = chan := Function.update_self ..
  have hother : ∀ c', c' ≠ c → u.chan c' = s.chan c' := fun c' hne => Function.update_of_ne hne ..
  have hreq : ∀ c', (u.chan c').req = (s.chan c').req := by
    intro c'
    by_cases hne : c' = c
    · rw [hne, hself, h.idle c hmem]
    · rw [hother c' hne]
  have hlisted := h.toTidy.listed.attach hmem (show chan.attached = true from rfl)
  refine ⟨⟨fun i => ?_, fun _ => rfl⟩, ⟨⟨hlisted.nodup, hlisted.attached, hlisted.connected,
    fun c' hc' => ?_, h.plain⟩, fun hnil => absurd hnil (cons_ne_nil _ _)⟩⟩
  · have hsub : s.chans.toFinset ⊆ u.chans.toFinset := fun c' hc' =>
      mem_toFinset.2 (mem_cons_of_mem _ (mem_toFinset.1 hc'))
    have hout : outstanding u.chans.toFinset i u = outstanding s.chans.toFinset i s := by
      rw [outstanding_congr (fun c' _ => hreq c')]
      exact (outstanding_subset hsub (fun c' _ hc' => h.idle c' fun hin =>
        hc' (mem_toFinset.2 hin)) i).symm
    rw [places, places, hout]
    rfl
  · rw [hreq]
    exact h.idle c' fun hin => hc' (mem_cons_of_mem _ hin)

theorem kept_connected (h : Orderly s) (c : ℕ) :
    Kept [] [] [] s (s.setChan c { s.chan c with connected := (s.chan c).attached }) := by
  set u := s.setChan c { s.chan c with connected := (s.chan c).attached }
  have hreq : ∀ c', (u.chan c').req = (s.chan c').req := setChan_congr Chan.req rfl
  have hlisted := h.toTidy.listed.connect c
  refine ⟨⟨fun i => ?_, fun _ => rfl⟩, ⟨⟨hlisted.nodup, hlisted.attached, hlisted.connected,
    fun c' hc' => ?_, h.plain⟩, h.gone⟩⟩
  · rw [places, places, outstanding_congr (fun c' _ => hreq c')]
    rfl
  · rw [hreq]
    exact h.idle c' hc'

/-- **The caller's part**: a request is not a Signed Write, and is sent
once; one that is cancelled is in a place. -/
def Sends (s : Bearers) (sent : List ℕ) : Event → Prop
  | .reqSend req buf => buf.op ≠ Op.signedWriteCmd ∧ req.id ∉ sent
  | .reqCancel id => s.attGet = true → ∃ req, Placed s req ∧ req.id = id
  | _ => True

/-- **One event**, with what it sends, cancels and frees. -/
theorem kept_step (h : Orderly s) {sent : List ℕ} {e : Event} (he : Sends s sent e) :
    Kept (s.sentBy e) (s.cancelledBy e) (s.freedBy e) s (s.step e) := by
  have hr := h.reach
  have hself : Kept [] [] [] s s := h.kept Passed.rfl.toTold
  have hpasses : e.passesOn = true → Kept [] [] [] s (s.step e) := fun hp =>
    h.kept ((callRule_onSent _).step (sendRule_reach _ _) hr.attached hr hp).toTold
  cases e with
  | reqSend req buf =>
    by_cases hbuf : buf ∈ s.held
    · have hm := kept_btAttReqSend h req buf he.1
      simp only [step, sentBy, hbuf, true_and, if_true]
      exact hm
    · simp only [step, sentBy, hbuf, false_and, if_false]
      exact hself
  | reqCancel id =>
    by_cases hget : s.attGet = true
    · obtain ⟨req, hplaced, rfl⟩ := he hget
      exact kept_btAttReqCancel h hplaced
    · simp only [step, btAttReqCancel, cancelledBy, freedBy, btAttReqCancelFrees, hget]
      exact hself
  | recv c pdu raised => exact kept_recv h c raised pdu
  | encryptChange c fails low created encoded =>
    simp only [step, freedBy]
    split
    · exact kept_encryptChange h c fails low created encoded
    · exact hself
  | timeout c => exact kept_attDisconnected h c
  | disconnected c => exact kept_attDisconnected h c
  | attach c enhanced =>
    simp only [step]
    split
    · exact hself
    next hc => exact kept_attach h enhanced hc
  | connected c => exact kept_connected h c
  | _ => exact hpasses rfl

/-- **What an event gives back is what the bearers tell in it**, where it
cancels nothing. -/
theorem freedBy_perm (h : Orderly s) {sent : List ℕ} {e : Event} (he : Sends s sent e)
    (hnone : s.cancelledBy e = []) :
    ((s.step e).done.map fun d => d.req.id).Perm
      ((s.done.map fun d => d.req.id) ++ s.freedBy e) := by
  refine perm_iff_count.2 fun i => ?_
  have hcount := (kept_step h he).freed i
  rw [hnone, List.count_nil, Nat.add_zero] at hcount
  rw [count_append]
  exact hcount

/-! ## The search by user data -/

/-- Along the list, each element has `P`, up to the first that has `H`. -/
def UpTo {α : Type*} (H P : α → Prop) (l : List α) : Prop :=
  ∀ pre x, pre ++ [x] <+: l → (∀ y ∈ pre, ¬ H y) → P x

theorem upTo_nil {α : Type*} {H P : α → Prop} : UpTo H P [] := by
  intro pre x hpre
  simpa using prefix_nil.1 hpre

theorem upTo_cons {α : Type*} {H P : α → Prop} {x : α} {l : List α} :
    UpTo H P (x :: l) ↔ P x ∧ (¬ H x → UpTo H P l) := by
  constructor
  · intro h
    refine ⟨h [] x (prefix_append [x] l) (by simp), fun hx pre y hpre hall => ?_⟩
    refine h (x :: pre) y ((prefix_cons_inj x).2 hpre) fun z hz => ?_
    rcases mem_cons.1 hz with rfl | hz
    · exact hx
    · exact hall z hz
  · rintro ⟨hx, hrest⟩ pre y hpre hall
    cases pre with
    | nil => rwa [(cons_prefix_cons.1 hpre).1]
    | cons z pre =>
      obtain ⟨rfl, hpre'⟩ := cons_prefix_cons.1 hpre
      exact hrest (hall z mem_cons_self) pre y hpre' fun w hw =>
        hall w (mem_cons_of_mem _ hw)

/-- The bearer has a request with the user data. -/
def HasData (userData : ℕ → ℕ) (s : Bearers) (u c : ℕ) : Prop :=
  ∃ req, (s.chan c).req = .busy req ∧ userData req.id = u

/-- `chan->req->user_data` of the bearer can be read and compared. -/
def Readable (s : Bearers) (u c : ℕ) : Prop :=
  (s.chan c).req ≠ .idle ∧ (u = 0 → (s.chan c).req ≠ .cancelled)

/-- **The search is right**: a request in a place, with the user data, or
`NULL` where there is none; and no pointer that is `NULL` is read through. -/
def FindsRight (userData : ℕ → ℕ) (s : Bearers) (u : ℕ) : Prop :=
  match findReqByUserData userData s u with
  | .req req => Placed s req ∧ userData req.id = u
  | .null => ∀ req, Placed s req → userData req.id ≠ u
  | .cancel => False
  | .fault => False

/-- **The condition on the state**: on the way to the first request with the
user data every bearer has one, none cancelled where `NULL` is looked for.
Where the connection is not found, no request has the user data. -/
def Findable (userData : ℕ → ℕ) (s : Bearers) (u : ℕ) : Prop :=
  if s.attGet = true then UpTo (HasData userData s u) (Readable s u) s.chans
  else ∀ req, Placed s req → userData req.id ≠ u

/-- What the loop over some bearers can come to. -/
def Walked (userData : ℕ → ℕ) (u : ℕ) (s : Bearers) (cs : List ℕ) : Option Found → Prop
  | none => UpTo (HasData userData s u) (Readable s u) cs ∧ ∀ c ∈ cs, ¬ HasData userData s u c
  | some (.req req) => UpTo (HasData userData s u) (Readable s u) cs ∧
      (∃ c ∈ cs, (s.chan c).req = .busy req) ∧ userData req.id = u
  | some .null => False
  | some .cancel => ¬ UpTo (HasData userData s u) (Readable s u) cs
  | some .fault => ¬ UpTo (HasData userData s u) (Readable s u) cs

theorem Walked.pass {userData : ℕ → ℕ} {u c : ℕ} {cs : List ℕ} (hread : Readable s u c)
    (hdata : ¬ HasData userData s u c) {o : Option Found} (h : Walked userData u s cs o) :
    Walked userData u s (c :: cs) o := by
  have hiff : UpTo (HasData userData s u) (Readable s u) (c :: cs) ↔
      UpTo (HasData userData s u) (Readable s u) cs := by
    rw [upTo_cons]
    exact ⟨fun h => h.2 hdata, fun h => ⟨hread, fun _ => h⟩⟩
  match o, h with
  | none, h =>
    refine ⟨hiff.2 h.1, fun c' hc' => ?_⟩
    rcases mem_cons.1 hc' with rfl | hc'
    · exact hdata
    · exact h.2 c' hc'
  | some (.req req), ⟨hup, ⟨c', hc', hreq⟩, hu⟩ =>
    exact ⟨hiff.2 hup, ⟨c', mem_cons_of_mem _ hc', hreq⟩, hu⟩
  | some .cancel, h => exact fun hup => h (hiff.1 hup)
  | some .fault, h => exact fun hup => h (hiff.1 hup)

theorem findOutstanding_walked (userData : ℕ → ℕ) (u : ℕ) (s : Bearers) (cs : List ℕ) :
    Walked userData u s cs (findOutstanding userData u s cs) := by
  induction cs with
  | nil => exact ⟨upTo_nil, by simp⟩
  | cons c cs ih =>
    match hreq : (s.chan c).req with
    | .idle =>
      simp only [findOutstanding, hreq]
      exact fun h => (upTo_cons.1 h).1.1 hreq
    | .cancelled =>
      by_cases hu : u = 0
      · simp only [findOutstanding, hreq, hu, if_true]
        exact fun h => (upTo_cons.1 h).1.2 rfl hreq
      · simp only [findOutstanding, hreq, hu, if_false]
        exact ih.pass ⟨by simp [hreq], fun h => absurd h hu⟩ (by simp [HasData, hreq])
    | .busy req =>
      have hread : Readable s u c := ⟨by simp [hreq], by simp [hreq]⟩
      by_cases hu : userData req.id = u
      · simp only [findOutstanding, hreq, hu, if_true]
        exact ⟨upTo_cons.2 ⟨hread, fun h => absurd ⟨req, hreq, hu⟩ h⟩, ⟨c, mem_cons_self, hreq⟩, hu⟩
      · simp only [findOutstanding, hreq, hu, if_false]
        exact ih.pass hread (by simp [HasData, hreq, hu])

/-- **The search is right exactly where it can read on.** -/
theorem findsRight_iff (userData : ℕ → ℕ) (s : Bearers) (u : ℕ) :
    FindsRight userData s u ↔ Findable userData s u := by
  rw [FindsRight, Findable, findReqByUserData]
  by_cases hget : s.attGet = true
  swap
  · rw [if_pos hget, if_neg hget]
  rw [if_neg (not_not.2 hget), if_pos hget]
  have hspec := findOutstanding_walked userData u s s.chans
  generalize findOutstanding userData u s s.chans = o at hspec ⊢
  match o, hspec with
  | none, hspec =>
    refine iff_of_true ?_ hspec.1
    match hfind : s.reqs.find? (fun req => userData req.id = u) with
    | some req =>
      simp only [hfind]
      exact ⟨Or.inl (mem_of_find?_eq_some hfind), by simpa using find?_some hfind⟩
    | none =>
      simp only [hfind]
      rintro req (hmem | ⟨c, hc, hreq⟩)
      · simpa using find?_eq_none.1 hfind req hmem
      · exact fun hu => hspec.2 c hc ⟨req, hreq, hu⟩
  | some (.req req), hspec => exact iff_of_true ⟨Or.inr hspec.2.1, hspec.2.2⟩ hspec.1
  | some .cancel, hspec => exact iff_of_false id hspec
  | some .fault, hspec => exact iff_of_false id hspec

end Bearers

namespace Requests

open Bearers

/-! ## Runs -/

/-- The caller's part, in one step of a run. -/
def Allowed (r : Requests) (e : Event) : Prop := Sends r.bearers r.sent e

/-- **The life of a request**: it is not sent yet, or in one place, or told
once, or cancelled; and it is freed once, when it has left its place. -/
inductive LivesOnce (r : Requests) (i : ℕ) : Prop
  | unsent (sent : i ∉ r.sent) (place : places i r.bearers = 0) (told : called i r.bearers = 0)
      (freed : i ∉ r.freed)
  | placed (sent : i ∈ r.sent) (place : places i r.bearers = 1) (told : called i r.bearers = 0)
      (freed : i ∉ r.freed)
  | told (sent : i ∈ r.sent) (place : places i r.bearers = 0) (told : called i r.bearers = 1)
      (freed : r.freed.count i = 1)
  | cancelled (sent : i ∈ r.sent) (place : places i r.bearers = 0)
      (told : called i r.bearers = 0) (cancelled : i ∈ r.cancelled) (freed : r.freed.count i = 1)

/-- **The invariant**: the accounts of the run. -/
structure Sound (r : Requests) : Prop where
  orderly : Orderly r.bearers
  count : ∀ i, places i r.bearers + called i r.bearers + r.cancelled.count i = r.sent.count i
  freed : ∀ i, r.freed.count i = called i r.bearers + r.cancelled.count i
  once : r.sent.Nodup

theorem Sound.step {r : Requests} {e : Event} (h : r.Sound) (he : r.Allowed e) :
    (r.step e).Sound := by
  have hk := kept_step h.orderly he
  refine ⟨hk.orderly, fun i => ?_, fun i => ?_, ?_⟩
  · have := hk.count i
    have := h.count i
    simp only [Requests.step, count_append]
    omega
  · have := hk.freed i
    have := h.freed i
    simp only [Requests.step, count_append]
    omega
  · cases e with
    | reqSend req buf =>
      simp only [Requests.step, sentBy]
      split
      · exact nodup_cons.2 ⟨he.2, h.once⟩
      · exact h.once
    | create | drop | send | notifyMultSend | sendRsp | reqCancel | recv | release | sent | status
    | encryptChange | timeout | disconnected | attach | connected | mtu | conn | signing =>
      exact h.once

theorem Sound.livesOnce {r : Requests} (h : r.Sound) (i : ℕ) : LivesOnce r i := by
  have hcount := h.count i
  have hfreed := h.freed i
  by_cases hi : i ∈ r.sent
  · rw [count_eq_one_of_mem h.once hi] at hcount
    by_cases hplace : places i r.bearers = 1
    · exact .placed hi hplace (by omega) (List.count_eq_zero.1 (by omega))
    by_cases htold : called i r.bearers = 1
    · exact .told hi (by omega) htold (by omega)
    · exact .cancelled hi (by omega) (by omega) (count_pos_iff.1 (by omega)) (by omega)
  · rw [count_eq_zero_of_not_mem hi] at hcount
    exact .unsent hi (by omega) (by omega) (List.count_eq_zero.1 (by omega))

/-- No request has been sent yet. -/
def ofBearers (s : Bearers) : Requests := ⟨s, [], [], []⟩

theorem sound_ofBearers {s : Bearers} (hs : Fresh s) (hdone : s.done = []) :
    (ofBearers s).Sound where
  orderly := by
    refine ⟨⟨hs.chans ▸ nodup_nil, fun c => by simp [ofBearers, (hs.chan c).1, hs.chans],
      fun c hc => absurd ((hs.chan c).2.1.symm.trans hc) (by simp), fun c _ => (hs.chan c).2.2.1,
      fun req hreq => ?_⟩, fun _ => hs.reqs⟩
    have hnil : req ∈ s.reqs := hreq
    rw [hs.reqs] at hnil
    exact absurd hnil not_mem_nil
  count i := by simp [ofBearers, places, waiting, outstanding, called, hs.reqs, hs.chans, hdone]
  freed i := by simp [ofBearers, called, hdone]
  once := nodup_nil

/-- **Requests over whole runs**: each lives once, none is left where no
bearer is, and the search by user data is right exactly in the states where
it can read on. -/
theorem requests_live_once {s : Bearers} {es : List Event} (hs : Fresh s) (hdone : s.done = [])
    (hrun : Along step Allowed (ofBearers s) es) :
    let r := run step (ofBearers s) es
    (∀ i, LivesOnce r i) ∧ (r.bearers.chans = [] → ∀ i, places i r.bearers = 0) ∧
      ∀ userData u, FindsRight userData r.bearers u ↔ Findable userData r.bearers u := by
  intro r
  have hsound : r.Sound := inv_run Sound (fun _ _ h he => h.step he) (sound_ofBearers hs hdone) hrun
  refine ⟨hsound.livesOnce, fun hnil i => ?_, fun userData u => findsRight_iff userData _ u⟩
  simp [places, waiting, outstanding, hnil, hsound.orderly.gone hnil]

/-- A request is answered, and another cancelled before its answer. -/
theorem requests_live_once_two :
    let buf : Buf := ⟨0, Op.readReq, 3, .none⟩
    let buf' : Buf := ⟨1, Op.readReq, 3, .none⟩
    let req : Req := ⟨7, Op.readReq, true, none, false⟩
    let req' : Req := ⟨8, Op.readReq, true, none, false⟩
    let es : List Event := [.attach 0 false, .connected 0, .create Op.readReq 3 .none 0,
      .reqSend req buf, .recv 0 [Op.readRsp, 5] false, .create Op.readReq 3 .none 0,
      .reqSend req' buf', .reqCancel 8]
    let r := run step (ofBearers freshBearers) es
    (∀ i, LivesOnce r i) ∧ (r.bearers.chans = [] → ∀ i, places i r.bearers = 0) ∧
      ∀ userData u, FindsRight userData r.bearers u ↔ Findable userData r.bearers u := by
  intro buf buf' req req' es
  refine requests_live_once fresh_freshBearers rfl
    ⟨trivial, trivial, trivial, ⟨by decide, by decide⟩, trivial, trivial, ⟨by decide, by decide⟩,
      fun _ => ⟨req', Or.inr ⟨0, by decide, by decide⟩, rfl⟩, trivial⟩

/-- A bearer that has no request is read through `NULL`; and where a request
was cancelled, the placeholder is found. -/
theorem not_findsRight :
    let buf : Buf := ⟨0, Op.readReq, 3, .none⟩
    let req : Req := ⟨7, Op.readReq, true, none, false⟩
    let idle : List Event := [.attach 0 false, .connected 0]
    let es : List Event := idle ++ [.create Op.readReq 3 .none 0, .reqSend req buf, .reqCancel 7]
    (Fresh freshBearers ∧ freshBearers.done = [] ∧
      Along step Allowed (ofBearers freshBearers) idle ∧
      findReqByUserData id (run step (ofBearers freshBearers) idle).bearers 1 = .fault ∧
      ¬ FindsRight id (run step (ofBearers freshBearers) idle).bearers 1) ∧
    Along step Allowed (ofBearers freshBearers) es ∧
    findReqByUserData id (run step (ofBearers freshBearers) es).bearers 0 = .cancel ∧
    ¬ FindsRight id (run step (ofBearers freshBearers) es).bearers 0 := by
  intro buf req idle es
  have hfault : findReqByUserData id (run step (ofBearers freshBearers) idle).bearers 1 =
    .fault := by decide
  have hcancel : findReqByUserData id (run step (ofBearers freshBearers) es).bearers 0 =
    .cancel := by decide
  refine ⟨⟨fresh_freshBearers, rfl, ⟨trivial, trivial, trivial⟩, hfault, ?_⟩,
    ⟨trivial, trivial, trivial, ⟨by decide, by decide⟩, fun _ => ⟨{ req with buf := none },
      Or.inr ⟨0, by decide, by decide⟩, rfl⟩, trivial⟩, hcancel, ?_⟩
  · rw [FindsRight, hfault]
    exact id
  · rw [FindsRight, hcancel]
    exact id

end Requests

end Att

end OpenBlue
