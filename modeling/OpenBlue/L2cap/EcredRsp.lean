import OpenBlue.L2cap.Conn
import OpenBlue.L2cap.Model.Ecred
/-!
# L2CAP — the response to an enhanced credit based connection

What `le_ecred_conn_rsp` makes of the channels that wait for it. A channel
has a place, among those that wait and so in the list of DCIDs; what
becomes of it (`Fate`) is read off the response at that place and before
it. The channels that do not wait are left alone, but for one whose DCID
the response assigns again (`Beside`).
-/

namespace OpenBlue

namespace L2cap

open List

/-! ## The response -/

/-- What a response says. -/
structure EcredRsp where
  mtu : ℕ
  mps : ℕ
  credits : ℕ
  result : ℕ
  dcids : List ℕ

/-- A response that is not too short. -/
def ecredRsp (buf : Bytes) : EcredRsp :=
  ⟨getLe16 buf, getLe16 (buf.drop 2), getLe16 (buf.drop 4), getLe16 (buf.drop 6),
    getCids (buf.drop 8)⟩

namespace EcredRsp

variable (r : EcredRsp)

/-- The security of the link is too low. -/
def AsksSecurity : Prop := r.result = errAuthentication ∨ r.result = errEncryption

/-- The channels that a DCID is given for are open. -/
def Opens : Prop :=
  r.result = success ∨ r.result = errInvalidScid ∨ r.result = errScidInUse ∨
    r.result = errNoResources

/-- The parameters are those a DCID other than 0 may come with. -/
def Valid (d : ℕ) : Prop := cidIsDyn d ∧ inRange 64 r.mtu r.mps ∧ 1 ≤ r.credits

/-- A DCID is assigned: to a channel of the connection, or at an earlier
place of the response. -/
def Assigned (c : LeConn) (k d : ℕ) : Prop :=
  d ∈ r.dcids.take k ∨ ∃ j ∈ c.channels, (c.chan j).tx.cid = d

/-- The security of the link is raised for a channel. -/
def Raises (env : SigEnv) (c : LeConn) (i : ℕ) : Prop :=
  (c.chan i).encryptPending = false ∧
    (r.result = errEncryption ∧ c.secLevel < 2 ∨ r.result = errAuthentication ∧ c.secLevel < 4) ∧
    env.secure i = true

/-- The response behind its first DCID. -/
def behind : EcredRsp := { r with dcids := r.dcids.tail }

end EcredRsp

/-- A channel that a response opened. -/
def Chan.opened (r : EcredRsp) (dcid : ℕ) (ch : Chan) : Chan :=
  { ch with
    ident := 0
    pendingReq := none
    tx := { cid := dcid, mtu := r.mtu, mps := r.mps, credits := ch.tx.credits + r.credits }
    state := .connected
    out := true }

namespace LeConn

/-- A channel waits for the response: its request is under way, and it has
no DCID yet. -/
structure Waits (ident : UInt8) (c : LeConn) (i : ℕ) : Prop where
  mem : i ∈ c.channels
  attached : (c.chan i).attached = true
  asking : (c.chan i).Asking ident
  cid : (c.chan i).tx.cid = 0

/-! ## What becomes of a channel -/

/-- A response for a low security: a channel is deleted unless the security
is raised for it. The first it is raised for waits for that, and the
response is not taken to those behind it. -/
inductive SecurityFate (env : SigEnv) (r : EcredRsp) (pending : List ℕ) (c c' : LeConn) (k i : ℕ) :
    Prop
  | removed (hnot : ¬ r.Raises env c i) (hmem : i ∉ c'.channels)
      (hchan : c'.chan i = (c.chan i).del)
  | raising (hraises : r.Raises env c i) (hmem : i ∈ c'.channels)
      (hchan : c'.chan i = { c.chan i with encryptPending := true })
  | unanswered (m j : ℕ) (hm : m < k) (hj : pending[m]? = some j) (hraises : r.Raises env c j)
      (hmem : i ∈ c'.channels) (hchan : c'.chan i = c.chan i)

/-- A response that opens channels. -/
inductive OpenFate (env : SigEnv) (r : EcredRsp) (c c' : LeConn) (k i : ℕ) : Prop
  /-- The DCID at the place of the channel is its own from now on. -/
  | connected (d : ℕ) (hd : r.dcids[k]? = some d) (hvalid : r.Valid d)
      (hfree : ¬ r.Assigned c k d) (hmem : i ∈ c'.channels)
      (hchan : c'.chan i = (c.chan i).opened r d)
  /-- It was, until a later DCID was found to be the same. -/
  | again (d : ℕ) (hd : r.dcids[k]? = some d) (hvalid : r.Valid d)
      (hfree : ¬ r.Assigned c k d) (hagain : d ∈ r.dcids.drop (k + 1)) (hmem : i ∈ c'.channels)
      (hchan : Closing ((c.chan i).opened r d) (c'.chan i))
  /-- There is no DCID at its place, or 0, or one that is assigned. -/
  | removed (h : ∀ d, r.dcids[k]? = some d → d = 0 ∨ r.Valid d ∧ r.Assigned c k d)
      (hmem : i ∉ c'.channels) (hchan : c'.chan i = (c.chan i).del)
  /-- At its place or before it the parameters are not valid: the link is
  taken down, and the channels that are left with it. -/
  | cut (m d : ℕ) (hm : m ≤ k) (hd : r.dcids[m]? = some d) (hne : d ≠ 0) (hbad : ¬ r.Valid d)
      (hphase : c'.phase = (c.disconnectLink env).phase) (hmem : i ∈ c'.channels)
      (hchan : c'.chan i = c.chan i)

/-- What a response does to the channel at place `k` of those that wait. -/
inductive Fate (env : SigEnv) (buf : Bytes) (pending : List ℕ) (c c' : LeConn) (k i : ℕ) : Prop
  | short (hbuf : buf.length < 8) (hsame : c' = c)
  | security (hbuf : 8 ≤ buf.length) (hresult : (ecredRsp buf).AsksSecurity)
      (h : SecurityFate env (ecredRsp buf) pending c c' k i)
  | opens (hbuf : 8 ≤ buf.length) (hresult : (ecredRsp buf).Opens)
      (h : OpenFate env (ecredRsp buf) c c' k i)
  | refused (hbuf : 8 ≤ buf.length)
      (hresult : ¬ (ecredRsp buf).AsksSecurity ∧ ¬ (ecredRsp buf).Opens)
      (hmem : i ∉ c'.channels) (hchan : c'.chan i = (c.chan i).del)

/-- What a response does to a channel that it is not for: at most a PDU is
queued on it, the signalling channel, unless its DCID is assigned again.
Then it is discarded too. -/
structure Beside (dcids : List ℕ) (c c' : LeConn) (j : ℕ) : Prop where
  mem : j ∈ c'.channels ↔ j ∈ c.channels
  chan : Queued (c.chan j) (c'.chan j) ∨
    (j ∈ c.channels ∧ cidIsDyn (c.chan j).tx.cid ∧ (c.chan j).tx.cid ∈ dcids) ∧
      Closing (c.chan j) (c'.chan j)

variable {env : SigEnv} {ident : UInt8} {r : EcredRsp} {buf : Bytes} {c c' c'' : LeConn}
variable {i j k d : ℕ} {l dcids : List ℕ}

theorem mem_withIdent : i ∈ c.withIdent ident .ecredConn ↔
    i ∈ c.channels ∧ (c.chan i).Asking ident := by
  simp [withIdent, Chan.Asking]

theorem Waits.mem_withIdent (h : c.Waits ident i) : i ∈ c.withIdent ident .ecredConn :=
  LeConn.mem_withIdent.2 ⟨h.mem, h.asking⟩

theorem ne_sigCid_of_dyn (h : cidIsDyn d) : d ≠ sigCid := by
  rintro rfl
  exact absurd h (by decide)

/-! ## Channels beside the request -/

namespace Beside

theorem of_queued (hmem : j ∈ c'.channels ↔ j ∈ c.channels) (h : Queued (c.chan j) (c'.chan j)) :
    Beside dcids c c' j := ⟨hmem, .inl h⟩

theorem tx (h : Beside dcids c c' j) : (c'.chan j).tx = (c.chan j).tx :=
  h.chan.elim Queued.tx fun h => h.2.tx

theorem mono {dcids' : List ℕ} (hsub : dcids ⊆ dcids') (h : Beside dcids c c' j) :
    Beside dcids' c c' j :=
  ⟨h.mem, h.chan.imp_right fun h => ⟨⟨h.1.1, h.1.2.1, hsub h.1.2.2⟩, h.2⟩⟩

theorem trans (h : Beside dcids c c' j) (h' : Beside dcids c' c'' j) : Beside dcids c c'' j := by
  refine ⟨h'.mem.trans h.mem, ?_⟩
  rcases h'.chan with hq' | ⟨hd', hc'⟩
  · rcases h.chan with hq | ⟨hd, hc⟩
    · exact .inl (hq.trans hq')
    · refine .inr ⟨hd, ?_⟩
      rw [hq'.eq (by rw [hc.tx]; exact ne_sigCid_of_dyn hd.2.1)]
      exact hc
  · rw [h.tx, h.mem] at hd'
    refine .inr ⟨hd', ?_⟩
    rcases h.chan with hq | ⟨-, hc⟩
    · rwa [hq.eq (ne_sigCid_of_dyn hd'.2.1)] at hc'
    · exact hc.trans hc'

theorem chan_eq (h : Beside dcids c c' j) (hcid : (c.chan j).tx.cid = 0) :
    c'.chan j = c.chan j := by
  rcases h.chan with hq | ⟨hd, -⟩
  · exact hq.eq (by rw [hcid]; decide)
  · rw [hcid] at hd
    exact absurd hd.2.1 (by decide)

theorem waits (h : Beside dcids c c' j) (hwait : c.Waits ident j) : c'.Waits ident j := by
  have heq := h.chan_eq hwait.cid
  exact ⟨h.mem.2 hwait.mem, heq ▸ hwait.attached, heq ▸ hwait.asking, heq ▸ hwait.cid⟩

end Beside

theorem beside_drop (h : j ≠ i) : Beside dcids c (c.drop i) j := by
  refine .of_queued ?_ ?_
  · rw [channels_drop, mem_erase_of_ne h]
  · rw [chan_drop_of_ne h]
    exact .refl _

/-! ## One turn of a response that opens channels -/

theorem getCids_of_lt (h : buf.length < 2) : getCids buf = [] := by
  match buf, h with
  | [], _ => rfl
  | [_], _ => rfl

theorem getCids_of_le (h : 2 ≤ buf.length) : getCids buf = getLe16 buf :: getCids (buf.drop 2) := by
  match buf, h with
  | _ :: _ :: _, _ => rfl

/-- The turn on a channel, where the loop goes on. -/
inductive Turned (env : SigEnv) (r : EcredRsp) (c : LeConn) (i : ℕ) : LeConn → Prop
  | missing (h : r.dcids = []) : Turned env r c i (c.drop i)
  | zero (h : r.dcids.head? = some 0) : Turned env r c i (c.drop i)
  | assigned (d j : ℕ) (hd : r.dcids.head? = some d) (hvalid : r.Valid d)
      (hj : c.lookupTxCid d = some j) :
      Turned env r c i ((c.drop i).chanDisconnect (env.disc i) j)
  | connected (d : ℕ) (hd : r.dcids.head? = some d) (hvalid : r.Valid d)
      (hfree : c.lookupTxCid d = none) :
      Turned env r c i ((c.clearRequest i).openChan i d r.mtu r.mps r.credits)

theorem ecredOpenOn_cases (env : SigEnv) (c : LeConn) (i : ℕ) (hr : r.dcids = getCids buf) :
    (∃ buf' c', ecredOpenOn env r.mtu r.mps r.credits i (buf, c) = .inl (buf', c') ∧
      Turned env r c i c' ∧ r.behind.dcids = getCids buf') ∨
    ∃ d, r.dcids.head? = some d ∧ d ≠ 0 ∧ ¬ r.Valid d ∧
      ecredOpenOn env r.mtu r.mps r.credits i (buf, c) = .inr (c.disconnectLink env) := by
  simp only [ecredOpenOn]
  by_cases hlen : buf.length < 2
  · have hnil := hr.trans (getCids_of_lt hlen)
    rw [if_pos hlen]
    exact .inl ⟨_, _, rfl, .missing hnil, by
      rw [EcredRsp.behind, hnil, getCids_of_lt hlen, tail_nil]⟩
  · have hcons := hr.trans (getCids_of_le (by omega))
    have hhead : r.dcids.head? = some (getLe16 buf) := by rw [hcons, head?_cons]
    have hbehind : r.behind.dcids = getCids (buf.drop 2) := by
      rw [EcredRsp.behind, hcons, tail_cons]
    rw [if_neg hlen]
    split
    · rename_i hzero
      exact .inl ⟨_, _, rfl, .zero (hzero ▸ hhead), hbehind⟩
    · rename_i hne
      split
      · rename_i hbad
        exact .inr ⟨_, hhead, hne, hbad, rfl⟩
      · rename_i hvalid
        split
        · rename_i j hj
          exact .inl ⟨_, _, rfl, .assigned _ j hhead (not_not.1 hvalid) hj, hbehind⟩
        · rename_i hfree
          exact .inl ⟨_, _, rfl, .connected _ hhead (not_not.1 hvalid) hfree, hbehind⟩

theorem lookupTxCid_eq_some (h : c.lookupTxCid d = some j) :
    j ∈ c.channels ∧ (c.chan j).tx.cid = d :=
  ⟨mem_of_find?_eq_some h, by simpa using find?_some h⟩

theorem lookupTxCid_eq_none : c.lookupTxCid d = none ↔ ∀ j ∈ c.channels, (c.chan j).tx.cid ≠ d := by
  simp [lookupTxCid]

theorem chan_openChan : (((c.clearRequest i).openChan i d r.mtu r.mps r.credits).chan i) =
    (c.chan i).opened r d := by
  simp only [openChan, clearRequest, chan_giveCredits, chan_modify]
  rfl

theorem chan_openChan_of_ne (h : j ≠ i) :
    ((c.clearRequest i).openChan i d r.mtu r.mps r.credits).chan j = c.chan j := by
  simp only [openChan, clearRequest, chan_giveCredits, chan_modify_of_ne h]

/-- **A turn leaves the other channels alone**, but for one with the DCID it
has read. -/
theorem Turned.beside (h : Turned env r c i c') (hji : j ≠ i) : Beside (r.dcids.take 1) c c' j := by
  cases h with
  | missing | zero => exact beside_drop hji
  | connected d hd hvalid hfree =>
    refine .of_queued (by simp [openChan, clearRequest]) ?_
    rw [chan_openChan_of_ne hji]
    exact .refl _
  | assigned d j' hd hvalid hj' =>
    obtain ⟨hmem', hcid'⟩ := lookupTxCid_eq_some hj'
    obtain ⟨ch, hch, hsent⟩ := chanDisconnect_cases (env.disc i) j' (c.drop i)
    have hmem : j ∈ ((c.drop i).chanDisconnect (env.disc i) j').channels ↔ j ∈ c.channels := by
      rw [hsent.channels, channels_setChan, channels_drop, mem_erase_of_ne hji]
    have hq := hsent.chan j
    by_cases hjj : j = j'
    · subst hjj
      rw [chan_setChan] at hq
      rw [chan_drop_of_ne hji] at hch
      rcases hch with rfl | hclosing
      · exact ⟨hmem, .inl hq⟩
      · have hhead : d ∈ r.dcids.take 1 := by
          cases hl : r.dcids with
          | nil => rw [hl] at hd; cases hd
          | cons d' l => rw [hl] at hd; simpa using (Option.some.inj hd).symm
        refine ⟨hmem, .inr ⟨⟨hmem', hcid' ▸ hvalid.1, hcid' ▸ hhead⟩, ?_⟩⟩
        rwa [hq.eq (by rw [hclosing.tx, hcid']; exact ne_sigCid_of_dyn hvalid.1)]
    · rw [chan_setChan_of_ne hjj, chan_drop_of_ne hji] at hq
      exact ⟨hmem, .inl hq⟩

theorem Turned.phase (h : Turned env r c i c') : c'.phase = c.phase := by
  cases h with
  | missing | zero => exact phase_drop
  | connected => simp [openChan, clearRequest]
  | assigned d j =>
    obtain ⟨ch, -, hsent⟩ := chanDisconnect_cases (env.disc i) j (c.drop i)
    rw [hsent.phase, phase_setChan, phase_drop]

theorem Turned.nodup (h : Turned env r c i c') (hnodup : c.channels.Nodup) : c'.channels.Nodup := by
  cases h with
  | missing | zero => exact channels_drop ▸ hnodup.erase i
  | connected => simpa [openChan, clearRequest] using hnodup
  | assigned d j =>
    obtain ⟨ch, -, hsent⟩ := chanDisconnect_cases (env.disc i) j (c.drop i)
    rw [hsent.channels, channels_setChan, channels_drop]
    exact hnodup.erase i

/-- **What a turn does to a waiting channel.** -/
theorem Turned.own (h : Turned env r c i c') (hnodup : c.channels.Nodup) (hmem : i ∈ c.channels)
    (hcid : (c.chan i).tx.cid = 0) : (i ∉ c'.channels ∧ c'.chan i = (c.chan i).del ∧
      ∀ d, r.dcids.head? = some d → d = 0 ∨ r.Valid d ∧ r.Assigned c 0 d) ∨
    ∃ d, r.dcids.head? = some d ∧ r.Valid d ∧ ¬ r.Assigned c 0 d ∧ i ∈ c'.channels ∧
      c'.chan i = (c.chan i).opened r d := by
  have hdrop : i ∉ (c.drop i).channels := by
    rw [channels_drop]
    exact hnodup.not_mem_erase
  cases h with
  | missing h =>
    exact .inl ⟨hdrop, chan_drop, fun d hd => by rw [h] at hd; cases hd⟩
  | zero h =>
    exact .inl ⟨hdrop, chan_drop, fun d hd => .inl (Option.mem_unique hd h)⟩
  | assigned d j hd hvalid hj =>
    obtain ⟨hjmem, hjcid⟩ := lookupTxCid_eq_some hj
    have hij : i ≠ j := by
      rintro rfl
      rw [← hjcid, hcid] at hvalid
      exact absurd hvalid.1 (by decide)
    obtain ⟨ch, -, hsent⟩ := chanDisconnect_cases (env.disc i) j (c.drop i)
    refine .inl ⟨?_, ?_, fun d' hd' => .inr ?_⟩
    · rw [hsent.channels, channels_setChan]
      exact hdrop
    · have hq := hsent.chan i
      rw [chan_setChan_of_ne hij, chan_drop] at hq
      refine hq.eq ?_
      rw [tx_del, hcid]
      decide
    · obtain rfl := Option.mem_unique hd' hd
      exact ⟨hvalid, .inr ⟨j, hjmem, hjcid⟩⟩
  | connected d hd hvalid hfree =>
    refine .inr ⟨d, hd, hvalid, ?_, by simpa [openChan, clearRequest] using hmem, chan_openChan⟩
    rintro (h | ⟨j, hjmem, hjcid⟩)
    · simp at h
    · exact lookupTxCid_eq_none.1 hfree j hjmem hjcid

/-- A DCID is assigned at a place exactly when it is after the first turn. -/
theorem Turned.assigned_behind (h : Turned env r c i c') (hnodup : c.channels.Nodup)
    (hmem : i ∈ c.channels) (hcid : (c.chan i).tx.cid = 0) (hd : r.Valid d) :
    r.behind.Assigned c' k d ↔ r.Assigned c (k + 1) d := by
  have hzero : d ≠ 0 := by
    rintro rfl
    exact absurd hd.1 (by decide)
  constructor
  · rintro (htake | ⟨j, hj, hjd⟩)
    · refine .inl ?_
      cases hl : r.dcids with
      | nil => simp [EcredRsp.behind, hl] at htake
      | cons d' l =>
        rw [EcredRsp.behind, hl, tail_cons] at htake
        rw [take_succ_cons]
        exact mem_cons_of_mem _ htake
    · by_cases hji : j = i
      · subst hji
        obtain ⟨hnot, -⟩ | ⟨d', hhead, -, -, -, hchan⟩ := h.own hnodup hmem hcid
        · exact absurd hj hnot
        · rw [hchan] at hjd
          obtain rfl : d' = d := hjd
          refine .inl ?_
          cases hl : r.dcids with
          | nil => rw [hl] at hhead; cases hhead
          | cons d'' l =>
            rw [hl] at hhead
            simpa using .inl (Option.some.inj hhead).symm
      · have hb := h.beside hji
        exact .inr ⟨j, hb.mem.1 hj, by rw [← hb.tx]; exact hjd⟩
  · rintro (htake | ⟨j, hj, hjd⟩)
    · cases hl : r.dcids with
      | nil => simp [hl] at htake
      | cons d' l =>
        rw [hl, take_succ_cons] at htake
        rcases mem_cons.1 htake with rfl | htail
        · have hhead : r.dcids.head? = some d := by rw [hl, head?_cons]
          -- the DCID of this turn: on the channel that was opened, or on the one it belongs to
          obtain ⟨-, -, hwhy⟩ | ⟨d', hd', -, -, hin, hchan⟩ := h.own hnodup hmem hcid
          · rcases hwhy d hhead with h0 | ⟨-, hfirst | ⟨j, hj, hjd⟩⟩
            · exact absurd h0 hzero
            · simp at hfirst
            · have hji : j ≠ i := by
                rintro rfl
                exact hzero (hjd.symm.trans hcid)
              have hb := h.beside hji
              exact .inr ⟨j, hb.mem.2 hj, by rw [hb.tx]; exact hjd⟩
          · obtain rfl := Option.mem_unique hd' hhead
            exact .inr ⟨i, hin, by rw [hchan]; rfl⟩
        · refine .inl ?_
          rw [EcredRsp.behind, hl, tail_cons]
          exact htail
    · have hji : j ≠ i := by
        rintro rfl
        exact hzero (hjd.symm.trans hcid)
      have hb := h.beside hji
      exact .inr ⟨j, hb.mem.2 hj, by rw [hb.tx]; exact hjd⟩

/-! ## All turns -/

theorem mem_take_of_getElem? {n : ℕ} (h : l[k]? = some i) (hk : k < n) : i ∈ l.take n :=
  mem_of_getElem? (by rwa [getElem?_take, if_pos hk])

theorem ecredOpen_cons (mtu mps credits : ℕ) (h : (c.chan i).Asking ident) :
    c.ecredOpen env ident mtu mps credits (i :: l) buf =
      match ecredOpenOn env mtu mps credits i (buf, c) with
      | .inl (buf', c') => c'.ecredOpen env ident mtu mps credits l buf'
      | .inr c' => c' := by
  have hask : (c.chan i).ident = ident ∧ (c.chan i).pendingReq = some .ecredConn := h
  rw [ecredOpen, if_neg (not_not.2 hask), ecredOpenOn]
  split
  · rfl
  · dsimp only
    split
    · rfl
    · split
      · rfl
      · cases c.lookupTxCid (getLe16 buf) <;> rfl

theorem ecredOpen_cons_of_not (mtu mps credits : ℕ) (h : ¬ (c.chan i).Asking ident) :
    c.ecredOpen env ident mtu mps credits (i :: l) buf =
      c.ecredOpen env ident mtu mps credits l buf := by
  have hnot : ¬ ((c.chan i).ident = ident ∧ (c.chan i).pendingReq = some .ecredConn) := h
  rw [ecredOpen, if_pos hnot]

/-- **The channels that are not asked for are left alone**, but for those
whose DCID is in the response. -/
theorem beside_ecredOpen (env : SigEnv) (ident : UInt8) (hr : r.dcids = getCids buf) (hj : j ∉ l) :
    Beside r.dcids c (c.ecredOpen env ident r.mtu r.mps r.credits l buf) j := by
  induction l generalizing r buf c with
  | nil => exact .of_queued Iff.rfl (.refl _)
  | cons i l ih =>
    rw [mem_cons, not_or] at hj
    obtain ⟨hji, hjl⟩ := hj
    by_cases hask : (c.chan i).Asking ident
    · rw [ecredOpen_cons _ _ _ hask]
      obtain ⟨buf', c', hon, hturn, hr'⟩ | ⟨d, -, -, -, hon⟩ := ecredOpenOn_cases env c i hr
      · rw [hon]
        exact ((hturn.beside hji).mono (take_subset ..)).trans
          ((ih hr' hjl).mono (tail_subset _))
      · rw [hon]
        refine .of_queued ?_ ?_
        · dsimp only [disconnectLink]
          split <;> rfl
        · dsimp only [disconnectLink]
          split <;> exact .refl _
    · rw [ecredOpen_cons_of_not _ _ _ hask]
      exact ih hr hjl

theorem OpenFate.succ (hturn : Turned env r c j c') (hnodup : c.channels.Nodup)
    (hj : c.Waits ident j) (hne : i ≠ j) (hi : c.Waits ident i)
    (h : OpenFate env r.behind c' c'' k i) : OpenFate env r c c'' (k + 1) i := by
  have hget (m : ℕ) : r.behind.dcids[m]? = r.dcids[m + 1]? := by
    rw [EcredRsp.behind, getElem?_tail]
  have hchan' : c'.chan i = c.chan i := (hturn.beside hne).chan_eq hi.cid
  have hassigned {d : ℕ} (hd : r.Valid d) :=
    hturn.assigned_behind (k := k) hnodup hj.mem hj.cid hd
  cases h with
  | connected d hd hvalid hfree hmem hchan =>
    refine .connected d (hget k ▸ hd) hvalid (fun h => hfree ((hassigned hvalid).2 h)) hmem ?_
    rw [hchan, hchan']
    rfl
  | again d hd hvalid hfree hagain hmem hchan =>
    refine .again d (hget k ▸ hd) hvalid (fun h => hfree ((hassigned hvalid).2 h)) ?_ hmem ?_
    · rwa [EcredRsp.behind, drop_tail] at hagain
    · rwa [hchan'] at hchan
  | removed hwhy hmem hchan =>
    refine .removed (fun d hd => ?_) hmem (by rw [hchan, hchan'])
    exact (hwhy d (hget k ▸ hd)).imp_right fun h => ⟨h.1, (hassigned h.1).1 h.2⟩
  | cut m d hm hd hne hbad hphase hmem hchan =>
    refine .cut (m + 1) d (by omega) (hget m ▸ hd) hne hbad ?_ hmem (by rw [hchan, hchan'])
    rw [hphase, disconnectLink, disconnectLink, hturn.phase]
    split <;> simp [hturn.phase]

/-- **What becomes of each channel is read off the response at its place**,
for a channel that waits behind channels that wait. -/
theorem fate_ecredOpen (hr : r.dcids = getCids buf) (hl : l.Nodup) (hnodup : c.channels.Nodup)
    (hi : l[k]? = some i) (hwait : ∀ j ∈ l.take (k + 1), c.Waits ident j) :
    OpenFate env r c (c.ecredOpen env ident r.mtu r.mps r.credits l buf) k i := by
  induction l generalizing r buf c k with
  | nil => cases hi
  | cons j l ih =>
    have hj : c.Waits ident j := hwait j (by simp)
    obtain ⟨hjl, hl'⟩ := nodup_cons.1 hl
    rw [ecredOpen_cons _ _ _ hj.asking]
    obtain ⟨buf', c', hon, hturn, hr'⟩ | ⟨d, hhead, hne, hbad, hon⟩ := ecredOpenOn_cases env c j hr
    · rw [hon]
      dsimp only
      cases k with
      | zero =>
        obtain rfl : j = i := by simpa using hi
        have hrest := beside_ecredOpen (c := c') env ident hr' hjl
        obtain ⟨hmem, hchan, hwhy⟩ | ⟨d, hhead, hvalid, hfree, hmem, hchan⟩ :=
          hturn.own hnodup hj.mem hj.cid
        · rw [head?_eq_getElem?] at hwhy
          refine .removed hwhy (fun h => hmem (hrest.mem.1 h)) ?_
          rw [← hchan]
          exact hrest.chan_eq (by rw [hchan, tx_del, hj.cid])
        · have hget : r.dcids[0]? = some d := by rw [← hhead, head?_eq_getElem?]
          have hcid : (c'.chan j).tx.cid = d := by rw [hchan]; rfl
          rcases hrest.chan with hq | ⟨⟨-, -, hagain⟩, hclosing⟩
          · refine .connected d hget hvalid hfree (hrest.mem.2 hmem) ?_
            rw [← hchan]
            exact hq.eq (by rw [hcid]; exact ne_sigCid_of_dyn hvalid.1)
          · rw [hcid, EcredRsp.behind, ← drop_one] at hagain
            exact .again d hget hvalid hfree hagain (hrest.mem.2 hmem) (hchan ▸ hclosing)
      | succ k =>
        have hi' : l[k]? = some i := by simpa using hi
        have hne : ∀ i' ∈ l, i' ≠ j := fun i' hi' h => hjl (h ▸ hi')
        have hwait' : ∀ i' ∈ l.take (k + 1), c.Waits ident i' := fun i' hi' =>
          hwait i' (by rw [take_succ_cons]; exact mem_cons_of_mem _ hi')
        refine .succ hturn hnodup hj (hne i (mem_of_getElem? hi'))
          (hwait' i (mem_take_of_getElem? hi' (Nat.lt_succ_self k))) ?_
        refine ih hr' hl' ?_ hi' fun i' hi' =>
          (hturn.beside (hne i' (mem_of_mem_take hi'))).waits (hwait' i' hi')
        exact hturn.nodup hnodup
    · -- the link is taken down on the first channel
      have hmem : ∀ i' ∈ c.channels, i' ∈ (c.disconnectLink env).channels := by
        intro i' hi'
        unfold disconnectLink
        split <;> exact hi'
      have hchan : (c.disconnectLink env).chan = c.chan := by
        unfold disconnectLink
        split <;> rfl
      rw [hon]
      have hwi : c.Waits ident i :=
        hwait i (mem_take_of_getElem? hi (Nat.lt_succ_self k))
      exact .cut 0 d (Nat.zero_le k) (by rw [← hhead, head?_eq_getElem?]) hne hbad rfl
        (hmem i hwi.mem) (congrFun hchan i)

/-! ## The other results -/

theorem changeSecurity_of_raises (h : r.Raises env c i) :
    c.changeSecurity r.result (env.secure i) i =
      (c.modify i fun ch => { ch with encryptPending := true }, true) := by
  obtain ⟨hpending, hlevel, hsecure⟩ := h
  rw [changeSecurity, if_neg (by simp [hpending]), if_neg (not_not.2 hlevel), if_pos hsecure]

theorem changeSecurity_of_not (h : ¬ r.Raises env c i) :
    c.changeSecurity r.result (env.secure i) i = (c, false) := by
  unfold changeSecurity
  split
  · rfl
  · rename_i hpending
    split
    · rfl
    · rename_i hlevel
      split
      · rename_i hsecure
        exact absurd ⟨by simpa using hpending, not_not.1 hlevel, hsecure⟩ h
      · rfl

theorem raises_drop (h : i ≠ j) : r.Raises env (c.drop j) i ↔ r.Raises env c i := by
  rw [EcredRsp.Raises, EcredRsp.Raises, chan_drop_of_ne h, secLevel_drop]

theorem beside_ecredSecurity (env : SigEnv) (hj : j ∉ l) :
    Beside dcids c (c.ecredSecurity env r.result l) j := by
  induction l generalizing c with
  | nil => exact .of_queued Iff.rfl (.refl _)
  | cons i l ih =>
    rw [mem_cons, not_or] at hj
    obtain ⟨hji, hjl⟩ := hj
    rw [ecredSecurity]
    by_cases hraises : r.Raises env c i
    · rw [changeSecurity_of_raises hraises, if_pos rfl]
      refine .of_queued Iff.rfl ?_
      rw [chan_modify_of_ne hji]
      exact .refl _
    · rw [changeSecurity_of_not hraises, if_neg Bool.false_ne_true]
      exact (beside_drop hji).trans (ih hjl)

theorem fate_ecredSecurity (hl : l.Nodup) (hnodup : c.channels.Nodup)
    (hi : l[k]? = some i) (hwait : ∀ j ∈ l.take (k + 1), c.Waits ident j) :
    SecurityFate env r l c (c.ecredSecurity env r.result l) k i := by
  induction l generalizing c k with
  | nil => cases hi
  | cons j l ih =>
    have hj : c.Waits ident j := hwait j (by simp)
    obtain ⟨hjl, hl'⟩ := nodup_cons.1 hl
    rw [ecredSecurity]
    by_cases hraises : r.Raises env c j
    · rw [changeSecurity_of_raises hraises, if_pos rfl]
      dsimp only
      cases k with
      | zero =>
        obtain rfl : j = i := by simpa using hi
        exact .raising hraises hj.mem chan_modify
      | succ k =>
        have hi' : l[k]? = some i := by simpa using hi
        have hij : i ≠ j := fun h => hjl (h ▸ mem_of_getElem? hi')
        have hwi : c.Waits ident i := hwait i (mem_take_of_getElem? hi (Nat.lt_succ_self _))
        exact .unanswered 0 j (Nat.succ_pos k) rfl hraises hwi.mem (chan_modify_of_ne hij)
    · rw [changeSecurity_of_not hraises, if_neg Bool.false_ne_true]
      dsimp only
      cases k with
      | zero =>
        obtain rfl : j = i := by simpa using hi
        have hrest : Beside [] (c.drop j) _ j := beside_ecredSecurity (r := r) env hjl
        refine .removed hraises (fun h => ?_) ?_
        · rw [hrest.mem, channels_drop] at h
          exact hnodup.not_mem_erase h
        · rw [← chan_drop]
          exact hrest.chan_eq (by rw [chan_drop, tx_del, hj.cid])
      | succ k =>
        have hi' : l[k]? = some i := by simpa using hi
        have hne : ∀ i' ∈ l, i' ≠ j := fun i' hi' h => hjl (h ▸ hi')
        have hij := hne i (mem_of_getElem? hi')
        have hwait' : ∀ i' ∈ l.take (k + 1), (c.drop j).Waits ident i' := by
          intro i' hi'
          have hbeside : Beside [] c (c.drop j) i' := beside_drop (hne i' (mem_of_mem_take hi'))
          exact hbeside.waits
            (hwait i' (by rw [take_succ_cons]; exact mem_cons_of_mem _ hi'))
        have hnodup' : (c.drop j).channels.Nodup := channels_drop ▸ hnodup.erase j
        cases ih hl' hnodup' hi' hwait' with
        | removed hnot hmem hchan =>
          rw [chan_drop_of_ne hij] at hchan
          exact .removed (fun h => hnot ((raises_drop hij).2 h)) hmem hchan
        | raising hraises hmem hchan =>
          rw [chan_drop_of_ne hij] at hchan
          exact .raising ((raises_drop hij).1 hraises) hmem hchan
        | unanswered m j' hm hj' hraises hmem hchan =>
          rw [chan_drop_of_ne hij] at hchan
          exact .unanswered (m + 1) j' (by omega) (by simpa using hj')
            ((raises_drop (hne j' (mem_of_getElem? hj'))).1 hraises) hmem hchan

theorem chan_dropAll_of_notMem (hj : j ∉ l) : (c.dropAll l).chan j = c.chan j := by
  induction l generalizing c with
  | nil => rfl
  | cons i l ih =>
    rw [mem_cons, not_or] at hj
    exact (ih hj.2).trans (chan_drop_of_ne hj.1)

theorem mem_channels_dropAll (hj : j ∉ l) : j ∈ (c.dropAll l).channels ↔ j ∈ c.channels := by
  induction l generalizing c with
  | nil => rfl
  | cons i l ih =>
    rw [mem_cons, not_or] at hj
    refine (ih hj.2).trans ?_
    rw [channels_drop, mem_erase_of_ne hj.1]

theorem dropAll_of_mem (hnodup : c.channels.Nodup) (hl : l.Nodup) (hi : i ∈ l) :
    i ∉ (c.dropAll l).channels ∧ (c.dropAll l).chan i = (c.chan i).del := by
  induction l generalizing c with
  | nil => cases hi
  | cons j l ih =>
    obtain ⟨hjl, hl'⟩ := nodup_cons.1 hl
    rcases mem_cons.1 hi with rfl | hil
    · refine ⟨fun h => ?_, (chan_dropAll_of_notMem hjl).trans chan_drop⟩
      rw [dropAll, foldl_cons] at h
      have hleft := (mem_channels_dropAll hjl).1 h
      rw [channels_drop] at hleft
      exact hnodup.not_mem_erase hleft
    · have hne : i ≠ j := fun h => hjl (h ▸ hil)
      have hnodup' : (c.drop j).channels.Nodup := channels_drop ▸ hnodup.erase j
      have hrest := ih hnodup' hl' hil
      rwa [chan_drop_of_ne hne] at hrest

/-! ## The response as a whole -/

/-- **The channels a response is not for.** -/
theorem beside_leEcredConnRsp (hj : j ∉ c.withIdent ident .ecredConn) :
    Beside (ecredRsp buf).dcids c (c.leEcredConnRsp env ident buf) j := by
  unfold leEcredConnRsp
  split
  · exact .of_queued Iff.rfl (.refl _)
  · dsimp only
    split
    · exact beside_ecredSecurity (r := ecredRsp buf) env hj
    · split
      · exact beside_ecredOpen (r := ecredRsp buf) env ident rfl hj
      · refine .of_queued (mem_channels_dropAll hj) ?_
        rw [chan_dropAll_of_notMem hj]
        exact .refl _

/-- **The channels a response is for**: those at the front of the list,
as far as each waits. -/
theorem fate_leEcredConnRsp (env : SigEnv) (buf : Bytes) (hnodup : c.channels.Nodup)
    (hi : (c.withIdent ident .ecredConn)[k]? = some i)
    (hwait : ∀ j ∈ (c.withIdent ident .ecredConn).take (k + 1), c.Waits ident j) :
    Fate env buf (c.withIdent ident .ecredConn) c (c.leEcredConnRsp env ident buf) k i := by
  have hl : (c.withIdent ident .ecredConn).Nodup := hnodup.filter _
  unfold leEcredConnRsp
  split
  · rename_i hshort
    exact .short hshort rfl
  · rename_i hlen
    have hbuf : 8 ≤ buf.length := Nat.not_lt.1 hlen
    dsimp only
    split
    · rename_i hsec
      exact .security hbuf hsec (fate_ecredSecurity (r := ecredRsp buf) hl hnodup hi hwait)
    · rename_i hsec
      split
      · rename_i hopen
        exact .opens hbuf hopen (fate_ecredOpen (r := ecredRsp buf) rfl hl hnodup hi hwait)
      · rename_i hopen
        obtain ⟨hmem, hchan⟩ := dropAll_of_mem hnodup hl (mem_of_getElem? hi)
        exact .refused hbuf ⟨hsec, hopen⟩ hmem hchan

end LeConn

end L2cap

end OpenBlue
