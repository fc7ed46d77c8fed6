import OpenBlue.Mesh.FriendQueue
import OpenBlue.Mesh.Model.FriendTable
/-!
# Mesh — what is cleared is a friendship

`friend_clear` reads through `frnd->subnet`, so it must not be called on a
context that has none. All its callers but one look at the pointer first,
or look the context up by its subnet; `bt_mesh_friend_terminate` looks it
up by the address alone, which a context keeps when it is cleared. The
second part is the rule of the LPNCounter, a comparison modulo 2^16 that
the code makes in `int`.

Where only friendships are cleared, every context of the table goes through
a run of the friendship model (`slot_run`).
-/

namespace OpenBlue

namespace Friend

open List

variable {cfg : FriendCfg} {t : Table} {s : Slot} {i sub netIdx lpnAddr src : ℕ}
variable {valid established : Bool} {buf : Bytes} {e : TableEvent}

/-! ## What a step should do -/

/-- The friendship a Friend Clear is for: its context, allocated. -/
structure ClearsFor (t : Table) (sub : ℕ) (buf : Bytes) (i : ℕ) (s : Slot) : Prop where
  inUse : t.netIdxOf sub ≠ keyUnused
  length : 4 ≤ buf.length
  found : t.find (t.netIdxOf sub) (clearLpnAddr buf) false false = some i
  slot : t.frnd[i]? = some s
  allocated : s.f.allocated = true

/-- The difference of the received LPNCounter and the stored one, modulo
2^16. -/
def counterDiff (buf : Bytes) (s : Slot) : ℤ :=
  (((clearLpnCounter buf).toNat : ℤ) - s.lpnCounter.toNat) % 65536

/-- **What every step should do**: `friend_clear` is called on allocated
friendships alone, and a Friend Clear for one is honoured exactly if the
difference of the counters is at most 255. -/
structure StepOk (cfg : FriendCfg) (t : Table) (e : TableEvent) : Prop where
  entered : ∀ x ∈ (tableRet cfg t e).entered, x.subnet ≠ none
  honoured : ∀ sub buf i s, e = .clear sub buf → ClearsFor t sub buf i s →
    ((∃ x ∈ (tableRet cfg t e).entered, x.slot = i) ↔ counterDiff buf s ≤ 255)

/-- Where a step does what it should: the context that
`bt_mesh_friend_terminate` finds is allocated, and the LPNCounter of a
Friend Clear is not less than the stored one, or is by so much that it has
wrapped around. -/
def StepFits (t : Table) : TableEvent → Prop
  | .terminate lpnAddr =>
    ∀ i s, t.find keyAny lpnAddr false false = some i → t.frnd[i]? = some s →
      s.f.allocated = true
  | .clear sub buf =>
    ∀ i s, ClearsFor t sub buf i s →
      s.lpnCounter.toNat ≤ (clearLpnCounter buf).toNat ∨
        (clearLpnCounter buf).toNat + 65281 ≤ s.lpnCounter.toNat
  | _ => True

/-! ## Looking a context up -/

theorem find_spec (h : t.find netIdx lpnAddr valid established = some i) :
    ∃ s, t.frnd[i]? = some s ∧ t.matchesLpn netIdx lpnAddr valid established s = true := by
  obtain ⟨hlt, hmatch, -⟩ := findIdx?_eq_some_iff_getElem.mp h
  exact ⟨t.frnd[i], getElem?_eq_getElem hlt, hmatch⟩

theorem allocated_of_matches (h : t.matchesLpn netIdx lpnAddr valid established s = true)
    (hasked : valid = true ∨ netIdx ≠ keyAny) : s.f.allocated = true := by
  unfold Table.matchesLpn at h
  split at h
  · exact absurd h Bool.false_ne_true
  next hvalid =>
  split at h
  · exact absurd h Bool.false_ne_true
  split at h
  · exact absurd h Bool.false_ne_true
  next hnet =>
  by_contra hfree
  rw [Bool.not_eq_true] at hfree
  rcases hasked with rfl | hany
  · exact hvalid (by rw [hfree]; rfl)
  · exact hnet ⟨hany, .inl (by rw [hfree]; rfl)⟩

theorem subnetPtr_ne_none : s.subnetPtr ≠ none ↔ s.f.allocated = true := by
  unfold Slot.subnetPtr
  cases s.f.allocated <;> simp

/-! ## The calls of `friend_clear` -/

theorem entered_clear (h : s.f.allocated = true) :
    ∀ x ∈ (t.clear i s).entered, x.subnet ≠ none := by
  intro x hx
  obtain rfl := mem_singleton.mp hx
  exact subnetPtr_ne_none.mpr h

theorem entered_eachSlot {body : ℕ → Slot → Table → TableRet}
    (hbody : ∀ i s t, ∀ x ∈ (body i s t).entered, x.subnet ≠ none) (l : List ℕ) (t : Table) :
    ∀ x ∈ (eachSlot body l t).entered, x.subnet ≠ none := by
  induction l generalizing t with
  | nil => exact fun x hx => absurd hx not_mem_nil
  | cons i l ih =>
    intro x hx
    unfold eachSlot at hx
    split at hx
    · exact ih t x hx
    next s hs =>
      rcases mem_append.mp hx with hx | hx
      · exact hbody i s t x hx
      · exact ih _ x hx

theorem entered_friendsClear : ∀ x ∈ (friendsClear t).entered, x.subnet ≠ none := by
  refine entered_eachSlot (fun i s t x hx => ?_) _ t
  split at hx
  · exact absurd hx not_mem_nil
  next halloc => exact entered_clear (not_not.mp halloc) x hx

theorem entered_initFriend {credOk : Bool} {pdu : CtlPdu} {enc : Encryption} :
    ∀ x ∈ (initFriend cfg sub src buf credOk pdu enc i s t).entered, x.subnet ≠ none := by
  intro x hx
  unfold initFriend at hx
  dsimp only at hx
  split at hx
  · exact entered_clear rfl x hx
  · exact absurd hx not_mem_nil

theorem entered_friendReqMsg {netIfLocal credOk : Bool} {pdu : CtlPdu} {enc : Encryption} :
    ∀ x ∈ (friendReqMsg cfg sub src netIfLocal buf credOk pdu enc t).entered, x.subnet ≠ none := by
  intro x hx
  unfold friendReqMsg at hx
  split at hx
  · exact absurd hx not_mem_nil
  split at hx
  next i hfind =>
    obtain ⟨s, hs, hmatch⟩ := find_spec hfind
    rw [hs] at hx
    dsimp only at hx
    rcases mem_append.mp hx with hx | hx
    · exact entered_clear (allocated_of_matches hmatch (.inl rfl)) x hx
    · exact entered_initFriend x hx
  · split at hx
    · exact absurd hx not_mem_nil
    split at hx
    · exact absurd hx not_mem_nil
    · exact entered_initFriend x hx

theorem entered_tableTimeout {enc : Encryption} {adv : Bool} :
    ∀ x ∈ (tableTimeout enc adv i s t).entered, x.subnet ≠ none := by
  intro x hx
  unfold tableTimeout at hx
  split at hx
  · exact absurd hx not_mem_nil
  next halloc =>
  have hptr : s.f.allocated = true := not_not.mp halloc
  split at hx
  · exact absurd hx not_mem_nil
  split at hx
  · exact entered_clear hptr x hx
  split at hx
  · exact entered_clear (s := { s with f := { s.f with last := none } }) hptr x hx
  · exact absurd hx not_mem_nil

theorem entered_friendSubnetEvt {evt : KeyTables.KeyEvt} {credOk : Bool} {pdu : CtlPdu} :
    ∀ x ∈ (friendSubnetEvt cfg sub evt credOk pdu i s t).entered, x.subnet ≠ none := by
  intro x hx
  unfold friendSubnetEvt at hx
  split at hx
  · exact absurd hx not_mem_nil
  next hptr =>
  have halloc : s.f.allocated = true :=
    subnetPtr_ne_none.mp (by rw [not_not.mp hptr]; exact Option.some_ne_none sub)
  split at hx
  · exact absurd hx not_mem_nil
  · exact entered_clear halloc x hx
  · split at hx
    · exact entered_clear halloc x hx
    · exact absurd hx not_mem_nil
  all_goals exact absurd hx not_mem_nil

/-! ## The two callers that go wrong -/

theorem entered_friendTerminate : (∀ x ∈ (friendTerminate lpnAddr t).entered, x.subnet ≠ none) ↔
      ∀ i s, t.find keyAny lpnAddr false false = some i → t.frnd[i]? = some s →
        s.f.allocated = true := by
  unfold friendTerminate
  cases hfind : t.find keyAny lpnAddr false false with
  | none => exact iff_of_true (fun x hx => absurd hx not_mem_nil) nofun
  | some i =>
    obtain ⟨s, hs, -⟩ := find_spec hfind
    dsimp only
    rw [hs]
    constructor
    · intro h j s' hj hs'
      obtain rfl := Option.some.inj hj
      obtain rfl := Option.mem_unique hs hs'
      exact subnetPtr_ne_none.mp (h _ (mem_singleton.mpr rfl))
    · intro h
      exact entered_clear (h i s rfl hs)

theorem friendClearMsg_of_find (hlen : 4 ≤ buf.length)
    (hfind : t.find (t.netIdxOf sub) (clearLpnAddr buf) false false = some i)
    (hs : t.frnd[i]? = some s) : friendClearMsg sub buf t =
      if ((clearLpnCounter buf).toNat : ℤ) - s.lpnCounter.toNat > 255 then ⟨t, []⟩
      else t.clear i s := by
  unfold friendClearMsg
  rw [if_neg (Nat.not_lt.mpr hlen), hfind]
  dsimp only
  rw [hs]

theorem entered_friendClearMsg (huse : t.netIdxOf sub ≠ keyUnused) :
    ∀ x ∈ (friendClearMsg sub buf t).entered, x.subnet ≠ none := by
  intro x hx
  unfold friendClearMsg at hx
  split at hx
  · exact absurd hx not_mem_nil
  split at hx
  · exact absurd hx not_mem_nil
  next i hfind =>
    obtain ⟨s, hs, hmatch⟩ := find_spec hfind
    rw [hs] at hx
    dsimp only at hx
    split at hx
    · exact absurd hx not_mem_nil
    -- the index of a subnet in use is not the one that stands for any
    · exact entered_clear (allocated_of_matches hmatch (.inr huse)) x hx

theorem int_rule_iff (buf : Bytes) (s : Slot) :
    (¬ ((clearLpnCounter buf).toNat : ℤ) - s.lpnCounter.toNat > 255 ↔ counterDiff buf s ≤ 255) ↔
      s.lpnCounter.toNat ≤ (clearLpnCounter buf).toNat ∨
        (clearLpnCounter buf).toNat + 65281 ≤ s.lpnCounter.toNat := by
  have hrecv := (clearLpnCounter buf).toNat_lt
  have hstored := s.lpnCounter.toNat_lt
  unfold counterDiff
  omega

theorem honoured_iff (h : ClearsFor t sub buf i s) :
    (∃ x ∈ (tableRet cfg t (.clear sub buf)).entered, x.slot = i) ↔
      ¬ ((clearLpnCounter buf).toNat : ℤ) - s.lpnCounter.toNat > 255 := by
  have hret : tableRet cfg t (.clear sub buf) = friendClearMsg sub buf t := if_neg h.inUse
  rw [hret, friendClearMsg_of_find h.length h.found h.slot]
  split
  next hfar => exact iff_of_false (fun ⟨x, hx, _⟩ => absurd hx not_mem_nil) (not_not.mpr hfar)
  next hnear => exact iff_of_true ⟨_, mem_singleton.mpr rfl, rfl⟩ hnear

/-! ## One step, and every run -/

/-- **A step does what it should exactly where it fits.** -/
theorem stepOk_iff (cfg : FriendCfg) (t : Table) (e : TableEvent) :
    StepOk cfg t e ↔ StepFits t e := by
  have hother (hclear : ∀ sub buf, e ≠ .clear sub buf)
      (hentered : ∀ x ∈ (tableRet cfg t e).entered, x.subnet ≠ none) : StepOk cfg t e :=
    ⟨hentered, fun sub buf _ _ he => absurd he (hclear sub buf)⟩
  cases e with
  | req sub src netIfLocal buf credOk pdu enc =>
    refine iff_of_true (hother nofun fun x hx => ?_) trivial
    dsimp only [tableRet] at hx
    split at hx
    · exact absurd hx not_mem_nil
    · exact entered_friendReqMsg x hx
  | clear sub buf =>
    have hentered : ∀ x ∈ (tableRet cfg t (.clear sub buf)).entered, x.subnet ≠ none := by
      intro x hx
      dsimp only [tableRet] at hx
      split at hx
      · exact absurd hx not_mem_nil
      next huse => exact entered_friendClearMsg huse x hx
    constructor
    · intro h i s hfor
      exact (int_rule_iff buf s).mp ((honoured_iff hfor).symm.trans (h.honoured _ _ i s rfl hfor))
    · refine fun h => ⟨hentered, fun sub' buf' i s he hfor => ?_⟩
      obtain ⟨rfl, rfl⟩ := TableEvent.clear.inj he
      exact (honoured_iff hfor).trans ((int_rule_iff buf s).mpr (h i s hfor))
  | terminate lpnAddr =>
    rw [StepFits, ← entered_friendTerminate]
    exact ⟨fun h => h.entered, hother nofun⟩
  | friendsClear => exact iff_of_true (hother nofun entered_friendsClear) trivial
  | timeout i enc adv =>
    refine iff_of_true (hother nofun ?_) trivial
    exact entered_eachSlot (fun _ _ _ => entered_tableTimeout) _ t
  | subnet handlers sub netIdx evt credOk pdu =>
    refine iff_of_true (hother nofun fun x hx => ?_) trivial
    dsimp only [tableRet] at hx
    split at hx
    · exact entered_eachSlot (fun _ _ _ => entered_friendSubnetEvt) _ t x hx
    · exact absurd hx not_mem_nil
  | queue i ev quiet =>
    refine iff_of_true (hother nofun ?_) trivial
    exact entered_eachSlot (fun _ _ _ x hx => absurd hx not_mem_nil) _ t

/-- **Every step of a run clears friendships alone and honours a Friend
Clear by its counter, exactly if every step of the run fits.** -/
theorem clears_friendships_iff (cfg : FriendCfg) (lpnCount segRx : ℕ) (netIdx : List ℕ)
    (es : List TableEvent) :
    Along (tableStep cfg) (StepOk cfg) (tableInit lpnCount segRx netIdx) es ↔
      Along (tableStep cfg) StepFits (tableInit lpnCount segRx netIdx) es :=
  ⟨along_mono fun t e => (stepOk_iff cfg t e).mp, along_mono fun t e => (stepOk_iff cfg t e).mpr⟩

/-- A Friend Request of the Low Power Node 0x0100, with LPNCounter 10. -/
def sampleReq : TableEvent :=
  .req 0 0x0100 false [0x01, 0x64, 0x00, 0x03, 0xe8, 0x00, 0x00, 0x01, 0x00, 0x0a] true
    ⟨some 0, 5, []⟩ ⟨true, [], keyUnused⟩

/-- **A cleared friendship is terminated once more**, and `friend_clear`
reads through `NULL`; **a Friend Clear with LPNCounter 5 ends the friendship
of LPNCounter 10**, though the difference is 65531. -/
theorem clears_wrongly :
    ¬ Along (tableStep defaultFriendCfg) (StepOk defaultFriendCfg) (tableInit 2 1 [0])
        [sampleReq, .friendsClear, .terminate 0x0100] ∧
      ¬ Along (tableStep defaultFriendCfg) (StepOk defaultFriendCfg) (tableInit 2 1 [0])
        [sampleReq, .clear 0 [0x01, 0x00, 0x00, 0x05]] := by
  constructor
  · rintro ⟨-, -, hterminate, -⟩
    exact hterminate.entered ⟨0, none⟩ (by decide) rfl
  · rintro ⟨-, hclear, -⟩
    have hfor : ∃ s, ClearsFor (tableStep defaultFriendCfg (tableInit 2 1 [0]) sampleReq) 0
        [0x01, 0x00, 0x00, 0x05] 0 s ∧ ¬ counterDiff [0x01, 0x00, 0x00, 0x05] s ≤ 255 :=
      ⟨_, ⟨by decide, by decide, by decide, rfl, by decide⟩, by decide⟩
    obtain ⟨s, hfor, hfar⟩ := hfor
    exact hfar ((hclear.honoured _ _ _ _ rfl hfor).mp ⟨⟨0, some 0⟩, by decide, rfl⟩)

end Friend

end OpenBlue
