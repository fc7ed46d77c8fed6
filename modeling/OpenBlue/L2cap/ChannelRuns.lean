import OpenBlue.Common.Run
import OpenBlue.L2cap.Channels
/-!
# L2CAP — the list of channels over a run

What each event does to the list of channels (`grown_exec`), and that the
list is in order in every state a connection can reach (`listed_run`).
-/

namespace OpenBlue

namespace L2cap

open List

/-- An event gives an identifier to channels that wait: one of its channels
asks again. -/
def Event.Gives (ident : UInt8) : Event → Prop
  | .securityChanged _ _ bufs => ∃ i counter, bufs i = some counter ∧ getIdent counter = ident
  | _ => False

/-- An event that neither brings the link up nor takes it down. -/
def Event.InLink : Event → Prop
  | .linkUp _ _ => False
  | .linkDown => False
  | _ => True

namespace LeConn

variable {ident : UInt8} {c₀ c c' : LeConn} {new l chans : List ℕ} {i j : ℕ}

/-! ## The channels that `accept` returns -/

theorem acceptAt_eq_ok {env : SigEnv} {k : ℕ} (h : env.acceptAt k = .ok i) :
    env.accept[k]? = some (.ok i) := by
  rw [SigEnv.acceptAt, getD_eq_getElem?_getD] at h
  cases hk : env.accept[k]? with
  | none => rw [hk] at h; cases h
  | some r => rw [hk] at h; exact congrArg some h

theorem mem_offered {env : SigEnv} {k : ℕ} (h : env.acceptAt k = .ok i) : i ∈ env.offered :=
  mem_filterMap.2 ⟨_, mem_of_getElem? (acceptAt_eq_ok h), rfl⟩

theorem acceptAt_inj {env : SigEnv} (h : env.offered.Nodup) {k k' : ℕ}
    (hk : env.acceptAt k = .ok i) (hk' : env.acceptAt k' = .ok i) : k = k' := by
  have hpair := pairwise_filterMap.1 h
  have hlt : ∀ k k', k < k' → env.acceptAt k = .ok i → env.acceptAt k' = .ok i → False := by
    intro k k' hlt hk hk'
    obtain ⟨hk₁, hk₂⟩ := List.getElem?_eq_some_iff.1 (acceptAt_eq_ok hk)
    obtain ⟨hk₁', hk₂'⟩ := List.getElem?_eq_some_iff.1 (acceptAt_eq_ok hk')
    exact pairwise_iff_getElem.1 hpair k k' hk₁ hk₁' hlt i (by rw [hk₂]; rfl) i
      (by rw [hk₂']; rfl) rfl
  rcases Nat.lt_trichotomy k k' with h | h | h
  · exact (hlt k k' h hk hk').elim
  · exact h
  · exact (hlt k' k h hk' hk).elim

namespace Grown

/-! ## Calls of the application -/

theorem chanConnect (h : Grown ident [] c₀ c) (cfg : Cfg) (secure : Bool) (buf : Option UInt8)
    (psm : ℕ) (hi : (c₀.chan i).attached = false) :
    ∃ new, Grown ident new c₀ (c.chanConnect cfg secure buf psm i).1 := by
  unfold LeConn.chanConnect
  split
  · exact ⟨[], h⟩
  · rename_i hconn
    have hphase : c₀.phase ≠ .disconnected := fun hc => by
      rw [h.phase.2 hc] at hconn
      exact hconn nofun
    split
    · exact ⟨[], h⟩
    · dsimp only
      have h : Grown ident [] c₀ (if (c.chan i).requiredSec = 0 then
          c.modify i fun ch => { ch with requiredSec := 1 } else c) := by
        split
        · exact h.modify (.of_request rfl rfl rfl)
        · exact h
      generalize (if (c.chan i).requiredSec = 0 then
        c.modify i fun ch => { ch with requiredSec := 1 } else c) = c at h
      unfold leConnect
      split
      · exact ⟨[], h⟩
      · dsimp only
        have h := h.modify (i := i) (f := fun ch => ch.txInit.rxInit cfg) (.of_request rfl rfl rfl)
        split
        · exact ⟨[], h⟩
        · rename_i c' hadd
          have h := (h.chanAdd hphase hi not_mem_nil hadd).modify (i := i)
            (f := fun ch => { ch with psm := psm }) (.of_request rfl rfl rfl)
          split
          · split
            · refine ⟨[i], ?_⟩
              dsimp only
              exact h.modify (.of_request rfl rfl rfl)
            · exact ⟨_, h.drop i⟩
          · split
            · exact ⟨_, h.sendConnReq buf i⟩
            · exact ⟨_, (h.sendConnReq buf i).drop i⟩

theorem ecredInit (h : Grown ident new c₀ c) (cfg : Cfg) (psm : ℕ)
    (hphase : c₀.phase ≠ .disconnected) (hi : (c₀.chan i).attached = false) (hnew : i ∉ new) :
    Grown ident new c₀ (c.ecredInit cfg psm i).1 ∧ (c.ecredInit cfg psm i).2 = false ∨
      Grown ident (i :: new) c₀ (c.ecredInit cfg psm i).1 ∧
        (c.ecredInit cfg psm i).1.channels = c.channels ++ [i] := by
  unfold LeConn.ecredInit
  split
  · exact .inl ⟨h, rfl⟩
  · have h := h.modify (i := i) (f := fun ch => ch.txInit.rxInit cfg) (.of_request rfl rfl rfl)
    dsimp only
    split
    · exact .inl ⟨h, rfl⟩
    · rename_i c' hadd
      refine .inr ⟨?_, ?_⟩
      · dsimp only
        exact (h.chanAdd hphase hi hnew hadd).modify (.of_request rfl rfl rfl)
      · obtain ⟨cid, -, rfl⟩ := Option.map_eq_some_iff.1 hadd
        rfl

theorem ecredInitAll (h : Grown ident new c₀ c) (cfg : Cfg) (psm : ℕ) (chans : List ℕ)
    (hphase : c₀.phase ≠ .disconnected) (hchans : ∀ i ∈ chans, (c₀.chan i).attached = false)
    (hnew : ∀ i ∈ chans, i ∉ new) (hnodup : chans.Nodup) :
    ∃ new', Grown ident new' c₀ (c.ecredInitAll cfg psm chans).1 ∧
      ((c.ecredInitAll cfg psm chans).2 = true → (∀ i ∈ chans, i ∈ new') ∧ (∀ i ∈ new, i ∈ new') ∧
          (c.ecredInitAll cfg psm chans).1.channels = c.channels ++ chans) := by
  induction chans generalizing c new with
  | nil =>
    exact ⟨new, h, fun _ => ⟨forall_mem_nil _, fun _ => id, (append_nil _).symm⟩⟩
  | cons i chans ih =>
    obtain ⟨hi, hchans'⟩ := forall_mem_cons.1 hchans
    obtain ⟨hinew, hnew'⟩ := forall_mem_cons.1 hnew
    obtain ⟨hnot, hnodup'⟩ := nodup_cons.1 hnodup
    rw [LeConn.ecredInitAll]
    dsimp only
    obtain ⟨h, hfail⟩ | ⟨h, hchannels⟩ := h.ecredInit cfg psm hphase hi hinew
    · rw [if_neg (by rw [hfail]; exact Bool.false_ne_true)]
      exact ⟨new, h, fun hc => by rw [hfail] at hc; cases hc⟩
    · obtain ⟨new', hrest, hdone⟩ := ih h hchans'
        (fun j hj => by
          rw [mem_cons, not_or]
          exact ⟨fun hji => hnot (hji ▸ hj), hnew' j hj⟩) hnodup'
      split
      · split
        · rename_i hok
          obtain ⟨hin, hnew'', hlist⟩ := hdone hok
          refine ⟨new', hrest, fun _ => ⟨forall_mem_cons.2
            ⟨hnew'' i mem_cons_self, hin⟩, fun j hj => hnew'' j (mem_cons_of_mem _ hj), ?_⟩⟩
          rw [hlist, hchannels, append_assoc, singleton_append]
        · exact ⟨new', hrest.chanRemove i, fun hc => nomatch hc⟩
      · rename_i hfail
        exact ⟨_, h, fun hc => absurd hc hfail⟩

theorem ecredChanConnect (h : Grown ident [] c₀ c) (cfg : Cfg) (psm : ℕ) (buf : Option UInt8)
    (hphase : c₀.phase ≠ .disconnected) (hchans : ∀ i ∈ chans, (c₀.chan i).attached = false)
    (hnodup : chans.Nodup) :
    ∃ new, Grown ident new c₀ (c.ecredChanConnect cfg buf psm chans).1 := by
  obtain ⟨new, h, hdone⟩ := h.ecredInitAll cfg psm (chans.take ecredMaxPerReq)
    hphase (fun i hi => hchans i (mem_of_mem_take hi)) (fun _ _ => not_mem_nil)
    (hnodup.sublist (take_sublist _ _))
  unfold LeConn.ecredChanConnect
  dsimp only
  split
  · rename_i hok
    exact ⟨new, h.sendEcredConnReq fun i hi => .inl ((hdone hok).1 i hi)⟩
  · exact ⟨new, h⟩

theorem chanSend (h : Grown ident new c₀ c) (cfg : Cfg) (buf : SendBuf) (i : ℕ) :
    Grown ident new c₀ (c.chanSend cfg buf i) := by
  unfold LeConn.chanSend
  dsimp only
  split
  · exact h
  · split
    · exact h
    · split
      · exact h
      · split
        · split
          · exact h
          · rename_i ch hsend
            exact (h.setChan (tame_dynSend hsend)).raiseReady
        · split
          · unfold sendPdu
            split
            · dsimp only
              exact (h.modify (.of_request rfl rfl rfl)).raiseReady
            · exact h
          · exact h

theorem dataPull (h : Grown ident new c₀ c) (amount : ℕ) :
    Grown ident new c₀ (c.dataPull amount) := by
  have hready (l : List ℕ) {c : LeConn} (h : Grown ident new c₀ c) :
      Grown ident new c₀ { c with ready := l } := h.of_tame rfl rfl fun _ => .refl _
  have h : Grown ident new c₀ c.dropIdle := hready _ h
  unfold LeConn.dataPull
  dsimp only
  split
  · exact h
  · rename_i i rest _
    have hchan := h.setChan (i := i) ((tame_startPdu (c.dropIdle.chan i)).trans
      (tame_pullFrag amount (c.dropIdle.chan i).startPdu))
    split
    · exact hready rest h
    · split
      · split
        · exact (hready rest hchan).raiseReady
        · exact hready rest hchan
      · exact hchan

theorem ecredReconfigure (h : Grown ident new c₀ c) (cfg : Cfg) (buf : Option UInt8) (mtu : ℕ)
    (chans : List ℕ) : Grown ident new c₀ (c.ecredReconfigure cfg buf mtu chans).1 := by
  unfold LeConn.ecredReconfigure
  dsimp only
  split
  · exact h
  · split
    · exact h
    · exact h.sendReconf _ _ _ _

theorem ecredReconfigureExplicit (h : Grown ident new c₀ c) (cfg : Cfg) (buf : Option UInt8)
    (mtu mps : ℕ) (chans : List ℕ) :
    Grown ident new c₀ (c.ecredReconfigureExplicit cfg buf mtu mps chans).1 := by
  unfold LeConn.ecredReconfigureExplicit
  split
  · exact h
  · split
    · exact h
    · split
      · exact h
      · split
        · exact h
        · split
          · exact h
          · exact h.sendReconf _ _ _ _

theorem securityChanged {bufs : ℕ → Option UInt8} (h : Grown ident new c₀ c) (ok : Bool)
    (hbufs : ∀ i counter, bufs i = some counter → getIdent counter ≠ ident) :
    Grown ident new c₀ (c.securityChanged ok bufs) :=
  h.foldl fun _ i _ h => h.leEncryptChange ok i (hbufs i)

theorem rtxTimeout (h : Grown ident new c₀ c) (i : ℕ) : Grown ident new c₀ (c.rtxTimeout i) :=
  (h.drop i).dropAll _

theorem recv {env : PduEnv} (h : Grown ident [] c₀ c) (cfg : Cfg) (pdu : Bytes)
    (hphase : c₀.phase ≠ .disconnected) (hnodup : env.sig.offered.Nodup)
    (hoffer : ∀ i ∈ env.sig.offered, (c₀.chan i).attached = false) :
    ∃ new, Grown ident new c₀ (c.recv cfg env pdu) := by
  unfold LeConn.recv
  split
  · exact ⟨[], h⟩
  · split
    · exact ⟨[], h⟩
    · split
      · split
        · exact ⟨[], h.absorb _ (tame_recvQueue _ _ _)⟩
        · exact ⟨[], h.chanDisconnect _ _⟩
      · split
        · unfold sigRecv
          split
          · split
            · exact ⟨[], h⟩
            · split
              · exact ⟨[], h⟩
              · exact h.sigHandle cfg _ _ _ hphase
                  (fun _ i hi => hoffer i (mem_offered hi)) fun _ _ _ => acceptAt_inj hnodup
          · exact ⟨[], h⟩
        · exact ⟨[], h⟩

end Grown

/-! ## Events -/

/-- **What an event does to the list of channels.** -/
theorem grown_exec (cfg : Cfg) {e : Event} (h : c.Listed) (henabled : c.enabled e)
    (hlink : e.InLink) (hgives : ¬ e.Gives ident) : ∃ new, Grown ident new c (c.exec cfg e) := by
  have h := h.grown ident
  cases e with
  | linkUp | linkDown => exact hlink.elim
  | linkLost =>
    exact ⟨[], h.of_chan rfl (iff_of_false nofun henabled) (fun _ => rfl) fun _ _ _ => id⟩
  | prepare i zeroed mtu requiredSec allocBuf =>
    have hi : (c.chan i).attached = false := henabled
    dsimp only [exec]
    refine ⟨[], h.modify ?_⟩
    cases zeroed with
    | true => exact .of_other hi.symm nofun
    | false => exact .of_request rfl rfl rfl
  | connect i psm secure buf => exact h.chanConnect cfg secure buf psm henabled
  | ecredConnect chans psm buf =>
    exact h.ecredChanConnect cfg psm buf henabled.1 henabled.2.2 henabled.2.1
  | reconfigure chans mtu buf => exact ⟨[], h.ecredReconfigure cfg buf mtu chans⟩
  | reconfigureExplicit chans mtu mps buf =>
    exact ⟨[], h.ecredReconfigureExplicit cfg buf mtu mps chans⟩
  | disconnect i buf => exact ⟨[], h.chanDisconnect buf i⟩
  | send i buf => exact ⟨[], h.chanSend cfg buf i⟩
  | recvComplete i counter buf =>
    exact ⟨[], h.absorb counter (recvClosed_tame.recvComplete buf _)⟩
  | recv pdu env => exact h.recv cfg pdu henabled.1 henabled.2.1 henabled.2.2
  | rxWork i counter env => exact ⟨[], h.absorb counter (tame_rxProcess env _)⟩
  | pull amount => exact ⟨[], h.dataPull amount⟩
  | securityChanged secLevel ok bufs =>
    have hlevel : Grown ident [] c { c with secLevel := secLevel } :=
      h.of_tame rfl rfl fun _ => .refl _
    exact ⟨[], hlevel.securityChanged ok fun i counter hi hident =>
      hgives ⟨i, counter, hi, hident⟩⟩
  | rtxTimeout i => exact ⟨[], h.rtxTimeout i⟩

/-! ## The link -/

theorem attached_foldl_chanDel (l : List ℕ) (h : i ∈ l ∨ (c.chan i).attached = false) :
    ((l.foldl (fun c i => c.chanDel i) c).chan i).attached = false := by
  induction l generalizing c with
  | nil => exact h.resolve_left not_mem_nil
  | cons j l ih =>
    refine ih ?_
    by_cases hij : i = j
    · subst hij
      exact .inr (by rw [chan_chanDel, chan_modify, attached_del])
    · rw [chan_chanDel, chan_modify_of_ne hij]
      exact h.imp_left fun h => (mem_cons.1 h).resolve_left hij

theorem channels_foldl_chanDel (l : List ℕ) :
    (l.foldl (fun c i => c.chanDel i) c).channels = c.channels := by
  induction l generalizing c with
  | nil => rfl
  | cons j l ih => exact (ih).trans channels_chanDel

theorem listed_linkDown (h : c.Listed) : c.linkDown.Listed where
  nodup := (channels_foldl_chanDel c.channels).symm ▸ h.nodup
  attached i hi := by
    have hmem : i ∈ c.channels := by rwa [linkDown, channels_foldl_chanDel] at hi
    refine iff_of_false ?_ (not_not.2 rfl)
    rw [linkDown, attached_foldl_chanDel c.channels (.inl hmem)]
    exact Bool.false_ne_true

theorem grown_fixedUp {fixed : List (ℕ × ℕ)} (h : Grown ident new c₀ c)
    (hphase : c₀.phase ≠ .disconnected) (hnodup : (fixed.map Prod.fst).Nodup)
    (hnew : ∀ f ∈ fixed, f.1 ∉ new) (hfixed : ∀ f ∈ fixed, (c₀.chan f.1).attached = false) :
    ∃ new, Grown ident new c₀ (fixed.foldl fixedUp c) := by
  induction fixed generalizing c new with
  | nil => exact ⟨new, h⟩
  | cons f fixed ih =>
    obtain ⟨hf, hfixed'⟩ := forall_mem_cons.1 hfixed
    obtain ⟨hfnew, hnew'⟩ := forall_mem_cons.1 hnew
    rw [map_cons, nodup_cons] at hnodup
    have h := h.modify (i := f.1) (f := fun ch =>
      { ch with rx := { ch.rx with cid := f.2 }, tx := { ch.tx with cid := f.2 } })
      (.of_request rfl rfl rfl)
    rw [foldl_cons, fixedUp]
    dsimp only
    split
    · exact ih h hnodup.2 hnew' hfixed'
    · rename_i c' hadd
      refine ih ((h.chanAdd hphase hf hfnew hadd).modify (.of_request rfl rfl rfl)) hnodup.2
        (fun g hg => ?_) hfixed'
      rw [mem_cons, not_or]
      exact ⟨fun hgf => hnodup.1 (hgf ▸ mem_map_of_mem hg), hnew' g hg⟩

theorem listed_linkUp {fixed : List (ℕ × ℕ)} (secLevel : ℕ) (hnodup : (fixed.map Prod.fst).Nodup)
    (hfixed : ∀ f ∈ fixed, (c.chan f.1).attached = false) : (c.linkUp secLevel fixed).Listed := by
  have hempty :
      Listed { c with phase := .connected, secLevel := secLevel, channels := [], ready := [] } :=
    ⟨nodup_nil, fun _ hi => nomatch hi⟩
  obtain ⟨new, h⟩ := grown_fixedUp (hempty.grown 0) nofun hnodup
    (fun _ _ => not_mem_nil) hfixed
  exact h.toListed

theorem getIdent_ne_zero (counter : UInt8) : getIdent counter ≠ 0 := by
  unfold getIdent
  split
  · decide
  · assumption

/-- **The list is in order after every event.** -/
theorem listed_exec {cfg : Cfg} {e : Event} (h : c.Listed) (henabled : c.enabled e) :
    (c.exec cfg e).Listed := by
  by_cases hlink : e.InLink
  · by_cases hgives : e.Gives 0
    · cases e with
      | securityChanged secLevel ok bufs =>
        obtain ⟨i, counter, -, hzero⟩ := hgives
        exact absurd hzero (getIdent_ne_zero counter)
      | _ => exact hgives.elim
    · obtain ⟨new, h⟩ := grown_exec cfg h henabled hlink hgives
      exact h.toListed
  · cases e with
    | linkUp secLevel fixed =>
      exact listed_linkUp secLevel henabled.2.1 fun f hf => (henabled.2.2.2 f hf).1
    | linkDown => exact listed_linkDown h
    | _ => exact absurd trivial hlink

theorem listed_init : ({} : LeConn).Listed := ⟨nodup_nil, fun _ hi => nomatch hi⟩

/-- **The list is in order in every state a connection can reach.** -/
theorem listed_run {cfg : Cfg} {es : List Event} (h : c.Listed)
    (hrun : Along (exec cfg) enabled c es) : (run (exec cfg) c es).Listed :=
  inv_run Listed (fun _ _ => listed_exec) h hrun

end LeConn

end L2cap

end OpenBlue
