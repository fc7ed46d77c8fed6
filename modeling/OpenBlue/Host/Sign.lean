import Mathlib.Data.List.Nodup
import OpenBlue.Common.Run
import OpenBlue.Host.Model.Sign
/-!
# Host — signed writes over runs

The verifier puts its own counter in place of the one a PDU carries and
compares the whole signature, so it accepts exactly the PDU that was
signed with the counter it is at (`accept_iff`). Between restarts its
counter only moves on, and a PDU is accepted once; where neither side
restarts, what is accepted is a prefix of what was signed. A PDU that is
lost therefore stops all later ones (`lost_pdu_blocks`).
-/

namespace OpenBlue

namespace Host

open List UInt32

variable {c : Cmac} {fail : Bool} {key msg : List UInt8} {cnt n : UInt32} {s : SignState}

@[simp] theorem length_le32 (n : UInt32) : (le32 n).length = 4 := rfl

theorem le32_injective {m n : UInt32} (h : le32 m = le32 n) : m = n := by
  simp only [le32, List.cons.injEq, and_true, ← UInt8.toNat_inj, toNat_toUInt8,
    UInt32.toNat_shiftRight, Nat.shiftRight_eq_div_pow] at h
  obtain ⟨h0, h1, h2, h3⟩ := h
  have hm := m.toNat_lt
  have hn := n.toNat_lt
  rw [← UInt32.toNat_inj]
  change m.toNat / 2 ^ 8 % 2 ^ 8 = n.toNat / 2 ^ 8 % 2 ^ 8 at h1
  change m.toNat / 2 ^ 16 % 2 ^ 8 = n.toNat / 2 ^ 16 % 2 ^ 8 at h2
  change m.toNat / 2 ^ 24 % 2 ^ 8 = n.toNat / 2 ^ 24 % 2 ^ 8 at h3
  omega

theorem ofNat_injective {m n : ℕ} (hm : m < 2 ^ 32) (hn : n < 2 ^ 32)
    (h : ofNat m = ofNat n) : m = n := by
  have := congrArg UInt32.toNat h
  rwa [toNat_ofNat_of_lt' hm, toNat_ofNat_of_lt' hn] at this

/-! ## One signature -/

/-- The eight bytes of the CMAC that are sent. -/
def signTag (c : Cmac) (key msg : List UInt8) (cnt : UInt32) : List UInt8 :=
  (c.mac key.reverse (msg ++ le32 cnt).reverse).reverse.drop 8

/-- The PDU of a message signed with a counter. -/
def signedPdu (c : Cmac) (key msg : List UInt8) (cnt : UInt32) : List UInt8 :=
  msg ++ (le32 cnt ++ signTag c key msg cnt)

@[simp] theorem length_signTag (c : Cmac) (key msg : List UInt8) (cnt : UInt32) :
    (signTag c key msg cnt).length = 8 := by
  simp [signTag, c.length_mac]

theorem smpSignBuf_eq (c : Cmac) (key msg rest : List UInt8) (cnt : UInt32) :
    smpSignBuf c false key (msg ++ le32 cnt ++ rest) msg.length =
      (signedPdu c key msg cnt, true) := by
  have hm : (msg ++ le32 cnt ++ rest).take (msg.length + 4) = msg ++ le32 cnt := by
    rw [take_left' (by simp)]
  have hcnt : ((msg ++ le32 cnt ++ rest).drop msg.length).take 4 = le32 cnt := by
    rw [append_assoc, drop_left' rfl, take_left' (length_le32 cnt)]
  have hmsg : (msg ++ le32 cnt ++ rest).take msg.length = msg := by
    rw [append_assoc, take_left' rfl]
  simp only [smpSignBuf, Cmac.run, Bool.false_eq_true, if_false, hm, hcnt, hmsg]
  have htake : ((c.mac key.reverse (msg ++ le32 cnt).reverse).reverse.take 4).length = 4 := by
    simp [c.length_mac]
  rw [append_assoc, drop_left' htake, take_of_length_le (by simp [c.length_mac])]
  rfl

theorem smpSign_eq (c : Cmac) (key msg : List UInt8) (cnt : UInt32) :
    smpSign c false key cnt msg = (signedPdu c key msg cnt, true) := smpSignBuf_eq ..

/-- **The verifier accepts a signed PDU where the counters agree**, and
leaves its bytes as they were. -/
theorem smpSignVerify_eq (c : Cmac) (key msg : List UInt8) (cnt n : UInt32) :
    smpSignVerify c false key n (signedPdu c key msg cnt) =
      (signedPdu c key msg n, decide (cnt = n)) := by
  have hlen : (signedPdu c key msg cnt).length - 12 = msg.length := by simp [signedPdu]
  have htake : (signedPdu c key msg cnt).take msg.length = msg := by
    rw [signedPdu, take_left' rfl]
  have hdrop : ∀ k, (signedPdu c key msg k).drop msg.length = le32 k ++ signTag c key msg k :=
    fun k => by rw [signedPdu, drop_left' rfl]
  simp only [smpSignVerify, hlen, htake, hdrop, smpSignBuf_eq, if_true]
  congr 1
  rw [Bool.eq_iff_iff, beq_iff_eq, decide_eq_true_iff]
  constructor
  · intro h
    exact le32_injective (append_inj_left h rfl)
  · rintro rfl
    rfl

theorem smpSignVerify_fail (c : Cmac) (key buf : List UInt8) (n : UInt32) :
    (smpSignVerify c true key n buf).2 = false := rfl

/-! ## Runs -/

/-- Every PDU signed is the one of its message and counter. -/
def SentOk (c : Cmac) (key : List UInt8) (s : SignState) : Prop :=
  ∀ p ∈ s.sent, p.pdu = signedPdu c key p.msg p.count

theorem SentOk.step (h : SentOk c key s) (e : SignEvent) : SentOk c key (signStep c key s e) := by
  cases e with
  | sign msg fail =>
    cases fail with
    | true => exact h
    | false =>
      simp only [signStep, smpSign_eq, if_true]
      intro p hp
      rcases mem_append.1 hp with hp | hp
      · exact h p hp
      · rw [mem_singleton.1 hp]
  | deliver n fail =>
    simp only [signStep]
    split <;> exact h
  | _ => exact h

/-- **What the verifier accepts**: the PDU signed with its own counter. -/
theorem SentOk.accept_iff (h : SentOk c key s) (n : ℕ) (fail : Bool) :
    (s.answer c key n fail).2 = true ↔
      fail = false ∧ ∃ p, s.sent[n]? = some p ∧ p.count = s.verifier := by
  unfold SignState.answer
  cases hp : s.sent[n]? with
  | none => simp
  | some p =>
    have hpdu := h p (mem_of_getElem? hp)
    cases fail with
    | true => simp [smpSignVerify_fail]
    | false => simp [hpdu, smpSignVerify_eq]

theorem SentOk.accept_bytes (h : SentOk c key s) {n : ℕ} {fail : Bool}
    (hacc : (s.answer c key n fail).2 = true) :
    ∃ p, s.sent[n]? = some p ∧ (s.answer c key n fail).1 = p.pdu := by
  obtain ⟨rfl, p, hp, hcount⟩ := (h.accept_iff n fail).1 hacc
  refine ⟨p, hp, ?_⟩
  simp only [SignState.answer, hp, h p (mem_of_getElem? hp), smpSignVerify_eq, hcount]

theorem sent_step (c : Cmac) (key : List UInt8) (s : SignState) (e : SignEvent) :
    ∃ l, (signStep c key s e).sent = s.sent ++ l := by
  cases e with
  | sign msg fail =>
    simp only [signStep]
    split
    · exact ⟨_, rfl⟩
    · exact ⟨[], by simp⟩
  | deliver n fail =>
    simp only [signStep]
    split <;> exact ⟨[], by simp⟩
  | _ => exact ⟨[], by simp [signStep]⟩

/-- The PDUs accepted since the verifier's counter was `v` were signed with
the counters from there on. -/
structure AcceptInv (c : Cmac) (key : List UInt8) (v : UInt32) (s : SignState) (log : List ℕ) :
    Prop where
  sent : SentOk c key s
  verifier : s.verifier = v + UInt32.ofNat log.length
  counts : ∀ (i n : ℕ), log[i]? = some n →
    ∃ p, s.sent[n]? = some p ∧ p.count = v + UInt32.ofNat i

variable {v : UInt32}

theorem AcceptInv.step {log : List ℕ} (h : AcceptInv c key v s log) {e : SignEvent}
    (he : e ≠ .restartVerifier) :
    AcceptInv c key v (signStep c key s e) (log ++ signAccept c key s e) := by
  have hsent := h.sent.step e
  have hcounts : ∀ (i n : ℕ), log[i]? = some n →
      ∃ p, (signStep c key s e).sent[n]? = some p ∧ p.count = v + ofNat i := by
    intro i n hi
    obtain ⟨p, hp, hcount⟩ := h.counts i n hi
    obtain ⟨l, hl⟩ := sent_step c key s e
    refine ⟨p, ?_, hcount⟩
    rw [hl, getElem?_append_left (List.getElem?_eq_some_iff.1 hp).1, hp]
  cases e with
  | deliver n fail =>
    simp only [signStep, signAccept] at hsent hcounts ⊢
    by_cases hacc : (s.answer c key n fail).2 = true
    · obtain ⟨-, p, hp, hcount⟩ := (h.sent.accept_iff n fail).1 hacc
      simp only [if_pos hacc] at hsent hcounts ⊢
      refine ⟨hsent, ?_, fun i m hi => ?_⟩
      · rw [h.verifier, length_append, length_singleton, ofNat_add]
        exact UInt32.add_assoc v _ 1
      · rcases Nat.lt_or_ge i log.length with hlt | hge
        · exact hcounts i m (by rwa [getElem?_append_left hlt] at hi)
        · rw [getElem?_append_right hge] at hi
          have hlt := (List.getElem?_eq_some_iff.1 hi).1
          obtain rfl : i = log.length := by
            simp only [length_singleton] at hlt
            omega
          obtain rfl : n = m := by simpa using hi
          exact ⟨p, hp, hcount.trans h.verifier⟩
    · simp only [if_neg hacc, append_nil] at hsent hcounts ⊢
      exact ⟨hsent, h.verifier, hcounts⟩
  | restartVerifier => exact absurd rfl he
  | sign msg fail =>
    have hver : (signStep c key s (.sign msg fail)).verifier = s.verifier := by
      simp only [signStep]
      split <;> rfl
    simp only [signAccept, append_nil]
    exact ⟨hsent, hver.trans h.verifier, hcounts⟩
  | _ =>
    simp only [signAccept, append_nil]
    exact ⟨hsent, h.verifier, hcounts⟩

theorem AcceptInv.nodup {log : List ℕ} (h : AcceptInv c key v s log) (hlen : log.length < 2 ^ 32) :
    log.Nodup := by
  rw [nodup_iff_getElem?_ne_getElem?]
  intro i j hij hj heq
  obtain ⟨n, hn⟩ : ∃ n, log[j]? = some n := ⟨_, getElem?_eq_getElem hj⟩
  obtain ⟨p, hp, hi⟩ := h.counts i n (heq.trans hn)
  obtain ⟨q, hq, hj'⟩ := h.counts j n hn
  obtain rfl : p = q := Option.mem_unique hp hq
  have := ofNat_injective (by omega) (by omega) (UInt32.add_right_inj v |>.1 (hi.symm.trans hj'))
  omega

/-- The `n`-th PDU was signed with the counter `n`. -/
structure InStep (s : SignState) : Prop where
  signer : s.signer = UInt32.ofNat s.sent.length
  counts : ∀ (n : ℕ) (p : Signed), s.sent[n]? = some p → p.count = UInt32.ofNat n

theorem InStep.step (h : InStep s) {e : SignEvent} (he : e ≠ .restartSigner) :
    InStep (signStep c key s e) := by
  cases e with
  | sign msg fail =>
    simp only [signStep]
    split
    · refine ⟨?_, fun n p hp => ?_⟩
      · simp only [h.signer, length_append, length_singleton, ofNat_add]
        rfl
      · rcases Nat.lt_or_ge n s.sent.length with hlt | hge
        · exact h.counts n p (by rwa [getElem?_append_left hlt] at hp)
        · rw [getElem?_append_right hge] at hp
          have hlt := (List.getElem?_eq_some_iff.1 hp).1
          obtain rfl : n = s.sent.length := by
            simp only [length_singleton] at hlt
            omega
          simp only [Nat.sub_self, getElem?_cons_zero, Option.some.injEq] at hp
          rw [← hp]
          exact h.signer
    · exact h
  | deliver n fail =>
    simp only [signStep]
    split <;> exact ⟨h.signer, h.counts⟩
  | restartSigner => exact absurd rfl he
  | _ => exact ⟨h.signer, h.counts⟩

/-- Both sides in step: what was accepted is the first PDUs signed. -/
structure PrefixInv (c : Cmac) (key : List UInt8) (s : SignState) (log : List ℕ) : Prop where
  accept : AcceptInv c key 0 s log
  inStep : InStep s
  log : s.sent.length < 2 ^ 32 → log.length ≤ s.sent.length ∧ log = List.range log.length

theorem PrefixInv.answer {log : List ℕ} (h : PrefixInv c key s log) (hlen : s.sent.length < 2 ^ 32)
    (n : ℕ) (fail : Bool) :
    (s.answer c key n fail).2 = true ↔ fail = false ∧ n = log.length ∧ n < s.sent.length := by
  have hlog := (h.log hlen).1
  rw [h.accept.sent.accept_iff n fail]
  refine and_congr_right fun _ => ⟨?_, ?_⟩
  · rintro ⟨p, hp, hcount⟩
    have hlt := (List.getElem?_eq_some_iff.1 hp).1
    rw [h.inStep.counts n p hp, h.accept.verifier, UInt32.zero_add] at hcount
    exact ⟨ofNat_injective (by omega) (by omega) hcount, hlt⟩
  · rintro ⟨rfl, hlt⟩
    have hp := getElem?_eq_getElem hlt
    refine ⟨_, hp, (h.inStep.counts _ _ hp).trans ?_⟩
    rw [h.accept.verifier, UInt32.zero_add]

theorem PrefixInv.step {log : List ℕ} (h : PrefixInv c key s log) {e : SignEvent}
    (he : e ≠ .restartSigner ∧ e ≠ .restartVerifier) :
    PrefixInv c key (signStep c key s e) (log ++ signAccept c key s e) := by
  refine ⟨h.accept.step he.2, h.inStep.step he.1, fun hlen => ?_⟩
  obtain ⟨l, hl⟩ := sent_step c key s e
  have hle : s.sent.length ≤ (signStep c key s e).sent.length := by
    rw [hl, length_append]
    omega
  have hlog := h.log (by omega)
  cases e with
  | deliver n fail =>
    simp only [signAccept]
    split
    · rename_i hacc
      obtain ⟨-, rfl, hlt⟩ := (h.answer (by omega) n fail).1 hacc
      rw [length_append, length_singleton]
      refine ⟨by omega, ?_⟩
      rw [range_succ, ← hlog.2]
    · rw [append_nil]
      exact ⟨hlog.1.trans hle, hlog.2⟩
  | _ =>
    simp only [signAccept, append_nil]
    exact ⟨hlog.1.trans hle, hlog.2⟩

/-- **Signed writes over runs.** After any run of signatures, deliveries,
losses, stores and restarts, a signed PDU is accepted where it carries the
verifier's counter (and the computation succeeds), with the bytes that
were signed. From there until the verifier is restarted no PDU is accepted
twice. Where neither side has been restarted, what was accepted is the
first PDUs signed, each once and in order, and the next one is the one
accepted. -/
theorem sign_verify_run (c : Cmac) (key : List UInt8) (es : List SignEvent) :
    let s := run (signStep c key) {} es
    let log := emitted (signStep c key) (signAccept c key) {} es
    (∀ n fail, ((s.answer c key n fail).2 = true ↔
        fail = false ∧ ∃ p, s.sent[n]? = some p ∧ p.count = s.verifier) ∧
      ((s.answer c key n fail).2 = true →
        ∃ p, s.sent[n]? = some p ∧ (s.answer c key n fail).1 = p.pdu ∧
          p.pdu.take p.msg.length = p.msg)) ∧
    (∀ es', (∀ e ∈ es', e ≠ .restartVerifier) →
      (emitted (signStep c key) (signAccept c key) s es').length < 2 ^ 32 →
      (emitted (signStep c key) (signAccept c key) s es').Nodup) ∧
    ((∀ e ∈ es, e ≠ .restartSigner ∧ e ≠ .restartVerifier) → s.sent.length < 2 ^ 32 →
      log = List.range log.length ∧
      ∀ n fail, (s.answer c key n fail).2 = true ↔
        fail = false ∧ n = log.length ∧ n < s.sent.length) := by
  intro s log
  have hnil : SentOk c key {} := fun p hp => absurd hp List.not_mem_nil
  have hsent : SentOk c key s :=
    inv_run_of_forall (SentOk c key) (fun _ e h => h.step e) hnil es
  have hinit : ∀ {s}, SentOk c key s → AcceptInv c key s.verifier s [] := fun h =>
    ⟨h, (UInt32.add_zero _).symm, by simp⟩
  refine ⟨fun n fail => ⟨hsent.accept_iff n fail, fun hacc => ?_⟩, fun es' hes hlen => ?_,
    fun hes hlen => ?_⟩
  · obtain ⟨p, hp, hbytes⟩ := hsent.accept_bytes hacc
    refine ⟨p, hp, hbytes, ?_⟩
    rw [hsent p (List.mem_of_getElem? hp), signedPdu, List.take_left' rfl]
  · have h := log_run (signAccept c key) (AcceptInv c key s.verifier)
      (fun _ _ _ h he => h.step he) (hinit hsent) (along_of_mem hes _)
    exact h.nodup hlen
  · have h := log_run (signAccept c key) (PrefixInv c key) (fun _ _ _ h he => h.step he)
      ⟨hinit hnil, ⟨rfl, by simp⟩, fun _ => ⟨le_rfl, rfl⟩⟩ (along_of_mem hes _)
    exact ⟨(h.log hlen).2, h.answer hlen⟩

/-- A function in the place of the CMAC that keeps the key and the front of
the message. -/
def Cmac.short : Cmac where
  mac key m := ((key ++ m).take 16).rightpad 16 0
  length_mac := by simp

/-- Two PDUs are signed and delivered, the second one twice. -/
def twoWrites : List SignEvent :=
  [.sign [1] false, .sign [2] false, .deliver 0 false, .deliver 1 false, .deliver 1 false]

theorem sign_verify_twoWrites :
    let s := run (signStep .short [7]) {} twoWrites
    let log := emitted (signStep .short [7]) (signAccept .short [7]) {} twoWrites
    log = [0, 1] ∧ log = List.range log.length ∧ (s.answer .short [7] 1 false).2 = false ∧
      (emitted (signStep .short [7]) (signAccept .short [7]) s twoWrites).Nodup := by
  obtain ⟨-, hnodup, hrange⟩ := sign_verify_run .short [7] twoWrites
  exact ⟨by decide, (hrange (by decide) (by decide)).1, by decide,
    hnodup twoWrites (by decide) (by decide)⟩

/-- **What is lost stops the later ones, and a restart brings back the
earlier.** The first of two PDUs is lost: the second, signed later than all
that were accepted, is rejected. And a PDU is accepted again once the
verifier was restarted. -/
theorem lost_pdu_blocks :
    (let s := run (signStep .short [7]) {} [.sign [1] false, .sign [2] false];
      s.sent.length = 2 ∧ s.verifier = 0 ∧ (s.answer .short [7] 1 false).2 = false) ∧
    emitted (signStep .short [7]) (signAccept .short [7]) {}
      [.sign [1] false, .deliver 0 false, .restartVerifier, .deliver 0 false] = [0, 0] := by
  decide

end Host

end OpenBlue
