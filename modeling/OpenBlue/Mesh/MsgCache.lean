import OpenBlue.Mesh.Model.MsgCache
import OpenBlue.Mesh.Relay
/-!
# Mesh — the message cache is a sliding window

Read from the newest place to the oldest, which is the order of the search, a
ring is a list of fixed length: an addition goes in front and pushes the last
entry out (`Ring.view_push`), and taking it back moves its place to the end
(`Ring.view_rewind`). So the cache is the window with unassigned places behind
it (`MsgView`), over any additions and any that are taken back. A PDU that is
taken back was looked for before it was added, so nothing it would match is
left.
-/

namespace OpenBlue

namespace Mesh

open List

variable {α : Type} {r : Ring α} {size : ℕ}

/-! ## A ring, from the newest place -/

/-- The places in the order of the search. -/
def Ring.view (r : Ring α) : List α :=
  (r.entries.take r.next).reverse ++ (r.entries.drop r.next).reverse

/-- A ring of `size` places, with `next` behind one of them or at 0. -/
structure Ring.Sized (size : ℕ) (r : Ring α) : Prop where
  length : r.entries.length = size
  next_le : r.next ≤ size

theorem Ring.search_eq (r : Ring α) (p : α → Bool) : r.search p = r.view.any p :=
  any_append.symm

theorem Ring.length_view (r : Ring α) : r.view.length = r.entries.length := by
  rw [Ring.view, length_append, length_reverse, length_reverse, ← length_append, take_append_drop]

theorem Ring.view_append (before after : List α) :
    Ring.view ⟨before ++ after, before.length⟩ = before.reverse ++ after.reverse := by
  rw [Ring.view, take_left, drop_left]

theorem Ring.view_wrap (h : r.Sized size) :
    r.view = Ring.view ⟨r.entries, r.next % r.entries.length⟩ := by
  have hlen := h.length
  have hle := h.next_le
  rcases Nat.lt_or_ge r.next r.entries.length with hlt | hge
  · rw [Nat.mod_eq_of_lt hlt]
  · have heq : r.next = r.entries.length := by omega
    rw [heq, Nat.mod_self, Ring.view, heq]
    simp [Ring.view]

/-- **An addition** goes in front, and the last entry out. -/
theorem Ring.view_push (h : r.Sized size) (hpos : 0 < size) (a : α) :
    (r.push a).view = a :: r.view.dropLast := by
  have hlen := h.length
  have hlt : r.next % r.entries.length < r.entries.length := Nat.mod_lt _ (by omega)
  obtain ⟨before, after, hsplit, hbefore, hset⟩ := exists_of_set hlt
  have hpush : r.push a = ⟨(before ++ [a]) ++ after, (before ++ [a]).length⟩ := by
    rw [Ring.push, hset, length_append, length_singleton, hbefore, append_assoc, singleton_append]
  have hold : r.view = Ring.view ⟨before ++ r.entries[r.next % r.entries.length] :: after,
      before.length⟩ := by
    rw [Ring.view_wrap h, hbefore, ← hsplit]
  rw [hpush, hold, Ring.view_append, Ring.view_append, reverse_append,
    @List.reverse_cons _ _ after, ← append_assoc before.reverse, dropLast_concat]
  rfl

theorem Ring.Sized.push (h : r.Sized size) (hpos : 0 < size) (a : α) :
    (r.push a).Sized size ∧ 0 < (r.push a).next := by
  have hlen := h.length
  have hlt : r.next % r.entries.length < r.entries.length := Nat.mod_lt _ (by omega)
  refine ⟨⟨?_, ?_⟩, Nat.succ_pos _⟩
  · rw [Ring.push, length_set, hlen]
  · show r.next % r.entries.length + 1 ≤ size
    omega

/-- **An addition taken back** leaves its place, marked, at the end. -/
theorem Ring.view_rewind (mark : α → α) (h : r.Sized size) (hnext : 0 < r.next) {a : α}
    {rest : List α} (hview : r.view = a :: rest) : (r.rewind mark).view = rest ++ [mark a] := by
  have hlen := h.length
  have hle := h.next_le
  obtain ⟨before, b, after, hsplit, hbefore, hmod⟩ :=
    exists_of_modify mark (by omega : r.next - 1 < r.entries.length)
  have hr : r = ⟨(before ++ [b]) ++ after, (before ++ [b]).length⟩ := by
    rw [append_assoc, singleton_append, ← hsplit, length_append,
      length_singleton, hbefore, Nat.sub_add_cancel hnext]
  rw [hr, Ring.view_append, reverse_append, reverse_singleton, singleton_append,
    cons_append] at hview
  obtain ⟨rfl, rfl⟩ := List.cons.inj hview
  rw [Ring.rewind, hmod, ← hbefore, Ring.view_append, reverse_cons, append_assoc]

theorem Ring.Sized.rewind (mark : α → α) (h : r.Sized size) : (r.rewind mark).Sized size := by
  have hle := h.next_le
  refine ⟨by rw [Ring.rewind, length_modify, h.length], ?_⟩
  show r.next - 1 ≤ size
  omega

/-! ## The window -/

/-- What is stored of an addition. -/
def Heard.stored (h : Heard) : ℕ × ℕ := (h.src % 2 ^ 15, h.seq % 2 ^ 17)

/-- The cache holds the window, and behind it places without a source. -/
structure MsgView (size : ℕ) (log : List Heard) (caches : NetCaches) : Prop where
  sized : caches.msg.Sized size
  view : ∃ free : List (ℕ × ℕ), caches.msg.view = (window size log).map Heard.stored ++ free ∧
    ∀ e ∈ free, e.1 = 0

theorem msgView_init (size : ℕ) (dup : Ring ℕ) :
    MsgView size [] ⟨dup, (netCachesInit size).msg⟩ := by
  refine ⟨⟨length_replicate, Nat.zero_le size⟩, List.replicate size (0, 0), ?_, ?_⟩
  · simp [netCachesInit, Ring.view, window]
  · intro e he
    rw [eq_of_mem_replicate he]

theorem window_take (size : ℕ) (log : List Heard) : (window size log).take (size - 1) =
      (log.filter (!·.rewound)).reverse.take (size - 1) := by
  rw [window, take_take]
  congr 1
  split <;> omega

theorem window_append (hpos : 0 < size) (log : List Heard) (h : Heard) : window size (log ++ [h]) =
      if h.rewound then (window size log).take (size - 1)
      else h :: (window size log).take (size - 1) := by
  have hsize : size = size - 1 + 1 := by omega
  rw [window_take, window, getLast?_concat, filter_append]
  cases hrew : h.rewound with
  | true => simp [hrew]
  | false =>
    simp only [hrew, filter_cons, filter_nil, reverse_append, Option.any_some]
    conv_lhs => rw [hsize]
    simp

/-- **What an addition leaves.** -/
theorem MsgView.hear {log : List Heard} {caches : NetCaches} (hv : MsgView size log caches)
    (hpos : 0 < size) (h : Heard) : MsgView size (log ++ [h]) (msgHear caches h) := by
  obtain ⟨free, hview, hfree⟩ := hv.view
  obtain ⟨hsized, hnext⟩ := hv.sized.push hpos h.stored
  -- The last place goes: of the window all but the one at `size` is kept.
  have hpush : (caches.msg.push h.stored).view = h.stored ::
      (((window size log).take (size - 1)).map Heard.stored ++
        free.take (size - 1 - (window size log).length)) := by
    have hlen := caches.msg.length_view
    rw [hv.sized.length] at hlen
    rw [Ring.view_push hv.sized hpos, dropLast_eq_take, hlen, hview, take_append,
      length_map, map_take]
  have hkept : ∀ e ∈ free.take (size - 1 - (window size log).length), e.1 = 0 :=
    fun e he => hfree e (mem_of_mem_take he)
  unfold msgHear
  split
  next hrew =>
    have hback := Ring.view_rewind (fun e => (0, e.2)) hsized hnext hpush
    rw [append_assoc] at hback
    refine ⟨hsized.rewind _,
      free.take (size - 1 - (window size log).length) ++ [(0, h.stored.2)], ?_, ?_⟩
    · rw [window_append hpos, if_pos hrew]
      exact hback
    · intro e he
      rcases mem_append.1 he with he | he
      · exact hkept e he
      · rw [mem_singleton.1 he]
  next hrew =>
    refine ⟨hsized, _, hpush.trans ?_, hkept⟩
    rw [window_append hpos, if_neg hrew, map_cons, cons_append]

/-- **The search finds the window**, for a header with a unicast source. -/
theorem MsgView.match_iff {log : List Heard} {caches : NetCaches} (hv : MsgView size log caches)
    {pdu : Bytes} (hsrc : isUnicast (srcOf pdu) = true) :
    msgCacheMatch pdu caches = true ↔ ∃ a ∈ window size log, a.Matches pdu := by
  obtain ⟨free, hview, hfree⟩ := hv.view
  have hstored : ∀ a : Heard, a.stored.1 = a.src := fun a => Nat.mod_eq_of_lt a.src_lt
  obtain ⟨hpos, -⟩ := Bool.and_eq_true_iff.1 hsrc
  have hne : srcOf pdu ≠ 0 := Nat.pos_iff_ne_zero.1 (of_decide_eq_true hpos)
  rw [msgCacheMatch, Ring.search_eq, hview, any_eq_true]
  constructor
  · rintro ⟨e, he, heq⟩
    obtain ⟨hsrc', hseq⟩ := Bool.and_eq_true_iff.1 heq
    rcases mem_append.1 he with he | he
    · obtain ⟨a, ha, rfl⟩ := mem_map.1 he
      exact ⟨a, ha, (hstored a).symm.trans (beq_iff_eq.1 hsrc'), beq_iff_eq.1 hseq⟩
    · exact absurd ((beq_iff_eq.1 hsrc').symm.trans (hfree e he)) hne
  · rintro ⟨a, ha, hsrc', hseq⟩
    refine ⟨a.stored, mem_append_left _ (mem_map_of_mem ha), ?_⟩
    rw [Bool.and_eq_true_iff, beq_iff_eq, beq_iff_eq]
    exact ⟨(hstored a).trans hsrc', hseq⟩

/-! ## Reception -/

variable {crypto : NetCrypto} {cfg : PduCfg} {node : NetNode} {netIf : NetIf} {pdu : Bytes}
  {caches : NetCaches} {rx : Decoded}

/-- **Decoding, on the caches.** An error leaves the message cache; a PDU that
is decoded is added to it, and came past `check_dup` if it was advertised. -/
theorem decode_cases (crypto : NetCrypto) (cfg : PduCfg) (node : NetNode) (netIf : NetIf)
    (pdu : Bytes) (caches : NetCaches) :
    (∃ caches' err, btMeshNetDecode crypto cfg node netIf pdu caches = (caches', .error err) ∧
      caches'.msg = caches.msg) ∨ ∃ caches' rx, btMeshNetDecode crypto cfg node netIf pdu caches =
        (msgCacheAdd rx.rx.addr rx.rx.seq caches', .ok rx) ∧
      caches'.msg = caches.msg ∧ rx.rx.netIf = netIf ∧
      (netIf = .adv → caches.dup.search (· == dupValue pdu) = false ∧
        caches'.dup = caches.dup.push (dupValue pdu)) := by
  have hfirst : ∃ caches' dup,
      (if netIf = .adv then checkDup pdu caches else (caches, false)) = (caches', dup) ∧
      caches'.msg = caches.msg ∧
      (dup = false → netIf = .adv → caches.dup.search (· == dupValue pdu) = false ∧
        caches'.dup = caches.dup.push (dupValue pdu)) := by
    by_cases hadv : netIf = .adv
    · rw [if_pos hadv, checkDup]
      split
      · exact ⟨caches, true, rfl, rfl, fun h => Bool.noConfusion h⟩
      next hnew => exact ⟨_, false, rfl, rfl, fun _ _ => ⟨Bool.not_eq_true _ ▸ hnew, rfl⟩⟩
    · rw [if_neg hadv]
      exact ⟨caches, false, rfl, rfl, fun _ h => absurd h hadv⟩
  obtain ⟨caches', dup, hcheck, hmsg, hdup⟩ := hfirst
  unfold btMeshNetDecode
  split
  · exact .inl ⟨caches, .inval, rfl, rfl⟩
  split
  · exact .inl ⟨caches, .inval, rfl, rfl⟩
  rw [hcheck]
  dsimp only
  split
  · exact .inl ⟨caches', .inval, rfl, hmsg⟩
  next hpass =>
    split
    · exact .inl ⟨caches', .noent, rfl, hmsg⟩
    next c o hfind =>
      split
      · exact .inl ⟨caches', .badmsg, rfl, hmsg⟩
      · exact .inr ⟨caches', decodedOf netIf c o, rfl, hmsg, rfl, hdup (Bool.not_eq_true _ ▸ hpass)⟩

/-- **An advertised PDU that is decoded was not in the message cache.** -/
theorem unheard_of_decode (hlaw : crypto.Lawful)
    (h : (btMeshNetDecode crypto cfg node .adv pdu caches).2 = .ok rx) {again : Bytes}
    (hsame : (rx.heard true).Matches again) : msgCacheMatch again caches = false := by
  obtain ⟨hmin, c, o, hfind, rfl⟩ := found_of_decode h
  have hdec := netDecrypt_of_find hfind
  have hlen : 7 ≤ pdu.length := le_trans (by decide) hmin
  unfold netDecrypt at hdec
  split at hdec
  · cases hdec
  obtain ⟨out, hobf, hdec⟩ := Option.bind_eq_some_iff.mp hdec
  obtain ⟨-, hlenOut, -⟩ := obfuscate_spec hlaw hlen hobf
  split at hdec
  next hsrc =>
    split at hdec
    · cases hdec
    split at hdec
    · cases hdec
    next hnew =>
    obtain ⟨clear, hclear, rfl⟩ := Option.map_eq_some_iff.mp hdec
    have htake := take_of_decrypt (by omega) hclear
    have hseq : seqOf clear = seqOf out := by
      rw [seqOf, seqOf, slice_of_take htake (by decide)]
    obtain ⟨hsrc', hseq'⟩ := hsame
    have hsrc'' : srcOf out = srcOf again := hsrc'
    have hseq'' : seqOf clear % 2 ^ 17 = seqOf again % 2 ^ 17 := hseq'
    have hnot : msgCacheMatch out caches = false := by simpa using hnew
    rw [← hnot, msgCacheMatch, msgCacheMatch, ← hsrc'', ← hseq'', hseq]
  · cases hdec

theorem MsgView.congr {log : List Heard} {caches' : NetCaches} (hv : MsgView size log caches)
    (h : caches'.msg = caches.msg) : MsgView size log caches' :=
  ⟨h ▸ hv.sized, h ▸ hv.view⟩

/-- **A step keeps the view**, with what it adds behind the log. -/
theorem msgView_step (hpos : 0 < size) (caches : NetCaches) (e : CacheEvent) (log : List Heard)
    (hv : MsgView size log caches) :
    MsgView size (log ++ cacheHeard crypto cfg caches e) (cacheStep crypto cfg caches e) := by
  cases e with
  | recv env netIf pdu =>
    simp only [cacheStep, cacheHeard, netRecvCaches]
    split
    · rwa [append_nil]
    obtain ⟨caches', err, hdec, hmsg⟩ | ⟨caches', rx, hdec, hmsg, hif, -⟩ :=
      decode_cases crypto cfg env.node netIf pdu caches
    · rw [hdec]
      dsimp only
      rw [append_nil]
      exact hv.congr hmsg
    · rw [hdec]
      dsimp only
      have hadd := (hv.congr hmsg).hear hpos (rx.heard (transAgain cfg env rx))
      split
      next hproxy =>
        -- Only an advertised PDU is taken back, and this one came over a proxy.
        have hkeep : transAgain cfg env rx = false := by
          have hproxy' : netIf = .proxy := by
            simp only [Bool.and_eq_true, beq_iff_eq] at hproxy
            exact hproxy.1.1.2
          rw [transAgain, hif, hproxy', show (NetIf.proxy == NetIf.adv) = false from rfl,
            Bool.and_false, Bool.false_and]
        rw [hkeep] at hadd ⊢
        exact hadd
      · split
        next hagain =>
          rw [hagain] at hadd ⊢
          exact hadd.congr rfl
        next hkeep =>
          rw [Bool.not_eq_true] at hkeep
          rw [hkeep] at hadd ⊢
          exact hadd
  | proxyCfg node pdu =>
    simp only [cacheStep, cacheHeard]
    obtain ⟨caches', err, hdec, hmsg⟩ | ⟨caches', rx, hdec, hmsg, -, -⟩ :=
      decode_cases crypto cfg node .proxyCfg pdu caches
    · rw [hdec]
      dsimp only
      rw [append_nil]
      exact hv.congr hmsg
    · rw [hdec]
      exact (hv.congr hmsg).hear hpos (rx.heard false)

theorem cacheHeard_eq_singleton {e : CacheEvent} {a : Heard}
    (ha : a ∈ cacheHeard crypto cfg caches e) : cacheHeard crypto cfg caches e = [a] := by
  cases e with
  | recv env netIf pdu =>
    rw [cacheHeard] at ha ⊢
    split at ha
    · exact absurd ha not_mem_nil
    next hprov =>
      rw [if_neg hprov]
      split at ha
      · exact absurd ha not_mem_nil
      · rw [mem_singleton.1 ha]
  | proxyCfg node pdu =>
    rw [cacheHeard] at ha ⊢
    split at ha
    · exact absurd ha not_mem_nil
    · rw [mem_singleton.1 ha]

/-- **What is taken back** was not in the message cache. -/
theorem unheard_of_rewound (hlaw : crypto.Lawful) {e : CacheEvent} {a : Heard}
    (ha : a ∈ cacheHeard crypto cfg caches e) (hrew : a.rewound = true) {again : Bytes}
    (hsame : a.Matches again) : msgCacheMatch again caches = false := by
  cases e with
  | recv env netIf pdu =>
    rw [cacheHeard] at ha
    split at ha
    · exact absurd ha not_mem_nil
    split at ha
    · exact absurd ha not_mem_nil
    next rx hdec =>
      obtain rfl := mem_singleton.1 ha
      have hagain : transAgain cfg env rx = true := hrew
      have hadv : rx.rx.netIf = .adv := by
        simp only [transAgain, Bool.and_eq_true, beq_iff_eq] at hagain
        exact hagain.1.2
      obtain ⟨-, c, o, -, heq⟩ := found_of_decode hdec
      have hif : netIf = .adv := by
        rw [← hadv, heq]
        rfl
      rw [hif] at hdec
      exact unheard_of_decode hlaw hdec hsame
  | proxyCfg node pdu =>
    rw [cacheHeard] at ha
    split at ha
    · exact absurd ha not_mem_nil
    · obtain rfl := mem_singleton.1 ha
      exact nomatch hrew

theorem Heard.Matches.unicast {a : Heard} (h : a.Matches pdu) : isUnicast (srcOf pdu) = true := by
  rw [← h.1, isUnicast, Bool.and_eq_true]
  exact ⟨decide_eq_true a.src_pos, decide_eq_true a.src_lt⟩

/-- **The message cache is an exact sliding window.** Over any additions, and
any of them taken back at once, the search answers for the last `size` that
were kept. Over any run of reception the same holds of what it added; and
where the transport layer sends a PDU back, a copy of it is not found, while
every header of the window is, but for the oldest where the window was full. -/
theorem msgCache_window (hlaw : crypto.Lawful) (cfg : PduCfg) (hpos : 0 < size) (dup : Ring ℕ) :
    (∀ (log : List Heard) (pdu : Bytes), isUnicast (srcOf pdu) = true →
      (msgCacheMatch pdu (log.foldl msgHear ⟨dup, (netCachesInit size).msg⟩) = true ↔
        ∃ a ∈ window size log, a.Matches pdu)) ∧
    ∀ (es : List CacheEvent) (caches : NetCaches) (log : List Heard),
      caches = run (cacheStep crypto cfg) ⟨dup, (netCachesInit size).msg⟩ es →
      log = emitted (cacheStep crypto cfg) (cacheHeard crypto cfg)
        ⟨dup, (netCachesInit size).msg⟩ es →
      (∀ pdu : Bytes, isUnicast (srcOf pdu) = true →
        (msgCacheMatch pdu caches = true ↔ ∃ a ∈ window size log, a.Matches pdu)) ∧
      ∀ (e : CacheEvent) (a : Heard), a ∈ cacheHeard crypto cfg caches e → a.rewound = true →
        (∀ pdu : Bytes, a.Matches pdu →
          msgCacheMatch pdu (cacheStep crypto cfg caches e) = false) ∧
        ∀ pdu : Bytes, isUnicast (srcOf pdu) = true →
          (msgCacheMatch pdu (cacheStep crypto cfg caches e) = true ↔
            ∃ b ∈ (window size log).take (size - 1), b.Matches pdu) := by
  constructor
  · intro log pdu hsrc
    refine MsgView.match_iff ?_ hsrc
    exact history_run (fun caches log => MsgView size log caches)
      (fun caches h log hv => hv.hear hpos h) (msgView_init size dup) log
  · intro es caches log hcaches hlog
    have hv := log_run (cacheHeard crypto cfg) (fun caches log => MsgView size log caches)
      (fun caches e log hv _ => msgView_step hpos caches e log hv) (msgView_init size dup)
      (along_of_forall (fun _ _ => (trivial : True)) _ es)
    rw [List.nil_append, ← hcaches, ← hlog] at hv
    refine ⟨fun pdu hsrc => hv.match_iff hsrc, fun e a ha hrew => ?_⟩
    have hstep : MsgView size (log ++ cacheHeard crypto cfg caches e)
        (cacheStep crypto cfg caches e) := msgView_step hpos caches e log hv
    rw [cacheHeard_eq_singleton ha] at hstep
    have hiff : ∀ pdu : Bytes, isUnicast (srcOf pdu) = true →
        (msgCacheMatch pdu (cacheStep crypto cfg caches e) = true ↔
          ∃ b ∈ (window size log).take (size - 1), b.Matches pdu) := by
      intro pdu hsrc
      rw [hstep.match_iff hsrc, window_append hpos, if_pos hrew]
    refine ⟨fun pdu hsame => ?_, hiff⟩
    rw [← Bool.not_eq_true, hiff pdu hsame.unicast]
    rintro ⟨b, hb, hmatch⟩
    have hfound := (hv.match_iff hsame.unicast).2 ⟨b, List.mem_of_mem_take hb, hmatch⟩
    rw [unheard_of_rewound hlaw ha hrew hsame] at hfound
    exact nomatch hfound

/-- The sample, advertised to a node in a friendship that did not ask for it. -/
def sampleRefused : CacheEvent :=
  .recv { node := (sampleTransmission false true [sampleCred]).node, lpnEstablished := true } .adv
    (sampleTransmission false true [sampleCred]).pdu

theorem msgCache_window_sample :
    cacheHeard (sampleCrypto false) { lowPower := true } (netCachesInit 2) sampleRefused =
        [{ src := 0x1201, seq := 1, rewound := true }] ∧
      msgCacheMatch [0x68, 0x80, 0x00, 0x00, 0x01, 0x12, 0x01]
        (cacheStep (sampleCrypto false) { lowPower := true } (netCachesInit 2) sampleRefused) =
          false := by
  have hheard : cacheHeard (sampleCrypto false) { lowPower := true } (netCachesInit 2)
      sampleRefused = [{ src := 0x1201, seq := 1, rewound := true }] := rfl
  have hmem : { src := 0x1201, seq := 1, rewound := true } ∈
      cacheHeard (sampleCrypto false) { lowPower := true } (netCachesInit 2) sampleRefused := by
    rw [hheard]
    exact List.mem_singleton_self _
  exact ⟨hheard, (((msgCache_window (sampleCrypto_lawful false) { lowPower := true }
    (by decide : 0 < 2) (netCachesInit 2).dup).2 [] _ _ rfl rfl).2 sampleRefused _ hmem rfl).1 _
      (by decide)⟩

end Mesh

end OpenBlue
