import OpenBlue.Sdp.SearchAtt
/-!
# SDP — requests of any bytes

Whatever bytes a request is made of, its handling comes to an end without
a fault: every pull is behind a check of what remains, every turn of a loop
takes something, and the nesting of the records is within the limit of the
recursion. What a request can break is the index it goes on from, which is
not held against the attribute. A PDU too short for its header is dropped;
every other one is answered once, with its transaction.
-/

namespace OpenBlue

namespace Sdp

open List

variable {α β : Type}

/-- No fault: a result as said, or a request that is turned down. -/
def Answers (x : Except Stop α) (Q : α → Prop) : Prop :=
  match x with
  | .ok a => Q a
  | .error (.invalid _) => True
  | .error (.fault _) => False

/-- No fault of what takes bytes off a request. -/
def Reads (m : Parse α) (buf : Bytes) (Q : α → Bytes → Prop) : Prop :=
  Answers (m buf) fun x => Q x.1 x.2

variable {x : Except Stop α} {f : α → Except Stop β} {P Q : α → Prop} {R : β → Prop}
  {m : Parse α} {buf : Bytes}

theorem Answers.mono (h : Answers x P) (himp : ∀ a, P a → Q a) : Answers x Q := by
  match x, h with
  | .ok a, h => exact himp a h
  | .error (.invalid _), _ => trivial

theorem Answers.bind (h : Answers x P) (hf : ∀ a, P a → Answers (f a) R) : Answers (x >>= f) R := by
  match x, h with
  | .ok a, h => exact hf a h
  | .error (.invalid _), _ => trivial

theorem Reads.bind {f : α → Parse β} {Q : α → Bytes → Prop} {R : β → Bytes → Prop}
    (h : Reads m buf Q) (hf : ∀ a rest, Q a rest → Reads (f a) rest R) : Reads (m >>= f) buf R :=
  Answers.bind h fun x hx => hf x.1 x.2 hx

theorem reads_pure {a : α} {Q : α → Bytes → Prop} (h : Q a buf) :
    Reads (pure a : Parse α) buf Q := h

theorem reads_invalid {err : ℕ} {Q : α → Bytes → Prop} :
    Reads (throw (.invalid err) : Parse α) buf Q := trivial

theorem reads_remaining : Reads remaining buf fun n rest => n = buf.length ∧ rest = buf :=
  ⟨rfl, rfl⟩

theorem reads_check {ok : Bool} {err : ℕ} :
    Reads (check ok (.invalid err)) buf fun _ rest => ok = true ∧ rest = buf := by
  cases ok with
  | false => trivial
  | true => exact ⟨rfl, rfl⟩

theorem reads_pull {n : ℕ} (h : n ≤ buf.length) :
    Reads (pull n) buf fun bs rest => bs = buf.take n ∧ rest = buf.drop n := by
  rw [Reads, pull, if_neg (Nat.not_lt.mpr h)]
  exact ⟨rfl, rfl⟩

theorem beNat_lt (bs : Bytes) : beNat bs < 256 ^ bs.length := by
  rw [beNat, ← length_reverse]
  exact leNat_lt bs.reverse

theorem reads_pullBe {n : ℕ} (h : n ≤ buf.length) :
    Reads (pullBe n) buf fun v rest => v < 256 ^ n ∧ rest = buf.drop n := by
  rw [pullBe]
  refine (reads_pull h).bind ?_
  rintro _ _ ⟨rfl, rfl⟩
  have hlt := beNat_lt (buf.take n)
  rw [length_take, min_eq_left h] at hlt
  exact reads_pure ⟨hlt, rfl⟩

theorem Reads.checked {n err : ℕ} {f : Unit → Parse β} {R : β → Bytes → Prop}
    (hf : n ≤ buf.length → Reads (f ()) buf R) :
    Reads (remaining >>= fun len => check (n ≤ len) (.invalid err) >>= f) buf R := by
  refine reads_remaining.bind ?_
  rintro _ _ ⟨rfl, rfl⟩
  refine reads_check.bind ?_
  rintro _ _ ⟨hle, rfl⟩
  exact hf (of_decide_eq_true hle)

/-! ## Data elements and lists of them -/

/-- **A data element takes a byte at least**, and its data remains. -/
theorem reads_parseDataElem (buf : Bytes) : Reads parseDataElem buf fun elem rest =>
      elem.dataSize ≤ rest.length ∧ rest.length < buf.length := by
  rw [parseDataElem, invalidSyntax]
  refine Reads.checked fun hlen => ?_
  refine (reads_pullBe hlen).bind ?_
  rintro type _ ⟨-, rfl⟩
  have htail : (buf.drop 1).length + 1 = buf.length := by
    rw [length_drop]
    omega
  dsimp only
  split
  · refine Reads.checked fun hdata => ?_
    exact reads_pure ⟨hdata, by omega⟩
  split
  · refine Reads.checked fun hsize => ?_
    refine reads_check.bind ?_
    rintro _ _ ⟨-, rfl⟩
    refine (reads_pullBe hsize).bind ?_
    rintro dataSize _ ⟨-, rfl⟩
    refine Reads.checked fun hdata => ?_
    have hrest := length_drop (i := sizeFieldLen type) (l := buf.drop 1)
    exact reads_pure ⟨hdata, by omega⟩
  · exact reads_invalid

theorem reads_checkPattern {turns uuidCount : ℕ} (h : buf.length < turns) :
    Reads (checkPattern turns uuidCount) buf fun _ _ => True := by
  induction turns generalizing buf uuidCount with
  | zero => exact absurd h (Nat.not_lt_zero _)
  | succ turns ih =>
    rw [checkPattern, invalidSyntax]
    refine reads_remaining.bind ?_
    rintro _ _ ⟨rfl, rfl⟩
    split
    · exact reads_pure trivial
    refine (reads_parseDataElem _).bind ?_
    rintro elem rest ⟨hdata, hless⟩
    refine reads_check.bind ?_
    rintro _ _ ⟨-, rfl⟩
    refine Reads.checked fun _ => ?_
    refine reads_check.bind ?_
    rintro _ _ ⟨-, rfl⟩
    refine (reads_pull hdata).bind ?_
    rintro _ _ ⟨-, rfl⟩
    refine reads_check.bind ?_
    rintro _ _ ⟨-, rfl⟩
    refine ih ?_
    rw [length_drop]
    omega

theorem reads_parseServiceSearchPattern (buf : Bytes) :
    Reads parseServiceSearchPattern buf fun _ _ => True := by
  rw [parseServiceSearchPattern, invalidSyntax]
  refine (reads_parseDataElem buf).bind ?_
  rintro elem rest ⟨hdata, -⟩
  refine reads_check.bind ?_
  rintro _ _ ⟨-, rfl⟩
  refine Reads.checked fun _ => ?_
  refine (reads_pull hdata).bind ?_
  rintro ssp _ ⟨-, rfl⟩
  have hpattern := @reads_checkPattern ssp (ssp.length + 1) 0 (Nat.lt_succ_self _)
  rw [Reads] at hpattern
  generalize checkPattern (ssp.length + 1) 0 ssp = result at hpattern
  match result, hpattern with
  | .ok _, _ => exact reads_pure trivial
  | .error (.invalid _), _ => exact reads_invalid

theorem reads_attSearchList {turns size : ℕ} {filter : List ℕ} (h : buf.length < turns) :
    Reads (attSearchList turns size filter) buf fun _ _ => True := by
  induction turns generalizing buf size filter with
  | zero => exact absurd h (Nat.not_lt_zero _)
  | succ turns ih =>
    rw [attSearchList, invalidSyntax]
    split
    · exact reads_pure trivial
    split
    · exact reads_pure trivial
    refine (reads_parseDataElem buf).bind ?_
    rintro elem rest ⟨hdata, hless⟩
    refine reads_check.bind ?_
    rintro _ _ ⟨-, rfl⟩
    refine Reads.checked fun _ => ?_
    split
    next htwo =>
      refine (reads_pullBe (htwo ▸ hdata)).bind ?_
      rintro id _ ⟨-, rfl⟩
      refine ih ?_
      rw [length_drop]
      omega
    split
    next hfour =>
      refine (reads_pullBe (hfour ▸ hdata)).bind ?_
      rintro range _ ⟨-, rfl⟩
      refine ih ?_
      rw [length_drop]
      omega
    · exact ih (by omega)

theorem reads_getAttSearchList (buf : Bytes) : Reads getAttSearchList buf fun _ _ => True := by
  rw [getAttSearchList]
  refine (reads_parseDataElem buf).bind ?_
  rintro elem rest -
  refine reads_remaining.bind ?_
  rintro _ _ ⟨rfl, rfl⟩
  exact reads_attSearchList (Nat.lt_succ_self _)

theorem reads_pullCont {size : ℕ} {cont : Parse α}
    (h : ∀ rest : Bytes, size ≤ rest.length → Reads cont rest fun a _ => P a) :
    Reads (pullCont size cont) buf fun c _ => ∀ a ∈ c, P a := by
  rw [pullCont, invalidSyntax, invalidCstate]
  refine Reads.checked fun hlen => ?_
  refine (reads_pullBe hlen).bind ?_
  rintro contStateSize rest ⟨-, rfl⟩
  split
  · exact reads_pure nofun
  refine reads_check.bind ?_
  rintro _ _ ⟨hsize, rfl⟩
  refine Reads.checked fun hle => ?_
  rw [of_decide_eq_true hsize] at hle
  refine (h _ hle).bind fun a _ ha => reads_pure fun a' ha' => ?_
  exact Option.some.inj ha' ▸ ha

/-! ## The pattern and the records -/

theorem searchElems_answers {search : DataElem → Except Stop (Bool × ℕ)} {elems : List DataElem}
    {seqSize : ℕ} (hne : elems ≠ []) (hsum : (elems.map DataElem.totalSize).sum = seqSize)
    (hlt : seqSize < 2 ^ 32) (hpos : ∀ elem ∈ elems, 0 < elem.totalSize)
    (h : ∀ elem ∈ elems, Answers (search elem) fun x => x.1 = false → x.2 = elem.totalSize) :
    Answers (searchElems search elems seqSize) fun _ => True := by
  induction elems generalizing seqSize with
  | nil => exact absurd rfl hne
  | cons elem elems ih =>
    rw [forall_mem_cons] at hpos h
    rw [map_cons, sum_cons] at hsum
    rw [searchElems]
    refine h.1.bind ?_
    rintro ⟨found, size⟩ hsize
    dsimp only
    split
    · trivial
    next hfound =>
      have hsub : sub32 seqSize size = (elems.map DataElem.totalSize).sum := by
        have hall : size = elem.totalSize := hsize (Bool.eq_false_iff.mpr hfound)
        rw [hall, sub32]
        omega
      rw [hsub]
      split
      · trivial
      next hrest =>
        refine ih (fun hnil => hrest ?_) rfl (by omega) hpos.2 h.2
        rw [hnil]
        rfl

theorem SizesOk.dataSize_lt {type dataSize totalSize : ℕ} (h : SizesOk type dataSize totalSize) :
    dataSize < 2 ^ 32 := by
  have hdesc := sizeDesc_lt type
  have hnumber : sizeDesc type ≤ 4 → 2 ^ sizeDesc type < 2 ^ 32 := fun hle =>
    Nat.pow_lt_pow_right (by decide) (by omega)
  rw [SizesOk] at h
  split at h
  · rw [h.2.1]
    exact hnumber h.1
  split at h
  · obtain ⟨hmem, hsize, -⟩ := h
    rw [hsize]
    simp only [mem_cons, not_mem_nil, or_false] at hmem
    exact hnumber (by omega)
  split at h
  · omega
  · obtain ⟨-, hge, hlt, -⟩ := h
    refine lt_of_lt_of_le hlt ?_
    calc 256 ^ 2 ^ (sizeDesc type - 5) ≤ 256 ^ 2 ^ 2 :=
          Nat.pow_le_pow_right (by decide) (Nat.pow_le_pow_right (by decide) (by omega))
      _ = 2 ^ 32 := by decide

/-- **A well-formed element is searched** to the end of it. -/
theorem searchUuid_answers {uuid levels : ℕ} {elem : DataElem} (hok : elem.Ok levels) :
    Answers (searchUuid uuid levels elem) fun x => x.1 = false → x.2 = elem.totalSize := by
  induction levels generalizing elem with
  | zero => exact hok.elim
  | succ levels ih =>
    rw [searchUuid]
    cases elem with
    | value type dataSize totalSize data =>
      obtain ⟨hsizes, hseq, halt, hdata⟩ := hok
      have hdata' : ¬ data.length < dataSize := by omega
      by_cases huuid : typeDesc type = uuidUnspec
      · simp only [DataElem.type, DataElem.bytes, DataElem.dataSize, huuid, if_true, hdata',
          if_false, hsizes.uuid huuid]
        exact fun _ => rfl
      · simp only [DataElem.type, huuid, hseq, halt, or_self, if_false]
        exact fun _ => rfl
    | list type dataSize totalSize data =>
      obtain ⟨hsizes, hseq, hne, hsum, hdata⟩ := hok
      have huuid : typeDesc type ≠ uuidUnspec := by
        obtain hseq | hseq := hseq
        all_goals
          rw [hseq]
          decide
      simp only [DataElem.type, DataElem.elems, DataElem.dataSize, huuid, hseq, if_true, if_false]
      refine (searchElems_answers hne hsum hsizes.dataSize_lt
        (fun e he => (hdata e he).totalSize_pos) fun e he => ih (hdata e he)).bind ?_
      intro found _
      split
      · intro h
        cases h
      · exact fun _ => rfl

theorem searchAttrs_answers {uuid : ℕ} {attrs : List Attribute}
    (h : ∀ attr ∈ attrs, attr.val.Ok (nestLevelMax - 1)) :
    Answers (searchAttrs uuid attrs) fun _ => True := by
  induction attrs with
  | nil => trivial
  | cons attr attrs ih =>
    rw [forall_mem_cons] at h
    rw [searchAttrs]
    refine (searchUuid_answers h.1).bind ?_
    rintro ⟨found, size⟩ -
    dsimp only
    split
    · trivial
    · exact ih h.2

theorem patternMatched_answers {rec : Record} {turns : ℕ} (hok : rec.Ok)
    (h : buf.length < turns) : Answers (patternMatched rec turns buf) fun _ => True := by
  induction turns generalizing buf with
  | zero => exact absurd h (Nat.not_lt_zero _)
  | succ turns ih =>
    rw [patternMatched]
    split
    · trivial
    have helem := reads_parseDataElem buf
    rw [Reads] at helem
    generalize parseDataElem buf = result at helem
    match result, helem with
    | .error (.invalid _), _ => trivial
    | .ok (elem, rest), helem =>
      obtain ⟨-, hless⟩ := helem
      dsimp only at hless ⊢
      have hdrop : (rest.drop elem.dataSize).length < turns := by
        rw [length_drop]
        omega
      split
      · trivial
      split
      · refine (searchAttrs_answers fun attr hattr => (hok attr hattr).2).bind ?_
        intro found _
        split
        · trivial
        · exact ih hdrop
      · exact ih hdrop

theorem Registered.index {db : List Record} (h : Registered db) :
    db.length ≤ 256 ∧ db.map Record.index = List.range db.length := by
  induction h with
  | nil => exact ⟨Nat.zero_le _, rfl⟩
  | @register db db' service hdb hregister ih =>
    rw [registerService] at hregister
    split at hregister
    next hlast =>
      obtain rfl := Option.some.inj hregister
      suffices hnext : nextIndex db = db.length ∧ db.length < 256 by
        rw [length_append, map_append, length_singleton, ih.2, range_succ, hnext.1]
        exact ⟨by omega, rfl⟩
      obtain rfl | ⟨front, last, rfl⟩ := eq_nil_or_concat' db
      · exact ⟨rfl, by decide⟩
      · obtain ⟨hlength, hindex⟩ := ih
        rw [length_append, length_singleton] at hlength hindex ⊢
        rw [map_append, range_succ] at hindex
        have hat : last.index = front.length :=
          singleton_inj.mp (append_inj_right' hindex rfl)
        have hnext : nextIndex (front ++ [last]) = (last.index + 1) % 256 := by
          rw [nextIndex, getLast?_concat]
        have hle := hlast last (by rw [getLast?_concat]; rfl)
        rw [hnext] at hle ⊢
        omega
    next => nomatch hregister

theorem Registered.pairwise {db : List Record} (h : Registered db) :
    db.Pairwise fun a b => a.index ≠ b.index := by
  have hnodup : (db.map Record.index).Nodup := by
    rw [h.index.2]
    exact nodup_range
  exact pairwise_map.mp hnodup

/-! ## The requests -/

variable {srv : Server}

/-- The records of the server are small enough for its counts. -/
def Server.Small (srv : Server) : Prop := ∀ rec ∈ srv.db, rec.Small

theorem Server.mtu_le (hmin : 48 ≤ srv.mtu) : 48 ≤ min sdpMtu srv.mtu := le_min (by decide) hmin

theorem reads_parseAttReq (buf : Bytes) :
    Reads parseAttReq buf fun req _ => req.maxAttLen < 2 ^ 16 ∧ ∀ c ∈ req.cont, c.1 ≤ 255 := by
  rw [parseAttReq, invalidSyntax]
  refine Reads.checked fun hlen => ?_
  refine (reads_pullBe (n := 4) (by omega)).bind ?_
  rintro svcRecHdl _ ⟨-, rfl⟩
  refine (reads_pullBe (n := 2) (by rw [length_drop]; omega)).bind ?_
  rintro maxAttLen _ ⟨hmax, rfl⟩
  refine reads_check.bind ?_
  rintro _ _ ⟨-, rfl⟩
  refine (reads_getAttSearchList _).bind ?_
  rintro filter rest -
  refine (reads_pullCont (P := fun c => c.1 ≤ 255) fun rest hrest => ?_).bind
    fun c _ hc => reads_pure ⟨hmax, hc⟩
  refine (reads_pullBe (n := 1) (by rw [saContStateSize] at hrest; omega)).bind ?_
  rintro lastAtt _ ⟨hatt, rfl⟩
  refine (reads_pullBe (n := 4) (by
    rw [saContStateSize] at hrest
    rw [length_drop]
    omega)).bind ?_
  rintro lastAttIndex _ ⟨-, rfl⟩
  exact reads_pure (Nat.le_of_lt_succ hatt)

theorem reads_parseSearchAttReq (buf : Bytes) : Reads parseSearchAttReq buf fun req _ =>
      req.maxAttLen < 2 ^ 16 ∧ 7 ≤ req.maxAttLen ∧ ∀ c ∈ req.cont, c.2.1 ≤ 255 := by
  rw [parseSearchAttReq, invalidSyntax]
  refine (reads_parseServiceSearchPattern buf).bind ?_
  rintro ssp rest -
  refine Reads.checked fun hlen => ?_
  refine (reads_pullBe (n := 2) hlen).bind ?_
  rintro maxAttLen _ ⟨hmax, rfl⟩
  refine reads_check.bind ?_
  rintro _ _ ⟨hle, rfl⟩
  refine (reads_getAttSearchList _).bind ?_
  rintro filter rest' -
  refine (reads_pullCont (P := fun c => c.2.1 ≤ 255) fun rest hrest => ?_).bind
    fun c _ hc => reads_pure ⟨hmax, of_decide_eq_true hle, hc⟩
  rw [ssaContStateSize] at hrest
  refine (reads_pullBe (n := 1) (by omega)).bind ?_
  rintro currentSvc _ ⟨-, rfl⟩
  refine (reads_pullBe (n := 1) (by rw [length_drop]; omega)).bind ?_
  rintro lastAtt _ ⟨hatt, rfl⟩
  refine (reads_pullBe (n := 4) (by rw [length_drop, length_drop]; omega)).bind ?_
  rintro lastAttIndex _ ⟨-, rfl⟩
  exact reads_pure (Nat.le_of_lt_succ hatt)

theorem reads_parseSearchReq (buf : Bytes) : Reads parseSearchReq buf fun _ _ => True := by
  rw [parseSearchReq, invalidSyntax]
  refine (reads_parseServiceSearchPattern buf).bind ?_
  rintro ssp rest -
  refine Reads.checked fun hlen => ?_
  refine (reads_pullBe (n := 2) (by omega)).bind ?_
  rintro maxRecCount _ ⟨-, rfl⟩
  refine (reads_pullCont (P := fun _ => True) fun rest hrest => ?_).bind
    fun c _ _ => reads_pure trivial
  rw [ssContStateSize] at hrest
  refine (reads_pullBe (n := 1) (by omega)).bind ?_
  rintro contRecs _ ⟨-, rfl⟩
  refine (reads_pullBe (n := 2) (by rw [length_drop]; omega)).bind ?_
  rintro totalRecs _ ⟨-, rfl⟩
  exact reads_pure trivial

@[simp] theorem length_be16 (n : ℕ) : (be16 n).length = 2 := rfl

@[simp] theorem length_be32 (n : ℕ) : (be32 n).length = 4 := rfl

/-- The index that an attribute request goes on from is inside the
attribute. -/
def AttReq.Inside (srv : Server) (req : AttReq) : Prop :=
  ∀ c ∈ req.cont, ∀ rec ∈ srv.db.find? fun rec => rec.handle = req.svcRecHdl,
    Sdp.Inside req.filter (rec.attrs.drop c.1) c.2

/-- The index that a search goes on from is inside the attribute. -/
def SearchAttReq.Inside (srv : Server) (req : SearchAttReq) : Prop :=
  ∀ c ∈ req.cont, ∀ rec ∈ srv.db, rec.index = c.1 →
    serviceSearchPatternMatched req.ssp rec = .ok true →
      Sdp.Inside req.filter (rec.attrs.drop c.2.1) c.2.2

theorem attRsp_answers {req : AttReq} (hmin : 48 ≤ srv.mtu) (hsmall : srv.Small)
    (hmax : req.maxAttLen < 2 ^ 16) (hcont : ∀ c ∈ req.cont, c.1 ≤ 255) (hinside : req.Inside srv) :
    Answers (attRsp srv req) fun params => hdrSize + params.length ≤ min sdpMtu srv.mtu := by
  have hmtu := Server.mtu_le hmin
  have hhdr : hdrSize = 5 := rfl
  rw [attRsp]
  generalize hfind : (srv.db.find? fun rec => rec.handle = req.svcRecHdl) = found
  cases found with
  | none => trivial
  | some rec =>
    have hrec := hsmall rec (mem_of_find?_eq_some hfind)
    dsimp only
    have hstart : (req.state rec).lastAtt ≤ 255 ∧ (req.state rec).pktFull = false ∧
        (req.state rec).attListSize = 0 ∧
        Sdp.Inside req.filter (rec.attrs.drop (req.state rec).lastAtt)
          (req.state rec).lastAttIndex := by
      rw [AttReq.state]
      cases hreq : req.cont with
      | none => exact ⟨Nat.zero_le 255, rfl, rfl, .inl rfl⟩
      | some c => exact ⟨hcont c hreq, rfl, rfl, hinside c hreq rec hfind⟩
    generalize req.state rec = state at hstart
    obtain ⟨hatt, hfull, hsize, hin⟩ := hstart
    obtain ⟨page, rest, state', hfill, hcreate, -⟩ := @createAttrList_fill srv rec req.filter
      (saContStateSize + 1) [0, 0] state req.maxAttLen hrec hatt hfull (by rw [hsize]; decide)
      (by change 2 + 5 ≤ _; omega) hmax hin
    have hpage : page.length ≤ min sdpMtu srv.mtu - 13 := by
      have hlength := fill_length (srv.room (saContStateSize + 1) 2 req.maxAttLen)
        (rec.rest req.filter (listSize req.filter (rec.attrs.drop state.lastAtt)) state.lastAtt
          state.lastAttIndex)
      rw [show (2 : ℕ) = ([0, 0] : Bytes).length from rfl, hfill, Server.room,
        srv.space_eq _ (by change 2 + 5 ≤ _; omega)] at hlength
      have hcont : saContStateSize = 5 := rfl
      dsimp only [length_cons, length_nil] at hlength
      omega
    rw [hcreate]
    have hlist : ∀ n buf cont, buf.length ≤ min sdpMtu srv.mtu - 13 → cont.length ≤ 6 →
        hdrSize + (be16 n ++ buf ++ cont).length ≤ min sdpMtu srv.mtu := by
      intro n buf cont hbuf hcont
      rw [length_append, length_append, length_be16]
      omega
    refine hlist _ _ _ ?_ ?_
    · split
      · change (page ++ [0x35, 0]).length ≤ _
        next hzero =>
          have hnil : page.length = 0 := hzero
          rw [length_append, hnil]
          change 0 + 2 ≤ _
          omega
      · exact hpage
    · split
      · change 1 + 1 + 4 ≤ 6
        decide
      · decide

/-- The response fits in the packet, where it is not closed yet with a
continuation state. -/
def SearchAtt.Fits (srv : Server) (x : SearchAtt) : Prop :=
  x.rspBuf.length + (if x.dryRun then 5 else 12) ≤ min sdpMtu srv.mtu

theorem SearchAtt.fits_of_open {x : SearchAtt} (hdry : x.dryRun = false)
    (h : x.rspBuf.length + 12 ≤ min sdpMtu srv.mtu) : x.Fits srv := by
  rw [SearchAtt.Fits, hdry]
  exact h

theorem SearchAtt.Fits.of_open {x : SearchAtt} (h : x.Fits srv) (hdry : x.dryRun = false) :
    x.rspBuf.length + 12 ≤ min sdpMtu srv.mtu := by
  rw [SearchAtt.Fits, hdry] at h
  exact h

/-- What holds between the records of a search. -/
structure Searching (srv : Server) (req : SearchAttReq) (recs : List Record) (x : SearchAtt) :
    Prop where
  att : x.state.lastAtt ≤ 255
  size : x.state.attListSize < 2 ^ 16
  sum : x.attListLen < 2 ^ 16
  max : x.maxAttLen < 2 ^ 16
  fits : x.Fits srv
  copying : x.copying = true → x.dryRun = false ∧ x.state.pktFull = false
  closed : x.copying = false → x.dryRun = true ∨ x.state.pktFull = true ∧
    srv.db.length % 256 = 0 ∧ req.cont.isNone
  inside : x.copying = true → ∀ rec ∈ recs, rec.index = x.state.currentSvc →
    serviceSearchPatternMatched req.ssp rec = .ok true →
      Sdp.Inside req.filter (rec.attrs.drop x.state.lastAtt) x.state.lastAttIndex

variable {req : SearchAttReq} {rec : Record} {recs : List Record} {y : SearchAtt}

theorem Searching.tail (h : Searching srv req (rec :: recs) y) : Searching srv req recs y :=
  { h with inside := fun hcopying r hr => h.inside hcopying r (mem_cons_of_mem rec hr) }

theorem index_lt (hrec : rec ∈ srv.db) : rec.index < srv.db.length := by
  have hmem := mem_map_of_mem (f := Record.index) hrec
  rwa [srv.registered.index.2, List.mem_range] at hmem

theorem closed_eq (hrec : rec ∈ srv.db) (hindex : y.state.currentSvc = rec.index) :
    (y.closed srv = { y with dryRun := true, rspBuf := y.rspBuf ++ y.state.cont }) ∨
      srv.db.length % 256 = 0 ∧ y.closed srv = y := by
  have hlt := index_lt hrec
  have hle := srv.registered.index.1
  rw [SearchAtt.closed, hindex]
  split
  · exact .inl rfl
  · exact .inr ⟨by omega, rfl⟩

/-- **A record keeps to the response's room**, whether it is copied or not. -/
theorem Searching.step (h : Searching srv req (rec :: recs) y) (hmin : 48 ≤ srv.mtu)
    (hmem : rec ∈ srv.db) (hrec : rec.Small) (hmatched : serviceSearchPatternMatched req.ssp rec = .ok true)
    (hother : ∀ r ∈ recs, rec.index ≠ r.index) : Answers (searchAttRecord srv req rec y) fun z =>
      z.1.Fits srv ∧ (z.2 = true → Searching srv req recs z.1) := by
  have hmtu := Server.mtu_le hmin
  have hhdr : hdrSize = 5 := rfl
  have hfits := h.fits
  cases hcopying : y.copying with
  | false =>
    have hatt : (y.turn rec).lastAtt ≤ 255 := turn_lastAtt_le h.att
    rw [searchAttRecord_counting hrec hcopying (h.closed hcopying) h.att h.size h.sum]
    rw [SearchAtt.rewound]
    by_cases hdry : y.dryRun
    · rw [if_pos hdry]
      exact ⟨hfits, fun _ => ⟨Nat.zero_le 255, Nat.mod_lt _ (by decide), h.sum, h.max, hfits,
        fun hno => absurd hno (by simp [hcopying]), fun _ => .inl hdry,
        fun hno => absurd hno (by simp [hcopying])⟩⟩
    · rw [if_neg hdry]
      refine ⟨hfits, fun _ => ⟨hatt, Nat.mod_lt _ (by decide), h.sum, h.max, hfits,
        fun hno => absurd hno (by simp [hcopying]), fun _ => .inr ?_,
        fun hno => absurd hno (by simp [hcopying])⟩⟩
      obtain hno | hclosed := h.closed hcopying
      · exact absurd hno hdry
      · exact ⟨turn_pktFull.trans hclosed.1, hclosed.2⟩
  | true =>
    obtain ⟨hdry, hfull⟩ := h.copying hcopying
    have hlen := hfits.of_open hdry
    have hroom : y.rspBuf.length + hdrSize ≤ min sdpMtu srv.mtu := by omega
    obtain ⟨page, rest, state', hfill, hpaged, hrun⟩ := searchAttRecord_copying hrec hcopying hdry
      hfull h.att h.size hroom h.max
      fun hsame => h.inside hcopying rec mem_cons_self hsame hmatched
    have hsvc : state'.currentSvc = rec.index := by
      rw [hpaged.currentSvc, turn_currentSvc, ite_self]
    have hatt' := hpaged.lastAtt_le (turn_lastAtt_le h.att)
    have hsize' : state'.attListSize < 2 ^ 16 := by
      rw [hpaged.attListSize]
      exact Nat.mod_lt _ (by decide)
    have hpage : (y.rspBuf ++ page).length + 12 ≤ min sdpMtu srv.mtu := by
      have hlength := fill_length (srv.room (ssaContStateSize + 1) y.rspBuf.length y.maxAttLen)
        (rec.rest req.filter (listSize req.filter (rec.attrs.drop (y.turn rec).lastAtt))
          (y.turn rec).lastAtt (y.turn rec).lastAttIndex)
      rw [hfill, Server.room, srv.space_eq _ hroom] at hlength
      have hcont : ssaContStateSize = 6 := rfl
      dsimp only at hlength
      rw [length_append]
      omega
    have hsum' : (y.attListLen + page.length) % 2 ^ 16 < 2 ^ 16 := Nat.mod_lt _ (by decide)
    have hmax' : y.maxAttLen - page.length < 2 ^ 16 := lt_of_le_of_lt (Nat.sub_le _ _) h.max
    have hpkt := hpaged.pktFull
    rw [hrun]
    have hopen : (y.added page state').Fits srv := SearchAtt.fits_of_open hdry hpage
    cases rest with
    | none =>
      exact ⟨hopen, fun _ => ⟨hatt', hsize', hsum', hmax', hopen, fun _ => ⟨hdry, hpkt⟩,
        fun hno => absurd hno (by simp [SearchAtt.added, hcopying]),
        fun _ r hr hsame => absurd (hsvc.symm.trans hsame.symm) (hother r hr)⟩⟩
    | some ps =>
      have hcont : state'.cont.length = 7 := rfl
      have hlong : (y.rspBuf ++ page ++ state'.cont).length + 5 ≤ min sdpMtu srv.mtu := by
        rw [length_append, hcont]
        omega
      obtain hclosed | ⟨hmany, hclosed⟩ := closed_eq (y := y.added page state') hmem hsvc
      all_goals
        dsimp only
        rw [hclosed]
        by_cases hreq : req.cont.isSome
      · rw [if_pos hreq]
        exact ⟨hlong, fun h => Bool.noConfusion h⟩
      · rw [if_neg hreq]
        exact ⟨hlong, fun _ => ⟨Nat.zero_le 255, hsize', hsum', hmax', hlong,
          fun h => Bool.noConfusion h, fun _ => .inl rfl, fun h => Bool.noConfusion h⟩⟩
      · rw [if_pos hreq]
        exact ⟨hopen, fun h => Bool.noConfusion h⟩
      · have hnone : req.cont.isNone := by simpa using hreq
        rw [if_neg hreq, SearchAtt.rewound, if_neg (by simp [SearchAtt.added, hdry])]
        exact ⟨hopen, fun _ => ⟨hatt', hsize', hsum', hmax', hopen,
          fun h => Bool.noConfusion h, fun _ => .inr ⟨hpkt, hmany, hnone⟩,
          fun h => Bool.noConfusion h⟩⟩

/-- **The search of all records comes to an end.** -/
theorem searchAttRecords_answers (hmin : 48 ≤ srv.mtu) (hmem : ∀ rec ∈ recs, rec ∈ srv.db)
    (hsmall : srv.Small)
    (hindex : recs.Pairwise fun a b => a.index ≠ b.index) (h : Searching srv req recs y) :
    Answers (searchAttRecords srv req recs y) fun z => z.Fits srv := by
  induction recs generalizing y with
  | nil => exact h.fits
  | cons rec recs ih =>
    rw [forall_mem_cons] at hmem
    rw [pairwise_cons] at hindex
    have hmatches := patternMatched_answers (srv.ok rec hmem.1) (Nat.lt_succ_self req.ssp.length)
    rw [searchAttRecords]
    cases hmatched : serviceSearchPatternMatched req.ssp rec with
    | error stop =>
      rw [← serviceSearchPatternMatched, hmatched] at hmatches
      cases stop with
      | invalid err => trivial
      | fault f => exact hmatches
    | ok matched =>
      change Answers (if matched = false then _ else _) _
      split
      · exact ih hmem.2 hindex.2 h.tail
      next hyes =>
        rw [Bool.not_eq_false] at hyes
        rw [hyes] at hmatched
        split
        · exact ih hmem.2 hindex.2 h.tail
        refine (h.step hmin hmem.1 (hsmall rec hmem.1) hmatched hindex.1).bind ?_
        rintro ⟨z, goesOn⟩ ⟨hfits, hnext⟩
        dsimp only
        split
        next hgoes => exact ih hmem.2 hindex.2 (hnext hgoes)
        · exact hfits

theorem searchAttRsp_answers (hmin : 48 ≤ srv.mtu) (hsmall : srv.Small) (hmax : req.maxAttLen < 2 ^ 16)
    (hcont : ∀ c ∈ req.cont, c.2.1 ≤ 255) (hinside : req.Inside srv) :
    Answers (searchAttRsp srv req) fun params => hdrSize + params.length ≤ min sdpMtu srv.mtu := by
  have hmtu := Server.mtu_le hmin
  have hhdr : hdrSize = 5 := rfl
  have hstart : Searching srv req srv.db req.start := by
    rw [SearchAttReq.start]
    cases hreq : req.cont with
    | none =>
      exact ⟨Nat.zero_le 255, Nat.two_pow_pos 16, (by decide : 3 < 2 ^ 16), lt_of_le_of_lt (Nat.sub_le _ _) hmax,
        SearchAtt.fits_of_open rfl (by change 5 + 12 ≤ _; omega), fun _ => ⟨rfl, rfl⟩, by simp,
        fun _ rec _ _ _ => .inl rfl⟩
    | some c =>
      exact ⟨hcont c hreq, Nat.two_pow_pos 16, Nat.two_pow_pos 16, hmax,
        SearchAtt.fits_of_open rfl (by change 2 + 12 ≤ _; omega), fun _ => ⟨rfl, rfl⟩, by simp,
        fun _ rec hrec hindex hmatched => hinside c hreq rec hrec hindex hmatched⟩
  rw [searchAttRsp]
  refine (searchAttRecords_answers hmin (fun _ hrec => hrec) hsmall srv.registered.pairwise
    hstart).bind ?_
  intro z hfits
  have hput : ∀ (buf : Bytes) at' n, (putSize buf at' n).length ≤ max buf.length (at' + 3) := by
    intro buf at' n
    rw [putSize, length_append, length_append, length_take, length_drop, length_be16]
    omega
  have hrsp : ∀ (buf : Bytes) n, buf.length + 5 ≤ min sdpMtu srv.mtu →
      hdrSize + (be16 n ++ (if req.cont.isNone then putSize buf 2 z.state.attListSize
        else buf).drop 2).length ≤ min sdpMtu srv.mtu := by
    intro buf n hbuf
    rw [length_append, length_drop, length_be16]
    have hlist := hput buf 2 z.state.attListSize
    split
    all_goals omega
  refine hrsp _ _ ?_
  cases hdry : z.dryRun with
  | true =>
    rw [SearchAtt.Fits, hdry] at hfits
    exact hfits
  | false =>
    have hlen := hfits.of_open hdry
    rw [if_neg Bool.false_ne_true, length_append]
    split
    · rw [length_append]
      change _ + 2 + 1 + 5 ≤ _
      omega
    · change _ + 1 + 5 ≤ _
      omega

/-- The response to a Service Search fits in the packet. -/
def Search.Fits (srv : Server) (x : Search) : Prop :=
  x.rspBuf.length + (if x.pktFull then 11 else 13) ≤ min sdpMtu srv.mtu

theorem searchRecord_fits {req : SearchReq} {x : Search} (h : x.Fits srv) :
    (searchRecord srv req rec x).1.Fits srv := by
  rw [searchRecord]
  dsimp only
  have hcounted : Search.Fits srv (if req.cont.isNone then
      { x with matchedRecs := (x.matchedRecs + 1) % 256, totalRecs := (x.totalRecs + 1) % 2 ^ 16 }
      else { x with matchedRecs := (x.matchedRecs + 1) % 256 }) := by
    split
    · exact h
    · exact h
  generalize (if req.cont.isNone then
    { x with matchedRecs := (x.matchedRecs + 1) % 256, totalRecs := (x.totalRecs + 1) % 2 ^ 16 }
    else { x with matchedRecs := (x.matchedRecs + 1) % 256 } : Search) = y at hcounted ⊢
  rw [Search.Fits] at hcounted
  split
  · exact hcounted
  split
  · exact hcounted
  split
  · exact hcounted
  split
  · exact hcounted
  next hopen =>
    rw [if_neg hopen] at hcounted
    split
    · rw [Search.Fits, length_append]
      change y.rspBuf.length + 2 + 11 ≤ _
      omega
    next hroom =>
      have hsizes : 4 + 1 + ssContStateSize + hdrSize = 13 := rfl
      rw [hsizes] at hroom
      rw [Search.Fits, length_append, length_be32, if_neg hopen]
      omega

theorem searchRecords_answers {req : SearchReq} {x : Search} (hmem : ∀ rec ∈ recs, rec ∈ srv.db)
    (h : x.Fits srv) : Answers (searchRecords srv req recs x) fun z => z.Fits srv := by
  induction recs generalizing x with
  | nil => exact h
  | cons rec recs ih =>
    rw [forall_mem_cons] at hmem
    have hmatches := patternMatched_answers (srv.ok rec hmem.1) (Nat.lt_succ_self req.ssp.length)
    have hnext := @searchRecord_fits srv rec req x h
    rw [searchRecords]
    refine Answers.bind hmatches fun matched _ => ?_
    split
    · exact ih hmem.2 h
    dsimp only
    split
    · exact ih hmem.2 hnext
    · exact hnext

theorem searchRsp_answers (hmin : 48 ≤ srv.mtu) (req : SearchReq) :
    Answers (searchRsp srv req) fun params => hdrSize + params.length ≤ min sdpMtu srv.mtu := by
  have hmtu := Server.mtu_le hmin
  have hhdr : hdrSize = 5 := rfl
  rw [searchRsp]
  refine (searchRecords_answers (fun _ hrec => hrec) ?_).bind fun z hfits => ?_
  · change 0 + 13 ≤ _
    omega
  · change hdrSize + (be16 z.totalRecs ++ be16 z.currentRecs ++ z.rspBuf ++
      if z.pktFull then be16 z.totalRecs else [0]).length ≤ _
    rw [Search.Fits] at hfits
    rw [length_append, length_append, length_append, length_be16, length_be16]
    split
    next hfull =>
      rw [if_pos hfull] at hfits
      rw [length_be16]
      omega
    next hopen =>
      rw [if_neg hopen] at hfits
      change _ + (_ + 1) ≤ _
      omega

/-! ## Any bytes -/

/-- Where a request goes on from an index in an attribute, the index is
inside it. -/
def GoesOnInside (srv : Server) (buf : Bytes) : Prop :=
  (beNat (buf.take 1) = 0x04 → ∀ req rest, parseAttReq (buf.drop hdrSize) = .ok (req, rest) →
    req.Inside srv) ∧
  (beNat (buf.take 1) = 0x06 → ∀ req rest,
    parseSearchAttReq (buf.drop hdrSize) = .ok (req, rest) → req.Inside srv)

/-- The operation of the response to a request, or of an error response. -/
def answerOf (opCode : ℕ) : List ℕ := [0x01, opCode + 1]

theorem parsed_answers {γ : Type} {m : Parse α} {f : α → Except Stop γ} {P : α → Prop}
    {Q : γ → Prop} {buf : Bytes} (hm : Reads m buf fun a _ => P a)
    (hf : ∀ a rest, m buf = .ok (a, rest) → P a → Answers (f a) Q) :
    Answers (do let (a, _) ← m buf; f a) Q := by
  rw [Reads] at hm
  generalize hresult : m buf = result at hm
  match result, hm with
  | .ok (a, rest), hp => exact hf a rest hresult hp
  | .error (.invalid _), _ => trivial

theorem Answers.map {f : α → β} (h : Answers x fun a => R (f a)) : Answers (x.map f) R := by
  match x, h with
  | .ok a, h => exact h
  | .error (.invalid _), _ => trivial

theorem handle_answers (hmin : 48 ≤ srv.mtu) (hsmall : srv.Small) {buf : Bytes} (h : GoesOnInside srv buf) :
    Answers (handle srv (beNat (buf.take 1)) (buf.drop hdrSize)) fun rsp =>
      rsp.1 = beNat (buf.take 1) + 1 ∧ hdrSize + rsp.2.length ≤ min sdpMtu srv.mtu := by
  rw [handle]
  split
  next hop =>
    refine Answers.map ?_
    rw [svcSearchReq]
    refine (parsed_answers (reads_parseSearchReq _) fun req _ _ _ => searchRsp_answers hmin req).mono
      fun params hlen => ?_
    rw [hop]
    exact ⟨rfl, hlen⟩
  split
  next hop =>
    refine Answers.map ?_
    rw [svcAttReq]
    refine (parsed_answers (reads_parseAttReq _) fun req rest hparse hreq =>
      attRsp_answers hmin hsmall hreq.1 hreq.2 (h.1 hop req rest hparse)).mono fun params hlen => ?_
    rw [hop]
    exact ⟨rfl, hlen⟩
  split
  next hop =>
    refine Answers.map ?_
    rw [svcSearchAttReq]
    refine (parsed_answers (reads_parseSearchAttReq _) fun req rest hparse hreq =>
      searchAttRsp_answers hmin hsmall hreq.1 hreq.2.2 (h.2 hop req rest hparse)).mono
      fun params hlen => ?_
    rw [hop]
    exact ⟨rfl, hlen⟩
  · exact trivial

theorem sdpSend_eq {pdu : Pdu} (h : hdrSize + pdu.params.length ≤ min sdpMtu srv.mtu) :
    sdpSend srv pdu = [pdu] :=
  if_neg (Nat.not_lt.mpr (h.trans (min_le_right _ _)))

/-- **Any bytes are answered**, on a channel whose MTU is at least the least
that L2CAP has. Bytes too few for a header are dropped; others are answered
with exactly one PDU, which carries the transaction of
the request, fits in the channel's MTU, and is an error response or one to
the operation of the request. The records have at most 255 attributes of
less than 2^16 bytes, and a request that goes on does so inside an
attribute. -/
theorem any_bytes_answered (srv : Server) (hmin : 48 ≤ srv.mtu) (hsmall : srv.Small) (buf : Bytes)
    (h : GoesOnInside srv buf) :
    (buf.length < hdrSize → recv srv buf = .ok []) ∧
    (hdrSize ≤ buf.length → ∃ pdu, recv srv buf = .ok [pdu] ∧ pdu.tid = tidOf buf ∧
      pdu.opCode ∈ answerOf (beNat (buf.take 1)) ∧
      hdrSize + pdu.params.length ≤ min sdpMtu srv.mtu) := by
  have hmtu := Server.mtu_le hmin
  have hhdr : hdrSize = 5 := rfl
  refine ⟨fun hshort => if_pos hshort, fun hlen => ?_⟩
  have hresult : Answers (if beNat ((buf.drop 3).take 2) ≠ (buf.drop hdrSize).length then
      .error invalidPduSize else handle srv (beNat (buf.take 1)) (buf.drop hdrSize)) fun rsp =>
      rsp.1 = beNat (buf.take 1) + 1 ∧ hdrSize + rsp.2.length ≤ min sdpMtu srv.mtu := by
    split
    · trivial
    · exact handle_answers hmin hsmall h
  rw [recv, if_neg (Nat.not_lt.mpr hlen)]
  dsimp only
  generalize (if beNat ((buf.drop 3).take 2) ≠ (buf.drop hdrSize).length then
      .error invalidPduSize else handle srv (beNat (buf.take 1)) (buf.drop hdrSize) :
      Except Stop (ℕ × Bytes)) = result at hresult
  match result, hresult with
  | .ok (opCode, params), ⟨hop, hfits⟩ =>
    exact ⟨_, congrArg Except.ok (sdpSend_eq hfits), rfl,
      List.mem_cons_of_mem _ (List.mem_singleton.mpr hop), hfits⟩
  | .error (.invalid err), _ =>
    have hfits : hdrSize + (be16 err).length ≤ min sdpMtu srv.mtu := by
      rw [length_be16]
      omega
    exact ⟨_, congrArg Except.ok (sdpSend_eq hfits), rfl, by simp [answerOf], hfits⟩

/-- A record of one attribute, a list of one UUID. -/
def serialPort : Record where
  attrs := [⟨0x0001, .list 0x35 3 5 [.value 0x19 2 3 [0x01, 0x11]]⟩]

theorem serialPort_ok : serialPort.Ok := by
  refine forall_mem_singleton.mpr ⟨by decide, ?_, .inl rfl, nofun, rfl,
    forall_mem_singleton.mpr ⟨?_, by decide, by decide, rfl⟩⟩
  · rw [SizesOk]
    decide
  · rw [SizesOk]
    decide

def serialPortServer : Server where
  mtu := 48
  db := [{ serialPort with handle := 0x10000 }]
  registered := @Registered.register [] _ serialPort .nil rfl
  ok := List.forall_mem_singleton.mpr serialPort_ok

/-- A Service Attribute Request that goes on from an index of the first
attribute. -/
def goOnFrom (index : UInt8) : Bytes :=
  [0x04, 0x00, 0x07, 0x00, 0x11, 0x00, 0x01, 0x00, 0x00, 0x00, 0x40, 0x35, 0x03, 0x09, 0x00, 0x01,
    0x05, 0x00, 0x00, 0x00, 0x00, index]

theorem serialPortServer_small : serialPortServer.Small :=
  forall_mem_singleton.mpr ⟨forall_mem_singleton.mpr
    ⟨(serialPort_ok _ (mem_singleton_self _)).2, by decide⟩, by decide⟩

theorem goOnFrom_two_answered : ∃ pdu, recv serialPortServer (goOnFrom 2) = .ok [pdu] ∧
    pdu.tid = 7 ∧ pdu.opCode ∈ answerOf 0x04 ∧ hdrSize + pdu.params.length ≤ 48 := by
  refine (any_bytes_answered serialPortServer le_rfl serialPortServer_small (goOnFrom 2) ⟨?_, ?_⟩).2
    (by decide)
  · intro _ req rest hparse
    have hread : parseAttReq ((goOnFrom 2).drop hdrSize) = .ok (⟨0x10000, 0x40, [0xffff0001],
      some (0, 2)⟩, []) := by decide +kernel
    obtain ⟨rfl, rfl⟩ := Prod.mk.inj (Except.ok.inj (hread.symm.trans hparse))
    intro c hc rec hrec
    obtain rfl := Option.some.inj hc
    obtain rfl := Option.some.inj hrec
    exact .inr fun attr hattr => by
      obtain rfl := Option.some.inj hattr
      decide
  · intro hop
    exact absurd hop (by decide)

/-- Fewer bytes than a header are not answered, and on a channel without an
MTU nothing is. -/
theorem unanswered : recv serialPortServer [] = .ok [] ∧
    recv { serialPortServer with mtu := 0 } (goOnFrom 2) = .ok [] := by decide +kernel

end Sdp

end OpenBlue
