import OpenBlue.Sdp.AttrList
/-!
# SDP — one record of a search

What `sdp_svc_search_att_req` does with a record that matches: a page of
its list, with the continuation state behind it where the response is
full, or, behind that, its size alone.
-/

namespace OpenBlue

namespace Sdp

open SearchAtt

variable {srv : Server} {req : SearchAttReq} {rec : Record} {x : SearchAtt}

/-- The state that a record starts from: where the response goes on, or its
start. -/
def SearchAtt.turn (x : SearchAtt) (rec : Record) : SearchState :=
  if x.state.currentSvc ≠ rec.index then
    { x.state with currentSvc := rec.index, lastAtt := 0, lastAttIndex := 0 }
  else x.state

/-- The continuation state of a search. -/
def SearchState.cont (state : SearchState) : Bytes :=
  UInt8.ofNat ssaContStateSize :: UInt8.ofNat state.currentSvc :: UInt8.ofNat state.lastAtt ::
    be32 state.lastAttIndex

/-- The response with a page more. -/
def SearchAtt.added (x : SearchAtt) (page : Bytes) (state : SearchState) : SearchAtt :=
  { x with
    rspBuf := x.rspBuf ++ page
    attListLen := (x.attListLen + page.length) % 2 ^ 16
    maxAttLen := x.maxAttLen - page.length
    state := state }

/-- The response once it is full. -/
def SearchAtt.closed (srv : Server) (x : SearchAtt) : SearchAtt :=
  if x.state.currentSvc < srv.db.length % 256 then
    { x with dryRun := true, rspBuf := x.rspBuf ++ x.state.cont }
  else x

/-- What is left is counted from the start of each record. -/
def SearchAtt.rewound (x : SearchAtt) : SearchAtt :=
  if x.dryRun then { x with state := { x.state with lastAtt := 0, lastAttIndex := 0 } } else x

@[simp] theorem turn_currentSvc : (x.turn rec).currentSvc = rec.index := by
  rw [SearchAtt.turn]
  split
  · rfl
  next h => exact not_not.mp h

@[simp] theorem turn_pktFull : (x.turn rec).pktFull = x.state.pktFull := by
  rw [SearchAtt.turn]
  split <;> rfl

@[simp] theorem turn_attListSize : (x.turn rec).attListSize = x.state.attListSize := by
  rw [SearchAtt.turn]
  split <;> rfl

theorem turn_lastAtt_le (h : x.state.lastAtt ≤ 255) : (x.turn rec).lastAtt ≤ 255 := by
  rw [SearchAtt.turn]
  split
  · exact Nat.zero_le 255
  · exact h

theorem turn_inside {filter : List ℕ} (h : rec.index = x.state.currentSvc →
      Inside filter (rec.attrs.drop x.state.lastAtt) x.state.lastAttIndex) :
    Inside filter (rec.attrs.drop (x.turn rec).lastAtt) (x.turn rec).lastAttIndex := by
  rw [SearchAtt.turn]
  split
  · exact .inl rfl
  next hsame => exact h (not_not.mp hsame).symm

/-- **A record that is copied**: a page of its list. -/
theorem searchAttRecord_copying (hrec : rec.Small) (hcopying : x.copying = true)
    (hdry : x.dryRun = false) (hfull : x.state.pktFull = false) (hatt : x.state.lastAtt ≤ 255)
    (hsmall : x.state.attListSize < 2 ^ 16)
    (hlen : x.rspBuf.length + hdrSize ≤ min sdpMtu srv.mtu) (hmax : x.maxAttLen < 2 ^ 16)
    (hinside : rec.index = x.state.currentSvc →
      Inside req.filter (rec.attrs.drop x.state.lastAtt) x.state.lastAttIndex) :
    ∃ page rest state', fill (srv.room (ssaContStateSize + 1) x.rspBuf.length x.maxAttLen)
        (rec.rest req.filter (listSize req.filter (rec.attrs.drop (x.turn rec).lastAtt))
          (x.turn rec).lastAtt (x.turn rec).lastAttIndex) = (page, rest) ∧
      Paged rec req.filter (listSize req.filter (rec.attrs.drop (x.turn rec).lastAtt))
        (x.turn rec) page rest state' ∧
      searchAttRecord srv req rec x = .ok (match rest with
        | none => (x.added page state', true)
        | some _ =>
          if req.cont.isSome then ((x.added page state').closed srv, false)
          else ({ (x.added page state').closed srv with copying := false }.rewound, true)) := by
  have hatt' : (x.turn rec).lastAtt ≤ 255 := turn_lastAtt_le hatt
  have hsmall' : (x.turn rec).attListSize < 2 ^ 16 := by rwa [turn_attListSize]
  obtain ⟨page, rest, state', hfill, hcreate, hpaged⟩ :=
    @createAttrList_fill srv rec req.filter (ssaContStateSize + 1) _ _ _ hrec hatt'
      (turn_pktFull.trans hfull) hsmall' hlen hmax (turn_inside hinside)
  refine ⟨page, rest, state', hfill, hpaged, ?_⟩
  have hroom : page.length ≤ x.maxAttLen := by
    have hlength := fill_length (srv.room (ssaContStateSize + 1) x.rspBuf.length x.maxAttLen)
      (rec.rest req.filter (listSize req.filter (rec.attrs.drop (x.turn rec).lastAtt))
        (x.turn rec).lastAtt (x.turn rec).lastAttIndex)
    rw [hfill, Server.room, srv.space_eq _ hlen] at hlength
    dsimp only at hlength
    omega
  rw [SearchAtt.turn] at hcreate
  rw [searchAttRecord]
  dsimp only
  rw [if_pos hcopying, hcreate]
  change (if x.maxAttLen < page.length then _ else _) = _
  rw [if_neg (Nat.not_lt.mpr hroom)]
  have hsome := hpaged.pktFull
  obtain ⟨rspBuf, attListLen, maxAttLen, state, dryRun, copying⟩ := x
  dsimp only at hdry hcopying
  subst hdry hcopying
  cases rest with
  | none =>
    rw [Option.isSome_none] at hsome
    simp [hsome, added, pure, Except.pure]
  | some ps =>
    rw [Option.isSome_some] at hsome
    by_cases hgoes : state'.currentSvc < srv.db.length % 256
    all_goals by_cases hcont : req.cont.isSome
    all_goals simp [hsome, hgoes, hcont, added, closed, rewound,
      SearchState.cont, pure, Except.pure]

/-- **A record that is not copied**: its size is counted. -/
theorem searchAttRecord_counting (hrec : rec.Small) (hcopying : x.copying = false)
    (hclosed : x.dryRun = true ∨ x.state.pktFull = true ∧ srv.db.length % 256 = 0 ∧
      req.cont.isNone) (hatt : x.state.lastAtt ≤ 255) (hsmall : x.state.attListSize < 2 ^ 16)
    (hsum : x.attListLen < 2 ^ 16) :
    searchAttRecord srv req rec x = .ok ({ x with
      state := { x.turn rec with attListSize := (x.state.attListSize +
        rec.sizeFrom req.filter (x.turn rec).lastAtt (x.turn rec).lastAttIndex) % 2 ^ 16 } }.rewound,
      true) := by
  have hatt' : (x.turn rec).lastAtt ≤ 255 := turn_lastAtt_le hatt
  have hsmall' : (x.turn rec).attListSize < 2 ^ 16 := by rwa [turn_attListSize]
  have hnot : ¬ x.copying = true := by simp [hcopying]
  have hcreate := @createAttrList_count srv rec req.filter (ssaContStateSize + 1) _ x.maxAttLen
    hrec hatt' hsmall'
  rw [turn_attListSize] at hcreate
  have hfull := @turn_pktFull rec x
  rw [searchAttRecord]
  dsimp only
  rw [if_neg hnot, ← SearchAtt.turn, hcreate]
  simp only [bind, Except.bind, Nat.not_lt_zero, if_false]
  generalize x.turn rec = turn at hfull ⊢
  obtain ⟨rspBuf, attListLen, maxAttLen, state, dryRun, copying⟩ := x
  dsimp only at hclosed hcopying hfull hsum
  subst hcopying
  have hmod : attListLen % 65536 = attListLen := Nat.mod_eq_of_lt hsum
  obtain hdry | ⟨hpkt, hmany, hcont⟩ := hclosed
  · subst hdry
    simp [rewound, hmod, pure, Except.pure]
  · rw [hpkt] at hfull
    rw [Option.isNone_iff_eq_none] at hcont
    cases dryRun
    all_goals simp [hfull, hmany, hcont, rewound, hmod, pure, Except.pure]

end Sdp

end OpenBlue
