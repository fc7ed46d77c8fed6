import OpenBlue.Common.Run
import OpenBlue.Host.Model.PerAdv
/-!
# Host — what becomes of a periodic advertising report

A report comes in fragments, partial ones and a last one that is complete
or truncated. Where the buffer overflows is what counts: at a partial
fragment the rest of the report is passed over and its last fragment puts
things right, at the last fragment itself the flag stays set and the next
report is passed over in its place. `reports_delivered_iff` has exactly the
sequences that are free of that.
-/

namespace OpenBlue

namespace PerAdv

open List

/-- A report in its fragments: the partial ones, the last one, and whether
that is complete. -/
structure Fragments where
  parts : List Fragment
  last : Fragment
  whole : Bool

/-- The data of the partial fragments. -/
def Fragments.front (f : Fragments) : Bytes := f.parts.flatMap Fragment.bytes

/-- The data of the whole report. -/
def Fragments.bytes (f : Fragments) : Bytes := f.front ++ f.last.bytes

/-- The HCI report of one fragment. -/
def fragment (status : UInt8) (x : Fragment) : Report := ⟨x, status⟩

/-- The HCI reports of a report, in order. -/
def Fragments.reports (f : Fragments) : List Report :=
  f.parts.map (fragment moreToCome) ++
    [fragment (if f.whole then complete else incomplete) f.last]

/-- The sync after a report. -/
def step (cfg : Cfg) (s : Sync) (r : Report) : Sync := (s.report cfg r).1

/-- What a report leads to. -/
def emit (cfg : Cfg) (s : Sync) (r : Report) : List Out := (s.report cfg r).2

/-- The sync after reports in their fragments. -/
def after (cfg : Cfg) (s : Sync) (fs : List Fragments) : Sync :=
  run (step cfg) s (fs.flatMap Fragments.reports)

/-- If the report is complete and fits the buffer, it is delivered, once and
as it is, and nothing else happens. -/
def Delivers (cfg : Cfg) (s : Sync) (f : Fragments) : Prop :=
  f.whole = true → f.bytes.length ≤ cfg.bufSize →
    emitted (step cfg) (emit cfg) s f.reports = [.recv f.bytes]

/-- The report fits the buffer, or outgrows it before its last fragment, and
that is complete. -/
def Fragments.Clean (cfg : Cfg) (f : Fragments) : Prop :=
  f.bytes.length ≤ cfg.bufSize ∨ cfg.bufSize < f.front.length ∧ f.whole = true

/-- The event of each fragment holds what it announces, and no more where
the last one is handed on without a copy. -/
def Fragments.Framed (f : Fragments) : Prop :=
  (∀ x ∈ f.parts, x.length.toNat ≤ x.data.length) ∧
    if f.front = [] then f.last.data.length = f.last.length.toNat
    else f.last.length.toNat ≤ f.last.data.length

variable {cfg : Cfg} {s : Sync} {f : Fragments} {fs : List Fragments} {x : Fragment}
  {status : UInt8} {parts : List Fragment}

/-! ## One fragment -/

theorem fragment_length (status : UInt8) (x : Fragment) :
    (fragment status x).length = x.length := rfl

@[simp] theorem length_bytes (x : Fragment) : x.bytes.length = x.length.toNat := by
  simp [Fragment.bytes]

theorem outs_eq_nil : x.outs = [] ↔ x.length.toNat ≤ x.data.length := by
  simp [Fragment.outs]

theorem outs_append_eq {o o' : Out} : parts.flatMap Fragment.outs ++ [o] = [o'] ↔
    (∀ x ∈ parts, x.length.toNat ≤ x.data.length) ∧ o = o' := by
  simp [append_eq_singleton_iff, flatMap_eq_nil_iff, outs_eq_nil]

theorem data_eq_bytes : x.data = x.bytes ↔ x.data.length = x.length.toNat := by
  constructor
  · intro h
    rw [← length_bytes x, ← h]
  · intro h
    simp [Fragment.bytes, ← h, rightpad]

/-- A sync that takes reports, with nothing of an earlier one left over. -/
structure Idle (s : Sync) : Prop where
  enabled : s.recvDisabled = false
  whole : s.reportTruncated = false
  empty : s.reassembly = []

theorem report_passed (henabled : s.recvDisabled = false) (hflag : s.reportTruncated = true)
    (r : Report) :
    s.report cfg r = (if r.dataStatus = complete then { s with reportTruncated := false } else s,
      []) := by
  rw [Sync.report, if_neg (by simp [henabled]), if_neg (by simp [hflag])]
  split <;> rfl

theorem report_overflow (henabled : s.recvDisabled = false) (hflag : s.reportTruncated = false)
    (hsize : 0 < cfg.bufSize) (hroom : s.reassembly.length ≤ cfg.bufSize)
    (hover : cfg.bufSize < s.reassembly.length + x.length.toNat) :
    s.report cfg (fragment status x) =
      ({ s with reportTruncated := true, reassembly := [] }, []) := by
  rw [Sync.report, if_neg (by simp [henabled]), if_pos (by simp [hflag]), if_pos hsize,
    fragment_length, if_pos (by omega)]

theorem report_fits (henabled : s.recvDisabled = false) (hflag : s.reportTruncated = false)
    (hsize : 0 < cfg.bufSize) (hfits : s.reassembly.length + x.length.toNat ≤ cfg.bufSize) :
    s.report cfg (fragment status x) = s.reassemble cfg (fragment status x) := by
  rw [Sync.report, if_neg (by simp [henabled]), if_pos (by simp [hflag]), if_pos hsize,
    fragment_length, if_neg (by omega)]

/-! ## The partial fragments -/

theorem parts_passed (cfg : Cfg) (henabled : s.recvDisabled = false)
    (hflag : s.reportTruncated = true) (parts : List Fragment) :
    run (step cfg) s (parts.map (fragment moreToCome)) = s ∧
      emitted (step cfg) (emit cfg) s (parts.map (fragment moreToCome)) = [] := by
  induction parts with
  | nil => exact ⟨rfl, rfl⟩
  | cons x parts ih =>
    have hx : s.report cfg (fragment moreToCome x) = (s, []) := report_passed henabled hflag _
    rw [map_cons, run_cons, emitted_cons, step, emit, hx]
    exact ih

theorem parts_collected (henabled : s.recvDisabled = false) (hflag : s.reportTruncated = false)
    (parts : List Fragment) (hsize : 0 < cfg.bufSize) (hroom : s.reassembly.length ≤ cfg.bufSize) :
    run (step cfg) s (parts.map (fragment moreToCome)) =
        (if s.reassembly.length + (parts.flatMap Fragment.bytes).length ≤ cfg.bufSize then
          { s with reassembly := s.reassembly ++ parts.flatMap Fragment.bytes }
        else { s with reportTruncated := true, reassembly := [] }) ∧
      (s.reassembly.length + (parts.flatMap Fragment.bytes).length ≤ cfg.bufSize →
        emitted (step cfg) (emit cfg) s (parts.map (fragment moreToCome)) =
          parts.flatMap Fragment.outs) := by
  induction parts generalizing s with
  | nil => simp [hroom]
  | cons x parts ih =>
    rw [map_cons, run_cons, emitted_cons, step, emit]
    rcases Nat.lt_or_ge cfg.bufSize (s.reassembly.length + x.length.toNat) with hover | hfits
    · -- from the overflow on the rest is passed over
      have hlong : ¬ s.reassembly.length + ((x :: parts).flatMap Fragment.bytes).length ≤
          cfg.bufSize := by
        rw [flatMap_cons, length_append, length_bytes]
        omega
      rw [report_overflow henabled hflag hsize hroom hover, if_neg hlong]
      -- What follows a part that overflows is passed over.
      exact ⟨(parts_passed (s := { s with reportTruncated := true, reassembly := [] }) cfg
        henabled rfl parts).1, fun h => absurd h hlong⟩
    · have hadd : s.report cfg (fragment moreToCome x) =
          ({ s with reassembly := s.reassembly ++ x.bytes }, x.outs) := by
        rw [report_fits henabled hflag hsize hfits]
        rfl
      rw [hadd]
      have hlen : (s.reassembly ++ x.bytes).length ≤ cfg.bufSize := by
        rw [length_append, length_bytes]
        exact hfits
      obtain ⟨hrun, hemit⟩ :=
        ih (s := { s with reassembly := s.reassembly ++ x.bytes }) henabled hflag hlen
      simp only [length_append, append_assoc, Nat.add_assoc] at hrun hemit
      simp only [flatMap_cons, length_append]
      exact ⟨hrun, fun h => congrArg (x.outs ++ ·) (hemit h)⟩

/-! ## The whole report -/

theorem run_reports (f : Fragments) (s : Sync) :
    run (step cfg) s f.reports = step cfg (run (step cfg) s (f.parts.map (fragment moreToCome)))
      (fragment (if f.whole then complete else incomplete) f.last) := by
  rw [Fragments.reports, run_append]
  rfl

theorem emitted_reports (f : Fragments) (s : Sync) : emitted (step cfg) (emit cfg) s f.reports =
      emitted (step cfg) (emit cfg) s (f.parts.map (fragment moreToCome)) ++
        emit cfg (run (step cfg) s (f.parts.map (fragment moreToCome)))
          (fragment (if f.whole then complete else incomplete) f.last) := by
  rw [Fragments.reports, emitted_append, emitted_cons, emitted_nil, append_nil]

theorem report_lost (henabled : s.recvDisabled = false) (hflag : s.reportTruncated = true)
    (f : Fragments) :
    run (step cfg) s f.reports = { s with reportTruncated := !f.whole } ∧
      emitted (step cfg) (emit cfg) s f.reports = [] := by
  obtain ⟨hrun, hemit⟩ := parts_passed cfg henabled hflag f.parts
  rw [run_reports, emitted_reports, hrun, hemit, step, emit, report_passed henabled hflag]
  cases hwhole : f.whole with
  | true => exact ⟨rfl, rfl⟩
  | false =>
    have hsame : ({ s with reportTruncated := true } : Sync) = s := by rw [← hflag]
    exact ⟨hsame.symm, rfl⟩

/-- **A report that fits** leaves the sync idle, and is handed on if it is
complete: as it is put together, or without a copy if nothing was. -/
theorem report_whole (hs : Idle s) (hsize : 0 < cfg.bufSize) (hfits : f.bytes.length ≤ cfg.bufSize) :
    run (step cfg) s f.reports = s ∧ emitted (step cfg) (emit cfg) s f.reports =
        f.parts.flatMap Fragment.outs ++ if f.whole = false then []
          else if f.front = [] then [.recv f.last.data]
          else f.last.outs ++ [.recv f.bytes] := by
  have hlen : f.front.length + f.last.length.toNat ≤ cfg.bufSize := by
    rwa [Fragments.bytes, length_append, length_bytes] at hfits
  obtain ⟨hrun, hemit⟩ := parts_collected hs.enabled hs.whole f.parts hsize (by simp [hs.empty])
  rw [hs.empty, length_nil, nil_append, ← Fragments.front, if_pos (by omega)] at hrun
  rw [hs.empty, length_nil, ← Fragments.front] at hemit
  rw [run_reports, emitted_reports, hrun, hemit (by omega), step, emit,
    report_fits (s := { s with reassembly := f.front }) hs.enabled hs.whole hsize hlen]
  have hback : ({ s with reassembly := [] } : Sync) = s := by rw [← hs.empty]
  cases f.whole with
  | false => exact ⟨hback, rfl⟩
  | true =>
    by_cases hempty : f.front = []
    · simp only [if_true, hempty]
      exact ⟨hback, rfl⟩
    · have hread : ({ s with reassembly := f.front } : Sync).reassemble cfg
          (fragment complete f.last) =
            ({ s with reassembly := [] }, f.last.outs ++ [.recv f.bytes]) :=
        if_neg fun h => hempty (eq_nil_of_length_eq_zero h)
      simp only [if_true, hread, if_neg hempty]
      exact ⟨hback, rfl⟩

/-- **An idle sync delivers a report** exactly as long as its lengths are
right. -/
theorem delivers_iff (hs : Idle s) (hsize : 0 < cfg.bufSize) (f : Fragments) :
    Delivers cfg s f ↔ (f.whole = true → f.bytes.length ≤ cfg.bufSize → f.Framed) := by
  refine forall_congr' fun hwhole => forall_congr' fun hfits => ?_
  rw [(report_whole hs hsize hfits).2, if_neg (by simp [hwhole]), Fragments.Framed]
  split
  -- Nothing was put together: the event is handed on as it is.
  next hempty =>
    rw [outs_append_eq, ← data_eq_bytes, Fragments.bytes, hempty, nil_append, Out.recv.injEq]
  next =>
    have hall : f.parts.flatMap Fragment.outs ++ (f.last.outs ++ [.recv f.bytes]) =
        (f.parts ++ [f.last]).flatMap Fragment.outs ++ [.recv f.bytes] := by simp
    rw [hall, outs_append_eq]
    simp [or_imp, forall_and]

theorem report_overgrown (hs : Idle s) (hsize : 0 < cfg.bufSize)
    (hover : cfg.bufSize < f.bytes.length) :
    run (step cfg) s f.reports = { s with
      reportTruncated := !(decide (cfg.bufSize < f.front.length) && f.whole) } := by
  rw [Fragments.bytes, length_append, length_bytes] at hover
  obtain ⟨hrun, -⟩ := parts_collected hs.enabled hs.whole f.parts hsize (by simp [hs.empty])
  rw [hs.empty, length_nil, nil_append, Nat.zero_add, ← Fragments.front] at hrun
  rw [run_reports, hrun, step]
  rcases Nat.lt_or_ge cfg.bufSize f.front.length with hparts | hparts
  · rw [if_neg (Nat.not_le.mpr hparts),
      report_passed (s := { s with reportTruncated := true, reassembly := [] })
      hs.enabled rfl, decide_eq_true hparts, Bool.true_and, ← hs.empty]
    cases f.whole <;> rfl
  · rw [if_pos hparts, report_overflow (s := { s with reassembly := f.front }) hs.enabled
      hs.whole hsize hparts hover, decide_eq_false (by omega), Bool.false_and, Bool.not_false,
      ← hs.empty]

/-- **A clean report leaves the sync idle**, and any other one sets the flag. -/
theorem run_clean_iff (hs : Idle s) (hsize : 0 < cfg.bufSize) (f : Fragments) :
    run (step cfg) s f.reports = { s with
      reportTruncated := (run (step cfg) s f.reports).reportTruncated } ∧
      ((run (step cfg) s f.reports).reportTruncated = false ↔ f.Clean cfg) := by
  rcases Nat.lt_or_ge cfg.bufSize f.bytes.length with hover | hfits
  · rw [report_overgrown hs hsize hover]
    refine ⟨rfl, ?_⟩
    rw [Bool.not_eq_false', Bool.and_eq_true, decide_eq_true_iff, Fragments.Clean]
    exact ⟨.inr, fun h => h.resolve_left (by omega)⟩
  · rw [(report_whole hs hsize hfits).1]
    exact ⟨rfl, fun _ => .inl hfits, fun _ => hs.whole⟩

/-! ## Sequences of reports -/

/-- A report of no bytes. -/
def empty : Fragments := ⟨[], ⟨0, []⟩, true⟩

theorem after_cons (f : Fragments) (fs : List Fragments) :
    after cfg s (f :: fs) = after cfg (run (step cfg) s f.reports) fs := by
  rw [after, flatMap_cons, run_append]
  rfl

theorem reports_delivered_iff_from (hs : Idle s) (hsize : 0 < cfg.bufSize) (fs : List Fragments) :
    (∀ pre, pre <+: fs → ∀ f, Delivers cfg (after cfg s pre) f ↔
      (f.whole = true → f.bytes.length ≤ cfg.bufSize → f.Framed)) ↔ ∀ f ∈ fs, f.Clean cfg := by
  induction fs generalizing s with
  | nil =>
    refine ⟨fun _ => forall_mem_nil _, fun _ pre hpre => ?_⟩
    rw [prefix_nil.mp hpre]
    exact delivers_iff hs hsize
  | cons f fs ih =>
    obtain ⟨hsame, hclean⟩ := run_clean_iff hs hsize f
    rw [forall_mem_cons]
    constructor
    · intro hall
      have hf : f.Clean cfg := by
        -- the empty report is not delivered while the flag is set
        rw [← hclean, ← Bool.not_eq_true]
        intro hflag
        have hnext := (hall [f] (prefix_append [f] fs) empty).2
          (fun _ _ => ⟨forall_mem_nil _, by simp [empty, Fragments.front]⟩) rfl (Nat.zero_le _)
        rw [after_cons, after, flatMap_nil, run_nil,
          (report_lost (by rw [hsame]; exact hs.enabled) hflag empty).2] at hnext
        cases hnext
      have hidle : Idle (run (step cfg) s f.reports) := by
        rw [hsame, hclean.mpr hf]
        exact ⟨hs.enabled, rfl, hs.empty⟩
      refine ⟨hf, (ih hidle).mp fun pre hpre g => ?_⟩
      rw [← after_cons]
      exact hall (f :: pre) (cons_prefix_cons.mpr ⟨rfl, hpre⟩) g
    · rintro ⟨hf, hfs⟩ pre hpre
      have hidle : Idle (run (step cfg) s f.reports) := by
        rw [hsame, hclean.mpr hf]
        exact ⟨hs.enabled, rfl, hs.empty⟩
      rcases prefix_cons_iff.mp hpre with rfl | ⟨pre', rfl, hpre'⟩
      · exact delivers_iff hs hsize
      · rw [after_cons]
        exact (ih hidle).mpr hfs pre' hpre'

/-- **Reports that fit are delivered**, once and as they are, wherever a
sequence of reports has come to, exactly where their own lengths are right,
if and only if the sync has a buffer and no report of the sequence overflows
it with its last fragment, nor ends truncated once it has overflowed. -/
theorem reports_delivered_iff (cfg : Cfg) (numSubevents : ℕ) (fs : List Fragments) :
    (∀ pre, pre <+: fs → ∀ f, Delivers cfg (after cfg { numSubevents } pre) f ↔
        (f.whole = true → f.bytes.length ≤ cfg.bufSize → f.Framed)) ↔
      0 < cfg.bufSize ∧ ∀ f ∈ fs, f.Clean cfg := by
  rcases Nat.eq_zero_or_pos cfg.bufSize with hzero | hsize
  · -- with no buffer a report of two fragments is not delivered, though both may be empty
    refine ⟨fun hall => ?_, fun h => absurd hzero h.1.ne'⟩
    have hnext := (hall [] (List.nil_prefix) ⟨[⟨0, []⟩], ⟨0, []⟩, true⟩).2
      (fun _ _ => by unfold Fragments.Framed; decide) rfl (Nat.zero_le _)
    rw [after, List.flatMap_nil, run_nil, emitted_reports, List.map_singleton, emitted_cons,
      emitted_nil, run_cons, run_nil] at hnext
    simp [emit, step, Sync.report, hzero, moreToCome, complete, fragment] at hnext
  · rw [reports_delivered_iff_from ⟨rfl, rfl, rfl⟩ hsize fs]
    exact ⟨fun h => ⟨hsize, h⟩, And.right⟩

/-- **A report is lost after one that overflows with its last fragment**,
though it fits the buffer; and one that announces less than its event holds
is handed on with all of it. -/
theorem not_delivered :
    ¬ Delivers ⟨4, false⟩ (after ⟨4, false⟩ {} [⟨[⟨3, [1, 2, 3]⟩], ⟨2, [4, 5]⟩, true⟩])
      ⟨[], ⟨1, [7]⟩, true⟩ ∧
    ¬ Delivers ⟨4, false⟩ {} ⟨[], ⟨1, [7, 8, 9]⟩, true⟩ :=
  ⟨fun h => absurd (h rfl (by decide)) (by decide), fun h => absurd (h rfl (by decide)) (by decide)⟩

end PerAdv

end OpenBlue
