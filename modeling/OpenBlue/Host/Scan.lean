import OpenBlue.Host.Model.Scan
import OpenBlue.Common.Run
import Mathlib.Data.List.GetD
/-!
# Host — fragments of advertisers

What the reassembly is for: each advertiser has an advertising event of its
own, a list of fragments, and its last report delivers them all. The code
has one slot for all advertisers, so a fragment that comes while another
advertiser's event is under way is dropped, and so is an event that
outgrows the buffer. Apart from that the code does the same as long as it
comes to neither of two places: where it goes on behind a stored fragment
without skipping its data, and where a report of another advertiser finds
it discarding.
-/

namespace OpenBlue

namespace Scan

open Function List

/-! ## Reports -/

/-- A report as it is in an HCI event: its length fits, and it is complete,
partial or truncated. -/
structure Report where
  header : Bytes
  data : Bytes
  headerLen : header.length = Info.size
  fits : (Info.get header).length = data.length
  known : (Info.get header).dataStatus ≠ 3

/-- The header of a report. -/
def Report.info (r : Report) : Info := Info.get r.header

/-- The advertiser of a report: its address and the SID. -/
abbrev Key := Bytes × UInt8

/-- The advertiser of a report. -/
def Info.key (i : Info) : Key := (i.addr, i.sid)

theorem getLe16_append {l : Bytes} (h : 2 ≤ l.length) (rest : Bytes) :
    getLe16 (l ++ rest) = getLe16 l := by
  match l, h with
  | a :: b :: l, _ => rfl

/-- **A report is parsed where it is**, whatever follows it. -/
theorem get_append {header : Bytes} (h : header.length = Info.size) (rest : Bytes) :
    Info.get (header ++ rest) = Info.get header := by
  have h24 : header.length = 24 := h
  have hdrop : ∀ n, n ≤ 24 → (header ++ rest).drop n = header.drop n ++ rest := fun n hn =>
    drop_append_of_le_length (by omega)
  have hget : ∀ n, n < 24 → (header ++ rest).getD n 0 = header.getD n 0 := fun n hn =>
    getD_append _ _ _ _ (by omega)
  have htake : ∀ n, n + 7 ≤ 24 → ((header ++ rest).drop n).take 7 = (header.drop n).take 7 :=
    fun n hn => by
      rw [hdrop n (by omega), take_append_of_le_length (by rw [length_drop]; omega)]
  have hle : getLe16 ((header ++ rest).drop 14) = getLe16 (header.drop 14) := by
    rw [hdrop 14 (by decide), getLe16_append (by rw [length_drop]; omega)]
  simp only [Info.get, getLe16_append (l := header) (by omega) rest, htake 2 (by decide),
    htake 16 (by decide), hle, hget 9 (by decide), hget 10 (by decide), hget 11 (by decide),
    hget 12 (by decide), hget 13 (by decide), hget 23 (by decide)]

/-! ## What the reassembly is for -/

/-- The fragments of the current event of each advertiser. -/
abbrev Frags := Key → List Bytes

/-- The event of another advertiser is under way. -/
def Frags.Busy (f : Frags) (k : Key) : Prop := ∃ j, j ≠ k ∧ f j ≠ []

/-- All fragments of an event, with the last one. -/
def Frags.whole (f : Frags) (r : Report) : Bytes := (f r.info.key ++ [r.data]).flatten

open Classical in
/-- A partial report is one more fragment, but not while the event of
another advertiser is under way; any other report is the last of the
event. -/
noncomputable def Frags.after (f : Frags) (r : Report) : Frags :=
  if r.info.legacy then f
  else if r.info.moreToCome then
    if f.Busy r.info.key then f
    else update f r.info.key (f r.info.key ++ [r.data])
  else update f r.info.key []

/-- A complete report delivers its event, unless the fragments have outgrown
the buffer. -/
def Frags.delivers (size : ℕ) (f : Frags) (r : Report) : Option Bytes :=
  if r.info.legacy then some r.data
  else if r.info.complete then
    if f r.info.key = [] ∨ (f.whole r).length ≤ size then some (f.whole r) else none
  else none

/-- What is seen of a report. -/
def Frags.outs (size : ℕ) (f : Frags) (r : Report) : List Out :=
  .report r.info ::
    ((f.delivers size r).map fun data => Out.recv r.info.addr (createExtAdvInfo r.info) data).toList

/-- The reports of an HCI event, one after the other. The application may
have stopped scanning; then no event is under way any more. -/
noncomputable def ideal (size : ℕ) : Frags → List Bool → List Report → List Out × Frags
  | f, _, [] => ([], f)
  | f, scanning, r :: rs =>
    if scanning.headD true then
      let (o, f') := ideal size (f.after r) scanning.tail rs
      (f.outs size r ++ o, f')
    else ([], fun _ => [])

/-- The event of another advertiser has outgrown the buffer, and the report
is partial or truncated. -/
def Frags.MeetsDiscarding (size : ℕ) (f : Frags) (r : Report) : Prop :=
  r.info.legacy = false ∧ r.info.complete = false ∧
    ∃ j, j ≠ r.info.key ∧ size < (f j).flatten.length

/-- The report is a fragment that is kept, and not empty. -/
def Frags.Keeps (size : ℕ) (f : Frags) (r : Report) : Prop :=
  r.info.legacy = false ∧ r.info.moreToCome = true ∧ ¬ f.Busy r.info.key ∧
    (f.whole r).length ≤ size ∧ r.data ≠ []

/-- **The reports come to neither place**: none of them meets the code
discarding for another advertiser, and none follows, in its HCI event, a
fragment that is kept. -/
def Smooth (size : ℕ) : Frags → List Bool → List Report → Prop
  | _, _, [] => True
  | f, scanning, r :: rs => scanning.headD true = true →
      ¬ f.MeetsDiscarding size r ∧
      (f.Keeps size r → rs = [] ∨ scanning.tail.headD true = false) ∧
      Smooth size (f.after r) scanning.tail rs

/-! ## The slot and the fragments -/

/-- The advertiser that has the slot. -/
def Slot.key (sl : Slot) : Key := (sl.addr, sl.sid)

/-- **The slot is held by the advertiser whose event is under way**: its
buffer is what the fragments make, or they have outgrown it. -/
inductive Holds (size : ℕ) (sl : Slot) (f : Frags) : Prop
  | free (state : sl.state = .inactive) (buf : sl.buf = []) (none : ∀ k, f k = [])
  | reassembling (state : sl.state = .reassembling) (started : f sl.key ≠ [])
      (others : ∀ k, k ≠ sl.key → f k = []) (buf : sl.buf = (f sl.key).flatten)
      (fits : sl.buf.length ≤ size)
  | discarding (state : sl.state = .discarding) (others : ∀ k, k ≠ sl.key → f k = [])
      (outgrown : size < (f sl.key).flatten.length)

variable {size : ℕ} {sl : Slot} {f : Frags} {r : Report} {rest : Bytes}

theorem equal_iff (sl : Slot) (evt : Info) : sl.equal evt = true ↔ evt.key = sl.key := by
  simp only [Slot.equal, Bool.and_eq_true, decide_eq_true_eq, Info.key, Slot.key, Prod.mk.injEq]
  exact ⟨fun h => ⟨h.2.symm, h.1.symm⟩, fun h => ⟨h.2.symm, h.1.symm⟩⟩

theorem Report.status (r : Report) :
    (r.info.complete = true ∧ r.info.moreToCome = false ∧ r.info.incomplete = false) ∨
      (r.info.complete = false ∧ r.info.moreToCome = true ∧ r.info.incomplete = false) ∨
      (r.info.complete = false ∧ r.info.moreToCome = false ∧ r.info.incomplete = true) := by
  have h := r.known
  have hlt : r.info.dataStatus < 4 := by
    rw [Info.dataStatus]
    exact lt_of_le_of_lt Nat.and_le_right (by decide)
  simp only [Info.complete, Info.moreToCome, Info.incomplete, decide_eq_true_eq,
    decide_eq_false_iff_not]
  have h : r.info.dataStatus ≠ 3 := h
  omega

/-- What a turn does with a report, as it should. -/
def Turns (size : ℕ) (sl : Slot) (f : Frags) (r : Report) (rest : Bytes) : Prop :=
  ∃ (o : List Out) (sl' : Slot) (next : Bytes),
    reassemble size sl r.info (r.data ++ rest) = (o, sl', .turn next) ∧
      f.outs size r = .report r.info :: o ∧ Holds size sl' (f.after r) ∧
      (¬ f.Keeps size r → next = rest)

theorem Report.length_data (r : Report) : r.info.length = r.data.length := r.fits

theorem Report.drop_data (r : Report) (rest : Bytes) :
    (r.data ++ rest).drop r.info.length = rest := by
  rw [r.length_data, drop_left]

theorem Report.take_data (r : Report) (rest : Bytes) :
    (r.data ++ rest).take r.info.length = r.data := by
  rw [r.length_data, take_left]

theorem Holds.empty (h : Holds size sl f) {k : Key} (hk : sl.state = .inactive ∨ k ≠ sl.key) :
    f k = [] := by
  cases h with
  | free _ _ none => exact none k
  | reassembling state _ others =>
    rw [state] at hk
    exact others k (hk.resolve_left (by decide))
  | discarding state others =>
    rw [state] at hk
    exact others k (hk.resolve_left (by decide))

theorem whole_of_empty (hempty : f r.info.key = []) : f.whole r = r.data := by
  rw [Frags.whole, hempty]
  simp

theorem update_of_empty {k : Key} (hempty : f k = []) : update f k [] = f := by
  rw [← hempty, update_eq_self]

theorem turns_alone (h : Holds size sl f) (hr : r.info.legacy = true ∨ r.info.complete = true ∧
      (sl.state = .inactive ∨ r.info.key ≠ sl.key)) : Turns size sl f r rest := by
  refine ⟨[.recv r.info.addr (createExtAdvInfo r.info) r.data], sl, rest, ?_, ?_, ?_, fun _ => rfl⟩
  · have hnew : (r.info.legacy ||
        ((decide (sl.state = .inactive) || !sl.equal r.info) && r.info.complete)) = true := by
      rcases hr with hlegacy | ⟨hcomplete, hfree | hother⟩
      · simp [hlegacy]
      · simp [hcomplete, hfree]
      · have : sl.equal r.info = false := by simpa using mt (equal_iff sl r.info).mp hother
        simp [hcomplete, this]
    rw [reassemble]
    simp only [hnew, if_true, r.drop_data, r.take_data]
  · rcases hr with hlegacy | ⟨hcomplete, hfree⟩
    · simp [Frags.outs, Frags.delivers, hlegacy]
    · have hempty := h.empty hfree
      cases hlegacy : r.info.legacy with
      | true => simp [Frags.outs, Frags.delivers, hlegacy]
      | false =>
        simp [Frags.outs, Frags.delivers, hlegacy, hcomplete, hempty, whole_of_empty hempty]
  · rw [Frags.after]
    split
    · exact h
    next hlegacy =>
      obtain ⟨hcomplete, hfree⟩ := hr.resolve_left hlegacy
      have hmore : r.info.moreToCome = false := by
        rcases r.status with hs | hs | hs
        · exact hs.2.1
        · simp [hcomplete] at hs
        · exact hs.2.1
      rw [if_neg (by simp [hmore]), update_of_empty (h.empty hfree)]
      exact h

theorem outs_of_not_complete (hlegacy : r.info.legacy = false) (hc : r.info.complete = false) :
    f.outs size r = [.report r.info] := by
  simp [Frags.outs, Frags.delivers, hlegacy, hc]

theorem turns_other (h : Holds size sl f) (hlegacy : r.info.legacy = false)
    (hc : r.info.complete = false) (hstate : sl.state = .reassembling)
    (hk : r.info.key ≠ sl.key) : Turns size sl f r rest := by
  refine ⟨[], sl, rest, ?_, outs_of_not_complete hlegacy hc, ?_, fun _ => rfl⟩
  · have hne : sl.equal r.info = false := by simpa using mt (equal_iff sl r.info).mp hk
    rw [reassemble]
    simp only [hlegacy, hc, hne, hstate, Bool.not_false, Bool.or_true, Bool.and_false,
      Bool.or_self, Bool.false_eq_true, if_false, Bool.true_and, decide_true, if_true,
      r.drop_data]
  · rw [Frags.after, if_neg (by simp [hlegacy])]
    split
    next hmore =>
      cases h with
      | reassembling state started others buf fits =>
        rw [if_pos ⟨sl.key, hk.symm, started⟩]
        exact .reassembling state started others buf fits
      | free state => simp [hstate] at state
      | discarding state => simp [hstate] at state
    next =>
      rw [update_of_empty (h.empty (.inr hk))]
      exact h

theorem Holds.reset (h : Holds size sl f) (hk : sl.state = .inactive ∨ r.info.key = sl.key) :
    Holds size sl.reset (update f r.info.key []) := by
  refine .free rfl rfl fun k => ?_
  rw [update_apply]
  split
  · rfl
  next hne =>
    refine h.empty (hk.imp_right fun heq => ?_)
    rwa [← heq]

theorem reassemble_own (hlegacy : r.info.legacy = false)
    (hk : sl.state = .inactive ∧ r.info.complete = false ∨
      sl.state ≠ .inactive ∧ r.info.key = sl.key) (buf : Bytes) : reassemble size sl r.info buf =
      if r.info.incomplete then ([], sl.reset, .turn (buf.drop r.info.length))
      else store size (if sl.state = .inactive then sl.init r.info else sl) r.info buf := by
  rw [reassemble]
  rcases hk with ⟨hstate, hc⟩ | ⟨hstate, hk⟩
  · simp [hlegacy, hstate, hc]
  · have heq : sl.equal r.info = true := (equal_iff sl r.info).mpr hk
    simp [hlegacy, hstate, heq]

theorem turns_incomplete (h : Holds size sl f) (hlegacy : r.info.legacy = false)
    (hi : r.info.incomplete = true) (hk : sl.state = .inactive ∨ r.info.key = sl.key) :
    Turns size sl f r rest := by
  have hc : r.info.complete = false := by
    rcases r.status with hs | hs | hs
    · simp [hi] at hs
    · exact hs.1
    · exact hs.1
  have hmore : r.info.moreToCome = false := by
    rcases r.status with hs | hs | hs
    · exact hs.2.1
    · simp [hi] at hs
    · exact hs.2.1
  have hown : sl.state = .inactive ∧ r.info.complete = false ∨
      sl.state ≠ .inactive ∧ r.info.key = sl.key := by
    by_cases hs : sl.state = .inactive
    · exact .inl ⟨hs, hc⟩
    · exact .inr ⟨hs, hk.resolve_left hs⟩
  refine ⟨[], sl.reset, rest, ?_, outs_of_not_complete hlegacy hc, ?_, fun _ => rfl⟩
  · rw [reassemble_own hlegacy hown, if_pos hi, r.drop_data]
  · rw [Frags.after, if_neg (by simp [hlegacy]), if_neg (by simp [hmore])]
    exact h.reset hk

/-- The slot after `init_reassembling_advertiser`, if that is called, and
before the report is stored: its buffer is what the fragments make. -/
structure Ready (size : ℕ) (sl : Slot) (f : Frags) (r : Report) : Prop where
  key : r.info.key = sl.key
  others : ∀ k, k ≠ sl.key → f k = []
  state : sl.state = .reassembling ∧ sl.buf = (f sl.key).flatten ∧ sl.buf.length ≤ size ∨
    sl.state = .discarding ∧ size < (f sl.key).flatten.length

theorem Ready.length_whole (h : Ready size sl f r) :
    (f.whole r).length = (f sl.key).flatten.length + r.data.length := by
  rw [Frags.whole, h.key]
  simp

theorem Ready.others_update (h : Ready size sl f r) (l : List Bytes) :
    ∀ k, k ≠ sl.key → update f r.info.key l k = [] := by
  intro k hk
  rw [update_of_ne (by rwa [h.key])]
  exact h.others k hk

theorem Ready.not_busy (h : Ready size sl f r) : ¬ f.Busy r.info.key := by
  rintro ⟨j, hj, hne⟩
  exact hne (h.others j (by rwa [h.key] at hj))

theorem store_outgrown (h : Ready size sl f r) (hover : size < (f.whole r).length)
    (buf : Bytes) : store size sl r.info buf =
      ([], if !r.info.moreToCome then sl.reset else { sl with state := .discarding },
        .turn (buf.drop r.info.length)) := by
  have hlen := h.length_whole
  have hdata := r.length_data
  have hstate : (if size < r.info.length + sl.buf.length then { sl with state := .discarding }
      else sl) = { sl with state := .discarding } := by
    split
    · rfl
    next hle =>
      rcases h.state with ⟨-, hbuf, -⟩ | ⟨hs, -⟩
      · rw [hbuf] at hle
        omega
      · rw [← hs]
  rw [store]
  simp only [hstate, if_true, Slot.reset]

theorem store_fits (h : Ready size sl f r) (hfits : (f.whole r).length ≤ size)
    (rest : Bytes) : store size sl r.info (r.data ++ rest) = if r.info.moreToCome then
        ([], { sl with buf := f.whole r }, .turn (r.data ++ rest))
      else if !r.info.complete then ([.assertFailed], { sl with buf := f.whole r }, .stop)
      else ([.recv r.info.addr (createExtAdvInfo r.info) (f.whole r)], sl.reset, .turn rest) := by
  have hlen := h.length_whole
  have hdata := r.length_data
  rcases h.state with ⟨hs, hbuf, -⟩ | ⟨-, hover⟩
  · have hle : ¬ size < r.info.length + sl.buf.length := by
      rw [hbuf]
      omega
    have hwhole : sl.buf ++ r.data = f.whole r := by
      rw [hbuf, Frags.whole, h.key]
      simp
    rw [store]
    simp only [hle, if_false, hs, r.take_data, r.drop_data, hwhole]
    rfl
  · omega

theorem Ready.after_partial (h : Ready size sl f r) (hlegacy : r.info.legacy = false)
    (hmore : r.info.moreToCome = true) :
    f.after r = update f r.info.key (f r.info.key ++ [r.data]) := by
  rw [Frags.after, if_neg (by simp [hlegacy]), if_pos hmore, if_neg h.not_busy]

theorem Ready.flatten_update (h : Ready size sl f r) :
    (update f r.info.key (f r.info.key ++ [r.data]) sl.key).flatten = f.whole r := by
  rw [← h.key, update_self, Frags.whole]

theorem Ready.turns_partial (h : Ready size sl f r) (hlegacy : r.info.legacy = false)
    (hmore : r.info.moreToCome = true) :
    ∃ sl' next, store size sl r.info (r.data ++ rest) = ([], sl', .turn next) ∧
      Holds size sl' (f.after r) ∧ (¬ f.Keeps size r → next = rest) := by
  rw [h.after_partial hlegacy hmore]
  by_cases hover : size < (f.whole r).length
  · rw [store_outgrown h hover, r.drop_data, if_neg (by simp [hmore])]
    refine ⟨_, _, rfl, .discarding rfl (h.others_update _) ?_, fun _ => rfl⟩
    rw [Slot.key]
    exact h.flatten_update ▸ hover
  · have hfits : (f.whole r).length ≤ size := by omega
    rw [store_fits h hfits, if_pos hmore]
    refine ⟨_, _, rfl, .reassembling ?_ ?_ (h.others_update _) ?_ hfits, fun hkeeps => ?_⟩
    · rcases h.state with ⟨hs, -⟩ | ⟨-, hd⟩
      · exact hs
      · have := h.length_whole
        omega
    · rw [show Slot.key { sl with buf := f.whole r } = sl.key from rfl, ← h.key, update_self]
      simp
    · exact h.flatten_update.symm
    · have hnil : r.data = [] := by
        by_contra hne
        exact hkeeps ⟨hlegacy, hmore, h.not_busy, hfits, hne⟩
      rw [hnil, nil_append]

theorem Ready.turns_complete (h : Ready size sl f r) (hlegacy : r.info.legacy = false)
    (hc : r.info.complete = true) (hmore : r.info.moreToCome = false)
    (hstarted : f r.info.key ≠ []) :
    ∃ o sl', store size sl r.info (r.data ++ rest) = (o, sl', .turn rest) ∧
      f.outs size r = .report r.info :: o ∧ Holds size sl' (f.after r) := by
  have hafter : f.after r = update f r.info.key [] := by
    rw [Frags.after, if_neg (by simp [hlegacy]), if_neg (by simp [hmore])]
  have hfree : Holds size sl.reset (f.after r) := by
    rw [hafter]
    refine .free rfl rfl fun k => ?_
    by_cases hk : k = sl.key
    · rw [hk, ← h.key, update_self]
    · exact h.others_update [] k hk
  by_cases hover : size < (f.whole r).length
  · rw [store_outgrown h hover, r.drop_data, if_pos (by simp [hmore])]
    refine ⟨_, _, rfl, ?_, hfree⟩
    simp [Frags.outs, Frags.delivers, hlegacy, hstarted, Nat.not_le.mpr hover]
  · have hfits : (f.whole r).length ≤ size := by omega
    rw [store_fits h hfits, if_neg (by simp [hmore]), if_neg (by simp [hc])]
    refine ⟨_, _, rfl, ?_, hfree⟩
    simp [Frags.outs, Frags.delivers, hlegacy, hc, hfits]

theorem Holds.ready (h : Holds size sl f) (hk : sl.state = .inactive ∨ r.info.key = sl.key) :
    Ready size (if sl.state = .inactive then sl.init r.info else sl) f r := by
  cases h with
  | free state buf none =>
    rw [if_pos state]
    refine ⟨rfl, fun k _ => none k, .inl ⟨rfl, ?_, ?_⟩⟩
    · rw [none]
      exact buf
    · simp [Slot.init, buf]
  | reassembling state started others buf fits =>
    rw [if_neg (by simp [state])]
    exact ⟨hk.resolve_left (by simp [state]), others, .inl ⟨state, buf, fits⟩⟩
  | discarding state others outgrown =>
    rw [if_neg (by simp [state])]
    exact ⟨hk.resolve_left (by simp [state]), others, .inr ⟨state, outgrown⟩⟩

/-- **A turn does with a report what it should**, unless it meets the slot
discarding for another advertiser. -/
theorem Holds.turns (h : Holds size sl f) (hmeets : ¬ f.MeetsDiscarding size r) :
    Turns size sl f r rest := by
  cases hlegacy : r.info.legacy with
  | true => exact turns_alone h (.inl hlegacy)
  | false =>
    by_cases hfree : sl.state = .inactive ∨ r.info.key = sl.key
    swap
    · obtain ⟨hstate, hk⟩ := not_or.mp hfree
      cases hc : r.info.complete with
      | true => exact turns_alone h (.inr ⟨hc, .inr hk⟩)
      | false =>
        cases h with
        | free state => exact absurd state hstate
        | reassembling state started others buf fits =>
          exact turns_other (.reassembling state started others buf fits) hlegacy hc state hk
        | discarding state others outgrown =>
          exact absurd ⟨hlegacy, hc, sl.key, Ne.symm hk, outgrown⟩ hmeets
    have hready := h.ready hfree
    rcases r.status with ⟨hc, hmore, hi⟩ | ⟨hc, hmore, hi⟩ | ⟨-, -, hi⟩
    · by_cases hstate : sl.state = .inactive
      · exact turns_alone h (.inr ⟨hc, .inl hstate⟩)
      · have hk := hfree.resolve_left hstate
        have hstarted : f r.info.key ≠ [] := by
          rw [hk]
          cases h with
          | free state => exact absurd state hstate
          | reassembling _ started => exact started
          | discarding _ _ outgrown =>
            intro hnil
            rw [hnil] at outgrown
            exact absurd outgrown (Nat.not_lt_zero _)
        obtain ⟨o, sl', heq, houts, hholds⟩ := hready.turns_complete hlegacy hc hmore hstarted
        refine ⟨o, sl', rest, ?_, houts, hholds, fun _ => rfl⟩
        rw [reassemble_own hlegacy (.inr ⟨hstate, hk⟩), if_neg (by simp [hi])]
        exact heq
    · have hown : sl.state = .inactive ∧ r.info.complete = false ∨
          sl.state ≠ .inactive ∧ r.info.key = sl.key := by
        by_cases hs : sl.state = .inactive
        · exact .inl ⟨hs, hc⟩
        · exact .inr ⟨hs, hfree.resolve_left hs⟩
      obtain ⟨sl', next, heq, hholds, hnext⟩ := @Ready.turns_partial _ _ _ _ rest hready hlegacy hmore
      refine ⟨[], sl', next, ?_, outs_of_not_complete hlegacy hc, hholds, hnext⟩
      rw [reassemble_own hlegacy hown, if_neg (by simp [hi])]
      exact heq
    · exact turns_incomplete h hlegacy hi hfree

/-! ## HCI events -/

/-- An LE Extended Advertising Report event: its reports, what follows them,
and whether the application scans at each turn. -/
structure AdvEvent where
  reports : List Report
  tail : Bytes := []
  scanning : List Bool := []
  few : reports.length < 256

/-- The bytes of the reports. -/
def reportBytes (rs : List Report) : Bytes := (rs.map fun r => r.header ++ r.data).flatten

/-- The bytes of the event. -/
def AdvEvent.bytes (e : AdvEvent) : Bytes :=
  UInt8.ofNat e.reports.length :: (reportBytes e.reports ++ e.tail)

theorem turn_report (r : Report) (rest : Bytes) :
    turn size sl true (r.header ++ r.data ++ rest) =
      let (o, sl', next) := reassemble size sl r.info (r.data ++ rest)
      (.report r.info :: o, sl', next) := by
  have hlen : ¬ (r.header ++ r.data ++ rest).length < Info.size := by
    rw [length_append, length_append, r.headerLen]
    omega
  have hget : Info.get (r.header ++ r.data ++ rest) = r.info := by
    rw [append_assoc, get_append r.headerLen]
    rfl
  have hdrop : (r.header ++ r.data ++ rest).drop Info.size = r.data ++ rest := by
    rw [append_assoc, ← r.headerLen, drop_left]
  have hfits : ¬ (r.data ++ rest).length < r.info.length := by
    rw [r.length_data, length_append]
    omega
  rw [turn]
  simp only [Bool.not_true, Bool.false_eq_true, if_false, hlen, hget, hdrop, hfits]

theorem turns_stopped (h : Holds size sl f) (n : ℕ) {scanning : List Bool}
    (hsc : scanning.headD true = false) (buf : Bytes) :
    (turns size (n + 1) sl scanning buf).1 = [] ∧
      Holds size (turns size (n + 1) sl scanning buf).2 fun _ => [] := by
  have hturn : turn size sl (scanning.headD true) buf =
      ([], if sl.state ≠ .inactive then sl.reset else sl, .stop) := by
    rw [turn, hsc]
    rfl
  rw [turns, hturn]
  refine ⟨rfl, ?_⟩
  dsimp only
  split
  · exact .free rfl rfl fun _ => rfl
  next hstate =>
    cases h with
    | free state buf => exact .free state buf fun _ => rfl
    | reassembling state => exact absurd (by simp [state]) hstate
    | discarding state => exact absurd (by simp [state]) hstate

/-- **The loop does with the reports of an event what it should.** -/
theorem turns_eq_ideal (rs : List Report) (tail : Bytes) (scanning : List Bool)
    (h : Holds size sl f) (hs : Smooth size f scanning rs) :
    (turns size rs.length sl scanning (reportBytes rs ++ tail)).1 = (ideal size f scanning rs).1 ∧
      Holds size (turns size rs.length sl scanning (reportBytes rs ++ tail)).2
        (ideal size f scanning rs).2 := by
  induction rs generalizing sl f scanning with
  | nil => exact ⟨rfl, h⟩
  | cons r rs ih =>
    by_cases hsc : scanning.headD true = true
    swap
    · have hsc : scanning.headD true = false := by simpa using hsc
      rw [ideal, hsc]
      exact turns_stopped h rs.length hsc _
    obtain ⟨hmeets, hkeeps, hsmooth⟩ := hs hsc
    obtain ⟨o, sl', next, heq, houts, hholds, hnext⟩ :=
      @Holds.turns _ _ _ _ (reportBytes rs ++ tail) h hmeets
    have hbytes : reportBytes (r :: rs) ++ tail =
        r.header ++ r.data ++ (reportBytes rs ++ tail) := by
      simp [reportBytes]
    rw [ideal, if_pos hsc, length_cons, turns, hbytes, hsc, turn_report]
    simp only [heq, houts]
    have hrest : (turns size rs.length sl' scanning.tail next).1 =
          (ideal size (f.after r) scanning.tail rs).1 ∧
        Holds size (turns size rs.length sl' scanning.tail next).2
          (ideal size (f.after r) scanning.tail rs).2 := by
      by_cases hk : f.Keeps size r
      swap
      · rw [hnext hk]
        exact ih _ hholds hsmooth
      · rcases hkeeps hk with rfl | hstop
        · exact ⟨rfl, hholds⟩
        · cases rs with
          | nil => exact ⟨rfl, hholds⟩
          | cons r' rs =>
            rw [ideal, hstop]
            exact turns_stopped hholds rs.length hstop next
    exact ⟨by rw [hrest.1], hrest.2⟩

/-- One HCI event. -/
def Slot.step (size : ℕ) (sl : Slot) (e : AdvEvent) : Slot :=
  (advExtReport size sl e.scanning e.bytes).2

/-- What an HCI event puts out. -/
def Slot.emit (size : ℕ) (sl : Slot) (e : AdvEvent) : List Out :=
  (advExtReport size sl e.scanning e.bytes).1

/-- The fragments after an HCI event. -/
noncomputable def Frags.step (size : ℕ) (f : Frags) (e : AdvEvent) : Frags :=
  (ideal size f e.scanning e.reports).2

/-- What an HCI event should put out. -/
noncomputable def Frags.emit (size : ℕ) (f : Frags) (e : AdvEvent) : List Out :=
  (ideal size f e.scanning e.reports).1

theorem advExtReport_eq_ideal (e : AdvEvent) (h : Holds size sl f)
    (hs : Smooth size f e.scanning e.reports) :
    sl.emit size e = f.emit size e ∧ Holds size (sl.step size e) (f.step size e) := by
  have hcount : (UInt8.ofNat e.reports.length).toNat = e.reports.length := by
    rw [UInt8.toNat_ofNat']
    exact Nat.mod_eq_of_lt e.few
  have hloop := turns_eq_ideal e.reports e.tail e.scanning h hs
  rw [Slot.emit, Slot.step, AdvEvent.bytes, advExtReport, hcount]
  exact hloop

theorem assertFailed_not_mem_outs (f : Frags) (r : Report) : Out.assertFailed ∉ f.outs size r := by
  rw [Frags.outs]
  cases f.delivers size r with
  | none => simp
  | some data => simp

theorem assertFailed_not_mem_ideal (rs : List Report) (scanning : List Bool) :
    Out.assertFailed ∉ (ideal size f scanning rs).1 := by
  induction rs generalizing f scanning with
  | nil => exact not_mem_nil
  | cons r rs ih =>
    rw [ideal]
    split
    · rw [mem_append]
      rintro (h | h)
      · exact assertFailed_not_mem_outs f r h
      · exact ih _ h
    · exact not_mem_nil

/-- **Advertising events come out whole**: in every run of HCI events that
comes to neither place, no assertion fails, every report is parsed where it
is, and a complete report delivers the fragments of its advertiser's event,
all that came while no other advertiser's event was under way, unless they
have outgrown the buffer. -/
theorem reports_whole {es : List AdvEvent}
    (hrun : Along (Frags.step size) (fun f e => Smooth size f e.scanning e.reports)
      (fun _ => []) es) :
    emitted (Slot.step size) (Slot.emit size) {} es =
        emitted (Frags.step size) (Frags.emit size) (fun _ => []) es ∧
      Out.assertFailed ∉ emitted (Slot.step size) (Slot.emit size) {} es := by
  have hstart : Holds size {} fun _ => [] := .free rfl rfl fun _ => rfl
  have heq := (emitted_eq_of_sim (Holds size)
    (fun _ _ e h hs => advExtReport_eq_ideal e h hs) hstart hrun).1
  refine ⟨heq, ?_⟩
  rw [heq]
  clear heq
  generalize (fun _ => [] : Frags) = f at hrun ⊢
  induction es generalizing f with
  | nil => exact List.not_mem_nil
  | cons e es ih =>
    rw [emitted_cons, List.mem_append]
    rintro (h | h)
    · exact assertFailed_not_mem_ideal _ _ h
    · exact ih _ hrun.2 h

/-- The header of a report: its status, the first byte of its address and
its length. -/
def sampleHeader (status addr len : UInt8) : Bytes :=
  [status <<< 5, 0, 0, addr, 0, 0, 0, 0, 0, 1, 0, 0, 0, 0, 0, 0, 0, 0, 0, 0, 0, 0, 0, len]

/-- A partial report of one byte. -/
def samplePartial (addr b : UInt8) (h : (Info.get (sampleHeader 1 addr 1)).dataStatus ≠ 3) :
    Report :=
  ⟨sampleHeader 1 addr 1, [b], rfl, rfl, h⟩

/-- A complete report of one byte. -/
def sampleComplete (addr b : UInt8) (h : (Info.get (sampleHeader 0 addr 1)).dataStatus ≠ 3) :
    Report :=
  ⟨sampleHeader 0 addr 1, [b], rfl, rfl, h⟩

/-- An event of one report. -/
def AdvEvent.one (r : Report) : AdvEvent := { reports := [r], few := by simp }

/-- The data that is delivered. -/
def Out.data : Out → Option Bytes
  | .recv _ _ data => some data
  | _ => none

theorem length_after_le (f : Frags) (r : Report) (k : Key) :
    (f.after r k).flatten.length ≤ (f k).flatten.length + r.data.length := by
  rw [Frags.after]
  split_ifs
  · exact Nat.le_add_right _ _
  · exact Nat.le_add_right _ _
  all_goals
    by_cases hk : k = r.info.key
    · subst hk
      simp
    · rw [update_of_ne hk]
      exact Nat.le_add_right _ _

theorem smooth_of_small {n : ℕ} (rs : List Report) (hf : ∀ k, (f k).flatten.length ≤ n)
    (hfits : n + (rs.map fun r => r.data.length).sum ≤ size) :
    Along (Frags.step size) (fun f e => Smooth size f e.scanning e.reports) f
      (rs.map AdvEvent.one) := by
  induction rs generalizing f n with
  | nil => trivial
  | cons r rs ih =>
    rw [map_cons, sum_cons, ← Nat.add_assoc] at hfits
    refine ⟨fun _ => ⟨?_, fun _ => .inl rfl, trivial⟩,
      ih (fun k => (length_after_le f r k).trans (Nat.add_le_add_right (hf k) _)) hfits⟩
    rintro ⟨-, -, j, -, hj⟩
    have := hf j
    omega

/-- Fragments of one advertiser among reports of another. -/
def sampleRun : List AdvEvent :=
  [samplePartial 1 1 (by decide), samplePartial 1 2 (by decide), sampleComplete 2 9 (by decide),
    samplePartial 2 5 (by decide), sampleComplete 1 3 (by decide),
    sampleComplete 2 4 (by decide)].map AdvEvent.one

theorem reports_whole_sample :
    (emitted (Slot.step 8) (Slot.emit 8) {} sampleRun).filterMap Out.data =
        [[9], [1, 2, 3], [4]] ∧
      emitted (Slot.step 8) (Slot.emit 8) {} sampleRun =
        emitted (Frags.step 8) (Frags.emit 8) (fun _ => []) sampleRun ∧
      Out.assertFailed ∉ emitted (Slot.step 8) (Slot.emit 8) {} sampleRun :=
  ⟨by decide, reports_whole (smooth_of_small (n := 0) _ (fun _ => Nat.le_refl 0) (by decide))⟩

/-- **An advertising event comes out without its first fragment**, which
came while another advertiser's event was under way. -/
theorem reports_torn :
    (emitted (Slot.step 8) (Slot.emit 8) {} ([samplePartial 1 1 (by decide),
      samplePartial 2 2 (by decide), sampleComplete 1 3 (by decide),
      sampleComplete 2 4 (by decide)].map AdvEvent.one)).filterMap Out.data = [[1, 3], [4]] := by
  decide

end Scan

end OpenBlue
