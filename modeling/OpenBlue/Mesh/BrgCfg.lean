import Mathlib.Data.List.Nodup
import OpenBlue.Mesh.SubnetPhases
/-!
# Mesh — the bridging table

Marking rows and moving the others up in place leaves the rows that were
not marked, in order (`removeRows_rows`). Over that, every row of the table
has passed the checks it was added by, and no two have the same subnets and
addresses, whatever is called (`TblOk`). That the subnets of a row still
exist is up to the handler of `brg_cfg.c`, which is never run; and a
removal that names neither address finds no row.
-/

namespace OpenBlue

namespace KeyTables

open List Row

variable {cfg : KeysCfg} {t : List Subnet} {b : BrgTbl} {tbl : List Row} {p : Row → Bool}
variable {node : Node} {direction netIdx1 netIdx2 addr1 addr2 : ℕ}

/-! ## Removal in place -/

/-- A row with the mark of removal, if it is to be removed. -/
def Row.mark (p : Row → Bool) (row : Row) : Row := if p row then { row with direction := 0 } else row

/-- The row is an entry. -/
def Row.live (row : Row) : Bool := row.direction ≠ 0

theorem getD_row {i : ℕ} (hi : i < tbl.length) : tbl.getD i {} = tbl[i] := by
  rw [getD_eq_getElem?_getD, getElem?_eq_getElem hi, Option.getD_some]

theorem take_succ_set {i : ℕ} (hi : i < tbl.length) (row : Row) :
    (tbl.set i row).take (i + 1) = tbl.take i ++ [row] := by
  rw [take_add_one, getElem?_set_self hi, Option.toList_some, take_set_of_le (Nat.le_refl i)]

theorem drop_set {i j : ℕ} (hij : i < j) (row : Row) : (tbl.set i row).drop j = tbl.drop j :=
  drop_set_of_lt hij

/-- **The rows are marked**, and the first of them is found. -/
theorem markLoop_spec (p : Row → Bool) (n i : ℕ) (first : Option ℕ) (tbl : List Row)
    (hi : i + n ≤ tbl.length) : (markLoop p n i first tbl).1 =
        tbl.take i ++ ((tbl.drop i).take n).map (mark p) ++ tbl.drop (i + n) ∧
      (markLoop p n i first tbl).2 =
        (first <|> (((tbl.drop i).take n).findIdx? p).map (i + ·)) := by
  induction n generalizing i first tbl with
  | zero => simp [markLoop]
  | succ n ih =>
    have hlt : i < tbl.length := by omega
    rw [markLoop, getD_row hlt, drop_eq_getElem_cons hlt, take_succ_cons, map_cons,
      findIdx?_cons, mark]
    split
    next hp =>
      obtain ⟨htbl, hfirst⟩ := ih (i + 1) (first <|> some i)
        (tbl.set i { tbl[i] with direction := 0 }) (by rw [length_set]; omega)
      rw [htbl, hfirst, take_succ_set hlt, drop_set (by omega), drop_set (by omega)]
      refine ⟨by rw [append_assoc, append_assoc, append_assoc,
        show i + (n + 1) = i + 1 + n by omega]; rfl, ?_⟩
      cases first <;> rfl
    next hp =>
      obtain ⟨htbl, hfirst⟩ := ih (i + 1) first tbl (by omega)
      rw [htbl, hfirst, take_add_one, getElem?_eq_getElem hlt, Option.toList_some]
      refine ⟨by rw [append_assoc, append_assoc, append_assoc,
        show i + (n + 1) = i + 1 + n by omega]; rfl, ?_⟩
      have hshift : (fun m => i + 1 + m) = (i + ·) ∘ (· + 1) := by
        funext m
        show i + 1 + m = i + (m + 1)
        omega
      rw [Option.map_map, hshift]

/-- **The rows that stay are moved up** to the end of those that have been
kept so far. -/
theorem compactLoop_spec (n k j : ℕ) (tbl : List Row) (hjk : j ≤ k) (hk : k + n ≤ tbl.length) :
    (compactLoop n k j tbl).1.take (compactLoop n k j tbl).2 =
        tbl.take j ++ ((tbl.drop k).take n).filter Row.live ∧
      (compactLoop n k j tbl).1.length = tbl.length ∧ (compactLoop n k j tbl).2 ≤ k + n := by
  induction n generalizing k j tbl with
  | zero => simp [compactLoop, hjk]
  | succ n ih =>
    have hlt : k < tbl.length := by omega
    rw [compactLoop, getD_row hlt, drop_eq_getElem_cons hlt, take_succ_cons, filter_cons]
    split
    next hlive =>
      have hrow : (tbl[k]).live = true := decide_eq_true hlive
      obtain ⟨htake, hlen, hle⟩ := ih (k + 1) (j + 1) (tbl.set j tbl[k]) (by omega)
        (by rw [length_set]; omega)
      rw [htake, hlen, take_succ_set (by omega), drop_set (by omega), if_pos hrow,
        length_set, append_assoc]
      exact ⟨rfl, rfl, by omega⟩
    next hdead =>
      have hrow : ¬ (tbl[k]).live = true := fun hlive => hdead (of_decide_eq_true hlive)
      obtain ⟨htake, hlen, hle⟩ := ih (k + 1) j tbl (by omega) (by omega)
      rw [htake, hlen, if_neg hrow]
      exact ⟨rfl, rfl, by omega⟩

/-- The array is long enough for the rows, and each of them is an entry. -/
structure BrgTbl.Live (b : BrgTbl) : Prop where
  cnt : b.rowCnt ≤ b.tbl.length
  live : ∀ row ∈ b.rows, row.live = true

theorem filter_mark {rows : List Row} (h : ∀ row ∈ rows, row.live = true) :
    (rows.map (mark p)).filter Row.live = rows.filter (fun row => !p row) := by
  induction rows with
  | nil => rfl
  | cons row rows ih =>
    have hrow := h row mem_cons_self
    rw [map_cons, filter_cons, filter_cons, mark, ih fun r hr => h r (mem_cons_of_mem _ hr)]
    cases hp : p row with
    | false =>
      rw [if_neg Bool.false_ne_true, if_pos hrow]
      rfl
    | true =>
      rw [if_pos rfl]
      rfl

theorem map_mark_of_none {rows : List Row} (h : ∀ row ∈ rows, p row = false) :
    rows.map (mark p) = rows := by
  conv_rhs => rw [← map_id rows]
  refine map_congr_left fun row hrow => ?_
  rw [mark, h row hrow]
  rfl

/-- **Compaction** leaves the rows that are entries, where those before the
first that is none are. -/
theorem brgTblCompact_rows {j : ℕ} (hj : j ≤ b.rowCnt) (hcnt : b.rowCnt ≤ b.tbl.length) :
    (brgTblCompact j b).rows = b.rows.take j ++ (b.rows.drop j).filter Row.live ∧
      (brgTblCompact j b).rowCnt ≤ (brgTblCompact j b).tbl.length := by
  obtain ⟨htake, hlen, hle⟩ := compactLoop_spec (b.rowCnt - j) j j b.tbl (Nat.le_refl j) (by omega)
  rw [Nat.add_sub_cancel' hj] at hle
  have hplace : ((compactLoop (b.rowCnt - j) j j b.tbl).1.take
      (compactLoop (b.rowCnt - j) j j b.tbl).2).length =
      (compactLoop (b.rowCnt - j) j j b.tbl).2 := by
    rw [length_take, hlen]
    omega
  constructor
  · rw [BrgTbl.rows, brgTblCompact]
    dsimp only
    rw [append_assoc, take_append_of_le_length (by omega), take_take, Nat.min_self,
      htake, BrgTbl.rows, take_take, Nat.min_eq_left hj, drop_take]
  · rw [brgTblCompact]
    dsimp only
    rw [length_append, length_append, hplace, length_replicate, length_drop, hlen]
    omega

/-- **Removal** leaves the rows that do not match, in order. -/
theorem removeRows_rows (h : b.Live) (p : Row → Bool) :
    (removeRows p b).rows = b.rows.filter (fun row => !p row) ∧
      (removeRows p b).rowCnt ≤ (removeRows p b).tbl.length := by
  obtain ⟨htbl, hfirst⟩ := markLoop_spec p b.rowCnt 0 none b.tbl (by have := h.cnt; omega)
  rw [take_zero, nil_append, drop_zero, Nat.zero_add] at htbl
  rw [drop_zero] at hfirst
  generalize hloop : markLoop p b.rowCnt 0 none b.tbl = marked at htbl hfirst
  obtain ⟨tbl, first⟩ := marked
  obtain rfl : tbl = b.rows.map (mark p) ++ b.tbl.drop b.rowCnt := htbl
  have hfirst' : first = (none <|> (b.rows.findIdx? p).map (0 + ·)) := hfirst
  have hrows : (b.rows.map (mark p)).length = b.rowCnt := by
    rw [length_map, BrgTbl.rows, length_take, Nat.min_eq_left h.cnt]
  have hmarked : BrgTbl.rows ⟨b.rows.map (mark p) ++ b.tbl.drop b.rowCnt, b.rowCnt⟩ =
      b.rows.map (mark p) := take_left' hrows
  have hcnt : b.rowCnt ≤ (b.rows.map (mark p) ++ b.tbl.drop b.rowCnt).length := by
    rw [length_append, hrows]
    omega
  rw [← filter_mark h.live, removeRows, hloop]
  cases hidx : b.rows.findIdx? p with
  | none =>
    have hnone : ∀ row ∈ b.rows, p row = false := findIdx?_eq_none_iff.1 hidx
    obtain rfl : first = none := by rw [hfirst', hidx]; rfl
    refine ⟨?_, hcnt⟩
    show BrgTbl.rows ⟨_, _⟩ = _
    rw [hmarked, map_mark_of_none hnone, filter_eq_self.2 h.live]
  | some m =>
    obtain ⟨hm, hpm, hbefore⟩ := findIdx?_eq_some_iff_getElem.1 hidx
    obtain rfl : first = some m := by
      rw [hfirst', hidx]
      exact congrArg some (Nat.zero_add m)
    have hle : m ≤ b.rowCnt := by rw [← hrows, length_map]; omega
    obtain ⟨hcompact, hlen⟩ := brgTblCompact_rows
      (b := ⟨b.rows.map (mark p) ++ b.tbl.drop b.rowCnt, b.rowCnt⟩) hle hcnt
    refine ⟨?_, hlen⟩
    dsimp only
    rw [hcompact, hmarked]
    conv_rhs => rw [← take_append_drop m (b.rows.map (mark p)), filter_append]
    congr 1
    -- No row before the first one found has been marked.
    refine (filter_eq_self.2 fun row hrow => ?_).symm
    rw [← map_take] at hrow
    obtain ⟨r, hr, rfl⟩ := mem_map.1 hrow
    obtain ⟨l, hl, rfl⟩ := getElem_of_mem hr
    rw [length_take] at hl
    have hp : p b.rows[l] = false := by simpa using hbefore l (by omega)
    rw [getElem_take, mark, hp]
    exact h.live _ (getElem_mem _)

/-! ## The rows of the table -/

/-- What no two rows share. -/
def Row.entry (row : Row) : ℕ × ℕ × ℕ × ℕ := (row.netIdx1, row.netIdx2, row.addr1, row.addr2)

/-- What holds of the table whatever is called: its rows have passed the
checks they were added by, and each is of other subnets or addresses. -/
structure TblOk (b : BrgTbl) : Prop where
  cnt : b.rowCnt ≤ b.tbl.length
  checked : ∀ row ∈ b.rows,
    addRefused row.direction row.netIdx1 row.netIdx2 row.addr1 row.addr2 = false
  distinct : (b.rows.map Row.entry).Nodup

/-- What the checks of a row that is added see to. -/
structure Row.Checked (row : Row) : Prop where
  direction : row.direction = dirOneway ∨ row.direction = dirTwoway
  addr1 : row.addr1 ≠ addrUnassigned
  addr2 : row.addr2 ≠ addrUnassigned
  differ : row.netIdx1 ≠ row.netIdx2
  max1 : row.netIdx1 ≤ keyIndexMax
  max2 : row.netIdx2 ≤ keyIndexMax

theorem addRefused_false (h : addRefused direction netIdx1 netIdx2 addr1 addr2 = false) :
    (⟨direction, netIdx1, netIdx2, addr1, addr2⟩ : Row).Checked := by
  simp only [addRefused, isUnicast, Bool.or_eq_false_iff, Bool.and_eq_false_iff,
    Bool.not_eq_false', Bool.and_eq_true, decide_eq_true_eq, decide_eq_false_iff_not] at h
  simp only [dirOneway, dirTwoway, addrUnassigned, addrAllNodes] at h
  have hdirection : direction = 1 ∨ direction = 2 := by omega
  have haddr1 : addr1 ≠ 0 := by omega
  have haddr2 : addr2 ≠ 0 := by omega
  have hdiffer : netIdx1 ≠ netIdx2 := by omega
  have hmax1 : netIdx1 ≤ keyIndexMax := by omega
  have hmax2 : netIdx2 ≤ keyIndexMax := by omega
  exact ⟨hdirection, haddr1, haddr2, hdiffer, hmax1, hmax2⟩

theorem TblOk.row (h : TblOk b) {row : Row} (hrow : row ∈ b.rows) : row.Checked :=
  addRefused_false (h.checked row hrow)

theorem TblOk.toLive (h : TblOk b) : b.Live where
  cnt := h.cnt
  live row hrow := by
    rcases (h.row hrow).direction with hd | hd
    all_goals
      rw [Row.live, hd]
      rfl

theorem brgInit_tblOk (itemsMax : ℕ) : TblOk (brgInit itemsMax) :=
  ⟨Nat.zero_le _, fun _ hrow => absurd hrow not_mem_nil, nodup_nil⟩

/-- **A row is added**: an entry that exists is given the direction, or a
new one is put at the end. -/
theorem brgCfgTblAdd_cases (t : List Subnet) (direction netIdx1 netIdx2 addr1 addr2 : ℕ)
    (hcnt : b.rowCnt ≤ b.tbl.length) :
    (brgCfgTblAdd t direction netIdx1 netIdx2 addr1 addr2 b).1 = b ∨
      ((brgCfgTblAdd t direction netIdx1 netIdx2 addr1 addr2 b).2 = .status .success ∧
        addRefused direction netIdx1 netIdx2 addr1 addr2 = false ∧
        netkeyCheck t netIdx1 netIdx2 = true ∧
        (brgCfgTblAdd t direction netIdx1 netIdx2 addr1 addr2 b).1.rowCnt ≤
          (brgCfgTblAdd t direction netIdx1 netIdx2 addr1 addr2 b).1.tbl.length ∧
        ((∃ (i : ℕ) (row : Row), b.rows[i]? = some row ∧
            row.entry = (netIdx1, netIdx2, addr1, addr2) ∧
            (brgCfgTblAdd t direction netIdx1 netIdx2 addr1 addr2 b).1.rows =
              b.rows.set i { row with direction := direction }) ∨
          (netIdx1, netIdx2, addr1, addr2) ∉ b.rows.map entry ∧
            (brgCfgTblAdd t direction netIdx1 netIdx2 addr1 addr2 b).1.rows =
              b.rows ++ [⟨direction, netIdx1, netIdx2, addr1, addr2⟩])) := by
  unfold brgCfgTblAdd
  split
  · exact .inl rfl
  next hchecks =>
    split
    · exact .inl rfl
    next hkeys =>
      have hchecks' := Bool.eq_false_iff.2 hchecks
      have hkeys' : netkeyCheck t netIdx1 netIdx2 = true := not_not.1 hkeys
      split
      next i hi =>
        obtain ⟨hlt, hentry, -⟩ := findIdx?_eq_some_iff_getElem.1 hi
        have hlt' : i < b.tbl.length := by
          rw [BrgTbl.rows, length_take] at hlt
          omega
        refine .inr ⟨rfl, hchecks', hkeys', by rw [length_set]; exact hcnt,
          .inl ⟨i, b.rows[i], getElem?_eq_getElem hlt, ?_, ?_⟩⟩
        · simp only [isEntry, Bool.and_eq_true, decide_eq_true_eq] at hentry
          obtain ⟨⟨⟨h1, h2⟩, h3⟩, h4⟩ := hentry
          rw [entry, h1, h2, h3, h4]
        · have hrow : b.rows[i] = b.tbl[i] := getElem_take
          rw [hrow, BrgTbl.rows, BrgTbl.rows]
          dsimp only
          rw [getD_row hlt', take_set]
      next hnone =>
        split
        · exact .inl rfl
        next hroom =>
          refine .inr ⟨rfl, hchecks', hkeys', by rw [length_set]; dsimp only; omega,
            .inr ⟨fun hmem => ?_, ?_⟩⟩
          · obtain ⟨row, hrow, hentry⟩ := mem_map.1 hmem
            have hfalse := findIdx?_eq_none_iff.1 hnone row hrow
            simp only [entry, Prod.mk.injEq] at hentry
            rw [isEntry, hentry.1, hentry.2.1, hentry.2.2.1, hentry.2.2.2] at hfalse
            simp at hfalse
          · exact take_succ_set (by omega) _

/-- **The table keeps its rows in order**, whatever is called. -/
theorem brgCall_tblOk (t : List Subnet) (h : TblOk b) (e : BrgEvent) : TblOk (brgCall t b e).1 := by
  cases e with
  | add direction netIdx1 netIdx2 addr1 addr2 =>
    show TblOk (brgCfgTblAdd t direction netIdx1 netIdx2 addr1 addr2 b).1
    rcases brgCfgTblAdd_cases t direction netIdx1 netIdx2 addr1 addr2 h.cnt with
      heq | ⟨-, hchecks, -, hcnt, ⟨i, row, hi, hentry, heq⟩ | ⟨hnew, heq⟩⟩
    · rwa [heq]
    · simp only [entry, Prod.mk.injEq] at hentry
      refine ⟨hcnt, fun r hr => ?_, ?_⟩
      · rw [heq] at hr
        rcases mem_or_eq_of_mem_set hr with hr | rfl
        · exact h.checked r hr
        · dsimp only
          rwa [hentry.1, hentry.2.1, hentry.2.2.1, hentry.2.2.2]
      · obtain ⟨hlt, rfl⟩ := List.getElem?_eq_some_iff.1 hi
        have hlt' : i < (b.rows.map entry).length := by rwa [length_map]
        have hsame : entry { b.rows[i] with direction := direction } = (b.rows.map entry)[i] := by
          rw [getElem_map]
          rfl
        rw [heq, map_set, hsame, set_getElem_self]
        exact h.distinct
    · refine ⟨hcnt, fun r hr => ?_, ?_⟩
      · rw [heq] at hr
        rcases mem_append.1 hr with hr | hr
        · exact h.checked r hr
        · rw [mem_singleton.1 hr]
          exact hchecks
      · rw [heq, map_append]
        refine List.Nodup.append h.distinct (nodup_singleton _) fun x hx hx' => hnew ?_
        rw [map_singleton, mem_singleton] at hx'
        rw [hx'] at hx
        exact hx
  | remove netIdx1 netIdx2 addr1 addr2 =>
    show TblOk (brgCfgTblRemove t netIdx1 netIdx2 addr1 addr2 b).1
    unfold brgCfgTblRemove
    split
    · exact h
    split
    · exact h
    split
    · exact h
    obtain ⟨hrows, hcnt⟩ := removeRows_rows h.toLive (isRemoved netIdx1 netIdx2 addr1 addr2)
    refine ⟨hcnt, fun r hr => h.checked r ?_, ?_⟩
    · rw [hrows] at hr
      exact (mem_filter.1 hr).1
    · rw [hrows]
      exact h.distinct.sublist (filter_sublist.map entry)

/-! ## The subnets of the rows -/

/-- The rows are distinct, each with a direction there is, and of subnets in
use. -/
structure RowsOk (t : List Subnet) (b : BrgTbl) : Prop where
  distinct : (b.rows.map Row.entry).Nodup
  direction : ∀ row ∈ b.rows, row.direction = dirOneway ∨ row.direction = dirTwoway
  subnets : ∀ row ∈ b.rows, UsedIdx t row.netIdx1 ∧ UsedIdx t row.netIdx2

/-- The row is of these subnets, with these addresses where they are
assigned. -/
def Row.Matches (netIdx1 netIdx2 addr1 addr2 : ℕ) (row : Row) : Prop :=
  row.netIdx1 = netIdx1 ∧ row.netIdx2 = netIdx2 ∧
    (addr1 = addrUnassigned ∨ row.addr1 = addr1) ∧ (addr2 = addrUnassigned ∨ row.addr2 = addr2)

instance : DecidablePred (Row.Matches netIdx1 netIdx2 addr1 addr2) := fun row =>
  inferInstanceAs (Decidable (row.netIdx1 = netIdx1 ∧ row.netIdx2 = netIdx2 ∧
    (addr1 = addrUnassigned ∨ row.addr1 = addr1) ∧ (addr2 = addrUnassigned ∨ row.addr2 = addr2)))

/-- A call that fails leaves the table, and one that removes leaves the rows
that do not match, in order. -/
def BrgEvent.Right (t : List Subnet) (b : BrgTbl) (e : BrgEvent) : Prop :=
  ((brgCall t b e).2 ≠ .status .success → (brgCall t b e).1 = b) ∧
    ∀ netIdx1 netIdx2 addr1 addr2, e = .remove netIdx1 netIdx2 addr1 addr2 →
      (brgCall t b e).2 = .status .success →
      (brgCall t b e).1.rows =
        b.rows.filter (fun row => ¬ row.Matches netIdx1 netIdx2 addr1 addr2)

/-- What is asked of the calls on the bridging table. -/
def CallRight (node : Node) : Event → Prop
  | .brg e => e.Right node.subnets node.brg
  | _ => True

/-- No subnet of a row is deleted, and no removal leaves both addresses
unassigned while there are rows of its subnets. -/
def BrgOk (node : Node) : Event → Prop
  | .subnet e => ∀ row ∈ node.brg.rows, ¬ e.Deletes row.netIdx1 ∧ ¬ e.Deletes row.netIdx2
  | .brg (.remove netIdx1 netIdx2 addr1 addr2) =>
      addr1 = addrUnassigned → addr2 = addrUnassigned →
      ∀ row ∈ node.brg.rows, ¬ (row.netIdx1 = netIdx1 ∧ row.netIdx2 = netIdx2)
  | _ => True

theorem TblOk.rowsOk (h : TblOk b)
    (hs : ∀ row ∈ b.rows, UsedIdx t row.netIdx1 ∧ UsedIdx t row.netIdx2) : RowsOk t b :=
  ⟨h.distinct, fun _ hrow => (h.row hrow).direction, hs⟩

theorem usedIdx_of_netkeyCheck (h : netkeyCheck t netIdx1 netIdx2 = true)
    (h1 : netIdx1 ≤ keyIndexMax) (h2 : netIdx2 ≤ keyIndexMax) :
    UsedIdx t netIdx1 ∧ UsedIdx t netIdx2 := by
  have hmax : keyIndexMax < keyUnused := by decide
  rw [netkeyCheck, Bool.and_eq_true, Option.isSome_iff_ne_none, Option.isSome_iff_ne_none] at h
  refine ⟨⟨by omega, ?_⟩, by omega, ?_⟩
  · rw [phaseOf, ne_eq, Option.map_eq_none_iff]
    exact h.1
  · rw [phaseOf, ne_eq, Option.map_eq_none_iff]
    exact h.2

theorem netkeyCheck_of_usedIdx (h1 : UsedIdx t netIdx1) (h2 : UsedIdx t netIdx2) :
    netkeyCheck t netIdx1 netIdx2 = true := by
  rw [netkeyCheck, Bool.and_eq_true, Option.isSome_iff_ne_none, Option.isSome_iff_ne_none]
  refine ⟨fun hnone => h1.2 ?_, fun hnone => h2.2 ?_⟩
  · rw [phaseOf, hnone, Option.map_none]
  · rw [phaseOf, hnone, Option.map_none]

theorem isRemoved_iff {row : Row} (h : row.Checked)
    (hassigned : addr1 = addrUnassigned → addr2 = addrUnassigned →
      ¬ (row.netIdx1 = netIdx1 ∧ row.netIdx2 = netIdx2)) :
    row.isRemoved netIdx1 netIdx2 addr1 addr2 = true ↔ row.Matches netIdx1 netIdx2 addr1 addr2 := by
  have h1 := h.addr1
  have h2 := h.addr2
  simp only [isRemoved, Row.Matches, Bool.and_eq_true, Bool.or_eq_true, decide_eq_true_eq]
  omega

theorem isRemoved_unassigned {row : Row} (h : row.Checked) :
    row.isRemoved netIdx1 netIdx2 addrUnassigned addrUnassigned = false := by
  have h1 := h.addr1
  have h2 := h.addr2
  rw [← Bool.not_eq_true]
  simp only [isRemoved, Bool.and_eq_true, Bool.or_eq_true, decide_eq_true_eq]
  omega

/-! ## Calls -/

theorem add_right (h : TblOk b) (hrows : RowsOk t b) (direction netIdx1 netIdx2 addr1 addr2 : ℕ) :
    RowsOk t (brgCall t b (.add direction netIdx1 netIdx2 addr1 addr2)).1 ∧
      (BrgEvent.add direction netIdx1 netIdx2 addr1 addr2).Right t b := by
  have hok := brgCall_tblOk t h (.add direction netIdx1 netIdx2 addr1 addr2)
  have hcases := brgCfgTblAdd_cases t direction netIdx1 netIdx2 addr1 addr2 h.cnt
  refine ⟨hok.rowsOk fun r hr => ?_, fun hfail => ?_, fun _ _ _ _ he => nomatch he⟩
  · change r ∈ (brgCfgTblAdd t direction netIdx1 netIdx2 addr1 addr2 b).1.rows at hr
    rcases hcases with heq | ⟨-, hchecks, hkeys, -, ⟨i, row, hi, -, heq⟩ | ⟨-, heq⟩⟩
    · exact hrows.subnets r (heq ▸ hr)
    · rw [heq] at hr
      rcases mem_or_eq_of_mem_set hr with hr | rfl
      · exact hrows.subnets r hr
      · exact hrows.subnets row (mem_of_getElem? hi)
    · rw [heq] at hr
      rcases mem_append.1 hr with hr | hr
      · exact hrows.subnets r hr
      · rw [mem_singleton.1 hr]
        have hrow := addRefused_false hchecks
        exact usedIdx_of_netkeyCheck hkeys hrow.max1 hrow.max2
  · rcases hcases with heq | ⟨hsuccess, -⟩
    · exact heq
    · exact absurd hsuccess hfail

/-- **A removal** is right exactly if it does not leave both addresses
unassigned while there are rows of its subnets. -/
theorem remove_right_iff (h : TblOk b) (hrows : RowsOk t b) (netIdx1 netIdx2 addr1 addr2 : ℕ) :
    (RowsOk t (brgCall t b (.remove netIdx1 netIdx2 addr1 addr2)).1 ∧
      (BrgEvent.remove netIdx1 netIdx2 addr1 addr2).Right t b) ↔
    (addr1 = addrUnassigned → addr2 = addrUnassigned →
      ∀ row ∈ b.rows, ¬ (row.netIdx1 = netIdx1 ∧ row.netIdx2 = netIdx2)) := by
  have hok := brgCall_tblOk t h (.remove netIdx1 netIdx2 addr1 addr2)
  obtain ⟨hremoved, -⟩ := removeRows_rows h.toLive (isRemoved netIdx1 netIdx2 addr1 addr2)
  constructor
  · rintro ⟨-, -, hright⟩ rfl rfl row hrow ⟨rfl, rfl⟩
    have hright' := hright _ _ _ _ rfl
    have hused := hrows.subnets row hrow
    have hchecked := h.row hrow
    have hmax1 := hchecked.max1
    have hmax2 := hchecked.max2
    have hdiffer := hchecked.differ
    have hne : b.rowCnt ≠ 0 := by
      intro hzero
      rw [BrgTbl.rows, hzero] at hrow
      exact absurd hrow not_mem_nil
    have hrefused : removeRefused row.netIdx1 row.netIdx2 addrUnassigned addrUnassigned = false := by
      simp only [removeRefused, Bool.or_eq_false_iff, decide_eq_false_iff_not]
      exact ⟨by decide, ⟨hdiffer, by omega⟩, by omega⟩
    have hcall : brgCall t b (.remove row.netIdx1 row.netIdx2 addrUnassigned addrUnassigned) =
        (removeRows (isRemoved row.netIdx1 row.netIdx2 addrUnassigned addrUnassigned) b,
          .status .success) := by
      show brgCfgTblRemove _ _ _ _ _ _ = _
      rw [brgCfgTblRemove, if_neg (Bool.eq_false_iff.1 hrefused),
        if_neg (not_not.2 (netkeyCheck_of_usedIdx hused.1 hused.2)), if_neg hne]
    rw [hcall] at hright'
    -- The row matches, and is still there.
    have hmem : row ∈ b.rows.filter fun r =>
        !r.isRemoved row.netIdx1 row.netIdx2 addrUnassigned addrUnassigned := by
      rw [mem_filter, isRemoved_unassigned hchecked]
      exact ⟨hrow, rfl⟩
    have hkept := hright' rfl
    rw [hremoved] at hkept
    rw [hkept, mem_filter] at hmem
    exact of_decide_eq_true hmem.2 ⟨rfl, rfl, .inl rfl, .inl rfl⟩
  · intro hassigned
    have hfilter : (removeRows (isRemoved netIdx1 netIdx2 addr1 addr2) b).rows =
        b.rows.filter (fun row => ¬ row.Matches netIdx1 netIdx2 addr1 addr2) := by
      rw [hremoved]
      refine filter_congr fun row hrow => ?_
      rw [Bool.eq_iff_iff, Bool.not_eq_true', ← Bool.not_eq_true,
        isRemoved_iff (h.row hrow) fun h1 h2 => hassigned h1 h2 row hrow]
      exact decide_eq_true_iff.symm
    have hspec : ((brgCfgTblRemove t netIdx1 netIdx2 addr1 addr2 b).2 ≠ .status .success →
        (brgCfgTblRemove t netIdx1 netIdx2 addr1 addr2 b).1 = b) ∧
        ((brgCfgTblRemove t netIdx1 netIdx2 addr1 addr2 b).2 = .status .success →
          (brgCfgTblRemove t netIdx1 netIdx2 addr1 addr2 b).1.rows =
            b.rows.filter (fun row => ¬ row.Matches netIdx1 netIdx2 addr1 addr2)) ∧
        (brgCfgTblRemove t netIdx1 netIdx2 addr1 addr2 b).1.rows ⊆ b.rows := by
      unfold brgCfgTblRemove
      split
      · exact ⟨fun _ => rfl, fun hs => (nomatch hs), fun _ hr => hr⟩
      split
      · exact ⟨fun _ => rfl, fun hs => (nomatch hs), fun _ hr => hr⟩
      split
      next hzero =>
        have hnil : b.rows = [] := by rw [BrgTbl.rows, hzero, take_zero]
        refine ⟨fun _ => rfl, fun _ => ?_, fun _ hr => hr⟩
        dsimp only
        rw [hnil, filter_nil]
      · refine ⟨fun hs => absurd rfl hs, fun _ => hfilter, fun r hr => ?_⟩
        dsimp only at hr
        rw [hfilter] at hr
        exact (mem_filter.1 hr).1
    refine ⟨hok.rowsOk fun r hr => hrows.subnets r (hspec.2.2 hr), hspec.1, ?_⟩
    rintro n1 n2 a1 a2 he hs
    obtain ⟨rfl, rfl, rfl, rfl⟩ := BrgEvent.remove.inj he
    exact hspec.2.1 hs

/-! ## Runs -/

/-- The subnets and the bridging table, as they are in every run. -/
structure BrgInv (node : Node) : Prop where
  phases : PhasesOk node.subnets
  tbl : TblOk node.brg

theorem BrgInv.step (h : BrgInv node) (cfg : KeysCfg) (e : Event) : BrgInv (node.step cfg e) where
  phases := step_phasesOk cfg h.phases e
  tbl := by
    cases e with
    | subnet e =>
      rw [step_subnet]
      exact h.tbl
    | app e => exact h.tbl
    | brg e => exact brgCall_tblOk node.subnets h.tbl e

/-- **One call** keeps the rows, and does what it should, exactly where it
meets the condition. -/
theorem step_rows_iff (cfg : KeysCfg) (h : BrgInv node) (hrows : RowsOk node.subnets node.brg)
    (e : Event) : (RowsOk (node.step cfg e).subnets (node.step cfg e).brg ∧ CallRight node e) ↔
      BrgOk node e := by
  cases e with
  | subnet e =>
    have hused : ∀ row ∈ node.brg.rows, (UsedIdx (subnetStep cfg node.subnets e) row.netIdx1 ∧
          UsedIdx (subnetStep cfg node.subnets e) row.netIdx2) ↔
        (¬ e.Deletes row.netIdx1 ∧ ¬ e.Deletes row.netIdx2) := fun row hrow =>
      and_congr (subnetStep_usedIdx cfg h.phases e (hrows.subnets row hrow).1)
        (subnetStep_usedIdx cfg h.phases e (hrows.subnets row hrow).2)
    rw [step_subnet]
    constructor
    · exact fun hr row hrow => (hused row hrow).1 (hr.1.subnets row hrow)
    · exact fun hok => ⟨h.tbl.rowsOk fun row hrow => (hused row hrow).2 (hok row hrow), trivial⟩
  | app e => exact iff_of_true ⟨hrows, trivial⟩ trivial
  | brg e =>
    cases e with
    | add direction netIdx1 netIdx2 addr1 addr2 =>
      exact iff_of_true (add_right h.tbl hrows direction netIdx1 netIdx2 addr1 addr2) trivial
    | remove netIdx1 netIdx2 addr1 addr2 =>
      exact remove_right_iff h.tbl hrows netIdx1 netIdx2 addr1 addr2

/-- **The bridging table.** In every state of a run the rows are distinct,
with a direction there is and of subnets in use, and every call on the table
does what it should, exactly if no call of the run deletes a subnet of a
row, or removes with both addresses unassigned while there are rows of the
subnets it names. -/
theorem rows_ok_iff (cfg : KeysCfg) (subnetCount appKeyCount itemsMax : ℕ) (es : List Event) :
    ((∀ es', es' <+: es →
        RowsOk (run (Node.step cfg) (nodeInit subnetCount appKeyCount itemsMax) es').subnets
          (run (Node.step cfg) (nodeInit subnetCount appKeyCount itemsMax) es').brg) ∧
      Along (Node.step cfg) CallRight (nodeInit subnetCount appKeyCount itemsMax) es) ↔
    Along (Node.step cfg) BrgOk (nodeInit subnetCount appKeyCount itemsMax) es := by
  have hinit : BrgInv (nodeInit subnetCount appKeyCount itemsMax) :=
    ⟨subnetsInit_phasesOk subnetCount, brgInit_tblOk itemsMax⟩
  exact prefix_along_iff BrgInv (fun node => RowsOk node.subnets node.brg) CallRight
    (fun node e h => h.step cfg e) (fun node e h hrows => step_rows_iff cfg h hrows e) hinit
    (hinit.tbl.rowsOk fun _ hrow => absurd hrow List.not_mem_nil) es

/-- **A subnet is deleted** and the rows of it stay. **A removal that names
neither address** removes no row of its subnets. -/
theorem rows_left_behind :
    ∃ node, node = run (Node.step plainCfg) (nodeInit 2 0 4)
        [.subnet (.add 1 [1] ends), .subnet (.add 2 [2] ends), .brg (.add 1 1 2 0x10 0x20)] ∧
      ¬ RowsOk (node.step plainCfg (.subnet (.del 2))).subnets
        (node.step plainCfg (.subnet (.del 2))).brg ∧
      ¬ CallRight node (.brg (.remove 1 2 addrUnassigned addrUnassigned)) := by
  refine ⟨_, rfl, fun hrows => ?_, fun hright => ?_⟩
  · exact absurd (hrows.subnets _ List.mem_cons_self).2.2 (by decide)
  · exact absurd (hright.2 _ _ _ _ rfl (by decide)) (by decide)

end KeyTables

end OpenBlue
