import OpenBlue.Mesh.Model.Subnet
/-!
# Mesh — the bridging table

The model of `brg_cfg.c`: the rows of the bridging table as an array with a
count, with the loop that marks the rows to be removed, the one that moves
the others up in place, and the checks of the two configuration messages.
-/

namespace OpenBlue

namespace KeyTables

/-- `struct bt_mesh_brg_cfg_row`. -/
structure Row where
  /-- 0 where the row is no entry. -/
  direction : ℕ := 0
  netIdx1 : ℕ := 0
  netIdx2 : ℕ := 0
  addr1 : ℕ := 0
  addr2 : ℕ := 0
  deriving DecidableEq, Repr

/-- `brg_tbl` and `bt_mesh_brg_cfg_row_cnt`. -/
structure BrgTbl where
  tbl : List Row
  rowCnt : ℕ
  deriving DecidableEq, Repr

/-- The rows that are in the table. -/
def BrgTbl.rows (b : BrgTbl) : List Row := b.tbl.take b.rowCnt

/-- The table at start, with `CONFIG_BT_MESH_BRG_TABLE_ITEMS_MAX` items. -/
def brgInit (itemsMax : ℕ) : BrgTbl := ⟨List.replicate itemsMax {}, 0⟩

/-- `BT_MESH_ADDR_UNASSIGNED`. -/
def addrUnassigned : ℕ := 0

/-- `BT_MESH_ADDR_ALL_NODES`. -/
def addrAllNodes : ℕ := 0xffff

/-- `BT_MESH_ADDR_IS_UNICAST`. -/
def isUnicast (addr : ℕ) : Bool := addr ≠ addrUnassigned && addr < 0x8000

/-- `BT_MESH_BRG_CFG_KEY_INDEX_MAX`. -/
def keyIndexMax : ℕ := 0x0fff

/-- `BT_MESH_BRG_CFG_DIR_ONEWAY`. -/
def dirOneway : ℕ := 1

/-- `BT_MESH_BRG_CFG_DIR_TWOWAY`. -/
def dirTwoway : ℕ := 2

/-! ## Removal -/

/-- The loop of `brg_tbl_compact` from row `k` on, with `n` rows to go and
`j` the place of the next row that stays. -/
def compactLoop : ℕ → ℕ → ℕ → List Row → List Row × ℕ
  | 0, _, j, tbl => (tbl, j)
  | n + 1, k, j, tbl =>
    if (tbl.getD k {}).direction ≠ 0 then
      compactLoop n (k + 1) (j + 1) (tbl.set j (tbl.getD k {}))
    else compactLoop n (k + 1) j tbl

/-- `brg_tbl_compact`. -/
def brgTblCompact (j : ℕ) (b : BrgTbl) : BrgTbl :=
  let (tbl, j) := compactLoop (b.rowCnt - j) j j b.tbl
  ⟨tbl.take j ++ List.replicate (b.rowCnt - j) {} ++ tbl.drop b.rowCnt, j⟩

/-- The loop that sets the direction of the rows to be removed to 0, from
row `i` on with `n` rows to go; `first` is `first_removed`. -/
def markLoop (p : Row → Bool) : ℕ → ℕ → Option ℕ → List Row → List Row × Option ℕ
  | 0, _, first, tbl => (tbl, first)
  | n + 1, i, first, tbl =>
    if p (tbl.getD i {}) then
      markLoop p n (i + 1) (first <|> some i) (tbl.set i { tbl.getD i {} with direction := 0 })
    else markLoop p n (i + 1) first tbl

/-- The rows that match are marked, and the others moved up. -/
def removeRows (p : Row → Bool) (b : BrgTbl) : BrgTbl :=
  match markLoop p b.rowCnt 0 none b.tbl with
  | (tbl, none) => { b with tbl := tbl }
  | (tbl, some first) => brgTblCompact first { b with tbl := tbl }

/-- `brg_tbl_netkey_removed_evt`. -/
def brgTblNetkeyRemovedEvt (netIdx : ℕ) (evt : KeyEvt) (b : BrgTbl) : BrgTbl :=
  if evt ≠ .deleted then b
  else removeRows (fun row => row.netIdx1 = netIdx || row.netIdx2 = netIdx) b

/-! ## Configuration -/

/-- What a call answers: `-EINVAL`, or 0 with a status. -/
inductive BrgRet
  | einval
  | status (s : Status)
  deriving DecidableEq, Repr

/-- `netkey_check`. -/
def netkeyCheck (t : List Subnet) (netIdx1 netIdx2 : ℕ) : Bool :=
  (subnetGet t netIdx1).isSome && (subnetGet t netIdx2).isSome

/-- The sanity checks of `bt_mesh_brg_cfg_tbl_add`. -/
def addRefused (direction netIdx1 netIdx2 addr1 addr2 : ℕ) : Bool :=
  (!isUnicast addr1 || netIdx1 = netIdx2 || addr1 = addr2 || netIdx1 > keyIndexMax ||
    netIdx2 > keyIndexMax) ||
  (direction ≠ dirOneway && direction ≠ dirTwoway) ||
  (direction = dirOneway && (addr2 = addrUnassigned || addr2 = addrAllNodes) ||
    direction = dirTwoway && !isUnicast addr2)

/-- The row is the entry of these subnets and addresses. -/
def Row.isEntry (netIdx1 netIdx2 addr1 addr2 : ℕ) (row : Row) : Bool :=
  row.netIdx1 = netIdx1 && row.netIdx2 = netIdx2 && row.addr1 = addr1 && row.addr2 = addr2

/-- `bt_mesh_brg_cfg_tbl_add`. -/
def brgCfgTblAdd (t : List Subnet) (direction netIdx1 netIdx2 addr1 addr2 : ℕ) (b : BrgTbl) :
    BrgTbl × BrgRet :=
  if addRefused direction netIdx1 netIdx2 addr1 addr2 then (b, .einval)
  else if ¬ netkeyCheck t netIdx1 netIdx2 then (b, .status .invalidNetkey)
  else
    match b.rows.findIdx? (Row.isEntry netIdx1 netIdx2 addr1 addr2) with
    | some i =>
      -- An entry that exists is given the direction of the message.
      ({ b with tbl := b.tbl.set i { b.tbl.getD i {} with direction := direction } },
        .status .success)
    | none =>
      if b.rowCnt ≥ b.tbl.length then (b, .status .insuffResources)
      else
        (⟨b.tbl.set b.rowCnt ⟨direction, netIdx1, netIdx2, addr1, addr2⟩, b.rowCnt + 1⟩,
          .status .success)

/-- The sanity checks of `bt_mesh_brg_cfg_tbl_remove`. -/
def removeRefused (netIdx1 netIdx2 addr1 addr2 : ℕ) : Bool :=
  (!isUnicast addr1 && addr1 ≠ addrUnassigned || isUnicast addr1 && addr1 = addr2 ||
    addr2 = addrAllNodes) ||
  (netIdx1 = netIdx2 || netIdx1 > keyIndexMax || netIdx2 > keyIndexMax)

/-- The match of `bt_mesh_brg_cfg_tbl_remove`. -/
def Row.isRemoved (netIdx1 netIdx2 addr1 addr2 : ℕ) (row : Row) : Bool :=
  (row.netIdx1 = netIdx1 && row.netIdx2 = netIdx2) &&
  (row.addr1 = addr1 && row.addr2 = addr2 || addr2 = addrUnassigned && row.addr1 = addr1 ||
    addr1 = addrUnassigned && row.addr2 = addr2)

/-- `bt_mesh_brg_cfg_tbl_remove`. -/
def brgCfgTblRemove (t : List Subnet) (netIdx1 netIdx2 addr1 addr2 : ℕ) (b : BrgTbl) :
    BrgTbl × BrgRet :=
  if removeRefused netIdx1 netIdx2 addr1 addr2 then (b, .einval)
  else if ¬ netkeyCheck t netIdx1 netIdx2 then (b, .status .invalidNetkey)
  else if b.rowCnt = 0 then (b, .status .success)
  else (removeRows (Row.isRemoved netIdx1 netIdx2 addr1 addr2) b, .status .success)

/-- The calls that change the bridging table. -/
inductive BrgEvent
  /-- `bt_mesh_brg_cfg_tbl_add`. -/
  | add (direction netIdx1 netIdx2 addr1 addr2 : ℕ)
  /-- `bt_mesh_brg_cfg_tbl_remove`. -/
  | remove (netIdx1 netIdx2 addr1 addr2 : ℕ)
  deriving DecidableEq, Repr

/-- One call. -/
def brgCall (t : List Subnet) (b : BrgTbl) : BrgEvent → BrgTbl × BrgRet
  | .add direction netIdx1 netIdx2 addr1 addr2 =>
    brgCfgTblAdd t direction netIdx1 netIdx2 addr1 addr2 b
  | .remove netIdx1 netIdx2 addr1 addr2 => brgCfgTblRemove t netIdx1 netIdx2 addr1 addr2 b

end KeyTables

end OpenBlue
