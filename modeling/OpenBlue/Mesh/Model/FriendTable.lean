import OpenBlue.Mesh.Model.Friend
import OpenBlue.Mesh.Model.Subnet
/-!
# Mesh — the table of friendships

The model of `bt_mesh.frnd`, the contexts of the friendships of a node:
how a context is looked up, how a Friend Request chooses one, and every
place that calls `friend_clear`. A context that is cleared keeps the
address and the number of elements of its Low Power Node. Each call of
`friend_clear` is recorded with the pointer `frnd->subnet` it finds, which
it reads through. The parameters of the timers, the clear procedure with
the previous Friend and the confirmations that are sent are left out.
-/

namespace OpenBlue

namespace Friend

/-- `BT_MESH_KEY_ANY`. -/
def keyAny : ℕ := 0xffff

/-- `BT_MESH_ADDR_UNASSIGNED`. -/
def addrUnassigned : ℕ := 0

/-- `BT_MESH_ADDR_IS_UNICAST`. -/
def isUnicast (addr : ℕ) : Bool := addr ≠ addrUnassigned && addr < 0x8000

/-! ## Contexts -/

/-- `struct bt_mesh_friend`: the friendship `f`, the place of its subnet in
`subnets`, and the data of the Friend Request. -/
structure Slot where
  f : Frnd
  subnet : ℕ := 0
  numElem : ℕ := 0
  lpnCounter : UInt16 := 0
  counter : UInt16 := 0
  deriving DecidableEq, Repr

/-- `frnd->subnet`, `none` for `NULL`. -/
def Slot.subnetPtr (s : Slot) : Option ℕ := if s.f.allocated then some s.subnet else none

/-- `is_lpn_unicast`. -/
def Slot.isLpnUnicast (addr : ℕ) (s : Slot) : Bool :=
  if s.f.lpn = addrUnassigned then false else s.f.lpn ≤ addr && addr < s.f.lpn + s.numElem

/-- The contexts, and `net_idx` of each of `subnets`. -/
structure Table where
  frnd : List Slot
  netIdx : List ℕ
  deriving DecidableEq, Repr

/-- The table at start, with `CONFIG_BT_MESH_FRIEND_LPN_COUNT` contexts. -/
def tableInit (lpnCount segRx : ℕ) (netIdx : List ℕ) : Table where
  frnd := List.replicate lpnCount { f := frndInit segRx }
  netIdx := netIdx

/-- `sub->net_idx`. -/
def Table.netIdxOf (t : Table) (sub : ℕ) : ℕ := t.netIdx.getD sub keyUnused

/-- The conditions of `bt_mesh_friend_find` on a context. -/
def Table.matchesLpn (t : Table) (netIdx lpnAddr : ℕ) (valid established : Bool) (s : Slot) :
    Bool :=
  if valid && !s.f.allocated then false
  else if established && !s.f.established then false
  else if netIdx ≠ keyAny ∧ (!s.f.allocated ∨ t.netIdxOf s.subnet ≠ netIdx) then false
  else s.isLpnUnicast lpnAddr

/-- `bt_mesh_friend_find`. -/
def Table.find (t : Table) (netIdx lpnAddr : ℕ) (valid established : Bool) : Option ℕ :=
  t.frnd.findIdx? (t.matchesLpn netIdx lpnAddr valid established)

/-! ## Clearing -/

/-- A call of `friend_clear`: the context, and what `frnd->subnet` is. -/
structure Entered where
  slot : ℕ
  subnet : Option ℕ
  deriving DecidableEq, Repr

/-- What a function leaves, and the calls of `friend_clear` it makes. -/
structure TableRet where
  t : Table
  entered : List Entered := []
  deriving DecidableEq, Repr

/-- The table with a context replaced. -/
def Table.put (i : ℕ) (s : Slot) (t : Table) : Table := { t with frnd := t.frnd.set i s }

/-- `friend_clear` on a context. -/
def Slot.clear (s : Slot) : Slot := { s with f := friendClear s.f, counter := s.counter + 1 }

/-- A call of `friend_clear` on context `i`, which is `s`. -/
def Table.clear (i : ℕ) (s : Slot) (t : Table) : TableRet :=
  ⟨t.put i s.clear, [⟨i, s.subnetPtr⟩]⟩

/-- A loop over contexts; `body` gets the context as it then is. -/
def eachSlot (body : ℕ → Slot → Table → TableRet) : List ℕ → Table → TableRet
  | [], t => ⟨t, []⟩
  | i :: is, t =>
    match t.frnd[i]? with
    | none => eachSlot body is t
    | some s =>
      let r := body i s t
      let rest := eachSlot body is r.t
      ⟨rest.t, r.entered ++ rest.entered⟩

/-- `bt_mesh_friends_clear`. -/
def friendsClear (t : Table) : TableRet :=
  eachSlot (fun i s t => if ¬ s.f.allocated then ⟨t, []⟩ else t.clear i s)
    (List.range t.frnd.length) t

/-- `msg->lpn_addr` of a Friend Clear. -/
def clearLpnAddr (buf : Bytes) : ℕ := beNat (buf.take 2)

/-- `msg->lpn_counter` of a Friend Clear. -/
def clearLpnCounter (buf : Bytes) : UInt16 := UInt16.ofNat (beNat ((buf.drop 2).take 2))

/-- `bt_mesh_friend_clear`. The difference of the counters is one of
`int`. -/
def friendClearMsg (sub : ℕ) (buf : Bytes) (t : Table) : TableRet :=
  if buf.length < 4 then ⟨t, []⟩
  else
    match t.find (t.netIdxOf sub) (clearLpnAddr buf) false false with
    | none => ⟨t, []⟩
    | some i =>
      match t.frnd[i]? with
      | none => ⟨t, []⟩
      | some s =>
        if ((clearLpnCounter buf).toNat : Int) - s.lpnCounter.toNat > 255 then ⟨t, []⟩
        else t.clear i s

/-- `bt_mesh_friend_terminate`. -/
def friendTerminate (lpnAddr : ℕ) (t : Table) : TableRet :=
  match t.find keyAny lpnAddr false false with
  | none => ⟨t, []⟩
  | some i =>
    match t.frnd[i]? with
    | none => ⟨t, []⟩
    | some s => t.clear i s

/-! ## Requests -/

/-- The checks of `bt_mesh_friend_req` on the message and its source. -/
def reqAccepted (cfg : FriendCfg) (src : ℕ) (buf : Bytes) : Bool :=
  let criteria := buf.getD 0 0
  let pollTo := beNat ((buf.drop 2).take 3)
  let numElem := (buf.getD 7 0).toNat
  !decide (buf.length < 10) && !decide ((buf.getD 1 0).toNat ≤ 0x09) &&
    !(decide (pollTo ≤ 0x000009) || decide (pollTo ≥ 0x34bc00)) && !decide (numElem = 0) &&
    isUnicast (src + numElem - 1) && !decide (criteria &&& 0x07 = 0) &&
    !decide (cfg.queueSize < 2 ^ (criteria &&& 0x07).toNat)

/-- `bt_mesh_friend_req` from `init_friend` on, for the context `s` it has
chosen; `credOk` is how the derivation of the credentials ends. -/
def initFriend (cfg : FriendCfg) (sub src : ℕ) (buf : Bytes) (credOk : Bool) (pdu : CtlPdu)
    (e : Encryption) (i : ℕ) (s : Slot) (t : Table) : TableRet :=
  let s := { s with
    f := { s.f with allocated := true, lpn := src }
    subnet := sub
    numElem := (buf.getD 7 0).toNat
    lpnCounter := UInt16.ofNat (beNat ((buf.drop 8).take 2)) }
  if !credOk then t.clear i s
  else ⟨t.put i { s with f := enqueueOffer cfg pdu e s.f }, []⟩

/-- `bt_mesh_friend_req`; `netIfLocal` is a message from the node itself. -/
def friendReqMsg (cfg : FriendCfg) (sub src : ℕ) (netIfLocal : Bool) (buf : Bytes) (credOk : Bool)
    (pdu : CtlPdu) (e : Encryption) (t : Table) : TableRet :=
  if netIfLocal || !reqAccepted cfg src buf then ⟨t, []⟩
  else
    match t.find (t.netIdxOf sub) src true false with
    | some i =>
      match t.frnd[i]? with
      | none => ⟨t, []⟩
      | some s =>
        -- Existing LPN re-requesting Friendship
        let r := t.clear i s
        let r' := initFriend cfg sub src buf credOk pdu e i s.clear r.t
        ⟨r'.t, r.entered ++ r'.entered⟩
    | none =>
      match t.frnd.findIdx? fun s => !s.f.allocated with
      | none => ⟨t, []⟩
      | some i =>
        match t.frnd[i]? with
        | none => ⟨t, []⟩
        | some s => initFriend cfg sub src buf credOk pdu e i s t

/-! ## Timers and subnets -/

/-- `friend_timeout` on a context. -/
def tableTimeout (e : Encryption) (adv : Bool) (i : ℕ) (s : Slot) (t : Table) : TableRet :=
  if ¬ s.f.allocated then ⟨t, []⟩
  else if s.f.sendLast ∧ s.f.last.isSome then
    ⟨t.put i { s with f := (friendTimeout e adv s.f).1 }, []⟩
  else if s.f.established ∧ ¬ s.f.pendingReq then t.clear i s
  else
    match s.f.queue with
    | [] => t.clear i { s with f := { s.f with last := none } }
    | _ :: _ => ⟨t.put i { s with f := (friendTimeout e adv s.f).1 }, []⟩

/-- The body of the loop of `subnet_evt` in `friend.c`. -/
def friendSubnetEvt (cfg : FriendCfg) (sub : ℕ) (evt : KeyTables.KeyEvt) (credOk : Bool)
    (pdu : CtlPdu) (i : ℕ) (s : Slot) (t : Table) : TableRet :=
  if s.subnetPtr ≠ some sub then ⟨t, []⟩
  else
    match evt with
    | .added => ⟨t, []⟩
    | .deleted => t.clear i s
    | .updated => if !credOk then t.clear i s else ⟨t, []⟩
    | .swapped | .revoked => ⟨t.put i { s with f := enqueueUpdate cfg pdu s.f }, []⟩

/-- The table the network layer leaves after a subnet event: the NetKey
index of a subnet that is added is `netIdx`. -/
def Table.subnetEvt (sub netIdx : ℕ) (evt : KeyTables.KeyEvt) (t : Table) : Table :=
  match evt with
  | .added => { t with netIdx := t.netIdx.set sub netIdx }
  | .deleted => { t with netIdx := t.netIdx.set sub keyUnused }
  | .updated | .swapped | .revoked => t

/-! ## Runs -/

/-- A step of a friendship that clears nothing. -/
def FriendEvent.quiet : FriendEvent → Bool
  | .req .. | .timeout .. | .clear => false
  | _ => true

/-- What can happen to the table. -/
inductive TableEvent
  /-- A Friend Request. -/
  | req (sub src : ℕ) (netIfLocal : Bool) (buf : Bytes) (credOk : Bool) (pdu : CtlPdu)
      (e : Encryption)
  /-- A Friend Clear. -/
  | clear (sub : ℕ) (buf : Bytes)
  /-- `bt_mesh_friend_terminate`. -/
  | terminate (lpnAddr : ℕ)
  /-- `bt_mesh_friends_clear`. -/
  | friendsClear
  /-- The timer of a context fires. -/
  | timeout (i : ℕ) (e : Encryption) (adv : Bool)
  /-- An event of a subnet. `handlers` is whether the handlers that are
  registered are run, which is up to `STRUCT_SECTION_FOREACH`. -/
  | subnet (handlers : Bool) (sub netIdx : ℕ) (evt : KeyTables.KeyEvt) (credOk : ℕ → Bool)
      (pdu : ℕ → CtlPdu)
  /-- Any other step of a friendship. -/
  | queue (i : ℕ) (ev : FriendEvent) (quiet : ev.quiet = true)

/-- One step of the table, with the calls of `friend_clear`. A message is
received on a subnet that is in use. -/
def tableRet (cfg : FriendCfg) (t : Table) : TableEvent → TableRet
  | .req sub src netIfLocal buf credOk pdu e =>
    if t.netIdxOf sub = keyUnused then ⟨t, []⟩
    else friendReqMsg cfg sub src netIfLocal buf credOk pdu e t
  | .clear sub buf =>
    if t.netIdxOf sub = keyUnused then ⟨t, []⟩ else friendClearMsg sub buf t
  | .terminate lpnAddr => friendTerminate lpnAddr t
  | .friendsClear => Friend.friendsClear t
  | .timeout i e adv => eachSlot (tableTimeout e adv) [i] t
  | .subnet handlers sub netIdx evt credOk pdu =>
    let r :=
      if handlers then
        eachSlot (fun i => friendSubnetEvt cfg sub evt (credOk i) (pdu i) i)
          (List.range t.frnd.length) t
      else ⟨t, []⟩
    ⟨r.t.subnetEvt sub netIdx evt, r.entered⟩
  | .queue i ev _ =>
    eachSlot (fun i s t => ⟨t.put i { s with f := friendStep cfg s.f ev }, []⟩) [i] t

/-- One step of the table. -/
def tableStep (cfg : FriendCfg) (t : Table) (e : TableEvent) : Table := (tableRet cfg t e).t

end Friend

end OpenBlue
