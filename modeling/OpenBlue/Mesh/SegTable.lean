import OpenBlue.Mesh.Model.AppCrypt
import OpenBlue.Mesh.SeqAuth
/-!
# Mesh — the segment table of a send

The segmentation loop of `send_seg` writes one place of `tx->seg` for each
segment and compares no index with the size of the table. The size check
of `bt_mesh_trans_send` leaves room for the short MIC, and which MIC is
put on is settled behind it, by the tailroom of the buffer. This file says
for which messages the table is large enough.
-/

namespace OpenBlue

namespace Mesh

variable {cfg : TransCfg} {env : SendEnv} {tx tx' : NetTx} {msg sdu : Bytes} {tailroom : ℕ}
variable {ctlOp : Option ℕ} {s : Trans} {net : Net}

/-! ## The places written -/

/-- The places of `tx->seg` that the loop of `send_seg` writes, from
segment `o` on with this much of the SDU left, in their order. -/
def segWrites (env : SendEnv) (ctl : Bool) : ℕ → ℕ → Bytes → List ℕ
  | 0, _, _ => []
  | fuel + 1, o, sdu =>
    if sdu.isEmpty then []
    else if !env.segAlloc o then []
    else o :: segWrites env ctl fuel (o + 1) (sdu.drop (segLen ctl))

/-- The places of `tx->seg` that a call of `send_seg` writes. -/
def sendSegWrites (cfg : TransCfg) (env : SendEnv) (tx : NetTx) (sdu : Bytes)
    (ctlOp : Option ℕ) (s : Trans) : List ℕ :=
  match segTxScan tx.src tx.addr 0 (false, none) s.segTx with
  | (_, none) => []
  | (_, some _) =>
    if cfg.friend && !env.friendSpace && isUnicast tx.addr then []
    else segWrites env ctlOp.isSome sdu.length 0 sdu

theorem lt_of_mem_segWrites {ctl : Bool} {j : ℕ} (fuel o : ℕ) (sdu : Bytes)
    (h : j ∈ segWrites env ctl fuel o sdu) : segLen ctl * (j - o) < sdu.length ∧ o ≤ j := by
  induction fuel generalizing o sdu with
  | zero => exact nomatch h
  | succ fuel ih =>
    unfold segWrites at h
    split_ifs at h with hempty halloc
    · exact nomatch h
    · exact nomatch h
    · have hpos : 0 < sdu.length := List.length_pos_iff.mpr (mt List.isEmpty_iff.mpr hempty)
      rcases List.mem_cons.mp h with rfl | hmem
      · simpa using hpos
      · obtain ⟨hlt, hle⟩ := ih _ _ hmem
        rw [List.length_drop] at hlt
        have hone : j - o = j - (o + 1) + 1 := by omega
        refine ⟨?_, by omega⟩
        rw [hone, Nat.mul_succ]
        omega

theorem le_of_mem_sendSegWrites {o : ℕ} (h : o ∈ sendSegWrites cfg env tx sdu ctlOp s) :
    o ≤ (sdu.length - 1) / segLen ctlOp.isSome := by
  unfold sendSegWrites at h
  split at h
  · exact nomatch h
  · split at h
    · exact nomatch h
    · obtain ⟨hlt, -⟩ := lt_of_mem_segWrites _ _ _ h
      rw [Nat.sub_zero] at hlt
      rw [Nat.le_div_iff_mul_le (segLen_pos _), Nat.mul_comm]
      exact Nat.le_sub_one_of_lt hlt

/-! ## What is handed to `send_seg` -/

/-- The parameters and the encrypted SDU that `bt_mesh_trans_send` hands to
`send_seg`, where its checks pass and the encryption succeeds. -/
def sentSegmented (cfg : TransCfg) (env : SendEnv) (tx : NetTx) (msg : Bytes) (tailroom : ℕ)
    (net : Net) : Option (NetTx × Bytes) :=
  match sendPlan cfg env tx msg tailroom net with
  | .error _ => none
  | .ok (tx', sdu) => if tx'.sendRel then some (tx', sdu) else none

theorem sentSegmented_eq_some : sentSegmented cfg env tx msg tailroom net = some (tx', sdu) ↔
      sendPlan cfg env tx msg tailroom net = .ok (tx', sdu) ∧ tx'.sendRel = true := by
  unfold sentSegmented
  cases sendPlan cfg env tx msg tailroom net with
  | error err => simp
  | ok p =>
    obtain ⟨tx₁, sdu₁⟩ := p
    dsimp only
    constructor
    · intro h
      split at h
      next hrel =>
        obtain ⟨rfl, rfl⟩ := Prod.mk.inj (Option.some.inj h)
        exact ⟨rfl, hrel⟩
      · exact nomatch h
    · rintro ⟨hok, hrel⟩
      obtain ⟨rfl, rfl⟩ := Prod.mk.inj (Except.ok.inj hok)
      rw [if_pos hrel]

/-- The MIC of a segmented message, by the tailroom of its buffer. -/
def segMicLen (tailroom : ℕ) : ℕ := if 8 ≤ tailroom then 8 else 4

theorem sentSegmented_length {aead : AeadEncrypt} {key uuid : Bytes}
    (h : sentSegmented cfg (env.encrypting aead key uuid) tx msg tailroom net = some (tx', sdu)) :
    0 < msg.length ∧ sdu.length = msg.length + segMicLen tailroom := by
  obtain ⟨hplan, hrel⟩ := sentSegmented_eq_some.mp h
  unfold sendPlan at hplan
  split at hplan
  · exact nomatch hplan
  next hempty =>
  split at hplan
  · exact nomatch hplan
  split at hplan
  · exact nomatch hplan
  split at hplan
  · exact nomatch hplan
  dsimp only at hplan
  split at hplan
  · exact nomatch hplan
  split at hplan
  · exact nomatch hplan
  split at hplan
  · exact nomatch hplan
  next hsdu =>
    obtain ⟨rfl, rfl⟩ := Prod.mk.inj (Except.ok.inj hplan)
    refine ⟨by omega, ?_⟩
    have hlen := length_btMeshAppEncrypt hsdu
    dsimp only at hrel
    rw [hlen, transEncrypt, segMicLen, appMicLen, hrel]
    simp

/-! ## The table -/

/-- The segments of an SDU are within the table: their number, every place
that is written, and the last index, which has five bits in the header of
each segment. -/
structure SegsFit (cfg : TransCfg) (env : SendEnv) (tx : NetTx) (sdu : Bytes) (s : Trans) :
    Prop where
  last : (sdu.length - 1) / segLen false < cfg.txSegMax
  writes : ∀ o ∈ sendSegWrites cfg env tx sdu none s, o < cfg.txSegMax
  segN : ∀ blocked t, (segTxSetup cfg tx sdu none blocked s.net t).segN < 2 ^ 5

/-- **The segments of an accepted message are within the table exactly when
the message and the MIC that its tailroom calls for are no longer than the
table holds.** -/
theorem segsFit_iff {aead : AeadEncrypt} {key uuid : Bytes} (hmax : cfg.txSegMax ≤ 32)
    (h : sentSegmented cfg (env.encrypting aead key uuid) tx msg tailroom s.net =
      some (tx', sdu)) :
    SegsFit cfg (env.encrypting aead key uuid) tx' sdu s ↔
      msg.length + (if 8 ≤ tailroom then 8 else 4) ≤ 12 * cfg.txSegMax := by
  obtain ⟨hpos, hlen⟩ := sentSegmented_length h
  have htwelve : segLen false = 12 := rfl
  rw [segMicLen] at hlen
  constructor
  · rintro ⟨hlast, -, -⟩
    rw [hlen, Nat.div_lt_iff_lt_mul (segLen_pos _), htwelve] at hlast
    omega
  · intro hroom
    have hlast : (sdu.length - 1) / segLen false < cfg.txSegMax := by
      rw [hlen, Nat.div_lt_iff_lt_mul (segLen_pos _), htwelve]
      omega
    refine ⟨hlast, fun o ho => ?_, fun blocked t => ?_⟩
    · exact (le_of_mem_sendSegWrites ho).trans_lt hlast
    · exact hlast.trans_le hmax

/-- A cipher that only adds the MIC. -/
def sampleAead : AeadEncrypt := fun _ _ _ plain micSize => some (plain ++ List.replicate micSize 0)

/-- The answers of modules that have room for everything. -/
def sampleEnv : SendEnv :=
  SendEnv.encrypting { encrypt := fun _ _ => none } sampleAead (List.replicate 16 0) []

/-- A node with one context, and a table of three segments. -/
def sampleTrans : Trans := transInit {} { rpl := rplInit 1 } 1

/-- At a tailroom of seven the message gets the short MIC, and its 36 bytes
fill the table. -/
theorem segsFit_short_mic :
    ∃ tx' sdu, sentSegmented {} sampleEnv { src := 1, addr := 2 } (List.replicate 32 0) 7
        sampleTrans.net = some (tx', sdu) ∧ SegsFit {} sampleEnv tx' sdu sampleTrans := by
  have hsent : ∃ tx' sdu, sentSegmented {} sampleEnv { src := 1, addr := 2 }
      (List.replicate 32 0) 7 sampleTrans.net = some (tx', sdu) := ⟨_, _, rfl⟩
  obtain ⟨tx', sdu, h⟩ := hsent
  exact ⟨tx', sdu, h, (segsFit_iff (by decide) h).mpr (by decide)⟩

/-- **With one byte of tailroom more the MIC is long, and a fourth segment
is written behind the three of the table.** -/
theorem segs_past_table :
    ∃ tx' sdu, sentSegmented {} sampleEnv { src := 1, addr := 2 } (List.replicate 32 0) 8
        sampleTrans.net = some (tx', sdu) ∧
      sendSegWrites {} sampleEnv tx' sdu none sampleTrans = [0, 1, 2, 3] ∧
      ¬ SegsFit {} sampleEnv tx' sdu sampleTrans := by
  refine ⟨_, _, rfl, by decide, fun h => ?_⟩
  exact absurd (h.writes 3 (by decide)) (by decide)

end Mesh

end OpenBlue
