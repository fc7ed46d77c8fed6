import OpenBlue.Common.Bytes
import OpenBlue.Mesh.Model.Transport
/-!
# Mesh — encryption of access messages

The model of `bt_mesh_app_encrypt` and of the call that `trans_encrypt`
makes of it. The authenticated cipher of the crypto library is a
parameter; what it returns is checked for its length before it is used.
-/

namespace OpenBlue

namespace Mesh

/-- `psa_aead_encrypt`: key, nonce, additional data, plaintext and length
of the MIC, to the ciphertext with the MIC behind it. -/
abbrev AeadEncrypt := Bytes → Bytes → Bytes → Bytes → Nat → Option Bytes

/-- `bt_mesh_ccm_encrypt`. -/
def btMeshCcmEncrypt (aead : AeadEncrypt) (key nonce plain aad : Bytes) (micSize : Nat) :
    Option Bytes :=
  (aead key nonce aad plain micSize).filter fun out => out.length == plain.length + micSize

/-- `create_app_nonce`. -/
def createAppNonce (ctx : AppCrypto) : Bytes :=
  [if ctx.devKey then 0x02 else 0x01] ++
    beBytes 4 (ctx.seqNum ||| if ctx.aszmic then 0x80000000 else 0).toNat ++
    beBytes 2 ctx.src ++ beBytes 2 ctx.dst ++ beBytes 4 ctx.ivIndex.toNat

/-- The additional data of `trans_encrypt`: the Label UUID of a virtual
destination. -/
def AppCrypto.ad (uuid : Bytes) (ctx : AppCrypto) : Bytes := if isVirtual ctx.dst then uuid else []

/-- `bt_mesh_app_encrypt`. -/
def btMeshAppEncrypt (aead : AeadEncrypt) (key uuid : Bytes) (ctx : AppCrypto) (buf : Bytes) :
    Option Bytes :=
  btMeshCcmEncrypt aead key (createAppNonce ctx) buf (ctx.ad uuid) (appMicLen ctx.aszmic)

/-- The answers of the other modules with the encryption the code does. -/
def SendEnv.encrypting (env : SendEnv) (aead : AeadEncrypt) (key uuid : Bytes) : SendEnv :=
  { env with encrypt := btMeshAppEncrypt aead key uuid }

theorem length_btMeshAppEncrypt {aead : AeadEncrypt} {key uuid buf out : Bytes} {ctx : AppCrypto}
    (h : btMeshAppEncrypt aead key uuid ctx buf = some out) :
    out.length = buf.length + appMicLen ctx.aszmic := by
  rw [btMeshAppEncrypt, btMeshCcmEncrypt, Option.filter_eq_some_iff] at h
  exact beq_iff_eq.1 h.2

end Mesh

end OpenBlue
