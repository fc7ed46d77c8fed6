import Mathlib.Data.Fintype.Card
import OpenBlue.Mesh.Model.CompData
/-!
# Mesh — models that extend models

The part of `access.c` that relates models to one another:
`bt_mesh_model_extend`, which links the models into circular lists and
registers the relation, `bt_mesh_model_correspond`, and what goes round such a
list, `bt_mesh_model_extensions_walk` with the searches that use it. `M` is
the set of models of the composition.
-/

namespace OpenBlue

namespace CompData

/-- What the functions read of the models, and do not change. -/
structure Models (M : Type) where
  /-- `rt->elem_idx`. -/
  elemIdx : M → UInt8
  /-- `rt->mod_idx`. -/
  modIdx : M → UInt8
  /-- `get_sig_offset`: the number of SIG models of the element for a vendor
  model, 0 for a SIG model. -/
  sigOffset : M → UInt8

/-- What they change. -/
structure Extensions (M : Type) where
  /-- `rt->next`. -/
  next : M → Option M := fun _ => none
  /-- `BT_MESH_MOD_EXTENDED`. -/
  extended : M → Bool := fun _ => false
  /-- `mod_rel_list`. -/
  modRelList : List ModRelation

/-- `RELATION_TYPE_EXT` apart, what a free place of `mod_rel_list` looks
like. -/
def ModRelation.free (r : ModRelation) : Bool :=
  r.elemBase = 0 ∧ r.idxBase = 0 ∧ r.elemExt = 0 ∧ r.idxExt = 0

/-- Before anything is registered, with
`CONFIG_BT_MESH_MODEL_EXTENSION_LIST_SIZE` places. -/
def extensionsInit (M : Type) (size : UInt8) : Extensions M where
  modRelList := List.replicate size.toNat ⟨0, 0, 0, 0, 0⟩

variable {M : Type}

/-- The record of a relation. The index of a vendor model counts on from the
SIG models, in a byte. -/
def Models.relation (info : Models M) (base ext : M) (type : UInt8) : ModRelation where
  elemBase := info.elemIdx base
  idxBase := info.modIdx base + info.sigOffset base
  elemExt := info.elemIdx ext
  idxExt := info.modIdx ext + info.sigOffset ext
  type := type

/-- `mod_rel_register`, on the list; `none` is `-ENOMEM`. -/
def modRelRegister (extension : ModRelation) : List ModRelation → Option (List ModRelation)
  | [] => none
  | r :: rs => if r.free then some (extension :: rs) else (modRelRegister extension rs).map (r :: ·)

variable [DecidableEq M]

/-- The loop of `bt_mesh_model_extend` that looks for `b` in the list of
`a`. -/
def listContains (next : M → Option M) (a b : M) : ℕ → Option M → Bool
  | 0, _ => false
  | _ + 1, none => false
  | fuel + 1, some it =>
    if next it = some a then false
    else if it = b then true
    else listContains next a b fuel (next it)

/-- The lists are merged: `a` and `b` exchange what follows them. -/
def mergeLists (a b : M) (next : M → Option M) : M → Option M :=
  fun m => if m = a then some ((next b).getD b) else if m = b then some ((next a).getD a) else next m

/-- What `bt_mesh_model_extend` does to the links. -/
def extendNext [Fintype M] (a b : M) (next : M → Option M) : M → Option M :=
  if a = b then next
  else if listContains next a b (Fintype.card M) (some a) then next
  else mergeLists a b next

/-- `bt_mesh_model_extend`. The links stay merged where the relation finds no
place. -/
def btMeshModelExtend [Fintype M] (info : Models M) (extendingMod baseMod : M)
    (s : Extensions M) : Extensions M :=
  { next := extendNext extendingMod baseMod s.next
    extended := fun m => s.extended m || decide (m = baseMod)
    modRelList :=
      if extendingMod = baseMod then s.modRelList
      else (modRelRegister (info.relation baseMod extendingMod relationTypeExt) s.modRelList).getD
        s.modRelList }

/-- `IS_MOD_BASE` or `IS_MOD_EXTENSION`. -/
def Models.inRelation (info : Models M) (mod : M) (r : ModRelation) : Bool :=
  (r.elemBase = info.elemIdx mod ∧
      r.idxBase.toNat = (info.modIdx mod).toNat + (info.sigOffset mod).toNat) ∨
    (r.elemExt = info.elemIdx mod ∧
      r.idxExt.toNat = (info.modIdx mod).toNat + (info.sigOffset mod).toNat)

/-- The type `bt_mesh_model_correspond` registers with: that of the first
correspondence one of the two is in, else one above all. -/
def correspondType (info : Models M) (correspondingMod baseMod : M) :
    UInt8 → List ModRelation → UInt8
  | corId, [] => corId
  | corId, r :: rs =>
    if r.free then corId
    else
      let corId := if r.type < relationTypeExt ∧ r.type ≥ corId then r.type + 1 else corId
      if (info.inRelation baseMod r ∨ info.inRelation correspondingMod r) ∧
          r.type < relationTypeExt then r.type
      else correspondType info correspondingMod baseMod corId rs

/-- `bt_mesh_model_correspond`. -/
def btMeshModelCorrespond (info : Models M) (correspondingMod baseMod : M) (s : Extensions M) :
    Extensions M :=
  { s with
    modRelList := (modRelRegister (info.relation baseMod correspondingMod
      (correspondType info correspondingMod baseMod 0 s.modRelList)) s.modRelList).getD
        s.modRelList }

/-- A call that relates two models. -/
inductive RelCall (M : Type)
  | extend (extendingMod baseMod : M)
  | correspond (correspondingMod baseMod : M)
  deriving DecidableEq

/-- One call. -/
def relStep [Fintype M] (info : Models M) (s : Extensions M) : RelCall M → Extensions M
  | .extend a b => btMeshModelExtend info a b s
  | .correspond a b => btMeshModelCorrespond info a b s

/-! ## Going round -/

/-- `enum bt_mesh_walk`. -/
inductive Walk
  | stop
  | continue
  deriving DecidableEq, Repr

/-- The loop of `bt_mesh_model_extensions_walk`. A link that is missing is
followed into nowhere; that, and going round without end, is `none`. -/
def walkLoop {σ : Type} (next : M → Option M) (model : M) (cb : M → σ → Walk × σ) :
    ℕ → Option M → σ → Option σ
  | 0, _, _ => none
  | _ + 1, none, _ => none
  | fuel + 1, some it, s =>
    if it = model then some s
    else
      match cb it s with
      | (.stop, s) => some s
      | (.continue, s) => walkLoop next model cb fuel (next it) s

/-- `bt_mesh_model_extensions_walk`, with what the callback leaves. -/
def extensionsWalk {σ : Type} [Fintype M] (next : M → Option M) (model : M)
    (cb : M → σ → Walk × σ) (s : σ) : Option σ :=
  match cb model s with
  | (.stop, s) => some s
  | (.continue, s) =>
    match next model with
    | none => some s
    | some it => walkLoop next model cb (Fintype.card M) (some it) s

/-- `struct find_group_visitor_ctx`, `struct find_uuid_visitor_ctx`. -/
structure FindCtx (M : Type) where
  entry : Option ℕ
  mod : M

/-- `find_group_mod_visitor`, `find_uuid_mod_visitor`: `get` looks into one
model. -/
def findVisitor (info : Models M) (get : M → Option ℕ) (mod : M) (ctx : FindCtx M) :
    Walk × FindCtx M :=
  if info.elemIdx mod ≠ info.elemIdx ctx.mod then (.continue, ctx)
  else
    match get mod with
    | some i => (.stop, ⟨some i, mod⟩)
    | none => (.continue, { ctx with entry := none })

/-- `model_group_get`. -/
def modelGroupGet (groups : M → List UInt16) (addr : UInt16) (mod : M) : Option ℕ :=
  (groups mod).findIdx? (· = addr)

/-- `model_uuid_get`; the labels are told apart by where they are, and `none`
is a free entry, looked for along with a free group. -/
def modelUuidGet {U : Type} [DecidableEq U] (groups : M → List UInt16)
    (uuids : M → List (Option U)) (uuid : Option U) (mod : M) : Option ℕ :=
  (uuids mod).findIdx? fun entry =>
    entry = uuid ∧ ¬ (uuid = none ∧ modelGroupGet groups 0 mod = none)

/-- `bt_mesh_model_find_group`. -/
def btMeshModelFindGroup [Fintype M] (info : Models M) (groups : M → List UInt16)
    (next : M → Option M) (mod : M) (addr : UInt16) : Option (FindCtx M) :=
  extensionsWalk next mod (findVisitor info (modelGroupGet groups addr)) ⟨none, mod⟩

/-- `bt_mesh_model_find_uuid`. -/
def btMeshModelFindUuid {U : Type} [DecidableEq U] [Fintype M] (info : Models M)
    (groups : M → List UInt16) (uuids : M → List (Option U)) (next : M → Option M) (mod : M)
    (uuid : Option U) : Option (FindCtx M) :=
  extensionsWalk next mod (findVisitor info (modelUuidGet groups uuids uuid)) ⟨none, mod⟩

end CompData

end OpenBlue
