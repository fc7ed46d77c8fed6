import OpenBlue.Mesh.Model.AppKeys
import OpenBlue.Mesh.Model.BrgCfg
/-!
# Mesh — the key tables of a node

Subnets, application keys and the bridging table side by side. The modules
of the last two hear of the subnets through `subnet_evt`, which goes
through the registered callbacks with `STRUCT_SECTION_FOREACH`.
-/

namespace OpenBlue

namespace KeyTables

/-- The tables of a node. -/
structure Node where
  subnets : List Subnet
  apps : List AppKey
  brg : BrgTbl
  deriving DecidableEq, Repr

/-- `STRUCT_SECTION_FOREACH`, as `utils.h` defines it for this port:
`for (struct struct_type *var = NULL; false;)`, whose body is not run for
any of the objects. -/
def structSectionForeach {ι σ : Type} (_objs : List ι) (_body : ι → σ → σ) (s : σ) : σ := s

/-- The handlers `BT_MESH_SUBNET_CB_DEFINE` registers that change one of the
tables. -/
def subnetCbs : List (ℕ × KeyEvt → Node → Node) :=
  [fun (netIdx, evt) node => { node with apps := appSubnetEvt netIdx evt node.apps },
   fun (netIdx, evt) node => { node with brg := brgTblNetkeyRemovedEvt netIdx evt node.brg }]

/-- `subnet_evt` of `subnet.c`. -/
def subnetEvt (evt : ℕ × KeyEvt) (node : Node) : Node :=
  structSectionForeach subnetCbs (fun cb node => cb evt node) node

/-- A call on any of the tables. -/
inductive Event
  | subnet (e : SubnetEvent)
  | app (e : AppEvent)
  | brg (e : BrgEvent)
  deriving DecidableEq, Repr

/-- One call. -/
def Node.step (cfg : KeysCfg) (node : Node) : Event → Node
  | .subnet e =>
    (subnetCall cfg node.subnets e).raised.foldl (fun node evt => subnetEvt evt node)
      { node with subnets := (subnetCall cfg node.subnets e).subnets }
  | .app e => { node with apps := (appCall node.subnets node.apps e).apps }
  | .brg e => { node with brg := (brgCall node.subnets node.brg e).1 }

/-- A node with nothing in its tables. -/
def nodeInit (subnetCount appKeyCount itemsMax : ℕ) : Node where
  subnets := subnetsInit subnetCount
  apps := List.replicate appKeyCount freeApp
  brg := brgInit itemsMax

end KeyTables

end OpenBlue
