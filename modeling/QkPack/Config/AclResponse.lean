import QkPack.Config.AclProcess
import QkPack.Lib.SortedMap

/-!
# The answer of the authority

`ReadACLResponse` and `ReadACLQuotation`. A member that is missing or is of another type is a null pointer;
some are asked for before they are used, others are not. `parse` is the JSON library, for a quotation that is
given as a text, and `integer` what it keeps of a number for those who want an integer.
-/

namespace QkPack
open Wire CString Resp Json

/-- How reading an answer ends the worker: a string is made from a null pointer, or a tree is freed twice. -/
inductive AclReadFault where
  | nullString | doubleFree
deriving DecidableEq

/-- `quotation_t`. -/
structure Quotation extends Acl where
  timeouts : List InterfaceTimeout
  limitsLength : List LimitsLength

/-- What `ReadACLResponse` fills in. -/
structure AclAnswer extends AclRecord where
  uriId : Bytes

section Read

variable (parse : Bytes → Option Tree) (integer : Double → Int)

/-- A number as it is kept in an `int`. -/
def getInt (name : String) (node : Tree) : Option Int :=
  (node.getNumber name).map fun d => int32 (integer d)

def readLimitPolicy (val : Tree) : Option LimitPolicy := do
  let min ← getInt integer "min" val
  let max ← getInt integer "max" val
  let limit ← getInt integer "limit" val
  return ⟨min,max,limit⟩

def readTimeout (val : Tree) : Option InterfaceTimeout := do
  let interfaceName ← val.getString "interfaceName"
  let timeout ← getInt integer "timeout" val
  let tries ← getInt integer "tries" val
  return ⟨interfaceName,timeout,tries⟩

def readLimitsLength (val : Tree) : Option LimitsLength := do
  let interfaceName ← val.getString "interfaceName"
  let keylen ← getInt integer "keylen" val
  let vallen ← getInt integer "vallen" val
  let datalen ← getInt integer "datalen" val
  return ⟨interfaceName,keylen,vallen,datalen⟩

def readOptional {α : Type} (read : Tree → Option α) (name : String) (node : Tree) : Option (List α) :=
  ((node.getArray name).getD []).mapM read

/-- The members of a quotation; `none` is the way out by `yajl_tree_free`. -/
def readQuotation (node : Tree) : Option Quotation := do
  let expire ← getInt integer "expire" node
  let compressThreshold ← getInt integer "compressThreshold" node
  let policies ← readOptional (readLimitPolicy integer) "limitPolicies" node
  let timeouts ← readOptional (readTimeout integer) "timeouts" node
  let limitsLength ← readOptional (readLimitsLength integer) "limitsLength" node
  return { expire, compressThreshold, policies, timeouts, limitsLength }

/-- `ReadACLQuotation`. An error says whether the tree that was freed is a part of the tree of the caller: an object
is read in place, and freed like a tree of its own. -/
def readACLQuotation (quotation : Option Tree) : Except Bool Quotation :=
  match quotation with
  | some (.object members) => (readQuotation integer (.object members)).elim (.error true) .ok
  | some (.string s) =>
    match parse (cStr s) with
    | none => .error false
    | some node => (readQuotation integer node).elim (.error false) .ok
  | _ => .error false

/-- The loop over the clients and the one over the servers. The values are not asked for their type. -/
def readRoutes : List (Bytes × Tree) → List (Bytes × Bytes) → Except AclReadFault (List (Bytes × Bytes))
  | [], routes => .ok routes
  | (key,.string s) :: members, routes => readRoutes members (SortedMap.alter (cStr key) (fun _ => cStr s) routes)
  | _ :: _, _ => .error .nullString

def quotationOf (node : Tree) : Option Tree :=
  match node.get "quotation" with
  | some (.string s) => some (.string s)
  | some (.object members) => some (.object members)
  | _ => none

/-- The route of an answer. A null pointer has no members, as `null` has none. -/
def routeOf (node : Tree) : Tree := ((node.getObject "route").map Tree.object).getD .null

/-- The end of `ReadACLResponse`: the default route, the clients and the servers. -/
def readRoute (route : Tree) : Except AclReadFault (Option Route) :=
  match route.getString "default" with
  | none => .error .nullString
  | some defaults =>
    match route.getObject "client" with
    | none => .ok none
    | some client => do
      let mapClient ← readRoutes client []
      readServers defaults mapClient (route.getObject "server")
where
  readServers (defaults : Bytes) (mapClient : List (Bytes × Bytes)) :
      Option (List (Bytes × Tree)) → Except AclReadFault (Option Route)
    | none => .ok none
    | some server => do
      let mapServer ← readRoutes server []
      return some ⟨defaults,mapClient,mapServer⟩

/-- `ReadACLResponse`; `none` is `QKPACK_ERROR`. It frees the whole tree before it returns. -/
def readACLResponse (response : Option Tree) : Except AclReadFault (Option AclAnswer) :=
  match response with
  | none => .ok none
  | some node =>
    match getInt integer "uri_id" node, getInt integer "operation" node with
    | some uriId, some operation =>
      match readACLQuotation parse integer (quotationOf node) with
      | .error freed => if freed then .error .doubleFree else .ok none
      | .ok quotation => do
        let route ← readRoute (routeOf node)
        return route.map fun route => { quotation with operation, route, uriId := intText uriId }
    | _, _ => .ok none

end Read

end QkPack
