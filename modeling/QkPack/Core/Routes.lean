import QkPack.Config.AclProcess
import QkPack.Core.ClusterNodes

/-!
# Which nodes a cluster is loaded from

`RedisCluster::GetNode` for a request of a client. The first request for a cluster loads its table, from the
servers of the route in its record; the table is then kept under the name of the cluster.
-/

namespace QkPack
open Wire CString Resp

/-- An entry of `map_cluster_`, with the list of nodes that it was built from, and the route and the address of
the client of the request that loaded it. -/
structure ClusterTable where
  builtFrom : Bytes
  loadedBy : Route × Bytes
  slots : SlotMap

abbrev Clusters := Bytes → Option ClusterTable

/-- `map_cluster_.insert`, which leaves an entry that is there. -/
def Clusters.insert (clusters : Clusters) (name : Bytes) (table : ClusterTable) : Clusters :=
  fun other => if other = name then some ((clusters name).getD table) else clusters other

/-- `map_cluster_[name][slot] = nodeIp` for the entry of that name. -/
def Clusters.setSlot (clusters : Clusters) (name : Bytes) (table : ClusterTable) (slot : Int) (nodeIp : Bytes) :
    Clusters := fun other =>
  if other = name then some ⟨table.builtFrom,table.loadedBy,fun n => if n = slot then some nodeIp else table.slots n⟩
  else clusters other

/-- A node without a port, or a reply with a range that has no end. -/
inductive RouteFault where
  | badAccess | endless
deriving DecidableEq

section Load

-- the replies to `CLUSTER NODES` of the nodes that can be reached, the cluster, and the request that loads it
variable (replies : Bytes → Option Bytes) (name : Bytes) (loader : Route × Bytes)

/-- `InitClusterNode` for a node of the list. -/
def initClusterNode (iplist nodeIp : Bytes) (clusters : Clusters) : Except RouteFault (QkpackRc × Clusters) :=
  if (split nodeIp (text ":")).length < 2 then .error .badAccess
  else match replies nodeIp with
    | none => .ok (.error,clusters)
    | some reply =>
      match updateClusterNodes reply with
      | none => .error .endless
      | some slots => .ok (.ok,clusters.insert name ⟨iplist,loader,slots⟩)

/-- The nodes of the list, up to the first that can be reached. -/
def initFirstNode (iplist : Bytes) : List Bytes → Clusters → Except RouteFault (QkpackRc × Clusters)
  | [], clusters => .ok (.error,clusters)
  | nodeIp :: rest, clusters => do
    let (rc,clusters) ← initClusterNode replies name loader iplist nodeIp clusters
    if rc = .ok then return (.ok,clusters) else initFirstNode iplist rest clusters

def updateRouteNodeList (iplist : Bytes) (clusters : Clusters) : Except RouteFault (QkpackRc × Clusters) :=
  initFirstNode replies name loader iplist (split iplist (text ",")) clusters

/-- The groups of servers, one after the other in the order of the map, whichever the client belongs to. -/
def updateGroups : List (Bytes × Bytes) → Clusters → Except RouteFault (QkpackRc × Clusters)
  | [], clusters => .ok (.ok,clusters)
  | (_,iplist) :: rest, clusters => do
    let (rc,clusters) ← updateRouteNodeList replies name loader iplist clusters
    if rc = .ok then updateGroups rest clusters else return (.error,clusters)

end Load

section Node

variable (replies : Bytes → Option Bytes) (route : Route) (isMatchIp : Bool) (client : Client)

/-- The beginning of `GetNode`: a cluster that is not there is loaded. `isMatchIp` is the flag in the record. -/
def loadCluster (clusters : Clusters) : Except RouteFault (QkpackRc × Clusters) :=
  let name := client.request.clusterName
  let loader := (route,client.xRealIp)
  if (clusters name).isSome then .ok (.ok,clusters)
  else if isMatchIp then updateGroups replies name loader route.mapServer clusters
  else updateRouteNodeList replies name loader route.defaults clusters

/-- `RedisCluster::GetNode` for a request of a client. A request for several keys gets no node of its own. -/
def getNode (clusters : Clusters) : Except RouteFault (QkpackRc × Request × Clusters) := do
  let request := client.request
  let (rc,clusters) ← loadCluster replies route isMatchIp client clusters
  match rc,clusters request.clusterName with
  | .ok,some table =>
    if request.key = [] then return (.ok,request,clusters)
    else match table.slots (keyHashSlot (request.namespaces ++ request.key)) with
      | some nodeIp => return (.ok,{ request with nodeIp := nodeIp },clusters)
      | none => return (.error,request,clusters)
  | _,_ => return (.error,request,clusters)

end Node

section Machine

structure Routing where
  table : AclTable
  clusters : Clusters

def Routing.empty : Routing := ⟨.empty,fun _ => none⟩

/-- A request that access control has let through, with its record and the result of `GetNode`. -/
structure Routed where
  client : Client
  object : AclObject
  rc : QkpackRc
  request : Request
  next : Routing

/-- `Process` and `GetNode` in `CreateRequest`; `none` for a request that is refused. -/
def routeRequest (answer : Option AclRecord) (replies : Bytes → Option Bytes) (client : Client) (s : Routing) :
    Option (Option Routed × Routing) :=
  match process answer client s.table with
  | .error _ => none
  | .ok (none,_,table) => some (none,{ s with table := table })
  | .ok (some i,client,table) =>
    match table.objects[i]? with
    | none => none
    | some object =>
      match getNode replies object.record.route object.isMatchIp client s.clusters with
      | .error _ => none
      | .ok (rc,request,clusters) =>
        some (some ⟨client,object,rc,request,⟨table,clusters⟩⟩,⟨table,clusters⟩)

/-- A request of a client, or the answer `MOVED` to one, which changes a slot of a table. -/
inductive RouteEvent where
  | request (client : Client) (answer : Option AclRecord) (replies : Bytes → Option Bytes)
  | moved (name : Bytes) (slot : Int) (nodeIp : Bytes)

def routeStep (s : Routing) : RouteEvent → Option Routing
  | .request client answer replies => (routeRequest answer replies client s).map (·.2)
  | .moved name slot nodeIp =>
    (s.clusters name).map fun table => { s with clusters := s.clusters.setSlot name table slot nodeIp }

end Machine

def Route.group (route : Route) (xRealIp : Bytes) : Option Bytes :=
  (route.mapClient.lookup (beforeDot 1 xRealIp)).bind fun group => route.mapServer.lookup group

/-- The nodes that a client is to be served by. -/
def Route.ownList (route : Route) (xRealIp : Bytes) : Bytes := (route.group xRealIp).getD route.defaults

/-- The nodes that a table is built from when a request of the client loads it. -/
def Route.firstList (route : Route) (xRealIp : Bytes) : Bytes :=
  if (route.group xRealIp).isSome then (route.mapServer.head?.map (·.2)).getD [] else route.defaults

section Loading

variable {replies : Bytes → Option Bytes} {name : Bytes} {loader : Route × Bytes} {clusters clusters' : Clusters}
  {rc : QkpackRc} {iplist : Bytes}

theorem insert_of_some {table : ClusterTable} (h : clusters name = some table) (table' : ClusterTable) :
    clusters.insert name table' = clusters := by
  funext other
  unfold Clusters.insert
  split
  · rename_i hother
    rw [hother, h]
    rfl
  · rfl

theorem insert_of_none (h : clusters name = none) (table : ClusterTable) :
    clusters.insert name table name = some table := by
  rw [Clusters.insert, if_pos rfl, h]
  rfl

theorem insert_other {other : Bytes} (h : other ≠ name) (table : ClusterTable) :
    clusters.insert name table other = clusters other := if_neg h

/-- The table that the first of these nodes that can be reached answers with. -/
def firstTable (replies : Bytes → Option Bytes) (nodes : List Bytes) : Option SlotMap :=
  (nodes.findSome? replies).bind updateClusterNodes

theorem initClusterNode_loads {nodeIp : Bytes}
    (h : initClusterNode replies name loader iplist nodeIp clusters = .ok (rc,clusters')) :
    replies nodeIp = none ∧ rc ≠ .ok ∧ clusters' = clusters ∨
      ∃ reply slots, replies nodeIp = some reply ∧ updateClusterNodes reply = some slots ∧ rc = .ok ∧
        clusters' = clusters.insert name ⟨iplist,loader,slots⟩ := by
  unfold initClusterNode at h
  split at h
  · cases h
  · split at h
    · rename_i hunreached
      cases h
      exact .inl ⟨hunreached,by decide,rfl⟩
    · rename_i reply hreached
      split at h
      · cases h
      · rename_i slots hslots
        cases h
        exact .inr ⟨reply,slots,hreached,hslots,rfl,rfl⟩

theorem initFirstNode_loads {nodes : List Bytes}
    (h : initFirstNode replies name loader iplist nodes clusters = .ok (rc,clusters')) :
    firstTable replies nodes = none ∧ rc ≠ .ok ∧ clusters' = clusters ∨
      ∃ slots, firstTable replies nodes = some slots ∧ rc = .ok ∧
        clusters' = clusters.insert name ⟨iplist,loader,slots⟩ := by
  induction nodes with
  | nil =>
    cases h
    exact .inl ⟨rfl,by decide,rfl⟩
  | cons nodeIp rest ih =>
    rw [initFirstNode] at h
    obtain ⟨⟨rc₁,clusters₁⟩,hinit,hrest⟩ := bind_eq_ok.mp h
    simp only at hrest
    rcases initClusterNode_loads hinit with ⟨hunreached,hrc,rfl⟩ | ⟨reply,slots,hreached,hslots,hrc,hinsert⟩
    · rw [if_neg hrc] at hrest
      rw [firstTable, List.findSome?_cons, hunreached]
      exact ih hrest
    · rw [if_pos hrc] at hrest
      cases hrest
      refine .inr ⟨slots,?_,rfl,hinsert⟩
      rw [firstTable, List.findSome?_cons, hreached]
      exact hslots

theorem updateGroups_of_some {table : ClusterTable} {groups : List (Bytes × Bytes)}
    (hsome : clusters name = some table)
    (h : updateGroups replies name loader groups clusters = .ok (rc,clusters')) : clusters' = clusters := by
  induction groups with
  | nil =>
    cases h
    rfl
  | cons group rest ih =>
    rw [updateGroups] at h
    obtain ⟨⟨rc₁,clusters₁⟩,hlist,hrest⟩ := bind_eq_ok.mp h
    have hsame : clusters₁ = clusters := by
      rcases initFirstNode_loads hlist with ⟨-,-,hsame⟩ | ⟨slots,-,-,hinsert⟩
      · exact hsame
      · exact hinsert.trans (insert_of_some hsome _)
    subst hsame
    simp only at hrest
    split at hrest
    · exact ih hrest
    · cases hrest
      rfl

/-- Of several groups the first is loaded; the others find the cluster there. -/
theorem updateGroups_loads {group : Bytes × Bytes} {rest : List (Bytes × Bytes)} (hnone : clusters name = none)
    (h : updateGroups replies name loader (group :: rest) clusters = .ok (rc,clusters')) :
    firstTable replies (split group.2 (text ",")) = none ∧ clusters' = clusters ∨
      ∃ slots, firstTable replies (split group.2 (text ",")) = some slots ∧
        clusters' = clusters.insert name ⟨group.2,loader,slots⟩ := by
  rw [updateGroups] at h
  obtain ⟨⟨rc₁,clusters₁⟩,hlist,hrest⟩ := bind_eq_ok.mp h
  simp only at hrest
  rcases initFirstNode_loads hlist with ⟨hempty,hrc,rfl⟩ | ⟨slots,hslots,hrc,rfl⟩
  · rw [if_neg hrc] at hrest
    cases hrest
    exact .inl ⟨hempty,rfl⟩
  · rw [if_pos hrc] at hrest
    exact .inr ⟨slots,hslots,updateGroups_of_some (insert_of_none hnone _) hrest⟩

end Loading

section GetNode

variable {replies : Bytes → Option Bytes} {route : Route} {isMatchIp : Bool} {client : Client}
  {clusters clusters' : Clusters} {rc : QkpackRc} {request : Request}

/-- The list that `GetNode` loads first. -/
def Route.loadList (route : Route) (isMatchIp : Bool) : Bytes :=
  if isMatchIp then (route.mapServer.head?.map (·.2)).getD [] else route.defaults

theorem getNode_eq_ok (h : getNode replies route isMatchIp client clusters = .ok (rc,request,clusters')) :
    ∃ rc₁, loadCluster replies route isMatchIp client clusters = .ok (rc₁,clusters') ∧
      (rc = .ok → (clusters' client.request.clusterName).isSome) := by
  unfold getNode at h
  obtain ⟨⟨rc₁,clusters₁⟩,hload,hend⟩ := bind_eq_ok.mp h
  simp only at hend
  split at hend
  · rename_i hfound
    have hsome : (clusters₁ client.request.clusterName).isSome = true := Option.isSome_of_eq_some hfound
    split at hend
    · cases hend
      exact ⟨.ok,hload,fun _ => hsome⟩
    · split at hend
      · cases hend
        exact ⟨.ok,hload,fun _ => hsome⟩
      · cases hend
        exact ⟨.ok,hload,fun _ => hsome⟩
  · cases hend
    exact ⟨_,hload,nofun⟩

theorem getNode_of_some {table : ClusterTable} (hsome : clusters client.request.clusterName = some table)
    (h : getNode replies route isMatchIp client clusters = .ok (rc,request,clusters')) : clusters' = clusters := by
  obtain ⟨rc₁,hload,-⟩ := getNode_eq_ok h
  simp only [loadCluster, hsome, Option.isSome_some, if_true] at hload
  cases hload
  rfl

/-- A cluster that is not there is loaded from the first node of the list that can be reached. -/
theorem getNode_loads (hnone : clusters client.request.clusterName = none)
    (h : getNode replies route isMatchIp client clusters = .ok (rc,request,clusters')) :
    firstTable replies (split (route.loadList isMatchIp) (text ",")) = none ∧ clusters' = clusters ∨
      ∃ slots, firstTable replies (split (route.loadList isMatchIp) (text ",")) = some slots ∧ clusters' =
        clusters.insert client.request.clusterName ⟨route.loadList isMatchIp,(route,client.xRealIp),slots⟩ := by
  obtain ⟨rc₁,hload,-⟩ := getNode_eq_ok h
  simp only [loadCluster, hnone, Option.isSome_none, Bool.false_eq_true, if_false] at hload
  cases isMatchIp with
  | true =>
    rw [if_pos rfl] at hload
    cases hgroups : route.mapServer with
    | nil =>
      have hlist : route.loadList true = [] := by
        rw [Route.loadList, if_pos rfl, hgroups]
        rfl
      rw [hgroups] at hload
      cases hload
      rw [hlist]
      exact .inl ⟨rfl,rfl⟩
    | cons group rest =>
      have hlist : route.loadList true = group.2 := by
        rw [Route.loadList, if_pos rfl, hgroups]
        rfl
      rw [hgroups] at hload
      rw [hlist]
      exact updateGroups_loads hnone hload
  | false =>
    rw [if_neg Bool.false_ne_true] at hload
    exact (initFirstNode_loads hload).imp (fun h => ⟨h.1,h.2.2⟩) fun ⟨slots,h⟩ => ⟨slots,h.1,h.2.2⟩

/-- A list of nodes is loaded, or nothing has changed. -/
def Loads (name : Bytes) (loader : Route × Bytes) (iplist : Bytes) (clusters : Clusters) (rc : QkpackRc)
    (clusters' : Clusters) : Prop :=
  rc ≠ .ok ∧ clusters' = clusters ∨ ∃ slots, clusters' = clusters.insert name ⟨iplist,loader,slots⟩

theorem getNode_of_none (hnone : clusters client.request.clusterName = none)
    (h : getNode replies route isMatchIp client clusters = .ok (rc,request,clusters')) :
    Loads client.request.clusterName (route,client.xRealIp) (route.loadList isMatchIp) clusters rc clusters' := by
  obtain ⟨rc₁,-,hrc⟩ := getNode_eq_ok h
  rcases getNode_loads hnone h with ⟨-,rfl⟩ | ⟨slots,-,hinsert⟩
  · refine .inl ⟨fun hok => ?_,rfl⟩
    have hsome := hrc hok
    rw [hnone] at hsome
    cases hsome
  · exact .inr ⟨slots,hinsert⟩

end GetNode

section Honoured

variable {client client' : Client} {answer : Option AclRecord}

theorem matchIp_eq {route : Route} {xRealIp : Bytes} {isMatchIp : Bool} (h : route.matchIp xRealIp = .ok isMatchIp) :
    isMatchIp = (route.group xRealIp).isSome := by
  obtain ⟨key,hsubnet,h⟩ := bind_eq_ok.mp h
  have hkey : key = beforeDot 1 xRealIp := by
    simp only [clientSubnet] at hsubnet
    generalize (if (beforeDot 1 xRealIp).length < xRealIp.length then _ else _) = written at hsubnet
    split at hsubnet
    · cases hsubnet
      rfl
    · cases hsubnet
  cases h
  rw [hkey, Route.group]
  cases route.mapClient.lookup (beforeDot 1 xRealIp) <;> rfl

theorem checkInterfaceTimeout_xRealIp (timeouts : List InterfaceTimeout) (client : Client) :
    (checkInterfaceTimeout timeouts client).xRealIp = client.xRealIp := by
  unfold checkInterfaceTimeout
  split <;> rfl

theorem process_isMatchIp {table table' : AclTable} {i : Nat} {object : AclObject}
    (h : process answer client table = .ok (some i,client',table')) (hobject : table'.objects[i]? = some object) :
    client'.xRealIp = client.xRealIp ∧ object.isMatchIp = (object.record.route.group client.xRealIp).isSome := by
  obtain ⟨request,found,found',-,-,-,hrecord,hfound'⟩ := process_inv h
  obtain ⟨clusterName,isMatchIp,r,-,hmatch,rfl,-,-,rfl⟩ := processRecord_inv hrecord
  cases hfound'.symm.trans hobject
  exact ⟨checkInterfaceTimeout_xRealIp _ _,matchIp_eq hmatch⟩

theorem routeRequest_routed {replies : Bytes → Option Bytes} {s s' : Routing} {routed : Routed}
    (h : routeRequest answer replies client s = some (some routed,s')) :
    s' = routed.next ∧ routed.client.xRealIp = client.xRealIp ∧
      getNode replies routed.object.record.route (routed.object.record.route.group client.xRealIp).isSome
        routed.client s.clusters = .ok (routed.rc,routed.request,routed.next.clusters) := by
  unfold routeRequest at h
  split at h
  · cases h
  · cases h
  · rename_i i client₁ table₁ hprocess
    split at h
    · cases h
    · rename_i object hobject
      split at h
      · cases h
      · rename_i rc request clusters hnode
        cases h
        obtain ⟨hip,hflag⟩ := process_isMatchIp hprocess hobject
        rw [hflag] at hnode
        exact ⟨rfl,hip,hnode⟩

/-- Every table was built from the first list of the request that loaded it. -/
def Routing.Sound (s : Routing) : Prop :=
  ∀ name table, s.clusters name = some table → table.builtFrom = table.loadedBy.1.firstList table.loadedBy.2

theorem Routing.sound_empty : Routing.empty.Sound := by
  intro name table h
  cases h

/-- The request that loaded the cluster of a request, or will: this one, if the cluster is not there. -/
def Routing.loader (s : Routing) (routed : Routed) : Route × Bytes :=
  ((s.clusters routed.client.request.clusterName).map ClusterTable.loadedBy).getD
    (routed.object.record.route,routed.client.xRealIp)

variable {replies : Bytes → Option Bytes} {s s' : Routing} {routed : Routed}

theorem Routing.Sound.letThrough (hs : s.Sound) (h : routeRequest answer replies client s = some (some routed,s')) :
    s'.Sound := by
  obtain ⟨rfl,hip,hnode⟩ := routeRequest_routed h
  intro name table hname
  cases hcluster : s.clusters routed.client.request.clusterName with
  | some t =>
    rw [getNode_of_some hcluster hnode] at hname
    exact hs name table hname
  | none =>
    rcases getNode_of_none hcluster hnode with ⟨-,hsame⟩ | ⟨slots,hinsert⟩
    · rw [hsame] at hname
      exact hs name table hname
    · rw [hinsert] at hname
      by_cases hother : name = routed.client.request.clusterName
      · rw [hother, insert_of_none hcluster] at hname
        cases hname
        rw [← hip]
        rfl
      · rw [insert_other hother] at hname
        exact hs name table hname

theorem Routing.Sound.step (hs : s.Sound) {e : RouteEvent} (hstep : routeStep s e = some s') : s'.Sound := by
  cases e with
  | request client answer replies =>
    obtain ⟨⟨routed,s₁⟩,hroute,rfl⟩ := Option.map_eq_some_iff.mp hstep
    cases routed with
    | some routed => exact Routing.Sound.letThrough hs hroute
    | none =>
      unfold routeRequest at hroute
      split at hroute
      · cases hroute
      · cases hroute
        exact hs
      · split at hroute
        · cases hroute
        · split at hroute
          · cases hroute
          · cases hroute
  | moved name slot nodeIp =>
    obtain ⟨table,htable,rfl⟩ := Option.map_eq_some_iff.mp hstep
    intro other table' hother
    simp only [Clusters.setSlot] at hother
    split at hother
    · cases hother
      exact hs name table htable
    · exact hs other table' hother

/-- After whatever requests, the table that a request takes its node from was built from the nodes for its
client exactly if these are the ones that the request which loaded the cluster went through first. -/
theorem routing_honours_group_iff (es : List RouteEvent) (hrun : Machine.run routeStep Routing.empty es = some s)
    (hroute : routeRequest answer replies client s = some (some routed,s')) (hok : routed.rc = .ok) :
    (∃ table, s'.clusters routed.client.request.clusterName = some table ∧
        table.builtFrom = routed.object.record.route.ownList client.xRealIp) ↔
      (s.loader routed).1.firstList (s.loader routed).2 = routed.object.record.route.ownList client.xRealIp := by
  have hs : s.Sound := Machine.invariant_run (fun hs _ hstep => Routing.Sound.step hs hstep)
    Routing.sound_empty (Machine.along_of_forall (P := fun _ => True) fun _ _ => trivial) hrun
  have hs' : s'.Sound := hs.letThrough hroute
  obtain ⟨rfl,hip,hnode⟩ := routeRequest_routed hroute
  obtain ⟨table,htable,hloader⟩ : ∃ table, routed.next.clusters routed.client.request.clusterName = some table ∧
      table.loadedBy = s.loader routed := by
    unfold Routing.loader
    cases hcluster : s.clusters routed.client.request.clusterName with
    | some table =>
      rw [getNode_of_some hcluster hnode]
      exact ⟨table,hcluster,rfl⟩
    | none =>
      rcases getNode_of_none hcluster hnode with ⟨hfail,-⟩ | ⟨slots,hinsert⟩
      · exact absurd hok hfail
      · rw [hinsert, insert_of_none hcluster]
        exact ⟨_,rfl,rfl⟩
  have hbuilt : table.builtFrom = (s.loader routed).1.firstList (s.loader routed).2 := by
    rw [← hloader]
    exact hs' _ table htable
  rw [← hbuilt, htable]
  constructor
  · rintro ⟨_,⟨⟩,hown⟩
    exact hown
  · intro hown
    exact ⟨table,rfl,hown⟩

/-- Two networks of clients with a group of servers each. -/
def twoGroups : AclRecord where
  toAcl := openRecord.toAcl
  operation := 3
  timeouts := []
  limitsLength := []
  route := {
    defaults := text "10.0.0.1:7000"
    mapClient := [(text "10.1",text "a"),(text "10.2",text "b")]
    mapServer := [(text "a",text "10.1.0.1:7000"),(text "b",text "10.2.0.1:7000")] }

def clientAt (xRealIp : String) : Client where
  request := { Request.fresh with commandType := .get, key := text "k", uri := text "qkd://BJ/ab" }
  ak := text "x"
  xRealIp := text xRealIp
  requestUri := text "/hdp/kvstore/kv/get"
  operationType := .read
  bodyLength := 64
  timeout := 0

def oneMaster (_ : Bytes) : Option Bytes := some (text "n1 10.9.0.1:7000 myself,master - 0 0 1 connected 0-16383\n")

/-- A request of the client of this address after others, as far as the lists of nodes are concerned. -/
def requestAfter (earlier : List String) (xRealIp : String) : Option (QkpackRc × Option Bytes × Bytes × Bytes) :=
  (Machine.run routeStep Routing.empty
      (earlier.map fun xRealIp => .request (clientAt xRealIp) (some twoGroups) oneMaster)).bind fun s =>
    (routeRequest (some twoGroups) oneMaster (clientAt xRealIp) s).bind fun r => r.1.map fun routed =>
      (routed.rc,(r.2.clusters routed.client.request.clusterName).map ClusterTable.builtFrom,
        (s.loader routed).1.firstList (s.loader routed).2,
        routed.object.record.route.ownList (clientAt xRealIp).xRealIp)

/-- A client of the other group has loaded the table. -/
theorem routing_honours_group_later :
    ∃ s routed s' table, Machine.run routeStep Routing.empty
        [.request (clientAt "10.2.0.5") (some twoGroups) oneMaster] = some s ∧
      routeRequest (some twoGroups) oneMaster (clientAt "10.1.0.9") s = some (some routed,s') ∧
      s'.clusters routed.client.request.clusterName = some table ∧
      table.builtFrom = routed.object.record.route.ownList (clientAt "10.1.0.9").xRealIp := by
  have hlater : requestAfter ["10.2.0.5"] "10.1.0.9" =
      some (.ok,some (text "10.1.0.1:7000"),text "10.1.0.1:7000",text "10.1.0.1:7000") := by decide +kernel
  obtain ⟨s,hrun,hlater⟩ := Option.bind_eq_some_iff.mp hlater
  obtain ⟨⟨_,s'⟩,hroute,hlater⟩ := Option.bind_eq_some_iff.mp hlater
  obtain ⟨routed,rfl,hlater⟩ := Option.map_eq_some_iff.mp hlater
  obtain ⟨hok,hlists⟩ := Prod.mk.inj hlater
  obtain ⟨hloader,hown⟩ := Prod.mk.inj (Prod.mk.inj hlists).2
  obtain ⟨table,htable,hbuilt⟩ := (routing_honours_group_iff _ hrun hroute hok).mpr (hloader.trans hown.symm)
  exact ⟨s,routed,s',table,hrun,hroute,htable,hbuilt⟩

/-- The client of the second group finds a table that was built from the nodes of the first. -/
theorem routing_other_group :
    ∃ routed s', routeRequest (some twoGroups) oneMaster (clientAt "10.2.0.5") Routing.empty =
        some (some routed,s') ∧ routed.rc = .ok ∧
      ¬ ∃ table, s'.clusters routed.client.request.clusterName = some table ∧
        table.builtFrom = routed.object.record.route.ownList (clientAt "10.2.0.5").xRealIp := by
  have hfirst : requestAfter [] "10.2.0.5" =
      some (.ok,some (text "10.1.0.1:7000"),text "10.1.0.1:7000",text "10.2.0.1:7000") := by decide +kernel
  obtain ⟨_,⟨⟩,hfirst⟩ := Option.bind_eq_some_iff.mp hfirst
  obtain ⟨⟨_,s'⟩,hroute,hfirst⟩ := Option.bind_eq_some_iff.mp hfirst
  obtain ⟨routed,rfl,hfirst⟩ := Option.map_eq_some_iff.mp hfirst
  obtain ⟨hok,hlists⟩ := Prod.mk.inj hfirst
  obtain ⟨hbuilt,hrest⟩ := Prod.mk.inj hlists
  have hown := (Prod.mk.inj hrest).2
  refine ⟨routed,s',hroute,hok,?_⟩
  rintro ⟨table,htable,heq⟩
  rw [htable, Option.map_some, Option.some.injEq] at hbuilt
  rw [hbuilt, hown] at heq
  exact absurd heq (by decide)

end Honoured

end QkPack
