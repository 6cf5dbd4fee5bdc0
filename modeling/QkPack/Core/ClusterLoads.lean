import QkPack.Core.Routes

/-!
# Tables without slots

`UpdateClusterNodes` enters whatever it could read of a reply, and `GetNode` loads a cluster only while it has no
entry. A cluster that was entered without slots stays so until a redirection adds one.
-/

namespace QkPack
open Wire CString Resp

/-- `GetNode` for a request of a client, with the replies of the nodes that can be reached; or the answer `MOVED` to a
request, whose cluster is there. -/
inductive LoadEvent where
  | getNode (replies : Bytes → Option Bytes) (route : Route) (isMatchIp : Bool) (client : Client)
  | moved (name : Bytes) (slot : Int) (nodeIp : Bytes)

/-- `map_cluster_` at the start. -/
def Clusters.empty : Clusters := fun _ => none

def clusterStep (clusters : Clusters) : LoadEvent → Option Clusters
  | .getNode replies route isMatchIp client =>
    match getNode replies route isMatchIp client clusters with
    | .error _ => none
    | .ok (_,_,clusters) => some clusters
  | .moved name slot nodeIp => (clusters name).map fun table => clusters.setSlot name table slot nodeIp

def SlotMap.HasSlot (slots : SlotMap) : Prop := ∃ slot node, slots slot = some node

def Clusters.Usable (clusters : Clusters) : Prop :=
  ∀ name table, clusters name = some table → SlotMap.HasSlot table.slots

def LoadEvent.loads (clusters : Clusters) : LoadEvent → Option (Bytes × SlotMap)
  | .getNode replies route isMatchIp client =>
    if (clusters client.request.clusterName).isSome then none
    else (firstTable replies (split (route.loadList isMatchIp) (text ","))).map (client.request.clusterName,·)
  | .moved _ _ _ => none

def LoadYields (clusters : Clusters) (e : LoadEvent) : Prop :=
  ∀ name slots, e.loads clusters = some (name,slots) → SlotMap.HasSlot slots

def LeavesUsable (clusters : Clusters) (e : LoadEvent) : Prop :=
  ∀ clusters', clusterStep clusters e = some clusters' → clusters'.Usable

/-- A load without slots leaves no entry, so that the next request loads the cluster again. -/
def LoadsAgain (clusters : Clusters) (e : LoadEvent) : Prop :=
  ∀ name slots clusters', e.loads clusters = some (name,slots) → ¬ SlotMap.HasSlot slots →
    clusterStep clusters e = some clusters' → clusters' name = none

section Step

variable {clusters clusters' : Clusters} {e : LoadEvent}

/-- An event enters the table that it loads, changes a slot of an entry, or does nothing. -/
theorem clusterStep_cases (h : clusterStep clusters e = some clusters') :
    (∃ name table, e.loads clusters = some (name,table.slots) ∧ clusters name = none ∧
        clusters' = clusters.insert name table) ∨
      e.loads clusters = none ∧ (clusters' = clusters ∨ ∃ name table slot nodeIp, clusters name = some table ∧
        clusters' = clusters.setSlot name table slot nodeIp) := by
  cases e with
  | getNode replies route isMatchIp client =>
    obtain ⟨rc,request,hnode⟩ : ∃ rc request,
        getNode replies route isMatchIp client clusters = .ok (rc,request,clusters') := by
      rw [clusterStep] at h
      split at h
      · cases h
      · rename_i rc request _ hnode
        cases h
        exact ⟨rc,request,hnode⟩
    cases hcluster : clusters client.request.clusterName with
    | some table =>
      refine .inr ⟨?_,.inl (getNode_of_some hcluster hnode)⟩
      rw [LoadEvent.loads, hcluster]
      rfl
    | none =>
      rcases getNode_loads hcluster hnode with ⟨hempty,hsame⟩ | ⟨slots,hslots,hinsert⟩
      · refine .inr ⟨?_,.inl hsame⟩
        rw [LoadEvent.loads, hempty]
        exact ite_self _
      · refine .inl ⟨client.request.clusterName,⟨_,_,slots⟩,?_,hcluster,hinsert⟩
        rw [LoadEvent.loads, hcluster, hslots]
        rfl
  | moved name slot nodeIp =>
    obtain ⟨table,htable,rfl⟩ := Option.map_eq_some_iff.mp h
    exact .inr ⟨rfl,.inr ⟨name,table,slot,nodeIp,htable,rfl⟩⟩

theorem Clusters.Usable.setSlot {name : Bytes} {table : ClusterTable} {slot : Int} {nodeIp : Bytes}
    (h : clusters.Usable) : (clusters.setSlot name table slot nodeIp).Usable := by
  intro other table' hother
  simp only [Clusters.setSlot] at hother
  split at hother
  · cases hother
    exact ⟨slot,nodeIp,if_pos rfl⟩
  · exact h other table' hother

theorem usable_insert_iff {name : Bytes} {table : ClusterTable} (h : clusters.Usable) (hnone : clusters name = none) :
    (clusters.insert name table).Usable ↔ SlotMap.HasSlot table.slots := by
  constructor
  · intro husable
    exact husable name table (insert_of_none hnone table)
  · intro hslot other table' hother
    by_cases hname : other = name
    · subst hname
      rw [insert_of_none hnone] at hother
      cases hother
      exact hslot
    · rw [insert_other hname] at hother
      exact h other table' hother

theorem usable_step_iff (hs : clusters.Usable) (h : clusterStep clusters e = some clusters') :
    clusters'.Usable ↔ LoadYields clusters e := by
  rcases clusterStep_cases h with ⟨name,table,hloads,hnone,rfl⟩ | ⟨hloads,hsame⟩
  · rw [usable_insert_iff hs hnone]
    constructor
    · intro hslot name' slots' hloads'
      cases hloads.symm.trans hloads'
      exact hslot
    · exact fun hyields => hyields name table.slots hloads
  · refine iff_of_true ?_ fun name slots hloads' => ?_
    · rcases hsame with rfl | ⟨name,table,slot,nodeIp,-,rfl⟩
      · exact hs
      · exact hs.setSlot
    · cases hloads.symm.trans hloads'

theorem loadsAgain_iff (h : clusterStep clusters e = some clusters') :
    LoadsAgain clusters e ↔ LoadYields clusters e := by
  constructor
  · intro hagain name slots hloads
    by_contra hslot
    have hgone := hagain name slots clusters' hloads hslot h
    -- The entry is made all the same.
    rcases clusterStep_cases h with ⟨name',table,hloads',hnone,rfl⟩ | ⟨hloads',-⟩
    · cases hloads.symm.trans hloads'
      rw [insert_of_none hnone] at hgone
      cases hgone
    · cases hloads.symm.trans hloads'
  · intro hyields name slots clusters'' hloads hslot
    exact absurd (hyields name slots hloads) hslot

end Step

theorem Clusters.usable_empty : Clusters.empty.Usable := nofun

/-- In whatever calls and redirections, no entry without slots is kept just when every load reads a slot; and just then
a load without slots leaves the cluster to be loaded again. -/
theorem clusters_usable_iff (es : List LoadEvent) (clusters : Clusters)
    (hrun : Machine.run clusterStep Clusters.empty es = some clusters) :
    (Machine.Along clusterStep LeavesUsable Clusters.empty es ↔
        Machine.Along clusterStep LoadYields Clusters.empty es) ∧
      (Machine.Along clusterStep LoadsAgain Clusters.empty es ↔
        Machine.Along clusterStep LoadYields Clusters.empty es) := by
  constructor
  · exact Machine.along_invariant_iff (fun hs hstep => usable_step_iff hs hstep) Clusters.usable_empty hrun
  · exact Machine.along_iff_along (I := fun _ => True) (fun _ _ => trivial) (fun _ hstep => loadsAgain_iff hstep)
      trivial hrun

def noCluster (_ : Bytes) : Option Bytes := some (text "ERR This instance has cluster support disabled")

theorem clusters_usable_one_master :
    ∃ clusters, Machine.run clusterStep Clusters.empty
        [.getNode oneMaster twoGroups.route false (clientAt "10.1.0.9")] = some clusters ∧
      Machine.Along clusterStep LeavesUsable Clusters.empty
        [.getNode oneMaster twoGroups.route false (clientAt "10.1.0.9")] := by
  refine ⟨_,rfl,(clusters_usable_iff [.getNode oneMaster twoGroups.route false (clientAt "10.1.0.9")] _ rfl).1.mpr ?_⟩
  refine ⟨fun name slots hloads => ?_,fun _ _ => trivial⟩
  cases hloads
  exact ⟨0,text "10.9.0.1:7000",by decide +kernel⟩

/-- The nodes are no cluster yet when the first request comes. When they are one, the next request finds an entry
without slots and fails. -/
theorem clusters_unusable :
    ∃ clusters table, Machine.run clusterStep Clusters.empty
        [.getNode noCluster twoGroups.route false (clientAt "10.1.0.9")] = some clusters ∧
      clusters (clientAt "10.1.0.9").request.clusterName = some table ∧ (∀ slot, table.slots slot = none) ∧
      getNode oneMaster twoGroups.route false (clientAt "10.1.0.9") clusters =
        .ok (.error,(clientAt "10.1.0.9").request,clusters) :=
  ⟨_,_,rfl,rfl,fun _ => rfl,rfl⟩

end QkPack
