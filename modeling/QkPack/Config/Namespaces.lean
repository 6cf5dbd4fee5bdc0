import QkPack.Config.ZsetLimits
import QkPack.Parser.ReadSpecs

/-!
# Two rules for the namespace

The readers take the namespace from behind the last slash of the URI, access control from behind the third.
On a URI that access control accepts the readers find a namespace exactly if no further slash follows.
-/

namespace QkPack
open Wire CString Resp Json

section Slashes

variable {pre s : Bytes}

theorem behindSlash_eq_some {n : Nat} {uri : Bytes} (h : behindSlash (n + 1) uri = some s) :
    ∃ pre, uri = pre ++ 47 :: s := by
  induction uri generalizing n with
  | nil => cases h
  | cons c uri ih =>
    rw [behindSlash] at h
    split at h
    · rename_i hc
      subst hc
      cases n with
      | zero =>
        rw [behindSlash, Option.some.injEq] at h
        rw [h]
        exact ⟨[],rfl⟩
      | succ n =>
        obtain ⟨pre,rfl⟩ := ih h
        exact ⟨47 :: pre,rfl⟩
    · obtain ⟨pre,rfl⟩ := ih h
      exact ⟨c :: pre,rfl⟩

theorem findLastSlash_append (hs : 47 ∉ s) : findLastSlash (pre ++ 47 :: s) = pre.length := by
  have hall : ∀ c ∈ s.reverse, (c != 47) = true := by
    intro c hc
    rw [bne_iff_ne]
    intro heq
    subst heq
    exact hs (List.mem_reverse.mp hc)
  have hrev : (pre ++ 47 :: s).reverse = s.reverse ++ 47 :: pre.reverse := by simp
  have htail : ((47 : UInt8) :: pre.reverse).takeWhile (· != 47) = [] := by simp
  unfold findLastSlash
  rw [hrev, List.takeWhile_append_of_pos hall, htail, List.append_nil, List.length_reverse,
    List.length_append, List.length_cons]
  omega

theorem lastNamespaces_append (hpre : pre ≠ []) (hs : 47 ∉ s) :
    lastNamespaces (pre ++ 47 :: s) = some s := by
  have hpos : 0 < pre.length := List.length_pos_iff.mpr hpre
  have hdrop : ((pre.length : Int) + 1).toNat = pre.length + 1 := by omega
  simp only [lastNamespaces, findLastSlash_append hs, hdrop]
  rw [if_neg (by omega), List.append_cons, ← List.length_singleton (a := (47 : UInt8)),
    ← List.length_append, List.drop_left]

theorem filled_append_iff (hpre : pre ≠ []) (hlen : s.length = 2) :
    Filled (pre ++ 47 :: s) ↔ 47 ∉ s := by
  constructor
  · rintro ⟨namespaces,hlast,htwo⟩ hmem
    obtain ⟨b,a,hsplit,hb⟩ := List.eq_append_cons_of_mem (List.mem_reverse.mpr hmem)
    have hs : s = a.reverse ++ 47 :: b.reverse := by
      rw [← List.reverse_reverse s, hsplit]
      simp
    have hpre' : pre ++ 47 :: a.reverse ≠ [] := by simp
    have hb' : 47 ∉ b.reverse := fun h => hb (List.mem_reverse.mp h)
    have hshort := lastNamespaces_append hpre' hb'
    rw [List.append_assoc, List.cons_append, ← hs, hlast, Option.some.injEq] at hshort
    subst hshort
    have hlength := congrArg List.length hs
    simp only [List.length_append, List.length_cons] at hlength
    omega
  · intro hs
    exact ⟨s,lastNamespaces_append hpre hs,hlen⟩

end Slashes

/-- A request whose body the readers accept and whose URI access control accepts. -/
def acceptedRequest (command : CommandType) (node : Option Tree) : Option Request :=
  match readJsonFanOut node (Request.opened command) with
  | (.ok,r₁) =>
    match setNameSpace r₁ with
    | (.ok,r₂) =>
      match setClusterName r₂ with
      | (.ok,r₃) => some r₃
      | _ => none
    | _ => none
  | _ => none

section Accepted

variable {command : CommandType} {node : Option Tree} {r r' : Request}

theorem acceptedRequest_eq_some (h : acceptedRequest command node = some r) :
    ∃ r₁ r₂, readJsonFanOut node (Request.opened command) = (.ok,r₁) ∧ setNameSpace r₁ = (.ok,r₂) ∧
      setClusterName r₂ = (.ok,r) := by
  unfold acceptedRequest at h
  split at h
  · rename_i r₁ hread
    split at h
    · rename_i r₂ hname
      split at h
      · rename_i hcluster
        cases h
        exact ⟨r₁,r₂,hread,hname,hcluster⟩
      · cases h
    · cases h
  · cases h

theorem startsWith_ne_nil {uri pre s : Bytes} (h : startsWith uri "qkd://" = true)
    (huri : uri = pre ++ 47 :: s) : pre ≠ [] := by
  rintro rfl
  obtain ⟨rest,hrest⟩ := List.isPrefixOf_iff_prefix.mp h
  rw [huri] at hrest
  cases hrest

theorem setNameSpace_inv (h : setNameSpace r = (.ok,r')) :
    ∃ s, startsWith r.uri "qkd://" = true ∧ behindSlash 3 r.uri = some s ∧ (cStr s).length = 2 ∧
      r' = { r with namespaces := cStr s } := by
  unfold setNameSpace at h
  split at h
  · cases h
  · rename_i hstarts
    split at h
    · cases h
    · rename_i s hbehind
      simp only at h
      split at h
      · cases h
      · rename_i hlen
        cases h
        exact ⟨s,not_not.mp hstarts,hbehind,not_not.mp hlen,rfl⟩

theorem cStr_behindSlash {n : Nat} {uri s : Bytes} (huri : 0 ∉ uri) (h : behindSlash (n + 1) uri = some s) :
    cStr s = s := by
  obtain ⟨pre,hpre⟩ := behindSlash_eq_some h
  apply cStr_eq
  intro hnul
  rw [hpre] at huri
  exact huri (List.mem_append_right pre (List.mem_cons_of_mem 47 hnul))

theorem setNameSpace_ok (huri : 0 ∉ r.uri) (h : setNameSpace r = (.ok,r')) :
    ∃ pre s, r.uri = pre ++ 47 :: s ∧ pre ≠ [] ∧ s.length = 2 ∧ r' = { r with namespaces := s } := by
  obtain ⟨s,hstarts,hbehind,hlen,rfl⟩ := setNameSpace_inv h
  obtain ⟨pre,hpre⟩ := behindSlash_eq_some hbehind
  rw [cStr_behindSlash huri hbehind] at hlen ⊢
  exact ⟨pre,s,hpre,startsWith_ne_nil hstarts hpre,hlen,rfl⟩

theorem setClusterName_ok (h : setClusterName r = (.ok,r')) :
    ∃ clusterName, r' = { r with clusterName := clusterName } := by
  unfold setClusterName at h
  split at h
  · cases h
    exact ⟨_,rfl⟩
  · cases h

/-- On the URI of an accepted request the readers have filled the maps exactly if the namespace has no
slash in it. -/
theorem filled_iff_of_accepted (huri : 0 ∉ r.uri) (h : setNameSpace r = (.ok,r')) :
    Filled r.uri ↔ 47 ∉ r'.namespaces := by
  obtain ⟨pre,s,hpre,hne,hlen,rfl⟩ := setNameSpace_ok huri h
  rw [hpre]
  exact filled_append_iff hne hlen

theorem setNameSpace_last {namespaces : Bytes} (huri : 0 ∉ r.uri) (h : setNameSpace r = (.ok,r'))
    (hfilled : Filled r.uri) (hlast : lastNamespaces r.uri = some namespaces) : r'.namespaces = namespaces := by
  obtain ⟨pre,s,hpre,hne,hlen,rfl⟩ := setNameSpace_ok huri h
  rw [hpre] at hlast hfilled
  rw [lastNamespaces_append hne ((filled_append_iff hne hlen).mp hfilled), Option.some.injEq] at hlast
  exact hlast

theorem aclProcess_ok {acl : Option Acl} {refusal : Option Bytes}
    (h : aclProcess acl refusal r = (.ok,r')) :
    ∃ a r₂ r₃, acl = some a ∧ setNameSpace r = (.ok,r₂) ∧ setClusterName r₂ = (.ok,r₃) ∧
      getZsetLimit a.policies { r₃ with
        exptime := a.expire, compressThreshold := a.compressThreshold } = (.ok,r') := by
  unfold aclProcess at h
  split at h
  · rename_i r₂ hname
    split at h
    · cases h
    · rename_i a
      split at h
      · rename_i r₃ hcluster
        simp only at h
        split at h
        · cases h
        · exact ⟨a,r₂,r₃,rfl,hname,hcluster,h⟩
      · rename_i hnot
        exact absurd h (hnot r')
  · rename_i hnot
    exact absurd h (hnot r')

/-- A request that has come past access control is an accepted one with the data of its record. -/
theorem createParent_ok {acl : Option Acl} {refusal : Option Bytes}
    (h : createParent command node acl refusal = (.ok,r)) :
    ∃ a r₀, acl = some a ∧ acceptedRequest command node = some r₀ ∧
      getZsetLimit a.policies { r₀ with
        exptime := a.expire, compressThreshold := a.compressThreshold } = (.ok,r) := by
  unfold createParent at h
  split at h
  · rename_i r₁ hread
    split at h
    · rename_i r₂ hacl
      cases h
      obtain ⟨a,r₂,r₃,hsome,hname,hcluster,hlimit⟩ := aclProcess_ok hacl
      refine ⟨a,r₃,hsome,?_,hlimit⟩
      simp only [acceptedRequest, hread, hname, hcluster]
    · cases h
  · cases h

theorem createParent_read {acl : Option Acl} {refusal : Option Bytes}
    (huri : ∀ r₁, readJsonFanOut node (Request.opened command) = (.ok,r₁) → 0 ∉ r₁.uri)
    (hcreate : createParent command node acl refusal = (.ok,r)) :
    ∃ r₁, readJsonFanOut node (Request.opened command) = (.ok,r₁) ∧ r.namespaces.length = 2 ∧
      r = { r₁ with
        namespaces := r.namespaces
        clusterName := r.clusterName
        exptime := r.exptime
        compressThreshold := r.compressThreshold
        mapKv := r.mapKv } ∧ r.mapKv.map (·.1) = r₁.mapKv.map (·.1) := by
  obtain ⟨a,r₀,-,haccepted,hlimit⟩ := createParent_ok hcreate
  obtain ⟨r₁,r₂,hread,hname,hcluster⟩ := acceptedRequest_eq_some haccepted
  obtain ⟨clusterName,rfl⟩ := setClusterName_ok hcluster
  obtain ⟨mapKv,rfl,hkeys⟩ := getZsetLimit_ok hlimit
  obtain ⟨pre,s,-,-,hlen,rfl⟩ := setNameSpace_ok (huri r₁ hread) hname
  exact ⟨r₁,hread,hlen,rfl,hkeys⟩

section Vectors

variable {α : Type} {check : Tree → Except Bytes α} {entry : α → KvPair}

theorem slots_of_accepted {r₁ r₂ : Request}
    (hread : readVector check entry node (Request.opened command) = (.ok,r₁))
    (hname : setNameSpace r₁ = (.ok,r₂)) (hslots : r₁.mapSlotsKv ≠ []) :
    r₂.mapSlotsKv = pushSlots r₂.namespaces r₂.vectorKv [] := by
  obtain ⟨tree,values,uri,as,-,-,-,huri,-,rfl⟩ := readVector_ok hread
  unfold fillVectorSlots at hname hslots
  rcases setLastNamespaces_cases { Request.opened command with
      uri := uri, vectorKv := (Request.opened command).vectorKv ++ as.map entry } with
    ⟨namespaces,hlast,hfilled,heq⟩ | ⟨namespaces,hnot,heq⟩
  · rw [heq] at hname hslots
    have hsame := setNameSpace_last huri hname hfilled hlast
    obtain ⟨pre,s,-,-,-,rfl⟩ := setNameSpace_ok huri hname
    simp only at hsame
    subst hsame
    rfl
  · rw [heq] at hslots
    exact absurd rfl hslots

theorem fillVectorSlots_keeps (request : Request) :
    (fillVectorSlots request).uri = request.uri ∧
      (fillVectorSlots request).vectorKv = request.vectorKv := by
  unfold fillVectorSlots
  rcases setLastNamespaces_cases request with ⟨namespaces,-,-,heq⟩ | ⟨namespaces,-,heq⟩
  · rw [heq]
    exact ⟨rfl,rfl⟩
  · rw [heq]
    exact ⟨rfl,rfl⟩

theorem createParent_vector (check : Tree → Except Bytes α) (entry : α → KvPair) {acl : Option Acl}
    {refusal : Option Bytes} (hread : readJsonFanOut node (Request.opened command) =
      readVector check entry node (Request.opened command))
    (hcreate : createParent command node acl refusal = (.ok,r)) :
    ∃ tree values as, node = some tree ∧ tree.getArray "ks" = some values ∧ values.mapM check = .ok as ∧
      r.vectorKv = as.map entry ∧ r.namespaces.length = 2 ∧
      (r.mapSlotsKv ≠ [] → r.mapSlotsKv = pushSlots r.namespaces r.vectorKv []) := by
  obtain ⟨a,r₀,-,haccepted,hlimit⟩ := createParent_ok hcreate
  obtain ⟨r₁,r₂,hread₁,hname,hcluster⟩ := acceptedRequest_eq_some haccepted
  rw [hread] at hread₁
  have hslots := slots_of_accepted hread₁ hname
  obtain ⟨tree,values,uri,as,hnode,hks,has,huri,-,hr₁⟩ := readVector_ok hread₁
  obtain ⟨hsame,hvector⟩ := fillVectorSlots_keeps { Request.opened command with
    uri := uri, vectorKv := (Request.opened command).vectorKv ++ as.map entry }
  rw [← hr₁] at hsame hvector
  obtain ⟨pre,s,-,-,hlen,rfl⟩ := setNameSpace_ok (by rw [hsame]; exact huri) hname
  obtain ⟨clusterName,rfl⟩ := setClusterName_ok hcluster
  obtain ⟨mapKv,rfl,-⟩ := getZsetLimit_ok hlimit
  exact ⟨tree,values,as,hnode,hks,has,hvector,hlen,hslots⟩

end Vectors

end Accepted

end QkPack
