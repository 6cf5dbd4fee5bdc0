import QkPack.Core.ClusterNodes
import QkPack.Protocol.ReadBack

/-!
# What a redirection changes

`ProcessMoved` puts the node of a redirection into the request before it looks at it, and takes the first line of the
third word without asking whether there is one.
-/

namespace QkPack
open Wire CString Resp

def replyWords (reply : Bytes) : List Bytes := split reply (text " ")

/-- The address in a reply: the first line of the third word. -/
def replyAddress (reply : Bytes) : Option Bytes := ((replyWords reply)[2]?).bind fun word => (split word crlf).head?

def NamesSlot (reply : Bytes) (slot : Nat) : Prop :=
  ∃ word, (replyWords reply)[1]? = some word ∧ word ≠ [] ∧ (∀ c ∈ word, IsDigit c) ∧ slot = digitsValue word

/-- `ProcessMoved` takes a node for an address and a port. -/
def AcceptedNode (node : Bytes) : Prop :=
  ∃ ip port, split node (text ":") = [ip,port] ∧ 0 < strToInt32 ip 0 ∧ 0 < strToInt32 port 0

/-- `map_cluster_[name][slot] = node`. -/
def ClusterMap.set (cluster : ClusterMap) (name : Bytes) (slot : Int) (node : Bytes) : ClusterMap :=
  fun name' slot' => if name' = name ∧ slot' = slot then some node else cluster name' slot'

section Framed

variable (reply clusterName nodeIp : Bytes) (status : RedisRc) (cluster : ClusterMap)

/-- An error changes nothing, and success no more than the node and, for `MOVED`, the slot of the reply. -/
structure MovedFramed (rc : QkpackRc) (nodeIp' : Bytes) (cluster' : ClusterMap) : Prop where
  returns : rc = .ok ∨ rc = .error
  error : rc = .error → nodeIp' = nodeIp ∧ cluster' = cluster
  node : rc = .ok → replyAddress reply = some nodeIp'
  moved : rc = .ok → status = .moved →
    ∃ slot, NamesSlot reply slot ∧ cluster' = cluster.set clusterName slot nodeIp'
  ask : rc = .ok → status = .ask → cluster' = cluster

/-- A reply is processed within its frame, whatever the node and the tables were before. -/
def MovedAtomic : Prop :=
  ∀ clusterName nodeIp cluster, ∃ rc nodeIp' cluster',
    processMoved reply clusterName nodeIp status cluster = .ok (rc,nodeIp',cluster') ∧
      MovedFramed reply clusterName nodeIp status cluster rc nodeIp' cluster'

end Framed

section Cases

variable {reply clusterName nodeIp w₀ w₁ w₂ node : Bytes} {rest lines : List Bytes} {status : RedisRc}
  {cluster : ClusterMap}

theorem processMoved_short (hstatus : status = .moved ∨ status = .ask) (hwords : (replyWords reply).length < 3) :
    processMoved reply clusterName nodeIp status cluster = .ok (.error,nodeIp,cluster) := by
  have hredirect : ¬ (status ≠ .moved ∧ status ≠ .ask) := by tauto
  rw [processMoved, if_neg hredirect]
  exact if_pos hwords

theorem exists_words (hwords : ¬ (replyWords reply).length < 3) :
    ∃ w₀ w₁ w₂ rest, replyWords reply = w₀ :: w₁ :: w₂ :: rest := by
  match hreply : replyWords reply with
  | [] | [_] | [_,_] => simp [hreply] at hwords
  | w₀ :: w₁ :: w₂ :: rest => exact ⟨w₀,w₁,w₂,rest,rfl⟩

theorem movedNode_of_accepted (hlines : split w₂ crlf = node :: lines) (hnode : AcceptedNode node) :
    movedNode (w₀ :: w₁ :: w₂ :: rest) = .ok (.ok,node) := by
  obtain ⟨ip,port,hsplit,hip,hport⟩ := hnode
  have hvalid : ¬ (strToInt32 ip 0 ≤ 0 ∨ strToInt32 port 0 ≤ 0) := by omega
  simp only [movedNode, List.getElem?_cons_succ, List.getElem?_cons_zero, Option.map_some, hlines, hsplit,
    if_neg hvalid]

theorem movedNode_of_refused (hlines : split w₂ crlf = node :: lines) (hnode : ¬ AcceptedNode node) :
    movedNode (w₀ :: w₁ :: w₂ :: rest) = .ok (.error,node) := by
  simp only [movedNode, List.getElem?_cons_succ, List.getElem?_cons_zero, Option.map_some, hlines]
  split
  · rename_i ip port hsplit
    split
    · rfl
    · rename_i hvalid
      exact absurd ⟨ip,port,hsplit,by omega,by omega⟩ hnode
  · rfl

theorem movedNode_of_nil (hlines : split w₂ crlf = []) : movedNode (w₀ :: w₁ :: w₂ :: rest) = .error .badAccess := by
  simp only [movedNode, List.getElem?_cons_succ, List.getElem?_cons_zero, Option.map_some, hlines]

theorem processMoved_of_words (hstatus : status = .moved ∨ status = .ask)
    (hwords : replyWords reply = w₀ :: w₁ :: w₂ :: rest) :
    processMoved reply clusterName nodeIp status cluster =
      (movedNode (w₀ :: w₁ :: w₂ :: rest)).map fun (rc,node) =>
        if rc = .ok ∧ status = .moved then (.ok,node,cluster.set clusterName (strToInt32 w₁ (-1)) node)
        else (rc,node,cluster) := by
  have hredirect : ¬ (status ≠ .moved ∧ status ≠ .ask) := by tauto
  have hlen : ¬ (w₀ :: w₁ :: w₂ :: rest).length < 3 := by simp
  rw [replyWords] at hwords
  rw [processMoved, if_neg hredirect, hwords]
  simp only [if_neg hlen]
  cases movedNode (w₀ :: w₁ :: w₂ :: rest) with
  | error fault => rfl
  | ok r =>
    rw [ok_bind]
    by_cases hmoved : r.1 = .ok ∧ status = .moved
    · simp only [Except.map, if_pos hmoved]
      rfl
    · simp only [Except.map, if_neg hmoved]
      rfl

theorem replyAddress_of_words (hwords : replyWords reply = w₀ :: w₁ :: w₂ :: rest) :
    replyAddress reply = (split w₂ crlf).head? := by
  rw [replyAddress, hwords]
  rfl

theorem strToInt32_digits {word : Bytes} (hne : word ≠ []) (hword : ∀ c ∈ word, IsDigit c) :
    strToInt32 word (-1) = if digitsValue word < 2 ^ 31 then (digitsValue word : Int) else -1 := by
  have hstr : cStr word ≠ [] := by
    obtain ⟨d,ds,rfl⟩ := List.exists_cons_of_ne_nil hne
    have hd : d ≠ 0 := by
      rintro rfl
      exact absurd (hword 0 List.mem_cons_self) (by decide)
    simp [cStr, hd]
  rw [strToInt32, strtol10_digits hne hword, clampLong]
  split
  · rename_i h
    rw [if_neg]
    have hout := h.resolve_left hstr
    omega
  · rename_i h
    rw [if_pos] <;> omega

end Cases

/-- The reply has a node that is accepted and, for `MOVED`, a slot that an `int` can hold. -/
structure WellFormedMoved (reply : Bytes) (status : RedisRc) : Prop where
  node : ∃ node, replyAddress reply = some node ∧ AcceptedNode node
  slot : status = .moved → ∃ slot, NamesSlot reply slot ∧ slot < 2 ^ 31

section Atomic

variable {reply w₀ w₁ w₂ : Bytes} {rest : List Bytes} {status : RedisRc}

theorem namesSlot_of_words {slot : Nat} (hwords : replyWords reply = w₀ :: w₁ :: w₂ :: rest)
    (h : NamesSlot reply slot) :
    strToInt32 w₁ (-1) = if slot < 2 ^ 31 then (slot : Int) else -1 := by
  obtain ⟨word,hword,hne,hdigits,rfl⟩ := h
  rw [hwords] at hword
  cases hword
  exact strToInt32_digits hne hdigits

theorem WellFormedMoved.atomic (hstatus : status = .moved ∨ status = .ask)
    (hwords : replyWords reply = w₀ :: w₁ :: w₂ :: rest) (h : WellFormedMoved reply status) :
    MovedAtomic reply status := by
  intro clusterName nodeIp cluster
  obtain ⟨node,haddress,hnode⟩ := h.node
  obtain ⟨lines,hlines⟩ : ∃ lines, split w₂ crlf = node :: lines := by
    rw [replyAddress_of_words hwords] at haddress
    exact List.head?_eq_some_iff.mp haddress
  rw [processMoved_of_words hstatus hwords, movedNode_of_accepted hlines hnode]
  rcases hstatus with rfl | rfl
  · obtain ⟨slot,hslot,hlt⟩ := h.slot rfl
    have hint : strToInt32 w₁ (-1) = slot := by rw [namesSlot_of_words hwords hslot, if_pos hlt]
    refine ⟨.ok,node,cluster.set clusterName slot node,by rw [← hint]; rfl,.inl rfl,nofun,fun _ => haddress,?_,nofun⟩
    exact fun _ _ => ⟨slot,hslot,rfl⟩
  · exact ⟨.ok,node,cluster,rfl,.inl rfl,nofun,fun _ => haddress,nofun,fun _ _ => rfl⟩

theorem MovedAtomic.wellFormed (hstatus : status = .moved ∨ status = .ask)
    (hwords : replyWords reply = w₀ :: w₁ :: w₂ :: rest) (h : MovedAtomic reply status) :
    WellFormedMoved reply status := by
  cases hlines : split w₂ crlf with
  | nil =>
    obtain ⟨rc,node,cluster,hmoved,-⟩ := h [] [] fun _ _ => none
    rw [processMoved_of_words hstatus hwords, movedNode_of_nil hlines] at hmoved
    cases hmoved
  | cons node lines =>
    have haddress : replyAddress reply = some node := by
      rw [replyAddress_of_words hwords, hlines]
      rfl
    by_cases hnode : AcceptedNode node
    · refine ⟨⟨node,haddress,hnode⟩,?_⟩
      rintro rfl
      obtain ⟨rc,node',cluster',hmoved,hframed⟩ := h [] [] fun _ _ => none
      rw [processMoved_of_words hstatus hwords, movedNode_of_accepted hlines hnode] at hmoved
      cases hmoved
      obtain ⟨slot,hslot,hset⟩ := hframed.moved rfl rfl
      -- The table was empty, so the slot of the reply has to be the one that was entered.
      have hat := congrFun (congrFun hset []) slot
      have hentered : (slot : Int) = strToInt32 w₁ (-1) := by
        by_contra hother
        simp [ClusterMap.set, hother] at hat
      refine ⟨slot,hslot,by_contra fun hlarge => ?_⟩
      rw [namesSlot_of_words hwords hslot, if_neg hlarge] at hentered
      omega
    · obtain ⟨rc,node',cluster',hmoved,hframed⟩ := h [] (0 :: node) fun _ _ => none
      rw [processMoved_of_words hstatus hwords, movedNode_of_refused hlines hnode] at hmoved
      cases hmoved
      exact absurd (hframed.error rfl).1.symm (List.cons_ne_self 0 node)

end Atomic

/-- A redirection is processed within its frame just when it has fewer than three words or is well formed. -/
theorem processMoved_atomic_iff (reply : Bytes) (status : RedisRc) (hstatus : status = .moved ∨ status = .ask) :
    MovedAtomic reply status ↔ (replyWords reply).length < 3 ∨ WellFormedMoved reply status := by
  by_cases hshort : (replyWords reply).length < 3
  · refine iff_of_true (fun clusterName nodeIp cluster => ?_) (.inl hshort)
    refine ⟨.error,nodeIp,cluster,processMoved_short hstatus hshort,.inr rfl,fun _ => ⟨rfl,rfl⟩,?_,?_,?_⟩
    all_goals nofun
  · obtain ⟨w₀,w₁,w₂,rest,hwords⟩ := exists_words hshort
    exact ⟨fun h => .inr (h.wellFormed hstatus hwords),fun h => (h.resolve_left hshort).atomic hstatus hwords⟩

theorem processMoved_atomic_slot : (RedisRc.moved = .moved ∨ RedisRc.moved = .ask) ∧
    MovedAtomic (text "-MOVED 3999 127.0.0.1:6381\r\n") .moved := by
  refine ⟨.inl rfl,(processMoved_atomic_iff (text "-MOVED 3999 127.0.0.1:6381\r\n") .moved (.inl rfl)).mpr (.inr ?_)⟩
  refine ⟨⟨text "127.0.0.1:6381",by decide,?_⟩,fun _ => ⟨3999,?_,by decide⟩⟩
  · exact ⟨text "127.0.0.1",text "6381",by decide,by decide,by decide⟩
  · exact ⟨decimal 3999,by decide,by decide,fun _ => decimal_isDigit,by decide⟩

/-- Without an address the first of no lines is taken; without a port the request keeps the wrong node; and a slot that
is no number is entered as slot 0. -/
theorem processMoved_malformed :
    processMoved (text "-MOVED 1 \r\n") [] (text "10.0.0.1:7000") .moved (fun _ _ => none) = .error .badAccess ∧
    (∃ cluster, processMoved (text "-ASK 1 :7001\r\n") [] (text "10.0.0.1:7000") .ask (fun _ _ => none) =
      .ok (.error,text ":7001",cluster)) ∧
    (∃ cluster, processMoved (text "-MOVED x 10.0.0.2:7000\r\n") [] [] .moved (fun _ _ => none) =
        .ok (.ok,text "10.0.0.2:7000",cluster) ∧ cluster [] 0 = some (text "10.0.0.2:7000")) := by
  exact ⟨rfl,⟨_,rfl⟩,⟨_,rfl,by decide⟩⟩

end QkPack
