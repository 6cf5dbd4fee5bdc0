import QkPack.Core.SingleCommands
import QkPack.Parser.ReadSingle

/-!
# What bodies ask for

The command that a client means with the body it posts to one of the paths for single keys, and that the request that
is read from the body is for this command.
-/

namespace QkPack
open Wire CString Resp Json

/-- The strings of `mbs`, which are read up to a NUL. -/
structure AsksMembers (node : Tree) (vs : List Value) : Prop where
  mbs : ∃ nodes, node.getArray "mbs" = some nodes ∧
    List.Forall₂ (fun mb v => ∃ s, mb = .string s ∧ cStr s = v.bytes) nodes vs
  plain : ∀ v ∈ vs, v.bytes ≠ snappyWord
  count : vs.length < 2 ^ 31

/-- A body that is posted for a command asks for this one of the tenant's. -/
def AsksFor (node : Tree) (command : CommandType) : TenantCommand → Prop
  | .get => command = .get
  | .set v => command = .set ∧ node.getString "v" = some v.bytes ∧ v.bytes ≠ snappyWord
  | .del => command = .del
  | .incrBy n => command = .incr ∧ n = 1 ∨ command = .incrby ∧ node.getString "v" = some (intText n)
  | .sadd vs => command = .sadd ∧ AsksMembers node vs
  | .srem vs => command = .srem ∧ AsksMembers node vs
  | .scard => command = .scard
  | .smembers => command = .smembers
  | .sismember v => command = .sismember ∧ node.getString "v" = some v.bytes ∧ v.bytes ≠ snappyWord

/-- A request that was read from a body: the URI and the key are there, and it can be sent with any threshold. -/
structure ReadAs (node : Tree) (key : Bytes) (command : CommandType) (c : TenantCommand) (request : Request) :
    Prop where
  unanswered : Unanswered request
  uri : node.getString "uri" = some request.uri
  named : node.getString "k" = some request.key ∧ request.key = key
  command : request.commandType = command
  carried : ∀ r : Request, r.commandType = request.commandType → r.value = request.value →
    r.vectorMbs = request.vectorMbs → c.CarriedBy r.compressThreshold r

section Read

variable {http : HttpRequest} {node : Tree} {key : Bytes} {command : CommandType} {c : TenantCommand}
  {request : Request}

theorem readJsonGet_ok {opened : Request} (h : readJsonGet (some node) opened = (.ok,request)) :
    ∃ uri key, node.getString "uri" = some uri ∧ node.getString "k" = some key ∧
      request = { opened with uri := uri, key := key } := by
  obtain ⟨tree,uri,key,htree,huri,hcheck,hread⟩ := withAcl_ok h
  cases htree
  cases hread
  refine ⟨uri,key,validateACLInfo_ok huri,?_,rfl⟩
  split at hcheck
  · exact validateString_ok hcheck
  · exact validateString_ok hcheck
  · exact validateString_ok hcheck

theorem validateKVPair_strings {k v : Option Bytes} {kv : Bytes × Bytes} (h : validateKVPair k v = .ok kv) :
    k = some kv.1 ∧ v = some kv.2 := by
  obtain ⟨key,hkey,h⟩ := bind_eq_ok.mp h
  obtain ⟨value,hvalue,h⟩ := bind_eq_ok.mp h
  cases h
  exact ⟨validateString_ok hkey,validateString_ok hvalue⟩

theorem validateSetByKV_strings {k v : Option Bytes} {kv : Bytes × Bytes} (h : validateSetByKV k v = .ok kv) :
    k = some kv.1 ∧ v = some kv.2 := by
  obtain ⟨key,hkey,h⟩ := bind_eq_ok.mp h
  obtain ⟨value,hvalue,h⟩ := bind_eq_ok.mp h
  cases h
  exact ⟨validateString_ok hkey,validateString_ok hvalue⟩

theorem readJsonSet_ok {opened : Request} (h : readJsonSet (some node) opened = (.ok,request)) :
    ∃ uri key value, node.getString "uri" = some uri ∧ node.getString "k" = some key ∧
      node.getString "v" = some value ∧ request = { opened with uri := uri, key := key, value := value } := by
  obtain ⟨tree,uri,kv,htree,huri,hcheck,hread⟩ := withAcl_ok h
  cases htree
  cases hread
  have hkv : node.getString "k" = some kv.1 ∧ node.getString "v" = some kv.2 := by
    split at hcheck
    · exact validateSetByKV_strings hcheck
    · obtain ⟨kv',hpair,hcheck⟩ := bind_eq_ok.mp hcheck
      unfold validateIncrement at hcheck
      split at hcheck
      · cases hcheck
      · cases hcheck
        exact validateKVPair_strings hpair
    · exact validateKVPair_strings hcheck
  exact ⟨uri,kv.1,kv.2,validateACLInfo_ok huri,hkv.1,hkv.2,rfl⟩

theorem readSetMembers_ok {mbs : List Tree} {vs : List Value}
    (hmbs : List.Forall₂ (fun mb v => ∃ s, mb = .string s ∧ cStr s = v.bytes) mbs vs) {opened : Request}
    (h : readSetMembers mbs opened = some (.ok,request)) :
    request = { opened with vectorMbs := opened.vectorMbs ++ vs.map (·.bytes) } := by
  induction hmbs generalizing opened with
  | nil =>
    cases h
    rw [List.map_nil, List.append_nil]
  | cons hfirst _ ih =>
    obtain ⟨s,rfl,hs⟩ := hfirst
    rw [readSetMembers] at h
    split at h
    · rw [ih h, List.map_cons, hs]
      simp
    · cases h

theorem readJsonSadd_ok {opened : Request} {vs : List Value} (hasks : AsksMembers node vs)
    (h : readJsonSadd (some node) opened = some (.ok,request)) :
    ∃ uri key, node.getString "uri" = some uri ∧ node.getString "k" = some key ∧ vs ≠ [] ∧
      request = { opened with uri := uri, key := key, vectorMbs := opened.vectorMbs ++ vs.map (·.bytes) } := by
  obtain ⟨nodes,hnodes,hmbs⟩ := hasks.mbs
  unfold readJsonSadd at h
  split at h
  · rename_i r hacl
    obtain ⟨tree,uri,zset,htree,huri,hcheck,hread⟩ := withAcl_ok hacl
    cases htree
    cases hread
    obtain ⟨key,hkey,hcheck⟩ := bind_eq_ok.mp hcheck
    obtain ⟨mbs,harray,hcheck⟩ := bind_eq_ok.mp hcheck
    cases hcheck
    obtain ⟨hsame,hne⟩ := validateArray_eq_ok harray
    rw [hnodes] at hsame
    cases hsame
    simp only [Option.bind_some, hnodes, Option.getD_some] at h
    refine ⟨uri,key,validateACLInfo_ok huri,validateString_ok hkey,?_,readSetMembers_ok hmbs h⟩
    rintro rfl
    cases hmbs
    exact hne rfl
  · rename_i hnot
    exact absurd (Option.some.inj h) (hnot request)

section Kinds

variable (hkey : node.getString "k" = some key)
include hkey

theorem readAs_key (h : readJsonGet (some node) (http.opened command) = (.ok,request))
    (hcarried : ∀ r : Request, r.commandType = command → r.value = [] → r.vectorMbs = [] →
      c.CarriedBy r.compressThreshold r) : ReadAs node key command c request := by
  obtain ⟨uri,key',huri,hkey',rfl⟩ := readJsonGet_ok h
  exact ⟨⟨rfl,rfl,rfl⟩,huri,⟨hkey',Option.some.inj (hkey'.symm.trans hkey)⟩,rfl,hcarried⟩

theorem readAs_value {v : Bytes} (hv : node.getString "v" = some v)
    (h : readJsonSet (some node) (http.opened command) = (.ok,request))
    (hcarried : ∀ r : Request, r.commandType = command → r.value = v → c.CarriedBy r.compressThreshold r) :
    ReadAs node key command c request := by
  obtain ⟨uri,key',value,huri,hkey',hvalue,rfl⟩ := readJsonSet_ok h
  have hsame : value = v := Option.some.inj (hvalue.symm.trans hv)
  refine ⟨⟨rfl,rfl,rfl⟩,huri,⟨hkey',Option.some.inj (hkey'.symm.trans hkey)⟩,rfl,?_⟩
  intro r hr hrv _
  exact hcarried r hr (hrv.trans hsame)

theorem readAs_members {vs : List Value} (hasks : AsksMembers node vs)
    (h : readJsonSadd (some node) (http.opened command) = some (.ok,request))
    (hcarried : ∀ r : Request, r.commandType = command → Members r.compressThreshold r vs → vs ≠ [] →
      c.CarriedBy r.compressThreshold r) : ReadAs node key command c request := by
  obtain ⟨uri,key',huri,hkey',hne,rfl⟩ := readJsonSadd_ok hasks h
  refine ⟨⟨rfl,rfl,rfl⟩,huri,⟨hkey',Option.some.inj (hkey'.symm.trans hkey)⟩,rfl,?_⟩
  intro r hr _ hmbs
  exact hcarried r hr ⟨hmbs,hasks.plain,hasks.count,rfl⟩ hne

/-- The request that is read from a body is for the command that the body asks for. -/
theorem AsksFor.read (hask : AsksFor node command c)
    (h : readJson (some node) (http.opened command) = some (.ok,request)) : ReadAs node key command c request := by
  cases c with
  | get =>
    cases hask
    exact readAs_key hkey (Option.some.inj h) fun r hr _ _ => hr
  | del =>
    cases hask
    exact readAs_key hkey (Option.some.inj h) fun r hr _ _ => hr
  | scard =>
    cases hask
    exact readAs_key hkey (Option.some.inj h) fun r hr _ _ => hr
  | smembers =>
    cases hask
    exact readAs_key hkey (Option.some.inj h) fun r hr _ hmbs => ⟨hr,hmbs⟩
  | set v =>
    obtain ⟨rfl,hv,hplain⟩ := hask
    exact readAs_value hkey hv (Option.some.inj h) fun r hr hrv => ⟨hr,hrv,hplain⟩
  | sismember v =>
    obtain ⟨rfl,hv,hplain⟩ := hask
    exact readAs_value hkey hv (Option.some.inj h) fun r hr hrv => ⟨hr,hrv,hplain,rfl⟩
  | incrBy n =>
    rcases hask with ⟨rfl,rfl⟩ | ⟨rfl,hv⟩
    · refine readAs_key hkey (Option.some.inj h) fun r hr hrv _ => ⟨.inl hr,?_⟩
      rw [incrValue, if_pos ⟨hr,hrv⟩]
      decide
    · refine readAs_value hkey hv (Option.some.inj h) fun r hr hrv => ⟨.inr hr,?_⟩
      have hincr : ¬(r.commandType = .incr ∧ r.value = []) := by
        rw [hr]
        rintro ⟨hne,-⟩
        cases hne
      rw [incrValue, if_neg hincr, hrv]
  | sadd vs =>
    obtain ⟨rfl,hmbs⟩ := hask
    exact readAs_members hkey hmbs h fun r hr hmembers _ => ⟨hr,hmembers⟩
  | srem vs =>
    obtain ⟨rfl,hmbs⟩ := hask
    exact readAs_members hkey hmbs h fun r hr hmembers hne => ⟨hr,hmembers,hne⟩

end Kinds

end Read

end QkPack
