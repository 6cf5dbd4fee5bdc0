import QkPack.FanOut.Delivery
import QkPack.FanOut.EmptyRound
import QkPack.FanOut.MsetOrder
import QkPack.FanOut.Writes
import QkPack.Parser.ShortKeys
import QkPack.Protocol.CommandArgs
import QkPack.Snappys.Runs

/-!
# Values by `SET` and by `MSET`

The threshold from which on values are compressed comes from the record of the authority, and is kept in the request
of the client. A sub-request has a threshold of its own, which nobody sets.
-/

namespace QkPack
open Wire CString Resp Json

section Stored

variable (lib : SnappyLib) (v : Value)

theorem stored_of_long (hlong : v.bytes.length < (snappyCompress lib v.bytes).length) (t : Int) :
    stored lib v.bytes t = v.bytes := by
  rcases stored_cases lib v t with hraw | ⟨-,hle⟩
  · exact hraw
  · omega

theorem stored_max : stored lib v.bytes (int32 (2 ^ 31 - 1)) = v.bytes := by
  have hsize := v.size_le
  have hlen : int32 v.bytes.length = v.bytes.length := int32_of_range (by omega) (by omega)
  have hmax : int32 (2 ^ 31 - 1) = 2 ^ 31 - 1 := int32_of_range (by norm_num) (by norm_num)
  rw [stored, compressValue, hlen, hmax]
  simp only
  rw [if_pos (by omega)]
  rfl

theorem stored_zero (hshort : (snappyCompress lib v.bytes).length ≤ v.bytes.length) :
    stored lib v.bytes (int32 0) = snappyCompress lib v.bytes := by
  have hsize := v.size_le
  have hlen : int32 v.bytes.length = v.bytes.length := int32_of_range (by omega) (by omega)
  have hcomp : int32 (snappyCompress lib v.bytes).length = (snappyCompress lib v.bytes).length :=
    int32_of_range (by omega) (by omega)
  have hzero : int32 0 = 0 := int32_of_range (by norm_num) (by norm_num)
  rw [stored, compressValue, hlen, hzero]
  simp only [hcomp]
  rw [if_neg (by omega), if_neg (by omega)]
  rfl

/-- A stream begins with a magic number, which has a NUL in it. -/
theorem snappyCompress_ne : snappyCompress lib v.bytes ≠ v.bytes := by
  intro heq
  have hmagic := take_snappyCompress lib v.nul_free
  rw [heq] at hmagic
  have hnul : (0 : UInt8) ∈ magic := by decide
  exact v.nul_free (List.mem_of_mem_take (hmagic ▸ hnul))

/-- Whatever the threshold, the same is stored, exactly if the stream of a value is longer than the value. -/
theorem stored_always_iff (t : Int) :
    (∀ garbage, stored lib v.bytes (int32 garbage) = stored lib v.bytes t) ↔
      v.bytes.length < (snappyCompress lib v.bytes).length := by
  constructor
  · intro hall
    by_contra hnot
    have hraw := hall (2 ^ 31 - 1)
    have hstream := hall 0
    rw [stored_max] at hraw
    rw [stored_zero lib v (by omega), ← hraw] at hstream
    exact snappyCompress_ne lib v hstream
  · intro hlong garbage
    rw [stored_of_long lib v hlong, stored_of_long lib v hlong]

end Stored

/-- A `SET` that is accepted under a record. -/
structure SetUnder (acl : Acl) where
  tree : Tree
  opened : Request
  request : Request
  bodyLimit : tree.size ≤ clientMaxBodySize
  read : readJsonSet (some tree) (Request.opened .set) = (.ok,opened)
  admitted : aclProcess (some acl) none opened = (.ok,request)

/-- A request that is accepted under a record, with a sub-request of `MSET` for one of its slots. The parent is what
the rounds before have made of the request. -/
structure MsetUnder (acl : Acl) where
  command : CommandType
  writes : command = .mset ∨ command = .zadd ∨ command = .zbatchadd
  node : Option Tree
  accepted : Request
  created : createParent command node (some acl) none = (.ok,accepted)
  parent : Request
  purpose : SamePurpose accepted parent
  sub : SubRequest
  uri : sub.uri = .mset
  request : Request
  init : qkupstreamInit sub = some request
  kvs : List KvPair
  found : parent.mapSlotsKv.lookup request.slotId = some kvs

section Arguments

variable {acl : Acl} (proto : RedisProto) (scripts : ScriptCache)

/-- The value in `SETEX key exptime value`. -/
def SetUnder.argument (a : SetUnder acl) : Option Bytes :=
  ((commandArgs proto scripts none a.request).bind (·[3]?)).map Arg.sent

/-- The sub-request as it is encoded; its threshold is whatever the memory held. -/
def MsetUnder.opened (b : MsetUnder acl) (conf : UpstreamConf) (nodeIp : Bytes) (garbage : Int) : Request :=
  b.sub.opened conf b.parent nodeIp (fun _ => int32 garbage) b.request

/-- The value of an entry in `EVALSHA sha count keys values exptimes`. -/
def MsetUnder.argument (b : MsetUnder acl) (conf : UpstreamConf) (nodeIp : Bytes) (garbage : Int) (j : Nat) :
    Option Bytes :=
  ((commandArgs proto scripts (some b.parent) (b.opened conf nodeIp garbage)).bind
    (·[3 + b.kvs.length + j]?)).map Arg.sent

variable {proto scripts}

theorem SetUnder.request_eq (a : SetUnder acl) :
    a.request.commandType = .set ∧ a.request.code = .ok ∧ a.request.compressThreshold = acl.compressThreshold ∧
      ∃ v : Value, a.request.value = v.bytes := by
  obtain ⟨_,uri,kv,⟨⟩,-,hkv,hread⟩ := withAcl_ok a.read
  obtain ⟨-,hvalue,hne⟩ := validateKVPair_ok hkv
  obtain ⟨_,r₂,r₃,⟨⟩,hname,hcluster,hlimit⟩ := aclProcess_ok a.admitted
  obtain ⟨s,-,-,-,rfl⟩ := setNameSpace_inv hname
  obtain ⟨clusterName,rfl⟩ := setClusterName_ok hcluster
  obtain ⟨mapKv,hrequest,-⟩ := getZsetLimit_ok hlimit
  have hsize := Tree.size_getString hvalue
  have hbody := a.bodyLimit
  rw [clientMaxBodySize] at hbody
  rw [hrequest]
  refine ⟨?_,?_,rfl,⟨kv.2,hne,nul_notMem_getString hvalue,by omega⟩,?_⟩
  · exact congrArg (·.2.commandType) hread.symm
  · exact congrArg (·.2.code) hread.symm
  · exact congrArg (·.2.value) hread.symm

theorem SetUnder.argument_eq (a : SetUnder acl) :
    a.argument proto scripts = some (stored proto.compress a.request.value acl.compressThreshold) := by
  obtain ⟨hcommand,hcode,hthreshold,-⟩ := a.request_eq
  have hnot : ¬ a.request.code ≠ .ok := not_not.mpr hcode
  simp only [SetUnder.argument, commandArgs, if_neg hnot, hcommand]
  simp [Arg.sent, RedisProto.storedFor, hthreshold]

theorem MsetUnder.opened_command (b : MsetUnder acl) (conf : UpstreamConf) (nodeIp : Bytes) (garbage : Int) :
    (b.opened conf nodeIp garbage).commandType = .mset := by
  have hcommand : b.parent.commandType = b.command :=
    b.purpose.1.trans (started_of_createParent b.created).1.commandType
  have hsub : subCommand b.parent b.sub = .mset := by
    rw [subCommand, hcommand, b.uri]
    rcases b.writes with h | h | h <;> rw [h]
  exact hsub

theorem MsetUnder.argument_eq (b : MsetUnder acl) (conf : UpstreamConf) (nodeIp : Bytes) (garbage : Int) {j : Nat}
    {kv : KvPair} (hkv : b.kvs[j]? = some kv) :
    b.argument proto scripts conf nodeIp garbage j = some (stored proto.compress kv.value (int32 garbage)) := by
  have hcode : (b.opened conf nodeIp garbage).code = .ok := (qkupstreamInit_fresh b.init).2
  have hnot : ¬ (b.opened conf nodeIp garbage).code ≠ .ok := not_not.mpr hcode
  have hfound : b.parent.mapSlotsKv.lookup (b.opened conf nodeIp garbage).slotId = some b.kvs := b.found
  have hj : j < b.kvs.length := (List.getElem?_eq_some_iff.mp hkv).1
  simp only [MsetUnder.argument, commandArgs, if_neg hnot, b.opened_command conf nodeIp garbage, slotArgs, hfound,
    Option.bind_eq_bind, Option.bind_some, msetArgs, evalshaArgs]
  have hindex : 3 + b.kvs.length + j = b.kvs.length + j + 3 := by omega
  rw [Option.pure_def, Option.bind_some, hindex, List.getElem?_cons_succ, List.getElem?_cons_succ, List.cons_append,
    List.cons_append, List.getElem?_cons_succ, List.append_assoc, List.getElem?_append_right (by simp),
    List.getElem?_append_left (by simp [hj]), List.length_map, Nat.add_sub_cancel_left, List.getElem?_map, hkv]
  rfl

variable (proto scripts) in
/-- The same bytes are stored by `SET` and by `MSET`, whatever the memory held, exactly if the stream of the value is
longer than the value. -/
theorem same_bytes_iff (a : SetUnder acl) (b : MsetUnder acl) (conf : UpstreamConf) (nodeIp : Bytes)
    {j : Nat} {kv : KvPair} (hkv : b.kvs[j]? = some kv) (hvalue : kv.value = a.request.value) :
    (∀ garbage, a.argument proto scripts = b.argument proto scripts conf nodeIp garbage j) ↔
      kv.value.length < (snappyCompress proto.compress kv.value).length := by
  obtain ⟨-,-,-,v,hv⟩ := a.request_eq
  have hkvv : kv.value = v.bytes := hvalue.trans hv
  rw [hkvv, ← stored_always_iff proto.compress v acl.compressThreshold]
  apply forall_congr'
  intro garbage
  rw [a.argument_eq, b.argument_eq conf nodeIp garbage hkv, hv, hkvv, Option.some_inj, eq_comm]

end Arguments

section Sample

def longOnly : Acl := ⟨60,1024,[]⟩

def pairBody (v : Bytes) : Tree :=
  .object [(text "uri",.string (text "qkd://BJ/ab")),(text "ak",.string (text "x")),
    (text "k",.string (text "a")),(text "v",.string v)]

def pairsBody (v : Bytes) : Tree :=
  .object [(text "uri",.string (text "qkd://BJ/ab")),(text "ak",.string (text "x")),
    (text "ks",.array [.object [(text "k",.string (text "a")),(text "v",.string v)]])]

variable (v : Bytes)

def pairOpened : Request := (readJsonSet (some (pairBody v)) (Request.opened .set)).2

def pairSet (hsize : (pairBody v).size ≤ clientMaxBodySize)
    (hread : (readJsonSet (some (pairBody v)) (Request.opened .set)).1 = .ok)
    (hacl : (aclProcess (some longOnly) none (pairOpened v)).1 = .ok) : SetUnder longOnly where
  tree := pairBody v
  opened := pairOpened v
  request := (aclProcess (some longOnly) none (pairOpened v)).2
  bodyLimit := hsize
  read := Prod.ext hread rfl
  admitted := Prod.ext hacl rfl

def pairsParent : Request := (createParent .mset (some (pairsBody v)) (some longOnly) none).2

def pairsMset (hcreate : (createParent .mset (some (pairsBody v)) (some longOnly) none).1 = .ok)
    (hfound : (pairsParent v).mapSlotsKv.lookup 15764 = some [.plain (text "a") v]) : MsetUnder longOnly where
  command := .mset
  writes := .inl rfl
  node := some (pairsBody v)
  accepted := pairsParent v
  created := Prod.ext hcreate rfl
  parent := pairsParent v
  purpose := ⟨rfl,rfl⟩
  sub := slotSub .mset (15764 : Nat)
  uri := rfl
  request := { Request.fresh with isSubrequest := true, slotId := (15764 : Nat), key := [] }
  init := qkupstreamInit_slotSub .mset (by decide)
  kvs := [.plain (text "a") v]
  found := hfound

end Sample

/-- A value of one byte is stored as it is. -/
theorem same_bytes_short :
    ∃ (a : SetUnder longOnly) (b : MsetUnder longOnly), ∀ garbage,
      a.argument literalProto (fun _ _ => []) =
        b.argument literalProto (fun _ _ => []) (tableConf 3 3) (text "10.0.0.1:7000") garbage 0 := by
  refine ⟨pairSet (text "1") (by decide +kernel) (by decide +kernel) (by decide +kernel),
    pairsMset (text "1") (by decide +kernel) (by decide +kernel),?_⟩
  apply (same_bytes_iff literalProto (fun _ _ => []) _ _ (tableConf 3 3) (text "10.0.0.1:7000") rfl ?_).mpr
  · decide +kernel
  · decide +kernel

/-- Sixty equal bytes stay as they are with `SET`, since the record wants 1024 of them; with `MSET` a threshold of
zero in memory makes a stream of twenty bytes of them. -/
theorem same_bytes_run :
    ∃ (a : SetUnder longOnly) (b : MsetUnder longOnly), a.request.value = List.replicate 60 97 ∧
      b.kvs = [.plain (text "a") (List.replicate 60 97)] ∧
      a.argument ⟨runSnappy,fun _ => .finite 0,fun _ _ => none⟩ (fun _ _ => []) = some (List.replicate 60 97) ∧
      (b.argument ⟨runSnappy,fun _ => .finite 0,fun _ _ => none⟩ (fun _ _ => []) (tableConf 3 3)
        (text "10.0.0.1:7000") 0 0).map List.length = some 20 := by
  refine ⟨pairSet (List.replicate 60 97) (by decide +kernel) (by decide +kernel) (by decide +kernel),
    pairsMset (List.replicate 60 97) (by decide +kernel) (by decide +kernel),?_,rfl,?_,?_⟩
  · decide +kernel
  · decide +kernel
  · decide +kernel

end QkPack
