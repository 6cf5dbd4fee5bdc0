import QkPack.FanOut.Planned
import QkPack.Protocol.CommandArgs

/-!
# The keys among the arguments of a command

Which arguments of a command are keys or members of sorted sets, and that every encoder has put a namespace
before each of them: its own request's, or the parent's for a sub-request.
-/

namespace QkPack
open Wire CString Resp

def numKeys (s : Bytes) : Nat := if s.all fun c => 48 ≤ c && c ≤ 57 then digitsValue s else 0

/-- The keys of `EVALSHA`: as many arguments behind the hash as are announced there. -/
def evalKeys (argv : List Bytes) : List Bytes := (argv.drop 3).take (numKeys (argv[2]?.getD []))

def scoredMembers : List Bytes → List Bytes
  | _ :: member :: rest => member :: scoredMembers rest
  | _ => []

/-- The keys of a command and the members of sorted sets that it names. -/
def keysOf : CommandType → List Bytes → List Bytes
  | .mget, argv => argv.drop 1
  | .incr, argv | .incrby, argv | .sadd, argv | .mset, argv => evalKeys argv
  | .zadd, argv => evalKeys argv ++ scoredMembers (argv.drop 7)
  | _, argv => (argv.drop 1).take 1

section Numbers

theorem numKeys_decimal (n : Nat) : numKeys (decimal n) = n := by
  have hall : ((decimal n).all fun c => 48 ≤ c && c ≤ 57) = true := by
    rw [List.all_eq_true]
    intro c hc
    obtain ⟨hlow,hhigh⟩ := decimal_isDigit hc
    simp only [Bool.and_eq_true, decide_eq_true_eq, UInt8.le_iff_toNat_le]
    exact ⟨hlow,hhigh⟩
  rw [numKeys, if_pos hall, digitsValue_decimal]

theorem numKeys_toString32 (n : Nat) : numKeys (toString32 n) ≤ n := by
  rw [toString32, intText]
  split
  · have hminus : ¬ ((45 :: decimal (int32 n).natAbs).all fun c => 48 ≤ c && c ≤ 57) = true := by
      rw [List.all_cons, Bool.and_eq_true]
      intro hall
      exact absurd hall.1 (by decide)
    rw [numKeys, if_neg hminus]
    exact Nat.zero_le n
  · rename_i hpos
    rw [numKeys_decimal]
    have hle := int32_le_self (v := (n : Int)) (by omega)
    omega

end Numbers

def sentArgs (args : List Arg) : List Bytes := args.map fun arg => cutArg arg.sent

theorem sentArgs_cons (arg : Arg) (args : List Arg) : sentArgs (arg :: args) = cutArg arg.sent :: sentArgs args :=
  List.map_cons

theorem sentArgs_append (args args' : List Arg) : sentArgs (args ++ args') = sentArgs args ++ sentArgs args' :=
  List.map_append

theorem evalKeys_cons (name sha count : Bytes) (argv : List Bytes) :
    evalKeys (name :: sha :: count :: argv) = argv.take (numKeys count) := rfl

section Own

variable {proto : RedisProto} {scripts : ScriptCache} {ns : Bytes} {args : List Arg}

theorem prefix_cutArg (key : Bytes) (hns : ns.length = 2) (hkey : ShortKey key) : ns <+: cutArg (ns ++ key) := by
  rw [ShortKey] at hkey
  rw [cutArg_short (by rw [List.length_append]; omega)]
  exact List.prefix_append ns key

theorem own_of_map {kvs : List KvPair} (hns : ns.length = 2) (hkvs : ∀ kv ∈ kvs, ShortKey kv.key) :
    ∀ key ∈ sentArgs (kvs.map fun kv : KvPair => .bytes (ns ++ kv.key)), ns <+: key := by
  intro key hkey
  rw [sentArgs, List.map_map] at hkey
  obtain ⟨kv,hkv,heq⟩ := List.mem_map.mp hkey
  rw [Function.comp_apply, Arg.sent] at heq
  rw [← heq]
  exact prefix_cutArg kv.key hns (hkvs kv hkv)

theorem own_of_members {kvs : List KvPair} (hns : ns.length = 2) (hkvs : ∀ kv ∈ kvs, ShortKey kv.key) :
    ∀ key ∈ scoredMembers (sentArgs (kvs.flatMap fun kv : KvPair =>
      [.score kv.score,.bytes (ns ++ kv.key)])), ns <+: key := by
  induction kvs with
  | nil => nofun
  | cons kv kvs ih =>
    obtain ⟨hkv,hrest⟩ := List.forall_mem_cons.mp hkvs
    exact List.forall_mem_cons.mpr ⟨prefix_cutArg kv.key hns hkv,ih hrest⟩

theorem own_evalKeys_one {sha key : Bytes} {rest : List Arg} (hns : ns.length = 2) (hkey : ShortKey key) :
    ∀ k ∈ evalKeys (sentArgs (.bytes evalsha :: .bytes sha :: .bytes (text "1") :: .bytes (ns ++ key) :: rest)),
      ns <+: k := by
  have hcount : numKeys (cutArg (text "1")) = 1 := by decide
  intro k hk
  rw [sentArgs_cons, sentArgs_cons, sentArgs_cons, sentArgs_cons, evalKeys_cons, Arg.sent, hcount,
    List.take_succ_cons, List.take_zero, List.mem_singleton, Arg.sent] at hk
  rw [hk]
  exact prefix_cutArg key hns hkey

/-- The script for several keys. Its count is never larger than the number of keys. -/
theorem own_evalKeys_many {sha : Bytes} {kvs : List KvPair} {rest : List Arg} (hns : ns.length = 2)
    (hkvs : ∀ kv ∈ kvs, ShortKey kv.key) :
    ∀ k ∈ evalKeys (sentArgs (.bytes evalsha :: .bytes sha :: .count kvs.length ::
      ((kvs.map fun kv : KvPair => .bytes (ns ++ kv.key)) ++ rest))), ns <+: k := by
  have hcount : cutArg (toString32 kvs.length) = toString32 kvs.length :=
    cutArg_short ((toString32_length_le kvs.length).trans_lt (by norm_num))
  intro k hk
  rw [sentArgs_cons, sentArgs_cons, sentArgs_cons, evalKeys_cons, Arg.sent, hcount, sentArgs_append,
    List.take_append_of_le_length] at hk
  · exact own_of_map hns hkvs k (List.mem_of_mem_take hk)
  · rw [sentArgs, List.length_map, List.length_map]
    exact numKeys_toString32 kvs.length

theorem own_one (name : Bytes) {key : Bytes} {rest : List Arg} (hns : ns.length = 2) (hkey : ShortKey key) :
    ∀ k ∈ ((sentArgs (.bytes name :: .bytes (ns ++ key) :: rest)).drop 1).take 1, ns <+: k := by
  intro k hk
  rw [sentArgs_cons, sentArgs_cons, List.drop_one, List.tail_cons, List.take_succ_cons, List.take_zero,
    List.mem_singleton, Arg.sent] at hk
  rw [hk]
  exact prefix_cutArg key hns hkey

variable {request : Request}

theorem own_single (hcode : request.code = .ok) (hns : request.namespaces.length = 2) (hkey : ShortKey request.key)
    (hargs : commandArgs proto scripts none request = some args) :
    ∀ k ∈ keysOf request.commandType (sentArgs args), request.namespaces <+: k := by
  have hnot : ¬ request.code ≠ .ok := not_not.mpr hcode
  simp only [commandArgs, if_neg hnot] at hargs
  cases hct : request.commandType <;> rw [hct] at hargs <;> dsimp only at hargs <;> cases hargs
  case get => exact own_one (text "GET") hns hkey
  case del => exact own_one (text "DEL") hns hkey
  case ttl => exact own_one (text "TTL") hns hkey
  case scard => exact own_one (text "SCARD") hns hkey
  case smembers => exact own_one (text "SMEMBERS") hns hkey
  case set => exact own_one (text "SETEX") hns hkey
  case sismember => exact own_one (text "SISMEMBER") hns hkey
  case srem => exact own_one (text "SREM") hns hkey
  case incr => exact own_evalKeys_one hns hkey
  case incrby => exact own_evalKeys_one hns hkey
  case sadd => exact own_evalKeys_one hns hkey

theorem own_sub {p : Request} (hcode : request.code = .ok) (hsub : request.commandType.OfSub)
    (hns : p.namespaces.length = 2) (hkey : ShortKey request.key) (hkeys : KeysShort p)
    (hargs : commandArgs proto scripts (some p) request = some args) :
    ∀ k ∈ keysOf request.commandType (sentArgs args), p.namespaces <+: k := by
  have hnot : ¬ request.code ≠ .ok := not_not.mpr hcode
  simp only [commandArgs, if_neg hnot] at hargs
  cases hct : request.commandType <;> rw [hct] at hargs hsub <;> dsimp only at hargs
  case mget =>
    obtain ⟨kvs,hkvs,hargs⟩ := Option.bind_eq_some_iff.mp hargs
    cases hargs
    exact own_of_map hns (lookup_entries hkeys.slots hkvs)
  case mset =>
    obtain ⟨kvs,hkvs,hargs⟩ := Option.bind_eq_some_iff.mp hargs
    cases hargs
    simp only [msetArgs, evalshaArgs, List.cons_append, List.append_assoc]
    exact own_evalKeys_many hns (lookup_entries hkeys.slots hkvs)
  case zadd =>
    obtain ⟨kvs,hkvs,hargs⟩ := Option.bind_eq_some_iff.mp hargs
    obtain ⟨first,-,hargs⟩ := Option.bind_eq_some_iff.mp hargs
    cases hargs
    simp only [evalshaArgs, List.cons_append, List.nil_append]
    intro k hk
    rcases List.mem_append.mp hk with hk | hk
    · exact own_evalKeys_one hns hkey k hk
    · exact own_of_members hns (lookup_entries hkeys.entries hkvs) k hk
  case zrangebyscore =>
    obtain ⟨query,-,hargs⟩ := Option.bind_eq_some_iff.mp hargs
    cases hargs
    unfold zrangebyscoreArgs
    split
    · exact own_one (text "ZRANGEBYSCORE") hns hkey
    · exact own_one (text "ZREVRANGEBYSCORE") hns hkey
  case zrange =>
    obtain ⟨query,-,hargs⟩ := Option.bind_eq_some_iff.mp hargs
    cases hargs
    exact own_one (if query.asc then text "ZRANGE" else text "ZREVRANGE") hns hkey
  all_goals exact absurd hsub (by decide)

end Own

end QkPack
