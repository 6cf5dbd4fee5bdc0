import QkPack.Lib.RespParse
import QkPack.Protocol.Frames
import QkPack.Protocol.ReadBack

/-!
# The arguments of the commands

What a request asks of Redis, as a list of arguments, and what a server reads in the frame that
`RedisProtoEncode` has built. Counts, ranks and scores are written by `ToString` and `DoubleToString`,
which have no room for every number.
-/

namespace QkPack
open Wire CString Resp

/-- An argument: bytes, or a number that has still to be written. -/
inductive Arg where
  | bytes (s : Bytes)
  | count (n : Nat)
  | rank (d : Double)
  | score (d : Double)

def Arg.intended : Arg → Bytes
  | .bytes s => s
  | .count n => decimal n
  | .rank d => d.truncated.elim d.shown intText
  | .score d => d.shown

def Arg.sent : Arg → Bytes
  | .bytes s => s
  | .count n => toString32 n
  | .rank d => toString32 d.whole
  | .score d => if d.shown.length < 128 then d.shown else d.shown.take 127 ++ [0]

def Arg.Fits : Arg → Prop
  | .bytes _ => True
  | .count n => n < 2 ^ 31
  | .rank d => d.truncated.elim False fun n => -2 ^ 31 ≤ n ∧ n < 2 ^ 31
  | .score d => d.shown.length < 128

instance : DecidablePred Arg.Fits
  | .bytes _ => inferInstanceAs (Decidable True)
  | .count n => inferInstanceAs (Decidable (n < 2 ^ 31))
  | .rank (.finite q) => inferInstanceAs (Decidable (-2 ^ 31 ≤ q.num.tdiv q.den ∧ q.num.tdiv q.den < 2 ^ 31))
  | .rank (.infinite _) => inferInstanceAs (Decidable False)
  | .score d => inferInstanceAs (Decidable (d.shown.length < 128))

section CommandArgs

variable (proto : RedisProto) (scripts : ScriptCache) (parent : Option Request) (request : Request)

/-- `EVALSHA` with the hash of a script on the node of the request. -/
def evalshaArgs (script : Script) (args : List Arg) : List Arg :=
  .bytes evalsha :: .bytes (scripts request.nodeIp script) :: args

def queryArgs (args : Request → ZsetQuery → List Arg) : Option (List Arg) := do
  let p ← parent
  let query ← p.mapQuery.lookup request.key
  return args p query ++ if query.ws then [.bytes (text "WITHSCORES")] else []

def zrangebyscoreArgs (p : Request) (query : ZsetQuery) : List Arg :=
  if query.asc then
    [.bytes (text "ZRANGEBYSCORE"),.bytes (p.namespaces ++ request.key),.score query.min,
      .score query.max]
  else
    [.bytes (text "ZREVRANGEBYSCORE"),.bytes (p.namespaces ++ request.key),.score query.max,
      .score query.min]

def zrangeArgs (p : Request) (query : ZsetQuery) : List Arg :=
  [.bytes (if query.asc then text "ZRANGE" else text "ZREVRANGE"),
    .bytes (p.namespaces ++ request.key),.rank query.min,.rank query.max]

def slotArgs (args : Request → List KvPair → List Arg) : Option (List Arg) := do
  let p ← parent
  let kvs ← p.mapSlotsKv.lookup request.slotId
  return args p kvs

def msetArgs (p : Request) (kvs : List KvPair) : List Arg :=
  evalshaArgs scripts request .addMultikv
    (.count kvs.length :: kvs.map (fun kv : KvPair => .bytes (p.namespaces ++ kv.key)) ++
      kvs.map (fun kv : KvPair => .bytes (proto.storedFor request kv.value)) ++
      kvs.map fun _ => .bytes (toString32 p.exptime))

/-- The members of a set, with the limit that is kept in the first of them. -/
def zaddArgs : Option (List Arg) := do
  let p ← parent
  let kvs ← p.mapKv.lookup request.key
  let first ← kvs.head?
  return evalshaArgs scripts request .addZset
    ([.bytes (text "1"),.bytes (p.namespaces ++ request.key),.bytes (toString32 first.limit),
      .bytes (toString32 p.exptime),.count kvs.length] ++
      kvs.flatMap fun kv : KvPair => [.score kv.score,.bytes (p.namespaces ++ kv.key)])

/-- The arguments of the command a request stands for; the values are those that are to be stored.
`exptime` and `limit` are `int` in the source. -/
def commandArgs : Option (List Arg) :=
  let key := Arg.bytes request.nsKey
  let exptime := Arg.bytes (toString32 request.exptime)
  let value (v : Bytes) := Arg.bytes (proto.storedFor request v)
  if request.code ≠ .ok then some [.bytes (text "ping")]
  else match request.commandType with
    | .get => some [.bytes (text "GET"),key]
    | .del => some [.bytes (text "DEL"),key]
    | .ttl => some [.bytes (text "TTL"),key]
    | .scard => some [.bytes (text "SCARD"),key]
    | .smembers => some [.bytes (text "SMEMBERS"),key]
    | .set => some [.bytes (text "SETEX"),key,exptime,value request.value]
    | .sismember => some [.bytes (text "SISMEMBER"),key,value request.value]
    | .srem => some (.bytes (text "SREM") :: key :: request.vectorMbs.map value)
    | .incr | .incrby => some (evalshaArgs scripts request .incrby
        [.bytes (text "1"),key,.bytes (incrValue request),exptime])
    | .sadd => some (evalshaArgs scripts request .addRset
        ([.bytes (text "1"),key,exptime,.count request.vectorMbs.length] ++ request.vectorMbs.map value))
    | .mget => slotArgs parent request fun p kvs =>
        .bytes (text "MGET") :: kvs.map fun kv : KvPair => .bytes (p.namespaces ++ kv.key)
    | .mset => slotArgs parent request (msetArgs proto scripts request)
    | .zadd => zaddArgs scripts parent request
    | .zrangebyscore => queryArgs parent request (zrangebyscoreArgs request)
    | .zrange => queryArgs parent request (zrangeArgs request)
    | .zbatchadd | .batchzrangebyscore | .unknown => none

end CommandArgs

section Figures

theorem intText_injective {a b : Int} (h : intText a = intText b) : a = b := by
  have hminus (n : Nat) (s : Bytes) : decimal n ≠ 45 :: s := by
    intro hn
    have hdigit := decimal_isDigit (n := n) (c := 45) (hn ▸ List.mem_cons_self)
    revert hdigit
    decide
  have habs (m n : Nat) (hmn : decimal m = decimal n) : m = n := by
    rw [← digitsValue_decimal m, hmn, digitsValue_decimal]
  rw [intText, intText] at h
  split at h
  · split at h
    · have := habs _ _ (List.cons.inj h).2
      omega
    · exact absurd h.symm (hminus _ _)
  · split at h
    · exact absurd h (hminus _ _)
    · have := habs _ _ h
      omega

theorem toString32_eq_iff (v : Int) : toString32 v = intText v ↔ -2 ^ 31 ≤ v ∧ v < 2 ^ 31 := by
  constructor
  · intro h
    have hv := intText_injective h
    rw [int32_eq] at hv
    split at hv <;> omega
  · rintro ⟨hl,hu⟩
    rw [toString32, int32_of_range hl hu]

theorem intText_natCast (n : Nat) : intText n = decimal n := by
  rw [intText, if_neg (by omega), Int.natAbs_natCast]

theorem toString32_length_le (v : Int) : (toString32 v).length ≤ 11 := by
  have hrange : (int32 v).natAbs < 10 ^ 10 := by
    rw [int32_eq]
    split <;> omega
  have hlen := decimal_length_le (by norm_num) hrange
  rw [toString32, intText]
  split
  · rw [List.length_cons]
    omega
  · omega

theorem score_sent_short (d : Double) : (Arg.score d).sent.length < 2 ^ 31 := by
  rw [Arg.sent]
  split
  · omega
  · rw [List.length_append, List.length_take, List.length_singleton]
    omega

theorem shown_cut_ne (d : Double) : d.shown.take 127 ++ [0] ≠ d.shown := by
  intro h
  apply d.shown_getLast_ne_zero
  rw [← h, List.getLast?_concat]

theorem rank_sent_iff (d : Double) : (Arg.rank d).sent = (Arg.rank d).intended ↔ (Arg.rank d).Fits := by
  cases d with
  | finite q =>
    have htruncated : (Double.finite q).truncated = some (q.num.tdiv q.den) := rfl
    simp only [Arg.sent, Arg.intended, Arg.Fits, htruncated, Option.elim_some]
    constructor
    · intro h
      have hv := intText_injective h
      rw [int32_eq, Double.whole, htruncated] at hv
      dsimp only at hv
      split at hv <;> omega
    · rintro ⟨hl,hu⟩
      rw [Double.whole_of_range htruncated (by omega) (by omega)]
      exact (toString32_eq_iff _).mpr ⟨hl,hu⟩
  | infinite negative => exact iff_of_false (by cases negative <;> decide) id

theorem Arg.sent_eq_intended_iff (arg : Arg) : arg.sent = arg.intended ↔ arg.Fits := by
  cases arg with
  | bytes s => exact iff_of_true rfl trivial
  | count n =>
    rw [Arg.sent, Arg.intended, Arg.Fits, ← intText_natCast, toString32_eq_iff]
    omega
  | rank d => exact rank_sent_iff d
  | score d =>
    rw [Arg.sent, Arg.intended, Arg.Fits]
    by_cases h : d.shown.length < 128
    · rw [if_pos h]
      exact iff_of_true rfl h
    · rw [if_neg h]
      exact iff_of_false (shown_cut_ne d) h

theorem Arg.sent_short {arg : Arg} (h : arg.intended.length < 2 ^ 31) : arg.sent.length < 2 ^ 31 := by
  cases arg with
  | bytes s => exact h
  | count n => exact (toString32_length_le n).trans_lt (by norm_num)
  | rank d => exact (toString32_length_le d.whole).trans_lt (by norm_num)
  | score d =>
    rw [Arg.sent]
    split
    · exact h
    · rw [List.length_append, List.length_take, List.length_singleton]
      omega

end Figures

/-- What an encoder makes of the request `origin` is the frame of these arguments. -/
def Sends (origin : Request) (args : Option (List Arg)) (x : Except EncodeFault Request) : Prop :=
  ∀ r, x = .ok r → SameOrigin origin r ∧ ∃ argv, args = some argv ∧
    redisProtoCmd argv.length (argv.map Arg.sent) = .ok r.protoStr

section Encoders

variable {origin : Request}

theorem sends_error (args : Option (List Arg)) (fault : EncodeFault) : Sends origin args (.error fault) := by
  intro r h
  cases h

theorem sends_bind {α : Type} {args : Option (List Arg)} {x : Except EncodeFault α}
    {f : α → Except EncodeFault Request} (h : ∀ a, x = .ok a → Sends origin args (f a)) :
    Sends origin args (x >>= f) := by
  intro r hr
  obtain ⟨a,hx,ha⟩ := bind_eq_ok.mp hr
  exact h a hx r ha

theorem sends_build {request : Request} {argc : Nat} {argv : List Bytes} {args : List Arg}
    (hsame : SameOrigin origin request) (hargc : argc = args.length) (hargv : argv = args.map Arg.sent) :
    Sends origin (some args) (request.build argc argv) := by
  intro r hr
  rw [Request.build, hargc, hargv] at hr
  cases hcmd : redisProtoCmd args.length (args.map Arg.sent) with
  | error fault =>
    rw [hcmd] at hr
    cases hr
  | ok protoStr =>
    rw [hcmd] at hr
    cases hr
    exact ⟨hsame,args,rfl,hcmd⟩

theorem sends_withScript {proto : RedisProto} {nodeIp : Bytes} {script : Script}
    {scripts : ScriptCache} {build : Bytes → Except EncodeFault Request}
    {a : Bytes → Option (List Arg)} (h : ∀ sha, Sends origin (a sha) (build sha)) :
    Sends origin (a ((withScript proto nodeIp script scripts build).2 nodeIp script))
      (withScript proto nodeIp script scripts build).1 := by
  unfold withScript
  split
  · simp only
    split
    · exact sends_error _ _
    · exact h _
  · exact sends_error _ _

theorem doubleToString_sent {d : Double} {s : Bytes} (h : doubleToString d = .ok s) :
    s = (Arg.score d).sent := by
  rw [doubleToString] at h
  rw [Arg.sent]
  split at h
  · rename_i hlen
    rw [if_pos hlen]
    cases h
    rfl
  · rename_i hlen
    rw [if_neg hlen]
    split at h
    · cases h
      rfl
    · cases h

theorem mapM_scores {ns : Bytes} {kvs : List KvPair} {members : List (List Bytes)}
    (h : (kvs.mapM fun kv : KvPair => (doubleToString kv.score).map fun score =>
      [score,ns ++ kv.key]) = .ok members) :
    members.flatten = (kvs.flatMap fun kv : KvPair =>
      [Arg.score kv.score,Arg.bytes (ns ++ kv.key)]).map Arg.sent := by
  induction kvs generalizing members with
  | nil =>
    cases h
    rfl
  | cons kv kvs ih =>
    rw [List.mapM_cons] at h
    obtain ⟨member,hmember,h⟩ := bind_eq_ok.mp h
    obtain ⟨rest,hrest,h⟩ := bind_eq_ok.mp h
    cases h
    cases hscore : doubleToString kv.score with
    | error fault =>
      rw [hscore] at hmember
      cases hmember
    | ok score =>
      rw [hscore] at hmember
      cases hmember
      rw [List.flatten_cons, ih hrest, doubleToString_sent hscore, List.flatMap_cons, List.map_append]
      rfl

variable (proto : RedisProto) (scripts : ScriptCache) (p request : Request)

theorem sends_evalsha {script : Script} {build : Bytes → Except EncodeFault Request} {args : List Arg}
    (h : ∀ sha, Sends origin (some (.bytes evalsha :: .bytes sha :: args)) (build sha)) :
    Sends origin (some (evalshaArgs (withScript proto request.nodeIp script scripts build).2 request script
      args)) (withScript proto request.nodeIp script scripts build).1 :=
  sends_withScript (a := fun sha => some (.bytes evalsha :: .bytes sha :: args)) h

theorem sends_incrBy :
    Sends request (some (evalshaArgs (redisProtoEncodeIncrBy proto scripts request).2 request .incrby
      [.bytes (text "1"),.bytes request.nsKey,.bytes (incrValue request),
        .bytes (toString32 request.exptime)])) (redisProtoEncodeIncrBy proto scripts request).1 := by
  apply sends_evalsha
  intro sha
  split
  · exact sends_error _ _
  · exact sends_build ⟨rfl,rfl,rfl,rfl,rfl⟩ rfl rfl

theorem sends_sadd :
    Sends request (some (evalshaArgs (redisProtoEncodeSadd proto scripts request).2 request .addRset
      ([.bytes (text "1"),.bytes request.nsKey,.bytes (toString32 request.exptime),
        .count request.vectorMbs.length] ++
        request.vectorMbs.map fun v => .bytes (proto.storedFor request v))))
      (redisProtoEncodeSadd proto scripts request).1 := by
  apply sends_evalsha
  intro sha
  apply sends_build ⟨rfl,rfl,rfl,rfl,rfl⟩
  · simp
  · simp [Arg.sent, Function.comp_def]

theorem sends_srem :
    Sends request (some (.bytes request.command :: .bytes request.nsKey ::
      request.vectorMbs.map fun v => .bytes (proto.storedFor request v)))
      (redisProtoEncodeSrem proto request) := by
  apply sends_build ⟨rfl,rfl,rfl,rfl,rfl⟩
  · simp
  · simp [Arg.sent, Function.comp_def]

theorem sends_paramMulti :
    Sends request (slotArgs (some p) request fun p kvs =>
      .bytes request.command :: kvs.map fun kv : KvPair => .bytes (p.namespaces ++ kv.key))
      (redisProtoEncodeParamMulti p request) := by
  unfold redisProtoEncodeParamMulti
  split
  · exact sends_error _ _
  · rename_i kvs hkvs
    simp only [slotArgs, Option.bind_eq_bind, Option.bind_some, hkvs]
    apply sends_build ⟨rfl,rfl,rfl,rfl,rfl⟩
    · simp
    · simp [Arg.sent, Function.comp_def]

theorem sends_mset :
    Sends request (slotArgs (some p) request
      (msetArgs proto (redisProtoEncodeMset proto scripts p request).2 request))
      (redisProtoEncodeMset proto scripts p request).1 := by
  unfold redisProtoEncodeMset
  split
  · exact sends_error _ _
  · rename_i kvs hkvs
    simp only [slotArgs, Option.bind_eq_bind, Option.bind_some, hkvs, msetArgs]
    apply sends_evalsha
    intro sha
    apply sends_build ⟨rfl,rfl,rfl,rfl,rfl⟩
    · simp
      omega
    · simp [Arg.sent, Function.comp_def]

theorem sends_zfixedsetAdd :
    Sends request (zaddArgs (redisProtoEncodeZfixedsetAdd proto scripts p request).2 (some p) request)
      (redisProtoEncodeZfixedsetAdd proto scripts p request).1 := by
  unfold redisProtoEncodeZfixedsetAdd
  split
  · exact sends_error _ _
  · exact sends_error _ _
  · rename_i first kvs hkvs
    simp only [zaddArgs, Option.bind_eq_bind, Option.bind_some, hkvs, List.head?_cons]
    apply sends_evalsha
    intro sha
    apply sends_bind
    intro members hmembers
    apply sends_build ⟨rfl,rfl,rfl,rfl,rfl⟩
    · simp [List.length_flatMap, List.map_const']
      omega
    · rw [mapM_scores hmembers]
      simp [Arg.sent]

theorem sends_rangeArgs {query : ZsetQuery} {command lo hi : Bytes} {args : List Arg}
    (h : [command,p.namespaces ++ request.key,lo,hi] = args.map Arg.sent) :
    Sends request (some (args ++ if query.ws then [.bytes (text "WITHSCORES")] else []))
      (rangeArgs p request query command lo hi) := by
  have hlen : args.length = 4 := by simpa using (congrArg List.length h).symm
  apply sends_build ⟨rfl,rfl,rfl,rfl,rfl⟩
  · split <;> simp [hlen]
  · rw [h, List.map_append]
    split <;> rfl

theorem sends_getByScore :
    Sends request (queryArgs (some p) request (zrangebyscoreArgs request))
      (redisProtoEncodeZfixedsetGetByScore p request) := by
  unfold redisProtoEncodeZfixedsetGetByScore
  split
  · exact sends_error _ _
  · rename_i query hquery
    simp only [queryArgs, Option.bind_eq_bind, Option.bind_some, hquery]
    apply sends_bind
    intro strMin hmin
    apply sends_bind
    intro strMax hmax
    rw [doubleToString_sent hmin, doubleToString_sent hmax]
    by_cases hasc : query.asc = true
    · rw [if_pos hasc]
      apply sends_rangeArgs
      simp [zrangebyscoreArgs, hasc, Arg.sent]
    · rw [if_neg hasc]
      apply sends_rangeArgs
      simp [zrangebyscoreArgs, hasc, Arg.sent]

theorem sends_getByRank :
    Sends request (queryArgs (some p) request (zrangeArgs request))
      (redisProtoEncodeZfixedsetGetByRank p request) := by
  unfold redisProtoEncodeZfixedsetGetByRank
  split
  · exact sends_error _ _
  · rename_i query hquery
    simp only [queryArgs, Option.bind_eq_bind, Option.bind_some, hquery]
    exact sends_rangeArgs p request rfl

end Encoders

theorem sends_withParent {origin : Request} {parent : Option Request} {scripts : ScriptCache}
    {encode : Request → Except EncodeFault Request × ScriptCache}
    {a : ScriptCache → Option Request → Option (List Arg)}
    (h : ∀ p, Sends origin (a (encode p).2 (some p)) (encode p).1) :
    Sends origin (a (withParent parent scripts encode).2 parent) (withParent parent scripts encode).1 := by
  cases parent with
  | none => exact sends_error _ _
  | some p => exact h p

theorem sends_encode (proto : RedisProto) (scripts : ScriptCache) (parent : Option Request)
    (request : Request) (hbatch : request.code = .ok → request.commandType ≠ .zbatchadd) :
    Sends request (commandArgs proto (redisProtoEncode proto scripts parent request).2 parent request)
      (redisProtoEncode proto scripts parent request).1 := by
  by_cases hcode : request.code = .ok
  · have hnot : ¬ request.code ≠ .ok := not_not.mpr hcode
    simp only [redisProtoEncode, commandArgs, if_neg hnot]
    have hone (command : String) :
        Sends request (some [.bytes (text command),.bytes request.nsKey])
          (redisProtoEncodeParamOne (request.named command)) := sends_build ⟨rfl,rfl,rfl,rfl,rfl⟩ rfl rfl
    cases hct : request.commandType <;> dsimp only
    case get => exact hone "GET"
    case del => exact hone "DEL"
    case ttl => exact hone "TTL"
    case scard => exact hone "SCARD"
    case smembers => exact hone "SMEMBERS"
    case set => exact sends_build ⟨rfl,rfl,rfl,rfl,rfl⟩ rfl rfl
    case sismember => exact sends_build ⟨rfl,rfl,rfl,rfl,rfl⟩ rfl rfl
    case srem => exact sends_srem proto (request.named "SREM")
    case incr => exact sends_incrBy proto scripts request
    case incrby => exact sends_incrBy proto scripts request
    case sadd => exact sends_sadd proto scripts (request.named "SADD")
    case mget =>
      exact sends_withParent (a := fun _ parent => slotArgs parent request fun p kvs =>
        .bytes (text "MGET") :: kvs.map fun kv : KvPair => .bytes (p.namespaces ++ kv.key))
        fun p => sends_paramMulti p (request.named "MGET")
    case mset =>
      exact sends_withParent (a := fun scripts parent => slotArgs parent request
        (msetArgs proto scripts request)) fun p => sends_mset proto scripts p request
    case zadd =>
      exact sends_withParent (a := fun scripts parent => zaddArgs scripts parent request)
        fun p => sends_zfixedsetAdd proto scripts p request
    case zrangebyscore =>
      exact sends_withParent (a := fun _ parent => queryArgs parent request
        (zrangebyscoreArgs request)) fun p => sends_getByScore p request
    case zrange =>
      exact sends_withParent (a := fun _ parent => queryArgs parent request
        (zrangeArgs request)) fun p => sends_getByRank p request
    case zbatchadd => exact absurd hct (hbatch hcode)
    case batchzrangebyscore => exact sends_error _ _
    case unknown => exact sends_error _ _
  · simp only [redisProtoEncode, commandArgs, ne_eq, hcode, not_false_eq_true, if_true]
    exact sends_build ⟨rfl,rfl,rfl,rfl,rfl⟩ rfl rfl

theorem commandArgs_length {proto : RedisProto} {scripts : ScriptCache} {parent : Option Request} {request : Request}
    {argv : List Arg} (hcode : request.code = .ok) (h : commandArgs proto scripts parent request = some argv) :
    2 ≤ argv.length ∨ argv = [.bytes (text "MGET")] := by
  have hquery {args : Request → ZsetQuery → List Arg} (hfour : ∀ p query, 2 ≤ (args p query).length)
      (h : queryArgs parent request args = some argv) : 2 ≤ argv.length := by
    obtain ⟨p,-,h⟩ := Option.bind_eq_some_iff.mp h
    obtain ⟨query,-,h⟩ := Option.bind_eq_some_iff.mp h
    cases h
    rw [List.length_append]
    exact (hfour p query).trans (Nat.le_add_right _ _)
  have hslot {args : Request → List KvPair → List Arg} (h : slotArgs parent request args = some argv) :
      ∃ p kvs, argv = args p kvs := by
    obtain ⟨p,-,h⟩ := Option.bind_eq_some_iff.mp h
    obtain ⟨kvs,-,h⟩ := Option.bind_eq_some_iff.mp h
    exact ⟨p,kvs,(Option.some.inj h).symm⟩
  simp only [commandArgs, if_neg (not_not.mpr hcode)] at h
  cases hct : request.commandType <;> simp only [hct] at h
  case mget =>
    obtain ⟨p,kvs,rfl⟩ := hslot h
    cases kvs with
    | nil => exact .inr rfl
    | cons kv kvs => exact .inl (by simp)
  case mset =>
    obtain ⟨p,kvs,rfl⟩ := hslot h
    exact .inl (by simp [msetArgs, evalshaArgs])
  case zadd =>
    obtain ⟨p,-,h⟩ := Option.bind_eq_some_iff.mp h
    obtain ⟨kvs,-,h⟩ := Option.bind_eq_some_iff.mp h
    obtain ⟨first,-,h⟩ := Option.bind_eq_some_iff.mp h
    cases h
    exact .inl (by simp [evalshaArgs])
  case zrangebyscore => exact .inl (hquery (fun p query => by unfold zrangebyscoreArgs; split <;> simp) h)
  case zrange => exact .inl (hquery (fun p query => by simp [zrangeArgs]) h)
  all_goals
    cases h <;> exact .inl (by simp [evalshaArgs])

theorem redisProtoCmd_eq_ok {argc : Nat} {argv : List Bytes} {s : Bytes} (h : redisProtoCmd argc argv = .ok s) :
    ∃ args, s = arrayHeader argc ++ args := by
  rw [redisProtoCmd] at h
  split at h
  · cases h
  · cases hargs : (argv.take argc).mapM cmdArg with
    | error fault =>
      rw [hargs] at h
      cases h
    | ok args =>
      rw [hargs] at h
      cases h
      exact ⟨_,rfl⟩

/-- `RedisProtoEncode` keeps the code; with a code it builds `PING`, without one a command, except for
`ZBATCHADD`, for which it does nothing. -/
theorem redisProtoEncode_frame {proto : RedisProto} {scripts : ScriptCache} {parent : Option Request}
    {request r : Request} (hbatch : request.commandType ≠ .zbatchadd)
    (h : (redisProtoEncode proto scripts parent request).1 = .ok r) :
    SameOrigin request r ∧
      if request.code = .ok then CommandFrame r.protoStr else r.protoStr = pingFrame := by
  obtain ⟨hsame,argv,hargs,hcmd⟩ := sends_encode proto scripts parent request (fun _ => hbatch) r h
  have hword {word : Bytes} (hshort : word.length < 2 ^ 31) (hargv : argv = [.bytes word]) :
      r.protoStr = arrayHeader 1 ++ encBulk word := by
    subst hargv
    have hframe := @redisProtoCmd_short [word] (by simpa using hshort)
    rw [List.flatMap_singleton] at hframe
    exact Except.ok.inj (hcmd.symm.trans hframe)
  refine ⟨hsame,?_⟩
  by_cases hcode : request.code = .ok
  · rw [if_pos hcode]
    rcases commandArgs_length hcode hargs with hlen | hmget
    · obtain ⟨args,hframe⟩ := redisProtoCmd_eq_ok hcmd
      exact .inl ⟨argv.length,args,hlen,hframe⟩
    · exact .inr (hword (by decide) hmget)
  · rw [if_neg hcode]
    rw [commandArgs, if_pos hcode] at hargs
    exact hword (by decide) (Option.some.inj hargs).symm

theorem redisProtoEncode_sameOrigin {proto : RedisProto} {scripts : ScriptCache}
    {parent : Option Request} (request : Request) {r : Request} (hcode : request.code = .ok)
    (h : (redisProtoEncode proto scripts parent request).1 = .ok r) : SameOrigin request r := by
  by_cases hbatch : request.commandType = .zbatchadd
  · simp only [redisProtoEncode, hcode, ne_eq, not_true_eq_false, if_false, hbatch] at h
    cases h
    exact ⟨rfl,rfl,rfl,rfl,rfl⟩
  · exact (redisProtoEncode_frame hbatch h).1

/-- A server reads one command, with nothing left over, and it is the one that is meant. -/
def ReadsAs (s : Bytes) (args : Option (List Arg)) : Prop :=
  ∃ argv, args = some argv ∧ parseCommand s = some (argv.map Arg.intended,[])

def AllFit (args : Option (List Arg)) : Prop := ∀ argv, args = some argv → ∀ arg ∈ argv, arg.Fits

def AllShort (args : Option (List Arg)) : Prop :=
  ∀ argv, args = some argv → ∀ arg ∈ argv, arg.intended.length < 2 ^ 31

/-- What `RedisProtoCmd` takes of an argument; nothing is lost of one that is short. -/
def cutArg (arg : Bytes) : Bytes := arg.take (int32 arg.length).toNat

theorem cutArg_short {arg : Bytes} (h : arg.length < 2 ^ 31) : cutArg arg = arg := by
  rw [cutArg, int32_of_range (by omega) (by omega), Int.toNat_natCast, List.take_length]

theorem mapM_cmdArg_ok {argv args : List Bytes} (h : argv.mapM cmdArg = .ok args) :
    args = argv.map fun arg => encBulk (cutArg arg) := by
  induction argv generalizing args with
  | nil =>
    cases h
    rfl
  | cons arg argv ih =>
    rw [List.mapM_cons] at h
    obtain ⟨s,hs,h⟩ := bind_eq_ok.mp h
    obtain ⟨rest,hrest,h⟩ := bind_eq_ok.mp h
    cases h
    rw [ih hrest, List.map_cons]
    unfold cmdArg at hs
    simp only at hs
    split at hs
    · cases hs
    · cases hs
      rfl

/-- What a server reads, whatever the arguments are. -/
theorem Sends.parsed_cut {origin r : Request} {args : Option (List Arg)}
    {x : Except EncodeFault Request} (h : Sends origin args x) (hx : x = .ok r) :
    ∃ argv, args = some argv ∧
      parseCommand r.protoStr = some (argv.map fun arg => cutArg arg.sent,[]) := by
  obtain ⟨-,argv,hargs,hcmd⟩ := h r hx
  refine ⟨argv,hargs,?_⟩
  rw [redisProtoCmd, if_neg (by simp), List.take_of_length_le (by simp)] at hcmd
  cases hmap : (argv.map Arg.sent).mapM cmdArg with
  | error fault =>
    rw [hmap] at hcmd
    cases hcmd
  | ok encoded =>
    rw [hmap] at hcmd
    have hframe : r.protoStr = encCommand (argv.map fun arg => cutArg arg.sent) := by
      rw [← Except.ok.inj hcmd, mapM_cmdArg_ok hmap]
      simp [encCommand, List.flatMap_def, Function.comp_def]
    rw [hframe]
    exact parseCommand_whole _

theorem Sends.parsed {origin r : Request} {args : Option (List Arg)}
    {x : Except EncodeFault Request} (h : Sends origin args x) (hx : x = .ok r) (hshort : AllShort args) :
    ∃ argv, args = some argv ∧ parseCommand r.protoStr = some (argv.map Arg.sent,[]) := by
  obtain ⟨argv,hargs,hparse⟩ := h.parsed_cut hx
  refine ⟨argv,hargs,?_⟩
  have hcut : argv.map (fun arg => cutArg arg.sent) = argv.map Arg.sent := by
    apply List.map_congr_left
    intro arg harg
    exact cutArg_short (Arg.sent_short (hshort argv hargs arg harg))
  rw [hparse, hcut]

theorem Sends.readsAs_iff {origin r : Request} {args : Option (List Arg)}
    {x : Except EncodeFault Request} (h : Sends origin args x) (hx : x = .ok r) (hshort : AllShort args) :
    ReadsAs r.protoStr args ↔ AllFit args := by
  obtain ⟨argv,rfl,hparse⟩ := h.parsed hx hshort
  constructor
  · rintro ⟨_,⟨⟩,hread⟩ _ ⟨⟩
    rw [hparse, Option.some.injEq, Prod.mk.injEq, List.map_inj_left] at hread
    intro arg harg
    exact arg.sent_eq_intended_iff.mp (hread.1 arg harg)
  · intro hfit
    refine ⟨argv,rfl,?_⟩
    have hmap : argv.map Arg.sent = argv.map Arg.intended :=
      List.map_inj_left.mpr fun arg harg => arg.sent_eq_intended_iff.mpr (hfit argv rfl arg harg)
    rw [hparse, hmap]

/-- The frame that `RedisProtoEncode` has built is read by a server as the intended command exactly
when its counts, ranks and scores have room where they are written. -/
theorem redisProtoEncode_readsAs_iff (proto : RedisProto) (scripts : ScriptCache)
    (parent : Option Request) (request : Request) {r : Request} {scripts' : ScriptCache}
    (hbatch : request.code = .ok → request.commandType ≠ .zbatchadd)
    (h : redisProtoEncode proto scripts parent request = (.ok r,scripts'))
    (hshort : AllShort (commandArgs proto scripts' parent request)) :
    ReadsAs r.protoStr (commandArgs proto scripts' parent request) ↔
      AllFit (commandArgs proto scripts' parent request) := by
  have hsends := sends_encode proto scripts parent request hbatch
  rw [h] at hsends
  exact hsends.readsAs_iff rfl hshort

/-- A request for three keys of one slot, and its sub-request. -/
def threeKeys : Request :=
  { Request.fresh with
    commandType := .mget
    namespaces := text "ab"
    mapSlotsKv := [(15891,["\x7bt\x7d1","\x7bt\x7d2","\x7bt\x7d3"].map fun key => ⟨text key,[],.finite 0,0⟩)] }

def threeKeysSub : Request :=
  { Request.fresh with isSubrequest := true, commandType := .mget, namespaces := text "ab", slotId := 15891 }

def threeKeysArgv : List Bytes := [text "MGET",text "ab\x7bt\x7d1",text "ab\x7bt\x7d2",text "ab\x7bt\x7d3"]

theorem threeKeys_encoded (proto : RedisProto) (scripts : ScriptCache) :
    redisProtoEncode proto scripts (some threeKeys) threeKeysSub =
      (.ok { threeKeysSub.named "MGET" with protoStr := encCommand threeKeysArgv },scripts) := by
  have hbuild : redisProtoEncode proto scripts (some threeKeys) threeKeysSub =
      ((threeKeysSub.named "MGET").build 4 threeKeysArgv,scripts) := rfl
  rw [hbuild, build_short _ (by rfl) (by decide)]
  rfl

theorem redisProtoEncode_readsAs_threeKeys :
    redisProtoEncode literalProto (fun _ _ => []) (some threeKeys) threeKeysSub =
      (.ok { threeKeysSub.named "MGET" with protoStr := encCommand threeKeysArgv },fun _ _ => []) ∧
    ReadsAs (encCommand threeKeysArgv) (commandArgs literalProto (fun _ _ => []) (some threeKeys) threeKeysSub) := by
  have hargs : commandArgs literalProto (fun _ _ => []) (some threeKeys) threeKeysSub =
      some (threeKeysArgv.map .bytes) := rfl
  have hiff := redisProtoEncode_readsAs_iff literalProto (fun _ _ => []) (some threeKeys) threeKeysSub (by decide)
    (threeKeys_encoded _ _) ?_
  · refine ⟨threeKeys_encoded _ _,hiff.mpr ?_⟩
    rw [hargs]
    rintro _ ⟨⟩ arg harg
    obtain ⟨key,-,rfl⟩ := List.mem_map.mp harg
    trivial
  · rw [hargs]
    rintro _ ⟨⟩
    decide

/-- A query for the ranks from zero to the first one that is no `int`. -/
def deepRanks : Request :=
  { Request.fresh with
    commandType := .zrange
    namespaces := text "ab"
    mapQuery := [(text "k",{ min := .finite 0, max := .finite 2147483648, asc := true, ws := false })] }

/-- The sub-request of `deepRanks`. -/
def deepRanksSub : Request :=
  { Request.fresh with isSubrequest := true, commandType := .zrange, namespaces := text "ab", key := text "k" }

def deepRanksArgs : List Arg :=
  [.bytes (text "ZRANGE"),.bytes (text "abk"),.rank (.finite 0),.rank (.finite 2147483648)]

theorem deepRanks_args (proto : RedisProto) (scripts : ScriptCache) :
    commandArgs proto scripts (some deepRanks) deepRanksSub = some deepRanksArgs := rfl

theorem deepRanks_short (proto : RedisProto) (scripts : ScriptCache) :
    AllShort (commandArgs proto scripts (some deepRanks) deepRanksSub) := by
  rw [deepRanks_args]
  rintro _ ⟨⟩ arg harg
  have hrank : (Arg.rank (.finite 2147483648)).intended.length ≤ 10 :=
    decimal_length_le (n := 2147483648) (by norm_num) (by norm_num)
  simp only [deepRanksArgs, List.mem_cons, List.not_mem_nil, or_false] at harg
  rcases harg with rfl | rfl | rfl | rfl
  · decide
  · decide
  · decide
  · omega

/-- The upper rank is sent as a negative number, so Redis is asked for no member at all. -/
theorem redisProtoEncode_deepRanks :
    ∃ r, redisProtoEncode literalProto (fun _ _ => []) (some deepRanks) deepRanksSub =
        (.ok r,fun _ _ => []) ∧
      AllShort (commandArgs literalProto (fun _ _ => []) (some deepRanks) deepRanksSub) ∧
      parseCommand r.protoStr =
        some ([text "ZRANGE",text "abk",text "0",intText (-2147483648)],[]) ∧
      ¬ ReadsAs r.protoStr (commandArgs literalProto (fun _ _ => []) (some deepRanks) deepRanksSub) := by
  have hshort := deepRanks_short literalProto fun _ _ => []
  have hsends := sends_encode literalProto (fun _ _ => []) (some deepRanks) deepRanksSub (by decide)
  have hsent : ∀ s ∈ deepRanksArgs.map Arg.sent, s.length < 2 ^ 31 := by
    intro s hs
    obtain ⟨arg,harg,rfl⟩ := List.mem_map.mp hs
    exact Arg.sent_short (hshort _ (deepRanks_args _ _) arg harg)
  have hbuild : redisProtoEncode literalProto (fun _ _ => []) (some deepRanks) deepRanksSub =
      ({ deepRanksSub with command := text "ZRANGE" }.build 4 (deepRanksArgs.map Arg.sent),
        fun _ _ => []) := rfl
  rw [build_short _ (by rfl) hsent] at hbuild
  rw [hbuild] at hsends
  refine ⟨_,hbuild,hshort,?_,?_⟩
  · obtain ⟨argv,hargs,hparse⟩ := hsends.parsed rfl hshort
    rw [deepRanks_args, Option.some.injEq] at hargs
    subst hargs
    exact hparse
  · rw [hsends.readsAs_iff rfl hshort]
    intro hfit
    have hrank := hfit _ (deepRanks_args _ _) (.rank (.finite 2147483648)) (by simp [deepRanksArgs])
    revert hrank
    decide

end QkPack
