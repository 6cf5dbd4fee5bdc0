import QkPack.Lib.Redis
import QkPack.Parser.ReadSpecs
import QkPack.Protocol.CommandArgs

/-!
# Range queries on sorted sets

The encoders ask for the scores when the query does. The decoder takes every second element for a score,
whatever has been asked for.
-/

namespace QkPack
open Wire CString Resp

section Pairs

variable (proto : RedisProto)

def scoredPairs (namespaces : Bytes) : List Bulk → List KvPair
  | member :: score :: rest =>
    ⟨member.bytes.drop namespaces.length,[],proto.strToDouble score.bytes,0⟩ ::
      scoredPairs namespaces rest
  | _ => []

theorem scoredPairs_length (namespaces : Bytes) (bs : List Bulk) :
    (scoredPairs proto namespaces bs).length = bs.length / 2 := by
  fun_induction scoredPairs proto namespaces bs with
  | case1 member score rest ih =>
    simp only [List.length_cons, ih]
    omega
  | case2 bs hnot =>
    rcases bs with _ | ⟨member,_ | ⟨score,rest⟩⟩
    · rfl
    · simp
    · exact absurd rfl (hnot member score rest)

/-- The two commands that are answered with members of a sorted set. -/
def CommandType.IsRange (c : CommandType) : Prop := c = .zrangebyscore ∨ c = .zrange

def Request.withMembers (parent : Request) (key : Bytes) (kvs : List KvPair) : Request :=
  { parent with
    mapKv := pushMembers key kvs parent.mapKv }

variable {proto} {stack : Nat → Bytes} {s : ArrayState} {parent : Request}

theorem getArrayValue_range (hcommand : s.request.commandType.IsRange) (i : Nat)
    (bytes : Except DecodeFault Bytes) :
    getArrayValue proto stack i bytes s = s.pushScored proto i bytes := by
  rcases hcommand with h | h <;> simp only [getArrayValue, h]

section Elements

variable (proto) (stack) (hcommand : s.request.commandType.IsRange) (hparent : s.parent = some parent)
  {i : Nat} (value : Bytes)
include hcommand hparent

theorem getArrayValue_member (hi : i % 2 = 0) : getArrayValue proto stack i (.ok value) s =
    .ok { s with member := value.drop parent.namespaces.length } := by
  have hodd : ¬ i % 2 = 1 := by omega
  simp only [getArrayValue_range hcommand, ArrayState.pushScored, hparent, ok_bind, if_neg hodd]
  rfl

theorem getArrayValue_score (hi : i % 2 = 1) : getArrayValue proto stack i (.ok value) s =
    .ok ⟨s.request,
      some (parent.withMembers s.request.key [⟨s.member,[],proto.strToDouble value,0⟩]),[]⟩ := by
  simp only [getArrayValue_range hcommand, ArrayState.pushScored, hparent, ok_bind, if_pos hi]
  rfl

end Elements

variable (proto) (stack)

/-- From an even element on, the members are entered pair by pair. -/
theorem takeElems_range {namespaces : Bytes} (bs : List Bulk) {i : Nat} (hi : i % 2 = 0)
    (hcommand : s.request.commandType.IsRange) (hparent : s.parent = some parent)
    (hns : parent.namespaces = namespaces) :
    ∃ member, takeElems proto stack i (bs.map some) s = .ok ⟨s.request,
      some (parent.withMembers s.request.key (scoredPairs proto namespaces bs)),member⟩ := by
  fun_induction scoredPairs proto namespaces bs generalizing i s parent with
  | case1 member score rest ih =>
    have hnext : (i + 1) % 2 = 1 := by omega
    obtain ⟨last,hrest⟩ := ih (i := i + 1 + 1) (by omega)
      (s := ⟨s.request,some (parent.withMembers s.request.key
        [⟨member.bytes.drop namespaces.length,[],proto.strToDouble score.bytes,0⟩]),[]⟩)
      hcommand rfl hns
    refine ⟨last,?_⟩
    have hmember := getArrayValue_member proto stack hcommand hparent member.bytes hi
    have hscore := getArrayValue_score proto stack
      (s := ⟨s.request,s.parent,member.bytes.drop parent.namespaces.length⟩) hcommand hparent
      score.bytes hnext
    simp only [List.map_cons, takeElems, hmember, hscore, ok_bind]
    rw [hns, hrest]
    rfl
  | case2 bs hnot =>
    rcases bs with _ | ⟨member,_ | ⟨score,rest⟩⟩
    · refine ⟨s.member,?_⟩
      show Except.ok s = Except.ok _
      rw [Request.withMembers, pushMembers, List.foldl_nil, ← hparent]
    · refine ⟨member.bytes.drop parent.namespaces.length,?_⟩
      rw [List.map_cons, List.map_nil, takeElems, getArrayValue_member proto stack hcommand hparent _ hi]
      show Except.ok _ = Except.ok _
      rw [Request.withMembers, pushMembers, List.foldl_nil, ← hparent]
    · exact absurd rfl (hnot member score rest)

theorem redisProtoDecode_range (parent : Request) (scripts : ScriptCache) (replied : Request) {bs : List Bulk}
    (hcode : replied.code = .ok) (hcommand : replied.commandType.IsRange)
    (hreply : replied.responseBuffer = encArray (bs.map some)) :
    redisProtoDecode proto stack scripts (some parent) replied =
      .ok (if arraySize (bs.map some).length = -1 then ⟨.error,replied,some parent,scripts⟩
        else ⟨.ok,replied,some (parent.withMembers replied.key (scoredPairs proto parent.namespaces
          (bs.take (arraySize (bs.map some).length).toNat))),scripts⟩) := by
  have httl : replied.commandType ≠ .ttl := by
    rcases hcommand with hc | hc <;> rw [hc] <;> decide
  rw [redisProtoDecode_encArray proto stack _ scripts _ replied hcode httl hreply]
  split
  · rfl
  · obtain ⟨member,htake⟩ := takeElems_range proto stack
      (s := ⟨replied,some parent,[]⟩) (bs.take (arraySize (bs.map some).length).toNat) (i := 0) rfl hcommand
      rfl rfl
    rw [← List.map_take, htake]
    show Except.ok (ttlCheck _) = Except.ok _
    rw [ttlCheck, if_neg fun hc => httl hc.1, if_neg fun hc => httl hc.1]

variable {proto} {stack}

theorem scoredPairs_rangeBulks (numbers : Redis.Numbers) (namespaces : Bytes) (z : List (Bulk × Double)) :
    scoredPairs proto namespaces (Redis.rangeBulks numbers true z) =
      z.map fun m => ⟨m.1.bytes.drop namespaces.length,[],proto.strToDouble (numbers.shown m.2).bytes,0⟩ := by
  induction z with
  | nil => rfl
  | cons m z ih =>
    rw [List.map_cons, ← ih, Redis.rangeBulks, List.flatMap_cons]
    show scoredPairs proto namespaces (m.1 :: numbers.shown m.2 :: Redis.rangeBulks numbers true z) = _
    rw [scoredPairs]

theorem scoredPairs_exact {numbers : Redis.Numbers} (namespaces : Bytes) {z : List (Bulk × Double)}
    (hscores : ∀ m ∈ z, proto.strToDouble (numbers.shown m.2).bytes = m.2) :
    scoredPairs proto namespaces (Redis.rangeBulks numbers true z) =
      z.map fun m => ⟨m.1.bytes.drop namespaces.length,[],m.2,0⟩ := by
  rw [scoredPairs_rangeBulks]
  apply List.map_congr_left
  intro m hm
  rw [hscores m hm]

end Pairs

section Query

variable {proto : RedisProto} {scripts scripts' : ScriptCache} {parent request built : Request}
  {query : ZsetQuery}

/-- A sub-request for a range of a sorted set, and the query it stands for. -/
structure RangeQuery (parent request : Request) (query : ZsetQuery) : Prop where
  code : request.code = .ok
  command : request.commandType.IsRange
  asked : parent.mapQuery.lookup request.key = some query

def rangeNames : List Bytes :=
  [text "ZRANGEBYSCORE",text "ZREVRANGEBYSCORE",text "ZRANGE",text "ZREVRANGE"]

theorem rangeNames_short : ∀ name ∈ rangeNames,
    name.length < 2 ^ 31 ∧ name ≠ text "MGET" ∧ name ≠ text "EVALSHA" := by decide

theorem RangeQuery.args (h : RangeQuery parent request query) (proto : RedisProto)
    (scripts : ScriptCache) :
    ∃ name ∈ rangeNames, ∃ key lo hi, commandArgs proto scripts (some parent) request =
      some ([.bytes name,key,lo,hi] ++ if query.ws then [.bytes (text "WITHSCORES")] else []) := by
  have hnot : ¬ request.code ≠ .ok := not_not.mpr h.code
  simp only [commandArgs, if_neg hnot]
  rcases h.command with hc | hc
  · simp only [hc, queryArgs, Option.bind_eq_bind, Option.bind_some, h.asked, zrangebyscoreArgs]
    by_cases hasc : query.asc = true
    · rw [if_pos hasc]
      exact ⟨text "ZRANGEBYSCORE",by decide,_,_,_,rfl⟩
    · rw [if_neg hasc]
      exact ⟨text "ZREVRANGEBYSCORE",by decide,_,_,_,rfl⟩
  · simp only [hc, queryArgs, Option.bind_eq_bind, Option.bind_some, h.asked, zrangeArgs]
    by_cases hasc : query.asc = true
    · rw [if_pos hasc]
      exact ⟨text "ZRANGE",by decide,_,_,_,rfl⟩
    · rw [if_neg hasc]
      exact ⟨text "ZREVRANGE",by decide,_,_,_,rfl⟩

theorem RangeQuery.parsed (h : RangeQuery parent request query)
    (hbuilt : (redisProtoEncode proto scripts (some parent) request).1 = .ok built) :
    ∃ name ∈ rangeNames, ∃ key lo hi, parseCommand built.protoStr = some
      (name :: key :: lo :: hi :: (if query.ws then [text "WITHSCORES"] else []),[]) := by
  have hbatch : request.code = .ok → request.commandType ≠ .zbatchadd := by
    intro _
    rcases h.command with hc | hc <;> rw [hc] <;> decide
  obtain ⟨argv,hargs,hparse⟩ := (sends_encode proto scripts (some parent) request hbatch).parsed_cut hbuilt
  obtain ⟨name,hname,key,lo,hi,hshape⟩ := h.args proto
    (redisProtoEncode proto scripts (some parent) request).2
  have hshort : cutArg name = name := cutArg_short (rangeNames_short name hname).1
  rw [hshape, Option.some.injEq] at hargs
  subst hargs
  refine ⟨name,hname,cutArg key.sent,cutArg lo.sent,cutArg hi.sent,?_⟩
  rw [hparse]
  cases query.ws with
  | false => simp [Arg.sent, hshort]
  | true =>
    have hws : cutArg (text "WITHSCORES") = text "WITHSCORES" := cutArg_short (by decide)
    simp [Arg.sent, hshort, hws]

/-- The members of `z` stand in the set of the key behind those that were there, in their order and once
each, with their scores if the query is for scores. -/
def ReadsMembers (query : ZsetQuery) (key : Bytes) (z : List (Bulk × Double)) (parent parent' : Request) :
    Prop :=
  ∃ kvs : List KvPair,
    (parent'.mapKv.lookup key).getD [] = (parent.mapKv.lookup key).getD [] ++ kvs ∧
    kvs.map (·.key) = z.map (fun m => m.1.bytes.drop parent.namespaces.length) ∧
    (query.ws = true → kvs.map (·.score) = z.map (·.2))

theorem readsMembers_withMembers (hsorted : SortedMap.Sorted parent.mapKv) (key : Bytes)
    (z : List (Bulk × Double)) (kvs : List KvPair) :
    ReadsMembers query key z parent (parent.withMembers key kvs) ↔
      kvs.map (·.key) = z.map (fun m => m.1.bytes.drop parent.namespaces.length) ∧
        (query.ws = true → kvs.map (·.score) = z.map (·.2)) := by
  have hlookup : ((parent.withMembers key kvs).mapKv.lookup key).getD [] =
      (parent.mapKv.lookup key).getD [] ++ kvs := by
    rw [Request.withMembers, lookup_pushMembers hsorted, if_pos rfl]
  constructor
  · rintro ⟨kvs',hkvs',hkeys,hscores⟩
    rw [hlookup] at hkvs'
    obtain rfl := List.append_cancel_left hkvs'
    exact ⟨hkeys,hscores⟩
  · rintro ⟨hkeys,hscores⟩
    exact ⟨kvs,hlookup,hkeys,hscores⟩

variable {numbers : Redis.Numbers} {z : List (Bulk × Double)}

/-- As many pairs as members are found only where scores stand between the members. -/
theorem scoredPairs_take_iff {n : Nat} (hn : n < 2 ^ 31)
    (hle : n ≤ (Redis.rangeBulks numbers query.ws z).length)
    (hall : (Redis.rangeBulks numbers query.ws z).length < 2 ^ 31 →
      n = (Redis.rangeBulks numbers query.ws z).length)
    (hscores : ∀ m ∈ z, proto.strToDouble (numbers.shown m.2).bytes = m.2) (namespaces : Bytes) :
    ((scoredPairs proto namespaces ((Redis.rangeBulks numbers query.ws z).take n)).map (·.key) =
        z.map (fun m => m.1.bytes.drop namespaces.length) ∧
      (query.ws = true →
        (scoredPairs proto namespaces ((Redis.rangeBulks numbers query.ws z).take n)).map (·.score) =
          z.map (·.2))) ↔ z = [] ∨ query.ws = true ∧ 2 * z.length < 2 ^ 31 := by
  rw [Redis.rangeBulks_length] at hle hall
  constructor
  · rintro ⟨hkeys,-⟩
    have hlen := congrArg List.length hkeys
    simp only [List.length_map, scoredPairs_length, List.length_take, Redis.rangeBulks_length] at hlen
    by_cases hws : query.ws = true
    · rw [if_pos hws] at hlen
      exact .inr ⟨hws,by omega⟩
    · rw [if_neg hws] at hlen
      exact .inl (List.length_eq_zero_iff.mp (by omega))
  · rintro (rfl | ⟨hws,hsize⟩)
    · simp [Redis.rangeBulks, scoredPairs]
    · rw [hws] at hall ⊢
      have htake : (Redis.rangeBulks numbers true z).take n = Redis.rangeBulks numbers true z := by
        apply List.take_of_length_le
        rw [Redis.rangeBulks_length, hall hsize]
      rw [htake, scoredPairs_exact namespaces hscores]
      simp [Function.comp_def]

theorem RangeQuery.exec (h : RangeQuery parent request query)
    (hbuilt : (redisProtoEncode proto scripts (some parent) request).1 = .ok built)
    {node : Redis.Node} {store : Redis.Store} {argv : List Bytes}
    (hargv : parseCommand built.protoStr = some (argv,[])) (hz : node.selection store argv = some z) :
    node.exec store argv = some (store,.array ((Redis.rangeBulks node.numbers query.ws z).map some)) := by
  obtain ⟨name,hname,key,lo,hi,hparse⟩ := h.parsed hbuilt
  obtain ⟨-,hmget,hevalsha⟩ := rangeNames_short name hname
  rw [hparse, Option.some.injEq, Prod.mk.injEq] at hargv
  obtain ⟨rfl,-⟩ := hargv
  apply Redis.Node.exec_range hmget hevalsha hz
  cases query.ws <;> rfl

/-- What a range query makes of the answer of the server is complete exactly when there is nothing to read
or scores have been asked for; the length of the answer is an `int`. -/
theorem range_members_read_iff {stack : Nat → Bytes} {node : Redis.Node} {store store' : Redis.Store}
    {argv : List Bytes} {reply : Reply} (h : RangeQuery parent request query)
    (hsorted : SortedMap.Sorted parent.mapKv)
    (hbuilt : redisProtoEncode proto scripts (some parent) request = (.ok built,scripts'))
    (hargv : parseCommand built.protoStr = some (argv,[])) (hz : node.selection store argv = some z)
    (hreply : node.exec store argv = some (store',reply))
    (hscores : ∀ m ∈ z, proto.strToDouble (node.numbers.shown m.2).bytes = m.2) :
    (∃ d parent', redisProtoDecode proto stack scripts' (some parent)
        { built with responseBuffer := encode reply } = .ok d ∧ d.rc = .ok ∧ d.parent = some parent' ∧
        ReadsMembers query request.key z parent parent') ↔
      z = [] ∨ query.ws = true ∧ 2 * z.length < 2 ^ 31 := by
  have hok : (redisProtoEncode proto scripts (some parent) request).1 = .ok built := by rw [hbuilt]
  obtain ⟨hcode,-,hcommand,hkey,-⟩ := redisProtoEncode_sameOrigin request h.code hok
  rw [h.exec hok hargv hz, Option.some.injEq, Prod.mk.injEq] at hreply
  obtain ⟨-,rfl⟩ := hreply
  have hrange : built.commandType.IsRange := by
    rw [hcommand]
    exact h.command
  have hdecode := redisProtoDecode_range proto stack parent scripts'
    { built with
      responseBuffer := encode (.array ((Redis.rangeBulks node.numbers query.ws z).map some)) }
    (hcode.trans h.code) hrange rfl
  have hsize := arraySize_le ((Redis.rangeBulks node.numbers query.ws z).map some).length
  have hlt := int32_lt (clampLong ((Redis.rangeBulks node.numbers query.ws z).map some).length)
  have hall (h : ((Redis.rangeBulks node.numbers query.ws z).map some).length < 2 ^ 31) :=
    arraySize_of_lt h
  rw [← arraySize] at hlt
  generalize arraySize ((Redis.rangeBulks node.numbers query.ws z).map some).length = size at hdecode hsize hlt hall
  rw [List.length_map] at hsize hall
  rw [hdecode]
  by_cases herror : size = -1
  · -- more elements than an `int` can count
    rw [Redis.rangeBulks_length] at hall
    rw [if_pos herror]
    apply iff_of_false
    · rintro ⟨d,parent',⟨⟩,hrc,-⟩
      cases hrc
    · rintro (rfl | ⟨hws,hcount⟩)
      · have := hall (by simp)
        omega
      · rw [if_pos hws] at hall
        have := hall hcount
        omega
  · rw [if_neg herror, ← scoredPairs_take_iff (n := size.toNat) (by omega) hsize (by omega) hscores
      parent.namespaces, ← readsMembers_withMembers hsorted request.key, ← hkey]
    constructor
    · rintro ⟨d,parent',⟨⟩,-,⟨⟩,hread⟩
      exact hread
    · intro hread
      exact ⟨_,_,rfl,rfl,rfl,hread⟩

end Query

section Sample

/-- A query for all ranks of the set `k`. -/
def allRanks (ws : Bool) : Request :=
  { Request.fresh with
    commandType := .zrange
    namespaces := text "ab"
    mapQuery := [(text "k",{ min := .finite 0, max := .finite (-1), asc := true, ws := ws })] }

/-- The sub-request of `allRanks`, before and after it has been encoded. -/
def allRanksSub : Request :=
  { Request.fresh with isSubrequest := true, commandType := .zrange, namespaces := text "ab", key := text "k" }

def allRanksArgv (ws : Bool) : List Bytes :=
  [text "ZRANGE",text "abk",text "0",text "-1"] ++ if ws then [text "WITHSCORES"] else []

def allRanksBuilt (ws : Bool) : Request :=
  { allRanksSub with command := text "ZRANGE", protoStr := encCommand (allRanksArgv ws) }

/-- A server that reads the texts of two scores, and has shorter ones for them. -/
def twoScores : Redis.Node :=
  ⟨⟨fun s => if s = text "0.000000" then some (.finite 0) else if s = text "1.000000" then some (.finite 1) else none,
    fun d => if d = .finite 1 then ⟨text "1",by decide⟩ else ⟨text "0",by decide⟩⟩,fun _ => none⟩

def scoreProto : RedisProto :=
  { literalProto with strToDouble := fun s => if s = text "1" then .finite 1 else .finite 0 }

def memberA : Bulk := ⟨text "aba",by decide⟩

def memberB : Bulk := ⟨text "abb",by decide⟩

def oneRanked : List (Bulk × Double) := [(memberB,.finite 0)]

def twoRanked : List (Bulk × Double) := oneRanked ++ [(memberA,.finite 1)]

/-- The members of the set `k`. -/
def setStore (z : List (Bulk × Double)) : Redis.Store :=
  Function.update (fun _ => none) (text "abk") (some ⟨.zset z,none⟩)

def plainNode : Redis.Node := ⟨⟨fun _ => none,fun _ => ⟨text "0",by decide⟩⟩,fun _ => none⟩

theorem allRanks_query (ws : Bool) : RangeQuery (allRanks ws) allRanksSub
    { min := .finite 0, max := .finite (-1), asc := true, ws := ws } where
  code := rfl
  command := .inr rfl
  asked := rfl

theorem allRanks_built (ws : Bool) :
    redisProtoEncode scoreProto (fun _ _ => []) (some (allRanks ws)) allRanksSub =
      (.ok (allRanksBuilt ws),fun _ _ => []) := by
  have hmin : toString32 (Double.whole (.finite 0)) = text "0" := by decide +kernel
  have hmax : toString32 (Double.whole (.finite (-1))) = text "-1" := by decide +kernel
  have hbuild : redisProtoEncode scoreProto (fun _ _ => []) (some (allRanks ws)) allRanksSub =
      ({ allRanksSub with command := text "ZRANGE" }.build (if ws then 5 else 4)
        ([text "ZRANGE",text "abk",toString32 (Double.whole (.finite 0)),toString32 (Double.whole (.finite (-1)))] ++
          if ws then [text "WITHSCORES"] else []),fun _ _ => []) := rfl
  rw [hmin, hmax] at hbuild
  have hshort : ∀ arg ∈ allRanksArgv ws, arg.length < 2 ^ 31 := by
    cases ws <;> decide
  rw [hbuild, ← allRanksArgv, build_short _ (by cases ws <;> rfl) hshort]
  rfl

theorem allRanks_parsed (ws : Bool) :
    parseCommand (allRanksBuilt ws).protoStr = some (allRanksArgv ws,[]) :=
  parseCommand_whole (allRanksArgv ws)

theorem allRanks_selection (ws : Bool) (z : List (Bulk × Double)) :
    twoScores.selection (setStore z) (allRanksArgv ws) = some z := by
  have hmembers : Redis.members (setStore z) (text "abk") = some z := by
    rw [Redis.members, setStore, Function.update_self]
  have hlo : Redis.readInt (text "0") = some 0 := by decide +kernel
  have hhi : Redis.readInt (text "-1") = some (-1) := by decide +kernel
  have hselect : Redis.select twoScores.numbers (text "ZRANGE") (text "0") (text "-1") z = some z := by
    rw [Redis.select, if_neg (by decide), if_neg (by decide), if_pos rfl, hlo, hhi]
    simp [Redis.rangeByRank]
  have hargv : allRanksArgv ws = text "ZRANGE" :: text "abk" :: text "0" :: text "-1" ::
      if ws then [text "WITHSCORES"] else [] := by
    cases ws <;> decide +kernel
  rw [hargv, Redis.Node.selection, hmembers, Option.bind_some, hselect]

/-- With scores both members are read. -/
theorem range_members_read_scored :
    ∃ d parent', redisProtoDecode scoreProto (fun _ => []) (fun _ _ => []) (some (allRanks true))
        { allRanksBuilt true with
          responseBuffer := encode (.array ((Redis.rangeBulks twoScores.numbers true twoRanked).map some)) } =
        .ok d ∧ d.rc = .ok ∧ d.parent = some parent' ∧
        ReadsMembers { min := .finite 0, max := .finite (-1), asc := true, ws := true } (text "k") twoRanked
          (allRanks true) parent' := by
  refine (range_members_read_iff (allRanks_query true) SortedMap.sorted_nil (allRanks_built true)
    (allRanks_parsed true) (allRanks_selection true twoRanked)
    ((allRanks_query true).exec (congrArg Prod.fst (allRanks_built true)) (allRanks_parsed true)
      (allRanks_selection true twoRanked)) ?_).mpr (.inr ⟨rfl,by decide⟩)
  intro m hm
  rcases List.mem_pair.mp hm with rfl | rfl <;> rfl

/-- Without scores the one member waits for a score that does not come. -/
theorem range_member_lost :
    redisProtoEncode scoreProto (fun _ _ => []) (some (allRanks false)) allRanksSub =
        (.ok (allRanksBuilt false),fun _ _ => []) ∧
      parseCommand (allRanksBuilt false).protoStr = some (allRanksArgv false,[]) ∧
      twoScores.selection (setStore oneRanked) (allRanksArgv false) = some oneRanked ∧
      ∃ reply, twoScores.exec (setStore oneRanked) (allRanksArgv false) = some (setStore oneRanked,reply) ∧
        ∃ d parent', redisProtoDecode scoreProto (fun _ => []) (fun _ _ => [])
            (some (allRanks false)) { allRanksBuilt false with responseBuffer := encode reply } = .ok d ∧
          d.rc = .ok ∧ d.parent = some parent' ∧ parent'.mapKv = [] ∧
          ¬ ReadsMembers { min := .finite 0, max := .finite (-1), asc := true, ws := false } (text "k") oneRanked
            (allRanks false) parent' := by
  refine ⟨allRanks_built false,allRanks_parsed false,allRanks_selection false oneRanked,_,
    (allRanks_query false).exec (congrArg Prod.fst (allRanks_built false)) (allRanks_parsed false)
      (allRanks_selection false oneRanked),_,_,
    redisProtoDecode_range _ _ _ _ { allRanksBuilt false with responseBuffer := _ } rfl (.inr rfl) rfl,
    rfl,rfl,rfl,?_⟩
  rintro ⟨kvs,hkvs,hkeys,-⟩
  have hnil : [] = kvs := hkvs
  subst hnil
  cases hkeys

end Sample

end QkPack
