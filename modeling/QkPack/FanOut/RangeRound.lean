import QkPack.FanOut.DeliveredRounds
import QkPack.Protocol.Ranges

/-!
# A round of queries by score

One sub-request for every set that is asked about. What a server finds is entered under the key of the set, once,
whatever the order in which the sub-requests are served.
-/

namespace QkPack
open Wire CString Resp

def rangeCommand (namespaces key : Bytes) (query : ZsetQuery) : List Bytes :=
  if query.asc then
    [text "ZRANGEBYSCORE",namespaces ++ key,(Arg.score query.min).sent,(Arg.score query.max).sent]
  else
    [text "ZREVRANGEBYSCORE",namespaces ++ key,(Arg.score query.max).sent,(Arg.score query.min).sent]

def rangeArgv (namespaces key : Bytes) (query : ZsetQuery) : List Bytes :=
  rangeCommand namespaces key query ++ if query.ws then [text "WITHSCORES"] else []

def foundEntries (proto : RedisProto) (numbers : Redis.Numbers) (namespaces : Bytes) (ws : Bool)
    (z : List (Bulk × Double)) : List KvPair :=
  scoredPairs proto namespaces ((Redis.rangeBulks numbers ws z).take
    (arraySize ((Redis.rangeBulks numbers ws z).map some).length).toNat)

theorem foundEntries_length_le (proto : RedisProto) (numbers : Redis.Numbers) (namespaces : Bytes) (ws : Bool)
    (z : List (Bulk × Double)) : (foundEntries proto numbers namespaces ws z).length ≤ z.length := by
  rw [foundEntries, scoredPairs_length, List.length_take, Redis.rangeBulks_length]
  split <;> omega

theorem foundEntries_all (proto : RedisProto) (numbers : Redis.Numbers) (namespaces : Bytes)
    {z : List (Bulk × Double)} (hfew : 2 * z.length < 2 ^ 31) :
    foundEntries proto numbers namespaces true z =
      z.map fun m => ⟨m.1.bytes.drop namespaces.length,[],proto.strToDouble (numbers.shown m.2).bytes,0⟩ := by
  have hlen : (Redis.rangeBulks numbers true z).length = 2 * z.length := by
    rw [Redis.rangeBulks_length, if_pos rfl]
  have hint : ((Redis.rangeBulks numbers true z).map some).length < 2 ^ 31 := by
    rw [List.length_map, hlen]
    exact hfew
  rw [foundEntries, arraySize_of_lt hint, Int.toNat_natCast, List.length_map, List.take_length,
    scoredPairs_rangeBulks]

theorem foundEntries_scored {proto : RedisProto} {numbers : Redis.Numbers} (namespaces : Bytes)
    {z : List (Bulk × Double)} (hfew : 2 * z.length < 2 ^ 31)
    (hscores : ∀ m ∈ z, proto.strToDouble (numbers.shown m.2).bytes = m.2) :
    foundEntries proto numbers namespaces true z =
      z.map fun m => ⟨m.1.bytes.drop namespaces.length,[],m.2,0⟩ := by
  rw [foundEntries_all proto numbers namespaces hfew]
  apply List.map_congr_left
  intro m hm
  rw [hscores m hm]

/-- Only members have been entered, under keys that are asked about. -/
structure OnlyMembers (p₀ p : Request) : Prop where
  rest : p = { p₀ with mapKv := p.mapKv }
  sorted : SortedMap.Sorted p.mapKv
  keys : ∀ entry ∈ p.mapKv, entry.1 ∈ p₀.mapQuery.map (·.1)

structure RangeSent (p₀ : Request) (key : Bytes) (built : Request) : Prop where
  command : built.commandType = .zrangebyscore
  code : built.code = .ok
  about : built.key = key
  parsed : ∃ query, p₀.mapQuery.lookup key = some query ∧
    parseCommand built.protoStr = some (rangeArgv p₀.namespaces key query,[])

/-- The members that a server finds stand under the key. -/
def RangeDone (h : Handler) (node : Redis.Node) (store : Redis.Store) (p₀ : Request) (key : Bytes)
    (p : Request) : Prop :=
  ∃ query z, p₀.mapQuery.lookup key = some query ∧
    node.selection store (rangeArgv p₀.namespaces key query) = some z ∧
    (p.mapKv.lookup key).getD [] = foundEntries h.proto node.numbers p₀.namespaces query.ws z

section Send

variable {h : Handler} {conf : UpstreamConf} {shared : Shared} {nodeIp : Bytes} {p₀ p built : Request} {key : Bytes}

theorem range_sent (hamp : 38 ∉ key) (hshort : (p₀.namespaces ++ key).length < 2 ^ 31)
    (hcommand : subCommand p₀ (keySub .zrangebyscore p₀.namespaces key) = .zrangebyscore)
    (hp : OnlyMembers p₀ p)
    (hsend : sendSub h conf shared nodeIp p (keySub .zrangebyscore p₀.namespaces key) = some built) :
    RangeSent p₀ key built := by
  obtain ⟨request,ip,hinit,hs⟩ := sendSub_sentAs hsend
  have hslot : keyHashSlot (p₀.namespaces ++ key) < 16384 := Nat.mod_lt _ (by norm_num)
  cases (qkupstreamInit_keyArgs .zrangebyscore hamp hslot).symm.trans hinit
  have hsub : subCommand p (keySub .zrangebyscore p₀.namespaces key) = .zrangebyscore := by
    rw [hp.rest]
    exact hcommand
  rw [hsub] at hs
  generalize hopened : SubRequest.opened conf p (keySub .zrangebyscore p₀.namespaces key) ip h.memory _ = opened at hs
  have hkey : opened.key = key := by
    rw [← hopened]
    rfl
  obtain ⟨argv,hargs,hparse⟩ := (hs.sends (by decide)).parsed_cut hs.encoded
  have hqueries : p.mapQuery = p₀.mapQuery := by rw [hp.rest]
  have hns : p.namespaces = p₀.namespaces := by rw [hp.rest]
  simp only [commandArgs, if_neg hs.not_code, hs.opens, queryArgs, Option.bind_eq_bind, Option.bind_some, hkey,
    hqueries, Option.bind_eq_some_iff] at hargs
  obtain ⟨query,hquery,hargs⟩ := hargs
  cases hargs
  refine ⟨hs.command,hs.code,hs.key.trans hkey,query,hquery,?_⟩
  have hmin := cutArg_short (score_sent_short query.min)
  have hmax := cutArg_short (score_sent_short query.max)
  have hcut : cutArg (p₀.namespaces ++ key) = p₀.namespaces ++ key := cutArg_short hshort
  have hws : cutArg (text "WITHSCORES") = text "WITHSCORES" := cutArg_short (by decide)
  have hasc : cutArg (text "ZRANGEBYSCORE") = text "ZRANGEBYSCORE" := cutArg_short (by decide)
  have hdesc : cutArg (text "ZREVRANGEBYSCORE") = text "ZREVRANGEBYSCORE" := cutArg_short (by decide)
  have hbytes (s : Bytes) : (Arg.bytes s).sent = s := rfl
  rw [hparse, rangeArgv, rangeCommand, zrangebyscoreArgs, hns, hkey, List.map_append]
  cases query.asc <;> cases query.ws <;>
    simp only [if_true, if_false, Bool.false_eq_true, List.map_cons, List.map_nil, hbytes, hmin, hmax, hcut, hws, hasc,
      hdesc]

end Send

section Serve

variable {h : Handler} {node : Redis.Node} {shared : Shared} {stack : Nat → Bytes} {store store' : Redis.Store}
  {p₀ p p' built : Request} {key : Bytes}

theorem exec_rangeArgv (node : Redis.Node) (store : Redis.Store) (namespaces key : Bytes) (query : ZsetQuery) :
    node.exec store (rangeArgv namespaces key query) = (node.selection store (rangeArgv namespaces key query)).map
      fun z => (store,.array ((Redis.rangeBulks node.numbers query.ws z).map some)) := by
  have hshape : ∃ name ∈ rangeNames, ∃ lo hi, rangeArgv namespaces key query =
      name :: (namespaces ++ key) :: lo :: hi :: if query.ws then [text "WITHSCORES"] else [] := by
    rw [rangeArgv, rangeCommand]
    cases query.asc with
    | true => exact ⟨text "ZRANGEBYSCORE",by decide,_,_,rfl⟩
    | false => exact ⟨text "ZREVRANGEBYSCORE",by decide,_,_,rfl⟩
  obtain ⟨name,hname,lo,hi,hshape⟩ := hshape
  obtain ⟨-,hmget,hevalsha⟩ := rangeNames_short name hname
  rw [hshape]
  cases hz : node.selection store (name :: (namespaces ++ key) :: lo :: hi ::
      if query.ws then [text "WITHSCORES"] else []) with
  | none =>
    rw [Redis.Node.exec, if_neg hmget, if_neg hevalsha, hz]
    rfl
  | some z =>
    have hws : Redis.withScores (if query.ws then [text "WITHSCORES"] else []) = some query.ws := by
      cases query.ws <;> rfl
    exact Redis.Node.exec_range hmget hevalsha hz hws

theorem range_served (hp : OnlyMembers p₀ p) (hsent : RangeSent p₀ key built)
    (hserve : serveSub h node shared stack store p built = some (store',p')) :
    store' = store ∧ ∃ query z, p₀.mapQuery.lookup key = some query ∧
      node.selection store (rangeArgv p₀.namespaces key query) = some z ∧
      p' = p.withMembers key (foundEntries h.proto node.numbers p₀.namespaces query.ws z) := by
  obtain ⟨argv,reply,hparse,hexec,d,hdecode,hrc,hparent⟩ := serveSub_eq_some hserve
  obtain ⟨query,hquery,hargv⟩ := hsent.parsed
  rw [hargv, Option.some.injEq, Prod.mk.injEq] at hparse
  obtain ⟨rfl,-⟩ := hparse
  rw [exec_rangeArgv, Option.map_eq_some_iff] at hexec
  obtain ⟨z,hz,hexec⟩ := hexec
  obtain ⟨rfl,rfl⟩ := Prod.mk.inj hexec
  refine ⟨rfl,query,z,hquery,hz,?_⟩
  have hreply := redisProtoDecode_range h.proto stack p shared.scripts
    { built with
      responseBuffer := encode (.array ((Redis.rangeBulks node.numbers query.ws z).map some))
      movedAsk := .ok } hsent.code (.inl hsent.command) rfl
  rw [hdecode, Except.ok.injEq] at hreply
  split at hreply
  · rw [hreply] at hrc
    cases hrc
  · have hns : p.namespaces = p₀.namespaces := by rw [hp.rest]
    rw [hreply, Option.getD_some] at hparent
    rw [← hparent, foundEntries, ← hns, ← hsent.about]

theorem range_serves (h : Handler) (shared : Shared) (stack : Nat → Bytes) (p : Request)
    (hsent : RangeSent p₀ key built) {query : ZsetQuery} (hquery : p₀.mapQuery.lookup key = some query)
    {z : List (Bulk × Double)} (hz : node.selection store (rangeArgv p₀.namespaces key query) = some z)
    (hfew : 2 * z.length < 2 ^ 31) : ∃ p', serveSub h node shared stack store p built = some (store,p') := by
  obtain ⟨query',hquery',hparse⟩ := hsent.parsed
  cases hquery.symm.trans hquery'
  have hexec := exec_rangeArgv node store p₀.namespaces key query
  rw [hz, Option.map_some] at hexec
  have hlen : ((Redis.rangeBulks node.numbers query.ws z).map some).length < 2 ^ 31 := by
    rw [List.length_map, Redis.rangeBulks_length]
    split <;> omega
  have hsize : ¬ arraySize ((Redis.rangeBulks node.numbers query.ws z).map some).length = -1 := by
    rw [arraySize_of_lt hlen]
    omega
  have hdecode := redisProtoDecode_range h.proto stack p shared.scripts
    { built with
      responseBuffer := encode (.array ((Redis.rangeBulks node.numbers query.ws z).map some))
      movedAsk := .ok } hsent.code (.inl hsent.command) rfl
  rw [if_neg hsize] at hdecode
  exact ⟨_,serveSub_array hsent.code (.inr hsent.command) hparse hexec hdecode⟩

theorem OnlyMembers.withMembers (hp : OnlyMembers p₀ p) {query : ZsetQuery}
    (hquery : p₀.mapQuery.lookup key = some query) (kvs : List KvPair) :
    OnlyMembers p₀ (p.withMembers key kvs) where
  rest := by
    rw [Request.withMembers, hp.rest]
  sorted := sorted_pushMembers hp.sorted
  keys := by
    have hkey : key ∈ p₀.mapQuery.map (·.1) := List.mem_map_of_mem (mem_of_lookup hquery)
    exact forall_mem_pushMembers (fun _ _ => hkey) hp.keys

end Serve

def rangeRule (h : Handler) (conf : UpstreamConf) (node : Redis.Node) (store : Redis.Store) (p₀ : Request)
    (hsorted : SortedMap.Sorted p₀.mapQuery)
    (hkeys : ∀ key ∈ p₀.mapQuery.map (·.1), 38 ∉ key ∧ (p₀.namespaces ++ key).length < 2 ^ 31)
    (hcommand : ∀ key, subCommand p₀ (keySub .zrangebyscore p₀.namespaces key) = .zrangebyscore) :
    OnceRule h conf node where
  keys := p₀.mapQuery.map (·.1)
  nodup := hsorted.nodup
  sub := keySub .zrangebyscore p₀.namespaces
  Cache _ := True
  Inv store' p := store' = store ∧ OnlyMembers p₀ p
  Before key _ p := (p.mapKv.lookup key).getD [] = []
  Done key _ p := RangeDone h node store p₀ key p
  Sent := RangeSent p₀
  send hmem _ hinv hsend := range_sent (hkeys _ hmem).1 (hkeys _ hmem).2 (hcommand _) hinv.2 hsend
  serve := by
    rintro key store₁ p shared stack built store₂ p' hmem ⟨rfl,hp⟩ hbefore hsent hserve
    obtain ⟨rfl,query,z,hquery,hz,rfl⟩ := range_served hp hsent hserve
    generalize hkvs : foundEntries h.proto node.numbers p₀.namespaces query.ws z = kvs
    have hlookup (k : Bytes) : ((p.withMembers key kvs).mapKv.lookup k).getD [] =
        (p.mapKv.lookup k).getD [] ++ if k = key then kvs else [] := lookup_pushMembers hp.sorted k
    refine ⟨⟨rfl,hp.withMembers hquery _⟩,⟨query,z,hquery,hz,?_⟩,?_⟩
    · rw [hlookup, hbefore, if_pos rfl, List.nil_append, hkvs]
    · intro other hother
      have hsame : ((p.withMembers key kvs).mapKv.lookup other).getD [] = (p.mapKv.lookup other).getD [] := by
        rw [hlookup, if_neg hother, List.append_nil]
      constructor
      · intro hnone
        rw [hsame, hnone]
      · rintro ⟨query',z',hquery',hz',hfound⟩
        exact ⟨query',z',hquery',hz',hsame.trans hfound⟩

end QkPack
