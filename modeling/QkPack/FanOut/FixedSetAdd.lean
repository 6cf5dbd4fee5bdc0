import QkPack.FanOut.MsetRound

/-!
# Adding members to a set

One script adds the members to the set, then their values are written slot by slot. The members are keys of
their own, in the same key space as the set.
-/

namespace QkPack
open Wire CString Resp Json

structure Member where
  name : Bytes
  value : Bytes
  score : Double
deriving DecidableEq

def requestedMembers (tree : Tree) : Option (Bytes × List Member) := do
  let key ← tree.getString "k"
  let mbs ← tree.getArray "mbs"
  let ms ← mbs.mapM fun mb => do
    return Member.mk (← mb.getString "mb") (← mb.getString "v") (← mb.getNumber "sc")
  return (key,ms)

def memberKvs (ms : List Member) : List KvPair := ms.map fun m => ⟨m.name,m.value,m.score,0⟩

section Body

variable {node : Option Tree} {r : Request}

theorem validateZSetMembers_ok {member value : Option Bytes} {score : Option Double}
    {m : Bytes × Bytes × Double} (h : validateZSetMembers member value score = .ok m) :
    member = some m.1 ∧ value = some m.2.1 ∧ m.2.1 ≠ [] ∧ score = some m.2.2 := by
  obtain ⟨name,hname,h⟩ := bind_eq_ok.mp h
  obtain ⟨v,hv,h⟩ := bind_eq_ok.mp h
  obtain ⟨d,hd,h⟩ := bind_eq_ok.mp h
  cases h
  exact ⟨validateString_ok hname,validateString_ok hv,validateString_ne_nil hv,validateNumber_ok hd⟩

theorem validateZSet_eq_ok {key : Option Bytes} {mbs : Option (List Tree)} {zset : Bytes × List Tree}
    (h : validateZSet key mbs = .ok zset) : key = some zset.1 ∧ mbs = some zset.2 ∧ zset.2 ≠ [] := by
  obtain ⟨k,hk,h⟩ := bind_eq_ok.mp h
  obtain ⟨values,hvalues,h⟩ := bind_eq_ok.mp h
  cases h
  obtain ⟨hsome,hne⟩ := validateArray_eq_ok hvalues
  exact ⟨validateString_ok hk,hsome,hne⟩

theorem readMembers_eq {key : Bytes} {mbs : List Tree} {request r : Request}
    (h : readMembers key mbs request = (.ok,r)) :
    ∃ ms, List.Forall₂ (fun mb m => mb.getString "mb" = some m.name ∧ mb.getString "v" = some m.value ∧
        m.value ≠ [] ∧ mb.getNumber "sc" = some m.score) mbs ms ∧
      r = { request with mapKv := pushMembers key (memberKvs ms) request.mapKv } := by
  obtain ⟨as,has,rfl⟩ := readEach_ok h
  refine ⟨as.map fun m => ⟨m.1,m.2.1,m.2.2⟩,?_,?_⟩
  · rw [List.forall₂_map_right_iff]
    exact (forall₂_of_mapM has).imp fun _ _ => validateZSetMembers_ok
  · rw [memberKvs, List.map_map]
    exact foldl_mapKv (fun m : Bytes × Bytes × Double => ⟨m.1,m.2.1,m.2.2,0⟩) as request

theorem readJsonZfixedsetAdd_ok (h : readJsonZfixedsetAdd node (Request.opened .zadd) = (.ok,r)) :
    ∃ tree uri key mbs namespaces, node = some tree ∧ 0 ∉ uri ∧ tree.getString "k" = some key ∧
      tree.getArray "mbs" = some mbs ∧ mbs ≠ [] ∧
      (¬ Filled uri ∧ r = { Request.opened .zadd with uri := uri, namespaces := namespaces } ∨
        Filled uri ∧ lastNamespaces uri = some namespaces ∧ ∃ ms,
          List.Forall₂ (fun mb m => mb.getString "mb" = some m.name ∧ mb.getString "v" = some m.value ∧
            m.value ≠ [] ∧ mb.getNumber "sc" = some m.score) mbs ms ∧
          r = { Request.opened .zadd with
            uri := uri
            namespaces := namespaces
            mapKv := [(key,memberKvs ms)]
            mapSlotsKv := pushSlots namespaces (memberKvs ms) [] }) := by
  obtain ⟨tree,uri,⟨key,mbs⟩,hnode,hacl,hzset,h⟩ := withAcl_ok h
  obtain ⟨hkey,hmbs,hne⟩ := validateZSet_eq_ok hzset
  have huri := nul_notMem_getString (validateACLInfo_ok hacl)
  rcases setLastNamespaces_cases { Request.opened .zadd with uri := uri } with
    ⟨namespaces,hlast,hfilled,heq⟩ | ⟨namespaces,hnot,heq⟩
  · refine ⟨tree,uri,key,mbs,namespaces,hnode,huri,hkey,hmbs,hne,.inr ⟨hfilled,hlast,?_⟩⟩
    rw [heq] at h
    simp only at h
    split at h
    · rename_i r' hread
      obtain ⟨ms,hms,rfl⟩ := readMembers_eq hread
      cases h
      refine ⟨ms,hms,?_⟩
      have hmembers : memberKvs ms ≠ [] := by
        intro hnil
        rw [List.map_eq_nil_iff.mp hnil, List.forall₂_nil_right_iff] at hms
        exact hne hms
      have hmap : pushMembers key (memberKvs ms) (Request.opened .zadd).mapKv = [(key,memberKvs ms)] :=
        pushMembers_nil hmembers
      simp only [hmap, List.lookup_cons_self, Option.getD_some]
      rfl
    · rename_i hnot
      exact absurd h (hnot r)
  · refine ⟨tree,uri,key,mbs,namespaces,hnode,huri,hkey,hmbs,hne,.inl ⟨hnot,?_⟩⟩
    rw [heq] at h
    cases h
    rfl

/-- A request to add members before the first call. -/
structure AddStarted (limit : Int) (key : Bytes) (ms : List Member) (r : Request) : Prop where
  command : r.commandType = .zadd
  phase : r.phase = .start
  code : r.code = .ok
  sets : r.mapKv = [(key,limitFirst limit (memberKvs ms))]
  slots : r.mapSlotsKv = pushSlots r.namespaces (memberKvs ms) []
  some : ms ≠ []
  few : 2 * ms.length < 2 ^ 31
  short : (r.namespaces ++ key).length < 2 ^ 31
  names : ∀ m ∈ ms, (r.namespaces ++ m.name).length < 2 ^ 31
  values : ∀ m ∈ ms, m.value ≠ [] ∧ 0 ∉ m.value ∧ m.value.length < clientMaxBodySize

theorem requestedMembers_of_read {tree : Tree} {key : Bytes} {mbs : List Tree} {ms : List Member}
    (hkey : tree.getString "k" = some key) (hmbs : tree.getArray "mbs" = some mbs)
    (hms : List.Forall₂ (fun mb m => mb.getString "mb" = some m.name ∧ mb.getString "v" = some m.value ∧
      m.value ≠ [] ∧ mb.getNumber "sc" = some m.score) mbs ms) :
    requestedMembers tree = some (key,ms) ∧ ms.length < tree.size ∧ key.length < tree.size ∧
      ∀ m ∈ ms, m.name.length < tree.size ∧ m.value ≠ [] ∧ 0 ∉ m.value ∧ m.value.length < tree.size := by
  have hall := Tree.size_getArray hmbs
  have hmap : (mbs.mapM fun mb => do
      return Member.mk (← mb.getString "mb") (← mb.getString "v") (← mb.getNumber "sc")) = some ms := by
    apply mapM_of_forall₂ (hms.imp ?_)
    rintro mb m ⟨hname,hvalue,-,hscore⟩
    rw [hname, hvalue, hscore]
    rfl
  refine ⟨?_,?_,Tree.size_getString hkey,?_⟩
  · rw [requestedMembers, hkey, hmbs]
    simp only [Option.bind_eq_bind, Option.bind_some] at hmap ⊢
    rw [hmap]
    rfl
  · have hcount := Tree.length_le_sizeAll mbs
    rw [← hms.length_eq]
    omega
  · intro m hm
    obtain ⟨i,hi,rfl⟩ := List.getElem_of_mem hm
    have hlen : i < mbs.length := by rw [hms.length_eq]; exact hi
    obtain ⟨hname,hvalue,hne,-⟩ := hms.get hlen hi
    have hmb := Tree.size_le_sizeAll (List.getElem_mem hlen)
    have hname' := Tree.size_getString hname
    have hvalue' := Tree.size_getString hvalue
    simp only [List.get_eq_getElem] at hname' hvalue'
    exact ⟨by omega,hne,nul_notMem_getString hvalue,by omega⟩

theorem AddStarted.pairsFit {limit : Int} {key : Bytes} {ms : List Member} (hr : AddStarted limit key ms r)
    (lib : SnappyLib) : PairsFit lib r := by
  apply pairsFit_of_vector hr.slots
  · intro kv hkv
    obtain ⟨m,hm,rfl⟩ := List.mem_map.mp hkv
    exact hr.names m hm
  · intro kv hkv threshold
    obtain ⟨m,hm,rfl⟩ := List.mem_map.mp hkv
    obtain ⟨hvalue,hnul,hsize⟩ := hr.values m hm
    exact stored_length_lt hvalue hnul hsize.le
  · have hfew := hr.few
    rw [memberKvs, List.length_map]
    omega

theorem createParent_zadd {tree : Tree} {a : Acl} {refusal : Option Bytes}
    (hcreate : createParent .zadd (some tree) (some a) refusal = (.ok,r)) (hsets : r.mapKv ≠ [])
    (hbody : tree.size ≤ clientMaxBodySize) :
    ∃ key ms policy, requestedMembers tree = some (key,ms) ∧ a.policies.find? (·.covers key) = some policy ∧
      AddStarted policy.limit key ms r := by
  obtain ⟨_,r₀,⟨⟩,haccepted,hlimit⟩ := createParent_ok hcreate
  obtain ⟨r₁,r₂,hread,hname,hcluster⟩ := acceptedRequest_eq_some haccepted
  obtain ⟨clusterName,rfl⟩ := setClusterName_ok hcluster
  obtain ⟨_,uri,key,mbs,namespaces,⟨⟩,huri,hkey,hmbs,hne,⟨-,rfl⟩ | ⟨hfilled,hlast,ms,hms,rfl⟩⟩ :=
    readJsonZfixedsetAdd_ok hread
  · -- nothing has been read
    obtain ⟨pre,s,-,-,-,rfl⟩ := setNameSpace_ok huri hname
    obtain ⟨mapKv,rfl,hkeys⟩ := getZsetLimit_ok hlimit
    exact absurd (List.map_eq_nil_iff.mp hkeys) hsets
  · have hsame := setNameSpace_last huri hname hfilled hlast
    obtain ⟨pre,s,-,-,hlen,rfl⟩ := setNameSpace_ok huri hname
    simp only at hsame
    subst hsame
    obtain ⟨hmembers,hcount,hkeylen,hall⟩ := requestedMembers_of_read hkey hmbs hms
    obtain ⟨mapKv,hset,rfl⟩ := limitSets_ok hlimit
    have hone : ∃ policy, a.policies.find? (·.covers key) = some policy ∧
        mapKv = [(key,limitFirst policy.limit (memberKvs ms))] := setLimits_one hset
    obtain ⟨policy,hfind,rfl⟩ := hone
    have hlong {t : Bytes} (ht : t.length < tree.size) : (s ++ t).length < 2 ^ 31 := by
      rw [clientMaxBodySize] at hbody
      rw [List.length_append, hlen]
      omega
    have hfew : 2 * ms.length < 2 ^ 31 := by
      rw [clientMaxBodySize] at hbody
      omega
    refine ⟨key,ms,policy,hmembers,hfind,rfl,rfl,rfl,rfl,rfl,?_,hfew,hlong hkeylen,?_,?_⟩
    · rintro rfl
      exact hne (List.forall₂_nil_right_iff.mp hms)
    · intro m hm
      exact hlong (hall m hm).1
    · intro m hm
      obtain ⟨-,hvalue,hnul,hsize⟩ := hall m hm
      exact ⟨hvalue,hnul,hsize.trans_le hbody⟩

end Body

def addedPairs (namespaces : Bytes) (ms : List Member) : List (Bytes × Bytes) :=
  ms.map fun m => ((Arg.score m.score).sent,namespaces ++ m.name)

/-- The sub-request that adds the members on its way. -/
structure AddSent (node : Redis.Node) (limit : Int) (key : Bytes) (ms : List Member) (p built : Request) : Prop where
  code : built.code = .ok
  ampersand : 38 ∉ key
  parsed : ∃ sha, Knows node .addZset sha ∧ parseCommand built.protoStr = some (evalsha :: sha :: decimal 1 ::
    ([p.namespaces ++ key] ++ toString32 limit :: toString32 p.exptime :: decimal ms.length ::
      (addedPairs p.namespaces ms).flatMap fun m => [m.1,m.2]),[])

section Send

variable {h : Handler} {conf : UpstreamConf} {node : Redis.Node} {shared : Shared} {nodeIp : Bytes}
  {p built : Request} {limit : Int} {key : Bytes} {ms : List Member}

theorem limitFirst_args (namespaces : Bytes) (ms : List Member) :
    (limitFirst limit (memberKvs ms)).flatMap (fun kv => [Arg.score kv.score,.bytes (namespaces ++ kv.key)]) =
      ms.flatMap fun m => [Arg.score m.score,.bytes (namespaces ++ m.name)] := by
  cases ms with
  | nil => rfl
  | cons m ms =>
    rw [memberKvs, List.map_cons, limitFirst, List.modifyHead_cons, List.flatMap_cons, List.flatMap_cons,
      List.flatMap_map]

theorem add_sent (hproto : Registers node h.proto) (hcache : Registered node shared.scripts)
    (hcommand : p.commandType = .zadd) (hsets : p.mapKv = [(key,limitFirst limit (memberKvs ms))])
    (hsome : ms ≠ []) (hfew : ms.length < 2 ^ 31) (hshort : (p.namespaces ++ key).length < 2 ^ 31)
    (hnames : ∀ m ∈ ms, (p.namespaces ++ m.name).length < 2 ^ 31)
    (hsend : sendSub h conf shared nodeIp p (keySub .zadd p.namespaces key) = some built) :
    AddSent node limit key ms p built := by
  obtain ⟨request,ip,hinit,hs⟩ := sendSub_sentAs hsend
  have hzadd : subCommand p (keySub .zadd p.namespaces key) = .zadd := by
    rw [subCommand, hcommand]
    rfl
  rw [hzadd] at hs
  have hkey := qkupstreamInit_key hinit
  have hokey : (SubRequest.opened conf p (keySub .zadd p.namespaces key) ip h.memory request).key =
      key.takeWhile (· ≠ 38) :=
    hkey
  generalize SubRequest.opened conf p (keySub .zadd p.namespaces key) ip h.memory request = opened at hs hokey
  have hknows := encode_zadd_knows hproto hcache hs.fresh hs.opens hs.encoded
  obtain ⟨argv,hargs,hparse⟩ := (hs.sends (by decide)).parsed_cut hs.encoded
  generalize (redisProtoEncode h.proto shared.scripts (some p) opened).2 = cache at hknows hargs
  simp only [commandArgs, if_neg hs.not_code, hs.opens, zaddArgs, Option.bind_eq_bind, Option.bind_some, hokey, hsets,
    SortedMap.lookup_cons_ite, List.lookup_nil, Option.bind_eq_some_iff] at hargs
  obtain ⟨kvs,hkvs,first,hfirst,hargs⟩ := hargs
  split at hkvs
  · rename_i hwhole
    cases hkvs
    cases hargs
    refine ⟨hs.code,(takeWhile_eq_self_iff key).mp hwhole,_,hknows,?_⟩
    have hlimit : first.limit = limit := by
      obtain ⟨m,ms,rfl⟩ := List.exists_cons_of_ne_nil hsome
      cases hfirst
      rfl
    have hcount : (limitFirst limit (memberKvs ms)).length = ms.length := by
      rw [limitFirst, List.length_modifyHead, memberKvs, List.length_map]
    have hnumber (n : Int) : cutArg (toString32 n) = toString32 n :=
      cutArg_short ((toString32_length_le n).trans_lt (by decide))
    have hmembers : (ms.flatMap fun m => [Arg.score m.score,.bytes (p.namespaces ++ m.name)]).map
        (fun arg => cutArg arg.sent) = (addedPairs p.namespaces ms).flatMap fun m => [m.1,m.2] := by
      rw [addedPairs, List.flatMap_map, List.map_flatMap]
      apply List.flatMap_congr
      intro m hm
      have hname : cutArg (Arg.bytes (p.namespaces ++ m.name)).sent = p.namespaces ++ m.name :=
        cutArg_short (hnames m hm)
      rw [List.map_cons, List.map_singleton, cutArg_short (score_sent_short m.score), hname]
    have hsha : cutArg (Arg.bytes (cache opened.nodeIp .addZset)).sent = cache opened.nodeIp .addZset :=
      cutArg_short (hknows.1.trans_lt (by decide))
    have hset : cutArg (Arg.bytes (p.namespaces ++ key)).sent = p.namespaces ++ key := cutArg_short hshort
    have hn : cutArg (Arg.count ms.length).sent = decimal ms.length := by
      rw [Arg.sent, hnumber, toString32_natCast hfew]
    have hone : cutArg (Arg.bytes (text "1")).sent = decimal 1 := by
      rw [Arg.sent, cutArg_short (by decide)]
      decide
    have hname : cutArg (Arg.bytes evalsha).sent = evalsha := cutArg_short (by decide)
    rw [hparse, hlimit, hcount, limitFirst_args, hwhole, evalshaArgs, List.cons_append, List.cons_append,
      List.cons_append, List.cons_append, List.cons_append, List.nil_append]
    simp only [List.map_cons, hmembers, hsha, hset, hn, hone, hname, List.cons_append, List.nil_append]
    rw [Arg.sent, hnumber, Arg.sent, hnumber]
  · cases hkvs

end Send

structure AddDone (node : Redis.Node) (key : Bytes) (ms : List Member) (p : Request) (store : Redis.Store) : Prop where
  ampersand : 38 ∉ key
  placed : ∃ placed z kept, List.Forall₂ (Placed node.numbers) (addedPairs p.namespaces ms) placed ∧ z.Perm placed ∧
    Redis.readInt (toString32 p.exptime) = some kept ∧
    (0 < kept → Redis.members store (p.namespaces ++ key) = some z)

section Serve

variable {h : Handler} {node : Redis.Node} {shared : Shared} {stack : Nat → Bytes}
  {store store' : Redis.Store} {p p' built : Request} {limit : Int} {key : Bytes} {ms : List Member}

theorem readInt_toString32 {n : Int} (hl : -2 ^ 31 ≤ n) (hu : n < 2 ^ 31) : Redis.readInt (toString32 n) = some n := by
  rw [(toString32_eq_iff n).mpr ⟨hl,hu⟩, Redis.readInt_intText]

theorem addedPairs_nodup (namespaces : Bytes) (hnodup : (ms.map Member.name).Nodup) :
    ((addedPairs namespaces ms).map (·.2)).Nodup := by
  have hnames : (addedPairs namespaces ms).map (·.2) = (ms.map Member.name).map (namespaces ++ ·) := by
    rw [addedPairs, List.map_map, List.map_map]
    rfl
  rw [hnames]
  exact hnodup.map (List.append_right_injective namespaces)

theorem add_served (hsent : AddSent node limit key ms p built) (hfew : (ms.length : Int) ≤ limit)
    (hlimit : limit < 2 ^ 31) (hnodup : (ms.map Member.name).Nodup) (hempty : store (p.namespaces ++ key) = none)
    (hserve : serveSub h node shared stack store p built = some (store',p')) :
    p' = p ∧ AddDone node key ms p store' ∧ ∀ other, other ≠ p.namespaces ++ key → store' other = store other := by
  obtain ⟨argv,reply,hparse,hexec,d,hdecode,-,hparent⟩ := serveSub_eq_some hserve
  obtain ⟨sha,hknows,hargv⟩ := hsent.parsed
  rw [hargv, Option.some.injEq, Prod.mk.injEq] at hparse
  obtain ⟨rfl,-⟩ := hparse
  have hone : 1 = [p.namespaces ++ key].length := rfl
  rw [exec_evalsha hknows.2 hone] at hexec
  have hcount : (addedPairs p.namespaces ms).length = ms.length := by
    rw [addedPairs, List.length_map]
  obtain ⟨rfl,placed,z,kept,hplaced,hperm,hkept,hz,hother⟩ := addZSetScript_new
    (readInt_toString32 (by omega) hlimit) ((Redis.readNat_decimal _).trans (congrArg some hcount.symm)) hempty
    (hcount ▸ hfew) (addedPairs_nodup p.namespaces hnodup) hexec
  refine ⟨?_,⟨hsent.ampersand,placed,z,kept,hplaced,hperm,hkept,hz⟩,hother⟩
  rw [← hparent, redisProtoDecode_bulk hdecode rfl hsent.code]
  rfl

end Serve

def addRule (h : Handler) (conf : UpstreamConf) (node : Redis.Node) (p : Request) (limit : Int) (key : Bytes)
    (ms : List Member) (hproto : Registers node h.proto) (hcommand : p.commandType = .zadd)
    (hsets : p.mapKv = [(key,limitFirst limit (memberKvs ms))]) (hsome : ms ≠ [])
    (hfew : (ms.length : Int) ≤ limit ∧ limit < 2 ^ 31) (hnodup : (ms.map Member.name).Nodup)
    (hshort : (p.namespaces ++ key).length < 2 ^ 31)
    (hnames : ∀ m ∈ ms, (p.namespaces ++ m.name).length < 2 ^ 31) : OnceRule h conf node where
  keys := [key]
  nodup := List.nodup_singleton key
  sub := keySub .zadd p.namespaces
  Cache := Registered node
  Inv store q := q = p ∧ ∀ other, other ≠ p.namespaces ++ key → store other = none
  Before other store _ := other = key → store (p.namespaces ++ key) = none
  Done other store _ := other = key → AddDone node key ms p store
  Sent _ := AddSent node limit key ms p
  send := by
    rintro other store q shared nodeIp built hmem hcache ⟨rfl,-⟩ hsend
    rw [List.mem_singleton.mp hmem] at hsend
    exact add_sent hproto hcache hcommand hsets hsome (by omega) hshort hnames hsend
  serve := by
    rintro other store q shared stack built store' q' hmem ⟨rfl,houtside⟩ hbefore hsent hserve
    have hkey := List.mem_singleton.mp hmem
    obtain ⟨rfl,hdone,hsame⟩ := add_served hsent hfew.1 hfew.2 hnodup (hbefore hkey) hserve
    refine ⟨⟨rfl,?_⟩,fun _ => hdone,?_⟩
    · intro other hother
      rw [hsame other hother, houtside other hother]
    · intro other hother
      -- there is only one key
      exact ⟨fun _ hk => absurd (hk.trans hkey.symm) hother,fun _ hk => absurd (hk.trans hkey.symm) hother⟩

section Runs

variable {h : Handler} {limits : Limits} {conf : UpstreamConf} {node : Redis.Node} {r : Request} {limit : Int}
  {key : Bytes} {ms : List Member}

/-- A request whose sub-request is never sent, since a round has room for none. -/
structure Stalled (d : Delivery) : Prop where
  command : d.parent.request.commandType = .zadd
  code : d.parent.request.code = .ok
  phase : d.parent.request.phase = .mset ∨ d.parent.request.phase = .zfixedsetBatchadd
  rest : d.parent.vectorSub ≠ []
  flights : d.flights = []

theorem Stalled.no_flights {d d' : Delivery} (hd : Stalled d) {e : DeliveryEvent} (he : e ≠ .post) :
    deliveryStep h limits conf node d e ≠ some d' := by
  intro hstep
  cases e with
  | send i shared nodeIp => simp [deliveryStep, hd.flights] at hstep
  | serve i shared stack => simp [deliveryStep, hd.flights] at hstep
  | post => exact he rfl

theorem Stalled.call {d : Delivery} (hd : Stalled d) {rc : QkpackRc} {p : Parent}
    (hcreate : createSubRequestBody h limits d.parent = (rc,p)) :
    rc = .error ∨ rc = .again ∧ Stalled { d with parent := p, flights := p.subrequest.map .waiting } := by
  have hbody : createSubRequestBody h limits d.parent = createSubRequestZfixedsetAdd h limits d.parent := by
    simp only [createSubRequestBody, hd.code, hd.command, ne_eq, not_true_eq_false, if_false]
  rw [hbody] at hcreate
  rcases hd.phase with hphase | hphase
  · rw [createSubRequestZfixedsetAdd_rest h limits hphase hd.code hd.rest] at hcreate
    cases hcreate
    exact .inr ⟨rfl,hd.command,hd.code,.inr rfl,hd.rest,rfl⟩
  · left
    simp [createSubRequestZfixedsetAdd, createSubRequestMset, processMset, hphase] at hcreate
    exact hcreate.1.symm

variable (h) (conf) (node) in
def addRound (hr : AddStarted limit key ms r) (hproto : Registers node h.proto)
    (hfew : (ms.length : Int) ≤ limit ∧ limit < 2 ^ 31) (hnodup : (ms.map Member.name).Nodup) : OnceRule h conf node :=
  addRule h conf node { r with phase := .mset } limit key ms hproto hr.command hr.sets hr.some hfew hnodup hr.short
    hr.names

theorem AddStarted.slots_ne_nil (hr : AddStarted limit key ms r) : r.mapSlotsKv ≠ [] := by
  rw [hr.slots]
  apply pushSlots_ne_nil
  rw [memberKvs, ne_eq, List.map_eq_nil_iff]
  exact hr.some

theorem addRound_call {hr : AddStarted limit key ms r} {hproto : Registers node h.proto}
    {hfew : (ms.length : Int) ≤ limit ∧ limit < 2 ^ 31} {hnodup : (ms.map Member.name).Nodup} {d : Delivery}
    (hd : (addRound h conf node hr hproto hfew hnodup).Holds d) (hvector : d.parent.vectorSub = [])
    (hall : d.flights.all Flight.isAnswered = true) :
    AddDone node key ms r d.store ∧ (∀ other, other ≠ r.namespaces ++ key → d.store other = none) ∧
      createSubRequestBody h limits d.parent =
        (.again,(⟨r,[],[]⟩ : Parent).sent limits.msetMaxCount .done ((⟨r,[],[]⟩ : Parent).slotSubs .mset)) := by
  obtain ⟨hrequest,houtside⟩ := hd.inv
  have hdone : AddDone node key ms { r with phase := .mset } d.store :=
    hd.all_done hall key (List.mem_singleton.mpr rfl) rfl
  refine ⟨⟨hdone.ampersand,hdone.placed⟩,houtside,?_⟩
  have hslots : d.parent.slotSubs .mset = (⟨r,[],[]⟩ : Parent).slotSubs .mset := by
    rw [Parent.slotSubs, hrequest]
    rfl
  have hne : d.parent.slotSubs .mset ≠ [] := by
    rw [hslots]
    exact slotSubs_ne_nil hr.slots_ne_nil .mset
  rw [create_zset_last (.inl ?_) ?_ ?_ hvector hne, hslots]
  · simp only [Parent.sent, hrequest]
  · rw [hrequest]
    exact hr.command
  · rw [hrequest]
    exact hr.code
  · rw [hrequest]

theorem sets_of_delivered {store : Redis.Store} (hcommand : r.commandType = .zadd) (hcode : r.code = .ok)
    (hphase : r.phase = .start) {es : List DeliveryEvent} {d : Delivery}
    (hrun : Machine.run (deliveryStep h limits conf node) (Delivery.start r store) es = some d)
    (hfinal : d.final = some .ok) : r.mapKv ≠ [] := by
  intro hnone
  have hkeys : (Delivery.start r store).parent.keySubs = [] := by
    rw [Parent.keySubs, Delivery.start, hnone, List.map_nil]
  have herror : (createSubRequestBody h limits (Delivery.start r store).parent).1 = .error :=
    create_zset_empty (.inl hcommand) hcode hphase rfl hkeys
  refine delivered_ok (J := fun d => d = Delivery.start r store) (P := fun _ => True) (Q := fun _ _ => False)
    ?_ ?_ ?_ rfl rfl (fun _ _ => trivial) hrun hfinal
  · rintro d e d' rfl he - hstep
    exact absurd hstep (start_no_flights he)
  · rintro d p rfl - hagain
    rw [hagain] at herror
    cases herror
  · rintro d rc p rfl - hend - hrc
    rw [hend] at herror
    exact hrc herror

def storingParent (r : Request) : Parent := ⟨{ r with phase := .done },[],[]⟩

theorem AddStarted.storing_writes (hr : AddStarted limit key ms r) : (storingParent r).request.commandType.Writes :=
  .inr (.inl hr.command)

theorem AddStarted.create_first (hr : AddStarted limit key ms r) (store : Redis.Store) :
    createSubRequestBody h limits (Delivery.start r store).parent =
      (.again,(Delivery.start r store).parent.sent limits.batchaddMaxCount .mset [keySub .zadd r.namespaces key]) := by
  have hkeys : (Delivery.start r store).parent.keySubs = [keySub .zadd r.namespaces key] := by
    rw [Parent.keySubs, Delivery.start, hr.sets]
    rfl
  rw [← hkeys]
  apply create_zset_first (.inl hr.command) hr.code hr.phase rfl
  rw [hkeys]
  exact List.cons_ne_nil _ _

/-- How far a request that starts with an empty key space has come: the members, and then their values. -/
inductive AddUnderWay (h : Handler) (conf : UpstreamConf) (node : Redis.Node) (hr : AddStarted limit key ms r)
    (hproto : Registers node h.proto) (hfew : (ms.length : Int) ≤ limit ∧ limit < 2 ^ 31)
    (hnodup : (ms.map Member.name).Nodup) (d : Delivery) : Prop
  | start (hd : d = Delivery.start r fun _ => none)
  | stalled (hd : Stalled d)
  | adding (hd : (addRound h conf node hr hproto hfew hnodup).Holds d) (hvector : d.parent.vectorSub = [])
  | storing (store : Redis.Store) (hdone : AddDone node key ms r store)
      (houtside : ∀ other, other ≠ r.namespaces ++ key → store other = none)
      (hd : MsetUnderWay h conf node store (storingParent r).request ((storingParent r).slotSubs .mset) d)

section UnderWay

variable {hr : AddStarted limit key ms r} {hproto : Registers node h.proto}
  {hfew : (ms.length : Int) ≤ limit ∧ limit < 2 ^ 31} {hnodup : (ms.map Member.name).Nodup} {d : Delivery}

theorem AddUnderWay.step {e : DeliveryEvent} {d' : Delivery} (hd : AddUnderWay h conf node hr hproto hfew hnodup d)
    (he : e ≠ .post) (hcache : e.SentWith (Registered node)) (hstep : deliveryStep h limits conf node d e = some d') :
    AddUnderWay h conf node hr hproto hfew hnodup d' := by
  cases hd with
  | start hd =>
    subst hd
    exact absurd hstep (start_no_flights he)
  | stalled hd => exact absurd hstep (hd.no_flights he)
  | adding hd hvector =>
    obtain ⟨hholds,hsame⟩ := hd.step he hcache hstep
    exact .adding hholds (hsame.trans hvector)
  | storing store hdone houtside hd => exact .storing store hdone houtside (hd.step he hcache hstep)

theorem AddUnderWay.again {p : Parent} (hd : AddUnderWay h conf node hr hproto hfew hnodup d)
    (hall : d.flights.all Flight.isAnswered = true) (hagain : createSubRequestBody h limits d.parent = (.again,p)) :
    AddUnderWay h conf node hr hproto hfew hnodup { d with parent := p, flights := p.subrequest.map .waiting } := by
  cases hd with
  | start hd =>
    subst hd
    cases (hr.create_first _).symm.trans hagain
    cases hcount : limits.batchaddMaxCount with
    | zero => exact .stalled ⟨hr.command,hr.code,.inl rfl,List.cons_ne_nil _ _,rfl⟩
    | succ n =>
      refine .adding (OnceRule.holds_of_waiting ⟨rfl,fun _ _ => rfl⟩ (fun _ _ _ => rfl) ?_) ?_
      · simp [Parent.sent, addRound, addRule]
      · simp [Parent.sent]
  | stalled hd =>
    rcases hd.call hagain with herror | ⟨-,hstalled⟩
    · cases herror
    · exact .stalled hstalled
  | adding hd hvector =>
    obtain ⟨hdone,houtside,hcall⟩ := addRound_call hd hvector hall
    cases hcall.symm.trans hagain
    have hr' := hr.pairsFit h.proto.compress
    have hfit : PairsFit h.proto.compress (storingParent r).request := ⟨hr'.slot,hr'.key,hr'.value,hr'.few⟩
    have hcommand : ∀ sub ∈ (storingParent r).slotSubs .mset, subCommand (storingParent r).request sub = .mset := by
      intro sub hsub
      obtain ⟨slot,-,rfl⟩ := List.mem_map.mp hsub
      simp only [subCommand, storingParent, hr.command]
      rfl
    refine .storing d.store hdone houtside ?_
    exact msetUnderWay_of_waiting hproto hfit hcommand [] _
      (List.take_append_drop limits.msetMaxCount _).symm (List.forall_mem_nil _) rfl (fun _ _ => rfl) rfl
  | storing store hdone houtside hd =>
    exact .storing store hdone houtside (hd.again hr.storing_writes rfl hall hagain)

theorem AddUnderWay.over {rc : QkpackRc} {p : Parent} (hd : AddUnderWay h conf node hr hproto hfew hnodup d)
    (hall : d.flights.all Flight.isAnswered = true) (hend : createSubRequestBody h limits d.parent = (rc,p))
    (hrc : rc ≠ .again) (herror : rc ≠ .error) :
    ∃ store, AddDone node key ms r store ∧ (∀ other, other ≠ r.namespaces ++ key → store other = none) ∧
      Redis.setAll (toString32 r.exptime) (storedPairs h r.namespaces (memberKvs ms)) store = some d.store := by
  cases hd with
  | start hd =>
    subst hd
    cases (hr.create_first _).symm.trans hend
    exact absurd rfl hrc
  | stalled hd =>
    rcases hd.call hend with h | ⟨h,-⟩
    · exact absurd h herror
    · exact absurd h hrc
  | adding hd hvector =>
    obtain ⟨-,-,hcall⟩ := addRound_call hd hvector hall
    cases hcall.symm.trans hend
    exact absurd rfl hrc
  | storing store hdone houtside hd =>
    obtain ⟨hwritten,hkeep⟩ := hd.over hr.storing_writes rfl hall hend hrc herror
    exact ⟨store,hdone,houtside,setAll_of_done (p := storingParent r) hr.slots hwritten hkeep⟩

end UnderWay

theorem added_delivered (hr : AddStarted limit key ms r) (hproto : Registers node h.proto)
    (hfew : (ms.length : Int) ≤ limit ∧ limit < 2 ^ 31) (hnodup : (ms.map Member.name).Nodup)
    {es : List DeliveryEvent} (hcaches : ∀ e ∈ es, e.SentWith (Registered node)) {d : Delivery}
    (hrun : Machine.run (deliveryStep h limits conf node) (Delivery.start r fun _ => none) es = some d)
    (hfinal : d.final = some .ok) :
    ∃ store, AddDone node key ms r store ∧ (∀ other, other ≠ r.namespaces ++ key → store other = none) ∧
      Redis.setAll (toString32 r.exptime) (storedPairs h r.namespaces (memberKvs ms)) store = some d.store :=
  delivered_ok (J := AddUnderWay h conf node hr hproto hfew hnodup)
    (Q := fun store' _ => ∃ store, AddDone node key ms r store ∧
      (∀ other, other ≠ r.namespaces ++ key → store other = none) ∧
      Redis.setAll (toString32 r.exptime) (storedPairs h r.namespaces (memberKvs ms)) store = some store')
    AddUnderWay.step AddUnderWay.again AddUnderWay.over (.start rfl) rfl hcaches hrun hfinal

end Runs

/-- The store after members have been added to an empty key space: every member has its value, and they are in the set
unless one of them is the set itself. -/
structure Added (h : Handler) (numbers : Redis.Numbers) (namespaces key : Bytes) (ms : List Member)
    (store : Redis.Store) : Prop where
  ampersand : 38 ∉ key
  value : ∀ m ∈ ms, ∃ b : Bulk, Redis.mgetElem store (namespaces ++ m.name) = some b ∧
    b.bytes = stored h.proto.compress m.value (h.memory (keyHashSlot (namespaces ++ m.name)))
  members : key ∉ ms.map Member.name → ∃ placed z, List.Forall₂ (Placed numbers) (addedPairs namespaces ms) placed ∧
    z.Perm placed ∧ Redis.members store (namespaces ++ key) = some z

section Store

variable {h : Handler} {node : Redis.Node} {r : Request} {key : Bytes} {ms : List Member}
  {store store' : Redis.Store}

theorem AddDone.added (hdone : AddDone node key ms r store) (hsome : ms ≠ []) (hnodup : (ms.map Member.name).Nodup)
    (hset : Redis.setAll (toString32 r.exptime) (storedPairs h r.namespaces (memberKvs ms)) store = some store') :
    Added h node.numbers r.namespaces key ms store' := by
  have hkeys : (storedPairs h r.namespaces (memberKvs ms)).map (·.1) =
      (ms.map Member.name).map (r.namespaces ++ ·) := by
    rw [storedPairs, memberKvs, List.map_map, List.map_map, List.map_map]
    rfl
  have hentry : ∀ m ∈ ms, ∃ n b, Redis.readInt (toString32 r.exptime) = some n ∧ 0 < n ∧
      Redis.bulk? (stored h.proto.compress m.value (h.memory (keyHashSlot (r.namespaces ++ m.name)))) = some b ∧
      store' (r.namespaces ++ m.name) = some ⟨.string b,some n⟩ := by
    intro m hm
    have hpair : (r.namespaces ++ m.name,
        stored h.proto.compress m.value (h.memory (keyHashSlot (r.namespaces ++ m.name)))) ∈
          storedPairs h r.namespaces (memberKvs ms) :=
      List.mem_map.mpr ⟨_,List.mem_map_of_mem hm,rfl⟩
    generalize stored h.proto.compress m.value _ = value at hpair ⊢
    obtain ⟨entry,hentry,hstore⟩ := Redis.setAll_get hset (by
      rw [hkeys]
      exact hnodup.map (List.append_right_injective r.namespaces)) hpair
    obtain ⟨n,b,hn,hpos,hb,rfl⟩ := Redis.setEntry_some hentry
    exact ⟨n,b,hn,hpos,hb,hstore⟩
  refine ⟨hdone.ampersand,?_,?_⟩
  · intro m hm
    obtain ⟨n,b,-,-,hb,hstore⟩ := hentry m hm
    refine ⟨b,?_,bulk?_bytes hb⟩
    rw [Redis.mgetElem, hstore]
  · intro hkey
    obtain ⟨m,hm⟩ := List.exists_mem_of_ne_nil ms hsome
    obtain ⟨n,b,hn,hpos,-,-⟩ := hentry m hm
    obtain ⟨placed,z,kept,hplaced,hperm,hkept,hz⟩ := hdone.placed
    cases hn.symm.trans hkept
    refine ⟨placed,z,hplaced,hperm,?_⟩
    -- no value has been written over the set
    have hsame : store' (r.namespaces ++ key) = store (r.namespaces ++ key) := by
      apply Redis.setAll_other hset
      rw [hkeys, List.mem_map_of_injective (List.append_right_injective r.namespaces)]
      exact hkey
    rw [← hz hpos, Redis.members, Redis.members, hsame]

/-- A member that is the set itself has taken its place. -/
theorem Added.replaced {numbers : Redis.Numbers} {namespaces : Bytes} (h : Added proto numbers namespaces key ms store)
    (hkey : key ∈ ms.map Member.name) : Redis.members store (namespaces ++ key) = none := by
  obtain ⟨m,hm,rfl⟩ := List.mem_map.mp hkey
  obtain ⟨b,hb,-⟩ := h.value m hm
  unfold Redis.mgetElem at hb
  split at hb
  · rename_i hstore
    rw [Redis.members, hstore]
  · cases hb

end Store

end QkPack
