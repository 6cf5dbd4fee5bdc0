import QkPack.Core.Exchange

/-!
# Commands on single keys as they are sent

The arguments that the encoders build for each command on a single key: the key has the namespace of its tenant in
front, values and members have the form `CompressValue` gives them, and counters and additions to sets go to scripts,
whose hashes are fetched when they are not known.
-/

namespace QkPack
open Wire CString Resp KeyServer

/-- The hashes of the scripts, under which the loader and the server know them. -/
structure Scripted (proto : RedisProto) (server : Server) (lua : Lua) (shas : QkPack.Script → Bytes) : Prop where
  loads : ∀ ip script, proto.initClusterScript ip script = some (shas script)
  named : ∀ script, shas script ≠ [] ∧ (shas script).length < 2 ^ 31
  incrby : server.scripts (shas .incrby) = some (incrByScript lua)
  addRset : server.scripts (shas .addRset) = some (addRSetScript lua)

def CacheOf (shas : QkPack.Script → Bytes) (cache : ScriptCache) : Prop :=
  ∀ ip script, cache ip script = [] ∨ cache ip script = shas script

section Loading

variable {proto : RedisProto} {server : Server} {lua : Lua} {shas : QkPack.Script → Bytes} {cache : ScriptCache}

theorem Scripted.loadScripts (hs : Scripted proto server lua shas) (hcache : CacheOf shas cache) (ip : Bytes)
    (list : List QkPack.Script) : ∃ cache', QkPack.loadScripts proto ip list cache = (.ok,cache') ∧
      CacheOf shas cache' ∧ (∀ script, cache ip script = shas script → cache' ip script = shas script) ∧
        ∀ script ∈ list, cache' ip script = shas script := by
  induction list generalizing cache with
  | nil => exact ⟨cache,rfl,hcache,fun _ => id,nofun⟩
  | cons script rest ih =>
    rw [QkPack.loadScripts]
    by_cases hmissing : cache ip script = []
    · -- the hash is fetched and noted
      rw [if_pos hmissing, hs.loads]
      let loaded : ScriptCache := fun ip' s => if ip' = ip ∧ s = script then shas script else cache ip' s
      have hloaded : CacheOf shas loaded := by
        intro ip' s
        by_cases hsame : ip' = ip ∧ s = script
        · obtain ⟨rfl,rfl⟩ := hsame
          exact .inr (if_pos ⟨rfl,rfl⟩)
        · simpa only [loaded, if_neg hsame] using hcache ip' s
      obtain ⟨cache',hload,hcache',hkeeps,hrest⟩ := ih hloaded
      refine ⟨cache',hload,hcache',?_,?_⟩
      · intro s hknown
        apply hkeeps
        simp only [loaded]
        split
        · rename_i hsame
          rw [hsame.2]
        · exact hknown
      · intro s hmem
        rcases List.mem_cons.mp hmem with rfl | hmem
        · exact hkeeps s (if_pos ⟨rfl,rfl⟩)
        · exact hrest s hmem
    · rw [if_neg hmissing]
      obtain ⟨cache',hload,hcache',hkeeps,hrest⟩ := ih hcache
      refine ⟨cache',hload,hcache',hkeeps,?_⟩
      intro s hmem
      rcases List.mem_cons.mp hmem with rfl | hmem
      · exact hkeeps s ((hcache ip s).resolve_left hmissing)
      · exact hrest s hmem

theorem Scripted.withScript (hs : Scripted proto server lua shas) (hcache : CacheOf shas cache) (ip : Bytes)
    (script : QkPack.Script) (build : Bytes → Except EncodeFault Request) :
    ∃ cache', QkPack.withScript proto ip script cache build = (build (shas script),cache') ∧ CacheOf shas cache' := by
  obtain ⟨cache',hload,hcache',-,hall⟩ := hs.loadScripts hcache ip [.addMultikv,.addZset,.incrby,.addRset]
  refine ⟨cache',?_,hcache'⟩
  have hsha : cache' ip script = shas script := hall script (by cases script <;> decide)
  simp only [QkPack.withScript, redisProtoEncodeLoadScript, hload, hsha, if_neg (hs.named script).1]

end Loading

/-- A request of a client for one key of a tenant. -/
structure Addressed (request : Request) (ns key : Bytes) : Prop where
  unanswered : Unanswered request
  namespaces : request.namespaces = ns
  two : ns.length = 2
  named : request.key = key
  short : (ns ++ key).length < 2 ^ 31
  exptime : 0 < request.exptime ∧ request.exptime < 2 ^ 31

/-- The values of a command on a set, stored with the threshold `t`. -/
structure Members (t : Int) (request : Request) (vs : List Value) : Prop where
  mbs : request.vectorMbs = vs.map (·.bytes)
  plain : ∀ v ∈ vs, v.bytes ≠ snappyWord
  count : vs.length < 2 ^ 31
  threshold : request.compressThreshold = t

/-- The request is for this command. Sets are only kept by their stored members, so that the requests for the sets of a
tenant must have one threshold. -/
def TenantCommand.CarriedBy (t : Int) (request : Request) : TenantCommand → Prop
  | .get => request.commandType = .get
  | .set v => request.commandType = .set ∧ request.value = v.bytes ∧ v.bytes ≠ snappyWord
  | .del => request.commandType = .del
  | .incrBy n => (request.commandType = .incr ∨ request.commandType = .incrby) ∧ incrValue request = intText n
  | .sadd vs => request.commandType = .sadd ∧ Members t request vs
  | .srem vs => request.commandType = .srem ∧ Members t request vs ∧ vs ≠ []
  | .scard => request.commandType = .scard
  | .smembers => request.commandType = .smembers ∧ request.vectorMbs = []
  | .sismember v => request.commandType = .sismember ∧ request.value = v.bytes ∧ v.bytes ≠ snappyWord ∧
      request.compressThreshold = t

section Encoding

variable {proto : RedisProto} {server : Server} {lua : Lua} {shas : QkPack.Script → Bytes} {scripts : ScriptCache}
variable {request : Request} {ns key : Bytes} {t : Int}

theorem Addressed.nsKey (hr : Addressed request ns key) : request.nsKey = ns ++ key := by
  rw [Request.nsKey, hr.namespaces, hr.named]

theorem Addressed.seconds (hr : Addressed request ns key) :
    readNumber (toString32 request.exptime) = some request.exptime := by
  obtain ⟨hpos,hlt⟩ := hr.exptime
  rw [(toString32_eq_iff _).mpr (by omega), readNumber_intText (by omega) (by omega)]

theorem encodedAs_build (command : Bytes) (argc : Nat) {argv : List Bytes}
    (hencode : redisProtoEncode proto scripts none request =
      ({ request with command := command }.build argc argv,scripts)) (hargc : argc = argv.length)
    (hshort : ∀ arg ∈ argv, arg.length < 2 ^ 31) : EncodedAs proto scripts request argv scripts := by
  refine ⟨command,request.value,?_⟩
  rw [hencode, build_short _ hargc hshort]
  rfl

def plainCommands : List (CommandType × String) :=
  [(.get,"GET"),(.del,"DEL"),(.scard,"SCARD"),(.smembers,"SMEMBERS")]

theorem encodedAs_plain (hr : Addressed request ns key) {name : String}
    (hplain : (request.commandType,name) ∈ plainCommands) :
    EncodedAs proto scripts request [text name,ns ++ key] scripts := by
  have hkey : (request.named name).nsKey = ns ++ key := hr.nsKey
  simp only [plainCommands, List.mem_cons, Prod.mk.injEq, List.not_mem_nil, or_false] at hplain
  have hshort : (text name).length < 2 ^ 31 := by
    rcases hplain with ⟨-,rfl⟩ | ⟨-,rfl⟩ | ⟨-,rfl⟩ | ⟨-,rfl⟩ <;> decide
  have hencode : redisProtoEncode proto scripts none request =
      (redisProtoEncodeParamOne (request.named name),scripts) := by
    simp only [redisProtoEncode, hr.unanswered.code, ne_eq, not_true_eq_false, if_false]
    rcases hplain with ⟨hcommand,rfl⟩ | ⟨hcommand,rfl⟩ | ⟨hcommand,rfl⟩ | ⟨hcommand,rfl⟩ <;> rw [hcommand]
  rw [redisProtoEncodeParamOne, hkey] at hencode
  refine encodedAs_build (text name) 2 hencode rfl ?_
  simp only [List.forall_mem_cons, List.not_mem_nil, IsEmpty.forall_iff, implies_true, and_true]
  exact ⟨hshort,hr.short⟩

theorem encodedAs_set (hr : Addressed request ns key) {v : Value} (hcommand : request.commandType = .set)
    (hvalue : request.value = v.bytes) :
    EncodedAs proto scripts request [text "SETEX",ns ++ key,toString32 request.exptime,
      (storedBulk proto request.compressThreshold v).bytes] scripts := by
  have hkey : (request.named "SETEX").nsKey = ns ++ key := hr.nsKey
  have hencode : redisProtoEncode proto scripts none request =
      (redisProtoEncodeParamThree proto (request.named "SETEX"),scripts) := by
    simp only [redisProtoEncode, hr.unanswered.code, ne_eq, not_true_eq_false, if_false, hcommand]
  have hstored : proto.storedFor (request.named "SETEX") (request.named "SETEX").value =
      (storedBulk proto request.compressThreshold v).bytes := congrArg (proto.storedFor request) hvalue
  rw [redisProtoEncodeParamThree, hkey, hstored] at hencode
  refine encodedAs_build (text "SETEX") 4 hencode rfl ?_
  simp only [List.forall_mem_cons, List.not_mem_nil, IsEmpty.forall_iff, implies_true, and_true]
  exact ⟨by decide,hr.short,(toString32_length_le _).trans_lt (by norm_num),storedBulk_length _ _ _⟩

theorem encodedAs_sismember (hr : Addressed request ns key) {v : Value}
    (hcommand : request.commandType = .sismember) (hvalue : request.value = v.bytes) :
    EncodedAs proto scripts request [text "SISMEMBER",ns ++ key,
      (storedBulk proto request.compressThreshold v).bytes] scripts := by
  have hkey : (request.named "SISMEMBER").nsKey = ns ++ key := hr.nsKey
  have hencode : redisProtoEncode proto scripts none request =
      (redisProtoEncodeParamTwo proto (request.named "SISMEMBER"),scripts) := by
    simp only [redisProtoEncode, hr.unanswered.code, ne_eq, not_true_eq_false, if_false, hcommand]
  have hstored : proto.storedFor (request.named "SISMEMBER") (request.named "SISMEMBER").value =
      (storedBulk proto request.compressThreshold v).bytes := congrArg (proto.storedFor request) hvalue
  rw [redisProtoEncodeParamTwo, hkey, hstored] at hencode
  refine encodedAs_build (text "SISMEMBER") 3 hencode rfl ?_
  simp only [List.forall_mem_cons, List.not_mem_nil, IsEmpty.forall_iff, implies_true, and_true]
  exact ⟨by decide,hr.short,storedBulk_length _ _ _⟩

section SetMembers

variable {vs : List Value}

theorem Members.stored (hm : Members t request vs) (name : String) :
    (request.named name).vectorMbs.map (proto.storedFor (request.named name)) =
      (vs.map (storedBulk proto t)).map (·.bytes) := by
  have hmbs : (request.named name).vectorMbs = vs.map (·.bytes) := hm.mbs
  rw [hmbs, ← hm.threshold, List.map_map, List.map_map]
  rfl

theorem storedArgs_short (vs : List Value) : ∀ arg ∈ (vs.map (storedBulk proto t)).map (·.bytes),
    arg.length < 2 ^ 31 := by
  intro arg harg
  obtain ⟨b,hb,rfl⟩ := List.mem_map.mp harg
  obtain ⟨v,-,rfl⟩ := List.mem_map.mp hb
  exact storedBulk_length proto t v

theorem Members.length_eq (hm : Members t request vs) (name : String) :
    (request.named name).vectorMbs.length = vs.length := by
  have hmbs : (request.named name).vectorMbs = vs.map (·.bytes) := hm.mbs
  rw [hmbs, List.length_map]

theorem encodedAs_srem (hr : Addressed request ns key) (hcommand : request.commandType = .srem)
    (hm : Members t request vs) : EncodedAs proto scripts request
      (text "SREM" :: (ns ++ key) :: (vs.map (storedBulk proto t)).map (·.bytes)) scripts := by
  have hkey : (request.named "SREM").nsKey = ns ++ key := hr.nsKey
  have hencode : redisProtoEncode proto scripts none request =
      (redisProtoEncodeSrem proto (request.named "SREM"),scripts) := by
    simp only [redisProtoEncode, hr.unanswered.code, ne_eq, not_true_eq_false, if_false, hcommand]
  rw [redisProtoEncodeSrem, hkey, hm.stored, hm.length_eq] at hencode
  refine encodedAs_build (text "SREM") (vs.length + 2) hencode ?_ ?_
  · simp only [List.length_cons, List.length_map]
  · exact List.forall_mem_cons.mpr ⟨by decide,List.forall_mem_cons.mpr ⟨hr.short,storedArgs_short vs⟩⟩

end SetMembers

section Scripts

variable (hs : Scripted proto server lua shas) (hcache : CacheOf shas scripts)
include hs hcache

theorem encodedAs_incrBy (hr : Addressed request ns key) {n : Int}
    (hcommand : request.commandType = .incr ∨ request.commandType = .incrby) (hvalue : incrValue request = intText n)
    (hn : -2 ^ 31 ≤ n ∧ n < 2 ^ 31) :
    ∃ scripts', CacheOf shas scripts' ∧ EncodedAs proto scripts request [text "EVALSHA",shas .incrby,text "1",ns ++ key,
      intText n,toString32 request.exptime] scripts' := by
  have hencode : redisProtoEncode proto scripts none request = redisProtoEncodeIncrBy proto scripts request := by
    simp only [redisProtoEncode, hr.unanswered.code, ne_eq, not_true_eq_false, if_false]
    rcases hcommand with hcommand | hcommand <;> rw [hcommand]
  have hnum : toString32 n = intText n := (toString32_eq_iff n).mpr hn
  have hne : incrValue request ≠ [] := by
    rw [hvalue, intText]
    split
    · exact List.cons_ne_nil _ _
    · exact decimal_ne_nil _
  let command := if request.commandType = CommandType.incr then text "INCR" else evalsha
  obtain ⟨scripts',hscript,hcache'⟩ := hs.withScript hcache request.nodeIp .incrby fun sha =>
    if incrValue request = [] then .error .redisError
    else
      { request with command := command, value := incrValue request }.build 6
        [evalsha,sha,text "1",request.nsKey,incrValue request,toString32 request.exptime]
  refine ⟨scripts',hcache',command,incrValue request,?_⟩
  rw [hencode, redisProtoEncodeIncrBy, hscript, if_neg hne, build_short, hr.nsKey, hvalue]
  · rfl
  · rfl
  · simp only [List.forall_mem_cons, List.not_mem_nil, IsEmpty.forall_iff, implies_true, and_true, hr.nsKey, hvalue]
    refine ⟨by decide,(hs.named .incrby).2,by decide,hr.short,?_,?_⟩
    · rw [← hnum]
      exact (toString32_length_le _).trans_lt (by norm_num)
    · exact (toString32_length_le _).trans_lt (by norm_num)

theorem encodedAs_sadd (hr : Addressed request ns key) {vs : List Value} (hcommand : request.commandType = .sadd)
    (hm : Members t request vs) :
    ∃ scripts', CacheOf shas scripts' ∧ EncodedAs proto scripts request (text "EVALSHA" :: shas .addRset :: text "1" ::
      (ns ++ key) :: toString32 request.exptime :: decimal vs.length ::
        (vs.map (storedBulk proto t)).map (·.bytes)) scripts' := by
  have hkey : (request.named "SADD").nsKey = ns ++ key := hr.nsKey
  have hcount := hm.count
  have hlength : toString32 (request.named "SADD").vectorMbs.length = decimal vs.length := by
    rw [hm.length_eq, (toString32_eq_iff _).mpr (by omega)]
    rfl
  have hencode : redisProtoEncode proto scripts none request =
      redisProtoEncodeSadd proto scripts (request.named "SADD") := by
    simp only [redisProtoEncode, hr.unanswered.code, ne_eq, not_true_eq_false, if_false, hcommand]
  let mbs := (vs.map (storedBulk proto t)).map (·.bytes)
  obtain ⟨scripts',hscript,hcache'⟩ := hs.withScript hcache request.nodeIp .addRset fun sha =>
    { request.named "SADD" with command := evalsha }.build (vs.length + 6)
      ([evalsha,sha,text "1",ns ++ key,toString32 request.exptime,decimal vs.length] ++ mbs)
  refine ⟨scripts',hcache',evalsha,request.value,?_⟩
  rw [hencode, redisProtoEncodeSadd, hkey, hm.stored, hlength, hm.length_eq]
  refine hscript.trans ?_
  rw [build_short]
  · rfl
  · simp only [mbs, List.length_append, List.length_cons, List.length_map, List.length_nil]
    omega
  · simp only [List.cons_append, List.nil_append, List.forall_mem_cons]
    refine ⟨by decide,(hs.named .addRset).2,by decide,hr.short,?_,?_,storedArgs_short vs⟩
    · exact (toString32_length_le _).trans_lt (by norm_num)
    · rw [← hlength]
      exact (toString32_length_le _).trans_lt (by norm_num)

end Scripts

end Encoding

end QkPack
