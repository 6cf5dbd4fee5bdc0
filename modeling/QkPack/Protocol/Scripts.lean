import QkPack.Lib.Redis
import QkPack.Protocol.CommandArgs

/-!
# The scripts of the configuration

`addMultiKVScript` and `addZSetScript` as the server runs them, and the hashes by which it knows them. A
script that reaches an error, or never ends, has no result.
-/

namespace QkPack
open Wire CString Resp

def scriptOk : Reply := .bulk (some ⟨text "OK",by decide⟩)

/-- `addMultiKVScript`: the value of a key has the number of the key, its expiry stands behind the values. -/
def addMultiKVScript : Redis.LuaScript := fun keys args store => do
  let store ← keys.zipIdx.foldlM (fun store k => do
    Redis.set k.1 (← args[k.2]?) (← args[keys.length + k.2]?) store) store
  return (store,scriptOk)

section AddZSet

variable (numbers : Redis.Numbers) (key limit : Bytes)

/-- The inner loop: the lowest member goes while there are too many. With a limit below zero it goes on for
ever. -/
def trimMembers (limit : Int) : List (Bulk × Double) → Option (List (Bulk × Double))
  | [] => if limit < 0 then none else some []
  | m :: z => if limit < (m :: z).length then trimMembers limit z else some (m :: z)

def addMembers : Nat → List Bytes → Redis.Store → Option Redis.Store
  | 0, _, store => some store
  | n + 1, score :: member :: args, store => do
    let store ← Redis.zadd numbers key score member store
    let z ← trimMembers (← Redis.readInt limit) (← Redis.members store key)
    addMembers n args (Redis.putMembers store key z)
  | _, _, _ => none

end AddZSet

/-- `addZSetScript`: limit, expiry and count stand in front of the scores and members. -/
def addZSetScript (numbers : Redis.Numbers) : Redis.LuaScript
  | key :: _, limit :: seconds :: count :: args, store => do
    let store ← addMembers numbers key limit (← Redis.readNat count) args store
    return (← Redis.expire key seconds store,scriptOk)
  | _, _, _ => none

/-- A server that runs a script by its hash; the other two scripts use commands that are left out. -/
def Knows (node : Redis.Node) (script : Script) (sha : Bytes) : Prop :=
  sha.length = 40 ∧ match script with
    | .addMultikv => node.scripts sha = some addMultiKVScript
    | .addZset => node.scripts sha = some (addZSetScript node.numbers)
    | .incrby | .addRset => True

def Registered (node : Redis.Node) (cache : ScriptCache) : Prop :=
  ∀ ip script, cache ip script ≠ [] → Knows node script (cache ip script)

def Registers (node : Redis.Node) (proto : RedisProto) : Prop :=
  ∀ ip script sha, proto.initClusterScript ip script = some sha → Knows node script sha

section Loading

variable {node : Redis.Node} {proto : RedisProto} {ip : Bytes} {cache : ScriptCache}

theorem Registered.loadScripts (hproto : Registers node proto) (hcache : Registered node cache)
    (list : List Script) : Registered node (loadScripts proto ip list cache).2 := by
  induction list generalizing cache with
  | nil => exact hcache
  | cons script rest ih =>
    unfold QkPack.loadScripts
    split
    · split
      · exact hcache
      · rename_i sha hsha
        apply ih
        intro ip' script' hne
        simp only at hne ⊢
        split
        · rename_i hsame
          obtain ⟨rfl,rfl⟩ := hsame
          exact hproto _ _ _ hsha
        · rename_i hother
          rw [if_neg hother] at hne
          exact hcache ip' script' hne
    · exact ih hcache

theorem withScript_knows (hproto : Registers node proto) (hcache : Registered node cache)
    {script : Script} {build : Bytes → Except EncodeFault Request} {r : Request}
    (hbuilt : (withScript proto ip script cache build).1 = .ok r) :
    Knows node script ((withScript proto ip script cache build).2 ip script) := by
  have hloaded : Registered node (redisProtoEncodeLoadScript proto ip cache).2 :=
    hcache.loadScripts hproto _
  unfold withScript at hbuilt ⊢
  split at hbuilt
  · rename_i cache' hload
    rw [hload] at hloaded
    simp only at hbuilt ⊢
    split at hbuilt
    · cases hbuilt
    · rename_i hne
      exact hloaded ip script hne
  · cases hbuilt

section Sent

variable {parent request built : Request}

theorem encode_mset_knows (hproto : Registers node proto) (hcache : Registered node cache)
    (hcode : request.code = .ok) (hcommand : request.commandType = .mset)
    (hbuilt : (redisProtoEncode proto cache (some parent) request).1 = .ok built) :
    Knows node .addMultikv
      ((redisProtoEncode proto cache (some parent) request).2 request.nodeIp .addMultikv) := by
  have hnot : ¬ request.code ≠ .ok := not_not.mpr hcode
  simp only [redisProtoEncode, if_neg hnot, hcommand, withParent] at hbuilt ⊢
  unfold redisProtoEncodeMset at hbuilt ⊢
  split at hbuilt
  · cases hbuilt
  · exact withScript_knows hproto hcache hbuilt

theorem encode_zadd_knows (hproto : Registers node proto) (hcache : Registered node cache)
    (hcode : request.code = .ok) (hcommand : request.commandType = .zadd)
    (hbuilt : (redisProtoEncode proto cache (some parent) request).1 = .ok built) :
    Knows node .addZset
      ((redisProtoEncode proto cache (some parent) request).2 request.nodeIp .addZset) := by
  have hnot : ¬ request.code ≠ .ok := not_not.mpr hcode
  simp only [redisProtoEncode, if_neg hnot, hcommand, withParent] at hbuilt ⊢
  unfold redisProtoEncodeZfixedsetAdd at hbuilt ⊢
  split at hbuilt
  · cases hbuilt
  · cases hbuilt
  · exact withScript_knows hproto hcache hbuilt

end Sent

end Loading

section MultiKV

variable {seconds : Bytes} {args : List Bytes} {ps : List (Bytes × Bytes)} {store : Redis.Store}

theorem foldlM_set {n i : Nat} (hvalues : ∀ j (hj : j < ps.length), args[i + j]? = some ps[j].2)
    (hseconds : ∀ j < ps.length, args[n + (i + j)]? = some seconds) :
    ((ps.map (·.1)).zipIdx i).foldlM (fun store k => do
      Redis.set k.1 (← args[k.2]?) (← args[n + k.2]?) store) store = Redis.setAll seconds ps store := by
  induction ps generalizing i store with
  | nil => rfl
  | cons p ps ih =>
    have hvalue := hvalues 0 (Nat.zero_lt_succ _)
    have hsecond := hseconds 0 (Nat.zero_lt_succ _)
    rw [Nat.add_zero] at hvalue hsecond
    rw [List.map_cons, List.zipIdx_cons, List.foldlM_cons, Redis.setAll, List.foldlM_cons, hvalue, hsecond]
    simp only [Option.bind_eq_bind, Option.bind_some, List.getElem_cons_zero]
    congr 1
    funext store'
    apply ih
    · intro j hj
      have hlater := hvalues (j + 1) (Nat.succ_lt_succ hj)
      rwa [List.getElem_cons_succ, ← Nat.add_assoc, Nat.add_right_comm] at hlater
    · intro j hj
      have hlater := hseconds (j + 1) (Nat.succ_lt_succ hj)
      rwa [← Nat.add_assoc i, Nat.add_right_comm i] at hlater

/-- Three aligned segments: the script sets the pairs one after the other. -/
theorem addMultiKVScript_eq (seconds : Bytes) (ps : List (Bytes × Bytes)) (store : Redis.Store) :
    addMultiKVScript (ps.map (·.1)) (ps.map (·.2) ++ ps.map fun _ => seconds) store =
      (Redis.setAll seconds ps store).map fun store => (store,scriptOk) := by
  have hvalues (j : Nat) (hj : j < ps.length) :
      (ps.map (·.2) ++ ps.map fun _ => seconds)[0 + j]? = some ps[j].2 := by
    rw [Nat.zero_add, List.getElem?_append_left (by simpa using hj), List.getElem?_map,
      List.getElem?_eq_getElem hj]
    rfl
  have hseconds (j : Nat) (hj : j < ps.length) :
      (ps.map (·.2) ++ ps.map fun _ => seconds)[ps.length + (0 + j)]? = some seconds := by
    rw [Nat.zero_add, List.getElem?_append_right (by simp), List.length_map, Nat.add_sub_cancel_left,
      List.getElem?_map, List.getElem?_eq_getElem hj]
    rfl
  unfold addMultiKVScript
  rw [List.length_map, foldlM_set hvalues hseconds]
  cases Redis.setAll seconds ps store <;> rfl

end MultiKV

section ZSet

variable {numbers : Redis.Numbers} {key limit : Bytes} {n : Int}

theorem trimMembers_few {z : List (Bulk × Double)} (hfew : (z.length : Int) ≤ n) :
    trimMembers n z = some z := by
  cases z with
  | nil =>
    rw [trimMembers, if_neg]
    exact not_lt.mpr hfew
  | cons m z =>
    rw [trimMembers, if_neg]
    exact not_lt.mpr hfew

theorem addMembers_succ {count : Nat} {score member : Bytes} {args : List Bytes}
    {store store' : Redis.Store}
    (hadd : addMembers numbers key limit (count + 1) (score :: member :: args) store = some store')
    (hlimit : Redis.readInt limit = some n) :
    ∃ d b z trimmed, numbers.read score = some d ∧ Redis.bulk? member = some b ∧
      Redis.members store key = some z ∧ trimMembers n (Redis.place (b,d) z) = some trimmed ∧
      addMembers numbers key limit count args (Redis.putMembers
        (Redis.putMembers store key (Redis.place (b,d) z)) key trimmed) = some store' := by
  rw [addMembers, Redis.zadd] at hadd
  simp only [Option.bind_eq_bind, Option.bind_eq_some_iff, hlimit, Option.some.injEq] at hadd
  obtain ⟨store₁,⟨d,hd,b,hb,z,hz,hput⟩,n',rfl,z₁,hz₁,trimmed,htrim,hrest⟩ := hadd
  obtain rfl := Option.some.inj hput
  rw [Redis.members_putMembers, Option.some.injEq] at hz₁
  subst hz₁
  exact ⟨d,b,z,trimmed,hd,hb,hz,htrim,hrest⟩

theorem bulk?_bytes {s : Bytes} {b : Bulk} (h : Redis.bulk? s = some b) : b.bytes = s := by
  unfold Redis.bulk? at h
  split at h
  · cases h
    rfl
  · cases h

def Placed (numbers : Redis.Numbers) (m : Bytes × Bytes) (placed : Bulk × Double) : Prop :=
  numbers.read m.1 = some placed.2 ∧ placed.1.bytes = m.2

theorem addMembers_new (hlimit : Redis.readInt limit = some n) {ms : List (Bytes × Bytes)}
    {z : List (Bulk × Double)} {store store' : Redis.Store} (hz : Redis.members store key = some z)
    (hfew : (z.length : Int) + ms.length ≤ n) (hnew : (ms.map (·.2) ++ z.map (·.1.bytes)).Nodup)
    (hadd : addMembers numbers key limit ms.length (ms.flatMap fun m => [m.1,m.2]) store = some store') :
    ∃ placed z', List.Forall₂ (Placed numbers) ms placed ∧ Redis.members store' key = some z' ∧
      z'.Perm (placed ++ z) ∧ ∀ other, other ≠ key → store' other = store other := by
  induction ms generalizing z store with
  | nil =>
    cases hadd
    exact ⟨[],z,.nil,hz,.refl z,fun _ _ => rfl⟩
  | cons m ms ih =>
    obtain ⟨d,b,z₀,trimmed,hd,hb,hz₀,htrim,hrest⟩ := addMembers_succ hadd hlimit
    cases hz.symm.trans hz₀
    have hbytes := bulk?_bytes hb
    rw [List.map_cons, List.cons_append, List.nodup_cons] at hnew
    obtain ⟨hfresh,hlater⟩ := hnew
    have hplace : (Redis.place (b,d) z).Perm ((b,d) :: z) := by
      apply Redis.place_perm
      rw [hbytes]
      exact fun hmem => hfresh (List.mem_append_right _ hmem)
    have hcount : ((Redis.place (b,d) z).length : Int) = z.length + 1 := by
      rw [hplace.length_eq, List.length_cons, Nat.cast_add, Nat.cast_one]
    rw [List.length_cons, Nat.cast_add, Nat.cast_one] at hfew
    rw [trimMembers_few (by omega), Option.some.injEq] at htrim
    subst htrim
    obtain ⟨placed,z',hplaced,hz',hperm,hother⟩ := ih Redis.members_putMembers (by omega) (by
      have hkeys := (hplace.map (·.1.bytes)).append_left (ms.map (·.2))
      apply hkeys.nodup_iff.mpr
      rw [List.map_cons, List.perm_middle.nodup_iff, List.nodup_cons, hbytes]
      exact ⟨hfresh,hlater⟩) hrest
    refine ⟨(b,d) :: placed,z',.cons ⟨hd,hbytes⟩ hplaced,hz',?_,?_⟩
    · exact hperm.trans ((hplace.append_left placed).trans List.perm_middle)
    · intro other hne
      rw [hother other hne, Redis.putMembers_other hne, Redis.putMembers_other hne]

theorem addZSetScript_new {seconds count : Bytes} {ms : List (Bytes × Bytes)} {store store' : Redis.Store}
    {reply : Reply} (hlimit : Redis.readInt limit = some n) (hcount : Redis.readNat count = some ms.length)
    (hempty : store key = none) (hfew : (ms.length : Int) ≤ n) (hnew : (ms.map (·.2)).Nodup)
    (hrun : addZSetScript numbers [key] (limit :: seconds :: count :: ms.flatMap fun m => [m.1,m.2]) store =
      some (store',reply)) :
    reply = scriptOk ∧ ∃ placed z kept, List.Forall₂ (Placed numbers) ms placed ∧ z.Perm placed ∧
      Redis.readInt seconds = some kept ∧ (0 < kept → Redis.members store' key = some z) ∧
      ∀ other, other ≠ key → store' other = store other := by
  rw [addZSetScript] at hrun
  simp only [hcount, Option.bind_eq_bind, Option.bind_some, Option.bind_eq_some_iff] at hrun
  obtain ⟨store₁,hadd,store₂,hexpire,hreturn⟩ := hrun
  cases hreturn
  have hmembers : Redis.members store key = some [] := by
    rw [Redis.members, hempty]
  obtain ⟨placed,z,hplaced,hz,hperm,hother⟩ := addMembers_new hlimit hmembers (by simpa using hfew)
    (by simpa using hnew) hadd
  obtain ⟨kept,hkept,hsame,hother'⟩ := Redis.expire_some hexpire
  rw [List.append_nil] at hperm
  refine ⟨rfl,placed,z,kept,hplaced,hperm,hkept,?_,?_⟩
  · intro hpos
    rw [hsame hpos, hz]
  · intro other hne
    rw [hother' other hne, hother other hne]

end ZSet

end QkPack
